import Warlock.ScriptExecutions

/-!
# What a script may end with

A script depends on the outside by the replies to its operations only. Given which replies are
possible, it may end with some results and not with others; a script that can fail succeeds with
a result where each of its parts does. Which operations it performs at all is a property of its
text, whatever the replies.
-/

namespace Warlock.EffectPrograms
open ScriptExecutions

variable {Op : Type} {Reply : Op → Type} {α β ε : Type}

/-- The script may end with the result where `W` says what may be replied. -/
def Script.Yields (W : (o : Op) → Reply o → Prop) : Script Reply α → α → Prop
  | done a, b => b = a
  | run o next, b => ∃ r, W o r ∧ (next r).Yields W b

/-- The script performs no other operations, on any way. -/
def Script.Only (P : Op → Prop) : Script Reply α → Prop
  | done _ => True
  | run o next => P o ∧ ∀ r, (next r).Only P

/-- A script that can fail. -/
abbrev Attempt (Reply : Op → Type) (ε α : Type) := ExceptT ε (Script Reply) α

def Attempt.ask (o : Op) : Attempt Reply ε (Reply o) := ExceptT.lift (Script.perform o)

/-- The script may succeed with the result. -/
def Attempt.Succeeds (W : (o : Op) → Reply o → Prop) (x : Attempt Reply ε α) (a : α) : Prop :=
  Script.Yields W (ExceptT.run x) (.ok a)

def Attempt.Only (P : Op → Prop) (x : Attempt Reply ε α) : Prop := Script.Only P (ExceptT.run x)

variable {W : (o : Op) → Reply o → Prop} {P : Op → Prop} {a b : α} {c : β}

theorem Script.yields_bind {s : Script Reply α} {f : α → Script Reply β} :
    (s >>= f).Yields W c ↔ ∃ a, s.Yields W a ∧ (f a).Yields W c := by
  induction s with
  | done a =>
    constructor
    · exact fun h => ⟨a, rfl, h⟩
    · rintro ⟨_, rfl, h⟩
      exact h
  | run o next ih =>
    constructor
    · rintro ⟨r, hr, h⟩
      obtain ⟨a, ha, hc⟩ := (ih r).mp h
      exact ⟨a, ⟨r, hr, ha⟩, hc⟩
    · rintro ⟨a, ⟨r, hr, ha⟩, hc⟩
      exact ⟨r, hr, (ih r).mpr ⟨a, ha, hc⟩⟩

theorem Script.Yields.mono {W' : (o : Op) → Reply o → Prop} {s : Script Reply α}
    (h : s.Yields W b) (hW : ∀ o r, W o r → W' o r) : s.Yields W' b := by
  induction s with
  | done a => exact h
  | run o next ih =>
    obtain ⟨r, hr, h⟩ := h
    exact ⟨r, hW o r hr, ih r h⟩

theorem Script.only_perform {o : Op} (h : P o) : (Script.perform o : Script Reply _).Only P :=
  ⟨h, fun _ => trivial⟩

theorem Script.only_bind {s : Script Reply α} {f : α → Script Reply β} (hs : s.Only P)
    (hf : ∀ a, (f a).Only P) : (s >>= f).Only P := by
  induction s with
  | done a => exact hf a
  | run o next ih => exact ⟨hs.1, fun r => ih r (hs.2 r)⟩

theorem Script.Only.execution {Env S : Type} {act : (o : Op) → Env → S → Option (S × Reply o)}
    {s : Script Reply α} {σ σ' : S} {trace : List (Op × Env)} (hs : s.Only P)
    (h : Execution act s σ trace σ' a) : ∀ p ∈ trace, P p.1 := by
  induction h with
  | done => simp
  | run _ _ ih => exact List.forall_mem_cons.mpr ⟨hs.1, ih (hs.2 _)⟩

namespace Attempt

variable {x : Attempt Reply ε α} {f : α → Attempt Reply ε β}

@[simp] theorem succeeds_pure : Succeeds W (pure a : Attempt Reply ε α) b ↔ b = a :=
  ⟨fun h => Except.ok.inj h, fun h => congrArg Except.ok h⟩

@[simp] theorem succeeds_throw {e : ε} : ¬ Succeeds W (throw e : Attempt Reply ε α) a := by
  intro h
  cases h

@[simp] theorem succeeds_ask {o : Op} {r : Reply o} :
    Succeeds W (ask o : Attempt Reply ε (Reply o)) r ↔ W o r := by
  constructor
  · rintro ⟨r', hr, h⟩
    obtain rfl := Except.ok.inj h
    exact hr
  · exact fun hr => ⟨r, hr, rfl⟩

@[simp] theorem succeeds_bind :
    Succeeds W (x >>= f) c ↔ ∃ a, Succeeds W x a ∧ Succeeds W (f a) c := by
  refine Script.yields_bind.trans ?_
  constructor
  · rintro ⟨r, hr, h⟩
    cases r with
    | ok a => exact ⟨a, hr, h⟩
    | error e => cases h
  · rintro ⟨a, ha, h⟩
    exact ⟨.ok a, ha, h⟩

theorem only_pure : Only P (pure a : Attempt Reply ε α) := trivial

theorem only_throw {e : ε} : Only P (throw e : Attempt Reply ε α) := trivial

theorem only_ask {o : Op} (h : P o) : Only P (ask o : Attempt Reply ε (Reply o)) :=
  ⟨h, fun _ => trivial⟩

theorem only_bind (hx : Only P x) (hf : ∀ a, Only P (f a)) : Only P (x >>= f) := by
  refine Script.only_bind hx fun r => ?_
  cases r with
  | ok a => exact hf a
  | error e => trivial

end Attempt

end Warlock.EffectPrograms
