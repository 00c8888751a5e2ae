import Warlock.EffectPrograms

/-!
# Executions of scripts

An execution is one way through a script: every operation acts on a state as the environment
chose. Its trace lists the operations and the choices, oldest first. A course is one way through
the program of a task that is not left early, with the replies it got; what else happens to the
state in between does not matter to it.
-/

namespace Warlock.ScriptExecutions
open EffectPrograms

variable {Op : Type} {Reply : Op → Type} {Env S α β : Type}
  {act : (o : Op) → Env → S → Option (S × Reply o)}

inductive Execution (act : (o : Op) → Env → S → Option (S × Reply o)) :
    Script Reply α → S → List (Op × Env) → S → α → Prop
  | done (a : α) (s : S) : Execution act (.done a) s [] s a
  | run {o : Op} {next : Reply o → Script Reply α} {s s₁ s' : S} {c : Env} {r : Reply o}
      {trace : List (Op × Env)} {a : α} (ha : act o c s = some (s₁, r))
      (h : Execution act (next r) s₁ trace s' a) :
      Execution act (.run o next) s ((o, c) :: trace) s' a

namespace Execution

variable {s s' : S} {trace : List (Op × Env)} {b : β}

@[simp] theorem pure_iff {a a' : α} :
    Execution act (pure a : Script Reply α) s trace s' a' ↔ trace = [] ∧ s' = s ∧ a' = a := by
  constructor
  · intro h
    cases h
    exact ⟨rfl, rfl, rfl⟩
  · intro h
    obtain ⟨rfl, rfl, rfl⟩ := h
    exact .done a' s'

@[simp] theorem perform_iff {o : Op} {r : Reply o} :
    Execution act (Script.perform o) s trace s' r ↔
      ∃ c, act o c s = some (s', r) ∧ trace = [(o, c)] := by
  constructor
  · intro h
    cases h with
    | @run _ _ _ _ _ c _ _ _ ha h =>
      cases h
      exact ⟨c, ha, rfl⟩
  · intro h
    obtain ⟨c, ha, rfl⟩ := h
    exact .run ha (.done r s')

/-- An execution of two scripts in sequence is one of the first and then one of the second. -/
@[simp] theorem bind_iff {x : Script Reply α} {f : α → Script Reply β} :
    Execution act (x >>= f) s trace s' b ↔
      ∃ before s₁ a later, Execution act x s before s₁ a ∧ Execution act (f a) s₁ later s' b ∧
        trace = before ++ later := by
  constructor
  · intro h
    induction x generalizing s trace with
    | done a => exact ⟨[], s, a, trace, .done a s, h, rfl⟩
    | run o next ih =>
      cases h with
      | run ha h =>
        obtain ⟨before, s₁, a, later, hx, hf, rfl⟩ := ih _ h
        exact ⟨_ :: before, s₁, a, later, .run ha hx, hf, rfl⟩
  · intro h
    obtain ⟨before, s₁, a, later, hx, hf, rfl⟩ := h
    induction hx with
    | done a s => exact hf
    | run ha _ ih => exact .run ha (ih hf)

end Execution

inductive Course {Leaf : Type} : Program Reply Leaf → List (Σ o, Reply o) → Leaf → Prop
  | ret (leaf : Leaf) : Course (.ret leaf) [] leaf
  | op {o : Op} {may : Exit → Bool} {exit : Exit → Program Reply Leaf}
      {next : Reply o → Program Reply Leaf} {r : Reply o} {replies : List (Σ o, Reply o)}
      {leaf : Leaf} (h : Course (next r) replies leaf) :
      Course (.op o may exit next) (⟨o, r⟩ :: replies) leaf

namespace Course

variable {Leaf : Type} {u : Program Reply Leaf} {replies : List (Σ o, Reply o)} {leaf : Leaf}

theorem of_ret {l : Leaf} (h : Course (.ret l : Program Reply Leaf) replies leaf) :
    replies = [] ∧ leaf = l := by
  cases h
  exact ⟨rfl, rfl⟩

theorem of_op {o : Op} {may : Exit → Bool} {exit : Exit → Program Reply Leaf}
    {next : Reply o → Program Reply Leaf} (h : Course (.op o may exit next) replies leaf) :
    ∃ r later, replies = ⟨o, r⟩ :: later ∧ Course (next r) later leaf := by
  cases h with
  | op h => exact ⟨_, _, rfl, h⟩

end Course

end Warlock.ScriptExecutions
