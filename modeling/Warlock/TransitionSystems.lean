import Mathlib.Logic.Relation
import Mathlib.Data.List.Basic

/-!
# Guarded executable transition systems

`step s e` is `some s'` exactly when event `e` is enabled in state `s`. One function
serves for replaying a concrete list of events and for proofs about every run: a run
carries its whole history, newest step first, so a statement may speak of what
happened earlier in the same run.
-/

namespace Warlock.TransitionSystems

universe u v

structure System (S : Type u) (E : Type v) where
  initial : S
  step : S → E → Option S

variable {S : Type u} {E : Type v}

namespace System

/-- A path from `s`; the history lists each step's source state and event, newest first. -/
inductive Path (m : System S E) (s : S) : List (S × E) → S → Prop
  | refl : Path m s [] s
  | step {past : List (S × E)} {a b : S} {e : E} (h : Path m s past a)
      (he : m.step a e = some b) : Path m s ((a, e) :: past) b

def Run (m : System S E) : List (S × E) → S → Prop := Path m m.initial

/-- Every step of the history meets a condition on its source state and event. -/
def Meets (ok : S → E → Prop) (past : List (S × E)) : Prop := ∀ p ∈ past, ok p.1 p.2

def Reachable (m : System S E) (s : S) : Prop := ∃ past, m.Run past s

/-- Reached by a run all of whose steps meet `ok`. -/
def ReachableVia (m : System S E) (ok : S → E → Prop) (s : S) : Prop :=
  ∃ past, m.Run past s ∧ Meets ok past

variable {m : System S E} {ok : S → E → Prop} {s a b c : S} {e : E}
  {past later : List (S × E)}

@[simp] theorem meets_nil : Meets ok [] := by simp [Meets]

@[simp] theorem meets_cons {p : S × E} :
    Meets ok (p :: past) ↔ ok p.1 p.2 ∧ Meets ok past := by
  simp [Meets]

@[simp] theorem meets_append :
    Meets ok (later ++ past) ↔ Meets ok later ∧ Meets ok past := by
  simp only [Meets, List.mem_append]
  exact ⟨fun h => ⟨fun p hp => h p (.inl hp), fun p hp => h p (.inr hp)⟩,
    fun h p hp => hp.elim (h.1 p) (h.2 p)⟩

theorem Path.trans (h : Path m a past b) (h' : Path m b later c) :
    Path m a (later ++ past) c := by
  induction h' with
  | refl => exact h
  | step _ he ih => exact .step ih he

theorem Path.single (he : m.step a e = some b) : Path m a [(a, e)] b := .step .refl he

theorem Run.reachable (h : m.Run past s) : m.Reachable s := ⟨past, h⟩

theorem Reachable.initial : m.Reachable m.initial := ⟨[], .refl⟩

theorem Reachable.step (h : m.Reachable a) (he : m.step a e = some b) : m.Reachable b := by
  obtain ⟨past, h⟩ := h
  exact ⟨_, .step h he⟩

theorem Reachable.path (h : m.Reachable a) (hp : Path m a past b) : m.Reachable b := by
  obtain ⟨before, h⟩ := h
  exact ⟨_, h.trans hp⟩

theorem ReachableVia.reachable (h : m.ReachableVia ok s) : m.Reachable s := by
  obtain ⟨past, h, _⟩ := h
  exact ⟨past, h⟩

/-- A property of the start that every allowed step keeps holds at the end of a path. -/
theorem Path.keeps {P : S → Prop} (h : Path m a past b) (hm : Meets ok past) (ha : P a)
    (hstep : ∀ s e s', P s → ok s e → m.step s e = some s' → P s') : P b := by
  induction h with
  | refl => exact ha
  | step h he ih =>
    obtain ⟨ho, hm⟩ := meets_cons.mp hm
    exact hstep _ _ _ (ih hm) ho he

theorem Path.invariant {P : S → Prop} (h : Path m a past b) (ha : P a)
    (hstep : ∀ s e s', P s → m.step s e = some s' → P s') : P b := by
  have hm : Meets (fun _ _ => True) past := fun _ _ => trivial
  exact h.keeps hm ha fun s e s' hs _ he => hstep s e s' hs he

theorem Reachable.invariant {P : S → Prop} (h : m.Reachable s) (h₀ : P m.initial)
    (hstep : ∀ s e s', P s → m.step s e = some s' → P s') : P s := by
  obtain ⟨past, h⟩ := h
  exact Path.invariant h h₀ hstep

/-- A step of the history was taken from a state that the run had reached by then. -/
theorem Path.split (h : Path m a past b) {p : S × E} (hp : p ∈ past) :
    ∃ after before s', past = after ++ p :: before ∧ Path m a before p.1 ∧
      m.step p.1 p.2 = some s' ∧ Path m s' after b := by
  induction h with
  | refl => simp at hp
  | @step past s s₁ e h he ih =>
    rcases List.mem_cons.mp hp with rfl | hp
    · exact ⟨[], past, s₁, rfl, h, he, .refl⟩
    · obtain ⟨after, before, s', rfl, hb, hs, ha⟩ := ih hp
      exact ⟨(s, e) :: after, before, s', rfl, hb, hs, .step ha he⟩

/-- Taking a path apart where its history is split. -/
theorem Path.of_append (h : Path m a (later ++ past) b) :
    ∃ s, Path m a past s ∧ Path m s later b := by
  induction later generalizing b with
  | nil => exact ⟨b, h, .refl⟩
  | cons p later ih =>
    cases h with
    | step h he =>
      obtain ⟨s, hs, hl⟩ := ih h
      exact ⟨s, hs, .step hl he⟩

/-- Replay a list of events, oldest first. -/
def replay (m : System S E) : S → List E → Option S
  | s, [] => some s
  | s, e :: es => match m.step s e with
    | some s' => replay m s' es
    | none => none

/-- A replay is a path whose history has the given events. -/
theorem path_of_replay {es : List E} (h : m.replay a es = some b) :
    ∃ past, Path m a past b ∧ past.map Prod.snd = es.reverse := by
  induction es generalizing a with
  | nil => exact ⟨[], by simp only [replay, Option.some.injEq] at h; exact h ▸ .refl, rfl⟩
  | cons e es ih =>
    simp only [replay] at h
    cases hs : m.step a e with
    | none => simp [hs] at h
    | some s =>
      simp only [hs] at h
      obtain ⟨past, hp, he⟩ := ih h
      exact ⟨past ++ [(a, e)], (Path.single hs).trans hp, by simp [he]⟩

theorem reachable_of_replay {es : List E} (h : m.replay m.initial es = some s) :
    m.Reachable s := by
  obtain ⟨past, hp, _⟩ := path_of_replay h
  exact ⟨past, hp⟩

/-- The state a replay from the start ends in; a replay that gets stuck stays at the start. -/
def after (m : System S E) (es : List E) : S := (m.replay m.initial es).getD m.initial

theorem Reachable.after (es : List E) : m.Reachable (m.after es) := by
  unfold System.after
  cases h : m.replay m.initial es with
  | none => exact .initial
  | some s => exact reachable_of_replay h

/-- A replay that stops short of a step that does not meet `ok`. -/
def replayVia (m : System S E) (ok : S → E → Prop) [∀ s e, Decidable (ok s e)] :
    S → List E → Option S
  | s, [] => some s
  | s, e :: es => if ok s e then match m.step s e with
      | some s' => replayVia m ok s' es
      | none => none
    else none

theorem path_of_replayVia [∀ s e, Decidable (ok s e)] {es : List E}
    (h : m.replayVia ok a es = some b) : ∃ past, Path m a past b ∧ Meets ok past := by
  induction es generalizing a with
  | nil => exact ⟨[], by simp only [replayVia, Option.some.injEq] at h; exact h ▸ .refl, meets_nil⟩
  | cons e es ih =>
    simp only [replayVia] at h
    split at h
    · rename_i hok
      cases hs : m.step a e with
      | none => simp [hs] at h
      | some s =>
        simp only [hs] at h
        obtain ⟨past, hp, hm⟩ := ih h
        exact ⟨past ++ [(a, e)], (Path.single hs).trans hp, meets_append.mpr ⟨hm, by simp [hok]⟩⟩
    · simp at h

def afterVia (m : System S E) (ok : S → E → Prop) [∀ s e, Decidable (ok s e)] (es : List E) : S :=
  (m.replayVia ok m.initial es).getD m.initial

theorem ReachableVia.afterVia [∀ s e, Decidable (ok s e)] (es : List E) :
    m.ReachableVia ok (m.afterVia ok es) := by
  unfold System.afterVia
  cases h : m.replayVia ok m.initial es with
  | none => exact ⟨[], .refl, meets_nil⟩
  | some s => exact path_of_replayVia h

/-- Every step of the history meets a condition that may look at what happened before. -/
def Along (ok : List (S × E) → S → E → Prop) : List (S × E) → Prop
  | [] => True
  | p :: past => ok past p.1 p.2 ∧ Along ok past

instance {ok : List (S × E) → S → E → Prop} [∀ past s e, Decidable (ok past s e)] :
    DecidablePred (Along ok) := fun past => by
  induction past with
  | nil => exact isTrue trivial
  | cons p past ih => exact @instDecidableAnd _ _ _ ih

theorem Path.along_iff {ok ok' : List (S × E) → S → E → Prop} (h : Path m a past b)
    (hok : ∀ past s e s', Path m a past s → m.step s e = some s' →
      (ok past s e ↔ ok' past s e)) : Along ok past ↔ Along ok' past := by
  induction h with
  | refl => exact Iff.rfl
  | step h he ih => exact and_congr (hok _ _ _ _ h he) ih

/-- A state that the run has been in. -/
def Visits (past : List (S × E)) (s x : S) : Prop := x = s ∨ ∃ e, (x, e) ∈ past

theorem visits_cons {p : S × E} {x : S} : Visits (p :: past) s x ↔ x = s ∨ Visits past p.1 x := by
  obtain ⟨a, e⟩ := p
  constructor
  · intro h
    rcases h with rfl | ⟨e', he⟩
    · exact .inl rfl
    · rcases List.mem_cons.mp he with he | he
      · exact .inr (.inl (congrArg Prod.fst he))
      · exact .inr (.inr ⟨e', he⟩)
  · intro h
    rcases h with rfl | rfl | ⟨e', he⟩
    · exact .inl rfl
    · exact .inr ⟨e, .head _⟩
    · exact .inr ⟨e', .tail _ he⟩

/-- Where a step keeps the property exactly if it meets `ok`, the property holds all along a
path exactly if all its steps do. -/
theorem Path.always_iff {P : S → Prop} (h : Path m a past b) (ha : P a)
    (hstep : ∀ past s e s', Path m a past s → P s → m.step s e = some s' → (P s' ↔ ok s e)) :
    (∀ x, Visits past b x → P x) ↔ Meets ok past := by
  induction h with
  | refl =>
    constructor
    · intro _
      exact meets_nil
    · intro _ x hx
      rcases hx with rfl | ⟨e, he⟩
      · exact ha
      · simp at he
  | @step past s s' e h he ih =>
    constructor
    · intro hall
      have hpast : ∀ x, Visits past s x → P x := fun x hx => hall x (visits_cons.mpr (.inr hx))
      have hs : P s := hpast s (.inl rfl)
      exact meets_cons.mpr ⟨(hstep _ _ _ _ h hs he).mp (hall s' (.inl rfl)), ih.mp hpast⟩
    · intro hm x hx
      obtain ⟨hok, hm⟩ := meets_cons.mp hm
      have hpast := ih.mpr hm
      rcases visits_cons.mp hx with rfl | hx
      · exact (hstep _ _ _ _ h (hpast s (.inl rfl)) he).mpr hok
      · exact hpast x hx

/-- A replay with its history, as far as it gets. -/
def follow (m : System S E) : List (S × E) → S → List E → List (S × E) × S
  | past, s, [] => (past, s)
  | past, s, e :: es => match m.step s e with
    | some s' => follow m ((s, e) :: past) s' es
    | none => (past, s)

theorem Path.follow (h : Path m a past b) (es : List E) :
    Path m a (m.follow past b es).1 (m.follow past b es).2 := by
  induction es generalizing past b with
  | nil => exact h
  | cons e es ih =>
    unfold System.follow
    cases he : m.step b e with
    | none => exact h
    | some s => exact ih (.step h he)

/-- The history of a replay from the start. -/
def historyOf (m : System S E) (es : List E) : List (S × E) := (m.follow [] m.initial es).1

def endOf (m : System S E) (es : List E) : S := (m.follow [] m.initial es).2

theorem run_follow (es : List E) : m.Run (m.historyOf es) (m.endOf es) := Path.refl.follow es

end System

end Warlock.TransitionSystems
