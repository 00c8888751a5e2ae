import Warlock.EffectPrograms
import Warlock.TransitionSystems
import Mathlib.Logic.Hydra
import Mathlib.Order.GameAdd

/-!
# What every run comes to

Where only some of the events can happen, a system may be bound to get into a state of a given
kind: every run of such events is finite, and one that has not got there can go on. This follows
when each event makes something smaller. For tasks that run interleaved it is the code that is
left of them: a step replaces the program of one task by a part of it.
-/

namespace Warlock.Inevitability
open EffectPrograms Relation TransitionSystems

universe u v

section Runs

variable {S : Type u} {E : Type v} {m : System S E} {drives occurs : E → Prop} {P : S → Prop}
  {s : S}

/-- Every run of events that `occurs` allows gets into `P`; until then an event that `drives`
can happen next. -/
inductive Inevitable (m : System S E) (drives occurs : E → Prop) (P : S → Prop) : S → Prop
  | now {s : S} (h : P s) : Inevitable m drives occurs P s
  | later {s : S} (hnext : ∃ e s', drives e ∧ m.step s e = some s')
      (hall : ∀ e s', occurs e → m.step s e = some s' → Inevitable m drives occurs P s') :
      Inevitable m drives occurs P s

/-- The driving events alone get the system there. -/
theorem Inevitable.reached (h : Inevitable m drives occurs P s)
    (hd : ∀ e, drives e → occurs e) :
    ∃ past s', System.Path m s past s' ∧ System.Meets (fun _ e => drives e) past ∧ P s' := by
  induction h with
  | @now s h => exact ⟨[], s, .refl, System.meets_nil, h⟩
  | later hnext hall ih =>
    obtain ⟨e, s', he, hstep⟩ := hnext
    obtain ⟨past, t, hp, hm, ht⟩ := ih e s' (hd e he) hstep
    refine ⟨_, t, (System.Path.single hstep).trans hp, ?_, ht⟩
    exact System.meets_append.mpr ⟨hm, by simp [he]⟩

/-- There is no infinite run of allowed events that keeps out of `P`. -/
theorem Inevitable.met (h : Inevitable m drives occurs P s) {f : ℕ → S} (h₀ : f 0 = s)
    (hf : ∀ i, ∃ e, occurs e ∧ m.step (f i) e = some (f (i + 1))) : ∃ i, P (f i) := by
  induction h generalizing f with
  | now h => exact ⟨0, h₀ ▸ h⟩
  | later hnext hall ih =>
    obtain ⟨e, he, hstep⟩ := hf 0
    have hstep : m.step _ e = some (f 1) := h₀ ▸ hstep
    obtain ⟨i, hi⟩ := ih e (f 1) he hstep (f := fun i => f (i + 1)) rfl fun i => hf (i + 1)
    exact ⟨i + 1, hi⟩

theorem inevitable_of_wellFounded {r : S → S → Prop} (hr : WellFounded r) {I : S → Prop}
    (hkept : ∀ s e s', I s → occurs e → m.step s e = some s' → I s' ∧ r s' s)
    (hnext : ∀ s, I s → ¬ P s → ∃ e s', drives e ∧ m.step s e = some s') (hs : I s) :
    Inevitable m drives occurs P s := by
  induction s using hr.induction with
  | _ s ih =>
    by_cases hP : P s
    · exact .now hP
    · apply Inevitable.later (hnext s hs hP)
      intro e s' he hstep
      obtain ⟨hs', hlt⟩ := hkept s e s' hs he hstep
      exact ih s' hlt hs'

end Runs

section Descents

variable {Op : Type} {Reply : Op → Type} {Leaf α : Type}

/-- What one operation of a program, or an exit there, leaves of it. -/
inductive ProgramAfter : Program Reply Leaf → Program Reply Leaf → Prop
  | next (o : Op) (may : Exit → Bool) (exit : Exit → Program Reply Leaf)
      (next : Reply o → Program Reply Leaf) (r : Reply o) :
      ProgramAfter (next r) (.op o may exit next)
  | exit (o : Op) (may : Exit → Bool) (exit : Exit → Program Reply Leaf)
      (next : Reply o → Program Reply Leaf) (e : Exit) :
      ProgramAfter (exit e) (.op o may exit next)

theorem wellFounded_programAfter :
    WellFounded (ProgramAfter : Program Reply Leaf → Program Reply Leaf → Prop) := by
  constructor
  intro p
  induction p with
  | ret l => exact ⟨_, fun q hq => by cases hq⟩
  | op o may exit next hexit hnext =>
    constructor
    intro q hq
    cases hq with
    | next r => exact hnext _
    | exit e => exact hexit _

/-- Of many, one gets smaller. -/
theorem cutExpand_set {β : Type*} {r : β → β → Prop} {l : List β} {n : ℕ} {a a' : β}
    (hn : l[n]? = some a) (h : r a' a) :
    CutExpand r (l.set n a' : Multiset β) (l : Multiset β) := by
  obtain ⟨hlt, ha⟩ := List.getElem?_eq_some_iff.mp hn
  have hnew : (l.set n a').Perm (a' :: (l.take n ++ l.drop (n + 1))) := by
    rw [List.set_eq_take_append_cons_drop, if_pos hlt]
    exact List.perm_middle
  have hold : l.Perm (a :: (l.take n ++ l.drop (n + 1))) := by
    conv_lhs => rw [← List.take_append_drop n l, List.drop_eq_getElem_cons hlt, ha]
    exact List.perm_middle
  rw [Multiset.coe_eq_coe.mpr hnew, Multiset.coe_eq_coe.mpr hold, ← Multiset.cons_coe,
    ← Multiset.cons_coe, ← Multiset.singleton_add, ← Multiset.singleton_add]
  exact cutExpand_single_add h _

end Descents

end Warlock.Inevitability
