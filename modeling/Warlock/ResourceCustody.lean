import Mathlib.Logic.Basic

/-!
# Custody of resources

A custody relation says which owners hold which resources. It is exclusive when no
resource has two owners, and it covers a set of present resources when each of them has
an owner. Ownership only ever shrinks or moves one resource to one new owner.
-/

namespace Warlock.ResourceCustody

variable {O R : Type*} {own own' : O → R → Prop} {has has' : R → Prop}

def Exclusive (own : O → R → Prop) : Prop := ∀ o o' i, own o i → own o' i → o = o'

def Covers (own : O → R → Prop) (has : R → Prop) : Prop := ∀ i, has i → ∃ o, own o i

theorem Exclusive.mono (h : Exclusive own) (hsub : ∀ o i, own' o i → own o i) :
    Exclusive own' :=
  fun o o' i ho ho' => h o o' i (hsub o i ho) (hsub o' i ho')

/-- Resource `i` moves to `b` and leaves everybody else. -/
theorem Exclusive.move (h : Exclusive own) {i : R} {b : O}
    (hmove : ∀ o j, own' o j → own o j ∧ j ≠ i ∨ o = b ∧ j = i) : Exclusive own' := by
  intro o o' j ho ho'
  rcases hmove o j ho with ⟨ho, hj⟩ | ⟨rfl, rfl⟩
  · rcases hmove o' j ho' with ⟨ho', _⟩ | ⟨_, rfl⟩
    · exact h o o' j ho ho'
    · exact absurd rfl hj
  · rcases hmove o' j ho' with ⟨_, hj⟩ | ⟨rfl, _⟩
    · exact absurd rfl hj
    · rfl

/-- `b` takes over from `a`, who is left with nothing. -/
theorem Exclusive.pass (h : Exclusive own) {a b : O} (ha : ∀ i, ¬ own' a i)
    (hb : ∀ i, own' b i → own a i)
    (hother : ∀ o i, o ≠ a → o ≠ b → own' o i → own o i) : Exclusive own' := by
  have hnew (o : O) (i : R) (hob : o ≠ b) (ho : own' o i) : o ≠ a ∧ own o i := by
    have hoa : o ≠ a := fun heq => ha i (heq ▸ ho)
    exact ⟨hoa, hother o i hoa hob ho⟩
  intro o o' i ho ho'
  by_cases hob : o = b
  · subst hob
    by_cases hob' : o' = o
    · exact hob'.symm
    · obtain ⟨hoa, ho'⟩ := hnew o' i hob' ho'
      exact absurd (h o' a i ho' (hb i ho)) hoa
  · obtain ⟨hoa, ho⟩ := hnew o i hob ho
    by_cases hob' : o' = b
    · subst hob'
      exact absurd (h o a i ho (hb i ho')) hoa
    · exact h o o' i ho (hnew o' i hob' ho').2

/-- Cover survives a step after which every present resource either has an owner or was
present before, with each of its owners replaced. -/
theorem Covers.step (h : Covers own has)
    (hstep : ∀ i, has' i → (∃ o, own' o i) ∨ has i ∧ ∀ o, own o i → ∃ o', own' o' i) :
    Covers own' has' := by
  intro i hi
  rcases hstep i hi with ho | ⟨hi, hk⟩
  · exact ho
  · obtain ⟨o, ho⟩ := h i hi
    exact hk o ho

end Warlock.ResourceCustody
