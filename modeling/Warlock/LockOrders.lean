import Mathlib.Logic.Function.Basic
import Mathlib.Order.Basic

/-!
# Mutexes taken in a fixed order

Parties hold mutexes and wait for mutexes that others hold. When every party waits only for
mutexes that come after all those it holds, waiting cannot go round in a circle: following it from
holder to holder ends at one that does not wait.
-/

namespace Warlock.LockOrders

variable {Party Lock : Type*} {holds waits : Party → Lock → Prop} {rank : Lock → ℕ} {bound : ℕ}

/-- Waiting parties wait for held mutexes, of a rank above those they hold themselves. -/
structure Ordered (rank : Lock → ℕ) (bound : ℕ) (holds waits : Party → Lock → Prop) : Prop where
  held : ∀ q m, waits q m → ∃ q', holds q' m
  rising : ∀ q m m', waits q m → holds q m' → rank m' < rank m
  bounded : ∀ m, rank m ≤ bound

theorem Ordered.runner (h : Ordered rank bound holds waits) {q : Party} {m : Lock}
    (hw : waits q m) : ∃ q' m', holds q' m' ∧ ∀ k, ¬ waits q' k := by
  obtain ⟨n, hn⟩ : ∃ n, bound - rank m = n := ⟨_, rfl⟩
  induction n using Nat.strongRecOn generalizing q m with
  | _ n ih =>
    obtain ⟨q', hq'⟩ := h.held q m hw
    by_cases hwaits : ∃ k, waits q' k
    · obtain ⟨k, hk⟩ := hwaits
      have hrank := h.rising q' k m hk hq'
      have hbound := h.bounded k
      exact ih (bound - rank k) (by omega) hk rfl
    · exact ⟨q', m, hq', fun k hk => hwaits ⟨k, hk⟩⟩

section Ownership

variable [DecidableEq Lock] {owner : Lock → Option Party} {holds' : Party → Lock → Prop}
  {q : Party} {m : Lock}

/-- Each mutex is owned by the party that believes to hold it. -/
def Assigned (owner : Lock → Option Party) (holds : Party → Lock → Prop) : Prop :=
  ∀ q m, owner m = some q ↔ holds q m

omit [DecidableEq Lock] in
theorem Assigned.congr (h : Assigned owner holds) (hq : ∀ q k, holds' q k ↔ holds q k) :
    Assigned owner holds' := fun q k => (h q k).trans (hq q k).symm

theorem Assigned.take (h : Assigned owner holds) (hm : owner m = none)
    (hq : ∀ k, holds' q k ↔ k = m ∨ holds q k) (ho : ∀ q' k, q' ≠ q → (holds' q' k ↔ holds q' k)) :
    Assigned (Function.update owner m (some q)) holds' := by
  have hfree (q' : Party) : ¬ holds q' m := fun hq' => by simp [(h q' m).mpr hq'] at hm
  intro q' k
  by_cases hqq : q' = q
  · subst hqq
    rw [hq, ← h]
    by_cases hk : k = m
    · simp [hk]
    · simp [hk]
  · rw [ho q' k hqq, ← h]
    by_cases hk : k = m
    · subst hk
      simp [hm, Ne.symm hqq]
    · simp [hk]

theorem Assigned.giveBack (h : Assigned owner holds) (hm : holds q m)
    (hq : ∀ k, holds' q k ↔ k ≠ m ∧ holds q k) (ho : ∀ q' k, q' ≠ q → (holds' q' k ↔ holds q' k)) :
    Assigned (Function.update owner m none) holds' := by
  have howner : owner m = some q := (h q m).mpr hm
  intro q' k
  by_cases hqq : q' = q
  · subst hqq
    rw [hq, ← h]
    by_cases hk : k = m
    · simp [hk]
    · simp [hk]
  · rw [ho q' k hqq, ← h]
    by_cases hk : k = m
    · subst hk
      simp [howner, Ne.symm hqq]
    · simp [hk]

end Ownership

end Warlock.LockOrders
