import Mathlib.Data.List.AList
import Mathlib.Algebra.BigOperators.Group.List.Basic
import Mathlib.Algebra.GroupWithZero.Nat

/-!
# Totals over the values of an association map

A map from keys to values is a Mathlib `AList`. A total weighs every value once, so an
insertion of a new key adds its weight and a removal takes it away again.
-/

namespace Warlock.AssociationMaps

variable {α β : Type*}

abbrev Map (α β : Type*) := AList (fun _ : α => β)

def values (m : Map α β) : List β := m.entries.map Sigma.snd

def total (f : β → ℕ) (m : Map α β) : ℕ := ((values m).map f).sum

@[simp] theorem values_empty : values (∅ : Map α β) = [] := rfl

@[simp] theorem total_empty (f : β → ℕ) : total f (∅ : Map α β) = 0 := rfl

variable [DecidableEq α] {m : Map α β} {a : α} {b b' : β} (f : β → ℕ)

theorem entries_of_lookup (h : m.lookup a = some b) :
    ∃ l r, m.entries = l ++ ⟨a, b⟩ :: r ∧ (m.erase a).entries = l ++ r := by
  have ha : a ∈ m.entries.keys := AList.mem_keys.mp (AList.lookup_isSome.mp (by simp [h]))
  obtain ⟨b', l, r, hl, he, hk⟩ := List.exists_of_kerase ha
  have hb : m.lookup a = some b' := by
    rw [AList.lookup, he, List.dlookup_append]
    simp [List.dlookup_eq_none.mpr hl]
  obtain rfl : b = b' := Option.some.inj (h.symm.trans hb)
  exact ⟨l, r, he, hk⟩

theorem total_erase (h : m.lookup a = some b) :
    f b + total f (m.erase a) = total f m := by
  obtain ⟨l, r, he, hk⟩ := entries_of_lookup h
  simp only [total, values, he, hk, List.map_append, List.map_cons, List.sum_append,
    List.sum_cons]
  omega

theorem erase_of_lookup_none (h : m.lookup a = none) : m.erase a = m := by
  apply AList.ext
  exact List.kerase_of_notMem_keys (AList.lookup_eq_none.mp h)

theorem total_erase_le : total f (m.erase a) ≤ total f m := by
  cases h : m.lookup a with
  | none => rw [erase_of_lookup_none h]
  | some b =>
    have := total_erase f h
    omega

theorem total_insert (h : m.lookup a = none) :
    total f (m.insert a b) = f b + total f m := by
  have he : (m.insert a b).entries = ⟨a, b⟩ :: m.entries :=
    AList.entries_insert_of_notMem (AList.lookup_eq_none.mp h)
  simp only [total, values, he, List.map_cons, List.sum_cons]

/-- An insertion drops the old binding of its key. -/
theorem insert_eq_insert_erase : m.insert a b = (m.erase a).insert a b := by
  apply AList.ext
  rw [AList.entries_insert, AList.entries_insert_of_notMem (by simp [AList.mem_erase])]
  rfl

theorem total_replace (h : m.lookup a = some b) :
    total f (m.insert a b') + f b = total f m + f b' := by
  have ha : (m.erase a).lookup a = none := AList.lookup_erase a m
  have he := total_erase f h
  rw [insert_eq_insert_erase, total_insert f ha]
  omega

theorem lookup_insert (a' : α) :
    (m.insert a b).lookup a' = if a' = a then some b else m.lookup a' := by
  by_cases h : a' = a
  · subst h
    simp
  · simp [h]

theorem lookup_erase (a' : α) :
    (m.erase a).lookup a' = if a' = a then none else m.lookup a' := by
  by_cases h : a' = a
  · subst h
    simp
  · simp [h]

end Warlock.AssociationMaps
