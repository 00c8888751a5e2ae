import Mathlib.Data.List.Basic
import Mathlib.Algebra.BigOperators.Group.List.Basic
import Mathlib.Algebra.GroupWithZero.Nat

/-!
# Sums and differences of fixed-width unsigned integers

A sum that leaves its width wraps in a release build and panics in a debug build.
`wrappingSum` is the first, `checkedSum` the second; a list whose exact sum fits its
width is one on which the two agree with the exact sum.
-/

namespace Warlock.MachineIntegers

abbrev U8 := BitVec 8
abbrev U16 := BitVec 16
abbrev U32 := BitVec 32
abbrev U64 := BitVec 64

variable {w : ℕ}

/-- `saturating_sub`. -/
def saturatingSub (a b : BitVec w) : BitVec w := if b ≤ a then a - b else 0

/-- `checked_add`: the addition of a debug build, which panics on overflow. -/
def checkedAdd (a b : BitVec w) : Option (BitVec w) :=
  if a.toNat + b.toNat < 2 ^ w then some (a + b) else none

def wrappingSum (xs : List (BitVec w)) : BitVec w := xs.foldl (· + ·) 0

def checkedSum (xs : List (BitVec w)) : Option (BitVec w) := xs.foldlM checkedAdd 0

def exactSum (xs : List (BitVec w)) : ℕ := (xs.map BitVec.toNat).sum

@[simp] theorem exactSum_nil : exactSum ([] : List (BitVec w)) = 0 := rfl

@[simp] theorem exactSum_cons (x : BitVec w) (xs : List (BitVec w)) :
    exactSum (x :: xs) = x.toNat + exactSum xs := by simp [exactSum]

theorem saturatingSub_toNat (a b : BitVec w) : (saturatingSub a b).toNat = a.toNat - b.toNat := by
  unfold saturatingSub
  split
  · exact BitVec.toNat_sub_of_le ‹_›
  · rename_i h
    have := BitVec.not_le.mp h
    simp only [BitVec.lt_def] at this
    have hz : (0 : BitVec w).toNat = 0 := by simp
    omega

private theorem foldl_add_toNat (xs : List (BitVec w)) (a : BitVec w)
    (h : a.toNat + exactSum xs < 2 ^ w) :
    (xs.foldl (· + ·) a).toNat = a.toNat + exactSum xs ∧
      xs.foldlM checkedAdd a = some (xs.foldl (· + ·) a) := by
  induction xs generalizing a with
  | nil => exact ⟨by simp, rfl⟩
  | cons x xs ih =>
    rw [exactSum_cons] at h
    have hadd : (a + x).toNat = a.toNat + x.toNat := BitVec.toNat_add_of_lt (by omega)
    obtain ⟨hs, hc⟩ := ih (a + x) (by omega)
    constructor
    · rw [List.foldl_cons, hs, exactSum_cons]
      omega
    · have hx : checkedAdd a x = some (a + x) := if_pos (by omega)
      simpa [List.foldlM_cons, hx] using hc

theorem wrappingSum_toNat (xs : List (BitVec w)) (h : exactSum xs < 2 ^ w) :
    (wrappingSum xs).toNat = exactSum xs := by
  have hs := (foldl_add_toNat xs 0 (by simpa using h)).1
  simpa [wrappingSum] using hs

theorem checkedSum_eq (xs : List (BitVec w)) (h : exactSum xs < 2 ^ w) :
    checkedSum xs = some (wrappingSum xs) :=
  (foldl_add_toNat xs 0 (by simpa using h)).2

end Warlock.MachineIntegers
