import Warlock.MachineIntegers
import Warlock.RustText
import Mathlib.Data.Set.Insert

/-!
# The pool of `/30` subnets

A pool is a bitmap over the 16384 subnets of `172.16.0.0/16`, `true` for a subnet in use.
An allocation carries the addresses and the tap name of its index together with the fact
that they are that index's own.
-/

namespace Warlock.SubnetAddressing
open MachineIntegers

def maxSubnets : ℕ := 16384

structure Ipv4Addr where
  a : U8
  b : U8
  c : U8
  d : U8
  deriving DecidableEq, Repr

def Ipv4Addr.display (ip : Ipv4Addr) : String :=
  toString ip.a.toNat ++ "." ++ toString ip.b.toNat ++ "." ++ toString ip.c.toNat ++ "." ++
    toString ip.d.toNat

/-- Host `host` of subnet `index`: `172.16.[(4*N+host)/256].[(4*N+host)%256]`. -/
def subnetHostIp (host : U32) (index : U16) : Ipv4Addr :=
  let offset := 4 * index.setWidth 32 + host
  ⟨172, 16, (offset / 256).setWidth 8, (offset % 256).setWidth 8⟩

def subnetTapIp (index : U16) : Ipv4Addr := subnetHostIp 1 index

def subnetGuestIp (index : U16) : Ipv4Addr := subnetHostIp 2 index

def tapName (index : U16) : String := "fc" ++ toString index.toNat

/-- The kernel `ip=` argument `ip=<guest_ip>::<gateway>:<netmask>::<iface>:off`. -/
def buildNetworkBootArgs (guestIp tapIp : Ipv4Addr) : String :=
  "ip=" ++ guestIp.display ++ "::" ++ tapIp.display ++ ":255.255.255.252::eth0:off"

/-- A subnet allocation for a single VM. -/
structure SubnetAllocation where
  index : U16
  tapIp : Ipv4Addr
  guestIp : Ipv4Addr
  tapName : String
  inPool : index.toNat < maxSubnets
  tapIp_eq : tapIp = subnetTapIp index
  guestIp_eq : guestIp = subnetGuestIp index
  tapName_eq : tapName = SubnetAddressing.tapName index

theorem SubnetAllocation.eq_of_index {a b : SubnetAllocation} (h : a.index = b.index) : a = b := by
  obtain ⟨i, _, _, _, _, rfl, rfl, rfl⟩ := a
  obtain ⟨j, _, _, _, _, rfl, rfl, rfl⟩ := b
  obtain rfl : i = j := h
  rfl

def SubnetAllocation.ofIndex (index : U16) (h : index.toNat < maxSubnets) : SubnetAllocation where
  index := index
  tapIp := subnetTapIp index
  guestIp := subnetGuestIp index
  tapName := SubnetAddressing.tapName index
  inPool := h
  tapIp_eq := rfl
  guestIp_eq := rfl
  tapName_eq := rfl

structure SubnetPool where
  slots : List Bool
  size : slots.length = maxSubnets

namespace SubnetPool

def new : SubnetPool := ⟨List.replicate maxSubnets false, List.length_replicate⟩

private theorem free_lt {pool : SubnetPool} {i : ℕ}
    (h : pool.slots.findIdx? (fun used => !used) = some i) :
    (BitVec.ofNat 16 i).toNat < maxSubnets := by
  have hi := (List.findIdx?_eq_some_iff_getElem.mp h).choose
  rw [pool.size] at hi
  simp only [BitVec.toNat_ofNat, maxSubnets] at hi ⊢
  omega

/-- Allocates the first free subnet, `none` if all are in use. -/
def allocate (pool : SubnetPool) : Option (SubnetAllocation × SubnetPool) :=
  match h : pool.slots.findIdx? (fun used => !used) with
  | none => none
  | some i => some (.ofIndex (BitVec.ofNat 16 i) (free_lt h),
      ⟨pool.slots.set i true, by rw [List.length_set, pool.size]⟩)

/-- Releases a subnet; the indexing panics (`none`) outside the bitmap. -/
def release (pool : SubnetPool) (index : U16) : Option SubnetPool :=
  if index.toNat < maxSubnets then
    some ⟨pool.slots.set index.toNat false, by rw [List.length_set, pool.size]⟩
  else none

def inUse (pool : SubnetPool) : Set U16 := {i | pool.slots[i.toNat]? = some true}

variable {pool pool' : SubnetPool} {i j : U16} {a : SubnetAllocation}

instance : Decidable (i ∈ pool.inUse) := inferInstanceAs (Decidable (_ = _))

theorem lt_of_inUse (h : i ∈ pool.inUse) : i.toNat < maxSubnets :=
  pool.size ▸ (List.getElem?_eq_some_iff.mp h).1

theorem inUse_new : new.inUse = ∅ := by
  ext i
  simp [inUse, new, List.getElem?_replicate]

theorem allocate_eq_some (h : pool.allocate = some (a, pool')) :
    a.index ∉ pool.inUse ∧ pool'.inUse = insert a.index pool.inUse ∧
      ∀ j < a.index, j ∈ pool.inUse := by
  unfold allocate at h
  split at h
  · simp at h
  · rename_i k hk
    obtain ⟨rfl, rfl⟩ := by simpa using h
    obtain ⟨hlt, hfree, hbefore⟩ := List.findIdx?_eq_some_iff_getElem.mp hk
    have hk16 : (BitVec.ofNat 16 k).toNat = k := by
      rw [pool.size] at hlt
      simp only [BitVec.toNat_ofNat, maxSubnets] at hlt ⊢
      omega
    have hself : pool.slots[k]? = some false := by
      rw [List.getElem?_eq_getElem hlt]
      simpa using hfree
    refine ⟨by simp only [inUse, SubnetAllocation.ofIndex, Set.mem_ofPred_eq, hk16, hself]; simp,
      ?_, fun j hj => ?_⟩
    · ext j
      simp only [inUse, SubnetAllocation.ofIndex, Set.mem_ofPred_eq, Set.mem_insert_iff]
      by_cases hj : j = BitVec.ofNat 16 k
      · simp [hj, hk16, hlt]
      · have hne : k ≠ j.toNat := by
          rintro rfl
          exact hj (by simp)
        simp [hj, List.getElem?_set_ne hne]
    · have hj : j.toNat < k := by
        have := BitVec.lt_def.mp hj
        simpa [SubnetAllocation.ofIndex, hk16] using this
      have hjl : j.toNat < pool.slots.length := by omega
      simp only [inUse, Set.mem_ofPred_eq, List.getElem?_eq_getElem hjl]
      simpa using hbefore j.toNat hj

/-- The index is the position that was found; its conversion loses nothing. -/
theorem position_of_allocate (h : pool.allocate = some (a, pool')) :
    pool.slots.findIdx? (fun used => !used) = some a.index.toNat := by
  unfold allocate at h
  split at h
  · simp at h
  · rename_i k hk
    obtain ⟨rfl, rfl⟩ := by simpa using h
    have hlt := (List.findIdx?_eq_some_iff_getElem.mp hk).choose
    rw [pool.size] at hlt
    have hk16 : (BitVec.ofNat 16 k).toNat = k := by
      simp only [BitVec.toNat_ofNat, maxSubnets] at hlt ⊢
      omega
    simpa [SubnetAllocation.ofIndex, hk16] using hk

theorem allocate_eq_none :
    pool.allocate = none ↔ ∀ i : U16, i.toNat < maxSubnets → i ∈ pool.inUse := by
  constructor
  · intro h i hi
    have hnone : pool.slots.findIdx? (fun used => !used) = none := by
      unfold allocate at h
      split at h
      · assumption
      · simp at h
    have hil : i.toNat < pool.slots.length := by rwa [pool.size]
    have := List.findIdx?_eq_none_iff.mp hnone _ (List.getElem_mem hil)
    simp only [inUse, Set.mem_ofPred_eq, List.getElem?_eq_getElem hil]
    simpa using this
  · intro h
    cases ha : pool.allocate with
    | none => rfl
    | some r =>
      obtain ⟨a, pool'⟩ := r
      exact absurd (h a.index a.inPool) (allocate_eq_some ha).1

theorem release_eq_some (pool : SubnetPool) (hi : i.toNat < maxSubnets) :
    ∃ pool', pool.release i = some pool' ∧ pool'.inUse = pool.inUse \ {i} := by
  refine ⟨_, if_pos hi, ?_⟩
  ext j
  simp only [inUse, Set.mem_ofPred_eq, Set.mem_sdiff, Set.mem_singleton_iff]
  by_cases hj : j = i
  · have hl : i.toNat < pool.slots.length := by rwa [pool.size]
    simp [hj, hl]
  · have hne : i.toNat ≠ j.toNat := fun h => hj (BitVec.eq_of_toNat_eq h.symm)
    simp [hj, List.getElem?_set_ne hne]

theorem release_lt (h : pool.release i = some pool') : i.toNat < maxSubnets := by
  unfold release at h
  split at h
  · assumption
  · simp at h

end SubnetPool

theorem tapName_injective : Function.Injective tapName := by
  intro i j h
  have h := (String.append_right_inj _).mp h
  exact BitVec.eq_of_toNat_eq (RustText.toString_nat_injective h)

/-- The address arithmetic stays far below the width of its integers. -/
theorem offset_toNat (host : U32) (index : U16) (hh : host.toNat < 4) :
    (4 * index.setWidth 32 + host).toNat = 4 * index.toNat + host.toNat := by
  have h4 : (4 : U32).toNat = 4 := rfl
  have hi := index.isLt
  rw [BitVec.toNat_add, BitVec.toNat_mul, BitVec.toNat_setWidth, h4]
  omega

/-- The last two octets spell the offset in base 256. -/
theorem subnetHostIp_octets (host : U32) (index : U16) (hh : host.toNat < 4)
    (hi : index.toNat < maxSubnets) :
    256 * (subnetHostIp host index).c.toNat + (subnetHostIp host index).d.toNat =
      4 * index.toNat + host.toNat := by
  have h256 : (256 : U32).toNat = 256 := rfl
  simp only [subnetHostIp, BitVec.toNat_setWidth, BitVec.toNat_udiv, BitVec.toNat_umod,
    offset_toNat host index hh, h256]
  unfold maxSubnets at hi
  omega

/-- Distinct subnets of the pool have distinct guest addresses. -/
theorem subnetGuestIp_injective {i j : U16} (hi : i.toNat < maxSubnets)
    (hj : j.toNat < maxSubnets) (h : subnetGuestIp i = subnetGuestIp j) : i = j := by
  have hio := subnetHostIp_octets 2 i (by decide) hi
  have hjo := subnetHostIp_octets 2 j (by decide) hj
  unfold subnetGuestIp at h
  rw [h, hjo] at hio
  exact BitVec.eq_of_toNat_eq (by omega)

end Warlock.SubnetAddressing
