import Warlock.SubnetAddressing
import Warlock.TransitionSystems
import Mathlib.Data.Finset.Card
import Mathlib.Data.List.Nodup
import Mathlib.Order.CompletePartialOrder
import Mathlib.Order.Interval.Set.Basic

/-!
# Histories of the subnet pool

An allocation is live until its index is released. Whatever was called before, the pool hands
out the smallest index that is not live, and says no only when all of them are. The blocks of
live allocations lie apart in `172.16.0.0/16`, and their names and addresses are their own.
-/

namespace Warlock.SubnetHistories
open MachineIntegers SubnetAddressing TransitionSystems

inductive Call
  | allocate
  | release (index : U16)

def call (pool : SubnetPool) : Call → Option SubnetPool
  | .allocate => some ((pool.allocate.map Prod.snd).getD pool)
  | .release index => pool.release index

/-- A call is enabled where it does not panic. -/
def pools : System SubnetPool Call := ⟨.new, call⟩

abbrev Calls := List (SubnetPool × Call)

/-- The allocations that have not been released since, newest first. -/
def live : Calls → List SubnetAllocation
  | [] => []
  | (pool, .allocate) :: past => (pool.allocate.map Prod.fst).toList ++ live past
  | (_, .release index) :: past => (live past).filter (·.index ≠ index)

def Live (past : Calls) (i : U16) : Prop := ∃ a ∈ live past, a.index = i

/-- The address as a number, most significant octet first. -/
def addressValue (ip : Ipv4Addr) : ℕ :=
  ((ip.a.toNat * 256 + ip.b.toNat) * 256 + ip.c.toNat) * 256 + ip.d.toNat

/-- The address `172.16.0.0`. -/
def baseAddress : ℕ := addressValue ⟨172, 16, 0, 0⟩

def networkAddress (i : U16) : ℕ := baseAddress + 4 * i.toNat

def broadcastAddress (i : U16) : ℕ := networkAddress i + 3

def block (i : U16) : Set ℕ := Set.Icc (networkAddress i) (broadcastAddress i)

/-- The range `172.16.0.0/16`. -/
def poolRange : Set ℕ := Set.Icc baseAddress (baseAddress + 65535)

/-- A host address of the block, neither its network nor its broadcast address. -/
structure HostAddress (i : U16) (n : ℕ) : Prop where
  member : n ∈ block i
  network : n ≠ networkAddress i
  broadcast : n ≠ broadcastAddress i

structure Addressed (a : SubnetAllocation) : Prop where
  tapIp : addressValue a.tapIp = networkAddress a.index + 1
  guestIp : addressValue a.guestIp = networkAddress a.index + 2
  tapHost : HostAddress a.index (addressValue a.tapIp)
  guestHost : HostAddress a.index (addressValue a.guestIp)
  inRange : block a.index ⊆ poolRange
  nameLength : a.tapName.length ≤ 15

structure Apart (a b : SubnetAllocation) : Prop where
  block : Disjoint (block a.index) (block b.index)
  tapName : a.tapName ≠ b.tapName

/-- An allocation hands out the position it has found, whole. -/
structure Allocates (pool : SubnetPool) (past : Calls) (a : SubnetAllocation) : Prop where
  exact : pool.slots.findIdx? (fun used => !used) = some a.index.toNat
  fresh : ¬ Live past a.index
  least : ∀ j < a.index, Live past j

variable {pool : SubnetPool} {past : Calls} {i j : U16} {a b : SubnetAllocation}

section Addresses

theorem hostIp_value (host : U32) (hh : host.toNat < 4) (hi : i.toNat < maxSubnets) :
    addressValue (subnetHostIp host i) = networkAddress i + host.toNat := by
  have hoctets := subnetHostIp_octets host i hh hi
  have ha : (subnetHostIp host i).a.toNat = 172 := rfl
  have hb : (subnetHostIp host i).b.toNat = 16 := rfl
  have hbase : baseAddress = 172 * 16777216 + 16 * 65536 := rfl
  unfold networkAddress addressValue
  omega

theorem tapName_length (hi : i.toNat < maxSubnets) : (tapName i).length ≤ 15 := by
  have hdigits : (toString i.toNat).length ≤ 5 := by
    apply Nat.repr_length _ _ (by omega)
    unfold maxSubnets at hi
    omega
  have htwo : "fc".length = 2 := rfl
  unfold tapName
  rw [String.length_append]
  omega

theorem hostAddress_of_offset {n : ℕ} (k : ℕ) (h : n = networkAddress i + k) (h₁ : 1 ≤ k)
    (h₂ : k ≤ 2) : HostAddress i n := by
  constructor
  · constructor
    · omega
    · unfold broadcastAddress
      omega
  · omega
  · unfold broadcastAddress
    omega

theorem addressed (a : SubnetAllocation) : Addressed a := by
  have htap : addressValue a.tapIp = networkAddress a.index + 1 := by
    rw [a.tapIp_eq]
    exact hostIp_value 1 (by decide) a.inPool
  have hguest : addressValue a.guestIp = networkAddress a.index + 2 := by
    rw [a.guestIp_eq]
    exact hostIp_value 2 (by decide) a.inPool
  refine ⟨htap, hguest, hostAddress_of_offset 1 htap (by omega) (by omega),
    hostAddress_of_offset 2 hguest (by omega) (by omega), ?_, ?_⟩
  · intro n hn
    obtain ⟨hlo, hhi⟩ := hn
    have hi := a.inPool
    unfold broadcastAddress networkAddress at *
    unfold maxSubnets at hi
    constructor <;> omega
  · rw [a.tapName_eq]
    exact tapName_length a.inPool

theorem apart (h : a.index ≠ b.index) : Apart a b := by
  constructor
  · apply Set.disjoint_left.mpr
    intro n hn hn'
    apply h
    apply BitVec.eq_of_toNat_eq
    obtain ⟨_, _⟩ := hn
    obtain ⟨_, _⟩ := hn'
    unfold broadcastAddress networkAddress at *
    omega
  · intro hname
    apply h
    rw [a.tapName_eq, b.tapName_eq] at hname
    exact tapName_injective hname

end Addresses

section Histories

/-- What the history says of the pool: the live allocations are the slots in use. -/
structure Recorded (past : Calls) (pool : SubnetPool) : Prop where
  members : ∀ i, Live past i ↔ i ∈ pool.inUse
  distinct : ((live past).map (·.index)).Nodup

theorem Recorded.allocate (h : Recorded past pool) :
    Recorded ((pool, .allocate) :: past) ((pool.allocate.map Prod.snd).getD pool) := by
  cases ha : pool.allocate with
  | none =>
    have hlive : live ((pool, .allocate) :: past) = live past := by
      simp [live, ha]
    constructor
    · intro i
      simpa [Live, hlive] using h.members i
    · rw [hlive]
      exact h.distinct
  | some r =>
    obtain ⟨a, pool'⟩ := r
    obtain ⟨hfree, huse, _⟩ := SubnetPool.allocate_eq_some ha
    have hlive : live ((pool, .allocate) :: past) =
        a :: live past := by
      simp [live, ha]
    constructor
    · intro i
      have hi : (∃ b ∈ live past, b.index = i) ↔ i ∈ pool.inUse := h.members i
      simp only [Live, hlive, List.exists_mem_cons_iff, hi, Option.map_some, Option.getD_some,
        huse, Set.mem_insert_iff]
      rw [eq_comm]
    · rw [hlive, List.map_cons, List.nodup_cons]
      refine ⟨?_, h.distinct⟩
      intro hmem
      obtain ⟨b, hb, hi⟩ := List.mem_map.mp hmem
      exact hfree ((h.members _).mp ⟨b, hb, hi⟩)

theorem Recorded.release (h : Recorded past pool) {index : U16} {pool' : SubnetPool}
    (hr : pool.release index = some pool') : Recorded ((pool, .release index) :: past) pool' := by
  obtain ⟨pool'', hr', huse⟩ := SubnetPool.release_eq_some pool (SubnetPool.release_lt hr)
  obtain rfl : pool' = pool'' := Option.some.inj (hr.symm.trans hr')
  constructor
  · intro i
    rw [huse, Set.mem_sdiff, Set.mem_singleton_iff, ← h.members i]
    constructor
    · intro hi
      obtain ⟨a, ha, rfl⟩ := hi
      simp only [live, List.mem_filter, decide_eq_true_eq] at ha
      exact ⟨⟨a, ha.1, rfl⟩, ha.2⟩
    · intro hi
      obtain ⟨⟨a, ha, rfl⟩, hne⟩ := hi
      exact ⟨a, List.mem_filter.mpr ⟨ha, by simpa using hne⟩, rfl⟩
  · apply List.Nodup.sublist _ h.distinct
    exact (List.filter_sublist).map _

theorem recorded_of_run (h : pools.Run past pool) : Recorded past pool := by
  induction h with
  | refl =>
    constructor
    · intro i
      have hnew : pools.initial.inUse = ∅ := SubnetPool.inUse_new
      simp [Live, live, hnew]
    · exact List.nodup_nil
  | @step past s s' e _ he ih =>
    cases e with
    | allocate =>
      obtain rfl := Option.some.inj he
      exact ih.allocate
    | release index => exact ih.release he

/-- The pool is exhausted exactly when every index is live, each of them once. -/
theorem Recorded.allocate_isSome (h : Recorded past pool) :
    pool.allocate.isSome = true ↔ (live past).length < maxSubnets := by
  let indices := ((live past).map (·.index.toNat)).toFinset
  have hnodup : ((live past).map (·.index.toNat)).Nodup := by
    have hmap : (live past).map (·.index.toNat) =
        ((live past).map (·.index)).map BitVec.toNat := by simp
    rw [hmap]
    exact h.distinct.map fun _ _ he => BitVec.eq_of_toNat_eq he
  have hcard : indices.card = (live past).length := by
    rw [List.toFinset_card_of_nodup hnodup, List.length_map]
  have hmem (k : ℕ) : k ∈ indices ↔ ∃ i : U16, Live past i ∧ i.toNat = k := by
    simp [indices, Live, and_comm]
  have hsub : indices ⊆ Finset.range maxSubnets := by
    intro k hk
    obtain ⟨i, hi, rfl⟩ := (hmem k).mp hk
    exact Finset.mem_range.mpr (SubnetPool.lt_of_inUse ((h.members i).mp hi))
  have hall : (∀ i : U16, i.toNat < maxSubnets → i ∈ pool.inUse) ↔
      indices = Finset.range maxSubnets := by
    constructor
    · intro hfull
      apply Finset.Subset.antisymm hsub
      intro k hk
      have hk := Finset.mem_range.mp hk
      have hk16 : (BitVec.ofNat 16 k).toNat = k := by
        unfold maxSubnets at hk
        simp only [BitVec.toNat_ofNat]
        omega
      exact (hmem k).mpr ⟨BitVec.ofNat 16 k, (h.members _).mpr (hfull _ (by omega)), hk16⟩
    · intro heq i hi
      have hk : i.toNat ∈ indices := by
        rw [heq]
        exact Finset.mem_range.mpr hi
      obtain ⟨j, hj, hji⟩ := (hmem i.toNat).mp hk
      obtain rfl : j = i := BitVec.eq_of_toNat_eq hji
      exact (h.members j).mp hj
  have hle : indices.card ≤ maxSubnets := by
    simpa using Finset.card_le_card hsub
  rw [← hcard, Option.isSome_iff_ne_none, Ne, SubnetPool.allocate_eq_none, hall]
  constructor
  · intro hne
    apply lt_of_le_of_ne hle
    intro hc
    apply hne
    apply Finset.eq_of_subset_of_card_le hsub
    rw [Finset.card_range, hc]
  · intro hlt heq
    rw [heq, Finset.card_range] at hlt
    exact lt_irrefl _ hlt

theorem Recorded.allocates (h : Recorded past pool) {pool' : SubnetPool}
    (ha : pool.allocate = some (a, pool')) : Allocates pool past a := by
  obtain ⟨hfree, _, hleast⟩ := SubnetPool.allocate_eq_some ha
  refine ⟨SubnetPool.position_of_allocate ha, fun hl => hfree ((h.members _).mp hl), ?_⟩
  intro j hj
  exact (h.members j).mpr (hleast j hj)

theorem Recorded.pairwise (h : Recorded past pool) :
    (live past).Pairwise Apart := by
  have hd := List.pairwise_map.mp h.distinct
  exact hd.imp fun hne => apart hne

end Histories

/-- The pool over all histories of calls that stay in its range. -/
theorem pool_histories (h : pools.Run past pool) :
    (∀ i : U16, i.toNat < maxSubnets → (call pool (.release i)).isSome = true) ∧
    (pool.allocate.isSome = true ↔ (live past).length < maxSubnets) ∧
    (∀ a pool', pool.allocate = some (a, pool') → Allocates pool past a) ∧
    (∀ a ∈ live past, Addressed a) ∧ (live past).Pairwise Apart := by
  have hr := recorded_of_run h
  refine ⟨?_, hr.allocate_isSome, fun a pool' ha => hr.allocates ha, fun a _ => addressed a,
    hr.pairwise⟩
  intro i hi
  obtain ⟨pool', hp, _⟩ := SubnetPool.release_eq_some pool hi
  simp [call, hp]

/-- Two allocations, a release of the first, and an allocation that gets its index again. -/
def reuse : List Call := [.allocate, .allocate, .release 0, .allocate]

theorem pool_histories_afterReuse :
    (live (pools.historyOf reuse)).map (·.index) = [0, 1] ∧
      (∀ a ∈ live (pools.historyOf reuse), Addressed a) ∧
      (live (pools.historyOf reuse)).Pairwise Apart := by
  have hrun : pools.Run (pools.historyOf reuse) (pools.endOf reuse) := System.run_follow reuse
  exact ⟨by decide +kernel, (pool_histories hrun).2.2.2⟩

end Warlock.SubnetHistories
