import Warlock.ServerInvariant

/-!
# No overcommit

The totals over all entries of the map stay within the capacity of the host, whatever runs
interleaved and whatever fails or is dropped on the way. Because of that the 8-bit sum of
vCPUs never leaves its width. With the map unlocked every live instance has its entry.
-/

namespace Warlock.CapacitySafety
open ApplicationState AssociationMaps MachineIntegers ReservationProtocol Server ServerInvariant
  ServerOperations SshSession TransitionSystems VmConfiguration VmIdentifiers VmRegistry

def vcpus (e : VmEntry) : ℕ := e.res.vcpus.toNat

def memoryMb (e : VmEntry) : ℕ := e.res.memoryMb.toNat

structure WithinCapacity (capacity : Capacity) (vms : VmMap) : Prop where
  vcpus : total vcpus vms ≤ capacity.vcpus.toNat
  memory : total memoryMb vms ≤ capacity.allocatableMemoryMb.toNat

variable {capacity : Capacity} {vms vms' : VmMap}

theorem WithinCapacity.mono (h : WithinCapacity capacity vms)
    (hv : total CapacitySafety.vcpus vms' ≤ total CapacitySafety.vcpus vms)
    (hm : total memoryMb vms' ≤ total memoryMb vms) : WithinCapacity capacity vms' :=
  ⟨hv.trans h.vcpus, hm.trans h.memory⟩

theorem exactSum_vcpus (vms : VmMap) :
    exactSum ((values vms).map (·.res.vcpus)) = total vcpus vms := by
  simp only [exactSum, total, List.map_map]
  rfl

theorem exactSum_memory (vms : VmMap) :
    exactSum ((values vms).map fun e => (e.res.memoryMb.setWidth 64 : U64)) =
      total memoryMb vms := by
  simp only [exactSum, total, List.map_map]
  refine congrArg List.sum (List.map_congr_left fun e _ => ?_)
  have := e.res.memoryMb.isLt
  simp only [Function.comp_apply, BitVec.toNat_setWidth, memoryMb]
  omega

/-- Within the capacity the 8-bit sum is exact and its additions do not overflow. -/
theorem WithinCapacity.allocatedVcpus_exact (h : WithinCapacity capacity vms) :
    checkedSum ((values vms).map (·.res.vcpus)) = some (allocatedVcpus vms) ∧
      (allocatedVcpus vms).toNat = total CapacitySafety.vcpus vms := by
  have hlt : exactSum ((values vms).map (·.res.vcpus)) < 2 ^ 8 := by
    rw [exactSum_vcpus]
    exact h.vcpus.trans_lt capacity.vcpus.isLt
  exact ⟨checkedSum_eq _ hlt, (wrappingSum_toNat _ hlt).trans (exactSum_vcpus vms)⟩

theorem WithinCapacity.allocatedMemory_exact (h : WithinCapacity capacity vms) :
    (allocatedMemory vms).toNat = total memoryMb vms := by
  have hlt : exactSum ((values vms).map fun e => (e.res.memoryMb.setWidth 64 : U64)) < 2 ^ 64 := by
    rw [exactSum_memory]
    exact h.memory.trans_lt capacity.allocatableMemoryMb.isLt
  exact (wrappingSum_toNat _ hlt).trans (exactSum_memory vms)

theorem total_insert_le (vms : VmMap) (f : VmEntry → ℕ) (id : Uuid) (e : VmEntry) :
    total f (vms.insert id e) ≤ f e + total f vms := by
  rw [insert_eq_insert_erase, total_insert f (AList.lookup_erase id vms)]
  exact Nat.add_le_add_left (total_erase_le f) _

/-- An entry that replaces one of the same weight keeps the total. -/
theorem total_reinsert (f : VmEntry → ℕ) {id : Uuid} {e e' : VmEntry}
    (h : vms.lookup id = some e) (he : f e' = f e) :
    total f ((vms.erase id).insert id e') = total f vms := by
  have hreplace : total f (vms.insert id e') + f e = total f vms + f e' := total_replace f h
  rw [← insert_eq_insert_erase]
  omega

/-- The capacity window admits a placeholder only where its amounts fit. -/
theorem WithinCapacity.reserve (h : WithinCapacity capacity vms) (vmId : Uuid)
    (resources : VmResources) :
    WithinCapacity capacity (reserve capacity vmId resources vms).1 := by
  rcases reserve_cases capacity vmId resources vms with ⟨e, he, _⟩ | ⟨he, hv, hm⟩
  · rw [he]
    exact h
  · rw [he]
    rw [saturatingSub_toNat, h.allocatedVcpus_exact.2] at hv
    rw [saturatingSub_toNat, h.allocatedMemory_exact] at hm
    constructor
    · have := total_insert_le vms CapacitySafety.vcpus vmId (.creating resources)
      have := h.vcpus
      simp only [CapacitySafety.vcpus, Entry.res] at *
      omega
    · have := total_insert_le vms memoryMb vmId (.creating resources)
      have := h.memory
      simp only [memoryMb, Entry.res] at *
      omega

theorem WithinCapacity.upgrade (h : WithinCapacity capacity vms) (vmId : Uuid) :
    WithinCapacity capacity (upgrade vmId vms).1 := by
  unfold VmRegistry.upgrade
  split
  · rename_i r hr
    exact h.mono (total_reinsert CapacitySafety.vcpus hr rfl).le (total_reinsert memoryMb hr rfl).le
  · exact h.mono (total_erase_le _) (total_erase_le _)

theorem WithinCapacity.take (h : WithinCapacity capacity vms) (id : Uuid) :
    WithinCapacity capacity (take id vms).1 := by
  unfold VmRegistry.take
  split
  · exact h.mono (total_erase_le _) (total_erase_le _)
  · rename_i r hr
    exact h.mono (total_reinsert CapacitySafety.vcpus hr rfl).le (total_reinsert memoryMb hr rfl).le
  · exact h.mono (total_erase_le _) (total_erase_le _)

/-- Every critical section keeps the totals within the capacity. -/
theorem WithinCapacity.section (h : WithinCapacity capacity vms) (s : VmRegistry.Section) :
    WithinCapacity capacity (s.run capacity vms).1 := by
  cases s with
  | reserve vmId resources => exact h.reserve vmId resources
  | upgrade vmId => exact h.upgrade vmId
  | remove id => exact h.mono (total_erase_le _) (total_erase_le _)
  | take id => exact h.take id
  | discard id => exact h.mono (total_erase_le _) (total_erase_le _)
  | get id => exact h
  | entries => exact h
  | info => exact h

variable {config : AppConfig} {lib : Libraries} {s s' : State}

theorem WithinCapacity.exec {n : ℕ} {c : Choice} {sh sh' : Shared} {o : Op}
    {reply : Option (Reply o)} (h : WithinCapacity config.capacity sh.vms)
    (he : exec config n c sh o = some (sh', reply)) :
    WithinCapacity config.capacity sh'.vms := by
  cases o with
  | vms sec =>
    obtain ⟨rfl, _⟩ := by simpa [ServerOperations.exec] using he
    exact h.section sec
  | _ =>
    rw [(exec_frame he).vms (by simp)]
    exact h

theorem WithinCapacity.step (h : WithinCapacity config.capacity s.shared.vms) {e : Event}
    (he : step config lib s e = some s') : WithinCapacity config.capacity s'.shared.vms := by
  cases stepped he with
  | request => exact h
  | callback => exact h
  | run n c r o may exit next l sh reply hn hexec => exact h.exec hexec
  | panic n c r o may exit next l sh hn hexec => exact h.exec hexec
  | leave => exact h

theorem withinCapacity_of_reachable (h : (server config lib).Reachable s) :
    WithinCapacity config.capacity s.shared.vms :=
  h.invariant (P := fun s => WithinCapacity config.capacity s.shared.vms)
    ⟨Nat.zero_le _, Nat.zero_le _⟩ fun _ _ _ hs he => hs.step he

/-- With the map unlocked, a live instance belongs to a running entry or to the placeholder of
the task that started it. -/
theorem live_entry (h : (server config lib).Reachable s) (hfree : s.shared.locks .registry = none)
    {id : Uuid} (hid : id ∈ s.shared.host.live) : ∃ e, s.shared.vms.lookup id = some e := by
  have hI := (sound_of_reachable h).protocol
  rcases hI.live id hid with ⟨r, hr⟩ | ⟨n, v, hn, hv⟩
  · exact ⟨_, hr⟩
  · rcases hI.agent n v hn with hplaced | hreg
    · obtain ⟨hi, r, hst⟩ := hplaced id hv
      exact ⟨_, placed_creating hI hn hi hst⟩
    · have hheld : s.shared.locks .registry = some n :=
        (hI.holder .registry n).mpr ⟨v, hn, hreg⟩
      simp [hfree] at hheld

/-- No overcommit over whole runs. -/
theorem capacity_safety (h : (server config lib).Reachable s) :
    (s.shared.locks .registry = none →
      WithinCapacity config.capacity s.shared.vms ∧
        ∀ id ∈ s.shared.host.live, ∃ e, s.shared.vms.lookup id = some e) ∧
    checkedSum ((values s.shared.vms).map (·.res.vcpus)) = some (allocatedVcpus s.shared.vms) ∧
    (allocatedVcpus s.shared.vms).toNat = total vcpus s.shared.vms := by
  have hw := withinCapacity_of_reachable h
  exact ⟨fun hfree => ⟨hw, fun _ hid => live_entry h hfree hid⟩, hw.allocatedVcpus_exact⟩

theorem capacity_safety_afterCreate :
    (sampleServer.after sampleCreate).shared.host.live = [1] ∧
    WithinCapacity sampleConfig.capacity (sampleServer.after sampleCreate).shared.vms := by
  have hreach : sampleServer.Reachable (sampleServer.after sampleCreate) := .after sampleCreate
  have hfree : (sampleServer.after sampleCreate).shared.locks .registry = none := by
    decide +kernel
  have hsafe := capacity_safety hreach
  exact ⟨by decide +kernel, (hsafe.1 hfree).1⟩

end Warlock.CapacitySafety
