import Warlock.ApplicationState

/-!
# Critical sections on the map of VMs

Every access to the map happens under the `vms` mutex. What a handler does to the map
between two awaits is one section here: the capacity window of `create`, its upgrade, the
removals of the error path and of the create guard, the removal of `delete`, and the reads.
-/

namespace Warlock.VmRegistry
open ApplicationState AssociationMaps MachineIntegers ReservationProtocol VmConfiguration
  VmIdentifiers

def allocatedVcpus (vms : VmMap) : U8 := wrappingSum ((values vms).map (·.res.vcpus))

def allocatedMemory (vms : VmMap) : U64 :=
  wrappingSum ((values vms).map (·.res.memoryMb.setWidth 64))

/-- The capacity window of `create`: check both sums, insert the placeholder. -/
def reserve (capacity : Capacity) (vmId : Uuid) (resources : VmResources) (vms : VmMap) :
    VmMap × Except ApiError Unit :=
  let availableVcpus := saturatingSub capacity.vcpus (allocatedVcpus vms)
  let availableMemory := saturatingSub capacity.allocatableMemoryMb (allocatedMemory vms)
  if (availableVcpus.setWidth 64 : U64) < resources.vcpus.setWidth 64 then
    (vms, .error (.conflict ("Insufficient vCPUs: requested " ++ toString resources.vcpus.toNat ++
      " but only " ++ toString availableVcpus.toNat ++ " available")))
  else if availableMemory < resources.memoryMb.setWidth 64 then
    (vms, .error (.conflict ("Insufficient memory: requested " ++
      toString resources.memoryMb.toNat ++ " MB but only " ++ toString availableMemory.toNat ++
      " MB available")))
  else (vms.insert vmId (.creating resources), .ok ())

/-- The upgrade of `create`; `false` when the placeholder is gone. -/
def upgrade (vmId : Uuid) (vms : VmMap) : VmMap × Bool :=
  match vms.lookup vmId with
  | some (.creating resources) => ((vms.erase vmId).insert vmId (.running resources), true)
  | _ => (vms.erase vmId, false)

def remove (id : Uuid) (vms : VmMap) : VmMap × Option VmEntry := (vms.erase id, vms.lookup id)

/-- The removal of `delete`, which puts a placeholder back. -/
def take (id : Uuid) (vms : VmMap) : VmMap × Except ApiError VmResources :=
  match vms.lookup id with
  | none => (vms.erase id, .error (.notFound "VM not found"))
  | some (.creating resources) => ((vms.erase id).insert id (.creating resources),
      .error (.conflict "VM is still being created, try again shortly"))
  | some (.running resources) => (vms.erase id, .ok resources)

def info (vms : VmMap) : VmInfo where
  count := vms.entries.length
  allocatedVcpus := allocatedVcpus vms
  allocatedMemoryMb := allocatedMemory vms

inductive Section
  | reserve (vmId : Uuid) (resources : VmResources)
  | upgrade (vmId : Uuid)
  | remove (id : Uuid)
  | take (id : Uuid)
  | discard (id : Uuid)
  | get (id : Uuid)
  | entries
  | info
  deriving DecidableEq

abbrev Section.Reply : Section → Type
  | reserve _ _ => Except ApiError Unit
  | upgrade _ => Bool
  | remove _ | get _ => Option VmEntry
  | take _ => Except ApiError VmResources
  | discard _ => Unit
  | entries => List (Uuid × VmEntry)
  | info => VmInfo

def Section.run (capacity : Capacity) : (s : Section) → VmMap → VmMap × s.Reply
  | .reserve vmId resources, vms => VmRegistry.reserve capacity vmId resources vms
  | .upgrade vmId, vms => VmRegistry.upgrade vmId vms
  | .remove id, vms => VmRegistry.remove id vms
  | .take id, vms => VmRegistry.take id vms
  | .discard id, vms => (vms.erase id, ())
  | .get id, vms => (vms, vms.lookup id)
  | .entries, vms => (vms, vms.entries.map fun e => (e.1, e.2))
  | .info, vms => (vms, VmRegistry.info vms)

variable {capacity : Capacity} {vms : VmMap} {vmId id : Uuid} {resources : VmResources}

/-- The capacity window rejects and changes nothing, or both amounts fit and the placeholder
is in. -/
theorem reserve_cases (capacity : Capacity) (vmId : Uuid) (resources : VmResources)
    (vms : VmMap) :
    (∃ e, reserve capacity vmId resources vms = (vms, .error e) ∧ e.status = .conflict) ∨
      reserve capacity vmId resources vms = (vms.insert vmId (.creating resources), .ok ()) ∧
      resources.vcpus.toNat ≤ (saturatingSub capacity.vcpus (allocatedVcpus vms)).toNat ∧
      resources.memoryMb.toNat ≤
        (saturatingSub capacity.allocatableMemoryMb (allocatedMemory vms)).toNat := by
  simp only [reserve]
  split_ifs with hv hm
  · exact .inl ⟨_, rfl, rfl⟩
  · exact .inl ⟨_, rfl, rfl⟩
  · refine .inr ⟨rfl, ?_, ?_⟩
    · simp only [BitVec.lt_def, BitVec.toNat_setWidth] at hv
      have := (saturatingSub capacity.vcpus (allocatedVcpus vms)).isLt
      have := resources.vcpus.isLt
      omega
    · simp only [BitVec.lt_def, BitVec.toNat_setWidth] at hm
      have := resources.memoryMb.isLt
      omega

/-- The capacity window lets a request through exactly where both amounts fit. -/
theorem reserve_eq_ok_iff : (reserve capacity vmId resources vms).2 = .ok () ↔
    resources.vcpus.toNat ≤ (saturatingSub capacity.vcpus (allocatedVcpus vms)).toNat ∧
      resources.memoryMb.toNat ≤
        (saturatingSub capacity.allocatableMemoryMb (allocatedMemory vms)).toNat := by
  have hv := resources.vcpus.isLt
  have hc := (saturatingSub capacity.vcpus (allocatedVcpus vms)).isLt
  have hm := resources.memoryMb.isLt
  simp only [reserve]
  split_ifs with hcpu hmemory
  · simp only [BitVec.lt_def, BitVec.toNat_setWidth] at hcpu
    simp only [false_iff, not_and]
    omega
  · simp only [BitVec.lt_def, BitVec.toNat_setWidth] at hmemory
    simp only [false_iff, not_and]
    omega
  · simp only [BitVec.lt_def, BitVec.toNat_setWidth] at hcpu hmemory
    simp only [true_iff]
    omega

theorem lookup_upgrade (h : vms.lookup vmId = some (.creating resources)) (id : Uuid) :
    (upgrade vmId vms).1.lookup id =
      if id = vmId then some (.running resources) else vms.lookup id := by
  simp only [upgrade, h, lookup_insert, lookup_erase]
  split_ifs <;> rfl

/-- `delete` takes a running entry out, or leaves every entry as it was. -/
theorem take_cases (id : Uuid) (vms : VmMap) :
    (∃ r, vms.lookup id = some (.running r) ∧ take id vms = (vms.erase id, .ok r)) ∨
      ∃ e, (take id vms).2 = .error e ∧ ∀ id', (take id vms).1.lookup id' = vms.lookup id' := by
  unfold take
  cases h : vms.lookup id with
  | none =>
    refine .inr ⟨_, rfl, fun id' => ?_⟩
    rw [erase_of_lookup_none h]
  | some e =>
    cases e with
    | creating r =>
      refine .inr ⟨_, rfl, fun id' => ?_⟩
      rw [lookup_insert, lookup_erase]
      split_ifs with hid
      · rw [hid, h]
      · rfl
    | running r => exact .inl ⟨r, rfl, rfl⟩

/-- The identifier whose entry a section may change. -/
def Section.subject : Section → Option Uuid
  | reserve id _ | upgrade id | remove id | take id | discard id => some id
  | get _ | entries | info => none

theorem lookup_run_of_ne {s : Section} (h : s.subject ≠ some id) :
    (s.run capacity vms).1.lookup id = vms.lookup id := by
  cases s with
  | reserve vmId resources =>
    have hne : id ≠ vmId := fun he => h (by rw [he, Section.subject])
    rcases reserve_cases capacity vmId resources vms with ⟨e, he, _⟩ | ⟨he, _⟩
    · simp [Section.run, he]
    · simp [Section.run, he, hne]
  | upgrade vmId =>
    have hne : id ≠ vmId := fun he => h (by rw [he, Section.subject])
    simp only [Section.run, upgrade]
    split <;> simp [hne]
  | take vmId =>
    have hne : id ≠ vmId := fun he => h (by rw [he, Section.subject])
    simp only [Section.run, take]
    split <;> simp [hne]
  | remove vmId =>
    have hne : id ≠ vmId := fun he => h (by rw [he, Section.subject])
    simp [Section.run, remove, hne]
  | discard vmId =>
    have hne : id ≠ vmId := fun he => h (by rw [he, Section.subject])
    simp [Section.run, hne]
  | get => rfl
  | entries => rfl
  | info => rfl

end Warlock.VmRegistry
