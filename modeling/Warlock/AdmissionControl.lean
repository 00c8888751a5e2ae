import Warlock.CapacitySafety

/-!
# Admission against the real host

The capacity window of `create` is compared with the exact arithmetic on what the host
reports. The memory side is exact. The vCPU side counts the cores modulo 256, so on a host
with more cores requests are rejected that would fit.
-/

namespace Warlock.AdmissionControl
open ApplicationState AssociationMaps CapacitySafety MachineIntegers Server SshSession
  TransitionSystems VmConfiguration VmIdentifiers VmRegistry

variable (n : ℕ) (bytes : U64) (vms : VmMap) (vmId : Uuid) (resources : VmResources)

/-- The capacity window lets the request through on a host with `n` cores. -/
def Admits : Prop :=
  (reserve (availableCapacity (some n) bytes) vmId resources vms).2 = .ok ()

def MemoryFits : Prop :=
  total memoryMb vms + resources.memoryMb.toNat + 256 ≤ (totalMemoryMb bytes).toNat

def Fits : Prop :=
  total vcpus vms + resources.vcpus.toNat ≤ n ∧ MemoryFits bytes vms resources

/-- The decision is the exact one, and fewer cores never admit more. -/
structure Exact : Prop where
  exact : Admits n bytes vms vmId resources ↔ Fits n bytes vms resources
  monotone : ∀ k ≤ n, Admits k bytes vms vmId resources → Admits n bytes vms vmId resources

/-- The vCPUs lie between the cores that are counted and the cores there are. -/
def Wrapped : Prop :=
  n % 256 < total vcpus vms + resources.vcpus.toNat ∧
    total vcpus vms + resources.vcpus.toNat ≤ n ∧ MemoryFits bytes vms resources

variable {n bytes vms vmId resources} {config : AppConfig} {lib : Libraries} {s : State}

theorem vcpus_availableCapacity : (availableCapacity (some n) bytes).vcpus.toNat = n % 256 := rfl

theorem allocatable_availableCapacity :
    (availableCapacity (some n) bytes).allocatableMemoryMb.toNat =
      (totalMemoryMb bytes).toNat - 256 := saturatingSub_toNat _ _

/-- Where the sums over the map are exact, the window counts the cores modulo 256. -/
theorem admits_iff {capacity : Capacity} (hw : WithinCapacity capacity vms)
    (hm : 0 < resources.memoryMb.toNat) (hv : 0 < resources.vcpus.toNat) :
    Admits n bytes vms vmId resources ↔
      total vcpus vms + resources.vcpus.toNat ≤ n % 256 ∧ MemoryFits bytes vms resources := by
  have hcpus := hw.allocatedVcpus_exact.2
  have hmemory := hw.allocatedMemory_exact
  rw [Admits, reserve_eq_ok_iff, saturatingSub_toNat, saturatingSub_toNat, hcpus, hmemory,
    vcpus_availableCapacity, allocatable_availableCapacity]
  unfold MemoryFits
  omega

theorem exact_iff {capacity : Capacity} (hw : WithinCapacity capacity vms)
    (hm : 0 < resources.memoryMb.toNat) (hv : 0 < resources.vcpus.toNat) :
    Exact n bytes vms vmId resources ↔ ¬ Wrapped n bytes vms resources := by
  have hmod := Nat.mod_le n 256
  constructor
  · intro h hwrapped
    obtain ⟨hover, hfit, hmem⟩ := hwrapped
    have hadmits := (admits_iff hw hm hv).mp (h.exact.mpr ⟨hfit, hmem⟩)
    omega
  · intro hn
    have hexact : Admits n bytes vms vmId resources ↔ Fits n bytes vms resources := by
      rw [admits_iff hw hm hv]
      constructor
      · intro h
        exact ⟨h.1.trans hmod, h.2⟩
      · intro h
        exact ⟨by_contra fun hover => hn ⟨by omega, h.1, h.2⟩, h.2⟩
    refine ⟨hexact, ?_⟩
    intro k hk hadmits
    obtain ⟨hle, hmem⟩ := (admits_iff hw hm hv).mp hadmits
    apply hexact.mpr
    exact ⟨(hle.trans (Nat.mod_le k 256)).trans hk, hmem⟩

/-- On every reachable map admission is exact but for the requests that the narrowing of the
core count cuts off. -/
theorem admission_exact (h : (server config lib).Reachable s)
    (hvalid : ∃ v m, validateVmConfig v m = .ok (resources.vcpus, resources.memoryMb)) :
    Exact n bytes s.shared.vms vmId resources ↔ ¬ Wrapped n bytes s.shared.vms resources := by
  obtain ⟨v, m, hvalid⟩ := hvalid
  obtain ⟨_, _, hv, _, hm⟩ := validateVmConfig_eq_ok hvalid
  exact exact_iff (withinCapacity_of_reachable h) (by omega) (by omega)

section Samples

/-- Four gibibytes. -/
def sampleMemory : U64 := 4096 * 1024 * 1024

/-- What a request without sizes asks for. -/
def smallest : VmResources := ⟨1, 128, none, none, none, none, none, none, []⟩

def largeConfig : AppConfig :=
  { sampleConfig with capacity := availableCapacity (some 256) sampleMemory }

theorem admission_exact_afterCreate :
    Exact 8 sampleMemory (sampleServer.after sampleCreate).shared.vms 2 smallest := by
  have hreach : sampleServer.Reachable (sampleServer.after sampleCreate) := .after sampleCreate
  have hvcpus : total vcpus (sampleServer.after sampleCreate).shared.vms = 1 := by decide +kernel
  apply (admission_exact hreach ⟨none, none, rfl⟩).mpr
  intro hwrapped
  obtain ⟨hover, _⟩ := hwrapped
  rw [hvcpus] at hover
  exact absurd hover (by decide)

/-- On a host with 256 cores no VM is ever admitted. -/
theorem admission_wrapped : ¬ ∀ s : State, (server largeConfig sampleLibraries).Reachable s →
    ∀ resources : VmResources,
      (∃ v m, validateVmConfig v m = .ok (resources.vcpus, resources.memoryMb)) →
        (Admits 256 sampleMemory s.shared.vms 1 resources ↔
          Fits 256 sampleMemory s.shared.vms resources) := by
  intro h
  have hadmits : Admits 256 sampleMemory ∅ 1 smallest :=
    (h _ .initial smallest ⟨none, none, rfl⟩).mpr ⟨by decide, show 0 + 128 + 256 ≤ 4096 by decide⟩
  have hfit := (reserve_eq_ok_iff.mp hadmits).1
  exact absurd hfit (by decide)

end Samples

end Warlock.AdmissionControl
