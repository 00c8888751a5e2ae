import Warlock.MachineIntegers

/-!
# Requested VM sizes and the capacity of the host

A request names a number of vCPUs and an amount of memory or leaves them to their
defaults. Validation bounds both; the limits that the jailer enforces are computed from
the validated values.
-/

namespace Warlock.VmConfiguration
open MachineIntegers

def defaultVcpus : U8 := 1
def defaultMemoryMb : U32 := 128
def minMemoryMb : U32 := 128
def maxVcpus : U8 := 32

/-- Errors from validating a VM configuration. -/
inductive ConfigError
  | invalidVcpus (msg : String)
  | invalidMemory (msg : String)
  deriving DecidableEq, Repr

def ConfigError.message : ConfigError → String
  | invalidVcpus msg | invalidMemory msg => msg

/-- Validates the requested configuration and returns the resolved `(vcpus, memory_mb)`. -/
def validateVmConfig (vcpus : Option U8) (memoryMb : Option U32) : Except ConfigError (U8 × U32) :=
  let vcpus := vcpus.getD defaultVcpus
  let memoryMb := memoryMb.getD defaultMemoryMb
  if vcpus = 0 ∨ maxVcpus < vcpus ∨ (1 < vcpus ∧ vcpus % 2 ≠ 0) then
    .error (.invalidVcpus "vcpus must be 1 or an even number between 2 and 32")
  else if memoryMb < minMemoryMb then
    .error (.invalidMemory ("memory_mb must be at least " ++ toString minMemoryMb.toNat))
  else .ok (vcpus, memoryMb)

/-- The cgroup files and values for a jailed VM, by detected cgroup version. -/
def buildCgroupConfig (cgroupVersion : ℕ) (vcpus : U8) (memoryMb : U32) : List (String × String) :=
  let memoryLimitBytes : U64 := (memoryMb.setWidth 64 + 50) * 1024 * 1024
  let cpuQuota : U64 := vcpus.setWidth 64 * 100000
  match cgroupVersion with
  | 2 => [("cpu.max", toString cpuQuota.toNat ++ " 100000"),
      ("memory.max", toString memoryLimitBytes.toNat)]
  | _ => [("cpu.cfs_quota_us", toString cpuQuota.toNat), ("cpu.cfs_period_us", "100000"),
      ("memory.limit_in_bytes", toString memoryLimitBytes.toNat)]

/-- Memory in MB reserved for the host OS and the server itself. -/
def hostReservedMemoryMb : U64 := 256

structure Capacity where
  memoryMb : U64
  vcpus : U8
  deriving DecidableEq, Repr

def Capacity.allocatableMemoryMb (c : Capacity) : U64 :=
  saturatingSub c.memoryMb hostReservedMemoryMb

/-- The total system memory in megabytes, from what the system reports in bytes. -/
def totalMemoryMb (totalMemoryBytes : U64) : U64 := totalMemoryBytes / 1024 / 1024

/-- The number of CPU cores: `n.get() as u8` of the available parallelism, 1 if that cannot be
told. -/
def totalCpus (availableParallelism : Option ℕ) : U8 :=
  match availableParallelism with
  | some n => BitVec.ofNat 8 n
  | none => 1

def availableCapacity (availableParallelism : Option ℕ) (totalMemoryBytes : U64) : Capacity where
  memoryMb := totalMemoryMb totalMemoryBytes
  vcpus := totalCpus availableParallelism

theorem validateVmConfig_eq_ok {vcpus : Option U8} {memoryMb : Option U32} {v : U8} {m : U32}
    (h : validateVmConfig vcpus memoryMb = .ok (v, m)) :
    v = vcpus.getD defaultVcpus ∧ m = memoryMb.getD defaultMemoryMb ∧ 1 ≤ v.toNat ∧
      v.toNat ≤ 32 ∧ 128 ≤ m.toNat := by
  simp only [validateVmConfig] at h
  split at h
  · simp at h
  · rename_i hv
    split at h
    · simp at h
    · rename_i hm
      obtain ⟨rfl, rfl⟩ := by simpa using h
      simp only [not_or, BitVec.not_lt] at hv hm
      have h0 : (vcpus.getD defaultVcpus).toNat ≠ 0 := fun h0 => hv.1 (BitVec.eq_of_toNat_eq h0)
      exact ⟨rfl, rfl, by omega, hv.2.1, hm⟩

end Warlock.VmConfiguration
