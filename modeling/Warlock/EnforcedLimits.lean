import Warlock.CapacitySafety

/-!
# The limits that the jailer enforces

Every VM runs under a CPU quota and a memory limit written for its cgroup. The quotas of all
entries together fit the host like the vCPUs do. The memory limits add an overhead for each
Firecracker process that the capacity window does not count.
-/

namespace Warlock.EnforcedLimits
open ApplicationState AssociationMaps CapacitySafety MachineIntegers ReservationProtocol RustText
  Server ServerInvariant ServerOperations SshSession TransitionSystems VmConfiguration
  VmIdentifiers VmRegistry

structure Limits where
  cpuQuota : ℕ
  cpuPeriod : ℕ
  memoryBytes : ℕ
  deriving DecidableEq

def readNumber (s : Text) : Option ℕ := (parseU64 s).map BitVec.toNat

/-- What the cgroup files say; version 1 has a file of its own for the period. -/
def limitsOf (cgroups : List (String × String)) : Option Limits :=
  match cgroups.lookup "cpu.max" with
  | some cpu => match splitWhitespace cpu.toList with
    | [quota, period] => do
      let memory ← cgroups.lookup "memory.max"
      return ⟨← readNumber quota, ← readNumber period, ← readNumber memory.toList⟩
    | _ => none
  | none => do
    let quota ← cgroups.lookup "cpu.cfs_quota_us"
    let period ← cgroups.lookup "cpu.cfs_period_us"
    let memory ← cgroups.lookup "memory.limit_in_bytes"
    return ⟨← readNumber quota.toList, ← readNumber period.toList, ← readNumber memory.toList⟩

/-- The limits under which the VM of an entry runs. -/
def enforced (cgroupVersion : ℕ) (e : VmEntry) : Option Limits :=
  limitsOf (buildCgroupConfig cgroupVersion e.res.vcpus e.res.memoryMb)

def quota (cgroupVersion : ℕ) (e : VmEntry) : ℕ :=
  ((enforced cgroupVersion e).map (·.cpuQuota)).getD 0

def memoryLimit (cgroupVersion : ℕ) (e : VmEntry) : ℕ :=
  ((enforced cgroupVersion e).map (·.memoryBytes)).getD 0

/-- The limits of all entries together fit the host. -/
structure WithinHost (cgroupVersion : ℕ) (capacity : Capacity) (vms : VmMap) : Prop where
  limited : ∀ e ∈ values vms, ∃ l, enforced cgroupVersion e = some l ∧ l.cpuPeriod = 100000
  cpu : total (quota cgroupVersion) vms ≤ capacity.vcpus.toNat * 100000
  memory : total (memoryLimit cgroupVersion) vms ≤ capacity.memoryMb.toNat * 1048576

/-- The memory of the entries with the overhead of one Firecracker process each. -/
def load (vms : VmMap) : ℕ := total (fun e => memoryMb e + 50) vms

/-- A placeholder is inserted only where the overheads fit as well. -/
def Roomy (config : AppConfig) (s : State) : Event → Prop
  | .run n _ => match s.tasks[n]?.bind HandlerTask.nextOp with
    | some (.vms (.reserve id r)) =>
      (reserve config.capacity id r s.shared.vms).2 = .ok () →
        load s.shared.vms + (r.memoryMb.toNat + 50) ≤ config.capacity.memoryMb.toNat
    | _ => True
  | _ => True

instance (config : AppConfig) (s : State) (e : Event) : Decidable (Roomy config s e) := by
  unfold Roomy
  split
  · split <;> infer_instance
  · infer_instance

section Reading

variable {version : ℕ} {e : VmEntry}

theorem readNumber_decimal {n : ℕ} (h : n < 2 ^ 64) : readNumber (toString n).toList = some n := by
  have hmod : n % 18446744073709551616 = n := Nat.mod_eq_of_lt h
  simp [readNumber, parseU64_toDigits h, hmod]

/-- The two fields of `cpu.max`. -/
theorem fields_cpuMax (n : ℕ) :
    splitWhitespace (toString n ++ " 100000").toList =
      [(toString n).toList, "100000".toList] := by
  have hdigits : ∀ c ∈ (toString n).toList, isWhitespace c = false := by
    intro c hc
    have hc : c ∈ Nat.toDigits 10 n := by simpa using hc
    exact isWhitespace_of_isDigit (isDigit_of_mem_toDigits hc)
  have hne : (toString n).toList ≠ [] := by simp
  have hsplit : (toString n ++ " 100000").toList = (toString n).toList ++ ' ' :: "100000".toList := by
    rw [String.toList_append]
    rfl
  rw [hsplit, splitWhitespace_append hdigits hne (by decide)]
  rfl

theorem limitsOf_version2 {cpu memory : String} {quota period : Text} {q p m : ℕ}
    (hf : splitWhitespace cpu.toList = [quota, period]) (hq : readNumber quota = some q)
    (hp : readNumber period = some p) (hm : readNumber memory.toList = some m) :
    limitsOf [("cpu.max", cpu), ("memory.max", memory)] = some ⟨q, p, m⟩ := by
  simp [limitsOf, List.lookup_cons, hf, hq, hp, hm]

theorem limitsOf_version1 {quota period memory : String} {q p m : ℕ}
    (hq : readNumber quota.toList = some q) (hp : readNumber period.toList = some p)
    (hm : readNumber memory.toList = some m) :
    limitsOf [("cpu.cfs_quota_us", quota), ("cpu.cfs_period_us", period),
      ("memory.limit_in_bytes", memory)] = some ⟨q, p, m⟩ := by
  simp [limitsOf, List.lookup_cons, hq, hp, hm]

theorem enforced_eq (version : ℕ) (e : VmEntry) :
    enforced version e =
      some ⟨CapacitySafety.vcpus e * 100000, 100000, (memoryMb e + 50) * 1048576⟩ := by
  have hv := e.res.vcpus.isLt
  have hm := e.res.memoryMb.isLt
  have hquota : ((e.res.vcpus.setWidth 64 : U64) * 100000).toNat = e.res.vcpus.toNat * 100000 := by
    have hc : (100000 : U64).toNat = 100000 := rfl
    rw [BitVec.toNat_mul, BitVec.toNat_setWidth, hc]
    omega
  have hbytes : (((e.res.memoryMb.setWidth 64 : U64) + 50) * 1024 * 1024).toNat =
      (e.res.memoryMb.toNat + 50) * 1048576 := by
    have hc : (50 : U64).toNat = 50 := rfl
    have hk : (1024 : U64).toNat = 1024 := rfl
    rw [BitVec.toNat_mul, BitVec.toNat_mul, BitVec.toNat_add, BitVec.toNat_setWidth, hc, hk]
    omega
  have hq := readNumber_decimal (n := e.res.vcpus.toNat * 100000) (by omega)
  have hb := readNumber_decimal (n := (e.res.memoryMb.toNat + 50) * 1048576) (by omega)
  have hp : readNumber "100000".toList = some 100000 := by decide
  simp only [enforced, buildCgroupConfig, hquota, hbytes]
  split
  · exact limitsOf_version2 (fields_cpuMax _) hq hp hb
  · exact limitsOf_version1 hq hp hb

end Reading

variable {version : ℕ} {config : AppConfig} {capacity : Capacity} {lib : Libraries} {s s' : State}
  {past : List (State × Event)} {vms vms' : VmMap}

theorem total_mul (f : VmEntry → ℕ) (k : ℕ) (vms : VmMap) :
    total (fun e => f e * k) vms = total f vms * k := by
  simp only [total, List.sum_map_mul_right]

/-- Within the capacity it is only the overheads that may not fit. -/
theorem withinHost_iff (hw : WithinCapacity capacity vms) :
    WithinHost version capacity vms ↔ load vms ≤ capacity.memoryMb.toNat := by
  have hmemory : total (memoryLimit version) vms = load vms * 1048576 := by
    have hf : memoryLimit version = fun e => (memoryMb e + 50) * 1048576 := by
      funext e
      simp [memoryLimit, enforced_eq]
    rw [hf]
    exact total_mul (fun e => memoryMb e + 50) 1048576 vms
  have hcpu : total (quota version) vms = total vcpus vms * 100000 := by
    have hf : quota version = fun e => vcpus e * 100000 := by
      funext e
      simp [quota, enforced_eq]
    rw [hf]
    exact total_mul vcpus 100000 vms
  constructor
  · intro h
    have := h.memory
    omega
  · intro hload
    refine ⟨fun e _ => ⟨_, enforced_eq version e, rfl⟩, ?_, ?_⟩
    · rw [hcpu]
      exact Nat.mul_le_mul_right _ hw.vcpus
    · rw [hmemory]
      exact Nat.mul_le_mul_right _ hload

section Steps

/-- Only the capacity window adds to the load. -/
theorem load_section (sec : Section) (hsec : ∀ id r, sec ≠ .reserve id r) :
    load (sec.run capacity vms).1 ≤ load vms := by
  cases sec with
  | reserve id r => exact absurd rfl (hsec id r)
  | upgrade id =>
    simp only [Section.run, VmRegistry.upgrade]
    split
    · rename_i r hr
      exact (total_reinsert (fun e => memoryMb e + 50) hr rfl).le
    · exact total_erase_le _
  | take id =>
    simp only [Section.run, VmRegistry.take]
    split
    · exact total_erase_le _
    · rename_i r hr
      exact (total_reinsert (fun e => memoryMb e + 50) hr rfl).le
    · exact total_erase_le _
  | remove id => exact total_erase_le _
  | discard id => exact total_erase_le _
  | get id => exact le_rfl
  | entries => exact le_rfl
  | info => exact le_rfl

theorem load_reserve {id : Uuid} {r : VmResources} (hnone : vms.lookup id = none)
    (hload : load vms ≤ capacity.memoryMb.toNat) :
    load (reserve capacity id r vms).1 ≤ capacity.memoryMb.toNat ↔
      ((reserve capacity id r vms).2 = .ok () →
        load vms + (r.memoryMb.toNat + 50) ≤ capacity.memoryMb.toNat) := by
  rcases reserve_cases capacity id r vms with ⟨e, he, _⟩ | ⟨he, _⟩
  · simp [he, hload]
  · have hadd : load (vms.insert id (.creating r)) = r.memoryMb.toNat + 50 + load vms :=
      total_insert _ hnone
    rw [he, hadd, Nat.add_comm]
    exact ⟨fun h _ => h, fun h => h rfl⟩

theorem load_step (h : (server config lib).Reachable s)
    (hload : load s.shared.vms ≤ config.capacity.memoryMb.toNat) {e : Event}
    (he : step config lib s e = some s') :
    load s'.shared.vms ≤ config.capacity.memoryMb.toNat ↔ Roomy config s e := by
  have hs := sound_of_reachable h
  have hexec {n : ℕ} {c : Choice} {t : HandlerTask} {o : Op} {sh : Shared}
      {reply : Option (Reply o)} (hn : s.tasks[n]? = some t) (ho : t.nextOp = some o)
      (hx : exec config n c s.shared o = some (sh, reply)) :
      load sh.vms ≤ config.capacity.memoryMb.toNat ↔ Roomy config s (.run n c) := by
    have hnext : s.tasks[n]?.bind HandlerTask.nextOp = some o := by rw [hn]; exact ho
    simp only [Roomy, hnext]
    cases o with
    | vms sec =>
      have hvms : sh.vms = (sec.run config.capacity s.shared.vms).1 := by
        simp only [exec, Option.some.injEq, Prod.mk.injEq] at hx
        rw [← hx.1]
      rw [hvms]
      cases sec with
      | reserve id r =>
        obtain ⟨_, hid, hst, _⟩ := requires_of_nextOp hs hn ho
        have hnone : s.shared.vms.lookup id = none := by
          have hp := hs.protocol.placed n _ id (siteOf_task hn) hid
          rwa [hst] at hp
        exact load_reserve hnone hload
      | _ => exact ⟨fun _ => trivial, fun _ => (load_section _ (by simp)).trans hload⟩
    | _ =>
      rw [(exec_frame hx).vms (by simp)]
      exact ⟨fun _ => trivial, fun _ => hload⟩
  cases stepped he with
  | request => exact ⟨fun _ => trivial, fun _ => hload⟩
  | callback => exact ⟨fun _ => trivial, fun _ => hload⟩
  | run n c r o may exit next l sh reply hn hx => exact hexec hn rfl hx
  | panic n c r o may exit next l sh hn hx => exact hexec hn rfl hx
  | leave => exact ⟨fun _ => trivial, fun _ => hload⟩

end Steps

/-- The limits fit the host all along a run exactly if the overheads were given room whenever
a VM was admitted. -/
theorem limits_fit (version : ℕ) (h : (server config lib).Run past s) :
    (∀ x, System.Visits past s x → WithinHost version config.capacity x.shared.vms) ↔
      System.Meets (Roomy config) past := by
  have hinitial : WithinHost version config.capacity (server config lib).initial.shared.vms :=
    (withinHost_iff (withinCapacity_of_reachable .initial)).mpr (Nat.zero_le _)
  refine System.Path.always_iff (P := fun x => WithinHost version config.capacity x.shared.vms)
    h hinitial ?_
  intro past s e s' hrun hs he
  have hreach : (server config lib).Reachable s := System.Run.reachable hrun
  have hs' : (server config lib).Reachable s' := hreach.step he
  rw [withinHost_iff (withinCapacity_of_reachable hs')]
  exact load_step hreach ((withinHost_iff (withinCapacity_of_reachable hreach)).mp hs) he

section Samples

theorem limits_fit_afterCreate : WithinHost 2 sampleConfig.capacity
    (sampleServer.endOf sampleCreate).shared.vms := by
  have hrun : sampleServer.Run (sampleServer.historyOf sampleCreate)
      (sampleServer.endOf sampleCreate) := System.run_follow sampleCreate
  have hroomy : ∀ p ∈ sampleServer.historyOf sampleCreate, Roomy sampleConfig p.1 p.2 := by
    decide +kernel
  exact (limits_fit 2 hrun).mpr hroomy _ (.inl rfl)

/-- A host with 1 GiB of memory. -/
def smallConfig : AppConfig := { sampleConfig with capacity := ⟨1024, 8⟩ }

/-- The identifier and the rule handle of a sample. -/
def drawing (k : ℕ) : Choice where
  handle := BitVec.ofNat 64 k
  stdout := "# handle ".toList ++ Nat.toDigits 10 k
  id := BitVec.ofNat 128 k

/-- The steps of a `create` in task `n` up to its placeholder. -/
def admitting (n k : ℕ) : List Event :=
  [.request (.create none), .run n (drawing k)] ++ runs n 9 ++
    List.replicate 2 (.run n (drawing k)) ++ runs n 4

/-- Six smallest VMs are admitted. -/
def sixCreates : List Event := (List.range 6).flatMap fun n => admitting n (n + 1)

/-- Their memory limits come to 1068 MiB. -/
theorem limits_exceeded : ¬ ∀ s : State, (server smallConfig sampleLibraries).Reachable s →
    WithinHost 2 smallConfig.capacity s.shared.vms := by
  intro h
  have hreach : (server smallConfig sampleLibraries).Reachable
      ((server smallConfig sampleLibraries).after sixCreates) := .after sixCreates
  have hfit := (withinHost_iff (withinCapacity_of_reachable hreach)).mp (h _ hreach)
  revert hfit
  decide +kernel

end Samples

end Warlock.EnforcedLimits
