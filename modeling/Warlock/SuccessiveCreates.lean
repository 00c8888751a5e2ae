import Warlock.FreeSubnets

/-!
# Creates one after the other

A `create` that nobody disturbs gets the lowest free subnet, and gives it back when the set-up of
its networking fails. The next one gets the same subnet again. So it is the lowest free subnet
alone that decides whether any number of them gets past the set-up, however many other subnets
are free and sound.
-/

namespace Warlock.SuccessiveCreates
open ApplicationState EffectPrograms FreeSubnets HostNetworking MachineIntegers NftHandles
  QuietHandlers Server ServerOperations SshSession SubnetAddressing TaskViews TidyDiscipline
  TransitionSystems VmConfiguration VmHandlers VmIdentifiers VmRegistry

/-- The commands that set up the networking of subnet `i`. -/
def setupCommands (hostIface : String) (i : U16) : List Command :=
  [.tuntapAdd (tapName i), .addrAdd (subnetTapIp i) (tapName i), .linkUp (tapName i),
    .addPostroutingRule (subnetGuestIp i) hostIface, .addFilterRule (tapName i) hostIface]

def copies : Command → Bool
  | .cp _ _ _ | .chown _ _ _ => true
  | _ => false

/-- The host on which the taps of the `bad` subnets cannot be added, while everything works for
the `good` ones and for rootfs copies. -/
structure Answers (hostIface : String) (bad good : Finset U16) (cmd : Command) (c : Choice) :
    Prop where
  copied : copies cmd = true → c.succeeds = true
  refused : ∀ i ∈ bad, cmd = .tuntapAdd (tapName i) → c.succeeds = false
  obeyed : ∀ i ∈ good, cmd ∈ setupCommands hostIface i →
    c.succeeds = true ∧ (AddsRule cmd → (parseNftHandle c.stdout).isSome = true)

instance (hostIface : String) (bad good : Finset U16) (cmd : Command) (c : Choice) :
    Decidable (Answers hostIface bad good cmd c) :=
  have _ : Decidable (∀ i ∈ bad, cmd = .tuntapAdd (tapName i) → c.succeeds = false) :=
    Finset.decidableDforallFinset
  have _ : Decidable (∀ i ∈ good, cmd ∈ setupCommands hostIface i →
      c.succeeds = true ∧ (AddsRule cmd → (parseNftHandle c.stdout).isSome = true)) :=
    Finset.decidableDforallFinset
  decidable_of_iff ((copies cmd = true → c.succeeds = true) ∧ _ ∧ _)
    ⟨fun h => ⟨h.1, h.2.1, h.2.2⟩, fun h => ⟨h.copied, h.refused, h.obeyed⟩⟩

/-- Only task `n` takes steps, on such a host. -/
def Alone (config : AppConfig) (bad good : Finset U16) (n : ℕ) (s : State) : Event → Prop
  | .run k c => k = n ∧
    ∀ cmd ∈ dueCommand s n, Answers config.jailer.hostInterface bad good cmd c
  | _ => False

instance (config : AppConfig) (bad good : Finset U16) (n : ℕ) (s : State) :
    (e : Event) → Decidable (Alone config bad good n s e)
  | .run k _ => inferInstanceAs (Decidable (k = n ∧ ∀ cmd ∈ dueCommand s n, _))
  | .request _ | .callback _ _ | .leave _ _ => isFalse id

/-- Task `n` is past the set-up of its networking: it has asked for its place in the map. -/
def PastNetworking (past : History) (n : ℕ) : Prop :=
  ∃ a id r, Performed past n (.vms (.reserve id r)) a

/-- The request is valid, and the capacity that is left suffices for it. -/
def Acceptable (capacity : Capacity) (vms : VmMap) (body : Option CreateVmRequest) : Prop :=
  match validateVmConfig (body.bind (·.vcpus)) (body.bind (·.memoryMb)) with
  | .error _ => False
  | .ok (vcpus, memoryMb) =>
    vcpus.toNat ≤ (saturatingSub capacity.vcpus (allocatedVcpus vms)).toNat ∧
      memoryMb.toNat ≤ (saturatingSub capacity.allocatableMemoryMb (allocatedMemory vms)).toNat

instance (capacity : Capacity) (vms : VmMap) (body : Option CreateVmRequest) :
    Decidable (Acceptable capacity vms body) := by
  unfold Acceptable
  split <;> infer_instance

theorem valid_of_acceptable {capacity : Capacity} {vms : VmMap} {body : Option CreateVmRequest}
    (h : Acceptable capacity vms body) :
    ∃ size, validateVmConfig (body.bind (·.vcpus)) (body.bind (·.memoryMb)) = .ok size := by
  unfold Acceptable at h
  split at h
  · exact h.elim
  · rename_i hsize
    exact ⟨_, hsize⟩

/-- Acceptable `create` requests, each handled to its end before the next one arrives; the list tells
which of them got past the set-up of their networking. -/
inductive Creates (config : AppConfig) (lib : Libraries) (bad good : Finset U16) :
    State → List Bool → State → Prop
  | none (s : State) : Creates config lib bad good s [] s
  | next {s b a s' : State} {past : History} {outcomes : List Bool} (passed : Bool)
      (body : Option CreateVmRequest) (hbody : Acceptable config.capacity s.shared.vms body)
      (harrives : step config lib s (.request (.create body)) = some b)
      (hpath : System.Path (server config lib) b past a)
      (halone : System.Meets (Alone config bad good s.tasks.length) past)
      (hended : ∀ t, a.tasks[s.tasks.length]? = some t → t.inFlight = false)
      (hpassed : passed = true ↔ PastNetworking past s.tasks.length)
      (rest : Creates config lib bad good a outcomes s') :
      Creates config lib bad good s (passed :: outcomes) s'

/-- The subnets that the pool could still hand out. -/
def Free (pool : SubnetPool) (i : U16) : Prop := i.toNat < maxSubnets ∧ i ∉ pool.inUse

structure LowestFree (pool : SubnetPool) (i : U16) : Prop where
  free : Free pool i
  lowest : ∀ j, Free pool j → i ≤ j

section Discipline

/-- The reservation is reached only if it may be. -/
def slotRequires (mayReserve : Prop) : Op → SubnetPool → Prop
  | .release i, _ => i.toNat < maxSubnets
  | .vms (.reserve _ _), _ => mayReserve
  | _, _ => True

def slotAllows (hostIface : String) (bad good : Finset U16) :
    (o : Op) → Choice → Reply o → SubnetPool → Prop
  | .allocate, _, r, pool => r = pool.allocate.map Prod.fst
  | .command cmd, c, r, _ => Answers hostIface bad good cmd c ∧
      r = if c.succeeds then some c.stdout else none
  | .vms (.reserve _ _), _, _, _ => False
  | _, _, _, _ => True

def notePool (pool : SubnetPool) : Op → SubnetPool
  | .allocate => (pool.allocate.map Prod.snd).getD pool
  | .release i => (pool.release i).getD pool
  | _ => pool

/-- What a task sees of the pool up to its reservation while nobody else is at work. -/
def slots (hostIface : String) (bad good : Finset U16) (mayReserve : Prop) :
    Discipline Reply Choice SubnetPool where
  requires := slotRequires mayReserve
  allows := slotAllows hostIface bad good
  note o _ _ pool := notePool pool o
  considers _ _ _ := False
  leave _ pool := pool

variable {config : AppConfig} {lib : Libraries} {hostIface : String} {bad good : Finset U16}
  {mayReserve : Prop} {sh sh' : Shared} {o : Op} {c : Choice} {n : ℕ} {pool : SubnetPool}
  {i : U16}

theorem pool_of_exec {reply : Option (Reply o)} (h : exec config n c sh o = some (sh', reply)) :
    sh'.subnetPool = notePool sh.subnetPool o := by
  cases o with
  | allocate =>
    cases ha : sh.subnetPool.allocate with
    | none =>
      obtain ⟨rfl, _⟩ := by simpa [exec, ha] using h
      simp [notePool, ha]
    | some p =>
      obtain ⟨rfl, _⟩ := by simpa [exec, ha] using h
      simp [notePool, ha]
  | release i =>
    cases hr : sh.subnetPool.release i with
    | none =>
      obtain ⟨rfl, _⟩ := by simpa [exec, hr] using h
      simp [notePool, hr]
    | some p =>
      obtain ⟨rfl, _⟩ := by simpa [exec, hr] using h
      simp [notePool, hr]
  | _ => exact (exec_frame h).subnetPool (by simp) (by simp)

theorem allows_of_exec {reply : Reply o} (h : exec config n c sh o = some (sh', some reply))
    (hcmd : ∀ cmd, o = .command cmd → Answers hostIface bad good cmd c)
    (hno : ∀ id r, o ≠ .vms (.reserve id r)) :
    slotAllows hostIface bad good o c reply sh.subnetPool := by
  cases o with
  | allocate =>
    cases ha : sh.subnetPool.allocate with
    | none =>
      obtain ⟨_, rfl⟩ := by simpa [exec, ha] using h
      simp [slotAllows, ha]
    | some p =>
      obtain ⟨_, rfl⟩ := by simpa [exec, ha] using h
      simp [slotAllows, ha]
  | command cmd =>
    refine ⟨hcmd cmd rfl, ?_⟩
    simp only [exec] at h
    split at h
    · simp at h
    · rename_i host r hrun
      obtain ⟨_, rfl⟩ := by simpa using h
      exact run_reply hrun
  | vms sec =>
    cases sec with
    | reserve id r => exact absurd rfl (hno id r)
    | _ => trivial
  | _ => trivial

/-- Nothing panics up to the reservation. -/
theorem replies_of_requires (hreq : slotRequires mayReserve o sh.subnetPool)
    {r : Option (Reply o)} (h : exec config n c sh o = some (sh', r)) : ∃ reply, r = some reply := by
  by_cases ho : ∃ i, o = .release i
  · obtain ⟨i, rfl⟩ := ho
    obtain ⟨pool', hpool, _⟩ := SubnetPool.release_eq_some sh.subnetPool hreq
    obtain ⟨_, rfl⟩ := by simpa [exec, hpool] using h
    exact ⟨(), rfl⟩
  · exact exec_replies (fun i hi => ho ⟨i, hi⟩) h

end Discipline

section Paths

variable {config : AppConfig} {lib : Libraries} {bad good : Finset U16} {mayReserve : Prop}
  {final : Outcome → SubnetPool → Prop} {s s' b : State} {past : History} {n : ℕ} {t : HandlerTask}

/-- Task `n` is in the middle of code that keeps the discipline. -/
def Disciplined (config : AppConfig) (bad good : Finset U16) (mayReserve : Prop)
    (final : Outcome → SubnetPool → Prop) (n : ℕ) (s : State) : Prop :=
  ∃ t, s.tasks[n]? = some t ∧ t.code.Safe
    (slots config.jailer.hostInterface bad good mayReserve) final s.shared.subnetPool

/-- Task `n` is about to ask for its place in the map. -/
def Reserving (n : ℕ) (s : State) : Prop :=
  ∃ t id r, s.tasks[n]? = some t ∧ t.nextOp = some (.vms (.reserve id r))

theorem disciplined_step {e : Event} (h : Disciplined config bad good mayReserve final n s)
    (halone : Alone config bad good n s e) (he : step config lib s e = some s') :
    Reserving n s ∧ mayReserve ∨
      ¬ Reserving n s ∧ Disciplined config bad good mayReserve final n s' := by
  obtain ⟨t, hn, hsafe⟩ := h
  cases stepped he with
  | request r => exact halone.elim
  | callback => exact halone.elim
  | leave => exact halone.elim
  | panic k c r o may exit next l sh hk hexec =>
    obtain ⟨rfl, _⟩ := halone
    obtain rfl := Option.some.inj (hn.symm.trans hk)
    obtain ⟨_, hreply⟩ := replies_of_requires hsafe.1 hexec
    simp at hreply
  | run k c r o may exit next l sh reply hk hexec =>
    obtain ⟨rfl, hanswers⟩ := halone
    obtain rfl := Option.some.inj (hn.symm.trans hk)
    obtain ⟨hreq, hnext, _⟩ := hsafe
    by_cases ho : ∃ id r, o = .vms (.reserve id r)
    · obtain ⟨id, r, rfl⟩ := ho
      exact .inl ⟨⟨_, id, r, hn, rfl⟩, hreq⟩
    · right
      have hnot : ¬ Reserving k s := by
        rintro ⟨t, id, r, ht, hop⟩
        obtain rfl := Option.some.inj (hn.symm.trans ht)
        exact ho ⟨id, r, Option.some.inj hop⟩
      have hallow := allows_of_exec hexec
        (fun cmd hcmd => hanswers cmd (dueCommand_eq hn (congrArg some hcmd)))
        (fun id r h => ho ⟨id, r, h⟩)
      have hlt := (List.getElem?_eq_some_iff.mp hn).1
      refine ⟨hnot, _, List.getElem?_set_self hlt, ?_⟩
      have hsafe' := hnext c reply hallow
      rwa [show (slots config.jailer.hostInterface bad good mayReserve).note o c reply
        s.shared.subnetPool = sh.subnetPool from (pool_of_exec hexec).symm] at hsafe'

theorem pastNetworking_cons {e : Event} (halone : Alone config bad good n s e) :
    PastNetworking ((s, e) :: past) n ↔ Reserving n s ∨ PastNetworking past n := by
  cases e with
  | run k c =>
    obtain ⟨rfl, _⟩ := halone
    constructor
    · rintro ⟨a, id, r, c', t, hmem, hn, ho⟩
      rcases List.mem_cons.mp hmem with heq | hmem
      · obtain ⟨rfl, _⟩ := Prod.mk.inj heq
        exact .inl ⟨t, id, r, hn, ho⟩
      · exact .inr ⟨a, id, r, c', t, hmem, hn, ho⟩
    · rintro (⟨t, id, r, hn, ho⟩ | ⟨a, id, r, h⟩)
      · exact ⟨s, id, r, .now hn ho⟩
      · exact ⟨a, id, r, h.tail _⟩
  | _ => exact halone.elim

/-- Up to the end the task keeps the discipline, unless it gets past its networking. -/
theorem disciplined_path (hpath : System.Path (server config lib) b past s)
    (halone : System.Meets (Alone config bad good n) past)
    (h : Disciplined config bad good mayReserve final n b) :
    PastNetworking past n ∧ mayReserve ∨
      ¬ PastNetworking past n ∧ Disciplined config bad good mayReserve final n s := by
  induction hpath with
  | refl =>
    right
    refine ⟨?_, h⟩
    rintro ⟨a, id, r, c, t, hmem, _⟩
    simp at hmem
  | @step past s s' e hpath he ih =>
    obtain ⟨hok, halone⟩ := System.meets_cons.mp halone
    rw [pastNetworking_cons hok]
    rcases ih halone with ⟨hpassed, hmay⟩ | ⟨hnot, hs⟩
    · exact .inl ⟨.inr hpassed, hmay⟩
    · rcases disciplined_step hs hok he with ⟨hreserving, hmay⟩ | ⟨hreserving, hs'⟩
      · exact .inl ⟨.inl hreserving, hmay⟩
      · exact .inr ⟨not_or.mpr ⟨hreserving, hnot⟩, hs'⟩

end Paths

section Networking

variable {hostIface : String} {bad good : Finset U16} {mayReserve : Prop} {pool : SubnetPool}
  {i : U16}

theorem safe_runCmdOutput {cmd : Command} {post : Option RustText.Text → SubnetPool → Prop}
    (h : ∀ c, Answers hostIface bad good cmd c →
      post (if c.succeeds then some c.stdout else none) pool) :
    (runCmdOutput cmd).Safe (slots hostIface bad good mayReserve) post pool := by
  refine ⟨trivial, fun c r hallow => ?_⟩
  obtain ⟨hanswers, rfl⟩ := hallow
  exact h c hanswers

theorem safe_runCmd {cmd : Command} {post : Bool → SubnetPool → Prop}
    (h : ∀ c, Answers hostIface bad good cmd c → post c.succeeds pool) :
    (runCmd cmd).Safe (slots hostIface bad good mayReserve) post pool := by
  refine Script.safe_bind.mpr (safe_runCmdOutput fun c hanswers => ?_)
  have hc := h c hanswers
  cases hs : c.succeeds with
  | true => rwa [hs] at hc
  | false => rwa [hs] at hc

theorem safe_copyRootfs {strategy : CopyStrategy} {source dest : String} {uid gid : ℕ} :
    (copyRootfs strategy source dest uid gid).Safe (slots hostIface bad good mayReserve)
      (fun copied w => copied = true ∧ w = pool) pool := by
  refine Script.safe_bind.mpr (safe_runCmd fun c hanswers => ?_)
  rw [hanswers.copied rfl]
  refine Script.safe_bind.mpr (safe_runCmd fun c hanswers => ?_)
  rw [hanswers.copied rfl]
  exact ⟨rfl, rfl⟩

/-- A command of the set-up that fails is not one for a good subnet. -/
theorem not_good {cmd : Command} {c : Choice} (h : Answers hostIface bad good cmd c)
    (hmem : cmd ∈ setupCommands hostIface i) (hc : c.succeeds = false) : i ∉ good := by
  intro hi
  have hs := (h.obeyed i hi hmem).1
  rw [hc] at hs
  exact Bool.false_ne_true hs

theorem safe_createTap :
    (createTap (tapName i) (subnetTapIp i)).Safe (slots hostIface bad good mayReserve)
      (fun made w => w = pool ∧ (made = true → i ∉ bad) ∧ (made = false → i ∉ good)) pool := by
  have hundone (hi : i ∉ good) : (do
      let _ ← runCmd (.linkDel (tapName i))
      return false : Code Bool).Safe (slots hostIface bad good mayReserve)
      (fun made w => w = pool ∧ (made = true → i ∉ bad) ∧ (made = false → i ∉ good)) pool :=
    Script.safe_bind.mpr (safe_runCmd fun _ _ => ⟨rfl, by simp, fun _ => hi⟩)
  refine Script.safe_bind.mpr (safe_runCmd fun c hadd => ?_)
  cases hc : c.succeeds with
  | false => exact ⟨rfl, by simp, fun _ => not_good hadd (by simp [setupCommands]) hc⟩
  | true =>
    have hbad : i ∉ bad := by
      intro hi
      have hs := hadd.refused i hi rfl
      rw [hc] at hs
      exact Bool.false_ne_true hs.symm
    refine Script.safe_bind.mpr (safe_runCmd fun c haddr => ?_)
    cases hc : c.succeeds with
    | false => exact hundone (not_good haddr (by simp [setupCommands]) hc)
    | true =>
      refine Script.safe_bind.mpr (safe_runCmd fun c hup => ?_)
      cases hc : c.succeeds with
      | false => exact hundone (not_good hup (by simp [setupCommands]) hc)
      | true => exact ⟨rfl, fun _ => hbad, by simp⟩

/-- A rule whose handle cannot be read is not one for a good subnet. -/
theorem not_good_of_echo {cmd : Command} {c : Choice} (h : Answers hostIface bad good cmd c)
    (hmem : cmd ∈ setupCommands hostIface i) (hrule : AddsRule cmd)
    (hp : parseNftHandle c.stdout = none) : i ∉ good := by
  intro hi
  have hs := (h.obeyed i hi hmem).2 hrule
  rw [hp] at hs
  exact Bool.false_ne_true hs

theorem safe_addNatRules :
    (addNatRules (subnetGuestIp i) (tapName i) hostIface).Safe (slots hostIface bad good mayReserve)
      (fun handles w => w = pool ∧ (handles = none → i ∉ good)) pool := by
  refine Script.safe_bind.mpr (safe_runCmdOutput fun c hpost => ?_)
  cases hc : c.succeeds with
  | false => exact ⟨rfl, fun _ => not_good hpost (by simp [setupCommands]) hc⟩
  | true =>
    cases hp : parseNftHandle c.stdout with
    | none =>
      simp only [if_true, hp]
      exact ⟨rfl, fun _ => not_good_of_echo hpost (by simp [setupCommands]) trivial hp⟩
    | some postrouting =>
      simp only [if_true, hp]
      refine Script.safe_bind.mpr (safe_runCmdOutput fun c hfilter => ?_)
      cases hc : c.succeeds with
      | false =>
        refine Script.safe_bind.mpr (safe_runCmd fun _ _ => ?_)
        exact ⟨rfl, fun _ => not_good hfilter (by simp [setupCommands]) hc⟩
      | true =>
        cases hp : parseNftHandle c.stdout with
        | none =>
          simp only [if_true, hp]
          exact ⟨rfl, fun _ => not_good_of_echo hfilter (by simp [setupCommands]) trivial hp⟩
        | some filter =>
          simp only [if_true, hp]
          exact ⟨rfl, by simp⟩

/-- The set-up fails for a bad subnet and succeeds for a good one. -/
theorem safe_setupNetworking {subnet : SubnetAllocation} :
    (setupNetworking subnet hostIface).Safe (slots hostIface bad good mayReserve)
      (fun handles w => w = pool ∧ (handles ≠ none → subnet.index ∉ bad) ∧
        (handles = none → subnet.index ∉ good)) pool := by
  simp only [setupNetworking, subnet.tapName_eq, subnet.tapIp_eq, subnet.guestIp_eq]
  refine Script.safe_bind.mpr (safe_createTap.mono fun made w hw => ?_)
  obtain ⟨rfl, hmade, hfailed⟩ := hw
  cases made with
  | false => exact ⟨rfl, by simp, fun _ => hfailed rfl⟩
  | true =>
    refine Script.safe_bind.mpr (safe_addNatRules.mono fun handles w hw => ?_)
    obtain ⟨rfl, hnone⟩ := hw
    cases handles with
    | some handles => exact ⟨rfl, fun _ => hmade rfl, by simp⟩
    | none =>
      refine Script.safe_bind.mpr (Script.safe_bind.mpr (safe_runCmd fun _ _ => ?_))
      exact ⟨rfl, by simp, fun _ => hnone rfl⟩

end Networking

section Handlers

variable {config : AppConfig} {hostIface : String} {bad good : Finset U16} {mayReserve : Prop}
  {pool pool' : SubnetPool} {i : U16} {a : SubnetAllocation}

theorem lockBlind_slots : LockBlind (slots hostIface bad good mayReserve) where
  lock _ _ := ⟨trivial, fun _ _ _ => rfl⟩
  resume _ := ⟨trivial, fun _ _ _ => rfl⟩
  unlock _ _ := ⟨trivial, fun _ _ _ => rfl⟩
  stays _ _ _ h := h.elim

/-- The pool hands out its lowest free subnet. -/
theorem allocate_lowest (h : LowestFree pool i) : ∃ a pool', pool.allocate = some (a, pool') ∧
    a.index = i ∧ pool'.inUse = insert i pool.inUse := by
  cases ha : pool.allocate with
  | none => exact absurd (SubnetPool.allocate_eq_none.mp ha i h.free.1) h.free.2
  | some p =>
    obtain ⟨a, pool'⟩ := p
    obtain ⟨hfree, hinUse, hbelow⟩ := SubnetPool.allocate_eq_some ha
    have hle : i ≤ a.index := h.lowest a.index ⟨a.inPool, hfree⟩
    have hge : a.index ≤ i := by
      apply BitVec.not_lt.mp
      intro hlt
      exact h.free.2 (hbelow i hlt)
    obtain rfl : a.index = i := BitVec.le_antisymm hge hle
    exact ⟨a, pool', rfl, rfl, hinUse⟩

theorem not_considered : ¬ (slots hostIface bad good mayReserve).Considered pool :=
  fun ⟨_, hc⟩ => hc

theorem ensures_allocate {exit : SubnetPool → Prop} (h : LowestFree pool i) :
    (withLock .pool (Async.perform .allocate)).Ensures (slots hostIface bad good mayReserve)
      (fun subnet w => ∃ a, subnet = some a ∧ a.index = i ∧ w.inUse = insert i pool.inUse)
      exit pool := by
  obtain ⟨a, pool', ha, hindex, hinUse⟩ := allocate_lowest h
  have hallocate : (Code.perform .allocate).Safe (slots hostIface bad good mayReserve)
      (fun subnet w => ∃ a, subnet = some a ∧ a.index = i ∧ w.inUse = insert i pool.inUse)
      pool := by
    refine ⟨trivial, fun c r hr => ?_⟩
    have hr : r = pool.allocate.map Prod.fst := hr
    have hnote : (slots hostIface bad good mayReserve).note .allocate c r pool = pool' := by
      simp [slots, notePool, ha]
    rw [hnote]
    exact ⟨a, by rw [hr, ha]; rfl, hindex, hinUse⟩
  exact ensures_withLock lockBlind_slots (Handler.ensures_inline hallocate) fun hc =>
    absurd hc not_considered

theorem ensures_releaseSubnet {exit : SubnetPool → Prop} (hi : i.toNat < maxSubnets) :
    (releaseSubnet i).Ensures (slots hostIface bad good mayReserve)
      (fun _ w => w.inUse = pool.inUse \ {i}) exit pool := by
  obtain ⟨pool', hpool, hinUse⟩ := SubnetPool.release_eq_some pool hi
  have hrelease : (Code.perform (.release i)).Safe (slots hostIface bad good mayReserve)
      (fun _ w => w.inUse = pool.inUse \ {i}) pool := by
    refine ⟨hi, fun c r _ => ?_⟩
    have hnote : (slots hostIface bad good mayReserve).note (.release i) c r pool = pool' := by
      simp [slots, notePool, hpool]
    rw [hnote]
    exact hinUse
  exact ensures_withLock lockBlind_slots (Handler.ensures_inline hrelease) fun hc =>
    absurd hc not_considered

/-- After the reservation nothing has to be shown any more. -/
theorem ensures_reservePlaceholder {vmId : Uuid} {resources : VmResources} {handles : NatHandles}
    {post : Except ApiError Unit → SubnetPool → Prop} {exit : SubnetPool → Prop}
    (hmay : mayReserve) :
    (reservePlaceholder vmId resources a handles).Ensures (slots hostIface bad good mayReserve)
      post exit pool := by
  refine ensures_withLock lockBlind_slots ?_ fun hc => absurd hc not_considered
  exact Handler.Ensures.bind (ensures_inSection (.reserve vmId resources) hmay fun _ _ hr => hr.elim)

/-- A `create` that does not get past its networking leaves the pool as it was, and its subnet is
not a good one. -/
theorem ensures_create {body : Option CreateVmRequest} {exit : SubnetPool → Prop}
    (hbody : ∃ size, validateVmConfig (body.bind (·.vcpus)) (body.bind (·.memoryMb)) = .ok size)
    (h : LowestFree pool i) :
    (create config body).Ensures (slots config.jailer.hostInterface bad good (i ∉ bad))
      (fun _ w => i ∉ good ∧ w.inUse = pool.inUse) exit pool := by
  obtain ⟨⟨vcpus, memoryMb⟩, hsize⟩ := hbody
  unfold create
  rw [hsize]
  refine Handler.Ensures.bind (Handler.ensures_perform trivial fun _ vmId _ => ?_)
  refine Handler.Ensures.bind (Handler.ensures_offload (safe_copyRootfs.mono fun copied w hw => ?_)
    fun _ _ _ hc => hc)
  obtain ⟨rfl, rfl⟩ := hw
  refine Handler.Ensures.bind ((ensures_allocate h).mono (fun subnet w hw => ?_) fun _ hw => hw)
  obtain ⟨a, rfl, rfl, hinUse⟩ := hw
  refine Handler.Ensures.bind (Handler.ensures_offload
    (safe_setupNetworking.mono fun result w hw => ?_) fun _ _ _ hc => hc)
  obtain ⟨rfl, hsome, hnone⟩ := hw
  cases result with
  | none =>
    refine Handler.Ensures.bind ((ensures_releaseSubnet a.inPool).mono (fun _ w hw => ?_)
      fun _ hw => hw)
    refine Handler.ensures_pure ⟨hnone rfl, ?_⟩
    rw [hw, hinUse]
    exact Set.insert_sdiff_self_of_notMem h.free.2
  | some handles =>
    exact Handler.Ensures.bind (ensures_reservePlaceholder (hsome (by simp)))

end Handlers

section Sequences

variable {config : AppConfig} {lib : Libraries} {bad good : Finset U16} {s s' a b : State}
  {past : History} {body : Option CreateVmRequest} {outcomes : List Bool} {i : U16}

/-- What one `create` does is decided by the lowest free subnet. -/
theorem create_decided (hbody : Acceptable config.capacity s.shared.vms body)
    (harrives : step config lib s (.request (.create body)) = some b)
    (hpath : System.Path (server config lib) b past a)
    (halone : System.Meets (Alone config bad good s.tasks.length) past)
    (hended : ∀ t, a.tasks[s.tasks.length]? = some t → t.inFlight = false)
    (hi : LowestFree s.shared.subnetPool i) :
    PastNetworking past s.tasks.length ∧ i ∉ bad ∨ ¬ PastNetworking past s.tasks.length ∧
      i ∉ good ∧ a.shared.subnetPool.inUse = s.shared.subnetPool.inUse := by
  obtain rfl := Option.some.inj harrives
  have hstart : Disciplined config bad good (i ∉ bad) (fun _ w => i ∉ good ∧
      w.inUse = s.shared.subnetPool.inUse) s.tasks.length
      { s with tasks := s.tasks ++ [⟨.create body, handlerOf config (.create body), {}⟩] } :=
    ⟨_, getElem?_request.mpr (.inl ⟨rfl, rfl⟩),
      safe_answering (ensures_create (valid_of_acceptable hbody) hi)⟩
  rcases disciplined_path hpath halone hstart with hpassed | ⟨hnot, t, hn, hsafe⟩
  · exact .inl hpassed
  · obtain ⟨outcome, hcode⟩ := code_of_not_inFlight (hended t hn)
    rw [hcode] at hsafe
    exact .inr ⟨hnot, hsafe⟩

theorem LowestFree.of_inUse {pool pool' : SubnetPool} (h : LowestFree pool i)
    (heq : pool'.inUse = pool.inUse) : LowestFree pool' i := by
  have hfree (j : U16) : Free pool' j ↔ Free pool j := by
    unfold Free
    rw [heq]
  exact ⟨(hfree i).mpr h.free, fun j hj => h.lowest j ((hfree j).mp hj)⟩

/-- If the tap of the lowest free subnet cannot be added, no `create` of a sequence gets past its
networking, and the pool stays as it is; if that subnet is sound, the first one does. -/
theorem lowest_slot_decides (h : Creates config lib bad good s outcomes s')
    (hi : LowestFree s.shared.subnetPool i) :
    (i ∈ bad → (∀ passed ∈ outcomes, passed = false) ∧
      s'.shared.subnetPool.inUse = s.shared.subnetPool.inUse) ∧
    (i ∈ good → ∀ passed ∈ outcomes.head?, passed = true) := by
  induction h with
  | none s => simp
  | next passed body hbody harrives hpath halone hended hpassed rest ih =>
    have hdecided := create_decided hbody harrives hpath halone hended hi
    constructor
    · intro hbad
      rcases hdecided with ⟨_, hnbad⟩ | ⟨hnot, _, hinUse⟩
      · exact absurd hbad hnbad
      · obtain ⟨hall, hrest⟩ := (ih (hi.of_inUse hinUse)).1 hbad
        refine ⟨?_, hrest.trans hinUse⟩
        intro p hp
        rcases List.mem_cons.mp hp with rfl | hp
        · exact Bool.eq_false_iff.mpr fun hp => hnot (hpassed.mp hp)
        · exact hall p hp
    · intro hgood p hp
      obtain rfl : passed = p := by simpa using hp
      rcases hdecided with ⟨hdone, _⟩ | ⟨_, hngood, _⟩
      · exact hpassed.mpr hdone
      · exact absurd hgood hngood

end Sequences

section Samples

/-- A `create` that is refused its tap. -/
def refusedTap (n : ℕ) (id : Uuid) : List Event :=
  .run n { id := id } :: runs n 6 ++ .run n { succeeds := false } :: runs n 4

/-- A `create` of the sample server that goes through the given steps. -/
def sampleOnce (bad good : Finset U16) (events : ℕ → List Event) (s : State) : Option State := do
  let b ← sampleServer.step s (.request (.create none))
  let a ← sampleServer.replayVia (Alone sampleConfig bad good s.tasks.length) b
    (events s.tasks.length)
  if Acceptable sampleConfig.capacity s.shared.vms none ∧
    ∀ t ∈ a.tasks[s.tasks.length]?, t.inFlight = false then some a else none

theorem refused_of_sampleOnce {bad good : Finset U16} {events : ℕ → List Event} {s a : State}
    {i : U16} (h : sampleOnce bad good events s = some a) (hi : LowestFree s.shared.subnetPool i)
    (hbad : i ∈ bad) : LowestFree a.shared.subnetPool i ∧ ∀ outcomes s',
      Creates sampleConfig sampleLibraries bad good a outcomes s' →
        Creates sampleConfig sampleLibraries bad good s (false :: outcomes) s' := by
  simp only [sampleOnce, Option.bind_eq_bind, Option.bind_eq_some_iff] at h
  obtain ⟨b, hb, a', ha, h⟩ := h
  split at h
  · rename_i hcond
    obtain ⟨hbody, hended⟩ := hcond
    obtain rfl := Option.some.inj h
    obtain ⟨past, hpath, halone⟩ := System.path_of_replayVia ha
    rcases create_decided hbody hb hpath halone hended hi with ⟨_, hnbad⟩ | ⟨hnot, _, hinUse⟩
    · exact absurd hbad hnbad
    · refine ⟨hi.of_inUse hinUse, fun outcomes s' rest => ?_⟩
      exact .next false none hbody hb hpath halone hended (by simpa using hnot) rest
  · simp at h

theorem lowestFree_new : LowestFree SubnetPool.new 0 where
  free := ⟨by decide, by simp [SubnetPool.inUse_new]⟩
  lowest j _ := BitVec.le_def.mpr (Nat.zero_le _)

/-- Two requests in succession that try the first subnet, while the second one is sound. -/
theorem two_refused : ∃ s', Creates sampleConfig sampleLibraries {0} {1} {} [false, false] s' := by
  have hboth : ((sampleOnce {0} {1} (fun n => refusedTap n n) {}).bind
      (sampleOnce {0} {1} fun n => refusedTap n n)).isSome = true := by decide +kernel
  obtain ⟨s', hs'⟩ := Option.isSome_iff_exists.mp hboth
  obtain ⟨a, ha, hs'⟩ := Option.bind_eq_some_iff.mp hs'
  obtain ⟨hlowest, hfirst⟩ := refused_of_sampleOnce ha lowestFree_new (by simp)
  obtain ⟨_, hsecond⟩ := refused_of_sampleOnce hs' hlowest (by simp)
  exact ⟨s', hfirst _ _ (hsecond _ _ (.none s'))⟩

theorem lowest_slot_decides_refused : ∃ s',
    Creates sampleConfig sampleLibraries {0} {1} {} [false, false] s' ∧
      s'.shared.subnetPool.inUse = ∅ := by
  obtain ⟨s', h⟩ := two_refused
  have hsame := ((lowest_slot_decides h lowestFree_new).1 (by simp)).2
  exact ⟨s', h, hsame.trans SubnetPool.inUse_new⟩

/-- Whatever the pool, `k` free subnets whose taps cannot be added do not stop `k + 1` requests in
succession as long as another one is sound. -/
def Unblocked (config : AppConfig) (lib : Libraries) : Prop :=
  ∀ (s s' : State) (bad good : Finset U16) (outcomes : List Bool),
    (server config lib).Reachable s → Idle s → (∀ i ∈ bad, Free s.shared.subnetPool i) →
    (∃ j ∈ good, j ∉ bad ∧ Free s.shared.subnetPool j) →
    Creates config lib bad good s outcomes s' → outcomes.length = bad.card + 1 → true ∈ outcomes

/-- One bad subnet, if it is the lowest one, blocks every `create`. -/
theorem blocked : ¬ Unblocked sampleConfig sampleLibraries := by
  intro h
  obtain ⟨s', hcreates⟩ := two_refused
  have hfree (j : U16) (hj : j.toNat < maxSubnets) : Free SubnetPool.new j :=
    ⟨hj, by simp [SubnetPool.inUse_new]⟩
  have hpassed := h {} s' {0} {1} [false, false] .initial (by decide)
    (fun i hi => hfree i (by simp_all [maxSubnets]))
    ⟨1, by simp, by decide, hfree 1 (by decide)⟩ hcreates rfl
  simp at hpassed

end Samples

end Warlock.SuccessiveCreates
