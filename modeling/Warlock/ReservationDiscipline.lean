import Warlock.QuietHandlers
import Warlock.Server

/-!
# The discipline of the handlers

What each operation requires of the standpoint of the task that performs it, and what its
reply may be. Every handler keeps this discipline on every way through it, also when its
future is dropped while it awaits and when a blocking task panics. This is shown here for
each handler on its own; that the replies are the ones assumed is shown for the server.
-/

namespace Warlock.ReservationDiscipline
open ApplicationState EffectPrograms HostNetworking Ledgers MachineIntegers QuietHandlers
  ReservationProtocol Server ServerOperations SshSession SubnetAddressing VmConfiguration VmHandlers VmIdentifiers

variable (config : AppConfig)

/-- The record of VM `id` names the resources of one subnet of the pool and the paths of
that VM. -/
structure RecordFits (id : Uuid) (r : VmResources) : Prop where
  subnet : ∃ i : U16, i.toNat < maxSubnets ∧ r.subnetIndex = some i ∧ r.tapName = some (tapName i) ∧
    r.guestIp = some (subnetGuestIp i).display
  handles : ∃ h, r.natHandles = some h
  rootfs : r.rootfsCopy = some (rootfsPath config.jailer.vmImagesDir id)
  vsock : r.vsockUdsPath = some (vsockRuntimePath id)

/-- The tap of a slot may be deleted by who holds the slot, by who lost it, and on behalf of
the task's own placeholder. -/
def MayDelete (v : Standpoint) (name : String) : Prop :=
  ∃ i : U16, name = tapName i ∧ (v.slot = some i ∨ v.lost = some i ∨
    v.id.isSome ∧ ∃ r, v.standing = .creating r ∧ r.subnetIndex = some i)

/-- The slot is the task's own, or it belongs to the task's own placeholder. -/
def MayRelease (v : Standpoint) (i : U16) : Prop :=
  v.agent = none ∧ (v.slot = some i ∨ v.slot = none ∧ v.registry = true ∧ v.id.isSome ∧
    ∃ r, v.standing = .creating r ∧ r.subnetIndex = some i)

def sectionRequires (v : Standpoint) : VmRegistry.Section → Prop
  | .reserve id r => v.id = some id ∧ v.standing = .fresh ∧ v.slot = r.subnetIndex ∧
      RecordFits config id r ∧ v.agent = none
  | .upgrade id => v.id = some id ∧ (∃ r, v.standing = .creating r) ∧ v.agent = some id
  | .remove id => v.id = some id ∧ (∃ r, v.standing = .creating r) ∧ v.slot = none ∧
      v.agent = none
  | .take _ => v.id = none ∧ v.slot = none ∧ v.agent = none
  | .discard id => v.id = some id ∧ (v.standing = .gone ∨ v.slot = none ∧ v.agent = none ∧
      ∃ r, v.standing = .creating r ∨ v.standing = .released r)
  | .get _ | .entries | .info => True

def requires : Op → Standpoint → Prop
  | .lock .registry, v | .tryLock .registry, v => v.registry = false ∧ v.pool = false
  | .lock .pool, v | .tryLock .pool, v => v.pool = false
  | .unlock m, v => v.holds m = true ∧
      (m = .registry → v.AgentPlaced ∧ ∀ r, v.standing ≠ .released r)
  | .vms s, v => v.registry = true ∧ sectionRequires config v s
  | .allocate, v => v.pool = true ∧ v.slot = none
  | .release i, v => v.pool = true ∧ i.toNat < maxSubnets ∧ MayRelease v i
  | .newV4, v => v.id = none ∧ v.standing = .fresh ∧ v.agent = none ∧ v.slot = none
  | .command (.linkDel name), v => MayDelete v name
  | .build id _, v => v.id = some id ∧ (∃ r, v.standing = .creating r) ∧ v.agent = none
  | .sdk id .startVmm, v | .dropInstance id, v => v.agent = some id
  | _, _ => True

def allows : (o : Op) → Choice → Reply o → Standpoint → Prop
  | .vms (.upgrade _), _, moved, _ => moved = true
  | .vms (.remove _), _, entry, v => ∃ r, v.standing = .creating r ∧ entry = some (.creating r)
  | .vms (.take id), _, .ok r, _ => RecordFits config id r
  | .vms (.get id), _, entry, v =>
    (v.id = some id → v.standing.Allows entry) ∧ ∀ e, entry = some e → RecordFits config id e.res
  | _, _, _, _ => True

def custody : Discipline Reply Choice Standpoint where
  requires := requires config
  allows := allows config
  note o _ r v := noteView v o r
  considers _ _ _ := True
  leave
    | .dropped, v => abandonView v
    | .panicked, v => v

/-- Nothing is left in the task's hands. -/
structure Settled (v : Standpoint) : Prop where
  registry : v.registry = false
  pool : v.pool = false
  slot : v.slot = none
  agent : v.agent = none

/-- The answer of `create` describes the VM that is running. -/
def Describes (body : Option CreateVmRequest) (answer : CreateVmResponse) (r : VmResources) :
    Prop :=
  validateVmConfig (body.bind (·.vcpus)) (body.bind (·.memoryMb)) =
      .ok (answer.vcpus, answer.memoryMb) ∧
    ∃ subnet natHandles, answer.guestIp = subnet.guestIp.display ∧
      r = placeholder config body answer.id answer.vcpus answer.memoryMb subnet natHandles

/-- How a task may end. -/
def final (request : Request) (outcome : Outcome) (v : Standpoint) : Prop :=
  Settled v ∧ match outcome with
  | .dropped => ∀ r, v.standing = .creating r → v.refused = true
  | .answered (.created answer) => v.id = some answer.id ∧
      ∃ body r, request = .create body ∧ v.standing = .upgraded r ∧ Describes config body answer r
  | .answered _ => v.standing = .fresh ∨ v.standing = .gone
  | .session _ _ => v = {}


section Rules

variable {config} {F : Outcome → Standpoint → Prop} {α : Type} {v : Standpoint}
  {u : Program Reply Outcome} {k : α → Program Reply Outcome}

/-- The destructor of a mutex guard and what follows it. -/
def unlocking (m : Mutex) (u p : Program Reply Outcome) : Program Reply Outcome :=
  (Script.perform (.unlock m)).inline u fun _ => p

theorem safe_unlocking {m : Mutex} {p : Program Reply Outcome} (hm : v.holds m = true)
    (ha : m = .registry → v.AgentPlaced ∧ ∀ r, v.standing ≠ .released r)
    (hp : p.Safe (custody config) F (v.set m false)) :
    (unlocking m u p).Safe (custody config) F v :=
  Program.safe_perform.mpr ⟨⟨hm, ha⟩, fun _ _ _ => hp⟩

theorem safe_withLock {m : Mutex} {body : Async α} (hr : requires config (.lock m) v)
    (hu : u.Safe (custody config) F (abandonView v))
    (hu' : (unlocking m u u).Safe (custody config) F (abandonView (v.set m true)))
    (hb : (body (unlocking m u u) fun a => unlocking m u (k a)).Safe (custody config) F
      (v.set m true)) :
    (withLock m body u k).Safe (custody config) F v :=
  Program.safe_await hr
    (fun _ _ _ => Program.safe_await trivial (fun _ _ _ => hb) fun _ => hu') fun _ => hu

theorem safe_releaseSubnet {k : Unit → Program Reply Outcome} {i : U16}
    (hp : v.pool = false) (ha : v.agent = none) (hi : i.toNat < maxSubnets) (hs : v.slot = some i)
    (hu : u.Safe (custody config) F (abandonView v))
    (hk : (k ()).Safe (custody config) F { v with slot := none }) :
    (releaseSubnet i u k).Safe (custody config) F v := by
  refine safe_withLock hp hu (safe_unlocking rfl (by simp) ?_) ?_
  · simpa [View.set, abandonView, hs, hp] using hu
  · refine Program.safe_perform.mpr ⟨⟨rfl, hi, ha, .inl hs⟩, fun _ _ _ => ?_⟩
    refine safe_unlocking ?_ (by simp) ?_
    · simp [custody, noteView, noteRelease, hs, View.set, View.holds]
    · simpa [custody, noteView, noteRelease, hs, View.set, hp] using hk

end Rules

section Commands

variable {config} {v : Standpoint}

theorem upholds_command {cmd : Command} (h : requires config (.command cmd) v) :
    Upholds (custody config) (· = v) (.command cmd) := by
  intro w hw
  subst hw
  exact ⟨h, fun _ _ _ => rfl⟩

theorem upholds_onTap {name : String} (h : MayDelete v name) (cmd : Command)
    (hc : onTap name cmd) : Upholds (custody config) (· = v) (.command cmd) := by
  apply upholds_command
  cases cmd with
  | linkDel tap =>
    obtain rfl : tap = name := hc
    exact h
  | _ => trivial

theorem upholds_onRules {ip : Ipv4Addr} {name : String} (cmd : Command)
    (hc : onRules ip name cmd) : Upholds (custody config) (· = v) (.command cmd) := by
  apply upholds_command
  cases cmd with
  | linkDel tap => exact hc.elim
  | _ => trivial

theorem upholds_deleteRule (chain : Chain) (handle : U64) :
    Upholds (custody config) (· = v) (.command (.deleteRule chain handle)) := upholds_command trivial

theorem upholds_onFile {path : String} (cmd : Command) (hc : onFile path cmd) :
    Upholds (custody config) (· = v) (.command cmd) := by
  apply upholds_command
  cases cmd with
  | linkDel tap => exact hc.elim
  | _ => trivial

theorem upholds_removeFile {path : String} : Upholds (custody config) (· = v) (.removeFile path) := by
  intro w hw
  subst hw
  exact ⟨trivial, fun _ r _ => by cases r <;> rfl⟩

variable {F : Outcome → Standpoint → Prop} {α : Type} {u : Program Reply Outcome}
  {k : α → Program Reply Outcome}

theorem safe_steady {s : Code α} (h : s.Steady (custody config) (· = v))
    (hk : ∀ a, (k a).Safe (custody config) F v) :
    (Handler.inline s u k).Safe (custody config) F v :=
  Program.safe_inline ((h.safe rfl).mono fun a _ hv => hv ▸ hk a)

/-- An offloaded script works on for a task that has gone. -/
theorem safe_offload {s : Code α} {k : Option α → Program Reply Outcome}
    (hs : s.Steady (custody config) (· = v)) (hs' : s.Steady (custody config) (· = abandonView v))
    (hk : ∀ a, (k (some a)).Safe (custody config) F v) (hn : (k none).Safe (custody config) F v)
    (hu : u.Safe (custody config) F (abandonView v)) :
    (Handler.offload s u k).Safe (custody config) F v := by
  refine Program.safe_offload hs hs' rfl ?_ ?_ ?_ ?_
  · rintro a _ rfl
    exact hk a
  · rintro _ rfl
    exact hn
  · rintro _ rfl
    rfl
  · rintro _ rfl
    exact ⟨hu, hu⟩

end Commands

section Helpers

variable {config} {F : Outcome → Standpoint → Prop} {α : Type} {v : Standpoint} {id : Uuid}
  {r : VmResources} {u : Program Reply Outcome}

theorem safe_freeResources {k : Unit → Program Reply Outcome} (hfit : RecordFits config id r)
    (hp : v.pool = false) (ha : v.agent = none) (hs : v.slot = r.subnetIndex)
    (hu : u.Safe (custody config) F (abandonView v))
    (hk : (k ()).Safe (custody config) F { v with slot := none }) :
    (freeResources r u k).Safe (custody config) F v := by
  obtain ⟨i, hi, hindex, htap, _⟩ := hfit.subnet
  obtain ⟨handles, hhandles⟩ := hfit.handles
  have hslot : v.slot = some i := hs.trans hindex
  simp only [freeResources, htap, hhandles, hindex, hfit.rootfs, Handler.bind_apply]
  refine safe_steady (steady_deleteTap (upholds_command ⟨i, rfl, .inl hslot⟩)) fun _ => ?_
  refine safe_steady (steady_removeNatRules upholds_deleteRule) fun _ => ?_
  refine safe_releaseSubnet hp ha hi hslot hu ?_
  exact safe_steady (steady_cleanupRootfsCopy upholds_removeFile) fun _ => hk

/-- The instance is gone after its scope, however that is left. -/
theorem safe_dropInstance {k : Unit → Program Reply Outcome} (ha : v.agent = some id)
    (hk : (k ()).Safe (custody config) F { v with agent := none }) :
    ((Script.perform (.dropInstance id)).inline u k).Safe (custody config) F v :=
  Program.safe_perform.mpr ⟨ha, fun _ _ _ => hk⟩

theorem safe_stopInstance {k : Unit → Program Reply Outcome} (ha : v.agent = some id)
    (hu : u.Safe (custody config) F { abandonView v with agent := none })
    (hk : (k ()).Safe (custody config) F { v with agent := none }) :
    (stopInstance id u k).Safe (custody config) F v := by
  refine Program.safe_await trivial (fun _ _ _ => ?_) fun _ => ?_
  · exact safe_dropInstance ha hk
  · exact safe_dropInstance ha hu

/-- The standpoints in which the create guard may fire: the placeholder is still the task's,
or the explicit clean-up has taken it out already. -/
structure GuardReady (config : AppConfig) (vmId : Uuid) (v : Standpoint) : Prop where
  settled : Settled v
  id : v.id = some vmId
  standing : v.standing = .gone ∨ ∃ r, v.standing = .creating r ∧ RecordFits config vmId r

theorem script_steady {s : Code α} {post : α → Standpoint → Prop}
    (h : s.Steady (custody config) (· = v)) (hp : ∀ a, post a v) :
    s.Safe (custody config) post v :=
  (h.safe rfl).mono fun a _ hv => hv ▸ hp a

theorem script_tryReleaseSubnet {i : U16} {post : Unit → Standpoint → Prop}
    (hr : v.registry = true) (hp : v.pool = false) (hs : v.slot = none) (ha : v.agent = none)
    (hid : v.id = some id) (hi : i.toNat < maxSubnets) (hst : v.standing = .creating r)
    (hindex : r.subnetIndex = some i) (hkept : post () v)
    (hfreed : post () { v with standing := .released r }) :
    (tryReleaseSubnet i).Safe (custody config) post v := by
  refine Script.safe_bind.mpr ⟨hp, fun _ acquired _ => ?_⟩
  cases acquired with
  | false => exact hkept
  | true =>
    refine Script.safe_bind.mpr ⟨⟨rfl, hi, ha, .inr ⟨hs, hr, by simp [custody, noteView, View.set, hid],
      r, hst, hindex⟩⟩, fun _ _ _ => ?_⟩
    refine ⟨⟨?_, by simp⟩, fun _ _ _ => ?_⟩
    · simp [custody, noteView, noteRelease, View.set, View.holds, hs, hst]
    · simpa [custody, noteView, noteRelease, View.set, hs, hst, hp, Script.Safe] using hfreed

/-- The guard's clean-up keeps the placeholder or releases its slot. -/
theorem script_tryFreeResources {post : Unit → Standpoint → Prop} (hfit : RecordFits config id r)
    (hr : v.registry = true) (hp : v.pool = false) (hs : v.slot = none) (ha : v.agent = none)
    (hid : v.id = some id) (hst : v.standing = .creating r) (hkept : post () v)
    (hfreed : post () { v with standing := .released r }) :
    (tryFreeResources r).Safe (custody config) post v := by
  obtain ⟨i, hi, hindex, htap, _⟩ := hfit.subnet
  obtain ⟨handles, hhandles⟩ := hfit.handles
  have hremoved (w : Standpoint) (hw : post () w) :
      Script.Safe (custody config) post (do
        let _ ← Code.perform (.removeFile (rootfsPath config.jailer.vmImagesDir id))) w := by
    refine Script.safe_bind.mpr ⟨trivial, fun _ removed _ => ?_⟩
    cases removed <;> exact hw
  simp only [tryFreeResources, htap, hhandles, hindex, hfit.rootfs]
  refine Script.safe_bind.mpr (script_steady (steady_deleteTap (upholds_command ⟨i, rfl, .inr (.inr
    ⟨by simp [hid], r, hst, hindex⟩)⟩)) fun _ => ?_)
  refine Script.safe_bind.mpr (script_steady (steady_removeNatRules upholds_deleteRule) fun _ => ?_)
  exact Script.safe_bind.mpr (script_tryReleaseSubnet hr hp hs ha hid hi hst hindex
    (hremoved _ hkept) (hremoved _ hfreed))

/-- Taking the placeholder out and giving the map back, the end of a guard that got in. -/
theorem script_guardDiscard {post : Unit → Standpoint → Prop} (hr : v.registry = true)
    (hid : v.id = some id) (hs : v.slot = none) (ha : v.agent = none)
    (hst : v.standing = .gone ∨ ∃ r, v.standing = .creating r ∨ v.standing = .released r)
    (hpost : post () { v with registry := false, standing := .gone }) :
    Script.Safe (custody config) post (do
      Code.perform (.vms (.discard id))
      Code.perform (.unlock .registry)) v := by
  refine Script.safe_bind.mpr ⟨⟨hr, hid, hst.imp_right fun h => ⟨hs, ha, h⟩⟩, fun _ _ _ => ?_⟩
  refine ⟨⟨hr, fun _ => ⟨?_, ?_⟩⟩, fun _ _ _ => hpost⟩
  · simp [View.AgentPlaced, custody, noteView, noteSection, ha]
  · simp [custody, noteView, noteSection]

theorem safe_createGuardDrop (hg : GuardReady config id v)
    (hu : ∀ v', Settled v' → (∀ r, v'.standing = .creating r → v'.refused = true) →
      u.Safe (custody config) F v') :
    ((createGuardDrop id).inline u fun _ => u).Safe (custody config) F v := by
  obtain ⟨⟨hreg, hpool, hslot, hagent⟩, hid, hst⟩ := hg
  refine Program.safe_inline (Script.safe_bind.mpr ⟨⟨hreg, hpool⟩, fun _ acquired _ => ?_⟩)
  cases acquired with
  | false => exact hu _ ⟨hreg, hpool, hslot, hagent⟩ fun _ _ => rfl
  | true =>
    have hgone (w : Standpoint) (hw : w.pool = false) (hs : w.slot = none) (ha : w.agent = none) :
        u.Safe (custody config) F { w with registry := false, standing := .gone } :=
      hu _ ⟨rfl, hw, hs, ha⟩ (by simp)
    refine Script.safe_bind.mpr ⟨⟨rfl, trivial⟩, fun _ entry hentry => ?_⟩
    have hallowed : v.standing.Allows entry := hentry.1 hid
    rcases hst with hst | ⟨r, hst, hfit⟩
    · obtain rfl : entry = none := by simpa [hst] using hallowed
      exact script_guardDiscard rfl hid hslot hagent (.inl hst) (hgone _ hpool hslot hagent)
    · obtain rfl : entry = some (.creating r) := by simpa [hst] using hallowed
      refine Script.safe_bind.mpr (script_tryFreeResources hfit rfl hpool hslot hagent hid hst ?_ ?_)
      · exact script_guardDiscard rfl hid hslot hagent (.inr ⟨r, .inl hst⟩)
          (hgone _ hpool hslot hagent)
      · exact script_guardDiscard rfl hid hslot hagent (.inr ⟨r, .inr rfl⟩)
          (hgone _ hpool hslot hagent)

end Helpers

section Launching

variable {config} {F : Outcome → Standpoint → Prop} {v : Standpoint} {vmId : Uuid}
  {r : VmResources} {u : Program Reply Outcome}

theorem without_agent (ha : v.agent = none) : { v with agent := none } = v := by
  cases v
  simp_all

theorem safe_performCalls {calls : List SdkCall} {k : Bool → Program Reply Outcome}
    (ha : v.agent = some vmId) (hu : u.Safe (custody config) F (abandonView v))
    (hk : ∀ b, (k b).Safe (custody config) F v) :
    (performCalls vmId calls u k).Safe (custody config) F v := by
  induction calls with
  | nil => exact hk true
  | cons call calls ih =>
    refine Program.safe_await (by cases call <;> first | exact ha | trivial)
      (fun _ done _ => ?_) fun _ => hu
    have hv : noteView v (.sdk vmId call) done = v := by cases call <;> rfl
    refine hv ▸ ?_
    cases done with
    | false => exact hk false
    | true => exact ih

/-- Setting an instance up fails and leaves none, or hands it to the caller. -/
theorem safe_setupFirecrackerInstance {vcpus : U8} {memoryMb : U32}
    {kernel vmRootfs tapName path : String} {guestIp tapIp : Ipv4Addr}
    {k : Option InstanceInfo → Program Reply Outcome} (hid : v.id = some vmId)
    (hst : v.standing = .creating r) (ha : v.agent = none)
    (hu : u.Safe (custody config) F (abandonView v))
    (hkn : (k none).Safe (custody config) F v)
    (hks : ∀ desc, (k (some desc)).Safe (custody config) F { v with agent := some vmId }) :
    (setupFirecrackerInstance config vmId vcpus memoryMb kernel vmRootfs tapName guestIp tapIp path
      u k).Safe (custody config) F v := by
  refine Program.safe_perform.mpr ⟨⟨hid, ⟨r, hst⟩, ha⟩, fun _ built _ => ?_⟩
  cases built with
  | false => exact hkn
  | true =>
    have hu' : ((Script.perform (.dropInstance vmId)).inline u fun _ => u).Safe (custody config) F
        (abandonView { v with agent := some vmId }) := by
      refine safe_dropInstance rfl ?_
      simpa [abandonView, ha] using hu
    have hdrop : ((Script.perform (.dropInstance vmId)).inline u fun _ => k none).Safe
        (custody config) F { v with agent := some vmId } := by
      refine safe_dropInstance rfl ?_
      simpa [without_agent ha] using hkn
    refine safe_performCalls rfl hu' fun performed => ?_
    cases performed with
    | false => exact hdrop
    | true =>
      refine Program.safe_await trivial (fun _ desc _ => ?_) fun _ => hu'
      cases desc with
      | none => exact hdrop
      | some desc => exact hks desc

theorem guardReady_abandon (hs : Settled v) (hid : v.id = some vmId)
    (hst : v.standing = .creating r) (hfit : RecordFits config vmId r) :
    GuardReady config vmId (abandonView v) :=
  ⟨⟨hs.registry, hs.pool, rfl, hs.agent⟩, hid, .inr ⟨r, hst, hfit⟩⟩

/-- The explicit clean-up after a failed set-up. -/
theorem safe_cleanupPlaceholder {k : Unit → Program Reply Outcome}
    (hs : Settled v) (hid : v.id = some vmId) (hst : v.standing = .creating r)
    (hfit : RecordFits config vmId r)
    (hu : ∀ w, GuardReady config vmId w → u.Safe (custody config) F w)
    (hk : ∀ w, Settled w → w.standing = .gone → (k ()).Safe (custody config) F w) :
    (cleanupPlaceholder vmId u k).Safe (custody config) F v := by
  have hready := guardReady_abandon hs hid hst hfit
  have hnone : ∀ w : Standpoint, w.agent = none → w.AgentPlaced := by
    intro w hw
    simp [View.AgentPlaced, hw]
  refine safe_withLock ⟨hs.registry, hs.pool⟩ (hu _ hready) ?_ ?_
  · refine safe_unlocking rfl (fun _ => ⟨hnone _ hs.agent, ?_⟩) ?_
    · simp [abandonView, View.set, hst]
    · exact hu _ ⟨⟨rfl, hs.pool, rfl, hs.agent⟩, hid, .inr ⟨r, hst, hfit⟩⟩
  · refine Program.safe_perform.mpr
      ⟨⟨rfl, hid, ⟨r, hst⟩, hs.slot, hs.agent⟩, fun _ entry hentry => ?_⟩
    obtain ⟨r', hr', rfl⟩ := hentry
    obtain rfl : r = r' := by simpa [View.set, hst] using hr'
    refine safe_freeResources hfit hs.pool hs.agent rfl ?_ ?_
    · refine safe_unlocking rfl (fun _ => ⟨hnone _ hs.agent, ?_⟩) ?_
      · simp [abandonView, custody, noteView, noteSection]
      · exact hu _ ⟨⟨rfl, hs.pool, rfl, hs.agent⟩, hid, .inl rfl⟩
    · refine safe_unlocking rfl (fun _ => ⟨hnone _ hs.agent, ?_⟩) ?_
      · simp [custody, noteView, noteSection]
      · exact hk _ ⟨rfl, hs.pool, rfl, hs.agent⟩ rfl

/-- The upgrade to `Running` by the task that owns the instance. -/
theorem safe_upgradePlaceholder {k : Bool → Program Reply Outcome} (hs : Settled v)
    (hid : v.id = some vmId) (hst : v.standing = .creating r) (hfit : RecordFits config vmId r)
    (hu : ∀ w, GuardReady config vmId w → u.Safe (custody config) F w)
    (hk : (k true).Safe (custody config) F { v with standing := .upgraded r }) :
    (upgradePlaceholder vmId u k).Safe (custody config) F { v with agent := some vmId } := by
  have hready := guardReady_abandon hs hid hst hfit
  have hdrop : ∀ w : Standpoint, w.agent = some vmId →
      GuardReady config vmId { w with agent := none } →
      ((Script.perform (.dropInstance vmId)).inline u fun _ => u).Safe (custody config) F w :=
    fun w ha hw => safe_dropInstance ha (hu _ hw)
  have hplaced : ∀ w : Standpoint, w.agent = some vmId → w.id = some vmId →
      w.standing = .creating r → w.AgentPlaced := by
    intro w ha hi hw id h
    obtain rfl : vmId = id := Option.some.inj (ha.symm.trans h)
    exact ⟨hi, r, hw⟩
  refine safe_withLock ⟨hs.registry, hs.pool⟩ (hdrop _ rfl ?_) ?_ ?_
  · exact ⟨⟨hs.registry, hs.pool, rfl, rfl⟩, hid, .inr ⟨r, hst, hfit⟩⟩
  · refine safe_unlocking rfl (fun _ => ⟨hplaced _ rfl hid hst, ?_⟩) (hdrop _ rfl ?_)
    · simp [abandonView, View.set, hst]
    · exact ⟨⟨rfl, hs.pool, rfl, rfl⟩, hid, .inr ⟨r, hst, hfit⟩⟩
  · refine Program.safe_perform.mpr ⟨⟨rfl, hid, ⟨r, hst⟩, rfl⟩, fun _ moved hmoved => ?_⟩
    obtain rfl : moved = true := hmoved
    refine safe_unlocking ?_ (fun _ => ⟨?_, ?_⟩) ?_
    · simp [custody, noteView, noteSection, View.set, View.holds, hst]
    · simp [custody, noteView, noteSection, View.set, View.AgentPlaced, hst]
    · simp [custody, noteView, noteSection, View.set, hst]
    · have hv : View.set (noteView (View.set { v with agent := some vmId } .registry true)
          (.vms (.upgrade vmId)) true) .registry false = { v with standing := .upgraded r } := by
        obtain ⟨hr, hp, hsl, ha⟩ := hs
        cases v
        simp_all [noteView, noteSection, View.set]
      exact hv ▸ hk

theorem safe_launch {vcpus : U8} {memoryMb : U32} {kernel vmRootfs path : String}
    {subnet : SubnetAllocation} {k : Option (InstanceInfo × Bool) → Program Reply Outcome}
    (hs : Settled v) (hid : v.id = some vmId) (hst : v.standing = .creating r)
    (hfit : RecordFits config vmId r)
    (hu : ∀ w, GuardReady config vmId w → u.Safe (custody config) F w)
    (hkn : ∀ w, Settled w → w.standing = .gone → (k none).Safe (custody config) F w)
    (hks : ∀ desc, (k (some (desc, true))).Safe (custody config) F
      { v with standing := .upgraded r }) :
    (launch config vmId vcpus memoryMb kernel vmRootfs subnet path u k).Safe (custody config) F
      v := by
  have hready := guardReady_abandon hs hid hst hfit
  refine safe_setupFirecrackerInstance hid hst hs.agent (hu _ hready) ?_ fun desc => ?_
  · exact safe_cleanupPlaceholder hs hid hst hfit hu hkn
  · exact safe_upgradePlaceholder hs hid hst hfit hu (hks desc)

end Launching

section Creating

variable {config} {F : Outcome → Standpoint → Prop} {v : Standpoint} {vmId : Uuid}
  {r : VmResources} {u : Program Reply Outcome}

theorem recordFits_placeholder {body : Option CreateVmRequest} {vcpus : U8} {memoryMb : U32}
    {subnet : SubnetAllocation} {natHandles : NatHandles} :
    RecordFits config vmId (placeholder config body vmId vcpus memoryMb subnet natHandles) where
  subnet := ⟨subnet.index, subnet.inPool, rfl, by simp [placeholder, subnet.tapName_eq],
    by simp [placeholder, subnet.guestIp_eq]⟩
  handles := ⟨natHandles, rfl⟩
  rootfs := rfl
  vsock := rfl

theorem agentPlaced_none (h : v.agent = none) : v.AgentPlaced := by simp [View.AgentPlaced, h]

theorem safe_allocate {k : Option SubnetAllocation → Program Reply Outcome} (hs : Settled v)
    (hu : u.Safe (custody config) F (abandonView v)) (hkn : (k none).Safe (custody config) F v)
    (hks : ∀ a, (k (some a)).Safe (custody config) F { v with slot := some a.index }) :
    (withLock .pool (Async.perform .allocate) u k).Safe (custody config) F v := by
  obtain ⟨hreg, hpool, hslot, hagent⟩ := hs
  refine safe_withLock hpool hu (safe_unlocking rfl (by simp) ?_) ?_
  · simpa [View.set, abandonView, hpool] using hu
  · refine Program.safe_perform.mpr ⟨⟨rfl, hslot⟩, fun _ a _ => ?_⟩
    cases a with
    | none =>
      refine safe_unlocking rfl (by simp) ?_
      simpa [custody, noteView, View.set, ← hpool] using hkn
    | some a =>
      refine safe_unlocking rfl (by simp) ?_
      simpa [custody, noteView, View.set, ← hpool] using hks a

/-- The capacity window: the placeholder takes the slot over, or the slot goes back. -/
theorem safe_reservePlaceholder {subnet : SubnetAllocation} {natHandles : NatHandles}
    {k : Except ApiError Unit → Program Reply Outcome} (hreg : v.registry = false)
    (hpool : v.pool = false) (hagent : v.agent = none) (hslot : v.slot = some subnet.index)
    (hid : v.id = some vmId) (hst : v.standing = .fresh) (hfit : RecordFits config vmId r)
    (hindex : r.subnetIndex = some subnet.index)
    (hu : u.Safe (custody config) F (abandonView v))
    (hke : ∀ e, (k (.error e)).Safe (custody config) F { v with slot := none })
    (hko : (k (.ok ())).Safe (custody config) F { v with slot := none, standing := .creating r }) :
    (reservePlaceholder vmId r subnet natHandles u k).Safe (custody config) F v := by
  have hback (w : Standpoint) (hr : w.registry = true) (ha : w.agent = none)
      (hw : w.standing = .fresh) (p : Program Reply Outcome)
      (hp : p.Safe (custody config) F { w with registry := false }) :
      (unlocking .registry u p).Safe (custody config) F w :=
    safe_unlocking hr (fun _ => ⟨agentPlaced_none ha, by simp [hw]⟩) hp
  refine safe_withLock ⟨hreg, hpool⟩ hu ?_ ?_
  · refine hback _ (by rfl) (by exact hagent) (by exact hst) _ ?_
    simpa [View.set, abandonView, ← hreg] using hu
  · refine Program.safe_perform.mpr
      ⟨⟨rfl, hid, hst, hslot.trans hindex.symm, hfit, hagent⟩, fun _ reserved _ => ?_⟩
    cases reserved with
    | ok _ =>
      refine safe_unlocking rfl (fun _ => ⟨agentPlaced_none hagent, ?_⟩) ?_
      · simp [custody, noteView, noteSection]
      · simpa [custody, noteView, noteSection, View.set, ← hreg] using hko
    | error e =>
      refine safe_steady (steady_removeNatRules upholds_deleteRule) fun _ => ?_
      refine safe_steady (steady_deleteTap (upholds_command ⟨subnet.index, subnet.tapName_eq, .inl hslot⟩))
        fun _ => ?_
      refine safe_releaseSubnet hpool hagent subnet.inPool hslot ?_ ?_
      · refine hback _ (by rfl) (by exact hagent) (by exact hst) _ ?_
        simpa [custody, noteView, noteSection, View.set, abandonView, ← hreg] using hu
      · refine hback _ (by rfl) (by exact hagent) (by exact hst) _ ?_
        simpa [custody, noteView, noteSection, View.set, ← hreg] using hke e

theorem safe_reportCreated {vcpus : U8} {memoryMb : U32} {k : Unit → Program Reply Outcome}
    (hu : u.Safe (custody config) F (abandonView v)) (hk : (k ()).Safe (custody config) F v) :
    (reportCreated config vmId vcpus memoryMb u k).Safe (custody config) F v := by
  unfold reportCreated
  split
  · exact Program.safe_await trivial (fun _ _ _ => hk) fun _ => hu
  · exact hk

theorem safe_create (body : Option CreateVmRequest) :
    (answering (create config body)).Safe (custody config) (final config (.create body)) {} := by
  have hfailed {w : Standpoint} (e : ApiError) (hs : Settled w)
      (hst : w.standing = .fresh ∨ w.standing = .gone) :
      (Program.ret (.answered (.failed e))).Safe (custody config) (final config (.create body)) w :=
    ⟨hs, hst⟩
  have hdropped {w : Standpoint} (hs : Settled w)
      (hst : ∀ r, w.standing = .creating r → w.refused = true) :
      (Program.ret .dropped).Safe (custody config) (final config (.create body)) w := ⟨hs, hst⟩
  have hfresh {w : Standpoint} (hs : Settled w) (hst : w.standing = .fresh) :
      (Program.ret .dropped).Safe (custody config) (final config (.create body)) w :=
    hdropped hs (by simp [hst])
  unfold answering create
  cases hvalid : validateVmConfig (body.bind (·.vcpus)) (body.bind (·.memoryMb)) with
  | error e => exact hfailed _ ⟨rfl, rfl, rfl, rfl⟩ (.inl rfl)
  | ok size =>
    obtain ⟨vcpus, memoryMb⟩ := size
    refine Program.safe_perform.mpr ⟨⟨rfl, rfl, rfl, rfl⟩, fun _ vmId _ => ?_⟩
    have hdrawn : Settled { id := some vmId } := ⟨rfl, rfl, rfl, rfl⟩
    refine safe_offload (steady_copyRootfs upholds_onFile) (steady_copyRootfs upholds_onFile) (fun copied => ?_)
      (hfailed _ hdrawn (.inl rfl)) (hfresh hdrawn rfl)
    cases copied with
    | false => exact hfailed _ hdrawn (.inl rfl)
    | true =>
      refine safe_allocate hdrawn (hfresh hdrawn rfl)
        (hfailed _ hdrawn (.inl rfl)) fun subnet => ?_
      have hlost : Settled (abandonView { id := some vmId, slot := some subnet.index }) :=
        ⟨rfl, rfl, rfl, rfl⟩
      refine safe_offload
        (steady_setupNetworking (upholds_onTap ⟨subnet.index, subnet.tapName_eq, .inl rfl⟩)
          upholds_onRules)
        (steady_setupNetworking (upholds_onTap ⟨subnet.index, subnet.tapName_eq, .inr (.inl rfl)⟩)
          upholds_onRules)
        (fun handles => ?_)
        (Program.safe_perform.mpr ⟨trivial, fun _ _ _ => hfailed _ hlost (.inl rfl)⟩)
        (hfresh hlost rfl)
      cases handles with
      | none =>
        exact safe_releaseSubnet rfl rfl subnet.inPool rfl (hfresh hlost rfl)
          (hfailed _ hdrawn (.inl rfl))
      | some natHandles =>
        refine safe_reservePlaceholder rfl rfl rfl rfl rfl rfl recordFits_placeholder rfl
          (hfresh hlost rfl) ?_ ?_
        · exact fun e => hfailed _ hdrawn (.inl rfl)
        refine safe_launch ⟨rfl, rfl, rfl, rfl⟩ rfl rfl recordFits_placeholder
          (fun w hw => safe_createGuardDrop hw fun _ => hdropped)
          (fun w hs hst => hfailed _ hs (.inr hst)) fun desc => ?_
        refine safe_reportCreated (hdropped ⟨rfl, rfl, rfl, rfl⟩ (by simp [abandonView])) ?_
        exact ⟨⟨rfl, rfl, rfl, rfl⟩, rfl, body, _, rfl, rfl, hvalid, subnet, natHandles, rfl, rfl⟩

end Creating

section Serving

variable {config} {request : Request} {v w : Standpoint}

/-- A task that never entered anything under an identifier of its own. -/
structure Bystander (v : Standpoint) : Prop where
  pool : v.pool = false
  slot : v.slot = none
  agent : v.agent = none
  standing : v.standing = .fresh

theorem safe_dropped (hv : Bystander v) (hr : v.registry = false) :
    (Program.ret .dropped).Safe (custody config) (final config request) v :=
  ⟨⟨hr, hv.pool, hv.slot, hv.agent⟩, by simp [hv.standing]⟩

/-- The map is given back on the way out. -/
theorem safe_leaveMap {u p : Program Reply Outcome} (hv : Bystander v) (hr : v.registry = true)
    (hp : p.Safe (custody config) (final config request) { v with registry := false }) :
    (unlocking .registry u p).Safe (custody config) (final config request) v :=
  safe_unlocking hr (fun _ => ⟨agentPlaced_none hv.agent, by simp [hv.standing]⟩) hp

/-- A handler that works with the map locked and whose code is safe there. -/
theorem safe_serving {α : Type} {body : Async α} {k : α → Program Reply Outcome}
    (hb : (body (unlocking .registry (.ret .dropped) (.ret .dropped)) fun a =>
      unlocking .registry (.ret .dropped) (k a)).Safe (custody config) (final config request)
      { registry := true }) :
    (withLock .registry body (.ret .dropped) k).Safe (custody config) (final config request) {} :=
  safe_withLock ⟨rfl, rfl⟩ (safe_dropped ⟨rfl, rfl, rfl, rfl⟩ rfl)
    (safe_leaveMap ⟨rfl, rfl, rfl, rfl⟩ rfl (safe_dropped ⟨rfl, rfl, rfl, rfl⟩ rfl)) hb

private theorem safe_gone (hv : Bystander v) (hr : v.registry = true) :
    (unlocking .registry (.ret .dropped) (.ret .dropped)).Safe (custody config)
      (final config request) v :=
  safe_leaveMap hv hr (safe_dropped ⟨hv.pool, hv.slot, hv.agent, hv.standing⟩ rfl)

private theorem safe_answer {answer : Answer} (hv : Bystander v) (hr : v.registry = true)
    (ha : ∀ response, answer ≠ .created response) :
    (unlocking .registry (.ret .dropped) (.ret (.answered answer))).Safe (custody config)
      (final config request) v := by
  refine safe_leaveMap hv hr ⟨⟨rfl, hv.pool, hv.slot, hv.agent⟩, ?_⟩
  cases answer with
  | created response => exact absurd rfl (ha response)
  | _ => exact .inl hv.standing

theorem safe_delete (id : Uuid) :
    (answering (delete config id)).Safe (custody config) (final config (.delete id)) {} := by
  refine safe_serving (Program.safe_perform.mpr ⟨⟨rfl, rfl, rfl, rfl⟩, fun _ taken htaken => ?_⟩)
  cases taken with
  | error e => exact safe_answer ⟨rfl, rfl, rfl, rfl⟩ rfl (by simp)
  | ok r =>
    have hfit : RecordFits config id r := htaken
    refine safe_stopInstance rfl (safe_gone ⟨rfl, rfl, rfl, rfl⟩ rfl) ?_
    refine safe_freeResources hfit rfl rfl rfl (safe_gone ⟨rfl, rfl, rfl, rfl⟩ rfl) ?_
    split
    · refine Program.safe_await trivial (fun _ _ _ => ?_) fun _ => ?_
      · exact safe_answer ⟨rfl, rfl, rfl, rfl⟩ rfl (by simp)
      · exact safe_gone ⟨rfl, rfl, rfl, rfl⟩ rfl
    · exact safe_answer ⟨rfl, rfl, rfl, rfl⟩ rfl (by simp)

theorem safe_get (id : Uuid) :
    (answering (VmHandlers.get id)).Safe (custody config) (final config (.get id)) {} := by
  refine safe_serving (Program.safe_perform.mpr ⟨⟨rfl, trivial⟩, fun _ entry _ => ?_⟩)
  rcases entry with _ | _ | r
  · exact safe_answer ⟨rfl, rfl, rfl, rfl⟩ rfl (by simp)
  · exact safe_answer ⟨rfl, rfl, rfl, rfl⟩ rfl (by simp)
  · refine Program.safe_await trivial (fun _ desc _ => ?_) fun _ => safe_gone ⟨rfl, rfl, rfl, rfl⟩ rfl
    cases desc <;> exact safe_answer ⟨rfl, rfl, rfl, rfl⟩ rfl (by simp)

theorem safe_summarize {entries : List (Uuid × VmEntry)} {u : Program Reply Outcome}
    {k : List VmSummary → Program Reply Outcome}
    (hu : u.Safe (custody config) (final config request) (abandonView v))
    (hk : ∀ l, (k l).Safe (custody config) (final config request) v) :
    (summarize entries u k).Safe (custody config) (final config request) v := by
  induction entries generalizing k with
  | nil => exact hk []
  | cons e rest ih =>
    obtain ⟨id, entry⟩ := e
    cases entry with
    | creating r => exact ih fun _ => hk _
    | running r => exact Program.safe_await trivial (fun _ _ _ => ih fun _ => hk _) fun _ => hu

theorem safe_list : (answering list).Safe (custody config) (final config .list) {} := by
  refine safe_serving (Program.safe_perform.mpr ⟨⟨rfl, trivial⟩, fun _ entries _ => ?_⟩)
  exact safe_summarize (safe_gone ⟨rfl, rfl, rfl, rfl⟩ rfl) fun _ =>
    safe_answer ⟨rfl, rfl, rfl, rfl⟩ rfl (by simp)

theorem safe_ready :
    (answering (ready config)).Safe (custody config) (final config .ready) {} := by
  refine Program.safe_perform.mpr ⟨⟨rfl, rfl⟩, fun _ acquired _ => ?_⟩
  cases acquired with
  | false => exact ⟨⟨rfl, rfl, rfl, rfl⟩, .inl rfl⟩
  | true =>
    refine Program.safe_perform.mpr ⟨⟨rfl, trivial⟩, fun _ _ _ => ?_⟩
    refine Program.safe_perform.mpr ⟨⟨rfl, fun _ => ⟨agentPlaced_none rfl, ?_⟩⟩, fun _ _ _ => ?_⟩
    · simp [custody, noteView, noteSection, View.set]
    · exact ⟨⟨rfl, rfl, rfl, rfl⟩, .inl rfl⟩

/-- Every handler keeps the discipline from a fresh standpoint on. -/
theorem safe_handlerOf (config : AppConfig) (request : Request) :
    (handlerOf config request).Safe (custody config) (final config request) {} := by
  cases request with
  | create body => exact safe_create body
  | delete id => exact safe_delete id
  | get id => exact safe_get id
  | list => exact safe_list
  | ready => exact safe_ready
  | session => exact ⟨⟨rfl, rfl, rfl, rfl⟩, rfl⟩

end Serving

section Sessions

variable {config} {request : Request} {lib : Libraries} {self : SessionHandler}

private theorem safe_returned {r : Returned} :
    (Program.ret (.session r.1 r.2)).Safe (custody config) (final config request) {} :=
  ⟨⟨rfl, rfl, rfl, rfl⟩, rfl⟩

private theorem safe_returning {p : Program Reply Outcome}
    (hp : p.Safe (custody config) (final config request) {}) :
    (unlocking .registry (.ret .dropped) p).Safe (custody config) (final config request)
      { registry := true } :=
  safe_leaveMap ⟨rfl, rfl, rfl, rfl⟩ rfl hp

theorem safe_authPublickey (user : String) (key : AuthorizedKeys.PublicKey) :
    (calledBack (authPublickey lib self user key)).Safe (custody config) (final config request)
      {} := by
  unfold calledBack authPublickey
  rcases parseVmIdFromUsername lib user with _ | _ | vmId
  · exact safe_returned
  · exact safe_returned
  · refine safe_serving (Program.safe_perform.mpr ⟨⟨rfl, trivial⟩, fun _ entry _ => ?_⟩)
    rcases entry with _ | _ | r
    · exact safe_returning safe_returned
    · exact safe_returning safe_returned
    · dsimp only
      rcases AuthorizedKeys.isKeyAuthorized lib.parsePublicKeyBase64 key r.sshKeys with _ | _ | _
      all_goals exact safe_returning safe_returned

theorem safe_openShell (path : String) (channelId : ChannelId) :
    (calledBack (openShell self path channelId)).Safe (custody config) (final config request)
      {} := by
  have hdropped : (Program.ret .dropped).Safe (custody config) (final config request)
      (abandonView {}) := safe_dropped ⟨rfl, rfl, rfl, rfl⟩ rfl
  refine Program.safe_await trivial (fun _ stream _ => ?_) fun _ => hdropped
  cases stream with
  | none => exact safe_returned
  | some stream =>
    refine Program.safe_await trivial (fun _ written _ => ?_) fun _ => hdropped
    cases written with
    | false => exact safe_returned
    | true =>
      refine Program.safe_await trivial (fun _ response _ => ?_) fun _ => hdropped
      cases response with
      | none => exact safe_returned
      | some response =>
        dsimp only
        cases handshakeAccepted response with
        | false => exact safe_returned
        | true => exact Program.safe_perform.mpr ⟨trivial, fun _ _ _ => safe_returned⟩

theorem safe_shellRequest :
    (calledBack (shellRequest self)).Safe (custody config) (final config request) {} := by
  obtain ⟨vmId, writer, channelId⟩ := self
  cases vmId with
  | none => exact safe_returned
  | some vmId =>
    cases channelId with
    | none => exact safe_returned
    | some channelId =>
      refine safe_serving (Program.safe_perform.mpr ⟨⟨rfl, trivial⟩, fun _ entry _ => ?_⟩)
      rcases entry with _ | _ | r
      · exact safe_returning safe_returned
      · exact safe_returning safe_returned
      · obtain ⟨_, _, _, _, _, _, _, path, _⟩ := r
        cases path with
        | none => exact safe_returning safe_returned
        | some path => exact safe_returning (safe_openShell path channelId)

theorem safe_sendToShell (bytes : Bytes) :
    (calledBack (sendToShell self bytes)).Safe (custody config) (final config request) {} := by
  obtain ⟨vmId, writer, channelId⟩ := self
  cases writer with
  | none => exact safe_returned
  | some stream => exact Program.safe_perform.mpr ⟨trivial, fun _ _ _ => safe_returned⟩

/-- Every callback of a session keeps the discipline. -/
theorem safe_callback (cb : Callback) :
    (calledBack (callbackCode lib self cb)).Safe (custody config) (final config request) {} := by
  cases cb with
  | authPublickey user key => exact safe_authPublickey user key
  | channelOpenSession channel => exact safe_returned
  | ptyRequest channel => exact safe_returned
  | shellRequest channel => exact safe_shellRequest
  | data channel bytes => exact safe_sendToShell bytes
  | windowChangeRequest channel colWidth rowHeight => exact safe_sendToShell _

end Sessions

end Warlock.ReservationDiscipline
