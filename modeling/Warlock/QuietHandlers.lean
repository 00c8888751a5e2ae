import Warlock.HandlerTriples
import Warlock.SshSession
import Warlock.VmHandlers

/-!
# The parts of handlers that a discipline does not notice

Whatever a discipline keeps track of, most operations of the handlers do not touch it. Here
every helper of the handlers is shown to keep a view, once and for all disciplines, from
nothing but that its operations do.
-/

namespace Warlock.QuietHandlers
open ApplicationState EffectPrograms HostNetworking MachineIntegers ReservationProtocol
  ServerOperations SshSession SubnetAddressing VmHandlers VmIdentifiers

variable {View : Type*} {D : Discipline Reply Choice View} {v : View}

section Commands

def onTap (name : String) : Command → Prop
  | .tuntapAdd tap | .addrAdd _ tap | .linkUp tap | .linkDel tap => tap = name
  | _ => False

def onRules (guestIp : Ipv4Addr) (name : String) : Command → Prop
  | .addPostroutingRule ip _ => ip = guestIp
  | .addFilterRule tap _ => tap = name
  | .deleteRule _ _ => True
  | _ => False

def onFile (path : String) : Command → Prop
  | .cp _ _ dest | .chown _ _ dest => dest = path
  | _ => False

variable {P : View → Prop}

theorem steady_runCmdOutput {c : Command} (h : Upholds D P (.command c)) :
    (runCmdOutput c).Steady D P := h.steady

theorem steady_runCmd {c : Command} (h : Upholds D P (.command c)) :
    (runCmd c).Steady D P :=
  .bind (steady_runCmdOutput h) fun _ => trivial

theorem steady_deleteTap {name : String} (h : Upholds D P (.command (.linkDel name))) :
    (deleteTap name).Steady D P :=
  .bind (steady_runCmd h) fun _ => trivial

theorem steady_createTap {name : String} {ip : Ipv4Addr}
    (h : ∀ cmd, onTap name cmd → Upholds D P (.command cmd)) :
    (createTap name ip).Steady D P := by
  have hdel (b : Bool) : (do let _ ← runCmd (.linkDel name); return b : Code Bool).Steady D P := .bind (steady_runCmd (h _ rfl)) fun _ => trivial
  refine .bind (steady_runCmd (h _ rfl)) fun added => ?_
  cases added with
  | false => trivial
  | true =>
    refine .bind (steady_runCmd (h _ rfl)) fun addressed => ?_
    cases addressed with
    | false => exact hdel false
    | true =>
      refine .bind (steady_runCmd (h _ rfl)) fun up => ?_
      cases up with
      | false => exact hdel false
      | true => trivial

theorem steady_addNatRules {ip : Ipv4Addr} {name iface : String}
    (h : ∀ cmd, onRules ip name cmd → Upholds D P (.command cmd)) :
    (addNatRules ip name iface).Steady D P := by
  refine .bind (steady_runCmdOutput (h _ rfl)) fun post => ?_
  cases post with
  | none => trivial
  | some post =>
    dsimp only
    cases NftHandles.parseNftHandle post with
    | none => trivial
    | some handle =>
      refine .bind (steady_runCmdOutput (h _ rfl)) fun filter => ?_
      cases filter with
      | none => exact .bind (steady_runCmd (h _ trivial)) fun _ => trivial
      | some filter =>
        dsimp only
        cases NftHandles.parseNftHandle filter <;> trivial

theorem steady_removeNatRules {handles : NatHandles}
    (h : ∀ chain handle, Upholds D P (.command (.deleteRule chain handle))) :
    (removeNatRules handles).Steady D P :=
  .bind (steady_runCmd (h _ _)) fun _ => .bind (steady_runCmd (h _ _)) fun _ => trivial

theorem steady_setupNetworking {subnet : SubnetAllocation} {iface : String}
    (ht : ∀ cmd, onTap subnet.tapName cmd → Upholds D P (.command cmd))
    (hr : ∀ cmd, onRules subnet.guestIp subnet.tapName cmd → Upholds D P (.command cmd)) :
    (setupNetworking subnet iface).Steady D P := by
  refine .bind (steady_createTap ht) fun created => ?_
  cases created with
  | false => trivial
  | true =>
    refine .bind (steady_addNatRules hr) fun handles => ?_
    cases handles with
    | none => exact .bind (steady_deleteTap (ht _ rfl)) fun _ => trivial
    | some handles => trivial

theorem steady_copyRootfs {strategy : CopyStrategy} {source dest : String} {uid gid : ℕ}
    (h : ∀ cmd, onFile dest cmd → Upholds D P (.command cmd)) :
    (copyRootfs strategy source dest uid gid).Steady D P := by
  refine .bind (steady_runCmd (h _ rfl)) fun copied => ?_
  cases copied with
  | false => trivial
  | true =>
    refine .bind (steady_runCmd (h _ rfl)) fun owned => ?_
    cases owned <;> trivial

theorem steady_cleanupRootfsCopy {path : String} (h : Upholds D P (.removeFile path)) :
    (cleanupRootfsCopy path).Steady D P := .bind h.steady fun _ => trivial

end Commands

section Locking

/-- A discipline that does not notice the mutexes. -/
structure LockBlind (D : Discipline Reply Choice View) : Prop where
  lock : ∀ m v, Inert D v (.lock m)
  resume : ∀ v, Inert D v .resume
  unlock : ∀ m v, Inert D v (.unlock m)
  stays : ∀ v, D.Stays v

theorem ensures_withLock {α : Type} {m : Mutex} {body : Async α} {post : α → View → Prop}
    {exit : View → Prop} (h : LockBlind D) (hb : body.Ensures D post exit v)
    (he : D.Considered v → exit v) : (withLock m body).Ensures D post exit v := by
  have hunlock (P : View → Prop) (w : View) (hw : P w) :
      (Code.perform (.unlock m)).Safe D (fun _ => P) w :=
    ((h.unlock m w).steady.safe rfl).mono fun _ _ hw' => hw' ▸ hw
  refine Handler.Ensures.bind ((Handler.keeps_await (h.lock m v) (h.stays v)).mono ?_ ?_)
  · rintro _ _ rfl
    refine Handler.Ensures.owning (Handler.Ensures.bind
      ((Handler.keeps_await (h.resume _) (h.stays _)).mono ?_ ?_))
    · rintro _ _ rfl
      exact hb.mono (fun a w hw => hunlock (post a) w hw) fun w hw => hunlock exit w hw
    · rintro _ ⟨rfl, hc⟩
      exact hunlock exit _ (he hc)
  · rintro _ ⟨rfl, hc⟩
    exact he hc

theorem ensures_inSection (s : VmRegistry.Section) {post : s.Reply → View → Prop}
    {exit : View → Prop} (hr : D.requires (.vms s) v)
    (hp : ∀ c r, D.allows (.vms s) c r v → post r (D.note (.vms s) c r v)) :
    (inSection s).Ensures D post exit v := Handler.ensures_perform hr hp

end Locking

section Handlers

/-- The operations that only lock, look, or serve a console. -/
def Observing : Op → Prop
  | .lock _ | .resume | .tryLock _ | .unlock _ | .vms (.get _) | .vms .entries | .vms .info
  | .describeInstance _ | .connect _ | .writeAll _ _ | .read _ _ | .forward _ _ | .send _ _ => True
  | _ => False

/-- A view that no observation touches. -/
structure Watchful (D : Discipline Reply Choice View) (v : View) : Prop where
  inert : ∀ o, Observing o → Inert D v o
  stays : D.Stays v

/-- The operations that neither begin nor publish a VM, nor take one out, nor report, nor give
up. -/
def Housekeeping : Op → Prop
  | .newV4 | .vms (.upgrade _) | .vms (.take _) | .vms (.discard _) | .registerVm _ _ _
  | .deregisterVm _ | .dropLocals => False
  | _ => True

/-- A view that no housekeeping touches. -/
structure Quiet (D : Discipline Reply Choice View) (v : View) : Prop where
  inert : ∀ o, Housekeeping o → Inert D v o
  stays : D.Stays v

/-- Housekeeping that makes nothing with a name of its own. -/
def Upkeep : Op → Prop
  | .command (.tuntapAdd _) | .command (.cp _ _ _) | .build _ _ => False
  | o => Housekeeping o

/-- A view that no upkeep touches. -/
structure Calm (D : Discipline Reply Choice View) (v : View) : Prop where
  inert : ∀ o, Upkeep o → Inert D v o
  stays : D.Stays v

theorem housekeeping_of_upkeep {o : Op} (h : Upkeep o) : Housekeeping o := by
  unfold Upkeep at h
  split at h
  · exact h.elim
  · exact h.elim
  · exact h.elim
  · exact h

theorem upkeep_of_observing {o : Op} (h : Observing o) : Upkeep o := by
  cases o with
  | vms s => cases s <;> first | exact h.elim | trivial
  | _ => first | exact h.elim | trivial

theorem Calm.watchful (h : Calm D v) : Watchful D v :=
  ⟨fun o ho => h.inert o (upkeep_of_observing ho), h.stays⟩

theorem Quiet.calm (h : Quiet D v) : Calm D v :=
  ⟨fun o ho => h.inert o (housekeeping_of_upkeep ho), h.stays⟩

variable {α : Type} {vmId : Uuid} {r : VmResources}

theorem Quiet.command (h : Quiet D v) (cmd : Command) : Inert D v (.command cmd) :=
  h.inert _ trivial

theorem Calm.upholds (h : Calm D v) (o : Op) (ho : Upkeep o) : Upholds D (· = v) o :=
  (h.inert o ho).upholds

theorem Calm.rules {guestIp : Ipv4Addr} {name : String} (h : Calm D v) (cmd : Command)
    (hc : onRules guestIp name cmd) : Upholds D (· = v) (.command cmd) := by
  apply Inert.upholds
  cases cmd <;> first | exact hc.elim | exact h.inert _ trivial

theorem keeps_withLock {m : Mutex} {body : Async α} (h : Watchful D v) (hb : body.Keeps D v) :
    (withLock m body).Keeps D v := by
  refine .bind (Handler.keeps_await (h.inert (.lock m) trivial) h.stays) fun _ => ?_
  refine Handler.Keeps.owning ?_ (h.inert (.unlock m) trivial).steady
  exact .bind (Handler.keeps_await (h.inert .resume trivial) h.stays) fun _ => hb

theorem keeps_releaseSubnet {i : U16} (h : Calm D v) : (releaseSubnet i).Keeps D v :=
  keeps_withLock h.watchful (Handler.keeps_perform (h.inert _ trivial))

theorem keeps_freeResources (h : Calm D v) : (freeResources r).Keeps D v := by
  obtain ⟨_, _, rootfs, tap, index, handles, _, _, _⟩ := r
  induction tap using optionally with
  | some name hrest =>
    exact .bind (Handler.keeps_inline (steady_deleteTap (h.upholds _ trivial))) fun _ => hrest
  | none =>
    induction handles using optionally with
    | some handles hrest =>
      exact .bind (Handler.keeps_inline (steady_removeNatRules fun _ _ => h.upholds _ trivial))
        fun _ => hrest
    | none =>
      induction index using optionally with
      | some index hrest => exact .bind (keeps_releaseSubnet h) fun _ => hrest
      | none =>
        cases rootfs with
        | some path => exact Handler.keeps_inline (steady_cleanupRootfsCopy (h.upholds _ trivial))
        | none => exact Handler.keeps_pure

theorem keeps_stopInstance (h : D.Stays v) (hstop : Inert D v (.sdk vmId .stop))
    (hdrop : Inert D v (.dropInstance vmId)) : (stopInstance vmId).Keeps D v :=
  Handler.Keeps.owning (.bind (Handler.keeps_await hstop h) fun _ => Handler.keeps_pure) hdrop.steady

theorem Calm.stopInstance (h : Calm D v) : (VmHandlers.stopInstance vmId).Keeps D v :=
  keeps_stopInstance h.stays (h.inert _ trivial) (h.inert _ trivial)

theorem keeps_cleanupVmResources {entry : VmEntry} (h : Calm D v) :
    (cleanupVmResources vmId entry).Keeps D v := by
  cases entry with
  | creating r => exact keeps_freeResources h
  | running r => exact .bind h.stopInstance fun _ => keeps_freeResources h

theorem keeps_performCalls {calls : List SdkCall} (hs : D.Stays v)
    (hcalls : ∀ call ∈ calls, Inert D v (.sdk vmId call)) : (performCalls vmId calls).Keeps D v := by
  induction calls with
  | nil => exact Handler.keeps_pure
  | cons call calls ih =>
    refine .bind (Handler.keeps_await (hcalls call (.head _)) hs) fun done => ?_
    cases done with
    | false => exact Handler.keeps_pure
    | true => exact ih fun call' hcall' => hcalls call' (.tail _ hcall')

/-- The set-up of an instance only talks to it. -/
theorem keeps_setupInstance {config : AppConfig} {vcpus : U8} {memoryMb : U32}
    {kernel vmRootfs tapName path : String} {guestIp tapIp : Ipv4Addr} (hs : D.Stays v)
    (hdescribe : Inert D v (.describeInstance vmId))
    (hbuild : ∀ options : JailerOption, options.id = display vmId →
      options.stderr = jailerLogPath vmId → Inert D v (.build vmId options))
    (hcalls : ∀ call ∈ setupCalls vcpus memoryMb vmId kernel vmRootfs tapName guestIp tapIp path,
      Inert D v (.sdk vmId call)) (hdrop : Inert D v (.dropInstance vmId)) :
    (setupFirecrackerInstance config vmId vcpus memoryMb kernel vmRootfs tapName guestIp tapIp
      path).Keeps D v := by
  refine .bind (Handler.keeps_perform (hbuild _ rfl rfl)) fun built => ?_
  cases built with
  | false => exact Handler.keeps_pure
  | true =>
    refine .bind (Handler.Keeps.guarded (.bind (keeps_performCalls hs hcalls)
      fun performed => ?_) hdrop.steady) fun desc => ?_
    · cases performed with
      | false => exact Handler.keeps_pure
      | true => exact Handler.keeps_await hdescribe hs
    · cases desc with
      | none => exact .bind (Handler.keeps_perform hdrop) fun _ => Handler.keeps_pure
      | some desc => exact Handler.keeps_pure

theorem keeps_setupFirecrackerInstance {config : AppConfig} {vcpus : U8} {memoryMb : U32}
    {kernel vmRootfs tapName path : String} {guestIp tapIp : Ipv4Addr} (h : Watchful D v)
    (hbuild : ∀ options : JailerOption, options.id = display vmId →
      options.stderr = jailerLogPath vmId → Inert D v (.build vmId options))
    (hcalls : ∀ call ∈ setupCalls vcpus memoryMb vmId kernel vmRootfs tapName guestIp tapIp path,
      Inert D v (.sdk vmId call)) (hdrop : Inert D v (.dropInstance vmId)) :
    (setupFirecrackerInstance config vmId vcpus memoryMb kernel vmRootfs tapName guestIp tapIp
      path).Keeps D v :=
  keeps_setupInstance h.stays (h.inert _ trivial) hbuild hcalls hdrop

theorem keeps_reservePlaceholder {subnet : SubnetAllocation} {natHandles : NatHandles}
    (h : Calm D v) : (reservePlaceholder vmId r subnet natHandles).Keeps D v := by
  have hreserve : Inert D v (.vms (.reserve vmId r)) := h.inert _ trivial
  refine keeps_withLock h.watchful (.bind (Handler.keeps_perform hreserve) fun reserved => ?_)
  cases reserved with
  | ok _ => exact Handler.keeps_pure
  | error e =>
    refine .bind (Handler.keeps_inline (steady_removeNatRules fun _ _ => h.upholds _ trivial))
      fun _ => ?_
    refine .bind (Handler.keeps_inline (steady_deleteTap (h.upholds _ trivial))) fun _ => ?_
    exact .bind (keeps_releaseSubnet h) fun _ => Handler.keeps_pure

theorem keeps_cleanupPlaceholder (h : Calm D v) : (cleanupPlaceholder vmId).Keeps D v := by
  have hremove : Inert D v (.vms (.remove vmId)) := h.inert _ trivial
  refine keeps_withLock h.watchful (.bind (Handler.keeps_perform hremove) fun entry => ?_)
  cases entry with
  | none => exact Handler.keeps_pure
  | some entry => exact keeps_cleanupVmResources h

theorem steady_tryReleaseSubnet {i : U16} (h : Calm D v) :
    (tryReleaseSubnet i).Steady D (· = v) := by
  have hrelease : (Code.perform (.release i)).Steady D (· = v) := (h.inert (.release i) trivial).steady
  refine .bind (h.inert (.tryLock .pool) trivial).steady fun acquired => ?_
  cases acquired with
  | false => trivial
  | true => exact .bind hrelease fun _ => (h.inert (.unlock .pool) trivial).steady

theorem steady_tryFreeResources (h : Calm D v) : (tryFreeResources r).Steady D (· = v) := by
  obtain ⟨_, _, rootfs, tap, index, handles, _, _, _⟩ := r
  induction tap using optionally with
  | some name hrest => exact .bind (steady_deleteTap (h.upholds _ trivial)) fun _ => hrest
  | none =>
    induction handles using optionally with
    | some handles hrest =>
      exact .bind (steady_removeNatRules fun _ _ => h.upholds _ trivial) fun _ => hrest
    | none =>
      induction index using optionally with
      | some index hrest => exact .bind (steady_tryReleaseSubnet h) fun _ => hrest
      | none =>
        cases rootfs with
        | some path => exact .bind (h.inert (.removeFile path) trivial).steady fun _ => trivial
        | none => trivial

theorem steady_createGuardDrop (h : Calm D v) (hd : Inert D v (.vms (.discard vmId))) :
    (createGuardDrop vmId).Steady D (· = v) := by
  have hfinish : (do
      Code.perform (.vms (.discard vmId))
      Code.perform (.unlock .registry) : Code Unit).Steady D (· = v) :=
    .bind hd.steady fun _ => (h.inert (.unlock .registry) trivial).steady
  refine .bind (h.inert (.tryLock .registry) trivial).steady fun acquired => ?_
  cases acquired with
  | false => trivial
  | true =>
    refine .bind (h.inert (.vms (.get vmId)) trivial).steady fun entry => ?_
    rcases entry with _ | r | r
    · exact hfinish
    · exact .bind (steady_tryFreeResources h) fun _ => hfinish
    · exact hfinish

theorem keeps_get (h : Watchful D v) (id : Uuid) : (VmHandlers.get id).Keeps D v := by
  have hget : Inert D v (.vms (.get id)) := h.inert _ trivial
  refine keeps_withLock h (.bind (Handler.keeps_perform hget) fun entry => ?_)
  rcases entry with _ | _ | r
  · exact Handler.keeps_pure
  · exact Handler.keeps_pure
  · have hdescribe : Inert D v (.describeInstance id) :=
      h.inert _ trivial
    refine .bind (Handler.keeps_await hdescribe h.stays) fun desc => ?_
    cases desc <;> exact Handler.keeps_pure

theorem keeps_summarize (h : Watchful D v) (entries : List (Uuid × VmEntry)) :
    (summarize entries).Keeps D v := by
  induction entries with
  | nil => exact Handler.keeps_pure
  | cons e rest ih =>
    obtain ⟨id, entry⟩ := e
    have hrest (info : Option InstanceInfo) : Handler.Keeps D (do
        let summaries ← summarize rest
        return ⟨id, entry.res.vcpus, entry.res.memoryMb, VmEntry.status entry, info.map (·.state),
          entry.res.guestIp⟩ :: summaries : Async (List VmSummary)) v :=
      .bind ih fun _ => Handler.keeps_pure
    cases entry with
    | creating r => exact .bind Handler.keeps_pure hrest
    | running r =>
      have hdescribe : Inert D v (.describeInstance id) :=
        h.inert _ trivial
      exact .bind (Handler.keeps_await hdescribe h.stays) hrest

theorem keeps_list (h : Watchful D v) : list.Keeps D v := by
  have hentries : Inert D v (.vms .entries) := h.inert _ trivial
  exact keeps_withLock h (.bind (Handler.keeps_perform hentries) fun entries =>
    .bind (keeps_summarize h entries) fun _ => Handler.keeps_pure)

theorem keeps_ready {config : AppConfig} (h : Watchful D v) : (ready config).Keeps D v := by
  have htry : Inert D v (.tryLock .registry) := h.inert _ trivial
  have hinfo : Inert D v (.vms .info) := h.inert _ trivial
  have hunlock : Inert D v (.unlock .registry) := h.inert _ trivial
  refine .bind (Handler.keeps_perform htry) fun acquired => ?_
  cases acquired with
  | false => exact Handler.keeps_pure
  | true =>
    exact .bind (Handler.keeps_perform hinfo) fun _ => .bind (Handler.keeps_perform hunlock)
      fun _ => Handler.keeps_pure


theorem keeps_authPublickey {lib : Libraries} {self : SessionHandler} (h : Watchful D v) (user : String)
    (key : AuthorizedKeys.PublicKey) : (authPublickey lib self user key).Keeps D v := by
  unfold authPublickey
  rcases parseVmIdFromUsername lib user with _ | _ | vmId
  · exact Handler.keeps_pure
  · exact Handler.keeps_pure
  · have hget : Inert D v (.vms (.get vmId)) := h.inert _ trivial
    refine keeps_withLock h (.bind (Handler.keeps_perform hget) fun entry => ?_)
    rcases entry with _ | _ | r
    · exact Handler.keeps_pure
    · exact Handler.keeps_pure
    · dsimp only
      rcases AuthorizedKeys.isKeyAuthorized lib.parsePublicKeyBase64 key r.sshKeys with _ | _ | _
      all_goals exact Handler.keeps_pure

theorem keeps_openShell {self : SessionHandler} (h : Watchful D v) (path : String)
    (channelId : ChannelId) : (openShell self path channelId).Keeps D v := by
  have hconnect : Inert D v (.connect path) := h.inert _ trivial
  refine .bind (Handler.keeps_await hconnect h.stays) fun stream => ?_
  cases stream with
  | none => exact Handler.keeps_pure
  | some stream =>
    have hwrite (bytes : Bytes) : Inert D v (.writeAll stream bytes) := h.inert _ trivial
    have hread : Inert D v (.read stream 32) := h.inert _ trivial
    have hforward : Inert D v (.forward stream channelId) := h.inert _ trivial
    refine .bind (Handler.keeps_await (hwrite _) h.stays) fun written => ?_
    cases written with
    | false => exact Handler.keeps_pure
    | true =>
      refine .bind (Handler.keeps_await hread h.stays) fun response => ?_
      cases response with
      | none => exact Handler.keeps_pure
      | some response =>
        dsimp only
        cases handshakeAccepted response with
        | false => exact Handler.keeps_pure
        | true => exact .bind (Handler.keeps_perform hforward) fun _ => Handler.keeps_pure

theorem keeps_vsockUdsPathOf (h : Watchful D v) : (vsockUdsPathOf vmId).Keeps D v := by
  have hget : Inert D v (.vms (.get vmId)) := h.inert _ trivial
  refine keeps_withLock h (.bind (Handler.keeps_perform hget) fun entry => ?_)
  rcases entry with _ | _ | r <;> exact Handler.keeps_pure

theorem keeps_shellRequest {self : SessionHandler} (h : Watchful D v) :
    (shellRequest self).Keeps D v := by
  obtain ⟨vmId, writer, channelId⟩ := self
  cases vmId with
  | none => exact Handler.keeps_pure
  | some vmId =>
    cases channelId with
    | none => exact Handler.keeps_pure
    | some channelId =>
      refine .bind (keeps_vsockUdsPathOf h) fun path => ?_
      cases path with
      | none => exact Handler.keeps_pure
      | some path => exact keeps_openShell h path channelId

theorem keeps_sendToShell {self : SessionHandler} (h : Watchful D v) (bytes : Bytes) :
    (sendToShell self bytes).Keeps D v := by
  obtain ⟨vmId, writer, channelId⟩ := self
  cases writer with
  | none => exact Handler.keeps_pure
  | some stream =>
    have hsend : Inert D v (.send stream bytes) := h.inert _ trivial
    exact .bind (Handler.keeps_perform hsend) fun _ => Handler.keeps_pure

theorem keeps_callbackCode {lib : Libraries} {self : SessionHandler} (h : Watchful D v)
    (cb : Callback) : (callbackCode lib self cb).Keeps D v := by
  cases cb with
  | authPublickey user key => exact keeps_authPublickey h user key
  | channelOpenSession channel => exact Handler.keeps_pure
  | ptyRequest channel => exact Handler.keeps_pure
  | shellRequest channel => exact keeps_shellRequest h
  | data channel bytes => exact keeps_sendToShell h bytes
  | windowChangeRequest channel colWidth rowHeight => exact keeps_sendToShell h _

end Handlers

end Warlock.QuietHandlers
