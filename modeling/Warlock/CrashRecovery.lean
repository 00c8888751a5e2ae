import Warlock.OrphanCleanup
import Warlock.QuietHandlers
import Warlock.TaskViews

/-!
# Recovery from a crash

Whatever the handlers of a run make on the host carries a name that the next startup sweep
recognises: a tap is named after its slot, and a rootfs copy, a workspace and a log after their
VM. Hence nothing a killed server has made survives the start of the next one.
-/

namespace Warlock.CrashRecovery
open ApplicationState EffectPrograms HostNetworking MachineIntegers OrphanCleanup QuietHandlers
  ReservationProtocol RustText Server ServerInvariant ServerOperations SshSession SubnetAddressing
  TaskViews TransitionSystems VmConfiguration VmHandlers VmIdentifiers

/-- What is made gets a name that the sweep knows. -/
def WellNamed (config : AppConfig) : Op → Prop
  | .command (.tuntapAdd name) => ∃ i : U16, name = tapName i
  | .command (.cp _ _ dest) => ∃ id, dest = rootfsPath config.jailer.vmImagesDir id
  | .build id options => options.id = display id ∧ options.stderr = jailerLogPath id
  | _ => True

def naming (config : AppConfig) (_ : Request) : Discipline Reply Choice Unit where
  requires o _ := WellNamed config o
  allows _ _ _ _ := True
  note _ _ _ v := v
  considers _ _ _ := True
  leave _ v := v

section Naming

variable {config : AppConfig} {lib : Libraries} {request : Request} {α : Type}

theorem inert_naming {o : Op} (h : WellNamed config o) : Inert (naming config request) () o :=
  ⟨h, fun _ _ _ => rfl⟩

theorem calm_naming : Calm (naming config request) () where
  inert o ho := by
    apply inert_naming
    cases o with
    | command cmd => cases cmd <;> first | exact ho.elim | trivial
    | build id options => exact ho.elim
    | _ => trivial
  stays _ _ _ := rfl

/-- The names of the taps are those of their slots. -/
theorem upholds_onTap {i : U16} (cmd : Command) (h : onTap (tapName i) cmd) :
    Upholds (naming config request) (· = ()) (.command cmd) := by
  apply Inert.upholds
  apply inert_naming
  cases cmd with
  | tuntapAdd name => exact ⟨i, h⟩
  | cp => exact h.elim
  | _ => trivial

theorem upholds_onFile {id : Uuid} (cmd : Command)
    (h : onFile (rootfsPath config.jailer.vmImagesDir id) cmd) :
    Upholds (naming config request) (· = ()) (.command cmd) := by
  apply Inert.upholds
  apply inert_naming
  cases cmd with
  | cp strategy source dest => exact ⟨id, h⟩
  | tuntapAdd => exact h.elim
  | _ => trivial

theorem keeps_launch {vmId : Uuid} {vcpus : U8} {memoryMb : U32} {kernel vmRootfs path : String}
    {subnet : SubnetAllocation} :
    (launch config vmId vcpus memoryMb kernel vmRootfs subnet path).Keeps (naming config request)
      () := by
  refine .bind (keeps_setupFirecrackerInstance calm_naming.watchful (fun options hid hstderr =>
    inert_naming ⟨hid, hstderr⟩) (fun _ _ => inert_naming trivial) (inert_naming trivial))
      fun desc => ?_
  cases desc with
  | none => exact .bind (keeps_cleanupPlaceholder calm_naming) fun _ => Handler.keeps_pure
  | some desc =>
    have hupgrade : Inert (naming config request) () (.vms (.upgrade vmId)) := inert_naming trivial
    have hdrop : Inert (naming config request) () (.dropInstance vmId) := inert_naming trivial
    refine .bind (Handler.Keeps.guarded ?_ hdrop.steady) fun moved => Handler.keeps_pure
    exact keeps_withLock calm_naming.watchful (Handler.keeps_perform hupgrade)

theorem keeps_reportCreated {vmId : Uuid} {vcpus : U8} {memoryMb : U32} :
    (reportCreated config vmId vcpus memoryMb).Keeps (naming config request) () := by
  have hregister : Inert (naming config request) () (.registerVm vmId vcpus memoryMb) :=
    inert_naming trivial
  unfold reportCreated
  split
  · exact .bind (Handler.keeps_await hregister calm_naming.stays) fun _ => Handler.keeps_pure
  · exact Handler.keeps_pure

theorem keeps_create (body : Option CreateVmRequest) :
    (create config body).Keeps (naming config request) () := by
  unfold create
  cases validateVmConfig (body.bind (·.vcpus)) (body.bind (·.memoryMb)) with
  | error e => exact Handler.keeps_pure
  | ok size =>
    obtain ⟨vcpus, memoryMb⟩ := size
    have hdraw : Inert (naming config request) () .newV4 := inert_naming trivial
    refine .bind (Handler.keeps_perform hdraw) fun vmId => ?_
    refine .bind (Handler.keeps_offload (steady_copyRootfs upholds_onFile) calm_naming.stays)
      fun copied => ?_
    rcases copied with _ | _ | _
    · exact Handler.keeps_pure
    · exact Handler.keeps_pure
    have hallocate : Inert (naming config request) () .allocate := inert_naming trivial
    refine .bind (keeps_withLock calm_naming.watchful (Handler.keeps_perform hallocate)) fun subnet => ?_
    cases subnet with
    | none => exact Handler.keeps_pure
    | some subnet =>
    refine .bind (Handler.keeps_offload (steady_setupNetworking ?_ calm_naming.rules)
      calm_naming.stays) fun handles => ?_
    · rw [subnet.tapName_eq]
      exact upholds_onTap
    rcases handles with _ | _ | handles
    · have hdrop : Inert (naming config request) () .dropLocals := inert_naming trivial
      exact .bind (Handler.keeps_perform hdrop) fun _ => Handler.keeps_pure
    · exact .bind (keeps_releaseSubnet calm_naming) fun _ => Handler.keeps_pure
    refine .bind (keeps_reservePlaceholder calm_naming) fun reserved => ?_
    cases reserved with
    | error e => exact Handler.keeps_pure
    | ok _ =>
    refine .bind (Handler.Keeps.guarded keeps_launch
      (steady_createGuardDrop calm_naming (inert_naming trivial))) fun launched => ?_
    rcases launched with _ | ⟨desc, moved⟩
    · exact Handler.keeps_pure
    have hdrop : Inert (naming config request) () (.dropInstance vmId) := inert_naming trivial
    cases moved with
    | true => exact .bind keeps_reportCreated fun _ => Handler.keeps_pure
    | false =>
      exact .bind (Handler.Keeps.owning keeps_reportCreated hdrop.steady) fun _ =>
        Handler.keeps_pure

theorem keeps_delete (id : Uuid) : (delete config id).Keeps (naming config request) () := by
  have htake : Inert (naming config request) () (.vms (.take id)) := inert_naming trivial
  have hderegister : Inert (naming config request) () (.deregisterVm id) := inert_naming trivial
  refine keeps_withLock calm_naming.watchful (.bind (Handler.keeps_perform htake) fun taken => ?_)
  cases taken with
  | error e => exact Handler.keeps_pure
  | ok r =>
    refine .bind (calm_naming.stopInstance) fun _ => ?_
    refine .bind (keeps_freeResources calm_naming) fun _ => ?_
    split
    · exact .bind (Handler.keeps_await hderegister calm_naming.stays) fun _ => Handler.keeps_pure
    · exact Handler.keeps_pure

theorem safe_handlerOf (r : Request) :
    (handlerOf config r).Safe (naming config request) (fun _ _ => True) () := by
  have hanswering {x : Async Answer} (h : x.Keeps (naming config request) ()) :
      (answering x).Safe (naming config request) (fun _ _ => True) () :=
    safe_answering (h.mono (fun _ _ _ => trivial) fun _ _ => trivial)
  cases r with
  | create body => exact hanswering (keeps_create body)
  | delete id => exact hanswering (keeps_delete id)
  | get id => exact hanswering (keeps_get calm_naming.watchful id)
  | list => exact hanswering (keeps_list calm_naming.watchful)
  | ready => exact hanswering (keeps_ready calm_naming.watchful)
  | session => trivial

theorem tracking_naming : TaskTracking config lib (fun _ _ => True) (naming config)
    (fun _ _ _ => True) (fun _ _ _ _ => True) where
  others _ _ _ _ _ _ _ _ := trivial
  request _ _ r _ := ⟨(), safe_handlerOf r, trivial⟩
  callback _ _ _ cb _ _ _ _ _ _ _ _ _ :=
    ⟨(), safe_calledBack ((keeps_callbackCode calm_naming.watchful cb).mono (fun _ _ _ => trivial)
      fun _ _ => trivial), trivial⟩
  run _ _ _ _ _ _ _ _ _ _ _ _ _ _ _ _ _ _ _ _ := ⟨trivial, trivial⟩
  leave _ _ _ _ _ _ _ _ _ _ _ _ _ _ _ _ := ⟨trivial, trivial⟩

variable {past : History} {s : State} {n : ℕ} {t : HandlerTask} {o : Op}

theorem wellNamed_of_next (h : (server config lib).Run past s) (hn : s.tasks[n]? = some t)
    (ho : t.nextOp = some o) : WellNamed config o := by
  have hm : System.Meets (fun (_ : State) (_ : Event) => True) past := fun _ _ => trivial
  obtain ⟨_, hsafe, _⟩ := tracking_naming.view_of_run h hm hn
  exact requires_of_safe hsafe ho

end Naming

/-- What a killed server may leave on its host. -/
inductive Artefact
  | tap (name : String)
  | rule (chain : Chain) (handle : U64)
  | rootfs (path : String)
  | workspace (id : String)
  | log (path : String)

/-- What an operation may make. -/
def makes (c : Choice) : Op → List Artefact
  | .command (.tuntapAdd name) => [.tap name]
  | .command (.addPostroutingRule _ _) => [.rule .postrouting c.handle]
  | .command (.addFilterRule _ _) => [.rule .filter c.handle]
  | .command (.cp _ _ dest) => [.rootfs dest]
  | .build _ options => [.workspace options.id, .log options.stderr]
  | _ => []

/-- Made in a run that was killed in state `s`. A command that was under way then has ended in
its own time. -/
def Made (past : History) (s : State) (a : Artefact) : Prop :=
  ∃ (b : State) (n : ℕ) (c : Choice) (t : HandlerTask) (o : Op),
    ((b, Event.run n c) ∈ past ∨ b = s) ∧ b.tasks[n]? = some t ∧ t.nextOp = some o ∧ a ∈ makes c o

/-- The artefact is on the host. -/
def Found (vmImagesDir : String) (m : Machine) : Artefact → Prop
  | .tap name => ∃ l ∈ m.links, l.name = name.toList
  | .rule chain handle => (chain, handle) ∈ m.rules
  | .rootfs path => ∃ file ∈ m.images, path = joinPath vmImagesDir (String.ofList file)
  | .workspace id => ∃ e ∈ m.workspaces, e.isDir = true ∧ e.name = id.toList
  | .log path => ∃ file ∈ m.tmp, path = "/tmp/" ++ String.ofList file

/-- The shapes of the artefacts of a server. -/
inductive Recognised (vmImagesDir : String) : Artefact → Prop
  | tap (i : U16) : Recognised vmImagesDir (.tap (tapName i))
  | rule (chain : Chain) (handle : U64) : Recognised vmImagesDir (.rule chain handle)
  | rootfs (id : Uuid) : Recognised vmImagesDir (.rootfs (rootfsPath vmImagesDir id))
  | workspace (id : Uuid) : Recognised vmImagesDir (.workspace (display id))
  | log (id : Uuid) : Recognised vmImagesDir (.log (jailerLogPath id))

variable {config : AppConfig} {lib : Libraries} {past : History} {s : State} {a : Artefact}
  {o : Outcomes} {m : Machine} {vmImagesDir : String}

theorem recognised_of_makes {c : Choice} {o : Op} (h : WellNamed config o) (ha : a ∈ makes c o) :
    Recognised config.jailer.vmImagesDir a := by
  cases o with
  | command cmd =>
    cases cmd with
    | tuntapAdd name =>
      obtain ⟨i, rfl⟩ := h
      obtain rfl := List.mem_singleton.mp ha
      exact .tap i
    | cp strategy source dest =>
      obtain ⟨id, rfl⟩ := h
      obtain rfl := List.mem_singleton.mp ha
      exact .rootfs id
    | addPostroutingRule guestIp iface =>
      obtain rfl := List.mem_singleton.mp ha
      exact .rule _ _
    | addFilterRule tap iface =>
      obtain rfl := List.mem_singleton.mp ha
      exact .rule _ _
    | _ => simp [makes] at ha
  | build id options =>
    obtain ⟨hid, hstderr⟩ := h
    rcases List.mem_cons.mp ha with rfl | ha
    · rw [hid]
      exact .workspace id
    · obtain rfl := List.mem_singleton.mp ha
      rw [hstderr]
      exact .log id
  | _ => simp [makes] at ha

/-- Every artefact of a run has one of the shapes. -/
theorem recognised_of_made (h : (server config lib).Run past s) (ha : Made past s a) :
    Recognised config.jailer.vmImagesDir a := by
  obtain ⟨b, n, c, t, o, hb, hn, ho, ha⟩ := ha
  rcases hb with hb | rfl
  · obtain ⟨_, before, _, _, hbefore, _, _⟩ := System.Path.split h hb
    exact recognised_of_makes (wellNamed_of_next hbefore hn ho) ha
  · exact recognised_of_makes (wellNamed_of_next h hn ho) ha

theorem append_left_cancel {dir file file' : String} (h : dir ++ file = dir ++ file') :
    file = file' := by
  have h := congrArg String.toList h
  rw [String.toList_append, String.toList_append] at h
  exact String.toList_injective (List.append_cancel_left h)

theorem joinPath_injective {dir file file' : String} (h : joinPath dir file = joinPath dir file') :
    file = file' := by
  unfold joinPath at h
  split at h <;> exact append_left_cancel h

theorem logFile_eq {id : Uuid} {file : Text} (h : jailerLogPath id = "/tmp/" ++ String.ofList file) :
    file = "warlock-jailer-".toList ++ (display id).toList ++ ".log".toList := by
  have hsplit : "/tmp/warlock-jailer-".toList = "/tmp/".toList ++ "warlock-jailer-".toList := by simp
  have hfile : (String.ofList file).toList = file := String.toList_ofList
  have h := congrArg String.toList h
  unfold jailerLogPath at h
  rw [String.toList_append, String.toList_append, String.toList_append, hsplit,
    List.append_assoc, List.append_assoc] at h
  have htail := List.append_cancel_left h
  rw [hfile] at htail
  rw [← htail, List.append_assoc]

theorem not_found (hm : Swept m) (h : Recognised vmImagesDir a) : ¬ Found vmImagesDir m a := by
  intro hfound
  cases h with
  | tap i =>
    obtain ⟨l, hl, hname⟩ := hfound
    exact hm.links l hl i hname
  | rule chain handle =>
    have hrule : (chain, handle) ∈ m.rules := hfound
    simp [hm.rules] at hrule
  | rootfs id =>
    obtain ⟨file, hfile, hpath⟩ := hfound
    have hname : file = (display id).toList ++ ".ext4".toList := by
      have h := joinPath_injective hpath
      simpa using (congrArg String.toList h).symm
    have hne : (display id).toList ≠ [] := by
      intro he
      have hlen := length_display id
      simp [he] at hlen
    have hkept := hm.images file hfile
    rw [hname, isExt4_append hne] at hkept
    exact absurd hkept (by simp)
  | workspace id =>
    obtain ⟨e, he, hdir, _⟩ := hfound
    simp [hm.workspaces e he] at hdir
  | log id =>
    obtain ⟨file, hfile, hpath⟩ := hfound
    have hname := logFile_eq hpath
    have hkept := hm.tmp file hfile
    rw [hname, isJailerLog_append] at hkept
    exact absurd hkept (by simp)

/-- However and whenever a server is killed, the sweep of the next one removes all it has made,
and nothing on the host conflicts with a fresh pool and an empty map. -/
theorem crash_recovery (h : (server config lib).Run past s) (ht : Truthful o m) :
    (∀ a, Made past s a → ¬ Found config.jailer.vmImagesDir (cleanupOrphans o m).1 a) ∧
      ∀ a, Recognised vmImagesDir a → ¬ Found vmImagesDir (cleanupOrphans o m).1 a := by
  have hswept := swept_cleanupOrphans ht
  constructor
  · intro a ha
    exact not_found hswept (recognised_of_made h ha)
  · intro a ha
    exact not_found hswept ha

section Samples

/-- The listing of a table with one rule. -/
def sampleTable : Text :=
  "table ip firecracker \x7b\n\tchain filter \x7b\n\t\tiifname \"fc0\" accept\n\t\x7d\n\x7d\n".toList

/-- A host with the tap and the forwarding rule of slot 0. -/
def sampleMachine : Machine where
  processes := []
  workspaces := [⟨"1".toList, true⟩]
  images := ["1.ext4".toList]
  links := [⟨1, "lo".toList, "<LOOPBACK>".toList, by simp⟩, ⟨7, "fc0".toList, "<UP>".toList, by simp⟩]
  rules := [(.filter, 1)]
  tmp := ["warlock-jailer-1.log".toList]

def sampleOutcomes : Outcomes where
  signals := true
  readDir _ := true
  readEntry _ _ := true
  removes _ _ := true
  linkShow := some (linkOutput sampleMachine.links)
  linkDel _ := true
  listTable := some sampleTable
  flushTable := true

theorem crash_recovery_afterCreate : Found "/srv/images" sampleMachine (.tap (tapName 0)) ∧
    ¬ Found "/srv/images" (cleanupOrphans sampleOutcomes sampleMachine).1 (.tap (tapName 0)) := by
  have hrun : sampleServer.Run (sampleServer.historyOf sampleCreate)
      (sampleServer.endOf sampleCreate) := System.run_follow sampleCreate
  have ht : Truthful sampleOutcomes sampleMachine := by
    refine ⟨fun _ _ => ⟨rfl, rfl, rfl⟩, rfl, fun _ => rfl, ⟨sampleTable, rfl, fun _ => ?_⟩, rfl⟩
    exact ⟨"\t\tiifname \"fc0\" accept".toList, by decide, .inr (by decide)⟩
  exact ⟨⟨_, .tail _ (.head _), by decide⟩, (crash_recovery hrun ht).2 _ (.tap 0)⟩

end Samples

end Warlock.CrashRecovery
