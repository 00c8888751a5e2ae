import Warlock.QuietHandlers
import Warlock.ReservationDiscipline

/-!
# What the create guard does

A `create` has its placeholder taken down by the guard when its future is dropped, and by its own
clean-up when the set-up of the instance fails. What either has done so far is kept in a view: it
is all the same to both who took the entry out, but not who gives the subnet back.
-/

namespace Warlock.GuardDiscipline
open ApplicationState EffectPrograms HostNetworking Ledgers MachineIntegers QuietHandlers
  ReservationDiscipline ReservationProtocol Server ServerOperations SubnetAddressing VmConfiguration
  VmHandlers VmIdentifiers

/-- What a `create` has done about the placeholder that it has inserted. -/
structure Effort where
  record : Option (Uuid × VmResources) := none
  published : Bool := false
  /-- Its own clean-up has taken the entry out. -/
  removed : Bool := false
  /-- The guard has taken the entry out. -/
  discarded : Bool := false
  /-- The guard has found the pool locked. -/
  contended : Bool := false
  released : Bool := false
  done : List Resource := []

/-- What an operation takes down. -/
def target : Op → Option Resource
  | .command (.linkDel name) => some (.tap name)
  | .command (.deleteRule chain handle) => some (.rule chain handle)
  | .removeFile path => some (.rootfs path)
  | _ => none

def effortRequires : Op → Effort → Prop
  | .allocate, v => v.record = none
  | .vms (.discard _), v => v.removed = true ∨ v.contended = true ∨ v.released = true
  | _, _ => True

def effortAllows : (o : Op) → Reply o → Effort → Prop
  | .vms (.upgrade _), moved, _ => moved = true
  | .vms (.remove id), entry, v => ∀ r, v.record = some (id, r) → entry = some (.creating r)
  | .vms (.get id), entry, v => ∀ r, v.record = some (id, r) → v.published = false →
      v.discarded = false → v.released = false →
      entry = if v.removed then none else some (.creating r)
  | _, _, _ => True

def noteDone (v : Effort) (o : Op) : List Resource :=
  if v.record.isSome then (target o).toList ++ v.done else v.done

def noteEffort (v : Effort) : (o : Op) → Reply o → Effort
  | .vms (.reserve id r), .ok () => { record := some (id, r), contended := v.contended }
  | .vms (.upgrade _), true => { v with published := true }
  | .vms (.remove _), some _ => { v with removed := true }
  | .vms (.discard _), _ => { v with discarded := true }
  | .tryLock .pool, false => { v with contended := true }
  | .release _, _ => { v with released := v.record.isSome }
  | .command cmd, _ => { v with done := noteDone v (.command cmd) }
  | .removeFile path, _ => { v with done := noteDone v (.removeFile path) }
  | _, _ => v

def guarding (request : Request) : Discipline Reply Choice Effort where
  requires o v := (∃ body, request = .create body) → effortRequires o v
  allows o _ r v := effortAllows o r v
  note o _ r v := noteEffort v o r
  considers _ _ _ := True
  leave _ v := v

/-- How a guard that was not defused leaves things: the placeholder is still there, or the task's
own clean-up was cut off after it had taken the entry out, or the guard has cleared everything but
perhaps the subnet. -/
inductive Ending (v : Effort) (r : VmResources) : Prop
  | kept (hremoved : v.removed = false) (hdiscarded : v.discarded = false)
      (hcontended : v.contended = false) (hreleased : v.released = false)
  | cut (hremoved : v.removed = true) (hreleased : v.released = false)
  | cleared (hremoved : v.removed = false) (hdiscarded : v.discarded = true)
      (hdone : ∀ x ∈ resourcesOf r, x ∈ v.done) (hreleased : v.released = !v.contended)

def Ended (v : Effort) : Prop :=
  ∀ id r, v.record = some (id, r) → v.published = false → Ending v r

def guardEnds : Request → Outcome → Effort → Prop
  | .create _, .dropped, v => Ended v
  | .create _, .session _ _, _ => False
  | _, _, _ => True

variable {config : AppConfig} {lib : SshSession.Libraries} {request : Request} {v : Effort}
  {vmId : Uuid} {r : VmResources} {α : Type}

section Rules

theorem inert_guarding {o : Op} (hr : effortRequires o v) (hn : ∀ r, noteEffort v o r = v) :
    Inert (guarding request) v o := ⟨fun _ => hr, fun _ r _ => hn r⟩

theorem stays_guarding : (guarding request).Stays v := fun _ _ _ => rfl

theorem lockBlind_guarding : LockBlind (guarding request) where
  lock _ _ := inert_guarding trivial fun _ => rfl
  resume _ := inert_guarding trivial fun _ => rfl
  unlock _ _ := inert_guarding trivial fun _ => rfl
  stays _ := stays_guarding

theorem goesOn {x : Async α} {post : α → Effort → Prop} {exit : Effort → Prop}
    (h : x.Keeps (guarding request) v) (hp : ∀ a, post a v) (he : exit v) :
    x.Ensures (guarding request) post exit v :=
  h.mono (fun a _ hw => hw ▸ hp a) fun _ hw => hw.1 ▸ he

/-- Before the placeholder is in, nothing is noted of commands. -/
theorem inert_command (cmd : Command) : Inert (guarding request) {} (.command cmd) :=
  inert_guarding trivial fun _ => rfl

theorem safe_takeDown {cmd : Command} {x : Resource} {post : Bool → Effort → Prop}
    (hx : target (.command cmd) = some x) (hrecord : v.record.isSome = true)
    (hp : ∀ done, post done { v with done := x :: v.done }) :
    (runCmd cmd).Safe (guarding request) post v := by
  refine Script.safe_bind.mpr ⟨fun _ => trivial, fun _ out _ => ?_⟩
  have hnote : noteEffort v (.command cmd) out = { v with done := x :: v.done } := by
    simp [noteEffort, noteDone, hrecord, hx]
  exact (congrArg _ hnote).mpr (hp out.isSome)

theorem safe_deleteTap {name : String} {post : Unit → Effort → Prop}
    (hrecord : v.record.isSome = true) (hp : post () { v with done := .tap name :: v.done }) :
    (deleteTap name).Safe (guarding request) post v :=
  Script.safe_bind.mpr (safe_takeDown rfl hrecord fun _ => hp)

theorem safe_removeNatRules {handles : NatHandles} {post : Unit → Effort → Prop}
    (hrecord : v.record.isSome = true)
    (hp : post () { v with done := [.rule .filter handles.filter,
      .rule .postrouting handles.postrouting] ++ v.done }) :
    (removeNatRules handles).Safe (guarding request) post v := by
  refine Script.safe_bind.mpr (safe_takeDown rfl hrecord fun _ => ?_)
  exact Script.safe_bind.mpr (safe_takeDown rfl hrecord fun _ => hp)

theorem safe_removeFile {path : String} {post : Unit → Effort → Prop}
    (hrecord : v.record.isSome = true) (hp : post () { v with done := .rootfs path :: v.done }) :
    (do let _ ← Code.perform (.removeFile path) : Code Unit).Safe (guarding request) post v := by
  refine Script.safe_bind.mpr ⟨fun _ => trivial, fun _ removed _ => ?_⟩
  have hnote : noteEffort v (.removeFile path) removed =
      { v with done := .rootfs path :: v.done } := by
    simp [noteEffort, noteDone, hrecord, target]
  exact (congrArg _ hnote).mpr hp

end Rules

section Guard

/-- The placeholder is in the map, and nothing has been done about it. -/
abbrev placed (vmId : Uuid) (r : VmResources) : Effort := { record := some (vmId, r) }

/-- The guard takes everything down that the record names, but for a subnet whose pool is locked. -/
theorem safe_tryFreeResources {post : Unit → Effort → Prop} (h : RecordFits config vmId r)
    (hp : ∀ contended done, (∀ x ∈ resourcesOf r, x ∈ done) →
      post () { placed vmId r with contended := contended, released := !contended, done := done }) :
    (tryFreeResources r).Safe (guarding request) post (placed vmId r) := by
  obtain ⟨i, _, hindex, htap, _⟩ := h.subnet
  obtain ⟨handles, hhandles⟩ := h.handles
  have hall : ∀ x ∈ resourcesOf r, x ∈ [Resource.rootfs (rootfsPath config.jailer.vmImagesDir vmId),
      .rule .filter handles.filter, .rule .postrouting handles.postrouting, .tap (tapName i)] := by
    simp [resourcesOf, h.rootfs, htap, hhandles]
  simp only [tryFreeResources, htap, hhandles, hindex, h.rootfs]
  refine Script.safe_bind.mpr (safe_deleteTap rfl ?_)
  refine Script.safe_bind.mpr (safe_removeNatRules rfl ?_)
  refine Script.safe_bind.mpr (Script.safe_bind.mpr ⟨fun _ => trivial, fun _ acquired _ => ?_⟩)
  cases acquired with
  | false => exact safe_removeFile rfl (hp true _ hall)
  | true =>
    refine Script.safe_bind.mpr ⟨fun _ => trivial, fun _ _ _ => ⟨fun _ => trivial, fun _ _ _ => ?_⟩⟩
    exact safe_removeFile rfl (hp false _ hall)

/-- Taking the entry out and unlocking the map. -/
theorem safe_finish {post : Unit → Effort → Prop}
    (hv : v.removed = true ∨ v.contended = true ∨ v.released = true)
    (hp : post () { v with discarded := true }) : (do
      Code.perform (.vms (.discard vmId))
      Code.perform (.unlock .registry) : Code Unit).Safe (guarding request) post v :=
  ⟨fun _ => hv, fun _ _ _ => ⟨fun _ => trivial, fun _ _ _ => hp⟩⟩

theorem safe_createGuardDrop (h : RecordFits config vmId r) :
    (createGuardDrop vmId).Safe (guarding request) (fun _ => Ended) (placed vmId r) := by
  refine Script.safe_bind.mpr ⟨fun _ => trivial, fun _ acquired _ => ?_⟩
  have hrecord {id r'} (he : some (vmId, r) = some (id, r')) : r' = r :=
    (Prod.mk.inj (Option.some.inj he)).2.symm
  cases acquired with
  | false => exact fun _ _ _ _ => .kept rfl rfl rfl rfl
  | true =>
    refine Script.safe_bind.mpr ⟨fun _ => trivial, fun _ entry ha => ?_⟩
    obtain rfl : entry = some (.creating r) := ha r rfl rfl rfl rfl
    refine Script.safe_bind.mpr (safe_tryFreeResources h fun contended done hdone => ?_)
    refine safe_finish (by cases contended <;> simp) fun id r' he _ => ?_
    obtain rfl := hrecord he
    exact .cleared rfl rfl hdone rfl

/-- The task's own clean-up has taken the entry out, and has not given the subnet back yet. -/
structure Cut (vmId : Uuid) (r : VmResources) (v : Effort) : Prop where
  record : v.record = some (vmId, r)
  published : v.published = false
  removed : v.removed = true
  discarded : v.discarded = false
  released : v.released = false

/-- The guard finds nothing any more. -/
theorem safe_createGuardDrop_cut (h : Cut vmId r v) :
    (createGuardDrop vmId).Safe (guarding request) (fun _ => Ended) v := by
  have hended (w : Effort) (hremoved : w.removed = true) (hreleased : w.released = false) :
      Ended w := fun _ _ _ _ => .cut hremoved hreleased
  refine Script.safe_bind.mpr ⟨fun _ => trivial, fun _ acquired _ => ?_⟩
  cases acquired with
  | false => exact hended v h.removed h.released
  | true =>
    refine Script.safe_bind.mpr ⟨fun _ => trivial, fun _ entry ha => ?_⟩
    have hnone : entry = if v.removed = true then none else some (.creating r) :=
      ha r h.record h.published h.discarded h.released
    rw [if_pos h.removed] at hnone
    subst hnone
    exact safe_finish (.inl h.removed) (hended _ h.removed h.released)

end Guard

section Handlers

theorem ensures_releaseSubnet {i : U16} {post : Unit → Effort → Prop} {exit : Effort → Prop}
    (hp : post () { v with released := v.record.isSome }) (he : exit v) :
    (releaseSubnet i).Ensures (guarding request) post exit v := by
  have hrelease : (Code.perform (.release i)).Safe (guarding request) post v :=
    ⟨fun _ => trivial, fun _ _ _ => hp⟩
  exact ensures_withLock lockBlind_guarding (Handler.ensures_inline hrelease) fun _ => he

/-- While the placeholder is the task's, the guard has something to do. -/
def Guarded (vmId : Uuid) (r : VmResources) (v : Effort) : Prop :=
  v = placed vmId r ∨ Cut vmId r v

theorem Guarded.drop (hfits : RecordFits config vmId r) (h : Guarded vmId r v) :
    (createGuardDrop vmId).Safe (guarding request) (fun _ => Ended) v := by
  rcases h with rfl | h
  · exact safe_createGuardDrop hfits
  · exact safe_createGuardDrop_cut h

theorem ensures_freeResources (hfits : RecordFits config vmId r) (h : Cut vmId r v) :
    (freeResources r).Ensures (guarding request) (fun _ _ => True) (Guarded vmId r) v := by
  obtain ⟨i, _, hindex, htap, _⟩ := hfits.subnet
  obtain ⟨handles, hhandles⟩ := hfits.handles
  have hrecord : v.record.isSome = true := by rw [h.record]; rfl
  have hremoved {w : Effort} : (cleanupRootfsCopy (rootfsPath config.jailer.vmImagesDir vmId)).Safe
      (guarding request) (fun _ _ => True) w := ⟨fun _ => trivial, fun _ _ _ => trivial⟩
  simp only [freeResources, htap, hhandles, hindex, hfits.rootfs]
  refine Handler.Ensures.bind (Handler.ensures_inline (safe_deleteTap hrecord ?_))
  refine Handler.Ensures.bind (Handler.ensures_inline (safe_removeNatRules hrecord ?_))
  refine Handler.Ensures.bind (ensures_releaseSubnet ?_ (.inr ?_))
  · exact Handler.ensures_inline hremoved
  · exact ⟨h.record, h.published, h.removed, h.discarded, h.released⟩

theorem ensures_cleanupPlaceholder (hfits : RecordFits config vmId r) :
    (cleanupPlaceholder vmId).Ensures (guarding request) (fun _ _ => True) (Guarded vmId r)
      (placed vmId r) := by
  refine ensures_withLock lockBlind_guarding ?_ fun _ => .inl rfl
  refine Handler.Ensures.bind (ensures_inSection (.remove vmId) (fun _ => trivial)
    fun _ entry ha => ?_)
  obtain rfl : entry = some (.creating r) := ha r rfl
  exact ensures_freeResources hfits ⟨rfl, rfl, rfl, rfl, rfl⟩

theorem ensures_upgradePlaceholder :
    (upgradePlaceholder vmId).Ensures (guarding request) (fun _ w => w.published = true)
      (Guarded vmId r) (placed vmId r) := by
  have hdrop : (Code.perform (.dropInstance vmId)).Safe (guarding request)
      (fun _ => Guarded vmId r) (placed vmId r) := ⟨fun _ => trivial, fun _ _ _ => .inl rfl⟩
  refine Handler.Ensures.guarded (ensures_withLock lockBlind_guarding ?_ fun _ => hdrop)
  refine ensures_inSection (.upgrade vmId) (fun _ => trivial) fun _ moved ha => ?_
  obtain rfl : moved = true := ha
  rfl

/-- The part of `create` under the guard publishes the VM, or cleans up after itself. -/
theorem ensures_launch {vcpus : U8} {memoryMb : U32} {kernel vmRootfs path : String}
    {subnet : SubnetAllocation} (hfits : RecordFits config vmId r) :
    (launch config vmId vcpus memoryMb kernel vmRootfs subnet path).Ensures (guarding request)
      (fun launched w => launched.isSome = true → w.published = true) (Guarded vmId r)
      (placed vmId r) := by
  refine Handler.Ensures.bind (goesOn (keeps_setupInstance stays_guarding
    (inert_guarding trivial fun _ => rfl) (fun _ _ _ => inert_guarding trivial fun _ => rfl)
    (fun _ _ => inert_guarding trivial fun _ => rfl) (inert_guarding trivial fun _ => rfl))
    (fun desc => ?_) (.inl rfl))
  cases desc with
  | none =>
    exact Handler.Ensures.bind ((ensures_cleanupPlaceholder hfits).mono (fun _ _ _ =>
      Handler.ensures_pure (by simp)) fun _ hw => hw)
  | some desc =>
    exact Handler.Ensures.bind (ensures_upgradePlaceholder.mono (fun _ _ hw =>
      Handler.ensures_pure fun _ => hw) fun _ hw => hw)

theorem ensures_reservePlaceholder {subnet : SubnetAllocation} {natHandles : NatHandles} :
    (reservePlaceholder vmId r subnet natHandles).Ensures (guarding request)
      (fun reserved w => reserved = .ok () ∧ w = placed vmId r ∨
        (∃ e, reserved = .error e) ∧ w = {}) (fun w => w = {}) {} := by
  refine ensures_withLock lockBlind_guarding ?_ fun _ => rfl
  refine Handler.Ensures.bind (ensures_inSection (.reserve vmId r) (fun _ => trivial)
    fun _ reserved _ => ?_)
  cases reserved with
  | ok _ => exact Handler.ensures_pure (.inl ⟨rfl, rfl⟩)
  | error e =>
    refine Handler.Ensures.bind (goesOn (Handler.keeps_inline (steady_removeNatRules
      fun _ _ => (inert_command _).upholds)) (fun _ => ?_) rfl)
    refine Handler.Ensures.bind (goesOn (Handler.keeps_inline (steady_deleteTap
      (inert_command _).upholds)) (fun _ => ?_) rfl)
    refine Handler.Ensures.bind (ensures_releaseSubnet ?_ rfl)
    exact Handler.ensures_pure (.inr ⟨⟨e, rfl⟩, rfl⟩)

theorem keeps_reportCreated {vcpus : U8} {memoryMb : U32} :
    (reportCreated config vmId vcpus memoryMb).Keeps (guarding request) v := by
  have hregister : Inert (guarding request) v (.registerVm vmId vcpus memoryMb) :=
    inert_guarding trivial fun _ => rfl
  unfold reportCreated
  split
  · exact .bind (Handler.keeps_await hregister stays_guarding) fun _ => Handler.keeps_pure
  · exact Handler.keeps_pure

/-- However a `create` is left after it has inserted its placeholder, its guard has ended. -/
theorem ensures_create (body : Option CreateVmRequest) :
    (create config body).Ensures (guarding request) (fun _ _ => True) Ended {} := by
  have hfail {a : Answer} {w : Effort} : (pure a : Async Answer).Ensures (guarding request)
      (fun _ _ => True) Ended w := Handler.ensures_pure trivial
  have hbefore : Ended {} := by
    intro id r he
    simp at he
  unfold create
  cases validateVmConfig (body.bind (·.vcpus)) (body.bind (·.memoryMb)) with
  | error e => exact hfail
  | ok size =>
  obtain ⟨vcpus, memoryMb⟩ := size
  refine Handler.Ensures.bind (Handler.ensures_perform (fun _ => trivial) fun _ vmId _ => ?_)
  refine Handler.Ensures.bind (goesOn (Handler.keeps_offload (steady_copyRootfs fun cmd _ =>
    (inert_command cmd).upholds) stays_guarding) (fun copied => ?_) hbefore)
  rcases copied with _ | _ | _
  · exact hfail
  · exact hfail
  have hallocate : Inert (guarding request) {} .allocate :=
    inert_guarding rfl fun r => by cases r <;> rfl
  refine Handler.Ensures.bind (ensures_withLock lockBlind_guarding
    (goesOn (Handler.keeps_perform hallocate) (fun subnet => ?_) hbefore) fun _ => hbefore)
  cases subnet with
  | none => exact hfail
  | some subnet =>
  refine Handler.Ensures.bind (goesOn (Handler.keeps_offload (steady_setupNetworking
    (fun cmd _ => (inert_command cmd).upholds) fun cmd _ => (inert_command cmd).upholds)
    stays_guarding) (fun result => ?_) hbefore)
  rcases result with _ | _ | natHandles
  · have hdrop : Inert (guarding request) {} .dropLocals := inert_guarding trivial fun _ => rfl
    exact Handler.Ensures.bind (goesOn (Handler.keeps_perform hdrop) (fun _ => hfail) hbefore)
  · exact Handler.Ensures.bind (ensures_releaseSubnet hfail hbefore)
  have hfits : RecordFits config vmId
      (placeholder config body vmId vcpus memoryMb subnet natHandles) := recordFits_placeholder
  refine Handler.Ensures.bind (ensures_reservePlaceholder.mono (fun reserved w hw => ?_)
    fun w hw => hw ▸ hbefore)
  rcases hw with ⟨rfl, rfl⟩ | ⟨⟨e, rfl⟩, rfl⟩
  · refine Handler.Ensures.bind (Handler.Ensures.guarded ((ensures_launch hfits).mono
      (fun launched w hw => ?_) fun w hw => hw.drop hfits))
    rcases launched with _ | ⟨desc, moved⟩
    · exact hfail
    · have hended : Ended w := by
        intro id r he hpublished
        simp [hw rfl] at hpublished
      have hdrop : Inert (guarding request) w (.dropInstance vmId) :=
        inert_guarding trivial fun _ => rfl
      cases moved with
      | true => exact Handler.Ensures.bind (goesOn keeps_reportCreated (fun _ => hfail) hended)
      | false =>
        exact Handler.Ensures.bind (goesOn (keeps_reportCreated.owning hdrop.steady)
          (fun _ => hfail) hended)
  · exact hfail

/-- Every handler keeps the discipline; only that of a `create` asks for anything. -/
theorem safe_guarding (config : AppConfig) (request : Request) :
    (handlerOf config request).Safe (guarding request) (guardEnds request) {} := by
  have hother (hr : ∀ body, request ≠ .create body) :
      (handlerOf config request).Safe (guarding request) (guardEnds request) {} := by
    apply Program.safe_of_free
    · rintro _ _ ⟨body, rfl⟩
      exact absurd rfl (hr body)
    · intro outcome v
      cases request <;> first | trivial | exact absurd rfl (hr _)
  cases request with
  | create body =>
    exact ensures_create body _ _ _ (fun _ hw => hw) fun _ _ _ => trivial
  | _ => exact hother (by simp)

end Handlers

end Warlock.GuardDiscipline
