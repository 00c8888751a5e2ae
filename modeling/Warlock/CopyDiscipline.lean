import Warlock.QuietHandlers
import Warlock.ReservationDiscipline
import Warlock.TaskViews

/-!
# Who has a rootfs copy in hand

The copy that a `create` makes stays in its hands until the VM runs, and comes into the hands of
the `delete` that takes the VM out. A `create` that answers an error has its copy in hand still if
and only if it had written one and had not inserted its placeholder, provided that removing the
file succeeds; one that is dropped under its guard has it as long as the placeholder is there.
This is shown for each handler on its own.
-/

namespace Warlock.CopyDiscipline
open ApplicationState EffectPrograms HostNetworking Ledgers MachineIntegers QuietHandlers
  ReservationDiscipline ReservationProtocol Server ServerOperations SshSession SubnetAddressing
  TaskViews VmConfiguration VmHandlers VmIdentifiers

/-- What a task has to do with rootfs copies. -/
structure Copying where
  id : Option Uuid := none
  /-- The VM whose copy the task has to remove. -/
  hand : Option Uuid := none
  wrote : Bool := false
  inserted : Bool := false
  /-- The entry has been taken out on the task's own behalf. -/
  removed : Bool := false
  /-- The VM runs, and its entry has the copy. -/
  passed : Bool := false

section Discipline

variable (config : AppConfig) (gentle : Prop)

def copyRequires : Op → Copying → Prop
  | .newV4, v | .vms (.take _), v => v.hand = none
  | .command (.cp _ _ dest), v =>
    v.inserted = false ∧ ∃ id, v.id = some id ∧ dest = rootfsPath config.jailer.vmImagesDir id
  | .removeFile path, v => ∃ id, v.hand = some id ∧ path = rootfsPath config.jailer.vmImagesDir id
  | .vms (.upgrade id), v => v.hand = some id
  | .vms (.discard _), v => v.hand = none ∨ v.removed = true
  | .dropLocals, v => v.id ≠ none ∧ v.inserted = false
  | _, _ => True

def copyAllows : (o : Op) → Choice → Reply o → Copying → Prop
  | .command _, c, out, _ => out.isSome = c.succeeds
  | .removeFile _, _, removed, _ => removed = true
  | .vms (.upgrade _), _, moved, _ => moved = true
  | .vms (.remove id), _, entry, _ => ∃ r, entry = some (.creating r) ∧ RecordFits config id r
  | .vms (.take id), _, .ok r, _ => RecordFits config id r
  | .vms (.get id), _, entry, v => v.id = some id → v.hand = some id → v.inserted = true →
      v.removed = true ∧ entry = none ∨
        v.removed = false ∧ ∃ r, entry = some (.creating r) ∧ RecordFits config id r
  | _, _, _, _ => True

def noteCopy (v : Copying) (c : Choice) : (o : Op) → Reply o → Copying
  | .newV4, id => { v with id := some id }
  | .command (.cp _ _ _), _ =>
    if c.succeeds || c.partly then { v with hand := v.id, wrote := true } else v
  | .removeFile _, true => { v with hand := none }
  | .vms (.reserve _ _), .ok () => { v with inserted := true }
  | .vms (.upgrade _), true => { v with hand := none, passed := true }
  | .vms (.remove _), some _ => { v with removed := true }
  | .vms (.discard _), () => { v with removed := true }
  | .vms (.take id), .ok _ => { v with hand := some id }
  | _, _ => v

/-- A `create` is dropped only once its placeholder is in, and while that has the copy; anybody
else only with empty hands. -/
structure MayLeave (v : Copying) : Prop where
  placed : v.id ≠ none → v.inserted = true
  hand : v.hand ≠ none → v.inserted = true ∧ v.removed = false

/-- In a `gentle` run nobody is dropped where a copy would be lost. -/
def copying (_ : Request) : Discipline Reply Choice Copying where
  requires := copyRequires config
  allows := copyAllows config
  note o c r v := noteCopy v c o r
  considers e _ v := gentle → e = .dropped → MayLeave v
  leave _ v := v

/-- What a `create` that has failed has in hand. -/
def leftover (v : Copying) : Option Uuid := if v.wrote && !v.inserted then v.id else none

/-- The copy is there as long as the placeholder has it. -/
def Resolved (v : Copying) : Prop := v.hand.isSome = (v.inserted && !v.removed && !v.passed)

def copyEnds : Request → Outcome → Copying → Prop
  | _, .dropped, v => gentle → Resolved v
  | .create _, .answered (.failed _), v => v.hand = leftover v
  | _, _, v => v.hand = none

theorem resolved_of_dropped {gentle : Prop} {request : Request} {v : Copying}
    (h : copyEnds gentle request .dropped v) (hgentle : gentle) : Resolved v := by
  cases request <;> exact h hgentle

theorem copyEnds_cases {gentle : Prop} {request : Request} {outcome : Outcome} {v : Copying}
    (h : copyEnds gentle request outcome v) :
    outcome = .dropped ∧ (gentle → Resolved v) ∨
      (∃ body error, request = .create body ∧ outcome = .answered (.failed error) ∧
        v.hand = leftover v) ∨ v.hand = none := by
  unfold copyEnds at h
  split at h
  · exact .inl ⟨rfl, h⟩
  · exact .inr (.inl ⟨_, _, rfl, rfl, h⟩)
  · exact .inr (.inr h)

end Discipline

variable {config : AppConfig} {gentle : Prop} {lib : Libraries} {request : Request} {v : Copying}
  {vmId : Uuid} {r : VmResources} {α : Type}

section Rules

theorem inert_copying {o : Op} (hr : copyRequires config o v) (hn : ∀ c r, noteCopy v c o r = v) :
    Inert (copying config gentle request) v o := ⟨hr, fun c r _ => hn c r⟩

theorem watchful_copying : Watchful (copying config gentle request) v where
  inert o ho := by
    cases o with
    | vms s => cases s <;> first | exact ho.elim | exact inert_copying trivial fun _ _ => rfl
    | _ => first | exact ho.elim | exact inert_copying trivial fun _ _ => rfl
  stays _ _ _ := rfl

theorem lockBlind_copying : LockBlind (copying config gentle request) where
  lock _ _ := watchful_copying.inert _ trivial
  resume _ := watchful_copying.inert _ trivial
  unlock _ _ := watchful_copying.inert _ trivial
  stays _ := watchful_copying.stays

theorem goesOn {x : Async α} {post : α → Copying → Prop} {exit : Copying → Prop}
    (h : x.Keeps (copying config gentle request) v) (hp : ∀ a, post a v)
    (he : (copying config gentle request).Considered v → exit v) :
    x.Ensures (copying config gentle request) post exit v := by
  refine h.mono (fun a _ hw => hw ▸ hp a) ?_
  rintro _ ⟨rfl, hc⟩
  exact he hc

/-- Where nobody may be dropped in a gentle run. -/
theorem resolved_of_considered (hc : (copying config gentle request).Considered v)
    (h : ¬ MayLeave v) : gentle → Resolved v := by
  obtain ⟨_, hc⟩ := hc
  exact fun hgentle => absurd (hc hgentle rfl) h

/-- Only `cp` has to do with the copy. -/
theorem upholds_command (cmd : Command)
    (hc : ∀ strategy source dest, cmd ≠ .cp strategy source dest) :
    Upholds (copying config gentle request) (· = v) (.command cmd) := by
  apply Inert.upholds
  cases cmd with
  | cp strategy source dest => exact absurd rfl (hc strategy source dest)
  | _ => exact inert_copying trivial fun _ _ => rfl

theorem upholds_onTap {name : String} (cmd : Command) (hc : onTap name cmd) :
    Upholds (copying config gentle request) (· = v) (.command cmd) :=
  upholds_command cmd (by rintro _ _ _ rfl; exact hc)

theorem upholds_onRules {ip : Ipv4Addr} {name : String} (cmd : Command) (hc : onRules ip name cmd) :
    Upholds (copying config gentle request) (· = v) (.command cmd) :=
  upholds_command cmd (by rintro _ _ _ rfl; exact hc)

theorem keeps_deleteTap {name : String} :
    (Handler.inline (deleteTap name) : Async Unit).Keeps (copying config gentle request) v :=
  Handler.keeps_inline (steady_deleteTap (upholds_command _ (by simp)))

theorem keeps_removeNatRules {handles : NatHandles} :
    (Handler.inline (removeNatRules handles) : Async Unit).Keeps (copying config gentle request)
      v :=
  Handler.keeps_inline (steady_removeNatRules fun _ _ => upholds_command _ (by simp))

theorem keeps_releaseSubnet {i : U16} : (releaseSubnet i).Keeps (copying config gentle request) v :=
  keeps_withLock watchful_copying (Handler.keeps_perform (inert_copying trivial fun _ _ => rfl))

theorem steady_tryReleaseSubnet {i : U16} :
    (tryReleaseSubnet i).Steady (copying config gentle request) (· = v) := by
  have hrelease : Inert (copying config gentle request) v (.release i) :=
    inert_copying trivial fun _ _ => rfl
  refine .bind (watchful_copying.inert (.tryLock .pool) trivial).steady fun acquired => ?_
  cases acquired with
  | false => trivial
  | true =>
    exact .bind hrelease.steady fun _ => (watchful_copying.inert (.unlock .pool) trivial).steady

end Rules

section Scripts

/-- The `create` has drawn its identifier, and its copy is in its hands once it is written. -/
structure Fresh (vmId : Uuid) (v : Copying) : Prop where
  id : v.id = some vmId
  hand : v.hand = if v.wrote then some vmId else none
  inserted : v.inserted = false
  removed : v.removed = false
  passed : v.passed = false

theorem upholds_onFile (cmd : Command)
    (hc : onFile (rootfsPath config.jailer.vmImagesDir vmId) cmd) :
    Upholds (copying config gentle request) (Fresh vmId) (.command cmd) := by
  intro w hw
  cases cmd with
  | cp strategy source dest =>
    refine ⟨⟨hw.inserted, vmId, hw.id, hc⟩, fun c r _ => ?_⟩
    change Fresh vmId (noteCopy w c (.command (.cp strategy source dest)) r)
    simp only [noteCopy]
    split
    · exact ⟨hw.id, by simp [hw.id], hw.inserted, hw.removed, hw.passed⟩
    · exact hw
  | chown => exact ⟨trivial, fun _ _ _ => hw⟩
  | _ => exact hc.elim

theorem safe_copyRootfs {strategy : CopyStrategy} {source : String} {uid gid : ℕ}
    (h : Fresh vmId v) :
    (copyRootfs strategy source (rootfsPath config.jailer.vmImagesDir vmId) uid gid).Safe
      (copying config gentle request)
      (fun copied w => Fresh vmId w ∧ (copied = true → w.wrote = true)) v := by
  have hcp : Upholds (copying config gentle request) (Fresh vmId)
      (.command (.cp strategy source (rootfsPath config.jailer.vmImagesDir vmId))) :=
    upholds_onFile _ rfl
  obtain ⟨hreq, hkeep⟩ := hcp v h
  refine Script.safe_bind.mpr (Script.safe_bind.mpr ⟨hreq, fun c out ha => ?_⟩)
  have hfresh := hkeep c out ha
  cases out with
  | none => exact ⟨hfresh, by simp⟩
  | some text =>
    have hsucceeds : c.succeeds = true := Eq.symm ha
    refine Script.safe_bind.mpr (Script.safe_bind.mpr ⟨trivial, fun _ owned _ => ?_⟩)
    cases owned with
    | none => exact ⟨hfresh, by simp⟩
    | some _ => exact ⟨hfresh, fun _ => by simp [copying, noteCopy, hsucceeds]⟩

theorem safe_removeFile {post : Unit → Copying → Prop} (h : v.hand = some vmId)
    (hp : post () { v with hand := none }) :
    (cleanupRootfsCopy (rootfsPath config.jailer.vmImagesDir vmId)).Safe
      (copying config gentle request) post v := by
  refine ⟨⟨vmId, h, rfl⟩, fun _ removed ha => ?_⟩
  obtain rfl : removed = true := ha
  exact hp

theorem Fresh.not_mayLeave (h : Fresh vmId v) : ¬ MayLeave v := by
  intro hleave
  have hinserted := hleave.placed (by simp [h.id])
  simp [h.inserted] at hinserted

/-- The placeholder is in, and the copy is still there. -/
structure Guarded (vmId : Uuid) (v : Copying) : Prop where
  id : v.id = some vmId
  hand : v.hand = some vmId
  inserted : v.inserted = true

/-- In a gentle run the placeholder is still there when the guard is dropped. -/
structure Leaving (gentle : Prop) (vmId : Uuid) (v : Copying) : Prop extends Guarded vmId v where
  placed : gentle → v.removed = false ∧ v.passed = false

theorem safe_tryFreeResources {post : Unit → Copying → Prop} (h : RecordFits config vmId r)
    (hhand : v.hand = some vmId) (hp : post () { v with hand := none }) :
    (tryFreeResources r).Safe (copying config gentle request) post v := by
  obtain ⟨i, _, hindex, htap, _⟩ := h.subnet
  obtain ⟨handles, hhandles⟩ := h.handles
  have hkept {s : Code Unit} (hs : s.Steady (copying config gentle request) (· = v))
      {f : Unit → Code Unit} (hf : (f ()).Safe (copying config gentle request) post v) :
      (s >>= f).Safe (copying config gentle request) post v :=
    Script.safe_bind.mpr ((hs.safe rfl).mono fun _ _ hw => hw ▸ hf)
  simp only [tryFreeResources, htap, hhandles, hindex, h.rootfs]
  refine hkept (steady_deleteTap (upholds_command _ (by simp))) ?_
  refine hkept (steady_removeNatRules fun _ _ => upholds_command _ (by simp)) ?_
  refine hkept (steady_tryReleaseSubnet) (safe_removeFile hhand hp)

theorem safe_createGuardDrop {post : Unit → Copying → Prop} (h : Leaving gentle vmId v)
    (hp : ∀ w, (gentle → Resolved w) → post () w) :
    (createGuardDrop vmId).Safe (copying config gentle request) post v := by
  have hfinish {w : Copying} (hw : w.hand = none ∨ w.removed = true)
      (hr : gentle → Resolved { w with removed := true }) : (do
      Code.perform (.vms (.discard vmId))
      Code.perform (.unlock .registry) : Code Unit).Safe (copying config gentle request) post w :=
    ⟨hw, fun _ _ _ => ⟨trivial, fun _ _ _ => hp _ hr⟩⟩
  refine Script.safe_bind.mpr ⟨trivial, fun _ acquired _ => ?_⟩
  cases acquired with
  | false =>
    refine hp v fun hgentle => ?_
    obtain ⟨hremoved, hpassed⟩ := h.placed hgentle
    simp [Resolved, h.hand, h.inserted, hremoved, hpassed]
  | true =>
    refine Script.safe_bind.mpr ⟨trivial, fun _ entry ha => ?_⟩
    rcases ha h.id h.hand h.inserted with ⟨hremoved, rfl⟩ | ⟨_, r, rfl, hfits⟩
    · refine hfinish (.inr hremoved) fun hgentle => ?_
      exact absurd ((h.placed hgentle).1.symm.trans hremoved) (by simp)
    · refine Script.safe_bind.mpr (safe_tryFreeResources hfits h.hand (hfinish (.inl rfl) ?_))
      exact fun _ => by simp [Resolved]

end Scripts

section Handlers

theorem ensures_freeResources {exit : Copying → Prop} (hfits : RecordFits config vmId r)
    (hhand : v.hand = some vmId) (he : (copying config gentle request).Considered v → exit v) :
    (freeResources r).Ensures (copying config gentle request)
      (fun _ w => w = { v with hand := none }) exit v := by
  obtain ⟨i, _, hindex, htap, _⟩ := hfits.subnet
  obtain ⟨handles, hhandles⟩ := hfits.handles
  simp only [freeResources, htap, hhandles, hindex, hfits.rootfs]
  refine Handler.Ensures.bind (goesOn keeps_deleteTap (fun _ => ?_) he)
  refine Handler.Ensures.bind (goesOn keeps_removeNatRules (fun _ => ?_) he)
  refine Handler.Ensures.bind (goesOn keeps_releaseSubnet (fun _ => ?_) he)
  exact Handler.ensures_inline (safe_removeFile hhand rfl)

/-- The `create` has nothing to do with the copy any more. -/
structure Parted (v : Copying) : Prop where
  hand : v.hand = none
  inserted : v.inserted = true
  settled : v.removed = true ∨ v.passed = true

theorem Parted.resolved (h : Parted v) : Resolved v := by
  rcases h.settled with hgone | hgone <;> simp [Resolved, h.hand, hgone]

theorem ensures_cleanupPlaceholder (h : Leaving gentle vmId v) :
    (cleanupPlaceholder vmId).Ensures (copying config gentle request) (fun _ => Parted)
      (Leaving gentle vmId) v := by
  refine ensures_withLock lockBlind_copying ?_ fun _ => h
  refine Handler.Ensures.bind (ensures_inSection (.remove vmId) trivial fun _ entry ha => ?_)
  obtain ⟨r, rfl, hfits⟩ := ha
  have hguarded : Guarded vmId { v with removed := true } := ⟨h.id, h.hand, h.inserted⟩
  have hexit (hc : (copying config gentle request).Considered { v with removed := true }) :
      Leaving gentle vmId { v with removed := true } := by
    refine ⟨hguarded, fun hgentle => ?_⟩
    obtain ⟨_, hc⟩ := hc
    have hremoved : true = false := ((hc hgentle rfl).hand (by simp [h.hand])).2
    simp at hremoved
  refine (ensures_freeResources hfits hguarded.hand hexit).mono ?_ fun _ hw => hw
  rintro _ _ rfl
  exact ⟨rfl, h.inserted, .inl rfl⟩

theorem ensures_upgradePlaceholder (h : Leaving gentle vmId v) :
    (upgradePlaceholder vmId).Ensures (copying config gentle request) (fun _ => Parted)
      (Leaving gentle vmId) v := by
  have hdrop : (Code.perform (.dropInstance vmId)).Safe (copying config gentle request)
      (fun _ => Leaving gentle vmId) v := ⟨trivial, fun _ _ _ => h⟩
  refine Handler.Ensures.guarded (ensures_withLock lockBlind_copying ?_ fun _ => hdrop)
  refine ensures_inSection (.upgrade vmId) h.hand fun _ moved ha => ?_
  obtain rfl : moved = true := ha
  exact ⟨rfl, h.inserted, .inr rfl⟩

/-- The part of `create` under the guard passes the copy on to the VM, or removes it. -/
theorem ensures_launch {vcpus : U8} {memoryMb : U32} {kernel vmRootfs path : String}
    {subnet : SubnetAllocation} (h : Leaving gentle vmId v) :
    (launch config vmId vcpus memoryMb kernel vmRootfs subnet path).Ensures
      (copying config gentle request) (fun _ => Parted) (Leaving gentle vmId) v := by
  refine Handler.Ensures.bind (goesOn (keeps_setupFirecrackerInstance watchful_copying
    (fun _ _ _ => inert_copying trivial fun _ _ => rfl)
    (fun _ _ => inert_copying trivial fun _ _ => rfl)
    (inert_copying trivial fun _ _ => rfl)) (fun desc => ?_) fun _ => h)
  cases desc with
  | none =>
    exact Handler.Ensures.bind ((ensures_cleanupPlaceholder h).mono (fun _ _ hw =>
      Handler.ensures_pure hw) fun _ hw => hw)
  | some desc =>
    exact Handler.Ensures.bind ((ensures_upgradePlaceholder h).mono (fun _ _ hw =>
      Handler.ensures_pure hw) fun _ hw => hw)

theorem ensures_reservePlaceholder {subnet : SubnetAllocation} {natHandles : NatHandles}
    (h : ¬ MayLeave v) : (reservePlaceholder vmId r subnet natHandles).Ensures
      (copying config gentle request)
      (fun reserved w => reserved = .ok () ∧ w = { v with inserted := true } ∨
        (∃ e, reserved = .error e) ∧ w = v) (fun w => gentle → Resolved w) v := by
  have hexit (hc : (copying config gentle request).Considered v) : gentle → Resolved v :=
    resolved_of_considered hc h
  refine ensures_withLock lockBlind_copying ?_ hexit
  refine Handler.Ensures.bind (ensures_inSection (.reserve vmId r) trivial fun _ reserved _ => ?_)
  cases reserved with
  | ok _ => exact Handler.ensures_pure (.inl ⟨rfl, rfl⟩)
  | error e =>
    refine Handler.Ensures.bind (goesOn keeps_removeNatRules (fun _ => ?_) hexit)
    refine Handler.Ensures.bind (goesOn keeps_deleteTap (fun _ => ?_) hexit)
    refine Handler.Ensures.bind (goesOn keeps_releaseSubnet (fun _ => ?_) hexit)
    exact Handler.ensures_pure (.inr ⟨⟨e, rfl⟩, rfl⟩)

theorem keeps_reportCreated {vcpus : U8} {memoryMb : U32} :
    (reportCreated config vmId vcpus memoryMb).Keeps (copying config gentle request) v := by
  have hregister : Inert (copying config gentle request) v (.registerVm vmId vcpus memoryMb) :=
    inert_copying trivial fun _ _ => rfl
  unfold reportCreated
  split
  · exact .bind (Handler.keeps_await hregister watchful_copying.stays) fun _ => Handler.keeps_pure
  · exact Handler.keeps_pure

theorem ensures_create (body : Option CreateVmRequest) :
    (create config body).Ensures (copying config gentle (.create body))
      (fun a => copyEnds gentle (.create body) (.answered a)) (fun w => gentle → Resolved w)
      {} := by
  have hanswer {a : Answer} {w : Copying} (hw : copyEnds gentle (.create body) (.answered a) w) :
      (pure a : Async Answer).Ensures (copying config gentle (.create body))
        (fun a => copyEnds gentle (.create body) (.answered a)) (fun w => gentle → Resolved w) w :=
    Handler.ensures_pure hw
  have hfresh {w : Copying} {vmId : Uuid} (hw : Fresh vmId w) : w.hand = leftover w := by
    simp [leftover, hw.hand, hw.inserted, hw.id]
  have hexit {w : Copying} {vmId : Uuid} (hw : Fresh vmId w)
      (hc : (copying config gentle (.create body)).Considered w) : gentle → Resolved w :=
    resolved_of_considered hc hw.not_mayLeave
  unfold create
  cases validateVmConfig (body.bind (·.vcpus)) (body.bind (·.memoryMb)) with
  | error e => exact hanswer rfl
  | ok size =>
  obtain ⟨vcpus, memoryMb⟩ := size
  refine Handler.Ensures.bind (Handler.ensures_perform rfl fun _ vmId _ => ?_)
  have hdrawn : Fresh vmId { id := some vmId } := ⟨rfl, rfl, rfl, rfl, rfl⟩
  refine Handler.Ensures.bind (Handler.ensures_offload_within
    ((safe_copyRootfs hdrawn).mono fun copied w hw => ?_) (steady_copyRootfs upholds_onFile) hdrawn
    (fun _ _ hw => hw) (fun w hw => hanswer (hfresh hw)) fun u _ hu hc _ hgentle => ?_)
  rotate_left
  · obtain ⟨_, hc⟩ := hc
    exact absurd (hc hgentle rfl) hu.not_mayLeave
  obtain ⟨hw, hwrote⟩ := hw
  cases copied with
  | false => exact hanswer (hfresh hw)
  | true =>
  have hallocate : Inert (copying config gentle (.create body)) w .allocate :=
    inert_copying trivial fun _ _ => rfl
  refine Handler.Ensures.bind (goesOn (keeps_withLock watchful_copying
    (Handler.keeps_perform hallocate)) (fun subnet => ?_) (hexit hw))
  cases subnet with
  | none => exact hanswer (hfresh hw)
  | some subnet =>
  refine Handler.Ensures.bind (goesOn (Handler.keeps_offload (steady_setupNetworking
    upholds_onTap upholds_onRules) watchful_copying.stays) (fun result => ?_) (hexit hw))
  rcases result with _ | _ | natHandles
  · have hdrop : Inert (copying config gentle (.create body)) w .dropLocals :=
      inert_copying ⟨by simp [hw.id], hw.inserted⟩ fun _ _ => rfl
    exact Handler.Ensures.bind (goesOn (Handler.keeps_perform hdrop)
      (fun _ => hanswer (hfresh hw)) (hexit hw))
  · exact Handler.Ensures.bind (goesOn keeps_releaseSubnet (fun _ => hanswer (hfresh hw))
      (hexit hw))
  refine Handler.Ensures.bind ((ensures_reservePlaceholder hw.not_mayLeave).mono
    (fun reserved w' hw' => ?_) fun _ hw => hw)
  rcases hw' with ⟨rfl, rfl⟩ | ⟨⟨e, rfl⟩, rfl⟩
  · have hleaving : Leaving gentle vmId { w with inserted := true } :=
      ⟨⟨hw.id, by simp [hw.hand, hwrote rfl], rfl⟩, fun _ => ⟨hw.removed, hw.passed⟩⟩
    refine Handler.Ensures.bind (Handler.Ensures.guarded ((ensures_launch hleaving).mono
      (fun launched w' hw' => ?_) fun w' hw' => safe_createGuardDrop hw' fun _ hr => hr))
    rcases launched with _ | ⟨desc, moved⟩
    · exact hanswer (by simp [copyEnds, leftover, hw'.hand, hw'.inserted])
    · have hdrop : Inert (copying config gentle (.create body)) w' (.dropInstance vmId) :=
        inert_copying trivial fun _ _ => rfl
      cases moved with
      | true =>
        exact Handler.Ensures.bind (goesOn keeps_reportCreated (fun _ => hanswer hw'.hand)
          fun _ _ => hw'.resolved)
      | false =>
        exact Handler.Ensures.bind (goesOn (keeps_reportCreated.owning hdrop.steady)
          (fun _ => hanswer hw'.hand) fun _ _ => hw'.resolved)
  · exact hanswer (hfresh hw)

theorem ensures_delete (id : Uuid) :
    (delete config id).Ensures (copying config gentle request) (fun _ w => w.hand = none)
      (fun w => gentle → Resolved w) {} := by
  refine ensures_withLock lockBlind_copying ?_ fun _ _ => rfl
  refine Handler.Ensures.bind (ensures_inSection (.take id) rfl fun _ taken ha => ?_)
  cases taken with
  | error e => exact Handler.ensures_pure rfl
  | ok r =>
    have hexit (hc : (copying config gentle request).Considered { hand := some id }) :
        gentle → Resolved { hand := some id } :=
      resolved_of_considered hc fun hleave => by simpa using hleave.hand
    have hstop : (stopInstance id).Keeps (copying config gentle request) { hand := some id } :=
      keeps_stopInstance watchful_copying.stays (inert_copying trivial fun _ _ => rfl)
        (inert_copying trivial fun _ _ => rfl)
    refine Handler.Ensures.bind (goesOn hstop (fun _ => ?_) hexit)
    refine Handler.Ensures.bind ((ensures_freeResources ha rfl hexit).mono ?_ fun _ hw => hw)
    rintro _ _ rfl
    have hderegister : Inert (copying config gentle request) {} (.deregisterVm id) :=
      inert_copying trivial fun _ _ => rfl
    split
    · exact Handler.Ensures.bind (goesOn (Handler.keeps_await hderegister watchful_copying.stays)
        (fun _ => Handler.ensures_pure rfl) fun _ _ => rfl)
    · exact Handler.ensures_pure rfl

/-- Every handler keeps track of the copies. -/
theorem safe_copying (config : AppConfig) (gentle : Prop) (request : Request) :
    (handlerOf config request).Safe (copying config gentle request) (copyEnds gentle request)
      {} := by
  have hkeeps {x : Async Answer} (hr : ∀ body, request ≠ .create body)
      (h : x.Ensures (copying config gentle request) (fun _ w => w.hand = none)
        (fun w => gentle → Resolved w) {}) :
      (answering x).Safe (copying config gentle request) (copyEnds gentle request) {} := by
    refine safe_answering (h.mono (fun a w hw => ?_) fun w hw => ?_)
    · cases request with
      | create body => exact absurd rfl (hr body)
      | _ => cases a <;> exact hw
    · cases request <;> exact hw
  cases request with
  | create body => exact safe_answering (ensures_create body)
  | delete id => exact hkeeps (by simp) (ensures_delete id)
  | get id =>
    exact hkeeps (by simp) (goesOn (keeps_get watchful_copying id) (fun _ => rfl) fun _ _ => rfl)
  | list =>
    exact hkeeps (by simp) (goesOn (keeps_list watchful_copying) (fun _ => rfl) fun _ _ => rfl)
  | ready =>
    exact hkeeps (by simp) (goesOn (keeps_ready watchful_copying) (fun _ => rfl) fun _ _ => rfl)
  | session => rfl

theorem copying_callback {self : SessionHandler} (cb : Callback) (h : v.hand = none)
    (hi : v.inserted = false) : (calledBack (callbackCode lib self cb)).Safe
      (copying config gentle request) (copyEnds gentle request) v := by
  have hresolved : Resolved v := by simp [Resolved, h, hi]
  refine safe_calledBack (goesOn (keeps_callbackCode watchful_copying cb) (fun r => ?_) fun _ => ?_)
  · cases request <;> exact h
  · cases request <;> exact fun _ => hresolved

end Handlers

end Warlock.CopyDiscipline
