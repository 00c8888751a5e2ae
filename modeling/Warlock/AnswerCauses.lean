import Warlock.CapacitySafety
import Warlock.FreeSubnets

/-!
# Why a request is answered as it is

A `create` answers an internal error exactly if one of the operations that set its VM up has failed
or a blocking task of it has panicked. Every other answer of `create` and of `delete` is founded on
a state that the request itself has looked at, with the figures of that state.
-/

namespace Warlock.AnswerCauses
open ApplicationState AssociationMaps CapacitySafety EffectPrograms HostNetworking Ledgers
  MachineIntegers NftHandles QuietHandlers ReservationDiscipline ReservationProtocol RustText Server
  ServerInvariant ServerOperations SshSession SubnetAddressing TaskViews TransitionSystems
  VmConfiguration VmHandlers VmIdentifiers
open TidyDiscipline (AddsRule TakesDown)

/-- The operation sets something up, and fails, or `nft` prints no handle. -/
def Fails : Op → Choice → Prop
  | .command cmd, c => ¬ TakesDown cmd ∧ c.succeeds = false ∨
      AddsRule cmd ∧ parseNftHandle c.stdout = none
  | .build _ _, c | .describeInstance _, c => c.succeeds = false
  | .sdk _ call, c => call ≠ .stop ∧ c.succeeds = false
  | _, _ => False

instance (c : Choice) : (o : Op) → Decidable (Fails o c)
  | .command cmd => inferInstanceAs (Decidable (_ ∨ AddsRule cmd ∧ _))
  | .build _ _ => inferInstanceAs (Decidable (c.succeeds = false))
  | .describeInstance _ => inferInstanceAs (Decidable (c.succeeds = false))
  | .sdk _ _ => inferInstanceAs (Decidable (_ ∧ _))
  | .lock _ | .resume | .tryLock _ | .unlock _ | .vms _ | .allocate | .release _ | .newV4
  | .removeFile _ | .dropInstance _ | .registerVm _ _ _ | .deregisterVm _ | .dropLocals
  | .connect _ | .writeAll _ _ | .read _ _ | .forward _ _ | .send _ _ => .isFalse fun h => h

/-- How far a task has come, up to its first setback. -/
structure Course where
  setback : Bool := false
  id : Option Uuid := none
  full : Bool := false
  subnet : Option SubnetAllocation := none
  refused : Option (Uuid × VmResources × ApiError) := none
  desc : Option (Uuid × InstanceInfo) := none
  taken : Option (Uuid × Except ApiError VmResources) := none

def noteOutcome (v : Course) : (o : Op) → Reply o → Course
  | .newV4, id => { v with id := some id }
  | .allocate, none => { v with full := true }
  | .allocate, some subnet => { v with subnet := some subnet }
  | .vms (.reserve id r), .error e => { v with refused := some (id, r, e) }
  | .vms (.take id), taken => { v with taken := some (id, taken) }
  | .describeInstance id, some desc => { v with desc := some (id, desc) }
  | _, _ => v

def noteCourse (v : Course) (c : Choice) (o : Op) (r : Reply o) : Course :=
  if v.setback then v else if Fails o c then { v with setback := true } else noteOutcome v o r

/-- The course of a task founds its answer. -/
inductive Settles : Request → Answer → Course → Prop
  | invalid (body : Option CreateVmRequest) (e : ConfigError) (v : Course)
      (h : validateVmConfig (body.bind (·.vcpus)) (body.bind (·.memoryMb)) = .error e) :
      Settles (.create body) (.failed (.unprocessable e.message)) v
  | setback (body : Option CreateVmRequest) (v : Course) (h : v.setback = true) :
      Settles (.create body) (.failed .internalServerError) v
  | full (body : Option CreateVmRequest) (v : Course) (h : v.full = true)
      (hv : v.setback = false) :
      Settles (.create body) (.failed (.conflict "No available network subnets")) v
  | refused (body : Option CreateVmRequest) (id : Uuid) (r : VmResources) (e : ApiError)
      (v : Course) (hsize : validateVmConfig (body.bind (·.vcpus)) (body.bind (·.memoryMb)) =
        .ok (r.vcpus, r.memoryMb)) (h : v.refused = some (id, r, e)) (hv : v.setback = false) :
      Settles (.create body) (.failed e) v
  | created (body : Option CreateVmRequest) (id : Uuid) (vcpus : U8) (memoryMb : U32)
      (subnet : SubnetAllocation) (desc : InstanceInfo) (v : Course)
      (hsize : validateVmConfig (body.bind (·.vcpus)) (body.bind (·.memoryMb)) =
        .ok (vcpus, memoryMb)) (hid : v.id = some id) (hsubnet : v.subnet = some subnet)
      (hdesc : v.desc = some (id, desc)) (hv : v.setback = false) :
      Settles (.create body) (.created ⟨id, vcpus, memoryMb, desc.state, desc.vmmVersion,
        subnet.guestIp.display⟩) v
  | taken (id : Uuid) (r : VmResources) (v : Course) (h : v.taken = some (id, .ok r)) :
      Settles (.delete id) (.deleted id) v
  | kept (id : Uuid) (e : ApiError) (v : Course) (h : v.taken = some (id, .error e)) :
      Settles (.delete id) (.failed e) v

/-- The requests that change the map. -/
def Changes : Request → Prop
  | .create _ | .delete _ => True
  | .get _ | .list | .ready | .session => False

def settles (request : Request) : Outcome → Course → Prop
  | .answered answer, v => Changes request → Settles request answer v
  | .session _ _, _ => ¬ Changes request
  | .dropped, _ => True

/-- What the outside decides is what the task is told. -/
def courseAllows : (o : Op) → Choice → Reply o → Course → Prop
  | .command _, c, r, _ => r = if c.succeeds then some c.stdout else none
  | .build _ _, c, r, _ => r = c.succeeds
  | .sdk _ _, c, r, _ => r = c.succeeds
  | .describeInstance _, c, r, _ => r = if c.succeeds then some c.info else none
  | _, _, _, _ => True

def course (_ : Request) : Discipline Reply Choice Course where
  requires _ _ := True
  allows := courseAllows
  note o c r v := noteCourse v c o r
  considers _ _ _ := True
  leave
    | .dropped, v => v
    | .panicked, v => { v with setback := true }

variable {config : AppConfig} {lib : Libraries} {request : Request} {v w : Course} {vmId : Uuid}
  {α : Type}

section Rules

theorem noteCourse_of_setback (h : v.setback = true) (c : Choice) (o : Op) (r : Reply o) :
    noteCourse v c o r = v := by simp [noteCourse, h]

/-- What follows a setback is not noted. -/
theorem calm_of_setback (h : v.setback = true) : Calm (course request) v where
  inert o _ := ⟨trivial, fun c r _ => noteCourse_of_setback h c o r⟩
  stays e _ _ := by
    cases e with
    | dropped => rfl
    | panicked =>
      cases v
      simp_all [course]

/-- Operations whose outcome decides nothing. -/
def Mild : Op → Prop
  | .command cmd => TakesDown cmd
  | .sdk _ call => call = .stop
  | .newV4 | .allocate | .build _ _ | .describeInstance _ | .vms (.reserve _ _) | .vms (.take _) =>
    False
  | _ => True

theorem inert_mild {o : Op} (h : Mild o) : Inert (course request) v o := by
  refine ⟨trivial, fun c r _ => ?_⟩
  have hfails : ¬ Fails o c := by
    cases o with
    | command cmd => cases cmd <;> simp_all [Mild, Fails, TakesDown, AddsRule]
    | sdk id call => simp_all [Mild, Fails]
    | build | describeInstance => exact h.elim
    | _ => exact fun hf => hf
  have houtcome : noteOutcome v o r = v := by
    cases o with
    | vms sec => cases sec <;> first | exact h.elim | rfl
    | newV4 | allocate | describeInstance => exact h.elim
    | _ => rfl
  simp [course, noteCourse, hfails, houtcome]

theorem safe_any (s : Code α) : s.Safe (course request) (fun _ _ => True) v := by
  induction s generalizing v with
  | done a => trivial
  | run o next ih => exact ⟨trivial, fun c r _ => ih r⟩

theorem safe_setback (h : v.setback = true) (s : Code α) :
    s.Safe (course request) (fun _ w => w.setback = true) v := by
  induction s with
  | done a => exact h
  | run o next ih =>
    refine ⟨trivial, fun c r _ => ?_⟩
    change (next r).Safe _ _ (noteCourse v c o r)
    rw [noteCourse_of_setback h]
    exact ih r

/-- If it went well the view is the same, and otherwise it notes the setback. -/
structure Decisive (ok : Prop) (v w : Course) : Prop where
  went : ok → w = v
  failed : ¬ ok → w.setback = true

theorem Decisive.yes {ok : Prop} (h : ok) : Decisive ok v v := ⟨fun _ => rfl, fun hn => absurd h hn⟩

theorem Decisive.no {ok : Prop} (h : ¬ ok) (hw : w.setback = true) : Decisive ok v w :=
  ⟨fun ho => absurd ho h, fun _ => hw⟩

theorem decisive_note {o : Op} {c : Choice} {r : Reply o} {ok : Prop}
    (hok : ok → ¬ Fails o c) (hfail : ¬ Fails o c → ok) (hsame : noteOutcome v o r = v) :
    Decisive ok v (noteCourse v c o r) := by
  by_cases hv : v.setback = true
  · rw [noteCourse_of_setback hv]
    exact ⟨fun _ => rfl, fun _ => hv⟩
  · by_cases hf : Fails o c
    · exact .no (fun h => hok h hf) (by simp [noteCourse, hv, hf])
    · simpa [noteCourse, hv, hf, hsame] using Decisive.yes (hfail hf)

end Rules

section Scripts

/-- A command that sets something up either does what it should or is a setback. -/
theorem safe_runCmdOutput {cmd : Command} (hcmd : ¬ TakesDown cmd) :
    (runCmdOutput cmd).Safe (course request) (fun r w =>
      Decisive (∃ out, r = some out ∧ (AddsRule cmd → parseNftHandle out ≠ none)) v w) v := by
  refine ⟨trivial, fun c r hr => ?_⟩
  obtain rfl : r = if c.succeeds then some c.stdout else none := hr
  refine decisive_note (fun h => ?_) (fun hf => ?_) rfl
  · obtain ⟨out, hout, hparse⟩ := h
    split at hout
    · rename_i hc
      obtain rfl := Option.some.inj hout
      rintro (⟨_, hfalse⟩ | ⟨hadds, hnone⟩)
      · simp [hc] at hfalse
      · exact hparse hadds hnone
    · simp at hout
  · simp only [Fails, not_or, not_and, Bool.not_eq_false] at hf
    exact ⟨c.stdout, by simp [hf.1 hcmd], hf.2⟩

theorem safe_runCmd {cmd : Command} (hdown : ¬ TakesDown cmd) (hadds : ¬ AddsRule cmd) :
    (runCmd cmd).Safe (course request) (fun ok w => Decisive (ok = true) v w) v := by
  refine Script.safe_bind.mpr ((safe_runCmdOutput hdown).mono fun r w hw => ?_)
  refine ⟨fun hr => hw.went ?_, fun hr => hw.failed ?_⟩
  · obtain ⟨out, rfl⟩ := Option.isSome_iff_exists.mp hr
    exact ⟨out, rfl, fun h => absurd h hadds⟩
  · rintro ⟨out, rfl, _⟩
    exact hr rfl

theorem safe_createTap {name : String} {ip : Ipv4Addr} : (createTap name ip).Safe (course request)
    (fun made w => Decisive (made = true) v w) v := by
  have hdel {u : Course} (hu : u.setback = true) :
      (do let _ ← runCmd (.linkDel name); return false : Code Bool).Safe (course request)
        (fun made w => Decisive (made = true) v w) u :=
    Script.safe_bind.mpr ((safe_setback hu _).mono fun _ _ hw => .no (by simp) hw)
  refine Script.safe_bind.mpr ((safe_runCmd (by simp [TakesDown]) (by simp [AddsRule])).mono
    fun added w₁ h₁ => ?_)
  cases added with
  | false => exact .no (by simp) (h₁.failed (by simp))
  | true =>
    obtain rfl := h₁.went rfl
    refine Script.safe_bind.mpr ((safe_runCmd (by simp [TakesDown]) (by simp [AddsRule])).mono
      fun addressed w₂ h₂ => ?_)
    cases addressed with
    | false => exact hdel (h₂.failed (by simp))
    | true =>
      obtain rfl := h₂.went rfl
      refine Script.safe_bind.mpr ((safe_runCmd (by simp [TakesDown]) (by simp [AddsRule])).mono
        fun up w₃ h₃ => ?_)
      cases up with
      | false => exact hdel (h₃.failed (by simp))
      | true => exact h₃

theorem safe_addNatRules {ip : Ipv4Addr} {name iface : String} :
    (addNatRules ip name iface).Safe (course request)
      (fun result w => Decisive (result.isSome = true) v w) v := by
  refine Script.safe_bind.mpr ((safe_runCmdOutput (by simp [TakesDown])).mono fun r₁ w₁ h₁ => ?_)
  cases r₁ with
  | none => exact .no (by simp) (h₁.failed (by simp))
  | some out₁ =>
    dsimp only
    cases hp₁ : parseNftHandle out₁ with
    | none => exact .no (by simp) (h₁.failed (by simp [AddsRule, hp₁]))
    | some handle₁ =>
      obtain rfl := h₁.went ⟨out₁, rfl, fun _ => by simp [hp₁]⟩
      refine Script.safe_bind.mpr ((safe_runCmdOutput (by simp [TakesDown])).mono
        fun r₂ w₂ h₂ => ?_)
      cases r₂ with
      | none =>
        have hset := h₂.failed (by simp)
        exact Script.safe_bind.mpr ((safe_setback hset _).mono fun _ _ hw => .no (by simp) hw)
      | some out₂ =>
        dsimp only
        cases hp₂ : parseNftHandle out₂ with
        | none => exact .no (by simp) (h₂.failed (by simp [AddsRule, hp₂]))
        | some handle₂ => exact ⟨fun _ => h₂.went ⟨out₂, rfl, fun _ => by simp [hp₂]⟩, by simp⟩

theorem safe_setupNetworking {subnet : SubnetAllocation} {iface : String} :
    (setupNetworking subnet iface).Safe (course request)
      (fun result w => Decisive (result.isSome = true) v w) v := by
  refine Script.safe_bind.mpr (safe_createTap.mono fun made w₁ h₁ => ?_)
  cases made with
  | false => exact .no (by simp) (h₁.failed (by simp))
  | true =>
    obtain rfl := h₁.went rfl
    refine Script.safe_bind.mpr (safe_addNatRules.mono fun result w₂ h₂ => ?_)
    cases result with
    | none =>
      have hset := h₂.failed (by simp)
      exact Script.safe_bind.mpr ((safe_setback hset _).mono fun _ _ hw => .no (by simp) hw)
    | some handles => exact h₂

theorem safe_copyRootfs {strategy : CopyStrategy} {source dest : String} {uid gid : ℕ} :
    (copyRootfs strategy source dest uid gid).Safe (course request)
      (fun copied w => Decisive (copied = true) v w) v := by
  refine Script.safe_bind.mpr ((safe_runCmd (by simp [TakesDown]) (by simp [AddsRule])).mono
    fun copied w₁ h₁ => ?_)
  cases copied with
  | false => exact .no (by simp) (h₁.failed (by simp))
  | true =>
    obtain rfl := h₁.went rfl
    refine Script.safe_bind.mpr ((safe_runCmd (by simp [TakesDown]) (by simp [AddsRule])).mono
      fun owned w₂ h₂ => ?_)
    cases owned with
    | false => exact .no (by simp) (h₂.failed (by simp))
    | true => exact h₂

end Scripts

section Handlers

variable {post : α → Course → Prop} {r : VmResources}

theorem ensures_mild {o : Op} {post : Reply o → Course → Prop} (h : Mild o)
    (hp : ∀ r, post r v) : (Async.await o).Ensures (course request) post (fun _ => True) v := by
  refine Handler.ensures_await trivial (fun c r ha => ?_) fun _ => trivial
  rw [(inert_mild h).note c r ha]
  exact hp r

theorem ensures_mildly {o : Op} {post : Reply o → Course → Prop} (h : Mild o)
    (hp : ∀ r, post r v) : (Async.perform o).Ensures (course request) post (fun _ => True) v := by
  refine Handler.ensures_perform trivial fun c r ha => ?_
  rw [(inert_mild h).note c r ha]
  exact hp r

theorem safe_mildly {o : Op} {Q : Course → Prop} (h : Mild o) (hQ : Q v) :
    (Code.perform o).Safe (course request) (fun _ => Q) v :=
  ((inert_mild h).steady.safe rfl).mono fun _ _ hw => hw ▸ hQ

theorem ensures_locked {m : Mutex} {body : Async α}
    (h : body.Ensures (course request) post (fun _ => True) v) :
    (withLock m body).Ensures (course request) post (fun _ => True) v := by
  have hunlock (w : Course) (Q : Course → Prop) (hQ : Q w) :
      (Code.perform (.unlock m)).Safe (course request) (fun _ => Q) w := safe_mildly trivial hQ
  refine Handler.Ensures.bind (ensures_mild (o := Op.lock m) trivial fun _ => ?_)
  refine Handler.Ensures.owning (Handler.Ensures.bind ((ensures_mild (o := Op.resume) trivial
    fun _ => ?_).mono
    (fun _ _ hw => hw) fun w _ => hunlock w _ trivial))
  exact h.mono (fun a w hw => hunlock w (post a) hw) fun w _ => hunlock w _ trivial

theorem ensures_releaseSubnet {i : U16} {post : Unit → Course → Prop} (hp : post () v) :
    (releaseSubnet i).Ensures (course request) post (fun _ => True) v :=
  ensures_locked (ensures_mildly (o := Op.release i) trivial fun _ => hp)

/-- Giving back what a VM had decides nothing. -/
theorem ensures_freeResources {post : Unit → Course → Prop} (hp : post () v) :
    (freeResources r).Ensures (course request) post (fun _ => True) v := by
  have hinline {s : Code Unit} {next : Async Unit} (hs : s.Steady (course request) (· = v))
      (hnext : next.Ensures (course request) post (fun _ => True) v) :
      (do Handler.inline s; next : Async Unit).Ensures (course request) post (fun _ => True) v :=
    Handler.Ensures.bind (Handler.ensures_inline ((hs.safe rfl).mono fun _ _ hw => hw ▸ hnext))
  have hcommand (cmd : Command) (h : TakesDown cmd) :
      Upholds (course request) (· = v) (.command cmd) :=
    (inert_mild (o := Op.command cmd) h).upholds
  obtain ⟨_, _, rootfs, tap, index, handles, _, _, _⟩ := r
  induction tap using optionally with
  | some name hrest => exact hinline (steady_deleteTap (hcommand _ trivial)) hrest
  | none =>
    induction handles using optionally with
    | some handles hrest =>
      exact hinline (steady_removeNatRules fun _ _ => hcommand _ trivial) hrest
    | none =>
      induction index using optionally with
      | some index hrest => exact Handler.Ensures.bind (ensures_releaseSubnet hrest)
      | none =>
        cases rootfs with
        | none => exact Handler.ensures_pure hp
        | some path =>
          have hremove : Inert (course request) v (.removeFile path) := inert_mild trivial
          exact Handler.ensures_inline (((steady_cleanupRootfsCopy hremove.upholds).safe rfl).mono
            fun _ _ hw => hw ▸ hp)

theorem ensures_performCalls {calls : List SdkCall} (hcalls : ∀ call ∈ calls, call ≠ .stop) :
    (performCalls vmId calls).Ensures (course request) (fun ok w => Decisive (ok = true) v w)
      (fun _ => True) v := by
  induction calls with
  | nil => exact Handler.ensures_pure (.yes rfl)
  | cons call calls ih =>
    have hstop := hcalls call (.head _)
    refine Handler.Ensures.bind (Handler.ensures_await trivial (fun c r hr => ?_) fun _ => trivial)
    have hnote : Decisive (r = true) v (noteCourse v c (.sdk vmId call) r) := by
      obtain rfl : r = c.succeeds := hr
      refine decisive_note (fun hc hf => ?_) (fun hf => ?_) rfl
      · simp [hf.2] at hc
      · simpa [Fails, hstop] using hf
    change Handler.Ensures _ _ _ _ (noteCourse v c (.sdk vmId call) r)
    cases r with
    | false => exact Handler.ensures_pure (.no (by simp) (hnote.failed (by simp)))
    | true =>
      rw [hnote.went rfl]
      exact ih fun call' hcall' => hcalls call' (.tail _ hcall')

/-- The instance has described itself, or there was a setback. -/
def Described (vmId : Uuid) (v : Course) (desc : Option InstanceInfo) (w : Course) : Prop :=
  (desc = none → w.setback = true) ∧
    ∀ d, desc = some d → v.setback = false → w = { v with desc := some (vmId, d) }

theorem ensures_describe : (Async.await (.describeInstance vmId)).Ensures (course request)
    (Described vmId v) (fun _ => True) v := by
  refine Handler.ensures_await (o := Op.describeInstance vmId) trivial (fun c desc hr => ?_)
    fun _ => trivial
  obtain rfl : desc = if c.succeeds then some c.info else none := hr
  change Described vmId v _ (noteCourse v c (.describeInstance vmId) _)
  by_cases hv : v.setback = true
  · rw [noteCourse_of_setback hv]
    exact ⟨fun _ => hv, fun _ _ hfalse => by simp [hv] at hfalse⟩
  · cases hc : c.succeeds with
    | false => exact ⟨fun _ => by simp [noteCourse, hv, Fails, hc], by simp⟩
    | true =>
      refine ⟨by simp, fun d hd _ => ?_⟩
      obtain rfl := Option.some.inj hd
      simp [noteCourse, hv, Fails, hc, noteOutcome]

/-- The instance is set up and has described itself, or there was a setback. -/
theorem ensures_setupFirecrackerInstance {vcpus : U8} {memoryMb : U32}
    {kernel vmRootfs tapName path : String} {guestIp tapIp : Ipv4Addr} :
    (setupFirecrackerInstance config vmId vcpus memoryMb kernel vmRootfs tapName guestIp tapIp
      path).Ensures (course request) (Described vmId v) (fun _ => True) v := by
  have hcalls : ∀ call ∈ setupCalls vcpus memoryMb vmId kernel vmRootfs tapName guestIp tapIp path,
      call ≠ .stop := by simp [setupCalls]
  refine Handler.Ensures.bind (Handler.ensures_perform trivial fun c built hr => ?_)
  have hbuilt : Decisive (built = true) v (noteCourse v c (.build vmId _) built) := by
    obtain rfl : built = c.succeeds := hr
    refine decisive_note (fun hc hf => ?_) (fun hf => ?_) rfl
    · simp [Fails, hc] at hf
    · simpa [Fails] using hf
  cases built with
  | false => exact Handler.ensures_pure ⟨fun _ => hbuilt.failed (by simp), by simp⟩
  | true =>
    change Handler.Ensures _ _ _ _ (noteCourse v c (.build vmId _) true)
    rw [hbuilt.went rfl]
    refine Handler.Ensures.bind (Handler.Ensures.guarded (Handler.Ensures.bind
      ((ensures_performCalls hcalls).mono (fun performed w hw => ?_) fun _ _ => safe_any _)))
    cases performed with
    | false =>
      refine Handler.ensures_pure ?_
      have hset := hw.failed (by simp)
      refine Handler.Ensures.bind (ensures_mildly (o := Op.dropInstance vmId) trivial fun _ => ?_)
      exact Handler.ensures_pure ⟨fun _ => hset, by simp⟩
    | true =>
      obtain rfl := hw.went rfl
      refine ensures_describe.mono (fun desc u hu => ?_) fun _ _ => safe_any _
      cases desc with
      | none =>
        refine Handler.Ensures.bind (ensures_mildly (o := Op.dropInstance vmId) trivial fun _ => ?_)
        exact Handler.ensures_pure ⟨fun _ => hu.1 rfl, by simp⟩
      | some desc => exact Handler.ensures_pure hu

theorem ensures_upgradePlaceholder {post : Bool → Course → Prop} (hp : ∀ moved, post moved v) :
    (upgradePlaceholder vmId).Ensures (course request) post (fun _ => True) v := by
  refine Handler.Ensures.guarded ((ensures_locked (ensures_mildly (o := Op.vms (.upgrade vmId))
    trivial fun moved => hp moved)).mono (fun _ _ hw => hw) fun _ _ => safe_any _)

theorem ensures_launch {vcpus : U8} {memoryMb : U32} {kernel vmRootfs path : String}
    {subnet : SubnetAllocation} :
    (launch config vmId vcpus memoryMb kernel vmRootfs subnet path).Ensures (course request)
      (fun launched w => Described vmId v (launched.map (·.1)) w) (fun _ => True) v := by
  refine Handler.Ensures.bind (ensures_setupFirecrackerInstance.mono (fun desc w hw => ?_)
    fun _ _ => trivial)
  cases desc with
  | none =>
    have hset := hw.1 rfl
    refine Handler.Ensures.bind ((keeps_cleanupPlaceholder (calm_of_setback hset)).mono
      (fun _ u hu => ?_) fun _ _ => trivial)
    exact Handler.ensures_pure ⟨fun _ => hu ▸ hset, by simp⟩
  | some desc =>
    exact Handler.Ensures.bind (ensures_upgradePlaceholder fun moved => Handler.ensures_pure hw)

/-- The placeholder is in, or it was refused and nothing else is noted. -/
theorem ensures_reservePlaceholder {subnet : SubnetAllocation} {natHandles : NatHandles}
    (hv : v.setback = false) : (reservePlaceholder vmId r subnet natHandles).Ensures
      (course request) (fun reserved w => (reserved = .ok () → w = v) ∧
        ∀ e, reserved = .error e → w = { v with refused := some (vmId, r, e) })
      (fun _ => True) v := by
  refine ensures_locked (Handler.Ensures.bind (ensures_inSection (.reserve vmId r) trivial
    fun c reserved _ => ?_))
  change Handler.Ensures _ _ _ _ (noteCourse v c (.vms (.reserve vmId r)) reserved)
  cases reserved with
  | ok _ =>
    refine Handler.ensures_pure ⟨fun _ => ?_, by simp⟩
    simp [noteCourse, hv, Fails, noteOutcome]
  | error e =>
    have hnote : noteCourse v c (.vms (.reserve vmId r)) (.error e) =
        { v with refused := some (vmId, r, e) } := by simp [noteCourse, hv, Fails, noteOutcome]
    rw [hnote]
    have hcommand (w : Course) (cmd : Command) (h : TakesDown cmd) :
        Upholds (course request) (· = w) (.command cmd) :=
      (inert_mild (o := Op.command cmd) h).upholds
    refine Handler.Ensures.bind (Handler.ensures_inline (((steady_removeNatRules fun _ _ =>
      hcommand _ _ trivial).safe rfl).mono fun _ w hw => ?_))
    subst hw
    refine Handler.Ensures.bind (Handler.ensures_inline (((steady_deleteTap
      (hcommand _ _ trivial)).safe rfl).mono fun _ w hw => ?_))
    subst hw
    refine Handler.Ensures.bind (ensures_releaseSubnet (Handler.ensures_pure ⟨by simp, ?_⟩))
    intro e' he'
    obtain rfl := Except.error.inj he'
    rfl

theorem ensures_reportCreated {vcpus : U8} {memoryMb : U32} {post : Unit → Course → Prop}
    (hp : post () v) :
    (reportCreated config vmId vcpus memoryMb).Ensures (course request) post (fun _ => True) v := by
  unfold reportCreated
  split
  · exact Handler.Ensures.bind (ensures_mild (o := Op.registerVm vmId vcpus memoryMb) trivial
      fun _ => Handler.ensures_pure hp)
  · exact Handler.ensures_pure hp

/-- What a blocking task of `create` has done. -/
theorem ensures_blocking {s : Code α} {good : α → Prop}
    (h : s.Safe (course request) (fun a w => Decisive (good a) v w) v) :
    (Handler.offload s : Async (Option α)).Ensures (course request)
      (fun result w => Decisive (∃ a, result = some a ∧ good a) v w) (fun _ => True) v := by
  refine Handler.ensures_offload_anywhere (h.mono fun a w hw => ?_) (fun _ => rfl)
    (fun w => .no (by simp) rfl) fun _ => trivial
  constructor
  · rintro ⟨b, hb, hgood⟩
    exact hw.went (Option.some.inj hb ▸ hgood)
  · intro hn
    exact hw.failed fun hgood => hn ⟨a, rfl, hgood⟩

theorem ensures_create (body : Option CreateVmRequest) :
    (create config body).Ensures (course request) (Settles (.create body)) (fun _ => True) {} := by
  have hsetback {w : Course} (hw : w.setback = true) : (pure (.failed .internalServerError) :
      Async Answer).Ensures (course request) (Settles (.create body)) (fun _ => True) w :=
    Handler.ensures_pure (.setback body w hw)
  unfold create
  cases hsize : validateVmConfig (body.bind (·.vcpus)) (body.bind (·.memoryMb)) with
  | error e => exact Handler.ensures_pure (.invalid body e _ hsize)
  | ok size =>
  obtain ⟨vcpus, memoryMb⟩ := size
  refine Handler.Ensures.bind (Handler.ensures_perform trivial fun _ vmId _ => ?_)
  refine Handler.Ensures.bind ((ensures_blocking safe_copyRootfs).mono (fun copied w hw => ?_)
    fun _ hw => hw)
  rcases copied with _ | _ | _
  · exact hsetback (hw.failed (by simp))
  · exact hsetback (hw.failed (by simp))
  obtain rfl := hw.went ⟨true, rfl, rfl⟩
  refine Handler.Ensures.bind (ensures_locked (Handler.ensures_perform trivial
    fun _ subnet _ => ?_))
  cases subnet with
  | none => exact Handler.ensures_pure (.full body _ rfl rfl)
  | some subnet =>
  refine Handler.Ensures.bind ((ensures_blocking safe_setupNetworking).mono (fun result w hw => ?_)
    fun _ hw => hw)
  rcases result with _ | _ | natHandles
  · exact Handler.Ensures.bind (ensures_mildly (o := Op.dropLocals) trivial
      fun _ => hsetback (hw.failed (by simp)))
  · exact Handler.Ensures.bind (ensures_releaseSubnet (hsetback (hw.failed (by simp))))
  obtain rfl := hw.went ⟨some natHandles, rfl, rfl⟩
  refine Handler.Ensures.bind ((ensures_reservePlaceholder rfl).mono (fun reserved w hw => ?_)
    fun _ hw => hw)
  cases reserved with
  | error e =>
    obtain rfl := hw.2 e rfl
    exact Handler.ensures_pure (.refused body vmId _ e _ hsize rfl rfl)
  | ok _ =>
  obtain rfl := hw.1 rfl
  refine Handler.Ensures.bind (Handler.Ensures.guarded (ensures_launch.mono
    (fun launched w hw => ?_) fun _ _ => safe_any _))
  rcases launched with _ | ⟨desc, moved⟩
  · exact hsetback (hw.1 rfl)
  obtain rfl := hw.2 desc rfl rfl
  have hcreated : Settles (.create body) (.created ⟨vmId, vcpus, memoryMb, desc.state,
      desc.vmmVersion, subnet.guestIp.display⟩)
      { id := some vmId, subnet := some subnet, desc := some (vmId, desc) } :=
    .created body vmId vcpus memoryMb subnet desc _ hsize rfl rfl rfl rfl
  cases moved with
  | true => exact Handler.Ensures.bind (ensures_reportCreated (Handler.ensures_pure hcreated))
  | false =>
    refine Handler.Ensures.bind (Handler.Ensures.owning ((ensures_reportCreated ?_).mono
      (fun _ _ hw => hw) fun _ _ => safe_any _))
    exact safe_mildly (o := Op.dropInstance vmId) trivial (Handler.ensures_pure hcreated)

theorem ensures_delete (id : Uuid) :
    (delete config id).Ensures (course request) (Settles (.delete id)) (fun _ => True) {} := by
  refine ensures_locked (Handler.Ensures.bind (ensures_inSection (.take id) trivial
    fun c taken _ => ?_))
  cases taken with
  | error e => exact Handler.ensures_pure (.kept id e _ rfl)
  | ok r =>
    have htaken : Settles (.delete id) (.deleted id) { taken := some (id, .ok r) } :=
      .taken id r _ rfl
    have hstop : (stopInstance id).Ensures (course request)
        (fun _ w => w = { taken := some (id, .ok r) }) (fun _ => True)
        { taken := some (id, .ok r) } := by
      refine Handler.Ensures.owning (Handler.Ensures.bind ((ensures_mild (o := Op.sdk id .stop) rfl
        fun _ => ?_).mono (fun _ _ hw => hw) fun _ _ => safe_any _))
      exact Handler.ensures_pure (safe_mildly (o := Op.dropInstance id) trivial rfl)
    refine Handler.Ensures.bind (hstop.mono (fun _ w hw => ?_) fun _ _ => trivial)
    subst hw
    refine Handler.Ensures.bind (ensures_freeResources ?_)
    split
    · exact Handler.Ensures.bind (ensures_mild (o := Op.deregisterVm id) trivial
        fun _ => Handler.ensures_pure htaken)
    · exact Handler.ensures_pure htaken

theorem safe_unchanging (h : ¬ Changes request) (p : Program Reply Outcome) (v : Course) :
    p.Safe (course request) (settles request) v := by
  refine Program.safe_of_free (fun _ _ => trivial) (fun outcome v => ?_) p v
  cases outcome with
  | answered answer => exact fun hc => absurd hc h
  | dropped => trivial
  | session => exact h

theorem safe_course (config : AppConfig) (request : Request) :
    (handlerOf config request).Safe (course request) (settles request) {} := by
  have hanswering {x : Async Answer} (h : x.Ensures (course request) (Settles request)
      (fun _ => True) {}) : (answering x).Safe (course request) (settles request) {} :=
    h _ _ _ (fun _ _ => trivial) fun _ _ hw _ => hw
  cases request with
  | create body => exact hanswering (ensures_create body)
  | delete id => exact hanswering (ensures_delete id)
  | get | list | ready | session => exact safe_unchanging (by simp [Changes]) _ {}

end Handlers

section Histories

variable {past : History} {s s' : State} {n : ℕ} {t : HandlerTask} {e : Event} {o : Op}
  {c : Choice} {sh : Shared} {reply : Reply o} {answer : Answer}

/-- In this step of task `n` an operation that sets something up fails, or a blocking task of it
panics. -/
def Thwarts (n : ℕ) (a : State) : Event → Prop
  | .run m c => m = n ∧ ∃ t o, a.tasks[n]? = some t ∧ t.nextOp = some o ∧ Fails o c
  | .leave m .panicked => m = n
  | _ => False

def SetBack (past : History) (n : ℕ) : Prop := ∃ p ∈ past, Thwarts n p.1 p.2

theorem setBack_cons {p : State × Event} :
    SetBack (p :: past) n ↔ Thwarts n p.1 p.2 ∨ SetBack past n := by
  simp [SetBack]

/-- What the course of task `n` notes has been so in a state of its history. -/
structure Noted (config : AppConfig) (past : History) (n : ℕ) (v : Course) : Prop where
  full : v.full = true → ∃ a, Performed past n .allocate a ∧ a.shared.subnetPool.allocate = none
  refused : ∀ id r e, v.refused = some (id, r, e) → ∃ a, Performed past n (.vms (.reserve id r)) a ∧
    (VmRegistry.reserve config.capacity id r a.shared.vms).2 = .error e
  subnet : ∀ subnet, v.subnet = some subnet → ∃ a pool, Performed past n .allocate a ∧
    a.shared.subnetPool.allocate = some (subnet, pool)
  desc : ∀ id info, v.desc = some (id, info) → ∃ a c t, (a, Event.run n c) ∈ past ∧
    a.tasks[n]? = some t ∧ t.nextOp = some (.describeInstance id) ∧ c.info = info
  taken : ∀ id taken, v.taken = some (id, taken) → ∃ a, Performed past n (.vms (.take id)) a ∧
    (VmRegistry.take id a.shared.vms).2 = taken

/-- The course of task `n` notes what has happened to it. -/
structure Charted (config : AppConfig) (past : History) (n : ℕ) (v : Course) : Prop where
  setback : v.setback = true ↔ SetBack past n
  noted : Noted config past n v

theorem Noted.tail (h : Noted config past n v) (p : State × Event) :
    Noted config (p :: past) n v where
  full hv := by
    obtain ⟨a, ha, h⟩ := h.full hv
    exact ⟨a, ha.tail p, h⟩
  refused id r e hv := by
    obtain ⟨a, ha, h⟩ := h.refused id r e hv
    exact ⟨a, ha.tail p, h⟩
  subnet subnet hv := by
    obtain ⟨a, pool, ha, h⟩ := h.subnet subnet hv
    exact ⟨a, pool, ha.tail p, h⟩
  desc id info hv := by
    obtain ⟨a, c, t, ha, h⟩ := h.desc id info hv
    exact ⟨a, c, t, .tail _ ha, h⟩
  taken id taken hv := by
    obtain ⟨a, ha, h⟩ := h.taken id taken hv
    exact ⟨a, ha.tail p, h⟩

theorem Charted.passed {p : State × Event} (h : Charted config past n v)
    (hp : Thwarts n p.1 p.2 → v.setback = true) : Charted config (p :: past) n v where
  setback := by
    rw [setBack_cons]
    exact ⟨fun hv => .inr (h.setback.mp hv), fun hv => hv.elim hp h.setback.mpr⟩
  noted := h.noted.tail p

theorem Charted.thwarted {p : State × Event} (h : Charted config past n v)
    (hp : Thwarts n p.1 p.2) : Charted config (p :: past) n { v with setback := true } where
  setback := iff_of_true rfl (setBack_cons.mpr (.inl hp))
  noted := by
    have hn := h.noted.tail p
    exact ⟨hn.full, hn.refused, hn.subnet, hn.desc, hn.taken⟩

theorem noted_outcome (h : Noted config past n v) (hn : s.tasks[n]? = some t)
    (ho : t.nextOp = some o) (hexec : exec config n c s.shared o = some (sh, some reply))
    (hf : ¬ Fails o c) : Noted config ((s, .run n c) :: past) n (noteOutcome v o reply) := by
  have hnow : Performed ((s, .run n c) :: past) n o s := .now hn ho
  have hold := h.tail (s, .run n c)
  cases o with
  | newV4 => exact ⟨hold.full, hold.refused, hold.subnet, hold.desc, hold.taken⟩
  | allocate =>
    simp only [exec] at hexec
    split at hexec
    · rename_i hnone
      obtain ⟨_, rfl⟩ := by simpa using hexec
      exact ⟨fun _ => ⟨s, hnow, hnone⟩, hold.refused, hold.subnet, hold.desc, hold.taken⟩
    · rename_i subnet pool hsome
      obtain ⟨_, rfl⟩ := by simpa using hexec
      refine ⟨hold.full, hold.refused, fun subnet' hs => ?_, hold.desc, hold.taken⟩
      obtain rfl := Option.some.inj hs
      exact ⟨s, pool, hnow, hsome⟩
  | describeInstance id =>
    obtain ⟨_, rfl⟩ := by simpa [exec] using hexec
    cases hc : c.succeeds with
    | false => exact absurd hc hf
    | true =>
      refine ⟨hold.full, hold.refused, hold.subnet, fun id' info hd => ?_, hold.taken⟩
      obtain ⟨rfl, rfl⟩ := by simpa [noteOutcome] using hd
      exact ⟨s, c, t, .head _, hn, ho, rfl⟩
  | vms sec =>
    obtain ⟨_, rfl⟩ := by simpa [exec] using hexec
    cases sec with
    | reserve id r =>
      cases hr : (VmRegistry.reserve config.capacity id r s.shared.vms).2 with
      | ok _ => simpa [VmRegistry.Section.run, hr, noteOutcome] using hold
      | error e =>
        simp only [VmRegistry.Section.run, hr, noteOutcome]
        refine ⟨hold.full, fun id' r' e' hv => ?_, hold.subnet, hold.desc, hold.taken⟩
        obtain ⟨rfl, rfl, rfl⟩ := by simpa using hv
        exact ⟨s, hnow, hr⟩
    | take id =>
      refine ⟨hold.full, hold.refused, hold.subnet, hold.desc, fun id' taken hv => ?_⟩
      obtain ⟨rfl, rfl⟩ := by simpa [noteOutcome] using hv
      exact ⟨s, hnow, rfl⟩
    | _ => exact hold
  | _ => exact hold

theorem Charted.step (h : Charted config past n v) (hn : s.tasks[n]? = some t)
    (ho : t.nextOp = some o) (hexec : exec config n c s.shared o = some (sh, some reply)) :
    Charted config ((s, .run n c) :: past) n (noteCourse v c o reply) := by
  have hthwarts : Thwarts n s (.run n c) ↔ Fails o c := by
    simp only [Thwarts, true_and]
    refine ⟨?_, fun hf => ⟨t, o, hn, ho, hf⟩⟩
    rintro ⟨t', o', hn', ho', hf⟩
    obtain rfl := Option.some.inj (hn.symm.trans hn')
    obtain rfl := Option.some.inj (ho.symm.trans ho')
    exact hf
  by_cases hv : v.setback = true
  · rw [noteCourse_of_setback hv]
    exact h.passed fun _ => hv
  · by_cases hf : Fails o c
    · simpa [noteCourse, hv, hf] using h.thwarted (hthwarts.mpr hf)
    · have hnote : noteCourse v c o reply = noteOutcome v o reply := by simp [noteCourse, hv, hf]
      have hset : (noteOutcome v o reply).setback = v.setback := by
        unfold noteOutcome
        split <;> rfl
      rw [hnote]
      refine ⟨?_, noted_outcome h.noted hn ho hexec hf⟩
      rw [hset]
      exact (h.passed fun ht => absurd (hthwarts.mp ht) hf).setback

theorem courseAllows_of_step (hexec : exec config n c s.shared o = some (sh, some reply)) :
    courseAllows o c reply v := by
  cases o with
  | command cmd =>
    simp only [exec] at hexec
    split at hexec
    · simp at hexec
    · rename_i host r hrun
      obtain ⟨_, rfl⟩ := by simpa using hexec
      exact FreeSubnets.run_reply hrun
  | sdk id call =>
    cases call <;> exact (by simpa [exec] using hexec : _ ∧ c.succeeds = reply).2.symm
  | build id options => exact (by simpa [exec] using hexec : _ ∧ c.succeeds = reply).2.symm
  | describeInstance id =>
    obtain ⟨_, hreply⟩ := by simpa [exec] using hexec
    exact hreply.symm
  | _ => trivial

theorem subject_of_thwarts (h : Thwarts n s e) : e.subject = some n := by
  cases e with
  | run m c => exact congrArg some h.1
  | leave m ex =>
    cases ex with
    | dropped => exact h.elim
    | panicked => exact congrArg some h
  | request | callback => exact h.elim

theorem tracking_course : TaskTracking config lib (fun _ _ => True) course settles
    fun past n _ v => Charted config past n v where
  others past n t v s e hne h := h.passed fun ht => absurd (subject_of_thwarts ht) hne
  request past s r hnew := by
    refine ⟨{}, safe_course config r, ⟨?_, by simp, by simp, by simp, by simp, by simp⟩⟩
    refine iff_of_false (by simp) ?_
    rintro ⟨p, hp, ht⟩
    exact hnew p hp (subject_of_thwarts ht)
  callback past s n cb r self result l v _ hn h hends :=
    ⟨v, safe_unchanging hends _ v, h.passed fun ht => ht.elim⟩
  run past s n c r o may exit next l v sh reply _ _ hn hexec h _ _ :=
    ⟨courseAllows_of_step hexec, h.step hn rfl hexec⟩
  leave past s n e r o may exit next l v _ hn hmay h _ := by
    refine ⟨trivial, ?_⟩
    cases e with
    | dropped => exact h.passed fun ht => ht.elim
    | panicked => exact h.thwarted rfl

theorem tracking_idle : TaskTracking config lib (fun _ _ => True) unobserved (fun _ _ _ => True)
    fun past n t _ => handlerOf config t.request = .ret (.answered answer) →
      t.code = .ret (.answered answer) ∧ ∀ p ∈ past, p.2.subject ≠ some n where
  others past n t v s e hne h hret := by
    obtain ⟨hcode, hnothing⟩ := h hret
    exact ⟨hcode, List.forall_mem_cons.mpr ⟨hne, hnothing⟩⟩
  request past s r hnew := ⟨(), safe_unobserved _, fun hret => ⟨hret, hnew⟩⟩
  callback past s n cb r self result l v _ hn h _ :=
    ⟨(), safe_unobserved _, fun hret => by simpa using (h hret).1⟩
  run past s n c r o may exit next l v sh reply _ _ hn hexec h _ _ :=
    ⟨trivial, fun hret => by simpa using (h hret).1⟩
  leave past s n e r o may exit next l v _ hn hmay h _ :=
    ⟨trivial, fun hret => by simpa using (h hret).1⟩

/-- A task whose handler has nothing to do does nothing. -/
theorem nothing_performed (h : (server config lib).Run past s) (hn : s.tasks[n]? = some t)
    (hret : handlerOf config t.request = .ret (.answered answer)) :
    ∀ p ∈ past, p.2.subject ≠ some n := by
  obtain ⟨_, _, hidle⟩ := tracking_idle.view_of_run h (by simp [System.Meets]) hn
  exact (hidle hret).2

/-- Why a `create` or a `delete` is answered as it is. -/
inductive Justified (config : AppConfig) (past : History) (n : ℕ) : Request → Answer → Prop
  | invalid (body : Option CreateVmRequest) (e : ConfigError)
      (h : validateVmConfig (body.bind (·.vcpus)) (body.bind (·.memoryMb)) = .error e)
      (hnothing : ∀ p ∈ past, p.2.subject ≠ some n) :
      Justified config past n (.create body) (.failed (.unprocessable e.message))
  | setback (body : Option CreateVmRequest) (h : SetBack past n) :
      Justified config past n (.create body) (.failed .internalServerError)
  | full (body : Option CreateVmRequest) (a : State) (h : Performed past n .allocate a)
      (hfull : ∀ i : U16, i.toNat < maxSubnets → i ∈ a.shared.subnetPool.inUse)
      (hset : ¬ SetBack past n) :
      Justified config past n (.create body) (.failed (.conflict "No available network subnets"))
  | vcpus (body : Option CreateVmRequest) (a : State) (id : Uuid) (r : VmResources)
      (hsize : validateVmConfig (body.bind (·.vcpus)) (body.bind (·.memoryMb)) =
        .ok (r.vcpus, r.memoryMb)) (h : Performed past n (.vms (.reserve id r)) a)
      (hover : config.capacity.vcpus.toNat <
        total CapacitySafety.vcpus a.shared.vms + r.vcpus.toNat) (hset : ¬ SetBack past n) :
      Justified config past n (.create body) (.failed (.conflict
        ("Insufficient vCPUs: requested " ++ toString r.vcpus.toNat ++ " but only " ++
          toString (config.capacity.vcpus.toNat - total CapacitySafety.vcpus a.shared.vms) ++
          " available")))
  | memory (body : Option CreateVmRequest) (a : State) (id : Uuid) (r : VmResources)
      (hsize : validateVmConfig (body.bind (·.vcpus)) (body.bind (·.memoryMb)) =
        .ok (r.vcpus, r.memoryMb)) (h : Performed past n (.vms (.reserve id r)) a)
      (hover : config.capacity.allocatableMemoryMb.toNat <
        total memoryMb a.shared.vms + r.memoryMb.toNat) (hset : ¬ SetBack past n) :
      Justified config past n (.create body) (.failed (.conflict
        ("Insufficient memory: requested " ++ toString r.memoryMb.toNat ++ " MB but only " ++
          toString (config.capacity.allocatableMemoryMb.toNat - total memoryMb a.shared.vms) ++
          " MB available")))
  | created (body : Option CreateVmRequest) (id : Uuid) (vcpus : U8) (memoryMb : U32) (a b : State)
      (subnet : SubnetAllocation) (pool : SubnetPool) (c : Choice) (t : HandlerTask)
      (hsize : validateVmConfig (body.bind (·.vcpus)) (body.bind (·.memoryMb)) =
        .ok (vcpus, memoryMb)) (ha : Performed past n .allocate a)
      (hsubnet : a.shared.subnetPool.allocate = some (subnet, pool))
      (hb : (b, Event.run n c) ∈ past) (hn : b.tasks[n]? = some t)
      (hdescribe : t.nextOp = some (.describeInstance id)) (hset : ¬ SetBack past n) :
      Justified config past n (.create body) (.created ⟨id, vcpus, memoryMb, c.info.state,
        c.info.vmmVersion, subnet.guestIp.display⟩)
  | absent (id : Uuid) (a : State) (h : Performed past n (.vms (.take id)) a)
      (hl : a.shared.vms.lookup id = none) :
      Justified config past n (.delete id) (.failed (.notFound "VM not found"))
  | creating (id : Uuid) (a : State) (r : VmResources) (h : Performed past n (.vms (.take id)) a)
      (hl : a.shared.vms.lookup id = some (.creating r)) :
      Justified config past n (.delete id)
        (.failed (.conflict "VM is still being created, try again shortly"))
  | running (id : Uuid) (a : State) (r : VmResources) (h : Performed past n (.vms (.take id)) a)
      (hl : a.shared.vms.lookup id = some (.running r)) :
      Justified config past n (.delete id) (.deleted id)

theorem justified_of_refused (h : (server config lib).Run past s)
    {body : Option CreateVmRequest} {id : Uuid} {r : VmResources} {e : ApiError}
    (hsize : validateVmConfig (body.bind (·.vcpus)) (body.bind (·.memoryMb)) =
      .ok (r.vcpus, r.memoryMb)) {a : State} (ha : Performed past n (.vms (.reserve id r)) a)
    (he : (VmRegistry.reserve config.capacity id r a.shared.vms).2 = .error e)
    (hset : ¬ SetBack past n) : Justified config past n (.create body) (.failed e) := by
  have hw := withinCapacity_of_reachable (reachable_of_performed h ha)
  have hcpus := hw.allocatedVcpus_exact.2
  have hmemory := hw.allocatedMemory_exact
  simp only [VmRegistry.reserve] at he
  split at he
  · rename_i hlt
    obtain rfl := Except.error.inj he
    simp only [BitVec.lt_def, BitVec.toNat_setWidth, saturatingSub_toNat, hcpus] at hlt
    have hover : config.capacity.vcpus.toNat <
        total CapacitySafety.vcpus a.shared.vms + r.vcpus.toNat := by
      have := r.vcpus.isLt
      have := config.capacity.vcpus.isLt
      omega
    simpa only [saturatingSub_toNat, hcpus] using Justified.vcpus body a id r hsize ha hover hset
  · split at he
    · rename_i hlt
      obtain rfl := Except.error.inj he
      simp only [BitVec.lt_def, BitVec.toNat_setWidth, saturatingSub_toNat, hmemory] at hlt
      have hover : config.capacity.allocatableMemoryMb.toNat <
          total memoryMb a.shared.vms + r.memoryMb.toNat := by
        have := r.memoryMb.isLt
        omega
      simpa only [saturatingSub_toNat, hmemory] using
        Justified.memory body a id r hsize ha hover hset
    · simp at he

theorem justified_of_taken {id : Uuid} {a : State} {r : VmResources}
    (ha : Performed past n (.vms (.take id)) a) (ht : (VmRegistry.take id a.shared.vms).2 = .ok r) :
    Justified config past n (.delete id) (.deleted id) := by
  rcases hl : a.shared.vms.lookup id with _ | r' | r'
  · simp [VmRegistry.take, hl] at ht
  · simp [VmRegistry.take, hl] at ht
  · exact .running id a r' ha hl

theorem justified_of_kept {id : Uuid} {a : State} {e : ApiError}
    (ha : Performed past n (.vms (.take id)) a)
    (ht : (VmRegistry.take id a.shared.vms).2 = .error e) :
    Justified config past n (.delete id) (.failed e) := by
  rcases hl : a.shared.vms.lookup id with _ | r | r
  · obtain rfl : ApiError.notFound "VM not found" = e := by simpa [VmRegistry.take, hl] using ht
    exact .absent id a ha hl
  · obtain rfl : ApiError.conflict "VM is still being created, try again shortly" = e := by
      simpa [VmRegistry.take, hl] using ht
    exact .creating id a r ha hl
  · simp [VmRegistry.take, hl] at ht

/-- Every answer of `create` and `delete` is justified. -/
theorem answers_justified (h : (server config lib).Run past s) (hn : s.tasks[n]? = some t)
    (hchanges : Changes t.request) (hret : t.code = .ret (.answered answer)) :
    Justified config past n t.request answer := by
  obtain ⟨v, hsafe, hcharted⟩ := tracking_course.view_of_run h (by simp [System.Meets]) hn
  have hsettles : Settles t.request answer v := by
    rw [hret] at hsafe
    exact hsafe hchanges
  have hnoted := hcharted.noted
  have hset (hv : v.setback = false) : ¬ SetBack past n := fun hs => by
    simp [hcharted.setback.mpr hs] at hv
  cases hr : t.request with
  | get | list | ready | session =>
    rw [hr] at hchanges
    exact hchanges.elim
  | delete id =>
    rw [hr] at hsettles
    cases hsettles with
    | taken _ r _ ht =>
      obtain ⟨a, ha, ht⟩ := hnoted.taken id _ ht
      exact justified_of_taken ha ht
    | kept _ e _ ht =>
      obtain ⟨a, ha, ht⟩ := hnoted.taken id _ ht
      exact justified_of_kept ha ht
  | create body =>
    rw [hr] at hsettles
    cases hsettles with
    | invalid _ e _ he =>
      have hidle : handlerOf config t.request =
          .ret (.answered (.failed (.unprocessable e.message))) := by
        rw [hr]
        simp [handlerOf, answering, create, he]
      exact .invalid body e he (nothing_performed h hn hidle)
    | setback _ _ hs => exact .setback body (hcharted.setback.mp hs)
    | full _ _ hfull hv =>
      obtain ⟨a, ha, hnone⟩ := hnoted.full hfull
      exact .full body a ha (SubnetPool.allocate_eq_none.mp hnone) (hset hv)
    | refused _ id r e _ hsize hrefused hv =>
      obtain ⟨a, ha, he⟩ := hnoted.refused id r e hrefused
      exact justified_of_refused h hsize ha he (hset hv)
    | created _ id vcpus memoryMb subnet desc _ hsize hid hsubnet hdesc hv =>
      obtain ⟨a, pool, ha, hpool⟩ := hnoted.subnet subnet hsubnet
      obtain ⟨b, c, u, hb, hu, hop, rfl⟩ := hnoted.desc id desc hdesc
      exact .created body id vcpus memoryMb a b subnet pool c u hsize ha hpool hb hu hop (hset hv)

/-- What a `create` without a body has answered in task `n`. -/
def creationOf (s : State) (n : ℕ) : Option Answer :=
  match s.tasks[n]? with
  | some ⟨.create none, .ret (.answered answer), _⟩ => some answer
  | _ => none

theorem task_of_creation (h : creationOf s n = some answer) :
    ∃ l, s.tasks[n]? = some ⟨.create none, .ret (.answered answer), l⟩ := by
  unfold creationOf at h
  split at h
  · rename_i answer' l hn
    exact ⟨l, Option.some.inj h ▸ hn⟩
  · simp at h

/-- While a `create` sets up a VM with all the vCPUs of the host, another one asks for one. -/
def asksForMore : List Event :=
  .request (.create (some ⟨some 8, none, []⟩)) :: reserving 0 1 ++ runs 0 1 ++
    .request (.create none) :: .run 1 { id := 2 } :: runs 1 9 ++
    List.replicate 2 (.run 1 { handle := 2, stdout := "# handle 2\n".toList }) ++ runs 1 11

theorem answers_justified_asksForMore : Justified sampleConfig
    (sampleServer.historyOf asksForMore) 1 (.create none)
    (.failed (.conflict "Insufficient vCPUs: requested 1 but only 0 available")) := by
  have hrun : sampleServer.Run (sampleServer.historyOf asksForMore)
      (sampleServer.endOf asksForMore) := System.run_follow asksForMore
  have hanswer : creationOf (sampleServer.endOf asksForMore) 1 =
      some (.failed (.conflict "Insufficient vCPUs: requested 1 but only 0 available")) := by
    decide +kernel
  obtain ⟨l, hn⟩ := task_of_creation hanswer
  exact answers_justified hrun hn trivial rfl

end Histories

end Warlock.AnswerCauses
