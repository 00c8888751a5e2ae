import Warlock.VmLifecycle

/-!
# What the gateway is told of the VMs

A `create` that has made its VM running registers it with the gateway, and a `delete` that has
taken a VM out deregisters it. Whatever is interleaved, fails or is dropped, nothing else is
reported, nothing twice, and nothing before it has happened.
-/

namespace Warlock.GatewayReports
open ApplicationState EffectPrograms HostNetworking LedgerHistories Ledgers MachineIntegers
  QuietHandlers RequestCharters ReservationDiscipline ReservationProtocol Server ServerInvariant
  ServerOperations SshSession TaskViews TransitionSystems VmConfiguration VmHandlers VmIdentifiers
  VmLifecycle

inductive Report
  | registerVm (id : Uuid) (vcpus : U8) (memoryMb : U32)
  | deregisterVm (id : Uuid)
  deriving DecidableEq

def Report.op : Report → Op
  | .registerVm id vcpus memoryMb => .registerVm id vcpus memoryMb
  | .deregisterVm id => .deregisterVm id

def asReport : Op → Option Report
  | .registerVm id vcpus memoryMb => some (.registerVm id vcpus memoryMb)
  | .deregisterVm id => some (.deregisterVm id)
  | _ => none

/-- The VM that is registered, or deregistered. -/
def Report.subject : Report → Uuid ⊕ Uuid
  | .registerVm id _ _ => .inl id
  | .deregisterVm id => .inr id

theorem asReport_eq_some {o : Op} {r : Report} : asReport o = some r ↔ o = r.op := by
  constructor
  · intro h
    cases o with
    | registerVm | deregisterVm =>
      obtain rfl := Option.some.inj h
      rfl
    | _ => simp [asReport] at h
  · rintro rfl
    cases r <;> rfl

/-- The VM has the size that the request asks for. -/
def Asks (request : Request) (vcpus : U8) (memoryMb : U32) : Prop :=
  ∃ body, request = .create body ∧
    validateVmConfig (body.bind (·.vcpus)) (body.bind (·.memoryMb)) = .ok (vcpus, memoryMb)

/-- What a task has to report. -/
inductive Duty
  | idle
  | made (id : Uuid)
  | took (id : Uuid)
  | told (r : Report)

def tellRequires (config : AppConfig) (request : Request) : Op → Duty → Prop
  | .vms (.upgrade _), v => v = .idle
  | .vms (.take id), v => v = .idle ∧ request = .delete id
  | .registerVm id vcpus memoryMb, v =>
    config.gatewayClient.isSome = true ∧ v = .made id ∧ Asks request vcpus memoryMb
  | .deregisterVm id, v => config.gatewayClient.isSome = true ∧ v = .took id
  | _, _ => True

def tellAllows : (o : Op) → Reply o → Prop
  | .vms (.upgrade _), moved => moved = true
  | _, _ => True

def noteDuty : (o : Op) → Reply o → Duty → Duty
  | .vms (.upgrade id), _, _ => .made id
  | .vms (.take id), .ok _, _ => .took id
  | .registerVm id vcpus memoryMb, _, _ => .told (.registerVm id vcpus memoryMb)
  | .deregisterVm id, _, _ => .told (.deregisterVm id)
  | _, _, v => v

def telling (config : AppConfig) (request : Request) : Discipline Reply Choice Duty where
  requires := tellRequires config request
  allows o _ r _ := tellAllows o r
  note o _ r v := noteDuty o r v
  considers _ _ _ := True
  leave _ v := v

/-- An answer that a VM is there, or is gone, has been reported to the gateway, if there is one. -/
def toldEnds (config : AppConfig) : Request → Outcome → Duty → Prop
  | .create _, .answered (.created answer), v => config.gatewayClient.isSome = true →
      v = .told (.registerVm answer.id answer.vcpus answer.memoryMb)
  | .delete id, .answered (.deleted _), v => config.gatewayClient.isSome = true →
      v = .told (.deregisterVm id)
  | request, .session _ _, _ => request = .session
  | _, _, _ => True

variable {config : AppConfig} {lib : Libraries} {request : Request} {v : Duty} {α : Type}

section Handlers

theorem quiet_telling : Quiet (telling config request) v where
  inert o ho := by
    cases o with
    | vms s => cases s <;> first | exact ho.elim | exact ⟨trivial, fun _ _ _ => rfl⟩
    | registerVm | deregisterVm | newV4 | dropLocals => exact ho.elim
    | _ => exact ⟨trivial, fun _ _ _ => rfl⟩
  stays _ _ _ := rfl

theorem lockBlind_telling : LockBlind (telling config request) where
  lock _ _ := quiet_telling.inert _ trivial
  resume _ := quiet_telling.inert _ trivial
  unlock _ _ := quiet_telling.inert _ trivial
  stays _ := quiet_telling.stays

/-- A part of a handler that reports nothing. -/
theorem passes {x : Async α} {post : α → Duty → Prop} (h : x.Keeps (telling config request) v)
    (hp : ∀ a, post a v) : x.Ensures (telling config request) post (fun _ => True) v :=
  h.mono (fun a _ hw => hw ▸ hp a) fun _ _ => trivial

private theorem command (cmd : Command) :
    Upholds (telling config request) (· = v) (.command cmd) := (quiet_telling.command cmd).upholds

theorem tells_reportCreated {vmId : Uuid} {vcpus : U8} {memoryMb : U32}
    (h : Asks request vcpus memoryMb) :
    (reportCreated config vmId vcpus memoryMb).Ensures (telling config request)
      (fun _ w => config.gatewayClient.isSome = true → w = .told (.registerVm vmId vcpus memoryMb))
      (fun _ => True) (.made vmId) := by
  unfold reportCreated
  split
  · rename_i hclient
    refine Handler.Ensures.bind (Handler.ensures_await ⟨hclient, rfl, h⟩ (fun _ _ _ => ?_)
      fun _ => trivial)
    exact Handler.ensures_pure fun _ => rfl
  · rename_i hnone
    exact Handler.ensures_pure fun h => absurd h hnone

theorem tells_launch {vmId : Uuid} {vcpus : U8} {memoryMb : U32} {kernel vmRootfs path : String}
    {subnet : SubnetAddressing.SubnetAllocation} :
    (launch config vmId vcpus memoryMb kernel vmRootfs subnet path).Ensures (telling config request)
      (fun launched w => launched = none ∨ ∃ desc, launched = some (desc, true) ∧ w = .made vmId)
      (fun _ => True) .idle := by
  refine Handler.Ensures.bind (passes (keeps_setupFirecrackerInstance quiet_telling.calm.watchful
    (fun _ _ _ => quiet_telling.inert _ trivial) (fun _ _ => quiet_telling.inert _ trivial)
    (quiet_telling.inert _ trivial)) fun desc => ?_)
  cases desc with
  | none =>
    refine Handler.Ensures.bind (passes (keeps_cleanupPlaceholder quiet_telling.calm) fun _ => ?_)
    exact Handler.ensures_pure (.inl rfl)
  | some desc =>
    have hdrop (w : Duty) : (Code.perform (.dropInstance vmId)).Safe (telling config request)
        (fun _ _ => True) w := ⟨trivial, fun _ _ _ => trivial⟩
    refine Handler.Ensures.bind (Handler.Ensures.guarded (ensures_withLock lockBlind_telling ?_
      fun _ => hdrop .idle))
    refine ensures_inSection (.upgrade vmId) rfl fun _ moved hmoved => ?_
    obtain rfl : moved = true := hmoved
    exact Handler.ensures_pure (.inr ⟨desc, rfl, rfl⟩)

theorem safe_guardDrop {vmId : Uuid} :
    (createGuardDrop vmId).Safe (telling config request) (fun _ _ => True) v :=
  ((steady_createGuardDrop quiet_telling.calm ⟨trivial, fun _ _ _ => rfl⟩).safe rfl).mono
    fun _ _ _ => trivial

theorem tells_create (body : Option CreateVmRequest) :
    (create config body).Ensures (telling config (.create body))
      (fun a => toldEnds config (.create body) (.answered a)) (fun _ => True) .idle := by
  have hfailed (e : ApiError) {w : Duty} :
      (pure (.failed e) : Async Answer).Ensures (telling config (.create body))
        (fun a => toldEnds config (.create body) (.answered a)) (fun _ => True) w :=
    Handler.ensures_pure trivial
  unfold create
  cases hsize : validateVmConfig (body.bind (·.vcpus)) (body.bind (·.memoryMb)) with
  | error e => exact hfailed _
  | ok size =>
    obtain ⟨vcpus, memoryMb⟩ := size
    have hasks : Asks (.create body) vcpus memoryMb := ⟨body, rfl, hsize⟩
    refine Handler.Ensures.bind (Handler.ensures_perform trivial fun _ vmId _ => ?_)
    refine Handler.Ensures.bind (passes (Handler.keeps_offload (steady_copyRootfs
      fun cmd _ => command cmd) quiet_telling.stays) fun copied => ?_)
    rcases copied with _ | _ | _
    · exact hfailed _
    · exact hfailed _
    have hallocate : Inert (telling config (.create body)) .idle .allocate :=
      quiet_telling.inert _ trivial
    refine Handler.Ensures.bind (passes (keeps_withLock quiet_telling.calm.watchful
      (Handler.keeps_perform hallocate)) fun subnet => ?_)
    cases subnet with
    | none => exact hfailed _
    | some subnet =>
    refine Handler.Ensures.bind (passes (Handler.keeps_offload (steady_setupNetworking
      (fun cmd _ => command cmd) fun cmd _ => command cmd) quiet_telling.stays) fun handles => ?_)
    rcases handles with _ | _ | handles
    · have hdrop : Inert (telling config (.create body)) .idle .dropLocals :=
        ⟨trivial, fun _ _ _ => rfl⟩
      exact Handler.Ensures.bind (passes (Handler.keeps_perform hdrop) fun _ => hfailed _)
    · exact Handler.Ensures.bind (passes (keeps_releaseSubnet quiet_telling.calm) fun _ =>
        hfailed _)
    refine Handler.Ensures.bind (passes (keeps_reservePlaceholder quiet_telling.calm)
      fun reserved => ?_)
    cases reserved with
    | error e => exact hfailed _
    | ok _ =>
    refine Handler.Ensures.bind (Handler.Ensures.guarded (tells_launch.mono
      (fun launched w hw => ?_) fun w _ => safe_guardDrop))
    rcases hw with rfl | ⟨desc, rfl, rfl⟩
    · exact hfailed _
    · refine Handler.Ensures.bind ((tells_reportCreated hasks).mono (fun _ w hw => ?_)
        fun _ hw => hw)
      exact Handler.ensures_pure hw

theorem tells_delete (id : Uuid) :
    (delete config id).Ensures (telling config (.delete id))
      (fun a => toldEnds config (.delete id) (.answered a)) (fun _ => True) .idle := by
  refine ensures_withLock lockBlind_telling ?_ fun _ => trivial
  refine Handler.Ensures.bind (ensures_inSection (.take id) ⟨rfl, rfl⟩ fun _ taken _ => ?_)
  cases taken with
  | error e => exact Handler.ensures_pure trivial
  | ok r =>
    refine Handler.Ensures.bind (passes quiet_telling.calm.stopInstance fun _ => ?_)
    refine Handler.Ensures.bind (passes (keeps_freeResources quiet_telling.calm) fun _ => ?_)
    split
    · rename_i hclient
      refine Handler.Ensures.bind (Handler.ensures_await ⟨hclient, rfl⟩ (fun _ _ _ => ?_)
        fun _ => trivial)
      exact Handler.ensures_pure fun _ => rfl
    · rename_i hnone
      exact Handler.ensures_pure fun h => absurd h hnone

theorem safe_telling (config : AppConfig) (request : Request) :
    (handlerOf config request).Safe (telling config request) (toldEnds config request) .idle := by
  cases request with
  | create body =>
    exact safe_answering ((tells_create body).mono (fun _ _ hw => hw) fun _ _ => trivial)
  | delete id =>
    exact safe_answering ((tells_delete id).mono (fun _ _ hw => hw) fun _ _ => trivial)
  | get id =>
    exact safe_answering ((passes (keeps_get quiet_telling.calm.watchful id) fun _ => trivial).mono
      (fun _ _ hw => hw) fun _ _ => trivial)
  | list =>
    exact safe_answering ((passes (keeps_list quiet_telling.calm.watchful) fun _ => trivial).mono
      (fun _ _ hw => hw) fun _ _ => trivial)
  | ready =>
    exact safe_answering ((passes (keeps_ready quiet_telling.calm.watchful) fun _ => trivial).mono
      (fun _ _ hw => hw) fun _ _ => trivial)
  | session => rfl

end Handlers

section Histories

variable {past : History} {s : State} {n k : ℕ} {t : HandlerTask} {id : Uuid} {r : VmResources}

theorem Performed.mono {past' : History} {o : Op} {a : State} (h : Performed past n o a)
    (hsub : past ⊆ past') : Performed past' n o a := by
  obtain ⟨c, t, hp, ht⟩ := h
  exact ⟨c, t, hsub hp, ht⟩

/-- A placeholder that has been made running is none any more. -/
theorem outlives_of_published (h : (server config lib).Run past s) (hp : Published past n id r) :
    Outlives (.running r) (s.shared.vms.lookup id) := by
  obtain ⟨a, c, u, a', hmem, hu, ho, he, hl, hl'⟩ := becameRunning_of_published h hp
  obtain ⟨_, _, a'', _, hbefore, hstep, hafter⟩ := System.Path.split h hmem
  obtain rfl := Option.some.inj (he.symm.trans hstep)
  have ha := sound_of_reachable (System.Reachable.step ⟨_, hbefore⟩ hstep)
  exact outlives_of_path ha hafter hl'

theorem published_unique (h : (server config lib).Run past s) {r' : VmResources}
    (hn : Published past n id r) (hk : Published past k id r') : n = k := by
  induction h with
  | refl =>
    obtain ⟨_, ⟨_, _, hp, _⟩, _⟩ := hn
    simp at hp
  | @step past a b e h he ih =>
    have hlate {m : ℕ} {q q' : VmResources} (hold : Published past m id q)
        (hl : a.shared.vms.lookup id = some (.creating q')) : False := by
      have houtlives := outlives_of_published h hold
      rw [hl] at houtlives
      cases houtlives
    obtain ⟨a₁, ⟨c₁, u₁, hp₁, hu₁⟩, hl₁⟩ := hn
    obtain ⟨a₂, ⟨c₂, u₂, hp₂, hu₂⟩, hl₂⟩ := hk
    rcases List.mem_cons.mp hp₁ with heq₁ | hp₁
    · obtain ⟨rfl, rfl⟩ := Prod.mk.inj heq₁
      rcases List.mem_cons.mp hp₂ with heq₂ | hp₂
      · obtain ⟨_, heq⟩ := Prod.mk.inj heq₂
        exact (Event.run.inj heq).1.symm
      · exact (hlate ⟨a₂, ⟨c₂, u₂, hp₂, hu₂⟩, hl₂⟩ hl₁).elim
    · have hold : Published past n id r := ⟨a₁, ⟨c₁, u₁, hp₁, hu₁⟩, hl₁⟩
      rcases List.mem_cons.mp hp₂ with heq₂ | hp₂
      · obtain ⟨rfl, rfl⟩ := Prod.mk.inj heq₂
        exact (hlate hold hl₂).elim
      · exact ih hold ⟨a₂, ⟨c₂, u₂, hp₂, hu₂⟩, hl₂⟩

/-- What a task has to report has happened, and it has reported nothing before. -/
structure Tells (past : History) (n : ℕ) (v : Duty) : Prop where
  silent : (∀ r, v ≠ .told r) → ∀ a (r : Report), ¬ Performed past n r.op a
  told : ∀ r, v = .told r → ∃ a, Performed past n r.op a
  made : ∀ id, v = .made id → ∃ r, Published past n id r
  took : ∀ id, v = .took id → Took past n id

theorem Tells.tail {p : State × Event} (h : Tells past n v)
    (hp : ∀ a (r : Report), Performed (p :: past) n r.op a → Performed past n r.op a) :
    Tells (p :: past) n v where
  silent hv a r hr := h.silent hv a r (hp a r hr)
  told r hr := by
    obtain ⟨a, ha⟩ := h.told r hr
    exact ⟨a, ha.tail p⟩
  made id hv := by
    obtain ⟨r, hr⟩ := h.made id hv
    exact ⟨r, hr.tail p⟩
  took id hv := (h.took id hv).tail p

theorem Tells.other {e : Event} (h : Tells past n v) (he : e.subject ≠ some n) :
    Tells ((s, e) :: past) n v := by
  refine h.tail fun a r hr => ?_
  obtain ⟨c, t, hmem, ht⟩ := hr
  rcases List.mem_cons.mp hmem with heq | hmem
  · obtain ⟨rfl, rfl⟩ := Prod.mk.inj heq
    exact absurd rfl he
  · exact ⟨c, t, hmem, ht⟩

theorem performed_of_quiet {c : Choice} {o o' : Op} {a : State} (hn : s.tasks[n]? = some t)
    (ho : t.nextOp = some o) (hne : o ≠ o') (h : Performed ((s, .run n c) :: past) n o' a) :
    Performed past n o' a := by
  obtain ⟨c', u, hmem, hu, ho'⟩ := h
  rcases List.mem_cons.mp hmem with heq | hmem
  · obtain ⟨rfl, _⟩ := Prod.mk.inj heq
    obtain rfl := Option.some.inj (hn.symm.trans hu)
    exact absurd (Option.some.inj (ho.symm.trans ho')) hne
  · exact ⟨c', u, hmem, hu, ho'⟩

theorem Tells.step {c : Choice} {o : Op} {sh : Shared} {reply : Reply o} (h : Tells past n v)
    (hs : Sound config s) (hn : s.tasks[n]? = some t) (ho : t.nextOp = some o)
    (hexec : exec config n c s.shared o = some (sh, some reply))
    (hreq : tellRequires config t.request o v) :
    Tells ((s, .run n c) :: past) n (noteDuty o reply v) := by
  have hquiet (hne : ∀ r : Report, o ≠ r.op) : Tells ((s, .run n c) :: past) n v :=
    h.tail fun a r hr => performed_of_quiet hn ho (hne r) hr
  have htold (r : Report) (hr : o = r.op) : Tells ((s, .run n c) :: past) n (.told r) := by
    refine ⟨fun hv => absurd rfl (hv r), fun r' hr' => ?_, by simp, by simp⟩
    obtain rfl := Duty.told.inj hr'
    exact ⟨s, .now hn (hr ▸ ho)⟩
  have hne (hnone : asReport o = none) (r : Report) : o ≠ r.op := by
    intro hr
    simp [asReport_eq_some.mpr hr] at hnone
  cases o with
  | registerVm id vcpus memoryMb => exact htold (.registerVm id vcpus memoryMb) rfl
  | deregisterVm id => exact htold (.deregisterVm id) rfl
  | vms sec =>
    have hstill := hquiet (hne rfl)
    cases sec with
    | upgrade id =>
      obtain rfl : v = .idle := hreq
      refine ⟨fun _ => hstill.silent (by simp), by simp [noteDuty], fun id' hid' => ?_,
        by simp [noteDuty]⟩
      obtain rfl := Duty.made.inj hid'
      obtain ⟨_, hid, ⟨r, hst⟩, _⟩ := requires_of_nextOp hs hn ho
      have hplaced := hs.protocol.placed n _ id (siteOf_task hn) hid
      rw [hst] at hplaced
      exact ⟨r, s, .now hn ho, hplaced⟩
    | take id =>
      obtain ⟨rfl, _⟩ := hreq
      cases reply with
      | error e => exact hstill
      | ok r =>
        refine ⟨fun _ => hstill.silent (by simp), by simp [noteDuty], by simp [noteDuty],
          fun id' hid' => ?_⟩
        obtain rfl := Duty.took.inj hid'
        have hcharter : charterRequires (.delete id) (.vms (.take id)) false := ⟨rfl, rfl⟩
        obtain ⟨r', _, hl⟩ := took_of_note hexec hcharter rfl
        exact ⟨s, r', .now hn ho, hl⟩
    | _ => exact hstill
  | _ => exact hquiet (hne rfl)

theorem tracking_telling : TaskTracking config lib (fun _ _ => True) (telling config)
    (toldEnds config) fun past n _ v => Tells past n v where
  others past n t v s e he h := h.other he
  request past s r hnew := by
    refine ⟨.idle, safe_telling config r, ⟨fun _ a r hr => ?_, by simp, by simp, by simp⟩⟩
    obtain ⟨c, t, hmem, _⟩ := hr
    exact hnew _ hmem rfl
  callback past s n cb r self result l v _ hn h hends := by
    refine ⟨v, safe_calledBack ((passes (keeps_callbackCode quiet_telling.calm.watchful cb)
      fun _ => ?_).mono (fun _ _ hw => hw) fun _ _ => ?_), h.tail fun a r hr => ?_⟩
    · cases r <;> exact hends
    · cases r <;> trivial
    · obtain ⟨c, t, hmem, ht⟩ := hr
      rcases List.mem_cons.mp hmem with heq | hmem
      · simp at heq
      · exact ⟨c, t, hmem, ht⟩
  run past s n c r o may exit next l v sh reply hrun _ hn hexec h hreq hallow := by
    refine ⟨?_, h.step (sound_of_reachable (System.Run.reachable hrun)) hn rfl hexec hreq⟩
    cases o with
    | vms sec => cases sec <;> first | exact hallow | trivial
    | _ => trivial
  leave past s n e r o may exit next l v _ hn _ h _ := by
    refine ⟨trivial, h.tail fun a r hr => ?_⟩
    obtain ⟨c, t, hmem, ht⟩ := hr
    rcases List.mem_cons.mp hmem with heq | hmem
    · simp at heq
    · exact ⟨c, t, hmem, ht⟩

/-- What a report says has happened, in the same task. -/
def Founded (past : History) (n : ℕ) (request : Request) : Report → Prop
  | .registerVm id vcpus memoryMb => (∃ r, Published past n id r) ∧ Asks request vcpus memoryMb
  | .deregisterVm id => Took past n id

theorem Founded.mono {past' : History} {report : Report} (h : Founded past n request report)
    (hsub : past ⊆ past') : Founded past' n request report := by
  cases report with
  | registerVm id vcpus memoryMb =>
    obtain ⟨⟨r, a, hp, hl⟩, hasks⟩ := h
    exact ⟨⟨r, a, Performed.mono hp hsub, hl⟩, hasks⟩
  | deregisterVm id =>
    obtain ⟨a, r, hp, hl⟩ := h
    exact ⟨a, r, Performed.mono hp hsub, hl⟩

/-- A VM is reported by one task only. -/
theorem founded_unique (h : (server config lib).Run past s) {request' : Request}
    {report report' : Report} (hn : Founded past n request report)
    (hk : Founded past k request' report') (hsame : report.subject = report'.subject) : n = k := by
  cases report with
  | registerVm id vcpus memoryMb =>
    cases report' with
    | registerVm id' vcpus' memoryMb' =>
      obtain rfl : id = id' := Sum.inl.inj hsame
      obtain ⟨⟨r, hr⟩, _⟩ := hn
      obtain ⟨⟨r', hr'⟩, _⟩ := hk
      exact published_unique h hr hr'
    | deregisterVm id' => simp [Report.subject] at hsame
  | deregisterVm id =>
    cases report' with
    | registerVm id' vcpus' memoryMb' => simp [Report.subject] at hsame
    | deregisterVm id' =>
      obtain rfl : id = id' := Sum.inr.inj hsame
      exact took_unique h hn hk

/-- Who is about to report has something to report, and has reported nothing before. -/
theorem founded_of_next (h : (server config lib).Run past s) (hn : s.tasks[n]? = some t)
    {report : Report} (ho : t.nextOp = some report.op) :
    config.gatewayClient.isSome = true ∧ Founded past n t.request report ∧
      ∀ a (r : Report), ¬ Performed past n r.op a := by
  have hm : System.Meets (fun (_ : State) (_ : Event) => True) past := fun _ _ => trivial
  obtain ⟨v, hsafe, htells⟩ := tracking_telling.view_of_run h hm hn
  have hreq : tellRequires config t.request report.op v := requires_of_safe hsafe ho
  cases report with
  | registerVm id vcpus memoryMb =>
    obtain ⟨hclient, rfl, hasks⟩ := hreq
    exact ⟨hclient, ⟨htells.made id rfl, hasks⟩, htells.silent (by simp)⟩
  | deregisterVm id =>
    obtain ⟨hclient, rfl⟩ := hreq
    exact ⟨hclient, htells.took id rfl, htells.silent (by simp)⟩

/-- What a step reports. -/
def reportOf (p : State × Event) : Option Report :=
  match p.2 with
  | .run n _ => (p.1.tasks[n]?).bind fun t => t.nextOp.bind asReport
  | _ => none

/-- The reports to the gateway, newest first. -/
def reports (past : History) : List Report := past.filterMap reportOf

theorem reportOf_eq_some {p : State × Event} {report : Report} : reportOf p = some report ↔
    ∃ n c t, p = (p.1, .run n c) ∧ p.1.tasks[n]? = some t ∧ t.nextOp = some report.op := by
  obtain ⟨a, e⟩ := p
  cases e with
  | run n c =>
    simp only [reportOf, Option.bind_eq_some_iff, asReport_eq_some]
    constructor
    · rintro ⟨t, ht, o, ho, rfl⟩
      exact ⟨n, c, t, rfl, ht, ho⟩
    · rintro ⟨n', c', t, heq, ht, ho⟩
      obtain ⟨rfl, rfl⟩ : n = n' ∧ c = c' := by simpa using heq
      exact ⟨t, ht, _, ho, rfl⟩
  | _ => simp [reportOf]

theorem mem_reports {report : Report} :
    report ∈ reports past ↔ ∃ n a, Performed past n report.op a := by
  simp only [reports, List.mem_filterMap, reportOf_eq_some]
  constructor
  · rintro ⟨p, hp, n, c, t, heq, ht, ho⟩
    rw [heq] at hp
    exact ⟨n, p.1, c, t, hp, ht, ho⟩
  · rintro ⟨n, a, c, t, hp, ht, ho⟩
    exact ⟨_, hp, n, c, t, rfl, ht, ho⟩

theorem founded_of_performed (h : (server config lib).Run past s) {report : Report} {a : State}
    (hp : Performed past n report.op a) :
    ∃ request, config.gatewayClient.isSome = true ∧ Founded past n request report := by
  obtain ⟨c, t, hmem, ht, ho⟩ := hp
  obtain ⟨after, before, _, rfl, hbefore, _⟩ := System.Path.split h hmem
  obtain ⟨hclient, hfounded, _⟩ := founded_of_next hbefore ht ho
  have hsub : before ⊆ after ++ (a, Event.run n c) :: before := fun x hx =>
    List.mem_append_right _ (.tail _ hx)
  exact ⟨t.request, hclient, hfounded.mono hsub⟩

theorem reports_nodup (h : (server config lib).Run past s) :
    ((reports past).map Report.subject).Nodup := by
  induction h with
  | refl => simp [reports]
  | @step past a b e h he ih =>
    cases hreport : reportOf (a, e) with
    | none => rwa [reports, List.filterMap_cons_none hreport]
    | some report =>
      rw [reports, List.filterMap_cons_some hreport, List.map_cons, List.nodup_cons]
      refine ⟨fun hmem => ?_, ih⟩
      obtain ⟨report', hmem, hsame⟩ := List.mem_map.mp hmem
      obtain ⟨k, a', hk⟩ := mem_reports.mp hmem
      obtain ⟨n, c, t, _, hn, ho⟩ := reportOf_eq_some.mp hreport
      obtain ⟨_, hfounded, hsilent⟩ := founded_of_next h hn ho
      obtain ⟨request', _, hfounded'⟩ := founded_of_performed h hk
      obtain rfl := founded_unique h hfounded hfounded' hsame.symm
      exact hsilent a' report' hk

/-- What the gateway is told over a run. -/
structure Reported (config : AppConfig) (past : History) (s : State) : Prop where
  client : reports past ≠ [] → config.gatewayClient.isSome = true
  once : ((reports past).map Report.subject).Nodup
  founded : ∀ after before a n c t report, past = after ++ (a, Event.run n c) :: before →
    a.tasks[n]? = some t → t.nextOp = some report.op → Founded before n t.request report
  created : config.gatewayClient.isSome = true → ∀ (n : ℕ) (t : HandlerTask) answer,
    s.tasks[n]? = some t → t.code = .ret (.answered (.created answer)) →
      .registerVm answer.id answer.vcpus answer.memoryMb ∈ reports past
  deleted : config.gatewayClient.isSome = true → ∀ (n : ℕ) (t : HandlerTask) id id',
    s.tasks[n]? = some t → t.request = .delete id → t.code = .ret (.answered (.deleted id')) →
      .deregisterVm id ∈ reports past

/-- The gateway is told of each VM that has been answered for, once each way, and of nothing that
has not happened. -/
theorem gateway_reports (h : (server config lib).Run past s) : Reported config past s := by
  have hm : System.Meets (fun (_ : State) (_ : Event) => True) past := fun _ _ => trivial
  refine ⟨fun hne => ?_, reports_nodup h, fun after before a n c t report heq hn ho => ?_,
    fun hclient n t answer hn hcode => ?_, fun hclient n t id id' hn hreq hcode => ?_⟩
  · obtain ⟨report, hmem⟩ := List.exists_mem_of_ne_nil _ hne
    obtain ⟨n, a, hp⟩ := mem_reports.mp hmem
    obtain ⟨_, hclient, _⟩ := founded_of_performed h hp
    exact hclient
  · subst heq
    obtain ⟨a', hbefore, hlater⟩ := System.Path.of_append h
    cases hbefore with
    | step hbefore _ => exact (founded_of_next hbefore hn ho).2.1
  · obtain ⟨v, hsafe, htells⟩ := tracking_telling.view_of_run h hm hn
    have hfinal := (sound_of_reachable (System.Run.reachable h)).code n t hn
    rw [hcode] at hsafe hfinal
    obtain ⟨_, _, body, r, hreq, _⟩ := hfinal
    rw [hreq] at hsafe
    obtain ⟨a, ha⟩ := htells.told _ (hsafe hclient)
    exact mem_reports.mpr ⟨n, a, ha⟩
  · obtain ⟨v, hsafe, htells⟩ := tracking_telling.view_of_run h hm hn
    rw [hcode, hreq] at hsafe
    obtain ⟨a, ha⟩ := htells.told _ (hsafe hclient)
    exact mem_reports.mpr ⟨n, a, ha⟩

/-- A VM is deleted before its `create` has registered it. -/
def reportedLate : List Event := sampleCreate ++ .request (.delete 1) :: runs 1 15 ++ runs 0 1

theorem gateway_reports_late : reports (sampleServer.historyOf reportedLate) =
      [.registerVm 1 1 128, .deregisterVm 1] ∧
    Reported sampleConfig (sampleServer.historyOf reportedLate) (sampleServer.endOf reportedLate) :=
  ⟨by decide +kernel, gateway_reports (System.run_follow reportedLate)⟩

end Histories

end Warlock.GatewayReports
