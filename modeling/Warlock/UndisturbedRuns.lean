import Warlock.QuietHandlers
import Warlock.TaskViews

/-!
# Runs in which nobody leaves

In a run in which no handler panics or is dropped and no blocking networking task panics, a task
never gives anything up, every `create` that has published its VM reports it before it ends, and
every `delete` that has taken a VM out reports that.
-/

namespace Warlock.UndisturbedRuns
open ApplicationState EffectPrograms HostNetworking Ledgers MachineIntegers QuietHandlers
  ReservationProtocol Server ServerInvariant ServerOperations SshSession SubnetAddressing
  TaskViews TransitionSystems VmConfiguration VmHandlers VmIdentifiers

/-- No handler panics or is dropped; a blocking task that it awaits may panic. -/
def Undropped (_ : State) : Event → Prop
  | .leave _ .dropped => False
  | _ => True

instance (s : State) : (e : Event) → Decidable (Undropped s e)
  | .leave _ .dropped => isFalse id
  | .leave _ .panicked | .request _ | .callback _ _ | .run _ _ => isTrue trivial

/-- The commands of a networking task. -/
def networks : Op → Bool
  | .command (.cp _ _ _) | .command (.chown _ _ _) => false
  | .command _ => true
  | _ => false

/-- No blocking networking task panics. -/
def NetworkingReturns (s : State) : Event → Prop
  | .leave n .panicked => ∀ o ∈ s.tasks[n]?.bind HandlerTask.nextOp, networks o = false
  | _ => True

instance (s : State) : (e : Event) → Decidable (NetworkingReturns s e)
  | .leave n .panicked =>
    inferInstanceAs (Decidable (∀ o ∈ s.tasks[n]?.bind HandlerTask.nextOp, networks o = false))
  | .leave _ .dropped | .request _ | .callback _ _ | .run _ _ => isTrue trivial

abbrev Undisturbed (s : State) (e : Event) : Prop := Undropped s e ∧ NetworkingReturns s e

/-- The VM a task has published, and the one it has taken out, without having reported it. -/
abbrev Reports := Option Uuid × Option Uuid

def reportRequires (request : Request) : Op → Reports → Prop
  | .vms (.upgrade _), v => v = (none, none)
  | .vms (.take id), v => v = (none, none) ∧ request = .delete id
  | .registerVm id _ _, v => v = (some id, none)
  | .deregisterVm id, v => v = (none, some id)
  | .vms (.discard _), _ | .dropLocals, _ => False
  | _, _ => True

def reportAllows : (o : Op) → Reply o → Prop
  | .vms (.upgrade _), moved => moved = true
  | _, _ => True

def reporting (request : Request) : Discipline Reply Choice Reports where
  requires := reportRequires request
  allows o _ r _ := reportAllows o r
  note o _ r v := (noteAnnouncing v.1 o r, noteRetiring v.2 o r)
  considers e o _ := e = .panicked ∧ networks o = false
  leave _ v := v

/-- With a gateway everything has been reported in the end. -/
def reported (config : AppConfig) (_ : Request) (outcome : Outcome) (v : Reports) : Prop :=
  outcome ≠ .dropped ∧ (config.gatewayClient.isSome = true → v = (none, none))

variable {config : AppConfig} {lib : Libraries} {request : Request} {v : Reports} {α : Type}

theorem quiet_reporting : Quiet (reporting request) v where
  inert o ho := by
    cases o with
    | vms s => cases s <;> first | exact ho.elim | exact ⟨trivial, fun _ _ _ => rfl⟩
    | registerVm => exact ho.elim
    | deregisterVm => exact ho.elim
    | dropLocals => exact ho.elim
    | _ => exact ⟨trivial, fun _ _ _ => rfl⟩
  stays _ _ _ := rfl

theorem lockBlind_reporting : LockBlind (reporting request) where
  lock _ _ := quiet_reporting.inert _ trivial
  resume _ := quiet_reporting.inert _ trivial
  unlock _ _ := quiet_reporting.inert _ trivial
  stays _ := quiet_reporting.stays

theorem not_dropped {o : Op} : ¬ (reporting request).considers .dropped o v := by
  rintro ⟨h, _⟩
  simp at h

theorem not_considered : ¬ (reporting request).Considered v := fun ⟨_, hc⟩ => not_dropped hc

/-- A handler that keeps the view goes on with it, and is not dropped. -/
theorem goesOn {x : Async α} {post : α → Reports → Prop} {exit : Reports → Prop}
    (h : x.Keeps (reporting request) v) (hp : ∀ a, post a v) :
    x.Ensures (reporting request) post exit v :=
  h.mono (fun a _ hw => hw ▸ hp a) fun _ hw => absurd hw.2 not_considered

private theorem command (cmd : Command) : Upholds (reporting request) (· = v) (.command cmd) :=
  (quiet_reporting.command cmd).upholds

/-- The copying task keeps the view, whether or not it panics. -/
theorem reports_copyRootfs {strategy : CopyStrategy} {source dest : String} {uid gid : ℕ}
    {post : Option Bool → Reports → Prop} {exit : Reports → Prop} (hp : ∀ copied, post copied v) :
    Handler.Ensures (reporting request) post exit
      (Handler.offload (copyRootfs strategy source dest uid gid) : Async (Option Bool)) v :=
  goesOn (Handler.keeps_offload (steady_copyRootfs fun cmd _ => command cmd)
    quiet_reporting.stays) hp

theorem upholds_staying {cmd : Command} (h : networks (.command cmd) = true) :
    Upholds (reporting request).staying (· = v) (.command cmd) := by
  intro w hw
  obtain ⟨hr, hn⟩ := command cmd w hw
  refine ⟨⟨hr, fun e hc => ?_⟩, hn⟩
  obtain ⟨_, hc⟩ := hc
  simp [h] at hc

/-- The networking task returns. -/
theorem reports_setupNetworking {subnet : SubnetAllocation} {iface : String}
    {post : Option (Option NatHandles) → Reports → Prop} {exit : Reports → Prop}
    (hp : ∀ handles, post (some handles) v) :
    Handler.Ensures (reporting request) post exit
      (Handler.offload (setupNetworking subnet iface) : Async (Option (Option NatHandles))) v := by
  have hsteady : (setupNetworking subnet iface).Steady (reporting request).staying (· = v) := by
    refine steady_setupNetworking (fun cmd hcmd => upholds_staying ?_)
      fun cmd hcmd => upholds_staying ?_
    · cases cmd <;> first | rfl | exact hcmd.elim
    · cases cmd <;> first | rfl | exact hcmd.elim
  exact Handler.ensures_offload_staying ((hsteady.safe rfl).mono fun _ _ hw => hw ▸ hp _)

theorem reports_reportCreated {vmId : Uuid} {vcpus : U8} {memoryMb : U32} {exit : Reports → Prop} :
    (reportCreated config vmId vcpus memoryMb).Ensures (reporting request)
      (fun _ w => config.gatewayClient.isSome = true → w = (none, none)) exit
      (some vmId, none) := by
  unfold reportCreated
  split
  · refine Handler.Ensures.bind (Handler.ensures_await rfl (fun _ _ _ => ?_)
      fun hc => absurd hc not_dropped)
    exact Handler.ensures_pure fun _ => rfl
  · rename_i hnone
    exact Handler.ensures_pure fun h => absurd h hnone

/-- The part of `create` under the guard publishes the VM or keeps the reports. -/
theorem reports_launch {vmId : Uuid} {vcpus : U8} {memoryMb : U32} {kernel vmRootfs path : String}
    {subnet : SubnetAllocation} {exit : Reports → Prop} :
    (launch config vmId vcpus memoryMb kernel vmRootfs subnet path).Ensures (reporting request)
      (fun launched w => launched = none ∧ w = (none, none) ∨
        ∃ desc, launched = some (desc, true) ∧ w = (some vmId, none)) exit (none, none) := by
  refine Handler.Ensures.bind (goesOn (keeps_setupFirecrackerInstance quiet_reporting.calm.watchful
    (fun _ _ _ => quiet_reporting.inert _ trivial) (fun _ _ => quiet_reporting.inert _ trivial)
    (quiet_reporting.inert _ trivial)) fun desc => ?_)
  cases desc with
  | none =>
    refine Handler.Ensures.bind (goesOn (keeps_cleanupPlaceholder quiet_reporting.calm) fun _ => ?_)
    exact Handler.ensures_pure (.inl ⟨rfl, rfl⟩)
  | some desc =>
    refine Handler.Ensures.bind (Handler.Ensures.guarded ?_)
    refine ensures_withLock lockBlind_reporting ?_ fun hc => absurd hc not_considered
    refine ensures_inSection (.upgrade vmId) rfl fun _ moved hmoved => ?_
    obtain rfl : moved = true := hmoved
    exact Handler.ensures_pure (.inr ⟨desc, rfl, rfl⟩)

theorem reports_create (body : Option CreateVmRequest) :
    (create config body).Ensures (reporting request)
      (fun a => reported config request (.answered a)) (reported config request .dropped)
      (none, none) := by
  have hanswer (a : Answer) : (pure a : Async Answer).Ensures (reporting request)
      (fun a => reported config request (.answered a)) (reported config request .dropped)
      (none, none) := Handler.ensures_pure ⟨by simp, fun _ => rfl⟩
  unfold create
  cases validateVmConfig (body.bind (·.vcpus)) (body.bind (·.memoryMb)) with
  | error e => exact hanswer _
  | ok size =>
    obtain ⟨vcpus, memoryMb⟩ := size
    refine Handler.Ensures.bind (Handler.ensures_perform trivial fun _ vmId _ => ?_)
    refine Handler.Ensures.bind (reports_copyRootfs fun copied => ?_)
    rcases copied with _ | _ | _
    · exact hanswer _
    · exact hanswer _
    · have hallocate : Inert (reporting request) (none, none) .allocate :=
        quiet_reporting.inert _ trivial
      refine Handler.Ensures.bind (goesOn (keeps_withLock quiet_reporting.calm.watchful
        (Handler.keeps_perform hallocate)) fun subnet => ?_)
      cases subnet with
      | none => exact hanswer _
      | some subnet =>
        refine Handler.Ensures.bind (reports_setupNetworking fun handles => ?_)
        cases handles with
        | none =>
          exact Handler.Ensures.bind (goesOn (keeps_releaseSubnet quiet_reporting.calm) fun _ =>
            hanswer _)
        | some handles =>
          refine Handler.Ensures.bind (goesOn (keeps_reservePlaceholder quiet_reporting.calm)
            fun reserved => ?_)
          cases reserved with
          | error e => exact hanswer _
          | ok _ =>
            refine Handler.Ensures.bind (Handler.Ensures.guarded (reports_launch.mono ?_
              fun _ hw => hw))
            rintro _ _ (⟨rfl, rfl⟩ | ⟨desc, rfl, rfl⟩)
            · exact hanswer _
            · refine Handler.Ensures.bind (reports_reportCreated.mono (fun _ w hw => ?_)
                fun _ hw => hw)
              exact Handler.ensures_pure ⟨by simp, hw⟩

theorem reports_delete (id : Uuid) :
    (delete config id).Ensures (reporting (.delete id))
      (fun a => reported config (.delete id) (.answered a)) (reported config (.delete id) .dropped)
      (none, none) := by
  refine ensures_withLock lockBlind_reporting ?_ fun hc => absurd hc not_considered
  refine Handler.Ensures.bind
    (ensures_inSection (.take id) ⟨rfl, rfl⟩ fun _ taken _ => ?_)
  cases taken with
  | error e => exact Handler.ensures_pure ⟨by simp, fun _ => rfl⟩
  | ok r =>
    refine Handler.Ensures.bind (goesOn (quiet_reporting.calm.stopInstance) fun _ => ?_)
    refine Handler.Ensures.bind (goesOn (keeps_freeResources quiet_reporting.calm) fun _ => ?_)
    split
    · refine Handler.Ensures.bind (Handler.ensures_await rfl (fun _ _ _ => ?_)
        fun hc => absurd hc not_dropped)
      exact Handler.ensures_pure ⟨by simp, fun _ => rfl⟩
    · rename_i hnone
      exact Handler.ensures_pure ⟨by simp, fun h => absurd h hnone⟩

theorem safe_reporting (config : AppConfig) (request : Request) :
    (handlerOf config request).Safe (reporting request) (reported config request) (none, none) := by
  have hkeeps {x : Async Answer} (h : x.Keeps (reporting request) (none, none)) :
      (answering x).Safe (reporting request) (reported config request) (none, none) :=
    safe_answering (goesOn h fun _ => ⟨by simp, fun _ => rfl⟩)
  cases request with
  | create body => exact safe_answering (reports_create body)
  | delete id => exact safe_answering (reports_delete id)
  | get id => exact hkeeps (keeps_get quiet_reporting.calm.watchful id)
  | list => exact hkeeps (keeps_list quiet_reporting.calm.watchful)
  | ready => exact hkeeps (keeps_ready quiet_reporting.calm.watchful)
  | session => exact ⟨by simp, fun _ => rfl⟩

/-- The view of a task is what its ledger says. -/
def InLedger (_ : History) (_ : ℕ) (t : HandlerTask) (v : Reports) : Prop :=
  v = (t.ledger.announcing, t.ledger.retiring)

theorem tracking_reporting :
    TaskTracking config lib Undisturbed reporting (reported config) InLedger where
  others _ _ _ _ _ _ _ h := h
  request _ _ r _ := ⟨(none, none), safe_reporting config r, rfl⟩
  callback past s n cb r self result l v _ _ hv hends :=
    ⟨v, safe_calledBack (goesOn (keeps_callbackCode quiet_reporting.calm.watchful cb) fun _ =>
      ⟨by simp, hends.2⟩), hv⟩
  run past s n c r o may exit next l v sh reply _ _ _ _ hv _ hallow := by
    refine ⟨?_, by rw [hv]; rfl⟩
    cases o with
    | vms sec => cases sec <;> first | exact hallow | trivial
    | _ => trivial
  leave past s n e r o may exit next l v hok hn _ hv _ := by
    cases e with
    | dropped => exact hok.1.elim
    | panicked => exact ⟨⟨rfl, hok.2 o (by simp [hn, HandlerTask.nextOp])⟩, hv⟩

/-- In an undisturbed run every task keeps the discipline of the reports. -/
theorem reporting_of_run {past : History} {s : State} (h : (server config lib).Run past s)
    (hm : System.Meets Undisturbed past) {n : ℕ} {t : HandlerTask} (hn : s.tasks[n]? = some t) :
    t.code.Safe (reporting t.request) (reported config t.request)
      (t.ledger.announcing, t.ledger.retiring) := by
  obtain ⟨v, hv, rfl⟩ := tracking_reporting.view_of_run h hm hn
  exact hv

theorem reportRequires_of_run {past : History} {s : State} (h : (server config lib).Run past s)
    (hm : System.Meets Undisturbed past) {n : ℕ} {t : HandlerTask} (hn : s.tasks[n]? = some t)
    {o : Op} (ho : t.nextOp = some o) :
    reportRequires t.request o (t.ledger.announcing, t.ledger.retiring) :=
  requires_of_safe (reporting_of_run h hm hn) ho

/-- A task that has ended has not been dropped, and has reported everything to a gateway. -/
theorem reported_of_run {past : History} {s : State} (h : (server config lib).Run past s)
    (hm : System.Meets Undisturbed past) {n : ℕ} {t : HandlerTask} (hn : s.tasks[n]? = some t)
    (hend : t.inFlight = false) : t.code ≠ .ret .dropped ∧
      (config.gatewayClient.isSome = true → t.ledger.announcing = none ∧ t.ledger.retiring = none) := by
  have hcode := reporting_of_run h hm hn
  unfold HandlerTask.inFlight at hend
  split at hend
  · rename_i outcome hc
    rw [hc] at hcode ⊢
    obtain ⟨hne, hrep⟩ := hcode
    exact ⟨fun h => hne (by simpa using h), fun hg => by simpa using hrep hg⟩
  · simp at hend

end Warlock.UndisturbedRuns
