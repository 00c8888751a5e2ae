import Warlock.GatewayReports
import Warlock.Startup

/-!
# What the gateway hears from a worker

A worker that has started serves its clients and beats in between. Its requests tell apart what
they report, and but for the beats they are the reports of the server, each sent once. The worker
itself has been registered before all of them.
-/

namespace Warlock.WorkerConversation
open ApplicationState EffectPrograms GatewayReports MachineIntegers Preflight Server
  ServerOperations SshSession Startup TaskViews TransitionSystems VersionCheck VmIdentifiers

variable {client : Client}

section Requests

def Client.report (client : Client) : Report → HttpRequest
  | .registerVm id vcpus memoryMb => client.registerVm id vcpus memoryMb
  | .deregisterVm id => client.deregisterVm id

theorem register_injective : Function.Injective Client.register := by
  intro a b h
  obtain ⟨⟨id⟩, url, ip⟩ := a
  obtain ⟨⟨id'⟩, url', ip'⟩ := b
  simpa [Client.register, and_assoc, and_left_comm] using h

theorem report_injective : Function.Injective (Client.report client) := by
  intro a b h
  cases a with
  | registerVm id vcpus memoryMb =>
    cases b with
    | registerVm id' vcpus' memoryMb' =>
      simp only [Client.report, Client.registerVm, HttpRequest.mk.injEq, Option.some.injEq,
        List.cons.injEq, Prod.mk.injEq, Json.str.injEq, Json.num.injEq, true_and, and_true] at h
      obtain ⟨hid, hvcpus, hmemory⟩ := h
      rw [display_injective hid, BitVec.eq_of_toNat_eq hvcpus, BitVec.eq_of_toNat_eq hmemory]
    | deregisterVm id' => simp [Client.report, Client.registerVm, Client.deregisterVm] at h
  | deregisterVm id =>
    cases b with
    | registerVm id' vcpus' memoryMb' =>
      simp [Client.report, Client.registerVm, Client.deregisterVm] at h
    | deregisterVm id' =>
      have hurl : (client.deregisterVm id).url = (client.deregisterVm id').url :=
        congrArg HttpRequest.url h
      rw [display_injective ((String.append_right_inj _).mp hurl)]

theorem report_ne_heartbeat (report : Report) : Client.report client report ≠ client.heartbeat := by
  cases report <;> simp [Client.report, Client.registerVm, Client.deregisterVm, Client.heartbeat]

end Requests

inductive Happening
  | beat
  | serve (e : Event)

def step (lib : Libraries) (setup : Setup) (s : State) : Happening → Option State
  | .beat => if setup.gatewayClient.isSome then some s else none
  | .serve e => Server.step setup.config lib s e

/-- The worker from where both servers run. -/
def worker (lib : Libraries) (setup : Setup) : System State Happening where
  initial := (server setup.config lib).initial
  step := step lib setup

abbrev Past := List (State × Happening)

def servedOf (p : State × Happening) : Option (State × Event) :=
  match p.2 with
  | .beat => none
  | .serve e => some (p.1, e)

/-- What the server has done. -/
def served (past : Past) : History := past.filterMap servedOf

def requestOf (client : Client) (p : State × Happening) : Option HttpRequest :=
  match p.2 with
  | .beat => some client.heartbeat
  | .serve e => (reportOf (p.1, e)).map (Client.report client)

/-- The requests of the worker to the gateway, newest first. -/
def sent (client : Client) (past : Past) : List HttpRequest := past.filterMap (requestOf client)

variable {lib : Libraries} {setup : Setup} {past : Past} {s : State}

theorem run_served (h : (worker lib setup).Run past s) :
    (server setup.config lib).Run (served past) s := by
  induction h with
  | refl => exact .refl
  | @step past a b e _ he ih =>
    cases e with
    | beat =>
      simp only [worker, step] at he
      split at he
      · cases he
        exact ih
      · cases he
    | serve e => exact .step ih he

/-- But for the beats, the requests are the reports of the server. -/
theorem sent_reports : (sent client past).filter (· ≠ client.heartbeat) =
    (reports (served past)).map (Client.report client) := by
  induction past with
  | nil => rfl
  | cons p past ih =>
    obtain ⟨a, e⟩ := p
    unfold sent at ih ⊢
    cases e with
    | beat =>
      have hserved : served ((a, .beat) :: past) = served past := rfl
      rw [hserved, ← ih]
      simp [requestOf]
    | serve e =>
      have hserved : served ((a, .serve e) :: past) = (a, e) :: served past := rfl
      rw [hserved]
      cases hreport : reportOf (a, e) with
      | none =>
        rw [reports, List.filterMap_cons_none hreport, ← reports, ← ih]
        simp [requestOf, hreport]
      | some report =>
        rw [reports, List.filterMap_cons_some hreport, ← reports, List.map_cons, ← ih]
        simp [requestOf, hreport, report_ne_heartbeat]

theorem no_beats (h : (worker lib setup).Run past s) (hclient : setup.gatewayClient = none) :
    ∀ p ∈ past, p.2 ≠ .beat := by
  induction h with
  | refl => simp
  | step _ he ih =>
    refine List.forall_mem_cons.mpr ⟨?_, ih⟩
    rintro rfl
    simp [worker, step, hclient] at he

/-- What the gateway hears over the whole life of a worker, from its start on. -/
structure Conversation (log : Log) (setup : Setup) (past : Past) (s : State) : Prop where
  silent : setup.gatewayClient = none → (∀ p ∈ past, p.2 ≠ .beat) ∧ reports (served past) = []
  introduced : ∀ client, setup.gatewayClient = some client →
    contacts log = [.sent client.register true, .beats client] ∧ FromEnvironment log client
  told : ∀ client, Function.Injective (Client.report client) ∧
    (sent client past).filter (· ≠ client.heartbeat) =
      (reports (served past)).map (Client.report client)
  once : ∀ client, ((sent client past).filter (· ≠ client.heartbeat)).Nodup
  created : ∀ client, setup.gatewayClient = some client →
    ∀ (n : ℕ) (t : HandlerTask) answer, s.tasks[n]? = some t →
      t.code = .ret (.answered (.created answer)) →
        client.registerVm answer.id answer.vcpus answer.memoryMb ∈ sent client past
  deleted : ∀ client, setup.gatewayClient = some client →
    ∀ (n : ℕ) (t : HandlerTask) id id', s.tasks[n]? = some t → t.request = .delete id →
      t.code = .ret (.answered (.deleted id')) → client.deregisterVm id ∈ sent client past

theorem mem_sent {report : Report} (h : report ∈ reports (served past)) :
    Client.report client report ∈ sent client past := by
  have hmem := List.mem_map_of_mem (f := Client.report client) h
  rw [← sent_reports] at hmem
  exact List.mem_of_mem_filter hmem

theorem contacts_of_greeting {heard : List Contact} (h : Greeting heard (some client)) :
    heard = [.sent client.register true, .beats client] := by
  cases h
  rfl

theorem contacts_of_launched {vlib : VersionLibrary} {log : Log} {jailer : JailerConfig}
    (h : Launched vlib log jailer (some client)) :
    contacts log = [.sent client.register true, .beats client] ∧ FromEnvironment log client := by
  obtain ⟨checks, answers, rest, rfl, hchecks, _, hintroduced⟩ := h
  have hsilent : contacts checks = [] := by
    refine List.filterMap_eq_nil_iff.mpr fun p hp => ?_
    obtain ⟨q, hq, _⟩ := hchecks p hp
    obtain ⟨o, answers'⟩ := p
    obtain rfl : o = .check q := hq
    rfl
  have hcontacts : contacts (checks ++ (.cleanupOrphans jailer.vmImagesDir, answers) :: rest) =
      contacts rest := by
    rw [contacts_append, hsilent]
    rfl
  have hgreeting := contacts_of_greeting hintroduced.greeting
  refine ⟨hcontacts.trans hgreeting, ?_⟩
  obtain ⟨client', hregister, hdescribed⟩ := hintroduced.described client.register true
    (hgreeting ▸ .head _)
  obtain rfl := register_injective hregister
  exact hdescribed.mono fun p hp => List.mem_append_right _ (.tail _ hp)

/-- Whatever the worker does, it has been registered before, every VM that it answers for is
reported, and nothing is reported twice. -/
theorem conversation {vlib : VersionLibrary} {log : Log}
    (hstart : Goes (startup vlib) log (.ok setup)) (h : (worker lib setup).Run past s) :
    Conversation log setup past s := by
  have hreported := gateway_reports (run_served h)
  refine ⟨fun hnone => ⟨no_beats h hnone, ?_⟩, fun client hclient => ?_,
    fun _ => ⟨report_injective, sent_reports⟩, fun client => ?_,
    fun client hclient n t answer hn hcode => ?_, fun client hclient n t id id' hn hreq hcode => ?_⟩
  · by_contra hne
    simpa [Setup.config, hnone] using hreported.client hne
  · rcases starts_in_order hstart with ⟨_, hfailed⟩ | ⟨jailer, client', hlaunched, hsetup⟩
    · exact absurd rfl (hfailed setup)
    · obtain ⟨_, hsame⟩ := hsetup setup rfl
      rw [← hsame, hclient] at hlaunched
      exact contacts_of_launched hlaunched
  · rw [sent_reports]
    exact (List.Nodup.of_map _ hreported.once).map report_injective
  · have hconfig : setup.config.gatewayClient.isSome = true := by simp [Setup.config, hclient]
    exact mem_sent (hreported.created hconfig n t answer hn hcode)
  · have hconfig : setup.config.gatewayClient.isSome = true := by simp [Setup.config, hclient]
    exact mem_sent (hreported.deleted hconfig n t id id' hn hreq hcode)

theorem readyStart_succeeds : readyStart.2.toOption.isSome = true := by decide +kernel

def readySetup : Setup := readyStart.2.toOption.get readyStart_succeeds

theorem goes_ready : Goes (startup triples) readyStart.1 (.ok readySetup) := by
  have hready : readyStart.2 = .ok readySetup := ok_of_toOption (Option.some_get _).symm
  rw [← hready]
  exact goes_follow readyAnswers (startup triples)

/-- A VM is created and reported between two beats. -/
def beatsAndCreates : List Happening :=
  .beat :: (sampleCreate ++ runs 0 1).map .serve ++ [.beat]

theorem conversation_ready :
    reports (served ((worker sampleLibraries readySetup).historyOf beatsAndCreates)) =
        [.registerVm 1 1 128] ∧
      Conversation readyStart.1 readySetup
        ((worker sampleLibraries readySetup).historyOf beatsAndCreates)
        ((worker sampleLibraries readySetup).endOf beatsAndCreates) :=
  ⟨by decide +kernel, conversation goes_ready (System.run_follow beatsAndCreates)⟩

end Warlock.WorkerConversation
