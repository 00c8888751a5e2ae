import Warlock.Preflight

/-!
# The start of the worker

The host is checked, what an earlier worker has left is swept away, and the worker introduces
itself to the gateway, if there is one. Nothing is swept and nobody is told before every check has
passed.
-/

namespace Warlock.Startup
open ApplicationState EffectPrograms MachineIntegers Preflight ScriptExecutions VersionCheck
  VmConfiguration VmIdentifiers

inductive Method
  | post
  | delete
  deriving DecidableEq

inductive Json
  | str (text : String)
  | num (n : ℕ)
  deriving DecidableEq

structure HttpRequest where
  method : Method
  url : String
  body : Option (List (String × Json)) := none
  deriving DecidableEq

structure Client extends GatewayClient where
  baseUrl : String
  workerIp : String

namespace Client

variable (self : Client)

def register : HttpRequest where
  method := .post
  url := self.baseUrl ++ "/worker/register"
  body := some [("worker_id", .str self.workerId), ("ip_address", .str self.workerIp)]

def heartbeat : HttpRequest where
  method := .post
  url := self.baseUrl ++ "/worker/" ++ self.workerId ++ "/heartbeat"

def registerVm (vmId : Uuid) (vcpus : U8) (memoryMb : U32) : HttpRequest where
  method := .post
  url := self.baseUrl ++ "/vm/register"
  body := some [("vm_id", .str (display vmId)), ("worker_id", .str self.workerId),
    ("vcpus", .num vcpus.toNat), ("memory_mb", .num memoryMb.toNat)]

def deregisterVm (vmId : Uuid) : HttpRequest where
  method := .delete
  url := self.baseUrl ++ "/vm/" ++ display vmId

end Client

/-- What the start of the worker does; `hostname` is one that is a text. -/
inductive StartOp
  | check (o : PreflightOp)
  | cleanupOrphans (vmImagesDir : String)
  | totalMemory
  | availableParallelism
  | envVar (name : String)
  | hostname
  | buildClient
  | send (request : HttpRequest)
  | spawnHeartbeatTask (client : Client)
  | bind (address : String)
  | localAddr

/-- A request is answered by whether the gateway has accepted it. -/
abbrev StartReply : StartOp → Type
  | .check o => PreflightReply o
  | .cleanupOrphans _ | .spawnHeartbeatTask _ => Unit
  | .totalMemory => U64
  | .availableParallelism => Option ℕ
  | .envVar _ | .hostname => Option String
  | .buildClient | .localAddr => Except String Unit
  | .send _ | .bind _ => Bool

abbrev StartCode := Script StartReply

abbrev perform (o : StartOp) : StartCode (StartReply o) := Script.perform o

def checking {α : Type} : Script PreflightReply α → StartCode α
  | .done a => .done a
  | .run o next => .run (.check o) fun r => checking (next r)

def findWorkerId : StartCode (Option String) := do
  match ← perform (.envVar "WORKER_ID") with
  | some workerId => return some workerId
  | none => perform .hostname

/-- `GatewayClient::new`, which needs more of the environment once `GATEWAY_URL` is set. -/
def newClient : StartCode (Except String (Option Client)) := do
  let some baseUrl ← perform (.envVar "GATEWAY_URL") | return .ok none
  let some workerId ← findWorkerId
    | return .error
        "WORKER_ID not set and hostname detection failed - set WORKER_ID explicitly"
  let some workerIp ← perform (.envVar "WORKER_IP")
    | return .error "WORKER_IP must be set when GATEWAY_URL is configured"
  match ← perform .buildClient with
  | .error e => return .error e
  | .ok () => return .ok (some { workerId, baseUrl, workerIp })

/-- Registers the worker; without a client that has been accepted it goes on alone. -/
def connectGateway : StartCode (Option Client) := do
  match ← newClient with
  | .ok (some client) =>
    if ← perform (.send client.register) then
      perform (.spawnHeartbeatTask client)
      return some client
    else return none
  | .ok none | .error _ => return none

structure Setup where
  capacity : Capacity
  jailer : JailerConfig
  gatewayClient : Option Client

def Setup.config (setup : Setup) : AppConfig where
  capacity := setup.capacity
  jailer := setup.jailer
  gatewayClient := setup.gatewayClient.map (·.toGatewayClient)

def hostCapacity : StartCode Capacity := do
  let totalMemoryBytes ← perform .totalMemory
  return availableCapacity (← perform .availableParallelism) totalMemoryBytes

def listen : StartCode (Except PreflightError Unit) := do
  if ← perform (.bind "0.0.0.0:3000") then
    match ← perform .localAddr with
    | .ok () => return .ok ()
    | .error e => return .error (.failed e)
  else return .error (.failed "Unable to bind HTTP listener.")

/-- The start after the checks. -/
def launch (jailer : JailerConfig) : StartCode (Except PreflightError Setup) := do
  perform (.cleanupOrphans jailer.vmImagesDir)
  let capacity ← hostCapacity
  let gatewayClient ← connectGateway
  return (← listen).map fun _ => ⟨capacity, jailer, gatewayClient⟩

/-- `main` up to where both servers run. -/
def startup (lib : VersionLibrary) : StartCode (Except PreflightError Setup) := do
  match ← checking (preflightCheck lib).run with
  | .ok jailer => launch jailer
  | .error (.failed _) => return .error (.failed "Firecracker pre-flight check failed")
  | .error (.panicked message) => return .error (.panicked message)

/-- The outside answers as it likes at every operation. -/
abbrev Answers := (o : StartOp) → StartReply o

def reply (o : StartOp) (answers : Answers) (_ : Unit) : Option (Unit × StartReply o) :=
  some ((), answers o)

abbrev Log := List (StartOp × Answers)

/-- One way through the script. -/
abbrev Goes {α : Type} (x : StartCode α) (log : Log) (a : α) : Prop := Execution reply x () log () a

def Told (log : Log) (o : StartOp) (r : StartReply o) : Prop :=
  ∃ answers, (o, answers) ∈ log ∧ answers o = r

variable {α β : Type} {log : Log} {lib : VersionLibrary} {o : StartOp}

theorem Told.mono {log' : Log} {r : StartReply o} (h : Told log o r) (hsub : log ⊆ log') :
    Told log' o r := by
  obtain ⟨answers, hmem, hr⟩ := h
  exact ⟨answers, hsub hmem, hr⟩

theorem Told.left {r : StartReply o} (h : Told log o r) {later : Log} :
    Told (log ++ later) o r := h.mono (List.subset_append_left _ _)

theorem Told.right {r : StartReply o} (h : Told log o r) {before : Log} :
    Told (before ++ log) o r := h.mono (List.subset_append_right _ _)

theorem goes_perform {r : StartReply o} :
    Goes (perform o) log r ↔ ∃ answers : Answers, answers o = r ∧ log = [(o, answers)] := by
  simp [Goes, reply]

theorem goes_bind {x : StartCode α} {f : α → StartCode β} {b : β} :
    Goes (x >>= f) log b ↔ ∃ before a later, Goes x before a ∧ Goes (f a) later b ∧
      log = before ++ later := by
  refine Execution.bind_iff.trans ?_
  constructor
  · rintro ⟨before, ⟨⟩, a, later, h⟩
    exact ⟨before, a, later, h⟩
  · rintro ⟨before, a, later, h⟩
    exact ⟨before, (), a, later, h⟩

/-- The checks are performed one by one, and their result is one that the answers allow. -/
theorem goes_checking {P : PreflightOp → Prop} {x : Script PreflightReply α} {a : α}
    (h : Goes (checking x) log a) (hx : x.Only P) :
    (∀ p ∈ log, ∃ q, p.1 = .check q ∧ P q) ∧ x.Yields (fun q => Told log (.check q)) a := by
  induction x generalizing log with
  | done b =>
    cases h
    exact ⟨by simp, rfl⟩
  | run q next ih =>
    cases h with
    | @run _ _ _ _ _ answers r _ _ ha h =>
      obtain rfl : answers (.check q) = r := (Prod.ext_iff.mp (Option.some.inj ha)).2
      obtain ⟨hops, hyields⟩ := ih _ h (hx.2 _)
      refine ⟨?_, answers (.check q), ⟨answers, .head _, rfl⟩, ?_⟩
      · intro p hp
        cases hp with
        | head => exact ⟨q, rfl, hx.1⟩
        | tail _ hp => exact hops p hp
      · exact hyields.mono fun q' r hr => hr.mono (List.subset_cons_self _ _)

/-- What the gateway hears of, and the task that goes on to tell it. -/
inductive Contact
  | sent (request : HttpRequest) (accepted : Bool)
  | beats (client : Client)

def contactOf : StartOp × Answers → Option Contact
  | (.send request, answers) => some (.sent request (answers (.send request)))
  | (.spawnHeartbeatTask client, _) => some (.beats client)
  | _ => none

def contacts (log : Log) : List Contact := log.filterMap contactOf

/-- The worker is registered first, and it beats for the client that has been accepted. -/
inductive Greeting : List Contact → Option Client → Prop
  | alone : Greeting [] none
  | refused (client : Client) : Greeting [.sent client.register false] none
  | welcomed (client : Client) :
      Greeting [.sent client.register true, .beats client] (some client)

/-- The client is the one that the environment describes. -/
structure FromEnvironment (log : Log) (client : Client) : Prop where
  baseUrl : Told log (.envVar "GATEWAY_URL") (some client.baseUrl)
  workerId : Told log (.envVar "WORKER_ID") (some client.workerId) ∨
    Told log (.envVar "WORKER_ID") none ∧ Told log .hostname (some client.workerId)
  workerIp : Told log (.envVar "WORKER_IP") (some client.workerIp)

/-- Neither a check, nor a sweep, nor a message. -/
def Calm : StartOp → Prop
  | .check _ | .cleanupOrphans _ | .send _ | .spawnHeartbeatTask _ => False
  | _ => True

/-- Neither a check nor a sweep. -/
def Later : StartOp → Prop
  | .check _ | .cleanupOrphans _ => False
  | _ => True

theorem later_of_calm (h : Calm o) : Later o := by
  cases o <;> first | exact h | trivial

theorem contacts_calm (h : ∀ p ∈ log, Calm p.1) : contacts log = [] := by
  refine List.filterMap_eq_nil_iff.mpr fun p hp => ?_
  obtain ⟨o, answers⟩ := p
  have ho : Calm o := h _ hp
  cases o <;> first | rfl | exact ho.elim

theorem contacts_append {before later : Log} :
    contacts (before ++ later) = contacts before ++ contacts later := List.filterMap_append

theorem only_findWorkerId : findWorkerId.Only Calm := by
  refine Script.only_bind (Script.only_perform trivial) fun workerId => ?_
  cases workerId with
  | none => exact Script.only_perform trivial
  | some workerId => trivial

theorem only_newClient : newClient.Only Calm := by
  refine Script.only_bind (Script.only_perform trivial) fun baseUrl => ?_
  cases baseUrl with
  | none => trivial
  | some baseUrl =>
    refine Script.only_bind only_findWorkerId fun workerId => ?_
    cases workerId with
    | none => trivial
    | some workerId =>
      refine Script.only_bind (Script.only_perform trivial) fun workerIp => ?_
      cases workerIp with
      | none => trivial
      | some workerIp =>
        refine Script.only_bind (Script.only_perform trivial) fun built => ?_
        cases built <;> trivial

theorem only_hostCapacity : hostCapacity.Only Calm :=
  Script.only_bind (Script.only_perform trivial) fun _ =>
    Script.only_bind (Script.only_perform trivial) fun _ => trivial

theorem only_listen : listen.Only Calm := by
  refine Script.only_bind (Script.only_perform trivial) fun bound => ?_
  cases bound with
  | false => trivial
  | true =>
    refine Script.only_bind (Script.only_perform trivial) fun address => ?_
    cases address <;> trivial

theorem told_of_goes {r : StartReply o} (h : Goes (perform o) log r) : Told log o r := by
  obtain ⟨answers, hr, rfl⟩ := goes_perform.mp h
  exact ⟨answers, .head _, hr⟩

theorem identified_of_goes {workerId : String} (h : Goes findWorkerId log (some workerId)) :
    Told log (.envVar "WORKER_ID") (some workerId) ∨
      Told log (.envVar "WORKER_ID") none ∧ Told log .hostname (some workerId) := by
  obtain ⟨before, given, later, hgiven, h, rfl⟩ := goes_bind.mp h
  have hgiven := told_of_goes hgiven
  cases given with
  | some given =>
    cases h
    exact .inl hgiven.left
  | none => exact .inr ⟨hgiven.left, (told_of_goes h).right⟩

theorem FromEnvironment.mono {client : Client} {log' : Log} (h : FromEnvironment log client)
    (hsub : log ⊆ log') : FromEnvironment log' client where
  baseUrl := h.baseUrl.mono hsub
  workerId := h.workerId.imp (·.mono hsub) fun hname => ⟨hname.1.mono hsub, hname.2.mono hsub⟩
  workerIp := h.workerIp.mono hsub

theorem fromEnvironment_of_goes {client : Client} (h : Goes newClient log (.ok (some client))) :
    FromEnvironment log client := by
  obtain ⟨log₁, baseUrl, _, hbase, h, rfl⟩ := goes_bind.mp h
  cases baseUrl with
  | none => cases h
  | some baseUrl =>
    obtain ⟨log₂, workerId, _, hid, h, rfl⟩ := goes_bind.mp h
    cases workerId with
    | none => cases h
    | some workerId =>
      obtain ⟨log₃, workerIp, _, hip, h, rfl⟩ := goes_bind.mp h
      cases workerIp with
      | none => cases h
      | some workerIp =>
        obtain ⟨log₄, built, log₅, _, h, rfl⟩ := goes_bind.mp h
        cases built with
        | error e => cases h
        | ok =>
          cases h
          refine ⟨(told_of_goes hbase).left, ?_, (told_of_goes hip).left.right.right⟩
          exact (identified_of_goes hid).imp (fun hgiven => hgiven.left.right)
            fun hname => ⟨hname.1.left.right, hname.2.left.right⟩

/-- The worker has spoken to the gateway as it should, with a client that the environment
describes. -/
structure Introduced (log : Log) (client : Option Client) : Prop where
  later : ∀ p ∈ log, Later p.1
  greeting : Greeting (contacts log) client
  described : ∀ request accepted, .sent request accepted ∈ contacts log →
    ∃ client, request = client.register ∧ FromEnvironment log client

theorem introduced_of_calm (h : ∀ p ∈ log, Calm p.1) : Introduced log none := by
  have hcontacts := contacts_calm h
  refine ⟨fun p hp => later_of_calm (h p hp), ?_, ?_⟩
  · rw [hcontacts]
    exact .alone
  · simp [hcontacts]

theorem Introduced.calm {client : Option Client} (h : Introduced log client) {before later : Log}
    (hbefore : ∀ p ∈ before, Calm p.1) (hlater : ∀ p ∈ later, Calm p.1) :
    Introduced (before ++ log ++ later) client := by
  have hcontacts : contacts (before ++ log ++ later) = contacts log := by
    rw [contacts_append, contacts_append, contacts_calm hbefore, contacts_calm hlater,
      List.nil_append, List.append_nil]
  refine ⟨?_, hcontacts ▸ h.greeting, fun request accepted hmem => ?_⟩
  · intro p hp
    rcases List.mem_append.mp hp with hp | hp
    · rcases List.mem_append.mp hp with hp | hp
      · exact later_of_calm (hbefore p hp)
      · exact h.later p hp
    · exact later_of_calm (hlater p hp)
  · rw [hcontacts] at hmem
    obtain ⟨client, hrequest, hdescribed⟩ := h.described request accepted hmem
    refine ⟨client, hrequest, hdescribed.mono fun p hp => ?_⟩
    exact List.mem_append_left _ (List.mem_append_right _ hp)

theorem introduced_of_goes {client : Option Client} (h : Goes connectGateway log client) :
    Introduced log client := by
  obtain ⟨log₁, made, log₂, hmade, h, rfl⟩ := goes_bind.mp h
  have hcalm := only_newClient.execution hmade
  rcases made with e | _ | made
  · cases h
    rw [List.append_nil]
    exact introduced_of_calm hcalm
  · cases h
    rw [List.append_nil]
    exact introduced_of_calm hcalm
  · have hmade := fromEnvironment_of_goes hmade
    obtain ⟨_, accepted, log₃, hsent, h, rfl⟩ := goes_bind.mp h
    obtain ⟨answers, haccepted, rfl⟩ := goes_perform.mp hsent
    have hlater : ∀ p ∈ log₁, Later p.1 := fun p hp => later_of_calm (hcalm p hp)
    have hcontacts : contacts (log₁ ++ ([(.send made.register, answers)] ++ log₃)) =
        .sent made.register accepted :: contacts log₃ := by
      rw [contacts_append, contacts_calm hcalm, ← haccepted]
      rfl
    cases accepted with
    | false =>
      cases h
      refine ⟨?_, hcontacts ▸ .refused made, fun request accepted hmem => ?_⟩
      · simpa [or_imp, forall_and, Later] using hlater
      · rw [hcontacts] at hmem
        cases hmem with
        | head => exact ⟨made, rfl, hmade.mono (List.subset_append_left _ _)⟩
        | tail _ hmem => cases hmem
    | true =>
      obtain ⟨log₄, _, log₅, hspawned, hdone, rfl⟩ := goes_bind.mp h
      obtain ⟨answers', _, rfl⟩ := goes_perform.mp hspawned
      cases hdone
      refine ⟨?_, hcontacts ▸ .welcomed made, fun request accepted hmem => ?_⟩
      · simpa [or_imp, forall_and, Later] using hlater
      · rw [hcontacts] at hmem
        cases hmem with
        | head => exact ⟨made, rfl, hmade.mono (List.subset_append_left _ _)⟩
        | tail _ hmem => cases List.mem_singleton.mp hmem

theorem introduced_of_launch {jailer : JailerConfig} {result : Except PreflightError Setup}
    (h : Goes (launch jailer) log result) : ∃ answers rest client,
      log = (.cleanupOrphans jailer.vmImagesDir, answers) :: rest ∧ Introduced rest client ∧
        ∀ setup, result = .ok setup → setup.jailer = jailer ∧ setup.gatewayClient = client := by
  obtain ⟨_, _, _, hswept, hmeasured, rfl⟩ := goes_bind.mp h
  obtain ⟨answers, _, rfl⟩ := goes_perform.mp hswept
  obtain ⟨log₁, capacity, _, hcapacity, hconnected, rfl⟩ := goes_bind.mp hmeasured
  obtain ⟨log₂, client, _, hclient, hlistened, rfl⟩ := goes_bind.mp hconnected
  obtain ⟨log₃, listening, _, hlisten, hdone, rfl⟩ := goes_bind.mp hlistened
  cases hdone
  refine ⟨answers, log₁ ++ log₂ ++ log₃, client, by simp, ?_, ?_⟩
  · exact (introduced_of_goes hclient).calm (only_hostCapacity.execution hcapacity)
      (only_listen.execution hlisten)
  · intro setup hsetup
    cases listening with
    | error e => cases hsetup
    | ok =>
      cases hsetup
      exact ⟨rfl, rfl⟩

/-- The configuration is that of development mode, or the host has been checked for it. -/
def Accepted (lib : VersionLibrary) (log : Log) (jailer : JailerConfig) : Prop :=
  DevMode (fun q => Told log (.check q)) ∧ jailer = devConfig ∨
    Verified lib (fun q => Told log (.check q)) jailer

/-- The host has been checked, then swept once, and only then has the gateway been spoken to. -/
def Launched (lib : VersionLibrary) (log : Log) (jailer : JailerConfig) (client : Option Client) :
    Prop :=
  ∃ checks answers rest, log = checks ++ (.cleanupOrphans jailer.vmImagesDir, answers) :: rest ∧
    (∀ p ∈ checks, ∃ q, p.1 = .check q ∧ Spares q) ∧ Accepted lib checks jailer ∧
      Introduced rest client

/-- A start that fails a check has done nothing else. -/
def Orderly (lib : VersionLibrary) (log : Log) (result : Except PreflightError Setup) : Prop :=
  ((∀ p ∈ log, ∃ q, p.1 = .check q ∧ Spares q) ∧ ∀ setup, result ≠ .ok setup) ∨
    ∃ jailer client, Launched lib log jailer client ∧
      ∀ setup, result = .ok setup → setup.jailer = jailer ∧ setup.gatewayClient = client

theorem starts_in_order {result : Except PreflightError Setup} (h : Goes (startup lib) log result) :
    Orderly lib log result := by
  obtain ⟨checks, verdict, later, hchecks, hrest, rfl⟩ := goes_bind.mp h
  obtain ⟨hops, hyields⟩ := goes_checking hchecks only_preflightCheck
  rcases verdict with (message | message) | jailer
  · cases hrest
    rw [List.append_nil]
    exact .inl ⟨hops, nofun⟩
  · cases hrest
    rw [List.append_nil]
    exact .inl ⟨hops, nofun⟩
  · obtain ⟨answers, rest, client, rfl, hintroduced, hsetup⟩ := introduced_of_launch hrest
    exact .inr ⟨jailer, client, ⟨checks, answers, rest, rfl, hops, verified_of_succeeds hyields,
      hintroduced⟩, hsetup⟩

/-- The way that a script goes when every operation is answered alike. -/
def follow (answers : Answers) : StartCode α → Log × α
  | .done a => ([], a)
  | .run o next => (follow answers (next (answers o))).map ((o, answers) :: ·) id

theorem goes_follow (answers : Answers) (x : StartCode α) :
    Goes x (follow answers x).1 (follow answers x).2 := by
  induction x with
  | done a => exact .done a ()
  | run o next ih => exact .run rfl (ih (answers o))

def printed (stdout : String) : Option Output := some ⟨true, stdout.toList, []⟩

/-- A host on which everything is in its place. -/
def readyHost : (o : PreflightOp) → PreflightReply o
  | .envVar _ => none
  | .which name => some ("/usr/bin/" ++ name)
  | .version _ => printed "Firecracker v1.14.1\n"
  | .cpReflink _ _ => none
  | .listTable => printed "table ip firecracker\n\tchain postrouting\n\tchain filter\n"
  | .pathExists _ | .createDirAll _ | .removeFile _ | .write _ => true
  | .metadata _ => .ok 1
  | .openLines _ => some [some "firecracker:x:1100:1100::/nonexistent:/usr/sbin/nologin".toList]
  | .readToString _ => some "1\n".toList
  | .showDefaultRoute => some "default via 10.0.0.1 dev eth0 proto dhcp\n".toList
  | .canonicalize path => some path

def readyAnswers : Answers
  | .check o => readyHost o
  | .cleanupOrphans _ | .spawnHeartbeatTask _ => ()
  | .totalMemory => 8589934592
  | .availableParallelism => some 4
  | .envVar "GATEWAY_URL" => some "http://gateway"
  | .envVar "WORKER_IP" => some "10.0.0.2"
  | .envVar _ => some "worker"
  | .hostname => none
  | .buildClient | .localAddr => .ok ()
  | .send _ | .bind _ => true

def readyStart : Log × Except PreflightError Setup := follow readyAnswers (startup triples)

theorem starts_in_order_ready :
    (readyStart.2.toOption.map fun setup => setup.jailer.hostInterface) = some "eth0" ∧
      Orderly triples readyStart.1 readyStart.2 :=
  ⟨by decide +kernel, starts_in_order (goes_follow readyAnswers (startup triples))⟩

end Warlock.Startup
