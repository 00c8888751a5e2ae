import Warlock.Server

/-!
# The process from its start to the return of `main`

While the server serves, `main` waits for one of its two servers to end. If the one that ends has
failed, `main` returns at once. Otherwise it locks the map and takes down every VM in it, while
the tasks that nobody awaits go on until `main` returns.
-/

namespace Warlock.ServerProcess
open ApplicationState EffectPrograms HostNetworking Ledgers MachineIntegers ReservationProtocol Server
  ServerOperations SshSession TransitionSystems VmHandlers VmIdentifiers

/-- How the serving phase ends. -/
inductive Ending
  | httpFinished
  | httpFailed
  | sshFinished
  | sshFailed
  deriving DecidableEq

/-- `result.context(..)?` passes. -/
def Ending.passes : Ending → Bool
  | .httpFinished | .sshFinished => true
  | .httpFailed | .sshFailed => false

def deregisterVms : List (Uuid × VmEntry) → Code Unit
  | [] => return
  | (id, _) :: rest => do
    let _ ← Code.perform (.deregisterVm id)
    deregisterVms rest

/-- `instance.stop().await`, whose failure is only logged, and `drop(instance)`. -/
def stopEntry (id : Uuid) : VmEntry → Code Unit
  | .running _ => do
    let _ ← Code.perform (.sdk id .stop)
    Code.perform (.dropInstance id)
  | .creating _ => return

/-- `state.subnet_pool.lock().await.release(idx)`. -/
def freeSubnet (index : U16) : Code Unit := do
  Code.perform (.lock .pool)
  Code.perform (.release index)
  Code.perform (.unlock .pool)

def freeEntry (resources : VmResources) : Code Unit := do
  if let some name := resources.tapName then
    deleteTap name
  if let some handles := resources.natHandles then
    removeNatRules handles
  if let some index := resources.subnetIndex then
    freeSubnet index
  if let some path := resources.rootfsCopy then
    let _ ← Code.perform (.removeFile path)

/-- `vms.drain()`. -/
def drainVms : List (Uuid × VmEntry) → Code Unit
  | [] => return
  | (id, entry) :: rest => do
    Code.perform (.vms (.discard id))
    stopEntry id entry
    freeEntry entry.res
    drainVms rest

/-- What `main` does once a server has ended without an error. The guard of the map lives until
`main` returns. -/
def shutdown (config : AppConfig) : Code Unit := do
  Code.perform (.lock .registry)
  let vms ← Code.perform (.vms .entries)
  if config.gatewayClient.isSome then
    deregisterVms vms
  drainVms vms

inductive Main
  | serving
  | stopping (code : Code Unit)
  | returned

/-- `held` are the mutexes that `main` holds, and `gone` the tasks whose future was dropped. -/
structure Process where
  server : State := {}
  main : Main := .serving
  held : Mutex → Bool := fun _ => false
  gone : List ℕ := []

inductive Action
  | server (e : Event)
  | finish (ending : Ending)
  | main (c : Choice)

def isHttp : Request → Bool
  | .session => false
  | _ => true

/-- A graceful shutdown waits for the HTTP requests whose clients are still there. -/
def drained (p : Process) : Bool :=
  p.server.tasks.zipIdx.all fun t => !isHttp t.1.request || !t.1.inFlight || p.gone.contains t.2

def noteGone (gone : List ℕ) : Event → List ℕ
  | .leave n .dropped => n :: gone
  | _ => gone

def noteMutex (held : Mutex → Bool) : Op → Mutex → Bool
  | .lock m => Function.update held m true
  | .unlock m => Function.update held m false
  | _ => held

/-- The number under which `main` takes a mutex is of no account: `held` says what it holds. -/
def step (config : AppConfig) (lib : Libraries) (p : Process) : Action → Option Process
  | .server e => match p.main with
    | .returned => none
    | _ => match Server.step config lib p.server e with
      | some s => some { p with server := s, gone := noteGone p.gone e }
      | none => none
  | .finish ending => match p.main with
    | .serving =>
      if ending = .httpFinished && !drained p then none
      else some { p with main := if ending.passes then .stopping (shutdown config) else .returned }
    | _ => none
  | .main c => match p.main with
    | .stopping (.done ()) => some { p with main := .returned }
    | .stopping (.run o next) => match exec config 0 c p.server.shared o with
      | some (sh, some r) => some { p with
          server := { p.server with shared := sh }
          main := .stopping (next r)
          held := noteMutex p.held o }
      | some (sh, none) => some { p with
          server := { p.server with shared := sh }
          main := .returned }
      | none => none
    | _ => none

def process (config : AppConfig) (lib : Libraries) : System Process Action where
  initial := {}
  step := step config lib

/-- What one step of the process can do. -/
inductive Stepped (config : AppConfig) (lib : Libraries) (p : Process) : Action → Process → Prop
  | server (e : Event) (s : State) (hmain : p.main ≠ .returned)
      (he : Server.step config lib p.server e = some s) :
      Stepped config lib p (.server e) { p with server := s, gone := noteGone p.gone e }
  | stop (ending : Ending) (hmain : p.main = .serving) (hpasses : ending.passes = true)
      (hdrained : ending = .httpFinished → drained p = true) :
      Stepped config lib p (.finish ending) { p with main := .stopping (shutdown config) }
  | fail (ending : Ending) (hmain : p.main = .serving) (hfails : ending.passes = false) :
      Stepped config lib p (.finish ending) { p with main := .returned }
  | done (c : Choice) (hmain : p.main = .stopping (.done ())) :
      Stepped config lib p (.main c) { p with main := .returned }
  | run (c : Choice) (o : Op) (next : Reply o → Code Unit) (sh : Shared) (r : Reply o)
      (hmain : p.main = .stopping (.run o next))
      (he : exec config 0 c p.server.shared o = some (sh, some r)) :
      Stepped config lib p (.main c) { p with
        server := { p.server with shared := sh }
        main := .stopping (next r)
        held := noteMutex p.held o }
  | panic (c : Choice) (o : Op) (next : Reply o → Code Unit) (sh : Shared)
      (hmain : p.main = .stopping (.run o next))
      (he : exec config 0 c p.server.shared o = some (sh, none)) :
      Stepped config lib p (.main c) { p with
        server := { p.server with shared := sh }
        main := .returned }

theorem stepped {config : AppConfig} {lib : Libraries} {p p' : Process} {a : Action}
    (h : step config lib p a = some p') : Stepped config lib p a p' := by
  cases a with
  | server e =>
    simp only [step] at h
    split at h
    · simp at h
    · rename_i hmain
      split at h
      · rename_i s he
        obtain rfl := Option.some.inj h
        exact .server e s hmain he
      · simp at h
  | finish ending =>
    simp only [step] at h
    split at h
    · rename_i hmain
      split at h
      · simp at h
      · rename_i hguard
        obtain rfl := Option.some.inj h
        cases hpasses : ending.passes with
        | true => exact .stop ending hmain hpasses fun hend => by simpa [hend] using hguard
        | false => exact .fail ending hmain hpasses
    · simp at h
  | main c =>
    simp only [step] at h
    split at h
    · rename_i hmain
      obtain rfl := Option.some.inj h
      exact .done c hmain
    · rename_i o next hmain
      split at h
      · rename_i sh r he
        obtain rfl := Option.some.inj h
        exact .run c o next sh r hmain he
      · rename_i sh he
        obtain rfl := Option.some.inj h
        exact .panic c o next sh hmain he
      · simp at h
    · simp at h

end Warlock.ServerProcess
