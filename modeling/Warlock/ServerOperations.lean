import Warlock.EffectPrograms
import Warlock.NftHandles
import Warlock.VmRegistry
import Mathlib.Logic.Function.Basic

/-!
# The operations of the server's tasks

One operation is one thing a task does to what all tasks share: the two mutexes, the map of
VMs and the subnet pool behind them, the host, the Firecracker processes and the gateway.
`exec` is its effect. Whatever the outside decides (whether a command succeeds, what it
prints, which identifier is drawn) is a `Choice`; `exec` is `none` where the operation
cannot happen now, and its reply is `none` where the code panics. The `vms` mutex is the
registry's and the `subnet_pool` mutex the pool's.
-/

namespace Warlock.ServerOperations
open ApplicationState AssociationMaps EffectPrograms MachineIntegers ReservationProtocol RustText
  SubnetAddressing VmIdentifiers VmRegistry

inductive Chain
  | postrouting
  | filter
  deriving DecidableEq

/-- The external commands, each standing for its argument vector. -/
inductive Command
  | cp (strategy : CopyStrategy) (source dest : String)
  | chown (uid gid : ℕ) (path : String)
  | tuntapAdd (name : String)
  | addrAdd (address : Ipv4Addr) (name : String)
  | linkUp (name : String)
  | linkDel (name : String)
  | addPostroutingRule (guestIp : Ipv4Addr) (hostIface : String)
  | addFilterRule (tapName hostIface : String)
  | deleteRule (chain : Chain) (handle : U64)
  deriving DecidableEq

structure JailerOption where
  jailerPath : String
  firecrackerPath : String
  id : String
  gid : ℕ
  uid : ℕ
  cgroupVersion : ℕ
  cgroup : List (String × String)
  stderr : String
  deriving DecidableEq

/-- The calls on an instance that answer with success or failure only. -/
inductive SdkCall
  | startVmm
  | putMachineConfiguration (memSizeMib vcpuCount : ℕ)
  | putGuestBootSource (bootArgs kernelImagePath : String)
  | putGuestNetworkInterfaceById (ifaceId hostDevName : String)
  | putGuestDriveById (driveId pathOnHost : String)
  | putGuestVsock (guestCid : U32) (udsPath vsockId : String)
  | start
  | stop
  deriving DecidableEq

abbrev Bytes := List UInt8
abbrev ChannelId := U32
abbrev StreamId := ℕ

inductive Op
  | lock (m : Mutex)
  | resume
  | tryLock (m : Mutex)
  | unlock (m : Mutex)
  | vms (s : VmRegistry.Section)
  | allocate
  | release (index : U16)
  | newV4
  | command (c : Command)
  | removeFile (path : String)
  | build (id : Uuid) (options : JailerOption)
  | sdk (id : Uuid) (call : SdkCall)
  | describeInstance (id : Uuid)
  | dropInstance (id : Uuid)
  | registerVm (id : Uuid) (vcpus : U8) (memoryMb : U32)
  | deregisterVm (id : Uuid)
  | dropLocals
  | connect (path : String)
  | writeAll (stream : StreamId) (bytes : Bytes)
  | read (stream : StreamId) (limit : ℕ)
  | forward (stream : StreamId) (channel : ChannelId)
  | send (stream : StreamId) (bytes : Bytes)
  deriving DecidableEq

abbrev Reply : Op → Type
  | .lock _ | .resume | .unlock _ | .release _ | .dropInstance _ | .dropLocals => Unit
  | .tryLock _ | .removeFile _ | .build _ _ | .sdk _ _ | .registerVm _ _ _ | .deregisterVm _
  | .writeAll _ _ => Bool
  | .vms s => s.Reply
  | .allocate => Option SubnetAllocation
  | .newV4 => Uuid
  | .command _ => Option Text
  | .describeInstance _ => Option InstanceInfo
  | .connect _ => Option StreamId
  | .read _ _ => Option Bytes
  | .forward _ _ | .send _ _ => Unit

/-- What the outside decides about one operation; `partly` is whether one that fails took
effect all the same. -/
structure Choice where
  succeeds : Bool := true
  partly : Bool := false
  stdout : Text := []
  handle : U64 := 0
  id : Uuid := 0
  info : InstanceInfo := ⟨.running, ""⟩
  bytes : Bytes := []

structure Tap where
  name : String
  address : Option Ipv4Addr
  up : Bool

structure PostroutingRule where
  handle : U64
  guestIp : Ipv4Addr
  hostIface : String

structure FilterRule where
  handle : U64
  tapName : String
  hostIface : String

/-- What the server leaves on its host; `live` are the VMs whose Firecracker process runs. -/
structure Host where
  files : List String := []
  taps : List Tap := []
  postrouting : List PostroutingRule := []
  filter : List FilterRule := []
  live : List Uuid := []

/-- A command that fails changes nothing, `cp` apart. A tap is added under a free name, and a
rule gets a handle that no rule of its chain has. -/
def Host.run (host : Host) (c : Choice) : Command → Option (Host × Option Text)
  | .cp _ _ dest =>
    some (if c.succeeds || c.partly then { host with files := dest :: host.files } else host,
      if c.succeeds then some c.stdout else none)
  | .chown _ _ _ => some (host, if c.succeeds then some c.stdout else none)
  | .tuntapAdd name =>
    if !c.succeeds then some (host, none)
    else if host.taps.any (·.name == name) then none
    else some ({ host with taps := ⟨name, none, false⟩ :: host.taps }, some c.stdout)
  | .addrAdd address name =>
    if !c.succeeds then some (host, none)
    else some ({ host with taps := host.taps.map fun t =>
      if t.name = name then { t with address := some address } else t }, some c.stdout)
  | .linkUp name =>
    if !c.succeeds then some (host, none)
    else some ({ host with taps := host.taps.map fun t =>
      if t.name = name then { t with up := true } else t }, some c.stdout)
  | .linkDel name =>
    if !c.succeeds then some (host, none)
    else some ({ host with taps := host.taps.filter (·.name != name) }, some c.stdout)
  | .addPostroutingRule guestIp hostIface =>
    if !c.succeeds then some (host, none)
    else if host.postrouting.any (·.handle == c.handle) then none
    else some ({ host with postrouting := ⟨c.handle, guestIp, hostIface⟩ :: host.postrouting },
      some c.stdout)
  | .addFilterRule tapName hostIface =>
    if !c.succeeds then some (host, none)
    else if host.filter.any (·.handle == c.handle) then none
    else some ({ host with filter := ⟨c.handle, tapName, hostIface⟩ :: host.filter },
      some c.stdout)
  | .deleteRule .postrouting handle =>
    if !c.succeeds then some (host, none)
    else some ({ host with postrouting := host.postrouting.filter (·.handle != handle) },
      some c.stdout)
  | .deleteRule .filter handle =>
    if !c.succeeds then some (host, none)
    else some ({ host with filter := host.filter.filter (·.handle != handle) }, some c.stdout)

/-- What all tasks share. -/
structure Shared where
  vms : VmMap := ∅
  subnetPool : SubnetPool := .new
  locks : Mutex → Option ℕ := fun _ => none
  issued : List Uuid := []
  host : Host := {}
  gateway : List Uuid := []
  streams : StreamId := 0

/-- The effect of an operation of task `n`. -/
def exec (config : AppConfig) (n : ℕ) (c : Choice) (sh : Shared) :
    (o : Op) → Option (Shared × Option (Reply o))
  | .lock m =>
    if sh.locks m = none then
      some ({ sh with locks := Function.update sh.locks m (some n) }, some ())
    else none
  | .resume => some (sh, some ())
  | .tryLock m =>
    if sh.locks m = none then
      some ({ sh with locks := Function.update sh.locks m (some n) }, some true)
    else some (sh, some false)
  | .unlock m => some ({ sh with locks := Function.update sh.locks m none }, some ())
  | .vms s =>
    let r := s.run config.capacity sh.vms
    some ({ sh with vms := r.1 }, some r.2)
  | .allocate => match sh.subnetPool.allocate with
    | none => some (sh, some none)
    | some (a, pool) => some ({ sh with subnetPool := pool }, some (some a))
  | .release index => match sh.subnetPool.release index with
    | none => some (sh, none)
    | some pool => some ({ sh with subnetPool := pool }, some ())
  | .newV4 =>
    if c.id ∈ sh.issued then none
    else some ({ sh with issued := c.id :: sh.issued }, some c.id)
  | .command cmd => match sh.host.run c cmd with
    | none => none
    | some (host, r) => some ({ sh with host := host }, some r)
  | .removeFile path =>
    if c.succeeds then
      some ({ sh with host := { sh.host with files := sh.host.files.filter (· != path) } },
        some true)
    else some (sh, some false)
  | .build _ _ => some (sh, some c.succeeds)
  | .sdk id .startVmm =>
    some ({ sh with host := { sh.host with live := id :: sh.host.live } }, some c.succeeds)
  | .sdk _ _ => some (sh, some c.succeeds)
  | .describeInstance _ => some (sh, some (if c.succeeds then some c.info else none))
  | .dropInstance id =>
    some ({ sh with host := { sh.host with live := sh.host.live.filter (· != id) } }, some ())
  | .registerVm id _ _ =>
    some (if c.succeeds || c.partly then { sh with gateway := sh.gateway.insert id } else sh,
      some c.succeeds)
  | .deregisterVm id =>
    some (if c.succeeds || c.partly then { sh with gateway := sh.gateway.filter (· != id) }
      else sh, some c.succeeds)
  | .dropLocals => some (sh, some ())
  | .connect _ =>
    if c.succeeds then some ({ sh with streams := sh.streams + 1 }, some (some sh.streams))
    else some (sh, some none)
  | .writeAll _ _ => some (sh, some c.succeeds)
  | .read _ limit => some (sh, some (if c.succeeds then some (c.bytes.take limit) else none))
  | .forward _ _ => some (sh, some ())
  | .send _ _ => some (sh, some ())

/-- The operations that may change the map, the pool, the host or the gateway. -/
def Effect : Op → Prop
  | .vms s => s.subject.isSome = true
  | .allocate | .release _ | .newV4 | .command _ | .removeFile _ | .sdk _ .startVmm
  | .dropInstance _ | .registerVm _ _ _ | .deregisterVm _ => True
  | _ => False

/-- What an operation leaves alone. -/
structure Frame (o : Op) (sh sh' : Shared) : Prop where
  vms : (∀ s, o ≠ .vms s) → sh'.vms = sh.vms
  subnetPool : o ≠ .allocate → (∀ i, o ≠ .release i) → sh'.subnetPool = sh.subnetPool
  host : (∀ cmd, o ≠ .command cmd) → (∀ path, o ≠ .removeFile path) →
    (∀ id, o ≠ .sdk id .startVmm) → (∀ id, o ≠ .dropInstance id) → sh'.host = sh.host
  gateway : (∀ id vcpus memoryMb, o ≠ .registerVm id vcpus memoryMb) →
    (∀ id, o ≠ .deregisterVm id) → sh'.gateway = sh.gateway
  streams : (∀ path, o ≠ .connect path) → sh'.streams = sh.streams

theorem exec_frame {config : AppConfig} {n : ℕ} {c : Choice} {sh sh' : Shared} {o : Op}
    {reply : Option (Reply o)} (h : exec config n c sh o = some (sh', reply)) :
    Frame o sh sh' := by
  cases o with
  | sdk id call => cases call <;> simp only [exec] at h <;> cases h <;> constructor <;> simp
  | _ =>
    simp only [exec] at h
    repeat' split at h
    all_goals first | (cases h; constructor <;> simp) | simp at h

/-- Only a release can panic. -/
theorem exec_replies {config : AppConfig} {n : ℕ} {c : Choice} {sh sh' : Shared} {o : Op}
    {r : Option (Reply o)} (ho : ∀ i, o ≠ .release i) (h : exec config n c sh o = some (sh', r)) :
    ∃ reply, r = some reply := by
  cases o with
  | release i => exact absurd rfl (ho i)
  | sdk id call => cases call <;> simp only [exec] at h <;> cases h <;> exact ⟨_, rfl⟩
  | _ =>
    simp only [exec] at h
    repeat' split at h
    all_goals first | (cases h; exact ⟨_, rfl⟩) | simp at h

/-- SSH session state for a single client connection. -/
structure SessionHandler where
  vmId : Option Uuid := none
  udsWriter : Option StreamId := none
  channelId : Option ChannelId := none
  deriving DecidableEq

/-- What a callback of a session returns. -/
inductive CallbackResult
  | accept
  | reject
  | done
  | error
  deriving DecidableEq

/-- How the code of a task ends; a session keeps its state for its next callback. -/
inductive Outcome
  | answered (answer : Answer)
  | dropped
  | session (handler : SessionHandler) (result : CallbackResult)
  deriving DecidableEq

abbrev Code := Script Reply
abbrev Async := Handler Reply Outcome

abbrev Code.perform (o : Op) : Code (Reply o) := Script.perform o
abbrev Async.perform (o : Op) : Async (Reply o) := Handler.perform o
abbrev Async.await (o : Op) : Async (Reply o) := Handler.await o

/-- `m.lock().await` with the guard alive until the end of the scope. A future that was
handed the mutex may be dropped before it runs again. -/
def withLock {α : Type} (m : Mutex) (body : Async α) : Async α := do
  Async.await (.lock m)
  Handler.owning (Code.perform (.unlock m)) do
    Async.await .resume
    body

def inSection (s : VmRegistry.Section) : Async s.Reply := Async.perform (.vms s)

end Warlock.ServerOperations
