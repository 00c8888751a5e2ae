import Warlock.AssociationMaps
import Warlock.ReservationProtocol
import Warlock.SubnetAddressing
import Warlock.VmConfiguration
import Warlock.VmIdentifiers

/-!
# The data of the application

The records that the handlers share: the resources of a VM, the map of VMs, the
configuration fixed at startup, and the errors and answers of the API. A VM's Firecracker
instance is known by the identifier its jailer was built with, which is the key of the
entry that holds it.
-/

namespace Warlock.ApplicationState
open AssociationMaps MachineIntegers ReservationProtocol SubnetAddressing VmConfiguration
  VmIdentifiers

/-- Handles returned by nftables when adding rules, used for cleanup. -/
structure NatHandles where
  postrouting : U64
  filter : U64
  deriving DecidableEq, Repr

/-- Resources allocated to a VM, shared across all lifecycle states. -/
structure VmResources where
  vcpus : U8
  memoryMb : U32
  rootfsCopy : Option String
  tapName : Option String
  subnetIndex : Option U16
  natHandles : Option NatHandles
  guestIp : Option String
  vsockUdsPath : Option String
  sshKeys : List String
  deriving DecidableEq, Repr

/-- `Creating` while the instance is being set up, `Running` once it is queryable. -/
abbrev VmEntry := Entry VmResources

def VmEntry.status : VmEntry → String
  | .creating _ => "creating"
  | .running _ => "running"

theorem creating_of_status {e : Option VmEntry} (h : e.map VmEntry.status = some "creating") :
    ∃ r, e = some (.creating r) := by
  rcases e with _ | r | r
  · simp at h
  · exact ⟨r, rfl⟩
  · simp [VmEntry.status] at h

theorem running_of_status {e : Option VmEntry} (h : e.map VmEntry.status = some "running") :
    ∃ r, e = some (.running r) := by
  rcases e with _ | r | r
  · simp at h
  · simp [VmEntry.status] at h
  · exact ⟨r, rfl⟩

abbrev VmMap := Map Uuid VmEntry

inductive CopyStrategy
  | reflink
  | sparse
  deriving DecidableEq, Repr

def CopyStrategy.name : CopyStrategy → String
  | .reflink => "reflink"
  | .sparse => "sparse"

/-- Configuration determined at startup for the jailer. -/
structure JailerConfig where
  cgroupVersion : ℕ
  firecrackerPath : String
  jailerPath : String
  kernelPath : String
  rootfsPath : String
  vmImagesDir : String
  copyStrategy : CopyStrategy
  hostInterface : String

structure GatewayClient where
  workerId : String

/-- The part of `AppState` that never changes. -/
structure AppConfig where
  capacity : Capacity
  jailer : JailerConfig
  gatewayClient : Option GatewayClient

inductive StatusCode
  | ok
  | accepted
  | notFound
  | conflict
  | unprocessableEntity
  | internalServerError
  deriving DecidableEq, Repr

structure ApiError where
  status : StatusCode
  message : String
  deriving DecidableEq, Repr

namespace ApiError

def internal (message : String) : ApiError := ⟨.internalServerError, message⟩
def notFound (message : String) : ApiError := ⟨.notFound, message⟩
def conflict (message : String) : ApiError := ⟨.conflict, message⟩
def unprocessable (message : String) : ApiError := ⟨.unprocessableEntity, message⟩

/-- The conversion from any internal error, whose text the client never sees. -/
def internalServerError : ApiError := internal "Internal server error"

end ApiError

inductive InstanceState
  | notStarted
  | running
  | paused
  deriving DecidableEq, Repr

structure InstanceInfo where
  state : InstanceState
  vmmVersion : String
  deriving DecidableEq, Repr

structure CreateVmRequest where
  vcpus : Option U8
  memoryMb : Option U32
  sshKeys : List String

structure CreateVmResponse where
  id : Uuid
  vcpus : U8
  memoryMb : U32
  state : InstanceState
  vmmVersion : String
  guestIp : String
  deriving DecidableEq, Repr

structure VmSummary where
  id : Uuid
  vcpus : U8
  memoryMb : U32
  status : String
  state : Option InstanceState
  guestIp : Option String
  deriving DecidableEq, Repr

structure VmInfo where
  count : ℕ
  allocatedVcpus : U8
  allocatedMemoryMb : U64
  deriving DecidableEq, Repr

structure ReadyResponse where
  totalMemoryMb : U64
  allocatableMemoryMb : U64
  totalVcpus : U8
  vms : Option VmInfo
  copyStrategy : String
  deriving DecidableEq, Repr

/-- What a handler answers to its client. -/
inductive Answer
  | created (response : CreateVmResponse)
  | listed (vms : List VmSummary)
  | described (info : InstanceInfo)
  | deleted (id : Uuid)
  | ready (response : ReadyResponse)
  | failed (error : ApiError)
  deriving DecidableEq, Repr

def Answer.status : Answer → StatusCode
  | .created _ => .accepted
  | .failed error => error.status
  | .listed _ | .described _ | .deleted _ | .ready _ => .ok

end Warlock.ApplicationState
