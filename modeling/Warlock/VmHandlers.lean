import Warlock.HostNetworking

/-!
# The HTTP handlers

Each handler is written in the order of its source. A mutex guard, an instance and the
create guard are scopes: what their destructors do happens however the scope is left.
-/

namespace Warlock.VmHandlers
open ApplicationState EffectPrograms HostNetworking MachineIntegers ReservationProtocol
  ServerOperations SubnetAddressing VmConfiguration VmIdentifiers

def jailerUid : ℕ := 1100
def jailerGid : ℕ := 1100

/-- `state.subnet_pool.lock().await.release(index)`. -/
def releaseSubnet (index : U16) : Async Unit := withLock .pool (Async.perform (.release index))

/-- Tap, NAT rules, subnet and rootfs copy of a VM that is gone. -/
def freeResources (resources : VmResources) : Async Unit := do
  if let some name := resources.tapName then
    Handler.inline (deleteTap name)
  if let some handles := resources.natHandles then
    Handler.inline (removeNatRules handles)
  if let some index := resources.subnetIndex then
    releaseSubnet index
  if let some path := resources.rootfsCopy then
    Handler.inline (cleanupRootfsCopy path)

/-- `instance.stop().await`, whose failure is only logged, and `drop(instance)`. -/
def stopInstance (id : Uuid) : Async Unit :=
  Handler.owning (Code.perform (.dropInstance id)) do
    let _ ← Async.await (.sdk id .stop)

/-- Cleans up all resources associated with a VM entry, `Creating` or `Running`. -/
def cleanupVmResources (vmId : Uuid) (entry : VmEntry) : Async Unit := do
  match entry with
  | .running resources =>
    stopInstance vmId
    freeResources resources
  | .creating resources => freeResources resources

/-- The release of `CreateGuard::drop`, which gives up when the pool is busy. -/
def tryReleaseSubnet (index : U16) : Code Unit := do
  if ← Code.perform (.tryLock .pool) then
    Code.perform (.release index)
    Code.perform (.unlock .pool)

/-- The best-effort cleanup of `CreateGuard::drop`. -/
def tryFreeResources (resources : VmResources) : Code Unit := do
  if let some name := resources.tapName then
    deleteTap name
  if let some handles := resources.natHandles then
    removeNatRules handles
  if let some index := resources.subnetIndex then
    tryReleaseSubnet index
  if let some path := resources.rootfsCopy then
    let _ ← Code.perform (.removeFile path)

/-- `CreateGuard::drop` of a guard that was not defused. -/
def createGuardDrop (vmId : Uuid) : Code Unit := do
  if ← Code.perform (.tryLock .registry) then
    if let some (.creating resources) ← Code.perform (.vms (.get vmId)) then
      tryFreeResources resources
    Code.perform (.vms (.discard vmId))
    Code.perform (.unlock .registry)

/-- The calls that configure and start an instance, in order. -/
def setupCalls (vcpus : U8) (memoryMb : U32) (vmId : Uuid) (kernel vmRootfs tapName : String)
    (guestIp tapIp : Ipv4Addr) (vsockPlaceholderPath : String) : List SdkCall :=
  let bootArgs := "console=ttyS0 reboot=k panic=1 pci=off " ++ buildNetworkBootArgs guestIp tapIp
  let guestCid : U32 := (vmId.setWidth 32 &&& 0x7FFFFFFF) ||| 3
  [.startVmm, .putMachineConfiguration memoryMb.toNat vcpus.toNat,
    .putGuestBootSource bootArgs kernel, .putGuestNetworkInterfaceById "eth0" tapName,
    .putGuestDriveById "rootfs" vmRootfs, .putGuestVsock guestCid vsockPlaceholderPath "vsock0",
    .start]

/-- `call.await?` for one call after the other. -/
def performCalls (vmId : Uuid) : List SdkCall → Async Bool
  | [] => return true
  | call :: calls => do
    if !(← Async.await (.sdk vmId call)) then
      return false
    performCalls vmId calls

/-- Builds, configures, and starts a jailed Firecracker instance. On success the caller owns
the instance. -/
def setupFirecrackerInstance (config : AppConfig) (vmId : Uuid) (vcpus : U8) (memoryMb : U32)
    (kernel vmRootfs tapName : String) (guestIp tapIp : Ipv4Addr)
    (vsockPlaceholderPath : String) : Async (Option InstanceInfo) := do
  let options : JailerOption :=
    { jailerPath := config.jailer.jailerPath
      firecrackerPath := config.jailer.firecrackerPath
      id := display vmId
      gid := jailerGid
      uid := jailerUid
      cgroupVersion := config.jailer.cgroupVersion
      cgroup := buildCgroupConfig config.jailer.cgroupVersion vcpus memoryMb
      stderr := jailerLogPath vmId }
  if !(← Async.perform (.build vmId options)) then
    return none
  let calls := setupCalls vcpus memoryMb vmId kernel vmRootfs tapName guestIp tapIp
    vsockPlaceholderPath
  let desc ← Handler.guarded (Code.perform (.dropInstance vmId)) do
    if !(← performCalls vmId calls) then
      return none
    Async.await (.describeInstance vmId)
  match desc with
  | some desc => return some desc
  | none =>
    Async.perform (.dropInstance vmId)
    return none

/-- The capacity window of `create`: insert the placeholder, or roll the networking back. -/
def reservePlaceholder (vmId : Uuid) (resources : VmResources) (subnet : SubnetAllocation)
    (natHandles : NatHandles) : Async (Except ApiError Unit) :=
  withLock .registry do
    match ← inSection (.reserve vmId resources) with
    | .ok () => return .ok ()
    | .error e =>
      Handler.inline (removeNatRules natHandles)
      Handler.inline (deleteTap subnet.tapName)
      releaseSubnet subnet.index
      return .error e

/-- The explicit clean-up of `create` after a failed set-up. -/
def cleanupPlaceholder (vmId : Uuid) : Async Unit :=
  withLock .registry do
    if let some entry ← inSection (.remove vmId) then
      cleanupVmResources vmId entry

/-- The upgrade of the placeholder to `Running` by the owner of the instance; whether the
placeholder was there and took the instance over. -/
def upgradePlaceholder (vmId : Uuid) : Async Bool :=
  Handler.guarded (Code.perform (.dropInstance vmId)) do
    withLock .registry (inSection (.upgrade vmId))

/-- The part of `create` between the create guard and its defusing. -/
def launch (config : AppConfig) (vmId : Uuid) (vcpus : U8) (memoryMb : U32)
    (kernel vmRootfs : String) (subnet : SubnetAllocation) (vsockPlaceholderPath : String) :
    Async (Option (InstanceInfo × Bool)) := do
  match ← setupFirecrackerInstance config vmId vcpus memoryMb kernel vmRootfs subnet.tapName
      subnet.guestIp subnet.tapIp vsockPlaceholderPath with
  | none =>
    cleanupPlaceholder vmId
    return none
  | some desc =>
    let moved ← upgradePlaceholder vmId
    return some (desc, moved)

/-- The report of a new VM to the gateway, if there is one; a failure is only logged. -/
def reportCreated (config : AppConfig) (vmId : Uuid) (vcpus : U8) (memoryMb : U32) :
    Async Unit := do
  if config.gatewayClient.isSome then
    let _ ← Async.await (.registerVm vmId vcpus memoryMb)

/-- The record of a VM under construction. -/
def placeholder (config : AppConfig) (body : Option CreateVmRequest) (vmId : Uuid) (vcpus : U8)
    (memoryMb : U32) (subnet : SubnetAllocation) (natHandles : NatHandles) : VmResources where
  vcpus := vcpus
  memoryMb := memoryMb
  rootfsCopy := some (rootfsPath config.jailer.vmImagesDir vmId)
  tapName := some subnet.tapName
  subnetIndex := some subnet.index
  natHandles := some natHandles
  guestIp := some subnet.guestIp.display
  vsockUdsPath := some (vsockRuntimePath vmId)
  sshKeys := (body.map (·.sshKeys)).getD []

def create (config : AppConfig) (body : Option CreateVmRequest) : Async Answer := do
  match validateVmConfig (body.bind (·.vcpus)) (body.bind (·.memoryMb)) with
  | .error e => return .failed (.unprocessable e.message)
  | .ok (vcpus, memoryMb) =>
    let vmId ← Async.perform .newV4
    let kernel := config.jailer.kernelPath
    let vmRootfs := rootfsPath config.jailer.vmImagesDir vmId
    let some true ← Handler.offload (copyRootfs config.jailer.copyStrategy
        config.jailer.rootfsPath vmRootfs jailerUid jailerGid)
      | return .failed .internalServerError
    let some subnet ← withLock .pool (Async.perform .allocate)
      | return .failed (.conflict "No available network subnets")
    match ← Handler.offload (setupNetworking subnet config.jailer.hostInterface) with
    | none =>
      Async.perform .dropLocals
      return .failed .internalServerError
    | some none =>
      releaseSubnet subnet.index
      return .failed .internalServerError
    | some (some natHandles) =>
      let resources := placeholder config body vmId vcpus memoryMb subnet natHandles
      let reserved ← reservePlaceholder vmId resources subnet natHandles
      match reserved with
      | .error e => return .failed e
      | .ok () =>
        let launched ← Handler.guarded (createGuardDrop vmId)
          (launch config vmId vcpus memoryMb kernel vmRootfs subnet (vsockPlaceholderPath vmId))
        match launched with
        | none => return .failed .internalServerError
        | some (desc, moved) =>
          if moved then
            reportCreated config vmId vcpus memoryMb
          else
            Handler.owning (Code.perform (.dropInstance vmId))
              (reportCreated config vmId vcpus memoryMb)
          return .created ⟨vmId, vcpus, memoryMb, desc.state, desc.vmmVersion,
            subnet.guestIp.display⟩

def delete (config : AppConfig) (id : Uuid) : Async Answer :=
  withLock .registry do
    match ← inSection (.take id) with
    | .error e => return .failed e
    | .ok resources =>
      stopInstance id
      freeResources resources
      if config.gatewayClient.isSome then
        let _ ← Async.await (.deregisterVm id)
      return .deleted id

def get (id : Uuid) : Async Answer :=
  withLock .registry do
    match ← inSection (.get id) with
    | none => return .failed (.notFound "VM not found")
    | some (.creating _) => return .failed (.conflict "VM is still being created")
    | some (.running _) =>
      match ← Async.await (.describeInstance id) with
      | some desc => return .described desc
      | none => return .failed .internalServerError

def summarize : List (Uuid × VmEntry) → Async (List VmSummary)
  | [] => return []
  | (id, entry) :: rest => do
    let info ← match entry with
      | .running _ => Async.await (.describeInstance id)
      | .creating _ => pure none
    let r := entry.res
    let summaries ← summarize rest
    return ⟨id, r.vcpus, r.memoryMb, VmEntry.status entry, info.map (·.state),
      r.guestIp⟩ :: summaries

def list : Async Answer :=
  withLock .registry do return .listed (← summarize (← inSection .entries))

/-- The readiness probe, which leaves the VM figures out when the map is busy. -/
def ready (config : AppConfig) : Async Answer := do
  let acquired ← Async.perform (.tryLock .registry)
  let vms ← if acquired then do
      let info ← inSection .info
      Async.perform (.unlock .registry)
      pure (some info)
    else pure none
  return .ready ⟨config.capacity.memoryMb, config.capacity.allocatableMemoryMb,
    config.capacity.vcpus, vms, config.jailer.copyStrategy.name⟩

end Warlock.VmHandlers
