import Warlock.ServerOperations

/-!
# Host commands

The tap device, the two NAT rules and the rootfs copy of a VM, set up and taken down by
external commands. Set-up functions roll back what they did themselves; the functions that
take something down report nothing.
-/

namespace Warlock.HostNetworking
open ApplicationState EffectPrograms MachineIntegers NftHandles RustText ServerOperations
  SubnetAddressing

def runCmdOutput (c : Command) : Code (Option Text) := Code.perform (.command c)

def runCmd (c : Command) : Code Bool := do
  return (← runCmdOutput c).isSome

/-- Creates a tap device with the given name and assigns it an IP address. -/
def createTap (name : String) (tapIp : Ipv4Addr) : Code Bool := do
  if !(← runCmd (.tuntapAdd name)) then
    return false
  if !(← runCmd (.addrAdd tapIp name)) then
    let _ ← runCmd (.linkDel name)
    return false
  if !(← runCmd (.linkUp name)) then
    let _ ← runCmd (.linkDel name)
    return false
  return true

def deleteTap (name : String) : Code Unit := do
  let _ ← runCmd (.linkDel name)

/-- Adds the masquerade rule for a guest IP and the forwarding rule for its tap. -/
def addNatRules (guestIp : Ipv4Addr) (tapName hostIface : String) : Code (Option NatHandles) := do
  let some postOutput ← runCmdOutput (.addPostroutingRule guestIp hostIface) | return none
  let some postrouting := parseNftHandle postOutput | return none
  match ← runCmdOutput (.addFilterRule tapName hostIface) with
  | none =>
    let _ ← runCmd (.deleteRule .postrouting postrouting)
    return none
  | some filterOutput =>
    let some filter := parseNftHandle filterOutput | return none
    return some ⟨postrouting, filter⟩

def removeNatRules (handles : NatHandles) : Code Unit := do
  let _ ← runCmd (.deleteRule .postrouting handles.postrouting)
  let _ ← runCmd (.deleteRule .filter handles.filter)

/-- The networking step of `create`, on a thread for blocking code. -/
def networkingStep (tapName : String) (tapIp guestIpAddr : Ipv4Addr) (hostIface : String) :
    Code (Option NatHandles) := do
  if !(← createTap tapName tapIp) then
    return none
  match ← addNatRules guestIpAddr tapName hostIface with
  | some handles => return some handles
  | none =>
    deleteTap tapName
    return none

def setupNetworking (subnet : SubnetAllocation) (hostIface : String) :
    Code (Option NatHandles) :=
  networkingStep subnet.tapName subnet.tapIp subnet.guestIp hostIface

/-- Creates a per-VM copy of the rootfs image and gives it to the jailed process. -/
def copyRootfs (strategy : CopyStrategy) (source dest : String) (uid gid : ℕ) : Code Bool := do
  if !(← runCmd (.cp strategy source dest)) then
    return false
  if !(← runCmd (.chown uid gid dest)) then
    return false
  return true

def cleanupRootfsCopy (path : String) : Code Unit := do
  let _ ← Code.perform (.removeFile path)

end Warlock.HostNetworking
