import Warlock.AuthorizedKeys
import Warlock.ServerOperations

/-!
# The callbacks of an SSH session

One `SessionHandler` serves one client connection. The SSH library calls it back, one
callback after the other; what the handler keeps between callbacks is the VM it
authenticated for, the last channel that was opened, and the writer of the last shell. The
parsing of identifiers and of keys belongs to external libraries.
-/

namespace Warlock.SshSession
open ApplicationState AuthorizedKeys EffectPrograms MachineIntegers ReservationProtocol RustText
  ServerOperations VmIdentifiers

structure Libraries where
  parseUuid : Text → Option Uuid
  parsePublicKeyBase64 : Text → Option PublicKey

/-- Parse the VM id from a user name of the form `vm-{uuid}`. -/
def parseVmIdFromUsername (lib : Libraries) (username : String) : Except String (Option Uuid) :=
  match stripPrefix "vm-".toList username.toList with
  | some uuidStr => match lib.parseUuid uuidStr with
    | some vmId => .ok (some vmId)
    | none => .error ("Invalid VM UUID in username: " ++ String.ofList uuidStr)
  | none => .ok none

inductive Callback
  | authPublickey (user : String) (key : PublicKey)
  | channelOpenSession (channel : ChannelId)
  | ptyRequest (channel : ChannelId)
  | shellRequest (channel : ChannelId)
  | data (channel : ChannelId) (bytes : Bytes)
  | windowChangeRequest (channel : ChannelId) (colWidth rowHeight : U32)

abbrev Returned := SessionHandler × CallbackResult

def authPublickey (lib : Libraries) (self : SessionHandler) (user : String) (key : PublicKey) :
    Async Returned := do
  match parseVmIdFromUsername lib user with
  | .error _ => return (self, .error)
  | .ok none => return (self, .reject)
  | .ok (some vmId) =>
    withLock .registry do
      match ← inSection (.get vmId) with
      | some (.running resources) =>
        match isKeyAuthorized lib.parsePublicKeyBase64 key resources.sshKeys with
        | .ok true => return ({ self with vmId := some vmId }, .accept)
        | .ok false | .error _ => return (self, .reject)
      | some (.creating _) | none => return (self, .reject)

def channelOpenSession (self : SessionHandler) (channel : ChannelId) : Async Returned :=
  return ({ self with channelId := some channel }, .done)

def utf8 (s : String) : Bytes := s.toUTF8.toList

/-- The reply to `CONNECT` is a text that starts with `OK `. -/
def handshakeAccepted (response : Bytes) : Bool :=
  match String.fromUTF8? ⟨response.toArray⟩ with
  | some text => (stripPrefix "OK ".toList text.toList).isSome
  | none => false

/-- The vsock path of a VM that is running. -/
def vsockUdsPathOf (vmId : Uuid) : Async (Option String) :=
  withLock .registry do
    match ← inSection (.get vmId) with
    | some (.running resources) => return resources.vsockUdsPath
    | some (.creating _) | none => return none

/-- Connects to the vsock, shakes hands, and starts to forward in both directions. -/
def openShell (self : SessionHandler) (vsockUdsPath : String) (channelId : ChannelId) :
    Async Returned := do
  let some stream ← Async.await (.connect vsockUdsPath) | return (self, .error)
  if !(← Async.await (.writeAll stream (utf8 "CONNECT 1024\n"))) then
    return (self, .error)
  let some response ← Async.await (.read stream 32) | return (self, .error)
  if !handshakeAccepted response then
    return (self, .error)
  Async.perform (.forward stream channelId)
  return ({ self with udsWriter := some stream }, .done)

def shellRequest (self : SessionHandler) : Async Returned := do
  let some vmId := self.vmId | return (self, .error)
  let some channelId := self.channelId | return (self, .error)
  let some vsockUdsPath ← vsockUdsPathOf vmId | return (self, .error)
  openShell self vsockUdsPath channelId

/-- `tx.send` to the task that writes to the stream of the last shell. -/
def sendToShell (self : SessionHandler) (bytes : Bytes) : Async Returned := do
  if let some stream := self.udsWriter then
    Async.perform (.send stream bytes)
  return (self, .done)

/-- The terminal escape sequence `ESC[8;<height>;<width>t`. -/
def resizeMessage (colWidth rowHeight : U32) : Bytes :=
  utf8 ("\x1b[8;" ++ toString rowHeight.toNat ++ ";" ++ toString colWidth.toNat ++ "t")

/-- The handler's code for a callback; from the shell on, the channel argument is ignored. -/
def callbackCode (lib : Libraries) (self : SessionHandler) : Callback → Async Returned
  | .authPublickey user key => authPublickey lib self user key
  | .channelOpenSession channel => channelOpenSession self channel
  | .ptyRequest _ => return (self, .done)
  | .shellRequest _ => shellRequest self
  | .data _ bytes => sendToShell self bytes
  | .windowChangeRequest _ colWidth rowHeight =>
    sendToShell self (resizeMessage colWidth rowHeight)

end Warlock.SshSession
