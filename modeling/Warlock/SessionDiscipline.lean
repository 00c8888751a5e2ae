import Warlock.QuietHandlers
import Warlock.TaskViews

/-!
# What the callbacks of a session require and return

A session connects only to the socket of the running VM it has just looked up, forwards only
to the channel in its state, and sends only to the writer in its state. What a callback
leaves in the state is determined by what it has seen and done; an authentication looks at no
entry but that of the VM it is for.
-/

namespace Warlock.SessionDiscipline
open ApplicationState AuthorizedKeys EffectPrograms MachineIntegers QuietHandlers
  ReservationProtocol RustText Server ServerOperations SshSession TaskViews VmIdentifiers

/-- What a session does in its current callback. -/
structure SessionView where
  self : SessionHandler := {}
  callback : Option Callback := none
  entry : Option (Uuid × Option VmEntry) := none
  stream : Option StreamId := none
  forwarded : Bool := false

/-- What a callback sends to the shell. -/
def payload : Callback → Option Bytes
  | .data _ bytes => some bytes
  | .windowChangeRequest _ colWidth rowHeight => some (resizeMessage colWidth rowHeight)
  | _ => none

def sessionRequires : Op → SessionView → Prop
  | .connect path, v => (∃ channel, v.callback = some (.shellRequest channel)) ∧
      ∃ id r, v.self.vmId = some id ∧ v.entry = some (id, some (.running r)) ∧
        r.vsockUdsPath = some path ∧ v.forwarded = false
  | .forward stream channel, v => (∃ channel, v.callback = some (.shellRequest channel)) ∧
      v.self.channelId = some channel ∧ v.stream = some stream ∧ v.forwarded = false
  | .send stream bytes, v => v.self.udsWriter = some stream ∧
      ∃ cb, v.callback = some cb ∧ payload cb = some bytes
  | _, _ => True

def sessionNote (v : SessionView) : (o : Op) → Reply o → SessionView
  | .vms (.get id), entry => { v with entry := some (id, entry) }
  | .connect _, some stream => { v with stream := some stream }
  | .forward _ _, _ => { v with forwarded := true }
  | _, _ => v

/-- Sessions are watched, other tasks are not. -/
def watching : Request → Discipline Reply Choice SessionView
  | .session =>
    { requires := sessionRequires
      allows := fun _ _ _ _ => True
      note := fun o _ r v => sessionNote v o r
      considers := fun _ _ _ => True
      leave := fun _ v => v }
  | _ =>
    { requires := fun _ _ => True
      allows := fun _ _ _ _ => True
      note := fun _ _ _ v => v
      considers := fun _ _ _ => True
      leave := fun _ v => v }

theorem username_of_parse {lib : Libraries} {user : String} {id : Uuid}
    (h : parseVmIdFromUsername lib user = .ok (some id)) :
    ∃ text, user.toList = "vm-".toList ++ text ∧ lib.parseUuid text = some id := by
  unfold parseVmIdFromUsername at h
  split at h
  · rename_i text htext
    split at h
    · rename_i id' hid
      obtain rfl : id' = id := by simpa using h
      exact ⟨text, stripPrefix_eq_some.mp htext, hid⟩
    · simp at h
  · simp at h

/-- What an authentication answers; it looks at no entry but that of the VM it is for. -/
def authVerdict (lib : Libraries) (key : PublicKey) : Option VmEntry → CallbackResult
  | some (.running r) => match isKeyAuthorized lib.parsePublicKeyBase64 key r.sshKeys with
    | .ok true => .accept
    | .ok false | .error _ => .reject
  | some (.creating _) | none => .reject

theorem accept_of_verdict {lib : Libraries} {key : PublicKey} {entry : Option VmEntry}
    (h : authVerdict lib key entry = .accept) : ∃ r, entry = some (.running r) ∧
      isKeyAuthorized lib.parsePublicKeyBase64 key r.sshKeys = .ok true := by
  unfold authVerdict at h
  split at h
  · rename_i r
    split at h
    · rename_i hkey
      exact ⟨r, rfl, hkey⟩
    · simp at h
    · simp at h
  · simp at h
  · simp at h

def AuthReturns (lib : Libraries) (v : SessionView) (user : String) (key : PublicKey)
    (self : SessionHandler) (result : CallbackResult) : Prop :=
  match parseVmIdFromUsername lib user with
  | .error _ => self = v.self ∧ result = .error
  | .ok none => self = v.self ∧ result = .reject
  | .ok (some id) => ∃ entry, v.entry = some (id, entry) ∧ result = authVerdict lib key entry ∧
      self = if result = .accept then { v.self with vmId := some id } else v.self

/-- How the current callback returns. -/
def Returns (lib : Libraries) (v : SessionView) (self : SessionHandler) (result : CallbackResult) :
    Prop :=
  match v.callback with
  | some (.authPublickey user key) => AuthReturns lib v user key self result
  | some (.channelOpenSession channel) =>
    self = { v.self with channelId := some channel } ∧ result = .done
  | some (.shellRequest _) =>
    self = (if v.forwarded then { v.self with udsWriter := v.stream } else v.self) ∧
      result ≠ .accept
  | _ => self = v.self ∧ result = .done

/-- The channel and the writer that the session has when the current callback returns. -/
def SessionView.nextChannel (v : SessionView) : Option ChannelId :=
  match v.callback with
  | some (.channelOpenSession channel) => some channel
  | _ => v.self.channelId

def SessionView.nextWriter (v : SessionView) : Option StreamId :=
  if v.forwarded then v.stream else v.self.udsWriter

section Returning

variable {lib : Libraries} {v : SessionView} {self : SessionHandler} {result : CallbackResult}
  {id : Uuid}

theorem returns_channel (h : Returns lib v self result) : self.channelId = v.nextChannel := by
  unfold Returns AuthReturns at h
  unfold SessionView.nextChannel
  cases hc : v.callback with
  | none => simp_all
  | some cb =>
    cases cb with
    | authPublickey user key =>
      simp only [hc] at h ⊢
      split at h
      · rw [h.1]
      · rw [h.1]
      · obtain ⟨_, _, _, rfl⟩ := h
        split <;> rfl
    | shellRequest channel =>
      simp only [hc] at h ⊢
      rw [h.1]
      split <;> rfl
    | _ => simp_all

theorem returns_writer (hs : v.forwarded = true → ∃ channel, v.callback = some (.shellRequest channel))
    (h : Returns lib v self result) : self.udsWriter = v.nextWriter := by
  unfold Returns AuthReturns at h
  unfold SessionView.nextWriter
  cases hf : v.forwarded with
  | true =>
    obtain ⟨channel, hc⟩ := hs hf
    simp_all
  | false =>
    cases hc : v.callback with
    | none => simp_all
    | some cb =>
      cases cb with
      | authPublickey user key =>
        simp only [hc] at h
        split at h
        · simp [h.1]
        · simp [h.1]
        · obtain ⟨_, _, _, rfl⟩ := h
          split <;> rfl
      | _ => simp_all

/-- A session has a new VM only after an authentication that was accepted. -/
theorem returns_vm (h : Returns lib v self result) (hid : self.vmId = some id) :
    v.self.vmId = some id ∨ ∃ user key r, result = .accept ∧
      v.callback = some (.authPublickey user key) ∧ parseVmIdFromUsername lib user = .ok (some id) ∧
      v.entry = some (id, some (.running r)) ∧
      isKeyAuthorized lib.parsePublicKeyBase64 key r.sshKeys = .ok true := by
  unfold Returns AuthReturns at h
  cases hc : v.callback with
  | none => simp_all
  | some cb =>
    cases cb with
    | authPublickey user key =>
      simp only [hc] at h
      split at h
      · exact .inl (h.1 ▸ hid)
      · exact .inl (h.1 ▸ hid)
      · rename_i id' hparse
        obtain ⟨entry, hentry, hresult, rfl⟩ := h
        split at hid
        · rename_i haccept
          obtain rfl : id' = id := Option.some.inj hid
          obtain ⟨r, rfl, hkey⟩ := accept_of_verdict (hresult.symm.trans haccept)
          exact .inr ⟨user, key, r, haccept, rfl, hparse, hentry, hkey⟩
        · exact .inl hid
    | shellRequest channel =>
      simp only [hc] at h
      refine .inl ?_
      rw [h.1] at hid
      split at hid <;> exact hid
    | _ => simp_all

end Returning

def watched (lib : Libraries) : Request → Outcome → SessionView → Prop
  | .session, .session self result, v => Returns lib v self result
  | .session, .answered _, _ => False
  | _, _, _ => True

variable {lib : Libraries} {v : SessionView}

theorem lockBlind_session : LockBlind (watching .session) where
  lock _ _ := ⟨trivial, fun _ _ _ => rfl⟩
  resume _ := ⟨trivial, fun _ _ _ => rfl⟩
  unlock _ _ := ⟨trivial, fun _ _ _ => rfl⟩
  stays _ _ _ _ := rfl

/-- The callbacks end as `Returns` says; wherever they are dropped, nothing is required. -/
abbrev Watched (lib : Libraries) (x : Async Returned) (v : SessionView) : Prop :=
  x.Ensures (watching .session) (fun r => watched lib .session (.session r.1 r.2))
    (watched lib .session .dropped) v

theorem watched_authPublickey (self : SessionHandler) (user : String) (key : PublicKey) :
    Watched lib (authPublickey lib self user key)
      { self := self, callback := some (.authPublickey user key) } := by
  have hreturn {v : SessionView} {r : Returned}
      (hv : v.callback = some (.authPublickey user key)) (h : AuthReturns lib v user key r.1 r.2) :
      Watched lib (pure r) v := by
    refine Handler.ensures_pure ?_
    simpa only [watched, Returns, hv] using h
  unfold authPublickey
  cases hparse : parseVmIdFromUsername lib user with
  | error e => exact hreturn rfl (by simp [AuthReturns, hparse])
  | ok parsed =>
    cases parsed with
    | none => exact hreturn rfl (by simp [AuthReturns, hparse])
    | some id =>
      refine ensures_withLock lockBlind_session ?_ fun _ => trivial
      refine Handler.Ensures.bind (ensures_inSection (.get id) trivial fun _ entry _ => ?_)
      have hverdict {r : Returned} (h : r = if authVerdict lib key entry = .accept then
          ({ self with vmId := some id }, .accept) else (self, .reject)) : Watched lib (pure r)
          { self := self, callback := some (.authPublickey user key), entry := some (id, entry) } := by
        have hv : authVerdict lib key entry = .accept ∨ authVerdict lib key entry = .reject := by
          unfold authVerdict
          repeat' split
          all_goals simp
        refine hreturn rfl ?_
        rcases hv with hv | hv <;> simp [AuthReturns, hparse, h, hv]
      rcases entry with _ | _ | r
      · exact hverdict (by simp [authVerdict])
      · exact hverdict (by simp [authVerdict])
      · dsimp only
        rcases hkey : isKeyAuthorized lib.parsePublicKeyBase64 key r.sshKeys with _ | _ | _
        all_goals exact hverdict (by simp [authVerdict, hkey])

theorem watched_openShell {self : SessionHandler} {channel channelId : ChannelId} {id : Uuid}
    {r : VmResources} {path : String} (hvm : self.vmId = some id)
    (hchannel : self.channelId = some channelId) (hpath : r.vsockUdsPath = some path) :
    Watched lib (openShell self path channelId)
      { self := self, callback := some (.shellRequest channel), entry := some (id, some (.running r)) } := by
  have herror (v : SessionView) (hc : v.callback = some (.shellRequest channel))
      (hs : v.self = self) (hf : v.forwarded = false) : Watched lib (pure (self, .error)) v :=
    Handler.ensures_pure (by simp [watched, Returns, hc, hs, hf])
  refine Handler.Ensures.bind (Handler.ensures_await ⟨⟨channel, rfl⟩, id, r, hvm, rfl, hpath, rfl⟩
    (fun _ stream _ => ?_) fun _ => trivial)
  cases stream with
  | none => exact herror _ rfl rfl rfl
  | some stream =>
    refine Handler.Ensures.bind (Handler.ensures_await trivial (fun _ written _ => ?_)
      fun _ => trivial)
    cases written with
    | false => exact herror _ rfl rfl rfl
    | true =>
      refine Handler.Ensures.bind (Handler.ensures_await trivial (fun _ response _ => ?_)
        fun _ => trivial)
      cases response with
      | none => exact herror _ rfl rfl rfl
      | some response =>
        dsimp only
        cases handshakeAccepted response with
        | false => exact herror _ rfl rfl rfl
        | true =>
          refine Handler.Ensures.bind
            (Handler.ensures_perform (o := Op.forward stream channelId) ?_ fun _ _ _ => ?_)
          · exact ⟨⟨channel, rfl⟩, hchannel, rfl, rfl⟩
          · exact Handler.ensures_pure (by simp [watched, Returns, watching, sessionNote])

theorem watched_shellRequest (self : SessionHandler) (channel : ChannelId) :
    Watched lib (shellRequest self) { self := self, callback := some (.shellRequest channel) } := by
  have herror (v : SessionView) (hc : v.callback = some (.shellRequest channel))
      (hs : v.self = self) (hf : v.forwarded = false) : Watched lib (pure (self, .error)) v :=
    Handler.ensures_pure (by simp [watched, Returns, hc, hs, hf])
  obtain ⟨vmId, writer, channelId⟩ := self
  cases vmId with
  | none => exact herror _ rfl rfl rfl
  | some id =>
    cases channelId with
    | none => exact herror _ rfl rfl rfl
    | some channelId =>
      refine Handler.Ensures.bind (ensures_withLock lockBlind_session ?_ fun _ => trivial)
      refine Handler.Ensures.bind (ensures_inSection (.get id) trivial fun _ entry _ => ?_)
      rcases entry with _ | _ | r
      · exact Handler.ensures_pure (herror _ rfl rfl rfl)
      · exact Handler.ensures_pure (herror _ rfl rfl rfl)
      · refine Handler.ensures_pure ?_
        cases hpath : r.vsockUdsPath with
        | none => exact herror _ rfl rfl rfl
        | some path => exact watched_openShell rfl rfl hpath

theorem watched_sendToShell {cb : Callback} {bytes : Bytes} (self : SessionHandler)
    (hcb : payload cb = some bytes) :
    Watched lib (sendToShell self bytes) { self := self, callback := some cb } := by
  have hdone : Returns lib { self := self, callback := some cb } self .done := by
    cases cb <;> simp [payload] at hcb <;> simp [Returns]
  obtain ⟨vmId, writer, channelId⟩ := self
  cases writer with
  | none => exact Handler.ensures_pure hdone
  | some stream =>
    refine Handler.Ensures.bind
      (Handler.ensures_perform (o := Op.send stream bytes) ?_ fun _ _ _ => ?_)
    · exact ⟨rfl, cb, rfl, hcb⟩
    · exact Handler.ensures_pure hdone

/-- Every callback is watched from its beginning on. -/
theorem watched_callback (self : SessionHandler) (cb : Callback) :
    (calledBack (callbackCode lib self cb)).Safe (watching .session) (watched lib .session)
      { self := self, callback := some cb } := by
  refine safe_calledBack ?_
  cases cb with
  | authPublickey user key => exact watched_authPublickey self user key
  | channelOpenSession channel => exact Handler.ensures_pure ⟨rfl, rfl⟩
  | ptyRequest channel => exact Handler.ensures_pure ⟨rfl, rfl⟩
  | shellRequest channel => exact watched_shellRequest self channel
  | data channel bytes => exact watched_sendToShell self rfl
  | windowChangeRequest channel colWidth rowHeight => exact watched_sendToShell self rfl

theorem safe_unwatched {request : Request} (h : request ≠ .session) (p : Program Reply Outcome)
    (v : SessionView) : p.Safe (watching request) (watched lib request) v := by
  cases request with
  | session => exact absurd rfl h
  | _ => exact Program.safe_of_free (fun _ _ => trivial) (fun _ _ => trivial) p v

end Warlock.SessionDiscipline
