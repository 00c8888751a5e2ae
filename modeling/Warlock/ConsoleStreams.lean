import Warlock.ScriptExecutions
import Warlock.Server

/-!
# The byte stream of a console

A shell reads the reply of the vsock device once, and a task of its own then forwards what it
reads from there on to the SSH channel. A stream socket delivers the reply and the output of the
guest as one sequence of bytes, cut anywhere.
-/

namespace Warlock.ConsoleStreams
open ApplicationState EffectPrograms RustText ScriptExecutions Server ServerOperations SshSession

/-- One turn of the forwarding task: the result of its read, and whether the client still takes
data. -/
structure Turn where
  bytes : Option Bytes
  taken : Bool := true

/-- The data messages of the forwarding task, which ends with the stream or with an error. -/
def forwardLoop : List Turn → List Bytes
  | [] => []
  | ⟨none, _⟩ :: _ => []
  | ⟨some [], _⟩ :: _ => []
  | ⟨some bytes, taken⟩ :: turns => if taken then bytes :: forwardLoop turns else []

def startsForwarding : (Σ o, Reply o) → Bool
  | ⟨.forward _ _, _⟩ => true
  | _ => false

/-- What the SSH channel gets after a callback with these replies. -/
def dataMessages (replies : List (Σ o, Reply o)) (turns : List Turn) : List Bytes :=
  if replies.any startsForwarding then forwardLoop turns else []

/-- The line `OK {port}`. -/
def replyLine (port : Text) : Bytes := utf8 ("OK " ++ String.ofList port ++ "\n")

/-- The stream cut into the read of the handshake and those of the forwarding task. -/
structure Segmentation (port : Text) (guest first : Bytes) (rest : List Bytes) : Prop where
  decimal : port ≠ [] ∧ ∀ c ∈ port, isDigit c = true
  handshake : first ≠ [] ∧ first.length ≤ 32
  forwarding : ∀ chunk ∈ rest, chunk ≠ [] ∧ chunk.length ≤ 8192
  whole : first ++ rest.flatten = replyLine port ++ guest

section Forwarding

variable {rest : List Bytes} {port : Text}

/-- The task forwards what it reads, in messages of its own, until the stream is closed. -/
theorem forwardLoop_chunks (h : ∀ chunk ∈ rest, chunk ≠ []) :
    forwardLoop (rest.map (fun chunk => ⟨some chunk, true⟩) ++ [⟨some [], true⟩]) = rest := by
  induction rest with
  | nil => rfl
  | cons chunk rest ih =>
    cases chunk with
    | nil => exact absurd rfl (h [] (.head _))
    | cons b chunk =>
      have hrest : ∀ chunk ∈ rest, chunk ≠ [] := fun x hx => h x (.tail _ hx)
      simp only [List.map_cons, List.cons_append, forwardLoop, if_true]
      rw [ih hrest]

theorem toList_loop (b : ByteArray) (i : ℕ) (r : Bytes) :
    ByteArray.toList.loop b i r = r.reverse ++ b.data.toList.drop i := by
  fun_induction ByteArray.toList.loop b i r with
  | case1 i r hi ih =>
    have hi' : i < b.data.toList.length := by simpa using hi
    have hget : b.get! i = b.data.toList[i] := by simp [ByteArray.get!, hi]
    rw [ih, List.drop_eq_getElem_cons hi', hget]
    simp
  | case2 i r hi =>
    have hdrop : b.data.toList.drop i = [] := by
      rw [List.drop_eq_nil_iff]
      simpa using hi
    simp [hdrop]

theorem utf8_eq (s : String) : utf8 s = s.toByteArray.data.toList := by
  simp [utf8, ByteArray.toList, toList_loop, String.toUTF8]

theorem fromUTF8_utf8 (s : String) : String.fromUTF8? ⟨(utf8 s).toArray⟩ = some s := by
  have hbytes : (⟨(utf8 s).toArray⟩ : ByteArray) = s.toByteArray := by
    apply ByteArray.ext
    simp [utf8_eq]
  rw [hbytes, String.fromUTF8?, dif_pos s.isValidUTF8]
  rfl

theorem handshakeAccepted_replyLine (port : Text) : handshakeAccepted (replyLine port) = true := by
  have htext : ("OK " ++ String.ofList port ++ "\n").toList = "OK ".toList ++ (port ++ ['\n']) := by
    simp
  have hprefix := stripPrefix_eq_some.mpr htext
  simp only [handshakeAccepted, replyLine, fromUTF8_utf8, hprefix, Option.isSome_some]

end Forwarding

section Handshake

variable {self self' : SessionHandler} {result : CallbackResult} {path : String}
  {channel : ChannelId} {replies : List (Σ o, Reply o)} {stream : StreamId} {limit : ℕ}
  {first : Bytes}

/-- The outcome of a shell whose handshake has been answered by `first`. -/
structure Answered (replies : List (Σ o, Reply o)) (result : CallbackResult) (limit : ℕ)
    (first : Bytes) : Prop where
  limit : limit = 32
  done : result = .done ↔ handshakeAccepted first = true
  forwarding : replies.any startsForwarding = handshakeAccepted first

theorem openShell_answered
    (h : Course (calledBack (openShell self path channel)) replies (.session self' result))
    (hread : ⟨.read stream limit, some first⟩ ∈ replies) : Answered replies result limit first := by
  change Course (Async.await (.connect path) _ _) _ _ at h
  obtain ⟨connected, replies₁, rfl, h₁⟩ := Course.of_op h
  cases connected with
  | none =>
    obtain ⟨rfl, _⟩ := h₁.of_ret
    simp at hread
  | some s =>
  obtain ⟨written, replies₂, rfl, h₂⟩ := h₁.of_op
  cases written with
  | false =>
    obtain ⟨rfl, _⟩ := h₂.of_ret
    simp at hread
  | true =>
  obtain ⟨response, replies₃, rfl, h₃⟩ := h₂.of_op
  cases response with
  | none =>
    obtain ⟨rfl, _⟩ := h₃.of_ret
    simp at hread
  | some response =>
  simp only [Bool.not_eq_eq_eq_not, Bool.not_true] at h₃
  cases hok : handshakeAccepted response with
  | false =>
    rw [if_pos hok] at h₃
    obtain ⟨rfl, hresult⟩ := Course.of_ret h₃
    obtain ⟨⟨rfl, rfl⟩, rfl⟩ : (stream = s ∧ limit = 32) ∧ first = response := by
      simpa using hread
    obtain ⟨_, rfl⟩ : self' = self ∧ result = .error := by simpa using hresult
    exact ⟨rfl, by simp [hok], by simp [startsForwarding, hok]⟩
  | true =>
    rw [if_neg (by simp [hok])] at h₃
    change Course (Async.perform (.forward s channel) _ _) _ _ at h₃
    obtain ⟨_, replies₄, rfl, h₄⟩ := Course.of_op h₃
    obtain ⟨rfl, hresult⟩ := Course.of_ret h₄
    obtain ⟨⟨rfl, rfl⟩, rfl⟩ : (stream = s ∧ limit = 32) ∧ first = response := by
      simpa using hread
    obtain ⟨_, rfl⟩ : self' = { self with udsWriter := some stream } ∧ result = .done := by
      simpa using hresult
    exact ⟨rfl, by simp [hok], by simp [startsForwarding, hok]⟩

theorem unread_of_refused {u : Program Reply Outcome} {leaf leaf' : Outcome}
    (h : Course (Async.perform (.unlock .registry) u fun _ => .ret leaf) replies leaf') :
    (⟨.read stream limit, some first⟩ : Σ o, Reply o) ∉ replies := by
  obtain ⟨_, later, rfl, hlater⟩ := Course.of_op h
  obtain ⟨rfl, _⟩ := Course.of_ret hlater
  simp

/-- The lookup of the VM comes before the handshake, and it reads no stream. -/
theorem shellRequest_answered
    (h : Course (calledBack (shellRequest self)) replies (.session self' result))
    (hread : ⟨.read stream limit, some first⟩ ∈ replies) : Answered replies result limit first := by
  obtain ⟨vmId, udsWriter, channelId⟩ := self
  cases vmId with
  | none =>
    obtain ⟨rfl, _⟩ := Course.of_ret h
    simp at hread
  | some vmId =>
  cases channelId with
  | none =>
    obtain ⟨rfl, _⟩ := Course.of_ret h
    simp at hread
  | some channel =>
  change Course (Async.await (.lock .registry) _ _) _ _ at h
  obtain ⟨_, replies₁, rfl, h₁⟩ := Course.of_op h
  obtain ⟨_, replies₂, rfl, h₂⟩ := Course.of_op h₁
  change Course (Async.perform (.vms (.get vmId)) _ _) _ _ at h₂
  obtain ⟨entry, replies₃, rfl, h₃⟩ := Course.of_op h₂
  have hlater : ⟨.read stream limit, some first⟩ ∈ replies₃ := by simpa using hread
  rcases entry with _ | r | r
  · exact absurd hlater (unread_of_refused h₃)
  · exact absurd hlater (unread_of_refused h₃)
  obtain ⟨vcpus, memoryMb, rootfsCopy, tapName, subnetIndex, natHandles, guestIp, path, sshKeys⟩ := r
  cases path with
  | none => exact absurd hlater (unread_of_refused h₃)
  | some path =>
  change Course (Async.perform (.unlock .registry) _ _) _ _ at h₃
  obtain ⟨_, replies₄, rfl, h₄⟩ := Course.of_op h₃
  have hread₄ : ⟨.read stream limit, some first⟩ ∈ replies₄ := by simpa using hlater
  have hanswered := openShell_answered h₄ hread₄
  exact ⟨hanswered.limit, hanswered.done, by simpa [startsForwarding] using hanswered.forwarding⟩

end Handshake

/-- Nothing of the console is lost, repeated or added exactly if the first read ends where the
reply line ends. -/
theorem console_lossless {port : Text} {guest first : Bytes} {rest : List Bytes}
    {self self' : SessionHandler} {result : CallbackResult} {replies : List (Σ o, Reply o)}
    {stream : StreamId} {limit : ℕ} (hcut : Segmentation port guest first rest)
    (h : Course (calledBack (shellRequest self)) replies (.session self' result))
    (hread : ⟨.read stream limit, some first⟩ ∈ replies) :
    (result = .done ∧ (dataMessages replies
      (rest.map (fun chunk => ⟨some chunk, true⟩) ++ [⟨some [], true⟩])).flatten = guest) ↔
      first = replyLine port := by
  have hanswered := shellRequest_answered h hread
  have hforwarded := forwardLoop_chunks fun chunk hc => (hcut.forwarding chunk hc).1
  rw [hanswered.done, dataMessages, hanswered.forwarding, hforwarded]
  constructor
  · intro hlossless
    obtain ⟨haccepted, hguest⟩ := hlossless
    rw [if_pos haccepted] at hguest
    have hwhole := hcut.whole
    rw [hguest] at hwhole
    exact List.append_cancel_right hwhole
  · intro hfirst
    have haccepted : handshakeAccepted first = true := hfirst ▸ handshakeAccepted_replyLine port
    have hwhole := hcut.whole
    rw [hfirst] at hwhole
    rw [if_pos haccepted]
    exact ⟨haccepted, List.append_cancel_left hwhole⟩

section Samples

def authenticated : SessionHandler := { vmId := some 1, channelId := some 5 }

/-- The replies to a shell on a running VM whose handshake is answered by `first`. -/
def repliesTo (first : Bytes) : List (Σ o, Reply o) :=
  [⟨.lock .registry, ()⟩, ⟨.resume, ()⟩,
    ⟨.vms (.get 1), some (.running ⟨1, 128, none, none, none, none, none, some "v.sock", []⟩)⟩,
    ⟨.unlock .registry, ()⟩, ⟨.connect "v.sock", some 0⟩,
    ⟨.writeAll 0 (utf8 "CONNECT 1024\n"), true⟩, ⟨.read 0 32, some first⟩]

def helloBytes : Bytes := [104, 105]

theorem replyLine_one : replyLine ['1'] = [79, 75, 32, 49, 10] := by
  rw [replyLine, utf8_eq]
  decide

theorem course_accepted {first : Bytes} (h : handshakeAccepted first = true) :
    Course (calledBack (shellRequest authenticated)) (repliesTo first ++ [⟨.forward 0 5, ()⟩])
      (.session { authenticated with udsWriter := some 0 } .done) := by
  have hforward : Course ((if (!handshakeAccepted first) = true then
      (return (authenticated, .error) : Async Returned) else do
        Async.perform (.forward 0 5)
        return ({ authenticated with udsWriter := some 0 }, .done)) (.ret .dropped)
          fun r => .ret (.session r.1 r.2)) [⟨.forward 0 5, ()⟩]
      (.session { authenticated with udsWriter := some 0 } .done) := by
    rw [if_neg (by simp [h])]
    exact .op (.ret _)
  exact .op (.op (.op (.op (.op (.op (.op hforward))))))

theorem isDigit_one : ∀ c ∈ ['1'], isDigit c = true := List.forall_mem_singleton.mpr (by decide)

/-- The reply line alone, then the output of the guest. -/
theorem console_lossless_split : (CallbackResult.done = .done ∧
    (dataMessages (repliesTo [79, 75, 32, 49, 10] ++ [⟨.forward 0 5, ()⟩])
      [⟨some helloBytes, true⟩, ⟨some [], true⟩]).flatten = helloBytes) := by
  have hcut : Segmentation ['1'] helloBytes [79, 75, 32, 49, 10] [helloBytes] :=
    ⟨⟨by decide, isDigit_one⟩, by decide, by decide, by rw [replyLine_one]; decide⟩
  have haccepted := handshakeAccepted_replyLine ['1']
  rw [replyLine_one] at haccepted
  have hread : (⟨.read 0 32, some [79, 75, 32, 49, 10]⟩ : Σ o, Reply o) ∈
      repliesTo [79, 75, 32, 49, 10] ++ [⟨.forward 0 5, ()⟩] := by simp [repliesTo]
  exact (console_lossless hcut (course_accepted haccepted) hread).mpr replyLine_one.symm

/-- The reply line and the output of the guest in one read: the output is lost. -/
theorem console_loses : ¬ ∀ (port : Text) (guest first : Bytes) (rest : List Bytes)
    (self self' : SessionHandler) (result : CallbackResult) (replies : List (Σ o, Reply o))
    (stream : StreamId) (limit : ℕ), Segmentation port guest first rest →
    Course (calledBack (shellRequest self)) replies (.session self' result) →
    ⟨.read stream limit, some first⟩ ∈ replies →
    result = .done ∧ (dataMessages replies
      (rest.map (fun chunk => ⟨some chunk, true⟩) ++ [⟨some [], true⟩])).flatten = guest := by
  intro h
  have hcut : Segmentation ['1'] helloBytes [79, 75, 32, 49, 10, 104, 105] [] :=
    ⟨⟨by decide, isDigit_one⟩, by decide, by decide, by rw [replyLine_one]; decide⟩
  have haccepted : handshakeAccepted [79, 75, 32, 49, 10, 104, 105] = true := by decide
  have hlossless := h _ _ _ _ _ _ _ _ 0 32 hcut (course_accepted haccepted) (by simp [repliesTo])
  exact absurd hlossless.2 (by decide)

end Samples

end Warlock.ConsoleStreams
