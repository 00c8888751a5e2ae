import Warlock.SessionHistories

/-!
# The input of a console

A session greets the vsock device, and from the shell on it hands what the client types to a queue
of its own. A task of the shell writes the messages of the queue to the stream, one after the
other, until a write fails. Whatever the sessions and the writing tasks do in between each other,
what arrives on a stream is the greeting and then the input of the session that has opened it, in
order, each byte once.
-/

namespace Warlock.ConsoleInput
open ApplicationState EffectPrograms MachineIntegers QuietHandlers ReservationProtocol Server
  ServerOperations SessionDiscipline SessionHistories SshSession TaskViews TransitionSystems

/-- The line that a session greets the vsock device with. -/
def greeting : Bytes := utf8 "CONNECT 1024\n"

/-- What a session does to a stream. -/
inductive Touch
  | put (bytes : Bytes) (written : Bool)
  | forward
  | send (bytes : Bytes)

section Wires

/-- A stream: what has been written to it, and the task that forwards to it with its queue. -/
structure Wire where
  written : Bytes := []
  running : Bool := false
  queue : List Bytes := []

/-- A write that fails has written the bytes before `cut`; without the task, a message is lost. -/
def Wire.touched (w : Wire) (cut : ℕ) : Touch → Wire
  | .put bytes true => { w with written := w.written ++ bytes }
  | .put bytes false => { w with written := w.written ++ bytes.take cut }
  | .forward => { w with running := true }
  | .send bytes => if w.running then { w with queue := w.queue ++ [bytes] } else w

/-- One turn of the writing task, which ends with the first write that fails. -/
def Wire.wrote (w : Wire) (failed : Option ℕ) : Option Wire :=
  match w.running, w.queue, failed with
  | true, bytes :: queue, none => some ⟨w.written ++ bytes, true, queue⟩
  | true, bytes :: _, some cut => some ⟨w.written ++ bytes.take cut, false, []⟩
  | _, _, _ => none

/-- How a session goes on with a stream. -/
inductive Follows : List Touch → Touch → Prop
  | greet (written : Bool) : Follows [] (.put greeting written)
  | forward : Follows [.put greeting true] .forward
  | send (sent : List Bytes) (bytes : Bytes) :
      Follows (.put greeting true :: .forward :: sent.map .send) (.send bytes)

/-- What a stream carries after the given touches. -/
inductive Carries : Wire → List Touch → Prop
  | idle : Carries {} []
  | refused (cut : ℕ) : Carries { written := greeting.take cut } [.put greeting false]
  | greeted : Carries { written := greeting } [.put greeting true]
  | running (sent : List Bytes) (written : Bytes) (queue : List Bytes)
      (h : written ++ queue.flatten = sent.flatten) :
      Carries ⟨greeting ++ written, true, queue⟩
        (.put greeting true :: .forward :: sent.map .send)
  | stopped (sent : List Bytes) (written : Bytes) (h : written <+: sent.flatten) :
      Carries ⟨greeting ++ written, false, []⟩ (.put greeting true :: .forward :: sent.map .send)

variable {w w' : Wire} {touches : List Touch} {touch : Touch} {cut : ℕ} {failed : Option ℕ}

theorem sent_inj {sent sent' : List Bytes} (h : sent.map Touch.send = sent'.map Touch.send) :
    sent = sent' := by
  have hsend : Function.Injective Touch.send := fun a b hab => by simpa using hab
  exact hsend.list_map h

theorem Carries.touched (h : Carries w touches) (ht : Follows touches touch) :
    Carries (w.touched cut touch) (touches ++ [touch]) := by
  cases ht with
  | greet written =>
    cases h
    cases written with
    | true => exact .greeted
    | false => exact .refused cut
  | forward =>
    cases h
    simpa [Wire.touched] using Carries.running [] [] [] rfl
  | send sent bytes =>
    have hlist : (.put greeting true :: .forward :: sent.map .send) ++ [.send bytes] =
        (.put greeting true :: .forward :: (sent ++ [bytes]).map .send : List Touch) := by simp
    rw [hlist]
    generalize hts : (.put greeting true :: .forward :: sent.map .send : List Touch) = ts at h
    cases h with
    | idle | refused | greeted => simp at hts
    | running sent' written queue hw =>
      obtain rfl := sent_inj (by simpa using hts)
      refine .running _ written (queue ++ [bytes]) ?_
      simp [← hw]
    | stopped sent' written hw =>
      obtain rfl := sent_inj (by simpa using hts)
      refine .stopped _ written (hw.trans ?_)
      simp

theorem Carries.wrote (h : Carries w touches) (hw : w.wrote failed = some w') :
    Carries w' touches := by
  cases h with
  | idle | refused | greeted => simp [Wire.wrote] at hw
  | stopped => simp [Wire.wrote] at hw
  | running sent written queue hq =>
    cases queue with
    | nil => simp [Wire.wrote] at hw
    | cons bytes queue =>
      cases failed with
      | none =>
        obtain rfl := Option.some.inj hw
        simpa using Carries.running sent (written ++ bytes) queue (by simpa using hq)
      | some cut =>
        obtain rfl := Option.some.inj hw
        refine List.append_assoc greeting _ _ ▸ Carries.stopped sent (written ++ bytes.take cut) ?_
        rw [← hq, List.flatten_cons]
        exact (List.prefix_append_right_inj _).mpr
          ((List.take_prefix _ _).trans (List.prefix_append _ _))

end Wires

section Histories

/-- What the next step of session `n` does to the stream. -/
def touchOf (stream : StreamId) (s : State) (n : ℕ) (c : Choice) : Option Touch :=
  match sessionOp s n with
  | some (.writeAll st bytes) => if st = stream then some (.put bytes c.succeeds) else none
  | some (.forward st _) => if st = stream then some .forward else none
  | some (.send st bytes) => if st = stream then some (.send bytes) else none
  | _ => none

/-- What the sessions that `who` picks have done to the stream. -/
def touches (who : ℕ → Bool) (stream : StreamId) : History → List Touch
  | [] => []
  | (s, .run n c) :: past =>
    if who n then touches who stream past ++ (touchOf stream s n c).toList
    else touches who stream past
  | _ :: past => touches who stream past

/-- What a session has been given to type while its last shell was on the stream. -/
def inputs (n : ℕ) (stream : StreamId) : History → List Bytes
  | [] => []
  | (_, .callback k cb) :: past =>
    if k = n ∧ (lastShell n past).map (·.2) = some stream then
      inputs n stream past ++ (payload cb).toList
    else inputs n stream past
  | _ :: past => inputs n stream past

/-- The message that a session is about to send. -/
def pending (s : State) (n : ℕ) (stream : StreamId) : List Bytes :=
  match sessionOp s n with
  | some (.send st bytes) => if st = stream then [bytes] else []
  | _ => []

def Touch.message : Touch → Option Bytes
  | .send bytes => some bytes
  | .put _ _ | .forward => none

variable {config : AppConfig} {lib : Libraries} {past : History} {s : State} {n m : ℕ}
  {stream : StreamId} {t : HandlerTask} {c : Choice} {who : ℕ → Bool} {e : Event}

theorem touches_others (h : e.subject ≠ some n) :
    touches (· = n) stream ((s, e) :: past) = touches (· = n) stream past := by
  cases e with
  | run k c =>
    have hk : k ≠ n := fun hk => h (congrArg some hk)
    simp [touches, hk]
  | _ => rfl

theorem inputs_others (h : e.subject ≠ some n) :
    inputs n stream ((s, e) :: past) = inputs n stream past := by
  cases e with
  | callback k cb =>
    have hk : k ≠ n := fun hk => h (congrArg some hk)
    simp [inputs, hk]
  | _ => rfl

theorem sessionOp_of_task {o : Op} {may : Exit → Bool} {exit : Exit → Program Reply Outcome}
    {next : Reply o → Program Reply Outcome} {l : Ledgers.Ledger}
    (hn : s.tasks[n]? = some ⟨.session, .op o may exit next, l⟩) : sessionOp s n = some o := by
  simp [sessionOp, hn]

/-- Two sessions do not get the same stream. -/
theorem connected_unique (h : (server config lib).Run past s) (hn : Connected past n stream)
    (hm : Connected past m stream) : m = n := by
  induction h with
  | refl =>
    obtain ⟨_, _, _, _, hp, _⟩ := hn
    simp at hp
  | @step past a b e hrun he ih =>
    have hfresh {k : ℕ} (hk : Connected past k stream) : stream < a.shared.streams :=
      connected_lt hrun hk
    have hsplit {k : ℕ} (hk : Connected ((a, e) :: past) k stream) : Connected past k stream ∨
        a.shared.streams = stream ∧ ∃ c, e = .run k c := by
      obtain ⟨a', c, t, path, hp, ht, ho, hok, hst⟩ := hk
      rcases List.mem_cons.mp hp with heq | hp
      · obtain ⟨rfl, rfl⟩ := Prod.mk.inj heq
        exact .inr ⟨hst, c, rfl⟩
      · exact .inl ⟨a', c, t, path, hp, ht, ho, hok, hst⟩
    rcases hsplit hn with hn | ⟨hst, c, rfl⟩
    · rcases hsplit hm with hm | ⟨hst, _⟩
      · exact ih hn hm
      · exact absurd (hfresh hn) (by simp [hst])
    · rcases hsplit hm with hm | ⟨_, c', heq⟩
      · exact absurd (hfresh hm) (by simp [hst])
      · exact (Event.run.inj heq).1.symm

end Histories

section Talks

/-- How far a session is with the stream it has connected to in its current callback. -/
inductive Phase
  | connected
  | refused
  | greeted
  | forwarded
  deriving DecidableEq

/-- What a session does with the streams in its current callback. -/
structure Talk where
  ahead : Option Bytes := none
  writer : Option StreamId := none
  stream : Option StreamId := none
  phase : Phase := .connected

def talkRequires : Op → Talk → Prop
  | .writeAll st bytes, v =>
    v.ahead = none ∧ v.stream = some st ∧ v.phase = .connected ∧ bytes = greeting
  | .forward st _, v => v.ahead = none ∧ v.stream = some st ∧ v.phase = .greeted
  | .send st bytes, v => v.writer = some st ∧ v.ahead = some bytes
  | _, v => v.ahead = none

def noteTalk (v : Talk) : (o : Op) → Reply o → Talk
  | .connect _, some st => { v with stream := some st, phase := .connected }
  | .writeAll _ _, written => { v with phase := if written then .greeted else .refused }
  | .forward _ _, _ => { v with phase := .forwarded }
  | .send _ _, _ => { v with ahead := none }
  | _, _ => v

def talkAllows : (o : Op) → Choice → Reply o → Talk → Prop
  | .writeAll _ _, c, written, _ => written = c.succeeds
  | _, _, _, _ => True

/-- Sessions are listened to, other tasks are not. -/
def talking : Request → Discipline Reply Choice Talk
  | .session =>
    { requires := talkRequires
      allows := talkAllows
      note := fun o _ r v => noteTalk v o r
      considers := fun _ _ _ => True
      leave := fun _ v => v }
  | _ =>
    { requires := fun _ _ => True
      allows := fun _ _ _ _ => True
      note := fun _ _ _ v => v
      considers := fun _ _ _ => True
      leave := fun _ v => v }

/-- Wherever a callback ends, nothing is left to be sent. -/
def talked : Request → Outcome → Talk → Prop
  | .session, _, v => v.ahead = none
  | _, _, _ => True

abbrev Talks {α : Type} (x : Async α) (v : Talk) : Prop :=
  x.Ensures (talking .session) (fun _ w => w.ahead = none) (fun w => w.ahead = none) v

variable {lib : Libraries} {v : Talk} {α : Type}

theorem talks_pure {a : α} (h : v.ahead = none) : Talks (pure a) v := Handler.ensures_pure h

theorem talks_await {o : Op} {f : Reply o → Async α} (hv : v.ahead = none) (h : talkRequires o v)
    (hf : ∀ c r, talkAllows o c r v → Talks (f r) (noteTalk v o r)) :
    Talks (Async.await o >>= f) v :=
  Handler.Ensures.bind (Handler.ensures_await h hf fun _ => hv)

theorem talks_locked {m : Mutex} {body : Async α} (h : v.ahead = none)
    (hb : ∀ w : Talk, w.ahead = none → Talks body w) : Talks (withLock m body) v := by
  have hunlock (w : Talk) (hw : w.ahead = none) : (Code.perform (.unlock m)).Safe
      (talking .session) (fun _ w => w.ahead = none) w := ⟨hw, fun _ _ _ => hw⟩
  refine talks_await (o := Op.lock m) h h fun _ _ _ => Handler.Ensures.owning ?_
  exact (talks_await (o := Op.resume) h h fun _ _ _ => hb v h).mono (fun _ => hunlock) hunlock

theorem talks_inSection {sec : VmRegistry.Section} {f : sec.Reply → Async α} (h : v.ahead = none)
    (hf : ∀ r, Talks (f r) v) : Talks (inSection sec >>= f) v :=
  Handler.Ensures.bind (ensures_inSection sec h fun _ r _ => hf r)

theorem talks_authPublickey {self : SessionHandler} {user : String}
    {key : AuthorizedKeys.PublicKey} (h : v.ahead = none) :
    Talks (authPublickey lib self user key) v := by
  unfold authPublickey
  rcases parseVmIdFromUsername lib user with _ | _ | id
  · exact talks_pure h
  · exact talks_pure h
  · refine talks_locked h fun w hw => talks_inSection hw fun entry => ?_
    rcases entry with _ | _ | r
    · exact talks_pure hw
    · exact talks_pure hw
    · dsimp only
      rcases AuthorizedKeys.isKeyAuthorized lib.parsePublicKeyBase64 key r.sshKeys with _ | _ | _
      all_goals exact talks_pure hw

/-- The shell greets the stream it has got, once, and forwards to it only after an answer. -/
theorem talks_openShell {self : SessionHandler} {path : String} {channelId : ChannelId}
    (h : v.ahead = none) : Talks (openShell self path channelId) v := by
  refine talks_await (o := Op.connect path) h h fun _ stream _ => ?_
  cases stream with
  | none => exact talks_pure h
  | some stream =>
    refine talks_await h ⟨h, rfl, rfl, rfl⟩ fun _ written _ => ?_
    cases written with
    | false => exact talks_pure h
    | true =>
      refine talks_await (o := Op.read stream 32) h h fun _ response _ => ?_
      cases response with
      | none => exact talks_pure h
      | some response =>
        dsimp only
        cases handshakeAccepted response with
        | false => exact talks_pure h
        | true =>
          exact Handler.Ensures.bind (Handler.ensures_perform (o := Op.forward stream channelId)
            ⟨h, rfl, rfl⟩ fun _ _ _ => talks_pure h)

theorem talks_shellRequest {self : SessionHandler} (h : v.ahead = none) :
    Talks (shellRequest self) v := by
  obtain ⟨vmId, writer, channelId⟩ := self
  cases vmId with
  | none => exact talks_pure h
  | some id =>
    cases channelId with
    | none => exact talks_pure h
    | some channelId =>
      have hpath : Talks (vsockUdsPathOf id) v := by
        refine talks_locked h fun w hw => talks_inSection hw fun entry => ?_
        rcases entry with _ | _ | r <;> exact talks_pure hw
      refine Handler.Ensures.bind (hpath.mono (fun path w hw => ?_) fun _ hw => hw)
      cases path with
      | none => exact talks_pure hw
      | some path => exact talks_openShell hw

theorem talks_sendToShell {self : SessionHandler} {bytes : Bytes}
    (h : v.ahead = if self.udsWriter.isSome then some bytes else none)
    (hw : v.writer = self.udsWriter) : Talks (sendToShell self bytes) v := by
  obtain ⟨vmId, writer, channelId⟩ := self
  cases writer with
  | none => exact talks_pure h
  | some stream => exact Handler.Ensures.bind (Handler.ensures_perform (o := Op.send stream bytes)
      ⟨hw, h⟩ fun _ _ _ => talks_pure rfl)

/-- What a session that rests begins a callback with. -/
def talkOf (self : SessionHandler) (cb : Callback) : Talk where
  ahead := if self.udsWriter.isSome then payload cb else none
  writer := self.udsWriter

theorem talks_callback (self : SessionHandler) (cb : Callback) :
    (calledBack (callbackCode lib self cb)).Safe (talking .session) (talked .session)
      (talkOf self cb) := by
  refine safe_calledBack ?_
  have hnone (hp : payload cb = none) : (talkOf self cb).ahead = none := by simp [talkOf, hp]
  cases cb with
  | authPublickey user key => exact talks_authPublickey (hnone rfl)
  | channelOpenSession channel => exact Handler.ensures_pure (hnone rfl)
  | ptyRequest channel => exact Handler.ensures_pure (hnone rfl)
  | shellRequest channel => exact talks_shellRequest (hnone rfl)
  | data channel bytes => exact talks_sendToShell rfl rfl
  | windowChangeRequest channel colWidth rowHeight => exact talks_sendToShell rfl rfl

theorem safe_untold {request : Request} (h : request ≠ .session) (p : Program Reply Outcome)
    (v : Talk) : p.Safe (talking request) (talked request) v := by
  cases request with
  | session => exact absurd rfl h
  | _ => exact Program.safe_of_free (fun _ _ => trivial) (fun _ _ => trivial) p v

end Talks

section Sessions

def opening : Phase → List Touch
  | .connected => []
  | .refused => [.put greeting false]
  | .greeted => [.put greeting true]
  | .forwarded => [.put greeting true, .forward]

/-- What the talk of a session says of its history. -/
structure Speaks (past : History) (n : ℕ) (v : Talk) : Prop where
  current : ∀ k, v.stream = some k →
    Connected past n k ∧ touches (· = n) k past = opening v.phase
  owned : ∀ k, touches (· = n) k past ≠ [] → Connected past n k
  shell : ∀ k, (lastShell n past).map (·.2) = some k →
    ∃ sent : List Bytes, touches (· = n) k past = opening .forwarded ++ sent.map .send
  inputs : ∀ k, inputs n k past = (touches (· = n) k past).filterMap Touch.message ++
    if (lastShell n past).map (·.2) = some k then v.ahead.toList else []
  writer : v.ahead ≠ none → v.stream = none ∧ v.writer = (lastShell n past).map (·.2)

variable {config : AppConfig} {lib : Libraries} {past : History} {s : State} {n : ℕ}
  {stream : StreamId} {t : HandlerTask} {c : Choice} {v : Talk} {p : State × Event} {o : Op}

theorem Speaks.beside (h : Speaks past n v)
    (ht : ∀ k, touches (· = n) k (p :: past) = touches (· = n) k past)
    (hl : lastShell n (p :: past) = lastShell n past)
    (hi : ∀ k, ConsoleInput.inputs n k (p :: past) = ConsoleInput.inputs n k past) :
    Speaks (p :: past) n v where
  current k hk := by
    obtain ⟨hc, hp⟩ := h.current k hk
    exact ⟨hc.tail, (ht k).trans hp⟩
  owned k hk := (h.owned k (ht k ▸ hk)).tail
  shell k hk := by
    rw [ht]
    exact h.shell k (hl ▸ hk)
  inputs k := by rw [hi, ht, hl, h.inputs]
  writer ha := by
    rw [hl]
    exact h.writer ha

theorem Speaks.initial (hp : ∀ p ∈ past, p.2.subject ≠ some n) : Speaks past n {} := by
  induction past with
  | nil => exact ⟨by simp, by simp [touches], by simp [lastShell],
      by simp [ConsoleInput.inputs, touches], by simp⟩
  | cons p past ih =>
    have hne : p.2.subject ≠ some n := hp p (.head _)
    exact (ih fun q hq => hp q (.tail _ hq)).beside (fun _ => touches_others hne)
      (lastShell_others hne) fun _ => inputs_others hne

theorem touches_run : touches (· = n) stream ((s, .run n c) :: past) =
    touches (· = n) stream past ++ (touchOf stream s n c).toList := by simp [touches]

/-- A step of the session that touches no stream. -/
theorem Speaks.untouched (h : Speaks past n v) (hn : s.tasks[n]? = some t) (ho : t.nextOp = some o)
    (hne : ∀ st channel, o ≠ .forward st channel) (ht : ∀ k, touchOf k s n c = none) :
    Speaks ((s, .run n c) :: past) n v :=
  h.beside (fun k => by simp [touches_run, ht]) (beside_run hn ho hne).shell fun _ => rfl

/-- The stream that the session greets has not been heard of before. -/
theorem Speaks.connect (h : Speaks past n v) (hr : (server config lib).Run past s)
    (hn : s.tasks[n]? = some t) {path : String} (ho : t.nextOp = some (.connect path))
    (hok : c.succeeds = true) (ht : ∀ k, touchOf k s n c = none) (hahead : v.ahead = none) :
    Speaks ((s, .run n c) :: past) n
      { v with stream := some s.shared.streams, phase := .connected } := by
  have h' : Speaks ((s, .run n c) :: past) n v := h.untouched hn ho (by simp) ht
  refine ⟨fun k hk => ?_, h'.owned, h'.shell, h'.inputs, by simp [hahead]⟩
  obtain rfl : s.shared.streams = k := Option.some.inj hk
  refine ⟨⟨s, c, t, path, .head _, hn, ho, hok, rfl⟩, ?_⟩
  by_contra hne
  have hold : touches (· = n) s.shared.streams past ≠ [] := by
    rwa [touches_run, ht, Option.toList_none, List.append_nil] at hne
  exact lt_irrefl _ (connected_lt hr (h.owned _ hold))

theorem touches_touch (past : History) {st : StreamId} {touch : Touch}
    (ht : ∀ k, touchOf k s n c = if st = k then some touch else none) (k : StreamId) :
    touches (· = n) k ((s, .run n c) :: past) =
      touches (· = n) k past ++ if st = k then [touch] else [] := by
  rw [touches_run, ht]
  split <;> simp

theorem Speaks.put (h : Speaks past n v) (hn : s.tasks[n]? = some t) {st : StreamId}
    (ho : t.nextOp = some (.writeAll st greeting))
    (hs : sessionOp s n = some (.writeAll st greeting)) (hst : v.stream = some st)
    (hphase : v.phase = .connected) (hahead : v.ahead = none) :
    Speaks ((s, .run n c) :: past) n
      { v with phase := if c.succeeds then .greeted else .refused } := by
  have hto (k : StreamId) :
      touchOf k s n c = if st = k then some (.put greeting c.succeeds) else none := by
    simp only [touchOf, hs]
  have ht := touches_touch past hto
  have hl : lastShell n ((s, .run n c) :: past) = lastShell n past :=
    (beside_run hn ho (by simp)).shell
  obtain ⟨hc, hp⟩ := h.current st hst
  have hfirst : touches (· = n) st past = [] := by rw [hp, hphase, opening]
  refine ⟨fun k hk => ?_, fun k hk => ?_, fun k hk => ?_, fun k => ?_, by simp [hahead]⟩
  · obtain rfl : st = k := Option.some.inj (hst.symm.trans hk)
    refine ⟨hc.tail, ?_⟩
    rw [ht, hfirst]
    cases hok : c.succeeds <;> simp [opening]
  · rw [ht] at hk
    by_cases hk' : st = k
    · exact hk' ▸ hc.tail
    · exact (h.owned k (by simpa [hk'] using hk)).tail
  · rw [hl] at hk
    obtain ⟨sent, hsent⟩ := h.shell k hk
    by_cases hk' : st = k
    · rw [← hk', hfirst] at hsent
      simp [opening] at hsent
    · exact ⟨sent, by simpa [ht, hk'] using hsent⟩
  · rw [hl, ht]
    have hinputs : ConsoleInput.inputs n k ((s, .run n c) :: past) =
      ConsoleInput.inputs n k past := rfl
    rw [hinputs, h.inputs]
    split <;> simp [Touch.message, hahead]

theorem Speaks.forward (h : Speaks past n v) (hn : s.tasks[n]? = some t) {st : StreamId}
    {channel x : ChannelId} (ho : t.nextOp = some (.forward st x))
    (hs : sessionOp s n = some (.forward st x)) (hst : v.stream = some st)
    (hphase : v.phase = .greeted) (hahead : v.ahead = none)
    (hcurrent : currentCallback n past = some (.shellRequest channel)) :
    Speaks ((s, .run n c) :: past) n { v with phase := .forwarded } := by
  have hto (k : StreamId) : touchOf k s n c = if st = k then some .forward else none := by
    simp only [touchOf, hs]
  have ht := touches_touch past hto
  have hl : lastShell n ((s, .run n c) :: past) = some (channel, st) := by
    simp [lastShell, hn, ho, hcurrent]
  obtain ⟨hc, hp⟩ := h.current st hst
  have hgreeted : touches (· = n) st past = [.put greeting true] := by rw [hp, hphase, opening]
  refine ⟨fun k hk => ?_, fun k hk => ?_, fun k hk => ?_, fun k => ?_, by simp [hahead]⟩
  · obtain rfl : st = k := Option.some.inj (hst.symm.trans hk)
    refine ⟨hc.tail, ?_⟩
    rw [ht, hgreeted]
    simp [opening]
  · rw [ht] at hk
    by_cases hk' : st = k
    · exact hk' ▸ hc.tail
    · exact (h.owned k (by simpa [hk'] using hk)).tail
  · obtain rfl : st = k := by simpa [hl] using hk
    exact ⟨[], by simp [ht, hgreeted, opening]⟩
  · have hinputs : ConsoleInput.inputs n k ((s, .run n c) :: past) =
      ConsoleInput.inputs n k past := rfl
    rw [hinputs, h.inputs, ht]
    split <;> simp [Touch.message, hahead]

theorem Speaks.send (h : Speaks past n v) (hn : s.tasks[n]? = some t) {st : StreamId}
    {bytes : Bytes} (ho : t.nextOp = some (.send st bytes))
    (hs : sessionOp s n = some (.send st bytes)) (hwriter : v.writer = some st)
    (hahead : v.ahead = some bytes) :
    Speaks ((s, .run n c) :: past) n { v with ahead := none } := by
  have hto (k : StreamId) : touchOf k s n c = if st = k then some (.send bytes) else none := by
    simp only [touchOf, hs]
  have ht := touches_touch past hto
  have hl : lastShell n ((s, .run n c) :: past) = lastShell n past :=
    (beside_run hn ho (by simp)).shell
  obtain ⟨hstream, hlast⟩ := h.writer (by simp [hahead])
  have hshell : (lastShell n past).map (·.2) = some st := hlast ▸ hwriter
  obtain ⟨sent, hsent⟩ := h.shell st hshell
  refine ⟨by simp [hstream], fun k hk => ?_, fun k hk => ?_, fun k => ?_, by simp⟩
  · rw [ht] at hk
    by_cases hk' : st = k
    · subst hk'
      exact (h.owned st (by simp [hsent, opening])).tail
    · exact (h.owned k (by simpa [hk'] using hk)).tail
  · obtain rfl : st = k := by simpa [hl, hshell] using hk
    exact ⟨sent ++ [bytes], by simp [ht, hsent]⟩
  · have hinputs : ConsoleInput.inputs n k ((s, .run n c) :: past) =
      ConsoleInput.inputs n k past := rfl
    rw [hinputs, h.inputs, ht, hl, hshell]
    by_cases hk : st = k <;> simp [hk, Touch.message, hahead]

/-- One step of a session that talks as it should. -/
theorem Speaks.run {may : Exit → Bool} {exit : Exit → Program Reply Outcome}
    {next : Reply o → Program Reply Outcome} {l : Ledgers.Ledger} {sh : Shared} {reply : Reply o}
    (h : Speaks past n v) (hr : (server config lib).Run past s)
    (hn : s.tasks[n]? = some ⟨.session, .op o may exit next, l⟩)
    (hexec : exec config n c s.shared o = some (sh, some reply)) (hreq : talkRequires o v) :
    Speaks ((s, .run n c) :: past) n (noteTalk v o reply) := by
  have hs : sessionOp s n = some o := sessionOp_of_task hn
  cases o with
  | writeAll st bytes =>
    obtain ⟨hahead, hst, hphase, rfl⟩ := hreq
    obtain ⟨_, rfl⟩ := by simpa [exec] using hexec
    exact h.put hn rfl hs hst hphase hahead
  | forward st x =>
    obtain ⟨hahead, hst, hphase⟩ := hreq
    obtain ⟨w, ⟨⟨channel, hc⟩, _⟩, hw⟩ := sessionRequires_of_run hr hs
    exact h.forward hn rfl hs hst hphase hahead (hw.callback ▸ hc)
  | send st bytes => exact h.send hn rfl hs hreq.1 hreq.2
  | connect path =>
    have ht (k : StreamId) : touchOf k s n c = none := by simp [touchOf, hs]
    cases reply with
    | none => exact h.untouched hn rfl (by simp) ht
    | some st =>
      simp only [exec] at hexec
      split at hexec
      · rename_i hok
        obtain ⟨_, rfl⟩ := by simpa using hexec
        exact h.connect hr hn rfl hok ht hreq
      · simp at hexec
  | _ => exact h.untouched hn rfl (by simp) fun k => by simp [touchOf, hs]

/-- The writer of a session that rests is the stream of its last shell. -/
theorem writer_of_rest {self : SessionHandler} {result : CallbackResult} {l : Ledgers.Ledger}
    (h : (server config lib).Run past s)
    (hn : s.tasks[n]? = some ⟨.session, .ret (.session self result), l⟩) :
    self.udsWriter = (lastShell n past).map (·.2) := by
  obtain ⟨w, hret, hw⟩ := session_of_run h hn rfl
  exact (returns_writer hw.shelling hret).trans hw.writer

theorem Speaks.callBack {self : SessionHandler} {result : CallbackResult} {l : Ledgers.Ledger}
    (h : Speaks past n v) (hr : (server config lib).Run past s)
    (hn : s.tasks[n]? = some ⟨.session, .ret (.session self result), l⟩) (hahead : v.ahead = none)
    (cb : Callback) : Speaks ((s, .callback n cb) :: past) n (talkOf self cb) := by
  have hwriter := writer_of_rest hr hn
  refine ⟨by simp [talkOf], fun k hk => (h.owned k hk).tail, fun k hk => ?_, fun k => ?_,
    fun _ => ⟨rfl, by simpa [talkOf] using hwriter⟩⟩
  · rw [lastShell_callback] at hk
    exact h.shell k hk
  · have htouches : touches (· = n) k ((s, .callback n cb) :: past) = touches (· = n) k past := rfl
    rw [lastShell_callback, htouches, ConsoleInput.inputs, h.inputs, hahead, talkOf, hwriter]
    by_cases hk : (lastShell n past).map (·.2) = some k <;> simp [hk]

theorem tracking_talk : TaskTracking config lib (fun _ _ => True) talking talked
    fun past n t v => t.request = .session → Speaks past n v where
  others past n t v s e he h hreq := (h hreq).beside (fun _ => touches_others he)
    (lastShell_others he) fun _ => inputs_others he
  request past s r hnew := by
    by_cases hr : r = .session
    · subst hr
      exact ⟨{}, rfl, fun _ => .initial hnew⟩
    · exact ⟨{}, safe_untold hr _ _, fun h => absurd h hr⟩
  callback past s n cb r self result l v hrun hn h hends := by
    by_cases hr : r = .session
    · subst hr
      exact ⟨_, talks_callback self cb, fun _ => (h rfl).callBack hrun hn hends cb⟩
    · exact ⟨v, safe_untold hr _ _, fun h => absurd h hr⟩
  run past s n c r o may exit next l v sh reply hrun _ hn hexec h hreq _ := by
    by_cases hr : r = .session
    · subst hr
      refine ⟨?_, fun _ => (h rfl).run hrun hn hexec hreq⟩
      cases o with
      | writeAll => exact (by simpa [exec] using hexec : _ ∧ c.succeeds = reply).2.symm
      | _ => trivial
    · refine ⟨?_, fun h => absurd h hr⟩
      cases r <;> first | exact absurd rfl hr | trivial
  leave past s n e r o may exit next l v _ _ _ h _ := by
    refine ⟨?_, fun hr => ?_⟩
    · cases r <;> trivial
    · obtain rfl : r = .session := hr
      exact (h rfl).beside (fun _ => rfl) lastShell_leave fun _ => rfl

theorem talk_of_run (h : (server config lib).Run past s) (hn : s.tasks[n]? = some t)
    (ht : t.request = .session) :
    ∃ v, t.code.Safe (talking .session) (talked .session) v ∧ Speaks past n v := by
  obtain ⟨v, hv, hs⟩ := tracking_talk.view_of_run h (fun _ _ => trivial) hn
  exact ⟨v, ht ▸ hv, hs ht⟩

theorem talkRequires_of_run (h : (server config lib).Run past s) (ho : sessionOp s n = some o) :
    ∃ v, talkRequires o v ∧ Speaks past n v := by
  unfold sessionOp at ho
  split at ho
  · rename_i o' may exit next l hn
    obtain rfl : o' = o := Option.some.inj ho
    obtain ⟨v, hv, hs⟩ := talk_of_run h hn rfl
    exact ⟨v, hv.1, hs⟩
  · simp at ho

theorem touchOf_cases {touch : Touch} (h : touchOf stream s n c = some touch) :
    (∃ bytes, sessionOp s n = some (.writeAll stream bytes) ∧ touch = .put bytes c.succeeds) ∨
      (∃ channel, sessionOp s n = some (.forward stream channel) ∧ touch = .forward) ∨
      ∃ bytes, sessionOp s n = some (.send stream bytes) ∧ touch = .send bytes := by
  unfold touchOf at h
  split at h
  · rename_i st bytes ho
    obtain ⟨rfl, rfl⟩ := by simpa using h
    exact .inl ⟨bytes, ho, rfl⟩
  · rename_i st channel ho
    obtain ⟨rfl, rfl⟩ := by simpa using h
    exact .inr (.inl ⟨channel, ho, rfl⟩)
  · rename_i st bytes ho
    obtain ⟨rfl, rfl⟩ := by simpa using h
    exact .inr (.inr ⟨bytes, ho, rfl⟩)
  · simp at h

/-- What a session does to a stream next follows on what it has done to it. -/
theorem follows_of_run (h : (server config lib).Run past s) {touch : Touch}
    (ht : touchOf stream s n c = some touch) :
    Connected past n stream ∧ Follows (touches (· = n) stream past) touch := by
  rcases touchOf_cases ht with ⟨bytes, ho, rfl⟩ | ⟨channel, ho, rfl⟩ | ⟨bytes, ho, rfl⟩
  · obtain ⟨v, ⟨_, hstream, hphase, rfl⟩, hv⟩ := talkRequires_of_run h ho
    obtain ⟨hc, hp⟩ := hv.current stream hstream
    rw [hp, hphase]
    exact ⟨hc, .greet _⟩
  · obtain ⟨v, ⟨_, hstream, hphase⟩, hv⟩ := talkRequires_of_run h ho
    obtain ⟨hc, hp⟩ := hv.current stream hstream
    rw [hp, hphase]
    exact ⟨hc, .forward⟩
  · obtain ⟨v, ⟨hwriter, hahead⟩, hv⟩ := talkRequires_of_run h ho
    obtain ⟨_, hlast⟩ := hv.writer (by simp [hahead])
    obtain ⟨sent, hsent⟩ := hv.shell stream (hlast ▸ hwriter)
    rw [hsent]
    exact ⟨hv.owned stream (by simp [hsent, opening]), .send sent bytes⟩

/-- Nobody but its owner touches a stream. -/
theorem touches_owner (h : (server config lib).Run past s)
    (hn : ∀ m, Connected past m stream → m = n) :
    touches (fun _ => true) stream past = touches (· = n) stream past := by
  induction h with
  | refl => rfl
  | @step past a b e hrun he ih =>
    have hold := ih fun m hm => hn m hm.tail
    cases e with
    | run m c =>
      cases ht : touchOf stream a m c with
      | none => simp [touches, ht, hold]
      | some touch =>
        obtain rfl := hn m (follows_of_run hrun ht).1.tail
        simp [touches, hold]
    | _ => exact hold

/-- All the input has been sent, but for what the session is about to send. -/
theorem inputs_of_run (stream : StreamId) (h : (server config lib).Run past s)
    (hn : s.tasks[n]? = some t) (ht : t.request = .session) : inputs n stream past =
      (touches (· = n) stream past).filterMap Touch.message ++ pending s n stream := by
  obtain ⟨v, hsafe, hv⟩ := talk_of_run h hn ht
  rw [hv.inputs]
  congr 1
  obtain ⟨request, code, l⟩ := t
  obtain rfl : request = .session := ht
  cases code with
  | ret outcome =>
    have hahead : v.ahead = none := hsafe
    have hop : sessionOp s n = none := by simp [sessionOp, hn]
    simp [hahead, pending, hop]
  | op o may exit next =>
    have hop : sessionOp s n = some o := sessionOp_of_task hn
    have hreq : talkRequires o v := hsafe.1
    cases o with
    | send st bytes =>
      obtain ⟨_, hlast⟩ := hv.writer (by simp [hreq.2])
      simp [pending, hop, ← hlast, hreq.1, hreq.2]
    | writeAll | forward => simp [pending, hop, hreq.1]
    | _ =>
      have hahead : v.ahead = none := hreq
      simp [pending, hop, hahead]

end Sessions

section Consoles

/-- The server with its streams. -/
structure Consoles where
  server : State := {}
  wires : StreamId → Wire := fun _ => {}

/-- The server takes a step, or the task of a stream writes. -/
inductive Act
  | serve (e : Event) (cut : ℕ)
  | write (stream : StreamId) (failed : Option ℕ)

def wireAfter (s : State) (e : Event) (cut : ℕ) (wires : StreamId → Wire) (k : StreamId) : Wire :=
  match e with
  | .run n c => match touchOf k s n c with
    | some touch => (wires k).touched cut touch
    | none => wires k
  | _ => wires k

def stepConsoles (config : AppConfig) (lib : Libraries) (s : Consoles) : Act → Option Consoles
  | .serve e cut => (step config lib s.server e).map fun s' =>
    ⟨s', wireAfter s.server e cut s.wires⟩
  | .write k failed => ((s.wires k).wrote failed).map fun w =>
    { s with wires := Function.update s.wires k w }

def consoles (config : AppConfig) (lib : Libraries) : System Consoles Act where
  initial := {}
  step := stepConsoles config lib

/-- The steps that the server has taken. -/
def served : List (Consoles × Act) → History
  | [] => []
  | (s, .serve e _) :: past => (s.server, e) :: served past
  | (_, .write _ _) :: past => served past

variable {config : AppConfig} {lib : Libraries} {past : List (Consoles × Act)} {s : Consoles}
  {n : ℕ} {stream : StreamId} {t : HandlerTask} {w : Wire} {sent : List Bytes}

theorem run_served (h : (consoles config lib).Run past s) :
    (server config lib).Run (served past) s.server := by
  induction h with
  | refl => exact .refl
  | @step past a b act h he ih =>
    cases act with
    | serve e cut =>
      obtain ⟨s', hs', rfl⟩ := Option.map_eq_some_iff.mp he
      exact .step ih hs'
    | write k failed =>
      obtain ⟨w, _, rfl⟩ := Option.map_eq_some_iff.mp he
      exact ih

/-- Every stream carries what the sessions have done to it. -/
theorem carries_of_run (h : (consoles config lib).Run past s) (k : StreamId) :
    Carries (s.wires k) (touches (fun _ => true) k (served past)) := by
  induction h with
  | refl => exact .idle
  | @step past a b act h he ih =>
    cases act with
    | serve e cut =>
      obtain ⟨s', _, rfl⟩ := Option.map_eq_some_iff.mp he
      have hserver := run_served h
      cases e with
      | run n c =>
        cases ht : touchOf k a.server n c with
        | none => simpa [wireAfter, ht, served, touches] using ih
        | some touch =>
          obtain ⟨hc, hfollows⟩ := follows_of_run hserver ht
          rw [← touches_owner hserver fun m hm => connected_unique hserver hc hm] at hfollows
          simpa [wireAfter, ht, served, touches] using ih.touched hfollows
      | _ => exact ih
    | write st failed =>
      obtain ⟨w, hw, rfl⟩ := Option.map_eq_some_iff.mp he
      by_cases hk : k = st
      · subst hk
        simpa [served] using ih.wrote hw
      · simpa [served, hk] using ih

/-- The stream has got the greeting and then these messages, up to what is still in its queue, or
to the write that has failed. -/
structure Delivers (w : Wire) (sent : List Bytes) : Prop where
  whole : w.written <+: greeting ++ sent.flatten
  greeted : sent ≠ [] → greeting <+: w.written
  queued : w.running = true → w.written ++ w.queue.flatten = greeting ++ sent.flatten

theorem Carries.delivers {touches : List Touch} (h : Carries w touches) :
    Delivers w (touches.filterMap Touch.message) := by
  have hsent (sent : List Bytes) : (.put greeting true :: .forward :: sent.map .send :
      List Touch).filterMap Touch.message = sent := by
    have hmessage : Touch.message ∘ Touch.send = some := rfl
    simp [List.filterMap_cons, Touch.message, List.filterMap_map, hmessage]
  cases h with
  | idle => exact ⟨List.nil_prefix, by simp, by simp⟩
  | refused cut =>
    have hnone : [Touch.put greeting false].filterMap Touch.message = [] := rfl
    rw [hnone]
    exact ⟨by simpa using List.take_prefix cut greeting, by simp, by simp⟩
  | greeted =>
    have hnone : [Touch.put greeting true].filterMap Touch.message = [] := rfl
    rw [hnone]
    exact ⟨by simp, by simp, by simp⟩
  | running sent written queue hw =>
    rw [hsent]
    refine ⟨?_, fun _ => List.prefix_append _ _, fun _ => by simp [hw]⟩
    rw [← hw]
    exact (List.prefix_append_right_inj _).mpr (List.prefix_append _ _)
  | stopped sent written hw =>
    rw [hsent]
    exact ⟨(List.prefix_append_right_inj _).mpr hw, fun _ => List.prefix_append _ _, by simp⟩

theorem step_write (config : AppConfig) (lib : Libraries) {failed : Option ℕ}
    (hw : (s.wires stream).wrote failed = some w) :
    (consoles config lib).step s (.write stream failed) =
      some { s with wires := Function.update s.wires stream w } := by
  simp [consoles, stepConsoles, hw]

/-- The task of a stream, left alone and with no write failing, writes the queue. -/
theorem drained (config : AppConfig) (lib : Libraries) (s : Consoles)
    (h : (s.wires stream).running = true) :
    ∃ later s', System.Path (consoles config lib) s later s' ∧
      (∀ p ∈ later, p.2 = .write stream none) ∧ s'.server = s.server ∧
      (s'.wires stream).written = (s.wires stream).written ++ (s.wires stream).queue.flatten := by
  generalize hq : (s.wires stream).queue = queue
  induction queue generalizing s with
  | nil => exact ⟨[], s, .refl, by simp, rfl, by simp⟩
  | cons bytes queue ih =>
    have hwrote : (s.wires stream).wrote none =
        some ⟨(s.wires stream).written ++ bytes, true, queue⟩ := by simp [Wire.wrote, h, hq]
    have hstep := step_write config lib hwrote
    generalize hs₁ : ({ s with wires := Function.update s.wires stream _ } : Consoles) = s₁ at hstep
    obtain ⟨later, s', hpath, hwrites, hserver, hwritten⟩ :=
      ih s₁ (by simp [← hs₁]) (by simp [← hs₁])
    refine ⟨later ++ [(s, .write stream none)], s', (System.Path.single hstep).trans hpath, ?_,
      by simpa [← hs₁] using hserver, by simpa [← hs₁] using hwritten⟩
    intro p hp
    rcases List.mem_append.mp hp with hp | hp
    · exact hwrites p hp
    · obtain rfl := List.mem_singleton.mp hp
      rfl

/-- The input of the session that has opened the stream arrives there, and nothing else does. -/
structure InOrder (config : AppConfig) (lib : Libraries) (past : History) (s : Consoles) (n : ℕ)
    (stream : StreamId) : Prop where
  owner : ∀ m, Connected past m stream → m = n
  delivery : ∃ sent, inputs n stream past = sent ++ pending s.server n stream ∧
    Delivers (s.wires stream) sent
  arrival : (s.wires stream).running = true → ∃ later s',
    System.Path (consoles config lib) s later s' ∧ (∀ p ∈ later, p.2 = .write stream none) ∧
      s'.server = s.server ∧ greeting ++ (inputs n stream past).flatten =
        (s'.wires stream).written ++ (pending s.server n stream).flatten

theorem input_in_order (h : (consoles config lib).Run past s) (hn : s.server.tasks[n]? = some t)
    (ht : t.request = .session) (hc : Connected (served past) n stream) :
    InOrder config lib (served past) s n stream := by
  have hserver := run_served h
  have howner (m : ℕ) (hm : Connected (served past) m stream) : m = n :=
    connected_unique hserver hc hm
  have hinputs := inputs_of_run stream hserver hn ht
  have hdelivers := (carries_of_run h stream).delivers
  rw [touches_owner hserver howner] at hdelivers
  refine ⟨howner, ⟨_, hinputs, hdelivers⟩, fun hrunning => ?_⟩
  obtain ⟨later, s', hpath, hwrites, heq, hwritten⟩ := drained config lib s hrunning
  refine ⟨later, s', hpath, hwrites, heq, ?_⟩
  rw [hinputs, hwritten, hdelivers.queued hrunning]
  simp

theorem session_of_sessionOp {s : State} {o : Op} (h : sessionOp s n = some o) :
    ∃ t, s.tasks[n]? = some t ∧ t.request = .session := by
  unfold sessionOp at h
  split at h
  · rename_i o' may exit next l hn
    exact ⟨_, hn, rfl⟩
  · simp at h

/-- A client types `ls` and then makes its window larger; the first message has been written. -/
def typing : List Act :=
  (loggingIn ++ .callback 1 (.channelOpenSession 5) :: requestingShell 5 ++ shakingHands ++
      .callback 1 (.data 5 [108, 115]) :: runs 1 1).map (.serve · 0) ++
    [.write 0 none, .serve (.callback 1 (.windowChangeRequest 5 80 24)) 0]

abbrev sampleConsoles : System Consoles Act := consoles sampleConfig sessionLibraries

theorem input_in_order_typing : InOrder sampleConfig sessionLibraries
    (served (sampleConsoles.historyOf typing)) (sampleConsoles.endOf typing) 1 0 := by
  have hrun : sampleConsoles.Run (sampleConsoles.historyOf typing) (sampleConsoles.endOf typing) :=
    System.run_follow typing
  have hop : sessionOp (sampleConsoles.endOf typing).server 1 =
      some (.send 0 (resizeMessage 80 24)) := by decide +kernel
  have hshell : lastShell 1 (served (sampleConsoles.historyOf typing)) = some (5, 0) := by
    decide +kernel
  obtain ⟨t, hn, ht⟩ := session_of_sessionOp hop
  obtain ⟨_, _, hv⟩ := session_of_run (run_served hrun) hn ht
  exact input_in_order hrun hn ht (hv.opened 5 0 (opened_of_lastShell hshell))

end Consoles

end Warlock.ConsoleInput
