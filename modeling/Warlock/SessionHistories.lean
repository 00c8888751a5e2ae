import Warlock.SessionDiscipline

/-!
# Histories of SSH sessions

What the state of a session stands for is said by its history: the callbacks it has been
called with, in order, and the steps each of them has taken. The VM of the session was
accepted by an earlier authentication, its channel is the one opened last, and its writer
belongs to the shell that was started last.
-/

namespace Warlock.SessionHistories
open ApplicationState AuthorizedKeys EffectPrograms Ledgers MachineIntegers QuietHandlers
  ReservationDiscipline ReservationProtocol RustText Server ServerInvariant ServerOperations
  SessionDiscipline SshSession TaskViews TransitionSystems VmIdentifiers

section Histories

/-- The callback a session is in, or was in last. -/
def currentCallback (n : ℕ) (past : History) : Option Callback :=
  past.findSome? fun p => match p.2 with
    | .callback k cb => if k = n then some cb else none
    | _ => none

/-- The steps since that callback was called. -/
def sinceCallback (n : ℕ) (past : History) : History :=
  past.takeWhile fun p => match p.2 with
    | .callback k _ => k ≠ n
    | _ => true

/-- The channel that the session has opened last. -/
def lastOpened (n : ℕ) (past : History) : Option ChannelId :=
  past.findSome? fun p => match p.2 with
    | .callback k (.channelOpenSession channel) => if k = n then some channel else none
    | _ => none

/-- The channel of the last `shell_request` that went through, and the stream it opened. -/
def lastShell (n : ℕ) : History → Option (ChannelId × StreamId)
  | [] => none
  | (a, .run k _) :: past =>
    if k = n then
      match (a.tasks[n]?).bind (·.nextOp), currentCallback n past with
      | some (.forward stream _), some (.shellRequest channel) => some (channel, stream)
      | _, _ => lastShell n past
    else lastShell n past
  | _ :: past => lastShell n past

variable {n k : ℕ} {past : History} {s : State} {e : Event} {c : Choice} {cb : Callback}
  {t : HandlerTask} {o : Op}

section Others

variable (h : e.subject ≠ some n)
include h

theorem currentCallback_others :
    currentCallback n ((s, e) :: past) = currentCallback n past := by
  cases e <;> simp_all [currentCallback, Event.subject]

theorem sinceCallback_others :
    sinceCallback n ((s, e) :: past) = (s, e) :: sinceCallback n past := by
  cases e <;> simp_all [sinceCallback, Event.subject]

theorem lastOpened_others : lastOpened n ((s, e) :: past) = lastOpened n past := by
  cases e with
  | callback k cb => cases cb <;> simp_all [lastOpened, Event.subject]
  | _ => simp [lastOpened]

theorem lastShell_others : lastShell n ((s, e) :: past) = lastShell n past := by
  cases e <;> simp_all [lastShell, Event.subject]

end Others

@[simp] theorem currentCallback_callback :
    currentCallback n ((s, .callback n cb) :: past) = some cb := by simp [currentCallback]

@[simp] theorem currentCallback_run :
    currentCallback n ((s, .run k c) :: past) = currentCallback n past := by simp [currentCallback]

@[simp] theorem currentCallback_leave {x : Exit} :
    currentCallback n ((s, .leave k x) :: past) = currentCallback n past := by simp [currentCallback]

@[simp] theorem sinceCallback_callback : sinceCallback n ((s, .callback n cb) :: past) = [] := by
  simp [sinceCallback]

@[simp] theorem sinceCallback_run :
    sinceCallback n ((s, .run k c) :: past) = (s, .run k c) :: sinceCallback n past := by
  simp [sinceCallback]

@[simp] theorem sinceCallback_leave {x : Exit} :
    sinceCallback n ((s, .leave k x) :: past) = (s, .leave k x) :: sinceCallback n past := by
  simp [sinceCallback]

@[simp] theorem lastOpened_run :
    lastOpened n ((s, .run k c) :: past) = lastOpened n past := by simp [lastOpened]

@[simp] theorem lastOpened_leave {x : Exit} :
    lastOpened n ((s, .leave k x) :: past) = lastOpened n past := by simp [lastOpened]

@[simp] theorem lastShell_callback :
    lastShell n ((s, .callback k cb) :: past) = lastShell n past := by simp [lastShell]

@[simp] theorem lastShell_leave {x : Exit} :
    lastShell n ((s, .leave k x) :: past) = lastShell n past := by simp [lastShell]

/-- The session has connected, and this is the stream it got. -/
def Connected (past : History) (n : ℕ) (stream : StreamId) : Prop :=
  ∃ a c t path, (a, Event.run n c) ∈ past ∧ a.tasks[n]? = some t ∧
    t.nextOp = some (.connect path) ∧ c.succeeds = true ∧ a.shared.streams = stream

/-- A `shell_request` on the channel has gone through and opened the stream. -/
def Opened (past : History) (n : ℕ) (channel : ChannelId) (stream : StreamId) : Prop :=
  ∃ a c before x, ((a, Event.run n c) :: before) <:+ past ∧
    (a.tasks[n]?).bind (·.nextOp) = some (.forward stream x) ∧
    currentCallback n before = some (.shellRequest channel)

/-- In its current callback the session has looked this up in the map. -/
def Saw (past : History) (n : ℕ) (id : Uuid) (entry : Option VmEntry) : Prop :=
  ∃ a, Performed (sinceCallback n past) n (.vms (.get id)) a ∧ a.shared.vms.lookup id = entry

/-- The user name and the key of an authentication are those of a running VM. -/
def Authentic (lib : Libraries) (past : History) (n : ℕ) (user : String) (key : PublicKey)
    (id : Uuid) : Prop :=
  ∃ text r, user.toList = "vm-".toList ++ text ∧ lib.parseUuid text = some id ∧
    Saw past n id (some (.running r)) ∧
    ∃ line ∈ r.sshKeys, Authorizes lib.parsePublicKeyBase64 key line

/-- An earlier authentication of the session for this VM was accepted, and rightly so. -/
def Accepted (lib : Libraries) (past : History) (n : ℕ) (id : Uuid) : Prop :=
  ∃ b cb before user key t self, ((b, Event.callback n cb) :: before) <:+ past ∧
    currentCallback n before = some (.authPublickey user key) ∧ b.tasks[n]? = some t ∧
    t.code = .ret (.session self .accept) ∧ Authentic lib before n user key id

variable {p : State × Event} {channel : ChannelId} {stream : StreamId} {id : Uuid}

theorem Connected.tail (h : Connected past n stream) : Connected (p :: past) n stream := by
  obtain ⟨a, c, t, path, hp, ht⟩ := h
  exact ⟨a, c, t, path, .tail _ hp, ht⟩

theorem Opened.tail (h : Opened past n channel stream) : Opened (p :: past) n channel stream := by
  obtain ⟨a, c, before, x, hs, ho⟩ := h
  exact ⟨a, c, before, x, hs.trans (List.suffix_cons _ _), ho⟩

theorem Accepted.tail (h : Accepted lib past n id) : Accepted lib (p :: past) n id := by
  obtain ⟨b, cb, before, user, key, t, self, hs, ha⟩ := h
  exact ⟨b, cb, before, user, key, t, self, hs.trans (List.suffix_cons _ _), ha⟩

/-- A shell is opened by the step that starts to forward. -/
theorem opened_cons : Opened (p :: past) n channel stream ↔ Opened past n channel stream ∨
    (∃ c, p.2 = .run n c) ∧ (∃ x, (p.1.tasks[n]?).bind (·.nextOp) = some (.forward stream x)) ∧
      currentCallback n past = some (.shellRequest channel) := by
  constructor
  · rintro ⟨a, c, before, x, hs, ho, hc⟩
    rcases List.suffix_cons_iff.mp hs with heq | hs
    · obtain ⟨rfl, rfl⟩ := List.cons.inj heq
      exact .inr ⟨⟨c, rfl⟩, ⟨x, ho⟩, hc⟩
    · exact .inl ⟨a, c, before, x, hs, ho, hc⟩
  · rintro (h | ⟨⟨c, he⟩, ⟨x, ho⟩, hc⟩)
    · exact h.tail
    · obtain ⟨a, e⟩ := p
      obtain rfl : e = .run n c := he
      exact ⟨a, c, past, x, List.suffix_refl _, ho, hc⟩

theorem opened_of_lastShell (h : lastShell n past = some (channel, stream)) :
    Opened past n channel stream := by
  induction past with
  | nil => simp [lastShell] at h
  | cons p past ih =>
    obtain ⟨a, e⟩ := p
    cases e with
    | run k c =>
      simp only [lastShell] at h
      split at h
      · rename_i hk
        subst hk
        split at h
        · rename_i st x ch ho hc
          obtain ⟨rfl, rfl⟩ := by simpa using h
          exact opened_cons.mpr (.inr ⟨⟨c, rfl⟩, ⟨x, ho⟩, hc⟩)
        · exact (ih h).tail
      · exact (ih h).tail
    | _ => exact (ih h).tail

/-- A step that is no milestone of the session. -/
structure Beside (n : ℕ) (p : State × Event) (past : History) : Prop where
  callback : currentCallback n (p :: past) = currentCallback n past
  since : sinceCallback n (p :: past) = p :: sinceCallback n past
  channel : lastOpened n (p :: past) = lastOpened n past
  shell : lastShell n (p :: past) = lastShell n past
  opened : ∀ channel stream, Opened (p :: past) n channel stream → Opened past n channel stream

theorem beside_others (h : e.subject ≠ some n) : Beside n (s, e) past where
  callback := currentCallback_others h
  since := sinceCallback_others h
  channel := lastOpened_others h
  shell := lastShell_others h
  opened ch st ho := by
    rcases opened_cons.mp ho with ho | ⟨⟨c, he⟩, _⟩
    · exact ho
    · exact absurd (congrArg Event.subject he) h

theorem beside_leave {x : Exit} : Beside n (s, .leave n x) past where
  callback := currentCallback_leave
  since := sinceCallback_leave
  channel := lastOpened_leave
  shell := lastShell_leave
  opened ch st ho := by
    rcases opened_cons.mp ho with ho | ⟨⟨c, he⟩, _⟩
    · exact ho
    · simp at he

theorem beside_run (hn : s.tasks[n]? = some t) (ho : t.nextOp = some o)
    (hne : ∀ stream channel, o ≠ .forward stream channel) : Beside n (s, .run n c) past where
  callback := currentCallback_run
  since := sinceCallback_run
  channel := lastOpened_run
  shell := by
    simp only [lastShell, if_pos, hn, Option.bind_some, ho]
    split
    · rename_i st x ch hop _
      exact absurd (Option.some.inj hop) (hne st x)
    · rfl
  opened ch st hopen := by
    rcases opened_cons.mp hopen with hopen | ⟨_, ⟨x, hx⟩, _⟩
    · exact hopen
    · simp only [hn, Option.bind_some, ho] at hx
      exact absurd (Option.some.inj hx) (hne st x)

end Histories

section Views

/-- What the view of a session says of its history. -/
structure Recounts (config : AppConfig) (lib : Libraries) (past : History) (n : ℕ)
    (v : SessionView) : Prop where
  callback : v.callback = currentCallback n past
  entry : ∀ id entry, v.entry = some (id, entry) → Saw past n id entry ∧
    ∀ e, entry = some e → RecordFits config id e.res
  channel : v.nextChannel = lastOpened n past
  writer : v.nextWriter = (lastShell n past).map (·.2)
  vm : ∀ id, v.self.vmId = some id → Accepted lib past n id
  shelling : v.forwarded = true → ∃ channel, v.callback = some (.shellRequest channel)
  stream : ∀ stream, v.stream = some stream → Connected past n stream
  opened : ∀ channel stream, Opened past n channel stream → Connected past n stream
  unused : ∀ stream, v.stream = some stream → v.forwarded = false →
    ∀ channel, ¬ Opened past n channel stream
  once : ∀ channel channel' stream, Opened past n channel stream → Opened past n channel' stream →
    channel = channel'

variable {config : AppConfig} {lib : Libraries} {past : History} {n : ℕ} {v : SessionView}
  {p : State × Event} {s : State} {t : HandlerTask} {c : Choice} {self : SessionHandler}
  {result : CallbackResult} {id : Uuid}

theorem Recounts.beside (h : Recounts config lib past n v) (hp : Beside n p past) :
    Recounts config lib (p :: past) n v where
  callback := h.callback.trans hp.callback.symm
  entry id entry he := by
    obtain ⟨⟨a, ha, hl⟩, hf⟩ := h.entry id entry he
    refine ⟨⟨a, ?_, hl⟩, hf⟩
    rw [hp.since]
    exact ha.tail p
  channel := h.channel.trans hp.channel.symm
  writer := by rw [hp.shell, h.writer]
  vm id hid := (h.vm id hid).tail
  shelling := h.shelling
  stream st hst := (h.stream st hst).tail
  opened ch st ho := (h.opened ch st (hp.opened ch st ho)).tail
  unused st hst hf ch ho := h.unused st hst hf ch (hp.opened ch st ho)
  once ch ch' st ho ho' := h.once ch ch' st (hp.opened ch st ho) (hp.opened ch' st ho')

theorem Recounts.initial (hp : ∀ p ∈ past, p.2.subject ≠ some n) :
    Recounts config lib past n {} := by
  induction past with
  | nil =>
    have hnone (ch : ChannelId) (st : StreamId) : ¬ Opened [] n ch st := by
      rintro ⟨_, _, _, _, hs, _⟩
      simp at hs
    exact ⟨rfl, by simp, rfl, rfl, by simp, by simp, by simp,
      fun ch st ho => absurd ho (hnone ch st), by simp, fun ch _ st ho => absurd ho (hnone ch st)⟩
  | cons p past ih =>
    exact (ih fun q hq => hp q (.tail _ hq)).beside (beside_others (hp p (.head _)))

section Steps

variable {l : Ledger} {sh : Shared}

theorem streams_exec {o : Op} {sh sh' : Shared} {reply : Option (Reply o)}
    (h : exec config n c sh o = some (sh', reply)) : sh.streams ≤ sh'.streams := by
  cases o with
  | connect path =>
    simp only [exec] at h
    split at h <;> obtain ⟨rfl, _⟩ := by simpa using h
    · exact Nat.le_succ _
    · exact le_refl _
  | _ => exact ((exec_frame h).streams (by simp)).ge

theorem streams_mono {s' : State} {e : Event} (he : step config lib s e = some s') :
    s.shared.streams ≤ s'.shared.streams := by
  cases stepped he with
  | run n c r o may exit next l sh reply hn hexec => exact streams_exec hexec
  | panic n c r o may exit next l sh hn hexec => exact streams_exec hexec
  | _ => exact le_refl _

theorem streams_connect {s' : State} (hn : s.tasks[n]? = some t) {path : String}
    (ho : t.nextOp = some (.connect path)) (hok : c.succeeds = true)
    (he : step config lib s (.run n c) = some s') : s.shared.streams < s'.shared.streams := by
  have hexec {o : Op} {sh : Shared} {reply : Option (Reply o)} (ho : o = .connect path)
      (h : exec config n c s.shared o = some (sh, reply)) : s.shared.streams < sh.streams := by
    subst ho
    obtain ⟨rfl, _⟩ := by simpa [exec, hok] using h
    exact Nat.lt_succ_self _
  cases stepped he with
  | run _ _ r o may exit next l sh reply hk h =>
    obtain rfl := Option.some.inj (hn.symm.trans hk)
    exact hexec (Option.some.inj ho) h
  | panic _ _ r o may exit next l sh hk h =>
    obtain rfl := Option.some.inj (hn.symm.trans hk)
    exact hexec (Option.some.inj ho) h

/-- A stream that a session has got is not given out again. -/
theorem connected_lt {stream : StreamId} (h : (server config lib).Run past s)
    (hc : Connected past n stream) : stream < s.shared.streams := by
  induction h with
  | refl =>
    obtain ⟨_, _, _, _, hp, _⟩ := hc
    simp at hp
  | @step past a b e h he ih =>
    have hmono : a.shared.streams ≤ b.shared.streams := streams_mono he
    obtain ⟨a', c, t, path, hp, hn, ho, hok, hst⟩ := hc
    rcases List.mem_cons.mp hp with heq | hp
    · obtain ⟨rfl, rfl⟩ := Prod.mk.inj heq
      have he : step config lib a' (.run n c) = some b := he
      exact hst ▸ streams_connect hn ho hok he
    · exact (ih ⟨a', c, t, path, hp, hn, ho, hok, hst⟩).trans_le hmono

theorem Recounts.get (h : Recounts config lib past n v) (hn : s.tasks[n]? = some t)
    (ho : t.nextOp = some (.vms (.get id))) {entry : Option VmEntry}
    (he : s.shared.vms.lookup id = entry)
    (hf : ∀ e, entry = some e → RecordFits config id e.res) :
    Recounts config lib ((s, .run n c) :: past) n { v with entry := some (id, entry) } := by
  have h' := h.beside (beside_run (c := c) hn ho (by simp))
  refine { h' with entry := fun id' entry' heq => ?_ }
  obtain ⟨rfl, rfl⟩ := by simpa using heq
  refine ⟨⟨s, ?_, he⟩, hf⟩
  rw [sinceCallback_run]
  exact .now hn ho

theorem Recounts.connect (h : Recounts config lib past n v) (hr : (server config lib).Run past s)
    (hn : s.tasks[n]? = some t) {path : String} (ho : t.nextOp = some (.connect path))
    (hok : c.succeeds = true) (hforward : v.forwarded = false) :
    Recounts config lib ((s, .run n c) :: past) n { v with stream := some s.shared.streams } := by
  have h' := h.beside (beside_run (c := c) hn ho (by simp))
  refine { h' with stream := fun st hst => ?_, unused := fun st hst _ ch hopen => ?_, writer := ?_ }
  · simpa [SessionView.nextWriter, hforward] using h'.writer
  · obtain rfl : s.shared.streams = st := Option.some.inj hst
    exact ⟨s, c, t, path, .head _, hn, ho, hok, rfl⟩
  · obtain rfl : s.shared.streams = st := Option.some.inj hst
    have hold := (beside_run (c := c) hn ho (by simp)).opened ch _ hopen
    exact lt_irrefl _ (connected_lt hr (h.opened ch _ hold))

theorem Recounts.forward (h : Recounts config lib past n v) (hn : s.tasks[n]? = some t)
    {stream : StreamId} {channel x : ChannelId} (ho : t.nextOp = some (.forward stream x))
    (hc : v.callback = some (.shellRequest channel)) (hst : v.stream = some stream)
    (hforward : v.forwarded = false) :
    Recounts config lib ((s, .run n c) :: past) n { v with forwarded := true } := by
  have hcurrent : currentCallback n past = some (.shellRequest channel) := h.callback ▸ hc
  have hopened {ch : ChannelId} {st : StreamId} (hopen : Opened ((s, .run n c) :: past) n ch st) :
      Opened past n ch st ∨ ch = channel ∧ st = stream := by
    rcases opened_cons.mp hopen with hold | ⟨_, ⟨y, hy⟩, hch⟩
    · exact .inl hold
    · refine .inr ⟨?_, ?_⟩
      · simpa using hch.symm.trans hcurrent
      · simp only [hn, Option.bind_some, ho] at hy
        simpa using (Op.forward.inj (Option.some.inj hy)).1.symm
  refine ⟨by simpa using h.callback, fun id entry he => ?_, ?_, ?_, fun id hid => (h.vm id hid).tail,
    fun _ => ⟨channel, hc⟩, fun st hs => (h.stream st hs).tail, fun ch st hopen => ?_, by simp,
    fun ch ch' st hopen hopen' => ?_⟩
  · obtain ⟨⟨a, ha, hl⟩, hf⟩ := h.entry id entry he
    refine ⟨⟨a, ?_, hl⟩, hf⟩
    rw [sinceCallback_run]
    exact ha.tail _
  · rw [lastOpened_run]
    exact h.channel
  · simp [SessionView.nextWriter, lastShell, hn, ho, hcurrent, hst]
  · rcases hopened hopen with hold | ⟨_, rfl⟩
    · exact (h.opened ch st hold).tail
    · exact (h.stream st hst).tail
  · rcases hopened hopen with hold | ⟨rfl, rfl⟩
    · rcases hopened hopen' with hold' | ⟨_, rfl⟩
      · exact h.once ch ch' st hold hold'
      · exact absurd hold (h.unused st hst hforward ch)
    · rcases hopened hopen' with hold' | ⟨rfl, _⟩
      · exact absurd hold' (h.unused st hst hforward ch')
      · rfl

theorem Recounts.run {r : Request} {o : Op} {may : Exit → Bool}
    {exit : Exit → Program Reply Outcome} {next : Reply o → Program Reply Outcome} {reply : Reply o}
    (h : Recounts config lib past n v) (hr : (server config lib).Run past s)
    (hn : s.tasks[n]? = some ⟨r, .op o may exit next, l⟩)
    (hexec : exec config n c s.shared o = some (sh, some reply)) (hreq : sessionRequires o v)
    (hallow : allows config o c reply l.view) :
    Recounts config lib ((s, .run n c) :: past) n (sessionNote v o reply) := by
  cases o with
  | vms sec =>
    cases sec with
    | get id =>
      obtain ⟨_, rfl⟩ := by simpa [exec] using hexec
      exact h.get hn rfl rfl hallow.2
    | _ => exact h.beside (beside_run hn rfl (by simp))
  | connect path =>
    cases reply with
    | none => exact h.beside (beside_run hn rfl (by simp))
    | some stream =>
      obtain ⟨_, _, _, _, _, _, hforward⟩ := hreq
      simp only [exec] at hexec
      split at hexec
      · rename_i hok
        obtain ⟨_, rfl⟩ := by simpa using hexec
        exact h.connect hr hn rfl hok hforward
      · simp at hexec
  | forward stream x =>
    obtain ⟨⟨channel, hc⟩, _, hst, hforward⟩ := hreq
    exact h.forward hn rfl hc hst hforward
  | _ => exact h.beside (beside_run hn rfl (by simp))

/-- Who the session has been authenticated for when a callback has returned. -/
theorem Recounts.accepted {r : Request} (h : Recounts config lib past n v)
    (hn : s.tasks[n]? = some ⟨r, .ret (.session self result), l⟩) (hret : Returns lib v self result)
    (cb : Callback) (hid : self.vmId = some id) :
    Accepted lib ((s, .callback n cb) :: past) n id := by
  rcases returns_vm hret hid with hid | ⟨user, key, res, rfl, hc, hparse, hentry, hkey⟩
  · exact (h.vm id hid).tail
  · obtain ⟨text, htext, huuid⟩ := username_of_parse hparse
    exact ⟨s, cb, past, user, key, _, self, List.suffix_refl _, h.callback ▸ hc, hn, rfl, text, res,
      htext, huuid, (h.entry _ _ hentry).1, isKeyAuthorized_sound hkey⟩

theorem Recounts.callBack {r : Request} (h : Recounts config lib past n v)
    (hn : s.tasks[n]? = some ⟨r, .ret (.session self result), l⟩) (hret : Returns lib v self result)
    (cb : Callback) : Recounts config lib ((s, .callback n cb) :: past) n
      { self := self, callback := some cb } := by
  have hopened {ch : ChannelId} {st : StreamId}
      (hopen : Opened ((s, .callback n cb) :: past) n ch st) : Opened past n ch st := by
    rcases opened_cons.mp hopen with hold | ⟨⟨c, he⟩, _⟩
    · exact hold
    · simp at he
  refine ⟨by simp, by simp, ?_, ?_, fun id hid => h.accepted hn hret cb hid, by simp, by simp,
    fun ch st hopen => (h.opened ch st (hopened hopen)).tail, by simp,
    fun ch ch' st hopen hopen' => h.once ch ch' st (hopened hopen) (hopened hopen')⟩
  · have hchannel := (returns_channel hret).trans h.channel
    cases cb <;> simp [SessionView.nextChannel, lastOpened, hchannel]
  · rw [lastShell_callback, ← h.writer, ← returns_writer h.shelling hret]
    rfl

theorem tracking_session : TaskTracking config lib (fun _ _ => True) watching (watched lib)
    fun past n t v => t.request = .session → Recounts config lib past n v where
  others past n t v s e he h hreq := (h hreq).beside (beside_others he)
  request past s r hnew := by
    by_cases hr : r = .session
    · subst hr
      exact ⟨{}, ⟨rfl, rfl⟩, fun _ => .initial hnew⟩
    · exact ⟨{}, safe_unwatched hr _ _, fun h => absurd h hr⟩
  callback past s n cb r self result l v _ hn h hends := by
    by_cases hr : r = .session
    · subst hr
      exact ⟨_, watched_callback self cb, fun _ => (h rfl).callBack hn hends cb⟩
    · exact ⟨v, safe_unwatched hr _ _, fun h => absurd h hr⟩
  run past s n c r o may exit next l v sh reply hr _ hn hexec h hreq hallow := by
    by_cases hreq' : r = .session
    · subst hreq'
      exact ⟨trivial, fun _ => (h rfl).run hr hn hexec hreq hallow⟩
    · refine ⟨?_, fun h => absurd h hreq'⟩
      cases r <;> trivial
  leave past s n e r o may exit next l v _ _ _ h _ := by
    refine ⟨?_, fun hreq => ?_⟩
    · cases r <;> trivial
    · obtain rfl : r = .session := hreq
      exact (h rfl).beside beside_leave

/-- Every session is watched, and its view recounts its history. -/
theorem session_of_run (h : (server config lib).Run past s) (hn : s.tasks[n]? = some t)
    (hreq : t.request = .session) : ∃ v,
      t.code.Safe (watching .session) (watched lib .session) v ∧ Recounts config lib past n v := by
  obtain ⟨v, hv, hh⟩ := tracking_session.view_of_run h (fun _ _ => trivial) hn
  exact ⟨v, hreq ▸ hv, hh hreq⟩

/-- The next operation of a session. -/
def sessionOp (s : State) (n : ℕ) : Option Op :=
  match s.tasks[n]? with
  | some ⟨.session, .op o _ _ _, _⟩ => some o
  | _ => none

/-- What the next step of a session requires. -/
theorem sessionRequires_of_run (h : (server config lib).Run past s) {o : Op}
    (ho : sessionOp s n = some o) : ∃ v, sessionRequires o v ∧ Recounts config lib past n v := by
  unfold sessionOp at ho
  split at ho
  · rename_i o' may exit next l hn
    obtain rfl : o' = o := Option.some.inj ho
    obtain ⟨v, hv, hh⟩ := session_of_run h hn rfl
    exact ⟨v, hv.1, hh⟩
  · simp at ho

end Steps

end Views

section Samples

/-- The public half of an Ed25519 key. -/
def sessionKey : List UInt8 :=
  [61, 64, 23, 195, 232, 67, 137, 90, 146, 183, 10, 167, 77, 27, 126, 188, 156, 152, 44, 207, 46,
    196, 150, 140, 192, 205, 85, 241, 42, 244, 102, 12]

/-- The key in the encoding that the lines of `authorized_keys` use. -/
def sessionKeyText : String :=
  "AAAAC3NzaC1lZDI1NTE5AAAAID1AF8PoQ4lakrcKp00bfrycmCzPLsSWjMDNVfEq9GYM"

/-- The identifier 1 can be read from its display form, and the one key from its text. -/
def sessionLibraries : Libraries where
  parseUuid text := if text = (display 1).toList then some 1 else none
  parsePublicKeyBase64 text :=
    if text = sessionKeyText.toList then some (.ed25519 sessionKey) else none

abbrev sessionServer : System State Event := server sampleConfig sessionLibraries

/-- The user name under which a client asks for the console of the VM 1. -/
def sessionUser : String := "vm-" ++ display 1

/-- A VM with one key is created, and a session authenticates for it. -/
def loggingIn : List Event :=
  .request (.create (some ⟨none, none, ["ssh-ed25519 " ++ sessionKeyText]⟩)) :: reserving 0 1 ++
    launching 0 ++ runs 0 1 ++ .request .session ::
    .callback 1 (.authPublickey sessionUser (.ed25519 sessionKey)) :: runs 1 4

/-- The steps of a `shell_request` in task 1 up to the beginning of its handshake. -/
def requestingShell (channel : ChannelId) : List Event :=
  .callback 1 (.shellRequest channel) :: runs 1 4

/-- The rest of a `shell_request` that goes through. -/
def shakingHands : List Event := runs 1 2 ++ [.run 1 { bytes := utf8 "OK 1\n" }, .run 1 {}]

end Samples

end Warlock.SessionHistories
