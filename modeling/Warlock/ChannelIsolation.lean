import Warlock.SessionHistories

/-!
# Channels of one SSH connection

The handler keeps one channel and one writer for the whole connection. Hence a step serves
the channel its callback is for exactly when the shell is requested on the channel opened
last, and data and resize messages come in on the channel of the last shell.
-/

namespace Warlock.ChannelIsolation
open ApplicationState EffectPrograms MachineIntegers ReservationProtocol Server ServerOperations
  SessionDiscipline SessionHistories SshSession TaskViews TransitionSystems VmIdentifiers

/-- The channel that a callback is for. -/
def channelOf : Callback → Option ChannelId
  | .authPublickey _ _ => none
  | .channelOpenSession channel | .ptyRequest channel | .shellRequest channel
  | .data channel _ | .windowChangeRequest channel _ _ => some channel

/-- A new shell forwards to its own channel, and what comes in on a channel goes to a stream
that a `shell_request` on this channel has opened. -/
def Isolated (past : History) (s : State) : Event → Prop
  | .run n _ => match sessionOp s n with
    | some (.forward _ channel) => currentCallback n past = some (.shellRequest channel)
    | some (.send stream bytes) => ∃ cb channel, currentCallback n past = some cb ∧
        payload cb = some bytes ∧ channelOf cb = some channel ∧ Opened past n channel stream
    | _ => True
  | _ => True

/-- The shell is requested on the channel opened last, and what comes in does so on the
channel of the last shell. -/
def inOrder (past : History) (s : State) : Event → Bool
  | .run n _ => match sessionOp s n with
    | some (.forward _ _) => (currentCallback n past).bind channelOf == lastOpened n past
    | some (.send _ _) => (currentCallback n past).bind channelOf == (lastShell n past).map (·.1)
    | _ => true
  | _ => true

variable {config : AppConfig} {lib : Libraries} {past : History} {s : State} {n : ℕ}

theorem forward_iff (h : (server config lib).Run past s) {stream : StreamId} {channel : ChannelId}
    (ho : sessionOp s n = some (.forward stream channel)) :
    currentCallback n past = some (.shellRequest channel) ↔
      (currentCallback n past).bind channelOf = lastOpened n past := by
  obtain ⟨v, ⟨⟨requested, hc⟩, hchannel, _⟩, hv⟩ := sessionRequires_of_run h ho
  have hcurrent : currentCallback n past = some (.shellRequest requested) := hv.callback ▸ hc
  have hlast : lastOpened n past = some channel := by
    rw [← hv.channel, SessionView.nextChannel, hc]
    exact hchannel
  simp [hcurrent, hlast, channelOf]

theorem send_iff (h : (server config lib).Run past s) {stream : StreamId} {bytes : Bytes}
    (ho : sessionOp s n = some (.send stream bytes)) :
    (∃ cb channel, currentCallback n past = some cb ∧ payload cb = some bytes ∧
        channelOf cb = some channel ∧ Opened past n channel stream) ↔
      (currentCallback n past).bind channelOf = (lastShell n past).map (·.1) := by
  obtain ⟨v, ⟨hwriter, cb, hc, hpayload⟩, hv⟩ := sessionRequires_of_run h ho
  have hcurrent : currentCallback n past = some cb := hv.callback ▸ hc
  have hforward : v.forwarded = false := by
    rw [← Bool.not_eq_true]
    intro hf
    obtain ⟨channel, hshell⟩ := hv.shelling hf
    obtain rfl : cb = .shellRequest channel := Option.some.inj (hc.symm.trans hshell)
    simp [payload] at hpayload
  have hlast : (lastShell n past).map (·.2) = some stream := by
    rw [← hv.writer, SessionView.nextWriter, hforward]
    exact hwriter
  obtain ⟨⟨channel, st⟩, hshell, rfl⟩ := Option.map_eq_some_iff.mp hlast
  have hopened := opened_of_lastShell hshell
  rw [hcurrent, hshell]
  constructor
  · rintro ⟨cb', channel', heq, _, hchannel, hopened'⟩
    obtain rfl := Option.some.inj heq
    obtain rfl := hv.once channel channel' _ hopened hopened'
    exact hchannel
  · intro hchannel
    exact ⟨cb, channel, rfl, hpayload, hchannel, hopened⟩

/-- A step serves the channel its callback is for exactly when the order is kept. -/
theorem isolated_iff (h : (server config lib).Run past s) (e : Event) :
    Isolated past s e ↔ inOrder past s e = true := by
  cases e with
  | run n c =>
    cases ho : sessionOp s n with
    | none => simp [Isolated, inOrder, ho]
    | some o =>
      cases o with
      | forward stream channel =>
        simp only [Isolated, inOrder, ho, beq_iff_eq]
        exact forward_iff h ho
      | send stream bytes =>
        simp only [Isolated, inOrder, ho, beq_iff_eq]
        exact send_iff h ho
      | _ => simp [Isolated, inOrder, ho]
  | _ => simp [Isolated, inOrder]

/-- The channels of a connection are isolated over a run exactly when the order is kept over
the run. -/
theorem channel_isolation (h : (server config lib).Run past s) :
    System.Along Isolated past ↔ System.Along (fun past s e => inOrder past s e = true) past :=
  h.along_iff fun _ _ e _ hp _ => isolated_iff hp e

/-- One channel, a shell on it, and data. -/
def oneChannel : List Event :=
  loggingIn ++ .callback 1 (.channelOpenSession 5) :: requestingShell 5 ++ shakingHands ++
    .callback 1 (.data 5 [108, 115]) :: runs 1 1

theorem channel_isolation_oneChannel :
    System.Along Isolated (sessionServer.historyOf oneChannel) := by
  have hrun : sessionServer.Run (sessionServer.historyOf oneChannel)
      (sessionServer.endOf oneChannel) := System.run_follow oneChannel
  rw [channel_isolation hrun]
  decide +kernel

/-- A second channel is opened before the shell is requested on the first. -/
def twoChannels : List Event :=
  loggingIn ++ .callback 1 (.channelOpenSession 5) :: .callback 1 (.channelOpenSession 6) ::
    requestingShell 5 ++ shakingHands

/-- The shell of the first channel then forwards to the second. -/
theorem channels_mixed : ¬ ∀ (past : History) (s : State), sessionServer.Run past s →
    System.Along Isolated past := by
  intro h
  have hrun : sessionServer.Run (sessionServer.historyOf twoChannels)
      (sessionServer.endOf twoChannels) := System.run_follow twoChannels
  have hmixed : ¬ System.Along Isolated (sessionServer.historyOf twoChannels) := by
    rw [hrun.along_iff fun _ _ e _ hp _ => isolated_iff hp e]
    decide +kernel
  generalize sessionServer.historyOf twoChannels = past at hrun hmixed
  exact hmixed (h past _ hrun)

end Warlock.ChannelIsolation
