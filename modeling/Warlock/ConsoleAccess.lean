import Warlock.SessionHistories

/-!
# Access to consoles

A session connects only to the console of a VM that it has been authenticated for, with a key
of that VM, while that VM was running; and the VM is running when the shell is requested. The
keys of other VMs play no part in the outcome of an authentication.
-/

namespace Warlock.ConsoleAccess
open ApplicationState AuthorizedKeys EffectPrograms MachineIntegers ReservationDiscipline
  ReservationProtocol Server ServerInvariant ServerOperations SessionDiscipline SessionHistories
  SshSession TaskViews TransitionSystems VmIdentifiers

variable {config : AppConfig} {lib : Libraries} {past : History} {s : State} {n : ℕ}
  {t : HandlerTask} {id : Uuid}

/-- The session may connect to the console of the VM. -/
structure Authorized (lib : Libraries) (past : History) (n : ℕ) (id : Uuid) : Prop where
  accepted : Accepted lib past n id
  requested : ∃ channel, currentCallback n past = some (.shellRequest channel)
  running : ∃ r, Saw past n id (some (.running r)) ∧ r.vsockUdsPath = some (vsockRuntimePath id)

/-- The outcome of an authentication that has returned. -/
def Decided (lib : Libraries) (past : History) (n : ℕ) (user : String) (key : PublicKey)
    (result : CallbackResult) : Prop :=
  match parseVmIdFromUsername lib user with
  | .error _ => result = .error
  | .ok none => result = .reject
  | .ok (some id) => ∃ entry, Saw past n id entry ∧ result = authVerdict lib key entry

structure AccessControl (lib : Libraries) (past : History) (s : State) : Prop where
  consoles : ∀ n path, sessionOp s n = some (.connect path) → ∃ id, path = vsockRuntimePath id
  authorized : ∀ n id, sessionOp s n = some (.connect (vsockRuntimePath id)) →
    Authorized lib past n id
  decided : ∀ (n : ℕ) (t : HandlerTask) user key self result, s.tasks[n]? = some t →
    t.request = .session → t.code = .ret (.session self result) →
    currentCallback n past = some (.authPublickey user key) → Decided lib past n user key result

theorem authorized_of_connect (h : (server config lib).Run past s) {path : String}
    (ho : sessionOp s n = some (.connect path)) :
    ∃ id, path = vsockRuntimePath id ∧ Authorized lib past n id := by
  obtain ⟨v, ⟨⟨channel, hc⟩, id, r, hvm, hentry, hpath, _⟩, hv⟩ := sessionRequires_of_run h ho
  obtain ⟨hsaw, hfits⟩ := hv.entry id _ hentry
  have hvsock : r.vsockUdsPath = some (vsockRuntimePath id) := (hfits _ rfl).vsock
  exact ⟨id, Option.some.inj (hpath.symm.trans hvsock),
    hv.vm id hvm, ⟨channel, hv.callback ▸ hc⟩, r, hsaw, hvsock⟩

theorem decided_of_returned (h : (server config lib).Run past s) (hn : s.tasks[n]? = some t)
    (hreq : t.request = .session) {self : SessionHandler} {result : CallbackResult}
    (hret : t.code = .ret (.session self result)) {user : String} {key : PublicKey}
    (hc : currentCallback n past = some (.authPublickey user key)) :
    Decided lib past n user key result := by
  obtain ⟨v, hcode, hv⟩ := session_of_run h hn hreq
  rw [hret] at hcode
  have hreturns : Returns lib v self result := hcode
  simp only [Returns, hv.callback, hc, AuthReturns] at hreturns
  unfold Decided
  cases hparse : parseVmIdFromUsername lib user with
  | error e =>
    rw [hparse] at hreturns
    exact hreturns.2
  | ok parsed =>
    rw [hparse] at hreturns
    cases parsed with
    | none => exact hreturns.2
    | some id =>
      obtain ⟨entry, hentry, hresult, _⟩ := hreturns
      exact ⟨entry, (hv.entry _ _ hentry).1, hresult⟩

/-- Access to consoles is authorized in every run. -/
theorem console_access (h : (server config lib).Run past s) : AccessControl lib past s where
  consoles n path ho := by
    obtain ⟨id, hpath, _⟩ := authorized_of_connect h ho
    exact ⟨id, hpath⟩
  authorized n id ho := by
    obtain ⟨id', hpath, ha⟩ := authorized_of_connect h ho
    exact vsockRuntimePath_injective hpath ▸ ha
  decided n t user key self result hn hreq hret hc := decided_of_returned h hn hreq hret hc

/-- A session logs in, opens a channel and requests a shell. -/
def connecting : List Event :=
  loggingIn ++ .callback 1 (.channelOpenSession 5) :: requestingShell 5

theorem console_access_connecting :
    Authorized sessionLibraries (sessionServer.historyOf connecting) 1 1 := by
  have hrun : sessionServer.Run (sessionServer.historyOf connecting)
      (sessionServer.endOf connecting) := System.run_follow connecting
  have hconnect : sessionOp (sessionServer.endOf connecting) 1 =
      some (.connect (vsockRuntimePath 1)) := by decide +kernel
  exact (console_access hrun).authorized 1 1 hconnect

end Warlock.ConsoleAccess
