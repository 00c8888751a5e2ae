import Warlock.DeadlockFreedom
import Warlock.Inevitability
import Mathlib.Data.Fintype.BigOperators

/-!
# Coming to rest

Without new requests and callbacks, and unless one of its servers ends, the process comes to rest,
in whatever order its tasks run and whatever their operations meet with: in the end every request
has its outcome and both mutexes are free. A process that is shutting down comes to the return of
`main`, although tasks may be left that wait for the map for ever.
-/

namespace Warlock.ComingToRest
open ApplicationState DeadlockFreedom EffectPrograms HostNetworking Inevitability
  Ledgers MachineIntegers QuietHandlers Relation ReservationDiscipline ReservationProtocol Server
  ServerInvariant ServerOperations ServerProcess SshSession TransitionSystems VmIdentifiers

/-- A task or `main` performs its next operation. -/
def Drives : Action → Prop
  | .server (.run _ _) | .main _ => True
  | _ => False

/-- What can happen while no request and no callback comes in and both servers go on. -/
def Occurs : Action → Prop
  | .server (.run _ _) | .server (.leave _ _) | .main _ => True
  | _ => False

/-- `main` has returned, or it serves and has nothing to do. -/
def AtRest (p : Process) : Prop :=
  p.main = .returned ∨
    p.main = .serving ∧ Idle p.server ∧ ∀ m, p.server.shared.locks m = none

variable {config : AppConfig} {lib : Libraries} {p p' : Process}

section Descent

/-- What a step of `main` leaves of it. -/
inductive MainAfter : Main → Main → Prop
  | next (o : Op) (next : Reply o → Code Unit) (r : Reply o) :
      MainAfter (.stopping (next r)) (.stopping (.run o next))
  | returns (code : Code Unit) : MainAfter .returned (.stopping code)

theorem acc_returned : Acc MainAfter .returned := ⟨_, fun q hq => by cases hq⟩

theorem wellFounded_mainAfter : WellFounded MainAfter := by
  constructor
  intro main
  cases main with
  | serving => exact ⟨_, fun q hq => by cases hq⟩
  | returned => exact acc_returned
  | stopping code =>
    induction code with
    | done a =>
      constructor
      intro q hq
      cases hq with
      | returns => exact acc_returned
    | run o next ih =>
      constructor
      intro q hq
      cases hq with
      | next r => exact ih _
      | returns => exact acc_returned

/-- What is left to do, of the tasks and of `main`. -/
def remaining (p : Process) : Multiset (Program Reply Outcome) × Main :=
  (p.server.tasks.map HandlerTask.code, p.main)

def Less (p' p : Process) : Prop :=
  Prod.GameAdd (CutExpand ProgramAfter) MainAfter (remaining p') (remaining p)

theorem wellFounded_less : WellFounded Less :=
  InvImage.wf remaining (wellFounded_programAfter.cutExpand.prod_gameAdd wellFounded_mainAfter)

theorem less_of_task {n : ℕ} {t t' : HandlerTask} {sh : Shared} {gone : List ℕ}
    (hn : p.server.tasks[n]? = some t) (h : ProgramAfter t'.code t.code) :
    Less { p with server := ⟨sh, p.server.tasks.set n t'⟩, gone := gone } p := by
  have hcode : (p.server.tasks.map HandlerTask.code)[n]? = some t.code := by simp [hn]
  unfold Less remaining
  rw [List.map_set]
  exact .fst (cutExpand_set hcode h)

theorem less_of_step {a : Action} (ha : Occurs a)
    (he : (process config lib).step p a = some p') : Less p' p := by
  cases stepped he with
  | server e s hmain hserver =>
    cases Server.stepped hserver with
    | request => exact ha.elim
    | callback => exact ha.elim
    | run n c r o may exit next l sh reply hn hexec =>
      exact less_of_task hn (.next o may exit next reply)
    | panic n c r o may exit next l sh hn hexec =>
      exact less_of_task hn (.exit o may exit next .panicked)
    | leave n e r o may exit next l hn hmay => exact less_of_task hn (.exit o may exit next e)
  | stop => exact ha.elim
  | fail => exact ha.elim
  | done c hmain =>
    apply Prod.GameAdd.snd
    rw [hmain]
    exact .returns _
  | run c o next sh r hmain hexec =>
    apply Prod.GameAdd.snd
    rw [hmain]
    exact .next o next r
  | panic c o next sh hmain hexec =>
    apply Prod.GameAdd.snd
    rw [hmain]
    exact .returns _

end Descent

section Identifiers

/-- `main` draws no identifier. -/
def drawless : Discipline Reply Choice Unit where
  requires o _ := o ≠ .newV4
  allows _ _ _ _ := True
  note _ _ _ _ := ()
  considers _ _ _ := False
  leave _ _ := ()

theorem upholds_drawless {o : Op} (h : o ≠ .newV4) : Upholds drawless (fun _ => True) o :=
  fun _ _ => ⟨h, fun _ _ _ => trivial⟩

theorem steady_freeEntry (r : VmResources) : (freeEntry r).Steady drawless fun _ => True := by
  obtain ⟨_, _, rootfs, tap, index, handles, _, _, _⟩ := r
  have hcmd (cmd : Command) := upholds_drawless (o := .command cmd) (by simp)
  induction tap using optionally with
  | some name hrest => exact .bind (steady_deleteTap (hcmd _)) fun _ => hrest
  | none =>
    induction handles using optionally with
    | some handles hrest => exact .bind (steady_removeNatRules fun _ _ => hcmd _) fun _ => hrest
    | none =>
      induction index using optionally with
      | some index hrest =>
        have hfree : (freeSubnet index).Steady drawless fun _ => True :=
          .bind (upholds_drawless (by simp)).steady fun _ =>
            .bind (upholds_drawless (by simp)).steady fun _ => (upholds_drawless (by simp)).steady
        exact .bind hfree fun _ => hrest
      | none =>
        cases rootfs with
        | some path => exact .bind (upholds_drawless (by simp)).steady fun _ => trivial
        | none => trivial

theorem steady_stopEntry (id : Uuid) (e : VmEntry) :
    (stopEntry id e).Steady drawless fun _ => True := by
  cases e with
  | creating r => trivial
  | running r =>
    exact .bind (upholds_drawless (by simp)).steady fun _ => (upholds_drawless (by simp)).steady

theorem steady_drainVms (es : List (Uuid × VmEntry)) :
    (drainVms es).Steady drawless fun _ => True := by
  induction es with
  | nil => trivial
  | cons p rest ih =>
    apply Script.Steady.bind (upholds_drawless (by simp)).steady
    intro _
    apply Script.Steady.bind (steady_stopEntry p.1 p.2)
    intro _
    exact .bind (steady_freeEntry p.2.res) fun _ => ih

theorem steady_deregisterVms (es : List (Uuid × VmEntry)) :
    (deregisterVms es).Steady drawless fun _ => True := by
  induction es with
  | nil => trivial
  | cons p rest ih => exact .bind (upholds_drawless (by simp)).steady fun _ => ih

theorem steady_shutdown : (shutdown config).Steady drawless fun _ => True := by
  apply Script.Steady.bind (upholds_drawless (by simp)).steady
  intro _
  apply Script.Steady.bind (upholds_drawless (by simp)).steady
  intro vms
  split
  · exact .bind (steady_deregisterVms vms) fun _ => steady_drainVms vms
  · exact steady_drainVms vms

/-- Every identifier that was drawn is that of a task, and `main` draws none. -/
structure Named (p : Process) : Prop where
  claimed : ∀ id ∈ p.server.shared.issued, ∃ (n : ℕ) (t : HandlerTask),
    p.server.tasks[n]? = some t ∧ t.ledger.view.id = some id
  main : ∀ code, p.main = .stopping code → code.Steady drawless fun _ => True

theorem issued_kept {n : ℕ} {c : Choice} {sh sh' : Shared} {o : Op} {r : Option (Reply o)}
    (ho : o ≠ .newV4) (h : exec config n c sh o = some (sh', r)) : sh'.issued = sh.issued := by
  cases o with
  | newV4 => exact absurd rfl ho
  | sdk id call => cases call <;> simp only [exec] at h <;> cases h <;> rfl
  | _ =>
    simp only [exec] at h
    repeat' split at h
    all_goals first | (cases h; rfl) | simp at h

/-- A task moves on, under the same identifier. -/
theorem Named.move (h : Named p) {n : ℕ} {t t' : HandlerTask} {sh : Shared} {gone : List ℕ}
    (hn : p.server.tasks[n]? = some t) (hissued : sh.issued = p.server.shared.issued)
    (hid : t'.ledger.view.id = t.ledger.view.id) :
    Named { p with server := ⟨sh, p.server.tasks.set n t'⟩, gone := gone } := by
  refine ⟨fun id hmem => ?_, h.main⟩
  obtain ⟨k, u, hk, hu⟩ := h.claimed id (hissued ▸ hmem)
  by_cases hkn : k = n
  · subst hkn
    obtain rfl := Option.some.inj (hn.symm.trans hk)
    exact ⟨k, t', (getElem?_set hn).mpr (.inl ⟨rfl, rfl⟩), hid.trans hu⟩
  · exact ⟨k, u, (getElem?_set hn).mpr (.inr ⟨hkn, hk⟩), hu⟩

/-- A task draws its identifier. -/
theorem Named.draw (h : Named p) {n : ℕ} {t t' : HandlerTask} {sh : Shared} {gone : List ℕ}
    {id : Uuid} (hn : p.server.tasks[n]? = some t) (hnone : t.ledger.view.id = none)
    (hissued : sh.issued = id :: p.server.shared.issued) (hid : t'.ledger.view.id = some id) :
    Named { p with server := ⟨sh, p.server.tasks.set n t'⟩, gone := gone } := by
  refine ⟨fun id' hmem => ?_, h.main⟩
  have hmem : id' ∈ sh.issued := hmem
  rw [hissued] at hmem
  rcases List.mem_cons.mp hmem with rfl | hmem
  · exact ⟨n, t', (getElem?_set hn).mpr (.inl ⟨rfl, rfl⟩), hid⟩
  · obtain ⟨k, u, hk, hu⟩ := h.claimed id' hmem
    have hkn : k ≠ n := by
      rintro rfl
      obtain rfl := Option.some.inj (hn.symm.trans hk)
      simp [hnone] at hu
    exact ⟨k, u, (getElem?_set hn).mpr (.inr ⟨hkn, hk⟩), hu⟩

theorem Named.step (h : Named p) (hk : Kept config p) {a : Action}
    (he : (process config lib).step p a = some p') : Named p' := by
  cases stepped he with
  | server e s hmain hserver =>
    cases Server.stepped hserver with
    | request r =>
      refine ⟨fun id hmem => ?_, h.main⟩
      obtain ⟨k, u, hk, hu⟩ := h.claimed id hmem
      exact ⟨k, u, getElem?_request.mpr (.inr hk), hu⟩
    | callback n cb r self result l hn => exact h.move hn rfl rfl
    | run n c r o may exit next l sh reply hn hexec =>
      by_cases ho : o = .newV4
      · subst ho
        have hreq := ((hk.ordering hmain).tasks n _ hn).1
        simp only [exec] at hexec
        split at hexec
        · simp at hexec
        · obtain ⟨rfl, rfl⟩ := by simpa using hexec
          exact h.draw hn hreq.1 rfl rfl
      · exact h.move hn (issued_kept ho hexec) (id_noteView ho)
    | panic n c r o may exit next l sh hn hexec =>
      have ho : o ≠ .newV4 := by
        rintro rfl
        obtain ⟨_, hr⟩ := exec_replies (by simp) hexec
        simp at hr
      exact h.move hn (issued_kept ho hexec) rfl
    | leave n e r o may exit next l hn hmay =>
      apply h.move hn rfl
      cases e <;> rfl
  | stop ending hmain =>
    refine ⟨h.claimed, fun code hcode => ?_⟩
    exact Main.stopping.inj hcode ▸ steady_shutdown
  | fail => exact ⟨h.claimed, fun code hcode => by simp at hcode⟩
  | done => exact ⟨h.claimed, fun code hcode => by simp at hcode⟩
  | run c o next sh r hmain hexec =>
    obtain ⟨hop, hnext⟩ := h.main _ hmain
    constructor
    · have hissued := issued_kept (hop () trivial).1 hexec
      intro id hmem
      exact h.claimed id (hissued ▸ hmem)
    · intro code hcode
      exact Main.stopping.inj hcode ▸ hnext r
  | panic c o next sh hmain hexec =>
    obtain ⟨hop, _⟩ := h.main _ hmain
    constructor
    · have hissued := issued_kept (hop () trivial).1 hexec
      intro id hmem
      exact h.claimed id (hissued ▸ hmem)
    · intro code hcode
      simp at hcode

theorem Named.initial : Named (process config lib).initial where
  claimed id hmem := by simp [process] at hmem
  main code hcode := by simp [process] at hcode

/-- There are more identifiers than requests. -/
theorem Named.unissued (h : Named p) (hfew : p.server.tasks.length < 2 ^ 128) :
    ∃ id, id ∉ p.server.shared.issued := by
  by_contra! hall
  let names := p.server.tasks.filterMap fun t => t.ledger.view.id
  have hnames (id : Uuid) : id ∈ names := by
    obtain ⟨n, t, hn, hid⟩ := h.claimed id (hall id)
    exact List.mem_filterMap.mpr ⟨t, List.mem_of_getElem? hn, hid⟩
  have hrange : Finset.range (2 ^ 128) ⊆ (names.map BitVec.toNat).toFinset := by
    intro k hk
    have hlt := Finset.mem_range.mp hk
    refine List.mem_toFinset.mpr (List.mem_map.mpr ⟨BitVec.ofNat 128 k, hnames _, ?_⟩)
    rw [BitVec.toNat_ofNat, Nat.mod_eq_of_lt hlt]
  have hcard := (Finset.card_le_card hrange).trans (List.toFinset_card_le _)
  have hlen : names.length ≤ p.server.tasks.length := List.length_filterMap_le _ _
  rw [Finset.card_range, List.length_map] at hcard
  omega

end Identifiers

section Progress

/-- Apart from waiting for a mutex, an operation always meets with something. -/
theorem exec_enabled (config : AppConfig) (n : ℕ) {sh : Shared} {o : Op} {id : Uuid} (hid : id ∉ sh.issued)
    (hl : ∀ m, o = .lock m → sh.locks m = none) : ∃ c x, exec config n c sh o = some x := by
  refine ⟨{ succeeds := false, id := id }, ?_⟩
  cases o with
  | lock m => simp [exec, hl m rfl]
  | tryLock m => by_cases hm : sh.locks m = none <;> simp [exec, hm]
  | newV4 => simp [exec, hid]
  | allocate => cases h : sh.subnetPool.allocate <;> simp [exec, h]
  | release i => cases h : sh.subnetPool.release i <;> simp [exec, h]
  | command cmd =>
    cases cmd with
    | deleteRule chain handle => cases chain <;> simp [exec, Host.run]
    | _ => simp [exec, Host.run]
  | sdk id call => cases call <;> simp [exec]
  | _ => simp [exec]

theorem drives_main {o : Op} {next : Reply o → Code Unit} (hmain : p.main = .stopping (.run o next))
    {id : Uuid} (hid : id ∉ p.server.shared.issued)
    (hl : ∀ m, o = .lock m → p.server.shared.locks m = none) :
    ∃ a p', Drives a ∧ (process config lib).step p a = some p' := by
  obtain ⟨c, ⟨sh, r⟩, he⟩ := exec_enabled config 0 hid hl
  refine ⟨.main c, ?_⟩
  cases r <;> simp [Drives, process, ServerProcess.step, hmain, he]

theorem drives_task {n : ℕ} {t : HandlerTask} (hret : p.main ≠ .returned)
    (hn : p.server.tasks[n]? = some t) (ht : t.inFlight = true) {id : Uuid}
    (hid : id ∉ p.server.shared.issued) (hw : ∀ m, ¬ Waits p (.task n) m) :
    ∃ a p', Drives a ∧ (process config lib).step p a = some p' := by
  obtain ⟨req, code, l⟩ := t
  cases code with
  | ret outcome => simp [HandlerTask.inFlight] at ht
  | op o may exit next =>
    have hl (m : Mutex) (ho : o = .lock m) : p.server.shared.locks m = none := by
      by_contra hm
      refine hw m ⟨?_, hm⟩
      cases hmain : p.main with
      | returned => exact absurd hmain hret
      | _ => simp [Seeks, nextOp, hmain, hn, HandlerTask.nextOp, ho]
    obtain ⟨c, ⟨sh, r⟩, he⟩ := exec_enabled config n hid hl
    obtain ⟨s', hs'⟩ : ∃ s', Server.step config lib p.server (.run n c) = some s' := by
      cases r <;> simp [Server.step, hn, he]
    refine ⟨.server (.run n c), { p with server := s', gone := p.gone }, trivial, ?_⟩
    cases hmain : p.main with
    | returned => exact absurd hmain hret
    | _ => simp [process, ServerProcess.step, hmain, hs', noteGone]

/-- An unfinished party that does not wait has a step to take. -/
theorem drives_unfinished {q : Party} (hret : p.main ≠ .returned) (hq : Unfinished p q)
    {id : Uuid} (hid : id ∉ p.server.shared.issued) (hw : ∀ m, ¬ Waits p q m) :
    ∃ a p', Drives a ∧ (process config lib).step p a = some p' := by
  cases q with
  | task n =>
    obtain ⟨t, hn, ht⟩ := hq
    exact drives_task hret hn ht hid hw
  | main =>
    obtain ⟨code, hmain⟩ := hq
    cases code with
    | done a => exact ⟨.main {}, _, trivial, by simp [process, ServerProcess.step, hmain]; rfl⟩
    | run o next =>
      apply drives_main hmain hid
      intro m ho
      by_contra hm
      exact hw m ⟨by simp [Seeks, nextOp, hmain, ho], hm⟩

/-- Where somebody is unfinished, somebody has a step to take. -/
theorem drives_of_unfinished (hk : Kept config p) {q : Party} (hret : p.main ≠ .returned)
    (hq : Unfinished p q) {id : Uuid} (hid : id ∉ p.server.shared.issued) :
    ∃ a p', Drives a ∧ (process config lib).step p a = some p' := by
  by_cases hw : ∃ m, Waits p q m
  · obtain ⟨m, hm⟩ := hw
    obtain ⟨q', m', hh, hnot⟩ := hk.ordered.runner hm
    exact drives_unfinished hret (hk.unfinished hret hh) hid hnot
  · exact drives_unfinished hret hq hid fun m hm => hw ⟨m, hm⟩

theorem free_of_rest (hk : Kept config p) (hret : p.main ≠ .returned)
    (hq : ∀ q, ¬ Unfinished p q) (m : Mutex) : p.server.shared.locks m = none := by
  by_contra hm
  obtain ⟨n, hn⟩ := Option.ne_none_iff_exists'.mp hm
  have howner : ∃ q, Holds p q m := by
    cases hheld : p.held m with
    | true => exact ⟨.main, by simp [Holds, owner, hheld]⟩
    | false => exact ⟨.task n, by simp [Holds, owner, hheld, hn]⟩
  obtain ⟨q, hh⟩ := howner
  exact hq q (hk.unfinished hret hh)

theorem unfinished_of_not_rest (hk : Kept config p) (h : ¬ AtRest p) :
    p.main ≠ .returned ∧ ∃ q, Unfinished p q := by
  have hret : p.main ≠ .returned := fun hr => h (.inl hr)
  refine ⟨hret, ?_⟩
  by_contra! hnone
  cases hmain : p.main with
  | returned => exact hret hmain
  | stopping code => exact hnone .main ⟨code, hmain⟩
  | serving =>
    refine h (.inr ⟨hmain, fun n t hn => ?_, free_of_rest hk hret hnone⟩)
    rw [← Bool.not_eq_true]
    intro ht
    exact hnone (.task n) ⟨t, hn, ht⟩

theorem tasks_kept {a : Action} (ha : Occurs a) (he : (process config lib).step p a = some p') :
    p'.server.tasks.length = p.server.tasks.length := by
  cases stepped he with
  | server e s hmain hserver =>
    cases Server.stepped hserver with
    | request => exact ha.elim
    | _ => exact List.length_set
  | _ => rfl

/-- From every reachable state the process comes to rest. -/
theorem comes_to_rest (h : (process config lib).Reachable p)
    (hfew : p.server.tasks.length < 2 ^ 128) :
    Inevitable (process config lib) Drives Occurs AtRest p := by
  have hnamed : Named p := (h.invariant (P := fun p => Kept config p ∧ Named p)
    ⟨kept_of_reachable .initial, .initial⟩
    fun _ _ _ hs he => ⟨hs.1.step he, hs.2.step hs.1 he⟩).2
  apply inevitable_of_wellFounded wellFounded_less
    (I := fun p => Kept config p ∧ Named p ∧ p.server.tasks.length < 2 ^ 128)
  · rintro p a p' ⟨hk, hn, hlen⟩ ha he
    exact ⟨⟨hk.step he, hn.step hk he, (tasks_kept ha he).symm ▸ hlen⟩, less_of_step ha he⟩
  · rintro p ⟨hk, hn, hlen⟩ hrest
    obtain ⟨hret, q, hq⟩ := unfinished_of_not_rest hk hrest
    obtain ⟨id, hid⟩ := hn.unissued hlen
    exact drives_of_unfinished hk hret hq hid
  · exact ⟨kept_of_reachable h, hnamed, hfew⟩

theorem comes_to_rest_duringList :
    (sampleProcess.after stoppedDuringList).server.tasks.length < 2 ^ 128 ∧
    Inevitable sampleProcess Drives Occurs AtRest (sampleProcess.after stoppedDuringList) := by
  have hfew : (sampleProcess.after stoppedDuringList).server.tasks.length < 2 ^ 128 := by
    decide +kernel
  exact ⟨hfew, comes_to_rest (.after _) hfew⟩

end Progress

end Warlock.ComingToRest
