import Warlock.DeadlockFreedom
import Warlock.ShutdownAccounts
import Warlock.VmLifecycle

/-!
# Shutdown

When the serving phase ends without an error, no VM that is still being created has a process yet,
and no `create` is left alone with what it has made, every VM that was in the map is torn down by
the time `main` returns, by `main` itself or by a `delete` that was faster. When a server fails,
`main` returns at once and leaves everything.
-/

namespace Warlock.ShutdownCompleteness
open ApplicationState AssociationMaps DeadlockFreedom EffectPrograms HostNetworking Ledgers
  MachineIntegers ReservationDiscipline ReservationProtocol Server ServerInvariant ServerOperations
  ServerProcess ShutdownAccounts ShutdownAgendas SshSession SubnetAddressing TaskViews
  TransitionSystems VmHandlers VmIdentifiers VmLifecycle

section Serving

variable {config : AppConfig} {lib : Libraries} {s s' : State} {n : ℕ} {c : Choice} {o : Op}
  {sh : Shared} {id : Uuid} {f : ℕ → Agenda}

/-- What a `create` does is of no account while the server serves. -/
def bystander : Discipline Reply Choice Agenda where
  requires _ _ := True
  allows _ _ _ _ := True
  note _ _ _ v := v
  considers _ _ _ := True
  leave _ v := v

def owing (config : AppConfig) (request : Request) : Discipline Reply Choice Agenda :=
  if isCreate request then bystander else agenda config (roleOf request)

theorem owing_of_create {r : Request} (h : isCreate r = true) : owing config r = bystander :=
  if_pos h

theorem owing_of_other {r : Request} (h : isCreate r = false) :
    owing config r = agenda config (roleOf r) := if_neg (by simp [h])

/-- How a task that is no `create` ends. -/
def settled (request : Request) (_ : Outcome) (v : Agenda) : Prop :=
  isCreate request = false → Cleared v

theorem safe_bystander {r : Request} (h : isCreate r = true) (code : Program Reply Outcome)
    (v : Agenda) : code.Safe (owing config r) (settled r) v := by
  rw [owing_of_create h]
  exact Program.safe_of_free (fun _ _ => trivial) (fun _ _ hother => by simp [h] at hother) _ _

theorem safe_owing (r : Request) : (handlerOf config r).Safe (owing config r) (settled r) {} := by
  cases hc : isCreate r with
  | true => exact safe_bystander hc _ _
  | false =>
    rw [owing_of_other hc]
    exact (safe_agenda hc).mono fun _ _ hw _ => hw

theorem callback_owing {r : Request} {self : SessionHandler} {result : CallbackResult} {v : Agenda}
    (cb : Callback) (hv : settled r (.session self result) v) :
    (calledBack (callbackCode lib self cb)).Safe (owing config r) (settled r) v := by
  cases hc : isCreate r with
  | true => exact safe_bystander hc _ _
  | false =>
    rw [owing_of_other hc]
    exact (agenda_callback cb roleOf_ne (hv hc)).mono fun _ _ hw _ => hw

/-- What the agendas of the tasks say about the state of the server. -/
structure Owed (s : State) (f : ℕ → Agenda) : Prop where
  creates : ∀ (n : ℕ) (t : HandlerTask), s.tasks[n]? = some t → isCreate t.request = true → f n = {}
  read : ∀ n, (f n).read = false
  holding : ∀ n, (f n).due ≠ [] → ∃ t, s.tasks[n]? = some t ∧ t.ledger.view.registry = true ∧
    roleOf t.request = .remover
  removes : ∀ n, ∀ o ∈ (f n).due, Removes o ∧ ∀ id, o ≠ .vms (.discard id)
  gone : ∀ n id, ∀ o ∈ processOps id, o ∈ (f n).due →
    Spent (siteOf s) id ∧ s.shared.vms.lookup id = none

theorem exec_take {r : VmResources} (he : exec config n c s.shared (.vms (.take id)) =
    some (sh, some (.ok r))) : s.shared.vms.lookup id = some (.running r) ∧
      sh = { s.shared with vms := s.shared.vms.erase id } := by
  obtain ⟨rfl, hr⟩ := by simpa [exec] using he
  rcases VmRegistry.take_cases id s.shared.vms with ⟨r', hl, ht⟩ | ⟨e, he, _⟩
  · simp only [VmRegistry.Section.run, ht] at hr ⊢
    obtain rfl : r' = r := by simpa using hr
    exact ⟨hl, trivial⟩
  · simp [VmRegistry.Section.run, he] at hr

theorem exec_take_error {e : ApiError} (he : exec config n c s.shared (.vms (.take id)) =
    some (sh, some (.error e))) : (∀ id', sh.vms.lookup id' = s.shared.vms.lookup id') ∧
      Shrinks s.shared sh := by
  obtain ⟨rfl, hr⟩ := by simpa [exec] using he
  rcases VmRegistry.take_cases id s.shared.vms with ⟨r', hl, ht⟩ | ⟨e', he, hsame⟩
  · simp [VmRegistry.Section.run, ht] at hr
  · refine ⟨hsame, fun id' e hl => ?_, fun _ h => h, fun _ h => h, fun _ h => h, fun _ h => h,
      fun _ h => h, fun _ h => h, fun _ h => h⟩
    exact (hsame id').symm.trans hl

theorem mem_teardownOps_process {r : VmResources} {id' : Uuid} (ho : o ∈ processOps id)
    (hmem : o ∈ teardownOps config id' (.running r)) : id' = id := by
  by_contra hne
  have hcount : (teardownOps config id' (.running r)).count o = 0 :=
    (count_teardownOps ho).trans (if_neg hne)
  exact List.count_eq_zero.mp hcount hmem

/-- One step of task `n`, which leaves the agendas of the others as they are. -/
theorem Owed.move {e : Event} {t t' : HandlerTask} {v : Agenda} (h : Owed s f)
    (hs : Sound config s) (he : step config lib s e = some ⟨sh, s.tasks.set n t'⟩)
    (hn : s.tasks[n]? = some t) (hreq : t'.request = t.request)
    (hcreate : isCreate t.request = true → v = {}) (hread : v.read = false)
    (hreg : v.due ≠ [] → t'.ledger.view.registry = true ∧ roleOf t.request = .remover)
    (hremoves : ∀ o ∈ v.due, Removes o ∧ ∀ id, o ≠ .vms (.discard id))
    (hgone : ∀ id, ∀ o ∈ processOps id, o ∈ v.due → o ∉ (f n).due →
      Spent (siteOf s) id ∧ sh.vms.lookup id = none) :
    Owed ⟨sh, s.tasks.set n t'⟩ (Function.update f n v) := by
  constructor
  · intro k u hk hu
    rcases (getElem?_set hn).mp hk with ⟨rfl, rfl⟩ | ⟨hkn, hk⟩
    · rw [Function.update_self]
      exact hcreate (hreq ▸ hu)
    · rw [Function.update_of_ne hkn]
      exact h.creates k u hk hu
  · intro k
    by_cases hkn : k = n
    · subst hkn
      simpa using hread
    · simpa [hkn] using h.read k
  · intro k hk
    by_cases hkn : k = n
    · subst hkn
      exact ⟨t', (getElem?_set hn).mpr (.inl ⟨rfl, rfl⟩), hreq ▸ hreg (by simpa using hk)⟩
    · obtain ⟨u, hu, hr⟩ := h.holding k (by simpa [hkn] using hk)
      exact ⟨u, (getElem?_set hn).mpr (.inr ⟨hkn, hu⟩), hr⟩
  · intro k o ho
    by_cases hkn : k = n
    · subst hkn
      exact hremoves o (by simpa using ho)
    · exact h.removes k o (by simpa [hkn] using ho)
  · intro k id o ho hmem
    have hold (j : ℕ) (hj : o ∈ (f j).due) := h.gone j id o ho hj
    by_cases hkn : k = n
    · subst hkn
      rw [Function.update_self] at hmem
      by_cases hwas : o ∈ (f k).due
      · exact absent_kept hs he (hold k hwas).1 (hold k hwas).2
      · obtain ⟨hspent, hnone⟩ := hgone id o ho hmem hwas
        exact ⟨spent_kept hs he hspent, hnone⟩
    · rw [Function.update_of_ne hkn] at hmem
      exact absent_kept hs he (hold k hmem).1 (hold k hmem).2

theorem tracking_owing : Tracking config lib (fun _ _ => True) (owing config) settled
    fun _ s f => Owed s f where
  initial := ⟨fun _ => {}, by simp, by simp, by simp, by simp, by simp⟩
  request past s f r hr h := by
    have hs := sound_of_reachable (System.Run.reachable hr)
    have hnone : s.tasks[s.tasks.length]? = none := by simp
    have hold {k : ℕ} {u : HandlerTask} (hu : s.tasks[k]? = some u) : k ≠ s.tasks.length :=
      (List.getElem?_eq_some_iff.mp hu).1.ne
    refine ⟨{}, safe_owing r, ?_⟩
    have hdue {k : ℕ} (hk : (Function.update f s.tasks.length {} k).due ≠ []) :
        k ≠ s.tasks.length := by
      rintro rfl
      simp at hk
    constructor
    · intro k u hk hu
      rcases getElem?_request.mp hk with ⟨rfl, rfl⟩ | hk
      · simp
      · rw [Function.update_of_ne (hold hk)]
        exact h.creates k u hk hu
    · intro k
      by_cases hk : k = s.tasks.length
      · simp [hk]
      · simpa [hk] using h.read k
    · intro k hk
      have hne := hdue hk
      rw [Function.update_of_ne hne] at hk
      obtain ⟨u, hu, hr⟩ := h.holding k hk
      exact ⟨u, getElem?_request.mpr (.inr hu), hr⟩
    · intro k o ho
      have hne := hdue (List.ne_nil_of_mem ho)
      rw [Function.update_of_ne hne] at ho
      exact h.removes k o ho
    · intro k id o hp ho
      have hne := hdue (List.ne_nil_of_mem ho)
      rw [Function.update_of_ne hne] at ho
      obtain ⟨hspent, hnone⟩ := h.gone k id o hp ho
      have he : step config lib s (.request r) = some _ := rfl
      exact absent_kept hs he hspent hnone
  callback past s f n cb r self result l hr hn h hend := by
    have hs := sound_of_reachable (System.Run.reachable hr)
    have he : step config lib s (.callback n cb) =
        some { s with tasks := s.tasks.set n ⟨r, calledBack (callbackCode lib self cb), l⟩ } := by
      simp [Server.step, hn]
    refine ⟨f n, callback_owing cb hend, ?_⟩
    refine h.move hs he hn rfl (h.creates n _ hn) (h.read n) (fun hd => ?_) (h.removes n)
      fun _ _ _ hmem hwas => absurd hmem hwas
    obtain ⟨t, ht, hreg⟩ := h.holding n hd
    obtain rfl := Option.some.inj (hn.symm.trans ht)
    exact hreg
  run past s f n c r o may exit next l sh reply hr hok hn hexec h hreq hallow := by
    have hs := sound_of_reachable (System.Run.reachable hr)
    have he : step config lib s (.run n c) =
        some ⟨sh, s.tasks.set n ⟨r, next reply, l.note c o reply⟩⟩ := by
      simp [Server.step, hn, hexec]
    have hcustody := requires_of_nextOp hs hn rfl
    have hholds (hd : (f n).due ≠ []) : l.view.registry = true ∧ roleOf r = .remover := by
      obtain ⟨t, ht, hreg⟩ := h.holding n hd
      obtain rfl := Option.some.inj (hn.symm.trans ht)
      exact hreg
    cases hc : isCreate r with
    | true =>
      rw [owing_of_create hc]
      have hnone : f n = {} := h.creates n _ hn hc
      exact ⟨trivial, h.move hs he hn rfl (fun _ => hnone) (h.read n)
        (fun hd => absurd (congrArg Agenda.due hnone) hd) (h.removes n)
        fun _ _ _ hmem hwas => absurd hmem hwas⟩
    | false =>
      rw [owing_of_other hc] at hreq ⊢
      refine ⟨trivial, ?_⟩
      have hadvance : Advance config (roleOf r) (f n) o reply
          ((agenda config (roleOf r)).note o c reply (f n)) := advance hreq reply
      generalize hw : (agenda config (roleOf r)).note o c reply (f n) = w at hadvance ⊢
      generalize hv : f n = v at hadvance
      have hnew : isCreate r = true → w = {} := by simp [hc]
      have hread : v.read = false := hv ▸ h.read n
      have hremoves : ∀ o ∈ v.due, Removes o ∧ ∀ id, o ≠ .vms (.discard id) := hv ▸ h.removes n
      have hholds : v.due ≠ [] → l.view.registry = true ∧ roleOf r = .remover := hv ▸ hholds
      generalize hrole : roleOf r = role at hadvance
      cases hadvance with
      | aside v o reply ho hunlock =>
        refine h.move hs he hn rfl hnew hread (fun hd => ?_) hremoves
          fun _ _ _ hmem hwas => absurd (hv ▸ hmem) hwas
        obtain ⟨hreg, hremover⟩ := hholds hd
        exact ⟨registry_noteView (fun hu => hd (hunlock hu).2) hreg, hremover⟩
      | act read rest o reply ho =>
        have hne : o ≠ .unlock .registry := by
          rintro rfl
          exact Bool.noConfusion ho
        refine h.move hs he hn rfl hnew hread (fun _ => ?_)
          (fun o' ho' => hremoves o' (.tail _ ho')) fun _ _ _ hmem hwas => absurd (hv ▸ .tail _ hmem) hwas
        obtain ⟨hreg, hremover⟩ := hholds (by simp)
        exact ⟨registry_noteView hne hreg, hremover⟩
      | take read id taken =>
        obtain ⟨hl, rfl⟩ := exec_take hexec
        have hbound (i : U16) (hi : (Entry.running taken).res.subnetIndex = some i) :
            i.toNat < maxSubnets := by
          obtain ⟨j, hj, hindex, _⟩ := (hs.protocol.fits id _ hl).subnet
          exact Option.some.inj (hindex.symm.trans hi) ▸ hj
        refine h.move hs he hn rfl hnew hread (fun _ => ?_) (fun o' ho' => ?_)
          fun id' o' ho' hmem _ => ?_
        · exact ⟨registry_noteView (by simp) hcustody.1, hrole⟩
        · exact ⟨removes_teardownOps hbound o' ho',
            fun _ hd => discard_not_mem_teardownOps (hd ▸ ho')⟩
        · obtain rfl := mem_teardownOps_process ho' hmem
          exact ⟨spent_of_entry hs (by simp [hl]), by simp⟩
      | refuse read id e =>
        exact h.move hs he hn rfl hnew hread (fun hd => absurd rfl hd) hremoves
          fun _ _ _ hmem _ => absurd hmem (by simp)
      | read es => exact absurd hrole roleOf_ne
  leave past s f n e r o may exit next l hr _ hn hmay h _ := by
    have hs := sound_of_reachable (System.Run.reachable hr)
    have he : step config lib s (.leave n e) =
        some { s with tasks := s.tasks.set n ⟨r, exit e, l.leave e⟩ } := by
      simp [Server.step, hn, hmay]
    have hread : ((owing config r).leave e (f n)).read = false := by
      unfold owing
      split <;> exact h.read n
    have hsub : ((owing config r).leave e (f n)).due ⊆ (f n).due := by
      unfold owing
      split
      · exact fun _ ho => ho
      · exact List.filter_subset_self _
    have hconsiders : (owing config r).considers e o (f n) := by
      unfold owing
      split <;> trivial
    refine ⟨hconsiders, h.move hs he hn rfl (fun hc => ?_) hread (fun hd => ?_)
      (fun o' ho' => h.removes n o' (hsub ho')) fun _ _ _ hmem hwas => absurd (hsub hmem) hwas⟩
    · simp only [owing, hc, if_true]
      exact h.creates n _ hn hc
    · have hdue : (f n).due ≠ [] := fun hnone => hd (List.subset_nil.mp (hnone ▸ hsub))
      obtain ⟨t, ht, hreg⟩ := h.holding n hdue
      obtain rfl := Option.some.inj (hn.symm.trans ht)
      exact ⟨(holds_leave l e .registry).trans hreg.1, hreg.2⟩

end Serving

section Stopping

variable {config : AppConfig} {lib : Libraries} {start sh : Shared} {done done' due due' : List Op}
  {p : Process} {who who' : Party} {read read' : Bool} {n : ℕ} {t : HandlerTask} {c : Choice}
  {o : Op}

def share (who q : Party) (due : List Op) : List Op := if who = q then due else []

@[simp] theorem share_self : share who who due = due := if_pos rfl

theorem share_ne {q : Party} (h : who ≠ q) : share who q due = [] := if_neg h

@[simp] theorem share_nil {q : Party} : share who q [] = [] := by simp [share]

theorem eq_of_share {q : Party} (h : share who q due ≠ []) : who = q := by
  by_contra hne
  exact h (share_ne hne)

/-- From the end of the serving phase until `main` returns, one party at most has things to do,
and it has the map. -/
structure Owing (config : AppConfig) (start : Shared) (done : List Op) (p : Process) (who : Party)
    (read : Bool) (due : List Op) : Prop where
  tasks : ∀ (n : ℕ) (t : HandlerTask), p.server.tasks[n]? = some t →
    t.code.Safe (owing config t.request) (settled t.request) ⟨false, share who (.task n) due⟩
  removers : ∀ (n : ℕ) (t : HandlerTask), p.server.tasks[n]? = some t →
    share who (.task n) due ≠ [] → roleOf t.request = .remover
  main : ∃ code, p.main = .stopping code ∧
    code.Safe (agenda config .main) (fun _ w => w = ⟨true, []⟩) ⟨read, share who .main due⟩
  holder : due ≠ [] → Believes p.held p.server.tasks who .registry
  reader : read = true → p.held .registry = true
  account : Account config start done p.server.shared read due

/-- Task `n` moves on. -/
theorem Owing.task_move (h : Owing config start done p who read due)
    (hn : p.server.tasks[n]? = some t) (t' : HandlerTask) (hreq : t'.request = t.request)
    (hsafe : t'.code.Safe (owing config t'.request) (settled t'.request)
      ⟨false, share who' (.task n) due'⟩)
    (hothers : ∀ q, q ≠ .task n → share who' q due' = share who q due)
    (hremover : share who' (.task n) due' ≠ [] → roleOf t.request = .remover)
    (hheld : share who' (.task n) due' ≠ [] → t'.ledger.view.registry = true)
    (haccount : Account config start done' sh read due') (gone : List ℕ) :
    Owing config start done'
      { p with server := ⟨sh, p.server.tasks.set n t'⟩, gone := gone } who' read due' := by
  constructor
  · intro k u hk
    rcases (getElem?_set hn).mp hk with ⟨rfl, rfl⟩ | ⟨hkn, hk⟩
    · exact hsafe
    · rw [hothers (.task k) (by simpa using hkn)]
      exact h.tasks k u hk
  · intro k u hk hshare
    rcases (getElem?_set hn).mp hk with ⟨rfl, rfl⟩ | ⟨hkn, hk⟩
    · rw [hreq]
      exact hremover hshare
    · rw [hothers (.task k) (by simpa using hkn)] at hshare
      exact h.removers k u hk hshare
  · rw [hothers .main (by simp)]
    exact h.main
  · intro hdue
    by_cases hwho : who' = .task n
    · subst hwho
      exact ⟨t', (getElem?_set hn).mpr (.inl ⟨rfl, rfl⟩), hheld (by simpa using hdue)⟩
    · have hshare : share who who' due ≠ [] := by
        rw [← hothers who' hwho]
        simpa using hdue
      obtain rfl := eq_of_share hshare
      have hold := h.holder (by simpa using hshare)
      cases who with
      | main => exact hold
      | task k => exact (believes_set hn).mpr (.inr ⟨by simpa using hwho, hold⟩)
  · exact h.reader
  · exact haccount

/-- `main` moves on. -/
theorem Owing.main_move (h : Owing config start done p who read due) {code : Code Unit}
    {held : Mutex → Bool} (hsafe : code.Safe (agenda config .main) (fun _ w => w = ⟨true, []⟩)
      ⟨read', share who' .main due'⟩)
    (hothers : ∀ q, q ≠ .main → share who' q due' = share who q due)
    (hheld : share who' .main due' ≠ [] ∨ read' = true → held .registry = true)
    (haccount : Account config start done' sh read' due') :
    Owing config start done'
      { p with server := { p.server with shared := sh }, main := .stopping code, held := held }
      who' read' due' := by
  constructor
  · intro k u hk
    rw [hothers (.task k) (by simp)]
    exact h.tasks k u hk
  · intro k u hk hshare
    rw [hothers (.task k) (by simp)] at hshare
    exact h.removers k u hk hshare
  · exact ⟨code, rfl, hsafe⟩
  · intro hdue
    by_cases hwho : who' = .main
    · subst hwho
      exact hheld (.inl (by simpa using hdue))
    · have hshare : share who who' due ≠ [] := by
        rw [← hothers who' hwho]
        simpa using hdue
      obtain rfl := eq_of_share hshare
      have hold := h.holder (by simpa using hshare)
      cases who with
      | main => exact absurd rfl hwho
      | task k => exact hold
  · exact fun hread => hheld (.inr hread)
  · exact haccount

/-- Who has the map and nothing to do knows that nobody has. -/
theorem Owing.nothing_due (h : Owing config start done p who read due) (hord : Ordering config p)
    {q : Party} (hq : Believes p.held p.server.tasks q .registry) (hshare : share who q due = []) :
    due = [] := by
  by_contra hdue
  have howner := (hord.agreed.assigned q .registry).mpr hq
  have howner' := (hord.agreed.assigned who .registry).mpr (h.holder hdue)
  obtain rfl := Option.some.inj (howner'.symm.trans howner)
  exact hdue (by simpa using hshare)

theorem main_not_task (hord : Ordering config p) (hmain : p.held .registry = true)
    (hn : p.server.tasks[n]? = some t) : t.ledger.view.registry = false := by
  rw [← Bool.not_eq_true]
  intro hreg
  have howner := (hord.agreed.assigned (.task n) .registry).mpr ⟨t, hn, hreg⟩
  simp [owner, hmain] at howner

theorem Owing.task_run {r : Request} {may : Exit → Bool} {exit : Exit → Program Reply Outcome}
    {next : Reply o → Program Reply Outcome} {l : Ledger} {reply : Reply o}
    (h : Owing config start done p who read due) (hord : Ordering config p)
    (hn : p.server.tasks[n]? = some ⟨r, .op o may exit next, l⟩)
    (hexec : exec config n c p.server.shared o = some (sh, some reply))
    (hok : (cleans o = true → c.succeeds = true) ∧ (acts o = true → isCreate r = false))
    (gone : List ℕ) : ∃ who' due', Owing config start (o :: done) { p with
      server := ⟨sh, p.server.tasks.set n ⟨r, next reply, l.note c o reply⟩⟩
      gone := gone } who' read due' := by
  obtain ⟨hc, hother⟩ := hok
  have hremover := h.removers n _ hn
  rcases Bool.eq_false_or_eq_true (isCreate r) with hcreate | hother
  · have ho : acts o = false := by
      rw [← Bool.not_eq_true]
      intro ho
      simp [hother ho] at hcreate
    have hobserves : roleOf r = .observer := by
      cases r with
      | create body => rfl
      | _ => simp [isCreate] at hcreate
    have hidle : share who (.task n) due = [] := by
      by_contra hshare
      exact absurd (hobserves.symm.trans (hremover hshare)) (by simp)
    obtain ⟨hvms, hshrinks⟩ := exec_aside ho hexec
    exact ⟨who, due, h.task_move hn ⟨r, next reply, l.note c o reply⟩ rfl
      (safe_bystander hcreate _ _) (fun _ _ => rfl) hremover (fun hshare => absurd hidle hshare)
      (h.account.aside hshrinks (fun _ => by rw [hvms]) fun _ => not_process_of_aside ho) gone⟩
  have howing : owing config r = agenda config (roleOf r) := owing_of_other hother
  obtain ⟨hreq, hnext, _⟩ := howing ▸ h.tasks n _ hn
  have hsafe := hnext c reply trivial
  have hcarry {v : Agenda} (hv : (next reply).Safe (agenda config (roleOf r)) (settled r) v) :
      (next reply).Safe (owing config r) (settled r) v := howing.symm ▸ hv
  have hcustody := (hord.tasks n _ hn).1
  have hheld (hshare : share who (.task n) due ≠ []) : l.view.registry = true := by
    obtain rfl := eq_of_share hshare
    obtain ⟨u, hu, hreg⟩ := h.holder (by simpa using hshare)
    obtain rfl := Option.some.inj (hn.symm.trans hu)
    exact hreg
  have hadvance : Advance config (roleOf r) ⟨false, share who (.task n) due⟩ o reply
      ((agenda config (roleOf r)).note o c reply ⟨false, share who (.task n) due⟩) :=
    advance hreq reply
  generalize (agenda config (roleOf r)).note o c reply ⟨false, share who (.task n) due⟩ = w
    at hadvance hsafe
  generalize hmine : share who (.task n) due = mine at hadvance
  generalize hrole : roleOf r = role at hadvance
  cases hadvance with
  | aside _ _ _ ho hunlock =>
    obtain ⟨hvms, hshrinks⟩ := exec_aside ho hexec
    refine ⟨who, due, h.task_move hn ⟨r, next reply, l.note c o reply⟩ rfl
      (hmine ▸ hcarry hsafe) (fun _ _ => rfl) hremover (fun hshare => ?_)
      (h.account.aside hshrinks (fun _ => by rw [hvms]) fun _ => not_process_of_aside ho) gone⟩
    exact registry_noteView (fun hu => hshare (hmine.trans (hunlock hu).2)) (hheld hshare)
  | act _ rest _ _ ho =>
    have hshare : share who (.task n) due ≠ [] := by simp [hmine]
    obtain rfl := eq_of_share hshare
    obtain rfl : due = o :: rest := by simpa using hmine
    obtain ⟨_, hremoved⟩ := exec_removes (h.account.removes o (.head _)) hexec
    refine ⟨.task n, rest, h.task_move hn ⟨r, next reply, l.note c o reply⟩ rfl
      (by simpa using hcarry hsafe) (fun q hq => ?_)
      (fun _ => hremover hshare) (fun _ => registry_noteView ?_ (hheld hshare))
      (h.account.act hremoved hc) gone⟩
    · rw [share_ne (Ne.symm hq), share_ne (Ne.symm hq)]
    · rintro rfl
      exact Bool.noConfusion ho
  | take _ id taken =>
    have hreg : l.view.registry = true := hcustody.1
    have hbelieves : Believes p.held p.server.tasks (.task n) .registry := ⟨_, hn, hreg⟩
    obtain rfl := h.nothing_due hord hbelieves hmine
    have hread : read = false := by
      rw [← Bool.not_eq_true]
      intro hread
      have haway := main_not_task hord (h.reader hread) hn
      simp [hreg] at haway
    subst hread
    obtain ⟨hl, rfl⟩ := exec_take hexec
    refine ⟨.task n, teardownOps config id (.running taken),
      h.task_move hn ⟨r, next (.ok taken), _⟩ rfl (by simpa using hcarry hsafe) (fun q hq => ?_) (fun _ => hrole)
      (fun _ => registry_noteView (by simp) hreg) (h.account.take hl) gone⟩
    rw [share_ne (Ne.symm hq), share_nil]
  | refuse _ id e =>
    obtain ⟨hvms, hshrinks⟩ := exec_take_error hexec
    refine ⟨who, due, h.task_move hn ⟨r, next (.error e), _⟩ rfl (hmine ▸ hcarry hsafe)
      (fun _ _ => rfl) hremover (fun hshare => absurd hmine hshare)
      (h.account.aside hshrinks hvms fun _ => by simp [processOps]) gone⟩
  | read es => exact absurd hrole roleOf_ne

theorem Owing.main_run {next : Reply o → Code Unit} {reply : Reply o}
    (h : Owing config start done p who read due) (hord : Ordering config p)
    (hmain : p.main = .stopping (.run o next))
    (hstarted : p.held .registry = true ∨ o = .lock .registry)
    (hexec : exec config 0 c p.server.shared o = some (sh, some reply))
    (hc : cleans o = true → c.succeeds = true) :
    ∃ who' read' due', Owing config start (o :: done) { p with
      server := { p.server with shared := sh }
      main := .stopping (next reply)
      held := noteMutex p.held o } who' read' due' := by
  obtain ⟨code, hcode, hsafe⟩ := h.main
  obtain rfl := Main.stopping.inj (hmain.symm.trans hcode)
  obtain ⟨hreq, hnext⟩ := hsafe
  have hsafe := hnext c reply trivial
  have hheld (hread : share who .main due ≠ [] ∨ read = true) : p.held .registry = true := by
    rcases hread with hshare | hread
    · obtain rfl := eq_of_share hshare
      exact h.holder (by simpa using hshare)
    · exact h.reader hread
  have hnote (ho : o ≠ .unlock .registry) (hheld : p.held .registry = true) :
      noteMutex p.held o .registry = true := by
    cases o with
    | lock m => cases m <;> simp [noteMutex, hheld]
    | unlock m =>
      cases m with
      | registry => exact absurd rfl ho
      | pool => simp [noteMutex, hheld]
    | _ => exact hheld
  have hadvance : Advance config .main ⟨read, share who .main due⟩ o reply
      ((agenda config .main).note o c reply ⟨read, share who .main due⟩) := advance hreq reply
  generalize (agenda config .main).note o c reply ⟨read, share who .main due⟩ = w at hadvance hsafe
  generalize hmine : share who .main due = mine at hadvance
  cases hadvance with
  | aside _ _ _ ho hunlock =>
    obtain ⟨hvms, hshrinks⟩ := exec_aside ho hexec
    refine ⟨who, read, due, h.main_move (hmine ▸ hsafe) (fun _ _ => rfl) (fun hread => ?_)
      (h.account.aside hshrinks (fun _ => by rw [hvms]) fun _ => not_process_of_aside ho)⟩
    exact hnote (fun hu => absurd rfl (hunlock hu).1) (hheld hread)
  | act _ rest _ _ ho =>
    have hshare : share who .main due ≠ [] := by simp [hmine]
    obtain rfl := eq_of_share hshare
    obtain rfl : due = o :: rest := by simpa using hmine
    obtain ⟨_, hremoved⟩ := exec_removes (h.account.removes o (.head _)) hexec
    refine ⟨.main, read, rest, h.main_move (by simpa using hsafe) (fun q hq => ?_)
      (fun _ => hnote ?_ (hheld (.inl hshare))) (h.account.act hremoved hc)⟩
    · rw [share_ne (Ne.symm hq), share_ne (Ne.symm hq)]
    · rintro rfl
      exact Bool.noConfusion ho
  | read es =>
    have hregistry : p.held .registry = true := hstarted.resolve_right (by simp)
    obtain rfl := h.nothing_due hord (q := .main) hregistry hmine
    obtain ⟨rfl, rfl⟩ := by simpa [exec, VmRegistry.Section.run] using hexec
    refine ⟨.main, true, _, h.main_move (by simpa using hsafe) (fun q hq => ?_)
      (fun _ => hregistry) (h.account.sweep rfl)⟩
    rw [share_ne (Ne.symm hq), share_nil]

/-- What `main` does does not panic. -/
theorem Owing.main_replies {next : Reply o → Code Unit} {r : Option (Reply o)}
    (h : Owing config start done p who read due) (hmain : p.main = .stopping (.run o next))
    (hexec : exec config 0 c p.server.shared o = some (sh, r)) : ∃ reply, r = some reply := by
  obtain ⟨code, hcode, hsafe⟩ := h.main
  obtain rfl := Main.stopping.inj (hmain.symm.trans hcode)
  by_cases hrelease : ∃ i, o = .release i
  · obtain ⟨i, rfl⟩ := hrelease
    have hreq : acts (.release i) = true → ∃ rest, share who .main due = .release i :: rest :=
      hsafe.1
    obtain ⟨rest, hmine⟩ := hreq rfl
    have hshare : share who .main due ≠ [] := by simp [hmine]
    obtain rfl := eq_of_share hshare
    obtain rfl : due = .release i :: rest := by simpa using hmine
    exact (exec_removes (h.account.removes _ (.head _)) hexec).1
  · exact exec_replies (fun i ho => hrelease ⟨i, ho⟩) hexec

theorem Owing.request (h : Owing config start done p who read due) {r : Request} (gone : List ℕ) :
    Owing config start done { p with
      server := { p.server with
        tasks := p.server.tasks ++ [{ request := r, code := handlerOf config r }] }
      gone := gone } who read due := by
  have hnew : share who (.task p.server.tasks.length) due = [] := by
    by_contra hshare
    obtain rfl := eq_of_share hshare
    obtain ⟨u, hu, _⟩ := h.holder (by simpa using hshare)
    simp at hu
  constructor
  · intro k u hk
    rcases getElem?_request.mp hk with ⟨rfl, rfl⟩ | hk
    · rw [hnew]
      exact safe_owing r
    · exact h.tasks k u hk
  · intro k u hk hshare
    rcases getElem?_request.mp hk with ⟨rfl, rfl⟩ | hk
    · exact absurd hnew hshare
    · exact h.removers k u hk hshare
  · exact h.main
  · intro hdue
    have hold := h.holder hdue
    cases who with
    | main => exact hold
    | task k =>
      obtain ⟨u, hu, hreg⟩ := hold
      exact ⟨u, getElem?_request.mpr (.inr hu), hreg⟩
  · exact h.reader
  · exact h.account

/-- A step of task `n` that performs nothing, when it has nothing to do. -/
theorem Owing.task_still (h : Owing config start done p who read due)
    (hn : p.server.tasks[n]? = some t) (t' : HandlerTask) (hreq : t'.request = t.request)
    (hshare : share who (.task n) due = [])
    (hsafe : t'.code.Safe (owing config t'.request) (settled t'.request) {})
    (gone : List ℕ) : Owing config start done
      { p with server := { p.server with tasks := p.server.tasks.set n t' }, gone := gone }
      who read due := by
  refine h.task_move hn t' hreq ?_ (fun _ _ => rfl) (fun hs => absurd hshare hs)
    (fun hs => absurd hshare hs) h.account gone
  rwa [hshare]

def serves : Main → Bool
  | .serving => true
  | _ => false

def isRunning : VmEntry → Bool
  | .running _ => true
  | .creating _ => false

/-- Every process of a VM in the map belongs to a running one. -/
def Launched (sh : Shared) : Prop := ∀ id ∈ sh.host.live, ∀ e ∈ sh.vms.lookup id, isRunning e = true

/-- No tap and no rule of slot `i` is there. -/
def SlotClean (i : U16) (sh : Shared) : Prop :=
  (∀ t ∈ sh.host.taps, t.name ≠ tapName i) ∧
  (∀ q ∈ sh.host.postrouting, q.guestIp ≠ subnetGuestIp i) ∧
  ∀ q ∈ sh.host.filter, q.tapName ≠ tapName i

/-- Nothing of a subnet that a `create` has for itself is on the host, and its VM is in the map
unless its rootfs copy is not there. -/
def InMap (config : AppConfig) (sh : Shared) (t : HandlerTask) : Prop :=
  (∀ i ∈ t.ledger.view.slot, SlotClean i sh) ∧ (∀ i ∈ t.ledger.view.lost, SlotClean i sh) ∧
    ∀ id ∈ t.ledger.view.id, (sh.vms.lookup id).isSome = true ∨
      rootfsPath config.jailer.vmImagesDir id ∉ sh.host.files

/-- The serving phase ends without an error, the processes of the VMs in the map belong to running
ones, and what the `create`s in flight have made is in the map. From then on no `create` acts, no
`delete` that has the map is dropped, and what takes something down succeeds. -/
def Orderly (config : AppConfig) (p : Process) : Action → Prop
  | .server (.request _) | .server (.callback _ _) => True
  | .server (.run n c) => serves p.main = false → ∀ o ∈ nextOp p (.task n),
      (cleans o = true → c.succeeds = true) ∧
      (acts o = true → ∀ t ∈ p.server.tasks[n]?, isCreate t.request = false)
  | .server (.leave n _) => serves p.main = false → Holds p (.task n) .registry →
      ∀ t ∈ p.server.tasks[n]?, roleOf t.request ≠ .remover
  | .main c => ∀ o ∈ nextOp p .main, cleans o = true → c.succeeds = true
  | .finish ending => ending.passes = true ∧ Launched p.server.shared ∧
      ∀ t ∈ p.server.tasks, isCreate t.request = true → t.inFlight = true →
        InMap config p.server.shared t

def performedOp : Process × Action → Option Op
  | (p, .server (.run n _)) => nextOp p (.task n)
  | (p, .main _) => nextOp p .main
  | _ => none

/-- What the tasks and `main` have performed, newest first. -/
def performed (past : List (Process × Action)) : List Op := past.filterMap performedOp

theorem performed_cons {past : List (Process × Action)} {x : Process × Action} {o : Op}
    (h : performedOp x = some o) : performed (x :: past) = o :: performed past :=
  List.filterMap_cons_some h

theorem performed_still {past : List (Process × Action)} {x : Process × Action}
    (h : performedOp x = none) : performed (x :: past) = performed past :=
  List.filterMap_cons_none h

end Stopping

section Runs

variable {config : AppConfig} {lib : Libraries} {start : Shared} {p p' : Process} {a : Action}
  {past : List (Process × Action)} {who : Party} {read : Bool} {due : List Op}

/-- `main` locks the map first. -/
theorem started (hk : Kept config p) {o : Op} {next : Reply o → Code Unit}
    (hmain : p.main = .stopping (.run o next)) :
    p.held .registry = true ∨ o = .lock .registry := by
  rcases hk with hret | hb | ha
  · simp [hmain] at hret
  · right
    rcases hb.main with hserving | hstop
    · simp [hmain] at hserving
    · have hcode : Script.run o next = shutdown config := Main.stopping.inj (hmain.symm.trans hstop)
      cases hcode
      rfl
  · exact .inl ha.registry

theorem Owing.step (h : Owing config start (performed past) p who read due) (hk : Kept config p)
    (hok : Orderly config p a) (he : ServerProcess.step config lib p a = some p') :
    (∃ who' read' due', Owing config start (performed ((p, a) :: past)) p' who' read' due') ∨
      p'.main = .returned ∧
        Account config start (performed ((p, a) :: past)) p'.server.shared true [] := by
  obtain ⟨code, hcode, hsafe⟩ := h.main
  have hserves : serves p.main = false := by simp [hcode, serves]
  have hord := hk.ordering (by simp [hcode])
  cases ServerProcess.stepped he with
  | server e s hmain hserver =>
    left
    cases Server.stepped hserver with
    | request r =>
      rw [performed_still rfl]
      exact ⟨who, read, due, h.request _⟩
    | callback n cb r self result l hn =>
      rw [performed_still rfl]
      have hshare : share who (.task n) due = [] := by
        by_contra hshare
        have hend : settled r (.session self result) ⟨false, share who (.task n) due⟩ :=
          h.tasks n _ hn
        have hremover := h.removers n _ hn hshare
        cases r with
        | delete id => exact hshare (hend rfl)
        | _ => simp [roleOf] at hremover
      have hend : settled r (.session self result) {} := fun _ => rfl
      exact ⟨who, read, due, h.task_still hn ⟨r, calledBack (callbackCode lib self cb), l⟩ rfl
        hshare (callback_owing cb hend) _⟩
    | run n c r o may exit next l sh reply hn hexec =>
      have ho : nextOp p (.task n) = some o := by simp [nextOp, hcode, hn, HandlerTask.nextOp]
      have ho' : performedOp (p, .server (.run n c)) = some o := ho
      rw [performed_cons ho']
      obtain ⟨hclean, hbusy⟩ := hok hserves o ho
      obtain ⟨who', due', h'⟩ := h.task_run hord hn hexec ⟨hclean, fun hacts => hbusy hacts _ hn⟩
        (noteGone p.gone (.run n c))
      exact ⟨who', read, due', h'⟩
    | panic n c r o may exit next l sh hn hexec =>
      obtain ⟨_, hr⟩ := reply_of_requires (hord.tasks n _ hn).1 hexec
      simp at hr
    | leave n e r o may exit next l hn hmay =>
      rw [performed_still rfl]
      have hshare : share who (.task n) due = [] := by
        by_contra hshare
        have hremover := h.removers n _ hn hshare
        obtain rfl := eq_of_share hshare
        have hholds := (hord.agreed.assigned (.task n) .registry).mpr
          (h.holder (by simpa using hshare))
        exact hok hserves hholds _ hn hremover
      have hexit : (exit e).Safe (owing config r) (settled r) {} := by
        cases hc : isCreate r with
        | true => exact safe_bystander hc _ _
        | false =>
          have howing : owing config r = agenda config (roleOf r) := owing_of_other hc
          have hleft := (howing ▸ h.tasks n _ hn).2.2 e hmay trivial
          rw [hshare] at hleft
          exact howing.symm ▸ hleft
      exact ⟨who, read, due, h.task_still hn ⟨r, exit e, l.leave e⟩ rfl hshare hexit _⟩
  | stop ending hmain => simp [hcode] at hmain
  | fail ending hmain => simp [hcode] at hmain
  | done c hmain =>
    right
    obtain rfl := Main.stopping.inj (hcode.symm.trans hmain)
    obtain ⟨rfl, hshare⟩ := Agenda.mk.inj hsafe
    have hdue := h.nothing_due hord (q := .main) (h.reader rfl) hshare
    have ho : performedOp (p, .main c) = none := by simp [performedOp, nextOp, hmain]
    rw [performed_still ho]
    exact ⟨rfl, hdue ▸ h.account⟩
  | run c o next sh r hmain hexec =>
    left
    have ho : nextOp p .main = some o := by simp [nextOp, hmain]
    have ho' : performedOp (p, .main c) = some o := ho
    rw [performed_cons ho']
    exact h.main_run hord hmain (started hk hmain) hexec (hok o ho)
  | panic c o next sh hmain hexec =>
    obtain ⟨_, hr⟩ := h.main_replies hmain hexec
    simp at hr

/-- While the server serves, its state is one of the server's. -/
theorem reachable_of_serving (h : (process config lib).Reachable p) (hserving : p.main = .serving) :
    (server config lib).Reachable p.server := by
  refine h.invariant (P := fun p => p.main = .serving → (server config lib).Reachable p.server)
    (fun _ => .initial) (fun q a q' hq he hmain => ?_) hserving
  cases ServerProcess.stepped he with
  | server e s _ hserver => exact (hq hmain).step hserver
  | _ => simp at hmain

/-- One task at most has to tear something down. -/
theorem Owed.share {s : State} {f : ℕ → Agenda} (h : Owed s f) (hs : Sound config s) :
    ∃ who due, (∀ n, share who (.task n) due = (f n).due) ∧ share who .main due = [] := by
  by_cases hsome : ∃ n, (f n).due ≠ []
  · obtain ⟨n, hn⟩ := hsome
    refine ⟨.task n, (f n).due, fun k => ?_, share_ne (by simp)⟩
    by_cases hkn : k = n
    · subst hkn
      exact share_self
    · rw [share_ne (by simpa using Ne.symm hkn)]
      by_contra hk
      have hlocked {j : ℕ} (hj : (f j).due ≠ []) : (siteOf s).world.holder .registry = some j := by
        obtain ⟨t, ht, hreg, _⟩ := h.holding j hj
        exact (hs.protocol.holder .registry j).mpr ⟨_, siteOf_task ht, hreg⟩
      exact hkn (Option.some.inj ((hlocked (Ne.symm hk)).symm.trans (hlocked hn)))
  · refine ⟨.main, [], fun n => ?_, share_self⟩
    rw [share_nil]
    by_contra hn
    exact hsome ⟨n, Ne.symm hn⟩

/-- What is to be done when the serving phase ends. -/
theorem owing_of_owed {f : ℕ → Agenda} (h : Owed p.server f) (hs : Sound config p.server)
    (hf : Viewed (owing config) settled p.server f) :
    ∃ who due, Owing config p.server.shared [] { p with main := .stopping (shutdown config) }
      who false due := by
  obtain ⟨who, due, hshare, hmain⟩ := h.share hs
  have hdue (hne : due ≠ []) : ∃ n, who = .task n ∧ (f n).due = due := by
    cases who with
    | main => exact absurd (hmain : due = []) hne
    | task n => exact ⟨n, rfl, (hshare n).symm.trans share_self⟩
  have hremoves : ∀ o ∈ due, Removes o ∧ ∀ id, o ≠ .vms (.discard id) := by
    intro o ho
    obtain ⟨n, _, hn⟩ := hdue (List.ne_nil_of_mem ho)
    exact h.removes n o (hn ▸ ho)
  refine ⟨who, due, ?_⟩
  constructor
  · intro n t hn
    rw [hshare]
    have hread := h.read n
    have hview : f n = ⟨false, (f n).due⟩ := by rw [← hread]
    exact hview ▸ hf n t hn
  · intro n t hn hne
    rw [hshare] at hne
    obtain ⟨u, hu, _, hrole⟩ := h.holding n hne
    obtain rfl := Option.some.inj (hn.symm.trans hu)
    exact hrole
  · refine ⟨_, rfl, ?_⟩
    rw [hmain]
    exact ShutdownAgendas.safe_shutdown config
  · intro hne
    obtain ⟨n, rfl, hn⟩ := hdue hne
    obtain ⟨t, ht, hreg, _⟩ := h.holding n (hn ▸ hne)
    exact ⟨t, ht, hreg⟩
  · exact fun hread => nomatch hread
  · constructor
    · exact fun id e he => hs.protocol.fits id e he
    · exact fun o ho => (hremoves o ho).1
    · exact .refl _
    · exact fun id e he o _ => .inr (.inr ⟨rfl, he⟩)
    · intro id r he o ho
      have hnot : o ∉ due := by
        intro hmem
        obtain ⟨n, _, hn⟩ := hdue (List.ne_nil_of_mem hmem)
        have hgone := (h.gone n id o ho (hn ▸ hmem)).2
        simp [he] at hgone
      have hwait : waiting false p.server.shared id = 1 := by simp [waiting, he]
      rw [List.count_nil, List.count_eq_zero.mpr hnot, hwait]
    · exact fun hread => nomatch hread
    · exact fun _ id hmem => (hremoves _ hmem).2 id rfl

/-- Since the serving phase has ended there are things to do, or `main` has returned and all is
done. -/
theorem owing_of_path {q q' : Process} {before after : List (Process × Action)} {ending : Ending}
    (hb : (process config lib).Run before q)
    (he : (process config lib).step q (.finish ending) = some q')
    (hp : System.Path (process config lib) q' after p) (hok : Orderly config q (.finish ending))
    (hm : System.Meets (Orderly config) after) :
    (∃ who read due, Owing config q.server.shared (performed after) p who read due) ∨
      p.main = .returned ∧
        Account config q.server.shared (performed after) p.server.shared true [] := by
  have hq' : (process config lib).Reachable q' := System.Reachable.step ⟨before, hb⟩ he
  induction hp with
  | refl =>
    left
    have hpasses : ending.passes = true := hok.1
    have he' : ServerProcess.step config lib q (.finish ending) = some q' := he
    cases ServerProcess.stepped he' with
    | stop ending hserving _ _ =>
      obtain ⟨history, hserver⟩ := reachable_of_serving ⟨before, hb⟩ hserving
      have hs := sound_of_reachable (System.Run.reachable hserver)
      obtain ⟨f, hf, howed⟩ := tracking_owing.views_of_run hserver fun _ _ => trivial
      obtain ⟨who, due, howing⟩ := owing_of_owed howed hs hf
      exact ⟨who, false, due, howing⟩
    | fail ending _ hfails => simp [hfails] at hpasses
  | @step after p p' a hp hstep ih =>
    obtain ⟨hok', hm⟩ := System.meets_cons.mp hm
    rcases ih hm with ⟨who, read, due, howing⟩ | ⟨hret, _⟩
    · exact howing.step (kept_of_reachable (hq'.path hp)) hok' hstep
    · have hstep' : ServerProcess.step config lib p a = some p' := hstep
      cases ServerProcess.stepped hstep' with
      | server e s hmain _ => exact absurd hret hmain
      | stop ending hmain => simp [hret] at hmain
      | fail ending hmain => simp [hret] at hmain
      | done c hmain => simp [hret] at hmain
      | run c o next sh r hmain => simp [hret] at hmain
      | panic c o next sh hmain => simp [hret] at hmain

end Runs

section Completeness

variable {config : AppConfig} {lib : Libraries} {p : Process} {past : List (Process × Action)}

/-- Nothing of a VM is left, and the instance of a running one has been stopped and dropped once. -/
structure TornDown (config : AppConfig) (id : Uuid) (e : VmEntry) (done : List Op)
    (sh : Shared) : Prop where
  stopped : ∀ r, e = .running r → done.count (.sdk id .stop) = 1 ∧
    done.count (.dropInstance id) = 1
  process : id ∉ sh.host.live
  tap : ∀ name, e.res.tapName = some name → ∀ t ∈ sh.host.taps, t.name ≠ name
  rules : ∀ h, e.res.natHandles = some h →
    (∀ q ∈ sh.host.postrouting, q.handle ≠ h.postrouting) ∧
    ∀ q ∈ sh.host.filter, q.handle ≠ h.filter
  subnet : ∀ i, e.res.subnetIndex = some i → i ∉ sh.subnetPool.inUse
  rootfs : ∀ path, e.res.rootfsCopy = some path → path ∉ sh.host.files
  gateway : config.gatewayClient.isSome = true → id ∉ sh.gateway

/-- What there was when the serving phase ended is gone, and nothing is new. -/
structure Complete (config : AppConfig) (start : State) (done : List Op) (sh : Shared) : Prop where
  entries : ∀ id e, start.shared.vms.lookup id = some e → TornDown config id e done sh
  emptied : ∀ id, sh.vms.lookup id = none
  slots : ∀ t ∈ start.tasks, isCreate t.request = true → t.inFlight = true →
    ∀ i, t.ledger.view.slot = some i ∨ t.ledger.view.lost = some i → SlotClean i sh
  copies : ∀ t ∈ start.tasks, isCreate t.request = true → t.inFlight = true →
    ∀ id, t.ledger.view.id = some id → rootfsPath config.jailer.vmImagesDir id ∉ sh.host.files
  nothingNew : Shrinks start.shared sh

theorem SlotClean.shrinks {i : U16} {sh sh' : Shared} (h : SlotClean i sh) (hs : Shrinks sh sh') :
    SlotClean i sh' := by
  obtain ⟨htaps, hpost, hfilter⟩ := h
  exact ⟨fun t ht => htaps t (hs.taps ht), fun q hq => hpost q (hs.postrouting hq),
    fun q hq => hfilter q (hs.filter hq)⟩

theorem tornDown_of_account {start sh : Shared} {done : List Op} {id : Uuid} {e : VmEntry}
    (h : Account config start done sh true []) (hlaunched : Launched start)
    (he : start.vms.lookup id = some e) : TornDown config id e done sh := by
  have heffected (o : Op) (ho : o ∈ teardownOps config id e) : Effected o sh := by
    rcases h.covered id e he o ho with heff | hdue | ⟨hread, _⟩
    · exact heff
    · simp at hdue
    · simp at hread
  have hfree (o : Op) (ho : o ∈ freeOps e.res) : Effected o sh :=
    heffected o (List.mem_append_left _ (List.mem_append_right _ ho))
  have hwait : waiting true sh id = 0 := by simp [waiting]
  constructor
  · rintro r rfl
    have honce (o : Op) (ho : o ∈ processOps id) : done.count o = 1 := by
      have hcount := h.once id r he o ho
      rw [hwait, List.count_nil] at hcount
      omega
    exact ⟨honce _ (.head _), honce _ (.tail _ (.head _))⟩
  · cases e with
    | creating r =>
      intro hlive
      have hrunning := hlaunched id (h.shrunk.live hlive) _ he
      simp [isRunning] at hrunning
    | running r =>
      have hdrop : Op.dropInstance id ∈ processOps id := .tail _ (.head _)
      exact heffected _ (List.mem_append_left _ (List.mem_append_left _ hdrop))
  · exact fun name hname => hfree _ (mem_freeOps.mpr (.inl ⟨name, hname, rfl⟩))
  · intro handles hhandles
    constructor
    · exact hfree (.command (.deleteRule .postrouting handles.postrouting))
        (mem_freeOps.mpr (.inr (.inl ⟨handles, hhandles, .inl rfl⟩)))
    · exact hfree (.command (.deleteRule .filter handles.filter))
        (mem_freeOps.mpr (.inr (.inl ⟨handles, hhandles, .inr rfl⟩)))
  · exact fun i hi => hfree (.release i) (mem_freeOps.mpr (.inr (.inr (.inl ⟨i, hi, rfl⟩))))
  · exact fun path hpath => hfree (.removeFile path)
      (mem_freeOps.mpr (.inr (.inr (.inr ⟨path, hpath, rfl⟩))))
  · intro hg
    apply heffected (.deregisterVm id)
    rw [teardownOps, if_pos hg]
    exact List.mem_append_right _ (.head _)

/-- When the serving phase has ended this way, nothing is left once `main` has returned. -/
theorem shutdown_complete {q q' : Process} {before after : List (Process × Action)}
    {ending : Ending}
    (hb : (process config lib).Run before q)
    (he : (process config lib).step q (.finish ending) = some q')
    (hp : System.Path (process config lib) q' after p) (hok : Orderly config q (.finish ending))
    (hm : System.Meets (Orderly config) after) (hret : p.main = .returned) :
    Complete config q.server (performed after) p.server.shared := by
  rcases owing_of_path hb he hp hok hm with ⟨who, read, due, howing⟩ | ⟨_, haccount⟩
  · obtain ⟨code, hcode, _⟩ := howing.main
    simp [hret] at hcode
  · have hempty (id : Uuid) : p.server.shared.vms.lookup id = none := by
      by_contra hne
      obtain ⟨e, he⟩ := Option.ne_none_iff_exists'.mp hne
      exact absurd (haccount.emptied rfl id e he) (by simp)
    obtain ⟨_, hlaunched, hinMap⟩ := hok
    constructor
    · exact fun id e he => tornDown_of_account haccount hlaunched he
    · exact hempty
    · intro t ht hc hend i hi
      obtain ⟨hslot, hlost, _⟩ := hinMap t ht hc hend
      rcases hi with hi | hi
      · exact (hslot i hi).shrinks haccount.shrunk
      · exact (hlost i hi).shrinks haccount.shrunk
    · intro t ht hc hend id hid hfile
      obtain ⟨_, _, hentry⟩ := hinMap t ht hc hend
      have hthere := (hentry id hid).resolve_right fun h => h (haccount.shrunk.files hfile)
      obtain ⟨e, he⟩ := Option.isSome_iff_exists.mp hthere
      have htorn := tornDown_of_account haccount hlaunched he
      exact htorn.rootfs _ (haccount.fits id e he).rootfs hfile
    · exact haccount.shrunk

instance (sh : Shared) : Decidable (Launched sh) :=
  List.decidableBAll (fun id => ∀ e ∈ sh.vms.lookup id, isRunning e = true) sh.host.live

instance (i : U16) (sh : Shared) : Decidable (SlotClean i sh) :=
  inferInstanceAs (Decidable (_ ∧ _ ∧ _))

instance (config : AppConfig) (sh : Shared) (t : HandlerTask) : Decidable (InMap config sh t) :=
  @instDecidableAnd _ _ (Option.decidableForallMem t.ledger.view.slot)
    (@instDecidableAnd _ _ (Option.decidableForallMem t.ledger.view.lost)
      (Option.decidableForallMem t.ledger.view.id))

instance (config : AppConfig) (p : Process) : (a : Action) → Decidable (Orderly config p a)
  | .server (.run n _) =>
    inferInstanceAs (Decidable (_ = false → ∀ o ∈ nextOp p (.task n), _ ∧ _))
  | .server (.leave n _) =>
    inferInstanceAs (Decidable (_ = false → _ → ∀ t ∈ p.server.tasks[n]?, _))
  | .server (.request _) | .server (.callback _ _) => .isTrue trivial
  | .main _ => inferInstanceAs (Decidable (∀ o ∈ nextOp p .main, _))
  | .finish _ => inferInstanceAs (Decidable (_ ∧ _ ∧ ∀ t ∈ p.server.tasks, _))

theorem serving_of_serves (h : serves p.main = true) : p.main = .serving := by
  cases hmain : p.main with
  | serving => rfl
  | _ => simp [hmain, serves] at h

theorem finish_ssh (h : serves p.main = true) : (process config lib).step p (.finish .sshFinished) =
    some { p with main := .stopping (shutdown config) } := by
  simp [process, ServerProcess.step, serving_of_serves h, Ending.passes]

theorem fail_ssh (h : serves p.main = true) : (process config lib).step p (.finish .sshFailed) =
    some { p with main := .returned } := by
  simp [process, ServerProcess.step, serving_of_serves h, Ending.passes]

/-- `main` has returned. -/
def returns : Main → Bool
  | .returned => true
  | _ => false

theorem returned_of_returns (h : returns p.main = true) : p.main = .returned := by
  cases hmain : p.main with
  | returned => rfl
  | _ => simp [hmain, returns] at h

section Samples

/-- The server runs a VM. -/
def serving : List Action := (sampleCreate ++ runs 0 1).map .server

/-- A `create` has made a tap, and its VM is not in the map yet. -/
def networking : List Action :=
  (.request (.create none) :: .run 0 { id := 1 } :: runs 0 7).map .server

/-- A `create` has inserted its placeholder and started the process of its VM. -/
def starting : List Action := (.request (.create none) :: reserving 0 1 ++ runs 0 4).map .server

/-- Beside a VM that runs, a `create` has inserted its placeholder, and a `delete` has the map. -/
def beforeStop : List Event :=
  sampleCreate ++ runs 0 1 ++ .request (.create none) :: .run 1 { id := 2 } :: runs 1 9 ++
    List.replicate 2 (.run 1 { handle := 2, stdout := "# handle 2\n".toList }) ++ runs 1 4 ++
    .request (.delete 1) :: runs 2 1

def busy : List Action := beforeStop.map .server

/-- The steps of `main`. -/
def mainRuns (k : ℕ) : List Action := List.replicate k (.main {})

/-- What follows when `main` goes on to shut down. -/
def stopping (es later : List Action) : List (Process × Action) × Process :=
  sampleProcess.follow [] { sampleProcess.endOf es with main := .stopping (shutdown sampleConfig) }
    later

theorem path_stopping (es later : List Action) : System.Path sampleProcess
    { sampleProcess.endOf es with main := .stopping (shutdown sampleConfig) }
    (stopping es later).1 (stopping es later).2 := System.Path.refl.follow later

/-- The `delete` ends first, then `main`; the `create` does nothing any more. -/
def busyStop : List Action := (runs 2 14).map .server ++ mainRuns 12

theorem shutdown_complete_busy : Complete sampleConfig (sampleProcess.endOf busy).server
    (performed (stopping busy busyStop).1) (stopping busy busyStop).2.server.shared := by
  have hrun : sampleProcess.Run (sampleProcess.historyOf busy) (sampleProcess.endOf busy) :=
    System.run_follow busy
  have hserves : serves (sampleProcess.endOf busy).main = true := by decide +kernel
  have hok : Orderly sampleConfig (sampleProcess.endOf busy) (.finish .sshFinished) := by
    decide +kernel
  have hmeets : System.Meets (Orderly sampleConfig) (stopping busy busyStop).1 := by
    unfold System.Meets
    decide +kernel
  have hreturns : returns (stopping busy busyStop).2.main = true := by decide +kernel
  exact shutdown_complete hrun (finish_ssh hserves) (path_stopping busy busyStop) hok hmeets
    (returned_of_returns hreturns)

/-- What takes something down succeeds. -/
def Succeeds (p : Process) : Action → Prop
  | .server (.run n c) => ∀ o ∈ nextOp p (.task n), cleans o = true → c.succeeds = true
  | .main c => ∀ o ∈ nextOp p .main, cleans o = true → c.succeeds = true
  | _ => True

instance (p : Process) : (a : Action) → Decidable (Succeeds p a)
  | .server (.run n _) => inferInstanceAs (Decidable (∀ o ∈ nextOp p (.task n), _))
  | .server (.request _) | .server (.callback _ _) | .server (.leave _ _) => .isTrue trivial
  | .main _ => inferInstanceAs (Decidable (∀ o ∈ nextOp p .main, _))
  | .finish _ => .isTrue trivial

/-- Nothing is left after this end of the serving phase, whatever was in flight. -/
def LeavesNothing (config : AppConfig) (lib : Libraries) (ending : Ending) : Prop :=
  ∀ (q q' p : Process) (before after : List (Process × Action)),
    (process config lib).Run before q → (process config lib).step q (.finish ending) = some q' →
    System.Path (process config lib) q' after p → System.Meets Succeeds after →
    p.main = .returned → Complete config q.server (performed after) p.server.shared

/-- After this end of the serving phase no VM that was in the map has a process any more. -/
def StopsProcesses (config : AppConfig) (lib : Libraries) (ending : Ending) : Prop :=
  ∀ (q q' p : Process) (before after : List (Process × Action)),
    (process config lib).Run before q → (process config lib).step q (.finish ending) = some q' →
    System.Path (process config lib) q' after p → System.Meets Succeeds after →
    p.main = .returned → ∀ id e, q.server.shared.vms.lookup id = some e →
      id ∉ p.server.shared.host.live

/-- The tap of the VM with the identifier. -/
def tapOf (sh : Shared) (id : Uuid) : Option String := (sh.vms.lookup id).bind (·.res.tapName)

theorem tap_of_failure (id : Uuid) (name : String) (h : LeavesNothing config lib .sshFailed)
    (hrun : (process config lib).Run past p) (hserves : serves p.main = true)
    (hentry : tapOf p.server.shared id = some name) :
    ∀ t ∈ p.server.shared.host.taps, t.name ≠ name := by
  obtain ⟨e, he, hname⟩ := Option.bind_eq_some_iff.mp hentry
  have hcomplete := h _ _ _ _ _ hrun (fail_ssh hserves) .refl (by simp) rfl
  exact (hcomplete.entries id e he).tap name hname

/-- When the SSH server fails, the VM goes on. -/
theorem serving_left : ¬ LeavesNothing sampleConfig sampleLibraries .sshFailed := by
  intro h
  have hserves : serves (sampleProcess.endOf serving).main = true := by decide +kernel
  have hentry : tapOf (sampleProcess.endOf serving).server.shared 1 = some (tapName 0) := by
    decide +kernel
  have htap : ∃ t ∈ (sampleProcess.endOf serving).server.shared.host.taps,
      t.name = tapName 0 := by decide +kernel
  obtain ⟨tap, htap, hname⟩ := htap
  have hrun : sampleProcess.Run (sampleProcess.historyOf serving) (sampleProcess.endOf serving) :=
    System.run_follow serving
  exact tap_of_failure 1 (tapName 0) h hrun hserves hentry tap htap hname

/-- When it ends, the tap of a `create` that has no placeholder yet stays. -/
theorem networking_left : ¬ LeavesNothing sampleConfig sampleLibraries .sshFinished := by
  intro h
  have hserves : serves (sampleProcess.endOf networking).main = true := by decide +kernel
  have hmeets : System.Meets Succeeds (stopping networking (mainRuns 3)).1 := by
    unfold System.Meets
    decide +kernel
  have hreturns : returns (stopping networking (mainRuns 3)).2.main = true := by decide +kernel
  have hcomplete := h _ _ _ _ _ (System.run_follow networking) (finish_ssh hserves)
    (path_stopping networking (mainRuns 3)) hmeets (returned_of_returns hreturns)
  have hslot : ∃ t ∈ (sampleProcess.endOf networking).server.tasks, isCreate t.request = true ∧
      t.inFlight = true ∧ t.ledger.view.slot = some 0 := by decide +kernel
  obtain ⟨t, ht, hc, hend, hi⟩ := hslot
  have htap : ∃ t ∈ (stopping networking (mainRuns 3)).2.server.shared.host.taps,
      t.name = tapName 0 := by decide +kernel
  obtain ⟨tap, htap, hname⟩ := htap
  exact (hcomplete.slots t ht hc hend 0 (.inl hi)).1 tap htap hname

/-- When it ends, the process of a VM that is still being created goes on. -/
theorem starting_left : ¬ StopsProcesses sampleConfig sampleLibraries .sshFinished := by
  intro h
  have hserves : serves (sampleProcess.endOf starting).main = true := by decide +kernel
  have hmeets : System.Meets Succeeds (stopping starting (mainRuns 12)).1 := by
    unfold System.Meets
    decide +kernel
  have hreturns : returns (stopping starting (mainRuns 12)).2.main = true := by decide +kernel
  have hentry : tapOf (sampleProcess.endOf starting).server.shared 1 = some (tapName 0) := by
    decide +kernel
  have hlive : 1 ∈ (stopping starting (mainRuns 12)).2.server.shared.host.live := by
    decide +kernel
  have hrun : sampleProcess.Run (sampleProcess.historyOf starting) (sampleProcess.endOf starting) :=
    System.run_follow starting
  have hstopped := h _ _ _ _ _ hrun (finish_ssh hserves) (path_stopping starting (mainRuns 12))
    hmeets (returned_of_returns hreturns)
  obtain ⟨e, he, _⟩ := Option.bind_eq_some_iff.mp hentry
  exact hstopped 1 e he hlive

theorem shutdown_incomplete : ¬ LeavesNothing sampleConfig sampleLibraries .sshFailed ∧
    ¬ LeavesNothing sampleConfig sampleLibraries .sshFinished ∧
    ¬ StopsProcesses sampleConfig sampleLibraries .sshFinished :=
  ⟨serving_left, networking_left, starting_left⟩

end Samples

end Completeness

end Warlock.ShutdownCompleteness
