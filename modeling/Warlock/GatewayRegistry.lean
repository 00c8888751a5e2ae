import Warlock.ReportProtocol
import Warlock.UndisturbedRuns

/-!
# The gateway's registry and the map of VMs

`create` reports a VM to the gateway after it has given the map back, `delete` while it
holds it. The registry agrees with the map whenever no handler is in flight, provided that
no VM was deregistered while the `create` that had published it was still to register it.
-/

namespace Warlock.GatewayRegistry
open ApplicationState EffectPrograms Ledgers MachineIntegers ReservationDiscipline
  ReservationProtocol Server ServerInvariant ServerOperations SshSession SubnetAddressing TaskViews
  TransitionSystems UndisturbedRuns VmIdentifiers

/-- Nobody leaves, and every request to the gateway succeeds. -/
def gatewayServes (s : State) : Event → Bool
  | .leave _ _ => false
  | .run n c => match (s.tasks[n]?).bind (·.nextOp) with
    | some (.registerVm _ _ _) | some (.deregisterVm _) => c.succeeds
    | _ => true
  | _ => true

/-- No VM is deregistered while the `create` that published it has yet to register it. -/
def registersFirst (s : State) : Event → Bool
  | .run n _ => match (s.tasks[n]?).bind (·.nextOp) with
    | some (.deregisterVm id) => s.tasks.all (·.ledger.announcing != some id)
    | _ => true
  | _ => true

/-- The gateway serves, and every VM is registered there before it is deregistered. -/
abbrev Orderly (s : State) (e : Event) : Prop := gatewayServes s e = true ∧ registersFirst s e = true

def boardOf (s : State) : ReportProtocol.Board Uuid where
  running := {id | ∃ r, s.shared.vms.lookup id = some (.running r)}
  listed := {id | id ∈ s.shared.gateway}
  published := {id | ∃ (n : ℕ) (t : HandlerTask) (r : VmResources), s.tasks[n]? = some t ∧
    t.ledger.view.id = some id ∧ t.ledger.view.standing = .upgraded r}
  announcing n := (s.tasks[n]?).bind (·.ledger.announcing)
  retiring n := (s.tasks[n]?).bind (·.ledger.retiring)

variable {config : AppConfig} {lib : Libraries} {past : History} {s s' : State} {n : ℕ}
  {t t' : HandlerTask} {id : Uuid}

theorem undisturbed_of_serves {e : Event} (h : gatewayServes s e = true) : Undisturbed s e := by
  cases e with
  | leave => simp [gatewayServes] at h
  | _ => exact ⟨trivial, trivial⟩

theorem bind_set {α : Type} (hn : s.tasks[n]? = some t) (f : HandlerTask → Option α) (k : ℕ) :
    ((s.tasks.set n t')[k]?).bind f =
      Function.update (fun k => (s.tasks[k]?).bind f) n (f t') k := by
  have hlt := (List.getElem?_eq_some_iff.mp hn).1
  by_cases hk : k = n
  · subst hk
    simp [hlt]
  · simp [hk, List.getElem?_set_ne (Ne.symm hk)]

theorem bind_request {α : Type} (f : HandlerTask → Option α) (hf : f t = none) (k : ℕ) :
    ((s.tasks ++ [t])[k]?).bind f = (s.tasks[k]?).bind f := by
  rcases Nat.lt_trichotomy k s.tasks.length with hk | rfl | hk
  · simp [List.getElem?_append_left hk]
  · simp [hf]
  · have h₁ : (s.tasks ++ [t])[k]? = none := List.getElem?_eq_none (by simp; omega)
    have h₂ : s.tasks[k]? = none := List.getElem?_eq_none hk.le
    rw [h₁, h₂]

/-- A step of task `n` on the board. -/
theorem boardOf_set (t' : HandlerTask) (hn : s.tasks[n]? = some t) (sh : Shared) :
    boardOf ⟨sh, s.tasks.set n t'⟩ =
      { running := {id | ∃ r, sh.vms.lookup id = some (.running r)}
        listed := {id | id ∈ sh.gateway}
        published := (boardOf ⟨sh, s.tasks.set n t'⟩).published
        announcing := Function.update (boardOf s).announcing n t'.ledger.announcing
        retiring := Function.update (boardOf s).retiring n t'.ledger.retiring } := by
  unfold boardOf
  congr 1
  · funext k
    exact bind_set hn (·.ledger.announcing) k
  · funext k
    exact bind_set hn (·.ledger.retiring) k

theorem update_self {α : Type} {f : ℕ → α} {v : α} (h : f n = v) : Function.update f n v = f := by
  rw [← h, Function.update_eq_self]

theorem published_mono (hs : Sound config s) {e : Event} (he : step config lib s e = some s') :
    (boardOf s).published ⊆ (boardOf s').published := by
  rintro id ⟨k, u, r, hk, hid, hst⟩
  have hstay {u' : HandlerTask} (hk' : s'.tasks[k]? = some u') (hid' : u'.ledger.view.id = some id)
      (hst' : u'.ledger.view.standing = .upgraded r) : id ∈ (boardOf s').published :=
    ⟨k, u', r, hk', hid', hst'⟩
  have hkept (v' : Standpoint) (hv : (siteOf s').task k = some v') (hid' : v'.id = some id)
      (hst' : v'.standing = .upgraded r) : id ∈ (boardOf s').published := by
    obtain ⟨u', hu', rfl⟩ := Option.map_eq_some_iff.mp hv
    exact hstay hu' hid' hst'
  rcases hs.move he (.inl trivial) with hm | hsame
  · generalize hsite : siteOf s' = site at hm hkept
    cases hm with
    | spawn m hm =>
      refine hkept u.ledger.view ?_ hid hst
      have hkm : k ≠ m := by
        rintro rfl
        simp [siteOf_task hk] at hm
      simpa [hkm] using siteOf_task hk
    | act m v v' w' hm hstep =>
      by_cases hkm : k = m
      · subst hkm
        obtain rfl : v = u.ledger.view := Option.some.inj (hm.symm.trans (siteOf_task hk))
        obtain ⟨hst', hid'⟩ := hstep.upgraded_kept hst hid
        exact hkept v' (by simp) hid' hst'
      · exact hkept u.ledger.view (by simpa [hkm] using siteOf_task hk) hid hst
  · exact hkept u.ledger.view (hsame ▸ siteOf_task hk) hid hst

/-- A section other than the two that publish and take out leaves the running entries. -/
theorem running_section (hs : Sound config s) (hn : s.tasks[n]? = some t)
    {sec : VmRegistry.Section} (hreq : sectionRequires config t.ledger.view sec)
    (hquiet : QuietHandlers.Housekeeping (.vms sec)) (id : Uuid) :
    (∃ r, (sec.run config.capacity s.shared.vms).1.lookup id = some (.running r)) ↔
      ∃ r, s.shared.vms.lookup id = some (.running r) := by
  have hplaced := fun id => hs.protocol.placed n _ id (siteOf_task hn)
  by_cases hid : sec.subject = some id
  · cases sec with
    | reserve id' r =>
      obtain rfl : id' = id := Option.some.inj hid
      have hnone : s.shared.vms.lookup id' = none := by
        have := hplaced id' hreq.1
        rwa [hreq.2.1] at this
      rcases VmRegistry.reserve_cases config.capacity id' r s.shared.vms with ⟨e, he, _⟩ | ⟨he, _⟩
      · simp [VmRegistry.Section.run, he]
      · simp [VmRegistry.Section.run, he, hnone]
    | remove id' =>
      obtain rfl : id' = id := Option.some.inj hid
      obtain ⟨hown, ⟨r, hst⟩, _⟩ := hreq
      have hold := placed_creating hs.protocol (siteOf_task hn) hown hst
      simp [VmRegistry.Section.run, VmRegistry.remove, hold]
    | upgrade => exact hquiet.elim
    | take => exact hquiet.elim
    | discard => exact hquiet.elim
    | _ => simp [VmRegistry.Section.subject] at hid
  · rw [VmRegistry.lookup_run_of_ne hid]

theorem running_upgrade {r : VmResources} (hold : s.shared.vms.lookup id = some (.creating r)) :
    {id' | ∃ r', (VmRegistry.upgrade id s.shared.vms).1.lookup id' = some (.running r')} =
      insert id (boardOf s).running := by
  ext id'
  simp only [VmRegistry.lookup_upgrade hold, Set.mem_ofPred_eq, Set.mem_insert_iff, boardOf]
  by_cases h : id' = id <;> simp [h]

theorem running_take : {id' | ∃ r', (s.shared.vms.erase id).lookup id' = some (.running r')} =
    (boardOf s).running \ {id} := by
  ext id'
  simp only [AssociationMaps.lookup_erase, Set.mem_ofPred_eq, Set.mem_sdiff,
    Set.mem_singleton_iff, boardOf]
  by_cases h : id' = id <;> simp [h]

/-- A VM is published once: its identifier belongs to one `create` only. -/
theorem not_published (hs : Sound config s) (hn : s.tasks[n]? = some t) {r : VmResources}
    (hid : t.ledger.view.id = some id) (hst : t.ledger.view.standing = .creating r) :
    id ∉ (boardOf s).published := by
  rintro ⟨k, u, r', hk, hu, hst'⟩
  obtain rfl := hs.protocol.unique k n _ _ id (siteOf_task hk) (siteOf_task hn) hu hid
  obtain rfl := Option.some.inj (hk.symm.trans hn)
  simp [hst] at hst'

/-- What one operation under the discipline of the reports does to the board. -/
theorem board_run {l : Ledger} {request : Request} {o : Op} {may : Exit → Bool}
    {exit : Exit → Program Reply Outcome} {next : Reply o → Program Reply Outcome} {c : Choice}
    {sh : Shared} {reply : Reply o} (hs : Sound config s)
    (hn : s.tasks[n]? = some ⟨request, .op o may exit next, l⟩)
    (hexec : exec config n c s.shared o = some (sh, some reply))
    (hreq : reportRequires request o (l.announcing, l.retiring))
    (hserves : gatewayServes s (.run n c) = true) (hfirst : registersFirst s (.run n c) = true)
    (hmono : (boardOf s).published ⊆
      (boardOf ⟨sh, s.tasks.set n ⟨request, next reply, l.note c o reply⟩⟩).published) :
    ReportProtocol.Step n (boardOf s)
      (boardOf ⟨sh, s.tasks.set n ⟨request, next reply, l.note c o reply⟩⟩) := by
  have hann : (boardOf s).announcing n = l.announcing := by simp [boardOf, hn]
  have hret : (boardOf s).retiring n = l.retiring := by simp [boardOf, hn]
  have hcustody : requires config o l.view := (hs.code n _ hn).1
  rw [boardOf_set _ hn]
  set p := (boardOf ⟨sh, s.tasks.set n ⟨request, next reply, l.note c o reply⟩⟩).published with hp
  have hboard {b : ReportProtocol.Board Uuid} (hstep : ReportProtocol.Step n (boardOf s) b)
      (hb : b.published = p)
      (hrun : {id | ∃ r, sh.vms.lookup id = some (.running r)} = b.running)
      (hg : {id | id ∈ sh.gateway} = b.listed)
      (ha : Function.update (boardOf s).announcing n (l.note c o reply).announcing = b.announcing)
      (hr : Function.update (boardOf s).retiring n (l.note c o reply).retiring = b.retiring) :
      ReportProtocol.Step n (boardOf s)
        { running := {id | ∃ r, sh.vms.lookup id = some (.running r)}
          listed := {id | id ∈ sh.gateway}
          published := p
          announcing := Function.update (boardOf s).announcing n (l.note c o reply).announcing
          retiring := Function.update (boardOf s).retiring n (l.note c o reply).retiring } := by
    rw [hrun, hg, ha, hr, ← hb]
    exact hstep
  have hquiet (ha : (l.note c o reply).announcing = l.announcing)
      (hr : (l.note c o reply).retiring = l.retiring) (hg : sh.gateway = s.shared.gateway)
      (hrun : ∀ id, (∃ r, sh.vms.lookup id = some (.running r)) ↔
        ∃ r, s.shared.vms.lookup id = some (.running r)) :=
    hboard (.silent p hmono) rfl (Set.ext hrun) (by rw [hg]; rfl)
      (update_self (hann.trans ha.symm)) (update_self (hret.trans hr.symm))
  cases o with
  | vms sec =>
    obtain ⟨rfl, rfl⟩ := by simpa [exec] using hexec
    cases sec with
    | upgrade id =>
      obtain ⟨hid, ⟨r, hst⟩, _⟩ := hcustody.2
      have hold := placed_creating hs.protocol (siteOf_task hn) hid hst
      have hmoved : (VmRegistry.upgrade id s.shared.vms).2 = true := by
        simp [VmRegistry.upgrade, hold]
      have hup : id ∈ p := by
        refine ⟨n, _, r, List.getElem?_set_self (List.getElem?_eq_some_iff.mp hn).1, ?_, ?_⟩
        · simp [Ledger.note, noteView, VmRegistry.Section.run, hmoved, noteSection, hst, hid]
        · simp [Ledger.note, noteView, VmRegistry.Section.run, hmoved, noteSection, hst]
      obtain ⟨hnone, hnone'⟩ := Prod.mk.inj hreq
      refine hboard (.publish id p hmono hup (not_published hs hn hid hst) (hann.trans hnone)) rfl
        (running_upgrade hold) rfl ?_ (update_self hret)
      simp [Ledger.note, noteAnnouncing, VmRegistry.Section.run, hmoved]
    | take id =>
      rcases VmRegistry.take_cases id s.shared.vms with ⟨r, hrun, ht⟩ | ⟨e, he, hsame⟩
      · obtain ⟨⟨hnone, hnone'⟩, _⟩ := And.imp_left Prod.mk.inj hreq
        refine hboard (.retire id p hmono ⟨r, hrun⟩ (hret.trans hnone')) rfl ?_ rfl
          (update_self hann) ?_
        · simp only [VmRegistry.Section.run, ht, running_take]
        · simp [Ledger.note, noteRetiring, VmRegistry.Section.run, ht]
      · refine hquiet rfl ?_ rfl fun id' => by simp [VmRegistry.Section.run, hsame]
        simp [Ledger.note, noteRetiring, VmRegistry.Section.run, he]
    | discard id => exact hreq.elim
    | reserve id r => exact hquiet rfl rfl rfl (running_section hs hn hcustody.2 trivial)
    | remove id => exact hquiet rfl rfl rfl (running_section hs hn hcustody.2 trivial)
    | get id => exact hquiet rfl rfl rfl fun _ => Iff.rfl
    | entries => exact hquiet rfl rfl rfl fun _ => Iff.rfl
    | info => exact hquiet rfl rfl rfl fun _ => Iff.rfl
  | registerVm id vcpus memoryMb =>
    have hsucceeds : c.succeeds = true := by
      simpa [gatewayServes, hn, HandlerTask.nextOp] using hserves
    obtain ⟨hsome, _⟩ := Prod.mk.inj hreq
    obtain ⟨rfl, rfl⟩ := by simpa [exec, hsucceeds] using hexec
    refine hboard (.register id p hmono (hann.trans hsome)) rfl rfl ?_ rfl (update_self hret)
    ext id'
    simp [boardOf]
  | deregisterVm id =>
    have hsucceeds : c.succeeds = true := by
      simpa [gatewayServes, hn, HandlerTask.nextOp] using hserves
    have hlate (k : ℕ) : (boardOf s).announcing k ≠ some id := by
      have hall : ∀ u ∈ s.tasks, u.ledger.announcing ≠ some id := by
        simpa [registersFirst, hn, HandlerTask.nextOp] using hfirst
      intro hk
      obtain ⟨u, hu, ha⟩ := Option.bind_eq_some_iff.mp hk
      exact hall u (List.mem_of_getElem? hu) ha
    obtain ⟨_, hsome⟩ := Prod.mk.inj hreq
    obtain ⟨rfl, rfl⟩ := by simpa [exec, hsucceeds] using hexec
    refine hboard (.deregister id p hmono (hret.trans hsome) hlate) rfl rfl ?_ (update_self hann) rfl
    ext id'
    simp [boardOf]
  | dropLocals => exact hreq.elim
  | _ =>
    have hframe := exec_frame hexec
    exact hquiet rfl rfl (hframe.gateway (by simp) (by simp)) fun _ => by rw [hframe.vms (by simp)]

/-- Every orderly step is a step of the report protocol. -/
theorem board_step (h : (server config lib).Run past s) (hm : System.Meets Undisturbed past)
    {e : Event} (hok : Orderly s e) (he : step config lib s e = some s') :
    ∃ n, ReportProtocol.Step n (boardOf s) (boardOf s') := by
  have hs := sound_of_reachable (System.Run.reachable h)
  have hmono := published_mono hs he
  cases stepped he with
  | request r =>
    have hboard : boardOf { s with tasks := s.tasks ++ [{ request := r, code := handlerOf config r }] } =
        { boardOf s with published := (boardOf { s with
          tasks := s.tasks ++ [{ request := r, code := handlerOf config r }] }).published } := by
      unfold boardOf
      congr 1
      · funext k
        exact bind_request (·.ledger.announcing) rfl k
      · funext k
        exact bind_request (·.ledger.retiring) rfl k
    rw [hboard]
    exact ⟨0, .silent _ hmono⟩
  | callback n cb r self result l hn =>
    have hboard := boardOf_set ⟨r, calledBack (callbackCode lib self cb), l⟩ hn s.shared
    rw [update_self (by simp [boardOf, hn]), update_self (by simp [boardOf, hn])] at hboard
    rw [hboard]
    exact ⟨n, .silent _ hmono⟩
  | run n c r o may exit next l sh reply hn hexec =>
    exact ⟨n, board_run hs hn hexec (reportRequires_of_run h hm hn rfl) hok.1 hok.2 hmono⟩
  | panic n c r o may exit next l sh hn hexec =>
    obtain ⟨_, hr, _⟩ := step_operation hs.protocol (siteOf_task hn) (.inl trivial)
      (hs.code n _ hn).1 hexec
    simp at hr
  | leave => exact absurd hok.1 (by simp [gatewayServes])

theorem board_of_run (h : (server config lib).Run past s) (hm : System.Meets Orderly past) :
    ReportProtocol.Invariant (boardOf s) := by
  induction h with
  | refl =>
    have hboard : boardOf {} = ⟨∅, ∅, (boardOf {}).published, fun _ => none, fun _ => none⟩ := by
      simp [boardOf]
    exact hboard ▸ .initial _
  | step hp he ih =>
    obtain ⟨hok, hm⟩ := System.meets_cons.mp hm
    obtain ⟨n, hstep⟩ := board_step hp (fun p hp => undisturbed_of_serves (hm p hp).1) hok he
    exact (ih hm).step hstep

/-- With a gateway that serves, and every registration before its deregistration, the gateway
lists exactly the running VMs whenever no handler is in flight. -/
theorem gateway_agrees (hgateway : config.gatewayClient.isSome = true)
    (h : (server config lib).ReachableVia Orderly s) (hidle : Idle s) (id : Uuid) :
    id ∈ s.shared.gateway ↔ ∃ r, s.shared.vms.lookup id = some (.running r) := by
  obtain ⟨past, hr, hm⟩ := h
  have hends (n : ℕ) (t : HandlerTask) (hn : s.tasks[n]? = some t) :=
    (reported_of_run hr (fun p hp => undisturbed_of_serves (hm p hp).1) hn (hidle n t hn)).2 hgateway
  have heq := (board_of_run hr hm).listed_eq
    (fun k => by
      cases hk : s.tasks[k]? with
      | none => simp [boardOf, hk]
      | some t => simp [boardOf, hk, (hends k t hk).1])
    fun k => by
      cases hk : s.tasks[k]? with
      | none => simp [boardOf, hk]
      | some t => simp [boardOf, hk, (hends k t hk).2]
  exact Set.ext_iff.mp heq id

/-- A whole `create` and nothing else. -/
theorem gateway_agrees_afterCreate :
    1 ∈ (sampleServer.afterVia Orderly (sampleCreate ++ runs 0 1)).shared.gateway := by
  have hreach : sampleServer.ReachableVia Orderly
      (sampleServer.afterVia Orderly (sampleCreate ++ runs 0 1)) := .afterVia _
  have hidle : Idle (sampleServer.afterVia Orderly (sampleCreate ++ runs 0 1)) := by decide +kernel
  have hrunning : ∃ r, (sampleServer.afterVia Orderly (sampleCreate ++ runs 0 1)).shared.vms.lookup 1 =
      some (.running r) := running_of_status (by decide +kernel)
  exact (gateway_agrees rfl hreach hidle 1).mpr hrunning

/-- The VM is deleted before its `create` reports it. -/
def overtaken : List Event := sampleCreate ++ .request (.delete 1) :: runs 1 15 ++ runs 0 1

/-- The gateway then lists a VM that is gone. -/
theorem gateway_ghost : ¬ ∀ s : State,
    sampleServer.ReachableVia (fun s e => gatewayServes s e = true) s → Idle s →
      ∀ id, id ∈ s.shared.gateway ↔ ∃ r, s.shared.vms.lookup id = some (.running r) := by
  intro h
  have hidle : Idle (sampleServer.afterVia (fun s e => gatewayServes s e = true) overtaken) := by
    decide +kernel
  have hlisted : 1 ∈ (sampleServer.afterVia (fun s e => gatewayServes s e = true)
      overtaken).shared.gateway := by decide +kernel
  have habsent : (sampleServer.afterVia (fun s e => gatewayServes s e = true)
      overtaken).shared.vms.lookup 1 = none := by decide +kernel
  obtain ⟨r, hr⟩ := (h _ (.afterVia overtaken) hidle 1).mp hlisted
  exact absurd (habsent.symm.trans hr) (by simp)

end Warlock.GatewayRegistry
