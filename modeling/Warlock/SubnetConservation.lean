import Warlock.ReservationConservation
import Warlock.SubnetOwnership
import Warlock.UndisturbedRuns

/-!
# Conservation of subnets

Where no handler panics or is dropped and every blocking networking task returns, every subnet in
use has exactly one owner, whatever fails; with no handler in flight the subnets in use are those
of the entries, all of them running. A networking task that panics takes its `create` out before
the subnet is released.
-/

namespace Warlock.SubnetConservation
open ApplicationState EffectPrograms Ledgers MachineIntegers ReservationDiscipline
  ReservationProtocol ResourceCustody Server ServerInvariant ServerOperations SshSession
  SubnetAddressing SubnetOwnership TaskViews TransitionSystems UndisturbedRuns VmIdentifiers

variable {config : AppConfig} {lib : Libraries} {past later : History} {s s' : State} {n : ℕ}
  {t : HandlerTask} {id : Uuid}

theorem calmStep_of_run (h : (server config lib).Run past s)
    (hm : System.Meets Undisturbed past) {e : Event} (hok : Undisturbed s e) : CalmStep s e := by
  cases e with
  | request r => trivial
  | callback n cb => trivial
  | run n c =>
    intro t o hn ho
    have hreq := reportRequires_of_run h hm hn ho
    cases o with
    | vms sec => cases sec <;> trivial
    | dropLocals => exact hreq.elim
    | _ => trivial
  | leave n e =>
    cases e with
    | dropped => exact hok.1.elim
    | panicked => trivial

theorem conserved_of_run (h : (server config lib).Run past s)
    (hm : System.Meets Undisturbed past) : Conserved VmResources.subnetIndex (siteOf s) := by
  induction h with
  | refl =>
    intro i hi
    have hi : i ∈ SubnetPool.new.inUse := hi
    simp [SubnetPool.inUse_new] at hi
  | step hp he ih =>
    obtain ⟨hok, hm⟩ := System.meets_cons.mp hm
    have hs := sound_of_reachable (System.Run.reachable hp)
    rcases hs.move he (.inr (calmStep_of_run hp hm hok)) with hmove | hsame
    · exact (ih hm).move hs.protocol hmove
    · exact hsame ▸ ih hm

theorem settled_of_ended (hs : Sound config s) (hn : s.tasks[n]? = some t)
    (hend : t.inFlight = false) : Settled t.ledger.view := by
  obtain ⟨outcome, hc⟩ := code_of_not_inFlight hend
  have hcode := hs.code n t hn
  rw [hc] at hcode
  exact hcode.1

/-- A task that has ended without being dropped has no placeholder left. -/
theorem not_creating (h : (server config lib).Run past s) (hm : System.Meets Undisturbed past)
    (hn : s.tasks[n]? = some t) (hend : t.inFlight = false) (r : VmResources) :
    t.ledger.view.standing ≠ .creating r ∧ t.ledger.view.standing ≠ .released r := by
  obtain ⟨outcome, hc⟩ := code_of_not_inFlight hend
  have hcode := (sound_of_reachable (System.Run.reachable h)).code n t hn
  have hnot := (reported_of_run h hm hn hend).1
  rw [hc] at hcode hnot
  obtain ⟨_, hfinal⟩ := hcode
  cases outcome with
  | dropped => exact absurd rfl hnot
  | session self result =>
    have hv : t.ledger.view = {} := hfinal
    simp [hv]
  | answered answer =>
    cases answer with
    | created response =>
      obtain ⟨_, _, _, _, hst, _⟩ := hfinal
      simp [hst]
    | _ => rcases hfinal with hst | hst <;> simp [hst]

theorem running_of_idle (h : (server config lib).Run past s) (hm : System.Meets Undisturbed past)
    (hidle : Idle s) {e : VmEntry} (he : s.shared.vms.lookup id = some e) :
    ∃ r, e = .running r := by
  have hI := (sound_of_reachable (System.Run.reachable h)).protocol
  obtain ⟨k, v, hk, hid⟩ := hI.covered id e he
  obtain ⟨t, ht, rfl⟩ := Option.map_eq_some_iff.mp hk
  have hplaced := hI.placed k _ id hk hid
  have hnot := not_creating h hm ht (hidle k t ht)
  have hl : (siteOf s).world.entry id = some e := he
  rw [hl] at hplaced
  cases hst : t.ledger.view.standing with
  | creating r => exact absurd hst (hnot r).1
  | released r => exact absurd hst (hnot r).2
  | upgraded r =>
    rw [hst] at hplaced
    exact ⟨r, by simpa using hplaced⟩
  | fresh =>
    rw [hst] at hplaced
    simp at hplaced
  | gone =>
    rw [hst] at hplaced
    simp at hplaced

theorem inUse_of_idle (h : (server config lib).Run past s) (hm : System.Meets Undisturbed past)
    (hidle : Idle s) : s.shared.subnetPool.inUse =
      {i | ∃ id e, s.shared.vms.lookup id = some e ∧ e.res.subnetIndex = some i} := by
  have hs := sound_of_reachable (System.Run.reachable h)
  refine (conserved_of_run h hm).used_eq hs.protocol fun k v hk => ?_
  obtain ⟨t, ht, rfl⟩ := Option.map_eq_some_iff.mp hk
  exact ⟨(settled_of_ended hs ht (hidle k t ht)).slot, fun r => (not_creating h hm ht (hidle k t ht) r).2⟩

/-- A `create` changes no entry but the one under the identifier it drew. -/
theorem lookup_of_create (h : (server config lib).Run past s) (hm : System.Meets Undisturbed past)
    (hn : s.tasks[n]? = some t) {body : Option CreateVmRequest} (hreq : t.request = .create body)
    {c : Choice} (he : step config lib s (.run n c) = some s') (hid : t.ledger.view.id ≠ some id) :
    s'.shared.vms.lookup id = s.shared.vms.lookup id := by
  have hs := sound_of_reachable (System.Run.reachable h)
  have hexec {o : Op} {sh : Shared} {reply : Option (Reply o)} (ho : t.nextOp = some o)
      (hexec : exec config n c s.shared o = some (sh, reply)) :
      sh.vms.lookup id = s.shared.vms.lookup id := by
    cases o with
    | vms sec =>
      obtain ⟨rfl, _⟩ := by simpa [exec] using hexec
      refine VmRegistry.lookup_run_of_ne fun hsub => hid ?_
      have hcustody := (requires_of_nextOp hs hn ho).2
      have hreport := reportRequires_of_run h hm hn ho
      cases sec with
      | take id' =>
        have hdelete : t.request = .delete id' := hreport.2
        simp [hreq] at hdelete
      | discard id' => exact hreport.elim
      | reserve id' r => exact hsub ▸ hcustody.1
      | upgrade id' => exact hsub ▸ hcustody.1
      | remove id' => exact hsub ▸ hcustody.1
      | _ => simp [VmRegistry.Section.subject] at hsub
    | _ => rw [(exec_frame hexec).vms (by simp)]
  cases stepped he with
  | run _ _ r o may exit next l sh reply hk hx =>
    obtain rfl := Option.some.inj (hn.symm.trans hk)
    exact hexec rfl hx
  | panic _ _ r o may exit next l sh hk hx =>
    obtain rfl := Option.some.inj (hn.symm.trans hk)
    exact hexec rfl hx

/-- Only task `n` takes steps. -/
def Alone (n : ℕ) (_ : State) (e : Event) : Prop := (∃ c, e = .run n c) ∨ ∃ x, e = .leave n x

def arrived (config : AppConfig) (s : State) (r : Request) : State :=
  { s with tasks := s.tasks ++ [{ request := r, code := handlerOf config r }] }

/-- What a `create` that runs alone from state `s` on has done by state `x`. -/
structure Solo (body : Option CreateVmRequest) (s x : State) : Prop where
  others : ∀ k ≠ s.tasks.length, x.tasks[k]? = s.tasks[k]?
  own : ∃ t, x.tasks[s.tasks.length]? = some t ∧ t.request = .create body ∧
    (∀ id, t.ledger.view.id = some id → id ∉ s.shared.issued) ∧
    ∀ id, t.ledger.view.id ≠ some id → x.shared.vms.lookup id = s.shared.vms.lookup id
  issued : ∀ id ∈ s.shared.issued, id ∈ x.shared.issued

theorem Solo.arrived (config : AppConfig) (body : Option CreateVmRequest) (s : State) :
    Solo body s (arrived config s (.create body)) where
  others k hk := by
    rcases Nat.lt_or_gt_of_ne hk with hk | hk
    · simp [SubnetConservation.arrived, List.getElem?_append_left hk]
    · have h₁ : s.tasks[k]? = none := List.getElem?_eq_none hk.le
      rw [h₁]
      exact List.getElem?_eq_none (by simp [SubnetConservation.arrived]; omega)
  own := ⟨{ request := .create body, code := handlerOf config (.create body) },
    by simp [SubnetConservation.arrived], rfl, by simp, fun _ _ => rfl⟩
  issued _ h := h

theorem Solo.run {body : Option CreateVmRequest} {x x' : State} (hsolo : Solo body s x)
    (h : (server config lib).Run past x) (hm : System.Meets Undisturbed past) {c : Choice}
    (he : step config lib x (.run s.tasks.length c) = some x') : Solo body s x' := by
  obtain ⟨t, hn, hreq, hfresh, hsame⟩ := hsolo.own
  have hs := sound_of_reachable (System.Run.reachable h)
  have hlookup {id : Uuid} (hid : t.ledger.view.id ≠ some id) :
      x'.shared.vms.lookup id = s.shared.vms.lookup id :=
    (lookup_of_create h hm hn hreq he hid).trans (hsame id hid)
  cases stepped he with
  | panic _ _ r o may exit next l sh hk hx =>
    obtain ⟨_, hr, _⟩ := step_operation hs.protocol (siteOf_task hk) (.inl trivial)
      (hs.code _ _ hk).1 hx
    simp at hr
  | run _ _ r o may exit next l sh reply hk hx =>
    obtain rfl := Option.some.inj (hn.symm.trans hk)
    obtain ⟨_, hr, _, hstep⟩ := step_operation hs.protocol (siteOf_task hk) (.inl trivial)
      (hs.code _ _ hk).1 hx
    obtain rfl := Option.some.inj hr
    have hlt := (List.getElem?_eq_some_iff.mp hk).1
    refine ⟨fun k hkn => ?_, ⟨_, List.getElem?_set_self hlt, hreq, fun id hid => ?_,
      fun id hid => hlookup fun hold => hid (hstep.id_kept hold)⟩, fun id hid => ?_⟩
    · rw [← hsolo.others k hkn]
      exact List.getElem?_set_ne (Ne.symm hkn)
    · rcases hstep.identifier with ⟨hsame, _⟩ | ⟨id', _, hv, _, _, hnew, _⟩
      · exact hfresh id (hsame ▸ hid)
      · have hv : noteView l.view o _ = { l.view with id := some id' } := hv
        obtain rfl : id' = id := by
          have : (noteView l.view o _).id = some id := hid
          simpa [hv] using this
        exact fun hold => hnew (hsolo.issued _ hold)
    · have hold : id ∈ (worldOf x.shared).issued := hsolo.issued id hid
      change id ∈ (worldOf sh).issued
      rcases hstep.identifier with ⟨_, hi⟩ | ⟨_, _, _, _, _, _, hw⟩
      · exact hi ▸ hold
      · rw [hw]
        exact .inr hold

/-- A blocking task that panics leaves the host and the locals of its `create` as they are. -/
theorem Solo.leave {body : Option CreateVmRequest} {x x' : State} (hsolo : Solo body s x) {e : Exit}
    (hok : Undisturbed x (.leave s.tasks.length e))
    (he : (server config lib).step x (.leave s.tasks.length e) = some x') : Solo body s x' := by
  have he : step config lib x (.leave s.tasks.length e) = some x' := he
  obtain ⟨t, hn, hreq, hfresh, hsame⟩ := hsolo.own
  cases stepped he with
  | leave _ _ r o may exit next l hk hmay =>
    obtain rfl := Option.some.inj (hn.symm.trans hk)
    have hlt := (List.getElem?_eq_some_iff.mp hk).1
    cases e with
    | dropped => exact hok.1.elim
    | panicked =>
      refine ⟨fun k hkn => ?_, ⟨_, List.getElem?_set_self hlt, hreq, hfresh, hsame⟩, hsolo.issued⟩
      rw [← hsolo.others k hkn]
      exact List.getElem?_set_ne (Ne.symm hkn)

theorem solo_of_path {body : Option CreateVmRequest} (h : (server config lib).Run past s)
    (hm : System.Meets Undisturbed past)
    (hp : System.Path (server config lib) (arrived config s (.create body)) later s')
    (hml : System.Meets Undisturbed later) (hl : System.Meets (Alone s.tasks.length) later) :
    Solo body s s' ∧ ∃ whole, (server config lib).Run whole s' ∧ System.Meets Undisturbed whole := by
  induction hp with
  | refl =>
    have harrive : (server config lib).step s (.request (.create body)) =
        some (arrived config s (.create body)) := rfl
    exact ⟨.arrived config body s, _, .step h harrive,
      System.meets_cons.mpr ⟨⟨trivial, trivial⟩, hm⟩⟩
  | step _ he ih =>
    obtain ⟨hok, hml⟩ := System.meets_cons.mp hml
    obtain ⟨halone, hl⟩ := System.meets_cons.mp hl
    obtain ⟨hsolo, whole, hw, hmw⟩ := ih hml hl
    refine ⟨?_, _, .step hw he, System.meets_cons.mpr ⟨hok, hmw⟩⟩
    rcases halone with ⟨c, rfl⟩ | ⟨x, rfl⟩
    · exact hsolo.run hw hmw he
    · exact hsolo.leave hok he

theorem unissued_absent (hs : Sound config s) (hid : id ∉ s.shared.issued) :
    s.shared.vms.lookup id = none := by
  by_contra hne
  obtain ⟨e, he⟩ := Option.ne_none_iff_exists'.mp hne
  obtain ⟨k, v, hk, hv⟩ := hs.protocol.covered id e he
  exact hid (hs.protocol.issued k v id hk hv)

/-- A `create` that has answered with an error holds no subnet and has left no entry. -/
theorem failed_create (hs : Sound config s) (hn : s.tasks[n]? = some t) {error : ApiError}
    (hfail : t.code = .ret (.answered (.failed error))) : t.ledger.view.slot = none ∧
      ∀ id, t.ledger.view.id = some id → s.shared.vms.lookup id = none := by
  have hcode := hs.code n t hn
  rw [hfail] at hcode
  obtain ⟨hsettled, hst⟩ := hcode
  refine ⟨hsettled.slot, fun id hid => ?_⟩
  have hplaced := hs.protocol.placed n _ id (siteOf_task hn) hid
  rcases hst with hst | hst <;> rwa [hst] at hplaced

/-- A failing `create` that runs alone from an idle state has no effect on map and pool. -/
theorem no_net_effect {body : Option CreateVmRequest} (h : (server config lib).Run past s)
    (hm : System.Meets Undisturbed past) (hidle : Idle s)
    (hp : System.Path (server config lib) (arrived config s (.create body)) later s')
    (hml : System.Meets Undisturbed later) (hl : System.Meets (Alone s.tasks.length) later)
    (hn : s'.tasks[s.tasks.length]? = some t) {error : ApiError}
    (hfail : t.code = .ret (.answered (.failed error))) :
    (∀ id, s'.shared.vms.lookup id = s.shared.vms.lookup id) ∧
      s'.shared.subnetPool.inUse = s.shared.subnetPool.inUse := by
  obtain ⟨hsolo, whole, hw, hmw⟩ := solo_of_path h hm hp hml hl
  obtain ⟨t', hn', _, hfresh, hsame⟩ := hsolo.own
  obtain rfl := Option.some.inj (hn.symm.trans hn')
  have hs' := sound_of_reachable (System.Run.reachable hw)
  have hlookup (id : Uuid) : s'.shared.vms.lookup id = s.shared.vms.lookup id := by
    by_cases hid : t.ledger.view.id = some id
    · rw [(failed_create hs' hn hfail).2 id hid,
        unissued_absent (sound_of_reachable (System.Run.reachable h)) (hfresh id hid)]
    · exact hsame id hid
  have hidle' : Idle s' := by
    intro k u hk
    by_cases hkn : k = s.tasks.length
    · subst hkn
      obtain rfl := Option.some.inj (hn.symm.trans hk)
      simp [HandlerTask.inFlight, hfail]
    · exact hidle k u (hsolo.others k hkn ▸ hk)
  refine ⟨hlookup, ?_⟩
  rw [inUse_of_idle hw hmw hidle', inUse_of_idle h hm hidle]
  simp only [hlookup]

/-- What is conserved in a state, and by a `create` that fails while its steps meet `ok`. -/
structure Conserves (config : AppConfig) (lib : Libraries) (ok : State → Event → Prop)
    (s : State) : Prop where
  owned : ∀ i ∈ s.shared.subnetPool.inUse, ∃! o, SubnetOwner s o i
  inFlight : ∀ n i, SubnetOwner s (.task n) i → ∃ t, s.tasks[n]? = some t ∧ t.inFlight = true
  idle : Idle s → (∀ id e, s.shared.vms.lookup id = some e → ∃ r, e = .running r) ∧
    s.shared.subnetPool.inUse =
      {i | ∃ id e, s.shared.vms.lookup id = some e ∧ e.res.subnetIndex = some i}
  failed : ∀ (n : ℕ) (t : HandlerTask) error, s.tasks[n]? = some t →
    t.code = .ret (.answered (.failed error)) → (∀ i, ¬ SubnetOwner s (.task n) i) ∧
      ∀ id, t.ledger.view.id = some id → s.shared.vms.lookup id = none
  neutral : ∀ body later s' t error, Idle s →
    System.Path (server config lib) (arrived config s (.create body)) later s' →
    System.Meets ok later → System.Meets (Alone s.tasks.length) later →
    s'.tasks[s.tasks.length]? = some t → t.code = .ret (.answered (.failed error)) →
    (∀ id, s'.shared.vms.lookup id = s.shared.vms.lookup id) ∧
      s'.shared.subnetPool.inUse = s.shared.subnetPool.inUse

/-- Conservation of subnets on every path on which no handler panics or is dropped and every
networking task returns. -/
theorem subnet_conservation (h : (server config lib).ReachableVia Undisturbed s) :
    Conserves config lib Undisturbed s := by
  have hs := sound_of_reachable h.reachable
  obtain ⟨past, hr, hm⟩ := h
  refine ⟨fun i hi => ?_, fun n i => inFlight_of_owner hs,
    fun hidle => ⟨fun id e he => running_of_idle hr hm hidle he, inUse_of_idle hr hm hidle⟩,
    fun n t error hn hfail => ⟨fun i ho => ?_, (failed_create hs hn hfail).2⟩,
    fun body later s' t error hidle hp hml hl hn hfail =>
      no_net_effect hr hm hidle hp hml hl hn hfail⟩
  · obtain ⟨o, ho⟩ := conserved_of_run hr hm i hi
    exact ⟨o, ho, fun o' ho' => hs.protocol.exclusive o' o i ho' ho⟩
  · obtain ⟨u, hu, hslot⟩ := ho
    obtain rfl : t.ledger.view = u := Option.some.inj ((siteOf_task hn).symm.trans hu)
    simp [(failed_create hs hn hfail).1] at hslot

/-- The copying task of a second `create` panics. -/
def panickedCopy : List Event :=
  sampleCreate ++ .request (.create none) :: .run 1 { id := 2 } :: .leave 1 .panicked :: runs 0 1

theorem subnet_conservation_panickedCopy :
    ∃! o, SubnetOwner (sampleServer.afterVia Undisturbed panickedCopy) o 0 := by
  have hreach : sampleServer.ReachableVia Undisturbed
      (sampleServer.afterVia Undisturbed panickedCopy) := .afterVia panickedCopy
  have huse : 0 ∈ (sampleServer.afterVia Undisturbed panickedCopy).shared.subnetPool.inUse := by
    decide +kernel
  exact (subnet_conservation hreach).owned 0 huse

/-- The networking task of a `create` panics. -/
def panickedNetworking : List Event :=
  .request (.create none) :: .run 0 { id := 1 } :: runs 0 6 ++ .leave 0 .panicked :: runs 0 1

/-- The `create` then answers 500, and its subnet stays in use. -/
theorem subnet_lost : ¬ ∀ s : State, sampleServer.ReachableVia Undropped s →
    Conserves sampleConfig sampleLibraries Undropped s := by
  intro h
  have hidle : Idle (sampleServer.afterVia Undropped panickedNetworking) := by decide +kernel
  have huse : 0 ∈ (sampleServer.afterVia Undropped panickedNetworking).shared.subnetPool.inUse := by
    decide +kernel
  have hempty : (sampleServer.afterVia Undropped panickedNetworking).shared.vms.keys = [] := by
    decide +kernel
  have hconserves := h _ (.afterVia panickedNetworking)
  rw [(hconserves.idle hidle).2] at huse
  obtain ⟨id, e, he, _⟩ := huse
  have hmem : id ∈ (sampleServer.afterVia Undropped panickedNetworking).shared.vms :=
    AList.lookup_isSome.mp (Option.isSome_of_mem he)
  have hkeys : id ∈ (sampleServer.afterVia Undropped panickedNetworking).shared.vms.keys := hmem
  simp [hempty] at hkeys

end Warlock.SubnetConservation
