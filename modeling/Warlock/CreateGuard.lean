import Warlock.VmLifecycle

/-!
# The create guard

The guard takes the placeholder out when a `create` is dropped or panics, unless its one
attempt to lock the map fails: then the placeholder stays until the server restarts. This is
the only way in which a placeholder outlives its `create`.
-/

namespace Warlock.CreateGuard
open ApplicationState LedgerHistories RequestCharters Server ServerInvariant SshSession TaskViews
  TransitionSystems VmIdentifiers VmLifecycle

variable {config : AppConfig} {lib : Libraries} {past later : History} {s s' : State} {n : ℕ}
  {t : HandlerTask} {id : Uuid} {r : VmResources}

/-- Every placeholder stands for a task that has drawn its identifier. -/
theorem standing_of_creating (hs : Sound config s)
    (he : s.shared.vms.lookup id = some (.creating r)) :
    ∃ (n : ℕ) (t : HandlerTask), s.tasks[n]? = some t ∧ t.ledger.view.id = some id ∧
      (t.ledger.view.standing = .creating r ∨ t.ledger.view.standing = .released r) := by
  obtain ⟨n, v, hv, hid⟩ := hs.protocol.covered id _ he
  obtain ⟨t, ht, rfl⟩ := Option.map_eq_some_iff.mp hv
  have hplaced := hs.protocol.placed n _ id hv hid
  have hl : (siteOf s).world.entry id = some (.creating r) := he
  rw [hl] at hplaced
  refine ⟨n, t, ht, hid, ?_⟩
  cases hst : t.ledger.view.standing with
  | creating r' =>
    rw [hst] at hplaced
    obtain rfl : r = r' := by simpa using hplaced
    exact .inl rfl
  | released r' =>
    rw [hst] at hplaced
    obtain rfl : r = r' := by simpa using hplaced
    exact .inr rfl
  | upgraded r' => simp [hst] at hplaced
  | fresh => simp [hst] at hplaced
  | gone => simp [hst] at hplaced

/-- A task that has ended with its placeholder still in the map was refused the map. -/
theorem refused_of_ended (hs : Sound config s) (hn : s.tasks[n]? = some t)
    (hst : t.ledger.view.standing = .creating r ∨ t.ledger.view.standing = .released r)
    (hend : t.inFlight = false) : t.code = .ret .dropped ∧ t.ledger.view.refused = true := by
  obtain ⟨outcome, hc⟩ := code_of_not_inFlight hend
  have hcode := hs.code n t hn
  rw [hc] at hcode
  obtain ⟨hsettled, hfinal⟩ := hcode
  cases outcome with
  | dropped =>
    refine ⟨hc, ?_⟩
    rcases hst with hst | hst
    · exact hfinal r hst
    · have hlocked := hs.protocol.locked n _ r (siteOf_task hn) hst
      simp [hsettled.registry] at hlocked
  | session self result =>
    have hv : t.ledger.view = {} := hfinal
    simp [hv] at hst
  | answered answer =>
    cases answer with
    | created response =>
      obtain ⟨_, _, _, _, hup, _⟩ := hfinal
      simp [hup] at hst
    | _ => rcases hfinal with h | h <;> simp [h] at hst

/-- The placeholder of a `create` that was dropped stays: only its `create` could remove it. -/
theorem stuck_after (h : (server config lib).Run past s) (hn : s.tasks[n]? = some t)
    (hc : t.code = .ret .dropped) (hid : t.ledger.view.id = some id)
    (he : s.shared.vms.lookup id = some (.creating r))
    (hp : System.Path (server config lib) s later s') :
    s'.shared.vms.lookup id = some (.creating r) := by
  have hall := hp.invariant (P := fun x => (server config lib).Reachable x ∧
    x.tasks[n]? = some t ∧ x.shared.vms.lookup id = some (.creating r)) ⟨h.reachable, hn, he⟩ ?_
  · exact hall.2.2
  · rintro x e x' ⟨hreach, hx, hentry⟩ hstep
    have hother : e.subject ≠ some n := subject_ne_of_dropped hstep hx hc
    refine ⟨hreach.step hstep, task_kept hstep hother hx, ?_⟩
    by_contra hnew
    obtain ⟨before, hrun⟩ := hreach
    obtain ⟨k, c, u, body, rfl, hk, _, hkid, _⟩ := owner_of_change hrun hstep hentry hnew
    have hs := sound_of_reachable hrun.reachable
    exact hother (congrArg some (hs.protocol.unique k n _ _ id (siteOf_task hk) (siteOf_task hx)
      hkid hid))

/-- Every placeholder belongs to the `create` that inserted it, which is still in flight, or
was dropped while another task held the map; then the placeholder is never taken out. -/
theorem creating_owner (h : (server config lib).Run past s)
    (he : s.shared.vms.lookup id = some (.creating r)) :
    ∃ (n : ℕ) (t : HandlerTask) (body : Option CreateVmRequest), s.tasks[n]? = some t ∧
      t.request = .create body ∧ Placed past n id r ∧
      (t.inFlight = true ∨ t.code = .ret .dropped ∧ Refused past n ∧
        ∀ later s', System.Path (server config lib) s later s' →
          s'.shared.vms.lookup id = some (.creating r)) := by
  have hs := sound_of_reachable (System.Run.reachable h)
  obtain ⟨n, t, hn, hid, hst⟩ := standing_of_creating hs he
  have hchronicle := chronicle_of_run h hn
  obtain ⟨body, hreq⟩ := create_of_id h hn hid
  have hrecord : recordOf t.ledger.view.standing = some r := by
    rcases hst with hst | hst <;> simp [hst, recordOf]
  refine ⟨n, t, body, hn, hreq, (hchronicle.recorded id r hid hrecord).1, ?_⟩
  cases hend : t.inFlight with
  | true => exact .inl rfl
  | false =>
    obtain ⟨hc, hrefused⟩ := refused_of_ended hs hn hst hend
    exact .inr ⟨hc, hchronicle.refused hrefused, fun _ _ => stuck_after h hn hc hid he⟩

/-- A `create` is dropped during the set-up of its instance while a `list` holds the map. -/
def droppedDuringList : List Event :=
  .request (.create none) :: reserving 0 1 ++ runs 0 2 ++ .request .list :: runs 1 1 ++
    .leave 0 .dropped :: runs 0 2 ++ runs 1 3

theorem creating_owner_afterDrop : ∃ r, ∃ (n : ℕ) (t : HandlerTask) (body : Option CreateVmRequest),
    (sampleServer.after droppedDuringList).tasks[n]? = some t ∧ t.request = .create body ∧
      t.code = .ret .dropped ∧
      ∀ later s', System.Path sampleServer (sampleServer.after droppedDuringList) later s' →
        s'.shared.vms.lookup 1 = some (.creating r) := by
  obtain ⟨past, hrun⟩ : sampleServer.Reachable (sampleServer.after droppedDuringList) := .after _
  have hidle : Idle (sampleServer.after droppedDuringList) := by decide +kernel
  obtain ⟨r, hr⟩ : ∃ r, (sampleServer.after droppedDuringList).shared.vms.lookup 1 =
      some (.creating r) := creating_of_status (by decide +kernel)
  obtain ⟨n, t, body, hn, hreq, _, hflight | ⟨hc, _, hstays⟩⟩ := creating_owner hrun hr
  · simp [hidle n t hn] at hflight
  · exact ⟨r, n, t, body, hn, hreq, hc, hstays⟩

/-- The placeholder is still there when no handler is in flight any more. -/
theorem creating_stuck : ¬ ∀ s : State, sampleServer.Reachable s →
    ∀ id r, s.shared.vms.lookup id = some (.creating r) →
      ∃ (n : ℕ) (t : HandlerTask), s.tasks[n]? = some t ∧ t.inFlight = true ∧
        t.ledger.view.id = some id := by
  intro h
  have hidle : Idle (sampleServer.after droppedDuringList) := by decide +kernel
  obtain ⟨r, hr⟩ : ∃ r, (sampleServer.after droppedDuringList).shared.vms.lookup 1 =
      some (.creating r) := creating_of_status (by decide +kernel)
  obtain ⟨n, t, hn, hflight, _⟩ := h _ (.after _) 1 r hr
  simp [hidle n t hn] at hflight

end Warlock.CreateGuard
