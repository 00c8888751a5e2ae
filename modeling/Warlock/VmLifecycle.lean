import Warlock.LedgerHistories
import Warlock.RequestCharters
import Warlock.ReservationLifecycle

/-!
# The life cycle of a VM

Whatever is interleaved, fails or is dropped: a VM is absent, then creating, then running,
then absent for ever, with one record throughout; only its own `create` upgrades or removes
the placeholder. A `delete` that answers an error has changed nothing, of several at most one
succeeds, and what `create` answers describes the VM that it made running.
-/

namespace Warlock.VmLifecycle
open ApplicationState EffectPrograms LedgerHistories Ledgers ReservationDiscipline
  ReservationProtocol RequestCharters Server ServerInvariant ServerOperations SshSession
  SubnetAddressing TaskViews TransitionSystems VmConfiguration VmHandlers VmIdentifiers

variable {config : AppConfig} {lib : Libraries} {past later : History} {s s' : State} {n k : ℕ}
  {t u : HandlerTask} {id : Uuid} {r : VmResources} {e : Event}

section Entries

theorem lookup_moves (hs : Sound config s) (he : step config lib s e = some s') (id : Uuid) :
    Moves (s.shared.vms.lookup id) (s'.shared.vms.lookup id) := by
  rcases hs.move he (.inl trivial) with hm | hsame
  · exact hs.protocol.moves hm id
  · have hentry : (siteOf s').world.entry id = (siteOf s).world.entry id := by rw [hsame]
    exact Eq.mpr (congrArg (Moves (s.shared.vms.lookup id)) hentry) (.stays _)

/-- An identifier that has been used, with no entry now, never has one again. -/
theorem absent_kept (hs : Sound config s) (he : step config lib s e = some s')
    (hspent : Spent (siteOf s) id) (hnone : s.shared.vms.lookup id = none) :
    Spent (siteOf s') id ∧ s'.shared.vms.lookup id = none := by
  rcases hs.move he (.inl trivial) with hm | hsame
  · exact ⟨hspent.move hm, hs.protocol.absent_kept hm hspent hnone⟩
  · have hentry : (siteOf s').world.entry id = (siteOf s).world.entry id := by rw [hsame]
    exact ⟨hsame ▸ hspent, hentry.trans hnone⟩

theorem spent_of_entry (hs : Sound config s) (he : s.shared.vms.lookup id ≠ none) :
    Spent (siteOf s) id := hs.protocol.spent he

theorem spent_kept (hs : Sound config s) (he : step config lib s e = some s')
    (hspent : Spent (siteOf s) id) : Spent (siteOf s') id := by
  rcases hs.move he (.inl trivial) with hm | hsame
  · exact hspent.move hm
  · exact hsame ▸ hspent

/-- What a path leaves of an entry: the entry, its upgrade, or nothing. -/
theorem outlives_of_path (hs : Sound config s) (hp : System.Path (server config lib) s later s')
    {entry : VmEntry} (he : s.shared.vms.lookup id = some entry) :
    Outlives entry (s'.shared.vms.lookup id) := by
  have hall := hp.invariant (P := fun x => Sound config x ∧ Spent (siteOf x) id ∧
    Outlives entry (x.shared.vms.lookup id)) ⟨hs, spent_of_entry hs (by simp [he]), he ▸ .same _⟩ ?_
  · exact hall.2.2
  · rintro x e x' ⟨hx, hspent, ho⟩ hstep
    exact ⟨hx.step hstep, spent_kept hx hstep hspent,
      ho.move (lookup_moves hx hstep id) fun hnone => (absent_kept hx hstep hspent hnone).2⟩

theorem absent_of_path (hs : Sound config s) (hp : System.Path (server config lib) s later s')
    (hspent : Spent (siteOf s) id) (hnone : s.shared.vms.lookup id = none) :
    s'.shared.vms.lookup id = none := by
  have hall := hp.invariant (P := fun x => Sound config x ∧ Spent (siteOf x) id ∧
    x.shared.vms.lookup id = none) ⟨hs, hspent, hnone⟩ ?_
  · exact hall.2.2
  · rintro x e x' ⟨hx, hspent, hnone⟩ hstep
    exact ⟨hx.step hstep, absent_kept hx hstep hspent hnone⟩

/-- A placeholder is upgraded or removed only by the `create` that inserted it. -/
theorem owner_of_change (h : (server config lib).Run past s) (he : step config lib s e = some s')
    (hold : s.shared.vms.lookup id = some (.creating r))
    (hnew : s'.shared.vms.lookup id ≠ some (.creating r)) :
    ∃ n c t body, e = .run n c ∧ s.tasks[n]? = some t ∧ t.request = .create body ∧
      t.ledger.view.id = some id ∧ Placed past n id r := by
  have hs := sound_of_reachable (System.Run.reachable h)
  cases stepped he with
  | request => exact absurd hold hnew
  | callback => exact absurd hold hnew
  | leave => exact absurd hold hnew
  | panic n c req o may exit next l sh hn hexec =>
    obtain ⟨_, hr, _⟩ := step_operation hs.protocol (siteOf_task hn) (.inl trivial)
      (hs.code n _ hn).1 hexec
    simp at hr
  | run n c req o may exit next l sh reply hn hexec =>
    obtain ⟨_, hr, _, hstep⟩ := step_operation hs.protocol (siteOf_task hn) (.inl trivial)
      (hs.code n _ hn).1 hexec
    obtain rfl := Option.some.inj hr
    have hplaced (id : Uuid) := hs.protocol.placed n _ id (siteOf_task hn)
    have hid : l.view.id = some id := by
      refine (hstep.moves hplaced id).2 (fun r' hrun => ?_) fun hsame => hnew ?_
      · have hrun : s.shared.vms.lookup id = some (.running r') := hrun
        simp [hold] at hrun
      · exact hsame.trans hold
    obtain ⟨body, hreq⟩ := create_of_id h hn hid
    have hrecord : recordOf l.view.standing = some r := by
      have hp := hplaced id hid
      have hl : (siteOf s).world.entry id = some (.creating r) := hold
      rw [hl] at hp
      cases hst : l.view.standing <;> simp [hst] at hp
      all_goals simp [recordOf, hp]
    exact ⟨n, c, _, body, rfl, hn, hreq, hid, ((chronicle_of_run h hn).recorded id r hid hrecord).1⟩

end Entries

/-- The effect of a critical section that task `n` performs. -/
theorem section_step (hs : Sound config s) (hn : s.tasks[n]? = some t) {sec : VmRegistry.Section}
    (ho : t.nextOp = some (.vms sec)) {c : Choice} (he : step config lib s (.run n c) = some s') :
    s'.shared.vms = (sec.run config.capacity s.shared.vms).1 := by
  cases stepped he with
  | panic _ _ req o may exit next l sh hk hexec =>
    obtain ⟨_, hr, _⟩ := step_operation hs.protocol (siteOf_task hk) (.inl trivial)
      (hs.code _ _ hk).1 hexec
    simp at hr
  | run _ _ req o may exit next l sh reply hk hexec =>
    obtain rfl := Option.some.inj (hn.symm.trans hk)
    obtain rfl : o = .vms sec := Option.some.inj ho
    obtain ⟨rfl, _⟩ := by simpa [exec] using hexec
    rfl

section Deletes

/-- Once a VM has been taken out it is gone. -/
theorem absent_of_took (h : (server config lib).Run past s) (ht : Took past n id) :
    Spent (siteOf s) id ∧ s.shared.vms.lookup id = none := by
  induction h with
  | refl =>
    obtain ⟨_, _, ⟨_, _, hp, _⟩, _⟩ := ht
    simp at hp
  | @step past a b e h he ih =>
    have ha := sound_of_reachable (System.Run.reachable h)
    obtain ⟨a', r, ⟨c, u, hp, hu, ho⟩, hl⟩ := ht
    rcases List.mem_cons.mp hp with heq | hp
    · obtain ⟨rfl, rfl⟩ := Prod.mk.inj heq
      have he : step config lib a' (.run n c) = some b := he
      refine ⟨spent_kept ha he (spent_of_entry ha (by simp [hl])), ?_⟩
      have hvms := section_step ha hu ho he
      simp [hvms, VmRegistry.Section.run, VmRegistry.take, hl]
    · obtain ⟨hspent, hnone⟩ := ih ⟨a', r, ⟨c, u, hp, hu, ho⟩, hl⟩
      exact absent_kept ha he hspent hnone

/-- A VM is taken out by one task only. -/
theorem took_unique (h : (server config lib).Run past s) (hn : Took past n id)
    (hk : Took past k id) : n = k := by
  induction h with
  | refl =>
    obtain ⟨_, _, ⟨_, _, hp, _⟩, _⟩ := hn
    simp at hp
  | @step past a b e h he ih =>
    have hlate {m : ℕ} (hold : Took past m id) {r : VmResources}
        (hl : a.shared.vms.lookup id = some (.running r)) : False := by
      simp [(absent_of_took h hold).2] at hl
    obtain ⟨a₁, r₁, ⟨c₁, u₁, hp₁, hu₁, ho₁⟩, hl₁⟩ := hn
    obtain ⟨a₂, r₂, ⟨c₂, u₂, hp₂, hu₂, ho₂⟩, hl₂⟩ := hk
    rcases List.mem_cons.mp hp₁ with heq₁ | hp₁
    · obtain ⟨rfl, rfl⟩ := Prod.mk.inj heq₁
      rcases List.mem_cons.mp hp₂ with heq₂ | hp₂
      · obtain ⟨_, heq⟩ := Prod.mk.inj heq₂
        exact (Event.run.inj heq).1.symm
      · exact (hlate ⟨a₂, r₂, ⟨c₂, u₂, hp₂, hu₂, ho₂⟩, hl₂⟩ hl₁).elim
    · have hold : Took past n id := ⟨a₁, r₁, ⟨c₁, u₁, hp₁, hu₁, ho₁⟩, hl₁⟩
      rcases List.mem_cons.mp hp₂ with heq₂ | hp₂
      · obtain ⟨rfl, rfl⟩ := Prod.mk.inj heq₂
        exact (hlate hold hl₂).elim
      · exact ih hold ⟨a₂, r₂, ⟨c₂, u₂, hp₂, hu₂, ho₂⟩, hl₂⟩

end Deletes

section Creates

/-- The task has made its placeholder running in one step of the history. -/
def BecameRunning (config : AppConfig) (lib : Libraries) (past : History) (n : ℕ) (id : Uuid)
    (r : VmResources) : Prop :=
  ∃ a c u a', (a, Event.run n c) ∈ past ∧ a.tasks[n]? = some u ∧
    u.nextOp = some (.vms (.upgrade id)) ∧ step config lib a (.run n c) = some a' ∧
    a.shared.vms.lookup id = some (.creating r) ∧ a'.shared.vms.lookup id = some (.running r)

theorem becameRunning_of_published (h : (server config lib).Run past s)
    (hp : Published past n id r) : BecameRunning config lib past n id r := by
  obtain ⟨a, ⟨c, u, hmem, hu, ho⟩, hl⟩ := hp
  obtain ⟨_, _, a', _, ha, he, _⟩ := System.Path.split h hmem
  have he : step config lib a (.run n c) = some a' := he
  refine ⟨a, c, u, a', hmem, hu, ho, he, hl, ?_⟩
  have hvms := section_step (sound_of_reachable ⟨_, ha⟩) hu ho he
  simp [hvms, VmRegistry.Section.run, VmRegistry.lookup_upgrade hl]

/-- The VM that an answer of `create` describes. -/
def Delivered (config : AppConfig) (lib : Libraries) (past : History) (n : ℕ) (request : Request)
    (answer : CreateVmResponse) : Prop :=
  ∃ body subnet natHandles, request = .create body ∧
    validateVmConfig (body.bind (·.vcpus)) (body.bind (·.memoryMb)) =
      .ok (answer.vcpus, answer.memoryMb) ∧
    Allocated past n subnet ∧ answer.guestIp = subnet.guestIp.display ∧
    BecameRunning config lib past n answer.id
      (placeholder config body answer.id answer.vcpus answer.memoryMb subnet natHandles)

theorem delivered_of_created (h : (server config lib).Run past s) (hn : s.tasks[n]? = some t)
    {answer : CreateVmResponse} (hc : t.code = .ret (.answered (.created answer))) :
    Delivered config lib past n t.request answer := by
  have hcode := (sound_of_reachable (System.Run.reachable h)).code n t hn
  rw [hc] at hcode
  obtain ⟨_, hid, body, r, hreq, hst, hvalid, subnet, natHandles, hip, rfl⟩ := hcode
  have hchronicle := chronicle_of_run h hn
  obtain ⟨_, subnet', halloc, hindex⟩ := hchronicle.recorded _ _ hid (by rw [hst]; rfl)
  obtain rfl : subnet = subnet' := SubnetAllocation.eq_of_index (Option.some.inj hindex)
  exact ⟨body, subnet, natHandles, hreq, hvalid, halloc, hip,
    becameRunning_of_published h (hchronicle.published _ _ hid hst)⟩

end Creates

/-- What holds of every VM at every point of a run. -/
structure Lifecycle (config : AppConfig) (lib : Libraries) (past : History) (s : State) : Prop where
  moves : ∀ e s', step config lib s e = some s' → ∀ id,
    Moves (s.shared.vms.lookup id) (s'.shared.vms.lookup id)
  outlives : ∀ later s' id entry, System.Path (server config lib) s later s' →
    s.shared.vms.lookup id = some entry → Outlives entry (s'.shared.vms.lookup id)
  absent : ∀ later b later' s' id entry, System.Path (server config lib) s later b →
    System.Path (server config lib) b later' s' → s.shared.vms.lookup id = some entry →
    b.shared.vms.lookup id = none → s'.shared.vms.lookup id = none
  owner : ∀ e s' id r, step config lib s e = some s' →
    s.shared.vms.lookup id = some (.creating r) →
    s'.shared.vms.lookup id ≠ some (.creating r) →
    ∃ n c t body, e = .run n c ∧ s.tasks[n]? = some t ∧ t.request = .create body ∧
      t.ledger.view.id = some id ∧ Placed past n id r
  failed : ∀ (n : ℕ) (t : HandlerTask) id error a c a', s.tasks[n]? = some t →
    t.request = .delete id → t.code = .ret (.answered (.failed error)) →
    (a, Event.run n c) ∈ past → step config lib a (.run n c) = some a' →
    Unmoved a.shared a'.shared
  once : ∀ (n k : ℕ) (t u : HandlerTask) id x y, s.tasks[n]? = some t → s.tasks[k]? = some u →
    t.request = .delete id → u.request = .delete id → t.code = .ret (.answered (.deleted x)) →
    u.code = .ret (.answered (.deleted y)) → n = k
  created : ∀ (n : ℕ) (t : HandlerTask) answer, s.tasks[n]? = some t →
    t.code = .ret (.answered (.created answer)) → Delivered config lib past n t.request answer

/-- The life cycle of VMs over all runs. -/
theorem vm_lifecycle (h : (server config lib).Run past s) : Lifecycle config lib past s := by
  have hs := sound_of_reachable (System.Run.reachable h)
  refine ⟨fun e s' he => lookup_moves hs he, fun later s' id entry hp he => outlives_of_path hs hp he,
    fun later b later' s' id entry hp hp' he hnone => ?_,
    fun e s' id r he hold hnew => owner_of_change h he hold hnew,
    fun n t id error a c a' hn hreq hfail hp he => unmoved_of_failed h hn hreq hfail hp he,
    fun n k t u id x y hn hk hreq hreq' hc hc' => ?_,
    fun n t answer hn hc => delivered_of_created h hn hc⟩
  · have hspent : Spent (siteOf b) id :=
      hp.invariant (P := fun x => Sound config x ∧ Spent (siteOf x) id)
        ⟨hs, spent_of_entry hs (by simp [he])⟩
        (fun x e x' hx hstep => ⟨hx.1.step hstep, spent_kept hx.1 hstep hx.2⟩) |>.2
    exact absent_of_path (sound_of_path hs hp) hp' hspent hnone
  · exact took_unique h (took_of_deleted h hn hreq hc) (took_of_deleted h hk hreq' hc')

theorem vm_lifecycle_afterCreate : ∃ past, sampleServer.Run past (sampleServer.after sampleCreate) ∧
    ((sampleServer.after sampleCreate).shared.vms.lookup 1).isSome = true ∧
    Lifecycle sampleConfig sampleLibraries past (sampleServer.after sampleCreate) := by
  obtain ⟨past, hrun⟩ : sampleServer.Reachable (sampleServer.after sampleCreate) := .after _
  exact ⟨past, hrun, by decide +kernel, vm_lifecycle hrun⟩

end Warlock.VmLifecycle
