import Warlock.ServerInvariant

/-!
# Exclusive ownership of subnets

A subnet in use belongs to the entry whose record names it or to the handler that holds it
between `allocate` and the insertion, or between the removal of an entry and the release.
Nobody else releases it or deletes its tap, so no two live VMs are on one subnet.
-/

namespace Warlock.SubnetOwnership
open ApplicationState EffectPrograms Ledgers MachineIntegers ReservationDiscipline
  ReservationProtocol ResourceCustody Server ServerInvariant ServerOperations SshSession
  SubnetAddressing TransitionSystems VmIdentifiers

/-- An entry stops to own its subnet when it is released on its behalf. -/
abbrev SubnetOwner (s : State) : Owner Uuid → U16 → Prop :=
  Owns VmResources.subnetIndex (siteOf s)

/-- The owner is the task itself, or the placeholder that the task has entered. -/
def ActsFor (n : ℕ) (t : HandlerTask) : Owner Uuid → Prop
  | .task k => k = n
  | .entry id => t.ledger.view.id = some id

/-- The subnet of a VM: the one its entry names, or, once that is taken out, the one its
deleting task took over. -/
def Attached (s : State) (id : Uuid) (i : U16) : Prop :=
  (∃ e, s.shared.vms.lookup id = some e ∧ e.res.subnetIndex = some i) ∨
    s.shared.vms.lookup id = none ∧ ∃ (n : ℕ) (t : HandlerTask), s.tasks[n]? = some t ∧
      t.ledger.view.agent = some id ∧ (t.ledger.view.slot = some i ∨ t.ledger.view.lost = some i)

structure ExclusiveOwnership (s : State) : Prop where
  exclusive : Exclusive (SubnetOwner s)
  inUse : ∀ o i, SubnetOwner s o i → i ∈ s.shared.subnetPool.inUse
  inFlight : ∀ n i, SubnetOwner s (.task n) i → ∃ t, s.tasks[n]? = some t ∧ t.inFlight = true
  attached : ∀ id ∈ s.shared.host.live, ∃ i, i.toNat < maxSubnets ∧ Attached s id i
  records : ∀ id e i, s.shared.vms.lookup id = some e → e.res.subnetIndex = some i →
    e.res.tapName = some (tapName i) ∧ e.res.guestIp = some (subnetGuestIp i).display
  apart : ∀ id id' i j, id ≠ id' → Attached s id i → Attached s id' j →
    i ≠ j ∧ tapName i ≠ tapName j ∧ subnetGuestIp i ≠ subnetGuestIp j
  releases : ∀ (n : ℕ) (t : HandlerTask) (i : U16), s.tasks[n]? = some t →
    t.nextOp = some (.release i) → i.toNat < maxSubnets ∧
      (∃ pool, s.shared.subnetPool.release i = some pool) ∧ ∃ o, SubnetOwner s o i ∧ ActsFor n t o
  deletions : ∀ (n : ℕ) (t : HandlerTask) (i : U16) (o : Owner Uuid), s.tasks[n]? = some t →
    t.nextOp = some (.command (.linkDel (tapName i))) → SubnetOwner s o i → ActsFor n t o

variable {config : AppConfig} {lib : Libraries} {s s' : State} {n : ℕ} {t : HandlerTask}
  {i j : U16} {id id' : Uuid}

theorem inFlight_of_owner (hs : Sound config s) (ho : SubnetOwner s (.task n) i) :
    ∃ t, s.tasks[n]? = some t ∧ t.inFlight = true := by
  obtain ⟨v, hv, hslot⟩ := ho
  obtain ⟨t, ht, rfl⟩ := Option.map_eq_some_iff.mp hv
  refine ⟨t, ht, ?_⟩
  have hcode := hs.code n t ht
  unfold HandlerTask.inFlight
  split
  · rename_i leaf hc
    rw [hc] at hcode
    have hnone : t.ledger.view.slot = none := hcode.1.slot
    simp [hnone] at hslot
  · rfl

theorem owner_of_slot (hn : s.tasks[n]? = some t) (h : t.ledger.view.slot = some i) :
    SubnetOwner s (.task n) i := ⟨_, siteOf_task hn, h⟩

theorem owner_of_placeholder (hs : Sound config s) (hn : s.tasks[n]? = some t)
    (hid : t.ledger.view.id = some id) {r : VmResources}
    (hst : t.ledger.view.standing = .creating r) (hi : r.subnetIndex = some i) :
    SubnetOwner s (.entry id) i := hs.protocol.owns_own (siteOf_task hn) hid hst hi

theorem slot_lt (hs : Sound config s) {o : Owner Uuid} (ho : SubnetOwner s o i) :
    i.toNat < maxSubnets := SubnetPool.lt_of_inUse (hs.protocol.used o i ho)

/-- What a task releases is its own, or belongs to its own placeholder. -/
theorem release_owner (hs : Sound config s) (hn : s.tasks[n]? = some t)
    (ho : t.nextOp = some (.release i)) : ∃ o, SubnetOwner s o i ∧ ActsFor n t o := by
  obtain ⟨_, _, _, hslot | ⟨_, _, hid, r, hst, hi⟩⟩ := requires_of_nextOp hs hn ho
  · exact ⟨.task n, owner_of_slot hn hslot, rfl⟩
  · obtain ⟨id, hid⟩ := Option.isSome_iff_exists.mp hid
    exact ⟨.entry id, owner_of_placeholder hs hn hid hst hi, hid⟩

theorem deletion_owner (hs : Sound config s) (hn : s.tasks[n]? = some t)
    (hop : t.nextOp = some (.command (.linkDel (tapName i)))) {o : Owner Uuid}
    (ho : SubnetOwner s o i) : ActsFor n t o := by
  obtain ⟨j, hj, hmay⟩ := requires_of_nextOp hs hn hop
  obtain rfl := tapName_injective hj
  rcases hmay with hslot | hlost | ⟨hid, r, hst, hi⟩
  · obtain rfl := hs.protocol.exclusive o _ i ho (owner_of_slot hn hslot)
    rfl
  · exact absurd ho ((hs.protocol.lost n _ i (siteOf_task hn) hlost).2 o)
  · obtain ⟨id, hid⟩ := Option.isSome_iff_exists.mp hid
    obtain rfl := hs.protocol.exclusive o _ i ho (owner_of_placeholder hs hn hid hst hi)
    exact hid

theorem attended_of_reachable (h : (server config lib).Reachable s) : Attended (siteOf s) := by
  have hboth := h.invariant (P := fun s => Sound config s ∧ Attended (siteOf s))
    ⟨Sound.initial, fun n v hv => by simp [siteOf, server] at hv⟩ ?_
  · exact hboth.2
  · rintro s e s' ⟨hs, ha⟩ he
    refine ⟨hs.step he, ?_⟩
    rcases hs.move he (.inl trivial) with hm | hsame
    · refine ha.move hs.protocol (fun id r hr => ?_) hm
      obtain ⟨i, _, hi, _⟩ := hr.subnet
      simp [hi]
    · exact hsame ▸ ha

theorem attached_of_live (hs : Sound config s) (ha : Attended (siteOf s))
    (hid : id ∈ s.shared.host.live) : ∃ i, i.toNat < maxSubnets ∧ Attached s id i := by
  have hentry {e : VmEntry} (he : s.shared.vms.lookup id = some e) :
      ∃ i, i.toNat < maxSubnets ∧ Attached s id i := by
    obtain ⟨i, hi, hindex, _⟩ := (hs.protocol.fits id e he).subnet
    exact ⟨i, hi, .inl ⟨e, he, hindex⟩⟩
  rcases hs.protocol.live id hid with ⟨r, hr⟩ | ⟨n, v, hv, hagent⟩
  · exact hentry hr
  · cases hl : s.shared.vms.lookup id with
    | some e => exact hentry hl
    | none =>
      obtain ⟨t, ht, rfl⟩ := Option.map_eq_some_iff.mp hv
      obtain ⟨_, _, hslot | hlost⟩ := ha.deleting hs.protocol hl (siteOf_task ht) hagent
      · obtain ⟨i, hi⟩ := Option.isSome_iff_exists.mp hslot
        exact ⟨i, slot_lt hs (owner_of_slot ht hi), .inr ⟨hl, n, t, ht, hagent, .inl hi⟩⟩
      · obtain ⟨i, hi⟩ := Option.isSome_iff_exists.mp hlost
        exact ⟨i, SubnetPool.lt_of_inUse (hs.protocol.lost n _ i (siteOf_task ht) hi).1,
          .inr ⟨hl, n, t, ht, hagent, .inr hi⟩⟩

/-- The subnet of an entry is not the one that a deleting task took over from another. -/
theorem entry_apart (hs : Sound config s) (ha : Attended (siteOf s)) {e : VmEntry}
    (he : s.shared.vms.lookup id = some e) (hi : e.res.subnetIndex = some i)
    (hnone : s.shared.vms.lookup id' = none) (hn : s.tasks[n]? = some t)
    (hagent : t.ledger.view.agent = some id')
    (hslot : t.ledger.view.slot = some i ∨ t.ledger.view.lost = some i) : False := by
  obtain ⟨hreg, hst, _⟩ := ha.deleting hs.protocol hnone (siteOf_task hn) hagent
  have howner : SubnetOwner s (.entry id) i := by
    refine ⟨e, he, hi, ?_⟩
    rintro ⟨k, u, r, hk, _, hu⟩
    have hkn : k = n := by
      have hk := (hs.protocol.holder .registry k).mpr ⟨u, hk, hs.protocol.locked k u r hk hu⟩
      have hn := (hs.protocol.holder .registry n).mpr ⟨_, siteOf_task hn, hreg⟩
      exact Option.some.inj (hk.symm.trans hn)
    subst hkn
    obtain rfl : t.ledger.view = u := Option.some.inj ((siteOf_task hn).symm.trans hk)
    simp [hst] at hu
  rcases hslot with hslot | hlost
  · have := hs.protocol.exclusive _ _ i howner (owner_of_slot hn hslot)
    cases this
  · exact (hs.protocol.lost n _ i (siteOf_task hn) hlost).2 _ howner

theorem attached_apart (hs : Sound config s) (ha : Attended (siteOf s)) (hi : Attached s id i)
    (hj : Attached s id' i) : id = id' := by
  rcases hi with ⟨e, he, hi⟩ | ⟨hl, n, t, hn, hagent, hslot⟩
  · rcases hj with ⟨e', he', hj⟩ | ⟨hl', n', t', hn', hagent', hslot'⟩
    · exact hs.protocol.distinct id id' e e' i he he' hi hj
    · exact (entry_apart hs ha he hi hl' hn' hagent' hslot').elim
  · rcases hj with ⟨e', he', hj⟩ | ⟨hl', n', t', hn', hagent', hslot'⟩
    · exact (entry_apart hs ha he' hj hl hn hagent hslot).elim
    · have hreg := (ha.deleting hs.protocol hl (siteOf_task hn) hagent).1
      have hreg' := (ha.deleting hs.protocol hl' (siteOf_task hn') hagent').1
      have hk := (hs.protocol.holder .registry n).mpr ⟨_, siteOf_task hn, hreg⟩
      have hk' := (hs.protocol.holder .registry n').mpr ⟨_, siteOf_task hn', hreg'⟩
      obtain rfl : n = n' := Option.some.inj (hk.symm.trans hk')
      obtain rfl : t = t' := Option.some.inj (hn.symm.trans hn')
      exact Option.some.inj (hagent.symm.trans hagent')

theorem attached_lt (hs : Sound config s) (h : Attached s id i) : i.toNat < maxSubnets := by
  rcases h with ⟨e, he, hi⟩ | ⟨_, n, t, hn, _, hslot | hlost⟩
  · obtain ⟨j, hj, hindex, _⟩ := (hs.protocol.fits id e he).subnet
    obtain rfl : j = i := Option.some.inj (hindex.symm.trans hi)
    exact hj
  · exact slot_lt hs (owner_of_slot hn hslot)
  · exact SubnetPool.lt_of_inUse (hs.protocol.lost n _ i (siteOf_task hn) hlost).1

/-- In every reachable state subnets are owned exclusively. -/
theorem exclusive_ownership (h : (server config lib).Reachable s) : ExclusiveOwnership s := by
  have hs := sound_of_reachable h
  have ha := attended_of_reachable h
  refine ⟨hs.protocol.exclusive, hs.protocol.used, fun n i => inFlight_of_owner hs,
    fun id => attached_of_live hs ha, fun id e i he hi => ?_, fun id id' i j hne hi hj => ?_,
    fun n t i hn ho => ?_, fun n t i o hn hop => deletion_owner hs hn hop⟩
  · obtain ⟨j, _, hindex, htap, hip⟩ := (hs.protocol.fits id e he).subnet
    obtain rfl : j = i := Option.some.inj (hindex.symm.trans hi)
    exact ⟨htap, hip⟩
  · have hij : i ≠ j := by
      rintro rfl
      exact hne (attached_apart hs ha hi hj)
    exact ⟨hij, fun h => hij (tapName_injective h),
      fun h => hij (subnetGuestIp_injective (attached_lt hs hi) (attached_lt hs hj) h)⟩
  · have hlt : i.toNat < maxSubnets := (requires_of_nextOp hs hn ho).2.1
    obtain ⟨pool, hpool, _⟩ := SubnetPool.release_eq_some s.shared.subnetPool hlt
    exact ⟨hlt, ⟨pool, hpool⟩, release_owner hs hn ho⟩

theorem exclusive_ownership_afterCreate :
    ((sampleServer.after sampleCreate).shared.vms.lookup 1).isSome = true ∧
      ExclusiveOwnership (sampleServer.after sampleCreate) :=
  have hreach : sampleServer.Reachable (sampleServer.after sampleCreate) := .after sampleCreate
  ⟨by decide +kernel, exclusive_ownership hreach⟩

end Warlock.SubnetOwnership
