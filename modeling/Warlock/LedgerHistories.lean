import Warlock.TaskViews

/-!
# What stands behind the ledgers

The ledger of a task says what the task holds; here each of its fields is traced back to the
step of the history that made it so: the refused attempt to lock the map, the allocation of
the subnet, the insertion of the placeholder, the upgrade.
-/

namespace Warlock.LedgerHistories
open ApplicationState EffectPrograms Ledgers MachineIntegers ReservationDiscipline
  ReservationProtocol Server ServerInvariant ServerOperations SshSession SubnetAddressing
  TaskViews TransitionSystems VmIdentifiers

/-- The record that a task has entered under its identifier. -/
def recordOf : Standing VmResources → Option VmResources
  | .creating r | .released r | .upgraded r => some r
  | .fresh | .gone => none

/-- Task `n` was given this subnet. -/
def Allocated (past : History) (n : ℕ) (subnet : SubnetAllocation) : Prop :=
  ∃ a pool, Performed past n .allocate a ∧ a.shared.subnetPool.allocate = some (subnet, pool)

/-- Task `n` could not lock the map, because another task held it. -/
def Refused (past : History) (n : ℕ) : Prop :=
  ∃ a m, Performed past n (.tryLock .registry) a ∧ a.shared.locks .registry = some m ∧ m ≠ n

/-- Task `n` has inserted the placeholder of a new VM. -/
def Placed (past : History) (n : ℕ) (id : Uuid) (r : VmResources) : Prop :=
  ∃ a, Performed past n (.vms (.reserve id r)) a ∧ a.shared.vms.lookup id = none

/-- Task `n` has made its own placeholder running. -/
def Published (past : History) (n : ℕ) (id : Uuid) (r : VmResources) : Prop :=
  ∃ a, Performed past n (.vms (.upgrade id)) a ∧
    a.shared.vms.lookup id = some (.creating r)

structure Chronicle (past : History) (n : ℕ) (v : Standpoint) : Prop where
  refused : v.refused = true → Refused past n
  allocated : ∀ i, v.id.isSome = true → v.standing = .fresh → v.slot = some i →
    ∃ subnet, Allocated past n subnet ∧ subnet.index = i
  recorded : ∀ id r, v.id = some id → recordOf v.standing = some r → Placed past n id r ∧
    ∃ subnet, Allocated past n subnet ∧ r.subnetIndex = some subnet.index
  published : ∀ id r, v.id = some id → v.standing = .upgraded r → Published past n id r

variable {past : History} {n : ℕ} {v v' : Standpoint} {p : State × Event}
  {subnet : SubnetAllocation} {id : Uuid} {r : VmResources}

theorem Allocated.tail (h : Allocated past n subnet) (p : State × Event) :
    Allocated (p :: past) n subnet := by
  obtain ⟨a, pool, hp, ha⟩ := h
  exact ⟨a, pool, hp.tail p, ha⟩

theorem Refused.tail (h : Refused past n) (p : State × Event) : Refused (p :: past) n := by
  obtain ⟨a, m, hp, ha⟩ := h
  exact ⟨a, m, hp.tail p, ha⟩

theorem Placed.tail (h : Placed past n id r) (p : State × Event) : Placed (p :: past) n id r := by
  obtain ⟨a, hp, ha⟩ := h
  exact ⟨a, hp.tail p, ha⟩

theorem Published.tail (h : Published past n id r) (p : State × Event) :
    Published (p :: past) n id r := by
  obtain ⟨a, hp, ha⟩ := h
  exact ⟨a, hp.tail p, ha⟩

/-- A step that adds nothing to what the task has done. -/
theorem Chronicle.keep (h : Chronicle past n v) (hid : v'.id = v.id)
    (href : v'.refused = v.refused) (hfresh : v'.standing = .fresh → v.standing = .fresh)
    (hslot : v'.standing = .fresh → ∀ i, v'.slot = some i → v.slot = some i)
    (hrecord : ∀ r, recordOf v'.standing = some r → recordOf v.standing = some r)
    (hup : ∀ r, v'.standing = .upgraded r → v.standing = .upgraded r) :
    Chronicle (p :: past) n v' where
  refused hr := (h.refused (href ▸ hr)).tail p
  allocated i hi hst hs := by
    obtain ⟨subnet, ha, he⟩ := h.allocated i (hid ▸ hi) (hfresh hst) (hslot hst i hs)
    exact ⟨subnet, ha.tail p, he⟩
  recorded id r hi hr := by
    obtain ⟨hp, subnet, ha, he⟩ := h.recorded id r (hid ▸ hi) (hrecord r hr)
    exact ⟨hp.tail p, subnet, ha.tail p, he⟩
  published id r hi hst := (h.published id r (hid ▸ hi) (hup r hst)).tail p

theorem Chronicle.same (h : Chronicle past n v) : Chronicle (p :: past) n v :=
  h.keep rfl rfl id (fun _ _ => id) (fun _ => id) fun _ => id

theorem Chronicle.abandon (h : Chronicle past n v) : Chronicle (p :: past) n (abandonView v) :=
  h.keep rfl rfl id (by simp [abandonView]) (fun _ => id) fun _ => id

theorem Chronicle.set (h : Chronicle past n v) (m : Mutex) (b : Bool) :
    Chronicle (p :: past) n (v.set m b) :=
  h.keep (by simp) (by simp) (by simp) (by simp) (by simp) (by simp)

theorem Chronicle.release (h : Chronicle past n v) (i : U16) :
    Chronicle (p :: past) n (noteRelease v i) := by
  unfold noteRelease
  split
  · exact h.keep rfl rfl id (by simp) (fun _ => id) fun _ => id
  · split
    · rename_i r hst
      exact h.keep rfl rfl (by simp) (by simp) (by simp [recordOf, hst]) (by simp)
    · exact h.same

section Operations

variable {config : AppConfig} {lib : Libraries} {s : State} {c : Choice} {t : HandlerTask}
  {sh : Shared}

theorem chronicle_reserve (h : Chronicle past n t.ledger.view) (hs : Sound config s)
    (hn : s.tasks[n]? = some t) (ho : t.nextOp = some (.vms (.reserve id r)))
    (reply : Except ApiError Unit) :
    Chronicle ((s, .run n c) :: past) n (noteSection t.ledger.view (.reserve id r) reply) := by
  cases reply with
  | error e => exact h.same
  | ok _ =>
    obtain ⟨_, hid, hst, hslot, hfit, _⟩ := requires_of_nextOp hs hn ho
    have hnone : s.shared.vms.lookup id = none := by
      have hp := hs.protocol.placed n _ id (siteOf_task hn) hid
      rwa [hst] at hp
    obtain ⟨i, _, hi, _⟩ := hfit.subnet
    refine ⟨fun hr => (h.refused hr).tail _, by simp [noteSection], fun id' r' hid' hr => ?_,
      by simp [noteSection]⟩
    obtain rfl : id = id' := Option.some.inj (hid.symm.trans hid')
    obtain rfl : r = r' := Option.some.inj hr
    obtain ⟨subnet, ha, he⟩ := h.allocated i (by simp [hid]) hst (hslot.trans hi)
    exact ⟨⟨s, .now hn ho, hnone⟩, subnet, ha.tail _, he ▸ hi⟩

theorem chronicle_upgrade (h : Chronicle past n t.ledger.view) (hs : Sound config s)
    (hn : s.tasks[n]? = some t) (ho : t.nextOp = some (.vms (.upgrade id))) (moved : Bool) :
    Chronicle ((s, .run n c) :: past) n (noteSection t.ledger.view (.upgrade id) moved) := by
  cases moved with
  | false => exact h.same
  | true =>
    obtain ⟨_, hid, ⟨r, hst⟩, _⟩ := requires_of_nextOp hs hn ho
    simp only [noteSection, hst]
    refine ⟨fun hr => (h.refused hr).tail _, by simp, fun id' r' hid' hr => ?_,
      fun id' r' hid' hr => ?_⟩
    · obtain rfl : r = r' := Option.some.inj hr
      obtain ⟨hp, subnet, ha, he⟩ := h.recorded id' r hid' (by simp [hst, recordOf])
      exact ⟨hp.tail _, subnet, ha.tail _, he⟩
    · obtain rfl : id = id' := Option.some.inj (hid.symm.trans hid')
      obtain rfl : r = r' := by simpa using hr
      exact ⟨s, .now hn ho, placed_creating hs.protocol (siteOf_task hn) hid hst⟩

theorem chronicle_section (h : Chronicle past n t.ledger.view) (hs : Sound config s)
    (hn : s.tasks[n]? = some t) {sec : VmRegistry.Section} (ho : t.nextOp = some (.vms sec))
    (reply : sec.Reply) :
    Chronicle ((s, .run n c) :: past) n (noteSection t.ledger.view sec reply) := by
  cases sec with
  | reserve id r => exact chronicle_reserve h hs hn ho reply
  | upgrade id => exact chronicle_upgrade h hs hn ho reply
  | remove id =>
    cases reply with
    | none => exact h.same
    | some entry =>
      exact h.keep rfl rfl (by simp [noteSection]) (by simp [noteSection])
        (by simp [noteSection, recordOf]) (by simp [noteSection])
  | discard id =>
    exact h.keep rfl rfl (by simp [noteSection]) (by simp [noteSection])
      (by simp [noteSection, recordOf]) (by simp [noteSection])
  | take id =>
    obtain ⟨_, hnone, _⟩ := requires_of_nextOp hs hn ho
    cases reply with
    | error e => exact h.same
    | ok r =>
      exact ⟨fun hr => (h.refused hr).tail _, by simp [noteSection, hnone],
        by simp [noteSection, hnone], by simp [noteSection, hnone]⟩
  | _ => exact h.same

theorem chronicle_tryLock (h : Chronicle past n t.ledger.view) (hs : Sound config s)
    (hn : s.tasks[n]? = some t) {m : Mutex} (ho : t.nextOp = some (.tryLock m)) {acquired : Bool}
    (hexec : exec config n c s.shared (.tryLock m) = some (sh, some acquired)) :
    Chronicle ((s, .run n c) :: past) n (noteView t.ledger.view (.tryLock m) acquired) := by
  have hreq := requires_of_nextOp hs hn ho
  cases acquired with
  | true =>
    cases m with
    | registry => exact h.set .registry true
    | pool => exact h.set .pool true
  | false =>
    cases m with
    | pool => exact h.same
    | registry =>
      obtain ⟨k, hk⟩ : ∃ k, s.shared.locks .registry = some k := by
        refine Option.ne_none_iff_exists'.mp fun hfree => ?_
        simp [exec, hfree] at hexec
      refine ⟨fun _ => ⟨s, k, .now hn ho, hk, ?_⟩, fun i hi hst hslot => ?_, fun id r hid hr => ?_,
        fun id r hid hst => (h.published id r hid hst).tail _⟩
      · rintro rfl
        obtain ⟨v, hv, hheld⟩ := (hs.protocol.holder .registry k).mp hk
        obtain rfl : t.ledger.view = v := Option.some.inj ((siteOf_task hn).symm.trans hv)
        simp [View.holds, hreq.1] at hheld
      · obtain ⟨subnet, ha, he⟩ := h.allocated i hi hst hslot
        exact ⟨subnet, ha.tail _, he⟩
      · obtain ⟨hp, subnet, ha, he⟩ := h.recorded id r hid hr
        exact ⟨hp.tail _, subnet, ha.tail _, he⟩

theorem chronicle_allocate (h : Chronicle past n t.ledger.view) (hn : s.tasks[n]? = some t)
    (ho : t.nextOp = some .allocate) {a : Option SubnetAllocation}
    (hexec : exec config n c s.shared .allocate = some (sh, some a)) :
    Chronicle ((s, .run n c) :: past) n (noteView t.ledger.view .allocate a) := by
  cases a with
  | none => exact h.same
  | some a =>
    obtain ⟨pool, hpool⟩ : ∃ pool, s.shared.subnetPool.allocate = some (a, pool) := by
      simp only [exec] at hexec
      split at hexec
      · simp at hexec
      · rename_i a' pool hpool
        obtain ⟨_, rfl⟩ := by simpa using hexec
        exact ⟨pool, hpool⟩
    refine ⟨fun hr => (h.refused hr).tail _, fun i _ _ hslot => ?_, fun id r hid hr => ?_,
      fun id r hid hst => (h.published id r hid hst).tail _⟩
    · obtain rfl : a.index = i := Option.some.inj hslot
      exact ⟨a, ⟨s, pool, .now hn ho, hpool⟩, rfl⟩
    · obtain ⟨hp, subnet, ha, he⟩ := h.recorded id r hid hr
      exact ⟨hp.tail _, subnet, ha.tail _, he⟩

theorem chronicle_operation (h : Chronicle past n t.ledger.view) (hs : Sound config s)
    (hn : s.tasks[n]? = some t) {o : Op} (ho : t.nextOp = some o) {reply : Reply o}
    (hexec : exec config n c s.shared o = some (sh, some reply)) :
    Chronicle ((s, .run n c) :: past) n (noteView t.ledger.view o reply) := by
  cases o with
  | lock m => exact h.set m true
  | unlock m => exact h.set m false
  | tryLock m => exact chronicle_tryLock h hs hn ho hexec
  | vms sec => exact chronicle_section h hs hn ho reply
  | allocate => exact chronicle_allocate h hn ho hexec
  | release i => exact h.release i
  | newV4 =>
    obtain ⟨_, hst, _, hslot⟩ := requires_of_nextOp hs hn ho
    exact ⟨fun hr => (h.refused hr).tail _, by simp [noteView, hslot],
      by simp [noteView, hst, recordOf], by simp [noteView, hst]⟩
  | build vmId options =>
    cases reply with
    | false => exact h.same
    | true => exact h.keep rfl rfl id (fun _ _ => id) (fun _ => id) fun _ => id
  | dropInstance vmId => exact h.keep rfl rfl id (fun _ _ => id) (fun _ => id) fun _ => id
  | dropLocals => exact h.abandon
  | _ => exact h.same

theorem tracking_chronicle : TaskTracking config lib (fun _ _ => True) unobserved
    (fun _ _ _ => True) (fun past n t _ => Chronicle past n t.ledger.view) where
  others _ _ _ _ _ _ _ h := h.same
  request _ _ _ _ := ⟨(), safe_unobserved _, by simp, by simp, by simp, by simp⟩
  callback _ _ _ _ _ _ _ _ _ _ _ h _ := ⟨(), safe_unobserved _, h.same⟩
  run past s n c r o may exit next l v sh reply hr _ hn hexec h _ _ := by
    have hs := sound_of_reachable (System.Run.reachable hr)
    exact ⟨trivial, chronicle_operation h hs hn rfl hexec⟩
  leave past s n e r o may exit next l v _ _ _ h _ := by
    refine ⟨trivial, ?_⟩
    cases e with
    | dropped => exact h.abandon
    | panicked => exact h.same

/-- The ledger of every task has its history. -/
theorem chronicle_of_run (h : (server config lib).Run past s) (hn : s.tasks[n]? = some t) :
    Chronicle past n t.ledger.view := by
  obtain ⟨_, _, hv⟩ := tracking_chronicle.view_of_run h (fun _ _ => trivial) hn
  exact hv

end Operations

end Warlock.LedgerHistories
