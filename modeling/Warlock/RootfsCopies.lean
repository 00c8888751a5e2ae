import Warlock.CopyDiscipline
import Warlock.FreeSubnets
import Warlock.GuardOutcomes
import Warlock.ReservationLifecycle
import Warlock.SubnetConservation

/-!
# The rootfs copies on the host

Every copy on the host is in the hands of the task that has to remove it, or belongs to a running
VM. Hence the copy of a `create` that has answered an error is gone, unless it had been written
and the placeholder had not been inserted yet; and where nobody is dropped with a copy of its own,
an idle server has the copies of its entries and those of such a `create`.
-/

namespace Warlock.RootfsCopies
open ApplicationState AssociationMaps CopyDiscipline EffectPrograms GuardOutcomes Ledgers
  MachineIntegers RequestCharters ReservationDiscipline ReservationProtocol Server ServerInvariant
  ServerOperations SshSession SubnetAddressing SubnetConservation TaskViews TransitionSystems
  UndisturbedRuns VmHandlers VmIdentifiers
open FreeSubnets (placedRecord)

def RemovesFile : Op → Prop
  | .removeFile _ => True
  | _ => False

instance : DecidablePred RemovesFile := fun o => by
  cases o <;> first | exact .isTrue trivial | exact .isFalse id

/-- Removing a file succeeds. -/
def FilesRemoved (s : State) : Event → Prop
  | .run n c => ∀ o ∈ s.tasks[n]?.bind HandlerTask.nextOp, RemovesFile o → c.succeeds = true
  | _ => True

instance (s : State) : (e : Event) → Decidable (FilesRemoved s e)
  | .run n _ => inferInstanceAs (Decidable (∀ o ∈ s.tasks[n]?.bind HandlerTask.nextOp, _ → _))
  | .request _ | .callback _ _ | .leave _ _ => .isTrue trivial

/-- Nobody is dropped with a copy among its locals, nor a `create` before its placeholder is in. -/
def Unburdened (s : State) : Event → Prop
  | .leave n .dropped => ∀ t ∈ s.tasks[n]?, (∀ path, .rootfs path ∉ t.ledger.held) ∧
      (t.ledger.view.id ≠ none → t.ledger.view.standing ≠ .fresh)
  | _ => True

/-- No `create` gives up what is in its locals, after the networking task has panicked. -/
def KeepsLocals (s : State) : Event → Prop
  | .run n _ => ∀ o ∈ s.tasks[n]?.bind HandlerTask.nextOp, o ≠ .dropLocals
  | _ => True

/-- Task `n` has written a copy, all of it or a part. -/
def Wrote (past : History) (n : ℕ) : Prop :=
  ∃ a c t strategy source dest, (a, Event.run n c) ∈ past ∧ a.tasks[n]? = some t ∧
    t.nextOp = some (.command (.cp strategy source dest)) ∧ (c.succeeds || c.partly) = true

/-- Task `n` may have the copy in hand: it is its own VM's, which does not run yet, or that of a VM
that has been taken out. -/
def Holds (s : State) (n : ℕ) (id : Uuid) : Prop :=
  ∃ v, (siteOf s).task n = some v ∧ (v.id = some id ∧ (∀ r, v.standing ≠ .upgraded r) ∨
    v.id = none ∧ Upgraded (siteOf s) id)

/-- The copies on the host are those in the tasks' hands and those of the running VMs. -/
structure Copies (config : AppConfig) (s : State) (f : ℕ → Copying) : Prop where
  files : ∀ path, path ∈ s.shared.host.files ↔ ∃ id,
    path = rootfsPath config.jailer.vmImagesDir id ∧
      ((∃ n, (f n).hand = some id) ∨ ∃ r, s.shared.vms.lookup id = some (.running r))
  unique : ∀ n m id, (f n).hand = some id → (f m).hand = some id → n = m
  apart : ∀ n id r, (f n).hand = some id → s.shared.vms.lookup id ≠ some (.running r)
  held : ∀ n id, (f n).hand = some id → Holds s n id

variable {config : AppConfig} {lib : Libraries} {past : History} {s s' : State} {n k : ℕ}
  {t t' : HandlerTask} {v : Copying} {f : ℕ → Copying} {id : Uuid} {e : Event} {o : Op} {c : Choice}
  {sh : Shared} {reply : Reply o} {l : Standpoint}

section Holders

theorem upgraded_kept (hs : Sound config s) (he : step config lib s e = some s')
    (h : Upgraded (siteOf s) id) : Upgraded (siteOf s') id := by
  rcases hs.move he (.inl trivial) with hm | hsame
  · exact h.move hm
  · exact hsame ▸ h

/-- Who may have a copy in hand still may after a step of task `n` in which `n` neither draws an
identifier nor publishes its VM. -/
theorem Holds.set (h : Holds s k id) (hs : Sound config s) (hn : s.tasks[n]? = some t)
    (he : step config lib s e = some ⟨sh, s.tasks.set n t'⟩)
    (hown : k = n → t'.ledger.view.id = t.ledger.view.id ∧
      ((∀ r, t.ledger.view.standing ≠ .upgraded r) → ∀ r, t'.ledger.view.standing ≠ .upgraded r)) :
    Holds ⟨sh, s.tasks.set n t'⟩ k id := by
  obtain ⟨v, hk, hv⟩ := h
  have hupgraded : Upgraded (siteOf s) id → Upgraded (siteOf ⟨sh, s.tasks.set n t'⟩) id :=
    upgraded_kept hs he
  by_cases hkn : k = n
  · subst hkn
    obtain rfl : t.ledger.view = v := Option.some.inj ((siteOf_task hn).symm.trans hk)
    obtain ⟨hid, hst⟩ := hown rfl
    refine ⟨t'.ledger.view, by simp [siteOf_set hn], ?_⟩
    rw [hid]
    exact hv.imp (And.imp_right hst) (And.imp_right hupgraded)
  · exact ⟨v, by simpa [siteOf_set hn, hkn] using hk, hv.imp_right (And.imp_right hupgraded)⟩

theorem Holds.request {request : Request} {t : HandlerTask} (h : Holds s k id) (hs : Sound config s)
    (he : step config lib s (.request request) = some { s with tasks := s.tasks ++ [t] }) :
    Holds { s with tasks := s.tasks ++ [t] } k id := by
  obtain ⟨v, hk, hv⟩ := h
  have hlt : k ≠ s.tasks.length := by
    rintro rfl
    simp [siteOf] at hk
  exact ⟨v, by simpa [siteOf_request, hlt] using hk,
    hv.imp_right (And.imp_right (upgraded_kept hs he))⟩

/-- Only its publication makes a task's VM run. -/
theorem not_upgraded_noteView (ho : ∀ id, o ≠ .vms (.upgrade id))
    (h : ∀ r, l.standing ≠ .upgraded r) (r : VmResources) :
    (noteView l o reply).standing ≠ .upgraded r := by
  cases o with
  | vms sec =>
    cases sec with
    | upgrade id => exact absurd rfl (ho id)
    | reserve => cases reply <;> simp [noteView, noteSection, h]
    | remove => cases reply <;> simp [noteView, noteSection, h]
    | take => cases reply <;> simp [noteView, noteSection, h]
    | discard => simp [noteView, noteSection]
    | _ => exact h r
  | lock m => simpa [noteView] using h r
  | unlock m => simpa [noteView] using h r
  | tryLock m => cases m <;> cases reply <;> exact h r
  | allocate => cases reply <;> exact h r
  | build => cases reply <;> exact h r
  | release i =>
    simp only [noteView, noteRelease]
    split
    · exact h r
    · split
      · simp
      · exact h r
  | _ => exact h r

end Holders

section Hands

variable {f' : ℕ → Copying}

/-- Nothing has to do with copies or running VMs. -/
theorem Copies.still (h : Copies config s f) (hfiles : s'.shared.host.files = s.shared.host.files)
    (hvms : ∀ id r, s'.shared.vms.lookup id = some (.running r) ↔
      s.shared.vms.lookup id = some (.running r))
    (hhand : ∀ k, (f' k).hand = (f k).hand)
    (hheld : ∀ k id, (f k).hand = some id → Holds s k id → Holds s' k id) :
    Copies config s' f' where
  files path := by
    rw [hfiles, h.files]
    simp only [hhand, hvms]
  unique k m id hk hm := h.unique k m id (hhand k ▸ hk) (hhand m ▸ hm)
  apart k id r hk hr := h.apart k id r (hhand k ▸ hk) ((hvms id r).mp hr)
  held k id hk := hheld k id (hhand k ▸ hk) (h.held k id (hhand k ▸ hk))

/-- Who has what in hand after task `n` has moved. -/
theorem hand_update (h : (Function.update f n v k).hand = some id) :
    k = n ∧ v.hand = some id ∨ k ≠ n ∧ (f k).hand = some id := by
  by_cases hkn : k = n
  · subst hkn
    exact .inl ⟨rfl, by simpa using h⟩
  · exact .inr ⟨hkn, by simpa [hkn] using h⟩

theorem hand_same (hv : v.hand = (f n).hand) (k : ℕ) :
    (Function.update f n v k).hand = (f k).hand := by
  by_cases hkn : k = n
  · subst hkn
    simpa using hv
  · rw [Function.update_of_ne hkn]

variable (hheld : ∀ k id, k ≠ n → Holds s k id → Holds s' k id)
include hheld

/-- Task `n` writes the copy of a VM that neither runs nor is in other hands. -/
theorem Copies.write (h : Copies config s f) (hv : v.hand = some id)
    (hfiles : s'.shared.host.files = rootfsPath config.jailer.vmImagesDir id :: s.shared.host.files)
    (hvms : s'.shared.vms = s.shared.vms) (hown : ∀ id', (f n).hand = some id' → id' = id)
    (hfree : ∀ k, k ≠ n → (f k).hand ≠ some id)
    (habsent : ∀ r, s.shared.vms.lookup id ≠ some (.running r)) (hholds : Holds s' n id) :
    Copies config s' (Function.update f n v) where
  files path := by
    rw [hfiles, List.mem_cons, h.files, hvms]
    constructor
    · rintro (rfl | ⟨id', rfl, ⟨k, hk⟩ | hr⟩)
      · exact ⟨id, rfl, .inl ⟨n, by simpa using hv⟩⟩
      · by_cases hkn : k = n
        · subst hkn
          exact ⟨id', rfl, .inl ⟨k, by simpa [hown id' hk] using hv⟩⟩
        · exact ⟨id', rfl, .inl ⟨k, by simpa [hkn] using hk⟩⟩
      · exact ⟨id', rfl, .inr hr⟩
    · rintro ⟨id', rfl, ⟨k, hk⟩ | hr⟩
      · rcases hand_update hk with ⟨_, hk⟩ | ⟨_, hk⟩
        · obtain rfl : id = id' := Option.some.inj (hv.symm.trans hk)
          exact .inl rfl
        · exact .inr ⟨id', rfl, .inl ⟨k, hk⟩⟩
      · exact .inr ⟨id', rfl, .inr hr⟩
  unique k m id' hk hm := by
    have hnew {j : ℕ} (hj : j ≠ n) (hjhand : (f j).hand = some id') (hid : v.hand = some id') :
        False := by
      obtain rfl : id = id' := Option.some.inj (hv.symm.trans hid)
      exact hfree j hj hjhand
    rcases hand_update hk with ⟨hkn, hkv⟩ | ⟨hkn, hkf⟩
    · rcases hand_update hm with ⟨hmn, _⟩ | ⟨hmn, hmf⟩
      · exact hkn.trans hmn.symm
      · exact (hnew hmn hmf hkv).elim
    · rcases hand_update hm with ⟨_, hmv⟩ | ⟨_, hmf⟩
      · exact (hnew hkn hkf hmv).elim
      · exact h.unique k m id' hkf hmf
  apart k id' r hk hr := by
    rw [hvms] at hr
    rcases hand_update hk with ⟨_, hkv⟩ | ⟨_, hk⟩
    · obtain rfl : id = id' := Option.some.inj (hv.symm.trans hkv)
      exact habsent r hr
    · exact h.apart k id' r hk hr
  held k id' hk := by
    rcases hand_update hk with ⟨rfl, hkv⟩ | ⟨hkn, hk⟩
    · obtain rfl : id = id' := Option.some.inj (hv.symm.trans hkv)
      exact hholds
    · exact hheld k id' hkn (h.held k id' hk)

/-- Task `n` removes the copy that it has in hand. -/
theorem Copies.remove (h : Copies config s f) (hhand : (f n).hand = some id) (hv : v.hand = none)
    (hfiles : ∀ path, path ∈ s'.shared.host.files ↔
      path ∈ s.shared.host.files ∧ path ≠ rootfsPath config.jailer.vmImagesDir id)
    (hvms : s'.shared.vms = s.shared.vms) : Copies config s' (Function.update f n v) := by
  have hothers {k : ℕ} {id' : Uuid} (hk : (Function.update f n v k).hand = some id') :
      k ≠ n ∧ (f k).hand = some id' := by
    rcases hand_update hk with ⟨_, hk⟩ | hk
    · simp [hv] at hk
    · exact hk
  refine ⟨fun path => ?_, fun k m id' hk hm => h.unique k m id' (hothers hk).2 (hothers hm).2,
    fun k id' r hk hr => h.apart k id' r (hothers hk).2 (hvms ▸ hr),
    fun k id' hk => hheld k id' (hothers hk).1 (h.held k id' (hothers hk).2)⟩
  rw [hfiles, h.files, hvms]
  constructor
  · rintro ⟨⟨id', rfl, ⟨k, hk⟩ | hr⟩, hne⟩
    · have hkn : k ≠ n := by
        rintro rfl
        exact hne (congrArg _ (Option.some.inj (hk.symm.trans hhand)))
      exact ⟨id', rfl, .inl ⟨k, by simpa [hkn] using hk⟩⟩
    · exact ⟨id', rfl, .inr hr⟩
  · rintro ⟨id', rfl, ⟨k, hk⟩ | ⟨r, hr⟩⟩
    · obtain ⟨hkn, hk⟩ := hothers hk
      refine ⟨⟨id', rfl, .inl ⟨k, hk⟩⟩, fun heq => hkn ?_⟩
      obtain rfl := rootfsPath_injective _ heq
      exact h.unique k n id' hk hhand
    · refine ⟨⟨id', rfl, .inr ⟨r, hr⟩⟩, fun heq => ?_⟩
      obtain rfl := rootfsPath_injective _ heq
      exact h.apart n id' r hhand hr

/-- Task `n` passes the copy on to the VM that it makes run. -/
theorem Copies.publish (h : Copies config s f) (hhand : (f n).hand = some id) (hv : v.hand = none)
    (hfiles : s'.shared.host.files = s.shared.host.files)
    (hnow : ∃ r, s'.shared.vms.lookup id = some (.running r))
    (hvms : ∀ id' r, id' ≠ id → (s'.shared.vms.lookup id' = some (.running r) ↔
      s.shared.vms.lookup id' = some (.running r))) : Copies config s' (Function.update f n v) := by
  have hothers {k : ℕ} {id' : Uuid} (hk : (Function.update f n v k).hand = some id') :
      k ≠ n ∧ (f k).hand = some id' := by
    rcases hand_update hk with ⟨_, hk⟩ | hk
    · simp [hv] at hk
    · exact hk
  refine ⟨fun path => ?_, fun k m id' hk hm => h.unique k m id' (hothers hk).2 (hothers hm).2,
    fun k id' r hk hr => ?_,
    fun k id' hk => hheld k id' (hothers hk).1 (h.held k id' (hothers hk).2)⟩
  · rw [hfiles, h.files]
    refine exists_congr fun id' => and_congr_right fun _ => ?_
    by_cases hid : id' = id
    · subst hid
      exact iff_of_true (.inl ⟨n, hhand⟩) (.inr hnow)
    · apply or_congr
      · constructor
        · rintro ⟨k, hk⟩
          have hkn : k ≠ n := by
            rintro rfl
            exact hid (Option.some.inj (hk.symm.trans hhand))
          exact ⟨k, by simpa [hkn] using hk⟩
        · rintro ⟨k, hk⟩
          exact ⟨k, (hothers hk).2⟩
      · exact exists_congr fun r => (hvms id' r hid).symm
  · obtain ⟨hkn, hk⟩ := hothers hk
    have hid : id' ≠ id := by
      rintro rfl
      exact hkn (h.unique k n id' hk hhand)
    exact h.apart k id' r hk ((hvms id' r hid).mp hr)

/-- Task `n` takes a running VM out. -/
theorem Copies.take (h : Copies config s f) (hhand : (f n).hand = none) (hv : v.hand = some id)
    (hfiles : s'.shared.host.files = s.shared.host.files)
    (hrunning : ∃ r, s.shared.vms.lookup id = some (.running r))
    (hvms : ∀ id' r, s'.shared.vms.lookup id' = some (.running r) ↔
      id' ≠ id ∧ s.shared.vms.lookup id' = some (.running r)) (hholds : Holds s' n id) :
    Copies config s' (Function.update f n v) := by
  have hothers {k : ℕ} {id' : Uuid} (hk : (Function.update f n v k).hand = some id') :
      k = n ∧ id = id' ∨ k ≠ n ∧ id' ≠ id ∧ (f k).hand = some id' := by
    rcases hand_update hk with ⟨hkn, hk⟩ | ⟨hkn, hk⟩
    · exact .inl ⟨hkn, Option.some.inj (hv.symm.trans hk)⟩
    · refine .inr ⟨hkn, ?_, hk⟩
      rintro rfl
      obtain ⟨r, hr⟩ := hrunning
      exact h.apart k id' r hk hr
  refine ⟨fun path => ?_, fun k m id' hk hm => ?_, fun k id' r hk hr => ?_, fun k id' hk => ?_⟩
  · rw [hfiles, h.files]
    refine exists_congr fun id' => and_congr_right fun _ => ?_
    by_cases hid : id' = id
    · subst hid
      exact iff_of_true (.inr hrunning) (.inl ⟨n, by simpa using hv⟩)
    · apply or_congr
      · constructor
        · rintro ⟨k, hk⟩
          have hkn : k ≠ n := by
            rintro rfl
            simp [hhand] at hk
          exact ⟨k, by simpa [hkn] using hk⟩
        · rintro ⟨k, hk⟩
          rcases hothers hk with ⟨_, heq⟩ | ⟨_, _, hk⟩
          · exact absurd heq.symm hid
          · exact ⟨k, hk⟩
      · exact exists_congr fun r => by rw [hvms, and_iff_right hid]
  · rcases hothers hk with ⟨rfl, rfl⟩ | ⟨_, hid, hk⟩
    · rcases hothers hm with ⟨rfl, _⟩ | ⟨_, hid, _⟩
      · rfl
      · exact absurd rfl hid
    · rcases hothers hm with ⟨_, rfl⟩ | ⟨_, _, hm⟩
      · exact absurd rfl hid
      · exact h.unique k m id' hk hm
  · obtain ⟨hid, hr⟩ := (hvms id' r).mp hr
    rcases hothers hk with ⟨_, rfl⟩ | ⟨_, _, hk⟩
    · exact hid rfl
    · exact h.apart k id' r hk hr
  · rcases hothers hk with ⟨rfl, rfl⟩ | ⟨hkn, _, hk⟩
    · exact hholds
    · exact hheld k id' hkn (h.held k id' hk)

end Hands

section Ties

/-- The view of a task fits its part in the reservation protocol. -/
structure Agrees (l : Standpoint) (v : Copying) : Prop where
  id : v.id = l.id
  fresh : v.inserted = false ↔ l.standing = .fresh
  removed : v.removed = true → l.standing = .gone
  gone : l.standing = .gone → v.hand = none ∨ v.removed = true
  passed : v.passed = true → ∃ r, l.standing = .upgraded r

/-- It also fits what the task has done. -/
structure Tied (config : AppConfig) (past : History) (n : ℕ) (l : Standpoint) (v : Copying) : Prop
    extends Agrees l v where
  wrote : v.wrote = true ↔ Wrote past n
  placed : v.inserted = true ↔ ∃ id r, Inserted config past n id r
  drawn : ∀ id r, Inserted config past n id r → l.id = some id

theorem Agrees.inserted_of (h : Agrees l v) (hst : l.standing ≠ .fresh) :
    v.inserted = true := by
  by_contra hne
  exact hst (h.fresh.mp (by simpa using hne))

theorem Agrees.removed_of (h : Agrees l v) (hst : l.standing ≠ .gone) : v.removed = false := by
  by_contra hne
  exact hst (h.removed (by simpa using hne))

theorem Agrees.passed_of (h : Agrees l v) (hst : ∀ r, l.standing ≠ .upgraded r) :
    v.passed = false := by
  by_contra hne
  obtain ⟨r, hr⟩ := h.passed (by simpa using hne)
  exact hst r hr

/-- A step that has nothing to do with entries. -/
theorem Agrees.same {l' : Standpoint} (h : Agrees l v) (hid : l'.id = l.id)
    (hst : l'.standing = l.standing) : Agrees l' v :=
  ⟨h.id.trans hid.symm, hst ▸ h.fresh, hst ▸ h.removed, hst ▸ h.gone, hst ▸ h.passed⟩

theorem wrote_other (he : ∀ c, e ≠ .run n c) : Wrote ((s, e) :: past) n ↔ Wrote past n := by
  constructor
  · rintro ⟨a, c, t, strategy, source, dest, hmem, hrest⟩
    rcases List.mem_cons.mp hmem with heq | hmem
    · exact absurd (congrArg Prod.snd heq).symm (he c)
    · exact ⟨a, c, t, strategy, source, dest, hmem, hrest⟩
  · rintro ⟨a, c, t, strategy, source, dest, hmem, hrest⟩
    exact ⟨a, c, t, strategy, source, dest, .tail _ hmem, hrest⟩

theorem wrote_run (hn : s.tasks[n]? = some t) (ho : t.nextOp = some o) :
    Wrote ((s, .run n c) :: past) n ↔
      (∃ strategy source dest, o = .command (.cp strategy source dest)) ∧
        (c.succeeds || c.partly) = true ∨ Wrote past n := by
  constructor
  · rintro ⟨a, c', t', strategy, source, dest, hmem, hn', ho', hc⟩
    rcases List.mem_cons.mp hmem with heq | hmem
    · obtain ⟨rfl, he⟩ := Prod.mk.inj heq
      obtain ⟨_, rfl⟩ : n = n ∧ c' = c := by simpa using he
      obtain rfl := Option.some.inj (hn.symm.trans hn')
      exact .inl ⟨⟨strategy, source, dest, Option.some.inj (ho.symm.trans ho')⟩, hc⟩
    · exact .inr ⟨a, c', t', strategy, source, dest, hmem, hn', ho', hc⟩
  · rintro (⟨⟨strategy, source, dest, rfl⟩, hc⟩ | ⟨a, c', t', strategy, source, dest, hmem, hrest⟩)
    · exact ⟨s, c, t, strategy, source, dest, .head _, hn, ho, hc⟩
    · exact ⟨a, c', t', strategy, source, dest, .tail _ hmem, hrest⟩

theorem inserted_other {r : VmResources} (he : ∀ c, e ≠ .run n c) :
    Inserted config ((s, e) :: past) n id r ↔ Inserted config past n id r :=
  exists_congr fun _ => and_congr_left fun _ => performed_other he

theorem inserted_run {r : VmResources} (hn : s.tasks[n]? = some t) (ho : t.nextOp = some o) :
    Inserted config ((s, .run n c) :: past) n id r ↔ o = .vms (.reserve id r) ∧
      (VmRegistry.reserve config.capacity id r s.shared.vms).2 = .ok () ∨
        Inserted config past n id r := by
  constructor
  · rintro ⟨a, ha, hok⟩
    rcases (performed_run hn ho).mp ha with ⟨rfl, hop⟩ | ha
    · exact .inl ⟨hop.symm, hok⟩
    · exact .inr ⟨a, ha, hok⟩
  · rintro (⟨rfl, hok⟩ | ⟨a, ha, hok⟩)
    · exact ⟨s, .now hn ho, hok⟩
    · exact ⟨a, ha.tail _, hok⟩

theorem Tied.other (h : Tied config past n l v) (he : ∀ c, e ≠ .run n c) :
    Tied config ((s, e) :: past) n l v where
  toAgrees := h.toAgrees
  wrote := h.wrote.trans (wrote_other he).symm
  placed := h.placed.trans (exists₂_congr fun _ _ => (inserted_other he).symm)
  drawn id r hr := h.drawn id r ((inserted_other he).mp hr)

/-- A step that neither writes a copy nor inserts a placeholder. -/
theorem Tied.quiet {l' : Standpoint} {v' : Copying} (h : Tied config past n l v)
    (hn : s.tasks[n]? = some t) (ho : t.nextOp = some o)
    (hcp : ∀ strategy source dest, o ≠ .command (.cp strategy source dest))
    (hreserve : ∀ id r, o ≠ .vms (.reserve id r)) (hagrees : Agrees l' v')
    (hw : v'.wrote = v.wrote) (hi : v'.inserted = v.inserted)
    (hdrawn : ∀ id, l.id = some id → l'.id = some id) :
    Tied config ((s, .run n c) :: past) n l' v' := by
  have hinserted (id : Uuid) (r : VmResources) :
      Inserted config ((s, .run n c) :: past) n id r ↔ Inserted config past n id r := by
    rw [inserted_run hn ho, or_iff_right fun hr => hreserve id r hr.1]
  have hwrote : Wrote ((s, .run n c) :: past) n ↔ Wrote past n := by
    rw [wrote_run hn ho]
    exact or_iff_right fun ⟨⟨strategy, source, dest, hop⟩, _⟩ => hcp strategy source dest hop
  refine ⟨hagrees, ?_, ?_, fun id r hr => ?_⟩
  · rw [hw, hwrote]
    exact h.wrote
  · rw [hi, h.placed]
    exact exists₂_congr fun id r => (hinserted id r).symm
  · exact hdrawn id (h.drawn id r ((hinserted id r).mp hr))

/-- A step that has nothing to do with copies and entries. -/
theorem Tied.same {l' : Standpoint} {v' : Copying} (h : Tied config past n l v)
    (hn : s.tasks[n]? = some t) (ho : t.nextOp = some o)
    (hcp : ∀ strategy source dest, o ≠ .command (.cp strategy source dest))
    (hreserve : ∀ id r, o ≠ .vms (.reserve id r)) (hv : v' = v) (hid : l'.id = l.id)
    (hst : l'.standing = l.standing) : Tied config ((s, .run n c) :: past) n l' v' := by
  subst hv
  exact h.quiet hn ho hcp hreserve (h.toAgrees.same hid hst) rfl rfl fun id hl => hid.trans hl

theorem Tied.write (h : Tied config past n l v) (hn : s.tasks[n]? = some t)
    {strategy : CopyStrategy} {source dest : String}
    (ho : t.nextOp = some (.command (.cp strategy source dest))) (hfresh : v.inserted = false)
    (out : Option RustText.Text) : Tied config ((s, .run n c) :: past) n l
      (noteCopy v c (.command (.cp strategy source dest)) out) := by
  have hinserted (id : Uuid) (r : VmResources) :
      Inserted config ((s, .run n c) :: past) n id r ↔ Inserted config past n id r := by
    rw [inserted_run hn ho, or_iff_right fun hr => by simp at hr]
  have hplaced : v.inserted = true ↔ ∃ id r, Inserted config ((s, .run n c) :: past) n id r :=
    h.placed.trans (exists₂_congr fun id r => (hinserted id r).symm)
  have hdrawn (id : Uuid) (r : VmResources) (hr : Inserted config ((s, .run n c) :: past) n id r) :
      l.id = some id := h.drawn id r ((hinserted id r).mp hr)
  have hgone (hand : Option Uuid) (hst : l.standing = .gone) : hand = none ∨ v.removed = true := by
    rw [h.fresh.mp hfresh] at hst
    cases hst
  simp only [noteCopy]
  split
  · rename_i hc
    refine ⟨⟨h.id, h.fresh, h.removed, hgone v.id, h.passed⟩, ?_, hplaced, hdrawn⟩
    exact iff_of_true rfl ((wrote_run hn ho).mpr (.inl ⟨⟨strategy, source, dest, rfl⟩, hc⟩))
  · rename_i hc
    refine ⟨h.toAgrees, ?_, hplaced, hdrawn⟩
    rw [wrote_run hn ho, or_iff_right fun hw => hc hw.2]
    exact h.wrote

theorem Tied.reserve {r : VmResources} (h : Tied config past n l v) (hn : s.tasks[n]? = some t)
    (ho : t.nextOp = some (.vms (.reserve id r)))
    (hreq : sectionRequires config l (.reserve id r)) : Tied config ((s, .run n c) :: past) n
      (noteSection l (.reserve id r) (VmRegistry.reserve config.capacity id r s.shared.vms).2)
      (noteCopy v c (.vms (.reserve id r))
        (VmRegistry.reserve config.capacity id r s.shared.vms).2) := by
  obtain ⟨hid, hst, _⟩ := hreq
  have hwrote : v.wrote = true ↔ Wrote ((s, .run n c) :: past) n := by
    rw [wrote_run hn ho, or_iff_right fun hw => by simp at hw]
    exact h.wrote
  cases hreply : (VmRegistry.reserve config.capacity id r s.shared.vms).2 with
  | error e =>
    have hinserted (id' : Uuid) (r' : VmResources) :
        Inserted config ((s, .run n c) :: past) n id' r' ↔ Inserted config past n id' r' := by
      rw [inserted_run hn ho]
      refine or_iff_right fun hr => ?_
      obtain ⟨hop, hok⟩ := hr
      obtain ⟨rfl, rfl⟩ : id = id' ∧ r = r' := by simpa using hop
      simp [hreply] at hok
    exact ⟨h.toAgrees, hwrote, h.placed.trans (exists₂_congr fun id r => (hinserted id r).symm),
      fun id r hr => h.drawn id r ((hinserted id r).mp hr)⟩
  | ok _ =>
    have hremoved : v.removed = false := h.removed_of (by simp [hst])
    have hpassed : v.passed = false := h.passed_of (by simp [hst])
    refine ⟨⟨h.id, by simp [noteCopy, noteSection], by simp [noteCopy, hremoved],
      by simp [noteSection], by simp [noteCopy, hpassed]⟩, hwrote, ?_, fun id' r' hr => ?_⟩
    · exact iff_of_true rfl ⟨id, r, (inserted_run hn ho).mpr (.inl ⟨rfl, hreply⟩)⟩
    · rcases (inserted_run hn ho).mp hr with ⟨hop, _⟩ | hr
      · obtain ⟨rfl, rfl⟩ : id = id' ∧ r = r' := by simpa using hop
        exact hid
      · exact h.drawn id' r' hr

theorem Tied.step (h : Tied config past n t.ledger.view v) (hn : s.tasks[n]? = some t)
    (ho : t.nextOp = some o) (hexec : exec config n c s.shared o = some (sh, some reply))
    (hreq : requires config o t.ledger.view) (hcopy : copyRequires config o v)
    (hallow : allows config o c reply t.ledger.view)
    (hanonymous : t.ledger.view.id = none → t.ledger.view.standing = .fresh) :
    Tied config ((s, .run n c) :: past) n (noteView t.ledger.view o reply)
      (noteCopy v c o reply) := by
  cases o with
  | lock m => exact h.same hn ho (by simp) (by simp) rfl (by simp [noteView]) (by simp [noteView])
  | unlock m => exact h.same hn ho (by simp) (by simp) rfl (by simp [noteView]) (by simp [noteView])
  | tryLock m =>
    cases m <;> cases reply <;> exact h.same hn ho (by simp) (by simp) rfl rfl rfl
  | allocate => cases reply <;> exact h.same hn ho (by simp) (by simp) rfl rfl rfl
  | build id options => cases reply <;> exact h.same hn ho (by simp) (by simp) rfl rfl rfl
  | newV4 =>
    obtain ⟨hnone, _⟩ := hreq
    exact h.quiet hn ho (by simp) (by simp) ⟨rfl, h.fresh, h.removed, h.gone, h.passed⟩ rfl rfl
      fun id hid => by simp [hnone] at hid
  | release i =>
    have hid : (noteRelease t.ledger.view i).id = t.ledger.view.id := id_noteRelease
    have hst : (noteRelease t.ledger.view i).standing = t.ledger.view.standing ∨
        ∃ r, t.ledger.view.standing = .creating r ∧
          (noteRelease t.ledger.view i).standing = .released r := by
      unfold noteRelease
      split
      · exact .inl rfl
      · split
        · rename_i r hst
          exact .inr ⟨r, hst, rfl⟩
        · exact .inl rfl
    rcases hst with hst | ⟨r, hst, hst'⟩
    · exact h.same hn ho (by simp) (by simp) rfl hid hst
    · have hinserted : v.inserted = true := h.inserted_of (by simp [hst])
      have hremoved : v.removed = false := h.removed_of (by simp [hst])
      have hpassed : v.passed = false := h.passed_of (by simp [hst])
      refine h.quiet hn ho (by simp) (by simp) ⟨h.id.trans hid.symm, ?_, ?_, ?_, ?_⟩ rfl rfl
        fun id hl => hid.trans hl
      · simp [noteView, noteCopy, hst', hinserted]
      · simp [noteCopy, hremoved]
      · simp [noteView, hst']
      · simp [noteCopy, hpassed]
  | command cmd =>
    cases cmd with
    | cp strategy source dest => exact h.write hn ho hcopy.1 reply
    | _ => exact h.same hn ho (by simp) (by simp) rfl rfl rfl
  | removeFile path =>
    cases reply with
    | false => exact h.same hn ho (by simp) (by simp) rfl rfl rfl
    | true =>
      exact h.quiet hn ho (by simp) (by simp)
        ⟨h.id, h.fresh, h.removed, fun _ => .inl rfl, h.passed⟩ rfl rfl fun _ hid => hid
  | vms sec =>
    obtain ⟨_, hreq⟩ := hreq
    cases sec with
    | reserve id r =>
      obtain ⟨_, rfl⟩ := by simpa [exec] using hexec
      exact h.reserve hn ho hreq
    | upgrade id =>
      obtain ⟨_, ⟨r, hst⟩, _⟩ := hreq
      obtain rfl : reply = true := hallow
      have hinserted : v.inserted = true := h.inserted_of (by simp [hst])
      have hremoved : v.removed = false := h.removed_of (by simp [hst])
      have hst' : (noteSection t.ledger.view (.upgrade id) true).standing = .upgraded r := by
        simp [noteSection, hst]
      refine h.quiet hn ho (by simp) (by simp) ⟨h.id.trans id_noteSection.symm, ?_, ?_, ?_, ?_⟩ rfl
        rfl fun _ hid => id_noteSection.trans hid
      · simp [noteView, noteCopy, hst', hinserted]
      · simp [noteCopy, hremoved]
      · simp [noteView, hst']
      · exact fun _ => ⟨r, hst'⟩
    | remove id =>
      obtain ⟨r, hst, rfl⟩ := hallow
      have hinserted : v.inserted = true := h.inserted_of (by simp [hst])
      have hpassed : v.passed = false := h.passed_of (by simp [hst])
      refine h.quiet hn ho (by simp) (by simp) ⟨h.id, ?_, fun _ => rfl, fun _ => .inr rfl, ?_⟩ rfl
        rfl fun _ hid => hid
      · simp [noteView, noteSection, noteCopy, hinserted]
      · simp [noteCopy, hpassed]
    | take id =>
      cases reply with
      | error e => exact h.same hn ho (by simp) (by simp) rfl rfl rfl
      | ok r =>
        have hfresh := hanonymous hreq.1
        refine h.quiet hn ho (by simp) (by simp) ⟨h.id, h.fresh, h.removed, ?_, h.passed⟩ rfl rfl
          fun _ hid => hid
        simp [noteView, noteSection, hfresh]
    | discard id =>
      have hst : t.ledger.view.standing ≠ .fresh ∧ ∀ r, t.ledger.view.standing ≠ .upgraded r := by
        obtain ⟨_, hgone | ⟨_, _, r, hst | hst⟩⟩ := hreq
        · simp [hgone]
        · simp [hst]
        · simp [hst]
      have hinserted : v.inserted = true := h.inserted_of hst.1
      have hpassed : v.passed = false := h.passed_of hst.2
      refine h.quiet hn ho (by simp) (by simp) ⟨h.id, ?_, fun _ => rfl, fun _ => .inr rfl, ?_⟩ rfl
        rfl fun _ hid => hid
      · simp [noteView, noteSection, noteCopy, hinserted]
      · simp [noteCopy, hpassed]
    | _ => exact h.same hn ho (by simp) (by simp) rfl rfl rfl
  | _ => exact h.same hn ho (by simp) (by simp) rfl rfl rfl

/-- A copy in hand is among the locals or that of the placeholder, unless the `create` has lost its
locals before its placeholder was in. -/
def Carried (config : AppConfig) (lossy : Prop) (l : Ledger) (v : Copying) : Prop :=
  ∀ id, v.hand = some id → .rootfs (rootfsPath config.jailer.vmImagesDir id) ∈ l.held ∨
    (placedRecord l.view.standing).isSome = true ∨
    lossy ∧ l.view.standing = .fresh ∧ l.view.id ≠ none

variable {lossy : Prop}

theorem Carried.keep {l l' : Ledger} {v' : Copying} (h : Carried config lossy l v)
    (hhand : v'.hand = v.hand) (hid : l'.view.id = l.view.id)
    (hplaced : placedRecord l'.view.standing = placedRecord l.view.standing)
    (hfresh : l.view.standing = .fresh → l'.view.standing = .fresh)
    (hheld : ∀ path, .rootfs path ∈ l.held → .rootfs path ∈ l'.held) :
    Carried config lossy l' v' := by
  intro id hv
  rw [hid, hplaced]
  exact (h id (hhand ▸ hv)).imp (hheld _) (Or.imp_right (And.imp_right (And.imp_left hfresh)))

theorem Carried.empty {l : Ledger} (h : v.hand = none) : Carried config lossy l v := by
  intro id hv
  simp [h] at hv

theorem placedRecord_noteRelease {i : U16} :
    placedRecord (noteRelease l i).standing = placedRecord l.standing := by
  unfold noteRelease
  split
  · rfl
  · split
    · rename_i r hst
      simp [hst, placedRecord]
    · rfl

theorem fresh_noteRelease {i : U16} (h : l.standing = .fresh) :
    (noteRelease l i).standing = .fresh := by
  unfold noteRelease
  split
  · exact h
  · simp [h]

theorem mem_lose {held : List Resource} {x y : Resource} (h : x ∈ held) (hne : x ≠ y) :
    x ∈ lose held y := by simp [lose, h, hne]

theorem Carried.step {l : Ledger} (h : Carried config lossy l v) (hagrees : Agrees l.view v)
    (hreq : requires config o l.view) (hcopy : copyRequires config o v)
    (hallow : copyAllows config o c reply v) (hlocals : lossy ∨ o ≠ .dropLocals)
    (hown : ∀ id id', l.view.id = some id → v.hand = some id' → id' = id) :
    Carried config lossy (l.note c o reply) (noteCopy v c o reply) := by
  have hsame {l' : Ledger} (hid : l'.view.id = l.view.id)
      (hst : l'.view.standing = l.view.standing) (hheld : l'.held = l.held) :
      Carried config lossy l' v :=
    h.keep rfl hid (by rw [hst]) (fun hfresh => hst.trans hfresh) fun _ hx => hheld ▸ hx
  cases o with
  | newV4 => exact .empty hcopy
  | lock m => exact hsame (View.id_set _ m true) (View.standing_set _ m true) rfl
  | unlock m => exact hsame (View.id_set _ m false) (View.standing_set _ m false) rfl
  | tryLock m => cases m <;> cases reply <;> exact hsame rfl rfl rfl
  | allocate => cases reply <;> exact hsame rfl rfl rfl
  | build id options => cases reply <;> exact hsame rfl rfl rfl
  | release i =>
    exact h.keep rfl id_noteRelease placedRecord_noteRelease fresh_noteRelease fun _ hx => hx
  | removeFile path =>
    obtain rfl : reply = true := hallow
    exact .empty rfl
  | dropLocals =>
    obtain ⟨hid, hinserted⟩ := hcopy
    have hlost : lossy := hlocals.resolve_right fun hne => hne rfl
    exact fun _ _ => .inr (.inr ⟨hlost, hagrees.fresh.mp hinserted, hagrees.id ▸ hid⟩)
  | command cmd =>
    cases cmd with
    | cp strategy source dest =>
      obtain ⟨_, id, hid, rfl⟩ := hcopy
      cases hc : c.succeeds || c.partly with
      | false =>
        refine h.keep (by simp [noteCopy, hc]) rfl rfl (fun hst => hst) fun _ hx => ?_
        simpa [Ledger.note, noteHeld, noteCommand, hc] using hx
      | true =>
        intro id' hv
        obtain rfl : id = id' := by simpa [noteCopy, hc, hid] using hv
        exact .inl (by simp [Ledger.note, noteHeld, noteCommand, hc, gain])
    | _ =>
      refine h.keep rfl rfl rfl (fun hst => hst) fun path hx => ?_
      simp only [Ledger.note, noteHeld, noteCommand]
      try split
      all_goals first | exact hx | exact .tail _ hx | exact mem_lose hx (by simp)
  | vms sec =>
    obtain ⟨_, hreq⟩ := hreq
    cases sec with
    | reserve id r =>
      cases reply with
      | error e => exact hsame rfl rfl rfl
      | ok _ => exact fun _ _ => .inr (.inl rfl)
    | upgrade id =>
      obtain rfl : reply = true := hallow
      exact .empty rfl
    | remove id =>
      obtain ⟨r, rfl, hfits⟩ := hallow
      intro id' hv
      obtain rfl := hown id id' hreq.1 hv
      exact .inl (by simp [Ledger.note, noteHeld, resourcesOf, hfits.rootfs])
    | take id =>
      cases reply with
      | error e => exact hsame rfl rfl rfl
      | ok r =>
        have hfits : RecordFits config id r := hallow
        rintro _ ⟨⟩
        exact .inl (by simp [Ledger.note, noteHeld, resourcesOf, hfits.rootfs])
    | discard id =>
      rcases hcopy with hhand | hremoved
      · exact .empty hhand
      · exact hsame rfl (hagrees.removed hremoved).symm rfl
    | _ => exact hsame rfl rfl rfl
  | _ => exact hsame rfl rfl rfl

end Ties

section Steps

/-- What the server promises of a reply is what the handlers rely on. -/
theorem copyAllows_of_step (hs : Sound config s) (hok : FilesRemoved s (.run n c))
    (hn : s.tasks[n]? = some t) (ho : t.nextOp = some o)
    (hexec : exec config n c s.shared o = some (sh, some reply))
    (htied : Tied config past n t.ledger.view (f n)) (hcopies : Copies config s f)
    (hallow : allows config o c reply t.ledger.view) : copyAllows config o c reply (f n) := by
  have hreq := requires_of_nextOp hs hn ho
  cases o with
  | command cmd =>
    simp only [exec] at hexec
    split at hexec
    · simp at hexec
    · rename_i host r hrun
      obtain ⟨_, rfl⟩ := by simpa using hexec
      rw [FreeSubnets.run_reply hrun]
      change Option.isSome (if c.succeeds = true then some c.stdout else none) = c.succeeds
      cases c.succeeds <;> rfl
  | removeFile path =>
    have hsucceeds : c.succeeds = true := hok (.removeFile path) (by simp [hn, ho]) trivial
    obtain ⟨_, rfl⟩ := by simpa [exec, hsucceeds] using hexec
    rfl
  | vms sec =>
    cases sec with
    | upgrade id => exact hallow
    | take id =>
      cases reply with
      | ok r => exact hallow
      | error e => trivial
    | remove id =>
      obtain ⟨_, hid, _⟩ := hreq
      obtain ⟨r, hst, rfl⟩ := hallow
      exact ⟨r, rfl, hs.protocol.fits id _ (placed_creating hs.protocol (siteOf_task hn) hid hst)⟩
    | get id =>
      intro hid hhand hinserted
      obtain ⟨hplaced, hfits⟩ := hallow
      have hplaced := hplaced (htied.id.symm.trans hid)
      obtain ⟨u, hu, hown | ⟨hnone, _⟩⟩ := hcopies.held n id hhand
      · obtain rfl : t.ledger.view = u := Option.some.inj ((siteOf_task hn).symm.trans hu)
        cases hst : t.ledger.view.standing with
        | fresh => simp [htied.fresh.mpr hst] at hinserted
        | upgraded r => exact absurd hst (hown.2 r)
        | gone =>
          rw [hst] at hplaced
          rcases htied.gone hst with hnone | hremoved
          · simp [hnone] at hhand
          · exact .inl ⟨hremoved, hplaced⟩
        | creating r =>
          rw [hst] at hplaced
          exact .inr ⟨htied.removed_of (by simp [hst]), r, hplaced, hfits _ hplaced⟩
        | released r =>
          rw [hst] at hplaced
          exact .inr ⟨htied.removed_of (by simp [hst]), r, hplaced, hfits _ hplaced⟩
      · obtain rfl : t.ledger.view = u := Option.some.inj ((siteOf_task hn).symm.trans hu)
        simp [htied.id.symm.trans hid] at hnone
    | _ => trivial
  | _ => trivial

theorem files_run {host host' : Host} {cmd : Command} {out : Option RustText.Text}
    (h : host.run c cmd = some (host', out))
    (hcp : ∀ strategy source dest, cmd ≠ .cp strategy source dest) : host'.files = host.files := by
  cases cmd with
  | cp strategy source dest => exact absurd rfl (hcp strategy source dest)
  | deleteRule chain handle =>
    cases chain <;> simp only [Host.run] at h <;> split at h <;> simp_all <;> rw [← h.1]
  | _ =>
    simp only [Host.run] at h
    repeat' split at h
    all_goals simp_all
    all_goals rw [← h.1]

/-- Only `cp` and the removal of a file change which files there are. -/
theorem files_exec (hexec : exec config n c s.shared o = some (sh, some reply))
    (hcp : ∀ strategy source dest, o ≠ .command (.cp strategy source dest))
    (hrm : ∀ path, o ≠ .removeFile path) : sh.host.files = s.shared.host.files := by
  cases o with
  | command cmd =>
    simp only [exec] at hexec
    split at hexec
    · simp at hexec
    · rename_i host out hrun
      obtain ⟨rfl, _⟩ := by simpa using hexec
      exact files_run hrun fun strategy source dest hcmd =>
        hcp strategy source dest (congrArg Op.command hcmd)
  | removeFile path => exact absurd rfl (hrm path)
  | sdk id call => cases call <;> simp [exec] at hexec <;> simp [← hexec.1]
  | dropInstance id =>
    simp only [exec, Option.some.injEq, Prod.mk.injEq] at hexec
    rw [← hexec.1]
  | _ => rw [(exec_frame hexec).host (by simp) (by simp) (by simp) (by simp)]

/-- What a critical section does to the running VMs. -/
theorem running_section {sec : VmRegistry.Section} (hs : Sound config s)
    (hn : s.tasks[n]? = some t) (hreq : sectionRequires config t.ledger.view sec)
    (hupgrade : ∀ id, sec ≠ .upgrade id) (htake : ∀ id, sec ≠ .take id) (id : Uuid)
    (r : VmResources) :
    (sec.run config.capacity s.shared.vms).1.lookup id = some (.running r) ↔
      s.shared.vms.lookup id = some (.running r) := by
  have hplaced (id : Uuid) (hid : t.ledger.view.id = some id) :
      t.ledger.view.standing.Allows (s.shared.vms.lookup id) :=
    hs.protocol.placed n _ id (siteOf_task hn) hid
  have herase {id' : Uuid} (hnot : s.shared.vms.lookup id' ≠ some (.running r)) :
      (s.shared.vms.erase id').lookup id = some (.running r) ↔
        s.shared.vms.lookup id = some (.running r) := by
    rw [lookup_erase]
    split
    · rename_i hid
      subst hid
      simp [hnot]
    · rfl
  cases sec with
  | reserve id' r' =>
    obtain ⟨hid, hst, _⟩ := hreq
    have hnone := hplaced id' hid
    rw [hst] at hnone
    rcases VmRegistry.reserve_cases config.capacity id' r' s.shared.vms with ⟨e, he, _⟩ | ⟨he, _⟩
    · simp only [VmRegistry.Section.run, he]
    · simp only [VmRegistry.Section.run, he]
      rw [lookup_insert]
      split
      · rename_i hid'
        subst hid'
        simp [show s.shared.vms.lookup id = none from hnone]
      · rfl
  | upgrade id' => exact absurd rfl (hupgrade id')
  | take id' => exact absurd rfl (htake id')
  | remove id' =>
    obtain ⟨hid, ⟨r', hst⟩, _⟩ := hreq
    have hl := placed_creating hs.protocol (siteOf_task hn) hid hst
    simp only [VmRegistry.Section.run, VmRegistry.remove, hl]
    exact herase (by simp [hl])
  | discard id' =>
    obtain ⟨hid, hst⟩ := hreq
    have hl := hplaced id' hid
    refine herase ?_
    rcases hst with hst | ⟨_, _, r', hst | hst⟩
    · rw [hst] at hl
      simp [show s.shared.vms.lookup id' = none from hl]
    · rw [hst] at hl
      simp [show s.shared.vms.lookup id' = some (.creating r') from hl]
    · rw [hst] at hl
      simp [show s.shared.vms.lookup id' = some (.creating r') from hl]
  | get id' => rfl
  | entries => rfl
  | info => rfl

/-- Nobody else has the copy of a VM in hand whose task has not inserted its placeholder yet. -/
theorem Copies.unheld (h : Copies config s f) (hs : Sound config s) (hn : s.tasks[n]? = some t)
    (hid : t.ledger.view.id = some id) (hst : t.ledger.view.standing = .fresh) (hkn : k ≠ n) :
    (f k).hand ≠ some id := by
  intro hk
  obtain ⟨u, hu, ⟨huid, _⟩ | ⟨_, m, w, r, hw, hwid, hwst⟩⟩ := h.held k id hk
  · exact hkn (hs.protocol.unique k n u _ id hu (siteOf_task hn) huid hid)
  · obtain rfl := hs.protocol.unique m n w _ id hw (siteOf_task hn) hwid hid
    obtain rfl : w = t.ledger.view := Option.some.inj (hw.symm.trans (siteOf_task hn))
    simp [hst] at hwst

/-- What a task that has drawn an identifier has in hand is the copy of its own VM. -/
theorem Copies.own (h : Copies config s f) (hn : s.tasks[n]? = some t)
    (hid : t.ledger.view.id = some id) {id' : Uuid} (hk : (f n).hand = some id') : id' = id := by
  obtain ⟨u, hu, ⟨huid, _⟩ | ⟨hnone, _⟩⟩ := h.held n id' hk
  · obtain rfl : t.ledger.view = u := Option.some.inj ((siteOf_task hn).symm.trans hu)
    exact Option.some.inj (huid.symm.trans hid)
  · obtain rfl : t.ledger.view = u := Option.some.inj ((siteOf_task hn).symm.trans hu)
    simp [hid] at hnone

theorem Copies.step (h : Copies config s f) (hs : Sound config s) (hn : s.tasks[n]? = some t)
    (ho : t.nextOp = some o) (hexec : exec config n c s.shared o = some (sh, some reply))
    (he : step config lib s (.run n c) = some ⟨sh, s.tasks.set n t'⟩)
    (hview : t'.ledger.view = noteView t.ledger.view o reply)
    (htied : Tied config past n t.ledger.view (f n)) (hcopy : copyRequires config o (f n)) :
    Copies config ⟨sh, s.tasks.set n t'⟩ (Function.update f n (noteCopy (f n) c o reply)) := by
  have hreq := requires_of_nextOp hs hn ho
  have hothers (k : ℕ) (id : Uuid) (hkn : k ≠ n) (hk : Holds s k id) :
      Holds ⟨sh, s.tasks.set n t'⟩ k id := hk.set hs hn he fun hkn' => absurd hkn' hkn
  have hall (hnew : o ≠ .newV4) (hup : ∀ id, o ≠ .vms (.upgrade id)) (k : ℕ) (id : Uuid)
      (hk : Holds s k id) : Holds ⟨sh, s.tasks.set n t'⟩ k id :=
    hk.set hs hn he fun _ => by
      rw [hview]
      exact ⟨id_noteView hnew, fun hst r => not_upgraded_noteView hup hst r⟩
  have hidle (hhand : (noteCopy (f n) c o reply).hand = (f n).hand) (hnew : o ≠ .newV4)
      (hup : ∀ id, o ≠ .vms (.upgrade id)) (hfiles : sh.host.files = s.shared.host.files)
      (hvms : ∀ id r, sh.vms.lookup id = some (.running r) ↔
        s.shared.vms.lookup id = some (.running r)) :
      Copies config ⟨sh, s.tasks.set n t'⟩ (Function.update f n (noteCopy (f n) c o reply)) :=
    h.still hfiles hvms (hand_same hhand) fun k id _ => hall hnew hup k id
  have hsame (hhand : (noteCopy (f n) c o reply).hand = (f n).hand) (hnew : o ≠ .newV4)
      (hcp : ∀ strategy source dest, o ≠ .command (.cp strategy source dest))
      (hrm : ∀ path, o ≠ .removeFile path) (hvms : ∀ sec, o ≠ .vms sec) :
      Copies config ⟨sh, s.tasks.set n t'⟩ (Function.update f n (noteCopy (f n) c o reply)) :=
    hidle hhand hnew (fun id => hvms _) (files_exec hexec hcp hrm) fun id r => by
      rw [(exec_frame hexec).vms hvms]
  cases o with
  | newV4 =>
    refine h.still (files_exec hexec (by simp) (by simp)) (fun id r => ?_) (hand_same rfl) ?_
    · rw [show sh.vms = s.shared.vms from (exec_frame hexec).vms (by simp)]
    · intro k id hk
      refine hothers k id ?_
      rintro rfl
      simp [show (f k).hand = none from hcopy] at hk
  | command cmd =>
    cases cmd with
    | cp strategy source dest =>
      obtain ⟨hinserted, id, hfid, rfl⟩ := hcopy
      have hid : t.ledger.view.id = some id := htied.id.symm.trans hfid
      have hst : t.ledger.view.standing = .fresh := htied.fresh.mp hinserted
      cases hc : c.succeeds || c.partly with
      | false =>
        have hnote : noteCopy (f n) c
            (.command (.cp strategy source (rootfsPath config.jailer.vmImagesDir id))) reply =
              f n := by simp [noteCopy, hc]
        obtain ⟨rfl, _⟩ := by simpa [exec, Host.run, hc] using hexec
        exact hidle (by rw [hnote]) (by simp) (by simp) rfl fun _ _ => Iff.rfl
      | true =>
        have hnote : noteCopy (f n) c
            (.command (.cp strategy source (rootfsPath config.jailer.vmImagesDir id))) reply =
              { f n with hand := (f n).id, wrote := true } := by simp [noteCopy, hc]
        have hnone : s.shared.vms.lookup id = none := by
          have hp := hs.protocol.placed n _ id (siteOf_task hn) hid
          rwa [hst] at hp
        obtain ⟨rfl, _⟩ := by simpa [exec, Host.run, hc] using hexec
        rw [hnote]
        refine h.write hothers hfid rfl rfl (fun id' hk => h.own hn hid hk)
          (fun k hkn => h.unheld hs hn hid hst hkn) (by simp [hnone]) ?_
        refine ⟨t'.ledger.view, by simp [siteOf_set hn], .inl ?_⟩
        rw [hview]
        exact ⟨hid, by simp [noteView, hst]⟩
    | _ => exact hsame rfl (by simp) (by simp) (by simp) (by simp)
  | removeFile path =>
    obtain ⟨id, hhand, rfl⟩ := hcopy
    simp only [exec] at hexec
    split at hexec
    · obtain ⟨rfl, rfl⟩ := by simpa using hexec
      exact h.remove hothers hhand rfl (by simp) rfl
    · obtain ⟨rfl, rfl⟩ := by simpa using hexec
      exact hidle rfl (by simp) (by simp) rfl fun _ _ => Iff.rfl
  | vms sec =>
    have hfiles := files_exec hexec (by simp) (by simp)
    obtain ⟨rfl, rfl⟩ := by simpa [exec] using hexec
    obtain ⟨_, hsec⟩ := hreq
    have hsection (hhand : (noteCopy (f n) c (.vms sec)
          (sec.run config.capacity s.shared.vms).2).hand = (f n).hand)
        (hup : ∀ id, sec ≠ .upgrade id) (htake : ∀ id, sec ≠ .take id) :=
      hidle hhand (by simp) (fun id heq => hup id (by simpa using heq)) hfiles
        (running_section hs hn hsec hup htake)
    cases sec with
    | reserve id r =>
      have hhand (reserved : Except ApiError Unit) :
          (noteCopy (f n) c (.vms (.reserve id r)) reserved).hand = (f n).hand := by
        cases reserved <;> rfl
      exact hsection (hhand _) (by simp) (by simp)
    | remove id =>
      have hhand (entry : Option VmEntry) :
          (noteCopy (f n) c (.vms (.remove id)) entry).hand = (f n).hand := by
        cases entry <;> rfl
      exact hsection (hhand _) (by simp) (by simp)
    | upgrade id =>
      obtain ⟨hid, ⟨r, hst⟩, _⟩ := hsec
      have hl := placed_creating hs.protocol (siteOf_task hn) hid hst
      have hlookup (id' : Uuid) := VmRegistry.lookup_upgrade hl id'
      have hmoved : (VmRegistry.upgrade id s.shared.vms).2 = true := by
        simp [VmRegistry.upgrade, hl]
      refine h.publish hothers hcopy (by simp [noteCopy, VmRegistry.Section.run, hmoved]) rfl
        ⟨r, by simp [VmRegistry.Section.run, hlookup]⟩ fun id' r' hid' => ?_
      simp [VmRegistry.Section.run, hlookup, hid']
    | take id =>
      rcases VmRegistry.take_cases id s.shared.vms with ⟨r, hl, ht⟩ | ⟨error, hfailed, hlookup⟩
      · have hhand : (noteCopy (f n) c (.vms (.take id))
            ((VmRegistry.Section.take id).run config.capacity s.shared.vms).2).hand = some id := by
          simp [noteCopy, VmRegistry.Section.run, ht]
        refine h.take hothers hcopy hhand rfl ⟨r, hl⟩ (fun id' r' => ?_) ?_
        · simp only [VmRegistry.Section.run, ht, lookup_erase]
          split <;> simp_all
        · have hupgraded := upgraded_kept hs he (hs.protocol.upgraded_of_running hl)
          refine ⟨t'.ledger.view, by simp [siteOf_set hn], .inr ⟨?_, hupgraded⟩⟩
          rw [hview]
          exact Eq.trans id_noteSection hsec.1
      · refine hidle ?_ (by simp) (by simp) hfiles fun id' r => ?_
        · simp [noteCopy, VmRegistry.Section.run, hfailed]
        · simp [VmRegistry.Section.run, hlookup]
    | _ => exact hsection rfl (by simp) (by simp)
  | allocate => exact hsame (by cases reply <;> rfl) (by simp) (by simp) (by simp) (by simp)
  | _ => exact hsame rfl (by simp) (by simp) (by simp) (by simp)

end Steps

section Runs

/-- What the views of the tasks say about a run. -/
structure Kept (config : AppConfig) (gentle lossy : Prop) (past : History) (s : State)
    (f : ℕ → Copying) : Prop where
  tied : ∀ (n : ℕ) (t : HandlerTask), s.tasks[n]? = some t → Tied config past n t.ledger.view (f n)
  carried : gentle → ∀ (n : ℕ) (t : HandlerTask), s.tasks[n]? = some t →
    Carried config lossy t.ledger (f n)
  copies : Copies config s f

theorem Tied.initial (hnever : ∀ p ∈ past, p.2.subject ≠ some n) : Tied config past n {} {} := by
  have hnone (id : Uuid) (r : VmResources) : ¬ Inserted config past n id r := by
    rintro ⟨a, ⟨c, _, hmem, _⟩, _⟩
    exact hnever _ hmem rfl
  refine ⟨⟨rfl, by simp, by simp, by simp, by simp⟩, iff_of_false (by simp) ?_,
    iff_of_false (by simp) ?_, fun id r hr => absurd hr (hnone id r)⟩
  · rintro ⟨a, c, t, _, _, _, hmem, _⟩
    exact hnever _ hmem rfl
  · rintro ⟨id, r, hr⟩
    exact hnone id r hr

theorem tied_others (hsubject : e.subject = some n) (k : ℕ) (u : HandlerTask) (hkn : k ≠ n)
    (h : Tied config past k u.ledger.view (f k)) :
    Tied config ((s, e) :: past) k u.ledger.view (f k) := by
  refine h.other ?_
  rintro c rfl
  exact hkn (Option.some.inj hsubject)

/-- In a gentle run who is dropped has no copy in its locals. -/
theorem mayLeave_of_unburdened (hok : Unburdened s (.leave n .dropped)) (hn : s.tasks[n]? = some t)
    (hagrees : Agrees t.ledger.view v) (hcarried : Carried config lossy t.ledger v) :
    MayLeave v := by
  obtain ⟨hheld, hplaced⟩ := hok t hn
  have hinserted (hid : v.id ≠ none) : v.inserted = true :=
    hagrees.inserted_of (hplaced (hagrees.id ▸ hid))
  refine ⟨hinserted, fun hhand => ?_⟩
  obtain ⟨id, hid⟩ := Option.ne_none_iff_exists'.mp hhand
  rcases hcarried id hid with hmem | hin | ⟨_, hfresh, hdrawn⟩
  · exact absurd hmem (hheld _)
  · have hst : t.ledger.view.standing ≠ .fresh ∧ t.ledger.view.standing ≠ .gone := by
      cases hv : t.ledger.view.standing <;> simp_all [placedRecord]
    exact ⟨hagrees.inserted_of hst.1, hagrees.removed_of hst.2⟩
  · exact absurd hfresh (hplaced hdrawn)

theorem Carried.leave {ex : Exit} (hok : Unburdened s (.leave n ex)) (hn : s.tasks[n]? = some t)
    (h : Carried config lossy t.ledger v) : Carried config lossy (t.ledger.leave ex) v := by
  cases ex with
  | panicked => exact h
  | dropped =>
    obtain ⟨hheld, _⟩ := hok t hn
    intro id hv
    exact (h id hv).imp (fun hmem => absurd hmem (hheld _)) fun hkept => hkept

theorem tracking_copying (gentle lossy : Prop) : Tracking config lib
    (fun s e => FilesRemoved s e ∧ (gentle → Unburdened s e ∧ (lossy ∨ KeepsLocals s e)))
    (copying config gentle) (copyEnds gentle) (Kept config gentle lossy) where
  initial := by
    refine ⟨fun _ => {}, fun n t hn => by simp at hn, fun _ n t hn => by simp at hn, fun path => ?_,
      ?_, ?_, ?_⟩
    · refine iff_of_false (by simp) ?_
      rintro ⟨id, _, ⟨n, hn⟩ | ⟨r, hr⟩⟩
      · simp at hn
      · simp at hr
    all_goals simp
  request past s f r hr hk := by
    have hs := sound_of_reachable (System.Run.reachable hr)
    have he : step config lib s (.request r) = some { s with
      tasks := s.tasks ++ [{ request := r, code := handlerOf config r }] } := rfl
    have hnew : (f s.tasks.length).hand = none := by
      by_contra hne
      obtain ⟨id, hid⟩ := Option.ne_none_iff_exists'.mp hne
      obtain ⟨u, hu, _⟩ := hk.copies.held _ id hid
      simp [siteOf] at hu
    have hnever (p : State × Event) (hp : p ∈ (s, Event.request r) :: past) :
        p.2.subject ≠ some s.tasks.length := by
      rcases List.mem_cons.mp hp with rfl | hp
      · simp [Event.subject]
      · exact fun hsubject => lt_irrefl _ (subject_lt hr hp hsubject)
    refine ⟨{}, safe_copying config gentle r, ?_, fun hgentle => ?_, ?_⟩
    · exact forall_request hk.tied (fun k u _ hu => hu.other (by simp)) (Tied.initial hnever)
    · exact forall_request (hk.carried hgentle) (fun _ _ _ hu => hu) (.empty rfl)
    · exact hk.copies.still rfl (fun _ _ => Iff.rfl) (hand_same hnew.symm) fun k id _ hheld =>
        hheld.request hs he
  callback past s f n cb r self result l hr hn hk hends := by
    have hs := sound_of_reachable (System.Run.reachable hr)
    have he : step config lib s (.callback n cb) = some { s with
      tasks := s.tasks.set n ⟨r, calledBack (callbackCode lib self cb), l⟩ } := by simp [step, hn]
    have hnone : (f n).hand = none := by cases r <;> exact hends
    have htied := hk.tied n _ hn
    have hfresh : (f n).inserted = false := by
      have hview : l.view = {} := (hs.code n _ hn).2
      exact htied.fresh.mpr (by simp [hview])
    refine ⟨f n, copying_callback cb hnone hfresh, ?_, fun hgentle => ?_, ?_⟩
    · exact forall_set hk.tied hn (tied_others rfl) (htied.other (by simp))
    · exact forall_set (hk.carried hgentle) hn (fun _ _ _ hu => hu) (.empty hnone)
    · exact hk.copies.still rfl (fun _ _ => Iff.rfl) (hand_same rfl) fun k id _ hheld =>
        hheld.set hs hn he fun _ => ⟨rfl, fun hst => hst⟩
  run past s f n c r o may exit next l sh reply hr hok hn hexec hk hcopy hallow := by
    have hs := sound_of_reachable (System.Run.reachable hr)
    have he : step config lib s (.run n c) =
        some ⟨sh, s.tasks.set n ⟨r, next reply, l.note c o reply⟩⟩ := by simp [step, hn, hexec]
    have htied := hk.tied n _ hn
    have hreq := requires_of_nextOp hs hn rfl
    have hcopied := copyAllows_of_step hs hok.1 hn rfl hexec htied hk.copies hallow
    refine ⟨hcopied, ?_, fun hgentle => ?_, hk.copies.step hs hn rfl hexec he rfl htied hcopy⟩
    · exact forall_set hk.tied hn (tied_others rfl) (htied.step hn rfl hexec hreq hcopy hallow
        (hs.protocol.anonymous n _ (siteOf_task hn)))
    · exact forall_set (hk.carried hgentle) hn (fun _ _ _ hu => hu)
        ((hk.carried hgentle n _ hn).step htied.toAgrees hreq hcopy hcopied
          ((hok.2 hgentle).2.imp_right fun hlocals => hlocals o (by simp [hn, HandlerTask.nextOp]))
          fun id id' hid hhand => hk.copies.own hn hid hhand)
  leave past s f n e r o may exit next l hr hok hn hmay hk _ := by
    have hs := sound_of_reachable (System.Run.reachable hr)
    have he : step config lib s (.leave n e) =
        some { s with tasks := s.tasks.set n ⟨r, exit e, l.leave e⟩ } := by simp [step, hn, hmay]
    have hsame : (l.leave e).view.id = l.view.id ∧ (l.leave e).view.standing = l.view.standing := by
      cases e <;> exact ⟨rfl, rfl⟩
    have htied := hk.tied n _ hn
    refine ⟨fun hgentle hdropped => ?_, ?_, fun hgentle => ?_, ?_⟩
    · subst hdropped
      exact mayLeave_of_unburdened (hok.2 hgentle).1 hn htied.toAgrees (hk.carried hgentle n _ hn)
    · have hother : Tied config ((s, .leave n e) :: past) n l.view (f n) := htied.other (by simp)
      exact forall_set hk.tied hn (tied_others rfl)
        ⟨hother.toAgrees.same hsame.1 hsame.2, hother.wrote, hother.placed,
          fun id r hr => hsame.1.trans (hother.drawn id r hr)⟩
    · exact forall_set (hk.carried hgentle) hn (fun _ _ _ hu => hu)
        ((hk.carried hgentle n _ hn).leave (hok.2 hgentle).1 hn)
    · exact hk.copies.still rfl (fun _ _ => Iff.rfl) (hand_same rfl) fun k id _ hheld =>
        hheld.set hs hn he fun _ => ⟨hsame.1, fun hst r => by rw [hsame.2]; exact hst r⟩

end Runs

section Failures

/-- A `create` has answered an error after it had drawn the identifier. -/
def FailedCreate (s : State) (n : ℕ) (id : Uuid) : Prop :=
  ∃ t body error, s.tasks[n]? = some t ∧ t.request = .create body ∧
    t.code = .ret (.answered (.failed error)) ∧ t.ledger.view.id = some id

/-- Task `n` had written nothing, or had inserted its placeholder. -/
def CleanFailure (config : AppConfig) (past : History) (n : ℕ) (id : Uuid) : Prop :=
  ¬ Wrote past n ∨ ∃ r, Inserted config past n id r

/-- The files are the copies of the entries. -/
def CopiesOfEntries (s : State) : Prop :=
  ∀ path, path ∈ s.shared.host.files ↔
    ∃ id e, s.shared.vms.lookup id = some e ∧ e.res.rootfsCopy = some path

variable {gentle lossy : Prop}

/-- The copy of a VM that does not run is in its own task's hands or nowhere. -/
theorem Copies.present_iff (h : Copies config s f) (hs : Sound config s)
    (hn : s.tasks[n]? = some t) (hid : t.ledger.view.id = some id)
    (hst : ∀ r, t.ledger.view.standing ≠ .upgraded r) :
    rootfsPath config.jailer.vmImagesDir id ∈ s.shared.host.files ↔ (f n).hand = some id := by
  rw [h.files]
  constructor
  · rintro ⟨id', hpath, hcases⟩
    obtain rfl := rootfsPath_injective _ hpath
    rcases hcases with ⟨k, hk⟩ | ⟨r, hr⟩
    · obtain ⟨v, hv, ⟨hvid, _⟩ | ⟨_, m, w, r, hw, hwid, hwst⟩⟩ := h.held k id hk
      · obtain rfl := hs.protocol.unique k n v _ id hv (siteOf_task hn) hvid hid
        exact hk
      · obtain rfl := hs.protocol.unique m n w _ id hw (siteOf_task hn) hwid hid
        obtain rfl : w = t.ledger.view := Option.some.inj (hw.symm.trans (siteOf_task hn))
        exact absurd hwst (hst r)
    · have hplaced : t.ledger.view.standing.Allows (some (.running r)) :=
        hr ▸ hs.protocol.placed n _ id (siteOf_task hn) hid
      cases hv : t.ledger.view.standing with
      | upgraded r' => exact absurd hv (hst r')
      | _ => simp [hv] at hplaced
  · exact fun hhand => ⟨id, rfl, .inl ⟨n, hhand⟩⟩

theorem not_upgraded_of_failed (hs : Sound config s) (hn : s.tasks[n]? = some t) {error : ApiError}
    (hfail : t.code = .ret (.answered (.failed error))) (r : VmResources) :
    t.ledger.view.standing ≠ .upgraded r := by
  have hcode := hs.code n t hn
  rw [hfail] at hcode
  rcases hcode.2 with hst | hst <;> simp [hst]

/-- A `create` that has failed has its copy in hand if and only if it had written one and had not
inserted its placeholder. -/
theorem hand_of_failed (hviews : Viewed (copying config gentle) (copyEnds gentle) s f)
    (hk : Kept config gentle lossy past s f) (hn : s.tasks[n]? = some t) {body : Option CreateVmRequest}
    (hreq : t.request = .create body) {error : ApiError}
    (hfail : t.code = .ret (.answered (.failed error))) (hid : t.ledger.view.id = some id) :
    (f n).hand = some id ↔ ¬ CleanFailure config past n id := by
  have htied := hk.tied n t hn
  have hleft : (f n).hand = leftover (f n) := by
    have hcode := hviews n t hn
    rw [hfail, hreq] at hcode
    exact hcode
  have hinserted : (f n).inserted = true ↔ ∃ r, Inserted config past n id r := by
    rw [htied.placed]
    constructor
    · rintro ⟨id', r, hr⟩
      obtain rfl := Option.some.inj (hid.symm.trans (htied.drawn id' r hr))
      exact ⟨r, hr⟩
    · exact fun ⟨r, hr⟩ => ⟨id, r, hr⟩
  rw [hleft, leftover, CleanFailure, ← htied.wrote, ← hinserted]
  cases (f n).wrote <;> cases (f n).inserted <;> simp [htied.id, hid]

theorem file_of_failed (hviews : Viewed (copying config gentle) (copyEnds gentle) s f)
    (hk : Kept config gentle lossy past s f) (hs : Sound config s) (hfailed : FailedCreate s n id) :
    rootfsPath config.jailer.vmImagesDir id ∈ s.shared.host.files ↔
      ¬ CleanFailure config past n id := by
  obtain ⟨t, body, error, hn, hreq, hfail, hid⟩ := hfailed
  rw [hk.copies.present_iff hs hn hid (not_upgraded_of_failed hs hn hfail)]
  exact hand_of_failed hviews hk hn hreq hfail hid

/-- A placeholder whose task has ended has its copy. -/
theorem creating_iff_of_dropped (hk : Kept config True lossy past s f) (hs : Sound config s)
    (hn : s.tasks[n]? = some t) (hend : t.inFlight = false) (hresolved : Resolved (f n))
    (hid : t.ledger.view.id = some id) :
    (f n).hand = some id ↔ ∃ r, s.shared.vms.lookup id = some (.creating r) := by
  have htied := hk.tied n t hn
  have hplaced := hs.protocol.placed n _ id (siteOf_task hn) hid
  have hsettled := settled_of_ended hs hn hend
  constructor
  · intro hhand
    obtain ⟨⟨hinserted, hremoved⟩, hpassed⟩ :
        ((f n).inserted = true ∧ (f n).removed = false) ∧ (f n).passed = false := by
      simpa [Resolved, hhand] using hresolved
    cases hst : t.ledger.view.standing with
    | fresh => simp [htied.fresh.mpr hst] at hinserted
    | gone =>
      rcases htied.gone hst with hnone | hgone
      · simp [hnone] at hhand
      · simp [hgone] at hremoved
    | released r =>
      have hlocked := hs.protocol.locked n _ r (siteOf_task hn) hst
      simp [hsettled.registry] at hlocked
    | upgraded r =>
      obtain ⟨v, hv, ⟨_, hnot⟩ | ⟨hnone, _⟩⟩ := hk.copies.held n id hhand
      · obtain rfl : t.ledger.view = v := Option.some.inj ((siteOf_task hn).symm.trans hv)
        exact absurd hst (hnot r)
      · obtain rfl : t.ledger.view = v := Option.some.inj ((siteOf_task hn).symm.trans hv)
        simp [hid] at hnone
    | creating r =>
      rw [hst] at hplaced
      exact ⟨r, hplaced⟩
  · rintro ⟨r, hr⟩
    have hentry : (siteOf s).world.entry id = some (.creating r) := hr
    rw [hentry] at hplaced
    have hst : t.ledger.view.standing ≠ .fresh ∧ t.ledger.view.standing ≠ .gone ∧
        ∀ r, t.ledger.view.standing ≠ .upgraded r := by
      cases hv : t.ledger.view.standing <;> simp_all
    have hhand : (f n).hand.isSome = true := by
      have hinserted := htied.inserted_of hst.1
      have hremoved := htied.removed_of hst.2.1
      have hpassed := htied.passed_of hst.2.2
      simpa [Resolved, hinserted, hremoved, hpassed] using hresolved
    obtain ⟨id', hid'⟩ := Option.isSome_iff_exists.mp hhand
    rw [hid', hk.copies.own hn hid hid']

/-- A copy in the hands of a task that has ended is that of an entry, or a `create` has failed. -/
theorem owner_of_hand (hviews : Viewed (copying config True) (copyEnds True) s f)
    (hk : Kept config True lossy past s f) (hs : Sound config s) (hn : s.tasks[n]? = some t)
    (hend : t.inFlight = false) (hhand : (f n).hand = some id) :
    (∃ r, s.shared.vms.lookup id = some (.creating r)) ∨ FailedCreate s n id := by
  obtain ⟨v, hv, hholds⟩ := hk.copies.held n id hhand
  obtain rfl : t.ledger.view = v := Option.some.inj ((siteOf_task hn).symm.trans hv)
  have htied := hk.tied n t hn
  obtain ⟨outcome, hcode⟩ := code_of_not_inFlight hend
  have hview := hviews n t hn
  rw [hcode] at hview
  rcases copyEnds_cases hview with ⟨_, h⟩ | ⟨body, error, hreq, rfl, hleft⟩ | hnone
  · have hresolved : Resolved (f n) := h trivial
    rcases hholds with ⟨hid, _⟩ | ⟨hnone, _⟩
    · exact .inl ((creating_iff_of_dropped hk hs hn hend hresolved hid).mp hhand)
    · have hfresh := htied.fresh.mpr (hs.protocol.anonymous n _ hv hnone)
      simp [Resolved, hhand, hfresh] at hresolved
  · refine .inr ⟨t, body, error, hn, hreq, hcode, ?_⟩
    rw [hhand, leftover] at hleft
    split at hleft
    · exact htied.id.symm.trans hleft.symm
    · simp at hleft
  · simp [hhand] at hnone

/-- Where no handler is in flight, a placeholder has its copy. -/
theorem hand_of_creating (hviews : Viewed (copying config True) (copyEnds True) s f)
    (hk : Kept config True lossy past s f) (hs : Sound config s) (hidle : Idle s) {r : VmResources}
    (hr : s.shared.vms.lookup id = some (.creating r)) : ∃ n, (f n).hand = some id := by
  obtain ⟨n, v, hv, hid⟩ := hs.protocol.covered id (.creating r) hr
  obtain ⟨t, hn, rfl⟩ := Option.map_eq_some_iff.mp hv
  obtain ⟨outcome, hcode⟩ := code_of_not_inFlight (hidle n t hn)
  have hview := hviews n t hn
  rw [hcode] at hview
  have hfinal := hs.code n t hn
  rw [hcode] at hfinal
  have hplaced : t.ledger.view.standing.Allows (some (.creating r)) :=
    hr ▸ hs.protocol.placed n _ id hv hid
  cases outcome with
  | dropped =>
    have hresolved : Resolved (f n) := resolved_of_dropped hview trivial
    exact ⟨n, (creating_iff_of_dropped hk hs hn (hidle n t hn) hresolved hid).mpr ⟨r, hr⟩⟩
  | session self result =>
    have hempty : t.ledger.view = {} := hfinal.2
    simp [hempty] at hid
  | answered a =>
    cases a with
    | created answer =>
      obtain ⟨_, _, _, _, _, hst, _⟩ := hfinal
      simp [hst] at hplaced
    | _ => rcases hfinal.2 with hst | hst <;> simp [hst] at hplaced

/-- Where no handler is in flight, the files are the copies of the entries, apart from those of
`create`s that failed between writing and inserting. -/
theorem copies_of_idle (hr : (server config lib).Run past s) (hm : System.Meets FilesRemoved past)
    (hgentle : System.Meets Unburdened past) (hidle : Idle s) : CopiesOfEntries s ↔
      ∀ n id, FailedCreate s n id → CleanFailure config past n id := by
  have hs := sound_of_reachable (System.Run.reachable hr)
  obtain ⟨f, hviews, hk⟩ := (tracking_copying True True).views_of_run hr
    fun p hp => ⟨hm p hp, fun _ => ⟨hgentle p hp, .inl trivial⟩⟩
  have hpath {id : Uuid} {e : VmEntry} (he : s.shared.vms.lookup id = some e) :
      e.res.rootfsCopy = some (rootfsPath config.jailer.vmImagesDir id) :=
    (hs.protocol.fits id e he).rootfs
  constructor
  · intro hfiles n id hfailed
    by_contra hunclean
    obtain ⟨id', e, he, hcopy⟩ := (hfiles _).mp ((file_of_failed hviews hk hs hfailed).mpr hunclean)
    obtain rfl := rootfsPath_injective _ (Option.some.inj ((hpath he).symm.trans hcopy))
    obtain ⟨t, body, error, hn, _, hfail, hid⟩ := hfailed
    simp [(failed_create hs hn hfail).2 id' hid] at he
  · intro hclean path
    rw [hk.copies.files]
    constructor
    · rintro ⟨id, rfl, ⟨n, hhand⟩ | ⟨r, hrunning⟩⟩
      · obtain ⟨v, hv, _⟩ := hk.copies.held n id hhand
        obtain ⟨t, hn, rfl⟩ := Option.map_eq_some_iff.mp hv
        rcases owner_of_hand hviews hk hs hn (hidle n t hn) hhand with ⟨r, hr⟩ | hfailed
        · exact ⟨id, _, hr, hpath hr⟩
        · obtain ⟨t, body, error, hn, hreq, hfail, hid⟩ := hfailed
          have hunclean := (hand_of_failed hviews hk hn hreq hfail hid).mp hhand
          exact absurd (hclean n id ⟨t, body, error, hn, hreq, hfail, hid⟩) hunclean
      · exact ⟨id, _, hrunning, hpath hrunning⟩
    · rintro ⟨id, e, he, hcopy⟩
      obtain rfl := Option.some.inj ((hpath he).symm.trans hcopy)
      refine ⟨id, rfl, ?_⟩
      cases e with
      | running r => exact .inr ⟨r, he⟩
      | creating r => exact .inl (hand_of_creating hviews hk hs hidle he)

/-- The copy of a `create` that has answered an error is gone if and only if it had written
nothing, or had inserted its placeholder; and where nobody is dropped with a copy of its own, the
copies of an idle server are those of its entries if and only if that holds of every such
`create`. -/
theorem copy_outlives_iff (hr : (server config lib).Run past s)
    (hm : System.Meets FilesRemoved past) :
    (∀ n id, FailedCreate s n id →
      (rootfsPath config.jailer.vmImagesDir id ∉ s.shared.host.files ↔
        CleanFailure config past n id)) ∧
    (System.Meets Unburdened past → Idle s → (CopiesOfEntries s ↔
      ∀ n id, FailedCreate s n id → CleanFailure config past n id)) := by
  have hs := sound_of_reachable (System.Run.reachable hr)
  refine ⟨fun n id hfailed => ?_, copies_of_idle hr hm⟩
  obtain ⟨f, hviews, hk⟩ := (tracking_copying False True).views_of_run hr
    fun p hp => ⟨hm p hp, False.elim⟩
  rw [file_of_failed hviews hk hs hfailed, not_not]

end Failures

section Samples

/-- The identifier that task `n` has drawn, once it has answered that it failed. -/
def failureOf (s : State) (n : ℕ) : Option Uuid := do
  let t ← s.tasks[n]?
  if outcomeOf t = some (.answered (.failed .internalServerError)) then t.ledger.view.id else none

theorem failedCreate_of_failureOf (hr : sampleServer.Run past s) (h : failureOf s n = some id) :
    FailedCreate s n id := by
  obtain ⟨t, hn, ht⟩ := Option.bind_eq_some_iff.mp h
  split at ht
  · rename_i hfail
    obtain ⟨u, hu, hcode⟩ := code_of_outcome (s := s) (n := n) (by simpa [hn] using hfail)
    obtain rfl := Option.some.inj (hn.symm.trans hu)
    obtain ⟨body, hbody⟩ := create_of_id hr hn ht
    exact ⟨t, body, _, hn, hbody, hcode, ht⟩
  · simp at ht

/-- The set-up of the instance fails. -/
def failsInSetup : List Event :=
  .request (.create none) :: reserving 0 1 ++ runs 0 1 ++ .run 0 { succeeds := false } :: runs 0 12

theorem copy_outlives_failsInSetup : ∃ id, FailedCreate (sampleServer.endOf failsInSetup) 0 id ∧
    rootfsPath sampleConfig.jailer.vmImagesDir id ∉
      (sampleServer.endOf failsInSetup).shared.host.files := by
  have hrun : sampleServer.Run (sampleServer.historyOf failsInSetup)
      (sampleServer.endOf failsInSetup) := System.run_follow failsInSetup
  have hmeets : System.Meets FilesRemoved (sampleServer.historyOf failsInSetup) := by
    unfold System.Meets
    decide +kernel
  have hfailed : FailedCreate (sampleServer.endOf failsInSetup) 0 1 :=
    failedCreate_of_failureOf hrun (by decide +kernel)
  obtain ⟨⟨id, r⟩, hmem, hid⟩ :
      ∃ p ∈ insertions sampleConfig (sampleServer.historyOf failsInSetup) 0, p.1 = 1 := by
    decide +kernel
  obtain rfl : id = 1 := hid
  have hclean : CleanFailure sampleConfig (sampleServer.historyOf failsInSetup) 0 1 :=
    .inr ⟨r, inserted_of_mem hmem⟩
  exact ⟨1, hfailed, ((copy_outlives_iff hrun hmeets).1 0 1 hfailed).mpr hclean⟩

/-- The copy is made, and `chown` fails. -/
def failsInChown : List Event :=
  [.request (.create none), .run 0 { id := 1 }, .run 0 {}, .run 0 { succeeds := false }]

/-- The copy is still there. -/
theorem copy_outlives_failsInChown : ¬ ∀ (past : History) (s : State), sampleServer.Run past s →
    System.Meets FilesRemoved past → ∀ n id, FailedCreate s n id →
      rootfsPath sampleConfig.jailer.vmImagesDir id ∉ s.shared.host.files := by
  intro h
  have hrun : sampleServer.Run (sampleServer.historyOf failsInChown)
      (sampleServer.endOf failsInChown) := System.run_follow failsInChown
  have hmeets : System.Meets FilesRemoved (sampleServer.historyOf failsInChown) := by
    unfold System.Meets
    decide +kernel
  have hfailed : FailedCreate (sampleServer.endOf failsInChown) 0 1 :=
    failedCreate_of_failureOf hrun (by decide +kernel)
  have hpresent : rootfsPath sampleConfig.jailer.vmImagesDir 1 ∈
      (sampleServer.endOf failsInChown).shared.host.files := by decide +kernel
  exact h _ _ hrun hmeets 0 1 hfailed hpresent

end Samples

end Warlock.RootfsCopies
