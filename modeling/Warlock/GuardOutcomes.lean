import Warlock.GuardDiscipline
import Warlock.RequestCharters
import Warlock.SubnetOwnership

/-!
# What is left of a dropped `create`

A `create` that is dropped while its guard is alive leaves its VM whole or not at all, unless its
own clean-up had already taken the entry out, or the pool was locked when the guard tried it: then
the entry is gone and the subnet stays in use for ever.
-/

namespace Warlock.GuardOutcomes
open ApplicationState EffectPrograms GuardDiscipline Ledgers MachineIntegers
  RequestCharters ReservationDiscipline ReservationProtocol Server ServerInvariant ServerOperations
  SshSession SubnetAddressing SubnetOwnership TaskViews TransitionSystems VmIdentifiers

/-- Task `n` has inserted the placeholder of VM `id`. -/
def Inserted (config : AppConfig) (past : History) (n : ℕ) (id : Uuid) (r : VmResources) : Prop :=
  ∃ a, Performed past n (.vms (.reserve id r)) a ∧
    (VmRegistry.reserve config.capacity id r a.shared.vms).2 = .ok ()

/-- Task `n` has taken the entry out in its own clean-up. -/
def Removed (past : History) (n : ℕ) : Prop := ∃ id a, Performed past n (.vms (.remove id)) a

/-- Task `n` has found the pool locked when its guard tried it. -/
def Contended (past : History) (n : ℕ) : Prop :=
  ∃ a, Performed past n (.tryLock .pool) a ∧ a.shared.locks .pool ≠ none

/-- Since it has inserted the placeholder, task `n` has taken the resource down. -/
inductive TakenDown (config : AppConfig) (n : ℕ) (id : Uuid) (r : VmResources) (x : Resource) :
    History → Prop
  | now {past : History} {a : State} {c : Choice} {t : HandlerTask} {o : Op}
      (hinserted : Inserted config past n id r) (hn : a.tasks[n]? = some t)
      (ho : t.nextOp = some o) (htarget : target o = some x) (hc : c.succeeds = true) :
      TakenDown config n id r x ((a, .run n c) :: past)
  | later {past : History} {p : State × Event} (h : TakenDown config n id r x past) :
      TakenDown config n id r x (p :: past)

/-- Since task `n` has inserted the placeholder, the subnet has been free. -/
inductive FreedSince (config : AppConfig) (n : ℕ) (id : Uuid) (r : VmResources) (i : U16) :
    History → State → Prop
  | now {past : History} {s : State} (hinserted : Inserted config past n id r)
      (hfree : i ∉ s.shared.subnetPool.inUse) : FreedSince config n id r i past s
  | later {past : History} {s s' : State} {e : Event} (h : FreedSince config n id r i past s) :
      FreedSince config n id r i ((s, e) :: past) s'

/-- The VM's entry is still there with its subnet, or nothing of the VM is. -/
def AllOrNothing (config : AppConfig) (past : History) (s : State) (n : ℕ) (id : Uuid)
    (r : VmResources) : Prop :=
  (s.shared.vms.lookup id = some (.creating r) ∧
      ∃ i, r.subnetIndex = some i ∧ SubnetOwner s (.entry id) i) ∨
    s.shared.vms.lookup id = none ∧
      (∀ i, r.subnetIndex = some i → FreedSince config n id r i past s) ∧
      ∀ x ∈ resourcesOf r, TakenDown config n id r x past

/-- What takes a resource down succeeds. -/
def Removing (s : State) : Event → Prop
  | .run n c => ∀ o ∈ s.tasks[n]?.bind HandlerTask.nextOp, (target o).isSome = true →
      c.succeeds = true
  | _ => True

instance (s : State) : (e : Event) → Decidable (Removing s e)
  | .run n _ => inferInstanceAs (Decidable (∀ o ∈ s.tasks[n]?.bind HandlerTask.nextOp, _ → _))
  | .request _ | .callback _ _ | .leave _ _ => isTrue trivial

variable {config : AppConfig} {lib : Libraries} {past : History} {s s' : State} {n : ℕ}
  {t t' : HandlerTask} {v : Effort} {id : Uuid} {r : VmResources} {i : U16} {x : Resource}
  {e : Event} {o : Op} {c : Choice} {sh : Shared} {reply : Reply o}

section Histories

theorem performed_cons {a : State} : Performed ((s, e) :: past) n o a ↔
    (a = s ∧ ∃ c t, e = .run n c ∧ s.tasks[n]? = some t ∧ t.nextOp = some o) ∨
      Performed past n o a := by
  constructor
  · rintro ⟨c, t, hmem, hn, ho⟩
    rcases List.mem_cons.mp hmem with heq | hmem
    · obtain ⟨rfl, rfl⟩ := Prod.mk.inj heq
      exact .inl ⟨rfl, c, t, rfl, hn, ho⟩
    · exact .inr ⟨c, t, hmem, hn, ho⟩
  · rintro (⟨rfl, c, t, rfl, hn, ho⟩ | h)
    · exact .now hn ho
    · exact h.tail _

/-- A task performs nothing when others step. -/
theorem performed_other {a : State} (he : ∀ c, e ≠ .run n c) :
    Performed ((s, e) :: past) n o a ↔ Performed past n o a := by
  rw [performed_cons]
  constructor
  · rintro (⟨_, c, _, hc, _⟩ | h)
    · exact absurd hc (he c)
    · exact h
  · exact .inr

/-- A task performs the operation it is about to perform. -/
theorem performed_run {a : State} {o' : Op} (hn : s.tasks[n]? = some t) (ho : t.nextOp = some o) :
    Performed ((s, .run n c) :: past) n o' a ↔ a = s ∧ o' = o ∨ Performed past n o' a := by
  rw [performed_cons]
  apply or_congr_left
  constructor
  · rintro ⟨rfl, _, t', _, hn', ho'⟩
    obtain rfl := Option.some.inj (hn.symm.trans hn')
    exact ⟨rfl, Option.some.inj (ho'.symm.trans ho)⟩
  · rintro ⟨rfl, rfl⟩
    exact ⟨rfl, c, t, rfl, hn, ho⟩

/-- The view tells what task `n` has done. -/
structure Recounts (config : AppConfig) (past : History) (n : ℕ) (v : Effort) : Prop where
  inserted : ∀ id r, Inserted config past n id r ↔ v.record = some (id, r)
  published : v.published = true → ∀ id r, v.record = some (id, r) →
    ∃ a, Performed past n (.vms (.upgrade id)) a
  removed : v.removed = true ↔ Removed past n
  contended : v.contended = true ↔ Contended past n
  done : ∀ x ∈ v.done, ∀ id r, v.record = some (id, r) → TakenDown config n id r x past

theorem Recounts.other (h : Recounts config past n v) (he : ∀ c, e ≠ .run n c) :
    Recounts config ((s, e) :: past) n v where
  inserted id r := by
    rw [← h.inserted id r]
    exact exists_congr fun a => and_congr_left fun _ => performed_other he
  published hp id r hr := by
    obtain ⟨a, ha⟩ := h.published hp id r hr
    exact ⟨a, ha.tail _⟩
  removed := by
    rw [h.removed]
    exact exists₂_congr fun id a => (performed_other he).symm
  contended := by
    rw [h.contended]
    exact exists_congr fun a => and_congr_left fun _ => (performed_other he).symm
  done x hx id r hr := .later (h.done x hx id r hr)

theorem Recounts.command (h : Recounts config past n v) (hn : s.tasks[n]? = some t)
    (ho : t.nextOp = some o) (hdown : (target o).isSome = true → c.succeeds = true)
    (hrecord : ∀ id r, o ≠ .vms (.reserve id r)) (hremove : ∀ id, o ≠ .vms (.remove id))
    (hlock : o ≠ .tryLock .pool) :
    Recounts config ((s, .run n c) :: past) n { v with done := noteDone v o } where
  inserted id r := by
    rw [← h.inserted id r]
    refine exists_congr fun a => and_congr_left fun _ => ?_
    rw [performed_run hn ho, or_iff_right fun h => hrecord id r h.2.symm]
  published hp id r hr := by
    obtain ⟨a, ha⟩ := h.published hp id r hr
    exact ⟨a, ha.tail _⟩
  removed := by
    rw [h.removed]
    refine exists₂_congr fun id a => ?_
    rw [performed_run hn ho, or_iff_right fun h => hremove id h.2.symm]
  contended := by
    rw [h.contended]
    refine exists_congr fun a => and_congr_left fun _ => ?_
    rw [performed_run hn ho, or_iff_right fun h => hlock h.2.symm]
  done x hx id r hr := by
    have hsome : v.record.isSome = true := by rw [hr]; rfl
    simp only [noteDone, hsome, if_true, List.mem_append, Option.mem_toList] at hx
    rcases hx with hx | hx
    · exact .now ((h.inserted id r).mpr hr) hn ho hx (hdown (Option.isSome_of_mem hx))
    · exact .later (h.done x hx id r hr)

/-- An operation that is none of the ones recounted. -/
theorem Recounts.same (h : Recounts config past n v) (hn : s.tasks[n]? = some t)
    (ho : t.nextOp = some o) (htarget : target o = none)
    (hrecord : ∀ id r, o ≠ .vms (.reserve id r)) (hremove : ∀ id, o ≠ .vms (.remove id))
    (hlock : o ≠ .tryLock .pool) : Recounts config ((s, .run n c) :: past) n v := by
  have hdone : noteDone v o = v.done := by simp [noteDone, htarget]
  have hstep := h.command (c := c) hn ho (by simp [htarget]) hrecord hremove hlock
  rwa [hdone] at hstep

theorem Recounts.reserve (h : Recounts config past n v) (hn : s.tasks[n]? = some t)
    (ho : t.nextOp = some (.vms (.reserve id r))) (hnone : v.record = none)
    (hremoved : v.removed = false) :
    Recounts config ((s, .run n c) :: past) n (noteEffort v (.vms (.reserve id r))
      (VmRegistry.reserve config.capacity id r s.shared.vms).2) := by
  have hbefore (id' : Uuid) (r' : VmResources) : ¬ Inserted config past n id' r' := by
    rw [h.inserted, hnone]
    simp
  have hinserted (id' : Uuid) (r' : VmResources) :
      Inserted config ((s, .run n c) :: past) n id' r' ↔ (id' = id ∧ r' = r) ∧
        (VmRegistry.reserve config.capacity id r s.shared.vms).2 = .ok () := by
    constructor
    · rintro ⟨a, ha, hok⟩
      rcases (performed_run hn ho).mp ha with ⟨rfl, hop⟩ | ha
      · cases hop
        exact ⟨⟨rfl, rfl⟩, hok⟩
      · exact absurd ⟨a, ha, hok⟩ (hbefore id' r')
    · rintro ⟨⟨rfl, rfl⟩, hok⟩
      exact ⟨s, .now hn ho, hok⟩
  have hkept : Removed ((s, .run n c) :: past) n ↔ Removed past n :=
    exists₂_congr fun id a => by rw [performed_run hn ho, or_iff_right fun h => by simp at h]
  have hlocked : Contended ((s, .run n c) :: past) n ↔ Contended past n :=
    exists_congr fun a => and_congr_left fun _ => by
      rw [performed_run hn ho, or_iff_right fun h => by simp at h]
  cases hreply : (VmRegistry.reserve config.capacity id r s.shared.vms).2 with
  | error e =>
    refine ⟨fun id' r' => ?_, fun hp id' r' hr => ?_, ?_, ?_, fun x hx id' r' hr => ?_⟩
    · rw [hinserted, hreply]
      simp [noteEffort, hnone]
    · simp [noteEffort, hnone] at hr
    · rw [hkept, ← h.removed]
      rfl
    · rw [hlocked, ← h.contended]
      rfl
    · simp [noteEffort, hnone] at hr
  | ok _ =>
    refine ⟨fun id' r' => ?_, by simp [noteEffort], ?_, ?_, by simp [noteEffort]⟩
    · rw [hinserted, hreply]
      simp [noteEffort, eq_comm]
    · rw [hkept, ← h.removed, hremoved]
      rfl
    · rw [hlocked, ← h.contended]
      rfl

theorem Recounts.tryLock (h : Recounts config past n v) (hn : s.tasks[n]? = some t)
    (ho : t.nextOp = some (.tryLock .pool)) {acquired : Bool}
    (hacquired : acquired = true ↔ s.shared.locks .pool = none) :
    Recounts config ((s, .run n c) :: past) n (noteEffort v (.tryLock .pool) acquired) := by
  have hinserted (id : Uuid) (r : VmResources) :
      Inserted config ((s, .run n c) :: past) n id r ↔ v.record = some (id, r) := by
    rw [← h.inserted id r]
    exact exists_congr fun a => and_congr_left fun _ => by
      rw [performed_run hn ho, or_iff_right fun h => by simp at h]
  have hremoved : v.removed = true ↔ Removed ((s, .run n c) :: past) n := by
    rw [h.removed]
    exact exists₂_congr fun id a => by rw [performed_run hn ho, or_iff_right fun h => by simp at h]
  have hpublished (hp : v.published = true) (id : Uuid) (r : VmResources)
      (hr : v.record = some (id, r)) :
      ∃ a, Performed ((s, .run n c) :: past) n (.vms (.upgrade id)) a := by
    obtain ⟨a, ha⟩ := h.published hp id r hr
    exact ⟨a, ha.tail _⟩
  have hcontended : Contended ((s, .run n c) :: past) n ↔
      s.shared.locks .pool ≠ none ∨ Contended past n := by
    constructor
    · rintro ⟨a, ha, hlocked⟩
      rcases (performed_run hn ho).mp ha with ⟨rfl, _⟩ | ha
      · exact .inl hlocked
      · exact .inr ⟨a, ha, hlocked⟩
    · rintro (hlocked | ⟨a, ha, hlocked⟩)
      · exact ⟨s, .now hn ho, hlocked⟩
      · exact ⟨a, ha.tail _, hlocked⟩
  cases acquired with
  | true =>
    refine ⟨hinserted, hpublished, hremoved, ?_, fun x hx id r hr => .later (h.done x hx id r hr)⟩
    rw [hcontended, or_iff_right (fun h => h (hacquired.mp rfl))]
    exact h.contended
  | false =>
    refine ⟨hinserted, hpublished, hremoved, ?_, fun x hx id r hr => .later (h.done x hx id r hr)⟩
    have hlocked : s.shared.locks .pool ≠ none := by
      intro hfree
      exact Bool.false_ne_true (hacquired.mpr hfree)
    exact iff_of_true rfl (hcontended.mpr (.inl hlocked))

theorem Recounts.remove (h : Recounts config past n v) (hn : s.tasks[n]? = some t)
    (ho : t.nextOp = some (.vms (.remove id))) :
    Recounts config ((s, .run n c) :: past) n { v with removed := true } where
  inserted id' r := by
    rw [← h.inserted id' r]
    exact exists_congr fun a => and_congr_left fun _ => by
      rw [performed_run hn ho, or_iff_right fun h => by simp at h]
  published hp id' r hr := by
    obtain ⟨a, ha⟩ := h.published hp id' r hr
    exact ⟨a, ha.tail _⟩
  removed := iff_of_true rfl ⟨id, s, .now hn ho⟩
  contended := by
    rw [h.contended]
    exact exists_congr fun a => and_congr_left fun _ => by
      rw [performed_run hn ho, or_iff_right fun h => by simp at h]
  done x hx id r hr := .later (h.done x hx id r hr)

theorem Recounts.step (h : Recounts config past n v) (hn : s.tasks[n]? = some t)
    (ho : t.nextOp = some o) (hexec : exec config n c s.shared o = some (sh, some reply))
    (hdown : (target o).isSome = true → c.succeeds = true)
    (hallow : allows config o c reply t.ledger.view)
    (hid : ∀ id, o = .vms (.upgrade id) → ∀ id' r, v.record = some (id', r) → id' = id)
    (hfresh : ∀ id r, o = .vms (.reserve id r) → v.record = none ∧ v.removed = false) :
    Recounts config ((s, .run n c) :: past) n (noteEffort v o reply) := by
  have hother (ht : target o = none) (hr : ∀ id r, o ≠ .vms (.reserve id r))
      (hv : ∀ id, o ≠ .vms (.remove id)) (hl : o ≠ .tryLock .pool) :
      Recounts config ((s, .run n c) :: past) n v := h.same hn ho ht hr hv hl
  cases o with
  | command cmd => exact h.command hn ho hdown (by simp) (by simp) (by simp)
  | removeFile path => exact h.command hn ho hdown (by simp) (by simp) (by simp)
  | release i =>
    have hsame := hother rfl (by simp) (by simp) (by simp)
    exact ⟨hsame.inserted, hsame.published, hsame.removed, hsame.contended, hsame.done⟩
  | tryLock m =>
    cases m with
    | registry => cases reply <;> exact hother rfl (by simp) (by simp) (by simp)
    | pool =>
      refine h.tryLock hn ho ?_
      simp only [exec] at hexec
      split at hexec
      · obtain ⟨_, rfl⟩ := by simpa using hexec
        simp_all
      · obtain ⟨_, rfl⟩ := by simpa using hexec
        simp_all
  | vms sec =>
    cases sec with
    | reserve id r =>
      obtain ⟨_, rfl⟩ := by simpa [exec] using hexec
      obtain ⟨hnone, hremoved⟩ := hfresh id r rfl
      exact h.reserve hn ho hnone hremoved
    | upgrade id =>
      have hsame := hother rfl (by simp) (by simp) (by simp)
      obtain rfl : reply = true := hallow
      refine ⟨hsame.inserted, fun _ id' r hr => ?_, hsame.removed, hsame.contended, hsame.done⟩
      obtain rfl := hid id rfl id' r hr
      exact ⟨s, .now hn ho⟩
    | remove id =>
      obtain ⟨r, _, rfl⟩ := hallow
      exact h.remove hn ho
    | discard id =>
      have hsame := hother rfl (by simp) (by simp) (by simp)
      exact ⟨hsame.inserted, hsame.published, hsame.removed, hsame.contended, hsame.done⟩
    | _ => exact hother rfl (by simp) (by simp) (by simp)
  | _ => exact hother rfl (by simp) (by simp) (by simp)

/-- The operations of task `n` with the states that they were performed in. -/
def performances (past : History) (n : ℕ) : List (State × Op) := past.filterMap fun p =>
  match p.2 with
  | .run k _ => if k = n then (p.1.tasks[n]?.bind HandlerTask.nextOp).map (Prod.mk p.1) else none
  | _ => none

theorem mem_performances {a : State} : (a, o) ∈ performances past n ↔ Performed past n o a := by
  simp only [performances, List.mem_filterMap]
  constructor
  · rintro ⟨⟨b, e⟩, hmem, he⟩
    cases e with
    | run k c =>
      dsimp only at he
      split_ifs at he with hk
      · obtain ⟨o', ho', heq⟩ := Option.map_eq_some_iff.mp he
        obtain ⟨rfl, rfl⟩ := Prod.mk.inj heq
        obtain ⟨t, hn, ho⟩ := Option.bind_eq_some_iff.mp ho'
        exact ⟨c, t, hk ▸ hmem, hn, ho⟩
    | _ => simp at he
  · rintro ⟨c, t, hmem, hn, ho⟩
    exact ⟨(a, .run n c), hmem, by simp [hn, ho]⟩

/-- The placeholders that task `n` has inserted. -/
def insertions (config : AppConfig) (past : History) (n : ℕ) : List (Uuid × VmResources) :=
  (performances past n).filterMap fun p => match p.2 with
    | .vms (.reserve id r) => match (VmRegistry.reserve config.capacity id r p.1.shared.vms).2 with
      | .ok () => some (id, r)
      | .error _ => none
    | _ => none

theorem inserted_of_mem (h : (id, r) ∈ insertions config past n) : Inserted config past n id r := by
  obtain ⟨⟨a, o⟩, hmem, ho⟩ := List.mem_filterMap.mp h
  have hperformed := mem_performances.mp hmem
  dsimp only at ho
  split at ho
  · split at ho
    · obtain ⟨rfl, rfl⟩ : _ ∧ _ := by simpa using ho
      exact ⟨a, hperformed, ‹_›⟩
    · simp at ho
  · simp at ho

theorem not_performed {p : State × Op → Bool} (h : (performances past n).any p = false) {a : State}
    (hp : p (a, o) = true) : ¬ Performed past n o a := by
  intro hperformed
  have hfalse := List.any_eq_false.mp h (a, o) (mem_performances.mpr hperformed)
  exact hfalse hp

def outcomeOf (t : HandlerTask) : Option Outcome :=
  match t.code with
  | .ret outcome => some outcome
  | .op _ _ _ _ => none

theorem code_of_outcome {outcome : Outcome}
    (h : s.tasks[n]?.bind outcomeOf = some outcome) :
    ∃ t, s.tasks[n]? = some t ∧ t.code = .ret outcome := by
  obtain ⟨t, hn, ht⟩ := Option.bind_eq_some_iff.mp h
  refine ⟨t, hn, ?_⟩
  unfold outcomeOf at ht
  split at ht
  · rename_i hcode
    rw [hcode, Option.some.inj ht]
  · simp at ht

end Histories

section Standpoints

/-- The standing of the task in the reservation protocol. -/
def standingOf (v : Effort) : Standing VmResources :=
  match v.record with
  | none => .fresh
  | some (_, r) =>
    if v.removed || v.discarded then .gone
    else if v.published then .upgraded r
    else if v.released then .released r
    else .creating r

/-- The view fits the task's part in the reservation protocol. -/
structure Stands (config : AppConfig) (l : Standpoint) (v : Effort) : Prop where
  identity : ∀ id r, v.record = some (id, r) → l.id = some id ∧ RecordFits config id r
  fresh : v.record = none → v.removed = false
  standing : l.standing = standingOf v
  slot : ∀ id r j, v.record = some (id, r) → l.slot = some j →
    v.removed = true ∧ r.subnetIndex = some j
  kept : ∀ id r, v.record = some (id, r) → v.removed = true → v.released = false →
    l.slot = r.subnetIndex ∨ l.lost = r.subnetIndex

variable {l l' : Standpoint} {m : Mutex}

theorem Stands.same (h : Stands config l v) (hid : l'.id = l.id) (hst : l'.standing = l.standing)
    (hslot : l'.slot = l.slot) (hlost : l'.lost = l.lost) : Stands config l' v :=
  ⟨hid ▸ h.identity, h.fresh, hst ▸ h.standing, hslot ▸ h.slot, hslot ▸ hlost ▸ h.kept⟩

theorem Stands.set (h : Stands config l v) (m : Mutex) (b : Bool) :
    Stands config (l.set m b) v := h.same (by simp) (by simp) (by simp) (by simp)

/-- A task that is at the beginning has no record. -/
theorem Stands.record_none (h : Stands config l v) (hst : l.standing = .fresh) :
    v.record = none := by
  have hstanding := h.standing
  rw [hst, standingOf] at hstanding
  split at hstanding
  · assumption
  · split_ifs at hstanding

/-- The placeholder is in the map. -/
theorem Stands.creating (h : Stands config l v) (hst : l.standing = .creating r) :
    ∃ id, v.record = some (id, r) ∧ v.removed = false ∧ v.discarded = false ∧
      v.published = false ∧ v.released = false := by
  have hstanding := h.standing
  rw [hst, standingOf] at hstanding
  split at hstanding
  · simp at hstanding
  · rename_i id r' hrecord
    split_ifs at hstanding with hgone hup hreleased
    obtain rfl : r = r' := by simpa using hstanding
    obtain ⟨hremoved, hdiscarded⟩ := by simpa using hgone
    exact ⟨id, hrecord, hremoved, hdiscarded, by simpa using hup, by simpa using hreleased⟩

theorem Stands.abandon (h : Stands config l v) : Stands config (abandonView l) v where
  identity := h.identity
  fresh := h.fresh
  standing := h.standing
  slot id r j _ hj := by simp [abandonView] at hj
  kept id r hrecord hremoved hreleased := by
    right
    change l.slot.or l.lost = r.subnetIndex
    cases hslot : l.slot with
    | some j => exact (h.slot id r j hrecord hslot).2.symm
    | none =>
      rcases h.kept id r hrecord hremoved hreleased with hk | hk
      · obtain ⟨i, _, hi, _⟩ := (h.identity id r hrecord).2.subnet
        simp [hslot, hi] at hk
      · exact hk

theorem Stands.release (h : Stands config l v) (hreq : MayRelease l i) :
    Stands config (noteRelease l i) { v with released := v.record.isSome } := by
  rcases hreq.2 with hslot | ⟨hnone, _, _, r, hst, hi⟩
  · have hnote : noteRelease l i = { l with slot := none } := by simp [noteRelease, hslot]
    rw [hnote]
    refine ⟨h.identity, h.fresh, ?_, by simp, fun id r hrecord _ hreleased => ?_⟩
    · cases hrecord : v.record with
      | none => simpa [standingOf, hrecord] using h.standing
      | some p =>
        obtain ⟨id, r⟩ := p
        have hremoved := (h.slot id r i hrecord hslot).1
        simpa [standingOf, hrecord, hremoved] using h.standing
    · simp [show v.record = some (id, r) from hrecord] at hreleased
  · obtain ⟨id, hrecord, hremoved, hdiscarded, hpublished, _⟩ := h.creating hst
    have hnote : noteRelease l i = { l with standing := .released r } := by
      simp [noteRelease, hnone, hst]
    rw [hnote]
    refine ⟨h.identity, h.fresh, ?_, h.slot, fun id r _ hgone => ?_⟩
    · simp [standingOf, hrecord, hremoved, hdiscarded, hpublished]
    · simp [hremoved] at hgone

theorem Stands.reserve (h : Stands config l v) (hreq : sectionRequires config l (.reserve id r))
    (reserved : Except ApiError Unit) :
    Stands config (noteSection l (.reserve id r) reserved)
      (noteEffort v (.vms (.reserve id r)) reserved) := by
  obtain ⟨hid, hst, hslot, hfits, _⟩ := hreq
  cases reserved with
  | error e => exact h
  | ok _ =>
    constructor
    · intro id' r' hr
      obtain ⟨rfl, rfl⟩ : id = id' ∧ r = r' := by simpa [noteEffort] using hr
      exact ⟨hid, hfits⟩
    · simp [noteEffort]
    · simp [noteSection, standingOf, noteEffort]
    · simp [noteSection]
    · simp [noteEffort]

theorem Stands.upgrade (h : Stands config l v) (hreq : sectionRequires config l (.upgrade id)) :
    Stands config (noteSection l (.upgrade id) true) { v with published := true } := by
  obtain ⟨_, ⟨r, hst⟩, _⟩ := hreq
  obtain ⟨id', hrecord, hremoved, hdiscarded, _, _⟩ := h.creating hst
  have hnote : noteSection l (.upgrade id) true =
      { l with standing := .upgraded r, agent := none } := by simp [noteSection, hst]
  rw [hnote]
  exact ⟨h.identity, h.fresh, by simp [standingOf, hrecord, hremoved, hdiscarded], h.slot, h.kept⟩

theorem Stands.remove (h : Stands config l v) (id : Uuid) (hst : l.standing = .creating r) :
    Stands config (noteSection l (.remove id) (some (.creating r))) { v with removed := true } := by
  obtain ⟨id', hrecord, _, _, _, _⟩ := h.creating hst
  have hsame {id'' r'} (hr : v.record = some (id'', r')) : r' = r :=
    (Prod.mk.inj (Option.some.inj (hr.symm.trans hrecord))).2
  refine ⟨h.identity, fun hnone => ?_, ?_, fun id'' r' j hr hj => ?_, fun id'' r' hr _ _ => ?_⟩
  · simp [show v.record = none from hnone] at hrecord
  · simp [noteSection, standingOf, hrecord]
  · obtain rfl := hsame hr
    exact ⟨rfl, hj⟩
  · obtain rfl := hsame hr
    exact .inl rfl

theorem Stands.discard (h : Stands config l v) (hreq : sectionRequires config l (.discard id)) :
    Stands config (noteSection l (.discard id) ()) { v with discarded := true } := by
  refine ⟨h.identity, h.fresh, ?_, h.slot, h.kept⟩
  cases hrecord : v.record with
  | some p => simp [noteSection, standingOf]
  | none =>
    have hfresh : l.standing = .fresh := by simpa [standingOf, hrecord] using h.standing
    obtain ⟨_, hgone | ⟨_, _, r, hst | hst⟩⟩ := hreq
    · simp [hfresh] at hgone
    · simp [hfresh] at hst
    · simp [hfresh] at hst

theorem Stands.step (h : Stands config l v) (hreq : requires config o l)
    (hallow : allows config o c reply l) (halloc : o = .allocate → v.record = none) :
    Stands config (noteView l o reply) (noteEffort v o reply) := by
  have hunrecorded (hid : l.id = none) : v.record = none := by
    by_contra hne
    obtain ⟨⟨id, r⟩, hrecord⟩ := Option.ne_none_iff_exists'.mp hne
    simp [(h.identity id r hrecord).1] at hid
  have hvacant {l' : Standpoint} (hnone : v.record = none) (hst : l'.standing = l.standing) :
      Stands config l' v :=
    ⟨by simp [hnone], h.fresh, hst ▸ h.standing, by simp [hnone], by simp [hnone]⟩
  cases o with
  | lock m => exact h.set m true
  | unlock m => exact h.set m false
  | tryLock m =>
    cases m with
    | registry =>
      cases reply with
      | true => exact h.set .registry true
      | false => exact h.same rfl rfl rfl rfl
    | pool =>
      cases reply with
      | true => exact h.set .pool true
      | false => exact ⟨h.identity, h.fresh, h.standing, h.slot, h.kept⟩
  | allocate =>
    cases reply with
    | none => exact h
    | some a => exact hvacant (halloc rfl) rfl
  | release i => exact h.release hreq.2.2
  | newV4 => exact hvacant (hunrecorded hreq.1) rfl
  | command cmd => exact ⟨h.identity, h.fresh, h.standing, h.slot, h.kept⟩
  | removeFile path => exact ⟨h.identity, h.fresh, h.standing, h.slot, h.kept⟩
  | dropLocals => exact h.abandon
  | build vmId options => cases reply <;> exact h.same rfl rfl rfl rfl
  | dropInstance vmId => exact h.same rfl rfl rfl rfl
  | vms sec =>
    obtain ⟨_, hreq⟩ := hreq
    cases sec with
    | reserve id r => exact h.reserve hreq reply
    | upgrade id =>
      obtain rfl : reply = true := hallow
      exact h.upgrade hreq
    | remove id =>
      obtain ⟨r, hst, rfl⟩ := hallow
      exact h.remove id hst
    | discard id => exact h.discard hreq
    | take id =>
      cases reply with
      | error e => exact h
      | ok r => exact hvacant (hunrecorded hreq.1) rfl
    | _ => exact h
  | _ => exact h

/-- What the server promises of a reply is what the code relies on. -/
theorem Stands.allows (h : Stands config l v) (hallow : allows config o c reply l) :
    effortAllows o reply v := by
  cases o with
  | vms sec =>
    cases sec with
    | upgrade id => exact hallow
    | remove id =>
      obtain ⟨r, hst, rfl⟩ := hallow
      obtain ⟨id', hrecord, _⟩ := h.creating hst
      intro r' hr'
      obtain rfl : r = r' := (Prod.mk.inj (Option.some.inj (hrecord.symm.trans hr'))).2
      rfl
    | get id =>
      intro r hrecord hpublished hdiscarded hreleased
      have hplaced := hallow.1 (h.identity id r hrecord).1
      rw [h.standing] at hplaced
      cases hremoved : v.removed <;>
        simpa [standingOf, hrecord, hpublished, hdiscarded, hreleased, hremoved] using hplaced
    | _ => trivial
  | _ => trivial

end Standpoints

section Slots

/-- The subnet is in use and nobody's, so it stays in use. -/
abbrev Lost (s : State) (i : U16) : Prop := Stranded VmResources.subnetIndex (siteOf s) i

theorem Lost.step (h : Lost s i) (hs : Sound config s) (he : step config lib s e = some s') :
    Lost s' i := by
  rcases hs.move he (.inl trivial) with hm | hsame
  · exact Stranded.move h hs.protocol hm
  · unfold Lost
    rw [hsame]
    exact h

/-- The task has discarded the placeholder without giving the subnet back. -/
structure Dropped (v : Effort) (id : Uuid) (r : VmResources) : Prop where
  record : v.record = some (id, r)
  published : v.published = false
  removed : v.removed = false
  discarded : v.discarded = true
  released : v.released = false

/-- A subnet that was not given back is in use. -/
theorem inUse_of_stands (hs : Sound config s) (hn : s.tasks[n]? = some t)
    (h : Stands config t.ledger.view v) (hdropped : Dropped v id r → Lost s i)
    (hrecord : v.record = some (id, r)) (hi : r.subnetIndex = some i)
    (hpublished : v.published = false) (hreleased : v.released = false) :
    i ∈ s.shared.subnetPool.inUse := by
  cases hremoved : v.removed with
  | true =>
    rcases h.kept id r hrecord hremoved hreleased with hslot | hlost
    · exact hs.protocol.used _ i (owner_of_slot hn (hslot.trans hi))
    · exact (hs.protocol.lost n _ i (siteOf_task hn) (hlost.trans hi)).1
  | false =>
    cases hdiscarded : v.discarded with
    | true => exact (hdropped ⟨hrecord, hpublished, hremoved, hdiscarded, hreleased⟩).1
    | false =>
      have hst : t.ledger.view.standing = .creating r := by
        simp [h.standing, standingOf, hrecord, hremoved, hdiscarded, hpublished, hreleased]
      exact hs.protocol.used _ i
        (owner_of_placeholder hs hn (h.identity id r hrecord).1 hst hi)

theorem inserted_of_freedSince (h : FreedSince config n id r i past s) :
    Inserted config past n id r := by
  induction h with
  | now hinserted _ => exact hinserted
  | later _ ih =>
    obtain ⟨a, ha, hok⟩ := ih
    exact ⟨a, ha.tail _, hok⟩

theorem freedSince_cons : FreedSince config n id r i ((s, e) :: past) s' ↔
    Inserted config ((s, e) :: past) n id r ∧ i ∉ s'.shared.subnetPool.inUse ∨
      FreedSince config n id r i past s := by
  constructor
  · intro h
    cases h with
    | now hinserted hfree => exact .inl ⟨hinserted, hfree⟩
    | later h => exact .inr h
  · rintro (⟨hinserted, hfree⟩ | h)
    · exact .now hinserted hfree
    · exact .later h

/-- The view tells whether the subnet has been free. -/
structure Frees (config : AppConfig) (past : History) (s : State) (n : ℕ) (v : Effort) : Prop where
  dropped : ∀ id r i, Dropped v id r → r.subnetIndex = some i → Lost s i
  freed : ∀ id r i, v.record = some (id, r) → v.published = false → r.subnetIndex = some i →
    (FreedSince config n id r i past s ↔ v.released = true)

/-- A step after which a subnet that was given back now is free. -/
theorem Frees.advance {v' : Effort} (h : Frees config past s n v) (hs : Sound config s')
    (hn : s'.tasks[n]? = some t) (hstands : Stands config t.ledger.view v')
    (hrecounts : Recounts config ((s, e) :: past) n v')
    (hdropped : ∀ id r i, Dropped v' id r → r.subnetIndex = some i → Lost s' i)
    (hrecord : v'.record = v.record) (hpublished : v'.published = false → v.published = false)
    (hkept : ∀ id r, v.record = some (id, r) → v.released = true → v'.released = true)
    (hreleased : ∀ id r i, v.record = some (id, r) → r.subnetIndex = some i →
      v'.released = true → v.released = true ∨ i ∉ s'.shared.subnetPool.inUse) :
    Frees config ((s, e) :: past) s' n v' where
  dropped := hdropped
  freed id r i hr hp hi := by
    have hfreed := h.freed id r i (hrecord ▸ hr) (hpublished hp) hi
    rw [freedSince_cons, hfreed]
    constructor
    · rintro (⟨_, hfree⟩ | hbefore)
      · by_contra hne
        exact hfree (inUse_of_stands hs hn hstands (fun hd => hdropped id r i hd hi) hr hi hp
          (by simpa using hne))
      · exact hkept id r (hrecord ▸ hr) hbefore
    · intro hnow
      rcases hreleased id r i (hrecord ▸ hr) hi hnow with hbefore | hfree
      · exact .inr hbefore
      · exact .inl ⟨(hrecounts.inserted id r).mpr hr, hfree⟩

theorem Frees.still {v' : Effort} (h : Frees config past s n v) (hs : Sound config s)
    (hs' : Sound config s') (he : step config lib s e = some s') (hn : s'.tasks[n]? = some t)
    (hstands : Stands config t.ledger.view v') (hrecounts : Recounts config ((s, e) :: past) n v')
    (hdropped : ∀ id r, Dropped v' id r → Dropped v id r) (hrecord : v'.record = v.record)
    (hpublished : v'.published = false → v.published = false) (hkept : v'.released = v.released) :
    Frees config ((s, e) :: past) s' n v' := by
  apply h.advance hs' hn hstands hrecounts _ hrecord hpublished
  · intro _ _ _ hbefore
    rw [hkept]
    exact hbefore
  · intro id r i _ _ hnow
    rw [hkept] at hnow
    exact .inl hnow
  · intro id r i hd hi
    exact (h.dropped id r i (hdropped id r hd) hi).step hs he

theorem Frees.reserve {reserved : Except ApiError Unit} (hrecounts₀ : Recounts config past n v)
    (hs' : Sound config s') (hn : s'.tasks[n]? = some t)
    (hstands : Stands config t.ledger.view (noteEffort v (.vms (.reserve id r)) reserved))
    (hrecounts : Recounts config ((s, e) :: past) n
      (noteEffort v (.vms (.reserve id r)) reserved)) (hnone : v.record = none) :
    Frees config ((s, e) :: past) s' n (noteEffort v (.vms (.reserve id r)) reserved) := by
  cases reserved with
  | error _ =>
    constructor
    · intro id' r' i hd
      simp only [noteEffort] at hd
      exact absurd hd.record (by simp [hnone])
    · intro id' r' i hr
      simp [noteEffort, hnone] at hr
  | ok _ =>
    have hkept (id' : Uuid) (r' : VmResources) :
        ¬ Dropped (noteEffort v (.vms (.reserve id r)) (.ok ())) id' r' :=
      fun hd => absurd hd.discarded (by simp [noteEffort])
    refine ⟨fun id' r' i hd => absurd hd (hkept id' r'), fun id' r' i hr hp hi => ?_⟩
    rw [freedSince_cons]
    refine iff_of_false ?_ (by simp [noteEffort])
    rintro (⟨_, hfree⟩ | hbefore)
    · exact hfree (inUse_of_stands hs' hn hstands (fun hd => absurd hd (hkept id' r')) hr hi hp rfl)
    · have hinserted := (hrecounts₀.inserted id' r').mp (inserted_of_freedSince hbefore)
      simp [hnone] at hinserted

/-- A placeholder that is discarded without its subnet being given back strands the subnet. -/
theorem lost_of_discard (hs : Sound config s) (hn : s.tasks[n]? = some t)
    (hst : t.ledger.view.standing = .creating r) (hi : r.subnetIndex = some i)
    (hreq : requires config (.vms (.discard id)) t.ledger.view)
    (hview : t'.ledger.view = noteSection t.ledger.view (.discard id) ()) :
    Lost ⟨{ s.shared with vms := s.shared.vms.erase id }, s.tasks.set n t'⟩ i := by
  obtain ⟨hregistry, hid, hgone | ⟨hslot, hagent, _⟩⟩ := hreq
  · simp [hst] at hgone
  · have hstranded :=
      stranded_discard hs.protocol (siteOf_task hn) hregistry hid hst hslot hagent hi
    unfold Lost
    rw [siteOf_set hn, worldOf_erase, hview]
    exact hstranded

end Slots

section Runs

/-- What the view tells about a task of a run. -/
structure Told (config : AppConfig) (past : History) (s : State) (n : ℕ) (t : HandlerTask)
    (v : Effort) : Prop where
  recounts : Recounts config past n v
  stands : Stands config t.ledger.view v
  frees : Frees config past s n v

theorem Told.initial (hl : t.ledger = {})
    (hnever : ∀ p ∈ past, p.2.subject ≠ some n) : Told config past s n t {} := by
  have hnone {o : Op} {a : State} : ¬ Performed past n o a := by
    rintro ⟨c, _, hmem, _⟩
    exact hnever _ hmem rfl
  have hview : t.ledger.view = {} := by rw [hl]
  refine ⟨⟨fun id r => ?_, by simp, ?_, ?_, by simp⟩, ⟨by simp, by simp, ?_, by simp, by simp⟩,
    ⟨fun _ _ _ hd => absurd hd.record (by simp), by simp⟩⟩
  · exact iff_of_false (fun ⟨a, ha, _⟩ => hnone ha) (by simp)
  · exact iff_of_false (by simp) fun ⟨_, a, ha⟩ => hnone ha
  · exact iff_of_false (by simp) fun ⟨a, ha, _⟩ => hnone ha
  · rw [hview]
    rfl

/-- The steps of the others leave what is told of a task as it is. -/
theorem Told.idle (h : Told config past s n t v) (hs : Sound config s)
    (he : step config lib s e = some s') (hn : s'.tasks[n]? = some t')
    (hl : t'.ledger = t.ledger) (hother : ∀ c, e ≠ .run n c) :
    Told config ((s, e) :: past) s' n t' v := by
  have hrecounts : Recounts config ((s, e) :: past) n v := h.recounts.other hother
  have hstands : Stands config t'.ledger.view v := by
    rw [hl]
    exact h.stands
  exact ⟨hrecounts, hstands, h.frees.still hs (hs.step he) he hn hstands hrecounts
    (fun _ _ hd => hd) rfl (fun hp => hp) rfl⟩

/-- What a discard strands, or has stranded before. -/
theorem lost_of_told (h : Told config past s n t v) (hs : Sound config s)
    (hn : s.tasks[n]? = some t) (he : step config lib s e = some s')
    (hreq : requires config (.vms (.discard id)) t.ledger.view)
    (hview : t'.ledger.view = noteSection t.ledger.view (.discard id) ())
    (hs' : s' = ⟨{ s.shared with vms := s.shared.vms.erase id }, s.tasks.set n t'⟩)
    {id' : Uuid} (hd : Dropped { v with discarded := true } id' r) (hi : r.subnetIndex = some i) :
    Lost s' i := by
  cases hdiscarded : v.discarded with
  | true =>
    have hbefore : Dropped v id' r := ⟨hd.record, hd.published, hd.removed, hdiscarded, hd.released⟩
    exact (h.frees.dropped id' r i hbefore hi).step hs he
  | false =>
    have hst : t.ledger.view.standing = .creating r := by
      have hrecord : v.record = some (id', r) := hd.record
      have hpublished : v.published = false := hd.published
      have hremoved : v.removed = false := hd.removed
      have hreleased : v.released = false := hd.released
      simp [h.stands.standing, standingOf, hrecord, hpublished, hremoved, hreleased, hdiscarded]
    rw [hs']
    exact lost_of_discard hs hn hst hi hreq hview

/-- The subnet of the task's placeholder is free once it is released. -/
theorem free_of_release (h : Stands config t.ledger.view v) (hrecord : v.record = some (id, r))
    (hi : r.subnetIndex = some i) {j : U16} (hreq : requires config (.release j) t.ledger.view)
    (hexec : exec config n c s.shared (.release j) = some (sh, some ())) :
    i ∉ sh.subnetPool.inUse := by
  obtain ⟨_, hj, _, hown⟩ := hreq
  obtain rfl : i = j := by
    rcases hown with hslot | ⟨_, _, _, r', hst, hj'⟩
    · exact Option.some.inj (hi.symm.trans (h.slot id r j hrecord hslot).2)
    · obtain ⟨_, hrecord', _⟩ := h.creating hst
      obtain rfl : r = r' := (Prod.mk.inj (Option.some.inj (hrecord.symm.trans hrecord'))).2
      exact Option.some.inj (hi.symm.trans hj')
  obtain ⟨pool, hpool, huse⟩ := SubnetPool.release_eq_some s.shared.subnetPool hj
  obtain rfl : { s.shared with subnetPool := pool } = sh := by simpa [exec, hpool] using hexec
  change i ∉ pool.inUse
  rw [huse]
  exact fun hmem => hmem.2 rfl

theorem Told.run {request : Request} {may : Exit → Bool} {exit : Exit → Program Reply Outcome}
    {next : Reply o → Program Reply Outcome} {l : Ledger} (hr : (server config lib).Run past s)
    (hok : Removing s (.run n c)) (hn : s.tasks[n]? = some ⟨request, .op o may exit next, l⟩)
    (hexec : exec config n c s.shared o = some (sh, some reply))
    (h : Told config past s n ⟨request, .op o may exit next, l⟩ v)
    (hreq : (guarding request).requires o v) (hallow : allows config o c reply l.view) :
    Told config ((s, .run n c) :: past) ⟨sh, s.tasks.set n ⟨request, next reply, l.note c o reply⟩⟩
      n ⟨request, next reply, l.note c o reply⟩ (noteEffort v o reply) := by
  have hs := sound_of_reachable (System.Run.reachable hr)
  have he : step config lib s (.run n c) =
      some ⟨sh, s.tasks.set n ⟨request, next reply, l.note c o reply⟩⟩ := by simp [step, hn, hexec]
  have hs' := hs.step he
  have hlt := (List.getElem?_eq_some_iff.mp hn).1
  have hn' : (⟨sh, s.tasks.set n ⟨request, next reply, l.note c o reply⟩⟩ : State).tasks[n]? =
      some ⟨request, next reply, l.note c o reply⟩ := List.getElem?_set_self hlt
  have hrequires := requires_of_nextOp hs hn rfl
  have halloc (ho : o = .allocate) : v.record = none := by
    subst ho
    by_contra hne
    obtain ⟨⟨id, r⟩, hrecord⟩ := Option.ne_none_iff_exists'.mp hne
    obtain ⟨body, rfl⟩ := create_of_id hr hn (h.stands.identity id r hrecord).1
    exact hne (hreq ⟨body, rfl⟩)
  have hstands : Stands config (noteView l.view o reply) (noteEffort v o reply) :=
    h.stands.step hrequires hallow halloc
  have hrecounts : Recounts config ((s, .run n c) :: past) n (noteEffort v o reply) := by
    apply h.recounts.step hn rfl hexec (hok o (by simp [hn, HandlerTask.nextOp])) hallow
    · rintro id rfl id' r hrecord
      obtain ⟨_, hid, _⟩ := hrequires
      exact Option.some.inj ((h.stands.identity id' r hrecord).1.symm.trans hid)
    · rintro id r rfl
      obtain ⟨_, _, hst, _⟩ := hrequires
      have hnone := h.stands.record_none hst
      exact ⟨hnone, h.stands.fresh hnone⟩
  refine ⟨hrecounts, hstands, ?_⟩
  have hstill (hd : ∀ id r, Dropped (noteEffort v o reply) id r → Dropped v id r)
      (hrecord : (noteEffort v o reply).record = v.record)
      (hpublished : (noteEffort v o reply).published = false → v.published = false)
      (hkept : (noteEffort v o reply).released = v.released) :=
    h.frees.still hs hs' he hn' hstands hrecounts hd hrecord hpublished hkept
  have hsame (hv : noteEffort v o reply = v) :=
    hstill (fun id r hd => hv ▸ hd) (by rw [hv]) (fun hp => by rwa [hv] at hp) (by rw [hv])
  cases o with
  | command cmd =>
    exact hstill (fun _ _ hd => ⟨hd.record, hd.published, hd.removed, hd.discarded, hd.released⟩)
      rfl (fun hp => hp) rfl
  | removeFile path =>
    exact hstill (fun _ _ hd => ⟨hd.record, hd.published, hd.removed, hd.discarded, hd.released⟩)
      rfl (fun hp => hp) rfl
  | tryLock m =>
    cases m with
    | registry => exact hsame (by cases reply <;> rfl)
    | pool =>
      cases reply with
      | true => exact hsame rfl
      | false =>
        exact hstill (fun _ _ hd =>
          ⟨hd.record, hd.published, hd.removed, hd.discarded, hd.released⟩) rfl (fun hp => hp) rfl
  | release j =>
    refine h.frees.advance hs' hn' hstands hrecounts (fun id r i hd hi => ?_) rfl (fun hp => hp)
      (fun id r hrecord _ => ?_) fun id r i hrecord hi _ => ?_
    · have hnone : v.record.isSome = false := hd.released
      rw [show v.record = some (id, r) from hd.record] at hnone
      simp at hnone
    · change v.record.isSome = true
      rw [hrecord]
      rfl
    · exact .inr (free_of_release (t := ⟨request, .op (.release j) may exit next, l⟩) h.stands
        hrecord hi hrequires hexec)
  | vms sec =>
    cases sec with
    | reserve id r =>
      obtain ⟨_, _, hst, _⟩ := hrequires
      exact Frees.reserve h.recounts hs' hn' hstands hrecounts (h.stands.record_none hst)
    | upgrade id =>
      obtain rfl : reply = true := hallow
      refine ⟨fun id r i hd => ?_, fun id r i _ hp => ?_⟩
      · exact absurd hd.published (by simp [noteEffort])
      · simp [noteEffort] at hp
    | remove id =>
      obtain ⟨r, _, rfl⟩ := hallow
      exact hstill (fun _ _ hd => absurd hd.removed (by simp [noteEffort])) rfl (fun hp => hp) rfl
    | discard id =>
      refine h.frees.advance hs' hn' hstands hrecounts (fun id' r i hd hi => ?_) rfl (fun hp => hp)
        (fun _ _ _ hbefore => hbefore) fun _ _ _ _ _ hnow => .inl hnow
      have hview : (⟨request, next reply, l.note c (.vms (.discard id)) reply⟩ :
          HandlerTask).ledger.view = noteSection l.view (.discard id) () := rfl
      refine lost_of_told h hs hn he hrequires hview ?_ hd hi
      obtain ⟨rfl, _⟩ := by simpa [exec] using hexec
      rfl
    | take id => exact hsame (by cases reply <;> rfl)
    | _ => exact hsame rfl
  | allocate => exact hsame (by cases reply <;> rfl)
  | _ => exact hsame rfl

theorem Told.leave {exit : Exit} (h : Told config past s n t v) (hs : Sound config s)
    (he : step config lib s (.leave n exit) = some s') (hn : s'.tasks[n]? = some t')
    (hl : t'.ledger = t.ledger.leave exit) :
    Told config ((s, .leave n exit) :: past) s' n t' v := by
  have hrecounts : Recounts config ((s, .leave n exit) :: past) n v := h.recounts.other (by simp)
  have hstands : Stands config t'.ledger.view v := by
    rw [hl]
    cases exit with
    | dropped => exact h.stands.abandon
    | panicked => exact h.stands
  exact ⟨hrecounts, hstands, h.frees.still hs (hs.step he) he hn hstands hrecounts
    (fun _ _ hd => hd) rfl (fun hp => hp) rfl⟩

/-- The others stay as they were told of when task `n` takes a step. -/
theorem told_set {f : ℕ → Effort}
    (hG : ∀ (k : ℕ) (u : HandlerTask), s.tasks[k]? = some u → Told config past s k u (f k))
    (hs : Sound config s) (hn : s.tasks[n]? = some t) (he : step config lib s e =
      some ⟨sh, s.tasks.set n t'⟩) (hsubject : e.subject = some n)
    (hv : Told config ((s, e) :: past) ⟨sh, s.tasks.set n t'⟩ n t' v) (k : ℕ) (u : HandlerTask)
    (hk : (⟨sh, s.tasks.set n t'⟩ : State).tasks[k]? = some u) :
    Told config ((s, e) :: past) ⟨sh, s.tasks.set n t'⟩ k u (Function.update f n v k) := by
  rcases (getElem?_set hn).mp hk with ⟨rfl, rfl⟩ | ⟨hkn, hold⟩
  · rwa [Function.update_self]
  · rw [Function.update_of_ne hkn]
    refine (hG k u hold).idle hs he hk rfl ?_
    rintro c rfl
    exact hkn (Option.some.inj hsubject)

theorem tracking_guarding : Tracking config lib Removing guarding guardEnds fun past s f =>
    ∀ (n : ℕ) (t : HandlerTask), s.tasks[n]? = some t → Told config past s n t (f n) where
  initial := ⟨fun _ => {}, fun n t hn => by simp at hn⟩
  request past s f r hr hG := by
    have hs := sound_of_reachable (System.Run.reachable hr)
    have he : step config lib s (.request r) = some { s with
      tasks := s.tasks ++ [{ request := r, code := handlerOf config r }] } := rfl
    refine ⟨{}, safe_guarding config r, fun k u hk => ?_⟩
    rcases getElem?_request.mp hk with ⟨rfl, rfl⟩ | hold
    · rw [Function.update_self]
      refine Told.initial rfl fun p hp hsubject => ?_
      rcases List.mem_cons.mp hp with rfl | hp
      · simp [Event.subject] at hsubject
      · exact lt_irrefl _ (subject_lt hr hp hsubject)
    · rw [Function.update_of_ne (List.getElem?_eq_some_iff.mp hold).1.ne]
      exact (hG k u hold).idle hs he hk rfl (by simp)
  callback past s f n cb r self result l hr hn hG hends := by
    have hs := sound_of_reachable (System.Run.reachable hr)
    have he : step config lib s (.callback n cb) = some { s with
      tasks := s.tasks.set n ⟨r, calledBack (callbackCode lib self cb), l⟩ } := by simp [step, hn]
    have hr' (body : Option CreateVmRequest) : r ≠ .create body := by
      rintro rfl
      exact hends
    refine ⟨f n, ?_, told_set hG hs hn he rfl ?_⟩
    · apply Program.safe_of_free
      · rintro _ _ ⟨body, hbody⟩
        exact absurd hbody (hr' body)
      · intro outcome v
        cases r <;> trivial
    · exact (hG n _ hn).idle hs he (List.getElem?_set_self (List.getElem?_eq_some_iff.mp hn).1) rfl
        (by simp)
  run past s f n c r o may exit next l sh reply hr hok hn hexec hG hreq hallow := by
    have hs := sound_of_reachable (System.Run.reachable hr)
    have he : step config lib s (.run n c) =
        some ⟨sh, s.tasks.set n ⟨r, next reply, l.note c o reply⟩⟩ := by simp [step, hn, hexec]
    have htold := hG n _ hn
    exact ⟨htold.stands.allows hallow,
      told_set hG hs hn he rfl (htold.run hr hok hn hexec hreq hallow)⟩
  leave past s f n e r o may exit next l hr _ hn hmay hG _ := by
    have hs := sound_of_reachable (System.Run.reachable hr)
    have he : step config lib s (.leave n e) =
        some { s with tasks := s.tasks.set n ⟨r, exit e, l.leave e⟩ } := by simp [step, hn, hmay]
    have hn' := List.getElem?_set_self (a := (⟨r, exit e, l.leave e⟩ : HandlerTask))
      (List.getElem?_eq_some_iff.mp hn).1
    exact ⟨trivial, told_set hG hs hn he rfl ((hG n _ hn).leave hs he hn' rfl)⟩

/-- How the guard of a `create` that was dropped before it published its VM has ended. -/
theorem ending_of_run (hr : (server config lib).Run past s) (hm : System.Meets Removing past)
    (hn : s.tasks[n]? = some t) (hdrop : t.code = .ret .dropped)
    (hinserted : Inserted config past n id r)
    (hpublished : ¬ ∃ a, Performed past n (.vms (.upgrade id)) a) :
    ∃ v, Told config past s n t v ∧ v.record = some (id, r) ∧ v.published = false ∧
      Ending v r := by
  obtain ⟨f, hviews, hG⟩ := tracking_guarding.views_of_run hr hm
  have htold := hG n t hn
  have hrecord := (htold.recounts.inserted id r).mp hinserted
  have hunpublished : (f n).published = false := by
    by_contra hup
    exact hpublished (htold.recounts.published (by simpa using hup) id r hrecord)
  obtain ⟨body, hbody⟩ := create_of_id hr hn (htold.stands.identity id r hrecord).1
  have hcode := hviews n t hn
  rw [hdrop, hbody] at hcode
  exact ⟨f n, htold, hrecord, hunpublished, hcode id r hrecord hunpublished⟩

theorem freedSince_iff (h : Told config past s n t v) (hrecord : v.record = some (id, r))
    (hpublished : v.published = false) (hi : r.subnetIndex = some i) :
    (∀ j, r.subnetIndex = some j → FreedSince config n id r j past s) ↔ v.released = true := by
  constructor
  · intro hfreed
    exact (h.frees.freed id r i hrecord hpublished hi).mp (hfreed i hi)
  · intro hreleased j hj
    exact (h.frees.freed id r j hrecord hpublished hj).mpr hreleased

/-- The VM is left whole or not at all if and only if its entry was not taken out by the task's own
clean-up and the pool was not locked. -/
theorem whole_iff (hs : Sound config s) (hn : s.tasks[n]? = some t) (h : Told config past s n t v)
    (hrecord : v.record = some (id, r)) (hpublished : v.published = false) (hend : Ending v r) :
    AllOrNothing config past s n id r ↔ v.removed = false ∧ v.contended = false := by
  obtain ⟨hid, hfits⟩ := h.stands.identity id r hrecord
  obtain ⟨i, _, hi, _⟩ := hfits.subnet
  have hfreed := freedSince_iff h hrecord hpublished hi
  have hentry : (standingOf v).Allows (s.shared.vms.lookup id) := by
    rw [← h.stands.standing]
    exact hs.protocol.placed n _ id (siteOf_task hn) hid
  cases hend with
  | kept hremoved hdiscarded hcontended hreleased =>
    have hst : t.ledger.view.standing = .creating r := by
      simp [h.stands.standing, standingOf, hrecord, hremoved, hdiscarded, hpublished, hreleased]
    refine iff_of_true (.inl ⟨?_, i, hi, owner_of_placeholder hs hn hid hst hi⟩) ?_
    · simpa [standingOf, hrecord, hremoved, hdiscarded, hpublished, hreleased] using hentry
    · exact ⟨hremoved, hcontended⟩
  | cut hremoved hreleased =>
    have habsent : s.shared.vms.lookup id = none := by
      simpa [standingOf, hrecord, hremoved] using hentry
    refine iff_of_false ?_ (by simp [hremoved])
    rintro (⟨hlookup, _⟩ | ⟨_, hslots, _⟩)
    · simp [habsent] at hlookup
    · simpa [hreleased] using hfreed.mp hslots
  | cleared hremoved hdiscarded hdone hreleased =>
    have habsent : s.shared.vms.lookup id = none := by
      simpa [standingOf, hrecord, hdiscarded] using hentry
    have hdown (x : Resource) (hx : x ∈ resourcesOf r) : TakenDown config n id r x past :=
      h.recounts.done x (hdone x hx) id r hrecord
    constructor
    · rintro (⟨hlookup, _⟩ | ⟨_, hslots, _⟩)
      · simp [habsent] at hlookup
      · have hreturned := hfreed.mp hslots
        rw [hreleased] at hreturned
        exact ⟨hremoved, by simpa using hreturned⟩
    · rintro ⟨_, hfree⟩
      exact .inr ⟨habsent, hfreed.mpr (by simp [hreleased, hfree]), hdown⟩

/-- A `create` that was dropped before it published its VM leaves it whole or not at all if and
only if its own clean-up had not taken the entry out, and its guard found the pool unlocked. -/
theorem all_or_nothing_iff (hr : (server config lib).Run past s)
    (hm : System.Meets Removing past) (hn : s.tasks[n]? = some t) (hdrop : t.code = .ret .dropped)
    (hinserted : Inserted config past n id r)
    (hpublished : ¬ ∃ a, Performed past n (.vms (.upgrade id)) a) :
    AllOrNothing config past s n id r ↔ ¬ Removed past n ∧ ¬ Contended past n := by
  have hs := sound_of_reachable (System.Run.reachable hr)
  obtain ⟨v, htold, hrecord, hunpublished, hend⟩ :=
    ending_of_run hr hm hn hdrop hinserted hpublished
  rw [whole_iff hs hn htold hrecord hunpublished hend, ← htold.recounts.removed,
    ← htold.recounts.contended]
  simp

end Runs

section Samples

/-- A `create` is dropped during the set-up of its instance. -/
def droppedInSetup : List Event :=
  .request (.create none) :: reserving 0 1 ++ runs 0 2 ++ .leave 0 .dropped :: runs 0 12

/-- The task publishes its VM, takes the entry out, or finds the pool locked. -/
def interferes (p : State × Op) : Bool :=
  match p.2 with
  | .vms (.upgrade _) | .vms (.remove _) => true
  | .tryLock .pool => decide (p.1.shared.locks .pool ≠ none)
  | _ => false

theorem all_or_nothing_droppedInSetup : ∃ id r, AllOrNothing sampleConfig
    (sampleServer.historyOf droppedInSetup) (sampleServer.endOf droppedInSetup) 0 id r := by
  have hrun : sampleServer.Run (sampleServer.historyOf droppedInSetup)
      (sampleServer.endOf droppedInSetup) := System.run_follow droppedInSetup
  have hmeets : System.Meets Removing (sampleServer.historyOf droppedInSetup) := by
    unfold System.Meets
    decide +kernel
  obtain ⟨t, hn, hdrop⟩ : ∃ t, (sampleServer.endOf droppedInSetup).tasks[0]? = some t ∧
      t.code = .ret .dropped := code_of_outcome (by decide +kernel)
  obtain ⟨⟨id, r⟩, hmem⟩ := List.exists_mem_of_ne_nil _ (show insertions sampleConfig
    (sampleServer.historyOf droppedInSetup) 0 ≠ [] by decide +kernel)
  have hnone : (performances (sampleServer.historyOf droppedInSetup) 0).any interferes = false := by
    decide +kernel
  refine ⟨id, r, (all_or_nothing_iff hrun hmeets hn hdrop (inserted_of_mem hmem) ?_).mpr ⟨?_, ?_⟩⟩
  · rintro ⟨a, ha⟩
    exact not_performed hnone rfl ha
  · rintro ⟨id', a, ha⟩
    exact not_performed hnone rfl ha
  · rintro ⟨a, ha, hlocked⟩
    exact not_performed hnone (by simpa [interferes] using hlocked) ha

/-- The same while another `create` holds the pool. -/
def droppedWhileLocked : List Event :=
  .request (.create none) :: reserving 0 1 ++ runs 0 2 ++
    .request (.create none) :: .run 1 { id := 2 } :: runs 1 4 ++ .leave 0 .dropped :: runs 0 10

def publishes (p : State × Op) : Bool :=
  match p.2 with
  | .vms (.upgrade _) => true
  | _ => false

/-- The entry is gone, and the subnet stays in use. -/
theorem not_all_or_nothing : ¬ ∀ (past : History) (s : State) (n : ℕ) (t : HandlerTask) (id : Uuid)
    (r : VmResources), sampleServer.Run past s → System.Meets Removing past →
    s.tasks[n]? = some t → t.code = .ret .dropped → Inserted sampleConfig past n id r →
    (¬ ∃ a, Performed past n (.vms (.upgrade id)) a) →
    AllOrNothing sampleConfig past s n id r := by
  intro h
  have hrun : sampleServer.Run (sampleServer.historyOf droppedWhileLocked)
      (sampleServer.endOf droppedWhileLocked) := System.run_follow droppedWhileLocked
  have hmeets : System.Meets Removing (sampleServer.historyOf droppedWhileLocked) := by
    unfold System.Meets
    decide +kernel
  obtain ⟨t, hn, hdrop⟩ : ∃ t, (sampleServer.endOf droppedWhileLocked).tasks[0]? = some t ∧
      t.code = .ret .dropped := code_of_outcome (by decide +kernel)
  obtain ⟨⟨id, r⟩, hmem⟩ := List.exists_mem_of_ne_nil _ (show insertions sampleConfig
    (sampleServer.historyOf droppedWhileLocked) 0 ≠ [] by decide +kernel)
  have hnone : (performances (sampleServer.historyOf droppedWhileLocked) 0).any publishes =
      false := by decide +kernel
  have hpublished : ¬ ∃ a, Performed (sampleServer.historyOf droppedWhileLocked) 0
      (.vms (.upgrade id)) a := by
    rintro ⟨a, ha⟩
    exact not_performed hnone rfl ha
  obtain ⟨⟨a, o⟩, hperformed, ho, hlocked⟩ :
      ∃ p ∈ performances (sampleServer.historyOf droppedWhileLocked) 0,
        p.2 = .tryLock .pool ∧ p.1.shared.locks .pool ≠ none := by decide +kernel
  obtain rfl : o = .tryLock .pool := ho
  have hall := h _ _ 0 t id r hrun hmeets hn hdrop (inserted_of_mem hmem) hpublished
  obtain ⟨v, htold, hrecord, hunpublished, hend⟩ :=
    ending_of_run hrun hmeets hn hdrop (inserted_of_mem hmem) hpublished
  obtain ⟨_, hcontended⟩ := (whole_iff (sound_of_reachable (System.Run.reachable hrun)) hn htold
    hrecord hunpublished hend).mp hall
  have hfound : v.contended = true :=
    htold.recounts.contended.mpr ⟨a, mem_performances.mp hperformed, hlocked⟩
  simp [hcontended] at hfound

end Samples

end Warlock.GuardOutcomes
