import Warlock.ReservationProtocol
import Mathlib.Tactic.Tauto

/-!
# Every run of the reservation protocol keeps its invariant

The effect lemmas of the first part say once what a step can do to identifiers, to the
registry, to processes and to ownership; each clause of the invariant is then derived
from one or two of them.
-/

namespace Warlock.ReservationProtocol
open ResourceCustody

variable {Id Slot Res : Type*} [DecidableEq Id] {slotOf : Res → Option Slot}
  {Fits : Id → Res → Prop} {lossy : Prop} {n : ℕ} {v v' : View Id Slot Res} {w w' : World Id Slot Res}

omit [DecidableEq Id] in
private theorem agentPlaced_none (hv : v.agent = none) : v.AgentPlaced := by
  simp [View.AgentPlaced, hv]

namespace Step

/-- A mutex is taken, given back, or left alone. -/
theorem mutex (h : Step slotOf Fits lossy n v w v' w') :
    (w'.holder = w.holder ∧ ∀ m, v'.holds m = v.holds m) ∨
    ∃ m b, v.holds m = !b ∧ v' = v.set m b ∧
      (b = true → w.holder m = none) ∧
      w'.holder = Function.update w.holder m (if b then some n else none) := by
  cases h with
  | lock m hv hw => exact .inr ⟨m, true, hv, rfl, fun _ => hw, rfl⟩
  | unlock m hv ha => exact .inr ⟨m, false, hv, rfl, by simp, rfl⟩
  | _ => exact .inl ⟨rfl, fun m => by cases m <;> rfl⟩

/-- An identifier is drawn fresh and kept for ever. -/
theorem identifier (h : Step slotOf Fits lossy n v w v' w') :
    (v'.id = v.id ∧ w'.issued = w.issued) ∨
    ∃ id, v.id = none ∧ v' = { v with id := some id } ∧ v.standing = .fresh ∧
      v.agent = none ∧ id ∉ w.issued ∧ w' = { w with issued := insert id w.issued } := by
  cases h with
  | draw id hv hs ha hi => exact .inr ⟨id, hv, rfl, hs, ha, hi, rfl⟩
  | lock m hv hw => exact .inl ⟨by simp, rfl⟩
  | unlock m hv ha => exact .inl ⟨by simp, rfl⟩
  | _ => exact .inl ⟨rfl, rfl⟩

/-- The registry changes under one identifier only, with the registry's mutex held: under
the task's own, in step with its standing, or by taking a running entry out. -/
theorem registration (h : Step slotOf Fits lossy n v w v' w') :
    (w'.entry = w.entry ∧ (v'.standing = v.standing ∨
      ∃ r, v.standing = .creating r ∧ v'.standing = .released r)) ∨
    ∃ id e, v.registry = true ∧ w'.entry = Function.update w.entry id e ∧
      ((v.id = some id ∧ v'.standing.Allows e ∧
          ∀ e', e = some e' → Fits id e'.res ∨ v.standing = .creating e'.res) ∨
        e = none ∧ v'.standing = v.standing ∧ ∃ r, w.entry id = some (.running r)) := by
  cases h with
  | releaseEntry r i hr hp hi hs hslot ha => exact .inl ⟨rfl, .inr ⟨r, hs, rfl⟩⟩
  | place id r hr hi hs hslot hf ha =>
    refine .inr ⟨id, _, hr, rfl, .inl ⟨hi, by simp, ?_⟩⟩
    intro e' he
    cases he
    exact .inl hf
  | upgrade id r hr hi hs ha =>
    refine .inr ⟨id, _, hr, rfl, .inl ⟨hi, by simp, ?_⟩⟩
    intro e' he
    cases he
    exact .inr hs
  | remove id r hr hi hs hslot ha =>
    exact .inr ⟨id, _, hr, rfl, .inl ⟨hi, by simp, by simp⟩⟩
  | discard id r hr hi hs hslot ha =>
    exact .inr ⟨id, _, hr, rfl, .inl ⟨hi, by simp, by simp⟩⟩
  | take id r hr hi he hslot ha => exact .inr ⟨id, _, hr, rfl, .inr ⟨rfl, rfl, r, he⟩⟩
  | lock m hv hw => exact .inl ⟨rfl, .inl (by simp)⟩
  | unlock m hv ha => exact .inl ⟨rfl, .inl (by simp)⟩
  | _ => exact .inl ⟨rfl, .inl rfl⟩

theorem id_kept (h : Step slotOf Fits lossy n v w v' w') {id : Id} (hi : v.id = some id) :
    v'.id = some id := by
  rcases h.identifier with ⟨he, _⟩ | ⟨id', hn, _⟩
  · exact he.trans hi
  · simp [hn] at hi

theorem anonymous (h : Step slotOf Fits lossy n v w v' w')
    (hv : v.id = none → v.standing = .fresh) : v'.id = none → v'.standing = .fresh := by
  cases h with
  | lock => simpa using hv
  | unlock => simpa using hv
  | releaseEntry r i hr hp hi hs hslot ha =>
    intro hn
    have hn : v.id = none := hn
    simp [hn] at hi
  | place id r hr hi hs hslot hf ha => simp [hi]
  | upgrade id r hr hi hs ha => simp [hi]
  | remove id r hr hi hs hslot ha => simp [hi]
  | discard id r hr hi hs hslot ha => simp [hi]
  | draw => simp
  | _ => exact hv

theorem locked (h : Step slotOf Fits lossy n v w v' w')
    (hv : ∀ r, v.standing = .released r → v.registry = true) :
    ∀ r, v'.standing = .released r → v'.registry = true := by
  cases h with
  | lock m _ _ =>
    cases m with
    | registry => exact fun _ _ => rfl
    | pool => exact hv
  | unlock m _ ha =>
    cases m with
    | registry => exact fun r hr => absurd hr ((ha rfl).2 r)
    | pool => exact hv
  | releaseEntry r i hr hp hi hs hslot ha => exact fun _ _ => hr
  | place => simp
  | upgrade => simp
  | remove => simp
  | discard => simp
  | _ => exact hv

theorem agent (h : Step slotOf Fits lossy n v w v' w') (hv : v.AgentPlaced ∨ v.registry = true) :
    v'.AgentPlaced ∨ v'.registry = true := by
  cases h with
  | lock m _ _ =>
    cases m with
    | registry => exact .inr rfl
    | pool => exact hv
  | unlock m _ ha =>
    cases m with
    | registry => exact .inl (ha rfl).1
    | pool => exact hv
  | draw id _ _ ha _ => exact .inl (agentPlaced_none ha)
  | adopt id r hi hs ha => exact .inl fun id' h => ⟨hi.trans h, r, hs⟩
  | place id r hr hi hs hslot hf ha => exact .inr hr
  | upgrade id r hr hi hs ha => exact .inr hr
  | releaseEntry r i hr hp hi hs hslot ha => exact .inr hr
  | remove id r hr hi hs hslot ha => exact .inr hr
  | discard id r hr hi hs hslot ha => exact .inr hr
  | take id r hr hi he hslot ha => exact .inr hr
  | stop => exact .inl (agentPlaced_none rfl)
  | _ => exact hv

/-- A process runs on behalf of the acting task, or ran before. A task gives its process
away by ending it or by making its entry running. -/
theorem process (h : Step slotOf Fits lossy n v w v' w') :
    (∀ id ∈ w'.live, id ∈ w.live ∨ v'.agent = some id) ∧
    ∀ id, v.agent = some id → v'.agent = some id ∨ id ∉ w'.live ∨
      ∃ r, w'.entry id = some (.running r) := by
  cases h with
  | lock m _ _ => exact ⟨fun _ => .inl, fun id hi => .inl (by simpa using hi)⟩
  | unlock m _ _ => exact ⟨fun _ => .inl, fun id hi => .inl (by simpa using hi)⟩
  | start id ha =>
    refine ⟨fun id' hl => ?_, fun _ => .inl⟩
    rcases hl with rfl | hl
    · exact .inr ha
    · exact .inl hl
  | stop id ha =>
    refine ⟨fun id' hl => .inl hl.1, fun id' hi => .inr (.inl ?_)⟩
    obtain rfl : id = id' := by simpa [ha] using hi
    exact fun hl => hl.2 rfl
  | upgrade id r hr hi hs ha =>
    refine ⟨fun _ => .inl, fun id' ha' => .inr (.inr ⟨r, ?_⟩)⟩
    obtain rfl : id = id' := by simpa [ha] using ha'
    simp
  | adopt id r hi hs ha => exact ⟨fun _ => .inl, by simp [ha]⟩
  | take id r hr hi he hslot ha => exact ⟨fun _ => .inl, by simp [ha]⟩
  | _ => exact ⟨fun _ => .inl, fun _ => .inl⟩

theorem released_kept (h : Step slotOf Fits lossy n v w v' w') {r : Res} {id : Id}
    (hv : v.standing = .released r) (hi : v.id = some id) :
    v'.standing = .released r ∨ w'.entry id = none := by
  cases h with
  | lock => simp [hv]
  | unlock => simp [hv]
  | releaseEntry r' i hr hp hi' hs hslot ha => simp [hv] at hs
  | place id' r' hr hi' hs hslot hf ha => simp [hv] at hs
  | upgrade id' r' hr hi' hs ha => simp [hv] at hs
  | remove id' r' hr hi' hs hslot ha => simp [hv] at hs
  | discard id' r' hr hi' hs hslot ha =>
    obtain rfl : id' = id := by simpa [hi] using hi'.symm
    exact .inr (by simp)
  | _ => exact .inl hv

/-- A record is entered by its task, which gives up the slot for it, or was there before. -/
theorem recorded (h : Step slotOf Fits lossy n v w v' w')
    (hp : ∀ id r, v.id = some id → v.standing = .creating r → w.entry id = some (.creating r))
    {id : Id} {e : Entry Res} (he : w'.entry id = some e) :
    (∃ e₀, w.entry id = some e₀ ∧ e₀.res = e.res) ∨
      v.registry = true ∧ v.id = some id ∧ v.standing = .fresh ∧ v.slot = slotOf e.res := by
  have hold {id'} (hne : id ≠ id') {x} (he : Function.update w.entry id' x id = some e) :
      ∃ e₀, w.entry id = some e₀ ∧ e₀.res = e.res := ⟨e, by simpa [hne] using he, rfl⟩
  cases h with
  | place id' r hr hi hs hslot hf ha =>
    by_cases hne : id = id'
    · subst hne
      obtain rfl : Entry.creating r = e := by simpa using he
      exact .inr ⟨hr, hi, hs, hslot⟩
    · exact .inl (hold hne he)
  | upgrade id' r hr hi hs ha =>
    by_cases hne : id = id'
    · subst hne
      obtain rfl : Entry.running r = e := by simpa using he
      exact .inl ⟨_, hp id r hi hs, rfl⟩
    · exact .inl (hold hne he)
  | remove id' r hr hi hs hslot ha =>
    by_cases hne : id = id'
    · simp [hne] at he
    · exact .inl (hold hne he)
  | discard id' r hr hi hs hslot ha =>
    by_cases hne : id = id'
    · simp [hne] at he
    · exact .inl (hold hne he)
  | take id' r hr hi he' hslot ha =>
    by_cases hne : id = id'
    · simp [hne] at he
    · exact .inl (hold hne he)
  | _ => exact .inl ⟨e, he, rfl⟩

/-- A running entry stays, or the task that takes it out takes its process along. -/
theorem running_kept (h : Step slotOf Fits lossy n v w v' w')
    (hp : ∀ id, v.id = some id → v.standing.Allows (w.entry id)) {id : Id} {r : Res}
    (he : w.entry id = some (.running r)) :
    w'.entry id = some (.running r) ∨ v'.agent = some id := by
  have hold {id' x} (hne : id ≠ id') :
      Function.update w.entry id' x id = some (.running r) := by rwa [Function.update_of_ne hne]
  cases h with
  | place id' r' hr hi hs hslot hf ha =>
    refine .inl (hold ?_)
    rintro rfl
    simpa [hs, he] using hp id hi
  | upgrade id' r' hr hi hs ha =>
    refine .inl (hold ?_)
    rintro rfl
    simpa [hs, he] using hp id hi
  | remove id' r' hr hi hs hslot ha =>
    refine .inl (hold ?_)
    rintro rfl
    simpa [hs, he] using hp id hi
  | discard id' r' hr hi hs hslot ha =>
    refine .inl (hold ?_)
    rintro rfl
    rcases hs with ⟨_, hs⟩ | hs <;> simpa [hs, he] using hp id hi
  | take id' r' hr hi he' hslot ha =>
    by_cases hne : id = id'
    · exact .inr (congrArg some hne.symm)
    · exact .inl (hold hne)
  | _ => exact .inl he

/-- A task that has made its entry running has done its part. -/
theorem upgraded_kept (h : Step slotOf Fits lossy n v w v' w') {r : Res} {id : Id}
    (hs : v.standing = .upgraded r) (hid : v.id = some id) :
    v'.standing = .upgraded r ∧ v'.id = some id := by
  refine ⟨?_, h.id_kept hid⟩
  cases h with
  | lock => simpa using hs
  | unlock => simpa using hs
  | releaseEntry r' i hr hp hi hs' hslot ha => simp [hs] at hs'
  | draw id' hv hs' => simp [hid] at hv
  | place id' r' hr hi hs' => simp [hs] at hs'
  | upgrade id' r' hr hi hs' => simp [hs] at hs'
  | remove id' r' hr hi hs' => simp [hs] at hs'
  | discard id' r' hr hi hs' => simp [hs] at hs'
  | _ => exact hs

/-- What a task leaves behind is the slot it held. -/
theorem lost_cases (h : Step slotOf Fits lossy n v w v' w') :
    v'.lost = v.lost ∨ v'.lost = v.slot ∧ v'.slot = none ∧ w' = w := by
  cases h with
  | abandon hl =>
    cases hs : v.slot with
    | none => exact .inl (by simp)
    | some i => exact .inr ⟨by simp, rfl, rfl⟩
  | lock => exact .inl (by simp)
  | unlock => exact .inl (by simp)
  | _ => exact .inl rfl

/-- A process without a placeholder stays with the slot that its task took over. -/
theorem attended (h : Step slotOf Fits lossy n v w v' w')
    (hr : ∀ id r, w.entry id = some (.running r) → (slotOf r).isSome)
    (hv : v.agent.isSome → v.AgentPlaced ∨ v.id = none ∧ (v.slot.isSome ∨ v.lost.isSome)) :
    v'.agent.isSome → v'.AgentPlaced ∨ v'.id = none ∧ (v'.slot.isSome ∨ v'.lost.isSome) := by
  cases h with
  | lock => simpa [View.AgentPlaced] using hv
  | unlock => simpa [View.AgentPlaced] using hv
  | take id r hreg hi he hslot ha => exact fun _ => .inr ⟨hi, .inl (hr id r he)⟩
  | adopt id r hi hs ha => exact fun _ => .inl fun id' h => ⟨hi.trans h, r, hs⟩
  | abandon hl =>
    refine fun ha => (hv ha).imp id fun ⟨hi, h⟩ => ⟨hi, .inr ?_⟩
    cases hs : v.slot with
    | none => simpa [hs] using h
    | some i => simp
  | allocate => exact fun ha => (hv ha).imp id fun ⟨hi, _⟩ => ⟨hi, .inl rfl⟩
  | release i hp hs ha => simp [ha]
  | releaseEntry r i hreg hp hi hs hslot ha => simp [ha]
  | draw id hi hs ha => simp [ha]
  | place id r hreg hi hs hslot hf ha => simp [ha]
  | remove id r hreg hi hs hslot ha => simp [ha]
  | discard id r hreg hi hs hslot ha => simp [ha]
  | upgrade => simp
  | stop => simp
  | _ => exact hv

end Step

/-- The site after task `n` has moved. -/
abbrev Site.act (s : Site Id Slot Res) (n : ℕ) (v' : View Id Slot Res)
    (w' : World Id Slot Res) : Site Id Slot Res :=
  ⟨w', Function.update s.task n (some v')⟩

section Acting

variable {s : Site Id Slot Res}

omit [DecidableEq Id] in
theorem task_act {k : ℕ} {u : View Id Slot Res} :
    (s.act n v' w').task k = some u ↔ k = n ∧ u = v' ∨ k ≠ n ∧ s.task k = some u := by
  by_cases hk : k = n
  · subst hk
    simp [eq_comm]
  · simp [hk]

theorem released_act (hn : s.task n = some v) (h : Step slotOf Fits lossy n v s.world v' w')
    {id : Id} (hr : Released s id) : Released (s.act n v' w') id ∨ w'.entry id = none := by
  obtain ⟨k, u, r, hk, hu, hs⟩ := hr
  by_cases hkn : k = n
  · subst hkn
    obtain rfl : v = u := Option.some.inj (hn.symm.trans hk)
    rcases h.released_kept hs hu with hs' | he
    · exact .inl ⟨k, v', r, by simp, h.id_kept hu, hs'⟩
    · exact .inr he
  · exact .inl ⟨k, u, r, task_act.mpr (.inr ⟨hkn, hk⟩), hu, hs⟩

/-- An entry whose record stays keeps its owner's rights or loses them. -/
theorem owns_entry_act (hn : s.task n = some v) (h : Step slotOf Fits lossy n v s.world v' w')
    {id : Id} {i : Slot} (ho : Owns slotOf (s.act n v' w') (.entry id) i)
    (he : ∀ e', w'.entry id = some e' → ∃ e, s.world.entry id = some e ∧ e.res = e'.res) :
    Owns slotOf s (.entry id) i := by
  obtain ⟨e', hw, hslot, hr⟩ := ho
  obtain ⟨e, hs, hres⟩ := he e' hw
  refine ⟨e, hs, hres ▸ hslot, fun hrel => ?_⟩
  rcases released_act hn h hrel with hrel | hnone
  · exact hr hrel
  · have hw : w'.entry id = some e' := hw
    simp [hnone] at hw

omit [DecidableEq Id] in
theorem owns_task_act {k : ℕ} {i : Slot} (hk : k ≠ n)
    (ho : Owns slotOf (s.act n v' w') (.task k) i) : Owns slotOf s (.task k) i := by
  obtain ⟨u, hu, hslot⟩ := ho
  rcases task_act.mp hu with ⟨rfl, _⟩ | ⟨_, hu⟩
  · exact absurd rfl hk
  · exact ⟨u, hu, hslot⟩

omit [DecidableEq Id] in
theorem owns_actor {i : Slot} :
    Owns slotOf (s.act n v' w') (.task n) i ↔ v'.slot = some i := by
  simp [Owns]

/-- Nobody gains a slot when the records under all identifiers stay or go. -/
theorem owns_shrinks (hn : s.task n = some v) (h : Step slotOf Fits lossy n v s.world v' w')
    (hv : ∀ i, v'.slot = some i → v.slot = some i)
    (he : ∀ id e', w'.entry id = some e' → ∃ e, s.world.entry id = some e ∧ e.res = e'.res)
    {o : Owner Id} {i : Slot} (ho : Owns slotOf (s.act n v' w') o i) : Owns slotOf s o i := by
  cases o with
  | entry id => exact owns_entry_act hn h ho (he id)
  | task k =>
    by_cases hk : k = n
    · subst hk
      exact ⟨v, hn, hv i (owns_actor.mp ho)⟩
    · exact owns_task_act hk ho

omit [DecidableEq Id] in
theorem not_released {id : Id}
    (h : ∀ k u, s.task k = some u → u.id = some id → ∀ r, u.standing ≠ .released r) :
    ¬ Released s id := by
  rintro ⟨k, u, r, hk, hu, hs⟩
  exact h k u hk hu r hs

omit [DecidableEq Id] in
/-- An entry under the acting task's own unreleased identifier owns its slot. -/
theorem Invariant.owns_own (hI : Invariant slotOf Fits s) (hn : s.task n = some v) {id : Id}
    {r : Res} {i : Slot} (hi : v.id = some id) (hs : v.standing = .creating r)
    (hslot : slotOf r = some i) : Owns slotOf s (.entry id) i := by
  have he : s.world.entry id = some (.creating r) := by
    simpa [hs] using hI.placed n v id hn hi
  refine ⟨_, he, hslot, not_released fun k u hk hu r' hr => ?_⟩
  obtain rfl := hI.unique n k v u id hn hk hi hu
  obtain rfl : v = u := Option.some.inj (hn.symm.trans hk)
  simp [hs] at hr

omit [DecidableEq Id] in
theorem Invariant.owns_running (hI : Invariant slotOf Fits s) {id : Id} {r : Res} {i : Slot}
    (he : s.world.entry id = some (.running r)) (hslot : slotOf r = some i) :
    Owns slotOf s (.entry id) i := by
  refine ⟨_, he, hslot, not_released fun k u hk hu r' hr => ?_⟩
  have := hI.placed k u id hk hu
  simp [hr, he] at this

/-- How the pool and the ownership of its slots change together in one step. -/
inductive Traffic (slotOf : Res → Option Slot) (s t : Site Id Slot Res) (n : ℕ) : Prop
  | shrink (hu : t.world.used = s.world.used)
      (ho : ∀ o i, Owns slotOf t o i → Owns slotOf s o i)
  | acquire (i : Slot) (hi : i ∉ s.world.used) (hu : t.world.used = insert i s.world.used)
      (ho : ∀ o j, Owns slotOf t o j → Owns slotOf s o j ∨ o = .task n ∧ j = i)
  | release (i : Slot) (a : Owner Id) (ha : Owns slotOf s a i)
      (hu : t.world.used = s.world.used \ {i})
      (ho : ∀ o j, Owns slotOf t o j → Owns slotOf s o j ∧ (o = a → j ≠ i))
  | transfer (i : Slot) (a b : Owner Id) (ha : Owns slotOf s a i)
      (hu : t.world.used = s.world.used)
      (ho : ∀ o j, Owns slotOf t o j → Owns slotOf s o j ∧ (o = a → j ≠ i) ∨ o = b ∧ j = i)

/-- Only the acting task or one updated identifier can gain ownership. -/
theorem owns_changes (hn : s.task n = some v) (h : Step slotOf Fits lossy n v s.world v' w')
    {id : Id} {e : Option (Entry Res)} (hw : w'.entry = Function.update s.world.entry id e)
    {o : Owner Id} {i : Slot} (ho : Owns slotOf (s.act n v' w') o i) :
    Owns slotOf s o i ∧ o ≠ .entry id ∧ o ≠ .task n ∨ o = .entry id ∧ e.isSome ∨
      o = .task n ∧ v'.slot = some i := by
  cases o with
  | entry id' =>
    by_cases hid : id' = id
    · subst hid
      obtain ⟨e', he, _⟩ := ho
      have he : w'.entry id' = some e' := he
      exact .inr (.inl ⟨rfl, by simp [hw] at he; simp [he]⟩)
    · refine .inl ⟨owns_entry_act hn h ho fun e' he => ⟨e', ?_, rfl⟩, by simpa, by simp⟩
      simpa [hw, hid] using he
  | task k =>
    by_cases hk : k = n
    · subst hk
      exact .inr (.inr ⟨rfl, owns_actor.mp ho⟩)
    · exact .inl ⟨owns_task_act hk ho, by simp, by simpa⟩

/-- What enters the registry under `id` is what the acting task gave up. -/
theorem traffic_place (hn : s.task n = some v) (h : Step slotOf Fits lossy n v s.world v' w')
    {id : Id} {r : Res} (hslot : v.slot = slotOf r) (hs' : v'.slot = none)
    (hu : w'.used = s.world.used)
    (hw : w'.entry = Function.update s.world.entry id (some (.creating r))) :
    Traffic slotOf s (s.act n v' w') n := by
  have hgain {o : Owner Id} {j : Slot} (ho : Owns slotOf (s.act n v' w') o j) :
      Owns slotOf s o j ∧ o ≠ .task n ∨ o = .entry id ∧ v.slot = some j := by
    rcases owns_changes hn h hw ho with ⟨ho, _, hne⟩ | ⟨rfl, _⟩ | ⟨rfl, hj⟩
    · exact .inl ⟨ho, hne⟩
    · obtain ⟨e', he, hj, _⟩ := ho
      obtain rfl : Entry.creating r = e' := by simpa [hw] using he
      exact .inr ⟨rfl, hslot.trans hj⟩
    · simp [hs'] at hj
  cases hv : v.slot with
  | none => exact .shrink hu fun o j ho => (hgain ho).elim (·.1) (by simp [hv])
  | some i =>
    refine .transfer i (.task n) (.entry id) ⟨v, hn, hv⟩ hu fun o j ho => ?_
    rcases hgain ho with ⟨ho, hne⟩ | ⟨rfl, hj⟩
    · exact .inl ⟨ho, fun h => absurd h hne⟩
    · exact .inr ⟨rfl, Option.some.inj (hj.symm.trans hv)⟩

/-- What the acting task takes out of the registry is what the entry owned. -/
theorem traffic_remove (hn : s.task n = some v) (h : Step slotOf Fits lossy n v s.world v' w')
    {id : Id} {r : Res} (hs' : v'.slot = slotOf r) (hu : w'.used = s.world.used)
    (hown : ∀ i, slotOf r = some i → Owns slotOf s (.entry id) i)
    (hw : w'.entry = Function.update s.world.entry id none) :
    Traffic slotOf s (s.act n v' w') n := by
  have hgain {o : Owner Id} {j : Slot} (ho : Owns slotOf (s.act n v' w') o j) :
      Owns slotOf s o j ∧ o ≠ .entry id ∨ o = .task n ∧ slotOf r = some j := by
    rcases owns_changes hn h hw ho with ⟨ho, hne, _⟩ | ⟨_, hnone⟩ | ⟨rfl, hj⟩
    · exact .inl ⟨ho, hne⟩
    · simp at hnone
    · exact .inr ⟨rfl, hs'.symm.trans hj⟩
  cases hr : slotOf r with
  | none => exact .shrink hu fun o j ho => (hgain ho).elim (·.1) (by simp [hr])
  | some i =>
    refine .transfer i (.entry id) (.task n) (hown i hr) hu fun o j ho => ?_
    rcases hgain ho with ⟨ho, hne⟩ | ⟨rfl, hj⟩
    · exact .inl ⟨ho, fun h => absurd h hne⟩
    · exact .inr ⟨rfl, Option.some.inj (hj.symm.trans hr)⟩

/-- Every step moves at most one slot, and only out of its owner's hands. -/
theorem traffic (hI : Invariant slotOf Fits s) (hn : s.task n = some v)
    (h : Step slotOf Fits lossy n v s.world v' w') : Traffic slotOf s (s.act n v' w') n := by
  have hact := h
  cases h with
  | allocate i hp hs hi =>
    refine .acquire i hi rfl fun o j ho => ?_
    cases o with
    | entry id => exact .inl (owns_entry_act hn hact ho fun e he => ⟨e, he, rfl⟩)
    | task k =>
      by_cases hk : k = n
      · subst hk
        exact .inr ⟨rfl, by simpa [eq_comm] using owns_actor.mp ho⟩
      · exact .inl (owns_task_act hk ho)
  | release i hp hs ha =>
    refine .release i (.task n) ⟨v, hn, hs⟩ rfl fun o j ho => ?_
    refine ⟨owns_shrinks hn hact (by simp) (fun id e he => ⟨e, he, rfl⟩) ho, ?_⟩
    rintro rfl
    simpa using owns_actor.mp ho
  | releaseEntry r i hr hp hi hs hslot ha =>
    obtain ⟨id, hi⟩ := Option.isSome_iff_exists.mp hi
    refine .release i (.entry id) (hI.owns_own hn hi hs hslot) rfl fun o j ho => ?_
    refine ⟨owns_shrinks hn hact (fun _ hj => hj) (fun id e he => ⟨e, he, rfl⟩) ho, ?_⟩
    rintro rfl
    exact absurd ⟨n, _, r, task_act.mpr (.inl ⟨rfl, rfl⟩), hi, rfl⟩ ho.choose_spec.2.2
  | place id r hr hi hs hslot hf ha => exact traffic_place hn hact hslot rfl rfl rfl
  | upgrade id r hr hi hs ha =>
    refine .shrink rfl fun o j ho => owns_shrinks hn hact (fun _ hj => hj) (fun id' e he => ?_) ho
    by_cases hid : id' = id
    · subst hid
      have hp : s.world.entry id' = some (.creating r) := by
        simpa [hs] using hI.placed n v id' hn hi
      obtain rfl : Entry.running r = e := by simpa using he
      exact ⟨_, hp, rfl⟩
    · exact ⟨e, by simpa [hid] using he, rfl⟩
  | remove id r hr hi hs hslot ha =>
    exact traffic_remove hn hact rfl rfl (fun i => hI.owns_own hn hi hs) rfl
  | discard id r hr hi hs hslot ha =>
    refine .shrink rfl fun o j ho => owns_shrinks hn hact (fun _ hj => hj) (fun id' e he => ?_) ho
    by_cases hid : id' = id
    · simp [hid] at he
    · exact ⟨e, by simpa [hid] using he, rfl⟩
  | take id r hr hi he hslot ha =>
    exact traffic_remove hn hact rfl rfl (fun i => hI.owns_running he) rfl
  | lock =>
    exact .shrink rfl fun o j ho =>
      owns_shrinks hn hact (by simp) (fun _ e he => ⟨e, he, rfl⟩) ho
  | unlock =>
    exact .shrink rfl fun o j ho =>
      owns_shrinks hn hact (by simp) (fun _ e he => ⟨e, he, rfl⟩) ho
  | abandon =>
    exact .shrink rfl fun o j ho =>
      owns_shrinks hn hact (by simp) (fun _ e he => ⟨e, he, rfl⟩) ho
  | _ =>
    exact .shrink rfl fun o j ho =>
      owns_shrinks hn hact (fun _ hj => hj) (fun _ e he => ⟨e, he, rfl⟩) ho

section Clauses

variable (hI : Invariant slotOf Fits s) (hn : s.task n = some v)
  (h : Step slotOf Fits lossy n v s.world v' w')
include hI hn h

private theorem holder_act (m : Mutex) (k : ℕ) : w'.holder m = some k ↔
    ∃ u, (s.act n v' w').task k = some u ∧ u.holds m = true := by
  have hold (m k) : (∃ u, (s.act n v' w').task k = some u ∧ u.holds m = true) ↔
      k = n ∧ v'.holds m = true ∨ k ≠ n ∧ s.world.holder m = some k := by
    rw [hI.holder]
    constructor
    · rintro ⟨u, hu, hm⟩
      rcases task_act.mp hu with ⟨rfl, rfl⟩ | ⟨hk, hu⟩
      · exact .inl ⟨rfl, hm⟩
      · exact .inr ⟨hk, u, hu, hm⟩
    · rintro (⟨rfl, hm⟩ | ⟨hk, u, hu, hm⟩)
      · exact ⟨v', task_act.mpr (.inl ⟨rfl, rfl⟩), hm⟩
      · exact ⟨u, task_act.mpr (.inr ⟨hk, hu⟩), hm⟩
  have hself (m) : s.world.holder m = some n ↔ v.holds m = true := by
    rw [hI.holder]
    exact ⟨fun ⟨u, hu, hm⟩ => Option.some.inj (hn.symm.trans hu) ▸ hm, fun hm => ⟨v, hn, hm⟩⟩
  rw [hold]
  rcases h.mutex with ⟨hw, hv⟩ | ⟨m', b, hb, rfl, hfree, hw⟩
  · rw [hw, hv, ← hself]
    by_cases hk : k = n
    · subst hk
      simp
    · simp [hk]
  · by_cases hm : m = m'
    · subst hm
      rw [hw]
      cases b with
      | true => simp [hfree rfl, eq_comm]
      | false =>
        have := (hself m).mpr (by simpa using hb)
        simp only [this, Function.update_self, Bool.false_eq_true, if_false, View.holds_set]
        grind
    · rw [hw, Function.update_of_ne hm, View.holds_set_ne _ _ hm, ← hself]
      by_cases hk : k = n
      · subst hk
        simp
      · simp [hk]

private theorem issued_act (k : ℕ) (u : View Id Slot Res) (id : Id)
    (hk : (s.act n v' w').task k = some u) (hu : u.id = some id) : id ∈ w'.issued := by
  rcases h.identifier with ⟨hid, hw⟩ | ⟨id', _, rfl, _, _, _, rfl⟩
  · rw [hw]
    rcases task_act.mp hk with ⟨rfl, rfl⟩ | ⟨_, hk⟩
    · exact hI.issued _ v id hn (hid ▸ hu)
    · exact hI.issued k u id hk hu
  · rcases task_act.mp hk with ⟨rfl, rfl⟩ | ⟨_, hk⟩
    · exact .inl (Option.some.inj hu).symm
    · exact .inr (hI.issued k u id hk hu)

/-- An identifier of the acting task is its own alone. -/
private theorem unique_actor {k : ℕ} {u : View Id Slot Res} {id : Id} (hkn : k ≠ n)
    (hk : s.task k = some u) (hu : u.id = some id) : v'.id ≠ some id := by
  intro hv'
  rcases h.identifier with ⟨hid, _⟩ | ⟨id', _, rfl, _, _, hfresh, _⟩
  · exact hkn (hI.unique k n u v id hk hn hu (hid ▸ hv'))
  · obtain rfl : id' = id := Option.some.inj hv'
    exact hfresh (hI.issued k u id' hk hu)

private theorem unique_act (k k' : ℕ) (u u' : View Id Slot Res) (id : Id)
    (hk : (s.act n v' w').task k = some u) (hk' : (s.act n v' w').task k' = some u')
    (hu : u.id = some id) (hu' : u'.id = some id) : k = k' := by
  rcases task_act.mp hk with ⟨hkn, rfl⟩ | ⟨hkn, hold⟩
  · rcases task_act.mp hk' with ⟨hkn', _⟩ | ⟨hkn', hold'⟩
    · exact hkn.trans hkn'.symm
    · exact absurd hu (unique_actor hI hn h hkn' hold' hu')
  · rcases task_act.mp hk' with ⟨_, rfl⟩ | ⟨_, hold'⟩
    · exact absurd hu' (unique_actor hI hn h hkn hold hu)
    · exact hI.unique k k' u u' id hold hold' hu hu'

private theorem placed_self (id : Id) (hv' : v'.id = some id) :
    v'.standing.Allows (w'.entry id) := by
  rcases h.identifier with ⟨hid, _⟩ | ⟨id', _, rfl, hs, _, hfresh, rfl⟩
  · have hp := hI.placed n v id hn (hid ▸ hv')
    rcases h.registration with ⟨hw, hs | ⟨r, hs, hs'⟩⟩ | ⟨id', e, _, hw, hown | ⟨rfl, hs, r, hr⟩⟩
    · rw [hw, hs]
      exact hp
    · rw [hw, hs']
      simpa [hs] using hp
    · obtain rfl : id' = id := Option.some.inj (hown.1.symm.trans (hid ▸ hv'))
      simpa [hw] using hown.2.1
    · rw [hw, hs]
      by_cases hne : id = id'
      · subst hne
        rw [hr] at hp
        rw [Function.update_self]
        revert hp
        cases v.standing <;> simp
      · rwa [Function.update_of_ne hne]
  · obtain rfl : id' = id := Option.some.inj hv'
    have hnone : s.world.entry id' = none := by
      rw [Option.eq_none_iff_forall_ne_some]
      intro e he
      obtain ⟨k, u, hk, hu⟩ := hI.covered id' e he
      exact hfresh (hI.issued k u id' hk hu)
    simp [hs, hnone]

private theorem placed_act (k : ℕ) (u : View Id Slot Res) (id : Id)
    (hk : (s.act n v' w').task k = some u) (hu : u.id = some id) :
    u.standing.Allows (w'.entry id) := by
  rcases task_act.mp hk with ⟨rfl, rfl⟩ | ⟨hkn, hk⟩
  · exact placed_self hI hn h id hu
  · have hp := hI.placed k u id hk hu
    rcases h.registration with ⟨hw, _⟩ | ⟨id', e, _, hw, ⟨hid', _⟩ | ⟨rfl, _, r, hr⟩⟩
    · rwa [hw]
    · have hne : id ≠ id' := by
        rintro rfl
        exact hkn (hI.unique k n u v id hk hn hu hid')
      rwa [hw, Function.update_of_ne hne]
    · rw [hw]
      by_cases hne : id = id'
      · subst hne
        rw [hr] at hp
        rw [Function.update_self]
        revert hp
        cases u.standing <;> simp
      · rwa [Function.update_of_ne hne]

private theorem covered_act (id : Id) (e : Entry Res) (he : w'.entry id = some e) :
    ∃ k u, (s.act n v' w').task k = some u ∧ u.id = some id := by
  have hold {e'} (he : s.world.entry id = some e') :
      ∃ k u, (s.act n v' w').task k = some u ∧ u.id = some id := by
    obtain ⟨k, u, hk, hu⟩ := hI.covered id e' he
    by_cases hkn : k = n
    · subst hkn
      obtain rfl : v = u := Option.some.inj (hn.symm.trans hk)
      exact ⟨k, v', by simp, h.id_kept hu⟩
    · exact ⟨k, u, task_act.mpr (.inr ⟨hkn, hk⟩), hu⟩
  rcases h.registration with ⟨hw, _⟩ | ⟨id', e', _, hw, hown⟩
  · exact hold (hw ▸ he)
  · by_cases hne : id = id'
    · subst hne
      rcases hown with ⟨hid, _⟩ | ⟨rfl, _⟩
      · exact ⟨n, v', by simp, h.id_kept hid⟩
      · simp [hw] at he
    · exact hold (by simpa [hw, hne] using he)

private theorem fits_act (id : Id) (e : Entry Res) (he : w'.entry id = some e) :
    Fits id e.res := by
  rcases h.registration with ⟨hw, _⟩ | ⟨id', e', _, hw, hown⟩
  · exact hI.fits id e (hw ▸ he)
  · by_cases hne : id = id'
    · subst hne
      obtain rfl : e' = some e := by simpa [hw] using he
      rcases hown with ⟨hid, _, hfit⟩ | ⟨hnone, _⟩
      · rcases hfit e rfl with hf | hs
        · exact hf
        · have hp : s.world.entry id = some (.creating e.res) := by
            simpa [hs] using hI.placed n v id hn hid
          simpa using hI.fits id _ hp
      · simp at hnone
    · exact hI.fits id e (by simpa [hw, hne] using he)

private theorem exclusive_act : Exclusive (Owns slotOf (s.act n v' w')) := by
  cases traffic hI hn h with
  | shrink _ ho => exact hI.exclusive.mono ho
  | acquire i hi _ ho =>
    refine hI.exclusive.move fun o j hj => (ho o j hj).imp_left fun hj => ⟨hj, ?_⟩
    rintro rfl
    exact hi (hI.used o j hj)
  | release i a _ _ ho => exact hI.exclusive.mono fun o j hj => (ho o j hj).1
  | transfer i a b ha _ ho =>
    refine hI.exclusive.move fun o j hj => (ho o j hj).imp_left fun ⟨hj, hne⟩ => ⟨hj, ?_⟩
    rintro rfl
    exact hne (hI.exclusive o a j hj ha) rfl

private theorem used_act (o : Owner Id) (j : Slot) (hj : Owns slotOf (s.act n v' w') o j) :
    j ∈ w'.used := by
  cases traffic hI hn h with
  | shrink hu ho => exact hu ▸ hI.used o j (ho o j hj)
  | acquire i _ hu ho =>
    rw [show w'.used = _ from hu]
    rcases ho o j hj with hj | ⟨_, rfl⟩
    · exact .inr (hI.used o j hj)
    · exact .inl rfl
  | release i a ha hu ho =>
    obtain ⟨hj, hne⟩ := ho o j hj
    rw [show w'.used = _ from hu]
    refine ⟨hI.used o j hj, fun hji => ?_⟩
    obtain rfl : j = i := hji
    exact hne (hI.exclusive o a j hj ha) rfl
  | transfer i a b ha hu ho =>
    rw [show w'.used = _ from hu]
    rcases ho o j hj with ⟨hj, _⟩ | ⟨_, rfl⟩
    · exact hI.used o j hj
    · exact hI.used a j ha

/-- A slot without an owner that stays out of the pool never gets one again. -/
theorem ownerless_act {j : Slot} (hu : j ∈ s.world.used)
    (hj : ∀ o, ¬ Owns slotOf s o j) :
    j ∈ w'.used ∧ ∀ o, ¬ Owns slotOf (s.act n v' w') o j := by
  cases traffic hI hn h with
  | shrink hw ho => exact ⟨hw ▸ hu, fun o h => hj o (ho o j h)⟩
  | acquire i hi hw ho =>
    refine ⟨hw ▸ .inr hu, fun o h => ?_⟩
    rcases ho o j h with h | ⟨_, rfl⟩
    · exact hj o h
    · exact hi hu
  | release i a ha hw ho =>
    refine ⟨hw ▸ ⟨hu, fun hji => ?_⟩, fun o h => hj o (ho o j h).1⟩
    obtain rfl : j = i := hji
    exact hj a ha
  | transfer i a b ha hw ho =>
    refine ⟨hw ▸ hu, fun o h => ?_⟩
    rcases ho o j h with ⟨h, _⟩ | ⟨_, rfl⟩
    · exact hj o h
    · exact hj a ha

omit [DecidableEq Id] h in
/-- While a task holds the registry's mutex, no other task has released an entry. -/
private theorem released_locked {id : Id} (hr : v.registry = true) (hrel : Released s id) :
    ∃ r, v.standing = .released r := by
  obtain ⟨k, u, r, hk, _, hs⟩ := hrel
  have hk' := (hI.holder .registry k).mpr ⟨u, hk, hI.locked k u r hk hs⟩
  have hn' := (hI.holder .registry n).mpr ⟨v, hn, hr⟩
  obtain rfl : k = n := Option.some.inj (hk'.symm.trans hn')
  obtain rfl : v = u := Option.some.inj (hn.symm.trans hk)
  exact ⟨r, hs⟩

private theorem distinct_act (id id' : Id) (e e' : Entry Res) (i : Slot)
    (he : w'.entry id = some e) (he' : w'.entry id' = some e') (hi : slotOf e.res = some i)
    (hi' : slotOf e'.res = some i) : id = id' := by
  have hp (id r) (hid : v.id = some id) (hs : v.standing = .creating r) :
      s.world.entry id = some (.creating r) := by simpa [hs] using hI.placed n v id hn hid
  have hnew {id id' e₀} (hr : v.registry = true) (hs : v.standing = .fresh)
      (hslot : v.slot = some i) (he : s.world.entry id = some e₀)
      (hi : slotOf e₀.res = some i) : id = id' := by
    have hrel : ¬ Released s id := fun hrel => by
      obtain ⟨r, hr⟩ := released_locked hI hn hr hrel
      simp [hs] at hr
    have := hI.exclusive (.entry id) (.task n) i ⟨e₀, he, hi, hrel⟩ ⟨v, hn, hslot⟩
    cases this
  rcases h.recorded hp he with ⟨e₀, h₀, hres⟩ | ⟨hr, hid, hs, hslot⟩
  · rcases h.recorded hp he' with ⟨e₁, h₁, hres'⟩ | ⟨hr, _, hs, hslot⟩
    · exact hI.distinct id id' e₀ e₁ i h₀ h₁ (hres ▸ hi) (hres' ▸ hi')
    · exact hnew hr hs (hslot.trans hi') h₀ (hres ▸ hi)
  · rcases h.recorded hp he' with ⟨e₁, h₁, hres'⟩ | ⟨_, hid', _, _⟩
    · exact (hnew hr hs (hslot.trans hi) h₁ (hres' ▸ hi')).symm
    · exact Option.some.inj (hid.symm.trans hid')

private theorem live_act (id : Id) (hl : id ∈ w'.live) :
    (∃ r, w'.entry id = some (.running r)) ∨
      ∃ k u, (s.act n v' w').task k = some u ∧ u.agent = some id := by
  obtain ⟨hnew, hgive⟩ := h.process
  rcases hnew id hl with hl' | ha
  · rcases hI.live id hl' with ⟨r, hr⟩ | ⟨k, u, hk, hu⟩
    · rcases h.running_kept (hI.placed n v · hn) hr with he | ha
      · exact .inl ⟨r, he⟩
      · exact .inr ⟨n, v', by simp, ha⟩
    · by_cases hkn : k = n
      · subst hkn
        obtain rfl : v = u := Option.some.inj (hn.symm.trans hk)
        rcases hgive id hu with ha | hnot | hrun
        · exact .inr ⟨k, v', by simp, ha⟩
        · exact absurd hl hnot
        · exact .inl hrun
      · exact .inr ⟨k, u, task_act.mpr (.inr ⟨hkn, hk⟩), hu⟩
  · exact .inr ⟨n, v', by simp, ha⟩

private theorem lost_act (k : ℕ) (u : View Id Slot Res) (i : Slot)
    (hk : (s.act n v' w').task k = some u) (hu : u.lost = some i) :
    i ∈ w'.used ∧ ∀ o, ¬ Owns slotOf (s.act n v' w') o i := by
  rcases task_act.mp hk with ⟨rfl, rfl⟩ | ⟨_, hk⟩
  · rcases h.lost_cases with hl | ⟨hl, hs, rfl⟩
    · obtain ⟨hused, hno⟩ := hI.lost _ v i hn (hl ▸ hu)
      exact ownerless_act hI hn h hused hno
    · have hself : Owns slotOf s (.task k) i := ⟨v, hn, hl ▸ hu⟩
      refine ⟨hI.used _ i hself, fun o ho => ?_⟩
      have hold := owns_shrinks hn h (by simp [hs]) (fun _ e he => ⟨e, he, rfl⟩) ho
      obtain rfl := hI.exclusive o _ i hold hself
      simp [owns_actor, hs] at ho
  · obtain ⟨hused, hno⟩ := hI.lost k u i hk hu
    exact ownerless_act hI hn h hused hno

theorem Invariant.act : Invariant slotOf Fits (s.act n v' w') where
  holder := holder_act hI hn h
  issued := issued_act hI hn h
  unique := unique_act hI hn h
  anonymous k u hk hu := by
    rcases task_act.mp hk with ⟨rfl, rfl⟩ | ⟨_, hk⟩
    · exact h.anonymous (hI.anonymous _ v hn) hu
    · exact hI.anonymous k u hk hu
  placed := placed_act hI hn h
  covered := covered_act hI hn h
  fits := fits_act hI hn h
  locked k u r hk hs := by
    rcases task_act.mp hk with ⟨rfl, rfl⟩ | ⟨_, hk⟩
    · exact h.locked (hI.locked _ v · hn) r hs
    · exact hI.locked k u r hk hs
  exclusive := exclusive_act hI hn h
  used := used_act hI hn h
  distinct := distinct_act hI hn h
  agent k u hk := by
    rcases task_act.mp hk with ⟨rfl, rfl⟩ | ⟨_, hk⟩
    · exact h.agent (hI.agent _ v hn)
    · exact hI.agent k u hk
  live := live_act hI hn h
  lost := lost_act hI hn h

end Clauses

end Acting

section Spawning

variable {s : Site Id Slot Res} (hn : s.task n = none)
include hn

/-- The site after task `n` has arrived. -/
abbrev Site.spawn (s : Site Id Slot Res) (n : ℕ) : Site Id Slot Res :=
  { s with task := Function.update s.task n (some {}) }

omit [DecidableEq Id] in
private theorem task_spawn {k : ℕ} {u : View Id Slot Res} :
    (s.spawn n).task k = some u ↔ k = n ∧ u = {} ∨ s.task k = some u := by
  by_cases hk : k = n
  · subst hk
    simp [hn, eq_comm]
  · simp [hk]

omit [DecidableEq Id] in
private theorem released_spawn {id : Id} : Released (s.spawn n) id ↔ Released s id := by
  unfold Released
  constructor
  · rintro ⟨k, u, r, hk, hu, hs⟩
    rcases (task_spawn hn).mp hk with ⟨_, rfl⟩ | hk
    · simp at hu
    · exact ⟨k, u, r, hk, hu, hs⟩
  · rintro ⟨k, u, r, hk, hu, hs⟩
    exact ⟨k, u, r, (task_spawn hn).mpr (.inr hk), hu, hs⟩

omit [DecidableEq Id] in
theorem owns_spawn {o : Owner Id} {i : Slot} :
    Owns slotOf (s.spawn n) o i ↔ Owns slotOf s o i := by
  cases o with
  | entry id => simp only [Owns, released_spawn hn]
  | task k =>
    constructor
    · rintro ⟨u, hu, hslot⟩
      rcases (task_spawn hn).mp hu with ⟨_, rfl⟩ | hu
      · simp at hslot
      · exact ⟨u, hu, hslot⟩
    · rintro ⟨u, hu, hslot⟩
      exact ⟨u, (task_spawn hn).mpr (.inr hu), hslot⟩

omit [DecidableEq Id] in
theorem Invariant.spawn (hI : Invariant slotOf Fits s) : Invariant slotOf Fits (s.spawn n) where
  holder m k := by
    rw [hI.holder]
    constructor
    · rintro ⟨u, hu, hm⟩
      exact ⟨u, (task_spawn hn).mpr (.inr hu), hm⟩
    · rintro ⟨u, hu, hm⟩
      rcases (task_spawn hn).mp hu with ⟨_, rfl⟩ | hu
      · cases m <;> simp [View.holds] at hm
      · exact ⟨u, hu, hm⟩
  issued k u id hk hu := by
    rcases (task_spawn hn).mp hk with ⟨_, rfl⟩ | hk
    · simp at hu
    · exact hI.issued k u id hk hu
  unique k k' u u' id hk hk' hu hu' := by
    rcases (task_spawn hn).mp hk with ⟨_, rfl⟩ | hk
    · simp at hu
    · rcases (task_spawn hn).mp hk' with ⟨_, rfl⟩ | hk'
      · simp at hu'
      · exact hI.unique k k' u u' id hk hk' hu hu'
  anonymous k u hk hu := by
    rcases (task_spawn hn).mp hk with ⟨_, rfl⟩ | hk
    · rfl
    · exact hI.anonymous k u hk hu
  placed k u id hk hu := by
    rcases (task_spawn hn).mp hk with ⟨_, rfl⟩ | hk
    · simp at hu
    · exact hI.placed k u id hk hu
  covered id e he := by
    obtain ⟨k, u, hk, hu⟩ := hI.covered id e he
    exact ⟨k, u, (task_spawn hn).mpr (.inr hk), hu⟩
  fits := hI.fits
  locked k u r hk hs := by
    rcases (task_spawn hn).mp hk with ⟨_, rfl⟩ | hk
    · simp at hs
    · exact hI.locked k u r hk hs
  exclusive := hI.exclusive.mono fun _ _ => (owns_spawn hn).mp
  used o i ho := hI.used o i ((owns_spawn hn).mp ho)
  distinct := hI.distinct
  agent k u hk := by
    rcases (task_spawn hn).mp hk with ⟨_, rfl⟩ | hk
    · exact .inl (agentPlaced_none rfl)
    · exact hI.agent k u hk
  live id hl := by
    rcases hI.live id hl with hr | ⟨k, u, hk, hu⟩
    · exact .inl hr
    · exact .inr ⟨k, u, (task_spawn hn).mpr (.inr hk), hu⟩
  lost k u i hk hu := by
    rcases (task_spawn hn).mp hk with ⟨_, rfl⟩ | hk
    · simp at hu
    · obtain ⟨hused, hno⟩ := hI.lost k u i hk hu
      exact ⟨hused, fun o ho => hno o ((owns_spawn hn).mp ho)⟩

end Spawning

/-- Every move of the protocol keeps the invariant. -/
theorem Invariant.move {s s' : Site Id Slot Res} (hI : Invariant slotOf Fits s)
    (h : Move slotOf Fits lossy s s') : Invariant slotOf Fits s' := by
  cases h with
  | spawn n hn => exact hI.spawn hn
  | act n v v' w' hn h => exact hI.act hn h

/-- A slot in use that nobody owns. -/
def Stranded (slotOf : Res → Option Slot) (s : Site Id Slot Res) (i : Slot) : Prop :=
  i ∈ s.world.used ∧ ∀ o, ¬ Owns slotOf s o i

/-- A stranded slot stays so. -/
theorem Stranded.move {s s' : Site Id Slot Res} {i : Slot} (h : Stranded slotOf s i)
    (hI : Invariant slotOf Fits s) (hm : Move slotOf Fits lossy s s') : Stranded slotOf s' i := by
  cases hm with
  | spawn n hn => exact ⟨h.1, fun o ho => h.2 o ((owns_spawn hn).mp ho)⟩
  | act n v v' w' hn hstep => exact ownerless_act hI hn hstep h.1 h.2

/-- A placeholder that is discarded strands its slot. -/
theorem stranded_discard {s : Site Id Slot Res} {id : Id} {r : Res} {i : Slot}
    (hI : Invariant slotOf Fits s) (hn : s.task n = some v) (hr : v.registry = true)
    (hid : v.id = some id) (hst : v.standing = .creating r) (hslot : v.slot = none)
    (ha : v.agent = none) (hi : slotOf r = some i) :
    Stranded slotOf (s.act n { v with standing := .gone }
      { s.world with entry := Function.update s.world.entry id none }) i := by
  have howner : Owns slotOf s (.entry id) i := hI.owns_own hn hid hst hi
  have hstep : Step slotOf Fits True n v s.world { v with standing := .gone }
      { s.world with entry := Function.update s.world.entry id none } :=
    .discard v s.world id r hr hid (.inl ⟨trivial, hst⟩) hslot ha
  refine ⟨hI.used _ i howner, fun o ho => ?_⟩
  have hbefore : Owns slotOf s o i := by
    apply owns_shrinks hn hstep (fun _ hj => hj) _ ho
    intro id' e he
    by_cases hne : id' = id
    · simp [hne] at he
    · exact ⟨e, by simpa [hne] using he, rfl⟩
  obtain rfl := hI.exclusive o _ i hbefore howner
  obtain ⟨e, he, _⟩ := ho
  simp at he

/-- The process a task has to end belongs to its placeholder, or came with a slot. -/
def Attended (s : Site Id Slot Res) : Prop := ∀ n v, s.task n = some v → v.agent.isSome →
  v.AgentPlaced ∨ v.id = none ∧ (v.slot.isSome ∨ v.lost.isSome)

theorem Attended.move {s s' : Site Id Slot Res} (ha : Attended s) (hI : Invariant slotOf Fits s)
    (hfit : ∀ id r, Fits id r → (slotOf r).isSome) (h : Move slotOf Fits lossy s s') :
    Attended s' := by
  cases h with
  | spawn n hn =>
    intro k u hk
    rcases (task_spawn hn).mp hk with ⟨_, rfl⟩ | hk
    · simp
    · exact ha k u hk
  | act n v v' w' hn h =>
    intro k u hk
    rcases task_act.mp hk with ⟨_, rfl⟩ | ⟨_, hk⟩
    · exact h.attended (fun id r hr => hfit id r (hI.fits id _ hr)) (ha n v hn)
    · exact ha k u hk

omit [DecidableEq Id] in
/-- A task with the process of no entry has the registry locked and took the slot over. -/
theorem Attended.deleting {s : Site Id Slot Res} (ha : Attended s) (hI : Invariant slotOf Fits s)
    {id : Id} {v : View Id Slot Res} (hnone : s.world.entry id = none) (hn : s.task n = some v)
    (hid : v.agent = some id) :
    v.registry = true ∧ v.standing = .fresh ∧ (v.slot.isSome ∨ v.lost.isSome) := by
  have hplaced : ¬ v.AgentPlaced := by
    intro hp
    obtain ⟨hi, r, hst⟩ := hp id hid
    have := hI.placed n v id hn hi
    simp [hst, hnone] at this
  obtain ⟨hidnone, hslot⟩ := (ha n v hn (by simp [hid])).resolve_left hplaced
  exact ⟨(hI.agent n v hn).resolve_left hplaced, hI.anonymous n v hn hidnone, hslot⟩

omit [DecidableEq Id] in
/-- An empty registry, free mutexes and no task. -/
theorem Invariant.initial (used : Set Slot) (issued : Set Id) :
    Invariant slotOf Fits ⟨⟨fun _ => none, used, fun _ => none, ∅, issued⟩, fun _ => none⟩ := by
  have hno (o : Owner Id) (i : Slot) :
      ¬ Owns slotOf ⟨⟨fun _ => none, used, fun _ => none, ∅, issued⟩, fun _ => none⟩ o i := by
    cases o <;> simp [Owns]
  constructor <;> simp [Exclusive, hno]

end Warlock.ReservationProtocol
