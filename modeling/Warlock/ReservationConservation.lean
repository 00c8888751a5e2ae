import Warlock.ReservationInvariant

/-!
# No slot is lost in a protocol that is not lossy

When no task ever leaves a slot behind, every slot in use has an owner: an entry of the
registry or a task that holds it.
-/

namespace Warlock.ReservationProtocol
open ResourceCustody

variable {Id Slot Res : Type*} [DecidableEq Id] {slotOf : Res → Option Slot}
  {Fits : Id → Res → Prop} {lossy : Prop} {n : ℕ} {v v' : View Id Slot Res}
  {w w' : World Id Slot Res} {s s' : Site Id Slot Res}

/-- A task releases on behalf of its placeholder, and then the slot is free. -/
theorem Step.released_new (h : Step slotOf Fits lossy n v w v' w') {r : Res}
    (hv' : v'.standing = .released r) :
    v.standing = .released r ∧ v'.id = v.id ∨
      v.standing = .creating r ∧ v'.id = v.id ∧
        ∃ i, slotOf r = some i ∧ w'.used = w.used \ {i} := by
  cases h with
  | releaseEntry r' i hr hp hi hs hslot ha =>
    obtain rfl : r' = r := by simpa using hv'
    exact .inr ⟨hs, rfl, i, hslot, rfl⟩
  | draw id hv hs ha hi => simp [hs] at hv'
  | lock => exact .inl ⟨by simpa using hv', by simp⟩
  | unlock => exact .inl ⟨by simpa using hv', by simp⟩
  | place => simp at hv'
  | upgrade => simp at hv'
  | remove => simp at hv'
  | discard => simp at hv'
  | _ => exact .inl ⟨hv', rfl⟩

/-- An entry whose record stays keeps owning a slot that stays in use. -/
theorem owns_entry_keep (hI : Invariant slotOf Fits s) (hn : s.task n = some v)
    (h : Step slotOf Fits lossy n v s.world v' w') {id : Id} {i : Slot}
    (ho : Owns slotOf s (.entry id) i) (hi : i ∈ w'.used)
    (he : ∀ e, s.world.entry id = some e → ∃ e', w'.entry id = some e' ∧ e'.res = e.res) :
    Owns slotOf (s.act n v' w') (.entry id) i := by
  obtain ⟨e, hs, hslot, hrel⟩ := ho
  obtain ⟨e', hw, hres⟩ := he e hs
  refine ⟨e', hw, hres ▸ hslot, ?_⟩
  rintro ⟨k, u, r, hk, hu, hst⟩
  rcases task_act.mp hk with ⟨rfl, rfl⟩ | ⟨_, hk⟩
  · rcases h.released_new hst with ⟨hv, hid⟩ | ⟨hv, hid, j, hj, hused⟩
    · exact hrel ⟨k, v, r, hn, hid ▸ hu, hv⟩
    · have hp : s.world.entry id = some (.creating r) := by
        simpa [hv] using hI.placed k v id hn (hid ▸ hu)
      obtain rfl : e = .creating r := Option.some.inj (hs.symm.trans hp)
      obtain rfl : i = j := Option.some.inj (hslot.symm.trans hj)
      rw [hused] at hi
      exact absurd rfl hi.2
  · exact hrel ⟨k, u, r, hk, hu, hst⟩

omit [DecidableEq Id] in
theorem owns_task_keep {k : ℕ} {i : Slot} (hk : k ≠ n) (ho : Owns slotOf s (.task k) i) :
    Owns slotOf (s.act n v' w') (.task k) i := by
  obtain ⟨u, hu, hslot⟩ := ho
  exact ⟨u, task_act.mpr (.inr ⟨hk, hu⟩), hslot⟩

/-- A step that keeps all records keeps every slot owned that was and stays in use. -/
theorem owns_keep (hI : Invariant slotOf Fits s) (hn : s.task n = some v)
    (h : Step slotOf Fits lossy n v s.world v' w') {o : Owner Id} {i : Slot}
    (ho : Owns slotOf s o i) (hi : i ∈ w'.used)
    (he : ∀ id e, s.world.entry id = some e → ∃ e', w'.entry id = some e' ∧ e'.res = e.res)
    (hv : v.slot = some i → v'.slot = some i) : Owns slotOf (s.act n v' w') o i := by
  cases o with
  | entry id => exact owns_entry_keep hI hn h ho hi (he id)
  | task k =>
    by_cases hk : k = n
    · subst hk
      obtain ⟨u, hu, hslot⟩ := ho
      obtain rfl : v = u := Option.some.inj (hn.symm.trans hu)
      exact owns_actor.mpr (hv hslot)
    · exact owns_task_keep hk ho

/-- A step on the record under one identifier keeps every other owner. -/
theorem owns_keep_except (hI : Invariant slotOf Fits s) (hn : s.task n = some v)
    (h : Step slotOf Fits lossy n v s.world v' w') {id : Id} {e : Option (Entry Res)}
    (hw : w'.entry = Function.update s.world.entry id e) {o : Owner Id} {i : Slot}
    (ho : Owns slotOf s o i) (hi : i ∈ w'.used) (hid : o ≠ .entry id) (hk : o ≠ .task n) :
    Owns slotOf (s.act n v' w') o i := by
  cases o with
  | entry id' =>
    have hne : id' ≠ id := fun h => hid (congrArg _ h)
    exact owns_entry_keep hI hn h ho hi fun e he => ⟨e, by simpa [hw, hne] using he, rfl⟩
  | task k => exact owns_task_keep (fun h => hk (congrArg _ h)) ho

/-- What leaves the registry for the acting task's hands stays owned. -/
theorem covered_removed (hI : Invariant slotOf Fits s) (hn : s.task n = some v)
    (h : Step slotOf Fits lossy n v s.world v' w') {id : Id} {e : Entry Res}
    (he : s.world.entry id = some e) (hw : w'.entry = Function.update s.world.entry id none)
    (hslot : v.slot = none) (hs' : v'.slot = slotOf e.res) {o : Owner Id} {i : Slot}
    (ho : Owns slotOf s o i) (hi : i ∈ w'.used) : ∃ o', Owns slotOf (s.act n v' w') o' i := by
  by_cases hid : o = .entry id
  · subst hid
    obtain ⟨e', he', hslot', _⟩ := ho
    obtain rfl : e = e' := Option.some.inj (he.symm.trans he')
    exact ⟨.task n, owns_actor.mpr (hs'.trans hslot')⟩
  · refine ⟨o, owns_keep_except hI hn h hw ho hi hid ?_⟩
    rintro rfl
    obtain ⟨u, hu, hu'⟩ := ho
    obtain rfl : v = u := Option.some.inj (hn.symm.trans hu)
    simp [hslot] at hu'

/-- A slot in use that had an owner has one after a step that loses nothing. -/
theorem owned_act (hI : Invariant slotOf Fits s) (hn : s.task n = some v)
    (h : Step slotOf Fits False n v s.world v' w') {o : Owner Id} {i : Slot}
    (ho : Owns slotOf s o i) (hi : i ∈ w'.used) : ∃ o', Owns slotOf (s.act n v' w') o' i := by
  have hact := h
  have hsame (he : ∀ id e, s.world.entry id = some e → ∃ e', w'.entry id = some e' ∧ e'.res = e.res)
      (hv : v.slot = some i → v'.slot = some i) : ∃ o', Owns slotOf (s.act n v' w') o' i :=
    ⟨o, owns_keep hI hn hact ho hi he hv⟩
  cases h with
  | allocate j hp hs hj => exact hsame (fun _ e he => ⟨e, he, rfl⟩) (by simp [hs])
  | release j hp hs ha =>
    refine hsame (fun _ e he => ⟨e, he, rfl⟩) fun hv => ?_
    obtain rfl : j = i := Option.some.inj (hs.symm.trans hv)
    exact absurd rfl hi.2
  | place id r hr hid hs hslot hf ha =>
    have hnone : s.world.entry id = none := by simpa [hs] using hI.placed n v id hn hid
    by_cases hk : o = .task n
    · subst hk
      obtain ⟨u, hu, hu'⟩ := ho
      obtain rfl : v = u := Option.some.inj (hn.symm.trans hu)
      refine ⟨.entry id, .creating r, by simp, hslot.symm.trans hu', not_released ?_⟩
      intro k u hk hu r' hr'
      rcases task_act.mp hk with ⟨rfl, rfl⟩ | ⟨hkn, hk⟩
      · simp at hr'
      · exact hkn (hI.unique k n u v id hk hn hu hid)
    · refine ⟨o, owns_keep_except hI hn hact rfl ho hi ?_ hk⟩
      rintro rfl
      obtain ⟨e, he, _⟩ := ho
      simp [hnone] at he
  | upgrade id r hr hid hs ha =>
    have hp : s.world.entry id = some (.creating r) := by simpa [hs] using hI.placed n v id hn hid
    refine hsame (fun id' e he => ?_) fun hv => hv
    by_cases hne : id' = id
    · subst hne
      obtain rfl : e = .creating r := Option.some.inj (he.symm.trans hp)
      exact ⟨.running r, by simp, rfl⟩
    · exact ⟨e, by simpa [hne] using he, rfl⟩
  | remove id r hr hid hs hslot ha =>
    have hp : s.world.entry id = some (.creating r) := by simpa [hs] using hI.placed n v id hn hid
    exact covered_removed hI hn hact hp rfl hslot rfl ho hi
  | discard id r hr hid hs hslot ha =>
    rcases hs with ⟨hf, _⟩ | hs
    · exact hf.elim
    · refine ⟨o, owns_keep_except hI hn hact rfl ho hi ?_ ?_⟩
      · rintro rfl
        obtain ⟨_, _, _, hrel⟩ := ho
        exact hrel ⟨n, v, r, hn, hid, hs⟩
      · rintro rfl
        obtain ⟨u, hu, hu'⟩ := ho
        obtain rfl : v = u := Option.some.inj (hn.symm.trans hu)
        simp [hslot] at hu'
  | take id r hr hid he hslot ha => exact covered_removed hI hn hact he rfl hslot rfl ho hi
  | abandon hl =>
    have hslot : v.slot = none := by simpa using hl
    exact hsame (fun _ e he => ⟨e, he, rfl⟩) (by simp [hslot])
  | lock => exact hsame (fun _ e he => ⟨e, he, rfl⟩) (by simp)
  | unlock => exact hsame (fun _ e he => ⟨e, he, rfl⟩) (by simp)
  | _ => exact hsame (fun _ e he => ⟨e, he, rfl⟩) fun hv => hv

/-- Every slot in use has an owner. -/
def Conserved (slotOf : Res → Option Slot) (s : Site Id Slot Res) : Prop :=
  Covers (Owns slotOf s) (· ∈ s.world.used)

theorem Conserved.act (hc : Conserved slotOf s) (hI : Invariant slotOf Fits s)
    (hn : s.task n = some v) (h : Step slotOf Fits False n v s.world v' w') :
    Conserved slotOf (s.act n v' w') := by
  refine Covers.step hc fun i hi => ?_
  by_cases hw : i ∈ s.world.used
  · exact .inr ⟨hw, fun o ho => owned_act hI hn h ho hi⟩
  · refine .inl ⟨.task n, owns_actor.mpr ?_⟩
    cases h with
    | allocate j hp hs hj =>
      rcases hi with rfl | hi
      · rfl
      · exact absurd hi hw
    | release j hp hs ha => exact absurd hi.1 hw
    | releaseEntry r j hr hp hid hs hslot ha => exact absurd hi.1 hw
    | _ => exact absurd hi hw

theorem Conserved.move (hc : Conserved slotOf s) (hI : Invariant slotOf Fits s)
    (h : Move slotOf Fits False s s') : Conserved slotOf s' := by
  cases h with
  | spawn n hn =>
    intro i hi
    obtain ⟨o, ho⟩ := hc i hi
    exact ⟨o, (owns_spawn hn).mpr ho⟩
  | act n v v' w' hn h => exact hc.act hI hn h

omit [DecidableEq Id] in
/-- With nothing in the hands of any task, the slots in use are those of the entries. -/
theorem Conserved.used_eq (hc : Conserved slotOf s) (hI : Invariant slotOf Fits s)
    (hidle : ∀ n v, s.task n = some v → v.slot = none ∧ ∀ r, v.standing ≠ .released r) :
    s.world.used = {i | ∃ id e, s.world.entry id = some e ∧ slotOf e.res = some i} := by
  ext i
  constructor
  · intro hi
    obtain ⟨o, ho⟩ := hc i hi
    cases o with
    | entry id =>
      obtain ⟨e, he, hslot, _⟩ := ho
      exact ⟨id, e, he, hslot⟩
    | task n =>
      obtain ⟨v, hv, hslot⟩ := ho
      simp [(hidle n v hv).1] at hslot
  · rintro ⟨id, e, he, hslot⟩
    refine hI.used (.entry id) i ⟨e, he, hslot, ?_⟩
    rintro ⟨n, v, r, hv, _, hst⟩
    exact (hidle n v hv).2 r hst

end Warlock.ReservationProtocol
