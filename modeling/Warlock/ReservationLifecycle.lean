import Warlock.ReservationInvariant

/-!
# The life of an entry

Under one identifier the registry first holds nothing, then a placeholder, then the same
record running, then nothing for ever; a placeholder may also vanish. Only the task that has
drawn the identifier enters, upgrades or removes its placeholder.
-/

namespace Warlock.ReservationProtocol

variable {Id Slot Res : Type*} [DecidableEq Id] {slotOf : Res → Option Slot}
  {Fits : Id → Res → Prop} {lossy : Prop} {n : ℕ} {v v' : View Id Slot Res}
  {w w' : World Id Slot Res} {s s' : Site Id Slot Res} {id : Id}

/-- What one step can do to what is under one identifier. -/
inductive Moves : Option (Entry Res) → Option (Entry Res) → Prop
  | stays (e) : Moves e e
  | placed (r) : Moves none (some (.creating r))
  | upgraded (r) : Moves (some (.creating r)) (some (.running r))
  | removed (r) : Moves (some (.creating r)) none
  | taken (r) : Moves (some (.running r)) none

/-- What is under an identifier that has had this entry before. -/
inductive Outlives : Entry Res → Option (Entry Res) → Prop
  | same (e) : Outlives e (some e)
  | upgraded (r) : Outlives (.creating r) (some (.running r))
  | absent (e) : Outlives e none

theorem Outlives.move {e : Entry Res} {x y : Option (Entry Res)} (h : Outlives e x)
    (hm : Moves x y) (ha : x = none → y = none) : Outlives e y := by
  cases h with
  | same => cases hm <;> constructor
  | upgraded r => cases hm <;> constructor
  | absent =>
    rw [ha rfl]
    constructor

/-- The identifier has been used: its task has entered a record. -/
def Spent (s : Site Id Slot Res) (id : Id) : Prop :=
  ∃ n v, s.task n = some v ∧ v.id = some id ∧ v.standing ≠ .fresh

namespace Step

/-- Entries move one step at a time, and placeholders only by their own task. -/
theorem moves (h : Step slotOf Fits lossy n v w v' w')
    (hp : ∀ id, v.id = some id → v.standing.Allows (w.entry id)) (id : Id) :
    Moves (w.entry id) (w'.entry id) ∧
      ((∀ r, w.entry id ≠ some (.running r)) → w'.entry id ≠ w.entry id → v.id = some id) := by
  have hold {w₀ : World Id Slot Res} {id' x}
      (he : w₀.entry = Function.update w.entry id' x) (hne : id ≠ id') :
      Moves (w.entry id) (w₀.entry id) ∧
        ((∀ r, w.entry id ≠ some (.running r)) → w₀.entry id ≠ w.entry id → v.id = some id) := by
    have hsame : w₀.entry id = w.entry id := by rw [he, Function.update_of_ne hne]
    rw [hsame]
    exact ⟨.stays _, fun _ hc => absurd rfl hc⟩
  cases h with
  | place id' r hr hi hs hslot hf ha =>
    by_cases hne : id = id'
    · subst hne
      have hnone : w.entry id = none := by simpa [hs] using hp id hi
      exact ⟨by simpa [hnone] using Moves.placed r, fun _ _ => hi⟩
    · exact hold rfl hne
  | upgrade id' r hr hi hs ha =>
    by_cases hne : id = id'
    · subst hne
      have hcreating : w.entry id = some (.creating r) := by simpa [hs] using hp id hi
      exact ⟨by simpa [hcreating] using Moves.upgraded r, fun _ _ => hi⟩
    · exact hold rfl hne
  | remove id' r hr hi hs hslot ha =>
    by_cases hne : id = id'
    · subst hne
      have hcreating : w.entry id = some (.creating r) := by simpa [hs] using hp id hi
      exact ⟨by simpa [hcreating] using Moves.removed r, fun _ _ => hi⟩
    · exact hold rfl hne
  | discard id' r hr hi hs hslot ha =>
    by_cases hne : id = id'
    · subst hne
      have hcreating : w.entry id = some (.creating r) := by
        rcases hs with ⟨_, hs⟩ | hs <;> simpa [hs] using hp id hi
      exact ⟨by simpa [hcreating] using Moves.removed r, fun _ _ => hi⟩
    · exact hold rfl hne
  | take id' r hr hi he hslot ha =>
    by_cases hne : id = id'
    · subst hne
      exact ⟨by simpa [he] using Moves.taken r, fun hnot => absurd he (hnot r)⟩
    · exact hold rfl hne
  | _ => exact ⟨.stays _, fun _ hc => absurd rfl hc⟩

/-- A used identifier stays used. -/
theorem spent_kept (h : Step slotOf Fits lossy n v w v' w') (hid : v.id = some id)
    (hs : v.standing ≠ .fresh) : v'.standing ≠ .fresh := by
  cases h with
  | lock => simpa using hs
  | unlock => simpa using hs
  | draw id' hn => simp [hid] at hn
  | releaseEntry => simp
  | place => simp
  | upgrade => simp
  | remove => simp
  | discard => simp
  | _ => exact hs

end Step

omit [DecidableEq Id] in
theorem Invariant.spent (hI : Invariant slotOf Fits s) (he : s.world.entry id ≠ none) :
    Spent s id := by
  obtain ⟨e, he⟩ := Option.ne_none_iff_exists'.mp he
  obtain ⟨n, v, hn, hid⟩ := hI.covered id e he
  refine ⟨n, v, hn, hid, fun hst => ?_⟩
  have hp := hI.placed n v id hn hid
  simp [hst, he] at hp

theorem Spent.move (h : Spent s id) (hm : Move slotOf Fits lossy s s') : Spent s' id := by
  obtain ⟨k, u, hk, hid, hst⟩ := h
  cases hm with
  | spawn n hn =>
    refine ⟨k, u, ?_, hid, hst⟩
    have hkn : k ≠ n := by
      rintro rfl
      simp [hk] at hn
    simpa [hkn] using hk
  | act n v v' w' hn h =>
    by_cases hkn : k = n
    · subst hkn
      obtain rfl : v = u := Option.some.inj (hn.symm.trans hk)
      exact ⟨k, v', by simp, h.id_kept hid, h.spent_kept hid hst⟩
    · exact ⟨k, u, by simpa [hkn] using hk, hid, hst⟩

/-- Some task has made the entry running. -/
def Upgraded (s : Site Id Slot Res) (id : Id) : Prop :=
  ∃ k u r, s.task k = some u ∧ u.id = some id ∧ u.standing = .upgraded r

theorem Upgraded.move (h : Upgraded s id) (hm : Move slotOf Fits lossy s s') : Upgraded s' id := by
  obtain ⟨k, u, r, hk, hid, hst⟩ := h
  cases hm with
  | spawn n hn =>
    have hkn : k ≠ n := by
      rintro rfl
      simp [hk] at hn
    exact ⟨k, u, r, by simpa [hkn] using hk, hid, hst⟩
  | act n v v' w' hn h =>
    by_cases hkn : k = n
    · subst hkn
      obtain rfl : v = u := Option.some.inj (hn.symm.trans hk)
      obtain ⟨hst', hid'⟩ := h.upgraded_kept hst hid
      exact ⟨k, v', r, by simp, hid', hst'⟩
    · exact ⟨k, u, r, by simpa [hkn] using hk, hid, hst⟩

/-- The task has drawn the identifier, or its entry has been made running. -/
def Titled (s : Site Id Slot Res) (n : ℕ) (id : Id) : Prop :=
  (∃ v, s.task n = some v ∧ v.id = some id) ∨ Upgraded s id

theorem Titled.move {k : ℕ} (h : Titled s k id) (hm : Move slotOf Fits lossy s s') :
    Titled s' k id := by
  rcases h with ⟨u, hk, hid⟩ | h
  · left
    cases hm with
    | spawn n hn =>
      have hkn : k ≠ n := by
        rintro rfl
        simp [hk] at hn
      exact ⟨u, by simpa [hkn] using hk, hid⟩
    | act n v v' w' hn h =>
      by_cases hkn : k = n
      · subst hkn
        obtain rfl : v = u := Option.some.inj (hn.symm.trans hk)
        exact ⟨v', by simp, h.id_kept hid⟩
      · exact ⟨u, by simpa [hkn] using hk, hid⟩
  · exact .inr (h.move hm)

omit [DecidableEq Id] in
/-- A running entry has been made running by its task. -/
theorem Invariant.upgraded_of_running (hI : Invariant slotOf Fits s) {r : Res}
    (he : s.world.entry id = some (.running r)) : Upgraded s id := by
  obtain ⟨k, u, hk, hid⟩ := hI.covered id _ he
  have hp := hI.placed k u id hk hid
  rw [he] at hp
  cases hst : u.standing with
  | upgraded r' => exact ⟨k, u, r', hk, hid, hst⟩
  | fresh => simp [hst] at hp
  | creating r' => simp [hst] at hp
  | released r' => simp [hst] at hp
  | gone => simp [hst] at hp

theorem Invariant.moves (hI : Invariant slotOf Fits s) (hm : Move slotOf Fits lossy s s')
    (id : Id) : Moves (s.world.entry id) (s'.world.entry id) := by
  cases hm with
  | spawn n hn => exact .stays _
  | act n v v' w' hn h => exact (h.moves (fun id => hI.placed n v id hn) id).1

/-- What has become absent stays absent. -/
theorem Invariant.absent_kept (hI : Invariant slotOf Fits s) (hm : Move slotOf Fits lossy s s')
    (hs : Spent s id) (he : s.world.entry id = none) : s'.world.entry id = none := by
  obtain ⟨k, u, hk, hid, hst⟩ := hs
  by_contra hne
  obtain ⟨e, he'⟩ := Option.ne_none_iff_exists'.mp hne
  cases hm with
  | spawn n hn => exact hne he
  | act n v v' w' hn h =>
    have hplaced (id : Id) (r : Res) (hi : v.id = some id) (hc : v.standing = .creating r) :
        s.world.entry id = some (.creating r) := by
      have hp := hI.placed n v id hn hi
      rwa [hc] at hp
    rcases h.recorded hplaced he' with ⟨e₀, hold, _⟩ | ⟨_, hvid, hfresh, _⟩
    · simp [he] at hold
    · obtain rfl := hI.unique k n u v id hk hn hid hvid
      obtain rfl : v = u := Option.some.inj (hn.symm.trans hk)
      exact hst hfresh

end Warlock.ReservationProtocol
