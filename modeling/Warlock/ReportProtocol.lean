import Mathlib.Data.Set.Insert
import Mathlib.Logic.Function.Basic

/-!
# Keeping a remote listing in step with a local set

Tasks publish members of a local set and take members out again; each reports what it has
done to a remote listing, later and in a step of its own. A member is never published
twice. The listing is the local set, up to reports under way, as long as no withdrawal is
reported before the publication it withdraws.
-/

namespace Warlock.ReportProtocol

structure Board (Id : Type*) where
  running : Set Id
  listed : Set Id
  published : Set Id
  announcing : ℕ → Option Id
  retiring : ℕ → Option Id

variable {Id : Type*} {b b' : Board Id} {n : ℕ}

/-- One step of task `n`; the set of what was ever published may grow with every step. -/
inductive Step (n : ℕ) (b : Board Id) : Board Id → Prop
  | silent (p : Set Id) (hp : b.published ⊆ p) : Step n b { b with published := p }
  | publish (id : Id) (p : Set Id) (hp : b.published ⊆ p) (hid : id ∈ p)
      (hnew : id ∉ b.published) (ha : b.announcing n = none) :
      Step n b { b with running := insert id b.running, published := p,
                        announcing := Function.update b.announcing n (some id) }
  | register (id : Id) (p : Set Id) (hp : b.published ⊆ p) (ha : b.announcing n = some id) :
      Step n b { b with listed := insert id b.listed, published := p,
                        announcing := Function.update b.announcing n none }
  | retire (id : Id) (p : Set Id) (hp : b.published ⊆ p) (hid : id ∈ b.running)
      (hr : b.retiring n = none) :
      Step n b { b with running := b.running \ {id}, published := p,
                        retiring := Function.update b.retiring n (some id) }
  | deregister (id : Id) (p : Set Id) (hp : b.published ⊆ p) (hr : b.retiring n = some id)
      (hlate : ∀ k, b.announcing k ≠ some id) :
      Step n b { b with listed := b.listed \ {id}, published := p,
                        retiring := Function.update b.retiring n none }

/-- Published and not reported as withdrawn yet. -/
def Board.Present (b : Board Id) (id : Id) : Prop := id ∈ b.running ∨ ∃ k, b.retiring k = some id

structure Invariant (b : Board Id) : Prop where
  agrees : ∀ id, id ∈ b.listed ↔ b.Present id ∧ ∀ k, b.announcing k ≠ some id
  announced : ∀ k id, b.announcing k = some id → b.Present id
  published : ∀ id, b.Present id → id ∈ b.published
  apart : ∀ k id, b.retiring k = some id → id ∉ b.running
  announcer : ∀ k k' id, b.announcing k = some id → b.announcing k' = some id → k = k'
  retirer : ∀ k k' id, b.retiring k = some id → b.retiring k' = some id → k = k'

theorem Invariant.initial (p : Set Id) : Invariant ⟨∅, ∅, p, fun _ => none, fun _ => none⟩ := by
  constructor <;> simp [Board.Present]

theorem Invariant.grow (hI : Invariant b) {p : Set Id} (hp : b.published ⊆ p) :
    Invariant { b with published := p } :=
  ⟨hI.agrees, hI.announced, fun id h => hp (hI.published id h), hI.apart, hI.announcer, hI.retirer⟩

private theorem update_some {f : ℕ → Option Id} {v : Option Id} {k : ℕ} {id : Id} :
    Function.update f n v k = some id ↔ k = n ∧ v = some id ∨ k ≠ n ∧ f k = some id := by
  by_cases hk : k = n
  · subst hk
    simp
  · simp [hk]

theorem Invariant.publish (hI : Invariant b) {id : Id} {p : Set Id} (hp : b.published ⊆ p)
    (hid : id ∈ p) (hnew : id ∉ b.published) (ha : b.announcing n = none) :
    Invariant { b with running := insert id b.running, published := p,
                       announcing := Function.update b.announcing n (some id) } := by
  have habsent : ¬ b.Present id := fun h => hnew (hI.published id h)
  have hpresent (id' : Id) : Board.Present { b with
      running := insert id b.running, published := p,
      announcing := Function.update b.announcing n (some id) } id' ↔
      id' = id ∨ b.Present id' := by simp [Board.Present, or_assoc]
  refine ⟨fun id' => ?_, fun k id' hk => ?_, fun id' h => ?_, fun k id' hk => ?_,
    fun k k' id' hk hk' => ?_, hI.retirer⟩
  · rw [hpresent]
    by_cases hne : id' = id
    · subst hne
      refine ⟨fun h => absurd ((hI.agrees id').mp h).1 habsent, fun h => absurd ?_ (h.2 n)⟩
      simp
    · refine (hI.agrees id').trans ⟨fun h => ⟨.inr h.1, fun k hk => ?_⟩, fun h =>
        ⟨h.1.resolve_left hne, fun k hk => ?_⟩⟩
      · rcases update_some.mp hk with ⟨_, hk⟩ | ⟨_, hk⟩
        · exact hne (Option.some.inj hk).symm
        · exact h.2 k hk
      · refine h.2 k (update_some.mpr (.inr ⟨?_, hk⟩))
        rintro rfl
        simp [ha] at hk
  · rw [hpresent]
    rcases update_some.mp hk with ⟨_, hk⟩ | ⟨_, hk⟩
    · exact .inl (Option.some.inj hk).symm
    · exact .inr (hI.announced k id' hk)
  · rcases (hpresent id').mp h with rfl | h
    · exact hid
    · exact hp (hI.published id' h)
  · rintro (rfl | hrun)
    · exact habsent (.inr ⟨k, hk⟩)
    · exact hI.apart k id' hk hrun
  · rcases update_some.mp hk with ⟨hkn, heq⟩ | ⟨_, hold⟩
    · rcases update_some.mp hk' with ⟨hkn', _⟩ | ⟨_, hold'⟩
      · exact hkn.trans hkn'.symm
      · exact absurd (Option.some.inj heq ▸ hI.announced k' _ hold') habsent
    · rcases update_some.mp hk' with ⟨_, heq⟩ | ⟨_, hold'⟩
      · exact absurd (Option.some.inj heq ▸ hI.announced k _ hold) habsent
      · exact hI.announcer k k' id' hold hold'

theorem Invariant.register (hI : Invariant b) {id : Id} (ha : b.announcing n = some id) :
    Invariant { b with listed := insert id b.listed,
                       announcing := Function.update b.announcing n none } := by
  have hold {k : ℕ} {id' : Id} (hk : Function.update b.announcing n none k = some id') :
      k ≠ n ∧ b.announcing k = some id' := by simpa [update_some] using hk
  refine ⟨fun id' => ?_, fun k id' hk => hI.announced k id' (hold hk).2, hI.published, hI.apart,
    fun k k' id' hk hk' => hI.announcer k k' id' (hold hk).2 (hold hk').2, hI.retirer⟩
  by_cases hne : id' = id
  · subst hne
    refine iff_of_true (.inl rfl) ⟨hI.announced n id' ha, fun k hk => ?_⟩
    exact (hold hk).1 (hI.announcer k n id' (hold hk).2 ha)
  · refine Iff.trans (by simp [hne]) ((hI.agrees id').trans (and_congr_right fun _ =>
      forall_congr' fun k => not_congr ?_))
    refine ⟨fun hk => update_some.mpr (.inr ⟨?_, hk⟩), fun hk => (hold hk).2⟩
    rintro rfl
    exact hne (Option.some.inj (hk.symm.trans ha))

theorem Invariant.retire (hI : Invariant b) {id : Id} {p : Set Id} (hp : b.published ⊆ p)
    (hid : id ∈ b.running) (hr : b.retiring n = none) :
    Invariant { b with running := b.running \ {id}, published := p,
                       retiring := Function.update b.retiring n (some id) } := by
  have hpresent (id' : Id) : Board.Present { b with
      running := b.running \ {id}, published := p,
      retiring := Function.update b.retiring n (some id) } id' ↔ b.Present id' := by
    unfold Board.Present
    simp only [update_some]
    constructor
    · rintro (⟨hrun, _⟩ | ⟨k, ⟨_, hk⟩ | ⟨_, hk⟩⟩)
      · exact .inl hrun
      · exact .inl (Option.some.inj hk ▸ hid)
      · exact .inr ⟨k, hk⟩
    · rintro (hrun | ⟨k, hk⟩)
      · by_cases hne : id' = id
        · exact .inr ⟨n, .inl ⟨rfl, by rw [hne]⟩⟩
        · exact .inl ⟨hrun, hne⟩
      · refine .inr ⟨k, .inr ⟨?_, hk⟩⟩
        rintro rfl
        simp [hr] at hk
  refine ⟨fun id' => ?_, fun k id' hk => (hpresent id').mpr (hI.announced k id' hk),
    fun id' h => hp (hI.published id' ((hpresent id').mp h)), fun k id' hk => ?_, hI.announcer,
    fun k k' id' hk hk' => ?_⟩
  · rw [hpresent]
    exact hI.agrees id'
  · rcases update_some.mp hk with ⟨_, hk⟩ | ⟨_, hk⟩
    · exact fun h => h.2 (Option.some.inj hk).symm
    · exact fun h => hI.apart k id' hk h.1
  · rcases update_some.mp hk with ⟨hkn, heq⟩ | ⟨_, hold⟩
    · rcases update_some.mp hk' with ⟨hkn', _⟩ | ⟨_, hold'⟩
      · exact hkn.trans hkn'.symm
      · exact absurd hid (Option.some.inj heq ▸ hI.apart k' _ hold')
    · rcases update_some.mp hk' with ⟨_, heq⟩ | ⟨_, hold'⟩
      · exact absurd hid (Option.some.inj heq ▸ hI.apart k _ hold)
      · exact hI.retirer k k' id' hold hold'

theorem Invariant.deregister (hI : Invariant b) {id : Id} (hr : b.retiring n = some id)
    (hlate : ∀ k, b.announcing k ≠ some id) :
    Invariant { b with listed := b.listed \ {id},
                       retiring := Function.update b.retiring n none } := by
  have hold {k : ℕ} {id' : Id} (hk : Function.update b.retiring n none k = some id') :
      k ≠ n ∧ b.retiring k = some id' := by simpa [update_some] using hk
  have hpresent (id' : Id) : Board.Present { b with
      listed := b.listed \ {id}, retiring := Function.update b.retiring n none } id' ↔
      id' ≠ id ∧ b.Present id' := by
    constructor
    · rintro (hrun | ⟨k, hk⟩)
      · refine ⟨?_, .inl hrun⟩
        rintro rfl
        exact hI.apart n id' hr hrun
      · refine ⟨?_, .inr ⟨k, (hold hk).2⟩⟩
        rintro rfl
        exact (hold hk).1 (hI.retirer k n id' (hold hk).2 hr)
    · rintro ⟨hne, hrun | ⟨k, hk⟩⟩
      · exact .inl hrun
      · refine .inr ⟨k, update_some.mpr (.inr ⟨?_, hk⟩)⟩
        rintro rfl
        exact hne (Option.some.inj (hk.symm.trans hr))
  refine ⟨fun id' => ?_, fun k id' hk => (hpresent id').mpr ⟨?_, hI.announced k id' hk⟩,
    fun id' h => hI.published id' ((hpresent id').mp h).2, fun k id' hk => hI.apart k id' (hold hk).2,
    hI.announcer, fun k k' id' hk hk' => hI.retirer k k' id' (hold hk).2 (hold hk').2⟩
  · rw [hpresent, and_assoc]
    simp only [Set.mem_sdiff, Set.mem_singleton_iff, hI.agrees id']
    exact and_comm
  · rintro rfl
    exact hlate k hk

/-- Every step keeps the invariant. -/
theorem Invariant.step (hI : Invariant b) (h : Step n b b') : Invariant b' := by
  cases h with
  | silent p hp => exact hI.grow hp
  | publish id p hp hid hnew ha => exact hI.publish hp hid hnew ha
  | register id p hp ha => exact (hI.register ha).grow hp
  | retire id p hp hid hr => exact hI.retire hp hid hr
  | deregister id p hp hr hlate => exact (hI.deregister hr hlate).grow hp

/-- With no report under way the listing is the local set. -/
theorem Invariant.listed_eq (hI : Invariant b) (ha : ∀ k, b.announcing k = none)
    (hr : ∀ k, b.retiring k = none) : b.listed = b.running := by
  ext id
  rw [hI.agrees]
  simp [Board.Present, ha, hr]

end Warlock.ReportProtocol
