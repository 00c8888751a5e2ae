import Warlock.ResourceCustody
import Mathlib.Data.Set.Basic

/-!
# A reservation protocol with a registry, a slot pool and two mutexes

Tasks take slots from a pool, draw fresh identifiers, and enter what they made under
their identifier in a registry: first as a placeholder, later as a running entry. The
registry and the pool are each guarded by a mutex. A task may be abandoned at any moment
while it holds a slot; the slot then stays in use for ever. `Step` lists everything one
step of one task may do to the shared world; `Invariant` is what every run keeps.

The protocol is stated over arbitrary identifiers, slots and resource records.
-/

namespace Warlock.ReservationProtocol
open ResourceCustody

inductive Entry (Res : Type*)
  | creating (r : Res)
  | running (r : Res)

@[simp] def Entry.res {Res : Type*} : Entry Res → Res
  | .creating r | .running r => r

/-- What a task has made of the identifier it drew. -/
inductive Standing (Res : Type*)
  | fresh
  | creating (r : Res)
  | released (r : Res)
  | upgraded (r : Res)
  | gone

/-- What the registry may hold under the identifier of a task of the given standing. -/
@[simp] def Standing.Allows {Res : Type*} : Standing Res → Option (Entry Res) → Prop
  | .fresh, e | .gone, e => e = none
  | .creating r, e | .released r, e => e = some (.creating r)
  | .upgraded r, e => e = none ∨ e = some (.running r)

inductive Mutex
  | registry
  | pool
  deriving DecidableEq

/-- What a task holds at its current program point. -/
structure View (Id Slot Res : Type*) where
  registry : Bool := false
  pool : Bool := false
  id : Option Id := none
  standing : Standing Res := .fresh
  slot : Option Slot := none
  /-- A slot that an abandoned task left behind. -/
  lost : Option Slot := none
  /-- The process the task may have started and must end. -/
  agent : Option Id := none
  /-- An attempt to take the registry's mutex without waiting has failed. -/
  refused : Bool := false

structure World (Id Slot Res : Type*) where
  entry : Id → Option (Entry Res)
  used : Set Slot
  holder : Mutex → Option ℕ
  live : Set Id
  issued : Set Id

/-- The shared world and the tasks in it. -/
structure Site (Id Slot Res : Type*) where
  world : World Id Slot Res
  task : ℕ → Option (View Id Slot Res)

inductive Owner (Id : Type*)
  | entry (id : Id)
  | task (n : ℕ)

variable {Id Slot Res : Type*}

namespace View

def holds (v : View Id Slot Res) : Mutex → Bool
  | .registry => v.registry
  | .pool => v.pool

def set (v : View Id Slot Res) : Mutex → Bool → View Id Slot Res
  | .registry, b => { v with registry := b }
  | .pool, b => { v with pool := b }

@[simp] theorem holds_set (v : View Id Slot Res) (m : Mutex) (b : Bool) :
    (v.set m b).holds m = b := by cases m <;> rfl

theorem holds_set_ne (v : View Id Slot Res) {m k : Mutex} (b : Bool) (h : k ≠ m) :
    (v.set m b).holds k = v.holds k := by cases m <;> cases k <;> first | rfl | exact absurd rfl h

@[simp] theorem id_set (v : View Id Slot Res) (m : Mutex) (b : Bool) :
    (v.set m b).id = v.id := by cases m <;> rfl

@[simp] theorem standing_set (v : View Id Slot Res) (m : Mutex) (b : Bool) :
    (v.set m b).standing = v.standing := by cases m <;> rfl

@[simp] theorem slot_set (v : View Id Slot Res) (m : Mutex) (b : Bool) :
    (v.set m b).slot = v.slot := by cases m <;> rfl

@[simp] theorem lost_set (v : View Id Slot Res) (m : Mutex) (b : Bool) :
    (v.set m b).lost = v.lost := by cases m <;> rfl

@[simp] theorem agent_set (v : View Id Slot Res) (m : Mutex) (b : Bool) :
    (v.set m b).agent = v.agent := by cases m <;> rfl

@[simp] theorem refused_set (v : View Id Slot Res) (m : Mutex) (b : Bool) :
    (v.set m b).refused = v.refused := by cases m <;> rfl

/-- The process belongs to the task's own placeholder. -/
def AgentPlaced (v : View Id Slot Res) : Prop :=
  ∀ id, v.agent = some id → v.id = some id ∧ ∃ r, v.standing = .creating r

end View

section Steps

variable [DecidableEq Id] (slotOf : Res → Option Slot) (Fits : Id → Res → Prop) (lossy : Prop)

/-- One step of task `n`. Only in a `lossy` protocol may a slot be left behind. -/
inductive Step (n : ℕ) : View Id Slot Res → World Id Slot Res →
    View Id Slot Res → World Id Slot Res → Prop
  | silent (v w) : Step n v w v w
  | refuse (v w) (hw : (w.holder .registry).isSome) : Step n v w { v with refused := true } w
  | lock (v w) (m : Mutex) (hv : v.holds m = false) (hw : w.holder m = none) :
      Step n v w (v.set m true) { w with holder := Function.update w.holder m (some n) }
  | unlock (v w) (m : Mutex) (hv : v.holds m = true)
      (ha : m = .registry → v.AgentPlaced ∧ ∀ r, v.standing ≠ .released r) :
      Step n v w (v.set m false) { w with holder := Function.update w.holder m none }
  | allocate (v w) (i : Slot) (hp : v.pool = true) (hs : v.slot = none) (hi : i ∉ w.used) :
      Step n v w { v with slot := some i } { w with used := insert i w.used }
  | release (v w) (i : Slot) (hp : v.pool = true) (hs : v.slot = some i) (ha : v.agent = none) :
      Step n v w { v with slot := none } { w with used := w.used \ {i} }
  | releaseEntry (v w) (r : Res) (i : Slot) (hr : v.registry = true) (hp : v.pool = true)
      (hi : v.id.isSome) (hs : v.standing = .creating r) (hslot : slotOf r = some i)
      (ha : v.agent = none) :
      Step n v w { v with standing := .released r } { w with used := w.used \ {i} }
  | draw (v w) (id : Id) (hv : v.id = none) (hs : v.standing = .fresh) (ha : v.agent = none)
      (hi : id ∉ w.issued) :
      Step n v w { v with id := some id } { w with issued := insert id w.issued }
  | place (v w) (id : Id) (r : Res) (hr : v.registry = true) (hi : v.id = some id)
      (hs : v.standing = .fresh) (hslot : v.slot = slotOf r) (hf : Fits id r)
      (ha : v.agent = none) :
      Step n v w { v with standing := .creating r, slot := none }
        { w with entry := Function.update w.entry id (some (.creating r)) }
  | adopt (v w) (id : Id) (r : Res) (hi : v.id = some id) (hs : v.standing = .creating r)
      (ha : v.agent = none) :
      Step n v w { v with agent := some id } w
  | upgrade (v w) (id : Id) (r : Res) (hr : v.registry = true) (hi : v.id = some id)
      (hs : v.standing = .creating r) (ha : v.agent = some id) :
      Step n v w { v with standing := .upgraded r, agent := none }
        { w with entry := Function.update w.entry id (some (.running r)) }
  | remove (v w) (id : Id) (r : Res) (hr : v.registry = true) (hi : v.id = some id)
      (hs : v.standing = .creating r) (hslot : v.slot = none) (ha : v.agent = none) :
      Step n v w { v with standing := .gone, slot := slotOf r }
        { w with entry := Function.update w.entry id none }
  | discard (v w) (id : Id) (r : Res) (hr : v.registry = true) (hi : v.id = some id)
      (hs : lossy ∧ v.standing = .creating r ∨ v.standing = .released r) (hslot : v.slot = none)
      (ha : v.agent = none) :
      Step n v w { v with standing := .gone }
        { w with entry := Function.update w.entry id none }
  | take (v w) (id : Id) (r : Res) (hr : v.registry = true) (hi : v.id = none)
      (he : w.entry id = some (.running r)) (hslot : v.slot = none) (ha : v.agent = none) :
      Step n v w { v with slot := slotOf r, agent := some id }
        { w with entry := Function.update w.entry id none }
  | start (v w) (id : Id) (ha : v.agent = some id) :
      Step n v w v { w with live := insert id w.live }
  | stop (v w) (id : Id) (ha : v.agent = some id) :
      Step n v w { v with agent := none } { w with live := w.live \ {id} }
  | abandon (v w) (hl : lossy ∨ v.slot = none) :
      Step n v w { v with slot := none, lost := v.slot.or v.lost } w

/-- A new task arrives, or a task takes a step. -/
inductive Move : Site Id Slot Res → Site Id Slot Res → Prop
  | spawn (s : Site Id Slot Res) (n : ℕ) (hn : s.task n = none) :
      Move s { s with task := Function.update s.task n (some {}) }
  | act (s : Site Id Slot Res) (n : ℕ) (v v' : View Id Slot Res) (w' : World Id Slot Res)
      (hn : s.task n = some v) (h : Step slotOf Fits lossy n v s.world v' w') :
      Move s ⟨w', Function.update s.task n (some v')⟩

end Steps

def Released (s : Site Id Slot Res) (id : Id) : Prop :=
  ∃ n v r, s.task n = some v ∧ v.id = some id ∧ v.standing = .released r

/-- An entry owns the slot of its record until that slot is released on its behalf; a task
owns the slot it holds. -/
def Owns (slotOf : Res → Option Slot) (s : Site Id Slot Res) : Owner Id → Slot → Prop
  | .entry id, i => ∃ e, s.world.entry id = some e ∧ slotOf e.res = some i ∧ ¬ Released s id
  | .task n, i => ∃ v, s.task n = some v ∧ v.slot = some i

structure Invariant (slotOf : Res → Option Slot) (Fits : Id → Res → Prop)
    (s : Site Id Slot Res) : Prop where
  holder : ∀ m n, s.world.holder m = some n ↔ ∃ v, s.task n = some v ∧ v.holds m = true
  issued : ∀ n v id, s.task n = some v → v.id = some id → id ∈ s.world.issued
  unique : ∀ n n' v v' id, s.task n = some v → s.task n' = some v' → v.id = some id →
    v'.id = some id → n = n'
  anonymous : ∀ n v, s.task n = some v → v.id = none → v.standing = .fresh
  placed : ∀ n v id, s.task n = some v → v.id = some id → v.standing.Allows (s.world.entry id)
  covered : ∀ id e, s.world.entry id = some e → ∃ n v, s.task n = some v ∧ v.id = some id
  fits : ∀ id e, s.world.entry id = some e → Fits id e.res
  locked : ∀ n v r, s.task n = some v → v.standing = .released r → v.registry = true
  exclusive : Exclusive (Owns slotOf s)
  used : ∀ o i, Owns slotOf s o i → i ∈ s.world.used
  distinct : ∀ id id' e e' i, s.world.entry id = some e → s.world.entry id' = some e' →
    slotOf e.res = some i → slotOf e'.res = some i → id = id'
  agent : ∀ n v, s.task n = some v → v.AgentPlaced ∨ v.registry = true
  live : ∀ id ∈ s.world.live, (∃ r, s.world.entry id = some (.running r)) ∨
    ∃ n v, s.task n = some v ∧ v.agent = some id
  lost : ∀ n v i, s.task n = some v → v.lost = some i →
    i ∈ s.world.used ∧ ∀ o, ¬ Owns slotOf s o i

end Warlock.ReservationProtocol
