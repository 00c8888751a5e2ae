import Mathlib.Logic.Basic

/-!
# Programs of tasks that can be dropped

A `Script` is straight-line code: it performs operations and looks at their replies. A
`Program` is the code of one task. Each of its operations says by which exits the task may
leave there instead of going on: the future of an `async` function may be dropped where it
awaits, and what runs then are the destructors of the locals that are alive; code that is
offloaded to a blocking thread may panic, and it runs to its end when the future that
awaits it is dropped.

A `Handler` is code in continuation-passing style that knows the destructors of its
caller's locals, so nested scopes stack their destructors.
-/

namespace Warlock.EffectPrograms

inductive Exit
  | dropped
  | panicked
  deriving DecidableEq

variable {Op : Type} {Reply : Op → Type} {Leaf α β : Type}

/-- What is shown of code that acts on a value if it is there, and goes on in either case. -/
@[elab_as_elim]
theorem optionally {γ : Type*} {motive : Option γ → Prop} (none : motive .none)
    (some : ∀ a, motive .none → motive (.some a)) (o : Option γ) : motive o := by
  cases o with
  | none => exact none
  | some a => exact some a none

inductive Script (Reply : Op → Type) (α : Type)
  | done (a : α)
  | run (o : Op) (next : Reply o → Script Reply α)

inductive Program (Reply : Op → Type) (Leaf : Type)
  | ret (leaf : Leaf)
  | op (o : Op) (may : Exit → Bool) (exit : Exit → Program Reply Leaf)
      (next : Reply o → Program Reply Leaf)

def Handler (Reply : Op → Type) (Leaf α : Type) : Type :=
  Program Reply Leaf → (α → Program Reply Leaf) → Program Reply Leaf

namespace Script

def bind : Script Reply α → (α → Script Reply β) → Script Reply β
  | done a, f => f a
  | run o next, f => run o fun r => (next r).bind f

instance : Monad (Script Reply) where
  pure := done
  bind := bind

def perform (o : Op) : Script Reply (Reply o) := run o done

/-- The script run by a task that cannot leave in between. -/
def inline : Script Reply α → Program Reply Leaf → (α → Program Reply Leaf) → Program Reply Leaf
  | done a, _, k => k a
  | run o next, u, k => .op o (fun _ => false) (fun _ => u) fun r => (next r).inline u k

/-- The script on a blocking thread after the future that awaited it is gone. -/
def detached : Script Reply α → Program Reply Leaf → Program Reply Leaf
  | done _, u => u
  | run o next, u =>
    .op o (fun e => decide (e = .panicked)) (fun _ => u) fun r => (next r).detached u

/-- The script on a blocking thread; a panic there reaches the awaiting task as `none`. -/
def offload : Script Reply α → Program Reply Leaf → (Option α → Program Reply Leaf) →
    Program Reply Leaf
  | done a, _, k => k (some a)
  | run o next, u, k =>
    .op o (fun _ => true)
      (fun
        | .dropped => (run o next).detached u
        | .panicked => k none)
      fun r => (next r).offload u k

end Script

namespace Handler

instance : Monad (Handler Reply Leaf) where
  pure a := fun _ k => k a
  bind x f := fun u k => x u fun a => f a u k

def await (o : Op) : Handler Reply Leaf (Reply o) :=
  fun u k => .op o (fun e => decide (e = .dropped)) (fun _ => u) k

def inline (s : Script Reply α) : Handler Reply Leaf α := fun u k => s.inline u k

def perform (o : Op) : Handler Reply Leaf (Reply o) := inline (Script.perform o)

def offload (s : Script Reply α) : Handler Reply Leaf (Option α) := fun u k => s.offload u k

/-- A local whose destructor runs at the end of its scope, however the scope is left. -/
def owning (drop : Script Reply Unit) (body : Handler Reply Leaf α) : Handler Reply Leaf α :=
  fun u k => body (drop.inline u fun _ => u) fun a => drop.inline u fun _ => k a

/-- A guard that is defused on every regular way out of its scope. -/
def guarded (drop : Script Reply Unit) (body : Handler Reply Leaf α) : Handler Reply Leaf α :=
  fun u k => body (drop.inline u fun _ => u) k

@[simp] theorem pure_apply (a : α) (u : Program Reply Leaf) (k : α → Program Reply Leaf) :
    (pure a : Handler Reply Leaf α) u k = k a := rfl

@[simp] theorem bind_apply (x : Handler Reply Leaf α) (f : α → Handler Reply Leaf β)
    (u : Program Reply Leaf) (k : β → Program Reply Leaf) :
    (x >>= f) u k = x u fun a => f a u k := rfl

end Handler

/-- What operations require of a task's view, what may happen to them and be replied, which
early exits are considered, and how an operation or an exit changes the view. `Env` is what
the environment chose for an operation; the code sees of it only the reply. -/
structure Discipline (Reply : Op → Type) (Env : Type) (View : Type*) where
  requires : Op → View → Prop
  allows : (o : Op) → Env → Reply o → View → Prop
  note : (o : Op) → Env → Reply o → View → View
  considers : Exit → Op → View → Prop
  leave : Exit → View → View

variable {Env : Type} {View : Type*} {D : Discipline Reply Env View} {v : View}

/-- The discipline by which an operation is performed only where no early exit is considered. -/
def Discipline.staying (D : Discipline Reply Env View) : Discipline Reply Env View :=
  { D with requires := fun o v => D.requires o v ∧ ∀ e, ¬ D.considers e o v }

/-- Every operation of the script meets its requirement, and the end the postcondition. -/
def Script.Safe (D : Discipline Reply Env View) (post : α → View → Prop) :
    Script Reply α → View → Prop
  | done a, v => post a v
  | run o next, v =>
    D.requires o v ∧ ∀ c r, D.allows o c r v → (next r).Safe D post (D.note o c r v)

/-- The same for a task's program on every way through it and out of it. -/
def Program.Safe (D : Discipline Reply Env View) (final : Leaf → View → Prop) :
    Program Reply Leaf → View → Prop
  | ret l, v => final l v
  | op o may exit next, v =>
    D.requires o v ∧ (∀ c r, D.allows o c r v → (next r).Safe D final (D.note o c r v)) ∧
      ∀ e, may e = true → D.considers e o v → (exit e).Safe D final (D.leave e v)

/-- A property of views that every operation of the script needs at most and keeps. -/
def Script.Steady (D : Discipline Reply Env View) (P : View → Prop) : Script Reply α → Prop
  | done _ => True
  | run o next =>
    (∀ v, P v → D.requires o v ∧ ∀ c r, D.allows o c r v → P (D.note o c r v)) ∧
      ∀ r, (next r).Steady D P

namespace Script

variable {P Q : View → Prop} {post post' : α → View → Prop} {s : Script Reply α}

@[simp] theorem safe_pure {a : α} : (pure a : Script Reply α).Safe D post v ↔ post a v := Iff.rfl

@[simp] theorem safe_perform {o : Op} {post : Reply o → View → Prop} :
    (perform o).Safe D post v ↔
      D.requires o v ∧ ∀ c r, D.allows o c r v → post r (D.note o c r v) := Iff.rfl

theorem Safe.mono (h : s.Safe D post v) (hp : ∀ a v, post a v → post' a v) :
    s.Safe D post' v := by
  induction s generalizing v with
  | done a => exact hp a v h
  | run o next ih => exact ⟨h.1, fun c r hr => ih r (h.2 c r hr)⟩

@[simp] theorem safe_bind {f : α → Script Reply β} {post : β → View → Prop} :
    (s >>= f).Safe D post v ↔ s.Safe D (fun a v' => (f a).Safe D post v') v := by
  induction s generalizing v with
  | done a => exact Iff.rfl
  | run o next ih =>
    refine and_congr_right fun _ => forall₂_congr fun c r => imp_congr_right fun _ => ?_
    exact ih r

theorem Safe.staying (h : s.Safe D post v) (hl : ∀ e o w, ¬ D.considers e o w) :
    s.Safe D.staying post v := by
  induction s generalizing v with
  | done a => exact h
  | run o next ih => exact ⟨⟨h.1, fun e => hl e o v⟩, fun c r hr => ih r (h.2 c r hr)⟩

theorem Steady.bind {f : α → Script Reply β} (hs : s.Steady D P) (hf : ∀ a, (f a).Steady D P) :
    (s >>= f).Steady D P := by
  induction s with
  | done a => exact hf a
  | run o next ih => exact ⟨hs.1, fun r => ih r (hs.2 r)⟩

theorem Steady.safe (hs : s.Steady D P) (hv : P v) : s.Safe D (fun _ v' => P v') v := by
  induction s generalizing v with
  | done a => exact hv
  | run o next ih =>
    obtain ⟨hr, hn⟩ := hs.1 v hv
    exact ⟨hr, fun c r ha => ih r (hs.2 r) (hn c r ha)⟩

end Script

namespace Program

variable {final : Leaf → View → Prop} {P Q : View → Prop} {s : Script Reply α}
  {u : Program Reply Leaf} {k : α → Program Reply Leaf}

@[simp] theorem safe_ret {l : Leaf} : (ret l : Program Reply Leaf).Safe D final v ↔ final l v :=
  Iff.rfl

theorem Safe.mono {final' : Leaf → View → Prop} {p : Program Reply Leaf} (h : p.Safe D final v)
    (hf : ∀ l v, final l v → final' l v) : p.Safe D final' v := by
  induction p generalizing v with
  | ret l => exact hf l v h
  | op o may exit next hexit hnext =>
    obtain ⟨hr, hn, he⟩ := h
    exact ⟨hr, fun c r hc => hnext r (hn c r hc), fun e hm hc => hexit e (he e hm hc)⟩

theorem safe_inline (h : s.Safe D (fun a v' => (k a).Safe D final v') v) :
    (s.inline u k).Safe D final v := by
  induction s generalizing v with
  | done a => exact h
  | run o next ih => exact ⟨h.1, fun c r hr => ih r (h.2 c r hr), fun e he => by simp at he⟩

@[simp] theorem safe_perform {o : Op} {k : Reply o → Program Reply Leaf} :
    ((Script.perform o).inline u k).Safe D final v ↔
      D.requires o v ∧ ∀ c r, D.allows o c r v → (k r).Safe D final (D.note o c r v) := by
  refine ⟨fun h => ⟨h.1, h.2.1⟩, fun h => ⟨h.1, h.2, fun e he => by simp at he⟩⟩

theorem safe_detached (hs : s.Steady D P) (hv : P v)
    (hu : ∀ v, P v → u.Safe D final v ∧ u.Safe D final (D.leave .panicked v)) :
    (s.detached u).Safe D final v := by
  induction s generalizing v with
  | done a => exact (hu v hv).1
  | run o next ih =>
    obtain ⟨hr, hn⟩ := hs.1 v hv
    refine ⟨hr, fun c r ha => ih r (hs.2 r) (hn c r ha), fun e he _ => ?_⟩
    obtain rfl : e = .panicked := by simpa using he
    exact (hu v hv).2

/-- An offloaded script that keeps `P` while it is awaited and `Q` once it is not. -/
theorem safe_offload {k : Option α → Program Reply Leaf} (hs : s.Steady D P)
    (hs' : s.Steady D Q) (hv : P v) (hk : ∀ a v, P v → (k (some a)).Safe D final v)
    (hn : ∀ v, P v → (k none).Safe D final (D.leave .panicked v))
    (hd : ∀ v, P v → Q (D.leave .dropped v))
    (hu : ∀ v, Q v → u.Safe D final v ∧ u.Safe D final (D.leave .panicked v)) :
    (s.offload u k).Safe D final v := by
  induction s generalizing v with
  | done a => exact hk a v hv
  | run o next ih =>
    obtain ⟨hr, hnote⟩ := hs.1 v hv
    refine ⟨hr, fun c r ha => ih r (hs.2 r) (hs'.2 r) (hnote c r ha), fun e _ _ => ?_⟩
    cases e with
    | dropped => exact safe_detached hs' (hd v hv) hu
    | panicked => exact hn v hv

/-- An offloaded script under a discipline that considers no early exit from it. -/
theorem safe_offload_stay {k : Option α → Program Reply Leaf}
    (h : s.Safe D.staying (fun a v' => (k (some a)).Safe D final v') v) :
    (s.offload u k).Safe D final v := by
  induction s generalizing v with
  | done a => exact h
  | run o next ih =>
    obtain ⟨⟨hr, hl⟩, hn⟩ := h
    exact ⟨hr, fun c r ha => ih r (hn c r ha), fun e _ hx => absurd hx (hl e)⟩

theorem safe_await {o : Op} {k : Reply o → Program Reply Leaf} (hr : D.requires o v)
    (hk : ∀ c r, D.allows o c r v → (k r).Safe D final (D.note o c r v))
    (hu : D.considers .dropped o v → u.Safe D final (D.leave .dropped v)) :
    (Handler.await o u k).Safe D final v := by
  refine ⟨hr, hk, fun e he hl => ?_⟩
  obtain rfl : e = .dropped := by simpa using he
  exact hu hl

end Program

end Warlock.EffectPrograms
