import Warlock.EffectPrograms
import Warlock.TransitionSystems

/-!
# Scripts that are started again

A process runs a script when it starts, one operation a step. It may be killed at any time, during
the script or after it, and then the script is started again on what the operations have left of
the world. What a discipline says of one way through the script thus holds in every state that any
number of starts come to.
-/

namespace Warlock.RestartedScripts
open EffectPrograms TransitionSystems

variable {Op : Type} {Reply : Op → Type} {Env S α : Type} {View : Type*}

/-- The world, and what is left of the script. -/
structure Started (Reply : Op → Type) (S α : Type) where
  world : S
  code : Script Reply α

inductive Happening (Env : Type)
  | run (c : Env)
  | restart

def stepStarted (act : (o : Op) → Env → S → Option (S × Reply o)) (boot : Script Reply α)
    (s : Started Reply S α) : Happening Env → Option (Started Reply S α)
  | .run c => match s.code with
    | .done _ => none
    | .run o next => match act o c s.world with
      | some (w, r) => some ⟨w, next r⟩
      | none => none
  | .restart => some ⟨s.world, boot⟩

def starting (act : (o : Op) → Env → S → Option (S × Reply o)) (boot : Script Reply α) (start : S) :
    System (Started Reply S α) (Happening Env) where
  initial := ⟨start, boot⟩
  step := stepStarted act boot

variable {act : (o : Op) → Env → S → Option (S × Reply o)} {boot : Script Reply α} {start : S}
  {D : Discipline Reply Env View} {post : α → View → Prop}
  {ok : Started Reply S α → Happening Env → Prop}

abbrev Past (Reply : Op → Type) (Env S α : Type) := List (Started Reply S α × Happening Env)

/-- The steps since the script was started last. -/
def sinceStart (past : Past Reply Env S α) : Past Reply Env S α :=
  past.takeWhile fun p => match p.2 with
    | .run _ => true
    | .restart => false

@[simp] theorem sinceStart_run {s : Started Reply S α} {c : Env} {past : Past Reply Env S α} :
    sinceStart ((s, .run c) :: past) = (s, .run c) :: sinceStart past := by simp [sinceStart]

@[simp] theorem sinceStart_restart {s : Started Reply S α} {past : Past Reply Env S α} :
    sinceStart ((s, .restart) :: past) = [] := by simp [sinceStart]

inductive Stepped (act : (o : Op) → Env → S → Option (S × Reply o)) (boot : Script Reply α)
    (s : Started Reply S α) : Happening Env → Started Reply S α → Prop
  | run (c : Env) (o : Op) (next : Reply o → Script Reply α) (w : S) (r : Reply o)
      (hcode : s.code = .run o next) (ha : act o c s.world = some (w, r)) :
      Stepped act boot s (.run c) ⟨w, next r⟩
  | restart : Stepped act boot s .restart ⟨s.world, boot⟩

theorem stepped {s s' : Started Reply S α} {e : Happening Env}
    (h : (starting act boot start).step s e = some s') : Stepped act boot s e s' := by
  cases e with
  | run c =>
    simp only [starting, stepStarted] at h
    split at h
    · simp at h
    · rename_i o next hcode
      split at h
      · rename_i w r ha
        obtain rfl := Option.some.inj h
        exact .run c o next w r hcode ha
      · simp at h
  | restart =>
    obtain rfl := Option.some.inj h
    exact .restart

/-- What has to be shown for a condition on the history, the world and the view of the script. -/
structure Tracking (act : (o : Op) → Env → S → Option (S × Reply o)) (boot : Script Reply α)
    (ok : Started Reply S α → Happening Env → Prop) (D : Discipline Reply Env View)
    (post : α → View → Prop) (P : Past Reply Env S α → S → View → Prop) : Prop where
  restart : ∀ past s v, ok s .restart → P past s.world v → s.code.Safe D post v →
    ∃ v', boot.Safe D post v' ∧ P ((s, .restart) :: past) s.world v'
  run : ∀ past s c o next v w r, ok s (.run c) → s.code = .run o next → P past s.world v →
    D.requires o v → act o c s.world = some (w, r) →
      D.allows o c r v ∧ P ((s, .run c) :: past) w (D.note o c r v)

variable {P : Past Reply Env S α → S → View → Prop}

/-- The condition holds, and the rest of the script keeps the discipline. -/
def Kept (D : Discipline Reply Env View) (post : α → View → Prop)
    (P : Past Reply Env S α → S → View → Prop) (past : Past Reply Env S α)
    (s : Started Reply S α) : Prop :=
  ∃ v, s.code.Safe D post v ∧ P past s.world v

theorem Tracking.step (H : Tracking act boot ok D post P) {past : Past Reply Env S α}
    {s s' : Started Reply S α} {e : Happening Env} (h : Kept D post P past s) (hok : ok s e)
    (he : (starting act boot start).step s e = some s') : Kept D post P ((s, e) :: past) s' := by
  obtain ⟨v, hv, hp⟩ := h
  cases stepped he with
  | run c o next w r hcode ha =>
    rw [hcode] at hv
    obtain ⟨hallow, hp'⟩ := H.run past s c o next v w r hok hcode hp hv.1 ha
    exact ⟨_, hv.2 c r hallow, hp'⟩
  | restart => exact H.restart past s v hok hp hv

/-- Along every path that begins where the condition holds it holds on. -/
theorem Tracking.kept (H : Tracking act boot ok D post P) {s s' : Started Reply S α}
    {past : Past Reply Env S α} (h : System.Path (starting act boot start) s past s')
    (hm : System.Meets ok past) (hs : Kept D post P [] s) : Kept D post P past s' := by
  induction h with
  | refl => exact hs
  | step _ he ih =>
    obtain ⟨hok, hm⟩ := System.meets_cons.mp hm
    exact H.step (ih hm) hok he

end Warlock.RestartedScripts
