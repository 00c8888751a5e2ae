import Warlock.EffectPrograms

/-!
# Triples for handlers

`x.Ensures D post exit v` says that under discipline `D` the handler `x`, started in view
`v`, meets its requirements on every way, goes on only in views of `post` and is left only
in views of `exit`. The rules follow the combinators a handler is built with; a handler
that `Keeps` a view has no effect on it at all.
-/

namespace Warlock.EffectPrograms

variable {Op : Type} {Reply : Op → Type} {Leaf α β Env : Type} {View : Type*}
  {D : Discipline Reply Env View} {v : View}

def Handler.Ensures (D : Discipline Reply Env View) (post : α → View → Prop) (exit : View → Prop)
    (x : Handler Reply Leaf α) (v : View) : Prop :=
  ∀ (final : Leaf → View → Prop) (u : Program Reply Leaf) (k : α → Program Reply Leaf),
    (∀ w, exit w → u.Safe D final w) → (∀ a w, post a w → (k a).Safe D final w) →
      (x u k).Safe D final v

/-- Being dropped is considered somewhere while the view is `v`. -/
def Discipline.Considered (D : Discipline Reply Env View) (v : View) : Prop :=
  ∃ o, D.considers .dropped o v

abbrev Handler.Keeps (D : Discipline Reply Env View) (x : Handler Reply Leaf α) (v : View) : Prop :=
  x.Ensures D (fun _ w => w = v) (fun w => w = v ∧ D.Considered v) v

/-- An operation whose requirement is met and that leaves the view as it is. -/
structure Inert (D : Discipline Reply Env View) (v : View) (o : Op) : Prop where
  requires : D.requires o v
  note : ∀ c r, D.allows o c r v → D.note o c r v = v

/-- An operation whose requirement follows from a property of the view that it keeps. -/
def Upholds (D : Discipline Reply Env View) (P : View → Prop) (o : Op) : Prop :=
  ∀ v, P v → D.requires o v ∧ ∀ c r, D.allows o c r v → P (D.note o c r v)

theorem Upholds.steady {P : View → Prop} {o : Op} (h : Upholds D P o) :
    (Script.perform o).Steady D P := ⟨h, fun _ => trivial⟩

/-- No considered exit changes the view. -/
def Discipline.Stays (D : Discipline Reply Env View) (v : View) : Prop :=
  ∀ e o, D.considers e o v → D.leave e v = v

theorem Inert.upholds {o : Op} (h : Inert D v o) : Upholds D (· = v) o := by
  intro w hw
  subst hw
  exact ⟨h.requires, h.note⟩

theorem Inert.steady {o : Op} (h : Inert D v o) : (Script.perform o).Steady D (· = v) :=
  h.upholds.steady

/-- Where nothing is required and every end is allowed, every program is safe. -/
theorem Program.safe_of_free {final : Leaf → View → Prop} (hr : ∀ o v, D.requires o v)
    (hf : ∀ l v, final l v) (p : Program Reply Leaf) (v : View) : p.Safe D final v := by
  induction p generalizing v with
  | ret l => exact hf l v
  | op o may exit next hexit hnext =>
    exact ⟨hr o v, fun c r _ => hnext r _, fun e _ _ => hexit e _⟩

namespace Handler

variable {post post' : α → View → Prop} {exit exit' : View → Prop} {x : Handler Reply Leaf α}

theorem Ensures.mono (h : x.Ensures D post exit v) (hp : ∀ a w, post a w → post' a w)
    (he : ∀ w, exit w → exit' w) : x.Ensures D post' exit' v :=
  fun final u k hu hk => h final u k (fun w hw => hu w (he w hw)) fun a w hw => hk a w (hp a w hw)

theorem ensures_pure {a : α} (h : post a v) :
    (pure a : Handler Reply Leaf α).Ensures D post exit v := fun _ _ _ _ hk => hk a v h

theorem Ensures.bind {f : α → Handler Reply Leaf β} {post : β → View → Prop}
    (h : x.Ensures D (fun a w => (f a).Ensures D post exit w) exit v) :
    (x >>= f).Ensures D post exit v :=
  fun final u k hu hk => h final u _ hu fun _ _ hf => hf final u k hu hk

theorem ensures_inline {s : Script Reply α} (h : s.Safe D post v) :
    (inline s : Handler Reply Leaf α).Ensures D post exit v :=
  fun _ _ _ _ hk => Program.safe_inline (h.mono fun a w hw => hk a w hw)

theorem ensures_perform {o : Op} {post : Reply o → View → Prop} (hr : D.requires o v)
    (hp : ∀ c r, D.allows o c r v → post r (D.note o c r v)) :
    (perform o : Handler Reply Leaf (Reply o)).Ensures D post exit v :=
  ensures_inline ⟨hr, hp⟩

theorem ensures_await {o : Op} {post : Reply o → View → Prop} (hr : D.requires o v)
    (hp : ∀ c r, D.allows o c r v → post r (D.note o c r v))
    (he : D.considers .dropped o v → exit (D.leave .dropped v)) :
    (await o : Handler Reply Leaf (Reply o)).Ensures D post exit v :=
  fun _ _ _ hu hk => Program.safe_await hr (fun c r hc => hk r _ (hp c r hc)) fun hc => hu _ (he hc)

theorem ensures_offload_staying {s : Script Reply α} {post : Option α → View → Prop}
    (h : s.Safe D.staying (fun a => post (some a)) v) :
    (offload s : Handler Reply Leaf (Option α)).Ensures D post exit v :=
  fun _ _ _ _ hk => Program.safe_offload_stay (h.mono fun _ w hw => hk _ w hw)

theorem ensures_offload {s : Script Reply α} {post : Option α → View → Prop}
    (h : s.Safe D (fun a => post (some a)) v) (hl : ∀ e o w, ¬ D.considers e o w) :
    (offload s : Handler Reply Leaf (Option α)).Ensures D post exit v :=
  ensures_offload_staying (h.staying hl)

theorem Ensures.owning {drop : Script Reply Unit}
    (h : x.Ensures D (fun a w => drop.Safe D (fun _ => post a) w)
      (fun w => drop.Safe D (fun _ => exit) w) v) :
    (owning drop x).Ensures D post exit v :=
  fun final _ _ hu hk => h final _ _
    (fun _ hw => Program.safe_inline (hw.mono fun _ w' hw' => hu w' hw'))
    fun a _ hw => Program.safe_inline (hw.mono fun _ w' hw' => hk a w' hw')

theorem Ensures.guarded {drop : Script Reply Unit}
    (h : x.Ensures D post (fun w => drop.Safe D (fun _ => exit) w) v) :
    (guarded drop x).Ensures D post exit v :=
  fun final _ _ hu hk => h final _ _
    (fun _ hw => Program.safe_inline (hw.mono fun _ w' hw' => hu w' hw')) hk

theorem keeps_pure {a : α} : (pure a : Handler Reply Leaf α).Keeps D v := ensures_pure rfl

theorem Keeps.bind {f : α → Handler Reply Leaf β} (hx : x.Keeps D v)
    (hf : ∀ a, (f a).Keeps D v) : (x >>= f).Keeps D v :=
  Ensures.bind (hx.mono (fun a _ hw => hw ▸ hf a) fun _ hw => hw)

theorem keeps_inline {s : Script Reply α} (h : s.Steady D (· = v)) :
    (inline s : Handler Reply Leaf α).Keeps D v := ensures_inline (h.safe rfl)

theorem keeps_perform {o : Op} (h : Inert D v o) :
    (perform o : Handler Reply Leaf (Reply o)).Keeps D v := keeps_inline h.steady

theorem keeps_await {o : Op} (h : Inert D v o) (hs : D.Stays v) :
    (await o : Handler Reply Leaf (Reply o)).Keeps D v :=
  ensures_await h.requires h.note fun hc => ⟨hs .dropped o hc, o, hc⟩

/-- A blocking script keeps the view also once nobody awaits it any more. -/
theorem keeps_offload {s : Script Reply α} (h : s.Steady D (· = v)) (hs : D.Stays v) :
    (offload s : Handler Reply Leaf (Option α)).Keeps D v := by
  intro final u k hu hk
  have hdetached {t : Script Reply α} (ht : t.Steady D (· = v)) (hc : D.Considered v) :
      (t.detached u).Safe D final v := by
    induction t with
    | done a => exact hu v ⟨rfl, hc⟩
    | run o next ih =>
      obtain ⟨hr, hn⟩ := ht.1 v rfl
      refine ⟨hr, fun c r ha => ?_, fun e _ he => ?_⟩
      · rw [hn c r ha]
        exact ih r (ht.2 r)
      · rw [hs e o he]
        exact hu v ⟨rfl, hc⟩
  induction s with
  | done a => exact hk (some a) v rfl
  | run o next ih =>
    obtain ⟨hr, hn⟩ := h.1 v rfl
    refine ⟨hr, fun c r ha => ?_, fun e _ he => ?_⟩
    · rw [hn c r ha]
      exact ih r (h.2 r)
    · rw [hs e o he]
      cases e with
      | dropped => exact hdetached h ⟨o, he⟩
      | panicked => exact hk none v rfl

/-- A blocking script that stays within `I`, also once nobody awaits it any more. -/
theorem ensures_offload_within {s : Script Reply α} {post : Option α → View → Prop}
    {I : View → Prop} (h : s.Safe D (fun a => post (some a)) v) (hI : s.Steady D I) (hv : I v)
    (hleave : ∀ e w, I w → I (D.leave e w)) (hnone : ∀ w, I w → post none w)
    (hexit : ∀ u w, I u → D.Considered u → I w → exit w) :
    (offload s : Handler Reply Leaf (Option α)).Ensures D post exit v := by
  intro final u k hu hk
  induction s generalizing v with
  | done a => exact hk (some a) v h
  | run o next ih =>
    obtain ⟨hr, hn⟩ := hI.1 v hv
    refine ⟨hr, fun c r ha => ih r (h.2 c r ha) (hI.2 r) (hn c r ha), fun e _ he => ?_⟩
    cases e with
    | dropped =>
      have hend (w : View) (hw : I w) : exit w := hexit v w hv ⟨o, he⟩ hw
      exact Program.safe_detached hI (hleave .dropped v hv) fun w hw =>
        ⟨hu w (hend w hw), hu _ (hend _ (hleave .panicked w hw))⟩
    | panicked => exact hk none _ (hnone _ (hleave .panicked v hv))

/-- A blocking script that may be left anywhere, where being dropped changes no view. -/
theorem ensures_offload_anywhere {s : Script Reply α} {post : Option α → View → Prop}
    (h : s.Safe D (fun a => post (some a)) v) (hl : ∀ w, D.leave .dropped w = w)
    (hnone : ∀ w, post none (D.leave .panicked w)) (hexit : ∀ w, exit w) :
    (offload s : Handler Reply Leaf (Option α)).Ensures D post exit v := by
  intro final u k hu hk
  have hdetached {t : Script Reply α} {w : View} (ht : t.Safe D (fun a => post (some a)) w) :
      (t.detached u).Safe D final w := by
    induction t generalizing w with
    | done a => exact hu w (hexit w)
    | run o next ih => exact ⟨ht.1, fun c r ha => ih r (ht.2 c r ha), fun e _ _ => hu _ (hexit _)⟩
  induction s generalizing v with
  | done a => exact hk (some a) v h
  | run o next ih =>
    refine ⟨h.1, fun c r ha => ih r (h.2 c r ha), fun e _ _ => ?_⟩
    cases e with
    | dropped =>
      rw [hl]
      exact hdetached h
    | panicked => exact hk none _ (hnone v)

theorem Keeps.owning {drop : Script Reply Unit} (hx : x.Keeps D v)
    (hd : drop.Steady D (· = v)) : (owning drop x).Keeps D v := by
  refine Ensures.owning (hx.mono (fun _ _ hw => hw ▸ hd.safe rfl) ?_)
  rintro _ ⟨rfl, hc⟩
  exact (hd.safe rfl).mono fun _ _ hw => ⟨hw, hc⟩

theorem Keeps.guarded {drop : Script Reply Unit} (hx : x.Keeps D v)
    (hd : drop.Steady D (· = v)) : (guarded drop x).Keeps D v := by
  refine Ensures.guarded (hx.mono (fun _ _ hw => hw) ?_)
  rintro _ ⟨rfl, hc⟩
  exact (hd.safe rfl).mono fun _ _ hw => ⟨hw, hc⟩

end Handler

end Warlock.EffectPrograms
