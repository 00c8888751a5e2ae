import Warlock.HandlerTriples
import Warlock.ServerInvariant

/-!
# Views of the tasks of a run

To say what the tasks of a run have done so far, each task is given a view by a discipline
that its code keeps, and a condition relates the views to the history and the state. What
has to be shown is one obligation for each kind of step; `views_of_run` puts them together.
Where the condition speaks of each task on its own, the steps of the others are no concern.
-/

namespace Warlock.TaskViews
open ApplicationState EffectPrograms Ledgers ReservationDiscipline Server ServerInvariant
  ServerOperations SshSession TransitionSystems

abbrev History := List (State × Event)

/-- Task `n` has performed the operation in state `a` of the history. -/
def Performed (past : History) (n : ℕ) (o : Op) (a : State) : Prop :=
  ∃ c t, (a, Event.run n c) ∈ past ∧ a.tasks[n]? = some t ∧ t.nextOp = some o

theorem Performed.tail {past : History} {n : ℕ} {o : Op} {a : State} (h : Performed past n o a)
    (p : State × Event) : Performed (p :: past) n o a := by
  obtain ⟨c, t, hp, ht⟩ := h
  exact ⟨c, t, .tail _ hp, ht⟩

theorem Performed.now {past : History} {n : ℕ} {s : State} {c : Choice} {t : HandlerTask} {o : Op}
    (hn : s.tasks[n]? = some t) (ho : t.nextOp = some o) :
    Performed ((s, .run n c) :: past) n o s := ⟨c, t, .head _, hn, ho⟩

variable {View : Type*} {config : AppConfig} {lib : Libraries} {ok : State → Event → Prop}
  {D : Request → Discipline Reply Choice View} {ends : Request → Outcome → View → Prop}
  {G : History → State → (ℕ → View) → Prop}

theorem safe_answering {D : Discipline Reply Choice View} {ends : Outcome → View → Prop} {v : View}
    {x : Async Answer} (h : x.Ensures D (fun a => ends (.answered a)) (ends .dropped) v) :
    (answering x).Safe D ends v := h _ _ _ (fun _ hw => hw) fun _ _ hw => hw

theorem safe_calledBack {D : Discipline Reply Choice View} {ends : Outcome → View → Prop} {v : View}
    {x : Async Returned} (h : x.Ensures D (fun r => ends (.session r.1 r.2)) (ends .dropped) v) :
    (calledBack x).Safe D ends v := h _ _ _ (fun _ hw => hw) fun _ _ hw => hw

/-- Every task is in the middle of code that keeps its discipline. -/
def Viewed (D : Request → Discipline Reply Choice View) (ends : Request → Outcome → View → Prop)
    (s : State) (f : ℕ → View) : Prop :=
  ∀ (n : ℕ) (t : HandlerTask), s.tasks[n]? = some t →
    t.code.Safe (D t.request) (ends t.request) (f n)

theorem reachable_of_performed {past : History} {s a : State} {n : ℕ} {o : Op}
    (h : (server config lib).Run past s) (hp : Performed past n o a) :
    (server config lib).Reachable a := by
  obtain ⟨c, t, hmem, _⟩ := hp
  obtain ⟨_, _, _, _, hbefore, _⟩ := h.split hmem
  exact System.Run.reachable hbefore

/-- The obligations for views that satisfy `G` along every run whose steps meet `ok`. -/
structure Tracking (config : AppConfig) (lib : Libraries) (ok : State → Event → Prop)
    (D : Request → Discipline Reply Choice View) (ends : Request → Outcome → View → Prop)
    (G : History → State → (ℕ → View) → Prop) : Prop where
  initial : ∃ f, G [] {} f
  request : ∀ past s f r, (server config lib).Run past s → G past s f →
    ∃ v, (handlerOf config r).Safe (D r) (ends r) v ∧
      G ((s, .request r) :: past)
        { s with tasks := s.tasks ++ [{ request := r, code := handlerOf config r }] }
        (Function.update f s.tasks.length v)
  callback : ∀ past s f n cb r self result l, (server config lib).Run past s →
    s.tasks[n]? = some ⟨r, .ret (.session self result), l⟩ → G past s f →
    ends r (.session self result) (f n) →
    ∃ v, (calledBack (callbackCode lib self cb)).Safe (D r) (ends r) v ∧
      G ((s, .callback n cb) :: past)
        { s with tasks := s.tasks.set n ⟨r, calledBack (callbackCode lib self cb), l⟩ }
        (Function.update f n v)
  run : ∀ past s f n c r o may exit next l sh reply, (server config lib).Run past s →
    ok s (.run n c) → s.tasks[n]? = some ⟨r, .op o may exit next, l⟩ →
    exec config n c s.shared o = some (sh, some reply) → G past s f →
    (D r).requires o (f n) → allows config o c reply l.view →
    (D r).allows o c reply (f n) ∧
      G ((s, .run n c) :: past) ⟨sh, s.tasks.set n ⟨r, next reply, l.note c o reply⟩⟩
        (Function.update f n ((D r).note o c reply (f n)))
  leave : ∀ past s f n e r o may exit next l, (server config lib).Run past s →
    ok s (.leave n e) → s.tasks[n]? = some ⟨r, .op o may exit next, l⟩ → may e = true →
    G past s f → (D r).requires o (f n) →
    (D r).considers e o (f n) ∧
      G ((s, .leave n e) :: past) { s with tasks := s.tasks.set n ⟨r, exit e, l.leave e⟩ }
        (Function.update f n ((D r).leave e (f n)))

theorem Viewed.set {s : State} {f : ℕ → View} (h : Viewed D ends s f) {n : ℕ} {t t' : HandlerTask}
    (hn : s.tasks[n]? = some t) (sh : Shared) {v : View}
    (hv : t'.code.Safe (D t'.request) (ends t'.request) v) :
    Viewed D ends ⟨sh, s.tasks.set n t'⟩ (Function.update f n v) := by
  intro k u hk
  rcases (getElem?_set hn).mp hk with ⟨rfl, rfl⟩ | ⟨hkn, hk⟩
  · simpa using hv
  · simpa [hkn] using h k u hk

/-- What holds of each task and its view, after task `n` has moved. -/
theorem forall_set {P P' : ℕ → HandlerTask → View → Prop} {s : State} {f : ℕ → View} {n : ℕ}
    {t t' : HandlerTask} {v : View} {sh : Shared}
    (h : ∀ (k : ℕ) (u : HandlerTask), s.tasks[k]? = some u → P k u (f k))
    (hn : s.tasks[n]? = some t) (hothers : ∀ k u, k ≠ n → P k u (f k) → P' k u (f k))
    (hv : P' n t' v) (k : ℕ) (u : HandlerTask)
    (hk : (⟨sh, s.tasks.set n t'⟩ : State).tasks[k]? = some u) :
    P' k u (Function.update f n v k) := by
  rcases (getElem?_set hn).mp hk with ⟨rfl, rfl⟩ | ⟨hkn, hk⟩
  · rwa [Function.update_self]
  · rw [Function.update_of_ne hkn]
    exact hothers k u hkn (h k u hk)

/-- The same after a request has arrived. -/
theorem forall_request {P P' : ℕ → HandlerTask → View → Prop} {s : State} {f : ℕ → View}
    {t : HandlerTask} {v : View}
    (h : ∀ (k : ℕ) (u : HandlerTask), s.tasks[k]? = some u → P k u (f k))
    (hothers : ∀ k u, k ≠ s.tasks.length → P k u (f k) → P' k u (f k))
    (hv : P' s.tasks.length t v) (k : ℕ) (u : HandlerTask)
    (hk : ({ s with tasks := s.tasks ++ [t] } : State).tasks[k]? = some u) :
    P' k u (Function.update f s.tasks.length v k) := by
  rcases getElem?_request.mp hk with ⟨rfl, rfl⟩ | hk
  · rwa [Function.update_self]
  · have hkn : k ≠ s.tasks.length := (List.getElem?_eq_some_iff.mp hk).1.ne
    rw [Function.update_of_ne hkn]
    exact hothers k u hkn (h k u hk)

section Runs

variable (H : Tracking config lib ok D ends G)
include H

theorem Tracking.step {past : History} {s s' : State} {e : Event} {f : ℕ → View}
    (hr : (server config lib).Run past s) (hf : Viewed D ends s f) (hG : G past s f)
    (hok : ok s e) (he : step config lib s e = some s') :
    ∃ f', Viewed D ends s' f' ∧ G ((s, e) :: past) s' f' := by
  have hs := sound_of_reachable (System.Run.reachable hr)
  cases stepped he with
  | request r =>
    obtain ⟨v, hv, hG'⟩ := H.request past s f r hr hG
    refine ⟨_, fun k u hk => ?_, hG'⟩
    rcases getElem?_request.mp hk with ⟨rfl, rfl⟩ | hk
    · simpa using hv
    · have hlt := (List.getElem?_eq_some_iff.mp hk).1
      simpa [hlt.ne] using hf k u hk
  | callback n cb r self result l hn =>
    obtain ⟨v, hv, hG'⟩ := H.callback past s f n cb r self result l hr hn hG (hf n _ hn)
    exact ⟨_, hf.set hn s.shared hv, hG'⟩
  | run n c r o may exit next l sh reply hn hexec =>
    obtain ⟨hreq, hnext, _⟩ := hf n _ hn
    obtain ⟨_, hreply, hallow, _⟩ := step_operation hs.protocol (siteOf_task hn) (.inl trivial)
      (hs.code n _ hn).1 hexec
    obtain rfl := Option.some.inj hreply
    obtain ⟨ha, hG'⟩ := H.run past s f n c r o may exit next l sh _ hr hok hn hexec hG hreq hallow
    exact ⟨_, hf.set hn sh (hnext c _ ha), hG'⟩
  | panic n c r o may exit next l sh hn hexec =>
    obtain ⟨_, hreply, _⟩ := step_operation hs.protocol (siteOf_task hn) (.inl trivial)
      (hs.code n _ hn).1 hexec
    simp at hreply
  | leave n e r o may exit next l hn hmay =>
    obtain ⟨hreq, _, hexit⟩ := hf n _ hn
    obtain ⟨hc, hG'⟩ := H.leave past s f n e r o may exit next l hr hok hn hmay hG hreq
    exact ⟨_, hf.set hn s.shared (hexit e hmay hc), hG'⟩

/-- Along every run whose steps meet the condition the tasks have such views. -/
theorem Tracking.views_of_run {past : History} {s : State} (h : (server config lib).Run past s)
    (hm : System.Meets ok past) : ∃ f, Viewed D ends s f ∧ G past s f := by
  induction h with
  | refl =>
    obtain ⟨f, hf⟩ := H.initial
    exact ⟨f, fun n t hn => by simp [server] at hn, hf⟩
  | step hp he ih =>
    obtain ⟨hok, hm⟩ := System.meets_cons.mp hm
    obtain ⟨f, hf, hG⟩ := ih hm
    exact H.step hp hf hG hok he

end Runs

section Tasks

variable {P : History → ℕ → HandlerTask → View → Prop}

/-- The obligations for a condition on each task, its view and the history. -/
structure TaskTracking (config : AppConfig) (lib : Libraries) (ok : State → Event → Prop)
    (D : Request → Discipline Reply Choice View) (ends : Request → Outcome → View → Prop)
    (P : History → ℕ → HandlerTask → View → Prop) : Prop where
  others : ∀ past n t v s e, e.subject ≠ some n → P past n t v → P ((s, e) :: past) n t v
  request : ∀ (past : History) (s : State) r, (∀ p ∈ past, p.2.subject ≠ some s.tasks.length) →
    ∃ v, (handlerOf config r).Safe (D r) (ends r) v ∧
      P past s.tasks.length { request := r, code := handlerOf config r } v
  callback : ∀ past s n cb r self result l v, (server config lib).Run past s →
    s.tasks[n]? = some ⟨r, .ret (.session self result), l⟩ →
    P past n ⟨r, .ret (.session self result), l⟩ v → ends r (.session self result) v →
    ∃ v', (calledBack (callbackCode lib self cb)).Safe (D r) (ends r) v' ∧
      P ((s, .callback n cb) :: past) n ⟨r, calledBack (callbackCode lib self cb), l⟩ v'
  run : ∀ past s n c r o may exit next l v sh reply, (server config lib).Run past s →
    ok s (.run n c) → s.tasks[n]? = some ⟨r, .op o may exit next, l⟩ →
    exec config n c s.shared o = some (sh, some reply) →
    P past n ⟨r, .op o may exit next, l⟩ v → (D r).requires o v → allows config o c reply l.view →
    (D r).allows o c reply v ∧
      P ((s, .run n c) :: past) n ⟨r, next reply, l.note c o reply⟩ ((D r).note o c reply v)
  leave : ∀ past s n e r o may exit next l v, ok s (.leave n e) →
    s.tasks[n]? = some ⟨r, .op o may exit next, l⟩ → may e = true →
    P past n ⟨r, .op o may exit next, l⟩ v → (D r).requires o v →
    (D r).considers e o v ∧
      P ((s, .leave n e) :: past) n ⟨r, exit e, l.leave e⟩ ((D r).leave e v)

/-- A task takes steps only once it is there. -/
theorem subject_lt {past : History} {s : State} (h : (server config lib).Run past s)
    {p : State × Event} (hp : p ∈ past) {n : ℕ} (hn : p.2.subject = some n) :
    n < s.tasks.length := by
  have hlt {tasks : List HandlerTask} {k : ℕ} {t : HandlerTask} (h : tasks[k]? = some t) :
      k < tasks.length := (List.getElem?_eq_some_iff.mp h).1
  induction h with
  | refl => simp at hp
  | @step past a b e hrun he ih =>
    have hmono : a.tasks.length ≤ b.tasks.length := by cases stepped he <;> simp
    rcases List.mem_cons.mp hp with rfl | hp
    · refine lt_of_lt_of_le ?_ hmono
      cases stepped he with
      | request => simp [Event.subject] at hn
      | callback k cb r self result l hk => exact Option.some.inj hn ▸ hlt hk
      | run k c r o may exit next l sh reply hk => exact Option.some.inj hn ▸ hlt hk
      | panic k c r o may exit next l sh hk => exact Option.some.inj hn ▸ hlt hk
      | leave k e r o may exit next l hk => exact Option.some.inj hn ▸ hlt hk
    · exact (ih hp).trans_le hmono

variable (H : TaskTracking config lib ok D ends P)
include H

/-- A step of task `n` where the conditions of the others stay. -/
theorem TaskTracking.move {past : History} {s : State} {e : Event} {f : ℕ → View} {n : ℕ}
    {t t' : HandlerTask} (hn : s.tasks[n]? = some t) (he : e.subject = some n)
    (hf : ∀ (k : ℕ) (u : HandlerTask), s.tasks[k]? = some u → P past k u (f k)) (sh : Shared)
    {v : View} (hv : P ((s, e) :: past) n t' v) (k : ℕ) (u : HandlerTask)
    (hk : (⟨sh, s.tasks.set n t'⟩ : State).tasks[k]? = some u) :
    P ((s, e) :: past) k u (Function.update f n v k) := by
  rcases (getElem?_set hn).mp hk with ⟨rfl, rfl⟩ | ⟨hkn, hk⟩
  · simpa using hv
  · rw [Function.update_of_ne hkn]
    exact H.others _ _ _ _ _ _ (by simpa [he] using Ne.symm hkn) (hf k u hk)

theorem TaskTracking.tracking : Tracking config lib ok D ends fun past s f =>
    ∀ (n : ℕ) (t : HandlerTask), s.tasks[n]? = some t → P past n t (f n) where
  initial := by
    obtain ⟨v, _⟩ := H.request [] {} .list (by simp)
    exact ⟨fun _ => v, fun n t hn => by simp at hn⟩
  request past s f r hr hG := by
    have hnew (p : State × Event) (hp : p ∈ past) : p.2.subject ≠ some s.tasks.length :=
      fun h => lt_irrefl _ (subject_lt hr hp h)
    obtain ⟨v, hv, hP⟩ := H.request past s r hnew
    refine ⟨v, hv, fun k u hk => ?_⟩
    rcases getElem?_request.mp hk with ⟨rfl, rfl⟩ | hk
    · simpa using H.others _ _ _ _ s (.request r) (by simp [Event.subject]) hP
    · have hlt := (List.getElem?_eq_some_iff.mp hk).1
      simpa [hlt.ne] using H.others _ _ _ _ s (.request r) (by simp [Event.subject]) (hG k u hk)
  callback past s f n cb r self result l hr hn hG hends := by
    obtain ⟨v, hv, hP⟩ := H.callback past s n cb r self result l (f n) hr hn (hG n _ hn) hends
    exact ⟨v, hv, H.move hn rfl hG s.shared hP⟩
  run past s f n c r o may exit next l sh reply hr hok hn hexec hG hreq hallow := by
    obtain ⟨ha, hP⟩ :=
      H.run past s n c r o may exit next l (f n) sh reply hr hok hn hexec (hG n _ hn) hreq hallow
    exact ⟨ha, H.move hn rfl hG sh hP⟩
  leave past s f n e r o may exit next l _ hok hn hmay hG hreq := by
    obtain ⟨hc, hP⟩ := H.leave past s n e r o may exit next l (f n) hok hn hmay (hG n _ hn) hreq
    exact ⟨hc, H.move hn rfl hG s.shared hP⟩

/-- Along every run whose steps meet the condition each task has such a view. -/
theorem TaskTracking.view_of_run {past : History} {s : State}
    (h : (server config lib).Run past s) (hm : System.Meets ok past) {n : ℕ} {t : HandlerTask}
    (hn : s.tasks[n]? = some t) :
    ∃ v, t.code.Safe (D t.request) (ends t.request) v ∧ P past n t v := by
  obtain ⟨f, hf, hG⟩ := H.tracking.views_of_run h hm
  exact ⟨f n, hf n t hn, hG n t hn⟩

end Tasks

/-- Nothing is required, and nothing is seen. -/
def unobserved (_ : Request) : Discipline Reply Choice Unit where
  requires _ _ := True
  allows _ _ _ _ := True
  note _ _ _ v := v
  considers _ _ _ := True
  leave _ v := v

theorem safe_unobserved {request : Request} (p : Program Reply Outcome) :
    p.Safe (unobserved request) (fun _ _ => True) () :=
  Program.safe_of_free (fun _ _ => trivial) (fun _ _ => trivial) p ()

end Warlock.TaskViews
