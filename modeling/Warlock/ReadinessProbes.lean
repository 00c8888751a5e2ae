import Warlock.TaskViews

/-!
# The readiness probe does not wait

The probe only tries to lock the map, so none of its steps can be held up by another task, it takes
at most three of them, and it cannot be dropped in between.
-/

namespace Warlock.ReadinessProbes
open ApplicationState EffectPrograms ReservationProtocol Server ServerOperations SshSession
  TaskViews TransitionSystems VmHandlers

/-- The operations that take effect in every state. -/
def Instant : Op → Prop
  | .tryLock _ | .unlock _ | .vms _ => True
  | _ => False

/-- The program comes to its answer within `k` operations that take effect in every state. -/
def Prompt : ℕ → Program Reply Outcome → Prop
  | _, .ret outcome => ∃ answer, outcome = .answered answer
  | 0, .op _ _ _ _ => False
  | k + 1, .op o may _ next => Instant o ∧ (∀ e, may e = false) ∧ ∀ r, Prompt k (next r)

/-- The number of steps that task `n` has taken. -/
def stepsOf (n : ℕ) (past : History) : ℕ := past.countP fun p => p.2.subject == some n

variable {config : AppConfig} {lib : Libraries} {past : History} {s : State} {n k : ℕ}
  {t : HandlerTask} {e : Event}

theorem exec_instant {o : Op} (h : Instant o) (config : AppConfig) (n : ℕ) (c : Choice)
    (sh : Shared) :
    ∃ sh' reply, exec config n c sh o = some (sh', some reply) := by
  cases o with
  | tryLock m =>
    by_cases hm : sh.locks m = none
    · exact ⟨_, true, if_pos hm⟩
    · exact ⟨_, false, if_neg hm⟩
  | unlock | vms => exact ⟨_, _, rfl⟩
  | _ => exact h.elim

theorem prompt_ready : Prompt 3 (handlerOf config .ready) := by
  refine ⟨trivial, fun _ => rfl, fun acquired => ?_⟩
  cases acquired with
  | false => exact ⟨_, rfl⟩
  | true => exact ⟨trivial, fun _ => rfl, fun info => ⟨trivial, fun _ => rfl, fun _ => ⟨_, rfl⟩⟩⟩

theorem stepsOf_others (h : e.subject ≠ some n) : stepsOf n ((s, e) :: past) = stepsOf n past := by
  simp [stepsOf, h]

theorem stepsOf_self (h : e.subject = some n) :
    stepsOf n ((s, e) :: past) = stepsOf n past + 1 := by simp [stepsOf, h]

theorem tracking_prompt : TaskTracking config lib (fun _ _ => True) unobserved (fun _ _ _ => True)
    fun past n t _ => t.request = .ready → ∃ k, k + stepsOf n past = 3 ∧ Prompt k t.code where
  others past n t v s e he h hr := by
    obtain ⟨k, hk, hp⟩ := h hr
    exact ⟨k, by rwa [stepsOf_others he], hp⟩
  request past s r hnew := by
    refine ⟨(), safe_unobserved _, fun hr => ?_⟩
    obtain rfl : r = .ready := hr
    have hnone : stepsOf s.tasks.length past = 0 := by
      apply List.countP_eq_zero.mpr
      intro p hp
      simpa using hnew p hp
    exact ⟨3, by rw [hnone], prompt_ready⟩
  callback past s n cb r self result l v _ hn h _ := by
    refine ⟨(), safe_unobserved _, fun hr => ?_⟩
    obtain ⟨k, _, hp⟩ := h hr
    unfold Prompt at hp
    simp at hp
  run past s n c r o may exit next l v sh reply _ _ hn _ h _ _ := by
    refine ⟨trivial, fun hr => ?_⟩
    obtain ⟨k, hk, hp⟩ := h hr
    cases k with
    | zero => exact hp.elim
    | succ k =>
      refine ⟨k, ?_, hp.2.2 reply⟩
      rw [stepsOf_self rfl]
      omega
  leave past s n e r o may exit next l v _ hn hmay h _ := by
    refine ⟨trivial, fun hr => ?_⟩
    obtain ⟨k, _, hp⟩ := h hr
    cases k with
    | zero => exact hp.elim
    | succ k => simp [hp.2.1 e] at hmay

/-- Whatever locks are held, the probe has answered, or it has taken less than three steps, can
take its next one, and cannot be dropped. -/
structure Unhindered (config : AppConfig) (lib : Libraries) (past : History) (s : State) (n : ℕ) :
    Prop where
  few : stepsOf n past < 3
  next : ∀ c, ∃ s', (server config lib).step s (.run n c) = some s'
  stays : ∀ e, (server config lib).step s (.leave n e) = none

theorem ready_does_not_wait (h : (server config lib).Run past s) (hn : s.tasks[n]? = some t)
    (hr : t.request = .ready) :
    (∃ answer, t.code = .ret (.answered answer)) ∨ Unhindered config lib past s n := by
  obtain ⟨_, _, hp⟩ := tracking_prompt.view_of_run h (fun _ _ => trivial) hn
  obtain ⟨k, hk, hp⟩ := hp hr
  obtain ⟨request, code, l⟩ := t
  cases code with
  | ret outcome =>
    unfold Prompt at hp
    obtain ⟨answer, rfl⟩ := hp
    exact .inl ⟨answer, rfl⟩
  | op o may exit next =>
    cases k with
    | zero => exact hp.elim
    | succ k =>
      obtain ⟨hinstant, hmay, _⟩ := hp
      refine .inr ⟨by omega, fun c => ?_, fun e => ?_⟩
      · obtain ⟨sh, reply, hexec⟩ := exec_instant hinstant config n c s.shared
        have hstep : step config lib s (.run n c) =
            some ⟨sh, s.tasks.set n ⟨request, next reply, l.note c o reply⟩⟩ := by
          simp [step, hn, hexec]
        exact ⟨_, hstep⟩
      · simp [server, step, hn, hmay]

/-- The probe arrives while a `list` holds the map. -/
def asksWhileListing : List Event := [.request .list, .run 0 {}, .request .ready]

theorem ready_does_not_wait_whileListing : Unhindered sampleConfig sampleLibraries
    (sampleServer.historyOf asksWhileListing) (sampleServer.endOf asksWhileListing) 1 := by
  have hrun : sampleServer.Run (sampleServer.historyOf asksWhileListing)
      (sampleServer.endOf asksWhileListing) := System.run_follow asksWhileListing
  have hprobe : ∃ t, (sampleServer.endOf asksWhileListing).tasks[1]? = some t ∧
      t.request = .ready ∧ t.inFlight = true := ⟨_, rfl, rfl, rfl⟩
  obtain ⟨t, hn, hr, hflight⟩ := hprobe
  rcases ready_does_not_wait hrun hn hr with ⟨answer, hc⟩ | hunhindered
  · simp [HandlerTask.inFlight, hc] at hflight
  · exact hunhindered

end Warlock.ReadinessProbes
