import Warlock.QuietHandlers
import Warlock.TaskViews

/-!
# What each kind of request may do

Only a `create` draws an identifier. A `delete` takes its VM out once, and does nothing else
to the map, the pool or the host before that. Hence a `delete` that answers an error has
changed nothing at all, and one that answers success has taken a running entry out.
-/

namespace Warlock.RequestCharters
open ApplicationState EffectPrograms HostNetworking Ledgers MachineIntegers QuietHandlers
  ReservationDiscipline ReservationProtocol Server ServerInvariant ServerOperations SshSession
  TaskViews TransitionSystems VmHandlers VmIdentifiers

/-- What a request may do; the view is whether it has taken a VM out. -/
def charterRequires : Request → Op → Bool → Prop
  | .create _, _, _ => True
  | .delete id, .vms (.take id'), v => id' = id ∧ v = false
  | .delete _, o, v => o ≠ .newV4 ∧ (Effect o → v = true)
  | _, o, _ => o ≠ .newV4

def noteTaken (v : Bool) : (o : Op) → Reply o → Bool
  | .vms (.take _), .ok _ => true
  | _, _ => v

def charter (request : Request) : Discipline Reply Choice Bool where
  requires := charterRequires request
  allows _ _ _ _ := True
  note o _ r v := noteTaken v o r
  considers _ _ _ := True
  leave _ v := v

def charterEnds : Request → Outcome → Bool → Prop
  | .delete _, .answered (.failed _), v => v = false
  | .delete _, .answered (.deleted _), v => v = true
  | .delete _, .session _ _, _ => False
  | _, _, _ => True

variable {config : AppConfig} {lib : Libraries} {request : Request} {v : Bool}

theorem noteTaken_of_housekeeping {o : Op} (h : Housekeeping o) (r : Reply o) :
    noteTaken v o r = v := by
  cases o with
  | vms s => cases s <;> first | exact h.elim | rfl
  | _ => rfl

/-- A request that is neither a `create` nor a `delete`. -/
def Plain : Request → Prop
  | .create _ | .delete _ => False
  | _ => True

theorem quiet_plain (hp : Plain request) : Quiet (charter request) v where
  inert o ho := by
    refine ⟨?_, fun _ r _ => noteTaken_of_housekeeping ho r⟩
    cases request <;> first | exact hp.elim | (rintro rfl; exact ho)
  stays _ _ _ := rfl

/-- Once the VM is taken out, its clean-up may do what it likes. -/
theorem quiet_delete {id : Uuid} : Quiet (charter (.delete id)) true where
  inert o ho := by
    have hrest : o ≠ .newV4 ∧ (Effect o → true = true) :=
      ⟨by rintro rfl; exact ho, fun _ => rfl⟩
    refine ⟨?_, fun _ r _ => noteTaken_of_housekeeping ho r⟩
    cases o with
    | vms s => cases s <;> first | exact ho.elim | exact hrest
    | _ => exact hrest
  stays _ _ _ := rfl

theorem lockBlind_delete {id : Uuid} : LockBlind (charter (.delete id)) where
  lock _ _ := ⟨⟨by simp, False.elim⟩, fun _ _ _ => rfl⟩
  resume _ := ⟨⟨by simp, False.elim⟩, fun _ _ _ => rfl⟩
  unlock _ _ := ⟨⟨by simp, False.elim⟩, fun _ _ _ => rfl⟩
  stays _ _ _ _ := rfl

theorem charter_delete (id : Uuid) : (delete config id).Ensures (charter (.delete id))
    (fun a => charterEnds (.delete id) (.answered a)) (charterEnds (.delete id) .dropped)
    false := by
  refine ensures_withLock lockBlind_delete ?_ fun _ => trivial
  refine Handler.Ensures.bind (ensures_inSection (.take id) ⟨rfl, rfl⟩ fun _ taken _ => ?_)
  cases taken with
  | error e => exact Handler.ensures_pure rfl
  | ok r =>
    have hkeeps {α : Type} {x : Async α} {post : α → Bool → Prop}
        (h : x.Keeps (charter (.delete id)) true) (hp : ∀ a, post a true) :
        x.Ensures (charter (.delete id)) post (charterEnds (.delete id) .dropped) true :=
      h.mono (fun a _ hw => hw ▸ hp a) fun _ _ => trivial
    refine Handler.Ensures.bind (hkeeps (quiet_delete.calm.stopInstance) fun _ => ?_)
    refine Handler.Ensures.bind (hkeeps (keeps_freeResources quiet_delete.calm) fun _ => ?_)
    have hreport : Inert (charter (.delete id)) true (.deregisterVm id) :=
      ⟨⟨by simp, fun _ => rfl⟩, fun _ _ _ => rfl⟩
    split
    · exact Handler.Ensures.bind (hkeeps (Handler.keeps_await hreport quiet_delete.stays) fun _ =>
        Handler.ensures_pure rfl)
    · exact Handler.ensures_pure rfl

/-- Every handler keeps to its charter. -/
theorem safe_charter (config : AppConfig) (request : Request) :
    (handlerOf config request).Safe (charter request) (charterEnds request) false := by
  have hplain {x : Async Answer} (hp : Plain request)
      (h : Quiet (charter request) false → x.Keeps (charter request) false) :
      (answering x).Safe (charter request) (charterEnds request) false := by
    refine safe_answering ((h (quiet_plain hp)).mono (fun _ _ _ => ?_) fun _ _ => ?_)
    all_goals cases request <;> first | exact hp.elim | trivial
  cases request with
  | create body => exact Program.safe_of_free (fun _ _ => trivial) (fun _ _ => trivial) _ _
  | delete id => exact safe_answering (charter_delete id)
  | get id => exact hplain trivial fun h => keeps_get h.calm.watchful id
  | list => exact hplain trivial fun h => keeps_list h.calm.watchful
  | ready => exact hplain trivial fun h => keeps_ready h.calm.watchful
  | session => trivial

theorem charter_callback {self : SessionHandler} (cb : Callback)
    (hr : ∀ id, request ≠ .delete id) :
    (calledBack (callbackCode lib self cb)).Safe (charter request) (charterEnds request) v := by
  have hplain (hp : Plain request) :
      (calledBack (callbackCode lib self cb)).Safe (charter request) (charterEnds request) v := by
    refine safe_calledBack ((keeps_callbackCode (quiet_plain hp).calm.watchful cb).mono (fun _ _ _ => ?_)
      fun _ _ => ?_)
    all_goals cases request <;> first | exact hp.elim | trivial
  cases request with
  | create body => exact Program.safe_of_free (fun _ _ => trivial) (fun _ _ => trivial) _ _
  | delete id => exact absurd rfl (hr id)
  | _ => exact hplain trivial

/-- Entries, pool, host and gateway are the same. -/
structure Unmoved (sh sh' : Shared) : Prop where
  lookup : ∀ id, sh'.vms.lookup id = sh.vms.lookup id
  subnetPool : sh'.subnetPool = sh.subnetPool
  host : sh'.host = sh.host
  gateway : sh'.gateway = sh.gateway

theorem unmoved_of_frame {n : ℕ} {c : Choice} {sh sh' : Shared} {o : Op}
    {reply : Option (Reply o)} (h : exec config n c sh o = some (sh', reply)) (ho : ¬ Effect o) :
    Unmoved sh sh' := by
  have hf := exec_frame h
  have hne {o' : Op} (he : Effect o') : o ≠ o' := by
    rintro rfl
    exact ho he
  refine ⟨fun id => ?_, hf.subnetPool (hne trivial) fun i => hne trivial,
    hf.host (fun cmd => hne trivial) (fun path => hne trivial) (fun id => hne trivial)
      fun id => hne trivial, hf.gateway (fun _ _ _ => hne trivial) fun id => hne trivial⟩
  cases o with
  | vms s =>
    have hs : sh'.vms = (s.run config.capacity sh.vms).1 := by
      simp only [exec, Option.some.injEq, Prod.mk.injEq] at h
      rw [← h.1]
    have hid : s.subject ≠ some id := fun hid => ho (Option.isSome_iff_exists.mpr ⟨id, hid⟩)
    rw [hs]
    exact VmRegistry.lookup_run_of_ne hid
  | _ => rw [hf.vms (by simp)]

/-- A `take` that replies an error puts everything back. -/
theorem unmoved_of_refused {n : ℕ} {c : Choice} {sh sh' : Shared} {id : Uuid} {e : ApiError}
    (h : exec config n c sh (.vms (.take id)) = some (sh', some (.error e))) : Unmoved sh sh' := by
  obtain ⟨rfl, he⟩ := by simpa [exec] using h
  refine ⟨fun id' => ?_, rfl, rfl, rfl⟩
  rcases VmRegistry.take_cases id sh.vms with ⟨r, _, ht⟩ | ⟨_, _, hsame⟩
  · simp [VmRegistry.Section.run, ht] at he
  · exact hsame id'

variable {n : ℕ} {c : Choice} {sh sh' : Shared} {o : Op} {reply : Reply o} {id : Uuid}

theorem false_of_note (h : noteTaken v o reply = false) : v = false := by
  unfold noteTaken at h
  split at h
  · simp at h
  · exact h

/-- A `delete` has taken out the running VM it was asked for. -/
theorem took_of_note (hexec : exec config n c sh o = some (sh', some reply))
    (hreq : charterRequires (.delete id) o false) (h : noteTaken false o reply = true) :
    ∃ r, o = .vms (.take id) ∧ sh.vms.lookup id = some (.running r) := by
  cases o with
  | vms s =>
    cases s with
    | take id' =>
      obtain ⟨rfl, _⟩ := hreq
      obtain ⟨_, rfl⟩ := by simpa [exec] using hexec
      rcases VmRegistry.take_cases id' sh.vms with ⟨r, hl, _⟩ | ⟨e, he, _⟩
      · exact ⟨r, rfl, hl⟩
      · simp [VmRegistry.Section.run, he, noteTaken] at h
    | _ => simp [noteTaken] at h
  | _ => simp [noteTaken] at h

theorem unmoved_of_note (hexec : exec config n c sh o = some (sh', some reply))
    (hreq : charterRequires (.delete id) o false) (h : noteTaken false o reply = false) :
    Unmoved sh sh' := by
  have hquiet (hq : o ≠ .newV4 ∧ (Effect o → false = true)) : Unmoved sh sh' :=
    unmoved_of_frame hexec fun he => by simpa using hq.2 he
  cases o with
  | vms s =>
    cases s with
    | take id' =>
      cases reply with
      | error e => exact unmoved_of_refused hexec
      | ok r => simp [noteTaken] at h
    | _ => exact hquiet hreq
  | _ => exact hquiet hreq

/-- Task `n` has taken a running VM out. -/
def Took (past : History) (n : ℕ) (id : Uuid) : Prop :=
  ∃ a r, Performed past n (.vms (.take id)) a ∧ a.shared.vms.lookup id = some (.running r)

theorem Took.tail {past : History} (h : Took past n id) (p : State × Event) :
    Took (p :: past) n id := by
  obtain ⟨a, r, hp, hl⟩ := h
  exact ⟨a, r, hp.tail p, hl⟩

/-- What the task has done so far is what its charter and its view say. -/
structure Chartered (config : AppConfig) (lib : Libraries) (past : History) (n : ℕ)
    (t : HandlerTask) (v : Bool) : Prop where
  drawn : ∀ id, t.ledger.view.id = some id → ∃ body, t.request = .create body
  took : ∀ id, t.request = .delete id → v = true → Took past n id
  unmoved : ∀ id, t.request = .delete id → v = false → ∀ a c a', (a, Event.run n c) ∈ past →
    step config lib a (.run n c) = some a' → Unmoved a.shared a'.shared

theorem tracking_charter : TaskTracking config lib (fun _ _ => True) charter charterEnds
    (Chartered config lib) where
  others past n t v s e he h := by
    refine ⟨h.drawn, fun id hreq hv => (h.took id hreq hv).tail _, fun id hreq hv a c a' hp => ?_⟩
    rcases List.mem_cons.mp hp with heq | hp
    · obtain ⟨rfl, rfl⟩ := Prod.mk.inj heq
      exact absurd rfl he
    · exact h.unmoved id hreq hv a c a' hp
  request past s r hnew := by
    refine ⟨false, safe_charter config r, ⟨by simp, by simp, fun _ _ _ a c a' hp => ?_⟩⟩
    exact absurd rfl (hnew _ hp)
  callback past s n cb r self result l v _ _ h hends := by
    refine ⟨v, charter_callback cb ?_, ⟨h.drawn, fun id hreq hv => (h.took id hreq hv).tail _, ?_⟩⟩
    all_goals
      rintro id rfl
      exact hends.elim
  run past s n c r o may exit next l v sh reply _ _ hn hexec h hreq _ := by
    refine ⟨trivial, ⟨fun id hid => ?_, fun id hreq' hv => ?_, fun id hreq' hv a c' a' hp he => ?_⟩⟩
    · by_cases ho : o = .newV4
      · subst ho
        cases r with
        | create body => exact ⟨body, rfl⟩
        | delete => exact absurd rfl hreq.1
        | _ => exact absurd rfl hreq
      · exact h.drawn id (id_noteView ho ▸ hid)
    · obtain rfl : r = .delete id := hreq'
      cases v with
      | true => exact (h.took id rfl rfl).tail _
      | false =>
        obtain ⟨r', rfl, hl⟩ := took_of_note hexec hreq hv
        exact ⟨s, r', .now hn rfl, hl⟩
    · obtain rfl : r = .delete id := hreq'
      obtain rfl : v = false := false_of_note hv
      rcases List.mem_cons.mp hp with heq | hp
      · obtain ⟨rfl, hev⟩ := Prod.mk.inj heq
        obtain rfl : c' = c := by simpa using hev
        obtain rfl : (⟨sh, _⟩ : State) = a' := by simpa [step, hn, hexec] using he
        exact unmoved_of_note hexec hreq hv
      · exact h.unmoved id rfl rfl a c' a' hp he
  leave past s n e r o may exit next l v _ _ _ h _ := by
    refine ⟨trivial, ⟨fun id hid => h.drawn id ?_, fun id hreq hv => (h.took id hreq hv).tail _,
      fun id hreq hv a c a' hp => ?_⟩⟩
    · cases e <;> exact hid
    · rcases List.mem_cons.mp hp with heq | hp
      · simp at heq
      · exact h.unmoved id hreq hv a c a' hp

variable {past : History} {s : State} {t : HandlerTask}

theorem meets_true : System.Meets (fun (_ : State) (_ : Event) => True) past :=
  fun _ _ => trivial

/-- Whoever has drawn an identifier is a `create`. -/
theorem create_of_id (h : (server config lib).Run past s) (hn : s.tasks[n]? = some t)
    (hid : t.ledger.view.id = some id) : ∃ body, t.request = .create body := by
  obtain ⟨v, _, hv⟩ := tracking_charter.view_of_run h meets_true hn
  exact hv.drawn id hid

/-- A `delete` that has answered an error has changed nothing. -/
theorem unmoved_of_failed (h : (server config lib).Run past s) (hn : s.tasks[n]? = some t)
    (hreq : t.request = .delete id) {error : ApiError}
    (hfail : t.code = .ret (.answered (.failed error))) {a a' : State} {c : Choice}
    (hp : (a, Event.run n c) ∈ past) (he : step config lib a (.run n c) = some a') :
    Unmoved a.shared a'.shared := by
  obtain ⟨v, hcode, hv⟩ := tracking_charter.view_of_run h meets_true hn
  rw [hreq, hfail] at hcode
  exact hv.unmoved id hreq hcode a c a' hp he

/-- A `delete` that has answered success has taken the VM out. -/
theorem took_of_deleted (h : (server config lib).Run past s) (hn : s.tasks[n]? = some t)
    (hreq : t.request = .delete id) {id' : Uuid}
    (hdone : t.code = .ret (.answered (.deleted id'))) : Took past n id := by
  obtain ⟨v, hcode, hv⟩ := tracking_charter.view_of_run h meets_true hn
  rw [hreq, hdone] at hcode
  exact hv.took id hreq hcode

end Warlock.RequestCharters
