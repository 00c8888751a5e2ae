import Warlock.LockOrders
import Warlock.QuietHandlers
import Warlock.ServerInvariant
import Warlock.ServerProcess

/-!
# No deadlock

The map's mutex is taken before the pool's, by every handler, every session, every create guard
and the shutdown loop of `main`, and nobody takes a mutex twice. While the server serves this
follows from the discipline of the handlers; once `main` has the map, it keeps it, and the tasks
that go on find it taken for ever.
-/

namespace Warlock.DeadlockFreedom
open ApplicationState EffectPrograms HostNetworking Ledgers LockOrders MachineIntegers QuietHandlers
  ReservationDiscipline ReservationProtocol Server ServerInvariant ServerOperations ServerProcess
  SshSession SubnetAddressing TransitionSystems VmIdentifiers

inductive Party
  | task (n : ℕ)
  | main
  deriving DecidableEq

/-- What a party does next, as long as `main` has not returned. -/
def nextOp (p : Process) : Party → Option Op
  | .task n => match p.main with
    | .returned => none
    | _ => p.server.tasks[n]?.bind HandlerTask.nextOp
  | .main => match p.main with
    | .stopping (.run o _) => some o
    | _ => none

def owner (held : Mutex → Bool) (locks : Mutex → Option ℕ) (m : Mutex) : Option Party :=
  if held m then some .main else (locks m).map .task

abbrev Holds (p : Process) (q : Party) (m : Mutex) : Prop :=
  owner p.held p.server.shared.locks m = some q

/-- The party is about to lock the mutex. -/
abbrev Seeks (p : Process) (q : Party) (m : Mutex) : Prop := nextOp p q = some (.lock m)

/-- The party is about to lock the mutex, and cannot. -/
def Waits (p : Process) (q : Party) (m : Mutex) : Prop :=
  Seeks p q m ∧ p.server.shared.locks m ≠ none

/-- The party has steps to take. -/
def Unfinished (p : Process) : Party → Prop
  | .task n => ∃ t, p.server.tasks[n]? = some t ∧ t.inFlight = true
  | .main => ∃ code, p.main = .stopping code

def rank : Mutex → ℕ
  | .registry => 0
  | .pool => 1

/-- What a party believes to hold. -/
def Believes (held : Mutex → Bool) (tasks : List HandlerTask) : Party → Mutex → Prop
  | .task n, m => ∃ t, tasks[n]? = some t ∧ t.ledger.view.holds m = true
  | .main, m => held m = true

/-- The order in which `main` takes mutexes. -/
def order : Discipline Reply Choice (Mutex → Bool) where
  requires
    | .lock m, held => ∀ k, held k = true → rank k < rank m
    | .tryLock _, _ => False
    | .unlock m, held => m = .pool ∧ held m = true
    | _, _ => True
  allows _ _ _ _ := True
  note o _ _ held := noteMutex held o
  considers _ _ _ := False
  leave _ held := held

section Shutdown

/-- Nothing but the map is locked. -/
def mapOnly : Mutex → Bool
  | .registry => true
  | .pool => false

variable {α β : Type} {post : β → (Mutex → Bool) → Prop}

theorem inert_order {o : Op} (hl : ∀ m, o ≠ .lock m) (ht : ∀ m, o ≠ .tryLock m)
    (hu : ∀ m, o ≠ .unlock m) : Inert order mapOnly o := by
  constructor
  · cases o with
    | lock m => exact absurd rfl (hl m)
    | tryLock m => exact absurd rfl (ht m)
    | unlock m => exact absurd rfl (hu m)
    | _ => trivial
  · intro c r _
    cases o with
    | lock m => exact absurd rfl (hl m)
    | unlock m => exact absurd rfl (hu m)
    | _ => rfl

theorem safe_then {s : Code α} {f : α → Code β} (hs : s.Steady order (· = mapOnly))
    (hf : ∀ a, (f a).Safe order post mapOnly) : (s >>= f).Safe order post mapOnly :=
  Script.safe_bind.mpr ((hs.safe rfl).mono fun a _ hw => hw ▸ hf a)

theorem safe_freeSubnet (index : U16) :
    (freeSubnet index).Safe order (fun _ held => held = mapOnly) mapOnly := by
  have hback : Function.update (Function.update mapOnly .pool true) .pool false = mapOnly := by
    funext m
    cases m <;> rfl
  constructor
  · intro m hm
    cases m with
    | registry => exact Nat.zero_lt_one
    | pool => simp [mapOnly] at hm
  · intro _ _ _
    exact ⟨trivial, fun _ _ _ => ⟨⟨rfl, rfl⟩, fun _ _ _ => hback⟩⟩

theorem safe_freeEntry (r : VmResources) :
    (freeEntry r).Safe order (fun _ held => held = mapOnly) mapOnly := by
  obtain ⟨_, _, rootfs, tap, index, handles, _, _, _⟩ := r
  have hinert (cmd : Command) : Inert order mapOnly (.command cmd) :=
    inert_order (by simp) (by simp) (by simp)
  induction tap using optionally with
  | some name hrest => exact safe_then (steady_deleteTap (hinert _).upholds) fun _ => hrest
  | none =>
    induction handles using optionally with
    | some handles hrest =>
      exact safe_then (steady_removeNatRules fun _ _ => (hinert _).upholds) fun _ => hrest
    | none =>
      induction index using optionally with
      | some index hrest =>
        exact Script.safe_bind.mpr ((safe_freeSubnet index).mono fun _ _ hw => hw ▸ hrest)
      | none =>
        cases rootfs with
        | some path =>
          exact safe_then (inert_order (by simp) (by simp) (by simp)).steady fun _ => rfl
        | none => rfl

theorem safe_drainVms (entries : List (Uuid × VmEntry)) :
    (drainVms entries).Safe order (fun _ held => held = mapOnly) mapOnly := by
  induction entries with
  | nil => rfl
  | cons p rest ih =>
    obtain ⟨id, entry⟩ := p
    have hfree : (freeEntry entry.res >>= fun _ => drainVms rest).Safe order
        (fun _ held => held = mapOnly) mapOnly :=
      Script.safe_bind.mpr ((safe_freeEntry entry.res).mono fun _ _ hw => hw ▸ ih)
    refine safe_then (inert_order (by simp) (by simp) (by simp)).steady fun _ => ?_
    cases entry with
    | creating r => exact hfree
    | running r =>
      refine safe_then (.bind (inert_order (by simp) (by simp) (by simp)).steady fun _ => ?_)
        fun _ => hfree
      exact (inert_order (by simp) (by simp) (by simp)).steady

theorem steady_deregisterVms (entries : List (Uuid × VmEntry)) :
    (deregisterVms entries).Steady order (· = mapOnly) := by
  induction entries with
  | nil => trivial
  | cons p rest ih => exact .bind (inert_order (by simp) (by simp) (by simp)).steady fun _ => ih

/-- `main` locks the map before anything else, and keeps it. -/
theorem safe_shutdown (config : AppConfig) :
    (shutdown config).Safe order (fun _ held => held = mapOnly) fun _ => false := by
  have hmap : Function.update (fun _ => false) Mutex.registry true = mapOnly := by
    funext m
    cases m <;> rfl
  have hrest : (do
      let vms ← Code.perform (.vms .entries)
      if config.gatewayClient.isSome then
        deregisterVms vms
      drainVms vms : Code Unit).Safe order (fun _ held => held = mapOnly) mapOnly := by
    refine safe_then (inert_order (by simp) (by simp) (by simp)).steady fun vms => ?_
    split
    · exact safe_then (steady_deregisterVms vms) fun _ => safe_drainVms vms
    · exact safe_drainVms vms
  refine Script.safe_bind.mpr ⟨fun m hm => by simp at hm, fun _ _ _ => ?_⟩
  change Script.Safe order _ _ (Function.update (fun _ => false) Mutex.registry true)
  rwa [hmap]

end Shutdown

section Operations

variable {config : AppConfig} {n : ℕ} {c : Choice} {o : Op} {sh sh' : Shared} {reply : Reply o}

/-- What an operation does to the mutexes, and to those that its task holds. -/
theorem turn (he : exec config n c sh o = some (sh', some reply)) (v : Standpoint) :
    (sh'.locks = sh.locks ∧ (∀ m, o ≠ .lock m) ∧ (∀ m, o ≠ .unlock m) ∧
      ∀ m, (noteView v o reply).holds m = v.holds m) ∨
    (∃ m, (o = .lock m ∨ o = .tryLock m) ∧ sh.locks m = none ∧
      sh'.locks = Function.update sh.locks m (some n) ∧ noteView v o reply = v.set m true) ∨
    ∃ m, o = .unlock m ∧ sh'.locks = Function.update sh.locks m none ∧
      noteView v o reply = v.set m false := by
  cases o with
  | lock m =>
    simp only [exec] at he
    split at he
    · rename_i hfree
      obtain ⟨rfl, _⟩ := by simpa using he
      exact .inr (.inl ⟨m, .inl rfl, hfree, rfl, rfl⟩)
    · simp at he
  | tryLock m =>
    simp only [exec] at he
    split at he
    · rename_i hfree
      obtain ⟨rfl, rfl⟩ := by simpa using he
      exact .inr (.inl ⟨m, .inr rfl, hfree, rfl, rfl⟩)
    · obtain ⟨rfl, rfl⟩ := by simpa using he
      refine .inl ⟨rfl, by simp, by simp, fun k => ?_⟩
      cases m <;> cases k <;> rfl
  | unlock m =>
    obtain rfl := by simpa [exec] using he
    exact .inr (.inr ⟨m, rfl, rfl, rfl⟩)
  | sdk id call =>
    refine .inl ⟨?_, by simp, by simp, holds_noteView (by simp) (by simp) (by simp)⟩
    cases call <;> simp only [exec] at he <;> cases he <;> rfl
  | _ =>
    refine .inl ⟨?_, by simp, by simp, holds_noteView (by simp) (by simp) (by simp)⟩
    simp only [exec] at he
    repeat' split at he
    all_goals first | (cases he; rfl) | simp at he

/-- No operation of a handler panics. -/
theorem reply_of_requires {v : Standpoint} {r : Option (Reply o)} (hreq : requires config o v)
    (he : exec config n c sh o = some (sh', r)) : ∃ reply, r = some reply := by
  cases o with
  | release i =>
    obtain ⟨pool, hpool, _⟩ := SubnetPool.release_eq_some sh.subnetPool hreq.2.1
    simp only [exec, hpool] at he
    cases he
    exact ⟨_, rfl⟩
  | _ => exact exec_replies (by simp) he

/-- Away from the map every reply is allowed. -/
theorem allows_of_away {v : Standpoint} (hv : v.registry = false) (hreq : requires config o v) :
    allows config o c reply v := by
  cases o with
  | vms s =>
    have hreg := hreq.1
    simp [hv] at hreg
  | _ => trivial

end Operations

section Agreement

variable {config : AppConfig} {held : Mutex → Bool} {s : State} {n : ℕ} {c : Choice} {o : Op}
  {sh : Shared} {reply : Reply o}

/-- The mutexes are taken by those who believe to hold them. -/
structure Agreed (held : Mutex → Bool) (s : State) : Prop where
  assigned : Assigned (owner held s.shared.locks) (Believes held s.tasks)
  locked : ∀ m, held m = true → s.shared.locks m ≠ none

theorem Agreed.not_held (h : Agreed held s) {m : Mutex} (hm : s.shared.locks m = none) :
    held m = false := by
  rw [← Bool.not_eq_true]
  exact fun hheld => h.locked m hheld hm

theorem Agreed.free (h : Agreed held s) {m : Mutex} (hm : s.shared.locks m = none) :
    owner held s.shared.locks m = none := by simp [owner, h.not_held hm, hm]

theorem agreed_of_sound (hs : Sound config s) : Agreed (fun _ => false) s where
  assigned := by
    intro q m
    cases q with
    | main => simp [owner, Believes]
    | task n =>
      have hholder := hs.protocol.holder m n
      simp only [owner, Believes, Bool.false_eq_true, if_false]
      rw [Option.map_eq_some_iff]
      constructor
      · rintro ⟨k, hk, hkn⟩
        obtain rfl : k = n := by simpa using hkn
        obtain ⟨v, hv, hm⟩ := hholder.mp hk
        obtain ⟨t, ht, rfl⟩ := Option.map_eq_some_iff.mp hv
        exact ⟨t, ht, hm⟩
      · rintro ⟨t, ht, hm⟩
        exact ⟨n, hholder.mpr ⟨_, siteOf_task ht, hm⟩, rfl⟩
  locked m hm := by simp at hm

/-- `main` performs an operation. -/
theorem Agreed.main_step (h : Agreed held s) (hreq : order.requires o held)
    (he : exec config n c s.shared o = some (sh, some reply)) :
    Agreed (noteMutex held o) { s with shared := sh } := by
  rcases turn he {} with ⟨hlocks, hl, hu, _⟩ | ⟨m, ho, hfree, hlocks, _⟩ | ⟨m, rfl, hlocks, _⟩
  · have hheld : noteMutex held o = held := by
      cases o with
      | lock m => exact absurd rfl (hl m)
      | unlock m => exact absurd rfl (hu m)
      | _ => rfl
    rw [hheld]
    exact ⟨hlocks ▸ h.assigned, hlocks ▸ h.locked⟩
  · obtain rfl | rfl := ho
    · have howner : owner (noteMutex held (.lock m)) sh.locks =
          Function.update (owner held s.shared.locks) m (some .main) := by
        funext k
        by_cases hk : k = m <;> simp [owner, noteMutex, hlocks, hk]
      constructor
      · rw [howner]
        apply h.assigned.take (h.free hfree)
        · intro k
          by_cases hk : k = m <;> simp [Believes, noteMutex, hk]
        · intro q k hq
          cases q with
          | main => exact absurd rfl hq
          | task n => exact Iff.rfl
      · intro k hk
        by_cases hkm : k = m
        · simp [hlocks, hkm]
        · simp only [noteMutex, Function.update_of_ne hkm] at hk
          simpa [hlocks, hkm] using h.locked k hk
    · exact hreq.elim
  · obtain ⟨rfl, hm⟩ := hreq
    have howner : owner (noteMutex held (.unlock .pool)) sh.locks =
        Function.update (owner held s.shared.locks) .pool none := by
      funext k
      by_cases hk : k = .pool <;> simp [owner, noteMutex, hlocks, hk]
    have hmain : Believes held s.tasks .main .pool := hm
    constructor
    · rw [howner]
      apply h.assigned.giveBack hmain
      · intro k
        by_cases hk : k = .pool <;> simp [Believes, noteMutex, hk]
      · intro q k hq
        cases q with
        | main => exact absurd rfl hq
        | task n => exact Iff.rfl
    · intro k hk
      by_cases hkm : k = .pool
      · simp [noteMutex, hkm] at hk
      · simp only [noteMutex, Function.update_of_ne hkm] at hk
        simpa [hlocks, hkm] using h.locked k hk

theorem believes_set {t t' : HandlerTask} (hn : s.tasks[n]? = some t) {k : ℕ} {m : Mutex} :
    Believes held (s.tasks.set n t') (.task k) m ↔
      k = n ∧ t'.ledger.view.holds m = true ∨ k ≠ n ∧ Believes held s.tasks (.task k) m := by
  simp only [Believes, getElem?_set hn]
  constructor
  · rintro ⟨u, ⟨rfl, rfl⟩ | ⟨hk, hu⟩, hm⟩
    · exact .inl ⟨rfl, hm⟩
    · exact .inr ⟨hk, u, hu, hm⟩
  · rintro (⟨rfl, hm⟩ | ⟨hk, u, hu, hm⟩)
    · exact ⟨t', .inl ⟨rfl, rfl⟩, hm⟩
    · exact ⟨u, .inr ⟨hk, hu⟩, hm⟩

/-- A task moves on without touching a mutex. -/
theorem Agreed.move (h : Agreed held s) {t t' : HandlerTask} (hn : s.tasks[n]? = some t)
    (hlocks : sh.locks = s.shared.locks)
    (hv : ∀ m, t'.ledger.view.holds m = t.ledger.view.holds m) :
    Agreed held ⟨sh, s.tasks.set n t'⟩ := by
  refine ⟨?_, hlocks ▸ h.locked⟩
  simp only [hlocks]
  apply h.assigned.congr
  intro q k
  cases q with
  | main => exact Iff.rfl
  | task j =>
    rw [believes_set hn, hv]
    by_cases hj : j = n
    · simp [hj, Believes, hn]
    · simp [hj]

/-- A task performs an operation. -/
theorem Agreed.task_step (h : Agreed held s) {t t' : HandlerTask} (hn : s.tasks[n]? = some t)
    (hreq : requires config o t.ledger.view)
    (he : exec config n c s.shared o = some (sh, some reply))
    (hv : t'.ledger.view = noteView t.ledger.view o reply) :
    Agreed held ⟨sh, s.tasks.set n t'⟩ := by
  rcases turn he t.ledger.view with
    ⟨hlocks, _, _, hsame⟩ | ⟨m, _, hfree, hlocks, hset⟩ | ⟨m, rfl, hlocks, hset⟩
  · exact h.move hn hlocks fun m => by rw [hv, hsame m]
  · have howner : owner held sh.locks =
        Function.update (owner held s.shared.locks) m (some (.task n)) := by
      funext k
      by_cases hk : k = m
      · simp [owner, hlocks, hk, h.not_held hfree]
      · simp [owner, hlocks, hk]
    constructor
    · simp only [howner]
      apply h.assigned.take (h.free hfree)
      · intro k
        rw [believes_set hn, hv, hset]
        by_cases hk : k = m
        · simp [hk]
        · simp [hk, View.holds_set_ne, Believes, hn]
      · intro q k hq
        cases q with
        | main => exact Iff.rfl
        | task j =>
          rw [believes_set hn]
          have hj : j ≠ n := fun hj => hq (by rw [hj])
          simp [hj]
    · intro k hk
      by_cases hkm : k = m
      · simp [hlocks, hkm]
      · simpa [hlocks, hkm] using h.locked k hk
  · have hm : Believes held s.tasks (.task n) m := ⟨t, hn, hreq.1⟩
    have howns := (h.assigned _ _).mpr hm
    have hnot : held m = false := by
      rw [← Bool.not_eq_true]
      intro hheld
      simp [owner, hheld] at howns
    have howner : owner held sh.locks = Function.update (owner held s.shared.locks) m none := by
      funext k
      by_cases hk : k = m
      · simp [owner, hlocks, hk, hnot]
      · simp [owner, hlocks, hk]
    constructor
    · simp only [howner]
      apply h.assigned.giveBack hm
      · intro k
        rw [believes_set hn, hv, hset]
        by_cases hk : k = m
        · simp [hk]
        · simp [hk, View.holds_set_ne, Believes, hn]
      · intro q k hq
        cases q with
        | main => exact Iff.rfl
        | task j =>
          rw [believes_set hn]
          have hj : j ≠ n := fun hj => hq (by rw [hj])
          simp [hj]
    · intro k hk
      by_cases hkm : k = m
      · simp [hkm, hnot] at hk
      · simpa [hlocks, hkm] using h.locked k hk

theorem Agreed.request (h : Agreed held s) {t : HandlerTask} (ht : t.ledger.view = {}) :
    Agreed held { s with tasks := s.tasks ++ [t] } := by
  refine ⟨h.assigned.congr fun q m => ?_, h.locked⟩
  cases q with
  | main => exact Iff.rfl
  | task n =>
    simp only [Believes, getElem?_request]
    constructor
    · rintro ⟨u, ⟨_, rfl⟩ | hu, hm⟩
      · cases m <;> simp [ht, View.holds] at hm
      · exact ⟨u, hu, hm⟩
    · rintro ⟨u, hu, hm⟩
      exact ⟨u, .inr hu, hm⟩

theorem holds_leave (l : Ledger) (e : Exit) (m : Mutex) :
    (l.leave e).view.holds m = l.view.holds m := by cases e <;> cases m <;> rfl

end Agreement

section Runs

variable {config : AppConfig} {lib : Libraries} {p p' : Process}

/-- `main` has not taken the map yet. -/
structure Before (config : AppConfig) (p : Process) : Prop where
  sound : Sound config p.server
  held : p.held = fun _ => false
  main : p.main = .serving ∨ p.main = .stopping (shutdown config)

/-- `main` has the map, and keeps it. -/
structure After (config : AppConfig) (p : Process) : Prop where
  agreed : Agreed p.held p.server
  registry : p.held .registry = true
  tasks : ∀ (n : ℕ) (t : HandlerTask), p.server.tasks[n]? = some t →
    t.code.Safe (custody config) (final config t.request) t.ledger.view
  main : ∃ code, p.main = .stopping code ∧
    code.Safe order (fun _ held => held = mapOnly) p.held

theorem After.away (h : After config p) {n : ℕ} {t : HandlerTask}
    (hn : p.server.tasks[n]? = some t) : t.ledger.view.registry = false := by
  rw [← Bool.not_eq_true]
  intro hreg
  have howns := (h.agreed.assigned (.task n) .registry).mpr ⟨t, hn, hreg⟩
  simp [owner, h.registry] at howns

theorem After.server_step (h : After config p) {e : Event} {s : State}
    (he : Server.step config lib p.server e = some s) (gone : List ℕ) :
    After config { p with server := s, gone := gone } := by
  have hmove {n : ℕ} {t t' : HandlerTask} {sh : Shared} (hn : p.server.tasks[n]? = some t)
      (ha : Agreed p.held ⟨sh, p.server.tasks.set n t'⟩)
      (hcode : t'.code.Safe (custody config) (final config t'.request) t'.ledger.view) :
      After config { p with server := ⟨sh, p.server.tasks.set n t'⟩, gone := gone } := by
    refine ⟨ha, h.registry, fun k u hk => ?_, h.main⟩
    rcases (getElem?_set hn).mp hk with ⟨_, rfl⟩ | ⟨_, hk⟩
    · exact hcode
    · exact h.tasks k u hk
  cases stepped he with
  | request r =>
    refine ⟨h.agreed.request rfl, h.registry, fun k u hk => ?_, h.main⟩
    rcases getElem?_request.mp hk with ⟨_, rfl⟩ | hk
    · exact safe_handlerOf config r
    · exact h.tasks k u hk
  | callback n cb r self result l hn =>
    have hv : l.view = {} := (h.tasks n _ hn).2
    have hcode : (calledBack (callbackCode lib self cb)).Safe (custody config) (final config r)
        l.view := hv ▸ safe_callback cb
    exact hmove hn (h.agreed.move hn rfl fun _ => rfl) hcode
  | run n c r o may exit next l sh reply hn hexec =>
    obtain ⟨hreq, hnext, _⟩ := h.tasks n _ hn
    apply hmove hn (h.agreed.task_step hn hreq hexec rfl)
    exact hnext c reply (allows_of_away (h.away hn) hreq)
  | panic n c r o may exit next l sh hn hexec =>
    obtain ⟨_, hr⟩ := reply_of_requires (h.tasks n _ hn).1 hexec
    simp at hr
  | leave n e r o may exit next l hn hmay =>
    apply hmove hn (h.agreed.move hn rfl (holds_leave l e))
    have hexit := (h.tasks n _ hn).2.2 e hmay trivial
    cases e <;> exact hexit

theorem after_of_main {c : Choice} {o : Op} {next : Reply o → Code Unit} {sh : Shared} {r : Reply o}
    (hagreed : Agreed p.held p.server)
    (htasks : ∀ (n : ℕ) (t : HandlerTask), p.server.tasks[n]? = some t →
      t.code.Safe (custody config) (final config t.request) t.ledger.view)
    (hsafe : Script.Safe order (fun _ held => held = mapOnly) (.run o next) p.held)
    (hreg : noteMutex p.held o .registry = true)
    (he : exec config 0 c p.server.shared o = some (sh, some r)) :
    After config { p with
      server := { p.server with shared := sh }
      main := .stopping (next r)
      held := noteMutex p.held o } where
  agreed := hagreed.main_step hsafe.1 he
  registry := hreg
  tasks := htasks
  main := ⟨_, rfl, hsafe.2 c r trivial⟩

/-- Until `main` returns it has the map or has not taken it. -/
def Kept (config : AppConfig) (p : Process) : Prop :=
  p.main = .returned ∨ Before config p ∨ After config p

theorem Kept.step (h : Kept config p) {a : Action} (he : ServerProcess.step config lib p a = some p') :
    Kept config p' := by
  cases stepped he with
  | server e s hmain hserver =>
    rcases h with hret | hb | ha
    · exact absurd hret hmain
    · exact .inr (.inl ⟨hb.sound.step hserver, hb.held, hb.main⟩)
    · exact .inr (.inr (ha.server_step hserver _))
  | stop ending hmain hpasses hdrained =>
    rcases h with hret | hb | ha
    · simp [hmain] at hret
    · exact .inr (.inl ⟨hb.sound, hb.held, .inr rfl⟩)
    · obtain ⟨code, hcode, _⟩ := ha.main
      simp [hmain] at hcode
  | fail ending hmain hfails => exact .inl rfl
  | done c hmain => exact .inl rfl
  | run c o next sh r hmain hexec =>
    rcases h with hret | hb | ha
    · simp [hmain] at hret
    · have hcode : Script.run o next = shutdown config := by
        rcases hb.main with hserving | hstop
        · simp [hmain] at hserving
        · exact Main.stopping.inj (hmain.symm.trans hstop)
      have hsafe := safe_shutdown config
      rw [← hcode, ← hb.held] at hsafe
      have hagreed : Agreed p.held p.server := hb.held ▸ agreed_of_sound hb.sound
      refine .inr (.inr (after_of_main hagreed hb.sound.code hsafe ?_ hexec))
      obtain ⟨rfl, _⟩ : o = .lock .registry ∧ True := by
        cases hcode
        exact ⟨rfl, trivial⟩
      rfl
    · obtain ⟨code, hcode, hsafe⟩ := ha.main
      obtain rfl := Main.stopping.inj (hmain.symm.trans hcode)
      refine .inr (.inr (after_of_main ha.agreed ha.tasks hsafe ?_ hexec))
      cases o with
      | lock m =>
        by_cases hm : Mutex.registry = m
        · simp [noteMutex, hm]
        · simpa [noteMutex, hm] using ha.registry
      | unlock m =>
        obtain ⟨rfl, _⟩ := hsafe.1
        exact ha.registry
      | _ => exact ha.registry
  | panic c o next sh hmain hexec => exact .inl rfl

theorem kept_of_reachable (h : (process config lib).Reachable p) : Kept config p := by
  have hsound : Sound config (server config lib).initial := .initial
  exact h.invariant (.inr (.inl ⟨hsound, rfl, .inl rfl⟩)) fun _ _ _ hk he => hk.step he

/-- What holds of everybody until `main` returns. -/
structure Ordering (config : AppConfig) (p : Process) : Prop where
  agreed : Agreed p.held p.server
  tasks : ∀ (n : ℕ) (t : HandlerTask), p.server.tasks[n]? = some t →
    t.code.Safe (custody config) (final config t.request) t.ledger.view
  main : ∀ code, p.main = .stopping code → code.Safe order (fun _ held => held = mapOnly) p.held
  held : ∀ m, p.held m = true → ∃ code, p.main = .stopping code

theorem Kept.ordering (h : Kept config p) (hret : p.main ≠ .returned) : Ordering config p := by
  rcases h with h | hb | ha
  · exact absurd h hret
  · refine ⟨hb.held ▸ agreed_of_sound hb.sound, hb.sound.code, ?_, ?_⟩
    · intro code hcode
      rw [hb.held]
      rcases hb.main with hserving | hstop
      · simp [hcode] at hserving
      · exact Main.stopping.inj (hcode.symm.trans hstop) ▸ safe_shutdown config
    · intro m hm
      simp [hb.held] at hm
  · obtain ⟨code, hcode, hsafe⟩ := ha.main
    refine ⟨ha.agreed, ha.tasks, ?_, fun _ _ => ⟨code, hcode⟩⟩
    intro code' hcode'
    exact Main.stopping.inj (hcode.symm.trans hcode') ▸ hsafe

theorem seeks_task {n : ℕ} {m : Mutex} (h : Seeks p (.task n) m) :
    ∃ t, p.server.tasks[n]? = some t ∧ t.nextOp = some (.lock m) := by
  simp only [Seeks, nextOp] at h
  split at h
  · simp at h
  · exact Option.bind_eq_some_iff.mp h

theorem seeks_main {m : Mutex} (h : Seeks p .main m) :
    ∃ next, p.main = .stopping (.run (.lock m) next) := by
  simp only [Seeks, nextOp] at h
  split at h
  · rename_i o next hmain
    obtain rfl := Option.some.inj h
    exact ⟨next, hmain⟩
  · simp at h

theorem not_returned {q : Party} {m : Mutex} (h : Seeks p q m) : p.main ≠ .returned := by
  intro hret
  cases q <;> simp [Seeks, nextOp, hret] at h

theorem rank_of_requires {v : Standpoint} {m m' : Mutex} (hreq : requires config (.lock m) v)
    (hheld : v.holds m' = true) : rank m' < rank m := by
  cases m with
  | registry =>
    obtain ⟨hreg, hpool⟩ : v.registry = false ∧ v.pool = false := hreq
    cases m' with
    | registry => simp [View.holds, hreg] at hheld
    | pool => simp [View.holds, hpool] at hheld
  | pool =>
    have hpool : v.pool = false := hreq
    cases m' with
    | registry => exact Nat.zero_lt_one
    | pool => simp [View.holds, hpool] at hheld

/-- Mutexes are sought in the order of their ranks. -/
theorem Kept.rising (h : Kept config p) {q : Party} {m m' : Mutex} (hs : Seeks p q m)
    (hh : Holds p q m') : rank m' < rank m := by
  have hord := h.ordering (not_returned hs)
  have hbelieves := (hord.agreed.assigned q m').mp hh
  cases q with
  | main =>
    obtain ⟨next, hmain⟩ := seeks_main hs
    exact (hord.main _ hmain).1 m' hbelieves
  | task n =>
    obtain ⟨t, hn, ho⟩ := seeks_task hs
    obtain ⟨u, hu, hheld⟩ := hbelieves
    obtain rfl : t = u := Option.some.inj (hn.symm.trans hu)
    exact rank_of_requires (requires_of_safe (hord.tasks n t hn) ho) hheld

theorem Kept.unfinished (h : Kept config p) (hret : p.main ≠ .returned) {q : Party} {m : Mutex}
    (hh : Holds p q m) : Unfinished p q := by
  have hord := h.ordering hret
  have hbelieves := (hord.agreed.assigned q m).mp hh
  cases q with
  | main => exact hord.held m hbelieves
  | task n =>
    obtain ⟨t, hn, hheld⟩ := hbelieves
    refine ⟨t, hn, ?_⟩
    rw [← Bool.not_eq_false]
    intro hend
    obtain ⟨outcome, hc⟩ := code_of_not_inFlight hend
    have hcode := hord.tasks n t hn
    rw [hc] at hcode
    cases m
    · simp [View.holds, hcode.1.registry] at hheld
    · simp [View.holds, hcode.1.pool] at hheld

/-- Waiting follows the order of the ranks. -/
theorem Kept.ordered (h : Kept config p) : Ordered rank 1 (Holds p) (Waits p) where
  held q m hw := by
    obtain ⟨k, hk⟩ := Option.ne_none_iff_exists'.mp hw.2
    cases hheld : p.held m with
    | true => exact ⟨.main, by simp [Holds, owner, hheld]⟩
    | false => exact ⟨.task k, by simp [Holds, owner, hheld, hk]⟩
  rising q m m' hw hh := h.rising hw.1 hh
  bounded m := by cases m <;> simp [rank]

/-- Nobody waits for the map while holding the pool, nobody waits for a mutex of its own, and
where anybody waits, somebody holds a mutex, is not done, and does not wait. -/
theorem deadlock_free (h : (process config lib).Reachable p) :
    (∀ q, Seeks p q .registry → ¬ Holds p q .pool) ∧ (∀ q m, Seeks p q m → ¬ Holds p q m) ∧
    ∀ q m, Waits p q m → ∃ q' m', Holds p q' m' ∧ Unfinished p q' ∧ ∀ k, ¬ Waits p q' k := by
  have hkept := kept_of_reachable h
  refine ⟨fun q hs hh => ?_, fun q m hs hh => ?_, fun q m hw => ?_⟩
  · simpa [rank] using hkept.rising hs hh
  · exact lt_irrefl _ (hkept.rising hs hh)
  · obtain ⟨q', m', hh, hnot⟩ := hkept.ordered.runner hw
    exact ⟨q', m', hh, hkept.unfinished (not_returned hw.1) hh, hnot⟩

/-- A `list` holds the map when the SSH server ends and `main` wants to have it. -/
def stoppedDuringList : List Action :=
  .server (.request .list) :: .server (.run 0 {}) :: [.finish .sshFinished]

abbrev sampleProcess : System Process Action := process sampleConfig sampleLibraries

theorem deadlock_free_duringList :
    Waits (sampleProcess.after stoppedDuringList) .main .registry ∧
    ∃ q' m', Holds (sampleProcess.after stoppedDuringList) q' m' ∧
      Unfinished (sampleProcess.after stoppedDuringList) q' ∧
      ∀ k, ¬ Waits (sampleProcess.after stoppedDuringList) q' k := by
  have hseeks : Seeks (sampleProcess.after stoppedDuringList) .main .registry := by decide +kernel
  have hlocked : (sampleProcess.after stoppedDuringList).server.shared.locks .registry ≠ none := by
    decide +kernel
  have hw : Waits (sampleProcess.after stoppedDuringList) .main .registry := ⟨hseeks, hlocked⟩
  exact ⟨hw, (deadlock_free (.after stoppedDuringList)).2.2 .main .registry hw⟩

end Runs

end Warlock.DeadlockFreedom
