import Warlock.Ledgers
import Warlock.SshSession
import Warlock.TransitionSystems
import Warlock.VmHandlers

/-!
# The server as a transition system

Any number of tasks run interleaved, one operation a step. A task is the handler of one
HTTP request or one SSH session. Its ledger is auxiliary: it records what the operations the
task has done so far left in its locals, and no operation reads it.
-/

namespace Warlock.Server
open ApplicationState EffectPrograms Ledgers ServerOperations SshSession TransitionSystems
  VmHandlers VmIdentifiers

inductive Request
  | create (body : Option CreateVmRequest)
  | delete (id : Uuid)
  | get (id : Uuid)
  | list
  | ready
  | session

structure HandlerTask where
  request : Request
  code : Program Reply Outcome
  ledger : Ledger := {}

def HandlerTask.inFlight (t : HandlerTask) : Bool :=
  match t.code with
  | .ret _ => false
  | .op _ _ _ _ => true

def HandlerTask.nextOp (t : HandlerTask) : Option Op :=
  match t.code with
  | .ret _ => none
  | .op o _ _ _ => some o

structure State where
  shared : Shared := {}
  tasks : List HandlerTask := []

inductive Event
  | request (r : Request)
  | callback (n : ℕ) (cb : Callback)
  | run (n : ℕ) (c : Choice)
  | leave (n : ℕ) (e : Exit)

/-- The task that an event is a step of. -/
def Event.subject : Event → Option ℕ
  | .request _ => none
  | .callback n _ | .run n _ | .leave n _ => some n

def answering (x : Async Answer) : Program Reply Outcome :=
  x (.ret .dropped) fun a => .ret (.answered a)

def calledBack (x : Async Returned) : Program Reply Outcome :=
  x (.ret .dropped) fun r => .ret (.session r.1 r.2)

def handlerOf (config : AppConfig) : Request → Program Reply Outcome
  | .create body => answering (create config body)
  | .delete id => answering (delete config id)
  | .get id => answering (VmHandlers.get id)
  | .list => answering list
  | .ready => answering (ready config)
  | .session => .ret (.session {} .done)

def step (config : AppConfig) (lib : Libraries) (s : State) : Event → Option State
  | .request r => some { s with tasks := s.tasks ++ [{ request := r, code := handlerOf config r }] }
  | .callback n cb => match s.tasks[n]? with
    | some ⟨r, .ret (.session self _), l⟩ =>
      some { s with tasks := s.tasks.set n ⟨r, calledBack (callbackCode lib self cb), l⟩ }
    | _ => none
  | .run n c => match s.tasks[n]? with
    | some ⟨r, .op o _ exit next, l⟩ => match exec config n c s.shared o with
      | some (sh, some reply) => some ⟨sh, s.tasks.set n ⟨r, next reply, l.note c o reply⟩⟩
      | some (sh, none) => some ⟨sh, s.tasks.set n ⟨r, exit .panicked, l.leave .dropped⟩⟩
      | none => none
    | _ => none
  | .leave n e => match s.tasks[n]? with
    | some ⟨r, .op _ may exit _, l⟩ =>
      if may e then some { s with tasks := s.tasks.set n ⟨r, exit e, l.leave e⟩ } else none
    | _ => none

/-- The serving phase, from a fresh pool and an empty map. -/
def server (config : AppConfig) (lib : Libraries) : System State Event where
  initial := {}
  step := step config lib

/-- The five things that can happen in one step. -/
inductive Stepped (config : AppConfig) (lib : Libraries) (s : State) : Event → State → Prop
  | request (r : Request) : Stepped config lib s (.request r)
      { s with tasks := s.tasks ++ [{ request := r, code := handlerOf config r }] }
  | callback (n : ℕ) (cb : Callback) (r : Request) (self : SessionHandler)
      (result : CallbackResult) (l : Ledger)
      (hn : s.tasks[n]? = some ⟨r, .ret (.session self result), l⟩) :
      Stepped config lib s (.callback n cb)
        { s with tasks := s.tasks.set n ⟨r, calledBack (callbackCode lib self cb), l⟩ }
  | run (n : ℕ) (c : Choice) (r : Request) (o : Op) (may : Exit → Bool)
      (exit : Exit → Program Reply Outcome) (next : Reply o → Program Reply Outcome) (l : Ledger)
      (sh : Shared) (reply : Reply o) (hn : s.tasks[n]? = some ⟨r, .op o may exit next, l⟩)
      (he : exec config n c s.shared o = some (sh, some reply)) :
      Stepped config lib s (.run n c) ⟨sh, s.tasks.set n ⟨r, next reply, l.note c o reply⟩⟩
  | panic (n : ℕ) (c : Choice) (r : Request) (o : Op) (may : Exit → Bool)
      (exit : Exit → Program Reply Outcome) (next : Reply o → Program Reply Outcome) (l : Ledger)
      (sh : Shared) (hn : s.tasks[n]? = some ⟨r, .op o may exit next, l⟩)
      (he : exec config n c s.shared o = some (sh, none)) :
      Stepped config lib s (.run n c) ⟨sh, s.tasks.set n ⟨r, exit .panicked, l.leave .dropped⟩⟩
  | leave (n : ℕ) (e : Exit) (r : Request) (o : Op) (may : Exit → Bool)
      (exit : Exit → Program Reply Outcome) (next : Reply o → Program Reply Outcome) (l : Ledger)
      (hn : s.tasks[n]? = some ⟨r, .op o may exit next, l⟩) (hmay : may e = true) :
      Stepped config lib s (.leave n e) { s with tasks := s.tasks.set n ⟨r, exit e, l.leave e⟩ }

theorem stepped {config : AppConfig} {lib : Libraries} {s s' : State} {e : Event}
    (h : step config lib s e = some s') : Stepped config lib s e s' := by
  cases e with
  | request r =>
    obtain rfl := Option.some.inj h
    exact .request r
  | callback n cb =>
    simp only [step] at h
    split at h
    · rename_i r self result l hn
      obtain rfl := Option.some.inj h
      exact .callback n cb r self result l hn
    · simp at h
  | run n c =>
    simp only [step] at h
    split at h
    · rename_i r o may exit next l hn
      split at h
      · rename_i sh reply he
        obtain rfl := Option.some.inj h
        exact .run n c r o may exit next l sh reply hn he
      · rename_i sh he
        obtain rfl := Option.some.inj h
        exact .panic n c r o may exit next l sh hn he
      · simp at h
    · simp at h
  | leave n e =>
    simp only [step] at h
    split at h
    · rename_i r o may exit next l hn
      split at h
      · rename_i hmay
        obtain rfl := Option.some.inj h
        exact .leave n e r o may exit next l hn hmay
      · simp at h
    · simp at h

/-- No handler is in flight; sessions rest between two callbacks. -/
def Idle (s : State) : Prop := ∀ (n : ℕ) (t : HandlerTask), s.tasks[n]? = some t → t.inFlight = false

instance (s : State) : Decidable (Idle s) :=
  decidable_of_iff (∀ t ∈ s.tasks, t.inFlight = false)
    ⟨fun h _ t hn => h t (List.mem_of_getElem? hn), fun h t ht => by
      obtain ⟨n, hn⟩ := List.mem_iff_getElem?.mp ht
      exact h n t hn⟩

theorem code_of_not_inFlight {t : HandlerTask} (h : t.inFlight = false) :
    ∃ outcome, t.code = .ret outcome := by
  unfold HandlerTask.inFlight at h
  split at h
  · exact ⟨_, ‹_›⟩
  · simp at h

/-- A handler that was dropped takes no further step. -/
theorem subject_ne_of_dropped {config : AppConfig} {lib : Libraries} {s s' : State} {e : Event}
    {n : ℕ} {t : HandlerTask} (h : step config lib s e = some s') (hn : s.tasks[n]? = some t)
    (hc : t.code = .ret .dropped) : e.subject ≠ some n := by
  intro hsub
  cases stepped h with
  | request => simp [Event.subject] at hsub
  | _ =>
    obtain rfl := Option.some.inj hsub
    simp_all

/-- A step of another task keeps a task as it is. -/
theorem task_kept {config : AppConfig} {lib : Libraries} {s s' : State} {e : Event} {n : ℕ}
    {t : HandlerTask} (h : step config lib s e = some s') (hne : e.subject ≠ some n)
    (hn : s.tasks[n]? = some t) : s'.tasks[n]? = some t := by
  have hset {k : ℕ} (u : HandlerTask) (hk : some k ≠ some n) :
      (s.tasks.set k u)[n]? = some t := by
    rw [List.getElem?_set_ne (by simpa using hk), hn]
  cases stepped h with
  | request => rw [List.getElem?_append_left (List.getElem?_eq_some_iff.mp hn).1, hn]
  | callback => exact hset _ hne
  | run => exact hset _ hne
  | panic => exact hset _ hne
  | leave => exact hset _ hne

/-- A task that keeps a discipline meets what it requires of the next operation. -/
theorem requires_of_safe {View : Type*} {D : Discipline Reply Choice View}
    {final : Outcome → View → Prop} {v : View} {t : HandlerTask} {o : Op}
    (h : t.code.Safe D final v) (ho : t.nextOp = some o) : D.requires o v := by
  unfold HandlerTask.nextOp at ho
  split at ho
  · simp at ho
  · rename_i o' may exit next hc
    obtain rfl : o' = o := Option.some.inj ho
    rw [hc] at h
    exact h.1

/-- Looking a task up after task `n` has moved. -/
theorem getElem?_set {tasks : List HandlerTask} {n k : ℕ} {t t' u : HandlerTask}
    (hn : tasks[n]? = some t) :
    (tasks.set n t')[k]? = some u ↔ k = n ∧ u = t' ∨ k ≠ n ∧ tasks[k]? = some u := by
  by_cases hk : k = n
  · subst hk
    have hlt := (List.getElem?_eq_some_iff.mp hn).1
    simp [hlt, eq_comm]
  · simp [hk, List.getElem?_set_ne (Ne.symm hk)]

/-- Looking a task up after a request has arrived. -/
theorem getElem?_request {tasks : List HandlerTask} {k : ℕ} {t u : HandlerTask} :
    (tasks ++ [t])[k]? = some u ↔ k = tasks.length ∧ u = t ∨ tasks[k]? = some u := by
  rcases Nat.lt_trichotomy k tasks.length with hk | rfl | hk
  · simp [List.getElem?_append_left hk, hk.ne]
  · simp [eq_comm]
  · have h₁ : (tasks ++ [t])[k]? = none := List.getElem?_eq_none (by simp; omega)
    have h₂ : tasks[k]? = none := List.getElem?_eq_none hk.le
    simp [h₁, h₂, hk.ne']

section Samples

/-- A host with 8 vCPUs and 4 GiB of memory. -/
def sampleConfig : AppConfig where
  capacity := ⟨4096, 8⟩
  jailer := ⟨2, "/usr/bin/firecracker", "/usr/bin/jailer", "/opt/vmlinux", "/opt/rootfs.ext4",
    "/srv/images", .sparse, "eth0"⟩
  gatewayClient := some ⟨"worker"⟩

/-- The one text that is read as an identifier is the display form of 1; no key can be read. -/
def sampleLibraries : Libraries where
  parseUuid text := if text = (display 1).toList then some 1 else none
  parsePublicKeyBase64 _ := none

abbrev sampleServer : System State Event := server sampleConfig sampleLibraries

def runs (n k : ℕ) : List Event := List.replicate k (.run n {})

/-- What `nft` echoes for the sample's rules. -/
def sampleEcho : RustText.Text := "# handle 1\n".toList

/-- The steps of task `n` from drawing `id` up to the insertion of its placeholder. -/
def reserving (n : ℕ) (id : Uuid) : List Event :=
  .run n { id := id } :: runs n 9 ++ List.replicate 2 (.run n { handle := 1, stdout := sampleEcho }) ++
    runs n 3

/-- The steps of `create` in task `n` that follow, up to the report to the gateway. -/
def launching (n : ℕ) : List Event := runs n 14

/-- A `create` as the first request, up to its report to the gateway. -/
def sampleCreate : List Event := .request (.create none) :: reserving 0 1 ++ launching 0

end Samples

end Warlock.Server
