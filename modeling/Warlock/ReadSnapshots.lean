import Warlock.CapacitySafety
import Warlock.QuietHandlers
import Warlock.TaskViews

/-!
# What reading requests answer

Between taking the mutex of the map and giving it back a task sees one map, whatever it awaits in
between. So `list` and `get` answer from one map: what they say of an entry held of that map, and
an instance they asked was asked while the map was still the same. The readiness probe gives the
exact figures of one map, or leaves them out because another task had the mutex.
-/

namespace Warlock.ReadSnapshots
open ApplicationState AssociationMaps CapacitySafety EffectPrograms Ledgers MachineIntegers
  QuietHandlers ReservationDiscipline ReservationProtocol Server ServerInvariant ServerOperations
  SshSession TaskViews TransitionSystems VmHandlers VmIdentifiers

/-- What a task has read since it took the mutex, and what instances have told it since. -/
structure Reading where
  holds : Bool := false
  seen : Option ((sec : VmRegistry.Section) × sec.Reply) := none
  asked : List (Uuid × Option InstanceInfo) := []
  refused : Bool := false

def noteReading (v : Reading) : (o : Op) → Reply o → Reading
  | .lock .registry, _ | .tryLock .registry, true =>
    { v with holds := true, seen := none, asked := [] }
  | .tryLock .registry, false => { v with refused := true }
  | .unlock .registry, _ => { v with holds := false }
  | .vms sec, r => { v with seen := some ⟨sec, r⟩, asked := [] }
  | .describeInstance id, info =>
    if v.holds then { v with asked := (id, info) :: v.asked } else v
  | _, _ => v

def reading (_ : Request) : Discipline Reply Choice Reading where
  requires _ _ := True
  allows _ _ _ _ := True
  note o _ r v := noteReading v o r
  considers _ _ _ := True
  leave _ v := v

/-- What an entry is listed as, given what its instance has said. -/
def summaryOf (e : Uuid × VmEntry) (state : Option InstanceState) : VmSummary :=
  ⟨e.1, e.2.res.vcpus, e.2.res.memoryMb, VmEntry.status e.2, state, e.2.res.guestIp⟩

/-- The summary of an entry, whose instance is asked exactly if the VM runs. -/
inductive Summarizes (asked : Uuid → Option InstanceInfo → Prop) : Uuid × VmEntry → VmSummary → Prop
  | creating (id : Uuid) (r : VmResources) :
    Summarizes asked (id, .creating r) (summaryOf (id, .creating r) none)
  | running (id : Uuid) (r : VmResources) (info : Option InstanceInfo) (h : asked id info) :
    Summarizes asked (id, .running r) (summaryOf (id, .running r) (info.map (·.state)))

/-- What `get` answers, given the entry and what its instance has said. -/
inductive Describes (asked : Option InstanceInfo → Prop) : Option VmEntry → Answer → Prop
  | absent : Describes asked none (.failed (.notFound "VM not found"))
  | creating (r : VmResources) :
    Describes asked (some (.creating r)) (.failed (.conflict "VM is still being created"))
  | running (r : VmResources) (desc : InstanceInfo) (h : asked (some desc)) :
    Describes asked (some (.running r)) (.described desc)
  | silent (r : VmResources) (h : asked none) :
    Describes asked (some (.running r)) (.failed .internalServerError)

theorem Summarizes.mono {asked asked' : Uuid → Option InstanceInfo → Prop} {e : Uuid × VmEntry}
    {summary : VmSummary} (h : Summarizes asked e summary)
    (ha : ∀ id info, asked id info → asked' id info) : Summarizes asked' e summary := by
  cases h with
  | creating id r => exact .creating id r
  | running id r info h => exact .running id r info (ha id info h)

theorem Describes.mono {asked asked' : Option InstanceInfo → Prop} {entry : Option VmEntry}
    {answer : Answer} (h : Describes asked entry answer) (ha : ∀ info, asked info → asked' info) :
    Describes asked' entry answer := by
  cases h with
  | absent => exact .absent
  | creating r => exact .creating r
  | running r desc h => exact .running r desc (ha _ h)
  | silent r h => exact .silent r (ha _ h)

variable (config : AppConfig)

def readyWith (vms : Option VmInfo) : Answer :=
  .ready ⟨config.capacity.memoryMb, config.capacity.allocatableMemoryMb, config.capacity.vcpus, vms,
    config.jailer.copyStrategy.name⟩

/-- The answer follows from what the task has read. -/
def Tells : Request → Answer → Reading → Prop
  | .list, answer, v => ∃ es summaries, v.seen = some ⟨.entries, es⟩ ∧ answer = .listed summaries ∧
      List.Forall₂ (Summarizes fun id info => (id, info) ∈ v.asked) es summaries
  | .get id, answer, v => ∃ entry, v.seen = some ⟨.get id, entry⟩ ∧
      Describes (fun info => (id, info) ∈ v.asked) entry answer
  | .ready, answer, v => (∃ info, v.seen = some ⟨.info, info⟩ ∧ answer = readyWith config (some info)) ∨
      v.refused = true ∧ answer = readyWith config none
  | _, _, _ => True

/-- The requests that change nothing. -/
def Reads : Request → Prop
  | .list | .get _ | .ready => True
  | .create _ | .delete _ | .session => False

def tells (request : Request) : Outcome → Reading → Prop
  | .answered answer, v => Tells config request answer v
  | .session _ _, _ => ¬ Reads request
  | .dropped, _ => True

variable {config} {lib : Libraries} {request : Request} {v w : Reading} {id : Uuid}

section Handlers

variable {α : Type} {post : α → Reading → Prop} {exit : Reading → Prop}

theorem ensures_withRegistry {body : Async α} (h : body.Ensures (reading request)
      (fun a w => post a { w with holds := false }) (fun _ => True)
      { v with holds := true, seen := none, asked := [] }) :
    (withLock .registry body).Ensures (reading request) post (fun _ => True) v := by
  have hunlock (w : Reading) (Q : Reading → Prop) (hQ : Q { w with holds := false }) :
      (Code.perform (.unlock .registry)).Safe (reading request) (fun _ => Q) w :=
    ⟨trivial, fun _ _ _ => hQ⟩
  refine Handler.Ensures.bind (Handler.ensures_await (o := Op.lock .registry) trivial
    (fun _ _ _ => ?_) fun _ => trivial)
  refine Handler.Ensures.owning (Handler.Ensures.bind (Handler.ensures_await (o := Op.resume) trivial
    (fun _ _ _ => ?_) fun _ => hunlock _ _ trivial))
  exact h.mono (fun a w hw => hunlock w (post a) hw) fun w _ => hunlock w _ trivial

theorem ensures_read {sec : VmRegistry.Section} {post : sec.Reply → Reading → Prop}
    (h : ∀ r, post r { v with seen := some ⟨sec, r⟩, asked := [] }) :
    (inSection sec).Ensures (reading request) post exit v :=
  ensures_inSection sec trivial fun _ r _ => h r

theorem ensures_describe {post : Option InstanceInfo → Reading → Prop} (hv : v.holds = true)
    (h : ∀ info, post info { v with asked := (id, info) :: v.asked }) :
    (Async.await (.describeInstance id)).Ensures (reading request) post (fun _ => True) v := by
  refine Handler.ensures_await (o := Op.describeInstance id) trivial (fun _ info _ => ?_)
    fun _ => trivial
  simpa [reading, noteReading, hv] using h info

/-- Every entry is summarized, in order, and what was asked before stays known. -/
theorem ensures_summarize (es : List (Uuid × VmEntry)) (v : Reading) (hv : v.holds = true) :
    (summarize es).Ensures (reading request) (fun summaries w =>
      w.seen = v.seen ∧ (∀ q ∈ v.asked, q ∈ w.asked) ∧
        List.Forall₂ (Summarizes fun id info => (id, info) ∈ w.asked) es summaries)
      (fun _ => True) v := by
  induction es generalizing v with
  | nil => exact Handler.ensures_pure ⟨rfl, fun _ hq => hq, .nil⟩
  | cons e rest ih =>
    obtain ⟨id, r | r⟩ := e
    · refine Handler.Ensures.bind (Handler.ensures_pure ?_)
      refine Handler.Ensures.bind ((ih v hv).mono (fun summaries w hw => ?_) fun _ hw => hw)
      obtain ⟨hseen, hasked, hrest⟩ := hw
      exact Handler.ensures_pure ⟨hseen, hasked, .cons (.creating id r) hrest⟩
    · refine Handler.Ensures.bind (ensures_describe hv fun info => ?_)
      refine Handler.Ensures.bind ((ih { v with asked := (id, info) :: v.asked } hv).mono
        (fun summaries w hw => ?_) fun _ hw => hw)
      obtain ⟨hseen, hasked, hrest⟩ := hw
      refine Handler.ensures_pure ⟨hseen, fun q hq => hasked q (.tail _ hq), ?_⟩
      exact .cons (.running id r info (hasked _ (.head _))) hrest

theorem ensures_list : list.Ensures (reading request) (fun answer w => Tells config .list answer w)
    (fun _ => True) v := by
  refine ensures_withRegistry (Handler.Ensures.bind (ensures_read fun es => ?_))
  refine Handler.Ensures.bind ((ensures_summarize es _ rfl).mono (fun summaries w hw => ?_)
    fun _ hw => hw)
  exact Handler.ensures_pure ⟨es, summaries, hw.1, rfl, hw.2.2⟩

theorem ensures_get : (VmHandlers.get id).Ensures (reading request)
    (fun answer w => Tells config (.get id) answer w) (fun _ => True) v := by
  refine ensures_withRegistry (Handler.Ensures.bind (ensures_read fun entry => ?_))
  rcases entry with _ | r | r
  · exact Handler.ensures_pure ⟨none, rfl, .absent⟩
  · exact Handler.ensures_pure ⟨some (.creating r), rfl, .creating r⟩
  · refine Handler.Ensures.bind (ensures_describe rfl fun info => ?_)
    cases info with
    | none => exact Handler.ensures_pure ⟨some (.running r), rfl, .silent r (.head _)⟩
    | some desc => exact Handler.ensures_pure ⟨some (.running r), rfl, .running r desc (.head _)⟩

theorem ensures_ready : (ready config).Ensures (reading request)
    (fun answer w => Tells config .ready answer w) (fun _ => True) v := by
  refine Handler.Ensures.bind (Handler.ensures_perform (o := Op.tryLock .registry) trivial
    fun _ acquired _ => ?_)
  cases acquired with
  | false => exact Handler.ensures_pure (.inr ⟨rfl, rfl⟩)
  | true =>
    refine Handler.Ensures.bind (ensures_read fun info => ?_)
    refine Handler.Ensures.bind (Handler.ensures_perform (o := Op.unlock .registry) trivial
      fun _ _ _ => ?_)
    exact Handler.Ensures.bind (Handler.ensures_pure (Handler.ensures_pure (.inl ⟨info, rfl, rfl⟩)))

theorem safe_unread (h : ¬ Reads request) (p : Program Reply Outcome) (v : Reading) :
    p.Safe (reading request) (tells config request) v := by
  refine Program.safe_of_free (fun _ _ => trivial) (fun outcome v => ?_) p v
  cases outcome with
  | answered answer =>
    cases request with
    | list | get | ready => exact absurd trivial h
    | create | delete | session => trivial
  | dropped => trivial
  | session => exact h

theorem safe_reading (config : AppConfig) (request : Request) (v : Reading) :
    (handlerOf config request).Safe (reading request) (tells config request) v := by
  have hanswering {x : Async Answer} (h : x.Ensures (reading request)
      (fun answer => Tells config request answer) (fun _ => True) v) :
      (answering x).Safe (reading request) (tells config request) v :=
    h _ _ _ (fun _ _ => trivial) fun _ _ hw => hw
  cases request with
  | list => exact hanswering ensures_list
  | get id => exact hanswering ensures_get
  | ready => exact hanswering ensures_ready
  | create | delete | session => exact safe_unread (by simp [Reads]) _ v

end Handlers

section Histories

variable {past : History} {s s' : State} {n k : ℕ} {t t' : HandlerTask} {l l' : Standpoint}
  {e : Event} {o : Op} {c : Choice} {sh : Shared} {reply : Reply o} {vms : VmMap}
  {f : ℕ → Reading} {info : Option InstanceInfo}

/-- Task `n` has asked the instance while the map was `vms`, and this is what it said. -/
def Asked (past : History) (n : ℕ) (vms : VmMap) (id : Uuid) (info : Option InstanceInfo) : Prop :=
  ∃ a c t, (a, Event.run n c) ∈ past ∧ a.tasks[n]? = some t ∧
    t.nextOp = some (.describeInstance id) ∧ a.shared.vms = vms ∧
    info = if c.succeeds then some c.info else none

theorem Asked.tail (h : Asked past n vms id info) (p : State × Event) :
    Asked (p :: past) n vms id info := by
  obtain ⟨a, c, t, hp, h⟩ := h
  exact ⟨a, c, t, .tail _ hp, h⟩

/-- The map that a section leaves. -/
def after (config : AppConfig) (a : State) (sec : VmRegistry.Section) : VmMap :=
  (sec.run config.capacity a.shared.vms).1

/-- What a task has read, it has read of one map, which nobody else has changed since. -/
structure Seen (config : AppConfig) (past : History) (s : State) (n : ℕ) (l : Standpoint)
    (v : Reading) : Prop where
  holds : v.holds = l.registry
  seen : ∀ sec r, v.seen = some ⟨sec, r⟩ → ∃ a, Performed past n (.vms sec) a ∧
    r = (sec.run config.capacity a.shared.vms).2 ∧
    (v.holds = true → s.shared.vms = after config a sec) ∧
    ∀ q ∈ v.asked, Asked past n (after config a sec) q.1 q.2
  refused : v.refused = true →
    ∃ a k, Performed past n (.tryLock .registry) a ∧ a.shared.locks .registry = some k

/-- Nothing that task `n` has read changes in a step in which it does nothing. -/
theorem Seen.other (h : Seen config past s n l v)
    (hvms : l.registry = true → s'.shared.vms = s.shared.vms) (p : State × Event) :
    Seen config (p :: past) s' n l v where
  holds := h.holds
  seen sec r hseen := by
    obtain ⟨a, hp, hr, hheld, hasked⟩ := h.seen sec r hseen
    refine ⟨a, hp.tail p, hr, fun hv => ?_, fun q hq => (hasked q hq).tail p⟩
    rw [hvms (h.holds ▸ hv)]
    exact hheld hv
  refused hrefused := by
    obtain ⟨a, k, hp, hlock⟩ := h.refused hrefused
    exact ⟨a, k, hp.tail p, hlock⟩

/-- A step that leaves the reading and the map as they are. -/
theorem Seen.idle (h : Seen config past s n l v) (hl : l'.registry = l.registry)
    (hvms : s'.shared.vms = s.shared.vms) (p : State × Event) :
    Seen config (p :: past) s' n l' v := by
  have hother : Seen config (p :: past) s' n l v := h.other (fun _ => hvms) p
  exact ⟨hother.holds.trans hl.symm, hother.seen, hother.refused⟩

theorem Seen.took (h : Seen config past s n l v) (hl : l'.registry = true) (p : State × Event) :
    Seen config (p :: past) s' n l' { v with holds := true, seen := none, asked := [] } where
  holds := hl.symm
  seen sec r hseen := by simp at hseen
  refused hrefused := by
    obtain ⟨a, k, hp, hlock⟩ := h.refused hrefused
    exact ⟨a, k, hp.tail p, hlock⟩

theorem Seen.section {sec : VmRegistry.Section} (h : Seen config past s n l v)
    (hn : s.tasks[n]? = some t) (ho : t.nextOp = some (.vms sec)) (hl : l'.registry = l.registry)
    (hvms : s'.shared.vms = after config s sec) :
    Seen config ((s, .run n c) :: past) s' n l'
      { v with seen := some ⟨sec, (sec.run config.capacity s.shared.vms).2⟩, asked := [] } where
  holds := h.holds.trans hl.symm
  seen sec' r hseen := by
    obtain ⟨rfl, rfl⟩ := by simpa using hseen
    exact ⟨s, .now hn ho, rfl, fun _ => hvms, by simp⟩
  refused hrefused := by
    obtain ⟨a, k, hp, hlock⟩ := h.refused hrefused
    exact ⟨a, k, hp.tail _, hlock⟩

theorem Seen.step (h : Seen config past s n t.ledger.view v) (hn : s.tasks[n]? = some t)
    (ho : t.nextOp = some o) (hexec : exec config n c s.shared o = some (s'.shared, some reply)) :
    Seen config ((s, .run n c) :: past) s' n (noteView t.ledger.view o reply)
      (noteReading v o reply) := by
  have hframe := exec_frame hexec
  have hquiet (hl : ∀ m, o ≠ .lock m) (ht : ∀ m, o ≠ .tryLock m) (hu : ∀ m, o ≠ .unlock m) :
      (noteView t.ledger.view o reply).registry = t.ledger.view.registry :=
    holds_noteView hl ht hu .registry
  have hsame (hsec : ∀ sec, o ≠ .vms sec) :
      Seen config ((s, .run n c) :: past) s' n t.ledger.view v := h.idle rfl (hframe.vms hsec) _
  have hpool (b : Bool) : (t.ledger.view.set .pool b).registry = t.ledger.view.registry := rfl
  cases o with
  | vms sec =>
    obtain ⟨hsh, rfl⟩ := by simpa [exec] using hexec
    exact h.section hn ho (hquiet (by simp) (by simp) (by simp)) (by rw [← hsh]; rfl)
  | lock m =>
    cases m with
    | registry => exact h.took rfl _
    | pool => exact h.idle (hpool _) (hframe.vms (by simp)) _
  | tryLock m =>
    cases m with
    | pool =>
      cases reply with
      | true => exact h.idle (hpool true) (hframe.vms (by simp)) _
      | false => exact hsame (by simp)
    | registry =>
      cases reply with
      | true => exact h.took rfl _
      | false =>
        have hsame := hsame (by simp)
        refine ⟨hsame.holds, hsame.seen, fun _ => ?_⟩
        have hheld : s.shared.locks .registry ≠ none := by
          intro hfree
          simp [exec, hfree] at hexec
        obtain ⟨k, hk⟩ := Option.ne_none_iff_exists'.mp hheld
        exact ⟨s, k, .now hn ho, hk⟩
  | unlock m =>
    cases m with
    | pool => exact h.idle (hpool _) (hframe.vms (by simp)) _
    | registry =>
      have hsame := hsame (by simp)
      refine ⟨rfl, fun sec r hseen => ?_, hsame.refused⟩
      obtain ⟨a, hp, hr, _, hasked⟩ := hsame.seen sec r hseen
      exact ⟨a, hp, hr, by simp [noteReading], hasked⟩
  | describeInstance id =>
    have hsame := hsame (by simp)
    change Seen _ _ _ _ _ (if v.holds then { v with asked := (id, reply) :: v.asked } else v)
    split
    · rename_i hv
      refine ⟨hsame.holds, fun sec r hseen => ?_, hsame.refused⟩
      obtain ⟨a, hp, hr, hheld, hasked⟩ := hsame.seen sec r hseen
      refine ⟨a, hp, hr, hheld, List.forall_mem_cons.mpr ⟨?_, hasked⟩⟩
      obtain ⟨hsh, hreply⟩ := by simpa [exec] using hexec
      refine ⟨s, c, t, .head _, hn, ho, ?_, hreply.symm⟩
      rw [hsh]
      exact hheld hv
    · exact hsame
  | _ => exact h.idle (hquiet (by simp) (by simp) (by simp)) (hframe.vms (by simp)) _

/-- While a task holds the mutex, the steps of the others leave the map. -/
theorem vms_of_held (hs : Sound config s) (hk : s.tasks[k]? = some t)
    (hreg : t.ledger.view.registry = true) (he : step config lib s e = some s')
    (hne : e.subject ≠ some k) : s'.shared.vms = s.shared.vms := by
  cases stepped he with
  | run n c r o may exit next l sh reply hn hexec =>
    refine (exec_frame hexec).vms fun sec hsec => ?_
    subst hsec
    have hheld := (hs.protocol.holder .registry n).mpr
      ⟨_, siteOf_task hn, (requires_of_nextOp hs hn rfl).1⟩
    have hheld' := (hs.protocol.holder .registry k).mpr ⟨_, siteOf_task hk, hreg⟩
    have hnk : n = k := Option.some.inj (hheld.symm.trans hheld')
    exact hne (by rw [← hnk]; rfl)
  | panic n c r o may exit next l sh hn hexec =>
    refine (exec_frame hexec).vms fun sec hsec => ?_
    subst hsec
    simp [exec] at hexec
  | _ => rfl

/-- What each task has read. -/
def AllSeen (config : AppConfig) (past : History) (s : State) (f : ℕ → Reading) : Prop :=
  ∀ (n : ℕ) (t : HandlerTask), s.tasks[n]? = some t → Seen config past s n t.ledger.view (f n)

theorem AllSeen.move (h : AllSeen config past s f) (hs : Sound config s)
    (hn : s.tasks[n]? = some t) (he : step config lib s e = some ⟨sh, s.tasks.set n t'⟩)
    (hsub : e.subject = some n)
    (hv : Seen config ((s, e) :: past) ⟨sh, s.tasks.set n t'⟩ n t'.ledger.view v) :
    AllSeen config ((s, e) :: past) ⟨sh, s.tasks.set n t'⟩ (Function.update f n v) := by
  intro k u hk
  rcases (getElem?_set hn).mp hk with ⟨rfl, rfl⟩ | ⟨hkn, hold⟩
  · rwa [Function.update_self]
  · rw [Function.update_of_ne hkn]
    refine (h k u hold).other (fun hreg => vms_of_held hs hold hreg he ?_) _
    simpa [hsub] using Ne.symm hkn

theorem tracking_reading : Tracking config lib (fun _ _ => True) reading (tells config)
    (AllSeen config) where
  initial := ⟨fun _ => {}, fun n t hn => by simp at hn⟩
  request past s f r hr hk := by
    refine ⟨{}, safe_reading config r {}, fun k u hu => ?_⟩
    rcases getElem?_request.mp hu with ⟨rfl, rfl⟩ | hu
    · rw [Function.update_self]
      exact ⟨rfl, by simp, by simp⟩
    · have hlt := (List.getElem?_eq_some_iff.mp hu).1
      rw [Function.update_of_ne hlt.ne]
      exact (hk k u hu).other (fun _ => by rfl) _
  callback past s f n cb r self result l hr hn hk hends := by
    have hs := sound_of_reachable (System.Run.reachable hr)
    have he : step config lib s (.callback n cb) =
        some { s with tasks := s.tasks.set n ⟨r, calledBack (callbackCode lib self cb), l⟩ } := by
      simp [step, hn]
    exact ⟨f n, safe_unread hends _ _, hk.move hs hn he rfl
      ((hk n _ hn).other (fun _ => by rfl) _)⟩
  run past s f n c r o may exit next l sh reply hr _ hn hexec hk _ _ := by
    have hs := sound_of_reachable (System.Run.reachable hr)
    have he : step config lib s (.run n c) =
        some ⟨sh, s.tasks.set n ⟨r, next reply, l.note c o reply⟩⟩ := by simp [step, hn, hexec]
    exact ⟨trivial, hk.move hs hn he rfl ((hk n _ hn).step hn rfl hexec)⟩
  leave past s f n e r o may exit next l hr _ hn hmay hk _ := by
    have hs := sound_of_reachable (System.Run.reachable hr)
    have he : step config lib s (.leave n e) =
        some { s with tasks := s.tasks.set n ⟨r, exit e, l.leave e⟩ } := by simp [step, hn, hmay]
    refine ⟨trivial, hk.move hs hn he rfl ?_⟩
    have hl : (l.leave e).view.registry = l.view.registry := by cases e <;> rfl
    exact (hk n _ hn).idle hl (by rfl) _

/-- The answer is what one map says, with what the instances of that map have answered while it
was the same. -/
inductive Truthful (config : AppConfig) (past : History) (n : ℕ) : Request → Answer → Prop
  | list (a : State) (summaries : List VmSummary) (h : Performed past n (.vms .entries) a)
      (hall : List.Forall₂ (Summarizes (Asked past n a.shared.vms))
        (a.shared.vms.entries.map fun e => (e.1, e.2)) summaries) :
      Truthful config past n .list (.listed summaries)
  | get (a : State) (id : Uuid) (answer : Answer) (h : Performed past n (.vms (.get id)) a)
      (hdescribes : Describes (Asked past n a.shared.vms id) (a.shared.vms.lookup id) answer) :
      Truthful config past n (.get id) answer
  | ready (a : State) (info : VmInfo) (h : Performed past n (.vms .info) a)
      (hcount : info.count = a.shared.vms.entries.length)
      (hvcpus : info.allocatedVcpus.toNat = total CapacitySafety.vcpus a.shared.vms)
      (hmemory : info.allocatedMemoryMb.toNat = total memoryMb a.shared.vms) :
      Truthful config past n .ready (readyWith config (some info))
  | busy (a : State) (k : ℕ) (h : Performed past n (.tryLock .registry) a)
      (hk : a.shared.locks .registry = some k) (hother : k ≠ n) :
      Truthful config past n .ready (readyWith config none)

/-- A task tries to lock the map only while it does not hold it itself. -/
theorem holder_ne {a : State} {k : ℕ} (h : (server config lib).Run past s)
    (hp : Performed past n (.tryLock .registry) a) (hk : a.shared.locks .registry = some k) :
    k ≠ n := by
  rintro rfl
  have hs := sound_of_reachable (reachable_of_performed h hp)
  obtain ⟨c, t, _, hn, ho⟩ := hp
  obtain ⟨v, hv, hheld⟩ := (hs.protocol.holder .registry k).mp hk
  obtain rfl := Option.some.inj ((siteOf_task hn).symm.trans hv)
  have hreq : t.ledger.view.registry = false ∧ t.ledger.view.pool = false :=
    requires_of_nextOp hs hn ho
  exact absurd (hheld.symm.trans hreq.1) (by simp)

/-- What a reading request answers is true of one map. -/
theorem answers_truthful (h : (server config lib).Run past s) (hn : s.tasks[n]? = some t)
    (hreads : Reads t.request) {answer : Answer} (hret : t.code = .ret (.answered answer)) :
    Truthful config past n t.request answer := by
  obtain ⟨f, hf, hk⟩ := tracking_reading.views_of_run h (by simp [System.Meets])
  have hseen := hk n t hn
  have htells : Tells config t.request answer (f n) := by
    have hsafe := hf n t hn
    rw [hret] at hsafe
    exact hsafe
  cases hreq : t.request with
  | list =>
    rw [hreq] at htells
    obtain ⟨es, summaries, hread, rfl, hall⟩ := htells
    obtain ⟨a, hp, rfl, _, hasked⟩ := hseen.seen _ _ hread
    exact .list a summaries hp (hall.imp fun _ _ hs => hs.mono fun id info hm => hasked _ hm)
  | get id =>
    rw [hreq] at htells
    obtain ⟨entry, hread, hdescribes⟩ := htells
    obtain ⟨a, hp, rfl, _, hasked⟩ := hseen.seen _ _ hread
    exact .get a id answer hp (hdescribes.mono fun info hm => hasked _ hm)
  | ready =>
    rw [hreq] at htells
    rcases htells with ⟨info, hread, rfl⟩ | ⟨hrefused, rfl⟩
    · obtain ⟨a, hp, rfl, _, hasked⟩ := hseen.seen _ _ hread
      have hw := withinCapacity_of_reachable (reachable_of_performed h hp)
      exact .ready a _ hp rfl hw.allocatedVcpus_exact.2 hw.allocatedMemory_exact
    · obtain ⟨a, k, hp, hlock⟩ := hseen.refused hrefused
      exact .busy a k hp hlock (holder_ne h hp hlock)
  | create | delete | session =>
    rw [hreq] at hreads
    exact hreads.elim

/-- What task `n` has listed. -/
def listingOf (s : State) (n : ℕ) : Option (List VmSummary) :=
  match s.tasks[n]? with
  | some ⟨.list, .ret (.answered (.listed summaries)), _⟩ => some summaries
  | _ => none

theorem task_of_listing {summaries : List VmSummary} (h : listingOf s n = some summaries) :
    ∃ l, s.tasks[n]? = some ⟨.list, .ret (.answered (.listed summaries)), l⟩ := by
  unfold listingOf at h
  split at h
  · rename_i summaries' l hn
    exact ⟨l, Option.some.inj h ▸ hn⟩
  · simp at h

/-- A VM is made, its instance does not answer, and the list says so. -/
def listsSilent : List Event :=
  sampleCreate ++ .request .list :: runs 1 3 ++ [.run 1 { succeeds := false }, .run 1 {}]

theorem answers_truthful_listsSilent : Truthful sampleConfig (sampleServer.historyOf listsSilent) 1
    .list (.listed [⟨1, 1, 128, "running", none, some "172.16.0.2"⟩]) := by
  have hrun : sampleServer.Run (sampleServer.historyOf listsSilent)
      (sampleServer.endOf listsSilent) := System.run_follow listsSilent
  have hlisting : listingOf (sampleServer.endOf listsSilent) 1 =
      some [⟨1, 1, 128, "running", none, some "172.16.0.2"⟩] := by decide +kernel
  obtain ⟨l, hn⟩ := task_of_listing hlisting
  exact answers_truthful hrun hn trivial rfl

end Histories

end Warlock.ReadSnapshots
