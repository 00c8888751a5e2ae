import Warlock.QuietHandlers
import Warlock.ServerProcess

/-!
# What is still to be torn down

Whoever takes a VM out of the map owes its teardown: the process, the tap, the rules, the subnet,
the rootfs copy and the gateway's listing, in this order. A `delete` owes that of one VM, `main`
that of all VMs it finds. The agenda of a party lists what it still owes, and its code does
nothing else to what all tasks share.
-/

namespace Warlock.ShutdownAgendas
open ApplicationState EffectPrograms HostNetworking MachineIntegers QuietHandlers
  ReservationProtocol Server ServerOperations ServerProcess SshSession SubnetAddressing VmHandlers
  VmIdentifiers

/-- The operations that change the map, the pool, the host, the gateway or an instance. -/
def acts : Op → Bool
  | .vms s => s.subject.isSome
  | .allocate | .release _ | .newV4 | .command _ | .removeFile _ | .sdk _ _ | .dropInstance _
  | .registerVm _ _ _ | .deregisterVm _ => true
  | _ => false

def processOps (id : Uuid) : List Op := [.sdk id .stop, .dropInstance id]

def instanceOps (id : Uuid) : VmEntry → List Op
  | .running _ => processOps id
  | .creating _ => []

def ruleOps : Option NatHandles → List Op
  | some h => [.command (.deleteRule .postrouting h.postrouting),
      .command (.deleteRule .filter h.filter)]
  | none => []

def freeOps (r : VmResources) : List Op :=
  (r.tapName.map fun name => .command (.linkDel name)).toList ++ ruleOps r.natHandles ++
    (r.subnetIndex.map .release).toList ++ (r.rootfsCopy.map .removeFile).toList

theorem mem_freeOps {r : VmResources} {o : Op} : o ∈ freeOps r ↔
    (∃ name, r.tapName = some name ∧ o = .command (.linkDel name)) ∨
    (∃ h, r.natHandles = some h ∧ (o = .command (.deleteRule .postrouting h.postrouting) ∨
      o = .command (.deleteRule .filter h.filter))) ∨
    (∃ i, r.subnetIndex = some i ∧ o = .release i) ∨
    ∃ path, r.rootfsCopy = some path ∧ o = .removeFile path := by
  obtain ⟨_, _, rootfs, tap, index, handles, _, _, _⟩ := r
  cases rootfs <;> cases tap <;> cases index <;> cases handles <;> simp [freeOps, ruleOps, or_assoc]

/-- What is owed for a VM that has been taken out of the map. -/
def teardownOps (config : AppConfig) (id : Uuid) (e : VmEntry) : List Op :=
  instanceOps id e ++ freeOps e.res ++
    if config.gatewayClient.isSome then [.deregisterVm id] else []

def drainOps (es : List (Uuid × VmEntry)) : List Op :=
  es.flatMap fun e => .vms (.discard e.1) :: (instanceOps e.1 e.2 ++ freeOps e.2.res)

/-- What `main` owes for the VMs in the map. -/
def sweepOps (config : AppConfig) (es : List (Uuid × VmEntry)) : List Op :=
  (if config.gatewayClient.isSome then es.map fun e => .deregisterVm e.1 else []) ++ drainOps es

inductive Role
  | main
  | remover
  | observer
  deriving DecidableEq

/-- Whether `main` has read the map, and what the party still owes. -/
structure Agenda where
  read : Bool := false
  due : List Op := []

def dueRequires (role : Role) : Op → Agenda → Prop
  | .vms .entries, v => role = .main → v.read = false ∧ v.due = []
  | .vms (.take _), v => role = .remover ∧ v.due = []
  | .unlock .registry, v => role ≠ .main ∧ v.due = []
  | o, v => acts o = true → ∃ rest, v.due = o :: rest

def noteDue (config : AppConfig) (role : Role) (v : Agenda) : (o : Op) → Reply o → Agenda
  | .vms .entries, es => match role with
    | .main => ⟨true, sweepOps config es⟩
    | .remover | .observer => v
  | .vms (.take id), taken => match taken with
    | .ok r => { v with due := teardownOps config id (.running r) }
    | .error _ => v
  | o, _ => if acts o then { v with due := v.due.tail } else v

/-- A dropped `delete` still drops the instance. -/
def dropsInstance : Op → Bool
  | .dropInstance _ => true
  | _ => false

def agenda (config : AppConfig) (role : Role) : Discipline Reply Choice Agenda where
  requires := dueRequires role
  allows _ _ _ _ := True
  note o _ r v := noteDue config role v o r
  considers _ _ _ := True
  leave _ v := { v with due := v.due.filter dropsInstance }

variable {config : AppConfig} {role : Role} {lib : Libraries} {α β : Type} {read : Bool}
  {rest : List Op} {v : Agenda}

/-- What one operation does to an agenda. -/
inductive Advance (config : AppConfig) : Role → Agenda → (o : Op) → Reply o → Agenda → Prop
  | aside {role : Role} (v : Agenda) (o : Op) (r : Reply o) (ho : acts o = false)
      (hunlock : o = .unlock .registry → role ≠ .main ∧ v.due = []) : Advance config role v o r v
  | act {role : Role} (read : Bool) (rest : List Op) (o : Op) (r : Reply o) (ho : acts o = true) :
      Advance config role ⟨read, o :: rest⟩ o r ⟨read, rest⟩
  | take (read : Bool) (id : Uuid) (r : VmResources) : Advance config .remover ⟨read, []⟩
      (.vms (.take id)) (.ok r) ⟨read, teardownOps config id (.running r)⟩
  | refuse (read : Bool) (id : Uuid) (e : ApiError) : Advance config .remover ⟨read, []⟩
      (.vms (.take id)) (.error e) ⟨read, []⟩
  | read (es : List (Uuid × VmEntry)) : Advance config .main ⟨false, []⟩ (.vms .entries) es
      ⟨true, sweepOps config es⟩

theorem advance {o : Op} (hreq : dueRequires role o v) (r : Reply o) :
    Advance config role v o r (noteDue config role v o r) := by
  obtain ⟨read, due⟩ := v
  have hact (hacts : acts o = true) (h : acts o = true → ∃ rest, due = o :: rest) :
      Advance config role ⟨read, due⟩ o r ⟨read, due.tail⟩ := by
    obtain ⟨rest, rfl⟩ := h hacts
    exact .act read rest o r hacts
  cases o with
  | vms s =>
    cases s with
    | take id =>
      obtain ⟨rfl, hdue⟩ : role = .remover ∧ due = [] := hreq
      subst hdue
      cases r with
      | ok r => exact .take read id r
      | error e => exact .refuse read id e
    | entries =>
      cases role with
      | main =>
        obtain ⟨rfl, hdue⟩ : read = false ∧ due = [] := hreq rfl
        subst hdue
        exact .read r
      | _ => exact .aside _ (.vms .entries) r rfl fun h => nomatch h
    | get id => exact .aside _ (.vms (.get id)) r rfl fun h => nomatch h
    | info => exact .aside _ (.vms .info) r rfl fun h => nomatch h
    | _ => exact hact rfl hreq
  | unlock m =>
    cases m with
    | registry => exact .aside _ (.unlock .registry) r rfl fun _ => hreq
    | pool => exact .aside _ (.unlock .pool) r rfl fun h => nomatch h
  | lock m => exact .aside _ (.lock m) r rfl fun h => nomatch h
  | resume => exact .aside _ .resume r rfl fun h => nomatch h
  | tryLock m => exact .aside _ (.tryLock m) r rfl fun h => nomatch h
  | build id options => exact .aside _ (.build id options) r rfl fun h => nomatch h
  | describeInstance id => exact .aside _ (.describeInstance id) r rfl fun h => nomatch h
  | dropLocals => exact .aside _ .dropLocals r rfl fun h => nomatch h
  | connect path => exact .aside _ (.connect path) r rfl fun h => nomatch h
  | writeAll stream bytes => exact .aside _ (.writeAll stream bytes) r rfl fun h => nomatch h
  | read stream limit => exact .aside _ (.read stream limit) r rfl fun h => nomatch h
  | forward stream channel => exact .aside _ (.forward stream channel) r rfl fun h => nomatch h
  | send stream bytes => exact .aside _ (.send stream bytes) r rfl fun h => nomatch h
  | _ => exact hact rfl hreq

section Scripts

/-- An operation on the agenda is done, and the next one is due. -/
theorem safe_due {o : Op} {post : Reply o → Agenda → Prop}
    (hreq : ∀ v, (acts o = true → ∃ rest, v.due = o :: rest) → dueRequires role o v)
    (hnote : ∀ r, noteDue config role ⟨read, o :: rest⟩ o r = ⟨read, rest⟩)
    (hpost : ∀ r, post r ⟨read, rest⟩) :
    (Code.perform o).Safe (agenda config role) post ⟨read, o :: rest⟩ := by
  refine ⟨hreq _ fun _ => ⟨rest, rfl⟩, fun _ r _ => ?_⟩
  change post r (noteDue config role ⟨read, o :: rest⟩ o r)
  rw [hnote]
  exact hpost r

/-- An operation that is not on any agenda. -/
theorem safe_aside {o : Op} {post : Reply o → Agenda → Prop} (hreq : dueRequires role o v)
    (hnote : ∀ r, noteDue config role v o r = v) (hpost : ∀ r, post r v) :
    (Code.perform o).Safe (agenda config role) post v := by
  refine ⟨hreq, fun _ r _ => ?_⟩
  change post r (noteDue config role v o r)
  rw [hnote]
  exact hpost r

theorem safe_lock {m : Mutex} {post : Unit → Agenda → Prop} (hpost : post () v) :
    (Code.perform (.lock m)).Safe (agenda config role) post v := by
  apply safe_aside (o := .lock m) (fun h => nomatch h) (fun _ => rfl)
  exact fun _ => hpost

theorem safe_command {cmd : Command} {f : Option RustText.Text → Code β}
    {post : β → Agenda → Prop} (hf : ∀ r, (f r).Safe (agenda config role) post ⟨read, rest⟩) :
    (runCmdOutput cmd >>= f).Safe (agenda config role) post ⟨read, .command cmd :: rest⟩ :=
  Script.safe_bind.mpr (safe_due (o := .command cmd) (fun _ h => h) (fun _ => rfl) hf)

theorem safe_deleteTap {name : String} : (deleteTap name).Safe (agenda config role)
    (fun _ w => w = ⟨read, rest⟩) ⟨read, .command (.linkDel name) :: rest⟩ :=
  safe_command fun _ => rfl

theorem safe_removeNatRules {h : NatHandles} : (removeNatRules h).Safe (agenda config role)
    (fun _ w => w = ⟨read, rest⟩) ⟨read, ruleOps (some h) ++ rest⟩ := by
  have hfilter : (runCmdOutput (.deleteRule .filter h.filter) >>= fun _ => pure ()).Safe
      (agenda config role) (fun _ w => w = ⟨read, rest⟩)
      ⟨read, .command (.deleteRule .filter h.filter) :: rest⟩ := safe_command fun _ => rfl
  exact Script.safe_bind.mpr (safe_command fun _ => hfilter)

theorem safe_then {s : Code α} {f : α → Code β} {l : List Op} {post : β → Agenda → Prop}
    (hs : s.Safe (agenda config role) (fun _ w => w = ⟨read, rest⟩) ⟨read, l⟩)
    (hf : ∀ a, (f a).Safe (agenda config role) post ⟨read, rest⟩) :
    (s >>= f).Safe (agenda config role) post ⟨read, l⟩ :=
  Script.safe_bind.mpr (hs.mono fun a _ hw => hw ▸ hf a)

theorem safe_freeSubnet {i : U16} : (freeSubnet i).Safe (agenda config role)
    (fun _ w => w = ⟨read, rest⟩) ⟨read, .release i :: rest⟩ := by
  refine Script.safe_bind.mpr (safe_lock ?_)
  have hrelease : (Code.perform (.release i)).Safe (agenda config role)
      (fun _ w => w = ⟨read, rest⟩) ⟨read, .release i :: rest⟩ :=
    safe_due (o := .release i) (fun _ h => h) (fun _ => rfl) fun _ => rfl
  refine safe_then hrelease fun _ => ?_
  exact safe_aside (o := .unlock .pool) (fun h => nomatch h) (fun _ => rfl) fun _ => rfl

theorem safe_removeFile {path : String} : (Code.perform (.removeFile path)).Safe
    (agenda config role) (fun _ w => w = ⟨read, rest⟩) ⟨read, .removeFile path :: rest⟩ :=
  safe_due (o := .removeFile path) (fun _ h => h) (fun _ => rfl) fun _ => rfl

theorem safe_freeEntry (r : VmResources) : (freeEntry r).Safe (agenda config role)
    (fun _ w => w = ⟨read, rest⟩) ⟨read, freeOps r ++ rest⟩ := by
  obtain ⟨_, _, rootfs, tap, index, handles, _, _, _⟩ := r
  induction tap using optionally with
  | some name hrest => exact safe_then safe_deleteTap fun _ => hrest
  | none =>
    induction handles using optionally with
    | some handles hrest => exact safe_then safe_removeNatRules fun _ => hrest
    | none =>
      induction index using optionally with
      | some index hrest => exact safe_then safe_freeSubnet fun _ => hrest
      | none =>
        cases rootfs with
        | some path => exact safe_then safe_removeFile fun _ => rfl
        | none => rfl

theorem safe_stopEntry (id : Uuid) (e : VmEntry) : (stopEntry id e).Safe (agenda config role)
    (fun _ w => w = ⟨read, rest⟩) ⟨read, instanceOps id e ++ rest⟩ := by
  cases e with
  | creating r => rfl
  | running r =>
    refine safe_then (safe_due (o := .sdk id .stop) (fun _ h => h) (fun _ => rfl) fun _ => rfl)
      fun _ => ?_
    exact safe_due (o := .dropInstance id) (fun _ h => h) (fun _ => rfl) fun _ => rfl

theorem safe_deregisterVms (es : List (Uuid × VmEntry)) : (deregisterVms es).Safe
    (agenda config role) (fun _ w => w = ⟨read, rest⟩)
      ⟨read, (es.map fun e => .deregisterVm e.1) ++ rest⟩ := by
  induction es with
  | nil => rfl
  | cons e es ih =>
    obtain ⟨id, entry⟩ := e
    refine safe_then (safe_due (o := .deregisterVm id) (fun _ h => h) (fun _ => rfl) fun _ => rfl)
      fun _ => ih

theorem safe_drainVms (es : List (Uuid × VmEntry)) : (drainVms es).Safe (agenda config role)
    (fun _ w => w = ⟨read, rest⟩) ⟨read, drainOps es ++ rest⟩ := by
  induction es with
  | nil => rfl
  | cons e es ih =>
    obtain ⟨id, entry⟩ := e
    simp only [drainOps, List.flatMap_cons, List.append_assoc, List.cons_append]
    refine safe_then (safe_due (o := .vms (.discard id)) (fun _ h => h) (fun _ => rfl)
      fun _ => rfl) fun _ => ?_
    refine safe_then (safe_stopEntry id entry) fun _ => ?_
    exact safe_then (safe_freeEntry entry.res) fun _ => ih

/-- `main` reads the map and tears down what it finds there. -/
theorem safe_shutdown (config : AppConfig) : (shutdown config).Safe (agenda config .main)
    (fun _ w => w = ⟨true, []⟩) {} := by
  have hdrain (es : List (Uuid × VmEntry)) : (drainVms es).Safe (agenda config .main)
      (fun _ w => w = ⟨true, []⟩) ⟨true, drainOps es⟩ := by
    have hall : (drainVms es).Safe (agenda config .main) (fun _ w => w = ⟨true, []⟩)
        ⟨true, drainOps es ++ []⟩ := safe_drainVms es
    rwa [List.append_nil] at hall
  have hrest (es : List (Uuid × VmEntry)) : (do
      if config.gatewayClient.isSome then deregisterVms es
      drainVms es : Code Unit).Safe (agenda config .main) (fun _ w => w = ⟨true, []⟩)
        ⟨true, sweepOps config es⟩ := by
    unfold sweepOps
    cases hg : config.gatewayClient.isSome with
    | false => exact hdrain es
    | true => exact safe_then (safe_deregisterVms es) fun _ => hdrain es
  refine Script.safe_bind.mpr (safe_lock ?_)
  exact Script.safe_bind.mpr ⟨fun _ => ⟨rfl, rfl⟩, fun _ es _ => hrest es⟩

end Scripts

section Handlers

variable {request : Request}

theorem inert_agenda {o : Op} (hreq : dueRequires role o v)
    (hnote : ∀ r, noteDue config role v o r = v) : Inert (agenda config role) v o :=
  ⟨hreq, fun _ r _ => hnote r⟩

/-- Who owes nothing does nothing but look. -/
theorem watchful_agenda (hrole : role ≠ .main) (hv : v.due = []) :
    Watchful (agenda config role) v where
  inert o ho := by
    have hidle (hacts : acts o = false) : acts o = true → ∃ rest, v.due = o :: rest := by
      simp [hacts]
    cases o with
    | vms s =>
      cases s with
      | get id => exact inert_agenda (hidle rfl) fun _ => rfl
      | entries =>
        refine inert_agenda (fun h => absurd h hrole) fun _ => ?_
        cases role with
        | main => exact absurd rfl hrole
        | _ => rfl
      | info => exact inert_agenda (hidle rfl) fun _ => rfl
      | _ => exact ho.elim
    | unlock m =>
      cases m with
      | registry => exact inert_agenda ⟨hrole, hv⟩ fun _ => rfl
      | pool => exact inert_agenda (hidle rfl) fun _ => rfl
    | _ => first | exact ho.elim | exact inert_agenda (hidle rfl) fun _ => rfl
  stays _ _ _ := by
    obtain ⟨read, due⟩ := v
    obtain rfl : due = [] := hv
    rfl

variable {post : α → Agenda → Prop}

/-- Nothing is owed once a task has ended, however it has ended. -/
abbrev Cleared (v : Agenda) : Prop := v.due = []

theorem ensures_withLock {m : Mutex} {body : Async α} (hv : v.due.filter dropsInstance = [])
    (hb : body.Ensures (agenda config .remover) (fun a w => (m = .registry → Cleared w) ∧ post a w)
      Cleared v) : (withLock m body).Ensures (agenda config .remover) post Cleared v := by
  have hunlock {w : Agenda} {P : Agenda → Prop} (hw : m = .registry → Cleared w) (hp : P w) :
      (Code.perform (.unlock m)).Safe (agenda config .remover) (fun _ => P) w := by
    cases m with
    | registry =>
      exact safe_aside (o := .unlock .registry) ⟨by simp, hw rfl⟩ (fun _ => rfl) fun _ => hp
    | pool => exact safe_aside (o := .unlock .pool) (fun h => nomatch h) (fun _ => rfl) fun _ => hp
  have hleft : Cleared ((agenda config .remover).leave .dropped v) := hv
  have hlock : (Async.await (.lock m)).Ensures (agenda config .remover) (fun _ w => w = v)
      Cleared v := Handler.ensures_await (fun h => nomatch h) (fun _ _ _ => rfl) fun _ => hleft
  have hresume : (Async.await .resume).Ensures (agenda config .remover) (fun _ w => w = v)
      (fun w => w = (agenda config .remover).leave .dropped v) v :=
    Handler.ensures_await (fun h => nomatch h) (fun _ _ _ => rfl) fun _ => rfl
  refine Handler.Ensures.bind (hlock.mono (fun _ _ hw => hw ▸ ?_) fun _ hw => hw)
  refine Handler.Ensures.owning (Handler.Ensures.bind (hresume.mono (fun _ _ hw => hw ▸ ?_)
    fun _ hw => hw ▸ hunlock (fun _ => hleft) hleft))
  exact hb.mono (fun a w hw => hunlock hw.1 hw.2) fun w hw => hunlock (fun _ => hw) hw

theorem ensures_releaseSubnet {i : U16} (h : rest.filter dropsInstance = []) :
    (releaseSubnet i).Ensures (agenda config .remover) (fun _ w => w = ⟨read, rest⟩) Cleared
      ⟨read, .release i :: rest⟩ := by
  have hrelease : (Code.perform (.release i)).Safe (agenda config .remover)
      (fun _ w => w = ⟨read, rest⟩) ⟨read, .release i :: rest⟩ :=
    safe_due (o := .release i) (fun _ h => h) (fun _ => rfl) fun _ => rfl
  refine ensures_withLock h (Handler.ensures_inline (hrelease.mono ?_))
  exact fun _ _ hw => ⟨by simp, hw⟩

theorem ensures_freeResources (r : VmResources) (h : rest.filter dropsInstance = []) :
    (freeResources r).Ensures (agenda config .remover) (fun _ w => w = ⟨read, rest⟩) Cleared
      ⟨read, freeOps r ++ rest⟩ := by
  obtain ⟨_, _, rootfs, tap, index, handles, _, _, _⟩ := r
  have hthen {l m : List Op} {x : Async Unit} {y : Async Unit}
      (hx : x.Ensures (agenda config .remover) (fun _ w => w = ⟨read, m⟩) Cleared ⟨read, l⟩)
      (hy : y.Ensures (agenda config .remover) (fun _ w => w = ⟨read, rest⟩) Cleared ⟨read, m⟩) :
      (x >>= fun _ => y).Ensures (agenda config .remover) (fun _ w => w = ⟨read, rest⟩) Cleared
        ⟨read, l⟩ := Handler.Ensures.bind (hx.mono (fun _ _ hw => hw ▸ hy) fun _ hw => hw)
  induction tap using optionally with
  | some name hrest => exact hthen (Handler.ensures_inline safe_deleteTap) hrest
  | none =>
    induction handles using optionally with
    | some handles hrest => exact hthen (Handler.ensures_inline safe_removeNatRules) hrest
    | none =>
      induction index using optionally with
      | some index hrest =>
        refine hthen (ensures_releaseSubnet ?_) hrest
        cases rootfs <;> simpa [dropsInstance, freeOps] using h
      | none =>
        cases rootfs with
        | some path => exact Handler.ensures_inline (safe_then safe_removeFile fun _ => rfl)
        | none => exact Handler.ensures_pure rfl

theorem filter_freeOps (r : VmResources) : (freeOps r).filter dropsInstance = [] := by
  obtain ⟨_, _, rootfs, tap, index, handles, _, _, _⟩ := r
  cases rootfs <;> cases tap <;> cases index <;> cases handles <;> rfl

theorem ensures_stopInstance {id : Uuid} (h : rest.filter dropsInstance = []) :
    (stopInstance id).Ensures (agenda config .remover) (fun _ w => w = ⟨read, rest⟩) Cleared
      ⟨read, .sdk id .stop :: .dropInstance id :: rest⟩ := by
  have hdrop (l : List Op) : (Code.perform (.dropInstance id)).Safe (agenda config .remover)
      (fun _ w => w = ⟨read, l⟩) ⟨read, .dropInstance id :: l⟩ :=
    safe_due (o := .dropInstance id) (fun _ h => h) (fun _ => rfl) fun _ => rfl
  have hleft : (agenda config .remover).leave .dropped
      ⟨read, .sdk id .stop :: .dropInstance id :: rest⟩ = ⟨read, [.dropInstance id]⟩ := by
    have hfilter : (Op.dropInstance id :: rest).filter dropsInstance = [.dropInstance id] := by
      rw [List.filter_cons_of_pos rfl, h]
    simp [agenda, dropsInstance, hfilter]
  have hstop : (Async.await (.sdk id .stop)).Ensures (agenda config .remover)
      (fun _ w => w = ⟨read, .dropInstance id :: rest⟩) (fun w => w = ⟨read, [.dropInstance id]⟩)
      ⟨read, .sdk id .stop :: .dropInstance id :: rest⟩ :=
    Handler.ensures_await (fun _ => ⟨_, rfl⟩) (fun _ _ _ => rfl) fun _ => hleft
  apply Handler.Ensures.owning
  refine Handler.Ensures.bind (hstop.mono (fun _ _ hw => ?_) fun _ hw => ?_)
  · exact Handler.ensures_pure (hw ▸ hdrop rest)
  · exact hw ▸ (hdrop []).mono fun _ _ hw => by rw [hw]

theorem ensures_delete (id : Uuid) : (delete config id).Ensures (agenda config .remover)
    (fun _ w => Cleared w) Cleared {} := by
  refine ensures_withLock rfl (Handler.Ensures.bind (ensures_inSection (.take id) ⟨rfl, rfl⟩
    fun _ taken _ => ?_))
  cases taken with
  | error e => exact Handler.ensures_pure ⟨fun _ => rfl, rfl⟩
  | ok r =>
    have hreport : (if config.gatewayClient.isSome then [Op.deregisterVm id] else []).filter
        dropsInstance = [] := by split <;> rfl
    have hrest : (freeOps r ++ if config.gatewayClient.isSome then [Op.deregisterVm id]
        else []).filter dropsInstance = [] := by
      rw [List.filter_append, filter_freeOps, hreport]
      rfl
    refine Handler.Ensures.bind ((ensures_stopInstance hrest).mono (fun _ _ hw => hw ▸ ?_)
      fun _ hw => hw)
    refine Handler.Ensures.bind ((ensures_freeResources r hreport).mono (fun _ _ hw => hw ▸ ?_)
      fun _ hw => hw)
    cases config.gatewayClient.isSome with
    | false => exact Handler.ensures_pure ⟨fun _ => rfl, rfl⟩
    | true =>
      have hderegister : (Async.await (.deregisterVm id)).Ensures (agenda config .remover)
          (fun _ => Cleared) Cleared ⟨false, [.deregisterVm id]⟩ :=
        Handler.ensures_await (fun _ => ⟨_, rfl⟩) (fun _ _ _ => rfl) fun _ => rfl
      exact Handler.Ensures.bind (hderegister.mono
        (fun _ _ hw => Handler.ensures_pure ⟨fun _ => hw, hw⟩) fun _ hw => hw)

def isCreate : Request → Bool
  | .create _ => true
  | _ => false

def roleOf : Request → Role
  | .delete _ => .remover
  | _ => .observer

theorem roleOf_ne : roleOf request ≠ .main := by cases request <;> simp [roleOf]

/-- Every handler but `create` does only what it owes. -/
theorem safe_agenda (h : isCreate request = false) : (handlerOf config request).Safe
    (agenda config (roleOf request)) (fun _ w => Cleared w) {} := by
  have hanswering {role : Role} {x : Async Answer}
      (hx : x.Ensures (agenda config role) (fun _ w => Cleared w) Cleared {}) :
      (answering x).Safe (agenda config role) (fun _ w => Cleared w) {} :=
    hx _ _ _ (fun _ hw => hw) fun _ _ hw => hw
  have hkeeps {role : Role} {x : Async Answer} (hx : x.Keeps (agenda config role) {}) :
      (answering x).Safe (agenda config role) (fun _ w => Cleared w) {} :=
    hanswering (hx.mono (fun _ _ hw => hw ▸ rfl) fun _ hw => hw.1 ▸ rfl)
  have hwatchful : Watchful (agenda config .observer) {} := watchful_agenda (by simp) rfl
  cases request with
  | create body => simp [isCreate] at h
  | delete id => exact hanswering (ensures_delete id)
  | get id => exact hkeeps (keeps_get hwatchful id)
  | list => exact hkeeps (keeps_list hwatchful)
  | ready => exact hkeeps (keeps_ready hwatchful)
  | session => exact (rfl : Cleared {})

theorem agenda_callback {self : SessionHandler} (cb : Callback) (hrole : role ≠ .main)
    (hv : Cleared v) : (calledBack (callbackCode lib self cb)).Safe (agenda config role)
      (fun _ w => Cleared w) v := by
  have hwatchful : Watchful (agenda config role) v := watchful_agenda hrole hv
  have hkeeps : (callbackCode lib self cb).Keeps (agenda config role) v :=
    keeps_callbackCode hwatchful cb
  exact hkeeps _ _ _ (fun _ hw => hw.1 ▸ hv) fun _ _ hw => hw ▸ hv

end Handlers

end Warlock.ShutdownAgendas
