import Warlock.ServerOperations

/-!
# Ledgers

The ledger of a task records what the operations it has done so far left in its locals. It
is auxiliary: no operation reads it. The `view` is the task's part in the reservation
protocol, `held` the host resources it can still name, and the last two are a VM it has
published or taken out but not yet reported to the gateway.
-/

namespace Warlock.Ledgers
open ApplicationState EffectPrograms MachineIntegers ReservationProtocol ServerOperations
  VmIdentifiers

abbrev Standpoint := View Uuid U16 VmResources

/-- The host resources that a VM's clean-up has to name. -/
inductive Resource
  | rootfs (path : String)
  | tap (name : String)
  | rule (chain : Chain) (handle : U64)
  deriving DecidableEq

def resourcesOf (r : VmResources) : List Resource :=
  (r.rootfsCopy.map Resource.rootfs).toList ++ (r.tapName.map Resource.tap).toList ++
    match r.natHandles with
    | some h => [.rule .postrouting h.postrouting, .rule .filter h.filter]
    | none => []

structure Ledger where
  view : Standpoint := {}
  held : List Resource := []
  announcing : Option Uuid := none
  retiring : Option Uuid := none

section Views

variable (v : Standpoint)

def abandonView : Standpoint := { v with slot := none, lost := v.slot.or v.lost }

def noteSection : (s : VmRegistry.Section) → s.Reply → Standpoint
  | .reserve _ resources, .ok () => { v with standing := .creating resources, slot := none }
  | .upgrade _, true => match v.standing with
    | .creating r => { v with standing := .upgraded r, agent := none }
    | _ => v
  | .remove _, some entry => { v with standing := .gone, slot := entry.res.subnetIndex }
  | .take id, .ok resources => { v with slot := resources.subnetIndex, agent := some id }
  | .discard _, () => { v with standing := .gone }
  | _, _ => v

/-- A slot goes back from the task's own hands, or on behalf of its placeholder. -/
def noteRelease (index : U16) : Standpoint :=
  if v.slot = some index then { v with slot := none }
  else match v.standing with
    | .creating r => { v with standing := .released r }
    | _ => v

def noteView : (o : Op) → Reply o → Standpoint
  | .lock m, _ => v.set m true
  | .tryLock m, true => v.set m true
  | .tryLock .registry, false => { v with refused := true }
  | .unlock m, _ => v.set m false
  | .vms s, r => noteSection v s r
  | .allocate, some a => { v with slot := some a.index }
  | .release index, _ => noteRelease v index
  | .newV4, id => { v with id := some id }
  | .build id _, true => { v with agent := some id }
  | .dropInstance _, _ => { v with agent := none }
  | .dropLocals, _ => abandonView v
  | _, _ => v

variable {v}

theorem id_noteSection {s : VmRegistry.Section} {r : s.Reply} : (noteSection v s r).id = v.id := by
  cases s with
  | upgrade id =>
    cases r <;> simp only [noteSection]
    split <;> rfl
  | reserve => cases r <;> rfl
  | remove => cases r <;> rfl
  | take => cases r <;> rfl
  | _ => rfl

theorem id_noteRelease {i : U16} : (noteRelease v i).id = v.id := by
  unfold noteRelease
  (repeat' split) <;> rfl

/-- Only drawing an identifier changes the task's. -/
theorem id_noteView {o : Op} (h : o ≠ .newV4) {r : Reply o} : (noteView v o r).id = v.id := by
  cases o with
  | newV4 => exact absurd rfl h
  | vms s => exact id_noteSection
  | release i => exact id_noteRelease
  | lock m => exact View.id_set v m true
  | unlock m => exact View.id_set v m false
  | tryLock m => cases m <;> cases r <;> rfl
  | allocate => cases r <;> rfl
  | build id options => cases r <;> rfl
  | _ => rfl

theorem holds_noteSection {s : VmRegistry.Section} {r : s.Reply} (m : Mutex) :
    (noteSection v s r).holds m = v.holds m := by
  cases s with
  | upgrade id =>
    cases r <;> simp only [noteSection]
    split <;> cases m <;> rfl
  | reserve => cases r <;> cases m <;> rfl
  | remove => cases r <;> cases m <;> rfl
  | take => cases r <;> cases m <;> rfl
  | _ => cases m <;> rfl

theorem holds_noteRelease {i : U16} (m : Mutex) : (noteRelease v i).holds m = v.holds m := by
  unfold noteRelease
  (repeat' split) <;> cases m <;> rfl

/-- Only the operations on mutexes change which the task holds. -/
theorem holds_noteView {o : Op} (hl : ∀ m, o ≠ .lock m) (ht : ∀ m, o ≠ .tryLock m)
    (hu : ∀ m, o ≠ .unlock m) {r : Reply o} (m : Mutex) :
    (noteView v o r).holds m = v.holds m := by
  cases o with
  | lock k => exact absurd rfl (hl k)
  | tryLock k => exact absurd rfl (ht k)
  | unlock k => exact absurd rfl (hu k)
  | vms s => exact holds_noteSection m
  | release i => exact holds_noteRelease m
  | allocate => cases r <;> cases m <;> rfl
  | build id options => cases r <;> cases m <;> rfl
  | _ => cases m <;> rfl

/-- The map is given back by its guard only. -/
theorem registry_noteView {o : Op} (h : o ≠ .unlock .registry) {r : Reply o}
    (hv : v.registry = true) : (noteView v o r).registry = true := by
  have hsame (hl : ∀ m, o ≠ .lock m) (ht : ∀ m, o ≠ .tryLock m) (hu : ∀ m, o ≠ .unlock m) :
      (noteView v o r).holds .registry = true := (holds_noteView hl ht hu .registry).trans hv
  cases o with
  | lock m => cases m <;> first | rfl | exact hv
  | tryLock m => cases m <;> cases r <;> first | rfl | exact hv
  | unlock m =>
    cases m with
    | registry => exact absurd rfl h
    | pool => exact hv
  | _ => exact hsame (by simp) (by simp) (by simp)

/-- Only these operations change whose process the task has. -/
theorem agent_noteView {o : Op} (hs : ∀ s, o ≠ .vms s) (hb : ∀ id options, o ≠ .build id options)
    (hd : ∀ id, o ≠ .dropInstance id) {r : Reply o} : (noteView v o r).agent = v.agent := by
  cases o with
  | vms s => exact absurd rfl (hs s)
  | build id options => exact absurd rfl (hb id options)
  | dropInstance id => exact absurd rfl (hd id)
  | lock m => exact View.agent_set v m true
  | unlock m => exact View.agent_set v m false
  | tryLock m => cases m <;> cases r <;> rfl
  | allocate => cases r <;> rfl
  | release i =>
    change (noteRelease v i).agent = v.agent
    unfold noteRelease
    (repeat' split) <;> rfl
  | _ => rfl

end Views

section Holdings

variable (held : List Resource)

def gain (r : Resource) : List Resource := r :: held

def lose (r : Resource) : List Resource := held.filter (· ≠ r)

def noteCommand (c : Choice) : Command → List Resource
  | .cp _ _ dest => if c.succeeds || c.partly then gain held (.rootfs dest) else held
  | .tuntapAdd name => if c.succeeds then gain held (.tap name) else held
  | .linkDel name => if c.succeeds then lose held (.tap name) else held
  | .addPostroutingRule _ _ =>
    if c.succeeds then gain held (.rule .postrouting c.handle) else held
  | .addFilterRule _ _ => if c.succeeds then gain held (.rule .filter c.handle) else held
  | .deleteRule chain handle => if c.succeeds then lose held (.rule chain handle) else held
  | .chown _ _ _ | .addrAdd _ _ | .linkUp _ => held

/-- A placeholder takes over what its record names, a removed entry gives it back. -/
def noteHeld (c : Choice) : (o : Op) → Reply o → List Resource
  | .command cmd, _ => noteCommand held c cmd
  | .removeFile path, true => lose held (.rootfs path)
  | .vms (.reserve _ resources), .ok () => held.filter (· ∉ resourcesOf resources)
  | .vms (.remove _), some entry => resourcesOf entry.res ++ held
  | .vms (.take _), .ok resources => resourcesOf resources ++ held
  | .dropLocals, _ => []
  | _, _ => held

end Holdings

def noteAnnouncing (announcing : Option Uuid) : (o : Op) → Reply o → Option Uuid
  | .vms (.upgrade id), true => some id
  | .registerVm _ _ _, _ => none
  | _, _ => announcing

def noteRetiring (retiring : Option Uuid) : (o : Op) → Reply o → Option Uuid
  | .vms (.take id), .ok _ => some id
  | .deregisterVm _, _ => none
  | _, _ => retiring

def Ledger.note (c : Choice) (l : Ledger) (o : Op) (r : Reply o) : Ledger where
  view := noteView l.view o r
  held := noteHeld l.held c o r
  announcing := noteAnnouncing l.announcing o r
  retiring := noteRetiring l.retiring o r

/-- The locals are gone; what was in them is lost. -/
def Ledger.abandon (l : Ledger) : Ledger := { l with view := abandonView l.view, held := [] }

/-- Dropped locals are gone; a blocking task that panics leaves those of its awaiter. -/
def Ledger.leave (l : Ledger) : Exit → Ledger
  | .dropped => l.abandon
  | .panicked => l

end Warlock.Ledgers
