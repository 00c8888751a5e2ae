import Warlock.TidyDiscipline

/-!
# What the tasks have on the host

The tap, the two rules and the rootfs copy that a task makes are its own until it passes them on
to the VM that it makes running; a task that takes a VM out takes them over. A task configures and
takes down nothing but what is its own. This is shown for each handler on its own, whatever fails,
provided that `nft` prints the handle of the rule it has added.
-/

namespace Warlock.AssetDiscipline
open ApplicationState EffectPrograms HostNetworking Ledgers MachineIntegers NftHandles
  QuietHandlers ReservationDiscipline ReservationProtocol RustText Server ServerOperations
  SshSession SubnetAddressing TaskViews VmConfiguration VmHandlers VmIdentifiers
open TidyDiscipline (AddsRule)

/-- Something on the host, as it is there. -/
inductive Asset
  | rootfs (path : String)
  | tap (t : Tap)
  | postrouting (q : PostroutingRule)
  | filter (q : FilterRule)

namespace Asset

/-- What the asset is known by. -/
def resource : Asset → Resource
  | rootfs path => .rootfs path
  | tap t => .tap t.name
  | postrouting q => .rule .postrouting q.handle
  | filter q => .rule .filter q.handle

def On (host : Host) : Asset → Prop
  | rootfs path => path ∈ host.files
  | tap t => t ∈ host.taps
  | postrouting q => q ∈ host.postrouting
  | filter q => q ∈ host.filter

/-- The asset after taps of that name were changed. -/
def onTaps (name : String) (change : Tap → Tap) : Asset → Asset
  | tap t => .tap (if t.name = name then change t else t)
  | a => a

theorem resource_onTaps {name : String} {change : Tap → Tap} (hname : ∀ t, (change t).name = t.name)
    (a : Asset) : (a.onTaps name change).resource = a.resource := by
  cases a with
  | tap t =>
    simp only [onTaps, resource]
    split
    · rw [hname]
    · rfl
  | _ => rfl

end Asset

section Commands

/-- What a command leaves of the assets of the task that gives it. -/
def noteAssets (assets : List Asset) (c : Choice) : Command → List Asset
  | .cp _ _ dest => if c.succeeds || c.partly then .rootfs dest :: assets else assets
  | .chown _ _ _ => assets
  | .tuntapAdd name => if c.succeeds then .tap ⟨name, none, false⟩ :: assets else assets
  | .addrAdd address name =>
    if c.succeeds then assets.map (Asset.onTaps name fun t => { t with address := some address })
    else assets
  | .linkUp name =>
    if c.succeeds then assets.map (Asset.onTaps name fun t => { t with up := true }) else assets
  | .linkDel name => if c.succeeds then assets.filter (·.resource ≠ .tap name) else assets
  | .addPostroutingRule guestIp hostIface =>
    if c.succeeds then .postrouting ⟨c.handle, guestIp, hostIface⟩ :: assets else assets
  | .addFilterRule tapName hostIface =>
    if c.succeeds then .filter ⟨c.handle, tapName, hostIface⟩ :: assets else assets
  | .deleteRule chain handle =>
    if c.succeeds then assets.filter (·.resource ≠ .rule chain handle) else assets

/-- What a command changes or takes down, as it is known; what it adds otherwise is new. -/
def touches : Command → Option Resource
  | .cp _ _ path | .chown _ _ path => some (.rootfs path)
  | .addrAdd _ name | .linkUp name | .linkDel name => some (.tap name)
  | .deleteRule chain handle => some (.rule chain handle)
  | .tuntapAdd _ | .addPostroutingRule _ _ | .addFilterRule _ _ => none

variable {host host' : Host} {c : Choice} {cmd : Command} {r : Option Text} {a : Asset}
  {assets : List Asset}

/-- What a command does to the host and to the assets of the task that gives it. -/
inductive Ran (host : Host) (c : Choice) : Command → Host → Prop
  | nothing (cmd : Command) (hnote : ∀ assets, noteAssets assets c cmd = assets) :
      Ran host c cmd host
  | cp (strategy : CopyStrategy) (source dest : String)
      (hnote : ∀ assets, noteAssets assets c (.cp strategy source dest) = .rootfs dest :: assets) :
      Ran host c (.cp strategy source dest) { host with files := dest :: host.files }
  | tuntapAdd (name : String) (hfree : ∀ t ∈ host.taps, t.name ≠ name)
      (hnote : ∀ assets, noteAssets assets c (.tuntapAdd name) = .tap ⟨name, none, false⟩ :: assets) :
      Ran host c (.tuntapAdd name) { host with taps := ⟨name, none, false⟩ :: host.taps }
  | change (cmd : Command) (name : String) (f : Tap → Tap) (hname : ∀ t, (f t).name = t.name)
      (htouches : touches cmd = some (.tap name))
      (hnote : ∀ assets, noteAssets assets c cmd = assets.map (Asset.onTaps name f)) :
      Ran host c cmd { host with taps := host.taps.map fun t => if t.name = name then f t else t }
  | linkDel (name : String)
      (hnote : ∀ assets, noteAssets assets c (.linkDel name) =
        assets.filter (·.resource ≠ .tap name)) :
      Ran host c (.linkDel name) { host with taps := host.taps.filter (·.name != name) }
  | addPostroutingRule (ip : Ipv4Addr) (iface : String)
      (hfree : ∀ q ∈ host.postrouting, q.handle ≠ c.handle)
      (hnote : ∀ assets, noteAssets assets c (.addPostroutingRule ip iface) =
        .postrouting ⟨c.handle, ip, iface⟩ :: assets) :
      Ran host c (.addPostroutingRule ip iface)
        { host with postrouting := ⟨c.handle, ip, iface⟩ :: host.postrouting }
  | addFilterRule (name iface : String) (hfree : ∀ q ∈ host.filter, q.handle ≠ c.handle)
      (hnote : ∀ assets, noteAssets assets c (.addFilterRule name iface) =
        .filter ⟨c.handle, name, iface⟩ :: assets) :
      Ran host c (.addFilterRule name iface)
        { host with filter := ⟨c.handle, name, iface⟩ :: host.filter }
  | deletePostrouting (handle : U64)
      (hnote : ∀ assets, noteAssets assets c (.deleteRule .postrouting handle) =
        assets.filter (·.resource ≠ .rule .postrouting handle)) :
      Ran host c (.deleteRule .postrouting handle)
        { host with postrouting := host.postrouting.filter (·.handle != handle) }
  | deleteFilter (handle : U64)
      (hnote : ∀ assets, noteAssets assets c (.deleteRule .filter handle) =
        assets.filter (·.resource ≠ .rule .filter handle)) :
      Ran host c (.deleteRule .filter handle)
        { host with filter := host.filter.filter (·.handle != handle) }

theorem ran (h : host.run c cmd = some (host', r)) : Ran host c cmd host' := by
  have hfailed (hc : c.succeeds = false)
      (hcp : ∀ strategy source dest, cmd ≠ .cp strategy source dest) : Ran host c cmd host' := by
    have hhost : host' = host := by
      cases cmd with
      | cp strategy source dest => exact absurd rfl (hcp strategy source dest)
      | deleteRule chain handle => cases chain <;> simp_all [Host.run]
      | _ => simp_all [Host.run]
    subst hhost
    refine .nothing cmd fun assets => ?_
    cases cmd with
    | cp strategy source dest => exact absurd rfl (hcp strategy source dest)
    | chown => rfl
    | _ => simp [noteAssets, hc]
  cases hc : c.succeeds with
  | false =>
    cases cmd with
    | cp strategy source dest =>
      cases hp : c.partly with
      | false =>
        obtain ⟨rfl, _⟩ := by simpa [Host.run, hc, hp] using h
        exact .nothing _ fun assets => by simp [noteAssets, hc, hp]
      | true =>
        obtain ⟨rfl, _⟩ := by simpa [Host.run, hc, hp] using h
        exact .cp strategy source dest fun assets => by simp [noteAssets, hp]
    | _ => exact hfailed hc (by simp)
  | true =>
    cases cmd with
    | cp strategy source dest =>
      obtain ⟨rfl, _⟩ := by simpa [Host.run, hc] using h
      exact .cp strategy source dest fun assets => by simp [noteAssets, hc]
    | chown uid gid path =>
      obtain ⟨rfl, _⟩ := by simpa [Host.run, hc] using h
      exact .nothing _ fun assets => rfl
    | tuntapAdd name =>
      obtain ⟨hfree, rfl, _⟩ := by simpa [Host.run, hc] using h
      exact .tuntapAdd name hfree fun assets => by simp [noteAssets, hc]
    | addrAdd address name =>
      obtain ⟨rfl, _⟩ := by simpa [Host.run, hc] using h
      exact .change _ name (fun t => { t with address := some address }) (fun _ => rfl) rfl
        fun assets => by simp [noteAssets, hc]
    | linkUp name =>
      obtain ⟨rfl, _⟩ := by simpa [Host.run, hc] using h
      exact .change _ name (fun t => { t with up := true }) (fun _ => rfl) rfl
        fun assets => by simp [noteAssets, hc]
    | linkDel name =>
      obtain ⟨rfl, _⟩ := by simpa [Host.run, hc] using h
      exact .linkDel name fun assets => by simp [noteAssets, hc]
    | addPostroutingRule ip iface =>
      obtain ⟨hfree, rfl, _⟩ := by simpa [Host.run, hc] using h
      exact .addPostroutingRule ip iface hfree fun assets => by simp [noteAssets, hc]
    | addFilterRule name iface =>
      obtain ⟨hfree, rfl, _⟩ := by simpa [Host.run, hc] using h
      exact .addFilterRule name iface hfree fun assets => by simp [noteAssets, hc]
    | deleteRule chain handle =>
      cases chain with
      | postrouting =>
        obtain ⟨rfl, _⟩ := by simpa [Host.run, hc] using h
        exact .deletePostrouting handle fun assets => by simp [noteAssets, hc]
      | filter =>
        obtain ⟨rfl, _⟩ := by simpa [Host.run, hc] using h
        exact .deleteFilter handle fun assets => by simp [noteAssets, hc]

/-- A copy takes the place of what was at its path. -/
theorem Asset.On.cp {dest : String} (ha : a.On host) :
    a.On { host with files := dest :: host.files } := by
  cases a with
  | rootfs path => exact List.mem_cons_of_mem _ ha
  | _ => exact ha

/-- A command leaves alone what it does not touch. -/
theorem Ran.other (h : Ran host c cmd host') (ha : a.On host)
    (hne : touches cmd ≠ some a.resource) : a.On host' := by
  cases h with
  | nothing => exact ha
  | cp => exact ha.cp
  | tuntapAdd => cases a <;> first | exact ha | exact List.mem_cons_of_mem _ ha
  | addPostroutingRule => cases a <;> first | exact ha | exact List.mem_cons_of_mem _ ha
  | addFilterRule => cases a <;> first | exact ha | exact List.mem_cons_of_mem _ ha
  | change _ name f hname htouches =>
    cases a with
    | tap t =>
      have hother : t.name ≠ name := fun heq => hne (by rw [htouches, ← heq]; rfl)
      exact List.mem_map.mpr ⟨t, ha, if_neg hother⟩
    | _ => exact ha
  | linkDel name =>
    cases a with
    | tap t =>
      have hother : t.name ≠ name := fun heq => hne (by rw [← heq]; rfl)
      exact List.mem_filter.mpr ⟨ha, by simpa using hother⟩
    | _ => exact ha
  | deletePostrouting handle =>
    cases a with
    | postrouting q =>
      have hother : q.handle ≠ handle := fun heq => hne (by rw [← heq]; rfl)
      exact List.mem_filter.mpr ⟨ha, by simpa using hother⟩
    | _ => exact ha
  | deleteFilter handle =>
    cases a with
    | filter q =>
      have hother : q.handle ≠ handle := fun heq => hne (by rw [← heq]; rfl)
      exact List.mem_filter.mpr ⟨ha, by simpa using hother⟩
    | _ => exact ha

/-- The assets that a task has after its command are there after it. -/
theorem Ran.own (h : Ran host c cmd host') (hall : ∀ a ∈ assets, a.On host)
    (ha : a ∈ noteAssets assets c cmd) : a.On host' := by
  have hkept (hm : a ∈ assets) (hne : touches cmd ≠ some a.resource) : a.On host' :=
    h.other (hall a hm) hne
  have hadded {b : Asset} (hb : b.On host') (htouches : touches cmd = none)
      (hnote : ∀ assets, noteAssets assets c cmd = b :: assets) : a.On host' := by
    rcases List.mem_cons.mp (hnote assets ▸ ha) with rfl | hm
    · exact hb
    · exact hkept hm (by simp [htouches])
  have hremoved {x : Resource} (htouches : touches cmd = some x)
      (hnote : ∀ assets, noteAssets assets c cmd = assets.filter (·.resource ≠ x)) :
      a.On host' := by
    obtain ⟨hm, hne⟩ := List.mem_filter.mp (hnote assets ▸ ha)
    have hne : a.resource ≠ x := of_decide_eq_true hne
    exact hkept hm (by simpa [htouches] using hne.symm)
  cases h with
  | nothing _ hnote => exact hall a (hnote assets ▸ ha)
  | cp _ _ dest hnote =>
    rcases List.mem_cons.mp (hnote assets ▸ ha) with rfl | hm
    · exact List.mem_cons_self
    · exact (hall a hm).cp
  | tuntapAdd _ _ hnote => exact hadded List.mem_cons_self rfl hnote
  | addPostroutingRule _ _ _ hnote => exact hadded List.mem_cons_self rfl hnote
  | addFilterRule _ _ _ hnote => exact hadded List.mem_cons_self rfl hnote
  | change _ name f _ _ hnote =>
    obtain ⟨b, hb, rfl⟩ := List.mem_map.mp (hnote assets ▸ ha)
    cases b with
    | tap t => exact List.mem_map.mpr ⟨t, hall _ hb, rfl⟩
    | _ => exact hall _ hb
  | linkDel _ hnote => exact hremoved rfl hnote
  | deletePostrouting _ hnote => exact hremoved rfl hnote
  | deleteFilter _ hnote => exact hremoved rfl hnote

/-- What a task has after its command it had before, or it is a copy, or it is new on the host. -/
theorem Ran.source (h : Ran host c cmd host') (ha : a ∈ noteAssets assets c cmd) :
    (∃ b ∈ assets, b.resource = a.resource) ∨
      (∃ strategy source dest, cmd = .cp strategy source dest ∧ a = .rootfs dest) ∨
      (∀ path, a ≠ .rootfs path) ∧ ∀ b : Asset, b.On host → b.resource ≠ a.resource := by
  cases h with
  | nothing _ hnote => exact .inl ⟨a, hnote assets ▸ ha, rfl⟩
  | cp strategy source dest hnote =>
    rcases List.mem_cons.mp (hnote assets ▸ ha) with rfl | hm
    · exact .inr (.inl ⟨strategy, source, dest, rfl, rfl⟩)
    · exact .inl ⟨a, hm, rfl⟩
  | tuntapAdd name hfree hnote =>
    rcases List.mem_cons.mp (hnote assets ▸ ha) with rfl | hm
    · refine .inr (.inr ⟨by simp, fun b hb hres => ?_⟩)
      cases b with
      | tap t => exact hfree t hb (by simpa [Asset.resource] using hres)
      | _ => simp [Asset.resource] at hres
    · exact .inl ⟨a, hm, rfl⟩
  | addPostroutingRule ip iface hfree hnote =>
    rcases List.mem_cons.mp (hnote assets ▸ ha) with rfl | hm
    · refine .inr (.inr ⟨by simp, fun b hb hres => ?_⟩)
      cases b with
      | postrouting q => exact hfree q hb (by simpa [Asset.resource] using hres)
      | _ => simp [Asset.resource] at hres
    · exact .inl ⟨a, hm, rfl⟩
  | addFilterRule name iface hfree hnote =>
    rcases List.mem_cons.mp (hnote assets ▸ ha) with rfl | hm
    · refine .inr (.inr ⟨by simp, fun b hb hres => ?_⟩)
      cases b with
      | filter q => exact hfree q hb (by simpa [Asset.resource] using hres)
      | _ => simp [Asset.resource] at hres
    · exact .inl ⟨a, hm, rfl⟩
  | change _ name f hname _ hnote =>
    obtain ⟨b, hb, rfl⟩ := List.mem_map.mp (hnote assets ▸ ha)
    exact .inl ⟨b, hb, (Asset.resource_onTaps hname b).symm⟩
  | linkDel _ hnote => exact .inl ⟨a, (List.mem_filter.mp (hnote assets ▸ ha)).1, rfl⟩
  | deletePostrouting _ hnote => exact .inl ⟨a, (List.mem_filter.mp (hnote assets ▸ ha)).1, rfl⟩
  | deleteFilter _ hnote => exact .inl ⟨a, (List.mem_filter.mp (hnote assets ▸ ha)).1, rfl⟩

end Commands

/-- What a task has made of its identifier, and what it has on the host. -/
structure Estate where
  id : Option Uuid := none
  placed : Bool := false
  record : Option VmResources := none
  assets : List Asset := []

def Estate.Owns (v : Estate) (x : Resource) : Prop := ∃ a ∈ v.assets, a.resource = x

/-- The two rules of a VM, as they are added. -/
def natRules (ip : Ipv4Addr) (name iface : String) (h : NatHandles) : List Asset :=
  [.postrouting ⟨h.postrouting, ip, iface⟩, .filter ⟨h.filter, name, iface⟩]

/-- The tap and the two rules of a VM, as they are set up. -/
def networkOf (ip tapIp : Ipv4Addr) (name iface : String) (h : NatHandles) : List Asset :=
  .tap ⟨name, some tapIp, true⟩ :: natRules ip name iface h

/-- What a VM of that record has on the host. -/
def assetsOf (config : AppConfig) (r : VmResources) : List Asset :=
  (r.rootfsCopy.map Asset.rootfs).toList ++ match r.tapName, r.subnetIndex, r.natHandles with
    | some name, some i, some h =>
      networkOf (subnetGuestIp i) (subnetTapIp i) name config.jailer.hostInterface h
    | _, _, _ => []

/-- What a task has on the host after its command. -/
def Estate.after (v : Estate) (c : Choice) (cmd : Command) : Estate :=
  { v with assets := noteAssets v.assets c cmd }

/-- `w` has what `v` has, apart perhaps from what is known as one of `gone`. -/
structure Without (gone : Set Resource) (v w : Estate) : Prop where
  id : w.id = v.id
  placed : w.placed = v.placed
  record : w.record = v.record
  assets : ∀ a ∈ v.assets, a.resource ∉ gone → a ∈ w.assets

section Without

variable {gone gone' : Set Resource} {u v w : Estate} {x : Resource}

theorem Without.owns (h : Without gone v w) (hx : v.Owns x) (hne : x ∉ gone) : w.Owns x := by
  obtain ⟨a, ha, rfl⟩ := hx
  exact ⟨a, h.assets a ha hne, rfl⟩

theorem Without.refl : Without gone v v := ⟨rfl, rfl, rfl, fun _ ha _ => ha⟩

theorem Without.trans (h : Without gone v w) (h' : Without gone w u) : Without gone v u where
  id := h'.id.trans h.id
  placed := h'.placed.trans h.placed
  record := h'.record.trans h.record
  assets a ha hne := h'.assets a (h.assets a ha hne) hne

theorem Without.mono (h : Without gone v w) (hg : gone ⊆ gone') : Without gone' v w where
  id := h.id
  placed := h.placed
  record := h.record
  assets a ha hne := h.assets a ha fun hm => hne (hg hm)

theorem without_filter : Without {x} v { v with assets := v.assets.filter (·.resource ≠ x) } where
  id := rfl
  placed := rfl
  record := rfl
  assets _ ha hne := List.mem_filter.mpr ⟨ha, decide_eq_true hne⟩

theorem without_cp {c : Choice} {strategy : CopyStrategy} {source dest : String} :
    Without ∅ v (v.after c (.cp strategy source dest)) where
  id := rfl
  placed := rfl
  record := rfl
  assets a ha _ := by
    simp only [Estate.after, noteAssets]
    split
    · exact List.mem_cons_of_mem _ ha
    · exact ha

/-- A command takes nothing away from a task but what it touches. -/
theorem without_after {c : Choice} {cmd : Command} (h : ∀ x, touches cmd = some x → x ∈ gone) :
    Without gone v (v.after c cmd) where
  id := rfl
  placed := rfl
  record := rfl
  assets a ha hne := by
    have hother : touches cmd ≠ some a.resource := fun heq => hne (h _ heq)
    have hmap (name : String) (f : Tap → Tap) (hname : a.resource ≠ .tap name) :
        a ∈ v.assets.map (Asset.onTaps name f) := by
      refine List.mem_map.mpr ⟨a, ha, ?_⟩
      cases a with
      | tap t => simp_all [Asset.onTaps, Asset.resource]
      | _ => rfl
    have hfilter (x : Resource) (hx : a.resource ≠ x) :
        a ∈ v.assets.filter (·.resource ≠ x) := List.mem_filter.mpr ⟨ha, decide_eq_true hx⟩
    change a ∈ noteAssets v.assets c cmd
    cases cmd with
    | chown => exact ha
    | addrAdd address name =>
      simp only [noteAssets]
      split
      · exact hmap name _ fun heq => hother (congrArg some heq.symm)
      · exact ha
    | linkUp name =>
      simp only [noteAssets]
      split
      · exact hmap name _ fun heq => hother (congrArg some heq.symm)
      · exact ha
    | linkDel name =>
      simp only [noteAssets]
      split
      · exact hfilter _ fun heq => hother (congrArg some heq.symm)
      · exact ha
    | deleteRule chain handle =>
      simp only [noteAssets]
      split
      · exact hfilter _ fun heq => hother (congrArg some heq.symm)
      · exact ha
    | _ =>
      simp only [noteAssets]
      split
      · exact List.mem_cons_of_mem _ ha
      · exact ha

end Without

/-- What the rules of both chains are known by. -/
def rules : Set Resource := {x | ∃ chain handle, x = .rule chain handle}

variable (config : AppConfig)

def estateRequires : Op → Estate → Prop
  | .command (.cp _ _ dest), v =>
    v.placed = false ∧ ∃ id, v.id = some id ∧ dest = rootfsPath config.jailer.vmImagesDir id
  | .command cmd, v => ∀ x, touches cmd = some x → v.Owns x
  | .removeFile path, v => v.Owns (.rootfs path)
  | .vms (.upgrade _), v => ∃ r, v.record = some r ∧ ∀ a ∈ assetsOf config r, a ∈ v.assets
  | _, _ => True

def estateAllows : (o : Op) → Choice → Reply o → Estate → Prop
  | .command cmd, c, r, _ => r.isSome = c.succeeds ∧
      (AddsRule cmd → ∀ out, r = some out → parseNftHandle out = some c.handle)
  | .vms (.remove _), _, entry, v => ∃ r, v.record = some r ∧ entry = some (.creating r)
  | .vms (.take id), _, .ok r, _ => RecordFits config id r
  | .vms (.get id), _, some (.creating r), v => v.id = some id → v.record = some r
  | _, _, _, _ => True

def noteEstate (v : Estate) (c : Choice) : (o : Op) → Reply o → Estate
  | .newV4, id => { v with id := some id }
  | .command cmd, _ => v.after c cmd
  | .removeFile path, true => { v with assets := v.assets.filter (·.resource ≠ .rootfs path) }
  | .vms (.reserve _ r), .ok () => { v with placed := true, record := some r }
  | .vms (.upgrade _), true => { v with record := none, assets := [] }
  | .vms (.remove _), some _ => { v with record := none }
  | .vms (.discard _), _ => { v with record := none }
  | .vms (.take _), .ok r => { v with assets := assetsOf config r }
  | _, _ => v

def possession (_ : Request) : Discipline Reply Choice Estate where
  requires := estateRequires config
  allows := estateAllows config
  note o c r v := noteEstate config v c o r
  considers _ _ _ := True
  leave _ v := v

variable {config} {lib : Libraries} {request : Request} {α : Type} {v w : Estate}
  {vmId : Uuid} {r : VmResources}

section Rules

theorem inert_possession {o : Op} (hr : estateRequires config o v)
    (hn : ∀ c r, noteEstate config v c o r = v) : Inert (possession config request) v o :=
  ⟨hr, fun c r _ => hn c r⟩

theorem watchful_possession : Watchful (possession config request) v where
  inert o ho := by
    cases o with
    | vms s => cases s <;> first | exact ho.elim | exact inert_possession trivial fun _ _ => rfl
    | _ => first | exact ho.elim | exact inert_possession trivial fun _ _ => rfl
  stays _ _ _ := rfl

theorem lockBlind_possession : LockBlind (possession config request) where
  lock _ _ := watchful_possession.inert _ trivial
  resume _ := watchful_possession.inert _ trivial
  unlock _ _ := watchful_possession.inert _ trivial
  stays _ := watchful_possession.stays

theorem goesOn {x : Async α} {post : α → Estate → Prop} {exit : Estate → Prop}
    (h : x.Keeps (possession config request) v) (hp : ∀ a, post a v) (he : exit v) :
    x.Ensures (possession config request) post exit v :=
  h.mono (fun a _ hw => hw ▸ hp a) fun _ hw => hw.1 ▸ he

/-- What one command does to the estate. -/
theorem safe_runCmdOutput {cmd : Command} {post : Option Text → Estate → Prop}
    (hreq : estateRequires config (.command cmd) v)
    (hpost : ∀ c r, estateAllows config (.command cmd) c r v → post r (v.after c cmd)) :
    (runCmdOutput cmd).Safe (possession config request) post v := ⟨hreq, hpost⟩

theorem safe_runCmd {cmd : Command} {post : Bool → Estate → Prop}
    (hreq : estateRequires config (.command cmd) v)
    (hpost : ∀ c : Choice, post c.succeeds (v.after c cmd)) :
    (runCmd cmd).Safe (possession config request) post v := by
  refine Script.safe_bind.mpr (safe_runCmdOutput hreq fun c r ha => ?_)
  obtain ⟨hr, _⟩ := ha
  change post r.isSome _
  rw [hr]
  exact hpost c

/-- A task may change or take down what it has, and loses nothing else by it. -/
theorem safe_touching {cmd : Command} {x : Resource} (hx : touches cmd = some x) (h : v.Owns x)
    (hcp : ∀ strategy source dest, cmd ≠ .cp strategy source dest) :
    (runCmd cmd).Safe (possession config request) (fun _ => Without {x} v) v := by
  have hreq : estateRequires config (.command cmd) v := by
    cases cmd with
    | cp strategy source dest => exact absurd rfl (hcp strategy source dest)
    | _ =>
      intro y hy
      obtain rfl := Option.some.inj (hx.symm.trans hy)
      exact h
  refine safe_runCmd hreq fun c => without_after fun y hy => ?_
  exact (Option.some.inj (hx.symm.trans hy)).symm

theorem safe_deleteTap {name : String} (h : v.Owns (.tap name)) :
    (deleteTap name).Safe (possession config request) (fun _ => Without {.tap name} v) v :=
  Script.safe_bind.mpr ((safe_touching rfl h (by simp)).mono fun _ _ hw => hw)

theorem safe_removeNatRules {handles : NatHandles}
    (hpost : v.Owns (.rule .postrouting handles.postrouting))
    (hfilter : v.Owns (.rule .filter handles.filter)) :
    (removeNatRules handles).Safe (possession config request) (fun _ => Without rules v) v := by
  refine Script.safe_bind.mpr ((safe_touching rfl hpost (by simp)).mono fun _ w hw => ?_)
  refine Script.safe_bind.mpr ((safe_touching rfl (hw.owns hfilter (by simp)) (by simp)).mono
    fun _ u hu => ?_)
  exact (hw.mono (by simp [rules])).trans (hu.mono (by simp [rules]))

theorem safe_removeFile {path : String} (h : v.Owns (.rootfs path)) :
    (cleanupRootfsCopy path).Safe (possession config request)
      (fun _ => Without {.rootfs path} v) v := by
  refine ⟨h, fun _ removed _ => ?_⟩
  cases removed with
  | false => exact Without.refl
  | true => exact without_filter

end Rules

section Networking

variable {name iface : String} {ip : Ipv4Addr}

theorem safe_createTap :
    (createTap name ip).Safe (possession config request) (fun made w => Without {.tap name} v w ∧
      (made = true → .tap ⟨name, some ip, true⟩ ∈ w.assets)) v := by
  have hdel {u : Estate} (hu : Without {.tap name} v u) (howns : u.Owns (.tap name)) :
      (do let _ ← runCmd (.linkDel name); return false : Code Bool).Safe (possession config request)
        (fun made w => Without {.tap name} v w ∧
          (made = true → .tap ⟨name, some ip, true⟩ ∈ w.assets)) u :=
    Script.safe_bind.mpr ((safe_touching rfl howns (by simp)).mono
      fun _ w hw => ⟨hu.trans hw, by simp⟩)
  have hreq {u : Estate} {t : Tap} (ht : .tap t ∈ u.assets) (hname : t.name = name) (x : Resource)
      (hx : some (Resource.tap name) = some x) : u.Owns x := by
    obtain rfl := Option.some.inj hx
    exact ⟨_, ht, by rw [← hname]; rfl⟩
  refine Script.safe_bind.mpr (safe_runCmd (by simp [estateRequires, touches]) fun c₁ => ?_)
  have hv₁ : Without {.tap name} v (v.after c₁ (.tuntapAdd name)) :=
    without_after (by simp [touches])
  cases h₁ : c₁.succeeds with
  | false => exact ⟨hv₁, by simp⟩
  | true =>
    have hadded : .tap ⟨name, none, false⟩ ∈ (v.after c₁ (.tuntapAdd name)).assets := by
      simp [Estate.after, noteAssets, h₁]
    generalize v.after c₁ (.tuntapAdd name) = w₁ at hv₁ hadded ⊢
    refine Script.safe_bind.mpr (safe_runCmd (hreq hadded rfl) fun c₂ => ?_)
    have hv₂ : Without {.tap name} v (w₁.after c₂ (.addrAdd ip name)) :=
      hv₁.trans (without_after (by simp [touches]))
    cases h₂ : c₂.succeeds with
    | false =>
      exact hdel hv₂ ⟨_, by simpa [Estate.after, noteAssets, h₂] using hadded, rfl⟩
    | true =>
      have haddressed : .tap ⟨name, some ip, false⟩ ∈ (w₁.after c₂ (.addrAdd ip name)).assets := by
        simp only [Estate.after, noteAssets, h₂, if_true]
        exact List.mem_map.mpr ⟨_, hadded, by simp [Asset.onTaps]⟩
      generalize w₁.after c₂ (.addrAdd ip name) = w₂ at hv₂ haddressed ⊢
      refine Script.safe_bind.mpr (safe_runCmd (hreq haddressed rfl) fun c₃ => ?_)
      have hv₃ : Without {.tap name} v (w₂.after c₃ (.linkUp name)) :=
        hv₂.trans (without_after (by simp [touches]))
      cases h₃ : c₃.succeeds with
      | false =>
        exact hdel hv₃ ⟨_, by simpa [Estate.after, noteAssets, h₃] using haddressed, rfl⟩
      | true =>
        refine ⟨hv₃, fun _ => ?_⟩
        change _ ∈ noteAssets w₂.assets c₃ (.linkUp name)
        simp only [noteAssets, h₃, if_true]
        exact List.mem_map.mpr ⟨_, haddressed, by simp [Asset.onTaps]⟩

theorem safe_addNatRules :
    (addNatRules ip name iface).Safe (possession config request) (fun result w =>
      Without rules v w ∧ ∀ h, result = some h → ∀ a ∈ natRules ip name iface h, a ∈ w.assets)
      v := by
  refine Script.safe_bind.mpr (safe_runCmdOutput (by simp [estateRequires, touches])
    fun c₁ r₁ ha₁ => ?_)
  obtain ⟨hr₁, hprints₁⟩ := ha₁
  have hv₁ : Without rules v (v.after c₁ (.addPostroutingRule ip iface)) :=
    without_after (by simp [touches])
  cases r₁ with
  | none => exact ⟨hv₁, by simp⟩
  | some out₁ =>
    have h₁ : c₁.succeeds = true := hr₁.symm
    have hpost : .postrouting ⟨c₁.handle, ip, iface⟩ ∈
        (v.after c₁ (.addPostroutingRule ip iface)).assets := by
      simp [Estate.after, noteAssets, h₁]
    simp only [hprints₁ trivial out₁ rfl]
    generalize v.after c₁ (.addPostroutingRule ip iface) = w₁ at hv₁ hpost ⊢
    refine Script.safe_bind.mpr (safe_runCmdOutput (by simp [estateRequires, touches])
      fun c₂ r₂ ha₂ => ?_)
    obtain ⟨hr₂, hprints₂⟩ := ha₂
    have hv₂ : Without ∅ w₁ (w₁.after c₂ (.addFilterRule name iface)) :=
      without_after (by simp [touches])
    have hpost₂ := hv₂.assets _ hpost (by simp)
    have hv₂ : Without rules v (w₁.after c₂ (.addFilterRule name iface)) :=
      hv₁.trans (hv₂.mono (by simp))
    cases r₂ with
    | none =>
      have howns : (w₁.after c₂ (.addFilterRule name iface)).Owns (.rule .postrouting c₁.handle) :=
        ⟨_, hpost₂, rfl⟩
      refine Script.safe_bind.mpr ((safe_touching rfl howns (by simp)).mono fun _ w hw => ?_)
      exact ⟨hv₂.trans (hw.mono (by simp [rules])), by simp⟩
    | some out₂ =>
      have h₂ : c₂.succeeds = true := hr₂.symm
      have hfilter : .filter ⟨c₂.handle, name, iface⟩ ∈
          (w₁.after c₂ (.addFilterRule name iface)).assets := by
        simp [Estate.after, noteAssets, h₂]
      simp only [hprints₂ trivial out₂ rfl]
      refine ⟨hv₂, fun h hh => ?_⟩
      obtain rfl := Option.some.inj hh
      simpa [natRules] using ⟨hpost₂, hfilter⟩

theorem safe_setupNetworking {subnet : SubnetAllocation} :
    (setupNetworking subnet iface).Safe (possession config request) (fun result w =>
      Without ({.tap subnet.tapName} ∪ rules) v w ∧ ∀ h, result = some h →
        ∀ a ∈ networkOf subnet.guestIp subnet.tapIp subnet.tapName iface h, a ∈ w.assets) v := by
  refine Script.safe_bind.mpr (safe_createTap.mono fun made w hw => ?_)
  obtain ⟨hv, htap⟩ := hw
  have hv : Without ({.tap subnet.tapName} ∪ rules) v w := hv.mono (by simp)
  cases made with
  | false => exact ⟨hv, by simp⟩
  | true =>
    have htap := htap rfl
    refine Script.safe_bind.mpr (safe_addNatRules.mono fun result u hu => ?_)
    obtain ⟨hw, hrules⟩ := hu
    have htap' := hw.assets _ htap (by simp [rules, Asset.resource])
    have hv : Without ({.tap subnet.tapName} ∪ rules) v u := hv.trans (hw.mono (by simp))
    cases result with
    | none =>
      refine Script.safe_bind.mpr ((safe_deleteTap ⟨_, htap', rfl⟩).mono fun _ u' hu' => ?_)
      exact ⟨hv.trans (hu'.mono (by simp)), by simp⟩
    | some handles =>
      refine ⟨hv, fun h hh => ?_⟩
      obtain rfl := Option.some.inj hh
      simpa [networkOf] using ⟨htap', hrules handles rfl⟩

theorem safe_copyRootfs {strategy : CopyStrategy} {source : String} {uid gid : ℕ}
    (hp : v.placed = false) (hid : v.id = some vmId) :
    (copyRootfs strategy source (rootfsPath config.jailer.vmImagesDir vmId) uid gid).Safe
      (possession config request) (fun copied w => Without ∅ v w ∧
        (copied = true → .rootfs (rootfsPath config.jailer.vmImagesDir vmId) ∈ w.assets)) v := by
  generalize hdest : rootfsPath config.jailer.vmImagesDir vmId = dest
  refine Script.safe_bind.mpr (safe_runCmd ⟨hp, vmId, hid, hdest.symm⟩ fun c₁ => ?_)
  have hv₁ : Without ∅ v (v.after c₁ (.cp strategy source dest)) := without_cp
  cases h₁ : c₁.succeeds with
  | false => exact ⟨hv₁, by simp⟩
  | true =>
    have hadded : .rootfs dest ∈ (v.after c₁ (.cp strategy source dest)).assets := by
      simp [Estate.after, noteAssets, h₁]
    have hown : estateRequires config (.command (.chown uid gid dest))
        (v.after c₁ (.cp strategy source dest)) := by
      intro x hx
      obtain rfl := Option.some.inj hx
      exact ⟨_, hadded, rfl⟩
    refine Script.safe_bind.mpr (safe_runCmd hown fun c₂ => ?_)
    cases c₂.succeeds with
    | false => exact ⟨hv₁, by simp⟩
    | true => exact ⟨hv₁, fun _ => hadded⟩

end Networking

section Handlers

/-- What a record that fits names is what the task has. -/
structure Names (config : AppConfig) (vmId : Uuid) (r : VmResources) (v : Estate) : Prop where
  fits : RecordFits config vmId r
  assets : ∀ a ∈ assetsOf config r, a ∈ v.assets

theorem Names.owns (h : Names config vmId r v) {i : U16} {handles : NatHandles}
    (hindex : r.subnetIndex = some i) (htap : r.tapName = some (tapName i))
    (hhandles : r.natHandles = some handles) :
    v.Owns (.rootfs (rootfsPath config.jailer.vmImagesDir vmId)) ∧ v.Owns (.tap (tapName i)) ∧
      v.Owns (.rule .postrouting handles.postrouting) ∧ v.Owns (.rule .filter handles.filter) := by
  have hall := h.assets
  simp only [assetsOf, h.fits.rootfs, hindex, htap, hhandles, networkOf, natRules,
    Option.map_some, Option.toList_some, List.singleton_append, List.forall_mem_cons] at hall
  obtain ⟨hrootfs, htap, hpost, hfilter, _⟩ := hall
  exact ⟨⟨_, hrootfs, rfl⟩, ⟨_, htap, rfl⟩, ⟨_, hpost, rfl⟩, ⟨_, hfilter, rfl⟩⟩

theorem ensures_releaseSubnet {i : U16} {exit : Estate → Prop} (he : exit v) :
    (releaseSubnet i).Ensures (possession config request) (fun _ w => w = v) exit v := by
  have hrelease : Inert (possession config request) v (.release i) :=
    inert_possession trivial fun _ _ => rfl
  refine ensures_withLock lockBlind_possession ?_ fun _ => he
  exact goesOn (Handler.keeps_perform hrelease) (fun _ => rfl) he

theorem ensures_freeResources {exit : Estate → Prop} (h : Names config vmId r v)
    (he : ∀ w, w.id = v.id → w.record = v.record → exit w) :
    (freeResources r).Ensures (possession config request)
      (fun _ w => w.id = v.id ∧ w.record = v.record) exit v := by
  obtain ⟨i, hi, hindex, htap, hip⟩ := h.fits.subnet
  obtain ⟨handles, hhandles⟩ := h.fits.handles
  obtain ⟨hrootfs, hown, hpost, hfilter⟩ := h.owns hindex htap hhandles
  simp only [freeResources, htap, hhandles, hindex, h.fits.rootfs]
  refine Handler.Ensures.bind (Handler.ensures_inline ((safe_deleteTap hown).mono
    fun _ w₁ hw₁ => ?_))
  refine Handler.Ensures.bind (Handler.ensures_inline ((safe_removeNatRules
    (hw₁.owns hpost (by simp)) (hw₁.owns hfilter (by simp))).mono fun _ w₂ hw₂ => ?_))
  have hid : w₂.id = v.id := hw₂.id.trans hw₁.id
  have hrecord : w₂.record = v.record := hw₂.record.trans hw₁.record
  refine Handler.Ensures.bind ((ensures_releaseSubnet (he w₂ hid hrecord)).mono
    (fun _ w hw => ?_) fun _ hw => hw)
  subst hw
  have howns : w.Owns (.rootfs (rootfsPath config.jailer.vmImagesDir vmId)) :=
    hw₂.owns (hw₁.owns hrootfs (by simp)) (by simp [rules])
  refine Handler.ensures_inline ((safe_removeFile howns).mono fun _ w₃ hw₃ => ?_)
  exact ⟨hw₃.id.trans hid, hw₃.record.trans hrecord⟩

/-- The create guard has what it has to take down, if there is anything. -/
structure Guarded (config : AppConfig) (vmId : Uuid) (v : Estate) : Prop where
  id : v.id = some vmId
  names : ∀ r, v.record = some r → Names config vmId r v

theorem safe_tryFreeResources {post : Unit → Estate → Prop} (h : Names config vmId r v)
    (hp : ∀ w, post () w) : (tryFreeResources r).Safe (possession config request) post v := by
  obtain ⟨i, hi, hindex, htap, hip⟩ := h.fits.subnet
  obtain ⟨handles, hhandles⟩ := h.fits.handles
  obtain ⟨hrootfs, hown, hpost, hfilter⟩ := h.owns hindex htap hhandles
  simp only [tryFreeResources, htap, hhandles, hindex, h.fits.rootfs]
  refine Script.safe_bind.mpr ((safe_deleteTap hown).mono fun _ w₁ hw₁ => ?_)
  refine Script.safe_bind.mpr ((safe_removeNatRules (hw₁.owns hpost (by simp))
    (hw₁.owns hfilter (by simp))).mono fun _ w₂ hw₂ => ?_)
  have howns : w₂.Owns (.rootfs (rootfsPath config.jailer.vmImagesDir vmId)) :=
    hw₂.owns (hw₁.owns hrootfs (by simp)) (by simp [rules])
  have hremoved : (do let _ ← Code.perform (.removeFile
      (rootfsPath config.jailer.vmImagesDir vmId)) : Code Unit).Safe (possession config request) post
      w₂ := ⟨howns, fun _ _ _ => hp _⟩
  refine Script.safe_bind.mpr (Script.safe_bind.mpr ⟨trivial, fun _ acquired _ => ?_⟩)
  cases acquired with
  | false => exact hremoved
  | true =>
    refine Script.safe_bind.mpr ⟨trivial, fun _ _ _ => ?_⟩
    exact ⟨trivial, fun _ _ _ => hremoved⟩

theorem safe_createGuardDrop {post : Unit → Estate → Prop} (h : Guarded config vmId v)
    (hp : ∀ w, post () w) : (createGuardDrop vmId).Safe (possession config request) post v := by
  have hfinish (w : Estate) : (do
      Code.perform (.vms (.discard vmId))
      Code.perform (.unlock .registry) : Code Unit).Safe (possession config request) post w :=
    ⟨trivial, fun _ _ _ => ⟨trivial, fun _ _ _ => hp _⟩⟩
  refine Script.safe_bind.mpr ⟨trivial, fun _ acquired _ => ?_⟩
  cases acquired with
  | false => exact hp v
  | true =>
    refine Script.safe_bind.mpr ⟨trivial, fun _ entry ha => ?_⟩
    rcases entry with _ | r | r
    · exact hfinish v
    · exact Script.safe_bind.mpr (safe_tryFreeResources (h.names r (ha h.id)) hfinish)
    · exact hfinish v

theorem ensures_cleanupPlaceholder (h : Guarded config vmId v) :
    (cleanupPlaceholder vmId).Ensures (possession config request) (fun _ _ => True)
      (Guarded config vmId) v := by
  refine ensures_withLock lockBlind_possession ?_ fun _ => h
  refine Handler.Ensures.bind (ensures_inSection (.remove vmId) trivial fun _ entry ha => ?_)
  obtain ⟨r, hrecord, rfl⟩ := ha
  have hnames := h.names r hrecord
  have hnames' : Names config vmId r { v with record := none } := ⟨hnames.fits, hnames.assets⟩
  refine (ensures_freeResources hnames' fun w hid hnone => ⟨hid.trans h.id, ?_⟩).mono
    (fun _ _ _ => trivial) fun _ hw => hw
  intro r' hr'
  simp [hnone] at hr'

theorem ensures_upgradePlaceholder (h : Guarded config vmId v) (hrecord : v.record = some r) :
    (upgradePlaceholder vmId).Ensures (possession config request) (fun _ _ => True)
      (Guarded config vmId) v := by
  have hdrop (w : Estate) (hw : Guarded config vmId w) : (Code.perform (.dropInstance vmId)).Safe
      (possession config request) (fun _ => Guarded config vmId) w := ⟨trivial, fun _ _ _ => hw⟩
  refine Handler.Ensures.guarded (ensures_withLock lockBlind_possession ?_ fun _ => hdrop v h)
  exact ensures_inSection (.upgrade vmId) ⟨r, hrecord, (h.names r hrecord).assets⟩
    fun _ _ _ => trivial

theorem ensures_launch {vcpus : U8} {memoryMb : U32} {kernel vmRootfs path : String}
    {subnet : SubnetAllocation} (h : Guarded config vmId v) (hrecord : v.record = some r) :
    (launch config vmId vcpus memoryMb kernel vmRootfs subnet path).Ensures
      (possession config request) (fun _ _ => True) (Guarded config vmId) v := by
  refine Handler.Ensures.bind (goesOn (keeps_setupFirecrackerInstance watchful_possession
    (fun _ _ _ => inert_possession trivial fun _ _ => rfl)
    (fun _ _ => inert_possession trivial fun _ _ => rfl)
    (inert_possession trivial fun _ _ => rfl)) (fun desc => ?_) h)
  cases desc with
  | none =>
    exact Handler.Ensures.bind ((ensures_cleanupPlaceholder h).mono (fun _ _ _ =>
      Handler.ensures_pure trivial) fun _ hw => hw)
  | some desc =>
    exact Handler.Ensures.bind ((ensures_upgradePlaceholder h hrecord).mono (fun _ _ _ =>
      Handler.ensures_pure trivial) fun _ hw => hw)

theorem ensures_reservePlaceholder {subnet : SubnetAllocation} {natHandles : NatHandles}
    (h : Names config vmId r v) (hid : v.id = some vmId)
    (hindex : r.subnetIndex = some subnet.index) (htap : r.tapName = some (tapName subnet.index))
    (hhandles : r.natHandles = some natHandles) :
    (reservePlaceholder vmId r subnet natHandles).Ensures (possession config request)
      (fun reserved w => reserved = .ok () → Guarded config vmId w ∧ w.record = some r)
      (fun _ => True) v := by
  obtain ⟨_, hown, hpost, hfilter⟩ := h.owns hindex htap hhandles
  refine ensures_withLock lockBlind_possession ?_ fun _ => trivial
  refine Handler.Ensures.bind (ensures_inSection (.reserve vmId r) trivial fun _ reserved _ => ?_)
  cases reserved with
  | ok _ =>
    refine Handler.ensures_pure fun _ => ⟨⟨hid, fun r' hr' => ?_⟩, rfl⟩
    obtain rfl := Option.some.inj hr'
    exact ⟨h.fits, h.assets⟩
  | error e =>
    refine Handler.Ensures.bind (Handler.ensures_inline ((safe_removeNatRules hpost hfilter).mono
      fun _ w₁ hw₁ => ?_))
    have hown : w₁.Owns (.tap subnet.tapName) :=
      subnet.tapName_eq ▸ hw₁.owns hown (by simp [rules])
    refine Handler.Ensures.bind (Handler.ensures_inline ((safe_deleteTap hown).mono
      fun _ w₂ _ => ?_))
    refine Handler.Ensures.bind ((ensures_releaseSubnet trivial).mono (fun _ _ _ => ?_)
      fun _ hw => hw)
    exact Handler.ensures_pure (by simp)

theorem assets_placeholder {body : Option CreateVmRequest} {vcpus : U8} {memoryMb : U32}
    {subnet : SubnetAllocation} {natHandles : NatHandles} :
    assetsOf config (placeholder config body vmId vcpus memoryMb subnet natHandles) =
      .rootfs (rootfsPath config.jailer.vmImagesDir vmId) ::
        networkOf subnet.guestIp subnet.tapIp subnet.tapName config.jailer.hostInterface
          natHandles := by
  rw [subnet.guestIp_eq, subnet.tapIp_eq]
  rfl

theorem keeps_reportCreated {vcpus : U8} {memoryMb : U32} :
    (reportCreated config vmId vcpus memoryMb).Keeps (possession config request) v := by
  have hregister : Inert (possession config request) v (.registerVm vmId vcpus memoryMb) :=
    inert_possession trivial fun _ _ => rfl
  unfold reportCreated
  split
  · exact .bind (Handler.keeps_await hregister watchful_possession.stays) fun _ =>
      Handler.keeps_pure
  · exact Handler.keeps_pure

theorem ensures_copy {strategy : CopyStrategy} {source : String} {uid gid : ℕ}
    (hp : v.placed = false) (hid : v.id = some vmId) :
    (Handler.offload (copyRootfs strategy source (rootfsPath config.jailer.vmImagesDir vmId) uid
      gid) : Async (Option Bool)).Ensures (possession config request)
      (fun copied w => copied = some true → w.id = some vmId ∧
        .rootfs (rootfsPath config.jailer.vmImagesDir vmId) ∈ w.assets) (fun _ => True) v := by
  refine Handler.ensures_offload_anywhere ((safe_copyRootfs hp hid).mono fun copied w hw => ?_)
    (fun _ => rfl) (fun _ => by simp) fun _ => trivial
  intro hcopied
  exact ⟨hw.1.id.trans hid, hw.2 (Option.some.inj hcopied)⟩

theorem ensures_networking {subnet : SubnetAllocation} {iface : String} :
    (Handler.offload (setupNetworking subnet iface) : Async (Option (Option NatHandles))).Ensures
      (possession config request) (fun result w => ∀ h, result = some (some h) → w.id = v.id ∧
        (∀ path, .rootfs path ∈ v.assets → .rootfs path ∈ w.assets) ∧
        ∀ a ∈ networkOf subnet.guestIp subnet.tapIp subnet.tapName iface h, a ∈ w.assets)
      (fun _ => True) v := by
  refine Handler.ensures_offload_anywhere (safe_setupNetworking.mono fun result w hw => ?_)
    (fun _ => rfl) (fun _ => by simp) fun _ => trivial
  intro h hresult
  refine ⟨hw.1.id, fun path hpath => hw.1.assets _ hpath ?_, hw.2 h (Option.some.inj hresult)⟩
  simp [rules, Asset.resource]

theorem ensures_create (body : Option CreateVmRequest) :
    (create config body).Ensures (possession config request) (fun _ _ => True) (fun _ => True)
      {} := by
  have hfail {a : Answer} {w : Estate} : (pure a : Async Answer).Ensures
      (possession config request) (fun _ _ => True) (fun _ => True) w := Handler.ensures_pure trivial
  unfold create
  cases validateVmConfig (body.bind (·.vcpus)) (body.bind (·.memoryMb)) with
  | error e => exact hfail
  | ok size =>
  obtain ⟨vcpus, memoryMb⟩ := size
  refine Handler.Ensures.bind (Handler.ensures_perform trivial fun _ vmId _ => ?_)
  have hdrawn : ({ id := some vmId } : Estate).id = some vmId := rfl
  refine Handler.Ensures.bind ((ensures_copy rfl hdrawn).mono (fun copied w hw => ?_)
    fun _ hw => hw)
  rcases copied with _ | _ | _
  · exact hfail
  · exact hfail
  obtain ⟨hid, hrootfs⟩ := hw rfl
  refine Handler.Ensures.bind (ensures_withLock lockBlind_possession
    (Handler.ensures_perform trivial fun _ subnet _ => ?_) fun _ => trivial)
  cases subnet with
  | none => exact hfail
  | some subnet =>
  refine Handler.Ensures.bind (ensures_networking.mono (fun result u hu => ?_) fun _ hw => hw)
  rcases result with _ | _ | natHandles
  · have hdrop : Inert (possession config request) u .dropLocals :=
      inert_possession trivial fun _ _ => rfl
    exact Handler.Ensures.bind (goesOn (Handler.keeps_perform hdrop) (fun _ => hfail) trivial)
  · exact Handler.Ensures.bind ((ensures_releaseSubnet trivial).mono (fun _ _ _ => hfail)
      fun _ hw => hw)
  obtain ⟨hid', hkept, hnetwork⟩ := hu natHandles rfl
  have hnames : Names config vmId (placeholder config body vmId vcpus memoryMb subnet natHandles)
      u := by
    refine ⟨recordFits_placeholder, ?_⟩
    rw [assets_placeholder]
    exact List.forall_mem_cons.mpr ⟨hkept _ hrootfs, hnetwork⟩
  have htap : (placeholder config body vmId vcpus memoryMb subnet natHandles).tapName =
      some (tapName subnet.index) := congrArg some subnet.tapName_eq
  refine Handler.Ensures.bind ((ensures_reservePlaceholder hnames (hid'.trans hid) rfl htap
    rfl).mono (fun reserved w hw => ?_) fun _ _ => trivial)
  cases reserved with
  | error e => exact hfail
  | ok _ =>
  obtain ⟨hguarded, hrecord⟩ := hw rfl
  refine Handler.Ensures.bind (Handler.Ensures.guarded ((ensures_launch hguarded hrecord).mono
    (fun launched w _ => ?_) fun w hw => safe_createGuardDrop hw fun _ => trivial))
  rcases launched with _ | ⟨desc, moved⟩
  · exact hfail
  have hdrop : Inert (possession config request) w (.dropInstance vmId) :=
    inert_possession trivial fun _ _ => rfl
  cases moved with
  | true => exact Handler.Ensures.bind (goesOn keeps_reportCreated (fun _ => hfail) trivial)
  | false =>
    exact Handler.Ensures.bind (goesOn (keeps_reportCreated.owning hdrop.steady) (fun _ => hfail)
      trivial)

theorem ensures_delete (id : Uuid) :
    (delete config id).Ensures (possession config request) (fun _ _ => True) (fun _ => True) v := by
  refine ensures_withLock lockBlind_possession ?_ fun _ => trivial
  refine Handler.Ensures.bind (ensures_inSection (.take id) trivial fun _ taken ha => ?_)
  cases taken with
  | error e => exact Handler.ensures_pure trivial
  | ok r =>
    have hnames : Names config id r { v with assets := assetsOf config r } := ⟨ha, fun _ hx => hx⟩
    have hstop : (stopInstance id).Keeps (possession config request)
        { v with assets := assetsOf config r } :=
      keeps_stopInstance watchful_possession.stays (inert_possession trivial fun _ _ => rfl)
        (inert_possession trivial fun _ _ => rfl)
    refine Handler.Ensures.bind (goesOn hstop (fun _ => ?_) trivial)
    refine Handler.Ensures.bind ((ensures_freeResources hnames fun _ _ _ => trivial).mono
      (fun _ w _ => ?_) fun _ hw => hw)
    have hderegister : Inert (possession config request) w (.deregisterVm id) :=
      inert_possession trivial fun _ _ => rfl
    split
    · exact Handler.Ensures.bind (goesOn (Handler.keeps_await hderegister
        watchful_possession.stays) (fun _ => Handler.ensures_pure trivial) trivial)
    · exact Handler.ensures_pure trivial

/-- Every handler changes and takes down only what is its own. -/
theorem safe_possession (config : AppConfig) (request : Request) :
    (handlerOf config request).Safe (possession config request) (fun _ _ => True) {} := by
  have hanswering {x : Async Answer} (h : x.Ensures (possession config request) (fun _ _ => True)
      (fun _ => True) {}) : (answering x).Safe (possession config request) (fun _ _ => True) {} :=
    h _ _ _ (fun _ _ => trivial) fun _ _ _ => trivial
  have hkeeps {x : Async Answer} (h : x.Keeps (possession config request) {}) :
      (answering x).Safe (possession config request) (fun _ _ => True) {} :=
    hanswering (goesOn h (fun _ => trivial) trivial)
  cases request with
  | create body => exact hanswering (ensures_create body)
  | delete id => exact hanswering (ensures_delete id)
  | get id => exact hkeeps (keeps_get watchful_possession id)
  | list => exact hkeeps (keeps_list watchful_possession)
  | ready => exact hkeeps (keeps_ready watchful_possession)
  | session => trivial

theorem possession_callback {self : SessionHandler} (cb : Callback) :
    (calledBack (callbackCode lib self cb)).Safe (possession config request) (fun _ _ => True)
      v := by
  have hkeeps : (callbackCode lib self cb).Ensures (possession config request) (fun _ _ => True)
      (fun _ => True) v :=
    goesOn (keeps_callbackCode watchful_possession cb) (fun _ => trivial) trivial
  exact hkeeps _ _ _ (fun _ _ => trivial) fun _ _ _ => trivial

end Handlers

end Warlock.AssetDiscipline
