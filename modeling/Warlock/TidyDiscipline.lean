import Warlock.QuietHandlers
import Warlock.TaskViews

/-!
# Subnets are given back tidy

A task that is given a subnet, or takes a VM out, has the tap and the two rules of the subnet to
take down. It gives the subnet back only when nothing of them is left, whichever of its clean-ups
it goes through. This is shown for each handler on its own, provided that what takes something
down succeeds and that `nft` prints the handle of the rule it has added.
-/

namespace Warlock.TidyDiscipline
open ApplicationState EffectPrograms HostNetworking Ledgers MachineIntegers NftHandles
  QuietHandlers ReservationDiscipline ReservationProtocol RustText Server ServerOperations
  SshSession SubnetAddressing TaskViews VmConfiguration VmHandlers VmIdentifiers

/-- What a task has to take down before its subnet is free again. -/
structure Duty where
  id : Option Uuid := none
  record : Option VmResources := none
  slot : Option U16 := none
  items : List Resource := []

/-- The tap and the rules that a record names. -/
def networkOf (r : VmResources) : List Resource :=
  (r.tapName.map Resource.tap).toList ++
    match r.natHandles with
    | some h => [.rule .postrouting h.postrouting, .rule .filter h.filter]
    | none => []

/-- The commands that take down what others have set up. -/
def TakesDown : Command → Prop
  | .linkDel _ | .deleteRule _ _ => True
  | _ => False

def AddsRule : Command → Prop
  | .addPostroutingRule _ _ | .addFilterRule _ _ => True
  | _ => False

instance : DecidablePred TakesDown := fun cmd => by
  cases cmd <;> first | exact .isTrue trivial | exact .isFalse id

instance : DecidablePred AddsRule := fun cmd => by
  cases cmd <;> first | exact .isTrue trivial | exact .isFalse id

def dutyRequires : Op → Duty → Prop
  | .command (.tuntapAdd name), v | .command (.addFilterRule name _), v =>
    v.record = none ∧ ∃ i, v.slot = some i ∧ name = tapName i
  | .command (.addPostroutingRule guestIp _), v =>
    v.record = none ∧ ∃ i, v.slot = some i ∧ guestIp = subnetGuestIp i
  | .allocate, v => v.slot = none ∧ v.record = none
  | .release i, v => v.slot = some i ∧ v.items = []
  | .vms (.reserve _ r), v => v.slot = r.subnetIndex ∧ ∀ x ∈ v.items, x ∈ networkOf r
  | .vms (.upgrade _), v =>
    ∃ r, v.record = some r ∧ v.slot = r.subnetIndex ∧ ∀ x ∈ v.items, x ∈ networkOf r
  | .sdk id (.putGuestNetworkInterfaceById _ name), v =>
    v.id = some id ∧ ∃ r, v.record = some r ∧ r.tapName = some name
  | _, _ => True

def dutyAllows (config : AppConfig) : (o : Op) → Choice → Reply o → Duty → Prop
  | .command cmd, c, r, _ => r.isSome = c.succeeds ∧ (TakesDown cmd → c.succeeds = true) ∧
      (AddsRule cmd → ∀ out, r = some out → parseNftHandle out = some c.handle)
  | .vms (.remove _), _, entry, v => ∃ r, v.record = some r ∧ entry = some (.creating r)
  | .vms (.take id), _, .ok r, _ => RecordFits config id r
  | .vms (.get id), _, some (.creating r), v => v.id = some id → v.record = some r
  | _, _, _, _ => True

def noteItems (items : List Resource) (c : Choice) : Command → List Resource
  | .cp _ _ _ => items
  | cmd => noteCommand items c cmd

def noteDuty (v : Duty) (c : Choice) : (o : Op) → Reply o → Duty
  | .newV4, id => { v with id := some id }
  | .allocate, some a => { v with slot := some a.index, items := [] }
  | .release _, _ => { v with slot := none }
  | .command cmd, _ => { v with items := noteItems v.items c cmd }
  | .vms (.reserve _ r), .ok () => { v with record := some r }
  | .vms (.upgrade _), true => { v with record := none, slot := none, items := [] }
  | .vms (.remove _), some _ => { v with record := none }
  | .vms (.discard _), _ => { v with record := none }
  | .vms (.take _), .ok r => { v with slot := r.subnetIndex, items := networkOf r }
  | _, _ => v

theorem slot_noteDuty {v : Duty} {c : Choice} {o : Op} (hs : ∀ s, o ≠ .vms s) (ha : o ≠ .allocate)
    (hr : ∀ i, o ≠ .release i) {r : Reply o} : (noteDuty v c o r).slot = v.slot := by
  cases o with
  | vms s => exact absurd rfl (hs s)
  | allocate => exact absurd rfl ha
  | release i => exact absurd rfl (hr i)
  | _ => rfl

def tidiness (config : AppConfig) (_ : Request) : Discipline Reply Choice Duty where
  requires := dutyRequires
  allows := dutyAllows config
  note o c r v := noteDuty v c o r
  considers _ _ _ := True
  leave _ v := v

variable {config : AppConfig} {lib : Libraries} {request : Request} {α : Type} {v w : Duty}
  {vmId : Uuid} {r : VmResources}

section Rules

theorem inert_tidiness {o : Op} (hr : dutyRequires o v) (hn : ∀ c r, noteDuty v c o r = v) :
    Inert (tidiness config request) v o := ⟨hr, fun c r _ => hn c r⟩

theorem watchful_tidiness : Watchful (tidiness config request) v where
  inert o ho := by
    cases o with
    | vms s => cases s <;> first | exact ho.elim | exact inert_tidiness trivial fun _ _ => rfl
    | _ => first | exact ho.elim | exact inert_tidiness trivial fun _ _ => rfl
  stays _ _ _ := rfl

theorem lockBlind_tidiness : LockBlind (tidiness config request) where
  lock _ _ := watchful_tidiness.inert _ trivial
  resume _ := watchful_tidiness.inert _ trivial
  unlock _ _ := watchful_tidiness.inert _ trivial
  stays _ := watchful_tidiness.stays

theorem goesOn {x : Async α} {post : α → Duty → Prop} {exit : Duty → Prop}
    (h : x.Keeps (tidiness config request) v) (hp : ∀ a, post a v) (he : exit v) :
    x.Ensures (tidiness config request) post exit v :=
  h.mono (fun a _ hw => hw ▸ hp a) fun _ hw => hw.1 ▸ he

/-- What one command does to the duty. -/
theorem safe_runCmdOutput {cmd : Command} {post : Option Text → Duty → Prop}
    (hreq : dutyRequires (.command cmd) v)
    (hpost : ∀ c r, dutyAllows config (.command cmd) c r v →
      post r { v with items := noteItems v.items c cmd }) :
    (runCmdOutput cmd).Safe (tidiness config request) post v := ⟨hreq, hpost⟩

theorem safe_runCmd {cmd : Command} {post : Bool → Duty → Prop}
    (hreq : dutyRequires (.command cmd) v)
    (hpost : ∀ c, (TakesDown cmd → c.succeeds = true) →
      post c.succeeds { v with items := noteItems v.items c cmd }) :
    (runCmd cmd).Safe (tidiness config request) post v := by
  refine Script.safe_bind.mpr (safe_runCmdOutput hreq fun c r ha => ?_)
  obtain ⟨hr, hdown, _⟩ := ha
  change post r.isSome _
  rw [hr]
  exact hpost c hdown

theorem safe_takeDown {cmd : Command} {f : Code α} {post : α → Duty → Prop} (hd : TakesDown cmd)
    (hf : ∀ c : Choice, c.succeeds = true →
      f.Safe (tidiness config request) post { v with items := noteItems v.items c cmd }) :
    (do let _ ← runCmd cmd; f : Code α).Safe (tidiness config request) post v := by
  refine Script.safe_bind.mpr (safe_runCmd ?_ fun c hc => hf c (hc hd))
  cases cmd <;> first | exact hd.elim | trivial

theorem safe_deleteTap {name : String} {post : Unit → Duty → Prop}
    (h : post () { v with items := lose v.items (.tap name) }) :
    (deleteTap name).Safe (tidiness config request) post v := by
  refine safe_takeDown trivial fun c hc => ?_
  simpa [noteItems, noteCommand, hc] using h

theorem safe_removeNatRules {handles : NatHandles} {post : Unit → Duty → Prop}
    (h : post () { v with
      items := lose (lose v.items (.rule .postrouting handles.postrouting))
        (.rule .filter handles.filter) }) :
    (removeNatRules handles).Safe (tidiness config request) post v := by
  refine safe_takeDown trivial fun c hc => safe_takeDown trivial fun c' hc' => ?_
  simpa [noteItems, noteCommand, hc, hc'] using h

end Rules

section Networking

variable {i : U16} {name iface : String}

@[simp] theorem mem_lose {held : List Resource} {x y : Resource} :
    x ∈ lose held y ↔ x ∈ held ∧ x ≠ y := by simp [lose]

/-- The tap and the two rules of one VM. -/
def network (name : String) (h : NatHandles) : List Resource :=
  [.tap name, .rule .postrouting h.postrouting, .rule .filter h.filter]

theorem networkOf_eq {h : NatHandles} (ht : r.tapName = some name) (hh : r.natHandles = some h) :
    networkOf r = network name h := by simp [networkOf, network, ht, hh]

theorem lose_network {items : List Resource} {h : NatHandles}
    (hi : ∀ x ∈ items, x ∈ network name h) :
    lose (lose (lose items (.tap name)) (.rule .postrouting h.postrouting)) (.rule .filter h.filter) =
      [] := by
  apply List.eq_nil_iff_forall_not_mem.mpr
  intro x hx
  simp only [mem_lose] at hx
  obtain ⟨⟨⟨hx, htap⟩, hpost⟩, hfilter⟩ := hx
  simpa [network, htap, hpost, hfilter] using hi x hx

theorem lose_network' {items : List Resource} {h : NatHandles}
    (hi : ∀ x ∈ items, x ∈ network name h) :
    lose (lose (lose items (.rule .postrouting h.postrouting)) (.rule .filter h.filter)) (.tap name) =
      [] := by
  apply List.eq_nil_iff_forall_not_mem.mpr
  intro x hx
  simp only [mem_lose] at hx
  obtain ⟨⟨⟨hx, hpost⟩, hfilter⟩, htap⟩ := hx
  simpa [network, htap, hpost, hfilter] using hi x hx

/-- The subnet is for a VM whose placeholder is not in yet. -/
structure SettingUp (i : U16) (v : Duty) : Prop where
  record : v.record = none
  slot : v.slot = some i

theorem safe_createTap {ip : Ipv4Addr} (hv : SettingUp i v) (hname : name = tapName i)
    (hitems : v.items = []) :
    (createTap name ip).Safe (tidiness config request)
      (fun made w => w = { v with items := if made then [.tap name] else [] }) v := by
  have hfailed : { v with items := if false then [.tap name] else [] } = v := by
    cases v
    simp_all
  refine Script.safe_bind.mpr (safe_runCmd ⟨hv.record, i, hv.slot, hname⟩ fun c₁ _ => ?_)
  cases h₁ : c₁.succeeds with
  | false => simp [noteItems, noteCommand, h₁, hitems]
  | true =>
    refine Script.safe_bind.mpr (safe_runCmd trivial fun c₂ _ => ?_)
    cases h₂ : c₂.succeeds with
    | false =>
      refine safe_takeDown trivial fun c hc => ?_
      simp [noteItems, noteCommand, h₁, hc, hitems, gain, lose]
    | true =>
      refine Script.safe_bind.mpr (safe_runCmd trivial fun c₃ _ => ?_)
      cases h₃ : c₃.succeeds with
      | false =>
        refine safe_takeDown trivial fun c hc => ?_
        simp [noteItems, noteCommand, h₁, hc, hitems, gain, lose]
      | true => simp [noteItems, noteCommand, h₁, hitems, gain]

theorem safe_addNatRules {ip : Ipv4Addr} (hv : SettingUp i v) (hname : name = tapName i)
    (hip : ip = subnetGuestIp i) (hitems : v.items = [.tap name]) :
    (addNatRules ip name iface).Safe (tidiness config request)
      (fun result w => ∃ items, w = { v with items := items } ∧
        (result = none → items = [.tap name]) ∧
        ∀ h, result = some h → ∀ x ∈ items, x ∈ network name h) v := by
  refine Script.safe_bind.mpr (safe_runCmdOutput ⟨hv.record, i, hv.slot, hip⟩ fun c₁ r₁ ha₁ => ?_)
  obtain ⟨hr₁, _, hprints₁⟩ := ha₁
  cases r₁ with
  | none =>
    have h₁ : c₁.succeeds = false := hr₁.symm
    exact ⟨[.tap name], by simp [noteItems, noteCommand, h₁, hitems], fun _ => rfl, by simp⟩
  | some out₁ =>
    have h₁ : c₁.succeeds = true := hr₁.symm
    simp only [hprints₁ trivial out₁ rfl]
    refine Script.safe_bind.mpr (safe_runCmdOutput ⟨hv.record, i, hv.slot, hname⟩ fun c₂ r₂ ha₂ => ?_)
    obtain ⟨hr₂, _, hprints₂⟩ := ha₂
    cases r₂ with
    | none =>
      have h₂ : c₂.succeeds = false := hr₂.symm
      refine safe_takeDown trivial fun c hc => ?_
      refine ⟨[.tap name], ?_, fun _ => rfl, by simp⟩
      simp [noteItems, noteCommand, h₁, h₂, hc, hitems, gain, lose]
    | some out₂ =>
      have h₂ : c₂.succeeds = true := hr₂.symm
      simp only [hprints₂ trivial out₂ rfl]
      refine ⟨[.rule .filter c₂.handle, .rule .postrouting c₁.handle, .tap name], ?_, by simp, ?_⟩
      · simp [noteItems, noteCommand, h₁, h₂, hitems, gain]
      · intro h hh
        obtain rfl := Option.some.inj hh
        simp [network]

theorem upholds_onTap {subnet : SubnetAllocation} (cmd : Command)
    (hc : onTap subnet.tapName cmd) :
    Upholds (tidiness config request) (SettingUp subnet.index) (.command cmd) := by
  intro w hw
  refine ⟨?_, fun _ _ _ => ⟨hw.record, hw.slot⟩⟩
  cases cmd with
  | tuntapAdd tap => exact ⟨hw.record, subnet.index, hw.slot, Eq.trans hc subnet.tapName_eq⟩
  | addPostroutingRule => exact hc.elim
  | addFilterRule => exact hc.elim
  | _ => trivial

theorem upholds_onRules {subnet : SubnetAllocation} (cmd : Command)
    (hc : onRules subnet.guestIp subnet.tapName cmd) :
    Upholds (tidiness config request) (SettingUp subnet.index) (.command cmd) := by
  intro w hw
  refine ⟨?_, fun _ _ _ => ⟨hw.record, hw.slot⟩⟩
  cases cmd with
  | addPostroutingRule ip => exact ⟨hw.record, subnet.index, hw.slot, Eq.trans hc subnet.guestIp_eq⟩
  | addFilterRule tap => exact ⟨hw.record, subnet.index, hw.slot, Eq.trans hc subnet.tapName_eq⟩
  | deleteRule => trivial
  | _ => exact hc.elim

/-- The networking step leaves nothing behind, or what its handles name. -/
theorem safe_setupNetworking {subnet : SubnetAllocation} (hv : SettingUp subnet.index v)
    (hitems : v.items = []) :
    (setupNetworking subnet iface).Safe (tidiness config request)
      (fun result w => ∃ items, w = { v with items := items } ∧ (result = none → items = []) ∧
        ∀ h, result = some h → ∀ x ∈ items, x ∈ network subnet.tapName h) v := by
  refine Script.safe_bind.mpr ((safe_createTap hv subnet.tapName_eq hitems).mono
    fun made w hw => ?_)
  subst hw
  cases made with
  | false => exact ⟨[], rfl, fun _ => rfl, by simp⟩
  | true =>
    have hmade : SettingUp subnet.index { v with items := [.tap subnet.tapName] } :=
      ⟨hv.record, hv.slot⟩
    refine Script.safe_bind.mpr ((safe_addNatRules hmade subnet.tapName_eq subnet.guestIp_eq
      rfl).mono fun result w hw => ?_)
    obtain ⟨items, rfl, hnone, hsome⟩ := hw
    cases result with
    | some h => exact ⟨items, rfl, by simp, hsome⟩
    | none =>
      refine Script.safe_bind.mpr (safe_deleteTap ?_)
      refine ⟨[], ?_, fun _ => rfl, by simp⟩
      simp [hnone rfl, lose]

end Networking

section Handlers

theorem ensures_releaseSubnet {i : U16} {post : Unit → Duty → Prop} {exit : Duty → Prop}
    (hslot : v.slot = some i) (hitems : v.items = []) (hpost : post () { v with slot := none })
    (he : exit v) : (releaseSubnet i).Ensures (tidiness config request) post exit v := by
  have hrelease : (Code.perform (.release i)).Safe (tidiness config request) post v :=
    ⟨⟨hslot, hitems⟩, fun _ _ _ => hpost⟩
  exact ensures_withLock lockBlind_tidiness (Handler.ensures_inline hrelease) fun _ => he

/-- What the record names is what there is to take down. -/
structure Names (config : AppConfig) (vmId : Uuid) (r : VmResources) (v : Duty) : Prop where
  fits : RecordFits config vmId r
  slot : v.slot = r.subnetIndex
  items : ∀ x ∈ v.items, x ∈ networkOf r

theorem ensures_freeResources {exit : Duty → Prop} (h : Names config vmId r v)
    (he : ∀ w, w.id = v.id → w.record = v.record → exit w) :
    (freeResources r).Ensures (tidiness config request)
      (fun _ w => w.id = v.id ∧ w.record = v.record) exit v := by
  obtain ⟨i, hi, hindex, htap, hip⟩ := h.fits.subnet
  obtain ⟨handles, hhandles⟩ := h.fits.handles
  have hitems := h.items
  rw [networkOf_eq htap hhandles] at hitems
  have hremoved (w : Duty) (hw : w.id = v.id ∧ w.record = v.record) : (cleanupRootfsCopy
      (rootfsPath config.jailer.vmImagesDir vmId)).Safe (tidiness config request)
      (fun _ w => w.id = v.id ∧ w.record = v.record) w := ⟨trivial, fun _ _ _ => hw⟩
  simp only [freeResources, htap, hhandles, hindex, h.fits.rootfs]
  refine Handler.Ensures.bind (Handler.ensures_inline (safe_deleteTap ?_))
  refine Handler.Ensures.bind (Handler.ensures_inline (safe_removeNatRules ?_))
  refine Handler.Ensures.bind (ensures_releaseSubnet ?_ (lose_network hitems) ?_ (he _ rfl rfl))
  · exact h.slot.trans hindex
  · exact Handler.ensures_inline (hremoved _ ⟨rfl, rfl⟩)

/-- The create guard finds what it has to take down, if there is anything. -/
structure Guarded (config : AppConfig) (vmId : Uuid) (v : Duty) : Prop where
  id : v.id = some vmId
  names : ∀ r, v.record = some r → Names config vmId r v

theorem safe_tryFreeResources {post : Unit → Duty → Prop} (h : Names config vmId r v)
    (hp : ∀ w, post () w) : (tryFreeResources r).Safe (tidiness config request) post v := by
  obtain ⟨i, hi, hindex, htap, hip⟩ := h.fits.subnet
  obtain ⟨handles, hhandles⟩ := h.fits.handles
  have hitems := h.items
  rw [networkOf_eq htap hhandles] at hitems
  have hremoved (w : Duty) : (do let _ ← Code.perform (.removeFile
      (rootfsPath config.jailer.vmImagesDir vmId)) : Code Unit).Safe (tidiness config request) post
      w := ⟨trivial, fun _ _ _ => hp w⟩
  simp only [tryFreeResources, htap, hhandles, hindex, h.fits.rootfs]
  refine Script.safe_bind.mpr (safe_deleteTap (Script.safe_bind.mpr (safe_removeNatRules ?_)))
  refine Script.safe_bind.mpr (Script.safe_bind.mpr ⟨trivial, fun _ acquired _ => ?_⟩)
  cases acquired with
  | false => exact hremoved _
  | true =>
    refine Script.safe_bind.mpr ⟨⟨h.slot.trans hindex, lose_network hitems⟩, fun _ _ _ => ?_⟩
    exact ⟨trivial, fun _ _ _ => hremoved _⟩

theorem safe_createGuardDrop {post : Unit → Duty → Prop} (h : Guarded config vmId v)
    (hp : ∀ w, post () w) : (createGuardDrop vmId).Safe (tidiness config request) post v := by
  have hfinish (w : Duty) : (do
      Code.perform (.vms (.discard vmId))
      Code.perform (.unlock .registry) : Code Unit).Safe (tidiness config request) post w :=
    ⟨trivial, fun _ _ _ => ⟨trivial, fun _ _ _ => hp _⟩⟩
  refine Script.safe_bind.mpr ⟨trivial, fun _ acquired _ => ?_⟩
  cases acquired with
  | false => exact hp v
  | true =>
    refine Script.safe_bind.mpr ⟨trivial, fun _ entry ha => ?_⟩
    rcases entry with _ | r | r
    · exact hfinish v
    · exact Script.safe_bind.mpr (safe_tryFreeResources (h.names r (ha h.id)) hfinish)
    · exact hfinish v

theorem ensures_cleanupPlaceholder (h : Guarded config vmId v) :
    (cleanupPlaceholder vmId).Ensures (tidiness config request) (fun _ _ => True)
      (Guarded config vmId) v := by
  refine ensures_withLock lockBlind_tidiness ?_ fun _ => h
  refine Handler.Ensures.bind (ensures_inSection (.remove vmId) trivial fun _ entry ha => ?_)
  obtain ⟨r, hrecord, rfl⟩ := ha
  have hnames := h.names r hrecord
  have hnames' : Names config vmId r { v with record := none } :=
    ⟨hnames.fits, hnames.slot, hnames.items⟩
  refine (ensures_freeResources hnames' fun w hid hnone => ⟨hid.trans h.id, ?_⟩).mono
    (fun _ _ _ => trivial) fun _ hw => hw
  intro r' hr'
  simp [hnone] at hr'

theorem ensures_upgradePlaceholder (h : Guarded config vmId v) (hrecord : v.record = some r) :
    (upgradePlaceholder vmId).Ensures (tidiness config request) (fun _ _ => True)
      (Guarded config vmId) v := by
  have hnames := h.names r hrecord
  have hdrop (w : Duty) (hw : Guarded config vmId w) : (Code.perform (.dropInstance vmId)).Safe
      (tidiness config request) (fun _ => Guarded config vmId) w := ⟨trivial, fun _ _ _ => hw⟩
  refine Handler.Ensures.guarded (ensures_withLock lockBlind_tidiness ?_ fun _ => hdrop v h)
  exact ensures_inSection (.upgrade vmId) ⟨r, hrecord, hnames.slot, hnames.items⟩
    fun _ _ _ => trivial

theorem ensures_launch {vcpus : U8} {memoryMb : U32} {kernel vmRootfs path : String}
    {subnet : SubnetAllocation} (h : Guarded config vmId v) (hrecord : v.record = some r)
    (htap : r.tapName = some subnet.tapName) :
    (launch config vmId vcpus memoryMb kernel vmRootfs subnet path).Ensures
      (tidiness config request) (fun _ _ => True) (Guarded config vmId) v := by
  have hcalls : ∀ call ∈ setupCalls vcpus memoryMb vmId kernel vmRootfs subnet.tapName
      subnet.guestIp subnet.tapIp path, Inert (tidiness config request) v (.sdk vmId call) := by
    intro call hcall
    refine inert_tidiness ?_ fun _ _ => rfl
    simp only [setupCalls, List.mem_cons, List.not_mem_nil, or_false] at hcall
    rcases hcall with rfl | rfl | rfl | rfl | rfl | rfl | rfl
    case inr.inr.inr.inl => exact ⟨h.id, r, hrecord, htap⟩
    all_goals trivial
  refine Handler.Ensures.bind (goesOn (keeps_setupFirecrackerInstance watchful_tidiness
    (fun _ _ _ => inert_tidiness trivial fun _ _ => rfl) hcalls
    (inert_tidiness trivial fun _ _ => rfl)) (fun desc => ?_) h)
  cases desc with
  | none =>
    exact Handler.Ensures.bind ((ensures_cleanupPlaceholder h).mono (fun _ _ _ =>
      Handler.ensures_pure trivial) fun _ hw => hw)
  | some desc =>
    exact Handler.Ensures.bind ((ensures_upgradePlaceholder h hrecord).mono (fun _ _ _ =>
      Handler.ensures_pure trivial) fun _ hw => hw)

theorem ensures_reservePlaceholder {subnet : SubnetAllocation} {natHandles : NatHandles}
    (h : Names config vmId r v) (hid : v.id = some vmId)
    (hindex : r.subnetIndex = some subnet.index) (htap : r.tapName = some subnet.tapName)
    (hhandles : r.natHandles = some natHandles) :
    (reservePlaceholder vmId r subnet natHandles).Ensures (tidiness config request)
      (fun reserved w => reserved = .ok () → Guarded config vmId w ∧ w.record = some r)
      (fun _ => True) v := by
  have hitems := h.items
  rw [networkOf_eq htap hhandles] at hitems
  refine ensures_withLock lockBlind_tidiness ?_ fun _ => trivial
  refine Handler.Ensures.bind (ensures_inSection (.reserve vmId r) ⟨h.slot, h.items⟩
    fun _ reserved _ => ?_)
  cases reserved with
  | ok _ =>
    refine Handler.ensures_pure fun _ => ⟨⟨hid, fun r' hr' => ?_⟩, rfl⟩
    obtain rfl := Option.some.inj hr'
    exact ⟨h.fits, h.slot, h.items⟩
  | error e =>
    refine Handler.Ensures.bind (Handler.ensures_inline (safe_removeNatRules ?_))
    refine Handler.Ensures.bind (Handler.ensures_inline (safe_deleteTap ?_))
    refine Handler.Ensures.bind (ensures_releaseSubnet (h.slot.trans hindex)
      (lose_network' hitems) ?_ trivial)
    exact Handler.ensures_pure (by simp)

theorem keeps_reportCreated {vcpus : U8} {memoryMb : U32} :
    (reportCreated config vmId vcpus memoryMb).Keeps (tidiness config request) v := by
  have hregister : Inert (tidiness config request) v (.registerVm vmId vcpus memoryMb) :=
    inert_tidiness trivial fun _ _ => rfl
  unfold reportCreated
  split
  · exact .bind (Handler.keeps_await hregister watchful_tidiness.stays) fun _ => Handler.keeps_pure
  · exact Handler.keeps_pure

theorem ensures_create (body : Option CreateVmRequest) :
    (create config body).Ensures (tidiness config request) (fun _ _ => True) (fun _ => True)
      {} := by
  have hfail {a : Answer} {w : Duty} : (pure a : Async Answer).Ensures (tidiness config request)
      (fun _ _ => True) (fun _ => True) w := Handler.ensures_pure trivial
  unfold create
  cases validateVmConfig (body.bind (·.vcpus)) (body.bind (·.memoryMb)) with
  | error e => exact hfail
  | ok size =>
  obtain ⟨vcpus, memoryMb⟩ := size
  refine Handler.Ensures.bind (Handler.ensures_perform trivial fun _ vmId _ => ?_)
  have hfile (v : Duty) (path : String) (cmd : Command) (hc : onFile path cmd) :
      Upholds (tidiness config request) (· = v) (.command cmd) := by
    apply Inert.upholds
    cases cmd with
    | cp => exact inert_tidiness trivial fun _ _ => rfl
    | chown => exact inert_tidiness trivial fun _ _ => rfl
    | _ => exact hc.elim
  refine Handler.Ensures.bind (goesOn (Handler.keeps_offload (steady_copyRootfs (hfile _ _))
    watchful_tidiness.stays) (fun copied => ?_) trivial)
  rcases copied with _ | _ | _
  · exact hfail
  · exact hfail
  refine Handler.Ensures.bind (ensures_withLock lockBlind_tidiness
    (Handler.ensures_perform ⟨rfl, rfl⟩ fun _ subnet _ => ?_) fun _ => trivial)
  cases subnet with
  | none => exact hfail
  | some subnet =>
  have hwithin : (setupNetworking subnet config.jailer.hostInterface).Steady
      (tidiness config request) (SettingUp subnet.index) :=
    steady_setupNetworking TidyDiscipline.upholds_onTap TidyDiscipline.upholds_onRules
  refine Handler.Ensures.bind (Handler.ensures_offload_within
    ((safe_setupNetworking ⟨rfl, rfl⟩ rfl).mono fun result w hw => ?_) hwithin ⟨rfl, rfl⟩
    (fun _ _ hw => hw)
    (fun w _ => ?_) fun _ _ _ _ _ => trivial)
  · obtain ⟨items, rfl, hnone, hsome⟩ := hw
    cases result with
    | none =>
      refine Handler.Ensures.bind (ensures_releaseSubnet rfl (hnone rfl) ?_ trivial)
      exact hfail
    | some natHandles =>
    have hnames : Names config vmId (placeholder config body vmId vcpus memoryMb subnet natHandles)
        { id := some vmId, slot := some subnet.index, items := items } :=
      ⟨recordFits_placeholder, rfl, networkOf_eq (r := placeholder config body vmId vcpus memoryMb
        subnet natHandles) rfl rfl ▸ hsome natHandles rfl⟩
    refine Handler.Ensures.bind ((ensures_reservePlaceholder hnames rfl rfl rfl rfl).mono
      (fun reserved w hw => ?_) fun _ _ => trivial)
    cases reserved with
    | error e => exact hfail
    | ok _ =>
    obtain ⟨hguarded, hrecord⟩ := hw rfl
    refine Handler.Ensures.bind (Handler.Ensures.guarded ((ensures_launch hguarded hrecord
      rfl).mono (fun launched w _ => ?_) fun w hw => safe_createGuardDrop hw fun _ => trivial))
    rcases launched with _ | ⟨desc, moved⟩
    · exact hfail
    · have hdrop : Inert (tidiness config request) w (.dropInstance vmId) :=
        inert_tidiness trivial fun _ _ => rfl
      cases moved with
      | true =>
        exact Handler.Ensures.bind (goesOn keeps_reportCreated (fun _ => hfail) trivial)
      | false =>
        exact Handler.Ensures.bind (goesOn (keeps_reportCreated.owning hdrop.steady) (fun _ => hfail)
          trivial)
  · have hdrop : Inert (tidiness config request) w .dropLocals :=
      inert_tidiness trivial fun _ _ => rfl
    exact Handler.Ensures.bind (goesOn (Handler.keeps_perform hdrop) (fun _ => hfail) trivial)

theorem ensures_delete (id : Uuid) :
    (delete config id).Ensures (tidiness config request) (fun _ _ => True) (fun _ => True) v := by
  refine ensures_withLock lockBlind_tidiness ?_ fun _ => trivial
  refine Handler.Ensures.bind (ensures_inSection (.take id) trivial fun _ taken ha => ?_)
  cases taken with
  | error e => exact Handler.ensures_pure trivial
  | ok r =>
    have hnames : Names config id r { v with slot := r.subnetIndex, items := networkOf r } :=
      ⟨ha, rfl, fun _ hx => hx⟩
    have hstop : (stopInstance id).Keeps (tidiness config request)
        { v with slot := r.subnetIndex, items := networkOf r } :=
      keeps_stopInstance watchful_tidiness.stays (inert_tidiness trivial fun _ _ => rfl)
        (inert_tidiness trivial fun _ _ => rfl)
    refine Handler.Ensures.bind (goesOn hstop (fun _ => ?_) trivial)
    refine Handler.Ensures.bind ((ensures_freeResources hnames fun _ _ _ => trivial).mono
      (fun _ w _ => ?_) fun _ hw => hw)
    have hderegister : Inert (tidiness config request) w (.deregisterVm id) :=
      inert_tidiness trivial fun _ _ => rfl
    split
    · exact Handler.Ensures.bind (goesOn (Handler.keeps_await hderegister watchful_tidiness.stays)
        (fun _ => Handler.ensures_pure trivial) trivial)
    · exact Handler.ensures_pure trivial

/-- Every handler gives its subnet back tidy. -/
theorem safe_tidiness (config : AppConfig) (request : Request) :
    (handlerOf config request).Safe (tidiness config request) (fun _ _ => True) {} := by
  have hanswering {x : Async Answer} (h : x.Ensures (tidiness config request) (fun _ _ => True)
      (fun _ => True) {}) : (answering x).Safe (tidiness config request) (fun _ _ => True) {} :=
    h _ _ _ (fun _ _ => trivial) fun _ _ _ => trivial
  have hkeeps {x : Async Answer} (h : x.Keeps (tidiness config request) {}) :
      (answering x).Safe (tidiness config request) (fun _ _ => True) {} :=
    hanswering (goesOn h (fun _ => trivial) trivial)
  cases request with
  | create body => exact hanswering (ensures_create body)
  | delete id => exact hanswering (ensures_delete id)
  | get id => exact hkeeps (keeps_get watchful_tidiness id)
  | list => exact hkeeps (keeps_list watchful_tidiness)
  | ready => exact hkeeps (keeps_ready watchful_tidiness)
  | session => trivial

theorem tidiness_callback {self : SessionHandler} (cb : Callback) :
    (calledBack (callbackCode lib self cb)).Safe (tidiness config request) (fun _ _ => True) v := by
  have hkeeps : (callbackCode lib self cb).Ensures (tidiness config request) (fun _ _ => True)
      (fun _ => True) v := goesOn (keeps_callbackCode watchful_tidiness cb) (fun _ => trivial) trivial
  exact hkeeps _ _ _ (fun _ _ => trivial) fun _ _ _ => trivial

end Handlers

end Warlock.TidyDiscipline
