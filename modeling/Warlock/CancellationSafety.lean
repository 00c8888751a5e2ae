import Warlock.RootfsCopies

/-!
# What is left when handlers are dropped

Every subnet in use, every tap, every rule and every rootfs copy is named by an entry of the map or
held by a handler in flight, in every run in which nobody is dropped with something of its own,
the guard finds the pool unlocked, and no `create` fails with its copy written and its placeholder
not inserted. A `delete` that is dropped while it stops its VM leaves all of it behind.
-/

namespace Warlock.CancellationSafety
open ApplicationState AssociationMaps EffectPrograms FreeSubnets Ledgers MachineIntegers
  ReservationDiscipline ReservationProtocol Server ServerInvariant ServerOperations SshSession
  SubnetAddressing SubnetConservation SubnetOwnership TaskViews TidyDiscipline TransitionSystems
  VmHandlers VmIdentifiers
open GuardOutcomes (Removing)
open RootfsCopies (CleanFailure FailedCreate)

/-- What a VM takes up on the host. -/
inductive Asset
  | slot (i : U16)
  | resource (x : Resource)

def Present (s : State) : Asset → Prop
  | .slot i => i ∈ s.shared.subnetPool.inUse
  | .resource (.rootfs path) => path ∈ s.shared.host.files
  | .resource (.tap name) => ∃ t ∈ s.shared.host.taps, t.name = name
  | .resource (.rule .postrouting handle) => ∃ q ∈ s.shared.host.postrouting, q.handle = handle
  | .resource (.rule .filter handle) => ∃ q ∈ s.shared.host.filter, q.handle = handle

/-- The record names the asset. -/
def Named (r : VmResources) : Asset → Prop
  | .slot i => r.subnetIndex = some i
  | .resource x => x ∈ resourcesOf r

/-- The asset is among the locals. -/
def Held (l : Ledger) : Asset → Prop
  | .slot i => l.view.slot = some i
  | .resource x => x ∈ l.held

/-- The asset belongs to an entry of the map, or to a handler in flight. -/
def Belongs (s : State) (a : Asset) : Prop :=
  (∃ id e, s.shared.vms.lookup id = some e ∧ Named e.res a) ∨
    ∃ (n : ℕ) (t : HandlerTask), s.tasks[n]? = some t ∧ t.inFlight = true ∧ Held t.ledger a

/-- Nobody is dropped with a subnet or a copy among its locals, nor a `create` before its
placeholder is in; no networking task panics under a `create` that goes on; and the guard finds the
pool unlocked. -/
def Careful (s : State) : Event → Prop
  | .leave n .dropped => ∀ t ∈ s.tasks[n]?, t.ledger.view.slot = none ∧
      (∀ path, .rootfs path ∉ t.ledger.held) ∧
      (t.ledger.view.id ≠ none → t.ledger.view.standing ≠ .fresh)
  | .run n _ => ∀ o ∈ s.tasks[n]?.bind HandlerTask.nextOp, o ≠ .dropLocals ∧
      (o = .tryLock .pool → s.shared.locks .pool = none)
  | _ => True

variable {config : AppConfig} {lib : Libraries} {past : History} {s : State} {n : ℕ}
  {t : HandlerTask} {f : ℕ → Duty} {v : Duty} {id : Uuid} {r : VmResources} {i : U16} {x : Resource}
  {o : Op} {c : Choice} {sh : Shared} {reply : Reply o}

section Holdings

/-- Who holds a subnet holds what is there of it, and a placeholder names it. -/
structure Holding (l : Ledger) (v : Duty) : Prop where
  slot : ∀ i, l.view.slot = some i → v.slot = some i ∧
    ∀ x ∈ v.items, x ∈ l.held ∧ ∀ path, x ≠ .rootfs path
  apart : ∀ r, l.view.standing = .creating r → l.view.slot = none
  placed : ∀ r, l.view.standing = .creating r → v.slot = r.subnetIndex ∧
    ∀ x ∈ v.items, x ∈ networkOf r

variable {l : Ledger}

theorem Holding.same {l' : Ledger} {v' : Duty} (h : Holding l v)
    (hslot : l'.view.slot = l.view.slot) (hst : l'.view.standing = l.view.standing)
    (hv : v'.slot = v.slot) (hitems : v'.items = v.items)
    (hheld : ∀ x ∈ l.held, (∀ path, x ≠ .rootfs path) → x ∈ l'.held) : Holding l' v' := by
  constructor
  · intro i hi
    obtain ⟨hvi, hin⟩ := h.slot i (hslot ▸ hi)
    refine ⟨hv.trans hvi, fun x hx => ?_⟩
    obtain ⟨hmem, hne⟩ := hin x (hitems ▸ hx)
    exact ⟨hheld x hmem hne, hne⟩
  · exact fun r hr => hslot.trans (h.apart r (hst ▸ hr))
  · intro r hr
    rw [hv, hitems]
    exact h.placed r (hst ▸ hr)

theorem mem_resourcesOf (h : x ∈ networkOf r) : x ∈ resourcesOf r := by
  unfold resourcesOf
  rw [List.append_assoc]
  exact List.mem_append_right _ h

theorem ne_rootfs_of_network (h : x ∈ networkOf r) (path : String) : x ≠ .rootfs path := by
  rintro rfl
  obtain ⟨_, _, _, tap, _, handles, _, _, _⟩ := r
  cases tap <;> cases handles <;> simp [networkOf] at h

/-- Commands change the duty and the locals alike. -/
theorem mem_noteCommand {items held : List Resource} {cmd : Command} (h : ∀ x ∈ items, x ∈ held)
    (hx : x ∈ noteItems items c cmd) : x ∈ noteCommand held c cmd := by
  cases cmd with
  | cp strategy source dest =>
    simp only [noteCommand]
    split
    · exact .tail _ (h x hx)
    · exact h x hx
  | _ =>
    simp only [noteItems, noteCommand, gain] at hx ⊢
    grind [mem_lose]

theorem noteItems_ne_rootfs {items : List Resource} {cmd : Command}
    (h : ∀ x ∈ items, ∀ path, x ≠ .rootfs path) (hx : x ∈ noteItems items c cmd) (path : String) :
    x ≠ .rootfs path := by
  have hold (hx : x ∈ items) : x ≠ .rootfs path := h x hx path
  cases cmd with
  | cp => exact hold hx
  | _ =>
    simp only [noteItems, noteCommand, gain] at hx
    grind [mem_lose]

/-- Only what sets a subnet up adds to the duty. -/
theorem mem_of_noteItems {items : List Resource} {cmd : Command}
    (hduty : dutyRequires (.command cmd) v) (hrecord : v.record ≠ none)
    (hx : x ∈ noteItems items c cmd) : x ∈ items := by
  cases cmd with
  | cp => exact hx
  | tuntapAdd => exact absurd hduty.1 hrecord
  | addPostroutingRule => exact absurd hduty.1 hrecord
  | addFilterRule => exact absurd hduty.1 hrecord
  | _ =>
    simp only [noteItems, noteCommand] at hx
    grind [mem_lose]

theorem Holding.command {cmd : Command} (h : Holding l v)
    (hrecord : v.record = placedRecord l.view.standing) (hduty : dutyRequires (.command cmd) v)
    {l' : Ledger} (hview : l'.view = l.view) (hheld : l'.held = noteCommand l.held c cmd) :
    Holding l' { v with items := noteItems v.items c cmd } := by
  constructor
  · intro i hi
    rw [hview] at hi
    rw [hheld]
    obtain ⟨hvi, hin⟩ := h.slot i hi
    exact ⟨hvi, fun x hx => ⟨mem_noteCommand (fun y hy => (hin y hy).1) hx,
      noteItems_ne_rootfs (fun y hy => (hin y hy).2) hx⟩⟩
  · rw [hview]
    exact h.apart
  · intro r hr
    rw [hview] at hr
    obtain ⟨hslot, hin⟩ := h.placed r hr
    have hsome : v.record ≠ none := by simp [hrecord, hr, placedRecord]
    exact ⟨hslot, fun x hx => hin x (mem_of_noteItems hduty hsome hx)⟩

/-- A task that has a subnet has no placeholder in the map. -/
theorem Holding.release (h : Holding l v) (hmay : MayRelease l.view i) {l' : Ledger}
    (hview : l'.view = noteRelease l.view i) : Holding l' { v with slot := none } := by
  have hslot : l'.view.slot = none := by
    rw [hview]
    unfold noteRelease
    obtain ⟨_, hslot | ⟨hslot, _⟩⟩ := hmay
    · simp [hslot]
    · rw [if_neg (by simp [hslot])]
      split <;> exact hslot
  have hst (r : VmResources) : l'.view.standing ≠ .creating r := by
    rw [hview]
    unfold noteRelease
    intro hr
    obtain ⟨_, hslot | ⟨hslot, _, _, r', hst, _⟩⟩ := hmay
    · rw [if_pos hslot] at hr
      simp [h.apart r hr] at hslot
    · rw [if_neg (by simp [hslot]), hst] at hr
      simp at hr
  refine ⟨fun j hj => ?_, fun r hr => absurd hr (hst r), fun r hr => absurd hr (hst r)⟩
  simp [hslot] at hj

theorem Holding.section {sec : VmRegistry.Section} {reply : sec.Reply} (h : Holding l v)
    (hreq : sectionRequires config l.view sec) (hduty : dutyRequires (.vms sec) v)
    (hallow : allows config (.vms sec) c reply l.view)
    (hanonymous : l.view.id = none → l.view.standing = .fresh) :
    Holding (l.note c (.vms sec) reply) (noteDuty v c (.vms sec) reply) := by
  cases sec with
  | reserve id r =>
    cases reply with
    | error e => exact h.same rfl rfl rfl rfl fun _ hx _ => hx
    | ok _ =>
      refine ⟨by simp [Ledger.note, noteView, noteSection], fun _ _ => rfl, fun r' hr => ?_⟩
      obtain rfl : r = r' := by simpa [Ledger.note, noteView, noteSection] using hr
      exact hduty
  | upgrade id =>
    obtain ⟨_, ⟨r, hst⟩, _⟩ := hreq
    obtain rfl : reply = true := hallow
    have hslot := h.apart r hst
    refine ⟨fun i hi => ?_, fun r' hr => ?_, fun r' hr => ?_⟩
    all_goals simp [Ledger.note, noteView, noteSection, hst, hslot] at *
  | remove id =>
    obtain ⟨r, hst, rfl⟩ := hallow
    obtain ⟨hslot, hin⟩ := h.placed r hst
    refine ⟨fun i hi => ⟨hslot.trans hi, fun x hx => ⟨?_, ne_rootfs_of_network (hin x hx)⟩⟩,
      fun r' hr => ?_, fun r' hr => ?_⟩
    · exact List.mem_append_left _ (mem_resourcesOf (hin x hx))
    · simp [Ledger.note, noteView, noteSection] at hr
    · simp [Ledger.note, noteView, noteSection] at hr
  | take id =>
    cases reply with
    | error e => exact h.same rfl rfl rfl rfl fun _ hx _ => hx
    | ok r =>
      have hfresh : l.view.standing = .fresh := hanonymous hreq.1
      refine ⟨fun i hi => ⟨hi, fun x hx => ⟨?_, ne_rootfs_of_network hx⟩⟩, fun r' hr => ?_,
        fun r' hr => ?_⟩
      · exact List.mem_append_left _ (mem_resourcesOf hx)
      · simp [Ledger.note, noteView, noteSection, hfresh] at hr
      · simp [Ledger.note, noteView, noteSection, hfresh] at hr
  | discard id =>
    refine ⟨h.slot, fun r' hr => ?_, fun r' hr => ?_⟩
    · simp [Ledger.note, noteView, noteSection] at hr
    · simp [Ledger.note, noteView, noteSection] at hr
  | _ => exact h.same rfl rfl rfl rfl fun _ hx _ => hx

theorem Holding.step (h : Holding l v) (hlink : Linked l.view v) (hreq : requires config o l.view)
    (hduty : dutyRequires o v) (hallow : allows config o c reply l.view)
    (hanonymous : l.view.id = none → l.view.standing = .fresh) :
    Holding (l.note c o reply) (noteDuty v c o reply) := by
  have hheld (x : Resource) (hx : x ∈ l.held) (_ : ∀ path, x ≠ .rootfs path) : x ∈ l.held := hx
  cases o with
  | lock m => exact h.same (View.slot_set _ m true) (View.standing_set _ m true) rfl rfl hheld
  | unlock m => exact h.same (View.slot_set _ m false) (View.standing_set _ m false) rfl rfl hheld
  | tryLock m => cases m <;> cases reply <;> exact h.same rfl rfl rfl rfl hheld
  | build id options => cases reply <;> exact h.same rfl rfl rfl rfl hheld
  | allocate =>
    cases reply with
    | none => exact h.same rfl rfl rfl rfl hheld
    | some a =>
      have hst (r : VmResources) : l.view.standing ≠ .creating r := by
        intro hr
        have hrecord := hlink.record.symm.trans hduty.2
        simp [hr, placedRecord] at hrecord
      exact ⟨fun i hi => ⟨hi, by simp [noteDuty]⟩, fun r hr => absurd hr (hst r),
        fun r hr => absurd hr (hst r)⟩
  | release i => exact h.release hreq.2.2 rfl
  | command cmd => exact h.command hlink.record hduty rfl rfl
  | removeFile path =>
    cases reply with
    | false => exact h.same rfl rfl rfl rfl hheld
    | true => exact h.same rfl rfl rfl rfl fun x hx hne => mem_lose.mpr ⟨hx, hne path⟩
  | vms sec => exact h.section hreq.2 hduty hallow hanonymous
  | dropLocals =>
    exact ⟨by simp [Ledger.note, noteView, abandonView], fun _ _ => rfl, h.placed⟩
  | _ => exact h.same rfl rfl rfl rfl hheld

theorem Holding.leave (h : Holding l v) (e : Exit) : Holding (l.leave e) v := by
  cases e with
  | panicked => exact h
  | dropped =>
    exact ⟨by simp [Ledger.leave, Ledger.abandon, abandonView], fun _ _ => rfl, h.placed⟩

end Holdings

section Slots

/-- Whatever is on the host is that of a subnet of the pool. -/
structure Slotted (host : Host) : Prop where
  taps : ∀ t ∈ host.taps, ∃ i : U16, i.toNat < maxSubnets ∧ t.name = tapName i
  postrouting : ∀ q ∈ host.postrouting, ∃ i : U16, i.toNat < maxSubnets ∧ q.guestIp = subnetGuestIp i
  filter : ∀ q ∈ host.filter, ∃ i : U16, i.toNat < maxSubnets ∧ q.tapName = tapName i

variable {host host' : Host} {cmd : Command} {out : Option RustText.Text}

theorem Slotted.mono (h : Slotted host)
    (ht : ∀ t ∈ host'.taps, ∃ t₀ ∈ host.taps, t₀.name = t.name)
    (hp : ∀ q ∈ host'.postrouting, q ∈ host.postrouting)
    (hf : ∀ q ∈ host'.filter, q ∈ host.filter) : Slotted host' where
  taps t hmem := by
    obtain ⟨t₀, hmem₀, heq⟩ := ht t hmem
    exact heq ▸ h.taps t₀ hmem₀
  postrouting q hq := h.postrouting q (hp q hq)
  filter q hq := h.filter q (hf q hq)

theorem Slotted.run (h : Slotted host) (hrun : host.run c cmd = some (host', out))
    (hduty : dutyRequires (.command cmd) v)
    (hv : ∀ j, v.slot = some j → j.toNat < maxSubnets) : Slotted host' := by
  have hless (ht : ∀ t ∈ host'.taps, ∃ t₀ ∈ host.taps, t₀.name = t.name)
      (hp : ∀ q ∈ host'.postrouting, q ∈ host.postrouting)
      (hf : ∀ q ∈ host'.filter, q ∈ host.filter) : Slotted host' := h.mono ht hp hf
  cases cmd with
  | tuntapAdd name =>
    obtain ⟨_, i, hslot, rfl⟩ := hduty
    simp only [Host.run] at hrun
    split at hrun
    · obtain ⟨rfl, _⟩ := by simpa using hrun
      exact h
    split at hrun
    · simp at hrun
    · obtain ⟨rfl, _⟩ := by simpa using hrun
      refine ⟨fun t ht => ?_, h.postrouting, h.filter⟩
      rcases List.mem_cons.mp ht with rfl | ht
      · exact ⟨i, hv i hslot, rfl⟩
      · exact h.taps t ht
  | addPostroutingRule guestIp hostIface =>
    obtain ⟨_, i, hslot, rfl⟩ := hduty
    simp only [Host.run] at hrun
    split at hrun
    · obtain ⟨rfl, _⟩ := by simpa using hrun
      exact h
    split at hrun
    · simp at hrun
    · obtain ⟨rfl, _⟩ := by simpa using hrun
      refine ⟨h.taps, fun q hq => ?_, h.filter⟩
      rcases List.mem_cons.mp hq with rfl | hq
      · exact ⟨i, hv i hslot, rfl⟩
      · exact h.postrouting q hq
  | addFilterRule name hostIface =>
    obtain ⟨_, i, hslot, rfl⟩ := hduty
    simp only [Host.run] at hrun
    split at hrun
    · obtain ⟨rfl, _⟩ := by simpa using hrun
      exact h
    split at hrun
    · simp at hrun
    · obtain ⟨rfl, _⟩ := by simpa using hrun
      refine ⟨h.taps, h.postrouting, fun q hq => ?_⟩
      rcases List.mem_cons.mp hq with rfl | hq
      · exact ⟨i, hv i hslot, rfl⟩
      · exact h.filter q hq
  | deleteRule chain handle =>
    cases chain
    all_goals
      simp only [Host.run] at hrun
      split at hrun
    all_goals obtain ⟨rfl, _⟩ := by simpa using hrun
    all_goals exact hless (fun t ht => ⟨t, ht, rfl⟩) (by simp +contextual) (by simp +contextual)
  | _ =>
    simp only [Host.run] at hrun
    repeat' split at hrun
    all_goals obtain ⟨rfl, _⟩ := by simpa using hrun
    all_goals refine hless (fun t ht => ?_) (fun _ hq => hq) fun _ hq => hq
    all_goals grind

theorem Slotted.exec (h : Slotted s.shared.host)
    (hexec : exec config n c s.shared o = some (sh, some reply)) (hduty : dutyRequires o v)
    (hv : ∀ j, v.slot = some j → j.toNat < maxSubnets) : Slotted sh.host := by
  have hsame (ht : sh.host.taps = s.shared.host.taps)
      (hp : sh.host.postrouting = s.shared.host.postrouting)
      (hf : sh.host.filter = s.shared.host.filter) : Slotted sh.host :=
    h.mono (fun t ht' => ⟨t, ht ▸ ht', rfl⟩) (fun _ hq => hp ▸ hq) fun _ hq => hf ▸ hq
  cases o with
  | command cmd =>
    simp only [ServerOperations.exec] at hexec
    split at hexec
    · simp at hexec
    · rename_i host out hrun
      obtain ⟨rfl, _⟩ := by simpa using hexec
      exact h.run hrun hduty hv
  | removeFile path =>
    simp only [ServerOperations.exec] at hexec
    split at hexec <;> obtain ⟨rfl, _⟩ := by simpa using hexec
    · exact hsame rfl rfl rfl
    · exact h
  | sdk id call =>
    cases call <;> obtain ⟨rfl, _⟩ := by simpa [ServerOperations.exec] using hexec
    all_goals exact hsame rfl rfl rfl
  | dropInstance id =>
    obtain ⟨rfl, _⟩ := by simpa [ServerOperations.exec] using hexec
    exact hsame rfl rfl rfl
  | _ =>
    have hhost := (exec_frame hexec).host (by simp) (by simp) (by simp) (by simp)
    rw [hhost]
    exact h

end Slots

section Runs

/-- What the duties say about who holds what. -/
structure Charged (s : State) (f : ℕ → Duty) : Prop where
  holding : ∀ (n : ℕ) (t : HandlerTask), s.tasks[n]? = some t → Holding t.ledger (f n)
  slotted : Slotted s.shared.host

theorem Holding.empty {l : Ledger} (h : l.view = {}) : Holding l v := by
  constructor <;> simp [h]

theorem tracking_holding : Tracking config lib Cooperative (tidiness config) (fun _ _ _ => True)
    fun past s f => Kept past s f ∧ Charged s f := by
  have H : Tracking config lib Cooperative (tidiness config) (fun _ _ _ => True) Kept :=
    tracking_tidiness
  constructor
  case initial =>
    obtain ⟨f, hf⟩ := H.initial
    exact ⟨f, hf, fun n t hn => by simp at hn, by constructor <;> simp⟩
  case request =>
    rintro past s f r hr ⟨hk, hc⟩
    obtain ⟨v, hsafe, hk'⟩ := H.request past s f r hr hk
    exact ⟨v, hsafe, hk', forall_request hc.holding (fun _ _ _ hu => hu) (.empty rfl), hc.slotted⟩
  case callback =>
    rintro past s f n cb r self result l hr hn ⟨hk, hc⟩ hends
    have hs := sound_of_reachable (System.Run.reachable hr)
    have hview : l.view = {} := (hs.code n _ hn).2
    obtain ⟨v, hsafe, hk'⟩ := H.callback past s f n cb r self result l hr hn hk hends
    exact ⟨v, hsafe, hk', forall_set hc.holding hn (fun _ _ _ hu => hu) (.empty hview), hc.slotted⟩
  case run =>
    rintro past s f n c r o may exit next l sh reply hr hok hn hexec ⟨hk, hc⟩ hduty hallow
    have hs := sound_of_reachable (System.Run.reachable hr)
    obtain ⟨hallowed, hk'⟩ :=
      H.run past s f n c r o may exit next l sh reply hr hok hn hexec hk hduty hallow
    refine ⟨hallowed, hk', forall_set hc.holding hn (fun _ _ _ hu => hu) ?_, ?_⟩
    · exact (hc.holding n _ hn).step (hk.linked n _ hn) (requires_of_nextOp hs hn rfl) hduty hallow
        (hs.protocol.anonymous n _ (siteOf_task hn))
    · exact hc.slotted.exec hexec hduty fun j hj =>
        SubnetPool.lt_of_inUse (hk.accounted.inUse n j hj)
  case leave =>
    rintro past s f n e r o may exit next l hr hok hn hmay ⟨hk, hc⟩ hduty
    obtain ⟨hconsidered, hk'⟩ := H.leave past s f n e r o may exit next l hr hok hn hmay hk hduty
    exact ⟨hconsidered, hk', forall_set hc.holding hn (fun _ _ _ hu => hu)
      ((hc.holding n _ hn).leave e), hc.slotted⟩

end Runs

section Conservation

theorem due {t : HandlerTask} {o : Op} (hn : s.tasks[n]? = some t) (ho : t.nextOp = some o) :
    o ∈ s.tasks[n]?.bind HandlerTask.nextOp := by
  rw [hn]
  exact ho

theorem filesRemoved_of_removing {e : Event} (h : Removing s e) : RootfsCopies.FilesRemoved s e := by
  cases e with
  | run n c =>
    intro o ho hremoves
    refine h o ho ?_
    cases o with
    | removeFile path => rfl
    | _ => exact hremoves.elim
  | _ => trivial

theorem unburdened_of_careful {e : Event} (h : Careful s e) : RootfsCopies.Unburdened s e := by
  cases e with
  | leave n e =>
    cases e with
    | dropped => exact fun t ht => (h t ht).2
    | panicked => trivial
  | _ => trivial

theorem keepsLocals_of_careful {e : Event} (h : Careful s e) : RootfsCopies.KeepsLocals s e := by
  cases e with
  | run n c => exact fun o ho => (h o ho).1
  | _ => trivial

/-- The guard has always found the pool unlocked. -/
theorem not_contended (hcare : System.Meets Careful past) : ¬ GuardOutcomes.Contended past n := by
  rintro ⟨a, ⟨c, t, hmem, hn, ho⟩, hlocked⟩
  exact hlocked ((hcare _ hmem _ (due hn ho)).2 rfl)

/-- The guard discards no placeholder whose subnet it has not given back. -/
theorem not_creating_of_discard (hr : (server config lib).Run past s)
    (hrem : System.Meets Removing past) (hcare : System.Meets Careful past)
    (hn : s.tasks[n]? = some t) (ho : t.nextOp = some (.vms (.discard id))) (r : VmResources) :
    t.ledger.view.standing ≠ .creating r := by
  intro hst
  have hs := sound_of_reachable (System.Run.reachable hr)
  obtain ⟨_, hid, _⟩ := requires_of_nextOp hs hn ho
  obtain ⟨f, hviews, htold⟩ := GuardOutcomes.tracking_guarding.views_of_run hr hrem
  have htask := htold n t hn
  obtain ⟨_, _, hremoved, _, _, hreleased⟩ := htask.stands.creating hst
  rcases requires_of_safe (hviews n t hn) ho (RequestCharters.create_of_id hr hn hid) with h | h | h
  · simp [hremoved] at h
  · exact not_contended hcare (htask.recounts.contended.mp h)
  · simp [hreleased] at h

theorem calmStep_of_careful (hr : (server config lib).Run past s)
    (hrem : System.Meets Removing past) (hcare : System.Meets Careful past) {e : Event}
    (hok : Careful s e) : CalmStep s e := by
  cases e with
  | request r => trivial
  | callback n cb => trivial
  | leave n e =>
    cases e with
    | dropped => exact fun t hn => (hok t hn).1
    | panicked => trivial
  | run n c =>
    intro t o hn ho
    cases o with
    | dropLocals => exact absurd rfl (hok _ (due hn ho)).1
    | vms sec =>
      cases sec with
      | discard id => exact not_creating_of_discard hr hrem hcare hn ho
      | _ => trivial
    | _ => trivial

/-- Every subnet in use has an owner. -/
theorem conserved_of_careful (hr : (server config lib).Run past s)
    (hrem : System.Meets Removing past) (hcare : System.Meets Careful past) :
    Conserved VmResources.subnetIndex (siteOf s) := by
  induction hr with
  | refl =>
    intro i hi
    have hi : i ∈ SubnetPool.new.inUse := hi
    simp [SubnetPool.inUse_new] at hi
  | step hp he ih =>
    obtain ⟨_, hrem⟩ := System.meets_cons.mp hrem
    obtain ⟨hok, hcare⟩ := System.meets_cons.mp hcare
    have hs := sound_of_reachable (System.Run.reachable hp)
    rcases hs.move he (.inr (calmStep_of_careful hp hrem hcare hok)) with hmove | hsame
    · exact (ih hrem hcare).move hs.protocol hmove
    · exact hsame ▸ ih hrem hcare

end Conservation

section Owners

variable {o : Owner Uuid}

theorem belongs_of_owner (hs : Sound config s) (ho : SubnetOwner s o i) : Belongs s (.slot i) := by
  cases o with
  | entry id =>
    obtain ⟨e, he, hslot, _⟩ := ho
    exact .inl ⟨id, e, he, hslot⟩
  | task n =>
    obtain ⟨t, hn, hend⟩ := inFlight_of_owner hs ho
    obtain ⟨v, hv, hslot⟩ := ho
    obtain rfl : t.ledger.view = v := Option.some.inj ((siteOf_task hn).symm.trans hv)
    exact .inr ⟨n, t, hn, hend, hslot⟩

/-- A placeholder that owns its subnet is that of a task which has not given the subnet back. -/
theorem creating_of_owner (hs : Sound config s) (ho : SubnetOwner s (.entry id) i)
    (he : s.shared.vms.lookup id = some (.creating r)) :
    ∃ (n : ℕ) (t : HandlerTask), s.tasks[n]? = some t ∧ t.ledger.view.standing = .creating r := by
  obtain ⟨_, _, _, hkept⟩ := ho
  obtain ⟨n, v, hv, hid⟩ := hs.protocol.covered id _ he
  obtain ⟨t, hn, rfl⟩ := Option.map_eq_some_iff.mp hv
  have hplaced : t.ledger.view.standing.Allows (some (.creating r)) :=
    he ▸ hs.protocol.placed n _ id hv hid
  refine ⟨n, t, hn, ?_⟩
  cases hst : t.ledger.view.standing with
  | creating r' =>
    rw [hst] at hplaced
    obtain rfl : r = r' := by simpa using hplaced
    rfl
  | released r' => exact absurd ⟨n, _, r', hv, hid, hst⟩ hkept
  | _ => simp [hst] at hplaced

/-- Whoever owns a subnet knows what is there of it. -/
theorem belongs_of_left (hs : Sound config s) (hk : Kept past s f) (hc : Charged s f)
    (ho : SubnetOwner s o i) (hx : Left s.shared.host i x) : Belongs s (.resource x) := by
  cases o with
  | entry id =>
    have hentry := ho
    obtain ⟨e, he, hslot, _⟩ := hentry
    refine .inl ⟨id, e, he, mem_resourcesOf ?_⟩
    cases e with
    | running r => exact hk.accounted.entries id r i x he hslot hx
    | creating r =>
      obtain ⟨n, t, hn, hst⟩ := creating_of_owner hs ho he
      obtain ⟨hduty, hin⟩ := (hc.holding n t hn).placed r hst
      exact hin x (hk.accounted.tasks n i x (hduty.trans hslot) hx)
  | task n =>
    obtain ⟨t, hn, hend⟩ := inFlight_of_owner hs ho
    obtain ⟨v, hv, hslot⟩ := ho
    obtain rfl : t.ledger.view = v := Option.some.inj ((siteOf_task hn).symm.trans hv)
    obtain ⟨hduty, hin⟩ := (hc.holding n t hn).slot i hslot
    exact .inr ⟨n, t, hn, hend, (hin x (hk.accounted.tasks n i x hduty hx)).1⟩

end Owners

section Copies

variable {g : ℕ → CopyDiscipline.Copying}

theorem mem_rootfs {path : String} (h : r.rootfsCopy = some path) :
    .rootfs path ∈ resourcesOf r := by simp [resourcesOf, h]

theorem named_rootfs (hs : Sound config s) {e : VmEntry} (he : s.shared.vms.lookup id = some e) :
    Named e.res (.resource (.rootfs (rootfsPath config.jailer.vmImagesDir id))) :=
  mem_rootfs (hs.protocol.fits id e he).rootfs

/-- A handler in flight has the copy among its locals, or its placeholder is there. -/
theorem belongs_of_hand (hs : Sound config s) (hk : RootfsCopies.Kept config True False past s g)
    (hn : s.tasks[n]? = some t) (hend : t.inFlight = true) (hhand : (g n).hand = some id) :
    Belongs s (.resource (.rootfs (rootfsPath config.jailer.vmImagesDir id))) := by
  rcases hk.carried trivial n t hn id hhand with hheld | hplaced | ⟨hlossy, _⟩
  · exact .inr ⟨n, t, hn, hend, hheld⟩
  · obtain ⟨id', hid⟩ : ∃ id', t.ledger.view.id = some id' := by
      apply Option.ne_none_iff_exists'.mp
      intro hnone
      simp [hs.protocol.anonymous n _ (siteOf_task hn) hnone, placedRecord] at hplaced
    obtain rfl := hk.copies.own hn hid hhand
    have hallows := hs.protocol.placed n _ id (siteOf_task hn) hid
    cases hst : t.ledger.view.standing with
    | creating r =>
      rw [hst] at hallows
      exact .inl ⟨id, _, hallows, named_rootfs hs hallows⟩
    | released r =>
      rw [hst] at hallows
      exact .inl ⟨id, _, hallows, named_rootfs hs hallows⟩
    | _ => simp [hst, placedRecord] at hplaced
  · exact hlossy.elim

theorem belongs_of_file (hs : Sound config s)
    (hviews : Viewed (CopyDiscipline.copying config True) (CopyDiscipline.copyEnds True) s g)
    (hk : RootfsCopies.Kept config True False past s g)
    (hclean : ∀ n id, FailedCreate s n id → CleanFailure config past n id) {path : String}
    (hpath : path ∈ s.shared.host.files) : Belongs s (.resource (.rootfs path)) := by
  obtain ⟨id, rfl, ⟨n, hhand⟩ | ⟨r, hrunning⟩⟩ := (hk.copies.files path).mp hpath
  · obtain ⟨v, hv, _⟩ := hk.copies.held n id hhand
    obtain ⟨t, hn, rfl⟩ := Option.map_eq_some_iff.mp hv
    cases hend : t.inFlight with
    | true => exact belongs_of_hand hs hk hn hend hhand
    | false =>
      rcases RootfsCopies.owner_of_hand hviews hk hs hn hend hhand with ⟨r, hr⟩ | hfailed
      · exact .inl ⟨id, _, hr, named_rootfs hs hr⟩
      · have hgone := hclean n id hfailed
        obtain ⟨u, body, error, hu, hreq, hfail, hid⟩ := hfailed
        exact absurd hgone ((RootfsCopies.hand_of_failed hviews hk hu hreq hfail hid).mp hhand)
  · exact .inl ⟨id, _, hrunning, named_rootfs hs hrunning⟩

end Copies

/-- As long as nobody is dropped with a subnet or a copy among its locals, whatever VMs take up on
the host belongs to an entry of the map or to a handler in flight. -/
theorem cancellation_safe (hr : (server config lib).Run past s) (hrem : System.Meets Removing past)
    (hcoop : System.Meets FreeSubnets.Cooperative past) (hcare : System.Meets Careful past)
    (hclean : ∀ n id, FailedCreate s n id → CleanFailure config past n id) (a : Asset)
    (ha : Present s a) : Belongs s a := by
  have hs := sound_of_reachable (System.Run.reachable hr)
  have howner (i : U16) (hi : i ∈ s.shared.subnetPool.inUse) : ∃ o, SubnetOwner s o i :=
    conserved_of_careful hr hrem hcare i hi
  obtain ⟨f, _, hk, hc⟩ := tracking_holding.views_of_run hr hcoop
  have hleft {i : U16} {x : Resource} (hi : i.toNat < maxSubnets) (hx : Left s.shared.host i x) :
      Belongs s (.resource x) := by
    obtain ⟨o, ho⟩ := howner i (hk.accounted.used i x hi hx)
    exact belongs_of_left hs hk hc ho hx
  cases a with
  | slot i =>
    obtain ⟨o, ho⟩ := howner i ha
    exact belongs_of_owner hs ho
  | resource x =>
    cases x with
    | rootfs path =>
      obtain ⟨g, hviews, hcopies⟩ := (RootfsCopies.tracking_copying True False).views_of_run hr
        fun p hp => ⟨filesRemoved_of_removing (hrem p hp),
          fun _ => ⟨unburdened_of_careful (hcare p hp), .inr (keepsLocals_of_careful (hcare p hp))⟩⟩
      exact belongs_of_file hs hviews hcopies hclean ha
    | tap name =>
      obtain ⟨tap, htap, rfl⟩ := ha
      obtain ⟨i, hi, hname⟩ := hc.slotted.taps tap htap
      exact hleft hi (.tap tap htap hname)
    | rule chain handle =>
      cases chain with
      | postrouting =>
        obtain ⟨q, hq, rfl⟩ := ha
        obtain ⟨i, hi, hip⟩ := hc.slotted.postrouting q hq
        exact hleft hi (.postrouting q hq hip)
      | filter =>
        obtain ⟨q, hq, rfl⟩ := ha
        obtain ⟨i, hi, hname⟩ := hc.slotted.filter q hq
        exact hleft hi (.filter q hq hname)

section Samples

def isCopy : Resource → Bool
  | .rootfs _ => true
  | _ => false

instance (l : Ledger) : Decidable (∀ path, .rootfs path ∉ l.held) :=
  decidable_of_iff (∀ x ∈ l.held, isCopy x = false) <| by
    constructor
    · exact fun h path hmem => absurd (h _ hmem) (by simp [isCopy])
    · intro h x hx
      cases x with
      | rootfs path => exact absurd hx (h path)
      | _ => rfl

instance (standing : Standing VmResources) : Decidable (standing = .fresh) := by
  cases standing <;> first | exact .isTrue rfl | exact .isFalse (by simp)

instance (s : State) : (e : Event) → Decidable (Careful s e)
  | .run n _ => inferInstanceAs (Decidable (∀ o ∈ s.tasks[n]?.bind HandlerTask.nextOp, _ ∧ _))
  | .leave n .dropped => inferInstanceAs (Decidable (∀ t ∈ s.tasks[n]?, _ ∧ _ ∧ _))
  | .request _ | .callback _ _ | .leave _ .panicked => .isTrue trivial

def hasFailed (t : HandlerTask) : Bool :=
  match t.code with
  | .ret (.answered (.failed _)) => true
  | _ => false

theorem not_failedCreate (h : ∀ t ∈ s.tasks, hasFailed t = false) : ¬ FailedCreate s n id := by
  rintro ⟨t, body, error, hn, _, hfail, _⟩
  have hnot := h t (List.mem_of_getElem? hn)
  simp [hasFailed, hfail] at hnot

/-- A `delete` is dropped while it waits for the map. -/
def droppedAtLock : List Event :=
  sampleCreate ++ runs 0 1 ++ [.request (.delete 1), .leave 1 .dropped]

theorem cancellation_safe_droppedAtLock : Belongs (sampleServer.endOf droppedAtLock) (.slot 0) := by
  have hrem : System.Meets Removing (sampleServer.historyOf droppedAtLock) := by
    unfold System.Meets
    decide +kernel
  have hcoop : System.Meets FreeSubnets.Cooperative (sampleServer.historyOf droppedAtLock) := by
    unfold System.Meets
    decide +kernel
  have hcare : System.Meets Careful (sampleServer.historyOf droppedAtLock) := by
    unfold System.Meets
    decide +kernel
  have hfailed : ∀ t ∈ (sampleServer.endOf droppedAtLock).tasks, hasFailed t = false := by
    decide +kernel
  have hslot : 0 ∈ (sampleServer.endOf droppedAtLock).shared.subnetPool.inUse := by decide +kernel
  have hrun : sampleServer.Run (sampleServer.historyOf droppedAtLock)
      (sampleServer.endOf droppedAtLock) := System.run_follow droppedAtLock
  have hclean (n : ℕ) (id : Uuid) (h : FailedCreate (sampleServer.endOf droppedAtLock) n id) :
      CleanFailure sampleConfig (sampleServer.historyOf droppedAtLock) n id :=
    absurd h (not_failedCreate hfailed)
  exact cancellation_safe hrun hrem hcoop hcare hclean (.slot 0) hslot

/-- A `delete` is dropped while it stops its VM. -/
def droppedAtStop : List Event :=
  sampleCreate ++ runs 0 1 ++ .request (.delete 1) :: runs 1 3 ++ .leave 1 .dropped :: runs 1 2

/-- The subnet stays in use, the map is empty, and no handler is in flight. -/
theorem cancellation_safe_droppedAtStop : ¬ ∀ (past : History) (s : State),
    sampleServer.Run past s → System.Meets Removing past →
      System.Meets FreeSubnets.Cooperative past → Idle s → ∀ a, Present s a → Belongs s a := by
  intro h
  have hrem : System.Meets Removing (sampleServer.historyOf droppedAtStop) := by
    unfold System.Meets
    decide +kernel
  have hcoop : System.Meets FreeSubnets.Cooperative (sampleServer.historyOf droppedAtStop) := by
    unfold System.Meets
    decide +kernel
  have hidle : Idle (sampleServer.endOf droppedAtStop) := by decide +kernel
  have hslot : 0 ∈ (sampleServer.endOf droppedAtStop).shared.subnetPool.inUse := by decide +kernel
  have hempty : (sampleServer.endOf droppedAtStop).shared.vms.keys = [] := by decide +kernel
  rcases h _ _ (System.run_follow droppedAtStop) hrem hcoop hidle (.slot 0) hslot with
    ⟨id, e, he, _⟩ | ⟨n, t, hn, hend, _⟩
  · have hmem : id ∈ (sampleServer.endOf droppedAtStop).shared.vms :=
      AList.lookup_isSome.mp (Option.isSome_of_mem he)
    have hkeys : id ∈ (sampleServer.endOf droppedAtStop).shared.vms.keys := hmem
    simp [hempty] at hkeys
  · simp [hidle n t hn] at hend

end Samples

end Warlock.CancellationSafety
