import Warlock.AssetDiscipline
import Warlock.RootfsCopies

/-!
# Running VMs lose nothing

What is on the host belongs to the task that has made it, or to the VM that it was passed on to,
and to nobody else. A task changes and takes down only what is its own, so a VM that runs keeps its
rootfs copy, its subnet, its tap and its rules, whatever the other tasks do, however they fail and
wherever they are dropped.
-/

namespace Warlock.IntactVms
open ApplicationState AssetDiscipline AssociationMaps EffectPrograms HostNetworking Ledgers
  MachineIntegers NftHandles ReservationDiscipline ReservationProtocol ResourceCustody Server
  ServerInvariant ServerOperations SshSession SubnetAddressing TaskViews TransitionSystems
  VmHandlers VmIdentifiers
open FreeSubnets (dueCommand dueCommand_eq placedRecord run_reply running_used)
open TidyDiscipline (AddsRule)

/-- `nft` prints the handle of the rule it adds. -/
def Echoes (s : State) : Event → Prop
  | .run n c => ∀ cmd ∈ dueCommand s n, AddsRule cmd → c.succeeds = true →
      parseNftHandle c.stdout = some c.handle
  | _ => True

instance (s : State) : (e : Event) → Decidable (Echoes s e)
  | .run n _ => inferInstanceAs (Decidable (∀ cmd ∈ dueCommand s n, _ → _ → _))
  | .request _ | .callback _ _ | .leave _ _ => .isTrue trivial

/-- A running VM has what its record names, a task what it has made or taken over. -/
def Has (config : AppConfig) (vms : VmMap) (f : ℕ → Estate) : Owner Uuid → Asset → Prop
  | .entry id, a => ∃ r, vms.lookup id = some (.running r) ∧ a ∈ assetsOf config r
  | .task n, a => a ∈ (f n).assets

/-- What each has is there and is nobody else's. -/
structure Possessed (config : AppConfig) (s : State) (f : ℕ → Estate) : Prop where
  present : ∀ o a, Has config s.shared.vms f o a → a.On s.shared.host
  exclusive : Exclusive fun o x => ∃ a, Has config s.shared.vms f o a ∧ a.resource = x
  titled : ∀ n path, .rootfs path ∈ (f n).assets →
    ∃ id, path = rootfsPath config.jailer.vmImagesDir id ∧ Titled (siteOf s) n id

/-- The estate of a task fits its part in the reservation protocol. -/
structure Linked (l : Standpoint) (v : Estate) : Prop where
  id : v.id = l.id
  record : v.record = placedRecord l.standing
  placed : v.placed = false → l.standing = .fresh

/-- The operation changes or takes down what is known as `x`. -/
def Disturbs : Op → Resource → Prop
  | .command cmd, x => touches cmd = some x
  | .removeFile path, x => x = .rootfs path
  | _, _ => False

variable {config : AppConfig} {lib : Libraries} {past : History} {s s' : State} {n k : ℕ}
  {t t' : HandlerTask} {v : Estate} {f f' : ℕ → Estate} {id : Uuid} {e : Event} {o : Op}
  {c : Choice} {sh : Shared} {reply : Reply o} {l : Standpoint} {r : VmResources} {a b : Asset}

section Links

theorem Linked.set (h : Linked l v) (m : Mutex) (b : Bool) : Linked (l.set m b) v :=
  ⟨by simpa using h.id, by simpa using h.record, by simpa using h.placed⟩

theorem Linked.step (h : Linked t.ledger.view v) (hreq : requires config o t.ledger.view)
    (hallow : allows config o c reply t.ledger.view) :
    Linked (noteView t.ledger.view o reply) (noteEstate config v c o reply) := by
  cases o with
  | newV4 => exact ⟨rfl, h.record, h.placed⟩
  | lock m => exact h.set m true
  | unlock m => exact h.set m false
  | tryLock m =>
    cases reply with
    | true => exact h.set m true
    | false => cases m <;> exact ⟨h.id, h.record, h.placed⟩
  | allocate => cases reply <;> exact ⟨h.id, h.record, h.placed⟩
  | build id options => cases reply <;> exact ⟨h.id, h.record, h.placed⟩
  | removeFile path => cases reply <;> exact ⟨h.id, h.record, h.placed⟩
  | release i =>
    refine ⟨h.id.trans id_noteRelease.symm, h.record.trans ?_, fun hp => ?_⟩
    · exact RootfsCopies.placedRecord_noteRelease.symm
    · exact RootfsCopies.fresh_noteRelease (h.placed hp)
  | vms sec =>
    obtain ⟨_, hreq⟩ := hreq
    cases sec with
    | reserve id r =>
      cases reply with
      | ok _ => exact ⟨h.id, rfl, fun hp => by simp [noteEstate] at hp⟩
      | error e => exact ⟨h.id, h.record, h.placed⟩
    | upgrade id =>
      obtain ⟨_, ⟨r, hst⟩, _⟩ := hreq
      obtain rfl : reply = true := hallow
      have hplaced : v.placed ≠ false := fun hp => by simp [h.placed hp] at hst
      refine ⟨?_, ?_, fun hp => absurd hp hplaced⟩
      · simpa [noteEstate, noteView, noteSection, hst] using h.id
      · simp [noteEstate, noteView, noteSection, hst, placedRecord]
    | remove id =>
      obtain ⟨r, hst, rfl⟩ := hallow
      have hplaced : v.placed ≠ false := fun hp => by simp [h.placed hp] at hst
      exact ⟨h.id, rfl, fun hp => absurd hp hplaced⟩
    | take id => cases reply <;> exact ⟨h.id, h.record, h.placed⟩
    | discard id =>
      refine ⟨h.id, rfl, fun hp => ?_⟩
      have hfresh := h.placed hp
      rcases hreq with ⟨_, hst | ⟨_, _, r, hst | hst⟩⟩ <;> simp [hst] at hfresh
    | _ => exact ⟨h.id, h.record, h.placed⟩
  | _ => exact ⟨h.id, h.record, h.placed⟩

theorem estateAllows_of_step (hok : Echoes s (.run n c)) (hn : s.tasks[n]? = some t)
    (ho : t.nextOp = some o) (hexec : exec config n c s.shared o = some (sh, some reply))
    (hlink : Linked t.ledger.view v) (hallow : allows config o c reply t.ledger.view) :
    estateAllows config o c reply v := by
  cases o with
  | command cmd =>
    have hadds := hok cmd (dueCommand_eq hn ho)
    simp only [exec] at hexec
    split at hexec
    · simp at hexec
    · rename_i host r hrun
      obtain ⟨_, rfl⟩ := by simpa using hexec
      have hr := run_reply hrun
      subst hr
      refine ⟨by split <;> simp_all, fun ha out hout => ?_⟩
      split at hout
      · rename_i hc
        rw [← Option.some.inj hout]
        exact hadds ha hc
      · simp at hout
  | vms sec =>
    cases sec with
    | remove id =>
      obtain ⟨r, hst, rfl⟩ := hallow
      exact ⟨r, by rw [hlink.record, hst]; rfl, rfl⟩
    | take id =>
      cases reply with
      | ok r => exact hallow
      | error e => trivial
    | get id =>
      rcases reply with _ | r | r
      · trivial
      · intro hid
        have hplaced := hallow.1 (hlink.id.symm.trans hid)
        rw [hlink.record]
        cases hst : t.ledger.view.standing <;> simp_all [placedRecord]
      · trivial
    | _ => trivial
  | _ => trivial

end Links

section Ownership

theorem titled_kept (hs : Sound config s) (he : step config lib s e = some s')
    (h : Titled (siteOf s) k id) : Titled (siteOf s') k id := by
  rcases hs.move he (.inl trivial) with hm | hsame
  · exact h.move hm
  · exact hsame ▸ h

theorem mem_assetsOf_rootfs {path : String} (hfit : RecordFits config id r)
    (h : .rootfs path ∈ assetsOf config r) : path = rootfsPath config.jailer.vmImagesDir id := by
  obtain ⟨i, _, hindex, htap, _⟩ := hfit.subnet
  obtain ⟨handles, hhandles⟩ := hfit.handles
  simpa [assetsOf, hfit.rootfs, hindex, htap, hhandles, AssetDiscipline.networkOf, natRules] using h

theorem rootfs_of_resource {path : String} (h : a.resource = .rootfs path) : a = .rootfs path := by
  cases a <;> simp_all [Asset.resource]

/-- Nothing changes hands, and what anybody has stays where it is. -/
theorem Possessed.mono (h : Possessed config s f) (hs : Sound config s)
    (he : step config lib s e = some s')
    (hhas : ∀ o a, Has config s'.shared.vms f' o a → Has config s.shared.vms f o a)
    (hon : ∀ a : Asset, a.On s.shared.host → a.On s'.shared.host) : Possessed config s' f' where
  present o a ha := hon a (h.present o a (hhas o a ha))
  exclusive := h.exclusive.mono fun o x hx => by
    obtain ⟨a, ha, rfl⟩ := hx
    exact ⟨a, hhas o a ha, rfl⟩
  titled k path hp := by
    obtain ⟨id, hpath, ht⟩ := h.titled k path (hhas (.task k) _ hp)
    exact ⟨id, hpath, titled_kept hs he ht⟩

/-- The only owner of a copy with the task's own identifier, while it is not published yet, is the
task itself. -/
theorem Possessed.own_copy (h : Possessed config s f) (hs : Sound config s)
    (hn : s.tasks[n]? = some t) (hid : t.ledger.view.id = some id)
    (hst : ∀ r, t.ledger.view.standing ≠ .upgraded r) {o : Owner Uuid}
    (ho : Has config s.shared.vms f o (.rootfs (rootfsPath config.jailer.vmImagesDir id))) :
    o = .task n := by
  have hnot : ¬ Upgraded (siteOf s) id := by
    rintro ⟨m, u, r, hm, hmid, hmst⟩
    obtain rfl := hs.protocol.unique m n u _ id hm (siteOf_task hn) hmid hid
    obtain rfl := Option.some.inj (hm.symm.trans (siteOf_task hn))
    exact hst r hmst
  cases o with
  | entry id' =>
    obtain ⟨r, hr, ha⟩ := ho
    obtain rfl := rootfsPath_injective _ (mem_assetsOf_rootfs (hs.protocol.fits id' _ hr) ha)
    exact absurd (hs.protocol.upgraded_of_running hr) hnot
  | task k =>
    obtain ⟨id', hpath, ⟨u, hk, hkid⟩ | hup⟩ := h.titled k _ ho
    · obtain rfl := rootfsPath_injective _ hpath
      exact congrArg Owner.task (hs.protocol.unique k n u _ id hk (siteOf_task hn) hkid hid)
    · obtain rfl := rootfsPath_injective _ hpath
      exact absurd hup hnot

/-- What a task is about to change or take down belongs to it: the path of its copy is fresh, and
anything else it has already. -/
theorem Possessed.mine (h : Possessed config s f) (hs : Sound config s)
    (hn : s.tasks[n]? = some t) (hlink : Linked t.ledger.view (f n))
    (hreq : estateRequires config o (f n)) {owner : Owner Uuid}
    (ha : Has config s.shared.vms f owner a) (hx : Disturbs o a.resource) : owner = .task n := by
  have hown (ho : (f n).Owns a.resource) : owner = .task n :=
    h.exclusive owner (.task n) _ ⟨a, ha, rfl⟩ ho
  cases o with
  | command cmd =>
    cases cmd with
    | cp strategy source dest =>
      obtain ⟨hplaced, id, hid, rfl⟩ := hreq
      obtain rfl := rootfs_of_resource (Option.some.inj hx).symm
      have hfresh := hlink.placed hplaced
      exact h.own_copy hs hn (hlink.id.symm.trans hid) (by simp [hfresh]) ha
    | _ => exact hown (hreq _ hx)
  | removeFile path =>
    obtain rfl := rootfs_of_resource hx
    exact hown hreq
  | _ => exact hx.elim

/-- What task `n` has in the end and what the others have. -/
theorem has_update {o : Owner Uuid} {vms : VmMap} (h : Has config vms (Function.update f n v) o a) :
    o = .task n ∧ a ∈ v.assets ∨ o ≠ .task n ∧ Has config vms f o a := by
  cases o with
  | entry id => exact .inr ⟨by simp, h⟩
  | task k =>
    by_cases hk : k = n
    · subst hk
      exact .inl ⟨rfl, by simpa [Has] using h⟩
    · exact .inr ⟨by simpa using hk, by simpa [Has, hk] using h⟩

theorem Possessed.command {cmd : Command} {reply : Option RustText.Text} {host : Host}
    (h : Possessed config s f) (hs : Sound config s)
    (he : step config lib s e = some s') (hn : s.tasks[n]? = some t)
    (hlink : Linked t.ledger.view (f n)) (hrun : s.shared.host.run c cmd = some (host, reply))
    (hsh : s'.shared = { s.shared with host := host })
    (hreq : estateRequires config (.command cmd) (f n)) :
    Possessed config s' (Function.update f n ((f n).after c cmd)) := by
  have hran := ran hrun
  have hvms : s'.shared.vms = s.shared.vms := by rw [hsh]
  have hhost : s'.shared.host = host := by rw [hsh]
  have hothers {o : Owner Uuid} {a b : Asset} (ho : o ≠ .task n)
      (hb : Has config s.shared.vms f o b) (ha : a ∈ noteAssets (f n).assets c cmd) :
      b.resource ≠ a.resource := by
    intro heq
    rcases hran.source ha with ⟨b', hb', hres⟩ | ⟨strategy, source, dest, rfl, rfl⟩ | ⟨_, hnew⟩
    · exact ho (h.exclusive o (.task n) _ ⟨b, hb, rfl⟩ ⟨b', hb', hres.trans heq.symm⟩)
    · exact ho (h.mine hs hn hlink hreq hb (congrArg some heq.symm))
    · exact hnew b (h.present o b hb) heq
  constructor
  · intro o a ha
    rw [hvms] at ha
    rw [hhost]
    rcases has_update ha with ⟨rfl, hown⟩ | ⟨ho, ha⟩
    · exact hran.own (fun b hb => h.present (.task n) b hb) hown
    · exact hran.other (h.present o a ha) fun hx => ho (h.mine hs hn hlink hreq ha hx)
  · rintro o o' x ⟨a, ha, rfl⟩ ⟨b, hb, hres⟩
    rw [hvms] at ha hb
    rcases has_update ha with ⟨rfl, hown⟩ | ⟨ho, ha⟩
    · rcases has_update hb with ⟨rfl, _⟩ | ⟨ho', hb⟩
      · rfl
      · exact absurd hres (hothers ho' hb hown)
    · rcases has_update hb with ⟨rfl, hown⟩ | ⟨_, hb⟩
      · exact absurd hres.symm (hothers ho ha hown)
      · exact h.exclusive o o' _ ⟨a, ha, rfl⟩ ⟨b, hb, hres⟩
  · intro k path hp
    have hhas : Has config s.shared.vms (Function.update f n ((f n).after c cmd)) (.task k)
        (.rootfs path) := hp
    rcases has_update hhas with ⟨hk, hp⟩ | ⟨_, hp⟩
    · obtain rfl := Owner.task.inj hk
      rcases hran.source hp with ⟨b, hb, hres⟩ | ⟨strategy, source, dest, rfl, hdest⟩ | ⟨hne, _⟩
      · obtain rfl := rootfs_of_resource hres
        obtain ⟨id, hpath, ht⟩ := h.titled k path hb
        exact ⟨id, hpath, titled_kept hs he ht⟩
      · obtain ⟨_, id, hid, rfl⟩ := hreq
        refine ⟨id, Asset.rootfs.inj hdest, titled_kept hs he (.inl ⟨_, siteOf_task hn, ?_⟩)⟩
        exact hlink.id.symm.trans hid
      · exact absurd rfl (hne path)
    · obtain ⟨id, hpath, ht⟩ := h.titled k path hp
      exact ⟨id, hpath, titled_kept hs he ht⟩

theorem Possessed.removeFile {path : String} (h : Possessed config s f) (hs : Sound config s)
    (he : step config lib s e = some s') (hsh : s'.shared = { s.shared with
      host := { s.shared.host with files := s.shared.host.files.filter (· != path) } })
    (howns : (f n).Owns (.rootfs path)) :
    Possessed config s' (Function.update f n
      { f n with assets := (f n).assets.filter (·.resource ≠ .rootfs path) }) := by
  have hvms : s'.shared.vms = s.shared.vms := by rw [hsh]
  have hhas (o : Owner Uuid) (a : Asset) (ha : Has config s'.shared.vms (Function.update f n
      { f n with assets := (f n).assets.filter (·.resource ≠ .rootfs path) }) o a) :
      Has config s.shared.vms f o a ∧ a.resource ≠ .rootfs path := by
    rw [hvms] at ha
    rcases has_update ha with ⟨rfl, hown⟩ | ⟨ho, ha⟩
    · obtain ⟨hm, hne⟩ := List.mem_filter.mp hown
      exact ⟨hm, of_decide_eq_true hne⟩
    · exact ⟨ha, fun hx => ho (h.exclusive o (.task n) _ ⟨a, ha, hx⟩ howns)⟩
  constructor
  · intro o a ha
    obtain ⟨ha, hne⟩ := hhas o a ha
    have hon := h.present o a ha
    rw [hsh]
    cases a with
    | rootfs path' =>
      have hne : path' ≠ path := fun heq => hne (congrArg Resource.rootfs heq)
      exact List.mem_filter.mpr ⟨hon, by simpa using hne⟩
    | _ => exact hon
  · exact h.exclusive.mono fun o x hx => by
      obtain ⟨a, ha, rfl⟩ := hx
      exact ⟨a, (hhas o a ha).1, rfl⟩
  · intro k path' hp
    obtain ⟨id, hpath, ht⟩ := h.titled k path' (hhas (.task k) _ hp).1
    exact ⟨id, hpath, titled_kept hs he ht⟩

/-- `o₂` takes over what `o₁` has, and everybody else keeps what is theirs. -/
theorem Possessed.pass (o₁ o₂ : Owner Uuid) (h : Possessed config s f) (hs : Sound config s)
    (he : step config lib s e = some s') (hhost : s'.shared.host = s.shared.host)
    (hnone : ∀ a, ¬ Has config s'.shared.vms f' o₁ a)
    (hnew : ∀ a, Has config s'.shared.vms f' o₂ a → Has config s.shared.vms f o₁ a)
    (hold : ∀ o a, o ≠ o₁ → o ≠ o₂ → Has config s'.shared.vms f' o a →
      Has config s.shared.vms f o a)
    (htitled : ∀ k path, o₂ = .task k → .rootfs path ∈ (f' k).assets →
      ∃ id, path = rootfsPath config.jailer.vmImagesDir id ∧ Titled (siteOf s) k id) :
    Possessed config s' f' where
  present o a ha := by
    rw [hhost]
    by_cases ho₂ : o = o₂
    · exact h.present o₁ a (hnew a (ho₂ ▸ ha))
    · exact h.present o a (hold o a (fun heq => hnone a (heq ▸ ha)) ho₂ ha)
  exclusive := by
    refine h.exclusive.pass (a := o₁) (b := o₂) (fun x => ?_) (fun x hx => ?_)
      fun o x ho₁ ho₂ hx => ?_
    · rintro ⟨a, ha, -⟩
      exact hnone a ha
    · obtain ⟨a, ha, rfl⟩ := hx
      exact ⟨a, hnew a ha, rfl⟩
    · obtain ⟨a, ha, rfl⟩ := hx
      exact ⟨a, hold o a ho₁ ho₂ ha, rfl⟩
  titled k path hp := by
    have htitle : ∃ id, path = rootfsPath config.jailer.vmImagesDir id ∧
        Titled (siteOf s) k id := by
      by_cases ho₂ : .task k = o₂
      · exact htitled k path ho₂.symm hp
      · have hhas : Has config s'.shared.vms f' (.task k) (.rootfs path) := hp
        have ho₁ : .task k ≠ o₁ := fun heq => hnone _ (heq ▸ hhas)
        exact h.titled k path (hold (.task k) _ ho₁ ho₂ hhas)
    obtain ⟨id, hpath, ht⟩ := htitle
    exact ⟨id, hpath, titled_kept hs he ht⟩

/-- A VM that is made running takes over what its task has. -/
theorem Possessed.upgrade (id : Uuid) (h : Possessed config s f) (hs : Sound config s)
    (he : step config lib s e = some s') (hhost : s'.shared.host = s.shared.host)
    (hassets : ∀ a ∈ assetsOf config r, a ∈ (f n).assets) (hv : v.assets = [])
    (hvms : ∀ id' r', s'.shared.vms.lookup id' = some (.running r') →
      id' = id ∧ r' = r ∨ id' ≠ id ∧ s.shared.vms.lookup id' = some (.running r')) :
    Possessed config s' (Function.update f n v) := by
  refine h.pass (.task n) (.entry id) hs he hhost (fun a => ?_) (fun a ha => ?_)
    (fun o a hn ho ha => ?_) (by simp)
  · simp [Has, hv]
  · obtain ⟨r', hr, ha⟩ := ha
    rcases hvms id r' hr with ⟨_, rfl⟩ | ⟨hne, _⟩
    · exact hassets a ha
    · exact absurd rfl hne
  · rcases has_update ha with ⟨heq, _⟩ | ⟨_, ha⟩
    · exact absurd heq hn
    · cases o with
      | task k => exact ha
      | entry id' =>
        obtain ⟨r', hr, ha⟩ := ha
        rcases hvms id' r' hr with ⟨rfl, _⟩ | ⟨_, hr⟩
        · exact absurd rfl ho
        · exact ⟨r', hr, ha⟩

/-- A task takes over what the VM has that it takes out. -/
theorem Possessed.take (h : Possessed config s f) (hs : Sound config s)
    (he : step config lib s e = some s') (hhost : s'.shared.host = s.shared.host)
    (hr : s.shared.vms.lookup id = some (.running r)) (hv : v.assets = assetsOf config r)
    (hvms : s'.shared.vms = s.shared.vms.erase id) :
    Possessed config s' (Function.update f n v) := by
  refine h.pass (.entry id) (.task n) hs he hhost (fun a => ?_) (fun a ha => ?_)
    (fun o a ho hn ha => ?_) fun k path hk hp => ?_
  · rintro ⟨r', hr', -⟩
    simp [hvms] at hr'
  · exact ⟨r, hr, by simpa [Has, hv] using ha⟩
  · rcases has_update ha with ⟨heq, _⟩ | ⟨_, ha⟩
    · exact absurd heq hn
    · cases o with
      | task k => exact ha
      | entry id' =>
        obtain ⟨r', hr', ha⟩ := ha
        have hne : id' ≠ id := fun heq => ho (congrArg Owner.entry heq)
        exact ⟨r', by simpa [hvms, hne] using hr', ha⟩
  · obtain rfl := Owner.task.inj hk
    have ha : .rootfs path ∈ assetsOf config r := by simpa [hv] using hp
    exact ⟨id, mem_assetsOf_rootfs (hs.protocol.fits id _ hr) ha,
      .inr (hs.protocol.upgraded_of_running hr)⟩

/-- A step in which task `n` keeps what it has. -/
theorem Possessed.keep (h : Possessed config s f) (hs : Sound config s)
    (he : step config lib s e = some s') (hv : v.assets = (f n).assets)
    (hvms : ∀ id r, s'.shared.vms.lookup id = some (.running r) →
      s.shared.vms.lookup id = some (.running r))
    (hon : ∀ a : Asset, a.On s.shared.host → a.On s'.shared.host) :
    Possessed config s' (Function.update f n v) := by
  refine h.mono hs he (fun o a ha => ?_) hon
  have hhas : Has config s'.shared.vms f o a := by
    rcases has_update ha with ⟨rfl, hown⟩ | ⟨_, ha⟩
    · rwa [hv] at hown
    · exact ha
  cases o with
  | task k => exact hhas
  | entry id =>
    obtain ⟨r, hr, ha⟩ := hhas
    exact ⟨r, hvms id r hr, ha⟩

theorem Possessed.section {sec : VmRegistry.Section} (h : Possessed config s f)
    (hs : Sound config s) (he : step config lib s e = some s') (hn : s.tasks[n]? = some t)
    (hlink : Linked t.ledger.view (f n)) (hreq : sectionRequires config t.ledger.view sec)
    (hestate : estateRequires config (.vms sec) (f n)) (hsh : s'.shared = { s.shared with
      vms := (sec.run config.capacity s.shared.vms).1 }) :
    Possessed config s' (Function.update f n
      (noteEstate config (f n) c (.vms sec) (sec.run config.capacity s.shared.vms).2)) := by
  have hhost : s'.shared.host = s.shared.host := by rw [hsh]
  have hvms : s'.shared.vms = (sec.run config.capacity s.shared.vms).1 := by rw [hsh]
  have hkeep (hupgrade : ∀ id, sec ≠ .upgrade id) (htake : ∀ id, sec ≠ .take id)
      (hv : (noteEstate config (f n) c (.vms sec)
        (sec.run config.capacity s.shared.vms).2).assets = (f n).assets) :
      Possessed config s' (Function.update f n
        (noteEstate config (f n) c (.vms sec) (sec.run config.capacity s.shared.vms).2)) := by
    refine h.keep hs he hv (fun id r hr => ?_) fun a ha => hhost ▸ ha
    rw [hvms] at hr
    exact (RootfsCopies.running_section hs hn hreq hupgrade htake id r).mp hr
  cases sec with
  | upgrade id =>
    obtain ⟨hid, ⟨r, hst⟩, _⟩ := hreq
    obtain ⟨r', hrecord, hassets⟩ := hestate
    have hl := placed_creating hs.protocol (siteOf_task hn) hid hst
    obtain rfl : r' = r := by
      rw [hlink.record, hst] at hrecord
      exact (Option.some.inj hrecord).symm
    have hmoved : (VmRegistry.upgrade id s.shared.vms).2 = true := by simp [VmRegistry.upgrade, hl]
    simp only [VmRegistry.Section.run, hmoved]
    refine h.upgrade id (r := r') hs he hhost hassets rfl fun id' r'' hr => ?_
    rw [hvms, VmRegistry.Section.run, VmRegistry.lookup_upgrade hl] at hr
    split at hr
    · rename_i hid'
      exact .inl ⟨hid', by simpa using hr.symm⟩
    · rename_i hid'
      exact .inr ⟨hid', hr⟩
  | take id =>
    rcases VmRegistry.take_cases id s.shared.vms with ⟨r, hl, ht⟩ | ⟨err, herr, hsame⟩
    · simp only [VmRegistry.Section.run, ht] at hvms ⊢
      exact h.take hs he hhost hl rfl hvms
    · simp only [VmRegistry.Section.run, herr] at hvms ⊢
      refine h.keep hs he rfl (fun id' r hr => ?_) fun a ha => hhost ▸ ha
      rwa [hvms, hsame] at hr
  | reserve id r =>
    apply hkeep (by simp) (by simp)
    simp only [VmRegistry.Section.run]
    cases (VmRegistry.reserve config.capacity id r s.shared.vms).2 <;> rfl
  | remove id =>
    apply hkeep (by simp) (by simp)
    simp only [VmRegistry.Section.run]
    cases (VmRegistry.remove id s.shared.vms).2 <;> rfl
  | discard id => exact hkeep (by simp) (by simp) rfl
  | get id => exact hkeep (by simp) (by simp) rfl
  | entries => exact hkeep (by simp) (by simp) rfl
  | info => exact hkeep (by simp) (by simp) rfl

/-- One step of one task. -/
theorem Possessed.step (h : Possessed config s f) (hs : Sound config s)
    (he : Server.step config lib s e = some s') (hn : s.tasks[n]? = some t)
    (ho : t.nextOp = some o) (hexec : exec config n c s.shared o = some (s'.shared, some reply))
    (hlink : Linked t.ledger.view (f n)) (hestate : estateRequires config o (f n)) :
    Possessed config s' (Function.update f n (noteEstate config (f n) c o reply)) := by
  have hreq := requires_of_nextOp hs hn ho
  have hkeep (hv : (noteEstate config (f n) c o reply).assets = (f n).assets)
      (hvms : s'.shared.vms = s.shared.vms)
      (hon : ∀ a : Asset, a.On s.shared.host → a.On s'.shared.host) :
      Possessed config s' (Function.update f n (noteEstate config (f n) c o reply)) :=
    h.keep hs he hv (fun _ _ hr => hvms ▸ hr) hon
  have hframe := exec_frame hexec
  cases o with
  | command cmd =>
    simp only [exec] at hexec
    split at hexec
    · simp at hexec
    · rename_i host r hrun
      obtain ⟨hsh, rfl⟩ := by simpa using hexec
      exact h.command hs he hn hlink hrun hsh.symm hestate
  | removeFile path =>
    simp only [exec] at hexec
    split at hexec
    · obtain ⟨hsh, rfl⟩ := by simpa using hexec
      exact h.removeFile hs he hsh.symm hestate
    · obtain ⟨hsh, rfl⟩ := by simpa using hexec
      exact hkeep rfl (by rw [hsh]) fun a ha => hsh ▸ ha
  | vms sec =>
    obtain ⟨hsh, rfl⟩ := by simpa [exec] using hexec
    exact h.section hs he hn hlink hreq.2 hestate hsh.symm
  | sdk id call =>
    refine hkeep rfl (hframe.vms (by simp)) fun a ha => ?_
    cases call with
    | startVmm =>
      obtain ⟨hsh, _⟩ := by simpa [exec] using hexec
      rw [← hsh]
      cases a <;> exact ha
    | _ => exact (hframe.host (by simp) (by simp) (by simp) (by simp)) ▸ ha
  | dropInstance id =>
    refine hkeep rfl (hframe.vms (by simp)) fun a ha => ?_
    obtain hsh := by simpa [exec] using hexec
    rw [← hsh]
    cases a <;> exact ha
  | _ =>
    exact hkeep rfl (hframe.vms (by simp)) fun a ha =>
      (hframe.host (by simp) (by simp) (by simp) (by simp)) ▸ ha

end Ownership

section Runs

/-- What the estates of the tasks say about a state. -/
structure Kept (config : AppConfig) (s : State) (f : ℕ → Estate) : Prop where
  linked : ∀ (n : ℕ) (t : HandlerTask), s.tasks[n]? = some t → Linked t.ledger.view (f n)
  possessed : Possessed config s f

theorem Kept.still (h : Kept config s f) (hs : Sound config s) (hn : s.tasks[n]? = some t)
    (he : step config lib s e = some { s with tasks := s.tasks.set n t' })
    (hlink : Linked t'.ledger.view (f n)) :
    Kept config { s with tasks := s.tasks.set n t' } (Function.update f n (f n)) where
  linked := forall_set (P := fun _ t v => Linked t.ledger.view v) h.linked hn
    (fun _ _ _ hk => hk) hlink
  possessed := h.possessed.keep hs he rfl (fun _ _ hr => hr) fun _ ha => ha

theorem tracking_possession : Tracking config lib Echoes (possession config) (fun _ _ _ => True)
    fun _ => Kept config where
  initial := by
    have hnone (o : Owner Uuid) (a : Asset) : ¬ Has config ∅ (fun _ => {}) o a := by
      cases o <;> simp [Has]
    refine ⟨fun _ => {}, by simp, fun o a ha => absurd ha (hnone o a), ?_, by simp⟩
    rintro o o' x ⟨a, ha, -⟩
    exact absurd ha (hnone o a)
  request past s f r hr hk := by
    have hs := sound_of_reachable (System.Run.reachable hr)
    have he : step config lib s (.request r) = some _ := rfl
    refine ⟨{}, safe_possession config r, ?_, ?_⟩
    · exact forall_request (P := fun _ t v => Linked t.ledger.view v) hk.linked
        (fun _ _ _ hk => hk) ⟨rfl, rfl, fun _ => rfl⟩
    · refine hk.possessed.mono hs he (fun o a ha => ?_) fun _ ha => ha
      rcases has_update ha with ⟨_, hown⟩ | ⟨_, ha⟩
      · simp at hown
      · exact ha
  callback past s f n cb r self result l hr hn hk _ := by
    have hs := sound_of_reachable (System.Run.reachable hr)
    have hlink := hk.linked n _ hn
    have he : step config lib s (.callback n cb) =
        some { s with tasks := s.tasks.set n ⟨r, calledBack (callbackCode lib self cb), l⟩ } := by
      simp [step, hn]
    exact ⟨f n, possession_callback cb, hk.still hs hn he hlink⟩
  run past s f n c r o may exit next l sh reply hr hok hn hexec hk hestate hallow := by
    have hs := sound_of_reachable (System.Run.reachable hr)
    have hlink := hk.linked n _ hn
    have he : step config lib s (.run n c) =
        some ⟨sh, s.tasks.set n ⟨r, next reply, l.note c o reply⟩⟩ := by simp [step, hn, hexec]
    refine ⟨estateAllows_of_step hok hn rfl hexec hlink hallow, ?_, ?_⟩
    · exact forall_set (P := fun _ t v => Linked t.ledger.view v) hk.linked hn
        (fun _ _ _ hk => hk) (hlink.step (requires_of_nextOp hs hn rfl) hallow)
    · exact hk.possessed.step hs he hn rfl hexec hlink hestate
  leave past s f n e r o may exit next l hr _ hn hmay hk _ := by
    have hs := sound_of_reachable (System.Run.reachable hr)
    have hlink := hk.linked n _ hn
    have he : step config lib s (.leave n e) =
        some { s with tasks := s.tasks.set n ⟨r, exit e, l.leave e⟩ } := by simp [step, hn, hmay]
    have hleft : Linked (l.leave e).view (f n) := by
      cases e <;> exact ⟨hlink.id, hlink.record, hlink.placed⟩
    exact ⟨trivial, hk.still hs hn he hleft⟩

/-- What a running VM has on the host: its copy, its subnet, its tap with its own address and up,
and the two rules under their recorded handles. -/
structure Intact (config : AppConfig) (sh : Shared) (id : Uuid) (i : U16) (handles : NatHandles) :
    Prop where
  rootfs : rootfsPath config.jailer.vmImagesDir id ∈ sh.host.files
  subnet : i ∈ sh.subnetPool.inUse
  tap : ⟨tapName i, some (subnetTapIp i), true⟩ ∈ sh.host.taps
  postrouting : ⟨handles.postrouting, subnetGuestIp i, config.jailer.hostInterface⟩ ∈
    sh.host.postrouting
  filter : ⟨handles.filter, tapName i, config.jailer.hostInterface⟩ ∈ sh.host.filter

/-- A running VM is intact, shares nothing with another one, and nobody is about to change or take
down what it has. -/
theorem running_intact (h : (server config lib).Run past s) (hm : System.Meets Echoes past)
    (hr : s.shared.vms.lookup id = some (.running r)) :
    (∃ i handles, r.subnetIndex = some i ∧ r.natHandles = some handles ∧
        Intact config s.shared id i handles) ∧
      (∀ id' r', s.shared.vms.lookup id' = some (.running r') → ∀ a ∈ assetsOf config r,
        ∀ b ∈ assetsOf config r', a.resource = b.resource → id = id') ∧
      ∀ (n : ℕ) (t : HandlerTask) (o : Op), s.tasks[n]? = some t → t.nextOp = some o →
        ∀ a ∈ assetsOf config r, ¬ Disturbs o a.resource := by
  have hs := sound_of_reachable (System.Run.reachable h)
  obtain ⟨f, hf, hk⟩ := tracking_possession.views_of_run h hm
  have hfit : RecordFits config id r := hs.protocol.fits id _ hr
  refine ⟨?_, fun id' r' hr' a ha b hb hres => ?_, fun n t o hn ho a ha hx => ?_⟩
  · obtain ⟨i, _, hindex, htap, _⟩ := hfit.subnet
    obtain ⟨handles, hhandles⟩ := hfit.handles
    have hall (a : Asset) (ha : a ∈ assetsOf config r) : a.On s.shared.host :=
      hk.possessed.present (.entry id) a ⟨r, hr, ha⟩
    simp only [assetsOf, hfit.rootfs, hindex, htap, hhandles, AssetDiscipline.networkOf, natRules,
      Option.map_some, Option.toList_some, List.singleton_append, List.forall_mem_cons] at hall
    obtain ⟨hrootfs, htap, hpost, hfilter, _⟩ := hall
    exact ⟨i, handles, hindex, hhandles, hrootfs, running_used hs hr hindex, htap, hpost, hfilter⟩
  · exact Owner.entry.inj (hk.possessed.exclusive _ _ _ ⟨a, ⟨r, hr, ha⟩, rfl⟩
      ⟨b, ⟨r', hr', hb⟩, hres.symm⟩)
  · have hreq : estateRequires config o (f n) := requires_of_safe (hf n t hn) ho
    have hhas : Has config s.shared.vms f (.entry id) a := ⟨r, hr, ha⟩
    simpa using hk.possessed.mine hs hn (hk.linked n t hn) hreq hhas hx

/-- Another task is dropped in the middle of its `create`. -/
def dropsInBetween : List Event :=
  sampleCreate ++ .request (.create none) :: .run 1 { id := 2 } :: runs 1 9 ++ [.leave 1 .dropped]

theorem running_intact_dropsInBetween : ∃ id i handles,
    Intact sampleConfig (sampleServer.endOf dropsInBetween).shared id i handles := by
  have hrun : sampleServer.Run (sampleServer.historyOf dropsInBetween)
      (sampleServer.endOf dropsInBetween) := System.run_follow dropsInBetween
  have hmeets : System.Meets Echoes (sampleServer.historyOf dropsInBetween) := by
    unfold System.Meets
    decide +kernel
  have hrunning : ∃ r, (sampleServer.endOf dropsInBetween).shared.vms.lookup 1 = some (.running r) :=
    running_of_status (by decide +kernel)
  obtain ⟨r, hr⟩ := hrunning
  obtain ⟨⟨i, handles, _, _, hintact⟩, _⟩ := running_intact hrun hmeets hr
  exact ⟨1, i, handles, hintact⟩

end Runs

end Warlock.IntactVms
