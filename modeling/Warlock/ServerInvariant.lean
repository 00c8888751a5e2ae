import Warlock.ReservationDiscipline
import Warlock.ReservationInvariant

/-!
# The server refines the reservation protocol

Under the discipline every operation of the server is a step of the reservation protocol
and replies what the discipline promises. Hence every reachable state of the server, with
any handlers in flight and any of them dropped on the way, keeps the protocol's invariant.
-/

namespace Warlock.ServerInvariant
open ApplicationState AssociationMaps EffectPrograms Ledgers MachineIntegers ReservationDiscipline
  ReservationProtocol Server ServerOperations SshSession SubnetAddressing TransitionSystems
  VmIdentifiers

def worldOf (sh : Shared) : World Uuid U16 VmResources where
  entry id := sh.vms.lookup id
  used := sh.subnetPool.inUse
  holder := sh.locks
  live := {id | id ∈ sh.host.live}
  issued := {id | id ∈ sh.issued}

def siteOf (s : State) : Site Uuid U16 VmResources where
  world := worldOf s.shared
  task n := s.tasks[n]?.map (·.ledger.view)

/-- The protocol's invariant, and every task in the middle of disciplined code. -/
structure Sound (config : AppConfig) (s : State) : Prop where
  protocol : Invariant VmResources.subnetIndex (RecordFits config) (siteOf s)
  code : ∀ (n : ℕ) (t : HandlerTask), s.tasks[n]? = some t →
    t.code.Safe (custody config) (final config t.request) t.ledger.view

section Worlds

variable {sh : Shared} {id : Uuid}

theorem worldOf_insert (e : VmEntry) :
    worldOf { sh with vms := sh.vms.insert id e } =
      { worldOf sh with entry := Function.update (worldOf sh).entry id (some e) } := by
  unfold worldOf
  congr 1
  funext id'
  simp only [lookup_insert, Function.update_apply]

theorem worldOf_erase :
    worldOf { sh with vms := sh.vms.erase id } =
      { worldOf sh with entry := Function.update (worldOf sh).entry id none } := by
  unfold worldOf
  congr 1
  funext id'
  simp only [lookup_erase, Function.update_apply]

theorem worldOf_lookup {vms : VmMap} (h : ∀ id, vms.lookup id = sh.vms.lookup id) :
    worldOf { sh with vms := vms } = worldOf sh := by
  unfold worldOf
  congr 1
  funext id
  exact h id

theorem run_live {host host' : Host} {c : Choice} {cmd : Command} {r : Option RustText.Text}
    (h : host.run c cmd = some (host', r)) : host'.live = host.live := by
  cases cmd with
  | deleteRule chain handle =>
    cases chain <;> simp only [Host.run] at h <;> split at h <;> simp_all <;> rw [← h.1]
  | _ =>
    simp only [Host.run] at h
    repeat' split at h
    all_goals simp_all
    all_goals rw [← h.1]

end Worlds

section Operations

variable {config : AppConfig} {lossy : Prop} {s : State} {n : ℕ} {v : Standpoint}
  (hI : Invariant VmResources.subnetIndex (RecordFits config) (siteOf s))
  (hn : (siteOf s).task n = some v)
include hI hn

/-- The steps of the protocol, with the server's slots and records. -/
abbrev ServerStep (config : AppConfig) (lossy : Prop) :=
  Step VmResources.subnetIndex (RecordFits config) lossy

/-- The operations that leave no slot behind. -/
def Calm : Op → Standpoint → Prop
  | .dropLocals, v => v.slot = none
  | .vms (.discard _), v => ∀ r, v.standing ≠ .creating r
  | _, _ => True

theorem placed_creating {id : Uuid} {r : VmResources} (hid : v.id = some id)
    (hst : v.standing = .creating r) : s.shared.vms.lookup id = some (.creating r) := by
  have hp := hI.placed n v id hn hid
  rwa [hst] at hp

omit hI hn in
theorem section_reserve {id : Uuid} {r : VmResources} (hreg : v.registry = true)
    (hreq : sectionRequires config v (.reserve id r)) :
    ServerStep config lossy n v (worldOf s.shared)
      (noteSection v (.reserve id r)
        (VmRegistry.reserve config.capacity id r s.shared.vms).2)
      (worldOf { s.shared with
        vms := (VmRegistry.reserve config.capacity id r s.shared.vms).1 }) := by
  obtain ⟨hid, hst, hslot, hfit, ha⟩ := hreq
  rcases VmRegistry.reserve_cases config.capacity id r s.shared.vms with ⟨e, he, _⟩ | ⟨he, _⟩
  · rw [he]
    exact .silent v _
  · rw [he, worldOf_insert]
    exact .place v _ id r hreg hid hst hslot hfit ha

theorem section_upgrade {id : Uuid} (hreg : v.registry = true)
    (hreq : sectionRequires config v (.upgrade id)) :
    (VmRegistry.upgrade id s.shared.vms).2 = true ∧
    ServerStep config lossy n v (worldOf s.shared)
      (noteSection v (.upgrade id) (VmRegistry.upgrade id s.shared.vms).2)
      (worldOf { s.shared with vms := (VmRegistry.upgrade id s.shared.vms).1 }) := by
  obtain ⟨hid, ⟨r, hst⟩, ha⟩ := hreq
  have hl := placed_creating hI hn hid hst
  have hu : VmRegistry.upgrade id s.shared.vms =
      (s.shared.vms.insert id (.running r), true) := by
    rw [VmRegistry.upgrade, hl, insert_eq_insert_erase]
  rw [hu, worldOf_insert]
  have hnote : noteSection v (.upgrade id) true = { v with standing := .upgraded r, agent := none } := by
    simp [noteSection, hst]
  exact ⟨rfl, hnote ▸ .upgrade v _ id r hreg hid hst ha⟩

theorem section_remove {id : Uuid} (hreg : v.registry = true)
    (hreq : sectionRequires config v (.remove id)) :
    (∃ r, v.standing = .creating r ∧ s.shared.vms.lookup id = some (.creating r)) ∧
    ServerStep config lossy n v (worldOf s.shared)
      (noteSection v (.remove id) (s.shared.vms.lookup id))
      (worldOf { s.shared with vms := s.shared.vms.erase id }) := by
  obtain ⟨hid, ⟨r, hst⟩, hslot, ha⟩ := hreq
  have hl := placed_creating hI hn hid hst
  rw [hl, worldOf_erase]
  exact ⟨⟨r, hst, rfl⟩, .remove v _ id r hreg hid hst hslot ha⟩

omit hn in
theorem section_take {id : Uuid} (hreg : v.registry = true)
    (hreq : sectionRequires config v (.take id)) :
    (∀ r, (VmRegistry.take id s.shared.vms).2 = .ok r → RecordFits config id r) ∧
    ServerStep config lossy n v (worldOf s.shared)
      (noteSection v (.take id) (VmRegistry.take id s.shared.vms).2)
      (worldOf { s.shared with vms := (VmRegistry.take id s.shared.vms).1 }) := by
  obtain ⟨hid, hslot, ha⟩ := hreq
  rcases VmRegistry.take_cases id s.shared.vms with ⟨r, hl, ht⟩ | ⟨e, he, hsame⟩
  · rw [ht, worldOf_erase]
    refine ⟨?_, .take v _ id r hreg hid hl hslot ha⟩
    rintro _ ⟨⟩
    exact hI.fits id _ hl
  · rw [he, worldOf_lookup hsame]
    exact ⟨by simp, .silent v _⟩

theorem section_discard {id : Uuid} (hl : lossy ∨ ∀ r, v.standing ≠ .creating r) (hreg : v.registry = true)
    (hreq : sectionRequires config v (.discard id)) :
    ServerStep config lossy n v (worldOf s.shared) (noteSection v (.discard id) ())
      (worldOf { s.shared with vms := s.shared.vms.erase id }) := by
  obtain ⟨hid, hst | ⟨hslot, ha, r, hst⟩⟩ := hreq
  · have hl : s.shared.vms.lookup id = none := by
      have hp := hI.placed n v id hn hid
      rwa [hst] at hp
    have hv : noteSection v (.discard id) () = v := by
      cases v
      simp_all [noteSection]
    rw [erase_of_lookup_none hl, hv]
    exact .silent v _
  · rw [worldOf_erase]
    exact .discard v _ id r hreg hid (hst.imp_left fun h => ⟨hl.resolve_right fun hc => hc r h, h⟩)
      hslot ha

/-- Every critical section is a step of the protocol and replies as the discipline says. -/
theorem step_section (c : Choice) (sec : VmRegistry.Section) (hl : lossy ∨ Calm (.vms sec) v)
    (hreq : requires config (.vms sec) v) :
    ServerStep config lossy n v (worldOf s.shared)
      (noteSection v sec (sec.run config.capacity s.shared.vms).2)
      (worldOf { s.shared with vms := (sec.run config.capacity s.shared.vms).1 }) ∧
    allows config (.vms sec) c (sec.run config.capacity s.shared.vms).2 v := by
  obtain ⟨hreg, hreq⟩ := hreq
  cases sec with
  | reserve id r => exact ⟨section_reserve hreg hreq, trivial⟩
  | upgrade id =>
    obtain ⟨hr, hs⟩ := section_upgrade hI hn hreg hreq
    exact ⟨hs, hr⟩
  | remove id =>
    obtain ⟨⟨r, hst, hl⟩, hs⟩ := section_remove hI hn hreg hreq
    exact ⟨hs, r, hst, hl⟩
  | take id =>
    obtain ⟨hr, hs⟩ := section_take hI hreg hreq
    refine ⟨hs, ?_⟩
    simp only [VmRegistry.Section.run]
    cases ht : (VmRegistry.take id s.shared.vms).2 with
    | ok r => exact hr r ht
    | error e => trivial
  | discard id => exact ⟨section_discard hI hn hl hreg hreq, trivial⟩
  | get id => exact ⟨.silent v _, hI.placed n v id hn, hI.fits id⟩
  | entries => exact ⟨.silent v _, trivial⟩
  | info => exact ⟨.silent v _, trivial⟩

omit hI hn in
theorem step_release {i : U16} {pool : SubnetPool} (hreq : requires config (.release i) v)
    (hpool : s.shared.subnetPool.release i = some pool) :
    ServerStep config lossy n v (worldOf s.shared) (noteRelease v i)
      (worldOf { s.shared with subnetPool := pool }) := by
  obtain ⟨hp, hi, ha, hmay⟩ := hreq
  obtain ⟨pool', hpool', huse⟩ := SubnetPool.release_eq_some s.shared.subnetPool hi
  obtain rfl : pool = pool' := Option.some.inj (hpool.symm.trans hpool')
  have hw : worldOf { s.shared with subnetPool := pool } =
      { worldOf s.shared with used := (worldOf s.shared).used \ {i} } := by
    simp [worldOf, huse]
  rw [hw]
  rcases hmay with hslot | ⟨hslot, hreg, hid, r, hst, hindex⟩
  · rw [noteRelease, if_pos hslot]
    exact .release v _ i hp hslot ha
  · rw [noteRelease, if_neg (by simp [hslot]), hst]
    exact .releaseEntry v _ r i hreg hp hid hst hindex ha

omit hI hn in
theorem step_allocate {a : SubnetAllocation} {pool : SubnetPool}
    (hreq : requires config .allocate v)
    (hpool : s.shared.subnetPool.allocate = some (a, pool)) :
    ServerStep config lossy n v (worldOf s.shared) { v with slot := some a.index }
      (worldOf { s.shared with subnetPool := pool }) := by
  obtain ⟨hfree, huse, _⟩ := SubnetPool.allocate_eq_some hpool
  have hw : worldOf { s.shared with subnetPool := pool } =
      { worldOf s.shared with used := insert a.index (worldOf s.shared).used } := by
    simp [worldOf, huse]
  rw [hw]
  exact .allocate v _ a.index hreq.1 hreq.2 hfree

theorem not_holding {m : Mutex} (h : s.shared.locks m = none) : v.holds m = false := by
  rw [← Bool.not_eq_true]
  intro hm
  have := (hI.holder m n).mpr ⟨v, hn, hm⟩
  rw [show (siteOf s).world.holder m = none from h] at this
  simp at this

/-- Every operation that meets its requirement is a step of the protocol and replies as the
discipline says; it never panics. -/
theorem step_operation {c : Choice} {o : Op} {sh : Shared} {reply : Option (Reply o)}
    (hl : lossy ∨ Calm o v) (hreq : requires config o v) (he : exec config n c s.shared o = some (sh, reply)) :
    ∃ r, reply = some r ∧ allows config o c r v ∧
      ServerStep config lossy n v (worldOf s.shared) (noteView v o r) (worldOf sh) := by
  cases o with
  | lock m =>
    simp only [exec] at he
    split at he
    · rename_i hfree
      obtain ⟨rfl, rfl⟩ := by simpa using he
      exact ⟨(), rfl, trivial, .lock v _ m (not_holding hI hn hfree) hfree⟩
    · simp at he
  | tryLock m =>
    simp only [exec] at he
    split at he
    · rename_i hfree
      obtain ⟨rfl, rfl⟩ := by simpa using he
      exact ⟨true, rfl, trivial, .lock v _ m (not_holding hI hn hfree) hfree⟩
    · rename_i hbusy
      obtain ⟨rfl, rfl⟩ := by simpa using he
      refine ⟨false, rfl, trivial, ?_⟩
      cases m with
      | registry => exact .refuse v _ (Option.isSome_iff_ne_none.mpr hbusy)
      | pool => exact .silent v _
  | unlock m =>
    obtain ⟨rfl, rfl⟩ := by simpa [exec] using he
    exact ⟨(), rfl, trivial, .unlock v _ m hreq.1 hreq.2⟩
  | vms sec =>
    obtain ⟨rfl, rfl⟩ := by simpa [exec] using he
    obtain ⟨hs, ha⟩ := step_section hI hn c sec hl hreq
    exact ⟨_, rfl, ha, hs⟩
  | allocate =>
    simp only [exec] at he
    split at he
    · obtain ⟨rfl, rfl⟩ := by simpa using he
      exact ⟨none, rfl, trivial, .silent v _⟩
    · rename_i a pool hpool
      obtain ⟨rfl, rfl⟩ := by simpa using he
      exact ⟨some a, rfl, trivial, step_allocate hreq hpool⟩
  | release i =>
    simp only [exec] at he
    split at he
    · rename_i hnone
      obtain ⟨pool, hpool, _⟩ := SubnetPool.release_eq_some s.shared.subnetPool hreq.2.1
      simp [hnone] at hpool
    · rename_i pool hpool
      obtain ⟨rfl, rfl⟩ := by simpa using he
      exact ⟨(), rfl, trivial, step_release hreq hpool⟩
  | newV4 =>
    simp only [exec] at he
    split at he
    · simp at he
    · rename_i hfresh
      obtain ⟨rfl, rfl⟩ := by simpa using he
      refine ⟨c.id, rfl, trivial, ?_⟩
      have hw : worldOf { s.shared with issued := c.id :: s.shared.issued } =
          { worldOf s.shared with issued := insert c.id (worldOf s.shared).issued } := by
        simp [worldOf, Set.insert_def]
      rw [hw]
      exact .draw v _ c.id hreq.1 hreq.2.1 hreq.2.2.1 hfresh
  | command cmd =>
    simp only [exec] at he
    split at he
    · simp at he
    · rename_i host r hrun
      obtain ⟨rfl, rfl⟩ := by simpa using he
      refine ⟨r, rfl, trivial, ?_⟩
      have hw : worldOf { s.shared with host := host } = worldOf s.shared := by
        simp [worldOf, run_live hrun]
      rw [hw]
      exact .silent v _
  | removeFile path =>
    simp only [exec] at he
    split at he
    · obtain ⟨rfl, rfl⟩ := by simpa using he
      exact ⟨true, rfl, trivial, .silent v _⟩
    · obtain ⟨rfl, rfl⟩ := by simpa using he
      exact ⟨false, rfl, trivial, .silent v _⟩
  | build id options =>
    obtain ⟨rfl, rfl⟩ := by simpa [exec] using he
    refine ⟨c.succeeds, rfl, trivial, ?_⟩
    obtain ⟨hid, ⟨r, hst⟩, ha⟩ := hreq
    cases c.succeeds with
    | false => exact .silent v _
    | true => exact .adopt v _ id r hid hst ha
  | sdk id call =>
    cases call with
    | startVmm =>
      obtain ⟨rfl, rfl⟩ := by simpa [exec] using he
      refine ⟨c.succeeds, rfl, trivial, ?_⟩
      have hw : worldOf { s.shared with
            host := { s.shared.host with live := id :: s.shared.host.live } } =
          { worldOf s.shared with live := insert id (worldOf s.shared).live } := by
        simp [worldOf, Set.insert_def]
      rw [hw]
      exact .start v _ id hreq
    | _ =>
      obtain ⟨rfl, rfl⟩ := by simpa [exec] using he
      exact ⟨c.succeeds, rfl, trivial, .silent v _⟩
  | dropInstance id =>
    obtain ⟨rfl, rfl⟩ := by simpa [exec] using he
    refine ⟨(), rfl, trivial, ?_⟩
    have hw : worldOf { s.shared with
          host := { s.shared.host with live := s.shared.host.live.filter (· != id) } } =
        { worldOf s.shared with live := (worldOf s.shared).live \ {id} } := by
      simp only [worldOf, List.mem_filter, bne_iff_ne, ne_eq]
      rfl
    rw [hw]
    exact .stop v _ id hreq
  | registerVm id vcpus memoryMb =>
    obtain ⟨rfl, rfl⟩ := by simpa [exec] using he
    refine ⟨c.succeeds, rfl, trivial, ?_⟩
    split <;> exact .silent v _
  | deregisterVm id =>
    obtain ⟨rfl, rfl⟩ := by simpa [exec] using he
    refine ⟨c.succeeds, rfl, trivial, ?_⟩
    split <;> exact .silent v _
  | dropLocals =>
    obtain ⟨rfl, rfl⟩ := by simpa [exec] using he
    exact ⟨(), rfl, trivial, .abandon v _ hl⟩
  | connect path =>
    simp only [exec] at he
    split at he <;> obtain ⟨rfl, rfl⟩ := by simpa using he
    · exact ⟨_, rfl, trivial, .silent v _⟩
    · exact ⟨_, rfl, trivial, .silent v _⟩
  | _ =>
    obtain ⟨rfl, rfl⟩ := by simpa [exec] using he
    exact ⟨_, rfl, trivial, .silent v _⟩

end Operations

section Runs

variable {config : AppConfig} {lib : Libraries} {s s' : State} {n : ℕ}

theorem siteOf_task {t : HandlerTask} (hn : s.tasks[n]? = some t) :
    (siteOf s).task n = some t.ledger.view := by simp [siteOf, hn]

theorem siteOf_set {t t' : HandlerTask} (hn : s.tasks[n]? = some t) (sh : Shared) :
    siteOf ⟨sh, s.tasks.set n t'⟩ = (⟨worldOf sh, Function.update (siteOf s).task n
      (some t'.ledger.view)⟩ : Site Uuid U16 VmResources) := by
  have hlt := (List.getElem?_eq_some_iff.mp hn).1
  unfold siteOf
  congr 1
  funext k
  by_cases hk : k = n
  · subst hk
    simp [hlt]
  · simp [hk, List.getElem?_set_ne (Ne.symm hk)]

theorem siteOf_request (t : HandlerTask) :
    siteOf { s with tasks := s.tasks ++ [t] } =
      ({ siteOf s with
        task := Function.update (siteOf s).task s.tasks.length (some t.ledger.view) } :
        Site Uuid U16 VmResources) := by
  unfold siteOf
  congr 1
  funext k
  rcases Nat.lt_trichotomy k s.tasks.length with hk | rfl | hk
  · simp [List.getElem?_append_left hk, hk.ne]
  · simp
  · have h₁ : (s.tasks ++ [t])[k]? = none := List.getElem?_eq_none (by simp; omega)
    have h₂ : s.tasks[k]? = none := List.getElem?_eq_none hk.le
    simp [h₁, h₂, hk.ne']

/-- The moves of the protocol, with the server's slots and records. -/
abbrev ServerMove (config : AppConfig) (lossy : Prop) :=
  Move VmResources.subnetIndex (RecordFits config) lossy

/-- A step that leaves no slot behind: a calm operation, or a drop of a task that holds none. -/
def CalmStep (s : State) : Event → Prop
  | .request _ | .callback _ _ | .leave _ .panicked => True
  | .run n _ => ∀ t o, s.tasks[n]? = some t → t.nextOp = some o → Calm o t.ledger.view
  | .leave n .dropped => ∀ t, s.tasks[n]? = some t → t.ledger.view.slot = none

/-- Every step of the server from a sound state is a move of the protocol, or it leaves the
protocol where it is. -/
theorem Sound.move (hs : Sound config s) {e : Event} (he : step config lib s e = some s')
    {lossy : Prop} (hl : lossy ∨ CalmStep s e) :
    ServerMove config lossy (siteOf s) (siteOf s') ∨ siteOf s' = siteOf s := by
  cases stepped he with
  | request r =>
    rw [siteOf_request]
    exact .inl (.spawn _ _ (by simp [siteOf]))
  | callback n cb r self result l hn =>
    rw [siteOf_set hn, ← siteOf_task hn]
    exact .inr (by simp [siteOf])
  | run n c r o may exit next l sh reply hn hexec =>
    obtain ⟨hreq, _⟩ := hs.code n _ hn
    obtain ⟨_, hr, _, hstep⟩ := step_operation hs.protocol (siteOf_task hn)
      (hl.imp_right fun h => h _ _ hn rfl) hreq hexec
    obtain rfl := Option.some.inj hr
    rw [siteOf_set hn]
    exact .inl (.act _ n _ _ _ (siteOf_task hn) hstep)
  | panic n c r o may exit next l sh hn hexec =>
    obtain ⟨hreq, _⟩ := hs.code n _ hn
    obtain ⟨_, hr, _⟩ := step_operation hs.protocol (siteOf_task hn) (.inl trivial) hreq hexec
    simp at hr
  | leave n e r o may exit next l hn hmay =>
    rw [siteOf_set hn]
    refine .inl (.act _ n _ _ _ (siteOf_task hn) ?_)
    cases e with
    | dropped => exact .abandon _ _ (hl.imp_right fun h => h _ hn)
    | panicked => exact .silent _ _

theorem Sound.code_step (hs : Sound config s) {e : Event} (he : step config lib s e = some s')
    (k : ℕ) (u : HandlerTask) (hk : s'.tasks[k]? = some u) :
    u.code.Safe (custody config) (final config u.request) u.ledger.view := by
  cases stepped he with
  | request r =>
    rcases getElem?_request.mp hk with ⟨_, rfl⟩ | hk
    · exact safe_handlerOf config r
    · exact hs.code k u hk
  | callback n cb r self result l hn =>
    rcases (getElem?_set hn).mp hk with ⟨_, rfl⟩ | ⟨_, hk⟩
    · have hv : l.view = {} := (hs.code n _ hn).2
      rw [hv]
      exact safe_callback cb
    · exact hs.code k u hk
  | run n c r o may exit next l sh reply hn hexec =>
    rcases (getElem?_set hn).mp hk with ⟨_, rfl⟩ | ⟨_, hk⟩
    · obtain ⟨hreq, hnext, _⟩ := hs.code n _ hn
      obtain ⟨_, hr, hallow, _⟩ := step_operation hs.protocol (siteOf_task hn) (.inl trivial) hreq hexec
      obtain rfl := Option.some.inj hr
      exact hnext c _ hallow
    · exact hs.code k u hk
  | panic n c r o may exit next l sh hn hexec =>
    obtain ⟨hreq, _⟩ := hs.code n _ hn
    obtain ⟨_, hr, _⟩ := step_operation hs.protocol (siteOf_task hn) (.inl trivial) hreq hexec
    simp at hr
  | leave n e r o may exit next l hn hmay =>
    rcases (getElem?_set hn).mp hk with ⟨_, rfl⟩ | ⟨_, hk⟩
    · have hexit := (hs.code n _ hn).2.2 e hmay trivial
      cases e <;> exact hexit
    · exact hs.code k u hk

theorem Sound.step (hs : Sound config s) {e : Event} (he : step config lib s e = some s') :
    Sound config s' := by
  refine ⟨?_, hs.code_step he⟩
  rcases hs.move he (.inl trivial) with hm | hsame
  · exact hs.protocol.move hm
  · exact hsame ▸ hs.protocol

theorem Sound.initial : Sound config (server config lib).initial := by
  constructor
  · have hsite : siteOf (server config lib).initial =
        ⟨⟨fun _ => none, SubnetPool.new.inUse, fun _ => none, ∅, ∅⟩, fun _ => none⟩ := by
      simp [siteOf, worldOf, server]
    exact hsite ▸ Invariant.initial _ _
  · intro n t hn
    simp [server] at hn

/-- Every reachable state of the server is sound. -/
theorem sound_of_reachable (h : (server config lib).Reachable s) : Sound config s :=
  h.invariant Sound.initial fun _ _ _ hs he => hs.step he

theorem sound_of_path {past : List (State × Event)} (hs : Sound config s)
    (h : System.Path (server config lib) s past s') : Sound config s' :=
  h.invariant hs fun _ _ _ hs he => hs.step he

theorem requires_of_nextOp (hs : Sound config s) {t : HandlerTask} (hn : s.tasks[n]? = some t)
    {o : Op} (ho : t.nextOp = some o) : requires config o t.ledger.view :=
  requires_of_safe (hs.code n t hn) ho

end Runs

end Warlock.ServerInvariant
