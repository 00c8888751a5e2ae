import Warlock.SubnetOwnership
import Warlock.TidyDiscipline
import Warlock.VmLifecycle

/-!
# A free subnet has nothing left on the host

Everything on the host that belongs to a subnet is known to whoever has to take it down: the task
that has the subnet in hand, or the record of the running VM. A subnet is given back when nothing
of it is known any more; so nothing is left of it.
-/

namespace Warlock.FreeSubnets
open ApplicationState AssociationMaps EffectPrograms HostNetworking Ledgers MachineIntegers
  NftHandles ReservationDiscipline ReservationProtocol Server ServerInvariant ServerOperations
  SshSession SubnetAddressing SubnetOwnership TaskViews TidyDiscipline TransitionSystems
  VmHandlers VmIdentifiers VmLifecycle

/-- The command that a task is about to give. -/
def dueCommand (s : State) (n : ℕ) : Option Command :=
  match s.tasks[n]?.bind HandlerTask.nextOp with
  | some (.command cmd) => some cmd
  | _ => none

theorem dueCommand_eq {s : State} {n : ℕ} {t : HandlerTask} {cmd : Command}
    (hn : s.tasks[n]? = some t) (ho : t.nextOp = some (.command cmd)) :
    dueCommand s n = some cmd := by simp [dueCommand, hn, ho]

/-- What takes something down succeeds, and `nft` prints the handle of the rule it adds. -/
def Cooperative (s : State) : Event → Prop
  | .run n c => ∀ cmd ∈ dueCommand s n, (TakesDown cmd → c.succeeds = true) ∧
      (AddsRule cmd → c.succeeds = true → parseNftHandle c.stdout = some c.handle)
  | _ => True

instance (s : State) : (e : Event) → Decidable (Cooperative s e)
  | .run n _ => inferInstanceAs (Decidable (∀ cmd ∈ dueCommand s n, _ ∧ _))
  | .request _ | .callback _ _ | .leave _ _ => .isTrue trivial

/-- What is on the host of subnet `i`. -/
inductive Left (host : Host) (i : U16) : Resource → Prop
  | tap (t : Tap) (ht : t ∈ host.taps) (hname : t.name = tapName i) : Left host i (.tap t.name)
  | postrouting (q : PostroutingRule) (hq : q ∈ host.postrouting)
      (hip : q.guestIp = subnetGuestIp i) : Left host i (.rule .postrouting q.handle)
  | filter (q : FilterRule) (hq : q ∈ host.filter) (hname : q.tapName = tapName i) :
      Left host i (.rule .filter q.handle)

/-- Whoever has a subnet in hand knows what is left of it, and nothing is left of the others. -/
structure Accounted (sh : Shared) (f : ℕ → Duty) : Prop where
  inUse : ∀ n i, (f n).slot = some i → i ∈ sh.subnetPool.inUse
  unique : ∀ n n' i, (f n).slot = some i → (f n').slot = some i → n = n'
  apart : ∀ n i id r, (f n).slot = some i → sh.vms.lookup id = some (.running r) →
    r.subnetIndex ≠ some i
  used : ∀ i x, i.toNat < maxSubnets → Left sh.host i x → i ∈ sh.subnetPool.inUse
  tasks : ∀ n i x, (f n).slot = some i → Left sh.host i x → x ∈ (f n).items
  entries : ∀ id r i x, sh.vms.lookup id = some (.running r) → r.subnetIndex = some i →
    Left sh.host i x → x ∈ networkOf r

section Commands

variable {config : AppConfig} {host host' : Host} {c : Choice} {cmd : Command}
  {r : Option RustText.Text} {v : Duty} {i : U16} {x : Resource}

theorem Left.mono (h : Left host' i x) (ht : ∀ t ∈ host'.taps, ∃ t₀ ∈ host.taps, t₀.name = t.name)
    (hp : ∀ q ∈ host'.postrouting, q ∈ host.postrouting)
    (hf : ∀ q ∈ host'.filter, q ∈ host.filter) : Left host i x := by
  cases h with
  | tap t hmem hname =>
    obtain ⟨t₀, hmem₀, heq⟩ := ht t hmem
    exact heq ▸ .tap t₀ hmem₀ (heq.trans hname)
  | postrouting q hq hip => exact .postrouting q (hp q hq) hip
  | filter q hq hname => exact .filter q (hf q hq) hname

theorem mem_gain {held : List Resource} {y : Resource} (h : x ∈ held) : x ∈ gain held y :=
  List.mem_cons_of_mem y h

theorem left_linkDel {name : String} (h : host.run c (.linkDel name) = some (host', r))
    (hx : Left host' i x) :
    Left host i x ∧ ∀ items, x ∈ items → x ∈ noteItems items c (.linkDel name) := by
  cases hc : c.succeeds with
  | false =>
    obtain ⟨rfl, _⟩ := by simpa [Host.run, hc] using h
    exact ⟨hx, fun items hi => by simpa [noteItems, noteCommand, hc] using hi⟩
  | true =>
    obtain ⟨rfl, _⟩ := by simpa [Host.run, hc] using h
    have hnote (items : List Resource) : noteItems items c (.linkDel name) =
        lose items (.tap name) := by simp [noteItems, noteCommand, hc]
    simp only [hnote, mem_lose]
    cases hx with
    | tap t ht hname =>
      obtain ⟨hmem, hne⟩ : t ∈ host.taps ∧ t.name ≠ name := by simpa using ht
      exact ⟨.tap t hmem hname, fun items hi => ⟨hi, by simpa using hne⟩⟩
    | postrouting q hq hip => exact ⟨.postrouting q hq hip, fun items hi => ⟨hi, by simp⟩⟩
    | filter q hq hname => exact ⟨.filter q hq hname, fun items hi => ⟨hi, by simp⟩⟩

theorem left_deleteRule {chain : Chain} {handle : U64}
    (h : host.run c (.deleteRule chain handle) = some (host', r)) (hx : Left host' i x) :
    Left host i x ∧ ∀ items, x ∈ items → x ∈ noteItems items c (.deleteRule chain handle) := by
  cases hc : c.succeeds with
  | false =>
    obtain ⟨rfl, _⟩ : host = host' ∧ none = r := by cases chain <;> simpa [Host.run, hc] using h
    exact ⟨hx, fun items hi => by simpa [noteItems, noteCommand, hc] using hi⟩
  | true =>
    have hnote (items : List Resource) : noteItems items c (.deleteRule chain handle) =
        lose items (.rule chain handle) := by simp [noteItems, noteCommand, hc]
    simp only [hnote, mem_lose]
    cases chain with
    | postrouting =>
      obtain ⟨rfl, _⟩ := by simpa [Host.run, hc] using h
      cases hx with
      | tap t ht hname => exact ⟨.tap t ht hname, fun items hi => ⟨hi, by simp⟩⟩
      | postrouting q hq hip =>
        obtain ⟨hmem, hne⟩ : q ∈ host.postrouting ∧ q.handle ≠ handle := by simpa using hq
        exact ⟨.postrouting q hmem hip, fun items hi => ⟨hi, by simpa using hne⟩⟩
      | filter q hq hname => exact ⟨.filter q hq hname, fun items hi => ⟨hi, by simp⟩⟩
    | filter =>
      obtain ⟨rfl, _⟩ := by simpa [Host.run, hc] using h
      cases hx with
      | tap t ht hname => exact ⟨.tap t ht hname, fun items hi => ⟨hi, by simp⟩⟩
      | postrouting q hq hip => exact ⟨.postrouting q hq hip, fun items hi => ⟨hi, by simp⟩⟩
      | filter q hq hname =>
        obtain ⟨hmem, hne⟩ : q ∈ host.filter ∧ q.handle ≠ handle := by simpa using hq
        exact ⟨.filter q hmem hname, fun items hi => ⟨hi, by simpa using hne⟩⟩

/-- What a command adds is of the subnet in hand. -/
theorem left_added {y : Resource} (hnote : ∀ items, noteItems items c cmd = gain items y)
    (hx : x = y ∧ v.slot = some i ∨ Left host i x) :
    v.slot = some i ∧ (∀ items, x ∈ noteItems items c cmd) ∨
      Left host i x ∧ ∀ items, x ∈ items → x ∈ noteItems items c cmd := by
  rcases hx with ⟨rfl, hslot⟩ | hx
  · exact .inl ⟨hslot, fun items => hnote items ▸ .head _⟩
  · exact .inr ⟨hx, fun items hi => hnote items ▸ mem_gain hi⟩

/-- What is left after a command was there before and is not what the command takes down, or the
command has just made it. -/
theorem left_run (h : host.run c cmd = some (host', r)) (hreq : dutyRequires (.command cmd) v)
    (hv : ∀ j, v.slot = some j → j.toNat < maxSubnets) (hi : i.toNat < maxSubnets)
    (hx : Left host' i x) :
    v.slot = some i ∧ (∀ items, x ∈ noteItems items c cmd) ∨
      Left host i x ∧ ∀ items, x ∈ items → x ∈ noteItems items c cmd := by
  have hfails (hhost : host' = host) (hn : ∀ items, noteItems items c cmd = items) :
      v.slot = some i ∧ (∀ items, x ∈ noteItems items c cmd) ∨
        Left host i x ∧ ∀ items, x ∈ items → x ∈ noteItems items c cmd :=
    .inr ⟨hhost ▸ hx, fun items hi => by rwa [hn]⟩
  cases cmd with
  | cp strategy source dest =>
    refine .inr ⟨?_, fun _ hi => hi⟩
    cases hc : c.succeeds || c.partly with
    | false =>
      obtain ⟨rfl, _⟩ := by simpa [Host.run, hc] using h
      exact hx
    | true =>
      obtain ⟨rfl, _⟩ := by simpa [Host.run, hc] using h
      exact hx.mono (fun t ht => ⟨t, ht, rfl⟩) (fun _ hq => hq) fun _ hq => hq
  | chown uid gid path =>
    obtain ⟨hhost, _⟩ := by simpa [Host.run] using h
    exact hfails hhost.symm fun _ => rfl
  | tuntapAdd name =>
    obtain ⟨_, j, hslot, hname⟩ := hreq
    cases hc : c.succeeds with
    | false =>
      obtain ⟨hhost, _⟩ := by simpa [Host.run, hc] using h
      exact hfails hhost.symm fun _ => by simp [noteItems, noteCommand, hc]
    | true =>
      simp only [Host.run, hc, Bool.not_true, Bool.false_eq_true, if_false] at h
      split at h
      · simp at h
      · obtain ⟨rfl, _⟩ := by simpa using h
        apply left_added (y := .tap name) (fun _ => by simp [noteItems, noteCommand, hc])
        cases hx with
        | tap t ht ht' =>
          rcases List.mem_cons.mp ht with rfl | ht
          · exact .inl ⟨rfl, tapName_injective (hname.symm.trans ht') ▸ hslot⟩
          · exact .inr (.tap t ht ht')
        | postrouting q hq hip => exact .inr (.postrouting q hq hip)
        | filter q hq hq' => exact .inr (.filter q hq hq')
  | addrAdd address name =>
    cases hc : c.succeeds with
    | false =>
      obtain ⟨hhost, _⟩ := by simpa [Host.run, hc] using h
      exact hfails hhost.symm fun _ => rfl
    | true =>
      obtain ⟨rfl, _⟩ := by simpa [Host.run, hc] using h
      refine .inr ⟨hx.mono (fun t ht => ?_) (fun _ hq => hq) fun _ hq => hq, fun _ hi => hi⟩
      obtain ⟨t₀, ht₀, rfl⟩ := List.mem_map.mp ht
      exact ⟨t₀, ht₀, by split <;> rfl⟩
  | linkUp name =>
    cases hc : c.succeeds with
    | false =>
      obtain ⟨hhost, _⟩ := by simpa [Host.run, hc] using h
      exact hfails hhost.symm fun _ => rfl
    | true =>
      obtain ⟨rfl, _⟩ := by simpa [Host.run, hc] using h
      refine .inr ⟨hx.mono (fun t ht => ?_) (fun _ hq => hq) fun _ hq => hq, fun _ hi => hi⟩
      obtain ⟨t₀, ht₀, rfl⟩ := List.mem_map.mp ht
      exact ⟨t₀, ht₀, by split <;> rfl⟩
  | linkDel name => exact .inr (left_linkDel h hx)
  | addPostroutingRule guestIp hostIface =>
    obtain ⟨_, j, hslot, hip⟩ := hreq
    cases hc : c.succeeds with
    | false =>
      obtain ⟨hhost, _⟩ := by simpa [Host.run, hc] using h
      exact hfails hhost.symm fun _ => by simp [noteItems, noteCommand, hc]
    | true =>
      simp only [Host.run, hc, Bool.not_true, Bool.false_eq_true, if_false] at h
      split at h
      · simp at h
      · obtain ⟨rfl, _⟩ := by simpa using h
        apply left_added (y := .rule .postrouting c.handle)
          (fun _ => by simp [noteItems, noteCommand, hc])
        cases hx with
        | tap t ht ht' => exact .inr (.tap t ht ht')
        | postrouting q hq hq' =>
          rcases List.mem_cons.mp hq with rfl | hq
          · have hij := subnetGuestIp_injective (hv j hslot) hi (hip.symm.trans hq')
            exact .inl ⟨rfl, hij ▸ hslot⟩
          · exact .inr (.postrouting q hq hq')
        | filter q hq hq' => exact .inr (.filter q hq hq')
  | addFilterRule name hostIface =>
    obtain ⟨_, j, hslot, hname⟩ := hreq
    cases hc : c.succeeds with
    | false =>
      obtain ⟨hhost, _⟩ := by simpa [Host.run, hc] using h
      exact hfails hhost.symm fun _ => by simp [noteItems, noteCommand, hc]
    | true =>
      simp only [Host.run, hc, Bool.not_true, Bool.false_eq_true, if_false] at h
      split at h
      · simp at h
      · obtain ⟨rfl, _⟩ := by simpa using h
        apply left_added (y := .rule .filter c.handle)
          (fun _ => by simp [noteItems, noteCommand, hc])
        cases hx with
        | tap t ht ht' => exact .inr (.tap t ht ht')
        | postrouting q hq hq' => exact .inr (.postrouting q hq hq')
        | filter q hq hq' =>
          rcases List.mem_cons.mp hq with rfl | hq
          · exact .inl ⟨rfl, tapName_injective (hname.symm.trans hq') ▸ hslot⟩
          · exact .inr (.filter q hq hq')
  | deleteRule chain handle => exact .inr (left_deleteRule h hx)

end Commands

section Accounts

variable {sh sh' : Shared} {f f' : ℕ → Duty} {n : ℕ} {v : Duty} {i : U16} {x : Resource}

/-- What task `n` has in hand now, and what everybody else has. -/
theorem slot_update {k : ℕ} (h : (Function.update f n v k).slot = some i) :
    k = n ∧ v.slot = some i ∨ k ≠ n ∧ (f k).slot = some i := by
  by_cases hk : k = n
  · subst hk
    exact .inl ⟨rfl, by simpa using h⟩
  · exact .inr ⟨hk, by simpa [hk] using h⟩

/-- Nothing more is left or running, and nobody has anything else in hand. -/
theorem Accounted.mono (h : Accounted sh f) (hhost : ∀ i x, Left sh'.host i x → Left sh.host i x)
    (hpool : sh'.subnetPool = sh.subnetPool)
    (hvms : ∀ id r, sh'.vms.lookup id = some (.running r) → sh.vms.lookup id = some (.running r))
    (hslot : ∀ n i, (f' n).slot = some i → (f n).slot = some i)
    (hitems : ∀ n i, (f' n).slot = some i → (f' n).items = (f n).items) : Accounted sh' f' where
  inUse n i hn := hpool ▸ h.inUse n i (hslot n i hn)
  unique n n' i hn hn' := h.unique n n' i (hslot n i hn) (hslot n' i hn')
  apart n i id r hn hr := h.apart n i id r (hslot n i hn) (hvms id r hr)
  used i x hi hx := hpool ▸ h.used i x hi (hhost i x hx)
  tasks n i x hn hx := by
    rw [hitems n i hn]
    exact h.tasks n i x (hslot n i hn) (hhost i x hx)
  entries id r i x hr hi hx := h.entries id r i x (hvms id r hr) hi (hhost i x hx)

theorem Accounted.command {c : Choice} {cmd : Command} {r : Option RustText.Text} {host : Host}
    (h : Accounted sh f) (hrun : sh.host.run c cmd = some (host, r))
    (hreq : dutyRequires (.command cmd) (f n))
    (hrunning : ∀ id r i, sh.vms.lookup id = some (.running r) → r.subnetIndex = some i →
      i.toNat < maxSubnets) :
    Accounted { sh with host := host }
      (Function.update f n { f n with items := noteItems (f n).items c cmd }) := by
  have hlt (j : U16) (hj : (f n).slot = some j) : j.toNat < maxSubnets :=
    SubnetPool.lt_of_inUse (h.inUse n j hj)
  have hslot {k : ℕ} {i : U16}
      (hk : (Function.update f n { f n with items := noteItems (f n).items c cmd } k).slot = some i) :
      (f k).slot = some i := by
    rcases slot_update hk with ⟨rfl, hk⟩ | ⟨_, hk⟩ <;> exact hk
  have hleft {i : U16} {x : Resource} (hi : i.toNat < maxSubnets) (hx : Left host i x) :=
    left_run hrun hreq hlt hi hx
  constructor
  · exact fun k i hk => h.inUse k i (hslot hk)
  · exact fun k k' i hk hk' => h.unique k k' i (hslot hk) (hslot hk')
  · exact fun k i id r hk hr => h.apart k i id r (hslot hk) hr
  · intro i x hi hx
    rcases hleft hi hx with ⟨hn, _⟩ | ⟨hx, _⟩
    · exact h.inUse n i hn
    · exact h.used i x hi hx
  · intro k i x hk hx
    have hi := SubnetPool.lt_of_inUse (h.inUse k i (hslot hk))
    by_cases hkn : k = n
    · subst hkn
      simp only [Function.update_self]
      rcases hleft hi hx with ⟨_, hnew⟩ | ⟨hx, hold⟩
      · exact hnew _
      · exact hold _ (h.tasks k i x (hslot hk) hx)
    · rw [Function.update_of_ne hkn]
      rcases hleft hi hx with ⟨hn, _⟩ | ⟨hx, _⟩
      · exact absurd (h.unique k n i (hslot hk) hn) hkn
      · exact h.tasks k i x (hslot hk) hx
  · intro id r i x hr hri hx
    rcases hleft (hrunning id r i hr hri) hx with ⟨hn, _⟩ | ⟨hx, _⟩
    · exact absurd hri (h.apart n i id r hn hr)
    · exact h.entries id r i x hr hri hx

theorem Accounted.allocate {a : SubnetAllocation} {pool : SubnetPool} (h : Accounted sh f)
    (hpool : sh.subnetPool.allocate = some (a, pool))
    (hrunning : ∀ id r i, sh.vms.lookup id = some (.running r) → r.subnetIndex = some i →
      i ∈ sh.subnetPool.inUse) :
    Accounted { sh with subnetPool := pool }
      (Function.update f n { f n with slot := some a.index, items := [] }) := by
  obtain ⟨hfree, huse, _⟩ := SubnetPool.allocate_eq_some hpool
  have hgrow {i : U16} (hi : i ∈ sh.subnetPool.inUse) : i ∈ pool.inUse := huse ▸ .inr hi
  have hnew {i : U16} (hi : some a.index = some i) : i ∉ sh.subnetPool.inUse :=
    Option.some.inj hi ▸ hfree
  constructor
  · intro k i hk
    rcases slot_update hk with ⟨rfl, hi⟩ | ⟨_, hk⟩
    · exact huse ▸ .inl (Option.some.inj hi).symm
    · exact hgrow (h.inUse k i hk)
  · intro k k' i hk hk'
    rcases slot_update hk with ⟨rfl, hi⟩ | ⟨_, hk⟩
    · rcases slot_update hk' with ⟨rfl, _⟩ | ⟨_, hk'⟩
      · rfl
      · exact absurd (h.inUse k' i hk') (hnew hi)
    · rcases slot_update hk' with ⟨_, hi⟩ | ⟨_, hk'⟩
      · exact absurd (h.inUse k i hk) (hnew hi)
      · exact h.unique k k' i hk hk'
  · intro k i id r hk hr hri
    rcases slot_update hk with ⟨rfl, hi⟩ | ⟨_, hk⟩
    · exact hnew hi (hrunning id r i hr hri)
    · exact h.apart k i id r hk hr hri
  · exact fun i x hi hx => hgrow (h.used i x hi hx)
  · intro k i x hk hx
    rcases slot_update hk with ⟨rfl, hi⟩ | ⟨hkn, hk⟩
    · have hlt : i.toNat < maxSubnets := Option.some.inj hi ▸ a.inPool
      exact absurd (h.used i x hlt hx) (hnew hi)
    · rw [Function.update_of_ne hkn]
      exact h.tasks k i x hk hx
  · exact h.entries

theorem Accounted.release {pool : SubnetPool} (h : Accounted sh f) (hslot : (f n).slot = some i)
    (hitems : (f n).items = []) (huse : pool.inUse = sh.subnetPool.inUse \ {i}) :
    Accounted { sh with subnetPool := pool } (Function.update f n { f n with slot := none }) := by
  have hothers {k : ℕ} {j : U16} (hk : (Function.update f n { f n with slot := none } k).slot =
      some j) : k ≠ n ∧ (f k).slot = some j := by
    rcases slot_update hk with ⟨_, hk⟩ | hk
    · simp at hk
    · exact hk
  have hleft (x : Resource) : ¬ Left sh.host i x := fun hx => by
    simpa [hitems] using h.tasks n i x hslot hx
  constructor
  · intro k j hk
    obtain ⟨hkn, hk⟩ := hothers hk
    exact huse ▸ ⟨h.inUse k j hk, fun hj => hkn (h.unique k n j hk (hj ▸ hslot))⟩
  · exact fun k k' j hk hk' => h.unique k k' j (hothers hk).2 (hothers hk').2
  · exact fun k j id r hk hr => h.apart k j id r (hothers hk).2 hr
  · exact fun j x hj hx => huse ▸ ⟨h.used j x hj hx, fun hji => hleft x (hji ▸ hx)⟩
  · intro k j x hk hx
    obtain ⟨hkn, hk⟩ := hothers hk
    rw [Function.update_of_ne hkn]
    exact h.tasks k j x hk hx
  · exact h.entries

/-- A running VM takes over what its task has in hand. -/
theorem Accounted.upgrade {id : Uuid} {r : VmResources} {vms : VmMap} (h : Accounted sh f)
    (hslot : (f n).slot = r.subnetIndex) (hitems : ∀ x ∈ (f n).items, x ∈ networkOf r)
    (hv : v.slot = none) (hvms : ∀ id' r', vms.lookup id' = some (.running r') →
      id' = id ∧ r' = r ∨ sh.vms.lookup id' = some (.running r')) :
    Accounted { sh with vms := vms } (Function.update f n v) := by
  have hothers {k : ℕ} {j : U16} (hk : (Function.update f n v k).slot = some j) :
      k ≠ n ∧ (f k).slot = some j := by
    rcases slot_update hk with ⟨_, hk⟩ | hk
    · simp [hv] at hk
    · exact hk
  constructor
  · exact fun k j hk => h.inUse k j (hothers hk).2
  · exact fun k k' j hk hk' => h.unique k k' j (hothers hk).2 (hothers hk').2
  · intro k j id' r' hk hr hri
    obtain ⟨hkn, hk⟩ := hothers hk
    rcases hvms id' r' hr with ⟨_, rfl⟩ | hr
    · exact hkn (h.unique k n j hk (hslot.trans hri))
    · exact h.apart k j id' r' hk hr hri
  · exact h.used
  · intro k j x hk hx
    obtain ⟨hkn, hk⟩ := hothers hk
    rw [Function.update_of_ne hkn]
    exact h.tasks k j x hk hx
  · intro id' r' j x hr hri hx
    rcases hvms id' r' hr with ⟨_, rfl⟩ | hr
    · exact hitems x (h.tasks n j x (hslot.trans hri) hx)
    · exact h.entries id' r' j x hr hri hx

/-- A task takes over what a running VM has. -/
theorem Accounted.take {id : Uuid} {r : VmResources} {vms : VmMap} (h : Accounted sh f)
    (hr : sh.vms.lookup id = some (.running r)) (hslot : v.slot = r.subnetIndex)
    (hitems : v.items = networkOf r)
    (hrunning : ∀ id r i, sh.vms.lookup id = some (.running r) → r.subnetIndex = some i →
      i ∈ sh.subnetPool.inUse)
    (hvms : ∀ id' r', vms.lookup id' = some (.running r') →
      sh.vms.lookup id' = some (.running r') ∧ ∀ j, r.subnetIndex = some j → r'.subnetIndex ≠ some j) :
    Accounted { sh with vms := vms } (Function.update f n v) := by
  constructor
  · intro k j hk
    rcases slot_update hk with ⟨rfl, hj⟩ | ⟨_, hk⟩
    · exact hrunning id r j hr (hslot.symm.trans hj)
    · exact h.inUse k j hk
  · intro k k' j hk hk'
    rcases slot_update hk with ⟨rfl, hj⟩ | ⟨_, hk⟩
    · rcases slot_update hk' with ⟨rfl, _⟩ | ⟨_, hk'⟩
      · rfl
      · exact absurd (hslot.symm.trans hj) (h.apart k' j id r hk' hr)
    · rcases slot_update hk' with ⟨_, hj⟩ | ⟨_, hk'⟩
      · exact absurd (hslot.symm.trans hj) (h.apart k j id r hk hr)
      · exact h.unique k k' j hk hk'
  · intro k j id' r' hk hr' hri
    rcases slot_update hk with ⟨rfl, hj⟩ | ⟨_, hk⟩
    · exact (hvms id' r' hr').2 j (hslot.symm.trans hj) hri
    · exact h.apart k j id' r' hk (hvms id' r' hr').1 hri
  · exact h.used
  · intro k j x hk hx
    rcases slot_update hk with ⟨rfl, hj⟩ | ⟨hkn, hk⟩
    · rw [Function.update_self, hitems]
      exact h.entries id r j x hr (hslot.symm.trans hj) hx
    · rw [Function.update_of_ne hkn]
      exact h.tasks k j x hk hx
  · exact fun id' r' j x hr' => h.entries id' r' j x (hvms id' r' hr').1

end Accounts

section Steps

variable {config : AppConfig} {lib : Libraries} {s : State} {past : History} {n : ℕ} {c : Choice}
  {o : Op} {t : HandlerTask} {v : Duty} {sh : Shared} {reply : Reply o} {f : ℕ → Duty}

/-- The record whose placeholder is in the map. -/
def placedRecord : Standing VmResources → Option VmResources
  | .creating r | .released r => some r
  | .fresh | .upgraded _ | .gone => none

/-- The duty of a task fits its part in the reservation protocol. -/
structure Linked (l : Standpoint) (v : Duty) : Prop where
  id : v.id = l.id
  record : v.record = placedRecord l.standing

theorem run_reply {host host' : Host} {cmd : Command} {r : Option RustText.Text}
    (h : host.run c cmd = some (host', r)) : r = if c.succeeds then some c.stdout else none := by
  cases cmd with
  | deleteRule chain handle =>
    cases chain <;> cases hc : c.succeeds <;> simp_all [Host.run]
  | _ =>
    cases hc : c.succeeds <;> simp only [Host.run, hc] at h
    all_goals
      repeat' split at h
      all_goals simp_all

theorem dutyAllows_of_step (hok : Cooperative s (.run n c)) (hn : s.tasks[n]? = some t)
    (ho : t.nextOp = some o) (hexec : exec config n c s.shared o = some (sh, some reply))
    (hlink : Linked t.ledger.view v) (hallow : allows config o c reply t.ledger.view) :
    dutyAllows config o c reply v := by
  cases o with
  | command cmd =>
    obtain ⟨hdown, hadds⟩ := hok cmd (dueCommand_eq hn ho)
    simp only [exec] at hexec
    split at hexec
    · simp at hexec
    · rename_i host r hrun
      obtain ⟨_, rfl⟩ := by simpa using hexec
      have hr := run_reply hrun
      subst hr
      refine ⟨by split <;> simp_all, hdown, fun ha out hout => ?_⟩
      split at hout
      · rename_i hc
        rw [← Option.some.inj hout]
        exact hadds ha hc
      · simp at hout
  | vms sec =>
    cases sec with
    | remove id =>
      obtain ⟨r, hst, rfl⟩ := hallow
      exact ⟨r, by rw [hlink.record, hst]; rfl, rfl⟩
    | take id =>
      cases reply with
      | ok r => exact hallow
      | error e => trivial
    | get id =>
      rcases reply with _ | r | r
      · trivial
      · intro hid
        have hplaced := hallow.1 (hlink.id.symm.trans hid)
        rw [hlink.record]
        cases hst : t.ledger.view.standing <;> simp_all [placedRecord]
      · trivial
    | _ => trivial
  | _ => trivial

theorem Linked.set {l : Standpoint} (h : Linked l v) (m : Mutex) (b : Bool) :
    Linked (l.set m b) v := ⟨by simpa using h.id, by simpa using h.record⟩

theorem Linked.step (h : Linked t.ledger.view v) (hreq : requires config o t.ledger.view)
    (hallow : allows config o c reply t.ledger.view) :
    Linked (noteView t.ledger.view o reply) (noteDuty v c o reply) := by
  cases o with
  | newV4 => exact ⟨rfl, h.record⟩
  | lock m => exact h.set m true
  | unlock m => exact h.set m false
  | tryLock m =>
    cases reply with
    | true => exact h.set m true
    | false => cases m <;> exact ⟨h.id, h.record⟩
  | allocate => cases reply <;> exact ⟨h.id, h.record⟩
  | build id options => cases reply <;> exact ⟨h.id, h.record⟩
  | release i =>
    refine ⟨h.id.trans id_noteRelease.symm, h.record.trans ?_⟩
    simp only [noteView, noteRelease]
    split
    · rfl
    · split
      · rename_i r hst
        simp [hst, placedRecord]
      · rfl
  | vms sec =>
    refine ⟨?_, ?_⟩
    · refine Eq.trans ?_ (h.id.trans id_noteSection.symm)
      cases sec with
      | reserve => cases reply <;> rfl
      | upgrade => cases reply <;> rfl
      | remove => cases reply <;> rfl
      | take => cases reply <;> rfl
      | _ => rfl
    · obtain ⟨_, hreq⟩ := hreq
      cases sec with
      | reserve id r => cases reply <;> first | exact h.record | rfl
      | upgrade id =>
        obtain ⟨_, ⟨r, hst⟩, _⟩ := hreq
        obtain rfl : reply = true := hallow
        simp [noteDuty, noteView, noteSection, hst, placedRecord]
      | remove id =>
        obtain ⟨r, _, rfl⟩ := hallow
        rfl
      | take id => cases reply <;> exact h.record
      | discard id => rfl
      | _ => exact h.record
  | _ => exact ⟨h.id, h.record⟩

theorem running_used (hs : Sound config s) {id : Uuid} {r : VmResources} {i : U16}
    (hr : s.shared.vms.lookup id = some (.running r)) (hi : r.subnetIndex = some i) :
    i ∈ s.shared.subnetPool.inUse := hs.protocol.used _ i (hs.protocol.owns_running hr hi)

/-- A critical section hands over what is to be taken down together with the entry. -/
theorem Accounted.section {sec : VmRegistry.Section} (hs : Sound config s) (hn : s.tasks[n]? = some t)
    (h : Accounted s.shared f) (hlink : Linked t.ledger.view (f n))
    (hreq : requires config (.vms sec) t.ledger.view) (hduty : dutyRequires (.vms sec) (f n)) :
    Accounted { s.shared with vms := (sec.run config.capacity s.shared.vms).1 }
      (Function.update f n (noteDuty (f n) c (.vms sec) (sec.run config.capacity s.shared.vms).2)) := by
  have hkeep {vms : VmMap} {v : Duty} (hslot : v.slot = (f n).slot) (hitems : v.items = (f n).items)
      (hvms : ∀ id r, vms.lookup id = some (.running r) →
        s.shared.vms.lookup id = some (.running r)) :
      Accounted { s.shared with vms := vms } (Function.update f n v) := by
    refine h.mono (fun _ _ hx => hx) rfl hvms (fun k i hk => ?_) fun k _ _ => ?_
    · rcases slot_update hk with ⟨rfl, hv⟩ | ⟨_, hk⟩
      · exact hslot.symm.trans hv
      · exact hk
    · by_cases hkn : k = n
      · subst hkn
        simpa using hitems
      · rw [Function.update_of_ne hkn]
  obtain ⟨_, hreq⟩ := hreq
  cases sec with
  | reserve id r =>
    rcases VmRegistry.reserve_cases config.capacity id r s.shared.vms with ⟨e, he, _⟩ | ⟨he, _⟩
    · simp only [VmRegistry.Section.run, he]
      exact hkeep rfl rfl fun _ _ hr => hr
    · have hvms (id' : Uuid) (r' : VmResources)
          (hr : (s.shared.vms.insert id (.creating r)).lookup id' = some (.running r')) :
          s.shared.vms.lookup id' = some (.running r') := by
        rw [lookup_insert] at hr
        split at hr
        · simp at hr
        · exact hr
      simp only [VmRegistry.Section.run, he]
      exact hkeep rfl rfl hvms
  | upgrade id =>
    obtain ⟨hid, ⟨r, hst⟩, _⟩ := hreq
    obtain ⟨r', hrecord, hslot, hitems⟩ := hduty
    have hl := placed_creating hs.protocol (siteOf_task hn) hid hst
    obtain rfl : r' = r := by
      rw [hlink.record, hst] at hrecord
      exact (Option.some.inj hrecord).symm
    have hmoved : (VmRegistry.upgrade id s.shared.vms).2 = true := by simp [VmRegistry.upgrade, hl]
    have hvms (id' : Uuid) (r'' : VmResources)
        (hr : (VmRegistry.upgrade id s.shared.vms).1.lookup id' = some (.running r'')) :
        id' = id ∧ r'' = r' ∨ s.shared.vms.lookup id' = some (.running r'') := by
      rw [VmRegistry.lookup_upgrade hl] at hr
      split at hr
      · rename_i hid'
        exact .inl ⟨hid', by simpa using hr.symm⟩
      · exact .inr hr
    simp only [VmRegistry.Section.run, hmoved]
    exact h.upgrade hslot hitems rfl hvms
  | remove id =>
    have hvms (id' : Uuid) (r : VmResources)
        (hr : (s.shared.vms.erase id).lookup id' = some (.running r)) :
        s.shared.vms.lookup id' = some (.running r) := by
      rw [lookup_erase] at hr
      split at hr
      · simp at hr
      · exact hr
    simp only [VmRegistry.Section.run, VmRegistry.remove]
    cases s.shared.vms.lookup id <;> exact hkeep rfl rfl hvms
  | take id =>
    rcases VmRegistry.take_cases id s.shared.vms with ⟨r, hl, ht⟩ | ⟨e, he, hsame⟩
    · simp only [VmRegistry.Section.run, ht]
      refine h.take hl rfl rfl (fun _ _ _ => running_used hs) fun id' r' hr => ?_
      rw [lookup_erase] at hr
      split at hr
      · simp at hr
      · rename_i hid
        refine ⟨hr, fun j hj hj' => hid ?_⟩
        exact hs.protocol.distinct id' id _ _ j hr hl hj' hj
    · have hvms (id' : Uuid) (r : VmResources)
          (hr : (VmRegistry.take id s.shared.vms).1.lookup id' = some (.running r)) :
          s.shared.vms.lookup id' = some (.running r) := by rwa [hsame] at hr
      simp only [VmRegistry.Section.run, he]
      exact hkeep rfl rfl hvms
  | discard id =>
    refine hkeep rfl rfl fun id' r hr => ?_
    simp only [VmRegistry.Section.run, lookup_erase] at hr
    split at hr
    · simp at hr
    · exact hr
  | get id => exact hkeep rfl rfl fun _ _ hr => hr
  | entries => exact hkeep rfl rfl fun _ _ hr => hr
  | info => exact hkeep rfl rfl fun _ _ hr => hr

/-- One step of one task. -/
theorem Accounted.step (hs : Sound config s) (hn : s.tasks[n]? = some t)
    (ho : t.nextOp = some o) (hexec : exec config n c s.shared o = some (sh, some reply))
    (h : Accounted s.shared f) (hlink : Linked t.ledger.view (f n)) (hduty : dutyRequires o (f n)) :
    Accounted sh (Function.update f n (noteDuty (f n) c o reply)) := by
  have hkeep {host : Host} (hx : ∀ i x, Left host i x → Left s.shared.host i x) :
      Accounted { s.shared with host := host } f :=
    h.mono hx rfl (fun _ _ hr => hr) (fun _ _ hi => hi) fun _ _ _ => rfl
  have hidle (hd : noteDuty (f n) c o reply = f n) (ha : Accounted sh f) :
      Accounted sh (Function.update f n (noteDuty (f n) c o reply)) := by
    rwa [hd, Function.update_eq_self]
  have hreq := requires_of_nextOp hs hn ho
  cases o with
  | command cmd =>
    simp only [exec] at hexec
    split at hexec
    · simp at hexec
    · rename_i host r hrun
      obtain ⟨rfl, rfl⟩ := by simpa using hexec
      exact h.command hrun hduty fun id r i hr hi => SubnetPool.lt_of_inUse (running_used hs hr hi)
  | allocate =>
    simp only [exec] at hexec
    split at hexec
    · obtain ⟨rfl, rfl⟩ := by simpa using hexec
      exact hidle rfl h
    · rename_i a pool hpool
      obtain ⟨rfl, rfl⟩ := by simpa using hexec
      exact h.allocate hpool fun _ _ _ => running_used hs
  | release i =>
    obtain ⟨pool, hpool, huse⟩ := SubnetPool.release_eq_some s.shared.subnetPool hreq.2.1
    simp only [exec, hpool] at hexec
    obtain rfl := by simpa using hexec
    exact h.release hduty.1 hduty.2 huse
  | vms sec =>
    obtain ⟨rfl, rfl⟩ := by simpa [exec] using hexec
    exact h.section hs hn hlink hreq hduty
  | newV4 =>
    simp only [exec] at hexec
    split at hexec
    · simp at hexec
    · obtain ⟨rfl, rfl⟩ := by simpa using hexec
      refine h.mono (fun _ _ hx => hx) rfl (fun _ _ hr => hr) (fun k i hk => ?_) fun k _ _ => ?_
      · rcases slot_update hk with ⟨rfl, hv⟩ | ⟨_, hk⟩
        · exact hv
        · exact hk
      · by_cases hkn : k = n
        · subst hkn
          simp [noteDuty]
        · rw [Function.update_of_ne hkn]
  | removeFile path =>
    simp only [exec] at hexec
    apply hidle rfl
    split at hexec
    · obtain ⟨rfl, _⟩ := by simpa using hexec
      exact hkeep fun _ _ hx => hx.mono (fun t ht => ⟨t, ht, rfl⟩) (fun _ hq => hq) fun _ hq => hq
    · obtain ⟨rfl, _⟩ := by simpa using hexec
      exact h
  | sdk id call =>
    apply hidle rfl
    cases call with
    | startVmm =>
      obtain ⟨rfl, _⟩ := by simpa [exec] using hexec
      exact hkeep fun _ _ hx => hx.mono (fun t ht => ⟨t, ht, rfl⟩) (fun _ hq => hq) fun _ hq => hq
    | _ =>
      obtain ⟨rfl, _⟩ := by simpa [exec] using hexec
      exact h
  | dropInstance id =>
    apply hidle rfl
    obtain rfl := by simpa [exec] using hexec
    exact hkeep fun _ _ hx => hx.mono (fun t ht => ⟨t, ht, rfl⟩) (fun _ hq => hq) fun _ hq => hq
  | _ =>
    apply hidle rfl
    simp only [exec] at hexec
    repeat' split at hexec
    all_goals first | (cases hexec; exact ⟨h.inUse, h.unique, h.apart, h.used, h.tasks, h.entries⟩) | simp at hexec

end Steps

section Taps

variable {config : AppConfig} {lib : Libraries} {s : State} {past : History} {n k : ℕ}
  {c : Choice} {o : Op} {t u : HandlerTask} {v : Duty} {sh : Shared} {reply : Reply o}
  {f : ℕ → Duty} {id : Uuid} {name : String}

/-- The tap has been configured as a network interface of the instance. -/
def UsesTap (past : History) (id : Uuid) (name : String) : Prop :=
  ∃ n iface a, Performed past n (.sdk id (.putGuestNetworkInterfaceById iface name)) a

/-- The tap of an instance is known from the entry, or to the task that has the process. -/
structure Tapped (s : State) (f : ℕ → Duty) (id : Uuid) (name : String) : Prop where
  spent : Spent (siteOf s) id
  entry : ∀ e, s.shared.vms.lookup id = some e → e.res.tapName = some name
  agent : ∀ (n : ℕ) (t : HandlerTask), s.shared.vms.lookup id = none → s.tasks[n]? = some t →
    t.ledger.view.agent = some id → ∃ i, (f n).slot = some i ∧ name = tapName i

/-- The task that has a process knows its tap still, or takes it over from the entry. -/
theorem Tapped.agent_step (h : Tapped s f id name) (hs : Sound config s) (hn : s.tasks[n]? = some t)
    (ho : t.nextOp = some o) (hexec : exec config n c s.shared o = some (sh, some reply))
    (hduty : dutyRequires o (f n)) (hnone : sh.vms.lookup id = none)
    (hagent : (noteView t.ledger.view o reply).agent = some id) :
    ∃ i, (noteDuty (f n) c o reply).slot = some i ∧ name = tapName i := by
  have hreq := requires_of_nextOp hs hn ho
  have hvms (hne : ∀ sec, o ≠ .vms sec) : sh.vms = s.shared.vms := (exec_frame hexec).vms hne
  have hkeep (hvms : sh.vms.lookup id = s.shared.vms.lookup id)
      (ha : t.ledger.view.agent = some id) : ∃ i, (f n).slot = some i ∧ name = tapName i :=
    h.agent n t (hvms ▸ hnone) hn ha
  cases o with
  | allocate =>
    rw [agent_noteView (by simp) (by simp) (by simp)] at hagent
    obtain ⟨i, hi, _⟩ := hkeep (by rw [hvms (by simp)]) hagent
    have hslot : (f n).slot = none := hduty.1
    simp [hslot] at hi
  | release i =>
    rw [agent_noteView (by simp) (by simp) (by simp)] at hagent
    have ha : t.ledger.view.agent = none := hreq.2.2.1
    simp [ha] at hagent
  | build id' options =>
    obtain ⟨hid, ⟨r, hst⟩, ha⟩ := hreq
    have hl := placed_creating hs.protocol (siteOf_task hn) hid hst
    cases reply with
    | false =>
      have hagent : t.ledger.view.agent = some id := hagent
      simp [ha] at hagent
    | true =>
      obtain rfl : id' = id := Option.some.inj hagent
      rw [hvms (by simp), hl] at hnone
      simp at hnone
  | dropInstance id' => simp [noteView] at hagent
  | vms sec =>
    obtain ⟨rfl, rfl⟩ := by simpa [exec] using hexec
    obtain ⟨_, hreq⟩ := hreq
    have hidle (ha : t.ledger.view.agent = none)
        (hsame : ∀ r, (noteSection t.ledger.view sec r).agent = t.ledger.view.agent) : False := by
      have hagent := (hsame _).symm.trans hagent
      simp [ha] at hagent
    cases sec with
    | reserve id' r =>
      exact (hidle hreq.2.2.2.2 fun r => by cases r <;> rfl).elim
    | remove id' =>
      exact (hidle hreq.2.2.2 fun r => by cases r <;> rfl).elim
    | upgrade id' =>
      obtain ⟨hid, ⟨r, hst⟩, _⟩ := hreq
      have hl := placed_creating hs.protocol (siteOf_task hn) hid hst
      have hmoved : (VmRegistry.upgrade id' s.shared.vms).2 = true := by
        simp [VmRegistry.upgrade, hl]
      simp [noteView, noteSection, VmRegistry.Section.run, hmoved, hst] at hagent
    | take id' =>
      rcases VmRegistry.take_cases id' s.shared.vms with ⟨r, hl, ht⟩ | ⟨e, he, hsame⟩
      · simp only [VmRegistry.Section.run, ht] at hagent ⊢
        obtain rfl : id' = id := Option.some.inj hagent
        obtain ⟨i, _, hindex, htap, _⟩ := (hs.protocol.fits id' _ hl).subnet
        exact ⟨i, hindex, Option.some.inj ((h.entry _ hl).symm.trans htap)⟩
      · have ha : t.ledger.view.agent = none := hreq.2.2
        simp [noteView, noteSection, VmRegistry.Section.run, he, ha] at hagent
    | discard id' =>
      refine hkeep ?_ hagent
      simp only [VmRegistry.Section.run, lookup_erase] at hnone ⊢
      split at hnone
      · rename_i hid'
        subst hid'
        obtain ⟨hvid, hgone | ⟨_, ha, _⟩⟩ := hreq
        · have hplaced := hs.protocol.placed n _ id (siteOf_task hn) hvid
          rw [hgone] at hplaced
          have hl : s.shared.vms.lookup id = none := hplaced
          simp [hl]
        · exact absurd (ha.symm.trans hagent) (by simp)
      · rename_i hid'
        simp [hid']
    | _ => exact hkeep rfl hagent
  | _ =>
    rw [agent_noteView (by simp) (by simp) (by simp)] at hagent
    rw [slot_noteDuty (by simp) (by simp) (by simp)]
    exact hkeep (by rw [hvms (by simp)]) hagent

theorem usesTap_cons {e : Event} (h : UsesTap ((s, e) :: past) id name) : UsesTap past id name ∨
    ∃ n c t iface, e = .run n c ∧ s.tasks[n]? = some t ∧
      t.nextOp = some (.sdk id (.putGuestNetworkInterfaceById iface name)) := by
  obtain ⟨n, iface, a, c, t, hp, ht, ho⟩ := h
  rcases List.mem_cons.mp hp with heq | hp
  · obtain ⟨rfl, rfl⟩ := Prod.mk.inj heq
    exact .inr ⟨n, c, t, iface, rfl, ht, ho⟩
  · exact .inl ⟨n, iface, a, c, t, hp, ht, ho⟩

/-- Entries and processes stay where they are. -/
theorem Tapped.mono {s' : State} {f' : ℕ → Duty} (h : Tapped s f id name)
    (hspent : Spent (siteOf s') id) (hvms : s'.shared.vms = s.shared.vms)
    (hagent : ∀ (n : ℕ) (t : HandlerTask), s'.tasks[n]? = some t → t.ledger.view.agent = some id →
      ∃ u, s.tasks[n]? = some u ∧ u.ledger.view.agent = some id ∧ (f' n).slot = (f n).slot) :
    Tapped s' f' id name where
  spent := hspent
  entry e he := h.entry e (hvms ▸ he)
  agent n t hl hn ha := by
    obtain ⟨u, hu, hua, hslot⟩ := hagent n t hn ha
    rw [hslot]
    exact h.agent n u (hvms ▸ hl) hu hua

theorem Tapped.step {request : Request} {may : Exit → Bool} {exit : Exit → Program Reply Outcome}
    {next : Reply o → Program Reply Outcome} {l : Ledger} (h : Tapped s f id name)
    (hr : (server config lib).Reachable s)
    (hn : s.tasks[n]? = some ⟨request, .op o may exit next, l⟩)
    (hexec : exec config n c s.shared o = some (sh, some reply)) (hduty : dutyRequires o (f n)) :
    Tapped ⟨sh, s.tasks.set n ⟨request, next reply, l.note c o reply⟩⟩
      (Function.update f n (noteDuty (f n) c o reply)) id name := by
  have hstep : (server config lib).step s (.run n c) =
      some ⟨sh, s.tasks.set n ⟨request, next reply, l.note c o reply⟩⟩ := by
    simp [server, Server.step, hn, hexec]
  have he : Server.step config lib s (.run n c) =
      some ⟨sh, s.tasks.set n ⟨request, next reply, l.note c o reply⟩⟩ := hstep
  have hreach := hr.step hstep
  have hs := sound_of_reachable hr
  refine ⟨spent_kept hs he h.spent, fun e hl => ?_, fun k u hl hk ha => ?_⟩
  · have hmoves := lookup_moves hs he id
    have hsome : s.shared.vms.lookup id ≠ none := fun hnone => by
      simp [(absent_kept hs he h.spent hnone).2] at hl
    obtain ⟨e₀, he₀⟩ := Option.ne_none_iff_exists'.mp hsome
    rw [hl, he₀] at hmoves
    have hres : e.res = e₀.res := by cases hmoves <;> rfl
    rw [hres]
    exact h.entry e₀ he₀
  · obtain ⟨hreg, _⟩ := (attended_of_reachable hreach).deleting (sound_of_reachable hreach).protocol hl
      (siteOf_task hk) ha
    rcases (getElem?_set hn).mp hk with ⟨rfl, rfl⟩ | ⟨hkn, hold⟩
    · simpa using h.agent_step hs hn rfl hexec hduty hl ha
    · rw [Function.update_of_ne hkn]
      have hvms : sh.vms = s.shared.vms := by
        refine (exec_frame hexec).vms fun sec hsec => ?_
        subst hsec
        have hheld := (hs.protocol.holder .registry n).mpr
          ⟨_, siteOf_task hn, (requires_of_nextOp hs hn rfl).1⟩
        have hheld' := (hs.protocol.holder .registry k).mpr ⟨_, siteOf_task hold, hreg⟩
        exact hkn (Option.some.inj (hheld'.symm.trans hheld))
      exact h.agent k u (hvms ▸ hl) hold ha

end Taps

section Runs

variable {config : AppConfig} {lib : Libraries} {s : State} {past : History} {n : ℕ}
  {t : HandlerTask} {f : ℕ → Duty} {id : Uuid} {i : U16}

/-- What the duties of the tasks say about a state and its history. -/
structure Kept (past : History) (s : State) (f : ℕ → Duty) : Prop where
  linked : ∀ (n : ℕ) (t : HandlerTask), s.tasks[n]? = some t → Linked t.ledger.view (f n)
  accounted : Accounted s.shared f
  tapped : ∀ id name, UsesTap past id name → Tapped s f id name

theorem linked_set {f : ℕ → Duty} {t' : HandlerTask} {v : Duty} {sh : Shared}
    (h : ∀ (n : ℕ) (t : HandlerTask), s.tasks[n]? = some t → Linked t.ledger.view (f n))
    (hn : s.tasks[n]? = some t) (hlink : Linked t'.ledger.view v) (k : ℕ) (u : HandlerTask)
    (hk : (⟨sh, s.tasks.set n t'⟩ : State).tasks[k]? = some u) :
    Linked u.ledger.view (Function.update f n v k) := by
  rcases (getElem?_set hn).mp hk with ⟨rfl, rfl⟩ | ⟨hkn, hk⟩
  · simpa using hlink
  · simpa [hkn] using h k u hk

/-- A step of task `n` outside the shared state that keeps its duty. -/
theorem Kept.still {e : Event} {t' : HandlerTask} (h : Kept past s f)
    (hr : (server config lib).Run past s) (hn : s.tasks[n]? = some t)
    (he : step config lib s e = some { s with tasks := s.tasks.set n t' })
    (hevent : ∀ c, e ≠ .run n c) (hsub : e.subject = some n)
    (hlink : Linked t'.ledger.view (f n)) (hagent : t'.ledger.view.agent = t.ledger.view.agent) :
    Kept ((s, e) :: past) { s with tasks := s.tasks.set n t' } (Function.update f n (f n)) := by
  have hs := sound_of_reachable (System.Run.reachable hr)
  refine ⟨linked_set h.linked hn hlink, ?_, fun id name hu => ?_⟩
  · rw [Function.update_eq_self]
    exact h.accounted
  · rcases usesTap_cons hu with hu | ⟨m, c, _, _, rfl, _⟩
    · have ht := h.tapped id name hu
      refine ht.mono (spent_kept hs he ht.spent) rfl fun k u hk ha => ?_
      rw [Function.update_eq_self]
      rcases (getElem?_set hn).mp hk with ⟨rfl, rfl⟩ | ⟨_, hk⟩
      · exact ⟨t, hn, hagent ▸ ha, rfl⟩
      · exact ⟨u, hk, ha, rfl⟩
    · obtain rfl : m = n := Option.some.inj hsub
      exact absurd rfl (hevent c)

/-- The tap that a task is configuring is that of its own placeholder. -/
theorem tapped_of_call (hs : Sound config s) (hn : s.tasks[n]? = some t) {name : String}
    (hlink : Linked t.ledger.view (f n)) (iface : String)
    (hduty : dutyRequires (.sdk id (.putGuestNetworkInterfaceById iface name)) (f n)) :
    Tapped s f id name := by
  obtain ⟨hid, r, hrecord, htap⟩ := hduty
  have hvid : t.ledger.view.id = some id := hlink.id.symm.trans hid
  have hplaced : s.shared.vms.lookup id = some (.creating r) := by
    have hp := hs.protocol.placed n _ id (siteOf_task hn) hvid
    have hr := hlink.record.symm.trans hrecord
    cases hst : t.ledger.view.standing with
    | creating r' | released r' =>
      rw [hst] at hp hr
      exact Option.some.inj hr ▸ hp
    | _ => simp [hst, placedRecord] at hr
  refine ⟨spent_of_entry hs (by simp [hplaced]), fun e he => ?_, fun _ _ hnone => ?_⟩
  · obtain rfl := Option.some.inj (hplaced.symm.trans he)
    exact htap
  · simp [hplaced] at hnone

theorem tracking_tidiness : Tracking config lib Cooperative (tidiness config)
    (fun _ _ _ => True) Kept where
  initial := by
    have hnone (i : U16) (x : Resource) : ¬ Left {} i x := by
      intro hx
      cases hx with
      | tap t ht => simp at ht
      | postrouting q hq => simp at hq
      | filter q hq => simp at hq
    refine ⟨fun _ => {}, fun n t hn => by simp at hn, ?_, fun id name hu => ?_⟩
    · constructor
      case used => exact fun i x _ hx => absurd hx (hnone i x)
      case entries => exact fun _ _ i x _ _ hx => absurd hx (hnone i x)
      all_goals simp
    · obtain ⟨_, _, _, _, _, hp, _⟩ := hu
      simp at hp
  request past s f r hr hk := by
    have hs := sound_of_reachable (System.Run.reachable hr)
    have hold {k : ℕ} {u : HandlerTask} (hu : s.tasks[k]? = some u) : k ≠ s.tasks.length :=
      (List.getElem?_eq_some_iff.mp hu).1.ne
    refine ⟨{}, safe_tidiness config r, fun k u hu => ?_, ?_, fun id name hu => ?_⟩
    · rcases getElem?_request.mp hu with ⟨rfl, rfl⟩ | hu
      · simpa using (⟨rfl, rfl⟩ : Linked {} {})
      · simpa [hold hu] using hk.linked k u hu
    · refine hk.accounted.mono (fun _ _ hx => hx) rfl (fun _ _ hr => hr) (fun k i hi => ?_) ?_
      · rcases slot_update hi with ⟨_, hv⟩ | ⟨_, hi⟩
        · simp at hv
        · exact hi
      · intro k i hi
        rcases slot_update hi with ⟨_, hv⟩ | ⟨hkn, _⟩
        · simp at hv
        · rw [Function.update_of_ne hkn]
    · rcases usesTap_cons hu with hu | ⟨_, _, _, _, he, _⟩
      · have ht := hk.tapped id name hu
        have he : step config lib s (.request r) = some _ := rfl
        refine ht.mono (spent_kept hs he ht.spent) rfl fun k u hk ha => ?_
        rcases getElem?_request.mp hk with ⟨rfl, rfl⟩ | hk
        · simp at ha
        · exact ⟨u, hk, ha, by rw [Function.update_of_ne (hold hk)]⟩
      · simp at he
  callback past s f n cb r self result l hr hn hk _ := by
    have hlink := hk.linked n _ hn
    refine ⟨f n, tidiness_callback cb, hk.still hr hn ?_ (by simp) rfl hlink rfl⟩
    simp [step, hn]
  run past s f n c r o may exit next l sh reply hr hok hn hexec hk hduty hallow := by
    have hs := sound_of_reachable (System.Run.reachable hr)
    have hlink := hk.linked n _ hn
    have hreq := requires_of_nextOp hs hn rfl
    refine ⟨dutyAllows_of_step hok hn rfl hexec hlink hallow, ?_, ?_, fun id name hu => ?_⟩
    · exact linked_set hk.linked hn (hlink.step hreq hallow)
    · exact hk.accounted.step hs hn rfl hexec hlink hduty
    · have hreach := System.Run.reachable hr
      refine Tapped.step ?_ hreach hn hexec hduty
      rcases usesTap_cons hu with hu | ⟨m, c', t', iface, he, hm, ho⟩
      · exact hk.tapped id name hu
      · obtain ⟨rfl, rfl⟩ : n = m ∧ c = c' := by simpa using he
        obtain rfl := Option.some.inj (hn.symm.trans hm)
        obtain rfl := Option.some.inj ho
        exact tapped_of_call hs hn hlink iface hduty
  leave past s f n e r o may exit next l hr _ hn hmay hk _ := by
    have hlink := hk.linked n _ hn
    refine ⟨trivial, hk.still hr hn ?_ (by simp) rfl ?_ ?_⟩
    · simp [step, hn, hmay]
    · cases e <;> exact ⟨hlink.id, hlink.record⟩
    · cases e <;> rfl

/-- The subnet of an entry whose instance is live is in use. -/
theorem used_of_entry (hs : Sound config s) (hatt : Attended (siteOf s)) {e : VmEntry}
    (hlive : id ∈ s.shared.host.live) (he : s.shared.vms.lookup id = some e)
    (hi : e.res.subnetIndex = some i) : i ∈ s.shared.subnetPool.inUse := by
  refine hs.protocol.used (.entry id) i ⟨e, he, hi, ?_⟩
  rintro ⟨m, u, r, hm, hid, hst⟩
  have hentry : s.shared.vms.lookup id = some (.creating r) := by
    have hplaced := hs.protocol.placed m u id hm hid
    rwa [hst] at hplaced
  rcases hs.protocol.live id hlive with ⟨r', hr'⟩ | ⟨k, v, hk, hagent⟩
  · have hsame : some (Entry.creating r) = some (.running r') := hentry.symm.trans hr'
    simp at hsame
  · have hkm : k = m := by
      rcases hs.protocol.agent k v hk with hplaced | hreg
      · exact hs.protocol.unique k m v u id hk hm (hplaced id hagent).1 hid
      · have hheld := (hs.protocol.holder .registry k).mpr ⟨v, hk, hreg⟩
        have hlocked := hs.protocol.locked m u r hm hst
        exact Option.some.inj (hheld.symm.trans ((hs.protocol.holder .registry m).mpr ⟨u, hm, hlocked⟩))
    subst hkm
    obtain rfl : v = u := Option.some.inj (hk.symm.trans hm)
    rcases hatt k v hk (by simp [hagent]) with hplaced | ⟨hnone, _⟩
    · obtain ⟨_, r', hr'⟩ := hplaced id hagent
      simp [hst] at hr'
    · simp [hnone] at hid

/-- The subnet of a live instance is in use. -/
theorem used_of_live (h : (server config lib).Reachable s) (hk : Kept past s f)
    (hlive : id ∈ s.shared.host.live) (hu : UsesTap past id (tapName i)) :
    i ∈ s.shared.subnetPool.inUse := by
  have hs := sound_of_reachable h
  have ht := hk.tapped id _ hu
  cases hl : s.shared.vms.lookup id with
  | some e =>
    obtain ⟨j, _, hj, htap, _⟩ := (hs.protocol.fits id e hl).subnet
    have hname : some (tapName i) = some (tapName j) := (ht.entry e hl).symm.trans htap
    obtain rfl := tapName_injective (Option.some.inj hname)
    exact used_of_entry hs (attended_of_reachable h) hlive hl hj
  | none =>
    rcases hs.protocol.live id hlive with ⟨r, hr⟩ | ⟨k, v, hk', hagent⟩
    · have hr : s.shared.vms.lookup id = some (.running r) := hr
      simp [hl] at hr
    · obtain ⟨t, hn, rfl⟩ := Option.map_eq_some_iff.mp hk'
      obtain ⟨j, hj, hname⟩ := ht.agent k t hl hn hagent
      obtain rfl := tapName_injective hname
      exact hk.accounted.inUse k i hj

/-- Nothing of subnet `i` is on the host. -/
structure Clean (past : History) (s : State) (i : U16) : Prop where
  taps : ∀ t ∈ s.shared.host.taps, t.name ≠ tapName i
  postrouting : ∀ q ∈ s.shared.host.postrouting, q.guestIp ≠ subnetGuestIp i
  filter : ∀ q ∈ s.shared.host.filter, q.tapName ≠ tapName i
  instances : ∀ id ∈ s.shared.host.live, ¬ UsesTap past id (tapName i)

theorem clean_of_free (h : (server config lib).Reachable s) (hk : Kept past s f)
    (hi : i.toNat < maxSubnets) (hfree : i ∉ s.shared.subnetPool.inUse) : Clean past s i := by
  have hnone (x : Resource) : ¬ Left s.shared.host i x := fun hx =>
    hfree (hk.accounted.used i x hi hx)
  constructor
  · exact fun t ht hname => hnone _ (.tap t ht hname)
  · exact fun q hq hip => hnone _ (.postrouting q hq hip)
  · exact fun q hq hname => hnone _ (.filter q hq hname)
  · exact fun id hlive hu => hfree (used_of_live h hk hlive hu)

/-- A free subnet has nothing left on the host, so `create` never meets leftovers, and who
deletes a tap acts for the owner of its subnet. -/
theorem free_subnet_clean (h : (server config lib).Run past s) (hm : System.Meets Cooperative past) :
    (∀ i : U16, i.toNat < maxSubnets → i ∉ s.shared.subnetPool.inUse → Clean past s i) ∧
      (∀ a pool, s.shared.subnetPool.allocate = some (a, pool) → Clean past s a.index) ∧
      ∀ (n : ℕ) (t : HandlerTask) (i : U16) (o : Owner Uuid), s.tasks[n]? = some t →
        t.nextOp = some (.command (.linkDel (tapName i))) → SubnetOwner s o i → ActsFor n t o := by
  have hreach := System.Run.reachable h
  obtain ⟨f, _, hk⟩ := tracking_tidiness.views_of_run h hm
  refine ⟨fun i hi hfree => clean_of_free hreach hk hi hfree, fun a pool ha => ?_,
    fun n t i o hn hop ho => deletion_owner (sound_of_reachable hreach) hn hop ho⟩
  obtain ⟨hfree, _⟩ := SubnetPool.allocate_eq_some ha
  exact clean_of_free hreach hk a.inPool hfree

/-- A VM is created and deleted; its subnet is then clean. -/
def roundTrip : List Event := sampleCreate ++ runs 0 1 ++ .request (.delete 1) :: runs 1 15

theorem free_subnet_clean_roundTrip :
    Clean (sampleServer.historyOf roundTrip) (sampleServer.endOf roundTrip) 0 := by
  have hrun : sampleServer.Run (sampleServer.historyOf roundTrip) (sampleServer.endOf roundTrip) :=
    System.run_follow roundTrip
  have hmeets : System.Meets Cooperative (sampleServer.historyOf roundTrip) := by
    unfold System.Meets
    decide +kernel
  have hfree : (0 : U16) ∉ (sampleServer.endOf roundTrip).shared.subnetPool.inUse := by
    decide +kernel
  exact (free_subnet_clean hrun hmeets).1 0 (by decide) hfree

end Runs

end Warlock.FreeSubnets
