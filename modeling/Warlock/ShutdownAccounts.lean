import Warlock.ReservationDiscipline
import Warlock.ShutdownAgendas

/-!
# Accounts of a shutdown

Since the end of the serving phase things are only taken away. For each VM that was in the map then,
each part of its teardown is done, or due, or the VM is still in the map that `main` has not read
yet; and its process is stopped and dropped once.
-/

namespace Warlock.ShutdownAccounts
open ApplicationState AssociationMaps EffectPrograms HostNetworking MachineIntegers
  ReservationDiscipline Server ServerOperations ServerProcess ShutdownAgendas SubnetAddressing
  VmIdentifiers

section Operations

/-- The operations that take something away. -/
def Removes : Op → Prop
  | .command (.linkDel _) | .command (.deleteRule _ _) | .removeFile _ | .sdk _ .stop
  | .dropInstance _ | .deregisterVm _ | .vms (.discard _) => True
  | .release i => i.toNat < maxSubnets
  | _ => False

/-- The removals that may fail. -/
def cleans : Op → Bool
  | .command (.linkDel _) | .command (.deleteRule _ _) | .removeFile _ | .deregisterVm _ => true
  | _ => false

/-- What a removal removes is not there. -/
def Effected : Op → Shared → Prop
  | .command (.linkDel name), sh => ∀ t ∈ sh.host.taps, t.name ≠ name
  | .command (.deleteRule .postrouting handle), sh => ∀ q ∈ sh.host.postrouting, q.handle ≠ handle
  | .command (.deleteRule .filter handle), sh => ∀ q ∈ sh.host.filter, q.handle ≠ handle
  | .removeFile path, sh => path ∉ sh.host.files
  | .release i, sh => i ∉ sh.subnetPool.inUse
  | .dropInstance id, sh => id ∉ sh.host.live
  | .deregisterVm id, sh => id ∉ sh.gateway
  | .vms (.discard id), sh => sh.vms.lookup id = none
  | _, _ => True

/-- Nothing is new. -/
structure Shrinks (sh sh' : Shared) : Prop where
  vms : ∀ id e, sh'.vms.lookup id = some e → sh.vms.lookup id = some e
  inUse : sh'.subnetPool.inUse ⊆ sh.subnetPool.inUse
  taps : sh'.host.taps ⊆ sh.host.taps
  postrouting : sh'.host.postrouting ⊆ sh.host.postrouting
  filter : sh'.host.filter ⊆ sh.host.filter
  files : sh'.host.files ⊆ sh.host.files
  live : sh'.host.live ⊆ sh.host.live
  gateway : sh'.gateway ⊆ sh.gateway

variable {config : AppConfig} {n : ℕ} {c : Choice} {sh sh' sh'' : Shared} {o : Op}

theorem Shrinks.refl (sh : Shared) : Shrinks sh sh :=
  ⟨fun _ _ h => h, fun _ h => h, fun _ h => h, fun _ h => h, fun _ h => h, fun _ h => h,
    fun _ h => h, fun _ h => h⟩

theorem Shrinks.trans (h : Shrinks sh sh') (h' : Shrinks sh' sh'') : Shrinks sh sh'' where
  vms id e he := h.vms id e (h'.vms id e he)
  inUse _ hx := h.inUse (h'.inUse hx)
  taps _ hx := h.taps (h'.taps hx)
  postrouting _ hx := h.postrouting (h'.postrouting hx)
  filter _ hx := h.filter (h'.filter hx)
  files _ hx := h.files (h'.files hx)
  live _ hx := h.live (h'.live hx)
  gateway _ hx := h.gateway (h'.gateway hx)

theorem Effected.shrinks (h : Effected o sh) (hs : Shrinks sh sh') : Effected o sh' := by
  unfold Effected at h ⊢
  split
  · exact fun t ht => h t (hs.taps ht)
  · exact fun q hq => h q (hs.postrouting hq)
  · exact fun q hq => h q (hs.filter hq)
  · exact fun hf => h (hs.files hf)
  · exact fun hi => h (hs.inUse hi)
  · exact fun hl => h (hs.live hl)
  · exact fun hg => h (hs.gateway hg)
  · rename_i id
    refine Option.eq_none_iff_forall_ne_some.mpr fun e he => ?_
    exact absurd (h.symm.trans (hs.vms id e he)) (by simp)
  · trivial

/-- What is not on any agenda leaves the map, the pool, the host and the gateway alone. -/
theorem exec_aside {r : Option (Reply o)} (ho : acts o = false)
    (he : exec config n c sh o = some (sh', r)) : sh'.vms = sh.vms ∧ Shrinks sh sh' := by
  have hframe := exec_frame he
  have hne (o' : Op) (h : acts o' = true) : o ≠ o' := by
    rintro rfl
    simp [ho] at h
  have hvms : sh'.vms = sh.vms := by
    cases o with
    | vms s =>
      cases s with
      | get id =>
        obtain ⟨rfl, _⟩ := by simpa [exec] using he
        rfl
      | entries =>
        obtain ⟨rfl, _⟩ := by simpa [exec] using he
        rfl
      | info =>
        obtain ⟨rfl, _⟩ := by simpa [exec] using he
        rfl
      | _ => exact Bool.noConfusion ho
    | _ => exact hframe.vms (by simp)
  have hpool := hframe.subnetPool (hne .allocate rfl) fun i => hne (.release i) rfl
  have hhost := hframe.host (fun cmd => hne (.command cmd) rfl)
    (fun path => hne (.removeFile path) rfl) (fun id => hne (.sdk id .startVmm) rfl) fun id => hne (.dropInstance id) rfl
  have hgateway := hframe.gateway (fun id vcpus memoryMb => hne (.registerVm id vcpus memoryMb) rfl)
    fun id => hne (.deregisterVm id) rfl
  refine ⟨hvms, ?_⟩
  constructor
  · exact fun _ _ hl => hvms ▸ hl
  · exact fun _ hx => hpool ▸ hx
  · exact fun _ hx => hhost ▸ hx
  · exact fun _ hx => hhost ▸ hx
  · exact fun _ hx => hhost ▸ hx
  · exact fun _ hx => hhost ▸ hx
  · exact fun _ hx => hhost ▸ hx
  · exact fun _ hx => hgateway ▸ hx

theorem shrinks_host {host : Host} (taps : host.taps ⊆ sh.host.taps)
    (postrouting : host.postrouting ⊆ sh.host.postrouting) (filter : host.filter ⊆ sh.host.filter)
    (files : host.files ⊆ sh.host.files) (live : host.live ⊆ sh.host.live) :
    Shrinks sh { sh with host := host } :=
  ⟨fun _ _ h => h, fun _ h => h, taps, postrouting, filter, files, live, fun _ h => h⟩

/-- What one removal does. -/
structure Removed (c : Choice) (o : Op) (sh sh' : Shared) : Prop where
  shrinks : Shrinks sh sh'
  effected : (cleans o = true → c.succeeds = true) → Effected o sh'
  vms : (∀ id, o ≠ .vms (.discard id)) → sh'.vms = sh.vms

theorem exec_removes {r : Option (Reply o)} (ho : Removes o)
    (he : exec config n c sh o = some (sh', r)) :
    (∃ reply, r = some reply) ∧ Removed c o sh sh' := by
  have hfilter {α : Type} (p : α → Bool) (l : List α) : l.filter p ⊆ l :=
    fun _ hx => (List.mem_filter.mp hx).1
  cases o with
  | command cmd =>
    cases cmd with
    | linkDel name =>
      cases hc : c.succeeds with
      | false =>
        obtain ⟨rfl, rfl⟩ := by simpa [exec, Host.run, hc] using he
        exact ⟨⟨_, rfl⟩, .refl _, fun h => by simp [hc, cleans] at h, fun _ => rfl⟩
      | true =>
        obtain ⟨rfl, rfl⟩ := by simpa [exec, Host.run, hc] using he
        refine ⟨⟨_, rfl⟩, ?_, fun _ t ht => by simpa using (List.mem_filter.mp ht).2, fun _ => rfl⟩
        exact shrinks_host (hfilter _ _) (fun _ h => h) (fun _ h => h) (fun _ h => h) fun _ h => h
    | deleteRule chain handle =>
      cases hc : c.succeeds with
      | false =>
        cases chain
        all_goals
          obtain ⟨rfl, rfl⟩ := by simpa [exec, Host.run, hc] using he
          exact ⟨⟨_, rfl⟩, .refl _, fun h => by simp [hc, cleans] at h, fun _ => rfl⟩
      | true =>
        cases chain with
        | postrouting =>
          obtain ⟨rfl, rfl⟩ := by simpa [exec, Host.run, hc] using he
          refine ⟨⟨_, rfl⟩, ?_, fun _ q hq => ?_, fun _ => rfl⟩
          rotate_left
          · simpa using (List.mem_filter.mp hq).2
          exact shrinks_host (fun _ h => h) (hfilter _ _) (fun _ h => h) (fun _ h => h) fun _ h => h
        | filter =>
          obtain ⟨rfl, rfl⟩ := by simpa [exec, Host.run, hc] using he
          refine ⟨⟨_, rfl⟩, ?_, fun _ q hq => ?_, fun _ => rfl⟩
          rotate_left
          · simpa using (List.mem_filter.mp hq).2
          exact shrinks_host (fun _ h => h) (fun _ h => h) (hfilter _ _) (fun _ h => h) fun _ h => h
    | _ => exact ho.elim
  | removeFile path =>
    cases hc : c.succeeds with
    | false =>
      obtain ⟨rfl, rfl⟩ := by simpa [exec, hc] using he
      exact ⟨⟨_, rfl⟩, .refl _, fun h => by simp [hc, cleans] at h, fun _ => rfl⟩
    | true =>
      obtain ⟨rfl, rfl⟩ := by simpa [exec, hc] using he
      refine ⟨⟨_, rfl⟩, ?_, fun _ => by simp [Effected], fun _ => rfl⟩
      exact shrinks_host (fun _ h => h) (fun _ h => h) (fun _ h => h) (hfilter _ _) fun _ h => h
  | sdk id call =>
    cases call with
    | stop =>
      obtain ⟨rfl, rfl⟩ := by simpa [exec] using he
      exact ⟨⟨_, rfl⟩, .refl _, fun _ => trivial, fun _ => rfl⟩
    | _ => exact ho.elim
  | dropInstance id =>
    obtain ⟨rfl, rfl⟩ := by simpa [exec] using he
    refine ⟨⟨_, rfl⟩, ?_, fun _ => by simp [Effected], fun _ => rfl⟩
    exact shrinks_host (fun _ h => h) (fun _ h => h) (fun _ h => h) (fun _ h => h) (hfilter _ _)
  | deregisterVm id =>
    obtain ⟨rfl, rfl⟩ := by simpa [exec] using he
    refine ⟨⟨_, rfl⟩, ?_, fun h => ?_, fun _ => ?_⟩
    · split
      · exact ⟨fun _ _ h => h, fun _ h => h, fun _ h => h, fun _ h => h, fun _ h => h, fun _ h => h,
          fun _ h => h, hfilter _ _⟩
      · exact .refl _
    · simp [Effected, h rfl]
    · split <;> rfl
  | vms s =>
    cases s with
    | discard id =>
      obtain ⟨rfl, rfl⟩ := by simpa [exec] using he
      refine ⟨⟨_, rfl⟩, ?_, fun _ => AList.lookup_erase id _, fun h => absurd rfl (h id)⟩
      refine ⟨fun id' e hl => ?_, fun _ h => h, fun _ h => h, fun _ h => h, fun _ h => h,
        fun _ h => h, fun _ h => h, fun _ h => h⟩
      simp only [VmRegistry.Section.run, lookup_erase] at hl
      split at hl
      · simp at hl
      · exact hl
    | _ => exact ho.elim
  | release i =>
    obtain ⟨pool, hpool, huse⟩ := SubnetPool.release_eq_some sh.subnetPool ho
    simp only [exec, hpool] at he
    obtain ⟨rfl, rfl⟩ := by simpa using he
    refine ⟨⟨_, rfl⟩, ?_, fun _ => by simp [Effected, huse], fun _ => rfl⟩
    exact ⟨fun _ _ h => h, by simp [huse], fun _ h => h, fun _ h => h, fun _ h => h, fun _ h => h,
      fun _ h => h, fun _ h => h⟩
  | _ => exact ho.elim

end Operations

section Agendas

variable {config : AppConfig} {id id' : Uuid} {e : VmEntry} {r : VmResources} {o : Op}
  {es : List (Uuid × VmEntry)}

theorem removes_freeOps (h : ∀ i, r.subnetIndex = some i → i.toNat < maxSubnets) :
    ∀ o ∈ freeOps r, Removes o := by
  intro o ho
  rcases mem_freeOps.mp ho with ⟨_, _, rfl⟩ | ⟨_, _, rfl | rfl⟩ | ⟨i, hi, rfl⟩ | ⟨_, _, rfl⟩
  · trivial
  · trivial
  · trivial
  · exact h i hi
  · trivial

theorem removes_instanceOps : ∀ o ∈ instanceOps id e, Removes o := by
  intro o ho
  cases e with
  | creating r => simp [instanceOps] at ho
  | running r =>
    simp only [instanceOps, processOps, List.mem_cons, List.not_mem_nil, or_false] at ho
    rcases ho with rfl | rfl <;> trivial

theorem removes_teardownOps (h : ∀ i, e.res.subnetIndex = some i → i.toNat < maxSubnets) :
    ∀ o ∈ teardownOps config id e, Removes o := by
  intro o ho
  simp only [teardownOps, List.mem_append] at ho
  rcases ho with (ho | ho) | ho
  · exact removes_instanceOps o ho
  · exact removes_freeOps h o ho
  · split at ho
    · obtain rfl := List.mem_singleton.mp ho
      trivial
    · simp at ho

theorem mem_drainOps : o ∈ drainOps es ↔ ∃ id e, (id, e) ∈ es ∧
    (o = .vms (.discard id) ∨ o ∈ instanceOps id e ∨ o ∈ freeOps e.res) := by
  simp only [drainOps, List.mem_flatMap, List.mem_cons, List.mem_append, Prod.exists]

theorem removes_sweepOps
    (h : ∀ id e, (id, e) ∈ es → ∀ i, e.res.subnetIndex = some i → i.toNat < maxSubnets) :
    ∀ o ∈ sweepOps config es, Removes o := by
  intro o ho
  rcases List.mem_append.mp ho with ho | ho
  · split at ho
    · obtain ⟨p, _, rfl⟩ := List.mem_map.mp ho
      trivial
    · simp at ho
  · obtain ⟨id, e, he, rfl | ho | ho⟩ := mem_drainOps.mp ho
    · trivial
    · exact removes_instanceOps o ho
    · exact removes_freeOps (h id e he) o ho

theorem discard_mem_sweepOps (h : (id, e) ∈ es) : .vms (.discard id) ∈ sweepOps config es :=
  List.mem_append_right _ (mem_drainOps.mpr ⟨id, e, h, .inl rfl⟩)

/-- What is owed for a VM is owed for all of them. -/
theorem mem_sweepOps (h : (id, e) ∈ es) (ho : o ∈ teardownOps config id e) :
    o ∈ sweepOps config es := by
  simp only [teardownOps, List.mem_append] at ho
  rcases ho with (ho | ho) | ho
  · exact List.mem_append_right _ (mem_drainOps.mpr ⟨id, e, h, .inr (.inl ho)⟩)
  · exact List.mem_append_right _ (mem_drainOps.mpr ⟨id, e, h, .inr (.inr ho)⟩)
  · split at ho
    · rename_i hg
      obtain rfl := List.mem_singleton.mp ho
      apply List.mem_append_left
      rw [if_pos hg]
      exact List.mem_map.mpr ⟨(id, e), h, rfl⟩
    · simp at ho

section Counts

variable (ho : o ∈ processOps id)
include ho

theorem count_freeOps (r : VmResources) : (freeOps r).count o = 0 := by
  apply List.count_eq_zero.mpr
  intro hmem
  simp only [processOps, List.mem_cons, List.not_mem_nil, or_false] at ho
  rcases mem_freeOps.mp hmem with ⟨_, _, rfl⟩ | ⟨_, _, rfl | rfl⟩ | ⟨_, _, rfl⟩ | ⟨_, _, rfl⟩ <;>
    simp at ho

theorem count_processOps : (processOps id').count o = if id' = id then 1 else 0 := by
  simp only [processOps, List.mem_cons, List.not_mem_nil, or_false] at ho
  rcases ho with rfl | rfl <;> by_cases h : id' = id <;> simp [processOps, h]

theorem count_teardownOps : (teardownOps config id' (.running r)).count o =
    if id' = id then 1 else 0 := by
  have hreport :
      (if config.gatewayClient.isSome then [Op.deregisterVm id'] else []).count o = 0 := by
    apply List.count_eq_zero.mpr
    intro hmem
    split at hmem
    · obtain rfl := List.mem_singleton.mp hmem
      simp [processOps] at ho
    · simp at hmem
  simp only [teardownOps, List.count_append, count_freeOps ho, hreport, add_zero]
  exact count_processOps ho

theorem count_drainOps_cons (p : Uuid × VmEntry) : (drainOps (p :: es)).count o =
    (instanceOps p.1 p.2).count o + (drainOps es).count o := by
  have hne : Op.vms (.discard p.1) ≠ o := by
    rintro rfl
    simp [processOps] at ho
  simp [drainOps, List.count_append, count_freeOps ho, hne]

theorem count_drainOps_of_absent (h : ∀ e, (id, e) ∉ es) : (drainOps es).count o = 0 := by
  induction es with
  | nil => rfl
  | cons p es ih =>
    obtain ⟨id', e⟩ := p
    rw [count_drainOps_cons ho, ih fun e he => h e (.tail _ he), add_zero]
    cases e with
    | creating r => rfl
    | running r =>
      have hne : id' ≠ id := fun heq => h (.running r) (heq ▸ .head _)
      exact (count_processOps ho).trans (if_neg hne)

theorem count_drainOps (hkeys : (es.map Prod.fst).Nodup) (h : (id, .running r) ∈ es) :
    (drainOps es).count o = 1 := by
  induction es with
  | nil => simp at h
  | cons p es ih =>
    obtain ⟨id', e⟩ := p
    obtain ⟨hnew, hkeys⟩ : id' ∉ es.map Prod.fst ∧ (es.map Prod.fst).Nodup := by simpa using hkeys
    rw [count_drainOps_cons ho]
    rcases List.mem_cons.mp h with heq | h
    · obtain ⟨rfl, rfl⟩ := Prod.mk.inj heq
      have habsent (e : VmEntry) : (id, e) ∉ es := fun he => hnew (List.mem_map.mpr ⟨_, he, rfl⟩)
      rw [count_drainOps_of_absent ho habsent]
      exact (count_processOps ho).trans (if_pos rfl)
    · have hne : id' ≠ id := by
        rintro rfl
        exact hnew (List.mem_map.mpr ⟨_, h, rfl⟩)
      have hnone : (instanceOps id' e).count o = 0 := by
        cases e with
        | creating r => rfl
        | running r => exact (count_processOps ho).trans (if_neg hne)
      rw [hnone, ih hkeys h]

theorem count_sweepOps : (sweepOps config es).count o = (drainOps es).count o := by
  have hreports : (if config.gatewayClient.isSome then es.map fun e => Op.deregisterVm e.1
      else []).count o = 0 := by
    apply List.count_eq_zero.mpr
    intro hmem
    split at hmem
    · obtain ⟨p, _, rfl⟩ := List.mem_map.mp hmem
      simp [processOps] at ho
    · simp at hmem
  rw [sweepOps, List.count_append, hreports, zero_add]

end Counts

end Agendas

section Accounts

variable {config : AppConfig} {start sh sh' : Shared} {done : List Op} {read : Bool}
  {due rest : List Op} {o : Op} {id : Uuid} {r : VmResources} {c : Choice}

/-- A VM that is in the map, as long as `main` has not read it, is torn down by nobody yet. -/
def waiting (read : Bool) (sh : Shared) (id : Uuid) : ℕ :=
  if read = false ∧ (sh.vms.lookup id).isSome = true then 1 else 0

/-- What has been done since the end of the serving phase, and what is still due, for the VMs
that were in the map then. -/
structure Account (config : AppConfig) (start : Shared) (done : List Op) (sh : Shared)
    (read : Bool) (due : List Op) : Prop where
  fits : ∀ id e, start.vms.lookup id = some e → RecordFits config id e.res
  removes : ∀ o ∈ due, Removes o
  shrunk : Shrinks start sh
  covered : ∀ id e, start.vms.lookup id = some e → ∀ o ∈ teardownOps config id e,
    Effected o sh ∨ o ∈ due ∨ read = false ∧ sh.vms.lookup id = some e
  once : ∀ id r, start.vms.lookup id = some (.running r) → ∀ o ∈ processOps id,
    done.count o + due.count o + waiting read sh id = 1
  emptied : read = true → ∀ id e, sh.vms.lookup id = some e → .vms (.discard id) ∈ due
  kept : read = false → ∀ id, .vms (.discard id) ∉ due

theorem count_cons_aside (h : o ∉ processOps id) {o' : Op} (ho' : o' ∈ processOps id) :
    (o :: done).count o' = done.count o' :=
  List.count_cons_of_ne fun he : o = o' => h (he ▸ ho')

theorem not_process_of_aside (ho : acts o = false) : o ∉ processOps id := by
  intro hmem
  simp only [processOps, List.mem_cons, List.not_mem_nil, or_false] at hmem
  rcases hmem with rfl | rfl <;> exact nomatch ho

/-- The map stays as it is, and nothing on the agenda is done. -/
theorem Account.aside (h : Account config start done sh read due) (hs : Shrinks sh sh')
    (hvms : ∀ id, sh'.vms.lookup id = sh.vms.lookup id) (ho : ∀ id, o ∉ processOps id) :
    Account config start (o :: done) sh' read due where
  fits := h.fits
  removes := h.removes
  shrunk := h.shrunk.trans hs
  covered id e he o' ho' := by
    rw [hvms]
    exact (h.covered id e he o' ho').imp_left fun heff => heff.shrinks hs
  once id r hr o' ho' := by
    rw [count_cons_aside (ho id) ho', waiting, hvms]
    exact h.once id r hr o' ho'
  emptied hread id e he := h.emptied hread id e ((hvms id).symm.trans he)
  kept := h.kept

/-- What is due first is done. -/
theorem Account.act (h : Account config start done sh read (o :: rest))
    (hr : Removed c o sh sh') (hc : cleans o = true → c.succeeds = true) :
    Account config start (o :: done) sh' read rest := by
  have hvms (hread : read = false) : sh'.vms = sh.vms :=
    hr.vms fun id ho => h.kept hread id (ho ▸ .head _)
  constructor
  · exact h.fits
  · exact fun o' ho' => h.removes o' (.tail _ ho')
  · exact h.shrunk.trans hr.shrinks
  · intro id e he o' ho'
    rcases h.covered id e he o' ho' with heff | hdue | ⟨hread, hl⟩
    · exact .inl (heff.shrinks hr.shrinks)
    · rcases List.mem_cons.mp hdue with rfl | hdue
      · exact .inl (hr.effected hc)
      · exact .inr (.inl hdue)
    · exact .inr (.inr ⟨hread, hvms hread ▸ hl⟩)
  · intro id r hrun o' ho'
    have hold := h.once id r hrun o' ho'
    have hwait : waiting read sh' id = waiting read sh id := by
      cases read with
      | true => simp [waiting]
      | false => rw [waiting, hvms rfl, waiting]
    rw [hwait]
    by_cases heq : o = o'
    · subst heq
      simp only [List.count_cons_self] at hold ⊢
      omega
    · rw [List.count_cons_of_ne heq] at hold ⊢
      exact hold
  · intro hread id e hl
    rcases List.mem_cons.mp (h.emptied hread id e (hr.shrinks.vms id e hl)) with heq | hdue
    · have hgone : sh'.vms.lookup id = none := by
        subst heq
        exact hr.effected hc
      simp [hgone] at hl
    · exact hdue
  · exact fun hread id hmem => h.kept hread id (.tail _ hmem)

theorem discard_not_mem_teardownOps {id' : Uuid} {e : VmEntry} :
    .vms (.discard id) ∉ teardownOps config id' e := by
  intro hmem
  simp only [teardownOps, List.mem_append] at hmem
  rcases hmem with (hmem | hmem) | hmem
  · cases e <;> simp [instanceOps, processOps] at hmem
  · simp [mem_freeOps] at hmem
  · split at hmem <;> simp at hmem

/-- A `delete` takes a VM out. -/
theorem Account.take (h : Account config start done sh false [])
    (hl : sh.vms.lookup id = some (.running r)) : Account config start (.vms (.take id) :: done)
      { sh with vms := sh.vms.erase id } false (teardownOps config id (.running r)) := by
  have hstart := h.shrunk.vms id _ hl
  have hshrinks : Shrinks sh { sh with vms := sh.vms.erase id } := by
    refine ⟨fun id' e he => ?_, fun _ h => h, fun _ h => h, fun _ h => h, fun _ h => h,
      fun _ h => h, fun _ h => h, fun _ h => h⟩
    simp only [lookup_erase] at he
    split at he
    · simp at he
    · exact he
  have hne (id' : Uuid) : Op.vms (.take id) ∉ processOps id' := by simp [processOps]
  constructor
  · exact h.fits
  · apply removes_teardownOps
    intro i hi
    obtain ⟨j, hj, hindex, _⟩ := (h.fits id _ hstart).subnet
    exact Option.some.inj (hindex.symm.trans hi) ▸ hj
  · exact h.shrunk.trans hshrinks
  · intro id' e he o' ho'
    by_cases heq : id' = id
    · subst heq
      obtain rfl := Option.some.inj (hstart.symm.trans he)
      exact .inr (.inl ho')
    · rcases h.covered id' e he o' ho' with heff | hdue | ⟨hread, hl'⟩
      · exact .inl (heff.shrinks hshrinks)
      · simp at hdue
      · exact .inr (.inr ⟨hread, by simpa [lookup_erase, heq] using hl'⟩)
  · intro id' r' hrun o' ho'
    have hold := h.once id' r' hrun o' ho'
    rw [count_cons_aside (hne id') ho', count_teardownOps ho']
    by_cases heq : id = id'
    · subst heq
      have hwas : waiting false sh id = 1 := by simp [waiting, hl]
      have hnow : waiting false { sh with vms := sh.vms.erase id } id = 0 := by simp [waiting]
      rw [hwas, List.count_nil] at hold
      rw [hnow, if_pos rfl]
      omega
    · have hsame : waiting false { sh with vms := sh.vms.erase id } id' = waiting false sh id' := by
        simp [waiting, Ne.symm heq]
      rw [hsame, if_neg heq]
      exact hold
  · exact fun hread => nomatch hread
  · exact fun _ _ => discard_not_mem_teardownOps

theorem mem_entries {vms : VmMap} {e : VmEntry} :
    (id, e) ∈ (vms.entries.map fun e => (e.1, e.2)) ↔ vms.lookup id = some e := by
  simp only [List.mem_map, Prod.mk.injEq]
  constructor
  · rintro ⟨⟨id', e'⟩, hmem, rfl, rfl⟩
    exact AList.mem_lookup_iff.mpr hmem
  · exact fun h => ⟨⟨id, e⟩, AList.mem_lookup_iff.mp h, rfl, rfl⟩

/-- `main` reads the map. -/
theorem Account.sweep {es : List (Uuid × VmEntry)} (h : Account config start done sh false [])
    (hes : es = sh.vms.entries.map fun e => (e.1, e.2)) :
    Account config start (.vms .entries :: done) sh true (sweepOps config es) := by
  have hmem {id : Uuid} {e : VmEntry} : (id, e) ∈ es ↔ sh.vms.lookup id = some e :=
    hes ▸ mem_entries
  have hkeys : (es.map Prod.fst).Nodup := by
    subst hes
    rw [List.map_map]
    exact sh.vms.nodupKeys
  have hne (id' : Uuid) : Op.vms .entries ∉ processOps id' := by simp [processOps]
  constructor
  · exact h.fits
  · apply removes_sweepOps
    intro id e he i hi
    obtain ⟨j, hj, hindex, _⟩ := (h.fits id e (h.shrunk.vms id e (hmem.mp he))).subnet
    exact Option.some.inj (hindex.symm.trans hi) ▸ hj
  · exact h.shrunk
  · intro id e he o' ho'
    rcases h.covered id e he o' ho' with heff | hdue | ⟨_, hl⟩
    · exact .inl heff
    · simp at hdue
    · exact .inr (.inl (mem_sweepOps (hmem.mpr hl) ho'))
  · intro id r hrun o' ho'
    have hold := h.once id r hrun o' ho'
    have hnow : waiting true sh id = 0 := by simp [waiting]
    rw [count_cons_aside (hne id) ho', count_sweepOps ho', hnow]
    cases hl : sh.vms.lookup id with
    | none =>
      have hwas : waiting false sh id = 0 := by simp [waiting, hl]
      rw [count_drainOps_of_absent ho' fun e he => by simp [hmem.mp he] at hl]
      rw [hwas, List.count_nil] at hold
      omega
    | some e =>
      obtain rfl := Option.some.inj ((h.shrunk.vms id e hl).symm.trans hrun)
      have hwas : waiting false sh id = 1 := by simp [waiting, hl]
      rw [count_drainOps ho' hkeys (hmem.mpr hl)]
      rw [hwas, List.count_nil] at hold
      omega
  · exact fun _ id e he => discard_mem_sweepOps (hmem.mpr he)
  · exact fun hread => nomatch hread

end Accounts

end Warlock.ShutdownAccounts
