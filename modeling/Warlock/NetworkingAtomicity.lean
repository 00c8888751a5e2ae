import Warlock.ScriptExecutions
import Warlock.Server

/-!
# The networking step of `create` as a transaction

The step runs up to five commands and reads two outputs of `nft`. A step that fails has to
leave the host as it was; one that succeeds has added one tap and one rule to each chain.
-/

namespace Warlock.NetworkingAtomicity
open ApplicationState EffectPrograms HostNetworking MachineIntegers NftHandles RustText
  ScriptExecutions Server ServerOperations SubnetAddressing

abbrev Trace := List (Op × Choice)

/-- An operation of task `n` that does not panic. -/
def act (config : AppConfig) (n : ℕ) (o : Op) (c : Choice) (sh : Shared) :
    Option (Shared × Reply o) :=
  match exec config n c sh o with
  | some (sh', some r) => some (sh', r)
  | _ => none

/-- `delete_tap` and `remove_nat_rules`, as in every clean-up of a VM. -/
def takeDown (tapName : String) (handles : NatHandles) : Code Unit := do
  deleteTap tapName
  removeNatRules handles

def addsPostroutingRule : Op → Bool
  | .command (.addPostroutingRule _ _) => true
  | _ => false

def addsFilterRule : Op → Bool
  | .command (.addFilterRule _ _) => true
  | _ => false

def rollsBack : Op → Bool
  | .command (.linkDel _) | .command (.deleteRule _ _) => true
  | _ => false

def RollbacksSucceed (trace : Trace) : Prop := ∀ p ∈ trace, rollsBack p.1 → p.2.succeeds

/-- The output of a successful `nft` has a handle in it. -/
def Prints (p : Op × Choice) : Prop :=
  addsPostroutingRule p.1 ∨ addsFilterRule p.1 → p.2.succeeds →
    (parseNftHandle p.2.stdout).isSome

/-- The output of a successful `nft` ends in the handle of the rule it has added. -/
def Echoes (p : Op × Choice) : Prop :=
  addsPostroutingRule p.1 ∨ addsFilterRule p.1 → p.2.succeeds →
    parseNftHandle p.2.stdout = some p.2.handle

/-- Every `nft` prints a handle, and where the filter rule fails the one printed for the
postrouting rule is that rule's own. -/
structure Undoable (trace : Trace) : Prop where
  prints : ∀ p ∈ trace, Prints p
  echoes : (∃ p ∈ trace, addsFilterRule p.1 ∧ p.2.succeeds = false) →
    ∀ p ∈ trace, addsPostroutingRule p.1 → Echoes p

def addTap (host : Host) (t : Tap) : Host := { host with taps := t :: host.taps }

def addPostrouting (host : Host) (r : PostroutingRule) : Host :=
  { host with postrouting := r :: host.postrouting }

def addFilter (host : Host) (r : FilterRule) : Host := { host with filter := r :: host.filter }

/-- The step left the host as it was, or added one tap and one rule to each chain, and what it
returned is enough to take them down. -/
def Atomic (config : AppConfig) (n : ℕ) (tapName : String) (tapIp guestIp : Ipv4Addr)
    (hostIface : String) (trace : Trace) (sh sh' : Shared) : Option NatHandles → Prop
  | none => sh'.host = sh.host
  | some handles => ∃ postrouting filter : U64,
      sh'.host = addFilter (addPostrouting (addTap sh.host ⟨tapName, some tapIp, true⟩)
        ⟨postrouting, guestIp, hostIface⟩) ⟨filter, tapName, hostIface⟩ ∧
      ((∀ p ∈ trace, Echoes p) → handles = ⟨postrouting, filter⟩ ∧
        ∀ (later : Trace) (sh'' : Shared),
          Execution (act config n) (takeDown tapName handles) sh' later sh'' () →
            RollbacksSucceed later → sh''.host = sh.host)

section Commands

variable {config : AppConfig} {n : ℕ} {sh sh' : Shared} {trace : Trace} {host host' : Host}
  {c : Choice} {r : Option Text}

theorem act_command {cmd : Command} {r : Option Text} (h : act config n (.command cmd) c sh = some (sh', r)) :
    sh.host.run c cmd = some (sh'.host, r) := by
  unfold act at h
  split at h
  · rename_i sh₁ r₁ he
    simp only [exec] at he
    split at he
    · simp at he
    · rename_i host r₂ hrun
      cases he
      cases h
      exact hrun
  · simp at h

theorem runCmdOutput_bind {cmd : Command} {f : Option Text → Code α} {a : α}
    (h : Execution (act config n) (runCmdOutput cmd >>= f) sh trace sh' a) :
    ∃ c r sh₁ later, sh.host.run c cmd = some (sh₁.host, r) ∧
      Execution (act config n) (f r) sh₁ later sh' a ∧ trace = (.command cmd, c) :: later := by
  obtain ⟨before, sh₁, r, later, hx, hf, rfl⟩ := Execution.bind_iff.mp h
  obtain ⟨c, ha, rfl⟩ := Execution.perform_iff.mp hx
  exact ⟨c, r, sh₁, later, act_command ha, hf, rfl⟩

theorem runCmd_bind {cmd : Command} {f : Bool → Code α} {a : α}
    (h : Execution (act config n) (runCmd cmd >>= f) sh trace sh' a) :
    ∃ c r sh₁ later, sh.host.run c cmd = some (sh₁.host, r) ∧
      Execution (act config n) (f r.isSome) sh₁ later sh' a ∧
        trace = (.command cmd, c) :: later := by
  obtain ⟨before, sh₁, ok, later, hx, hf, rfl⟩ := Execution.bind_iff.mp h
  obtain ⟨c, r, sh₂, _, hrun, hpure, rfl⟩ := runCmdOutput_bind hx
  obtain ⟨rfl, rfl, rfl⟩ := Execution.pure_iff.mp hpure
  exact ⟨c, r, sh₁, later, hrun, hf, rfl⟩

theorem run_tuntapAdd {name : String} (h : host.run c (.tuntapAdd name) = some (host', r)) :
    r = none ∧ host' = host ∨
      r.isSome ∧ (∀ t ∈ host.taps, t.name ≠ name) ∧ host' = addTap host ⟨name, none, false⟩ := by
  simp only [Host.run] at h
  repeat' split at h
  · cases h
    exact .inl ⟨rfl, rfl⟩
  · simp at h
  · rename_i _ hfree
    cases h
    refine .inr ⟨rfl, ?_, rfl⟩
    simpa using hfree

theorem map_fresh {taps : List Tap} {name : String} {f : Tap → Tap}
    (h : ∀ t ∈ taps, t.name ≠ name) :
    (taps.map fun t => if t.name = name then f t else t) = taps := by
  have hmap : (taps.map fun t => if t.name = name then f t else t) = taps.map id := by
    apply List.map_congr_left
    intro t ht
    simp [h t ht]
  rw [hmap, List.map_id]

theorem run_addrAdd {name : String} {address : Ipv4Addr} {a : Option Ipv4Addr} {up : Bool}
    (hfresh : ∀ t ∈ host.taps, t.name ≠ name)
    (h : (addTap host ⟨name, a, up⟩).run c (.addrAdd address name) = some (host', r)) :
    r = none ∧ host' = addTap host ⟨name, a, up⟩ ∨
      r.isSome ∧ host' = addTap host ⟨name, some address, up⟩ := by
  simp only [Host.run] at h
  split at h
  · cases h
    exact .inl ⟨rfl, rfl⟩
  · cases h
    refine .inr ⟨rfl, ?_⟩
    simp [addTap, map_fresh hfresh]

theorem run_linkUp {name : String} {a : Option Ipv4Addr} {up : Bool}
    (hfresh : ∀ t ∈ host.taps, t.name ≠ name)
    (h : (addTap host ⟨name, a, up⟩).run c (.linkUp name) = some (host', r)) :
    r = none ∧ host' = addTap host ⟨name, a, up⟩ ∨
      r.isSome ∧ host' = addTap host ⟨name, a, true⟩ := by
  simp only [Host.run] at h
  split at h
  · cases h
    exact .inl ⟨rfl, rfl⟩
  · cases h
    refine .inr ⟨rfl, ?_⟩
    simp [addTap, map_fresh hfresh]

theorem run_linkDel {name : String} (hc : c.succeeds = true)
    (h : host.run c (.linkDel name) = some (host', r)) :
    host' = { host with taps := host.taps.filter (·.name != name) } := by
  simp only [Host.run, hc] at h
  cases h
  rfl

theorem run_addPostroutingRule {guestIp : Ipv4Addr} {iface : String}
    (h : host.run c (.addPostroutingRule guestIp iface) = some (host', r)) :
    c.succeeds = false ∧ r = none ∧ host' = host ∨
      c.succeeds = true ∧ r = some c.stdout ∧ (∀ q ∈ host.postrouting, q.handle ≠ c.handle) ∧
        host' = addPostrouting host ⟨c.handle, guestIp, iface⟩ := by
  simp only [Host.run] at h
  repeat' split at h
  · rename_i hc
    cases h
    exact .inl ⟨by simpa using hc, rfl, rfl⟩
  · simp at h
  · rename_i hc hfree
    cases h
    exact .inr ⟨by simpa using hc, rfl, by simpa using hfree, rfl⟩

theorem run_addFilterRule {tapName iface : String}
    (h : host.run c (.addFilterRule tapName iface) = some (host', r)) :
    c.succeeds = false ∧ r = none ∧ host' = host ∨
      c.succeeds = true ∧ r = some c.stdout ∧ (∀ q ∈ host.filter, q.handle ≠ c.handle) ∧
        host' = addFilter host ⟨c.handle, tapName, iface⟩ := by
  simp only [Host.run] at h
  repeat' split at h
  · rename_i hc
    cases h
    exact .inl ⟨by simpa using hc, rfl, rfl⟩
  · simp at h
  · rename_i hc hfree
    cases h
    exact .inr ⟨by simpa using hc, rfl, by simpa using hfree, rfl⟩

theorem run_deletePostrouting {handle : U64} (hc : c.succeeds = true)
    (h : host.run c (.deleteRule .postrouting handle) = some (host', r)) :
    host' = { host with postrouting := host.postrouting.filter (·.handle != handle) } := by
  simp only [Host.run, hc] at h
  cases h
  rfl

theorem run_deleteFilter {handle : U64} (hc : c.succeeds = true)
    (h : host.run c (.deleteRule .filter handle) = some (host', r)) :
    host' = { host with filter := host.filter.filter (·.handle != handle) } := by
  simp only [Host.run, hc] at h
  cases h
  rfl

end Commands

section Restoring

variable {host : Host} {name : String}

theorem filter_addTap {a : Option Ipv4Addr} {b : Bool} (hfresh : ∀ t ∈ host.taps, t.name ≠ name) :
    ({ addTap host ⟨name, a, b⟩ with
      taps := (addTap host ⟨name, a, b⟩).taps.filter (·.name != name) } : Host) = host := by
  have hkeep : host.taps.filter (·.name != name) = host.taps := by
    apply List.filter_eq_self.mpr
    intro t ht
    simpa using hfresh t ht
  simp [addTap, hkeep]

theorem filter_addPostrouting {r : PostroutingRule}
    (hfresh : ∀ q ∈ host.postrouting, q.handle ≠ r.handle) :
    ({ addPostrouting host r with
      postrouting := (addPostrouting host r).postrouting.filter (·.handle != r.handle) } : Host) =
      host := by
  have hkeep : host.postrouting.filter (·.handle != r.handle) = host.postrouting := by
    apply List.filter_eq_self.mpr
    intro q hq
    simpa using hfresh q hq
  simp [addPostrouting, hkeep]

theorem filter_addFilter {r : FilterRule} (hfresh : ∀ q ∈ host.filter, q.handle ≠ r.handle) :
    ({ addFilter host r with
      filter := (addFilter host r).filter.filter (·.handle != r.handle) } : Host) = host := by
  have hkeep : host.filter.filter (·.handle != r.handle) = host.filter := by
    apply List.filter_eq_self.mpr
    intro q hq
    simpa using hfresh q hq
  simp [addFilter, hkeep]

end Restoring

section Steps

variable {config : AppConfig} {n : ℕ} {sh sh' : Shared} {trace : Trace} {tapName hostIface : String}
  {tapIp guestIp : Ipv4Addr}

/-- The only commands are those on the tap. -/
def LeavesRules (trace : Trace) : Prop :=
  ∀ p ∈ trace, addsPostroutingRule p.1 = false ∧ addsFilterRule p.1 = false

/-- The rollback of `create_tap`. -/
theorem linkDel_bind {a : α} {x : Code α}
    (hfresh : ∀ t ∈ sh.host.taps, t.name ≠ tapName) {sh₁ : Shared} {up : Bool}
    {address : Option Ipv4Addr} (hhost : sh₁.host = addTap sh.host ⟨tapName, address, up⟩)
    (h : Execution (act config n) (runCmd (.linkDel tapName) >>= fun _ => x) sh₁ trace sh' a)
    (hback : RollbacksSucceed trace) :
    ∃ c sh₂ later, sh₂.host = sh.host ∧ Execution (act config n) x sh₂ later sh' a ∧
      trace = (.command (.linkDel tapName), c) :: later := by
  obtain ⟨c, r, sh₂, later, hrun, hx, rfl⟩ := runCmd_bind h
  have hc : c.succeeds = true := hback _ (.head _) rfl
  rw [hhost] at hrun
  exact ⟨c, sh₂, later, (run_linkDel hc hrun).trans (filter_addTap hfresh), hx, rfl⟩

theorem createTap_cases {ok : Bool}
    (h : Execution (act config n) (createTap tapName tapIp) sh trace sh' ok)
    (hback : RollbacksSucceed trace) :
    LeavesRules trace ∧
      (ok = false ∧ sh'.host = sh.host ∨ ok = true ∧ (∀ t ∈ sh.host.taps, t.name ≠ tapName) ∧
        sh'.host = addTap sh.host ⟨tapName, some tapIp, true⟩) := by
  obtain ⟨c₁, r₁, sh₁, trace₁, hrun₁, h₁, rfl⟩ := runCmd_bind h
  have hback₁ : RollbacksSucceed trace₁ := fun p hp => hback p (.tail _ hp)
  rcases run_tuntapAdd hrun₁ with ⟨rfl, hhost₁⟩ | ⟨hmade, hfresh, hhost₁⟩
  · obtain ⟨rfl, rfl, rfl⟩ := Execution.pure_iff.mp h₁
    exact ⟨by simp [LeavesRules, addsPostroutingRule, addsFilterRule], .inl ⟨rfl, hhost₁⟩⟩
  rw [hmade] at h₁
  obtain ⟨c₂, r₂, sh₂, trace₂, hrun₂, h₂, rfl⟩ := runCmd_bind h₁
  have hback₂ : RollbacksSucceed trace₂ := fun p hp => hback₁ p (.tail _ hp)
  rw [hhost₁] at hrun₂
  rcases run_addrAdd hfresh hrun₂ with ⟨rfl, hhost₂⟩ | ⟨haddressed, hhost₂⟩
  · obtain ⟨c₃, sh₃, trace₃, hhost₃, h₃, rfl⟩ := linkDel_bind hfresh hhost₂ h₂ hback₂
    obtain ⟨rfl, rfl, rfl⟩ := Execution.pure_iff.mp h₃
    exact ⟨by simp [LeavesRules, addsPostroutingRule, addsFilterRule], .inl ⟨rfl, hhost₃⟩⟩
  rw [haddressed] at h₂
  obtain ⟨c₃, r₃, sh₃, trace₃, hrun₃, h₃, rfl⟩ := runCmd_bind h₂
  have hback₃ : RollbacksSucceed trace₃ := fun p hp => hback₂ p (.tail _ hp)
  rw [hhost₂] at hrun₃
  rcases run_linkUp hfresh hrun₃ with ⟨rfl, hhost₃⟩ | ⟨hup, hhost₃⟩
  · obtain ⟨c₄, sh₄, trace₄, hhost₄, h₄, rfl⟩ := linkDel_bind hfresh hhost₃ h₃ hback₃
    obtain ⟨rfl, rfl, rfl⟩ := Execution.pure_iff.mp h₄
    exact ⟨by simp [LeavesRules, addsPostroutingRule, addsFilterRule], .inl ⟨rfl, hhost₄⟩⟩
  rw [hup] at h₃
  obtain ⟨rfl, rfl, rfl⟩ := Execution.pure_iff.mp h₃
  exact ⟨by simp [LeavesRules, addsPostroutingRule, addsFilterRule],
    .inr ⟨rfl, hfresh, hhost₃⟩⟩

theorem undoable_cons {p : Op × Choice}
    (h : addsPostroutingRule p.1 = false ∧ addsFilterRule p.1 = false) :
    Undoable (p :: trace) ↔ Undoable trace := by
  have hp : Prints p := by simp [Prints, h]
  constructor
  · intro hu
    constructor
    · intro q hq
      exact hu.prints q (.tail _ hq)
    · intro hfailed q hq
      obtain ⟨f, hf, hadds⟩ := hfailed
      exact hu.echoes ⟨f, .tail _ hf, hadds⟩ q (.tail _ hq)
  · intro hu
    constructor
    · intro q hq
      rcases List.mem_cons.mp hq with rfl | hq
      · exact hp
      · exact hu.prints q hq
    · intro hfailed q hq hadds
      obtain ⟨f, hf, hff⟩ := hfailed
      rcases List.mem_cons.mp hq with rfl | hq
      · simp [h] at hadds
      rcases List.mem_cons.mp hf with rfl | hf
      · simp [h] at hff
      exact hu.echoes ⟨f, hf, hff⟩ q hq hadds

theorem undoable_append {before : Trace} (h : LeavesRules before) :
    Undoable (before ++ trace) ↔ Undoable trace := by
  induction before with
  | nil => exact Iff.rfl
  | cons p before ih =>
    have hp := h p (.head _)
    have hbefore : LeavesRules before := fun q hq => h q (.tail _ hq)
    exact (undoable_cons hp).trans (ih hbefore)

/-- Both rules have been added. -/
structure RulesAdded (guestIp : Ipv4Addr) (tapName hostIface : String) (trace : Trace)
    (host host' : Host) (handles : NatHandles) (c₁ c₂ : Choice) : Prop where
  trace : trace = [(.command (.addPostroutingRule guestIp hostIface), c₁),
    (.command (.addFilterRule tapName hostIface), c₂)]
  succeeds : c₁.succeeds = true ∧ c₂.succeeds = true
  printed : parseNftHandle c₁.stdout = some handles.postrouting ∧
    parseNftHandle c₂.stdout = some handles.filter
  fresh : (∀ q ∈ host.postrouting, q.handle ≠ c₁.handle) ∧ ∀ q ∈ host.filter, q.handle ≠ c₂.handle
  host : host' = addFilter (addPostrouting host ⟨c₁.handle, guestIp, hostIface⟩)
    ⟨c₂.handle, tapName, hostIface⟩

theorem addNatRules_cases {result : Option NatHandles}
    (h : Execution (act config n) (addNatRules guestIp tapName hostIface) sh trace sh' result)
    (hback : RollbacksSucceed trace) :
    (result = none ∧ (sh'.host = sh.host ∧ Undoable trace ∨
      sh'.host.postrouting ≠ sh.host.postrouting ∧ ¬ Undoable trace)) ∨
    ∃ handles c₁ c₂, result = some handles ∧
      RulesAdded guestIp tapName hostIface trace sh.host sh'.host handles c₁ c₂ := by
  obtain ⟨c₁, r₁, sh₁, trace₁, hrun₁, h₁, rfl⟩ := runCmdOutput_bind h
  rcases run_addPostroutingRule hrun₁ with ⟨hc₁, rfl, hhost₁⟩ | ⟨hc₁, rfl, hfresh₁, hhost₁⟩
  · obtain ⟨rfl, rfl, rfl⟩ := Execution.pure_iff.mp h₁
    refine .inl ⟨rfl, .inl ⟨hhost₁, ?_⟩⟩
    constructor <;> simp [Prints, Echoes, hc₁]
  have hadded : sh₁.host.postrouting ≠ sh.host.postrouting := by
    intro he
    rw [hhost₁] at he
    exact absurd (congrArg List.length he) (by simp [addPostrouting])
  cases hp : parseNftHandle c₁.stdout with
  | none =>
    simp only [hp] at h₁
    obtain ⟨rfl, rfl, rfl⟩ := Execution.pure_iff.mp h₁
    refine .inl ⟨rfl, .inr ⟨hadded, ?_⟩⟩
    intro hu
    have hprints := hu.prints _ (.head _) (.inl rfl) hc₁
    simp [hp] at hprints
  | some postrouting =>
    simp only [hp] at h₁
    obtain ⟨c₂, r₂, sh₂, trace₂, hrun₂, h₂, rfl⟩ := runCmdOutput_bind h₁
    rcases run_addFilterRule hrun₂ with ⟨hc₂, rfl, hhost₂⟩ | ⟨hc₂, rfl, hfresh₂, hhost₂⟩
    · dsimp only at h₂
      obtain ⟨c₃, r₃, sh₃, trace₃, hrun₃, h₃, rfl⟩ := runCmd_bind h₂
      obtain ⟨rfl, rfl, rfl⟩ := Execution.pure_iff.mp h₃
      have hc₃ : c₃.succeeds = true := hback _ (.tail _ (.tail _ (.head _))) rfl
      have hhost₃ := run_deletePostrouting hc₃ hrun₃
      rw [hhost₂, hhost₁] at hhost₃
      by_cases hown : postrouting = c₁.handle
      · subst hown
        refine .inl ⟨rfl, .inl ⟨hhost₃.trans (filter_addPostrouting hfresh₁), ?_⟩⟩
        constructor <;> simp [Prints, Echoes, hp, hc₂, addsPostroutingRule, addsFilterRule]
      · refine .inl ⟨rfl, .inr ⟨?_, ?_⟩⟩
        · intro he
          have hmem : (⟨c₁.handle, guestIp, hostIface⟩ : PostroutingRule) ∈ sh.host.postrouting := by
            rw [← he, hhost₃]
            simp [addPostrouting, Ne.symm hown]
          exact hfresh₁ _ hmem rfl
        · intro hu
          have hechoes := hu.echoes ⟨_, .tail _ (.head _), rfl, hc₂⟩ _ (.head _) rfl
            (.inl rfl) hc₁
          exact hown (Option.some.inj (hp.symm.trans hechoes))
    · have hkept : sh₂.host.postrouting ≠ sh.host.postrouting := by
        rw [hhost₂]
        exact hadded
      cases hf : parseNftHandle c₂.stdout with
      | none =>
        simp only [hf] at h₂
        obtain ⟨rfl, rfl, rfl⟩ := Execution.pure_iff.mp h₂
        refine .inl ⟨rfl, .inr ⟨hkept, ?_⟩⟩
        intro hu
        have hprints := hu.prints _ (.tail _ (.head _)) (.inr rfl) hc₂
        simp [hf] at hprints
      | some filter =>
        simp only [hf] at h₂
        obtain ⟨rfl, rfl, rfl⟩ := Execution.pure_iff.mp h₂
        refine .inr ⟨⟨postrouting, filter⟩, c₁, c₂, rfl, ?_⟩
        rw [hhost₁] at hfresh₂ hhost₂
        exact ⟨rfl, ⟨hc₁, hc₂⟩, ⟨hp, hf⟩, ⟨hfresh₁, hfresh₂⟩, hhost₂⟩

theorem deleteTap_cases (h : Execution (act config n) (deleteTap tapName) sh trace sh' ())
    (hback : RollbacksSucceed trace) :
    ∃ c, trace = [(.command (.linkDel tapName), c)] ∧
      sh'.host = { sh.host with taps := sh.host.taps.filter (·.name != tapName) } := by
  obtain ⟨c, r, sh₁, _, hrun, hpure, rfl⟩ := runCmd_bind h
  obtain ⟨rfl, rfl, _⟩ := Execution.pure_iff.mp hpure
  exact ⟨c, rfl, run_linkDel (hback _ (.head _) rfl) hrun⟩

theorem removeNatRules_cases {handles : NatHandles}
    (h : Execution (act config n) (removeNatRules handles) sh trace sh' ())
    (hback : RollbacksSucceed trace) :
    sh'.host = { sh.host with
      postrouting := sh.host.postrouting.filter (·.handle != handles.postrouting)
      filter := sh.host.filter.filter (·.handle != handles.filter) } := by
  obtain ⟨c₁, r₁, sh₁, trace₁, hrun₁, h₁, rfl⟩ := runCmd_bind h
  obtain ⟨c₂, r₂, sh₂, trace₂, hrun₂, h₂, rfl⟩ := runCmd_bind h₁
  obtain ⟨rfl, rfl, _⟩ := Execution.pure_iff.mp h₂
  have hhost₁ := run_deletePostrouting (hback _ (.head _) rfl) hrun₁
  have hhost₂ := run_deleteFilter (hback _ (.tail _ (.head _)) rfl) hrun₂
  rw [hhost₂, hhost₁]

/-- Taking down what the step has added restores the host. -/
theorem takeDown_restores {host : Host} {c₁ c₂ : Choice}
    (hfresh : ∀ t ∈ host.taps, t.name ≠ tapName)
    (hfresh₁ : ∀ q ∈ host.postrouting, q.handle ≠ c₁.handle)
    (hfresh₂ : ∀ q ∈ host.filter, q.handle ≠ c₂.handle)
    (hhost : sh.host = addFilter (addPostrouting (addTap host ⟨tapName, some tapIp, true⟩)
      ⟨c₁.handle, guestIp, hostIface⟩) ⟨c₂.handle, tapName, hostIface⟩)
    (h : Execution (act config n) (takeDown tapName ⟨c₁.handle, c₂.handle⟩) sh trace sh' ())
    (hback : RollbacksSucceed trace) : sh'.host = host := by
  obtain ⟨before, sh₁, _, later, hdelete, hremove, rfl⟩ := Execution.bind_iff.mp h
  obtain ⟨hback₁, hback₂⟩ := List.forall_mem_append.mp hback
  obtain ⟨c, _, hhost₁⟩ := deleteTap_cases hdelete hback₁
  have hhost₂ := removeNatRules_cases hremove hback₂
  have htaps := congrArg Host.taps (filter_addTap (a := some tapIp) (b := true) hfresh)
  have hpost := congrArg Host.postrouting
    (filter_addPostrouting (r := ⟨c₁.handle, guestIp, hostIface⟩) hfresh₁)
  have hfilter := congrArg Host.filter
    (filter_addFilter (r := ⟨c₂.handle, tapName, hostIface⟩) hfresh₂)
  rw [hhost₂, hhost₁, hhost]
  simp only [addFilter, addPostrouting, addTap] at htaps hpost hfilter ⊢
  rw [htaps, hpost, hfilter]

end Steps

section Transaction

variable {config : AppConfig} {n : ℕ} {sh sh' : Shared} {trace : Trace} {tapName hostIface : String}
  {tapIp guestIp : Ipv4Addr} {result : Option NatHandles}

theorem undoable_congr {trace trace' : Trace} (h : ∀ p, p ∈ trace ↔ p ∈ trace') :
    Undoable trace ↔ Undoable trace' := by
  constructor
  · intro hu
    constructor
    · simpa only [← h] using hu.prints
    · simpa only [← h] using hu.echoes
  · intro hu
    constructor
    · simpa only [h] using hu.prints
    · simpa only [h] using hu.echoes

/-- The networking step is atomic exactly if what it did could be undone. -/
theorem networking_atomic
    (h : Execution (act config n) (networkingStep tapName tapIp guestIp hostIface) sh trace sh' result)
    (hback : RollbacksSucceed trace) :
    Atomic config n tapName tapIp guestIp hostIface trace sh sh' result ↔ Undoable trace := by
  obtain ⟨before, sh₁, made, trace₁, hcreate, h₁, rfl⟩ := Execution.bind_iff.mp h
  obtain ⟨hback₀, hback₁⟩ := List.forall_mem_append.mp hback
  obtain ⟨hleaves, ⟨rfl, hhost₁⟩ | ⟨rfl, hfresh, hhost₁⟩⟩ := createTap_cases hcreate hback₀
  · obtain ⟨rfl, rfl, rfl⟩ := Execution.pure_iff.mp h₁
    rw [undoable_append hleaves]
    constructor
    · intro _
      constructor <;> simp
    · intro _
      exact hhost₁
  rw [undoable_append hleaves]
  obtain ⟨trace₂, sh₂, rules, trace₃, hrules, h₂, rfl⟩ := Execution.bind_iff.mp h₁
  obtain ⟨hback₂, hback₃⟩ := List.forall_mem_append.mp hback₁
  rcases addNatRules_cases hrules hback₂ with ⟨rfl, hcases⟩ | ⟨handles, c₁, c₂, rfl, hadded⟩
  · obtain ⟨trace₄, sh₃, _, trace₅, hdelete, h₃, rfl⟩ := Execution.bind_iff.mp h₂
    obtain ⟨rfl, rfl, rfl⟩ := Execution.pure_iff.mp h₃
    obtain ⟨hback₄, _⟩ := List.forall_mem_append.mp hback₃
    obtain ⟨c, rfl, hhost₃⟩ := deleteTap_cases hdelete hback₄
    have hcongr : Undoable (trace₂ ++ ([(.command (.linkDel tapName), c)] ++ [])) ↔
        Undoable trace₂ := by
      refine Iff.trans (undoable_congr ?_)
        (undoable_cons (p := (.command (.linkDel tapName), c)) ⟨rfl, rfl⟩)
      intro p
      simp [or_comm]
    rw [hcongr]
    rcases hcases with ⟨hhost₂, hu⟩ | ⟨hhost₂, hu⟩
    · have hrestored : sh'.host = sh.host := by
        rw [hhost₃, hhost₂, hhost₁]
        exact filter_addTap hfresh
      exact iff_of_true hrestored hu
    · refine iff_of_false ?_ hu
      intro hatomic
      have hkept : sh'.host = sh.host := hatomic
      apply hhost₂
      rw [hhost₃] at hkept
      rw [hhost₁]
      have hpost := congrArg Host.postrouting hkept
      exact hpost
  · obtain ⟨rfl, rfl, rfl⟩ := Execution.pure_iff.mp h₂
    obtain ⟨htrace, ⟨hc₁, hc₂⟩, ⟨hp, hf⟩, ⟨hfresh₁, hfresh₂⟩, hhost₂⟩ := hadded
    rw [hhost₁] at hfresh₁ hfresh₂ hhost₂
    refine iff_of_true ⟨c₁.handle, c₂.handle, hhost₂, ?_⟩ ?_
    · intro hechoes
      have hown₁ := hechoes (.command (.addPostroutingRule guestIp hostIface), c₁)
        (by simp [htrace]) (.inl rfl) hc₁
      have hown₂ := hechoes (.command (.addFilterRule tapName hostIface), c₂)
        (by simp [htrace]) (.inr rfl) hc₂
      obtain ⟨postrouting, filter⟩ := handles
      obtain rfl : postrouting = c₁.handle := Option.some.inj (hp.symm.trans hown₁)
      obtain rfl : filter = c₂.handle := Option.some.inj (hf.symm.trans hown₂)
      refine ⟨rfl, ?_⟩
      intro later sh'' hdown hlater
      exact takeDown_restores hfresh hfresh₁ hfresh₂ hhost₂ hdown hlater
    · constructor <;>
        simp [htrace, Prints, hp, hf, hc₁, hc₂, addsPostroutingRule, addsFilterRule]

end Transaction

section Samples

/-- A choice under which `nft` echoes the handle 1 of the rule it adds. -/
def echoing : Choice := { handle := 1, stdout := sampleEcho }

def echoed : Trace :=
  [(.command (.tuntapAdd "fc0"), {}), (.command (.addrAdd ⟨172, 16, 0, 1⟩ "fc0"), {}),
    (.command (.linkUp "fc0"), {}),
    (.command (.addPostroutingRule ⟨172, 16, 0, 2⟩ "eth0"), echoing),
    (.command (.addFilterRule "fc0" "eth0"), echoing)]

theorem execution_echoed : Execution (act sampleConfig 0)
    (networkingStep "fc0" ⟨172, 16, 0, 1⟩ ⟨172, 16, 0, 2⟩ "eth0") {} echoed
    { host := ⟨[], [⟨"fc0", some ⟨172, 16, 0, 1⟩, true⟩], [⟨1, ⟨172, 16, 0, 2⟩, "eth0"⟩],
      [⟨1, "fc0", "eth0"⟩], []⟩ } (some ⟨1, 1⟩) :=
  .run rfl (.run rfl (.run rfl (.run rfl (.run rfl (.done _ _)))))

theorem networking_atomic_echoed : Atomic sampleConfig 0 "fc0" ⟨172, 16, 0, 1⟩ ⟨172, 16, 0, 2⟩
    "eth0" echoed {}
    { host := ⟨[], [⟨"fc0", some ⟨172, 16, 0, 1⟩, true⟩], [⟨1, ⟨172, 16, 0, 2⟩, "eth0"⟩],
      [⟨1, "fc0", "eth0"⟩], []⟩ } (some ⟨1, 1⟩) := by
  refine (networking_atomic execution_echoed (by simp [RollbacksSucceed, echoed, rollsBack])).mpr ?_
  have hprinted : parseNftHandle sampleEcho = some 1 := by decide
  constructor <;>
    simp [Prints, Echoes, echoed, echoing, hprinted, addsPostroutingRule, addsFilterRule]

/-- What is left of the step when `nft` prints nothing for the postrouting rule. -/
def unprinted : Trace :=
  [(.command (.tuntapAdd "fc0"), {}), (.command (.addrAdd ⟨172, 16, 0, 1⟩ "fc0"), {}),
    (.command (.linkUp "fc0"), {}),
    (.command (.addPostroutingRule ⟨172, 16, 0, 2⟩ "eth0"), {}),
    (.command (.linkDel "fc0"), {})]

theorem execution_unprinted : Execution (act sampleConfig 0)
    (networkingStep "fc0" ⟨172, 16, 0, 1⟩ ⟨172, 16, 0, 2⟩ "eth0") {} unprinted
    { host := { postrouting := [⟨0, ⟨172, 16, 0, 2⟩, "eth0"⟩] } } none :=
  .run rfl (.run rfl (.run rfl (.run rfl (.run rfl (.done _ _)))))

/-- The step fails and the postrouting rule stays. -/
theorem networking_leaks : ¬ ∀ (n : ℕ) (tapName hostIface : String) (tapIp guestIp : Ipv4Addr)
    (sh sh' : Shared) (trace : Trace) (result : Option NatHandles),
    Execution (act sampleConfig n) (networkingStep tapName tapIp guestIp hostIface) sh trace sh'
      result → RollbacksSucceed trace →
    Atomic sampleConfig n tapName tapIp guestIp hostIface trace sh sh' result := by
  intro h
  have hatomic := h _ _ _ _ _ _ _ _ _ execution_unprinted (by simp [RollbacksSucceed, unprinted])
  exact absurd (congrArg (fun host => host.postrouting.length) hatomic) (by decide)

end Samples


end Warlock.NetworkingAtomicity
