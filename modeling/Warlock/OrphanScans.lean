import Warlock.OrphanCleanup
import Warlock.TextSearches

/-!
# What the sweep reads

The sweep deletes the interfaces that `ip -o link show` lists as taps, and flushes the table of
`nft` when its listing has a rule in it. The tests on the lines are compared here with what the
lines were printed for, over whole listings.
-/

namespace Warlock.OrphanCleanup
open MachineIntegers RustText SubnetAddressing

section Interfaces

/-- A line of `ip -o link show`, whatever comes after the name. -/
structure InterfaceLine where
  index : ℕ
  name : Text
  rest : Text
  nameWord : ∀ c ∈ name, isWhitespace c = false ∧ c ≠ ':'
  restLine : '\n' ∉ rest

def InterfaceLine.render (l : InterfaceLine) : Text :=
  Nat.toDigits 10 l.index ++ ": ".toList ++ l.name ++ ": ".toList ++ l.rest

def interfaceOutput (ls : List InterfaceLine) : Text :=
  (ls.map InterfaceLine.render).flatMap (· ++ ['\n'])

/-- `fc` and at least one digit. -/
def hasSlotNumber (name : Text) : Bool := match stripPrefix "fc".toList name with
  | some digits => !digits.isEmpty && digits.all isDigit
  | none => false

theorem hasSlotNumber_iff {name : Text} : hasSlotNumber name = true ↔
    ∃ digits, name = "fc".toList ++ digits ∧ digits ≠ [] ∧ ∀ c ∈ digits, isDigit c = true := by
  unfold hasSlotNumber
  constructor
  · intro h
    split at h
    · rename_i digits hdigits
      exact ⟨digits, stripPrefix_eq_some.mp hdigits, by simpa using h⟩
    · simp at h
  · rintro ⟨digits, hname, hdigits⟩
    rw [stripPrefix_eq_some.mpr hname]
    simpa using hdigits

/-- The test of the sweep lets one name through that has no number. -/
theorem isTap_iff {name : Text} : (startsWith "fc".toList name && (name.drop 2).all isDigit) =
    (hasSlotNumber name || name == "fc".toList) := by
  cases hname : stripPrefix "fc".toList name with
  | none =>
    have hne : name ≠ "fc".toList := by
      rintro rfl
      simp [stripPrefix] at hname
    have hfalse : (name == "fc".toList) = false := beq_eq_false_iff_ne.mpr hne
    simp only [startsWith, hasSlotNumber, hname, hfalse, Option.isSome_none, Bool.false_and,
      Bool.or_false]
  | some digits =>
    obtain rfl := stripPrefix_eq_some.mp hname
    have hdrop : ("fc".toList ++ digits).drop 2 = digits := rfl
    rw [startsWith_append, hdrop, hasSlotNumber, hname]
    cases digits <;> simp

theorem newline_not_mem_render (l : InterfaceLine) : '\n' ∉ l.render := by
  have hseparator : '\n' ∉ ": ".toList := by decide
  simp only [InterfaceLine.render, List.mem_append, not_or]
  refine ⟨⟨⟨⟨fun h => ?_, hseparator⟩, fun h => ?_⟩, hseparator⟩, l.restLine⟩
  · exact absurd (isDigit_of_mem_toDigits h) (by decide)
  · exact absurd (l.nameWord _ h).1 (by decide)

/-- A `\r` at the end of a line is not part of the name. -/
theorem fcTapDevice_interface (l : InterfaceLine) : fcTapDevice (stripCarriageReturn l.render) =
    if hasSlotNumber l.name || l.name == "fc".toList then some l.name else none := by
  have hspace : ' ' ≠ '\r' := by decide
  have hstrip : stripCarriageReturn l.render = Nat.toDigits 10 l.index ++ ": ".toList ++ l.name ++
      ": ".toList ++ stripCarriageReturn l.rest := by
    have hsplit (rest : Text) : Nat.toDigits 10 l.index ++ ": ".toList ++ l.name ++ ": ".toList ++
        rest = (Nat.toDigits 10 l.index ++ ": ".toList ++ l.name ++ [':']) ++ ' ' :: rest := by
      simp
    rw [InterfaceLine.render, hsplit, stripCarriageReturn_append hspace, hsplit]
  rw [hstrip, fcTapDevice_line l.index _ l.nameWord, isTap_iff]

theorem parseFcTapDevices_interfaceOutput (ls : List InterfaceLine) :
    parseFcTapDevices (interfaceOutput ls) = (ls.map InterfaceLine.name).filter fun name =>
      hasSlotNumber name || name == "fc".toList := by
  have hlines : lines (interfaceOutput ls) =
      ls.map (fun l => stripCarriageReturn l.render) := by
    have hall : ∀ line ∈ ls.map InterfaceLine.render, '\n' ∉ line := by
      intro line hline
      obtain ⟨l, _, rfl⟩ := List.mem_map.mp hline
      exact newline_not_mem_render l
    have happend := lines_append hall []
    rw [List.append_nil] at happend
    rw [interfaceOutput, happend, List.map_map]
    simp [lines, linesFrom]
  rw [parseFcTapDevices, hlines, List.filterMap_map]
  have hstep : fcTapDevice ∘ (fun l => stripCarriageReturn l.render) = fun l : InterfaceLine =>
      if hasSlotNumber l.name || l.name == "fc".toList then some l.name else none :=
    funext fcTapDevice_interface
  rw [hstep]
  clear hlines hstep
  induction ls with
  | nil => rfl
  | cons l ls ih =>
    rw [List.filterMap_cons, List.map_cons, List.filter_cons, ih]
    cases hasSlotNumber l.name || l.name == "fc".toList <;> rfl

theorem hasSlotNumber_tapName (i : U16) : hasSlotNumber (tapName i).toList = true := by
  apply hasSlotNumber_iff.mpr
  refine ⟨Nat.toDigits 10 i.toNat, by simp [tapName], by simp, fun c hc => ?_⟩
  exact isDigit_of_mem_toDigits hc

theorem hasSlotNumber_fc : hasSlotNumber "fc".toList = false := by decide

/-- The sweep names the interfaces of the listing that have a slot number, and no others. -/
structure NamesTaps (ls : List InterfaceLine) : Prop where
  names : parseFcTapDevices (interfaceOutput ls) =
    (ls.map InterfaceLine.name).filter hasSlotNumber
  allTaps : ∀ i : U16, (tapName i).toList ∈ ls.map InterfaceLine.name →
    (tapName i).toList ∈ parseFcTapDevices (interfaceOutput ls)
  onlyTaps : ∀ name ∈ parseFcTapDevices (interfaceOutput ls),
    ∃ digits, name = "fc".toList ++ digits ∧ digits ≠ [] ∧ ∀ c ∈ digits, isDigit c = true

/-- It does so as long as no interface is called `fc`. -/
theorem tap_sweep_exact (ls : List InterfaceLine) :
    NamesTaps ls ↔ ∀ l ∈ ls, l.name ≠ "fc".toList := by
  constructor
  · intro h l hl hname
    have hmem : "fc".toList ∈ parseFcTapDevices (interfaceOutput ls) := by
      rw [parseFcTapDevices_interfaceOutput]
      apply List.mem_filter.mpr
      exact ⟨List.mem_map.mpr ⟨l, hl, hname⟩, by simp⟩
    have hslot := hasSlotNumber_iff.mpr (h.onlyTaps _ hmem)
    exact absurd (hasSlotNumber_fc.symm.trans hslot) (by simp)
  · intro h
    have hnames : parseFcTapDevices (interfaceOutput ls) =
        (ls.map InterfaceLine.name).filter hasSlotNumber := by
      rw [parseFcTapDevices_interfaceOutput]
      apply List.filter_congr
      intro name hmem
      obtain ⟨l, hl, rfl⟩ := List.mem_map.mp hmem
      have hfalse : (l.name == "fc".toList) = false := beq_eq_false_iff_ne.mpr (h l hl)
      rw [hfalse, Bool.or_false]
    constructor
    · exact hnames
    · intro i hi
      rw [hnames]
      exact List.mem_filter.mpr ⟨hi, hasSlotNumber_tapName i⟩
    · intro name hname
      rw [hnames] at hname
      exact hasSlotNumber_iff.mp (List.mem_filter.mp hname).2

/-- An interface that is called `fc`. -/
def bareInterface : InterfaceLine where
  index := 3
  name := "fc".toList
  rest := "<BROADCAST> mtu 1500".toList
  nameWord := by
    have hall : ("fc".toList.all fun c => !isWhitespace c && c != ':') = true := by decide
    simpa using hall
  restLine := by decide

theorem tap_sweep_bare : ¬ NamesTaps [bareInterface] := by
  intro h
  have hmem : "fc".toList ∈ parseFcTapDevices (interfaceOutput [bareInterface]) := by decide
  have hslot := hasSlotNumber_iff.mpr (h.onlyTaps _ hmem)
  exact absurd (hasSlotNumber_fc.symm.trans hslot) (by simp)

end Interfaces

section Listings

/-- A text that stands on one line. -/
structure Value where
  text : Text
  oneLine : '\n' ∉ text

/-- The two rules of `add_nat_rules`, as `nft` lists them. -/
inductive ListedRule
  | masquerade (addr iface : Value) (packets bytes : ℕ)
  | forward (tap iface : Value)

def ListedRule.line : ListedRule → Text
  | .masquerade addr iface packets bytes => "ip saddr ".toList ++ addr.text ++ " oifname ".toList ++
      iface.text ++ " counter packets ".toList ++ Nat.toDigits 10 packets ++ " bytes ".toList ++
      Nat.toDigits 10 bytes ++ " masquerade".toList
  | .forward tap iface => "iifname ".toList ++ tap.text ++ " oifname ".toList ++ iface.text ++
      " accept".toList

theorem ListedRule.line_masquerade (addr iface : Value) (packets bytes : ℕ) :
    (masquerade addr iface packets bytes).line = "ip saddr ".toList ++ addr.text ++
      " oifname ".toList ++ iface.text ++ " counter packets ".toList ++ Nat.toDigits 10 packets ++
      " bytes ".toList ++ Nat.toDigits 10 bytes ++ " masquerade".toList := rfl

theorem ListedRule.line_forward (tap iface : Value) : (forward tap iface).line =
    "iifname ".toList ++ tap.text ++ " oifname ".toList ++ iface.text ++ " accept".toList := rfl

structure ListedChain where
  name : Value
  hook : Value
  policy : Value
  rules : List ListedRule

def ListedChain.lines (c : ListedChain) : List Text :=
  ("chain ".toList ++ c.name.text ++ " \x7b".toList) ::
    ("type ".toList ++ c.hook.text ++ "; policy ".toList ++ c.policy.text ++ ";".toList) ::
    (c.rules.map ListedRule.line ++ ["\x7d".toList])

structure ListedTable where
  title : Value
  chains : List ListedChain

def ListedTable.lines (t : ListedTable) : List Text :=
  ("table ".toList ++ t.title.text ++ " \x7b".toList) ::
    (t.chains.flatMap ListedChain.lines ++ ["\x7d".toList])

/-- Whitespace within a line. -/
def Gap (s : Text) : Prop := Blank s ∧ '\n' ∉ s

/-- The lines in their order, with any indentation and any blank lines. -/
inductive Laid : List Text → Text → Prop
  | done (gap : Text) (hgap : Gap gap) : Laid [] gap
  | blank (ls : List Text) (gap s : Text) (hgap : Gap gap) (hs : Laid ls s) :
      Laid ls (gap ++ '\n' :: s)
  | line (line : Text) (ls : List Text) (indent trailing s : Text) (hindent : Gap indent)
      (htrailing : Gap trailing) (hs : Laid ls s) :
      Laid (line :: ls) (indent ++ line ++ trailing ++ '\n' :: s)
  | last (line indent trailing : Text) (hindent : Gap indent) (htrailing : Gap trailing) :
      Laid [line] (indent ++ line ++ trailing)

variable {line line' output s : Text} {ls : List Text}

theorem isStructural_congr (h : trim line = trim line') :
    isStructural line = isStructural line' := by
  simp only [isStructural, h]

theorem isStructural_blank (h : Blank line) : isStructural line = true := by
  have hempty : trim line = [] := by
    have hall := trim_append_right h []
    rw [List.nil_append] at hall
    exact hall
  simp [isStructural, hempty]

/-- The test on a line sees through the indentation. -/
theorem isStructural_laid {indent trailing : Text} (hindent : Gap indent)
    (htrailing : Gap trailing) :
    isStructural (stripCarriageReturn (indent ++ line ++ trailing)) = isStructural line := by
  apply isStructural_congr
  rw [trim_stripCarriageReturn, trim_append hindent.1 htrailing.1]

theorem hasNftablesRules_cons (h : '\n' ∉ line) (s : Text) : hasNftablesRules (line ++ '\n' :: s) =
    (!isStructural (stripCarriageReturn line) || hasNftablesRules s) := by
  rw [hasNftablesRules, lines_cons h, List.any_cons]
  rfl

/-- A text without line breaks. -/
theorem hasNftablesRules_line (h : '\n' ∉ line) : hasNftablesRules line = !isStructural line := by
  by_cases hne : line = []
  · subst hne
    rfl
  · rw [hasNftablesRules, lines_of_not_mem h hne]
    simp

/-- However a listing is laid out, its lines decide. -/
theorem hasNftablesRules_laid (h : Laid ls output) (hls : ∀ line ∈ ls, '\n' ∉ line) :
    hasNftablesRules output = ls.any fun line => !isStructural line := by
  induction h with
  | done gap hgap =>
    rw [hasNftablesRules_line hgap.2, isStructural_blank hgap.1]
    rfl
  | blank ls gap s hgap hs ih =>
    have hgapLine : isStructural (stripCarriageReturn gap) = true := by
      rw [isStructural_congr (trim_stripCarriageReturn gap), isStructural_blank hgap.1]
    rw [hasNftablesRules_cons hgap.2, hgapLine, ih hls]
    rfl
  | line line ls indent trailing s hindent htrailing hs ih =>
    have hline : '\n' ∉ indent ++ line ++ trailing := by
      simp [hindent.2, htrailing.2, hls line (.head _)]
    rw [hasNftablesRules_cons hline, isStructural_laid hindent htrailing,
      ih fun l hl => hls l (.tail _ hl), List.any_cons]
  | last line indent trailing hindent htrailing =>
    have hline : '\n' ∉ indent ++ line ++ trailing := by
      simp [hindent.2, htrailing.2, hls line (.head _)]
    rw [hasNftablesRules_line hline, isStructural_congr (trim_append hindent.1 htrailing.1 line)]
    simp

theorem trim_of_last {a b : Char} {rest : Text} (ha : isWhitespace a = false)
    (hb : isWhitespace b = false) (hline : line.head? = some a) (hrest : rest.getLast? = some b) :
    trim (line ++ rest) = line ++ rest := by
  apply trim_of_ends ha hb
  · rw [List.head?_append, hline]
    rfl
  · rw [List.getLast?_append, hrest]
    rfl

theorem isStructural_rule (r : ListedRule) : isStructural r.line = false := by
  apply not_isStructural
  cases r with
  | masquerade addr iface packets bytes =>
    left
    have hword : "ip saddr ".toList = "ip saddr".toList ++ [' '] := by decide
    rw [ListedRule.line_masquerade,
      trim_of_last (a := 'i') (b := 'e') (by decide) (by decide) rfl rfl, hword]
    simp only [List.append_assoc, startsWith_append]
  | forward tap iface =>
    right
    have hword : "iifname ".toList = "iifname".toList ++ [' '] := by decide
    rw [ListedRule.line_forward,
      trim_of_last (a := 'i') (b := 't') (by decide) (by decide) rfl rfl, hword]
    simp only [List.append_assoc, startsWith_append]

theorem isStructural_header {p line rest : Text} (htrim : trim (line ++ rest) = line ++ rest)
    (hp : p = "table ".toList ∨ p = "chain ".toList ∨ p = "type ".toList)
    (hline : startsWith p (line ++ rest) = true) : isStructural (line ++ rest) = true := by
  simp only [isStructural, htrim]
  rcases hp with rfl | rfl | rfl <;> simp only [hline, Bool.or_true, Bool.true_or]

theorem any_close : (["\x7d".toList].any fun line => !isStructural line) = false := by decide

theorem isStructural_table (t : ListedTable) :
    isStructural ("table ".toList ++ t.title.text ++ " \x7b".toList) = true :=
  isStructural_header (trim_of_last (a := 't') (b := '\x7b') (by decide) (by decide) rfl rfl)
    (.inl rfl) rfl

theorem isStructural_chain (c : ListedChain) :
    isStructural ("chain ".toList ++ c.name.text ++ " \x7b".toList) = true :=
  isStructural_header (trim_of_last (a := 'c') (b := '\x7b') (by decide) (by decide) rfl rfl)
    (.inr (.inl rfl)) rfl

theorem isStructural_type (c : ListedChain) : isStructural ("type ".toList ++ c.hook.text ++
    "; policy ".toList ++ c.policy.text ++ ";".toList) = true :=
  isStructural_header (trim_of_last (a := 't') (b := ';') (by decide) (by decide) rfl rfl)
    (.inr (.inr rfl)) rfl

/-- Of the lines of a chain its rules are the only ones that are no structure. -/
theorem any_chain (c : ListedChain) : (c.lines.any fun line => !isStructural line) = true ↔
    c.rules ≠ [] := by
  rw [ListedChain.lines, List.any_cons, List.any_cons, isStructural_chain, isStructural_type,
    List.any_append, List.any_map, any_close]
  cases hrules : c.rules with
  | nil => simp
  | cons r rules => simp [isStructural_rule]

theorem any_table (t : ListedTable) : (t.lines.any fun line => !isStructural line) = true ↔
    ∃ c ∈ t.chains, c.rules ≠ [] := by
  rw [ListedTable.lines, List.any_cons, isStructural_table, List.any_append, List.any_flatMap]
  rw [any_close, Bool.not_true, Bool.false_or, Bool.or_false, List.any_eq_true]
  simp only [any_chain]

theorem oneLine_toDigits (n : ℕ) : '\n' ∉ Nat.toDigits 10 n :=
  fun h => absurd (isDigit_of_mem_toDigits h) (by decide)

theorem ListedRule.oneLine (r : ListedRule) : '\n' ∉ r.line := by
  cases r with
  | masquerade addr iface packets bytes =>
    simp only [ListedRule.line_masquerade, List.mem_append, not_or]
    exact ⟨⟨⟨⟨⟨⟨⟨⟨by decide, addr.oneLine⟩, by decide⟩, iface.oneLine⟩, by decide⟩,
      oneLine_toDigits packets⟩, by decide⟩, oneLine_toDigits bytes⟩, by decide⟩
  | forward tap iface =>
    simp only [ListedRule.line_forward, List.mem_append, not_or]
    exact ⟨⟨⟨⟨by decide, tap.oneLine⟩, by decide⟩, iface.oneLine⟩, by decide⟩

theorem ListedChain.oneLine (c : ListedChain) : ∀ line ∈ c.lines, '\n' ∉ line := by
  intro line hline
  simp only [ListedChain.lines, List.mem_cons, List.mem_append, List.mem_map, List.not_mem_nil,
    or_false] at hline
  rcases hline with rfl | rfl | ⟨r, _, rfl⟩ | rfl
  · simp only [List.mem_append, not_or]
    exact ⟨⟨by decide, c.name.oneLine⟩, by decide⟩
  · simp only [List.mem_append, not_or]
    exact ⟨⟨⟨⟨by decide, c.hook.oneLine⟩, by decide⟩, c.policy.oneLine⟩, by decide⟩
  · exact r.oneLine
  · decide

theorem ListedTable.oneLine (t : ListedTable) : ∀ line ∈ t.lines, '\n' ∉ line := by
  intro line hline
  simp only [ListedTable.lines, List.mem_cons, List.mem_append, List.mem_flatMap,
    List.not_mem_nil, or_false] at hline
  rcases hline with rfl | ⟨c, _, hc⟩ | rfl
  · simp only [List.mem_append, not_or]
    exact ⟨⟨by decide, t.title.oneLine⟩, by decide⟩
  · exact c.oneLine line hc
  · decide

/-- A listing is found to have rules if and only if one of its chains has one. -/
theorem rule_detection {t : ListedTable} (h : Laid t.lines output) :
    hasNftablesRules output = true ↔ ∃ c ∈ t.chains, c.rules ≠ [] := by
  rw [hasNftablesRules_laid h t.oneLine]
  exact any_table t

/-- Two chains, the second with a rule. -/
def sampleTable : ListedTable where
  title := ⟨"ip firecracker".toList, by decide⟩
  chains := [
    ⟨⟨"postrouting".toList, by decide⟩, ⟨"nat hook postrouting priority srcnat".toList, by decide⟩,
      ⟨"accept".toList, by decide⟩, []⟩,
    ⟨⟨"filter".toList, by decide⟩, ⟨"filter hook forward priority filter".toList, by decide⟩,
      ⟨"accept".toList, by decide⟩,
      [.forward ⟨"\"fc0\"".toList, by decide⟩ ⟨"\"eth0\"".toList, by decide⟩]⟩]

/-- One line after the other, each with some space before it. -/
theorem laid_indented (ls : List Text) :
    Laid ls (ls.flatMap fun line => ' ' :: line ++ ['\n']) := by
  have hspace : isWhitespace ' ' = true := by decide
  have hgap : Gap [' '] := ⟨fun c hc => List.mem_singleton.mp hc ▸ hspace, by decide⟩
  have hnil : Gap [] := ⟨blank_nil, by simp⟩
  induction ls with
  | nil => exact .done [] hnil
  | cons line ls ih =>
    have hline := Laid.line line ls [' '] [] _ hgap hnil ih
    simpa using hline

theorem rule_detection_sample :
    hasNftablesRules (sampleTable.lines.flatMap fun line => ' ' :: line ++ ['\n']) = true :=
  (rule_detection (laid_indented sampleTable.lines)).mpr ⟨_, .tail _ (.head _), by simp⟩

end Listings

end Warlock.OrphanCleanup
