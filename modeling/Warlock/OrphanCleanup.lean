import Warlock.ServerOperations

/-!
# The sweep at startup

A server that was killed leaves processes, jailer workspaces, rootfs copies, taps, rules and
jailer logs on its host. The next one removes everything that looks like one of them: it goes by
the names in three directories and by the text that `ip` and `nft` print.
-/

namespace Warlock.OrphanCleanup
open MachineIntegers RustText ServerOperations SubnetAddressing

/-- A line of `ip -o link show`: `N: name: ...`. -/
structure Link where
  index : ℕ
  name : Text
  rest : Text
  oneLine : ∀ c ∈ name ++ rest, c ≠ '\n' ∧ c ≠ '\r'

def Link.render (l : Link) : Text :=
  Nat.toDigits 10 l.index ++ ": ".toList ++ l.name ++ ": ".toList ++ l.rest

def linkOutput (links : List Link) : Text := links.flatMap fun l => l.render ++ ['\n']

structure DirEntry where
  name : Text
  isDir : Bool

/-- What a server finds on its host when it starts. -/
structure Machine where
  processes : List ℕ
  workspaces : List DirEntry
  images : List Text
  links : List Link
  rules : List (Chain × U64)
  tmp : List Text

inductive Directory
  | workspaces
  | images
  | tmp

/-- What the listing and removal commands of the sweep answer. -/
structure Outcomes where
  signals : Bool
  readDir : Directory → Bool
  readEntry : Directory → Text → Bool
  removes : Directory → Text → Bool
  linkShow : Option Text
  linkDel : Text → Bool
  listTable : Option Text
  flushTable : Bool

section Sweep

variable (o : Outcomes)

/-- Removes the entries of a directory that meet a test; whether it has removed any. -/
def sweepDirectory {α : Type} (d : Directory) (name : α → Text) (test : α → Bool)
    (entries : List α) : List α × Bool :=
  if o.readDir d then
    let stale e := o.readEntry d (name e) && test e && o.removes d (name e)
    (entries.filter fun e => !stale e, entries.any stale)
  else (entries, false)

/-- Kills orphaned Firecracker processes, with `SIGKILL` if need be. -/
def killOrphanedProcesses (m : Machine) : Machine × Bool :=
  if o.signals && !m.processes.isEmpty then ({ m with processes := [] }, true) else (m, false)

def removeStaleJailerWorkspaces (m : Machine) : Machine × Bool :=
  let swept := sweepDirectory o .workspaces DirEntry.name DirEntry.isDir m.workspaces
  ({ m with workspaces := swept.1 }, swept.2)

def isExt4 (fileName : Text) : Bool := extension fileName == some "ext4".toList

def removeStaleRootfsCopies (m : Machine) : Machine × Bool :=
  let swept := sweepDirectory o .images id isExt4 m.images
  ({ m with images := swept.1 }, swept.2)

/-- The name on a line of `ip -o link show` if it is that of a tap. -/
def fcTapDevice (line : Text) : Option Text := do
  let name ← (splitWhitespace line)[1]?
  let name := trimEndMatches ':' name
  if startsWith "fc".toList name && (name.drop 2).all isDigit then some name else none

/-- Parses `ip -o link show` output and returns names of `fc*` tap devices. -/
def parseFcTapDevices (output : Text) : List Text := (lines output).filterMap fcTapDevice

def removeStaleTapDevices (m : Machine) : Machine × Bool :=
  match o.linkShow with
  | none => (m, false)
  | some text =>
    let deleted := (parseFcTapDevices text).filter o.linkDel
    ({ m with links := m.links.filter fun l => !deleted.contains l.name }, !deleted.isEmpty)

/-- A line of `nft list table` that belongs to the structure of the table. -/
def isStructural (line : Text) : Bool :=
  let trimmed := trim line
  trimmed.isEmpty || startsWith "table ".toList trimmed || startsWith "chain ".toList trimmed ||
    startsWith "type ".toList trimmed || trimmed == "\x7d".toList || trimmed == "\x7b".toList

/-- Checks whether `nft list table` output contains actual rules. -/
def hasNftablesRules (output : Text) : Bool := (lines output).any fun line => !isStructural line

def flushNftablesRules (m : Machine) : Machine × Bool :=
  match o.listTable with
  | none => (m, false)
  | some text =>
    if hasNftablesRules text && o.flushTable then ({ m with rules := [] }, true) else (m, false)

def isJailerLog (fileName : Text) : Bool :=
  startsWith "warlock-jailer-".toList fileName && endsWith ".log".toList fileName

def removeStaleJailerLogs (m : Machine) : Machine × Bool :=
  let swept := sweepDirectory o .tmp id isJailerLog m.tmp
  ({ m with tmp := swept.1 }, swept.2)

/-- Scans for and removes orphaned resources; whether it has found anything. -/
def cleanupOrphans (m : Machine) : Machine × Bool :=
  let (m, killed) := killOrphanedProcesses o m
  let (m, workspaces) := removeStaleJailerWorkspaces o m
  let (m, copies) := removeStaleRootfsCopies o m
  let (m, taps) := removeStaleTapDevices o m
  let (m, rules) := flushNftablesRules o m
  let (m, logs) := removeStaleJailerLogs o m
  (m, killed || workspaces || copies || taps || rules || logs)

end Sweep

/-- A line on which `nft` prints a rule. -/
def RuleLine (line : Text) : Prop :=
  startsWith "ip saddr".toList (trim line) = true ∨ startsWith "iifname".toList (trim line) = true

/-- Every listing and every removal succeeds, and the listings show what is there. -/
structure Truthful (o : Outcomes) (m : Machine) : Prop where
  directories : ∀ d name, o.readDir d = true ∧ o.readEntry d name = true ∧ o.removes d name = true
  linkShow : o.linkShow = some (linkOutput m.links)
  linkDel : ∀ name, o.linkDel name = true
  listTable : ∃ text, o.listTable = some text ∧ (m.rules ≠ [] → ∃ line ∈ lines text, RuleLine line)
  flushTable : o.flushTable = true

variable {o : Outcomes} {m : Machine}

section Directories

variable {α : Type} {d : Directory} {name : α → Text} {test : α → Bool} {entries : List α}

theorem mem_sweepDirectory {e : α} (h : ∀ d n, o.readDir d = true ∧ o.readEntry d n = true ∧
    o.removes d n = true) :
    e ∈ (sweepDirectory o d name test entries).1 ↔ e ∈ entries ∧ test e = false := by
  obtain ⟨hread, _, _⟩ := h d []
  have hentry (n : Text) : o.readEntry d n = true := (h d n).2.1
  have hremoves (n : Text) : o.removes d n = true := (h d n).2.2
  simp [sweepDirectory, hread, hentry, hremoves]

theorem splitAtLast_ext4 (stem : Text) :
    splitAtLast '.' (stem ++ ".ext4".toList) = some (stem, "ext4".toList) := by
  have hreverse : (stem ++ ".ext4".toList).reverse = "4txe.".toList ++ stem.reverse := by simp
  rw [splitAtLast, hreverse]
  simp [List.span, List.span.loop]

theorem isExt4_append {stem : Text} (h : stem ≠ []) : isExt4 (stem ++ ".ext4".toList) = true := by
  have hdots : stem ++ ".ext4".toList ≠ "..".toList := by
    intro he
    have hlen := congrArg List.length he
    simp at hlen
  simp only [isExt4, extension, if_neg hdots, splitAtLast_ext4]
  simp [h]

theorem isJailerLog_append (id : Text) :
    isJailerLog ("warlock-jailer-".toList ++ id ++ ".log".toList) = true := by
  rw [isJailerLog, endsWith_append, List.append_assoc, startsWith_append]
  rfl

end Directories

section Taps

theorem lines_linkOutput (links : List Link) :
    lines (linkOutput links) = links.map Link.render := by
  have houtput : linkOutput links = (links.map Link.render).flatMap (· ++ ['\n']) := by
    rw [List.flatMap_map]
    rfl
  rw [houtput]
  apply lines_flatMap
  intro line hline
  obtain ⟨l, _, rfl⟩ := List.mem_map.mp hline
  have hseparator : ∀ c ∈ ": ".toList, c ≠ '\n' ∧ c ≠ '\r' := by simp
  have hchar : ∀ c ∈ l.render, c ≠ '\n' ∧ c ≠ '\r' := by
    intro c hc
    simp only [Link.render, List.mem_append] at hc
    rcases hc with (((hc | hc) | hc) | hc) | hc
    · have hdigit := isDigit_of_mem_toDigits hc
      constructor <;> rintro rfl <;> exact absurd hdigit (by decide)
    · exact hseparator c hc
    · exact l.oneLine c (List.mem_append_left _ hc)
    · exact hseparator c hc
    · exact l.oneLine c (List.mem_append_right _ hc)
  exact ⟨fun h => (hchar _ h).1 rfl, fun h => (hchar _ h).2 rfl⟩

theorem trimEndMatches_concat {c : Char} {w : Text} (h : c ∉ w) :
    trimEndMatches c (w ++ [c]) = w := by
  have hkeep : w.reverse.dropWhile (· == c) = w.reverse := by
    cases hw : w.reverse with
    | nil => rfl
    | cons d rest =>
      have hd : d ∈ w := List.mem_reverse.mp (hw ▸ List.mem_cons_self)
      have hne : d ≠ c := fun he => h (he ▸ hd)
      simp [hne]
  simp [trimEndMatches, hkeep]

/-- The name on a line of `ip -o link show` is judged by itself. -/
theorem fcTapDevice_line (index : ℕ) {name : Text} (rest : Text)
    (hname : ∀ c ∈ name, isWhitespace c = false ∧ c ≠ ':') :
    fcTapDevice (Nat.toDigits 10 index ++ ": ".toList ++ name ++ ": ".toList ++ rest) =
      if startsWith "fc".toList name && (name.drop 2).all isDigit then some name else none := by
  have hcolon : isWhitespace ':' = false := by decide
  have hspace : isWhitespace ' ' = true := by decide
  have hindex : ∀ c ∈ Nat.toDigits 10 index ++ [':'], isWhitespace c = false := by
    intro c hc
    rcases List.mem_append.mp hc with hc | hc
    · exact isWhitespace_of_isDigit (isDigit_of_mem_toDigits hc)
    · exact List.mem_singleton.mp hc ▸ hcolon
  have hfield : ∀ c ∈ name ++ [':'], isWhitespace c = false := by
    intro c hc
    rcases List.mem_append.mp hc with hc | hc
    · exact (hname c hc).1
    · exact List.mem_singleton.mp hc ▸ hcolon
  have hline : Nat.toDigits 10 index ++ ": ".toList ++ name ++ ": ".toList ++ rest =
      (Nat.toDigits 10 index ++ [':']) ++ ' ' :: ((name ++ [':']) ++ ' ' :: rest) := by
    simp
  have hfields : (splitWhitespace (Nat.toDigits 10 index ++ ": ".toList ++ name ++ ": ".toList ++
      rest))[1]? = some (name ++ [':']) := by
    rw [hline, splitWhitespace_append hindex (by simp) hspace,
      splitWhitespace_append hfield (by simp) hspace]
    rfl
  have htrim : trimEndMatches ':' (name ++ [':']) = name :=
    trimEndMatches_concat fun h => (hname _ h).2 rfl
  simp only [fcTapDevice, hfields, Option.bind_eq_bind, Option.bind_some, htrim]

end Taps

section Rules

theorem not_isStructural {line : Text} (h : RuleLine line) : isStructural line = false := by
  have hshape : ∃ c rest, trim line = 'i' :: c :: rest ∧ (c = 'p' ∨ c = 'i') := by
    rcases h with h | h
    all_goals
      obtain ⟨rest, hr⟩ := Option.isSome_iff_exists.mp h
      rw [stripPrefix_eq_some] at hr
    · exact ⟨'p', " saddr".toList ++ rest, by simpa using hr, .inl rfl⟩
    · exact ⟨'i', "fname".toList ++ rest, by simpa using hr, .inr rfl⟩
  obtain ⟨c, rest, hr, _⟩ := hshape
  simp [isStructural, hr, startsWith, stripPrefix]

theorem hasNftablesRules_of_line {text line : Text} (hl : line ∈ lines text) (h : RuleLine line) :
    hasNftablesRules text = true :=
  List.any_eq_true.mpr ⟨line, hl, by simp [not_isStructural h]⟩

end Rules

/-- Nothing is left that looks like something a server makes. -/
structure Swept (m : Machine) : Prop where
  workspaces : ∀ e ∈ m.workspaces, e.isDir = false
  images : ∀ fileName ∈ m.images, isExt4 fileName = false
  links : ∀ l ∈ m.links, ∀ i : U16, l.name ≠ (tapName i).toList
  rules : m.rules = []
  tmp : ∀ fileName ∈ m.tmp, isJailerLog fileName = false

section Steps

theorem killOrphanedProcesses_eq (o : Outcomes) (m : Machine) :
    ∃ processes, (killOrphanedProcesses o m).1 = { m with processes := processes } := by
  unfold killOrphanedProcesses
  split
  · exact ⟨[], rfl⟩
  · exact ⟨m.processes, rfl⟩

theorem removeStaleTapDevices_eq (o : Outcomes) (m : Machine) :
    ∃ links, (removeStaleTapDevices o m).1 = { m with links := links } := by
  unfold removeStaleTapDevices
  split
  · exact ⟨m.links, rfl⟩
  · exact ⟨_, rfl⟩

theorem flushNftablesRules_eq (o : Outcomes) (m : Machine) :
    ∃ rules, (flushNftablesRules o m).1 = { m with rules := rules } := by
  unfold flushNftablesRules
  split
  · exact ⟨m.rules, rfl⟩
  · split
    · exact ⟨[], rfl⟩
    · exact ⟨m.rules, rfl⟩

theorem fcTapDevice_tapName {l : Link} {i : U16} (h : l.name = (tapName i).toList) :
    fcTapDevice l.render = some l.name := by
  have hname : l.name = 'f' :: 'c' :: Nat.toDigits 10 i.toNat := by
    rw [h, tapName]
    simp
  have hdigits : (Nat.toDigits 10 i.toNat).all isDigit = true :=
    List.all_eq_true.mpr fun c hc => isDigit_of_mem_toDigits hc
  rw [Link.render, fcTapDevice_line]
  · simp [hname, startsWith, stripPrefix, hdigits]
  · intro c hc
    rw [hname] at hc
    rcases List.mem_cons.mp hc with rfl | hc
    · decide
    rcases List.mem_cons.mp hc with rfl | hc
    · decide
    have hdigit := isDigit_of_mem_toDigits hc
    exact ⟨isWhitespace_of_isDigit hdigit, by rintro rfl; exact absurd hdigit (by decide)⟩

theorem links_swept (h : Truthful o m) {l : Link} (hl : l ∈ (removeStaleTapDevices o m).1.links)
    (i : U16) : l.name ≠ (tapName i).toList := by
  intro hname
  simp only [removeStaleTapDevices, h.linkShow, List.mem_filter] at hl
  obtain ⟨hmem, hkept⟩ := hl
  have hline : l.render ∈ lines (linkOutput m.links) := by
    rw [lines_linkOutput]
    exact List.mem_map_of_mem hmem
  have hparsed : l.name ∈ parseFcTapDevices (linkOutput m.links) :=
    List.mem_filterMap.mpr ⟨_, hline, fcTapDevice_tapName hname⟩
  simp [hparsed, h.linkDel] at hkept

theorem rules_swept (hlist : ∃ text, o.listTable = some text ∧
    (m.rules ≠ [] → ∃ line ∈ lines text, RuleLine line)) (hflush : o.flushTable = true) :
    (flushNftablesRules o m).1.rules = [] := by
  obtain ⟨text, htext, hlisted⟩ := hlist
  cases hm : m.rules with
  | nil =>
    simp only [flushNftablesRules, htext]
    split
    · rfl
    · exact hm
  | cons rule rules =>
    obtain ⟨line, hl, hrule⟩ := hlisted (by simp [hm])
    simp [flushNftablesRules, htext, hasNftablesRules_of_line hl hrule, hflush]

/-- A sweep whose commands all succeed leaves nothing behind. -/
theorem swept_cleanupOrphans (h : Truthful o m) : Swept (cleanupOrphans o m).1 := by
  obtain ⟨processes, hm₁⟩ := killOrphanedProcesses_eq o m
  have hresult : (cleanupOrphans o m).1 = (removeStaleJailerLogs o (flushNftablesRules o
      (removeStaleTapDevices o (removeStaleRootfsCopies o (removeStaleJailerWorkspaces o
        (killOrphanedProcesses o m).1).1).1).1).1).1 := rfl
  rw [hresult, hm₁]
  generalize hm₃ : (removeStaleRootfsCopies o (removeStaleJailerWorkspaces o
    { m with processes := processes }).1).1 = m₃
  have hworkspaces : ∀ e ∈ m₃.workspaces, e.isDir = false := by
    intro e he
    rw [← hm₃] at he
    exact ((mem_sweepDirectory h.directories).mp he).2
  have himages : ∀ fileName ∈ m₃.images, isExt4 fileName = false := by
    intro fileName hf
    rw [← hm₃] at hf
    exact ((mem_sweepDirectory h.directories).mp hf).2
  have htruthful : Truthful o m₃ := by
    rw [← hm₃]
    exact ⟨h.directories, h.linkShow, h.linkDel, h.listTable, h.flushTable⟩
  have hlinks := fun l hl => links_swept (l := l) htruthful hl
  obtain ⟨links, hm₄⟩ := removeStaleTapDevices_eq o m₃
  rw [hm₄] at hlinks ⊢
  have hrules := rules_swept (m := { m₃ with links := links }) htruthful.listTable h.flushTable
  obtain ⟨rules, hm₅⟩ := flushNftablesRules_eq o { m₃ with links := links }
  rw [hm₅] at hrules ⊢
  exact ⟨hworkspaces, himages, hlinks, hrules,
    fun fileName hf => ((mem_sweepDirectory h.directories).mp hf).2⟩

end Steps

end Warlock.OrphanCleanup
