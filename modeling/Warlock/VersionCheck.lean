import Warlock.TextFields

/-!
# The version that Firecracker announces

`firecracker --version` prints a banner, and log lines may follow. The version is the first word
of the first line that looks like one, less every `v` it begins with. Parsing and comparing
semantic versions belongs to an external library.
-/

namespace Warlock.VersionCheck
open RustText

structure VersionLibrary where
  Version : Type
  parse : Text → Option Version
  older : Version → Version → Bool
  display : Version → Text

variable {lib : VersionLibrary} {output before word rest line tail : Text}

inductive VersionError (lib : VersionLibrary)
  | empty
  | noVersion (firstLine : Text)
  | unparsable
  | tooOld (version : lib.Version)

def minFirecrackerVersion : Text := "1.14.1".toList

def VersionError.message : VersionError lib → Text
  | .empty => "Version output was empty".toList
  | .noVersion firstLine => "No version number found in output: ".toList ++ firstLine
  | .unparsable => "Failed to parse Firecracker version string".toList
  | .tooOld version => "Firecracker version ".toList ++ lib.display version ++
      " is too old. Minimum required: ".toList ++ minFirecrackerVersion

def looksLikeVersion (s : Text) : Bool := startsWith ['v'] s || s.head?.any isDigit

/-- `trim_start_matches` with one character. -/
def trimStartMatches (c : Char) (s : Text) : Text := s.dropWhile (· == c)

/-- What becomes of a word that looks like a version. It panics if the library cannot read the
minimum. -/
def validateVersion (lib : VersionLibrary) (word : Text) :
    Option (Except (VersionError lib) lib.Version) :=
  match lib.parse (trimStartMatches 'v' word) with
  | none => some (.error .unparsable)
  | some version => match lib.parse minFirecrackerVersion with
    | none => none
    | some minVersion =>
      if lib.older version minVersion then some (.error (.tooOld version)) else some (.ok version)

/-- Parses Firecracker version output and validates it meets minimum requirements. -/
def parseAndValidateVersion (lib : VersionLibrary) (output : Text) :
    Option (Except (VersionError lib) lib.Version) :=
  match (lines output).head? with
  | none => some (.error .empty)
  | some firstLine => match (splitWhitespace firstLine).find? looksLikeVersion with
    | none => some (.error (.noVersion firstLine))
    | some word => validateVersion lib word

/-- The first word of the first line that looks like a version, and the text around it. -/
structure Announces (output before word rest : Text) : Prop extends
    Cuts output before word rest where
  firstLine : '\n' ∉ before
  likely : looksLikeVersion word = true
  others : ∀ u ∈ splitWhitespace before, looksLikeVersion u = false

theorem splitWhitespace_stripCarriageReturn (line : Text) :
    splitWhitespace (stripCarriageReturn line) = splitWhitespace line := by
  unfold stripCarriageReturn
  split
  · rename_i rest hr
    have hline : line = rest.reverse ++ '\r' :: [] := by
      rw [← List.reverse_reverse line, hr, List.reverse_cons]
    have hend : splitWhitespace [] = [] := rfl
    rw [hline, splitWhitespace_break (by decide), hend, List.append_nil]
  · rfl

/-- The first line, up to how it ends. -/
theorem exists_firstLine (h : output ≠ []) : ∃ firstLine line tail,
    (lines output).head? = some firstLine ∧ splitWhitespace firstLine = splitWhitespace line ∧
      output = line ++ tail ∧ '\n' ∉ line ∧ ∀ c, tail.head? = some c → c = '\n' := by
  have hsplit : output.takeWhile (· != '\n') ++ output.dropWhile (· != '\n') = output :=
    List.takeWhile_append_dropWhile
  have hline : '\n' ∉ output.takeWhile (· != '\n') := by
    intro hmem
    simpa using List.mem_takeWhile_imp hmem
  have htail : ∀ c, (output.dropWhile (· != '\n')).head? = some c → c = '\n' := by
    intro c hc
    have hhead := List.head?_dropWhile_not (· != '\n') output
    rw [hc] at hhead
    simpa using hhead
  generalize output.takeWhile (· != '\n') = line at hsplit hline
  generalize output.dropWhile (· != '\n') = tail at hsplit htail
  cases tail with
  | nil =>
    rw [List.append_nil] at hsplit
    subst hsplit
    exact ⟨line, line, [], by simp [lines_of_not_mem hline h], rfl, by simp, hline, by simp⟩
  | cons c tail =>
    obtain rfl := htail c rfl
    refine ⟨stripCarriageReturn line, line, '\n' :: tail, ?_,
      splitWhitespace_stripCarriageReturn line, hsplit.symm, hline, htail⟩
    rw [← hsplit, lines_cons hline]
    rfl

/-- A word of the first line is a word of the output. -/
theorem widen (h : Cuts line before word rest) (htail : ∀ c, tail.head? = some c → c = '\n') :
    Cuts (line ++ tail) before word (rest ++ tail) where
  text := by simp [h.text]
  closed := h.closed
  field := h.field
  apart c hc := by
    cases rest with
    | nil =>
      obtain rfl := htail c hc
      decide
    | cons d rest => exact h.apart c hc

/-- A word of the output with no end of line before it is a word of the first line. -/
theorem narrow (h : Cuts (line ++ tail) before word rest) (hbefore : '\n' ∉ before)
    (htail : ∀ c, tail.head? = some c → c = '\n') : ∃ rest', Cuts line before word rest' := by
  have hnewline : '\n' ∉ before ++ word := by
    intro hmem
    rcases List.mem_append.mp hmem with hmem | hmem
    · exact hbefore hmem
    · exact absurd (h.field.solid _ hmem) (by decide)
  rcases List.append_eq_append_iff.mp h.text with ⟨excess, hover, hrest⟩ | ⟨rest', hline, hrest⟩
  · cases excess with
    | nil =>
      rw [List.append_nil] at hover
      exact ⟨[], by simp [hover], h.closed, h.field, by simp [Apart]⟩
    | cons c excess =>
      obtain rfl := htail c (by simp [hrest])
      exact absurd (by simp [hover]) hnewline
  · refine ⟨rest', hline, h.closed, h.field, fun c hc => h.apart c ?_⟩
    rw [hrest, List.head?_append, hc]
    rfl

theorem find_of_announces (h : Announces output before word rest) : ∃ firstLine,
    (lines output).head? = some firstLine ∧
      (splitWhitespace firstLine).find? looksLikeVersion = some word := by
  have hne : output ≠ [] := by
    rintro rfl
    have htext := h.text
    simp [h.field.nonempty] at htext
  obtain ⟨firstLine, line, tail, hhead, hfields, rfl, _, htail⟩ := exists_firstLine hne
  obtain ⟨rest', hcuts⟩ := narrow h.toCuts h.firstLine htail
  refine ⟨firstLine, hhead, ?_⟩
  rw [hfields, hcuts.split, List.find?_eq_some_iff_append]
  exact ⟨h.likely, _, _, rfl, fun u hu => by simp [h.others u hu]⟩

theorem announces_of_find {firstLine : Text} (hhead : (lines output).head? = some firstLine)
    (hfind : (splitWhitespace firstLine).find? looksLikeVersion = some word) :
    ∃ before rest, Announces output before word rest := by
  have hne : output ≠ [] := by
    rintro rfl
    simp [lines, linesFrom] at hhead
  obtain ⟨firstLine', line, tail, hhead', hfields, rfl, hline, htail⟩ := exists_firstLine hne
  obtain rfl := Option.some.inj (hhead.symm.trans hhead')
  obtain ⟨hlikely, us, vs, hsplit, hus⟩ := List.find?_eq_some_iff_append.mp hfind
  rw [hfields] at hsplit
  obtain ⟨before, rest, hcuts, rfl, _⟩ := splitWhitespace_eq_append_cons.mp hsplit
  refine ⟨before, rest ++ tail, widen hcuts htail, fun hmem => hline ?_, hlikely, fun u hu => ?_⟩
  · rw [hcuts.text]
    exact List.mem_append_left _ (List.mem_append_left _ hmem)
  · simpa using hus u hu

/-- The word that the output announces decides, whatever stands around it. -/
theorem verdict_of_announces (h : Announces output before word rest) :
    parseAndValidateVersion lib output = validateVersion lib word := by
  obtain ⟨firstLine, hhead, hfind⟩ := find_of_announces h
  simp [parseAndValidateVersion, hhead, hfind]

theorem validateVersion_eq_ok {version minVersion : lib.Version}
    (hmin : lib.parse minFirecrackerVersion = some minVersion) :
    validateVersion lib word = some (.ok version) ↔
      lib.parse (trimStartMatches 'v' word) = some version ∧
        lib.older version minVersion = false := by
  unfold validateVersion
  cases hparse : lib.parse (trimStartMatches 'v' word) with
  | none => simp
  | some version' =>
    simp only [hmin]
    cases hold : lib.older version' minVersion with
    | true =>
      refine iff_of_false (by simp) ?_
      rintro ⟨heq, hnew⟩
      obtain rfl := Option.some.inj heq
      simp [hold] at hnew
    | false =>
      simp only [Bool.false_eq_true, if_false, Option.some.injEq, Except.ok.injEq]
      constructor
      · rintro rfl
        exact ⟨rfl, hold⟩
      · exact fun h => h.1

/-- A version is accepted exactly if the output announces it and it is not below the minimum. -/
theorem version_accepted {version minVersion : lib.Version}
    (hmin : lib.parse minFirecrackerVersion = some minVersion) :
    parseAndValidateVersion lib output = some (.ok version) ↔
      ∃ before word rest, Announces output before word rest ∧
        lib.parse (trimStartMatches 'v' word) = some version ∧
        lib.older version minVersion = false := by
  constructor
  · intro h
    unfold parseAndValidateVersion at h
    split at h
    · simp at h
    · rename_i firstLine hhead
      split at h
      · simp at h
      · rename_i word hfind
        obtain ⟨before, rest, hannounces⟩ := announces_of_find hhead hfind
        exact ⟨before, word, rest, hannounces, (validateVersion_eq_ok hmin).mp h⟩
  · rintro ⟨before, word, rest, hannounces, hvalid⟩
    rw [verdict_of_announces hannounces]
    exact (validateVersion_eq_ok hmin).mpr hvalid

/-- What Firecracker prints, with its log after the first line. -/
def banner (version log : Text) : Text :=
  "Firecracker ".toList ++ ('v' :: version) ++ '\n' :: log

theorem announces_banner {version : Text} (h : ∀ c ∈ version, isWhitespace c = false) (log : Text) :
    Announces (banner version log) "Firecracker ".toList ('v' :: version) ('\n' :: log) where
  text := rfl
  closed c hc := by
    obtain rfl : ' ' = c := Option.some.inj hc
    decide
  field := ⟨by simp, by
    intro c hc
    rcases List.mem_cons.mp hc with rfl | hc
    · decide
    · exact h c hc⟩
  apart c hc := by
    obtain rfl : '\n' = c := Option.some.inj hc
    decide
  firstLine := by decide
  likely := by
    have hv : 'v' :: version = ['v'] ++ version := rfl
    rw [looksLikeVersion, hv, startsWith_append]
    rfl
  others := by decide

def parseTriple (s : Text) : Option (List ℕ) :=
  if (s.splitOn '.').length = 3 then (s.splitOn '.').mapM fun part => (parseU64 part).map (·.toNat)
  else none

/-- Versions of three numbers, compared from the left. -/
def triples : VersionLibrary where
  Version := List ℕ
  parse := parseTriple
  older a b := decide (a < b)
  display version := (version.map (Nat.toDigits 10)).intersperse ['.'] |>.flatten

theorem version_accepted_banner : parseAndValidateVersion triples
    (banner "1.15.0".toList "\nFirecracker exiting successfully. exit_code=0\n".toList) =
      some (.ok [1, 15, 0]) := by
  have hmin : parseTriple minFirecrackerVersion = some [1, 14, 1] := by decide +kernel
  have hparse : parseTriple (trimStartMatches 'v' ('v' :: "1.15.0".toList)) = some [1, 15, 0] := by
    decide +kernel
  have hnew : triples.older [1, 15, 0] [1, 14, 1] = false := rfl
  have hsolid : ∀ c ∈ "1.15.0".toList, isWhitespace c = false := by
    simp only [← Bool.not_eq_true', ← List.all_eq_true]
    decide
  exact (version_accepted hmin).mpr ⟨_, _, _, announces_banner hsolid _, hparse, hnew⟩

end Warlock.VersionCheck
