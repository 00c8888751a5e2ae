import Warlock.TextSearches
import Warlock.MachineIntegers

/-!
# Handles in the output of `nft`

`nft -ae add rule ...` echoes the rule followed by `# handle N`. The text is searched line
by line; the last line that has the marker gives the handle, and a marker whose tail is no
number is an error at once.
-/

namespace Warlock.NftHandles
open RustText MachineIntegers

def marker : Text := "# handle ".toList

def parseNftHandleFrom (lastHandle : Option U64) : List Text → Option U64
  | [] => lastHandle
  | line :: rest => match afterFirst marker line with
    | none => parseNftHandleFrom lastHandle rest
    | some tail => match parseU64 (trim tail) with
      | none => none
      | some handle => parseNftHandleFrom (some handle) rest

/-- `parse_nft_handle`. -/
def parseNftHandle (output : Text) : Option U64 := parseNftHandleFrom none (lines output)

example : parseNftHandle "add rule firecracker postrouting counter # handle 42\n".toList =
    some 42 := by decide

variable {output before tail rest t : Text} {earlier ls : List Text} {line : Text} {n : U64}

section Lines

theorem parseNftHandleFrom_unmarked (h : ∀ line ∈ ls, ¬ marker <:+: line)
    (lastHandle : Option U64) : parseNftHandleFrom lastHandle ls = lastHandle := by
  induction ls with
  | nil => rfl
  | cons line ls ih =>
    have hline : afterFirst marker line = none := afterFirst_eq_none.mpr (h line (.head _))
    simp only [parseNftHandleFrom, hline]
    exact ih fun l hl => h l (.tail _ hl)

theorem parseNftHandleFrom_marked (hfind : afterFirst marker line = some t)
    (lastHandle : Option U64) (ls : List Text) : parseNftHandleFrom lastHandle (line :: ls) =
      (parseU64 (trim t)).bind fun handle => parseNftHandleFrom (some handle) ls := by
  cases hparse : parseU64 (trim t) with
  | none => simp only [parseNftHandleFrom, hfind, hparse, Option.bind_none]
  | some handle => simp only [parseNftHandleFrom, hfind, hparse, Option.bind_some]

/-- What follows the first marker of the line, if it has one, is a number. -/
def Readable (line : Text) : Prop :=
  ∀ t, afterFirst marker line = some t → (parseU64 (trim t)).isSome = true

instance (line : Text) : Decidable (Readable line) :=
  decidable_of_iff ((afterFirst marker line).all fun t => (parseU64 (trim t)).isSome)
    (Option.all_eq_true _ _)

theorem parseNftHandleFrom_readable (hline : Readable line) (lastHandle : Option U64)
    (ls : List Text) :
    ∃ last, parseNftHandleFrom lastHandle (line :: ls) = parseNftHandleFrom last ls := by
  cases hfind : afterFirst marker line with
  | none => exact ⟨lastHandle, by simp only [parseNftHandleFrom, hfind]⟩
  | some t =>
    obtain ⟨handle, hparse⟩ := Option.isSome_iff_exists.mp (hline t hfind)
    exact ⟨some handle, by rw [parseNftHandleFrom_marked hfind, hparse, Option.bind_some]⟩

theorem parseNftHandleFrom_unreadable (hline : ¬ Readable line) (lastHandle : Option U64)
    (ls : List Text) : parseNftHandleFrom lastHandle (line :: ls) = none := by
  simp only [Readable, not_forall] at hline
  obtain ⟨t, hfind, hparse⟩ := hline
  have hnone : parseU64 (trim t) = none := by simpa using hparse
  rw [parseNftHandleFrom_marked hfind, hnone, Option.bind_none]

/-- Lines that can be read do not keep the later ones from being read. -/
theorem parseNftHandleFrom_append (h : ∀ line ∈ ls, Readable line) (lastHandle : Option U64)
    (ls' : List Text) :
    ∃ last, parseNftHandleFrom lastHandle (ls ++ ls') = parseNftHandleFrom last ls' := by
  induction ls generalizing lastHandle with
  | nil => exact ⟨lastHandle, rfl⟩
  | cons line ls ih =>
    obtain ⟨last, hlast⟩ := parseNftHandleFrom_readable (h line (.head _)) lastHandle (ls ++ ls')
    obtain ⟨last', hlast'⟩ := ih (fun l hl => h l (.tail _ hl)) last
    exact ⟨last', hlast.trans hlast'⟩

/-- One line that cannot be read is an error. -/
theorem parseNftHandleFrom_of_mem (hmem : line ∈ ls) (hline : ¬ Readable line)
    (lastHandle : Option U64) (ls' : List Text) :
    parseNftHandleFrom lastHandle (ls ++ ls') = none := by
  induction ls generalizing lastHandle with
  | nil => simp at hmem
  | cons head ls ih =>
    by_cases hhead : Readable head
    · have htail : line ∈ ls := by
        rcases List.mem_cons.mp hmem with rfl | htail
        · exact absurd hhead hline
        · exact htail
      obtain ⟨last, hlast⟩ := parseNftHandleFrom_readable hhead lastHandle (ls ++ ls')
      exact hlast.trans (ih htail last)
    · exact parseNftHandleFrom_unreadable hhead lastHandle (ls ++ ls')

theorem afterFirst_marker (h : ¬ marker <:+: before) (tail : Text) :
    afterFirst marker (before ++ marker ++ tail) = some tail := by
  have hhash : '#' ∉ " handle ".toList := by decide
  exact afterFirst_append hhash h tail

theorem stripCarriageReturn_marker (before tail : Text) :
    stripCarriageReturn (before ++ marker ++ tail) =
      before ++ marker ++ stripCarriageReturn tail := by
  have hmarker : marker = "# handle".toList ++ [' '] := by decide
  have hsplit (t : Text) : before ++ marker ++ t = before ++ "# handle".toList ++ ' ' :: t := by
    rw [hmarker]
    simp only [List.append_assoc, List.singleton_append]
  have hspace : ' ' ≠ '\r' := by decide
  rw [hsplit, hsplit, stripCarriageReturn_append hspace]

/-- The `\r` before a `\n` does not keep a line from being read. -/
theorem readable_stripCarriageReturn : Readable (stripCarriageReturn line) ↔ Readable line := by
  cases hfind : afterFirst marker line with
  | none =>
    have hline := afterFirst_eq_none.mp hfind
    have hstripped : afterFirst marker (stripCarriageReturn line) = none :=
      afterFirst_eq_none.mpr fun h => hline (h.trans (prefix_stripCarriageReturn line).isInfix)
    simp [Readable, hfind, hstripped]
  | some t =>
    obtain ⟨before, rfl, hbefore⟩ := split_of_afterFirst (by decide) hfind
    have hstripped : afterFirst marker (stripCarriageReturn (before ++ marker ++ t)) =
        some (stripCarriageReturn t) := by
      rw [stripCarriageReturn_marker, afterFirst_marker hbefore]
    simp only [Readable, hfind, hstripped, Option.some.injEq, forall_eq',
      trim_stripCarriageReturn]

end Lines

section Extraction

/-- The last marker of a text: the whole lines before its own, and its own line up to it and
after it. -/
structure LastMarker (output : Text) (earlier : List Text) (before tail rest : Text) : Prop where
  eq : output = earlier.flatMap (· ++ ['\n']) ++ (before ++ marker ++ tail ++ rest)
  whole : ∀ line ∈ earlier, '\n' ∉ line
  beforeLine : '\n' ∉ before
  tailLine : '\n' ∉ tail
  ends : rest = [] ∨ ∃ more, rest = '\n' :: more
  last : ¬ marker <:+: tail ++ rest

/-- A text with a marker has a last one. -/
theorem exists_lastMarker (h : marker <:+: output) :
    ∃ earlier before tail rest, LastMarker output earlier before tail rest := by
  obtain ⟨pre, post, rfl, hlast⟩ := exists_last (by decide) h
  obtain ⟨earlier, before, rfl, hearlier, hbefore⟩ := exists_lines pre
  refine ⟨earlier, before, post.takeWhile (· != '\n'), post.dropWhile (· != '\n'), ?_⟩
  constructor
  · simp only [List.append_assoc, List.takeWhile_append_dropWhile]
  · exact hearlier
  · exact hbefore
  · intro hmem
    simpa using List.mem_takeWhile_imp hmem
  · cases hdrop : post.dropWhile (· != '\n') with
    | nil => exact .inl rfl
    | cons c more =>
      have hc := List.head_dropWhile_not (p := (· != '\n')) (l := post) (by simp [hdrop])
      simp only [hdrop, List.head_cons] at hc
      obtain rfl : c = '\n' := by simpa using hc
      exact .inr ⟨more, rfl⟩
  · rwa [List.takeWhile_append_dropWhile]

theorem newline_not_mem_marker : '\n' ∉ marker := by decide

theorem hash_mem_marker : '#' ∈ marker := by decide

/-- The lines of a text with its last marker on one of them. -/
theorem LastMarker.lines (h : LastMarker output earlier before tail rest) :
    ∃ tail' ls, RustText.lines output =
        earlier.map stripCarriageReturn ++ (before ++ marker ++ tail') :: ls ∧
      trim tail' = trim tail ∧ ∀ line ∈ ls, ¬ marker <:+: line := by
  have hline : '\n' ∉ before ++ marker ++ tail := by
    simp [h.beforeLine, h.tailLine, newline_not_mem_marker]
  rw [h.eq, lines_append h.whole]
  rcases h.ends with hrest | ⟨more, hrest⟩
  · refine ⟨tail, [], ?_, rfl, by simp⟩
    have hne : before ++ marker ++ tail ≠ [] := by
      apply List.ne_nil_of_mem
      exact List.mem_append_left _ (List.mem_append_right _ hash_mem_marker)
    rw [hrest, List.append_nil, lines_of_not_mem hline hne]
  · refine ⟨stripCarriageReturn tail, RustText.lines more, ?_, trim_stripCarriageReturn tail, ?_⟩
    · rw [hrest, lines_cons hline, stripCarriageReturn_marker]
    · intro line hmem hmarker
      apply h.last
      have hmore : line <:+: more := infix_of_mem_lines hmem
      have hsuffix : more <:+ tail ++ rest := ⟨tail ++ ['\n'], by simp [hrest]⟩
      exact hmarker.trans (hmore.trans hsuffix.isInfix)

theorem not_parses_marker (t tail : Text) : parseU64 (trim (t ++ marker ++ tail)) = none := by
  have hmem : '#' ∈ trim (t ++ marker ++ tail) := by
    apply mem_trim _ (by decide)
    exact List.mem_append_left _ (List.mem_append_right _ hash_mem_marker)
  generalize trim (t ++ marker ++ tail) = s at hmem
  have hdigits (digits : Text) (h : '#' ∈ digits) : digits.all isDigit = false :=
    List.all_eq_false.mpr ⟨'#', h, by decide⟩
  unfold parseU64
  split
  · rename_i rest
    have hrest : '#' ∈ rest := by simpa using hmem
    simp [hdigits rest hrest]
  · simp [hdigits s hmem]

/-- The last handle of a text is read if and only if nothing before it, on its own line or on an
earlier one, stops the search; without a marker there is no handle. -/
theorem handle_extraction (output : Text) :
    (¬ marker <:+: output → parseNftHandle output = none) ∧
    ∀ earlier before tail rest (n : U64), LastMarker output earlier before tail rest →
      trim tail = Nat.toDigits 10 n.toNat →
      (parseNftHandle output = some n ↔
        ¬ marker <:+: before ∧ ∀ line ∈ earlier, Readable line) := by
  constructor
  · intro h
    apply parseNftHandleFrom_unmarked
    exact fun line hline hmarker => h (hmarker.trans (infix_of_mem_lines hline))
  · intro earlier before tail rest n h htail
    obtain ⟨tail', ls, hlines, htrim, hls⟩ := h.lines
    rw [parseNftHandle, hlines]
    by_cases hread : ∀ line ∈ earlier, Readable line
    · have hstripped : ∀ line ∈ earlier.map stripCarriageReturn, Readable line := by
        intro line hline
        obtain ⟨l, hl, rfl⟩ := List.mem_map.mp hline
        exact readable_stripCarriageReturn.mpr (hread l hl)
      obtain ⟨last, hlast⟩ := parseNftHandleFrom_append hstripped none
        ((before ++ marker ++ tail') :: ls)
      rw [hlast]
      by_cases hbefore : marker <:+: before
      · obtain ⟨t, ht⟩ : ∃ t, afterFirst marker before = some t :=
          Option.ne_none_iff_exists'.mp fun hnone => afterFirst_eq_none.mp hnone hbefore
        obtain ⟨pre, rfl, hpre⟩ := split_of_afterFirst (by decide) ht
        have hfind : afterFirst marker (pre ++ marker ++ t ++ marker ++ tail') =
            some (t ++ marker ++ tail') := by
          rw [← afterFirst_marker hpre]
          simp only [List.append_assoc]
        rw [parseNftHandleFrom_marked hfind, not_parses_marker]
        simp only [Option.bind_none, reduceCtorEq, false_iff, not_and]
        exact fun hnone => absurd hbefore hnone
      · have hn : n.toNat < 2 ^ 64 := n.isLt
        have hparse : parseU64 (trim tail') = some n := by
          rw [htrim, htail, parseU64_toDigits hn, BitVec.ofNat_toNat, BitVec.setWidth_eq]
        rw [parseNftHandleFrom_marked (afterFirst_marker hbefore tail'), hparse, Option.bind_some,
          parseNftHandleFrom_unmarked hls]
        exact ⟨fun _ => ⟨hbefore, hread⟩, fun _ => rfl⟩
    · simp only [not_forall] at hread
      obtain ⟨line, hline, hbad⟩ := hread
      have hmem : stripCarriageReturn line ∈ earlier.map stripCarriageReturn :=
        List.mem_map_of_mem hline
      have hnone := parseNftHandleFrom_of_mem hmem
        (fun hr => hbad (readable_stripCarriageReturn.mp hr)) none
        ((before ++ marker ++ tail') :: ls)
      rw [hnone]
      simp only [reduceCtorEq, false_iff, not_and, not_forall]
      exact fun _ => ⟨line, hline, hbad⟩

theorem handle_extraction_second : parseNftHandle "# handle 7\n\n x # handle 99 \n".toList =
    some 99 := by
  have h : LastMarker "# handle 7\n\n x # handle 99 \n".toList
      ["# handle 7".toList, []] " x ".toList "99 ".toList "\n".toList :=
    ⟨by decide, by decide, by decide, by decide, .inr ⟨[], rfl⟩, by decide⟩
  have hextraction := (handle_extraction "# handle 7\n\n x # handle 99 \n".toList).2
  exact (hextraction _ _ _ _ 99 h (by decide)).mpr ⟨by decide, by decide⟩

/-- A marker with no number behind it hides the handle on a later line. -/
theorem handle_extraction_stopped : ¬ ∀ output earlier before tail rest (n : U64),
    LastMarker output earlier before tail rest → trim tail = Nat.toDigits 10 n.toNat →
      parseNftHandle output = some n := by
  intro h
  have hlast : LastMarker "# handle of the table\nadd rule # handle 99\n".toList
      ["# handle of the table".toList] "add rule ".toList "99".toList "\n".toList :=
    ⟨by decide, by decide, by decide, by decide, .inr ⟨[], rfl⟩, by decide⟩
  have hsome := h _ _ _ _ _ 99 hlast (by decide)
  have hnone : parseNftHandle "# handle of the table\nadd rule # handle 99\n".toList = none := by
    decide
  exact absurd (hnone.symm.trans hsome) (by simp)

end Extraction

end Warlock.NftHandles
