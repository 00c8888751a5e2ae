import Warlock.TextSearches

/-!
# The fields of a text

`split_whitespace` cuts a text into its words. Each word stands in the text between whitespace
or at an end of it, and whoever knows the words around it knows where.
-/

namespace Warlock.RustText

variable {s t before rest w : Text} {us vs : List Text} {c : Char}

/-- A field of a text. -/
structure Word (w : Text) : Prop where
  nonempty : w ≠ []
  solid : ∀ c ∈ w, isWhitespace c = false

/-- The text ends with whitespace, if it is not empty. -/
def Closed (s : Text) : Prop := ∀ c, s.getLast? = some c → isWhitespace c = true

/-- The text begins with whitespace, if it is not empty. -/
def Apart (s : Text) : Prop := ∀ c, s.head? = some c → isWhitespace c = true

/-- The word stands between two parts of the text, which do not run on into it. -/
structure Cuts (s before w rest : Text) : Prop where
  text : s = before ++ w ++ rest
  closed : Closed before
  field : Word w
  apart : Apart rest

theorem fieldsFrom_break (hc : isWhitespace c = true) (current s t : Text) :
    fieldsFrom current (s ++ c :: t) = fieldsFrom current s ++ splitWhitespace t := by
  induction s generalizing current with
  | nil => cases current <;> simp [fieldsFrom, hc, splitWhitespace]
  | cons d s ih =>
    rw [List.cons_append, fieldsFrom, fieldsFrom]
    split
    · split
      · exact ih []
      · rw [ih [], List.cons_append]
    · exact ih (d :: current)

/-- A text is cut wherever there is whitespace. -/
theorem splitWhitespace_break (hc : isWhitespace c = true) (s t : Text) :
    splitWhitespace (s ++ c :: t) = splitWhitespace s ++ splitWhitespace t :=
  fieldsFrom_break hc [] s t

theorem splitWhitespace_closed (h : Closed s) (t : Text) :
    splitWhitespace (s ++ t) = splitWhitespace s ++ splitWhitespace t := by
  rcases List.eq_nil_or_concat s with rfl | ⟨s, c, rfl⟩
  · rfl
  · have hc : isWhitespace c = true := h c (by simp)
    have hend : splitWhitespace [] = [] := rfl
    rw [List.concat_eq_append, List.append_assoc, List.singleton_append,
      splitWhitespace_break hc, splitWhitespace_break hc, hend, List.append_nil]

theorem splitWhitespace_blank (h : Blank s) (t : Text) :
    splitWhitespace (s ++ t) = splitWhitespace t := by
  induction s with
  | nil => rfl
  | cons c s ih =>
    obtain ⟨hc, hs⟩ := List.forall_mem_cons.mp h
    rw [List.cons_append, splitWhitespace_of_space hc, ih hs]

theorem Word.split (hw : Word w) (h : Apart rest) :
    splitWhitespace (w ++ rest) = w :: splitWhitespace rest := by
  cases rest with
  | nil =>
    rw [List.append_nil, splitWhitespace_word hw.solid hw.nonempty]
    rfl
  | cons c rest =>
    have hc : isWhitespace c = true := h c rfl
    rw [splitWhitespace_append hw.solid hw.nonempty hc, splitWhitespace_of_space hc]

theorem Cuts.split (h : Cuts s before w rest) :
    splitWhitespace s = splitWhitespace before ++ w :: splitWhitespace rest := by
  rw [h.text, List.append_assoc, splitWhitespace_closed h.closed, h.field.split h.apart]

theorem Cuts.blank (h : Cuts s before w rest) (ht : Blank t) :
    Cuts (t ++ s) (t ++ before) w rest where
  text := by simp [h.text]
  closed c hc := by
    rw [List.getLast?_append] at hc
    cases hlast : before.getLast? with
    | some d => exact h.closed c (by simpa [hlast] using hc)
    | none =>
      simp only [hlast, Option.none_or] at hc
      exact ht c (List.mem_of_getLast? hc)
  field := h.field
  apart := h.apart

/-- A text that begins with a word. -/
theorem exists_word (hc : isWhitespace c = false) (s : Text) :
    ∃ w rest, c :: s = w ++ rest ∧ Word w ∧ Apart rest := by
  refine ⟨c :: s.takeWhile (!isWhitespace ·), s.dropWhile (!isWhitespace ·), ?_, ⟨by simp, ?_⟩, ?_⟩
  · rw [List.cons_append, List.takeWhile_append_dropWhile]
  · intro d hd
    rcases List.mem_cons.mp hd with rfl | hd
    · exact hc
    · simpa using List.mem_takeWhile_imp hd
  · intro d hd
    have hhead := List.head?_dropWhile_not (!isWhitespace ·) s
    rw [hd] at hhead
    simpa using hhead

/-- Where the first field is. -/
theorem exists_first (h : splitWhitespace s = w :: vs) :
    ∃ before rest, Blank before ∧ Cuts s before w rest ∧ splitWhitespace rest = vs := by
  induction s with
  | nil => simp [splitWhitespace, fieldsFrom] at h
  | cons c s ih =>
    cases hc : isWhitespace c with
    | true =>
      rw [splitWhitespace_of_space hc] at h
      obtain ⟨before, rest, hblank, hcuts, hrest⟩ := ih h
      have hspace : Blank [c] := by simpa [Blank] using hc
      refine ⟨[c] ++ before, rest, ?_, hcuts.blank hspace, hrest⟩
      intro d hd
      rcases List.mem_append.mp hd with hd | hd
      · exact hspace d hd
      · exact hblank d hd
    | false =>
      obtain ⟨w', rest, htext, hw, hrest⟩ := exists_word hc s
      rw [htext, hw.split hrest] at h
      obtain ⟨rfl, rfl⟩ := List.cons.inj h
      exact ⟨[], rest, blank_nil, ⟨htext, by simp [Closed], hw, hrest⟩, rfl⟩

/-- Before a word in a text that begins with whitespace there is whitespace. -/
theorem Cuts.gap (h : Cuts s before w rest) (hs : Apart s) : before ≠ [] ∧ Apart before := by
  cases before with
  | nil =>
    obtain ⟨c, w', rfl⟩ := List.exists_cons_of_ne_nil h.field.nonempty
    have hc : isWhitespace c = true := hs c (by simp [h.text])
    simp [h.field.solid c (.head _)] at hc
  | cons c before =>
    refine ⟨by simp, fun d hd => hs d ?_⟩
    rw [h.text]
    exact hd

/-- A word after the words `us` stands where the text before it has these words. -/
theorem splitWhitespace_eq_append_cons : splitWhitespace s = us ++ w :: vs ↔
    ∃ before rest, Cuts s before w rest ∧ splitWhitespace before = us ∧
      splitWhitespace rest = vs := by
  constructor
  · intro h
    induction us generalizing s with
    | nil =>
      obtain ⟨before, rest, hblank, hcuts, hrest⟩ := exists_first h
      have hbefore := splitWhitespace_blank hblank []
      rw [List.append_nil] at hbefore
      exact ⟨before, rest, hcuts, hbefore, hrest⟩
    | cons u us ih =>
      obtain ⟨gap, text, hblank, hcuts, htext⟩ := exists_first h
      obtain ⟨before, rest, hlater, hus, hvs⟩ := ih htext
      obtain ⟨hne, hapart⟩ := hlater.gap hcuts.apart
      refine ⟨gap ++ u ++ before, rest, ⟨?_, ?_, hlater.field, hlater.apart⟩, ?_, hvs⟩
      · simp [hcuts.text, hlater.text]
      · intro c hc
        rw [List.getLast?_append_of_ne_nil _ hne] at hc
        exact hlater.closed c hc
      · rw [List.append_assoc, splitWhitespace_blank hblank, hcuts.field.split hapart, hus]
  · rintro ⟨before, rest, hcuts, rfl, rfl⟩
    exact hcuts.split

end Warlock.RustText
