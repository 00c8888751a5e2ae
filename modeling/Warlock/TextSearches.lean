import Warlock.RustText
import Mathlib.Data.List.TakeWhile

/-!
# Searching and trimming texts

What `trim`, `find` and `lines` do to texts that are put together from parts.
-/

namespace Warlock.RustText

section Trimming

variable {c : Char} {s t line : Text}

/-- Only whitespace. -/
def Blank (s : Text) : Prop := ∀ c ∈ s, isWhitespace c = true

theorem blank_nil : Blank [] := by simp [Blank]

theorem trimStart_append_left (h : Blank s) (t : Text) : trimStart (s ++ t) = trimStart t :=
  List.dropWhile_append_of_pos h

theorem trimEnd_append_right (h : Blank t) (s : Text) : trimEnd (s ++ t) = trimEnd s := by
  have hreverse : ∀ c ∈ t.reverse, isWhitespace c = true := fun c hc => h c (List.mem_reverse.mp hc)
  rw [trimEnd, List.reverse_append, List.dropWhile_append_of_pos hreverse]
  rfl

/-- Whitespace around a text does not matter. -/
theorem trim_append (hs : Blank s) (ht : Blank t) (line : Text) :
    trim (s ++ line ++ t) = trim line := by
  rw [trim, List.append_assoc, trimStart_append_left hs, trimStart, List.dropWhile_append]
  split
  · rename_i hempty
    have hline : trimStart line = [] := List.isEmpty_iff.mp hempty
    have hblank : List.dropWhile isWhitespace t = [] := List.dropWhile_eq_nil_iff.mpr ht
    rw [hblank, trim, hline]
  · exact trimEnd_append_right ht _

theorem trim_append_right (ht : Blank t) (line : Text) : trim (line ++ t) = trim line :=
  trim_append blank_nil ht line

theorem trim_stripCarriageReturn (line : Text) : trim (stripCarriageReturn line) = trim line := by
  unfold stripCarriageReturn
  split
  · rename_i rest hr
    have hline : line = rest.reverse ++ ['\r'] := by
      rw [← List.reverse_reverse line, hr, List.reverse_cons]
    have hblank : Blank ['\r'] := by
      intro c hc
      obtain rfl := List.mem_singleton.mp hc
      decide
    rw [hline, trim_append_right hblank]
  · rfl

theorem mem_dropWhile {p : Char → Bool} (h : c ∈ s) (hc : p c = false) : c ∈ s.dropWhile p := by
  rw [← List.takeWhile_append_dropWhile (p := p) (l := s)] at h
  rcases List.mem_append.mp h with h | h
  · simp [List.mem_takeWhile_imp h] at hc
  · exact h

theorem mem_trim (h : c ∈ s) (hc : isWhitespace c = false) : c ∈ trim s := by
  apply List.mem_reverse.mpr
  apply mem_dropWhile _ hc
  exact List.mem_reverse.mpr (mem_dropWhile h hc)

/-- A text that neither starts nor ends with whitespace is left as it is. -/
theorem trim_of_ends {a b : Char} (ha : isWhitespace a = false) (hb : isWhitespace b = false)
    (hline : line.head? = some a) (hend : line.getLast? = some b) : trim line = line := by
  obtain ⟨rest, rfl⟩ : ∃ rest, line = a :: rest := by
    cases line with
    | nil => simp at hline
    | cons c rest =>
      obtain rfl := Option.some.inj hline
      exact ⟨rest, rfl⟩
  have hstart : trimStart (a :: rest) = a :: rest := by simp [trimStart, ha]
  obtain ⟨init, hinit⟩ : ∃ init, a :: rest = init ++ [b] := List.getLast?_eq_some_iff.mp hend
  rw [trim, hstart, hinit]
  simp [trimEnd, hb]

end Trimming

section Searching

variable {pat s t pre tail : Text}

theorem stripPrefix_eq_none : stripPrefix pat s = none ↔ ¬ pat <+: s := by
  rw [Option.eq_none_iff_forall_ne_some]
  constructor
  · rintro h ⟨r, rfl⟩
    exact h r (stripPrefix_eq_some.mpr rfl)
  · intro h r hr
    exact h ⟨r, (stripPrefix_eq_some.mp hr).symm⟩

theorem afterFirst_eq_none : afterFirst pat s = none ↔ ¬ pat <:+: s := by
  induction s with
  | nil =>
    rw [afterFirst, stripPrefix_eq_none]
    simp
  | cons c s ih =>
    rw [List.infix_cons_iff, not_or, ← stripPrefix_eq_none, afterFirst]
    split
    · rename_i rest hr
      simp [hr]
    · rename_i hr
      exact ⟨fun h => ⟨hr, ih.mp h⟩, fun h => ih.mpr h.2⟩

/-- What comes before the text that `afterFirst` finds. -/
theorem split_of_afterFirst (hpat : pat ≠ []) (h : afterFirst pat s = some t) :
    ∃ pre, s = pre ++ pat ++ t ∧ ¬ pat <:+: pre := by
  have hnil : ¬ pat <:+: [] := fun h => hpat (List.infix_nil.mp h)
  induction s with
  | nil =>
    have hr := stripPrefix_eq_some.mp (h : stripPrefix pat [] = some t)
    exact ⟨[], hr, hnil⟩
  | cons c s ih =>
    rw [afterFirst] at h
    split at h
    · rename_i rest hr
      obtain rfl := Option.some.inj h
      exact ⟨[], stripPrefix_eq_some.mp hr, hnil⟩
    · rename_i hr
      obtain ⟨pre, rfl, hfirst⟩ := ih h
      refine ⟨c :: pre, rfl, ?_⟩
      rw [List.infix_cons_iff, not_or]
      refine ⟨fun hstart => stripPrefix_eq_none.mp hr ?_, hfirst⟩
      obtain ⟨r, hr⟩ := hstart
      exact ⟨r ++ pat ++ t, by simp [← List.append_assoc, hr]⟩

/-- Two occurrences of a pattern whose first character does not come again do not overlap. -/
theorem afterFirst_append {p : Char} {ps : Text} (hp : p ∉ ps) (h : ¬ (p :: ps) <:+: pre)
    (tail : Text) : afterFirst (p :: ps) (pre ++ (p :: ps) ++ tail) = some tail := by
  induction pre with
  | nil =>
    have hr : stripPrefix (p :: ps) (p :: (ps ++ tail)) = some tail := stripPrefix_eq_some.mpr rfl
    simp [afterFirst, hr]
  | cons c pre ih =>
    rw [List.infix_cons_iff, not_or] at h
    obtain ⟨hstart, hrest⟩ := h
    have hnone : stripPrefix (p :: ps) (c :: (pre ++ (p :: ps) ++ tail)) = none := by
      rw [Option.eq_none_iff_forall_ne_some]
      intro r hr
      have heq : (c :: pre) ++ ((p :: ps) ++ tail) = (p :: ps) ++ r := by
        simpa using stripPrefix_eq_some.mp hr
      rcases List.append_eq_append_iff.mp heq with ⟨m, hm, htail⟩ | ⟨m, hm, _⟩
      · cases m with
        | nil => exact hstart ⟨[], by simpa using hm⟩
        | cons d m =>
          have hd : d = p := (List.cons.inj htail).1.symm
          have hps : ps = pre ++ d :: m := (List.cons.inj hm).2
          exact hp (by simp [hps, hd])
      · exact hstart ⟨m, hm.symm⟩
    have hcons : c :: pre ++ (p :: ps) ++ tail = c :: (pre ++ (p :: ps) ++ tail) := rfl
    rw [hcons, afterFirst, hnone]
    exact ih hrest

/-- Where a pattern occurs, it occurs for the last time. -/
theorem exists_last (hpat : pat ≠ []) (h : pat <:+: s) :
    ∃ pre tail, s = pre ++ pat ++ tail ∧ ¬ pat <:+: tail := by
  obtain ⟨pre, tail, hs⟩ := h
  induction hn : tail.length using Nat.strong_induction_on generalizing pre tail with
  | _ n ih =>
    by_cases hmore : pat <:+: tail
    · obtain ⟨pre', tail', rfl⟩ := hmore
      have hlt : tail'.length < n := by
        have hpos := List.length_pos_iff.mpr hpat
        simp only [List.length_append] at hn
        omega
      apply ih _ hlt (pre ++ pat ++ pre') tail' _ rfl
      simpa using hs
    · exact ⟨pre, tail, hs.symm, hmore⟩

end Searching

section Lines

variable {s t line : Text} {ls : List Text}

theorem linesFrom_of_not_mem (h : '\n' ∉ s) (current : Text) :
    linesFrom current s = if current = [] ∧ s = [] then [] else [current.reverse ++ s] := by
  induction s generalizing current with
  | nil => cases current <;> simp [linesFrom]
  | cons c s ih =>
    obtain ⟨hc, hs⟩ : c ≠ '\n' ∧ '\n' ∉ s := by
      simpa [eq_comm] using h
    rw [linesFrom, if_neg hc, ih hs]
    simp

/-- A last line that is not terminated. -/
theorem lines_of_not_mem (h : '\n' ∉ s) (hne : s ≠ []) : lines s = [s] := by
  rw [lines, linesFrom_of_not_mem h]
  simp [hne]

theorem lines_cons (h : '\n' ∉ line) (s : Text) :
    lines (line ++ '\n' :: s) = stripCarriageReturn line :: lines s := by
  have hline : ∀ c ∈ line, c ≠ '\n' := fun c hc he => h (he ▸ hc)
  rw [lines, linesFrom_append hline]
  rfl

/-- Lines that are terminated, before the rest of a text. -/
theorem lines_append (h : ∀ line ∈ ls, '\n' ∉ line) (s : Text) :
    lines (ls.flatMap (· ++ ['\n']) ++ s) = ls.map stripCarriageReturn ++ lines s := by
  induction ls with
  | nil => rfl
  | cons line ls ih =>
    have hrest := ih fun l hl => h l (.tail _ hl)
    have hcons : (line :: ls).flatMap (· ++ ['\n']) ++ s =
        line ++ '\n' :: (ls.flatMap (· ++ ['\n']) ++ s) := by simp
    rw [hcons, lines_cons (h line (.head _)), hrest]
    rfl

/-- The terminated lines of a text, and what comes after them. -/
theorem exists_lines (s : Text) : ∃ (ls : List Text) (rest : Text),
    s = ls.flatMap (· ++ ['\n']) ++ rest ∧ (∀ line ∈ ls, '\n' ∉ line) ∧ '\n' ∉ rest := by
  induction s with
  | nil => exact ⟨[], [], rfl, by simp, by simp⟩
  | cons c s ih =>
    obtain ⟨ls, rest, rfl, hls, hrest⟩ := ih
    by_cases hc : c = '\n'
    · subst hc
      exact ⟨[] :: ls, rest, by simp, by simpa using hls, hrest⟩
    · cases ls with
      | nil =>
        refine ⟨[], c :: rest, by simp, by simp, ?_⟩
        simpa [eq_comm, hc] using hrest
      | cons line ls =>
        refine ⟨(c :: line) :: ls, rest, by simp, fun l hl => ?_, hrest⟩
        rcases List.mem_cons.mp hl with rfl | hl
        · simpa [eq_comm, hc] using hls line (.head _)
        · exact hls l (.tail _ hl)

theorem prefix_stripCarriageReturn (line : Text) : stripCarriageReturn line <+: line := by
  unfold stripCarriageReturn
  split
  · rename_i rest hr
    refine ⟨['\r'], ?_⟩
    rw [← List.reverse_reverse line, hr, List.reverse_cons]
  · exact List.prefix_rfl

/-- A line is part of its text. -/
theorem infix_of_mem_lines (h : line ∈ lines s) : line <:+: s := by
  obtain ⟨ls, rest, rfl, hls, hrest⟩ := exists_lines s
  rw [lines_append hls] at h
  rcases List.mem_append.mp h with h | h
  · obtain ⟨l, hl, rfl⟩ := List.mem_map.mp h
    have hpart : l <:+: ls.flatMap (· ++ ['\n']) := by
      obtain ⟨before, after, rfl⟩ := List.append_of_mem hl
      refine ⟨before.flatMap (· ++ ['\n']), '\n' :: after.flatMap (· ++ ['\n']), ?_⟩
      simp
    have hwhole := hpart.trans (List.prefix_append _ rest).isInfix
    exact (prefix_stripCarriageReturn l).isInfix.trans hwhole
  · by_cases hne : rest = []
    · subst hne
      simp [lines, linesFrom] at h
    · rw [lines_of_not_mem hrest hne] at h
      obtain rfl := List.mem_singleton.mp h
      exact (List.suffix_append _ _).isInfix

/-- Dropping the `\r` leaves alone what comes before it. -/
theorem stripCarriageReturn_append {c : Char} (hc : c ≠ '\r') (s t : Text) :
    stripCarriageReturn (s ++ c :: t) = s ++ c :: stripCarriageReturn t := by
  cases ht : t.reverse with
  | nil =>
    obtain rfl := List.reverse_eq_nil_iff.mp ht
    have hkeep : stripCarriageReturn [] = [] := rfl
    rw [hkeep]
    unfold stripCarriageReturn
    split
    · rename_i rest hr
      have hlast : c = '\r' := by simpa using congrArg List.head? hr
      exact absurd hlast hc
    · rfl
  | cons d rest =>
    have hwhole : (s ++ c :: t).reverse = d :: (rest ++ c :: s.reverse) := by simp [ht]
    have htail : t = rest.reverse ++ [d] := by
      rw [← List.reverse_reverse t, ht, List.reverse_cons]
    unfold stripCarriageReturn
    rw [hwhole, ht]
    by_cases hd : d = '\r'
    · subst hd
      simp
    · simp [hd]

end Lines

end Warlock.RustText
