import Mathlib.Data.List.Basic
import Mathlib.Data.Nat.Digits.Lemmas

/-!
# The text operations of the Rust standard library

Texts are processed as lists of Unicode scalar values. Each operation follows the
documented behaviour of the `str` method it is named after.
-/

namespace Warlock.RustText

abbrev Text := List Char

/-- `char::is_whitespace`: the Unicode property `White_Space`. -/
def isWhitespace (c : Char) : Bool :=
  let n := c.toNat
  (9 ≤ n && n ≤ 13) || n == 0x20 || n == 0x85 || n == 0xA0 || n == 0x1680 ||
    (0x2000 ≤ n && n ≤ 0x200A) || n == 0x2028 || n == 0x2029 || n == 0x202F ||
    n == 0x205F || n == 0x3000

def trimStart (s : Text) : Text := s.dropWhile isWhitespace

def trimEnd (s : Text) : Text := (s.reverse.dropWhile isWhitespace).reverse

def trim (s : Text) : Text := trimEnd (trimStart s)

/-- The maximal runs of non-whitespace; `current` holds the open run, reversed. -/
def fieldsFrom (current : Text) : Text → List Text
  | [] => if current.isEmpty then [] else [current.reverse]
  | c :: cs =>
    if isWhitespace c then
      if current.isEmpty then fieldsFrom [] cs else current.reverse :: fieldsFrom [] cs
    else fieldsFrom (c :: current) cs

def splitWhitespace (s : Text) : List Text := fieldsFrom [] s

/-- `strip_prefix`. -/
def stripPrefix : Text → Text → Option Text
  | [], s => some s
  | _ :: _, [] => none
  | p :: ps, c :: cs => if p = c then stripPrefix ps cs else none

def startsWith (p s : Text) : Bool := (stripPrefix p s).isSome

def endsWith (p s : Text) : Bool := startsWith p.reverse s.reverse

/-- `trim_end_matches` with one character. -/
def trimEndMatches (c : Char) (s : Text) : Text := (s.reverse.dropWhile (· == c)).reverse

/-- `rsplitn(2, c)`: the text before the last `c` and the text after it. -/
def splitAtLast (c : Char) (s : Text) : Option (Text × Text) :=
  match s.reverse.span (· != c) with
  | (_, []) => none
  | (after, _ :: before) => some (before.reverse, after.reverse)

/-- `Path::extension` of a file name. -/
def extension (fileName : Text) : Option Text :=
  if fileName = "..".toList then none
  else match splitAtLast '.' fileName with
    | none => none
    | some (before, after) => if before.isEmpty then none else some after

/-- The text after the first occurrence of a pattern (`find` and the slice behind it). -/
def afterFirst (pat : Text) : Text → Option Text
  | [] => stripPrefix pat []
  | c :: cs => match stripPrefix pat (c :: cs) with
    | some rest => some rest
    | none => afterFirst pat cs

def stripCarriageReturn (line : Text) : Text :=
  match line.reverse with
  | '\r' :: rest => rest.reverse
  | _ => line

/-- `str::lines`: a line loses its `\n` and then one `\r` before it. -/
def linesFrom (current : Text) : Text → List Text
  | [] => if current.isEmpty then [] else [current.reverse]
  | c :: cs =>
    if c = '\n' then stripCarriageReturn current.reverse :: linesFrom [] cs
    else linesFrom (c :: current) cs

def lines (s : Text) : List Text := linesFrom [] s

def isDigit (c : Char) : Bool := '0'.toNat ≤ c.toNat && c.toNat ≤ '9'.toNat

/-- `str::parse::<u64>`: an optional `+`, at least one digit, no overflow. -/
def parseU64 (s : Text) : Option (BitVec 64) :=
  let digits := match s with
    | '+' :: rest => rest
    | _ => s
  if digits.isEmpty || !digits.all isDigit then none
  else
    let n := Nat.ofDigitChars 10 digits 0
    if n < 2 ^ 64 then some (BitVec.ofNat 64 n) else none

theorem stripPrefix_eq_some {p s r : Text} : stripPrefix p s = some r ↔ s = p ++ r := by
  induction p generalizing s with
  | nil => simp [stripPrefix, eq_comm]
  | cons c p ih =>
    cases s with
    | nil => simp [stripPrefix]
    | cons d s =>
      by_cases h : c = d
      · simp [stripPrefix, h, ih]
      · simp [stripPrefix, h, Ne.symm h]

@[simp] theorem startsWith_append (p r : Text) : startsWith p (p ++ r) = true := by
  simp [startsWith, stripPrefix_eq_some.mpr]

@[simp] theorem endsWith_append (p r : Text) : endsWith p (r ++ p) = true := by
  simp [endsWith]

theorem toString_nat_injective {m n : ℕ} (h : toString m = toString n) : m = n := by
  have h := congrArg String.toList h
  simp only [Nat.toString_eq_repr, Nat.toList_repr] at h
  simpa using congrArg (fun l => Nat.ofDigitChars 10 l 0) h

theorem isDigit_of_mem_toDigits {c : Char} {n : ℕ} (h : c ∈ Nat.toDigits 10 n) :
    isDigit c = true := by
  have hd := Nat.isDigit_of_mem_toDigits (by omega) (by omega) h
  simp only [Char.isDigit, Bool.and_eq_true, decide_eq_true_eq, ge_iff_le] at hd
  simp only [isDigit, Bool.and_eq_true, decide_eq_true_eq]
  exact hd

theorem isWhitespace_of_isDigit {c : Char} (h : isDigit c = true) : isWhitespace c = false := by
  simp only [isDigit, Bool.and_eq_true, decide_eq_true_eq] at h
  have h0 : '0'.toNat = 48 := rfl
  have h9 : '9'.toNat = 57 := rfl
  simp only [isWhitespace, Bool.or_eq_false_iff, Bool.and_eq_false_iff, decide_eq_false_iff_not,
    beq_eq_false_iff_ne]
  omega

theorem parseU64_toDigits {n : ℕ} (h : n < 2 ^ 64) :
    parseU64 (Nat.toDigits 10 n) = some (BitVec.ofNat 64 n) := by
  have hdigits (c : Char) (hc : c ∈ Nat.toDigits 10 n) : isDigit c = true :=
    isDigit_of_mem_toDigits hc
  have hplus (rest : Text) : Nat.toDigits 10 n ≠ '+' :: rest := by
    intro he
    exact absurd (hdigits '+' (by simp [he])) (by decide)
  have hall : (Nat.toDigits 10 n).all isDigit = true := List.all_eq_true.mpr hdigits
  have hne : (Nat.toDigits 10 n).isEmpty = false := by simp
  simp only [parseU64, hall, hne, Bool.not_true, Bool.or_self, Bool.false_eq_true,
    if_false, Nat.ofDigitChars_toDigits (by omega : 1 < 10) (le_refl 10), if_pos h]

section Lines

theorem linesFrom_append {line : Text} (h : ∀ c ∈ line, c ≠ '\n') (current s : Text) :
    linesFrom current (line ++ '\n' :: s) =
      stripCarriageReturn (current.reverse ++ line) :: linesFrom [] s := by
  induction line generalizing current with
  | nil => simp [linesFrom]
  | cons c line ih =>
    have hc : c ≠ '\n' := h c (.head _)
    rw [List.cons_append, linesFrom, if_neg hc, ih (fun d hd => h d (.tail _ hd))]
    simp

theorem stripCarriageReturn_of_not_mem {line : Text} (h : '\r' ∉ line) :
    stripCarriageReturn line = line := by
  unfold stripCarriageReturn
  split
  · rename_i rest hr
    have hmem : '\r' ∈ line.reverse := by simp [hr]
    exact absurd (List.mem_reverse.mp hmem) h
  · rfl

/-- The lines of a text that was printed line by line. -/
theorem lines_flatMap {ls : List Text} (h : ∀ l ∈ ls, '\n' ∉ l ∧ '\r' ∉ l) :
    lines (ls.flatMap (· ++ ['\n'])) = ls := by
  induction ls with
  | nil => rfl
  | cons l ls ih =>
    obtain ⟨hn, hr⟩ := h l (.head _)
    have hline : ∀ c ∈ l, c ≠ '\n' := fun c hc he => hn (he ▸ hc)
    have hrest := ih fun l' hl' => h l' (.tail _ hl')
    rw [List.flatMap_cons, List.append_assoc, lines, List.singleton_append, linesFrom_append hline,
      List.reverse_nil, List.nil_append, stripCarriageReturn_of_not_mem hr]
    exact congrArg _ hrest

end Lines

section Fields

theorem fieldsFrom_append {w : Text} (hw : ∀ c ∈ w, isWhitespace c = false) (current s : Text) :
    fieldsFrom current (w ++ s) = fieldsFrom (w.reverse ++ current) s := by
  induction w generalizing current with
  | nil => rfl
  | cons c w ih =>
    have hc := hw c (by simp)
    rw [List.cons_append, fieldsFrom, hc]
    simp only [Bool.false_eq_true, if_false, List.reverse_cons, List.append_assoc,
      List.singleton_append]
    exact ih (fun d hd => hw d (by simp [hd])) (c :: current)

theorem splitWhitespace_of_space {c : Char} (hc : isWhitespace c = true) (s : Text) :
    splitWhitespace (c :: s) = splitWhitespace s := by
  simp [splitWhitespace, fieldsFrom, hc]

theorem splitWhitespace_word {w : Text} (hw : ∀ c ∈ w, isWhitespace c = false) (hne : w ≠ []) :
    splitWhitespace w = [w] := by
  have h := fieldsFrom_append hw [] []
  rw [List.append_nil, List.append_nil] at h
  rw [splitWhitespace, h]
  simp [fieldsFrom, hne]

/-- The first field ends at the first whitespace. -/
theorem splitWhitespace_append {w : Text} (hw : ∀ c ∈ w, isWhitespace c = false) (hne : w ≠ [])
    {c : Char} (hc : isWhitespace c = true) (s : Text) :
    splitWhitespace (w ++ c :: s) = w :: splitWhitespace s := by
  rw [splitWhitespace, fieldsFrom_append hw, List.append_nil, fieldsFrom, hc]
  simp [splitWhitespace, hne]

end Fields

end Warlock.RustText
