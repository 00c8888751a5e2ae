import Warlock.RustText

/-!
# Authorized keys

A VM carries lines in the `authorized_keys` format. A key is authorized by a line whose
second field decodes to an equal key; blank lines, comments and lines that do not decode
are skipped. The base64 decoding of a key belongs to an external library and is a parameter.
-/

namespace Warlock.AuthorizedKeys
open RustText

inductive PublicKey
  | ed25519 (key : List UInt8)
  | rsa (key : List UInt8) (hash : String)
  | ec (key : List UInt8)
  deriving DecidableEq

/-- Same algorithm and same key material. -/
def keysEqual : PublicKey → PublicKey → Bool
  | .ed25519 a, .ed25519 b => a == b
  | .rsa a _, .rsa b _ => a == b
  | .ec a, .ec b => a == b
  | _, _ => false

variable (parsePublicKeyBase64 : Text → Option PublicKey) (key : PublicKey)

def scanAuthorizedKeys : List String → Except String Bool
  | [] => .ok false
  | authorizedKey :: rest =>
    let authorizedKey := trim authorizedKey.toList
    if authorizedKey.isEmpty || authorizedKey.head? == some '#' then scanAuthorizedKeys rest
    else match splitWhitespace authorizedKey with
      | _ :: base64Data :: _ => match parsePublicKeyBase64 base64Data with
        | some authKey => if keysEqual key authKey then .ok true else scanAuthorizedKeys rest
        | none => scanAuthorizedKeys rest
      | _ => scanAuthorizedKeys rest

/-- Whether one of the lines authorizes the key. -/
def isKeyAuthorized (authorizedKeys : List String) : Except String Bool :=
  if authorizedKeys.isEmpty then .ok false
  else scanAuthorizedKeys parsePublicKeyBase64 key authorizedKeys

/-- A line that is no comment and whose second field decodes to an equal key. -/
def Authorizes (line : String) : Prop :=
  ∃ type base64Data comment authKey,
    splitWhitespace (trim line.toList) = type :: base64Data :: comment ∧
      (trim line.toList).head? ≠ some '#' ∧ parsePublicKeyBase64 base64Data = some authKey ∧
      keysEqual key authKey = true

variable {parsePublicKeyBase64 key}

/-- A line either ends the scan or is of no account. -/
theorem scanAuthorizedKeys_cons (line : String) (rest : List String) :
    Authorizes parsePublicKeyBase64 key line ∧
        scanAuthorizedKeys parsePublicKeyBase64 key (line :: rest) = .ok true ∨
      ¬ Authorizes parsePublicKeyBase64 key line ∧
        scanAuthorizedKeys parsePublicKeyBase64 key (line :: rest) =
          scanAuthorizedKeys parsePublicKeyBase64 key rest := by
  simp only [scanAuthorizedKeys]
  split
  · rename_i hskip
    refine .inr ⟨?_, rfl⟩
    rintro ⟨type, base64Data, comment, authKey, hfields, hhead, _, _⟩
    simp only [Bool.or_eq_true, List.isEmpty_iff, beq_iff_eq] at hskip
    rcases hskip with hempty | hcomment
    · simp [hempty, splitWhitespace, fieldsFrom] at hfields
    · exact hhead hcomment
  · rename_i hskip
    simp only [Bool.or_eq_true, not_or, beq_iff_eq] at hskip
    split
    · rename_i type base64Data comment hfields
      have hdata {type' base64Data' : Text} {comment' : List Text}
          (h : splitWhitespace (trim line.toList) = type' :: base64Data' :: comment') :
          base64Data' = base64Data := by
        rw [hfields] at h
        simp only [List.cons.injEq] at h
        exact h.2.1.symm
      split
      · rename_i authKey hparse
        split
        · rename_i hkey
          exact .inl ⟨⟨type, base64Data, comment, authKey, hfields, hskip.2, hparse, hkey⟩, rfl⟩
        · rename_i hkey
          refine .inr ⟨?_, rfl⟩
          rintro ⟨type', base64Data', comment', authKey', hfields', _, hparse', hkey'⟩
          obtain rfl := hdata hfields'
          obtain rfl := Option.some.inj (hparse.symm.trans hparse')
          exact hkey hkey'
      · rename_i hparse
        refine .inr ⟨?_, rfl⟩
        rintro ⟨type', base64Data', comment', authKey', hfields', _, hparse', _⟩
        obtain rfl := hdata hfields'
        simp [hparse] at hparse'
    · rename_i hfields
      refine .inr ⟨?_, rfl⟩
      rintro ⟨type, base64Data, comment, authKey, hfields', _, _, _⟩
      exact hfields type base64Data comment hfields'

/-- The scan ends without an error, and finds a line that authorizes the key if there is one. -/
theorem scanAuthorizedKeys_eq (lines : List String) :
    ∃ b, scanAuthorizedKeys parsePublicKeyBase64 key lines = .ok b ∧
      (b = true ↔ ∃ line ∈ lines, Authorizes parsePublicKeyBase64 key line) := by
  induction lines with
  | nil => exact ⟨false, rfl, by simp⟩
  | cons line rest ih =>
    rcases scanAuthorizedKeys_cons line rest with ⟨hline, hscan⟩ | ⟨hline, hscan⟩
    · exact ⟨true, hscan, by simp [hline]⟩
    · obtain ⟨b, hrest, hb⟩ := ih
      refine ⟨b, hscan.trans hrest, hb.trans ?_⟩
      simp [hline]

theorem isKeyAuthorized_eq_scan (lines : List String) :
    isKeyAuthorized parsePublicKeyBase64 key lines =
      scanAuthorizedKeys parsePublicKeyBase64 key lines := by
  cases lines <;> rfl

theorem isKeyAuthorized_iff {lines : List String} :
    isKeyAuthorized parsePublicKeyBase64 key lines = .ok true ↔
      ∃ line ∈ lines, Authorizes parsePublicKeyBase64 key line := by
  obtain ⟨b, hscan, hb⟩ : ∃ b, scanAuthorizedKeys parsePublicKeyBase64 key lines = .ok b ∧
      (b = true ↔ ∃ line ∈ lines, Authorizes parsePublicKeyBase64 key line) :=
    scanAuthorizedKeys_eq lines
  rw [isKeyAuthorized_eq_scan, hscan, ← hb]
  simp

theorem isKeyAuthorized_sound {lines : List String}
    (h : isKeyAuthorized parsePublicKeyBase64 key lines = .ok true) :
    ∃ line ∈ lines, Authorizes parsePublicKeyBase64 key line := isKeyAuthorized_iff.mp h

section Matching

inductive Algorithm
  | ed25519
  | rsa
  | ec
  deriving DecidableEq

@[simp] def PublicKey.algorithm : PublicKey → Algorithm
  | .ed25519 _ => .ed25519
  | .rsa _ _ => .rsa
  | .ec _ => .ec

/-- The key without the hash setting of an RSA key. -/
@[simp] def PublicKey.material : PublicKey → List UInt8
  | .ed25519 key | .rsa key _ | .ec key => key

theorem keysEqual_iff {a b : PublicKey} :
    keysEqual a b = true ↔ a.algorithm = b.algorithm ∧ a.material = b.material := by
  cases a <;> cases b <;> simp [keysEqual]

variable (parsePublicKeyBase64 key)

/-- The second field of a line decodes to a key that satisfies a condition. -/
def Decodes (P : PublicKey → Prop) (line : String) : Prop :=
  trim line.toList ≠ [] ∧ startsWith "#".toList (trim line.toList) = false ∧
    2 ≤ (splitWhitespace (trim line.toList)).length ∧
    ∃ base64Data authKey, (splitWhitespace (trim line.toList))[1]? = some base64Data ∧
      parsePublicKeyBase64 base64Data = some authKey ∧ P authKey

/-- What a line of the list must be like to let the key in. -/
def Matches : String → Prop :=
  Decodes parsePublicKeyBase64 fun authKey =>
    key.algorithm = authKey.algorithm ∧ key.material = authKey.material

/-- A comment, a blank line or a malformed one. -/
def Skipped (line : String) : Prop := ¬ Decodes parsePublicKeyBase64 (fun _ => True) line

variable {parsePublicKeyBase64 key}

theorem startsWith_hash {s : Text} : startsWith "#".toList s = false ↔ s.head? ≠ some '#' := by
  cases s with
  | nil => simp [startsWith, stripPrefix]
  | cons c s =>
    by_cases h : '#' = c
    · simp [startsWith, stripPrefix, ← h]
    · simp [startsWith, stripPrefix, h, Ne.symm h]

theorem matches_iff {line : String} : Matches parsePublicKeyBase64 key line ↔
    Authorizes parsePublicKeyBase64 key line := by
  constructor
  · rintro ⟨_, hcomment, hlength, base64Data, authKey, hdata, hparse, hkey⟩
    obtain ⟨type, data, comment, hfields⟩ : ∃ type data comment,
        splitWhitespace (trim line.toList) = type :: data :: comment := by
      generalize splitWhitespace (trim line.toList) = fields at hlength
      match fields, hlength with
      | type :: data :: comment, _ => exact ⟨type, data, comment, rfl⟩
    obtain rfl : data = base64Data := by simpa [hfields] using hdata
    exact ⟨type, data, comment, authKey, hfields, startsWith_hash.mp hcomment, hparse,
      keysEqual_iff.mpr hkey⟩
  · rintro ⟨type, base64Data, comment, authKey, hfields, hhead, hparse, hkey⟩
    refine ⟨?_, startsWith_hash.mpr hhead, by simp [hfields], base64Data, authKey,
      by simp [hfields], hparse, keysEqual_iff.mp hkey⟩
    intro hempty
    simp [hempty, splitWhitespace, fieldsFrom] at hfields

theorem not_skipped {line : String} (h : Matches parsePublicKeyBase64 key line) :
    ¬ Skipped parsePublicKeyBase64 line := by
  obtain ⟨hempty, hcomment, hlength, base64Data, authKey, hdata, hparse, _⟩ := h
  exact not_not.mpr ⟨hempty, hcomment, hlength, base64Data, authKey, hdata, hparse, trivial⟩

theorem isKeyAuthorized_iff_matches {lines : List String} :
    isKeyAuthorized parsePublicKeyBase64 key lines = .ok true ↔
      ∃ line ∈ lines, Matches parsePublicKeyBase64 key line := by
  simp only [matches_iff]
  exact isKeyAuthorized_iff

theorem isKeyAuthorized_total (lines : List String) :
    ∃ b, isKeyAuthorized parsePublicKeyBase64 key lines = .ok b := by
  obtain ⟨b, hscan, _⟩ := scanAuthorizedKeys_eq lines
  exact ⟨b, (isKeyAuthorized_eq_scan lines).trans hscan⟩

/-- Two answers that are yes for the same reason are the same answer. -/
theorem isKeyAuthorized_congr {lines lines' : List String}
    (h : (∃ line ∈ lines, Matches parsePublicKeyBase64 key line) ↔
      ∃ line ∈ lines', Matches parsePublicKeyBase64 key line) :
    isKeyAuthorized parsePublicKeyBase64 key lines =
      isKeyAuthorized parsePublicKeyBase64 key lines' := by
  obtain ⟨b, hb⟩ : ∃ b, isKeyAuthorized parsePublicKeyBase64 key lines = .ok b :=
    isKeyAuthorized_total lines
  obtain ⟨b', hb'⟩ : ∃ b, isKeyAuthorized parsePublicKeyBase64 key lines' = .ok b :=
    isKeyAuthorized_total lines'
  rw [← isKeyAuthorized_iff_matches, ← isKeyAuthorized_iff_matches, hb, hb'] at h
  rw [hb, hb']
  cases b <;> cases b' <;> simp_all

/-- The answer is about the lines that are not skipped, and about the set of them only. -/
theorem authorized_key_matching (parsePublicKeyBase64 : Text → Option PublicKey)
    (key : PublicKey) :
    (∀ lines, ∃ b, isKeyAuthorized parsePublicKeyBase64 key lines = .ok b) ∧
    (∀ lines, isKeyAuthorized parsePublicKeyBase64 key lines = .ok true ↔
      ∃ line ∈ lines, Matches parsePublicKeyBase64 key line) ∧
    (∀ lines lines', lines.Perm lines' → isKeyAuthorized parsePublicKeyBase64 key lines =
      isKeyAuthorized parsePublicKeyBase64 key lines') ∧
    (∀ lines lines', (∀ line, ¬ Skipped parsePublicKeyBase64 line →
        (line ∈ lines ↔ line ∈ lines')) →
      isKeyAuthorized parsePublicKeyBase64 key lines =
        isKeyAuthorized parsePublicKeyBase64 key lines') ∧
    ∀ lines lines', lines ⊆ lines' → isKeyAuthorized parsePublicKeyBase64 key lines = .ok true →
      isKeyAuthorized parsePublicKeyBase64 key lines' = .ok true := by
  have hset (lines lines' : List String) (h : ∀ line, ¬ Skipped parsePublicKeyBase64 line →
      (line ∈ lines ↔ line ∈ lines')) : isKeyAuthorized parsePublicKeyBase64 key lines =
        isKeyAuthorized parsePublicKeyBase64 key lines' := by
    apply isKeyAuthorized_congr
    constructor
    · rintro ⟨line, hl, hmatch⟩
      exact ⟨line, (h line (not_skipped hmatch)).mp hl, hmatch⟩
    · rintro ⟨line, hl, hmatch⟩
      exact ⟨line, (h line (not_skipped hmatch)).mpr hl, hmatch⟩
  refine ⟨isKeyAuthorized_total, fun _ => isKeyAuthorized_iff_matches, ?_, hset, ?_⟩
  · exact fun lines lines' h => hset lines lines' fun line _ => h.mem_iff
  · intro lines lines' hsub h
    obtain ⟨line, hl, hmatch⟩ := isKeyAuthorized_iff_matches.mp h
    exact isKeyAuthorized_iff_matches.mpr ⟨line, hsub hl, hmatch⟩

/-- A comment and a line that does not decode come before the line that lets the key in. -/
theorem authorized_key_matching_third : isKeyAuthorized
    (fun data => if data = "AAAA".toList then some (.rsa [1] "sha2-512") else none)
    (.rsa [1] "sha2-256") ["# keys", "ssh-rsa ???", " ssh-rsa AAAA me\t"] = .ok true := by
  have hmatching := authorized_key_matching
    (fun data => if data = "AAAA".toList then some (.rsa [1] "sha2-512") else none)
    (.rsa [1] "sha2-256")
  refine (hmatching.2.2.2.2 [" ssh-rsa AAAA me\t"]) _ (by simp) ?_
  decide

end Matching

end Warlock.AuthorizedKeys
