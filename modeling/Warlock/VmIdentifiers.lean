import Warlock.RustText

/-!
# VM identifiers and the names derived from them

A `Uuid` is 128 bits; its display form is the hyphenated lower-case one. The names of
a VM's files are built from that form, and distinct identifiers give distinct names.
-/

namespace Warlock.VmIdentifiers

abbrev Uuid := BitVec 128

/-- The `i`-th hexadecimal digit, counted from the least significant one. -/
def nibble (n i : ℕ) : ℕ := n / 16 ^ i % 16

def hexDigits (id : Uuid) : List Char :=
  (List.range 32).map (fun i => (nibble id.toNat (31 - i)).digitChar)

/-- The hyphenated display form of the `uuid` crate. -/
def display (id : Uuid) : String :=
  let d := hexDigits id
  String.ofList (d.take 8 ++ '-' :: (d.drop 8).take 4 ++ '-' :: (d.drop 12).take 4 ++
    '-' :: (d.drop 16).take 4 ++ '-' :: d.drop 20)

/-- `Path::join` with a relative file name. -/
def joinPath (dir file : String) : String :=
  if dir.isEmpty || dir.endsWith "/" then dir ++ file else dir ++ "/" ++ file

/-- The per-VM rootfs copy, `vm_images_dir/{vm_id}.ext4`. -/
def rootfsPath (vmImagesDir : String) (id : Uuid) : String :=
  joinPath vmImagesDir (display id ++ ".ext4")

/-- `vsock_placeholder_path`: the file the SDK hard-links into the chroot. -/
def vsockPlaceholderPath (id : Uuid) : String :=
  joinPath "/srv/jailer/vsock" (display id ++ ".sock")

/-- `vsock_runtime_path`: where Firecracker creates the socket. -/
def vsockRuntimePath (id : Uuid) : String :=
  "/srv/jailer/firecracker/" ++ display id ++ "/root/" ++ (display id ++ ".sock")

/-- `/tmp/warlock-jailer-{vm_id}.log`. -/
def jailerLogPath (id : Uuid) : String := "/tmp/warlock-jailer-" ++ display id ++ ".log"

theorem eq_of_nibbles {a b n : ℕ} (ha : a < 16 ^ n) (hb : b < 16 ^ n)
    (h : ∀ i < n, nibble a i = nibble b i) : a = b := by
  induction n generalizing a b with
  | zero => simp only [pow_zero, Nat.lt_one_iff] at ha hb; omega
  | succ n ih =>
    have hlow : a % 16 = b % 16 := by simpa [nibble] using h 0 (by omega)
    have hhigh : a / 16 = b / 16 := by
      apply ih
      · rw [pow_succ] at ha; omega
      · rw [pow_succ] at hb; omega
      · intro i hi
        simpa [nibble, pow_succ', Nat.div_div_eq_div_mul] using h (i + 1) (by omega)
    omega

theorem digitChar_injective {a b : ℕ} (ha : a < 16) (hb : b < 16)
    (h : a.digitChar = b.digitChar) : a = b := by
  have hall : ∀ a < 16, ∀ b < 16, a.digitChar = b.digitChar → a = b := by decide
  exact hall a ha b hb h

theorem hexDigits_injective {a b : Uuid} (h : hexDigits a = hexDigits b) : a = b := by
  apply BitVec.eq_of_toNat_eq
  apply eq_of_nibbles (n := 32) (by have := a.isLt; omega) (by have := b.isLt; omega)
  intro i hi
  have hd := List.map_inj_left.mp h (31 - i) (by simp; omega)
  have he : 31 - (31 - i) = i := by omega
  rw [he] at hd
  exact digitChar_injective (Nat.mod_lt _ (by omega)) (Nat.mod_lt _ (by omega)) hd

private theorem filter_hexDigits (id : Uuid) (n k : ℕ) :
    (((hexDigits id).drop n).take k).filter (· != '-') = ((hexDigits id).drop n).take k := by
  apply List.filter_eq_self.mpr
  intro c hc
  obtain ⟨i, _, rfl⟩ := List.mem_map.mp (List.mem_of_mem_drop (List.mem_of_mem_take hc))
  simp

/-- Without its hyphens the display form is the row of digits. -/
theorem filter_display (id : Uuid) :
    (display id).toList.filter (· != '-') = hexDigits id := by
  have hlen : (hexDigits id).length = 32 := by simp [hexDigits]
  have h₀ := filter_hexDigits id 0 8
  have h₄ := filter_hexDigits id 20 12
  rw [List.drop_zero] at h₀
  rw [List.take_of_length_le (by simp [hlen])] at h₄
  simp only [display, String.toList_ofList, List.filter_append, List.filter_cons, h₀,
    filter_hexDigits, h₄]
  simp only [bne_self_eq_false, Bool.false_eq_true, if_false]
  have hsplit (n k : ℕ) : (hexDigits id).drop n =
      ((hexDigits id).drop n).take k ++ (hexDigits id).drop (n + k) := by
    rw [← List.drop_drop, List.take_append_drop]
  simp only [List.append_assoc]
  rw [← hsplit 16 4, ← hsplit 12 4, ← hsplit 8 4, List.take_append_drop]

theorem display_injective : Function.Injective display := by
  intro a b h
  apply hexDigits_injective
  rw [← filter_display, ← filter_display, h]

theorem joinPath_inj {dir f g : String} : joinPath dir f = joinPath dir g ↔ f = g := by
  unfold joinPath
  split <;> simp [String.append_right_inj]

theorem rootfsPath_injective (dir : String) : Function.Injective (rootfsPath dir) := by
  intro a b h
  apply display_injective
  exact (String.append_left_inj _).mp (joinPath_inj.mp h)

@[simp] theorem rootfsPath_inj {dir : String} {a b : Uuid} :
    rootfsPath dir a = rootfsPath dir b ↔ a = b := (rootfsPath_injective dir).eq_iff

theorem length_display (id : Uuid) : (display id).toList.length = 36 := by
  simp [display, hexDigits]

private theorem eq_of_append {x y s t : String} (hlen : x.toList.length = y.toList.length)
    (h : x ++ s = y ++ t) : x = y := by
  have h := congrArg String.toList h
  rw [String.toList_append, String.toList_append] at h
  exact String.toList_inj.mp (List.append_inj_left h hlen)

/-- Distinct VMs have distinct console sockets. -/
theorem vsockRuntimePath_injective {a b : Uuid}
    (h : vsockRuntimePath a = vsockRuntimePath b) : a = b := by
  unfold vsockRuntimePath at h
  rw [String.append_assoc, String.append_assoc, String.append_assoc, String.append_assoc,
    String.append_right_inj] at h
  exact display_injective (eq_of_append ((length_display a).trans (length_display b).symm) h)

end Warlock.VmIdentifiers
