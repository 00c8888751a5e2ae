import Warlock.HostKey

/-!
# The permissions of the host key

The key file is written first and restricted to its owner then. Whoever kills the server in
between leaves a key behind that others may read, and the next start uses it as it is. Otherwise
nobody but the owner can read the key of a server that is running.
-/

namespace Warlock.KeyPermissions
open EffectPrograms HostKey RestartedScripts TransitionSystems

variable {lib : KeyLibrary} {disk disk' : Disk} {past : History} {s : Server} {c : FileOutcome}
  {v : Boot}

/-- Restricting the key file goes well and is not prevented, and no write to it ends halfway. -/
def restricts (s : Server) : Happening FileOutcome → Bool
  | .run c => match s.code with
    | .run (.write .key _) _ => c.succeeds || c.cut.isNone
    | .run (.setPermissions .key _) _ => c.succeeds
    | _ => true
  | .restart => match s.code with
    | .run (.setPermissions .key _) _ => false
    | _ => true

def Private (disk : Disk) : Prop := ∀ f, disk.files .key = some f → f.mode = ownerOnly

/-- Only the owner can read the key, but for a file that has been written just now. -/
def Guards : Boot → Disk → Prop
  | .written _, disk => (disk.files .key).isSome
  | .exposed _, _ => False
  | _, disk => Private disk

theorem Guards.of_settled (h : Guards v disk) (hv : v.settled = true) : Private disk := by
  cases v with
  | written key => simp [Boot.settled] at hv
  | exposed key => exact h.elim
  | _ => exact h

/-- Only writing to a file and its permissions change it. -/
theorem files_act {file : KeyFile} {o : FileOp} {r : FileReply o}
    (ha : act lib o c disk = some (disk', r)) (hwrite : ∀ contents, o ≠ .write file contents)
    (hmode : ∀ mode, o ≠ .setPermissions file mode) : disk'.files file = disk.files file := by
  cases o with
  | write file' contents =>
    have hne : file ≠ file' := by
      rintro rfl
      exact hwrite contents rfl
    simp only [act] at ha
    repeat' split at ha
    all_goals
      obtain ⟨rfl, _⟩ := by simpa using ha
      simp [Disk.put, hne]
  | setPermissions file' mode =>
    have hne : file ≠ file' := by
      rintro rfl
      exact hmode mode rfl
    simp only [act] at ha
    repeat' split at ha
    all_goals
      obtain ⟨rfl, _⟩ := by simpa using ha
      simp [hne]
  | _ =>
    obtain ⟨rfl, _⟩ := by simpa [act] using ha
    rfl

/-- A write that does not end halfway either makes the file or changes nothing. -/
theorem files_write {file : KeyFile} {contents : List UInt8} {written : Bool}
    (ha : act lib (.write file contents) c disk = some (disk', written))
    (hwhole : (c.succeeds || c.cut.isNone) = true) :
    (written = true ∧ (disk'.files file).isSome) ∨ (written = false ∧ disk' = disk) := by
  simp only [act] at ha
  split at ha
  · obtain ⟨rfl, rfl⟩ := by simpa using ha
    exact .inr ⟨rfl, rfl⟩
  · split at ha
    · obtain ⟨rfl, rfl⟩ := by simpa using ha
      exact .inl ⟨rfl, by simp [Disk.put]⟩
    · split at ha
      · simp_all
      · obtain ⟨rfl, rfl⟩ := by simpa using ha
        exact .inr ⟨rfl, rfl⟩

theorem files_setPermissions {file : KeyFile} {mode : ℕ} {restricted : Bool}
    (ha : act lib (.setPermissions file mode) c disk = some (disk', restricted))
    (hthere : (disk.files file).isSome) (hok : c.succeeds = true) :
    restricted = true ∧ ∀ f, disk'.files file = some f → f.mode = mode := by
  obtain ⟨f, hf⟩ := Option.isSome_iff_exists.mp hthere
  simp only [act, hf, hok, if_true] at ha
  obtain ⟨rfl, rfl⟩ := by simpa using ha
  refine ⟨rfl, fun f' hf' => ?_⟩
  obtain rfl := by simpa using hf'
  rfl

theorem Guards.frame (h : Guards v disk) (hfile : disk'.files .key = disk.files .key) :
    Guards v disk' := by
  cases v with
  | exposed key => exact h
  | _ => simpa only [Guards, Private, hfile] using h

theorem Guards.run {o : FileOp} {next : FileReply o → FileCode (Option KeyPair)} {r : FileReply o}
    (hok : restricts s (.run c) = true) (hcode : s.code = .run o next) (h : Guards v s.world)
    (hreq : bootRequires lib o v) (ha : act lib o c s.world = some (disk', r)) :
    Guards (noteBoot o r v) disk' := by
  simp only [restricts, hcode] at hok
  cases o with
  | loadSecretKey | generateEd25519 =>
    obtain rfl : v = .searching := hreq
    have hprivate := h.frame (files_act ha (by simp) (by simp))
    cases r <;> exact hprivate
  | write file contents =>
    cases file with
    | pub => exact h.frame (files_act ha (by simp) (by simp))
    | key =>
      obtain ⟨secret, rfl, _⟩ := hreq
      rcases files_write ha hok with ⟨rfl, hthere⟩ | ⟨rfl, rfl⟩
      · exact hthere
      · exact h
  | setPermissions file mode =>
    cases file with
    | pub => exact h.frame (files_act ha (by simp) (by simp))
    | key =>
      obtain ⟨⟨key, rfl⟩, rfl⟩ := hreq
      obtain ⟨rfl, hprivate⟩ := files_setPermissions ha h hok
      exact hprivate
  | _ => exact h.frame (files_act ha (by simp) (by simp))

/-- After the key has been written its file is restricted next. -/
theorem restricts_next {code : FileCode (Option KeyPair)} {key : KeyPair}
    (h : code.Safe (booting lib) Boots (.written key)) :
    ∃ next, code = .run (.setPermissions .key ownerOnly) next := by
  cases code with
  | done used => exact h.elim
  | run o next =>
    have hreq : bootRequires lib o (.written key) := h.1
    cases o with
    | setPermissions file mode =>
      cases file with
      | pub => simp [bootRequires, Boot.settled] at hreq
      | key =>
        obtain ⟨_, rfl⟩ := hreq
        exact ⟨next, rfl⟩
    | write file contents => cases file <;> simp [bootRequires, Boot.settled] at hreq
    | _ => simp [bootRequires, Boot.settled] at hreq

theorem guarded : Tracking (act lib) (loadOrGenerateHostKey lib) (restricts · ·) (booting lib)
    Boots fun _ disk v => Guards v disk where
  restart past s v hok h hsafe := by
    refine ⟨.searching, safe_loadOrGenerateHostKey, h.of_settled ?_⟩
    cases v with
    | written key =>
      obtain ⟨next, hcode⟩ := restricts_next hsafe
      simp [restricts, hcode] at hok
    | _ => rfl
  run past s c o next v disk' r hok hcode h hreq ha :=
    ⟨trivial, h.run hok hcode hreq ha⟩

/-- Only the owner can read the key file, except right after it has been written. -/
theorem private_unless_written (hdisk : Private disk) (h : (starts lib disk).Run past s)
    (hrestricts : System.Meets (restricts · ·) past) :
    Private s.world ∨ ∃ next, s.code = .run (.setPermissions .key ownerOnly) next := by
  have hstart : Kept (booting lib) Boots (fun _ disk v => Guards v disk) []
      (starts lib disk).initial := ⟨.searching, safe_loadOrGenerateHostKey, hdisk⟩
  obtain ⟨v, hsafe, hguards⟩ := guarded.kept h hrestricts hstart
  cases v with
  | written key => exact .inr (restricts_next hsafe)
  | _ => exact .inl (hguards.of_settled rfl)

instance (past : History) : Decidable (System.Meets (restricts · ·) past) :=
  inferInstanceAs (Decidable (∀ p ∈ past, restricts p.1 p.2))

theorem private_unless_written_restarting :
    let s := sampleStarts.endOf (generating ++ restarting)
    Private s.world ∨ ∃ next, s.code = .run (.setPermissions .key ownerOnly) next :=
  private_unless_written (by simp [Private]) (System.run_follow (generating ++ restarting))
    (by decide)

end Warlock.KeyPermissions
