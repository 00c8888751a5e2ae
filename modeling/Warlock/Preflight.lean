import Warlock.ApplicationState
import Warlock.PossibleResults
import Warlock.VersionCheck

/-!
# The checks before the server starts

The host is looked at piece by piece, and the first requirement that is not met ends the start.
In development mode nothing is looked at. What the checks accept is justified by what they have
seen.
-/

namespace Warlock.Preflight
open ApplicationState EffectPrograms RustText VersionCheck

structure Output where
  success : Bool
  stdout : Text
  stderr : Text

/-- What the checks ask the host, and the little that they change. -/
inductive PreflightOp
  | envVar (name : String)
  | which (name : String)
  | version (path : String)
  | pathExists (path : String)
  | metadata (path : String)
  | openLines (path : String)
  | readToString (path : String)
  | createDirAll (path : String)
  | removeFile (path : String)
  | write (path : String)
  | cpReflink (source dest : String)
  | listTable
  | showDefaultRoute
  | canonicalize (path : String)

/-- `metadata` tells the device, and a line of a file may be unreadable. -/
abbrev PreflightReply : PreflightOp → Type
  | .envVar _ | .which _ | .canonicalize _ => Option String
  | .version _ | .cpReflink _ _ | .listTable => Option Output
  | .pathExists _ | .createDirAll _ | .removeFile _ | .write _ => Bool
  | .metadata _ => Except String ℕ
  | .openLines _ => Option (List (Option Text))
  | .readToString _ | .showDefaultRoute => Option Text

/-- The outermost message of an error, or a panic. -/
inductive PreflightError
  | failed (message : String)
  | panicked (message : String)

abbrev Check (α : Type) := Attempt PreflightReply PreflightError α

abbrev ask (o : PreflightOp) : Check (PreflightReply o) := Attempt.ask o

def bail {α : Type} (message : String) : Check α := throw (.failed message)

/-- `if !condition { bail!(message) }`. -/
def ensure (condition : Bool) (message : String) : Check Unit :=
  if condition then return () else bail message

/-- `result.context(message)?`. -/
def context {α : Type} (result : Option α) (message : String) : Check α :=
  match result with
  | some a => return a
  | none => bail message

def vmImagesDir : String := "/srv/jailer/vm-images"
def vsockDir : String := "/srv/jailer/vsock"
def assetsDir : String := "/opt/firecracker"
def jailerDir : String := "/srv/jailer"
def jailerUid : Text := "1100".toList

def isAbsolute (path : String) : Bool := startsWith ['/'] path.toList

def contains (pat s : Text) : Bool := (afterFirst pat s).isSome

/-- Checks if running in development mode. -/
def isDevMode : Check Bool := do
  if (← ask (.envVar "WARLOCK_DEV")) == some "true" then
    return true
  return (← ask (.envVar "RUST_ENV")) == some "development"

/-- Resolves a binary name to its absolute path. -/
def resolveBinaryPath (envVar defaultName : String) : Check String := do
  let name := (← ask (.envVar envVar)).getD defaultName
  if isAbsolute name then return name else
    context (← ask (.which name)) ("Could not find '" ++ name ++ "' in PATH. Set `" ++ envVar ++
      "` environment variable to the absolute path.")

def checkFirecrackerBinary : Check (Text × String) := do
  let firecrackerPath ← resolveBinaryPath "FIRECRACKER_BIN" "firecracker"
  let output ← context (← ask (.version firecrackerPath))
    ("Failed to execute Firecracker binary at '" ++ firecrackerPath ++
      "'. Install Firecracker from https://github.com/firecracker-microvm/firecracker " ++
      "or set `FIRECRACKER_BIN` environment variable to the correct path.")
  ensure output.success ("Firecracker execution failed: " ++ String.ofList output.stderr)
  let versionOutput := trim output.stdout
  ensure (!versionOutput.isEmpty) "Firecracker version output was empty"
  return (versionOutput, firecrackerPath)

/-- `parse_and_validate_version(..)?`. -/
def checkVersion (lib : VersionLibrary) (versionOutput : Text) : Check lib.Version :=
  match parseAndValidateVersion lib versionOutput with
  | some (.ok version) => return version
  | some (.error e) => bail (String.ofList e.message)
  | none => throw (.panicked "MIN_FIRECRACKER_VERSION is invalid")

def checkJailerBinary : Check String := do
  let jailerPath ← resolveBinaryPath "JAILER_BIN" "jailer"
  let output ← context (← ask (.version jailerPath))
    ("Failed to execute jailer binary at '" ++ jailerPath ++
      "'. The jailer is included in Firecracker releases. " ++
      "Set `JAILER_BIN` environment variable if it is installed elsewhere.")
  ensure output.success ("Jailer execution failed: " ++ String.ofList output.stderr)
  return jailerPath

def checkKvmAvailable : Check Unit := do
  ensure (← ask (.pathExists "/dev/kvm")) ("KVM device not found at /dev/kvm. " ++
    "Ensure KVM is enabled in your kernel and BIOS. " ++
    "On Ubuntu/Debian, try: sudo modprobe kvm kvm_intel (or kvm_amd for AMD CPUs)")
  match ← ask (.metadata "/dev/kvm") with
  | .ok _ => return ()
  | .error e => bail ("Cannot access /dev/kvm: " ++ e ++ ". " ++
      "You may need to add your user to the kvm group: " ++
      "sudo usermod -aG kvm $USER && newgrp kvm")

/-- A line of `/etc/passwd` whose third field is the uid of the jailer. -/
def isJailerUser (line : Text) : Bool := (line.splitOn ':')[2]? == some jailerUid

/-- The lines of `/etc/passwd` up to the one that is looked for; an unreadable one is an error. -/
def findJailerUser : List (Option Text) → Check Unit
  | [] => bail ("No user with uid 1100 found. Run the install-firecracker.sh script to create " ++
      "the 'firecracker' system user.")
  | none :: _ => bail "stream did not contain valid UTF-8"
  | some line :: rest => if isJailerUser line then return () else findJailerUser rest

def checkJailerUser : Check Unit := do
  findJailerUser (← context (← ask (.openLines "/etc/passwd")) "Failed to read /etc/passwd")

def checkJailerFilesystem : Check Unit := do
  ensure (← ask (.pathExists assetsDir)) ("/opt/firecracker does not exist. " ++
    "Run install-firecracker.sh to install Firecracker assets.")
  ensure (← ask (.pathExists jailerDir)) ("/srv/jailer does not exist. " ++
    "Run install-firecracker.sh to create the jailer chroot base directory.")
  let assetsDev ← context (← ask (.metadata assetsDir)).toOption "Failed to stat /opt/firecracker"
  let jailerDev ← context (← ask (.metadata jailerDir)).toOption "Failed to stat /srv/jailer"
  ensure (assetsDev == jailerDev) (
    "/opt/firecracker and /srv/jailer are on different filesystems. " ++
    "The jailer uses hard links, which cannot cross filesystem boundaries. " ++
    "Move assets to the same filesystem as /srv/jailer.")

def checkVmImagesDir : Check Unit := do
  ensure (← ask (.pathExists vmImagesDir))
    (vmImagesDir ++ " does not exist. Run install-firecracker.sh to create it.")

def checkVsockDir : Check Unit := do
  if ← ask (.pathExists vsockDir) then return () else
    ensure (← ask (.createDirAll vsockDir)) "Failed to create /srv/jailer/vsock directory"

def detectCgroupVersion : Check ℕ := do
  return if ← ask (.pathExists "/sys/fs/cgroup/cgroup.controllers") then 2 else 1

def probeSrc : String := vmImagesDir ++ "/.warlock-probe"
def probeDst : String := vmImagesDir ++ "/.warlock-probe.reflink"

/-- Detects whether the filesystem supports reflink copies, with a probe file. -/
def detectCopyStrategy : Check CopyStrategy := do
  let _ ← ask (.removeFile probeSrc)
  let _ ← ask (.removeFile probeDst)
  if !(← ask (.write probeSrc)) then
    return .sparse
  let result ← ask (.cpReflink probeSrc probeDst)
  let _ ← ask (.removeFile probeSrc)
  let _ ← ask (.removeFile probeDst)
  return if result.any (·.success) then .reflink else .sparse

def checkNetworkingPrerequisites : Check Unit := do
  let _ ← context (← ask (.which "ip")) ("The 'ip' command (iproute2) is required for VM " ++
    "networking. Install it with: apt install iproute2")
  let _ ← context (← ask (.which "nft")) ("The 'nft' command (nftables) is required for VM " ++
    "networking. Install it with: apt install nftables")
  let ipForward ← context (← ask (.readToString "/proc/sys/net/ipv4/ip_forward"))
    "Failed to read /proc/sys/net/ipv4/ip_forward"
  ensure (trim ipForward == ['1']) ("IPv4 forwarding is not enabled. " ++
    "Run install-firecracker.sh or: echo 1 | sudo tee /proc/sys/net/ipv4/ip_forward")
  let output ← context (← ask .listTable) "Failed to query nftables"
  ensure output.success ("nftables table 'firecracker' does not exist. " ++
    "Run install-firecracker.sh or:\n  sudo nft add table firecracker\n  " ++
    "sudo nft 'add chain firecracker postrouting \x7b type nat hook postrouting " ++
    "priority srcnat; policy accept; \x7d'\n  " ++
    "sudo nft 'add chain firecracker filter \x7b type filter hook forward " ++
    "priority filter; policy accept; \x7d'")
  ensure (contains "chain postrouting".toList output.stdout)
    "nftables table 'firecracker' is missing the 'postrouting' chain"
  ensure (contains "chain filter".toList output.stdout)
    "nftables table 'firecracker' is missing the 'filter' chain"

/-- The word after the first `dev`. -/
def interfaceOf (output : Text) : Option Text :=
  ((splitWhitespace output).dropWhile (· != "dev".toList))[1]?

/-- The first interface that a default route goes through; a failure is a panic. -/
def detectHostInterface : Check String := do
  let some name := (← ask .showDefaultRoute).bind interfaceOf
    | throw (.panicked "Failed to detect host network interface")
  return String.ofList name

def hostInterface : Check String := do
  match ← ask (.envVar "WARLOCK_HOST_IFACE") with
  | some name => return name
  | none => detectHostInterface

def devConfig : JailerConfig where
  cgroupVersion := 2
  firecrackerPath := "firecracker"
  jailerPath := "jailer"
  kernelPath := "/dev/null/nonexistent-kernel"
  rootfsPath := "/dev/null/nonexistent-rootfs"
  vmImagesDir := "/dev/null/nonexistent-vm-images"
  copyStrategy := .sparse
  hostInterface := "eth0"

/-- Runs all pre-flight checks for Firecracker and jailer availability. -/
def preflightCheck (lib : VersionLibrary) : Check JailerConfig := do
  if ← isDevMode then
    return devConfig
  let (versionOutput, firecrackerPath) ← checkFirecrackerBinary
  let _ ← checkVersion lib versionOutput
  let jailerPath ← checkJailerBinary
  checkKvmAvailable
  checkJailerUser
  checkJailerFilesystem
  checkVmImagesDir
  checkVsockDir
  let cgroupVersion ← detectCgroupVersion
  let copyStrategy ← detectCopyStrategy
  checkNetworkingPrerequisites
  let hostInterface ← hostInterface
  let kernelPath ← context (← ask (.canonicalize "/opt/firecracker/vmlinux"))
    "Failed to resolve kernel path at /opt/firecracker/vmlinux"
  let rootfsPath ← context (← ask (.canonicalize "/opt/firecracker/rootfs.ext4"))
    "Failed to resolve rootfs path at /opt/firecracker/rootfs.ext4"
  return ⟨cgroupVersion, firecrackerPath, jailerPath, kernelPath, rootfsPath, vmImagesDir,
    copyStrategy, hostInterface⟩

section Results

variable {lib : VersionLibrary} {W : (o : PreflightOp) → PreflightReply o → Prop}
  {config : JailerConfig} {path envVar defaultName : String} {α : Type}

@[simp] theorem not_succeeds_bail {message : String} {a : α} : ¬ (bail message).Succeeds W a :=
  Attempt.succeeds_throw

@[simp] theorem succeeds_ensure {condition : Bool} {message : String} {u : Unit} :
    (ensure condition message).Succeeds W u ↔ condition = true := by
  cases condition with
  | true => exact iff_of_true (Attempt.succeeds_pure.mpr rfl) rfl
  | false => exact iff_of_false not_succeeds_bail Bool.false_ne_true

@[simp] theorem succeeds_context {result : Option α} {message : String} {a : α} :
    (context result message).Succeeds W a ↔ result = some a := by
  cases result with
  | none => exact iff_of_false not_succeeds_bail nofun
  | some a' =>
    refine Attempt.succeeds_pure.trans ?_
    rw [Option.some.injEq, eq_comm]

/-- The binary has been found: its path was given, or it is searched for under its name. -/
def Resolved (W : (o : PreflightOp) → PreflightReply o → Prop) (envVar defaultName path : String) :
    Prop :=
  ∃ given, W (.envVar envVar) given ∧
    if isAbsolute (given.getD defaultName) then path = given.getD defaultName
    else W (.which (given.getD defaultName)) (some path)

theorem resolved_of_succeeds (h : (resolveBinaryPath envVar defaultName).Succeeds W path) :
    Resolved W envVar defaultName path := by
  simp only [resolveBinaryPath, Attempt.succeeds_bind, Attempt.succeeds_ask] at h
  obtain ⟨given, hgiven, h⟩ := h
  refine ⟨given, hgiven, ?_⟩
  split at h
  · rename_i habsolute
    rw [if_pos habsolute]
    exact Attempt.succeeds_pure.mp h
  · rename_i habsolute
    rw [if_neg habsolute]
    simp only [Attempt.succeeds_bind, Attempt.succeeds_ask, succeeds_context] at h
    obtain ⟨_, hfound, rfl⟩ := h
    exact hfound

/-- The binary answers when it is asked for its version. -/
def Runs (W : (o : PreflightOp) → PreflightReply o → Prop) (path : String) (output : Output) :
    Prop :=
  W (.version path) (some output) ∧ output.success = true

/-- The word after the first `dev`, with where they stand. -/
def GoesThrough (output name : Text) : Prop :=
  ∃ before rest gap rest', Cuts output before "dev".toList rest ∧
    "dev".toList ∉ splitWhitespace before ∧ Blank gap ∧ Cuts rest gap name rest'

theorem goesThrough_of_interfaceOf {output name : Text} (h : interfaceOf output = some name) :
    GoesThrough output name := by
  obtain ⟨us, ws, hws, hus, hdrop⟩ : ∃ us ws, splitWhitespace output = us ++ ws ∧
      "dev".toList ∉ us ∧ (splitWhitespace output).dropWhile (· != "dev".toList) = ws := by
    refine ⟨_, _, List.takeWhile_append_dropWhile.symm, fun hmem => ?_, rfl⟩
    simpa using List.mem_takeWhile_imp hmem
  rw [interfaceOf, hdrop] at h
  rcases ws with _ | ⟨w, _ | ⟨name', vs⟩⟩
  · cases h
  · cases h
  · obtain rfl : name' = name := by simpa using h
    have hne : (splitWhitespace output).dropWhile (· != "dev".toList) ≠ [] := by
      rw [hdrop]
      exact List.cons_ne_nil _ _
    have hhead := List.head_dropWhile_not (· != "dev".toList) hne
    simp only [hdrop, List.head_cons] at hhead
    obtain rfl := bne_eq_false_iff_eq.mp hhead
    obtain ⟨before, rest, hcuts, rfl, hrest⟩ := splitWhitespace_eq_append_cons.mp hws
    obtain ⟨gap, rest', hgap, hname, _⟩ := exists_first hrest
    exact ⟨before, rest, gap, rest', hcuts, hus, hgap, hname⟩

/-- Development mode has been asked for. -/
def DevMode (W : (o : PreflightOp) → PreflightReply o → Prop) : Prop :=
  W (.envVar "WARLOCK_DEV") (some "true") ∨ W (.envVar "RUST_ENV") (some "development")

/-- What the strategy for copies rests on: the probe file was copied by reflink, or it could not be
written, or its copy failed. -/
def Copies (W : (o : PreflightOp) → PreflightReply o → Prop) : CopyStrategy → Prop
  | .reflink => ∃ output, W (.cpReflink probeSrc probeDst) (some output) ∧ output.success = true
  | .sparse => W (.write probeSrc) false ∨
      ∃ result, W (.cpReflink probeSrc probeDst) result ∧ ∀ output ∈ result, output.success = false

/-- The host has answered so that the server can run with the configuration. -/
structure Verified (lib : VersionLibrary) (W : (o : PreflightOp) → PreflightReply o → Prop)
    (config : JailerConfig) : Prop where
  firecracker : Resolved W "FIRECRACKER_BIN" "firecracker" config.firecrackerPath
  version : ∃ output version, Runs W config.firecrackerPath output ∧
    parseAndValidateVersion lib (trim output.stdout) = some (.ok version)
  jailer : Resolved W "JAILER_BIN" "jailer" config.jailerPath
  jailerRuns : ∃ output, Runs W config.jailerPath output
  kvm : W (.pathExists "/dev/kvm") true ∧ ∃ device, W (.metadata "/dev/kvm") (.ok device)
  user : ∃ lines line, W (.openLines "/etc/passwd") (some lines) ∧ some line ∈ lines ∧
    isJailerUser line = true
  filesystem : ∃ device, W (.metadata assetsDir) (.ok device) ∧ W (.metadata jailerDir) (.ok device)
  images : config.vmImagesDir = vmImagesDir ∧ W (.pathExists vmImagesDir) true
  vsock : W (.pathExists vsockDir) true ∨ W (.createDirAll vsockDir) true
  cgroup : ∃ unified, W (.pathExists "/sys/fs/cgroup/cgroup.controllers") unified ∧
    config.cgroupVersion = if unified then 2 else 1
  copies : Copies W config.copyStrategy
  tools : (∃ path, W (.which "ip") (some path)) ∧ ∃ path, W (.which "nft") (some path)
  forwarding : ∃ text, W (.readToString "/proc/sys/net/ipv4/ip_forward") (some text) ∧
    trim text = ['1']
  table : ∃ output, W .listTable (some output) ∧ output.success = true ∧
    contains "chain postrouting".toList output.stdout = true ∧
    contains "chain filter".toList output.stdout = true
  interface : W (.envVar "WARLOCK_HOST_IFACE") (some config.hostInterface) ∨
    W (.envVar "WARLOCK_HOST_IFACE") none ∧ ∃ output name, W .showDefaultRoute (some output) ∧
      GoesThrough output name ∧ config.hostInterface = String.ofList name
  kernel : W (.canonicalize "/opt/firecracker/vmlinux") (some config.kernelPath)
  rootfs : W (.canonicalize "/opt/firecracker/rootfs.ext4") (some config.rootfsPath)

theorem devMode_of_succeeds (h : isDevMode.Succeeds W true) : DevMode W := by
  simp only [isDevMode, Attempt.succeeds_bind, Attempt.succeeds_ask] at h
  obtain ⟨first, hfirst, h⟩ := h
  split at h
  · rename_i hdev
    rw [beq_iff_eq.mp hdev] at hfirst
    exact .inl hfirst
  · simp only [Attempt.succeeds_bind, Attempt.succeeds_ask, Attempt.succeeds_pure] at h
    obtain ⟨second, hsecond, h⟩ := h
    rw [beq_iff_eq.mp h.symm] at hsecond
    exact .inr hsecond

theorem firecracker_of_succeeds {found : Text × String}
    (h : checkFirecrackerBinary.Succeeds W found) :
    Resolved W "FIRECRACKER_BIN" "firecracker" found.2 ∧
      ∃ output, Runs W found.2 output ∧ found.1 = trim output.stdout := by
  simp only [checkFirecrackerBinary, Attempt.succeeds_bind, Attempt.succeeds_ask, succeeds_context,
    succeeds_ensure, Attempt.succeeds_pure] at h
  obtain ⟨path, hpath, _, hreply, output, rfl, _, hsuccess, _, _, rfl⟩ := h
  exact ⟨resolved_of_succeeds hpath, output, ⟨hreply, hsuccess⟩, rfl⟩

theorem version_of_succeeds {output : Text} {version : lib.Version}
    (h : (checkVersion lib output).Succeeds W version) :
    parseAndValidateVersion lib output = some (.ok version) := by
  unfold checkVersion at h
  split at h
  · obtain rfl := Attempt.succeeds_pure.mp h
    assumption
  · exact (not_succeeds_bail h).elim
  · exact (Attempt.succeeds_throw h).elim

theorem jailer_of_succeeds (h : checkJailerBinary.Succeeds W path) :
    Resolved W "JAILER_BIN" "jailer" path ∧ ∃ output, Runs W path output := by
  simp only [checkJailerBinary, Attempt.succeeds_bind, Attempt.succeeds_ask, succeeds_context,
    succeeds_ensure, Attempt.succeeds_pure] at h
  obtain ⟨_, hpath, _, hreply, output, rfl, _, hsuccess, rfl⟩ := h
  exact ⟨resolved_of_succeeds hpath, output, hreply, hsuccess⟩

theorem kvm_of_succeeds (h : checkKvmAvailable.Succeeds W ()) :
    W (.pathExists "/dev/kvm") true ∧ ∃ device, W (.metadata "/dev/kvm") (.ok device) := by
  simp only [checkKvmAvailable, Attempt.succeeds_bind, Attempt.succeeds_ask, succeeds_ensure] at h
  obtain ⟨_, hexists, _, rfl, reply, hreply, h⟩ := h
  cases reply with
  | ok device => exact ⟨hexists, device, hreply⟩
  | error e => exact (not_succeeds_bail h).elim

theorem findJailerUser_of_succeeds {lines : List (Option Text)}
    (h : (findJailerUser lines).Succeeds W ()) :
    ∃ line, some line ∈ lines ∧ isJailerUser line = true := by
  induction lines with
  | nil => exact (not_succeeds_bail h).elim
  | cons first rest ih =>
    cases first with
    | none => exact (not_succeeds_bail h).elim
    | some line =>
      unfold findJailerUser at h
      split at h
      · exact ⟨line, List.mem_cons_self, by assumption⟩
      · obtain ⟨line', hmem, huser⟩ := ih h
        exact ⟨line', List.mem_cons_of_mem _ hmem, huser⟩

theorem user_of_succeeds (h : checkJailerUser.Succeeds W ()) :
    ∃ lines line, W (.openLines "/etc/passwd") (some lines) ∧ some line ∈ lines ∧
      isJailerUser line = true := by
  simp only [checkJailerUser, Attempt.succeeds_bind, Attempt.succeeds_ask, succeeds_context] at h
  obtain ⟨_, hreply, lines, rfl, h⟩ := h
  obtain ⟨line, hmem, huser⟩ := findJailerUser_of_succeeds h
  exact ⟨lines, line, hreply, hmem, huser⟩

theorem ok_of_toOption {ε : Type} {result : Except ε α} {a : α} (h : result.toOption = some a) :
    result = .ok a := by
  cases result with
  | ok a' => exact congrArg _ (Option.some.inj h)
  | error e => cases h

theorem filesystem_of_succeeds (h : checkJailerFilesystem.Succeeds W ()) :
    ∃ device, W (.metadata assetsDir) (.ok device) ∧ W (.metadata jailerDir) (.ok device) := by
  simp only [checkJailerFilesystem, Attempt.succeeds_bind, Attempt.succeeds_ask, succeeds_context,
    succeeds_ensure] at h
  obtain ⟨_, _, _, _, _, _, _, _, assets, hassets, _, hdevice, jailer, hjailer, _, hdevice', h⟩ := h
  rw [ok_of_toOption hdevice] at hassets
  rw [ok_of_toOption hdevice', ← beq_iff_eq.mp h] at hjailer
  exact ⟨_, hassets, hjailer⟩

theorem images_of_succeeds (h : checkVmImagesDir.Succeeds W ()) :
    W (.pathExists vmImagesDir) true := by
  simp only [checkVmImagesDir, Attempt.succeeds_bind, Attempt.succeeds_ask, succeeds_ensure] at h
  obtain ⟨_, hexists, rfl⟩ := h
  exact hexists

theorem vsock_of_succeeds (h : checkVsockDir.Succeeds W ()) :
    W (.pathExists vsockDir) true ∨ W (.createDirAll vsockDir) true := by
  simp only [checkVsockDir, Attempt.succeeds_bind, Attempt.succeeds_ask] at h
  obtain ⟨present, hpresent, h⟩ := h
  cases present with
  | true => exact .inl hpresent
  | false =>
    simp only [Bool.false_eq_true, if_false, Attempt.succeeds_bind, Attempt.succeeds_ask,
      succeeds_ensure] at h
    obtain ⟨_, hcreated, rfl⟩ := h
    exact .inr hcreated

theorem cgroup_of_succeeds {version : ℕ} (h : detectCgroupVersion.Succeeds W version) :
    ∃ unified, W (.pathExists "/sys/fs/cgroup/cgroup.controllers") unified ∧
      version = if unified then 2 else 1 := by
  simpa only [detectCgroupVersion, Attempt.succeeds_bind, Attempt.succeeds_ask,
    Attempt.succeeds_pure] using h

theorem copies_of_succeeds {strategy : CopyStrategy} (h : detectCopyStrategy.Succeeds W strategy) :
    Copies W strategy := by
  simp only [detectCopyStrategy, Attempt.succeeds_bind, Attempt.succeeds_ask] at h
  obtain ⟨_, _, _, _, written, hwritten, h⟩ := h
  cases written with
  | false =>
    obtain rfl := Attempt.succeeds_pure.mp h
    exact .inl hwritten
  | true =>
    simp only [Bool.not_true, Bool.false_eq_true, if_false, Attempt.succeeds_bind,
      Attempt.succeeds_ask, Attempt.succeeds_pure] at h
    obtain ⟨result, hresult, _, _, _, _, h⟩ := h
    split at h
    · rename_i hany
      obtain ⟨output, rfl, hsuccess⟩ := (Option.any_eq_true _ _).mp hany
      exact h ▸ ⟨output, hresult, hsuccess⟩
    · rename_i hnone
      refine h ▸ .inr ⟨result, hresult, ?_⟩
      rintro output rfl
      simpa using hnone

theorem networking_of_succeeds (h : checkNetworkingPrerequisites.Succeeds W ()) :
    ((∃ path, W (.which "ip") (some path)) ∧ ∃ path, W (.which "nft") (some path)) ∧
    (∃ text, W (.readToString "/proc/sys/net/ipv4/ip_forward") (some text) ∧ trim text = ['1']) ∧
    ∃ output, W .listTable (some output) ∧ output.success = true ∧
      contains "chain postrouting".toList output.stdout = true ∧
      contains "chain filter".toList output.stdout = true := by
  simp only [checkNetworkingPrerequisites, Attempt.succeeds_bind, Attempt.succeeds_ask,
    succeeds_context, succeeds_ensure] at h
  obtain ⟨_, hip, ip, rfl, _, hnft, nft, rfl, _, hread, text, rfl, _, htext, _, hlist, output, rfl,
    _, hsuccess, _, hpostrouting, hfilter⟩ := h
  exact ⟨⟨⟨ip, hip⟩, nft, hnft⟩, ⟨text, hread, beq_iff_eq.mp htext⟩,
    output, hlist, hsuccess, hpostrouting, hfilter⟩

theorem interface_of_succeeds {name : String} (h : hostInterface.Succeeds W name) :
    W (.envVar "WARLOCK_HOST_IFACE") (some name) ∨
      W (.envVar "WARLOCK_HOST_IFACE") none ∧ ∃ output word, W .showDefaultRoute (some output) ∧
        GoesThrough output word ∧ name = String.ofList word := by
  simp only [hostInterface, Attempt.succeeds_bind, Attempt.succeeds_ask] at h
  obtain ⟨given, hgiven, h⟩ := h
  cases given with
  | some given =>
    obtain rfl := Attempt.succeeds_pure.mp h
    exact .inl hgiven
  | none =>
    simp only [detectHostInterface, Attempt.succeeds_bind, Attempt.succeeds_ask] at h
    obtain ⟨reply, hreply, h⟩ := h
    split at h
    · rename_i word hword
      obtain ⟨output, rfl, hinterface⟩ := Option.bind_eq_some_iff.mp hword
      exact .inr ⟨hgiven, output, word, hreply, goesThrough_of_interfaceOf hinterface,
        Attempt.succeeds_pure.mp h⟩
    · exact (Attempt.succeeds_throw h).elim

/-- A configuration that the checks accept is the one of development mode, or every part of it
rests on what the host has answered. -/
theorem verified_of_succeeds (h : (preflightCheck lib).Succeeds W config) :
    DevMode W ∧ config = devConfig ∨ Verified lib W config := by
  unfold preflightCheck at h
  obtain ⟨dev, hdev, h⟩ := Attempt.succeeds_bind.mp h
  cases dev with
  | true => exact .inl ⟨devMode_of_succeeds hdev, Attempt.succeeds_pure.mp h⟩
  | false =>
    simp only [Bool.false_eq_true, if_false, Attempt.succeeds_bind, Attempt.succeeds_ask,
      succeeds_context, Attempt.succeeds_pure] at h
    obtain ⟨found, hfound, version, hversion, jailer, hjailer, _, hkvm, _, huser, _, hfilesystem, _,
      himages, _, hvsock, cgroup, hcgroup, copies, hcopies, _, hnetworking, interface, hinterface,
      _, hkernel, kernel, rfl, _, hrootfs, rootfs, rfl, rfl⟩ := h
    obtain ⟨hfirecracker, output, hruns, houtput⟩ := firecracker_of_succeeds hfound
    obtain ⟨hresolved, hjailerRuns⟩ := jailer_of_succeeds hjailer
    obtain ⟨htools, hforwarding, htable⟩ := networking_of_succeeds hnetworking
    refine .inr {
      firecracker := hfirecracker
      version := ⟨output, version, hruns, ?_⟩
      jailer := hresolved
      jailerRuns := hjailerRuns
      kvm := kvm_of_succeeds hkvm
      user := user_of_succeeds huser
      filesystem := filesystem_of_succeeds hfilesystem
      images := ⟨rfl, images_of_succeeds himages⟩
      vsock := vsock_of_succeeds hvsock
      cgroup := cgroup_of_succeeds hcgroup
      copies := copies_of_succeeds hcopies
      tools := htools
      forwarding := hforwarding
      table := htable
      interface := interface_of_succeeds hinterface
      kernel := hkernel
      rootfs := hrootfs }
    rw [← houtput]
    exact version_of_succeeds hversion

end Results

section Changes
open Attempt (only_bind only_ask only_pure only_throw)

variable {lib : VersionLibrary} {envVar defaultName : String} {α β : Type}

/-- The checks change nothing but the directory of the sockets and their probe files. -/
def Spares : PreflightOp → Prop
  | .createDirAll path => path = vsockDir
  | .removeFile path => path = probeSrc ∨ path = probeDst
  | .write path => path = probeSrc
  | .cpReflink source dest => source = probeSrc ∧ dest = probeDst
  | _ => True

theorem only_ensure {P : PreflightOp → Prop} {condition : Bool} {message : String} :
    (ensure condition message).Only P := by
  cases condition <;> trivial

theorem only_context {P : PreflightOp → Prop} {result : Option α} {message : String} :
    (context result message).Only P := by
  cases result <;> trivial

/-- A question whose answer is required to be there. -/
theorem only_required {o : PreflightOp} {get : PreflightReply o → Option α} {message : String}
    {next : α → Check β} (ho : Spares o) (hnext : ∀ a, (next a).Only Spares) :
    (do next (← context (get (← ask o)) message)).Only Spares :=
  only_bind (only_ask ho) fun _ => only_bind only_context hnext

/-- A question whose answer is required to be right. -/
theorem only_ensured {o : PreflightOp} {test : PreflightReply o → Bool} {message : String}
    {next : Unit → Check β} (ho : Spares o) (hnext : ∀ u, (next u).Only Spares) :
    (ask o >>= fun r => ensure (test r) message >>= next).Only Spares :=
  only_bind (only_ask ho) fun _ => only_bind only_ensure hnext

theorem only_detectCopyStrategy : detectCopyStrategy.Only Spares := by
  refine only_bind (only_ask (.inl rfl)) fun _ => ?_
  refine only_bind (only_ask (.inr rfl)) fun _ => ?_
  refine only_bind (only_ask rfl) fun written => ?_
  cases written with
  | false => exact only_pure
  | true =>
    refine only_bind (only_ask ⟨rfl, rfl⟩) fun _ => ?_
    refine only_bind (only_ask (.inl rfl)) fun _ => ?_
    exact only_bind (only_ask (.inr rfl)) fun _ => only_pure

theorem only_isDevMode : isDevMode.Only Spares := by
  refine only_bind (only_ask trivial) fun given => ?_
  split
  · exact only_pure
  · exact only_bind (only_ask trivial) fun _ => only_pure

theorem only_resolveBinaryPath : (resolveBinaryPath envVar defaultName).Only Spares := by
  refine only_bind (only_ask trivial) fun given => ?_
  dsimp only
  split
  · exact only_pure
  · exact only_bind (only_ask trivial) fun _ => only_context

theorem only_checkFirecrackerBinary : checkFirecrackerBinary.Only Spares :=
  only_bind only_resolveBinaryPath fun _ => only_required trivial fun _ =>
    only_bind only_ensure fun _ => only_bind only_ensure fun _ => only_pure

theorem only_checkJailerBinary : checkJailerBinary.Only Spares :=
  only_bind only_resolveBinaryPath fun _ => only_required trivial fun _ =>
    only_bind only_ensure fun _ => only_pure

theorem only_checkVersion {output : Text} : (checkVersion lib output).Only Spares := by
  unfold checkVersion
  split
  · exact only_pure
  · exact only_throw
  · exact only_throw

theorem only_checkKvmAvailable : checkKvmAvailable.Only Spares := by
  refine only_ensured trivial fun _ => ?_
  refine only_bind (only_ask trivial) fun reply => ?_
  cases reply with
  | ok device => exact only_pure
  | error e => exact only_throw

theorem only_findJailerUser {lines : List (Option Text)} : (findJailerUser lines).Only Spares := by
  induction lines with
  | nil => exact only_throw
  | cons first rest ih =>
    cases first with
    | none => exact only_throw
    | some line =>
      unfold findJailerUser
      split
      · exact only_pure
      · exact ih

theorem only_checkJailerUser : checkJailerUser.Only Spares :=
  only_required trivial fun _ => only_findJailerUser

theorem only_checkJailerFilesystem : checkJailerFilesystem.Only Spares := by
  refine only_ensured trivial fun _ => ?_
  refine only_ensured trivial fun _ => ?_
  refine only_required trivial fun _ => ?_
  refine only_required trivial fun _ => ?_
  exact only_ensure

theorem only_checkVmImagesDir : checkVmImagesDir.Only Spares :=
  only_bind (only_ask trivial) fun _ => only_ensure

theorem only_detectCgroupVersion : detectCgroupVersion.Only Spares :=
  only_bind (only_ask trivial) fun _ => only_pure

theorem only_checkVsockDir : checkVsockDir.Only Spares := by
  refine only_bind (only_ask trivial) fun present => ?_
  cases present with
  | true => exact only_pure
  | false => exact only_bind (only_ask rfl) fun _ => only_ensure

theorem only_checkNetworkingPrerequisites : checkNetworkingPrerequisites.Only Spares := by
  refine only_required trivial fun _ => ?_
  refine only_required trivial fun _ => ?_
  refine only_required trivial fun _ => ?_
  refine only_bind only_ensure fun _ => only_required trivial fun _ => ?_
  refine only_bind only_ensure fun _ => ?_
  exact only_bind only_ensure fun _ => only_ensure

theorem only_hostInterface : hostInterface.Only Spares := by
  refine only_bind (only_ask trivial) fun given => ?_
  cases given with
  | some name => exact only_pure
  | none =>
    refine only_bind (only_ask trivial) fun output => ?_
    split
    · exact only_pure
    · exact only_throw

theorem only_preflightCheck : (preflightCheck lib).Only Spares := by
  refine only_bind only_isDevMode fun dev => ?_
  split
  · exact only_pure
  · refine only_bind only_checkFirecrackerBinary fun _ => ?_
    refine only_bind only_checkVersion fun _ => ?_
    refine only_bind only_checkJailerBinary fun _ => ?_
    refine only_bind only_checkKvmAvailable fun _ => ?_
    refine only_bind only_checkJailerUser fun _ => ?_
    refine only_bind only_checkJailerFilesystem fun _ => ?_
    refine only_bind only_checkVmImagesDir fun _ => ?_
    refine only_bind only_checkVsockDir fun _ => ?_
    refine only_bind only_detectCgroupVersion fun _ => ?_
    refine only_bind only_detectCopyStrategy fun _ => ?_
    refine only_bind only_checkNetworkingPrerequisites fun _ => ?_
    refine only_bind only_hostInterface fun _ => ?_
    refine only_required trivial fun _ => ?_
    refine only_required trivial fun _ => ?_
    exact only_pure

end Changes

end Warlock.Preflight
