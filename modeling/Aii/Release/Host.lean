/-
Aii.Release.Host — a node that takes releases (`record_release_announcement`,
`import_release_binary`, `install_release`, `maybe_auto_install_release` and
`rollback_release` of `aii-node/src/lib.rs`, the release methods of
`aii-rpc/src/lib.rs`, `poll_once` of `release_poller.rs`).

A `Host` is the file system, the process that runs, and a log that
outlives the process.
-/
import Aii.Common.Runs
import Aii.Release.Store

namespace Aii.Release

open Common Node FileSystem

/-! ## State -/

structure Site where
  /-- `--data-dir`, once `set_data_dir` has been called. -/
  dataDir : Option Place
  /-- The directory of the executable. -/
  exeDir : Place
  /-- The executable the service starts. -/
  exe : FileName
  /-- `--auto-install-releases`. -/
  autoInstall : Bool

/-- What happened on a host. An install is caused by a manifest or by an
operator. -/
inductive Event where
  /-- "accepted release announcement". -/
  | accepted (m : ReleaseManifest)
  /-- "imported release binary". -/
  | stored (version bytes : Bytes)
  /-- The snapshot for a rollback is taken, or should have been. -/
  | snapshot (cause : Option ReleaseManifest)
  /-- "release installed; self-restart scheduled": what the executable
  holds now, and what runs. -/
  | installed (version bytes : Bytes) (cause : Option ReleaseManifest) (ran : Bytes)
  /-- The self-restart has succeeded. -/
  | restarted (cause : Option ReleaseManifest)
  deriving DecidableEq

structure Restart where
  exe : FileName
  cause : Option ReleaseManifest

structure Host where
  fs : FileSystem
  /-- The file the process was started from. -/
  exe : FileName
  /-- The program that runs. -/
  image : Bytes
  /-- Another file has been renamed over that of the process. -/
  replaced : Bool
  /-- `latest_release`. -/
  latestRelease : Option ReleaseManifest
  restarts : List Restart
  /-- The head of the chain. -/
  head : UInt64
  /-- The clock. -/
  now : UInt64
  log : List Event

/-- What the kernel appends to the path of a replaced executable. -/
def DELETED_SUFFIX : Bytes := ascii [' ', '(', 'd', 'e', 'l', 'e', 't', 'e', 'd', ')']

def deleted (n : FileName) : FileName :=
  ⟨n.1 ++ DELETED_SUFFIX, n.2.append (by simp [DELETED_SUFFIX, ascii]) (by decide) (by decide)⟩

/-- The name `current_exe` gives. -/
def Host.currentExe (h : Host) : FileName := if h.replaced then deleted h.exe else h.exe

def currentAiidPath (site : Site) (h : Host) : Path := site.exeDir.1 ++ [h.currentExe.1]

def Host.accept (h : Host) (m : ReleaseManifest) : Host :=
  { h with latestRelease := some m, log := h.log ++ [.accepted m] }

def Host.store (h : Host) (version bytes : Bytes) (fs : FileSystem) : Host :=
  { h with fs := fs, log := h.log ++ [.stored version bytes] }

def Host.tried (h : Host) (cause : Option ReleaseManifest) (fs : FileSystem) : Host :=
  { h with fs := fs, log := h.log ++ [.snapshot cause] }

def Host.replace (h : Host) (cause : Option ReleaseManifest) (fs : FileSystem)
    (version content : Bytes) : Host :=
  { h with
    fs := fs
    replaced := true
    restarts := h.restarts ++ [⟨h.currentExe, cause⟩]
    log := h.log ++ [.snapshot cause, .installed version content cause h.image] }

def Host.rollBack (h : Host) (fs : FileSystem) : Host :=
  { h with
    fs := fs
    replaced := true
    restarts := h.restarts ++ [⟨h.currentExe, none⟩]
    log := h.log ++ [.snapshot none] }

/-- A new process. It knows no manifest. -/
def Host.boot (h : Host) (exe : FileName) (image : Bytes) : Host :=
  { h with exe := exe, image := image, replaced := false, latestRelease := none, restarts := [] }

/-! ## The node -/

/-- `reason` of an `InstallOutcome`. -/
inductive InstallRefusal where
  | noDataDir
  | noCachedBinary (version : Bytes) (staged : Path)
  | installFailed (e : IoError)
  | rollbackFailed (e : IoError)
  deriving DecidableEq

structure InstallOutcome where
  scheduled : Bool
  reason : Option InstallRefusal
  restartInSecs : Nat
  deriving DecidableEq

def RESTART_DELAY_SECS : Nat := 2

def InstallOutcome.refused (reason : InstallRefusal) : InstallOutcome := ⟨false, some reason, 0⟩

def InstallOutcome.restarting : InstallOutcome := ⟨true, none, RESTART_DELAY_SECS⟩

/-- Why `import_release_binary` turns a binary down. -/
inductive ImportRefusal where
  | hexDecode (e : FromHexError)
  | noDataDir
  | noManifest
  | versionMismatch (latest version : Bytes)
  | store (e : ReleaseStoreError)
  deriving DecidableEq

variable (c : ReleaseCrypto) (site : Site) {call : Call} {m : ReleaseManifest} {h : Host}

def releaseBinaryBytes (h : Host) (version : Bytes) : Option Bytes :=
  match site.dataDir with
  | none => none
  | some dir =>
    match loadBinary dir.1 version h.fs with
    | .ok found => found
    | .error _ => none

/-- `aii_getReleaseBinary`. -/
def getReleaseBinary (h : Host) (version : Bytes) : Option Bytes :=
  (releaseBinaryBytes site h version).map fun bytes => ascii ['0', 'x'] ++ hexText bytes

def prepareInstall (dir : Place) (h : Host) (version : Bytes) : FileSystem :=
  let releases := dir.1.join RELEASES_SUBDIR
  let fs := final (savePrevious (currentAiidPath site h) releases h.fs)
  final (writeBootPending c releases ⟨version, h.head, h.now⟩ fs)

/-- `install_release`. Only whether the path exists is checked. -/
def installRelease (cause : Option ReleaseManifest) (h : Host) (version : Bytes) :
    Host × InstallOutcome :=
  match site.dataDir with
  | none => (h, .refused .noDataDir)
  | some dir =>
    let staged := binaryPath dir.1 version
    if !h.fs.pathExists staged then (h, .refused (.noCachedBinary version staged))
    else
      let target := currentAiidPath site h
      match installBinary staged target (prepareInstall c site dir h version) with
      | .error e fs => (h.tried cause fs, .refused (.installFailed e))
      | .ok _ fs => (h.replace cause fs version (fs.contentAt target), .restarting)

def maybeAutoInstallRelease (h : Host) (version : Bytes) : Host :=
  if !site.autoInstall then h
  else
    match site.dataDir with
    | none => h
    | some dir =>
      if !h.fs.pathExists (binaryPath dir.1 version) then h
      else
        match h.latestRelease with
        | none => h
        | some m =>
          if m.version ≠ version then h else (installRelease c site (some m) h version).1

def recordReleaseAnnouncement (h : Host) (m : ReleaseManifest) : Host × Bool :=
  if isStrictlyNewer m h.latestRelease then
    (maybeAutoInstallRelease c site (h.accept m) m.version, true)
  else (h, false)

/-- `aii_announceRelease`. -/
def announceRelease (h : Host) (m : ReleaseManifest) : Host × Except AnnounceRefusal Unit :=
  match checkAnnouncement c m with
  | .error e => (h, .error e)
  | .ok () =>
    match recordReleaseAnnouncement c site h m with
    | (h', true) => (h', .ok ())
    | (h', false) => (h', .error .notNewer)

def importReleaseBinary (h : Host) (version bytes : Bytes) :
    Host × Except ImportRefusal Unit :=
  match site.dataDir with
  | none => (h, .error .noDataDir)
  | some dir =>
    match h.latestRelease with
    | none => (h, .error .noManifest)
    | some m =>
      if m.version ≠ version then (h, .error (.versionMismatch m.version version))
      else
        match storeVerifiedBinary c dir.1 version m.sha256Hex bytes h.fs with
        | .ok _ fs => (maybeAutoInstallRelease c site (h.store version bytes fs) version, .ok ())
        | .error e fs => ({ h with fs := fs }, .error (.store e))

/-- `aii_importReleaseBinary`. -/
def importReleaseBinaryHex (h : Host) (version hexBytes : Bytes) :
    Host × Except ImportRefusal Unit :=
  match hexDecode (trim0x hexBytes) with
  | .error e => (h, .error (.hexDecode e))
  | .ok bytes => importReleaseBinary c site h version bytes

def rollbackRelease (h : Host) : Host × InstallOutcome :=
  match site.dataDir with
  | none => (h, .refused .noDataDir)
  | some dir =>
    match rollbackToPrevious (dir.1.join RELEASES_SUBDIR) (currentAiidPath site h) h.fs with
    | .error e fs => (h.tried none fs, .refused (.rollbackFailed e))
    | .ok _ fs => (h.rollBack fs, .restarting)

/-- The first self-restart is due. If `execve` fails the process goes on. -/
def selfRestart (h : Host) : Host :=
  match h.restarts with
  | [] => h
  | r :: rest =>
    match readFile (site.exeDir.1 ++ [r.exe.1]) h.fs with
    | .ok image _ => { h.boot r.exe image with log := h.log ++ [.restarted r.cause] }
    | .error _ _ => { h with restarts := rest }

def restart (h : Host) : Host :=
  match readFile (site.exeDir.1 ++ [site.exe.1]) h.fs with
  | .ok image _ => h.boot site.exe image
  | .error _ _ => h

/-- A peer's manifest, compared with what the node knew when the pass
began. -/
def pollManifest (localLatest : Option ReleaseManifest) (h : Host) (remote : ReleaseManifest) :
    Host :=
  if !isStrictlyNewer remote localLatest then h
  else
    match verifyManifestSignatureAny c pinnedReleasePubkeys remote with
    | .error _ => h
    | .ok () => (recordReleaseAnnouncement c site h remote).1

/-- What a host handles at one time. -/
inductive Call where
  | announce (m : ReleaseManifest)
  /-- A peer's manifest, with what the pass compares it with. -/
  | poll (localLatest : Option ReleaseManifest) (remote : ReleaseManifest)
  | importBinary (version hexBytes : Bytes)
  | install (version : Bytes)
  | rollback
  | getBinary (version : Bytes)
  /-- The chain and the clock go on. -/
  | tick (head now : UInt64)
  | selfRestart
  | restart

def step (h : Host) : Call → Host
  | .announce m => (announceRelease c site h m).1
  | .poll localLatest remote => pollManifest c site localLatest h remote
  | .importBinary version hexBytes => (importReleaseBinaryHex c site h version hexBytes).1
  | .install version => (installRelease c site none h version).1
  | .rollback => (rollbackRelease site h).1
  | .getBinary _ => h
  | .tick head now => { h with head := head, now := now }
  | .selfRestart => selfRestart site h
  | .restart => restart site h

def run (h : Host) (calls : List Call) : Host := calls.foldl (step c site) h

/-- The call hands a manifest to `record_release_announcement`, with its
signature verified. -/
inductive Call.Hands (c : ReleaseCrypto) : Call → ReleaseManifest → Prop where
  | announce {m : ReleaseManifest} (hverified : m.Verified c) : Hands c (.announce m) m
  | poll {localLatest : Option ReleaseManifest} {m : ReleaseManifest}
      (hverified : m.Verified c) (hnewer : isStrictlyNewer m localLatest = true) :
      Hands c (.poll localLatest m) m

lemma Call.Hands.verified {c : ReleaseCrypto} (h : call.Hands c m) : m.Verified c := by
  cases h with
  | announce hverified | poll hverified => exact hverified

/-- The executable is not in the directory of the cache. -/
def Site.Outside (site : Site) : Prop :=
  ∀ dir, site.dataDir = some dir → site.exeDir.1 ≠ releasesDir dir.1

/-- A host on which the node is started for the first time: the executable
is there, outside the directory of the cache, and that is empty. -/
structure Host.Fresh (site : Site) (h : Host) : Prop where
  exe : h.exe = site.exe
  found : h.fs.locate (site.exeDir.1 ++ [site.exe.1]) = .ok (site.exeDir.1 ++ [site.exe.1])
  running : h.fs.entry (site.exeDir.1 ++ [site.exe.1]) = some (.file h.image)
  replaced : h.replaced = false
  latest : h.latestRelease = none
  restarts : h.restarts = []
  log : h.log = []
  outside : site.Outside
  empty : ∀ dir, site.dataDir = some dir → ∀ n, h.fs.entry (releasesDir dir.1 ++ [n]) = none

/-! ## What a call does -/

/-- What a call has done when the conditions for an automatic install are
looked at. -/
inductive Mid (h : Host) : Call → Host → Prop where
  | accept {call : Call} {m : ReleaseManifest} (hhands : call.Hands c m)
      (hnewer : isStrictlyNewer m h.latestRelease = true) : Mid h call (h.accept m)
  | store {dir : Place} {m : ReleaseManifest} {hexBytes bytes : Bytes} {path : Path}
      {fs : FileSystem} (hdir : site.dataDir = some dir) (hlatest : h.latestRelease = some m)
      (hhex : hexDecode (trim0x hexBytes) = .ok bytes)
      (hstore : storeVerifiedBinary c dir.1 m.version m.sha256Hex bytes h.fs = .ok path fs) :
      Mid h (.importBinary m.version hexBytes) (h.store m.version bytes fs)

inductive Does (h : Host) : Call → Host → Prop where
  | nothing (call : Call) : Does h call h
  | mid {call : Call} {h' : Host} (hmid : Mid c site h call h') : Does h call h'
  | autoInstall {call : Call} {h' : Host} {m : ReleaseManifest} (hmid : Mid c site h call h')
      (hauto : site.autoInstall = true) (hlatest : h'.latestRelease = some m) :
      Does h call (installRelease c site (some m) h' m.version).1
  | storeFailed {dir : Place} {m : ReleaseManifest} {hexBytes bytes : Bytes}
      {e : ReleaseStoreError} {fs : FileSystem} (hdir : site.dataDir = some dir)
      (hlatest : h.latestRelease = some m) (hhex : hexDecode (trim0x hexBytes) = .ok bytes)
      (hstore : storeVerifiedBinary c dir.1 m.version m.sha256Hex bytes h.fs = .error e fs) :
      Does h (.importBinary m.version hexBytes) { h with fs := fs }
  | install (version : Bytes) :
      Does h (.install version) (installRelease c site none h version).1
  | rollback : Does h .rollback (rollbackRelease site h).1
  | tick (head now : UInt64) : Does h (.tick head now) { h with head := head, now := now }
  | restartFailed {r : Restart} {rest : List Restart} (hrestarts : h.restarts = r :: rest) :
      Does h .selfRestart { h with restarts := rest }
  | selfRestart {r : Restart} {rest : List Restart} {image : Bytes} {fs : FileSystem}
      (hrestarts : h.restarts = r :: rest)
      (hread : readFile (site.exeDir.1 ++ [r.exe.1]) h.fs = .ok image fs) :
      Does h .selfRestart { h.boot r.exe image with log := h.log ++ [.restarted r.cause] }
  | restart {image : Bytes} {fs : FileSystem}
      (hread : readFile (site.exeDir.1 ++ [site.exe.1]) h.fs = .ok image fs) :
      Does h .restart (h.boot site.exe image)

lemma installRelease_cases (cause : Option ReleaseManifest) (h : Host) (version : Bytes) :
    (installRelease c site cause h version).1 = h ∨
      ∃ dir, site.dataDir = some dir ∧ h.fs.pathExists (binaryPath dir.1 version) = true ∧
        ((∃ e fs, installBinary (binaryPath dir.1 version) (currentAiidPath site h)
            (prepareInstall c site dir h version) = .error e fs ∧
            (installRelease c site cause h version).1 = h.tried cause fs) ∨
          ∃ path fs, installBinary (binaryPath dir.1 version) (currentAiidPath site h)
            (prepareInstall c site dir h version) = .ok path fs ∧
            (installRelease c site cause h version).1 =
              h.replace cause fs version (fs.contentAt (currentAiidPath site h))) := by
  unfold installRelease
  cases hdir : site.dataDir with
  | none => exact .inl rfl
  | some dir =>
    by_cases het : h.fs.pathExists (binaryPath dir.1 version) = true
    · right
      refine ⟨dir, rfl, het, ?_⟩
      simp [het, Bool.not_true, Bool.false_eq_true]
      cases hr : installBinary (binaryPath dir.1 version) (currentAiidPath site h)
          (prepareInstall c site dir h version) with
      | error e fs => exact .inl ⟨e, fs, rfl, rfl⟩
      | ok path fs => exact .inr ⟨path, fs, rfl, rfl⟩
    · left
      simp [het]

lemma rollbackRelease_cases (h : Host) : (rollbackRelease site h).1 = h ∨
      ∃ dir fs, site.dataDir = some dir ∧
        ((∃ e, rollbackToPrevious (releasesDir dir.1) (currentAiidPath site h) h.fs = .error e fs ∧
            (rollbackRelease site h).1 = h.tried none fs) ∨
          ∃ path, rollbackToPrevious (releasesDir dir.1) (currentAiidPath site h) h.fs =
              .ok path fs ∧ (rollbackRelease site h).1 = h.rollBack fs) := by
  unfold rollbackRelease
  cases hdir : site.dataDir with
  | none => exact .inl rfl
  | some dir =>
    right
    simp only [join_releases]
    cases hr : rollbackToPrevious (releasesDir dir.1) (currentAiidPath site h) h.fs with
    | error e fs => exact ⟨dir, fs, rfl, .inl ⟨e, hr, rfl⟩⟩
    | ok path fs => exact ⟨dir, fs, rfl, .inr ⟨path, hr, rfl⟩⟩

lemma maybeAutoInstallRelease_cases (h : Host) (version : Bytes) :
    maybeAutoInstallRelease c site h version = h ∨
      ∃ m, site.autoInstall = true ∧ h.latestRelease = some m ∧
        maybeAutoInstallRelease c site h version =
          (installRelease c site (some m) h m.version).1 := by
  unfold maybeAutoInstallRelease
  cases hauto : site.autoInstall with
  | false => exact .inl rfl
  | true =>
    cases hdir : site.dataDir with
    | none => exact .inl rfl
    | some dir =>
      cases hlatest : h.latestRelease with
      | none => simp
      | some m =>
        by_cases hvn : m.version = version
        · subst hvn
          by_cases het : h.fs.pathExists (binaryPath dir.1 m.version) = true
          · exact .inr ⟨m, rfl, rfl, by simp [het]⟩
          · simp [het]
        · simp [hvn]

variable {c site}

lemma Mid.does {h' : Host} (hmid : Mid c site h call h') (version : Bytes) :
    Does c site h call (maybeAutoInstallRelease c site h' version) := by
  rcases maybeAutoInstallRelease_cases c site h' version with heq | ⟨m, hauto, hlatest, heq⟩
  · rw [heq]
    exact .mid hmid
  · rw [heq]
    exact .autoInstall hmid hauto hlatest

lemma Call.Hands.does (hhands : call.Hands c m) :
    Does c site h call (recordReleaseAnnouncement c site h m).1 := by
  unfold recordReleaseAnnouncement
  split_ifs with hnewer
  · exact (Mid.accept hhands hnewer).does m.version
  · exact .nothing call

variable (c site)

lemma announce_does (h : Host) (m : ReleaseManifest) :
    Does c site h (.announce m) (announceRelease c site h m).1 := by
  unfold announceRelease
  cases hck : checkAnnouncement c m with
  | error => exact .nothing _
  | ok =>
    have hdo : Does c site h (.announce m) (recordReleaseAnnouncement c site h m).1 :=
      (Call.Hands.announce ((checkAnnouncement_ok_iff c m).mp hck)).does
    cases hrc : recordReleaseAnnouncement c site h m with
    | mk _ taken => grind

lemma poll_does (localLatest : Option ReleaseManifest) (h : Host) (remote : ReleaseManifest) :
    Does c site h (.poll localLatest remote) (pollManifest c site localLatest h remote) := by
  unfold pollManifest
  split_ifs with ho
  · exact .nothing _
  · have hnewer : isStrictlyNewer remote localLatest = true := by simpa using ho
    cases hck : verifyManifestSignatureAny c pinnedReleasePubkeys remote with
    | error => exact .nothing _
    | ok =>
      exact (Call.Hands.poll ((verifyManifestSignatureAny_ok_iff c remote).mp hck) hnewer).does

lemma import_does (h : Host) (version hexBytes : Bytes) :
    Does c site h (.importBinary version hexBytes)
      (importReleaseBinaryHex c site h version hexBytes).1 := by
  unfold importReleaseBinaryHex importReleaseBinary
  cases hhex : hexDecode (trim0x hexBytes) with
  | error => exact .nothing _
  | ok bytes =>
    cases hdir : site.dataDir with
    | none => exact .nothing _
    | some dir =>
      cases hlatest : h.latestRelease with
      | none => exact .nothing _
      | some m =>
        by_cases hvn : m.version = version
        · subst hvn
          dsimp only
          rw [if_neg (not_not.mpr rfl)]
          cases hstore : storeVerifiedBinary c dir.1 m.version m.sha256Hex bytes h.fs with
          | ok => exact (Mid.store hdir hlatest hhex hstore).does m.version
          | error => simpa only [hlatest] using Does.storeFailed hdir hlatest hhex hstore
        · dsimp only
          rw [if_pos hvn]
          exact .nothing _

lemma step_does (h : Host) (call : Call) : Does c site h call (step c site h call) := by
  cases call with
  | announce m => exact announce_does c site h m
  | poll localLatest remote => exact poll_does c site localLatest h remote
  | importBinary version hexBytes => exact import_does c site h version hexBytes
  | install version => exact .install version
  | rollback => exact .rollback
  | getBinary => exact .nothing _
  | tick head now => exact .tick head now
  | selfRestart =>
    rw [step, selfRestart]
    cases hrestarts : h.restarts with
    | nil => exact .nothing _
    | cons r =>
      dsimp only
      cases hread : readFile (site.exeDir.1 ++ [r.exe.1]) h.fs with
      | ok => exact .selfRestart hrestarts hread
      | error => exact .restartFailed hrestarts
  | restart =>
    rw [step, restart]
    cases hread : readFile (site.exeDir.1 ++ [site.exe.1]) h.fs with
    | ok => exact .restart hread
    | error => exact .nothing _

def referenceRelease : ReleaseCrypto where
  sha256 := referenceHash
  ed25519Verify key msg sig := sig.toList = (referenceHash msg).toList ++ key.toList
  bootJson record := record.version

def referenceManifest (version binary : Bytes) (timestampUnix : UInt64) : ReleaseManifest where
  version := version
  sha256Hex := hexText (referenceHash binary).toList
  timestampUnix := timestampUnix
  ed25519SigHex :=
    hexText ((referenceHash
      (canonicalPayload version (referenceHash binary) timestampUnix)).toList ++
        RELEASE_SIGNING_PUBKEY.toList)

def sampleSite : Site where
  dataDir := some ⟨[ascii ['d']], by decide⟩
  exeDir := ⟨[ascii ['b']], by decide⟩
  exe := ⟨ascii ['a'], by decide⟩
  autoInstall := true

def sampleHost : Host where
  fs := ⟨fun l =>
    if l = [] ∨ l = [ascii ['d']] ∨ l = [ascii ['b']] then some .dir
    else if l = [ascii ['b'], ascii ['a']] then some (.file [1])
    else if l = [ascii ['d'], ascii ['k']] then some (.file [7])
    else none⟩
  exe := sampleSite.exe
  image := [1]
  replaced := false
  latestRelease := none
  restarts := []
  head := 0
  now := 0
  log := []

lemma sampleHost_fresh : sampleHost.Fresh sampleSite where
  exe := rfl
  found := by decide
  running := by decide
  replaced := rfl
  latest := rfl
  restarts := rfl
  log := rfl
  outside dir hdir := by
    cases hdir
    decide
  empty dir hdir n := by
    cases hdir
    simp [sampleHost, releasesDir]

end Aii.Release
