/-
Aii.Release.Store — the cache of release binaries and the installer
(`release_store.rs` and `release_install.rs` of `aii-node`).

The bookkeeping of the installer is in the cache directory, in files that
start with a dot.
-/
import Aii.Common.FileSystem
import Aii.Release.Manifest

namespace Aii.Release

open Common Node FileSystem List Release EStateM.Result Path

variable (c : ReleaseCrypto)

def RELEASES_SUBDIR : Bytes := ascii ['r', 'e', 'l', 'e', 'a', 's', 'e', 's']

inductive ReleaseStoreError where
  | io (e : IoError)
  | hex (e : FromHexError)
  | length (got : Nat)
  | hashMismatch (expected computed : Bytes)
  deriving DecidableEq

def binaryPath (dataDir : Path) (version : Bytes) : Path :=
  (dataDir.join RELEASES_SUBDIR).join version

/-- `store_verified_binary`, once the hash has been checked. -/
def placeBinary (dataDir : Path) (version bytes : Bytes) : FsM Path := do
  let target := binaryPath dataDir version
  match target.parent with
  | some parent => createDirAll parent
  | none => pure ()
  let tmp := target.withExtension (ascii ['t', 'm', 'p'])
  writeFile tmp bytes
  rename tmp target
  pure target

def storeVerifiedBinary (dataDir : Path) (version expectedSha256Hex bytes : Bytes) :
    EStateM ReleaseStoreError FileSystem Path :=
  let expectedLower := toAsciiLowercase (trim0x expectedSha256Hex)
  match hexDecode expectedLower with
  | .error e => throw (.hex e)
  | .ok expectedBytes =>
    if expectedBytes.length ≠ 32 then throw (.length expectedBytes.length)
    else
      let computedHex := hexText (c.sha256 bytes).toList
      if computedHex ≠ expectedLower then throw (.hashMismatch expectedLower computedHex)
      else EStateM.adaptExcept .io (placeBinary dataDir version bytes)

def loadBinary (dataDir : Path) (version : Bytes) (fs : FileSystem) :
    Except IoError (Option Bytes) :=
  match readFile (binaryPath dataDir version) fs with
  | .ok bytes _ => .ok (some bytes)
  | .error .notFound _ => .ok none
  | .error e _ => .error e

/-! ## The installer -/

def NEW_SUFFIX : Bytes := ascii ['.', 'n', 'e', 'w']

def PREVIOUS_NAME : Bytes := ascii ['.', 'p', 'r', 'e', 'v', 'i', 'o', 'u', 's']

/-- The suffix of the file that holds the snapshot during a rollback. -/
def ROLL_SUFFIX : Bytes := ascii ['.', 'r', 'o', 'l', 'l']

def BOOT_PENDING_NAME : Bytes :=
  ascii ['.', 'b', 'o', 'o', 't', '-', 'p', 'e', 'n', 'd', 'i', 'n', 'g']

def previousPath (releasesDir : Path) : Path := releasesDir.join PREVIOUS_NAME

def bootPendingPath (releasesDir : Path) : Path := releasesDir.join BOOT_PENDING_NAME

def savePrevious (currentExe releasesDir : Path) : FsM Path := do
  createDirAll releasesDir
  let target := previousPath releasesDir
  let staging := target.withSuffix NEW_SUFFIX
  removeIfExists staging
  copyFile currentExe staging
  rename staging target
  pure target

def installBinary (staged target : Path) : FsM Path := do
  let newPath := target.withSuffix NEW_SUFFIX
  removeIfExists newPath
  copyFile staged newPath
  rename newPath target
  pure target

/-- `rollback_to_previous`, up to the new snapshot: the old one is moved
out of its way. -/
def holdPrevious (releasesDir target : Path) : FsM Path := do
  let previous := previousPath releasesDir
  let holding := previous.withSuffix ROLL_SUFFIX
  removeIfExists holding
  rename previous holding
  let _ ← savePrevious target releasesDir
  pure holding

/-- `rollback_to_previous`. The held snapshot is removed whether the
install succeeds or not. -/
def rollbackToPrevious (releasesDir target : Path) : FsM Path := fun fs =>
  if !fs.pathExists (previousPath releasesDir) then .error .notFound fs
  else
    match holdPrevious releasesDir target fs with
    | .error e fs' => .error e fs'
    | .ok holding fs' =>
      match installBinary holding target fs' with
      | .ok installed fs'' => .ok installed (final (removeFile holding fs''))
      | .error e fs'' => .error e (final (removeFile holding fs''))

def writeBootPending (releasesDir : Path) (record : BootPending) : FsM Path := do
  createDirAll releasesDir
  let target := bootPendingPath releasesDir
  let staging := target.withSuffix NEW_SUFFIX
  removeIfExists staging
  writeFile staging (c.bootJson record)
  rename staging target
  pure target

/-! ## Plain versions -/

def Plain (version : Bytes) : Prop :=
  version ≠ [] ∧ version.head? ≠ some 0x2e ∧ slash ∉ version ∧ 0 ∉ version
deriving Decidable

def releasesDir (dataDir : Path) : Path := dataDir ++ [RELEASES_SUBDIR]

def tmpName (version : Bytes) : Bytes :=
  Path.fileStem version ++ dot ++ ascii ['t', 'm', 'p']

variable {dataDir : Path} {version : Bytes} {d : Path} {n : Bytes} {s : Bytes}

lemma Plain.proper (h : Plain version) : Proper version where
  ne_nil := h.1
  ne_dot := by
    rintro rfl
    exact h.2.1 rfl
  ne_dotDot := by
    rintro rfl
    exact h.2.1 rfl
  no_slash := h.2.2.1
  no_nul := h.2.2.2

lemma head?_of_prefix {t : Bytes} (h : s <+: t) (hs : s ≠ []) : s.head? = t.head? := by
  obtain ⟨_, rfl⟩ := h
  cases s with
  | nil => exact absurd rfl hs
  | cons => rfl

lemma Plain.tmpName (h : Plain version) : Plain (tmpName version) := by
  obtain ⟨hpre, hs⟩ := fileStem_prefix h.1
  have hm : ∀ b, b ∉ version → b ∉ dot ++ ascii ['t', 'm', 'p'] → b ∉ Release.tmpName version := by
    intro b hb he
    rw [Release.tmpName, append_assoc, mem_append, not_or]
    exact ⟨fun hin => hb (hpre.subset hin), he⟩
  refine ⟨by simp [Release.tmpName, dot], ?_, hm _ h.2.2.1 (by decide), hm _ h.2.2.2 (by decide)⟩
  have hhd : (Release.tmpName version).head? = version.head? := by
    have hpre' : fileStem version <+: Release.tmpName version := by
      rw [Release.tmpName, append_assoc]
      exact prefix_append _ _
    rw [← head?_of_prefix hpre' hs, head?_of_prefix hpre hs]
  rw [hhd]
  exact h.2.1

lemma ne_of_plain (h : Plain version) (hs : s.head? = some 0x2e) : s ≠ version := by
  rintro rfl
  exact h.2.1 hs

lemma concat_ne {m : Bytes} (h : n ≠ m) : d ++ [n] ≠ d ++ [m] := by simpa using h

lemma proper_new (hn : Proper n) : Proper (n ++ NEW_SUFFIX) :=
  hn.append (by simp [NEW_SUFFIX, ascii]) (by decide) (by decide)

lemma proper_staging (h : ProperPath (d ++ [n])) : ProperPath (d ++ [n ++ NEW_SUFFIX]) :=
  proper_concat (fun x hx => h x (mem_append_left _ hx)) (proper_new (h n (by simp)))

lemma proper_RELEASES_SUBDIR : Proper RELEASES_SUBDIR := by decide

lemma proper_PREVIOUS_NAME : Proper PREVIOUS_NAME := by decide

lemma proper_BOOT_PENDING_NAME : Proper BOOT_PENDING_NAME := by decide

lemma proper_holding : Proper (PREVIOUS_NAME ++ ROLL_SUFFIX) := by decide

lemma join_releases (dataDir : Path) : dataDir.join RELEASES_SUBDIR = releasesDir dataDir :=
  join_of_no_slash proper_RELEASES_SUBDIR.no_slash dataDir

lemma previousPath_eq (d : Path) : previousPath d = d ++ [PREVIOUS_NAME] :=
  join_of_no_slash proper_PREVIOUS_NAME.no_slash d

lemma bootPendingPath_eq (d : Path) : bootPendingPath d = d ++ [BOOT_PENDING_NAME] :=
  join_of_no_slash proper_BOOT_PENDING_NAME.no_slash d

lemma binaryPath_plain (h : Plain version) (dataDir : Path) :
    binaryPath dataDir version = releasesDir dataDir ++ [version] := by
  rw [binaryPath, join_releases, join_of_no_slash h.2.2.1]

lemma proper_releasesDir (hd : ProperPath dataDir) : ProperPath (releasesDir dataDir) :=
  proper_concat hd proper_RELEASES_SUBDIR

/-! ## What the installer writes -/

section Frames

variable {P : FileSystem → Prop}

lemma writeBootPending_keeps (hd : ProperPath d) (hdi : IgnoresDirs P d)
    (hb : Ignores P (d ++ [BOOT_PENDING_NAME]))
    (hn : Ignores P (d ++ [BOOT_PENDING_NAME ++ NEW_SUFFIX])) (record : BootPending) :
    Keeps P (writeBootPending c d record) := by
  have htr := proper_concat hd proper_BOOT_PENDING_NAME
  have hsn := proper_concat hd (proper_new proper_BOOT_PENDING_NAME)
  simp [writeBootPending, bootPendingPath_eq]
  refine (keeps_createDirAll hd hdi).bind fun _ => ?_
  refine (keeps_removeIfExists hsn hn).bind fun _ => ?_
  refine (keeps_writeFile hsn hn _).bind fun _ => ?_
  exact (keeps_rename hsn htr hn hb).bind fun _ => keeps_pure _

lemma installBinary_keeps (htr : ProperPath (d ++ [n])) (h : Ignores P (d ++ [n]))
    (hn : Ignores P (d ++ [n ++ NEW_SUFFIX])) (staged : Path) :
    Keeps P (installBinary staged (d ++ [n])) := by
  have hsn := proper_staging htr
  simp [installBinary]
  refine (keeps_removeIfExists hsn hn).bind fun _ => ?_
  refine (keeps_copyFile hsn hn staged).bind fun _ => ?_
  exact (keeps_rename hsn htr hn h).bind fun _ => keeps_pure _

lemma holdPrevious_ok {target : Path} {fs fs' : FileSystem} {holding : Path}
    (h : holdPrevious d target fs = .ok holding fs') :
    holding = d ++ [PREVIOUS_NAME ++ ROLL_SUFFIX] := by
  simp only [holdPrevious, previousPath_eq, withSuffix_concat, bind_eq_ok] at h
  obtain ⟨_, _, -, _, _, -, _, _, -, he⟩ := h
  exact (ok.inj he).1.symm

end Frames

section Storing

variable {fs : FileSystem} {P : FileSystem → Prop}

section Named

variable (hd : ProperPath dataDir) (hv : Plain version)

include hd hv

lemma placeBinary_plain (bytes : Bytes) : placeBinary dataDir version bytes = (do
    createDirAll (releasesDir dataDir)
    writeFile (releasesDir dataDir ++ [tmpName version]) bytes
    rename (releasesDir dataDir ++ [tmpName version]) (releasesDir dataDir ++ [version])
    pure (releasesDir dataDir ++ [version])) := by
  have hpa := proper_concat (proper_releasesDir hd) hv.proper
  simp only [placeBinary, binaryPath_plain hv, parent_concat hpa, withExtension_concat hpa]
  rfl

lemma placeBinary_keeps (hdi : IgnoresDirs P (releasesDir dataDir))
    (ht : Ignores P (releasesDir dataDir ++ [tmpName version]))
    (h : Ignores P (releasesDir dataDir ++ [version])) (bytes : Bytes) :
    Keeps P (placeBinary dataDir version bytes) := by
  have hR := proper_releasesDir hd
  have htr := proper_concat hR hv.proper
  have hsn := proper_concat hR hv.tmpName.proper
  rw [placeBinary_plain hd hv]
  refine (keeps_createDirAll hR hdi).bind fun _ => ?_
  refine (keeps_writeFile hsn ht bytes).bind fun _ => ?_
  exact (keeps_rename hsn htr ht h).bind fun _ => keeps_pure _

lemma placeBinary_cases (hdir : fs.entry (releasesDir dataDir ++ [version]) ≠ some .dir)
    (bytes : Bytes) :
    (∃ e fs', placeBinary dataDir version bytes fs = .error e fs' ∧
      ∀ n, fs'.entry (releasesDir dataDir ++ [n]) = fs.entry (releasesDir dataDir ++ [n])) ∨
    ∃ path fs', placeBinary dataDir version bytes fs = .ok path fs' ∧
      fs'.entry (releasesDir dataDir ++ [version]) = some (.file bytes) ∧ ∀ n ≠ version,
        fs'.entry (releasesDir dataDir ++ [n]) = fs.entry (releasesDir dataDir ++ [n]) ∨
        fs'.entry (releasesDir dataDir ++ [n]) = none := by
  have hR := proper_releasesDir hd
  have hsn := proper_concat hR hv.tmpName.proper
  rw [placeBinary_plain hd hv]
  generalize hrl : releasesDir dataDir = R at *
  have hm : ∀ n, (final (createDirAll R fs)).entry (R ++ [n]) = fs.entry (R ++ [n]) := fun n =>
    keeps_createDirAll hR (ignoresDirs_below (· = fs.entry (R ++ [n]))) fs rfl
  simp only [bind_apply]
  cases hr : createDirAll R fs with
  | error e fs₁ =>
    exact .inl ⟨e, fs₁, rfl, fun n => by simpa [hr, final] using hm n⟩
  | ok _ fs₁ =>
    have hsm : ∀ n, fs₁.entry (R ++ [n]) = fs.entry (R ++ [n]) := fun n => by
      simpa [hr, final] using hm n
    rcases writeFile_cases (R ++ [tmpName version]) bytes fs₁ with
      ⟨e, hw⟩ | ⟨l, hl, ht, hw⟩
    · exact .inl ⟨e, fs₁, by simp [hw], hsm⟩
    · obtain rfl := locate_proper hsn hl
      -- the temporary name was found, so the version is found beside it
      obtain ⟨hfo, hth⟩ := locate_parent hsn hl
      have hlc := locate_child (proper_concat hR hv.proper) hfo hth
      have hnr : (fs₁.set (R ++ [tmpName version]) (some (.file bytes))).entry
          (R ++ [version]) ≠ some .dir :=
        set_not_dir (by simp) (by rw [hsm]; exact hdir)
      have hmv := rename_ok (locate_set ht hl) (locate_set ht hlc)
        (set_entry_self _ _ _) hnr
      refine .inr ⟨R ++ [version], _, by simp [hw, hmv]; rfl, by simp, ?_⟩
      intro n hn
      rw [set_entry_ne (concat_ne hn)]
      by_cases hn' : n = tmpName version
      · exact .inr (by rw [hn', set_entry_self])
      · left
        rw [set_entry_ne (concat_ne hn'), set_entry_ne (concat_ne hn'), hsm]

end Named

lemma storeVerifiedBinary_cases (dataDir : Path) (version sha bytes : Bytes) (fs : FileSystem) :
    (∃ e, storeVerifiedBinary c dataDir version sha bytes fs = .error e fs) ∨
      hexText (c.sha256 bytes).toList = toAsciiLowercase (trim0x sha) ∧
        storeVerifiedBinary c dataDir version sha bytes fs =
          EStateM.adaptExcept .io (placeBinary dataDir version bytes) fs := by
  unfold storeVerifiedBinary
  cases hexDecode (toAsciiLowercase (trim0x sha)) with
  | error => exact .inl ⟨_, rfl⟩
  | ok =>
    dsimp only
    split_ifs with hl hhs
    · exact .inl ⟨_, rfl⟩
    · exact .inl ⟨_, rfl⟩
    · exact .inr ⟨not_not.mp hhs, rfl⟩

lemma storeVerifiedBinary_keeps (hd : ProperPath dataDir) (hv : Plain version)
    (hdi : IgnoresDirs P (releasesDir dataDir))
    (hpl : ∀ w, Plain w → Ignores P (releasesDir dataDir ++ [w])) (sha bytes : Bytes) :
    Keeps P (storeVerifiedBinary c dataDir version sha bytes) := by
  intro fs hfs
  rcases storeVerifiedBinary_cases c dataDir version sha bytes fs with ⟨e, hf⟩ | ⟨-, heq⟩
  · rwa [hf]
  · rw [heq]
    exact (placeBinary_keeps hd hv hdi (hpl _ hv.tmpName) (hpl _ hv) bytes).adaptExcept _
      fs hfs

end Storing

section Installing

variable {fs fs' : FileSystem} {e : Path} {P : FileSystem → Prop} {err : IoError}

lemma savePrevious_ok {content : Bytes} (hd : ProperPath d) (hl : fs.locate d = .ok d)
    (hdir : fs.entry d = some .dir) (hprev : fs.entry (d ++ [PREVIOUS_NAME]) ≠ some .dir)
    (hnw : fs.entry (d ++ [PREVIOUS_NAME ++ NEW_SUFFIX]) ≠ some .dir)
    (hfl : fs.locate (e ++ [n]) = .ok (e ++ [n])) (hc : fs.entry (e ++ [n]) = some (.file content))
    (hed : e ≠ d) :
    (final (savePrevious (e ++ [n]) d fs)).entry (d ++ [PREVIOUS_NAME]) = some (.file content) := by
  have hw : ∀ m, Proper m → fs.locate (d ++ [m]) = .ok (d ++ [m]) := fun m hm =>
    locate_child (proper_concat hd hm) hl hdir
  have hne : ∀ m, e ++ [n] ≠ d ++ [m] := fun m h => hed (append_inj' h rfl).1
  have hsn := hw _ (proper_new proper_PREVIOUS_NAME)
  obtain ⟨fs₁, hre, hgn, hsm, hfo⟩ := removeIfExists_ok hsn hnw
  have hcp :=
      copyFile_ok (hfo _ _ hfl) (hfo _ _ hsn) (by rw [hsm _ (hne _), hc])
      (by simp [hgn]) (hne _)
  have hn : fs₁.entry (d ++ [PREVIOUS_NAME ++ NEW_SUFFIX]) ≠ some .dir := by simp [hgn]
  have hprev' : (fs₁.set (d ++ [PREVIOUS_NAME ++ NEW_SUFFIX]) (some (.file content))).entry
      (d ++ [PREVIOUS_NAME]) ≠ some .dir := by
    refine set_not_dir (by simp) ?_
    rwa [hsm _ (concat_ne (by decide))]
  have hmv := rename_ok (locate_set hn (hfo _ _ hsn))
    (locate_set hn (hfo _ _ (hw _ proper_PREVIOUS_NAME))) (set_entry_self _ _ _) hprev'
  simp only [savePrevious, previousPath_eq, withSuffix_concat, bind_apply,
    createDirAll_of_dir hd hl hdir, hre, hcp, hmv]
  exact set_entry_self _ _ _

lemma installBinary_ok {path : Path} (htr : ProperPath (e ++ [n])) (hs : ProperPath d)
    (hne : d ≠ e ++ [n ++ NEW_SUFFIX]) (h : installBinary d (e ++ [n]) fs = .ok path fs') :
    ∃ content, fs.entry d = some (.file content) ∧ fs'.entry (e ++ [n]) = some (.file content) := by
  have hn := proper_staging htr
  simp only [installBinary, withSuffix_concat, bind_eq_ok] at h
  obtain ⟨_, fs₁, hre, _, _, hcp, _, _, hmv, hed⟩ := h
  have hkp : fs₁.entry d = fs.entry d := by
    simpa [hre, final] using
      keeps_removeIfExists hn (ignores_entry hne (fs.entry d)) fs rfl
  rcases copyFile_cases d (e ++ [n ++ NEW_SUFFIX]) fs₁ with
    ⟨err, hf⟩ | ⟨l, l', content, hl, hl', hen, -, hdn⟩
  · simp [hf] at hcp
  obtain rfl := locate_proper hs hl
  obtain rfl := locate_proper hn hl'
  rw [hdn, if_neg hne] at hcp
  obtain rfl := (ok.inj hcp).2
  rcases rename_cases (e ++ [n ++ NEW_SUFFIX]) (e ++ [n])
    (fs₁.set (e ++ [n ++ NEW_SUFFIX]) (some (.file content))) with
    ⟨err, hf⟩ | ⟨l, l', content', hl, hl', hen', -, hdn'⟩
  · simp [hf] at hmv
  obtain rfl := locate_proper hn hl
  obtain rfl := locate_proper htr hl'
  obtain rfl : content = content' := by simpa using hen'
  rw [hdn'] at hmv
  refine ⟨content, by rw [← hkp, hen], ?_⟩
  rw [← (ok.inj hed).2, ← (ok.inj hmv).2, set_entry_self]

lemma installBinary_error {staged : Path} (htr : ProperPath (e ++ [n]))
    (hn : Ignores P (e ++ [n ++ NEW_SUFFIX])) (hfs : P fs)
    (h : installBinary staged (e ++ [n]) fs = .error err fs') : P fs' := by
  have hsn := proper_staging htr
  -- everything before the rename only writes the staging file
  have hke := ((keeps_removeIfExists hsn hn).bind fun _ => keeps_copyFile hsn hn staged) fs hfs
  simp only [installBinary, withSuffix_concat, ← bind_assoc] at h
  rw [bind_assoc] at h
  rcases bind_eq_error.mp h with hf | ⟨_, fs₂, hcp, h⟩
  · simpa [hf, final] using hke
  have hfs₂ : P fs₂ := by simpa [hcp, final] using hke
  rcases bind_eq_error.mp h with hf | ⟨_, _, -, h⟩
  · rcases rename_cases (e ++ [n ++ NEW_SUFFIX]) (e ++ [n]) fs₂ with
      ⟨err', hmv⟩ | ⟨_, _, _, -, -, -, -, hmv⟩
    · grind
    · simp [hmv] at hf
  · cases h

end Installing

section Snapshot

variable {fs fs' : FileSystem} {e : Path} {P : FileSystem → Prop} {err : IoError}
  (hd : ProperPath d) (hdi : IgnoresDirs P d) (hprev : Ignores P (d ++ [PREVIOUS_NAME]))
  (hn : Ignores P (d ++ [PREVIOUS_NAME ++ NEW_SUFFIX]))

include hd hdi hprev hn

lemma savePrevious_keeps (exe : Path) : Keeps P (savePrevious exe d) := by
  have htr := proper_concat hd proper_PREVIOUS_NAME
  have hsn := proper_concat hd (proper_new proper_PREVIOUS_NAME)
  simp [savePrevious, previousPath_eq]
  refine (keeps_createDirAll hd hdi).bind fun _ => ?_
  refine (keeps_removeIfExists hsn hn).bind fun _ => ?_
  refine (keeps_copyFile hsn hn exe).bind fun _ => ?_
  exact (keeps_rename hsn htr hn hprev).bind fun _ => keeps_pure _

variable (hho : Ignores P (d ++ [PREVIOUS_NAME ++ ROLL_SUFFIX]))

include hho

lemma holdPrevious_keeps (target : Path) : Keeps P (holdPrevious d target) := by
  have hp := proper_concat hd proper_PREVIOUS_NAME
  have hh := proper_concat hd proper_holding
  simp [holdPrevious, previousPath_eq]
  refine (keeps_removeIfExists hh hho).bind fun _ => ?_
  refine (keeps_rename hp hh hprev hho).bind fun _ => ?_
  exact (savePrevious_keeps hd hdi hprev hn target).bind fun _ => keeps_pure _

lemma rollbackToPrevious_keeps (htr : ProperPath (e ++ [n])) (he : Ignores P (e ++ [n]))
    (hex : Ignores P (e ++ [n ++ NEW_SUFFIX])) : Keeps P (rollbackToPrevious d (e ++ [n])) := by
  intro fs hfs
  unfold rollbackToPrevious
  split_ifs
  · exact hfs
  have hhl := holdPrevious_keeps hd hdi hprev hn hho (e ++ [n]) fs hfs
  cases hrun : holdPrevious d (e ++ [n]) fs with
  | error => simpa [hrun, final] using hhl
  | ok _ fs' =>
    obtain rfl := holdPrevious_ok hrun
    have hmid : P fs' := by simpa [hrun, final] using hhl
    have hi := installBinary_keeps htr he hex
      (d ++ [PREVIOUS_NAME ++ ROLL_SUFFIX]) fs' hmid
    have hc := keeps_removeFile (proper_concat hd proper_holding) hho
    cases hrun' : installBinary (d ++ [PREVIOUS_NAME ++ ROLL_SUFFIX]) (e ++ [n]) fs' with
    | ok _ fs'' | error _ fs'' =>
      simpa [hrun', final] using hc fs'' (by simpa [hrun', final] using hi)

lemma rollbackToPrevious_error (htr : ProperPath (e ++ [n]))
    (hex : Ignores P (e ++ [n ++ NEW_SUFFIX])) (hfs : P fs)
    (h : rollbackToPrevious d (e ++ [n]) fs = .error err fs') : P fs' := by
  unfold rollbackToPrevious at h
  split_ifs at h
  · rwa [← (error.inj h).2]
  have hhl := holdPrevious_keeps hd hdi hprev hn hho (e ++ [n]) fs hfs
  cases hrun : holdPrevious d (e ++ [n]) fs with
  | error =>
    simp [hrun, error.injEq] at h
    rw [← h.2]
    simpa [hrun, final] using hhl
  | ok _ fs₁ =>
    obtain rfl := holdPrevious_ok hrun
    have hfs₁ : P fs₁ := by simpa [hrun, final] using hhl
    cases hrun' : installBinary (d ++ [PREVIOUS_NAME ++ ROLL_SUFFIX]) (e ++ [n]) fs₁ with
    | ok => simp [hrun, hrun'] at h
    | error _ fs₂ =>
      simp [hrun, hrun', error.injEq] at h
      rw [← h.2]
      exact keeps_removeFile (proper_concat hd proper_holding) hho fs₂
        (installBinary_error htr hex hfs₁ hrun')

end Snapshot

end Aii.Release
