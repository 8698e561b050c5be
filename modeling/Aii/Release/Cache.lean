/-
Aii.Release.Cache — what the cache of release binaries holds, and what is
installed from it.

A version that comes with a request is joined to the path of the cache as
it is.
-/
import Aii.Release.Host

namespace Aii.Release

open Common Node FileSystem List Option Host EStateM.Result

variable {c : ReleaseCrypto} {site : Site}

/-- A property that does not depend on the installer's files. -/
structure DottedIgnored (dir : Place) (P : FileSystem → Prop) : Prop where
  dirs : IgnoresDirs P (releasesDir dir.1)
  dotted : ∀ s : Bytes, s.head? = some 0x2e → Ignores P (releasesDir dir.1 ++ [s])

/-- A property that does not depend on the installer's files, nor on the
files beside the executable. -/
structure InstallerIgnores (site : Site) (dir : Place) (P : FileSystem → Prop) : Prop
    extends DottedIgnored dir P where
  exe : ∀ n, Ignores P (site.exeDir.1 ++ [n])

variable {dir : Place} {P : FileSystem → Prop} {w : Bytes} {path : Path}

lemma currentAiidPath_proper (h : Host) : ProperPath (currentAiidPath site h) :=
  proper_concat site.exeDir.2 h.currentExe.2

lemma prepareInstall_keeps (hP : DottedIgnored dir P) {h : Host} (version : Bytes)
    (hfs : P h.fs) : P (prepareInstall c site dir h version) := by
  have hR := proper_releasesDir dir.2
  rw [prepareInstall, join_releases]
  refine writeBootPending_keeps c hR hP.dirs (hP.dotted _ rfl) (hP.dotted _ rfl) _ _ ?_
  exact savePrevious_keeps hR hP.dirs (hP.dotted _ rfl) (hP.dotted _ rfl) _ _ hfs

lemma installRelease_keeps (hP : ∀ dir, site.dataDir = some dir → InstallerIgnores site dir P)
    {h : Host} (hfs : P h.fs) (cause : Option ReleaseManifest) (version : Bytes) :
    P (installRelease c site cause h version).1.fs := by
  rcases installRelease_cases c site cause h version with
    heq | ⟨dir, hdir, -, ⟨e, fs, hr, heq⟩ | ⟨path, fs, hr, heq⟩⟩
  · rwa [heq]
  all_goals
    have hi := hP dir hdir
    have hke : P (final (installBinary (binaryPath dir.1 version) (currentAiidPath site h)
        (prepareInstall c site dir h version))) :=
      installBinary_keeps (currentAiidPath_proper h) (hi.exe _) (hi.exe _) _ _
        (prepareInstall_keeps hi.toDottedIgnored version hfs)
    rw [hr] at hke
    rw [heq]
    exact hke

lemma rollbackRelease_keeps (hP : ∀ dir, site.dataDir = some dir → InstallerIgnores site dir P)
    {h : Host} (hfs : P h.fs) : P (rollbackRelease site h).1.fs := by
  rcases rollbackRelease_cases site h with
    heq | ⟨dir, fs, hdir, ⟨e, hr, heq⟩ | ⟨path, hr, heq⟩⟩
  · rwa [heq]
  all_goals
    have hi := hP dir hdir
    have hke : P (final (rollbackToPrevious (releasesDir dir.1) (currentAiidPath site h) h.fs)) :=
      rollbackToPrevious_keeps (proper_releasesDir dir.2) hi.dirs (hi.dotted _ rfl)
        (hi.dotted _ rfl) (hi.dotted _ rfl) (currentAiidPath_proper h) (hi.exe _) (hi.exe _)
        h.fs hfs
    rw [hr] at hke
    rw [heq]
    exact hke

lemma installerIgnores_plain (hot : site.exeDir.1 ≠ releasesDir dir.1) (hw : Plain w)
    (e : Option FsEntry) :
    InstallerIgnores site dir (fun fs => fs.entry (releasesDir dir.1 ++ [w]) = e) where
  dirs := ignoresDirs_below (· = e)
  dotted s hs := ignores_entry (concat_ne (ne_of_plain hw hs).symm) e
  exe n := by
    refine ignores_entry (fun heq : releasesDir dir.1 ++ [w] = site.exeDir.1 ++ [n] => ?_) e
    exact hot (append_inj' heq rfl).1.symm

/-! ## The invariant of the cache -/

variable (c site)

def Vouched (log : List Event) (version bytes : Bytes) : Prop :=
  ∃ m, .accepted m ∈ log ∧ m.Verified c ∧ m.version = version ∧ m.digest? = some (c.sha256 bytes)

/-- Accepted manifests are verified, the latest has a plain version, and
what is cached under a plain name has been stored for it and is vouched
for. -/
structure CacheInv (h : Host) : Prop where
  verified : ∀ m, .accepted m ∈ h.log → m.Verified c
  latest : ∀ m, h.latestRelease = some m → .accepted m ∈ h.log ∧ Plain m.version
  cached : ∀ dir, site.dataDir = some dir → ∀ w, Plain w → ∀ e,
    h.fs.entry (releasesDir dir.1 ++ [w]) = some e →
      ∃ bytes, e = .file bytes ∧ .stored w bytes ∈ h.log ∧ Vouched c h.log w bytes

variable {c site} {h h' : Host} {bytes version : Bytes} {m : ReleaseManifest} {fs : FileSystem}
  {call : Call}

lemma Vouched.mono {log log' : List Event} (hs : ∀ e ∈ log, e ∈ log')
    (hv : Vouched c log version bytes) : Vouched c log' version bytes := by
  obtain ⟨m, hm, hrs⟩ := hv
  exact ⟨m, hs _ hm, hrs⟩

lemma Host.Fresh.cacheInv (hfh : h.Fresh site) : CacheInv c site h where
  verified m hm := by simp [hfh.log] at hm
  latest m hm := by simp [hfh.latest] at hm
  cached dir hdir w _ e he := by simp [hfh.empty dir hdir] at he

lemma CacheInv.frame (hi : CacheInv c site h) (hl : ∀ e ∈ h.log, e ∈ h'.log)
    (ha : ∀ m, .accepted m ∈ h'.log → .accepted m ∈ h.log)
    (hlatest : ∀ m, h'.latestRelease = some m → h.latestRelease = some m)
    (hfs : ∀ dir, site.dataDir = some dir → ∀ w, Plain w → ∀ e,
      h'.fs.entry (releasesDir dir.1 ++ [w]) = some e →
        h.fs.entry (releasesDir dir.1 ++ [w]) = some e) : CacheInv c site h' where
  verified m hm := hi.verified m (ha m hm)
  latest m hm := by
    obtain ⟨hmm, hpl⟩ := hi.latest m (hlatest m hm)
    exact ⟨hl _ hmm, hpl⟩
  cached dir hdir w hw e he := by
    obtain ⟨bytes, heq, hs, hv⟩ := hi.cached dir hdir w hw e (hfs dir hdir w hw e he)
    exact ⟨bytes, heq, hl _ hs, hv.mono hl⟩

lemma CacheInv.not_dir (hi : CacheInv c site h) (hdir : site.dataDir = some dir) (hw : Plain w) :
    h.fs.entry (releasesDir dir.1 ++ [w]) ≠ some .dir := by
  intro hen
  obtain ⟨_, heq, -⟩ := hi.cached dir hdir w hw _ hen
  cases heq

lemma ignores_plain (hot : site.Outside) (hdir : site.dataDir = some dir) (hw : Plain w)
    (x : Option FsEntry) : ∀ dir', site.dataDir = some dir' →
      InstallerIgnores site dir' fun fs => fs.entry (releasesDir dir.1 ++ [w]) = x := by
  intro dir' hdir'
  cases hdir.symm.trans hdir'
  exact installerIgnores_plain (hot dir hdir) hw x

lemma CacheInv.install (hot : site.Outside) (hi : CacheInv c site h)
    (cause : Option ReleaseManifest) (version : Bytes) :
    CacheInv c site (installRelease c site cause h version).1 := by
  have hfr : ∀ dir, site.dataDir = some dir → ∀ w, Plain w → ∀ e,
      (installRelease c site cause h version).1.fs.entry (releasesDir dir.1 ++ [w]) = some e →
        h.fs.entry (releasesDir dir.1 ++ [w]) = some e := fun _ hdir _ hw _ he =>
    (installRelease_keeps (ignores_plain hot hdir hw _) rfl cause version).symm.trans he
  rcases installRelease_cases c site cause h version with
    heq | ⟨dir, -, -, ⟨e, fs, -, heq⟩ | ⟨path, fs, -, heq⟩⟩
  · rwa [heq]
  all_goals
    rw [heq] at hfr ⊢
    refine hi.frame ?_ ?_ (fun m hm => hm) hfr
    · simp +contextual [Host.tried, Host.replace]
    · simp [Host.tried, Host.replace]

lemma CacheInv.rollback (hot : site.Outside) (hi : CacheInv c site h) :
    CacheInv c site (rollbackRelease site h).1 := by
  have hfr : ∀ dir, site.dataDir = some dir → ∀ w, Plain w → ∀ e,
      (rollbackRelease site h).1.fs.entry (releasesDir dir.1 ++ [w]) = some e →
        h.fs.entry (releasesDir dir.1 ++ [w]) = some e := fun _ hdir _ hw _ he =>
    (rollbackRelease_keeps (ignores_plain hot hdir hw _) rfl).symm.trans he
  rcases rollbackRelease_cases site h with heq | ⟨_, fs, -, ⟨e, -, heq⟩ | ⟨_, -, heq⟩⟩
  · rwa [heq]
  all_goals
    rw [heq] at hfr ⊢
    refine hi.frame ?_ ?_ (fun m hm => hm) hfr
    · simp +contextual [tried, rollBack]
    · simp [tried, rollBack]

lemma CacheInv.accept (hi : CacheInv c site h) (hverified : m.Verified c)
    (hpl : Plain m.version) : CacheInv c site (h.accept m) where
  verified m' hm' := by
    rcases mem_append.mp hm' with hm' | hm'
    · exact hi.verified m' hm'
    · grind
  latest m' hm' := by
    obtain rfl : m = m' := Option.some.inj hm'
    exact ⟨by simp [Host.accept], hpl⟩
  cached dir hdir w hw e he := by
    obtain ⟨bytes, heq, hs, hv⟩ := hi.cached dir hdir w hw e he
    exact ⟨bytes, heq, mem_append_left _ hs, hv.mono fun e' he' => mem_append_left _ he'⟩

lemma digest?_of_hexText
    (h : hexText (c.sha256 bytes).toList = toAsciiLowercase (trim0x m.sha256Hex)) :
    m.digest? = some (c.sha256 bytes) := by
  rw [digest?_eq_some_iff, ← hexDecode_lowercase, ← h, hexDecode_hexText]

section Steps

variable (hi : CacheInv c site h) (hdir : site.dataDir = some dir)
  (hlatest : h.latestRelease = some m)

include hi hdir hlatest

lemma CacheInv.store
    (hstore : storeVerifiedBinary c dir.1 m.version m.sha256Hex bytes h.fs = .ok path fs) :
    CacheInv c site (h.store m.version bytes fs) := by
  obtain ⟨ha, hpl⟩ := hi.latest m hlatest
  rcases storeVerifiedBinary_cases c dir.1 m.version m.sha256Hex bytes h.fs with
    ⟨e, hf⟩ | ⟨hhs, heq⟩
  · simp [hf] at hstore
  have hp := adaptExcept_ok (heq.symm.trans hstore)
  rcases placeBinary_cases dir.2 hpl (hi.not_dir hdir hpl) bytes with
    ⟨e, fs', hf, -⟩ | ⟨path', fs', hdn, ht, ho⟩
  · simp [hf] at hp
  obtain ⟨-, rfl⟩ := ok.inj (hdn.symm.trans hp)
  have hl : ∀ e ∈ h.log, e ∈ (h.store m.version bytes fs').log := fun e he =>
    mem_append_left _ he
  refine ⟨fun m' hm' => hi.verified m' (by simpa [store] using hm'),
    fun m' hm' => ?_, fun dir' hdir' w hw e he => ?_⟩
  · obtain ⟨hmm, hpl'⟩ := hi.latest m' hm'
    exact ⟨hl _ hmm, hpl'⟩
  · cases hdir.symm.trans hdir'
    by_cases hwv : w = m.version
    · -- the entry of this version is the one that was just stored
      subst hwv
      refine ⟨bytes, (some.inj (ht.symm.trans he)).symm, by simp [store], m,
        hl _ ha, hi.verified m ha, rfl, digest?_of_hexText hhs⟩
    · rcases ho w hwv with hsm | hnn
      · have he' := hsm ▸ he
        obtain ⟨bytes', heq', hs, hv⟩ := hi.cached dir hdir w hw e he'
        exact ⟨bytes', heq', hl _ hs, hv.mono hl⟩
      · have he' : fs'.entry (releasesDir dir.1 ++ [w]) = some e := he
        simp [hnn] at he'

lemma CacheInv.storeFailed {e : ReleaseStoreError}
    (hstore : storeVerifiedBinary c dir.1 m.version m.sha256Hex bytes h.fs = .error e fs) :
    CacheInv c site { h with fs := fs } := by
  obtain ⟨-, hpl⟩ := hi.latest m hlatest
  refine hi.frame (fun _ he => he) (fun _ hm => hm) (fun _ hm => hm) ?_
  intro dir' hdir' w hw e' he'
  cases hdir.symm.trans hdir'
  rcases storeVerifiedBinary_cases c dir.1 m.version m.sha256Hex bytes h.fs with
    ⟨e₁, hf⟩ | ⟨-, heq⟩
  · cases hf.symm.trans hstore
    exact he'
  obtain ⟨e₁, hp⟩ := adaptExcept_error (heq.symm.trans hstore)
  rcases placeBinary_cases dir.2 hpl (hi.not_dir hdir hpl) bytes with
    ⟨e₂, fs', hf, hsm⟩ | ⟨path', fs', hdn, -⟩
  · grind
  · simp [hdn] at hp

end Steps

def Call.HandsPlain (c : ReleaseCrypto) (call : Call) : Prop :=
  ∀ m, call.Hands c m → Plain m.version

lemma Mid.cacheInv (hpl : call.HandsPlain c) (hi : CacheInv c site h)
    (hmid : Mid c site h call h') : CacheInv c site h' := by
  cases hmid with
  | accept hhands => exact hi.accept hhands.verified (hpl _ hhands)
  | store hdir hlatest _ hstore => exact hi.store hdir hlatest hstore

lemma Does.cacheInv (hot : site.Outside) (hpl : call.HandsPlain c) (hi : CacheInv c site h)
    (hdo : Does c site h call h') : CacheInv c site h' := by
  have hsm : ∀ h' : Host, h'.log = h.log → h'.fs = h.fs →
      (∀ m, h'.latestRelease = some m → h.latestRelease = some m) → CacheInv c site h' := by
    intro h' hl hfs hlatest
    refine hi.frame (by simp [hl]) (by simp [hl]) hlatest fun dir _ w _ e he => ?_
    rwa [hfs] at he
  cases hdo with
  | nothing => exact hi
  | mid hmid => exact hmid.cacheInv hpl hi
  | autoInstall hmid => exact (hmid.cacheInv hpl hi).install hot _ _
  | storeFailed hdir hlatest _ hstore => exact hi.storeFailed hdir hlatest hstore
  | install version => exact hi.install hot none version
  | rollback => exact hi.rollback hot
  | tick | restartFailed => exact hsm _ rfl rfl fun _ hm => hm
  | selfRestart =>
    refine hi.frame ?_ ?_ (by simp [boot]) fun dir _ w _ e he => he
    · simp +contextual
    · simp
  | restart => exact hsm _ rfl rfl (by simp [boot])

lemma CacheInv.run (hot : site.Outside) {calls : List Call}
    (hpl : ∀ call ∈ calls, call.HandsPlain c) (hi : CacheInv c site h) :
    CacheInv c site (run c site h calls) :=
  (along_iff_forall.mpr hpl).keeps
    (fun h call hcl hs => (step_does c site h call).cacheInv hot hcl hs) hi

lemma releaseBinaryBytes_stored (hi : CacheInv c site h) (hvn : Plain version)
    (hsv : releaseBinaryBytes site h version = some bytes) : .stored version bytes ∈ h.log := by
  unfold releaseBinaryBytes at hsv
  cases hdir : site.dataDir with
  | none => simp [hdir] at hsv
  | some dir =>
    have hp := proper_concat (proper_releasesDir dir.2) hvn.proper
    simp [hdir, loadBinary, binaryPath_plain hvn, readFile] at hsv
    cases hlc : h.fs.locate (releasesDir dir.1 ++ [version]) with
    | error e => cases e <;> simp [hlc] at hsv
    | ok =>
      obtain rfl := locate_proper hp hlc
      cases hen : h.fs.entry (releasesDir dir.1 ++ [version]) with
      | none => simp [hlc, hen] at hsv
      | some entry =>
        obtain ⟨content, rfl, hs, -⟩ := hi.cached dir hdir version hvn entry hen
        obtain rfl : content = bytes := by simpa [hlc, hen] using hsv
        exact hs

/-- If versions are plain, a node answers with nothing or with what was
stored for the version. -/
theorem getReleaseBinary_confined (hfresh : h.Fresh site) {calls : List Call}
    (hplain : ∀ call ∈ calls, call.HandsPlain c) {version : Bytes} (hversion : Plain version) :
    getReleaseBinary site (run c site h calls) version = none ∨
      ∃ bytes, .stored version bytes ∈ (run c site h calls).log ∧
        getReleaseBinary site (run c site h calls) version =
          some (ascii ['0', 'x'] ++ hexText bytes) := by
  have hi := hfresh.cacheInv.run hfresh.outside hplain
  unfold getReleaseBinary
  cases hsv : releaseBinaryBytes site (run c site h calls) version with
  | none => exact .inl rfl
  | some bytes => exact .inr ⟨bytes, releaseBinaryBytes_stored hi hversion hsv, rfl⟩

def sampleManifest : ReleaseManifest := referenceManifest (ascii ['1']) [2] 10

def sampleCalls : List Call := [.announce sampleManifest, .importBinary (ascii ['1']) (hexText [2])]

lemma sampleCalls_plain : ∀ call ∈ sampleCalls, call.HandsPlain referenceRelease := by
  intro call hcl m hhands
  obtain rfl | rfl : call = .announce sampleManifest ∨
      call = .importBinary (ascii ['1']) (hexText [2]) := by simpa [sampleCalls] using hcl
  · cases hhands
    decide
  · cases hhands

theorem sampleCalls_served :
    getReleaseBinary sampleSite (run referenceRelease sampleSite sampleHost sampleCalls)
        (ascii ['1']) = some (ascii ['0', 'x', '0', '2']) ∧ ∃ bytes, .stored (ascii ['1']) bytes ∈
          (run referenceRelease sampleSite sampleHost sampleCalls).log ∧
        getReleaseBinary sampleSite (run referenceRelease sampleSite sampleHost sampleCalls)
          (ascii ['1']) = some (ascii ['0', 'x'] ++ hexText bytes) := by
  have hsv : getReleaseBinary sampleSite
      (run referenceRelease sampleSite sampleHost sampleCalls) (ascii ['1']) =
        some (ascii ['0', 'x', '0', '2']) := by decide +kernel
  refine ⟨hsv, (getReleaseBinary_confined sampleHost_fresh sampleCalls_plain
    (by decide : Plain (ascii ['1']))).resolve_left ?_⟩
  simp [hsv]

/-- The key of the node is served, and the executable that ran before. -/
theorem getReleaseBinary_reads_any_file :
    let served := getReleaseBinary sampleSite
      (run referenceRelease sampleSite sampleHost sampleCalls)
    served (ascii ['/', 'd', '/', 'k']) = some (ascii ['0', 'x', '0', '7']) ∧
      served (ascii ['.', '.', '/', 'k']) = some (ascii ['0', 'x', '0', '7']) ∧
      served PREVIOUS_NAME = some (ascii ['0', 'x', '0', '1']) ∧
      ∀ e ∈ (run referenceRelease sampleSite sampleHost sampleCalls).log, ∀ version bytes,
        e = .stored version bytes → version = ascii ['1'] := by
  refine ⟨by decide +kernel, by decide +kernel, by decide +kernel, ?_⟩
  have hl : (run referenceRelease sampleSite sampleHost sampleCalls).log =
      [.accepted sampleManifest, .stored (ascii ['1']) [2], .snapshot (some sampleManifest),
        .installed (ascii ['1']) [2] (some sampleManifest) [1]] := by decide +kernel
  rw [hl]
  simp

/-! ## What is installed -/

variable (c) in
/-- Every install so far took bytes that an accepted manifest of the
version names. -/
def InstallsVouched (h : Host) : Prop :=
  ∀ version bytes cause ran, .installed version bytes cause ran ∈ h.log →
    Vouched c h.log version bytes

lemma installed_vouched (hot : site.Outside) (hi : CacheInv c site h) (hvn : Plain version)
    (hdir : site.dataDir = some dir)
    (hr : installBinary (binaryPath dir.1 version) (currentAiidPath site h)
      (prepareInstall c site dir h version) = .ok path fs) :
    Vouched c h.log version (fs.contentAt (currentAiidPath site h)) := by
  have hs := proper_concat (proper_releasesDir dir.2) hvn.proper
  have hne : releasesDir dir.1 ++ [version] ≠ site.exeDir.1 ++ [h.currentExe.1 ++ NEW_SUFFIX] :=
    fun heq => hot dir hdir (append_inj' heq rfl).1.symm
  rw [binaryPath_plain hvn] at hr
  obtain ⟨_, hc, his⟩ := installBinary_ok (currentAiidPath_proper h) hs hne hr
  -- neither the snapshot nor the sentinel is a cached binary
  have hsm : (prepareInstall c site dir h version).entry (releasesDir dir.1 ++ [version]) =
      h.fs.entry (releasesDir dir.1 ++ [version]) :=
    prepareInstall_keeps (installerIgnores_plain (hot dir hdir) hvn
      (h.fs.entry (releasesDir dir.1 ++ [version]))).toDottedIgnored version rfl
  obtain ⟨bytes, hbt, -, hv⟩ := hi.cached dir hdir version hvn _ (hsm.symm.trans hc)
  have hcn : fs.contentAt (currentAiidPath site h) = bytes := by
    rw [contentAt, currentAiidPath, his]
    exact FsEntry.file.inj hbt
  rwa [hcn]

lemma InstallsVouched.frame (ha : InstallsVouched c h) (hl : ∀ e ∈ h.log, e ∈ h'.log)
    (his : ∀ version bytes cause ran, .installed version bytes cause ran ∈ h'.log →
      .installed version bytes cause ran ∈ h.log) : InstallsVouched c h' :=
  fun version bytes cause ran hm =>
    (ha version bytes cause ran (his version bytes cause ran hm)).mono hl

lemma InstallsVouched.install (hot : site.Outside) (hi : CacheInv c site h)
    (ha : InstallsVouched c h) (hvn : Plain version) (cause : Option ReleaseManifest) :
    InstallsVouched c (installRelease c site cause h version).1 := by
  rcases installRelease_cases c site cause h version with
    heq | ⟨dir, hdir, -, ⟨e, fs, -, heq⟩ | ⟨path, fs, hr, heq⟩⟩
  · rwa [heq]
  · rw [heq]
    exact ha.frame (by simp +contextual [tried]) (by simp [tried])
  · rw [heq]
    intro version' bytes cause' ran hm
    have hl : ∀ e ∈ h.log,
        e ∈ (h.replace cause fs version (fs.contentAt (currentAiidPath site h))).log :=
      fun e he => mem_append_left _ he
    rcases mem_append.mp hm with ho | hn
    · exact (ha version' bytes cause' ran ho).mono hl
    · have hlast : version' = version ∧ bytes = fs.contentAt (currentAiidPath site h) ∧
          cause' = cause ∧ ran = h.image := by simpa using hn
      rw [hlast.1, hlast.2.1]
      exact (installed_vouched hot hi hvn hdir hr).mono hl

lemma Does.installsVouched (hot : site.Outside) (hpl : call.HandsPlain c)
    (hin : ∀ version, call = .install version → Plain version) (hi : CacheInv c site h)
    (ha : InstallsVouched c h) (hdo : Does c site h call h') : InstallsVouched c h' := by
  have hm : ∀ {h'}, Mid c site h call h' → InstallsVouched c h' := by
    rintro _ (_ | _)
    · exact ha.frame (by simp +contextual [accept]) (by simp [accept])
    · exact ha.frame (by simp +contextual [store]) (by simp [store])
  cases hdo with
  | nothing => exact ha
  | mid hmid => exact hm hmid
  | autoInstall hmid _ hlatest =>
    have hmd := hmid.cacheInv hpl hi
    exact (hm hmid).install hot hmd (hmd.latest _ hlatest).2 _
  | storeFailed => exact ha
  | install version => exact ha.install hot hi (hin version rfl) none
  | rollback =>
    rcases rollbackRelease_cases site h with heq | ⟨_, fs, -, ⟨e, -, heq⟩ | ⟨_, -, heq⟩⟩
    · rwa [heq]
    · rw [heq]
      exact ha.frame (by simp +contextual [tried]) (by simp [tried])
    · rw [heq]
      exact ha.frame (by simp +contextual [rollBack]) (by simp [rollBack])
  | tick | restartFailed => exact ha
  | selfRestart => exact ha.frame (by simp +contextual) (by simp)
  | restart => exact ha

def Call.InstallsPlain (c : ReleaseCrypto) (call : Call) : Prop :=
  call.HandsPlain c ∧ ∀ version, call = .install version → Plain version

/-- If versions are plain, whatever was installed has the SHA-256 of an
accepted manifest. -/
theorem installed_binary_verified (hfresh : h.Fresh site) {calls : List Call}
    (hplain : ∀ call ∈ calls, call.InstallsPlain c) {version bytes : Bytes}
    {cause : Option ReleaseManifest} {ran : Bytes}
    (hinstalled : .installed version bytes cause ran ∈ (run c site h calls).log) :
    ∃ m, .accepted m ∈ (run c site h calls).log ∧ m.Verified c ∧ m.version = version ∧
      m.digest? = some (c.sha256 bytes) := by
  have hsr : CacheInv c site h ∧ InstallsVouched c h :=
    ⟨hfresh.cacheInv, fun _ _ _ _ hm => by simp [hfresh.log] at hm⟩
  have he : CacheInv c site (run c site h calls) ∧ InstallsVouched c (run c site h calls) := by
    refine (along_iff_forall.mpr hplain).keeps (P := fun h => CacheInv c site h ∧
      InstallsVouched c h) (fun h call hcl hs => ?_) hsr
    exact ⟨(step_does c site h call).cacheInv hfresh.outside hcl.1 hs.1,
      (step_does c site h call).installsVouched hfresh.outside hcl.1 hcl.2 hs.1 hs.2⟩
  exact he.2 version bytes cause ran hinstalled

theorem sampleCalls_installed : .installed (ascii ['1']) [2] (some sampleManifest) [1] ∈
        (run referenceRelease sampleSite sampleHost sampleCalls).log ∧
      ∃ m, .accepted m ∈ (run referenceRelease sampleSite sampleHost sampleCalls).log ∧
        m.Verified referenceRelease ∧ m.version = ascii ['1'] ∧
        m.digest? = some (referenceRelease.sha256 [2]) := by
  have hm : .installed (ascii ['1']) [2] (some sampleManifest) [1] ∈
      (run referenceRelease sampleSite sampleHost sampleCalls).log := by decide +kernel
  refine ⟨hm, installed_binary_verified sampleHost_fresh (fun call hcl => ?_) hm⟩
  refine ⟨sampleCalls_plain call hcl, ?_⟩
  rintro _ rfl
  simp [sampleCalls] at hcl

/-- An install request with an absolute path makes that file the executable.
-/
theorem installRelease_installs_any_file :
    (run referenceRelease sampleSite sampleHost [.install (ascii ['/', 'd', '/', 'k'])]).log =
        [.snapshot none, .installed (ascii ['/', 'd', '/', 'k']) [7] none [1]] ∧
      (run referenceRelease sampleSite sampleHost
        [.install (ascii ['/', 'd', '/', 'k'])]).fs.entry [ascii ['b'], ascii ['a']] =
          some (.file [7]) := by
  constructor <;> decide +kernel

end Aii.Release
