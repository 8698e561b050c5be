/-
Aii.Release.Idempotence — how often a manifest installs its release.

The process an install restarts into knows no manifest and installs the
same one again.
-/
import Aii.Release.Update

namespace Aii.Release

open Common Node FileSystem List Option Host List.Sublist

variable {c : ReleaseCrypto} {site : Site} {h h' : Host} {call : Call} {dir : Place}
  {cause : Option ReleaseManifest} {version : Bytes}

/-! ## The disk -/

def FileAt (l : Location) (content : Bytes) (fs : FileSystem) : Prop :=
  fs.locate l = .ok l ∧ fs.entry l = some (.file content)

/-- No directory is in the cache, the manifest known has a plain version,
and a process that has not replaced its executable runs what is there. -/
structure DiskInv (site : Site) (h : Host) : Prop where
  nodirs : ∀ dir, site.dataDir = some dir → ∀ n, h.fs.entry (releasesDir dir.1 ++ [n]) ≠ some .dir
  plain : ∀ m, h.latestRelease = some m → Plain m.version
  running : h.replaced = false → FileAt (site.exeDir.1 ++ [h.exe.1]) h.image h.fs

lemma ignores_fileAt {l l' : Location} (hne : l ≠ l') (content : Bytes) :
    Ignores (FileAt l content) l' :=
  (ignores_locate l l l').and (ignores_entry hne _)

lemma ignoresDirs_fileAt (l : Location) (content : Bytes) (p : Path) :
    IgnoresDirs (FileAt l content) p :=
  (ignoresDirs_locate l p l).and (ignoresDirs_some l _ p)

lemma exe_ne_cached (hot : site.Outside) (hdir : site.dataDir = some dir) (n m : Bytes) :
    site.exeDir.1 ++ [n] ≠ releasesDir dir.1 ++ [m] :=
  fun heq => hot dir hdir (append_inj' heq rfl).1

lemma dottedIgnored_fileAt (hot : site.Outside) (hdir : site.dataDir = some dir)
    (n content : Bytes) : DottedIgnored dir (FileAt (site.exeDir.1 ++ [n]) content) where
  dirs := ignoresDirs_fileAt _ _ _
  dotted s _ := ignores_fileAt (exe_ne_cached hot hdir n s) content

lemma installerIgnores_not_dir {dir : Place} (hdir : site.dataDir = some dir) (n : Bytes)
    (dir' : Place) (hdir' : site.dataDir = some dir') :
    InstallerIgnores site dir' fun fs => fs.entry (releasesDir dir.1 ++ [n]) ≠ some .dir := by
  cases hdir.symm.trans hdir'
  exact ⟨⟨ignoresDirs_below (· ≠ some .dir), fun _ _ => ignores_not_dir _ _⟩,
    fun _ => ignores_not_dir _ _⟩

lemma exe_ne_new (site : Site) (h : Host) :
    site.exeDir.1 ++ [h.exe.1] ≠ site.exeDir.1 ++ [h.exe.1 ++ NEW_SUFFIX] :=
  concat_ne (by simp [NEW_SUFFIX, ascii])

lemma Host.Fresh.diskInv (hfh : h.Fresh site) : DiskInv site h where
  nodirs dir hdir n := by simp [hfh.empty dir hdir]
  plain m hm := by simp [hfh.latest] at hm
  running _ := by
    rw [hfh.exe]
    exact ⟨hfh.found, hfh.running⟩

lemma DiskInv.store (hot : site.Outside) (hi : DiskInv site h) (hdir : site.dataDir = some dir)
    {m : ReleaseManifest} (hlatest : h.latestRelease = some m) (bytes : Bytes) (log : List Event) :
    DiskInv site { h with
      fs := final (storeVerifiedBinary c dir.1 m.version m.sha256Hex bytes h.fs)
      log := log } := by
  have hpl := hi.plain m hlatest
  refine ⟨fun dir' hdir' n => ?_, hi.plain, fun hrp => ?_⟩
  · cases hdir.symm.trans hdir'
    exact storeVerifiedBinary_keeps c dir.2 hpl (ignoresDirs_below (· ≠ some .dir))
      (fun _ _ => ignores_not_dir _ _) _ _ _ (hi.nodirs dir hdir n)
  · exact storeVerifiedBinary_keeps c dir.2 hpl (ignoresDirs_fileAt _ h.image _)
      (fun w _ => ignores_fileAt (exe_ne_cached hot hdir _ w) _) _ _ _
      (hi.running hrp)

lemma DiskInv.boot (hi : DiskInv site h) {exe : FileName} {image : Bytes} {fs : FileSystem}
    (hread : readFile (site.exeDir.1 ++ [exe.1]) h.fs = .ok image fs) (log : List Event) :
    DiskInv site { h.boot exe image with log := log } := by
  refine ⟨hi.nodirs, by simp [Host.boot], fun _ => ?_⟩
  have hp := proper_concat site.exeDir.2 exe.2
  simp [readFile] at hread
  cases hlc : h.fs.locate (site.exeDir.1 ++ [exe.1]) with
  | error => simp [hlc] at hread
  | ok =>
    obtain rfl := locate_proper hp hlc
    cases hen : h.fs.entry (site.exeDir.1 ++ [exe.1]) with
    | none => simp [hlc, hen] at hread
    | some entry =>
      cases entry with
      | dir => simp [hlc, hen] at hread
      | file content =>
        obtain ⟨rfl, -⟩ : content = image ∧ h.fs = fs := by
          simpa [hlc, hen] using hread
        exact ⟨hlc, hen⟩

lemma currentAiidPath_of_not_replaced (hrp : h.replaced = false) :
    currentAiidPath site h = site.exeDir.1 ++ [h.exe.1] := by
  simp [currentAiidPath, currentExe, hrp]

lemma DiskInv.install (hot : site.Outside) (hi : DiskInv site h) (cause : Option ReleaseManifest)
    (version : Bytes) :
    DiskInv site (installRelease c site cause h version).1 := by
  have hn : ∀ dir, site.dataDir = some dir → ∀ n,
      (installRelease c site cause h version).1.fs.entry (releasesDir dir.1 ++ [n]) ≠
        some .dir := fun dir hdir n =>
    installRelease_keeps (installerIgnores_not_dir hdir n) (hi.nodirs dir hdir n) cause version
  rcases installRelease_cases c site cause h version with
    heq | ⟨dir, hdir, -, ⟨e, fs, hr, heq⟩ | ⟨path, fs, hr, heq⟩⟩
  · rwa [heq]
  · rw [heq] at hn ⊢
    refine ⟨hn, hi.plain, fun hrp => ?_⟩
    have hrp : h.replaced = false := hrp
    rw [currentAiidPath_of_not_replaced hrp] at hr
    have hbf : FileAt (site.exeDir.1 ++ [h.exe.1]) h.image
        (prepareInstall c site dir h version) :=
      prepareInstall_keeps (dottedIgnored_fileAt hot hdir _ _) version
        (hi.running hrp)
    exact installBinary_error (proper_concat site.exeDir.2 h.exe.2)
      (ignores_fileAt (exe_ne_new site h) _) hbf hr
  · rw [heq] at hn ⊢
    exact ⟨hn, hi.plain, fun hrp => by simp [Host.replace] at hrp⟩

lemma DiskInv.rollback (hot : site.Outside) (hi : DiskInv site h) :
    DiskInv site (rollbackRelease site h).1 := by
  have hn : ∀ dir, site.dataDir = some dir → ∀ n,
      (rollbackRelease site h).1.fs.entry (releasesDir dir.1 ++ [n]) ≠ some .dir :=
    fun dir hdir n =>
      rollbackRelease_keeps (installerIgnores_not_dir hdir n) (hi.nodirs dir hdir n)
  rcases rollbackRelease_cases site h with
    heq | ⟨dir, fs, hdir, ⟨e, hr, heq⟩ | ⟨path, hr, heq⟩⟩
  · rwa [heq]
  · rw [heq] at hn ⊢
    refine ⟨hn, hi.plain, fun hrp => ?_⟩
    have hrp : h.replaced = false := hrp
    rw [currentAiidPath_of_not_replaced hrp] at hr
    have hd := dottedIgnored_fileAt hot hdir h.exe.1 h.image
    exact rollbackToPrevious_error (proper_releasesDir dir.2) hd.dirs (hd.dotted _ rfl)
      (hd.dotted _ rfl) (hd.dotted _ rfl) (proper_concat site.exeDir.2 h.exe.2)
      (ignores_fileAt (exe_ne_new site h) _) (hi.running hrp) hr
  · rw [heq] at hn ⊢
    exact ⟨hn, hi.plain, fun hrp => by simp [rollBack] at hrp⟩

variable (c) in
/-- A process that has replaced its executable neither accepts a manifest
nor imports a binary, and a manifest that is accepted has a plain version
and has not been installed. -/
def Orderly (h : Host) (call : Call) : Prop :=
  (∀ m, call.Hands c m → isStrictlyNewer m h.latestRelease = true →
    h.replaced = false ∧ Plain m.version ∧ m ∉ autoInstalled h.log) ∧
  ∀ m hexBytes, h.latestRelease = some m → call = .importBinary m.version hexBytes →
    h.replaced = false

lemma Mid.diskInv (hot : site.Outside) (hoy : Orderly c h call) (hi : DiskInv site h)
    (hmid : Mid c site h call h') : DiskInv site h' := by
  cases hmid with
  | @accept _ m hhands hnewer =>
    refine ⟨hi.nodirs, fun m' hm' => ?_, hi.running⟩
    obtain rfl : m = m' := some.inj hm'
    exact (hoy.1 m hhands hnewer).2.1
  | @store _ m _ bytes _ _ hdir hlatest _ hstore =>
    have haf := hi.store (c := c) hot hdir hlatest bytes
      (h.log ++ [.stored m.version bytes])
    rwa [hstore] at haf

lemma Does.diskInv (hot : site.Outside) (hoy : Orderly c h call) (hi : DiskInv site h)
    (hdo : Does c site h call h') : DiskInv site h' := by
  cases hdo with
  | nothing => exact hi
  | mid hmid => exact hmid.diskInv hot hoy hi
  | autoInstall hmid => exact (hmid.diskInv hot hoy hi).install hot _ _
  | @storeFailed _ _ _ bytes _ _ hdir hlatest _ hstore =>
    have haf := hi.store (c := c) hot hdir hlatest bytes h.log
    rwa [hstore] at haf
  | install version => exact hi.install hot none version
  | rollback => exact hi.rollback hot
  | tick | restartFailed => exact { hi with }
  | selfRestart _ hread => exact hi.boot hread _
  | restart hread => exact hi.boot hread h.log

/-! ## The ledger of installs -/

/-- A manifest that can still be installed has not been, none has been
installed twice, and each restart, done or due, belongs to an install of
its own. -/
structure LedgerInv (h : Host) : Prop where
  waiting : h.replaced = false → ∀ m, h.latestRelease = some m → m ∉ autoInstalled h.log
  once : (autoInstalled h.log).Nodup
  restarts : (autoRestarted h.log ++ h.restarts.filterMap (·.cause)).Sublist (autoInstalled h.log)

lemma Host.Fresh.ledgerInv (hfh : h.Fresh site) : LedgerInv h where
  waiting _ m hm := by simp [hfh.latest] at hm
  once := by simp [hfh.log]
  restarts := by simp [hfh.log, hfh.restarts]

lemma Mid.ready (hoy : Orderly c h call) (hi : LedgerInv h) (hmid : Mid c site h call h') :
    h'.replaced = false ∧ ∀ m, h'.latestRelease = some m → m ∉ autoInstalled h'.log := by
  cases hmid with
  | @accept _ m hhands hnewer =>
    obtain ⟨hrp, -, hn⟩ := hoy.1 m hhands hnewer
    refine ⟨hrp, fun m' hm' => ?_⟩
    obtain rfl : m = m' := some.inj hm'
    simpa [Host.accept] using hn
  | store _ hlatest =>
    have hrp := hoy.2 _ _ hlatest rfl
    refine ⟨hrp, fun m' hm' => ?_⟩
    simpa [Host.store] using hi.waiting hrp m' hm'

lemma Mid.ledgerInv (hoy : Orderly c h call) (hi : LedgerInv h)
    (hmid : Mid c site h call h') : LedgerInv h' := by
  refine ⟨fun _ => (hmid.ready hoy hi).2, ?_, ?_⟩
  · cases hmid with
    | accept => simpa [Host.accept] using hi.once
    | store => simpa [Host.store] using hi.once
  · cases hmid with
    | accept => simpa [Host.accept] using hi.restarts
    | store => simpa [Host.store] using hi.restarts

lemma LedgerInv.install (hi : LedgerInv h) (hn : ∀ m, cause = some m → m ∉ autoInstalled h.log)
    (version : Bytes) :
    LedgerInv (installRelease c site cause h version).1 := by
  rcases installRelease_cases c site cause h version with
    heq | ⟨dir, -, -, ⟨e, fs, -, heq⟩ | ⟨path, fs, -, heq⟩⟩ <;> rw [heq]
  · exact hi
  · exact ⟨by simpa [Host.tried] using hi.waiting, by simpa [Host.tried] using hi.once,
      by simpa [Host.tried] using hi.restarts⟩
  · refine ⟨by simp [Host.replace], ?_, ?_⟩
    · simp [Host.replace, history_append, history_cons, Event.installedManifest,
        toList_none, nil_append, history_nil, append_nil]
      refine nodup_append.mpr ⟨hi.once, by cases cause <;> simp, ?_⟩
      rintro m hm m' hm' rfl
      exact hn m (by simpa using hm') hm
    · -- the restart that is due and the install are appended together
      have hbh := hi.restarts.append (refl cause.toList)
      cases cause with
      | none | some => simpa [Host.replace] using hbh

lemma LedgerInv.rollback (hi : LedgerInv h) : LedgerInv (rollbackRelease site h).1 := by
  rcases rollbackRelease_cases site h with
    heq | ⟨dir, fs, -, ⟨e, -, heq⟩ | ⟨path, -, heq⟩⟩ <;> rw [heq]
  · exact hi
  · exact ⟨by simpa [tried] using hi.waiting, by simpa [tried] using hi.once,
      by simpa [tried] using hi.restarts⟩
  · exact ⟨by simp [rollBack], by simpa [rollBack] using hi.once,
      by simpa [rollBack] using hi.restarts⟩

lemma LedgerInv.restart_due (hi : LedgerInv h) {r : Restart} {rest : List Restart}
    (hrestarts : h.restarts = r :: rest) :
    (autoRestarted h.log ++ r.cause.toList).Sublist (autoInstalled h.log) ∧
      (autoRestarted h.log ++ rest.filterMap (·.cause)).Sublist (autoInstalled h.log) := by
  have hd := hi.restarts
  have hft : (r :: rest).filterMap (·.cause) = r.cause.toList ++ rest.filterMap (·.cause) := by
    cases hc : r.cause <;> simp [hc]
  rw [hrestarts, hft] at hd
  refine ⟨List.Sublist.trans ?_ hd, List.Sublist.trans ?_ hd⟩
  · exact List.Sublist.append_left (sublist_append_left _ _) _
  · exact List.Sublist.append_left (sublist_append_right _ _) _

lemma Does.ledgerInv (hoy : Orderly c h call) (hi : LedgerInv h)
    (hdo : Does c site h call h') : LedgerInv h' := by
  cases hdo with
  | nothing => exact hi
  | mid hmid => exact hmid.ledgerInv hoy hi
  | autoInstall hmid _ hlatest =>
    refine (hmid.ledgerInv hoy hi).install (fun m hm => ?_) _
    exact (hmid.ready hoy hi).2 m (hlatest.trans hm)
  | install version => exact hi.install (by simp) version
  | rollback => exact hi.rollback
  | storeFailed | tick => exact { hi with }
  | restartFailed hrestarts => exact ⟨hi.waiting, hi.once, (hi.restart_due hrestarts).2⟩
  | selfRestart hrestarts =>
    refine ⟨by simp [boot], by simpa using hi.once, ?_⟩
    simpa [boot] using (hi.restart_due hrestarts).1
  | restart =>
    refine ⟨by simp [boot], hi.once, ?_⟩
    simpa [boot] using (sublist_append_left _ _).trans hi.restarts

/-! ## The snapshot -/

def snapshotAt (dir : Place) : Location := releasesDir dir.1 ++ [PREVIOUS_NAME]

/-- The snapshot taken for an automatic install holds what ran then, as
long as nothing else has replaced it: another release, an operator or a
rollback. -/
def SnapshotKept (site : Site) (h : Host) : Prop :=
  ∀ dir, site.dataDir = some dir → ∀ before version bytes m ran after,
    h.log = before ++ .installed version bytes (some m) ran :: after →
    (∀ cause, .snapshot cause ∈ after → cause = some m) →
      h.fs.entry (snapshotAt dir) = some (.file ran)

lemma SnapshotKept.of_eq (hkp : SnapshotKept site h) (hl : h'.log = h.log)
    (hfs : ∀ dir, site.dataDir = some dir →
      h'.fs.entry (snapshotAt dir) = h.fs.entry (snapshotAt dir)) : SnapshotKept site h' := by
  intro dir hdir before version bytes m ran after hsi hsm
  rw [hfs dir hdir]
  exact hkp dir hdir before version bytes m ran after (hl ▸ hsi) hsm

lemma SnapshotKept.concat (hkp : SnapshotKept site h) {e : Event} (hl : h'.log = h.log ++ [e])
    (hfs : ∀ dir, site.dataDir = some dir →
      (∀ cause, e = .snapshot cause → ∃ m ∈ autoInstalled h.log, cause = some m) →
        h'.fs.entry (snapshotAt dir) = h.fs.entry (snapshotAt dir))
    (hn : ∀ dir, site.dataDir = some dir → ∀ version bytes m ran,
      e = .installed version bytes (some m) ran →
        h'.fs.entry (snapshotAt dir) = some (.file ran)) : SnapshotKept site h' := by
  intro dir hdir before version bytes m ran after hsi hsm
  rw [hl] at hsi
  rcases eq_nil_or_concat after with rfl | ⟨after', e', rfl⟩
  · simp_all
  · have hsi' : h.log ++ [e] =
        (before ++ .installed version bytes (some m) ran :: after') ++ [e'] := by
      simpa using hsi
    obtain ⟨ho, heq⟩ := append_inj' hsi' rfl
    obtain rfl : e = e' := head_eq_of_cons_eq heq
    have hbf := hkp dir hdir before version bytes m ran after' ho fun cause hc =>
      hsm cause (by simp [hc])
    rw [hfs dir hdir fun cause hc => ?_, hbf]
    refine ⟨m, ?_, hsm cause (by simp [hc])⟩
    rw [ho]
    simp

lemma snapshot_taken (hot : site.Outside) (hi : DiskInv site h) (hdir : site.dataDir = some dir)
    (hrp : h.replaced = false) (hvn : Plain version)
    (het : h.fs.pathExists (binaryPath dir.1 version) = true) :
    (final (installBinary (binaryPath dir.1 version) (currentAiidPath site h)
      (prepareInstall c site dir h version))).entry (snapshotAt dir) = some (.file h.image) := by
  have hR := proper_releasesDir dir.2
  -- the binary is there, so the directory of the cache is
  have ht : h.fs.locate (releasesDir dir.1) = .ok (releasesDir dir.1) ∧
      h.fs.entry (releasesDir dir.1) = some .dir := by
    rw [binaryPath_plain hvn, pathExists] at het
    cases hlc : h.fs.locate (releasesDir dir.1 ++ [version]) with
    | error => simp [hlc] at het
    | ok => exact locate_parent (proper_concat hR hvn.proper) hlc
  obtain ⟨hfl, hc⟩ := hi.running hrp
  have hs : (final (savePrevious (currentAiidPath site h) (releasesDir dir.1) h.fs)).entry
      (snapshotAt dir) = some (.file h.image) := by
    rw [currentAiidPath_of_not_replaced hrp]
    exact savePrevious_ok hR ht.1 ht.2 (hi.nodirs dir hdir _) (hi.nodirs dir hdir _)
      hfl hc (hot dir hdir)
  have hp : (prepareInstall c site dir h version).entry (snapshotAt dir) =
      some (.file h.image) := by
    rw [prepareInstall, join_releases]
    exact writeBootPending_keeps c hR (ignoresDirs_some _ _ _)
      (ignores_entry (concat_ne (by decide)) _) (ignores_entry (concat_ne (by decide)) _) _ _ hs
  exact installBinary_keeps (currentAiidPath_proper h)
    (ignores_entry (exe_ne_cached hot hdir _ _).symm _)
    (ignores_entry (exe_ne_cached hot hdir _ _).symm _) _ _ hp

lemma SnapshotKept.tried (hkp : SnapshotKept site h)
    (hn : ∀ m, cause = some m → m ∉ autoInstalled h.log) (fs : FileSystem) :
    SnapshotKept site (h.tried cause fs) := by
  refine hkp.concat rfl (fun dir _ hsm => ?_) (by simp)
  obtain ⟨m, hm, hc⟩ := hsm cause rfl
  exact absurd hm (hn m hc)

lemma SnapshotKept.install (hot : site.Outside) (hdk : DiskInv site h) (hkp : SnapshotKept site h)
    (hn : ∀ m, cause = some m → h.replaced = false ∧ Plain version ∧ m ∉ autoInstalled h.log) :
    SnapshotKept site (installRelease c site cause h version).1 := by
  have ht := hkp.tried fun m hm => (hn m hm).2.2
  rcases installRelease_cases c site cause h version with
    heq | ⟨dir, hdir, het, ⟨e, fs, -, heq⟩ | ⟨path, fs, hr, heq⟩⟩ <;> rw [heq]
  · exact hkp
  · exact ht fs
  · -- the snapshot first, then the install
    refine (ht fs).concat (append_assoc h.log [_] [_]).symm (fun _ _ _ => rfl) ?_
    intro dir' hdir' _ _ m _ he
    cases hdir.symm.trans hdir'
    obtain ⟨-, -, hc, rfl⟩ := Event.installed.inj he
    obtain ⟨hrp, hvn, -⟩ := hn m hc
    have htk := snapshot_taken (c := c) hot hdk hdir hrp hvn het
    rwa [hr] at htk

lemma SnapshotKept.rollback (hkp : SnapshotKept site h) :
    SnapshotKept site (rollbackRelease site h).1 := by
  have ht : ∀ fs, SnapshotKept site (h.tried none fs) := hkp.tried (by simp)
  rcases rollbackRelease_cases site h with
    heq | ⟨dir, fs, -, ⟨e, -, heq⟩ | ⟨path, -, heq⟩⟩ <;> rw [heq]
  · exact hkp
  · exact ht fs
  · exact (ht fs).of_eq rfl fun _ _ => rfl

variable (c) in
lemma snapshot_of_store (dir : Place) (hvn : Plain version) (sha bytes : Bytes)
    (fs : FileSystem) :
    (final (storeVerifiedBinary c dir.1 version sha bytes fs)).entry (snapshotAt dir) =
      fs.entry (snapshotAt dir) :=
  storeVerifiedBinary_keeps c dir.2 hvn
    (ignoresDirs_below (· = fs.entry (snapshotAt dir)))
    (fun _ hw => ignores_entry (concat_ne (ne_of_plain hw rfl)) _) _ _ _ rfl

lemma Mid.snapshotKept (hdk : DiskInv site h) (hkp : SnapshotKept site h)
    (hmid : Mid c site h call h') : SnapshotKept site h' := by
  cases hmid with
  | accept => exact hkp.concat rfl (fun _ _ _ => rfl) (by simp)
  | @store dir m _ bytes _ _ hdir hlatest _ hstore =>
    refine hkp.concat rfl (fun dir' hdir' _ => ?_) (by simp)
    cases hdir.symm.trans hdir'
    have hsm := snapshot_of_store c dir (hdk.plain m hlatest) m.sha256Hex bytes h.fs
    rwa [hstore] at hsm

lemma Does.snapshotKept (hot : site.Outside) (hoy : Orderly c h call) (hdk : DiskInv site h)
    (hl : LedgerInv h) (hkp : SnapshotKept site h)
    (hdo : Does c site h call h') : SnapshotKept site h' := by
  cases hdo with
  | nothing => exact hkp
  | mid hmid => exact hmid.snapshotKept hdk hkp
  | autoInstall hmid _ hlatest =>
    have hdk' := hmid.diskInv hot hoy hdk
    obtain ⟨hrp, hn⟩ := hmid.ready hoy hl
    refine (hmid.snapshotKept hdk hkp).install hot hdk' fun m' hm' => ?_
    cases hm'
    exact ⟨hrp, hdk'.plain _ hlatest, hn _ hlatest⟩
  | @storeFailed dir m _ bytes _ _ hdir hlatest _ hstore =>
    refine hkp.of_eq rfl fun dir' hdir' => ?_
    cases hdir.symm.trans hdir'
    have hsm := snapshot_of_store c dir (hdk.plain m hlatest) m.sha256Hex bytes h.fs
    rwa [hstore] at hsm
  | install => exact hkp.install hot hdk (by simp)
  | rollback => exact hkp.rollback
  | tick | restartFailed => exact hkp.of_eq rfl fun _ _ => rfl
  | selfRestart => exact hkp.concat rfl (fun _ _ _ => rfl) (by simp)
  | restart => exact hkp.of_eq rfl fun _ _ => rfl

/-- In an orderly run each manifest causes at most one install and one
restart. -/
theorem auto_install_once (hfresh : h.Fresh site) {calls : List Call}
    (horderly : Along (step c site) (Orderly c) h calls) :
    (autoInstalled (run c site h calls).log).Nodup ∧
      (autoRestarted (run c site h calls).log).Nodup ∧ SnapshotKept site (run c site h calls) := by
  have hsr : DiskInv site h ∧ LedgerInv h ∧ SnapshotKept site h :=
    ⟨hfresh.diskInv, hfresh.ledgerInv, fun _ _ _ _ _ _ _ _ hlg => by simp [hfresh.log] at hlg⟩
  have he : DiskInv site (run c site h calls) ∧ LedgerInv (run c site h calls) ∧
      SnapshotKept site (run c site h calls) := by
    refine horderly.keeps (P := fun h => DiskInv site h ∧ LedgerInv h ∧ SnapshotKept site h)
      (fun h call hcl hs => ?_) hsr
    obtain ⟨hdk, hl, hkp⟩ := hs
    have hdo := step_does c site h call
    exact ⟨hdo.diskInv hfresh.outside hcl hdk, hdo.ledgerInv hcl hl,
      hdo.snapshotKept hfresh.outside hcl hdk hl hkp⟩
  obtain ⟨-, hl, hkp⟩ := he
  refine ⟨hl.once, ?_, hkp⟩
  exact ((sublist_append_left _ _).trans hl.restarts).nodup hl.once

lemma sampleUpdates_orderly :
    Along (step referenceRelease sampleSite) (Orderly referenceRelease) sampleHost
      sampleUpdates := by
  have hrp : (step referenceRelease sampleSite sampleHost
      (.announce sampleManifest)).replaced = false := by decide +kernel
  have hla : (fun h : Host => h.replaced = false ∧ laterManifest ∉ autoInstalled h.log)
      sampleRestarted := by decide +kernel
  have hrp' : (step referenceRelease sampleSite sampleRestarted
      (.announce laterManifest)).replaced = false := by decide +kernel
  simp only [sampleUpdates, sampleCalls, cons_append, nil_append, Along]
  refine ⟨⟨?_, by simp⟩, ⟨by rintro m ⟨⟩, fun _ _ _ _ => hrp⟩, ⟨by rintro m ⟨⟩, by simp⟩,
    ⟨?_, by simp⟩, ⟨by rintro m ⟨⟩, fun _ _ _ _ => hrp'⟩, trivial⟩
  · rintro m ⟨-⟩ -
    exact ⟨rfl, by decide, by simp [sampleHost]⟩
  · rintro m ⟨-⟩ -
    exact ⟨hla.1, by decide, hla.2⟩

theorem sampleUpdates_once :
    let s := run referenceRelease sampleSite sampleHost sampleUpdates
    autoInstalled s.log = [sampleManifest, laterManifest] ∧
      s.fs.entry [ascii ['d'], RELEASES_SUBDIR, PREVIOUS_NAME] = some (.file [2]) ∧
      (autoInstalled s.log).Nodup ∧ (autoRestarted s.log).Nodup ∧ SnapshotKept sampleSite s :=
  ⟨by decide +kernel, by decide +kernel, auto_install_once sampleHost_fresh sampleUpdates_orderly⟩

def repeatedCalls : List Call :=
  sampleCalls ++ [.selfRestart, .announce sampleManifest, .selfRestart]

/-- The new process installs the release over itself, and the old binary is
gone. -/
theorem announced_again_installs_again :
    autoInstalled (run referenceRelease sampleSite sampleHost repeatedCalls).log =
        [sampleManifest, sampleManifest] ∧
      autoRestarted (run referenceRelease sampleSite sampleHost repeatedCalls).log =
        [sampleManifest, sampleManifest] ∧
      ¬ SnapshotKept sampleSite (run referenceRelease sampleSite sampleHost repeatedCalls) ∧
      autoInstalled (run referenceRelease sampleSite sampleHost
        (sampleCalls ++ [.importBinary (ascii ['1']) (hexText [2])])).log =
          [sampleManifest, sampleManifest] := by
  refine ⟨by decide +kernel, by decide +kernel, fun hkp => ?_, by decide +kernel⟩
  have hl : (run referenceRelease sampleSite sampleHost repeatedCalls).log =
      [.accepted sampleManifest, .stored (ascii ['1']) [2], .snapshot (some sampleManifest)] ++
        .installed (ascii ['1']) [2] (some sampleManifest) [1] ::
        [.restarted (some sampleManifest), .accepted sampleManifest,
          .snapshot (some sampleManifest), .installed (ascii ['1']) [2] (some sampleManifest) [2],
          .restarted (some sampleManifest)] := by decide +kernel
  have hs : (run referenceRelease sampleSite sampleHost repeatedCalls).fs.entry
      [ascii ['d'], RELEASES_SUBDIR, PREVIOUS_NAME] = some (.file [2]) := by decide +kernel
  have hft := hkp _ rfl _ _ _ _ _ _ hl (by simp)
  simp only [snapshotAt, releasesDir, cons_append, nil_append, hs] at hft
  simp at hft

end Aii.Release
