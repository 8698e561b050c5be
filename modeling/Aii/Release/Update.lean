/-
Aii.Release.Update — in which order releases are accepted and installed,
over restarts.

A new process accepts the first verified manifest it is handed, older or
not.
-/
import Aii.Release.Cache

namespace Aii.Release

open Common Node FileSystem List Host

@[simp] def Event.acceptedManifest : Event → Option ReleaseManifest
  | .accepted m => some m
  | _ => none

@[simp] def Event.installedManifest : Event → Option ReleaseManifest
  | .installed _ _ cause _ => cause
  | _ => none

@[simp] def Event.restartedManifest : Event → Option ReleaseManifest
  | .restarted cause => cause
  | _ => none

def History (kind : Event → Option ReleaseManifest) (log : List Event) : List ReleaseManifest :=
  log.flatMap fun e => (kind e).toList

abbrev acceptedIn : List Event → List ReleaseManifest := History Event.acceptedManifest

abbrev autoInstalled : List Event → List ReleaseManifest := History Event.installedManifest

abbrev autoRestarted : List Event → List ReleaseManifest := History Event.restartedManifest

section Histories

variable {kind : Event → Option ReleaseManifest} {log log' : List Event}

@[simp] lemma history_nil : History kind [] = [] := rfl

@[simp] lemma history_append :
    History kind (log ++ log') = History kind log ++ History kind log' := flatMap_append

@[simp] lemma history_cons {e : Event} :
    History kind (e :: log) = (kind e).toList ++ History kind log := flatMap_cons

end Histories

variable {c : ReleaseCrypto} {site : Site} {h h' : Host} {call : Call} {m : ReleaseManifest}
  {cause : Option ReleaseManifest}

variable (c site) in
lemma installRelease_histories (cause : Option ReleaseManifest) (h : Host) (version : Bytes) :
    acceptedIn (installRelease c site cause h version).1.log = acceptedIn h.log ∧
      (installRelease c site cause h version).1.latestRelease = h.latestRelease ∧
      (autoInstalled (installRelease c site cause h version).1.log = autoInstalled h.log ∨
        autoInstalled (installRelease c site cause h version).1.log =
          autoInstalled h.log ++ cause.toList) := by
  rcases installRelease_cases c site cause h version with
    heq | ⟨dir, -, -, ⟨e, fs, -, heq⟩ | ⟨path, fs, -, heq⟩⟩ <;> rw [heq]
  · exact ⟨rfl, rfl, .inl rfl⟩
  · simp [Host.tried]
  · simp [Host.replace]

variable (site) in
lemma rollbackRelease_histories (h : Host) :
    acceptedIn (rollbackRelease site h).1.log = acceptedIn h.log ∧
      (rollbackRelease site h).1.latestRelease = h.latestRelease ∧
      autoInstalled (rollbackRelease site h).1.log = autoInstalled h.log := by
  rcases rollbackRelease_cases site h with
    heq | ⟨dir, fs, -, ⟨e, -, heq⟩ | ⟨path, -, heq⟩⟩ <;> rw [heq]
  · exact ⟨rfl, rfl, rfl⟩
  · simp [tried]
  · simp [rollBack]

/-- What the process remembers is the last manifest accepted, and only
accepted manifests cause installs. -/
structure HistoryInv (h : Host) : Prop where
  latest : ∀ m, h.latestRelease = some m → (acceptedIn h.log).getLast? = some m
  installed : ∀ m ∈ autoInstalled h.log, m ∈ acceptedIn h.log

/-- Each manifest accepted is newer than the one before, and no manifest
installed automatically is older than one installed before. -/
def NoDowngrade (h : Host) : Prop :=
  (acceptedIn h.log).Pairwise (fun a b => b.newer a) ∧
    (autoInstalled h.log).Pairwise (fun a b => ¬ a.newer b)

variable (c) in
/-- A manifest handed to a process that knows none is newer than all that
were accepted before. -/
def FirstIsNewest (h : Host) (call : Call) : Prop :=
  ∀ m, call.Hands c m → h.latestRelease = none → ∀ m' ∈ acceptedIn h.log, m.newer m'

lemma HistoryInv.of_eq (hi : HistoryInv h) (ha : acceptedIn h'.log = acceptedIn h.log)
    (his : autoInstalled h'.log = autoInstalled h.log)
    (hlatest : ∀ m, h'.latestRelease = some m → h.latestRelease = some m) : HistoryInv h' where
  latest m hm := by
    rw [ha]
    exact hi.latest m (hlatest m hm)
  installed m hm := by
    rw [ha]
    exact hi.installed m (his ▸ hm)

lemma HistoryInv.latest_mem (hi : HistoryInv h) (hlatest : h.latestRelease = some m) :
    m ∈ acceptedIn h.log :=
  mem_of_getLast? (hi.latest m hlatest)

lemma Mid.historyInv (hi : HistoryInv h) (hmid : Mid c site h call h') : HistoryInv h' := by
  cases hmid with
  | accept =>
    refine ⟨fun m hm => by simpa [Host.accept] using hm, fun m hm => ?_⟩
    have ho : m ∈ autoInstalled h.log := by simpa [Host.accept] using hm
    simp only [Host.accept, history_append]
    exact mem_append_left _ (hi.installed m ho)
  | store =>
    exact hi.of_eq (by simp [Host.store]) (by simp [Host.store]) fun m hm => hm

lemma HistoryInv.install (hi : HistoryInv h) (hc : ∀ m, cause = some m → h.latestRelease = some m)
    (version : Bytes) :
    HistoryInv (installRelease c site cause h version).1 := by
  have hh := installRelease_histories c site cause h version
  obtain ⟨ha, hlatest, his⟩ := hh
  refine ⟨fun m hm => ?_, fun m hm => ?_⟩
  · rw [ha]
    exact hi.latest m (hlatest ▸ hm)
  · rw [ha]
    rcases his with heq | heq <;> rw [heq] at hm
    · exact hi.installed m hm
    · rcases mem_append.mp hm with hm | hm
      · exact hi.installed m hm
      · exact hi.latest_mem (hc m (by simpa using hm))

lemma Does.historyInv (hi : HistoryInv h) (hdo : Does c site h call h') : HistoryInv h' := by
  cases hdo with
  | nothing => exact hi
  | mid hmid => exact hmid.historyInv hi
  | autoInstall hmid _ hlatest =>
    refine (hmid.historyInv hi).install (fun m hm => ?_) _
    rw [← hm, hlatest]
  | install version => exact hi.install (by simp) version
  | rollback =>
    obtain ⟨ha, hlatest, his⟩ := rollbackRelease_histories site h
    exact hi.of_eq ha his fun m hm => hlatest ▸ hm
  | storeFailed | tick | restartFailed => exact hi.of_eq rfl rfl fun m hm => hm
  | selfRestart => exact hi.of_eq (by simp) (by simp) (by simp [boot])
  | restart => exact hi.of_eq rfl rfl (by simp [boot])

lemma newer_all {l : List ReleaseManifest} (hl : l.Pairwise (fun a b => b.newer a))
    {last : ReleaseManifest} (hlast : l.getLast? = some last) :
    last.newer m ∨ m = last ∨ m ∉ l := by
  obtain ⟨front, rfl⟩ := List.getLast?_eq_some_iff.mp hlast
  by_cases hm : m ∈ front
  · exact .inl ((pairwise_append.mp hl).2.2 m hm last (by simp))
  · by_cases heq : m = last
    · exact .inr (.inl heq)
    · exact .inr (.inr (by simp [hm, heq]))

lemma NoDowngrade.of_eq (hno : NoDowngrade h) (ha : acceptedIn h'.log = acceptedIn h.log)
    (his : autoInstalled h'.log = autoInstalled h.log) : NoDowngrade h' := by
  rw [NoDowngrade, ha, his]
  exact hno

lemma Mid.noDowngrade (hi : HistoryInv h) (hno : NoDowngrade h) (hft : FirstIsNewest c h call)
    (hmid : Mid c site h call h') : NoDowngrade h' := by
  cases hmid with
  | @accept _ m hhands hnewer =>
    have ha : ∀ m' ∈ acceptedIn h.log, m.newer m' := by
      intro m' hm'
      cases hlatest : h.latestRelease with
      | none => exact hft m hhands hlatest m' hm'
      | some l =>
        -- newer than the last one, and so than all before it
        have hl : m.newer l := by simpa [isStrictlyNewer, hlatest] using hnewer
        rcases newer_all hno.1 (hi.latest l hlatest) (m := m') with ho | rfl | hn
        · exact newer_trans hl ho
        · exact hl
        · exact absurd hm' hn
    refine ⟨?_, by simpa [Host.accept] using hno.2⟩
    simp only [Host.accept, history_append, history_cons, Event.acceptedManifest]
    refine pairwise_append.mpr ⟨hno.1, by simp, fun m' hm' m'' hm'' => ?_⟩
    obtain rfl : m'' = m := by simpa using hm''
    exact ha m' hm'
  | store => exact hno.of_eq (by simp [Host.store]) (by simp [Host.store])

lemma NoDowngrade.install (hi : HistoryInv h) (hno : NoDowngrade h)
    (hc : ∀ m, cause = some m → h.latestRelease = some m) (version : Bytes) :
    NoDowngrade (installRelease c site cause h version).1 := by
  have hh := installRelease_histories c site cause h version
  obtain ⟨hac, -, heq | heq⟩ := hh
  · exact hno.of_eq hac heq
  · refine ⟨by rw [hac]; exact hno.1, ?_⟩
    rw [heq]
    refine pairwise_append.mpr ⟨hno.2, ?_, fun a ha m hm => ?_⟩
    · cases cause <;> simp
    · -- what was installed before was accepted, so the latest is not older
      have hlatest := hc m (by simpa using hm)
      rcases newer_all hno.1 (hi.latest m hlatest) (m := a) with ho | rfl | hn
      · exact fun h => newer_irrefl a (newer_trans h ho)
      · exact newer_irrefl a
      · exact absurd (hi.installed a ha) hn

lemma Does.noDowngrade (hi : HistoryInv h) (hno : NoDowngrade h) (hft : FirstIsNewest c h call)
    (hdo : Does c site h call h') : NoDowngrade h' := by
  cases hdo with
  | nothing => exact hno
  | mid hmid => exact hmid.noDowngrade hi hno hft
  | autoInstall hmid _ hlatest =>
    refine NoDowngrade.install (hmid.historyInv hi) (hmid.noDowngrade hi hno hft)
      (fun m hm => ?_) _
    rw [← hm, hlatest]
  | storeFailed => exact hno
  | install version => exact hno.install hi (by simp) version
  | rollback =>
    obtain ⟨ha, -, his⟩ := rollbackRelease_histories site h
    exact hno.of_eq ha his
  | tick | restartFailed => exact hno
  | selfRestart => exact hno.of_eq (by simp) (by simp)
  | restart => exact hno

lemma Call.Hands.step_eq (hhands : call.Hands c m) :
    step c site h call = (recordReleaseAnnouncement c site h m).1 := by
  cases hhands with
  | announce hverified =>
    simp only [step, announceRelease, (checkAnnouncement_ok_iff c m).mpr hverified]
    split <;> simp_all
  | poll hverified hnewer =>
    simp [step, pollManifest, hnewer, (verifyManifestSignatureAny_ok_iff c m).mpr hverified]

lemma step_accepts (hhands : call.Hands c m) (hnn : h.latestRelease = none) :
    acceptedIn (step c site h call).log = acceptedIn h.log ++ [m] := by
  have htk : isStrictlyNewer m h.latestRelease = true := by rw [hnn]; rfl
  rw [hhands.step_eq, recordReleaseAnnouncement, if_pos htk]
  rcases maybeAutoInstallRelease_cases c site (h.accept m) m.version with heq | ⟨m', -, -, heq⟩
  · rw [heq]
    simp [accept]
  · rw [heq, (installRelease_histories c site _ _ _).1]
    simp [accept]

lemma step_noDowngrade_iff (hi : HistoryInv h) (hno : NoDowngrade h) (call : Call) :
    NoDowngrade (step c site h call) ↔ FirstIsNewest c h call := by
  constructor
  · intro haf m hhands hnn m' hm'
    have hsd := haf.1
    rw [step_accepts hhands hnn] at hsd
    exact (pairwise_append.mp hsd).2.2 m' hm' m (by simp)
  · exact fun hft => (step_does c site h call).noDowngrade hi hno hft

/-- No downgrade exactly when each first manifest of a process is newer than
all accepted before. -/
theorem no_downgrade_iff (hnone : h.latestRelease = none) (hlog : h.log = [])
    (calls : List Call) :
    (∀ n, NoDowngrade (run c site h (calls.take n))) ↔
      Along (step c site) (FirstIsNewest c) h calls := by
  have hsr : HistoryInv h := ⟨by simp [hnone], by simp [hlog]⟩
  have hg : Along (step c site) (fun h _ => HistoryInv h) h calls :=
    Along.of_invariant (fun h call hs => (step_does c site h call).historyInv hs) hsr
  refine always_iff_along (fun h call hi hno => step_noDowngrade_iff hi hno call) hg ?_
  simp [NoDowngrade, hlog]

def laterManifest : ReleaseManifest := referenceManifest (ascii ['2']) [3] 20

def sampleUpdates : List Call :=
  sampleCalls ++ [.selfRestart, .announce laterManifest, .importBinary (ascii ['2']) (hexText [3])]

/-- The host once the first release runs. -/
abbrev sampleRestarted : Host :=
  step referenceRelease sampleSite (step referenceRelease sampleSite
    (step referenceRelease sampleSite sampleHost (.announce sampleManifest))
    (.importBinary (ascii ['1']) (hexText [2]))) .selfRestart

theorem sampleUpdates_upgrade :
    (∀ n, NoDowngrade (run referenceRelease sampleSite sampleHost (sampleUpdates.take n))) ∧
      autoInstalled (run referenceRelease sampleSite sampleHost sampleUpdates).log =
        [sampleManifest, laterManifest] := by
  refine ⟨(no_downgrade_iff rfl rfl sampleUpdates).mpr ?_, by decide +kernel⟩
  have he : acceptedIn sampleRestarted.log = [sampleManifest] := by decide +kernel
  simp only [sampleUpdates, sampleCalls, cons_append, nil_append, Along]
  refine ⟨?_, ?_, ?_, ?_, ?_, trivial⟩
  · rintro m - - m' hm'
    simp [sampleHost] at hm'
  · rintro m ⟨⟩
  · rintro m ⟨⟩
  · rintro m ⟨-⟩ - m' hm'
    rw [he] at hm'
    obtain rfl := mem_singleton.mp hm'
    decide
  · rintro m ⟨⟩

def replayCalls : List Call :=
  [.announce laterManifest, .importBinary (ascii ['2']) (hexText [3]), .selfRestart] ++ sampleCalls

/-- The new process knows no manifest: the older one is accepted and
installed. -/
theorem replayed_manifest_downgrades : laterManifest.newer sampleManifest ∧
      acceptedIn (run referenceRelease sampleSite sampleHost replayCalls).log =
        [laterManifest, sampleManifest] ∧
      autoInstalled (run referenceRelease sampleSite sampleHost replayCalls).log =
        [laterManifest, sampleManifest] := by
  refine ⟨by decide, by decide +kernel, by decide +kernel⟩

/-- **One life never downgrades**: only a restart forgets. -/
theorem one_life_no_downgrade (hnone : h.latestRelease = none) (hlog : h.log = [])
    {calls : List Call} (hlife : .restart ∉ calls ∧ .selfRestart ∉ calls) :
    NoDowngrade (run c site h calls) := by
  let P h := HistoryInv h ∧ NoDowngrade h ∧ (h.latestRelease = none → acceptedIn h.log = [])
  have hP : P h := ⟨⟨by simp [hnone], by simp [hlog]⟩, by simp [NoDowngrade, hlog]⟩
  refine (calls.foldlRecOn (motive := P) _ hP fun h ⟨hi, hno, hn⟩ call hc => ?_).2.1
  have hdo := step_does c site h call
  refine ⟨hdo.historyInv hi, hdo.noDowngrade hi hno fun m _ hnn => by simp [hn hnn], ?_⟩
  generalize step c site h call = h' at hdo
  cases hdo with
  | nothing | storeFailed | tick | restartFailed => exact hn
  | mid hmid => cases hmid <;> simp_all [accept, store]
  | autoInstall _ _ hl => simp [installRelease_histories, hl]
  | install | rollback =>
    simpa [installRelease_histories, rollbackRelease_histories] using hn
  | selfRestart | restart => simp [hlife] at hc

theorem sampleCalls_one_life :
    NoDowngrade (run referenceRelease sampleSite sampleHost sampleCalls) :=
  one_life_no_downgrade rfl rfl (by simp [sampleCalls])

end Aii.Release
