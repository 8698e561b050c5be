/-
Aii.Release.BootHealth — the boot-health task
(`start_boot_health_confirm` of `aii-node/src/head_watchdog.rs`).

A rollback leaves the sentinel, so the restored binary is checked as if
just installed.
-/
import Aii.Release.Cache
import Aii.Release.RestartLimit

namespace Aii.Release

open Common Node FileSystem

structure BootHealth where
  confirmSecs : Nat
  windowSecs : Nat
  maxPerWindow : UInt32

section Task

variable (site : Site) (parse : Bytes → Option BootPending) (opts : BootHealth) {n : Bytes}
  {e : Option FsEntry}

/-- `read_boot_pending`. The task does nothing if the sentinel is missing
and if it cannot be read. -/
def readBootPending (releases : Path) (fs : FileSystem) : Option BootPending :=
  match readFile (bootPendingPath releases) fs with
  | .ok bytes _ => parse bytes
  | .error _ _ => none

def sentinel (h : Host) : Option BootPending :=
  site.dataDir.bind fun dir => readBootPending parse (releasesDir dir.1) h.fs

/-- The sentinel is not old, and the head has advanced past that of the
install. -/
def Healthy (pending : BootPending) (now : Nat) (head : UInt64) : Prop :=
  now - pending.installTs.toNat < min (opts.confirmSecs * 2) (2 ^ 64 - 1) ∧
    pending.preInstallHead < head
deriving Decidable

/-- `clear_boot_pending`; a failure is only logged. -/
def clearBootPending (h : Host) : Host :=
  match site.dataDir with
  | none => h
  | some dir => { h with fs := final (removeFile (bootPendingPath (releasesDir dir.1)) h.fs) }

/-- `start_boot_health_confirm`: the clock is `now` at the start and `later`
after the wait, when the head is `head`. -/
def bootHealthConfirm (s : Host × RestartLog) (now later : Nat) (head : UInt64) :
    Host × RestartLog :=
  if opts.confirmSecs = 0 then s
  else
    match sentinel site parse s.1 with
    | none => s
    | some pending =>
      if Healthy opts pending now head then (clearBootPending site s.1, s.2)
      else
        let (allowed, log) := tryRegisterRestart opts.windowSecs opts.maxPerWindow s.2 later
        (if allowed then (rollbackRelease site s.1).1 else s.1, log)

/-- What happens on a host when no operator and no manifest changes it. A
task that a crash cuts short does nothing. -/
inductive BootEvent where
  | checked (now later : Nat) (head : UInt64)
  | selfRestarted
  | restarted

def bootStep (s : Host × RestartLog) : BootEvent → Host × RestartLog
  | .checked now later head => bootHealthConfirm site parse opts s now later head
  | .selfRestarted => (selfRestart site s.1, s.2)
  | .restarted => (restart site s.1, s.2)

/-- A check that finds a sentinel finds it healthy, or has no restarts
left. -/
def Settled (s : Host × RestartLog) : BootEvent → Prop
  | .checked now later head => ∀ pending ∈ sentinel site parse s.1, Healthy opts pending now head ∨
        restartAllowed s.2 later opts.windowSecs opts.maxPerWindow = false
  | _ => True

instance (s : Host × RestartLog) : DecidablePred (Settled site parse opts s)
  | .checked .. => decidableForallMemOption _
  | .selfRestarted | .restarted => inferInstanceAs (Decidable True)

variable {site parse opts}

lemma selfRestart_fs (h : Host) : (selfRestart site h).fs = h.fs := by
  unfold selfRestart
  split
  · rfl
  · split <;> rfl

lemma restart_fs (h : Host) : (restart site h).fs = h.fs := by
  unfold restart
  split <;> rfl

lemma clearBootPending_entry (hot : site.Outside) {h : Host}
    (hen : h.fs.entry (site.exeDir.1 ++ [n]) = e) :
    (clearBootPending site h).fs.entry (site.exeDir.1 ++ [n]) = e := by
  unfold clearBootPending
  split
  · exact hen
  · next dir hdir =>
    have hne : site.exeDir.1 ++ [n] ≠ releasesDir dir.1 ++ [BOOT_PENDING_NAME] := fun heq =>
      hot dir hdir (List.append_inj' heq rfl).1
    rw [bootPendingPath_eq]
    exact keeps_removeFile (proper_concat (proper_releasesDir dir.2) proper_BOOT_PENDING_NAME)
      (ignores_entry hne e) h.fs hen

lemma bootStep_entry (hot : site.Outside) {s : Host × RestartLog} {event : BootEvent}
    (hs : Settled site parse opts s event) (hen : s.1.fs.entry (site.exeDir.1 ++ [n]) = e) :
    (bootStep site parse opts s event).1.fs.entry (site.exeDir.1 ++ [n]) = e := by
  cases event with
  | selfRestarted => rwa [bootStep, selfRestart_fs]
  | restarted => rwa [bootStep, restart_fs]
  | checked now _ head =>
    unfold bootStep bootHealthConfirm
    by_cases ho : opts.confirmSecs = 0
    · simpa [ho] using hen
    simp only [if_neg ho]
    cases hpg : sentinel site parse s.1 with
    | none => exact hen
    | some pending =>
      dsimp only
      by_cases hh : Healthy opts pending now head
      · rw [if_pos hh]
        exact clearBootPending_entry hot hen
      · have hrf := (hs pending hpg).resolve_left hh
        rw [if_neg hh, tryRegisterRestart, if_neg (by simp [hrf])]
        exact hen

/-- **A check that is settled changes no executable.** -/
theorem boot_health_settled (site : Site) (parse : Bytes → Option BootPending) (opts : BootHealth)
    (houtside : site.Outside) (s : Host × RestartLog) (n content : Bytes)
    (hexe : s.1.fs.entry (site.exeDir.1 ++ [n]) = some (.file content)) (events : List BootEvent)
    (hsettled : Along (bootStep site parse opts) (Settled site parse opts) s events) :
    (events.foldl (bootStep site parse opts) s).1.fs.entry (site.exeDir.1 ++ [n]) =
      some (.file content) :=
  hsettled.keeps (P := fun s => s.1.fs.entry (site.exeDir.1 ++ [n]) = some (.file content))
    (fun _ _ hevent h => bootStep_entry houtside hevent h) hexe

end Task

def bootRelease : ReleaseCrypto :=
  { referenceRelease with
    bootJson := fun record => u64Be record.preInstallHead ++ u64Be record.installTs ++
      record.version }

def bootParse (bytes : Bytes) : Option BootPending :=
  some ⟨bytes.drop 16, u64OfBe (bytes.take 8), u64OfBe ((bytes.drop 8).take 8)⟩

def bootOpts : BootHealth := ⟨30, 3600, 5⟩

/-- `[2]` has been installed over `[1]` at time 0 and height 0, and the head
does not advance in its first minute: it is rolled back. -/
def rolledBack : Host × RestartLog :=
  let h := recordReleaseAnnouncement bootRelease sampleSite sampleHost
    (referenceManifest [0x31] [2] 5) |>.1
  let h := (importReleaseBinary bootRelease sampleSite h [0x31] [2]).1
  [.selfRestarted, .checked 2 32 0, .selfRestarted].foldl
    (bootStep sampleSite bootParse bootOpts) (h, ⟨[]⟩)

def executable (s : Host × RestartLog) : Option FsEntry :=
  s.1.fs.entry (sampleSite.exeDir.1 ++ [ascii ['a']])

theorem boot_health_settled_restored :
    executable ([.checked 34 64 1, .restarted, .checked 500 530 1].foldl
      (bootStep sampleSite bootParse bootOpts) rolledBack) = some (.file [1]) :=
  boot_health_settled sampleSite bootParse bootOpts sampleHost_fresh.outside rolledBack
    (ascii ['a']) [1] (by decide +kernel) _ (by decide +kernel)

/-- Restarted with the old sentinel, the node installs `[2]` again. -/
theorem restored_binary_rolled_forward : executable rolledBack = some (.file [1]) ∧
      executable ([.restarted, .checked 60 60 9].foldl (bootStep sampleSite bootParse bootOpts)
        rolledBack) = some (.file [2]) := by
  decide +kernel

end Aii.Release
