/-
Aii.Release.RestartLimit — how often a node restarts itself
(`append_restart_event` and `restart_allowed` of `release_install.rs`,
`try_register_restart` of `head_watchdog.rs`).

Times are only subtracted with saturation, so they are natural numbers
here.
-/
import Mathlib.Algebra.Order.BigOperators.Group.List
import Mathlib.Algebra.Order.Group.Nat
import Mathlib.Data.List.Sort

namespace Aii.Release

open List

structure RestartLog where
  events : List Nat
  deriving DecidableEq

def appendRestartEvent (log : RestartLog) (ts windowSecs : Nat) : RestartLog :=
  let cutoff := ts - windowSecs
  ⟨((log.events ++ [ts]).filter (cutoff ≤ ·)).insertionSort (· ≤ ·)⟩

/-- `restart_allowed`. The number of events is cast to a `u32`. -/
def restartAllowed (log : RestartLog) (now windowSecs : Nat) (maxInWindow : UInt32) : Bool :=
  if maxInWindow = 0 then true
  else
    let cutoff := now - windowSecs
    UInt32.ofNat (log.events.countP (cutoff ≤ ·)) < maxInWindow

/-- `try_register_restart`, with the log it leaves. -/
def tryRegisterRestart (windowSecs : Nat) (maxPerWindow : UInt32) (log : RestartLog) (now : Nat) :
    Bool × RestartLog :=
  if restartAllowed log now windowSecs maxPerWindow then
    (true, appendRestartEvent log now windowSecs)
  else (false, log)

/-- A call, with the times of the calls that returned `true`. -/
def registerStep (windowSecs : Nat) (maxPerWindow : UInt32) (s : List Nat × RestartLog)
    (now : Nat) : List Nat × RestartLog :=
  let (allowed, log) := tryRegisterRestart windowSecs maxPerWindow s.2 now
  (if allowed then s.1 ++ [now] else s.1, log)

def registerAll (windowSecs : Nat) (maxPerWindow : UInt32) (log : RestartLog) (nows : List Nat) :
    List Nat × RestartLog :=
  nows.foldl (registerStep windowSecs maxPerWindow) ([], log)

variable {W last now : Nat} {K : UInt32} {init log : RestartLog} {s : List Nat × RestartLog}

lemma appendRestartEvent_counts {later : Nat} (h : now ≤ later) :
    ((appendRestartEvent log now W).events.filter (later - W ≤ ·)).Perm
      ((log.events ++ [now]).filter (later - W ≤ ·)) := by
  refine ((perm_insertionSort _ _).filter _).trans ?_
  rw [filter_filter]
  refine List.Perm.of_eq (filter_congr fun t _ => ?_)
  rw [← Bool.decide_and]
  exact decide_eq_decide.mpr ⟨And.left, fun ht => ⟨ht, by omega⟩⟩

/-- After the calls whose times are `s.1`, the last of them not after `last`. -/
structure RateInv (W : Nat) (K : UInt32) (init : RestartLog) (last : Nat)
    (s : List Nat × RestartLog) : Prop where
  le_last : ∀ t ∈ s.1, t ≤ last
  short : s.2.events.length < 2 ^ 32
  kept : ∀ now, last ≤ now → (s.2.events.filter (now - W ≤ ·)).Perm
    ((init.events ++ s.1).filter (now - W ≤ ·))
  bounded : ∀ a, s.1.countP (fun t => a ≤ t ∧ t ≤ a + W) ≤ K.toNat

lemma RateInv.mono (h : RateInv W K init last s) (hle : last ≤ now) : RateInv W K init now s :=
  ⟨fun t ht => (h.le_last t ht).trans hle, h.short, fun later hla => h.kept later
    (hle.trans hla), h.bounded⟩

lemma RateInv.count_lt (h : RateInv W K init last s) (hK : K ≠ 0)
    (ha : restartAllowed s.2 now W K = true) : s.2.events.countP (now - W ≤ ·) < K.toNat := by
  simp only [restartAllowed, if_neg hK, decide_eq_true_eq, UInt32.lt_iff_toNat_lt] at ha
  rwa [UInt32.toNat_ofNat_of_lt'] at ha
  exact countP_le_length.trans_lt h.short

lemma RateInv.step (h : RateInv W K init last s) (hK : K ≠ 0) (hle : last ≤ now) :
    RateInv W K init now (registerStep W K s now) := by
  unfold registerStep tryRegisterRestart
  by_cases ha : restartAllowed s.2 now W K
  · have hcu := h.count_lt hK ha
    simp only [ha, if_true]
    refine ⟨fun t ht => ?_, ?_, fun later hla => ?_, fun a => ?_⟩
    · rcases mem_append.mp ht with ht | ht
      · exact (h.le_last t ht).trans hle
      · exact (mem_singleton.mp ht).le
    · -- everything left in the log lies in the window
      rw [appendRestartEvent, (perm_insertionSort _ _).length_eq, ← countP_eq_length_filter,
        countP_append]
      have ho := countP_le_length (p := (now - W ≤ ·)) (l := [now])
      have hm := K.toNat_lt
      simp only [length_singleton] at ho
      omega
    · refine (appendRestartEvent_counts hla).trans ?_
      rw [← append_assoc, filter_append, filter_append (init.events ++ s.1)]
      exact (h.kept later (hle.trans hla)).append_right _
    · rw [countP_append]
      by_cases hin : a ≤ now ∧ now ≤ a + W
      · -- the earlier ones in this interval are in the window that ends now
        have hw : s.1.countP (fun t => a ≤ t ∧ t ≤ a + W) ≤ s.1.countP (now - W ≤ ·) :=
          countP_mono_left fun t _ ht => by
            simp only [decide_eq_true_eq] at ht ⊢
            omega
        have hkp := (h.kept now hle).length_eq
        simp only [← countP_eq_length_filter, countP_append] at hkp
        have ho := countP_le_length (p := fun t => a ≤ t ∧ t ≤ a + W) (l := [now])
        simp only [length_singleton] at ho
        omega
      · simpa [hin] using h.bounded a
  · simp only [ha, Bool.false_eq_true, if_false]
    exact h.mono hle

lemma RateInv.run (hK : K ≠ 0) {nows : List Nat} (h : RateInv W K init last s)
    (hmo : (last :: nows).Pairwise (· ≤ ·)) (hn : ∀ t ∈ last :: nows, t ≤ now) :
    RateInv W K init now (nows.foldl (registerStep W K) s) := by
  induction nows generalizing s last with
  | nil => exact h.mono (hn last (by simp))
  | cons t _ ih =>
    obtain ⟨hft, hrs⟩ := pairwise_cons.mp hmo
    exact ih (h.step hK (hft t (by simp))) hrs (forall_mem_cons.mp hn).2

/-- **Restarts are limited** to `K` in a window, if the clock does not go
back. -/
theorem restart_rate_limited (W : Nat) (K : UInt32) (hK : 1 ≤ K) (log : RestartLog)
    (hlog : log.events.length < 2 ^ 32) (nows : List Nat) (hmono : nows.Pairwise (· ≤ ·)) :
    (∀ a, (registerAll W K log nows).1.countP (fun t => a ≤ t ∧ t ≤ a + W) ≤ K.toNat) ∧
      ∀ now, (∀ t ∈ nows, t ≤ now) → ((registerAll W K log nows).2.events.filter (now - W ≤ ·)).Perm
          ((log.events ++ (registerAll W K log nows).1).filter (now - W ≤ ·)) := by
  have hK' : K ≠ 0 := by grind
  have hsr : RateInv W K log 0 ([], log) := by
    refine ⟨by simp, hlog, fun now _ => ?_, by simp⟩
    rw [append_nil]
  have hi : ∀ now, (∀ t ∈ nows, t ≤ now) → RateInv W K log now (registerAll W K log nows) :=
    fun now hn => hsr.run hK' (pairwise_cons.mpr ⟨fun _ _ => Nat.zero_le _, hmono⟩)
      (forall_mem_cons.mpr ⟨Nat.zero_le _, hn⟩)
  exact ⟨(hi nows.sum fun t ht => le_sum_of_mem ht).bounded,
    fun now hn => (hi now hn).kept now le_rfl⟩

/-- Two restarts in ten seconds: the third is refused, the fourth comes
when the first has left the window. -/
theorem restart_rate_limited_two : registerAll 10 2 ⟨[]⟩ [5, 6, 7, 16] = ([5, 6, 16], ⟨[6, 16]⟩) ∧
      ∀ a, (registerAll 10 2 ⟨[]⟩ [5, 6, 7, 16]).1.countP (fun t => a ≤ t ∧ t ≤ a + 10) ≤ 2 :=
  ⟨by decide +kernel, (restart_rate_limited 10 2 (by decide) ⟨[]⟩ (by decide) [5, 6, 7, 16]
    (by decide)).1⟩

end Aii.Release
