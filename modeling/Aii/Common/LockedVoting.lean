/-
Aii.Common.LockedVoting — agreement from locked two-phase voting.

With less than a third of the weight faulty, a DISCIPLINED log commits one
value per instance.
-/
import Aii.Common.Quorum

namespace Aii.Common

open List

inductive BallotKind where
  | prevote
  | precommit
  deriving DecidableEq

/-- A ballot of `voter` for `value` in a round of an instance. -/
structure Ballot (ι κ β : Type) where
  kind : BallotKind
  voter : ι
  key : κ
  round : Nat
  value : β
  deriving DecidableEq

section Voting

variable {ι κ β : Type} [Fintype ι] (w : ι → Nat) (honest : Finset ι)

/-- A quorum whose honest members all cast such a ballot. -/
def Supported (l : List (Ballot ι κ β)) (kind : BallotKind) (k : κ) (r : Nat) (b : β) : Prop :=
  ∃ S, IsQuorum w S ∧ ∀ i ∈ S, i ∈ honest → ⟨kind, i, k, r, b⟩ ∈ l

/-- The rules for casting ballot `v` when `l` has been cast. -/
def BallotOk (l : List (Ballot ι κ β)) (v : Ballot ι κ β) : Prop :=
  match v.kind with
  | .prevote =>
    (∀ b, ⟨.prevote, v.voter, v.key, v.round, b⟩ ∈ l → b = v.value) ∧
      ∀ r₀ b₀, ⟨.precommit, v.voter, v.key, r₀, b₀⟩ ∈ l → r₀ < v.round →
        ∃ r, r₀ ≤ r ∧ Supported w honest l .prevote v.key r v.value
  | .precommit =>
    Supported w honest l .prevote v.key v.round v.value ∧
      ∀ r b, ⟨.prevote, v.voter, v.key, r, b⟩ ∈ l → r ≤ v.round

def Disciplined (l : List (Ballot ι κ β)) : Prop :=
  ∀ pre v post, l = pre ++ v :: post → BallotOk w honest pre v

variable {w honest} {l l' : List (Ballot ι κ β)} {k : κ} {r : Nat} {b : β} {i : ι} {r₀ : Nat}
  {b' b₀ : β}

lemma Supported.mono {kind : BallotKind} (h : Supported w honest l kind k r b) (hl : l ⊆ l') :
    Supported w honest l' kind k r b := by
  obtain ⟨S, hS, hca⟩ := h
  exact ⟨S, hS, fun i hi hh => hl (hca i hi hh)⟩

lemma Disciplined.nil : Disciplined w honest ([] : List (Ballot ι κ β)) := by
  intro pre v post h
  simp at h

lemma Disciplined.append_singleton {v : Ballot ι κ β} (h : Disciplined w honest l)
    (hv : BallotOk w honest l v) : Disciplined w honest (l ++ [v]) := by
  intro pre u post heq
  rcases eq_nil_or_concat post with rfl | ⟨post, x, rfl⟩
  · simp_all
  · rw [concat_eq_append, ← cons_append, ← append_assoc] at heq
    obtain ⟨rfl, -⟩ := append_inj' heq rfl
    exact h pre u post rfl

lemma Disciplined.of_append (h : Disciplined w honest (l ++ l')) : Disciplined w honest l := by
  intro pre v post heq
  exact h pre v (post ++ l') (by rw [heq, append_assoc, cons_append])

lemma Disciplined.precommit_before {pre post : List (Ballot ι κ β)}
    (h : Disciplined w honest (pre ++ ⟨.prevote, i, k, r, b⟩ :: post)) (hr : r₀ < r)
    (hc : ⟨.precommit, i, k, r₀, b₀⟩ ∈ pre ++ ⟨.prevote, i, k, r, b⟩ :: post) :
    ⟨.precommit, i, k, r₀, b₀⟩ ∈ pre := by
  rcases mem_append.mp hc with hin | hin
  · exact hin
  · rcases mem_cons.mp hin with heq | hin
    · cases heq
    · -- the prevote of round `r` would stand before a precommit of round `r₀ < r`
      obtain ⟨mid, rest, rfl⟩ := append_of_mem hin
      have hbf := (h (pre ++ ⟨.prevote, i, k, r, b⟩ :: mid) ⟨.precommit, i, k, r₀, b₀⟩ rest
        (by simp)).2 r b (by simp)
      exact absurd hbf (Nat.not_le.mpr hr)

lemma Disciplined.prevote_unique (h : Disciplined w honest l) (hb : ⟨.prevote, i, k, r, b⟩ ∈ l)
    (hb' : ⟨.prevote, i, k, r, b'⟩ ∈ l) : b = b' := by
  induction l using List.reverseRecOn with
  | nil => cases hb
  | append_singleton l v ih =>
    have hlast := (h l v [] rfl)
    rcases mem_append.mp hb with hin | hin <;> rcases mem_append.mp hb' with hin' | hin'
    · exact ih h.of_append hin hin'
    · obtain rfl := mem_singleton.mp hin'
      exact hlast.1 b hin
    · obtain rfl := mem_singleton.mp hin
      exact (hlast.1 b' hin').symm
    · grind

variable [DecidableEq ι]

section Locks

variable (h : Disciplined w honest l) (hf : FaultBound w honest)

include h hf

lemma Disciplined.supported_unique (hb : Supported w honest l .prevote k r b)
    (hb' : Supported w honest l .prevote k r b') :
    b = b' := by
  obtain ⟨S, hS, hca⟩ := hb
  obtain ⟨T, hT, hca'⟩ := hb'
  obtain ⟨i, hi, hiS, hiT⟩ := hS.exists_honest hf hT
  exact h.prevote_unique (hca i hiS hi) (hca' i hiT hi)

lemma Disciplined.supported_of_committed (hc : Supported w honest l .precommit k r b) :
    Supported w honest l .prevote k r b := by
  obtain ⟨S, hS, hca⟩ := hc
  obtain ⟨i, hi, hiS, -⟩ := hS.exists_honest hf hS
  obtain ⟨pre, post, rfl⟩ := append_of_mem (hca i hiS hi)
  exact (h pre _ post rfl).1.mono (subset_append_left _ _)

lemma Disciplined.supported_eq_committed (hc : Supported w honest l .precommit k r₀ b₀)
    (n : Nat) :
    ∀ pre post, l = pre ++ post → pre.length ≤ n → ∀ r, r₀ ≤ r →
      Supported w honest pre .prevote k r b → b = b₀ := by
  induction n with
  | zero =>
    rintro pre post rfl hl r - ⟨S, hS, hca⟩
    obtain ⟨i, hi, hiS, -⟩ := hS.exists_honest hf hS
    have hn := length_eq_zero_iff.mp (Nat.le_zero.mp hl)
    rw [hn] at hca
    cases hca i hiS hi
  | succ _ ih =>
    intro pre post heq hl r hr hsup
    subst heq
    rcases Nat.eq_or_lt_of_le hr with rfl | hlt
    · exact h.supported_unique hf (hsup.mono (subset_append_left _ _))
        (h.supported_of_committed hf hc)
    · obtain ⟨S, hS, hca⟩ := hc
      obtain ⟨T, hT, hca'⟩ := hsup
      obtain ⟨i, hi, hiS, hiT⟩ := hS.exists_honest hf hT
      obtain ⟨before, after, rfl⟩ := append_of_mem (hca' i hiT hi)
      have hlg : (before ++ ⟨.prevote, i, k, r, b⟩ :: after) ++ post =
          before ++ ⟨.prevote, i, k, r, b⟩ :: (after ++ post) := by simp
      have hpc := hca i hiS hi
      rw [hlg] at h hpc
      have hft := h.precommit_before hlt hpc
      obtain ⟨r', hr', hsup'⟩ := (h before _ (after ++ post) rfl).2 r₀ b₀ hft hlt
      refine ih before (⟨.prevote, i, k, r, b⟩ :: (after ++ post)) hlg ?_ r' hr' hsup'
      rw [length_append, length_cons] at hl
      omega

end Locks

/-- Two values committed in one instance are equal. -/
lemma Disciplined.committed_unique (h : Disciplined w honest l) (hf : FaultBound w honest)
    {r₁ r₂ : Nat} {b₁ b₂ : β} (h₁ : Supported w honest l .precommit k r₁ b₁)
    (h₂ : Supported w honest l .precommit k r₂ b₂) : b₁ = b₂ := by
  have hp : ∀ {r b}, Supported w honest l .precommit k r b →
      Supported w honest l .prevote k r b := fun hc => h.supported_of_committed hf hc
  rcases Nat.le_total r₁ r₂ with hle | hle
  · exact (h.supported_eq_committed hf h₁ l.length l [] (by simp) le_rfl r₂ hle (hp h₂)).symm
  · exact h.supported_eq_committed hf h₂ l.length l [] (by simp) le_rfl r₁ hle (hp h₁)

end Voting

end Aii.Common
