/-
Aii.Common.Quorum — weighted quorum systems.

Two sets with more than two thirds of the weight share a member that is
honest.
-/
import Mathlib.Algebra.Order.BigOperators.Group.Finset
import Mathlib.Data.Fintype.Basic

namespace Aii.Common

open Finset

section Weights

variable {ι : Type*} (w : ι → ℕ) {S T : Finset ι} {honest : Finset ι}

def weight (S : Finset ι) : ℕ := ∑ i ∈ S, w i

lemma weight_mono (h : S ⊆ T) : weight w S ≤ weight w T := sum_le_sum_of_subset h

variable [Fintype ι]

def totalWeight : ℕ := weight w Finset.univ

def IsQuorum (S : Finset ι) : Prop := 2 * totalWeight w < 3 * weight w S

lemma weight_le_total (S : Finset ι) : weight w S ≤ totalWeight w := weight_mono w (subset_univ S)

variable [DecidableEq ι]

/-- The members outside `honest` carry less than one third. -/
def FaultBound (honest : Finset ι) : Prop := 3 * weight w honestᶜ < totalWeight w

instance (honest : Finset ι) : Decidable (FaultBound w honest) := Nat.decLt _ _

variable {w}

lemma IsQuorum.inter (hS : IsQuorum w S) (hT : IsQuorum w T) :
    totalWeight w < 3 * weight w (S ∩ T) := by
  have hu := weight_le_total w (S ∪ T)
  have hi : weight w (S ∪ T) + weight w (S ∩ T) = weight w S + weight w T :=
    sum_union_inter
  unfold IsQuorum at hS hT
  omega

lemma exists_honest_of_heavy (h : weight w honestᶜ < weight w S) : ∃ i ∈ S, i ∈ honest := by
  by_contra hnn
  have hs : S ⊆ honestᶜ := by
    intro i hi
    rw [mem_compl]
    exact fun hh => hnn ⟨i, hi, hh⟩
  exact absurd (weight_mono w hs) (Nat.not_le.mpr h)

lemma IsQuorum.exists_honest (hf : FaultBound w honest) (hS : IsQuorum w S) (hT : IsQuorum w T) :
    ∃ i ∈ honest, i ∈ S ∧ i ∈ T := by
  have hit := hS.inter hT
  unfold FaultBound at hf
  obtain ⟨i, hi, hh⟩ := exists_honest_of_heavy (show weight w honestᶜ < weight w (S ∩ T) by omega)
  exact ⟨i, hh, mem_of_mem_inter_left hi, mem_of_mem_inter_right hi⟩

end Weights

end Aii.Common
