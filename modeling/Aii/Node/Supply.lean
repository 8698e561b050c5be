/-
Aii.Node.Supply — how much subsidy a chain can mint
(`block_reward_at` in `aii-config/src/chain_spec.rs`, the minting step of
`execute_block_txs`).

The reward of a block is `R / 2 ^ (n / L)`, so all eras mint less than `2
* L * R`.
-/
import Aii.Node.Commit

namespace Aii.Node

open Common Chain Finset UInt64

section Sums

variable {L : Nat} (R : Nat)

lemma sum_halvings (q : Nat) : ∑ h ∈ range q, R / 2 ^ h + 2 * (R / 2 ^ q) ≤ 2 * R := by
  induction q with
  | zero => simp
  | succ q =>
    have hh : R / 2 ^ (q + 1) = R / 2 ^ q / 2 := by rw [pow_succ, Nat.div_div_eq_div_mul]
    rw [sum_range_succ, hh]
    omega

lemma sum_eras (hL : 0 < L) (q : Nat) :
    ∑ i ∈ range (L * q), R / 2 ^ (i / L) = L * ∑ h ∈ range q, R / 2 ^ h := by
  induction q with
  | zero => simp
  | succ q ih =>
    have he : ∑ i ∈ range L, R / 2 ^ ((L * q + i) / L) = L * (R / 2 ^ q) := by
      rw [sum_congr rfl fun i hi => ?_, sum_const, card_range, smul_eq_mul]
      rw [Nat.mul_add_div hL, Nat.div_eq_of_lt (mem_range.mp hi), Nat.add_zero]
    rw [Nat.mul_succ, sum_range_add, ih, he, sum_range_succ, Nat.mul_add]

lemma sum_rewards_le (hL : 0 < L) (n : Nat) : ∑ i ∈ range n, R / 2 ^ (i / L) ≤ 2 * L * R := by
  have hlg := range_subset_range.mpr (Nat.le_mul_of_pos_left n hL)
  calc ∑ i ∈ range n, R / 2 ^ (i / L)
      ≤ ∑ i ∈ range (L * n), R / 2 ^ (i / L) := sum_le_sum_of_subset hlg
    _ = L * ∑ h ∈ range n, R / 2 ^ h := sum_eras R hL n
    _ ≤ L * (2 * R) := Nat.mul_le_mul_left L ((Nat.le_add_right _ _).trans (sum_halvings R n))
    _ = 2 * L * R := by ring

end Sums

section Supply

variable (c : Crypto) (revm : Revm) (spec : ChainSpec)

def minted (b : Backend) (number : UInt64) (beneficiary : Address) : Nat :=
  (StateDb.accountD c (mintSubsidy c spec b number beneficiary) beneficiary).balance.toNat -
    (StateDb.accountD c b beneficiary).balance.toNat

/-- What the minting step adds when `commit_block` applies the block. -/
def mintedByBlock (s : NodeState) (block : Block) : Nat :=
  minted c spec (commitTxs c revm spec block.header.number block.header.beneficiary
    (.start (persistBlock c s.backend block)) block.body.transactions).backend
    block.header.number block.header.beneficiary

/-- The subsidy minted by a sequence of `commit_block` calls. -/
def mintedByCalls : NodeState → List Block → Nat
  | _, [] => 0
  | s, block :: calls =>
    (if applies c s block then mintedByBlock c revm spec s block else 0) +
      mintedByCalls (commitBlock c revm spec s block) calls

variable {c revm spec}

lemma minted_le (b : Backend) (number : UInt64) (beneficiary : Address) :
    minted c spec b number beneficiary ≤ (spec.blockRewardAt number).toNat := by
  unfold minted mintSubsidy
  dsimp only
  split_ifs
  · rw [credit, StateDb.accountD_setAccount_self, satAdd256_toNat, u256OfU128_toNat]
    omega
  · rw [Nat.sub_self]
    exact Nat.zero_le _

lemma mintedByCalls_le (s : NodeState) (calls : List Block) : mintedByCalls c revm spec s calls ≤
      (calls.map fun block => (spec.blockRewardAt block.header.number).toNat).sum := by
  induction calls generalizing s with
  | nil => exact le_rfl
  | cons _ _ ih =>
    rw [mintedByCalls, List.map_cons, List.sum_cons]
    refine Nat.add_le_add ?_ (ih _)
    split_ifs
    · exact minted_le _ _ _
    · exact Nat.zero_le _

lemma blockRewardAt_toNat (hL : 1 ≤ spec.blockRewardHalvingInterval)
    (hm : spec.blockRewardHalvingInterval ≤ UInt64.ofNat (2 ^ 64 - 2)) (n : UInt64) :
    (spec.blockRewardAt n).toNat = spec.blockRewardInitialWei.toNat /
      2 ^ (n.toNat / spec.blockRewardHalvingInterval.toNat) := by
  have hzr : ¬ (spec.blockRewardHalvingInterval = 0 ∨
      spec.blockRewardHalvingInterval = ofNat (2 ^ 64 - 1)) := by
    rintro (h | h) <;> rw [h] at hL hm
    · exact absurd hL (by decide)
    · exact absurd hm (by decide)
  rw [ChainSpec.blockRewardAt, if_neg hzr]
  dsimp only
  split_ifs with hlg
  · -- a `u128` has no bits left after 128 halvings
    rw [le_iff_toNat_le, UInt64.toNat_div] at hlg
    have hp : 2 ^ 128 ≤ 2 ^ (n.toNat / spec.blockRewardHalvingInterval.toNat) :=
      Nat.pow_le_pow_right (by decide) hlg
    exact (Nat.div_eq_of_lt (spec.blockRewardInitialWei.isLt.trans_le hp)).symm
  · rw [BitVec.toNat_ushiftRight, Nat.shiftRight_eq_div_pow, UInt64.toNat_div]

/-- **The supply is capped.** -/
theorem supply_capped (c : Crypto) (revm : Revm) (spec : ChainSpec)
    (hL : 1 ≤ spec.blockRewardHalvingInterval)
    (hmax : spec.blockRewardHalvingInterval ≤ UInt64.ofNat (2 ^ 64 - 2)) :
    (∀ m n, m ≤ n → spec.blockRewardAt n ≤ spec.blockRewardAt m) ∧
      (∀ n : UInt64, ∑ i ∈ range (n.toNat + 1), (spec.blockRewardAt (UInt64.ofNat i)).toNat ≤
        2 * spec.blockRewardHalvingInterval.toNat * spec.blockRewardInitialWei.toNat) ∧
      ∀ (s : NodeState) (calls : List Block), (calls.map (·.header.number)).Nodup →
        mintedByCalls c revm spec s calls ≤
          2 * spec.blockRewardHalvingInterval.toNat * spec.blockRewardInitialWei.toNat := by
  have hp := le_iff_toNat_le.mp hL
  have hr := blockRewardAt_toNat hL hmax
  refine ⟨fun m n hmn => ?_, fun n => ?_, fun s calls hnp => ?_⟩
  · rw [BitVec.le_def, hr, hr]
    exact Nat.div_le_div_left (Nat.pow_le_pow_right (by decide)
      (Nat.div_le_div_right (le_iff_toNat_le.mp hmn))) (Nat.two_pow_pos _)
  · rw [sum_congr rfl fun i hi => ?_]
    · exact sum_rewards_le _ hp (n.toNat + 1)
    · have hlt := (Nat.lt_succ_iff.mp (mem_range.mp hi)).trans_lt n.toNat_lt
      rw [hr, toNat_ofNat_of_lt' hlt]
  · -- distinct numbers are distinct places of the sum
    have hn := hnp.map fun a b h => UInt64.toNat_inj.mp h
    have hrn : ((calls.map (·.header.number)).map toNat).toFinset ⊆ range (2 ^ 64) := by
      intro i hi
      obtain ⟨n, -, rfl⟩ := List.mem_map.mp (List.mem_toFinset.mp hi)
      exact mem_range.mpr n.toNat_lt
    calc mintedByCalls c revm spec s calls
        ≤ (calls.map fun block => (spec.blockRewardAt block.header.number).toNat).sum :=
          mintedByCalls_le s calls
      _ = ∑ i ∈ ((calls.map (·.header.number)).map UInt64.toNat).toFinset,
            spec.blockRewardInitialWei.toNat /
              2 ^ (i / spec.blockRewardHalvingInterval.toNat) := by
          rw [List.sum_toFinset _ hn, List.map_map, List.map_map]
          exact congrArg List.sum (List.map_congr_left fun block _ => hr _)
      _ ≤ ∑ i ∈ range (2 ^ 64), spec.blockRewardInitialWei.toNat /
            2 ^ (i / spec.blockRewardHalvingInterval.toNat) := sum_le_sum_of_subset hrn
      _ ≤ _ := sum_rewards_le _ hp _

def halvingSpec : ChainSpec :=
  { sampleSpec with blockRewardInitialWei := 7, blockRewardHalvingInterval := 2 }

theorem supply_capped_halving : mintedByCalls .reference .reference halvingSpec (.new sampleGenesis)
        [sampleBlock 1 [], sampleBlock 2 []] = 10 ∧
      mintedByCalls .reference .reference halvingSpec (.new sampleGenesis)
        [sampleBlock 1 [], sampleBlock 2 []] ≤ 28 :=
  ⟨by decide +kernel, (supply_capped .reference .reference halvingSpec (by decide) (by decide)).2.2
    _ _ (by decide)⟩

end Supply

end Aii.Node
