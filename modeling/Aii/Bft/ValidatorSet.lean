/-
Aii.Bft.ValidatorSet — validators, stake, leader selection and the
leader's VRF proof (`aii-consensus-bft/src/bft.rs`, first half).

`ValidatorSet::new` is the only constructor, so the structure here carries
what `new` checks.
-/
import Aii.Common.Quorum
import Aii.Crypto
import Mathlib.Algebra.BigOperators.Fin
import Mathlib.Order.Interval.Finset.Nat

namespace Aii.Bft

open Common Option UInt64 Finset

inductive Phase where
  | awaitingProposal
  | prevoting
  | precommitting
  | committed
  deriving DecidableEq

/-- `BftError`. The last constructor is not in the source: it stands for
a failed `expect` with that message, i.e. a panic. -/
inductive BftError where
  | overflow
  | emptyValidatorSet
  | validatorSetTooLarge (got max : Nat)
  | totalStakeOverflow
  | zeroTotalStake
  | wrongBlockHash
  | wrongHeight
  | wrongRound
  | validatorIndexOutOfBounds (index : UInt32) (size : Nat)
  | duplicateVote (index : UInt32)
  | invalidBlsSignature
  | invalidVrfProof
  | wrongPhase (expected actual : Phase)
  | notSingleValidator (size : Nat)
  | noActiveCoordinator
  | notLeader (round expected : UInt32)
  | invalidValidatorPubkey (index : Nat) (kind : String)
  | proposalHashMismatch
  | invalidProposalBody (msg : String)
  | activeRoundInProgress
  | panicked (msg : String)
  deriving DecidableEq

/-- Maximum size of a validator set, the width of the signer bitmap. -/
def MAX_VALIDATORS : Nat := 128

structure Validator where
  blsPubkey : BlsPubKey
  vrfPubkey : VrfPubKey
  stake : UInt64
  deriving DecidableEq

def stakeSum (validators : List Validator) : Nat :=
  (validators.map fun v => v.stake.toNat).sum

/-- A frozen set of validators, with what `ValidatorSet::new` checked. -/
structure ValidatorSet where
  validators : List Validator
  totalStake : UInt64
  nonempty : validators ≠ []
  size_le : validators.length ≤ MAX_VALIDATORS
  total_eq : totalStake.toNat = stakeSum validators
  total_pos : totalStake ≠ 0
  deriving DecidableEq

/-- The `checked_add` loop of `ValidatorSet::new`. -/
def sumStake (total : UInt64) : List Validator → Option UInt64
  | [] => some total
  | v :: vs => (checkedAdd64 total v.stake).bind fun t => sumStake t vs

lemma sumStake_toNat {total t : UInt64} {vs : List Validator}
    (h : sumStake total vs = some t) : t.toNat = total.toNat + stakeSum vs := by
  induction vs generalizing total with
  | nil => simp [sumStake, stakeSum] at h ⊢; rw [h]
  | cons _ _ ih =>
    obtain ⟨s, hs, ht⟩ := bind_eq_some_iff.mp h
    rw [ih ht, checkedAdd64_eq_some hs, stakeSum, stakeSum, List.map_cons, List.sum_cons]
    omega

lemma sumStake_isSome_iff {total : UInt64} {vs : List Validator} :
    (sumStake total vs).isSome ↔ total.toNat + stakeSum vs < 2 ^ 64 := by
  induction vs generalizing total with
  | nil => simpa [sumStake, stakeSum] using total.toNat_lt
  | cons v vs ih =>
    have hs : stakeSum (v :: vs) = v.stake.toNat + stakeSum vs := by
      rw [stakeSum, stakeSum, List.map_cons, List.sum_cons]
    rw [sumStake, checkedAdd64, hs]
    split_ifs with hlt
    · rw [bind_some, ih, toNat_add64_of_lt hlt, Nat.add_assoc]
    · rw [bind_none, isSome_none]
      exact iff_of_false (by simp) (by omega)

def ValidatorSet.new (validators : List Validator) : Except BftError ValidatorSet :=
  if hne : validators = [] then .error .emptyValidatorSet
  else if hsize : validators.length > MAX_VALIDATORS then
    .error (.validatorSetTooLarge validators.length MAX_VALIDATORS)
  else
    match hsum : sumStake 0 validators with
    | none => .error .totalStakeOverflow
    | some total =>
      if hpos : total = 0 then .error .zeroTotalStake
      else .ok
        { validators, totalStake := total
          nonempty := hne
          size_le := by omega
          total_eq := by simpa using sumStake_toNat hsum
          total_pos := hpos }

lemma ValidatorSet.new_validators {l : List Validator} {vs : ValidatorSet}
    (h : ValidatorSet.new l = .ok vs) : vs.validators = l := by
  unfold ValidatorSet.new at h
  split_ifs at h
  split at h
  · cases h
  · split_ifs at h
    rw [← Except.ok.inj h]

lemma ValidatorSet.new_ok_iff {l : List Validator} : (∃ vs, ValidatorSet.new l = .ok vs) ↔
      l ≠ [] ∧ l.length ≤ MAX_VALIDATORS ∧ stakeSum l < 2 ^ 64 ∧ stakeSum l ≠ 0 := by
  constructor
  · rintro ⟨vs, h⟩
    have hp : vs.totalStake.toNat ≠ 0 := fun hzr => vs.total_pos (UInt64.toNat_inj.mp hzr)
    have hlt := vs.totalStake.toNat_lt
    rw [vs.total_eq] at hp hlt
    rw [← new_validators h]
    exact ⟨vs.nonempty, vs.size_le, hlt, hp⟩
  · rintro ⟨hne, hsz, hlt, hp⟩
    obtain ⟨total, ht⟩ := Option.isSome_iff_exists.mp
      (sumStake_isSome_iff.mpr (by simpa using hlt : (0 : UInt64).toNat + stakeSum l < 2 ^ 64))
    have hzr : total ≠ 0 := by
      rintro rfl
      have hs := sumStake_toNat ht
      exact hp (by simpa using hs.symm)
    rw [ValidatorSet.new, dif_neg hne, dif_neg (by omega)]
    split
    next hnn => rw [ht] at hnn; cases hnn
    next found hso =>
      rw [ht] at hso
      cases hso
      exact ⟨_, dif_neg hzr⟩

namespace ValidatorSet

variable (vs : ValidatorSet)

abbrev size : Nat := vs.validators.length

/-- `(2 * total_stake) / 3 + 1`, in `u64`. -/
def quorumThreshold : UInt64 := (vs.totalStake * 2) / 3 + 1

def total : Nat := vs.totalStake.toNat

def member (i : Fin vs.size) : Validator := vs.validators.get i

def stakeAt (i : Fin vs.size) : Nat := (vs.member i).stake.toNat

/-- The scan of `select_leader`: the first index whose running stake
exceeds `pick`. -/
def leaderScan (pick : UInt64) : UInt64 → Nat → List Validator → Option Nat
  | _, _, [] => none
  | cum, i, v :: rest =>
    let cum := satAdd64 cum v.stake
    if pick < cum then some i else leaderScan pick cum (i + 1) rest

/-- The 44-byte input of leader selection and of the VRF:
`height_be8 ‖ round_be4 ‖ seed`. -/
def leaderBuf (height : UInt64) (round : UInt32) (seed : Arr 32) : Bytes :=
  u64Be height ++ u32Be round ++ seed.toList

def selectLeader (c : Crypto) (height : UInt64) (round : UInt32) (seed : Arr 32) : Nat :=
  let hash := c.keccak256 (leaderBuf height round seed)
  let pick := u64OfBe (hash.toList.take 8) % vs.totalStake
  (leaderScan pick 0 0 vs.validators).getD (vs.validators.length - 1)

lemma size_le_128 : vs.size ≤ 128 := vs.size_le

lemma total_lt : vs.total < 2 ^ 64 := vs.totalStake.toNat_lt

lemma total_eq_sum : vs.total = ∑ i, vs.stakeAt i := by
  rw [total, vs.total_eq, stakeSum, ← Fin.sum_univ_fun_getElem]
  rfl

lemma quorumThreshold_toNat : vs.quorumThreshold.toNat = (2 * vs.total % 2 ^ 64) / 3 + 1 := by
  have hd : (2 * vs.total % 2 ^ 64) / 3 + 1 < 2 ^ 64 := by omega
  rw [quorumThreshold, UInt64.toNat_add, UInt64.toNat_div, UInt64.toNat_mul, total, Nat.mul_comm]
  exact Nat.mod_eq_of_lt hd

lemma quorumThreshold_exact (h : vs.total < 2 ^ 63) :
    vs.quorumThreshold.toNat = 2 * vs.total / 3 + 1 := by
  rw [vs.quorumThreshold_toNat, Nat.mod_eq_of_lt (by omega)]

/-! ## Leaders in proportion to stake -/

lemma stakeSum_cons (v : Validator) (l : List Validator) :
    stakeSum (v :: l) = v.stake.toNat + stakeSum l := by
  simp [stakeSum]

/-- The scan stops at the validator whose stake covers `pick`. -/
lemma leaderScan_eq_some_iff {pick cum : UInt64} {l : List Validator} {i j : Nat}
    (hc : cum ≤ pick) (hs : cum.toNat + stakeSum l < 2 ^ 64) :
    leaderScan pick cum i l = some j ↔ ∃ k < l.length, j = i + k ∧
      cum.toNat + stakeSum (l.take k) ≤ pick.toNat ∧
      pick.toNat < cum.toNat + stakeSum (l.take (k + 1)) := by
  induction l generalizing cum i with
  | nil => simp [leaderScan]
  | cons v _ ih =>
    rw [stakeSum_cons] at hs
    have hle := UInt64.le_iff_toNat_le.mp hc
    have ha : (satAdd64 cum v.stake).toNat = cum.toNat + v.stake.toNat := by
      rw [satAdd64_toNat]
      omega
    unfold leaderScan
    dsimp only
    split_ifs with hlt
    · rw [UInt64.lt_iff_toNat_lt, ha] at hlt
      constructor
      · intro h
        refine ⟨0, by simp, (some.inj h).symm, by simpa [stakeSum] using hle, ?_⟩
        simpa [stakeSum_cons, stakeSum] using hlt
      · rintro ⟨k, -, rfl, hl, -⟩
        cases k with
        | zero => rfl
        | succ =>
          rw [List.take_succ_cons, stakeSum_cons] at hl
          omega
    · rw [ih (UInt64.not_lt.mp hlt) (by omega), ha]
      rw [UInt64.lt_iff_toNat_lt, ha] at hlt
      constructor
      · rintro ⟨k, hk, rfl, hl, hhh⟩
        refine ⟨k + 1, by simpa using hk, by omega, ?_, ?_⟩ <;>
          rw [List.take_succ_cons, stakeSum_cons] <;> omega
      · rintro ⟨k, hk, rfl, hl, hhh⟩
        cases k with
        | zero => simp [stakeSum] at hhh; omega
        | succ k =>
          rw [List.take_succ_cons, stakeSum_cons] at hl hhh
          exact ⟨k, by simpa using hk, by omega, by omega, by omega⟩

lemma exists_covering {l : List Validator} {n : Nat} (h : n < stakeSum l) :
    ∃ k < l.length, stakeSum (l.take k) ≤ n ∧ n < stakeSum (l.take (k + 1)) := by
  induction l generalizing n with
  | nil => simp [stakeSum] at h
  | cons v _ ih =>
    by_cases hv : n < v.stake.toNat
    · exact ⟨0, by simp, by simp [stakeSum], by simpa [stakeSum] using hv⟩
    · rw [stakeSum_cons] at h
      obtain ⟨k, hk, hl, hhh⟩ := ih (n := n - v.stake.toNat) (by omega)
      refine ⟨k + 1, by simpa using hk, ?_, ?_⟩ <;>
        rw [List.take_succ_cons, stakeSum_cons] <;> omega

/-- The leader for a pick value, if the scan finds one. -/
def leaderOf (pick : Nat) : Option Nat := leaderScan (UInt64.ofNat pick) 0 0 vs.validators

lemma stakeSum_take_succ (i : Fin vs.size) :
    stakeSum (vs.validators.take (i + 1)) = stakeSum (vs.validators.take i) + vs.stakeAt i := by
  rw [List.take_succ_eq_append_getElem i.isLt, stakeSum, List.map_append, List.sum_append]
  simp [stakeSum, stakeAt, member]

lemma leaderOf_eq_some_iff {pick : Nat} (hpi : pick < vs.total) (i : Fin vs.size) :
    vs.leaderOf pick = some ↑i ↔ stakeSum (vs.validators.take i) ≤ pick ∧
      pick < stakeSum (vs.validators.take i) + vs.stakeAt i := by
  have hlt := vs.total_lt
  have ht := vs.total_eq
  have hn := toNat_ofNat_of_lt' (hpi.trans hlt)
  rw [leaderOf, leaderScan_eq_some_iff (le_iff_toNat_le.mpr (Nat.zero_le _))
    (by simpa using ht ▸ hlt), hn, ← stakeSum_take_succ]
  constructor
  · rintro ⟨k, -, hk, hl, hhh⟩
    obtain rfl : (i : Nat) = k := by omega
    exact ⟨by simpa using hl, by simpa using hhh⟩
  · rintro ⟨hl, hhh⟩
    exact ⟨i, i.isLt, by omega, by simpa using hl, by simpa using hhh⟩

lemma exists_leaderOf {pick : Nat} (hpi : pick < vs.total) :
    ∃ i : Fin vs.size, vs.leaderOf pick = some ↑i ∧ vs.stakeAt i ≠ 0 := by
  have ht : vs.total = stakeSum vs.validators := vs.total_eq
  obtain ⟨k, hk, hl, hhh⟩ := exists_covering (ht ▸ hpi)
  rw [stakeSum_take_succ vs ⟨k, hk⟩] at hhh
  exact ⟨⟨k, hk⟩, (vs.leaderOf_eq_some_iff hpi _).mpr ⟨hl, hhh⟩, by dsimp only at hhh; omega⟩

lemma selectLeader_eq (c : Crypto) (height : UInt64) (round : UInt32) (seed : Arr 32) :
    let hash := c.keccak256 (leaderBuf height round seed)
    let pick := (u64OfBe (hash.toList.take 8)).toNat % vs.total
    pick < vs.total ∧ vs.leaderOf pick = some (vs.selectLeader c height round seed) := by
  have hp := Nat.pos_of_ne_zero fun h => vs.total_pos (UInt64.toNat_inj.mp h)
  intro hash pick
  have hpi : pick < vs.total := Nat.mod_lt _ hp
  obtain ⟨i, hi, -⟩ := vs.exists_leaderOf hpi
  have hpick : UInt64.ofNat pick = u64OfBe (hash.toList.take 8) % vs.totalStake := by
    rw [← UInt64.ofNat_toNat (x := _ % _), UInt64.toNat_mod]
    rfl
  refine ⟨hpi, ?_⟩
  rw [leaderOf, hpick] at hi ⊢
  simp [selectLeader, hash, hi]

lemma selectLeader_lt (c : Crypto) (height : UInt64) (round : UInt32) (seed : Arr 32) :
    vs.selectLeader c height round seed < vs.size := by
  obtain ⟨hpi, hld⟩ := vs.selectLeader_eq c height round seed
  obtain ⟨i, hi, -⟩ := vs.exists_leaderOf hpi
  rw [← some.inj (hi.symm.trans hld)]
  exact i.isLt

/-- **A validator is the leader for as many pick values as it has stake.**
Some validator with stake is, for every pick value, so the fallback of
`select_leader` is not reached. -/
theorem leaders_proportional (vs : ValidatorSet) :
    (∀ i : Fin vs.size, ((Finset.range vs.total).filter fun pick =>
      vs.leaderOf pick = some ↑i).card = vs.stakeAt i) ∧
    (∀ pick < vs.total, ∃ i : Fin vs.size, vs.leaderOf pick = some ↑i ∧ vs.stakeAt i ≠ 0) ∧
    ∀ (c : Crypto) height round seed,
      let hash := c.keccak256 (leaderBuf height round seed)
      let pick := (u64OfBe (hash.toList.take 8)).toNat % vs.total
      pick < vs.total ∧ vs.leaderOf pick = some (vs.selectLeader c height round seed) := by
  refine ⟨fun i => ?_, fun pick => vs.exists_leaderOf, vs.selectLeader_eq⟩
  have hb : stakeSum (vs.validators.take i) + vs.stakeAt i ≤ vs.total := by
    rw [← stakeSum_take_succ, total, vs.total_eq]
    exact ((List.take_sublist _ _).map _).sum_le_sum (by simp)
  have hf : ((range vs.total).filter fun pick => vs.leaderOf pick = some ↑i) =
      Finset.Ico (stakeSum (vs.validators.take i))
        (stakeSum (vs.validators.take i) + vs.stakeAt i) := by
    ext pick
    rw [mem_filter, mem_range, mem_Ico]
    constructor
    · rintro ⟨hpi, hld⟩
      exact (vs.leaderOf_eq_some_iff hpi i).mp hld
    · intro hpi
      have hlt := hpi.2.trans_le hb
      exact ⟨hlt, (vs.leaderOf_eq_some_iff hlt i).mpr hpi⟩
  rw [hf, Nat.card_Ico]
  omega

end ValidatorSet

structure LeaderProof where
  vrfProof : VrfProof
  vrfOutput : Arr 32
  deriving DecidableEq

namespace LeaderProof

variable (c : Crypto)

def input (height : UInt64) (round : UInt32) (seed : Arr 32) : Bytes :=
  (c.keccak256 (ValidatorSet.leaderBuf height round seed)).toList

def produce (sk : VrfSecretKey) (height : UInt64) (round : UInt32) (seed : Arr 32) :
    LeaderProof :=
  let out := c.vrfProve sk (input c height round seed)
  ⟨out.1, out.2⟩

def verify (p : LeaderProof) (pk : VrfPubKey) (height : UInt64) (round : UInt32)
    (seed : Arr 32) : Except BftError Unit :=
  match c.vrfVerify pk (input c height round seed) p.vrfProof with
  | none => .error .invalidVrfProof
  | some recovered => if recovered ≠ p.vrfOutput then .error .invalidVrfProof else .ok ()

end LeaderProof

end Aii.Bft
