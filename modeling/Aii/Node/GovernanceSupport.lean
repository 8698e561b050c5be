/-
Aii.Node.GovernanceSupport — what stands behind a passed proposal
(`aii-node/src/{governance,staking}.rs`).

A voter can vote yes and begin to unbond before the tally.
-/
import Aii.Node.GovernanceRuns
import Mathlib.Algebra.Order.BigOperators.Group.List
import Mathlib.Algebra.Order.Group.Nat
import Mathlib.Data.List.Perm.Subperm

namespace Aii.Node

open Common Governance List GovState StakeRecord GovCall

/-! ## Stakes and recorded weights -/

def bondedStake (b : Backend) : Nat :=
  (((StakeTable.listAll b).filter StakeRecord.isBonded).map fun r => r.amountWei.toNat).sum

def votedYes (b : Backend) (id : UInt64) (voter : Address) : Bool :=
  (voteAt b id voter).any GovVote.support

def yesStake (b : Backend) (id : UInt64) : Nat :=
  (((StakeTable.listAll b).filter fun r => r.isBonded && votedYes b id r.staker).map
    fun r => r.amountWei.toNat).sum

lemma totalBonded_toNat (b : Backend) :
    (StakeTable.totalBonded b).toNat = min (bondedStake b) u256Max := by
  rw [StakeTable.totalBonded, satSum256_toNat, map_map]
  exact congrArg (min · u256Max) (Nat.zero_add _)

variable {b : Backend} {id : UInt64} {b' : Backend} {height : UInt64} {vote : GovVote}
  {calls : List GovCall} {p : GovProposal}

lemma weight_of_passes {votes : List GovVote}
    (h : passes (countVotes votes).1 (StakeTable.totalBonded b) = true) :
    2 * bondedStake b < 3 * weightSum true votes := by
  have hlt : (satMul256 (StakeTable.totalBonded b) 2).toNat <
      (satMul256 (countVotes votes).1 3).toNat := by
    simp [passes] at h
    exact h.1
  rw [satMul256_toNat, satMul256_toNat, totalBonded_toNat, (countVotes_toNat votes).1] at hlt
  change min (min (bondedStake b) u256Max * 2) u256Max <
    min (min (weightSum true votes) u256Max * 3) u256Max at hlt
  omega

lemma weightSum_le_yesStake (h : ∀ vote ∈ votesOn b id, vote.support = true →
      ∃ r, StakeTable.get b vote.voter = some r ∧ r.isBonded = true ∧
        vote.weightWei.toNat ≤ r.amountWei.toNat) :
    weightSum true (votesOn b id) ≤ yesStake b id := by
  -- The record behind a yes vote; a bonded one has no unbonding height.
  let behind : GovVote → StakeRecord := fun v => ⟨v.voter, StakeTable.amountOf b v.voter, 0⟩
  have hrc : ∀ v ∈ votesOn b id, v.support = true →
      StakeTable.get b v.voter = some (behind v) ∧ (behind v).isBonded = true ∧
        v.weightWei.toNat ≤ (behind v).amountWei.toNat := by
    intro v hv hsu
    obtain ⟨r, hg, hbn, hle⟩ := h v hv hsu
    have hr : r = behind v := by
      have hst := StakeTable.get_staker hg
      have ha := StakeTable.amountOf_of_get hg
      have hu : r.unbondAt = 0 := by
        simp [isBonded, beq_iff_eq] at hbn
        exact hbn.1
      cases r
      simp [behind, ha]
      simp_all
    exact ⟨hr ▸ hg, hr ▸ hbn, hr ▸ hle⟩
  have hnp : (((votesOn b id).filter fun v => v.support == true).map behind).Nodup := by
    refine pairwise_map.mpr (((votesOn_distinct b id).filter _).imp ?_)
    intro v w hne heq
    exact hne (congrArg staker heq)
  have hs : ((votesOn b id).filter fun v => v.support == true).map behind ⊆
      (StakeTable.listAll b).filter fun r => r.isBonded && votedYes b id r.staker := by
    intro r hr
    obtain ⟨v, hv, rfl⟩ := mem_map.mp hr
    obtain ⟨hv, hsu⟩ := mem_filter.mp hv
    obtain ⟨hg, hbn, -⟩ := hrc v hv (by simpa using hsu)
    refine mem_filter.mpr ⟨StakeTable.mem_listAll.mpr hg, ?_⟩
    have hy : votedYes b id v.voter = true := by
      rw [votedYes, mem_votesOn.mp hv]
      simpa using hsu
    rw [hbn]
    exact hy
  obtain ⟨l, hpm, hsb⟩ := subperm_of_subset hnp hs
  calc weightSum true (votesOn b id)
      = (((votesOn b id).filter fun v => v.support == true).map
          fun v => v.weightWei.toNat).sum := by rw [weightSum, weights, map_map]; rfl
    _ ≤ (((votesOn b id).filter fun v => v.support == true).map
          fun v => (behind v).amountWei.toNat).sum := by
        refine sum_le_sum fun v hv => ?_
        obtain ⟨hv, hsu⟩ := mem_filter.mp hv
        exact (hrc v hv (by simpa using hsu)).2.2
    _ = (l.map fun r => r.amountWei.toNat).sum := by
        rw [(hpm.map fun r : StakeRecord => r.amountWei.toNat).sum_eq, map_map]
        rfl
    _ ≤ yesStake b id := (hsb.map _).sum_le_sum fun _ _ => Nat.zero_le _

lemma GovState.after_concat (b : Backend) (calls : List GovCall) (call : GovCall) :
    after b (calls ++ [call]) = (after b calls).step call := by
  rw [after, foldl_append]
  rfl

/-- `call` is the last accepted vote of `voter` on `id` in the history, and
`vote` carries the stake the voter had bonded at that point. -/
def CastAt (b : Backend) (calls : List GovCall) (id : UInt64) (voter : Address)
    (vote : GovVote) : Prop :=
  ∃ earlier call later, calls = earlier ++ call :: later ∧
    call.op = .castVote id voter vote.support ∧
    (∃ r, StakeTable.get (GovState.after b earlier).store voter = some r ∧
      r.isBonded = true ∧ r.amountWei = vote.weightWei) ∧
    ∀ v, .voted v ∈ (GovState.after b calls).answers.drop (earlier.length + 1) →
      ¬ (v.proposalId = id ∧ v.voter = voter)

lemma GovStep.voted {op : GovOp} (h : GovStep b height op b' (.voted vote)) :
    op = .castVote vote.proposalId vote.voter vote.support ∧
      ∃ r, StakeTable.get b vote.voter = some r ∧ r.isBonded = true ∧
        r.amountWei = vote.weightWei := by
  cases h with
  | vote _ _ _ _ stake _ _ staked bonded =>
    exact ⟨rfl, stake, staked, bonded, rfl⟩
  | idle _ _ quiet => exact quiet.elim

lemma castAt_of_lastVote {voter : Address}
    (h : lastVote (GovState.after b calls).answers id voter = some vote) :
    CastAt b calls id voter vote := by
  induction calls using List.reverseRecOn with
  | nil => cases h
  | append_singleton calls call ih =>
    have hl : (after b calls).answers.length = calls.length := by
      rw [GovState.after, answers_length]
      exact Nat.zero_add _
    have ha : (after b (calls ++ [call])).answers =
        (after b calls).answers ++ [(call.exec (GovState.after b calls).store).2] := by
      rw [GovState.after_concat]
      rfl
    have hsp := call.exec_step (GovState.after b calls).store
    rw [ha, lastVote_concat] at h
    -- Either this call is the vote, or the vote is an earlier one.
    have hce : (call.exec (GovState.after b calls).store).2 = .voted vote ∧
        vote.proposalId = id ∧ vote.voter = voter ∨
        (∀ v, (call.exec (GovState.after b calls).store).2 = .voted v →
          ¬ (v.proposalId = id ∧ v.voter = voter)) ∧
        lastVote (GovState.after b calls).answers id voter = some vote := by
      cases han : (call.exec (GovState.after b calls).store).2 with
      | voted =>
        rw [han] at h
        dsimp only at h
        split_ifs at h with hsm
        · grind
        · grind
      | _ => grind
    rcases hce with ⟨hvt, rfl, rfl⟩ | ⟨hoh, hlast⟩
    · rw [hvt] at hsp
      obtain ⟨hop, hsk⟩ := hsp.voted
      refine ⟨calls, call, [], rfl, hop, hsk, fun v hv => ?_⟩
      rw [drop_of_length_le (by rw [ha, length_append, hl]; rfl)] at hv
      cases hv
    · obtain ⟨earlier, first, later, rfl, hop, hsk, hla⟩ := ih hlast
      refine ⟨earlier, first, later ++ [call], by simp, hop, hsk, fun v hv => ?_⟩
      rw [ha, drop_append_of_le_length (by rw [hl, length_append, length_cons]; omega)] at hv
      rcases mem_append.mp hv with hv | hv
      · exact hla v hv
      · exact hoh v (mem_singleton.mp hv).symm

/-! ## Stake behind the votes -/

/-- Behind every yes vote there is its weight in bonded stake. -/
def Backed (b : Backend) (id : UInt64) : Prop :=
  ∀ voter vote, voteAt b id voter = some vote → vote.support = true →
    ∃ r, StakeTable.get b voter = some r ∧ r.isBonded = true ∧
      vote.weightWei.toNat ≤ r.amountWei.toNat

def PendingBacked (b : Backend) : Prop :=
  ∀ id p, get b id = some p → p.status = .pending → Backed b id

/-- An address that begins to unbond has no yes vote on record on a pending
proposal. -/
def GovCall.keepsSupport (b : Backend) (call : GovCall) : Bool :=
  match call.op with
  | .beginUnbond addr _ =>
    (Governance.listAll b).all fun p => p.status != .pending || !votedYes b p.id addr
  | _ => true

lemma mem_proposals (h : get b id = some p) : p ∈ listAll b := by
  obtain ⟨bytes, hbt, hread⟩ := Option.bind_eq_some_iff.mp h
  exact mem_filterMap.mpr ⟨(propKey id, bytes),
    Backend.mem_iterPrefix.mpr ⟨hbt, prefix_append _ _⟩, hread⟩

lemma voteAt_congr (h : Backend.AgreeOn Family.vote.Key b' b) (id : UInt64) (voter : Address) :
    voteAt b' id voter = voteAt b id voter := by
  rw [voteAt, h _ _ (voteKey_family id voter), voteAt]

section Step

variable {b b' : Backend}

lemma PendingBacked.of_stakes (h : PendingBacked b)
    (hfr : ∀ f : Family, f ≠ .stake → Backend.AgreeOn f.Key b' b)
    (hs : ∀ id p, get b id = some p → p.status = .pending →
      ∀ voter vote r, voteAt b id voter = some vote → vote.support = true →
        StakeTable.get b voter = some r → r.isBonded = true →
        ∃ r', StakeTable.get b' voter = some r' ∧ r'.isBonded = true ∧
          r.amountWei.toNat ≤ r'.amountWei.toNat) : PendingBacked b' := by
  intro id p hp hpg voter vote hvt hsu
  rw [get_congr (hfr .prop (by decide))] at hp
  rw [voteAt_congr (hfr .vote (by decide))] at hvt
  obtain ⟨r, hget, hbn, hle⟩ := h id p hp hpg voter vote hvt hsu
  obtain ⟨r', hget', hbn', hle'⟩ := hs id p hp hpg voter vote r hvt hsu hget hbn
  exact ⟨r', hget', hbn', hle.trans hle'⟩

lemma PendingBacked.bond (h : PendingBacked b) (addr : Address) (delta : U256) :
    PendingBacked (StakeTable.bond b addr delta) := by
  refine h.of_stakes (fun f hf => agree_put (stakeKey_family addr) hf) ?_
  intro id p hp _ voter _ r _ _ hg hbn
  by_cases har : voter = addr
  · subst har
    have ha := StakeTable.amountOf_of_get hg
    have hle : r.amountWei.toNat ≤ (satAdd256 (StakeTable.amountOf b voter) delta).toNat := by
      rw [satAdd256_toNat, ha, u256Max]
      omega
    refine ⟨_, StakeTable.get_putRecord_self voter _ 0, ?_, hle⟩
    simp only [isBonded, Bool.and_eq_true, beq_iff_eq, bne_iff_ne] at hbn ⊢
    refine ⟨trivial, fun hzr => hbn.2 ?_⟩
    rw [hzr] at hle
    exact BitVec.eq_of_toNat_eq (Nat.le_zero.mp hle)
  · exact ⟨r, (StakeTable.get_putRecord_ne _ _ har).trans hg, hbn, le_rfl⟩

variable {s : GovState}

lemma PendingBacked.step (h : PendingBacked s.store) (hok : GovOk s)
    (hvd : Voted s.store s.answers) {call : GovCall} (hcl : call.Fits s)
    (hk : call.keepsSupport s.store = true) : PendingBacked (s.step call).store := by
  have hsp := call.exec_step s.store
  obtain ⟨-, hn⟩ := hcl
  change PendingBacked (call.exec s.store).1
  unfold GovCall.NewId at hn
  obtain ⟨height, op⟩ := call
  generalize (exec s.store ⟨height, op⟩).1 = b' at hsp ⊢
  generalize (exec s.store ⟨height, op⟩).2 = answer at hsp hn
  cases hsp with
  | bond addr delta => exact h.bond addr delta
  | beginUnbond addr =>
    refine h.of_stakes (fun f hf => agree_put (stakeKey_family addr) hf) ?_
    intro id p hp hpg voter _ r hvt hsu hg hbn
    have hne : voter ≠ addr := by
      rintro rfl
      have ha := all_eq_true.mp hk p (mem_proposals hp)
      rw [hpg, hok.named id p hp, votedYes, hvt] at ha
      simp [hsu] at ha
    exact ⟨r, (StakeTable.get_putRecord_ne _ _ hne).trans hg, hbn, le_rfl⟩
  | sweep addr _ found due =>
    refine h.of_stakes (fun f hf => agree_delete (stakeKey_family addr) hf) ?_
    intro id p hp _ voter _ r _ _ hg hbn
    have hne : voter ≠ addr := by
      rintro rfl
      cases hg.symm.trans found
      simp [isBonded, beq_iff_eq] at hbn
      exact due (.inl hbn.1)
    refine ⟨r, ?_, hbn, le_rfl⟩
    rw [StakeTable.get, Backend.get_delete_ne fun _ heq => hne (StakeTable.key_inj heq)]
    exact hg
  | propose =>
    have hfe := hn _ rfl
    intro id p hp hpg voter vote hvt hsu
    rw [voteAt_congr (agree_put (propKey_family _) (by decide))] at hvt
    rw [stake_congr (agree_put (propKey_family _) (by decide))]
    -- A vote on the new id would be a vote on a proposal that is not there.
    have hkn : get s.store id ≠ none := by
      have hm : vote ∈ votesOn s.store id := by
        obtain ⟨v, -, hread⟩ := Option.bind_eq_some_iff.mp hvt
        rw [Governance.mem_votesOn, (decodeVote_names hread).2]
        exact hvt
      obtain ⟨han, rfl, -⟩ := lastVote_eq_some (hvd.mem_votesOn.mp hm)
      exact hok.known vote han
    have hid : id ≠ nextId s.store := by
      rintro rfl
      refine hkn ?_
      rw [Governance.get, hfe]
      rfl
    rw [get_put_prop_ne _ hid] at hp
    exact h id p hp hpg voter vote hvt hsu
  | vote id voter support _ stake _ _ staked bonded =>
    intro id' q hq hpg voter' vote hvt hsu
    rw [get_congr (agree_put (voteKey_family _ _) (by decide))] at hq
    rw [stake_congr (agree_put (voteKey_family _ _) (by decide))]
    by_cases hsm : id' = id ∧ voter' = voter
    · obtain ⟨rfl, rfl⟩ := hsm
      rw [voteAt, Backend.get_put_self, Option.bind_some,
        decodeVote_encodeVote ⟨id', voter', support, stake.amountWei⟩] at hvt
      cases hvt
      exact ⟨stake, staked, bonded, le_rfl⟩
    · rw [voteAt, Backend.get_put_ne, ← voteAt] at hvt
      · exact h id' q hq hpg voter' vote hvt hsu
      · intro _ heq
        exact hsm (voteKey_inj heq)
  | finish id _ found =>
    intro id' q hq hpg voter vote hvt hsu
    rw [voteAt_congr (finish_agree (by decide) (by decide))] at hvt
    rw [stake_congr (finish_agree (by decide) (by decide))]
    have hid : id' ≠ id := by
      rintro rfl
      rw [get_finish_self found] at hq
      cases hq
      unfold finalStatus at hpg
      split_ifs at hpg
    rw [get_finish_ne hid] at hq
    exact h id' q hq hpg voter vote hvt hsu
  | idle => exact h

end Step

lemma PendingBacked.after (hstore : NoRecords b) (hht : NonDecreasing calls)
    (hcu : calls.countP (·.op.isPropose) ≤ 2 ^ 64)
    (hk : Along GovState.step (fun s call => call.keepsSupport s.store = true) (.start b)
      calls) : PendingBacked (GovState.after b calls).store := by
  have hsr : PendingBacked b := by
    intro id p hp
    rw [Governance.get, hstore .prop (by decide) _ _ (propKey_family id)] at hp
    cases hp
  have hvd := Voted.after hstore []
  refine (((along_fits hstore hht hcu).and hk).keeps
    (P := fun s => PendingBacked s.store ∧ GovOk s ∧ Voted s.store s.answers) ?_
    ⟨hsr, GovOk.start hstore, hvd⟩).1
  rintro s call ⟨hfi, hsu⟩ ⟨hb, hok, hvd⟩
  exact ⟨hb.step hok hvd hfi hsu, hok.step hfi, hvd.effect (s.step_effect call)⟩

lemma passes_of_passed {q : GovProposal} (hp : get b id = some p) (hpg : p.status = .pending)
    (hq : get (exec b ⟨height, .tally id⟩).1 id = some q) (hps : q.status = .passed) :
    passes (countVotes (votesOn b id)).1 (StakeTable.totalBonded b) = true := by
  have hsp := exec_step b ⟨height, .tally id⟩
  generalize (exec b ⟨height, .tally id⟩).1 = b' at hsp hq
  generalize (exec b ⟨height, .tally id⟩).2 = answer at hsp
  cases hsp with
  | finish _ _ found =>
    rw [get_finish_self found] at hq
    cases hq
    unfold finalStatus at hps
    split_ifs at hps with hpa
    exact hpa
  | idle => grind

/-- A passed proposal has two thirds in recorded weights; in bonded stake if
nobody unbonds. -/
theorem passed_by_recorded_weight {b : Backend} (hstore : NoRecords b) {before : List GovCall}
    {height id : UInt64} (hheights : NonDecreasing (before ++ [⟨height, .tally id⟩]))
    {p q : GovProposal} (hp : get (GovState.after b before).store id = some p)
    (hpending : p.status = .pending)
    (hq : get (GovState.after b (before ++ [⟨height, .tally id⟩])).store id = some q)
    (hpassed : q.status = .passed) : 2 * bondedStake (GovState.after b before).store <
        3 * weightSum true (votesOn (GovState.after b before).store id) ∧
      (∀ vote ∈ votesOn (GovState.after b before).store id, CastAt b before id vote.voter vote) ∧
      (before.countP (·.op.isPropose) ≤ 2 ^ 64 →
        Along GovState.step (fun s call => call.keepsSupport s.store = true) (.start b) before →
        2 * bondedStake (GovState.after b before).store <
          3 * yesStake (GovState.after b before).store id) := by
  rw [after_concat] at hq
  have hw := weight_of_passes (passes_of_passed hp hpending hq hpassed)
  refine ⟨hw, fun vote hvt => ?_, fun hcu hk => ?_⟩
  · exact castAt_of_lastVote ((Voted.after hstore before).mem_votesOn.mp hvt)
  · have hb := PendingBacked.after hstore (pairwise_append.mp hheights).1 hcu hk
    have hle := weightSum_le_yesStake (b := (after b before).store) fun vote hvt =>
      hb id p hp hpending vote.voter vote (mem_votesOn.mp hvt)
    omega

def oneYesVote : List GovCall :=
  [⟨1, .bond (arrOfNat 20 1) 100⟩, ⟨1, .bond (arrOfNat 20 2) 100⟩,
    ⟨1, .propose (arrOfNat 20 1) [] 5⟩, ⟨2, .castVote 1 (arrOfNat 20 1) true⟩]

def bothYes : List GovCall := oneYesVote ++ [⟨2, .castVote 1 (arrOfNat 20 2) true⟩]

theorem passed_by_recorded_weight_both : 2 * bondedStake (GovState.after .empty bothYes).store <
      3 * yesStake (GovState.after .empty bothYes).store 1 := by
  have hpg : get (after .empty bothYes).store 1 =
      some ⟨1, [], 5, .pending, arrOfNat 20 1⟩ := by decide +kernel
  have hp : get (after .empty (bothYes ++ [⟨5, .tally 1⟩])).store 1 =
      some ⟨1, [], 5, .passed, arrOfNat 20 1⟩ := by decide +kernel
  have h := passed_by_recorded_weight noRecords_empty (by decide) hpg rfl hp rfl
  exact h.2.2 (by decide) (by decide +kernel)

/-- The voter begins to unbond before the tally, and the proposal passes. -/
theorem passed_without_support : ∃ (before : List GovCall) (height id : UInt64) (p q : GovProposal),
      NonDecreasing (before ++ [⟨height, .tally id⟩]) ∧
      get (GovState.after .empty before).store id = some p ∧ p.status = .pending ∧
      get (GovState.after .empty (before ++ [⟨height, .tally id⟩])).store id = some q ∧
      q.status = .passed ∧ bondedStake (GovState.after .empty before).store = 100 ∧
      yesStake (GovState.after .empty before).store id = 0 :=
  ⟨oneYesVote ++ [⟨3, .beginUnbond (arrOfNat 20 1) 10⟩], 5, 1,
    ⟨1, [], 5, .pending, arrOfNat 20 1⟩, ⟨1, [], 5, .passed, arrOfNat 20 1⟩, by decide,
    by decide +kernel, rfl, by decide +kernel, rfl, by decide +kernel, by decide +kernel⟩

end Aii.Node
