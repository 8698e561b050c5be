/-
Aii.Node.StakeAgreement — do nodes with one chain agree on the stakes?

Committing is deterministic (`commitStep_agree`), but the loop also debits
stakes for evidence.
-/
import Aii.Bft.ChainLink
import Aii.Node.ExecFrame
import Aii.Node.SlashSound

namespace Aii.Node

open Common Chain Bft StakeTable ExecAgree NodeLoop

section Model

variable (c : Crypto) (revm : Revm) (spec : ChainSpec)

structure FollowsChain (genesis : NodeState) (s : NodeLoop) : Prop where
  blocks : s.node.blocks = (replay c revm spec genesis s.committed).blocks
  backend : ExecAgree s.node.backend (replay c revm spec genesis s.committed).backend

/-- The stake tables are equal, and so are the elected sets of all epochs. -/
structure SameStakes (b₁ b₂ : Backend) : Prop where
  stakes : StakeTable.listAll b₁ = StakeTable.listAll b₂
  sets : ∀ epoch, Dpos.readValidatorSet b₁ epoch = Dpos.readValidatorSet b₂ epoch

/-- The run condition: the address a piece of evidence is mapped to has
nothing at stake. -/
def noDebit : NodeLoop.StepOk where
  micro _ _ := True
  evidence s ev := ∀ p ∈ latestValidatorAddressByIndex s.node.backend ev.validatorIndex,
    StakeTable.amountOf s.node.backend p.2 = 0
  commit _ _ := True

instance (s : NodeLoop) (m : BftGossip.Micro) : Decidable (noDebit.micro s m) :=
  inferInstanceAs (Decidable True)

instance (s : NodeLoop) (ev : EquivocationEvidence) : Decidable (noDebit.evidence s ev) :=
  inferInstanceAs (Decidable (∀ p ∈ _, _))

instance (s : NodeLoop) (block : Block) : Decidable (noDebit.commit s block) :=
  inferInstanceAs (Decidable True)

end Model

section Steps

variable {c : Crypto} {revm : Revm} {spec : ChainSpec} {oracle : Backend → Option Executor}

lemma commitStep_agree {n₁ n₂ : NodeState} (hbc : n₁.blocks = n₂.blocks)
    (hb : ExecAgree n₁.backend n₂.backend) (block : Block) :
    (commitStep c revm spec n₁ block).blocks = (commitStep c revm spec n₂ block).blocks ∧
      ExecAgree (commitStep c revm spec n₁ block).backend
        (commitStep c revm spec n₂ block).backend := by
  have hci : _ = (commitBlock c revm spec n₂ block).blocks ∧ _ := commitBlock_agree hbc hb block
  exact ⟨hci.1, (setHead_execAgree _ _).trans (hci.2.trans (setHead_execAgree _ _).symm)⟩

lemma recordSlashing_execAgree (b : Backend) (ev : EquivocationEvidence) :
    ExecAgree (recordSlashing b ev) b :=
  recordSlashing_agree (fun _ hk => ExecKey.not_meta hk (by decide)) b ev

lemma debitSlashStake_of_zero {b : Backend} {offender : Address} (delta : U256)
    (h : amountOf b offender = 0) : debitSlashStake b offender delta = b := by
  unfold debitSlashStake StakeTable.slash
  cases hg : get b offender with
  | none => rfl
  | some prev =>
    have hzr := (amountOf_of_get hg).symm.trans h
    have hs : satSub256 prev.amountWei delta = prev.amountWei := by
      apply BitVec.eq_of_toNat_eq
      rw [satSub256_toNat, hzr]
      exact Nat.zero_sub _
    dsimp only
    rw [hs]
    exact putRecord_of_get hg

lemma handleEvidence_agree (spec : ChainSpec) {s : NodeLoop} {ev : EquivocationEvidence}
    (hok : noDebit.evidence s ev) :
    ExecAgree (handleEvidence spec s ev).node.backend s.node.backend ∧
      (handleEvidence spec s ev).node.blocks = s.node.blocks ∧
      (handleEvidence spec s ev).committed = s.committed := by
  have hrc := recordSlashing_execAgree s.node.backend ev
  unfold handleEvidence
  dsimp only
  split
  · exact ⟨hrc, rfl, rfl⟩
  next epoch offender hlatest =>
    refine ⟨?_, rfl, rfl⟩
    rw [latestValidatorAddressByIndex, latestValidatorSet_recordSlashing] at hlatest
    have hzr := hok (epoch, offender) hlatest
    rw [← amountOf hrc] at hzr
    rw [debitSlashStake_of_zero _ hzr]
    exact hrc

lemma followsChain_kept (genesis : NodeState) : NodeLoop.Kept c revm spec oracle noDebit
      fun s _ _ => FollowsChain c revm spec genesis s where
  act s m g g' _ _ _ h _ := ⟨h.blocks, h.backend⟩
  clock s key h := ⟨h.blocks, h.backend⟩
  take s h := ⟨h.blocks, h.backend⟩
  evidence s ev evs hok h := by
    obtain ⟨hb, hbc, hcm⟩ := handleEvidence_agree spec hok
    refine ⟨?_, ?_⟩
    · rw [hbc, hcm]
      exact h.blocks
    · rw [hcm]
      exact hb.trans h.backend
  drain s h := ⟨h.blocks, h.backend⟩
  commit s block blocks _ h := by
    obtain ⟨last, e, heq, -⟩ := commitOne_cases c revm spec s block
    obtain ⟨hbc, hb⟩ := commitStep_agree h.blocks h.backend block
    rw [heq]
    refine ⟨?_, ?_⟩
    · rw [replay_concat]
      exact hbc
    · rw [replay_concat]
      exact hb

lemma run_followsChain {engine : BftEngine} {genesis : NodeState} {inputs : List LoopInput}
    (hok : NodeLoop.RunOk c revm spec oracle noDebit (.start engine genesis) inputs) :
    FollowsChain c revm spec genesis
      (run c revm spec oracle (.start engine genesis) inputs) :=
  run_induction (followsChain_kept genesis) hok ⟨rfl, .refl _⟩

/-- Two nodes with one chain have the same stakes and sets, if neither has
an effective debit. -/
theorem stakes_and_sets_agree {engine₁ engine₂ : BftEngine} {genesis : NodeState}
    {inputs₁ inputs₂ : List LoopInput} {oracle₁ oracle₂ : Backend → Option Executor}
    (hok₁ : NodeLoop.RunOk c revm spec oracle₁ noDebit (.start engine₁ genesis) inputs₁)
    (hok₂ : NodeLoop.RunOk c revm spec oracle₂ noDebit (.start engine₂ genesis) inputs₂)
    (hsame : (NodeLoop.run c revm spec oracle₁ (.start engine₁ genesis) inputs₁).committed =
      (NodeLoop.run c revm spec oracle₂ (.start engine₂ genesis) inputs₂).committed) : SameStakes
      (NodeLoop.run c revm spec oracle₁ (.start engine₁ genesis) inputs₁).node.backend
      (NodeLoop.run c revm spec oracle₂ (.start engine₂ genesis) inputs₂).node.backend := by
  have h₁ := (run_followsChain hok₁).backend
  have h₂ := (run_followsChain hok₂).backend
  rw [← hsame] at h₂
  have hag := h₁.trans h₂.symm
  exact ⟨listAll hag, fun epoch => validatorSet hag epoch⟩

end Steps

/-! ## Two nodes at one head

Both run the engine `stakedEngine` on `stakedNode`. -/

/-- A tick that delivers the proposal for height 8, and one that delivers
the given payloads. -/
def proposalInputs (extra : List Bytes) : List LoopInput :=
  [⟨[(BftMessage.proposal (BftGossip.proposalAt 8)).encode], [], false, []⟩, ⟨extra, [], false, []⟩]

theorem stakes_and_sets_agree_follower :
    (stakedRun (proposalInputs [])).committed.map (·.header.number) = [8] ∧
      SameStakes (stakedRun (proposalInputs [])).node.backend
        (stakedRun (proposalInputs
          [(BftMessage.prevote (doubleVote 2 1)).encode])).node.backend := by
  refine ⟨by decide +kernel, ?_⟩
  unfold stakedRun
  exact stakes_and_sets_agree (by decide +kernel) (by decide +kernel) (by decide +kernel)

/-- Neither node commits a block; the one that got two forged votes has a
different stake table. -/
theorem forged_votes_split_stakes :
    (stakedRun [doubleVoteInput 99]).committed = (stakedRun []).committed ∧
      ¬ SameStakes (stakedRun [doubleVoteInput 99]).node.backend (stakedRun []).node.backend := by
  refine ⟨by decide +kernel, ?_⟩
  intro h
  exact absurd h.stakes (by decide +kernel)

end Aii.Node
