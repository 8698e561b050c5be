/-
Aii.Bft.ProposalAuth — who stands behind an accepted proposal?

The leader proof binds neither the block hash nor the coinbase nor the
body.
-/
import Aii.Bft.VoteBuffers

namespace Aii.Bft

open Common Chain List RoundCoordinator BftEngine Except Rlp LeaderProof

namespace BftEngine

variable {c : Crypto}

def proposedBlock (e : BftEngine) : Option H256 := e.coordinator.bind (·.proposedBlock)

lemma submitRemoteProposal_ok_iff (e : BftEngine) (block : Block) (proof : LeaderProof) :
    (submitRemoteProposal c e block proof).2 = .ok () ↔
      ∃ co, e.ensureCoordinator.coordinator = some co ∧ co.phase = .awaitingProposal ∧
        co.verifyLeader c proof = .ok () := by
  unfold submitRemoteProposal
  dsimp only
  cases hco : e.ensureCoordinator.coordinator with
  | none => simp
  | some co =>
    simp [exists_eq_left']
    cases hs : co.submitProposal c (block.hash c) proof with
    | ok =>
      obtain ⟨hph, hv, -⟩ := submitProposal_ok hs
      simp [hph, hv]
    | error =>
      simp [false_iff, not_and]
      intro hph hv
      simp [submitProposal, hph, hv] at hs

end BftEngine

namespace BftGossip

variable {c : Crypto} {ex : Option Executor} {g : BftGossip} {round : UInt32} {height : UInt64}
  {e : BftEngine} {co : RoundCoordinator} {proof : LeaderProof}

/-- The driver takes the proposal in and its round starts to vote on it. -/
def AcceptsProposal (c : Crypto) (ex : Option Executor) (g : BftGossip) (p : Proposal) : Prop :=
  (g.requestCatchup p.height).2 = false ∧ (g.handleProposalMsg c ex p).2 = .ok ()

/-- The coordinator that judges a proposal that says `(height, round)`,
if it is waiting for a proposal. -/
def judge (e : BftEngine) (height : UInt64) (round : UInt32) : Option RoundCoordinator :=
  match jumpRound e height round with
  | .error _ => none
  | .ok e' => e'.ensureCoordinator.coordinator.filter (·.phase = .awaitingProposal)

lemma jumpRound_frame {e' : BftEngine} (h : jumpRound e height round = .ok e') :
    ∃ co, e' = { e with coordinator := co } := by
  unfold jumpRound fastForwardToRound at h
  dsimp only at h
  split_ifs at h
  · exact ⟨_, (ok.inj h).symm⟩
  · exact ⟨e.coordinator, (ok.inj h).symm⟩

lemma acceptsProposal_iff (p : Proposal) : AcceptsProposal c ex g p ↔
      p.height ≤ satAdd64 g.engine.headNumber 1 ∧ (∃ body, decodeBlockBody p.bodyBytes = .ok body ∧
        (g.engine.reconstruct c ex p.height p.leaderProof p.coinbase body).hash c = p.blockHash) ∧
      ∃ co, judge g.engine p.height p.round = some co ∧
        co.verifyLeader c p.leaderProof = .ok () := by
  have hc : (g.requestCatchup p.height).2 = false ↔ p.height ≤ satAdd64 g.engine.headNumber 1 := by
    unfold requestCatchup
    dsimp only
    split_ifs with hle <;> simp [hle]
  unfold AcceptsProposal judge handleProposalMsg
  rw [hc]
  refine and_congr_right fun _ => ?_
  cases hjm : jumpRound g.engine p.height p.round with
  | error => simp
  | ok =>
    obtain ⟨co, rfl⟩ := jumpRound_frame hjm
    dsimp only
    cases hby : decodeBlockBody p.bodyBytes with
    | error => simp
    | ok =>
      dsimp only
      split_ifs with hhs
      · refine ⟨nofun, ?_⟩
        rintro ⟨⟨body', hby', heq⟩, -⟩
        cases hby'
        exact absurd heq hhs
      · rw [submitRemoteProposal_ok_iff]
        simp only [ok.injEq, exists_eq_left', Option.filter_eq_some_iff, decide_eq_true_eq,
          and_assoc]
        exact ⟨fun h => ⟨not_not.mp hhs, h⟩, fun h => h.2⟩

lemma judge_next (h : judge e height round = some co) :
    ∃ round', judge e (satAdd64 e.headNumber 1) round' = some co := by
  by_cases hhg : height = satAdd64 e.headNumber 1
  · exact ⟨round, hhg ▸ h⟩
  · -- no jump for another height, and none for the judge's own round
    have hs : jumpRound e height round = .ok e := by
      simp [jumpRound, shouldFastForward, hhg]
    rw [judge, hs] at h
    refine ⟨co.round, ?_⟩
    have ho : jumpRound e (satAdd64 e.headNumber 1) co.round = .ok e := by
      obtain ⟨hco, -⟩ := Option.filter_eq_some_iff.mp h
      unfold ensureCoordinator at hco
      cases hac : e.coordinator with
      | none =>
        rw [hac] at hco
        cases hco
        simp [jumpRound, shouldFastForward, RoundCoordinator.new]
      | some active =>
        rw [hac] at hco
        have hsm := Option.some.inj (hac.symm.trans hco)
        simp [jumpRound, shouldFastForward, currentRoundState, hac, hsm]
    rw [judge, ho]
    exact h

/-- The proposals the validators built: `built i h r` are those of
validator `i` for height `h` and round `r`. -/
abbrev Built := Nat → UInt64 → UInt32 → List (Block × LeaderProof)

/-- Whatever proposal the driver can be made to accept, the leader
elected for the judging coordinator's height and round built one with
that hash. -/
def ProposalAuthentic (c : Crypto) (ex : Option Executor) (g : BftGossip) (built : Built) : Prop :=
  ∀ p co, AcceptsProposal c ex g p → judge g.engine p.height p.round = some co →
    ∃ q ∈ built (co.leaderIndex c) co.height co.round, q.1.hash c = p.blockHash

/-- What is assumed of the schemes. -/
structure ProposalAssumptions (c : Crypto) (ex : Option Executor) (g : BftGossip) (built : Built) :
    Prop where
  /-- Only the leader makes proofs that verify, and it shows them in
  proposals only. -/
  vrf : ∀ round co proof, judge g.engine (satAdd64 g.engine.headNumber 1) round = some co →
    co.verifyLeader c proof = .ok () →
      ∃ block, (block, proof) ∈ built (co.leaderIndex c) co.height co.round
  /-- The hash of a header the leader built has no second preimage among
  the headers rebuilt from its proofs. -/
  keccak : ∀ round co, judge g.engine (satAdd64 g.engine.headNumber 1) round = some co →
    ∀ q ∈ built (co.leaderIndex c) co.height co.round,
    ∀ q' ∈ built (co.leaderIndex c) co.height co.round, ∀ coinbase,
      let block := g.engine.reconstruct c ex (satAdd64 g.engine.headNumber 1) q.2 coinbase .empty
      block.hash c = q'.1.hash c → block.header.encode = q'.1.header.encode
  /-- The leader did not build a proposal for every address. -/
  few : ∀ i h r, (built i h r).length < 256 ^ 20

/-- The leader's proof under another coinbase: everything the message
needs can be computed from the proof and public data. -/
def forge (c : Crypto) (ex : Option Executor) (e : BftEngine) (round : UInt32)
    (proof : LeaderProof) (coinbase : Address) : Proposal :=
  let height := satAdd64 e.headNumber 1
  { height := height
    round := round
    blockHash := (e.reconstruct c ex height proof coinbase .empty).hash c
    leaderProof := proof
    coinbase := coinbase
    bodyBytes := BlockBody.empty.encode }

lemma accepts_forge (hjd : judge g.engine (satAdd64 g.engine.headNumber 1) round = some co)
    (hv : co.verifyLeader c proof = .ok ()) (coinbase : Address) :
    AcceptsProposal c ex g (forge c ex g.engine round proof coinbase) := by
  have hby : decodeBlockBody BlockBody.empty.encode = .ok .empty := by decide +kernel
  exact (acceptsProposal_iff _).mpr ⟨UInt64.le_refl _, ⟨.empty, hby, rfl⟩, co, hjd, hv⟩

/-- Every acceptable proposal is the leader's exactly if no proof the leader
has shown is of use. -/
theorem proposalAuthentic_iff (c : Crypto) (ex : Option Executor) (g : BftGossip) (built : Built)
    (h : ProposalAssumptions c ex g built) : ProposalAuthentic c ex g built ↔
      ∀ round co, judge g.engine (satAdd64 g.engine.headNumber 1) round = some co →
        ∀ q ∈ built (co.leaderIndex c) co.height co.round, co.verifyLeader c q.2 ≠ .ok () := by
  constructor
  · intro ha round co hjd q hq hv
    -- put the proof under an address none of the leader's proposals pays
    let slot := built (co.leaderIndex c) co.height co.round
    obtain ⟨coinbase, hfh⟩ := exists_arr_notMem (slot.map fun q => q.1.header.beneficiary)
      (by rw [length_map]; exact h.few _ _ _)
    obtain ⟨q', hq', hhs⟩ := ha _ co (accepts_forge hjd hv coinbase) hjd
    have he := h.keccak round co hjd q hq q' hq' coinbase hhs.symm
    have hb : coinbase = q'.1.header.beneficiary := Header.encode_beneficiary_inj he
    exact hfh (hb ▸ mem_map_of_mem hq')
  · intro hnn p co hac hjd
    obtain ⟨-, -, co', hjd', hv⟩ := (acceptsProposal_iff p).mp hac
    cases hjd.symm.trans hjd'
    obtain ⟨round, hnx⟩ := judge_next hjd
    obtain ⟨block, hm⟩ := h.vrf round co p.leaderProof hnx hv
    exact absurd hv (hnn round co hnx _ hm)

/-! ### The follower of the reference network -/

def followerDriver : BftGossip :=
  .new (.fresh .reference followerConfig (referenceHead followerConfig 7)
    followerConfig.initialSeed)

def leaderEngine : BftEngine :=
  .fresh .reference (referenceConfig followerSet 1 5) (referenceHead followerConfig 7)
    followerConfig.initialSeed

def shownProof : LeaderProof :=
  .produce .reference (referenceVrfSk 1) 8 0 followerConfig.initialSeed

def leaderBlock : Block :=
  leaderEngine.reconstruct .reference none 8 shownProof
    leaderEngine.config.coinbase .empty

def shownProposals : Built := fun i h r =>
  if i = 1 ∧ h = 8 ∧ r = 0 then [(leaderBlock, shownProof)] else []

def forgedProposal : Proposal :=
  forge .reference none followerDriver.engine 0 shownProof (arrOfNat 20 99)

def followerJudge : RoundCoordinator := .new 8 followerConfig.initialSeed followerSet

/-- With the proof of the leader's proposal a block is accepted that pays
address 99. -/
theorem forged_coinbase_accepted :
    (leaderEngine.castProposal .reference none).2 = .ok (leaderBlock, shownProof) ∧
      (followerDriver.handleProposalMsg .reference none forgedProposal).1.engine.proposedBlock
        = some forgedProposal.blockHash ∧ forgedProposal.blockHash ≠ leaderBlock.hash .reference ∧
      ¬ ProposalAuthentic .reference none followerDriver shownProposals := by
  have hjd : judge followerDriver.engine (satAdd64 followerDriver.engine.headNumber 1) 0 =
      some followerJudge := by decide +kernel
  have hv : followerJudge.verifyLeader .reference shownProof = .ok () := by decide +kernel
  have ha : AcceptsProposal .reference none followerDriver forgedProposal :=
    accepts_forge hjd hv (arrOfNat 20 99)
  have hbu : ∀ q ∈ shownProposals (followerJudge.leaderIndex .reference)
      followerJudge.height followerJudge.round,
      q.1.hash .reference ≠ forgedProposal.blockHash := by decide +kernel
  refine ⟨by decide +kernel, by decide +kernel, by decide +kernel, fun hat => ?_⟩
  obtain ⟨q, hq, hhs⟩ := hat forgedProposal followerJudge ha hjd
  exact hbu q hq hhs

/-! ### A state in which the assumptions hold

The follower in the last round: no proposal makes it jump, so one proof
is all it can ever accept, and the leader has shown it. -/

lemma reference_hash_coinbase_inj {a b : Address} {body : BlockBody}
    (h : (e.reconstruct .reference none height proof a body).hash .reference =
      (e.reconstruct .reference none height proof b body).hash .reference) : a = b := by
  have hl : ∀ x : Address, (encodeString x.toList).length = 21 := by
    intro x
    rw [encodeString_of_length (by simp), length_append, length_toList]
    rfl
  have hpy : ∀ x, (e.reconstruct .reference none height proof x body).header.payload =
      encodeString e.headHash.toList ++ encodeString EMPTY_LIST_HASH.toList ++
        encodeString x.toList ++
          (e.reconstruct .reference none height proof a body).header.tail := by
    intro x
    rw [append_assoc, append_assoc]
    rfl
  have hhs : referenceHash (encodeList _) = referenceHash (encodeList _) := h
  rw [hpy, hpy] at hhs
  have hfd := referenceHash_stretch_inj ((hl b).trans (hl a).symm) ((hl a).trans_le
    (by decide)) hhs
  exact (encodeArr_append_inj (by decide) (congrArg (· ++ []) hfd)).1

lemma reference_proof_unique {pk : VrfPubKey} {seed : Arr 32}
    (h : proof.verify .reference pk height round seed = .ok ()) :
    proof = ⟨⟨pk, Arr.zero 64⟩, referenceHash
      (pk.toList ++ LeaderProof.input .reference height round seed)⟩ := by
  have hv : ∀ input, Crypto.reference.vrfVerify pk input proof.vrfProof =
      if proof.vrfProof = ⟨pk, Arr.zero 64⟩ then some (referenceHash (pk.toList ++ input))
      else none := fun _ => rfl
  rw [verify, hv] at h
  split_ifs at h with hp
  dsimp only at h
  split_ifs at h with ho
  obtain ⟨vrfProof, vrfOutput⟩ := proof
  obtain rfl : vrfProof = ⟨pk, Arr.zero 64⟩ := hp
  exact congrArg (LeaderProof.mk _) (not_not.mp ho).symm

def lastJudge : RoundCoordinator := { followerJudge with round := 0xFFFFFFFF }

def lastDriver : BftGossip :=
  .new { followerDriver.engine with coordinator := some lastJudge }

def lastProof : LeaderProof :=
  .produce .reference (referenceVrfSk 1) 8 0xFFFFFFFF followerConfig.initialSeed

def lastBlock : Block :=
  lastDriver.engine.reconstruct .reference none (satAdd64 lastDriver.engine.headNumber 1)
    lastProof (arrOfNat 20 2) .empty

def lastProposals : Built := fun i h r =>
  if i = 1 ∧ h = 8 ∧ r = 0xFFFFFFFF then [(lastBlock, lastProof)] else []

lemma judge_lastDriver
    (h : judge lastDriver.engine (satAdd64 lastDriver.engine.headNumber 1) round = some co) :
    co = lastJudge := by
  have hrn : ¬ (0xFFFFFFFF : UInt32) < round := by grind
  have hs : jumpRound lastDriver.engine (satAdd64 lastDriver.engine.headNumber 1) round =
      .ok lastDriver.engine := by
    have hnn : shouldFastForward lastDriver.engine
        (satAdd64 lastDriver.engine.headNumber 1) round = false := by
      simp [shouldFastForward, currentRoundState, lastDriver, new,
        Option.map_some, lastJudge, decide_eq_false hrn, Bool.and_false, Bool.false_and]
    rw [jumpRound, hnn]
    rfl
  rw [judge, hs] at h
  exact (Option.some.inj (Option.filter_eq_some_iff.mp h).1).symm

lemma lastProposals_slot : lastProposals (lastJudge.leaderIndex .reference)
    lastJudge.height lastJudge.round = [(lastBlock, lastProof)] := by
  have hld : lastJudge.leaderIndex .reference = 1 := by decide +kernel
  rw [hld]
  rfl

lemma proposalAssumptions_last :
    ProposalAssumptions .reference none lastDriver lastProposals := by
  constructor
  · intro round co proof hjd hv
    obtain rfl := judge_lastDriver hjd
    rw [lastProposals_slot]
    have hk : lastJudge.vs.validators[lastJudge.leaderIndex Crypto.reference]? =
        some (referenceValidator 1 1) := by decide +kernel
    rw [verifyLeader, hk] at hv
    have hlast : lastProof = ⟨⟨(referenceValidator 1 1).vrfPubkey, Arr.zero 64⟩, referenceHash
        ((referenceValidator 1 1).vrfPubkey.toList ++ input .reference
          lastJudge.height lastJudge.round lastJudge.seed)⟩ := by decide +kernel
    rw [reference_proof_unique hv, ← hlast]
    exact ⟨lastBlock, mem_singleton_self _⟩
  · intro round co hjd q hq q' hq' coinbase block hhs
    obtain rfl := judge_lastDriver hjd
    rw [lastProposals_slot] at hq hq'
    obtain rfl := mem_singleton.mp hq
    obtain rfl := mem_singleton.mp hq'
    obtain rfl := reference_hash_coinbase_inj hhs
    rfl
  · intro i h r
    unfold lastProposals
    split_ifs <;> simp

/-- In that state the leader's own proof is usable. -/
theorem proposalAuthentic_iff_last :
    ¬ ProposalAuthentic .reference none lastDriver lastProposals := by
  rw [proposalAuthentic_iff _ _ _ _ proposalAssumptions_last]
  intro hnn
  have hjd : judge lastDriver.engine (satAdd64 lastDriver.engine.headNumber 1) 0 =
      some lastJudge := by decide +kernel
  have hv : lastJudge.verifyLeader .reference lastProof = .ok () := by decide +kernel
  refine hnn 0 lastJudge hjd (lastBlock, lastProof) ?_ hv
  rw [lastProposals_slot]
  exact mem_singleton_self _

end BftGossip

end Aii.Bft
