/-
Aii.Bft.Rejection — what a rejected proposal leaves behind.

`handle_proposal_msg` moves to the round named in the message before it
checks anything else.
-/
import Aii.Bft.ChainLink
import Aii.Bft.ProposalAuth

namespace Aii.Bft

open Common Chain

namespace BftEngine

structure RoundView where
  state : Option (UInt64 × UInt32 × Phase)
  proposal : Option (Block × LeaderProof)
  proposedBlock : Option H256
  prevotes : Option PrevoteTallier
  precommits : Option PrecommitTallier
  locked : Option LockedState

/-- Round and phase, the accepted proposal, the vote tallies and the lock. -/
def roundView (e : BftEngine) : RoundView where
  state := e.currentRoundState
  proposal := e.proposal
  proposedBlock := e.proposedBlock
  prevotes := e.coordinator.bind (·.prevoteTally)
  precommits := e.coordinator.bind (·.precommitTally)
  locked := e.coordinator.bind (·.locked)

variable {c : Crypto} {e : BftEngine}

lemma currentRoundState_eq_none : e.currentRoundState = none ↔ e.coordinator = none := by
  simp [currentRoundState]

lemma ensureCoordinator_isSome (e : BftEngine) : e.ensureCoordinator.coordinator.isSome := by
  obtain ⟨co, hco⟩ := BftGossip.ensureCoordinator_frame e
  simp [hco]

lemma submitRemoteProposal_error {block : Block} {proof : LeaderProof} {err : BftError}
    (h : (submitRemoteProposal c e block proof).2 = .error err) :
    (submitRemoteProposal c e block proof).1 = e.ensureCoordinator := by
  unfold submitRemoteProposal at h ⊢
  dsimp only at h ⊢
  cases hco : e.ensureCoordinator.coordinator with
  | none => rfl
  | some co =>
    simp only [hco] at h ⊢
    cases hs : co.submitProposal c (block.hash c) proof with
    | error => rfl
    | ok => simp [hs] at h

end BftEngine

namespace BftGossip

open BftEngine

variable {c : Crypto} {ex : Option Executor} {g : BftGossip} {p : Proposal} {e : BftEngine}
  {err : BftError}

/-- The message makes the driver leave its round before it is checked. -/
def JumpsRound (e : BftEngine) (p : Proposal) : Prop :=
  shouldFastForward e p.height p.round = true ∧ ∀ co ∈ e.coordinator, co.height = e.headNumber + 1
deriving Decidable

/-- The block rebuilt from the message has the hash the message states. -/
def Rebuilds (c : Crypto) (ex : Option Executor) (e : BftEngine) (p : Proposal) : Prop :=
  ∃ body, decodeBlockBody p.bodyBytes = .ok body ∧
    (e.reconstruct c ex p.height p.leaderProof p.coinbase body).hash c = p.blockHash

lemma jumpRound_of_jumps (h : JumpsRound e p) :
    jumpRound e p.height p.round = .ok { e with
      coordinator := some { RoundCoordinator.new (e.headNumber + 1) e.seed e.validatorSet with
        round := p.round } } := by
  obtain ⟨hff, hhg⟩ := h
  have hnn : e.coordinator.any (·.height ≠ e.headNumber + 1) = false := by
    cases hco : e.coordinator with
    | none => rfl
    | some co => simp [hhg co hco]
  unfold jumpRound fastForwardToRound
  rw [if_pos hff]
  rw [if_neg (by rw [hnn]; decide), RoundCoordinator.fireTimeouts_toNat]

lemma jumpRound_of_not_jumps (h : ¬ JumpsRound e p) :
    jumpRound e p.height p.round = .ok e ∨ ∃ err, jumpRound e p.height p.round = .error err := by
  unfold jumpRound fastForwardToRound
  dsimp only
  split_ifs with hff ha
  · exact .inr ⟨_, rfl⟩
  · refine absurd ⟨hff, ?_⟩ h
    intro co hco
    simpa [Option.mem_def.mp hco] using ha
  · exact .inl rfl

lemma jumpRound_error (h : jumpRound e p.height p.round = .error err) : e.coordinator ≠ none := by
  intro hnn
  simp only [jumpRound, fastForwardToRound, hnn, Option.any_none, Bool.false_eq_true, if_false] at h
  split_ifs at h

lemma JumpsRound.state_ne (h : JumpsRound e p) (height : UInt64) (phase : Phase) :
    e.currentRoundState ≠ some (height, p.round, phase) := by
  intro hstate
  obtain ⟨co, hco, heq⟩ := Option.map_eq_some_iff.mp hstate
  have hlt := shouldFastForward_lt h.1 hco
  have hrn : co.round = p.round := congrArg (·.2.1) heq
  rw [hrn] at hlt
  exact UInt32.lt_irrefl _ hlt

lemma handleProposalMsg_error (h : (g.handleProposalMsg c ex p).2 = .error err) :
    (∃ err', jumpRound g.engine p.height p.round = .error err' ∧
        (g.handleProposalMsg c ex p).1 = g) ∨
      ∃ e, jumpRound g.engine p.height p.round = .ok e ∧
        ((¬ Rebuilds c ex g.engine p ∧ (g.handleProposalMsg c ex p).1 = { g with engine := e }) ∨
          (Rebuilds c ex g.engine p ∧
            (g.handleProposalMsg c ex p).1 = { g with engine := e.ensureCoordinator })) := by
  unfold handleProposalMsg Rebuilds at *
  cases hjm : jumpRound g.engine p.height p.round with
  | error err' => exact .inl ⟨err', rfl, rfl⟩
  | ok =>
    obtain ⟨co, rfl⟩ := jumpRound_frame hjm
    refine .inr ⟨_, rfl, ?_⟩
    simp only [hjm] at h ⊢
    cases hby : decodeBlockBody p.bodyBytes with
    | error => exact .inl ⟨by simp, rfl⟩
    | ok body =>
      simp only [hby] at h ⊢
      split_ifs at h ⊢ with hhs
      · refine .inl ⟨?_, rfl⟩
        rintro ⟨body', hby', heq⟩
        cases hby'
        exact hhs heq
      · refine .inr ⟨⟨body, rfl, not_not.mp hhs⟩, ?_⟩
        simp only [submitRemoteProposal_error h]

/-- A rejected proposal leaves the round as it was exactly if it does not
jump the round, or fails early. -/
theorem rejected_proposal_keeps_round_iff (c : Crypto) (ex : Option Executor) (g : BftGossip)
    (p : Proposal) (err : BftError) (h : (g.handleProposalMsg c ex p).2 = .error err) :
    (g.handleProposalMsg c ex p).1.engine.roundView = g.engine.roundView ↔
      ¬ JumpsRound g.engine p ∧ (g.engine.coordinator = none → ¬ Rebuilds c ex g.engine p) := by
  by_cases hj : JumpsRound g.engine p
  · -- the new coordinator stands in the round of the message
    have hjm := jumpRound_of_jumps hj
    have haf : (g.handleProposalMsg c ex p).1.engine.currentRoundState =
        some (g.engine.headNumber + 1, p.round, .awaitingProposal) := by
      rcases handleProposalMsg_error h with ⟨err', her, -⟩ | ⟨e, hok, hcs⟩
      · rw [hjm] at her
        cases her
      · cases hjm.symm.trans hok
        rcases hcs with ⟨-, heq⟩ | ⟨-, heq⟩
        · rw [heq]
          rfl
        · rw [heq, ensureCoordinator_active rfl]
          rfl
    constructor
    · intro hv
      have hstate := congrArg RoundView.state hv
      exact absurd (hstate.symm.trans haf) (hj.state_ne _ _)
    · grind
  · rcases handleProposalMsg_error h with ⟨err', her, heq⟩ | ⟨e, hok, hcs⟩
    · -- the round could not be jumped, and nothing else was tried
      rw [heq]
      exact iff_of_true rfl ⟨hj, fun hnn => absurd hnn (jumpRound_error her)⟩
    · have he : e = g.engine := by
        rcases jumpRound_of_not_jumps hj with hs | ⟨err', her⟩
        · exact Except.ok.inj (hok.symm.trans hs)
        · rw [her] at hok
          cases hok
      subst he
      rcases hcs with ⟨hn, heq⟩ | ⟨hr, heq⟩
      · grind
      · rw [heq]
        cases hco : g.engine.coordinator with
        | some => simp [ensureCoordinator_active hco, hj]
        | none =>
          refine iff_of_false ?_ ?_
          · intro hv
            have hstate : g.engine.ensureCoordinator.currentRoundState =
                g.engine.currentRoundState := congrArg RoundView.state hv
            rw [currentRoundState_eq_none.mpr hco, currentRoundState_eq_none] at hstate
            have hso := ensureCoordinator_isSome g.engine
            simp [hstate] at hso
          · grind

/-! ### A follower that holds a lock

The follower has accepted the leader's block for height 8 and, with its
own PRE-VOTE, formed a quorum: it is PRE-COMMITTING and locked. -/

def lockedFollower : BftGossip :=
  followerDriver.tick .reference none [(BftMessage.proposal (proposalAt 8)).encode]

def junkProposal (round : UInt32) : Proposal :=
  { proposalAt 8 with round := round, bodyBytes := [] }

theorem rejected_proposal_keeps_round_iff_junk :
    (lockedFollower.handleProposalMsg .reference none (junkProposal 0)).1.engine.roundView =
      lockedFollower.engine.roundView := by
  refine (rejected_proposal_keeps_round_iff .reference none lockedFollower (junkProposal 0)
    (.invalidProposalBody Rlp.RlpError.inputTooShort.text) (by decide +kernel)).mpr
    ⟨by decide +kernel, ?_⟩
  intro hnn
  exact absurd hnn (by decide +kernel)

/-- Junk for round 5 is turned down, but the lock and the tallies are gone.
-/
theorem rejected_junk_drops_lock :
    let out := lockedFollower.handleProposalMsg .reference none (junkProposal 5)
    out.2 = .error (.invalidProposalBody Rlp.RlpError.inputTooShort.text) ∧
      lockedFollower.engine.currentRoundState = some (8, 0, .precommitting) ∧
      lockedFollower.engine.roundView.locked.isSome ∧
      out.1.engine.currentRoundState = some (8, 5, .awaitingProposal) ∧
      out.1.engine.roundView.locked = none ∧ out.1.engine.roundView.prevotes = none := by
  decide +kernel

end BftGossip

end Aii.Bft
