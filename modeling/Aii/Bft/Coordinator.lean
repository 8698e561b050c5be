/-
Aii.Bft.Coordinator — one height through its rounds
(`aii-consensus-bft/src/coordinator.rs`).

The PRE-VOTE quorum of a round is recorded in `locked`, which a timeout
keeps.
-/
import Aii.Bft.TallyTheorems

namespace Aii.Bft

open Common Except

/-- The most recent POLC observed at this height. -/
structure LockedState where
  blockHash : H256
  round : UInt32
  polc : PolcCertificate
  deriving DecidableEq

structure RoundCoordinator where
  height : UInt64
  round : UInt32
  phase : Phase
  vs : ValidatorSet
  seed : Arr 32
  proposedBlock : Option H256
  prevoteTally : Option PrevoteTallier
  precommitTally : Option PrecommitTallier
  polc : Option PolcCertificate
  locked : Option LockedState
  finalCert : Option PrecommitCertificate
  deriving DecidableEq

namespace RoundCoordinator

variable (c : Crypto)

def new (height : UInt64) (seed : Arr 32) (vs : ValidatorSet) : RoundCoordinator where
  height := height
  round := 0
  phase := .awaitingProposal
  vs := vs
  seed := seed
  proposedBlock := none
  prevoteTally := none
  precommitTally := none
  polc := none
  locked := none
  finalCert := none

def leaderIndex (co : RoundCoordinator) : Nat := co.vs.selectLeader c co.height co.round co.seed

/-- Does `proof` verify as the current leader's proof for this round? -/
def verifyLeader (co : RoundCoordinator) (proof : LeaderProof) : Except BftError Unit :=
  match co.vs.validators[co.leaderIndex c]? with
  | none => .error (.panicked "index out of bounds")
  | some leader => proof.verify c leader.vrfPubkey co.height co.round co.seed

/-- The coordinator once `blockHash` is accepted as this round's proposal. -/
def withProposal (co : RoundCoordinator) (blockHash : H256) : RoundCoordinator :=
  { co with
    proposedBlock := some blockHash
    prevoteTally := some (VoteTallier.new blockHash co.height co.round co.vs)
    phase := .prevoting }

def submitProposal (co : RoundCoordinator) (blockHash : H256) (proof : LeaderProof) :
    Except BftError RoundCoordinator :=
  if co.phase ≠ .awaitingProposal then .error (.wrongPhase .awaitingProposal co.phase)
  else
    match co.verifyLeader c proof with
    | .error e => .error e
    | .ok () => .ok (co.withProposal blockHash)

/-- The lock after a POLC for `block` formed in the current round: it
replaces a lock of the same or an earlier round. -/
def relock (co : RoundCoordinator) (block : H256) (polc : PolcCertificate) : Option LockedState :=
  match co.locked with
  | none => some ⟨block, co.round, polc⟩
  | some prev => if prev.round ≤ co.round then some ⟨block, co.round, polc⟩ else some prev

/-- The coordinator once the PRE-VOTE tally `t` reached its quorum. -/
def withPolc (co : RoundCoordinator) (t : PrevoteTallier) (block : H256)
    (polc : PolcCertificate) : RoundCoordinator :=
  { co with
    prevoteTally := some t
    precommitTally := some (VoteTallier.new block co.height co.round co.vs)
    locked := co.relock block polc
    polc := some polc
    phase := .precommitting }

def submitPrevote (co : RoundCoordinator) (vote : PrevoteVote) :
    Except BftError RoundCoordinator :=
  if co.phase ≠ .prevoting then .error (.wrongPhase .prevoting co.phase)
  else
    match co.prevoteTally with
    | none => .error (.panicked "invariant: tally exists in Prevoting")
    | some tally =>
      match PrevoteTallier.submit c tally vote with
      | .error e => .error e
      | .ok (tally, .accepted) => .ok { co with prevoteTally := some tally }
      | .ok (tally, .reachedQuorum) =>
        match PrevoteTallier.tryFormPolc c tally, co.proposedBlock with
        | none, _ => .error (.panicked "invariant: tally at quorum forms POLC")
        | _, none => .error (.panicked "invariant: block set in Prevoting")
        | some polc, some block => .ok (co.withPolc tally block polc)

def submitPrecommit (co : RoundCoordinator) (vote : PrecommitVote) :
    Except BftError RoundCoordinator :=
  if co.phase ≠ .precommitting then .error (.wrongPhase .precommitting co.phase)
  else
    match co.precommitTally with
    | none => .error (.panicked "invariant: tally exists in Precommitting")
    | some tally =>
      match PrecommitTallier.submit c tally vote with
      | .error e => .error e
      | .ok (tally, .accepted) => .ok { co with precommitTally := some tally }
      | .ok (tally, .reachedQuorum) =>
        match PrecommitTallier.tryFinalize c tally with
        | none => .error (.panicked "invariant: tally at quorum forms cert")
        | some cert =>
          .ok { co with precommitTally := some tally, finalCert := some cert, phase := .committed }

def submitVote (p : VotePhase) (co : RoundCoordinator) (vote : Vote) :
    Except BftError RoundCoordinator :=
  match p with
  | .prevote => co.submitPrevote c vote
  | .precommit => co.submitPrecommit c vote

def fireTimeout (co : RoundCoordinator) : RoundCoordinator :=
  if co.phase = .committed then co
  else
    { co with
      round := satAdd32 co.round 1
      phase := .awaitingProposal
      proposedBlock := none
      prevoteTally := none
      precommitTally := none
      polc := none }

/-- `for _ in 0..n { coord.fire_timeout() }`. -/
def fireTimeouts : Nat → RoundCoordinator → RoundCoordinator
  | 0, co => co
  | n + 1, co => fireTimeouts n co.fireTimeout

section Inversion

variable {c} {co co' : RoundCoordinator} {p : VotePhase} {v : Vote}

lemma submitProposal_ok {blockHash : H256} {proof : LeaderProof}
    (h : co.submitProposal c blockHash proof = .ok co') :
    co.phase = .awaitingProposal ∧ co.verifyLeader c proof = .ok () ∧
      co' = co.withProposal blockHash := by
  unfold submitProposal at h
  split_ifs at h with hph
  split at h
  · cases h
  next hv => exact ⟨not_not.mp hph, hv, (ok.inj h).symm⟩

lemma submitProposal_eq {blockHash : H256} {proof : LeaderProof}
    (h : co.submitProposal c blockHash proof = .ok co') : co' = co.withProposal blockHash :=
  (submitProposal_ok h).2.2

lemma relock_eq (h : ∀ l, co.locked = some l → l.round ≤ co.round) (block : H256)
    (polc : PolcCertificate) : co.relock block polc = some ⟨block, co.round, polc⟩ := by
  unfold relock
  cases hl : co.locked with
  | none => rfl
  | some l => exact if_pos (h l hl)

lemma submitPrevote_ok {vote : PrevoteVote} (h : co.submitPrevote c vote = .ok co') :
    co.phase = .prevoting ∧ ∃ t t' st, co.prevoteTally = some t ∧
      VoteTallier.submit c .prevote t vote = .ok (t', st) ∧
      ((st = .accepted ∧ co' = { co with prevoteTally := some t' }) ∨
        ∃ polc block, st = .reachedQuorum ∧ VoteTallier.tryCertify c t' = some polc ∧
          co.proposedBlock = some block ∧ co' = co.withPolc t' block polc) := by
  unfold submitPrevote at h
  split_ifs at h with hph
  refine ⟨not_not.mp hph, ?_⟩
  split at h
  · cases h
  next t ht =>
    split at h
    · cases h
    next t' hs => exact ⟨t, t', _, ht, hs, .inl ⟨rfl, (ok.inj h).symm⟩⟩
    next t' hs =>
      split at h
      · cases h
      · cases h
      next polc block hp hb =>
        exact ⟨t, t', _, ht, hs, .inr ⟨polc, block, rfl, hp, hb, (ok.inj h).symm⟩⟩

lemma submitPrecommit_ok {vote : PrecommitVote} (h : co.submitPrecommit c vote = .ok co') :
    co.phase = .precommitting ∧ ∃ t t' st, co.precommitTally = some t ∧
      VoteTallier.submit c .precommit t vote = .ok (t', st) ∧
      ((st = .accepted ∧ co' = { co with precommitTally := some t' }) ∨
        ∃ cert, st = .reachedQuorum ∧ VoteTallier.tryCertify c t' = some cert ∧
          co' = { co with precommitTally := some t', finalCert := some cert,
                          phase := .committed }) := by
  unfold submitPrecommit at h
  split_ifs at h with hph
  refine ⟨not_not.mp hph, ?_⟩
  split at h
  · cases h
  next t ht =>
    split at h
    · cases h
    next t' hs => exact ⟨t, t', _, ht, hs, .inl ⟨rfl, (ok.inj h).symm⟩⟩
    next t' hs =>
      split at h
      · cases h
      next cert hp => exact ⟨t, t', _, ht, hs, .inr ⟨cert, rfl, hp, (ok.inj h).symm⟩⟩

lemma submitVote_frame (h : co.submitVote c p v = .ok co') :
    co'.height = co.height ∧ co'.round = co.round ∧ co'.vs = co.vs ∧ co'.seed = co.seed ∧
      co'.proposedBlock = co.proposedBlock := by
  cases p with
  | prevote =>
    obtain ⟨-, t, t', st, -, -, hcs⟩ := submitPrevote_ok h
    rcases hcs with ⟨-, rfl⟩ | ⟨polc, block, -, -, -, rfl⟩ <;> exact ⟨rfl, rfl, rfl, rfl, rfl⟩
  | precommit =>
    obtain ⟨-, t, t', st, -, -, hcs⟩ := submitPrecommit_ok h
    rcases hcs with ⟨-, rfl⟩ | ⟨cert, -, -, rfl⟩ <;> exact ⟨rfl, rfl, rfl, rfl, rfl⟩

/-- A vote leaves a lock of at least the round of the lock before it. -/
lemma submitVote_lock_grows {l : LockedState} (hle : ∀ l, co.locked = some l → l.round ≤ co.round)
    (h : co.submitVote c p v = .ok co')
    (hl : co.locked = some l) : ∃ l', co'.locked = some l' ∧ l.round ≤ l'.round := by
  cases p with
  | prevote =>
    obtain ⟨-, t, t', st, -, -, hcs⟩ := submitPrevote_ok h
    rcases hcs with ⟨-, rfl⟩ | ⟨polc, block, -, -, -, rfl⟩
    · exact ⟨l, hl, UInt32.le_refl _⟩
    · exact ⟨_, relock_eq hle block polc, hle l hl⟩
  | precommit =>
    obtain ⟨-, t, t', st, -, -, hcs⟩ := submitPrecommit_ok h
    rcases hcs with ⟨-, rfl⟩ | ⟨cert, -, -, rfl⟩ <;> exact ⟨l, hl, UInt32.le_refl _⟩

lemma submitVote_phase (h : co.submitVote c p v = .ok co') : co.phase ≠ .awaitingProposal := by
  cases p with
  | prevote => exact (submitPrevote_ok h).1 ▸ nofun
  | precommit => exact (submitPrecommit_ok h).1 ▸ nofun

lemma fireTimeout_frame (co : RoundCoordinator) :
    co.fireTimeout.height = co.height ∧ co.fireTimeout.vs = co.vs ∧
      co.fireTimeout.seed = co.seed := by
  unfold fireTimeout
  split_ifs <;> exact ⟨rfl, rfl, rfl⟩

lemma fireTimeouts_frame (n : Nat) (co : RoundCoordinator) :
    (fireTimeouts n co).height = co.height ∧ (fireTimeouts n co).vs = co.vs ∧
      (fireTimeouts n co).seed = co.seed := by
  induction n generalizing co with
  | zero => exact ⟨rfl, rfl, rfl⟩
  | succ _ ih =>
    obtain ⟨hh, hv, hs⟩ := ih co.fireTimeout
    obtain ⟨hh', hv', hs'⟩ := fireTimeout_frame co
    exact ⟨hh.trans hh', hv.trans hv', hs.trans hs'⟩

lemma fireTimeouts_new (n : Nat) (height : UInt64) (seed : Arr 32) (vs : ValidatorSet)
    (r : UInt32) : ∃ r' : UInt32, fireTimeouts n { new height seed vs with round := r } =
        { new height seed vs with round := r' } ∧ r'.toNat = min (r.toNat + n) (2 ^ 32 - 1) := by
  induction n generalizing r with
  | zero =>
    have hlt := r.toNat_lt
    exact ⟨r, rfl, by omega⟩
  | succ _ ih =>
    obtain ⟨r', heq, hr'⟩ := ih (satAdd32 r 1)
    refine ⟨r', heq, ?_⟩
    rw [hr', satAdd32_toNat, UInt32.toNat_one]
    omega

lemma fireTimeouts_toNat (round : UInt32) (height : UInt64) (seed : Arr 32) (vs : ValidatorSet) :
    fireTimeouts round.toNat (new height seed vs) = { new height seed vs with round := round } := by
  obtain ⟨r', heq, hr'⟩ := fireTimeouts_new round.toNat height seed vs 0
  have hlt := round.toNat_lt
  have hrn : r' = round := by
    apply UInt32.toNat_inj.mp
    rw [hr', UInt32.toNat_zero]
    omega
  exact hrn ▸ heq

end Inversion

end RoundCoordinator

end Aii.Bft
