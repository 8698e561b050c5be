/-
Aii.Bft.Slashing — equivocation detection
(`aii-consensus-bft/src/slashing.rs`).

The detector keeps the FIRST vote it sees per (validator, height, round)
and looks at no signature.
-/
import Aii.Bft.TallyTheorems

namespace Aii.Bft

open Common

/-- Two votes of one phase for different blocks. -/
structure EquivocationEvidence where
  phase : VotePhase
  first : Vote
  second : Vote
  deriving DecidableEq

namespace EquivocationEvidence

def validatorIndex (ev : EquivocationEvidence) : UInt32 := ev.first.validatorIndex

def height (ev : EquivocationEvidence) : UInt64 := ev.first.height

def round (ev : EquivocationEvidence) : UInt32 := ev.first.round

end EquivocationEvidence

inductive SlashingError where
  | sameBlock
  | mismatch (field : String)
  | unknownValidator (index : UInt32)
  | invalidSignature
  deriving DecidableEq

/-- `EquivocationEvidence::verify`, checks in source order. -/
def EquivocationEvidence.verify (c : Crypto) (ev : EquivocationEvidence) (vs : ValidatorSet) :
    Except SlashingError Unit :=
  let a := ev.first
  let b := ev.second
  if a.validatorIndex ≠ b.validatorIndex then .error (.mismatch "validator_index")
  else if a.height ≠ b.height then .error (.mismatch "height")
  else if a.round ≠ b.round then .error (.mismatch "round")
  else if a.blockHash = b.blockHash then .error .sameBlock
  else
    match vs.validators[a.validatorIndex.toNat]? with
    | none => .error (.unknownValidator a.validatorIndex)
    | some v =>
      if !c.blsVerify a.blsSig (voteDigest c ev.phase a.blockHash a.height a.round) v.blsPubkey then
        .error .invalidSignature
      else if !c.blsVerify b.blsSig (voteDigest c ev.phase b.blockHash b.height b.round)
          v.blsPubkey then .error .invalidSignature
      else .ok ()

/-- The first votes seen, per phase. Each table holds at most one vote
per (validator, height, round). -/
structure EquivocationDetector where
  seenPrevote : List PrevoteVote
  seenPrecommit : List PrecommitVote
  deriving DecidableEq

def EquivocationDetector.new : EquivocationDetector := ⟨[], []⟩

def Vote.sameKey (a b : Vote) : Bool :=
  a.validatorIndex == b.validatorIndex && a.height == b.height && a.round == b.round

/-- The common body of `record_prevote` and `record_precommit`: the new
table, and the evidence if the vote conflicts with the one on record. -/
def recordVote (p : VotePhase) (seen : List Vote) (vote : Vote) :
    List Vote × Option EquivocationEvidence :=
  match seen.find? (·.sameKey vote) with
  | some prior =>
    if prior.blockHash ≠ vote.blockHash then (seen, some ⟨p, prior, vote⟩) else (seen, none)
  | none => (vote :: seen, none)

def EquivocationDetector.seen (d : EquivocationDetector) : VotePhase → List Vote
  | .prevote => d.seenPrevote
  | .precommit => d.seenPrecommit

def EquivocationDetector.recordPrevote (d : EquivocationDetector) (vote : PrevoteVote) :
    EquivocationDetector × Option EquivocationEvidence :=
  let out := recordVote .prevote d.seenPrevote vote
  ({ d with seenPrevote := out.1 }, out.2)

def EquivocationDetector.recordPrecommit (d : EquivocationDetector) (vote : PrecommitVote) :
    EquivocationDetector × Option EquivocationEvidence :=
  let out := recordVote .precommit d.seenPrecommit vote
  ({ d with seenPrecommit := out.1 }, out.2)

lemma Vote.sameKey_iff {a b : Vote} : a.sameKey b = true ↔
    a.validatorIndex = b.validatorIndex ∧ a.height = b.height ∧ a.round = b.round := by
  simp [Vote.sameKey, and_assoc]

lemma EquivocationEvidence.verify_eq_ok_iff {c : Crypto} {vs : ValidatorSet} {p : VotePhase}
    {a b : Vote} : verify c ⟨p, a, b⟩ vs = .ok () ↔
      a.sameKey b = true ∧ a.blockHash ≠ b.blockHash ∧ a.verifies c p vs = true ∧
        b.verifies c p vs = true := by
  rw [Vote.sameKey_iff]
  unfold verify Vote.verifies
  dsimp only
  split_ifs with hi hhg hrn hbl
  · simp [hi]
  · simp [hhg]
  · simp [hrn]
  · simp [hbl]
  · rw [not_not] at hi hhg hrn
    rw [← hi]
    cases vs.validators[a.validatorIndex.toNat]? with
    | none => simp
    | some =>
      simp only [hhg, hrn, ne_eq, hbl, not_false_eq_true, and_self, true_and]
      split_ifs with hft hs
      · simp_all
      · simp_all
      · simp_all

end Aii.Bft
