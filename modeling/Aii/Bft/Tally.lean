/-
Aii.Bft.Tally — votes, vote tallies and quorum certificates
(`aii-consensus-bft/src/bft.rs`, second half).

PRE-VOTES and PRE-COMMITS differ only in the domain tag, so each
definition is over the phase.
-/
import Aii.Bft.ValidatorSet

namespace Aii.Bft

open Common

/-- The two voting phases. -/
inductive VotePhase where
  | prevote
  | precommit
  deriving DecidableEq

def PREVOTE_DOMAIN : Bytes :=
  ascii ['A', 'I', 'I', '-', 'P', 'R', 'E', 'V', 'O', 'T', 'E']

def PRECOMMIT_DOMAIN : Bytes :=
  ascii ['A', 'I', 'I', '-', 'P', 'R', 'E', 'C', 'O', 'M', 'M', 'I', 'T']

def VotePhase.domain : VotePhase → Bytes
  | .prevote => PREVOTE_DOMAIN
  | .precommit => PRECOMMIT_DOMAIN

structure Vote where
  blockHash : H256
  height : UInt64
  round : UInt32
  validatorIndex : UInt32
  blsSig : BlsSignature
  deriving DecidableEq

abbrev PrevoteVote := Vote
abbrev PrecommitVote := Vote

variable (c : Crypto)

/-- `DOMAIN ‖ block_hash ‖ height_be8 ‖ round_be4`. -/
def votePreimage (p : VotePhase) (blockHash : H256) (height : UInt64) (round : UInt32) : Bytes :=
  p.domain ++ blockHash.toList ++ u64Be height ++ u32Be round

/-- The digest a vote of phase `p` signs. -/
def voteDigest (p : VotePhase) (blockHash : H256) (height : UInt64) (round : UInt32) : Bytes :=
  (c.keccak256 (votePreimage p blockHash height round)).toList

def PrevoteVote.digest := voteDigest c .prevote

def PrecommitVote.digest := voteDigest c .precommit

/-- Build a signed vote of phase `p`. -/
def signVote (p : VotePhase) (sk : BlsSecretKey) (blockHash : H256) (height : UInt64)
    (round : UInt32) (validatorIndex : UInt32) : Vote where
  blockHash := blockHash
  height := height
  round := round
  validatorIndex := validatorIndex
  blsSig := c.blsSign sk (voteDigest c p blockHash height round)

def PrevoteVote.sign := signVote c .prevote

def PrecommitVote.sign := signVote c .precommit

/-- Does the vote's signature verify, as a phase `p` vote, under the key
of the validator it names in `vs`? -/
def Vote.verifies (p : VotePhase) (vs : ValidatorSet) (v : Vote) : Bool :=
  match vs.validators[v.validatorIndex.toNat]? with
  | none => false
  | some val => c.blsVerify v.blsSig (voteDigest c p v.blockHash v.height v.round) val.blsPubkey

structure QuorumCertificate where
  blockHash : H256
  height : UInt64
  round : UInt32
  signerBitmap : BitVec 128
  aggregatedSig : BlsSignature
  deriving DecidableEq

abbrev PolcCertificate := QuorumCertificate
abbrev PrecommitCertificate := QuorumCertificate

namespace QuorumCertificate

/-- The indices whose bit is set, `for i in 0..n { if (bitmap >> i) & 1 == 1 … }`. -/
def signers (cert : QuorumCertificate) (vs : ValidatorSet) : List (Fin vs.size) :=
  (List.finRange vs.size).filter fun i => cert.signerBitmap.getLsbD i

/-- The stake the loop accumulates, with `saturating_add`. -/
def signerStake (cert : QuorumCertificate) (vs : ValidatorSet) : UInt64 :=
  satSum64 0 ((cert.signers vs).map fun i => (vs.member i).stake)

def signerKeys (cert : QuorumCertificate) (vs : ValidatorSet) : List BlsPubKey :=
  (cert.signers vs).map fun i => (vs.member i).blsPubkey

/-- The common body of `PolcCertificate::verify` and
`PrecommitCertificate::verify`. -/
def verify (p : VotePhase) (cert : QuorumCertificate) (vs : ValidatorSet) :
    Except BftError Unit :=
  let highest := cert.signerBitmap.toNat.log2
  if cert.signerBitmap ≠ 0 ∧ vs.size ≤ highest then
    .error (.validatorIndexOutOfBounds (UInt32.ofNat highest) vs.size)
  else if cert.signerStake vs < vs.quorumThreshold then .error .invalidBlsSignature
  else if c.fastAggregateVerify cert.aggregatedSig
      (voteDigest c p cert.blockHash cert.height cert.round) (cert.signerKeys vs) then .ok ()
  else .error .invalidBlsSignature

end QuorumCertificate

def PolcCertificate.verify := QuorumCertificate.verify c .prevote

def PrecommitCertificate.verify := QuorumCertificate.verify c .precommit

/-- Outcome of an accepted vote. -/
inductive TallyState where
  | accepted
  | reachedQuorum
  deriving DecidableEq

/-- Collector of the votes for one `(block, height, round)`. `received`
is the source's `BTreeSet`, as a list without duplicates. -/
structure VoteTallier where
  blockHash : H256
  height : UInt64
  round : UInt32
  vs : ValidatorSet
  received : List UInt32
  sigs : List BlsSignature
  pubkeys : List BlsPubKey
  signerBitmap : BitVec 128
  stakeCollected : UInt64
  deriving DecidableEq

abbrev PrevoteTallier := VoteTallier
abbrev PrecommitTallier := VoteTallier

namespace VoteTallier

/-- `PrevoteTallier::new`, `PrecommitTallier::new`. -/
def new (blockHash : H256) (height : UInt64) (round : UInt32) (vs : ValidatorSet) :
    VoteTallier where
  blockHash := blockHash
  height := height
  round := round
  vs := vs
  received := []
  sigs := []
  pubkeys := []
  signerBitmap := 0
  stakeCollected := 0

/-- The tallier after the vote of `val` at `index` was accepted. -/
def add (t : VoteTallier) (index : UInt32) (sig : BlsSignature) (val : Validator) :
    VoteTallier :=
  { t with
    received := index :: t.received
    sigs := t.sigs ++ [sig]
    pubkeys := t.pubkeys ++ [val.blsPubkey]
    signerBitmap := t.signerBitmap ||| (1#128 <<< index.toNat)
    stakeCollected := satAdd64 t.stakeCollected val.stake }

/-- The state `submit` reports for a tallier that accepted a vote. -/
def state (t : VoteTallier) : TallyState :=
  if t.vs.quorumThreshold ≤ t.stakeCollected then .reachedQuorum else .accepted

/-- The common body of `PrevoteTallier::submit` and
`PrecommitTallier::submit`, checks in source order. -/
def submit (p : VotePhase) (t : VoteTallier) (vote : Vote) :
    Except BftError (VoteTallier × TallyState) :=
  if vote.blockHash ≠ t.blockHash then .error .wrongBlockHash
  else if vote.height ≠ t.height then .error .wrongHeight
  else if vote.round ≠ t.round then .error .wrongRound
  else
    match t.vs.validators[vote.validatorIndex.toNat]? with
    | none => .error (.validatorIndexOutOfBounds vote.validatorIndex t.vs.size)
    | some val =>
      if vote.validatorIndex ∈ t.received then .error (.duplicateVote vote.validatorIndex)
      else if c.blsVerify vote.blsSig (voteDigest c p t.blockHash t.height t.round)
          val.blsPubkey then
        let t' := t.add vote.validatorIndex vote.blsSig val
        .ok (t', t'.state)
      else .error .invalidBlsSignature

/-- The common body of `try_form_polc` and `try_finalize`. -/
def tryCertify (t : VoteTallier) : Option QuorumCertificate :=
  if t.stakeCollected < t.vs.quorumThreshold then none
  else (c.aggregateSignatures t.sigs).map fun sig =>
    { blockHash := t.blockHash, height := t.height, round := t.round
      signerBitmap := t.signerBitmap, aggregatedSig := sig }

end VoteTallier

def PrevoteTallier.submit := VoteTallier.submit c .prevote

def PrecommitTallier.submit := VoteTallier.submit c .precommit

def PrevoteTallier.tryFormPolc := VoteTallier.tryCertify c

def PrecommitTallier.tryFinalize := VoteTallier.tryCertify c

end Aii.Bft
