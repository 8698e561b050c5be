/-
Aii.Bft.Wire — wire codec of consensus messages
(`aii-consensus-bft/src/wire.rs`).

Every message is a tag byte followed by fixed-width fields and at most one
byte string.
-/
import Aii.Bft.TallyTheorems

namespace Aii.Bft

open Common

def TAG_PROPOSAL : UInt8 := 0x00
def TAG_PREVOTE : UInt8 := 0x01
def TAG_PRECOMMIT : UInt8 := 0x02
def TAG_BLOCK_REQUEST : UInt8 := 0x03
def TAG_BLOCK_RESPONSE : UInt8 := 0x04

def BLOCK_REQUEST_LEN : Nat := 1 + 8
def BLOCK_RESPONSE_HEADER_LEN : Nat := 1 + 4
def BLOCK_CERT_LEN : Nat := 32 + 8 + 4 + 16 + 96
def BLOCK_RESPONSE_MIN_LEN : Nat := BLOCK_RESPONSE_HEADER_LEN + BLOCK_CERT_LEN
def MAX_PROPOSAL_BODY_LEN : Nat := 16 * 1024 * 1024
def MAX_BLOCK_RESPONSE_LEN : Nat := MAX_PROPOSAL_BODY_LEN + 64 * 1024
def PROPOSAL_HEADER_LEN : Nat := 1 + 8 + 4 + 32 + 32 + 64 + 32 + 20
def PROPOSAL_MIN_LEN : Nat := PROPOSAL_HEADER_LEN + 4
def VOTE_LEN : Nat := 1 + 32 + 8 + 4 + 4 + 96

structure Proposal where
  height : UInt64
  round : UInt32
  blockHash : H256
  leaderProof : LeaderProof
  coinbase : Address
  bodyBytes : Bytes
  deriving DecidableEq

inductive BftMessage where
  | proposal (p : Proposal)
  | prevote (v : PrevoteVote)
  | precommit (v : PrecommitVote)
  | blockRequest (height : UInt64)
  | blockResponse (blockBytes : Bytes) (certificate : PrecommitCertificate)
  deriving DecidableEq

inductive CodecError where
  | empty
  | unknownTag (tag : UInt8)
  | wrongLength (expected got : Nat)
  | invalidBlsSignature
  | proposalBodyTooLarge (max got : Nat)
  | blockResponseTooLarge (max got : Nat)
  deriving DecidableEq

/-- `u32::try_from(len).unwrap_or(u32::MAX)`, big-endian. -/
def lenBe4 (bs : Bytes) : Bytes := toBe 4 (min bs.length (2 ^ 32 - 1))

/-- `encode_vote_body` and the signature. -/
def encodeVote (v : Vote) : Bytes :=
  v.blockHash.toList ++ u64Be v.height ++ u32Be v.round ++ u32Be v.validatorIndex ++ v.blsSig.toList

/-- `encode_precommit_certificate`. -/
def encodeCertificate (cert : PrecommitCertificate) : Bytes :=
  cert.blockHash.toList ++ u64Be cert.height ++ u32Be cert.round ++
    toBe 16 cert.signerBitmap.toNat ++ cert.aggregatedSig.toList

def BftMessage.encode : BftMessage → Bytes
  | .proposal p =>
    TAG_PROPOSAL :: (u64Be p.height ++ u32Be p.round ++ p.blockHash.toList ++
      p.leaderProof.vrfProof.preOutput.toList ++ p.leaderProof.vrfProof.proof.toList ++
      p.leaderProof.vrfOutput.toList ++ p.coinbase.toList ++ lenBe4 p.bodyBytes ++ p.bodyBytes)
  | .prevote v => TAG_PREVOTE :: encodeVote v
  | .precommit v => TAG_PRECOMMIT :: encodeVote v
  | .blockRequest height => TAG_BLOCK_REQUEST :: u64Be height
  | .blockResponse blockBytes certificate =>
    TAG_BLOCK_RESPONSE :: (lenBe4 blockBytes ++ blockBytes ++ encodeCertificate certificate)

def BftMessage.encodedLen : BftMessage → Nat
  | .proposal p => PROPOSAL_MIN_LEN + p.bodyBytes.length
  | .prevote _ | .precommit _ => VOTE_LEN
  | .blockRequest _ => BLOCK_REQUEST_LEN
  | .blockResponse blockBytes _ => BLOCK_RESPONSE_HEADER_LEN + blockBytes.length + BLOCK_CERT_LEN

/-- `bytes[off..off + n]`. -/
def slice (bs : Bytes) (off n : Nat) : Bytes := (bs.drop off).take n

/-- `bytes[off..off + n].try_into().unwrap()`; callers have checked the
length. -/
def sliceArr (n : Nat) (bs : Bytes) (off : Nat) : Arr n :=
  (arr? n (slice bs off n)).getD (Arr.zero n)

def decodeProposal (bytes : Bytes) : Except CodecError BftMessage :=
  if bytes.length < PROPOSAL_MIN_LEN then .error (.wrongLength PROPOSAL_MIN_LEN bytes.length)
  else
    let bodyLen := ofBe (slice bytes PROPOSAL_HEADER_LEN 4)
    if MAX_PROPOSAL_BODY_LEN < bodyLen then
      .error (.proposalBodyTooLarge MAX_PROPOSAL_BODY_LEN bodyLen)
    else if bytes.length ≠ PROPOSAL_MIN_LEN + bodyLen then
      .error (.wrongLength (PROPOSAL_MIN_LEN + bodyLen) bytes.length)
    else
      .ok (.proposal
        { height := u64OfBe (slice bytes 1 8)
          round := u32OfBe (slice bytes 9 4)
          blockHash := sliceArr 32 bytes 13
          leaderProof :=
            { vrfProof := ⟨sliceArr 32 bytes 45, sliceArr 64 bytes 77⟩
              vrfOutput := sliceArr 32 bytes 141 }
          coinbase := sliceArr 20 bytes 173
          bodyBytes := slice bytes PROPOSAL_MIN_LEN bodyLen })

/-- `decode_vote`: the two phases differ in the constructor only. -/
def decodeVote (c : Crypto) (bytes : Bytes) : Except CodecError Vote :=
  if bytes.length ≠ VOTE_LEN then .error (.wrongLength VOTE_LEN bytes.length)
  else
    let sig : BlsSignature := sliceArr 96 bytes 49
    if c.blsSignatureOk sig then
      .ok
        { blockHash := sliceArr 32 bytes 1
          height := u64OfBe (slice bytes 33 8)
          round := u32OfBe (slice bytes 41 4)
          validatorIndex := u32OfBe (slice bytes 45 4)
          blsSig := sig }
    else .error .invalidBlsSignature

def decodeBlockRequest (bytes : Bytes) : Except CodecError BftMessage :=
  if bytes.length ≠ BLOCK_REQUEST_LEN then .error (.wrongLength BLOCK_REQUEST_LEN bytes.length)
  else .ok (.blockRequest (u64OfBe (slice bytes 1 8)))

/-- `decode_precommit_certificate`. -/
def decodeCertificate (c : Crypto) (bytes : Bytes) : Except CodecError PrecommitCertificate :=
  if bytes.length ≠ BLOCK_CERT_LEN then .error (.wrongLength BLOCK_CERT_LEN bytes.length)
  else
    let sig : BlsSignature := sliceArr 96 bytes 60
    if c.blsSignatureOk sig then
      .ok
        { blockHash := sliceArr 32 bytes 0
          height := u64OfBe (slice bytes 32 8)
          round := u32OfBe (slice bytes 40 4)
          signerBitmap := BitVec.ofNat 128 (ofBe (slice bytes 44 16))
          aggregatedSig := sig }
    else .error .invalidBlsSignature

def decodeBlockResponse (c : Crypto) (bytes : Bytes) : Except CodecError BftMessage :=
  if bytes.length < BLOCK_RESPONSE_MIN_LEN then
    .error (.wrongLength BLOCK_RESPONSE_MIN_LEN bytes.length)
  else
    let len := ofBe (slice bytes 1 4)
    if MAX_BLOCK_RESPONSE_LEN < len then .error (.blockResponseTooLarge MAX_BLOCK_RESPONSE_LEN len)
    else if bytes.length ≠ BLOCK_RESPONSE_HEADER_LEN + len + BLOCK_CERT_LEN then
      .error (.wrongLength (BLOCK_RESPONSE_HEADER_LEN + len + BLOCK_CERT_LEN) bytes.length)
    else
      match decodeCertificate c (bytes.drop (BLOCK_RESPONSE_HEADER_LEN + len)) with
      | .error e => .error e
      | .ok cert => .ok (.blockResponse (slice bytes BLOCK_RESPONSE_HEADER_LEN len) cert)

def BftMessage.decode (c : Crypto) (bytes : Bytes) : Except CodecError BftMessage :=
  match bytes with
  | [] => .error .empty
  | tag :: _ =>
    if tag = TAG_PROPOSAL then decodeProposal bytes
    else if tag = TAG_PREVOTE then (decodeVote c bytes).map .prevote
    else if tag = TAG_PRECOMMIT then (decodeVote c bytes).map .precommit
    else if tag = TAG_BLOCK_REQUEST then decodeBlockRequest bytes
    else if tag = TAG_BLOCK_RESPONSE then decodeBlockResponse c bytes
    else .error (.unknownTag tag)

end Aii.Bft
