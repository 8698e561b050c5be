/-
Aii.Net.Message — peer messages and what a frame can carry
(`aii-net-p2p/src/lib.rs`, `write_message` and `read_message` of
`aii-node/src/bft_p2p.rs`).

A frame in clear takes `MAX_FRAME_BYTES`; over Noise the payload must fit
one Noise message.
-/
import Aii.Net.Noise

namespace Aii.Net

open Common Common.Rlp Chain Bft List BftEngine RoundCoordinator

/-! ## Messages -/

/-- Maximum encoded message size (1 MiB). -/
def MAX_FRAME_BYTES : Nat := 1024 * 1024

inductive Message where
  | hello (version : UInt32) (name : String)
  | ping (nonce : UInt64)
  | pong (nonce : UInt64)
  | disconnect (reason : UInt32)
  | bft (payload : Bytes)
  deriving DecidableEq

open Message

def TYPE_HELLO : UInt8 := 0x01
def TYPE_PING : UInt8 := 0x02
def TYPE_PONG : UInt8 := 0x03
def TYPE_DISCONNECT : UInt8 := 0x04
def TYPE_BFT : UInt8 := 0x05

/-- `P2pError::Frame`; errors of the socket itself are not modelled. -/
inductive P2pError where
  | frame (text : String)
  deriving DecidableEq

def Message.encode : Message → Bytes
  | .hello version name =>
    TYPE_HELLO :: encodeList (encodeUint 4 version.toNat ++ encodeString name.toUTF8.toList)
  | .ping nonce => TYPE_PING :: encodeList (encodeU64 nonce)
  | .pong nonce => TYPE_PONG :: encodeList (encodeU64 nonce)
  | .disconnect reason => TYPE_DISCONNECT :: encodeList (encodeUint 4 reason.toNat)
  | .bft payload => TYPE_BFT :: encodeList (encodeString payload)

def field {α : Type} (d : Decoder α) (buf : Bytes) (next : α → Bytes → Except P2pError Message) :
    Except P2pError Message :=
  match d buf with
  | .error e => .error (.frame e.text)
  | .ok (a, rest) => next a rest

/-- A byte as `{:02x}`. -/
def hexByte (b : UInt8) : String :=
  String.ofList [Nat.digitChar (b.toNat / 16), Nat.digitChar (b.toNat % 16)]

/-- `Message::decode`. What follows the fields is ignored. -/
def Message.decode : Bytes → Except P2pError Message
  | [] => .error (.frame "empty frame")
  | ty :: bytes =>
    field decodeHeader bytes fun header buf =>
      if !header.1 then .error (.frame "expected list")
      else if ty = TYPE_HELLO then
        field (decodeUint 4) buf fun version buf =>
          field decodeString buf fun nameBytes _ =>
            match String.fromUTF8? ⟨nameBytes.toArray⟩ with
            | none => .error (.frame "Hello.name not utf-8")
            | some name => .ok (.hello (UInt32.ofNat version) name)
      else if ty = TYPE_PING then field decodeU64 buf fun nonce _ => .ok (.ping nonce)
      else if ty = TYPE_PONG then field decodeU64 buf fun nonce _ => .ok (.pong nonce)
      else if ty = TYPE_DISCONNECT then
        field (decodeUint 4) buf fun reason _ => .ok (.disconnect (UInt32.ofNat reason))
      else if ty = TYPE_BFT then
        field decodeString buf fun payload _ =>
          if MAX_FRAME_BYTES < payload.length then
            .error (.frame ("Bft payload too large: " ++ toString payload.length))
          else .ok (.bft payload)
      else .error (.frame ("unknown message type 0x" ++ hexByte ty))

variable {α : Type} {d : Decoder α} {buf : Bytes} {next : α → Bytes → Except P2pError Message}

lemma field_ok {m : Message} (h : field d buf next = .ok m) :
    ∃ a rest, d buf = .ok (a, rest) ∧ next a rest = .ok m := by
  unfold field at h
  cases hd : d buf with
  | error => simp [hd] at h
  | ok out => grind

lemma field_of_ok {rest : Bytes} {a : α} (h : d buf = .ok (a, rest)) :
    field d buf next = next a rest := by
  rw [field, h]

/-! ## Frames in clear -/

/-- `write_message`: the length is cut to 32 bits. -/
def writeMessage (m : Message) : Bytes := u32Be (UInt32.ofNat m.encode.length) ++ m.encode

/-- `read_message` on the bytes of a stream: `none` while bytes are
missing, else the outcome and the rest of the stream. After an error the
reader closes the connection. -/
def readMessage (stream : Bytes) : Option (Except P2pError Message × Bytes) :=
  if stream.length < 4 then none
  else
    let len := ofBe (stream.take 4)
    let rest := stream.drop 4
    if MAX_FRAME_BYTES < len then some (.error (.frame "frame too large"), rest)
    else if rest.length < len then none
    else some (Message.decode (rest.take len), rest.drop len)

def PlainDelivers (payload : Bytes) : Prop :=
  readMessage (writeMessage (.bft payload)) = some (.ok (.bft payload), [])

/-- The Noise frame of a payload, as message number `n`, is read back. -/
def NoiseDelivers (cipher : NoiseCipher) (n : Nat) (payload : Bytes) : Prop :=
  ∃ frame, sendMsg cipher n payload = .ok frame ∧ recvMsg cipher n frame = .message payload []

variable {payload : Bytes}

lemma noiseDelivers_iff {cipher : NoiseCipher} {n : Nat} :
    NoiseDelivers cipher n payload ↔ payload.length + 16 ≤ MAX_NOISE_MESSAGE := by
  constructor
  · rintro ⟨_, hs, -⟩
    exact (sendMsg_eq_ok_iff.mp hs).1
  · intro hl
    have hs : sendMsg cipher n payload =
        .ok (toBe 2 (payload.length + 16) ++ cipher.writeMessage n payload) :=
      sendMsg_eq_ok_iff.mpr ⟨hl, rfl⟩
    have hr : recvMsg cipher n (_ ++ []) = .message payload [] := recvMsg_frame hs
    rw [append_nil] at hr
    exact ⟨_, hs, hr⟩

lemma encodeString_lt (h : payload.length ≤ MAX_FRAME_BYTES) :
    (encodeString payload).length < 2 ^ 64 := by
  have hle := encodeString_length_le payload
  unfold MAX_FRAME_BYTES at h
  omega

lemma decode_bft (h : payload.length ≤ MAX_FRAME_BYTES) :
    decode (encode (.bft payload)) = .ok (.bft payload) := by
  have hlt : payload.length < 2 ^ 64 := by
    unfold MAX_FRAME_BYTES at h
    omega
  have hhe := decodeHeader_encodeList (encodeString_lt h) []
  have hs := decodeString_encodeString hlt []
  rw [append_nil] at hhe hs
  rw [append_nil] at hhe
  rw [encode, decode, field_of_ok hhe]
  simp [TYPE_BFT, TYPE_HELLO, TYPE_PING, TYPE_PONG, TYPE_DISCONNECT, field_of_ok hs,
    Nat.not_lt.mpr h]

lemma length_le_of_decode_bft {bytes : Bytes} (h : decode bytes = .ok (.bft payload)) :
    payload.length ≤ bytes.length := by
  cases bytes with
  | nil => cases h
  | cons =>
    obtain ⟨header, _, hhe, h⟩ := field_ok h
    have hle := decodeHeader_length_le hhe
    rw [length_cons]
    split_ifs at h
    · obtain ⟨_, buf', -, h⟩ := field_ok h
      obtain ⟨_, _, -, h⟩ := field_ok h
      split at h <;> cases h
    · obtain ⟨nonce, buf', -, h⟩ := field_ok h
      cases h
    · obtain ⟨_, buf', -, h⟩ := field_ok h
      cases h
    · obtain ⟨reason, buf', -, h⟩ := field_ok h
      cases h
    · obtain ⟨payload', buf', hs, h⟩ := field_ok h
      split_ifs at h
      cases h
      have := decodeString_length_le hs
      omega

lemma bft_encode_length (payload : Bytes) : (encode (.bft payload)).length =
      1 + (encodeHeader true (encodeString payload).length).length +
        (encodeString payload).length := by
  rw [encode, length_cons, encodeList, length_append]
  omega

lemma plainDelivers_iff_encode :
    PlainDelivers payload ↔ (encode (.bft payload)).length ≤ MAX_FRAME_BYTES := by
  have hb : payload.length ≤ (encode (.bft payload)).length ∧
      (encode (.bft payload)).length ≤ payload.length + 19 := by
    have hhe := encodeHeader_length_le true (encodeString payload).length
    have hle := length_le_encodeString payload
    have hge := encodeString_length_le payload
    rw [bft_encode_length]
    omega
  have hdc : payload.length ≤ MAX_FRAME_BYTES →
    decode (encode (.bft payload)) = .ok (.bft payload) := decode_bft
  unfold PlainDelivers readMessage writeMessage
  generalize encode (.bft payload) = body at hb hdc ⊢
  have hf : (u32Be (UInt32.ofNat body.length)).length = 4 := u32Be_length _
  have hl : ofBe (u32Be (UInt32.ofNat body.length)) = body.length % 2 ^ 32 := by
    rw [u32Be, ofBe_toBe, UInt32.toNat_ofNat']
    norm_num
  rw [take_left' hf, drop_left' hf, hl, length_append, hf, if_neg (by omega)]
  dsimp only
  unfold MAX_FRAME_BYTES at *
  constructor
  · intro h
    split_ifs at h with ht hms
    · cases h
    · have hread := congrArg Prod.fst (Option.some.inj h)
      have hle := length_le_of_decode_bft hread
      rw [length_take] at hle
      omega
  · intro _
    have hm : body.length % 2 ^ 32 = body.length := Nat.mod_eq_of_lt (by omega)
    rw [hm, if_neg (by omega), if_neg (by omega), take_length, drop_length, hdc (by omega)]

lemma plainDelivers_iff : PlainDelivers payload ↔ payload.length + 9 ≤ MAX_FRAME_BYTES := by
  rw [plainDelivers_iff_encode, bft_encode_length]
  have hs := encodeString_length_le payload
  have hge := length_le_encodeString payload
  unfold MAX_FRAME_BYTES
  by_cases hsm : payload.length < 65536
  · have hhe := encodeHeader_length_le true (encodeString payload).length
    omega
  · by_cases hl : payload.length < 2 ^ 24 - 4
    · have ho : payload.length ≠ 1 := by omega
      have hi : (encodeString payload).length = payload.length + 4 := by
        rw [encodeString_of_length ho, length_append,
          encodeHeader_length (k := 2) (by omega) (by omega) (by omega) (by omega)]
        omega
      rw [hi, encodeHeader_length (k := 2) (by omega) (by omega) (by omega) (by omega)]
      omega
    · omega

def proposalOf (c : Crypto) (e : BftEngine) (height : UInt64) (round : UInt32) (block : Block)
    (proof : LeaderProof) : BftMessage :=
  .proposal
    { height := height, round := round, blockHash := block.hash c, leaderProof := proof
      coinbase := e.config.coinbase, bodyBytes := block.body.encode }

def stagedBody (e : BftEngine) : BlockBody := ⟨e.pendingTxs.take e.maxTxs, [], []⟩

lemma castProposal_body {c : Crypto} {ex : Option Executor} {e e' : BftEngine} {block : Block}
    {proof : LeaderProof} (h : e.castProposal c ex = (e', .ok (block, proof))) :
    block.body = stagedBody e := by
  have hce := castProposal_cases c ex e
  rw [h] at hce
  cases hce with
  | accepted _ _ _ _ _ body => exact body

def Deliverable (c : Crypto) (carries : Bytes → Prop) (msg : BftMessage) : Prop :=
  BftMessage.decode c msg.encode = .ok msg ∧ carries msg.encode

section Limits

variable {c : Crypto} {e : BftEngine} {height : UInt64} {round : UInt32} {block : Block}
  {proof : LeaderProof}

lemma proposalOf_length :
    (proposalOf c e height round block proof).encode.length = 197 + block.body.encode.length := by
  rw [BftMessage.encode_length]
  rfl

lemma deliverable_iff {carries : Bytes → Prop} {limit : Nat} (hlm : limit ≤ 2 ^ 24)
    (hc : carries (proposalOf c e height round block proof).encode ↔
      block.body.encode.length ≤ limit) :
    Deliverable c carries (proposalOf c e height round block proof) ↔
      block.body.encode.length ≤ limit := by
  refine ⟨fun h => hc.mp h.2, fun h => ⟨?_, hc.mpr h⟩⟩
  exact BftMessage.decode_encode (show block.body.encode.length ≤ MAX_PROPOSAL_BODY_LEN from
    h.trans hlm) trivial

end Limits

/-- **Proposals on the wire**: bodies of at most 1048370 bytes in clear, and
65322 over Noise. -/
theorem proposal_deliverable_iff (c : Crypto) (ex : Option Executor) (e e' : BftEngine)
    (block : Block) (proof : LeaderProof) (height : UInt64) (round : UInt32)
    (hcast : e.castProposal c ex = (e', .ok (block, proof))) :
    (Deliverable c PlainDelivers (proposalOf c e' height round block proof) ↔
        (stagedBody e).encode.length ≤ 1048370) ∧ ∀ (cipher : NoiseCipher) (n : Nat),
        Deliverable c (NoiseDelivers cipher n) (proposalOf c e' height round block proof) ↔
          (stagedBody e).encode.length ≤ 65322 := by
  rw [← castProposal_body hcast]
  constructor
  · refine deliverable_iff (by omega) ?_
    rw [plainDelivers_iff, proposalOf_length]
    unfold MAX_FRAME_BYTES
    omega
  · intro _ n
    refine deliverable_iff (by omega) ?_
    rw [noiseDelivers_iff, proposalOf_length]
    unfold MAX_NOISE_MESSAGE
    omega

def largeTx (n : Nat) : Tx :=
  .legacy ⟨0, 1, 21000, none, 0, List.replicate n 0, 27, Arr.zero 32, Arr.zero 32, .secp256k1⟩

def stagedLeader (txs : List Tx) : BftEngine :=
  (BftEngine.memberEngine 1).extendPendingTxs txs

lemma data_le_encode (n : Nat) (rest : List Tx) :
    n ≤ (BlockBody.encode ⟨largeTx n :: rest, [], []⟩).length := by
  have hdt : n ≤ (encodeString (replicate n 0)).length := by
    simpa using length_le_encodeString (replicate n 0)
  have htx : (encodeString (replicate n 0)).length ≤ (largeTx n).encode.length := by
    refine Nat.le_trans ?_ (length_le_encodeList _)
    simp [TxLegacy.core]
    omega
  have hby : (largeTx n).encode.length ≤
      (encodeList ((largeTx n :: rest).flatMap Tx.encode)).length := by
    refine Nat.le_trans ?_ (length_le_encodeList _)
    rw [flatMap_cons, length_append]
    omega
  refine hdt.trans (htx.trans (hby.trans (Nat.le_trans ?_ (length_le_encodeList _))))
  simp only [length_append]
  omega

lemma stagedLeader_proposes (txs : List Tx) : ∃ e' block proof,
      (stagedLeader txs).castProposal .reference none = (e', .ok (block, proof)) := by
  have hce := castProposal_cases .reference none (stagedLeader txs)
  generalize ho : (stagedLeader txs).castProposal .reference none = out at hce ⊢
  have hac : ∀ co, (stagedLeader txs).ensureCoordinator.coordinator = some co →
      co = .new 8 (memberEngine 1).seed followerSet := by
    intro co hco
    exact (Option.some.inj hco).symm
  have hl : leaderIndex .reference
      (.new 8 (memberEngine 1).seed followerSet) = 1 := by
    decide +kernel
  have hv : verifyLeader .reference
      (.new 8 (memberEngine 1).seed followerSet)
      (.produce .reference (referenceVrfSk 1) 8 0 (memberEngine 1).seed) = .ok () := by
    decide +kernel
  cases hce with
  | notLeader co active other =>
    rw [hac co active, hl] at other
    exact absurd rfl other
  | refused co active _ block _ error =>
    rw [hac co active] at error
    have hok : RoundCoordinator.submitProposal .reference
        (.new 8 (memberEngine 1).seed followerSet) (block.hash .reference)
        (.produce .reference (referenceVrfSk 1) 8 0 (memberEngine 1).seed) =
          .ok (.withProposal (.new 8 (memberEngine 1).seed followerSet)
            (block.hash .reference)) := by
      rw [RoundCoordinator.submitProposal, if_neg (by simp [RoundCoordinator.new]), hv]
    exact absurd (error.symm.trans hok) (by simp)
  | accepted => exact ⟨_, _, _, rfl⟩

/-- Two staged transactions fit every connection. -/
theorem proposal_deliverable_two_txs : ∃ e' block proof,
    (stagedLeader [largeTx 40, largeTx 3]).castProposal .reference none =
        (e', .ok (block, proof)) ∧
      Deliverable .reference PlainDelivers (proposalOf .reference e' 8 0 block proof) ∧
      ∀ (cipher : NoiseCipher) (n : Nat), Deliverable .reference (NoiseDelivers cipher n)
        (proposalOf .reference e' 8 0 block proof) := by
  obtain ⟨e', block, proof, hcast⟩ := stagedLeader_proposes [largeTx 40, largeTx 3]
  have hsize : (stagedBody (stagedLeader [largeTx 40, largeTx 3])).encode.length ≤ 65322 := by
    decide +kernel
  obtain ⟨hplain, hnoise⟩ := proposal_deliverable_iff .reference none _ e' block proof 8 0 hcast
  exact ⟨e', block, proof, hcast, hplain.mpr (by omega), fun _ _ => (hnoise _ _).mpr hsize⟩

/-- A transaction of a mebibyte fits no connection, one of 64 KiB not Noise.
-/
theorem large_proposal_undeliverable :
    (∃ e' block proof, (stagedLeader [largeTx (2 ^ 20)]).castProposal .reference none =
        (e', .ok (block, proof)) ∧
      ¬PlainDelivers (proposalOf .reference e' 8 0 block proof).encode ∧
      ∀ cipher n, ¬NoiseDelivers cipher n (proposalOf .reference e' 8 0 block proof).encode) ∧
    ∃ e' block proof, (stagedLeader [largeTx (2 ^ 16)]).castProposal .reference none =
        (e', .ok (block, proof)) ∧ ∀ cipher n,
        ¬NoiseDelivers cipher n (proposalOf .reference e' 8 0 block proof).encode := by
  have hlh : ∀ n e' block proof, (stagedLeader [largeTx n]).castProposal .reference none =
      (e', .ok (block, proof)) →
      n ≤ (proposalOf .reference e' 8 0 block proof).encode.length := by
    intro n e' block _ hca
    have hm : (stagedLeader [largeTx n]).maxTxs = (memberEngine 1).maxTxs := rfl
    have hrm : (memberEngine 1).maxTxs = 1428 := by decide +kernel
    have hby : block.body = ⟨[largeTx n], [], []⟩ := by
      rw [castProposal_body hca, stagedBody, hm, hrm]
      rfl
    have hle := data_le_encode n []
    rw [proposalOf_length, hby]
    omega
  constructor
  · obtain ⟨e', block, proof, hca⟩ := stagedLeader_proposes [largeTx (2 ^ 20)]
    have hle := hlh _ _ _ _ hca
    refine ⟨e', block, proof, hca, ?_, fun cipher n => ?_⟩
    · rw [plainDelivers_iff]
      unfold MAX_FRAME_BYTES
      omega
    · rw [noiseDelivers_iff]
      unfold MAX_NOISE_MESSAGE
      omega
  · obtain ⟨e', block, proof, hca⟩ := stagedLeader_proposes [largeTx (2 ^ 16)]
    have hle := hlh _ _ _ _ hca
    refine ⟨e', block, proof, hca, fun cipher n => ?_⟩
    rw [noiseDelivers_iff]
    unfold MAX_NOISE_MESSAGE
    omega

end Aii.Net
