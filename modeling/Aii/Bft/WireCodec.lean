/-
Aii.Bft.WireCodec — the wire codec is a bijection.

`BftMessage.decode` accepts exactly the encodings of the messages of the
wire (`wire_decode_iff`).
-/
import Aii.Bft.Wire

namespace Aii.Bft

open Common List BftMessage

/-! ## Slices -/

variable {bs : Bytes} {n off : Nat} {a b : Bytes}

lemma slice_length (h : off + n ≤ bs.length) : (slice bs off n).length = n := by
  simp only [slice, length_take, length_drop]
  omega

@[simp] lemma slice_cons {b : UInt8} (h : 0 < off) :
    slice (b :: bs) off n = slice bs (off - 1) n := by
  obtain ⟨k, rfl⟩ := Nat.exists_eq_succ_of_ne_zero h.ne'
  rfl

@[simp] lemma slice_append_right (h : a.length ≤ off) :
    slice (a ++ b) off n = slice b (off - a.length) n := by
  rw [slice, slice, drop_append, drop_eq_nil_of_le h, nil_append]

@[simp] lemma slice_append_left (h : a.length = n) : slice (a ++ b) 0 n = a := by
  rw [slice, drop_zero, take_left' h]

@[simp] lemma slice_all (h : bs.length = n) : slice bs 0 n = bs := by
  rw [slice, drop_zero, ← h, take_length]

lemma slice_append_slice (bs : Bytes) (off n m : Nat) :
    slice bs off n ++ slice bs (off + n) m = slice bs off (n + m) := by
  rw [slice, slice, slice, take_add, drop_drop]

lemma sliceArr_eq {a : Arr n} (h : slice bs off n = a.toList) : sliceArr n bs off = a := by
  rw [sliceArr, h, arr?_toList, Option.getD_some]

lemma toList_sliceArr (h : off + n ≤ bs.length) :
    (sliceArr n bs off).toList = slice bs off n := by
  rw [sliceArr, arr?, dif_pos (slice_length h)]
  rfl

namespace BftMessage

def WithinCaps : BftMessage → Prop
  | .proposal p => p.bodyBytes.length ≤ MAX_PROPOSAL_BODY_LEN
  | .blockResponse blockBytes _ => blockBytes.length ≤ MAX_BLOCK_RESPONSE_LEN
  | _ => True

/-- The signature is a curve point. `bls::Signature` has no other values;
here a signature is its compressed bytes. -/
def Parsed (c : Crypto) : BftMessage → Prop
  | .prevote v | .precommit v => c.blsSignatureOk v.blsSig = true
  | .blockResponse _ cert => c.blsSignatureOk cert.aggregatedSig = true
  | _ => True

end BftMessage

lemma encodeVote_length (v : Vote) : (encodeVote v).length = 144 := by
  simp [encodeVote]

lemma encodeCertificate_length (cert : PrecommitCertificate) :
    (encodeCertificate cert).length = BLOCK_CERT_LEN := by
  simp [encodeCertificate, BLOCK_CERT_LEN]

@[simp] lemma lenBe4_length (bs : Bytes) : (lenBe4 bs).length = 4 := toBe_length 4 _

lemma ofBe_lenBe4 (h : bs.length < 2 ^ 32) : ofBe (lenBe4 bs) = bs.length := by
  rw [lenBe4, Nat.min_eq_left (by omega), ofBe_toBe_of_lt h]

lemma lenBe4_of_slice {field : Bytes} (h : bs.length = 4) (hl : field.length = ofBe bs) :
    lenBe4 field = bs := by
  have hlt := ofBe_lt bs
  rw [h] at hlt
  rw [lenBe4, hl, Nat.min_eq_left (by omega), ← h, toBe_ofBe]

lemma BftMessage.encode_length (m : BftMessage) : m.encode.length = m.encodedLen := by
  cases m with
  | proposal =>
    simp [encode, encodedLen, PROPOSAL_MIN_LEN, PROPOSAL_HEADER_LEN]
    omega
  | prevote v | precommit v =>
    simp [encode, encodedLen, encodeVote_length, VOTE_LEN]
  | blockRequest => simp [encode, encodedLen, BLOCK_REQUEST_LEN]
  | blockResponse =>
    simp [encode, encodedLen, encodeCertificate_length, BLOCK_RESPONSE_HEADER_LEN]
    omega

section Read

variable {c : Crypto} {m : BftMessage} {rest : Bytes} {cert : PrecommitCertificate} {v : Vote}
  {tag : UInt8} {bytes : Bytes}

lemma decodeProposal_encode {p : Proposal} (h : p.bodyBytes.length ≤ MAX_PROPOSAL_BODY_LEN) :
    decodeProposal (proposal p).encode = .ok (.proposal p) := by
  have hl : (proposal p).encode.length = PROPOSAL_MIN_LEN + p.bodyBytes.length := encode_length _
  have hc : p.bodyBytes.length < 2 ^ 32 := by
    unfold MAX_PROPOSAL_BODY_LEN at h
    omega
  generalize hbt : (proposal p).encode = bytes at hl ⊢
  simp only [encode, append_assoc] at hbt
  have hhg : slice bytes 1 8 = u64Be p.height := by
    simp [← hbt]
  have hrn : slice bytes 9 4 = u32Be p.round := by
    simp [← hbt]
  have hhs : sliceArr 32 bytes 13 = p.blockHash := sliceArr_eq <| by
    simp [← hbt]
  have hp : sliceArr 32 bytes 45 = p.leaderProof.vrfProof.preOutput := sliceArr_eq <| by
    simp [← hbt]
  have hpr : sliceArr 64 bytes 77 = p.leaderProof.vrfProof.proof := sliceArr_eq <| by
    simp [← hbt]
  have ho : sliceArr 32 bytes 141 = p.leaderProof.vrfOutput := sliceArr_eq <| by
    simp [← hbt]
  have hco : sliceArr 20 bytes 173 = p.coinbase := sliceArr_eq <| by
    simp [← hbt]
  have hb : slice bytes PROPOSAL_HEADER_LEN 4 = lenBe4 p.bodyBytes := by
    simp [← hbt, PROPOSAL_HEADER_LEN]
  have hby : slice bytes PROPOSAL_MIN_LEN p.bodyBytes.length = p.bodyBytes := by
    simp [← hbt, PROPOSAL_MIN_LEN, PROPOSAL_HEADER_LEN]
  rw [decodeProposal, hb, ofBe_lenBe4 hc, if_neg (by omega), if_neg (by omega), if_neg (by omega),
    hhg, hrn, hhs, hp, hpr, ho, hco, hby, u64OfBe_u64Be, u32OfBe_u32Be]

lemma decodeVote_encode (tag : UInt8) (h : c.blsSignatureOk v.blsSig = true) :
    decodeVote c (tag :: encodeVote v) = .ok v := by
  generalize hbt : tag :: encodeVote v = bytes
  have hl : bytes.length = VOTE_LEN := by
    simp [← hbt, encodeVote_length, VOTE_LEN]
  simp only [encodeVote, append_assoc] at hbt
  have hhs : sliceArr 32 bytes 1 = v.blockHash := sliceArr_eq <| by
    simp [← hbt]
  have hhg : slice bytes 33 8 = u64Be v.height := by
    simp [← hbt]
  have hrn : slice bytes 41 4 = u32Be v.round := by
    simp [← hbt]
  have hie : slice bytes 45 4 = u32Be v.validatorIndex := by
    simp [← hbt]
  have hs : sliceArr 96 bytes 49 = v.blsSig := sliceArr_eq <| by
    simp [← hbt]
  rw [decodeVote, if_neg (not_not.mpr hl), hs, if_pos h, hhs, hhg, hrn, hie, u64OfBe_u64Be,
    u32OfBe_u32Be, u32OfBe_u32Be]

lemma decodeCertificate_encode (h : c.blsSignatureOk cert.aggregatedSig = true) :
    decodeCertificate c (encodeCertificate cert) = .ok cert := by
  have hl := encodeCertificate_length cert
  generalize hbt : encodeCertificate cert = bytes at hl ⊢
  simp only [encodeCertificate, append_assoc] at hbt
  have hhs : sliceArr 32 bytes 0 = cert.blockHash := sliceArr_eq <| by
    simp [← hbt]
  have hhg : slice bytes 32 8 = u64Be cert.height := by
    simp [← hbt]
  have hrn : slice bytes 40 4 = u32Be cert.round := by
    simp [← hbt]
  have hb : slice bytes 44 16 = toBe 16 cert.signerBitmap.toNat := by
    simp [← hbt]
  have hs : sliceArr 96 bytes 60 = cert.aggregatedSig := sliceArr_eq <| by
    simp [← hbt]
  rw [decodeCertificate, if_neg (not_not.mpr hl), hs, if_pos h, hhs, hhg, hrn, hb, u64OfBe_u64Be,
    u32OfBe_u32Be, ofBe_toBe_of_lt cert.signerBitmap.isLt, BitVec.ofNat_toNat, BitVec.setWidth_eq]

lemma decodeBlockResponse_encode {blockBytes : Bytes}
    (hc : blockBytes.length ≤ MAX_BLOCK_RESPONSE_LEN)
    (h : c.blsSignatureOk cert.aggregatedSig = true) :
    decodeBlockResponse c (blockResponse blockBytes cert).encode =
      .ok (.blockResponse blockBytes cert) := by
  have hl : (blockResponse blockBytes cert).encode.length =
      BLOCK_RESPONSE_HEADER_LEN + blockBytes.length + BLOCK_CERT_LEN := encode_length _
  have hlt : blockBytes.length < 2 ^ 32 := by
    unfold MAX_BLOCK_RESPONSE_LEN MAX_PROPOSAL_BODY_LEN at hc
    omega
  generalize hbt : (blockResponse blockBytes cert).encode = bytes at hl ⊢
  simp only [encode, append_assoc] at hbt
  have hb : slice bytes 1 4 = lenBe4 blockBytes := by
    simp [← hbt]
  have hbl : slice bytes BLOCK_RESPONSE_HEADER_LEN blockBytes.length = blockBytes := by
    simp [← hbt, BLOCK_RESPONSE_HEADER_LEN]
  have hcr : bytes.drop (BLOCK_RESPONSE_HEADER_LEN + blockBytes.length) =
      encodeCertificate cert := by
    rw [← hbt, ← append_assoc, ← cons_append]
    exact drop_left' (by simp [BLOCK_RESPONSE_HEADER_LEN]; omega)
  have hm : BLOCK_RESPONSE_MIN_LEN ≤ bytes.length := by
    rw [hl, BLOCK_RESPONSE_MIN_LEN]
    omega
  rw [decodeBlockResponse, hb, ofBe_lenBe4 hlt, if_neg (by omega), if_neg (by omega),
    if_neg (not_not.mpr hl), hcr, decodeCertificate_encode h, hbl]

lemma BftMessage.decode_encode (hc : m.WithinCaps) (hs : m.Parsed c) :
    decode c m.encode = .ok m := by
  cases m with
  | proposal p =>
    have hp := decodeProposal_encode hc
    simp only [encode] at hp ⊢
    rwa [decode, if_pos rfl]
  | prevote v =>
    show (decodeVote c (TAG_PREVOTE :: encodeVote v)).map prevote = _
    rw [decodeVote_encode TAG_PREVOTE hs]
    rfl
  | precommit v =>
    show (decodeVote c (TAG_PRECOMMIT :: encodeVote v)).map precommit = _
    rw [decodeVote_encode TAG_PRECOMMIT hs]
    rfl
  | blockRequest height =>
    show decodeBlockRequest (TAG_BLOCK_REQUEST :: u64Be height) = _
    rw [decodeBlockRequest, if_neg (by simp [BLOCK_REQUEST_LEN]), slice_cons (by decide),
      slice_all (by simp), u64OfBe_u64Be]
  | blockResponse blockBytes cert =>
    show decodeBlockResponse c (blockResponse blockBytes cert).encode = _
    exact decodeBlockResponse_encode hc hs

/-! ## Writing what was read -/

lemma cons_slice {n : Nat} (h : rest.length = n) :
    tag :: slice (tag :: rest) 1 n = tag :: rest := by
  rw [slice_cons (by decide), Nat.sub_self, slice_all h]

lemma encode_of_decodeProposal (h : decodeProposal (TAG_PROPOSAL :: rest) = .ok m) :
    m.WithinCaps ∧ m.Parsed c ∧ m.encode = TAG_PROPOSAL :: rest := by
  have hrs : ∀ n, (TAG_PROPOSAL :: rest).length = PROPOSAL_MIN_LEN + n →
      rest.length = PROPOSAL_MIN_LEN - 1 + n := by
    intro n hn
    rw [length_cons] at hn
    unfold PROPOSAL_MIN_LEN at hn ⊢
    omega
  have hg : ∀ n, rest.length = PROPOSAL_MIN_LEN - 1 + n →
      TAG_PROPOSAL :: slice (TAG_PROPOSAL :: rest) 1 (PROPOSAL_MIN_LEN - 1 + n) =
        TAG_PROPOSAL :: rest := fun _ => cons_slice
  generalize TAG_PROPOSAL :: rest = bytes at h hrs hg ⊢
  unfold decodeProposal at h
  dsimp only at h
  generalize hn : ofBe (slice bytes PROPOSAL_HEADER_LEN 4) = n at h
  split_ifs at h with hm hc hl
  cases h
  rw [not_not] at hl
  have hfd : ∀ {off n}, off + n ≤ PROPOSAL_MIN_LEN → off + n ≤ bytes.length :=
    fun hle => hle.trans (not_lt.mp hm)
  have hby : (slice bytes PROPOSAL_MIN_LEN n).length = n := slice_length hl.ge
  refine ⟨?_, trivial, ?_⟩
  · exact hby.le.trans (not_lt.mp hc)
  · have hln : lenBe4 (slice bytes PROPOSAL_MIN_LEN n) = slice bytes PROPOSAL_HEADER_LEN 4 :=
      lenBe4_of_slice (slice_length (hfd (by decide))) (hby.trans hn.symm)
    simp (disch := first | exact hfd (by decide) | exact slice_length (hfd (by decide))) only
      [encode, hln, u64Be_u64OfBe, u32Be_u32OfBe, toList_sliceArr]
    -- nine neighbouring slices, from the byte after the tag to the end
    rw [show PROPOSAL_HEADER_LEN = 193 from rfl, show PROPOSAL_MIN_LEN = 197 from rfl]
    iterate 8 rw [slice_append_slice]
    exact hg n (hrs n hl)

lemma encodeVote_of_decodeVote (h : decodeVote c (tag :: rest) = .ok v) :
    c.blsSignatureOk v.blsSig = true ∧ tag :: encodeVote v = tag :: rest := by
  have hg : rest.length = VOTE_LEN - 1 →
      tag :: slice (tag :: rest) 1 (VOTE_LEN - 1) = tag :: rest := cons_slice
  have hrs : (tag :: rest).length = VOTE_LEN → rest.length = VOTE_LEN - 1 := by grind
  generalize tag :: rest = bytes at h hg hrs ⊢
  unfold decodeVote at h
  dsimp only at h
  split_ifs at h with hl hs
  cases h
  rw [not_not] at hl
  have hfd : ∀ {off n}, off + n ≤ VOTE_LEN → off + n ≤ bytes.length := fun hle => hl ▸ hle
  refine ⟨hs, ?_⟩
  simp (disch := first | exact hfd (by decide) | exact slice_length (hfd (by decide))) only
    [encodeVote, u64Be_u64OfBe, u32Be_u32OfBe, toList_sliceArr]
  iterate 4 rw [slice_append_slice]
  exact hg (hrs hl)

lemma encodeCertificate_of_decode (h : decodeCertificate c bytes = .ok cert) :
    c.blsSignatureOk cert.aggregatedSig = true ∧ encodeCertificate cert = bytes := by
  unfold decodeCertificate at h
  dsimp only at h
  split_ifs at h with hl hs
  cases h
  rw [not_not] at hl
  have hfd : ∀ {off n}, off + n ≤ BLOCK_CERT_LEN → off + n ≤ bytes.length := fun hle => hl ▸ hle
  have hb : (slice bytes 44 16).length = 16 := slice_length (hfd (by decide))
  have hbt : toBe 16 (BitVec.ofNat 128 (ofBe (slice bytes 44 16))).toNat = slice bytes 44 16 := by
    have hlt := ofBe_lt (slice bytes 44 16)
    rw [hb] at hlt
    rw [BitVec.toNat_ofNat, Nat.mod_eq_of_lt (by omega)]
    nth_rewrite 1 [← hb]
    exact toBe_ofBe _
  refine ⟨hs, ?_⟩
  simp (disch := first | exact hfd (by decide) | exact slice_length (hfd (by decide))) only
    [encodeCertificate, hbt, u64Be_u64OfBe, u32Be_u32OfBe, toList_sliceArr]
  iterate 4 rw [slice_append_slice]
  exact slice_all hl

lemma encode_of_decodeBlockResponse
    (h : decodeBlockResponse c (TAG_BLOCK_RESPONSE :: rest) = .ok m) :
    m.WithinCaps ∧ m.Parsed c ∧ m.encode = TAG_BLOCK_RESPONSE :: rest := by
  unfold decodeBlockResponse at h
  dsimp only at h
  generalize hn : ofBe (slice (TAG_BLOCK_RESPONSE :: rest) 1 4) = n at h
  split_ifs at h with hm hc hl
  rw [not_not] at hl
  cases hcr : decodeCertificate c ((TAG_BLOCK_RESPONSE :: rest).drop
      (BLOCK_RESPONSE_HEADER_LEN + n)) with
  | error => simp [hcr] at h
  | ok =>
    simp only [hcr, Except.ok.injEq] at h
    subst h
    obtain ⟨hs, hbt⟩ := encodeCertificate_of_decode hcr
    have hbl : (slice (TAG_BLOCK_RESPONSE :: rest) BLOCK_RESPONSE_HEADER_LEN n).length = n :=
      slice_length (by omega)
    refine ⟨?_, hs, ?_⟩
    · exact hbl.le.trans (not_lt.mp hc)
    · have hln : lenBe4 (slice (TAG_BLOCK_RESPONSE :: rest) BLOCK_RESPONSE_HEADER_LEN n) =
          slice (TAG_BLOCK_RESPONSE :: rest) 1 4 := by
        refine lenBe4_of_slice (slice_length ?_) (hbl.trans hn.symm)
        rw [hl]
        unfold BLOCK_RESPONSE_HEADER_LEN
        omega
      have hdp : (TAG_BLOCK_RESPONSE :: rest).drop (5 + n) = rest.drop (4 + n) := by
        rw [show 5 + n = 4 + n + 1 by omega, drop_succ_cons]
      simp only [encode]
      rw [hln, hbt, show BLOCK_RESPONSE_HEADER_LEN = 5 from rfl, slice_append_slice, hdp,
        slice_cons (by decide), slice, Nat.sub_self, drop_zero, take_append_drop]

lemma except_map_ok {ε α β : Type} {f : α → β} {x : Except ε α} {b : β}
    (h : x.map f = .ok b) : ∃ a, x = .ok a ∧ f a = b := by
  cases x with
  | error => cases h
  | ok a => exact ⟨a, rfl, Except.ok.inj h⟩

lemma BftMessage.encode_of_decode (h : decode c bytes = .ok m) :
    m.WithinCaps ∧ m.Parsed c ∧ m.encode = bytes := by
  unfold decode at h
  cases bytes with
  | nil => cases h
  | cons _ rest =>
    dsimp only at h
    split_ifs at h with hpp hprev hp hr hrp
    · subst hpp
      exact encode_of_decodeProposal h
    · subst hprev
      obtain ⟨v, hv, rfl⟩ := except_map_ok h
      exact ⟨trivial, encodeVote_of_decodeVote hv⟩
    · subst hp
      obtain ⟨v, hv, rfl⟩ := except_map_ok h
      exact ⟨trivial, encodeVote_of_decodeVote hv⟩
    · subst hr
      unfold decodeBlockRequest at h
      split_ifs at h with hl
      cases h
      rw [not_not, length_cons] at hl
      have hrs := Nat.succ.inj hl
      refine ⟨trivial, trivial, ?_⟩
      show TAG_BLOCK_REQUEST :: u64Be (u64OfBe _) = _
      rw [u64Be_u64OfBe (slice_length (by simp [hrs])), cons_slice hrs]
    · subst hrp
      exact encode_of_decodeBlockResponse h

end Read

/-- **The wire codec.** Decoding accepts exactly the encodings of the
messages of the wire. -/
theorem wire_decode_iff (c : Crypto) : (∀ (bytes : Bytes) (m : BftMessage),
      BftMessage.decode c bytes = .ok m ↔ m.WithinCaps ∧ m.Parsed c ∧ m.encode = bytes) ∧
    ∀ m : BftMessage, m.encode.length = m.encodedLen := by
  refine ⟨fun bytes m => ⟨encode_of_decode, ?_⟩, encode_length⟩
  rintro ⟨hc, hs, rfl⟩
  exact decode_encode hc hs

end Aii.Bft
