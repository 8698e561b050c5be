/-
Aii.Chain.SigningScope — what a transaction signature covers
(`aii-block/src/tx/signer.rs`).

A `Signable` is one of the three forms that are hashed for signing,
`Content` what it covers.
-/
import Aii.Chain.RoundTrip

namespace Aii.Chain

open Common Common.Rlp List TxLegacy TxEip1559

/-- `legacy_signing_hash_pre155`, before hashing. -/
def legacySigningPre155 (t : TxLegacy) : Bytes :=
  encodeHeader true (u64Length t.nonce + u256Length t.gasPrice + u64Length t.gasLimit +
      encodedToLength t.toAddr + u256Length t.value + stringLength t.data) ++
    (encodeU64 t.nonce ++ encodeU256 t.gasPrice ++ encodeU64 t.gasLimit ++ encodeTo t.toAddr ++
      encodeU256 t.value ++ encodeString t.data)

/-- `legacy_signing_hash_eip155`, before hashing. -/
def legacySigningEip155 (t : TxLegacy) (chainId : UInt64) : Bytes :=
  encodeHeader true (u64Length t.nonce + u256Length t.gasPrice + u64Length t.gasLimit +
      encodedToLength t.toAddr + u256Length t.value + stringLength t.data + u64Length chainId +
      u256Length 0 + u256Length 0) ++
    (encodeU64 t.nonce ++ encodeU256 t.gasPrice ++ encodeU64 t.gasLimit ++ encodeTo t.toAddr ++
      encodeU256 t.value ++ encodeString t.data ++ encodeU64 chainId ++ encodeU256 0 ++
      encodeU256 0)

/-- `eip1559_signing_hash`, before hashing. -/
def eip1559Signing (t : TxEip1559) : Bytes :=
  0x02 :: (encodeHeader true (u64Length t.chainId + u64Length t.nonce +
      u256Length t.maxPriorityFeePerGas + u256Length t.maxFeePerGas + u64Length t.gasLimit +
      encodedToLength t.toAddr + u256Length t.value + stringLength t.data +
      listLength (accessListInner t.accessList)) ++
    (encodeU64 t.chainId ++ encodeU64 t.nonce ++ encodeU256 t.maxPriorityFeePerGas ++
      encodeU256 t.maxFeePerGas ++ encodeU64 t.gasLimit ++ encodeTo t.toAddr ++
      encodeU256 t.value ++ encodeString t.data ++
      (encodeHeader true (accessListInner t.accessList) ++
        t.accessList.flatMap AccessListItem.encode)))

lemma legacySigningPre155_eq (t : TxLegacy) : legacySigningPre155 t = encodeList t.core := by
  refine encodeHeader_append ?_
  simp only [u64Length_eq, u256Length_eq, encodedToLength_eq, stringLength_eq, length_append]

lemma legacySigningEip155_eq (t : TxLegacy) (chainId : UInt64) : legacySigningEip155 t chainId =
      encodeList (t.core ++ encodeU64 chainId ++ encodeU256 0 ++ encodeU256 0) := by
  refine encodeHeader_append ?_
  simp only [u64Length_eq, u256Length_eq, encodedToLength_eq, stringLength_eq, length_append]

lemma eip1559Signing_eq (t : TxEip1559) : eip1559Signing t = 0x02 :: encodeList t.core := by
  rw [eip1559Signing, encodeHeader_append (accessListInner_eq t.accessList),
    encodeHeader_append, TxEip1559.core]
  simp only [u64Length_eq, u256Length_eq, encodedToLength_eq, stringLength_eq, accessListInner_eq,
    listLength_eq, length_append]

/-- A transaction in the form it is signed in. -/
inductive Signable where
  | pre155 (t : TxLegacy)
  | eip155 (t : TxLegacy) (chainId : UInt64)
  | eip1559 (t : TxEip1559)

open Signable

structure LegacyContent where
  nonce : UInt64
  gasPrice : U256
  gasLimit : UInt64
  toAddr : Option Address
  value : U256
  data : Bytes

structure DynamicContent where
  chainId : UInt64
  nonce : UInt64
  maxPriorityFeePerGas : U256
  maxFeePerGas : U256
  gasLimit : UInt64
  toAddr : Option Address
  value : U256
  data : Bytes
  accessList : List AccessListItem

/-- What is signed: a form and its fields. -/
inductive Content where
  | pre155 (content : LegacyContent)
  | eip155 (content : LegacyContent) (chainId : UInt64)
  | eip1559 (content : DynamicContent)

def TxLegacy.content (t : TxLegacy) : LegacyContent :=
  ⟨t.nonce, t.gasPrice, t.gasLimit, t.toAddr, t.value, t.data⟩

def TxEip1559.content (t : TxEip1559) : DynamicContent :=
  ⟨t.chainId, t.nonce, t.maxPriorityFeePerGas, t.maxFeePerGas, t.gasLimit, t.toAddr, t.value,
    t.data, t.accessList⟩

namespace Signable

def content : Signable → Content
  | .pre155 t => .pre155 t.content
  | .eip155 t chainId => .eip155 t.content chainId
  | .eip1559 t => .eip1559 t.content

def preimage : Signable → Bytes
  | .pre155 t => legacySigningPre155 t
  | .eip155 t chainId => legacySigningEip155 t chainId
  | .eip1559 t => eip1559Signing t

def signingHash (c : Crypto) (x : Signable) : H256 := c.keccak256 x.preimage

end Signable

lemma TxLegacy.core_append_inj {t t' : TxLegacy} {x y : Bytes} (ht : t.core.length < 2 ^ 64)
    (ht' : t'.core.length < 2 ^ 64)
    (h : t.core ++ x = t'.core ++ y) : t.content = t'.content ∧ x = y := by
  have hdt := length_le_encodeString t.data
  have hdt' := length_le_encodeString t'.data
  simp [core] at ht ht'
  simp [core] at h
  obtain ⟨hnc, h⟩ := encodeU64_append_inj h
  obtain ⟨hp, h⟩ := encodeU256_append_inj h
  obtain ⟨hlm, h⟩ := encodeU64_append_inj h
  obtain ⟨hto, h⟩ := encodeTo_append_inj h
  obtain ⟨hvl, h⟩ := encodeU256_append_inj h
  obtain ⟨hdt, h⟩ := encodeString_append_inj (by omega) (by omega) h
  refine ⟨?_, h⟩
  simp [content, hnc, hp, hlm, hto, hvl, hdt]

lemma TxEip1559.core_inj {t t' : TxEip1559} (ht : t.core.length < 2 ^ 64)
    (ht' : t'.core.length < 2 ^ 64) (h : t.core = t'.core) : t.content = t'.content := by
  have hdt := length_le_encodeString t.data
  have hdt' := length_le_encodeString t'.data
  simp [core] at ht ht'
  rw [← append_nil t.core, ← append_nil t'.core] at h
  simp only [core, append_assoc] at h
  obtain ⟨hcn, h⟩ := encodeU64_append_inj h
  obtain ⟨hnc, h⟩ := encodeU64_append_inj h
  obtain ⟨htp, h⟩ := encodeU256_append_inj h
  obtain ⟨hf, h⟩ := encodeU256_append_inj h
  obtain ⟨hlm, h⟩ := encodeU64_append_inj h
  obtain ⟨hto, h⟩ := encodeTo_append_inj h
  obtain ⟨hvl, h⟩ := encodeU256_append_inj h
  obtain ⟨hdt, h⟩ := encodeString_append_inj (by omega) (by omega) h
  have hread := fun l hl => decodeVec_encodeList (accessList_readsBack (l := l) (payload_lt hl))
    (payload_lt hl)
  obtain ⟨ha, -⟩ := append_inj_of_read (hread t.accessList (by omega) _)
    (hread t'.accessList (by omega) _) h
  simp [content, hcn, hnc, htp, hf, hlm, hto, hvl, hdt, ha]

lemma TxLegacy.core_congr {t t' : TxLegacy} (h : t.content = t'.content) : t.core = t'.core := by
  simp [content, LegacyContent.mk.injEq] at h
  obtain ⟨hnc, hp, hlm, hto, hvl, hdt⟩ := h
  simp [core, hnc, hp, hlm, hto, hvl, hdt]

lemma TxEip1559.core_congr {t t' : TxEip1559} (h : t.content = t'.content) :
    t.core = t'.core := by
  simp [content, DynamicContent.mk.injEq] at h
  obtain ⟨hcn, hnc, ht, hf, hlm, hto, hvl, hdt, ha⟩ := h
  simp [core, hcn, hnc, ht, hf, hlm, hto, hvl, hdt, ha]

lemma encodeU64_ne_nil (x : UInt64) : encodeU64 x ≠ [] := (encodeU64_readsBack x).ne_nil

lemma typed_ne_encodeList {p q : Bytes} : 0x02 :: p ≠ encodeList q := by
  intro h
  obtain ⟨b, rest, hhd, hb⟩ := encodeList_head q
  rw [hhd] at h
  obtain ⟨rfl, -⟩ := List.cons.inj h
  exact absurd hb (by decide)

namespace Signable

lemma pre155_ne_eip155 {t t' : TxLegacy} {chainId : UInt64}
    (ht : (preimage (.pre155 t)).length < 2 ^ 64)
    (ht' : (preimage (.eip155 t' chainId)).length < 2 ^ 64) :
    preimage (.pre155 t) ≠ preimage (.eip155 t' chainId) := by
  intro h
  simp only [preimage, legacySigningPre155_eq, legacySigningEip155_eq] at ht ht' h
  have hcor := payload_lt ht
  have hcor' := payload_lt ht'
  have hpy := encodeList_inj h
  simp at hcor'
  rw [← append_nil t.core, append_assoc, append_assoc] at hpy
  obtain ⟨-, hrs⟩ := core_append_inj hcor (by omega) hpy
  exact encodeU64_ne_nil chainId (append_eq_nil_iff.mp hrs.symm).1

/-- **Two preimages are equal exactly if form and fields are.** -/
lemma preimage_eq_iff {a b : Signable} (ha : a.preimage.length < 2 ^ 64)
    (hb : b.preimage.length < 2 ^ 64) : a.preimage = b.preimage ↔ a.content = b.content := by
  cases a with
  | pre155 =>
    cases b with
    | pre155 =>
      simp [preimage, content, legacySigningPre155_eq, Content.pre155.injEq] at ha hb ⊢
      refine ⟨fun h => ?_, fun h => by rw [core_congr h]⟩
      have hpy := congrArg (· ++ ([] : Bytes)) (encodeList_inj h)
      exact (core_append_inj (payload_lt ha) (payload_lt hb) hpy).1
    | eip155 =>
      exact ⟨fun h => absurd h (pre155_ne_eip155 ha hb), nofun⟩
    | eip1559 =>
      simp only [preimage, content, legacySigningPre155_eq, eip1559Signing_eq]
      exact ⟨fun h => absurd h.symm typed_ne_encodeList, nofun⟩
  | eip155 =>
    cases b with
    | pre155 =>
      exact ⟨fun h => absurd h.symm (pre155_ne_eip155 hb ha), nofun⟩
    | eip155 =>
      simp only [preimage, content, legacySigningEip155_eq, Content.eip155.injEq] at ha hb ⊢
      have hcor := payload_lt ha
      have hcor' := payload_lt hb
      simp at hcor hcor'
      constructor
      · intro h
        have hpy := encodeList_inj h
        simp at hpy
        obtain ⟨hc, hrs⟩ := core_append_inj (by omega) (by omega) hpy
        exact ⟨hc, (encodeU64_append_inj hrs).1⟩
      · rintro ⟨hc, rfl⟩
        rw [core_congr hc]
    | eip1559 =>
      simp only [preimage, content, legacySigningEip155_eq, eip1559Signing_eq]
      exact ⟨fun h => absurd h.symm typed_ne_encodeList, nofun⟩
  | eip1559 =>
    cases b with
    | pre155 | eip155 =>
      simp only [preimage, content, legacySigningPre155_eq, legacySigningEip155_eq,
        eip1559Signing_eq]
      exact ⟨fun h => absurd h typed_ne_encodeList, nofun⟩
    | eip1559 =>
      simp only [preimage, content, eip1559Signing_eq, Content.eip1559.injEq, length_cons,
        List.cons.injEq, true_and] at ha hb ⊢
      refine ⟨fun h => ?_, fun h => by rw [core_congr h]⟩
      exact core_inj (payload_lt (by omega)) (payload_lt (by omega)) (encodeList_inj h)

end Signable

structure TxSignature where
  signed : Signable
  recid : UInt8
  r : H256
  s : H256

/-- The signature a transaction carries, as `recover_legacy` and
`recover_eip1559` take it: the form depends on `v` and the chain id. -/
def Tx.signature (t : Tx) (chainId : UInt64) : Option TxSignature :=
  match t with
  | .legacy t =>
    if t.algoId ≠ .secp256k1 then none
    else if t.v = 27 ∨ t.v = 28 then
      some ⟨.pre155 t, UInt8.ofNat (t.v.toNat - 27), t.r, t.s⟩
    else if 35 ≤ t.v then
      let base := 2 * chainId.toNat + 35
      if 2 ^ 64 ≤ base ∨ t.v.toNat < base ∨ 1 < t.v.toNat - base then none
      else some ⟨.eip155 t chainId, UInt8.ofNat (t.v.toNat - base), t.r, t.s⟩
    else none
  | .eip1559 t =>
    if t.algoId ≠ .secp256k1 then none
    else if 1 < t.v then none
    else some ⟨.eip1559 t, t.v, t.r, t.s⟩
  | .eip4844 _ => none

lemma Tx.recoverSigner_eq (c : Crypto) (t : Tx) (chainId : UInt64) :
    t.recoverSigner c chainId = (t.signature chainId).bind fun sig =>
      recoverFromRs c sig.recid sig.r sig.s (sig.signed.signingHash c) := by
  cases t with
  | legacy =>
    simp only [Tx.recoverSigner, TxLegacy.recover, Tx.signature]
    split_ifs
    · rfl
    · simp [Option.bind_some, signingHash, preimage, legacySigningPre155_eq]
    · rfl
    · simp [Option.bind_some, signingHash, preimage, legacySigningEip155_eq]
    · rfl
  | eip1559 =>
    simp only [Tx.recoverSigner, TxEip1559.recover, Tx.signature]
    split_ifs
    · rfl
    · rfl
    · simp [signingHash, preimage, eip1559Signing_eq]
  | eip4844 => rfl

/-- **A signature authorises one content of one form.** -/
theorem signature_scope :
    (∀ a b : Signable, a.preimage.length < 2 ^ 64 → b.preimage.length < 2 ^ 64 →
      (a.preimage = b.preimage ↔ a.content = b.content)) ∧
    (∀ (c : Crypto) (t : Tx) (chainId : UInt64),
      t.recoverSigner c chainId = (t.signature chainId).bind fun sig =>
        recoverFromRs c sig.recid sig.r sig.s (sig.signed.signingHash c)) ∧
    (∀ (c : Crypto) (a b : Signable), a.preimage.length < 2 ^ 64 → b.preimage.length < 2 ^ 64 →
      (c.keccak256 a.preimage = c.keccak256 b.preimage → a.preimage = b.preimage) →
      a.signingHash c = b.signingHash c → a.content = b.content) := by
  refine ⟨fun a b ha hb => preimage_eq_iff ha hb, Tx.recoverSigner_eq, ?_⟩
  intro c a b ha hb hc hhs
  exact (preimage_eq_iff ha hb).mp (hc hhs)

end Aii.Chain
