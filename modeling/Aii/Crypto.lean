/-
Aii.Crypto — protocol primitive types and the cryptographic parameters.

Hashes, addresses, keys and signatures are fixed-length byte arrays, as in
`aii-types`.
-/
import Aii.Common.Bytes
import Aii.Common.Machine
import Mathlib.Data.Nat.ModEq

namespace Aii

open Common

abbrev H256 := Arr 32
abbrev Address := Arr 20
abbrev BlsPubKey := Arr 48
abbrev BlsSecretKey := Arr 32
abbrev BlsSignature := Arr 96
abbrev VrfPubKey := Arr 32
abbrev VrfSecretKey := Arr 64

/-- 96-byte wire-form VRF proof: `pre_output (32) ‖ proof (64)`. -/
structure VrfProof where
  preOutput : Arr 32
  proof : Arr 64
  deriving DecidableEq

/-- The library calls made by `aii-crypto`. -/
structure Crypto where
  /-- Keccak-256. -/
  keccak256 : Bytes → H256
  /-- `BlstSecretKey::sk_to_pk`. -/
  blsPublicKey : BlsSecretKey → BlsPubKey
  /-- `BlstSecretKey::sign`. -/
  blsSign : BlsSecretKey → Bytes → BlsSignature
  /-- Does a compressed G2 point decode? (`BlstSignature::from_bytes`) -/
  blsSignatureOk : BlsSignature → Bool
  /-- Does a compressed G1 point decode? (`BlstPubKey::from_bytes`) -/
  blsPubkeyOk : BlsPubKey → Bool
  /-- `BlstSignature::verify`. -/
  blsVerify : BlsSignature → Bytes → BlsPubKey → Bool
  /-- `AggregateSignature::aggregate` on a nonempty list of signatures. -/
  blsAggregate : List BlsSignature → BlsSignature
  /-- `BlstSignature::fast_aggregate_verify` on a nonempty list of keys. -/
  blsFastAggregateVerify : BlsSignature → Bytes → List BlsPubKey → Bool
  /-- Does a VRF public key decode? (`SrPublicKey::from_bytes`) -/
  vrfPubkeyOk : VrfPubKey → Bool
  /-- `vrf::prove`. -/
  vrfProve : VrfSecretKey → Bytes → VrfProof × Arr 32
  /-- `vrf::verify`: the re-derived randomness, if the proof holds. -/
  vrfVerify : VrfPubKey → Bytes → VrfProof → Option (Arr 32)
  /-- `secp::recover`: the uncompressed key (without its tag byte). -/
  secpRecover : Arr 65 → H256 → Option (Arr 64)

variable (c : Crypto) {n : Nat} {post pre : Bytes} {x y : Arr n}

/-- `bls::aggregate_signatures`; the empty list is an error. -/
def Crypto.aggregateSignatures (sigs : List BlsSignature) : Option BlsSignature :=
  if sigs.isEmpty then none else some (c.blsAggregate sigs)

/-- `bls::fast_aggregate_verify`; the empty list is an error. -/
def Crypto.fastAggregateVerify (sig : BlsSignature) (msg : Bytes) (pks : List BlsPubKey) : Bool :=
  !pks.isEmpty && c.blsFastAggregateVerify sig msg pks

/-- `Address::from_pubkey_hash` of the hash of an uncompressed key. -/
def Crypto.addressOf (key : Arr 64) : Address :=
  ⟨(c.keccak256 key.toList).toList.drop 12, by simp⟩

/-- A number as an array of `n` big-endian bytes. -/
def arrOfNat (n x : Nat) : Arr n := ⟨toBe n x, toBe_length n x⟩

/-- Polynomial hash: the input, with a leading one, as a number modulo
the prime `2 ^ 256 - 189`. -/
def referenceHash (bs : Bytes) : H256 :=
  arrOfNat 32 (ofBe (1 :: bs) % (2 ^ 256 - 189))

lemma referenceHash_toList (bs : Bytes) :
    (referenceHash bs).toList = toBe 32 (ofBe (1 :: bs) % (2 ^ 256 - 189)) := rfl

lemma ofBe_middle_mod_inj {m : Nat} (hc : Nat.Coprime m 256) (hb : 256 ^ n ≤ m)
    (h : ofBe (pre ++ x.toList ++ post) ≡ ofBe (pre ++ y.toList ++ post) [MOD m]) : x = y := by
  have hsi : ∀ z : Arr n, ofBe (pre ++ z.toList ++ post) =
      ofBe pre * 256 ^ n * 256 ^ post.length + ofBe z.toList * 256 ^ post.length
        + ofBe post := by
    intro z
    rw [ofBe_append, ofBe_append, length_toList]
    ring
  have hlt : ∀ z : Arr n, ofBe z.toList < m := by
    intro z
    have hz := ofBe_lt z.toList
    rw [length_toList] at hz
    exact lt_of_lt_of_le hz hb
  rw [hsi, hsi] at h
  have hs := Nat.ModEq.add_left_cancel' _ (Nat.ModEq.add_right_cancel' _ h)
  have hv := Nat.ModEq.cancel_right_of_coprime (Nat.Coprime.pow_right _ hc) hs
  apply toList_inj.mp
  rw [← toBe_ofBe x.toList, ← toBe_ofBe y.toList, hv.eq_of_lt_of_lt (hlt x) (hlt y),
    length_toList, length_toList]

lemma referenceHash_middle_inj (hn : n ≤ 31)
    (h : referenceHash (pre ++ x.toList ++ post) = referenceHash (pre ++ y.toList ++ post)) :
    x = y := by
  have hb : 256 ^ n ≤ 2 ^ 256 - 189 := (Nat.pow_le_pow_right (by decide) hn).trans (by decide)
  have hm : ∀ a, a % (2 ^ 256 - 189) < 256 ^ 32 := fun a =>
    (Nat.mod_lt a (by decide)).trans (by decide)
  have hbt := congrArg List.Vector.toList h
  rw [referenceHash_toList, referenceHash_toList] at hbt
  have heq := toBe_inj (hm _) (hm _) hbt
  rw [← List.cons_append, ← List.cons_append, ← List.cons_append, ← List.cons_append] at heq
  exact ofBe_middle_mod_inj (by decide) hb heq

/-- The second half of a reference signature: the message, with the top
bit set in the place of the compression flag. -/
def flagged (msg : Bytes) : Nat := 2 ^ 383 + ofBe msg % 2 ^ 383

lemma flagged_lt (msg : Bytes) : flagged msg < 2 ^ 384 := by
  have hm := Nat.mod_lt (ofBe msg) (Nat.two_pow_pos 383)
  rw [flagged]
  omega

/-- The reference signature of `msg` under the (possibly aggregated) key
number `k`: the key, then the message. -/
def referenceSig (k : Nat) (msg : Bytes) : BlsSignature :=
  arrOfNat 96 ((k % 2 ^ 384) * 2 ^ 384 + flagged msg)

def referenceSigKey (s : BlsSignature) : Nat := ofBe s.toList / 2 ^ 384

def referenceSigMsg (s : BlsSignature) : Nat := ofBe s.toList % 2 ^ 384

lemma referenceSig_ofBe (k : Nat) (msg : Bytes) :
    ofBe (referenceSig k msg).toList = (k % 2 ^ 384) * 2 ^ 384 + flagged msg := by
  have hk : k % 2 ^ 384 < 2 ^ 384 := Nat.mod_lt _ (Nat.two_pow_pos 384)
  have hm := flagged_lt msg
  have hlt : (k % 2 ^ 384) * 2 ^ 384 + flagged msg < 256 ^ 96 := by omega
  exact ofBe_toBe_of_lt hlt

lemma referenceSigKey_sig (k : Nat) (msg : Bytes) :
    referenceSigKey (referenceSig k msg) = k % 2 ^ 384 := by
  rw [referenceSigKey, referenceSig_ofBe, Nat.mul_comm, Nat.mul_add_div (Nat.two_pow_pos 384),
    Nat.div_eq_of_lt (flagged_lt msg), Nat.add_zero]

lemma referenceSigMsg_sig (k : Nat) (msg : Bytes) :
    referenceSigMsg (referenceSig k msg) = flagged msg := by
  rw [referenceSigMsg, referenceSig_ofBe, Nat.mul_add_mod_self_right,
    Nat.mod_eq_of_lt (flagged_lt msg)]

/-- An executable instance: a signature is the signer's key next to the
message, bytes without the flag are no signature, an aggregate adds the
keys, a VRF output is a hash of the key and the input, and a recovered key
is read off the signature. -/
def Crypto.reference : Crypto where
  keccak256 := referenceHash
  blsPublicKey sk := arrOfNat 48 (ofBe sk.toList)
  blsSign sk msg := referenceSig (ofBe sk.toList) msg
  blsSignatureOk s := decide (2 ^ 383 ≤ referenceSigMsg s)
  blsPubkeyOk _ := true
  blsVerify s msg pk := s == referenceSig (ofBe pk.toList) msg
  blsAggregate sigs :=
    arrOfNat 96 (((sigs.map referenceSigKey).sum % 2 ^ 384) * 2 ^ 384
      + (sigs.map referenceSigMsg).headD 0)
  blsFastAggregateVerify s msg pks :=
    s == referenceSig ((pks.map fun pk => ofBe pk.toList).sum) msg
  vrfPubkeyOk _ := true
  vrfProve sk input :=
    let pk : Arr 32 := ⟨sk.toList.take 32, by simp⟩
    (⟨pk, Arr.zero 64⟩, referenceHash (pk.toList ++ input))
  vrfVerify pk input p :=
    if p = ⟨pk, Arr.zero 64⟩ then some (referenceHash (pk.toList ++ input)) else none
  secpRecover sig _ := some ⟨sig.toList.take 64, by simp⟩

end Aii
