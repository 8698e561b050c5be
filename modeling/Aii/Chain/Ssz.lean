/-
Aii.Chain.Ssz — the SSZ container of a signed transaction
(`aii-codec/src/ssz.rs`).

After the algorithm byte stand three LITTLE-ENDIAN offsets, then the parts.
-/
import Aii.Bft.WireCodec
import Aii.Chain.BlockCodec

namespace Aii.Chain

open Common List Bft

structure SignedTx where
  algoId : AlgoId
  pubkey : Bytes
  signature : Bytes
  payload : Bytes

inductive SszError where
  | invalidLength (expected actual : Nat)
  | invalidByte (b : UInt8)
  | badOffsetTable

/-- `u32::to_le_bytes`, after wrapping. -/
def u32Le (n : Nat) : Bytes := (toBe 4 n).reverse

/-- `bytes[i..j]`; `none` is a panic. -/
def slice? (bytes : Bytes) (i j : Nat) : Option Bytes :=
  if i ≤ j ∧ j ≤ bytes.length then some (slice bytes i (j - i)) else none

/-- `u32::from_le_bytes` of four bytes. -/
def readOffset (bytes : Bytes) (i : Nat) : Option Nat :=
  (slice? bytes i (i + 4)).map fun bs => ofBe bs.reverse

def encodeSignedTx (tx : SignedTx) : Bytes :=
  let off1 := 13
  let off2 := off1 + tx.pubkey.length
  let off3 := off2 + tx.signature.length
  tx.algoId.asByte ::
    (u32Le off1 ++ (u32Le off2 ++ (u32Le off3 ++ (tx.pubkey ++ (tx.signature ++ tx.payload)))))

def decodeSignedTx (bytes : Bytes) : Option (Except SszError SignedTx) :=
  if bytes.length < 13 then some (.error (.invalidLength 13 bytes.length))
  else do
    let b ← bytes.head?
    match AlgoId.fromByte b with
    | none => some (.error (.invalidByte b))
    | some algoId =>
      let off1 ← readOffset bytes 1
      let off2 ← readOffset bytes 5
      let off3 ← readOffset bytes 9
      if off1 ≠ 13 ∨ off2 < off1 ∨ off3 < off2 ∨ bytes.length < off3 then
        some (.error .badOffsetTable)
      else
        let pubkey ← slice? bytes off1 off2
        let signature ← slice? bytes off2 off3
        let payload ← slice? bytes off3 bytes.length
        some (.ok ⟨algoId, pubkey, signature, payload⟩)

lemma ofBe_u32Le {n : Nat} (h : n < 2 ^ 32) : ofBe (u32Le n).reverse = n := by
  rw [u32Le, reverse_reverse, ofBe_toBe_of_lt h]

lemma u32Le_ofBe {bs : Bytes} (h : bs.length = 4) : u32Le (ofBe bs.reverse) = bs := by
  have hbe := toBe_ofBe bs.reverse
  rw [length_reverse, h] at hbe
  rw [u32Le, hbe, reverse_reverse]

/-- An offset of the table. -/
def offset (bytes : Bytes) (i : Nat) : Nat := ofBe (slice bytes i 4).reverse

def BadTable (bytes : Bytes) : Prop :=
  offset bytes 1 ≠ 13 ∨ offset bytes 5 < offset bytes 1 ∨ offset bytes 9 < offset bytes 5 ∨
    bytes.length < offset bytes 9
deriving Decidable

variable {bytes : Bytes} {tx : SignedTx}

lemma readOffset_eq {i : Nat} (h : i + 4 ≤ bytes.length) :
    readOffset bytes i = some (offset bytes i) := by
  rw [readOffset, slice?, if_pos ⟨Nat.le_add_right i 4, h⟩, Nat.add_sub_cancel_left]
  rfl

/-- Behind the checks every slice is in range. -/
lemma decodeSignedTx_eq {b : UInt8} (hb : bytes.head? = some b) (h : 13 ≤ bytes.length) :
    decodeSignedTx bytes = match AlgoId.fromByte b with
      | none => some (.error (.invalidByte b))
      | some algoId =>
        if BadTable bytes then some (.error .badOffsetTable)
        else some (.ok ⟨algoId, slice bytes 13 (offset bytes 5 - 13),
          slice bytes (offset bytes 5) (offset bytes 9 - offset bytes 5),
          slice bytes (offset bytes 9) (bytes.length - offset bytes 9)⟩) := by
  rw [decodeSignedTx, if_neg (Nat.not_lt.mpr h), hb, readOffset_eq (by omega),
    readOffset_eq (by omega), readOffset_eq (by omega)]
  simp only [Option.bind_eq_bind, Option.bind_some]
  cases AlgoId.fromByte b with
  | none => rfl
  | some algoId =>
    by_cases hbad : BadTable bytes
    · exact (if_pos hbad).trans (if_pos hbad).symm
    · refine (if_neg hbad).trans (Eq.trans ?_ (if_neg hbad).symm)
      simp only [BadTable, not_or, not_not, Nat.not_lt] at hbad
      obtain ⟨h₁, h₅, h₉, hle⟩ := hbad
      rw [slice?, if_pos ⟨h₅, h₉.trans hle⟩, slice?, if_pos ⟨h₉, hle⟩, slice?,
        if_pos ⟨hle, Nat.le_refl _⟩, h₁]
      rfl

lemma decodeSignedTx_encodeSignedTx (h : (encodeSignedTx tx).length < 2 ^ 32) :
    decodeSignedTx (encodeSignedTx tx) = some (.ok tx) := by
  have hl : ∀ n, (u32Le n).length = 4 := fun n => by rw [u32Le, length_reverse, toBe_length]
  obtain ⟨front, hf, hcut⟩ : ∃ front : Bytes, front.length = 13 ∧
      encodeSignedTx tx = front ++ (tx.pubkey ++ (tx.signature ++ tx.payload)) :=
    ⟨_ :: (u32Le _ ++ (u32Le _ ++ u32Le _)), by simp [hl], by
      rw [cons_append, append_assoc, append_assoc]; rfl⟩
  have hlen : (encodeSignedTx tx).length =
      13 + tx.pubkey.length + tx.signature.length + tx.payload.length := by
    simp [hcut, hf, Nat.add_assoc]
  have hsl : ∀ k n, slice (encodeSignedTx tx) (13 + k) n =
      slice (tx.pubkey ++ (tx.signature ++ tx.payload)) k n := fun k n => by
    rw [hcut, slice_append_right (by omega), hf, Nat.add_sub_cancel_left]
  have h₁ : offset (encodeSignedTx tx) 1 = 13 := by
    simp [offset, encodeSignedTx, hl, ofBe_u32Le]
  have h₅ : offset (encodeSignedTx tx) 5 = 13 + tx.pubkey.length := by
    simp [offset, encodeSignedTx, hl, ofBe_u32Le (show 13 + tx.pubkey.length < 2 ^ 32 by omega)]
  have h₉ : offset (encodeSignedTx tx) 9 = 13 + (tx.pubkey.length + tx.signature.length) := by
    simp [offset, encodeSignedTx, hl, ← Nat.add_assoc,
      ofBe_u32Le (show 13 + tx.pubkey.length + tx.signature.length < 2 ^ 32 by omega)]
  have hok : ¬ BadTable (encodeSignedTx tx) := by
    rw [BadTable, h₁, h₅, h₉, hlen]
    omega
  rw [decodeSignedTx_eq rfl (by omega), AlgoId.fromByte_asByte]
  dsimp only
  rw [if_neg hok, h₅, h₉, hlen, hsl, hsl, show slice (encodeSignedTx tx) 13 = _ from funext (hsl 0)]
  simp [Nat.add_assoc, Nat.add_sub_add_left]

lemma AlgoId.asByte_of_fromByte {b : UInt8} {a : AlgoId} (h : AlgoId.fromByte b = some a) :
    a.asByte = b := by
  unfold AlgoId.fromByte at h
  split_ifs at h <;> cases h <;> exact Eq.symm ‹_›

lemma encodeSignedTx_of_decode (h : decodeSignedTx bytes = some (.ok tx)) :
    encodeSignedTx tx = bytes := by
  have hlen : 13 ≤ bytes.length := by
    by_contra hlt
    rw [decodeSignedTx, if_pos (Nat.lt_of_not_le hlt)] at h
    cases h
  obtain ⟨b, t, hbt⟩ := exists_cons_of_length_pos (Nat.lt_of_lt_of_le (by decide) hlen)
  rw [decodeSignedTx_eq (b := b) (by rw [hbt]; rfl) hlen] at h
  cases hb : AlgoId.fromByte b with
  | none => simp [hb] at h
  | some algoId =>
    simp only [hb] at h
    split_ifs at h with hbad
    · cases h
    cases h
    simp only [BadTable, not_or, not_not, Nat.not_lt] at hbad
    obtain ⟨h₁, h₅, h₉, hle⟩ := hbad
    rw [h₁] at h₅
    -- the parts are consecutive, so they make up the whole
    have hcut : ∀ i n, slice bytes i n ++ bytes.drop (i + n) = bytes.drop i := fun i n => by
      rw [slice, ← drop_drop, take_append_drop]
    have hpk := hcut 13 (offset bytes 5 - 13)
    have hsg := hcut (offset bytes 5) (offset bytes 9 - offset bytes 5)
    rw [Nat.add_sub_cancel' h₅] at hpk
    rw [Nat.add_sub_cancel' h₉] at hsg
    have hpl : slice bytes (offset bytes 9) (bytes.length - offset bytes 9) =
      bytes.drop (offset bytes 9) := take_of_length_le (by simp)
    have hoff : ∀ i, i + 4 ≤ bytes.length → u32Le (offset bytes i) = slice bytes i 4 :=
      fun i hi => u32Le_ofBe (slice_length hi)
    have h13 := hoff 1 (by omega)
    rw [h₁] at h13
    simp only [encodeSignedTx, AlgoId.asByte_of_fromByte hb]
    rw [slice_length (by omega), slice_length (by omega), Nat.add_sub_cancel' h₅,
      Nat.add_sub_cancel' h₉, h13, hoff 5 (by omega), hoff 9 (by omega), hpl, hsg, hpk,
      (hcut 9 4 :), (hcut 5 4 :), (hcut 1 4 :), hbt]
    rfl

/-- The codec is a bijection between the transactions that fit and the
bytes it accepts, and never slices out of range. -/
theorem ssz_signed_tx_bijection :
    (∀ tx, (encodeSignedTx tx).length < 2 ^ 32 →
      decodeSignedTx (encodeSignedTx tx) = some (.ok tx)) ∧
      (∀ bytes tx, decodeSignedTx bytes = some (.ok tx) → encodeSignedTx tx = bytes) ∧
      ∀ bytes, (decodeSignedTx bytes).isSome := by
  refine ⟨fun _ => decodeSignedTx_encodeSignedTx, fun _ _ => encodeSignedTx_of_decode, ?_⟩
  intro bytes
  by_cases hlen : 13 ≤ bytes.length
  · obtain ⟨b, t, rfl⟩ := exists_cons_of_length_pos (Nat.lt_of_lt_of_le (by decide) hlen)
    rw [decodeSignedTx_eq rfl hlen]
    split
    · rfl
    · split_ifs <;> rfl
  · rw [decodeSignedTx, if_pos (Nat.lt_of_not_le hlen)]
    rfl

end Aii.Chain
