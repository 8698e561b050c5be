/-
Aii.Chain.Bloom — the logs bloom as a set of bits (`aii-block/src/bloom.rs`).

Accruing data adds the bits of the data and clears none, so whatever was
accrued is contained.
-/
import Mathlib.Data.Set.Insert
import Aii.Chain.Block

namespace Aii.Chain

open Common List UInt8

namespace Bloom

/-- Byte `i` of the array. -/
def byte (b : Bloom) (i : Nat) : UInt8 := b.toList.getD i 0

def contains (c : Crypto) (b : Bloom) (data : Bytes) : Bool :=
  let probe := Bloom.accrue c (Arr.zero 256) data
  (List.range 256).all fun i => (b.byte i &&& probe.byte i) == probe.byte i

def bits (b : Bloom) : Set (Nat × Nat) := {p | (b.byte p.1).toBitVec.getLsbD p.2 = true}

/-- The bits `accrue` takes from the hash of the data. -/
def dataBits (c : Crypto) (data : Bytes) : Set (Nat × Nat) :=
  {p | ∃ i ∈ [0, 2, 4], p = (255 - ofBe (((c.keccak256 data).toList.drop i).take 2) % 2048 / 8,
      ofBe (((c.keccak256 data).toList.drop i).take 2) % 2048 % 8)}

lemma byte_zero (i : Nat) : byte (Arr.zero 256) i = 0 := by
  have hls : (Arr.zero 256).toList = replicate 256 (0 : UInt8) := rfl
  rw [byte, hls, getD_eq_getElem?_getD, getElem?_replicate]
  split_ifs <;> rfl

lemma bits_zero : bits (Arr.zero 256) = ∅ := by
  ext ⟨i, j⟩
  simp [bits, byte_zero]

lemma byte_setBit (b : Bloom) (k i : Nat) :
    (b.setBit k).byte i =
      if i = 255 - k / 8 then b.byte i ||| ofNat (2 ^ (k % 8)) else b.byte i := by
  have hls : (b.setBit k).toList =
      b.toList.modify (255 - k / 8) fun x => x ||| ofNat (2 ^ (k % 8)) := rfl
  rw [byte, byte, hls, getD_eq_getElem?_getD, getD_eq_getElem?_getD, getElem?_modify]
  by_cases hi : i = 255 - k / 8
  · have hlt : i < b.toList.length := by
      rw [List.Vector.toList_length]
      omega
    simp [getElem?_eq_getElem hlt, ← hi]
  · simp [hi, Ne.symm hi]

lemma mask_getLsbD {k : Nat} (hk : k < 8) (j : Nat) :
    (ofNat (2 ^ k)).toBitVec.getLsbD j = decide (j = k) := by
  rw [toBitVec_ofNat', BitVec.getLsbD_ofNat, Nat.testBit_two_pow]
  by_cases hj : j = k
  · simp [hj, hk]
  · simp [hj, Ne.symm hj]

lemma bits_setBit (b : Bloom) (k : Nat) :
    (b.setBit k).bits = insert (255 - k / 8, k % 8) b.bits := by
  ext ⟨i, j⟩
  simp only [bits, Set.mem_ofPred_eq, Set.mem_insert_iff, Prod.mk.injEq, byte_setBit]
  by_cases hi : i = 255 - k / 8
  · rw [if_pos hi, UInt8.toBitVec_or, BitVec.getLsbD_or, mask_getLsbD (Nat.mod_lt k (by decide))]
    simp [hi, or_comm]
  · simp [hi]

lemma bits_accrue (c : Crypto) (b : Bloom) (data : Bytes) :
    (b.accrue c data).bits = b.bits ∪ dataBits c data := by
  unfold accrue
  simp only [foldl_cons, foldl_nil, bits_setBit]
  ext p
  simp only [dataBits, Set.mem_insert_iff, Set.mem_union, Set.mem_ofPred_eq, mem_cons,
    not_mem_nil, or_false, exists_eq_or_imp, exists_eq_left]
  tauto

/-- A fold of operations that only add bits. -/
lemma bits_foldl {α : Type} {f : Bloom → α → Bloom} {S : α → Set (Nat × Nat)}
    (h : ∀ b a, (f b a).bits = b.bits ∪ S a) (b : Bloom) (l : List α) :
    (l.foldl f b).bits = b.bits ∪ {p | ∃ a ∈ l, p ∈ S a} := by
  induction l generalizing b with
  | nil => simp
  | cons _ _ ih =>
    rw [foldl_cons, ih, h]
    ext p
    simp [or_assoc]

lemma bits_inj {b b' : Bloom} (h : b.bits = b'.bits) : b = b' := by
  refine toList_inj.mp (ext_getElem (by simp) fun i hi hi' => ?_)
  have hby : b.byte i = b'.byte i := UInt8.toBitVec_inj.mp
    (BitVec.eq_of_getLsbD_eq fun j _ => Bool.eq_iff_iff.mpr (Set.ext_iff.mp h (i, j)))
  rwa [byte, byte, getD_eq_getElem?_getD, getD_eq_getElem?_getD, getElem?_eq_getElem hi,
    getElem?_eq_getElem hi'] at hby

/-- Bitwise or of the arrays. -/
def union (b b' : Bloom) : Bloom := ⟨zipWith (· ||| ·) b.toList b'.toList, by simp⟩

lemma getD_zipWith_or {l l' : Bytes} (h : l.length = l'.length) (i : Nat) :
    (zipWith (· ||| ·) l l').getD i 0 = l.getD i 0 ||| l'.getD i 0 := by
  by_cases hi : i < l.length
  · simp [hi, h ▸ hi]
  · simp [hi, h ▸ hi]

lemma bits_union (b b' : Bloom) : (b.union b').bits = b.bits ∪ b'.bits := by
  ext ⟨i, j⟩
  have hby : (b.union b').byte i = b.byte i ||| b'.byte i := getD_zipWith_or (by simp) i
  simp [bits, hby]

lemma and_eq_iff (x y : UInt8) :
    x &&& y = y ↔ ∀ j, y.toBitVec.getLsbD j = true → x.toBitVec.getLsbD j = true := by
  rw [← UInt8.toBitVec_inj, UInt8.toBitVec_and]
  constructor
  · grind
  · intro h
    refine BitVec.eq_of_getLsbD_eq fun j _ => ?_
    rw [BitVec.getLsbD_and]
    cases hj : y.toBitVec.getLsbD j with
    | false => rw [Bool.and_false]
    | true => rw [h j hj, Bool.and_true]

lemma contains_iff (c : Crypto) (b : Bloom) (data : Bytes) :
    b.contains c data = true ↔ dataBits c data ⊆ b.bits := by
  have hpr : (accrue c (Arr.zero 256) data).bits = dataBits c data := by
    rw [bits_accrue, bits_zero, Set.empty_union]
  unfold contains
  simp only [all_eq_true, mem_range, beq_iff_eq, and_eq_iff]
  rw [← hpr]
  constructor
  · rintro h ⟨i, j⟩ hp
    refine h i ?_ j hp
    -- past the array there are no bits
    by_contra hi
    have hnn : (accrue c (Arr.zero 256) data).toList[i]? = none := by simp_all
    simp [bits, byte, getD_eq_getElem?_getD, hnn] at hp
  · intro h i _ j hj
    exact @h (i, j) hj

end Bloom

end Aii.Chain
