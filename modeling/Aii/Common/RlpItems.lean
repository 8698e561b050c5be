/-
Aii.Common.RlpItems — item loops read back what was written.

If the item decoder reads every item back whatever follows it, the loops
read the sequence back.
-/
import Aii.Common.Rlp

namespace Aii.Common.Rlp

open List

variable {α : Type}

/-- The decoder reads `a` off the front of its encoding, whatever follows,
and the encoding is not empty. -/
structure ReadsBack (d : Decoder α) (enc : α → Bytes) (a : α) : Prop where
  read : ∀ rest, d (enc a ++ rest) = .ok (a, rest)
  ne_nil : enc a ≠ []

variable {d : Decoder α} {enc : α → Bytes} {items : List α} {a : α} {fuel : Nat} {P : α → Prop}

lemma ReadsBack.length_pos (h : ReadsBack d enc a) : 0 < (enc a).length :=
  length_pos_iff.mpr h.ne_nil

section Items

variable (h : ∀ a ∈ items, ReadsBack d enc a)

include h

lemma decodeWhile_flatMap (done : Nat) (rest : Bytes) (hf : (items.flatMap enc).length ≤ fuel) :
    decodeWhile d fuel (done + (items.flatMap enc ++ rest).length)
        (done + (items.flatMap enc).length) (items.flatMap enc ++ rest) = .ok (items, rest) := by
  induction items generalizing fuel done with
  | nil =>
    unfold decodeWhile
    rw [if_neg (by simp)]
    rfl
  | cons a items ih =>
    obtain ⟨ha, hi⟩ := forall_mem_cons.mp h
    have hp := ha.length_pos
    rw [flatMap_cons, length_append] at hf
    obtain ⟨fuel, rfl⟩ : ∃ n, fuel = n + 1 := ⟨fuel - 1, by omega⟩
    have hrs := ih hi (done + (enc a).length) (show _ ≤ fuel by omega)
    rw [decodeWhile, if_pos (by rw [flatMap_cons]; simp; omega)]
    rw [flatMap_cons, append_assoc, ha.read]
    have hsr : done + (enc a ++ (items.flatMap enc ++ rest)).length =
        done + (enc a).length + (items.flatMap enc ++ rest).length := by
      rw [length_append]
      omega
    have hl : done + (enc a ++ items.flatMap enc).length =
        done + (enc a).length + (items.flatMap enc).length := by
      rw [length_append]
      omega
    simp only [hsr, hl, hrs]

lemma decodeItems_flatMap (rest : Bytes) :
    decodeItems d (items.flatMap enc).length (items.flatMap enc ++ rest) = .ok (items, rest) := by
  have hlp := decodeWhile_flatMap h 0 rest (Nat.le_refl _)
  rw [Nat.zero_add, Nat.zero_add] at hlp
  exact hlp

lemma decodeAll_flatMap (hf : (items.flatMap enc).length ≤ fuel) :
    decodeAll d fuel (items.flatMap enc) = .ok items := by
  induction items generalizing fuel with
  | nil =>
    unfold decodeAll
    rfl
  | cons _ items ih =>
    obtain ⟨ha, hi⟩ := forall_mem_cons.mp h
    have hp := ha.length_pos
    rw [flatMap_cons, length_append] at hf
    obtain ⟨fuel, rfl⟩ : ∃ n, fuel = n + 1 := ⟨fuel - 1, by omega⟩
    have hread := ha.read (items.flatMap enc)
    have hrs := ih hi (show _ ≤ fuel by omega)
    obtain ⟨b, bs, hb⟩ := exists_cons_of_ne_nil ha.ne_nil
    rw [hb, cons_append] at hread
    rw [flatMap_cons, hb, cons_append, decodeAll]
    simp [hread, hrs]
    rfl

lemma decodeVec_encodeList (hlt : (items.flatMap enc).length < 2 ^ 64) (rest : Bytes) :
    decodeVec d (encodeList (items.flatMap enc) ++ rest) = .ok (items, rest) := by
  rw [decodeVec, decodeHeader_encodeList hlt]
  simp only [↓reduceIte, take_left' rfl, drop_left' rfl, decodeAll_flatMap h (Nat.le_refl _)]

end Items

lemma decodeStruct_encodeList {fields : Decoder α} {payload rest : Bytes}
    (hread : fields (payload ++ rest) = .ok (a, rest)) (hlt : payload.length < 2 ^ 64) :
    decodeStruct fields (encodeList payload ++ rest) = .ok (a, rest) := by
  rw [decodeStruct, decodeListHeader_encodeList hlt]
  simp [hread, ↓reduceIte]

lemma decodeWhile_ensures (h : Decoder.Ensures d P) (fuel startLen len : Nat) :
    Decoder.Ensures (decodeWhile d fuel startLen len) fun items => ∀ a ∈ items, P a := by
  induction fuel with
  | zero =>
    intro buf items rest hd
    unfold decodeWhile at hd
    split_ifs at hd
    cases hd
    exact forall_mem_nil P
  | succ fuel ih =>
    intro buf items rest hd
    unfold decodeWhile at hd
    split_ifs at hd
    · cases hit : d buf with
      | error => simp [hit] at hd
      | ok out =>
        obtain ⟨a, buf'⟩ := out
        simp [hit] at hd
        cases hlp : decodeWhile d fuel startLen len buf' with
        | error => simp [hlp] at hd
        | ok out =>
          obtain ⟨as, buf''⟩ := out
          simp only [hlp] at hd
          cases hd
          exact forall_mem_cons.mpr ⟨h _ _ _ hit, ih _ _ _ hlp⟩
    · cases hd
      exact forall_mem_nil P

end Aii.Common.Rlp
