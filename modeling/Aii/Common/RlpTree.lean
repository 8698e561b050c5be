/-
Aii.Common.RlpTree — what an RLP item is made of.

An item that fits the length of a header is determined by its bytes
(`encode_inj`).
-/
import Aii.Common.Rlp

namespace Aii.Common.Rlp

open List

/-- A string or a list of items. -/
inductive RlpTree where
  | str (bs : Bytes)
  | list (ts : List RlpTree)

namespace RlpTree

mutual

def encode : RlpTree → Bytes
  | .str bs => encodeString bs
  | .list ts => encodeList (encodeAll ts)

def encodeAll : List RlpTree → Bytes
  | [] => []
  | t :: ts => encode t ++ encodeAll ts

end

lemma encodeAll_eq_flatMap (ts : List RlpTree) : encodeAll ts = ts.flatMap encode := by
  induction ts with
  | nil => rfl
  | cons _ _ ih => simp [encodeAll, ih]

lemma encodeAll_append (ts us : List RlpTree) :
    encodeAll (ts ++ us) = encodeAll ts ++ encodeAll us := by
  simp only [encodeAll_eq_flatMap, flatMap_append]

lemma length_encodeAll_le {ts : List RlpTree} {n : Nat}
    (h : ∀ t ∈ ts, t.encode.length ≤ n) : (encodeAll ts).length ≤ ts.length * n := by
  induction ts with
  | nil => simp [encodeAll]
  | cons _ _ ih =>
    obtain ⟨ht, hts⟩ := forall_mem_cons.mp h
    have hrs := ih hts
    simp only [encodeAll, length_append, length_cons, Nat.succ_mul]
    omega

lemma encode_ne_nil (t : RlpTree) : t.encode ≠ [] := by
  intro hn
  cases t with
  | str bs =>
    have hl := length_le_encodeString bs
    rw [← encode, hn, length_nil, Nat.le_zero, length_eq_zero_iff] at hl
    subst hl
    cases hn
  | list ts =>
    obtain ⟨b, rest, hhd, -⟩ := encodeHeader_list_shape (encodeAll ts).length
    rw [encode, encodeList, hhd] at hn
    cases hn

inductive Fits : RlpTree → Prop
  | str {bs : Bytes} (len : bs.length < 2 ^ 64) : Fits (.str bs)
  | list {ts : List RlpTree} (len : (encodeAll ts).length < 2 ^ 64) (each : ∀ t ∈ ts, Fits t) :
    Fits (.list ts)

lemma Fits.item {t : RlpTree} (h : Fits t) : Item t.encode := by
  cases h with
  | str len => exact .string len
  | list len => exact .list len

/-- An item is determined by its bytes. -/
lemma encode_inj {t t' : RlpTree} (h : Fits t) (h' : Fits t') (heq : t.encode = t'.encode) :
    t = t' := by
  induction h generalizing t' with
  | @str bs len =>
    cases h' with
    | @str bs' len' =>
      have ha : encodeString bs ++ [] = encodeString bs' ++ [] := by
        simpa [encode] using heq
      rw [(encodeString_append_inj len len' ha).1]
    | list len' => exact absurd heq.symm (encodeList_ne_encodeString len' len)
  | @list ts len each ih =>
    cases h' with
    | str len' => exact absurd heq (encodeList_ne_encodeString len len')
    | @list ts' _ each' =>
      have hpy := encodeList_inj heq
      rw [encodeAll_eq_flatMap, encodeAll_eq_flatMap] at hpy
      -- the children are self-delimiting, so they can be compared one by one
      rw [flatMap_inj ?_ (fun t ht t' ht' => ih t ht (each' t' ht')) hpy]
      intro t ht
      rcases mem_append.mp ht with ht | ht
      · exact (each t ht).item
      · exact (each' t ht).item

end RlpTree

end Aii.Common.Rlp
