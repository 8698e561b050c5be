/-
Aii.Common.Rlp — recursive length prefix encoding.

The decoder is strict: single bytes, lengths and payloads have one form
each.
-/
import Aii.Common.Bytes
import Aii.Common.Machine

namespace Aii.Common.Rlp

open List UInt8 Except Nat

inductive RlpError where
  | overflow
  | leadingZero
  | inputTooShort
  | nonCanonicalSingleByte
  | nonCanonicalSize
  | unexpectedLength
  | unexpectedString
  | unexpectedList
  | listLengthMismatch (expected got : Nat)
  | custom (msg : String)
  deriving DecidableEq

def RlpError.text : RlpError → String
  | .overflow => "overflow"
  | .leadingZero => "leading zero"
  | .inputTooShort => "input too short"
  | .nonCanonicalSingleByte => "non-canonical single byte"
  | .nonCanonicalSize => "non-canonical size"
  | .unexpectedLength => "unexpected length"
  | .unexpectedString => "unexpected string"
  | .unexpectedList => "unexpected list"
  | .listLengthMismatch expected got =>
    "unexpected list length (got " ++ toString got ++ ", expected " ++ toString expected ++ ")"
  | .custom msg => msg

def stripZeros : Bytes → Bytes
  | [] => []
  | b :: bs => if b = 0 then stripZeros bs else b :: bs

def encodeHeader (list : Bool) (len : Nat) : Bytes :=
  if len < 56 then [UInt8.ofNat ((if list then 0xC0 else 0x80) + len)]
  else
    let be := stripZeros (toBe 8 len)
    UInt8.ofNat ((if list then 0xF7 else 0xB7) + be.length) :: be

def encodeString (bs : Bytes) : Bytes :=
  match bs with
  | [b] => if b < 0x80 then [b] else encodeHeader false 1 ++ [b]
  | bs => encodeHeader false bs.length ++ bs

/-- A list item around its already encoded elements. -/
def encodeList (payload : Bytes) : Bytes := encodeHeader true payload.length ++ payload

def encodeUint (w n : Nat) : Bytes := encodeString (stripZeros (toBe w n))

/-! ### Lengths

What the encodable types of the library report as the length of their
encoding. The payload lengths the code computes by hand are sums of
these. -/

/-- `length_of_length`: the size of the header of a payload. -/
def lengthOfLength (len : Nat) : Nat :=
  if len < 56 then 1 else 1 + (stripZeros (toBe 8 len)).length

/-- The length of a list item with a payload of `len` bytes. -/
def listLength (len : Nat) : Nat := lengthOfLength len + len

/-- `<[u8]>::length`. -/
def stringLength (bs : Bytes) : Nat :=
  match bs with
  | [b] => if b < 0x80 then 1 else 1 + lengthOfLength 1
  | bs => bs.length + lengthOfLength bs.length

/-- The length of an unsigned integer of `w` bytes. -/
def uintLength (w n : Nat) : Nat :=
  if n < 0x80 then 1 else 1 + (stripZeros (toBe w n)).length

/-! ## Decoding -/

/-- A decoder reads a value off the front of the input. -/
abbrev Decoder (α : Type) := Bytes → Except RlpError (α × Bytes)

namespace Decoder

variable {α β : Type} {d : Decoder α} {f : α → Decoder β}

def pure (a : α) : Decoder α := fun buf => .ok (a, buf)

def bind (d : Decoder α) (f : α → Decoder β) : Decoder β := fun buf =>
  match d buf with
  | .error e => .error e
  | .ok (a, rest) => f a rest

def fail (e : RlpError) : Decoder α := fun _ => .error e

def remaining : Decoder Nat := fun buf => .ok (buf.length, buf)

instance : Monad Decoder where
  pure := pure
  bind := bind

lemma bind_eq_ok {buf rest : Bytes} {b : β} (h : (d >>= f) buf = .ok (b, rest)) :
    ∃ a buf', d buf = .ok (a, buf') ∧ f a buf' = .ok (b, rest) := by
  change bind d f buf = .ok (b, rest) at h
  unfold bind at h
  split at h
  · cases h
  next a buf' hread => exact ⟨a, buf', hread, h⟩

/-- Whatever the decoder returns satisfies `P`. -/
def Ensures (d : Decoder α) (P : α → Prop) : Prop := ∀ buf a rest, d buf = .ok (a, rest) → P a

lemma Ensures.pure {P : α → Prop} {a : α} (h : P a) : Ensures (pure a) P := by
  intro _ a' _ heq
  cases heq
  exact h

lemma Ensures.bind {P : β → Prop} (h : ∀ a, Ensures (f a) P) : Ensures (d.bind f) P := by
  intro _ b rest heq
  unfold Decoder.bind at heq
  split at heq
  · cases heq
  next a rest' _ => exact h a rest' b rest heq

lemma Ensures.bind_of {P : α → Prop} {Q : β → Prop} (hd : Ensures d P)
    (h : ∀ a, P a → Ensures (f a) Q) : Ensures (d.bind f) Q := by
  intro _ b rest heq
  unfold Decoder.bind at heq
  split at heq
  · cases heq
  next a rest' hread => exact h a (hd _ _ _ hread) rest' b rest heq

end Decoder

/-- The length bytes of a long header: no leading zero, at least 56. -/
def decodeLongLen (lenOfLen : Nat) (list : Bool) : Decoder (Bool × Nat) := fun buf =>
  if buf.length < lenOfLen then .error .inputTooShort
  else if (buf.take lenOfLen).head? = some 0 then .error .leadingZero
  else if ofBe (buf.take lenOfLen) < 56 then .error .nonCanonicalSize
  else .ok ((list, ofBe (buf.take lenOfLen)), buf.drop lenOfLen)

/-- The header without the final check against the input length. The
first byte of a one-byte item stays in the input. -/
def decodeHeaderRaw : Decoder (Bool × Nat) := fun buf =>
  match buf with
  | [] => .error .inputTooShort
  | b :: rest =>
    if b < 0x80 then .ok ((false, 1), buf)
    else if b < 0xB8 then
      let len := b.toNat - 0x80
      if len = 1 then
        match rest with
        | [] => .error .inputTooShort
        | b' :: _ => if b' < 0x80 then .error .nonCanonicalSingleByte else .ok ((false, 1), rest)
      else .ok ((false, len), rest)
    else if b < 0xC0 then decodeLongLen (b.toNat - 0xB7) false rest
    else if b < 0xF8 then .ok ((true, b.toNat - 0xC0), rest)
    else decodeLongLen (b.toNat - 0xF7) true rest

/-- `Header::decode`: kind and payload length, the payload being there. -/
def decodeHeader : Decoder (Bool × Nat) := fun buf =>
  match decodeHeaderRaw buf with
  | .error e => .error e
  | .ok ((list, len), rest) =>
    if rest.length < len then .error .inputTooShort else .ok ((list, len), rest)

/-- `Header::decode_bytes(buf, false)`: a string item. -/
def decodeString : Decoder Bytes := fun buf =>
  match decodeHeader buf with
  | .error e => .error e
  | .ok ((list, len), rest) =>
    if list then .error .unexpectedList else .ok (rest.take len, rest.drop len)

def decodeListHeader : Decoder Nat := fun buf =>
  match decodeHeader buf with
  | .error e => .error e
  | .ok ((list, len), rest) => if list then .ok (len, rest) else .error .unexpectedString

/-- An unsigned integer of at most `w` bytes, without leading zeros. -/
def decodeUint (w : Nat) : Decoder Nat := fun buf =>
  match decodeString buf with
  | .error e => .error e
  | .ok (bs, rest) =>
    if w < bs.length then .error .overflow
    else if bs.head? = some 0 then .error .leadingZero
    else .ok (ofBe bs, rest)

/-- A string of exactly `n` bytes. -/
def decodeArr (n : Nat) : Decoder (Arr n) := fun buf =>
  match decodeString buf with
  | .error e => .error e
  | .ok (bs, rest) =>
    match arr? n bs with
    | none => .error .unexpectedLength
    | some a => .ok (a, rest)

/-- A string of at most `n` bytes, as a number (leading zeros allowed). -/
def decodeLoose (n : Nat) : Decoder Nat := fun buf =>
  match decodeString buf with
  | .error e => .error e
  | .ok (bs, rest) => if n < bs.length then .error .unexpectedLength else .ok (ofBe bs, rest)

/-- Decode items until `len` bytes have been consumed. -/
def decodeWhile {α : Type} (item : Decoder α) (fuel startLen len : Nat) : Decoder (List α) :=
  fun buf =>
    if startLen - buf.length < len then
      match fuel with
      | 0 => .error (.custom "no progress")
      | fuel + 1 =>
        match item buf with
        | .error e => .error e
        | .ok (a, rest) =>
          match decodeWhile item fuel startLen len rest with
          | .error e => .error e
          | .ok (as, rest) => .ok (a :: as, rest)
    else .ok ([], buf)

/-- The item loop of the code, over a payload of `len` bytes. -/
def decodeItems {α : Type} (item : Decoder α) (len : Nat) : Decoder (List α) := fun buf =>
  decodeWhile item len buf.length len buf

def decodeAll {α : Type} (item : Decoder α) : Nat → Bytes → Except RlpError (List α)
  | _, [] => .ok []
  | 0, _ :: _ => .error (.custom "no progress")
  | fuel + 1, b :: bs =>
    match item (b :: bs) with
    | .error e => .error e
    | .ok (a, rest) => (decodeAll item fuel rest).map (a :: ·)

def decodeVec {α : Type} (item : Decoder α) : Decoder (List α) := fun buf =>
  match decodeHeader buf with
  | .error e => .error e
  | .ok ((list, len), rest) =>
    if list then
      match decodeAll item len (rest.take len) with
      | .error e => .error e
      | .ok items => .ok (items, rest.drop len)
    else .error .unexpectedString

def decodeStruct {α : Type} (fields : Decoder α) : Decoder α := fun buf =>
  match decodeListHeader buf with
  | .error e => .error e
  | .ok (len, rest) =>
    match fields rest with
    | .error e => .error e
    | .ok (a, rest') =>
      let consumed := rest.length - rest'.length
      if consumed ≠ len then .error (.listLengthMismatch len consumed) else .ok (a, rest')

/-! ### Machine words -/

/-- A `u64`. -/
def encodeU64 (x : UInt64) : Bytes := encodeUint 8 x.toNat

/-- A `u8`. -/
def encodeU8 (x : UInt8) : Bytes := encodeUint 1 x.toNat

/-- A `bool`, as the number 0 or 1. -/
def encodeBool (b : Bool) : Bytes := encodeU8 (if b then 1 else 0)

/-- A `U256`. -/
def encodeU256 (x : U256) : Bytes := encodeUint 32 x.toNat

def u64Length (x : UInt64) : Nat := uintLength 8 x.toNat

def u8Length (x : UInt8) : Nat := uintLength 1 x.toNat

def decodeU64 : Decoder UInt64 := fun buf =>
  match decodeUint 8 buf with
  | .error e => .error e
  | .ok (n, rest) => .ok (UInt64.ofNat n, rest)

def decodeU8 : Decoder UInt8 := fun buf =>
  match decodeUint 1 buf with
  | .error e => .error e
  | .ok (n, rest) => .ok (UInt8.ofNat n, rest)

def decodeBool : Decoder Bool := fun buf =>
  match decodeU8 buf with
  | .error e => .error e
  | .ok (n, rest) =>
    if n = 0 then .ok (false, rest)
    else if n = 1 then .ok (true, rest)
    else .error (.custom "invalid bool value, must be 0 or 1")

/-- A 256-bit number that may carry leading zeros. -/
def decodeU256 : Decoder U256 := fun buf =>
  match decodeLoose 32 buf with
  | .error e => .error e
  | .ok (n, rest) => .ok (BitVec.ofNat 256 n, rest)

/-! ## Round trips -/

@[simp] lemma ofBe_zero_cons (bs : Bytes) : ofBe (0 :: bs) = ofBe bs := rfl

lemma ofBe_stripZeros (bs : Bytes) : ofBe (stripZeros bs) = ofBe bs := by
  induction bs with
  | nil => rfl
  | cons _ _ ih =>
    rw [stripZeros]
    split
    next hb => rw [ih, hb, ofBe_zero_cons]
    next => rfl

lemma stripZeros_head (bs : Bytes) : (stripZeros bs).head? ≠ some 0 := by
  induction bs with
  | nil => simp [stripZeros]
  | cons _ _ ih =>
    rw [stripZeros]
    split
    next => exact ih
    next hb => simpa using hb

lemma stripZeros_length_le (bs : Bytes) : (stripZeros bs).length ≤ bs.length := by
  induction bs with
  | nil => exact le_refl _
  | cons _ _ ih =>
    rw [stripZeros]
    split
    next => exact le_succ_of_le ih
    next => exact le_refl _

variable {k len n w : Nat} {a bs buf payload rest x y : Bytes} {b : Bytes} {α : Type}

lemma headByte_toNat (h : n < 256) : (ofNat n).toNat = n := toNat_ofNat_of_lt' h

lemma decodeLongLen_stripZeros (h56 : 56 ≤ len) (hlt : len < 2 ^ 64) (list : Bool)
    (rest : Bytes) :
    decodeLongLen (stripZeros (toBe 8 len)).length list (stripZeros (toBe 8 len) ++ rest)
      = .ok ((list, len), rest) := by
  have hv : ofBe (stripZeros (toBe 8 len)) = len := by
    rw [ofBe_stripZeros, ofBe_toBe_of_lt (by simpa using hlt)]
  rw [decodeLongLen, take_left' rfl, drop_left' rfl, hv, if_neg (by simp),
    if_neg (stripZeros_head _), if_neg (by omega)]

lemma decodeHeaderRaw_encodeHeader {list : Bool} (ho : list = true ∨ len ≠ 1) (hlt : len < 2 ^ 64)
    (rest : Bytes) :
    decodeHeaderRaw (encodeHeader list len ++ rest) = .ok ((list, len), rest) := by
  unfold encodeHeader
  split
  next hsh =>
    have hbe : (ofNat ((if list then 0xC0 else 0x80) + len)).toNat
        = (if list then 0xC0 else 0x80) + len := headByte_toNat (by cases list <;> simp <;> omega)
    cases list with
    | true =>
      simp only [if_true] at hbe ⊢
      simp only [decodeHeaderRaw, cons_append, nil_append, lt_iff_toNat_lt, hbe]
      simp [show ¬ 192 + len < 128 by omega, show ¬ 192 + len < 184 by omega,
        show 192 + len < 248 by omega]
    | false =>
      have hne : len ≠ 1 := by simpa using ho
      simp only [Bool.false_eq_true, if_false] at hbe ⊢
      simp only [decodeHeaderRaw, cons_append, nil_append, lt_iff_toNat_lt, hbe]
      simp [show 128 + len < 184 by omega, hne]
  next hlg =>
    have hl := stripZeros_length_le (toBe 8 len)
    rw [toBe_length] at hl
    have hp : 0 < (stripZeros (toBe 8 len)).length := by
      refine length_pos_iff.mpr fun hn => ?_
      have hv := ofBe_stripZeros (toBe 8 len)
      rw [hn, ofBe_toBe_of_lt (by simpa using hlt)] at hv
      exact absurd hv (by simp; omega)
    have hlg' := decodeLongLen_stripZeros (by omega : 56 ≤ len) hlt list rest
    generalize stripZeros (toBe 8 len) = be at hl hp hlg' ⊢
    have hbe : (ofNat ((if list then 0xF7 else 0xB7) + be.length)).toNat
        = (if list then 0xF7 else 0xB7) + be.length :=
      headByte_toNat (by cases list <;> simp <;> omega)
    cases list with
    | true =>
      simp only [if_true] at hbe ⊢
      simp only [decodeHeaderRaw, cons_append, lt_iff_toNat_lt, hbe]
      simp [show ¬ 247 + be.length < 128 by omega, show ¬ 247 + be.length < 184 by omega,
        show ¬ 247 + be.length < 192 by omega, show ¬ 247 + be.length < 248 by omega, hlg']
    | false =>
      simp only [Bool.false_eq_true, if_false] at hbe ⊢
      simp only [decodeHeaderRaw, cons_append, lt_iff_toNat_lt, hbe]
      simp [show ¬ 183 + be.length < 128 by omega, show ¬ 183 + be.length < 184 by omega,
        show 183 + be.length < 192 by omega, hlg']

lemma encodeString_of_length (h : bs.length ≠ 1) :
    encodeString bs = encodeHeader false bs.length ++ bs := by
  unfold encodeString
  split
  · simp at h
  · rfl

lemma decodeString_encodeString (hlt : bs.length < 2 ^ 64) (rest : Bytes) :
    decodeString (encodeString bs ++ rest) = .ok (bs, rest) := by
  by_cases ho : bs.length = 1
  · obtain ⟨b, rfl⟩ := length_eq_one_iff.mp ho
    by_cases hb : b < 0x80
    · simp [encodeString, decodeString, decodeHeader, decodeHeaderRaw, hb]
    · simp [encodeString, encodeHeader, decodeString, decodeHeader, decodeHeaderRaw, hb]
  · rw [encodeString_of_length ho, append_assoc, decodeString, decodeHeader,
      decodeHeaderRaw_encodeHeader (.inr ho) hlt]
    simp

lemma decodeHeader_encodeList (hlt : payload.length < 2 ^ 64) (rest : Bytes) :
    decodeHeader (encodeList payload ++ rest) = .ok ((true, payload.length), payload ++ rest) := by
  rw [encodeList, append_assoc, decodeHeader, decodeHeaderRaw_encodeHeader (.inl rfl) hlt]
  simp

lemma decodeListHeader_encodeList (hlt : payload.length < 2 ^ 64) (rest : Bytes) :
    decodeListHeader (encodeList payload ++ rest) = .ok (payload.length, payload ++ rest) := by
  rw [decodeListHeader, decodeHeader_encodeList hlt]
  rfl

lemma decodeUint_encodeUint (hw : w < 2 ^ 64) (hn : n < 256 ^ w) (rest : Bytes) :
    decodeUint w (encodeUint w n ++ rest) = .ok (n, rest) := by
  have hl := stripZeros_length_le (toBe w n)
  rw [toBe_length] at hl
  rw [decodeUint, encodeUint, decodeString_encodeString (by omega)]
  simp [hl, stripZeros_head, ofBe_stripZeros, ofBe_toBe_of_lt hn]

lemma decodeLoose_encodeUint (hw : w < 2 ^ 64) (hn : n < 256 ^ w) (rest : Bytes) :
    decodeLoose w (encodeUint w n ++ rest) = .ok (n, rest) := by
  have hl := stripZeros_length_le (toBe w n)
  rw [toBe_length] at hl
  rw [decodeLoose, encodeUint, decodeString_encodeString (by omega)]
  simp [hl, ofBe_stripZeros, ofBe_toBe_of_lt hn]

lemma decodeArr_encodeString (hn : n < 2 ^ 64) (a : Arr n) (rest : Bytes) :
    decodeArr n (encodeString a.toList ++ rest) = .ok (a, rest) := by
  rw [decodeArr, decodeString_encodeString (by simpa using hn)]
  simp

lemma decodeU64_encodeU64 (x : UInt64) (rest : Bytes) :
    decodeU64 (encodeU64 x ++ rest) = .ok (x, rest) := by
  rw [decodeU64, encodeU64, decodeUint_encodeUint (by decide) x.toNat_lt]
  simp

lemma decodeU256_encodeU256 (x : U256) (rest : Bytes) :
    decodeU256 (encodeU256 x ++ rest) = .ok (x, rest) := by
  rw [decodeU256, encodeU256, decodeLoose_encodeUint (by decide) x.isLt]
  simp

lemma encodeHeader_list_shape (len : Nat) :
    ∃ b rest, encodeHeader true len = b :: rest ∧ 0xC0 ≤ b.toNat ∧
      rest.length = b.toNat - 0xF7 := by
  rw [encodeHeader, if_pos rfl, if_pos rfl]
  split_ifs with hl
  · refine ⟨_, _, rfl, ?_⟩
    rw [headByte_toNat (by omega), length_nil]
    omega
  · refine ⟨_, _, rfl, ?_⟩
    have hle := stripZeros_length_le (toBe 8 len)
    rw [toBe_length] at hle
    rw [headByte_toNat (by omega)]
    omega

lemma encodeList_inj {p q : Bytes} (h : encodeList p = encodeList q) : p = q := by
  obtain ⟨b, _, hb, -, hrs⟩ := encodeHeader_list_shape p.length
  obtain ⟨b', _, hb', -, hrs'⟩ := encodeHeader_list_shape q.length
  rw [encodeList, encodeList, hb, hb', cons_append, cons_append] at h
  obtain ⟨rfl, htl⟩ := cons.inj h
  exact (append_field_inj (hrs.trans hrs'.symm) htl).2

lemma decodeListHeader_rest (h : decodeListHeader (encodeList payload ++ rest) = .ok (len, buf)) :
    buf = payload ++ rest := by
  obtain ⟨b, more, hb, hls, hm⟩ := encodeHeader_list_shape payload.length
  have hr : ∀ kind len' buf', decodeHeaderRaw (encodeList payload ++ rest) =
      .ok ((kind, len'), buf') → buf' = payload ++ rest := by
    intro _ _ _ hr
    rw [encodeList, hb, cons_append, cons_append, append_assoc] at hr
    simp only [decodeHeaderRaw, lt_iff_toNat_lt] at hr
    rw [if_neg (by simp; omega), if_neg (by simp; omega), if_neg (by simp; omega)] at hr
    split_ifs at hr with hsh
    · have hn : more = [] := by
        refine length_eq_zero_iff.mp ?_
        simp at hsh
        omega
      rw [hn] at hr
      exact (congrArg Prod.snd (ok.inj hr)).symm
    · unfold decodeLongLen at hr
      split_ifs at hr
      rw [← (Prod.mk.inj (ok.inj hr)).2, drop_left' hm]
  unfold decodeListHeader decodeHeader at h
  cases hd : decodeHeaderRaw (encodeList payload ++ rest) with
  | error => simp [hd] at h
  | ok out =>
    obtain ⟨⟨kind, len'⟩, buf'⟩ := out
    simp [hd] at h
    split at h
    · cases h
    next hhd =>
      split_ifs at hhd with hlg
      split_ifs at h
      cases h
      rw [← (Prod.mk.inj (ok.inj hhd)).2]
      exact hr kind len' buf' hd

/-! ## Items delimit themselves -/

/-- One string or list item, short enough for its header. -/
inductive Item : Bytes → Prop
  | string {bs : Bytes} (len : bs.length < 2 ^ 64) : Item (encodeString bs)
  | list {payload : Bytes} (len : payload.length < 2 ^ 64) : Item (encodeList payload)

lemma Item.header (h : Item a) : ∃ list payload,
    a = (if list then encodeList payload else encodeString payload) ∧
      ∀ x, ∃ len buf, decodeHeader (a ++ x) = .ok ((list, len), buf) ∧
        buf.take len = payload ∧ buf.drop len = x := by
  cases h with
  | @string bs hl =>
    refine ⟨false, bs, rfl, fun x => ?_⟩
    have hd := decodeString_encodeString hl x
    unfold decodeString at hd
    cases hhd : decodeHeader (encodeString bs ++ x) with
    | error => simp [hhd] at hd
    | ok out => grind
  | @list payload hl =>
    refine ⟨true, payload, rfl, fun x => ⟨payload.length, payload ++ x, ?_, by simp, by simp⟩⟩
    rw [encodeList, append_assoc, decodeHeader, decodeHeaderRaw_encodeHeader (.inl rfl) hl]
    simp

lemma Item.append_inj (ha : Item a) (hb : Item b) (h : a ++ x = b ++ y) : a = b ∧ x = y := by
  obtain ⟨_, _, hap, hread⟩ := ha.header
  obtain ⟨_, _, hbp, hread'⟩ := hb.header
  obtain ⟨_, _, hdec, hta, hdp⟩ := hread x
  obtain ⟨_, _, hdec', hta', hdp'⟩ := hread' y
  rw [h, hdec'] at hdec
  obtain ⟨hk, rfl⟩ := Prod.mk.inj (ok.inj hdec)
  cases hk
  rw [hap, hbp, ← hta, ← hta', ← hdp, ← hdp']
  exact ⟨rfl, rfl⟩

lemma Item.ne_nil (h : Item a) : a ≠ [] := by
  rintro rfl
  obtain ⟨_, _, -, hread⟩ := h.header
  obtain ⟨_, _, hd, -⟩ := hread []
  simp [decodeHeader, decodeHeaderRaw] at hd

lemma encodeList_ne_encodeString {p : Bytes} (hp : p.length < 2 ^ 64) (hbs : bs.length < 2 ^ 64) :
    encodeList p ≠ encodeString bs := by
  intro heq
  have hls := decodeListHeader_encodeList hp []
  have hs := decodeString_encodeString hbs []
  rw [heq] at hls
  unfold decodeListHeader at hls
  unfold decodeString at hs
  cases hhd : decodeHeader (encodeString bs ++ []) with
  | error =>
    rw [hhd] at hs
    cases hs
  | ok out =>
    obtain ⟨⟨list, _⟩, _⟩ := out
    simp only [hhd] at hls hs
    cases list with
    | true => simp at hs
    | false => simp at hls

lemma flatMap_inj {enc : α → Bytes} {l l' : List α} (hit : ∀ a ∈ l ++ l', Item (enc a))
    (hi : ∀ a ∈ l, ∀ b ∈ l', enc a = enc b → a = b) (h : l.flatMap enc = l'.flatMap enc) :
    l = l' := by
  induction l generalizing l' with
  | nil =>
    cases l' with
    | nil => rfl
    | cons b =>
      have hb := (hit b (by simp)).ne_nil
      simp [hb] at h
  | cons a _ ih =>
    cases l' with
    | nil =>
      have ha := (hit a (by simp)).ne_nil
      simp [ha] at h
    | cons b =>
      rw [flatMap_cons, flatMap_cons] at h
      obtain ⟨hab, hrs⟩ := (hit a (by simp)).append_inj (hit b (by simp)) h
      rw [hi a (by simp) b (by simp) hab, ih ?_ ?_ hrs]
      · grind
      · exact fun d hd e he => hi d (mem_cons_of_mem _ hd) e (mem_cons_of_mem _ he)

lemma decodeU8_encodeU8 (x : UInt8) (rest : Bytes) :
    decodeU8 (encodeU8 x ++ rest) = .ok (x, rest) := by
  rw [decodeU8, encodeU8, decodeUint_encodeUint (by decide) x.toNat_lt]
  simp

lemma decodeBool_encodeBool (b : Bool) (rest : Bytes) :
    decodeBool (encodeBool b ++ rest) = .ok (b, rest) := by
  rw [decodeBool, encodeBool, decodeU8_encodeU8]
  cases b <;> rfl

/-! ### Fields -/

lemma read_inj {d : Decoder α} {v v' : α} (h : d buf = .ok (v, x)) (h' : d buf = .ok (v', y)) :
    v = v' ∧ x = y :=
  Prod.mk.inj (ok.inj (h.symm.trans h'))

lemma append_inj_of_read {d : Decoder α} {v v' : α} (ha : d (a ++ x) = .ok (v, x))
    (hb : d (b ++ y) = .ok (v', y)) (h : a ++ x = b ++ y) : v = v' ∧ x = y := by
  rw [h] at ha
  exact read_inj ha hb

lemma encodeString_append_inj (ha : a.length < 2 ^ 64) (hb : b.length < 2 ^ 64)
    (h : encodeString a ++ x = encodeString b ++ y) : a = b ∧ x = y :=
  append_inj_of_read (decodeString_encodeString ha x) (decodeString_encodeString hb y) h

lemma encodeArr_append_inj {n : Nat} (hn : n < 2 ^ 64) {a b : Arr n}
    (h : encodeString a.toList ++ x = encodeString b.toList ++ y) : a = b ∧ x = y :=
  append_inj_of_read (decodeArr_encodeString hn a x) (decodeArr_encodeString hn b y) h

lemma encodeU64_append_inj {a b : UInt64} (h : encodeU64 a ++ x = encodeU64 b ++ y) :
    a = b ∧ x = y :=
  append_inj_of_read (decodeU64_encodeU64 a x) (decodeU64_encodeU64 b y) h

lemma encodeU256_append_inj {a b : U256} (h : encodeU256 a ++ x = encodeU256 b ++ y) :
    a = b ∧ x = y :=
  append_inj_of_read (decodeU256_encodeU256 a x) (decodeU256_encodeU256 b y) h

lemma decodeHeaderRaw_length_le {header : Bool × Nat}
    (h : decodeHeaderRaw buf = .ok (header, rest)) : rest.length ≤ buf.length := by
  have hlg : ∀ {n : Nat} {list : Bool} {bytes : Bytes},
      decodeLongLen n list bytes = .ok (header, rest) → rest.length ≤ bytes.length := by
    intro n _ _ hd
    unfold decodeLongLen at hd
    split_ifs at hd
    cases hd
    rw [length_drop]
    omega
  unfold decodeHeaderRaw at h
  cases buf with
  | nil => cases h
  | cons b bytes =>
    have hc : bytes.length ≤ (b :: bytes).length := by simp
    dsimp only at h
    split_ifs at h
    · cases h
      exact le_refl _
    · cases bytes with
      | nil => cases h
      | cons => grind
    · cases h
      exact hc
    · exact (hlg h).trans hc
    · cases h
      exact hc
    · exact (hlg h).trans hc

lemma decodeHeader_length_le {header : Bool × Nat} (h : decodeHeader buf = .ok (header, rest)) :
    rest.length ≤ buf.length := by
  unfold decodeHeader at h
  cases hr : decodeHeaderRaw buf with
  | error => simp [hr] at h
  | ok =>
    simp [hr] at h
    split_ifs at h
    cases h
    exact decodeHeaderRaw_length_le hr

lemma decodeString_length_le (h : decodeString buf = .ok (bs, rest)) :
    bs.length ≤ buf.length := by
  unfold decodeString at h
  cases hhe : decodeHeader buf with
  | error => simp [hhe] at h
  | ok out =>
    simp [hhe] at h
    split_ifs at h
    cases h
    have hle := decodeHeader_length_le hhe
    rw [length_take]
    omega

lemma length_le_encodeString (bs : Bytes) : bs.length ≤ (encodeString bs).length := by
  by_cases ho : bs.length = 1
  · obtain ⟨b, rfl⟩ := length_eq_one_iff.mp ho
    unfold encodeString
    dsimp only
    split_ifs <;> simp
  · rw [encodeString_of_length ho, length_append]
    exact le_add_left _ _

lemma encodeHeader_length_le (list : Bool) (len : Nat) : (encodeHeader list len).length ≤ 9 := by
  have hle := stripZeros_length_le (toBe 8 len)
  rw [toBe_length] at hle
  unfold encodeHeader
  split_ifs <;> simp <;> omega

/-! ### Minimal big-endian bytes -/

lemma ofBe_ge_of_head {b : UInt8} (hb : b ≠ 0) : 256 ^ bs.length ≤ ofBe (b :: bs) := by
  have hp : 0 < b.toNat := by
    refine Nat.pos_of_ne_zero fun hzr => hb ?_
    exact UInt8.toNat_inj.mp hzr
  calc 256 ^ bs.length ≤ b.toNat * 256 ^ bs.length := Nat.le_mul_of_pos_left _ hp
    _ ≤ ofBe (b :: bs) := by rw [ofBe_cons]; omega

lemma length_le_of_head (hhd : bs.head? ≠ some 0) (h : ofBe bs < 256 ^ k) : bs.length ≤ k := by
  cases bs with
  | nil => exact Nat.zero_le k
  | cons b =>
    have hb : b ≠ 0 := by simpa using hhd
    exact (Nat.pow_lt_pow_iff_right (by norm_num)).mp ((ofBe_ge_of_head hb).trans_lt h)

lemma eq_of_ofBe_eq (ha : a.head? ≠ some 0) (hb : b.head? ≠ some 0) (h : ofBe a = ofBe b) :
    a = b := by
  have hle := length_le_of_head ha (h ▸ ofBe_lt b)
  have hge := length_le_of_head hb (h ▸ ofBe_lt a)
  rw [← toBe_ofBe a, ← toBe_ofBe b, h, le_antisymm hle hge]

lemma stripZeros_toBe_width {w' : Nat} (h : n < 256 ^ w) (h' : n < 256 ^ w') :
    stripZeros (toBe w n) = stripZeros (toBe w' n) := by
  refine eq_of_ofBe_eq (stripZeros_head _) (stripZeros_head _) ?_
  rw [ofBe_stripZeros, ofBe_stripZeros, ofBe_toBe_of_lt h, ofBe_toBe_of_lt h']

lemma stripZeros_of_head (h : bs.head? ≠ some 0) : stripZeros bs = bs :=
  eq_of_ofBe_eq (stripZeros_head bs) h (ofBe_stripZeros bs)

lemma stripZeros_arr_iff {a : Arr (n + 1)} :
    stripZeros a.toList = a.toList ↔ 256 ^ n ≤ ofBe a.toList := by
  have hl := length_toList a
  constructor
  · intro hs
    by_contra hlt
    have hle := length_le_of_head (stripZeros_head a.toList)
      (by rw [ofBe_stripZeros]; exact not_le.mp hlt)
    rw [hs, hl] at hle
    omega
  · intro hge
    refine stripZeros_of_head fun hhd => ?_
    obtain ⟨bs, hbs⟩ := head?_eq_some_iff.mp hhd
    have hlt := ofBe_lt bs
    rw [hbs, ofBe_zero_cons] at hge
    rw [hbs, length_cons] at hl
    rw [show bs.length = n by omega] at hlt
    omega

lemma stripZeros_toBe_length_le (hw : n < 256 ^ w) (h : n < 256 ^ k) :
    (stripZeros (toBe w n)).length ≤ k := by
  refine length_le_of_head (stripZeros_head _) ?_
  rwa [ofBe_stripZeros, ofBe_toBe_of_lt hw]

lemma lt_stripZeros_toBe_length (hw : n < 256 ^ w) (h : 256 ^ k ≤ n) :
    k < (stripZeros (toBe w n)).length := by
  have hlt := ofBe_lt (stripZeros (toBe w n))
  rw [ofBe_stripZeros, ofBe_toBe_of_lt hw] at hlt
  exact (Nat.pow_lt_pow_iff_right (by norm_num)).mp (h.trans_lt hlt)

lemma encodeHeader_length {list : Bool} (hl : len < 256 ^ (k + 1)) (hk : k < 8)
    (hlg : 256 ^ k ≤ len) (h56 : 56 ≤ len) : (encodeHeader list len).length = k + 2 := by
  have hw := hl.trans_le (Nat.pow_le_pow_right (by norm_num) hk)
  have hle := stripZeros_toBe_length_le hw hl
  have hlt := lt_stripZeros_toBe_length hw hlg
  rw [encodeHeader, if_neg (by omega), length_cons]
  omega

lemma encodeString_length_le (bs : Bytes) : (encodeString bs).length ≤ bs.length + 9 := by
  unfold encodeString
  split
  next b =>
    split_ifs
    · simp
    · simp [encodeHeader]
  next =>
    rw [length_append]
    have := encodeHeader_length_le false bs.length
    omega

/-! ### Lengths -/

lemma encodeHeader_length_eq (list : Bool) (len : Nat) :
    (encodeHeader list len).length = lengthOfLength len := by
  unfold encodeHeader lengthOfLength
  split_ifs <;> simp [add_comm]

@[simp] lemma listLength_eq (payload : Bytes) :
    listLength payload.length = (encodeList payload).length := by
  rw [listLength, encodeList, length_append, encodeHeader_length_eq]

@[simp] lemma stringLength_eq (bs : Bytes) : stringLength bs = (encodeString bs).length := by
  unfold stringLength encodeString
  split
  next b =>
    split_ifs
    · rfl
    · rfl
  next => rw [length_append, encodeHeader_length_eq, add_comm]

lemma uintLength_eq (hn : n < 256 ^ w) (hw : w ≤ 55) :
    uintLength w n = (encodeUint w n).length := by
  have hle := stripZeros_length_le (toBe w n)
  have hv : ofBe (stripZeros (toBe w n)) = n := by
    rw [ofBe_stripZeros, ofBe_toBe_of_lt hn]
  have hhd := stripZeros_head (toBe w n)
  rw [toBe_length] at hle
  rw [encodeUint, uintLength]
  generalize stripZeros (toBe w n) = be at hle hv hhd ⊢
  match be with
  | [] =>
    have hzr : n = 0 := by simpa using hv.symm
    rw [if_pos (by omega)]
    rfl
  | [b] =>
    have hb : b.toNat = n := by simpa [ofBe] using hv
    simp only [encodeString, lt_iff_toNat_lt, hb, length_singleton]
    split_ifs
    · rfl
    · exact absurd ‹n < 0x80› ‹¬ _›
    · exact absurd ‹_› ‹¬ n < 0x80›
    · rfl
  | b :: b' :: bs =>
    have hbg : 256 ≤ n := by
      calc 256 ≤ 256 ^ (b' :: bs).length := le_self_pow (by simp) 256
        _ ≤ n := hv ▸ ofBe_ge_of_head (by simpa using hhd)
    rw [if_neg (by omega), encodeString_of_length (by simp), length_append,
      encodeHeader_length_eq, lengthOfLength, if_pos (by omega)]

@[simp] lemma u64Length_eq (x : UInt64) : u64Length x = (encodeU64 x).length :=
  uintLength_eq x.toNat_lt (by decide)

@[simp] lemma u8Length_eq (x : UInt8) : u8Length x = (encodeU8 x).length :=
  uintLength_eq x.toNat_lt (by decide)

lemma length_le_encodeList (payload : Bytes) : payload.length ≤ (encodeList payload).length := by
  rw [encodeList, length_append]
  exact le_add_left _ _

lemma payload_lt {p : Bytes} (h : (encodeList p).length < 2 ^ 64) : p.length < 2 ^ 64 :=
  lt_of_le_of_lt (length_le_encodeList p) h

lemma length_le_flatMap {enc : α → Bytes} {l : List α} {a : α} (ha : a ∈ l) :
    (enc a).length ≤ (l.flatMap enc).length := by
  obtain ⟨s, t, rfl⟩ := append_of_mem ha
  simp [flatMap_append]
  omega

lemma encodeList_head (p : Bytes) : ∃ b rest, encodeList p = b :: rest ∧ 0xC0 ≤ b.toNat := by
  obtain ⟨b, rest, hhd, hb, -⟩ := encodeHeader_list_shape p.length
  exact ⟨b, rest ++ p, by rw [encodeList, hhd, cons_append], hb⟩

end Aii.Common.Rlp
