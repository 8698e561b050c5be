/-
Aii.Common.WireLanguage — the byte strings an encoder writes, as a formal
language.

`Writes ok enc L`: the language `L` is what `enc` writes for the values
that satisfy `ok`.
-/
import Aii.Common.RlpItems
import Mathlib.Computability.Language

namespace Aii.Common.Rlp

open List Language

/-- One string item around a word of `L`. -/
def stringItem (L : Language UInt8) : Language UInt8 :=
  {bytes : Bytes | ∃ content ∈ L, encodeString content = bytes}

/-- One list item around a word of `L`; its header gives the length of the
word. -/
def listItem (L : Language UInt8) : Language UInt8 :=
  {bytes : Bytes | ∃ payload ∈ L, encodeList payload = bytes}

/-- At most `w` bytes, the first of which is not zero. -/
def minimal (w : Nat) : Language UInt8 :=
  {bytes : Bytes | bytes.length ≤ w ∧ bytes.head? ≠ some 0}

/-- Exactly `n` bytes. -/
def ofLength (n : Nat) : Language UInt8 := {bytes : Bytes | bytes.length = n}

/-- At most `n` bytes. -/
def upToLength (n : Nat) : Language UInt8 := {bytes : Bytes | bytes.length ≤ n}

def anyBytes : Language UInt8 := {_bytes : Bytes | True}

/-- An integer item of at most `w` bytes, without leading zeros. -/
def uintItem (w : Nat) : Language UInt8 := stringItem (minimal w)

/-- A string item of exactly `n` bytes. -/
def fixedItem (n : Nat) : Language UInt8 := stringItem (ofLength n)

/-- The words of `L` are what `enc` writes for the values that are `ok`. -/
def Writes {α : Type} (ok : α → Prop) (enc : α → Bytes) (L : Language UInt8) : Prop :=
  ∀ bytes, bytes ∈ L ↔ ∃ x, ok x ∧ enc x = bytes

variable {α β : Type} {ok : α → Prop} {enc : α → Bytes} {L : Language UInt8}
  {ok' : β → Prop} {enc' : β → Bytes} {L' : Language UInt8}

namespace Writes

section Forms

variable (h : Writes ok enc L)

include h

lemma stringItem : Writes ok (fun x => encodeString (enc x)) (stringItem L) := by
  intro bytes
  constructor
  · rintro ⟨content, hc, rfl⟩
    obtain ⟨x, hx, rfl⟩ := (h content).mp hc
    exact ⟨x, hx, rfl⟩
  · rintro ⟨x, hx, rfl⟩
    exact ⟨enc x, (h _).mpr ⟨x, hx, rfl⟩, rfl⟩

lemma listItem : Writes ok (fun x => encodeList (enc x)) (listItem L) := by
  intro bytes
  constructor
  · rintro ⟨payload, hpy, rfl⟩
    obtain ⟨x, hx, rfl⟩ := (h payload).mp hpy
    exact ⟨x, hx, rfl⟩
  · rintro ⟨x, hx, rfl⟩
    exact ⟨enc x, (h _).mpr ⟨x, hx, rfl⟩, rfl⟩

lemma mul (h' : Writes ok' enc' L') :
    Writes (fun p : α × β => ok p.1 ∧ ok' p.2) (fun p => enc p.1 ++ enc' p.2) (L * L') := by
  intro bytes
  rw [mem_mul]
  constructor
  · rintro ⟨a, ha, b, hb, rfl⟩
    obtain ⟨x, hx, rfl⟩ := (h a).mp ha
    obtain ⟨y, hy, rfl⟩ := (h' b).mp hb
    exact ⟨(x, y), ⟨hx, hy⟩, rfl⟩
  · rintro ⟨⟨x, y⟩, ⟨hx, hy⟩, rfl⟩
    exact ⟨enc x, (h _).mpr ⟨x, hx, rfl⟩, enc' y, (h' _).mpr ⟨y, hy, rfl⟩, rfl⟩

lemma kstar :
    Writes (fun xs : List α => ∀ x ∈ xs, ok x) (fun xs => xs.flatMap enc) (KStar.kstar L) := by
  intro bytes
  rw [mem_kstar]
  constructor
  · rintro ⟨parts, rfl, hpt⟩
    induction parts with
    | nil => exact ⟨[], forall_mem_nil ok, rfl⟩
    | cons part _ ih =>
      obtain ⟨hp, hrs⟩ := forall_mem_cons.mp hpt
      obtain ⟨x, hx, hbt⟩ := (h part).mp hp
      obtain ⟨xs, hxs, hbt'⟩ := ih hrs
      refine ⟨x :: xs, forall_mem_cons.mpr ⟨hx, hxs⟩, ?_⟩
      simp only [flatMap_cons, flatten_cons, hbt, ← hbt']
  · rintro ⟨xs, hxs, rfl⟩
    refine ⟨xs.map enc, flatMap_def, ?_⟩
    intro part hp
    obtain ⟨x, hx, rfl⟩ := mem_map.mp hp
    exact (h _).mpr ⟨x, hxs x hx, rfl⟩

lemma optional : Writes (fun o : Option α => ∀ x ∈ o, ok x) (fun o => o.elim [] enc) (1 + L) := by
  intro bytes
  rw [mem_add, mem_one]
  constructor
  · rintro (rfl | hbt)
    · exact ⟨none, by simp, rfl⟩
    · obtain ⟨x, hx, rfl⟩ := (h bytes).mp hbt
      exact ⟨some x, by simpa using hx, rfl⟩
  · rintro ⟨o, ho, rfl⟩
    cases o with
    | none => exact .inl rfl
    | some x => exact .inr ((h _).mpr ⟨x, ho x rfl, rfl⟩)

lemma map (f : α → β) (hok : ∀ x, ok x → ok' (f x)) (hs : ∀ y, ok' y → ∃ x, ok x ∧ f x = y)
    (he : ∀ x, enc' (f x) = enc x) :
    Writes ok' enc' L := by
  intro bytes
  rw [h bytes]
  constructor
  · grind
  · grind

end Forms

/-- **What comes back.** For bytes that are accepted in full, the encoder
gives the same bytes exactly if they are a word. -/
lemma reproduces_iff {d : Decoder α} (h : Writes ok enc L)
    (hread : ∀ x, ok x → (enc x).length < 2 ^ 64 → d (enc x) = .ok (x, []))
    (he : Decoder.Ensures d ok) {bytes : Bytes} {x : α} (hlt : bytes.length < 2 ^ 64)
    (hd : d bytes = .ok (x, [])) : enc x = bytes ↔ bytes ∈ L := by
  rw [h bytes]
  constructor
  · intro hsm
    exact ⟨x, he _ _ _ hd, hsm⟩
  · grind

end Writes

def always {α : Type} (_ : α) : Prop := True

lemma ensures_always (d : Decoder α) : Decoder.Ensures d always := fun _ _ _ _ => trivial

lemma writes_minimal {w : Nat} {toNat : α → Nat} (hlt : ∀ x, toNat x < 256 ^ w)
    (hs : ∀ n, n < 256 ^ w → ∃ x, toNat x = n) :
    Writes always (fun x => stripZeros (toBe w (toNat x))) (minimal w) := by
  intro bytes
  constructor
  · rintro ⟨hl, hhd⟩
    have hsm : ofBe bytes < 256 ^ w :=
      (ofBe_lt bytes).trans_le (Nat.pow_le_pow_right (by decide) hl)
    obtain ⟨x, hx⟩ := hs _ hsm
    refine ⟨x, trivial, eq_of_ofBe_eq (stripZeros_head _) hhd ?_⟩
    rw [ofBe_stripZeros, ofBe_toBe_of_lt (hlt x), hx]
  · rintro ⟨x, -, rfl⟩
    refine ⟨?_, stripZeros_head _⟩
    have hle := stripZeros_length_le (toBe w (toNat x))
    rwa [toBe_length] at hle

lemma writes_u64 : Writes always encodeU64 (uintItem 8) :=
  (writes_minimal UInt64.toNat_lt fun n hn =>
    ⟨UInt64.ofNat n, UInt64.toNat_ofNat_of_lt' hn⟩).stringItem

lemma writes_u8 : Writes always encodeU8 (uintItem 1) :=
  (writes_minimal UInt8.toNat_lt fun n hn =>
    ⟨UInt8.ofNat n, UInt8.toNat_ofNat_of_lt' hn⟩).stringItem

lemma writes_u256 : Writes always encodeU256 (uintItem 32) :=
  (writes_minimal BitVec.isLt fun n hn =>
    ⟨BitVec.ofNat 256 n, by rw [BitVec.toNat_ofNat]; exact Nat.mod_eq_of_lt hn⟩).stringItem

lemma writes_arr (n : Nat) :
    Writes always (fun a : Arr n => encodeString a.toList) (fixedItem n) := by
  refine Writes.stringItem fun bytes => ?_
  constructor
  · intro hl
    exact ⟨⟨bytes, hl⟩, trivial, rfl⟩
  · rintro ⟨a, -, rfl⟩
    exact length_toList a

lemma writes_bytes : Writes always encodeString (stringItem anyBytes) :=
  Writes.stringItem fun bytes => ⟨fun _ => ⟨bytes, trivial, rfl⟩, fun _ => trivial⟩

lemma writes_upToLength (n : Nat) :
    Writes (fun bs : Bytes => bs.length ≤ n) encodeString (stringItem (upToLength n)) :=
  Writes.stringItem fun bytes => ⟨fun h => ⟨bytes, h, rfl⟩, by rintro ⟨bs, hbs, rfl⟩; exact hbs⟩

end Aii.Common.Rlp
