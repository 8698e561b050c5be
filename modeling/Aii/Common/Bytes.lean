/-
Aii.Common.Bytes — byte strings, fixed-length byte arrays and big-endian
integers.

`toBe` and `ofBe` are inverse up to the width (`ofBe_toBe`, `toBe_ofBe`).
-/
import Mathlib.Data.Finset.Card
import Mathlib.Data.List.Induction
import Mathlib.Data.Vector.Basic
import Mathlib.Tactic.Positivity
import Mathlib.Tactic.Ring

namespace Aii.Common

open List UInt8 Finset Nat

/-- A byte string (`Vec<u8>`, `&[u8]`). -/
abbrev Bytes := List UInt8

/-- A byte array of fixed length (`[u8; n]`). -/
abbrev Arr (n : Nat) := List.Vector UInt8 n

/-- A byte-string literal (`b"..."`) of ASCII characters. -/
def ascii (cs : List Char) : Bytes := cs.map fun ch => UInt8.ofNat ch.toNat

/-- The array of `n` zero bytes. -/
def Arr.zero (n : Nat) : Arr n := List.Vector.replicate n 0

/-- The bytes as an array, if there are exactly `n` of them. -/
def arr? (n : Nat) (bs : Bytes) : Option (Arr n) :=
  if h : bs.length = n then some ⟨bs, h⟩ else none

variable {n : Nat} {bs : Bytes} {a : Arr n} {w : Nat} {α : Type} {l : List α}

@[simp] lemma length_toList (a : Arr n) : a.toList.length = n := a.toList_length

lemma toList_inj {b : Arr n} : a.toList = b.toList ↔ a = b :=
  ⟨fun h => Subtype.ext h, fun h => h ▸ rfl⟩

@[simp] lemma arr?_toList (a : Arr n) : arr? n a.toList = some a := by
  rw [arr?, dif_pos (length_toList a)]
  rfl

lemma arr?_eq_some_iff : arr? n bs = some a ↔ a.toList = bs := by
  constructor
  · intro h
    unfold arr? at h
    split_ifs at h with hl
    exact congrArg List.Vector.toList (Option.some.inj h).symm
  · rintro rfl
    exact arr?_toList a

/-- A bounded quantifier over an option looks into the option. The arrays
form a finite type, and for those the library would rather list the type. -/
instance decidableForallMemOption {α : Type} {P : α → Prop} [DecidablePred P] :
    (o : Option α) → Decidable (∀ a ∈ o, P a)
  | none => isTrue nofun
  | some a => decidable_of_iff (P a) (by simp)

/-- `n` as `w` big-endian bytes (reduced modulo `256 ^ w`). -/
def toBe : Nat → Nat → Bytes
  | 0, _ => []
  | w + 1, n => UInt8.ofNat (n / 256 ^ w) :: toBe w n

/-- The number a big-endian byte string denotes. -/
def ofBe (bs : Bytes) : Nat :=
  bs.foldl (fun acc b => acc * 256 + b.toNat) 0

@[simp] lemma toBe_length (w n : Nat) : (toBe w n).length = w := by
  induction w generalizing n with
  | zero => rfl
  | succ _ ih => simp [toBe, ih]

@[simp] lemma ofBe_nil : ofBe [] = 0 := rfl

lemma ofBe_append_singleton (bs : Bytes) (b : UInt8) :
    ofBe (bs ++ [b]) = ofBe bs * 256 + b.toNat := by
  simp [ofBe, foldl_append]

lemma ofBe_append (a b : Bytes) : ofBe (a ++ b) = ofBe a * 256 ^ b.length + ofBe b := by
  induction b using reverseRecOn with
  | nil => simp
  | append_singleton _ _ ih =>
    rw [← append_assoc, ofBe_append_singleton, ofBe_append_singleton, ih,
      length_append, length_singleton]
    ring

lemma ofBe_lt (bs : Bytes) : ofBe bs < 256 ^ bs.length := by
  induction bs using reverseRecOn with
  | nil => simp
  | append_singleton _ b =>
    have hb := b.toNat_lt
    rw [ofBe_append_singleton, length_append, length_singleton, pow_succ]
    omega

lemma ofBe_cons (b : UInt8) (bs : Bytes) :
    ofBe (b :: bs) = b.toNat * 256 ^ bs.length + ofBe bs := by
  rw [← singleton_append, ofBe_append]
  simp [ofBe]

/-- Bytes of one length are ordered as the numbers they spell. -/
lemma compare_ofBe {a b : Bytes} (h : a.length = b.length) :
    compare (ofBe a) (ofBe b) = compare a b := by
  induction a generalizing b with
  | nil => grind
  | cons x a ih =>
    cases b with
    | nil => simp at h
    | cons y b =>
      have hl : a.length = b.length := by simpa using h
      have ha := ofBe_lt a
      have hb := ofBe_lt b
      rw [hl] at ha
      rw [List.compare_cons_cons, ← ih hl, ofBe_cons, ofBe_cons, hl]
      generalize 256 ^ b.length = w at ha hb
      have hsp : ∀ m n : Nat, m < n → m * w + w ≤ n * w := fun m n hmn => by
        rw [← Nat.succ_mul]; exact Nat.mul_le_mul_right w hmn
      rcases Nat.lt_trichotomy x.toNat y.toNat with hlt | heq | hgt
      · have hle := hsp _ _ hlt
        rw [Std.compare_eq_lt.mpr (lt_iff_toNat_lt.mpr hlt), Nat.compare_eq_lt.mpr (by omega)]
        rfl
      · obtain rfl := UInt8.toNat_inj.mp heq
        simp [Nat.compare_eq_ite_lt]
      · have hle := hsp _ _ hgt
        rw [Std.compare_eq_gt.mpr (lt_iff_toNat_lt.mpr hgt), Nat.compare_eq_gt.mpr (by omega)]
        rfl

/-- Writing and reading back reduces modulo the width. -/
lemma ofBe_toBe (w n : Nat) : ofBe (toBe w n) = n % 256 ^ w := by
  induction w with
  | zero => simp [toBe, mod_one]
  | succ w ih =>
    have hbe : (ofNat (n / 256 ^ w)).toNat = n / 256 ^ w % 256 := toNat_ofNat'
    rw [toBe, ofBe_cons, ih, hbe, toBe_length, mod_pow_succ]
    ring

lemma ofBe_toBe_of_lt (h : n < 256 ^ w) : ofBe (toBe w n) = n := by
  rw [ofBe_toBe, mod_eq_of_lt h]

lemma toBe_mul_add (w a n : Nat) : toBe w (a * 256 ^ w + n) = toBe w n := by
  induction w generalizing a with
  | zero => rfl
  | succ w ih =>
    have hp : a * 256 ^ (w + 1) = a * 256 * 256 ^ w := by ring
    have hd : (a * 256 * 256 ^ w + n) / 256 ^ w = a * 256 + n / 256 ^ w := by
      rw [add_comm, add_mul_div_right _ _ (by positivity), add_comm]
    have hbe : ofNat (a * 256 + n / 256 ^ w) = ofNat (n / 256 ^ w) := by simp_all
    rw [hp, toBe, toBe, hd, hbe, ih]

/-- Reading and writing back at the same width is the identity. -/
lemma toBe_ofBe (bs : Bytes) : toBe bs.length (ofBe bs) = bs := by
  induction bs with
  | nil => rfl
  | cons b bs ih =>
    have hd : (b.toNat * 256 ^ bs.length + ofBe bs) / 256 ^ bs.length = b.toNat := by
      rw [add_comm, add_mul_div_right _ _ (by positivity), div_eq_of_lt (ofBe_lt bs), zero_add]
    rw [length_cons, toBe, ofBe_cons, hd, UInt8.ofNat_toNat, toBe_mul_add, ih]

/-- Two numbers that fit the width and write the same bytes are equal. -/
lemma toBe_inj {m : Nat} (hm : m < 256 ^ w) (hn : n < 256 ^ w) (h : toBe w m = toBe w n) :
    m = n := by
  rw [← ofBe_toBe_of_lt hm, h, ofBe_toBe_of_lt hn]

lemma exists_arr_notMem (l : List (Arr n)) (h : l.length < 256 ^ n) : ∃ a : Arr n, a ∉ l := by
  let write (x : Nat) : Arr n := ⟨toBe n x, toBe_length n x⟩
  have hi : Set.InjOn write (range (256 ^ n)) := by
    intro x hx y hy hxy
    exact toBe_inj (Finset.mem_range.mp hx) (Finset.mem_range.mp hy) (congrArg Subtype.val hxy)
  have hc : l.toFinset.card < ((Finset.range (256 ^ n)).image write).card := by
    rw [Finset.card_image_of_injOn hi, Finset.card_range]
    exact lt_of_le_of_lt l.toFinset_card_le h
  obtain ⟨a, -, ha⟩ := Finset.exists_mem_notMem_of_card_lt_card hc
  exact ⟨a, fun hm => ha (mem_toFinset.mpr hm)⟩

/-- `u64::to_be_bytes`. -/
def u64Be (x : UInt64) : Bytes := toBe 8 x.toNat

/-- `u32::to_be_bytes`. -/
def u32Be (x : UInt32) : Bytes := toBe 4 x.toNat

@[simp] lemma u64Be_length (x : UInt64) : (u64Be x).length = 8 := toBe_length 8 _

@[simp] lemma u32Be_length (x : UInt32) : (u32Be x).length = 4 := toBe_length 4 _

lemma u64Be_inj {x y : UInt64} (h : u64Be x = u64Be y) : x = y :=
  UInt64.toNat_inj.mp (toBe_inj x.toNat_lt y.toNat_lt h)

lemma u32Be_inj {x y : UInt32} (h : u32Be x = u32Be y) : x = y :=
  UInt32.toNat_inj.mp (toBe_inj x.toNat_lt y.toNat_lt h)

/-- `u64::from_be_bytes`. -/
def u64OfBe (bs : Bytes) : UInt64 := UInt64.ofNat (ofBe bs)

/-- `u32::from_be_bytes`. -/
def u32OfBe (bs : Bytes) : UInt32 := UInt32.ofNat (ofBe bs)

lemma u64Be_u64OfBe (h : bs.length = 8) : u64Be (u64OfBe bs) = bs := by
  have hlt : ofBe bs < 2 ^ 64 := by
    have hlt := ofBe_lt bs
    rwa [h] at hlt
  rw [u64Be, u64OfBe, UInt64.toNat_ofNat', mod_eq_of_lt hlt, ← h, toBe_ofBe]

lemma u32Be_u32OfBe (h : bs.length = 4) : u32Be (u32OfBe bs) = bs := by
  have hlt : ofBe bs < 2 ^ 32 := by
    have hlt := ofBe_lt bs
    rwa [h] at hlt
  rw [u32Be, u32OfBe, UInt32.toNat_ofNat', mod_eq_of_lt hlt, ← h, toBe_ofBe]

@[simp] lemma u64OfBe_u64Be (x : UInt64) : u64OfBe (u64Be x) = x := by
  rw [u64OfBe, u64Be, ofBe_toBe_of_lt x.toNat_lt, UInt64.ofNat_toNat]

@[simp] lemma u32OfBe_u32Be (x : UInt32) : u32OfBe (u32Be x) = x := by
  rw [u32OfBe, u32Be, ofBe_toBe_of_lt x.toNat_lt, UInt32.ofNat_toNat]

@[simp] lemma ofNat_ofBe_toBe (x : BitVec 256) : BitVec.ofNat 256 (ofBe (toBe 32 x.toNat)) = x := by
  rw [ofBe_toBe_of_lt x.isLt, BitVec.ofNat_toNat, BitVec.setWidth_eq]

lemma append_field_inj {a b c d : Bytes} (hl : a.length = b.length)
    (h : a ++ c = b ++ d) : a = b ∧ c = d :=
  append_inj h hl

/-- Neither extends the other. -/
def Apart (p q : Bytes) : Prop := ¬ (p <+: q ∨ q <+: p)
deriving Decidable

lemma prefix_excludes {p q k : Bytes} (hp : p <+: k) (h : Apart p q) : ¬ q <+: k :=
  fun hq => h <| prefix_or_prefix_of_prefix hp hq

lemma drop_flatMap {f : α → Bytes} (h : ∀ a ∈ l, (f a).length = n) (i : Nat) :
    (l.flatMap f).drop (i * n) = (l.drop i).flatMap f := by
  induction i generalizing l with
  | zero => simp
  | succ _ ih =>
    cases l with
    | nil => simp
    | cons =>
      obtain ⟨ha, hl⟩ := forall_mem_cons.mp h
      rw [succ_mul, add_comm, ← drop_drop, flatMap_cons, drop_left' ha, ih hl, drop_succ_cons]

lemma flatMap_toList_inj (hn : 0 < n) {l l' : List (Arr n)}
    (h : l.flatMap List.Vector.toList = l'.flatMap List.Vector.toList) : l = l' := by
  have hp : ∀ a : Arr n, a.toList ≠ [] := fun a hnl => by
    have hl := length_toList a
    rw [hnl, length_nil] at hl
    omega
  induction l generalizing l' with
  | nil =>
    cases l' with
    | nil => rfl
    | cons b => simp [hp b] at h
  | cons a _ ih =>
    cases l' with
    | nil => simp [hp a] at h
    | cons =>
      rw [flatMap_cons, flatMap_cons] at h
      obtain ⟨hab, hrs⟩ := append_field_inj (by rw [length_toList, length_toList]) h
      rw [toList_inj.mp hab, ih hrs]

lemma range_mapM {f : Nat → Option α} (h : ∀ i (hi : i < l.length), f i = some l[i]) :
    (List.range l.length).mapM f = some l := by
  induction l using List.reverseRecOn with
  | nil => rfl
  | append_singleton l a ih =>
    have hin : (List.range l.length).mapM f = some l := by grind
    have hlast : f l.length = some a := by
      rw [h l.length (by simp)]
      simp
    rw [length_append, length_singleton, range_succ, mapM_append, hin]
    simp [hlast]

lemma bind_ok {ε α β : Type} {x : Except ε α} {f : α → Except ε β} {b : β} :
    (x >>= f) = .ok b ↔ ∃ a, x = .ok a ∧ f a = .ok b := by
  cases x <;> simp [bind, Except.bind]

end Aii.Common
