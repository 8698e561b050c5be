/-
Aii.Chain.YellowPaper — the Merkle Patricia root of the Yellow Paper
(Appendix C for the hex-prefix form, Appendix D for the tree).

`Composed c I t` says that `t` is the node structure `c(I, 0)` of the SET
`I` of entries.
-/
import Aii.Common.Entries
import Aii.Common.RlpTree
import Aii.Crypto

namespace Aii.Chain.YellowPaper

open Common Common.Rlp Common.Entries

/-- A nibble key and its value. -/
abbrev Entry := List UInt8 × Bytes

def nibbles (bs : Bytes) : List UInt8 := bs.flatMap fun b => [b / 16, b % 16]

/-- Two nibbles a byte. -/
def pack : List UInt8 → Bytes
  | a :: b :: rest => (16 * a + b) :: pack rest
  | _ => []

/-- The flag `f(t)`: 2 for a leaf, 0 for an extension. -/
def flag (t : Bool) : UInt8 := if t then 2 else 0

/-- `HP(x, t)`. -/
def hp (x : List UInt8) (t : Bool) : Bytes :=
  match x with
  | [] => [16 * flag t]
  | n :: rest =>
    if x.length % 2 = 1 then (16 * (flag t + 1) + n) :: pack rest
    else 16 * flag t :: pack x

variable (c : Crypto) {I : Set Entry} {t t' : RlpTree}

/-- The node cap function `n`: what a node writes for a child. -/
def ref : Option RlpTree → RlpTree
  | none => .str []
  | some t => if t.encode.length < 32 then t else .str (c.keccak256 t.encode).toList

/-- The structural composition function `c`. -/
inductive Composed : Set Entry → RlpTree → Prop
  | leaf (k : List UInt8) (v : Bytes) : Composed {(k, v)} (.list [.str (hp k true), .str v])
  | extension {p : List UInt8} {I : Set Entry} {t : RlpTree} (path : p ≠ [])
    (several : I.Nontrivial) (longest : ¬ Shared I) (child : Composed I t) :
    Composed (under p '' I) (.list [.str (hp p false), ref c (some t)])
  | branch {I : Set Entry} {children : Fin 16 → Option RlpTree} {value : Bytes}
    (several : I.Nontrivial) (split : ¬ Shared I)
    (present : ∀ a t, children a = some t → Composed (after [UInt8.ofNat a] I) t)
    (absent : ∀ a, children a = none → after [UInt8.ofNat a] I = ∅)
    (stored : ∀ v, ([], v) ∈ I → value = v) (unset : (∀ v, ([], v) ∉ I) → value = []) :
    Composed I (.list (List.ofFn (fun a => ref c (children a)) ++ [.str value]))

def entries (m : Bytes → Option Bytes) : Set Entry := {e | ∃ k, e.1 = nibbles k ∧ m k = some e.2}

/-- `TRIE`: the root hash of a map. The empty map has the hash of the
empty string's encoding. -/
def IsRoot (m : Bytes → Option Bytes) (h : H256) : Prop :=
  (entries m = ∅ ∧ h = c.keccak256 [0x80]) ∨
    ∃ t, Composed c (entries m) t ∧ h = c.keccak256 t.encode

variable {c}

lemma Composed.nonempty (h : Composed c I t) : I.Nonempty := by
  cases h with
  | leaf => exact Set.singleton_nonempty _
  | extension _ several => exact several.nonempty.image _
  | branch several => exact several.nonempty

lemma Composed.unique_of_eq {I' : Set Entry} (h : Composed c I t) (h' : Composed c I' t')
    (heq : I = I') : t = t' := by
  induction h generalizing I' t' with
  | leaf =>
    cases h' with
    | leaf => simp_all
    | @extension p _ _ _ several =>
      have hi := several.image (under_injective p)
      exact absurd (heq ▸ hi) Set.not_nontrivial_singleton
    | branch several => exact absurd (heq ▸ several) Set.not_nontrivial_singleton
  | @extension p I _ path several longest _ ih =>
    cases h' with
    | leaf =>
      exact absurd (heq ▸ several.image (under_injective p)) Set.not_nontrivial_singleton
    | @extension _ _ _ _ _ longest' child' =>
      obtain ⟨rfl, hI⟩ := under_image_cancel several.nonempty longest longest' heq
      rw [ih child' hI]
    | branch _ split => exact absurd (heq ▸ shared_under_image path I) split
  | @branch I children value several split present absent stored unset ih =>
    cases h' with
    | leaf => exact absurd (heq ▸ several) Set.not_nontrivial_singleton
    | @extension _ I' _ path' => exact absurd (heq ▸ shared_under_image path' I') split
    | @branch _ children' value' _ _ present' absent' stored' unset' =>
      subst heq
      have hc : children = children' := by
        funext a
        cases ha : children a with
        | none =>
          cases ha' : children' a with
          | none => rfl
          | some t' => exact absurd (absent a ha) (present' a t' ha').nonempty.ne_empty
        | some t =>
          cases ha' : children' a with
          | none => exact absurd (absent' a ha') (present a t ha).nonempty.ne_empty
          | some t' => rw [ih a t ha (present' a t' ha') rfl]
      have hvl : value = value' := by
        by_cases hv : ∃ v, ([], v) ∈ I
        · grind
        · grind
      rw [hc, hvl]

lemma Composed.unique (h : Composed c I t) (h' : Composed c I t') : t = t' :=
  h.unique_of_eq h' rfl

lemma IsRoot.unique {m : Bytes → Option Bytes} {h h' : H256} (hm : IsRoot c m h)
    (hm' : IsRoot c m h') : h = h' := by
  rcases hm with ⟨hem, rfl⟩ | ⟨t, ht, rfl⟩ <;> rcases hm' with ⟨hem', rfl⟩ | ⟨t', ht', rfl⟩
  · rfl
  · exact absurd hem ht'.nonempty.ne_empty
  · exact absurd hem' ht.nonempty.ne_empty
  · rw [ht.unique ht']

end Aii.Chain.YellowPaper
