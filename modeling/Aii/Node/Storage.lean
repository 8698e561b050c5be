/-
Aii.Node.Storage — the key-value store (`aii-storage`).

A backend is one ordered map per COLUMN FAMILY; I/O failures of RocksDB
are not modelled.
-/
import Aii.Common.Bytes
import Aii.Common.OrderedMap

namespace Aii.Node

open Common Common.OrderedMap List Std.ExtTreeMap

inductive ColumnFamily where
  | default
  | headers
  | bodies
  | receipts
  | transactions
  | state
  | accountStorage
  | txLookup
  | metaCf
  | microChain
  | code
  deriving DecidableEq

/-- The contents of one column family. -/
abbrev CfMap := Std.ExtTreeMap Bytes Bytes

/-- `KvBackend`. -/
@[ext] structure Backend where
  cf : ColumnFamily → CfMap

namespace Backend

def empty : Backend := ⟨fun _ => ∅⟩

def setCf (b : Backend) (cf : ColumnFamily) (m : CfMap) : Backend :=
  ⟨fun cf' => if cf' = cf then m else b.cf cf'⟩

def get (b : Backend) (cf : ColumnFamily) (key : Bytes) : Option Bytes := (b.cf cf)[key]?

def put (b : Backend) (cf : ColumnFamily) (key value : Bytes) : Backend :=
  b.setCf cf ((b.cf cf).insert key value)

def delete (b : Backend) (cf : ColumnFamily) (key : Bytes) : Backend :=
  b.setCf cf ((b.cf cf).erase key)

/-- One operation of a `WriteBatch`; the modelled code batches only puts. -/
structure Op where
  cf : ColumnFamily
  key : Bytes
  value : Bytes

def write (b : Backend) (batch : List Op) : Backend :=
  batch.foldl (fun b op => b.put op.cf op.key op.value) b

/-- `iter`: every entry, in ascending key order. -/
def iter (b : Backend) (cf : ColumnFamily) : List (Bytes × Bytes) := (b.cf cf).toList

/-- `iter_prefix`: the entries whose key starts with `pre`. -/
def iterPrefix (b : Backend) (cf : ColumnFamily) (pre : Bytes) : List (Bytes × Bytes) :=
  entriesWhere (b.cf cf) pre.isPrefixOf

variable {b b₁ b₂ : Backend} {cf cf' : ColumnFamily} {k k' v : Bytes}

@[simp] lemma cf_setCf_self (m : CfMap) : (b.setCf cf m).cf cf = m := if_pos rfl

lemma cf_setCf_ne (m : CfMap) (h : cf' ≠ cf) : (b.setCf cf m).cf cf' = b.cf cf' := if_neg h

@[simp] lemma get_put_self : (b.put cf k v).get cf k = some v := by
  rw [get, put, cf_setCf_self, getElem?_insert_self]

lemma get_put_ne (h : cf' = cf → k' ≠ k) : (b.put cf k v).get cf' k' = b.get cf' k' := by
  by_cases hcf : cf' = cf
  · subst hcf
    rw [get, put, cf_setCf_self, getElem?_insert_ne (h rfl).symm, get]
  · rw [get, put, cf_setCf_ne _ hcf, get]

@[simp] lemma get_delete_self : (b.delete cf k).get cf k = none := by
  rw [get, delete, cf_setCf_self, getElem?_erase_self]

lemma get_delete_ne (h : cf' = cf → k' ≠ k) : (b.delete cf k).get cf' k' = b.get cf' k' := by
  by_cases hcf : cf' = cf
  · subst hcf
    rw [get, delete, cf_setCf_self, getElem?_erase_ne (h rfl).symm, get]
  · rw [get, delete, cf_setCf_ne _ hcf, get]

lemma cf_put_ne (h : cf' ≠ cf) : (b.put cf k v).cf cf' = b.cf cf' := cf_setCf_ne _ h

lemma cf_delete_ne (h : cf' ≠ cf) : (b.delete cf k).cf cf' = b.cf cf' := cf_setCf_ne _ h

lemma put_of_get (h : b.get cf k = some v) : b.put cf k v = b := by
  refine Backend.ext (funext fun cf' => ?_)
  by_cases hcf : cf' = cf
  · subst hcf
    rw [put, cf_setCf_self, insert_of_getElem? h]
  · exact cf_put_ne hcf

lemma cf_write_ne {batch : List Op} (h : ∀ op ∈ batch, cf ≠ op.cf) :
    (b.write batch).cf cf = b.cf cf := by
  unfold write
  induction batch generalizing b with
  | nil => rfl
  | cons _ _ ih =>
    obtain ⟨hop, hrs⟩ := forall_mem_cons.mp h
    rw [foldl_cons, ih hrs, cf_put_ne hop]

lemma cf_write_once (before : List Op) (op : Op) {after : List Op}
    (hbf : ∀ o ∈ before, op.cf ≠ o.cf) (haf : ∀ o ∈ after, op.cf ≠ o.cf) :
    (b.write (before ++ op :: after)).cf op.cf = (b.cf op.cf).insert op.key op.value := by
  have hsi : b.write (before ++ op :: after) =
      ((b.write before).put op.cf op.key op.value).write after := by
    rw [write, foldl_append, foldl_cons]
    rfl
  rw [hsi, cf_write_ne haf, put, cf_setCf_self, cf_write_ne hbf]

lemma get_write_map {γ : Type} (l : List γ) (key value : γ → Bytes) :
    (b.write (l.map fun e => ⟨cf, key e, value e⟩)).get cf k =
      ((l.reverse.find? fun e => key e = k).map value).or (b.get cf k) := by
  have hcf : (b.write (l.map fun e => ⟨cf, key e, value e⟩)).cf cf =
      l.foldl (fun m e => m.insert (key e) (value e)) (b.cf cf) := by
    unfold write
    induction l generalizing b with
    | nil => rfl
    | cons _ _ ih =>
      rw [map_cons, foldl_cons, ih, put, cf_setCf_self]
      rfl
  rw [get, hcf, getElem?_foldl_insert_last, get]

lemma mem_iterPrefix {pre : Bytes} :
    (k, v) ∈ b.iterPrefix cf pre ↔ b.get cf k = some v ∧ pre <+: k := by
  rw [iterPrefix, mem_entriesWhere, isPrefixOf_iff_prefix, get]

/-- A scan for the numbers that follow a prefix finds those that have an entry. -/
lemma mem_suffixes {pre : Bytes} {n : UInt64} :
    n ∈ ((b.iterPrefix cf pre).filterMap fun e =>
      let suffix := e.1.drop pre.length
      if suffix.length ≠ 8 then none else some (u64OfBe suffix)) ↔
      ∃ v, b.get cf (pre ++ u64Be n) = some v := by
  rw [mem_filterMap]
  constructor
  · rintro ⟨⟨k, v⟩, hm, hread⟩
    obtain ⟨hg, _, rfl⟩ := mem_iterPrefix.mp hm
    dsimp only at hread
    rw [drop_left' rfl] at hread
    split_ifs at hread with hl
    cases hread
    exact ⟨v, by rw [u64Be_u64OfBe (not_not.mp hl), hg]⟩
  · rintro ⟨v, hg⟩
    refine ⟨(pre ++ u64Be n, v), mem_iterPrefix.mpr ⟨hg, prefix_append _ _⟩, ?_⟩
    simp

lemma iterPrefix_distinct (b : Backend) (cf : ColumnFamily) (pre : Bytes) :
    (b.iterPrefix cf pre).Pairwise fun e e' => e.1 ≠ e'.1 := by
  refine (entriesWhere_sorted _ _).imp ?_
  intro e e' hlt heq
  have hr : compare e'.1 e'.1 = .eq := Std.ReflCmp.compare_self
  rw [heq, hr] at hlt
  cases hlt

lemma mem_iter : (k, v) ∈ b.iter cf ↔ b.get cf k = some v := mem_toList_iff_getElem?_eq_some

/-- The two backends hold the same values under the keys of `K`. -/
def AgreeOn (K : ColumnFamily → Bytes → Prop) (b₁ b₂ : Backend) : Prop :=
  ∀ cf k, K cf k → b₁.get cf k = b₂.get cf k

section Agree

variable {K : ColumnFamily → Bytes → Prop}

lemma AgreeOn.refl (b : Backend) : AgreeOn K b b := fun _ _ _ => rfl

lemma AgreeOn.symm (h : AgreeOn K b₁ b₂) : AgreeOn K b₂ b₁ := fun cf k hk => (h cf k hk).symm

lemma AgreeOn.trans {b₃ : Backend} (h : AgreeOn K b₁ b₂) (h' : AgreeOn K b₂ b₃) :
    AgreeOn K b₁ b₃ :=
  fun cf k hk => (h cf k hk).trans (h' cf k hk)

lemma AgreeOn.put (h : AgreeOn K b₁ b₂) (cf : ColumnFamily) (k v : Bytes) :
    AgreeOn K (b₁.put cf k v) (b₂.put cf k v) := by
  intro cf' k' hk
  by_cases heq : cf' = cf ∧ k' = k
  · simp_all
  · have hne : cf' = cf → k' ≠ k := fun hcf hky => heq ⟨hcf, hky⟩
    rw [get_put_ne hne, get_put_ne hne, h cf' k' hk]

lemma AgreeOn.delete (h : AgreeOn K b₁ b₂) (cf : ColumnFamily) (k : Bytes) :
    AgreeOn K (b₁.delete cf k) (b₂.delete cf k) := by
  intro cf' k' hk
  by_cases heq : cf' = cf ∧ k' = k
  · simp_all
  · have hne : cf' = cf → k' ≠ k := fun hcf hky => heq ⟨hcf, hky⟩
    rw [get_delete_ne hne, get_delete_ne hne, h cf' k' hk]

lemma AgreeOn.put_outside (hk : ¬ K cf k) : AgreeOn K (b.put cf k v) b := by
  intro cf' k' hk'
  refine get_put_ne ?_
  rintro rfl rfl
  exact hk hk'

lemma AgreeOn.write (h : AgreeOn K b₁ b₂) (batch : List Op) :
    AgreeOn K (b₁.write batch) (b₂.write batch) := by
  induction batch generalizing b₁ b₂ with
  | nil => exact h
  | cons op _ ih => exact ih (h.put op.cf op.key op.value)

lemma AgreeOn.write_outside (batch : List Op) (hk : ∀ op ∈ batch, ¬ K op.cf op.key) :
    AgreeOn K (b.write batch) b := by
  induction batch generalizing b with
  | nil => exact .refl b
  | cons _ _ ih =>
    obtain ⟨hop, hrs⟩ := forall_mem_cons.mp hk
    exact (ih hrs).trans (.put_outside hop)

lemma AgreeOn.iterPrefix {pre : Bytes} (h : AgreeOn K b₁ b₂)
    (hK : ∀ k, pre <+: k → K cf k) : b₁.iterPrefix cf pre = b₂.iterPrefix cf pre :=
  entriesWhere_congr fun k hk => h cf k (hK k <| isPrefixOf_iff_prefix.mp hk)

lemma AgreeOn.cf_eq (h : AgreeOn K b₁ b₂) (hK : ∀ k, K cf k) : b₁.cf cf = b₂.cf cf :=
  ext_getElem? fun k => h cf k (hK k)

end Agree

end Backend

end Aii.Node
