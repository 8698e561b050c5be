/-
Aii.Node.PrefixScan — `iter_prefix` of the two backends
(`aii-storage/src/rocksdb.rs`, `memory.rs`).

RocksDB iterates a half-open RANGE of keys, the memory backend runs on
while the keys start with the prefix.
-/
import Aii.Node.Storage

namespace Aii.Node

open Common List

/-- The loop of `next_prefix_upper_bound`, on the bytes from the last one. -/
def bumpLast : Bytes → Option Bytes
  | [] => none
  | b :: out => if b = 0xFF then bumpLast out else some ((b + 1) :: out)

def nextPrefixUpperBound (pre : Bytes) : Option Bytes := (bumpLast pre.reverse).map reverse

namespace Backend

/-- The iterator bounds of RocksDB's `iter_prefix`. -/
def InBounds (pre k : Bytes) : Prop := pre ≤ k ∧ ∀ ub ∈ nextPrefixUpperBound pre, k < ub
deriving Decidable

def rocksIterPrefix (b : Backend) (cf : ColumnFamily) (pre : Bytes) : List (Bytes × Bytes) :=
  (b.iter cf).filter fun e => decide (InBounds pre e.1)

def memoryIterPrefix (b : Backend) (cf : ColumnFamily) (pre : Bytes) : List (Bytes × Bytes) :=
  ((b.iter cf).filter fun e => decide (pre ≤ e.1)).takeWhile fun e => pre.isPrefixOf e.1

end Backend

lemma bumpLast_append (x : UInt8) (out : Bytes) :
    bumpLast (out ++ [x]) = match bumpLast out with
      | some ub => some (ub ++ [x])
      | none => if x = 0xFF then none else some [x + 1] := by
  induction out with
  | nil => rfl
  | cons b out ih =>
    rw [cons_append, bumpLast, bumpLast, ih]
    split_ifs <;> rfl

/-- A carry leaves the front of the prefix only past `0xFF` bytes. -/
lemma nextPrefixUpperBound_cons (x : UInt8) (pre : Bytes) :
    nextPrefixUpperBound (x :: pre) = match nextPrefixUpperBound pre with
      | some ub => some (x :: ub)
      | none => if x = 0xFF then none else some [x + 1] := by
  unfold nextPrefixUpperBound
  rw [reverse_cons, bumpLast_append]
  cases bumpLast pre.reverse with
  | none => simp only [Option.map_none]; split_ifs <;> rfl
  | some ub => simp

namespace Backend

lemma inBounds_iff (pre k : Bytes) : InBounds pre k ↔ pre <+: k := by
  induction pre generalizing k with
  | nil => simp [InBounds, nextPrefixUpperBound, bumpLast]
  | cons x pre ih =>
    cases k with
    | nil => simp [InBounds]
    | cons y k =>
      rw [cons_prefix_cons, ← ih k]
      unfold InBounds
      rw [nextPrefixUpperBound_cons, cons_le_cons_iff]
      cases nextPrefixUpperBound pre with
      | some ub =>
        simp only [Option.mem_some_iff, forall_eq', cons_lt_cons_iff]
        grind
      | none =>
        split_ifs
        · grind
        · simp only [Option.mem_some_iff, forall_eq', cons_lt_cons_iff, not_lt_nil]
          grind

lemma rocksIterPrefix_eq (b : Backend) (cf : ColumnFamily) (pre : Bytes) :
    rocksIterPrefix b cf pre = b.iterPrefix cf pre := by
  refine filter_congr fun e _ => ?_
  rw [Bool.eq_iff_iff, decide_eq_true_iff, inBounds_iff, isPrefixOf_iff_prefix]

/-- The keys with the prefix are the first ones of a scan from it. -/
lemma takeWhile_scan {l : List (Bytes × Bytes)} (pre : Bytes)
    (h : l.Pairwise fun e e' => e.1 < e'.1) :
    ((l.filter fun e => decide (pre ≤ e.1)).takeWhile fun e => pre.isPrefixOf e.1) =
      l.filter fun e => pre.isPrefixOf e.1 := by
  induction l with
  | nil => rfl
  | cons e l ih =>
    obtain ⟨he, hl⟩ := pairwise_cons.mp h
    have hin := inBounds_iff pre e.1
    simp only [filter_cons, decide_eq_true_eq]
    by_cases hp : pre.isPrefixOf e.1 = true
    · have hle := (hin.mpr <| isPrefixOf_iff_prefix.mp hp).1
      rw [if_pos hle, if_pos hp, takeWhile_cons, if_pos hp, ih hl]
    · rw [if_neg hp]
      split_ifs with hle
      · -- the scan is past the upper bound, and so is every later key
        rw [takeWhile_cons, if_neg hp, eq_comm, filter_eq_nil_iff]
        intro e' he' hp'
        have hub := (inBounds_iff pre e'.1).mpr <| isPrefixOf_iff_prefix.mp hp'
        refine hp <| isPrefixOf_iff_prefix.mpr (hin.mp ⟨hle, fun ub h => ?_⟩)
        exact List.lt_trans (he e' he') (hub.2 ub h)
      · exact ih hl

/-- The order of the map is the lexicographic one. -/
lemma lt_of_compare {a b : Bytes} (h : compare a b = .lt) : a < b := by
  induction a generalizing b with
  | nil => cases b with
    | nil => cases h
    | cons => exact nil_lt_cons _ _
  | cons x a ih => cases b with
    | nil => cases h
    | cons y b =>
      rw [List.compare_cons_cons, Ordering.then_eq_lt, Std.compare_eq_lt,
        Std.compare_eq_iff_eq] at h
      exact cons_lt_cons_iff.mpr (h.imp_right fun h => ⟨h.1, ih h.2⟩)

lemma memoryIterPrefix_eq (b : Backend) (cf : ColumnFamily) (pre : Bytes) :
    memoryIterPrefix b cf pre = b.iterPrefix cf pre :=
  takeWhile_scan pre (Std.ExtTreeMap.ordered_keys_toList.imp lt_of_compare)

theorem prefix_scans_agree (b : Backend) (cf : ColumnFamily) (pre : Bytes) :
    (∀ k, (pre ≤ k ∧ ∀ ub ∈ nextPrefixUpperBound pre, k < ub) ↔ pre <+: k) ∧
      rocksIterPrefix b cf pre = memoryIterPrefix b cf pre ∧
      rocksIterPrefix b cf pre = b.iterPrefix cf pre :=
  ⟨inBounds_iff pre, (rocksIterPrefix_eq b cf pre).trans (memoryIterPrefix_eq b cf pre).symm,
    rocksIterPrefix_eq b cf pre⟩

end Backend

end Aii.Node
