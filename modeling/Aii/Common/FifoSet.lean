/-
Aii.Common.FifoSet — a bounded set that forgets its oldest member.

A `FifoSet` is the window of the `cap` newest accepted elements of a
stream (`run_queue`).
-/
import Mathlib.Data.Finset.Basic
import Mathlib.Data.List.DropRight
import Mathlib.Data.List.Nodup

namespace Aii.Common

open List

variable {α : Type*} [DecidableEq α]

/-- At most `cap` elements: a set and the order they came in. -/
structure FifoSet (α : Type*) [DecidableEq α] (cap : Nat) where
  set : Finset α
  queue : List α
  mem_set : ∀ x, x ∈ set ↔ x ∈ queue
  nodup : queue.Nodup

namespace FifoSet

variable {cap : Nat} {x : α} {set : Finset α} {queue stream : List α}

def empty : FifoSet α cap := ⟨∅, [], by simp, nodup_nil⟩

/-- Room for one more: a full queue loses its front. -/
def evict (cap : Nat) (set : Finset α) (queue : List α) : Finset α × List α :=
  if cap ≤ queue.length then
    match queue with
    | [] => (set, [])
    | old :: rest => (set.erase old, rest)
  else (set, queue)

lemma evict_queue (cap : Nat) (set : Finset α) (queue : List α) :
    (evict cap set queue).2 = if cap ≤ queue.length then queue.tail else queue := by
  unfold evict
  split_ifs
  · cases queue <;> rfl
  · rfl

lemma nodup_evict (hnp : queue.Nodup) (hx : x ∉ queue) :
    ((evict cap set queue).2 ++ [x]).Nodup := by
  have hs : (evict cap set queue).2.Sublist queue := by
    rw [evict_queue]
    split_ifs
    · exact tail_sublist queue
    · exact .refl _
  refine (hnp.sublist hs).append (nodup_singleton x) ?_
  exact disjoint_singleton.mpr fun h => hx (hs.subset h)

lemma mem_evict (hm : ∀ y, y ∈ set ↔ y ∈ queue) (hnp : queue.Nodup) (hx : x ∉ queue) (y : α) :
    y ∈ (evict cap (insert x set) queue).1 ↔ y ∈ (evict cap (insert x set) queue).2 ++ [x] := by
  unfold evict
  split_ifs
  · cases queue with
    | nil => simp [hm]
    | cons =>
      obtain ⟨ho, -⟩ := nodup_cons.mp hnp
      simp only [Finset.mem_erase, Finset.mem_insert, hm, mem_cons, mem_append,
        not_mem_nil, or_false]
      constructor
      · rintro ⟨hne, rfl | rfl | hrs⟩
        · exact .inr rfl
        · exact absurd rfl hne
        · exact .inl hrs
      · rintro (hrs | rfl)
        · exact ⟨fun heq => ho (heq ▸ hrs), .inr (.inr hrs)⟩
        · exact ⟨fun heq => hx (heq ▸ mem_cons_self), .inl rfl⟩
  · simp [hm, or_comm]

/-- Add an element if it is new, and say whether it was. -/
def observe (s : FifoSet α cap) (x : α) : FifoSet α cap × Bool :=
  if hx : x ∈ s.set then (s, false)
  else
    have hnew : x ∉ s.queue := fun h => hx ((s.mem_set x).mpr h)
    let kept := evict cap (insert x s.set) s.queue
    (⟨kept.1, kept.2 ++ [x], mem_evict s.mem_set s.nodup hnew, nodup_evict s.nodup hnew⟩, true)

lemma observe_new_iff (s : FifoSet α cap) (x : α) : (s.observe x).2 = true ↔ x ∉ s.queue := by
  rw [← s.mem_set]
  unfold observe
  split_ifs with h <;> simp [h]

lemma observe_queue (s : FifoSet α cap) (x : α) :
    (s.observe x).1.queue = if x ∈ s.queue then s.queue
      else (if cap ≤ s.queue.length then s.queue.tail else s.queue) ++ [x] := by
  rw [← evict_queue cap (insert x s.set)]
  unfold observe
  by_cases h : x ∈ s.set
  · simp [h, (s.mem_set x).mp h]
  · simp [h, mt (s.mem_set x).mpr h]

/-- The elements of a stream that were not among the `cap` accepted before
them, newest first. -/
def accepted (cap : Nat) (stream : List α) : List α :=
  stream.foldl (fun acc x => if x ∈ acc.take cap then acc else x :: acc) []

/-- How many were accepted since `x` was, newest first. -/
def since (x : α) (acc : List α) : Nat := (acc.takeWhile (· ≠ x)).length

def run (s : FifoSet α cap) (stream : List α) : FifoSet α cap :=
  stream.foldl (fun s x => (s.observe x).1) s

lemma run_append (s : FifoSet α cap) (xs ys : List α) :
    s.run (xs ++ ys) = (s.run xs).run ys := foldl_append

lemma accepted_concat (cap : Nat) (stream : List α) (x : α) :
    accepted cap (stream ++ [x]) = if x ∈ (accepted cap stream).take cap then accepted cap stream
      else x :: accepted cap stream := by
  unfold accepted
  rw [foldl_append, foldl_cons, foldl_nil]

omit [DecidableEq α] in
lemma window_cons (hc : 0 < cap) (acc : List α) (x : α) :
    (if cap ≤ (acc.take cap).reverse.length then (acc.take cap).reverse.tail
      else (acc.take cap).reverse) ++ [x] = ((x :: acc).take cap).reverse := by
  obtain ⟨k, rfl⟩ : ∃ k, cap = k + 1 := ⟨cap - 1, by omega⟩
  rw [take_succ_cons, reverse_cons, append_cancel_right_eq]
  rw [length_reverse, length_take]
  split_ifs with hf
  · have hlast : k + 1 ≤ acc.length := by omega
    rw [tail_reverse, dropLast_eq_take, length_take, take_take]
    congr 2
    omega
  · rw [take_of_length_le (by omega), take_of_length_le (by omega)]

/-- The set is the window of the `cap` newest accepted elements. -/
lemma run_queue (hc : 0 < cap) (stream : List α) :
    ((empty : FifoSet α cap).run stream).queue = ((accepted cap stream).take cap).reverse := by
  induction stream using reverseRecOn with
  | nil => simp [run, accepted, empty]
  | append_singleton stream x ih =>
    rw [run_append]
    show (((empty : FifoSet α cap).run stream).observe x).1.queue = _
    rw [observe_queue, ih, accepted_concat]
    by_cases hm : x ∈ (accepted cap stream).take cap
    · rw [if_pos (mem_reverse.mpr hm), if_pos hm]
    · rw [if_neg (mt mem_reverse.mp hm), if_neg hm]
      exact window_cons hc _ x

lemma mem_accepted (h : x ∈ stream) : x ∈ accepted cap stream := by
  induction stream using reverseRecOn with
  | nil => cases h
  | append_singleton _ _ ih =>
    rw [accepted_concat]
    rcases mem_append.mp h with h | h
    · split_ifs
      · exact ih h
      · exact mem_cons_of_mem _ (ih h)
    · obtain rfl := mem_singleton.mp h
      split_ifs with hm
      · exact mem_of_mem_take hm
      · exact mem_cons_self

lemma mem_take_iff_since {acc : List α} (h : x ∈ acc) : x ∈ acc.take cap ↔ since x acc < cap := by
  induction acc generalizing cap with
  | nil => cases h
  | cons y ys ih =>
    cases cap with
    | zero => simp
    | succ =>
      by_cases hy : y = x
      · simp [since, hy]
      · have hys := (mem_cons.mp h).resolve_left (Ne.symm hy)
        have hs : since x (y :: ys) = since x ys + 1 := by simp [since, hy]
        rw [take_succ_cons, mem_cons, hs, Nat.add_lt_add_iff_right, ← ih hys]
        exact or_iff_right (Ne.symm hy)

/-- The two containers, with nothing known about them. -/
structure Ring (α : Type*) where
  set : Finset α
  queue : List α

def Ring.observe (cap : Nat) (r : Ring α) (x : α) : Ring α × Bool :=
  if x ∈ r.set then (r, false)
  else
    let kept := evict cap (insert x r.set) r.queue
    (⟨kept.1, kept.2 ++ [x]⟩, true)

/-- The containers after a stream, and the elements that were called new. -/
def Ring.calls (cap : Nat) (stream : List α) : Ring α × List α :=
  stream.foldl (fun (r, new) x =>
    let (r', isNew) := r.observe cap x
    (r', if isNew then new ++ [x] else new)) (⟨∅, []⟩, [])

def ring (s : FifoSet α cap) : Ring α := ⟨s.set, s.queue⟩

lemma ring_observe (s : FifoSet α cap) (x : α) :
    s.ring.observe cap x = ((s.observe x).1.ring, (s.observe x).2) := by
  by_cases h : x ∈ s.set <;> simp [Ring.observe, observe, ring, h]

/-- Containers that start empty are those of a `FifoSet`. -/
lemma calls_eq (hc : 0 < cap) (stream : List α) : Ring.calls cap stream =
    (((empty : FifoSet α cap).run stream).ring, (accepted cap stream).reverse) := by
  induction stream using reverseRecOn with
  | nil => rfl
  | append_singleton stream x ih =>
    have hnew := observe_new_iff ((empty : FifoSet α cap).run stream) x
    rw [run_queue hc, mem_reverse] at hnew
    unfold Ring.calls at ih ⊢
    rw [foldl_concat, ih, run_append, accepted_concat]
    simp only [ring_observe, hnew]
    split_ifs with h
    · rfl
    · rw [reverse_cons]
      rfl

/-- An element of the stream is new again exactly if `cap` others have
been accepted since it was. -/
lemma observe_again_iff (hc : 0 < cap) (h : x ∈ stream) :
    (((empty : FifoSet α cap).run stream).observe x).2 = true ↔
      cap ≤ since x (accepted cap stream) := by
  rw [observe_new_iff, run_queue hc, mem_reverse, mem_take_iff_since (mem_accepted h), Nat.not_lt]

end FifoSet

section Recency

variable {α : Type*} [DecidableEq α] {l : List α} {x : α} {k : Nat}

lemma dedup_concat (l : List α) (x : α) : (l ++ [x]).dedup = l.dedup.erase x ++ [x] := by
  induction l with
  | nil => simp
  | cons a l ih =>
    by_cases hm : a ∈ l
    · rw [cons_append, dedup_cons_of_mem (mem_append_left _ hm), dedup_cons_of_mem hm, ih]
    · rw [dedup_cons_of_notMem hm, cons_append]
      by_cases hx : a = x <;> simp_all

lemma take_erase_take (l : List α) (x : α) (k : Nat) :
    ((l.take (k + 1)).erase x).take k = (l.erase x).take k := by
  induction l generalizing k with
  | nil => simp
  | cons a l ih =>
    by_cases hx : a = x
    · simp [hx]
    · cases k <;> simp [hx, ih]

/-- The last `k + 1` members tell which remain when `x` moves to the back. -/
lemma rtake_erase_concat (h : l.Nodup) (x : α) (k : Nat) :
    ((l.rtake (k + 1)).erase x ++ [x]).rtake (k + 1) = (l.erase x ++ [x]).rtake (k + 1) := by
  have hrev {l : List α} (h : l.Nodup) : (l.erase x).reverse = l.reverse.erase x := by
    rw [h.erase_eq_filter, (nodup_reverse.mpr h).erase_eq_filter, filter_reverse]
  have hd : (l.rtake (k + 1)).Nodup := h.sublist (drop_sublist _ _)
  rw [rtake_concat_succ, rtake_concat_succ, rtake_eq_reverse_take_reverse, hrev hd,
    rtake_eq_reverse_take_reverse, reverse_reverse, take_erase_take, ← hrev h,
    ← rtake_eq_reverse_take_reverse]

end Recency

end Aii.Common
