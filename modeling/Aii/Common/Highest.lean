/-
Aii.Common.Highest — the `k` highest elements of a finite set.

A table that drops its lowest keys keeps the `k` highest it was ever given
(`highest_insert_highest`).
-/
import Mathlib.Data.Finset.Sort
import Mathlib.Data.List.Sort

namespace Aii.Common

open List Finset

variable {α : Type} [LinearOrder α]

/-- The elements with fewer than `k` greater ones. -/
def highest (k : Nat) (s : Finset α) : Finset α :=
  s.filter fun x => (s.filter (x < ·)).card < k

variable {k : Nat} {s t : Finset α} {x a : α} {l : List α}

lemma mem_highest : x ∈ highest k s ↔ x ∈ s ∧ (s.filter (x < ·)).card < k := mem_filter

lemma mem_drop_iff (h : l.Pairwise (· < ·)) :
    x ∈ l.drop (l.length - k) ↔ x ∈ highest k l.toFinset := by
  induction l with
  | nil => simp [highest]
  | cons b l ih =>
    obtain ⟨hb, hl⟩ := pairwise_cons.mp h
    have hfh : b ∉ l := fun hm => lt_irrefl b (hb b hm)
    have hc := toFinset_card_of_nodup (hl.imp ne_of_lt)
    -- the first element has all others above it, and is above none
    have hsf : ((b :: l).toFinset.filter (b < ·)) = l.toFinset := by
      ext y
      simp only [toFinset_cons, Finset.mem_filter, Finset.mem_insert, mem_toFinset]
      refine ⟨fun ⟨hy, hlt⟩ => hy.resolve_left (ne_of_gt hlt), fun hy => ⟨.inr hy, hb y hy⟩⟩
    have hoh : ∀ y ∈ l, ((b :: l).toFinset.filter (y < ·)) = l.toFinset.filter (y < ·) := by
      grind
    rw [mem_highest, mem_toFinset]
    by_cases hsh : l.length + 1 ≤ k
    · rw [length_cons, Nat.sub_eq_zero_of_le hsh, drop_zero]
      refine ⟨fun hm => ⟨hm, ?_⟩, And.left⟩
      rcases mem_cons.mp hm with rfl | hm
      · rw [hsf]
        omega
      · grind
    · rw [length_cons, Nat.sub_add_comm (by omega), drop_succ_cons, ih hl, mem_highest,
        mem_toFinset]
      refine ⟨fun ⟨hm, hlt⟩ => ⟨mem_cons_of_mem b hm, by rwa [hoh x hm]⟩, ?_⟩
      rintro ⟨hm, hlt⟩
      rcases mem_cons.mp hm with rfl | hm
      · rw [hsf] at hlt
        omega
      · exact ⟨hm, by rwa [hoh x hm] at hlt⟩

lemma toFinset_drop (h : l.Pairwise (· < ·)) :
    (l.drop (l.length - k)).toFinset = highest k l.toFinset := by
  ext x
  rw [mem_toFinset, mem_drop_iff h]

lemma le_card_highest (h : k ≤ s.card) : k ≤ (highest k s).card := by
  have hsd := (sortedLT_sort s).pairwise
  have hdp := toFinset_drop (k := k) hsd
  rw [sort_toFinset, length_sort] at hdp
  rw [← hdp, toFinset_card_of_nodup ((hsd.imp ne_of_lt).sublist (drop_sublist _ _)),
    length_drop, length_sort]
  omega

lemma highest_of_between (hs : s ⊆ t) (hhh : highest k t ⊆ s) : highest k s = highest k t := by
  ext x
  refine ⟨fun hx => ?_, fun hx => ?_⟩
  · obtain ⟨hm, hlt⟩ := mem_highest.mp hx
    refine mem_highest.mpr ⟨hs hm, ?_⟩
    by_contra hmn
    -- `k` elements of `t` are above `x`; the highest of them are in `s`
    have ht : highest k (t.filter (x < ·)) ⊆ s.filter (x < ·) := by
      intro y hy
      obtain ⟨hy, hb⟩ := mem_highest.mp hy
      obtain ⟨hy, hxy⟩ := mem_filter.mp hy
      refine mem_filter.mpr ⟨hhh (mem_highest.mpr ⟨hy, ?_⟩), hxy⟩
      refine lt_of_le_of_lt (card_le_card ?_) hb
      intro z hz
      obtain ⟨hz, hyz⟩ := mem_filter.mp hz
      exact mem_filter.mpr ⟨mem_filter.mpr ⟨hz, hxy.trans hyz⟩, hyz⟩
    have hc := (le_card_highest (Nat.not_lt.mp hmn)).trans (card_le_card ht)
    omega
  · refine mem_highest.mpr ⟨hhh hx, lt_of_le_of_lt (card_le_card ?_) (mem_highest.mp hx).2⟩
    exact filter_subset_filter _ hs

/-- Dropping low elements before an insertion changes nothing. -/
lemma highest_insert_highest (k : Nat) (a : α) (s : Finset α) :
    highest k (insert a (highest k s)) = highest k (insert a s) := by
  refine highest_of_between (insert_subset_insert a (filter_subset _ s)) ?_
  intro x hx
  obtain ⟨hm, hlt⟩ := mem_highest.mp hx
  rcases mem_insert.mp hm with rfl | hm
  · exact mem_insert_self x _
  · refine mem_insert_of_mem (mem_highest.mpr ⟨hm, lt_of_le_of_lt ?_ hlt⟩)
    exact card_le_card (filter_subset_filter _ (subset_insert a s))

end Aii.Common
