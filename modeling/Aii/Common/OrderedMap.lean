/-
Aii.Common.OrderedMap — scans and sums over ordered finite maps.

`entriesWhere` is a SCAN of a `Std.ExtTreeMap`: the entries whose key
satisfies a test, in order.
-/
import Mathlib.Algebra.BigOperators.Group.List.Basic
import Mathlib.Algebra.GroupWithZero.Nat
import Mathlib.Data.List.Induction
import Mathlib.Data.List.Sort

namespace Aii.Common.OrderedMap

open Std List ExtTreeMap OrientedCmp LawfulEqCmp

variable {α β : Type} {cmp : α → α → Ordering} [TransCmp cmp] {t : ExtTreeMap α β cmp} {k : α}
  {v : β} {p : α → Bool} {a : α}

/-- The entries whose key satisfies `p`, in ascending key order. -/
def entriesWhere (t : ExtTreeMap α β cmp) (p : α → Bool) : List (α × β) :=
  t.toList.filter fun e => p e.1

lemma entriesWhere_sorted (t : ExtTreeMap α β cmp) (p : α → Bool) :
    (entriesWhere t p).Pairwise fun a b => cmp a.1 b.1 = .lt :=
  ordered_keys_toList.filter _

lemma nodup_toList (t : ExtTreeMap α β cmp) : t.toList.Nodup := by
  refine (distinct_keys_toList).imp ?_
  rintro a _ hne rfl
  exact hne ReflCmp.compare_self

variable [LawfulEqCmp cmp]

lemma mem_entriesWhere : (k, v) ∈ entriesWhere t p ↔ t[k]? = some v ∧ p k = true := by
  rw [entriesWhere, mem_filter, mem_toList_iff_getElem?_eq_some]

/-- Two maps that agree on the keys `p` selects have the same scan. -/
lemma entriesWhere_congr {t₁ t₂ : ExtTreeMap α β cmp} (h : ∀ k, p k = true → t₁[k]? = t₂[k]?) :
    entriesWhere t₁ p = entriesWhere t₂ p := by
  have hpm : (entriesWhere t₁ p).Perm (entriesWhere t₂ p) := by
    refine (perm_ext_iff_of_nodup ((nodup_toList t₁).filter _) ((nodup_toList t₂).filter _)).mpr ?_
    rintro ⟨k, v⟩
    rw [← entriesWhere, ← entriesWhere, mem_entriesWhere, mem_entriesWhere]
    constructor
    · grind
    · grind
  refine hpm.eq_of_pairwise ?_ (entriesWhere_sorted t₁ p) (entriesWhere_sorted t₂ p)
  intro a b _ _ hab hba
  have hgt := gt_of_lt hab
  rw [hba] at hgt
  cases hgt

lemma getElem?_insert_ne (h : k ≠ a) : (t.insert k v)[a]? = t[a]? := by
  rw [ExtTreeMap.getElem?_insert, if_neg (mt LawfulEqCmp.eq_of_compare h)]

lemma getElem?_erase_ne (h : k ≠ a) : (t.erase k)[a]? = t[a]? := by
  rw [getElem?_erase, if_neg (mt eq_of_compare h)]

lemma insert_of_getElem? (h : t[k]? = some v) : t.insert k v = t := by
  refine ext_getElem? fun a => ?_
  by_cases hk : k = a
  · rw [← hk, getElem?_insert_self, h]
  · rw [getElem?_insert_ne hk]

lemma erase_of_getElem? (h : t[k]? = none) : t.erase k = t := by
  refine ext_getElem? fun a => ?_
  by_cases hk : k = a
  · rw [← hk, getElem?_erase_self, h]
  · rw [getElem?_erase_ne hk]

lemma find?_toList_reverse [DecidableEq α] (t : ExtTreeMap α β cmp) (k : α) :
    (t.toList.reverse.find? fun e => e.1 = k).map Prod.snd = t[k]? := by
  cases hf : t.toList.reverse.find? fun e => e.1 = k with
  | some e =>
    obtain rfl : e.1 = k := by simpa using find?_some hf
    exact (mem_toList_iff_getElem?_eq_some.mp (mem_reverse.mp (mem_of_find?_eq_some hf))).symm
  | none =>
    refine (Option.eq_none_iff_forall_ne_some.mpr fun v hv => ?_).symm
    have hm := mem_toList_iff_getElem?_eq_some.mpr hv
    simpa using find?_eq_none.mp hf _ (mem_reverse.mpr hm)

section Fold

variable {γ : Type} {f : γ → α} {g : γ → β} {l : List γ} {t : ExtTreeMap α β cmp} {k : α}

lemma contains_foldl_insert : (l.foldl (fun m e => m.insert (f e) (g e)) t).contains k = true ↔
      t.contains k = true ∨ ∃ e ∈ l, f e = k := by
  induction l generalizing t with
  | nil => simp
  | cons _ _ ih =>
    rw [foldl_cons, ih, ExtTreeMap.contains_insert]
    simp [or_assoc, or_left_comm]

lemma getElem?_foldl_insert_last [DecidableEq α] :
    (l.foldl (fun m e => m.insert (f e) (g e)) t)[k]? =
      ((l.reverse.find? fun e => f e = k).map g).or t[k]? := by
  induction l generalizing t with
  | nil => simp
  | cons e l ih =>
    rw [foldl_cons, ih, reverse_cons, find?_append]
    cases l.reverse.find? fun e => f e = k with
    | some => simp
    | none =>
      by_cases hk : f e = k
      · subst hk
        simp
      · simp [hk, getElem?_insert_ne hk]

lemma getElem?_foldl_insert {v : β} (hm : ∃ e ∈ l, f e = k) (hv : ∀ e ∈ l, f e = k → g e = v) :
    (l.foldl (fun m e => m.insert (f e) (g e)) t)[k]? = some v := by
  classical
  rw [getElem?_foldl_insert_last]
  cases hf : l.reverse.find? fun e => f e = k with
  | some e =>
    rw [Option.map_some, Option.some_or,
      hv e (mem_reverse.mp (mem_of_find?_eq_some hf)) (by simpa using find?_some hf)]
  | none =>
    obtain ⟨e, he, hk⟩ := hm
    exact absurd (decide_eq_true hk) (find?_eq_none.mp hf e (mem_reverse.mpr he))

lemma getElem?_foldl_erase [DecidableEq α] :
    (l.foldl (fun m e => m.erase (f e)) t)[k]? = if ∃ e ∈ l, f e = k then none else t[k]? := by
  induction l generalizing t with
  | nil => simp
  | cons e l ih =>
    rw [foldl_cons, ih]
    by_cases hla : ∃ e ∈ l, f e = k
    · rw [if_pos hla, if_pos (hla.imp fun x hx => ⟨mem_cons_of_mem e hx.1, hx.2⟩)]
    · rw [if_neg hla]
      by_cases hk : f e = k
      · rw [if_pos ⟨e, mem_cons_self, hk⟩, ← hk, getElem?_erase_self]
      · rw [if_neg, getElem?_erase_ne hk]
        rintro ⟨x, hx, hxk⟩
        rcases mem_cons.mp hx with rfl | hx
        · exact hk hxk
        · exact hla ⟨x, hx, hxk⟩

end Fold

section Represents

variable {γ : Type} {key : γ → α} {val : γ → β} {l : List γ} {e : γ} {t t' : ExtTreeMap α β cmp}

def Represents (key : γ → α) (val : γ → β) (t : ExtTreeMap α β cmp) (l : List γ) : Prop :=
  ∀ k v, t[k]? = some v ↔ ∃ e ∈ l, key e = k ∧ val e = v

omit [LawfulEqCmp cmp] in
lemma Represents.empty (key : γ → α) (val : γ → β) :
    Represents key val (∅ : ExtTreeMap α β cmp) [] := by
  intro k v
  simp

omit [LawfulEqCmp cmp] in
lemma Represents.get (h : Represents key val t l) (he : e ∈ l) : t[key e]? = some (val e) :=
  (h _ _).mpr ⟨e, he, rfl, rfl⟩

lemma Represents.insert (h : Represents key val t l) (hn : ∀ x ∈ l, key x ≠ key e) :
    Represents key val (t.insert (key e) (val e)) (l ++ [e]) := by
  intro k v
  simp only [mem_append, mem_singleton]
  by_cases hk : key e = k
  · subst hk
    rw [getElem?_insert_self, Option.some.injEq]
    constructor
    · grind
    · rintro ⟨x, hx | rfl, hky, hv⟩
      · exact absurd hky (hn x hx)
      · exact hv
  · rw [getElem?_insert_ne hk, h]
    constructor
    · grind
    · rintro ⟨x, hx | rfl, hbh⟩
      · exact ⟨x, hx, hbh⟩
      · exact absurd hbh.1 hk

lemma Represents.erase (h : Represents key val t (e :: l)) (hne : ∀ x ∈ l, key x ≠ key e) :
    Represents key val (t.erase (key e)) l := by
  intro k v
  by_cases hk : key e = k
  · subst hk
    rw [getElem?_erase_self]
    constructor
    · nofun
    · grind
  · rw [getElem?_erase_ne hk, h]
    simp [hk]

lemma Represents.unique (h : Represents key val t l) (h' : Represents key val t' l) : t = t' := by
  refine ext_getElem? fun k => Option.ext fun v => ?_
  rw [h, h']

lemma Represents.foldl (hl : l.Pairwise fun x y => key x ≠ key y) :
    Represents key val (l.foldl (fun m e => m.insert (key e) (val e)) (∅ : ExtTreeMap α β cmp))
      l := by
  induction l using reverseRecOn with
  | nil => exact .empty key val
  | append_singleton _ e ih =>
    obtain ⟨hl, -, hlast⟩ := pairwise_append.mp hl
    rw [foldl_append]
    exact (ih hl).insert fun x hx => hlast x hx e (mem_singleton_self e)

lemma Represents.toList_eq (h : Represents key val t l)
    (hl : l.Pairwise fun x y => cmp (key x) (key y) = .lt) :
    t.toList = l.map fun e => (key e, val e) := by
  have hsd : (l.map fun e => (key e, val e)).Pairwise fun x y => cmp x.1 y.1 = .lt :=
    pairwise_map.mpr hl
  have hnp : (l.map fun e => (key e, val e)).Nodup := by
    refine hsd.imp ?_
    rintro x _ hlt rfl
    have hr : cmp x.1 x.1 = .eq := ReflCmp.compare_self
    rw [hr] at hlt
    cases hlt
  refine List.Perm.eq_of_pairwise ?_ ordered_keys_toList hsd
    ((perm_ext_iff_of_nodup (nodup_toList t) hnp).mpr ?_)
  · intro x y _ _ hxy hyx
    have hgt := gt_of_lt hxy
    rw [hyx] at hgt
    cases hgt
  · rintro ⟨k, v⟩
    rw [mem_toList_iff_getElem?_eq_some, h, mem_map]
    simp only [Prod.mk.injEq]

omit [LawfulEqCmp cmp] in
lemma Represents.of_mem_iff {l' : List γ} (h : Represents key val t l)
    (hm : ∀ e, e ∈ l' ↔ e ∈ l) : Represents key val t l' := by
  intro k v
  rw [h]
  simp only [hm]

lemma Represents.eq_iff {val' : γ → β} (h : Represents key val t l)
    (h' : Represents key val' t' l) : t = t' ↔ ∀ e ∈ l, val e = val' e := by
  constructor
  · rintro rfl e he
    exact Option.some.inj ((h.get he).symm.trans (h'.get he))
  · intro hv
    refine h.unique fun k v => (h' k v).trans ?_
    constructor
    · grind
    · grind

lemma Represents.exists_sorted (h : Represents key val t l)
    (hl : l.Pairwise fun x y => key x ≠ key y) :
    ∃ sorted : List γ, sorted.Perm l ∧ (sorted.Pairwise fun x y => cmp (key x) (key y) = .lt) ∧
      t.toList = sorted.map fun e => (key e, val e) := by
  have hpm := mergeSort_perm l fun x y => (cmp (key x) (key y)).isLE
  have ht : ∀ x y : γ, ((cmp (key x) (key y)).isLE || (cmp (key y) (key x)).isLE) = true := by
    intro x y
    have hs : cmp (key y) (key x) = (cmp (key x) (key y)).swap := eq_swap
    rw [hs]
    cases cmp (key x) (key y) <;> rfl
  have htr : ∀ x y z : γ, (cmp (key x) (key y)).isLE = true →
      (cmp (key y) (key z)).isLE = true → (cmp (key x) (key z)).isLE = true :=
    fun _ _ _ => TransCmp.isLE_trans
  have hle := pairwise_mergeSort htr ht l
  have hne := (hpm.pairwise_iff fun hxy heq => hxy heq.symm).mpr hl
  generalize l.mergeSort (fun x y => (cmp (key x) (key y)).isLE) = sorted at hpm hle hne
  have hlt : sorted.Pairwise fun x y => cmp (key x) (key y) = .lt := by
    refine (hle.and hne).imp ?_
    rintro x y ⟨hxy, hks⟩
    cases hc : cmp (key x) (key y) with
    | lt => rfl
    | eq => exact absurd (eq_of_compare hc) hks
    | gt => rw [hc] at hxy; cases hxy
  exact ⟨sorted, hpm, hlt, (h.of_mem_iff fun _ => hpm.mem_iff).toList_eq hlt⟩

end Represents

omit [TransCmp cmp] [LawfulEqCmp cmp] in
lemma mem_drop_of_greatest {l : List (α × β)} {a : α × β} {size : Nat}
    (hsd : l.Pairwise fun x y => cmp x.1 y.1 = .lt) (ha : a ∈ l) (hm : ∀ x ∈ l, cmp a.1 x.1 ≠ .lt)
    (hsz : 0 < size) : a ∈ l.drop (l.length - size) := by
  obtain ⟨before, after, rfl⟩ := append_of_mem ha
  have haf : after = [] := by
    refine eq_nil_iff_forall_not_mem.mpr fun x hx => ?_
    have hlt := (pairwise_cons.mp (pairwise_append.mp hsd).2.1).1 x hx
    exact hm x (by simp [hx]) hlt
  subst haf
  rw [drop_append_of_le_length (by simp; omega)]
  simp

section Weight

variable (w : α → β → Nat)

def weight (t : ExtTreeMap α β cmp) : Nat := (t.toList.map fun e => w e.1 e.2).sum

/-- What the entry at `k` contributes. -/
def weightAt (t : ExtTreeMap α β cmp) (k : α) : Nat := t[k]?.elim 0 (w k)

lemma toList_insert_perm (t : ExtTreeMap α β cmp) (k : α) (v : β) :
    (t.insert k v).toList.Perm ((k, v) :: (t.erase k).toList) := by
  have hn : (k, v) ∉ (t.erase k).toList := by grind
  refine (perm_ext_iff_of_nodup (nodup_toList _) (nodup_cons.mpr ⟨hn, nodup_toList _⟩)).mpr ?_
  rintro ⟨k', v'⟩
  rw [mem_cons, mem_toList_iff_getElem?_eq_some, mem_toList_iff_getElem?_eq_some]
  by_cases hk : k = k'
  · subst hk
    simp [eq_comm]
  · simp [getElem?_insert_ne hk, getElem?_erase_ne hk, Ne.symm hk]

lemma toList_erase_perm (h : t[k]? = some v) : t.toList.Perm ((k, v) :: (t.erase k).toList) := by
  have hpm := toList_insert_perm t k v
  rwa [insert_of_getElem? h] at hpm

lemma toList_foldl_erase {l rest : List (α × β)} (h : t.toList.Perm (l ++ rest)) :
    (l.foldl (fun m e => m.erase e.1) t).toList.Perm rest := by
  induction l generalizing t with
  | nil => exact h
  | cons e _ ih =>
    have hg : t[e.1]? = some e.2 := by
      rw [← mem_toList_iff_getElem?_eq_some, h.mem_iff]
      simp
    exact ih (((toList_erase_perm hg).symm.trans h).cons_inv)

lemma weight_erase (t : ExtTreeMap α β cmp) (k : α) :
    weight w (t.erase k) + weightAt w t k = weight w t := by
  unfold weightAt
  cases h : t[k]? with
  | none =>
    rw [erase_of_getElem? h]
    rfl
  | some =>
    have hs := ((toList_erase_perm h).map fun e => w e.1 e.2).sum_eq
    rw [map_cons, sum_cons] at hs
    rw [weight, weight, hs, Nat.add_comm]
    rfl

lemma weight_insert (t : ExtTreeMap α β cmp) (k : α) (v : β) :
    weight w (t.insert k v) + weightAt w t k = weight w t + w k v := by
  have hs : weight w (t.insert k v) = w k v + weight w (t.erase k) := by
    rw [weight, ((toList_insert_perm t k v).map fun e => w e.1 e.2).sum_eq, map_cons,
      sum_cons, weight]
  have he := weight_erase w t k
  omega

end Weight

end Aii.Common.OrderedMap
