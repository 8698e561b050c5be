/-
Aii.Common.Entries — sets of keyed values, key by key.

`after p I` are the entries of `I` whose key goes on after `p`, and
`Shared I` that all begin alike.
-/
import Mathlib.Data.Set.Function
import Mathlib.Data.List.Infix
import Mathlib.Data.List.SplitBy
import Mathlib.Data.List.TakeWhile

namespace Aii.Common.Entries

open List

variable {α V : Type} {p : List α} {I : Set (List α × V)} {J : Set (List α × V)}

/-- The entry with `p` before its key. -/
def under (p : List α) (e : List α × V) : List α × V := (p ++ e.1, e.2)

/-- The entries whose key goes on after `p`, without `p`. -/
def after (p : List α) (I : Set (List α × V)) : Set (List α × V) := Set.preimage (under p) I

/-- All keys begin with one letter. -/
def Shared (I : Set (List α × V)) : Prop := ∃ a, ∀ e ∈ I, ∃ k, e.1 = a :: k

lemma mem_after {e : List α × V} : e ∈ after p I ↔ (p ++ e.1, e.2) ∈ I := Iff.rfl

lemma under_injective (p : List α) : Function.Injective (under (V := V) p) := by
  intro e f h
  obtain ⟨hk, hv⟩ := Prod.mk.inj h
  exact Prod.ext (append_cancel_left hk) hv

lemma under_append (p q : List α) : under (V := V) (p ++ q) = under p ∘ under q := by
  funext e
  simp [under]

@[simp] lemma after_under_image (p : List α) (I : Set (List α × V)) :
    after p (under p '' I) = I :=
  Set.preimage_image_eq I (under_injective p)

lemma after_after (p q : List α) (I : Set (List α × V)) :
    after q (after p I) = after (p ++ q) I := by
  simp only [after, under_append, Set.preimage_comp]

lemma shared_under_image (hp : p ≠ []) (I : Set (List α × V)) : Shared (under p '' I) := by
  obtain ⟨a, q, rfl⟩ := exists_cons_of_ne_nil hp
  refine ⟨a, ?_⟩
  rintro _ ⟨e, -, rfl⟩
  exact ⟨q ++ e.1, rfl⟩

lemma eq_nil_of_under_image {r : List α} (hI : ¬ Shared I)
    (h : under p '' I = under (p ++ r) '' J) : r = [] := by
  by_contra hr
  have hp : I = under r '' J := by
    have haf := congrArg (after p) h
    rwa [after_under_image, under_append, Set.image_comp, after_under_image] at haf
  exact hI (hp ▸ shared_under_image hr J)

lemma under_image_cancel {q : List α} (hne : I.Nonempty) (hI : ¬ Shared I) (hJ : ¬ Shared J)
    (h : under p '' I = under q '' J) : p = q ∧ I = J := by
  obtain ⟨e, he⟩ := hne
  obtain ⟨f, -, hf⟩ : under p e ∈ under q '' J := h ▸ Set.mem_image_of_mem _ he
  have hk : q ++ f.1 = p ++ e.1 := congrArg Prod.fst hf
  have heq : p = q := by
    rcases prefix_or_prefix_of_prefix (prefix_append p e.1) (hk ▸ prefix_append q f.1)
      with ⟨r, rfl⟩ | ⟨r, rfl⟩
    · rw [eq_nil_of_under_image hI h, append_nil]
    · rw [eq_nil_of_under_image hJ h.symm, append_nil]
  subst heq
  exact ⟨rfl, (Set.image_injective.mpr (under_injective p)) h⟩

section Runs

variable {β γ : Type} [BEq γ] [LawfulBEq γ] {f : β → γ} {rank : γ → Nat} {l : List β}

lemma ne_of_mem_dropWhile {x : β} (hr : Function.Injective rank)
    (hsd : (x :: l).Pairwise fun a b => rank (f a) ≤ rank (f b)) :
    ∀ e ∈ l.dropWhile (f x == f ·), f e ≠ f x := by
  induction l with
  | nil => simp
  | cons y _ ih =>
    rw [pairwise_cons, pairwise_cons] at hsd
    obtain ⟨hx, hy, hl⟩ := hsd
    by_cases hxy : f x = f y
    · simp_all
    · rw [dropWhile_cons_of_neg (by simpa using hxy)]
      have hlt := lt_of_le_of_ne (hx y mem_cons_self) fun heq => hxy (hr heq)
      intro e he heq
      rcases mem_cons.mp he with rfl | he
      · exact hxy heq.symm
      · exact absurd (heq ▸ hy e he) (Nat.not_le.mpr hlt)

lemma run_eq_filter (hrn : Function.Injective rank)
    (hsd : l.Pairwise fun a b => rank (f a) ≤ rank (f b)) {run : List β}
    (hr : run ∈ l.splitBy fun a b => f a == f b) {e : β} (he : e ∈ run) :
    run = l.filter (f · == f e) := by
  induction hn : l.length using Nat.strong_induction_on generalizing l with
  | _ _ ih =>
    cases l with
    | nil => simp at hr
    | cons x l =>
      -- cut off the first run; everything behind it differs from it
      have hbh := ne_of_mem_dropWhile hrn hsd
      have hsm : ∀ e ∈ l.takeWhile (f x == f ·), f e = f x := by
        intro e he
        have hag := mem_takeWhile_imp he
        exact (beq_iff_eq.mp hag).symm
      have hc := takeWhile_append_dropWhile (p := (f x == f ·)) (l := l)
      generalize l.takeWhile (f x == f ·) = first at hsm hc
      generalize l.dropWhile (f x == f ·) = rest at hbh hc
      subst hc
      rw [← cons_append] at hr hsd ⊢
      have heq : ∀ e ∈ x :: first, f e = f x := by simpa using hsm
      have hcn : (x :: first).IsChain fun a b => (f a == f b) = true := by
        refine (pairwise_of_forall_mem_list fun a ha b hb => ?_).isChain
        simp [heq a ha, heq b hb]
      rw [splitBy_append ?_, splitBy_of_isChain (cons_ne_nil _ _) hcn,
        singleton_append, mem_cons] at hr
      · rw [filter_append]
        rcases hr with rfl | hr
        · have ho : rest.filter (f · == f e) = [] := by
            simpa [heq e he] using hbh
          rw [ho, append_nil, filter_eq_self.mpr]
          intro a ha
          simp [heq a ha, heq e he]
        · have hrs : e ∈ rest := by
            rw [← flatten_splitBy (fun a b => f a == f b) rest]
            exact mem_flatten.mpr ⟨run, hr, he⟩
          have ho : (x :: first).filter (f · == f e) = [] := by
            rw [filter_eq_nil_iff]
            intro a ha
            simpa [heq a ha] using (hbh e hrs).symm
          rw [ho, nil_append]
          refine ih rest.length ?_ (pairwise_append.mp hsd).2.1 hr rfl
          simp only [← hn, length_cons, length_append]
          omega
      · grind

end Runs

end Aii.Common.Entries
