/-
Aii.Common.Runs — conditions along a run.

`Along ok s xs` says that every input of a run meets `ok` in the state it
finds.
-/
import Mathlib.Data.List.Induction

namespace Aii.Common

open List

variable {σ α : Type*} (step : σ → α → σ)

/-- Every input meets `ok` in the state it finds. -/
def Along (ok : σ → α → Prop) : σ → List α → Prop
  | _, [] => True
  | s, x :: xs => ok s x ∧ Along ok (step s x) xs

instance Along.decidable {ok : σ → α → Prop} [∀ s x, Decidable (ok s x)] :
    (s : σ) → (xs : List α) → Decidable (Along step ok s xs)
  | _, [] => inferInstanceAs (Decidable True)
  | s, x :: xs =>
    have : Decidable (Along step ok (step s x) xs) := Along.decidable (step s x) xs
    inferInstanceAs (Decidable (ok s x ∧ Along step ok (step s x) xs))

variable {step} {P : σ → Prop} {guard ok : σ → α → Prop} {s : σ} {xs : List α}

lemma Along.and {ok' : σ → α → Prop} (h : Along step ok s xs) (h' : Along step ok' s xs) :
    Along step (fun s x => ok s x ∧ ok' s x) s xs := by
  induction xs generalizing s with
  | nil => trivial
  | cons _ _ ih => exact ⟨⟨h.1, h'.1⟩, ih h.2 h'.2⟩

lemma Along.of_append {ys : List α} (h : Along step ok s (xs ++ ys)) :
    Along step ok s xs ∧ Along step ok (xs.foldl step s) ys := by
  induction xs generalizing s with
  | nil => exact ⟨trivial, h⟩
  | cons _ _ ih => exact ⟨⟨h.1, (ih h.2).1⟩, (ih h.2).2⟩

lemma along_iff_forall {ok : α → Prop} : Along step (fun _ x => ok x) s xs ↔ ∀ x ∈ xs, ok x := by
  induction xs generalizing s with
  | nil => simp [Along]
  | cons _ _ ih => simp [Along, ih]

lemma Along.keeps (hsp : ∀ s x, ok s x → P s → P (step s x)) (hr : Along step ok s xs)
    (hs : P s) : P (xs.foldl step s) := by
  induction xs generalizing s with
  | nil => exact hs
  | cons x _ ih => exact ih hr.2 (hsp s x hr.1 hs)

lemma Along.of_invariant (hsp : ∀ s x, P s → P (step s x)) (hs : P s) :
    Along step (fun s _ => P s) s xs := by
  induction xs generalizing s with
  | nil => trivial
  | cons x _ ih => exact ⟨hs, ih (hsp s x hs)⟩

/-- `P` holds all along a run exactly when every step of it is one that
keeps `P`. -/
lemma always_iff_along (hsp : ∀ s x, guard s x → P s → (P (step s x) ↔ ok s x))
    (hg : Along step guard s xs) (hs : P s) :
    (∀ n, P ((xs.take n).foldl step s)) ↔ Along step ok s xs := by
  induction xs generalizing s with
  | nil => simpa [Along] using hs
  | cons x _ ih =>
    obtain ⟨hx, hrs⟩ := hg
    have hke := hsp s x hx hs
    constructor
    · intro h
      have hnx : P (step s x) := by simpa using h 1
      exact ⟨hke.mp hnx, (ih hrs hnx).mp fun n => by simpa using h (n + 1)⟩
    · rintro ⟨hok, ha⟩ n
      cases n with
      | zero => simpa using hs
      | succ n => simpa using (ih hrs (hke.mpr hok)).mpr ha n

lemma foldlM_ok_keeps {σ α ε : Type} {step : σ → α → Except ε σ} {P : σ → Prop} {s s' : σ}
    {xs : List α} (hsp : ∀ s x s', P s → step s x = .ok s' → P s') (hs : P s)
    (hr : xs.foldlM step s = .ok s') : P s' := by
  induction xs generalizing s with
  | nil => exact Except.ok.inj hr ▸ hs
  | cons x _ ih =>
    rw [foldlM_cons] at hr
    cases hx : step s x with
    | error => rw [hx] at hr; cases hr
    | ok => rw [hx] at hr; exact ih (hsp _ _ _ hs hx) hr

def sumAlong (step : σ → α → σ) (f : σ → α → Nat) : σ → List α → Nat
  | _, [] => 0
  | s, x :: xs => f s x + sumAlong step f (step s x) xs

lemma sumAlong_add (f g : σ → α → Nat) : sumAlong step (fun s x => f s x + g s x) s xs =
      sumAlong step f s xs + sumAlong step g s xs := by
  induction xs generalizing s with
  | nil => rfl
  | cons _ _ ih =>
    rw [sumAlong, ih, sumAlong, sumAlong]
    omega

/-- If what a step gains and loses accounts for the change of a value, the
gains and losses of a run account for its change. -/
lemma Along.balance (value : σ → Nat) (gain loss : σ → α → Nat)
    (hsp : ∀ s x, ok s x → value (step s x) + loss s x = value s + gain s x)
    (hr : Along step ok s xs) :
    value (xs.foldl step s) + sumAlong step loss s xs = value s + sumAlong step gain s xs := by
  induction xs generalizing s with
  | nil => rfl
  | cons x _ ih =>
    have hft := hsp s x hr.1
    have hrs := ih hr.2
    rw [foldl_cons, sumAlong, sumAlong]
    omega

section Latest

variable {α : Type*} {P : α → Prop} {l before before' : List α} {x x' b : α}

/-- `x` is the latest element of `l` with `P`, and `before` came before
it. -/
def Latest (P : α → Prop) (l before : List α) (x : α) : Prop :=
  ∃ after, l = before ++ x :: after ∧ P x ∧ ∀ y ∈ after, ¬ P y

lemma Latest.mem (h : Latest P l before x) : x ∈ l := by
  obtain ⟨after, rfl, -⟩ := h
  simp

lemma Latest.holds (h : Latest P l before x) : P x := by
  obtain ⟨after, -, hx, -⟩ := h
  exact hx

lemma latest_concat_iff : Latest P (l ++ [b]) before x ↔
      (P b ∧ before = l ∧ x = b) ∨ (¬ P b ∧ Latest P l before x) := by
  constructor
  · rintro ⟨after, heq, hx, haf⟩
    rcases eq_nil_or_concat after with rfl | ⟨after, y, rfl⟩
    · simp_all
    · rw [concat_eq_append, ← cons_append, ← append_assoc] at heq
      obtain ⟨rfl, hlast⟩ := append_inj' heq rfl
      obtain rfl := (cons.inj hlast).1
      exact .inr ⟨haf _ (by simp), after, rfl, hx, fun y hy => haf y (by simp [hy])⟩
  · rintro (⟨hb, rfl, rfl⟩ | ⟨hb, after, rfl, hx, haf⟩)
    · exact ⟨[], rfl, hb, nofun⟩
    · refine ⟨after ++ [b], by simp, hx, fun y hy => ?_⟩
      rcases mem_append.mp hy with hy | hy
      · exact haf y hy
      · rwa [mem_singleton.mp hy]

lemma exists_latest (h : ∃ x ∈ l, P x) : ∃ before x, Latest P l before x := by
  induction l using reverseRecOn with
  | nil => simp at h
  | append_singleton l b ih =>
    by_cases hb : P b
    · exact ⟨l, b, latest_concat_iff.mpr (.inl ⟨hb, rfl, rfl⟩)⟩
    · obtain ⟨x, hx, hP⟩ := h
      have hm : x ∈ l := by grind
      obtain ⟨before, y, hlatest⟩ := ih ⟨x, hm, hP⟩
      exact ⟨before, y, latest_concat_iff.mpr (.inr ⟨hb, hlatest⟩)⟩

lemma Latest.unique (h : Latest P l before x) (h' : Latest P l before' x') :
    before = before' ∧ x = x' := by
  induction l using reverseRecOn with
  | nil => exact absurd h.mem not_mem_nil
  | append_singleton _ _ ih =>
    rcases latest_concat_iff.mp h with ⟨hb, rfl, rfl⟩ | ⟨hb, h⟩
    · obtain ⟨-, rfl, rfl⟩ := (latest_concat_iff.mp h').resolve_right fun hn => hn.1 hb
      exact ⟨rfl, rfl⟩
    · exact ih h ((latest_concat_iff.mp h').resolve_left fun hy => hb hy.1).2

lemma Latest.greatest {lt : α → α → Prop} (h : Latest P l before x) (hl : l.Pairwise lt) {y : α}
    (hy : y ∈ l) (hP : P y) : y = x ∨ lt y x := by
  obtain ⟨after, rfl, -, haf⟩ := h
  rcases mem_append.mp hy with hy | hy
  · exact .inr ((pairwise_append.mp hl).2.2 y hy x mem_cons_self)
  · rcases mem_cons.mp hy with rfl | hy
    · exact .inl rfl
    · exact absurd hP (haf y hy)

end Latest

end Aii.Common
