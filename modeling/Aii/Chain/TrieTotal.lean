/-
Aii.Chain.TrieTotal — `build_node` returns on every input
(`aii-state/src/trie.rs`).
-/
import Aii.Chain.RootBinding

namespace Aii.Chain

open Common List YellowPaper

/-- The recursion of `build_node` on `pairs` ends within `fuel` levels, and
every slice of a key and every child slot on the way is in range. Keys may
repeat, be prefixes of each other, and be empty. -/
def BuildReturns : Nat → List Entry → Prop
  | 0, _ => False
  | _ + 1, [_] => True
  | fuel + 1, pairs =>
    let common := commonPrefixLen pairs
    if 0 < common then
      (∀ e ∈ pairs, common ≤ e.1.length) ∧ BuildReturns fuel (trim common pairs)
    else ∀ run ∈ nibbleRuns pairs, ∀ n ∈ runHead run,
      n.toNat < 16 ∧ (∀ e ∈ run, 1 ≤ e.1.length) ∧ BuildReturns fuel (trim 1 run)

variable {pairs run : List Entry} {n : UInt8}

lemma run_prefix (hr : run ∈ nibbleRuns pairs) (hn : n ∈ runHead run) :
    ∀ e ∈ run, [n] <+: e.1 := by
  have : IsTrans Entry fun x y => (x.1.head? == y.1.head?) = true := ⟨fun _ _ _ h h' => by simp_all⟩
  have hpw := (isChain_of_mem_splitBy hr).pairwise
  cases run with
  | nil => simp
  | cons e₀ run =>
    have hhd : ∀ e ∈ e₀ :: run, e.1.head? = some n := by
      refine forall_mem_cons.mpr ⟨hn, fun e he => ?_⟩
      exact (beq_iff_eq.mp (rel_of_pairwise_cons hpw he)).symm.trans hn
    intro e he
    obtain ⟨t, ht⟩ := head?_eq_some_iff.mp (hhd e he)
    exact ⟨t, ht.symm⟩

lemma buildReturns {fuel : Nat} (hnb : ∀ e ∈ pairs, Nibbles e.1) (h : keyMass pairs < fuel) :
    BuildReturns fuel pairs := by
  induction fuel generalizing pairs with
  | zero => omega
  | succ fuel ih =>
    match pairs with
    | [] => simp [BuildReturns, commonPrefixLen, nibbleRuns]
    | [_] => trivial
    | a :: b :: rest =>
      obtain ⟨p, hp, hpr⟩ := (le_commonPrefixLen_iff (cons_ne_nil a (b :: rest))).mp le_rfl
      unfold BuildReturns
      dsimp only
      split_ifs with hps
      · -- several keys lose a common prefix
        have hm := keyMass_trim hpr
        simp only [length_cons, Nat.mul_succ] at hm
        rw [hp] at hm
        exact ⟨fun e he => hp ▸ (hpr e he).length_le, ih (nibbled_trim hnb) (by omega)⟩
      · intro run hr n hn
        have hs : run <+ a :: b :: rest := by
          have hmm := sublist_flatten_of_mem hr
          rwa [nibbleRuns, flatten_splitBy] at hmm
        have hle : keyMass run ≤ keyMass (a :: b :: rest) :=
          (hs.map fun e : Entry => e.1.length).sum_le_sum (by simp)
        have hpr := run_prefix hr hn
        have hm := keyMass_trim hpr
        have hne : 0 < run.length := length_pos_iff.mpr (ne_nil_of_mem_splitBy hr)
        obtain ⟨e, he⟩ := exists_mem_of_length_pos hne
        refine ⟨UInt8.lt_iff_toNat_lt.mp (hnb e (hs.subset he) n ?_),
          fun e he => (hpr e he).length_le,
          ih (nibbled_trim fun e he => hnb e (hs.subset he)) ?_⟩
        · exact (hpr e he).subset mem_cons_self
        · simp only [length_singleton] at hm
          omega

/-- `mpt_root` returns for every list of pairs, and a hex-prefix encoding
determines its path and flag. -/
theorem trie_build_total :
    (∀ items : List Entry,
      let pairs := (items.map fun p => (keyToNibbles p.1, p.2)).insertionSort fun a b => a.1 ≤ b.1
      BuildReturns ((pairs.map fun p => p.1.length).sum + 1) pairs) ∧
      Set.InjOn (fun x : Bytes × Bool => hexPrefix x.1 x.2) {x | Nibbles x.1} := by
  refine ⟨fun items => buildReturns (fun e he => ?_) (Nat.lt_succ_self _), fun x hx y hy h => ?_⟩
  · obtain ⟨_, -, rfl⟩ := mem_map.mp ((mem_insertionSort _).mp he)
    rw [keyToNibbles_eq]
    exact nibbles_nibbles _
  · obtain ⟨hk, ht⟩ := hp_inj hx hy (by simpa [hexPrefix_eq hx, hexPrefix_eq hy] using h)
    exact Prod.ext hk ht

end Aii.Chain
