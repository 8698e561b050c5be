/-
Aii.Chain.TrieCorrect — `mpt_root` computes the Yellow Paper root.

The code builds a node from a SORTED LIST of entries, the paper composes
it from the SET of them.
-/
import Aii.Chain.Trie
import Aii.Chain.YellowPaper

namespace Aii.Chain

open Common Common.Rlp Common.Entries YellowPaper List UInt8 RlpTree Prod Nat

/-! ## Nibbles and hex-prefix -/

/-- Every element is a nibble. -/
def Nibbles (k : List UInt8) : Prop := ∀ n ∈ k, n < 16

lemma high_nibble (b : UInt8) : b >>> 4 = b / 16 := by
  refine UInt8.toNat_inj.mp ?_
  simp [shiftRight_eq_div_pow]

lemma low_nibble (b : UInt8) : b &&& 0x0F = b % 16 := by
  refine UInt8.toNat_inj.mp ?_
  simpa using and_two_pow_sub_one_eq_mod b.toNat 4

lemma keyToNibbles_eq (bs : Bytes) : keyToNibbles bs = nibbles bs := by
  simp [keyToNibbles, nibbles, high_nibble, low_nibble]

lemma nibbles_nibbles (bs : Bytes) : Nibbles (nibbles bs) := by
  intro n hn
  obtain ⟨b, -, hb⟩ := mem_flatMap.mp hn
  have hlt := b.toNat_lt
  simp [not_mem_nil] at hb
  rcases hb with rfl | rfl <;> simp [lt_iff_toNat_lt] <;> omega

lemma shift_or_nibble {a b : UInt8} (ha : a < 16) (hb : b < 16) :
    (a <<< 4) ||| b = 16 * a + b := by
  have hor := two_pow_add_eq_or_of_lt (i := 4) (UInt8.lt_iff_toNat_lt.mp hb) a.toNat
  rw [UInt8.lt_iff_toNat_lt] at ha hb
  simp [UInt8.reduceToNat] at ha hb
  have hs : a.toNat <<< (4 % 8) % 2 ^ 8 = 2 ^ 4 * a.toNat := by
    rw [shiftLeft_eq]
    show a.toNat * 16 % 256 = 16 * a.toNat
    omega
  refine UInt8.toNat_inj.mp ?_
  simp only [UInt8.toNat_or, UInt8.toNat_shiftLeft, UInt8.toNat_add, UInt8.toNat_mul,
    UInt8.reduceToNat, hs, ← hor]
  omega

variable {pairs : List Entry} {k p : List UInt8}

lemma packNibbles_eq (hk : Nibbles k) : packNibbles k = pack k := by
  induction k using packNibbles.induct with
  | case1 a b _ ih =>
    have ha := hk a (by simp)
    have hb := hk b (by simp)
    rw [packNibbles, pack, shift_or_nibble ha hb, ih fun n hn => hk n (by simp [hn])]
  | case2 k hsh => rw [packNibbles.eq_2 k hsh, pack.eq_2 k hsh]

lemma hexPrefix_eq (hk : Nibbles k) (t : Bool) : hexPrefix k t = hp k t := by
  have he : (if t then 2 else 0 : UInt8) <<< 4 = 16 * flag t := by cases t <;> rfl
  cases k with
  | nil => simp [hexPrefix, hp, he]
  | cons n rest =>
    have hn := hk n mem_cons_self
    have hrs : Nibbles rest := (forall_mem_cons.mp hk).2
    have ho : (((if t then 2 else 0 : UInt8) ||| 1) <<< 4) ||| n = 16 * (flag t + 1) + n := by
      cases t <;> exact shift_or_nibble (by decide) hn
    simp [hexPrefix, hp, he, ho, packNibbles_eq hk, packNibbles_eq hrs]

variable (c : Crypto) {fuel m : Nat} {n : UInt8} {run : List Entry}

lemma childRef_encode (t : RlpTree) : childRef c t.encode = (ref c (some t)).encode := by
  unfold childRef ref
  dsimp only
  split_ifs <;> rfl

lemma rlpLeaf_eq (hk : Nibbles k) (v : Bytes) :
    rlpLeaf k v = (list [.str (hp k true), .str v]).encode := by
  simp [rlpLeaf, encode, encodeAll, hexPrefix_eq hk]

lemma rlpExtension_eq (hpa : Nibbles p) (t : RlpTree) :
    rlpExtension c p t.encode = (list [.str (hp p false), ref c (some t)]).encode := by
  simp [rlpExtension, encode, encodeAll, hexPrefix_eq hpa, childRef_encode]

def slotBytes : Option RlpTree → Bytes
  | none => []
  | some t => t.encode

lemma rlpBranch_eq (children : Fin 16 → Option RlpTree) (value : Bytes) :
    rlpBranch c (ofFn fun a => slotBytes (children a)) value =
      (list (ofFn (fun a => ref c (children a)) ++ [.str value])).encode := by
  have hsl : ∀ o : Option RlpTree,
      (if (slotBytes o).isEmpty then [0x80] else childRef c (slotBytes o)) = (ref c o).encode := by
    intro o
    cases o with
    | none => rfl
    | some t =>
      rw [if_neg (by simpa [slotBytes] using t.encode_ne_nil)]
      exact childRef_encode c t
  simp only [rlpBranch, encode, encodeAll_eq_flatMap, flatMap_append,
    ofFn_eq_map, flatMap_map, hsl, flatMap_cons, flatMap_nil, append_nil]

lemma le_commonLen_iff {a b : Bytes} :
    m ≤ commonLen a b ↔ ∃ p, p.length = m ∧ p <+: a ∧ p <+: b := by
  induction a, b using commonLen.induct generalizing m with
  | case1 _ b _ ih =>
    rw [commonLen, if_pos rfl]
    cases m with
    | zero => simp
    | succ =>
      rw [add_le_add_iff_right, ih]
      constructor
      · rintro ⟨p, rfl, ha, hb⟩
        exact ⟨b :: p, rfl, by simpa using ha, by simpa using hb⟩
      · rintro ⟨_ | ⟨x, p⟩, hl, ha, hb⟩
        · cases hl
        · grind
  | case2 _ _ _ _ hab =>
    rw [commonLen, if_neg hab]
    constructor
    · simp_all
    · rintro ⟨_ | ⟨x, p⟩, rfl, ha, hb⟩
      · exact le_refl _
      · grind
  | case3 a b hsh =>
    rw [commonLen.eq_2 a b hsh]
    constructor
    · simp_all
    · rintro ⟨_ | ⟨x, p⟩, rfl, ⟨u, rfl⟩, ⟨w, rfl⟩⟩
      · exact le_refl _
      · exact absurd rfl (hsh _ _ _ _ rfl)

lemma le_foldl_min_iff {α : Type} (g : α → Nat) (l : List α) (n m : Nat) :
    m ≤ l.foldl (fun n a => min n (g a)) n ↔ m ≤ n ∧ ∀ a ∈ l, m ≤ g a := by
  induction l generalizing n with
  | nil => simp
  | cons _ _ ih =>
    rw [foldl_cons, ih, Nat.le_min, forall_mem_cons, and_assoc]

lemma le_commonPrefixLen_iff (hne : pairs ≠ []) :
    m ≤ commonPrefixLen pairs ↔ ∃ p, p.length = m ∧ ∀ e ∈ pairs, p <+: e.1 := by
  obtain ⟨⟨k, v⟩, _, rfl⟩ := exists_cons_of_ne_nil hne
  rw [commonPrefixLen, le_foldl_min_iff (fun e : Entry => commonLen k e.1)]
  constructor
  · rintro ⟨hk, hrs⟩
    refine ⟨k.take m, by simpa using hk, ?_⟩
    intro e he
    rcases mem_cons.mp he with rfl | he
    · exact take_prefix m k
    · obtain ⟨p, rfl, hpk, hpe⟩ := le_commonLen_iff.mp (hrs e he)
      rwa [← prefix_iff_eq_take.mp hpk]
  · rintro ⟨p, rfl, ha⟩
    have hpk := ha (k, v) mem_cons_self
    refine ⟨hpk.length_le, fun e he => ?_⟩
    exact le_commonLen_iff.mpr ⟨p, rfl, hpk, ha e (mem_cons_of_mem _ he)⟩

/-! ## Sorted entries -/

/-- What `build_node` is called on: keys in strictly increasing order,
made of nibbles. -/
structure Sorted (pairs : List Entry) : Prop where
  ascending : pairs.Pairwise fun a b => a.1 < b.1
  nibbled : ∀ e ∈ pairs, Nibbles e.1

def listed (pairs : List Entry) : Set Entry := {e | e ∈ pairs}

def keyMass (pairs : List Entry) : Nat := (pairs.map fun e => e.1.length).sum

lemma append_lt_append_iff (p : List UInt8) {a b : List UInt8} : p ++ a < p ++ b ↔ a < b := by
  induction p with
  | nil => simp
  | cons _ _ ih => simp [ih]

/-- The entries without the first `n` letters of their keys. -/
def trim (n : Nat) (pairs : List Entry) : List Entry := pairs.map fun e => (e.1.drop n, e.2)

/-- The entries with first nibble `n`, without it. -/
def group (n : UInt8) (pairs : List Entry) : List Entry :=
  trim 1 (pairs.filter fun e => e.1.head? == some n)

lemma nibbled_trim {n : Nat} (h : ∀ e ∈ pairs, Nibbles e.1) :
    ∀ e ∈ trim n pairs, Nibbles e.1 := by
  intro e he m hm
  obtain ⟨e', he', rfl⟩ := mem_map.mp he
  exact h e' he' m (mem_of_mem_drop hm)

namespace Sorted

variable {pairs : List Entry}

lemma nodup_keys (h : Sorted pairs) : (pairs.map fst).Nodup := by
  refine pairwise_map.mpr (h.ascending.imp ?_)
  intro a b hlt heq
  exact List.lt_irrefl b.1 (heq ▸ hlt)

lemma eq_of_key_eq (h : Sorted pairs) {e e' : Entry} (he : e ∈ pairs) (he' : e' ∈ pairs)
    (hk : e.1 = e'.1) : e = e' :=
  inj_on_of_nodup_map h.nodup_keys he he' hk

lemma nontrivial {a b : Entry} (h : Sorted (a :: b :: pairs)) :
    (listed (a :: b :: pairs)).Nontrivial := by
  refine ⟨a, mem_cons_self, b, mem_cons_of_mem _ mem_cons_self, ?_⟩
  rintro rfl
  have hlt := rel_of_pairwise_cons h.ascending mem_cons_self
  exact List.lt_irrefl _ hlt

lemma filter (h : Sorted pairs) (q : Entry → Bool) : Sorted (pairs.filter q) :=
  ⟨h.ascending.filter q, fun e he => h.nibbled e (mem_of_mem_filter he)⟩

lemma trim (h : Sorted pairs) {p : List UInt8} (hp : ∀ e ∈ pairs, p <+: e.1) :
    Sorted (trim p.length pairs) := by
  refine ⟨pairwise_map.mpr (h.ascending.imp_of_mem ?_), nibbled_trim h.nibbled⟩
  intro a b ha hb hlt
  obtain ⟨k, hk⟩ := hp a ha
  obtain ⟨k', hk'⟩ := hp b hb
  rw [← hk, ← hk', append_lt_append_iff] at hlt
  simpa [← hk, ← hk'] using hlt

end Sorted

lemma listed_trim (hp : ∀ e ∈ pairs, p <+: e.1) :
    listed pairs = under p '' listed (trim p.length pairs) := by
  ext e
  constructor
  · intro he
    obtain ⟨k, hk⟩ := hp e he
    refine ⟨(k, e.2), mem_map.mpr ⟨e, he, by simp [← hk]⟩, Prod.ext hk rfl⟩
  · rintro ⟨_, ht, rfl⟩
    obtain ⟨e, he, rfl⟩ := mem_map.mp ht
    obtain ⟨k, hk⟩ := hp e he
    have hbk : under p (e.1.drop p.length, e.2) = e := Prod.ext (by simp [under, ← hk]) rfl
    exact hbk.symm ▸ he

lemma keyMass_trim (hp : ∀ e ∈ pairs, p <+: e.1) :
    keyMass (trim p.length pairs) + p.length * pairs.length = keyMass pairs := by
  induction pairs with
  | nil => rfl
  | cons e _ ih =>
    have hl := (hp e mem_cons_self).length_le
    have hrs := ih (forall_mem_cons.mp hp).2
    simp [keyMass, trim, map_cons, sum_cons, length_cons, length_drop, mul_succ] at hrs ⊢
    omega

lemma keyMass_filter_le (pairs : List Entry) (q : Entry → Bool) :
    keyMass (pairs.filter q) ≤ keyMass pairs :=
  (filter_sublist.map fun e : Entry => e.1.length).sum_le_sum (by simp)

lemma prefix_of_mem_filter (pairs : List Entry) (n : UInt8) :
    ∀ e ∈ pairs.filter (fun e => e.1.head? == some n), [n] <+: e.1 := by
  intro e he
  have hhd : e.1.head? = some n := by simpa using (mem_filter.mp he).2
  obtain ⟨k, hk⟩ := head?_eq_some_iff.mp hhd
  exact ⟨k, hk.symm⟩

lemma after_listed (n : UInt8) (pairs : List Entry) :
    after [n] (listed pairs) = listed (group n pairs) := by
  have hf : after [n] (listed pairs) =
      after [n] (listed (pairs.filter fun e => e.1.head? == some n)) := by
    ext e
    simp [mem_after, listed]
  have ht := listed_trim (prefix_of_mem_filter pairs n)
  rw [hf, ht, after_under_image]
  rfl

lemma Sorted.group (h : Sorted pairs) (n : UInt8) : Sorted (group n pairs) :=
  (h.filter _).trim (prefix_of_mem_filter pairs n)

lemma keyMass_group_lt (hne : group n pairs ≠ []) : keyMass (group n pairs) < keyMass pairs := by
  have ht := keyMass_trim (prefix_of_mem_filter pairs n)
  have hle := keyMass_filter_le pairs fun e => e.1.head? == some n
  have hp : 0 < (pairs.filter fun e => e.1.head? == some n).length := by
    refine length_pos_iff.mpr fun hn => hne ?_
    rw [Chain.group, hn]
    rfl
  rw [Chain.group]
  simp at ht
  omega

/-! ### The grouping loop -/

/-- Where a first letter stands in the order of the keys. -/
def rank : Option UInt8 → Nat
  | none => 0
  | some n => n.toNat + 1

lemma rank_injective : Function.Injective rank := by
  intro a b h
  cases a <;> cases b
  · rfl
  · cases h
  · cases h
  · rw [UInt8.toNat_inj.mp (succ.inj h)]

lemma rank_head_le {k' : List UInt8} (h : k < k') : rank k.head? ≤ rank k'.head? := by
  cases k with
  | nil => exact zero_le _
  | cons =>
    cases k' with
    | nil => exact absurd h (not_lt_nil _)
    | cons =>
      rcases cons_lt_cons_iff.mp h with hlt | ⟨rfl, -⟩
      · exact succ_le_succ (le_of_lt (lt_iff_toNat_lt.mp hlt))
      · exact le_refl _

def runHead (run : List Entry) : Option UInt8 := (run.headD ([], [])).1.head?

lemma Sorted.run_eq (h : Sorted pairs) (hr : run ∈ nibbleRuns pairs) :
    run = pairs.filter fun e => e.1.head? == runHead run := by
  obtain ⟨e, _, rfl⟩ := exists_cons_of_ne_nil (ne_nil_of_mem_splitBy hr)
  exact run_eq_filter rank_injective (h.ascending.imp rank_head_le) hr mem_cons_self

lemma Sorted.mem_runHead (h : Sorted pairs) {n : Option UInt8} :
    n ∈ (nibbleRuns pairs).map runHead ↔ ∃ e ∈ pairs, e.1.head? = n := by
  have hf : (nibbleRuns pairs).flatten = pairs := flatten_splitBy _ _
  rw [mem_map]
  constructor
  · rintro ⟨run, hr, rfl⟩
    obtain ⟨e, _, rfl⟩ := exists_cons_of_ne_nil (ne_nil_of_mem_splitBy hr)
    exact ⟨e, hf ▸ mem_flatten.mpr ⟨_, hr, mem_cons_self⟩, rfl⟩
  · rintro ⟨e, he, rfl⟩
    rw [← hf] at he
    obtain ⟨run, hr, her⟩ := mem_flatten.mp he
    refine ⟨run, hr, ?_⟩
    rw [h.run_eq hr] at her
    exact (beq_iff_eq.mp (mem_filter.mp her).2).symm

/-- One turn of the grouping loop, for a run with first letter `n`. -/
def place (node : UInt8 → Bytes) (value : Bytes) (acc : List Bytes × Bytes) :
    Option UInt8 → List Bytes × Bytes
  | none => (acc.1, value)
  | some n => (acc.1.set n.toNat (node n), acc.2)

/-- The loop fills the slots of the letters it met and no other. -/
lemma foldl_place {w : Nat} (hw : w ≤ 256) (node : UInt8 → Bytes) (value : Bytes)
    (ns : List (Option UInt8)) :
    ns.foldl (place node value) (replicate w [], []) =
      (ofFn fun a : Fin w => if some (ofNat a) ∈ ns then node (ofNat a) else [],
        if none ∈ ns then value else []) := by
  induction ns using reverseRecOn with
  | nil => simp
  | append_singleton _ n ih =>
    rw [foldl_append, ih]
    cases n with
    | none => simp [place]
    | some n =>
      refine Prod.ext ?_ (by simp [place])
      refine ext_getElem (by simp [place]) fun i hi hi' => ?_
      have hiw : i < w := by simpa using hi'
      by_cases hn : n.toNat = i
      · subst hn
        simp [place]
      · have hne : ofNat i ≠ n := by
          rintro rfl
          exact hn (headByte_toNat (by omega))
        simp [place, hn, hne]

/-- One turn of the grouping loop of `build_node`. -/
def branchStep (fuel : Nat) (acc : List Bytes × Bytes) (run : List Entry) : List Bytes × Bytes :=
  match run with
  | [] => acc
  | (k, v) :: more =>
    match k with
    | [] => (acc.1, (more.getLastD (k, v)).2)
    | n :: _ => (acc.1.set n.toNat (buildNode c fuel (trim 1 run)), acc.2)

lemma buildNode_several (fuel : Nat) (a b : Entry) (rest : List Entry) :
    buildNode c (fuel + 1) (a :: b :: rest) = let pairs := a :: b :: rest
      let common := commonPrefixLen pairs
      if 0 < common then rlpExtension c (a.1.take common) (buildNode c fuel (trim common pairs))
      else
        let acc := (nibbleRuns pairs).foldl (branchStep c fuel) (replicate 16 [], [])
        rlpBranch c acc.1 acc.2 := rfl

variable {c}

/-- The value the loop stores: that of the last empty key. -/
def branchValue (pairs : List Entry) : Bytes :=
  ((pairs.filter fun e => e.1.head? == none).getLastD ([], [])).2

lemma branchStep_eq_place (h : Sorted pairs) (hr : run ∈ nibbleRuns pairs) (fuel : Nat)
    (acc : List Bytes × Bytes) : branchStep c fuel acc run =
      place (fun n => buildNode c fuel (group n pairs)) (branchValue pairs) acc (runHead run) := by
  have hne := ne_nil_of_mem_splitBy hr
  have heq := h.run_eq hr
  cases run with
  | nil => exact absurd rfl hne
  | cons e more =>
    obtain ⟨k, v⟩ := e
    cases k with
    | nil =>
      have hnn : pairs.filter (fun e => e.1.head? == none) = ([], v) :: more := heq.symm
      show (acc.1, (more.getLastD ([], v)).2) = (acc.1, branchValue pairs)
      rw [branchValue, hnn, getLastD_cons]
    | cons n k =>
      have hso : pairs.filter (fun e => e.1.head? == some n) = (n :: k, v) :: more := heq.symm
      show _ = (acc.1.set n.toNat (buildNode c fuel (group n pairs)), acc.2)
      rw [group, hso]
      rfl

lemma group_ne_nil_iff : group n pairs ≠ [] ↔ ∃ e ∈ pairs, e.1.head? = some n := by
  simp [group, trim]

/-- `t?` is the tree of the entries in `pairs`, absent if there are none. -/
def Built (c : Crypto) (fuel : Nat) (pairs : List Entry) (t? : Option RlpTree) : Prop :=
  match t? with
  | none => pairs = []
  | some t => pairs ≠ [] ∧ Composed c (listed pairs) t ∧ buildNode c fuel pairs = t.encode

lemma branchValue_eq_nil (h : ∀ v, ([], v) ∉ pairs) : branchValue pairs = [] := by
  have hn : pairs.filter (fun e => e.1.head? == none) = [] := by
    rw [filter_eq_nil_iff]
    rintro ⟨k, v⟩ he hnn
    obtain rfl : k = [] := by simpa using hnn
    exact h v he
  rw [branchValue, hn]
  rfl

lemma foldl_branchStep (h : Sorted pairs) {children : Fin 16 → Option RlpTree}
    (hc : ∀ n : Fin 16, Built c fuel (group (ofNat n) pairs) (children n)) :
    (nibbleRuns pairs).foldl (branchStep c fuel) (replicate 16 [], []) =
      (ofFn fun n => slotBytes (children n), branchValue pairs) := by
  have hp : ∀ acc, ∀ run ∈ nibbleRuns pairs, branchStep c fuel acc run =
      place (fun n => buildNode c fuel (group n pairs)) (branchValue pairs) acc (runHead run) :=
    fun acc run hr => branchStep_eq_place h hr fuel acc
  rw [foldl_ext _ _ _ hp, ← foldl_map, foldl_place (by decide)]
  refine congrArg₂ mk (congrArg ofFn (funext fun n => ?_)) ?_
  · have hbu := hc n
    simp only [h.mem_runHead, ← group_ne_nil_iff]
    cases hn : children n with
    | none =>
      rw [hn] at hbu
      exact if_neg (not_not_intro hbu)
    | some =>
      rw [hn] at hbu
      obtain ⟨hne, -, hnd⟩ := hbu
      rw [if_pos hne, hnd, slotBytes]
  · simp only [h.mem_runHead]
    split_ifs with hem
    · rfl
    · exact (branchValue_eq_nil (by simpa using hem)).symm

lemma Sorted.branchValue_eq (h : Sorted pairs) {v : Bytes} (hv : ([], v) ∈ pairs) :
    branchValue pairs = v := by
  have hm : ([], v) ∈ pairs.filter fun e => e.1.head? == none := mem_filter.mpr ⟨hv, rfl⟩
  obtain ⟨e, more, hc⟩ := exists_cons_of_ne_nil (ne_nil_of_mem hm)
  have hlast : more.getLastD e ∈ pairs.filter fun e => e.1.head? == none := by
    rw [hc]
    exact getLastD_mem_cons
  obtain ⟨hin, hem⟩ := mem_filter.mp hlast
  have hk : (more.getLastD e).1 = [] := by simpa using hem
  rw [branchValue, hc, getLastD_cons, h.eq_of_key_eq hin hv hk]

lemma not_shared_of_commonPrefixLen (hne : pairs ≠ []) (hp : ∀ e ∈ pairs, p <+: e.1)
    (hl : commonPrefixLen pairs = p.length) : ¬ Shared (listed (trim p.length pairs)) := by
  rintro ⟨a, ha⟩
  have hln : p.length + 1 ≤ commonPrefixLen pairs := by
    refine (le_commonPrefixLen_iff hne).mpr ⟨p ++ [a], by simp, ?_⟩
    intro e he
    obtain ⟨k, hk⟩ := hp e he
    have hm : (e.1.drop p.length, e.2) ∈ trim p.length pairs := mem_map.mpr ⟨e, he, rfl⟩
    obtain ⟨k', hk'⟩ := ha _ hm
    have htl : k = a :: k' := by simpa [← hk] using hk'
    rw [← hk, htl]
    exact ⟨k', by simp⟩
  omega

/-- **The builder composes.** With enough fuel, the node built from
sorted entries is the encoding of their tree. -/
lemma buildNode_composed (h : Sorted pairs) (hne : pairs ≠ []) (hf : keyMass pairs < fuel) :
    ∃ t, Composed c (listed pairs) t ∧ buildNode c fuel pairs = t.encode := by
  induction fuel generalizing pairs with
  | zero => exact absurd hf (Nat.not_lt_zero _)
  | succ fuel ih =>
    match pairs, hne with
    | [(k, v)], _ =>
      have hk := h.nibbled (k, v) mem_cons_self
      have ho : listed [(k, v)] = {(k, v)} := by
        ext e
        simp [listed]
      exact ⟨_, ho ▸ Composed.leaf k v, rlpLeaf_eq hk v⟩
    | a :: b :: rest, hne =>
      obtain ⟨p, hl, hpr⟩ := (le_commonPrefixLen_iff hne).mp (Nat.le_refl _)
      have hsi := not_shared_of_commonPrefixLen hne hpr hl.symm
      have hm := keyMass_trim hpr
      rw [buildNode_several]
      dsimp only
      rw [← hl]
      split_ifs with hc
      · -- an extension over the trimmed entries
        have hpa := (prefix_iff_eq_take.mp (hpr a mem_cons_self)).symm
        have hd : 0 < p.length * (a :: b :: rest).length := Nat.mul_pos hc (by simp)
        obtain ⟨t, ht, hnd⟩ := ih (h.trim hpr) (by simp [trim]) (by omega)
        have hpn : Nibbles p := by
          intro n hn
          have hin := (hpr a mem_cons_self).subset hn
          exact h.nibbled a mem_cons_self n hin
        refine ⟨.list [.str (hp p false), ref c (some t)], ?_, ?_⟩
        · rw [listed_trim hpr]
          exact .extension (length_pos_iff.mp hc) (h.trim hpr).nontrivial hsi ht
        · rw [hpa, hnd]
          exact rlpExtension_eq c hpn t
      · -- a branch over the groups
        obtain rfl : p = [] := length_eq_zero_iff.mp (Nat.eq_zero_of_not_pos hc)
        have hb : ∀ n : Fin 16, ∃ t?, Built c fuel (group (ofNat n) (a :: b :: rest)) t? := by
          intro n
          by_cases hnl : group (ofNat n) (a :: b :: rest) = []
          · exact ⟨none, hnl⟩
          · have hlt := keyMass_group_lt hnl
            obtain ⟨t, ht, hnd⟩ := ih (h.group _) hnl (by omega)
            exact ⟨some t, hnl, ht, hnd⟩
        choose children hch using hb
        rw [foldl_branchStep h hch]
        refine ⟨_, .branch h.nontrivial ?_ ?_ ?_ (fun v => h.branchValue_eq) branchValue_eq_nil,
          rlpBranch_eq c children _⟩
        · simpa [trim] using hsi
        · intro n t hn
          have hbu := hch n
          rw [hn] at hbu
          rw [after_listed]
          exact hbu.2.1
        · intro n hn
          have hbu := hch n
          rw [hn] at hbu
          rw [after_listed, show group _ _ = [] from hbu]
          simp [listed]

/-! ## The root -/

lemma nibbles_cons (b : UInt8) (k : Bytes) : nibbles (b :: k) = b / 16 :: b % 16 :: nibbles k :=
  rfl

lemma nibbles_injective : Function.Injective nibbles := by
  intro k k' h
  induction k generalizing k' with
  | nil =>
    cases k' with
    | nil => rfl
    | cons => cases h
  | cons b _ ih =>
    cases k' with
    | nil => cases h
    | cons b' =>
      simp [nibbles_cons, cons.injEq, ← UInt8.toNat_inj, UInt8.toNat_div,
        UInt8.toNat_mod, UInt8.reduceToNat] at h
      obtain ⟨hhh, hl, hrs⟩ := h
      have hbe : b.toNat = b'.toNat := by omega
      rw [UInt8.toNat_inj.mp hbe, ih hrs]

/-- The entries of a map in any order, each once. -/
structure Lists (items : List (Bytes × Bytes)) (m : Bytes → Option Bytes) : Prop where
  nodup : items.Nodup
  mem : ∀ k v, (k, v) ∈ items ↔ m k = some v

/-- The pairs `mpt_root` hands to `build_node`. -/
def sortedPairs (items : List (Bytes × Bytes)) : List Entry :=
  (items.map fun p => (keyToNibbles p.1, p.2)).insertionSort fun a b => a.1 ≤ b.1

namespace Lists

variable {items : List (Bytes × Bytes)} {m : Bytes → Option Bytes}

lemma nodup_keys (h : Lists items m) : (items.map Prod.fst).Nodup := by
  refine pairwise_map.mpr (h.nodup.imp_of_mem ?_)
  intro a b ha hb hne hk
  have hv : some a.2 = some b.2 := by
    rw [← (h.mem a.1 a.2).mp ha, ← (h.mem b.1 b.2).mp hb, hk]
  exact hne (Prod.ext hk (Option.some.inj hv))

lemma listed_sortedPairs (h : Lists items m) : listed (sortedPairs items) = entries m := by
  ext ⟨x, v⟩
  show (x, v) ∈ sortedPairs items ↔ ∃ k, x = nibbles k ∧ m k = some v
  simp only [sortedPairs, mem_insertionSort, mem_map, mk.injEq, Prod.exists, keyToNibbles_eq]
  constructor
  · rintro ⟨k, v, hkv, rfl, rfl⟩
    exact ⟨k, rfl, (h.mem k v).mp hkv⟩
  · rintro ⟨k, rfl, hkv⟩
    exact ⟨k, v, (h.mem k v).mpr hkv, rfl, rfl⟩

lemma sorted (h : Lists items m) : Sorted (sortedPairs items) := by
  have hpm := perm_insertionSort (fun a b : Entry => a.1 ≤ b.1)
    (items.map fun p => (keyToNibbles p.1, p.2))
  constructor
  · have hle : (sortedPairs items).Pairwise fun a b => a.1 ≤ b.1 := by
      have ht : Std.Total fun a b : Entry => a.1 ≤ b.1 := ⟨fun a b => List.le_total a.1 b.1⟩
      have htr : IsTrans Entry fun a b => a.1 ≤ b.1 := ⟨fun a b d => List.le_trans⟩
      exact pairwise_insertionSort _ _
    have hne : (sortedPairs items).Pairwise fun a b => a.1 ≠ b.1 := by
      refine (hpm.pairwise_iff (fun hab => hab.symm)).mpr (pairwise_map.mpr ?_)
      refine (pairwise_map.mp h.nodup_keys).imp fun hab heq => hab ?_
      simp [keyToNibbles_eq] at heq
      exact nibbles_injective heq
    refine (hle.and hne).imp fun hab => ?_
    by_contra hn
    exact hab.2 (List.le_antisymm hab.1 (List.not_lt.mp hn))
  · intro e he
    obtain ⟨p, -, rfl⟩ := mem_map.mp (hpm.mem_iff.mp he)
    rw [keyToNibbles_eq]
    exact nibbles_nibbles p.1

end Lists

lemma mptRoot_isRoot {items : List (Bytes × Bytes)} {m : Bytes → Option Bytes} (h : Lists items m)
    (hem : c.keccak256 [0x80] = EMPTY_TRIE_HASH) :
    IsRoot c m (mptRoot c items) := by
  cases items with
  | nil =>
    refine .inl ⟨?_, hem.symm⟩
    rw [← h.listed_sortedPairs]
    simp [listed, sortedPairs]
  | cons item items =>
    have hne : sortedPairs (item :: items) ≠ [] := by
      refine ne_nil_of_length_pos ?_
      rw [sortedPairs, length_insertionSort]
      simp
    obtain ⟨t, ht, hn⟩ := buildNode_composed h.sorted hne (lt_succ_self _)
    rw [h.listed_sortedPairs] at ht
    exact .inr ⟨t, ht, congrArg c.keccak256 hn⟩

/-- **`mpt_root` is the Yellow Paper root**, in whatever order the entries
are listed. -/
theorem isRoot_iff_eq_mptRoot {items : List (Bytes × Bytes)} {m : Bytes → Option Bytes}
    (h : Lists items m) (hempty : c.keccak256 [0x80] = EMPTY_TRIE_HASH) (root : H256) :
    IsRoot c m root ↔ root = mptRoot c items := by
  have hrt := mptRoot_isRoot h hempty
  exact ⟨fun hm => hm.unique hrt, fun heq => heq ▸ hrt⟩

/-- A hash that keeps the length and the first bytes. It agrees with
Keccak-256 on the encoding of the empty string. -/
def shapeCrypto : Crypto :=
  { Crypto.reference with
    keccak256 := fun bs =>
      if bs = [0x80] then EMPTY_TRIE_HASH
      else arrOfNat 32 (bs.length * 256 ^ 4 + ofBe (bs.take 4)) }

/-- A branch below an extension: the value of the shorter key sits in the
branch. -/
theorem isRoot_prefix_keys :
    let m : Bytes → Option Bytes := fun k =>
      if k = [0x12] then some [7] else if k = [0x12, 0x34] then some [8] else none
    IsRoot shapeCrypto m (mptRoot shapeCrypto [([0x12, 0x34], [8]), ([0x12], [7])]) := by
  intro m
  refine (isRoot_iff_eq_mptRoot ⟨by decide, ?_⟩ rfl _).mpr rfl
  intro k v
  simp [not_mem_nil, m]
  split_ifs with h1 h2
  · simp [h1, eq_comm]
  · simp [h2, eq_comm]
  · simp [h1, h2]

end Aii.Chain
