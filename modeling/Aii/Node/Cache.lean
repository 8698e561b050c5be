/-
Aii.Node.Cache — what the block cache holds, and how often a block is
executed.

A block is executed exactly when none of the newest `MAX_BLOCKS_IN_MEMORY`
has its hash or number.
-/
import Aii.Node.Commit

namespace Aii.Node

open Common Chain List BlockStore OrderedMap.Represents Rlp Header UInt64

def newest (history : List Block) : List Block :=
  history.drop (history.length - MAX_BLOCKS_IN_MEMORY)

/-- The index holds exactly the blocks of `window`, oldest first. -/
structure Caches (c : Crypto) (s : BlockStore) (window : List Block) : Prop where
  order : s.order = window.map (·.hash c)
  distinct : window.Pairwise fun x y => x.hash c ≠ y.hash c ∧ x.header.number ≠ y.header.number
  byHash : ∀ k header, s.byHash[k]? = some header ↔
    ∃ block ∈ window, (block.hash c).toList = k ∧ block.header = header
  byNumber : ∀ n hash, s.byNumber[n]? = some hash ↔
    ∃ block ∈ window, block.header.number = n ∧ block.hash c = hash

section Calls

variable (c : Crypto) (revm : Revm) (spec : ChainSpec)

/-- The blocks that are executed in a sequence of `commit_block` calls. -/
def executedBlocks : NodeState → List Block → List Block
  | _, [] => []
  | s, block :: calls =>
    (if applies c s block then [block] else []) ++
      executedBlocks (commitBlock c revm spec s block) calls

def commitCalls (s : NodeState) (calls : List Block) : NodeState :=
  calls.foldl (commitBlock c revm spec) s

end Calls

section Cache

variable {c : Crypto} {revm : Revm} {spec : ChainSpec} {s : BlockStore} {window : List Block}
  {block : Block} {history : List Block} {n : NodeState}

lemma newest_append (history : List Block) (block : Block) : newest (history ++ [block]) =
      (newest history ++ [block]).drop
        ((newest history ++ [block]).length - MAX_BLOCKS_IN_MEMORY) := by
  have hp : 0 < MAX_BLOCKS_IN_MEMORY := by decide
  unfold newest
  generalize MAX_BLOCKS_IN_MEMORY = size at hp ⊢
  simp only [length_append, length_drop, length_singleton]
  by_cases hsh : history.length < size
  · have hkp : history.length - size = 0 := by omega
    have hrm : history.length + 1 - size = 0 := by omega
    simp [hkp, hrm]
  · -- one block is dropped for the one that is added
    have ho : history.length - (history.length - size) + 1 - size = 1 := by omega
    have hm : history.length + 1 - size = history.length - size + 1 := by omega
    rw [ho, hm, drop_append_of_le_length (by omega),
      drop_append_of_le_length (by rw [length_drop]; omega), drop_drop]

lemma mem_of_mem_newest (h : block ∈ newest history) : block ∈ history := mem_of_mem_drop h

lemma Caches.empty : Caches c .empty [] where
  order := rfl
  distinct := List.Pairwise.nil
  byHash k header := by simp [BlockStore.empty]
  byNumber n hash := by simp [BlockStore.empty]

lemma Caches.insert (h : Caches c s window)
    (hn : ∀ x ∈ window, x.hash c ≠ block.hash c ∧ x.header.number ≠ block.header.number) :
    Caches c (s.insert c block) (window ++ [block]) where
  order := by simp [BlockStore.insert, h.order]
  distinct := by
    refine pairwise_append.mpr ⟨h.distinct, pairwise_singleton _ _, ?_⟩
    intro x hx y hy
    obtain rfl := mem_singleton.mp hy
    exact hn x hx
  byHash := OrderedMap.Represents.insert h.byHash fun x hx => mt toList_inj.mp (hn x hx).1
  byNumber := OrderedMap.Represents.insert h.byNumber fun x hx => (hn x hx).2

lemma Caches.evictOldest (h : Caches c s (block :: window)) :
    Caches c (s.evictOldest c) window := by
  obtain ⟨hft, hrs⟩ := pairwise_cons.mp h.distinct
  have horder : s.order = block.hash c :: window.map (·.hash c) := h.order
  have hhe := get h.byHash mem_cons_self
  rw [BlockStore.evictOldest, horder]
  dsimp only
  rw [hhe]
  exact ⟨rfl, hrs, erase h.byHash fun x hx => mt toList_inj.mp (hft x hx).1.symm,
    erase h.byNumber fun x hx => (hft x hx).2.symm⟩

lemma Caches.evict (h : Caches c s window) (n : Nat) :
    Caches c (BlockStore.evict c n s) (window.drop n) := by
  induction n generalizing s window with
  | zero => exact h
  | succ _ ih =>
    cases window with
    | nil =>
      have hil : s.evictOldest c = s := by
        have horder : s.order = [] := h.order
        rw [BlockStore.evictOldest, horder]
      rw [BlockStore.evict, hil]
      have hrs := ih h
      rw [drop_nil] at hrs ⊢
      exact hrs
    | cons => exact ih h.evictOldest

lemma Caches.index (h : Caches c s (newest history))
    (hn : ∀ x ∈ newest history, x.hash c ≠ block.hash c ∧ x.header.number ≠ block.header.number) :
    Caches c (s.index c block) (newest (history ++ [block])) := by
  have hi := h.insert hn
  have hlh : (s.insert c block).order.length = (newest history ++ [block]).length := by
    rw [hi.order, length_map]
  unfold BlockStore.index
  dsimp only
  rw [hlh, newest_append]
  exact hi.evict _

lemma Caches.applies_iff (h : Caches c n.blocks window) (block : Block) :
    applies c n block = true ↔
      ∀ x ∈ window, x.hash c ≠ block.hash c ∧ x.header.number ≠ block.header.number := by
  have hc : n.blocks.byHash.contains (block.hash c).toList = true ↔
      ∃ x ∈ window, x.hash c = block.hash c := by
    rw [Std.ExtTreeMap.contains_eq_isSome_getElem?, Option.isSome_iff_exists]
    simp only [h.byHash, toList_inj]
    constructor
    · grind
    · simp_all
  have hf : forkAt c n.blocks block = none ↔
      ∀ x ∈ window, x.header.number = block.header.number → x.hash c = block.hash c := by
    rw [forkAt, Option.filter_eq_none_iff]
    simp only [h.byNumber]
    constructor
    · intro ha x hx hnm
      simpa using ha (x.hash c) ⟨x, hx, hnm, rfl⟩
    · grind
  rw [applies,
    Bool.and_eq_true, Bool.not_eq_true', ← Bool.not_eq_true, hc, Option.isNone_iff_eq_none, hf]
  constructor
  · grind
  · grind

lemma Caches.commitBlock (h : Caches c n.blocks (newest history)) (block : Block) :
    Caches c (commitBlock c revm spec n block).blocks
      (newest (history ++ if applies c n block then [block] else [])) := by
  by_cases has : applies c n block = true
  · rw [commitBlock_of_applies has, if_pos has]
    dsimp only
    exact h.index ((h.applies_iff block).mp has)
  · rw [if_neg has, append_nil]
    rcases commitBlock_of_not_applies has with heq | ⟨canonical, heq⟩ <;>
      rwa [heq]

lemma Caches.commitCalls (h : Caches c n.blocks (newest history)) (calls : List Block) :
    Caches c (commitCalls c revm spec n calls).blocks
      (newest (history ++ executedBlocks c revm spec n calls)) := by
  induction calls generalizing n history with
  | nil =>
    rw [executedBlocks, append_nil]
    exact h
  | cons block _ ih =>
    rw [executedBlocks, ← append_assoc]
    exact ih (h.commitBlock block)

lemma executedBlocks_append (n : NodeState) (pre post : List Block) :
    executedBlocks c revm spec n (pre ++ post) = executedBlocks c revm spec n pre ++
        executedBlocks c revm spec (commitCalls c revm spec n pre) post := by
  induction pre generalizing n with
  | nil => rfl
  | cons _ _ ih =>
    rw [cons_append, executedBlocks, ih, executedBlocks, append_assoc]
    rfl

lemma executedBlocks_snoc (b : Backend) (calls : List Block) (block : Block) :
    executedBlocks c revm spec (.new b) (calls ++ [block]) =
      executedBlocks c revm spec (.new b) calls ++
        if ∀ x ∈ newest (executedBlocks c revm spec (.new b) calls),
          x.hash c ≠ block.hash c ∧ x.header.number ≠ block.header.number then [block] else [] := by
  have hc : Caches c (commitCalls c revm spec (.new b) calls).blocks
      (newest (executedBlocks c revm spec (.new b) calls)) := by
    have hem : Caches c (NodeState.new b).blocks (newest []) := Caches.empty
    exact hem.commitCalls calls
  rw [executedBlocks_append]
  rw [executedBlocks, executedBlocks, append_nil, if_congr (hc.applies_iff block) rfl rfl]

/-- No hash is executed twice exactly when every repetition meets its hash
or number in memory. -/
theorem executed_once_iff (c : Crypto) (revm : Revm) (spec : ChainSpec) (b : Backend)
    (calls : List Block) : ((executedBlocks c revm spec (.new b) calls).map (·.hash c)).Nodup ↔
      ∀ pre block post, calls = pre ++ block :: post →
        block.hash c ∈ (executedBlocks c revm spec (.new b) pre).map (·.hash c) →
        ∃ x ∈ newest (executedBlocks c revm spec (.new b) pre),
          x.hash c = block.hash c ∨ x.header.number = block.header.number := by
  constructor
  · rintro hnp pre block post rfl hbf
    by_contra hnn
    push Not at hnn
    -- the block is executed again, after the execution in `pre`
    rw [append_cons, executedBlocks_append, executedBlocks_snoc, if_pos hnn,
      map_append, map_append] at hnp
    exact (nodup_append'.mp (nodup_append'.mp hnp).1).2.2 hbf (by simp)
  · intro hc
    induction calls using reverseRecOn with
    | nil => exact nodup_nil
    | append_singleton calls block ih =>
      have hcl := ih fun pre x post hsi =>
        hc pre x (post ++ [block]) (by rw [hsi, append_assoc, cons_append])
      rw [executedBlocks_snoc]
      split_ifs with hn
      · rw [map_append, nodup_append']
        refine ⟨hcl, nodup_singleton _, ?_⟩
        intro hash hbf hlast
        obtain rfl : hash = block.hash c := by simpa using hlast
        obtain ⟨x, hx, hbh⟩ := hc calls block [] rfl hbf
        exact hbh.elim (hn x hx).1 (hn x hx).2
      · rw [append_nil]
        exact hcl

lemma executedBlocks_of_distinct (b : Backend) {calls : List Block}
    (h : calls.Pairwise fun x y => x.hash c ≠ y.hash c ∧ x.header.number ≠ y.header.number) :
    executedBlocks c revm spec (.new b) calls = calls := by
  induction calls using reverseRecOn with
  | nil => rfl
  | append_singleton _ block ih =>
    obtain ⟨hc, -, hlast⟩ := pairwise_append.mp h
    rw [executedBlocks_snoc, ih hc, if_pos]
    intro x hx
    exact hlast x (mem_of_mem_newest hx) block (mem_singleton_self block)

end Cache

/-! ## A block that comes again after 2048 others -/

variable {m n : UInt64} {i : Nat}

lemma encodeU64_two_bytes (hl : 256 ≤ n.toNat) (hhh : n.toNat < 65536) :
    encodeU64 n = 0x82 :: toBe 2 n.toNat := by
  have hbe : UInt8.ofNat (n.toNat / 256) ≠ 0 := by
    intro hzr
    have hv := congrArg UInt8.toNat hzr
    rw [headByte_toNat (by omega)] at hv
    simp at hv
    omega
  have hs : stripZeros (toBe 8 n.toNat) = toBe 2 n.toNat := by
    have hz : ∀ w, 2 ≤ w → UInt8.ofNat (n.toNat / 256 ^ w) = 0 := by
      intro w hw
      have hp : 256 ^ 2 ≤ 256 ^ w := Nat.pow_le_pow_right (by decide) hw
      rw [Nat.div_eq_of_lt (by omega)]
      rfl
    simp only [toBe, stripZeros, hz 7 (by decide), hz 6 (by decide),
      hz 5 (by decide), hz 4 (by decide), hz 3 (by decide), hz 2 (by decide), if_true]
    simp [hbe]
  rw [encodeU64, encodeUint, hs]
  rfl

def numberToExtra (h : Header) : Bytes :=
  Rlp.encodeU64 h.number ++ (Rlp.encodeU64 h.gasLimit ++ (Rlp.encodeU64 h.gasUsed ++
    (Rlp.encodeU64 h.timestamp ++ Rlp.encodeString h.extraData)))

lemma number_of_referenceHash (h : Header) {e e' : Bytes}
    (hl : (numberToExtra { h with number := m, extraData := e' }).length =
      (numberToExtra { h with number := n, extraData := e }).length)
    (hsh : (numberToExtra { h with number := n, extraData := e }).length ≤ 31)
    (hhs : referenceHash (Header.encode { h with number := n, extraData := e }) =
      referenceHash (Header.encode { h with number := m, extraData := e' })) : n = m := by
  let before : Bytes := encodeString h.parentHash.toList ++
    (encodeString h.ommersHash.toList ++ (encodeString h.beneficiary.toList ++
      [encodeString h.stateRoot.toList, encodeString h.transactionsRoot.toList,
        encodeString h.receiptsRoot.toList, encodeString h.logsBloom.toList,
        encodeU256 h.difficulty].flatten))
  let after : Bytes := [encodeString h.mixHash.toList, encodeString h.nonce.toList,
    encodeU256 h.baseFeePerGas, encodeString h.withdrawalsRoot.toList,
    h.blobGasUsed.elim [] encodeU64, h.excessBlobGas.elim [] encodeU64,
    h.parentBeaconBlockRoot.elim [] fun x => encodeString x.toList].flatten
  have hpy : ∀ x extra, Header.payload { h with number := x, extraData := extra } =
      before ++ numberToExtra { h with number := x, extraData := extra } ++ after := by
    intro x extra
    simp only [Header.payload, Header.tail, numberToExtra, flatten_cons, flatten_nil,
      append_assoc, append_nil, before, after]
  rw [Header.encode, Header.encode, hpy, hpy] at hhs
  have hmid := congrArg decodeU64 (referenceHash_stretch_inj hl hsh hhs)
  simp only [numberToExtra, decodeU64_encodeU64] at hmid
  exact (Prod.mk.inj (Except.ok.inj hmid)).1

lemma sampleBlock_hash_inj (hn : 256 ≤ n.toNat ∧ n.toNat < 65536)
    (hm : 256 ≤ m.toNat ∧ m.toNat < 65536)
    (h : (sampleBlock n []).hash .reference = (sampleBlock m []).hash .reference) : n = m := by
  have hlh : ∀ x : UInt64, 256 ≤ x.toNat ∧ x.toNat < 65536 →
      (numberToExtra (sampleBlock x []).header).length = 18 := by
    intro x hx
    have hnm : (encodeU64 (sampleBlock x []).header.number).length = 3 := by
      rw [show (sampleBlock x []).header.number = x from rfl, encodeU64_two_bytes hx.1 hx.2]
      rfl
    have hrs : (encodeU64 30000000 ++ (encodeU64 0 ++ (encodeU64 3 ++
        encodeString (ascii ['a', 'i', 'i', '-', 'b', 'f', 't'])))).length = 15 := by decide
    rw [numberToExtra, length_append, hnm]
    exact congrArg (3 + ·) hrs
  refine number_of_referenceHash (sampleBlock 0 []).header ?_ ?_ h
  · exact (hlh m hm).trans (hlh n hn).symm
  · exact (hlh n hn).le.trans (by decide)

def longChain : List Block :=
  (List.range 2049).map fun i => sampleBlock (UInt64.ofNat (256 + i)) []

lemma longChain_number (h : i < 2049) : (ofNat (256 + i)).toNat = 256 + i :=
  toNat_ofNat_of_lt' (lt_trans (by omega) (by decide : 2305 < size))

lemma longChain_distinct {j : Nat} (hi : i < 2049) (hj : j < 2049) (hne : i ≠ j) :
    (sampleBlock (ofNat (256 + i)) []).hash .reference ≠
        (sampleBlock (ofNat (256 + j)) []).hash .reference ∧
      ofNat (256 + i) ≠ ofNat (256 + j) := by
  have hn : ofNat (256 + i) ≠ ofNat (256 + j) := by
    intro heq
    have hv := congrArg toNat heq
    rw [longChain_number hi, longChain_number hj] at hv
    omega
  refine ⟨fun hhs => hn (sampleBlock_hash_inj ?_ ?_ hhs), hn⟩
  · rw [longChain_number hi]
    omega
  · rw [longChain_number hj]
    omega

/-- Block 256 is executed, then 2048 others are, then it is executed
again. -/
theorem block_executed_again : ¬ ((executedBlocks .reference Revm.reference sampleSpec (.new .empty)
      (longChain ++ [sampleBlock 256 []])).map (·.hash .reference)).Nodup := by
  have ha : executedBlocks .reference Revm.reference sampleSpec (.new .empty) longChain =
      longChain := by
    refine executedBlocks_of_distinct .empty (pairwise_map.mpr ?_)
    refine pairwise_lt_range.imp_of_mem ?_
    intro i j hi hj hlt
    exact longChain_distinct (mem_range.mp hi) (mem_range.mp hj) hlt.ne
  have hm : sampleBlock 256 [] ∈ longChain := mem_map.mpr ⟨0, mem_range.mpr (by decide), rfl⟩
  have he : ∀ x ∈ newest longChain, x.hash .reference ≠
      (sampleBlock 256 []).hash .reference ∧
        x.header.number ≠ (sampleBlock 256 []).header.number := by
    intro x hx
    have hn : newest longChain = longChain.drop 1 := by
      rw [newest, longChain, length_map, length_range, MAX_BLOCKS_IN_MEMORY]
    rw [hn, longChain, ← map_drop, mem_map] at hx
    obtain ⟨i, hi, rfl⟩ := hx
    obtain ⟨k, hk, rfl⟩ := mem_drop_iff_getElem.mp hi
    rw [length_range] at hk
    rw [getElem_range]
    exact longChain_distinct (j := 0) (by omega) (by decide) (by omega)
  rw [executedBlocks_snoc, ha, if_pos he, map_append]
  intro hnp
  exact (nodup_append'.mp hnp).2.2 (mem_map_of_mem hm) (by simp)

end Aii.Node
