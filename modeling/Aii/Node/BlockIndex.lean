/-
Aii.Node.BlockIndex — the in-memory index after a chain was committed.

An evicted block takes the entries of ALL its transaction hashes with it,
whoever wrote them.
-/
import Aii.Common.Runs
import Aii.Node.Crash

namespace Aii.Node

open Common Chain List Option OrderedMap.Represents BlockStore

/-! ## Hosts -/

inductive HostOp where
  | commit (block : Block)
  | setHead (n : UInt64)
  deriving DecidableEq

def HostOp.block? : HostOp → Option Block
  | .commit block => some block
  | .setHead _ => none

def committed (ops : List HostOp) : List Block := ops.filterMap HostOp.block?

section Model

variable (c : Crypto) (revm : Revm) (spec : ChainSpec)

def hostStep (s : NodeState) : HostOp → NodeState
  | .commit block => commitBlock c revm spec s block
  | .setHead n => setHead s n

def hostRun (s : NodeState) (ops : List HostOp) : NodeState := ops.foldl (hostStep c revm spec) s

end Model

section Concat

variable {c : Crypto} {revm : Revm} {spec : ChainSpec} (s : NodeState) (ops : List HostOp)

lemma hostRun_concat (op : HostOp) :
    hostRun c revm spec s (ops ++ [op]) = hostStep c revm spec (hostRun c revm spec s ops) op := by
  rw [hostRun, foldl_append]
  rfl

@[simp] lemma committed_concat_commit (block : Block) :
    committed (ops ++ [.commit block]) = committed ops ++ [block] := by
  rw [committed, filterMap_append]
  rfl

@[simp] lemma committed_concat_setHead (n : UInt64) :
    committed (ops ++ [.setHead n]) = committed ops := by
  rw [committed, filterMap_append]
  exact append_nil _

end Concat

def Has (c : Crypto) (h : Bytes) (block : Block) : Prop :=
  ∃ tx ∈ block.body.transactions, (tx.hash c).toList = h
deriving Decidable

/-- Number and last position of a transaction hash in a block. -/
def txEntry (c : Crypto) (block : Block) (h : Bytes) : Option (UInt64 × Nat) :=
  (block.body.transactions.zipIdx.reverse.find? fun p => (p.1.hash c).toList = h).map
    fun p => (block.header.number, p.2)

section TxEntry

variable {c : Crypto} {block : Block} {h : Bytes} {e : UInt64 × Nat}

lemma txEntry_isSome_iff : (txEntry c block h).isSome ↔ Has c h block := by
  unfold txEntry Has
  rw [isSome_map, find?_isSome]
  simp only [mem_reverse, decide_eq_true_eq]
  constructor
  · grind
  · rintro ⟨tx, hm, hhs⟩
    obtain ⟨i, hi, rfl⟩ := getElem_of_mem hm
    exact ⟨(_, i), mk_mem_zipIdx_iff_getElem?.mpr (getElem?_eq_getElem hi), hhs⟩

lemma txEntry_none (hn : ¬ Has c h block) : txEntry c block h = none :=
  not_isSome_iff_eq_none.mp (mt txEntry_isSome_iff.mp hn)

lemma txEntry_number (he : txEntry c block h = some e) : e.1 = block.header.number := by
  obtain ⟨p, -, rfl⟩ := map_eq_some_iff.mp he
  rfl

end TxEntry

/-! ## The index -/

/-- The blocks of the chain that were evicted when the block after
`before` was indexed, or later. -/
def evictedSince (before chain : List Block) : List Block :=
  (chain.take (chain.length - MAX_BLOCKS_IN_MEMORY)).drop (before.length - MAX_BLOCKS_IN_MEMORY)

/-- The index is that of the newest blocks of `chain`. -/
structure Indexed (c : Crypto) (s : BlockStore) (chain : List Block) : Prop
    extends Caches c s (newest chain) where
  bodies : OrderedMap.Represents (fun b : Block => (b.hash c).toList) (·.body) s.bodyByHash
    (newest chain)
  txs : ∀ h e, s.txIndex[h]? = some e ↔
    ∃ before block, Latest (Has c h) chain before block ∧ txEntry c block h = some e ∧
      ∀ x ∈ evictedSince before chain, ¬ Has c h x

section Index

variable {c : Crypto} {s : BlockStore} {chain before : List Block} {block oldest : Block}
  {P : Block → Prop}

lemma Indexed.empty : Indexed c .empty [] where
  toCaches := Caches.empty
  bodies := .empty _ _
  txs h e := by
    simp only [BlockStore.empty, Std.ExtTreeMap.getElem?_empty, reduceCtorEq, false_iff]
    rintro ⟨before, block, hlatest, -⟩
    exact absurd hlatest.mem not_mem_nil

lemma newest_of_short (h : chain.length ≤ MAX_BLOCKS_IN_MEMORY) : newest chain = chain := by
  rw [newest, Nat.sub_eq_zero_of_le h, drop_zero]

lemma newest_of_full (h : MAX_BLOCKS_IN_MEMORY ≤ chain.length) (block : Block) :
    ∃ oldest rest, newest chain = oldest :: rest ∧ newest (chain ++ [block]) = rest ++ [block] ∧
      (chain ++ [block]).take (chain.length + 1 - MAX_BLOCKS_IN_MEMORY) =
        chain.take (chain.length - MAX_BLOCKS_IN_MEMORY) ++ [oldest] := by
  have hp : 0 < MAX_BLOCKS_IN_MEMORY := by decide
  have hl : (newest chain).length = MAX_BLOCKS_IN_MEMORY := by
    rw [newest, length_drop]
    omega
  obtain ⟨oldest, rest, hc⟩ := exists_cons_of_length_pos (hl ▸ hp)
  refine ⟨oldest, rest, hc, ?_, ?_⟩
  · rw [newest_append, length_append, hl, length_singleton, Nat.add_sub_cancel_left, hc]
    rfl
  · have hsi : chain = chain.take (chain.length - MAX_BLOCKS_IN_MEMORY) ++ oldest :: rest := by
      rw [← hc, newest, take_append_drop]
    have hk : chain.length + 1 - MAX_BLOCKS_IN_MEMORY =
        (chain.take (chain.length - MAX_BLOCKS_IN_MEMORY)).length + 1 := by
      rw [length_take]
      omega
    generalize chain.take (chain.length - MAX_BLOCKS_IN_MEMORY) = gone at hsi hk ⊢
    rw [hk, hsi, append_assoc, take_length_add_append]
    rfl

lemma Caches.index_eq (h : Caches c s (newest chain)) (block : Block) :
    s.index c block = if chain.length < MAX_BLOCKS_IN_MEMORY then s.insert c block
      else (s.insert c block).evictOldest c := by
  have horder : (s.insert c block).order.length = (newest chain).length + 1 := by
    simp [BlockStore.insert, h.order]
  have hl : (newest chain).length = chain.length - (chain.length - MAX_BLOCKS_IN_MEMORY) := by
    rw [newest, length_drop]
  unfold BlockStore.index
  dsimp only
  rw [horder, hl]
  split_ifs with hsh
  · have hnn : chain.length - (chain.length - MAX_BLOCKS_IN_MEMORY) + 1 -
        MAX_BLOCKS_IN_MEMORY = 0 := by omega
    rw [hnn]
    rfl
  · have ho : chain.length - (chain.length - MAX_BLOCKS_IN_MEMORY) + 1 -
        MAX_BLOCKS_IN_MEMORY = 1 := by omega
    rw [ho]
    rfl

lemma txIndex_insert (s : BlockStore) (block : Block) (h : Bytes) :
    (s.insert c block).txIndex[h]? = (txEntry c block h).or s.txIndex[h]? := by
  simp only [BlockStore.insert, OrderedMap.getElem?_foldl_insert_last, txEntry]

lemma txIndex_evictOldest {order : List H256} (horder : s.order = oldest.hash c :: order)
    (hby : s.bodyByHash[(oldest.hash c).toList]? = some oldest.body) (h : Bytes) :
    (s.evictOldest c).txIndex[h]? = if Has c h oldest then none else s.txIndex[h]? := by
  rw [evictOldest, horder]
  simp only [hby, OrderedMap.getElem?_foldl_erase]
  exact if_congr Iff.rfl rfl rfl

lemma evictedSince_concat (hbf : before.length ≤ chain.length) (block : Block) :
    evictedSince before (chain ++ [block]) = evictedSince before chain ++
      if chain.length < MAX_BLOCKS_IN_MEMORY then [] else (newest chain).take 1 := by
  unfold evictedSince
  rw [length_append, length_singleton]
  split_ifs with hsh
  · rw [Nat.sub_eq_zero_of_le (show chain.length + 1 ≤ MAX_BLOCKS_IN_MEMORY from hsh),
      Nat.sub_eq_zero_of_le (Nat.le_of_lt hsh)]
    simp
  · obtain ⟨oldest, rest, hc, -, hta⟩ := newest_of_full (Nat.not_lt.mp hsh) block
    rw [hta, hc, drop_append_of_le_length (by rw [length_take]; omega)]
    rfl

lemma Latest.length_le (h : Latest P chain before block) : before.length ≤ chain.length := by
  obtain ⟨after, rfl, -⟩ := h
  simp

lemma Latest.mem_newest_or_evicted (h : Latest P chain before block) :
    block ∈ newest chain ∨ block ∈ evictedSince before chain := by
  obtain ⟨after, rfl, -⟩ := h
  unfold newest evictedSince
  have hl : (before ++ block :: after).length = before.length + (after.length + 1) := by simp
  rw [hl]
  by_cases hin : after.length < MAX_BLOCKS_IN_MEMORY
  · grind
  · right
    obtain ⟨n, hn⟩ : ∃ n, before.length + (after.length + 1) - MAX_BLOCKS_IN_MEMORY =
        before.length + (n + 1) := ⟨after.length - MAX_BLOCKS_IN_MEMORY, by omega⟩
    rw [hn, take_length_add_append, take_succ_cons, drop_append_of_le_length (by omega)]
    simp

lemma lookup_concat {k : Bytes} {found : Option (UInt64 × Nat)} (gone : List Block)
    (h : ∀ e, found = some e ↔
      ∃ before b, Latest (Has c k) chain before b ∧ txEntry c b k = some e ∧
        ∀ x ∈ evictedSince before chain, ¬ Has c k x)
    (hgn : ∀ before : List Block, before.length ≤ chain.length →
      evictedSince before (chain ++ [block]) = evictedSince before chain ++ gone)
    (e : UInt64 × Nat) : ((∀ x ∈ gone, ¬ Has c k x) ∧ (txEntry c block k).or found = some e) ↔
      ∃ before b, Latest (Has c k) (chain ++ [block]) before b ∧ txEntry c b k = some e ∧
        ∀ x ∈ evictedSince before (chain ++ [block]), ¬ Has c k x := by
  by_cases hh : Has c k block
  · -- the new block is the latest, and only `gone` can have gone since
    obtain ⟨e₀, he₀⟩ := isSome_iff_exists.mp (txEntry_isSome_iff.mpr hh)
    have hs : evictedSince chain (chain ++ [block]) = gone := by
      rw [hgn chain (Nat.le_refl _), evictedSince, drop_eq_nil_of_le, nil_append]
      rw [length_take]
      omega
    rw [he₀, some_or]
    constructor
    · rintro ⟨hc, heq⟩
      exact ⟨chain, block, latest_concat_iff.mpr (.inl ⟨hh, rfl, rfl⟩), he₀.trans heq, hs ▸ hc⟩
    · rintro ⟨before, b, hlatest, heq, hc⟩
      obtain ⟨-, rfl, rfl⟩ := (latest_concat_iff.mp hlatest).resolve_right fun h => h.1 hh
      exact ⟨hs ▸ hc, he₀.symm.trans heq⟩
  · rw [txEntry_none hh, none_or, h]
    constructor
    · rintro ⟨hc, before, b, hlatest, heq, hs⟩
      refine ⟨before, b, latest_concat_iff.mpr (.inr ⟨hh, hlatest⟩), heq, ?_⟩
      rw [hgn before (Latest.length_le hlatest)]
      exact forall_mem_append.mpr ⟨hs, hc⟩
    · rintro ⟨before, b, hlatest, heq, hs⟩
      have hlatest := ((latest_concat_iff.mp hlatest).resolve_left fun h => hh h.1).2
      rw [hgn before (Latest.length_le hlatest), forall_mem_append] at hs
      exact ⟨hs.2, before, b, hlatest, heq, hs.1⟩

/-- **Indexing the next block** of a chain. -/
lemma Indexed.index (h : Indexed c s chain) (hn : ∀ x ∈ newest chain,
      x.hash c ≠ block.hash c ∧ x.header.number ≠ block.header.number) :
    Indexed c (s.index c block) (chain ++ [block]) := by
  have hc := h.toCaches.index hn
  have hbo := insert h.bodies fun x hx => mt toList_inj.mp (hn x hx).1
  rw [h.index_eq] at hc ⊢
  split_ifs at hc ⊢ with hsh
  · have hw : newest (chain ++ [block]) = newest chain ++ [block] := by
      have hrm : (chain ++ [block]).length ≤ MAX_BLOCKS_IN_MEMORY := by grind
      rw [newest_of_short hrm, newest_of_short (Nat.le_of_lt hsh)]
    rw [← hw] at hbo
    refine ⟨hc, hbo, fun k e => ?_⟩
    rw [txIndex_insert, ← lookup_concat [] (h.txs k) fun before hbf => by
      rw [evictedSince_concat hbf, if_pos hsh]]
    simp
  · obtain ⟨oldest, rest, hcn, hw, -⟩ := newest_of_full (Nat.not_lt.mp hsh) block
    rw [hcn, cons_append] at hbo
    have hi := h.toCaches.insert hn
    rw [hcn, cons_append] at hi
    have horder := hi.order
    rw [map_cons] at horder
    have hby := get hbo mem_cons_self
    have hft := (pairwise_cons.mp hi.distinct).1
    refine ⟨hc, ?_, fun k e => ?_⟩
    · rw [hw]
      have he := erase hbo
        fun x hx => mt toList_inj.mp (hft x hx).1.symm
      rw [evictOldest, horder]
      exact he
    · rw [txIndex_evictOldest horder hby, txIndex_insert,
        ← lookup_concat [oldest] (h.txs k) fun before hbf => by
          rw [evictedSince_concat hbf, if_neg hsh, hcn]
          rfl]
      split_ifs with hh <;> simp [hh]

end Index

/-! ## Runs -/

section Runs

variable {c : Crypto} {revm : Revm} {spec : ChainSpec} {n : NodeState} {chain : List Block}
  {block : Block} {b : Backend} {ops : List HostOp}

lemma storedHead_setHead (n : NodeState) (num : UInt64) :
    storedHead (setHead n num).backend = num := by
  have hg : (setHead n num).backend.get .metaCf META_KEY_HEAD = some (u64Be num) := by
    unfold setHead
    split
    · rw [Backend.get_put_ne fun _ => by decide, Backend.get_put_self]
    · rw [Backend.get_put_self]
  simp [storedHead, hg]

lemma storedHead_applyBlock (b : Backend) (block : Block) :
    storedHead (applyBlock c revm spec b block) = storedHead b := by
  have hk : ¬ BlockKey META_KEY_HEAD := by
    rintro (h | h | h | h | h)
    · exact absurd h (by decide)
    · exact absurd h (by decide)
    · exact h.excludes (by decide) (prefix_refl _)
    · exact absurd h (by decide)
    · exact absurd h (by decide)
  rw [storedHead, applyBlock_meta hk, storedHead]

/-- **The index after a run** is that of the committed chain. -/
lemma indexed_hostRun (hcn : IsChain c (committed ops)) :
    Indexed c (hostRun c revm spec (.new b) ops).blocks (committed ops) := by
  induction ops using reverseRecOn with
  | nil => exact .empty
  | append_singleton ops op ih =>
    rw [hostRun_concat]
    cases op with
    | commit block =>
      rw [committed_concat_commit] at hcn ⊢
      have hix := ih hcn.init
      have hn : ∀ x ∈ newest (committed ops),
          x.hash c ≠ block.hash c ∧ x.header.number ≠ block.header.number :=
        fun x hx => hcn.fresh x (mem_of_mem_newest hx)
      rw [hostStep, commitBlock_of_applies ((hix.applies_iff block).mpr hn)]
      dsimp only
      exact Indexed.index hix hn
    | setHead =>
      rw [committed_concat_setHead] at hcn ⊢
      exact ih hcn

/-- The store has the headers and bodies of `chain`. -/
structure HoldsBlocks (c : Crypto) (b : Backend) (chain : List Block) : Prop where
  headers : OrderedMap.Represents (fun b : Block => (b.hash c).toList) (·.header.encode)
    (b.cf .headers) chain
  bodies : OrderedMap.Represents (fun b : Block => (b.hash c).toList) (·.body.encode)
    (b.cf .bodies) chain

lemma HoldsBlocks.of_same {b b' : Backend} (h : HoldsBlocks c b chain) (hsm : SameBlocks b' b) :
    HoldsBlocks c b' chain := by
  obtain ⟨hh, hb⟩ := hsm
  exact ⟨hh ▸ h.headers, hb ▸ h.bodies⟩

lemma HoldsBlocks.persistBlock (h : HoldsBlocks c b chain)
    (hn : ∀ x ∈ chain, x.hash c ≠ block.hash c) :
    HoldsBlocks c (persistBlock c b block) (chain ++ [block]) := by
  have hks : ∀ x ∈ chain, (x.hash c).toList ≠ (block.hash c).toList :=
    fun x hx => mt toList_inj.mp (hn x hx)
  refine ⟨?_, ?_⟩
  · rw [persistBlock_header]
    exact h.headers.insert hks
  · rw [persistBlock_body]
    exact h.bodies.insert hks

/-- The store has the blocks of `chain`, and the head of the node. -/
structure Stores (c : Crypto) (n : NodeState) (chain : List Block) : Prop where
  blocks : HoldsBlocks c n.backend chain
  head : storedHead n.backend = n.head

lemma Stores.setHead (h : Stores c n chain) (num : UInt64) : Stores c (setHead n num) chain where
  blocks := h.blocks.of_same ⟨setHead_frame (by decide) _ _, setHead_frame (by decide) _ _⟩
  head := storedHead_setHead n num

lemma Stores.commitBlock (h : Stores c n chain) (has : applies c n block = true)
    (hn : ∀ x ∈ chain, x.hash c ≠ block.hash c) :
    Stores c (commitBlock c revm spec n block) (chain ++ [block]) := by
  rw [commitBlock_of_applies has]
  exact ⟨(h.blocks.persistBlock hn).of_same (laterStores_passes n.backend block).same,
    (storedHead_applyBlock _ _).trans h.head⟩

/-- A store without blocks and head. -/
structure Fresh (b : Backend) : Prop where
  headers : b.cf .headers = ∅
  bodies : b.cf .bodies = ∅
  head : storedHead b = 0

lemma Fresh.stores (h : Fresh b) : Stores c (.new b) [] where
  blocks := ⟨by rw [NodeState.new, h.headers]; exact .empty _ _,
    by rw [NodeState.new, h.bodies]; exact .empty _ _⟩
  head := h.head

lemma stores_replay (h : Fresh b) (hcn : IsChain c chain) :
    Stores c (replay c revm spec (.new b) chain) chain := by
  induction chain using reverseRecOn with
  | nil => exact h.stores
  | append_singleton chain block ih =>
    rw [replay_concat]
    have hs : Synced c (replay c revm spec (.new b) chain) chain :=
      synced_replay h.headers hcn.init
    exact ((ih hcn.init).commitBlock (hs.applies hcn.fresh)
      fun x hx => (hcn.fresh x hx).1).setHead _

/-- **The store after a run** is that of the committed chain. -/
lemma stores_hostRun (h : Fresh b) (hcn : IsChain c (committed ops)) :
    Stores c (hostRun c revm spec (.new b) ops) (committed ops) := by
  induction ops using reverseRecOn with
  | nil => exact h.stores
  | append_singleton ops op ih =>
    rw [hostRun_concat]
    cases op with
    | commit block =>
      rw [committed_concat_commit] at hcn ⊢
      have has : applies c (hostRun c revm spec (.new b) ops) block = true :=
        ((indexed_hostRun hcn.init).applies_iff block).mpr
          fun x hx => hcn.fresh x (mem_of_mem_newest hx)
      exact (ih hcn.init).commitBlock has fun x hx => (hcn.fresh x hx).1
    | setHead num =>
      rw [committed_concat_setHead] at hcn ⊢
      exact (ih hcn).setHead num

end Runs

end Aii.Node
