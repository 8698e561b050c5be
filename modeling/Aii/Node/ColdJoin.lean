/-
Aii.Node.ColdJoin — does a node that joins late become its peer?
(`bootstrap_sync_from_peer` in `aii-node/src/sync.rs`, `raw_block` in
`aii-node/src/lib.rs`.)

The peer answers from its in-memory index: for a longer chain the join
fails (`cold_join_iff`).
-/
import Aii.Chain.BlockCodec
import Aii.Node.BlockIndex
import Aii.Node.ExecFrame

namespace Aii.Node

open Common Common.Rlp Chain List UInt64

/-! ## The join -/

/-- `raw_block`, asked for a number. -/
def rawBlock (s : NodeState) (n : UInt64) : Option Bytes := do
  let hash ← s.blocks.byNumber[n]?
  let header ← s.blocks.byHash[hash.toList]?
  let body ← s.blocks.bodyByHash[hash.toList]?
  some (Block.encode ⟨header, body⟩)

inductive SyncError where
  /-- The peer returned null for block `n`: "bootnode is corrupt". -/
  | null (n : UInt64)
  | rlp (e : RlpError)
  deriving DecidableEq

section Model

variable (c : Crypto) (revm : Revm) (spec : ChainSpec)

/-- The loop of the join, with `fuel` heights to go. -/
def syncFrom (peer : NodeState) : Nat → UInt64 → UInt64 → NodeState →
    NodeState × Except SyncError UInt64
  | 0, _, synced, n => (n, .ok synced)
  | fuel + 1, height, synced, n =>
    match rawBlock peer height with
    | none => (n, .error (.null height))
    | some bytes =>
      match Block.decode bytes with
      | .error e => (n, .error (.rlp e))
      | .ok (block, _) =>
        syncFrom peer fuel (height + 1) (synced + 1) (commitStep c revm spec n block)

/-- `bootstrap_sync_from_peer`: the node afterwards, and the number of
blocks that were committed. -/
def bootstrapSyncFromPeer (n peer : NodeState) : NodeState × Except SyncError UInt64 :=
  if peer.head ≤ n.head then (n, .ok 0)
  else syncFrom c revm spec peer (peer.head - n.head).toNat (n.head + 1) 0 n

end Model

structure JoinsPeer (peer : NodeState) (join : NodeState × Except SyncError UInt64) : Prop where
  succeeds : ∃ synced, join.2 = .ok synced
  head : join.1.head = peer.head
  blocks : join.1.blocks = peer.blocks
  outcome : Backend.AgreeOn OutcomeKey join.1.backend peer.backend

structure FullChain (c : Crypto) (chain : List Block) : Prop extends IsChain c chain where
  heights : chain.map (·.header.number.toNat) = List.range' 1 chain.length

section Serve

variable {c : Crypto} {n : NodeState} {chain : List Block} {x : Block}

lemma Indexed.rawBlock (h : Indexed c n.blocks chain) (hx : x ∈ newest chain) :
    rawBlock n x.header.number = some x.encode := by
  have hnm := (h.byNumber _ _).mpr ⟨x, hx, rfl, rfl⟩
  have hhe := (h.byHash _ _).mpr ⟨x, hx, rfl, rfl⟩
  have hby := h.bodies.get hx
  simp [Node.rawBlock, hnm, hhe, hby, Option.bind_eq_bind]

lemma Indexed.rawBlock_none (h : Indexed c n.blocks chain) {num : UInt64}
    (hn : ∀ x ∈ newest chain, x.header.number ≠ num) : Node.rawBlock n num = none := by
  have hnm : n.blocks.byNumber[num]? = none := by
    refine Option.eq_none_iff_forall_ne_some.mpr fun hash hhs => ?_
    obtain ⟨x, hx, hnu, -⟩ := (h.byNumber _ _).mp hhs
    exact hn x hx hnu
  simp [Node.rawBlock, hnm]

end Serve

section Loop

variable {c : Crypto} {revm : Revm} {spec : ChainSpec} {peer n n' : NodeState} {blocks : List Block}
  {height : UInt64}

/-- What is sent as `x` is received as `y`. -/
def ReceivedAs (x y : Block) : Prop := ∃ rest, Block.decode x.encode = .ok (y, rest)

lemma heights_next {x : Block} (h : (x :: blocks).map (·.header.number.toNat) =
      range' height.toNat (x :: blocks).length) : x.header.number = height ∧
      blocks.map (·.header.number.toNat) = range' (height + 1).toNat blocks.length := by
  rw [map_cons, length_cons, range'_succ] at h
  obtain ⟨hx, hbc⟩ := cons.inj h
  refine ⟨UInt64.toNat_inj.mp hx, ?_⟩
  cases blocks with
  | nil => rfl
  | cons y =>
    have hy : y.header.number.toNat = height.toNat + 1 := by
      rw [map_cons, length_cons, range'_succ] at hbc
      exact (cons.inj hbc).1
    have hfi := hy ▸ y.header.number.toNat_lt
    have hnx : (height + 1).toNat = height.toNat + 1 := by simp_all
    rw [hnx]
    exact hbc

lemma syncFrom_ok_iff (hsv : ∀ x ∈ blocks, rawBlock peer x.header.number = some x.encode)
    {synced : UInt64} (hht : blocks.map (·.header.number.toNat) = range' height.toNat blocks.length)
    {out : UInt64} : syncFrom c revm spec peer blocks.length height synced n = (n', .ok out) ↔
      ∃ received, List.Forall₂ ReceivedAs blocks received ∧
        n' = replay c revm spec n received ∧ out = synced + UInt64.ofNat blocks.length := by
  induction blocks generalizing height synced n with
  | nil =>
    simp [syncFrom, replay, eq_comm]
  | cons x _ ih =>
    obtain ⟨hx, hrs⟩ := forall_mem_cons.mp hsv
    obtain ⟨rfl, hnx⟩ := heights_next hht
    rw [length_cons, syncFrom, hx]
    dsimp only
    cases hd : Block.decode x.encode with
    | error =>
      simp only [Prod.mk.injEq, reduceCtorEq, and_false, false_iff]
      rintro ⟨received, ha, -⟩
      obtain ⟨y, _, ⟨_, hy⟩, -⟩ := forall₂_cons_left_iff.mp ha
      rw [hd] at hy
      cases hy
    | ok res =>
      obtain ⟨y, rest⟩ := res
      have hcu : ∀ m, synced + 1 + ofNat m = synced + ofNat (m + 1) := by
        intro m
        rw [ofNat_add, UInt64.add_assoc, UInt64.add_comm 1]
        rfl
      rw [ih hrs hnx, hcu]
      constructor
      · rintro ⟨received, ha, hn, ho⟩
        exact ⟨y :: received, .cons ⟨rest, hd⟩ ha, hn, ho⟩
      · rintro ⟨received, ha, hn, ho⟩
        obtain ⟨y', received, ⟨_, hy'⟩, hm, rfl⟩ := forall₂_cons_left_iff.mp ha
        cases hd.symm.trans hy'
        exact ⟨received, hm, hn, ho⟩

end Loop

section Joiner

variable {c : Crypto} {revm : Revm} {spec : ChainSpec} {b : Backend}

lemma exists_indexed_replay (blocks : List Block) : ∃ executed, executed.Sublist blocks ∧
      Indexed c (replay c revm spec (.new b) blocks).blocks executed := by
  induction blocks using reverseRecOn with
  | nil => exact ⟨[], nil_sublist _, .empty⟩
  | append_singleton blocks y ih =>
    obtain ⟨executed, hs, hix⟩ := ih
    rw [replay_concat]
    generalize replay c revm spec (.new b) blocks = n at hix ⊢
    change ∃ executed, _ ∧ Indexed c (commitBlock c revm spec n y).blocks executed
    by_cases has : applies c n y = true
    · refine ⟨executed ++ [y], hs.append (List.Sublist.refl _), ?_⟩
      rw [commitBlock_of_applies has]
      dsimp only
      exact Indexed.index hix ((hix.applies_iff y).mp has)
    · refine ⟨executed, hs.trans (sublist_append_left _ _), ?_⟩
      rcases commitBlock_of_not_applies has with heq | ⟨_, heq⟩ <;>
        rwa [heq]

lemma replay_agrees_hostRun (ops : List HostOp) :
    NodesAgree (replay c revm spec (.new b) (committed ops))
      (hostRun c revm spec (.new b) ops) := by
  induction ops using reverseRecOn with
  | nil => exact .refl _
  | append_singleton _ op ih =>
    rw [hostRun_concat]
    cases op with
    | commit block =>
      rw [committed_concat_commit, replay_concat]
      exact (NodesAgree.setHead _ _).trans (ih.commitBlock block)
    | setHead =>
      rw [committed_concat_setHead]
      exact ih.trans (NodesAgree.setHead _ _).symm

lemma NodesAgree.outcome {n₁ n₂ : NodeState} (h : NodesAgree n₁ n₂) :
    Backend.AgreeOn OutcomeKey n₁.backend n₂.backend := by
  intro cf k hk
  cases hk with
  | state => exact h.exec _ _ (.state k)
  | code => exact h.exec _ _ (.code k)
  | storage => exact h.exec _ _ (.storage k)
  | receipt => rw [Backend.get, h.receipts, Backend.get]
  | stake hk => exact h.exec _ _ (.stake hk)
  | epoch hk => exact h.exec _ _ (.epoch hk)

end Joiner

/-! ## Cold joins -/

section Join

variable {c : Crypto} {revm : Revm} {spec : ChainSpec} {b : Backend} {chain received : List Block}
  {peer : NodeState}

lemma FullChain.replay_head (h : FullChain c chain) :
    (replay c revm spec (.new b) chain).head.toNat = chain.length := by
  have hht := h.heights
  rcases eq_nil_or_concat chain with rfl | ⟨init, y, rfl⟩
  · rfl
  · rw [concat_eq_append] at hht ⊢
    rw [map_append, length_append, length_singleton, range'_concat] at hht
    have hlast : y.header.number.toNat = 1 + 1 * init.length := (cons.inj (append_inj' hht rfl).2).1
    rw [replay_concat]
    change y.header.number.toNat = _
    rw [hlast, length_append, length_singleton]
    omega

lemma FullChain.first_evicted (h : FullChain c chain)
    (hlg : MAX_BLOCKS_IN_MEMORY < chain.length) : ∀ x ∈ newest chain, x.header.number ≠ 1 := by
  intro x hx ho
  have hm : x.header.number.toNat ∈ (range' 1 chain.length).drop
      (chain.length - MAX_BLOCKS_IN_MEMORY) := by
    rw [← h.heights, ← map_drop]
    exact mem_map_of_mem hx
  rw [drop_range', ho] at hm
  have hle := (mem_range'_1.mp hm).1
  have hv : (1 : UInt64).toNat = 1 := rfl
  omega

lemma ReceivedAs.number {x y : Block} (h : ReceivedAs x y) :
    y.header.number = x.header.number := by
  obtain ⟨_, hd⟩ := h
  exact Block.decode_number hd

lemma received_self (hp : Indexed c peer.blocks chain) (hcn : IsChain c chain)
    (hsh : chain.length ≤ MAX_BLOCKS_IN_MEMORY) (ha : List.Forall₂ ReceivedAs chain received)
    (hbc : (replay c revm spec (.new b) received).blocks = peer.blocks) :
    ∀ x ∈ chain, ReceivedAs x x := by
  obtain ⟨executed, hsb, hix⟩ : ∃ executed, executed.Sublist received ∧
      Indexed c (replay c revm spec (.new b) received).blocks executed :=
    exists_indexed_replay received
  rw [hbc] at hix
  intro x hx
  have hn : x ∈ newest chain := by
    rw [newest_of_short hsh]
    exact hx
  -- the joiner's block with the body of `x` has its header too
  obtain ⟨y, hy, hhs, hby⟩ := (hix.bodies _ _).mp (hp.bodies.get hn)
  have hhe : y.header = x.header := by
    have hpr := (hp.byHash _ _).mpr ⟨x, hn, rfl, rfl⟩
    have hj := (hix.byHash _ _).mpr ⟨y, hy, hhs, rfl⟩
    exact Option.some.inj (hj.symm.trans hpr)
  obtain rfl : y = x := by
    cases x
    cases y
    simp_all
  have hr := hsb.mem (mem_of_mem_newest hy)
  obtain ⟨i, hi, hg⟩ := getElem_of_mem hr
  have hi' := ha.length_eq ▸ hi
  have hs : ReceivedAs chain[i] y := hg ▸ ha.get hi' hi
  have hsm := hcn.eq_of_number hx (getElem_mem hi') hs.number
  exact hsm ▸ hs

lemma bootstrapSyncFromPeer_new : bootstrapSyncFromPeer c revm spec (.new b) peer =
      syncFrom c revm spec peer peer.head.toNat 1 0 (.new b) := by
  unfold bootstrapSyncFromPeer
  split_ifs with hhd
  · have hzr := Nat.le_zero.mp (le_iff_toNat_le.mp hhd)
    rw [hzr]
    rfl
  · have hsr : (NodeState.new b).head = 0 := rfl
    rw [hsr, UInt64.sub_zero, UInt64.zero_add]

lemma joinsPeer_iff (hcn : FullChain c chain) (hix : Indexed c peer.blocks chain)
    (hag : NodesAgree (replay c revm spec (.new b) chain) peer)
    (hhd : peer.head.toNat = chain.length) :
    JoinsPeer peer (bootstrapSyncFromPeer c revm spec (.new b) peer) ↔
      chain.length ≤ MAX_BLOCKS_IN_MEMORY ∧ ∀ x ∈ chain, ReceivedAs x x := by
  have hlp : chain.length ≤ MAX_BLOCKS_IN_MEMORY → ∀ n' out,
      syncFrom c revm spec peer chain.length 1 0 (.new b) = (n', .ok out) ↔
        ∃ received, List.Forall₂ ReceivedAs chain received ∧
          n' = replay c revm spec (.new b) received ∧ out = 0 + ofNat chain.length := by
    intro hsh n' _
    refine syncFrom_ok_iff (fun x hx => hix.rawBlock ?_) hcn.heights
    rw [newest_of_short hsh]
    exact hx
  rw [bootstrapSyncFromPeer_new, hhd]
  constructor
  · intro hj
    obtain ⟨_, hok⟩ := hj.succeeds
    have hsh : chain.length ≤ MAX_BLOCKS_IN_MEMORY := by
      by_contra hlg
      have hnn := hix.rawBlock_none (hcn.first_evicted (Nat.not_le.mp hlg))
      obtain ⟨k, hk⟩ : ∃ k, chain.length = k + 1 :=
        Nat.exists_eq_add_one.mpr (Nat.zero_lt_of_lt (Nat.not_le.mp hlg))
      rw [hk, syncFrom, hnn] at hok
      cases hok
    obtain ⟨_, ha, hn, -⟩ := (hlp hsh _ _).mp (Prod.ext rfl hok)
    have hbc := (congrArg NodeState.blocks hn).symm.trans hj.blocks
    exact ⟨hsh, received_self hix hcn.toIsChain hsh ha hbc⟩
  · rintro ⟨hsh, hsf⟩
    rw [(hlp hsh _ _).mpr ⟨_, forall₂_same.mpr hsf, rfl, rfl⟩]
    refine ⟨⟨_, rfl⟩, UInt64.toNat_inj.mp ?_, hag.blocks, hag.outcome⟩
    rw [hhd]
    exact hcn.replay_head

end Join

/-- A fresh node joins exactly when the chain fits the peer's memory and its
blocks decode to themselves. -/
theorem cold_join_iff (c : Crypto) (revm : Revm) (spec : ChainSpec) (b : Backend)
    (ops : List HostOp) (hchain : FullChain c (committed ops))
    (hhead : (hostRun c revm spec (.new b) ops).head.toNat = (committed ops).length) :
    JoinsPeer (hostRun c revm spec (.new b) ops)
        (bootstrapSyncFromPeer c revm spec (.new b) (hostRun c revm spec (.new b) ops)) ↔
      (committed ops).length ≤ MAX_BLOCKS_IN_MEMORY ∧
        ∀ x ∈ committed ops, ∃ rest, Block.decode x.encode = .ok (x, rest) :=
  joinsPeer_iff hchain (indexed_hostRun hchain.toIsChain) (replay_agrees_hostRun ops) hhead

theorem cold_join_two_blocks :
    let ops : List HostOp :=
      [.commit (sampleBlock 1 [sampleTx 0 0 (arrOfNat 20 7) 5 []]), .setHead 1,
        .commit (sampleBlock 2 []), .setHead 2]
    let peer := hostRun .reference Revm.reference sampleSpec (.new sampleGenesis) ops
    FullChain .reference (committed ops) ∧ peer.head.toNat = (committed ops).length ∧
      JoinsPeer peer (bootstrapSyncFromPeer .reference Revm.reference sampleSpec
        (.new sampleGenesis) peer) := by
  intro ops _
  have hcn : FullChain .reference (committed ops) := ⟨⟨by decide, by decide +kernel⟩, by decide⟩
  have hc : ∀ x ∈ committed ops, x.Canonical := by decide
  have hsz : ∀ x ∈ committed ops, x.encode.length < 2 ^ 64 := by decide +kernel
  refine ⟨hcn, rfl, (cold_join_iff _ _ _ _ ops hcn rfl).mpr ⟨by decide, fun x hx => ?_⟩⟩
  have hread := Block.decode_encode (hc x hx) (hsz x hx) []
  rw [append_nil] at hread
  exact ⟨[], hread⟩

/-! ## A chain of 2049 blocks -/

def padding (n : UInt64) : Bytes := if n < 128 then [0, 0] else if n < 256 then [0x80] else []

def paddedBlock (n : UInt64) : Block :=
  ⟨{ (sampleBlock 0 []).header with number := n, extraData := padding n }, .empty⟩

def paddedChain : List Block := (List.range 2049).map fun i => paddedBlock (UInt64.ofNat (i + 1))

variable {n : UInt64}

lemma padding_length (hp : 0 < n.toNat) (hlt : n.toNat < 65536) :
    (encodeU64 n).length + (encodeString (padding n)).length = 4 := by
  by_cases hbe : n.toNat < 256
  · have ht : ∀ k < 256, 0 < k → (encodeU64 (ofNat k)).length +
        (encodeString (padding (ofNat k))).length = 4 := by decide +kernel
    have hn := ht n.toNat hbe hp
    rwa [UInt64.ofNat_toNat] at hn
  · have hem : padding n = [] := by
      have hs : ¬ n < 128 := fun h => hbe (Nat.lt_trans (lt_iff_toNat_lt.mp h) (by decide))
      rw [padding, if_neg hs, if_neg (mt lt_iff_toNat_lt.mp hbe)]
    rw [hem, encodeU64_two_bytes (Nat.not_lt.mp hbe) hlt]
    rfl

lemma paddedBlock_hash_inj {m : UInt64} (hn : 0 < n.toNat ∧ n.toNat < 65536)
    (hm : 0 < m.toNat ∧ m.toNat < 65536)
    (h : (paddedBlock n).hash .reference = (paddedBlock m).hash .reference) : n = m := by
  have hlh : ∀ x : UInt64, 0 < x.toNat ∧ x.toNat < 65536 →
      (numberToExtra (paddedBlock x).header).length = 11 := by
    intro x hx
    have hb : (encodeU64 30000000).length + ((encodeU64 0).length + (encodeU64 3).length) =
        7 := by decide
    have hp : (encodeU64 (paddedBlock x).header.number).length +
        (encodeString (paddedBlock x).header.extraData).length = 4 := padding_length hx.1 hx.2
    have hs : (numberToExtra (paddedBlock x).header).length =
        (encodeU64 (paddedBlock x).header.number).length + ((encodeU64 30000000).length +
          ((encodeU64 0).length + ((encodeU64 3).length +
            (encodeString (paddedBlock x).header.extraData).length))) := by
      rw [numberToExtra, length_append, length_append, length_append, length_append]
      rfl
    omega
  refine number_of_referenceHash (sampleBlock 0 []).header ?_ ?_ h
  · exact (hlh m hm).trans (hlh n hn).symm
  · exact (hlh n hn).le.trans (by decide)

lemma paddedChain_number {i : Nat} (h : i < 2049) : (ofNat (i + 1)).toNat = i + 1 :=
  toNat_ofNat_of_lt' (lt_trans (by omega) (by decide : 2050 < size))

lemma fullChain_padded : FullChain .reference paddedChain where
  numbers := by
    refine pairwise_map.mpr (pairwise_lt_range.imp_of_mem ?_)
    intro i j hi hj _
    rw [mem_range] at hi hj
    change ofNat (i + 1) < ofNat (j + 1)
    rw [lt_iff_toNat_lt, paddedChain_number hi, paddedChain_number hj]
    omega
  collisionFree := by
    intro x hx y hy hhs
    obtain ⟨i, hi, rfl⟩ := mem_map.mp hx
    obtain ⟨j, hj, rfl⟩ := mem_map.mp hy
    rw [mem_range] at hi hj
    have hnm : ofNat (i + 1) = ofNat (j + 1) := by
      refine paddedBlock_hash_inj ?_ ?_ hhs
      · rw [paddedChain_number hi]
        omega
      · rw [paddedChain_number hj]
        omega
    rw [hnm]
  heights := by
    rw [paddedChain, map_map, length_map, length_range, range'_eq_map_range]
    refine map_congr_left fun i hi => ?_
    rw [Nat.add_comm]
    exact paddedChain_number (mem_range.mp hi)

/-- The peer has 2049 blocks and no longer the first. -/
theorem long_chain_not_joined :
    let ops : List HostOp := paddedChain.map .commit ++ [.setHead 2049]
    let peer := hostRun .reference Revm.reference sampleSpec (.new .empty) ops
    ¬ JoinsPeer peer
      (bootstrapSyncFromPeer .reference Revm.reference sampleSpec (.new .empty) peer) := by
  intro ops peer hj
  have hcm : committed ops = paddedChain := by
    rw [committed_concat_setHead, committed, filterMap_map]
    exact filterMap_some
  have hcn := hcm ▸ fullChain_padded
  have hlh : (committed ops).length = 2049 := by
    rw [hcm, paddedChain, length_map, length_range]
  have hhd : peer.head.toNat = (committed ops).length := by
    have hlast : peer.head = 2049 := by
      rw [show peer = _ from hostRun_concat _ _ _]
      rfl
    rw [hlast, hlh]
    rfl
  have hfi := ((joinsPeer_iff hcn (indexed_hostRun hcn.toIsChain)
    (replay_agrees_hostRun ops) hhd).mp hj).1
  rw [hlh, MAX_BLOCKS_IN_MEMORY] at hfi
  omega

end Aii.Node
