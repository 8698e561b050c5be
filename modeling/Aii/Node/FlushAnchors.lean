/-
Aii.Node.FlushAnchors — which anchor a sub-chain has
(`scan_microchain_anchors` and `last_flush_anchor` of `aii-node/src/lib.rs`,
`parse_flush_anchor` of `aii-microchain`).

The scan checks the calldata, the sender and the destination, but not the
value.
-/
import Aii.Node.Cache

namespace Aii.Node

open Common Chain Backend List

structure FlushAnchor where
  subBlockHash : H256
  parentBlockHash : H256
  subBlockNumber : UInt64
  deriving DecidableEq

def lastFlushAnchor (b : Backend) (id : UInt32) : Option FlushAnchor :=
  (b.get .microChain (ascii ['a', 'n', 'c', 'h', 'o', 'r', ':'] ++ u32Be id)).bind fun v =>
    if v.length ≠ 72 then none
    else
      (arr? 32 (v.take 32)).bind fun sub =>
        (arr? 32 ((v.drop 32).take 32)).map fun parent =>
          ⟨sub, parent, u64OfBe ((v.drop 64).take 8)⟩

def txValue : Tx → U256
  | .legacy t => t.value
  | .eip1559 t => t.value
  | .eip4844 t => t.value

section Anchors

variable (c : Crypto) (revm : Revm) (spec : ChainSpec) (id : UInt32)

/-- The anchor for `id` in a transaction with well-formed calldata whose
sender is its destination. -/
def carriedAnchor (block : Block) (tx : Tx) : Option FlushAnchor :=
  match parseFlushAnchor (txDataTo tx).1, tx.recoverSigner c spec.chainId with
  | some p, some sender =>
    if p.subChainId = id ∧ some sender = (txDataTo tx).2 then
      some ⟨p.subBlockHash, block.hash c, p.subBlockNumber⟩
    else none
  | _, _ => none

def carriedAnchors (chain : List Block) : List FlushAnchor :=
  chain.flatMap fun block => block.body.transactions.filterMap (carriedAnchor c spec id block)

/-- Those in transactions that send nothing. -/
def conventionalAnchors (chain : List Block) : List FlushAnchor :=
  chain.flatMap fun block => block.body.transactions.filterMap fun tx =>
    if txValue tx = 0 then carriedAnchor c spec id block tx else none

variable {c revm spec id}

lemma lastFlushAnchor_congr {b b' : Backend} (h : b'.cf .microChain = b.cf .microChain) :
    lastFlushAnchor b' id = lastFlushAnchor b id := by
  rw [lastFlushAnchor, lastFlushAnchor, Backend.get, Backend.get, h]

lemma lastFlushAnchor_persist (b : Backend) (p : FlushTxPayload) (hash : H256) :
    lastFlushAnchor (persistFlushAnchor b p hash) id =
      if p.subChainId = id then some ⟨p.subBlockHash, hash, p.subBlockNumber⟩
      else lastFlushAnchor b id := by
  unfold lastFlushAnchor persistFlushAnchor
  split_ifs with hid
  · subst hid
    rw [get_put_self, Option.bind_some, if_neg (by simp)]
    simp only [take_append, drop_append, length_toList]
    simp [take_of_length_le, drop_eq_nil_of_le]
  · rw [get_put_ne fun _ hk => hid (u32Be_inj (append_cancel_left hk)).symm]

lemma lastFlushAnchor_scan (b : Backend) (block : Block) :
    lastFlushAnchor (scanMicrochainAnchors c spec b block) id =
      (block.body.transactions.filterMap (carriedAnchor c spec id block)).getLast?.or
        (lastFlushAnchor b id) := by
  unfold scanMicrochainAnchors
  induction block.body.transactions generalizing b with
  | nil => rfl
  | cons tx _ ih =>
    rw [foldl_cons, ih, ← singleton_append, filterMap_append, getLast?_append, Option.or_assoc]
    congr 1
    -- what the first transaction writes is what it carries
    simp only [filterMap_cons, filterMap_nil, carriedAnchor]
    cases parseFlushAnchor (txDataTo tx).1 with
    | none => rfl
    | some p =>
      cases tx.recoverSigner c spec.chainId with
      | none => rfl
      | some sender =>
        dsimp only
        by_cases hs : some sender = (txDataTo tx).2
        · rw [if_neg (not_not.mpr hs), lastFlushAnchor_persist]
          by_cases hid : p.subChainId = id <;> simp [hid, hs]
        · grind

lemma lastFlushAnchor_applyBlock (b : Backend) (block : Block) :
    lastFlushAnchor (applyBlock c revm spec b block) id =
      (carriedAnchors c spec id [block]).getLast?.or (lastFlushAnchor b id) := by
  have hbf : lastFlushAnchor (executeBlockTxs c revm spec (persistBlock c b block) block) id =
      lastFlushAnchor b id := lastFlushAnchor_congr (by
    rw [executeBlockTxs_frame (by decide) (by decide), executedState_frame (by decide) (by decide),
      persistBlock_frame (by decide)])
  rw [applyBlock, lastFlushAnchor_congr (maybeElectValidatorSet_frame (by decide) _ _),
    lastFlushAnchor_scan, hbf, carriedAnchors, flatMap_singleton]

lemma lastFlushAnchor_commitCalls (s : NodeState) (calls : List Block) :
    lastFlushAnchor (commitCalls c revm spec s calls).backend id =
      (carriedAnchors c spec id (executedBlocks c revm spec s calls)).getLast?.or
        (lastFlushAnchor s.backend id) := by
  induction calls generalizing s with
  | nil => rfl
  | cons block _ ih =>
    rw [commitCalls, foldl_cons, ← commitCalls, ih, executedBlocks, carriedAnchors,
      carriedAnchors, flatMap_append, getLast?_append, Option.or_assoc]
    congr 1
    by_cases has : applies c s block = true
    · rw [if_pos has, commitBlock_of_applies has, lastFlushAnchor_applyBlock]
      rfl
    · rw [if_neg has]
      rcases commitBlock_of_not_applies has with heq | ⟨canonical, heq⟩ <;> rw [heq]
      · rfl
      · exact lastFlushAnchor_congr (cf_put_ne (by decide : _ ≠ ColumnFamily.metaCf))

/-- **Anchors follow the convention if flushes send nothing.** -/
theorem last_flush_anchor_conventional (c : Crypto) (revm : Revm) (spec : ChainSpec) (id : UInt32)
    (s : NodeState) (hnone : lastFlushAnchor s.backend id = none) (calls : List Block)
    (hvalue : ∀ block ∈ executedBlocks c revm spec s calls, ∀ tx ∈ block.body.transactions,
      carriedAnchor c spec id block tx ≠ none → txValue tx = 0) :
    lastFlushAnchor (commitCalls c revm spec s calls).backend id =
      (conventionalAnchors c spec id (executedBlocks c revm spec s calls)).getLast? := by
  have hsm : carriedAnchors c spec id (executedBlocks c revm spec s calls) =
      conventionalAnchors c spec id (executedBlocks c revm spec s calls) := by
    refine flatMap_congr fun block hbl => filterMap_congr fun tx htx => ?_
    by_cases hc : carriedAnchor c spec id block tx = none
    · simp [hc]
    · rw [if_pos (hvalue block hbl tx htx hc)]
  rw [lastFlushAnchor_commitCalls, hnone, Option.or_none, hsm]

/-- A flush of sub-chain 7 that sends `value` to its sender. -/
def flushTx (value : U256) : Tx :=
  sampleTx 0 0 sampleSender value (FLUSH_TX_MAGIC ++ u32Be 7 ++ (arrOfNat 32 5).toList ++ u64Be 9)

theorem last_flush_anchor_nothing_sent :
    lastFlushAnchor (commitCalls .reference .reference sampleSpec (.new sampleGenesis)
        [sampleBlock 1 [flushTx 0]]).backend 7 =
      (conventionalAnchors .reference sampleSpec 7 (executedBlocks .reference .reference sampleSpec
        (.new sampleGenesis) [sampleBlock 1 [flushTx 0]])).getLast? :=
  last_flush_anchor_conventional .reference .reference sampleSpec 7 _ (by decide +kernel) _
    (by decide +kernel)

/-- A flush that sends 5 Wei is recorded. -/
theorem valued_flush_recorded :
    lastFlushAnchor (commitCalls .reference .reference sampleSpec (.new sampleGenesis)
        [sampleBlock 1 [flushTx 5]]).backend 7 =
      some ⟨arrOfNat 32 5, (sampleBlock 1 [flushTx 5]).hash .reference, 9⟩ ∧
    conventionalAnchors .reference sampleSpec 7 (executedBlocks .reference .reference sampleSpec
        (.new sampleGenesis) [sampleBlock 1 [flushTx 5]]) = [] := by
  decide +kernel

end Anchors

end Aii.Node
