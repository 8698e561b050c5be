/-
Aii.Node.ProposalExec — a proposal is executed like a committed block.

An unreadable record at a credit makes `execute_body_for_roots` fail; the
commit overwrites it.
-/
import Aii.Node.ExecFrame
import Aii.Node.LogQuery

namespace Aii.Node

open Common Chain List Backend Except StateDb

section Copy

variable {src dst : Backend} {cf : ColumnFamily} {k v : Bytes}

lemma foldl_put_eq_write (entries : List (Bytes × Bytes)) :
    entries.foldl (fun dst e => dst.put cf e.1 e.2) dst =
      dst.write (entries.map fun e => ⟨cf, e.1, e.2⟩) := by
  rw [write, foldl_map]

lemma get_copyCf (hsb : ∀ v, dst.get cf k = some v → src.get cf k = some v) :
    ((src.iter cf).foldl (fun dst e => dst.put cf e.1 e.2) dst).get cf k = src.get cf k := by
  rw [foldl_put_eq_write, get_write_map, Backend.iter, Common.OrderedMap.find?_toList_reverse,
    ← Backend.get]
  cases hs : src.get cf k with
  | some => rfl
  | none =>
    cases hd : dst.get cf k with
    | none => rfl
    | some v => exact (hsb v hd).symm.trans hs

lemma get_copyCfs (cfs : List ColumnFamily) (hm : cf ∈ cfs)
    (hs : ∀ v, dst.get cf k = some v → src.get cf k = some v) :
    (cfs.foldl (fun dst cf => (src.iter cf).foldl (fun dst e => dst.put cf e.1 e.2) dst) dst).get
      cf k = src.get cf k := by
  -- A family may be listed again, so the induction carries the part copied so far.
  suffices hor : ∀ dst : Backend, (∀ v, dst.get cf k = some v → src.get cf k = some v) →
      (cf ∈ cfs ∨ dst.get cf k = src.get cf k) →
      (cfs.foldl (fun dst cf => (src.iter cf).foldl (fun dst e => dst.put cf e.1 e.2) dst)
        dst).get cf k = src.get cf k from hor dst hs (.inl hm)
  clear hm hs
  induction cfs with
  | nil => exact fun dst _ h => h.resolve_left not_mem_nil
  | cons cf' _ ih =>
    intro dst hs h
    rw [foldl_cons]
    by_cases hcf : cf = cf'
    · subst hcf
      have hc := get_copyCf hs
      exact ih _ (fun v hv => hc ▸ hv) (.inr hc)
    · have hsm : ((src.iter cf').foldl (fun dst e => dst.put cf' e.1 e.2) dst).get cf k =
          dst.get cf k := by
        rw [foldl_put_eq_write, Backend.get, cf_write_ne (forall_mem_map.mpr fun _ _ => hcf),
          Backend.get]
      refine ih _ (fun v hv => hs v (hsm ▸ hv)) ?_
      rw [hsm]
      simpa [hcf] using h

end Copy

lemma copyExecutionBackend_agree (b : Backend) : ExecAgree (copyExecutionBackend b) b := by
  intro cf k hk
  refine get_copyCfs executionFamilies ?_ fun v hv => by simp [Backend.get, Backend.empty] at hv
  cases hk <;> simp [executionFamilies]

section Roots

variable {c : Crypto} {revm : Revm} {spec : ChainSpec} {number : UInt64} {coinbase : Address}
  {b : Backend} {s : ExecState} {s' : ExecState}

lemma persistBlock_agree (b : Backend) (block : Block) : ExecAgree (persistBlock c b block) b := by
  refine .write_outside _ fun op hop => ?_
  simp only [mem_append, mem_cons, not_mem_nil, or_false, mem_map] at hop
  rcases hop with (rfl | rfl | rfl) | ⟨p, -, rfl⟩
  · exact fun h => by cases h
  · exact fun h => by cases h
  · exact ExecKey.not_meta (prefix_append _ _) (by decide)
  · exact fun h => by cases h

lemma creditStateForRoots_ok {b' : Backend} {delta : U256}
    (h : creditStateForRoots c b coinbase delta = .ok b') :
    b' = if delta = 0 then b else credit c b coinbase delta := by
  unfold creditStateForRoots at h
  split_ifs at h ⊢
  · exact (ok.inj h).symm
  · cases ha : account c b coinbase with
    | error => simp [ha] at h
    | ok acc? =>
      rw [ha] at h
      rw [← ok.inj h, credit, accountD, ha]
      cases acc? <;> rfl

lemma creditStateForRoots_eq (hok : StateDb.StateOk b) (delta : U256) :
    creditStateForRoots c b coinbase delta =
      .ok (if delta = 0 then b else credit c b coinbase delta) := by
  obtain ⟨acc?, ha⟩ := hok.account coinbase
  cases hc : creditStateForRoots c b coinbase delta with
  | ok => rw [creditStateForRoots_ok hc]
  | error =>
    rw [creditStateForRoots, ha] at hc
    split_ifs at hc

lemma rootsTx_ok {tx : Tx} (h : rootsTx c revm spec number coinbase s tx = .ok s') :
    s' = commitTx c revm spec number coinbase s tx := by
  unfold rootsTx at h
  unfold commitTx
  generalize runTx c revm spec number s.backend tx = r at h ⊢
  obtain ⟨b', ch?⟩ := r
  cases ch? with
  | none => exact (ok.inj h).symm
  | some ch =>
    dsimp only at h ⊢
    cases hc : creditStateForRoots c b' coinbase ch.fee with
    | error => simp [hc] at h
    | ok =>
      rw [hc] at h
      rw [← creditStateForRoots_ok hc]
      exact (ok.inj h).symm

lemma rootsTx_eq (hok : StateDb.StateOk s.backend) (tx : Tx) :
    rootsTx c revm spec number coinbase s tx = .ok (commitTx c revm spec number coinbase s tx) := by
  have hr : StateDb.StateOk (runTx c revm spec number s.backend tx).1 := stateOk_runTx hok tx
  unfold rootsTx commitTx
  generalize runTx c revm spec number s.backend tx = r at hr ⊢
  obtain ⟨b', ch?⟩ := r
  cases ch? with
  | none => rfl
  | some =>
    dsimp only at hr ⊢
    rw [creditStateForRoots_eq hr]

/-- A run of the loop on the copy is the loop of the commit. -/
lemma rootsTxs_ok {txs : List Tx} (h : rootsTxs c revm spec number coinbase s txs = .ok s') :
    s' = commitTxs c revm spec number coinbase s txs := by
  induction txs generalizing s with
  | nil => exact (ok.inj h).symm
  | cons tx _ ih =>
    unfold rootsTxs at h
    cases htx : rootsTx c revm spec number coinbase s tx with
    | error => simp [htx] at h
    | ok =>
      rw [htx] at h
      rw [ih h, rootsTx_ok htx]
      rfl

lemma rootsTxs_eq (txs : List Tx) (hok : StateDb.StateOk s.backend) :
    rootsTxs c revm spec number coinbase s txs =
      .ok (commitTxs c revm spec number coinbase s txs) := by
  induction txs generalizing s with
  | nil => rfl
  | cons tx _ ih =>
    have hnx : StateDb.StateOk (commitTx c revm spec number coinbase s tx).backend := by
      rw [commitTx_backend]
      exact stateOk_afterTx hok coinbase tx
    rw [rootsTxs, rootsTx_eq hok]
    exact ih hnx

/-- The roots, the bloom and the gas `execute_block_txs` computes. -/
def committedRoots (c : Crypto) (revm : Revm) (spec : ChainSpec) (b : Backend) (block : Block) :
    Bft.PostBlockRoots :=
  let s := executedState c revm spec b block
  rootsOf c s ((StateDb.stateRoot c (persistReceipts c s.backend s.receipts)).toOption.getD
    EMPTY_TRIE_HASH)

lemma stateRoot_persistReceipts (b : Backend) (receipts : List (Tx × Receipt)) :
    stateRoot c (persistReceipts c b receipts) = stateRoot c b := by
  have hcf : (persistReceipts c b receipts).cf .state = b.cf .state := by
    refine Backend.cf_write_ne fun op hop => ?_
    obtain ⟨p, -, rfl⟩ := mem_map.mp hop
    exact ColumnFamily.noConfusion
  rw [stateRoot, Backend.iter, hcf, stateRoot, Backend.iter]

lemma committedRoots_agree {b₁ b₂ : Backend} (h : ExecAgree b₁ b₂) (block : Block) :
    committedRoots c revm spec b₁ block = committedRoots c revm spec b₂ block := by
  have hec : (executedState c revm spec b₁ block).Agree _ := executedState_agree h block
  unfold committedRoots rootsOf
  dsimp only
  rw [stateRoot_persistReceipts, stateRoot_persistReceipts, ExecAgree.stateRoot hec.backend,
    hec.receipts, hec.gas]

lemma mint_eq {r : Except StateError Backend} (hr : r =
      if spec.blockRewardAt number ≠ 0 ∧ mayReceiveSubsidy b coinbase then
        creditStateForRoots c b coinbase (u256OfU128 (spec.blockRewardAt number))
      else .ok b) :
    (∀ b', r = .ok b' → b' = mintSubsidy c spec b number coinbase) ∧
      (StateDb.StateOk b → r = .ok (mintSubsidy c spec b number coinbase)) := by
  subst hr
  unfold mintSubsidy
  dsimp only
  split_ifs with hm
  · have hne : u256OfU128 (spec.blockRewardAt number) ≠ 0 := by
      intro hzr
      apply hm.1
      apply BitVec.eq_of_toNat_eq
      rw [← u256OfU128_toNat, hzr]
      rfl
    constructor
    · intro b' hb'
      rw [creditStateForRoots_ok hb', if_neg hne]
    · intro hok
      rw [creditStateForRoots_eq hok, if_neg hne]
  · exact ⟨fun b' hb' => (ok.inj hb').symm, fun _ => rfl⟩

lemma executeBodyForRoots_ok {block : Block} {roots : Bft.PostBlockRoots}
    (h : executeBodyForRoots c revm spec b block.body block.header.beneficiary
      block.header.number = .ok roots) : roots = committedRoots c revm spec b block := by
  unfold executeBodyForRoots at h
  split at h
  · cases h
  next s ht =>
    obtain rfl := rootsTxs_ok ht
    dsimp only at h
    split at h
    · cases h
    next b' hm =>
      obtain rfl := (mint_eq rfl).1 b' hm
      split at h
      · cases h
      next root hrt =>
        rw [← ok.inj h, committedRoots, stateRoot_persistReceipts, executedState]
        rw [hrt]
        rfl

lemma executeBodyForRoots_eq (hok : StateDb.StateOk b) (block : Block) :
    executeBodyForRoots c revm spec b block.body block.header.beneficiary block.header.number =
      .ok (committedRoots c revm spec b block) := by
  have ht : rootsTxs c revm spec block.header.number block.header.beneficiary (.start b)
      block.body.transactions = .ok (commitTxs c revm spec block.header.number
        block.header.beneficiary (.start b) block.body.transactions) :=
    rootsTxs_eq block.body.transactions hok
  have haf : StateDb.StateOk (commitTxs c revm spec block.header.number
      block.header.beneficiary (.start b) block.body.transactions).backend := by
    rw [commitTxs_backend]
    exact stateOk_afterTxs hok _ _
  have hrt : ∃ root, stateRoot c (executedState c revm spec b block).backend = .ok root := by
    obtain ⟨pairs, hps⟩ := (stateOk_executedState hok block).rootPairs
    exact ⟨_, by rw [stateRoot, hps]; rfl⟩
  obtain ⟨root, hrt⟩ := hrt
  cases hec : executeBodyForRoots c revm spec b block.body block.header.beneficiary
      block.header.number with
  | ok => rw [executeBodyForRoots_ok hec]
  | error =>
    rw [executeBodyForRoots, ht] at hec
    dsimp only at hec
    rw [(mint_eq rfl).2 haf] at hec
    dsimp only [executedState] at hrt hec
    simp [hrt] at hec

/-- The gas total is that of the last receipt. -/
lemma commitTxs_gas (txs : List Tx)
    (hs : s.receipts.getLast?.elim 0 (·.2.cumulativeGasUsed) = s.cumulativeGasUsed) :
    (commitTxs c revm spec number coinbase s txs).receipts.getLast?.elim 0
        (·.2.cumulativeGasUsed) =
      (commitTxs c revm spec number coinbase s txs).cumulativeGasUsed := by
  induction txs generalizing s with
  | nil => exact hs
  | cons tx _ ih =>
    refine ih ?_
    unfold commitTx
    split
    · exact hs
    · simp [ExecState.charged, Charge.receipt]

/-- The commit stores what `committedRoots` says: the roots and the bloom
under the block's hash, and the gas in the last receipt. -/
structure CommitStores (c : Crypto) (stored : Backend) (block : Block)
    (receipts : List (Tx × Receipt)) (roots : Bft.PostBlockRoots) : Prop where
  underHash : postRoots stored (block.hash c) =
    some ⟨roots.stateRoot, roots.receiptsRoot, roots.logsBloom⟩
  gas : roots.gasUsed = receipts.getLast?.elim 0 (·.2.cumulativeGasUsed)
  last : ∀ tx receipt, receipts.getLast? = some (tx, receipt) →
    stored.get .receipts (tx.hash c).toList = some receipt.encode2718

lemma executeBlockTxs_stores (b : Backend) (block : Block) :
    CommitStores c (executeBlockTxs c revm spec b block) block
      (executedState c revm spec b block).receipts (committedRoots c revm spec b block) where
  underHash := postRoots_persistPostRoots ..
  gas := (commitTxs_gas (s := .start b) block.body.transactions rfl).symm
  last tx receipt hlast := by
    obtain ⟨earlier, hreceipts⟩ := getLast?_eq_some_iff.mp hlast
    simp [executeBlockTxs, persistPostRoots, get_put_ne, persistReceipts, hreceipts, write]

/-- What the execution of a proposal on a copy returns is what committing
the block computes and stores. -/
theorem proposal_roots_eq_committed (b : Backend) (block : Block) :
    let before := persistBlock c b block
    let proposed := executeBodyForRoots c revm spec (copyExecutionBackend b) block.body
      block.header.beneficiary block.header.number
    let committed := committedRoots c revm spec before block
    CommitStores c (executeBlockTxs c revm spec before block) block
        (executedState c revm spec before block).receipts committed ∧
      (∀ roots, proposed = .ok roots → roots = committed) ∧
      (StateDb.StateOk b → proposed = .ok committed) := by
  intro before proposed committed
  have hag : committedRoots c revm spec (copyExecutionBackend b) block = committed :=
    committedRoots_agree
      ((copyExecutionBackend_agree b).trans (persistBlock_agree b block).symm) block
  refine ⟨executeBlockTxs_stores before block, ?_, ?_⟩
  · intro roots hroots
    rw [executeBodyForRoots_ok hroots, hag]
  · intro hok
    rw [← hag]
    exact executeBodyForRoots_eq ((copyExecutionBackend_agree b).stateOk hok) block

end Roots

theorem proposal_roots_transfer_bond :
    let block := sampleBlock 1
      [sampleTx 0 1 (arrOfNat 20 7) 5 [], sampleTx 1 1 PRECOMPILE_ADDR 5 OP_BOND]
    let before := persistBlock .reference sampleGenesis block
    let committed := committedRoots .reference Revm.reference sampleSpec before block
    committed.gasUsed = 42000 ∧
      postRoots (executeBlockTxs .reference Revm.reference sampleSpec before block)
          (block.hash .reference) =
        some ⟨committed.stateRoot, committed.receiptsRoot, committed.logsBloom⟩ ∧
      executeBodyForRoots .reference Revm.reference sampleSpec
        (copyExecutionBackend sampleGenesis) block.body block.header.beneficiary
        block.header.number = .ok committed := by
  intro block before committed
  obtain ⟨hstored, -, hproposed⟩ := @proposal_roots_eq_committed .reference
    Revm.reference sampleSpec sampleGenesis block
  exact ⟨by decide +kernel, hstored.underHash, hproposed sampleGenesis_ok⟩

end Aii.Node
