/-
Aii.Node.Crash — a process that stops inside `commit_block`.

`crashStores` lists the store before each write and after the last;
`Passes` ties it to the code.
-/
import Aii.Node.Cache
import Aii.Node.Recover

namespace Aii.Node

open Common Chain List StateDb Backend Std.ExtTreeMap Except

/-! ## The writes of a commit -/

section Stores

variable (c : Crypto) (revm : Revm) (spec : ChainSpec)

/-- The store after each write of `applySlots`. -/
def slotStores (addr : Address) : Backend → List (U256 × StorageSlot) → List Backend
  | _, [] => []
  | b, s :: slots =>
    if s.2.originalValue = s.2.presentValue then slotStores addr b slots
    else
      let b' := StateDb.storagePut b addr (h256OfU256 s.1) (h256OfU256 s.2.presentValue)
      b' :: slotStores addr b' slots

/-- The store after each write of `applyAccount`. -/
def accountStores (b : Backend) (addr : Address) (old : Account) (acc : RevmAccount) :
    List Backend :=
  let b := StateDb.setAccount c b addr
    { old with nonce := acc.info.nonce, balance := acc.info.balance, codeHash := acc.info.codeHash }
  match acc.info.code with
  | some code =>
    if code.isEmpty then b :: slotStores addr b acc.storage
    else
      let b' := StateDb.codePut b acc.info.codeHash code
      b :: b' :: slotStores addr b' acc.storage
  | none => b :: slotStores addr b acc.storage

/-- The store after each write of `applyDiff`. -/
def diffStores : Backend → List (Address × RevmAccount) → List Backend
  | _, [] => []
  | b, (addr, acc) :: rest =>
    match StateDb.account c b addr with
    | .error _ => []
    | .ok old =>
      accountStores c b addr (old.getD .EMPTY) acc ++
        diffStores (applyAccount c b addr (old.getD .EMPTY) acc) rest

/-- The store after each write of `runTx`. An accepted precompile call
makes one write (a withdrawal that is not due makes none, and leaves the
store it found). -/
def runStores (number : UInt64) (b : Backend) (tx : Tx) : List Backend :=
  match tx.recoverSigner c spec.chainId, txCall tx with
  | some sender, some call =>
    if call.toAddr = some PRECOMPILE_ADDR then
      match dispatch c b (precompileCall spec number sender call) with
      | .ok (b', _) => [b']
      | .error _ => []
    else
      match revm (RevmDb.new c b) (callEnv sender call) with
      | .error _ => []
      | .ok out => diffStores c b out.state.entries
  | _, _ => []

/-- The store after the crediting of a fee, if there is one. -/
def settleStores (beneficiary : Address) (r : Backend × Option Charge) : List Backend :=
  match r.2 with
  | none => []
  | some ch => if ch.fee = 0 then [] else [credit c r.1 beneficiary ch.fee]

/-- The store after each write of the transaction loop. -/
def bodyStores (number : UInt64) (beneficiary : Address) : Backend → List Tx → List Backend
  | _, [] => []
  | b, tx :: txs =>
    runStores c revm spec number b tx ++
      settleStores c beneficiary (runTx c revm spec number b tx) ++
      bodyStores number beneficiary (afterTx c revm spec number beneficiary b tx) txs

def mintStores (b : Backend) (number : UInt64) (beneficiary : Address) : List Backend :=
  if spec.blockRewardAt number ≠ 0 ∧ mayReceiveSubsidy b beneficiary then
    [mintSubsidy c spec b number beneficiary]
  else []

/-- The store after each write of `execute_block_txs`. -/
def executeStores (b : Backend) (block : Block) : List Backend :=
  let s := executedState c revm spec b block
  bodyStores c revm spec block.header.number block.header.beneficiary b block.body.transactions ++
    mintStores c spec
      (block.body.transactions.foldl
        (afterTx c revm spec block.header.number block.header.beneficiary) b)
      block.header.number block.header.beneficiary ++
    [persistReceipts c s.backend s.receipts, executeBlockTxs c revm spec b block]

/-- The store after each write of `scan_microchain_anchors`. -/
def anchorStores (hash : H256) : Backend → List Tx → List Backend
  | _, [] => []
  | b, tx :: txs =>
    match parseFlushAnchor (txDataTo tx).1, tx.recoverSigner c spec.chainId with
    | some p, some sender =>
      if some sender ≠ (txDataTo tx).2 then anchorStores hash b txs
      else
        let b' := persistFlushAnchor b p hash
        b' :: anchorStores hash b' txs
    | _, _ => anchorStores hash b txs

/-- The store after the election, at an epoch boundary. -/
def electStores (b : Backend) (number : UInt64) : List Backend :=
  if number = 0 ∨ spec.epochLengthBlocks = 0 ∨ number % spec.epochLengthBlocks ≠ 0 then []
  else [maybeElectValidatorSet spec b number]

/-- The store after each write of `applyBlock` that follows the batch of
`persist_block`. -/
def laterStores (b : Backend) (block : Block) : List Backend :=
  let executed := executeBlockTxs c revm spec b block
  executeStores c revm spec b block ++
    anchorStores c spec (block.hash c) executed block.body.transactions ++
    electStores spec (scanMicrochainAnchors c spec executed block) block.header.number

/-- What the disk can hold when the process stops inside `commit_block`. -/
def crashStores (n : NodeState) (block : Block) : List Backend :=
  if n.blocks.byHash.contains (block.hash c).toList then [n.backend]
  else
    match forkAt c n.blocks block with
    | some canonical =>
      [n.backend, recordFork n.backend block.header.number canonical (block.hash c)]
    | none =>
      n.backend :: persistBlock c n.backend block ::
        laterStores c revm spec (persistBlock c n.backend block) block

end Stores

/-! ## Where the writes lead -/

def SameBlocks (b b' : Backend) : Prop :=
  b.cf .headers = b'.cf .headers ∧ b.cf .bodies = b'.cf .bodies

lemma SameBlocks.of_frame {b b' : Backend}
    (h : ∀ cf, cf = .headers ∨ cf = .bodies → b.cf cf = b'.cf cf) : SameBlocks b b' :=
  ⟨h _ (.inl rfl), h _ (.inr rfl)⟩

lemma SameBlocks.trans {b b' b'' : Backend} (h : SameBlocks b b') (h' : SameBlocks b' b'') :
    SameBlocks b b'' :=
  ⟨h.1.trans h'.1, h.2.trans h'.2⟩

/-- Writing from `b` through the stores `l` ends in `b'`, and none of the
writes touches `Headers` or `Bodies`. -/
structure Passes (b : Backend) (l : List Backend) (b' : Backend) : Prop where
  last : l.getLastD b = b'
  blocks : ∀ x ∈ l, SameBlocks x b

section Passes

variable {b b' b'' : Backend} {l l' : List Backend}

lemma Passes.nil (b : Backend) : Passes b [] b := ⟨rfl, nofun⟩

lemma Passes.same (h : Passes b l b') : SameBlocks b' b := by
  obtain ⟨rfl, hbc⟩ := h
  cases hl : l.getLast? with
  | none =>
    rw [getLastD_eq_getLast?, hl]
    exact ⟨rfl, rfl⟩
  | some x => grind

lemma Passes.append (h : Passes b l b') (h' : Passes b' l' b'') : Passes b (l ++ l') b'' where
  last := by
    rw [getLastD_eq_getLast?, getLast?_append, ← h'.last, ← h.last,
      getLastD_eq_getLast?, getLastD_eq_getLast?]
    cases l'.getLast? <;> rfl
  blocks x hx := by
    rcases mem_append.mp hx with hx | hx
    · exact h.blocks x hx
    · exact (h'.blocks x hx).trans h.same

lemma Passes.write (h : SameBlocks b' b) : Passes b [b'] b' :=
  ⟨rfl, fun x hx => by rw [mem_singleton.mp hx]; exact h⟩

lemma Passes.cons (h : SameBlocks b' b) (h' : Passes b' l b'') : Passes b (b' :: l) b'' :=
  (Passes.write h).append h'

end Passes

section Code

variable {c : Crypto} {revm : Revm} {spec : ChainSpec}

lemma slotStores_passes (addr : Address) (slots : List (U256 × StorageSlot)) (b : Backend) :
    Passes b (slotStores addr b slots) (applySlots b addr slots) := by
  unfold applySlots
  induction slots generalizing b with
  | nil => exact .nil b
  | cons _ _ ih =>
    rw [slotStores, foldl_cons]
    split_ifs
    · exact ih b
    · exact .cons ⟨storagePut_frame _ _ _ (by decide), storagePut_frame _ _ _ (by decide)⟩ (ih _)

lemma accountStores_passes (b : Backend) (addr : Address) (old : Account) (acc : RevmAccount) :
    Passes b (accountStores c b addr old acc) (applyAccount c b addr old acc) := by
  have hs : ∀ a, SameBlocks (setAccount c b addr a) b := fun a =>
    ⟨cf_put_ne (by decide), cf_put_ne (by decide)⟩
  unfold accountStores applyAccount
  cases acc.info.code with
  | none => exact .cons (hs _) (slotStores_passes _ _ _)
  | some =>
    dsimp only
    split_ifs
    · exact .cons (hs _) (slotStores_passes _ _ _)
    · exact .cons (hs _) (.cons ⟨cf_put_ne (by decide), cf_put_ne (by decide)⟩
        (slotStores_passes _ _ _))

lemma diffStores_passes (entries : List (Address × RevmAccount)) (b : Backend) :
    Passes b (diffStores c b entries) (applyDiff c b entries).1 := by
  induction entries generalizing b with
  | nil => exact .nil b
  | cons e _ ih =>
    obtain ⟨addr, acc⟩ := e
    rw [diffStores, applyDiff]
    cases account c b addr with
    | error => exact .nil b
    | ok => exact (accountStores_passes b addr _ acc).append (ih _)

lemma runStores_passes (number : UInt64) (b : Backend) (tx : Tx) :
    Passes b (runStores c revm spec number b tx) (runTx c revm spec number b tx).1 := by
  unfold runStores runTx
  cases tx.recoverSigner c spec.chainId with
  | none => exact .nil b
  | some sender =>
    cases txCall tx with
    | none => exact .nil b
    | some call =>
      dsimp only
      split_ifs
      · have hfr : SameBlocks (afterDispatch c b (precompileCall spec number sender call)) b :=
          ⟨afterDispatch_frame (by decide) _ _, afterDispatch_frame (by decide) _ _⟩
        unfold afterDispatch at hfr ⊢
        cases hds : dispatch c b (precompileCall spec number sender call) with
        | error => exact .nil b
        | ok =>
          rw [hds] at hfr
          exact .write hfr
      · unfold executeWithRevm
        cases revm (RevmDb.new c b) (callEnv sender call) with
        | error => exact .nil b
        | ok out =>
          have hd : Passes b (diffStores c b out.state.entries)
              (applyDiff c b out.state.entries).1 := diffStores_passes _ b
          dsimp only
          generalize applyDiff c b out.state.entries = written at hd ⊢
          obtain ⟨b', res⟩ := written
          cases res <;> exact hd

lemma settleStores_passes (beneficiary : Address) (r : Backend × Option Charge) :
    Passes r.1 (settleStores c beneficiary r) (settle c beneficiary r) := by
  unfold settleStores settle
  cases r.2 with
  | none => exact .nil _
  | some =>
    dsimp only
    split_ifs
    · exact .nil _
    · exact .write ⟨credit_frame (by decide) _ _ _, credit_frame (by decide) _ _ _⟩

lemma bodyStores_passes (number : UInt64) (beneficiary : Address) (txs : List Tx) (b : Backend) :
    Passes b (bodyStores c revm spec number beneficiary b txs)
      (txs.foldl (afterTx c revm spec number beneficiary) b) := by
  induction txs generalizing b with
  | nil => exact .nil b
  | cons tx _ ih =>
    rw [bodyStores, foldl_cons]
    exact ((runStores_passes number b tx).append (settleStores_passes beneficiary _)).append (ih _)

lemma mintStores_passes (b : Backend) (number : UInt64) (beneficiary : Address) :
    Passes b (mintStores c spec b number beneficiary)
      (mintSubsidy c spec b number beneficiary) := by
  unfold mintStores mintSubsidy
  dsimp only
  split_ifs
  · exact .write ⟨credit_frame (by decide) _ _ _, credit_frame (by decide) _ _ _⟩
  · exact .nil b

lemma executeStores_passes (b : Backend) (block : Block) :
    Passes b (executeStores c revm spec b block) (executeBlockTxs c revm spec b block) := by
  have hstate : Passes b
      (bodyStores c revm spec block.header.number block.header.beneficiary b
          block.body.transactions ++ mintStores c spec (block.body.transactions.foldl
            (afterTx c revm spec block.header.number block.header.beneficiary) b)
          block.header.number block.header.beneficiary)
      (executedState c revm spec b block).backend := by
    rw [executedState_backend]
    exact (bodyStores_passes _ _ _ b).append (mintStores_passes _ _ _)
  have hr : SameBlocks
      (persistReceipts c (executedState c revm spec b block).backend
        (executedState c revm spec b block).receipts)
      (executedState c revm spec b block).backend := by
    refine .of_frame fun cf hcf => cf_write_ne fun op hop => ?_
    obtain ⟨p, -, rfl⟩ := mem_map.mp hop
    rcases hcf with rfl | rfl <;> exact ColumnFamily.noConfusion
  exact hstate.append (.cons hr (.write ⟨cf_put_ne (by decide), cf_put_ne (by decide)⟩))

lemma anchorStores_passes (hash : H256) (txs : List Tx) (b : Backend) :
    Passes b (anchorStores c spec hash b txs)
      (txs.foldl (fun b tx =>
        match parseFlushAnchor (txDataTo tx).1, tx.recoverSigner c spec.chainId with
        | some p, some sender =>
          if some sender ≠ (txDataTo tx).2 then b else persistFlushAnchor b p hash
        | _, _ => b) b) := by
  induction txs generalizing b with
  | nil => exact .nil b
  | cons _ _ ih =>
    rw [anchorStores, foldl_cons]
    split
    next =>
      split_ifs
      · exact ih b
      · exact .cons ⟨cf_put_ne (by decide), cf_put_ne (by decide)⟩ (ih _)
    next => exact ih b

lemma electStores_passes (b : Backend) (number : UInt64) :
    Passes b (electStores spec b number) (maybeElectValidatorSet spec b number) := by
  have hfr : SameBlocks (maybeElectValidatorSet spec b number) b :=
    ⟨maybeElectValidatorSet_frame (by decide) b number,
      maybeElectValidatorSet_frame (by decide) b number⟩
  unfold electStores
  split_ifs with hq
  · have hil : maybeElectValidatorSet spec b number = b := if_pos hq
    rw [hil]
    exact .nil b
  · exact .write hfr

lemma laterStores_passes (b : Backend) (block : Block) :
    Passes (persistBlock c b block) (laterStores c revm spec (persistBlock c b block) block)
      (applyBlock c revm spec b block) :=
  ((executeStores_passes _ block).append (anchorStores_passes (block.hash c) _ _)).append
    (electStores_passes _ _)

lemma crashStores_of_applies {n : NodeState} {block : Block} (h : applies c n block = true) :
    crashStores c revm spec n block = n.backend :: persistBlock c n.backend block ::
        laterStores c revm spec (persistBlock c n.backend block) block := by
  rw [applies, Bool.and_eq_true, Bool.not_eq_true', Option.isNone_iff_eq_none] at h
  rw [crashStores, if_neg (by simp [h.1]), h.2]

end Code

/-! ## The chain before the crash -/

section Chain

variable {c : Crypto} {revm : Revm} {spec : ChainSpec} {n : NodeState} {chain : List Block}
  {block : Block} {b : Backend} {x y : Block}

lemma HeadersFrom.of_same {b' : Backend} (h : HeadersFrom c b chain) (hsm : SameBlocks b' b) :
    HeadersFrom c b' chain := by
  intro k v hv
  rw [Backend.get, hsm.1] at hv
  exact h k v hv

lemma HeadersFrom.persistBlock (h : HeadersFrom c b chain) (block : Block) :
    HeadersFrom c (persistBlock c b block) (chain ++ [block]) := by
  intro k v hv
  rw [Backend.get, persistBlock_header] at hv
  by_cases hk : (block.hash c).toList = k
  · grind
  · rw [OrderedMap.getElem?_insert_ne hk] at hv
    obtain ⟨x, hx, hbh⟩ := h k v hv
    exact ⟨x, mem_append_left _ hx, hbh⟩

/-- The node has committed `chain`: its cache and its stored headers are
those of the chain. -/
structure Synced (c : Crypto) (n : NodeState) (chain : List Block) : Prop where
  caches : Caches c n.blocks (newest chain)
  headers : HeadersFrom c n.backend chain

section Apply

variable (h : Synced c n chain)
  (hn : ∀ x ∈ chain, x.hash c ≠ block.hash c ∧ x.header.number ≠ block.header.number)

include h hn

lemma Synced.applies : applies c n block = true :=
  (h.caches.applies_iff block).mpr fun x hx => hn x (mem_of_mem_newest hx)

lemma Synced.commitStep : Synced c (commitStep c revm spec n block) (chain ++ [block]) := by
  have has := h.applies hn
  have hc : Caches c (commitBlock c revm spec n block).blocks (newest (chain ++ [block])) := by
    have hci : Caches c (Node.commitBlock c revm spec n block).blocks _ :=
      h.caches.commitBlock block
    rwa [if_pos has] at hci
  have hh : HeadersFrom c (commitBlock c revm spec n block).backend (chain ++ [block]) := by
    rw [commitBlock_of_applies has]
    exact (h.headers.persistBlock block).of_same (laterStores_passes n.backend block).same
  have hsm : SameBlocks (setHead (commitBlock c revm spec n block) block.header.number).backend
      (commitBlock c revm spec n block).backend :=
    ⟨setHead_frame (by decide) _ _, setHead_frame (by decide) _ _⟩
  exact ⟨hc, hh.of_same hsm⟩

end Apply

/-- Numbers grow along the chain, and the hash tells its headers apart. -/
structure IsChain (c : Crypto) (blocks : List Block) : Prop where
  numbers : blocks.Pairwise fun x y => x.header.number < y.header.number
  collisionFree : ∀ x ∈ blocks, ∀ y ∈ blocks,
    c.keccak256 x.header.encode = c.keccak256 y.header.encode → x.header.encode = y.header.encode

lemma IsChain.init (h : IsChain c (chain ++ [block])) : IsChain c chain where
  numbers := (pairwise_append.mp h.numbers).1
  collisionFree x hx y hy := h.collisionFree x (mem_append_left _ hx) y (mem_append_left _ hy)

lemma IsChain.last (h : IsChain c (chain ++ [block])) :
    ∀ x ∈ chain, x.header.number < block.header.number := fun x hx =>
  (pairwise_append.mp h.numbers).2.2 x hx block (mem_singleton_self block)

lemma IsChain.fresh (h : IsChain c (chain ++ [block])) :
    ∀ x ∈ chain, x.hash c ≠ block.hash c ∧ x.header.number ≠ block.header.number := by
  intro x hx
  have hne := UInt64.ne_of_lt (h.last x hx)
  refine ⟨fun hhs => hne (Header.encode_number_inj ?_), hne⟩
  exact h.collisionFree x (mem_append_left _ hx) block (by simp) hhs

lemma IsChain.hash_ne (h : IsChain c chain) (hx : x ∈ chain) (hy : y ∈ chain)
    (hne : x.header.number ≠ y.header.number) : x.hash c ≠ y.hash c := fun hhs =>
  hne (Header.encode_number_inj (h.collisionFree x hx y hy hhs))

lemma IsChain.pairwise (h : IsChain c chain) :
    chain.Pairwise fun x y => x.hash c ≠ y.hash c ∧ x.header.number ≠ y.header.number := by
  refine h.numbers.imp_of_mem fun hx hy hlt => ?_
  have hne := UInt64.ne_of_lt hlt
  exact ⟨h.hash_ne hx hy hne, hne⟩

lemma IsChain.eq_of_number (h : IsChain c chain) (hx : x ∈ chain) (hy : y ∈ chain)
    (heq : x.header.number = y.header.number) : x = y := by
  have hds := h.pairwise.imp fun hxy => hxy.2
  have hs : Std.Symm fun x y : Block => x.header.number ≠ y.header.number :=
    ⟨fun _ _ hxy => hxy.symm⟩
  by_contra hne
  exact hds.forall hx hy hne heq

lemma synced_replay {genesis : Backend} (hg : genesis.cf .headers = ∅)
    (h : IsChain c chain) : Synced c (replay c revm spec (.new genesis) chain) chain := by
  induction chain using List.reverseRecOn with
  | nil =>
    refine ⟨Caches.empty, fun k v hv => ?_⟩
    have hnn : genesis.get .headers k = none := by simp [Backend.get, hg]
    exact absurd (hnn.symm.trans hv) (Option.some_ne_none v).symm
  | append_singleton _ _ ih =>
    rw [replay_concat]
    exact (ih h.init).commitStep h.fresh

end Chain

/-- The records the outcome of a commit is read from: accounts with code
and storage, receipts, stakes and elected sets. -/
inductive OutcomeKey : ColumnFamily → Bytes → Prop
  | state (k : Bytes) : OutcomeKey .state k
  | code (k : Bytes) : OutcomeKey .code k
  | storage (k : Bytes) : OutcomeKey .accountStorage k
  | receipt (k : Bytes) : OutcomeKey .receipts k
  | stake {k : Bytes} (h : StakeTable.KEY_PREFIX <+: k) : OutcomeKey .metaCf k
  | epoch {k : Bytes} (h : Dpos.KEY_PREFIX <+: k) : OutcomeKey .metaCf k

end Aii.Node
