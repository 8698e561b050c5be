/-
Aii.Node.Commit — the node state and what is done to it
(`NodeState` in `aii-node/src/lib.rs`).

`applyBlock` is everything a block does to the store.
-/
import Aii.Node.Execute

namespace Aii.Node

open Common Chain List Backend

/-! ## State -/

def MAX_BLOCKS_IN_MEMORY : Nat := 2048

/-- `BlockStore`. The hash maps are keyed by the bytes of the hash. -/
@[ext] structure BlockStore where
  byHash : Std.ExtTreeMap Bytes Header
  byNumber : Std.ExtTreeMap UInt64 H256
  order : List H256
  bodyByHash : Std.ExtTreeMap Bytes BlockBody
  txIndex : Std.ExtTreeMap Bytes (UInt64 × Nat)

/-- `BlockStore::default()`. -/
def BlockStore.empty : BlockStore := ⟨∅, ∅, [], ∅, ∅⟩

structure NodeState where
  head : UInt64
  backend : Backend
  blocks : BlockStore

def NodeState.new (backend : Backend) : NodeState := ⟨0, backend, .empty⟩

def META_KEY_HEAD : Bytes :=
  ascii ['h', 'e', 'a', 'd', '_', 'b', 'l', 'o', 'c', 'k', '_', 'n', 'u', 'm', 'b', 'e', 'r']

def META_KEY_HEAD_HASH : Bytes :=
  ascii ['h', 'e', 'a', 'd', '_', 'b', 'l', 'o', 'c', 'k', '_', 'h', 'a', 's', 'h']

def META_KEY_SLASH_PREFIX : Bytes := ascii ['s', 'l', 'a', 's', 'h', ':']

def META_KEY_FORK_PREFIX : Bytes := ascii ['f', 'o', 'r', 'k', ':']

def numberKey (n : UInt64) : Bytes := ascii ['n', ':'] ++ u64Be n

namespace BlockStore

variable (c : Crypto)

def insert (s : BlockStore) (block : Block) : BlockStore where
  byHash := s.byHash.insert (block.hash c).toList block.header
  byNumber := s.byNumber.insert block.header.number (block.hash c)
  order := s.order ++ [block.hash c]
  bodyByHash := s.bodyByHash.insert (block.hash c).toList block.body
  txIndex := block.body.transactions.zipIdx.foldl
    (fun m p => m.insert (p.1.hash c).toList (block.header.number, p.2)) s.txIndex

def evictOldest (s : BlockStore) : BlockStore :=
  match s.order with
  | [] => s
  | oldest :: order =>
    { byHash := s.byHash.erase oldest.toList
      byNumber := match s.byHash[oldest.toList]? with
        | some hdr => s.byNumber.erase hdr.number
        | none => s.byNumber
      order := order
      bodyByHash := s.bodyByHash.erase oldest.toList
      txIndex := match s.bodyByHash[oldest.toList]? with
        | some body => body.transactions.foldl (fun m tx => m.erase (tx.hash c).toList) s.txIndex
        | none => s.txIndex }

/-- The eviction loop: every turn removes one element of `order`. -/
def evict : Nat → BlockStore → BlockStore
  | 0, s => s
  | n + 1, s => evict n (evictOldest c s)

def index (s : BlockStore) (block : Block) : BlockStore :=
  let s := s.insert c block
  evict c (s.order.length - MAX_BLOCKS_IN_MEMORY) s

end BlockStore

/-! ## Committing a block -/

section Commit

variable (c : Crypto) (revm : Revm) (spec : ChainSpec)

def persistBlock (b : Backend) (block : Block) : Backend :=
  let hash := (block.hash c).toList
  b.write ([⟨.headers, hash, block.header.encode⟩, ⟨.bodies, hash, block.body.encode⟩,
      ⟨.metaCf, numberKey block.header.number, hash⟩] ++
    block.body.transactions.zipIdx.map fun p =>
      ⟨.txLookup, (p.1.hash c).toList, hash ++ u64Be (UInt64.ofNat p.2)⟩)

def recordFork (b : Backend) (height : UInt64) (canonical fork : H256) : Backend :=
  b.put .metaCf (META_KEY_FORK_PREFIX ++ u64Be height ++ fork.toList) canonical.toList

structure ForkRecord where
  height : UInt64
  canonicalHash : H256
  forkHash : H256
  deriving DecidableEq

def listForks (b : Backend) : List ForkRecord :=
  (b.iterPrefix .metaCf META_KEY_FORK_PREFIX).filterMap fun e =>
    let suffix := e.1.drop META_KEY_FORK_PREFIX.length
    if suffix.length ≠ 8 + 32 ∨ e.2.length ≠ 32 then none
    else
      (arr? 32 ((suffix.drop 8).take 32)).bind fun fork =>
        (arr? 32 e.2).map fun canonical => ⟨u64OfBe (suffix.take 8), canonical, fork⟩

structure FlushTxPayload where
  subChainId : UInt32
  subBlockHash : H256
  subBlockNumber : UInt64
  deriving DecidableEq

def FLUSH_TX_MAGIC : Bytes := ascii ['A', 'I', 'I', '_', 'F', 'L', 'U', 'S', 'H']

def parseFlushAnchor (data : Bytes) : Option FlushTxPayload :=
  if data.length ≠ 9 + 4 + 32 + 8 ∨ !FLUSH_TX_MAGIC.isPrefixOf data then none
  else
    let rest := data.drop FLUSH_TX_MAGIC.length
    (arr? 32 ((rest.drop 4).take 32)).map fun hash =>
      ⟨u32OfBe (rest.take 4), hash, u64OfBe ((rest.drop 36).take 8)⟩

/-- Calldata and destination of any transaction. -/
def txDataTo : Tx → Bytes × Option Address
  | .legacy t => (t.data, t.toAddr)
  | .eip1559 t => (t.data, t.toAddr)
  | .eip4844 t => (t.data, some t.toAddr)

def persistFlushAnchor (b : Backend) (p : FlushTxPayload) (parentBlockHash : H256) : Backend :=
  b.put .microChain (ascii ['a', 'n', 'c', 'h', 'o', 'r', ':'] ++ u32Be p.subChainId)
    (p.subBlockHash.toList ++ parentBlockHash.toList ++ u64Be p.subBlockNumber)

def scanMicrochainAnchors (b : Backend) (block : Block) : Backend :=
  block.body.transactions.foldl (fun b tx =>
    match parseFlushAnchor (txDataTo tx).1, tx.recoverSigner c spec.chainId with
    | some p, some sender =>
      if some sender ≠ (txDataTo tx).2 then b else persistFlushAnchor b p (block.hash c)
    | _, _ => b) b

def maybeElectValidatorSet (b : Backend) (number : UInt64) : Backend :=
  let epochLen := spec.epochLengthBlocks
  if number = 0 ∨ epochLen = 0 ∨ number % epochLen ≠ 0 then b
  else
    let minStake := u256OfU128 spec.minValidatorStakeWei
    let registered := electRegisteredActiveSet b minStake spec.validatorsPerEpoch
    let elected :=
      if registered.isEmpty then electActiveSet b minStake spec.validatorsPerEpoch else registered
    Dpos.persistValidatorSet b (number / epochLen) elected

def applyBlock (b : Backend) (block : Block) : Backend :=
  let b := persistBlock c b block
  let b := executeBlockTxs c revm spec b block
  let b := scanMicrochainAnchors c spec b block
  maybeElectValidatorSet spec b block.header.number

/-- The hash of another block that holds the number of `block`. -/
def forkAt (s : BlockStore) (block : Block) : Option H256 :=
  s.byNumber[block.header.number]?.filter (· ≠ block.hash c)

def commitBlock (s : NodeState) (block : Block) : NodeState :=
  if s.blocks.byHash.contains (block.hash c).toList then s
  else
    match forkAt c s.blocks block with
    | some canonical =>
      { s with backend := recordFork s.backend block.header.number canonical (block.hash c) }
    | none =>
      { s with
        blocks := s.blocks.index c block
        backend := applyBlock c revm spec s.backend block }

def applies (s : NodeState) (block : Block) : Bool :=
  !s.blocks.byHash.contains (block.hash c).toList && (forkAt c s.blocks block).isNone

def setHead (s : NodeState) (n : UInt64) : NodeState :=
  let b := s.backend.put .metaCf META_KEY_HEAD (u64Be n)
  { s with
    head := n
    backend := match s.blocks.byNumber[n]? with
      | some hash => b.put .metaCf META_KEY_HEAD_HASH hash.toList
      | none => b }

def commitStep (n : NodeState) (block : Block) : NodeState :=
  setHead (commitBlock c revm spec n block) block.header.number

/-- The node after committing `blocks` and doing nothing else. -/
def replay (n : NodeState) (blocks : List Block) : NodeState :=
  blocks.foldl (commitStep c revm spec) n

lemma replay_concat (n : NodeState) (blocks : List Block) (block : Block) :
    replay c revm spec n (blocks ++ [block]) =
      commitStep c revm spec (replay c revm spec n blocks) block := by
  rw [replay, foldl_append]
  rfl

/-- `debit_slash_stake`: without a record nothing happens. -/
def debitSlashStake (b : Backend) (offender : Address) (slashAmountWei : U256) : Backend :=
  match StakeTable.slash b offender slashAmountWei with
  | .ok b' => b'
  | .error _ => b

def latestValidatorAddressByIndex (b : Backend) (validatorIndex : UInt32) :
    Option (UInt64 × Address) :=
  (Dpos.latestValidatorSet b).bind fun p =>
    (p.2[validatorIndex.toNat]?).map fun entry => (p.1, entry.address)

def phaseTag : Bft.VotePhase → UInt8 × Bytes
  | .prevote => (0, ascii ['p', 'r', 'e', 'v', 'o', 't', 'e'])
  | .precommit => (1, ascii ['p', 'r', 'e', 'c', 'o', 'm', 'm', 'i', 't'])

def recordSlashing (b : Backend) (ev : Bft.EquivocationEvidence) : Backend :=
  let tag := phaseTag ev.phase
  b.put .metaCf
    (META_KEY_SLASH_PREFIX ++ u32Be ev.validatorIndex ++ u64Be ev.height ++ [tag.1])
    (UInt8.ofNat tag.2.length :: tag.2 ++ ev.first.blockHash.toList ++ ev.second.blockHash.toList)

structure SlashRecord where
  validatorIndex : UInt32
  height : UInt64
  phase : Bft.VotePhase
  blockHashes : H256 × H256
  deriving DecidableEq

/-- `list_slashings`: the phase is read off the key, and the hashes after
the name of the phase in the value. -/
def listSlashings (b : Backend) : List SlashRecord :=
  (b.iterPrefix .metaCf META_KEY_SLASH_PREFIX).filterMap fun e =>
    let suffix := e.1.drop META_KEY_SLASH_PREFIX.length
    if suffix.length ≠ 4 + 8 + 1 then none
    else if e.2.length < 1 + 64 then none
    else
      let plen := (e.2.getD 0 0).toNat
      if e.2.length < 1 + plen + 64 then none
      else
        let hashBytes := e.2.drop (1 + plen)
        (arr? 32 (hashBytes.take 32)).bind fun h0 =>
          (arr? 32 ((hashBytes.drop 32).take 32)).map fun h1 =>
            { validatorIndex := u32OfBe (suffix.take 4)
              height := u64OfBe ((suffix.drop 4).take 8)
              phase := if suffix.getD 12 0 = (0 : UInt8) then .prevote else .precommit
              blockHashes := (h0, h1) }

end Commit

/-! ## What committing a block changes -/

section Frame

variable {c : Crypto} {revm : Revm} {spec : ChainSpec} {cf : ColumnFamily} {k : Bytes}
  {s : NodeState} {K : ColumnFamily → Bytes → Prop} {block : Block}

lemma commitBlock_of_applies (h : applies c s block = true) :
    commitBlock c revm spec s block = { s with
        blocks := s.blocks.index c block
        backend := applyBlock c revm spec s.backend block } := by
  rw [applies, Bool.and_eq_true, Bool.not_eq_true', Option.isNone_iff_eq_none] at h
  rw [commitBlock, if_neg (by simp [h.1]), h.2]

lemma commitBlock_of_not_applies (h : ¬ applies c s block = true) :
    commitBlock c revm spec s block = s ∨ ∃ canonical, commitBlock c revm spec s block = { s with
          backend := recordFork s.backend block.header.number canonical (block.hash c) } := by
  unfold applies at h
  unfold commitBlock
  split_ifs with hc
  · exact .inl rfl
  · cases hf : forkAt c s.blocks block with
    | none => exact absurd (by simp [hf, hc]) h
    | some canonical => exact .inr ⟨canonical, rfl⟩

lemma persistBlock_frame (hcf : cf ∉ [ColumnFamily.headers, .bodies, .metaCf, .txLookup])
    (b : Backend) (block : Block) : (persistBlock c b block).cf cf = b.cf cf := by
  simp only [mem_cons, not_mem_nil, or_false, not_or] at hcf
  obtain ⟨hh, hbo, hm, hl⟩ := hcf
  unfold persistBlock
  refine cf_write_ne fun op hop => ?_
  simp only [mem_append, mem_cons, not_mem_nil, or_false, mem_map] at hop
  rcases hop with (rfl | rfl | rfl) | ⟨p, -, rfl⟩
  · exact hh
  · exact hbo
  · exact hm
  · exact hl

lemma persistBlock_header (b : Backend) (block : Block) : (persistBlock c b block).cf .headers =
      (b.cf .headers).insert (block.hash c).toList block.header.encode := by
  refine cf_write_once [] ⟨.headers, _, _⟩ nofun ?_
  simp [-Prod.exists, -Prod.forall]

lemma persistBlock_body (b : Backend) (block : Block) : (persistBlock c b block).cf .bodies =
      (b.cf .bodies).insert (block.hash c).toList block.body.encode := by
  refine cf_write_once [⟨.headers, _, _⟩] ⟨.bodies, _, _⟩ ?_ ?_ <;>
    simp [-Prod.exists, -Prod.forall]

lemma scanMicrochainAnchors_frame (hcf : cf ≠ .microChain) (b : Backend) (block : Block) :
    (scanMicrochainAnchors c spec b block).cf cf = b.cf cf := by
  unfold scanMicrochainAnchors
  induction block.body.transactions generalizing b with
  | nil => rfl
  | cons _ _ ih =>
    rw [foldl_cons, ih]
    split
    · split_ifs
      · rfl
      · exact cf_put_ne hcf
    · rfl

lemma maybeElectValidatorSet_frame (hcf : cf ≠ .metaCf) (b : Backend) (number : UInt64) :
    (maybeElectValidatorSet spec b number).cf cf = b.cf cf := by
  unfold maybeElectValidatorSet
  dsimp only
  split_ifs
  · rfl
  · exact cf_put_ne hcf
  · exact cf_put_ne hcf

/-- The keys of the `Meta` column family that applying a block may write. -/
def BlockKey (k : Bytes) : Prop :=
  ascii ['n', ':'] <+: k ∨ StakeTable.KEY_PREFIX <+: k ∨ GovernanceKey k ∨
    META_KEY_POSTROOT_PREFIX <+: k ∨ Dpos.KEY_PREFIX <+: k

lemma persistBlock_meta (hk : ¬ ascii ['n', ':'] <+: k) (b : Backend) (block : Block) :
    (persistBlock c b block).get .metaCf k = b.get .metaCf k := by
  have hag : Backend.AgreeOn (fun cf k' => cf = .metaCf ∧ k' = k)
      (persistBlock c b block) b := by
    unfold persistBlock
    refine .write_outside _ ?_
    simp only [mem_append, mem_cons, not_mem_nil, or_false, mem_map]
    rintro op ((rfl | rfl | rfl) | ⟨p, -, rfl⟩) ⟨hcf, hky⟩
    · cases hcf
    · cases hcf
    · exact hk (hky ▸ prefix_append _ _)
    · cases hcf
  exact hag .metaCf k ⟨rfl, rfl⟩

/-- What no transaction and no credit changes, the block does not change. -/
lemma executedState_keeps {β : Type} (f : Backend → β) (block : Block)
    (htx : ∀ b tx, f (afterTx c revm spec block.header.number block.header.beneficiary b tx) = f b)
    (hcr : ∀ b addr delta, f (credit c b addr delta) = f b) (b : Backend) :
    f (executedState c revm spec b block).backend = f b := by
  have hby : ∀ txs : List Tx, f (txs.foldl
      (afterTx c revm spec block.header.number block.header.beneficiary) b) = f b := by
    intro txs
    induction txs generalizing b with
    | nil => rfl
    | cons _ _ ih => rw [foldl_cons, ih, htx]
  rw [executedState_backend, ← hby block.body.transactions]
  unfold mintSubsidy
  dsimp only
  split_ifs
  · exact hcr _ _ _
  · rfl

lemma executedState_meta (hsk : ¬ StakeTable.KEY_PREFIX <+: k) (hg : ¬ GovernanceKey k)
    (b : Backend) (block : Block) :
    (executedState c revm spec b block).backend.get .metaCf k = b.get .metaCf k :=
  executedState_keeps (·.get .metaCf k) block (fun _ tx => afterTx_meta _ tx hsk hg)
    (fun _ _ _ => by rw [Backend.get, credit_frame (by decide), Backend.get]) b

lemma maybeElectValidatorSet_meta (hk : ¬ Dpos.KEY_PREFIX <+: k) (b : Backend) (number : UInt64) :
    (maybeElectValidatorSet spec b number).get .metaCf k = b.get .metaCf k := by
  have hne : ∀ epoch, k ≠ Dpos.key epoch := by
    rintro epoch rfl
    exact hk (prefix_append _ _)
  unfold maybeElectValidatorSet
  dsimp only
  split_ifs
  · rfl
  · exact get_put_ne fun _ => hne _
  · exact get_put_ne fun _ => hne _

lemma applyBlock_meta (hk : ¬ BlockKey k) (b : Backend) (block : Block) :
    (applyBlock c revm spec b block).get .metaCf k = b.get .metaCf k := by
  simp only [BlockKey, not_or] at hk
  obtain ⟨hnm, hsk, hg, hr, hep⟩ := hk
  rw [applyBlock,
    maybeElectValidatorSet_meta hep, Backend.get, scanMicrochainAnchors_frame (by decide),
    ← Backend.get, executeBlockTxs_meta hr, executedState_meta hsk hg, persistBlock_meta hnm]

lemma executedState_frame (hcf : NoAccounts cf) (hm : cf ≠ .metaCf) (b : Backend) (block : Block) :
    (executedState c revm spec b block).backend.cf cf = b.cf cf :=
  executedState_keeps (·.cf cf) block (fun _ tx => by
    rw [afterTx, settle_frame hcf.1, runTx_frame hcf hm]) (credit_frame hcf.1) b

lemma setHead_agree (hnm : ¬ K .metaCf META_KEY_HEAD) (hhs : ¬ K .metaCf META_KEY_HEAD_HASH)
    (n : NodeState) (num : UInt64) : Backend.AgreeOn K (setHead n num).backend n.backend := by
  unfold setHead
  split
  · exact Backend.AgreeOn.trans (.put_outside hhs) (.put_outside hnm)
  · exact .put_outside hnm

lemma setHead_frame (hcf : cf ≠ .metaCf) (n : NodeState) (num : UInt64) :
    (setHead n num).backend.cf cf = n.backend.cf cf :=
  (setHead_agree (K := fun cf' _ => cf' = cf) hcf.symm hcf.symm n num).cf_eq fun _ => rfl

lemma recordSlashing_agree (hK : ∀ k, META_KEY_SLASH_PREFIX <+: k → ¬ K .metaCf k) (b : Backend)
    (ev : Bft.EquivocationEvidence) : Backend.AgreeOn K (recordSlashing b ev) b := by
  refine .put_outside (hK _ ?_)
  rw [append_assoc, append_assoc]
  exact prefix_append _ _

lemma latestValidatorSet_recordSlashing (b : Backend) (ev : Bft.EquivocationEvidence) :
    Dpos.latestValidatorSet (recordSlashing b ev) = Dpos.latestValidatorSet b := by
  have hag : Backend.AgreeOn (fun _ k => Dpos.KEY_PREFIX <+: k) (recordSlashing b ev) b :=
    recordSlashing_agree (fun k hk => prefix_excludes hk (by decide)) b ev
  exact Dpos.latestValidatorSet_congr hag fun _ hk => hk

lemma applyBlock_state (b : Backend) (block : Block) :
    (applyBlock c revm spec b block).cf .state =
      (executedState c revm spec (persistBlock c b block) block).backend.cf .state := by
  rw [applyBlock, maybeElectValidatorSet_frame (by decide), scanMicrochainAnchors_frame (by decide),
    executeBlockTxs_frame (by decide) (by decide)]

lemma stateOk_applyBlock {b : Backend} (h : StateDb.StateOk b) (block : Block) :
    StateDb.StateOk (applyBlock c revm spec b block) :=
  (stateOk_executedState (h.of_cf_eq (persistBlock_frame (by decide) b block)) block).of_cf_eq
    (applyBlock_state b block)

lemma stateOk_commitBlock (h : StateDb.StateOk s.backend) (block : Block) :
    StateDb.StateOk (commitBlock c revm spec s block).backend := by
  by_cases has : applies c s block = true
  · rw [commitBlock_of_applies has]
    exact stateOk_applyBlock h block
  · rcases commitBlock_of_not_applies has with heq | ⟨canonical, heq⟩
    · rw [heq]
      exact h
    · rw [heq]
      exact h.of_cf_eq (cf_put_ne (by decide))

end Frame

end Aii.Node
