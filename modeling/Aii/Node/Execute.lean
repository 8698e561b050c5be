/-
Aii.Node.Execute — block execution (`execute_block_txs`,
`execute_body_for_roots` and their helpers in `aii-node/src/lib.rs`).

`runTx` is shared; an unreadable beneficiary record is ignored by
`commitTx` and fails `rootsTx`.
-/
import Aii.Bft.Engine
import Aii.Node.Evm
import Aii.Node.Precompile

namespace Aii.Node

open Common Chain List Backend

/-- The fields of `ChainSpec` that execution and the node loop read. -/
structure ChainSpec where
  chainId : UInt64
  initialGasLimit : UInt64
  blockRewardInitialWei : BitVec 128
  blockRewardHalvingInterval : UInt64
  unbondingPeriodBlocks : UInt64
  minValidatorStakeWei : BitVec 128
  epochLengthBlocks : UInt64
  validatorsPerEpoch : UInt32
  deriving DecidableEq

def MAX_ACTIVE_VALIDATORS : UInt32 := 128

/-- `ChainSpec::validate`; the block time is used nowhere else. -/
def ChainSpec.validate (spec : ChainSpec) (blockTimeSeconds : UInt64) : Except String Unit :=
  if spec.chainId = 0 then .error "chain_id must be > 0"
  else if blockTimeSeconds = 0 then .error "block_time_seconds must be > 0"
  else if 30 < blockTimeSeconds then .error "block_time_seconds must be <= 30"
  else if spec.initialGasLimit < 5000000 then .error "initial_gas_limit must be >= 5_000_000"
  else if spec.epochLengthBlocks = 0 then .error "epoch_length_blocks must be > 0"
  else if spec.validatorsPerEpoch = 0 then .error "validators_per_epoch must be > 0"
  else if MAX_ACTIVE_VALIDATORS < spec.validatorsPerEpoch then
    .error "validators_per_epoch must be <= MAX_ACTIVE_VALIDATORS"
  else if spec.minValidatorStakeWei = 0 then .error "min_validator_stake_wei must be > 0"
  else .ok ()

def ChainSpec.blockRewardAt (spec : ChainSpec) (n : UInt64) : BitVec 128 :=
  if spec.blockRewardHalvingInterval = 0 ∨
      spec.blockRewardHalvingInterval = UInt64.ofNat (2 ^ 64 - 1) then
    spec.blockRewardInitialWei
  else
    let halvings := n / spec.blockRewardHalvingInterval
    if 128 ≤ halvings then 0 else spec.blockRewardInitialWei >>> halvings.toNat

/-- `U256::from` of a `u128`. -/
def u256OfU128 (x : BitVec 128) : U256 := BitVec.ofNat 256 x.toNat

lemma u256OfU128_toNat (x : BitVec 128) : (u256OfU128 x).toNat = x.toNat := by
  rw [u256OfU128, BitVec.toNat_ofNat, Nat.mod_eq_of_lt]
  omega

/-! ## One transaction -/

/-- The fields both executors take from a transaction. -/
structure TxCall where
  txType : TxType
  toAddr : Option Address
  value : U256
  data : Bytes
  gasLimit : UInt64
  gasPrice : U256
  deriving DecidableEq

/-- The fields of an executable transaction; blob transactions are not. -/
def txCall : Tx → Option TxCall
  | .legacy t => some ⟨.legacy, t.toAddr, t.value, t.data, t.gasLimit, t.gasPrice⟩
  | .eip1559 t => some ⟨.eip1559, t.toAddr, t.value, t.data, t.gasLimit, t.maxFeePerGas⟩
  | .eip4844 _ => none

/-- What an executed transaction is charged and reported with. -/
structure Charge where
  txType : TxType
  success : Bool
  gasUsed : UInt64
  gasPrice : U256
  logs : List Log
  deriving DecidableEq

/-- `U256::from(gas).saturating_mul(gas_price)`. -/
def Charge.fee (ch : Charge) : U256 := satMul256 (u256OfU64 ch.gasUsed) ch.gasPrice

def PRECOMPILE_GAS : UInt64 := 21000

section Execute

variable (c : Crypto) (revm : Revm) (spec : ChainSpec)

def precompileCall (number : UInt64) (sender : Address) (call : TxCall) : PrecompileCall :=
  ⟨sender, call.value, call.data, number, spec.unbondingPeriodBlocks⟩

/-- The revm environment of a transaction. -/
def callEnv (sender : Address) (call : TxCall) : TxEnv :=
  txEnv sender call.toAddr call.value call.data call.gasLimit call.gasPrice

def runTx (number : UInt64) (b : Backend) (tx : Tx) : Backend × Option Charge :=
  match tx.recoverSigner c spec.chainId, txCall tx with
  | some sender, some call =>
    if call.toAddr = some PRECOMPILE_ADDR then
      let pc := precompileCall spec number sender call
      (afterDispatch c b pc,
        some ⟨call.txType, (dispatch c b pc).isOk, PRECOMPILE_GAS, call.gasPrice, []⟩)
    else
      match executeWithRevm c revm b (callEnv sender call) with
      | (b', .error _) => (b', none)
      | (b', .ok summary) =>
        (b', some ⟨call.txType, summary.success, summary.gasUsed, call.gasPrice, summary.logs⟩)
  | _, _ => (b, none)

def accrueLog (bloom : Bloom) (log : Log) : Bloom :=
  log.topics.foldl (fun bloom t => Bloom.accrue c bloom t.toList)
    (Bloom.accrue c bloom log.address.toList)

def logsBloom (logs : List Log) : Bloom := logs.foldl (accrueLog c) (Arr.zero 256)

def Charge.receipt (ch : Charge) (cumulativeGasUsed : UInt64) : Receipt :=
  ⟨ch.txType, ch.success, cumulativeGasUsed, logsBloom c ch.logs, ch.logs⟩

structure ExecState where
  backend : Backend
  cumulativeGasUsed : UInt64
  receipts : List (Tx × Receipt)

def ExecState.start (b : Backend) : ExecState := ⟨b, 0, []⟩

def ExecState.charged (s : ExecState) (b : Backend) (tx : Tx) (ch : Charge) : ExecState :=
  let cumulative := satAdd64 s.cumulativeGasUsed ch.gasUsed
  ⟨b, cumulative, s.receipts ++ [(tx, ch.receipt c cumulative)]⟩

/-! ## The loop on the live store -/

def credit (b : Backend) (addr : Address) (delta : U256) : Backend :=
  let acc := StateDb.accountD c b addr
  StateDb.setAccount c b addr { acc with balance := satAdd256 acc.balance delta }

/-- The loop body of `execute_block_txs`. -/
def commitTx (number : UInt64) (beneficiary : Address) (s : ExecState) (tx : Tx) : ExecState :=
  match runTx c revm spec number s.backend tx with
  | (b, none) => { s with backend := b }
  | (b, some ch) =>
    s.charged c (if ch.fee = 0 then b else credit c b beneficiary ch.fee) tx ch

/-- The loop of `execute_block_txs`. -/
def commitTxs (number : UInt64) (beneficiary : Address) (s : ExecState) (txs : List Tx) :
    ExecState :=
  txs.foldl (commitTx c revm spec number beneficiary) s

/-- The store after a transaction that left `r`: the fee is credited. -/
def settle (beneficiary : Address) (r : Backend × Option Charge) : Backend :=
  match r.2 with
  | none => r.1
  | some ch => if ch.fee = 0 then r.1 else credit c r.1 beneficiary ch.fee

def afterTx (number : UInt64) (beneficiary : Address) (b : Backend) (tx : Tx) : Backend :=
  settle c beneficiary (runTx c revm spec number b tx)

/-- The transactions of a body, each with the store it is executed on. -/
def txTrace (number : UInt64) (beneficiary : Address) : Backend → List Tx → List (Backend × Tx)
  | _, [] => []
  | b, tx :: txs =>
    (b, tx) :: txTrace number beneficiary (afterTx c revm spec number beneficiary b tx) txs

/-- `beneficiary_may_receive_block_subsidy`. -/
def mayReceiveSubsidy (b : Backend) (beneficiary : Address) : Bool :=
  match Dpos.latestValidatorSet b with
  | some (_, entries) => entries.any (·.address == beneficiary)
  | none => true

/-- The minting step of `execute_block_txs`. -/
def mintSubsidy (b : Backend) (number : UInt64) (beneficiary : Address) : Backend :=
  let subsidy := spec.blockRewardAt number
  if subsidy ≠ 0 ∧ mayReceiveSubsidy b beneficiary then
    credit c b beneficiary (u256OfU128 subsidy)
  else b

def persistReceipts (b : Backend) (receipts : List (Tx × Receipt)) : Backend :=
  b.write (receipts.map fun p => ⟨.receipts, (p.1.hash c).toList, p.2.encode2718⟩)

def blockBloom (receipts : List (Tx × Receipt)) : Bloom :=
  logsBloom c (receipts.flatMap (·.2.logs))

def META_KEY_POSTROOT_PREFIX : Bytes :=
  ascii ['p', 'o', 's', 't', 'r', 'o', 'o', 't', ':']

def persistPostRoots (b : Backend) (blockHash stateRoot receiptsRoot : H256) (bloom : Bloom) :
    Backend :=
  b.put .metaCf (META_KEY_POSTROOT_PREFIX ++ blockHash.toList)
    (stateRoot.toList ++ receiptsRoot.toList ++ bloom.toList)

def executedState (b : Backend) (block : Block) : ExecState :=
  let s := commitTxs c revm spec block.header.number block.header.beneficiary (.start b)
    block.body.transactions
  { s with backend := mintSubsidy c spec s.backend block.header.number block.header.beneficiary }

def executeBlockTxs (b : Backend) (block : Block) : Backend :=
  let s := executedState c revm spec b block
  let b := persistReceipts c s.backend s.receipts
  let stateRoot := (StateDb.stateRoot c b).toOption.getD EMPTY_TRIE_HASH
  persistPostRoots b (block.hash c) stateRoot (receiptsRoot c (s.receipts.map Prod.snd))
    (blockBloom c s.receipts)

/-! ## The loop on a copy -/

def creditStateForRoots (b : Backend) (addr : Address) (delta : U256) :
    Except StateError Backend :=
  if delta = 0 then .ok b
  else
    match StateDb.account c b addr with
    | .error e => .error e
    | .ok acc? =>
      let acc := acc?.getD .EMPTY
      .ok (StateDb.setAccount c b addr { acc with balance := satAdd256 acc.balance delta })

/-- The loop body of `execute_body_for_roots`. -/
def rootsTx (number : UInt64) (coinbase : Address) (s : ExecState) (tx : Tx) :
    Except StateError ExecState :=
  match runTx c revm spec number s.backend tx with
  | (b, none) => .ok { s with backend := b }
  | (b, some ch) =>
    match creditStateForRoots c b coinbase ch.fee with
    | .error e => .error e
    | .ok b => .ok (s.charged c b tx ch)

/-- The loop of `execute_body_for_roots`. -/
def rootsTxs (number : UInt64) (coinbase : Address) (s : ExecState) :
    List Tx → Except StateError ExecState
  | [] => .ok s
  | tx :: txs =>
    match rootsTx c revm spec number coinbase s tx with
    | .error e => .error e
    | .ok s => rootsTxs number coinbase s txs

def rootsOf (s : ExecState) (stateRoot : H256) : Bft.PostBlockRoots :=
  ⟨stateRoot, receiptsRoot c (s.receipts.map Prod.snd), blockBloom c s.receipts,
    s.cumulativeGasUsed⟩

def executeBodyForRoots (b : Backend) (body : BlockBody) (coinbase : Address) (number : UInt64) :
    Except StateError Bft.PostBlockRoots :=
  match rootsTxs c revm spec number coinbase (.start b) body.transactions with
  | .error e => .error e
  | .ok s =>
    let subsidy := spec.blockRewardAt number
    let minted :=
      if subsidy ≠ 0 ∧ mayReceiveSubsidy s.backend coinbase then
        creditStateForRoots c s.backend coinbase (u256OfU128 subsidy)
      else .ok s.backend
    match minted with
    | .error e => .error e
    | .ok b =>
      match StateDb.stateRoot c b with
      | .error e => .error e
      | .ok root => .ok (rootsOf c { s with backend := b } root)

def executionFamilies : List ColumnFamily := [.state, .code, .accountStorage, .metaCf]

/-- `copy_execution_backend`, into a fresh backend. -/
def copyExecutionBackend (src : Backend) : Backend :=
  executionFamilies.foldl
    (fun dst cf => (src.iter cf).foldl (fun dst e => dst.put cf e.1 e.2) dst) .empty

/-- `NodeStateExecutor::execute_for_proposal` over the store of the node. -/
def nodeStateExecutor (b : Backend) : Bft.Executor := fun body coinbase number =>
  (executeBodyForRoots c revm spec (copyExecutionBackend b) body coinbase number).toOption

/-! ## What a transaction can do -/

/-- The cases of `runTx` on a readable store. -/
inductive RunStep (number : UInt64) (b : Backend) (tx : Tx) : Backend → Option Charge → Prop
  /-- No sender, or a blob transaction. -/
  | skipped (none_of : tx.recoverSigner c spec.chainId = none ∨ txCall tx = none) :
      RunStep number b tx b none
  /-- A call of the precompile, accepted or not. -/
  | precompile (sender : Address) (call : TxCall)
      (signed : tx.recoverSigner c spec.chainId = some sender) (fields : txCall tx = some call)
      (target : call.toAddr = some PRECOMPILE_ADDR) :
      RunStep number b tx (afterDispatch c b (precompileCall spec number sender call))
        (some ⟨call.txType, (dispatch c b (precompileCall spec number sender call)).isOk,
          PRECOMPILE_GAS, call.gasPrice, []⟩)
  /-- revm rejects the transaction. -/
  | rejected (sender : Address) (call : TxCall) (msg : String)
      (signed : tx.recoverSigner c spec.chainId = some sender) (fields : txCall tx = some call)
      (target : call.toAddr ≠ some PRECOMPILE_ADDR)
      (err : revm (RevmDb.new c b) (callEnv sender call) = .error msg) :
      RunStep number b tx b none
  /-- revm runs it, and its diff is written back. -/
  | executed (sender : Address) (call : TxCall) (out : ResultAndState) (b' : Backend)
      (signed : tx.recoverSigner c spec.chainId = some sender) (fields : txCall tx = some call)
      (target : call.toAddr ≠ some PRECOMPILE_ADDR)
      (ok : revm (RevmDb.new c b) (callEnv sender call) = .ok out)
      (written : applyDiff c b out.state.entries = (b', .ok ())) :
      RunStep number b tx b'
        (some ⟨call.txType, (summaryOf out.result).success, (summaryOf out.result).gasUsed,
          call.gasPrice, (summaryOf out.result).logs⟩)

end Execute

section Steps

variable {c : Crypto} {revm : Revm} {spec : ChainSpec} {number : UInt64} {b : Backend}
  {cf : ColumnFamily} {k : Bytes}

variable (c revm spec number) in
lemma runTx_step (h : StateDb.StateOk b) (tx : Tx) : ∃ b' ch,
    runTx c revm spec number b tx = (b', ch) ∧ RunStep c revm spec number b tx b' ch := by
  refine ⟨_, _, rfl, ?_⟩
  cases hs : tx.recoverSigner c spec.chainId with
  | none => exact .skipped (.inl hs)
  | some sender =>
    cases hcl : txCall tx with
    | none => exact .skipped (.inr hcl)
    | some call =>
      dsimp only
      split_ifs with htr
      · exact .precompile sender call hs hcl htr
      · unfold executeWithRevm
        cases hrv : revm (RevmDb.new c b) (callEnv sender call) with
        | error msg => exact .rejected sender call msg hs hcl htr hrv
        | ok out =>
          obtain ⟨b', hwr, -⟩ := applyDiff_ok h out.state.entries
          dsimp only
          rw [hwr]
          exact .executed sender call out b' hs hcl htr hrv hwr

lemma summaryOf_gasUsed (r : ExecutionResult) : (summaryOf r).gasUsed = r.gasUsed := by
  cases r with
  | success _ _ output => cases output <;> rfl
  | revert | halt => rfl

lemma afterDispatch_frame (hcf : cf ≠ .metaCf) (b : Backend) (call : PrecompileCall) :
    (afterDispatch c b call).cf cf = b.cf cf := by
  unfold afterDispatch
  split
  next b' out hok =>
    cases dispatch_step hok with
    | bond | beginUnbond | store => exact cf_put_ne hcf
    | sweep => exact cf_delete_ne hcf
    | idle => rfl
  · rfl

lemma afterDispatch_get (hsk : ¬ StakeTable.KEY_PREFIX <+: k) (hg : ¬ GovernanceKey k)
    (b : Backend) (call : PrecompileCall) :
    (afterDispatch c b call).get .metaCf k = b.get .metaCf k := by
  have hky : k ≠ StakeTable.key call.sender := by
    rintro rfl
    exact hsk (prefix_append _ _)
  unfold afterDispatch
  split
  next b' out hok =>
    cases dispatch_step hok with
    | bond | beginUnbond => exact get_put_ne fun _ => hky
    | sweep => exact get_delete_ne fun _ => hky
    | idle => rfl
    | store _ _ _ hk' =>
      refine get_put_ne ?_
      rintro - rfl
      exact hg hk'
  · rfl

lemma credit_frame (hcf : cf ≠ .state) (b : Backend) (addr : Address) (delta : U256) :
    (credit c b addr delta).cf cf = b.cf cf :=
  cf_put_ne hcf

lemma stateOk_credit (h : StateDb.StateOk b) (addr : Address) (delta : U256) :
    StateDb.StateOk (credit c b addr delta) :=
  h.setAccount addr _

lemma stateOk_runTx (h : StateDb.StateOk b) (tx : Tx) :
    StateDb.StateOk (runTx c revm spec number b tx).1 := by
  obtain ⟨b', ch, hr, hsp⟩ := runTx_step c revm spec number h tx
  rw [hr]
  cases hsp with
  | skipped => exact h
  | precompile => exact h.of_cf_eq (afterDispatch_frame (by decide) _ _)
  | rejected => exact h
  | executed _ _ out _ _ _ _ _ hwr =>
    obtain ⟨_, hb'', hok⟩ := applyDiff_ok h out.state.entries
    rw [hwr] at hb''
    cases hb''
    exact hok

lemma runTx_metaCf (tx : Tx) : (runTx c revm spec number b tx).1.cf .metaCf = b.cf .metaCf ∨
      ∃ call, (runTx c revm spec number b tx).1 = afterDispatch c b call := by
  unfold runTx
  split
  next sender call _ _ =>
    split_ifs
    · exact .inr ⟨_, rfl⟩
    · have hfr : (executeWithRevm c revm b (callEnv sender call)).1.cf .metaCf = b.cf .metaCf :=
        executeWithRevm_frame (by decide) revm b _
      rw [← hfr]
      split
      next hr => exact .inl (by rw [hr])
      next hr => exact .inl (by rw [hr])
  · exact .inl rfl

lemma settle_frame (hcf : cf ≠ .state) (beneficiary : Address) (r : Backend × Option Charge) :
    (settle c beneficiary r).cf cf = r.1.cf cf := by
  unfold settle
  split
  · rfl
  · split_ifs
    · rfl
    · exact credit_frame hcf _ _ _

lemma runTx_frame (hcf : NoAccounts cf) (hm : cf ≠ .metaCf) (tx : Tx) :
    (runTx c revm spec number b tx).1.cf cf = b.cf cf := by
  unfold runTx
  split
  next sender call _ _ =>
    split_ifs
    · exact afterDispatch_frame hm _ _
    · have hfr : (executeWithRevm c revm b (callEnv sender call)).1.cf cf = b.cf cf :=
        executeWithRevm_frame hcf revm b _
      rw [← hfr]
      split
      next hr => rw [hr]
      next hr => rw [hr]
  · rfl

lemma commitTx_backend (beneficiary : Address) (s : ExecState) (tx : Tx) :
    (commitTx c revm spec number beneficiary s tx).backend =
      afterTx c revm spec number beneficiary s.backend tx := by
  unfold afterTx commitTx settle
  generalize runTx c revm spec number s.backend tx = r
  obtain ⟨b', ch?⟩ := r
  cases ch? <;> rfl

lemma commitTxs_backend (beneficiary : Address) (s : ExecState) (txs : List Tx) :
    (commitTxs c revm spec number beneficiary s txs).backend =
      txs.foldl (afterTx c revm spec number beneficiary) s.backend := by
  unfold commitTxs
  induction txs generalizing s with
  | nil => rfl
  | cons _ _ ih => rw [foldl_cons, foldl_cons, ih, commitTx_backend]

lemma stateOk_afterTx (h : StateDb.StateOk b) (beneficiary : Address) (tx : Tx) :
    StateDb.StateOk (afterTx c revm spec number beneficiary b tx) := by
  have hr : StateDb.StateOk (runTx c revm spec number b tx).1 := stateOk_runTx h tx
  unfold afterTx settle
  split
  · exact hr
  · split_ifs
    · exact hr
    · exact stateOk_credit hr _ _

lemma afterTx_meta (beneficiary : Address) (tx : Tx) (hsk : ¬ StakeTable.KEY_PREFIX <+: k)
    (hg : ¬ GovernanceKey k) :
    (afterTx c revm spec number beneficiary b tx).get .metaCf k = b.get .metaCf k := by
  rw [afterTx, Backend.get, settle_frame (by decide)]
  rcases runTx_metaCf tx with hcf | ⟨_, hcl⟩
  · rw [hcf, Backend.get]
  · rw [hcl]
    exact afterDispatch_get hsk hg _ _

lemma executeBlockTxs_frame (hr : cf ≠ .receipts) (hm : cf ≠ .metaCf) (b : Backend)
    (block : Block) : (executeBlockTxs c revm spec b block).cf cf =
      (executedState c revm spec b block).backend.cf cf := by
  unfold executeBlockTxs persistPostRoots persistReceipts
  rw [cf_put_ne hm, cf_write_ne]
  intro op hop
  obtain ⟨p, -, rfl⟩ := mem_map.mp hop
  exact hr

lemma executeBlockTxs_meta (hk : ¬ META_KEY_POSTROOT_PREFIX <+: k) (b : Backend) (block : Block) :
    (executeBlockTxs c revm spec b block).get .metaCf k =
      (executedState c revm spec b block).backend.get .metaCf k := by
  have hne : ∀ h : H256, k ≠ META_KEY_POSTROOT_PREFIX ++ h.toList := by grind
  unfold executeBlockTxs persistPostRoots persistReceipts
  rw [Backend.get_put_ne fun _ => hne _, Backend.get, Backend.cf_write_ne, Backend.get]
  intro op hop
  obtain ⟨p, -, rfl⟩ := mem_map.mp hop
  exact ColumnFamily.noConfusion

lemma executedState_backend (b : Backend) (block : Block) :
    (executedState c revm spec b block).backend = mintSubsidy c spec (block.body.transactions.foldl
          (afterTx c revm spec block.header.number block.header.beneficiary) b)
        block.header.number block.header.beneficiary := by
  unfold executedState
  dsimp only
  rw [commitTxs_backend]
  rfl

lemma stateOk_afterTxs (h : StateDb.StateOk b) (beneficiary : Address) (txs : List Tx) :
    StateDb.StateOk (txs.foldl (afterTx c revm spec number beneficiary) b) := by
  induction txs generalizing b with
  | nil => exact h
  | cons tx _ ih => exact ih (stateOk_afterTx h _ tx)

lemma stateOk_executedState (h : StateDb.StateOk b) (block : Block) :
    StateDb.StateOk (executedState c revm spec b block).backend := by
  rw [executedState_backend]
  unfold mintSubsidy
  dsimp only
  split_ifs
  · exact stateOk_credit (stateOk_afterTxs h _ _) _ _
  · exact stateOk_afterTxs h _ _

end Steps

def sampleSpec : ChainSpec := ⟨1, 30000000, 0, 0, 10, 100, 0, 4⟩

/-- A signed legacy transaction; in the reference instance every one of
them recovers to the same sender. -/
def sampleTx (nonce : UInt64) (gasPrice : U256) (toAddr : Address) (value : U256) (data : Bytes) :
    Tx :=
  .legacy ⟨nonce, gasPrice, 100000, some toAddr, value, data, 27, arrOfNat 32 1, arrOfNat 32 2,
    .secp256k1⟩

def sampleSender : Address :=
  Crypto.reference.addressOf ⟨(arrOfNat 32 1).toList ++ (arrOfNat 32 2).toList, by simp⟩

def sampleGenesis : Backend :=
  StateDb.setAccount .reference .empty sampleSender { Account.EMPTY with balance := 100000 }

def sampleBlock (number : UInt64) (txs : List Tx) : Block :=
  ⟨(Bft.referenceHead Bft.followerConfig number).header, ⟨txs, [], []⟩⟩

lemma sampleGenesis_ok : StateDb.StateOk sampleGenesis := by
  have hem : StateDb.StateOk .empty := by
    intro k v hv
    simp [Backend.get, Backend.empty] at hv
  exact hem.setAccount _ _

lemma referenceKey_injective : Function.Injective (StateDb.key .reference) := by
  intro a a' heq
  have hhs : referenceHash ([] ++ a.toList ++ []) = referenceHash ([] ++ a'.toList ++ []) := by
    rw [append_nil, append_nil]
    exact toList_inj.mp heq
  exact referenceHash_middle_inj (by decide) hhs

end Aii.Node
