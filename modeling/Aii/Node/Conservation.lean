/-
Aii.Node.Conservation — what executing a block does to the total value.

Fees are credited without a debit, and neither bonds nor withdrawals move
account balances.
-/
import Aii.Node.Execute

namespace Aii.Node

open Common Chain StakeTable Backend StateDb

/-! ## Value and its flows -/

/-- The sum of all account balances and all stakes. -/
def totalValue (b : Backend) : Nat := StateDb.totalBalance b + StakeTable.totalStake b

/-- Value that appears or disappears. -/
@[ext] structure Ledger where
  /-- Credited to the beneficiary as fees. -/
  fees : Nat
  /-- Added to the stake table by bonds. -/
  bonded : Nat
  /-- Removed from the stake table by withdrawals. -/
  swept : Nat
  deriving DecidableEq

def Ledger.zero : Ledger := ⟨0, 0, 0⟩

def Ledger.add (l l' : Ledger) : Ledger :=
  ⟨l.fees + l'.fees, l.bonded + l'.bonded, l.swept + l'.swept⟩

/-- The stake of `addr` that has finished unbonding at `height`. -/
def dueStake (b : Backend) (addr : Address) (height : UInt64) : Nat :=
  match StakeTable.get b addr with
  | none => 0
  | some rec => if rec.unbondAt = 0 ∨ height < rec.unbondAt then 0 else rec.amountWei.toNat

def callLedger (b : Backend) (call : PrecompileCall) (gasPrice : U256) : Ledger where
  fees := (satMul256 (u256OfU64 PRECOMPILE_GAS) gasPrice).toNat
  bonded := if call.data.take 4 = OP_BOND then call.value.toNat else 0
  swept := if call.data.take 4 = OP_WITHDRAW then dueStake b call.sender call.blockHeight else 0

section Flows

variable (c : Crypto) (revm : Revm) (spec : ChainSpec)

/-- The flows of a transaction on the store `b`. -/
def txLedger (number : UInt64) (b : Backend) (tx : Tx) : Ledger :=
  match tx.recoverSigner c spec.chainId, txCall tx with
  | some sender, some call =>
    if call.toAddr = some PRECOMPILE_ADDR then
      callLedger b (precompileCall spec number sender call) call.gasPrice
    else
      match revm (RevmDb.new c b) (callEnv sender call) with
      | .error _ => .zero
      | .ok out => ⟨(satMul256 (u256OfU64 out.result.gasUsed) call.gasPrice).toNat, 0, 0⟩
  | _, _ => .zero

def bodyLedger (number : UInt64) (beneficiary : Address) (b : Backend) (txs : List Tx) : Ledger :=
  (txTrace c revm spec number beneficiary b txs).foldr
    (fun p l => (txLedger c revm spec number p.1 p.2).add l) .zero

def blockLedger (b : Backend) (block : Block) : Ledger :=
  bodyLedger c revm spec block.header.number block.header.beneficiary b block.body.transactions

def subsidyDue (b : Backend) (block : Block) : Nat :=
  if mayReceiveSubsidy b block.header.beneficiary then
    (spec.blockRewardAt block.header.number).toNat
  else 0

/-- Executing the block moves the total value by the subsidy alone. -/
def Conserves (b : Backend) (block : Block) : Prop :=
  totalValue (executeBlockTxs c revm spec b block) = totalValue b + subsidyDue spec b block
deriving Decidable

/-- A credit to `addr` does not saturate. -/
def CreditFits (b : Backend) (addr : Address) (delta : U256) : Prop :=
  (StateDb.accountD c b addr).balance.toNat + delta.toNat ≤ u256Max
deriving Decidable

/-- Neither the bond nor the fee of a transaction saturates. -/
structure TxFits (number : UInt64) (beneficiary : Address) (b : Backend) (tx : Tx) : Prop where
  bond : ∀ sender ∈ tx.recoverSigner c spec.chainId, ∀ call ∈ txCall tx,
    call.toAddr = some PRECOMPILE_ADDR → call.data.take 4 = OP_BOND →
      (StakeTable.amountOf b sender).toNat + call.value.toNat ≤ u256Max
  fee : ∀ ch ∈ (runTx c revm spec number b tx).2,
    CreditFits c (runTx c revm spec number b tx).1 beneficiary ch.fee

instance (number : UInt64) (beneficiary : Address) (b : Backend) (tx : Tx) :
    Decidable (TxFits c revm spec number beneficiary b tx) :=
  decidable_of_iff (_ ∧ _) ⟨fun h => ⟨h.1, h.2⟩, fun h => ⟨h.bond, h.fee⟩⟩

structure BlockFits (b : Backend) (block : Block) : Prop where
  txs : ∀ p ∈ txTrace c revm spec block.header.number block.header.beneficiary b
      block.body.transactions,
    TxFits c revm spec block.header.number block.header.beneficiary p.1 p.2
  subsidy : mayReceiveSubsidy b block.header.beneficiary = true →
    CreditFits c (commitTxs c revm spec block.header.number block.header.beneficiary
        (.start b) block.body.transactions).backend block.header.beneficiary
      (u256OfU128 (spec.blockRewardAt block.header.number))

end Flows

/-! ## The steps -/

section Steps

variable {c : Crypto} {revm : Revm} {spec : ChainSpec} {number : UInt64} {b : Backend}
  {addr beneficiary : Address} {height : UInt64} {tx : Tx}

lemma totalValue_credit {delta : U256} (hf : CreditFits c b addr delta) :
    totalValue (credit c b addr delta) = totalValue b + delta.toNat := by
  have hsk : totalStake (credit c b addr delta) = totalStake b :=
    totalStake_congr fun k _ => by
      rw [Backend.get, credit_frame (by decide), Backend.get]
  have ha := totalBalance_setAccount (c := c) b addr
    { accountD c b addr with
      balance := satAdd256 (accountD c b addr).balance delta }
  dsimp only at ha
  rw [satAdd256_toNat, Nat.min_eq_left hf] at ha
  rw [totalValue, hsk, credit, totalValue]
  omega

lemma totalStake_put_governance {k : Bytes} (hk : GovernanceKey k) (v : Bytes) :
    totalStake (b.put .metaCf k v) = totalStake b := by
  refine totalStake_congr fun k' hk' => get_put_ne ?_
  rintro - rfl
  exact hk.excludes (by decide) hk'

lemma dueStake_of_get {rec : StakeRecord} (hg : get b addr = some rec)
    (hd : ¬ (rec.unbondAt = 0 ∨ height < rec.unbondAt)) :
    dueStake b addr height = rec.amountWei.toNat := by
  rw [dueStake, hg]
  exact if_neg hd

lemma dueStake_of_idle (hil : withdraw b addr height = (b, none)) :
    dueStake b addr height = 0 := by
  unfold withdraw at hil
  unfold dueStake
  cases hg : get b addr with
  | none => rfl
  | some =>
    rw [hg] at hil
    dsimp only at hil ⊢
    split_ifs at hil ⊢ with hd
    · rfl
    · exact absurd (congrArg Prod.snd hil) (by simp)

lemma callLedger_of_error {call : PrecompileCall} {e : PrecompileError}
    (he : dispatch c b call = .error e) (gasPrice : U256) :
    (callLedger b call gasPrice).bonded = 0 ∧ (callLedger b call gasPrice).swept = 0 := by
  unfold callLedger
  dsimp only
  have hl : ∀ op : Bytes, call.data.take 4 = op → op.length = 4 → ¬ call.data.length < 4 := by
    grind
  unfold dispatch at he
  constructor
  · split_ifs with hop
    · rw [if_neg (hl _ hop rfl)] at he
      rw [if_pos hop, dispatchBond] at he
      split_ifs at he with hzr
      rw [hzr]
      rfl
    · rfl
  · split_ifs with hop
    · rw [if_neg (hl _ hop rfl)] at he
      dsimp only at he
      rw [hop, if_neg (by decide), if_neg (by decide), if_pos rfl, dispatchWithdraw] at he
      cases he
    · rfl

lemma totalStake_afterDispatch (call : PrecompileCall) (gasPrice : U256)
    (hf : call.data.take 4 = OP_BOND →
      (amountOf b call.sender).toNat + call.value.toNat ≤ u256Max) :
    totalStake (afterDispatch c b call) + (callLedger b call gasPrice).swept =
      totalStake b + (callLedger b call gasPrice).bonded := by
  unfold afterDispatch
  cases hok : dispatch c b call with
  | error =>
    obtain ⟨hbn, hs⟩ := callLedger_of_error hok gasPrice
    rw [hbn, hs]
  | ok r =>
    obtain ⟨b', out⟩ := r
    unfold callLedger
    dsimp only
    cases dispatch_step hok with
    | bond hop =>
      have hp := totalStake_putRecord (b := b) call.sender
        (satAdd256 (amountOf b call.sender) call.value) 0
      rw [satAdd256_toNat, Nat.min_eq_left (hf hop)] at hp
      rw [hop, if_neg (by decide), if_pos rfl, bond]
      omega
    | beginUnbond prev hop hg =>
      have hp := totalStake_putRecord (b := b) call.sender prev.amountWei
        (satAdd64 call.blockHeight call.unbondingPeriodBlocks)
      rw [amountOf_of_get hg] at hp
      rw [hop, if_neg (by decide), if_neg (by decide)]
      omega
    | sweep _ hop hg hd =>
      have hdl := totalStake_delete (b := b) call.sender
      rw [amountOf_of_get hg] at hdl
      rw [hop, if_pos rfl, if_neg (by decide), dueStake_of_get hg hd]
      omega
    | idle hop hil =>
      rw [hop, if_pos rfl, if_neg (by decide), dueStake_of_idle hil]
    | store _ _ _ hk hop =>
      rw [totalStake_put_governance hk]
      have hb : call.data.take 4 ≠ OP_BOND := by
        intro heq
        rw [heq] at hop
        exact absurd hop (by decide)
      have hw : call.data.take 4 ≠ OP_WITHDRAW := by
        intro heq
        rw [heq] at hop
        exact absurd hop (by decide)
      rw [if_neg hb, if_neg hw]

lemma totalValue_applyDiff (hi : Function.Injective (StateDb.key c)) (hrv : revm.ConservesValue)
    {env : TxEnv} {out : ResultAndState} {b' : Backend} (hok : revm (RevmDb.new c b) env = .ok out)
    (hwr : applyDiff c b out.state.entries = (b', .ok ())) : totalValue b' = totalValue b := by
  have hsk : totalStake b' = totalStake b :=
    totalStake_congr fun k _ => by
      rw [Backend.get, applyDiff_meta hwr, Backend.get]
  have hd := applyDiff_totalBalance hi hwr out.state.nodup
  have hsm := hrv _ _ _ hok
  simp only [RevmDb.balance_new] at hsm
  rw [totalValue, totalValue, hsk]
  omega

section TxLedger

variable {tx : Tx} {sender : Address} {call : TxCall}

lemma txLedger_skipped (h : tx.recoverSigner c spec.chainId = none ∨ txCall tx = none) :
    txLedger c revm spec number b tx = .zero := by
  unfold txLedger
  rcases h with h | h
  · rw [h]
  · grind

variable (hsg : tx.recoverSigner c spec.chainId = some sender) (hf : txCall tx = some call)

include hsg hf

lemma txLedger_precompile (htr : call.toAddr = some PRECOMPILE_ADDR) :
    txLedger c revm spec number b tx =
      callLedger b (precompileCall spec number sender call) call.gasPrice := by
  rw [txLedger, hsg, hf]
  exact if_pos htr

lemma txLedger_rejected (htr : call.toAddr ≠ some PRECOMPILE_ADDR) {msg : String}
    (he : revm (RevmDb.new c b) (callEnv sender call) = .error msg) :
    txLedger c revm spec number b tx = .zero := by
  rw [txLedger, hsg, hf]
  dsimp only
  rw [if_neg htr, he]

lemma txLedger_executed (htr : call.toAddr ≠ some PRECOMPILE_ADDR) {out : ResultAndState}
    (hok : revm (RevmDb.new c b) (callEnv sender call) = .ok out) :
    txLedger c revm spec number b tx =
      ⟨(satMul256 (u256OfU64 out.result.gasUsed) call.gasPrice).toNat, 0, 0⟩ := by
  rw [txLedger, hsg, hf]
  dsimp only
  rw [if_neg htr, hok]

end TxLedger

lemma txLedger_fees (h : StateDb.StateOk b) (tx : Tx) : (txLedger c revm spec number b tx).fees =
      (runTx c revm spec number b tx).2.elim 0 fun ch => ch.fee.toNat := by
  obtain ⟨b', ch, hr, hsp⟩ := runTx_step c revm spec number h tx
  rw [hr]
  cases hsp with
  | skipped hnn =>
    rw [txLedger_skipped hnn]
    rfl
  | precompile _ _ hsg hf htr =>
    rw [txLedger_precompile hsg hf htr]
    rfl
  | rejected _ _ _ hsg hf htr he =>
    rw [txLedger_rejected hsg hf htr he]
    rfl
  | executed _ _ _ _ hsg hf htr hok =>
    rw [txLedger_executed hsg hf htr hok, Option.elim_some, Charge.fee, summaryOf_gasUsed]

section Body

variable (hi : Function.Injective (StateDb.key c)) (hrv : revm.ConservesValue)
  (h : StateDb.StateOk b)

include hi hrv h

lemma totalValue_runTx (hft : TxFits c revm spec number beneficiary b tx) :
    totalValue (runTx c revm spec number b tx).1 + (txLedger c revm spec number b tx).swept =
      totalValue b + (txLedger c revm spec number b tx).bonded := by
  have hb := hft.bond
  obtain ⟨b', ch, hr, hsp⟩ := runTx_step c revm spec number h tx
  rw [hr]
  dsimp only
  cases hsp with
  | skipped hnn =>
    rw [txLedger_skipped hnn]
    rfl
  | precompile sender call hsg hf htr =>
    have hsk := totalStake_afterDispatch (c := c)
      (precompileCall spec number sender call) call.gasPrice
      (hb sender hsg call hf htr)
    rw [txLedger_precompile hsg hf htr, totalValue,
      totalBalance_of_cf_eq (afterDispatch_frame (by decide) b _), totalValue]
    omega
  | rejected _ _ _ hsg hf htr he =>
    rw [txLedger_rejected hsg hf htr he]
    rfl
  | executed _ _ _ _ hsg hf htr hok hwr =>
    rw [txLedger_executed hsg hf htr hok, totalValue_applyDiff hi hrv hok hwr]

lemma totalValue_afterTx (hf : TxFits c revm spec number beneficiary b tx) :
    totalValue (afterTx c revm spec number beneficiary b tx) +
        (txLedger c revm spec number b tx).swept =
      totalValue b + (txLedger c revm spec number b tx).fees +
        (txLedger c revm spec number b tx).bonded := by
  have hr := totalValue_runTx hi hrv h hf
  have hfe : totalValue (afterTx c revm spec number beneficiary b tx) =
      totalValue (runTx c revm spec number b tx).1 + (txLedger c revm spec number b tx).fees := by
    rw [txLedger_fees h]
    have hc := hf.fee
    unfold afterTx settle
    generalize runTx c revm spec number b tx = r at hc ⊢
    obtain ⟨b', ch?⟩ := r
    cases ch? with
    | none => rfl
    | some ch =>
      dsimp only
      split_ifs with hzr
      · rw [Option.elim_some, hzr]
        rfl
      · exact totalValue_credit (hc ch rfl)
  omega

lemma totalValue_body {txs : List Tx} (hf : ∀ p ∈ txTrace c revm spec number beneficiary b txs,
      TxFits c revm spec number beneficiary p.1 p.2) :
    totalValue (txs.foldl (afterTx c revm spec number beneficiary) b) +
        (bodyLedger c revm spec number beneficiary b txs).swept =
      totalValue b + (bodyLedger c revm spec number beneficiary b txs).fees +
        (bodyLedger c revm spec number beneficiary b txs).bonded := by
  induction txs generalizing b with
  | nil => rfl
  | cons tx _ ih =>
    rw [txTrace, List.forall_mem_cons] at hf
    have hhd := totalValue_afterTx hi hrv h hf.1
    have hrs := ih (stateOk_afterTx h beneficiary tx) hf.2
    rw [List.foldl_cons, bodyLedger, txTrace, List.foldr_cons, ← bodyLedger]
    dsimp only [Ledger.add] at hhd ⊢
    omega

end Body

lemma mayReceiveSubsidy_body (h : StateDb.StateOk b) (beneficiary : Address) (txs : List Tx) :
    mayReceiveSubsidy (txs.foldl (afterTx c revm spec number beneficiary) b) beneficiary =
      mayReceiveSubsidy b beneficiary := by
  induction txs generalizing b with
  | nil => rfl
  | cons tx _ ih =>
    have hag : Backend.AgreeOn (fun cf k => cf = .metaCf ∧ Dpos.KEY_PREFIX <+: k)
        (afterTx c revm spec number beneficiary b tx) b := by
      rintro cf k ⟨rfl, hk⟩
      refine afterTx_meta beneficiary tx ?_ fun hg => hg.not_epoch hk
      exact prefix_excludes hk (by decide)
    rw [List.foldl_cons, ih (stateOk_afterTx h beneficiary tx), mayReceiveSubsidy,
      Dpos.latestValidatorSet_congr hag fun k hk => ⟨rfl, hk⟩, mayReceiveSubsidy]

lemma totalValue_mintSubsidy
    (hf : mayReceiveSubsidy b beneficiary = true →
      CreditFits c b beneficiary (u256OfU128 (spec.blockRewardAt number))) :
    totalValue (mintSubsidy c spec b number beneficiary) = totalValue b +
        if mayReceiveSubsidy b beneficiary then (spec.blockRewardAt number).toNat else 0 := by
  unfold mintSubsidy
  dsimp only
  by_cases hm : mayReceiveSubsidy b beneficiary = true
  · rw [if_pos hm]
    split_ifs with hmn
    · rw [totalValue_credit (hf hm), u256OfU128_toNat]
    · grind
  · rw [if_neg hm, if_neg fun hmn => hm hmn.2, Nat.add_zero]

lemma totalValue_executeBlockTxs (block : Block) :
    totalValue (executeBlockTxs c revm spec b block) =
      totalValue (executedState c revm spec b block).backend := by
  unfold totalValue
  rw [totalBalance_of_cf_eq (executeBlockTxs_frame (by decide) (by decide) b block),
    totalStake_congr fun k hk => executeBlockTxs_meta
      (prefix_excludes hk (by decide)) b block]

lemma totalValue_block (hi : Function.Injective (StateDb.key c)) (hrv : revm.ConservesValue)
    (h : StateDb.StateOk b) {block : Block}
    (hf : BlockFits c revm spec b block) : totalValue (executeBlockTxs c revm spec b block) +
        (blockLedger c revm spec b block).swept =
      totalValue b + subsidyDue spec b block + (blockLedger c revm spec b block).fees +
        (blockLedger c revm spec b block).bonded := by
  have hby := totalValue_body hi hrv h hf.txs
  have hm := hf.subsidy
  have hmy : mayReceiveSubsidy (block.body.transactions.foldl
      (afterTx c revm spec block.header.number block.header.beneficiary) b)
      block.header.beneficiary = mayReceiveSubsidy b block.header.beneficiary :=
    mayReceiveSubsidy_body h _ _
  rw [commitTxs_backend, ExecState.start, ← hmy] at hm
  have hmt := totalValue_mintSubsidy hm
  rw [hmy] at hmt
  rw [totalValue_executeBlockTxs, executedState_backend, hmt, subsidyDue, blockLedger]
  omega

/-- The total value moves by the subsidy alone exactly when fees and bonds
equal what is swept. -/
theorem conserves_iff (hinj : Function.Injective (StateDb.key c)) (hrevm : revm.ConservesValue)
    (h : StateDb.StateOk b) {block : Block}
    (hfit : BlockFits c revm spec b block) : Conserves c revm spec b block ↔
      (blockLedger c revm spec b block).fees + (blockLedger c revm spec b block).bonded =
        (blockLedger c revm spec b block).swept := by
  have hbl := totalValue_block hinj hrevm h hfit
  unfold Conserves
  omega

end Steps

theorem conserves_transfer : Conserves .reference Revm.reference sampleSpec sampleGenesis
      (sampleBlock 1 [sampleTx 0 0 (arrOfNat 20 7) 5 []]) :=
  (conserves_iff referenceKey_injective Revm.reference_conservesValue sampleGenesis_ok
    ⟨by decide +kernel, by decide +kernel⟩).mpr (by decide +kernel)

/-- The fee of a transfer and the value of a bond are minted, and a stake
that is withdrawn is destroyed. -/
theorem not_conserves_fee_bond_withdraw :
    ¬ Conserves .reference Revm.reference sampleSpec sampleGenesis
        (sampleBlock 1 [sampleTx 0 1 (arrOfNat 20 7) 5 []]) ∧
      ¬ Conserves .reference Revm.reference sampleSpec sampleGenesis
        (sampleBlock 1 [sampleTx 0 0 PRECOMPILE_ADDR 5 OP_BOND]) ∧
      ¬ Conserves .reference Revm.reference sampleSpec
        (StakeTable.putRecord sampleGenesis sampleSender 5 1)
        (sampleBlock 1 [sampleTx 0 0 PRECOMPILE_ADDR 0 OP_WITHDRAW]) := by
  decide +kernel

end Aii.Node
