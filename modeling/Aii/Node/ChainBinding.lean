/-
Aii.Node.ChainBinding — which chain a transaction was signed for
(`submit_raw_tx` and `execute_block_txs` of `aii-node/src/lib.rs`, the
signer recovery of `aii-block`).

The sender is recovered for the chain id of the node; revm is given none.
-/
import Aii.Net.TxPool
import Aii.Node.Execute

namespace Aii.Node

open Common Common.Rlp Chain Net Option

/-- `FromHexError`, as far as `hex::decode` gives it. -/
inductive FromHexError where
  | invalidHexCharacter (c : UInt8) (index : Nat)
  | oddLength
  deriving DecidableEq

def hexValue (c : UInt8) : Option UInt8 :=
  if 0x41 ≤ c ∧ c ≤ 0x46 then some (c - 0x41 + 10)
  else if 0x61 ≤ c ∧ c ≤ 0x66 then some (c - 0x61 + 10)
  else if 0x30 ≤ c ∧ c ≤ 0x39 then some (c - 0x30)
  else none

/-- The pairs of digits from position `index` on. -/
def hexPairs : Nat → Bytes → Except FromHexError Bytes
  | index, hi :: lo :: rest =>
    match hexValue hi, hexValue lo with
    | none, _ => .error (.invalidHexCharacter hi index)
    | some _, none => .error (.invalidHexCharacter lo (index + 1))
    | some h, some l =>
      match hexPairs (index + 2) rest with
      | .error e => .error e
      | .ok bytes => .ok ((h * 16 + l) :: bytes)
  | _, _ => .ok []

def hexDecode (s : Bytes) : Except FromHexError Bytes :=
  if s.length % 2 ≠ 0 then .error .oddLength else hexPairs 0 s

/-- `SubmitTxError`, with what it reports. -/
inductive SubmitTxError where
  | hex (e : FromHexError)
  | decode (msg : String)
  | signer
  | pool (msg : String)
  deriving DecidableEq

/-- `s.strip_prefix("0x").unwrap_or(s)`. -/
def without0x : Bytes → Bytes
  | 0x30 :: 0x78 :: rest => rest
  | s => s

/-- The transaction in a raw text: a first byte below `0xc0` is the type of
an envelope, any other one starts a legacy list. -/
def rawTx (rawHex : Bytes) : Except SubmitTxError Tx :=
  match hexDecode (without0x rawHex) with
  | .error e => .error (.hex e)
  | .ok [] => .error (.decode "empty body")
  | .ok (first :: rest) =>
    if first < 0xC0 then
      match Tx.decode2718 (first :: rest) with
      | .error e => .error (.decode ("EIP-2718: " ++ e.text))
      | .ok (tx, _) => .ok tx
    else
      match TxLegacy.decode (first :: rest) with
      | .error e => .error (.decode ("legacy RLP: " ++ e.text))
      | .ok (t, _) => .ok (.legacy t)

def txNonce : Tx → UInt64
  | .legacy t => t.nonce
  | .eip1559 t => t.nonce
  | .eip4844 t => t.nonce

/-- `submit_raw_tx`: the hash of the transaction that is in the pool now. -/
def submitRawTx (c : Crypto) (spec : ChainSpec) (pool : TxPool) (rawHex : Bytes) :
    Except SubmitTxError (TxPool × String) :=
  match rawTx rawHex with
  | .error e => .error e
  | .ok tx =>
    match tx.recoverSigner c spec.chainId with
    | none => .error .signer
    | some sender =>
      match pool.add ⟨sender, txNonce tx, effectiveGasPrice tx, tx⟩ with
      | .error e => .error (.pool e.text)
      | .ok (_, .rejectedUnderpriced) =>
        .error (.pool "rejected: same-nonce tx with equal/lower gas price already in pool")
      | .ok (pool, _) => .ok (pool, "0x" ++ Governance.hexEncode (tx.hash c).toList)

/-- The chain id a transaction was signed for: a typed one has it in a
field, an EIP-155 signature in `v`. -/
def signedFor : Tx → Option Nat
  | .legacy t => if 35 ≤ t.v then some ((t.v.toNat - 35) / 2) else none
  | .eip1559 t => some t.chainId.toNat
  | .eip4844 t => some t.chainId.toNat

def BoundTo (chainId : UInt64) (tx : Tx) : Prop := ∀ id, signedFor tx = some id → id = chainId.toNat

/-- The node takes a transaction: into its pool, or in a block. -/
inductive Takes (c : Crypto) (revm : Revm) (spec : ChainSpec) : Tx → Prop
  | submitted (pool pool' : TxPool) (rawHex : Bytes) (hash : String) (tx : Tx)
      (decoded : rawTx rawHex = .ok tx)
      (admitted : submitRawTx c spec pool rawHex = .ok (pool', hash)) : Takes c revm spec tx
  | executed (number : UInt64) (b : Backend) (tx : Tx) (charge : Charge)
      (ran : (runTx c revm spec number b tx).2 = some charge) : Takes c revm spec tx

section Binding

variable {c : Crypto} {revm : Revm} {spec : ChainSpec} {tx : Tx}

lemma Takes.recovered (h : Takes c revm spec tx) :
    ∃ sender, tx.recoverSigner c spec.chainId = some sender := by
  rw [← ne_none_iff_exists']
  intro hnn
  cases h with
  | submitted _ _ _ _ _ decoded admitted =>
    rw [submitRawTx, decoded] at admitted
    simp only [hnn] at admitted
    cases admitted
  | executed _ _ _ _ ran =>
    rw [runTx, hnn] at ran
    cases ran

lemma TxLegacy.chain_of_recover {t : TxLegacy} {chainId : UInt64} {sender : Address}
    (h : t.recover c chainId = some sender) (hv : 35 ≤ t.v) :
    (t.v.toNat - 35) / 2 = chainId.toNat := by
  have hl : ¬ (t.v = 27 ∨ t.v = 28) := by
    rintro (heq | heq) <;> rw [heq] at hv <;> exact absurd hv (by decide)
  unfold TxLegacy.recover at h
  dsimp only at h
  split_ifs at h with hal hb
  omega

/-- What the node takes is bound to its chain, except for a dynamic-fee
transaction with another chain id. -/
theorem taken_bound_iff (c : Crypto) (revm : Revm) (spec : ChainSpec) (tx : Tx) :
    (Takes c revm spec tx →
      (BoundTo spec.chainId tx ↔ ∀ t, tx = .eip1559 t → t.chainId = spec.chainId)) ∧
    (¬ BoundTo spec.chainId tx → (∀ t, tx ≠ .eip1559 t) →
      ∀ number b, runTx c revm spec number b tx = (b, none)) := by
  have hl : ∀ {t : TxLegacy} {sender : Address}, tx = .legacy t →
      tx.recoverSigner c spec.chainId = some sender → BoundTo spec.chainId tx := by
    rintro t sender rfl hs id hid
    simp only [signedFor] at hid
    split_ifs at hid with hv
    rw [← some.inj hid]
    exact TxLegacy.chain_of_recover hs hv
  constructor
  · intro ht
    obtain ⟨sender, hs⟩ := ht.recovered
    cases tx with
    | legacy => exact ⟨fun _ => nofun, fun _ => hl rfl hs⟩
    | eip1559 t =>
      constructor
      · rintro hb _ ⟨⟩
        exact UInt64.toNat_inj.mp (hb _ rfl)
      · intro hcn id hid
        rw [← some.inj hid, hcn t rfl]
    | eip4844 => cases hs
  · intro hu hty number b
    have hnn : tx.recoverSigner c spec.chainId = none := by
      cases tx with
      | legacy =>
        rw [eq_none_iff_forall_not_mem]
        exact fun sender hs => hu (hl rfl hs)
      | eip1559 t => exact absurd rfl (hty t)
      | eip4844 => rfl
    rw [runTx, hnn]

end Binding

def bondFor (chainId : UInt64) : Tx :=
  .eip1559 ⟨chainId, 0, 0, 1, 100000, some PRECOMPILE_ADDR, 5, OP_BOND, [], 0, arrOfNat 32 1,
    arrOfNat 32 2, .secp256k1⟩

def hexText (bs : Bytes) : Bytes :=
  bs.flatMap fun b => [b / 16, b % 16].map fun d => if d < 10 then 0x30 + d else 0x61 + (d - 10)

theorem taken_bound_iff_here : BoundTo sampleSpec.chainId (bondFor 1) ∧
      (submitRawTx .reference sampleSpec (.new 1) (hexText (bondFor 1).encode2718)).isOk := by
  have ht : Takes .reference .reference sampleSpec (bondFor 1) :=
    .executed 1 .empty _ ⟨.eip1559, true, PRECOMPILE_GAS, 1, []⟩ (by decide +kernel)
  refine ⟨((taken_bound_iff _ _ _ _).1 ht).mpr ?_, by decide +kernel⟩
  rintro _ ⟨⟩
  rfl

/-- One for chain 2 is taken by a node of chain 1: into the pool, and in a
block, where it bonds. -/
theorem foreign_tx_taken : sampleSpec.chainId = 1 ∧ signedFor (bondFor 2) = some 2 ∧
      (submitRawTx .reference sampleSpec (.new 1) (hexText (bondFor 2).encode2718)).isOk ∧
      (runTx .reference .reference sampleSpec 1 .empty (bondFor 2)).2 =
        some ⟨.eip1559, true, PRECOMPILE_GAS, 1, []⟩ ∧
      StakeTable.get (runTx .reference .reference sampleSpec 1 .empty (bondFor 2)).1 sampleSender =
        some ⟨sampleSender, 5, 0⟩ := by
  decide +kernel

end Aii.Node
