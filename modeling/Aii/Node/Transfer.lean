/-
Aii.Node.Transfer — the plain value transfer (`execute_transfer` of
`aii-evm`).

Both accounts are read before either is written, also in a transfer to
oneself.
-/
import Aii.Node.Execute

namespace Aii.Node

open Common Chain StateDb

/-- `ExecError`, the cases of `execute_transfer`. -/
inductive TransferError where
  | state (e : StateError)
  | nonceMismatch (expected got : UInt64)
  | insufficientBalance
  | contractCallsNotYetSupported
  deriving DecidableEq

namespace Account

def isEoa (a : Account) : Bool := a.codeHash = EMPTY_CODE_HASH

/-- The sender's account after the transfer; the nonce wraps. -/
def debit (a : Account) (value : U256) : Account :=
  { a with balance := a.balance - value, nonce := a.nonce + 1 }

/-- The recipient's; the balance wraps. -/
def credit (a : Account) (value : U256) : Account := { a with balance := a.balance + value }

end Account

/-- `unpack`: nonce, gas limit, recipient and value. -/
def unpack : Tx → Except TransferError (UInt64 × UInt64 × Option Address × U256)
  | .legacy t => .ok (t.nonce, t.gasLimit, t.toAddr, t.value)
  | .eip1559 t => .ok (t.nonce, t.gasLimit, t.toAddr, t.value)
  | .eip4844 _ => .error .contractCallsNotYetSupported

section Transfer

variable (c : Crypto)

def executeTransfer (b : Backend) (sender : Address) (tx : Tx) :
    Backend × Except TransferError Receipt :=
  match unpack tx with
  | .error e => (b, .error e)
  | .ok (_, _, none, _) => (b, .error .contractCallsNotYetSupported)
  | .ok (nonce, gasLimit, some toAddr, value) =>
    match account c b sender with
    | .error e => (b, .error (.state e))
    | .ok senderAcc? =>
      let senderAcc := senderAcc?.getD .EMPTY
      if senderAcc.nonce ≠ nonce then (b, .error (.nonceMismatch senderAcc.nonce nonce))
      else if senderAcc.balance.toNat < value.toNat then (b, .error .insufficientBalance)
      else
        match account c b toAddr with
        | .error e => (b, .error (.state e))
        | .ok toAcc? =>
          let toAcc := toAcc?.getD .EMPTY
          if !toAcc.isEoa then (b, .error .contractCallsNotYetSupported)
          else
            (setAccount c (setAccount c b sender (senderAcc.debit value)) toAddr
                (toAcc.credit value),
              .ok ⟨tx.ty, true, min 21000 gasLimit, Arr.zero 256, []⟩)

variable {c} {b b' : Backend} {sender toAddr : Address} {tx : Tx} {value : U256} {r : Receipt}

lemma accountD_of_account {acc? : Option Account} {addr : Address}
    (h : account c b addr = .ok acc?) : acc?.getD .EMPTY = accountD c b addr := by
  rw [accountD, h]
  cases acc? <;> rfl

/-- A transfer that succeeds writes the sender, and then the recipient as
it was before. -/
lemma executeTransfer_ok (h : executeTransfer c b sender tx = (b', .ok r)) :
    ∃ gasLimit toAddr value, unpack tx =
        .ok ((accountD c b sender).nonce, gasLimit, some toAddr, value) ∧
      value.toNat ≤ (accountD c b sender).balance.toNat ∧
      b' = setAccount c (setAccount c b sender ((accountD c b sender).debit value)) toAddr
        ((accountD c b toAddr).credit value) := by
  unfold executeTransfer at h
  split at h
  next => cases h
  next => cases h
  next nonce gasLimit toAddr value hu =>
    split at h
    next => cases h
    next senderAcc? hs =>
      simp only [accountD_of_account hs] at h
      split_ifs at h with hnc hb
      · cases h
      · cases h
      · split at h
        next => cases h
        next toAcc? hto =>
          simp only [accountD_of_account hto] at h
          split_ifs at h
          · cases h
          · grind

/-- What a transfer of `value` should do. -/
structure Transfers (c : Crypto) (b b' : Backend) (sender toAddr : Address) (value : U256) :
    Prop where
  total : totalBalance b' = totalBalance b
  nonce : (accountD c b' sender).nonce.toNat = (accountD c b sender).nonce.toNat + 1
  received : toAddr ≠ sender →
    (accountD c b' toAddr).balance.toNat = (accountD c b toAddr).balance.toNat + value.toNat
  others : ∀ addr, addr ≠ sender → addr ≠ toAddr → account c b' addr = account c b addr

/-- **A transfer that succeeds does so exactly if the recipient is not the
sender**, and the nonce does not wrap; one that fails changes nothing. -/
theorem transfers_iff (c : Crypto) (hinj : Function.Injective (key c)) (b b' : Backend)
    (sender : Address) (tx : Tx) (out : Except TransferError Receipt)
    (h : executeTransfer c b sender tx = (b', out)) : (∀ e, out = .error e → b' = b) ∧
    ∀ r nonce gasLimit toAddr value, out = .ok r →
      unpack tx = .ok (nonce, gasLimit, some toAddr, value) →
      (accountD c b toAddr).balance.toNat + value.toNat < 2 ^ 256 →
      (Transfers c b b' sender toAddr value ↔ toAddr ≠ sender ∧ nonce.toNat + 1 < 2 ^ 64) := by
  refine ⟨?_, ?_⟩
  · rintro e rfl
    unfold executeTransfer at h
    grind
  rintro r nonce gasLimit toAddr value rfl hunp hf
  obtain ⟨_, _, _, hunp', hle, rfl⟩ := executeTransfer_ok h
  simp only [hunp, Except.ok.injEq, Prod.mk.injEq, Option.some.injEq] at hunp'
  obtain ⟨rfl, rfl, rfl, rfl⟩ := hunp'
  have hc : ((accountD c b toAddr).credit value).balance.toNat =
      (accountD c b toAddr).balance.toNat + value.toNat := BitVec.toNat_add_of_lt hf
  constructor
  · intro ht
    have hne : toAddr ≠ sender := by
      -- the account written last still has the old nonce
      rintro rfl
      have hn := ht.nonce
      rw [accountD_setAccount_self] at hn
      exact absurd hn (by simp [Account.credit])
    refine ⟨hne, ?_⟩
    have hn := ht.nonce
    rw [accountD_setAccount_ne _ (hinj.ne hne.symm), accountD_setAccount_self] at hn
    have hlt := ((accountD c b sender).nonce + 1).toNat_lt
    exact hn ▸ hlt
  · rintro ⟨hne, hlt⟩
    refine ⟨?_, ?_, ?_, ?_⟩
    · have hp := totalBalance_setAccount (c := c) b sender ((accountD c b sender).debit value)
      have hg := totalBalance_setAccount (c := c)
        (setAccount c b sender ((accountD c b sender).debit value)) toAddr
        ((accountD c b toAddr).credit value)
      rw [Account.debit, BitVec.toNat_sub_of_le hle, ← Account.debit] at hp
      rw [accountD_setAccount_ne _ (hinj.ne hne), hc] at hg
      omega
    · rw [accountD_setAccount_ne _ (hinj.ne hne.symm), accountD_setAccount_self]
      exact toNat_add64_of_lt hlt
    · simp_all
    · intro addr hs ht
      rw [account_setAccount_ne _ (hinj.ne ht), account_setAccount_ne _ (hinj.ne hs)]

theorem transfers_iff_paid : ∃ b' receipt, executeTransfer .reference sampleGenesis sampleSender
      (sampleTx 0 1 (Arr.zero 20) 5 []) = (b', .ok receipt) ∧
    Transfers .reference sampleGenesis b' sampleSender (Arr.zero 20) 5 := by
  have hi : (executeTransfer .reference sampleGenesis sampleSender
    (sampleTx 0 1 (Arr.zero 20) 5 [])).2.isOk = true := by decide +kernel
  generalize hr : executeTransfer .reference sampleGenesis sampleSender
    (sampleTx 0 1 (Arr.zero 20) 5 []) = r at hi
  obtain ⟨b', e | receipt⟩ := r
  · cases hi
  · exact ⟨b', receipt, rfl, ((transfers_iff .reference referenceKey_injective sampleGenesis b'
      sampleSender _ _ hr).2 receipt 0 100000 (Arr.zero 20) 5 rfl rfl
        (by decide +kernel)).mpr (by decide +kernel)⟩

/-- An account that pays itself gains the value and keeps its nonce. -/
theorem self_transfer_mints :
    let r := executeTransfer .reference sampleGenesis sampleSender (sampleTx 0 1 sampleSender 5 [])
    r.2.isOk ∧ totalBalance sampleGenesis = 100000 ∧ totalBalance r.1 = 100005 ∧
      (accountD .reference r.1 sampleSender).nonce = 0 := by
  decide +kernel

end Transfer

end Aii.Node
