/-
Aii.Node.Evm — running a transaction through revm
(`aii-evm/src/{revm_db,revm_exec}.rs`).

revm is a PARAMETER: a function of the database and the environment; no
nonce is set.
-/
import Aii.Node.StateDb

namespace Aii.Node

open Common Chain List Backend

/-! ## The interface -/

/-- `revm::primitives::AccountInfo`; `code` is filled in by revm only. -/
structure AccountInfo where
  balance : U256
  nonce : UInt64
  codeHash : H256
  code : Option Bytes
  deriving DecidableEq

/-- The answers of the `revm::Database` implementation. -/
@[ext] structure RevmDb where
  basic : Address → Option AccountInfo
  codeByHash : H256 → Bytes
  storage : Address → U256 → U256
  blockHash : UInt64 → H256

/-- The fields of the transaction environment the adapter can set. -/
structure TxEnv where
  caller : Address
  transactTo : Option Address
  value : U256
  data : Bytes
  gasLimit : UInt64
  gasPrice : U256
  chainId : Option UInt64
  nonce : Option UInt64

structure StorageSlot where
  originalValue : U256
  presentValue : U256
  deriving DecidableEq

/-- The flags of `AccountStatus` that a commit looks at. -/
structure AccountStatus where
  created : Bool
  selfDestructed : Bool
  touched : Bool
  deriving DecidableEq

structure RevmAccount where
  info : AccountInfo
  storage : List (U256 × StorageSlot)
  status : AccountStatus
  deriving DecidableEq

structure StateDiff where
  entries : List (Address × RevmAccount)
  nodup : (entries.map Prod.fst).Nodup

inductive Output where
  | call (bytes : Bytes)
  | create (bytes : Bytes) (addr : Option Address)
  deriving DecidableEq

inductive ExecutionResult where
  | success (gasUsed : UInt64) (logs : List Log) (output : Output)
  | revert (gasUsed : UInt64) (output : Bytes)
  | halt (gasUsed : UInt64)
  deriving DecidableEq

def ExecutionResult.gasUsed : ExecutionResult → UInt64
  | .success g _ _ | .revert g _ | .halt g => g

structure ResultAndState where
  result : ExecutionResult
  state : StateDiff

/-- `Evm::transact`; an error carries its debug text. -/
abbrev Revm := RevmDb → TxEnv → Except String ResultAndState

/-! ## The adapter -/

/-- `ExecError`, the cases this path can return. -/
inductive ExecError where
  | state (e : StateError)
  | revm (msg : String)
  deriving DecidableEq

structure ExecutionSummary where
  success : Bool
  gasUsed : UInt64
  output : Bytes
  deployedContract : Option Address
  logs : List Log
  deriving DecidableEq

/-- A `U256` as 32 big-endian bytes. -/
def h256OfU256 (x : U256) : H256 := arrOfNat 32 x.toNat

/-- 32 big-endian bytes as a `U256`. -/
def u256OfH256 (h : H256) : U256 := BitVec.ofNat 256 (ofBe h.toList)

section Adapter

variable (c : Crypto)

/-- `RevmDb`: errors of the store read as absent. -/
def RevmDb.new (b : Backend) : RevmDb where
  basic addr :=
    match StateDb.account c b addr with
    | .ok (some a) => some ⟨a.balance, a.nonce, a.codeHash, none⟩
    | _ => none
  codeByHash h := (StateDb.codeGet b h).getD []
  storage addr index :=
    match StateDb.storageGet b addr (h256OfU256 index) with
    | .ok v => u256OfH256 v
    | .error _ => 0
  blockHash n := ⟨(Arr.zero 24).toList ++ u64Be n, by simp⟩

open RevmDb

def applySlots (b : Backend) (addr : Address) (slots : List (U256 × StorageSlot)) : Backend :=
  slots.foldl (fun b s =>
    if s.2.originalValue = s.2.presentValue then b
    else StateDb.storagePut b addr (h256OfU256 s.1) (h256OfU256 s.2.presentValue)) b

/-- Write one account of the diff over the record `old`. The storage root
of the record is kept. -/
def applyAccount (b : Backend) (addr : Address) (old : Account) (acc : RevmAccount) : Backend :=
  let b := StateDb.setAccount c b addr
    { old with nonce := acc.info.nonce, balance := acc.info.balance, codeHash := acc.info.codeHash }
  let b := match acc.info.code with
    | some code => if code.isEmpty then b else StateDb.codePut b acc.info.codeHash code
    | none => b
  applySlots b addr acc.storage

def applyDiff : Backend → List (Address × RevmAccount) → Backend × Except StateError Unit
  | b, [] => (b, .ok ())
  | b, (addr, acc) :: rest =>
    match StateDb.account c b addr with
    | .error e => (b, .error e)
    | .ok old => applyDiff (applyAccount c b addr (old.getD .EMPTY) acc) rest

def summaryOf (result : ExecutionResult) : ExecutionSummary :=
  match result with
  | .success gasUsed logs (.call bytes) => ⟨true, gasUsed, bytes, none, logs⟩
  | .success gasUsed logs (.create bytes addr) => ⟨true, gasUsed, bytes, addr, logs⟩
  | .revert gasUsed _ => ⟨false, gasUsed, [], none, []⟩
  | .halt gasUsed => ⟨false, gasUsed, [], none, []⟩

/-- The environment of a transaction. No nonce is set. -/
def txEnv (sender : Address) (toAddr : Option Address) (value : U256) (data : Bytes)
    (gasLimit : UInt64) (gasPrice : U256) : TxEnv where
  caller := sender
  transactTo := toAddr
  value := value
  data := data
  gasLimit := gasLimit
  gasPrice := gasPrice
  chainId := none
  nonce := none

def executeWithRevm (revm : Revm) (b : Backend) (env : TxEnv) :
    Backend × Except ExecError ExecutionSummary :=
  match revm (RevmDb.new c b) env with
  | .error msg => (b, .error (.revm msg))
  | .ok out =>
    match applyDiff c b out.state.entries with
    | (b', .error e) => (b', .error (.state e))
    | (b', .ok ()) => (b', .ok (summaryOf out.result))

end Adapter

def RevmDb.balance (db : RevmDb) (addr : Address) : Nat :=
  (db.basic addr).elim 0 fun i => i.balance.toNat

def RevmDb.nonce (db : RevmDb) (addr : Address) : UInt64 :=
  (db.basic addr).elim 0 (·.nonce)

/-- revm only moves value: what it debits the sender (value and fee) it
credits to the recipient and to its coinbase, so the balances of the
accounts in the diff add up to what they were. -/
def Revm.ConservesValue (revm : Revm) : Prop :=
  ∀ db env out, revm db env = .ok out →
    (out.state.entries.map fun e => e.2.info.balance.toNat).sum =
      (out.state.entries.map fun e => db.balance e.1).sum

/-- revm bumps the nonce of the sender and lowers none. -/
structure Revm.CountsNonces (revm : Revm) : Prop where
  sender : ∀ db env out, revm db env = .ok out → (db.nonce env.caller).toNat + 1 < 2 ^ 64 →
    ∃ acc, (env.caller, acc) ∈ out.state.entries ∧ acc.info.nonce = db.nonce env.caller + 1
  mono : ∀ db env out, revm db env = .ok out → ∀ e ∈ out.state.entries,
    db.nonce e.1 ≤ e.2.info.nonce

/-! ## The write-back -/

section WriteBack

variable {c : Crypto} {b b' : Backend} {entries : List (Address × RevmAccount)} {cf : ColumnFamily}

open StateDb

section Reads

variable (b : Backend) (addr : Address)

lemma RevmDb.balance_new : (new c b).balance addr = (accountD c b addr).balance.toNat := by
  unfold balance new accountD
  dsimp only
  cases account c b addr with
  | error => rfl
  | ok acc? => cases acc? <;> rfl

lemma RevmDb.nonce_new : (new c b).nonce addr = (accountD c b addr).nonce := by
  unfold nonce new accountD
  dsimp only
  cases account c b addr with
  | error => rfl
  | ok acc? => cases acc? <;> rfl

lemma applySlots_frame (slots : List (U256 × StorageSlot))
    (hcf : cf ≠ .accountStorage) : (applySlots b addr slots).cf cf = b.cf cf := by
  unfold applySlots
  induction slots generalizing b with
  | nil => rfl
  | cons _ _ ih =>
    rw [foldl_cons, ih]
    split_ifs
    · rfl
    · exact storagePut_frame _ _ _ hcf

lemma applyAccount_cf (old : Account) (acc : RevmAccount) :
    (applyAccount c b addr old acc).cf .state = (setAccount c b addr { old with
        nonce := acc.info.nonce, balance := acc.info.balance
        codeHash := acc.info.codeHash }).cf .state := by
  rw [applyAccount, applySlots_frame _ _ _ (by decide)]
  cases acc.info.code with
  | none => rfl
  | some =>
    dsimp only
    split_ifs
    · rfl
    · exact cf_put_ne (by decide)

end Reads

/-- Families that hold no accounts. -/
def NoAccounts (cf : ColumnFamily) : Prop := cf ≠ .state ∧ cf ≠ .code ∧ cf ≠ .accountStorage
deriving Decidable

lemma applyDiff_frame (hcf : NoAccounts cf) (entries : List (Address × RevmAccount)) (b : Backend) :
    (applyDiff c b entries).1.cf cf = b.cf cf := by
  obtain ⟨hs, hc, ha⟩ := hcf
  induction entries generalizing b with
  | nil => rfl
  | cons e _ ih =>
    rw [applyDiff]
    split
    · rfl
    · rw [ih, applyAccount, applySlots_frame _ _ _ ha]
      cases e.2.info.code with
      | none => exact cf_put_ne hs
      | some =>
        dsimp only
        split_ifs
        · exact cf_put_ne hs
        · exact (cf_put_ne hc).trans (cf_put_ne hs)

lemma applyDiff_meta (h : applyDiff c b entries = (b', .ok ())) :
    b'.cf .metaCf = b.cf .metaCf := by
  have hf : (applyDiff c b entries).1 = b' := by rw [h]
  rw [← hf]
  exact applyDiff_frame (by decide) entries b

lemma executeWithRevm_frame (hcf : NoAccounts cf) (revm : Revm) (b : Backend) (env : TxEnv) :
    (executeWithRevm c revm b env).1.cf cf = b.cf cf := by
  unfold executeWithRevm
  split
  · rfl
  next out _ =>
    have hfr := applyDiff_frame (c := c) hcf out.state.entries b
    split
    next hd => rwa [hd] at hfr
    next hd => rwa [hd] at hfr

/-- On a readable state every entry is applied. -/
lemma applyDiff_cons (h : StateOk b) (e : Address × RevmAccount)
    (entries : List (Address × RevmAccount)) :
    ∃ old, applyDiff c b (e :: entries) = applyDiff c (applyAccount c b e.1 old e.2) entries ∧
      StateOk (applyAccount c b e.1 old e.2) := by
  obtain ⟨old, ho⟩ := h.account e.1
  exact ⟨old.getD .EMPTY, by rw [applyDiff, ho],
    StateOk.of_cf_eq (h.setAccount e.1 _) (applyAccount_cf b e.1 _ e.2)⟩

lemma applyDiff_ok (h : StateOk b) (entries : List (Address × RevmAccount)) :
    ∃ b', applyDiff c b entries = (b', .ok ()) ∧ StateOk b' := by
  induction entries generalizing b with
  | nil => exact ⟨b, rfl, h⟩
  | cons e rest ih =>
    obtain ⟨old, heq, hsp⟩ := applyDiff_cons (c := c) h e rest
    rw [heq]
    exact ih hsp

variable (hi : Function.Injective (key c)) (h : applyDiff c b entries = (b', .ok ()))

include hi h

lemma applyDiff_accountD_notMem {addr : Address}
    (hn : addr ∉ entries.map Prod.fst) : accountD c b' addr = accountD c b addr := by
  induction entries generalizing b with
  | nil =>
    cases h
    rfl
  | cons e _ ih =>
    rw [map_cons, mem_cons, not_or] at hn
    rw [applyDiff] at h
    split at h
    · cases h
    next old ho =>
      rw [ih h hn.2, accountD_of_cf_eq (applyAccount_cf b e.1 _ e.2),
        accountD_setAccount_ne _ (hi.ne hn.1)]

lemma applyDiff_accountD_mem (hnd : (entries.map Prod.fst).Nodup) {e : Address × RevmAccount}
    (he : e ∈ entries) :
    (accountD c b' e.1).balance = e.2.info.balance ∧
      (accountD c b' e.1).nonce = e.2.info.nonce := by
  induction entries generalizing b with
  | nil => cases he
  | cons _ _ ih =>
    rw [map_cons, nodup_cons] at hnd
    rw [applyDiff] at h
    split at h
    · cases h
    next old ho =>
      rcases mem_cons.mp he with rfl | he
      · rw [applyDiff_accountD_notMem hi h hnd.1,
          accountD_of_cf_eq (applyAccount_cf b e.1 _ e.2), accountD_setAccount_self]
        exact ⟨rfl, rfl⟩
      · exact ih h hnd.2 he

lemma applyDiff_totalBalance (hnd : (entries.map Prod.fst).Nodup) :
    totalBalance b' + (entries.map fun e => (accountD c b e.1).balance.toNat).sum =
      totalBalance b + (entries.map fun e => e.2.info.balance.toNat).sum := by
  induction entries generalizing b with
  | nil =>
    cases h
    rfl
  | cons e rest ih =>
    rw [map_cons, nodup_cons] at hnd
    rw [applyDiff] at h
    split at h
    · cases h
    next old ho =>
      -- the other entries still read their old balance after this write
      have hrs := ih h hnd.2
      have ho : (rest.map fun e' => (accountD c (applyAccount c b e.1 (old.getD .EMPTY) e.2)
          e'.1).balance.toNat) = rest.map fun e' => (accountD c b e'.1).balance.toNat := by
        refine map_congr_left fun e' he' => ?_
        have hne : e'.1 ≠ e.1 := fun heq => hnd.1 (heq ▸ mem_map_of_mem he')
        rw [accountD_of_cf_eq (applyAccount_cf b e.1 _ e.2), accountD_setAccount_ne _ (hi.ne hne)]
      rw [ho, totalBalance_of_cf_eq (applyAccount_cf b e.1 _ e.2)] at hrs
      have hhd := totalBalance_setAccount (c := c) b e.1
        { old.getD .EMPTY with
          nonce := e.2.info.nonce, balance := e.2.info.balance, codeHash := e.2.info.codeHash }
      dsimp only at hhd
      simp only [map_cons, sum_cons]
      omega

end WriteBack

/-! ## A reference machine

Plain transfers between two accounts other than the coinbase (the zero
address), at 21000 gas. -/

def RevmDb.info (db : RevmDb) (addr : Address) : AccountInfo :=
  (db.basic addr).getD ⟨0, 0, EMPTY_CODE_HASH, none⟩

def AccountStatus.called : AccountStatus := ⟨false, false, true⟩

def RevmDb.settled (db : RevmDb) (addr : Address) (balance : Nat) (nonce : UInt64) : RevmAccount :=
  ⟨{ db.info addr with balance := BitVec.ofNat 256 balance, nonce := nonce }, [], .called⟩

def Revm.reference : Revm := fun db env =>
  match env.transactTo with
  | none => .error "only calls"
  | some recipient =>
    let coinbase : Address := Arr.zero 20
    let fee := 21000 * env.gasPrice.toNat
    if hnd : [env.caller, recipient, coinbase].Nodup then
      if 21000 ≤ env.gasLimit ∧ env.value.toNat + fee ≤ db.balance env.caller ∧
          db.balance recipient + env.value.toNat < 2 ^ 256 ∧ db.balance coinbase + fee < 2 ^ 256 ∧
          (db.nonce env.caller).toNat + 1 < 2 ^ 64 then
        .ok
          { result := .success 21000 [] (.call [])
            state :=
              { entries :=
                  [(env.caller, db.settled env.caller
                      (db.balance env.caller - (env.value.toNat + fee)) (db.nonce env.caller + 1)),
                    (recipient, db.settled recipient
                      (db.balance recipient + env.value.toNat) (db.nonce recipient)),
                    (coinbase, db.settled coinbase
                      (db.balance coinbase + fee) (db.nonce coinbase))]
                nodup := hnd } }
      else .error "rejected"
    else .error "only transfers between two other accounts"

lemma RevmDb.balance_lt (db : RevmDb) (addr : Address) : db.balance addr < 2 ^ 256 := by
  unfold balance
  cases db.basic addr with
  | none => decide
  | some i => exact i.balance.isLt

lemma RevmDb.settled_balance (db : RevmDb) (addr : Address) {balance : Nat} (nonce : UInt64)
    (h : balance < 2 ^ 256) : (db.settled addr balance nonce).info.balance.toNat = balance := by
  rw [settled, BitVec.toNat_ofNat, Nat.mod_eq_of_lt h]

lemma Revm.reference_conservesValue : Revm.ConservesValue Revm.reference := by
  intro db env out h
  unfold Revm.reference at h
  split at h
  · cases h
  next recipient _ =>
    dsimp only at h
    split_ifs at h with hnd hok
    cases h
    obtain ⟨-, hp, hto, hc, -⟩ := hok
    have hca := db.balance_lt env.caller
    simp only [map_cons, map_nil, sum_cons, sum_nil]
    rw [db.settled_balance _ _ (by omega), db.settled_balance _ _ hto, db.settled_balance _ _ hc]
    omega

lemma Revm.reference_countsNonces : Revm.CountsNonces Revm.reference := by
  constructor
  · intro db env out h _
    unfold Revm.reference at h
    split at h
    · cases h
    next recipient _ =>
      dsimp only at h
      split_ifs at h with hnd hok
      cases h
      exact ⟨_, mem_cons_self, rfl⟩
  · intro db env out h e he
    unfold Revm.reference at h
    split at h
    · cases h
    next recipient _ =>
      dsimp only at h
      split_ifs at h with hnd hok
      cases h
      obtain ⟨-, -, -, -, hnc⟩ := hok
      simp only [mem_cons, not_mem_nil, or_false] at he
      rcases he with rfl | rfl | rfl
      · have ha : (db.nonce env.caller + 1).toNat = (db.nonce env.caller).toNat + 1 :=
          toNat_add64_of_lt (by simpa using hnc)
        change db.nonce env.caller ≤ db.nonce env.caller + 1
        rw [UInt64.le_iff_toNat_le, ha]
        exact Nat.le_succ _
      · exact UInt64.le_refl _
      · exact UInt64.le_refl _

end Aii.Node
