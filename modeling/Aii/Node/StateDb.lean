/-
Aii.Node.StateDb — accounts and the world-state store
(`aii-state/src/{account,db}.rs`).

`StateDb` is the only writer of the `State` column family (`StateOk`).
-/
import Aii.Chain.Trie
import Aii.Node.Storage

namespace Aii.Node

open Common Common.Rlp Common.OrderedMap Chain List Backend

structure Account where
  nonce : UInt64
  balance : U256
  storageRoot : H256
  codeHash : H256
  deriving DecidableEq

def EMPTY_CODE_HASH : H256 :=
  arrOfNat 32 0xc5d2460186f7233c927e7db2dcc703c0e500b653ca82273b7bfad8045d85a470

namespace Account

def EMPTY : Account := ⟨0, 0, EMPTY_TRIE_HASH, EMPTY_CODE_HASH⟩

def encode (a : Account) : Bytes :=
  encodeList (encodeU64 a.nonce ++ encodeU256 a.balance ++ encodeString a.storageRoot.toList ++
    encodeString a.codeHash.toList)

/-- The outer length is read but not compared with what was consumed. -/
def decode : Decoder Account := do
  let _ ← decodeListHeader
  let nonce ← decodeU64
  let balance ← decodeU256
  let storageRoot ← decodeArr 32
  let codeHash ← decodeArr 32
  pure { nonce, balance, storageRoot, codeHash }

lemma encodeUint_length_le {w n : Nat} (hw : w < 56) : (encodeUint w n).length ≤ w + 1 := by
  have hl := stripZeros_length_le (toBe w n)
  rw [toBe_length] at hl
  unfold encodeUint encodeString
  split
  next b hb =>
    rw [hb, length_singleton] at hl
    split_ifs
    · simp
    · simp [encodeHeader]
      omega
  next =>
    rw [encodeHeader, if_pos (by omega)]
    simp only [length_append, length_singleton]
    omega

lemma payload_length_le (a : Account) :
    (encodeU64 a.nonce ++ encodeU256 a.balance ++ encodeString a.storageRoot.toList ++
      encodeString a.codeHash.toList).length ≤ 108 := by
  have hn : (encodeU64 a.nonce).length ≤ 9 := encodeUint_length_le (by decide)
  have hb : (encodeU256 a.balance).length ≤ 33 := encodeUint_length_le (by decide)
  have hs : ∀ h : H256, (encodeString h.toList).length = 33 := by
    intro h
    rw [encodeString_of_length (by simp), length_append, length_toList]
    rfl
  simp only [length_append, hs]
  omega

lemma length_encode_le (a : Account) : a.encode.length ≤ 117 := by
  have hpy := payload_length_le a
  have hhe := encodeHeader_length_le true (encodeU64 a.nonce ++ encodeU256 a.balance ++
    encodeString a.storageRoot.toList ++ encodeString a.codeHash.toList).length
  rw [encode, encodeList, length_append]
  omega

lemma decode_encode (a : Account) (rest : Bytes) : decode (a.encode ++ rest) = .ok (a, rest) := by
  have hls := decodeListHeader_encodeList
    (Nat.lt_of_le_of_lt (payload_length_le a) (by decide)) rest
  simp only [decode, bind, Decoder.bind, encode, hls]
  simp only [append_assoc, decodeU64_encodeU64, decodeU256_encodeU256,
    decodeArr_encodeString (show 32 < 2 ^ 64 by decide)]
  rfl

end Account

/-- `StateError`, without the failures of the backend itself. -/
inductive StateError where
  | rlp (e : RlpError)
  | decode (msg : String)
  deriving DecidableEq

namespace StateDb

variable (c : Crypto)

def key (addr : Address) : Bytes := (c.keccak256 addr.toList).toList

def readRecord (bytes : Bytes) : Except StateError Account :=
  match Account.decode bytes with
  | .error e => .error (.rlp e)
  | .ok (acc, _) => .ok acc

def account (b : Backend) (addr : Address) : Except StateError (Option Account) :=
  match b.get .state (key c addr) with
  | none => .ok none
  | some bytes => (readRecord bytes).map some

def setAccount (b : Backend) (addr : Address) (acc : Account) : Backend :=
  b.put .state (key c addr) acc.encode

def codeGet (b : Backend) (codeHash : H256) : Option Bytes := b.get .code codeHash.toList

def codePut (b : Backend) (codeHash : H256) (bytes : Bytes) : Backend :=
  b.put .code codeHash.toList bytes

def storageKey (addr : Address) (slot : H256) : Bytes := addr.toList ++ slot.toList

def storageGet (b : Backend) (addr : Address) (slot : H256) : Except StateError H256 :=
  match b.get .accountStorage (storageKey addr slot) with
  | none => .ok (Arr.zero 32)
  | some bytes =>
    match arr? 32 bytes with
    | some v => .ok v
    | none => .error (.decode ("storage slot value has unexpected length " ++
        toString bytes.length))

/-- `storage_put`: the zero value clears the slot. -/
def storagePut (b : Backend) (addr : Address) (slot value : H256) : Backend :=
  if value = Arr.zero 32 then b.delete .accountStorage (storageKey addr slot)
  else b.put .accountStorage (storageKey addr slot) value.toList

def rootPairs : List (Bytes × Bytes) → Except StateError (List (Bytes × Bytes))
  | [] => .ok []
  | (k, v) :: rest =>
    match readRecord v with
    | .error e => .error e
    | .ok acc => (rootPairs rest).map ((k, acc.encode) :: ·)

def stateRoot (b : Backend) : Except StateError H256 :=
  (rootPairs (b.iter .state)).map (mptRoot c)

/-- Every record of the `State` column family is an account. -/
def StateOk (b : Backend) : Prop :=
  ∀ k v, b.get .state k = some v → ∃ acc, readRecord v = .ok acc

lemma readRecord_encode (acc : Account) : readRecord acc.encode = .ok acc := by
  have h := Account.decode_encode acc []
  rw [append_nil] at h
  rw [readRecord, h]

variable {c} {b : Backend} {b' : Backend} {addr addr' : Address}

lemma StateOk.setAccount (h : StateOk b) (addr : Address) (acc : Account) :
    StateOk (setAccount c b addr acc) := by
  intro k v hv
  by_cases hk : k = key c addr
  · subst hk
    rw [StateDb.setAccount, get_put_self] at hv
    cases hv
    exact ⟨acc, readRecord_encode acc⟩
  · rw [StateDb.setAccount, get_put_ne (fun _ => hk)] at hv
    exact h k v hv

lemma StateOk.of_cf_eq (h : StateOk b) (hcf : b'.cf .state = b.cf .state) : StateOk b' := by
  intro k v hv
  exact h k v (by rwa [Backend.get, hcf] at hv)

lemma StateOk.account (h : StateOk b) (addr : Address) :
    ∃ acc?, StateDb.account c b addr = .ok acc? := by
  unfold StateDb.account
  cases hg : b.get .state (key c addr) with
  | none => exact ⟨none, rfl⟩
  | some =>
    obtain ⟨acc, ha⟩ := h _ _ hg
    refine ⟨some acc, ?_⟩
    dsimp only
    rw [ha]
    rfl

lemma StateOk.rootPairs (h : StateOk b) : ∃ pairs, rootPairs (b.iter .state) = .ok pairs := by
  have ha : ∀ e ∈ b.iter .state, ∃ acc, readRecord e.2 = .ok acc :=
    fun e he => h e.1 e.2 (mem_iter.mp he)
  generalize b.iter .state = entries at ha
  induction entries with
  | nil => exact ⟨[], rfl⟩
  | cons e _ ih =>
    obtain ⟨⟨acc, hac⟩, hrs⟩ := forall_mem_cons.mp ha
    obtain ⟨pairs, hps⟩ := ih hrs
    exact ⟨(e.1, acc.encode) :: pairs, by rw [StateDb.rootPairs, hac, hps]; rfl⟩

def recordBalance (_ : Bytes) (v : Bytes) : Nat :=
  match readRecord v with
  | .ok acc => acc.balance.toNat
  | .error _ => 0

def totalBalance (b : Backend) : Nat := OrderedMap.weight recordBalance (b.cf .state)

variable (c b) in
/-- The account at `addr`, `EMPTY` if there is none. -/
def accountD (addr : Address) : Account :=
  match account c b addr with
  | .ok (some acc) => acc
  | _ => .EMPTY

lemma weightAt_recordBalance (addr : Address) :
    weightAt recordBalance (b.cf .state) (key c addr) = (accountD c b addr).balance.toNat := by
  rw [weightAt, accountD, account, ← Backend.get]
  cases b.get .state (key c addr) with
  | none => rfl
  | some bytes =>
    simp only [Option.elim_some, recordBalance]
    cases readRecord bytes <;> rfl

lemma totalBalance_setAccount (b : Backend) (addr : Address) (acc : Account) :
    totalBalance (setAccount c b addr acc) + (accountD c b addr).balance.toNat =
      totalBalance b + acc.balance.toNat := by
  have h := weight_insert recordBalance (b.cf .state) (key c addr) acc.encode
  rw [weightAt_recordBalance, recordBalance, readRecord_encode] at h
  rw [totalBalance, setAccount, put, cf_setCf_self]
  exact h

lemma totalBalance_of_cf_eq (h : b'.cf .state = b.cf .state) :
    totalBalance b' = totalBalance b := by
  rw [totalBalance, h, totalBalance]

lemma account_of_cf_eq (h : b'.cf .state = b.cf .state) (addr : Address) :
    account c b' addr = account c b addr := by
  rw [account, account, Backend.get, Backend.get, h]

lemma accountD_of_cf_eq (h : b'.cf .state = b.cf .state) (addr : Address) :
    accountD c b' addr = accountD c b addr := by
  rw [accountD, accountD, account_of_cf_eq h]

@[simp] lemma account_setAccount_self (addr : Address) (acc : Account) :
    account c (setAccount c b addr acc) addr = .ok (some acc) := by
  rw [account, setAccount, get_put_self]
  dsimp only
  rw [readRecord_encode]
  rfl

lemma account_setAccount_ne (acc : Account) (h : key c addr' ≠ key c addr) :
    account c (setAccount c b addr acc) addr' = account c b addr' := by
  rw [account, setAccount, get_put_ne (fun _ => h), account]

@[simp] lemma accountD_setAccount_self (addr : Address) (acc : Account) :
    accountD c (setAccount c b addr acc) addr = acc := by
  rw [accountD, account_setAccount_self]

lemma accountD_setAccount_ne (acc : Account) (h : key c addr' ≠ key c addr) :
    accountD c (setAccount c b addr acc) addr' = accountD c b addr' := by
  rw [accountD, accountD, account_setAccount_ne acc h]

lemma storagePut_frame (addr : Address) (slot value : H256) {cf : ColumnFamily}
    (hcf : cf ≠ .accountStorage) : (storagePut b addr slot value).cf cf = b.cf cf := by
  unfold storagePut
  split_ifs
  · exact cf_delete_ne hcf
  · exact cf_put_ne hcf

end StateDb

end Aii.Node
