/-
Aii.Node.StorageRoot — the state root does not see contract storage.

The changed slots are written, but the account record keeps its
`storage_root`. So two histories end with one root exactly when the diffs
of the machine leave every account with the same nonce, balance and code
hash (`stateRoot_eq_iff`, `recordAt_world`), while a slot reads as the
diffs last wrote it (`storageGet_world`). `storage_bound_iff` puts the two
together: the failing pairs of histories are those that differ in slot
values only.
-/
import Aii.Node.Evm
import Aii.Node.StateBinding

namespace Aii.Node

open Common Chain StateDb List Backend

structure SlotWrite where
  addr : Address
  slot : H256
  value : H256
  deriving DecidableEq

def accountWrites (addr : Address) (slots : List (U256 × StorageSlot)) : List SlotWrite :=
  (slots.filter fun s => s.2.originalValue ≠ s.2.presentValue).map fun s =>
    ⟨addr, h256OfU256 s.1, h256OfU256 s.2.presentValue⟩

def slotWrites (entries : List (Address × RevmAccount)) : List SlotWrite :=
  entries.flatMap fun e => accountWrites e.1 e.2.storage

def slotAfter (ws : List SlotWrite) (addr : Address) (slot : H256)
    (old : Except StateError H256) : Except StateError H256 :=
  ws.foldl (fun v w => if w.addr = addr ∧ w.slot = slot then .ok w.value else v) old

lemma slotAfter_append (ws ws' : List SlotWrite) (addr : Address) (slot : H256)
    (old : Except StateError H256) :
    slotAfter (ws ++ ws') addr slot old = slotAfter ws' addr slot (slotAfter ws addr slot old) :=
  foldl_append

lemma storageKey_inj {addr addr' : Address} {slot slot' : H256}
    (h : storageKey addr slot = storageKey addr' slot') : addr = addr' ∧ slot = slot' := by
  obtain ⟨har, hsl⟩ := append_inj h (by simp)
  exact ⟨toList_inj.mp har, toList_inj.mp hsl⟩

lemma storageGet_storagePut (b : Backend) (w : SlotWrite) (addr : Address) (slot : H256) :
    storageGet (storagePut b w.addr w.slot w.value) addr slot =
      if w.addr = addr ∧ w.slot = slot then .ok w.value else storageGet b addr slot := by
  split_ifs with hsm
  · obtain ⟨rfl, rfl⟩ := hsm
    rw [storageGet, storagePut]
    split_ifs with hzr
    · rw [get_delete_self, hzr]
    · rw [get_put_self]
      simp
  · have hk : storageKey addr slot ≠ storageKey w.addr w.slot := by
      intro heq
      obtain ⟨rfl, rfl⟩ := storageKey_inj heq
      exact hsm ⟨rfl, rfl⟩
    rw [storageGet, storagePut]
    split_ifs
    · rw [get_delete_ne fun _ => hk, storageGet]
    · rw [get_put_ne fun _ => hk, storageGet]

lemma storageGet_of_cf_eq {b b' : Backend} (h : b'.cf .accountStorage = b.cf .accountStorage)
    (addr : Address) (slot : H256) : storageGet b' addr slot = storageGet b addr slot := by
  rw [storageGet, Backend.get, h, storageGet, Backend.get]

lemma storageGet_applySlots (b : Backend) (account : Address) (slots : List (U256 × StorageSlot))
    (addr : Address) (slot : H256) :
    storageGet (applySlots b account slots) addr slot =
      slotAfter (accountWrites account slots) addr slot (storageGet b addr slot) := by
  unfold applySlots
  induction slots generalizing b with
  | nil => rfl
  | cons s _ ih =>
    rw [foldl_cons, ih]
    by_cases hsm : s.2.originalValue = s.2.presentValue
    · simp [accountWrites, hsm]
    · rw [if_neg hsm, storageGet_storagePut b ⟨account, _, _⟩]
      simp [accountWrites, hsm, slotAfter]

section History

variable {c : Crypto} {revm : Revm} {b : Backend}

lemma storageGet_applyAccount (account : Address) (old : Account) (acc : RevmAccount)
    (addr : Address) (slot : H256) : storageGet (applyAccount c b account old acc) addr slot =
      slotAfter (accountWrites account acc.storage) addr slot (storageGet b addr slot) := by
  rw [applyAccount, storageGet_applySlots]
  congr 1
  refine storageGet_of_cf_eq ?_ addr slot
  cases acc.info.code with
  | none => exact cf_put_ne (by decide)
  | some =>
    dsimp only
    split_ifs
    · exact cf_put_ne (by decide)
    · exact (cf_put_ne (by decide)).trans (cf_put_ne (by decide))

lemma storageGet_applyDiff (hok : StateOk b) (entries : List (Address × RevmAccount))
    (addr : Address) (slot : H256) : storageGet (applyDiff c b entries).1 addr slot =
      slotAfter (slotWrites entries) addr slot (storageGet b addr slot) := by
  induction entries generalizing b with
  | nil => rfl
  | cons e rest ih =>
    obtain ⟨old, heq, hsp⟩ := applyDiff_cons (c := c) hok e rest
    rw [heq, ih hsp, storageGet_applyAccount, ← slotAfter_append]
    rfl

variable (c revm) in
def world (b : Backend) (envs : List TxEnv) : Backend :=
  envs.foldl (fun b env => (executeWithRevm c revm b env).1) b

variable (c revm) in
/-- The accounts that the machine says are changed. -/
def txDiff (b : Backend) (env : TxEnv) : List (Address × RevmAccount) :=
  match revm (RevmDb.new c b) env with
  | .error _ => []
  | .ok out => out.state.entries

variable (c revm) in
def worldDiff : Backend → List TxEnv → List (Address × RevmAccount)
  | _, [] => []
  | b, env :: envs => txDiff c revm b env ++ worldDiff (executeWithRevm c revm b env).1 envs

lemma executeWithRevm_fst (env : TxEnv) : (executeWithRevm c revm b env).1 =
    match revm (RevmDb.new c b) env with
    | .error _ => b
    | .ok out => (applyDiff c b out.state.entries).1 := by
  unfold executeWithRevm
  cases revm (RevmDb.new c b) env with
  | error => rfl
  | ok => grind

/-- Records stay readable and under address hashes. -/
structure Records (b : Backend) : Prop where
  readable : StateOk b
  hashed : AddressHashed b

lemma Records.applyDiff (h : Records b) (entries : List (Address × RevmAccount)) :
    Records (applyDiff c b entries).1 := by
  induction entries generalizing b with
  | nil => exact h
  | cons e _ ih =>
    rw [Node.applyDiff]
    split
    · exact h
    · refine ih ⟨StateOk.of_cf_eq (h.readable.setAccount e.1 _) (applyAccount_cf b e.1 _ e.2), ?_⟩
      intro k v hv
      rw [Backend.get, applyAccount_cf] at hv
      exact h.hashed.setAccount e.1 _ k v hv

lemma Records.executeWithRevm (h : Records b) (env : TxEnv) :
    Records (executeWithRevm c revm b env).1 := by
  rw [executeWithRevm_fst]
  split
  · exact h
  · exact h.applyDiff _

lemma Records.world (h : Records b) (envs : List TxEnv) : Records (world c revm b envs) := by
  induction envs generalizing b with
  | nil => exact h
  | cons env _ ih => exact ih (h.executeWithRevm env)

lemma executeWithRevm_txDiff (env : TxEnv) :
    (executeWithRevm c revm b env).1 = (applyDiff c b (txDiff c revm b env)).1 := by
  rw [executeWithRevm_fst, txDiff]
  cases revm (RevmDb.new c b) env <;> rfl

lemma storageGet_world (h : Records b) (envs : List TxEnv) (addr : Address) (slot : H256) :
    storageGet (world c revm b envs) addr slot =
      slotAfter (slotWrites (worldDiff c revm b envs)) addr slot (storageGet b addr slot) := by
  induction envs generalizing b with
  | nil => rfl
  | cons env _ ih =>
    rw [worldDiff, slotWrites, flatMap_append, ← slotWrites, ← slotWrites, slotAfter_append,
      ← storageGet_applyDiff h.readable, ← executeWithRevm_txDiff]
    exact ih (h.executeWithRevm env)

/-- The record under `k` after the changed accounts. -/
def recordAfter (c : Crypto) (entries : List (Address × RevmAccount)) (k : Bytes)
    (old : Option Account) : Option Account :=
  entries.foldl (fun old e =>
    if key c e.1 = k then
      some { old.getD .EMPTY with
        nonce := e.2.info.nonce, balance := e.2.info.balance, codeHash := e.2.info.codeHash }
    else old) old

lemma recordAfter_append (entries entries' : List (Address × RevmAccount)) (k : Bytes)
    (old : Option Account) :
    recordAfter c (entries ++ entries') k old =
      recordAfter c entries' k (recordAfter c entries k old) :=
  foldl_append

lemma account_eq_recordAt (h : StateOk b) (addr : Address) :
    account c b addr = .ok (recordAt b (key c addr)) := by
  obtain ⟨acc?, hacc⟩ := h.account (c := c) addr
  rw [hacc]
  rw [account] at hacc
  rw [recordAt]
  cases hget : b.get .state (key c addr) with
  | none => simpa [hget] using hacc.symm
  | some record =>
    rw [hget] at hacc
    cases hread : readRecord record with
    | error => simp [hread, Except.map] at hacc
    | ok acc => simp [hread, Except.map] at hacc; simp [hread, ← hacc, Except.toOption]

lemma recordAt_applyAccount (addr : Address) (old : Account) (acc : RevmAccount) (k : Bytes) :
    recordAt (applyAccount c b addr old acc) k = if key c addr = k then
        some { old with
          nonce := acc.info.nonce, balance := acc.info.balance, codeHash := acc.info.codeHash }
      else recordAt b k := by
  rw [recordAt, Backend.get, applyAccount_cf, ← Backend.get, setAccount]
  split_ifs with hkey
  · rw [hkey, get_put_self]
    simp [readRecord_encode, Except.toOption]
  · rw [get_put_ne fun _ => Ne.symm hkey, recordAt]

lemma recordAt_applyDiff (hok : StateOk b) (entries : List (Address × RevmAccount)) (k : Bytes) :
    recordAt (applyDiff c b entries).1 k = recordAfter c entries k (recordAt b k) := by
  induction entries generalizing b with
  | nil => rfl
  | cons e rest ih =>
    have hnext := StateOk.of_cf_eq (hok.setAccount (c := c) e.1 _)
      (applyAccount_cf b e.1 ((recordAt b (key c e.1)).getD .EMPTY) e.2)
    rw [Node.applyDiff, account_eq_recordAt hok]
    dsimp only
    rw [ih hnext, recordAt_applyAccount, recordAfter, recordAfter, foldl_cons]
    congr 1
    split_ifs with hkey
    · rw [hkey]
    · rfl

lemma recordAt_world (h : Records b) (envs : List TxEnv) (k : Bytes) :
    recordAt (world c revm b envs) k =
      recordAfter c (worldDiff c revm b envs) k (recordAt b k) := by
  induction envs generalizing b with
  | nil => rfl
  | cons env _ ih =>
    rw [worldDiff, recordAfter_append, ← recordAt_applyDiff h.readable, ← executeWithRevm_txDiff]
    exact ih (h.executeWithRevm env)

lemma stateRoot_eq_iff {b b' : Backend} (hem : c.keccak256 [0x80] = EMPTY_TRIE_HASH)
    (hcf : CollisionFree c (stateMap b) (stateMap b')) (h : Records b) (h' : Records b') :
    stateRoot c b = stateRoot c b' ↔ ∀ k, recordAt b k = recordAt b' k := by
  obtain ⟨pairs, hps⟩ := h.readable.rootPairs
  obtain ⟨pairs', hps'⟩ := h'.readable.rootPairs
  have hrt : stateRoot c b = .ok (mptRoot c pairs) := by
    rw [stateRoot, hps]
    rfl
  have hrt' : stateRoot c b' = .ok (mptRoot c pairs') := by
    rw [stateRoot, hps']
    rfl
  constructor
  · intro heq
    exact stateRoot_inj hem hcf h.hashed h'.hashed hrt (heq ▸ hrt)
  · intro ha
    have hm : stateMap b = stateMap b' := by
      funext k
      rw [stateMap, ha k, stateMap]
    have hls := mptRoot_isRoot (lists_rootPairs hps) hem
    have hls' := mptRoot_isRoot (lists_rootPairs hps') hem
    rw [hrt, hrt', hls.unique (hm ▸ hls')]

/-- The diffs leave every account with the same nonce, balance and code
hash, and some slot with different values. -/
def SlotsOnly (c : Crypto) (b : Backend) (diff diff' : List (Address × RevmAccount)) : Prop :=
  (∀ k, recordAfter c diff k (recordAt b k) = recordAfter c diff' k (recordAt b k)) ∧
    ∃ addr slot, slotAfter (slotWrites diff) addr slot (storageGet b addr slot) ≠
      slotAfter (slotWrites diff') addr slot (storageGet b addr slot)

end History

/-- A machine whose only contract stores its call data in slot 0 and
whose accounts pay no fee. An account may call itself. -/
def slotWriter : Revm := fun db env =>
  match env.transactTo with
  | none => .error "only calls"
  | some contract =>
    let sender := { db.info env.caller with nonce := db.nonce env.caller + 1 }
    let slots := [(0, ⟨db.storage contract 0, BitVec.ofNat 256 (ofBe env.data)⟩)]
    let result := .success 21000 [] (.call [])
    if h : env.caller = contract then
      .ok ⟨result, ⟨[(contract, ⟨sender, slots, .called⟩)], nodup_singleton _⟩⟩
    else
      .ok ⟨result, ⟨[(env.caller, ⟨sender, [], .called⟩),
        (contract, ⟨db.info contract, slots, .called⟩)], by simpa using h⟩⟩

def storeCall (caller contract : Address) (byte : UInt8) : TxEnv :=
  txEnv caller (some contract) 0 [byte] 100000 0

def alice : Address := arrOfNat 20 1

def vault : Address := arrOfNat 20 2

def twoStores (first : UInt8) : List TxEnv := [storeCall alice alice first, storeCall alice alice 1]

end Aii.Node
