/-
Aii.Chain.RoundTrip — the codecs with the lengths the code computes.

The encoders add up the payload lengths by hand; `emit_eq` says that the
sums are right.
-/
import Aii.Chain.BlockCodec

namespace Aii.Chain

open Common Common.Rlp List Header Log BlockBody Receipt

/-! ## Lengths of fields -/

def u256Length (v : U256) : Nat := stringLength (stripZeros (toBe 32 v.toNat))

@[simp] lemma u256Length_eq (v : U256) : u256Length v = (encodeU256 v).length := stringLength_eq _

def encodedToLength : Option Address → Nat
  | some a => stringLength a.toList
  | none => 1

@[simp] lemma encodedToLength_eq (a : Option Address) :
    encodedToLength a = (encodeTo a).length := by
  cases a with
  | none => rfl
  | some => exact stringLength_eq _

def algoLength (algoId : AlgoId) : Nat :=
  if algoId ≠ .secp256k1 then u8Length algoId.asByte else 0

@[simp] lemma algoLength_eq (a : AlgoId) : algoLength a = (encodeAlgo a).length := by
  unfold algoLength encodeAlgo
  split_ifs
  · exact u8Length_eq _
  · rfl

/-- `items.iter().map(Encodable::length).sum()`. -/
def innerLength {α : Type} (length : α → Nat) (items : List α) : Nat := (items.map length).sum

lemma innerLength_eq {α : Type} {length : α → Nat} {enc : α → Bytes} {items : List α}
    (h : ∀ a ∈ items, length a = (enc a).length) :
    innerLength length items = (items.flatMap enc).length := by
  rw [innerLength, length_flatMap, map_congr_left h]

def hashesLength (hashes : List H256) : Nat :=
  innerLength (fun h => stringLength h.toList) hashes

@[simp] lemma hashesLength_eq (hashes : List H256) :
    hashesLength hashes = (hashes.flatMap fun h => encodeString h.toList).length :=
  innerLength_eq fun h _ => stringLength_eq h.toList

/-- The derived `AccessListItem::length`. -/
def AccessListItem.length (a : AccessListItem) : Nat :=
  listLength (stringLength a.address.toList + listLength (hashesLength a.storageKeys))

@[simp] lemma AccessListItem.length_eq (a : AccessListItem) : a.length = a.encode.length := by
  rw [AccessListItem.length, AccessListItem.encode, hashesLength_eq, listLength_eq,
    stringLength_eq, ← length_append, listLength_eq]

def accessListInner (items : List AccessListItem) : Nat := innerLength AccessListItem.length items

@[simp] lemma accessListInner_eq (items : List AccessListItem) :
    accessListInner items = (items.flatMap AccessListItem.encode).length :=
  innerLength_eq fun a _ => a.length_eq

lemma encodeHeader_append {len : Nat} {payload : Bytes} (h : len = payload.length) :
    encodeHeader true len ++ payload = encodeList payload := by
  rw [h, encodeList]

/-! ## Transactions -/

namespace TxLegacy

def payloadLength (t : TxLegacy) : Nat :=
  u64Length t.nonce + u256Length t.gasPrice + u64Length t.gasLimit + encodedToLength t.toAddr +
    u256Length t.value + stringLength t.data + u64Length t.v + stringLength t.r.toList +
    stringLength t.s.toList + algoLength t.algoId

/-- `TxLegacy::encode`. -/
def emit (t : TxLegacy) : Bytes :=
  encodeHeader true t.payloadLength ++
    (t.core ++ encodeU64 t.v ++ encodeString t.r.toList ++ encodeString t.s.toList ++
      encodeAlgo t.algoId)

def length (t : TxLegacy) : Nat := listLength t.payloadLength

lemma payloadLength_eq (t : TxLegacy) : t.payloadLength =
    (t.core ++ encodeU64 t.v ++ encodeString t.r.toList ++ encodeString t.s.toList ++
      encodeAlgo t.algoId).length := by
  simp [payloadLength, core, ← Nat.add_assoc]

lemma emit_eq (t : TxLegacy) : t.emit = t.encode := encodeHeader_append t.payloadLength_eq

lemma length_eq (t : TxLegacy) : t.length = t.emit.length := by
  rw [emit_eq, length, payloadLength_eq, listLength_eq, encode]

end TxLegacy

namespace TxEip1559

def payloadLength (t : TxEip1559) : Nat :=
  u64Length t.chainId + u64Length t.nonce + u256Length t.maxPriorityFeePerGas +
    u256Length t.maxFeePerGas + u64Length t.gasLimit + encodedToLength t.toAddr +
    u256Length t.value + stringLength t.data + listLength (accessListInner t.accessList) +
    u8Length t.v + stringLength t.r.toList + stringLength t.s.toList + algoLength t.algoId

/-- `TxEip1559::encode`. -/
def emit (t : TxEip1559) : Bytes :=
  encodeHeader true t.payloadLength ++
    (encodeU64 t.chainId ++ encodeU64 t.nonce ++ encodeU256 t.maxPriorityFeePerGas ++
      encodeU256 t.maxFeePerGas ++ encodeU64 t.gasLimit ++ encodeTo t.toAddr ++
      encodeU256 t.value ++ encodeString t.data ++
      (encodeHeader true (accessListInner t.accessList) ++
        t.accessList.flatMap AccessListItem.encode) ++
      encodeU8 t.v ++ encodeString t.r.toList ++ encodeString t.s.toList ++ encodeAlgo t.algoId)

def length (t : TxEip1559) : Nat := listLength t.payloadLength

lemma payloadLength_eq (t : TxEip1559) : t.payloadLength =
    (t.core ++ encodeU8 t.v ++ encodeString t.r.toList ++ encodeString t.s.toList ++
      encodeAlgo t.algoId).length := by
  simp [payloadLength, core, -length_flatMap, ← Nat.add_assoc]

lemma emit_eq (t : TxEip1559) : t.emit = t.encode := by
  rw [emit, encodeHeader_append (accessListInner_eq t.accessList)]
  exact encodeHeader_append t.payloadLength_eq

lemma length_eq (t : TxEip1559) : t.length = t.emit.length := by
  rw [emit_eq, length, payloadLength_eq, listLength_eq, encode]

end TxEip1559

namespace TxEip4844

def payloadLength (t : TxEip4844) : Nat :=
  u64Length t.chainId + u64Length t.nonce + u256Length t.maxPriorityFeePerGas +
    u256Length t.maxFeePerGas + u64Length t.gasLimit + stringLength t.toAddr.toList +
    u256Length t.value + stringLength t.data + listLength (accessListInner t.accessList) +
    u256Length t.maxFeePerBlobGas + listLength (hashesLength t.blobVersionedHashes) +
    u8Length t.v + stringLength t.r.toList + stringLength t.s.toList + algoLength t.algoId

/-- `TxEip4844::encode`. -/
def emit (t : TxEip4844) : Bytes :=
  encodeHeader true t.payloadLength ++
    (encodeU64 t.chainId ++ encodeU64 t.nonce ++ encodeU256 t.maxPriorityFeePerGas ++
      encodeU256 t.maxFeePerGas ++ encodeU64 t.gasLimit ++ encodeString t.toAddr.toList ++
      encodeU256 t.value ++ encodeString t.data ++
      (encodeHeader true (accessListInner t.accessList) ++
        t.accessList.flatMap AccessListItem.encode) ++
      encodeU256 t.maxFeePerBlobGas ++
      (encodeHeader true (hashesLength t.blobVersionedHashes) ++
        t.blobVersionedHashes.flatMap fun h => encodeString h.toList) ++
      encodeU8 t.v ++ encodeString t.r.toList ++ encodeString t.s.toList ++ encodeAlgo t.algoId)

def length (t : TxEip4844) : Nat := listLength t.payloadLength

lemma payload_spec (t : TxEip4844) : ∃ payload, t.encode = encodeList payload ∧
    t.payloadLength = payload.length ∧ t.emit = encodeHeader true t.payloadLength ++ payload := by
  refine ⟨_, rfl, ?_, ?_⟩
  · simp [payloadLength, -length_flatMap, ← Nat.add_assoc]
  · rw [emit, encodeHeader_append (accessListInner_eq t.accessList),
      encodeHeader_append (hashesLength_eq t.blobVersionedHashes)]

lemma emit_eq (t : TxEip4844) : t.emit = t.encode := by
  obtain ⟨payload, he, hl, hm⟩ := t.payload_spec
  rw [hm, he, encodeHeader_append hl]

lemma length_eq (t : TxEip4844) : t.length = t.emit.length := by
  obtain ⟨payload, he, hl, -⟩ := t.payload_spec
  rw [emit_eq, length, he, hl, listLength_eq]

end TxEip4844

namespace Tx

/-- `Tx::encode_2718`. -/
def emit2718 : Tx → Bytes
  | .legacy t => t.emit
  | .eip1559 t => 0x02 :: t.emit
  | .eip4844 t => 0x03 :: t.emit

/-- `<Tx as Encodable>::encode`. -/
def emit : Tx → Bytes
  | .legacy t => t.emit
  | .eip1559 t => encodeString (0x02 :: t.emit)
  | .eip4844 t => encodeString (0x03 :: t.emit)

def length : Tx → Nat
  | .legacy t => t.length
  | .eip1559 t => 1 + t.length + lengthOfLength (1 + t.length)
  | .eip4844 t => 1 + t.length + lengthOfLength (1 + t.length)

lemma emit2718_eq (t : Tx) : t.emit2718 = t.encode2718 := by
  cases t with
  | legacy t => exact t.emit_eq
  | eip1559 t | eip4844 t => rw [emit2718, t.emit_eq, encode2718]

lemma emit_eq (t : Tx) : t.emit = t.encode := by
  cases t with
  | legacy t => exact t.emit_eq
  | eip1559 t | eip4844 t => rw [emit, t.emit_eq, encode]

lemma wrapped_length {b : UInt8} {payload : Bytes} :
    (encodeString (b :: encodeList payload)).length =
      1 + (encodeList payload).length + lengthOfLength (1 + (encodeList payload).length) := by
  have hlg : (b :: encodeList payload).length ≠ 1 := by
    obtain ⟨x, _, hhd, -⟩ := encodeList_head payload
    simp [hhd]
  rw [encodeString_of_length hlg, length_append, encodeHeader_length_eq, length_cons,
    Nat.add_comm, Nat.add_comm 1]

lemma length_eq (t : Tx) : t.length = t.emit.length := by
  cases t with
  | legacy t => exact t.length_eq
  | eip1559 t =>
    rw [length, emit, t.length_eq, t.emit_eq, TxEip1559.encode, wrapped_length]
  | eip4844 t =>
    rw [length, emit, t.length_eq, t.emit_eq, TxEip4844.encode, wrapped_length]

end Tx

/-! ## Headers, bodies and blocks -/

namespace Header

def payloadLength (h : Header) : Nat :=
  stringLength h.parentHash.toList + stringLength h.ommersHash.toList +
    stringLength h.beneficiary.toList + stringLength h.stateRoot.toList +
    stringLength h.transactionsRoot.toList + stringLength h.receiptsRoot.toList +
    stringLength h.logsBloom.toList + u256Length h.difficulty + u64Length h.number +
    u64Length h.gasLimit + u64Length h.gasUsed + u64Length h.timestamp + stringLength h.extraData +
    stringLength h.mixHash.toList + stringLength h.nonce.toList + u256Length h.baseFeePerGas +
    stringLength h.withdrawalsRoot.toList +
    h.blobGasUsed.elim 0 u64Length + h.excessBlobGas.elim 0 u64Length +
    h.parentBeaconBlockRoot.elim 0 fun x => stringLength x.toList

/-- `Header::encode`. -/
def emit (h : Header) : Bytes := encodeHeader true h.payloadLength ++ h.payload

def length (h : Header) : Nat := listLength h.payloadLength

lemma elim_length {α : Type} {length : α → Nat} {enc : α → Bytes}
    (h : ∀ a, length a = (enc a).length) (o : Option α) :
    o.elim 0 length = (o.elim [] enc).length := by
  cases o with
  | none => rfl
  | some a => exact h a

lemma payloadLength_eq (h : Header) : h.payloadLength = h.payload.length := by
  rw [payloadLength, elim_length u64Length_eq, elim_length u64Length_eq,
    elim_length fun x : H256 => stringLength_eq x.toList]
  simp [payload, tail, Nat.add_assoc]

lemma emit_eq (h : Header) : h.emit = h.encode := encodeHeader_append h.payloadLength_eq

lemma length_eq (h : Header) : h.length = h.emit.length := by
  rw [emit_eq, length, payloadLength_eq, listLength_eq, encode]

end Header

/-- The derived `Withdrawal::length`. -/
def Withdrawal.length (w : Withdrawal) : Nat :=
  listLength (u64Length w.index + u64Length w.validatorIndex + stringLength w.address.toList +
    u64Length w.amount)

lemma Withdrawal.length_eq (w : Withdrawal) : w.length = w.encode.length := by
  simp only [Withdrawal.length, Withdrawal.encode, ← listLength_eq, u64Length_eq, stringLength_eq,
    length_append]

namespace BlockBody

def txsInner (b : BlockBody) : Nat := innerLength Tx.length b.transactions

def ommInner (b : BlockBody) : Nat := innerLength Header.length b.ommers

def wInner (b : BlockBody) : Nat := innerLength Withdrawal.length b.withdrawals

def payloadLength (b : BlockBody) : Nat :=
  listLength b.txsInner + listLength b.ommInner + listLength b.wInner

/-- `BlockBody::encode`. -/
def emit (b : BlockBody) : Bytes :=
  encodeHeader true b.payloadLength ++
    (encodeHeader true b.txsInner ++ b.transactions.flatMap Tx.emit ++
      (encodeHeader true b.ommInner ++ b.ommers.flatMap Header.emit) ++
      (encodeHeader true b.wInner ++ b.withdrawals.flatMap Withdrawal.encode))

def length (b : BlockBody) : Nat := listLength b.payloadLength

variable (b : BlockBody)

@[simp] lemma txsInner_eq : b.txsInner = (b.transactions.flatMap Tx.encode).length :=
  innerLength_eq fun t _ => by rw [t.length_eq, t.emit_eq]

@[simp] lemma ommInner_eq : b.ommInner = (b.ommers.flatMap Header.encode).length :=
  innerLength_eq fun o _ => by rw [o.length_eq, o.emit_eq]

@[simp] lemma wInner_eq : b.wInner = (b.withdrawals.flatMap Withdrawal.encode).length :=
  innerLength_eq fun w _ => w.length_eq

lemma payloadLength_eq : b.payloadLength =
    (encodeList (b.transactions.flatMap Tx.encode) ++ encodeList (b.ommers.flatMap Header.encode) ++
      encodeList (b.withdrawals.flatMap Withdrawal.encode)).length := by
  simp only [payloadLength, txsInner_eq, ommInner_eq, wInner_eq, listLength_eq, length_append]

lemma emit_eq : b.emit = b.encode := by
  rw [emit, funext Tx.emit_eq, funext Header.emit_eq, encodeHeader_append b.txsInner_eq,
    encodeHeader_append b.ommInner_eq, encodeHeader_append b.wInner_eq]
  exact encodeHeader_append b.payloadLength_eq

lemma length_eq : b.length = b.emit.length := by
  rw [emit_eq, length, payloadLength_eq, listLength_eq, encode]

end BlockBody

namespace Block

/-- `Block::encode`. -/
def emit (b : Block) : Bytes :=
  encodeHeader true (b.header.length + b.body.length) ++ (b.header.emit ++ b.body.emit)

def length (b : Block) : Nat := listLength (b.header.length + b.body.length)

lemma payloadLength_eq (b : Block) :
    b.header.length + b.body.length = (b.header.encode ++ b.body.encode).length := by
  rw [b.header.length_eq, b.body.length_eq, b.header.emit_eq, b.body.emit_eq, length_append]

lemma emit_eq (b : Block) : b.emit = b.encode := by
  rw [emit, b.header.emit_eq, b.body.emit_eq]
  exact encodeHeader_append b.payloadLength_eq

lemma length_eq (b : Block) : b.length = b.emit.length := by
  rw [emit_eq, length, payloadLength_eq, listLength_eq, encode]

end Block

/-! ## Receipts -/

/-- The derived `Log::length`. -/
def Log.length (l : Log) : Nat :=
  listLength (stringLength l.address.toList + listLength (hashesLength l.topics) +
    listLength (innerLength u8Length l.data))

lemma Log.length_eq (l : Log) : l.length = l.encode.length := by
  have hdt : innerLength u8Length l.data = (l.data.flatMap encodeU8).length :=
    innerLength_eq fun b _ => u8Length_eq b
  simp only [length, encode, hdt, hashesLength_eq, listLength_eq, stringLength_eq, ← length_append]

lemma Log.readsBack {l : Log} (h : l.encode.length < 2 ^ 64) :
    ReadsBack decode encode l where
  read rest := by
    have hl := payload_lt h
    have ht := length_le_encodeList (l.topics.flatMap fun t => encodeString t.toList)
    have hdt := length_le_encodeList (l.data.flatMap encodeU8)
    refine decodeStruct_encodeList ?_ hl
    simp at hl
    have hbe : ∀ b ∈ l.data, ReadsBack decodeU8 encodeU8 b := fun b _ =>
      ⟨decodeU8_encodeU8 b, Item.ne_nil (.string (by
        have hle := stripZeros_length_le (toBe 1 b.toNat)
        rw [toBe_length] at hle
        omega))⟩
    simp (disch := omega) [bind, Decoder.bind, append_assoc, decodeArr_encodeString,
      decodeVec_encodeList (fun k (_ : k ∈ l.topics) => hash_readsBack k), decodeVec_encodeList hbe]
    rfl
  ne_nil := encodeList_ne_nil h

namespace Receipt

def logsInner (r : Receipt) : Nat := innerLength Log.length r.logs

def payloadLength (r : Receipt) : Nat :=
  u8Length (if r.status then 1 else 0) + u64Length r.cumulativeGasUsed +
    stringLength r.logsBloom.toList + listLength r.logsInner

/-- `Receipt::encode_inner`. -/
def emitInner (r : Receipt) : Bytes :=
  encodeHeader true r.payloadLength ++
    (encodeBool r.status ++ encodeU64 r.cumulativeGasUsed ++ encodeString r.logsBloom.toList ++
      (encodeHeader true r.logsInner ++ r.logs.flatMap Log.encode))

/-- `Receipt::encode_2718`. -/
def emit2718 (r : Receipt) : Bytes :=
  match r.txType with
  | .legacy => r.emitInner
  | .eip1559 => 0x02 :: r.emitInner
  | .eip4844 => 0x03 :: r.emitInner

lemma logsInner_eq (r : Receipt) : r.logsInner = (r.logs.flatMap Log.encode).length :=
  innerLength_eq fun l _ => l.length_eq

lemma payloadLength_eq (r : Receipt) : r.payloadLength =
    (encodeBool r.status ++ encodeU64 r.cumulativeGasUsed ++ encodeString r.logsBloom.toList ++
      encodeList (r.logs.flatMap Log.encode)).length := by
  simp [payloadLength, logsInner_eq, encodeBool, -length_flatMap, ← Nat.add_assoc]

lemma emitInner_eq (r : Receipt) : r.emitInner = r.encodeInner := by
  rw [emitInner, encodeHeader_append r.logsInner_eq]
  exact encodeHeader_append r.payloadLength_eq

lemma emit2718_eq (r : Receipt) : r.emit2718 = r.encode2718 := by
  unfold emit2718 encode2718
  cases r.txType <;> simp [emitInner_eq]

lemma decodeInner_encodeInner {r : Receipt} (h : r.encodeInner.length < 2 ^ 64) (rest : Bytes) :
    decodeInner r.txType (r.encodeInner ++ rest) = .ok (r, rest) := by
  have hln := payload_lt h
  have hls := length_le_encodeList (r.logs.flatMap Log.encode)
  simp at hln
  have hlg : ∀ l ∈ r.logs, ReadsBack Log.decode encode l := fun l hl =>
    readsBack (Nat.lt_of_le_of_lt (length_le_flatMap hl) (by omega))
  simp only [decodeInner, encodeInner, bind, Decoder.bind,
    decodeListHeader_encodeList (payload_lt h)]
  simp (disch := omega) only [append_assoc, decodeBool_encodeBool, decodeU64_encodeU64,
    decodeArr_encodeString, decodeListHeader_encodeList, decodeItems_flatMap hlg]
  rfl

lemma decode2718_encode2718 {r : Receipt} (h : r.encode2718.length < 2 ^ 64) (rest : Bytes) :
    decode2718 (r.encode2718 ++ rest) = .ok (r, rest) := by
  obtain ⟨txType, status, gas, bloom, logs⟩ := r
  cases txType with
  | legacy =>
    have hread := decodeInner_encodeInner h rest
    obtain ⟨b, _, hhd, hb⟩ := encodeList_head (encodeBool status ++ encodeU64 gas ++
      encodeString bloom.toList ++ encodeList (logs.flatMap Log.encode))
    simp only [encode2718, encodeInner, hhd, cons_append] at hread ⊢
    simp [decode2718, if_pos (show (0xC0 : UInt8) ≤ b from UInt8.le_iff_toNat_le.mpr hb), hread]
  | eip1559 | eip4844 =>
    simp [encode2718] at h
    exact decodeInner_encodeInner (by omega) rest

end Receipt

/-! ## All codecs -/

/-- What is written for `x` is read in full, as `x`, and its length is the
one the code reports. -/
structure RoundTrips {α : Type} (decode : Decoder α) (emit : α → Bytes) (length : α → Nat)
    (x : α) : Prop where
  read : decode (emit x) = .ok (x, [])
  length : length x = (emit x).length

lemma Tx.roundTrips {t : Tx} (h : t.emit.length < 2 ^ 64) :
    RoundTrips decode emit length t where
  read := by
    rw [emit_eq] at h ⊢
    rw [← (readsBack h).read [], append_nil]
  length := t.length_eq

lemma Header.roundTrips {h : Header} (hc : h.Canonical) (hlt : h.emit.length < 2 ^ 64) :
    RoundTrips decode emit length h where
  read := by
    rw [emit_eq] at hlt ⊢
    rw [← (readsBack hc hlt).read [], append_nil]
  length := h.length_eq

lemma BlockBody.roundTrips {b : BlockBody} (hc : ∀ o ∈ b.ommers, o.Canonical)
    (h : b.emit.length < 2 ^ 64) :
    RoundTrips decode emit length b where
  read := by
    rw [emit_eq] at h ⊢
    rw [← decode_encode hc h [], append_nil]
  length := b.length_eq

lemma Block.roundTrips {b : Block} (hc : b.Canonical) (h : b.emit.length < 2 ^ 64) :
    RoundTrips decode emit length b where
  read := by
    rw [emit_eq] at h ⊢
    rw [← decode_encode hc h [], append_nil]
  length := b.length_eq

/-- **Every codec reads back what it writes**, at the length it reports. -/
theorem codecs_round_trip :
    (∀ t : Tx, t.emit.length < 2 ^ 64 → RoundTrips Tx.decode Tx.emit Tx.length t) ∧
    (∀ t : Tx, t.emit2718.length < 2 ^ 64 → Tx.decode2718 t.emit2718 = .ok (t, [])) ∧
    (∀ r : Receipt, r.emit2718.length < 2 ^ 64 → Receipt.decode2718 r.emit2718 = .ok (r, []) ∧
      r.emitInner.length = listLength r.payloadLength) ∧
    (∀ h : Header, h.Canonical → h.emit.length < 2 ^ 64 →
      RoundTrips Header.decode Header.emit Header.length h) ∧
    (∀ b : BlockBody, (∀ o ∈ b.ommers, o.Canonical) → b.emit.length < 2 ^ 64 →
      RoundTrips BlockBody.decode BlockBody.emit BlockBody.length b) ∧
    (∀ b : Block, b.Canonical → b.emit.length < 2 ^ 64 →
      RoundTrips Block.decode Block.emit Block.length b) := by
  refine ⟨fun t ht => Tx.roundTrips ht, fun t ht => ?_, fun r hr => ⟨?_, ?_⟩,
    fun h hc hlt => roundTrips hc hlt, fun b hc hlt => roundTrips hc hlt,
    fun b hc hlt => Block.roundTrips hc hlt⟩
  · rw [Tx.emit2718_eq] at ht ⊢
    exact Tx.decode2718_encode2718 ht
  · rw [emit2718_eq] at hr ⊢
    rw [← decode2718_encode2718 hr [], append_nil]
  · rw [emitInner_eq, Receipt.encodeInner, Receipt.payloadLength_eq, listLength_eq]

def plainHeader (blobGasUsed excessBlobGas : Option UInt64) : Header where
  parentHash := Arr.zero 32
  ommersHash := EMPTY_LIST_HASH
  beneficiary := Arr.zero 20
  stateRoot := EMPTY_TRIE_HASH
  transactionsRoot := EMPTY_TRIE_HASH
  receiptsRoot := EMPTY_TRIE_HASH
  logsBloom := Arr.zero 256
  difficulty := 0
  number := 1
  gasLimit := 30000000
  gasUsed := 0
  timestamp := 1700000000
  extraData := []
  mixHash := Arr.zero 32
  nonce := Arr.zero 8
  baseFeePerGas := 1000000000
  withdrawalsRoot := EMPTY_TRIE_HASH
  blobGasUsed := blobGasUsed
  excessBlobGas := excessBlobGas
  parentBeaconBlockRoot := none

theorem body_with_ommer_round_trips : RoundTrips BlockBody.decode BlockBody.emit BlockBody.length
      ⟨[], [plainHeader (some 0) (some 0)], []⟩ :=
  codecs_round_trip.2.2.2.2.1 _ (by decide) (by decide +kernel)

/-- An ommer with the second field and not the first is read with the
first and not the second. -/
theorem body_with_gap_misread :
    BlockBody.decode (BlockBody.emit ⟨[], [plainHeader none (some 7)], []⟩) =
        .ok (⟨[], [plainHeader (some 7) none], []⟩, []) ∧
      plainHeader none (some 7) ≠ plainHeader (some 7) none := by
  decide +kernel

end Aii.Chain
