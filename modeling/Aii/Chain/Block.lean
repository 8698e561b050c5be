/-
Aii.Chain.Block — headers, bodies, blocks and receipts
(`aii-block/src/{header,body,block,receipt,log,bloom,withdrawal}.rs`).

What the decoders do not check (the outer length of a body) is reproduced
as written.
-/
import Aii.Chain.Tx

namespace Aii.Chain

open Common Common.Rlp List

def EMPTY_LIST_HASH : H256 :=
  arrOfNat 32 0x1dcc4de8dec75d7aab85b567b6ccd41ad312451b948a7413f0a142fd40d49347

def EMPTY_TRIE_HASH : H256 :=
  arrOfNat 32 0x56e81f171bcc55a6ff8345e692c0f86e5b48e01b996cadc001622fb5e363b421

abbrev Bloom := Arr 256

/-- Set the bit `bitIndex` counts from the end of the array. -/
def Bloom.setBit (b : Bloom) (bitIndex : Nat) : Bloom :=
  ⟨b.toList.modify (255 - bitIndex / 8) fun x => x ||| UInt8.ofNat (2 ^ (bitIndex % 8)), by simp⟩

/-- `Bloom::accrue`: three bits taken from the hash of `data`. -/
def Bloom.accrue (c : Crypto) (b : Bloom) (data : Bytes) : Bloom :=
  let h := (c.keccak256 data).toList
  [0, 2, 4].foldl (fun b i => Bloom.setBit b (ofBe ((h.drop i).take 2) % 2048)) b

structure Header where
  parentHash : H256
  ommersHash : H256
  beneficiary : Address
  stateRoot : H256
  transactionsRoot : H256
  receiptsRoot : H256
  logsBloom : Bloom
  difficulty : U256
  number : UInt64
  gasLimit : UInt64
  gasUsed : UInt64
  timestamp : UInt64
  extraData : Bytes
  mixHash : H256
  nonce : Arr 8
  baseFeePerGas : U256
  withdrawalsRoot : H256
  blobGasUsed : Option UInt64
  excessBlobGas : Option UInt64
  parentBeaconBlockRoot : Option H256
  deriving DecidableEq

open Header

namespace Header

/-- The fields after `beneficiary`. -/
def tail (h : Header) : Bytes :=
  [encodeString h.stateRoot.toList, encodeString h.transactionsRoot.toList,
    encodeString h.receiptsRoot.toList, encodeString h.logsBloom.toList,
    encodeU256 h.difficulty, encodeU64 h.number, encodeU64 h.gasLimit,
    encodeU64 h.gasUsed, encodeU64 h.timestamp, encodeString h.extraData,
    encodeString h.mixHash.toList, encodeString h.nonce.toList, encodeU256 h.baseFeePerGas,
    encodeString h.withdrawalsRoot.toList,
    h.blobGasUsed.elim [] encodeU64, h.excessBlobGas.elim [] encodeU64,
    h.parentBeaconBlockRoot.elim [] fun x => encodeString x.toList].flatten

def payload (h : Header) : Bytes :=
  encodeString h.parentHash.toList ++ (encodeString h.ommersHash.toList ++
    (encodeString h.beneficiary.toList ++ h.tail))

def encode (h : Header) : Bytes := encodeList h.payload

def decodeOptional {α : Type} (started len : Nat) (field : Decoder α) : Decoder (Option α) := do
  let left ← Decoder.remaining
  if started - left < len then do
    let x ← field
    pure (some x)
  else pure none

def decode : Decoder Header := do
  let len ← decodeListHeader
  let started ← Decoder.remaining
  let parentHash ← decodeArr 32
  let ommersHash ← decodeArr 32
  let beneficiary ← decodeArr 20
  let stateRoot ← decodeArr 32
  let transactionsRoot ← decodeArr 32
  let receiptsRoot ← decodeArr 32
  let logsBloom ← decodeArr 256
  let difficulty ← decodeU256
  let number ← decodeU64
  let gasLimit ← decodeU64
  let gasUsed ← decodeU64
  let timestamp ← decodeU64
  let extraData ← decodeString
  if 32 < extraData.length then Decoder.fail (.custom "extra_data > 32")
  else do
    let mixHash ← decodeArr 32
    let nonce ← decodeArr 8
    let baseFeePerGas ← decodeU256
    let withdrawalsRoot ← decodeArr 32
    let blobGasUsed ← decodeOptional started len decodeU64
    let excessBlobGas ← decodeOptional started len decodeU64
    let parentBeaconBlockRoot ← decodeOptional started len (decodeArr 32)
    pure { parentHash, ommersHash, beneficiary, stateRoot, transactionsRoot, receiptsRoot,
           logsBloom, difficulty, number, gasLimit, gasUsed, timestamp, extraData, mixHash,
           nonce, baseFeePerGas, withdrawalsRoot, blobGasUsed, excessBlobGas,
           parentBeaconBlockRoot }

def hash (c : Crypto) (h : Header) : H256 := c.keccak256 h.encode

end Header

structure Withdrawal where
  index : UInt64
  validatorIndex : UInt64
  address : Address
  amount : UInt64
  deriving DecidableEq

def Withdrawal.encode (w : Withdrawal) : Bytes :=
  encodeList (encodeU64 w.index ++ encodeU64 w.validatorIndex ++ encodeString w.address.toList ++
    encodeU64 w.amount)

def Withdrawal.decode : Decoder Withdrawal :=
  decodeStruct do
    let index ← decodeU64
    let validatorIndex ← decodeU64
    let address ← decodeArr 20
    let amount ← decodeU64
    pure { index, validatorIndex, address, amount }

structure BlockBody where
  transactions : List Tx
  ommers : List Header
  withdrawals : List Withdrawal
  deriving DecidableEq

/-- `BlockBody::default()`. -/
def BlockBody.empty : BlockBody := ⟨[], [], []⟩

def BlockBody.encode (b : BlockBody) : Bytes :=
  encodeList (encodeList (b.transactions.flatMap Tx.encode) ++
    encodeList (b.ommers.flatMap Header.encode) ++
    encodeList (b.withdrawals.flatMap Withdrawal.encode))

def BlockBody.decode : Decoder BlockBody := do
  let _ ← decodeListHeader
  let txsH ← decodeHeader
  let transactions ← decodeItems Tx.decode txsH.2
  let ommH ← decodeHeader
  let ommers ← decodeItems Header.decode ommH.2
  let wH ← decodeHeader
  let withdrawals ← decodeItems Withdrawal.decode wH.2
  pure { transactions, ommers, withdrawals }

structure Block where
  header : Header
  body : BlockBody
  deriving DecidableEq

def Block.encode (b : Block) : Bytes := encodeList (b.header.encode ++ b.body.encode)

def Block.decode : Decoder Block := do
  let _ ← decodeListHeader
  let header ← Header.decode
  let body ← BlockBody.decode
  pure { header, body }

def Block.hash (c : Crypto) (b : Block) : H256 := b.header.hash c

structure Log where
  address : Address
  topics : List H256
  data : Bytes
  deriving DecidableEq

/-- The derived encoding: `data` is a `Vec<u8>`, which the library
encodes as a LIST of byte-sized integers. -/
def Log.encode (l : Log) : Bytes :=
  encodeList (encodeString l.address.toList ++
    encodeList (l.topics.flatMap fun t => encodeString t.toList) ++
    encodeList (l.data.flatMap encodeU8))

def Log.decode : Decoder Log :=
  decodeStruct do
    let address ← decodeArr 20
    let topics ← decodeVec (decodeArr 32)
    let data ← decodeVec decodeU8
    pure { address, topics, data }

structure Receipt where
  txType : TxType
  status : Bool
  cumulativeGasUsed : UInt64
  logsBloom : Bloom
  logs : List Log
  deriving DecidableEq

def Receipt.encodeInner (r : Receipt) : Bytes :=
  encodeList (encodeBool r.status ++ encodeU64 r.cumulativeGasUsed ++
    encodeString r.logsBloom.toList ++ encodeList (r.logs.flatMap Log.encode))

def Receipt.encode2718 (r : Receipt) : Bytes :=
  match r.txType with
  | .legacy => r.encodeInner
  | .eip1559 => 0x02 :: r.encodeInner
  | .eip4844 => 0x03 :: r.encodeInner

def Receipt.decodeInner (txType : TxType) : Decoder Receipt := do
  let _ ← decodeListHeader
  let status ← decodeBool
  let cumulativeGasUsed ← decodeU64
  let logsBloom ← decodeArr 256
  let logsLen ← decodeListHeader
  let logs ← decodeItems Log.decode logsLen
  pure { txType, status, cumulativeGasUsed, logsBloom, logs }

def Receipt.decode2718 : Decoder Receipt := fun buf =>
  match buf with
  | [] => .error .inputTooShort
  | first :: rest =>
    if 0xC0 ≤ first then Receipt.decodeInner .legacy buf
    else if first = 0x02 then Receipt.decodeInner .eip1559 rest
    else if first = 0x03 then Receipt.decodeInner .eip4844 rest
    else .error (.custom "unknown receipt envelope type")

variable {h h' h₁ h₂ : Header}

lemma Header.encode_beneficiary_inj (h : h₁.encode = h₂.encode) :
    h₁.beneficiary = h₂.beneficiary := by
  have hp := encodeList_inj h
  simp [payload] at hp
  obtain ⟨-, hp⟩ := encodeArr_append_inj (by decide) hp
  obtain ⟨-, hp⟩ := encodeArr_append_inj (by decide) hp
  exact (encodeArr_append_inj (by decide) hp).1

lemma Header.encode_number_inj (h : h₁.encode = h₂.encode) : h₁.number = h₂.number := by
  have hp := encodeList_inj h
  simp [payload, tail, flatten_cons] at hp
  iterate 7 obtain ⟨-, hp⟩ := encodeArr_append_inj (by decide) hp
  obtain ⟨-, hp⟩ := encodeU256_append_inj hp
  exact (encodeU64_append_inj hp).1

variable {rest : Bytes}

lemma Header.decode_append_number {more : Bytes}
    (hd : decode (h.encode ++ more) = .ok (h', rest)) : h'.number = h.number := by
  simp [decode, bind, Decoder.bind] at hd
  cases hls : decodeListHeader (h.encode ++ more) with
  | error => simp [hls] at hd
  | ok out =>
    obtain ⟨len, buf⟩ := out
    have hb := decodeListHeader_rest hls
    -- the fields up to the time stamp are read off; what follows may fail
    simp [hls, hb, payload, tail, Decoder.remaining, flatten_cons, append_assoc,
      decodeU64_encodeU64, decodeU256_encodeU256, decodeArr_encodeString] at hd
    generalize decodeString _ = extra at hd
    cases extra with
    | error => cases hd
    | ok out =>
      obtain ⟨extraData, buf'⟩ := out
      dsimp only at hd
      split_ifs at hd
      · cases hd
      · revert hd
        refine Decoder.Ensures.bind (P := fun x => x.number = h.number) ?_ buf' h' rest
        intro mixHash
        exact .bind fun _ => .bind fun _ => .bind fun _ => .bind fun _ => .bind fun _ =>
          .bind fun _ => .pure rfl

lemma Header.decode_number (hd : decode h.encode = .ok (h', rest)) :
    h'.number = h.number := by
  rw [← append_nil h.encode] at hd
  exact decode_append_number hd

lemma Block.decode_number {b b' : Block} (hd : Block.decode b.encode = .ok (b', rest)) :
    b'.header.number = b.header.number := by
  simp [Block.decode, bind, Decoder.bind] at hd
  cases hls : decodeListHeader b.encode with
  | error => simp [hls] at hd
  | ok out =>
    obtain ⟨len, buf⟩ := out
    have hb := decodeListHeader_rest (by rw [append_nil]; exact hls)
    rw [append_nil] at hb
    simp [hls, hb] at hd
    cases hhe : Header.decode (b.header.encode ++ b.body.encode) with
    | error => simp [hhe] at hd
    | ok out =>
      obtain ⟨header, buf'⟩ := out
      simp [hhe] at hd
      cases hby : BlockBody.decode buf' with
      | error => simp [hby] at hd
      | ok =>
        simp [hby, pure, Decoder.pure] at hd
        obtain ⟨rfl, -⟩ := hd
        exact Header.decode_append_number hhe

lemma referenceHash_stretch_inj {before mid mid' after : Bytes} (hl : mid'.length = mid.length)
    (hsh : mid.length ≤ 31) (h : referenceHash (encodeList (before ++ mid ++ after)) =
      referenceHash (encodeList (before ++ mid' ++ after))) : mid = mid' := by
  let x : Arr mid.length := ⟨mid, rfl⟩
  let y : Arr mid.length := ⟨mid', hl⟩
  have he : ∀ z : Arr mid.length, encodeList (before ++ z.toList ++ after) =
      (encodeHeader true (before ++ mid ++ after).length ++ before) ++ z.toList ++ after := by
    intro z
    have hlh : (before ++ z.toList ++ after).length = (before ++ mid ++ after).length := by
      simp
    rw [encodeList, hlh]
    simp
  have hhs : referenceHash (encodeList (before ++ x.toList ++ after)) =
      referenceHash (encodeList (before ++ y.toList ++ after)) := h
  rw [he x, he y] at hhs
  exact congrArg List.Vector.toList (referenceHash_middle_inj hsh hhs)

end Aii.Chain
