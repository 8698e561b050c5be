/-
Aii.Chain.Tx — transactions and their wire form (`aii-block/src/tx`).

Inside a block body a typed transaction is wrapped once more as an RLP
string (`Tx.encode`).
-/
import Aii.Common.Rlp
import Aii.Crypto

namespace Aii.Chain

open Common Common.Rlp

inductive AlgoId where
  | secp256k1
  | ed25519
  | bls12381
  | mlDsa65
  | slhDsa128s
  | falcon512
  | hybridSecpMlDsa
  deriving DecidableEq

def AlgoId.asByte : AlgoId → UInt8
  | .secp256k1 => 0x01
  | .ed25519 => 0x02
  | .bls12381 => 0x03
  | .mlDsa65 => 0x10
  | .slhDsa128s => 0x11
  | .falcon512 => 0x12
  | .hybridSecpMlDsa => 0x20

def AlgoId.fromByte (b : UInt8) : Option AlgoId :=
  if b = 0x01 then some .secp256k1
  else if b = 0x02 then some .ed25519
  else if b = 0x03 then some .bls12381
  else if b = 0x10 then some .mlDsa65
  else if b = 0x11 then some .slhDsa128s
  else if b = 0x12 then some .falcon512
  else if b = 0x20 then some .hybridSecpMlDsa
  else none

structure AccessListItem where
  address : Address
  storageKeys : List H256
  deriving DecidableEq

def AccessListItem.encode (a : AccessListItem) : Bytes :=
  encodeList (encodeString a.address.toList ++
    encodeList (a.storageKeys.flatMap fun k => encodeString k.toList))

def AccessListItem.decode : Decoder AccessListItem :=
  decodeStruct do
    let address ← decodeArr 20
    let storageKeys ← decodeVec (decodeArr 32)
    pure { address, storageKeys }

/-- `encode_to`: an absent destination is the empty string. -/
def encodeTo : Option Address → Bytes
  | some a => encodeString a.toList
  | none => [0x80]

def decodeTo : Decoder (Option Address) := do
  let b ← decodeString
  if b.isEmpty then pure none
  else match arr? 20 b with
    | none => Decoder.fail .unexpectedLength
    | some a => pure (some a)

/-- `decode_h256_loose`: at most 32 bytes, left-padded. -/
def decodeH256Loose : Decoder H256 := do
  let n ← decodeLoose 32
  pure (arrOfNat 32 n)

/-- The trailing algorithm byte, absent for the default. -/
def encodeAlgo (algoId : AlgoId) : Bytes :=
  if algoId ≠ .secp256k1 then encodeU8 algoId.asByte else []

/-- Read the algorithm byte if the list is not used up. -/
def decodeAlgo (startedLen payloadLength : Nat) : Decoder AlgoId := do
  let left ← Decoder.remaining
  if startedLen - left < payloadLength then do
    let b ← decodeU8
    match AlgoId.fromByte b with
    | none => Decoder.fail (.custom "invalid algo_id")
    | some a => pure a
  else pure .secp256k1

structure TxLegacy where
  nonce : UInt64
  gasPrice : U256
  gasLimit : UInt64
  toAddr : Option Address
  value : U256
  data : Bytes
  v : UInt64
  r : H256
  s : H256
  algoId : AlgoId
  deriving DecidableEq

structure TxEip1559 where
  chainId : UInt64
  nonce : UInt64
  maxPriorityFeePerGas : U256
  maxFeePerGas : U256
  gasLimit : UInt64
  toAddr : Option Address
  value : U256
  data : Bytes
  accessList : List AccessListItem
  v : UInt8
  r : H256
  s : H256
  algoId : AlgoId
  deriving DecidableEq

structure TxEip4844 where
  chainId : UInt64
  nonce : UInt64
  maxPriorityFeePerGas : U256
  maxFeePerGas : U256
  gasLimit : UInt64
  toAddr : Address
  value : U256
  data : Bytes
  accessList : List AccessListItem
  maxFeePerBlobGas : U256
  blobVersionedHashes : List H256
  v : UInt8
  r : H256
  s : H256
  algoId : AlgoId
  deriving DecidableEq

/-- The six fields both legacy signing hashes start with. -/
def TxLegacy.core (t : TxLegacy) : Bytes :=
  encodeU64 t.nonce ++ encodeU256 t.gasPrice ++ encodeU64 t.gasLimit ++ encodeTo t.toAddr ++
    encodeU256 t.value ++ encodeString t.data

def TxLegacy.encode (t : TxLegacy) : Bytes :=
  encodeList (t.core ++ encodeU64 t.v ++ encodeString t.r.toList ++ encodeString t.s.toList ++
    encodeAlgo t.algoId)

/-- The nine fields the EIP-1559 signing hash covers. -/
def TxEip1559.core (t : TxEip1559) : Bytes :=
  encodeU64 t.chainId ++ encodeU64 t.nonce ++ encodeU256 t.maxPriorityFeePerGas ++
    encodeU256 t.maxFeePerGas ++ encodeU64 t.gasLimit ++ encodeTo t.toAddr ++ encodeU256 t.value ++
    encodeString t.data ++ encodeList (t.accessList.flatMap AccessListItem.encode)

def TxEip1559.encode (t : TxEip1559) : Bytes :=
  encodeList (t.core ++ encodeU8 t.v ++ encodeString t.r.toList ++ encodeString t.s.toList ++
    encodeAlgo t.algoId)

def TxEip4844.encode (t : TxEip4844) : Bytes :=
  encodeList (encodeU64 t.chainId ++ encodeU64 t.nonce ++ encodeU256 t.maxPriorityFeePerGas ++
    encodeU256 t.maxFeePerGas ++ encodeU64 t.gasLimit ++ encodeString t.toAddr.toList ++
    encodeU256 t.value ++ encodeString t.data ++
    encodeList (t.accessList.flatMap AccessListItem.encode) ++ encodeU256 t.maxFeePerBlobGas ++
    encodeList (t.blobVersionedHashes.flatMap fun h => encodeString h.toList) ++
    encodeU8 t.v ++ encodeString t.r.toList ++ encodeString t.s.toList ++ encodeAlgo t.algoId)

def TxLegacy.decode : Decoder TxLegacy := do
  let len ← decodeListHeader
  let started ← Decoder.remaining
  let nonce ← decodeU64
  let gasPrice ← decodeU256
  let gasLimit ← decodeU64
  let toAddr ← decodeTo
  let value ← decodeU256
  let data ← decodeString
  let v ← decodeU64
  let r ← decodeH256Loose
  let s ← decodeH256Loose
  let algoId ← decodeAlgo started len
  pure { nonce, gasPrice, gasLimit, toAddr, value, data, v, r, s, algoId }

def TxEip1559.decode : Decoder TxEip1559 := do
  let len ← decodeListHeader
  let started ← Decoder.remaining
  let chainId ← decodeU64
  let nonce ← decodeU64
  let maxPriorityFeePerGas ← decodeU256
  let maxFeePerGas ← decodeU256
  let gasLimit ← decodeU64
  let toAddr ← decodeTo
  let value ← decodeU256
  let data ← decodeString
  let alLen ← decodeListHeader
  let accessList ← decodeItems AccessListItem.decode alLen
  let v ← decodeU8
  let r ← decodeH256Loose
  let s ← decodeH256Loose
  let algoId ← decodeAlgo started len
  pure { chainId, nonce, maxPriorityFeePerGas, maxFeePerGas, gasLimit, toAddr, value, data,
         accessList, v, r, s, algoId }

/-- As in the source, the two inner headers are not checked to be lists. -/
def TxEip4844.decode : Decoder TxEip4844 := do
  let len ← decodeListHeader
  let started ← Decoder.remaining
  let chainId ← decodeU64
  let nonce ← decodeU64
  let maxPriorityFeePerGas ← decodeU256
  let maxFeePerGas ← decodeU256
  let gasLimit ← decodeU64
  let toAddr ← decodeArr 20
  let value ← decodeU256
  let data ← decodeString
  let alHeader ← decodeHeader
  let accessList ← decodeItems AccessListItem.decode alHeader.2
  let maxFeePerBlobGas ← decodeU256
  let bvhHeader ← decodeHeader
  let blobVersionedHashes ← decodeItems decodeH256Loose bvhHeader.2
  let v ← decodeU8
  let r ← decodeH256Loose
  let s ← decodeH256Loose
  let algoId ← decodeAlgo started len
  pure { chainId, nonce, maxPriorityFeePerGas, maxFeePerGas, gasLimit, toAddr, value, data,
         accessList, maxFeePerBlobGas, blobVersionedHashes, v, r, s, algoId }

inductive TxType where
  | legacy
  | eip1559
  | eip4844
  deriving DecidableEq

inductive Tx where
  | legacy (t : TxLegacy)
  | eip1559 (t : TxEip1559)
  | eip4844 (t : TxEip4844)
  deriving DecidableEq

def Tx.ty : Tx → TxType
  | .legacy _ => .legacy
  | .eip1559 _ => .eip1559
  | .eip4844 _ => .eip4844

def Tx.nonce : Tx → UInt64
  | .legacy t => t.nonce
  | .eip1559 t => t.nonce
  | .eip4844 t => t.nonce

def Tx.encode2718 : Tx → Bytes
  | .legacy t => t.encode
  | .eip1559 t => 0x02 :: t.encode
  | .eip4844 t => 0x03 :: t.encode

/-- `<Tx as Encodable>::encode`, the form inside a body. -/
def Tx.encode : Tx → Bytes
  | .legacy t => t.encode
  | .eip1559 t => encodeString (0x02 :: t.encode)
  | .eip4844 t => encodeString (0x03 :: t.encode)

def Tx.decode2718 : Decoder Tx := fun buf =>
  match buf with
  | [] => .error .inputTooShort
  | first :: rest =>
    if 0xC0 ≤ first then (TxLegacy.decode >>= fun t => pure (Tx.legacy t)) buf
    else if first = 0x02 then (TxEip1559.decode >>= fun t => pure (Tx.eip1559 t)) rest
    else if first = 0x03 then (TxEip4844.decode >>= fun t => pure (Tx.eip4844 t)) rest
    else .error (.custom "unknown EIP-2718 type byte")

/-- `<Tx as Decodable>::decode`. What follows the transaction inside its
string wrapper is ignored, as in the source. -/
def Tx.decode : Decoder Tx := fun buf =>
  match buf with
  | [] => .error .inputTooShort
  | first :: _ =>
    if 0xC0 ≤ first then (TxLegacy.decode >>= fun t => pure (Tx.legacy t)) buf
    else
      match decodeString buf with
      | .error e => .error e
      | .ok (payload, rest) =>
        if payload.isEmpty then .error .inputTooShort
        else
          match Tx.decode2718 payload with
          | .error e => .error e
          | .ok (t, _) => .ok (t, rest)

def Tx.hash (c : Crypto) (t : Tx) : H256 := c.keccak256 t.encode2718

def recoverFromRs (c : Crypto) (recid : UInt8) (r s hash : H256) : Option Address :=
  (c.secpRecover ⟨r.toList ++ s.toList ++ [recid], by simp⟩ hash).map c.addressOf

/-- `recover_legacy`: the pre-EIP-155 form for `v ∈ {27, 28}`, the
EIP-155 form for `v = 2 * chain_id + 35 + recid`. -/
def TxLegacy.recover (c : Crypto) (t : TxLegacy) (chainId : UInt64) : Option Address :=
  if t.algoId ≠ .secp256k1 then none
  else if t.v = 27 ∨ t.v = 28 then
    recoverFromRs c (UInt8.ofNat (t.v.toNat - 27)) t.r t.s (c.keccak256 (encodeList t.core))
  else if 35 ≤ t.v then
    let base := 2 * chainId.toNat + 35
    if 2 ^ 64 ≤ base ∨ t.v.toNat < base ∨ 1 < t.v.toNat - base then none
    else
      recoverFromRs c (UInt8.ofNat (t.v.toNat - base)) t.r t.s
        (c.keccak256 (encodeList (t.core ++ encodeU64 chainId ++ encodeU256 0 ++ encodeU256 0)))
  else none

/-- `recover_eip1559`. -/
def TxEip1559.recover (c : Crypto) (t : TxEip1559) : Option Address :=
  if t.algoId ≠ .secp256k1 then none
  else if 1 < t.v then none
  else recoverFromRs c t.v t.r t.s (c.keccak256 (0x02 :: encodeList t.core))

/-- `Tx::recover_signer`; blob transactions are not supported. -/
def Tx.recoverSigner (c : Crypto) (t : Tx) (chainId : UInt64) : Option Address :=
  match t with
  | .legacy t => t.recover c chainId
  | .eip1559 t => t.recover c
  | .eip4844 _ => none

end Aii.Chain
