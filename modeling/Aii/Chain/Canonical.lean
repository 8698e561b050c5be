/-
Aii.Chain.Canonical — which accepted bytes are reproduced.

The decoders accept more than the encoders write; the languages below are
what is written.
-/
import Aii.Chain.BlockCodec
import Aii.Common.WireLanguage

namespace Aii.Chain

open Common Common.Rlp List BlockBody

/-! ## The languages -/

namespace Wire

/-- An address, or nothing. -/
def destination : Language UInt8 := fixedItem 0 + fixedItem 20

def hashes : Language UInt8 := listItem (KStar.kstar (fixedItem 32))

def accessListItem : Language UInt8 := listItem (fixedItem 20 * hashes)

def accessList : Language UInt8 := listItem (KStar.kstar accessListItem)

/-- The algorithm slot: absent, or the byte of an algorithm other than the
default. -/
def algo : Language UInt8 :=
  {bytes : Bytes | bytes = [] ∨ ∃ b ∈ [0x02, 0x03, 0x10, 0x11, 0x12, 0x20], bytes = [b]}

def legacy : Language UInt8 :=
  listItem (uintItem 8 * uintItem 32 * uintItem 8 * destination * uintItem 32 *
    stringItem anyBytes * uintItem 8 * fixedItem 32 * fixedItem 32 * algo)

def eip1559 : Language UInt8 :=
  listItem (uintItem 8 * uintItem 8 * uintItem 32 * uintItem 32 * uintItem 8 * destination *
    uintItem 32 * stringItem anyBytes * accessList * uintItem 1 * fixedItem 32 * fixedItem 32 *
    algo)

def eip4844 : Language UInt8 :=
  listItem (uintItem 8 * uintItem 8 * uintItem 32 * uintItem 32 * uintItem 8 * fixedItem 20 *
    uintItem 32 * stringItem anyBytes * accessList * uintItem 32 * hashes * uintItem 1 *
    fixedItem 32 * fixedItem 32 * algo)

/-- A type byte and the transaction. -/
def typed (ty : UInt8) (L : Language UInt8) : Language UInt8 :=
  {bytes : Bytes | ∃ body ∈ L, ty :: body = bytes}

/-- The EIP-2718 form. -/
def tx2718 : Language UInt8 := legacy + typed 0x02 eip1559 + typed 0x03 eip4844

/-- The form inside a body: a typed transaction fills a string. -/
def tx : Language UInt8 :=
  legacy + stringItem (typed 0x02 eip1559) + stringItem (typed 0x03 eip4844)

/-- The optional fields are there up to some point. -/
def header : Language UInt8 :=
  listItem (fixedItem 32 * fixedItem 32 * fixedItem 20 * fixedItem 32 * fixedItem 32 *
    fixedItem 32 * fixedItem 256 * uintItem 32 * uintItem 8 * uintItem 8 * uintItem 8 *
    uintItem 8 * stringItem (upToLength 32) * fixedItem 32 * fixedItem 8 * uintItem 32 *
    fixedItem 32 * (1 + uintItem 8 * (1 + uintItem 8 * (1 + fixedItem 32))))

def withdrawal : Language UInt8 :=
  listItem (uintItem 8 * uintItem 8 * fixedItem 20 * uintItem 8)

def body : Language UInt8 :=
  listItem (listItem (KStar.kstar tx) * listItem (KStar.kstar header) *
    listItem (KStar.kstar withdrawal))

def block : Language UInt8 := listItem (header * body)

end Wire

open Wire

/-! ## What the encoders write -/

lemma writes_to : Writes always encodeTo destination := by
  intro bytes
  rw [destination, Language.mem_add]
  constructor
  · rintro (⟨content, hl, rfl⟩ | ⟨content, hl, rfl⟩)
    · rw [length_eq_zero_iff.mp hl]
      exact ⟨none, trivial, rfl⟩
    · exact ⟨some ⟨content, hl⟩, trivial, rfl⟩
  · rintro ⟨a, -, rfl⟩
    cases a with
    | none => exact .inl ⟨[], rfl, rfl⟩
    | some a => exact .inr ⟨a.toList, length_toList a, rfl⟩

lemma writes_algo : Writes always encodeAlgo algo := by
  intro bytes
  constructor
  · rintro (rfl | ⟨b, hb, rfl⟩)
    · exact ⟨.secp256k1, trivial, rfl⟩
    · simp only [mem_cons, not_mem_nil, or_false] at hb
      rcases hb with rfl | rfl | rfl | rfl | rfl | rfl
      · exact ⟨.ed25519, trivial, rfl⟩
      · exact ⟨.bls12381, trivial, rfl⟩
      · exact ⟨.mlDsa65, trivial, rfl⟩
      · exact ⟨.slhDsa128s, trivial, rfl⟩
      · exact ⟨.falcon512, trivial, rfl⟩
      · exact ⟨.hybridSecpMlDsa, trivial, rfl⟩
  · rintro ⟨a, -, rfl⟩
    cases a with
    | secp256k1 => exact .inl rfl
    | _ => exact .inr ⟨_, by decide, rfl⟩

lemma writes_hashes :
    Writes always (fun hs : List H256 => encodeList (hs.flatMap fun h => encodeString h.toList))
      hashes :=
  (writes_arr 32).kstar.listItem.map id (fun _ _ => trivial)
    (fun hs _ => ⟨hs, fun _ _ => trivial, rfl⟩) fun _ => rfl

lemma writes_accessListItem : Writes always AccessListItem.encode accessListItem :=
  ((writes_arr 20).mul writes_hashes).listItem.map (fun (address, storageKeys) =>
    { address, storageKeys }) (fun _ _ => trivial)
    (fun a _ => ⟨(a.address, a.storageKeys), ⟨trivial, trivial⟩, rfl⟩) fun _ => rfl

lemma writes_accessList :
    Writes always (fun l : List AccessListItem => encodeList (l.flatMap AccessListItem.encode))
      accessList :=
  writes_accessListItem.kstar.listItem.map id (fun _ _ => trivial)
    (fun l _ => ⟨l, fun _ _ => trivial, rfl⟩) fun _ => rfl

lemma writes_legacy : Writes always TxLegacy.encode legacy := by
  refine (((((((((writes_u64.mul writes_u256).mul writes_u64).mul writes_to).mul writes_u256).mul
    writes_bytes).mul writes_u64).mul (writes_arr 32)).mul (writes_arr 32)).mul
      writes_algo).listItem.map
    (fun (((((((((nonce, gasPrice), gasLimit), toAddr), value), data), v), r), s), algoId) =>
      { nonce, gasPrice, gasLimit, toAddr, value, data, v, r, s, algoId })
    (fun _ _ => trivial) (fun t _ => ?_) (fun x => ?_)
  · refine ⟨(((((((((_, _), _), _), _), _), _), _), _), _), ?_, rfl⟩
    simp [always]
  · simp only [TxLegacy.encode, TxLegacy.core]

lemma writes_eip1559 : Writes always TxEip1559.encode eip1559 := by
  refine ((((((((((((writes_u64.mul writes_u64).mul writes_u256).mul writes_u256).mul
    writes_u64).mul writes_to).mul writes_u256).mul writes_bytes).mul writes_accessList).mul
      writes_u8).mul (writes_arr 32)).mul (writes_arr 32)).mul writes_algo).listItem.map
    (fun ((((((((((((chainId, nonce), maxPriorityFeePerGas), maxFeePerGas), gasLimit), toAddr),
      value), data), accessList), v), r), s), algoId) =>
      { chainId, nonce, maxPriorityFeePerGas, maxFeePerGas, gasLimit, toAddr, value, data,
        accessList, v, r, s, algoId })
    (fun _ _ => trivial) (fun t _ => ?_) (fun x => ?_)
  · refine ⟨((((((((((((_, _), _), _), _), _), _), _), _), _), _), _), _), ?_, rfl⟩
    simp [always]
  · simp only [TxEip1559.encode, TxEip1559.core]

lemma writes_eip4844 : Writes always TxEip4844.encode eip4844 := by
  refine ((((((((((((((writes_u64.mul writes_u64).mul writes_u256).mul writes_u256).mul
    writes_u64).mul (writes_arr 20)).mul writes_u256).mul writes_bytes).mul
      writes_accessList).mul writes_u256).mul writes_hashes).mul writes_u8).mul
        (writes_arr 32)).mul (writes_arr 32)).mul writes_algo).listItem.map
    (fun ((((((((((((((chainId, nonce), maxPriorityFeePerGas), maxFeePerGas), gasLimit), toAddr),
      value), data), accessList), maxFeePerBlobGas), blobVersionedHashes), v), r), s), algoId) =>
      { chainId, nonce, maxPriorityFeePerGas, maxFeePerGas, gasLimit, toAddr, value, data,
        accessList, maxFeePerBlobGas, blobVersionedHashes, v, r, s, algoId })
    (fun _ _ => trivial) (fun t _ => ?_) (fun x => ?_)
  · refine ⟨((((((((((((((_, _), _), _), _), _), _), _), _), _), _), _), _), _), _), ?_, rfl⟩
    simp [always]
  · simp only [TxEip4844.encode]

lemma writes_typed {α : Type} {enc : α → Bytes} {L : Language UInt8} (ty : UInt8)
    (h : Writes always enc L) : Writes always (fun x => ty :: enc x) (typed ty L) := by
  intro bytes
  constructor
  · rintro ⟨body, hby, rfl⟩
    obtain ⟨x, hx, rfl⟩ := (h body).mp hby
    exact ⟨x, hx, rfl⟩
  · rintro ⟨x, hx, rfl⟩
    exact ⟨enc x, (h _).mpr ⟨x, hx, rfl⟩, rfl⟩

lemma writes_kinds {enc : Tx → Bytes} {L₁ L₂ L₃ : Language UInt8}
    (h₁ : Writes always (fun t => enc (.legacy t)) L₁)
    (h₂ : Writes always (fun t => enc (.eip1559 t)) L₂)
    (h₃ : Writes always (fun t => enc (.eip4844 t)) L₃) : Writes always enc (L₁ + L₂ + L₃) := by
  intro bytes
  rw [Language.mem_add, Language.mem_add, h₁ bytes, h₂ bytes, h₃ bytes]
  constructor
  · rintro ((⟨t, -, ht⟩ | ⟨t, -, ht⟩) | ⟨t, -, ht⟩)
    · exact ⟨.legacy t, trivial, ht⟩
    · exact ⟨.eip1559 t, trivial, ht⟩
    · exact ⟨.eip4844 t, trivial, ht⟩
  · rintro ⟨t, -, ht⟩
    cases t with
    | legacy t => exact .inl (.inl ⟨t, trivial, ht⟩)
    | eip1559 t => exact .inl (.inr ⟨t, trivial, ht⟩)
    | eip4844 t => exact .inr ⟨t, trivial, ht⟩

lemma writes_tx2718 : Writes always Tx.encode2718 tx2718 :=
  writes_kinds writes_legacy (writes_typed 0x02 writes_eip1559) (writes_typed 0x03 writes_eip4844)

lemma writes_tx : Writes always Tx.encode tx :=
  writes_kinds writes_legacy (writes_typed 0x02 writes_eip1559).stringItem
    (writes_typed 0x03 writes_eip4844).stringItem

lemma writes_optionals : Writes (fun o : Option UInt64 × Option UInt64 × Option H256 =>
        (o.2.1.isSome → o.1.isSome) ∧ (o.2.2.isSome → o.2.1.isSome))
      (fun o => o.1.elim [] encodeU64 ++ (o.2.1.elim [] encodeU64 ++
        o.2.2.elim [] fun h => encodeString h.toList))
      (1 + uintItem 8 * (1 + uintItem 8 * (1 + fixedItem 32))) := by
  refine (writes_u64.mul (writes_u64.mul (writes_arr 32).optional).optional).optional.map
    (fun o => (o.map (·.1), o.bind fun p => p.2.map (·.1), o.bind fun p => p.2.bind (·.2)))
    (fun o _ => ?_) (fun o ho => ?_) (fun o => ?_)
  · rcases o with _ | ⟨blob, _ | ⟨excess, root⟩⟩ <;> simp
  · obtain ⟨blob, excess, root⟩ := o
    obtain ⟨hes, hrt⟩ := ho
    cases blob with
    | none => simp_all
    | some blob =>
      cases excess with
      | none =>
        obtain rfl : root = none := by simpa using hrt
        exact ⟨some (blob, none), by simp [always], rfl⟩
      | some excess => exact ⟨some (blob, some (excess, root)), by simp [always], rfl⟩
  · rcases o with _ | ⟨blob, _ | ⟨excess, root⟩⟩
    · rfl
    · simp
    · simp

lemma writes_header : Writes Header.Canonical Header.encode header := by
  refine (((((((((((((((((writes_arr 32).mul (writes_arr 32)).mul (writes_arr 20)).mul
    (writes_arr 32)).mul (writes_arr 32)).mul (writes_arr 32)).mul (writes_arr 256)).mul
    writes_u256).mul writes_u64).mul writes_u64).mul writes_u64).mul writes_u64).mul
    (writes_upToLength 32)).mul (writes_arr 32)).mul (writes_arr 8)).mul writes_u256).mul
    (writes_arr 32)).mul writes_optionals |>.listItem.map
    (fun (((((((((((((((((parentHash, ommersHash), beneficiary), stateRoot), transactionsRoot),
      receiptsRoot), logsBloom), difficulty), number), gasLimit), gasUsed), timestamp), extraData),
      mixHash), nonce), baseFeePerGas), withdrawalsRoot),
      (blobGasUsed, excessBlobGas, parentBeaconBlockRoot)) =>
      { parentHash, ommersHash, beneficiary, stateRoot, transactionsRoot, receiptsRoot, logsBloom,
        difficulty, number, gasLimit, gasUsed, timestamp, extraData, mixHash, nonce, baseFeePerGas,
        withdrawalsRoot, blobGasUsed, excessBlobGas, parentBeaconBlockRoot })
    (fun x hx => ?_) (fun h hc => ?_) (fun x => ?_)
  · obtain ⟨⟨⟨⟨⟨⟨-, he⟩, -⟩, -⟩, -⟩, -⟩, hes, hrt⟩ := hx
    exact ⟨he, hes, hrt⟩
  · refine ⟨(((((((((((((((((h.parentHash, h.ommersHash), h.beneficiary), h.stateRoot),
      h.transactionsRoot), h.receiptsRoot), h.logsBloom), h.difficulty), h.number), h.gasLimit),
      h.gasUsed), h.timestamp), h.extraData), h.mixHash), h.nonce), h.baseFeePerGas),
      h.withdrawalsRoot), (h.blobGasUsed, h.excessBlobGas, h.parentBeaconBlockRoot)), ?_, rfl⟩
    simpa [always] using ⟨hc.extra, hc.excess, hc.root⟩
  · simp only [Header.encode, Header.payload, Header.tail, flatten_cons, flatten_nil,
      append_assoc, append_nil]

lemma writes_withdrawal : Writes always Withdrawal.encode withdrawal := by
  refine (((writes_u64.mul writes_u64).mul (writes_arr 20)).mul writes_u64).listItem.map
    (fun (((index, validatorIndex), address), amount) =>
      { index, validatorIndex, address, amount })
    (fun _ _ => trivial) (fun w _ => ?_) (fun x => ?_)
  · exact ⟨(((w.index, w.validatorIndex), w.address), w.amount), by simp [always], rfl⟩
  · simp only [Withdrawal.encode]

lemma writes_body :
    Writes (fun b : BlockBody => ∀ o ∈ b.ommers, o.Canonical) BlockBody.encode body := by
  refine ((writes_tx.kstar.listItem.mul writes_header.kstar.listItem).mul
    writes_withdrawal.kstar.listItem).listItem.map
    (fun ((transactions, ommers), withdrawals) => { transactions, ommers, withdrawals })
    (fun x hx => hx.1.2) (fun b hb => ?_) (fun x => ?_)
  · exact ⟨((b.transactions, b.ommers), b.withdrawals),
      ⟨⟨fun _ _ => trivial, hb⟩, fun _ _ => trivial⟩, rfl⟩
  · simp only [encode]

lemma writes_block : Writes Block.Canonical Block.encode block := by
  refine (writes_header.mul writes_body).listItem.map (fun (header, body) => { header, body })
    (fun x hx => ⟨hx.1, hx.2⟩) (fun b hb => ?_) (fun x => ?_)
  · exact ⟨(b.header, b.body), ⟨hb.header, hb.ommers⟩, rfl⟩
  · simp only [Block.encode]

/-- **Accepted bytes are reproduced exactly if they are in the language**
of what the encoder writes. -/
theorem canonical_decoding_iff (bytes : Bytes) (hlt : bytes.length < 2 ^ 64) :
    (∀ t : Tx, Tx.decode2718 bytes = .ok (t, []) → (t.encode2718 = bytes ↔ bytes ∈ Wire.tx2718)) ∧
    (∀ t : Tx, Tx.decode bytes = .ok (t, []) → (t.encode = bytes ↔ bytes ∈ Wire.tx)) ∧
    (∀ b : BlockBody, BlockBody.decode bytes = .ok (b, []) →
      (b.encode = bytes ↔ bytes ∈ Wire.body)) ∧
    (∀ h : Header, Header.decode bytes = .ok (h, []) → (h.encode = bytes ↔ bytes ∈ Wire.header)) ∧
    (∀ b : Block, Block.decode bytes = .ok (b, []) → (b.encode = bytes ↔ bytes ∈ Wire.block)) := by
  refine ⟨fun t hd => ?_, fun t hd => ?_, fun b hd => ?_, fun h hd => ?_, fun b hd => ?_⟩
  · exact writes_tx2718.reproduces_iff (fun _ _ h => Tx.decode2718_encode2718 h)
      (ensures_always _) hlt hd
  · refine writes_tx.reproduces_iff (fun t _ h => ?_) (ensures_always _) hlt hd
    simpa using (Tx.readsBack h).read []
  · refine writes_body.reproduces_iff (fun b hb h => ?_) decode_canonical hlt hd
    simpa using decode_encode hb h []
  · refine writes_header.reproduces_iff (fun h hc hlt => ?_) Header.decode_canonical hlt hd
    simpa using (Header.readsBack hc hlt).read []
  · refine writes_block.reproduces_iff (fun b hb h => ?_) Block.decode_canonical hlt hd
    simpa using Block.decode_encode hb h []

def plainCreation : TxLegacy where
  nonce := 0
  gasPrice := 1
  gasLimit := 21000
  toAddr := none
  value := 0
  data := []
  v := 27
  r := arrOfNat 32 (2 ^ 255)
  s := arrOfNat 32 (2 ^ 254)
  algoId := .secp256k1

def creationBytes (gasPrice algo : Bytes) : Bytes :=
  encodeList (encodeU64 0 ++ encodeString gasPrice ++ encodeU64 21000 ++ encodeTo none ++
    encodeU256 0 ++ encodeString [] ++ encodeU64 27 ++
    encodeString (arrOfNat 32 (2 ^ 255)).toList ++ encodeString (arrOfNat 32 (2 ^ 254)).toList ++
    algo)

def dynamicCreation : TxEip1559 where
  chainId := 1
  nonce := 0
  maxPriorityFeePerGas := 1
  maxFeePerGas := 1
  gasLimit := 21000
  toAddr := none
  value := 0
  data := []
  accessList := []
  v := 0
  r := arrOfNat 32 (2 ^ 255)
  s := arrOfNat 32 (2 ^ 254)
  algoId := .secp256k1

def creationBody : BlockBody := ⟨[.legacy plainCreation, .eip1559 dynamicCreation], [], []⟩

theorem creation_body_reproduced : creationBody.encode ∈ Wire.body :=
  ((canonical_decoding_iff creationBody.encode (by decide +kernel)).2.2.1 creationBody
    (by decide +kernel)).mp rfl

/-- Other bytes for the same value: padding, a default spelled out, a
trailing byte, a wrong list header. -/
theorem other_bytes_accepted : creationBytes [0x00, 0x01] [] ≠ plainCreation.encode ∧
    Tx.decode2718 (creationBytes [0x00, 0x01] []) = .ok (.legacy plainCreation, []) ∧
    creationBytes [0x01] [0x01] ≠ plainCreation.encode ∧
    Tx.decode2718 (creationBytes [0x01] [0x01]) = .ok (.legacy plainCreation, []) ∧
    Tx.decode (encodeString (0x02 :: dynamicCreation.encode ++ [0x00])) =
      .ok (.eip1559 dynamicCreation, []) ∧
    encodeString (0x02 :: dynamicCreation.encode ++ [0x00]) ≠ (Tx.eip1559 dynamicCreation).encode ∧
    BlockBody.decode [0xC0, 0xC0, 0xC0, 0xC0] = .ok (.empty, []) ∧
    [0xC0, 0xC0, 0xC0, 0xC0] ≠ BlockBody.empty.encode := by
  decide +kernel

end Aii.Chain
