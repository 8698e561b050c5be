/-
Aii.Chain.EthereumBytes — the wire form compared with Ethereum's.

The code writes `r` and `s` as strings of 32 bytes, Ethereum without
leading zeros.
-/
import Aii.Chain.BlockCodec
import Aii.Common.RlpTree

namespace Aii.Chain

open Common Common.Rlp List RlpTree TxEip1559

/-! ## Ethereum's wire form -/

namespace Ethereum

def scalar (x : U256) : RlpTree := .str (stripZeros (toBe 32 x.toNat))

def destination (a : Option Address) : RlpTree := .str (a.elim [] (·.toList))

def accessList (items : List AccessListItem) : RlpTree :=
  .list (items.map fun item =>
    .list [.str item.address.toList, .list (item.storageKeys.map fun key => .str key.toList)])

structure Legacy where
  nonce : U256
  gasPrice : U256
  gasLimit : U256
  toAddr : Option Address
  value : U256
  data : Bytes
  v : U256
  r : U256
  s : U256

structure DynamicFee where
  chainId : U256
  nonce : U256
  maxPriorityFeePerGas : U256
  maxFeePerGas : U256
  gasLimit : U256
  toAddr : Option Address
  value : U256
  data : Bytes
  accessList : List AccessListItem
  yParity : U256
  r : U256
  s : U256

inductive Transaction where
  | legacy (t : Legacy)
  | dynamicFee (t : DynamicFee)

def Legacy.tree (t : Legacy) : RlpTree :=
  .list [scalar t.nonce, scalar t.gasPrice, scalar t.gasLimit, destination t.toAddr,
    scalar t.value, .str t.data, scalar t.v, scalar t.r, scalar t.s]

def DynamicFee.tree (t : DynamicFee) : RlpTree :=
  .list [scalar t.chainId, scalar t.nonce, scalar t.maxPriorityFeePerGas, scalar t.maxFeePerGas,
    scalar t.gasLimit, destination t.toAddr, scalar t.value, .str t.data,
    Ethereum.accessList t.accessList, scalar t.yParity, scalar t.r, scalar t.s]

def Transaction.raw : Transaction → Bytes
  | .legacy t => t.tree.encode
  | .dynamicFee t => 0x02 :: t.tree.encode

def Transaction.hash (c : Crypto) (e : Transaction) : H256 := c.keccak256 e.raw

def Transaction.r : Transaction → U256
  | .legacy t => t.r
  | .dynamicFee t => t.r

def Transaction.s : Transaction → U256
  | .legacy t => t.s
  | .dynamicFee t => t.s

/-- `r` and `s` need all of their 32 bytes. -/
def Transaction.FullScalars (e : Transaction) : Prop :=
  2 ^ 248 ≤ e.r.toNat ∧ 2 ^ 248 ≤ e.s.toNat
deriving Decidable

end Ethereum

open Ethereum

def h256ToU256 (h : H256) : U256 := BitVec.ofNat 256 (ofBe h.toList)

def TxLegacy.ethereum (t : TxLegacy) : Ethereum.Legacy where
  nonce := u256OfU64 t.nonce
  gasPrice := t.gasPrice
  gasLimit := u256OfU64 t.gasLimit
  toAddr := t.toAddr
  value := t.value
  data := t.data
  v := u256OfU64 t.v
  r := h256ToU256 t.r
  s := h256ToU256 t.s

def TxEip1559.ethereum (t : TxEip1559) : Ethereum.DynamicFee where
  chainId := u256OfU64 t.chainId
  nonce := u256OfU64 t.nonce
  maxPriorityFeePerGas := t.maxPriorityFeePerGas
  maxFeePerGas := t.maxFeePerGas
  gasLimit := u256OfU64 t.gasLimit
  toAddr := t.toAddr
  value := t.value
  data := t.data
  accessList := t.accessList
  yParity := BitVec.ofNat 256 t.v.toNat
  r := h256ToU256 t.r
  s := h256ToU256 t.s

def Tx.ethereum : Tx → Option Ethereum.Transaction
  | .legacy t => if t.algoId = .secp256k1 then some (.legacy t.ethereum) else none
  | .eip1559 t => if t.algoId = .secp256k1 then some (.dynamicFee t.ethereum) else none
  | .eip4844 _ => none

/-! ## Fields -/

lemma h256ToU256_toNat (h : H256) : (h256ToU256 h).toNat = ofBe h.toList := by
  have hlt := ofBe_lt h.toList
  rw [length_toList] at hlt
  rw [h256ToU256, BitVec.toNat_ofNat, Nat.mod_eq_of_lt]
  simpa using hlt

lemma scalar_encode (x : U256) : (scalar x).encode = encodeU256 x := rfl

lemma scalar_u64 (x : UInt64) : (scalar (u256OfU64 x)).encode = encodeU64 x := by
  have hlt := x.toNat_lt
  rw [scalar_encode, encodeU256, encodeU64, encodeUint, encodeUint, u256OfU64_toNat,
    stripZeros_toBe_width (hlt.trans (by decide)) (show x.toNat < 256 ^ 8 from hlt)]

lemma scalar_u8 (x : UInt8) :
    (scalar (BitVec.ofNat 256 x.toNat)).encode = encodeU8 x := by
  have hlt := x.toNat_lt
  have hv : (BitVec.ofNat 256 x.toNat).toNat = x.toNat := by
    rw [BitVec.toNat_ofNat, Nat.mod_eq_of_lt (hlt.trans (by decide))]
  rw [scalar_encode, encodeU256, encodeU8, encodeUint, encodeUint, hv,
    stripZeros_toBe_width (hlt.trans (by decide)) (show x.toNat < 256 ^ 1 from hlt)]

lemma scalar_h256 (h : H256) :
    (scalar (h256ToU256 h)).encode = encodeString (stripZeros h.toList) := by
  have hbt := toBe_ofBe h.toList
  rw [length_toList] at hbt
  rw [scalar_encode, encodeU256, encodeUint, h256ToU256_toNat, hbt]

lemma destination_encode (a : Option Address) : (destination a).encode = encodeTo a := by
  cases a <;> rfl

lemma accessList_encode (items : List AccessListItem) :
    (Ethereum.accessList items).encode = encodeList (items.flatMap AccessListItem.encode) := by
  have hks : ∀ keys : List H256, encodeAll (keys.map fun key => .str key.toList) =
      keys.flatMap fun key => encodeString key.toList := by
    intro _
    rw [encodeAll_eq_flatMap, flatMap_map]
    rfl
  rw [Ethereum.accessList, RlpTree.encode, encodeAll_eq_flatMap, flatMap_map]
  congr 2
  funext item
  simp [RlpTree.encode, RlpTree.encodeAll, hks, AccessListItem.encode]

lemma signature_bytes_iff {fore : Bytes} {r s : H256} :
    encodeList (fore ++ (encodeString r.toList ++ encodeString s.toList)) =
        encodeList (fore ++ ((scalar (h256ToU256 r)).encode ++ (scalar (h256ToU256 s)).encode)) ↔
      2 ^ 248 ≤ (h256ToU256 r).toNat ∧ 2 ^ 248 ≤ (h256ToU256 s).toNat := by
  have hf : ∀ h : H256, stripZeros h.toList = h.toList ↔ 2 ^ 248 ≤ (h256ToU256 h).toNat := by
    intro h
    rw [h256ToU256_toNat, stripZeros_arr_iff]
    norm_num
  have hl : ∀ h : H256, (stripZeros h.toList).length < 2 ^ 64 := by
    intro h
    have hle := stripZeros_length_le h.toList
    rw [length_toList] at hle
    omega
  rw [scalar_h256, scalar_h256, ← hf, ← hf]
  constructor
  · intro h
    have htl := append_cancel_left (encodeList_inj h)
    obtain ⟨hr, htl⟩ := encodeString_append_inj (by simp) (hl r) htl
    obtain ⟨hs, -⟩ := encodeString_append_inj (by simp) (hl s)
      (congrArg (· ++ ([] : Bytes)) htl)
    exact ⟨hr.symm, hs.symm⟩
  · rintro ⟨hr, hs⟩
    rw [hr, hs]

variable {x : U256} {t : TxLegacy} {e : Ethereum.Transaction} {α β : Type} {out : β × Bytes}

lemma TxLegacy.encode_eq_tree_iff (hal : t.algoId = .secp256k1) :
    t.encode = t.ethereum.tree.encode ↔
      2 ^ 248 ≤ t.ethereum.r.toNat ∧ 2 ^ 248 ≤ t.ethereum.s.toNat := by
  have hcd : t.encode = encodeList ((t.core ++ encodeU64 t.v) ++
      (encodeString t.r.toList ++ encodeString t.s.toList)) := by
    simp [TxLegacy.encode, encodeAlgo, hal]
  have ht : t.ethereum.tree.encode = encodeList ((t.core ++ encodeU64 t.v) ++
      ((scalar (h256ToU256 t.r)).encode ++ (scalar (h256ToU256 t.s)).encode)) := by
    simp [Ethereum.Legacy.tree, TxLegacy.ethereum, TxLegacy.core, RlpTree.encode,
      encodeAll, scalar_u64, destination_encode, append_assoc, append_nil]
    simp [scalar_encode]
  rw [hcd, ht]
  exact signature_bytes_iff

lemma TxEip1559.encode_eq_tree_iff {t : TxEip1559} (hal : t.algoId = .secp256k1) :
    t.encode = t.ethereum.tree.encode ↔
      2 ^ 248 ≤ t.ethereum.r.toNat ∧ 2 ^ 248 ≤ t.ethereum.s.toNat := by
  have hcd : t.encode = encodeList ((t.core ++ encodeU8 t.v) ++
      (encodeString t.r.toList ++ encodeString t.s.toList)) := by
    simp [encode, encodeAlgo, hal]
  have ht : t.ethereum.tree.encode = encodeList ((t.core ++ encodeU8 t.v) ++
      ((scalar (h256ToU256 t.r)).encode ++ (scalar (h256ToU256 t.s)).encode)) := by
    simp [Ethereum.DynamicFee.tree, ethereum, core, RlpTree.encode, encodeAll, scalar_u64,
      scalar_u8, destination_encode, accessList_encode, append_assoc, append_nil]
    simp [scalar_encode]
  rw [hcd, ht]
  exact signature_bytes_iff

/-- **The code writes Ethereum's bytes exactly for full `r` and `s`.** -/
lemma Tx.encode2718_eq_raw_iff {t : Tx} (h : t.ethereum = some e) :
    t.encode2718 = e.raw ↔ e.FullScalars := by
  cases t with
  | legacy =>
    simp [Tx.ethereum, Option.ite_none_right_eq_some] at h
    obtain ⟨hal, rfl⟩ := h
    exact TxLegacy.encode_eq_tree_iff hal
  | eip1559 =>
    simp [Tx.ethereum, Option.ite_none_right_eq_some] at h
    obtain ⟨hal, rfl⟩ := h
    simp [Tx.encode2718, Ethereum.Transaction.raw, cons.injEq]
    exact encode_eq_tree_iff hal
  | eip4844 => cases h

/-! ## Decoding -/

section Scalar

variable (x : U256) (rest : Bytes)

lemma decodeUint_scalar {w : Nat} : decodeUint w (encodeU256 x ++ rest) =
      if x.toNat < 256 ^ w then .ok (x.toNat, rest) else .error .overflow := by
  have hle := stripZeros_length_le (toBe 32 x.toNat)
  have hv : ofBe (stripZeros (toBe 32 x.toNat)) = x.toNat := by
    rw [ofBe_stripZeros, ofBe_toBe_of_lt x.isLt]
  have hhd := stripZeros_head (toBe 32 x.toNat)
  have hlg : w < (stripZeros (toBe 32 x.toNat)).length ↔ ¬ x.toNat < 256 ^ w := by
    refine ⟨fun hlt hs => ?_, fun hb => ?_⟩
    · exact absurd (length_le_of_head hhd (by rwa [hv])) (Nat.not_le.mpr hlt)
    · by_contra hsh
      have hlt := ofBe_lt (stripZeros (toBe 32 x.toNat))
      rw [hv] at hlt
      exact hb (hlt.trans_le (Nat.pow_le_pow_right (by decide) (Nat.not_lt.mp hsh)))
  rw [toBe_length] at hle
  rw [decodeUint, encodeU256, encodeUint, decodeString_encodeString (by omega)]
  simp only [hlg, if_neg hhd, hv, ite_not]

lemma decodeH256Loose_scalar :
    decodeH256Loose (encodeU256 x ++ rest) = .ok (arrOfNat 32 x.toNat, rest) := by
  simp [decodeH256Loose, encodeU256, bind, Decoder.bind,
    decodeLoose_encodeUint (show 32 < 2 ^ 64 by decide) x.isLt]
  rfl

end Scalar

variable {rest rest' : Bytes}

lemma decodeU8_scalar_ok {y : UInt8} (h : decodeU8 (encodeU256 x ++ rest) = .ok (y, rest')) :
    BitVec.ofNat 256 y.toNat = x ∧ rest' = rest := by
  rw [decodeU8, decodeUint_scalar] at h
  split_ifs at h with hlt
  cases h
  refine ⟨BitVec.eq_of_toNat_eq ?_, rfl⟩
  rw [UInt8.toNat_ofNat_of_lt' hlt, BitVec.toNat_ofNat, Nat.mod_eq_of_lt x.isLt]

lemma h256ToU256_arrOfNat (x : U256) : h256ToU256 (arrOfNat 32 x.toNat) = x := by
  apply BitVec.eq_of_toNat_eq
  rw [h256ToU256_toNat]
  exact ofBe_toBe_of_lt x.isLt

lemma decodeAlgo_nil (len : Nat) : decodeAlgo len len [] = .ok (.secp256k1, []) := by
  simp [decodeAlgo, bind, Decoder.bind, Decoder.remaining]
  rfl

lemma decode_signature_tail {r s : U256} {len : Nat} {f : H256 → H256 → AlgoId → α} {t : α}
    (h : (do
      let r ← decodeH256Loose
      let s ← decodeH256Loose
      let algoId ← decodeAlgo len len
      pure (f r s algoId) : Decoder α) (encodeU256 r ++ encodeU256 s) = .ok (t, rest)) :
    t = f (arrOfNat 32 r.toNat) (arrOfNat 32 s.toNat) .secp256k1 ∧ rest = [] := by
  have hs := decodeH256Loose_scalar s []
  rw [append_nil] at hs
  simp only [bind, Decoder.bind, decodeH256Loose_scalar, hs, decodeAlgo_nil, pure, Decoder.pure,
    Except.ok.injEq, Prod.mk.injEq] at h
  exact ⟨h.1.symm, h.2.symm⟩

lemma bind_read {d : Decoder α} {f : α → Decoder β} {bs buf : Bytes} {a : α}
    (hread : d bs = .ok (a, buf)) (h : (d >>= f) bs = .ok out) : f a buf = .ok out := by
  obtain ⟨a', _, hread', h⟩ := Decoder.bind_eq_ok h
  obtain ⟨rfl, rfl⟩ := read_inj hread hread'
  exact h

lemma bind_scalar {f : UInt64 → Decoder β}
    (h : (decodeU64 >>= f) (encodeU256 x ++ rest) = .ok out) :
    ∃ y, u256OfU64 y = x ∧ f y rest = .ok out := by
  obtain ⟨y, _, hb, hf⟩ := Decoder.bind_eq_ok h
  rw [decodeU64, decodeUint_scalar] at hb
  split_ifs at hb with hlt
  cases hb
  refine ⟨_, BitVec.eq_of_toNat_eq ?_, hf⟩
  rw [u256OfU64_toNat, UInt64.toNat_ofNat_of_lt' hlt]

lemma TxLegacy.decode_tree {e : Ethereum.Legacy} (hlt : e.tree.encode.length < 2 ^ 64)
    (h : TxLegacy.decode e.tree.encode = .ok (t, rest)) :
    rest = [] ∧ t.algoId = .secp256k1 ∧ t.ethereum = e := by
  simp [Ethereum.Legacy.tree, RlpTree.encode, encodeAll, scalar_encode,
    destination_encode, append_nil] at hlt h
  have hl := payload_lt hlt
  have hdt : e.data.length < 2 ^ 64 := by
    have hs := length_le_encodeString e.data
    simp at hl
    omega
  have hread := decodeListHeader_encodeList hl []
  rw [append_nil, append_nil] at hread
  -- the list, and how much of it there is
  replace h := bind_read hread h
  replace h := bind_read rfl h
  generalize List.length _ = len at h
  -- the fields
  obtain ⟨_, hnc, h⟩ := bind_scalar h
  replace h := bind_read (decodeU256_encodeU256 _ _) h
  obtain ⟨_, hlm, h⟩ := bind_scalar h
  replace h := bind_read (decodeTo_encodeTo _ _) h
  replace h := bind_read (decodeU256_encodeU256 _ _) h
  replace h := bind_read (decodeString_encodeString hdt _) h
  obtain ⟨v, hv, h⟩ := bind_scalar h
  obtain ⟨rfl, rfl⟩ := decode_signature_tail h
  refine ⟨rfl, rfl, ?_⟩
  simp [TxLegacy.ethereum, hnc, hlm, hv, h256ToU256_arrOfNat]

lemma TxEip1559.decode_tree {e : Ethereum.DynamicFee} {t : TxEip1559}
    (hlt : e.tree.encode.length < 2 ^ 64) (h : decode e.tree.encode = .ok (t, rest)) :
    rest = [] ∧ t.algoId = .secp256k1 ∧ t.ethereum = e := by
  rw [Ethereum.DynamicFee.tree, RlpTree.encode] at hlt h
  simp [encodeAll, accessList_encode, scalar_encode, destination_encode, append_nil] at hlt h
  rw [show (str e.data).encode = encodeString e.data from rfl] at hlt h
  have hl := payload_lt hlt
  have hdt : e.data.length < 2 ^ 64 := by
    have hs := length_le_encodeString e.data
    simp at hl
    omega
  have ha : (e.accessList.flatMap AccessListItem.encode).length < 2 ^ 64 := by
    have hls := length_le_encodeList (e.accessList.flatMap AccessListItem.encode)
    simp at hl
    omega
  have hread := decodeListHeader_encodeList hl []
  rw [append_nil, append_nil] at hread
  replace h := bind_read hread h
  replace h := bind_read rfl h
  generalize List.length _ = len at h
  obtain ⟨_, hcn, h⟩ := bind_scalar h
  obtain ⟨_, hnc, h⟩ := bind_scalar h
  replace h := bind_read (decodeU256_encodeU256 _ _) h
  replace h := bind_read (decodeU256_encodeU256 _ _) h
  obtain ⟨_, hlm, h⟩ := bind_scalar h
  replace h := bind_read (decodeTo_encodeTo _ _) h
  replace h := bind_read (decodeU256_encodeU256 _ _) h
  replace h := bind_read (decodeString_encodeString hdt _) h
  replace h := bind_read (decodeListHeader_encodeList ha _) h
  replace h := bind_read (decodeItems_flatMap (accessList_readsBack ha) _) h
  obtain ⟨v, _, hb, h⟩ := Decoder.bind_eq_ok h
  obtain ⟨hv, rfl⟩ := decodeU8_scalar_ok hb
  obtain ⟨rfl, rfl⟩ := decode_signature_tail h
  refine ⟨rfl, rfl, ?_⟩
  simp [ethereum, hcn, hnc, hlm, hv, h256ToU256_arrOfNat]

lemma Tx.decode2718_raw {t : Tx} (hlt : e.raw.length < 2 ^ 64)
    (h : Tx.decode2718 e.raw = .ok (t, rest)) : rest = [] ∧ t.ethereum = some e := by
  cases e with
  | legacy e =>
    obtain ⟨b, more, hhd, hb⟩ := encodeList_head
      (encodeAll [scalar e.nonce, scalar e.gasPrice,
        scalar e.gasLimit, destination e.toAddr, scalar e.value,
        .str e.data, scalar e.v, scalar e.r, scalar e.s])
    have ht : e.tree.encode = b :: more := hhd
    simp [Ethereum.Transaction.raw] at hlt h
    simp [Tx.decode2718, ht,
      if_pos (show (0xC0 : UInt8) ≤ b from UInt8.le_iff_toNat_le.mpr hb)] at h
    rw [← ht] at h
    obtain ⟨x, _, hread, hdn⟩ := Decoder.bind_eq_ok h
    cases hdn
    obtain ⟨hrs, hal, he⟩ := TxLegacy.decode_tree hlt hread
    exact ⟨hrs, by rw [Tx.ethereum, if_pos hal, he]⟩
  | dynamicFee e =>
    simp [Ethereum.Transaction.raw] at hlt
    obtain ⟨x, _, hread, hdn⟩ := Decoder.bind_eq_ok
      (show (TxEip1559.decode >>= fun t => pure (Tx.eip1559 t)) e.tree.encode = .ok (t, rest)
        from h)
    cases hdn
    obtain ⟨hrs, hal, he⟩ := decode_tree (by omega) hread
    exact ⟨hrs, by rw [Tx.ethereum, if_pos hal, he]⟩

/-- **Ethereum's bytes and hash are kept exactly for full `r` and `s`.** -/
theorem ethereum_bytes_iff (c : Crypto) :
    (∀ (t : Tx) (e : Ethereum.Transaction), t.ethereum = some e →
      (t.encode2718 = e.raw ↔ e.FullScalars)) ∧
    (∀ (e : Ethereum.Transaction) (t : Tx) (rest : Bytes), e.raw.length < 2 ^ 64 →
      Tx.decode2718 e.raw = .ok (t, rest) → rest = [] ∧ t.ethereum = some e ∧
        (t.encode2718 = e.raw ∧ t.hash c = e.hash c ↔ e.FullScalars)) := by
  refine ⟨fun t e h => Tx.encode2718_eq_raw_iff h, fun e t rest hlt h => ?_⟩
  obtain ⟨hrs, he⟩ := Tx.decode2718_raw hlt h
  refine ⟨hrs, he, ?_⟩
  rw [← Tx.encode2718_eq_raw_iff he]
  refine ⟨fun hsm => hsm.1, fun hsm => ⟨hsm, ?_⟩⟩
  rw [Tx.hash, Ethereum.Transaction.hash, hsm]

def signedTransfer (r : U256) : Ethereum.Transaction :=
  .legacy { nonce := 7, gasPrice := 20000000000, gasLimit := 21000, toAddr := some (Arr.zero 20),
            value := 1, data := [], v := 27, r := r, s := BitVec.ofNat 256 (2 ^ 255 - 1) }

def receivedTransfer (r : U256) : Tx :=
  .legacy { nonce := 7, gasPrice := 20000000000, gasLimit := 21000, toAddr := some (Arr.zero 20),
            value := 1, data := [], v := 27, r := arrOfNat 32 r.toNat,
            s := arrOfNat 32 (2 ^ 255 - 1), algoId := .secp256k1 }

theorem full_transfer_kept : (receivedTransfer (BitVec.ofNat 256 (2 ^ 250))).encode2718 =
      (signedTransfer (BitVec.ofNat 256 (2 ^ 250))).raw :=
  ((ethereum_bytes_iff .reference).2 (signedTransfer (BitVec.ofNat 256 (2 ^ 250)))
    (receivedTransfer (BitVec.ofNat 256 (2 ^ 250))) [] (by decide +kernel)
    (by decide +kernel)).2.2.mpr (by decide +kernel) |>.1

/-- An `r` of 31 bytes is accepted and written back with 32, so the raw
bytes change, and with them the hash. -/
theorem short_r_changes_bytes : Tx.decode2718 (signedTransfer (BitVec.ofNat 256 (2 ^ 240))).raw =
        .ok (receivedTransfer (BitVec.ofNat 256 (2 ^ 240)), []) ∧
      (receivedTransfer (BitVec.ofNat 256 (2 ^ 240))).encode2718 ≠
        (signedTransfer (BitVec.ofNat 256 (2 ^ 240))).raw ∧
      (receivedTransfer (BitVec.ofNat 256 (2 ^ 240))).hash .reference ≠
        (signedTransfer (BitVec.ofNat 256 (2 ^ 240))).hash .reference := by
  decide +kernel

end Aii.Chain
