/-
Aii.Chain.BlockCodec — blocks read back what was written.

A header reads back if it is CANONICAL: short extra data, no optional
field after an absent one.
-/
import Aii.Chain.Block
import Aii.Common.RlpItems

namespace Aii.Chain

open Common Common.Rlp List Header AccessListItem TxEip1559

/-! ## Fields -/

variable {len started : Nat} {rest : Bytes} {t : Tx} {l : List AccessListItem} {b : UInt8}
  {bs x y : Bytes} {α : Type} {field : Decoder α}

lemma decodeHeaderRaw_list {list : Bool} (hb : ¬ b < 0xC0)
    (h : decodeHeaderRaw (b :: bs) = .ok ((list, len), rest)) : list = true := by
  have hn : ∀ k : UInt8, k ≤ 0xC0 → ¬ b < k :=
    fun k hk => UInt8.not_lt.mpr (UInt8.le_trans hk (UInt8.not_lt.mp hb))
  simp [decodeHeaderRaw, if_neg (hn 0x80 (by decide)), if_neg (hn 0xB8 (by decide)),
    if_neg (hn 0xC0 (by decide)), decodeLongLen] at h
  split_ifs at h <;> cases h <;> rfl

lemma decodeString_head {out : Bytes × Bytes} (h : decodeString (b :: bs) = .ok out) :
    b < 0xC0 := by
  by_contra hb
  unfold decodeString decodeHeader at h
  cases hr : decodeHeaderRaw (b :: bs) with
  | error => simp [hr] at h
  | ok out =>
    obtain ⟨⟨_, len⟩, rest⟩ := out
    have hls := decodeHeaderRaw_list hb hr
    by_cases hl : rest.length < len <;> simp [hr, hls, hl] at h

lemma decodeTo_encodeTo (a : Option Address) (rest : Bytes) :
    decodeTo (encodeTo a ++ rest) = .ok (a, rest) := by
  cases a with
  | none =>
    have hread := decodeString_encodeString (show ([] : Bytes).length < 2 ^ 64 by simp) rest
    simp [encodeTo, decodeTo, bind, Decoder.bind,
      show ([0x80] : Bytes) = encodeString [] from rfl, hread]
    rfl
  | some a =>
    simp [encodeTo, decodeTo, bind, Decoder.bind,
      decodeString_encodeString (show a.toList.length < 2 ^ 64 by simp)]
    simp [pure, Decoder.pure]

lemma encodeTo_append_inj {a b : Option Address} (h : encodeTo a ++ x = encodeTo b ++ y) :
    a = b ∧ x = y :=
  append_inj_of_read (decodeTo_encodeTo a x) (decodeTo_encodeTo b y) h

lemma decodeH256Loose_encodeString (h : H256) (rest : Bytes) :
    decodeH256Loose (encodeString h.toList ++ rest) = .ok (h, rest) := by
  have hv : arrOfNat 32 (ofBe h.toList) = h := by
    have hbt := toBe_ofBe h.toList
    rw [length_toList] at hbt
    exact toList_inj.mp hbt
  simp [decodeH256Loose, decodeLoose, bind, Decoder.bind,
    decodeString_encodeString (show h.toList.length < 2 ^ 64 by simp)]
  simp [hv, pure, Decoder.pure]

lemma AlgoId.fromByte_asByte (a : AlgoId) : AlgoId.fromByte a.asByte = some a := by
  cases a <;> rfl

lemma decodeAlgo_encodeAlgo (a : AlgoId) (rest : Bytes) (hs : started = len + rest.length)
    (hl : (encodeAlgo a).length ≤ len) :
    decodeAlgo started len (encodeAlgo a ++ rest) = .ok (a, rest) := by
  have hread : started - (encodeAlgo a ++ rest).length = len - (encodeAlgo a).length := by
    rw [length_append]
    omega
  simp only [decodeAlgo, bind, Decoder.bind, Decoder.remaining, hread]
  by_cases ha : a = .secp256k1
  · subst ha
    rw [if_neg (show ¬ len - (encodeAlgo AlgoId.secp256k1).length < len from Nat.lt_irrefl len)]
    rfl
  · have he : encodeAlgo a = encodeU8 a.asByte := if_pos ha
    have hp : 0 < (encodeAlgo a).length := by
      cases a <;> first | exact absurd rfl ha | decide
    rw [if_pos (by omega), he]
    simp [Decoder.bind, decodeU8_encodeU8, AlgoId.fromByte_asByte]
    rfl

lemma hash_readsBack (h : H256) :
    ReadsBack (decodeArr 32) (fun h : H256 => encodeString h.toList) h where
  read := decodeArr_encodeString (by decide) h
  ne_nil := Item.ne_nil (.string (by simp))

lemma encodeList_ne_nil {payload : Bytes} (h : (encodeList payload).length < 2 ^ 64) :
    encodeList payload ≠ [] :=
  Item.ne_nil (.list (payload_lt h))

/-! ## Transactions -/

lemma AccessListItem.readsBack {a : AccessListItem} (h : a.encode.length < 2 ^ 64) :
    ReadsBack decode encode a where
  read rest := by
    have hl := payload_lt h
    have hks : (a.storageKeys.flatMap fun k => encodeString k.toList).length < 2 ^ 64 := by
      have hls := length_le_encodeList (a.storageKeys.flatMap fun k => encodeString k.toList)
      rw [length_append] at hl
      omega
    refine decodeStruct_encodeList ?_ hl
    simp [bind, Decoder.bind, append_assoc, decodeArr_encodeString,
      decodeVec_encodeList (fun k _ => hash_readsBack k) hks]
    rfl
  ne_nil := encodeList_ne_nil h

lemma accessList_readsBack (h : (l.flatMap AccessListItem.encode).length < 2 ^ 64) :
    ∀ a ∈ l, ReadsBack AccessListItem.decode AccessListItem.encode a := by
  intro a ha
  exact readsBack (Nat.lt_of_le_of_lt (length_le_flatMap ha) h)

lemma TxLegacy.readsBack {t : TxLegacy} (h : t.encode.length < 2 ^ 64) :
    ReadsBack TxLegacy.decode TxLegacy.encode t where
  read rest := by
    have hl := payload_lt h
    have hdt : t.data.length < 2 ^ 64 := by
      have hs := length_le_encodeString t.data
      simp [TxLegacy.core] at hl
      omega
    simp only [TxLegacy.decode, TxLegacy.encode, bind, Decoder.bind,
      decodeListHeader_encodeList hl, Decoder.remaining]
    simp only [TxLegacy.core, append_assoc, decodeU64_encodeU64, decodeU256_encodeU256,
      decodeTo_encodeTo, decodeString_encodeString hdt, decodeH256Loose_encodeString]
    rw [decodeAlgo_encodeAlgo t.algoId rest]
    · rfl
    · simp
      omega
    · simp
      omega
  ne_nil := encodeList_ne_nil h

lemma TxEip1559.readsBack {t : TxEip1559} (h : t.encode.length < 2 ^ 64) :
    ReadsBack TxEip1559.decode TxEip1559.encode t where
  read rest := by
    have hl := payload_lt h
    have hdt : t.data.length < 2 ^ 64 := by
      have hs := length_le_encodeString t.data
      simp [core] at hl
      omega
    have ha : (t.accessList.flatMap AccessListItem.encode).length < 2 ^ 64 := by
      have hls := length_le_encodeList (t.accessList.flatMap AccessListItem.encode)
      simp [core] at hl
      omega
    simp only [decode, TxEip1559.encode, bind, Decoder.bind,
      decodeListHeader_encodeList hl, Decoder.remaining]
    simp only [TxEip1559.core, append_assoc, decodeU64_encodeU64, decodeU256_encodeU256,
      decodeU8_encodeU8, decodeTo_encodeTo, decodeString_encodeString hdt,
      decodeListHeader_encodeList ha, decodeItems_flatMap (accessList_readsBack ha),
      decodeH256Loose_encodeString]
    rw [decodeAlgo_encodeAlgo t.algoId rest]
    · rfl
    · simp
      omega
    · simp
      omega
  ne_nil := encodeList_ne_nil h

lemma TxEip4844.readsBack {t : TxEip4844} (h : t.encode.length < 2 ^ 64) :
    ReadsBack TxEip4844.decode TxEip4844.encode t where
  read rest := by
    have hl := payload_lt h
    have hdt : t.data.length < 2 ^ 64 := by
      have hs := length_le_encodeString t.data
      simp at hl
      omega
    have ha : (t.accessList.flatMap AccessListItem.encode).length < 2 ^ 64 := by
      have hls := length_le_encodeList (t.accessList.flatMap AccessListItem.encode)
      simp at hl
      omega
    have hb : (t.blobVersionedHashes.flatMap fun h => encodeString h.toList).length < 2 ^ 64 := by
      have hls := length_le_encodeList
        (t.blobVersionedHashes.flatMap fun h => encodeString h.toList)
      simp at hl
      omega
    simp only [TxEip4844.decode, TxEip4844.encode, bind, Decoder.bind,
      decodeListHeader_encodeList hl, Decoder.remaining]
    simp (disch := omega) only [append_assoc, decodeU64_encodeU64, decodeU256_encodeU256,
      decodeU8_encodeU8, decodeArr_encodeString, decodeString_encodeString hdt,
      decodeHeader_encodeList ha, decodeItems_flatMap (accessList_readsBack ha),
      decodeHeader_encodeList hb,
      decodeItems_flatMap (fun k (_ : k ∈ t.blobVersionedHashes) =>
        ⟨decodeH256Loose_encodeString k, Item.ne_nil (.string (by simp))⟩),
      decodeH256Loose_encodeString]
    rw [decodeAlgo_encodeAlgo t.algoId rest]
    · rfl
    · simp
      omega
    · simp
      omega
  ne_nil := encodeList_ne_nil h

lemma TxLegacy.encode_head (t : TxLegacy) :
    ∃ b rest, t.encode = b :: rest ∧ (0xC0 : UInt8) ≤ b := by
  obtain ⟨b, rest, hhd, hb⟩ := encodeList_head (t.core ++ encodeU64 t.v ++
    encodeString t.r.toList ++ encodeString t.s.toList ++ encodeAlgo t.algoId)
  exact ⟨b, rest, hhd, UInt8.le_iff_toNat_le.mpr hb⟩

lemma Tx.decode2718_encode2718 (h : t.encode2718.length < 2 ^ 64) :
    Tx.decode2718 t.encode2718 = .ok (t, []) := by
  cases t with
  | legacy t =>
    obtain ⟨b, _, hhd, hb⟩ := t.encode_head
    have hread := (TxLegacy.readsBack h).read []
    rw [append_nil] at hread
    rw [Tx.encode2718, hhd] at *
    simp [Tx.decode2718, if_pos hb, bind, Decoder.bind, hread]
    rfl
  | eip1559 t =>
    rw [Tx.encode2718, length_cons] at h
    have hread := (readsBack (t := t) (by omega)).read []
    rw [append_nil] at hread
    simp [Tx.encode2718, Tx.decode2718, bind, Decoder.bind, hread]
    rfl
  | eip4844 t =>
    rw [Tx.encode2718, length_cons] at h
    have hread := (TxEip4844.readsBack (t := t) (by omega)).read []
    rw [append_nil] at hread
    simp [Tx.encode2718, Tx.decode2718, bind, Decoder.bind, hread]
    rfl

open Tx

lemma Tx.encode2718_inj {t' : Tx} (ht : t.encode2718.length < 2 ^ 64)
    (ht' : t'.encode2718.length < 2 ^ 64) (h : t.encode2718 = t'.encode2718) : t = t' := by
  have hread := decode2718_encode2718 ht
  rw [h] at hread
  exact (read_inj hread (decode2718_encode2718 ht')).1

lemma Tx.wrapped_readsBack (h : (encodeString t.encode2718).length < 2 ^ 64) :
    ReadsBack decode (fun t => encodeString t.encode2718) t := by
  have hl := Nat.lt_of_le_of_lt (length_le_encodeString _) h
  have hit := Item.ne_nil (.string hl)
  have hne : t.encode2718 ≠ [] := by
    intro hn
    have hd := decode2718_encode2718 hl
    rw [hn] at hd
    cases hd
  refine ⟨fun rest => ?_, hit⟩
  have hread := decodeString_encodeString hl rest
  obtain ⟨b, bs, hbt⟩ := exists_cons_of_ne_nil hit
  rw [hbt, cons_append] at hread ⊢
  have hb := UInt8.not_le.mpr (decodeString_head hread)
  simp only [decode, if_neg hb, hread, decode2718_encode2718 hl]
  rw [if_neg (by simpa using hne)]

/-- **Every transaction reads back**, whatever follows it. -/
lemma Tx.readsBack (h : t.encode.length < 2 ^ 64) : ReadsBack decode encode t := by
  cases t with
  | legacy t =>
    have hl := TxLegacy.readsBack h
    refine ⟨fun rest => ?_, hl.ne_nil⟩
    obtain ⟨b, bs, hhd, hb⟩ := t.encode_head
    have hread := hl.read rest
    rw [hhd, cons_append] at hread
    rw [encode, hhd, cons_append]
    simp [decode, if_pos hb, bind, Decoder.bind, hread]
    rfl
  | eip1559 t =>
    have hw := wrapped_readsBack (t := .eip1559 t) h
    exact ⟨hw.read, hw.ne_nil⟩
  | eip4844 t =>
    have hw := wrapped_readsBack (t := .eip4844 t) h
    exact ⟨hw.read, hw.ne_nil⟩

/-! ## Headers -/

/-- At most 32 bytes of extra data, and no optional field after an absent
one. -/
structure Header.Canonical (h : Header) : Prop where
  extra : h.extraData.length ≤ 32
  excess : h.excessBlobGas.isSome → h.blobGasUsed.isSome
  root : h.parentBeaconBlockRoot.isSome → h.excessBlobGas.isSome

instance (h : Header) : Decidable h.Canonical :=
  decidable_of_iff (_ ∧ _ ∧ _) ⟨fun h => ⟨h.1, h.2.1, h.2.2⟩, fun h => ⟨h.extra, h.excess, h.root⟩⟩

lemma Header.decodeOptional_elim {enc : α → Bytes} (o : Option α) (later : Bytes)
    (hread : ∀ a, ReadsBack field enc a) (hla : o = none → later = [])
    (hs : started = len + rest.length) (hl : (o.elim [] enc ++ later).length ≤ len) :
    decodeOptional started len field (o.elim [] enc ++ (later ++ rest)) =
      .ok (o, later ++ rest) := by
  cases o with
  | none =>
    have hlf : ¬ started - (later ++ rest).length < len := by grind
    simp only [decodeOptional, bind, Decoder.bind, Decoder.remaining, Option.elim_none,
      nil_append, if_neg hlf]
    rfl
  | some a =>
    have hlf : started - (enc a ++ (later ++ rest)).length < len := by
      have hp := (hread a).length_pos
      rw [Option.elim_some, length_append] at hl
      simp
      omega
    simp only [decodeOptional, bind, Decoder.bind, Decoder.remaining, Option.elim_some,
      if_pos hlf, (hread a).read]
    rfl

lemma encodeU64_readsBack (x : UInt64) : ReadsBack decodeU64 encodeU64 x where
  read := decodeU64_encodeU64 x
  ne_nil := Item.ne_nil (.string (by
    have hle := stripZeros_length_le (toBe 8 x.toNat)
    rw [toBe_length] at hle
    omega))

/-- **A canonical header reads back**, whatever follows it. -/
lemma Header.readsBack {h : Header} (hc : h.Canonical) (hlt : h.encode.length < 2 ^ 64) :
    ReadsBack decode encode h where
  read rest := by
    have hl := payload_lt hlt
    have he : h.extraData.length < 2 ^ 64 := Nat.lt_of_le_of_lt hc.extra (by decide)
    have hrt : h.excessBlobGas = none → h.parentBeaconBlockRoot = none := by
      simpa using mt hc.root
    have hes : h.blobGasUsed = none → h.excessBlobGas = none := by
      simpa using mt hc.excess
    have ho : (h.blobGasUsed.elim [] encodeU64).length +
        (h.excessBlobGas.elim [] encodeU64).length +
        (h.parentBeaconBlockRoot.elim [] fun x => encodeString x.toList).length ≤
          h.payload.length := by
      simp [payload, tail, flatten_cons, flatten_nil, length_append]
      omega
    have hs : (h.payload ++ rest).length = h.payload.length + rest.length := length_append
    simp only [decode, encode, bind, Decoder.bind,
      decodeListHeader_encodeList hl, Decoder.remaining]
    -- how far the list reaches matters only for the optional fields
    generalize h.payload.length = len at ho hs ⊢
    generalize (h.payload ++ rest).length = started at hs ⊢
    simp [payload, tail, flatten_cons, flatten_nil, append_assoc, Decoder.bind, decodeU64_encodeU64,
      decodeU256_encodeU256, decodeString_encodeString he, if_neg (Nat.not_lt.mpr hc.extra),
      decodeArr_encodeString]
    have hb := decodeOptional_elim h.blobGasUsed
      (h.excessBlobGas.elim [] encodeU64 ++
        (h.parentBeaconBlockRoot.elim [] fun x => encodeString x.toList)) encodeU64_readsBack
      (fun hnn => by rw [hrt (hes hnn), hes hnn]; rfl) hs
      (by simp; omega)
    have hes := decodeOptional_elim h.excessBlobGas
      (h.parentBeaconBlockRoot.elim [] fun x => encodeString x.toList) encodeU64_readsBack
      (fun hnn => by rw [hrt hnn]; rfl) hs
      (by simp; omega)
    have hrt := decodeOptional_elim h.parentBeaconBlockRoot [] hash_readsBack
      (fun _ => rfl) hs (by simp; omega)
    simp at hb hes hrt
    simp [hb, hes, hrt]
    rfl
  ne_nil := encodeList_ne_nil hlt

lemma Header.decodeOptional_of_none {β : Type} {field' : Decoder β} {buf : Bytes}
    (h : decodeOptional started len field buf = .ok (none, rest)) :
    decodeOptional started len field' rest = .ok (none, rest) := by
  simp [decodeOptional, bind, Decoder.bind, Decoder.remaining] at h ⊢
  by_cases hlf : started - buf.length < len
  · rw [if_pos hlf] at h
    cases hfd : field buf with
    | error => simp [Decoder.bind, hfd] at h
    | ok => simp [Decoder.bind, hfd, pure, Decoder.pure] at h
  · rw [if_neg hlf] at h
    cases h
    rw [if_neg hlf]
    rfl

lemma Header.decodeOptionals {γ : Type} {P : γ → Prop}
    {f : Option UInt64 → Option UInt64 → Option H256 → γ}
    (h : ∀ blob excess root, (excess.isSome → blob.isSome) → (root.isSome → excess.isSome) →
      P (f blob excess root)) :
    Decoder.Ensures (do
      let blob ← decodeOptional started len decodeU64
      let excess ← decodeOptional started len decodeU64
      let root ← decodeOptional started len (decodeArr 32)
      pure (f blob excess root)) P := by
  intro buf _ _ hd
  simp [bind, Decoder.bind, pure, Decoder.pure] at hd
  cases hb : decodeOptional started len decodeU64 buf with
  | error => simp [hb] at hd
  | ok first =>
    obtain ⟨blob, buf₁⟩ := first
    simp [hb] at hd
    cases hes : decodeOptional started len decodeU64 buf₁ with
    | error => simp [hes] at hd
    | ok second =>
      obtain ⟨excess, buf₂⟩ := second
      simp [hes] at hd
      cases hrt : decodeOptional started len (decodeArr 32) buf₂ with
      | error => simp [hrt] at hd
      | ok third =>
        obtain ⟨root, _⟩ := third
        simp [hrt] at hd
        obtain ⟨rfl, -⟩ := hd
        refine h blob excess root (fun hso => ?_) (fun hso => ?_)
        · cases blob with
          | some => rfl
          | none =>
            rw [decodeOptional_of_none hb] at hes
            cases hes
            cases hso
        · cases excess with
          | some => rfl
          | none =>
            rw [decodeOptional_of_none hes] at hrt
            cases hrt
            cases hso

/-- **Every header that is read is canonical.** -/
lemma Header.decode_canonical : Decoder.Ensures decode Header.Canonical := by
  iterate 15 refine Decoder.Ensures.bind fun _ => ?_
  intro buf header rest hd
  split_ifs at hd with he
  · cases hd
  · revert buf header rest
    iterate 4 refine Decoder.Ensures.bind fun _ => ?_
    exact decodeOptionals fun blob excess root hes hrt =>
      ⟨Nat.not_lt.mp he, hes, hrt⟩

lemma Withdrawal.readsBack {w : Withdrawal} (h : w.encode.length < 2 ^ 64) :
    ReadsBack Withdrawal.decode Withdrawal.encode w where
  read rest := by
    refine decodeStruct_encodeList ?_ (payload_lt h)
    simp [bind, Decoder.bind, append_assoc, decodeU64_encodeU64, decodeArr_encodeString]
    rfl
  ne_nil := encodeList_ne_nil h

structure Block.Canonical (b : Block) : Prop where
  header : b.header.Canonical
  ommers : ∀ o ∈ b.body.ommers, o.Canonical

instance (b : Block) : Decidable b.Canonical :=
  decidable_of_iff (_ ∧ _) ⟨fun h => ⟨h.1, h.2⟩, fun h => ⟨h.header, h.ommers⟩⟩

lemma BlockBody.decode_encode {b : BlockBody} (hc : ∀ o ∈ b.ommers, o.Canonical)
    (h : b.encode.length < 2 ^ 64) (rest : Bytes) :
    BlockBody.decode (b.encode ++ rest) = .ok (b, rest) := by
  have hl := payload_lt h
  have hts := length_le_encodeList (b.transactions.flatMap Tx.encode)
  have homm := length_le_encodeList (b.ommers.flatMap Header.encode)
  have hws := length_le_encodeList (b.withdrawals.flatMap Withdrawal.encode)
  simp at hl
  have htx : ∀ t ∈ b.transactions, ReadsBack Tx.decode Tx.encode t := fun t ht =>
    Tx.readsBack (Nat.lt_of_le_of_lt (length_le_flatMap ht) (by omega))
  have hom : ∀ o ∈ b.ommers, ReadsBack Header.decode Header.encode o := fun o ho =>
    readsBack (hc o ho) (Nat.lt_of_le_of_lt (length_le_flatMap ho) (by omega))
  have hwl : ∀ w ∈ b.withdrawals, ReadsBack Withdrawal.decode Withdrawal.encode w :=
    fun w hw => Withdrawal.readsBack (Nat.lt_of_le_of_lt (length_le_flatMap hw) (by omega))
  simp only [BlockBody.decode, BlockBody.encode, bind, Decoder.bind,
    decodeListHeader_encodeList (payload_lt h)]
  simp (disch := omega) only [append_assoc, decodeHeader_encodeList, decodeItems_flatMap htx,
    decodeItems_flatMap hom, decodeItems_flatMap hwl]
  rfl

/-- **A canonical block reads back.** -/
lemma Block.decode_encode {b : Block} (hc : b.Canonical) (h : b.encode.length < 2 ^ 64)
    (rest : Bytes) : Block.decode (b.encode ++ rest) = .ok (b, rest) := by
  have hl := payload_lt h
  have hp := hl
  rw [length_append] at hp
  simp [Block.decode, Block.encode, bind, Decoder.bind, decodeListHeader_encodeList hl]
  simp [(readsBack hc.header (by omega)).read, BlockBody.decode_encode hc.ommers (by omega)]
  rfl

lemma BlockBody.decode_canonical :
    Decoder.Ensures BlockBody.decode fun b => ∀ o ∈ b.ommers, o.Canonical := by
  iterate 4 refine Decoder.Ensures.bind fun _ => ?_
  refine Decoder.Ensures.bind_of
    (fun buf => decodeWhile_ensures Header.decode_canonical _ _ _ buf) fun _ ho => ?_
  iterate 2 refine Decoder.Ensures.bind fun _ => ?_
  exact .pure ho

/-- **Every block that is read is canonical.** -/
lemma Block.decode_canonical : Decoder.Ensures Block.decode Block.Canonical := by
  refine Decoder.Ensures.bind fun _ => ?_
  refine Decoder.Ensures.bind_of Header.decode_canonical fun _ hhe => ?_
  exact Decoder.Ensures.bind_of BlockBody.decode_canonical fun _ ho => .pure ⟨hhe, ho⟩

end Aii.Chain
