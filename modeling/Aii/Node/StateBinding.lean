/-
Aii.Node.StateBinding — what a root commits to.

A state root determines the map from address hashes to accounts
(`stateRoot_inj`).
-/
import Aii.Chain.RootBinding
import Aii.Node.StateDb

namespace Aii.Node

open Common Common.Rlp Common.OrderedMap Chain Chain.YellowPaper List Backend Except Entries

namespace StateDb

def recordAt (b : Backend) (k : Bytes) : Option Account :=
  (b.get .state k).bind fun v => (readRecord v).toOption

/-- The map that `state_root` hashes. -/
def stateMap (b : Backend) (k : Bytes) : Option Bytes := (recordAt b k).map Account.encode

def AddressHashed (b : Backend) : Prop := ∀ k v, b.get .state k = some v → k.length = 32

variable {c : Crypto} {b b' : Backend} {pairs : List (Bytes × Bytes)} {root : H256}

lemma AddressHashed.setAccount (h : AddressHashed b) (addr : Address) (acc : Account) :
    AddressHashed (setAccount c b addr acc) := by
  intro k v hv
  by_cases hk : k = key c addr
  · rw [hk, key]
    exact length_toList _
  · rw [StateDb.setAccount, get_put_ne (fun _ => hk)] at hv
    exact h k v hv

lemma encode_injective : Function.Injective Account.encode := by
  intro a a' h
  have hread := readRecord_encode a
  rw [h, readRecord_encode] at hread
  exact (ok.inj hread).symm

lemma nodup_iter_keys (b : Backend) (cf : ColumnFamily) : ((b.iter cf).map Prod.fst).Nodup := by
  refine pairwise_map.mpr ((nodup_toList (b.cf cf)).imp_of_mem ?_)
  intro e e' he he' hne hk
  have hv := mem_iter.mp he
  rw [hk, mem_iter.mp (show (e'.1, e'.2) ∈ b.iter cf from he')] at hv
  exact hne (Prod.ext hk (Option.some.inj hv).symm)

lemma rootPairs_spec {entries : List (Bytes × Bytes)} (h : rootPairs entries = .ok pairs) :
    pairs.map Prod.fst = entries.map Prod.fst ∧ ∀ k x, (k, x) ∈ pairs ↔
      ∃ v acc, (k, v) ∈ entries ∧ readRecord v = .ok acc ∧ x = acc.encode := by
  induction entries generalizing pairs with
  | nil =>
    cases h
    simp
  | cons e rest ih =>
    obtain ⟨k₀, v₀⟩ := e
    rw [rootPairs] at h
    cases hread : readRecord v₀ with
    | error =>
      rw [hread] at h
      cases h
    | ok acc =>
      rw [hread] at h
      cases hrs : rootPairs rest with
      | error =>
        rw [hrs] at h
        cases h
      | ok =>
        rw [hrs] at h
        cases h
        obtain ⟨hks, hm⟩ := ih hrs
        refine ⟨by simp [hks], fun k x => ?_⟩
        simp only [mem_cons, Prod.mk.injEq, hm]
        constructor
        · rintro (⟨rfl, rfl⟩ | ⟨v, acc, hv, ha, rfl⟩)
          · exact ⟨v₀, acc, .inl ⟨rfl, rfl⟩, hread, rfl⟩
          · exact ⟨v, acc, .inr hv, ha, rfl⟩
        · rintro ⟨v, acc', ⟨rfl, rfl⟩ | hv, ha, rfl⟩
          · grind
          · exact .inr ⟨v, acc', hv, ha, rfl⟩

lemma stateMap_eq_some_iff {k x : Bytes} : stateMap b k = some x ↔
    ∃ v acc, b.get .state k = some v ∧ readRecord v = .ok acc ∧ x = acc.encode := by
  rw [stateMap, recordAt]
  cases b.get .state k with
  | none => simp
  | some v => cases hread : readRecord v <;> simp [hread, Except.toOption, eq_comm]

lemma lists_rootPairs (h : rootPairs (b.iter .state) = .ok pairs) : Lists pairs (stateMap b) := by
  obtain ⟨hks, hm⟩ := rootPairs_spec h
  constructor
  · refine List.Nodup.of_map Prod.fst ?_
    rw [hks]
    exact nodup_iter_keys b .state
  · intro k x
    rw [hm, stateMap_eq_some_iff]
    simp only [mem_iter]

lemma AddressHashed.storable (h : AddressHashed b) : Storable (stateMap b) := by
  constructor
  · intro k x hx
    obtain ⟨v, acc, -, -, rfl⟩ := stateMap_eq_some_iff.mp hx
    obtain ⟨byte, rest, hhd, -⟩ := encodeList_head (encodeU64 acc.nonce ++
      encodeU256 acc.balance ++ encodeString acc.storageRoot.toList ++
      encodeString acc.codeHash.toList)
    rw [Account.encode, hhd]
    exact cons_ne_nil _ _
  · intro k x hx
    obtain ⟨v, acc, hv, -, rfl⟩ := stateMap_eq_some_iff.mp hx
    have hk := h k v hv
    have hl := acc.length_encode_le
    omega

lemma stateRoot_ok (h : stateRoot c b = .ok root) :
    ∃ pairs, rootPairs (b.iter .state) = .ok pairs ∧ mptRoot c pairs = root := by
  rw [stateRoot] at h
  cases hps : rootPairs (b.iter .state) with
  | error =>
    rw [hps] at h
    cases h
  | ok pairs =>
    rw [hps] at h
    exact ⟨pairs, rfl, ok.inj h⟩

lemma stateRoot_inj (hem : c.keccak256 [0x80] = EMPTY_TRIE_HASH)
    (hcf : CollisionFree c (stateMap b) (stateMap b')) (hb : AddressHashed b)
    (hb' : AddressHashed b') (h : stateRoot c b = .ok root) (h' : stateRoot c b' = .ok root)
    (k : Bytes) : recordAt b k = recordAt b' k := by
  obtain ⟨pairs, hps, hrt⟩ := stateRoot_ok h
  obtain ⟨pairs', hps', hrt'⟩ := stateRoot_ok h'
  have hm := mptRoot_inj hem hcf hb.storable hb'.storable
    (lists_rootPairs hps) (lists_rootPairs hps') (hrt.trans hrt'.symm)
  exact Option.map_injective encode_injective (congrFun hm k)

end StateDb

open StateDb

/-- **Root binding**, where the hash does not collide on the nodes of the
two tries. -/
theorem roots_bind {c : Crypto} (hempty : c.keccak256 [0x80] = EMPTY_TRIE_HASH) :
    (∀ m m' items items', Lists items m → Lists items' m' → Storable m → Storable m' →
      CollisionFree c m m' → mptRoot c items = mptRoot c items' → m = m') ∧
    (∀ body body', BodySized body → BodySized body' → CollisionFree c (txMap body) (txMap body') →
      transactionsRoot c body = transactionsRoot c body' → body.transactions = body'.transactions) ∧
    (∀ b b' root, AddressHashed b → AddressHashed b' →
      CollisionFree c (stateMap b) (stateMap b') → stateRoot c b = .ok root →
      stateRoot c b' = .ok root → ∀ k, recordAt b k = recordAt b' k) := by
  refine ⟨?_, ?_, ?_⟩
  · intro m m' items items' h h' hm hm' hcf heq
    exact mptRoot_inj hempty hcf hm hm' h h' heq
  · intro body body' hb hb' hcf heq
    exact transactionsRoot_inj hempty hcf hb hb' heq
  · intro b b' root hb hb' hcf h h' k
    exact stateRoot_inj hempty hcf hb hb' h h' k

def leafBytes (x : List UInt8) (v : Bytes) : Bytes :=
  (RlpTree.list [.str (hp x true), .str v]).encode

def leafChain (k v : Bytes) : List Bytes :=
  [0x80] :: (List.range ((nibbles k).length + 1)).map fun i => leafBytes ((nibbles k).drop i) v

variable {c : Crypto} {m : Bytes → Option Bytes} {k v : Bytes}

lemma nodeBytes_single (h : Lists [(k, v)] m) {bs : Bytes} (hbs : bs ∈ NodeBytes c (entries m)) :
    bs ∈ leafChain k v := by
  have ho : entries m = {(nibbles k, v)} := by
    ext ⟨x, w⟩
    simp [entries, ← h.mem]
  obtain ⟨p, t, ht, rfl⟩ := hbs
  rw [ho] at ht
  obtain ⟨⟨x, w⟩, hx⟩ := ht.nonempty
  obtain ⟨hk, rfl⟩ : p ++ x = nibbles k ∧ w = v := by simpa [mem_after] using hx
  have hi : ({(nibbles k, w)} : Set Entry) = under p '' {(x, w)} := by
    rw [Set.image_singleton, under, hk]
  rw [hi, after_under_image] at ht
  rw [ht.unique (.leaf x w)]
  refine mem_cons_of_mem _ (mem_map.mpr ⟨p.length, ?_, ?_⟩)
  · grind
  · rw [← hk, drop_left' rfl, leafBytes]

lemma collisionFree_single {m' : Bytes → Option Bytes} (h : Lists [(k, v)] m)
    (h' : Lists [(k, v)] m')
    (hd : ((leafChain k v).map fun bs => ofBe (c.keccak256 bs).toList).IsChain (· > ·)) :
    CollisionFree c m m' := by
  have hm : ∀ bs ∈ {[0x80]} ∪ (NodeBytes c (entries m) ∪ NodeBytes c (entries m')),
      bs ∈ leafChain k v := by
    rintro bs (rfl | hbs | hbs)
    · exact mem_cons_self
    · exact nodeBytes_single h hbs
    · exact nodeBytes_single h' hbs
  have hnp := hd.pairwise.imp (S := (· ≠ ·)) fun hlt => (Nat.ne_of_lt hlt).symm
  intro bs hbs bs' hbs' heq
  exact inj_on_of_nodup_map hnp (hm bs hbs) (hm bs' hbs') (by rw [heq])

def oneTx : Tx :=
  .legacy ⟨0, 1, 21000, some (Arr.zero 20), 5, [], 27, Arr.zero 32, Arr.zero 32, .secp256k1⟩

def oneTxBody (withdrawals : List Withdrawal) : BlockBody := ⟨[oneTx], [], withdrawals⟩

def oneAccount : Backend := setAccount shapeCrypto .empty (Arr.zero 20) .EMPTY

lemma lists_oneTx (withdrawals : List Withdrawal) :
    Lists [([0x80], oneTx.encode2718)] (txMap (oneTxBody withdrawals)) := by
  have hl : [oneTx.encode2718].length < 2 ^ 64 := by decide
  exact lists_indexedPairs hl

lemma rootPairs_oneAccount : rootPairs (oneAccount.iter .state) =
    .ok [(key shapeCrypto (Arr.zero 20), Account.EMPTY.encode)] := by
  decide +kernel

theorem roots_bind_single : txMap (oneTxBody []) = txMap (oneTxBody [⟨0, 0, Arr.zero 20, 1⟩]) ∧
      (oneTxBody []).transactions = (oneTxBody [⟨0, 0, Arr.zero 20, 1⟩]).transactions ∧
      ∀ k, recordAt oneAccount k = recordAt (codePut oneAccount (Arr.zero 32) [1]) k := by
  obtain ⟨hm, hbo, hst⟩ := roots_bind (c := shapeCrypto) rfl
  have hs : ∀ ws, BodySized (oneTxBody ws) := fun ws =>
    ⟨show [oneTx].length < 2 ^ 64 by decide, forall_mem_singleton.mpr (by decide)⟩
  have hcf := collisionFree_single (c := shapeCrypto) (lists_oneTx [])
    (lists_oneTx [⟨0, 0, Arr.zero 20, 1⟩]) (by decide +kernel)
  refine ⟨?_, ?_, ?_⟩
  · exact hm _ _ _ _ (lists_oneTx _) (lists_oneTx _) (hs _).storable (hs _).storable hcf
      rfl
  · exact hbo _ _ (hs _) (hs _) hcf rfl
  · have hstate : (codePut oneAccount (Arr.zero 32) [1]).cf .state = oneAccount.cf .state :=
      Backend.cf_put_ne (by decide)
    have hks : AddressHashed oneAccount := AddressHashed.setAccount (fun k v hv => by cases hv) _ _
    have hps := rootPairs_oneAccount
    rw [Backend.iter, ← hstate] at hps
    refine hst _ _ _ hks ?_ ?_ (by rw [stateRoot, rootPairs_oneAccount]; rfl) ?_
    · intro k v hv
      rw [Backend.get, hstate] at hv
      exact hks k v hv
    · exact collisionFree_single (lists_rootPairs rootPairs_oneAccount) (lists_rootPairs hps)
        (by decide +kernel)
    · rw [stateRoot, Backend.iter, hps]
      rfl

end Aii.Node
