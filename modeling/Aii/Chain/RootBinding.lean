/-
Aii.Chain.RootBinding — a root hash binds the map it was computed from.

The argument goes down from the top node, as the hash does not collide ON
THE NODES OF THE TWO TREES.
-/
import Aii.Chain.BlockCodec
import Aii.Chain.TrieCorrect

namespace Aii.Chain

namespace YellowPaper

open Common Common.Rlp Common.Entries List UInt8 RlpTree UInt64

lemma nibbles_byte {a b : UInt8} (ha : a < 16) (hb : b < 16) :
    (16 * a + b) / 16 = a ∧ (16 * a + b) % 16 = b := by
  rw [UInt8.lt_iff_toNat_lt] at ha hb
  simp [UInt8.reduceToNat] at ha hb
  simp [← UInt8.toNat_inj, UInt8.toNat_div, UInt8.toNat_mod, UInt8.toNat_add,
    UInt8.toNat_mul, UInt8.reduceToNat]
  omega

variable {I : Set Entry} {t : RlpTree} {N : Set Bytes} {x : List UInt8} {p : List UInt8}
  {t? : Option RlpTree} {t' : RlpTree} {I' : Set Entry}

lemma nibbles_pack (hx : Nibbles x) (he : x.length % 2 = 0) : nibbles (pack x) = x := by
  induction x using pack.induct with
  | case1 a b _ ih =>
    obtain ⟨hhh, hl⟩ := nibbles_byte (hx a (by simp)) (hx b (by simp))
    have hrs := ih (fun n hn => hx n (by simp [hn])) (by simp at he; omega)
    rw [pack, nibbles_cons, hhh, hl, hrs]
  | case2 x hsh =>
    cases x with
    | nil => rfl
    | cons a rest =>
      cases rest with
      | nil => simp at he
      | cons b rest => exact absurd rfl (hsh a b rest)

lemma nibbles_hp (hx : Nibbles x) (t : Bool) :
    nibbles (hp x t) = if x.length % 2 = 1 then (flag t + 1) :: x else flag t :: 0 :: x := by
  have he : ∀ rest, nibbles (16 * flag t :: rest) = flag t :: 0 :: nibbles rest := by
    intro _
    cases t <;> rfl
  cases x with
  | nil => exact he []
  | cons n rest =>
    have hn := hx n mem_cons_self
    have hrs : Nibbles rest := (forall_mem_cons.mp hx).2
    have hfg : flag t + 1 < 16 := by cases t <;> decide
    simp only [hp]
    split_ifs with ho
    · obtain ⟨hhh, hl⟩ := nibbles_byte hfg hn
      rw [length_cons] at ho
      rw [nibbles_cons, hhh, hl, nibbles_pack hrs (by omega)]
    · rw [he, nibbles_pack hx (by omega)]

lemma hp_inj {x' : List UInt8} {t t' : Bool} (hx : Nibbles x) (hx' : Nibbles x')
    (h : hp x t = hp x' t') : x = x' ∧ t = t' := by
  have hn := congrArg nibbles h
  rw [nibbles_hp hx, nibbles_hp hx'] at hn
  split_ifs at hn <;> obtain ⟨hfg, htl⟩ := cons.inj hn
  · cases t <;> cases t' <;> first | exact ⟨htl, rfl⟩ | cases hfg
  · cases t <;> cases t' <;> cases hfg
  · cases t <;> cases t' <;> cases hfg
  · cases t <;> cases t' <;> first | exact ⟨(cons.inj htl).2, rfl⟩ | cases hfg

lemma length_pack_le (x : List UInt8) : (pack x).length ≤ x.length := by
  induction x using pack.induct with
  | case1 =>
    simp [pack]
    omega
  | case2 x hsh =>
    rw [pack.eq_2 x hsh]
    exact Nat.zero_le _

lemma length_hp_le (x : List UInt8) (t : Bool) : (hp x t).length ≤ x.length + 1 := by
  cases x with
  | nil => exact Nat.le_refl _
  | cons n rest =>
    have hrs := length_pack_le rest
    have ha := length_pack_le (n :: rest)
    simp [hp]
    split_ifs <;> simp at * <;> omega

/-- Entries a tree can be read back from. -/
structure Sound (I : Set Entry) : Prop where
  nibbled : ∀ e ∈ I, Nibbles e.1
  stored : ∀ e ∈ I, e.2 ≠ []
  sized : ∀ e ∈ I, e.1.length + e.2.length < 2 ^ 63

lemma Sound.after (h : Sound I) (p : List UInt8) : Sound (after p I) where
  nibbled e he n hn := h.nibbled _ (mem_after.mp he) n (mem_append_right p hn)
  stored e he := h.stored (p ++ e.1, e.2) (mem_after.mp he)
  sized e he := by
    have hl := h.sized _ (mem_after.mp he)
    simp at hl
    omega

lemma Sound.of_under (h : Sound (under p '' I)) : Sound I := after_under_image p I ▸ h.after p

lemma Sound.path (h : Sound (under p '' I)) (hne : I.Nonempty) : Nibbles p := by
  obtain ⟨e, he⟩ := hne
  intro n hn
  exact h.nibbled _ (Set.mem_image_of_mem _ he) n (mem_append_left e.1 hn)

variable {c : Crypto}

lemma length_ref_le (t? : Option RlpTree) : (ref c t?).encode.length ≤ 33 := by
  cases t? with
  | none => simp [ref, encode, encodeString, encodeHeader]
  | some =>
    simp [ref]
    split_ifs with hsh
    · omega
    · show (encodeString _).length ≤ 33
      rw [encodeString_of_length (by simp)]
      simp [encodeHeader]

lemma ref_fits (h : ∀ t, t? = some t → t.Fits) : (ref c t?).Fits := by
  cases t? with
  | none => exact .str (by decide)
  | some t =>
    simp [ref]
    split_ifs with hsh
    · exact h t rfl
    · exact .str (by simp)

lemma Composed.fits (h : Composed c I t) (hI : Sound I) : t.Fits := by
  induction h with
  | leaf k v =>
    have hsz : k.length + v.length < 2 ^ 63 := hI.sized (k, v) rfl
    have hpa := length_hp_le k true
    have hp' := encodeString_length_le (hp k true)
    have hv := encodeString_length_le v
    refine .list ?_ (forall_mem_cons.mpr ⟨.str (by omega), ?_⟩)
    · simp [encodeAll, encode]
      omega
    · exact forall_mem_singleton.mpr (.str (by omega))
  | @extension p _ t _ several _ _ ih =>
    obtain ⟨e, he⟩ := several.nonempty
    have hsz := hI.sized _ (Set.mem_image_of_mem (under p) he)
    simp [under] at hsz
    have hpa := length_hp_le p false
    have hp' := encodeString_length_le (hp p false)
    have hrf := length_ref_le (c := c) (some t)
    refine .list ?_ (forall_mem_cons.mpr ⟨.str (by omega), ?_⟩)
    · simp [encodeAll, encode]
      omega
    · refine forall_mem_singleton.mpr (ref_fits ?_)
      rintro _ ⟨⟩
      exact ih hI.of_under
  | @branch I children value _ _ _ _ stored unset ih =>
    have hvl : value.length < 2 ^ 63 := by
      by_cases hv : ∃ v, ([], v) ∈ I
      · obtain ⟨v, hv⟩ := hv
        rw [stored v hv]
        exact Nat.lt_of_le_of_lt (Nat.le_add_left _ _) (hI.sized _ hv)
      · rw [unset (not_exists.mp hv)]
        decide
    have hv := encodeString_length_le value
    have hr : (encodeAll (ofFn fun a => ref c (children a))).length ≤
        (ofFn fun a => ref c (children a)).length * 33 := by
      refine length_encodeAll_le ?_
      intro t ht
      obtain ⟨a, rfl⟩ := mem_ofFn.mp ht
      exact length_ref_le _
    rw [length_ofFn] at hr
    refine .list ?_ ?_
    · rw [encodeAll_append, length_append]
      simp only [encodeAll, encode, append_nil]
      omega
    · intro t ht
      rcases mem_append.mp ht with ht | ht
      · obtain ⟨a, rfl⟩ := mem_ofFn.mp ht
        exact ref_fits fun t ht => ih a t ht (hI.after _)
      · obtain rfl := mem_singleton.mp ht
        exact .str (by omega)

/-! ## Going down two trees -/

/-- The bytes of all nodes in the tree of `I`. -/
def NodeBytes (c : Crypto) (I : Set Entry) : Set Bytes :=
  {bs | ∃ p t, Composed c (after p I) t ∧ bs = t.encode}

lemma Composed.mem_nodeBytes (h : Composed c I t) : t.encode ∈ NodeBytes c I := ⟨[], t, h, rfl⟩

lemma nodeBytes_after (p : List UInt8) (I : Set Entry) :
    NodeBytes c (after p I) ⊆ NodeBytes c I := by
  rintro _ ⟨q, t, ht, rfl⟩
  rw [after_after] at ht
  exact ⟨p ++ q, t, ht, rfl⟩

lemma nodeBytes_under (p : List UInt8) (I : Set Entry) :
    NodeBytes c I ⊆ NodeBytes c (under p '' I) := by
  have haf := nodeBytes_after (c := c) p (under p '' I)
  rwa [after_under_image] at haf

/-- A node whose bytes are in `N`. -/
structure NodeIn (N : Set Bytes) (t : RlpTree) : Prop where
  list : ∃ ts, t = .list ts
  fits : t.Fits
  mem : t.encode ∈ N

lemma Composed.nodeIn (h : Composed c I t) (hI : Sound I) (hN : NodeBytes c I ⊆ N) :
    NodeIn N t where
  list := by cases h <;> exact ⟨_, rfl⟩
  fits := h.fits hI
  mem := hN h.mem_nodeBytes

lemma NodeIn.ref_ne_none (h : NodeIn N t) : ref c (some t) ≠ ref c none := by
  obtain ⟨ts, rfl⟩ := h.list
  intro heq
  simp [ref] at heq
  split_ifs at heq with hsh
  have hl := congrArg length (str.inj heq)
  simp at hl

lemma NodeIn.ref_inj (hN : Set.InjOn c.keccak256 N) (h : NodeIn N t) (h' : NodeIn N t')
    (heq : ref c (some t) = ref c (some t')) : t = t' := by
  obtain ⟨ts, hts⟩ := h.list
  obtain ⟨_, hts'⟩ := h'.list
  simp [ref] at heq
  split_ifs at heq with hsh hsh' hsh'
  · exact heq
  · cases hts.symm.trans heq
  · cases hts'.symm.trans heq.symm
  · have hhs := toList_inj.mp (str.inj heq)
    exact encode_inj h.fits h'.fits (hN h.mem h'.mem hhs)

lemma ref_option_inj (hN : Set.InjOn c.keccak256 N) {t?' : Option RlpTree}
    (h : ∀ t ∈ t?, NodeIn N t) (h' : ∀ t ∈ t?', NodeIn N t) (heq : ref c t? = ref c t?') :
    t? = t?' := by
  cases t? with
  | none =>
    cases t?' with
    | none => rfl
    | some t' => exact absurd heq.symm (h' t' rfl).ref_ne_none
  | some t =>
    cases t?' with
    | none => exact absurd heq (h t rfl).ref_ne_none
    | some t' => rw [(h t rfl).ref_inj hN (h' t' rfl) heq]

lemma subset_of_slots (hI : Sound I) {value : Bytes} (stored : ∀ v, ([], v) ∈ I → value = v)
    (stored' : ∀ v, ([], v) ∈ I' → value = v) (unset' : (∀ v, ([], v) ∉ I') → value = [])
    (hss : ∀ a : Fin 16, after [UInt8.ofNat a] I = after [UInt8.ofNat a] I') : I ⊆ I' := by
  rintro ⟨k, v⟩ he
  cases k with
  | nil =>
    -- the value is not empty, so the other branch stores it too
    by_contra ho
    have hnn : ∀ v', ([], v') ∉ I' := by grind
    exact hI.stored _ he ((stored v he).symm.trans (unset' hnn))
  | cons n k =>
    have hn := UInt8.lt_iff_toNat_lt.mp (hI.nibbled _ he n mem_cons_self)
    have hsl := hss ⟨n.toNat, hn⟩
    simp [UInt8.ofNat_toNat] at hsl
    have hin : (k, v) ∈ after [n] I := he
    rw [hsl] at hin
    exact hin

/-- **A tree determines its entries**, as long as the hash does not
collide on the nodes of the two trees. -/
lemma Composed.entries_eq (hN : Set.InjOn c.keccak256 N) (h : Composed c I t)
    (h' : Composed c I' t') (hI : Sound I) (hI' : Sound I') (hsub : NodeBytes c I ⊆ N)
    (hsub' : NodeBytes c I' ⊆ N) (heq : t = t') : I = I' := by
  induction h generalizing I' t' with
  | leaf k v =>
    cases h' with
    | leaf k' =>
      simp [list.injEq, cons.injEq, str.injEq] at heq
      obtain ⟨hpa, rfl⟩ := heq
      obtain ⟨rfl, -⟩ := hp_inj (hI.nibbled (k, v) rfl) (hI'.nibbled (k', v) rfl) hpa
      rfl
    | @extension _ _ _ _ several =>
      simp [list.injEq, cons.injEq, str.injEq] at heq
      obtain ⟨-, hfg⟩ := hp_inj (hI.nibbled (k, v) rfl) (hI'.path several.nonempty) heq.1
      cases hfg
    | branch =>
      exact absurd (congrArg length (list.inj heq)) (by simp)
  | @extension p I _ _ several _ child ih =>
    have hp' := hI.path several.nonempty
    cases h' with
    | leaf k' v' =>
      simp [list.injEq, cons.injEq, str.injEq] at heq
      obtain ⟨-, hfg⟩ := hp_inj hp' (hI'.nibbled (k', v') rfl) heq.1
      cases hfg
    | @extension _ I' _ _ several' _ child' =>
      simp [list.injEq, cons.injEq, str.injEq] at heq
      obtain ⟨hpa, hr⟩ := heq
      obtain ⟨rfl, -⟩ := hp_inj hp' (hI'.path several'.nonempty) hpa
      have hdow := (nodeBytes_under p I).trans hsub
      have hdow' := (nodeBytes_under p I').trans hsub'
      have htr := (child.nodeIn hI.of_under hdow).ref_inj hN
        (child'.nodeIn hI'.of_under hdow') hr
      rw [ih child' hI.of_under hI'.of_under hdow hdow' htr]
    | branch =>
      exact absurd (congrArg length (list.inj heq)) (by simp)
  | @branch I children value _ _ present absent stored unset ih =>
    cases h' with
    | leaf | extension =>
      exact absurd (congrArg length (list.inj heq)) (by simp)
    | @branch _ children' value' _ _ present' absent' stored' unset' =>
      obtain ⟨hrf, hlast⟩ := append_inj (list.inj heq) (by simp)
      obtain rfl : value = value' := by simpa using hlast
      have hc : ∀ a, children a = children' a := by
        intro a
        refine ref_option_inj hN ?_ ?_ (congrFun (ofFn_injective hrf) a)
        · intro t ht
          exact (present a t ht).nodeIn (hI.after _) ((nodeBytes_after _ I).trans hsub)
        · intro t ht
          exact (present' a t ht).nodeIn (hI'.after _) ((nodeBytes_after _ I').trans hsub')
      have hss : ∀ a : Fin 16, after [UInt8.ofNat a] I = after [UInt8.ofNat a] I' := by
        intro a
        cases ha : children a with
        | none => rw [absent a ha, absent' a (hc a ▸ ha)]
        | some t =>
          exact ih a t ha (present' a t (hc a ▸ ha)) (hI.after _) (hI'.after _)
            ((nodeBytes_after _ I).trans hsub) ((nodeBytes_after _ I').trans hsub') rfl
      exact Set.Subset.antisymm (subset_of_slots hI stored stored' unset' hss)
        (subset_of_slots hI' stored' stored unset fun a => (hss a).symm)

end YellowPaper

open YellowPaper Common Common.Entries Common.Rlp

variable {c : Crypto} {m m' : Bytes → Option Bytes} {values : List Bytes}
  {items : List (Bytes × Bytes)} {body : BlockBody}

/-! ## Roots -/

/-- Entries of a size that a process can hold, without empty values. -/
structure Storable (m : Bytes → Option Bytes) : Prop where
  stored : ∀ k v, m k = some v → v ≠ []
  sized : ∀ k v, m k = some v → k.length + v.length < 2 ^ 62

lemma length_nibbles (bs : Bytes) : (nibbles bs).length = 2 * bs.length := by
  induction bs with
  | nil => rfl
  | cons _ _ ih =>
    rw [nibbles_cons, List.length_cons, List.length_cons, ih, List.length_cons]
    omega

lemma Storable.sound (h : Storable m) : Sound (entries m) where
  nibbled := by
    rintro ⟨_, v⟩ ⟨k, rfl, -⟩
    exact nibbles_nibbles k
  stored := by
    rintro ⟨_, v⟩ ⟨k, -, hkv⟩
    exact h.stored k v hkv
  sized := by
    rintro ⟨_, v⟩ ⟨k, rfl, hkv⟩
    have hl := h.sized k v hkv
    show (nibbles k).length + v.length < 2 ^ 63
    rw [length_nibbles]
    omega

lemma entries_injective : Function.Injective entries := by
  intro m m' h
  funext k
  ext v
  have hm : ∀ m : Bytes → Option Bytes, m k = some v ↔ (nibbles k, v) ∈ entries m := by
    intro m
    constructor
    · exact fun hkv => ⟨k, rfl, hkv⟩
    · rintro ⟨k', hk, hkv⟩
      rwa [nibbles_injective hk]
  rw [hm m, hm m', h]

/-- The hash does not collide on the nodes of the two trees and the
encoding of the empty string. -/
def CollisionFree (c : Crypto) (m m' : Bytes → Option Bytes) : Prop :=
  Set.InjOn c.keccak256 ({[0x80]} ∪ (NodeBytes c (entries m) ∪ NodeBytes c (entries m')))

lemma encode_ne_empty {I : Set Entry} {t : RlpTree} (h : Composed c I t) (hI : Sound I) :
    t.encode ≠ [0x80] := by
  intro heq
  obtain ⟨⟨ts, rfl⟩, hfi, -⟩ := h.nodeIn hI (Set.Subset.refl _)
  have hs : (RlpTree.str []).Fits := .str (by decide)
  cases RlpTree.encode_inj hfi hs heq

lemma isRoot_inj (hcf : CollisionFree c m m') (hm : Storable m) (hm' : Storable m') {root : H256}
    (h : IsRoot c m root) (h' : IsRoot c m' root) : m = m' := by
  have hsub : NodeBytes c (entries m) ⊆
      {[0x80]} ∪ (NodeBytes c (entries m) ∪ NodeBytes c (entries m')) :=
    fun bs hbs => .inr (.inl hbs)
  have hsub' : NodeBytes c (entries m') ⊆
      {[0x80]} ∪ (NodeBytes c (entries m) ∪ NodeBytes c (entries m')) :=
    fun bs hbs => .inr (.inr hbs)
  refine entries_injective ?_
  rcases h with ⟨hem, rfl⟩ | ⟨t, ht, rfl⟩ <;> rcases h' with ⟨hem', heq⟩ | ⟨t', ht', heq⟩
  · rw [hem, hem']
  · have hbt := hcf (.inl rfl) (hsub' ht'.mem_nodeBytes) heq
    exact absurd hbt.symm (encode_ne_empty ht' hm'.sound)
  · have hbt := hcf (hsub ht.mem_nodeBytes) (.inl rfl) heq
    exact absurd hbt (encode_ne_empty ht hm.sound)
  · have hbt := hcf (hsub ht.mem_nodeBytes) (hsub' ht'.mem_nodeBytes) heq
    have htr := RlpTree.encode_inj (ht.fits hm.sound) (ht'.fits hm'.sound) hbt
    exact ht.entries_eq hcf ht' hm.sound hm'.sound hsub hsub' htr

lemma mptRoot_inj {items' : List (Bytes × Bytes)} (hem : c.keccak256 [0x80] = EMPTY_TRIE_HASH)
    (hcf : CollisionFree c m m') (hm : Storable m) (hm' : Storable m') (h : Lists items m)
    (h' : Lists items' m') (heq : mptRoot c items = mptRoot c items') : m = m' :=
  isRoot_inj hcf hm hm' (mptRoot_isRoot h hem) (heq ▸ mptRoot_isRoot h' hem)

/-! ## Indexed lists -/

def mapOf (items : List (Bytes × Bytes)) (k : Bytes) : Option Bytes :=
  (items.find? fun e => e.1 == k).map Prod.snd

lemma lists_mapOf (h : (items.map Prod.fst).Nodup) : Lists items (mapOf items) := by
  refine ⟨h.of_map, fun k v => ?_⟩
  have hfn : (items.find? fun e => e.1 == k) = some (k, v) ↔ (k, v) ∈ items := by
    constructor
    · exact List.mem_of_find?_eq_some
    · intro hm
      cases hf : items.find? fun e => e.1 == k with
      | none => exact absurd (List.find?_eq_none.mp hf _ hm) (by simp)
      | some e =>
        have hk : e.1 = k := by simpa using List.find?_some hf
        rw [List.inj_on_of_nodup_map h (List.mem_of_find?_eq_some hf) hm hk]
  rw [← hfn, mapOf]
  cases hf : items.find? fun e => e.1 == k with
  | none => simp
  | some e => grind

lemma mem_indexedPairs {k v : Bytes} :
    (k, v) ∈ indexedPairs values ↔ ∃ i, values[i]? = some v ∧ k = encodeU64 (UInt64.ofNat i) := by
  simp only [indexedPairs, List.mem_map, Prod.mk.injEq, Prod.exists, List.mem_zipIdx_iff_getElem?]
  constructor
  · grind
  · grind

lemma encodeU64_index_inj {i j : Nat} (hi : i < 2 ^ 64) (hj : j < 2 ^ 64)
    (h : encodeU64 (UInt64.ofNat i) = encodeU64 (UInt64.ofNat j)) : i = j := by
  have ha : encodeU64 (UInt64.ofNat i) ++ [] = encodeU64 (UInt64.ofNat j) ++ [] := by rw [h]
  have hn := congrArg UInt64.toNat (encodeU64_append_inj ha).1
  rwa [UInt64.toNat_ofNat_of_lt' hi, UInt64.toNat_ofNat_of_lt' hj] at hn

lemma lists_indexedPairs (hl : values.length < 2 ^ 64) :
    Lists (indexedPairs values) (mapOf (indexedPairs values)) := by
  refine lists_mapOf ?_
  have hks : (indexedPairs values).map Prod.fst =
      (List.range values.length).map fun i => encodeU64 (UInt64.ofNat i) := by
    rw [List.range_eq_range', ← List.zipIdx_map_snd 0 values, indexedPairs, List.map_map,
      List.map_map]
    rfl
  rw [hks]
  refine List.nodup_range.map_on fun i hi j hj => ?_
  rw [List.mem_range] at hi hj
  exact encodeU64_index_inj (by omega) (by omega)

lemma values_eq_of_mapOf_eq {values' : List Bytes} (hlen : values.length < 2 ^ 64)
    (hlen' : values'.length < 2 ^ 64)
    (h : mapOf (indexedPairs values) = mapOf (indexedPairs values')) : values = values' := by
  have hread : ∀ (values : List Bytes) (hlen : values.length < 2 ^ 64) (i : Nat) (v : Bytes),
      i < 2 ^ 64 → (values[i]? = some v ↔
        mapOf (indexedPairs values) (encodeU64 (UInt64.ofNat i)) = some v) := by
    intro values hlen i v hi
    rw [← (lists_indexedPairs hlen).mem, mem_indexedPairs]
    constructor
    · exact fun hv => ⟨i, hv, rfl⟩
    · rintro ⟨j, hj, hk⟩
      have hjl := (List.getElem?_eq_some_iff.mp hj).1
      rwa [encodeU64_index_inj hi (by omega) hk]
  refine List.ext_getElem? fun i => ?_
  by_cases hi : i < 2 ^ 64
  · ext v
    rw [hread values hlen i v hi, hread values' hlen' i v hi, h]
  · rw [List.getElem?_eq_none (by omega), List.getElem?_eq_none (by omega)]

lemma encodeU64_length_le (x : UInt64) : (encodeU64 x).length ≤ 17 := by
  have hl := stripZeros_length_le (toBe 8 x.toNat)
  have hs := encodeString_length_le (stripZeros (toBe 8 x.toNat))
  rw [toBe_length] at hl
  rw [encodeU64, encodeUint]
  omega

structure BodySized (body : BlockBody) : Prop where
  count : body.transactions.length < 2 ^ 64
  each : ∀ tx ∈ body.transactions, tx.encode2718.length < 2 ^ 61

/-- The map that `transactions_root` hashes. -/
def txMap (body : BlockBody) : Bytes → Option Bytes :=
  mapOf (indexedPairs (body.transactions.map Tx.encode2718))

lemma encode2718_ne_nil (tx : Tx) : tx.encode2718 ≠ [] := by
  cases tx with
  | legacy t =>
    obtain ⟨b, _, hhd, -⟩ := encodeList_head (t.core ++ encodeU64 t.v ++
      encodeString t.r.toList ++ encodeString t.s.toList ++ encodeAlgo t.algoId)
    show t.encode ≠ []
    rw [TxLegacy.encode, hhd]
    exact List.cons_ne_nil _ _
  | eip1559 | eip4844 => exact List.cons_ne_nil _ _

lemma BodySized.storable (h : BodySized body) : Storable (txMap body) := by
  have hl : (body.transactions.map Tx.encode2718).length < 2 ^ 64 := by simpa using h.count
  have hen : ∀ k v, txMap body k = some v → ∃ tx ∈ body.transactions, ∃ i,
      v = tx.encode2718 ∧ k = encodeU64 (UInt64.ofNat i) := by
    intro k v hkv
    obtain ⟨i, hi, rfl⟩ := mem_indexedPairs.mp (((lists_indexedPairs hl).mem k v).mpr hkv)
    obtain ⟨tx, htx, rfl⟩ := List.mem_map.mp (List.mem_of_getElem? hi)
    exact ⟨tx, htx, i, rfl, rfl⟩
  constructor
  · intro k v hkv
    obtain ⟨tx, -, i, rfl, -⟩ := hen k v hkv
    exact encode2718_ne_nil tx
  · intro k v hkv
    obtain ⟨tx, htx, i, rfl, rfl⟩ := hen k v hkv
    have hk := encodeU64_length_le (UInt64.ofNat i)
    have hv := h.each tx htx
    omega

lemma map_encode2718_inj {l l' : List Tx} (hl : ∀ tx ∈ l, tx.encode2718.length < 2 ^ 61)
    (hl' : ∀ tx ∈ l', tx.encode2718.length < 2 ^ 61)
    (h : l.map Tx.encode2718 = l'.map Tx.encode2718) : l = l' := by
  induction l generalizing l' with
  | nil => exact (List.map_eq_nil_iff.mp h.symm).symm
  | cons _ _ ih =>
    cases l' with
    | nil => cases h
    | cons =>
      obtain ⟨htx, hrs⟩ := List.cons.inj h
      obtain ⟨hlen, hl⟩ := List.forall_mem_cons.mp hl
      obtain ⟨hlen', hl'⟩ := List.forall_mem_cons.mp hl'
      rw [Tx.encode2718_inj (by omega) (by omega) htx, ih hl hl' hrs]

lemma transactionsRoot_inj {body' : BlockBody} (hem : c.keccak256 [0x80] = EMPTY_TRIE_HASH)
    (hcf : CollisionFree c (txMap body) (txMap body')) (hb : BodySized body) (hb' : BodySized body')
    (heq : transactionsRoot c body = transactionsRoot c body') :
    body.transactions = body'.transactions := by
  have hlen : (body.transactions.map Tx.encode2718).length < 2 ^ 64 := by simpa using hb.count
  have hlen' : (body'.transactions.map Tx.encode2718).length < 2 ^ 64 := by simpa using hb'.count
  have hm := mptRoot_inj hem hcf hb.storable hb'.storable
    (lists_indexedPairs hlen) (lists_indexedPairs hlen') heq
  exact map_encode2718_inj hb.each hb'.each (values_eq_of_mapOf_eq hlen hlen' hm)

end Aii.Chain
