/-
Aii.Node.RecoverIndex — a restarted node compared with the one that was
stopped.

Of several blocks with one transaction recovery takes the one with the
greatest hash, not the last.
-/
import Aii.Chain.BlockCodec
import Aii.Node.BlockIndex

namespace Aii.Node

open Common Common.Rlp Chain List Except Header BlockBody

section Scan

variable {α γ : Type} {decode : Decoder α} {keep : H256 → Bool} {l : List γ}
  {out : List (H256 × α)} {bytes : Bytes}

def readAs (decode : Decoder α) (bytes : Bytes) (default : α) : α :=
  match decode bytes with
  | .ok (a, _) => a
  | .error _ => default

lemma readAs_eq_iff {a : α} : ((decode bytes).isOk ∧ readAs decode bytes a = a) ↔
      (decode bytes).map Prod.fst = .ok a := by
  unfold readAs
  cases decode bytes with
  | error => simp [isOk, Except.toBool, Except.map]
  | ok res =>
    obtain ⟨a', _⟩ := res
    simp [isOk, Except.toBool, Except.map]

lemma isOk_iff : (decode bytes).isOk ↔ ∃ a rest, decode bytes = .ok (a, rest) := by
  cases decode bytes with
  | error => simp [isOk, Except.toBool]
  | ok res =>
    simp [isOk, Except.toBool, true_iff]
    exact ⟨res.1, res.2, rfl⟩

variable (key : γ → H256) (enc : γ → Bytes) (default : γ → α)

lemma scanHashed_map (h : ∀ x ∈ l, keep (key x) = true → (decode (enc x)).isOk) :
    scanHashed decode keep (l.map fun x => ((key x).toList, enc x)) =
      .ok ((l.filter fun x => keep (key x)).map
        fun x => (key x, readAs decode (enc x) (default x))) := by
  induction l with
  | nil => rfl
  | cons x _ ih =>
    obtain ⟨hx, hl⟩ := forall_mem_cons.mp h
    rw [map_cons, scanHashed, arr?_toList]
    dsimp only
    cases hke : keep (key x) with
    | false => grind
    | true =>
      obtain ⟨a, _, hd⟩ := isOk_iff.mp (hx hke)
      rw [filter_cons_of_pos (by simp [hke]), map_cons, readAs, hd, ih hl]
      rfl

lemma scanHashed_map_iff :
    scanHashed decode keep (l.map fun x => ((key x).toList, enc x)) = .ok out ↔
      (∀ x ∈ l, keep (key x) = true → (decode (enc x)).isOk) ∧
        out = (l.filter fun x => keep (key x)).map
          fun x => (key x, readAs decode (enc x) (default x)) := by
  constructor
  · intro hsc
    have ha : ∀ x ∈ l, keep (key x) = true → (decode (enc x)).isOk := by
      intro x hx hke
      obtain ⟨a, left, hd, -⟩ := scanHashed_complete hsc (mem_map_of_mem hx) (arr?_toList _) hke
      exact isOk_iff.mpr ⟨a, left, hd⟩
    rw [scanHashed_map key enc default ha] at hsc
    exact ⟨ha, (ok.inj hsc).symm⟩
  · rintro ⟨ha, rfl⟩
    exact scanHashed_map key enc default ha

end Scan

/-! ## The rebuilt index -/

section Rebuild

variable {c : Crypto} {chain scanned : List Block} {header : Block → Header} {x y : Block}

lemma newestNumbers_scanned (h : IsChain c chain) (hs : scanned.Perm chain)
    (hnm : ∀ x ∈ chain, (header x).number = x.header.number) :
    newestNumbers (scanned.map fun x => (x.hash c, header x)) =
      (newest chain).map fun x => (x.header.number, x.hash c) := by
  have hn : (numToHash (scanned.map fun x => (x.hash c, header x))).toList =
      chain.map fun x => (x.header.number, x.hash c) := by
    have hds := (hs.pairwise_iff fun hxy => hxy.symm).mpr (h.pairwise.imp fun hxy => hxy.2)
    have hf : numToHash (scanned.map fun x => (x.hash c, header x)) =
        scanned.foldl (fun m x => m.insert x.header.number (x.hash c)) ∅ := by
      rw [numToHash, foldl_map]
      refine foldl_ext _ _ _ fun m x hx => ?_
      rw [hnm x (hs.mem_iff.mp hx)]
    rw [hf]
    refine OrderedMap.Represents.toList_eq
      ((OrderedMap.Represents.foldl hds).of_mem_iff fun x => hs.mem_iff.symm) ?_
    exact h.numbers.imp fun hlt => Std.compare_eq_lt.mpr hlt
  rw [newestNumbers, hn, length_map, ← map_drop, newest]

lemma keepsHash_newest (h : IsChain c chain) (hx : x ∈ chain) :
    keepsHash ((newest chain).map fun x => (x.header.number, x.hash c)) (x.hash c) = true ↔
      x ∈ newest chain := by
  simp [keepsHash, any_map, any_eq_true, beq_iff_eq]
  constructor
  · rintro ⟨y, hy, hhs⟩
    by_cases hnm : x.header.number = y.header.number
    · rwa [h.eq_of_number hx (mem_of_mem_newest hy) hnm]
    · exact absurd hhs.symm (h.hash_ne hx (mem_of_mem_newest hy) hnm)
  · intro hn
    exact ⟨x, hn, rfl⟩

def kept (c : Crypto) (chain scanned : List Block) : List Block :=
  scanned.filter fun x =>
    keepsHash ((newest chain).map fun x => (x.header.number, x.hash c)) (x.hash c)

section Kept

variable (h : IsChain c chain) (hs : scanned.Perm chain)

include h hs

lemma mem_kept : x ∈ kept c chain scanned ↔ x ∈ newest chain := by
  rw [kept, mem_filter, hs.mem_iff]
  constructor
  · rintro ⟨hx, hke⟩
    exact (keepsHash_newest h hx).mp hke
  · intro hx
    exact ⟨mem_of_mem_newest hx, (keepsHash_newest h (mem_of_mem_newest hx)).mpr hx⟩

lemma kept_distinct :
    (kept c chain scanned).Pairwise fun x y => (x.hash c).toList ≠ (y.hash c).toList := by
  have hds : scanned.Pairwise fun x y => (x.hash c).toList ≠ (y.hash c).toList :=
    (hs.pairwise_iff fun hxy => hxy.symm).mpr
      (h.pairwise.imp fun hxy => mt toList_inj.mp hxy.1)
  exact hds.sublist filter_sublist

lemma represents_kept {α : Type}
    (val : Block → α) : OrderedMap.Represents (fun x : Block => (x.hash c).toList) val
      (((kept c chain scanned).map fun x => (x.hash c, val x)).foldl
        (fun m e => m.insert e.1.toList e.2) (∅ : Std.ExtTreeMap Bytes α)) (newest chain) := by
  rw [foldl_map]
  exact (OrderedMap.Represents.foldl (kept_distinct h hs)).of_mem_iff fun x =>
    (mem_kept h hs).symm

end Kept

def indexTxs (c : Crypto) (blocks : List Block) : Std.ExtTreeMap Bytes (UInt64 × Nat) :=
  blocks.foldl (fun m x => x.body.transactions.zipIdx.foldl
    (fun m p => m.insert (p.1.hash c).toList (x.header.number, p.2)) m) ∅

lemma getElem?_indexTxs {blocks : List Block} {k : Bytes} {e : UInt64 × Nat} :
    (indexTxs c blocks)[k]? = some e ↔
      ∃ before x, Latest (Has c k) blocks before x ∧ txEntry c x k = some e := by
  induction blocks using reverseRecOn with
  | nil =>
    simp only [indexTxs, foldl_nil, Std.ExtTreeMap.getElem?_empty, reduceCtorEq, false_iff]
    rintro ⟨_, x, hlatest, -⟩
    exact absurd hlatest.mem not_mem_nil
  | append_singleton blocks b ih =>
    have hl : (indexTxs c (blocks ++ [b]))[k]? = (txEntry c b k).or (indexTxs c blocks)[k]? := by
      simp [indexTxs, foldl_append, foldl_cons, foldl_nil,
        OrderedMap.getElem?_foldl_insert_last, txEntry]
    rw [hl]
    by_cases hh : Has c k b
    · obtain ⟨e₀, he₀⟩ := Option.isSome_iff_exists.mp (txEntry_isSome_iff.mpr hh)
      rw [he₀, Option.some_or]
      constructor
      · intro heq
        exact ⟨blocks, b, latest_concat_iff.mpr (.inl ⟨hh, rfl, rfl⟩), he₀.trans heq⟩
      · rintro ⟨_, x, hlatest, hx⟩
        obtain ⟨-, rfl, rfl⟩ := (latest_concat_iff.mp hlatest).resolve_right fun h => h.1 hh
        exact he₀.symm.trans hx
    · rw [txEntry_none hh, Option.none_or, ih]
      simp [latest_concat_iff, hh]

end Rebuild

section Lookups

variable {c : Crypto} {s : BlockStore} {chain window before : List Block} {k : Bytes} {x y : Block}

/-- Of the blocks with a transaction the latest is one with the greatest
hash of those in memory, and none was evicted after it was indexed. -/
def SameLookups (c : Crypto) (chain : List Block) : Prop :=
  ∀ k before x, Latest (Has c k) chain before x → x ∈ newest chain →
    (∀ y ∈ newest chain, Has c k y → compare (y.hash c).toList (x.hash c).toList ≠ .gt) ∧
      ∀ y ∈ evictedSince before chain, ¬ Has c k y

lemma Latest.mem_newest {P : Block → Prop} (h : Latest P chain before x) (hy : y ∈ newest chain)
    (hP : P y) : x ∈ newest chain := by
  obtain ⟨after, rfl, -, haf⟩ := h
  unfold newest at hy ⊢
  generalize (before ++ x :: after).length - MAX_BLOCKS_IN_MEMORY = gone at hy ⊢
  rw [drop_append] at hy ⊢
  by_cases hle : gone ≤ before.length
  · rw [Nat.sub_eq_zero_of_le hle]
    simp
  · obtain ⟨m, hm⟩ : ∃ m, gone - before.length = m + 1 := ⟨gone - before.length - 1, by omega⟩
    rw [drop_eq_nil_of_le (by omega), nil_append, hm, drop_succ_cons] at hy
    exact absurd hP (haf y (mem_of_mem_drop hy))

lemma SameLookups.eq_of_latest (h : SameLookups c chain) (hm : ∀ x, x ∈ window ↔ x ∈ newest chain)
    (hsd : window.Pairwise fun x y => compare (x.hash c).toList (y.hash c).toList = .lt)
    {before' : List Block} (hlv : Latest (Has c k) chain before x) (hx : x ∈ newest chain)
    (hrb : Latest (Has c k) window before' y) : x = y := by
  refine (hrb.greatest hsd ((hm x).mpr hx) hlv.holds).resolve_right fun hlt => ?_
  exact (h k before x hlv hx).1 y ((hm y).mp hrb.mem) hrb.holds
    (Std.OrientedCmp.gt_of_lt hlt)

lemma Indexed.txIndex_eq_iff (h : Indexed c s chain) (hcn : IsChain c chain)
    (hm : ∀ x, x ∈ window ↔ x ∈ newest chain)
    (hsd : window.Pairwise fun x y => compare (x.hash c).toList (y.hash c).toList = .lt) :
    s.txIndex = indexTxs c window ↔ SameLookups c chain := by
  constructor
  · intro heq k before x hlatest hx
    obtain ⟨before', y, hrb⟩ := exists_latest ⟨x, (hm x).mpr hx, hlatest.holds⟩
    obtain ⟨e, he⟩ := Option.isSome_iff_exists.mp (txEntry_isSome_iff.mpr hrb.holds)
    have hl : s.txIndex[k]? = some e := by
      rw [heq]
      exact getElem?_indexTxs.mpr ⟨before', y, hrb, he⟩
    obtain ⟨_, x₁, hlv, hen, hc⟩ := (h.txs k e).mp hl
    obtain ⟨rfl, rfl⟩ := hlv.unique hlatest
    have hsm := hcn.eq_of_number hlv.mem (mem_of_mem_newest ((hm y).mp hrb.mem))
        ((txEntry_number hen).symm.trans (txEntry_number he))
    refine ⟨fun z hz hh => ?_, hc⟩
    rw [hsm]
    rcases hrb.greatest hsd ((hm z).mpr hz) hh with rfl | hlt
    · simp [Std.ReflCmp.compare_self]
    · simp [hlt]
  · intro hsm
    refine Std.ExtTreeMap.ext_getElem? fun k => Option.ext fun e => ?_
    rw [h.txs k e, getElem?_indexTxs]
    constructor
    · rintro ⟨before, x, hlv, hen, hc⟩
      have hx := (Latest.mem_newest_or_evicted hlv).resolve_right
          fun hgn => hc x hgn hlv.holds
      obtain ⟨before', y, hrb⟩ := exists_latest ⟨x, (hm x).mpr hx, hlv.holds⟩
      obtain rfl := hsm.eq_of_latest hm hsd hlv hx hrb
      exact ⟨before', x, hrb, hen⟩
    · rintro ⟨_, y, hrb, hen⟩
      have hy := (hm y).mp hrb.mem
      obtain ⟨before, x, hlv⟩ := exists_latest ⟨y, mem_of_mem_newest hy, hrb.holds⟩
      have hx := Latest.mem_newest hlv hy hrb.holds
      obtain rfl := hsm.eq_of_latest hm hsd hlv hx hrb
      exact ⟨before, x, hlv, hen, (hsm k before x hlv hx).2⟩

end Lookups

/-! ## Recovery -/

/-- Every stored header decodes, the records of the newest blocks decode
to what was encoded, and lookups agree. -/
structure Recoverable (c : Crypto) (chain : List Block) : Prop where
  stored : ∀ x ∈ chain, (Header.decode x.header.encode).isOk
  headers : ∀ x ∈ newest chain, (Header.decode x.header.encode).map Prod.fst = .ok x.header
  bodies : ∀ x ∈ newest chain, (BlockBody.decode x.body.encode).map Prod.fst = .ok x.body
  lookups : SameLookups c chain

section Recovery

variable {c : Crypto} {n : NodeState} {chain : List Block}

def storedHeader (x : Block) : Header := readAs Header.decode x.header.encode x.header

def storedBody (x : Block) : BlockBody := readAs BlockBody.decode x.body.encode x.body

lemma storedHeader_number (x : Block) : (storedHeader x).number = x.header.number := by
  unfold storedHeader readAs
  split
  next header rest hd => exact decode_number hd
  next => rfl

lemma rebuildBlocks_txIndex {headers : List (H256 × Header)} {bodies : List (H256 × BlockBody)}
    {window : List Block} (hbo : bodies = window.map fun x => (x.hash c, storedBody x))
    (hb : OrderedMap.Represents (fun x : Block => (x.hash c).toList) (·.header)
      (rebuildBlocks c headers bodies).byHash (newest chain))
    (hm : ∀ x ∈ window, x ∈ newest chain) (hby : ∀ x ∈ newest chain, storedBody x = x.body) :
    (rebuildBlocks c headers bodies).txIndex = indexTxs c window := by
  unfold rebuildBlocks at hb ⊢
  dsimp only at hb ⊢
  rw [hbo, foldl_map, indexTxs]
  refine foldl_ext _ _ _ fun m x hx => ?_
  rw [hb.get (hm x hx), hby x (hm x hx)]

lemma Indexed.rebuildBlocks_eq_iff {s : BlockStore} (h : Indexed c s chain)
    (hcn : IsChain c chain) {scanned sorted : List Block} (hs : scanned.Perm chain)
    (hpm : sorted.Perm chain)
    (hsd : sorted.Pairwise fun x y => compare (x.hash c).toList (y.hash c).toList = .lt) :
    rebuildBlocks c (scanned.map fun x => (x.hash c, storedHeader x))
        ((kept c chain sorted).map fun x => (x.hash c, storedBody x)) = s ↔
      (∀ x ∈ newest chain, storedHeader x = x.header) ∧
        (∀ x ∈ newest chain, storedBody x = x.body) ∧ SameLookups c chain := by
  have hkp := newestNumbers_scanned hcn hs fun x _ => storedHeader_number x
  have hf : ((scanned.map fun x => (x.hash c, storedHeader x)).filter fun e =>
      keepsHash ((newest chain).map fun x => (x.header.number, x.hash c)) e.1) =
        (kept c chain scanned).map fun x => (x.hash c, storedHeader x) := by
    simp [kept, filter_map, Function.comp_def]
  have hw : ∀ x ∈ kept c chain sorted, x ∈ newest chain := fun x => (mem_kept hcn hpm).mp
  have hl := h.txIndex_eq_iff hcn (fun x => mem_kept hcn hpm)
    (hsd.sublist filter_sublist)
  -- the four parts that do not depend on the order of the scan
  have hb := represents_kept hcn hs storedHeader
  have hbo := represents_kept hcn hpm storedBody
  have hbn : OrderedMap.Represents (fun x : Block => x.header.number) (·.hash c)
      (((newest chain).map fun x => (x.header.number, x.hash c)).foldl
        (fun m e => m.insert e.1 e.2) (∅ : Std.ExtTreeMap UInt64 H256)) (newest chain) := by
    rw [foldl_map]
    exact .foldl (h.distinct.imp fun hxy => hxy.2)
  have horder : ((newest chain).map fun x => (x.header.number, x.hash c)).map Prod.snd =
      s.order := by
    rw [h.order, map_map]
    rfl
  rw [← hf, ← hkp] at hb
  rw [← hkp] at hbn horder
  generalize hh : scanned.map (fun x => (x.hash c, storedHeader x)) = headers at *
  generalize hread : (kept c chain sorted).map (fun x => (x.hash c, storedBody x)) = bodies at *
  have ht : (rebuildBlocks c headers bodies).byHash = s.byHash →
      (∀ x ∈ newest chain, storedBody x = x.body) →
      (rebuildBlocks c headers bodies).txIndex = indexTxs c (kept c chain sorted) := by
    intro hhs hsf
    refine rebuildBlocks_txIndex hread.symm ?_ hw hsf
    rw [hhs]
    exact h.byHash
  rw [BlockStore.ext_iff]
  constructor
  · rintro ⟨hhs, -, -, hby, htx⟩
    have hsf := (hbo.eq_iff h.bodies).mp hby
    rw [ht hhs hsf] at htx
    exact ⟨(hb.eq_iff h.byHash).mp hhs, hsf, hl.mp htx.symm⟩
  · rintro ⟨hhe, hsf, hsm⟩
    have hhs := (hb.eq_iff h.byHash).mpr hhe
    refine ⟨hhs, ?_, ?_, (hbo.eq_iff h.bodies).mpr hsf, ?_⟩
    · simp [rebuildBlocks]
      exact hbn.unique h.byNumber
    · simp [rebuildBlocks]
      exact horder
    · rw [ht hhs hsf]
      exact (hl.mpr hsm).symm

/-- The scans of the stored blocks, in the order of the hashes. -/
structure Scans (c : Crypto) (b : Backend) (chain scanned : List Block) : Prop where
  perm : scanned.Perm chain
  sorted : scanned.Pairwise fun x y => compare (x.hash c).toList (y.hash c).toList = .lt
  headers : ∀ out, scanHashed Header.decode (fun _ => true) (b.iter .headers) = .ok out ↔
    (∀ x ∈ chain, (Header.decode x.header.encode).isOk) ∧
      out = scanned.map fun x => (x.hash c, storedHeader x)
  bodies : ∀ out, scanHashed BlockBody.decode
      (keepsHash (newestNumbers (scanned.map fun x => (x.hash c, storedHeader x))))
        (b.iter .bodies) = .ok out ↔
    (∀ x ∈ newest chain, (BlockBody.decode x.body.encode).isOk) ∧
      out = (kept c chain scanned).map fun x => (x.hash c, storedBody x)

lemma HoldsBlocks.exists_scans {b : Backend} (h : HoldsBlocks c b chain) (hcn : IsChain c chain) :
    ∃ scanned, Scans c b chain scanned := by
  have hds := hcn.pairwise.imp fun hxy => mt toList_inj.mp hxy.1
  obtain ⟨scanned, hpm, hsd, hh⟩ := h.headers.exists_sorted hds
  have hbo := (h.bodies.of_mem_iff fun x => hpm.mem_iff).toList_eq hsd
  refine ⟨scanned, hpm, hsd, fun _ => ?_, fun _ => ?_⟩
  · rw [Backend.iter, hh,
      scanHashed_map_iff (fun x : Block => x.hash c) (·.header.encode) (·.header)]
    simp [hpm.mem_iff, filter_true, storedHeader]
  · rw [newestNumbers_scanned hcn hpm fun x _ => storedHeader_number x, Backend.iter, hbo,
      scanHashed_map_iff (fun x : Block => x.hash c) (·.body.encode) (·.body)]
    refine and_congr ?_ Iff.rfl
    rw [← forall_mem_filter]
    exact forall_congr' fun x => imp_congr_left (mem_kept hcn hpm)

/-- **Recovery of a live node** gives that node exactly when its chain is
recoverable. -/
lemma Stores.recover_eq_iff (h : Stores c n chain) (hix : Indexed c n.blocks chain)
    (hcn : IsChain c chain) : recover c n.backend = .ok n ↔ Recoverable c chain := by
  obtain ⟨scanned, hsc⟩ := h.blocks.exists_scans hcn
  have hrb := hix.rebuildBlocks_eq_iff hcn hsc.perm hsc.perm hsc.sorted
  have hn : ∀ blocks, (⟨storedHead n.backend, n.backend, blocks⟩ : NodeState) = n ↔
      blocks = n.blocks := by
    intro _
    rw [h.head]
    exact ⟨fun heq => congrArg NodeState.blocks heq, fun heq => by rw [heq]⟩
  rw [recover_eq_ok_iff]
  constructor
  · rintro ⟨headers, bodies, hs, hb, heq⟩
    obtain ⟨hst, rfl⟩ := (hsc.headers headers).mp hs
    obtain ⟨hok, rfl⟩ := (hsc.bodies bodies).mp hb
    obtain ⟨hread, hr, hl⟩ := hrb.mp ((hn _).mp heq)
    exact ⟨hst, fun x hx => readAs_eq_iff.mp ⟨hst x (mem_of_mem_newest hx), hread x hx⟩,
      fun x hx => readAs_eq_iff.mp ⟨hok x hx, hr x hx⟩, hl⟩
  · rintro ⟨hst, hread, hr, hl⟩
    refine ⟨_, _, (hsc.headers _).mpr ⟨hst, rfl⟩, (hsc.bodies _).mpr ⟨?_, rfl⟩,
      (hn _).mpr (hrb.mpr ⟨?_, ?_, hl⟩)⟩
    · exact fun x hx => (readAs_eq_iff.mpr (hr x hx)).1
    · exact fun x hx => (readAs_eq_iff.mpr (hread x hx)).2
    · exact fun x hx => (readAs_eq_iff.mpr (hr x hx)).2

/-- Every header of the chain and every body of the newest blocks decodes. -/
structure Decodes (chain : List Block) : Prop where
  headers : ∀ x ∈ chain, (Header.decode x.header.encode).isOk
  bodies : ∀ x ∈ newest chain, (BlockBody.decode x.body.encode).isOk

lemma HoldsBlocks.recover_ok_iff {b : Backend} (h : HoldsBlocks c b chain)
    (hcn : IsChain c chain) : (∃ n, recover c b = .ok n) ↔ Decodes chain := by
  obtain ⟨scanned, hsc⟩ := h.exists_scans hcn
  simp only [recover_eq_ok_iff]
  constructor
  · rintro ⟨_, headers, bodies, hs, hb, -⟩
    obtain ⟨hheaders, rfl⟩ := (hsc.headers headers).mp hs
    exact ⟨hheaders, ((hsc.bodies bodies).mp hb).1⟩
  · rintro ⟨hheaders, hbodies⟩
    exact ⟨_, _, _, (hsc.headers _).mpr ⟨hheaders, rfl⟩, (hsc.bodies _).mpr ⟨hbodies, rfl⟩, rfl⟩

lemma sameLookups_of_once (hcn : IsChain c chain)
    (hoc : ∀ x ∈ chain, ∀ y ∈ chain, ∀ k, Has c k x → Has c k y → x = y) : SameLookups c chain := by
  intro k _ x hlatest hx
  refine ⟨fun y hy hh => ?_, fun y hy hh => ?_⟩
  · rw [hoc y (mem_of_mem_newest hy) x hlatest.mem k hh hlatest.holds]
    simp [Std.ReflCmp.compare_self]
  · have hgn := mem_of_mem_drop hy
    obtain rfl := hoc y (mem_of_mem_take hgn) x hlatest.mem k hh hlatest.holds
    have hnp : chain.Nodup := hcn.pairwise.imp fun hxy heq => hxy.2 (by rw [heq])
    exact disjoint_take_drop hnp (Nat.le_refl _) hgn hx

lemma recoverable_of_canonical (hcn : IsChain c chain) (hc : ∀ x ∈ chain, x.Canonical)
    (hsz : ∀ x ∈ chain, x.header.encode.length < 2 ^ 64 ∧ x.body.encode.length < 2 ^ 64)
    (hoc : ∀ x ∈ chain, ∀ y ∈ chain, ∀ k, Has c k x → Has c k y → x = y) : Recoverable c chain := by
  have hhe : ∀ x ∈ chain, Header.decode x.header.encode = .ok (x.header, []) := by
    intro x hx
    have hread := (readsBack (hc x hx).1 (hsz x hx).1).read []
    rwa [append_nil] at hread
  have hby : ∀ x ∈ chain, BlockBody.decode x.body.encode = .ok (x.body, []) := by
    intro x hx
    have hread := decode_encode (hc x hx).2 (hsz x hx).2 []
    rwa [append_nil] at hread
  exact {
    stored := fun x hx => isOk_iff.mpr ⟨_, _, hhe x hx⟩
    headers := fun x hx => by rw [hhe x (mem_of_mem_newest hx)]; rfl
    bodies := fun x hx => by rw [hby x (mem_of_mem_newest hx)]; rfl
    lookups := sameLookups_of_once hcn hoc }

end Recovery

/-- Recovery after any run gives the live node exactly when the chain is
recoverable. -/
theorem recover_hostRun_iff (c : Crypto) (revm : Revm) (spec : ChainSpec) (b : Backend)
    (hfresh : Fresh b) (ops : List HostOp) (hchain : IsChain c (committed ops)) :
    recover c (hostRun c revm spec (.new b) ops).backend = .ok (hostRun c revm spec (.new b) ops) ↔
      Recoverable c (committed ops) :=
  (stores_hostRun hfresh hchain).recover_eq_iff (indexed_hostRun hchain) hchain

lemma fresh_empty : Fresh .empty := ⟨rfl, rfl, rfl⟩

def resendBlock (number : UInt64) : Block := sampleBlock number [sampleTx 0 0 (arrOfNat 20 7) 5 []]

theorem recover_transfer :
    let ops : List HostOp := [.commit (sampleBlock 1 []), .commit (resendBlock 2), .setHead 2]
    let live := hostRun .reference Revm.reference sampleSpec (.new .empty) ops
    Fresh .empty ∧ IsChain .reference (committed ops) ∧
      recover .reference live.backend = .ok live := by
  intro ops _
  have hcn : IsChain .reference (committed ops) := ⟨by decide, by decide +kernel⟩
  have hoc : ∀ x ∈ committed ops, ∀ y ∈ committed ops, ∀ k,
      Has .reference k x → Has .reference k y → x = y := by
    have hft : ∀ k, ¬ Has .reference k (sampleBlock 1 []) := by
      rintro k ⟨tx, htx, -⟩
      exact absurd htx not_mem_nil
    intro x hx y hy k hkx hky
    rcases mem_cons.mp hx with rfl | hx
    · exact absurd hkx (hft k)
    rcases mem_cons.mp hy with rfl | hy
    · exact absurd hky (hft k)
    rw [mem_singleton.mp hx, mem_singleton.mp hy]
  have hc : ∀ x ∈ committed ops, x.Canonical := by decide
  have hsz : ∀ x ∈ committed ops,
      x.header.encode.length < 2 ^ 64 ∧ x.body.encode.length < 2 ^ 64 := by decide +kernel
  exact ⟨fresh_empty, hcn, (recover_hostRun_iff _ _ _ _ fresh_empty ops hcn).mpr
    (recoverable_of_canonical hcn hc hsz hoc)⟩

/-- The live node finds the transaction in block 128, the restarted one in
127. -/
theorem resent_transaction_recovered_elsewhere :
    let ops : List HostOp := [.commit (resendBlock 127), .commit (resendBlock 128)]
    let live := hostRun .reference Revm.reference sampleSpec (.new .empty) ops
    recover .reference live.backend ≠ .ok live := by
  intro ops live hrr
  have hcn : IsChain .reference [resendBlock 127, resendBlock 128] :=
    ⟨by decide, by decide +kernel⟩
  have hs : Stores .reference live (committed ops) := stores_hostRun fresh_empty hcn
  have hr := (hs.recover_eq_iff (indexed_hostRun hcn) hcn).mp hrr
  have hl := hr.lookups
  have hsh : newest (committed ops) = committed ops := newest_of_short (by decide)
  have hlatest : Latest (Has .reference
      ((sampleTx 0 0 (arrOfNat 20 7) 5 []).hash .reference).toList) (committed ops)
        [resendBlock 127] (resendBlock 128) :=
    ⟨[], rfl, ⟨_, mem_singleton_self _, rfl⟩, nofun⟩
  rw [SameLookups, hsh] at hl
  have hg := (hl _ _ _ hlatest hlatest.mem).1 (resendBlock 127) mem_cons_self
    ⟨_, mem_singleton_self _, rfl⟩
  exact hg (by decide +kernel)

/-! ## Recovery after a crash -/

/-- Recovering from `b` and committing `block` again has the outcome of
the store `full`. -/
def Resumes (c : Crypto) (revm : Revm) (spec : ChainSpec) (b full : Backend) (block : Block) :
    Prop :=
  ∃ n, recover c b = .ok n ∧
    Backend.AgreeOn OutcomeKey (commitBlock c revm spec n block).backend full

section Resume

variable {c : Crypto} {revm : Revm} {spec : ChainSpec} {n : NodeState} {chain : List Block}
  {block : Block}

lemma Synced.resumes_start (h : Synced c n chain) (hst : HoldsBlocks c n.backend chain)
    (hcn : IsChain c (chain ++ [block])) :
    Resumes c revm spec n.backend (commitBlock c revm spec n block).backend block ↔
      Decodes chain := by
  rw [← hst.recover_ok_iff hcn.init]
  constructor
  · rintro ⟨n', hrr, -⟩
    exact ⟨n', hrr⟩
  · rintro ⟨n', hrr⟩
    refine ⟨n', hrr, ?_⟩
    have ha := recover_unknown h.headers hcn.fresh hrr
    rw [commitBlock_of_applies ha, commitBlock_of_applies (h.applies hcn.fresh), (recover_ok hrr).1]
    exact .refl _

/-- Once the header is stored the block counts as committed. -/
lemma Synced.resumes_later (h : Synced c n chain) (hst : HoldsBlocks c n.backend chain)
    (hcn : IsChain c (chain ++ [block])) {b full : Backend}
    (hsm : SameBlocks b (persistBlock c n.backend block)) :
    Resumes c revm spec b full block ↔
      Decodes (chain ++ [block]) ∧ Backend.AgreeOn OutcomeKey b full := by
  have hs : ∀ n', recover c b = .ok n' → (commitBlock c revm spec n' block).backend = b := by
    intro n' hrr
    have hheader : b.get .headers (block.hash c).toList = some block.header.encode := by
      rw [Backend.get, hsm.1, persistBlock_header, Std.ExtTreeMap.getElem?_insert_self]
    have hc := recover_newest ((h.headers.persistBlock block).of_same hsm) hcn.last
      hheader hrr
    rw [commitBlock, if_pos hc, (recover_ok hrr).1]
  have hblocks : HoldsBlocks c b (chain ++ [block]) :=
    (hst.persistBlock fun x hx => (hcn.fresh x hx).1).of_same hsm
  rw [← hblocks.recover_ok_iff hcn]
  constructor
  · rintro ⟨n', hrr, hag⟩
    rw [hs n' hrr] at hag
    exact ⟨⟨n', hrr⟩, hag⟩
  · rintro ⟨⟨n', hrr⟩, hag⟩
    exact ⟨n', hrr, by rwa [hs n' hrr]⟩

/-- The write of the post roots changes no record of an outcome. -/
lemma postRoots_harmless (b : Backend) (block : Block) :
    Backend.AgreeOn OutcomeKey
      (persistReceipts c (executedState c revm spec b block).backend
        (executedState c revm spec b block).receipts) (executeBlockTxs c revm spec b block) := by
  have hkey : ¬ OutcomeKey .metaCf (META_KEY_POSTROOT_PREFIX ++ (block.hash c).toList) := by
    rintro (_ | _ | _ | _ | h | h) <;> exact prefix_excludes (prefix_append _ _) (by decide) h
  exact (Backend.AgreeOn.put_outside hkey).symm

lemma anchorStores_harmless (hash : H256) (txs : List Tx) (b : Backend) :
    (b :: anchorStores c spec hash b txs).IsChain (Backend.AgreeOn OutcomeKey) := by
  induction txs generalizing b with
  | nil => exact .singleton b
  | cons tx txs ih =>
    rw [anchorStores]
    cases parseFlushAnchor (txDataTo tx).1 with
    | none => exact ih b
    | some p =>
      cases tx.recoverSigner c spec.chainId with
      | none => exact ih b
      | some sender =>
        dsimp only
        split_ifs
        · exact ih b
        · exact isChain_cons_cons.mpr ⟨(Backend.AgreeOn.put_outside (by rintro ⟨⟩)).symm, ih _⟩

/-- The stores from the one with the receipts on. -/
lemma laterStores_receipts (b : Backend) (block : Block) :
    ∃ early late, laterStores c revm spec b block = early ++ persistReceipts c
        (executedState c revm spec b block).backend
        (executedState c revm spec b block).receipts :: late ∧
      (block.header.number = 0 ∨ spec.epochLengthBlocks = 0 ∨
          block.header.number % spec.epochLengthBlocks ≠ 0 →
        (persistReceipts c (executedState c revm spec b block).backend
          (executedState c revm spec b block).receipts :: late).IsChain
            (Backend.AgreeOn OutcomeKey)) := by
  rw [laterStores, executeStores, append_assoc, append_assoc]
  refine ⟨_, _, rfl, fun hquiet => ?_⟩
  rw [electStores, if_pos hquiet, append_nil]
  exact isChain_cons_cons.mpr ⟨postRoots_harmless b block, anchorStores_harmless _ _ _⟩

/-- All elements are related to the last one exactly when neighbours are. -/
lemma isChain_iff_forall_last {α : Type} {R : α → α → Prop} (hR : Equivalence R) {l : List α}
    {z : α} (hz : l.getLast? = some z) : l.IsChain R ↔ ∀ x ∈ l, R x z := by
  induction l with
  | nil => cases hz
  | cons x l ih =>
    cases l with
    | nil =>
      obtain rfl : x = z := by simpa using hz
      simp [hR.refl]
    | cons y l =>
      rw [getLast?_cons_cons] at hz
      rw [isChain_cons_cons, ih hz]
      constructor
      · rintro ⟨hxy, hl⟩
        exact forall_mem_cons.mpr ⟨hR.trans hxy (hl y mem_cons_self), hl⟩
      · intro h
        obtain ⟨hxz, hl⟩ := forall_mem_cons.mp h
        exact ⟨hR.trans hxz (hR.symm (hl y mem_cons_self)), hl⟩

end Resume

def transferBlock : Block := sampleBlock 1 [sampleTx 0 0 (arrOfNat 20 7) 1000 []]

lemma transferBlock_applies :
    applies .reference (.new sampleGenesis) transferBlock = true := by decide +kernel

lemma isChain_transferBlock : IsChain .reference ([] ++ [transferBlock]) := by
  refine ⟨by simp, ?_⟩
  intro x hx y hy _
  rw [mem_singleton.mp hx, mem_singleton.mp hy]

end Aii.Node
