/-
Aii.Node.Recover — what a restarted node rebuilds from its store
(`NodeState::recover` and `head_block` in `aii-node/src/lib.rs`).

The scan keeps one hash per block NUMBER, the last in key order.
-/
import Aii.Node.Commit

namespace Aii.Node

open Common Common.Rlp Chain List Std.ExtTreeMap OrderedMap UInt64

/-- A scan over records keyed by hashes: keys of another length are
skipped, and what `keep` selects is decoded. -/
def scanHashed {α : Type} (decode : Decoder α) (keep : H256 → Bool) :
    List (Bytes × Bytes) → Except RlpError (List (H256 × α))
  | [] => .ok []
  | (k, v) :: rest =>
    match arr? 32 k with
    | none => scanHashed decode keep rest
    | some hash =>
      if keep hash then
        match decode v with
        | .error e => .error e
        | .ok (a, _) => (scanHashed decode keep rest).map ((hash, a) :: ·)
      else scanHashed decode keep rest

/-- The index of the first phase: number to hash, the last entry wins. -/
def numToHash (headers : List (H256 × Header)) : Std.ExtTreeMap UInt64 H256 :=
  headers.foldl (fun m e => m.insert e.2.number e.1) ∅

def newestNumbers (headers : List (H256 × Header)) : List (UInt64 × H256) :=
  let nums := (numToHash headers).toList
  nums.drop (nums.length - MAX_BLOCKS_IN_MEMORY)

def keepsHash (kept : List (UInt64 × H256)) (hash : H256) : Bool := kept.any (·.2 == hash)

def rebuildBlocks (c : Crypto) (headers : List (H256 × Header)) (bodies : List (H256 × BlockBody)) :
    BlockStore :=
  let kept := newestNumbers headers
  let byHash := (headers.filter fun e => keepsHash kept e.1).foldl
    (fun m e => m.insert e.1.toList e.2) ∅
  { byHash := byHash
    byNumber := kept.foldl (fun m e => m.insert e.1 e.2) ∅
    order := kept.map Prod.snd
    bodyByHash := bodies.foldl (fun m e => m.insert e.1.toList e.2) ∅
    txIndex := bodies.foldl (fun m e =>
      match byHash[e.1.toList]? with
      | some header => e.2.transactions.zipIdx.foldl
          (fun m p => m.insert (p.1.hash c).toList (header.number, p.2)) m
      | none => m) ∅ }

def storedHead (b : Backend) : UInt64 :=
  match b.get .metaCf META_KEY_HEAD with
  | some bytes => if bytes.length = 8 then u64OfBe bytes else 0
  | none => 0

def recover (c : Crypto) (b : Backend) : Except RlpError NodeState :=
  match scanHashed Header.decode (fun _ => true) (b.iter .headers) with
  | .error e => .error e
  | .ok headers =>
    match scanHashed BlockBody.decode (keepsHash (newestNumbers headers)) (b.iter .bodies) with
    | .error e => .error e
    | .ok bodies => .ok ⟨storedHead b, b, rebuildBlocks c headers bodies⟩

def blockByNumber (s : NodeState) (n : UInt64) : Option Block :=
  match s.blocks.byNumber[n]? with
  | none => none
  | some hash =>
    s.blocks.byHash[hash.toList]?.map fun header =>
      ⟨header, s.blocks.bodyByHash[hash.toList]?.getD .empty⟩

def headBlock (s : NodeState) : Option Block := blockByNumber s s.head

section Scan

variable {α : Type} {decode : Decoder α} {keep : H256 → Bool} {out : List (H256 × α)}
  {l : List (Bytes × Bytes)} {k v : Bytes} {hash : H256}

lemma scanHashed_cons {rest : List (Bytes × Bytes)}
    (h : scanHashed decode keep ((k, v) :: rest) = .ok out) :
    ∃ more, scanHashed decode keep rest = .ok more ∧
      (out = more ∧ (∀ hash, arr? 32 k = some hash → keep hash = false) ∨
        ∃ hash a left, arr? 32 k = some hash ∧ decode v = .ok (a, left) ∧
          out = (hash, a) :: more) := by
  unfold scanHashed at h
  cases hk : arr? 32 k with
  | none => grind
  | some hash =>
    rw [hk] at h
    dsimp only at h
    split_ifs at h with hke
    · cases hd : decode v with
      | error => simp [hd] at h
      | ok res =>
        obtain ⟨a, left⟩ := res
        simp only [hd] at h
        cases hrs : scanHashed decode keep rest with
        | error => simp [hrs, Except.map] at h
        | ok more =>
          rw [hrs] at h
          exact ⟨more, rfl, .inr ⟨hash, a, left, rfl, rfl, (Except.ok.inj h).symm⟩⟩
    · grind

lemma scanHashed_sound (h : scanHashed decode keep l = .ok out) {a : α} (hm : (hash, a) ∈ out) :
    ∃ k v left, (k, v) ∈ l ∧ arr? 32 k = some hash ∧ decode v = .ok (a, left) := by
  induction l generalizing out with
  | nil =>
    cases h
    cases hm
  | cons e _ ih =>
    obtain ⟨k, v⟩ := e
    obtain ⟨more, hmr, ⟨rfl, -⟩ | ⟨hash', a', left, hk, hd, rfl⟩⟩ := scanHashed_cons h
    · grind
    · rcases mem_cons.mp hm with heq | hla
      · grind
      · grind

lemma scanHashed_complete (h : scanHashed decode keep l = .ok out) (hm : (k, v) ∈ l)
    (hkey : arr? 32 k = some hash) (hke : keep hash = true) :
    ∃ a left, decode v = .ok (a, left) ∧ (hash, a) ∈ out := by
  induction l generalizing out with
  | nil => cases hm
  | cons e _ ih =>
    obtain ⟨k', v'⟩ := e
    obtain ⟨more, hmr, ⟨rfl, hs⟩ | ⟨hash', a', left, hkey', hd, rfl⟩⟩ := scanHashed_cons h
    · rcases mem_cons.mp hm with heq | hla
      · grind
      · exact ih hmr hla
    · rcases mem_cons.mp hm with heq | hla
      · grind
      · grind

end Scan

section Knows

variable {c : Crypto} {b : Backend} {n : NodeState} {chain : List Block} {block : Block}
  {headers : List (H256 × Header)}

/-- Every stored header is that of a block of `chain`. -/
def HeadersFrom (c : Crypto) (b : Backend) (chain : List Block) : Prop :=
  ∀ k v, b.get .headers k = some v → ∃ x ∈ chain, k = (x.hash c).toList ∧ v = x.header.encode

lemma recover_eq_ok_iff : recover c b = .ok n ↔ ∃ headers bodies,
      scanHashed Header.decode (fun _ => true) (b.iter .headers) = .ok headers ∧
        scanHashed BlockBody.decode (keepsHash (newestNumbers headers)) (b.iter .bodies) =
          .ok bodies ∧ ⟨storedHead b, b, rebuildBlocks c headers bodies⟩ = n := by
  unfold recover
  constructor
  · intro h
    split at h
    · cases h
    next headers hh =>
      split at h
      · cases h
      next bodies hbo => exact ⟨headers, bodies, hh, hbo, Except.ok.inj h⟩
  · grind

lemma recover_ok (h : recover c b = .ok n) : n.backend = b ∧ ∃ headers bodies,
      scanHashed Header.decode (fun _ => true) (b.iter .headers) = .ok headers ∧
        n.blocks = rebuildBlocks c headers bodies := by
  obtain ⟨headers, bodies, hh, -, rfl⟩ := recover_eq_ok_iff.mp h
  exact ⟨rfl, headers, bodies, hh, rfl⟩

lemma HeadersFrom.scanned (h : HeadersFrom c b chain)
    (hsc : scanHashed Header.decode (fun _ => true) (b.iter .headers) = .ok headers)
    {e : H256 × Header} (he : e ∈ headers) :
    ∃ x ∈ chain, e.1 = x.hash c ∧ e.2.number = x.header.number := by
  obtain ⟨k, v, left, hm, hk, hd⟩ := scanHashed_sound hsc he
  obtain ⟨x, hx, rfl, rfl⟩ := h k v (Backend.mem_iter.mp hm)
  rw [arr?_toList] at hk
  exact ⟨x, hx, (Option.some.inj hk).symm, Header.decode_number hd⟩

lemma mem_numToHash {e : UInt64 × H256} (he : e ∈ (numToHash headers).toList) :
    ∃ h ∈ headers, h.2.number = e.1 := by
  obtain ⟨num, hash⟩ := e
  rw [mem_toList_iff_getElem?_eq_some] at he
  have hc : (numToHash headers).contains num = true := by grind
  simpa using contains_foldl_insert.mp hc

lemma recover_unknown (hcn : HeadersFrom c b chain)
    (hn : ∀ x ∈ chain, x.hash c ≠ block.hash c ∧ x.header.number ≠ block.header.number)
    (h : recover c b = .ok n) : applies c n block = true := by
  obtain ⟨-, headers, bodies, hsc, hbc⟩ := recover_ok h
  have hhs : n.blocks.byHash.contains (block.hash c).toList = false := by
    rw [← Bool.not_eq_true, hbc, rebuildBlocks]
    rw [contains_foldl_insert]
    rintro (hnn | ⟨e, he, heq⟩)
    · simp at hnn
    · obtain ⟨x, hx, hxh, -⟩ := hcn.scanned hsc (mem_filter.mp he).1
      exact (hn x hx).1 (hxh ▸ toList_inj.mp heq)
  have hnm : n.blocks.byNumber[block.header.number]? = none := by
    rw [← Option.not_isSome_iff_eq_none, ← contains_eq_isSome_getElem?, hbc, rebuildBlocks]
    dsimp only
    rw [contains_foldl_insert]
    rintro (hnn | ⟨e, he, heq⟩)
    · simp at hnn
    · obtain ⟨e', he', hnu⟩ := mem_numToHash (mem_of_mem_drop he)
      obtain ⟨x, hx, -, hxn⟩ := hcn.scanned hsc he'
      exact (hn x hx).2 (hxn.symm.trans (hnu.trans heq))
  unfold applies forkAt
  rw [hhs, hnm]
  rfl

lemma recover_newest (hcn : HeadersFrom c b (chain ++ [block]))
    (hlast : ∀ x ∈ chain, x.header.number < block.header.number)
    (hs : b.get .headers (block.hash c).toList = some block.header.encode)
    (h : recover c b = .ok n) : n.blocks.byHash.contains (block.hash c).toList = true := by
  obtain ⟨-, headers, bodies, hsc, hbc⟩ := recover_ok h
  obtain ⟨header, left, hd, hm⟩ :=
    scanHashed_complete hsc (Backend.mem_iter.mpr hs) (arr?_toList _) rfl
  have hnm := Header.decode_number hd
  have hie : (block.header.number, block.hash c) ∈ (numToHash headers).toList := by
    rw [mem_toList_iff_getElem?_eq_some]
    refine getElem?_foldl_insert ⟨_, hm, hnm⟩ ?_
    intro e he hn
    obtain ⟨x, hx, hxh, hxn⟩ := hcn.scanned hsc he
    rcases mem_append.mp hx with hx | hx
    · exact absurd (hxn.symm.trans hn) (UInt64.ne_of_lt (hlast x hx))
    · rw [hxh, mem_singleton.mp hx]
  have hkp : (block.header.number, block.hash c) ∈ newestNumbers headers := by
    refine mem_drop_of_greatest ordered_keys_toList hie ?_ (by decide)
    intro e he hlt
    obtain ⟨e', he', hn⟩ := mem_numToHash he
    obtain ⟨x, hx, -, hxn⟩ := hcn.scanned hsc he'
    have hle : e.1 ≤ block.header.number := by
      rw [← hn, hxn]
      rcases mem_append.mp hx with hx | hx
      · exact UInt64.le_of_lt (hlast x hx)
      · grind
    exact absurd (Std.compare_eq_lt.mp hlt) (UInt64.not_lt.mpr hle)
  rw [hbc, rebuildBlocks]
  rw [contains_foldl_insert]
  refine .inr ⟨_, mem_filter.mpr ⟨hm, ?_⟩, rfl⟩
  exact any_eq_true.mpr ⟨_, hkp, beq_self_eq_true _⟩

end Knows

end Aii.Node
