/-
Aii.Net.Kademlia — the routing table of node discovery
(`aii-net-p2p/src/kademlia.rs`).

A refresh moves the record the bucket HAS to the back; the one it was given
is dropped. A bucket is a recency list of the ids in one range of distances
to the local id.
-/
import Aii.Common.FifoSet
import Aii.Crypto
import Mathlib.Data.LawfulXor.Basic
import Mathlib.Data.List.Sort

namespace Aii.Net

open Common List

def K : Nat := 16

def BUCKETS : Nat := 256

@[ext]
structure PeerEntry where
  nodeId : H256
  payload : Bytes
deriving DecidableEq

/-- The buckets stand under their index. -/
structure KademliaTable where
  localId : H256
  buckets : Nat → List PeerEntry

def xorDistance (a b : H256) : Bytes := zipWith (· ^^^ ·) a.toList b.toList

def distance (a b : H256) : Nat := ofBe (xorDistance a b)

def leadingZeros (x : UInt8) : Nat := if x = 0 then 8 else 7 - x.toNat.log2

namespace KademliaTable

def new (localId : H256) : KademliaTable := ⟨localId, fun _ => []⟩

/-- The loop of `bucket_index`, at byte `i`. -/
def bucketScan : Nat → Bytes → Nat
  | _, [] => BUCKETS - 1
  | i, x :: rest => if x ≠ 0 then i * 8 + leadingZeros x else bucketScan (i + 1) rest

def bucketIndex (t : KademliaTable) (id : H256) : Nat :=
  bucketScan 0 (xorDistance t.localId id)

/-- What `insert` does to the bucket of the entry. -/
def bucketInsert (entry : PeerEntry) (bucket : List PeerEntry) : List PeerEntry :=
  match bucket.findIdx? (·.nodeId = entry.nodeId) with
  | some pos => bucket.eraseIdx pos ++ bucket[pos]?.toList
  | none => (if bucket.length = K then bucket.eraseIdx 0 else bucket) ++ [entry]

def insert (t : KademliaTable) (entry : PeerEntry) : KademliaTable :=
  if entry.nodeId = t.localId then t
  else
    let idx := t.bucketIndex entry.nodeId
    { t with buckets := Function.update t.buckets idx (bucketInsert entry (t.buckets idx)) }

def entries (t : KademliaTable) : List PeerEntry := (range BUCKETS).flatMap t.buckets

/-- The sort is stable and compares distances byte by byte. -/
def findClosest (t : KademliaTable) (targetId : H256) (n : Nat) : List PeerEntry :=
  (t.entries.insertionSort fun a b =>
    (compare (xorDistance a.nodeId targetId) (xorDistance b.nodeId targetId)).isLE).take n

def afterInserts (localId : H256) (history : List PeerEntry) : KademliaTable :=
  history.foldl insert (new localId)

/-- `x` is the most recent insert of its id. -/
def Latest (history : List PeerEntry) (x : PeerEntry) : Prop :=
  history.reverse.find? (·.nodeId = x.nodeId) = some x

/-- Ids whose distance has its leading one at bit `255 - i`. -/
def InBucket (localId : H256) (i : Nat) (id : H256) : Prop :=
  2 ^ (255 - i) ≤ distance localId id ∧ distance localId id < 2 ^ (256 - i)
deriving Decidable

/-- `l` has the `n` entries closest to `targetId`, in ascending order. -/
def Closest (t : KademliaTable) (targetId : H256) (n : Nat) (l : List PeerEntry) : Prop :=
  l.length = min n t.entries.length ∧ ∃ rest, l ++ rest ~ t.entries ∧
    (l ++ rest).Pairwise fun a b => distance a.nodeId targetId ≤ distance b.nodeId targetId

/-- Every entry lies in the bucket of its id. -/
def Placed (t : KademliaTable) : Prop := ∀ i, ∀ x ∈ t.buckets i, t.bucketIndex x.nodeId = i

variable {t : KademliaTable} {e x : PeerEntry} {bucket history : List PeerEntry} {i : Nat}
  {localId id : H256}

lemma mem_entries : x ∈ t.entries ↔ ∃ i < BUCKETS, x ∈ t.buckets i := by
  simp [entries]

lemma bucketInsert_perm {pos : Nat} (h : bucket.findIdx? (·.nodeId = e.nodeId) = some pos) :
    bucketInsert e bucket ~ bucket := by
  obtain ⟨hp, -⟩ := findIdx?_eq_some_iff_findIdx_eq.mp h
  rw [bucketInsert, h]
  dsimp only
  rw [getElem?_eq_getElem hp]
  exact perm_append_comm.trans (getElem_cons_eraseIdx_perm hp)

lemma mem_bucketInsert (h : x ∈ bucketInsert e bucket) : x = e ∨ x ∈ bucket := by
  cases hf : bucket.findIdx? (·.nodeId = e.nodeId) with
  | some pos => exact .inr ((bucketInsert_perm hf).mem_iff.mp h)
  | none =>
    rw [bucketInsert, hf] at h
    obtain h | h := mem_append.mp h
    · split_ifs at h
      · exact .inr (mem_of_mem_eraseIdx h)
      · exact .inr h
    · exact .inl (mem_singleton.mp h)

lemma insert_bucket (t : KademliaTable) (e : PeerEntry) (i : Nat) : (t.insert e).buckets i =
    if e.nodeId ≠ t.localId ∧ t.bucketIndex e.nodeId = i then bucketInsert e (t.buckets i)
    else t.buckets i := by
  unfold insert
  by_cases hl : e.nodeId = t.localId
  · simp [hl]
  · by_cases hi : t.bucketIndex e.nodeId = i
    · simp [hl, ← hi]
    · simp [hl, hi, Function.update_of_ne (Ne.symm hi)]

lemma mem_insert (h : x ∈ (t.insert e).buckets i) :
    x = e ∧ t.bucketIndex e.nodeId = i ∨ x ∈ t.buckets i := by
  rw [insert_bucket] at h
  split_ifs at h with hi
  · exact (mem_bucketInsert h).imp_left (⟨·, hi.2⟩)
  · exact .inr h

/-- A refresh keeps what is stored. -/
lemma insert_keeps (h : x ∈ t.buckets i) (he : x.nodeId = e.nodeId) :
    x ∈ (t.insert e).buckets i := by
  rw [insert_bucket]
  split_ifs
  · cases hf : (t.buckets i).findIdx? (·.nodeId = e.nodeId) with
    | some pos => exact (bucketInsert_perm hf).mem_iff.mpr h
    | none => simpa [he] using findIdx?_eq_none_iff.mp hf x h
  · exact h

lemma insert_localId (t : KademliaTable) (e : PeerEntry) : (t.insert e).localId = t.localId := by
  unfold insert
  split_ifs <;> rfl

lemma afterInserts_placed (localId : H256) (history : List PeerEntry) :
    (afterInserts localId history).Placed := by
  refine foldlRecOn history insert ?_ fun t ht e _ i x hx => ?_
  · intro i x h
    cases h
  · rw [bucketIndex, insert_localId]
    obtain ⟨rfl, rfl⟩ | hx := mem_insert hx
    · rfl
    · exact ht i x hx

lemma latest_concat {pre : List PeerEntry} : Latest (pre ++ [e]) x ↔
    if e.nodeId = x.nodeId then e = x else Latest pre x := by
  rw [Latest, reverse_concat, find?_cons]
  split_ifs with h <;> simp [h, Latest]

lemma afterInserts_concat (localId : H256) (pre : List PeerEntry) (e : PeerEntry) :
    afterInserts localId (pre ++ [e]) = (afterInserts localId pre).insert e := foldl_concat ..

/-- **A table is up to date unless a stored id is inserted with another
payload.** Left: after every prefix of the history. -/
theorem kademlia_latest_iff (localId : H256) (history : List PeerEntry) :
    (∀ pre, pre <+: history → ∀ targetId n,
        ∀ x ∈ (afterInserts localId pre).findClosest targetId n, Latest pre x) ↔
      ∀ pre e, pre ++ [e] <+: history → ∀ x ∈ (afterInserts localId pre).entries,
        x.nodeId = e.nodeId → x.payload = e.payload := by
  constructor
  · intro h pre e hpre x hx he
    obtain ⟨i, hlt, hi⟩ := mem_entries.mp hx
    obtain rfl := afterInserts_placed localId pre i x hi
    rw [he] at hlt hi
    have hk := mem_entries.mpr ⟨_, hlt, insert_keeps hi he⟩
    rw [← afterInserts_concat] at hk
    have hl := h _ hpre e.nodeId (length _) x (by
      rw [findClosest, take_length]
      exact (mem_insertionSort _).mpr hk)
    rw [latest_concat, if_pos he.symm] at hl
    rw [hl]
  · intro h pre hpre targetId n x hx
    replace hx := (mem_insertionSort _).mp (mem_of_mem_take hx)
    induction pre using reverseRecOn with
    | nil =>
      obtain ⟨i, -, hi⟩ := mem_entries.mp hx
      cases hi
    | append_singleton pre e ih =>
      obtain ⟨i, hlt, hi⟩ := mem_entries.mp hx
      rw [afterInserts_concat] at hi
      rw [latest_concat]
      obtain ⟨rfl, -⟩ | hi := mem_insert hi
      · rw [if_pos rfl]
      · replace hi := mem_entries.mpr ⟨i, hlt, hi⟩
        split_ifs with he
        · exact PeerEntry.ext he (h pre e hpre x hi he.symm).symm
        · exact ih ((prefix_append _ _).trans hpre) hi

/-- A peer that announces a new endpoint keeps its old one. -/
theorem refresh_keeps_old_payload :
    (afterInserts (Arr.zero 32) [⟨arrOfNat 32 1, [1]⟩, ⟨arrOfNat 32 1, [2]⟩]).findClosest
      (Arr.zero 32) K = [⟨arrOfNat 32 1, [1]⟩] := by
  decide +kernel

lemma ofBe_xor_eq_zero : ∀ {a b : Bytes}, a.length = b.length →
    (ofBe (zipWith (· ^^^ ·) a b) = 0 ↔ a = b)
  | [], [], _ => by simp
  | x :: a, y :: b, h => by
    simp [ofBe_cons, ofBe_xor_eq_zero (Nat.succ.inj h), UInt8.toNat_inj]

lemma distance_eq_zero {a b : H256} : distance a b = 0 ↔ a = b := by
  rw [distance, xorDistance, ofBe_xor_eq_zero (by simp), toList_inj]

/-- The scan stops at the leading one of the distance. -/
lemma bucketScan_eq (l : Bytes) (i : Nat) (h : ofBe l ≠ 0) :
    bucketScan i l + (ofBe l).log2 + 1 = 8 * (i + l.length) := by
  induction l generalizing i with
  | nil => exact absurd rfl h
  | cons x l ih =>
    rw [bucketScan, length_cons]
    split_ifs with hx
    · have hp : x.toNat ≠ 0 := fun h0 => hx (UInt8.toNat_inj.mp h0)
      have hlt := (Nat.log2_lt hp).mpr x.toNat_lt
      have hr := ofBe_lt l
      have hlog : (ofBe (x :: l)).log2 = x.toNat.log2 + 8 * l.length := by
        rw [Nat.log2_eq_iff h, ofBe_cons, Nat.add_right_comm, Nat.pow_add, Nat.pow_add, Nat.pow_mul]
        refine ⟨Nat.le_add_right_of_le (Nat.mul_le_mul_right _ (Nat.log2_self_le hp)), ?_⟩
        calc _ < (x.toNat + 1) * 256 ^ l.length := by rw [Nat.succ_mul]; omega
          _ ≤ _ := Nat.mul_le_mul_right _ Nat.lt_log2_self
      rw [leadingZeros, if_neg hx, hlog]
      omega
    · obtain rfl := not_not.mp hx
      have hi := ih (i + 1) h
      rw [show ofBe (0 :: l) = ofBe l from rfl]
      omega

lemma afterInserts_localId : (afterInserts localId history).localId = localId :=
  foldlRecOn (motive := fun t => t.localId = localId) history insert rfl
    fun t ht e _ => (insert_localId t e).trans ht

lemma inBucket_iff (history : List PeerEntry) (hi : i < BUCKETS) : InBucket localId i id ↔
    id ≠ localId ∧ (afterInserts localId history).bucketIndex id = i := by
  rw [InBucket, ne_comm, Ne, ← distance_eq_zero, bucketIndex, afterInserts_localId]
  by_cases hd : distance localId id = 0
  · simp [hd]
  · have hs : _ + (distance localId id).log2 + 1 = _ := bucketScan_eq _ 0 hd
    rw [show 256 - i = 255 - i + 1 by unfold BUCKETS at hi; omega, ← Nat.log2_eq_iff hd]
    simp [xorDistance] at hs ⊢
    unfold BUCKETS at hi
    omega

lemma ids_bucketInsert (h : bucket.length ≤ K) : (bucketInsert e bucket).map (·.nodeId) =
    ((bucket.map (·.nodeId)).erase e.nodeId ++ [e.nodeId]).rtake K := by
  have he : (bucket.map (·.nodeId)).erase e.nodeId =
      (bucket.eraseP (·.nodeId = e.nodeId)).map (·.nodeId) := by
    rw [erase_eq_eraseP', eraseP_map]
    rfl
  rw [he, eraseP_eq_eraseIdx, bucketInsert, rtake]
  cases hf : bucket.findIdx? (·.nodeId = e.nodeId) with
  | some pos =>
    obtain ⟨hp, hid, -⟩ := findIdx?_eq_some_iff_getElem.mp hf
    have hl : bucket.length - 1 + 1 - K = 0 := by omega
    simpa [getElem?_eq_getElem hp, length_eraseIdx_of_lt hp, hl] using hid
  | none =>
    dsimp only
    split_ifs with hK
    · cases bucket with
      | nil => cases hK
      | cons => simp [← hK]
    · have hl : bucket.length + 1 - K = 0 := by omega
      simp [hl]

lemma ids_afterInserts (localId : H256) (history : List PeerEntry) (hi : i < BUCKETS) :
    ((afterInserts localId history).buckets i).map (·.nodeId) =
      ((history.map (·.nodeId)).filter (InBucket localId i)).dedup.rtake K := by
  induction history using reverseRecOn with
  | nil => rfl
  | append_singleton pre e ih =>
    have hin : InBucket localId i e.nodeId ↔ _ := inBucket_iff pre hi
    have hb := congrArg length ih
    rw [rtake, length_drop, length_map] at hb
    rw [afterInserts_concat, insert_bucket, afterInserts_localId, map_append, filter_append]
    by_cases h : InBucket localId i e.nodeId
    · rw [if_pos (hin.mp h), ids_bucketInsert (by omega), ih]
      simp only [map_cons, map_nil, filter_cons, h, decide_true, if_true, filter_nil, dedup_concat]
      exact rtake_erase_concat (nodup_dedup _) _ _
    · rw [if_neg (mt hin.mpr h)]
      simpa [h] using ih

lemma inBucket_of_mem (hi : i < BUCKETS) (h : x ∈ (afterInserts localId history).buckets i) :
    InBucket localId i x.nodeId := by
  have hm := mem_map_of_mem (f := (·.nodeId)) h
  rw [ids_afterInserts _ _ hi] at hm
  exact of_decide_eq_true (mem_filter.mp (mem_dedup.mp (mem_of_mem_drop hm))).2

lemma ids_nodup (localId : H256) (history : List PeerEntry) :
    ((afterInserts localId history).entries.map (·.nodeId)).Nodup := by
  rw [entries, map_flatMap, nodup_flatMap]
  refine ⟨fun i hi => ?_, nodup_range.pairwise_of_forall_ne fun i _ j _ hne id hm hm' => hne ?_⟩
  · rw [ids_afterInserts _ _ (mem_range.mp hi)]
    exact (nodup_dedup _).sublist (drop_sublist _ _)
  · obtain ⟨x, hx, rfl⟩ := mem_map.mp hm
    obtain ⟨y, hy, hid⟩ := mem_map.mp hm'
    rw [← afterInserts_placed _ _ _ _ hx, ← afterInserts_placed _ _ _ _ hy, hid]

lemma findClosest_closest (t : KademliaTable) (targetId : H256) (n : Nat) :
    t.Closest targetId n (t.findClosest targetId n) := by
  let closer (a b : PeerEntry) := distance a.nodeId targetId ≤ distance b.nodeId targetId
  have htotal : Std.Total closer := ⟨fun _ _ => Nat.le_total _ _⟩
  have htrans : IsTrans PeerEntry closer := ⟨fun _ _ _ => Nat.le_trans⟩
  have he : t.findClosest targetId n = (t.entries.insertionSort closer).take n := by
    unfold findClosest
    congr
    ext a b
    rw [← compare_ofBe (by simp [xorDistance])]
    exact Nat.isLE_compare
  rw [he, Closest, length_take, length_insertionSort]
  refine ⟨rfl, drop n (t.entries.insertionSort closer), ?_⟩
  rw [take_append_drop]
  exact ⟨perm_insertionSort _ _, pairwise_insertionSort _ _⟩

/-- **The routing table** after any inserts: each bucket has the `K` ids of
its range that were inserted last, the newest at the back. -/
theorem routing_table_invariant (localId : H256) (history : List PeerEntry) :
    let t := afterInserts localId history
    (∀ i < BUCKETS, (t.buckets i).length ≤ K) ∧ (t.entries.map (·.nodeId)).Nodup ∧
      localId ∉ t.entries.map (·.nodeId) ∧
      (∀ x ∈ t.entries, ∀ i < BUCKETS, x ∈ t.buckets i ↔ InBucket localId i x.nodeId) ∧
      (∀ i < BUCKETS, (t.buckets i).map (·.nodeId) =
        ((history.map (·.nodeId)).filter (InBucket localId i)).dedup.rtake K) ∧
      ∀ targetId n, t.Closest targetId n (t.findClosest targetId n) := by
  refine ⟨fun i hi => ?_, ids_nodup localId history, fun hm => ?_, fun x hx i hi => ?_,
    fun i hi => ids_afterInserts _ _ hi, findClosest_closest _⟩
  · have hl := congrArg length (ids_afterInserts localId history hi)
    rw [length_map, rtake, length_drop] at hl
    omega
  · obtain ⟨x, hx, rfl⟩ := mem_map.mp hm
    obtain ⟨i, hi, hx⟩ := mem_entries.mp hx
    exact ((inBucket_iff history hi).mp (inBucket_of_mem hi hx)).1 rfl
  · obtain ⟨j, hj, hx⟩ := mem_entries.mp hx
    refine ⟨inBucket_of_mem hi, fun h => ?_⟩
    rwa [← ((inBucket_iff _ hi).mp h).2, afterInserts_placed _ _ _ _ hx]

end KademliaTable

end Aii.Net
