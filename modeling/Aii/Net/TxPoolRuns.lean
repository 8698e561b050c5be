/-
Aii.Net.TxPoolRuns — what a pool holds, over its whole life.

A full pool replaces nothing, and draining panics after the largest nonce.
-/
import Aii.Common.Runs
import Aii.Node.ChainBinding

namespace Aii.Net

open Common Chain OrderedMap List Node Std ExtTreeMap UInt64 TxPool

namespace TxPool

variable {pool pool' : TxPool} {sender : Address} {nonce : UInt64} {entry : PoolEntry}
  {out : List Tx} {i : Nat} {entries : ExtTreeMap Bytes PoolEntry} {nonce' : UInt64}
  {es : List PoolEntry}

/-- The entries of `l` leave the pool, and nothing else changes. -/
structure Removes (pool pool' : TxPool) (l : List (Bytes × PoolEntry)) : Prop where
  capacity : pool'.capacity = pool.capacity
  perm : pool.entries.toList.Perm (l ++ pool'.entries.toList)

/-- Every entry is under its own key. -/
def Keyed (pool : TxPool) : Prop :=
  ∀ e ∈ pool.entries.toList, poolKey e.2.sender e.2.nonce = e.1

/-- The transactions of one sender come in ascending order of their nonces. -/
def Ascending (es : List PoolEntry) : Prop :=
  es.Pairwise fun a b => a.sender = b.sender → a.nonce < b.nonce

/-- The entries of the sender from `nonce` on, up to the first gap. -/
structure MaximalRun (entries : ExtTreeMap Bytes PoolEntry) (sender : Address) (nonce : UInt64)
    (es : List PoolEntry) : Prop where
  inside : nonce.toNat + es.length < 2 ^ 64
  pooled : ∀ i (h : i < es.length), entries[poolKey sender (nonce + UInt64.ofNat i)]? = some es[i]
  stops : entries[poolKey sender (nonce + UInt64.ofNat es.length)]? = none

lemma poolKey_inj {sender' : Address} (h : poolKey sender nonce = poolKey sender' nonce') :
    sender = sender' ∧ nonce = nonce' := by
  obtain ⟨hs, hn⟩ := append_field_inj (by simp) h
  exact ⟨toList_inj.mp hs, u64Be_inj hn⟩

lemma nonce_lt_of_compare (h : compare (poolKey sender nonce) (poolKey sender nonce') = .lt) :
    nonce < nonce' := by
  rw [← compare_ofBe (by simp [poolKey]), Nat.compare_eq_lt, poolKey, poolKey, ofBe_append,
    ofBe_append, u64Be_length, u64Be_length] at h
  have hn : ∀ n : UInt64, ofBe (u64Be n) = n.toNat := fun n => ofBe_toBe_of_lt n.toNat_lt
  rw [hn, hn] at h
  exact lt_iff_toNat_lt.mpr (by omega)

lemma MaximalRun.cons (hlt : nonce.toNat + 1 < 2 ^ 64)
    (hen : entries[poolKey sender nonce]? = some entry)
    (h : MaximalRun (entries.erase (poolKey sender nonce)) sender (nonce + 1) es) :
    MaximalRun entries sender nonce (entry :: es) := by
  have hnx : (nonce + 1).toNat = nonce.toNat + 1 := add_ofNat_toNat hlt
  have hin := h.inside
  rw [hnx] at hin
  -- later nonces do not wrap around to the first one
  have hs : ∀ j, j ≤ es.length → entries[poolKey sender (nonce + ofNat (j + 1))]? =
      (entries.erase (poolKey sender nonce))[poolKey sender (nonce + 1 + ofNat j)]? := by
    intro j hj
    have hsm : nonce + ofNat (j + 1) = nonce + 1 + ofNat j := by
      rw [ofNat_add, UInt64.add_assoc, UInt64.add_comm 1]
      rfl
    rw [hsm, getElem?_erase_ne]
    intro heq
    have hnc := congrArg UInt64.toNat (poolKey_inj heq).2
    rw [add_ofNat_toNat (by omega), hnx] at hnc
    omega
  refine ⟨by simp; omega, ?_, ?_⟩
  · intro i hi
    cases i with
    | zero => simpa using hen
    | succ i =>
      rw [length_cons] at hi
      rw [hs i (by omega), h.pooled i (by omega)]
      rfl
  · rw [length_cons, hs _ (Nat.le_refl _)]
    exact h.stops

lemma MaximalRun.nil (h : entries[poolKey sender nonce]? = none) :
    MaximalRun entries sender nonce [] :=
  ⟨nonce.toNat_lt, by simp, by simpa using h⟩

/-- The loop ends with a maximal run, or the run has no end. -/
lemma drainLoop_spec (sender : Address) {turns : Nat} (ht : entries.size ≤ turns) (nonce : UInt64)
    (out : List Tx) :
    (∃ l rest, drainLoop sender turns entries nonce out = .ok (rest, out ++ l.map (·.2.tx)) ∧
      entries.toList.Perm (l ++ rest.toList) ∧ MaximalRun entries sender nonce (l.map Prod.snd)) ∨
    (drainLoop sender turns entries nonce out = .error "nonce overflow" ∧
      ∀ n, nonce ≤ n → entries[poolKey sender n]? ≠ none) := by
  induction turns generalizing entries nonce out with
  | zero =>
    have hem : entries = ∅ := eq_empty_iff_size_eq_zero.mpr (by omega)
    exact .inl ⟨[], entries, by simp [drainLoop], .refl _, MaximalRun.nil (by simp [hem])⟩
  | succ turns ih =>
    unfold drainLoop
    cases hen : entries[poolKey sender nonce]? with
    | none => exact .inl ⟨[], entries, by simp, .refl _, MaximalRun.nil hen⟩
    | some entry =>
      by_cases hlt : nonce.toNat + 1 < 2 ^ 64
      · have hnx : checkedAdd64 nonce 1 = some (nonce + 1) := if_pos hlt
        have hsz : (entries.erase (poolKey sender nonce)).size ≤ turns := by grind
        simp only [hnx]
        rcases ih hsz (nonce + 1) (out ++ [entry.tx]) with ⟨l, rest, hlp, hpm, hr⟩ | ⟨hlp, ha⟩
        · refine .inl ⟨(poolKey sender nonce, entry) :: l, rest, by simpa using hlp, ?_,
            hr.cons hlt hen⟩
          exact (toList_erase_perm hen).trans (hpm.cons _)
        · refine .inr ⟨hlp, fun n hn => ?_⟩
          by_cases heq : n = nonce
          · simp [heq, hen]
          · have hgt : nonce + 1 ≤ n := by
              have hle := le_iff_toNat_le.mp hn
              have hne : n.toNat ≠ nonce.toNat := fun h => heq (UInt64.toNat_inj.mp h)
              rw [le_iff_toNat_le, show nonce + 1 = nonce + ofNat 1 from rfl, add_ofNat_toNat hlt]
              omega
            exact fun hnn => ha n hgt (by rw [getElem?_erase, hnn, ite_self])
      · have hnx : checkedAdd64 nonce 1 = none := if_neg hlt
        simp only [hnx]
        refine .inr ⟨trivial, fun n hn => ?_⟩
        have heq : n = nonce := by
          have := n.toNat_lt
          have := le_iff_toNat_le.mp hn
          exact UInt64.toNat_inj.mp (by omega)
        simp [heq, hen]

/-! ## Draining and eviction -/

lemma remove_spec (pool : TxPool) (sender : Address) (nonce : UInt64) :
    ∃ l, Removes pool (pool.remove sender nonce).1 l ∧
      ((pool.remove sender nonce).2.map (·.tx)).toList = l.map (·.2.tx) := by
  unfold remove
  cases hen : pool.entries[poolKey sender nonce]? with
  | none => exact ⟨[], ⟨rfl, by rw [erase_of_getElem? hen]; rfl⟩, rfl⟩
  | some entry => exact ⟨[(poolKey sender nonce, entry)], ⟨rfl, toList_erase_perm hen⟩, rfl⟩

lemma drainReady_spec (pool : TxPool) (sender : Address) (nonce : UInt64) :
    (∃ l pool', pool.drainReady sender nonce = .ok (pool', l.map (·.2.tx)) ∧
      Removes pool pool' l ∧ MaximalRun pool.entries sender nonce (l.map Prod.snd)) ∨
    ((∀ r, pool.drainReady sender nonce ≠ .ok r) ∧
      ∀ n, nonce ≤ n → pool.entries[poolKey sender n]? ≠ none) := by
  unfold drainReady
  rcases drainLoop_spec sender (Nat.le_refl pool.entries.size) nonce [] with
    ⟨l, rest, hlp, hpm, hr⟩ | ⟨hlp, ha⟩
  · exact .inl ⟨l, ⟨rest, pool.capacity⟩, by rw [hlp]; rfl, ⟨rfl, hpm⟩, hr⟩
  · exact .inr ⟨fun r => by rw [hlp]; nofun, ha⟩

lemma foldl_drain {l rest : List (Bytes × PoolEntry)} (h : entries.toList.Perm (l ++ rest))
    (out : List Tx) : (l.map Prod.fst).foldl drainKey (entries, out) =
      (l.foldl (fun m e => m.erase e.1) entries, out ++ l.map (·.2.tx)) := by
  induction l generalizing entries out with
  | nil => simp
  | cons e _ ih =>
    have hg : entries[e.1]? = some e.2 := by
      rw [← mem_toList_iff_getElem?_eq_some, h.mem_iff]
      simp
    have hrs := ((toList_erase_perm hg).symm.trans h).cons_inv
    rw [map_cons, foldl_cons, drainKey]
    simp only [hg]
    rw [ih hrs]
    simp

lemma drainUpTo_spec (pool : TxPool) (n : Nat) :
    (pool.drainUpTo n).2 = (pool.entries.toList.take n).map (·.2.tx) ∧
      Removes pool (pool.drainUpTo n).1 (pool.entries.toList.take n) := by
  have hsi : pool.entries.toList.Perm
      (pool.entries.toList.take n ++ pool.entries.toList.drop n) := by rw [take_append_drop]
  have hf := foldl_drain hsi []
  rw [map_take, map_fst_toList_eq_keys] at hf
  rw [drainUpTo, hf]
  exact ⟨rfl, rfl, hsi.trans ((toList_foldl_erase hsi).symm.append_left _)⟩

lemma evictTo_spec (pool : TxPool) {target : Nat} (h : target ≤ pool.entries.size) :
    ∃ l, Removes pool (pool.evictTo target) l ∧ (pool.evictTo target).entries.size = target ∧
      ∀ dropped ∈ l, ∀ kept ∈ (pool.evictTo target).entries.toList,
        dropped.2.effectiveGasPrice.toNat ≤ kept.2.effectiveGasPrice.toNat := by
  unfold evictTo
  split_ifs with hle
  · exact ⟨[], ⟨rfl, .refl _⟩, by omega, by simp⟩
  · let r : Bytes × PoolEntry → Bytes × PoolEntry → Prop :=
      fun a b => a.2.effectiveGasPrice.toNat ≤ b.2.effectiveGasPrice.toNat
    have hp : pool.byPrice =
        (pool.entries.toList.insertionSort r).map fun e => (e.1, e.2.effectiveGasPrice) :=
      (map_insertionSort r (fun a b : Bytes × U256 => a.2.toNat ≤ b.2.toNat) _ _
        fun _ _ _ _ => Iff.rfl).symm
    have : Std.Total r := ⟨fun _ _ => Nat.le_total _ _⟩
    have : IsTrans _ r := ⟨fun _ _ _ => Nat.le_trans⟩
    have hsd := pairwise_insertionSort r pool.entries.toList
    have hpm := (perm_insertionSort r pool.entries.toList).symm
    have hl := hpm.length_eq
    rw [ExtTreeMap.length_toList] at hl
    generalize pool.entries.toList.insertionSort r = sorted at hp hsd hpm hl
    rw [← take_append_drop (pool.entries.size - target) sorted] at hpm hsd
    have hkp := toList_foldl_erase hpm
    rw [hp, ← map_take, foldl_map]
    refine ⟨sorted.take (pool.entries.size - target), ⟨rfl, hpm.trans (hkp.symm.append_left _)⟩,
      ?_, ?_⟩
    · have hsz := hkp.length_eq
      rw [ExtTreeMap.length_toList, length_drop] at hsz
      exact hsz.trans (by omega)
    · grind

lemma Removes.keyed {l : List (Bytes × PoolEntry)} (h : Removes pool pool' l)
    (hk : pool.Keyed) : pool'.Keyed :=
  fun e he => hk e (h.perm.mem_iff.mpr (mem_append_right _ he))

lemma Keyed.ascending_take (hk : pool.Keyed) (n : Nat) :
    Ascending ((pool.entries.toList.take n).map Prod.snd) := by
  refine pairwise_map.mpr (Pairwise.imp_of_mem ?_ (ordered_keys_toList.sublist (take_sublist n _)))
  intro a b ha hb hlt hs
  rw [← hk a (mem_of_mem_take ha), ← hk b (mem_of_mem_take hb), hs] at hlt
  exact nonce_lt_of_compare hlt

lemma Keyed.ascending_run (hk : pool.Keyed) (h : MaximalRun pool.entries sender nonce es) :
    Ascending es := by
  have hin := h.inside
  have hnc : ∀ i (hi : i < es.length), es[i].nonce = nonce + ofNat i := by
    intro i hi
    have hm := mem_toList_iff_getElem?_eq_some.mpr (h.pooled i hi)
    exact (poolKey_inj (hk _ hm)).2
  refine pairwise_iff_getElem.mpr fun i j hi hj hij _ => ?_
  rw [hnc i hi, hnc j hj, lt_iff_toNat_lt, add_ofNat_toNat (by omega), add_ofNat_toNat (by omega)]
  omega

/-! ## Runs -/

inductive PoolCall where
  | add (entry : PoolEntry)
  | remove (sender : Address) (nonce : UInt64)
  | drainReady (sender : Address) (currentNonce : UInt64)
  | drainUpTo (n : Nat)
  | evictTo (target : Nat)

/-- What became of the transactions: those accepted, those returned by a
call, and those that were in the pool before an eviction and not after. -/
structure PoolLog where
  accepted : List Tx
  returned : List Tx
  evicted : List Tx

def txs (pool : TxPool) : List Tx := pool.entries.toList.map (·.2.tx)

/-- A call that returns. -/
def call (s : TxPool × PoolLog) : PoolCall → Except String (TxPool × PoolLog)
  | .add entry =>
    match s.1.add entry with
    | .ok (pool, .inserted) => .ok (pool, { s.2 with accepted := entry.tx :: s.2.accepted })
    | .ok (pool, .replaced old) =>
      .ok (pool, { s.2 with accepted := entry.tx :: s.2.accepted
                            returned := old.tx :: s.2.returned })
    | .ok (pool, .rejectedUnderpriced) => .ok (pool, s.2)
    | .error _ => .ok s
  | .remove sender nonce =>
    let r := s.1.remove sender nonce
    .ok (r.1, { s.2 with returned := (r.2.map (·.tx)).toList ++ s.2.returned })
  | .drainReady sender nonce => (s.1.drainReady sender nonce).map fun r =>
      (r.1, { s.2 with returned := r.2 ++ s.2.returned })
  | .drainUpTo n =>
    let r := s.1.drainUpTo n
    .ok (r.1, { s.2 with returned := r.2 ++ s.2.returned })
  | .evictTo target =>
    let pool := s.1.evictTo target
    .ok (pool, { s.2 with evicted := s.1.txs.diff pool.txs ++ s.2.evicted })

structure PoolInv (capacity : Nat) (s : TxPool × PoolLog) : Prop where
  capacity_eq : s.1.capacity = capacity
  size_le : s.1.entries.size ≤ capacity
  keyed : s.1.Keyed
  conserved : s.2.accepted.Perm (s.1.txs ++ (s.2.returned ++ s.2.evicted))

variable {capacity : Nat} {s s' : TxPool × PoolLog} {l : List (Bytes × PoolEntry)}

lemma Removes.txs_perm (h : Removes pool pool' l) :
    pool.txs.Perm (l.map (·.2.tx) ++ pool'.txs) := by
  have hm := h.perm.map fun e => e.2.tx
  rwa [map_append] at hm

lemma Removes.diff_perm (h : Removes pool pool' l) :
    (pool.txs.diff pool'.txs).Perm (l.map (·.2.tx)) := by
  rw [← Multiset.coe_eq_coe, ← Multiset.coe_sub, Multiset.coe_eq_coe.mpr h.txs_perm,
    ← Multiset.coe_add, add_tsub_cancel_right]

lemma PoolInv.removes (h : PoolInv capacity s) {log : PoolLog} (hr : Removes s.1 pool' l)
    (ha : log.accepted = s.2.accepted) (hl : (log.returned ++ log.evicted).Perm
      (l.map (·.2.tx) ++ (s.2.returned ++ s.2.evicted))) : PoolInv capacity (pool', log) := by
  refine ⟨hr.capacity.trans h.capacity_eq, ?_, hr.keyed h.keyed, ?_⟩
  · have hln := hr.perm.length_eq
    have hle := h.size_le
    rw [length_append, ExtTreeMap.length_toList, ExtTreeMap.length_toList] at hln
    show pool'.entries.size ≤ capacity
    omega
  · rw [ha]
    refine h.conserved.trans ((hr.txs_perm.append_right _).trans ?_)
    refine Perm.trans ?_ (hl.symm.append_left _)
    rw [append_assoc]
    exact perm_append_comm_assoc _ _ _

lemma PoolInv.insert (h : PoolInv capacity s) (entry : PoolEntry)
    (hrm : s.1.entries.size < s.1.capacity) {old : List PoolEntry}
    (ho : s.1.entries[poolKey entry.sender entry.nonce]?.toList = old) :
    PoolInv capacity (⟨s.1.entries.insert (poolKey entry.sender entry.nonce) entry, s.1.capacity⟩,
      { s.2 with accepted := entry.tx :: s.2.accepted
                 returned := old.map (·.tx) ++ s.2.returned }) := by
  have hi := toList_insert_perm s.1.entries (poolKey entry.sender entry.nonce) entry
  have hr : ∃ l, Removes s.1 ⟨s.1.entries.erase (poolKey entry.sender entry.nonce), s.1.capacity⟩
      l ∧ l.map (·.2.tx) = old.map (·.tx) := by
    obtain ⟨l, hr, hot⟩ := s.1.remove_spec entry.sender entry.nonce
    refine ⟨l, hr, ?_⟩
    rw [← hot, ← ho, remove]
    cases s.1.entries[poolKey entry.sender entry.nonce]? <;> rfl
  obtain ⟨l, hr, ht⟩ := hr
  -- first the old entry leaves the pool
  have hmid : PoolInv capacity (_, { s.2 with returned := old.map (·.tx) ++ s.2.returned }) :=
    h.removes hr rfl (by rw [ht, append_assoc])
  refine ⟨h.capacity_eq, ?_, ?_, ?_⟩
  · have hsz := size_insert_le
      (t := s.1.entries) (k := poolKey entry.sender entry.nonce) (v := entry)
    have hc := h.capacity_eq
    exact hsz.trans (by omega)
  · intro e he
    rcases mem_cons.mp (hi.mem_iff.mp he) with rfl | he
    · rfl
    · exact hmid.keyed e he
  · exact (hmid.conserved.cons entry.tx).trans
      ((hi.map fun e => e.2.tx).symm.append_right _)

lemma PoolInv.add (h : PoolInv capacity s) (entry : PoolEntry)
    (hcl : call s (.add entry) = .ok s') : PoolInv capacity s' := by
  unfold call TxPool.add at hcl
  by_cases hf : s.1.capacity ≤ s.1.entries.size
  · grind
  simp only [if_neg hf] at hcl
  cases ho : s.1.entries[poolKey entry.sender entry.nonce]? with
  | none =>
    simp only [ho] at hcl
    cases hcl
    exact h.insert entry (Nat.lt_of_not_le hf) (by rw [ho])
  | some =>
    simp only [ho] at hcl
    split_ifs at hcl
    · exact Except.ok.inj hcl ▸ h
    · cases hcl
      exact h.insert entry (Nat.lt_of_not_le hf) (by rw [ho])

lemma evictTo_removes (pool : TxPool) (target : Nat) :
    ∃ l, Removes pool (pool.evictTo target) l := by
  by_cases hle : target ≤ pool.entries.size
  · obtain ⟨l, hr, -⟩ := pool.evictTo_spec hle
    exact ⟨l, hr⟩
  · exact ⟨[], by rw [evictTo, if_pos (by omega)]; exact ⟨rfl, .refl _⟩⟩

lemma PoolInv.call (h : PoolInv capacity s) {c : PoolCall} (hcl : call s c = .ok s') :
    PoolInv capacity s' := by
  cases c with
  | add entry => exact h.add entry hcl
  | remove sender nonce =>
    cases hcl
    obtain ⟨l, hr, ho⟩ := s.1.remove_spec sender nonce
    exact h.removes hr rfl (by rw [ho, append_assoc])
  | drainReady sender nonce =>
    rcases s.1.drainReady_spec sender nonce with ⟨l, pool', hd, hr, -⟩ | ⟨hp, -⟩
    · rw [TxPool.call, hd] at hcl
      cases hcl
      exact h.removes hr rfl (by rw [append_assoc])
    · cases hd : s.1.drainReady sender nonce with
      | ok r => exact absurd hd (hp r)
      | error =>
        rw [TxPool.call, hd] at hcl
        cases hcl
  | drainUpTo n =>
    cases hcl
    obtain ⟨ho, hr⟩ := s.1.drainUpTo_spec n
    exact h.removes hr rfl (by rw [ho, append_assoc])
  | evictTo target =>
    cases hcl
    obtain ⟨l, hr⟩ := s.1.evictTo_removes target
    refine h.removes hr rfl ?_
    refine Perm.trans ?_ (hr.diff_perm.append_right _)
    rw [← append_assoc, ← append_assoc]
    exact perm_append_comm.append_right _

/-- **What a pool holds.** -/
theorem pool_contents_law (capacity : Nat) (calls : List PoolCall) (s : TxPool × PoolLog)
    (hrun : calls.foldlM TxPool.call (.new capacity, ⟨[], [], []⟩) = .ok s) :
    s.1.entries.size ≤ capacity ∧ s.2.accepted.Perm (s.1.txs ++ (s.2.returned ++ s.2.evicted)) ∧
      (∀ sender nonce pool' out, s.1.drainReady sender nonce = .ok (pool', out) →
        ∃ l, out = l.map (·.2.tx) ∧ Removes s.1 pool' l ∧ Ascending (l.map Prod.snd)) ∧
      (∀ n, ∃ l, (s.1.drainUpTo n).2 = l.map (·.2.tx) ∧ Removes s.1 (s.1.drainUpTo n).1 l ∧
        Ascending (l.map Prod.snd)) ∧
      ∀ target, target ≤ s.1.entries.size → ∃ l, Removes s.1 (s.1.evictTo target) l ∧
        (s.1.evictTo target).entries.size = target ∧
        ∀ dropped ∈ l, ∀ kept ∈ (s.1.evictTo target).entries.toList,
          dropped.2.effectiveGasPrice.toNat ≤ kept.2.effectiveGasPrice.toNat := by
  have hi : PoolInv capacity s := by
    refine foldlM_ok_keeps (fun s c s' hs hcl => hs.call hcl) ?_ hrun
    exact ⟨rfl, Nat.zero_le _, by simp [Keyed, new], by simp [new, txs]⟩
  refine ⟨hi.size_le, hi.conserved, ?_, ?_, fun target => s.1.evictTo_spec⟩
  · intro sender nonce pool' out hd
    rcases s.1.drainReady_spec sender nonce with ⟨l, rest, hok, hr, hrun⟩ | ⟨hp, -⟩
    · cases hok.symm.trans hd
      exact ⟨l, rfl, hr, hi.keyed.ascending_run hrun⟩
    · exact absurd hd (hp _)
  · intro n
    obtain ⟨ho, hr⟩ := s.1.drainUpTo_spec n
    exact ⟨_, ho, hr, hi.keyed.ascending_take n⟩

/-- **A pooled transaction with a lower price is replaced exactly in a pool
that is not full.** -/
theorem add_replaces_iff (pool : TxPool) (entry existing : PoolEntry)
    (hpooled : pool.entries[poolKey entry.sender entry.nonce]? = some existing)
    (hlower : existing.effectiveGasPrice.toNat < entry.effectiveGasPrice.toNat) :
    (∃ pool' : TxPool, pool.add entry = .ok (pool', .replaced existing) ∧
      pool'.entries[poolKey entry.sender entry.nonce]? = some entry ∧
      pool'.entries.size = pool.entries.size) ↔ pool.entries.size < pool.capacity := by
  unfold add
  constructor
  · grind
  · intro hrm
    have hm : pool.entries.contains (poolKey entry.sender entry.nonce) = true := by
      simp [hpooled, contains_eq_isSome_getElem?]
    rw [if_neg (by omega)]
    simp only [hpooled, if_neg (Nat.not_le.mpr hlower)]
    exact ⟨_, rfl, getElem?_insert_self, by
      rw [size_insert, if_pos hm]⟩

def sampleEntry (price : Nat) : PoolEntry := ⟨Arr.zero 20, 0, BitVec.ofNat 256 price, bondFor 1⟩

def sampleCalls : List PoolCall :=
  [.add (sampleEntry 1), .add (sampleEntry 2), .drainUpTo 1]

theorem pool_contents_law_drained :
    ∃ s, sampleCalls.foldlM TxPool.call (.new 2, ⟨[], [], []⟩) = .ok s ∧
    s.2.accepted.length = 2 ∧ s.1.entries.size ≤ 2 :=
  ⟨_, rfl, rfl, (pool_contents_law 2 sampleCalls _ rfl).1⟩

/-- A pool that holds the transaction with price 1. -/
def onePool (capacity : Nat) : TxPool :=
  ⟨(∅ : ExtTreeMap Bytes PoolEntry).insert (poolKey (Arr.zero 20) 0) (sampleEntry 1), capacity⟩

theorem add_replaces_iff_room : ∃ pool' : TxPool,
    (onePool 2).add (sampleEntry 2) = .ok (pool', .replaced (sampleEntry 1)) := by
  obtain ⟨pool', ha, -⟩ := (add_replaces_iff (onePool 2) (sampleEntry 2) (sampleEntry 1)
    getElem?_insert_self (by decide)).mpr (by decide +kernel)
  exact ⟨pool', ha⟩

theorem full_pool_keeps_cheaper :
    (onePool 1).entries[poolKey (sampleEntry 2).sender (sampleEntry 2).nonce]? =
        some (sampleEntry 1) ∧
      (sampleEntry 1).effectiveGasPrice.toNat < (sampleEntry 2).effectiveGasPrice.toNat ∧
      (onePool 1).add (sampleEntry 2) = .error .full :=
  ⟨getElem?_insert_self, by decide, if_pos (by decide +kernel)⟩

/-- The pool after some submissions to a new one. -/
def submitted (c : Crypto) (spec : ChainSpec) (capacity : Nat) (raws : List Bytes) : TxPool :=
  raws.foldl (fun pool raw =>
    match submitRawTx c spec pool raw with
    | .ok (pool, _) => pool
    | .error _ => pool) (.new capacity)

/-- **Draining returns the maximal run exactly if the run has an end.** -/
theorem drain_returns_run_iff (c : Crypto) (spec : ChainSpec) (capacity : Nat) (raws : List Bytes)
    (sender : Address) (nonce : UInt64) :
    (∃ pool' es, (submitted c spec capacity raws).drainReady sender nonce =
        .ok (pool', es.map (·.tx)) ∧
      MaximalRun (submitted c spec capacity raws).entries sender nonce es) ↔
    ∃ n, nonce ≤ n ∧ (submitted c spec capacity raws).entries[poolKey sender n]? = none := by
  generalize submitted c spec capacity raws = pool
  constructor
  · rintro ⟨pool', es, -, hr⟩
    refine ⟨_, ?_, hr.stops⟩
    rw [le_iff_toNat_le, add_ofNat_toNat hr.inside]
    omega
  · rintro ⟨n, hn, hnn⟩
    rcases pool.drainReady_spec sender nonce with ⟨l, pool', hok, -, hr⟩ | ⟨-, ha⟩
    · exact ⟨pool', l.map Prod.snd, by rw [hok, List.map_map]; rfl, hr⟩
    · exact absurd hnn (ha n hn)

def lastNonceTx : Tx :=
  .eip1559 ⟨1, 0xffffffffffffffff, 0, 1, 100000, some PRECOMPILE_ADDR, 5, OP_BOND, [], 0,
    arrOfNat 32 1, arrOfNat 32 2, .secp256k1⟩

theorem last_nonce_panics :
    ((submitted .reference sampleSpec 1 [hexText lastNonceTx.encode2718]).drainReady sampleSender
      0xffffffffffffffff).map Prod.snd = .error "nonce overflow" := by
  decide +kernel

end TxPool

end Aii.Net
