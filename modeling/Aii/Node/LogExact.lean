/-
Aii.Node.LogExact — what a log query finds.

The answer is right if every execution in the range is `Retained`
(`logs_exact_iff`).
-/
import Aii.Chain.RoundTrip
import Aii.Node.LogQuery
import Aii.Node.RecoverIndex

namespace Aii.Node

open Common Chain List Backend UInt64 LogQuery Option

section Segments

variable {α β : Type} {l : List α} {f : α → List β} {κ : Type} {key : α → κ}

lemma flatMap_filter_eq (p : α → Bool) (f : α → List β) (l : List α) :
    (l.filter p).flatMap f = l.flatMap fun a => if p a then f a else [] := by
  induction l with
  | nil => rfl
  | cons a _ ih => cases hp : p a <;> simp [hp, ih]

lemma flatMap_range'_eq {key : α → Nat} (hsd : l.Pairwise fun a b => key a < key b)
    {g : Nat → List β} {lo len : Nat}
    (hg : ∀ k, lo ≤ k → k < lo + len → (∀ a ∈ l, key a ≠ k) → g k = []) :
    (range' lo len).flatMap g =
      l.flatMap fun a => if lo ≤ key a ∧ key a < lo + len then g (key a) else [] := by
  have hs : (range' lo len).flatMap g =
      ((range' lo len).filter fun k => k ∈ l.map key).flatMap g := by
    rw [flatMap_filter_eq]
    refine flatMap_congr fun k hr => ?_
    obtain ⟨hlo, hhi⟩ := mem_range'_1.mp hr
    split_ifs with hk
    · rfl
    · grind
  have hv : (range' lo len).filter (fun k => k ∈ l.map key) =
      (l.map key).filter fun k => lo ≤ k ∧ k < lo + len := by
    refine List.Pairwise.eq_of_mem_iff (r := (· < ·)) ?_ ?_ ?_
    · exact (pairwise_lt_range' 1).filter _
    · exact (pairwise_map.mpr hsd).filter _
    · intro k
      simp [mem_range'_1, and_comm]
  rw [hs, hv, flatMap_filter_eq, flatMap_map]
  simp

lemma filter_flatMap_eq [DecidableEq κ] {tag : β → κ} (hf : ∀ a ∈ l, ∀ y ∈ f a, tag y = key a)
    (hds : l.Pairwise fun a b => key a ≠ key b) {a : α} (ha : a ∈ l) :
    ((l.flatMap f).filter fun y => tag y = key a) = f a := by
  induction l with
  | nil => cases ha
  | cons _ l ih =>
    obtain ⟨hhd, htl⟩ := forall_mem_cons.mp hf
    obtain ⟨hne, hds⟩ := pairwise_cons.mp hds
    have hoh : ∀ {x y : α}, (∀ z ∈ f x, tag z = key x) → key x ≠ key y →
        ((f x).filter fun z => tag z = key y) = [] := by simp_all
    rw [flatMap_cons, filter_append]
    rcases mem_cons.mp ha with rfl | ha
    · have hsf := filter_eq_self.mpr fun z hz => decide_eq_true (hhd z hz)
      have hrs : ((l.flatMap f).filter fun z => tag z = key a) = [] := by
        rw [filter_flatMap, flatMap_eq_nil_iff]
        exact fun x hx => hoh (htl x hx) (hne x hx).symm
      rw [hsf, hrs, append_nil]
    · rw [hoh hhd (hne a ha), ih htl hds ha, nil_append]

lemma flatMap_eq_iff [DecidableEq κ] (tag : β → κ) {g : α → List β}
    (hf : ∀ a ∈ l, ∀ y ∈ f a, tag y = key a) (hg : ∀ a ∈ l, ∀ y ∈ g a, tag y = key a)
    (hds : l.Pairwise fun a b => key a ≠ key b) :
    l.flatMap f = l.flatMap g ↔ ∀ a ∈ l, f a = g a := by
  constructor
  · intro h a ha
    rw [← filter_flatMap_eq hf hds ha, h, filter_flatMap_eq hg hds ha]
  · intro h
    exact flatMap_congr h

lemma flatMap_eq_of_sublist {γ : Type} {l' : List (α × γ)} (h : (l'.map Prod.fst).Sublist l)
    (hnd : l.Nodup) {g : α × γ → List β} (hin : ∀ p ∈ l', f p.1 = g p)
    (ho : ∀ a ∈ l, a ∉ l'.map Prod.fst → f a = []) : l.flatMap f = l'.flatMap g := by
  generalize hmp : l'.map Prod.fst = m at h
  induction h generalizing l' with
  | slnil => simp_all
  | cons a hsub ih =>
    obtain ⟨hn, hnd⟩ := nodup_cons.mp hnd
    have hs : f a = [] := by grind
    rw [flatMap_cons, hs, nil_append]
    exact ih hnd hin (forall_mem_cons.mp ho).2 hmp
  | cons_cons _ _ ih =>
    obtain ⟨hn, ht⟩ := nodup_cons.mp hnd
    obtain ⟨p, _, rfl, rfl, hrs⟩ := map_eq_cons_iff.mp hmp
    obtain ⟨hhd, htl⟩ := forall_mem_cons.mp hin
    rw [flatMap_cons, flatMap_cons, hhd, ih ht htl ?_ hrs]
    intro a' ha' hnt
    refine ho a' (mem_cons_of_mem _ ha') fun hm => ?_
    rcases mem_cons.mp hm with rfl | hm
    · exact hn ha'
    · exact hnt hm

end Segments

/-! ## Executions -/

/-- A block that was executed, with the receipts it gave. -/
structure Execution where
  block : Block
  receipts : List (Tx × Receipt)

open Execution

section Model

variable (c : Crypto) (revm : Revm) (spec : ChainSpec)

/-- What an operation executes. -/
def execution (s : NodeState) : HostOp → List Execution
  | .commit block =>
    if applies c s block then
      [⟨block, (executedState c revm spec (persistBlock c s.backend block) block).receipts⟩]
    else []
  | .setHead _ => []

def executions : NodeState → List HostOp → List Execution
  | _, [] => []
  | s, op :: ops => execution c revm spec s op ++ executions (hostStep c revm spec s op) ops

def latestReceipt (history : List Execution) (txHash : H256) : Option Receipt :=
  ((history.flatMap (·.receipts)).reverse.find? fun p => p.1.hash c = txHash).map Prod.snd

namespace Execution

def emitted (q : LogQuery) (e : Execution) : List LogEntry :=
  e.receipts.flatMap fun p => acceptedEntries c q e.block.header.number p.1 p.2.logs

def latest (q : LogQuery) (history : List Execution) (e : Execution) : List LogEntry :=
  e.block.body.transactions.flatMap fun tx =>
    match latestReceipt c history (tx.hash c) with
    | some r => acceptedEntries c q e.block.header.number tx r.logs
    | none => []

end Execution

def LogQuery.answer (q : LogQuery) (history : List Execution) : List LogEntry :=
  history.flatMap fun e => if q.covers e.block.header.number then e.emitted c q else []

/-- Nothing a query asks of an execution is lost: if the block was evicted it emitted no
accepted log, and if its bloom admits the query the receipts its transactions have now
are those it gave, as far as accepted logs go. -/
structure Retained (q : LogQuery) (history : List Execution) (e : Execution) : Prop where
  evicted : e.block ∉ newest (history.map (·.block)) → e.emitted c q = []
  recorded : e.block ∈ newest (history.map (·.block)) →
    q.admits c (blockBloom c e.receipts) = true → e.latest c q history = e.emitted c q

end Model

/-! ## What the store keeps -/

section Journal

variable {c : Crypto} {revm : Revm} {spec : ChainSpec} {s : NodeState} {history : List Execution}
  {b : Backend}

lemma executions_concat (ops : List HostOp) (op : HostOp) :
    executions c revm spec s (ops ++ [op]) =
      executions c revm spec s ops ++ execution c revm spec (hostRun c revm spec s ops) op := by
  induction ops generalizing s with
  | nil => simp [executions, hostRun]
  | cons _ _ ih =>
    rw [cons_append, executions, ih, executions, append_assoc]
    rfl

lemma latestReceipt_concat (e : Execution) (txHash : H256) :
    latestReceipt c (history ++ [e]) txHash =
      ((e.receipts.reverse.find? fun p => p.1.hash c = txHash).map Prod.snd).or
        (latestReceipt c history txHash) := by
  unfold latestReceipt
  rw [flatMap_append, reverse_append, find?_append, map_or]
  simp

/-- The store has the bloom of every execution, and for a transaction hash the receipt that
was written last. -/
structure Journals (c : Crypto) (b : Backend) (history : List Execution) : Prop where
  blooms : ∀ e ∈ history,
    (postRoots b (e.block.hash c)).map (·.logsBloom) = some (blockBloom c e.receipts)
  receipts : ∀ txHash : H256,
    b.get .receipts txHash.toList = (latestReceipt c history txHash).map Receipt.encode2718

lemma postRoots_congr {b' : Backend} {h : H256}
    (hg : b'.get .metaCf (META_KEY_POSTROOT_PREFIX ++ h.toList) =
      b.get .metaCf (META_KEY_POSTROOT_PREFIX ++ h.toList)) : postRoots b' h = postRoots b h := by
  rw [postRoots, hg, postRoots]

lemma postRoots_applyBlock (b : Backend) (block : Block) (h : H256) :
    (postRoots (applyBlock c revm spec b block) h).map (·.logsBloom) = if h = block.hash c then
        some (blockBloom c (executedState c revm spec (persistBlock c b block) block).receipts)
      else (postRoots b h).map (·.logsBloom) := by
  have hk : META_KEY_POSTROOT_PREFIX <+: META_KEY_POSTROOT_PREFIX ++ h.toList := prefix_append _ _
  have haf : postRoots (applyBlock c revm spec b block) h =
      postRoots (executeBlockTxs c revm spec (persistBlock c b block) block) h := by
    refine postRoots_congr ?_
    rw [applyBlock, maybeElectValidatorSet_meta (prefix_excludes hk (by decide)), Backend.get,
      scanMicrochainAnchors_frame (by decide), Backend.get]
  rw [haf, executeBlockTxs]
  split_ifs with hsf
  · rw [hsf, postRoots_persistPostRoots]
    rfl
  · refine congrArg (Option.map _) (postRoots_congr ?_)
    have hne : META_KEY_POSTROOT_PREFIX ++ h.toList ≠
        META_KEY_POSTROOT_PREFIX ++ (block.hash c).toList := fun heq =>
      hsf (toList_inj.mp (append_cancel_left heq))
    rw [persistPostRoots, get_put_ne fun _ => hne, persistReceipts, Backend.get,
      cf_write_ne, ← Backend.get, executedState_meta, persistBlock_meta]
    · exact prefix_excludes hk (by decide)
    · exact prefix_excludes hk (by decide)
    · exact fun hg => hg.excludes (by decide) hk
    · grind

lemma receipts_applyBlock (b : Backend) (block : Block) (txHash : H256) :
    (applyBlock c revm spec b block).get .receipts txHash.toList =
      (((executedState c revm spec (persistBlock c b block) block).receipts.reverse.find? fun p =>
        p.1.hash c = txHash).map fun p => p.2.encode2718).or (b.get .receipts txHash.toList) := by
  rw [applyBlock, Backend.get, maybeElectValidatorSet_frame (by decide),
    scanMicrochainAnchors_frame (by decide), executeBlockTxs, persistPostRoots,
    cf_put_ne (by decide), ← Backend.get, persistReceipts, get_write_map, Backend.get,
    executedState_frame (by decide) (by decide), persistBlock_frame (by decide), Backend.get]
  simp [toList_inj]

/-- **One more block** is journalled. -/
lemma Journals.applyBlock (h : Journals c b history) {block : Block}
    (hn : ∀ e ∈ history, e.block.hash c ≠ block.hash c) :
    Journals c (applyBlock c revm spec b block) (history ++
      [⟨block, (executedState c revm spec (persistBlock c b block) block).receipts⟩]) where
  blooms e he := by
    rw [postRoots_applyBlock]
    rcases mem_append.mp he with he | he
    · rw [if_neg (hn e he)]
      exact h.blooms e he
    · rw [mem_singleton.mp he, if_pos rfl]
  receipts txHash := by
    rw [receipts_applyBlock, h.receipts, latestReceipt_concat, Option.map_or, Option.map_map]
    rfl

lemma Journals.setHead (h : Journals c s.backend history) (num : UInt64) :
    Journals c (setHead s num).backend history where
  blooms e he := by
    rw [← h.blooms e he]
    have hag := setHead_agree (K := fun _ k => META_KEY_POSTROOT_PREFIX <+: k) (by decide)
      (by decide) s num
    exact congrArg (Option.map _) (postRoots_congr (hag _ _ (prefix_append _ _)))
  receipts txHash := by
    rw [Backend.get, setHead_frame (by decide), ← Backend.get]
    exact h.receipts txHash

/-- **After a run** every block was executed once, and all executions are journalled. -/
lemma journals_hostRun (hfh : b.cf .receipts = ∅) {ops : List HostOp}
    (hchain : IsChain c (committed ops)) :
    (executions c revm spec (.new b) ops).map (·.block) = committed ops ∧
      Journals c (hostRun c revm spec (.new b) ops).backend
        (executions c revm spec (.new b) ops) := by
  induction ops using List.reverseRecOn with
  | nil =>
    refine ⟨rfl, nofun, fun txHash => ?_⟩
    simp [hostRun, NodeState.new, Backend.get, hfh, latestReceipt, executions]
  | append_singleton ops op ih =>
    rw [hostRun_concat, executions_concat]
    cases op with
    | setHead num =>
      rw [committed_concat_setHead] at hchain ⊢
      obtain ⟨hbc, hjr⟩ := ih hchain
      rw [execution, append_nil]
      exact ⟨hbc, hjr.setHead num⟩
    | commit block =>
      rw [committed_concat_commit] at hchain ⊢
      obtain ⟨hbc, hjr⟩ := ih hchain.init
      have hix : Indexed c (hostRun c revm spec (.new b) ops).blocks (committed ops) :=
        indexed_hostRun hchain.init
      have has := (hix.applies_iff block).mpr fun x hx =>
        hchain.fresh x (mem_of_mem_newest hx)
      rw [execution, if_pos has, hostStep, commitBlock_of_applies has]
      refine ⟨by rw [map_append, hbc]; rfl, hjr.applyBlock fun e he => ?_⟩
      exact (hchain.fresh e.block (hbc ▸ mem_map_of_mem he)).1

end Journal

/-! ## What the node answers -/

section Answer

variable {c : Crypto} {n : NodeState} {history : List Execution} {q : LogQuery} {e : Execution}
  {entry : LogEntry} {number : UInt64}

lemma latestReceipt_eq_some {txHash : H256} {r : Receipt}
    (h : latestReceipt c history txHash = some r) :
    ∃ e ∈ history, ∃ p ∈ e.receipts, p.1.hash c = txHash ∧ p.2 = r := by
  obtain ⟨p, hp, rfl⟩ := map_eq_some_iff.mp h
  obtain ⟨e, he, hm⟩ := mem_flatMap.mp (mem_reverse.mp (mem_of_find?_eq_some hp))
  have hhs := find?_some hp
  exact ⟨e, he, p, hm, of_decide_eq_true hhs, rfl⟩

lemma Journals.receiptByTxHash (h : Journals c n.backend history)
    (hsize : ∀ e ∈ history, ∀ p ∈ e.receipts, p.2.encode2718.length < 2 ^ 64) (txHash : H256) :
    receiptByTxHash n.backend txHash = .ok (latestReceipt c history txHash) := by
  rw [Node.receiptByTxHash, h.receipts]
  cases hlatest : latestReceipt c history txHash with
  | none => rfl
  | some =>
    obtain ⟨e, he, p, hp, -, rfl⟩ := latestReceipt_eq_some hlatest
    have hdc := Receipt.decode2718_encode2718 (hsize e he p hp) []
    rw [append_nil] at hdc
    simp [hdc]

lemma Execution.admits_of_emitted (h : e.emitted c q ≠ []) :
    q.admits c (blockBloom c e.receipts) = true := by
  obtain ⟨_, hen⟩ := exists_mem_of_ne_nil _ h
  obtain ⟨p, hp, hm⟩ := mem_flatMap.mp hen
  obtain ⟨_, hl, -⟩ := mem_map.mp hm
  obtain ⟨hl, hae⟩ := mem_filter.mp hl
  exact admits_of_accepts (mem_flatMap.mpr ⟨p, hp, hl⟩) hae

def Execution.found (c : Crypto) (q : LogQuery) (history : List Execution) (e : Execution) :
    List LogEntry :=
  if e.block ∈ newest (history.map (·.block)) ∧ q.admits c (blockBloom c e.receipts) = true then
    e.latest c q history
  else []

lemma Execution.found_eq_iff (e : Execution) :
    e.found c q history = e.emitted c q ↔ Retained c q history e := by
  unfold found
  constructor
  · intro h
    refine ⟨fun he => ?_, fun hn ha => ?_⟩
    · rw [← h, if_neg fun hbh => he hbh.1]
    · rwa [if_pos ⟨hn, ha⟩] at h
  · intro h
    split_ifs with hbh
    · exact h.recorded hbh.1 hbh.2
    · by_contra hne
      have ha := admits_of_emitted (Ne.symm hne)
      by_cases hn : e.block ∈ newest (history.map (·.block))
      · exact hbh ⟨hn, ha⟩
      · exact hne (h.evicted hn).symm

lemma acceptedEntries_number {tx : Tx} {logs : List Log}
    (h : entry ∈ acceptedEntries c q number tx logs) : entry.blockNumber = number := by
  obtain ⟨_, -, rfl⟩ := mem_map.mp h
  rfl

lemma Execution.found_number (h : entry ∈ e.found c q history) :
    entry.blockNumber = e.block.header.number := by
  unfold found at h
  split_ifs at h
  · obtain ⟨tx, -, hm⟩ := mem_flatMap.mp h
    split at hm
    · exact acceptedEntries_number hm
    · cases hm
  · cases h

lemma entriesAt_of_absent {chain : List Block} (hix : Indexed c n.blocks chain)
    (h : ∀ x ∈ newest chain, x.header.number ≠ number) : entriesAt c n q number = [] := by
  have hnn : n.blocks.byNumber[number]? = none := by
    by_contra hso
    obtain ⟨hash, hhs⟩ := ne_none_iff_exists'.mp hso
    obtain ⟨x, hx, hnm, -⟩ := (hix.byNumber _ _).mp hhs
    exact h x hx hnm
  rw [entriesAt, hnn]

section Indexed

variable (hix : Indexed c n.blocks (history.map (·.block)))
  (hjr : Journals c n.backend history)
  (hchain : IsChain c (history.map (·.block)))
  (hsize : ∀ e ∈ history, ∀ p ∈ e.receipts, p.2.encode2718.length < 2 ^ 64)

include hix hjr hchain hsize

lemma entriesAt_number {e : Execution} (he : e ∈ history) :
    entriesAt c n q e.block.header.number = e.found c q history := by
  unfold found
  by_cases hn : e.block ∈ newest (history.map (·.block))
  · have hhs := (hix.byNumber _ _).mpr ⟨e.block, hn, rfl, rfl⟩
    have hby := OrderedMap.Represents.get hix.bodies hn
    obtain ⟨_, hr, hb⟩ := map_eq_some_iff.mp (hjr.blooms e he)
    simp [entriesAt, hhs, hr, hb, hby, hjr.receiptByTxHash hsize, any_some, hn, true_and]
    cases q.admits c (blockBloom c e.receipts) with
    | false => rfl
    | true =>
      simp [latest]
      refine flatMap_congr fun tx _ => ?_
      cases latestReceipt c history (tx.hash c) <;> rfl
  · rw [if_neg fun hbh => hn hbh.1]
    refine entriesAt_of_absent hix fun x hx hnm => hn ?_
    rwa [← hchain.eq_of_number (mem_of_mem_newest hx) (mem_map_of_mem he) hnm]

/-- **The loop** finds what it finds for each execution in the range. -/
lemma entriesInRange_eq :
    entriesInRange c n q = history.flatMap fun e =>
        if q.covers e.block.header.number then e.found c q history else [] := by
  have hsd := (pairwise_map.mp hchain.numbers).imp fun h => lt_iff_toNat_lt.mp h
  have ha : ∀ k, q.fromBlock.toNat ≤ k →
      k < q.fromBlock.toNat + (q.toBlock.toNat + 1 - q.fromBlock.toNat) →
      (∀ e ∈ history, e.block.header.number.toNat ≠ k) → entriesAt c n q (ofNat k) = [] := by
    intro k _ _ hnn
    have hk : (ofNat k).toNat = k := by
      have hto : q.toBlock.toNat < size := q.toBlock.toNat_lt
      exact toNat_ofNat_of_lt' (by omega)
    refine entriesAt_of_absent hix fun x hx hnm => ?_
    obtain ⟨e, he, rfl⟩ := mem_map.mp (mem_of_mem_newest hx)
    exact hnn e he (by rw [hnm, hk])
  rw [entriesInRange, flatMap_range'_eq hsd ha]
  refine flatMap_congr fun e he => ?_
  rw [UInt64.ofNat_toNat, entriesAt_number hix hjr hchain hsize he]
  refine if_congr ?_ rfl rfl
  rw [LogQuery.covers, Bool.and_eq_true, decide_eq_true_eq, decide_eq_true_eq,
    UInt64.le_iff_toNat_le, UInt64.le_iff_toNat_le]
  omega

lemma entriesInRange_eq_answer_iff : entriesInRange c n q = q.answer c history ↔
      ∀ e ∈ history, q.covers e.block.header.number = true → Retained c q history e := by
  have hds := (pairwise_map.mp hchain.numbers).imp fun h => UInt64.ne_of_lt h
  rw [entriesInRange_eq hix hjr hchain hsize, answer, flatMap_eq_iff LogEntry.blockNumber ?_ ?_ hds]
  · refine forall₂_congr fun e _ => ?_
    rw [← found_eq_iff]
    cases q.covers e.block.header.number <;> simp
  · intro e _ entry hen
    split_ifs at hen
    · exact found_number hen
    · cases hen
  · intro e _ _ hen
    split_ifs at hen
    · obtain ⟨_, -, hm⟩ := mem_flatMap.mp hen
      exact acceptedEntries_number hm
    · cases hen

end Indexed

end Answer

section Once

variable {c : Crypto} {revm : Revm} {spec : ChainSpec} {history : List Execution} {q : LogQuery}

variable (c revm spec) in
lemma commitTxs_receipts (number : UInt64) (beneficiary : Address) (txs : List Tx)
    (s : ExecState) :
    ∃ given, (commitTxs c revm spec number beneficiary s txs).receipts = s.receipts ++ given ∧
      (given.map Prod.fst).Sublist txs := by
  induction txs generalizing s with
  | nil => exact ⟨[], by simp [commitTxs], List.Sublist.refl _⟩
  | cons tx _ ih =>
    obtain ⟨given, hgiv, hsub⟩ := ih (commitTx c revm spec number beneficiary s tx)
    rw [commitTxs, foldl_cons, ← commitTxs, hgiv]
    unfold commitTx
    split
    · exact ⟨given, rfl, hsub.cons tx⟩
    next ch _ =>
      refine ⟨(tx, ch.receipt c (satAdd64 s.cumulativeGasUsed ch.gasUsed)) :: given, ?_,
        hsub.cons_cons tx⟩
      simp [ExecState.charged]

lemma receipts_sublist (s : NodeState) (ops : List HostOp) : ∀ e ∈ executions c revm spec s ops,
      (e.receipts.map Prod.fst).Sublist e.block.body.transactions := by
  induction ops generalizing s with
  | nil => nofun
  | cons op _ ih =>
    intro e he
    rcases mem_append.mp he with he | he
    · cases op with
      | setHead => cases he
      | commit block =>
        rw [execution] at he
        split_ifs at he
        · obtain rfl := mem_singleton.mp he
          obtain ⟨given, hgiv, hsub⟩ := commitTxs_receipts c revm spec block.header.number
            block.header.beneficiary block.body.transactions
            (.start (persistBlock c s.backend block))
          have hr : (executedState c revm spec (persistBlock c s.backend block)
              block).receipts = given := hgiv
          rw [hr]
          exact hsub
        · cases he
    · exact ih _ e he

variable (hsub : ∀ e ∈ history, (e.receipts.map Prod.fst).Sublist e.block.body.transactions)
  (hoc : (history.flatMap fun e => e.block.body.transactions.map (·.hash c)).Nodup)
  {e : Execution}

include hsub hoc

lemma receipt_unique {e' : Execution} (he : e ∈ history) (he' : e' ∈ history) {tx : Tx}
    (htx : tx ∈ e.block.body.transactions) {p : Tx × Receipt} (hp : p ∈ e'.receipts)
    (hhs : p.1.hash c = tx.hash c) : e' = e ∧ p.1 = tx := by
  obtain ⟨hbl, hd⟩ := nodup_flatMap.mp hoc
  have hp' := (hsub e' he').subset (mem_map_of_mem hp)
  have heq : e' = e := by
    by_contra hne
    have hs : Std.Symm fun x y : Execution => (x.block.body.transactions.map (·.hash c)).Disjoint
        (y.block.body.transactions.map (·.hash c)) := ⟨fun _ _ h => h.symm⟩
    exact hd.forall he' he hne (mem_map_of_mem hp') (hhs ▸ mem_map_of_mem htx)
  subst heq
  exact ⟨rfl, inj_on_of_nodup_map (hbl e' he) hp' htx hhs⟩

lemma retained_of_once (he : e ∈ history) (hn : e.block ∈ newest (history.map (·.block))) :
    Retained c q history e := by
  refine ⟨fun hev => absurd hn hev, fun _ _ => ?_⟩
  have hnd := ((nodup_flatMap.mp hoc).1 e he).of_map
  refine flatMap_eq_of_sublist (hsub e he) hnd (fun p hp => ?_) fun tx htx hnt => ?_
  · have hp' := (hsub e he).subset (mem_map_of_mem hp)
    have hso : latestReceipt c history (p.1.hash c) ≠ none := by
      rw [latestReceipt, Ne, map_eq_none_iff, find?_eq_none]
      intro hnn
      refine hnn p (mem_reverse.mpr (mem_flatMap.mpr ⟨e, he, hp⟩)) ?_
      exact decide_eq_true rfl
    obtain ⟨r, hr⟩ := ne_none_iff_exists'.mp hso
    obtain ⟨e', he', p', hm, hhs, rfl⟩ := latestReceipt_eq_some hr
    obtain ⟨rfl, hf⟩ := receipt_unique hsub hoc he he' hp' hm hhs
    -- a transaction has one receipt in the block
    have heq : p' = p := by
      refine inj_on_of_nodup_map (((hsub e' he).nodup) hnd) hm hp hf
    rw [hr, heq]
  · cases hr : latestReceipt c history (tx.hash c) with
    | none => rfl
    | some =>
      obtain ⟨e', he', p', hm, hhs, rfl⟩ := latestReceipt_eq_some hr
      obtain ⟨rfl, rfl⟩ := receipt_unique hsub hoc he he' htx hm hhs
      exact absurd (mem_map_of_mem hm) hnt

end Once

/-- **Log queries** are exact if and only if all executions of the range are
retained. -/
theorem logs_exact_iff (c : Crypto) (revm : Revm) (spec : ChainSpec) (b : Backend)
    (hfresh : b.cf .receipts = ∅) (ops : List HostOp) (hchain : IsChain c (committed ops))
    (hsize : ∀ e ∈ executions c revm spec (.new b) ops, ∀ p ∈ e.receipts,
      p.2.encode2718.length < 2 ^ 64) (f : LogFilter) :
    let n := hostRun c revm spec (.new b) ops
    let history := executions c revm spec (.new b) ops
    let q := f.query n.head
    (logsInRange c n f = (q.answer c history).map LogEntry.view ↔
        ∀ e ∈ history, q.covers e.block.header.number = true → Retained c q history e) ∧
      (∀ e ∈ history, ∀ p ∈ e.receipts, ∀ log ∈ p.2.logs, q.accepts log = true →
        q.admits c (blockBloom c e.receipts) = true) ∧
      ((∀ x ∈ committed ops, q.covers x.header.number = true → x ∈ newest (committed ops)) →
        ((committed ops).flatMap fun x => x.body.transactions.map (·.hash c)).Nodup →
        logsInRange c n f = (q.answer c history).map LogEntry.view) := by
  intro n history q
  obtain ⟨hbc, hjr⟩ := @journals_hostRun c revm spec b hfresh ops hchain
  have hix : Indexed c n.blocks (history.map (·.block)) := by
    rw [hbc]
    exact indexed_hostRun hchain
  have hi : logsInRange c n f = (q.answer c history).map LogEntry.view ↔
      ∀ e ∈ history, q.covers e.block.header.number = true → Retained c q history e := by
    rw [logsInRange, (map_injective_iff.mpr LogEntry.view_injective).eq_iff]
    exact entriesInRange_eq_answer_iff hix hjr (hbc.symm ▸ hchain) hsize
  refine ⟨hi, fun e _ p hp log hl hae => ?_, fun hr hoc => hi.mpr ?_⟩
  · exact admits_of_accepts (mem_flatMap.mpr ⟨p, hp, hl⟩) hae
  · intro e he hc
    refine retained_of_once (receipts_sublist (.new b) ops) ?_ he ?_
    · rwa [← hbc, flatMap_map] at hoc
    · grind

/-! ## Answers that are right, and wrong ones -/

def nonceLogger : Revm := fun db env =>
  match env.transactTo with
  | none => .error "only calls"
  | some contract =>
    let nonce := db.nonce env.caller
    .ok ⟨.success 21000 [⟨contract, [], u64Be nonce⟩] (.call []),
      ⟨[(env.caller, ⟨{ db.info env.caller with nonce := nonce + 1 }, [], .called⟩)],
        nodup_singleton _⟩⟩

def atBlock (number : Text) : LogFilter := ⟨some number, some number, none, []⟩

def rightAnswer (ops : List HostOp) (f : LogFilter) : List LogEntryView :=
  ((f.query (hostRun .reference nonceLogger sampleSpec (.new .empty) ops).head).answer
    .reference
    (executions .reference nonceLogger sampleSpec (.new .empty) ops)).map LogEntry.view

def givenAnswer (ops : List HostOp) (f : LogFilter) : List LogEntryView :=
  logsInRange .reference
    (hostRun .reference nonceLogger sampleSpec (.new .empty) ops) f

theorem logs_exact_once :
    givenAnswer [.commit (resendBlock 127), .setHead 127] (atBlock ['0', 'x', '7', 'f']) =
        rightAnswer [.commit (resendBlock 127), .setHead 127] (atBlock ['0', 'x', '7', 'f']) ∧
      rightAnswer [.commit (resendBlock 127), .setHead 127] (atBlock ['0', 'x', '7', 'f']) ≠
        [] := by
  have hchain : IsChain .reference
      (committed [.commit (resendBlock 127), .setHead 127]) := ⟨by decide, by decide +kernel⟩
  have hsize : ∀ e ∈ executions .reference nonceLogger sampleSpec (.new .empty)
      [.commit (resendBlock 127), .setHead 127], ∀ p ∈ e.receipts,
        p.2.encode2718.length < 2 ^ 64 := by
    decide +kernel
  refine ⟨(logs_exact_iff .reference nonceLogger sampleSpec .empty rfl _ hchain hsize
    (atBlock ['0', 'x', '7', 'f'])).2.2 ?_ ?_, by decide +kernel⟩
  · intro x hx _
    rwa [newest_of_short (by decide)]
  · decide +kernel

def buriedCall : List Block :=
  (List.range 2049).map fun i => if i = 0 then resendBlock 256 else
    sampleBlock (UInt64.ofNat (256 + i)) []

lemma length_buriedCall : buriedCall.length = 2049 := by
  rw [buriedCall, length_map, length_range]

variable {i : Nat}

lemma buriedCall_header (h : i < buriedCall.length) :
    buriedCall[i].header = (sampleBlock (ofNat (256 + i)) []).header := by
  simp [buriedCall, getElem_map, getElem_range]
  split_ifs with hi
  · rw [hi]
    rfl
  · rfl

lemma buriedCall_number (h : i < buriedCall.length) :
    buriedCall[i].header.number.toNat = 256 + i := by
  rw [buriedCall_header]
  exact longChain_number (length_buriedCall ▸ h)

lemma isChain_buriedCall : IsChain .reference buriedCall where
  numbers := by
    rw [pairwise_iff_getElem]
    intro i j hi hj _
    rw [lt_iff_toNat_lt, buriedCall_number, buriedCall_number]
    omega
  collisionFree x hx y hy hhs := by
    obtain ⟨i, hi, rfl⟩ := getElem_of_mem hx
    obtain ⟨j, hj, rfl⟩ := getElem_of_mem hy
    rw [buriedCall_header, buriedCall_header] at hhs ⊢
    by_cases hij : i = j
    · rw [hij]
    · rw [length_buriedCall] at hi hj
      exact absurd hhs (longChain_distinct hi hj hij).1

def buryingRun : List HostOp := buriedCall.map HostOp.commit ++ [.setHead 2304]

lemma committed_buryingRun : committed buryingRun = buriedCall := by
  rw [buryingRun, committed_concat_setHead, committed, filterMap_map]
  exact filterMap_some

lemma query_buryingRun : (atBlock ['2', '5', '6']).query
      (hostRun .reference nonceLogger sampleSpec (.new .empty) buryingRun).head =
        ⟨256, 256, none, []⟩ := by
  rw [buryingRun, hostRun_concat]
  rfl

/-- A repeated call is reported with the second log; one 2048 blocks old is
not found. -/
theorem logs_misattributed_and_lost :
    givenAnswer [.commit (resendBlock 127), .commit (resendBlock 128), .setHead 128]
        (atBlock ['1', '2', '7']) ≠
      rightAnswer [.commit (resendBlock 127), .commit (resendBlock 128), .setHead 128]
        (atBlock ['1', '2', '7']) ∧ givenAnswer buryingRun (atBlock ['2', '5', '6']) = [] ∧
    rightAnswer buryingRun (atBlock ['2', '5', '6']) ≠ [] := by
  refine ⟨by decide +kernel, ?_, ?_⟩
  · -- the block has left the index
    have hix : Indexed .reference
        (hostRun .reference nonceLogger sampleSpec (.new .empty) buryingRun).blocks
          buriedCall := by
      have hchain := committed_buryingRun.symm ▸ isChain_buriedCall
      exact committed_buryingRun ▸ indexed_hostRun hchain
    have ha : ∀ x ∈ newest buriedCall, x.header.number ≠ 256 := by
      intro x hx heq
      obtain ⟨k, hk, rfl⟩ := mem_drop_iff_getElem.mp hx
      rw [length_buriedCall] at hk
      have hnm := congrArg toNat heq
      rw [buriedCall_number, length_buriedCall] at hnm
      have hcp : MAX_BLOCKS_IN_MEMORY = 2048 := rfl
      have h2 : (256 : UInt64).toNat = 256 := rfl
      omega
    rw [givenAnswer, logsInRange, query_buryingRun, entriesInRange]
    have hr : range' (256 : UInt64).toNat ((256 : UInt64).toNat + 1 - (256 : UInt64).toNat)
        = [256] := by decide
    rw [hr, flatMap_singleton, map_eq_nil_iff]
    exact entriesAt_of_absent hix ha
  · -- but its call was logged
    have hft : (execution .reference nonceLogger sampleSpec (.new .empty)
        (.commit (resendBlock 256))).flatMap (fun e =>
          if covers ⟨256, 256, none, []⟩ e.block.header.number then
            e.emitted .reference ⟨256, 256, none, []⟩ else []) ≠ [] := by
      decide +kernel
    obtain ⟨_, hc⟩ : ∃ rest, buryingRun = .commit (resendBlock 256) :: rest := by
      rw [buryingRun, buriedCall, range_succ_eq_map, map_cons, if_pos rfl, map_cons, cons_append]
      exact ⟨_, rfl⟩
    rw [rightAnswer, query_buryingRun, hc, executions, answer, flatMap_append, map_append]
    intro hn
    rw [append_eq_nil_iff, map_eq_nil_iff] at hn
    exact hft hn.1

end Aii.Node
