/-
Aii.Bft.BlockSync — a cached block can be served to a peer.

The cache has the 64 highest heights ever cached, and what it serves is
adopted by a peer with the set of that moment.
-/
import Aii.Bft.Inbound
import Aii.Chain.BlockCodec
import Aii.Common.Highest

namespace Aii.Bft

open Common Common.Rlp Chain List UInt64 BftGossip BftMessage BftEngine

variable {c : Crypto}

/-! ## The heights in the cache -/

namespace BftEngine

variable {e e' : BftEngine} {recent : List (Block × PrecommitCertificate)} {ever : Finset Nat}
  {block : Block}

def heights (recent : List (Block × PrecommitCertificate)) : List Nat :=
  recent.map fun entry => entry.1.header.number.toNat

/-- The heights increase, and are the highest of `ever`. -/
structure Window (recent : List (Block × PrecommitCertificate)) (ever : Finset Nat) : Prop where
  sorted : (heights recent).Pairwise (· < ·)
  highest : (heights recent).toFinset = highest RECENT_BLOCKS_CAP ever

lemma mem_heights_insertRecent {new : Block × PrecommitCertificate} {n : Nat} :
    n ∈ heights (insertRecent new recent) ↔ n = new.1.header.number.toNat ∨ n ∈ heights recent := by
  induction recent with
  | nil => simp [heights, insertRecent]
  | cons _ _ ih =>
    unfold insertRecent
    simp only [heights] at ih ⊢
    split_ifs with hlt heq
    · simp
    · simp [heq]
    · simp [ih]
      exact or_left_comm

lemma heights_insertRecent_sorted (new : Block × PrecommitCertificate)
    (h : (heights recent).Pairwise (· < ·)) :
    (heights (insertRecent new recent)).Pairwise (· < ·) := by
  induction recent with
  | nil => simp [heights, insertRecent]
  | cons x _ ih =>
    obtain ⟨hx, hxs⟩ := pairwise_cons.mp h
    unfold insertRecent
    split_ifs with hlt heq
    · refine pairwise_cons.mpr ⟨fun n hn => ?_, h⟩
      have hnw := UInt64.lt_iff_toNat_lt.mp hlt
      rcases mem_cons.mp hn with rfl | hn
      · exact hnw
      · exact hnw.trans (hx n hn)
    · refine pairwise_cons.mpr ⟨fun n hn => ?_, hxs⟩
      change new.1.header.number.toNat < n
      rw [heq]
      exact hx n hn
    · refine pairwise_cons.mpr ⟨fun n hn => ?_, ih hxs⟩
      rcases mem_heights_insertRecent.mp hn with rfl | hn
      · have hne : x.1.header.number.toNat ≠ new.1.header.number.toNat :=
          fun hnm => heq (UInt64.toNat_inj.mp hnm.symm)
        have hle := Nat.not_lt.mp (mt UInt64.lt_iff_toNat_lt.mpr hlt)
        exact Nat.lt_of_le_of_ne hle hne
      · exact hx n hn

lemma Window.cacheRecentBlock (h : Window recent ever) (block : Block)
    (cert : PrecommitCertificate) :
    Window (cacheRecentBlock recent block cert) (insert block.header.number.toNat ever) := by
  have hsd := heights_insertRecent_sorted (block, cert) h.sorted
  have hdp : heights (BftEngine.cacheRecentBlock recent block cert) =
      (heights (insertRecent (block, cert) recent)).drop
        ((heights (insertRecent (block, cert) recent)).length - RECENT_BLOCKS_CAP) := by
    simp [heights, BftEngine.cacheRecentBlock, map_drop]
  have hi : (heights (insertRecent (block, cert) recent)).toFinset =
      insert block.header.number.toNat (heights recent).toFinset := by
    ext n
    simp [mem_toFinset, Finset.mem_insert, mem_heights_insertRecent]
  refine ⟨?_, ?_⟩
  · grind
  · rw [hdp, toFinset_drop hsd, hi, h.highest, highest_insert_highest]

lemma Window.cacheAll (h : Window recent ever) (entries : List (Block × PrecommitCertificate)) :
    Window (cacheAll recent entries) (ever ∪ (heights entries).toFinset) := by
  induction entries generalizing recent ever with
  | nil => simpa [heights, cacheAll] using h
  | cons new entries ih =>
    have hw := ih (h.cacheRecentBlock new.1 new.2)
    have hs : ever ∪ (heights (new :: entries)).toFinset =
        insert new.1.header.number.toNat ever ∪ (heights entries).toFinset := by
      simp [heights, map_cons, toFinset_cons, Finset.union_insert, Finset.insert_union]
    rw [hs]
    exact hw

lemma Window.nil : Window [] ∅ := ⟨List.Pairwise.nil, by simp [heights, Common.highest]⟩

lemma committedBlockAt_isSome_iff (e : BftEngine) (height : UInt64) :
    (e.committedBlockAt height).isSome ↔ height.toNat ∈ heights e.recentBlocks := by
  unfold committedBlockAt heights
  rw [List.find?_isSome, mem_map]
  simp [beq_iff_eq, UInt64.toNat_inj]

/-! ## The blocks an engine stores are canonical -/

/-- The block in flight and the cached blocks are canonical. -/
structure Stored (e : BftEngine) : Prop where
  proposal : ∀ block proof, e.proposal = some (block, proof) → block.Canonical
  recent : ∀ entry ∈ e.recentBlocks, entry.1.Canonical

lemma Stored.of_same (h : e.Stored) (hpp : e'.proposal = e.proposal)
    (hr : e'.recentBlocks = e.recentBlocks) : e'.Stored :=
  ⟨fun block proof hp => h.proposal block proof (hpp.symm.trans hp), by
    rw [hr]
    exact h.recent⟩

lemma Stored.fresh (config : BftConfig) (head : Block) (seed : Arr 32) :
    (fresh c config head seed).Stored := ⟨by simp [BftEngine.fresh], by simp [BftEngine.fresh]⟩

lemma Stored.advanceHead (h : e.Stored) (hbl : block.Canonical) (cert : PrecommitCertificate)
    (seed : Arr 32) : (e.advanceHead c block cert seed).Stored := by
  refine ⟨by simp [BftEngine.advanceHead], fun entry hm => ?_⟩
  rcases mem_cacheRecentBlock hm with rfl | hm
  · exact hbl
  · exact h.recent entry hm

lemma Stored.adopt (h : e.Stored) {cert : PrecommitCertificate} (hbl : block.Canonical)
    (hok : e.adoptSyncedBlock c block cert = .ok e') : e'.Stored := by
  obtain rfl := adoptSyncedBlock_eq hok
  exact (h.advanceHead (c := c) hbl cert block.header.mixHash).of_same rfl rfl

lemma buildBlockWithBody_canonical {body : BlockBody} (ho : ∀ o ∈ body.ommers, o.Canonical)
    (ex : Option Executor) (config : BftConfig) (parentHash : H256)
    (parentTimestamp height : UInt64) (proof : LeaderProof) (coinbase : Address) :
    (buildBlockWithBody c ex config parentHash parentTimestamp height proof coinbase
      body).Canonical :=
  ⟨⟨by change (ascii _).length ≤ 32; decide, by simp [buildBlockWithBody],
    by simp [buildBlockWithBody]⟩, ho⟩

end BftEngine

namespace BftGossip

open BftEngine

variable {g₀ g g' : BftGossip} {m : Micro}

lemma decodeBlockBody_canonical {bytes : Bytes} {body : BlockBody}
    (h : decodeBlockBody bytes = .ok body) : ∀ o ∈ body.ommers, o.Canonical := by
  unfold decodeBlockBody at h
  split at h
  · cases h
  next body' rest hd =>
    cases h
    exact BlockBody.decode_canonical _ _ _ hd

lemma Act.stored (h : g.engine.Stored) (ha : Act c g₀ m g g') : g'.engine.Stored := by
  cases ha with
  | accept _ _ _ _ _ _ _ _ _ _ hbu _ _ hd =>
    refine ⟨fun b proof hp => ?_, h.recent⟩
    cases hp
    rw [hbu]
    exact buildBlockWithBody_canonical (decodeBlockBody_canonical hd) ..
  | propose _ _ _ _ _ proof _ hbu _ _ hdd =>
    refine ⟨fun b proof hp => ?_, h.recent⟩
    cases hp
    obtain ⟨_, hby⟩ := hdd
    rw [hbu]
    exact buildBlockWithBody_canonical (by simp [hby]) ..
  | timeout => exact ⟨by simp, h.recent⟩
  | harvest _ _ block proof cert _ _ _ _ hpp =>
    exact h.advanceHead (h.proposal block proof hpp) cert _
  | adopt _ _ _ _ _ _ _ _ hok _ hd =>
    exact h.adopt (Block.decode_canonical _ _ _ hd) hok
  | buffer _ p => cases p <;> exact h.of_same rfl rfl
  | _ => exact h.of_same rfl rfl

lemma Acts.stored (h : g.engine.Stored) (ha : Acts c g₀ m g g') : g'.engine.Stored := by
  induction ha with
  | refl => exact h
  | tail _ hac ih => exact Act.stored ih hac

end BftGossip

namespace BftEngine

def Call.Canonical : Call → Prop
  | .submitRemoteProposal block _ | .adoptSyncedBlock block _ => block.Canonical
  | _ => True

variable {e : BftEngine} {x : Call}

lemma Outcome.stored {e' : BftEngine} (ho : Outcome c e x e') (h : e.Stored) (hx : x.Canonical)
    (hpr : ∀ ex, x ≠ .castProposal ex) : e'.Stored := by
  cases ho with
  | accepted =>
    refine ⟨fun b proof' hp => ?_, by simpa using h.recent⟩
    rw [drainPendingVotes_proposal] at hp
    cases hp
    exact hx
  | proposed ex => exact absurd rfl (hpr ex)
  | timedOut => exact ⟨by simp, by simpa using h.recent⟩
  | harvested _ _ proof cert _ _ _ hpp =>
    exact h.advanceHead (h.proposal _ proof hpp) cert _
  | adopted _ _ _ hok => exact h.adopt hx hok
  | _ =>
    exact h.of_same (by simp [recordRemote, drainEvidence]) (by simp [recordRemote, drainEvidence])

lemma Stored.after (h : e.Stored) (hx : x.Canonical) : (e.after c x).Stored := by
  cases x with
  | castProposal ex =>
    have ha : BftGossip.Acts c (.new e) (.drive ex) (.new e) _ := castProposal_acts ⟨ex, rfl⟩
    exact BftGossip.Acts.stored h ha
  | _ => exact (after_outcome c e _).stored h hx (by simp)

end BftEngine

/-! ## Operations -/

namespace BftGossip

open BftEngine

variable {g₀ g g' : BftGossip} {m : Micro} {cert : PrecommitCertificate} {ops : List Operation}
  {block : Block}

/-- What one micro-step has committed since `g₀` it has cached. -/
structure CommitsCached (g₀ g : BftGossip) : Prop where
  entries : ∃ entries : List (Block × PrecommitCertificate),
    g.harvested = g₀.harvested ++ entries.map Prod.fst ∧
      g.engine.recentBlocks = cacheAll g₀.engine.recentBlocks entries

lemma CommitsCached.commit (h : CommitsCached g₀ g) (block : Block) (cert : PrecommitCertificate)
    (hh : g'.harvested = g.harvested ++ [block])
    (hr : g'.engine.recentBlocks = cacheRecentBlock g.engine.recentBlocks block cert) :
    CommitsCached g₀ g' := by
  obtain ⟨entries, hn, hc⟩ := h.entries
  refine ⟨entries ++ [(block, cert)], ?_, ?_⟩
  · grind
  · rw [hr, hc, cacheAll, cacheAll, foldl_append]
    rfl

lemma CommitsCached.act (h : CommitsCached g₀ g) (ha : Act c g₀ m g g') :
    CommitsCached g₀ g' := by
  cases ha with
  | harvest _ _ block _ cert => exact h.commit block cert rfl rfl
  | adopt _ _ block cert _ _ _ _ hok =>
    obtain rfl := adoptSyncedBlock_eq hok
    exact h.commit block cert rfl rfl
  | buffer _ p => cases p <;> exact ⟨h.entries⟩
  | _ => exact ⟨h.entries⟩

lemma microStep_commitsCached (g : BftGossip) (m : Micro) :
    CommitsCached g (g.microStep c m) :=
  microStep_keeps (P := CommitsCached g) ⟨[], by simp, rfl⟩ fun _ _ ih hac => ih.act hac

def cachedBy (c : Crypto) (g : BftGossip) : Operation → List Block
  | .call x => (g.engine.cachedBy c x).map Prod.fst
  | .advanceSingle ex =>
    match (g.engine.advanceSingle c ex).2 with
    | .ok (block, _) => [block]
    | .error _ => []
  | .micro m => g.committedBy c m
  | .init _ | .setPendingTxs _ => []

lemma operate_recentBlocks (g : BftGossip) (op : Operation) :
    ∃ entries : List (Block × PrecommitCertificate), entries.map Prod.fst = g.cachedBy c op ∧
      (g.operate c op).engine.recentBlocks = cacheAll g.engine.recentBlocks entries := by
  cases op with
  | call x => exact ⟨g.engine.cachedBy c x, rfl, after_recentBlocks x⟩
  | advanceSingle =>
    simp only [cachedBy, operate, advanceSingle]
    split_ifs
    · exact ⟨[], rfl, rfl⟩
    · exact ⟨[], rfl, rfl⟩
    · cases hvt : voteAlone c _ _ _ _ with
      | error =>
        simp only
        exact ⟨[], rfl, rfl⟩
      | ok cert =>
        simp only
        exact ⟨[(_, cert)], rfl, rfl⟩
  | init | setPendingTxs => exact ⟨[], rfl, rfl⟩
  | micro m =>
    obtain ⟨entries, hn, hc⟩ := (microStep_commitsCached g m).entries
    refine ⟨entries, ?_, hc⟩
    rw [cachedBy, committedBy, hn, drop_left]

def cachedHeights (c : Crypto) (g : BftGossip) : List Operation → Finset Nat
  | [] => ∅
  | op :: ops =>
    ((g.cachedBy c op).map fun block => block.header.number.toNat).toFinset ∪
      cachedHeights c (g.operate c op) ops

lemma Window.runOperations {ever : Finset Nat} (h : Window g.engine.recentBlocks ever)
    (ops : List Operation) :
    Window (g.runOperations c ops).engine.recentBlocks (ever ∪ g.cachedHeights c ops) := by
  induction ops generalizing g ever with
  | nil => simpa [cachedHeights, runOperations] using h
  | cons op _ ih =>
    obtain ⟨entries, hbc, hc⟩ := operate_recentBlocks g op
    have hsp := h.cacheAll entries
    rw [← hc, heights] at hsp
    have hr := ih hsp
    have hht : (entries.map fun entry => entry.1.header.number.toNat) =
        (g.cachedBy c op).map fun block => block.header.number.toNat := by
      rw [← hbc, map_map]
      rfl
    rw [hht, Finset.union_assoc] at hr
    exact hr

/-- The block an operation brings along, if any, is canonical. What a
driver decodes is canonical anyway. -/
def Operation.Canonical : Operation → Prop
  | .call x => x.Canonical
  | _ => True

lemma stored_operate (h : g.engine.Stored) {op : Operation} (hop : op.Canonical) :
    (g.operate c op).engine.Stored := by
  cases op with
  | call => exact h.after hop
  | advanceSingle ex =>
    change (g.engine.advanceSingle c ex).1.Stored
    unfold advanceSingle
    split_ifs
    · exact h
    · exact h
    · dsimp only
      split
      · exact h.of_same rfl rfl
      · refine ⟨h.proposal, fun entry hm => ?_⟩
        rcases mem_cacheRecentBlock hm with rfl | hm
        · exact buildBlockWithBody_canonical (by simp [drainPendingTxsIntoBody]) ..
        · exact h.recent entry hm
  | init | setPendingTxs => exact h.of_same rfl rfl
  | micro m => exact Acts.stored h (microStep_acts c g m)

lemma stored_runOperations (h : g.engine.Stored) (ho : ∀ op ∈ ops, op.Canonical) :
    (g.runOperations c ops).engine.Stored := by
  induction ops generalizing g with
  | nil => exact h
  | cons _ _ ih =>
    obtain ⟨hop, hrs⟩ := forall_mem_cons.mp ho
    exact ih (stored_operate h hop) hrs

/-! ## Serving and adopting -/

/-- The head is `block`, and the host was handed it. -/
structure Adopted (c : Crypto) (peer : BftGossip) (block : Block) (peer' : BftGossip) : Prop where
  headHash : peer'.engine.headHash = block.hash c
  headNumber : peer'.engine.headNumber = block.header.number
  headTimestamp : peer'.engine.headTimestamp = block.header.timestamp
  harvested : peer'.harvested = peer.harvested ++ [block]

def VerifiedParses (c : Crypto) : Prop :=
  ∀ sig msg pks, c.fastAggregateVerify sig msg pks = true → c.blsSignatureOk sig = true

lemma verifiedParses_reference : VerifiedParses .reference := by
  intro sig msg pks hverified
  obtain ⟨-, heq⟩ := Bool.and_eq_true_iff.mp hverified
  simp [Crypto.reference, beq_iff_eq.mp heq, referenceSigMsg_sig, flagged]

lemma parsed_of_verify (hp : VerifiedParses c) {vs : ValidatorSet}
    (h : PrecommitCertificate.verify c cert vs = .ok ()) :
    c.blsSignatureOk cert.aggregatedSig = true := by
  unfold PrecommitCertificate.verify QuorumCertificate.verify at h
  dsimp only at h
  split_ifs at h with _ _ hvy
  exact hp _ _ _ hvy

lemma recv_blockRequest {height : UInt64}
    (h : g.engine.committedBlockAt height = some (block, cert)) (ex : Option Executor) :
    (g.recv c ex (blockRequest height).encode).outbox =
      g.outbox ++ [.blockResponse block.encode cert] := by
  have hd : decode c (blockRequest height).encode =
      .ok (.blockRequest height) := decode_encode trivial trivial
  simp [recv, hd, dispatchInbound, h]
  exact (harvestLoop_sent 2 _).2

/-- **A peer right before the block adopts it** if its set verifies the
certificate. -/
lemma recv_blockResponse (hp : VerifiedParses c) {peer : BftGossip} (hc : block.Canonical)
    (hl : block.encode.length ≤ MAX_BLOCK_RESPONSE_LEN)
    (hpv : Proves c peer.engine.validatorSet (block, cert))
    (hhg : cert.height = block.header.number)
    (hnm : peer.engine.headNumber.toNat + 1 = block.header.number.toNat)
    (hpt : peer.engine.headHash = block.header.parentHash) (ex : Option Executor) :
    Adopted c peer block (peer.recv c ex (blockResponse block.encode cert).encode) := by
  have hd := decode_encode (m := .blockResponse block.encode cert) hl
    (parsed_of_verify hp hpv.2)
  have hbl := Block.decode_encode hc
    (Nat.lt_of_le_of_lt hl (show MAX_BLOCK_RESPONSE_LEN < 2 ^ 64 by decide)) []
  rw [append_nil] at hbl
  have hnx : block.header.number = peer.engine.headNumber + 1 := by
    apply UInt64.toNat_inj.mp
    rw [UInt64.toNat_add, ← hnm, UInt64.toNat_one]
    have hlt := block.header.number.toNat_lt
    omega
  have hb : cert.blockHash = block.hash c := hpv.1
  have had : peer.engine.adoptSyncedBlock c block cert =
      .ok { peer.engine.advanceHead c block cert block.header.mixHash with
        pendingPrevotes := [], pendingPrecommits := [] } := by
    rw [adoptSyncedBlock, if_neg (by simp [hnx, hhg]), if_neg (by simp [hpt, hb]), hpv.2]
  simp [recv, hd, dispatchInbound, handleBlockResponse, hbl, had, autoHarvest,
    isEmpty_nil, Bool.not_true, Bool.false_eq_true, ↓reduceIte]
  -- the adopted block leaves no coordinator, so there is nothing to harvest
  rw [harvestLoop_idle rfl]
  exact ⟨rfl, rfl, rfl, rfl⟩

/-- The entry entered the cache while `vs` was the active set. -/
def Entered (c : Crypto) (g₀ : BftGossip) (ops : List Operation)
    (entry : Block × PrecommitCertificate) (vs : ValidatorSet) : Prop :=
  ∃ pre op post, ops = pre ++ op :: post ∧ entry ∉ (g₀.runOperations c pre).engine.recentBlocks ∧
    entry ∈ (g₀.runOperations c (pre ++ [op])).engine.recentBlocks ∧
    vs = (g₀.runOperations c pre).engine.validatorSet

lemma exists_entered {entry : Block × PrecommitCertificate} (hn : entry ∉ g₀.engine.recentBlocks)
    (h : entry ∈ (g₀.runOperations c ops).engine.recentBlocks) :
    ∃ vs, Entered c g₀ ops entry vs := by
  induction ops using reverseRecOn with
  | nil => exact absurd h hn
  | append_singleton ops op ih =>
    by_cases ho : entry ∈ (g₀.runOperations c ops).engine.recentBlocks
    · obtain ⟨vs, pre, op', post, rfl, he⟩ := ih ho
      exact ⟨vs, pre, op', post ++ [op], by simp, he⟩
    · exact ⟨_, ops, op, [], rfl, ho, h, rfl⟩

/-- A cached block is served, and adopted by every peer right before it with
the set of that moment. -/
theorem block_sync_round_trip (hagg : AggregateComplete c) (hparse : VerifiedParses c)
    (config : BftConfig) (head : Block) (seed : Arr 32) {g₀ : BftGossip}
    (hg₀ : g₀ = .new (.fresh c config head seed)) (ops : List Operation)
    (hops : ∀ op ∈ ops, op.Canonical) {g : BftGossip} (hg : g = g₀.runOperations c ops) :
    (∀ height block cert, g.engine.committedBlockAt height = some (block, cert) →
      cert.height = block.header.number → block.encode.length ≤ MAX_BLOCK_RESPONSE_LEN →
      (∀ ex, (g.recv c ex (BftMessage.blockRequest height).encode).outbox =
        g.outbox ++ [.blockResponse block.encode cert]) ∧
      (∃ vs, Entered c g₀ ops (block, cert) vs) ∧
      ∀ vs, Entered c g₀ ops (block, cert) vs → ∀ (peer : BftGossip) (ex : Option Executor),
        peer.engine.headNumber.toNat + 1 = block.header.number.toNat →
        peer.engine.headHash = block.header.parentHash → peer.engine.validatorSet = vs →
        Adopted c peer block (peer.recv c ex (BftMessage.blockResponse block.encode cert).encode)) ∧
    ∀ height : UInt64, (g.engine.committedBlockAt height).isSome ↔
      height.toNat ∈ highest RECENT_BLOCKS_CAP (g₀.cachedHeights c ops) := by
  subst hg₀ hg
  refine ⟨fun height block cert hat hhg hl => ?_, fun height => ?_⟩
  · have hm := mem_of_find?_eq_some hat
    refine ⟨recv_blockRequest hat, exists_entered (by simp [new, fresh]) hm, ?_⟩
    rintro vs ⟨pre, op, _, -, hn, hin, rfl⟩ _ ex hnm hpt hs
    have hst := stored_runOperations (c := c)
      (show (new (.fresh c config head seed)).engine.Stored from
        .fresh config head seed) hops
    have hse := sealed_runOperations hagg config head seed pre
    rw [runOperations_concat] at hin
    have hpv := (mem_recentBlocks_operate hagg hse hin).resolve_left hn
    rw [← hs] at hpv
    exact recv_blockResponse hparse (hst.recent _ hm) hl hpv hhg hnm hpt ex
  · have hw := Window.runOperations (c := c)
      (show Window (new (.fresh c config head seed)).engine.recentBlocks ∅ from .nil) ops
    rw [committedBlockAt_isSome_iff, ← mem_toFinset, hw.highest, Finset.empty_union]

def finalEntry : Option (Block × PrecommitCertificate) :=
  finalFollower.engine.committedBlockAt 8

theorem block_sync_round_trip_follower : ∃ block cert, finalEntry = some (block, cert) ∧
    Adopted .reference (.new (memberEngine 1)) block
      ((BftGossip.new (memberEngine 1)).recv .reference none
        (BftMessage.blockResponse block.encode cert).encode) := by
  have hfi : ∀ entry ∈ finalEntry, entry.2.height = entry.1.header.number ∧
      entry.1.encode.length ≤ MAX_BLOCK_RESPONSE_LEN ∧
      (memberEngine 1).headNumber.toNat + 1 = entry.1.header.number.toNat ∧
      (memberEngine 1).headHash = entry.1.header.parentHash := by decide +kernel
  have hs : ∀ pre ∈ finalRun.inits, ((new (memberEngine 0)).runOperations
      .reference pre).engine.validatorSet = (memberEngine 1).validatorSet := by
    decide +kernel
  have ho : ∀ op ∈ finalRun, op.Canonical := by
    have hbl : leaderProposal.1.Canonical := by decide +kernel
    simpa [finalRun, Operation.Canonical, Call.Canonical] using hbl
  obtain ⟨⟨block, cert⟩, hen⟩ := Option.isSome_iff_exists.mp
    (show finalEntry.isSome = true by decide +kernel)
  obtain ⟨hhg, hl, hnm, hpt⟩ := hfi _ hen
  obtain ⟨-, ⟨vs, he⟩, had⟩ := (block_sync_round_trip Crypto.reference_aggregateComplete
    verifiedParses_reference (referenceConfig followerSet 0 5) (referenceHead followerConfig 7)
    (referenceConfig followerSet 0 5).initialSeed rfl finalRun ho rfl).1 8 block cert hen
    hhg hl
  refine ⟨block, cert, hen, had vs he _ none hnm hpt ?_⟩
  obtain ⟨pre, op, post, hsi, -, -, rfl⟩ := he
  exact (hs pre ((mem_inits pre finalRun).mpr ⟨op :: post, hsi.symm⟩)).symm

def rotatedFollower : BftGossip :=
  finalFollower.operate .reference (.call (.rotateValidatorSet swappedSet 1))

def rotatedPeer : BftGossip :=
  .new (.fresh .reference (referenceConfig swappedSet 1 5) (referenceHead followerConfig 7)
    (referenceConfig swappedSet 1 5).initialSeed)

/-- Its certificate is for the positions of the old set, so the peer
refuses the block. -/
theorem rotated_block_refused :
    rotatedFollower.engine.validatorSet = rotatedPeer.engine.validatorSet ∧
      ∃ block cert, rotatedFollower.engine.committedBlockAt 8 = some (block, cert) ∧
        cert.height = block.header.number ∧ block.encode.length ≤ MAX_BLOCK_RESPONSE_LEN ∧
        rotatedPeer.engine.headNumber.toNat + 1 = block.header.number.toNat ∧
        rotatedPeer.engine.headHash = block.header.parentHash ∧
        ¬ Adopted .reference rotatedPeer block (rotatedPeer.recv .reference none
            (BftMessage.blockResponse block.encode cert).encode) := by
  have hrf : ∀ entry ∈ rotatedFollower.engine.committedBlockAt 8,
      entry.2.height = entry.1.header.number ∧
      entry.1.encode.length ≤ MAX_BLOCK_RESPONSE_LEN ∧
      rotatedPeer.engine.headNumber.toNat + 1 = entry.1.header.number.toNat ∧
      rotatedPeer.engine.headHash = entry.1.header.parentHash ∧
      (rotatedPeer.recv .reference none
        (blockResponse entry.1.encode entry.2).encode).harvested = [] := by
    decide +kernel
  obtain ⟨⟨block, cert⟩, hen⟩ := Option.isSome_iff_exists.mp
    (show (rotatedFollower.engine.committedBlockAt 8).isSome = true by decide +kernel)
  obtain ⟨hhg, hl, hnm, hpt, hem⟩ := hrf _ hen
  refine ⟨by decide +kernel, block, cert, hen, hhg, hl, hnm, hpt, fun had => ?_⟩
  have hh := had.harvested
  rw [hem] at hh
  exact absurd hh (by simp)

end BftGossip

end Aii.Bft
