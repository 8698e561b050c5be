/-
Aii.Bft.Acts — what a driver can do, one change at a time.

A micro-step of the driver is a sequence of ACTS: single changes, each
with what the code has checked.
-/
import Aii.Bft.Gossip
import Mathlib.Logic.Relation

namespace Aii.Bft

open Common Chain List List.Subset UInt64 Option Except RoundCoordinator BftMessage

/-- The message that carries a vote of phase `p`. -/
def BftMessage.ofVote : VotePhase → Vote → BftMessage
  | .prevote, v => .prevote v
  | .precommit, v => .precommit v

def BftMessage.vote? : BftMessage → Option (VotePhase × Vote)
  | .prevote v => some (.prevote, v)
  | .precommit v => some (.precommit, v)
  | _ => none

@[simp] lemma BftMessage.vote?_ofVote (p : VotePhase) (v : Vote) :
    (ofVote p v).vote? = some (p, v) := by
  cases p <;> rfl

namespace BftGossip

def Micro.message (c : Crypto) : Micro → Option BftMessage
  | .recv _ bytes => (BftMessage.decode c bytes).toOption
  | _ => none

def Micro.oracle : Micro → Option Executor
  | .recv ex _ | .drive ex => ex
  | _ => none

def RoundFlags.Kept (f : RoundFlags) (msg : BftMessage) : Prop :=
  f.lastProposal = some msg ∨ f.lastPrevote = some msg ∨ f.lastPrecommit = some msg

/-- A slot keeps the new message or its own. -/
lemma kept_of_set {f f' : RoundFlags} {m msg : BftMessage} (h : RoundFlags.Kept f' msg)
    (hs : ∀ slot ∈ [RoundFlags.lastProposal, RoundFlags.lastPrevote, RoundFlags.lastPrecommit],
      slot f' = some m ∨ slot f' = slot f) : msg = m ∨ RoundFlags.Kept f msg := by
  simp only [forall_mem_cons] at hs
  unfold RoundFlags.Kept at h ⊢
  grind

/-- Nothing has been committed since `g₀`: the head and what blocks are
built from are the same. -/
structure SameHead (g₀ g : BftGossip) : Prop where
  headHash : g.engine.headHash = g₀.engine.headHash
  headNumber : g.engine.headNumber = g₀.engine.headNumber
  headTimestamp : g.engine.headTimestamp = g₀.engine.headTimestamp
  config : g.engine.config = g₀.engine.config
  harvested : g.harvested = g₀.harvested

/-- The next height exists as a `u64`. -/
def HeadRoom (e : BftEngine) : Prop := e.headNumber.toNat + 1 < 2 ^ 64
deriving Decidable

/-- A proposal for a height that is not above the head passes every check
of the driver: its body decodes, the block rebuilt from it has the stated
hash, the round is still waiting for a proposal and the leader proof
verifies for the height and round of the COORDINATOR. -/
structure StaleAccepted (c : Crypto) (ex : Option Executor) (e : BftEngine) (p : Proposal) :
    Prop where
  height_le : p.height ≤ e.headNumber
  hash_eq : ∃ body, decodeBlockBody p.bodyBytes = .ok body ∧
    (e.reconstruct c ex p.height p.leaderProof p.coinbase body).hash c = p.blockHash
  awaiting : ∃ co, e.ensureCoordinator.coordinator = some co ∧ co.phase = .awaitingProposal ∧
    co.verifyLeader c p.leaderProof = .ok ()

instance (c : Crypto) (ex : Option Executor) (e : BftEngine) (p : Proposal) :
    Decidable (StaleAccepted c ex e p) :=
  decidable_of_iff (p.height ≤ e.headNumber ∧ (∃ body ∈ (decodeBlockBody p.bodyBytes).toOption,
      (e.reconstruct c ex p.height p.leaderProof p.coinbase body).hash c = p.blockHash) ∧
    ∃ co ∈ e.ensureCoordinator.coordinator, co.phase = .awaitingProposal ∧
      co.verifyLeader c p.leaderProof = .ok ()) <| by
    have hdecoded : ∀ body, body ∈ (decodeBlockBody p.bodyBytes).toOption ↔
        decodeBlockBody p.bodyBytes = .ok body := by
      intro body
      cases decodeBlockBody p.bodyBytes <;> simp [Except.toOption]
    simp [hdecoded, Option.mem_def]
    exact ⟨fun h => ⟨h.1, h.2.1, h.2.2⟩, fun ⟨hle, hhash, hco⟩ => ⟨hle, hhash, hco⟩⟩

/-- The acts of micro-step `m` begun in `g₀`. -/
inductive Act (c : Crypto) (g₀ : BftGossip) (m : Micro) : BftGossip → BftGossip → Prop
  /-- Block-sync requests and answers. -/
  | sync (g : BftGossip) (requested : List UInt64) (msgs : List BftMessage)
      (novote : ∀ msg ∈ msgs, msg.vote? = none)
      (noproposal : ∀ msg ∈ msgs, ∀ p, msg ≠ .proposal p) :
      Act c g₀ m g { g with
        flags := { g.flags with requestedBlocks := requested }, outbox := g.outbox ++ msgs }
  /-- A kept message is broadcast again. -/
  | resend (g : BftGossip) (msg : BftMessage) (kept : RoundFlags.Kept g.flags msg) :
      Act c g₀ m g (g.broadcast msg)
  /-- Transactions are staged or taken into a body. -/
  | stage (g : BftGossip) (txs : List Tx) :
      Act c g₀ m g { g with engine := { g.engine with pendingTxs := txs } }
  /-- An inbound vote is shown to the equivocation detector. -/
  | record (g : BftGossip) (p : VotePhase) (v : Vote)
      (msg : m.message c = some (.ofVote p v))
      (height_le : v.height ≤ satAdd64 g₀.engine.headNumber 1) (first : g = g₀) :
      Act c g₀ m g { g with engine := g.engine.recordRemote p v }
  /-- A coordinator for the next height is created. -/
  | ensure (g : BftGossip) (idle : g.engine.coordinator = none) (same : SameHead g₀ g) :
      Act c g₀ m g { g with engine := { g.engine with
        coordinator := some
          (.new (g.engine.headNumber + 1) g.engine.seed g.engine.validatorSet) } }
  /-- An inbound proposal of a later round replaces the coordinator. -/
  | jump (p : Proposal) (msg : m.message c = some (.proposal p))
      (later : shouldFastForward g₀.engine p.height p.round = true)
      (height_eq : ∀ co, g₀.engine.coordinator = some co → co.height = g₀.engine.headNumber + 1) :
      Act c g₀ m g₀ { g₀ with engine := { g₀.engine with
        coordinator := some (RoundCoordinator.fireTimeouts p.round.toNat
          (.new (g₀.engine.headNumber + 1) g₀.engine.seed g₀.engine.validatorSet)) } }
  /-- An inbound proposal is accepted. -/
  | accept (g : BftGossip) (p : Proposal) (body : BlockBody) (co co' : RoundCoordinator)
      (block : Block) (same : SameHead g₀ g) (msg : m.message c = some (.proposal p))
      (height_le : p.height ≤ satAdd64 g₀.engine.headNumber 1)
      (stale : HeadRoom g₀.engine → p.height ≤ g₀.engine.headNumber →
        StaleAccepted c m.oracle g₀.engine p)
      (built : block = g.engine.reconstruct c m.oracle p.height p.leaderProof p.coinbase body)
      (active : g.engine.coordinator = some co)
      (ok : co.submitProposal c (block.hash c) p.leaderProof = .ok co')
      (decoded : decodeBlockBody p.bodyBytes = .ok body) :
      Act c g₀ m g { g with engine := { g.engine with
        coordinator := some co', proposal := some (block, p.leaderProof) } }
  /-- The node's own proposal is accepted. -/
  | propose (g : BftGossip) (body : BlockBody) (co co' : RoundCoordinator) (block : Block)
      (proof : LeaderProof) (same : SameHead g₀ g)
      (built : block = g.engine.reconstruct c m.oracle co.height proof
        g.engine.config.coinbase body)
      (active : g.engine.coordinator = some co)
      (ok : co.submitProposal c (block.hash c) proof = .ok co')
      (drained : ∃ txs : List Tx, body = ⟨txs.take
        (g.engine.config.gasLimit / PLACEHOLDER_TX_GAS).toNat, [], []⟩)
      (driving : ∃ ex, m = .drive ex)
      (round : g₀.engine.ensureCoordinator.coordinator = some co)
      (leader : co.leaderIndex c = g₀.engine.myIndex.toNat) :
      Act c g₀ m g { g with engine := { g.engine with
        coordinator := some co', proposal := some (block, proof) } }
  /-- The node's own proposal is broadcast. -/
  | announce (g : BftGossip) (slot : UInt64 × UInt32) (p : Proposal)
      (named : slot = (p.height, p.round)) (flags : g.flags = g₀.flags)
      (outbox : g.outbox = g₀.outbox)
      (active : ∃ co, g.engine.coordinator = some co ∧ slot = (co.height, co.round))
      (fresh : g₀.engine.coordinator = none ∨ g₀.flags.proposed ≠ some slot)
      (same : SameHead g₀ g) :
      Act c g₀ m g ({ g with flags := { g.flags with
        proposed := some slot, lastProposal := some (.proposal p) } }.broadcast (.proposal p))
  /-- An inbound or buffered vote passes the tally. -/
  | vote (g : BftGossip) (p : VotePhase) (v : Vote) (co co' : RoundCoordinator)
      (source : m.message c = some (.ofVote p v) ∨ v ∈ g.engine.pending p)
      (active : g.engine.coordinator = some co)
      (ok : co.submitVote c p v = .ok co') :
      Act c g₀ m g { g with engine := { g.engine with coordinator := some co' } }
  /-- An inbound vote is buffered. -/
  | buffer (g : BftGossip) (p : VotePhase) (v : Vote)
      (msg : m.message c = some (.ofVote p v)) :
      Act c g₀ m g { g with engine := g.engine.setPending p (g.engine.pending p ++ [v]) }
  /-- Buffered votes are dropped. -/
  | prune (g : BftGossip) (prevotes precommits : List Vote)
      (hprev : prevotes ⊆ g.engine.pendingPrevotes)
      (hpc : precommits ⊆ g.engine.pendingPrecommits) :
      Act c g₀ m g { g with engine := { g.engine with
        pendingPrevotes := prevotes, pendingPrecommits := precommits } }
  /-- The node PRE-VOTEs for the proposal of the round. -/
  | castPrevote (co co' : RoundCoordinator) (block : H256) (v : Vote)
      (driving : ∃ ex, m = .drive ex)
      (active : g₀.engine.coordinator = some co) (phase : co.phase = .prevoting)
      (fresh : g₀.flags.prevoted ≠ some (co.height, co.round))
      (proposed : co.proposedBlock = some block)
      (signed : v = signVote c .prevote g₀.engine.config.myBlsSk block co.height co.round
        g₀.engine.myIndex)
      (ok : co.submitPrevote c v = .ok co') :
      Act c g₀ m g₀ ({ g₀ with
        engine := { g₀.engine with coordinator := some co' }
        flags := { g₀.flags with
          prevoted := some (co.height, co.round), lastPrevote := some (.prevote v) }
        }.broadcast (.prevote v))
  /-- The node PRE-COMMITs to the proposal of the round. -/
  | castPrecommit (co co' : RoundCoordinator) (block : H256) (v : Vote)
      (driving : ∃ ex, m = .drive ex)
      (active : g₀.engine.coordinator = some co) (phase : co.phase = .precommitting)
      (fresh : g₀.flags.precommitted ≠ some (co.height, co.round))
      (proposed : co.proposedBlock = some block)
      (signed : v = signVote c .precommit g₀.engine.config.myBlsSk block co.height co.round
        g₀.engine.myIndex)
      (ok : co.submitPrecommit c v = .ok co') :
      Act c g₀ m g₀ ({ g₀ with
        engine := { g₀.engine with coordinator := some co' }
        flags := { g₀.flags with
          precommitted := some (co.height, co.round), lastPrecommit := some (.precommit v) }
        }.broadcast (.precommit v))
  /-- A timeout starts the next round. -/
  | timeout (g : BftGossip) (co : RoundCoordinator) (active : g.engine.coordinator = some co)
      (micro : m = .timeout) (first : g.engine = g₀.engine.ensureCoordinator) :
      Act c g₀ m g { g with engine := { g.engine with
        coordinator := some co.fireTimeout, proposal := none } }
  /-- A committed block is harvested. -/
  | harvest (g : BftGossip) (co : RoundCoordinator) (block : Block) (proof : LeaderProof)
      (cert : PrecommitCertificate) (same : SameHead g₀ g)
      (active : g.engine.coordinator = some co) (phase : co.phase = .committed)
      (final : co.finalCert = some cert) (proposal : g.engine.proposal = some (block, proof)) :
      Act c g₀ m g { g with
        engine := g.engine.advanceHead c block cert proof.vrfOutput
        harvested := g.harvested ++ [block] }
  /-- A block served by a peer is adopted. -/
  | adopt (g : BftGossip) (bytes : Bytes) (block : Block) (cert : PrecommitCertificate)
      (e' : BftEngine) (requested : List UInt64) (same : SameHead g₀ g)
      (msg : m.message c = some (.blockResponse bytes cert))
      (ok : g.engine.adoptSyncedBlock c block cert = .ok e') (first : g = g₀)
      (decoded : Block.decode bytes = .ok (block, [])) :
      Act c g₀ m g { g with
        engine := e'
        flags := { g.flags with requestedBlocks := requested }
        harvested := g.harvested ++ [block] }

/-! ## Every micro-step is a sequence of acts -/

abbrev Acts (c : Crypto) (g₀ : BftGossip) (m : Micro) : BftGossip → BftGossip → Prop :=
  Relation.ReflTransGen (Act c g₀ m)

lemma SameHead.refl (g : BftGossip) : SameHead g g := ⟨rfl, rfl, rfl, rfl, rfl⟩

section Traversal

variable {c : Crypto} {g₀ g : BftGossip} {m : Micro} {e e' : BftEngine} {co : RoundCoordinator}
  {g' : BftGossip} {height : UInt64} {p : Proposal} {block : Block} {cert : PrecommitCertificate}
  {round : UInt32} {bytes : Bytes} {v : Vote} {ex : Option Executor}

open BftEngine

lemma drainPass_sublist (p : VotePhase) (votes : List Vote) (co : RoundCoordinator) :
    (drainPass c p co votes).2.1.Sublist votes := by
  induction votes generalizing co with
  | nil => exact .slnil
  | cons v _ ih =>
    unfold drainPass
    cases hv : co.submitVote c p v with
    | ok co' => exact (ih co').cons v
    | error =>
      dsimp only
      split_ifs
      · exact (ih co).cons_cons v
      · exact (ih co).cons v

lemma drainPass_acts (p : VotePhase) (votes : List Vote) (co : RoundCoordinator)
    (hco : g.engine.coordinator = some co) (hv : votes ⊆ g.engine.pending p) :
    Acts c g₀ m g { g with engine := { g.engine with
      coordinator := some (drainPass c p co votes).1 } } := by
  induction votes generalizing g co with
  | nil =>
    have : g = { g with engine := { g.engine with coordinator := some co } } := by rw [← hco]
    rw [drainPass, ← this]
  | cons v _ ih =>
    obtain ⟨hm, htl⟩ := cons_subset.mp hv
    unfold drainPass
    cases hs : co.submitVote c p v with
    | error => exact ih co hco htl
    | ok co' =>
      have hsp : Act c g₀ m g _ := .vote g p v co co' (.inr hm) hco hs
      refine Relation.ReflTransGen.head hsp (ih co' rfl ?_)
      cases p <;> exact htl

lemma drainOnce_acts : Acts c g₀ m g { g with engine := (drainOnce c g.engine).1 } := by
  have hsa : Acts c g₀ m g { g with engine := g.engine.dropStale } :=
    .single (.prune g _ _ filter_sublist.subset filter_sublist.subset)
  refine hsa.trans ?_
  unfold drainOnce
  cases hco : g.engine.dropStale.coordinator with
  | none => simp [hco]; exact .refl
  | some co =>
    simp [hco]
    have hprev : Acts c g₀ m { g with engine := g.engine.dropStale } _ :=
      drainPass_acts .prevote g.engine.dropStale.pendingPrevotes co hco (refl _)
    refine hprev.trans ?_
    have hpc : Acts c g₀ m
        { g with engine := { g.engine.dropStale with
          coordinator :=
            some (drainPass c .prevote co g.engine.dropStale.pendingPrevotes).1 } } _ :=
      drainPass_acts .precommit g.engine.dropStale.pendingPrecommits _ rfl (refl _)
    exact hpc.tail
      (.prune _ _ _ (drainPass_sublist _ _ _).subset (drainPass_sublist _ _ _).subset)

lemma drainLoop_acts (n : Nat) : Acts c g₀ m g { g with engine := drainLoop c n g.engine } := by
  induction n generalizing g with
  | zero => exact .refl
  | succ _ ih =>
    unfold drainLoop
    dsimp only
    split_ifs
    · exact drainOnce_acts.trans ih
    · exact drainOnce_acts

lemma drainPendingVotes_acts :
    Acts c g₀ m g { g with engine := drainPendingVotes c g.engine } :=
  drainLoop_acts _

lemma ensureCoordinator_acts (hsm : SameHead g₀ g) :
    Acts c g₀ m g { g with engine := g.engine.ensureCoordinator } := by
  unfold ensureCoordinator
  cases hco : g.engine.coordinator with
  | some => exact .refl
  | none => exact .single (.ensure g hco hsm)

lemma submitRemoteVote_acts (p : VotePhase) (v : Vote) (hm : m.message c = some (.ofVote p v))
    (hle : v.height ≤ satAdd64 g₀.engine.headNumber 1) :
    Acts c g₀ m g₀ { g₀ with engine := (submitRemoteVote c p g₀.engine v).1 } := by
  have hr : Acts c g₀ m g₀ { g₀ with engine := g₀.engine.recordRemote p v } :=
    .single (.record g₀ p v hm hle rfl)
  have hb := hr.tail (.buffer _ p v hm)
  unfold submitRemoteVote
  dsimp only
  split_ifs
  · exact hr
  · cases hco : (g₀.engine.recordRemote p v).coordinator with
    | none => exact hb
    | some co =>
      dsimp only
      cases hs : co.submitVote c p v with
      | ok co' =>
        exact (hr.tail (.vote _ p v co co' (.inl hm) hco hs)).trans drainPendingVotes_acts
      | error =>
        dsimp only
        split_ifs
        · exact hb
        · exact hr

lemma requestCatchup_acts (height : UInt64) : Acts c g₀ m g (g.requestCatchup height).1 := by
  unfold requestCatchup
  dsimp only
  split_ifs
  · exact .refl
  · exact .refl
  · refine .single (.sync g _ [.blockRequest (satAdd64 g.engine.headNumber 1)] ?_ ?_)
    · simp [vote?]
    · simp

lemma requestCatchup_not_future (h : (g.requestCatchup height).2 = false) :
    (g.requestCatchup height).1 = g ∧ height ≤ satAdd64 g.engine.headNumber 1 := by
  unfold requestCatchup at h ⊢
  dsimp only at h ⊢
  split_ifs at h ⊢ with hle
  exact ⟨rfl, hle⟩

lemma handleVote_acts (p : VotePhase) (v : Vote) (hm : m.message c = some (.ofVote p v)) :
    Acts c g₀ m g₀ (g₀.handleVote c p v).1 := by
  unfold handleVote
  dsimp only
  split_ifs with hf
  · exact requestCatchup_acts v.height
  · obtain ⟨hsm, hle⟩ := requestCatchup_not_future (Bool.not_eq_true _ ▸ hf)
    rw [hsm]
    exact submitRemoteVote_acts p v hm hle

lemma HeadRoom.toNat_satAdd (h : HeadRoom e) :
    (satAdd64 e.headNumber 1).toNat = e.headNumber.toNat + 1 := by
  unfold HeadRoom at h
  rw [satAdd64_toNat, toNat_one]
  omega

lemma HeadRoom.toNat_add (h : HeadRoom e) :
    (e.headNumber + 1).toNat = e.headNumber.toNat + 1 := by
  rw [toNat_add64_of_lt]
  · rw [toNat_one]
  · rwa [toNat_one]

lemma shouldFastForward_stale (hrm : HeadRoom e) (h : height ≤ e.headNumber) :
    shouldFastForward e height round = false := by
  have hne : height ≠ satAdd64 e.headNumber 1 := by
    intro heq
    have hle := le_iff_toNat_le.mp h
    rw [heq, hrm.toNat_satAdd] at hle
    omega
  simp [shouldFastForward, hne]

lemma shouldFastForward_lt (h : shouldFastForward e height round = true)
    (hco : e.coordinator = some co) : co.round < round := by
  simp [shouldFastForward, currentRoundState, hco, map_some, Bool.and_eq_true,
    decide_eq_true_eq] at h
  exact h.1.2.2

lemma jumpRound_acts (hm : m.message c = some (.proposal p))
    (h : jumpRound g₀.engine p.height p.round = .ok e) :
    Acts c g₀ m g₀ { g₀ with engine := e } ∧ SameHead g₀ { g₀ with engine := e } ∧
      (HeadRoom g₀.engine → p.height ≤ g₀.engine.headNumber → e = g₀.engine) := by
  unfold jumpRound at h
  split_ifs at h with hff
  · unfold fastForwardToRound at h
    dsimp only at h
    split_ifs at h with hco
    cases h
    have hhg : ∀ co, g₀.engine.coordinator = some co →
        co.height = g₀.engine.headNumber + 1 := by grind
    refine ⟨.single (.jump p hm hff hhg), ⟨rfl, rfl, rfl, rfl, rfl⟩, ?_⟩
    intro hrm hle
    rw [shouldFastForward_stale hrm hle] at hff
    cases hff
  · cases h
    exact ⟨.refl, .refl _, fun _ _ => rfl⟩

lemma submitRemoteProposal_acts {body : BlockBody} (hm : m.message c = some (.proposal p))
    (hsm : SameHead g₀ g) (hle : p.height ≤ satAdd64 g₀.engine.headNumber 1)
    (hby : decodeBlockBody p.bodyBytes = .ok body)
    (hbu : block = g.engine.reconstruct c m.oracle p.height p.leaderProof p.coinbase body)
    (hhs : block.hash c = p.blockHash)
    (hsa : HeadRoom g₀.engine → p.height ≤ g₀.engine.headNumber → g.engine = g₀.engine) :
    Acts c g₀ m g { g with engine := (submitRemoteProposal c g.engine block p.leaderProof).1 } := by
  have he : Acts c g₀ m g { g with engine := g.engine.ensureCoordinator } :=
    ensureCoordinator_acts hsm
  have hfr : SameHead g₀ { g with engine := g.engine.ensureCoordinator } ∧
      ∀ ex, g.engine.ensureCoordinator.reconstruct c ex = g.engine.reconstruct c ex := by
    unfold ensureCoordinator
    cases g.engine.coordinator with
    | some => exact ⟨hsm, fun _ => rfl⟩
    | none => exact ⟨⟨hsm.1, hsm.2, hsm.3, hsm.4, hsm.5⟩, fun _ => rfl⟩
  unfold submitRemoteProposal
  dsimp only
  cases hco : g.engine.ensureCoordinator.coordinator with
  | none => exact he
  | some co =>
    dsimp only
    cases hs : co.submitProposal c (block.hash c) p.leaderProof with
    | error => exact he
    | ok co' =>
      refine (he.tail (.accept _ p body co co' block hfr.1 hm hle ?_ ?_ hco hs hby)).trans
        drainPendingVotes_acts
      · intro hrm hsa'
        obtain ⟨hph, hv, -⟩ := submitProposal_ok hs
        rw [hsa hrm hsa'] at hbu hco
        exact ⟨hsa', ⟨body, hby, hbu ▸ hhs⟩, ⟨co, hco, hph, hv⟩⟩
      · rw [hfr.2]
        exact hbu

lemma handleProposalMsg_acts (hm : m.message c = some (.proposal p))
    (hle : p.height ≤ satAdd64 g₀.engine.headNumber 1) :
    Acts c g₀ m g₀ (g₀.handleProposalMsg c m.oracle p).1 := by
  unfold handleProposalMsg
  cases hjm : jumpRound g₀.engine p.height p.round with
  | error => exact .refl
  | ok =>
    obtain ⟨ha, hsm, hsa⟩ := jumpRound_acts hm hjm
    cases hby : decodeBlockBody p.bodyBytes with
    | error => exact ha
    | ok =>
      dsimp only
      split_ifs with hhs
      · exact ha
      · exact ha.trans
          (submitRemoteProposal_acts hm hsm hle hby rfl (not_not.mp hhs) hsa)

/-! ### Commits -/

lemma SameHead.trans {g₁ g₂ g₃ : BftGossip} (h : SameHead g₁ g₂) (h' : SameHead g₂ g₃) :
    SameHead g₁ g₃ :=
  ⟨h'.1.trans h.1, h'.2.trans h.2, h'.3.trans h.3, h'.4.trans h.4, h'.5.trans h.5⟩

lemma Act.sameHead_or_commit (h : Act c g₀ m g g') :
    SameHead g g' ∨ g.harvested.length < g'.harvested.length := by
  cases h with
  | harvest | adopt => exact .inr (by simp)
  | buffer _ p => cases p <;> exact .inl ⟨rfl, rfl, rfl, rfl, rfl⟩
  | _ => exact .inl ⟨rfl, rfl, rfl, rfl, rfl⟩

lemma Acts.sameHead_or_commit (h : Acts c g₀ m g g') :
    SameHead g g' ∨ g.harvested.length < g'.harvested.length := by
  induction h with
  | refl => exact .inl (.refl g)
  | tail _ ha ih =>
    rcases ha.sameHead_or_commit with hsm | hlt
    · rcases ih with ih | ih
      · exact .inl (ih.trans hsm)
      · exact .inr (hsm.harvested ▸ ih)
    · rcases ih with ih | ih
      · exact .inr (ih.harvested ▸ hlt)
      · exact .inr (ih.trans hlt)

lemma Acts.sameHead (h : Acts c g₀ m g g') (hh : g'.harvested = g.harvested) : SameHead g g' := by
  rcases h.sameHead_or_commit with hsm | hlt
  · exact hsm
  · grind

lemma tryHarvestCommitted_some (h : e.tryHarvestCommitted c = some (e', block)) :
    ∃ co proof cert, e.coordinator = some co ∧ e.proposal = some (block, proof) ∧
      co.phase = .committed ∧ co.finalCert = some cert ∧
      e' = e.advanceHead c block cert proof.vrfOutput := by
  unfold tryHarvestCommitted at h
  cases hco : e.coordinator with
  | none => simp [hco] at h
  | some co =>
    cases hp : e.proposal with
    | none => simp [hco, hp] at h
    | some bp =>
      obtain ⟨b, proof⟩ := bp
      simp only [hco, hp] at h
      split_ifs at h with hph
      obtain ⟨cert, hcr, heq⟩ := map_eq_some_iff.mp h
      cases heq
      exact ⟨co, proof, cert, rfl, rfl, hph, hcr, rfl⟩

lemma tryHarvestCommitted_none_congr (hco : e'.coordinator = e.coordinator)
    (hpp : e'.proposal = e.proposal) (h : e.tryHarvestCommitted c = none) :
    e'.tryHarvestCommitted c = none := by
  unfold tryHarvestCommitted at h ⊢
  rw [hco, hpp]
  split at h
  · split_ifs at h ⊢
    · exact map_eq_none_iff.mpr (map_eq_none_iff.mp h)
    · rfl
  · rfl

lemma autoHarvest_settled (c : Crypto) (g : BftGossip) :
    (g.autoHarvest c).engine.tryHarvestCommitted c = none := by
  unfold autoHarvest harvestLoop
  cases ht : g.engine.tryHarvestCommitted c with
  | none => exact ht
  | some out =>
    obtain ⟨co, _, _, -, -, -, -, heq⟩ := tryHarvestCommitted_some ht
    have hil : out.1.tryHarvestCommitted c = none := by
      rw [heq]
      rfl
    dsimp only
    rw [harvestLoop, hil]
    exact hil

lemma tick_settled (c : Crypto) (g : BftGossip) (ex : Option Executor) (inbox : List Bytes) :
    (g.tick c ex inbox).engine.tryHarvestCommitted c = none := by
  exact autoHarvest_settled c _

lemma adoptSyncedBlock_ok (h : e.adoptSyncedBlock c block cert = .ok e') :
    block.header.number = e.headNumber + 1 ∧ cert.height = block.header.number ∧
      block.header.parentHash = e.headHash ∧ cert.blockHash = block.hash c ∧
      PrecommitCertificate.verify c cert e.validatorSet = .ok () ∧
      e' = { e.advanceHead c block cert block.header.mixHash with
        pendingPrevotes := [], pendingPrecommits := [] } := by
  unfold adoptSyncedBlock at h
  split_ifs at h with hnm hhs
  obtain ⟨hn, hch⟩ := not_or.mp hnm
  obtain ⟨hp, hb⟩ := not_or.mp hhs
  split at h
  · cases h
  next hv =>
    exact ⟨not_not.mp hn, not_not.mp hch, not_not.mp hp, not_not.mp hb, hv, (ok.inj h).symm⟩

lemma adoptSyncedBlock_eq (h : e.adoptSyncedBlock c block cert = .ok e') :
    e' = { e.advanceHead c block cert block.header.mixHash with
      pendingPrevotes := [], pendingPrecommits := [] } :=
  (adoptSyncedBlock_ok h).2.2.2.2.2

/-- What an act that commits `block` leaves behind. -/
structure Commits (c : Crypto) (g₀ g g' : BftGossip) (block : Block) : Prop where
  same : SameHead g₀ g
  harvested : g'.harvested = g.harvested ++ [block]
  headHash : g'.engine.headHash = block.hash c
  headNumber : g'.engine.headNumber = block.header.number
  idle : g'.engine.coordinator = none
  outbox : g'.outbox = g.outbox
  kept : ∀ msg, RoundFlags.Kept g'.flags msg → RoundFlags.Kept g.flags msg
  source : (∃ proof, g.engine.proposal = some (block, proof)) ∨
    block.header.number = g.engine.headNumber + 1

lemma Act.commits (h : Act c g₀ m g g') : SameHead g g' ∨ ∃ block, Commits c g₀ g g' block := by
  cases h with
  | harvest _ _ block proof _ same _ _ _ proposal =>
    exact .inr ⟨block, same, rfl, rfl, rfl, rfl, rfl, fun _ h => h, .inl ⟨proof, proposal⟩⟩
  | adopt _ _ block _ _ _ same _ ok =>
    obtain ⟨hnm, -, -, -, -, rfl⟩ := adoptSyncedBlock_ok ok
    exact .inr ⟨block, same, rfl, rfl, rfl, rfl, rfl, fun _ h => h, .inr hnm⟩
  | buffer _ p => cases p <;> exact .inl ⟨rfl, rfl, rfl, rfl, rfl⟩
  | _ => exact .inl ⟨rfl, rfl, rfl, rfl, rfl⟩

lemma autoHarvest_acts (h : SameHead g₀ g ∨ g.engine.coordinator = none) :
    Acts c g₀ m g (g.autoHarvest c) := by
  unfold autoHarvest harvestLoop
  cases ht : g.engine.tryHarvestCommitted c with
  | none => exact .refl
  | some out =>
    obtain ⟨e, block⟩ := out
    obtain ⟨co, proof, cert, hco, hpp, hph, hcr, rfl⟩ := tryHarvestCommitted_some ht
    have hsm := h.resolve_right (by rw [hco]; exact some_ne_none co)
    exact .single (.harvest g co block proof cert hsm hco hph hcr hpp)

lemma handleBlockResponse_acts (hm : m.message c = some (.blockResponse bytes cert)) :
    Acts c g₀ m g₀ (g₀.handleBlockResponse c bytes cert).1 ∧
      ((g₀.handleBlockResponse c bytes cert).1.harvested = g₀.harvested ∨
        (g₀.handleBlockResponse c bytes cert).1.engine.coordinator = none) := by
  unfold handleBlockResponse
  cases hd : Block.decode bytes with
  | error => exact ⟨.refl, .inl rfl⟩
  | ok out =>
    obtain ⟨block, rest⟩ := out
    dsimp only
    split_ifs with hrs
    · exact ⟨.refl, .inl rfl⟩
    · obtain rfl : rest = [] := by simpa using hrs
      cases had : g₀.engine.adoptSyncedBlock c block cert with
      | error => exact ⟨.refl, .inl rfl⟩
      | ok e' =>
        refine ⟨.single (.adopt g₀ bytes block cert e' _ (.refl g₀) hm had rfl hd), .inr ?_⟩
        obtain rfl := adoptSyncedBlock_eq had
        rfl

lemma Acts.autoHarvest (h : Acts c g₀ m g₀ g)
    (hil : g.harvested = g₀.harvested ∨ g.engine.coordinator = none) :
    Acts c g₀ m g₀ (g.autoHarvest c) :=
  h.trans (autoHarvest_acts (hil.imp_left fun hh => h.sameHead hh))

lemma requestCatchup_frame (height : UInt64) :
    (g.requestCatchup height).1.engine = g.engine ∧
      (g.requestCatchup height).1.harvested = g.harvested := by
  unfold requestCatchup
  dsimp only
  split_ifs <;> exact ⟨rfl, rfl⟩

lemma handleVote_frame (p : VotePhase) (v : Vote) :
    (g.handleVote c p v).1.harvested = g.harvested ∧
      (g.handleVote c p v).1.flags = (g.requestCatchup v.height).1.flags ∧
      (g.handleVote c p v).1.outbox = (g.requestCatchup v.height).1.outbox := by
  unfold handleVote
  dsimp only
  split_ifs <;> exact ⟨(requestCatchup_frame v.height).2, rfl, rfl⟩

lemma handleProposalMsg_frame (ex : Option Executor) (p : Proposal) :
    (g.handleProposalMsg c ex p).1.harvested = g.harvested ∧
      (g.handleProposalMsg c ex p).1.flags = g.flags ∧
      (g.handleProposalMsg c ex p).1.outbox = g.outbox := by
  unfold handleProposalMsg
  split
  · exact ⟨rfl, rfl, rfl⟩
  · dsimp only
    split
    · exact ⟨rfl, rfl, rfl⟩
    · split_ifs <;> exact ⟨rfl, rfl, rfl⟩

lemma dispatchInbound_acts {msg : BftMessage} (hm : m.message c = some msg) :
    Acts c g₀ m g₀ ((g₀.dispatchInbound c m.oracle msg).1.autoHarvest c) := by
  cases msg with
  | proposal p =>
    unfold dispatchInbound
    dsimp only
    split_ifs with hf
    · exact (requestCatchup_acts p.height).autoHarvest (.inl (requestCatchup_frame p.height).2)
    · obtain ⟨hsm, hle⟩ := requestCatchup_not_future (Bool.not_eq_true _ ▸ hf)
      rw [hsm]
      exact (handleProposalMsg_acts hm hle).autoHarvest
        (.inl (handleProposalMsg_frame m.oracle p).1)
  | prevote v =>
    exact (handleVote_acts .prevote v hm).autoHarvest (.inl (handleVote_frame .prevote v).1)
  | precommit v =>
    exact (handleVote_acts .precommit v hm).autoHarvest
      (.inl (handleVote_frame .precommit v).1)
  | blockRequest height =>
    unfold dispatchInbound
    dsimp only
    cases g₀.engine.committedBlockAt height with
    | none => exact Acts.autoHarvest .refl (.inl rfl)
    | some out =>
      obtain ⟨block, cert⟩ := out
      have hs : Acts c g₀ m g₀ (g₀.broadcast (.blockResponse block.encode cert)) :=
        .single (.sync g₀ g₀.flags.requestedBlocks [.blockResponse block.encode cert]
          (by simp [vote?]) (by simp))
      exact hs.autoHarvest (.inl rfl)
  | blockResponse =>
    exact (handleBlockResponse_acts hm).1.autoHarvest (handleBlockResponse_acts hm).2

/-! ### Acting on the phase -/

lemma castPrevote_ok (h : e.castPrevote c = .ok (e', v)) :
    ∃ co co' block, e.coordinator = some co ∧ co.proposedBlock = some block ∧
      v = signVote c .prevote e.config.myBlsSk block co.height co.round e.myIndex ∧
      co.submitPrevote c v = .ok co' ∧ e' = { e with coordinator := some co' } := by
  unfold castPrevote at h
  split at h
  · cases h
  next co hco =>
    split at h
    · cases h
    next block hb =>
      dsimp only at h
      split at h
      · cases h
      next co' hs =>
        cases h
        exact ⟨co, co', block, hco, hb, rfl, hs, rfl⟩

lemma castPrecommit_ok (h : e.castPrecommit c = .ok (e', v)) :
    ∃ co co' block, e.coordinator = some co ∧ co.proposedBlock = some block ∧
      v = signVote c .precommit e.config.myBlsSk block co.height co.round e.myIndex ∧
      co.submitPrecommit c v = .ok co' ∧ e' = { e with coordinator := some co' } := by
  unfold castPrecommit at h
  split at h
  · cases h
  next co hco =>
    split_ifs at h
    split at h
    · cases h
    next block hb =>
      dsimp only at h
      split at h
      · cases h
      next co' hs =>
        cases h
        exact ⟨co, co', block, hco, hb, rfl, hs, rfl⟩

lemma ensureCoordinator_frame (e : BftEngine) :
    ∃ co, e.ensureCoordinator = { e with coordinator := some co } := by
  unfold ensureCoordinator
  cases hco : e.coordinator with
  | none => exact ⟨_, rfl⟩
  | some co =>
    refine ⟨co, ?_⟩
    dsimp only
    rw [← hco]

lemma retransmit_acts {slot : RoundFlags → Option BftMessage}
    (hsl : ∀ f msg, slot f = some msg → RoundFlags.Kept f msg) :
    Acts c g₀ m g (g.retransmit slot) := by
  unfold retransmit
  cases hm : slot g.flags with
  | none => exact .refl
  | some msg => exact .single (.resend g msg (hsl _ _ hm))

lemma castProposal_slot {out : Block × LeaderProof} (h : (e.castProposal c ex).2 = .ok out) :
    ∃ co, (e.castProposal c ex).1.coordinator = some co ∧
      ∀ co₀, e.coordinator = some co₀ → (co.height, co.round) = (co₀.height, co₀.round) := by
  obtain ⟨co, hco⟩ := ensureCoordinator_frame e
  have hsm : ∀ co₀, e.coordinator = some co₀ → co₀ = co := by
    intro _ hco₀
    have he := congrArg coordinator hco
    rw [ensureCoordinator, hco₀] at he
    exact some.inj (hco₀.symm.trans he)
  unfold castProposal at h ⊢
  rw [hco] at h ⊢
  dsimp only at h ⊢
  split_ifs at h ⊢
  split at h
  · cases h
  next co' hs =>
    obtain rfl := submitProposal_eq hs
    refine ⟨_, rfl, ?_⟩
    intro co₀ hco₀
    rw [hsm co₀ hco₀]
    rfl

lemma retransmit_frame (slot : RoundFlags → Option BftMessage) :
    (g.retransmit slot).engine = g.engine ∧ (g.retransmit slot).flags = g.flags ∧
      (g.retransmit slot).harvested = g.harvested := by
  unfold retransmit
  split <;> exact ⟨rfl, rfl, rfl⟩

lemma drivePhase_frame (ex : Option Executor) (h : UInt64) (r : UInt32) (phase : Phase) :
    (g.drivePhase c ex h r phase).harvested = g.harvested ∧
      (g.drivePhase c ex h r phase).flags.requestedBlocks = g.flags.requestedBlocks := by
  unfold drivePhase
  cases phase with
  | awaitingProposal =>
    simp only [retransmit_frame]
    unfold maybePropose
    dsimp only
    split_ifs <;> first | exact ⟨rfl, rfl⟩ | (split <;> exact ⟨rfl, rfl⟩)
  | prevoting =>
    simp only [retransmit_frame]
    unfold maybePrevote
    split_ifs <;> first | exact ⟨rfl, rfl⟩ | (split <;> exact ⟨rfl, rfl⟩)
  | precommitting =>
    simp only [retransmit_frame]
    unfold maybePrecommit
    split_ifs <;> first | exact ⟨rfl, rfl⟩ | (split <;> exact ⟨rfl, rfl⟩)
  | committed => exact ⟨rfl, rfl⟩

lemma bootstrapPropose_harvested (ex : Option Executor) :
    (g.bootstrapPropose c ex).harvested = g.harvested := by
  unfold bootstrapPropose
  dsimp only
  split <;> rfl

section Driving

variable (hm : ∃ ex, m = .drive ex)

include hm

lemma castProposal_acts :
    Acts c g₀ m g₀ { g₀ with engine := (g₀.engine.castProposal c m.oracle).1 } := by
  have he : Acts c g₀ m g₀ { g₀ with engine := g₀.engine.ensureCoordinator } :=
    ensureCoordinator_acts (.refl g₀)
  obtain ⟨co, hco⟩ := ensureCoordinator_frame g₀.engine
  unfold castProposal
  rw [hco] at he ⊢
  dsimp only
  split_ifs with hld
  · exact he
  · have hs := he.tail (.stage _ (g₀.engine.pendingTxs.drop
      (g₀.engine.config.gasLimit / PLACEHOLDER_TX_GAS).toNat))
    split
    · exact hs
    next co' hsb =>
      exact hs.tail
        (.propose _ _ co co' _ _ ⟨rfl, rfl, rfl, rfl, rfl⟩ rfl rfl hsb
          ⟨g₀.engine.pendingTxs, rfl⟩ hm (by rw [hco]) (not_not.mp hld))

lemma bootstrapPropose_acts (hil : g₀.engine.coordinator = none) :
    Acts c g₀ m g₀ (g₀.bootstrapPropose c m.oracle) := by
  unfold bootstrapPropose
  dsimp only
  split
  next block proof h r phase _ hrn =>
    obtain ⟨co, hco, heq⟩ := map_eq_some_iff.mp hrn
    obtain ⟨rfl, hrs⟩ := Prod.mk.inj heq
    cases hrs
    exact (castProposal_acts hm).tail (.announce _ (co.height, co.round) _ rfl rfl rfl
      ⟨co, hco, rfl⟩ (.inl hil) ((castProposal_acts hm).sameHead rfl))
  · exact castProposal_acts hm

variable (hco : g₀.engine.coordinator = some co)

include hco

lemma maybePrevote_acts : Acts c g₀ m g₀ (g₀.maybePrevote c co.height co.round) := by
  unfold maybePrevote
  split_ifs with hfh
  · exact .refl
  · cases hca : g₀.engine.castPrevote c with
    | error => exact .refl
    | ok out =>
      obtain ⟨e, v⟩ := out
      obtain ⟨_, co', block, hco₁, hbl, hv, hs, rfl⟩ := castPrevote_ok hca
      cases hco.symm.trans hco₁
      obtain ⟨hph, -⟩ := submitPrevote_ok hs
      exact .single (.castPrevote co co' block v hm hco hph hfh hbl hv hs)

lemma maybePrecommit_acts : Acts c g₀ m g₀ (g₀.maybePrecommit c co.height co.round) := by
  unfold maybePrecommit
  split_ifs with hfh
  · exact .refl
  · cases hca : g₀.engine.castPrecommit c with
    | error => exact .refl
    | ok out =>
      obtain ⟨e, v⟩ := out
      obtain ⟨_, co', block, hco₁, hbl, hv, hs, rfl⟩ := castPrecommit_ok hca
      cases hco.symm.trans hco₁
      obtain ⟨hph, -⟩ := submitPrecommit_ok hs
      exact .single (.castPrecommit co co' block v hm hco hph hfh hbl hv hs)

lemma maybePropose_acts : Acts c g₀ m g₀ (g₀.maybePropose c m.oracle co.height co.round) := by
  unfold maybePropose
  dsimp only
  split_ifs with hfh hld
  · exact .refl
  · exact .refl
  · split
    · exact castProposal_acts hm
    next block proof hca =>
      obtain ⟨co', hco', hsl⟩ := castProposal_slot hca
      exact (castProposal_acts hm).tail (.announce _ (co.height, co.round) _ rfl rfl rfl
        ⟨co', hco', (hsl co hco).symm⟩ (.inr hfh) ((castProposal_acts hm).sameHead rfl))

lemma drivePhase_acts :
    Acts c g₀ m g₀ (g₀.drivePhase c m.oracle co.height co.round co.phase) := by
  cases co.phase with
  | awaitingProposal =>
    exact (maybePropose_acts hm hco).trans (retransmit_acts fun _ _ h => .inl h)
  | prevoting =>
    exact ((maybePrevote_acts hm hco).trans (retransmit_acts fun _ _ h => .inl h)).trans
      (retransmit_acts fun _ _ h => .inr (.inl h))
  | precommitting =>
    exact ((maybePrecommit_acts hm hco).trans (retransmit_acts fun _ _ h => .inr (.inl h))).trans
      (retransmit_acts fun _ _ h => .inr (.inr h))
  | committed => exact .refl

end Driving

lemma drive_acts (hm : ∃ ex, m = .drive ex) : Acts c g₀ m g₀ (g₀.drive c m.oracle) := by
  unfold drive currentRoundState
  cases hco : g₀.engine.coordinator with
  | none =>
    simp
    split_ifs
    · exact (bootstrapPropose_acts hm hco).autoHarvest
        (.inl (bootstrapPropose_harvested m.oracle))
    · exact Acts.autoHarvest .refl (.inl rfl)
  | some =>
    simp
    exact (drivePhase_acts hm hco).autoHarvest (.inl (drivePhase_frame ..).1)

lemma timeout_acts : Acts c g₀ .timeout g₀ (g₀.timeout c) := by
  have he : Acts c g₀ .timeout g₀ { g₀ with engine := g₀.engine.ensureCoordinator } :=
    ensureCoordinator_acts (.refl g₀)
  obtain ⟨co, hco⟩ := ensureCoordinator_frame g₀.engine
  unfold timeout tickTimeout
  rw [hco] at he ⊢
  exact (he.tail (.timeout _ co rfl rfl hco.symm)).trans drainPendingVotes_acts

lemma recv_acts (hm : m = .recv ex bytes) : Acts c g₀ m g₀ (g₀.recv c ex bytes) := by
  subst hm
  unfold recv
  cases hd : decode c bytes with
  | error => exact Acts.autoHarvest .refl (.inl rfl)
  | ok msg =>
    have hms : (Micro.recv ex bytes).message c = some msg := by
      simp [Micro.message, hd, Except.toOption]
    exact dispatchInbound_acts hms

lemma microStep_acts (c : Crypto) (g₀ : BftGossip) (m : Micro) :
    Acts c g₀ m g₀ (g₀.microStep c m) := by
  cases m with
  | recv => exact recv_acts rfl
  | drive ex => exact drive_acts ⟨ex, rfl⟩
  | timeout => exact timeout_acts
  | stageTxs => exact .single (.stage g₀ _)

end Traversal

section Runs

variable {c : Crypto} {ok : BftGossip → Micro → Prop} {P : BftGossip → Prop} {g : BftGossip}

variable (c ok) in
/-- Every micro-step of the run meets `ok` in the state it starts from. -/
def Admitted : BftGossip → List Micro → Prop
  | _, [] => True
  | g, m :: ms => ok g m ∧ Admitted (g.microStep c m) ms

instance Admitted.decidable [∀ g m, Decidable (ok g m)] :
    (g : BftGossip) → (ms : List Micro) → Decidable (Admitted c ok g ms)
  | _, [] => inferInstanceAs (Decidable True)
  | g, m :: ms =>
    have := Admitted.decidable (g.microStep c m) ms
    inferInstanceAs (Decidable (ok g m ∧ Admitted c ok (g.microStep c m) ms))

/-- What every act of a step keeps, the step keeps. -/
lemma microStep_keeps {m : Micro} (hg : P g)
    (ha : ∀ g₁ g₂, P g₁ → Act c g m g₁ g₂ → P g₂) : P (g.microStep c m) := by
  have hs := microStep_acts c g m
  generalize g.microStep c m = g' at hs ⊢
  induction hs with
  | refl => exact hg
  | tail _ hsp ih => exact ha _ _ ih hsp

variable (ha : ∀ g₀ m g g', ok g₀ m → P g₀ → P g → Act c g₀ m g g' → P g')

include ha

lemma microStep_induction {m : Micro} (hok : ok g m) (hg : P g) : P (g.microStep c m) :=
  microStep_keeps hg fun _ _ hp hsp => ha _ _ _ _ hok hg hp hsp

lemma runMicro_induction {ms : List Micro} (hok : Admitted c ok g ms)
    (hg : P g) : P (g.runMicro c ms) := by
  induction ms generalizing g with
  | nil => exact hg
  | cons _ _ ih =>
    obtain ⟨hm, hrs⟩ := hok
    exact ih hrs (microStep_induction ha hm hg)

end Runs

end BftGossip

end Aii.Bft
