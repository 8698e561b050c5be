/-
Aii.Bft.Calls — an engine and everything that can be called on it.

The driver of `Aii.Bft.Gossip` uses the engine through calls only
(`microStep_answered`).
-/
import Aii.Bft.Acts
import Aii.Common.Runs

namespace Aii.Bft

open Common Chain

namespace BftEngine

/-! ## Calls -/

inductive Call where
  | submitRemoteVote (p : VotePhase) (vote : Vote)
  | submitRemoteProposal (block : Block) (proof : LeaderProof)
  | castProposal (ex : Option Executor)
  | castPrevote
  | castPrecommit
  | tickTimeout
  | tryHarvestCommitted
  | adoptSyncedBlock (block : Block) (cert : PrecommitCertificate)
  | fastForwardToRound (round : UInt32)
  | rotateValidatorSet (vs : ValidatorSet) (myIndex : UInt32)
  | extendPendingTxs (txs : List Tx)
  | drainEvidence

def Call.cast : VotePhase → Call
  | .prevote => .castPrevote
  | .precommit => .castPrecommit

variable (c : Crypto)

def orKeep (e : BftEngine) (out : Except BftError BftEngine) : BftEngine :=
  match out with
  | .ok e' => e'
  | .error _ => e

def call (e : BftEngine) : Call → BftEngine × List EquivocationEvidence
  | .submitRemoteVote p vote => ((e.submitRemoteVote c p vote).1, [])
  | .submitRemoteProposal block proof => ((e.submitRemoteProposal c block proof).1, [])
  | .castProposal ex => ((e.castProposal c ex).1, [])
  | .castPrevote => (e.orKeep ((e.castPrevote c).map Prod.fst), [])
  | .castPrecommit => (e.orKeep ((e.castPrecommit c).map Prod.fst), [])
  | .tickTimeout => (e.tickTimeout c, [])
  | .tryHarvestCommitted => (((e.tryHarvestCommitted c).map Prod.fst).getD e, [])
  | .adoptSyncedBlock block cert => (e.orKeep (e.adoptSyncedBlock c block cert), [])
  | .fastForwardToRound round => (e.orKeep (e.fastForwardToRound round), [])
  | .rotateValidatorSet vs myIndex => (e.orKeep (e.rotateValidatorSet vs myIndex), [])
  | .extendPendingTxs txs => (e.extendPendingTxs txs, [])
  | .drainEvidence => e.drainEvidence

def runCalls : BftEngine → List Call → BftEngine × List EquivocationEvidence
  | e, [] => (e, [])
  | e, x :: xs =>
    let rest := runCalls (e.call c x).1 xs
    (rest.1, (e.call c x).2 ++ rest.2)

def after (e : BftEngine) (x : Call) : BftEngine := (e.call c x).1

def afterCalls (e : BftEngine) (xs : List Call) : BftEngine := (runCalls c e xs).1

section Runs

variable {c} {e : BftEngine}

lemma afterCalls_append (xs ys : List Call) :
    e.afterCalls c (xs ++ ys) = (e.afterCalls c xs).afterCalls c ys := by
  induction xs generalizing e with
  | nil => rfl
  | cons _ _ ih => exact ih

lemma afterCalls_eq_foldl (xs : List Call) : e.afterCalls c xs = xs.foldl (after c) e := by
  induction xs generalizing e with
  | nil => rfl
  | cons _ _ ih => exact ih

end Runs

/-! ## What helpers leave alone -/

section Frames

variable (e : BftEngine) (p : VotePhase) (votes : List Vote)

@[simp] lemma ensureCoordinator_same : e.ensureCoordinator.headNumber = e.headNumber ∧
    e.ensureCoordinator.validatorSet = e.validatorSet ∧ e.ensureCoordinator.proposal = e.proposal ∧
    e.ensureCoordinator.recentBlocks = e.recentBlocks ∧
    e.ensureCoordinator.pendingTxs = e.pendingTxs := by
  unfold ensureCoordinator
  split <;> simp

@[simp] lemma ensureCoordinator_pending : e.ensureCoordinator.pending p = e.pending p := by
  unfold ensureCoordinator
  split <;> (cases p <;> rfl)

@[simp] lemma setPending_coordinator : (e.setPending p votes).coordinator = e.coordinator := by
  cases p <;> rfl

@[simp] lemma setPending_proposal : (e.setPending p votes).proposal = e.proposal := by
  cases p <;> rfl

@[simp] lemma setPending_same : (e.setPending p votes).headNumber = e.headNumber ∧
    (e.setPending p votes).validatorSet = e.validatorSet ∧
    (e.setPending p votes).recentBlocks = e.recentBlocks ∧
    (e.setPending p votes).pendingTxs = e.pendingTxs := by
  cases p <;> simp [setPending]

end Frames

/-! ## Changes -/

/-- The single changes calls are made of. -/
inductive Change : BftEngine → BftEngine → Prop
  /-- Queues, vote buffers, detector and evidence. -/
  | aside (e : BftEngine) (detector : EquivocationDetector)
      (evidence : List EquivocationEvidence) (prevotes precommits : List Vote) (txs : List Tx) :
      Change e { e with
        detector := detector, pendingEvidence := evidence, pendingPrevotes := prevotes
        pendingPrecommits := precommits, pendingTxs := txs }
  /-- A new coordinator for the next height, some timeouts later. -/
  | start (e : BftEngine) (n : Nat) :
      Change e { e with coordinator := some (RoundCoordinator.fireTimeouts n
        (.new (e.headNumber + 1) e.seed e.validatorSet)) }
  /-- A proposal is accepted. -/
  | accept (e : BftEngine) (co co' : RoundCoordinator) (block : Block) (proof : LeaderProof)
      (active : e.coordinator = some co)
      (ok : co.submitProposal c (block.hash c) proof = .ok co') :
      Change e { e with coordinator := some co', proposal := some (block, proof) }
  /-- A vote passes the tally. -/
  | vote (e : BftEngine) (p : VotePhase) (v : Vote) (co co' : RoundCoordinator)
      (active : e.coordinator = some co) (ok : co.submitVote c p v = .ok co') :
      Change e { e with coordinator := some co' }
  /-- A timeout, which drops the proposal. -/
  | timeout (e : BftEngine) (co : RoundCoordinator) (active : e.coordinator = some co) :
      Change e { e with coordinator := some co.fireTimeout, proposal := none }
  /-- The committed block is harvested. -/
  | harvest (e : BftEngine) (co : RoundCoordinator) (block : Block) (proof : LeaderProof)
      (cert : PrecommitCertificate) (active : e.coordinator = some co)
      (phase : co.phase = .committed) (final : co.finalCert = some cert)
      (proposal : e.proposal = some (block, proof)) :
      Change e (e.advanceHead c block cert proof.vrfOutput)
  /-- A block of a peer is adopted. -/
  | adopt (e e' : BftEngine) (block : Block) (cert : PrecommitCertificate)
      (ok : e.adoptSyncedBlock c block cert = .ok e') : Change e e'
  /-- The validator set is replaced between two rounds. -/
  | rotate (e : BftEngine) (vs : ValidatorSet) (myIndex : UInt32)
      (idle : e.coordinator = none) (free : e.proposal = none) :
      Change e { e with
        pendingPrevotes := [], pendingPrecommits := [], validatorSet := vs, myIndex := myIndex }

abbrev Changes : BftEngine → BftEngine → Prop := Relation.ReflTransGen (Change c)

section Traversal

variable {c} {e e' : BftEngine} {P : BftEngine → Prop} {g g' g₀ : BftGossip} {m : BftGossip.Micro}

lemma Changes.aside (e : BftEngine) (detector : EquivocationDetector)
    (evidence : List EquivocationEvidence) (prevotes precommits : List Vote) (txs : List Tx) :
    Changes c e { e with
      detector := detector, pendingEvidence := evidence, pendingPrevotes := prevotes
      pendingPrecommits := precommits, pendingTxs := txs } :=
  .single (.aside e detector evidence prevotes precommits txs)

lemma Changes.setPending (p : VotePhase) (votes : List Vote) :
    Changes c e (e.setPending p votes) := by
  cases p with
  | prevote => exact .aside e e.detector e.pendingEvidence votes e.pendingPrecommits e.pendingTxs
  | precommit => exact .aside e e.detector e.pendingEvidence e.pendingPrevotes votes e.pendingTxs

lemma Changes.recordRemote (p : VotePhase) (v : Vote) : Changes c e (e.recordRemote p v) :=
  .aside e _ _ e.pendingPrevotes e.pendingPrecommits e.pendingTxs

lemma act_changes (h : BftGossip.Act c g₀ m g g') : Changes c g.engine g'.engine := by
  cases h with
  | sync | resend | announce => exact .refl
  | stage _ txs => exact .aside g.engine _ _ _ _ txs
  | record _ p v => exact .recordRemote p v
  | ensure => exact .single (.start g.engine 0)
  | jump p => exact .single (.start _ p.round.toNat)
  | accept _ p _ co co' block _ _ _ _ _ hac hok =>
    exact .single (.accept g.engine co co' block p.leaderProof hac hok)
  | propose _ _ co co' block proof _ _ hac hok =>
    exact .single (.accept g.engine co co' block proof hac hok)
  | vote _ p v co co' _ hac hok => exact .single (.vote g.engine p v co co' hac hok)
  | buffer _ p => exact .setPending p _
  | prune _ prevotes precommits => exact .aside g.engine _ _ prevotes precommits _
  | castPrevote co co' _ v _ hac _ _ _ _ hok =>
    exact .single (.vote _ .prevote v co co' hac hok)
  | castPrecommit co co' _ v _ hac _ _ _ _ hok =>
    exact .single (.vote _ .precommit v co co' hac hok)
  | timeout _ co hac => exact .single (.timeout g.engine co hac)
  | harvest _ co block proof cert _ hac hph hfn hpp =>
    exact .single (.harvest g.engine co block proof cert hac hph hfn hpp)
  | adopt _ _ block cert e' _ _ _ hok => exact .single (.adopt g.engine e' block cert hok)

lemma acts_changes (h : BftGossip.Acts c g₀ m g g') : Changes c g.engine g'.engine := by
  induction h with
  | refl => exact .refl
  | tail _ ha ih => exact ih.trans (act_changes ha)

lemma drainPendingVotes_changes (e : BftEngine) : Changes c e (drainPendingVotes c e) := by
  have ha : BftGossip.Acts c (.new e) .timeout (.new e)
      { BftGossip.new e with engine := drainPendingVotes c e } := BftGossip.drainPendingVotes_acts
  exact acts_changes ha

lemma ensureCoordinator_changes (e : BftEngine) : Changes c e e.ensureCoordinator :=
  acts_changes (g := .new e) (m := .timeout) (BftGossip.ensureCoordinator_acts (.refl _))

/-- The outcomes of `submit_remote_prevote` and `submit_remote_precommit`. -/
inductive RemoteVote (c : Crypto) (p : VotePhase) (e : BftEngine) (v : Vote) :
    BftEngine × Except BftError Unit → Prop
  /-- The height is committed already. -/
  | stale (height : v.height ≤ e.headNumber) : RemoteVote c p e v (e.recordRemote p v, .ok ())
  /-- Nobody to count the vote yet. -/
  | buffered (height : e.headNumber < v.height)
      (early : ∀ co, e.coordinator = some co →
        ∃ err, co.submitVote c p v = .error err ∧ isEarly err = true) :
      RemoteVote c p e v ((e.recordRemote p v).setPending p (e.pending p ++ [v]), .ok ())
  | taken (co co' : RoundCoordinator) (active : e.coordinator = some co)
      (ok : co.submitVote c p v = .ok co') :
      RemoteVote c p e v
        (drainPendingVotes c { e.recordRemote p v with coordinator := some co' }, .ok ())
  | refused (height : e.headNumber < v.height) (co : RoundCoordinator) (err : BftError)
      (active : e.coordinator = some co) (error : co.submitVote c p v = .error err)
      (late : isEarly err = false) : RemoteVote c p e v (e.recordRemote p v, .error err)

lemma submitRemoteVote_cases (p : VotePhase) (e : BftEngine) (v : Vote) :
    RemoteVote c p e v (e.submitRemoteVote c p v) := by
  have hpg : (e.recordRemote p v).pending p = e.pending p := by cases p <;> rfl
  have hb := RemoteVote.buffered (c := c) (p := p) (e := e) (v := v)
  unfold submitRemoteVote
  dsimp only
  rw [hpg]
  split_ifs with hhg
  · exact .stale hhg
  · replace hhg : e.headNumber < v.height := UInt64.not_le.mp hhg
    cases hco : (e.recordRemote p v).coordinator with
    | none =>
      have hil : e.coordinator = none := hco
      exact hb hhg (by simp [hil])
    | some co =>
      have hac := hco
      dsimp only
      cases hs : co.submitVote c p v with
      | ok co' => exact .taken co co' hac hs
      | error err =>
        dsimp only
        split_ifs with her
        · refine hb hhg fun co₁ hco₁ => ?_
          cases hac.symm.trans hco₁
          exact ⟨err, hs, her⟩
        · exact .refused hhg co err hac hs (by simpa using her)

/-- The outcomes of `submit_remote_proposal`. -/
inductive RemoteProposal (c : Crypto) (e : BftEngine) (block : Block) (proof : LeaderProof) :
    BftEngine × Except BftError Unit → Prop
  | refused (co : RoundCoordinator) (active : e.ensureCoordinator.coordinator = some co)
      (err : BftError) (error : co.submitProposal c (block.hash c) proof = .error err) :
      RemoteProposal c e block proof (e.ensureCoordinator, .error err)
  | accepted (co co' : RoundCoordinator) (active : e.ensureCoordinator.coordinator = some co)
      (ok : co.submitProposal c (block.hash c) proof = .ok co') :
      RemoteProposal c e block proof
        (drainPendingVotes c
          { e.ensureCoordinator with coordinator := some co', proposal := some (block, proof) },
          .ok ())

lemma submitRemoteProposal_cases (e : BftEngine) (block : Block) (proof : LeaderProof) :
    RemoteProposal c e block proof (e.submitRemoteProposal c block proof) := by
  obtain ⟨co, he⟩ := BftGossip.ensureCoordinator_frame e
  have hac : e.ensureCoordinator.coordinator = some co := by rw [he]
  unfold submitRemoteProposal
  simp only [hac]
  cases hs : co.submitProposal c (block.hash c) proof with
  | error err => exact .refused co hac err hs
  | ok co' => exact .accepted co co' hac hs

lemma fastForwardToRound_ok {round : UInt32} (h : e.fastForwardToRound round = .ok e') :
    e' = { e with coordinator := some (RoundCoordinator.fireTimeouts round.toNat
      (.new (e.headNumber + 1) e.seed e.validatorSet)) } := by
  unfold fastForwardToRound at h
  dsimp only at h
  split_ifs at h
  exact (Except.ok.inj h).symm

lemma orKeep_cases {out : Except BftError BftEngine} (h : P e)
    (hok : ∀ e', out = .ok e' → e.orKeep out = e' → P e') : P (e.orKeep out) := by
  cases out with
  | ok e' => exact hok e' rfl rfl
  | error => exact h

/-- How many transactions a block takes. -/
def maxTxs (e : BftEngine) : Nat := (e.config.gasLimit / PLACEHOLDER_TX_GAS).toNat

/-- The outcomes of `cast_proposal`. -/
inductive CastProposal (c : Crypto) (e : BftEngine) :
    BftEngine × Except BftError (Block × LeaderProof) → Prop
  /-- Another validator leads the round. -/
  | notLeader (co : RoundCoordinator) (active : e.ensureCoordinator.coordinator = some co)
      (other : co.leaderIndex c ≠ e.myIndex.toNat) (err : BftError) :
      CastProposal c e (e.ensureCoordinator, .error err)
  /-- The block is built, and the coordinator refuses it: the transactions
  have left the queue. -/
  | refused (co : RoundCoordinator) (active : e.ensureCoordinator.coordinator = some co)
      (leads : co.leaderIndex c = e.myIndex.toNat) (block : Block) (err : BftError)
      (error : co.submitProposal c (block.hash c)
        (.produce c e.config.myVrfSk co.height co.round e.seed) = .error err) :
      CastProposal c e
        ({ e.ensureCoordinator with pendingTxs := e.pendingTxs.drop e.maxTxs }, .error err)
  /-- The block is accepted. -/
  | accepted (co co' : RoundCoordinator) (active : e.ensureCoordinator.coordinator = some co)
      (leads : co.leaderIndex c = e.myIndex.toNat) (block : Block)
      (body : block.body = ⟨e.pendingTxs.take e.maxTxs, [], []⟩)
      (ok : co.submitProposal c (block.hash c)
        (.produce c e.config.myVrfSk co.height co.round e.seed) = .ok co') :
      CastProposal c e
        ({ e.ensureCoordinator with
            pendingTxs := e.pendingTxs.drop e.maxTxs, coordinator := some co'
            proposal := some (block, .produce c e.config.myVrfSk co.height co.round e.seed) },
          .ok (block, .produce c e.config.myVrfSk co.height co.round e.seed))

lemma castProposal_cases (c : Crypto) (ex : Option Executor) (e : BftEngine) :
    CastProposal c e (e.castProposal c ex) := by
  obtain ⟨co, he⟩ := BftGossip.ensureCoordinator_frame e
  have hac : e.ensureCoordinator.coordinator = some co := by rw [he]
  have hn := CastProposal.notLeader (c := c) co hac
  have hrf := CastProposal.refused (c := c) co hac
  have ha := fun co' => CastProposal.accepted (c := c) co co' hac
  unfold castProposal
  rw [he] at hn hrf ha ⊢
  dsimp only
  split_ifs with hld
  · exact hn hld _
  · split
    next err hs => exact hrf (not_not.mp hld) _ err hs
    next co' hs => exact ha co' (not_not.mp hld) _ rfl hs

inductive Outcome (c : Crypto) (e : BftEngine) : Call → BftEngine → Prop
  /-- The call fails, or there is nothing to harvest. -/
  | kept (x : Call) (novote : ∀ p v, x ≠ .submitRemoteVote p v) (nodrain : x ≠ .drainEvidence) :
      Outcome c e x e
  /-- The detector sees a vote, and nobody else. -/
  | recorded (p : VotePhase) (v : Vote) : Outcome c e (.submitRemoteVote p v) (e.recordRemote p v)
  | buffered (p : VotePhase) (v : Vote)
      (early : ∀ co co', e.coordinator = some co → co.submitVote c p v ≠ .ok co') :
      Outcome c e (.submitRemoteVote p v) ((e.recordRemote p v).setPending p (e.pending p ++ [v]))
  | taken (p : VotePhase) (v : Vote) (co co' : RoundCoordinator)
      (active : e.coordinator = some co) (ok : co.submitVote c p v = .ok co') :
      Outcome c e (.submitRemoteVote p v)
        (drainPendingVotes c { e.recordRemote p v with coordinator := some co' })
  | refused (block : Block) (proof : LeaderProof) :
      Outcome c e (.submitRemoteProposal block proof) e.ensureCoordinator
  | accepted (block : Block) (proof : LeaderProof) (co co' : RoundCoordinator)
      (active : e.ensureCoordinator.coordinator = some co)
      (ok : co.submitProposal c (block.hash c) proof = .ok co') :
      Outcome c e (.submitRemoteProposal block proof) (drainPendingVotes c
        { e.ensureCoordinator with coordinator := some co', proposal := some (block, proof) })
  /-- The node does not lead, or its own coordinator refuses the block. -/
  | notProposed (ex : Option Executor) (txs : List Tx) :
      Outcome c e (.castProposal ex) { e.ensureCoordinator with pendingTxs := txs }
  | proposed (ex : Option Executor) (txs : List Tx) (block : Block) (proof : LeaderProof)
      (co co' : RoundCoordinator) (active : e.ensureCoordinator.coordinator = some co)
      (ok : co.submitProposal c (block.hash c) proof = .ok co') :
      Outcome c e (.castProposal ex) { e.ensureCoordinator with
        pendingTxs := txs, coordinator := some co', proposal := some (block, proof) }
  /-- The node's own vote is taken. -/
  | voted (x : Call) (p : VotePhase) (own : x = .cast p) (v : Vote) (co co' : RoundCoordinator)
      (active : e.coordinator = some co) (ok : co.submitVote c p v = .ok co') :
      Outcome c e x { e with coordinator := some co' }
  | timedOut (co : RoundCoordinator) (active : e.ensureCoordinator.coordinator = some co) :
      Outcome c e .tickTimeout (drainPendingVotes c
        { e.ensureCoordinator with coordinator := some co.fireTimeout, proposal := none })
  | harvested (co : RoundCoordinator) (block : Block) (proof : LeaderProof)
      (cert : PrecommitCertificate) (active : e.coordinator = some co)
      (phase : co.phase = .committed) (final : co.finalCert = some cert)
      (proposal : e.proposal = some (block, proof)) :
      Outcome c e .tryHarvestCommitted (e.advanceHead c block cert proof.vrfOutput)
  | adopted (block : Block) (cert : PrecommitCertificate) (e' : BftEngine)
      (ok : e.adoptSyncedBlock c block cert = .ok e') :
      Outcome c e (.adoptSyncedBlock block cert) e'
  | restarted (round : UInt32) :
      Outcome c e (.fastForwardToRound round) { e with
        coordinator := some { RoundCoordinator.new (e.headNumber + 1) e.seed e.validatorSet with
          round := round } }
  | rotated (vs : ValidatorSet) (myIndex : UInt32) (idle : e.coordinator = none)
      (free : e.proposal = none) :
      Outcome c e (.rotateValidatorSet vs myIndex) { e with
        pendingPrevotes := [], pendingPrecommits := [], validatorSet := vs, myIndex := myIndex }
  | extended (txs : List Tx) :
      Outcome c e (.extendPendingTxs txs) { e with pendingTxs := e.pendingTxs ++ txs }
  | drained : Outcome c e .drainEvidence e.drainEvidence.1

lemma after_outcome (c : Crypto) (e : BftEngine) (x : Call) : Outcome c e x (e.after c x) := by
  cases x with
  | submitRemoteVote p v =>
    show Outcome c e _ (e.submitRemoteVote c p v).1
    have hce := submitRemoteVote_cases (c := c) p e v
    generalize e.submitRemoteVote c p v = out at hce ⊢
    cases hce with
    | stale | refused => exact .recorded p v
    | buffered _ her =>
      refine .buffered p v fun co co' hac hok => ?_
      obtain ⟨_, he, -⟩ := her co hac
      rw [he] at hok
      cases hok
    | taken co co' hac hok => exact .taken p v co co' hac hok
  | submitRemoteProposal block proof =>
    show Outcome c e _ (e.submitRemoteProposal c block proof).1
    have hce := submitRemoteProposal_cases (c := c) e block proof
    generalize e.submitRemoteProposal c block proof = out at hce ⊢
    cases hce with
    | refused => exact .refused block proof
    | accepted co co' hac hok => exact .accepted block proof co co' hac hok
  | castProposal ex =>
    show Outcome c e _ (e.castProposal c ex).1
    have hce := castProposal_cases c ex e
    generalize e.castProposal c ex = out at hce ⊢
    cases hce with
    | notLeader => exact .notProposed ex e.ensureCoordinator.pendingTxs
    | refused => exact .notProposed ex _
    | accepted co co' hac _ block _ hok => exact .proposed ex _ block _ co co' hac hok
  | castPrevote =>
    unfold after call
    cases hca : e.castPrevote c with
    | error => exact .kept _ (by simp) (by simp)
    | ok out =>
      obtain ⟨co, co', _, hac, -, -, hok, heq⟩ := BftGossip.castPrevote_ok hca
      exact heq ▸ .voted _ .prevote rfl out.2 co co' hac hok
  | castPrecommit =>
    unfold after call
    cases hca : e.castPrecommit c with
    | error => exact .kept _ (by simp) (by simp)
    | ok out =>
      obtain ⟨co, co', _, hac, -, -, hok, heq⟩ := BftGossip.castPrecommit_ok hca
      exact heq ▸ .voted _ .precommit rfl out.2 co co' hac hok
  | tickTimeout =>
    obtain ⟨co, hen⟩ := BftGossip.ensureCoordinator_frame e
    have hac : e.ensureCoordinator.coordinator = some co := by rw [hen]
    have htm := Outcome.timedOut (c := c) co hac
    show Outcome c e _ (e.tickTimeout c)
    rwa [tickTimeout, hac]
  | tryHarvestCommitted =>
    unfold after call
    cases ht : e.tryHarvestCommitted c with
    | none => exact .kept _ (by simp) (by simp)
    | some out =>
      obtain ⟨co, proof, cert, hac, hpp, hph, hfn, heq⟩ := BftGossip.tryHarvestCommitted_some ht
      exact heq ▸ .harvested co out.2 proof cert hac hph hfn hpp
  | adoptSyncedBlock block cert =>
    exact orKeep_cases (.kept _ (by simp) (by simp)) fun e' hok _ => .adopted block cert e' hok
  | fastForwardToRound round =>
    refine orKeep_cases (.kept _ (by simp) (by simp)) fun e' hok _ => ?_
    rw [fastForwardToRound_ok hok, RoundCoordinator.fireTimeouts_toNat]
    exact .restarted round
  | rotateValidatorSet vs i =>
    refine orKeep_cases (.kept _ (by simp) (by simp)) fun e' hok _ => ?_
    obtain ⟨hil, hfe, rfl⟩ := rotateValidatorSet_ok hok
    exact .rotated vs i hil hfe
  | extendPendingTxs txs => exact .extended txs
  | drainEvidence => exact .drained

lemma Outcome.changes {x : Call} (h : Outcome c e x e') : Changes c e e' := by
  have he := ensureCoordinator_changes (c := c) e
  cases h with
  | kept => exact .refl
  | recorded p v => exact .recordRemote p v
  | buffered p v => exact (Changes.recordRemote p v).trans (Changes.setPending p _)
  | taken p v co co' hac hok =>
    exact ((Changes.recordRemote p v).tail (.vote _ p v co co' hac hok)).trans
      (drainPendingVotes_changes _)
  | refused => exact he
  | accepted block proof co co' hac hok =>
    exact (he.tail (.accept _ co co' block proof hac hok)).trans
      (drainPendingVotes_changes _)
  | notProposed _ txs => exact he.trans (Changes.aside _ _ _ _ _ txs)
  | proposed _ txs block proof co co' hac hok =>
    exact (he.trans (Changes.aside _ _ _ _ _ txs)).tail (.accept _ co co' block proof hac hok)
  | voted _ p _ v co co' hac hok => exact .single (.vote e p v co co' hac hok)
  | timedOut co hac =>
    exact (he.tail (.timeout _ co hac)).trans (drainPendingVotes_changes _)
  | harvested co block proof cert hac hph hfn hpp =>
    exact .single (.harvest e co block proof cert hac hph hfn hpp)
  | adopted block cert _ hok => exact .single (.adopt e _ block cert hok)
  | restarted round =>
    rw [← RoundCoordinator.fireTimeouts_toNat]
    exact .single (.start e round.toNat)
  | rotated vs i hil hfe => exact .single (.rotate e vs i hil hfe)
  | extended txs => exact .aside e _ _ _ _ (e.pendingTxs ++ txs)
  | drained => exact .aside e _ [] _ _ _

lemma afterCalls_induction (hcg : ∀ e e', P e → Change c e e' → P e') (h : P e)
    (xs : List Call) : P (e.afterCalls c xs) := by
  induction xs generalizing e with
  | nil => exact h
  | cons x xs ih =>
    show P ((e.after c x).afterCalls c xs)
    apply ih
    have hcl := (after_outcome c e x).changes
    generalize e.after c x = e' at hcl ⊢
    induction hcl with
    | refl => exact h
    | tail _ hsp hkp => exact hcg _ _ hkp hsp

end Traversal

end BftEngine

/-! ## Coordinators and their proposal -/

namespace VoteTallier

variable {c : Crypto} {p : VotePhase} {t : VoteTallier} {v : Vote}

lemma tryCertify_blockHash {cert : QuorumCertificate} (h : t.tryCertify c = some cert) :
    cert.blockHash = t.blockHash := by
  unfold tryCertify at h
  split_ifs at h
  obtain ⟨_, -, rfl⟩ := Option.map_eq_some_iff.mp h
  rfl

structure Accepts (c : Crypto) (p : VotePhase) (t : VoteTallier) (v : Vote) : Prop where
  block : v.blockHash = t.blockHash
  height : v.height = t.height
  round : v.round = t.round
  fresh : v.validatorIndex ∉ t.received
  signed : v.verifies c p t.vs = true

lemma submit_isOk_iff : (∃ t' st, t.submit c p v = .ok (t', st)) ↔ t.Accepts c p v := by
  constructor
  · rintro ⟨t', st, h⟩
    obtain ⟨hb, hh, hr, hn, hv, -⟩ := submit_ok h
    exact ⟨hb, hh, hr, hn, hv⟩
  · rintro ⟨hb, hh, hr, hn, hv⟩
    unfold Vote.verifies at hv
    cases hg : t.vs.validators[v.validatorIndex.toNat]? with
    | none => simp [hg] at hv
    | some val =>
      rw [hg] at hv
      let t' := t.add v.validatorIndex v.blsSig val
      refine ⟨t', t'.state, ?_⟩
      rw [submit, if_neg (not_not.mpr hb), if_neg (not_not.mpr hh), if_neg (not_not.mpr hr)]
      simp [hg]
      rw [if_neg hn, if_pos (by rw [← hb, ← hh, ← hr]; exact hv)]

lemma tryCertify_of_quorum {t' : VoteTallier} (h : t.submit c p v = .ok (t', .reachedQuorum)) :
    ∃ cert, t'.tryCertify c = some cert := by
  obtain ⟨-, -, -, -, -, _, -, rfl, hst⟩ := submit_ok h
  unfold state at hst
  split_ifs at hst with hq
  unfold tryCertify Crypto.aggregateSignatures
  rw [if_neg (UInt64.not_lt.mpr hq), if_neg (by simp [add])]
  exact ⟨_, rfl⟩

end VoteTallier

open VoteTallier

def VotePhase.phase : VotePhase → Phase
  | .prevote => .prevoting
  | .precommit => .precommitting

namespace RoundCoordinator

variable {c : Crypto} {co co' : RoundCoordinator} {p : VotePhase} {v : Vote} {t : VoteTallier}
  {t' : VoteTallier} {st : TallyState}

def tally (co : RoundCoordinator) : VotePhase → Option VoteTallier
  | .prevote => co.prevoteTally
  | .precommit => co.precommitTally

structure TallyFor (co : RoundCoordinator) (t : VoteTallier) : Prop where
  block : co.proposedBlock = some t.blockHash
  height : t.height = co.height
  round : t.round = co.round
  vs : t.vs = co.vs

/-- Tallies and certificate are about the proposal. -/
structure Coherent (co : RoundCoordinator) : Prop where
  awaiting : co.phase = .awaitingProposal → co.proposedBlock = none
  voting : ∀ p : VotePhase, co.phase = p.phase → ∃ t, co.tally p = some t ∧ co.TallyFor t
  committed : co.phase = .committed →
    ∃ cert, co.finalCert = some cert ∧ co.proposedBlock = some cert.blockHash

lemma Coherent.of_awaiting (hph : co.phase = .awaitingProposal)
    (hbl : co.proposedBlock = none) : co.Coherent where
  awaiting _ := hbl
  voting p hp := by cases p <;> simp [hph, VotePhase.phase] at hp
  committed h := by simp [hph] at h

lemma Coherent.fireTimeout (h : co.Coherent) : co.fireTimeout.Coherent := by
  unfold RoundCoordinator.fireTimeout
  split_ifs
  · exact h
  · exact .of_awaiting rfl rfl

lemma Coherent.submitProposal {hash : H256} {proof : LeaderProof}
    (h : co.submitProposal c hash proof = .ok co') : co'.Coherent := by
  obtain rfl := submitProposal_eq h
  refine ⟨by simp [withProposal], fun p hp => ?_, by simp [withProposal]⟩
  cases p with
  | prevote => exact ⟨_, rfl, rfl, rfl, rfl, rfl⟩
  | precommit => simp [withProposal, VotePhase.phase] at hp

lemma TallyFor.submit (h : co.TallyFor t) (hs : t.submit c p v = .ok (t', st)) :
    co.TallyFor t' := by
  obtain ⟨-, -, -, -, -, _, -, rfl, -⟩ := submit_ok hs
  exact ⟨h.block, h.height, h.round, h.vs⟩

lemma Coherent.submitVote (h : co.Coherent) (hs : co.submitVote c p v = .ok co') :
    co'.Coherent := by
  cases p with
  | prevote =>
    obtain ⟨hph, t, t', st, ht, hsb, hcs⟩ := submitPrevote_ok hs
    obtain ⟨t₁, ht₁, hf⟩ := h.voting .prevote hph
    cases ht.symm.trans ht₁
    obtain ⟨hb, hh, hr, hv⟩ := hf.submit hsb
    rcases hcs with ⟨-, rfl⟩ | ⟨_, _, -, -, hbl, rfl⟩
    · refine ⟨by simp [hph], fun q hq => ?_, by simp [hph]⟩
      cases q with
      | prevote => exact ⟨t', rfl, hb, hh, hr, hv⟩
      | precommit => simp [hph, VotePhase.phase] at hq
    · refine ⟨by simp [withPolc], fun q hq => ?_, by simp [withPolc]⟩
      cases q with
      | prevote => simp [withPolc, VotePhase.phase] at hq
      | precommit => exact ⟨_, rfl, hbl, rfl, rfl, rfl⟩
  | precommit =>
    obtain ⟨hph, t, t', st, ht, hsb, hcs⟩ := submitPrecommit_ok hs
    obtain ⟨t₁, ht₁, hf⟩ := h.voting .precommit hph
    cases ht.symm.trans ht₁
    obtain ⟨hb, hh, hr, hv⟩ := hf.submit hsb
    rcases hcs with ⟨-, rfl⟩ | ⟨cert, -, hcr, rfl⟩
    · refine ⟨by simp [hph], fun q hq => ?_, by simp [hph]⟩
      cases q with
      | prevote => simp [hph, VotePhase.phase] at hq
      | precommit => exact ⟨t', rfl, hb, hh, hr, hv⟩
    · refine ⟨by simp, fun q hq => ?_, fun _ => ⟨cert, rfl, ?_⟩⟩
      · cases q <;> simp [VotePhase.phase] at hq
      · rw [tryCertify_blockHash hcr]
        exact hb

lemma submitVote_wrongPhase (h : co.phase ≠ p.phase) (v : Vote) :
    co.submitVote c p v = .error (.wrongPhase p.phase co.phase) := by
  cases p with
  | prevote | precommit => exact if_pos h

lemma submitVote_error {err : BftError} (hph : co.phase = p.phase) (ht : co.tally p = some t)
    (herr : t.submit c p v = .error err) : co.submitVote c p v = .error err := by
  cases p with
  | prevote =>
    have hph' : co.phase = .prevoting := hph
    have ht' : co.prevoteTally = some t := ht
    have herr' : PrevoteTallier.submit c t v = .error err := herr
    simp [submitVote, submitPrevote, hph', ht', herr']
  | precommit =>
    have hph' : co.phase = .precommitting := hph
    have ht' : co.precommitTally = some t := ht
    have herr' : PrecommitTallier.submit c t v = .error err := herr
    simp [submitVote, submitPrecommit, hph', ht', herr']

lemma Coherent.submitVote_ok (h : co.Coherent) (hph : co.phase = p.phase)
    (ht : co.tally p = some t) (hsub : t.submit c p v = .ok (t', st)) :
    ∃ co', co.submitVote c p v = .ok co' := by
  obtain ⟨t₁, ht₁, hf⟩ := h.voting p hph
  cases ht.symm.trans ht₁
  cases hvt : co.submitVote c p v with
  | ok co' => exact ⟨co', rfl⟩
  | error =>
    exfalso
    cases p with
    | prevote =>
      have hph' : co.phase = .prevoting := hph
      have ht' : co.prevoteTally = some t := ht
      have hsub' : PrevoteTallier.submit c t v = .ok (t', st) := hsub
      cases st with
      | accepted => simp [RoundCoordinator.submitVote, submitPrevote, hph', ht', hsub'] at hvt
      | reachedQuorum =>
        obtain ⟨polc, hpol⟩ := tryCertify_of_quorum hsub
        have hpol' : PrevoteTallier.tryFormPolc c t' = some polc := hpol
        simp [RoundCoordinator.submitVote, submitPrevote, hph', ht', hsub', hpol', hf.block] at hvt
    | precommit =>
      have hph' : co.phase = .precommitting := hph
      have ht' : co.precommitTally = some t := ht
      have hsub' : PrecommitTallier.submit c t v = .ok (t', st) := hsub
      cases st with
      | accepted =>
        simp [RoundCoordinator.submitVote, submitPrecommit, hph', ht', hsub'] at hvt
      | reachedQuorum =>
        obtain ⟨cert, hcr⟩ := tryCertify_of_quorum hsub
        have hcr' : PrecommitTallier.tryFinalize c t' = some cert := hcr
        simp [RoundCoordinator.submitVote, submitPrecommit, hph', ht', hsub', hcr'] at hvt

lemma submitVote_tally (hs : co.submitVote c p v = .ok co') :
    co.phase = p.phase ∧ ∃ t t' st, co.tally p = some t ∧ t.submit c p v = .ok (t', st) ∧
      co'.tally p = some t' ∧
      (p = .precommit → co'.phase ≠ .prevoting ∧ co'.prevoteTally = co.prevoteTally) := by
  cases p with
  | prevote =>
    obtain ⟨hph, t, t', st, ht, hsb, hcs⟩ := submitPrevote_ok hs
    refine ⟨hph, t, t', st, ht, hsb, ?_, nofun⟩
    rcases hcs with ⟨-, rfl⟩ | ⟨_, _, -, -, -, rfl⟩ <;> rfl
  | precommit =>
    obtain ⟨hph, t, t', st, ht, hsb, hcs⟩ := submitPrecommit_ok hs
    refine ⟨hph, t, t', st, ht, hsb, ?_⟩
    rcases hcs with ⟨-, rfl⟩ | ⟨_, -, -, rfl⟩ <;> simp [tally, hph]

lemma Coherent.submitVote_isOk_iff (h : co.Coherent) : (∃ co', co.submitVote c p v = .ok co') ↔
      co.phase = p.phase ∧ ∃ t, co.tally p = some t ∧ t.Accepts c p v := by
  constructor
  · rintro ⟨_, hok⟩
    obtain ⟨hph, t, t', st, ht, hsb, -⟩ := submitVote_tally hok
    exact ⟨hph, t, ht, submit_isOk_iff.mp ⟨t', st, hsb⟩⟩
  · rintro ⟨hph, t, ht, hae⟩
    obtain ⟨t', st, hsb⟩ := submit_isOk_iff.mpr hae
    exact h.submitVote_ok hph ht hsb

end RoundCoordinator

open RoundCoordinator

/-! ## Live engines -/

namespace BftEngine

variable {c : Crypto} {e e' : BftEngine}

/-- The coordinator is coherent and uses the engine's set, and the block
the engine keeps is the proposal voted on. -/
structure Live (c : Crypto) (e : BftEngine) : Prop where
  coordinator : ∀ co, e.coordinator = some co → co.vs = e.validatorSet ∧ co.Coherent
  matched : ∀ co block proof, e.coordinator = some co → e.proposal = some (block, proof) →
    co.phase ≠ .awaitingProposal → co.proposedBlock = some (block.hash c)
  present : ∀ co (p : VotePhase), e.coordinator = some co → co.phase = p.phase → e.proposal ≠ none

lemma Live.idle (hco : e.coordinator = none) : e.Live c := by
  constructor <;> simp [hco]

lemma Live.startRound (n : Nat) (height : UInt64) (seed : Arr 32) :
    { e with coordinator := some (RoundCoordinator.fireTimeouts n
      (.new height seed e.validatorSet)) }.Live c := by
  obtain ⟨r, heq, -⟩ := RoundCoordinator.fireTimeouts_new n height seed e.validatorSet 0
  have hsr : RoundCoordinator.fireTimeouts n (.new height seed e.validatorSet) =
    { RoundCoordinator.new height seed e.validatorSet with round := r } := heq
  rw [hsr]
  refine ⟨fun co hco => ?_, fun co block proof hco _ hph => ?_, fun co p hco hph => ?_⟩
  all_goals obtain rfl := Option.some.inj hco
  · exact ⟨rfl, .of_awaiting rfl rfl⟩
  · exact absurd rfl hph
  · cases p <;> cases hph

lemma Live.change (h : e.Live c) (hcg : Change c e e') : e'.Live c := by
  cases hcg with
  | aside => exact ⟨h.coordinator, h.matched, h.present⟩
  | start n => exact .startRound n _ _
  | accept co _ _ _ hac hok =>
    have hc := RoundCoordinator.Coherent.submitProposal hok
    obtain ⟨hvs, -⟩ := h.coordinator co hac
    obtain rfl := submitProposal_eq hok
    refine ⟨fun co₁ hco => ?_, fun co₁ b pf hco hpp _ => ?_, fun _ _ _ _ => by simp⟩
    all_goals obtain rfl := Option.some.inj hco
    · exact ⟨hvs, hc⟩
    · cases hpp
      rfl
  | vote p _ co _ hac hok =>
    obtain ⟨hvs, hc⟩ := h.coordinator co hac
    obtain ⟨-, -, hvs', -, hbl⟩ := submitVote_frame hok
    refine ⟨fun co₁ hco => ?_, fun co₁ b pf hco hpp _ => ?_, fun co₁ q hco _ => ?_⟩
    all_goals obtain rfl := Option.some.inj hco
    · exact ⟨hvs'.trans hvs, hc.submitVote hok⟩
    · rw [hbl]
      exact h.matched co b pf hac hpp (submitVote_phase hok)
    · exact h.present co p hac (submitVote_tally hok).1
  | timeout co hac =>
    obtain ⟨hvs, hc⟩ := h.coordinator co hac
    refine ⟨fun co₁ hco => ?_, by simp, fun co₁ q hco hq => ?_⟩
    all_goals obtain rfl := Option.some.inj hco
    · exact ⟨(fireTimeout_frame co).2.1.trans hvs, hc.fireTimeout⟩
    · -- a timeout leaves the height committed or waiting for a proposal
      unfold fireTimeout at hq
      split_ifs at hq with hph
      · rw [hph] at hq
        cases q <;> cases hq
      · cases q <;> cases hq
  | harvest => exact .idle rfl
  | adopt _ _ _ hok =>
    obtain rfl := BftGossip.adoptSyncedBlock_eq hok
    exact .idle rfl
  | rotate _ _ hil => exact .idle hil

lemma Live.changes (h : e.Live c) (hc : Changes c e e') : e'.Live c := by
  induction hc with
  | refl => exact h
  | tail _ hcg ih => exact ih.change hcg

lemma Live.afterCalls (h : e.Live c) (xs : List Call) : (e.afterCalls c xs).Live c :=
  afterCalls_induction (fun _ _ h hcg => h.change hcg) h xs

lemma Live.fresh (config : BftConfig) (head : Block) (seed : Arr 32) :
    (fresh c config head seed).Live c :=
  .idle rfl

/-- The coordinator is for the height after the head. -/
def AtNext (e : BftEngine) : Prop :=
  ∀ co, e.coordinator = some co → co.height = e.headNumber + 1

lemma AtNext.change (h : e.AtNext) (hcg : Change c e e') : e'.AtNext := by
  cases hcg with
  | aside => exact h
  | start n =>
    intro co hco
    cases hco
    exact (fireTimeouts_frame n _).1
  | accept co _ _ _ hac hok =>
    intro _ hco
    cases hco
    obtain rfl := submitProposal_eq hok
    exact h co hac
  | vote _ _ co _ hac hok =>
    intro _ hco
    cases hco
    exact (submitVote_frame hok).1.trans (h co hac)
  | timeout co hac =>
    intro _ hco
    cases hco
    exact (fireTimeout_frame co).1.trans (h co hac)
  | harvest =>
    intro co hco
    cases hco
  | adopt _ _ _ hok =>
    obtain rfl := BftGossip.adoptSyncedBlock_eq hok
    intro co hco
    cases hco
  | rotate =>
    intro co hco
    exact h co hco

lemma AtNext.afterCalls (h : e.AtNext) (xs : List Call) : (e.afterCalls c xs).AtNext :=
  afterCalls_induction (fun _ _ h hcg => h.change hcg) h xs

lemma AtNext.fresh (config : BftConfig) (head : Block) (seed : Arr 32) :
    (fresh c config head seed).AtNext :=
  fun co hco => by cases hco

end BftEngine

/-! ### A leader and a follower

Two members of `followerSet` at head 7: the seed elects validator 1, and
validator 0 alone has a quorum. -/

namespace BftEngine

def memberEngine (k : Nat) : BftEngine :=
  fresh .reference (referenceConfig followerSet k 5) (referenceHead followerConfig 7)
    (referenceConfig followerSet k 5).initialSeed

def leaderProposal : Block × LeaderProof :=
  ((memberEngine 1).castProposal .reference none).2.toOption.getD
    (referenceHead followerConfig 0, ⟨⟨Arr.zero 32, Arr.zero 64⟩, Arr.zero 32⟩)

def memberVote (p : VotePhase) (k : Nat) (block : H256) (round : UInt32) : Vote :=
  signVote .reference p (arrOfNat 32 (k + 1)) block 8 round (UInt32.ofNat k)

end BftEngine

/-! ## The driver makes calls -/

namespace BftGossip

open BftEngine

variable {c : Crypto} {g g' : BftGossip} {e e' : BftEngine} {msg : Option BftMessage}

def Answers (msg : Option BftMessage) (x : Call) : Prop :=
  ∀ p v, x = .submitRemoteVote p v → msg = some (.ofVote p v)

/-- `e'` is `e` after some calls that answer the message. -/
def Answered (c : Crypto) (msg : Option BftMessage) (e e' : BftEngine) : Prop :=
  ∃ xs, (∀ x ∈ xs, Answers msg x) ∧ e' = e.afterCalls c xs

lemma Answered.refl (msg : Option BftMessage) (e : BftEngine) : Answered c msg e e :=
  ⟨[], by simp, rfl⟩

lemma Answered.trans {e'' : BftEngine} (h : Answered c msg e e') (h' : Answered c msg e' e'') :
    Answered c msg e e'' := by
  obtain ⟨xs, hxs, rfl⟩ := h
  obtain ⟨ys, hys, rfl⟩ := h'
  exact ⟨xs ++ ys, List.forall_mem_append.mpr ⟨hxs, hys⟩, (afterCalls_append xs ys).symm⟩

lemma Answered.call (e : BftEngine) {x : Call} (h : Answers msg x) :
    Answered c msg e (e.after c x) :=
  ⟨[x], List.forall_mem_singleton.mpr h, rfl⟩

lemma Answered.keeps {P : BftEngine → Prop} (hcl : ∀ e x, Answers msg x → P e → P (e.after c x))
    (h : Answered c msg e e') (he : P e) : P e' := by
  obtain ⟨xs, hxs, rfl⟩ := h
  rw [afterCalls_eq_foldl]
  induction xs generalizing e with
  | nil => exact he
  | cons x _ ih => grind

section Driver

variable {msg : Option BftMessage}

lemma harvestLoop_answered (n : Nat) (g : BftGossip) :
    Answered c msg g.engine (g.harvestLoop c n).engine := by
  induction n generalizing g with
  | zero => exact .refl _ _
  | succ _ ih =>
    unfold harvestLoop
    cases ht : g.engine.tryHarvestCommitted c with
    | none => exact .refl _ _
    | some out =>
      have hcl : g.engine.after c .tryHarvestCommitted = out.1 := by
        simp [after, call, ht]
      have ha : Answered c msg g.engine (g.engine.after c .tryHarvestCommitted) :=
        .call _ (by simp [Answers])
      exact (hcl ▸ ha).trans (ih _)

lemma handleVote_answered (p : VotePhase) (v : Vote) :
    Answered c (some (.ofVote p v)) g.engine (g.handleVote c p v).1.engine := by
  unfold handleVote
  dsimp only
  split_ifs
  · rw [(requestCatchup_frame _).1]
    exact .refl _ _
  · show Answered c _ g.engine ((g.requestCatchup v.height).1.engine.submitRemoteVote c p v).1
    rw [(requestCatchup_frame _).1]
    have ha : Answers (some (.ofVote p v)) (.submitRemoteVote p v) := by
      rintro q w ⟨⟩
      rfl
    exact .call g.engine ha

lemma jumpRound_answered {height : UInt64} {round : UInt32}
    (h : jumpRound e height round = .ok e') : Answered c msg e e' := by
  unfold jumpRound at h
  split_ifs at h
  · have hcl : e.after c (.fastForwardToRound round) = e' := by
      simp [after, call, h, orKeep]
    exact hcl ▸ .call e (by simp [Answers])
  · exact Except.ok.inj h ▸ .refl _ e

lemma handleProposalMsg_answered (ex : Option Executor) (p : Proposal) :
    Answered c msg g.engine (g.handleProposalMsg c ex p).1.engine := by
  unfold handleProposalMsg
  cases hjm : jumpRound g.engine p.height p.round with
  | error => exact .refl _ _
  | ok e =>
    have hj : Answered c msg g.engine e := jumpRound_answered hjm
    cases decodeBlockBody p.bodyBytes with
    | error => exact hj
    | ok =>
      dsimp only
      split_ifs
      · exact hj
      · exact hj.trans
          (.call e (x := .submitRemoteProposal _ p.leaderProof) (by simp [Answers]))

lemma handleBlockResponse_answered (bytes : Bytes) (cert : PrecommitCertificate) :
    Answered c msg g.engine (g.handleBlockResponse c bytes cert).1.engine := by
  unfold handleBlockResponse
  cases Block.decode bytes with
  | error => exact .refl _ _
  | ok out =>
    dsimp only
    split_ifs
    · exact .refl _ _
    · have hcl : Answered c msg g.engine
          (g.engine.orKeep (g.engine.adoptSyncedBlock c out.1 cert)) :=
        .call g.engine (x := .adoptSyncedBlock out.1 cert) (by simp [Answers])
      cases had : g.engine.adoptSyncedBlock c out.1 cert with
      | error => exact .refl _ _
      | ok =>
        rw [had] at hcl
        exact hcl

lemma dispatchInbound_answered (ex : Option Executor) (msg : BftMessage) :
    Answered c (some msg) g.engine (g.dispatchInbound c ex msg).1.engine := by
  unfold dispatchInbound
  cases msg with
  | proposal p =>
    dsimp only
    split_ifs
    · rw [(requestCatchup_frame _).1]
      exact .refl _ _
    · rw [← (requestCatchup_frame p.height).1]
      exact handleProposalMsg_answered ex p
  | prevote v => exact handleVote_answered .prevote v
  | precommit v => exact handleVote_answered .precommit v
  | blockRequest =>
    dsimp only
    split <;> exact .refl _ _
  | blockResponse bytes cert => exact handleBlockResponse_answered bytes cert

lemma drivePhase_answered (ex : Option Executor) (h : UInt64) (r : UInt32) (phase : Phase) :
    Answered c msg g.engine (g.drivePhase c ex h r phase).engine := by
  have hcl {x : Call} (hx : Answers msg x) : Answered c msg g.engine (g.engine.after c x) :=
    .call _ hx
  unfold drivePhase
  cases phase with
  | awaitingProposal =>
    simp [retransmit_frame]
    unfold maybePropose
    split_ifs
    · exact .refl _ _
    · exact .refl _ _
    · dsimp only
      split <;> exact hcl (x := .castProposal ex) (by simp [Answers])
  | prevoting =>
    simp [retransmit_frame]
    unfold maybePrevote
    split_ifs
    · exact .refl _ _
    · cases hca : g.engine.castPrevote c with
      | error => exact .refl _ _
      | ok =>
        have hp := hcl (x := .castPrevote) (by simp [Answers])
        simp [after, call, hca] at hp
        exact hp
  | precommitting =>
    simp [retransmit_frame]
    unfold maybePrecommit
    split_ifs
    · exact .refl _ _
    · cases hca : g.engine.castPrecommit c with
      | error => exact .refl _ _
      | ok =>
        have hp := hcl (x := .castPrecommit) (by simp [Answers])
        simp [after, call, hca] at hp
        exact hp
  | committed => exact .refl _ _

end Driver

/-- The calls a micro-step makes on the engine show it no vote but the one
of the message. -/
lemma microStep_answered (c : Crypto) (g : BftGossip) (m : Micro) :
    Answered c (m.message c) g.engine (g.microStep c m).engine := by
  cases m with
  | recv ex bytes =>
    show Answered c (BftMessage.decode c bytes).toOption g.engine (g.recv c ex bytes).engine
    unfold recv
    cases BftMessage.decode c bytes with
    | error => exact harvestLoop_answered 2 g
    | ok msg => exact (dispatchInbound_answered ex msg).trans (harvestLoop_answered 2 _)
  | drive ex =>
    show Answered c none g.engine (g.drive c ex).engine
    refine Answered.trans ?_ (harvestLoop_answered 2 _)
    split
    · exact drivePhase_answered ex _ _ _
    · split_ifs
      · unfold bootstrapPropose
        dsimp only
        split <;> exact .call g.engine (x := .castProposal ex) (by simp [Answers])
      · exact .refl _ _
  | timeout => exact .call g.engine (x := .tickTimeout) (by simp [Answers])
  | stageTxs txs => exact .call g.engine (x := .extendPendingTxs txs) (by simp [Answers])

end BftGossip

end Aii.Bft
