/-
Aii.Bft.Decision — a decision and the calls before it is harvested.

Two calls touch a decision: `tick_timeout` clears the proposal,
`fast_forward_to_round` the coordinator.
-/
import Aii.Bft.VoteBuffers

namespace Aii.Bft

open Common Chain Option RoundCoordinator

namespace BftEngine

variable {c : Crypto} {e : BftEngine} {co : RoundCoordinator} {block : Block} {x : Call}
  {e' : BftEngine}

/-- What `try_harvest_committed` returns. -/
def harvested (c : Crypto) (e : BftEngine) : Option Block :=
  (e.tryHarvestCommitted c).map Prod.snd

lemma harvested_eq_some_iff : e.harvested c = some block ↔
    ∃ co proof cert, e.coordinator = some co ∧ e.proposal = some (block, proof) ∧
      co.phase = .committed ∧ co.finalCert = some cert := by
  constructor
  · intro h
    obtain ⟨⟨e', b⟩, ht, rfl⟩ := map_eq_some_iff.mp h
    obtain ⟨co, proof, cert, hac, hpp, hph, hfn, -⟩ := BftGossip.tryHarvestCommitted_some ht
    exact ⟨co, proof, cert, hac, hpp, hph, hfn⟩
  · rintro ⟨co, proof, cert, hac, hpp, hph, hfn⟩
    simp [harvested, tryHarvestCommitted, hac, hpp, hph, hfn]

lemma Outcome.proposal_of_decided (h : Outcome c e x e') (hlv : e.Live c)
    (hbf : ∀ co, e.coordinator = some co → co.phase ≠ .committed) (hac : e'.coordinator = some co)
    (hph : co.phase = .committed) : e'.proposal ≠ none := by
  have hsm : e.coordinator ≠ some co := fun h => hbf co h hph
  have he : ∀ co, e.ensureCoordinator.coordinator = some co → co.phase ≠ .committed := by
    unfold ensureCoordinator
    cases hco : e.coordinator with
    | none =>
      intro co₀ h
      cases h
      exact Phase.noConfusion
    | some => exact hbf
  cases h with
  | kept | recorded | extended | drained => exact absurd hac hsm
  | buffered =>
    rw [setPending_coordinator] at hac
    exact absurd hac hsm
  | taken p _ co₀ _ hac₀ hok =>
    rw [drainPendingVotes_proposal]
    exact hlv.present co₀ p hac₀ (submitVote_tally hok).1
  | refused | notProposed => exact absurd hph (he co hac)
  | accepted | proposed => simp
  | voted _ p _ _ co₀ _ hac₀ hok =>
    exact hlv.present co₀ p hac₀ (submitVote_tally hok).1
  | timedOut co₀ hac₀ =>
    -- before the commit a timeout leaves a coordinator that takes no votes
    obtain ⟨co₁, hco₁, hvd⟩ := (drainPendingVotes_frame
      { e.ensureCoordinator with coordinator := some co₀.fireTimeout, proposal := none }).active _
      rfl
    cases hco₁.symm.trans hac
    have hil : co₀.fireTimeout.phase = .awaitingProposal := by
      rw [fireTimeout, if_neg (he co₀ hac₀)]
    rw [hvd.eq_of_idle fun p => by rw [hil]; cases p <;> exact Phase.noConfusion, hil] at hph
    cases hph
  | harvested => cases hac
  | adopted _ _ _ hok =>
    obtain rfl := BftGossip.adoptSyncedBlock_eq hok
    cases hac
  | restarted =>
    cases hac
    cases hph
  | rotated => exact absurd hac hsm

/-- Nothing is harvested and no block of a peer is adopted. -/
def Between (c : Crypto) (e : BftEngine) : Call → Prop
  | .tryHarvestCommitted => False
  | .adoptSyncedBlock block cert => ∀ e', e.adoptSyncedBlock c block cert ≠ .ok e'
  | _ => True

/-- Neither `tick_timeout` nor `fast_forward_to_round`. -/
def Call.staysInRound : Call → Bool
  | .tickTimeout | .fastForwardToRound _ => false
  | _ => true

lemma refuses_votes (hph : co.phase = .committed) (p : VotePhase) (v : Vote)
    (co' : RoundCoordinator) : co.submitVote c p v ≠ .ok co' := by
  intro hok
  have hoe := (submitVote_tally hok).1
  rw [hph] at hoe
  cases p <;> cases hoe

lemma refuses_proposals (hph : co.phase = .committed) (hash : H256) (proof : LeaderProof)
    (co' : RoundCoordinator) : co.submitProposal c hash proof ≠ .ok co' := by
  intro hok
  exact absurd (hph.symm.trans (submitProposal_ok hok).1) Phase.noConfusion

lemma Outcome.committed (h : Outcome c e x e') (hac : e.coordinator = some co)
    (hph : co.phase = .committed) (hb : Between c e x) (hs : x.staysInRound = true) :
    e'.coordinator = e.coordinator ∧ e'.proposal = e.proposal := by
  have he := ensureCoordinator_active hac
  have ht : ∀ {co₀}, e.coordinator = some co₀ → co₀.phase = .committed := by grind
  cases h with
  | kept | recorded | extended | drained | rotated => exact ⟨rfl, rfl⟩
  | buffered => exact ⟨setPending_coordinator .., setPending_proposal ..⟩
  | taken p v _ co' hac₀ hok => exact absurd hok (refuses_votes (ht hac₀) p v co')
  | refused | notProposed =>
    rw [he]
    exact ⟨rfl, rfl⟩
  | accepted _ proof _ co' hac₀ hok | proposed _ _ _ proof _ co' hac₀ hok =>
    exact absurd hok (refuses_proposals (ht (he ▸ hac₀)) _ proof co')
  | voted _ p _ v _ co' hac₀ hok =>
    exact absurd hok (refuses_votes (ht hac₀) p v co')
  | timedOut | restarted => cases hs
  | harvested => cases hb
  | adopted _ _ e' hok => exact absurd hok (hb e')

lemma harvested_tickTimeout : (e.after c .tickTimeout).harvested c ≠ some block := by
  intro h
  obtain ⟨co, proof, cert, -, hpp, -⟩ := harvested_eq_some_iff.mp h
  change (e.tickTimeout c).proposal = some (block, proof) at hpp
  rw [tickTimeout, drainPendingVotes_proposal] at hpp
  cases hpp

lemma harvested_fastForwardToRound (hnx : e.AtNext) (round : UInt32) :
    (e.after c (.fastForwardToRound round)).harvested c ≠ some block := by
  intro h
  obtain ⟨co, proof, cert, hac, -, hph, -⟩ := harvested_eq_some_iff.mp h
  have hok : e.fastForwardToRound round = .ok { e with coordinator := some (fireTimeouts round.toNat
        (.new (e.headNumber + 1) e.seed e.validatorSet)) } := by
    unfold fastForwardToRound
    cases hco : e.coordinator with
    | none => simp
    | some co₀ => simp [hnx co₀ hco]
  simp only [after, call, hok, orKeep, fireTimeouts_toNat] at hac
  cases hac
  cases hph

lemma harvested_after_iff (hnx : e.AtNext) (h : e.harvested c = some block)
    (hb : Between c e x) : (e.after c x).harvested c = some block ↔ x.staysInRound = true := by
  constructor
  · intro haf
    by_contra hl
    cases x with
    | tickTimeout => exact harvested_tickTimeout haf
    | fastForwardToRound round => exact harvested_fastForwardToRound hnx round haf
    | _ => exact hl rfl
  · intro hs
    obtain ⟨co, proof, cert, hac, hpp, hph, hfn⟩ := harvested_eq_some_iff.mp h
    obtain ⟨hco, hpr⟩ := (after_outcome c e x).committed hac hph hb hs
    exact harvested_eq_some_iff.mpr
      ⟨co, proof, cert, hco.trans hac, hpr.trans hpp, hph, hfn⟩

/-- A decided block is what a later harvest returns exactly if no timeout or
fast-forward comes in between. -/
theorem decision_kept_iff (config : BftConfig) (head : Block) (seed : Arr 32) (pre : List Call)
    (he : e = (fresh c config head seed).afterCalls c pre)
    (hbefore : ∀ co, e.coordinator = some co → co.phase ≠ .committed) (x : Call)
    (hactive : (e.after c x).coordinator = some co) (hphase : co.phase = .committed)
    (mid : List Call) (hmid : Along (after c) (Between c) (e.after c x) mid) :
    ∃ cert block, co.finalCert = some cert ∧ block.hash c = cert.blockHash ∧
      ((∀ n, ((e.after c x).afterCalls c (mid.take n)).harvested c = some block) ↔
        ∀ y ∈ mid, y.staysInRound = true) := by
  have hlv := he ▸ (Live.fresh config head seed).afterCalls pre
  have hnx := he ▸ (AtNext.fresh config head seed).afterCalls pre
  have hlv' := hlv.afterCalls [x]
  have hnx' : (e.after c x).AtNext := hnx.afterCalls [x]
  obtain ⟨⟨block, proof⟩, hpp⟩ := ne_none_iff_exists'.mp
    ((after_outcome c e x).proposal_of_decided hlv hbefore hactive hphase)
  obtain ⟨cert, hfn, hbl⟩ := (hlv'.coordinator co hactive).2.committed hphase
  have hm := hlv'.matched co block proof hactive hpp (by simp [hphase])
  refine ⟨cert, block, hfn, some.inj (hm.symm.trans hbl), ?_⟩
  have hg : Along (after c) (fun e x => e.AtNext ∧ Between c e x) (e.after c x) mid :=
    .and (.of_invariant (fun e y h => h.afterCalls [y]) hnx') hmid
  simp only [afterCalls_eq_foldl]
  exact (always_iff_along (P := fun e => e.harvested c = some block)
    (fun e y hy h => harvested_after_iff hy.1 h hy.2) hg
    (harvested_eq_some_iff.mpr ⟨co, proof, cert, hactive, hpp, hphase, hfn⟩)).trans
    along_iff_forall

def decidingFollower : BftEngine :=
  (memberEngine 0).afterCalls .reference
    [.submitRemoteProposal leaderProposal.1 leaderProposal.2, .castPrevote]

theorem decision_kept_follower : ∃ co cert block,
      (decidingFollower.after .reference .castPrecommit).coordinator = some co ∧
      co.finalCert = some cert ∧ block.hash .reference = cert.blockHash ∧
      ∀ n, ((decidingFollower.after .reference .castPrecommit).afterCalls .reference
        ([.submitRemoteVote .precommit
            (memberVote .precommit 1 (leaderProposal.1.hash .reference) 0),
          .castProposal none].take n)).harvested .reference = some block := by
  obtain ⟨co, hac, hph⟩ : ∃ co ∈ (decidingFollower.after .reference
      .castPrecommit).coordinator, co.phase = .committed := by decide +kernel
  have hbf : ∀ co ∈ decidingFollower.coordinator, co.phase ≠ .committed := by decide +kernel
  obtain ⟨cert, block, hfn, hbl, hi⟩ := decision_kept_iff
    (referenceConfig followerSet 0 5) (referenceHead followerConfig 7)
    (referenceConfig followerSet 0 5).initialSeed
    [.submitRemoteProposal leaderProposal.1 leaderProposal.2, .castPrevote]
    (show decidingFollower = _ from rfl) hbf .castPrecommit hac hph
    [.submitRemoteVote .precommit
      (memberVote .precommit 1 (leaderProposal.1.hash .reference) 0), .castProposal none]
    ⟨trivial, trivial, trivial⟩
  exact ⟨co, cert, block, hac, hfn, hbl, hi.mpr (by simp [Call.staysInRound])⟩

/-- A timeout or a fast-forward between the decision and its harvest:
nothing to harvest. -/
theorem decision_lost :
    ((decidingFollower.after .reference .castPrecommit).harvested .reference).map
        (·.hash .reference) = some (leaderProposal.1.hash .reference) ∧
      (decidingFollower.afterCalls .reference [.castPrecommit, .tickTimeout]).harvested
        .reference = none ∧ (decidingFollower.afterCalls .reference
        [.castPrecommit, .fastForwardToRound 0]).harvested .reference = none := by
  decide +kernel

end BftEngine

end Aii.Bft
