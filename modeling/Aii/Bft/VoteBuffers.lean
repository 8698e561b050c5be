/-
Aii.Bft.VoteBuffers — votes that came too early.

A vote the coordinator can not take yet is buffered, and
`drain_pending_votes` tries it again.
-/
import Aii.Bft.Calls

namespace Aii.Bft

open Common Chain List Option BftGossip VoteTallier Except VotePhase UInt64

namespace RoundCoordinator

variable {c : Crypto} {co co' : RoundCoordinator} {p : VotePhase} {v : Vote}

abbrev Voted (c : Crypto) : RoundCoordinator → RoundCoordinator → Prop :=
  Relation.ReflTransGen fun co co' => ∃ p v, co.submitVote c p v = .ok co'

lemma Voted.frame (h : Voted c co co') :
    co'.height = co.height ∧ co'.round = co.round ∧ co'.vs = co.vs ∧ co'.seed = co.seed ∧
      co'.proposedBlock = co.proposedBlock := by
  induction h with
  | refl => exact ⟨rfl, rfl, rfl, rfl, rfl⟩
  | tail _ hsp ih =>
    obtain ⟨p, v, hok⟩ := hsp
    obtain ⟨hh, hr, hv, hs, hb⟩ := submitVote_frame hok
    exact ⟨hh.trans ih.1, hr.trans ih.2.1, hv.trans ih.2.2.1, hs.trans ih.2.2.2.1,
      hb.trans ih.2.2.2.2⟩

lemma Voted.coherent (h : Voted c co co') (hco : co.Coherent) : co'.Coherent := by
  induction h with
  | refl => exact hco
  | tail _ hsp ih =>
    obtain ⟨p, v, hok⟩ := hsp
    exact ih.submitVote hok

lemma Voted.eq_of_idle (h : Voted c co co') (hil : ∀ p : VotePhase, co.phase ≠ p.phase) :
    co' = co := by
  induction h with
  | refl => rfl
  | tail _ hsp ih =>
    obtain ⟨p, v, hok⟩ := hsp
    rw [ih] at hok
    exact absurd (submitVote_tally hok).1 (hil p)

end RoundCoordinator

/-! ## The drain loop -/

namespace BftEngine

open RoundCoordinator

variable {c : Crypto} {e : BftEngine} {co : RoundCoordinator} {p : VotePhase} {v : Vote}
  {co' : RoundCoordinator} {e' : BftEngine} {w : Vote} {x : Call} {q : VotePhase}
  {votes : List Vote} {proof : LeaderProof} {xs : List Call}

lemma drainPass_cons_ok (h : co.submitVote c p v = .ok co') (votes : List Vote) :
    drainPass c p co (v :: votes) =
      ((drainPass c p co' votes).1, (drainPass c p co' votes).2.1, true) := by
  rw [drainPass, h]

lemma drainPass_cons_error {err : BftError} (h : co.submitVote c p v = .error err)
    (votes : List Vote) :
    drainPass c p co (v :: votes) = ((drainPass c p co votes).1,
        if isEarly err then v :: (drainPass c p co votes).2.1 else (drainPass c p co votes).2.1,
        (drainPass c p co votes).2.2) := by
  rw [drainPass, h]

lemma drainPass_voted (p : VotePhase) (votes : List Vote) (co : RoundCoordinator) :
    Voted c co (drainPass c p co votes).1 := by
  induction votes generalizing co with
  | nil => exact .refl
  | cons v _ ih =>
    cases hv : co.submitVote c p v with
    | ok co' =>
      rw [drainPass_cons_ok hv]
      exact .head ⟨p, v, hv⟩ (ih co')
    | error =>
      rw [drainPass_cons_error hv]
      exact ih co

lemma drainPass_idle (h : (drainPass c p co votes).2.2 = false) :
    (drainPass c p co votes).1 = co ∧ ∀ v ∈ (drainPass c p co votes).2.1,
      ∃ err, co.submitVote c p v = .error err ∧ isEarly err = true := by
  induction votes with
  | nil => exact ⟨rfl, by simp [drainPass]⟩
  | cons v _ ih =>
    cases hv : co.submitVote c p v with
    | ok =>
      rw [drainPass_cons_ok hv] at h
      cases h
    | error err =>
      rw [drainPass_cons_error hv] at h ⊢
      obtain ⟨hco, ha⟩ := ih h
      refine ⟨hco, ?_⟩
      dsimp only
      split_ifs with her
      · exact forall_mem_cons.mpr ⟨⟨err, hv, her⟩, ha⟩
      · exact ha

lemma drainPass_length (votes : List Vote) (co : RoundCoordinator) :
    (drainPass c p co votes).2.1.length + (drainPass c p co votes).2.2.toNat ≤ votes.length := by
  induction votes generalizing co with
  | nil => simp [drainPass]
  | cons v _ ih =>
    rw [length_cons]
    cases hv : co.submitVote c p v with
    | ok co' =>
      have hrs := ih co'
      rw [drainPass_cons_ok hv, Bool.toNat_true]
      dsimp only
      omega
    | error =>
      have hrs := ih co
      rw [drainPass_cons_error hv]
      dsimp only
      split_ifs
      · rw [length_cons]
        omega
      · omega

/-- No buffered vote would be taken. -/
def Drained (c : Crypto) (e : BftEngine) : Prop :=
  ∀ p, ∀ v ∈ e.pending p, ∀ co co', e.coordinator = some co → co.submitVote c p v ≠ .ok co'

lemma drainOnce_some (hco : e.coordinator = some co) :
    drainOnce c e = let prev := drainPass c .prevote co e.dropStale.pendingPrevotes
      let pc := drainPass c .precommit prev.1 e.dropStale.pendingPrecommits
      ({ e.dropStale with
          coordinator := some pc.1, pendingPrevotes := prev.2.1, pendingPrecommits := pc.2.1 },
        prev.2.2 || pc.2.2) := by
  have hco' : e.dropStale.coordinator = some co := hco
  unfold drainOnce
  simp [hco']

lemma drainOnce_none (hco : e.coordinator = none) : drainOnce c e = (e.dropStale, false) := by
  have hco' : e.dropStale.coordinator = none := hco
  unfold drainOnce
  simp [hco']

def buffered (e : BftEngine) : Nat := e.pendingPrevotes.length + e.pendingPrecommits.length

lemma drainOnce_buffered (e : BftEngine) :
    (drainOnce c e).1.buffered + (drainOnce c e).2.toNat ≤ e.buffered := by
  have hprev : e.dropStale.pendingPrevotes.length ≤ e.pendingPrevotes.length := length_filter_le _ _
  have hpc : e.dropStale.pendingPrecommits.length ≤ e.pendingPrecommits.length :=
    length_filter_le _ _
  cases hco : e.coordinator with
  | none =>
    rw [drainOnce_none hco]
    simp [buffered, Bool.toNat_false]
    omega
  | some co =>
    rw [drainOnce_some hco]
    dsimp only
    have hpas := drainPass_length (c := c) (p := .prevote) e.dropStale.pendingPrevotes co
    generalize drainPass c .prevote co e.dropStale.pendingPrevotes = prev at hpas ⊢
    have hpas' := drainPass_length (c := c) (p := .precommit) e.dropStale.pendingPrecommits prev.1
    generalize drainPass c .precommit prev.1 e.dropStale.pendingPrecommits = pc at hpas' ⊢
    have hor : (prev.2.2 || pc.2.2).toNat ≤ prev.2.2.toNat + pc.2.2.toNat := by
      cases prev.2.2 <;> cases pc.2.2 <;> simp
    dsimp [buffered]
    omega

lemma drainOnce_early (h : (drainOnce c e).2 = false)
    (hco : (drainOnce c e).1.coordinator = some co) (hv : v ∈ (drainOnce c e).1.pending p) :
    ∃ err, co.submitVote c p v = .error err ∧ isEarly err = true := by
  cases hac : e.coordinator with
  | none =>
    rw [drainOnce_none hac] at hco
    cases hac.symm.trans hco
  | some =>
    rw [drainOnce_some hac] at h hco hv
    dsimp only at h hco hv
    obtain ⟨hprev, hpc⟩ := Bool.or_eq_false_iff.mp h
    obtain ⟨hsm, hp⟩ := drainPass_idle hprev
    rw [hsm] at hpc hco hv
    obtain ⟨hsm', hpa⟩ := drainPass_idle hpc
    rw [hsm'] at hco
    cases hco
    cases p with
    | prevote => exact hp v hv
    | precommit => exact hpa v hv

structure DrainFrame (c : Crypto) (e e' : BftEngine) : Prop where
  same : ∃ co? prevotes precommits, e' = { e with
    coordinator := co?, pendingPrevotes := prevotes, pendingPrecommits := precommits }
  idle : e.coordinator = none → e'.coordinator = none
  active : ∀ co, e.coordinator = some co → ∃ co', e'.coordinator = some co' ∧ Voted c co co'

lemma DrainFrame.refl (e : BftEngine) : DrainFrame c e e :=
  ⟨⟨_, _, _, rfl⟩, fun h => h, fun co h => ⟨co, h, .refl⟩⟩

lemma DrainFrame.trans {e e'' : BftEngine} (h : DrainFrame c e e') (h' : DrainFrame c e' e'') :
    DrainFrame c e e'' := by
  refine ⟨?_, fun hnn => h'.idle (h.idle hnn), fun co hco => ?_⟩
  · obtain ⟨co₁, _, _, rfl⟩ := h.same
    obtain ⟨co₂, prev₂, pc₂, rfl⟩ := h'.same
    exact ⟨co₂, prev₂, pc₂, rfl⟩
  · obtain ⟨co₁, hco₁, hvd₁⟩ := h.active co hco
    obtain ⟨co₂, hco₂, hvd₂⟩ := h'.active co₁ hco₁
    exact ⟨co₂, hco₂, hvd₁.trans hvd₂⟩

lemma drainOnce_frame (e : BftEngine) : DrainFrame c e (drainOnce c e).1 := by
  cases hco : e.coordinator with
  | none =>
    rw [drainOnce_none hco]
    exact ⟨⟨_, _, _, rfl⟩, fun _ => hco, fun co h => absurd (hco.symm.trans h)
      (some_ne_none co).symm⟩
  | some co =>
    rw [drainOnce_some hco]
    refine ⟨⟨_, _, _, rfl⟩, fun h => absurd (hco.symm.trans h) (some_ne_none co), ?_⟩
    intro _ h
    cases hco.symm.trans h
    exact ⟨_, rfl, (drainPass_voted .prevote _ co).trans (drainPass_voted .precommit _ _)⟩

lemma drainLoop_frame (n : Nat) (e : BftEngine) : DrainFrame c e (drainLoop c n e) := by
  induction n generalizing e with
  | zero => exact .refl e
  | succ _ ih =>
    unfold drainLoop
    dsimp only
    split_ifs
    · exact (drainOnce_frame e).trans (ih _)
    · exact drainOnce_frame e

lemma drainPendingVotes_frame (e : BftEngine) : DrainFrame c e (drainPendingVotes c e) :=
  drainLoop_frame _ e

/-- Between `co` and `co'` the vote was taken, or refused for good. -/
def Settled (c : Crypto) (p : VotePhase) (co co' : RoundCoordinator) (v : Vote) : Prop :=
  ∃ co₁ co₂, Voted c co co₁ ∧ Voted c co₂ co' ∧ (co₁.submitVote c p v = .ok co₂ ∨
      co₁ = co₂ ∧ ∃ err, co₁.submitVote c p v = .error err ∧ isEarly err = false)

/-- The vote is stale, or was settled. -/
def Dropped (c : Crypto) (p : VotePhase) (e e' : BftEngine) (v : Vote) : Prop :=
  v.height ≤ e.headNumber ∨
    ∃ co co', e.coordinator = some co ∧ e'.coordinator = some co' ∧ Settled c p co co' v

lemma Settled.between {co₀ co'' : RoundCoordinator} (h : Settled c p co co' v)
    (hco : Voted c co₀ co) (hco' : Voted c co' co'') : Settled c p co₀ co'' v := by
  obtain ⟨co₁, co₂, h₁, h₂, hv⟩ := h
  exact ⟨co₁, co₂, hco.trans h₁, h₂.trans hco', hv⟩

/-- A vote that occurs less often after a pass was settled by it. -/
lemma drainPass_count (votes : List Vote) (co : RoundCoordinator)
    (h : (drainPass c p co votes).2.1.count v < votes.count v) :
    Settled c p co (drainPass c p co votes).1 v := by
  induction votes generalizing co with
  | nil => cases h
  | cons w votes ih =>
    cases hw : co.submitVote c p w with
    | ok co₂ =>
      rw [drainPass_cons_ok hw] at h ⊢
      by_cases heq : w = v
      · exact ⟨co, co₂, .refl, drainPass_voted p votes co₂, .inl (heq ▸ hw)⟩
      · rw [count_cons_of_ne heq] at h
        exact (ih co₂ h).between (.single ⟨p, w, hw⟩) .refl
    | error err =>
      rw [drainPass_cons_error hw] at h ⊢
      dsimp only at h ⊢
      split_ifs at h with he
      · exact ih co (by simpa [count_cons] using h)
      · by_cases heq : w = v
        · exact ⟨co, co, .refl, drainPass_voted p votes co, .inr
            ⟨rfl, err, heq ▸ hw, eq_false_of_ne_true he⟩⟩
        · rw [count_cons_of_ne heq] at h
          exact ih co h

lemma dropStale_pending (p : VotePhase) (e : BftEngine) :
    e.dropStale.pending p = (e.pending p).filter (e.headNumber < ·.height) := by
  cases p <;> rfl

lemma drainOnce_ordered (p : VotePhase) (e : BftEngine) :
    ((drainOnce c e).1.pending p).Sublist (e.dropStale.pending p) := by
  cases hco : e.coordinator with
  | none =>
    rw [drainOnce_none hco]
  | some co =>
    rw [drainOnce_some hco]
    cases p <;> exact drainPass_sublist _ _ _

lemma drainOnce_dropped (h : ((drainOnce c e).1.pending p).count v < (e.pending p).count v) :
    Dropped c p e (drainOnce c e).1 v := by
  refine or_iff_not_imp_left.mpr fun hv => ?_
  have hst : (e.dropStale.pending p).count v = (e.pending p).count v := by
    rw [dropStale_pending, count_filter (by simpa using hv)]
  rw [← hst] at h
  cases hco : e.coordinator with
  | none =>
    rw [drainOnce_none hco] at h
    exact absurd h (Nat.lt_irrefl _)
  | some co =>
    rw [drainOnce_some hco] at h ⊢
    refine ⟨co, _, rfl, rfl, ?_⟩
    cases p with
    | prevote => exact (drainPass_count _ co h).between .refl (drainPass_voted _ _ _)
    | precommit => exact (drainPass_count _ _ h).between (drainPass_voted _ _ _) .refl

lemma Dropped.between {e₁ e'' : BftEngine} (h : Dropped c p e₁ e' v) (hf : DrainFrame c e e₁)
    (hf' : DrainFrame c e' e'') : Dropped c p e e'' v := by
  obtain ⟨_, _, _, rfl⟩ := hf.same
  refine h.imp_right ?_
  rintro ⟨co₁, co', hco₁, hco', h⟩
  obtain ⟨co'', hco'', hvd'⟩ := hf'.active co' hco'
  cases hco : e.coordinator with
  | none => cases hco₁.symm.trans (hf.idle hco)
  | some co =>
    obtain ⟨_, hco₂, hvd⟩ := hf.active co hco
    cases hco₁.symm.trans hco₂
    exact ⟨co, co'', rfl, hco'', h.between hvd hvd'⟩

def drainStep (c : Crypto) (e : BftEngine) : BftEngine := (drainOnce c e).1

/-- The coordinator, if there is one, can not take the vote yet. -/
def tooEarly (c : Crypto) (p : VotePhase) (co? : Option RoundCoordinator) (v : Vote) : Bool :=
  co?.all fun co =>
    match co.submitVote c p v with
    | .ok _ => false
    | .error err => isEarly err

def offer (c : Crypto) (p : VotePhase) (co? : Option RoundCoordinator) (v : Vote) :
    Option RoundCoordinator :=
  co?.map fun co => (co.submitVote c p v).toOption.getD co

/-- The votes in their order, each with the coordinator it is offered to. -/
def turns (c : Crypto) (p : VotePhase) :
    Option RoundCoordinator → List Vote → List (Option RoundCoordinator × Vote)
  | _, [] => []
  | co?, v :: votes => (co?, v) :: turns c p (offer c p co? v) votes

/-- The turns of one pass: PRE-VOTEs first, and no stale vote. -/
def passTurns (c : Crypto) (e : BftEngine) : VotePhase → List (Option RoundCoordinator × Vote)
  | .prevote => turns c .prevote e.coordinator e.dropStale.pendingPrevotes
  | .precommit =>
    turns c .precommit (e.dropStale.pendingPrevotes.foldl (offer c .prevote) e.coordinator)
      e.dropStale.pendingPrecommits

def leftBy (c : Crypto) (p : VotePhase) (offers : List (Option RoundCoordinator × Vote)) :
    List Vote :=
  (offers.filter fun t => tooEarly c p t.1 t.2).map Prod.snd

lemma leftBy_turns_none (votes : List Vote) : leftBy c p (turns c p none votes) = votes := by
  induction votes with
  | nil => rfl
  | cons v votes ih => simpa [turns, offer, leftBy, tooEarly] using ih

/-- A pass is its turns: exactly the votes that are too early at their turn
are left. -/
lemma drainPass_turns (votes : List Vote) (co : RoundCoordinator) :
    some (drainPass c p co votes).1 = votes.foldl (offer c p) (some co) ∧
      (drainPass c p co votes).2.1 = leftBy c p (turns c p (some co) votes) := by
  induction votes generalizing co with
  | nil => exact ⟨rfl, rfl⟩
  | cons v votes ih =>
    cases hv : co.submitVote c p v with
    | ok co' =>
      have hoffer : offer c p (some co) v = some co' := by rw [offer, Option.map_some, hv]; rfl
      rw [drainPass_cons_ok hv, foldl_cons, turns, hoffer]
      simpa [leftBy, tooEarly, hv] using ih co'
    | error err =>
      have hoffer : offer c p (some co) v = some co := by rw [offer, Option.map_some, hv]; rfl
      rw [drainPass_cons_error hv, foldl_cons, turns, hoffer]
      refine ⟨(ih co).1, ?_⟩
      cases hearly : isEarly err <;> simpa [leftBy, tooEarly, hv, hearly] using (ih co).2

lemma drainStep_pending (e : BftEngine) (p : VotePhase) :
    (drainStep c e).pending p = leftBy c p (passTurns c e p) := by
  rw [drainStep]
  cases hco : e.coordinator with
  | none =>
    have hnone : ∀ votes : List Vote, votes.foldl (offer c .prevote) none = none := fun votes => by
      induction votes with
      | nil => rfl
      | cons v votes ih => exact ih
    rw [drainOnce_none hco]
    cases p <;> simp only [passTurns, hco, hnone, leftBy_turns_none] <;> rfl
  | some co =>
    rw [drainOnce_some hco]
    cases p with
    | prevote => simpa [passTurns, hco, pending] using (drainPass_turns _ co).2
    | precommit =>
      simpa [passTurns, hco, pending, ← (drainPass_turns (c := c) (p := .prevote) _ co).1] using
        (drainPass_turns _ _).2

/-- `n` passes of the loop go on, and the next one ends it with `e'`. -/
structure DrainsIn (c : Crypto) (n : Nat) (e e' : BftEngine) : Prop where
  goesOn : ∀ i < n, (drainOnce c ((drainStep c)^[i] e)).2 = true
  stops : (drainOnce c ((drainStep c)^[n] e)).2 = false
  result : e' = (drainStep c)^[n + 1] e
  /-- What is taken or refused for good leaves its buffer at its turn, and
  nothing else but stale votes does. -/
  left : ∀ i ≤ n, ∀ p, ((drainStep c)^[i + 1] e).pending p =
    leftBy c p (passTurns c ((drainStep c)^[i] e) p)
  ordered : ∀ p, (e'.pending p).Sublist (e.pending p)
  dropped : ∀ p v, (e'.pending p).count v < (e.pending p).count v → Dropped c p e e' v
  kept : ∀ p, ∀ v ∈ e'.pending p, e.headNumber < v.height ∧ ∀ co, e'.coordinator = some co →
    ∃ err, co.submitVote c p v = .error err ∧ isEarly err = true

lemma drainLoop_drainsIn {m : Nat} (h : e.buffered < m) :
    ∃ n ≤ e.buffered, DrainsIn c n e (drainLoop c m e) := by
  induction m generalizing e with
  | zero => omega
  | succ m ih =>
    have ho : ∀ p, ((drainOnce c e).1.pending p).Sublist (e.pending p) := fun p =>
      (drainOnce_ordered p e).trans (dropStale_pending p e ▸ filter_sublist)
    have hleft : ∀ i p, ((drainStep c)^[i + 1] e).pending p =
        leftBy c p (passTurns c ((drainStep c)^[i] e) p) := fun i p => by
      rw [Function.iterate_succ_apply', drainStep_pending]
    have hf := drainOnce_buffered (c := c) e
    unfold drainLoop
    dsimp only
    split_ifs with hag
    · rw [hag, Bool.toNat_true] at hf
      have hfr := drainOnce_frame (c := c) e
      obtain ⟨n, hn, hr⟩ := ih (e := (drainOnce c e).1) (by omega)
      refine ⟨n + 1, by omega, ?_, hr.stops, hr.result, fun i _ => hleft i,
        fun p => (hr.ordered p).trans (ho p), fun p v hlt => ?_, ?_⟩
      · rintro (_ | i) hi
        · exact hag
        · exact hr.goesOn i (by omega)
      · by_cases hlt' : ((drainOnce c e).1.pending p).count v < (e.pending p).count v
        · exact (drainOnce_dropped hlt').between (.refl e) (drainLoop_frame m _)
        · exact (hr.dropped p v (by omega)).between hfr (.refl _)
      · obtain ⟨_, _, _, heq⟩ := hfr.same
        have hkp := hr.kept
        rwa [show (drainOnce c e).1.headNumber = e.headNumber by rw [heq]] at hkp
    · have hid := eq_false_of_ne_true hag
      refine ⟨0, Nat.zero_le _, by simp, hid, rfl, fun i _ => hleft i, ho,
        fun _ _ => drainOnce_dropped, fun p v hv => ⟨?_, fun co hco => drainOnce_early hid hco hv⟩⟩
      have hm := (drainOnce_ordered p e).subset hv
      rw [dropStale_pending] at hm
      simpa using (mem_filter.mp hm).2

/-- The loop makes at most one pass more than votes are buffered. It keeps
the order of the votes, removes those that are stale or settled, and what
it leaves the coordinator can not take yet. -/
theorem drain_settles_votes (c : Crypto) (e : BftEngine) :
    ∃ n ≤ e.buffered, DrainsIn c n e (drainPendingVotes c e) :=
  drainLoop_drainsIn (Nat.lt_succ_self _)

section Frames

variable (e : BftEngine)

@[simp] lemma drainPendingVotes_proposal : (drainPendingVotes c e).proposal = e.proposal := by
  obtain ⟨_, _, _, h⟩ := (drainPendingVotes_frame e).same
  rw [h]

@[simp] lemma drainPendingVotes_same : (drainPendingVotes c e).headNumber = e.headNumber ∧
    (drainPendingVotes c e).validatorSet = e.validatorSet ∧
    (drainPendingVotes c e).recentBlocks = e.recentBlocks ∧
    (drainPendingVotes c e).pendingTxs = e.pendingTxs := by
  obtain ⟨_, _, _, h⟩ := (drainPendingVotes_frame e).same
  rw [h]
  exact ⟨rfl, rfl, rfl, rfl⟩

end Frames

lemma drainPendingVotes_drained (e : BftEngine) : Drained c (drainPendingVotes c e) := by
  intro p v hv co co' hco hok
  obtain ⟨_, -, hdr⟩ := drainLoop_drainsIn (c := c) (Nat.lt_succ_self e.buffered)
  obtain ⟨err, he, -⟩ := (hdr.kept p v hv).2 co hco
  cases hok.symm.trans he

/-- A buffered vote that every pass leaves, or that makes `P` true, is
still there or has made `P` true. -/
lemma drainPendingVotes_fate {P : RoundCoordinator → Prop}
    (hmo : ∀ co₁ co₂, P co₁ → Voted c co₁ co₂ → P co₂) (hm : v ∈ e.pending p)
    (hhg : e.headNumber < v.height) (hco : e.coordinator = some co)
    (hfa : ∀ co', Voted c co co' → P co' ∨ (∃ co'', co'.submitVote c p v = .ok co'' ∧ P co'') ∨
      ∃ err, co'.submitVote c p v = .error err ∧ isEarly err = true) :
    v ∈ (drainPendingVotes c e).pending p ∨
      ∃ co', (drainPendingVotes c e).coordinator = some co' ∧ P co' := by
  obtain ⟨_, -, hdr⟩ := drainLoop_drainsIn (c := c) (Nat.lt_succ_self e.buffered)
  refine or_iff_not_imp_left.mpr fun hgone => ?_
  have hlt := (count_eq_zero_of_not_mem hgone).trans_lt (count_pos_iff.mpr hm)
  obtain hst | ⟨_, co', hco₀, hco', co₁, co₂, hv₁, hv₂, hs⟩ := hdr.dropped p v hlt
  · exact absurd hhg (UInt64.not_lt.mpr hst)
  cases hco.symm.trans hco₀
  refine ⟨co', hco', ?_⟩
  obtain hok | ⟨rfl, err, he, hne⟩ := hs
  · obtain hP | ⟨_, hok', hP⟩ | ⟨_, he, -⟩ := hfa co₁ hv₁
    · exact hmo _ _ hP (.head ⟨p, v, hok⟩ hv₂)
    · cases hok.symm.trans hok'
      exact hmo _ _ hP hv₂
    · cases hok.symm.trans he
  · obtain hP | ⟨_, hok', -⟩ | ⟨_, he', hea⟩ := hfa co₁ hv₁
    · exact hmo _ _ hP hv₂
    · cases he.symm.trans hok'
    · cases he.symm.trans he'
      cases hne.symm.trans hea

/-! ## After every call

A call leaves a drained engine drained, with two exceptions: the node's
own proposal and its own PRE-VOTE may open a phase, and neither
`cast_proposal` nor `cast_prevote` drains the buffers. -/

/-- The call opens a phase for the buffered vote `v`: the node's own
proposal is accepted and `v` is a PRE-VOTE for it, or the node's own
PRE-VOTE makes the quorum and `v` is a PRE-COMMIT to the proposal. -/
def Unblocks (c : Crypto) (e : BftEngine) (x : Call) (p : VotePhase) (v : Vote) : Prop :=
  match x with
  | .castProposal ex => p = .prevote ∧ v.verifies c p e.validatorSet = true ∧
      ∃ co ∈ e.ensureCoordinator.coordinator, v.height = co.height ∧ v.round = co.round ∧
        ∃ out, (e.castProposal c ex).2 = .ok out ∧ v.blockHash = out.1.hash c
  | .castPrevote => p = .precommit ∧ v.verifies c p e.validatorSet = true ∧
      ∃ co ∈ e.coordinator, v.height = co.height ∧ v.round = co.round ∧
        co.proposedBlock = some v.blockHash ∧
        ∃ out, e.castPrevote c = .ok out ∧ ∃ co' ∈ out.1.coordinator, co'.phase = .precommitting
  | _ => False

lemma Drained.of_idle (h : ∀ co, e.coordinator = some co → ∀ p : VotePhase, co.phase ≠ p.phase) :
    Drained c e := by
  intro p v _ co _ hco hok
  exact h co hco p (submitVote_tally hok).1

lemma Drained.of_none (h : e.coordinator = none) : Drained c e :=
  .of_idle fun co hco => absurd (h.symm.trans hco) (some_ne_none co).symm

lemma Drained.of_same (h : Drained c e) (hco : e'.coordinator = e.coordinator)
    (hpg : ∀ p, e'.pending p = e.pending p) : Drained c e' := by
  intro p v hv co co' hso
  rw [hpg] at hv
  rw [hco] at hso
  exact h p v hv co co' hso

lemma pending_recordRemote (p q : VotePhase) (v : Vote) :
    (e.recordRemote p v).pending q = e.pending q := by
  cases q <;> rfl

lemma pending_setPending (p q : VotePhase) (votes : List Vote) :
    (e.setPending p votes).pending q = if q = p then votes else e.pending q := by
  cases p <;> cases q <;> rfl

lemma mem_pending_append
    (h : w ∈ ((e.recordRemote p v).setPending p (e.pending p ++ [v])).pending q) :
    (q = p ∧ w = v) ∨ w ∈ e.pending q := by
  rw [pending_setPending] at h
  split_ifs at h with hq
  · subst hq
    rcases mem_append.mp h with hw | hw
    · exact .inr hw
    · exact .inl ⟨rfl, mem_singleton.mp hw⟩
  · rw [pending_recordRemote] at h
    exact .inr h

lemma Drained.ensureCoordinator (h : Drained c e) : Drained c e.ensureCoordinator := by
  unfold BftEngine.ensureCoordinator
  cases hco : e.coordinator with
  | some => exact h
  | none =>
    refine .of_idle fun co hso p => ?_
    cases hso
    cases p <;> exact Phase.noConfusion

lemma withProposal_takes_iff {hash : H256} (hok : co.submitProposal c hash proof = .ok co') :
    (∃ co'', co'.submitVote c p v = .ok co'') ↔ p = .prevote ∧ v.blockHash = hash ∧
      v.height = co.height ∧ v.round = co.round ∧ v.verifies c p co.vs = true := by
  rw [(Coherent.submitProposal hok).submitVote_isOk_iff]
  obtain rfl := submitProposal_eq hok
  cases p with
  | precommit => simp [withProposal, VotePhase.phase]
  | prevote =>
    constructor
    · rintro ⟨-, t, ht, hae⟩
      cases ht
      exact ⟨rfl, hae.block, hae.height, hae.round, hae.signed⟩
    · rintro ⟨-, hbl, hhg, hrn, hv⟩
      exact ⟨rfl, _, rfl, hbl, hhg, hrn, by simp [VoteTallier.new], hv⟩

lemma drained_castProposal_iff (hlv : e.Live c) (h : Drained c e) (ex : Option Executor) :
    Drained c (e.castProposal c ex).1 ↔
      ∀ p, ∀ v ∈ e.pending p, ¬ Unblocks c e (.castProposal ex) p v := by
  have hce := castProposal_cases c ex e
  have hu : ∀ p v, Unblocks c e (.castProposal ex) p v ↔
    p = .prevote ∧ v.verifies c p e.validatorSet = true ∧
      ∃ co ∈ e.ensureCoordinator.coordinator, v.height = co.height ∧ v.round = co.round ∧
        ∃ out, (e.castProposal c ex).2 = .ok out ∧ v.blockHash = out.1.hash c := fun _ _ => Iff.rfl
  simp only [hu]
  generalize e.castProposal c ex = out at hce ⊢
  cases hce with
  | notLeader => exact iff_of_true h.ensureCoordinator (by simp)
  | refused =>
    refine iff_of_true (h.ensureCoordinator.of_same rfl fun p => ?_) (by simp)
    cases p <;> rfl
  | accepted co co' hac _ block _ hok =>
    have hs : co.vs = e.validatorSet := by
      simpa using ((hlv.changes (ensureCoordinator_changes e)).coordinator co hac).1
    have hpg : ∀ p, ({ e.ensureCoordinator with
        pendingTxs := e.pendingTxs.drop e.maxTxs, coordinator := some co'
        proposal := some (block, LeaderProof.produce c e.config.myVrfSk co.height co.round e.seed)
        } : BftEngine).pending p = e.pending p := by
      intro p
      rw [← ensureCoordinator_pending e]
      cases p <;> rfl
    constructor
    · rintro hdd p v hv ⟨rfl, hvr, co₁, hco₁, hhg, hrn, _, ho, hbl⟩
      cases hac.symm.trans hco₁
      cases ho
      obtain ⟨co'', htk⟩ := (withProposal_takes_iff hok).mpr
        ⟨rfl, hbl, hhg, hrn, hs ▸ hvr⟩
      exact hdd .prevote v ((hpg _).symm ▸ hv) co' co'' rfl htk
    · intro hnn p v hv _ co'' hco₁ htk
      cases hco₁
      rw [hpg] at hv
      obtain ⟨rfl, hbl, hhg, hrn, hvr⟩ := (withProposal_takes_iff hok).mp ⟨co'', htk⟩
      exact hnn .prevote v hv ⟨rfl, hs ▸ hvr, co, hac, hhg, hrn, _, rfl, hbl⟩

lemma takes_before {co'' : RoundCoordinator} (hco : co.Coherent)
    (hok : co.submitVote c q w = .ok co') (hph : co'.phase = co.phase)
    (htk : co'.submitVote c p v = .ok co'') : ∃ co₁, co.submitVote c p v = .ok co₁ := by
  obtain ⟨hp, t', ht', hae⟩ := (hco.submitVote hok).submitVote_isOk_iff.mp ⟨co'', htk⟩
  rw [hph] at hp
  obtain ⟨hq, t, _, _, ht, hs, ht₁, -⟩ := submitVote_tally hok
  obtain rfl : q = p := by
    rw [hq] at hp
    cases q <;> cases p <;> first | rfl | cases hp
  refine hco.submitVote_isOk_iff.mpr ⟨hp, t, ht, ?_⟩
  -- the tally afterwards has the same subject and one more voter
  obtain ⟨-, -, -, -, -, _, -, rfl, -⟩ := submit_ok hs
  cases ht₁.symm.trans ht'
  exact ⟨hae.block, hae.height, hae.round, fun hm => hae.fresh (mem_cons_of_mem _ hm), hae.signed⟩

lemma withPolc_takes_iff (hco : co.Coherent) (hok : co.submitPrevote c w = .ok co')
    (hph : co'.phase = .precommitting) :
    (∃ co'', co'.submitVote c p v = .ok co'') ↔ p = .precommit ∧
      co.proposedBlock = some v.blockHash ∧ v.height = co.height ∧ v.round = co.round ∧
      v.verifies c p co.vs = true := by
  have hc := hco.submitVote (p := .prevote) hok
  rw [hc.submitVote_isOk_iff, hph]
  obtain ⟨hp, t, t', st, -, -, hcs⟩ := submitPrevote_ok hok
  rcases hcs with ⟨-, rfl⟩ | ⟨_, block, -, -, hbl, rfl⟩
  · simp [hp] at hph
  · cases p with
    | prevote => simp [VotePhase.phase]
    | precommit =>
      constructor
      · rintro ⟨-, t₁, ht₁, hae⟩
        cases ht₁
        refine ⟨rfl, ?_, hae.height, hae.round, hae.signed⟩
        rw [hbl, hae.block]
        rfl
      · rintro ⟨-, hv, hhg, hrn, hvr⟩
        have hsm := Option.some.inj (hv.symm.trans hbl)
        exact ⟨rfl, _, rfl, hsm, hhg, hrn, by simp [VoteTallier.new], hvr⟩

lemma drained_castPrevote_iff (hlv : e.Live c) (h : Drained c e) :
    Drained c (e.after c .castPrevote) ↔
      ∀ p, ∀ v ∈ e.pending p, ¬ Unblocks c e .castPrevote p v := by
  show Drained c (e.orKeep ((e.castPrevote c).map Prod.fst)) ↔ _
  cases hca : e.castPrevote c with
  | error => exact iff_of_true h (by simp [Unblocks, hca])
  | ok out =>
    obtain ⟨e', w⟩ := out
    obtain ⟨co, co', _, hac, -, -, hok, rfl⟩ := castPrevote_ok hca
    obtain ⟨hs, hco⟩ := hlv.coordinator co hac
    have hpg : ∀ p, ({ e with coordinator := some co' } : BftEngine).pending p = e.pending p := by
      intro p
      cases p <;> rfl
    have ht := fun (p : VotePhase) (v : Vote) => withPolc_takes_iff (p := p) (v := v) hco hok
    show Drained c { e with coordinator := some co' } ↔ _
    constructor
    · rintro hdd p v hv ⟨rfl, hvr, co₁, hco₁, hhg, hrn, hbl, _, ho, _, hco₂, hph⟩
      cases hac.symm.trans hco₁
      cases hca.symm.trans ho
      cases hco₂
      obtain ⟨co'', htk⟩ := (ht .precommit v hph).mpr
        ⟨rfl, hbl, hhg, hrn, hs ▸ hvr⟩
      exact hdd .precommit v ((hpg _).symm ▸ hv) co' co'' rfl htk
    · intro hnn p v hv co₁ co'' hco₁ htk
      cases hco₁
      rw [hpg] at hv
      obtain ⟨-, t, t', st, -, -, hcs⟩ := submitPrevote_ok hok
      by_cases hph : co'.phase = .precommitting
      · obtain ⟨rfl, hbl, hhg, hrn, hvr⟩ := (ht p v hph).mp ⟨co'', htk⟩
        exact hnn .precommit v hv ⟨rfl, hs ▸ hvr, co, hac, hhg, hrn, hbl, _, hca, co', rfl, hph⟩
      · have hsm : co'.phase = co.phase := by
          rcases hcs with ⟨-, rfl⟩ | ⟨_, b, -, -, -, rfl⟩
          · rfl
          · exact absurd rfl hph
        obtain ⟨co₁, hbf⟩ := takes_before (q := .prevote) hco hok hsm htk
        exact h p v hv co co₁ hac hbf

lemma Drained.castPrecommit (hlv : e.Live c) (h : Drained c e) (hac : e.coordinator = some co)
    (hok : co.submitPrecommit c w = .ok co') :
    Drained c { e with coordinator := some co' } := by
  obtain ⟨-, hco⟩ := hlv.coordinator co hac
  intro p v hv co₁ _ hco₁ htk
  cases hco₁
  obtain ⟨-, t, t', st, -, -, hcs⟩ := submitPrecommit_ok hok
  rcases hcs with ⟨-, rfl⟩ | ⟨_, -, -, rfl⟩
  · obtain ⟨co₁, hbf⟩ := takes_before (q := .precommit) hco hok rfl htk
    refine h p v ?_ co co₁ hac hbf
    cases p <;> exact hv
  · obtain ⟨hph, -⟩ := submitVote_tally htk
    cases p <;> cases hph

lemma Outcome.keeps_drained (ho : Outcome c e x e') (hlv : e.Live c) (h : Drained c e)
    (hp : ∀ ex, x ≠ .castProposal ex) (hpr : x ≠ .castPrevote) : Drained c e' := by
  cases ho with
  | kept => exact h
  | recorded p v => exact h.of_same rfl fun q => pending_recordRemote p q v
  | buffered _ _ her =>
    -- the vote itself was just refused
    intro q w hw co co' hso hok
    rw [setPending_coordinator] at hso
    rcases mem_pending_append hw with ⟨rfl, rfl⟩ | hol
    · exact her co co' hso hok
    · exact h q w hol co co' hso hok
  | taken | accepted | timedOut => exact drainPendingVotes_drained _
  | refused => exact h.ensureCoordinator
  | notProposed ex | proposed ex => exact absurd rfl (hp ex)
  | voted _ p how _ _ _ hac hok =>
    cases p with
    | prevote => exact absurd how hpr
    | precommit => exact h.castPrecommit hlv hac hok
  | harvested => exact .of_none rfl
  | adopted _ _ _ hok =>
    obtain rfl := adoptSyncedBlock_eq hok
    exact .of_none rfl
  | restarted =>
    refine .of_idle fun co hco p => ?_
    cases hco
    cases p <;> exact Phase.noConfusion
  | rotated _ _ hil => exact .of_none hil
  | extended | drained => exact h.of_same rfl fun p => by cases p <;> rfl

lemma drained_after_iff (hlv : e.Live c) (h : Drained c e) (x : Call) :
    Drained c (e.after c x) ↔ ∀ p, ∀ v ∈ e.pending p, ¬ Unblocks c e x p v := by
  cases x with
  | castProposal ex => exact drained_castProposal_iff hlv h ex
  | castPrevote => exact drained_castPrevote_iff hlv h
  | _ =>
    exact iff_of_true ((after_outcome c e _).keeps_drained hlv h (by simp) (by simp))
      fun _ _ _ hu => hu

/-- No buffered vote could be taken after any call exactly if no call
unblocks one. -/
theorem buffers_drained_iff (config : BftConfig) (head : Block) (seed : Arr 32) (xs : List Call) :
    (∀ n, Drained c ((fresh c config head seed).afterCalls c (xs.take n))) ↔
      Along (after c) (fun e x => ∀ p, ∀ v ∈ e.pending p, ¬ Unblocks c e x p v)
        (fresh c config head seed) xs := by
  have hlv : Along (after c) (fun e _ => e.Live c) (fresh c config head seed) xs :=
    .of_invariant (fun e x h => h.afterCalls [x]) (.fresh config head seed)
  simp [afterCalls_eq_foldl]
  exact always_iff_along (fun e x hlv h => drained_after_iff hlv h x) hlv
    (.of_idle fun co hco => by cases hco)

instance (c : Crypto) (e : BftEngine) : Decidable (Drained c e) :=
  have := fun (p : VotePhase) (co : RoundCoordinator) =>
    List.decidableBAll (fun v => (co.submitVote c p v).isOk = false) (e.pending p)
  decidable_of_iff (∀ co ∈ e.coordinator, (∀ v ∈ e.pending .prevote,
      (co.submitVote c .prevote v).isOk = false) ∧
    ∀ v ∈ e.pending .precommit, (co.submitVote c .precommit v).isOk = false) <| by
    have hok : ∀ (co : RoundCoordinator) p v, (co.submitVote c p v).isOk = false ↔
        ∀ co', co.submitVote c p v ≠ .ok co' := by
      intro co p v
      cases co.submitVote c p v <;> simp [Except.isOk, Except.toBool]
    simp [hok]
    refine ⟨fun h p v hv co co' hco => ?_, fun h co hco => ⟨fun v hv co' => h _ v hv co co' hco,
      fun v hv co' => h _ v hv co co' hco⟩⟩
    cases p <;> grind

/-- Both votes could be taken after the node's own cast and are not. -/
theorem casts_leave_buffers : ¬ Drained .reference ((memberEngine 1).afterCalls .reference
        [.submitRemoteVote .prevote (memberVote .prevote 0 (leaderProposal.1.hash .reference) 0),
          .castProposal none]) ∧ ¬ Drained .reference ((memberEngine 0).afterCalls .reference
        [.submitRemoteProposal leaderProposal.1 leaderProposal.2, .submitRemoteVote .precommit
            (memberVote .precommit 1 (leaderProposal.1.hash .reference) 0), .castPrevote]) := by
  decide +kernel

/-! ## Votes for a later round -/

/-- The engine is at the height of `v`, and a proposal it holds is the
block of `v`, in an earlier round. -/
def WaitsFor (e : BftEngine) (v : Vote) : Prop :=
  ∃ co ∈ e.coordinator, co.height = v.height ∧
    ∀ block ∈ co.proposedBlock, block = v.blockHash ∧ co.round < v.round
deriving Decidable

/-- The vote is in the tally of its phase, or that phase is not open and
the vote is still buffered. -/
def Counted (e : BftEngine) (p : VotePhase) (v : Vote) : Prop :=
  ∃ co ∈ e.coordinator, (∃ t, co.tally p = some t ∧ v.validatorIndex ∈ t.received) ∨
    (co.phase ≠ p.phase ∧ v ∈ e.pending p)

lemma submitVote_early (hco : co.Coherent) (hhg : co.height = v.height)
    (hwa : co.phase = p.phase → co.proposedBlock = some v.blockHash ∧ co.round < v.round) :
    ∃ err, co.submitVote c p v = .error err ∧ isEarly err = true := by
  by_cases hph : co.phase = p.phase
  · obtain ⟨t, ht, hf⟩ := hco.voting p hph
    obtain ⟨hpd, hrn⟩ := hwa hph
    have hbl := some.inj (hf.block.symm.trans hpd)
    refine ⟨.wrongRound, submitVote_error hph ht ?_, rfl⟩
    have hne : v.round ≠ t.round := by
      rw [hf.round]
      exact fun heq => absurd (heq ▸ hrn) (UInt32.lt_irrefl _)
    rw [submit, if_neg (not_not.mpr hbl.symm), if_neg (not_not.mpr (hf.height.trans hhg).symm),
      if_pos hne]
  · exact ⟨_, submitVote_wrongPhase hph v, rfl⟩

lemma pending_setPending_append (p q : VotePhase) (w : Vote) (hm : v ∈ e.pending q) :
    v ∈ ((e.recordRemote p w).setPending p (e.pending p ++ [w])).pending q := by
  rw [pending_setPending]
  split_ifs with h
  · subst h
    exact mem_append_left _ hm
  · rwa [pending_recordRemote]

/-- What a call does to the buffers of an engine that has a coordinator
afterwards: nothing is taken out, or they are drained. -/
inductive Buffers (c : Crypto) (e e' : BftEngine) : Prop
  | kept (head : e'.headNumber = e.headNumber) (set : e'.validatorSet = e.validatorSet)
      (kept : ∀ p, ∀ v ∈ e.pending p, v ∈ e'.pending p)
  | drained (e₁ : BftEngine) (co₁ : RoundCoordinator) (active : e₁.coordinator = some co₁)
      (coherent : co₁.Coherent) (head : e₁.headNumber = e.headNumber)
      (set : e₁.validatorSet = e.validatorSet)
      (kept : ∀ p, ∀ v ∈ e.pending p, v ∈ e₁.pending p) (eq : e' = drainPendingVotes c e₁)

lemma Outcome.buffers (h : Outcome c e x e') (hlv : e.Live c) (hb : e'.coordinator ≠ none) :
    Buffers c e e' := by
  have he : ∀ p, ∀ v ∈ e.pending p, v ∈ e.ensureCoordinator.pending p := by simp
  cases h with
  | kept => exact .kept rfl rfl fun _ _ h => h
  | recorded => exact .kept rfl rfl fun p v hv => by rwa [pending_recordRemote]
  | buffered q w =>
    exact .kept (by simp [recordRemote]) (by simp [recordRemote])
      fun p v => pending_setPending_append q p w
  | taken q w co co' hac hok =>
    refine .drained { e.recordRemote q w with coordinator := some co' } co' rfl
      ((hlv.coordinator co hac).2.submitVote hok) rfl rfl (fun p v hv => ?_) rfl
    cases p <;> exact hv
  | refused => exact .kept (by simp) (by simp) he
  | accepted block proof _ co' _ hok =>
    refine .drained
      { e.ensureCoordinator with coordinator := some co', proposal := some (block, proof) }
      co' rfl (.submitProposal hok) (by simp) (by simp) (fun p v hv => ?_) rfl
    cases p <;> exact he _ v hv
  | notProposed | proposed =>
    refine .kept (by simp) (by simp) fun p v hv => ?_
    cases p <;> exact he _ v hv
  | timedOut co hac =>
    have hc := ((hlv.changes (ensureCoordinator_changes e)).coordinator co hac).2
    refine .drained
      { e.ensureCoordinator with coordinator := some co.fireTimeout, proposal := none }
      co.fireTimeout rfl hc.fireTimeout (by simp) (by simp) (fun p v hv => ?_) rfl
    cases p <;> exact he _ v hv
  | voted | restarted | extended | drained =>
    exact .kept rfl rfl fun p v hv => by cases p <;> exact hv
  | harvested => exact absurd rfl hb
  | adopted _ _ _ hok =>
    obtain rfl := adoptSyncedBlock_eq hok
    exact absurd rfl hb
  | rotated _ _ hil => exact absurd hil hb

lemma Buffers.frame (h : Buffers c e e') :
    e'.headNumber = e.headNumber ∧ e'.validatorSet = e.validatorSet := by
  cases h with
  | kept hhd hs => exact ⟨hhd, hs⟩
  | drained _ _ _ _ hhd hs _ heq => simp [heq, hhd, hs]

lemma after_keeps (hlv : e.Live c) (hm : v ∈ e.pending p) (hhg : e.headNumber < v.height)
    (hwa : WaitsFor (e.after c x) v) : v ∈ (e.after c x).pending p := by
  obtain ⟨co, hco, hh, hw⟩ := hwa
  rcases (after_outcome c e x).buffers hlv (ne_none_iff_exists'.mpr ⟨co, hco⟩) with ⟨-, -, hkp⟩ |
    ⟨e₁, co₁, hac, hc, hsm, -, hkp, heq⟩
  · exact hkp p v hm
  · rw [heq] at hco ⊢
    obtain ⟨_, hco', hvd'⟩ := (drainPendingVotes_frame e₁).active co₁ hac
    cases hco'.symm.trans hco
    obtain ⟨hh₁, hr₁, -, -, hb₁⟩ := hvd'.frame
    have hfa := drainPendingVotes_fate (c := c) (P := fun _ => False) (fun _ _ h _ => h)
      (hkp p v hm) (hsm ▸ hhg) hac
    refine (hfa fun co₂ hvd => .inr (.inr ?_)).resolve_right fun ⟨_, _, h⟩ => h
    obtain ⟨hh₂, hr₂, -, -, hb₂⟩ := hvd.frame
    refine submitVote_early (hvd.coherent hc) (hh₂.trans (hh₁.symm.trans hh)) ?_
    intro hph
    obtain ⟨t, -, hf⟩ := (hvd.coherent hc).voting p hph
    obtain ⟨hbl, hrn⟩ := hw t.blockHash (hb₁.trans (hb₂.symm.trans hf.block))
    rw [hr₂, ← hr₁, hf.block, hbl]
    exact ⟨rfl, hrn⟩

/-! ### The tally hears the vote -/

/-- The index of `v` is in the tally of an opened phase. -/
def Heard (p : VotePhase) (v : Vote) (co : RoundCoordinator) : Prop :=
  (p = .precommit → co.phase ≠ .prevoting) ∧
    ∃ t, co.tally p = some t ∧ v.validatorIndex ∈ t.received

lemma heard_of_ok (hok : co.submitVote c p v = .ok co') : Heard p v co' := by
  obtain ⟨-, _, _, _, -, hs, ht, hpc⟩ := submitVote_tally hok
  obtain ⟨-, -, -, -, -, _, -, rfl, -⟩ := submit_ok hs
  exact ⟨fun h => (hpc h).1, _, ht, mem_cons_self⟩

lemma Heard.submitVote (h : Heard p v co) (hok : co.submitVote c q w = .ok co') :
    Heard p v co' := by
  obtain ⟨hoe, t, ht, hm⟩ := h
  obtain ⟨hph, u, _, _, hu, hs, hu', hpc⟩ := submitVote_tally hok
  by_cases hqp : q = p
  · subst hqp
    cases hu.symm.trans ht
    obtain ⟨-, -, -, -, -, _, -, rfl, -⟩ := submit_ok hs
    exact ⟨fun h => (hpc h).1, _, hu', mem_cons_of_mem _ hm⟩
  · cases q <;> cases p <;> try contradiction
    · exact absurd hph (hoe rfl)
    · exact ⟨nofun, t, (hpc rfl).2.trans ht, hm⟩

lemma Heard.voted (h : Heard p v co) (hvd : Voted c co co') : Heard p v co' := by
  induction hvd with
  | refl => exact h
  | tail _ hsp ih =>
    obtain ⟨q, w, hok⟩ := hsp
    exact ih.submitVote hok

structure VotesOn (c : Crypto) (p : VotePhase) (v : Vote) (co : RoundCoordinator) : Prop where
  block : co.proposedBlock = some v.blockHash
  height : v.height = co.height
  round : v.round = co.round
  signed : v.verifies c p co.vs = true

lemma VotesOn.taken (hco : co.Coherent) (h : VotesOn c p v co) (hph : co.phase = p.phase) :
    Heard p v co ∨ ∃ co', co.submitVote c p v = .ok co' := by
  obtain ⟨t, ht, hf⟩ := hco.voting p hph
  by_cases hha : v.validatorIndex ∈ t.received
  · refine .inl ⟨?_, t, ht, hha⟩
    intro hp
    subst hp
    rw [hph]
    exact Phase.noConfusion
  · have hae : t.Accepts c p v :=
      ⟨some.inj (h.block.symm.trans hf.block), h.height.trans hf.height.symm,
        h.round.trans hf.round.symm, hha, hf.vs ▸ h.signed⟩
    exact .inr (hco.submitVote_isOk_iff.mpr ⟨hph, t, ht, hae⟩)

lemma VotesOn.fate (hco : co.Coherent) (h : VotesOn c p v co) :
    Heard p v co ∨ (∃ co', co.submitVote c p v = .ok co' ∧ Heard p v co') ∨
      ∃ err, co.submitVote c p v = .error err ∧ isEarly err = true := by
  by_cases hph : co.phase = p.phase
  · rcases h.taken hco hph with hha | ⟨co', hok⟩
    · exact .inl hha
    · exact .inr (.inl ⟨co', hok, heard_of_ok hok⟩)
  · exact .inr (.inr ⟨_, submitVote_wrongPhase hph v, rfl⟩)

lemma Outcome.adds_votes (h : Outcome c e x e') (hlv : e.Live c) (hac : e.coordinator = some co)
    (hbl : co.proposedBlock ≠ none) (hac' : e'.coordinator = some co')
    (hbl' : co'.proposedBlock ≠ none) : Voted c co co' := by
  have he := ensureCoordinator_active hac
  have hoe : co.phase ≠ .awaitingProposal := fun h => hbl ((hlv.coordinator co hac).2.awaiting h)
  have hsm : e.coordinator = some co' → Voted c co co' := by grind
  have hdd : ∀ (e₁ : BftEngine) (co₁ : RoundCoordinator), e₁.coordinator = some co₁ →
      (drainPendingVotes c e₁).coordinator = some co' → Voted c co₁ co' := by
    intro e₁ co₁ hco₁ h
    obtain ⟨_, hco₂, hvd⟩ := (drainPendingVotes_frame e₁).active co₁ hco₁
    cases hco₂.symm.trans h
    exact hvd
  -- the proposal is there, so no other is accepted
  have hrf : ∀ {co₀ co₁ hash proof}, e.ensureCoordinator.coordinator = some co₀ →
      co₀.submitProposal c hash proof ≠ .ok co₁ := by
    intro _ _ _ _ hac₀ hok
    cases hac.symm.trans (he ▸ hac₀)
    exact hoe (submitProposal_ok hok).1
  cases h with
  | kept | recorded | extended | drained => exact hsm hac'
  | buffered =>
    rw [setPending_coordinator] at hac'
    exact hsm hac'
  | taken q w _ co₁ hac₀ hok =>
    cases hac.symm.trans hac₀
    exact .head ⟨q, w, hok⟩ (hdd _ co₁ rfl hac')
  | refused | notProposed => exact hsm (he ▸ hac')
  | accepted _ _ _ _ hac₀ hok
  | proposed _ _ _ _ _ _ hac₀ hok => exact absurd hok (hrf hac₀)
  | voted _ q _ w _ _ hac₀ hok => grind
  | timedOut _ hac₀ =>
    cases hac.symm.trans (he ▸ hac₀)
    have hvd := hdd _ co.fireTimeout rfl hac'
    have hkp := hvd.frame.2.2.2.2 ▸ hbl'
    unfold fireTimeout at hvd hkp
    split_ifs at hvd hkp
    · exact hvd
    · exact absurd rfl hkp
  | harvested => cases hac'
  | adopted _ _ _ hok =>
    obtain rfl := adoptSyncedBlock_eq hok
    cases hac'
  | restarted =>
    cases hac'
    exact absurd rfl hbl'
  | rotated _ _ hil => cases hil.symm.trans hac'

lemma votesOn_iff_of_voted (h : Voted c co co') : VotesOn c p v co' ↔ VotesOn c p v co := by
  obtain ⟨hh, hr, hv, -, hb⟩ := h.frame
  constructor
  · rintro ⟨hbl, hhg, hrn, hsg⟩
    exact ⟨hb ▸ hbl, hh ▸ hhg, hr ▸ hrn, hv ▸ hsg⟩
  · rintro ⟨hbl, hhg, hrn, hsg⟩
    exact ⟨hb.trans hbl, hhg.trans hh.symm, hrn.trans hr.symm, hv.symm ▸ hsg⟩

def Kept (c : Crypto) (e : BftEngine) (p : VotePhase) (v : Vote) : Prop :=
  ∃ co, e.coordinator = some co ∧ VotesOn c p v co ∧ (Heard p v co ∨ v ∈ e.pending p)

lemma Kept.busy (h : Kept c e p v) : e.coordinator ≠ none := by
  obtain ⟨co, hac, -⟩ := h
  exact ne_none_iff_exists'.mpr ⟨co, hac⟩

lemma Kept.drain (hac : e.coordinator = some co) (hco : co.Coherent) (hon : VotesOn c p v co)
    (hhg : e.headNumber < v.height) (hm : v ∈ e.pending p) :
    Kept c (drainPendingVotes c e) p v := by
  obtain ⟨co', hco', hvd⟩ := (drainPendingVotes_frame e).active co hac
  refine ⟨co', hco', (votesOn_iff_of_voted hvd).mpr hon, ?_⟩
  rcases drainPendingVotes_fate (fun _ _ h => h.voted) hm hhg hac
    fun co₁ hv₁ => ((votesOn_iff_of_voted hv₁).mpr hon).fate (hv₁.coherent hco) with
    hlf | ⟨co₁, hco₁, hha⟩
  · exact .inr hlf
  · grind

lemma Kept.accepted {block : Block} (hlv : e.Live c) (hac : e.coordinator = some co)
    (hhg : e.headNumber < v.height) (hh : v.height = co.height) (hr : v.round = co.round)
    (hsg : v.verifies c p e.validatorSet = true) (hm : v ∈ e.pending p)
    (hbl : block.hash c = v.blockHash) (hok : (e.submitRemoteProposal c block proof).2 = .ok ()) :
    Kept c (e.after c (.submitRemoteProposal block proof)) p v ∧
      Drained c (e.after c (.submitRemoteProposal block proof)) := by
  show Kept c (e.submitRemoteProposal c block proof).1 p v ∧
    Drained c (e.submitRemoteProposal c block proof).1
  have hce := submitRemoteProposal_cases (c := c) e block proof
  generalize e.submitRemoteProposal c block proof = out at hce hok ⊢
  cases hce with
  | refused => cases hok
  | accepted _ co' hac₀ hs =>
    rw [ensureCoordinator_active hac] at hac₀ ⊢
    cases hac.symm.trans hac₀
    have hon : VotesOn c p v co' := by
      obtain rfl := submitProposal_eq hs
      exact ⟨congrArg some hbl, hh, hr, (hlv.coordinator co hac).1 ▸ hsg⟩
    refine ⟨.drain rfl (.submitProposal hs) hon hhg ?_, drainPendingVotes_drained _⟩
    cases p <;> exact hm

lemma Kept.after (h : Kept c e p v) (hlv : e.Live c) (hhg : e.headNumber < v.height)
    (hac' : (e.after c x).coordinator = some co') (hbl' : co'.proposedBlock ≠ none) :
    Kept c (e.after c x) p v := by
  obtain ⟨co, hac, hon, hkp⟩ := h
  have hvd := (after_outcome c e x).adds_votes hlv hac (by simp [hon.block]) hac'
    hbl'
  have hon' := (votesOn_iff_of_voted hvd).mpr hon
  rcases hkp with hha | hm
  · exact ⟨co', hac', hon', .inl (hha.voted hvd)⟩
  · rcases (after_outcome c e x).buffers hlv (ne_none_iff_exists'.mpr ⟨co', hac'⟩) with
      ⟨-, -, hkp⟩ | ⟨e₁, co₁, hac₁, hc, hsm, -, hkp, heq⟩
    · exact ⟨co', hac', hon', .inr (hkp p v hm)⟩
    · rw [heq] at hac' ⊢
      obtain ⟨_, hco₂, hvd₂⟩ := (drainPendingVotes_frame e₁).active co₁ hac₁
      cases hco₂.symm.trans hac'
      exact .drain hac₁ hc ((votesOn_iff_of_voted hvd₂).mp hon') (hsm ▸ hhg)
        (hkp p v hm)

lemma Kept.counted (h : Kept c e p v) (hlv : e.Live c) (hdd : Drained c e) : Counted e p v := by
  obtain ⟨co, hac, hon, hkp⟩ := h
  refine ⟨co, hac, ?_⟩
  rcases hkp with hha | hm
  · exact .inl hha.2
  · by_cases hph : co.phase = p.phase
    · rcases hon.taken (hlv.coordinator co hac).2 hph with hha | ⟨co', hok⟩
      · exact .inl hha.2
      · exact absurd hok (hdd p v hm co co' hac)
    · exact .inr ⟨hph, hm⟩

lemma submitRemoteVote_early_iff (hlv : e.Live c) (hac : e.coordinator = some co)
    (hnx : e.headNumber < v.height) (hhg : co.height = v.height) (hrn : co.round < v.round) :
    ((e.submitRemoteVote c p v).2 = .ok () ∧ v ∈ (e.submitRemoteVote c p v).1.pending p) ↔
      (co.phase = p.phase → co.proposedBlock = some v.blockHash) := by
  have hc := (hlv.coordinator co hac).2
  constructor
  · intro ⟨hok, _⟩ hph
    obtain ⟨t, ht, hf⟩ := hc.voting p hph
    by_contra hne
    have herr : co.submitVote c p v = .error .wrongBlockHash := by
      refine submitVote_error hph ht ?_
      refine if_pos fun heq => hne ?_
      rw [heq]
      exact hf.block
    have hce := submitRemoteVote_cases (c := c) p e v
    generalize e.submitRemoteVote c p v = out at hce hok
    cases hce with
    | stale hle => exact UInt64.not_le.mpr hnx hle
    | buffered _ her =>
      obtain ⟨_, herr', her⟩ := her co hac
      cases herr.symm.trans herr'
      cases her
    | taken _ _ hac₀ hs => grind
    | refused => cases hok
  · intro hbl
    obtain ⟨_, herr, her⟩ := submitVote_early hc hhg fun h => ⟨hbl h, hrn⟩
    have hce := submitRemoteVote_cases (c := c) p e v
    generalize e.submitRemoteVote c p v = out at hce ⊢
    cases hce with
    | stale hle => exact absurd hle (UInt64.not_le.mpr hnx)
    | buffered =>
      refine ⟨rfl, ?_⟩
      rw [pending_setPending, if_pos rfl]
      exact mem_append_right _ mem_cons_self
    | taken _ _ hac₀ hs =>
      cases hac.symm.trans hac₀
      rw [herr] at hs
      cases hs
    | refused _ _ _ hac₀ herr' hl =>
      cases hac.symm.trans hac₀
      cases herr.symm.trans herr'
      rw [her] at hl
      cases hl

lemma submitRemoteVote_busy (p : VotePhase) (v : Vote) (hac : e.coordinator = some co) :
    (e.after c (.submitRemoteVote p v)).coordinator ≠ none := by
  have ho := after_outcome c e (.submitRemoteVote p v)
  generalize e.after c (.submitRemoteVote p v) = e' at ho ⊢
  cases ho with
  | kept _ hn => exact absurd rfl (hn p v)
  | recorded | buffered => simp [recordRemote, hac]
  | taken _ _ _ co' =>
    obtain ⟨co₁, hco₁, -⟩ := (drainPendingVotes_frame
      { e.recordRemote p v with coordinator := some co' }).active co' rfl
    exact ne_none_iff_exists'.mpr ⟨co₁, hco₁⟩
  | voted _ q how => cases q <;> cases how

structure Waiting (c : Crypto) (vs : ValidatorSet) (p : VotePhase) (v : Vote) (e : BftEngine) :
    Prop where
  live : e.Live c
  atNext : e.AtNext
  set : e.validatorSet = vs
  next : v.height.toNat = e.headNumber.toNat + 1
  buffered : v ∈ e.pending p

lemma lt_of_next (h : v.height.toNat = e.headNumber.toNat + 1) : e.headNumber < v.height := by
  rw [lt_iff_toNat_lt]
  omega

lemma AtNext.height_eq (hnx : e.AtNext) (hac : e.coordinator = some co)
    (h : v.height.toNat = e.headNumber.toNat + 1) : co.height = v.height := by
  have hlt := v.height.toNat_lt
  rw [hnx co hac, ← UInt64.toNat_inj, UInt64.toNat_add, h]
  simp [reduceToNat]
  omega

lemma Waiting.afterCalls {vs : ValidatorSet} (h : Waiting c vs p v e)
    (hwa : Along (after c) (fun e x => WaitsFor (e.after c x) v) e xs) :
    Waiting c vs p v (e.afterCalls c xs) := by
  rw [afterCalls_eq_foldl]
  refine hwa.keeps (fun e x hwa h => ?_) h
  have hfr := ((after_outcome c e x).buffers h.live (by
    obtain ⟨co, hco, -⟩ := hwa
    exact ne_none_iff_exists'.mpr ⟨co, hco⟩)).frame
  exact ⟨h.live.afterCalls [x], h.atNext.afterCalls [x], hfr.2.trans h.set,
    hfr.1 ▸ h.next, after_keeps h.live h.buffered (lt_of_next h.next) hwa⟩

def Voting (e : BftEngine) : Prop := ∃ co ∈ e.coordinator, co.proposedBlock ≠ none

lemma Kept.afterCalls (hlv : e.Live c) (hhg : e.headNumber < v.height) (hkp : Kept c e p v)
    (hdd : Drained c e)
    (hr : Along (BftEngine.after c) (fun e x => Voting (e.after c x) ∧
      ∀ q, ∀ w ∈ e.pending q, ¬ Unblocks c e x q w) e xs) : Counted (e.afterCalls c xs) p v := by
  have hi := hr.keeps
    (P := fun e => e.Live c ∧ e.headNumber < v.height ∧ Kept c e p v ∧ Drained c e) ?_
    ⟨hlv, hhg, hkp, hdd⟩
  · rw [afterCalls_eq_foldl]
    exact hi.2.2.1.counted hi.1 hi.2.2.2
  · rintro e x ⟨⟨co', hac', hbl'⟩, hb⟩ ⟨hlv, hhg, hkp, hdd⟩
    have hfr := ((after_outcome c e x).buffers hlv (ne_none_iff_exists'.mpr ⟨co', hac'⟩)).frame
    exact ⟨hlv.afterCalls [x], hfr.1 ▸ hhg, hkp.after hlv hhg hac' hbl',
      (drained_after_iff hlv hdd x).mpr hb⟩

/-- A vote for a later round is buffered unless its phase is open, and
counted once its block is accepted. -/
theorem early_vote_kept (config : BftConfig) (head : Block) (seed : Arr 32) (pre : List Call)
    (he : e = (fresh c config head seed).afterCalls c pre) (hactive : e.coordinator = some co)
    (hheight : v.height.toNat = e.headNumber.toNat + 1) (hround : co.round < v.round)
    (hsigned : v.verifies c p e.validatorSet = true) : (((e.submitRemoteVote c p v).2 = .ok () ∧
        v ∈ (e.after c (.submitRemoteVote p v)).pending p) ↔
      (co.phase = p.phase → co.proposedBlock = some v.blockHash)) ∧
    ((co.phase = p.phase → co.proposedBlock = some v.blockHash) → ∀ xs e₂,
      Along (after c) (fun e x => WaitsFor (e.after c x) v) (e.after c (.submitRemoteVote p v)) xs →
      e₂ = (e.after c (.submitRemoteVote p v)).afterCalls c xs → v ∈ e₂.pending p ∧
      ∀ co₂ block proof ys, e₂.coordinator = some co₂ → co₂.round = v.round →
        block.hash c = v.blockHash → (e₂.submitRemoteProposal c block proof).2 = .ok () →
        Along (after c) (fun e x => Voting (e.after c x) ∧
          ∀ q, ∀ w ∈ e.pending q, ¬ Unblocks c e x q w)
          (e₂.after c (.submitRemoteProposal block proof)) ys →
        Counted ((e₂.after c (.submitRemoteProposal block proof)).afterCalls c ys) p v) := by
  have hlv := he ▸ (Live.fresh config head seed).afterCalls pre
  have hnx := he ▸ (AtNext.fresh config head seed).afterCalls pre
  have hb := submitRemoteVote_early_iff (p := p) hlv hactive (lt_of_next hheight)
    (hnx.height_eq hactive hheight) hround
  refine ⟨hb, fun hbl xs e₂ hwa he₂ => ?_⟩
  have hfr := ((after_outcome c e _).buffers hlv (submitRemoteVote_busy p v hactive)).frame
  have hwt : Waiting c e.validatorSet p v e₂ := by
    rw [he₂]
    refine Waiting.afterCalls ?_ hwa
    exact ⟨hlv.afterCalls [.submitRemoteVote p v], hnx.afterCalls [.submitRemoteVote p v],
      hfr.2, hfr.1 ▸ hheight, (hb.mpr hbl).2⟩
  refine ⟨hwt.buffered, fun co₂ block proof ys hactive₂ hround₂ hhs hok hr => ?_⟩
  obtain ⟨hkp, hdd⟩ := Kept.accepted hwt.live hactive₂ (lt_of_next hwt.next)
    (hwt.atNext.height_eq hactive₂ hwt.next).symm hround₂.symm
    (hwt.set.symm ▸ hsigned) hwt.buffered hhs hok
  have hfr₃ := ((after_outcome c e₂ _).buffers hwt.live hkp.busy).frame
  exact hkp.afterCalls (hwt.live.afterCalls [.submitRemoteProposal block proof])
    (hfr₃.1 ▸ lt_of_next hwt.next) hdd hr

def earlyFollower : BftEngine :=
  (memberEngine 0).afterCalls .reference [.castProposal none]

def laterProposal : Block × LeaderProof :=
  (((memberEngine 1).after .reference .tickTimeout).castProposal
    .reference none).2.toOption.getD leaderProposal

def laterPrevote : Vote := memberVote .prevote 1 (laterProposal.1.hash .reference) 1

def lateFollower : BftEngine :=
  (earlyFollower.after .reference (.submitRemoteVote .prevote laterPrevote)).afterCalls
    .reference [.tickTimeout]

theorem later_prevote_counted : Counted ((lateFollower.after .reference
      (.submitRemoteProposal laterProposal.1 laterProposal.2)).afterCalls .reference [])
      .prevote laterPrevote := by
  obtain ⟨co, hac, hrn, hph⟩ : ∃ co ∈ earlyFollower.coordinator,
      co.round < laterPrevote.round ∧ co.phase ≠ prevote.phase := by decide +kernel
  obtain ⟨co₂, hac₂, hrn₂⟩ : ∃ co₂ ∈ lateFollower.coordinator,
      co₂.round = laterPrevote.round := by decide +kernel
  have hkp := (early_vote_kept (referenceConfig followerSet 0 5) (referenceHead followerConfig 7)
    (referenceConfig followerSet 0 5).initialSeed [.castProposal none]
    (show earlyFollower = _ from rfl) hac (by decide +kernel) hrn (by decide +kernel)).2
    (fun h => absurd h hph) [.tickTimeout] lateFollower (by decide +kernel) rfl
  exact hkp.2 co₂ laterProposal.1 laterProposal.2 [] hac₂ hrn₂ (by decide +kernel)
    (by decide +kernel) trivial

/-- With a proposal in round 0 the same vote is refused: the tally
compares the block before the round. -/
theorem later_prevote_refused : ((memberEngine 0).afterCalls .reference
      [.submitRemoteProposal leaderProposal.1 leaderProposal.2]).coordinator.map (·.round) =
        some 0 ∧ laterPrevote.round = 1 ∧
      laterPrevote.verifies .reference .prevote (memberEngine 0).validatorSet = true ∧
      (((memberEngine 0).afterCalls .reference
        [.submitRemoteProposal leaderProposal.1 leaderProposal.2]).submitRemoteVote
          .reference .prevote laterPrevote).2 = .error .wrongBlockHash ∧
      (((memberEngine 0).afterCalls .reference
        [.submitRemoteProposal leaderProposal.1 leaderProposal.2]).submitRemoteVote
          .reference .prevote laterPrevote).1.pendingPrevotes = [] := by
  decide +kernel

end BftEngine

end Aii.Bft
