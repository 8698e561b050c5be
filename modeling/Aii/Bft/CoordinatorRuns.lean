/-
Aii.Bft.CoordinatorRuns — tallies and coordinators over any run of calls.

A tally counts the votes it accepted, and a coordinator is in a state its
phase describes: no call panics.
-/
import Aii.Bft.Calls
import Aii.Bft.CommitPaths

namespace Aii.Bft

open Common Chain List VoteTallier UInt32 Prod

namespace VoteTallier

variable {c : Crypto} {p : VotePhase} {vs : ValidatorSet} {t t' : VoteTallier} {v : Vote}
  {st : TallyState}

variable (c p) in
/-- The votes of a run that the tallier accepts. -/
def acceptedVotes : VoteTallier → List Vote → List Vote
  | _, [] => []
  | t, v :: votes =>
    match t.submit c p v with
    | .ok (t', _) => v :: acceptedVotes t' votes
    | .error _ => acceptedVotes t votes

variable (c p vs) in
/-- The validators whose vote the tallier accepts. -/
def acceptedVoters (t : VoteTallier) (votes : List Vote) : Finset (Fin vs.size) :=
  Finset.univ.filter fun i => UInt32.ofNat i ∈ (acceptedVotes c p t votes).map (·.validatorIndex)

lemma received_submitAll (t : VoteTallier) (votes : List Vote) :
    (t.submitAll c p votes).received =
      ((acceptedVotes c p t votes).map (·.validatorIndex)).reverse ++ t.received := by
  induction votes generalizing t with
  | nil => rfl
  | cons v _ ih =>
    rw [submitAll, foldl_cons, ← submitAll, submitOrKeep, acceptedVotes]
    cases hs : t.submit c p v with
    | error => exact ih t
    | ok out =>
      obtain ⟨t', st⟩ := out
      obtain ⟨-, -, -, -, -, val, -, rfl, -⟩ := submit_ok hs
      dsimp only
      rw [ih]
      simp [add]

lemma voters_submitAll (b : H256) (h : UInt64) (r : UInt32) (votes : List Vote) :
    ((new b h r vs).submitAll c p votes).voters vs =
      acceptedVoters c p vs (.new b h r vs) votes := by
  unfold voters acceptedVoters
  rw [received_submitAll]
  simp [new]

lemma Signed.bitmap (h : t.Signed c p vs) (n : Nat) :
    t.signerBitmap.getLsbD n = true ↔ ∃ i ∈ t.voters vs, (i : Nat) = n := by
  obtain ⟨order, -, hv, -, hbi⟩ := h.voters
  simp only [hbi, hv]

/-- **A tally counts the accepted votes**, in both phases. -/
theorem tally_counts_accepted (c : Crypto) (hagg : AggregateComplete c) (p : VotePhase)
    (vs : ValidatorSet) (hT : vs.total < 2 ^ 63) (b : H256) (h : UInt64) (r : UInt32)
    (votes : List Vote) :
    let t := (VoteTallier.new b h r vs).submitAll c p votes
    let S := acceptedVoters c p vs (.new b h r vs) votes
    ((acceptedVotes c p (.new b h r vs) votes).map (·.validatorIndex)).Nodup ∧
      (∀ n, t.signerBitmap.getLsbD n = true ↔ ∃ i ∈ S, (i : Nat) = n) ∧
      t.stakeCollected.toNat = ∑ i ∈ S, vs.stakeAt i ∧
      (∀ v e, t.submit c p v = .error e → t.submitOrKeep c p v = t) ∧
      (∀ v t' st, t.submit c p v = .ok (t', st) → (st = .reachedQuorum ↔ 2 * vs.total / 3 + 1 ≤
        ∑ i ∈ acceptedVoters c p vs (.new b h r vs) (votes ++ [v]), vs.stakeAt i)) ∧
      ∀ cert, t.tryCertify c = some cert → cert.verify c p vs = .ok () := by
  intro t S
  have hsg : t.Signed c p vs :=
    submitAll_keeps (.new b h r vs) votes fun _ _ _ _ hs hsb => (hs.submit hsb).1
  have hv : t.voters vs = S := voters_submitAll b h r votes
  refine ⟨?_, fun n => hv ▸ hsg.bitmap n, hv ▸ hsg.wf.stake, ?_, ?_,
    fun cert hcr => (hsg.verify hagg hcr).1⟩
  · have hnp : t.received.Nodup := by
      refine submitAll_keeps (P := (·.received.Nodup)) nodup_nil votes fun _ _ _ _ hs hsb => ?_
      obtain ⟨-, -, -, hn, -, val, -, rfl, -⟩ := submit_ok hsb
      exact nodup_cons.mpr ⟨hn, hs⟩
    rw [received_submitAll] at hnp
    simpa [new] using hnp
  · intro v e he
    rw [submitOrKeep, he]
  · intro v t' st hsb
    have haf : (new b h r vs).submitAll c p (votes ++ [v]) = t' := by
      rw [submitAll, foldl_append, foldl_cons, foldl_nil, ← submitAll, submitOrKeep, hsb]
    have hsk := (hsg.submit hsb).1.wf.stake
    rw [← haf, voters_submitAll, haf] at hsk
    obtain ⟨-, -, -, -, -, val, -, rfl, rfl⟩ := submit_ok hsb
    rw [← vs.quorumThreshold_exact hT, ← weight, ← hsk, ← UInt64.le_iff_toNat_le, state]
    have hvs : (t.add v.validatorIndex v.blsSig val).vs = vs := hsg.wf.vs_eq
    rw [hvs]
    split_ifs with hq <;> simp [hq]

/-- Validators 0, 2 and 3 vote, 2 twice, and a vote of 1 has the key of 0. -/
def quartetVotes : List Vote :=
  [(1, 0), (3, 2), (3, 2), (1, 1), (4, 3)].map fun (key, i) =>
    signVote .reference .prevote (arrOfNat 32 key) (Arr.zero 32) 1 0 i

theorem tally_counts_accepted_quartet :
    let t := (VoteTallier.new (Arr.zero 32) 1 0 quartet).submitAll .reference .prevote quartetVotes
    t.stakeCollected.toNat = ∑ i ∈ acceptedVoters .reference .prevote quartet
        (.new (Arr.zero 32) 1 0 quartet) quartetVotes, quartet.stakeAt i ∧
      t.stakeCollected = 3 ∧ t.signerBitmap = 0b1101 :=
  ⟨(tally_counts_accepted .reference Crypto.reference_aggregateComplete .prevote quartet
    (by decide) _ _ _ _).2.2.1, by decide +kernel, by decide +kernel⟩

end VoteTallier

lemma VoteTallier.submit_not_panicked {c : Crypto} {p : VotePhase} {t : VoteTallier} {v : Vote}
    {msg : String} : t.submit c p v ≠ .error (.panicked msg) := by
  unfold submit
  split_ifs <;> try simp
  all_goals
    cases t.vs.validators[v.validatorIndex.toNat]? with
    | none => simp
    | some => simp; try split_ifs <;> simp

namespace RoundCoordinator

variable {c : Crypto} {co co' : RoundCoordinator} {p : VotePhase} {v : Vote}

/-- A call of one of the public methods. -/
inductive CoordinatorCall where
  | proposal (blockHash : H256) (proof : LeaderProof)
  | vote (p : VotePhase) (vote : Vote)
  | timeout

variable (c) in
def result (co : RoundCoordinator) : CoordinatorCall → Except BftError RoundCoordinator
  | .proposal blockHash proof => co.submitProposal c blockHash proof
  | .vote p v => co.submitVote c p v
  | .timeout => .ok co.fireTimeout

/-- What has been accepted as a proposal, with the round. -/
abbrev Proposals := List (UInt32 × H256)

variable (c) in
def afterCall (s : RoundCoordinator × Proposals) (x : CoordinatorCall) :
    RoundCoordinator × Proposals :=
  match s.1.result c x, x with
  | .error _, _ => s
  | .ok co, .proposal blockHash _ => (co, (s.1.round, blockHash) :: s.2)
  | .ok co, _ => (co, s.2)

/-- The proposal, the tallies, the POLC and the certificate that are there
in a phase. -/
def Present (co : RoundCoordinator) : Prop :=
  (co.proposedBlock.isSome, co.prevoteTally.isSome, co.precommitTally.isSome, co.polc.isSome,
    co.finalCert.isSome) =
  match co.phase with
  | .awaitingProposal => (false, false, false, false, false)
  | .prevoting => (true, true, false, false, false)
  | .precommitting => (true, true, true, true, false)
  | .committed => (true, true, true, true, true)

def LastRound : UInt32 := 0xffffffff

/-- Past the last round the counter stays, so only there a round can have
two proposals. -/
structure RunInv (s : RoundCoordinator × Proposals) : Prop where
  coherent : s.1.Coherent
  present : s.1.Present
  lock : ∀ l, s.1.locked = some l → l.round ≤ s.1.round ∧ (l.round, l.blockHash) ∈ s.2
  proposed : ∀ b, s.1.proposedBlock = some b → (s.1.round, b) ∈ s.2
  past : ∀ q ∈ s.2, q.1 < s.1.round ∨
    q.1 = s.1.round ∧ (s.1.phase ≠ .awaitingProposal ∨ s.1.round = LastRound)
  unique : ∀ r b b', (r, b) ∈ s.2 → (r, b') ∈ s.2 → r ≠ LastRound → b = b'
  cert : ∀ cert, s.1.finalCert = some cert → s.1.proposedBlock = some cert.blockHash ∧
    cert.height = s.1.height ∧ cert.round = s.1.round

lemma TallyFor.certificate {t : VoteTallier} {cert : QuorumCertificate} (h : co.TallyFor t)
    (hcr : t.tryCertify c = some cert) : co.proposedBlock = some cert.blockHash ∧
      cert.height = co.height ∧ cert.round = co.round := by
  unfold tryCertify at hcr
  split_ifs at hcr
  obtain ⟨sig, -, rfl⟩ := Option.map_eq_some_iff.mp hcr
  exact ⟨h.block, h.height, h.round⟩

variable {s : RoundCoordinator × Proposals}

lemma RunInv.new (height : UInt64) (seed : Arr 32) (vs : ValidatorSet) :
    RunInv (.new height seed vs, []) where
  coherent := .of_awaiting rfl rfl
  present := rfl
  lock := nofun
  proposed := nofun
  past := nofun
  unique := nofun
  cert := nofun

lemma RunInv.proposal (h : RunInv s) {b : H256} {proof : LeaderProof}
    (hok : s.1.submitProposal c b proof = .ok co') : RunInv (co', (s.1.round, b) :: s.2) := by
  have hc := Coherent.submitProposal hok
  obtain ⟨hph, -, rfl⟩ := submitProposal_ok hok
  have hp := h.present
  rw [Present, hph] at hp
  -- a proposal of this round is there already only in the last round
  have ho : ∀ b', (s.1.round, b') ∈ s.2 → s.1.round = LastRound := by
    intro b' hb'
    rcases h.past _ hb' with hlt | ⟨-, hla | hlast⟩
    · exact absurd hlt (UInt32.lt_irrefl _)
    · exact absurd hph hla
    · exact hlast
  refine ⟨hc, ?_, ?_, ?_, ?_, ?_, ?_⟩
  · simp_all [Present, withProposal]
  · exact fun l hl => ⟨(h.lock l hl).1, mem_cons_of_mem _ (h.lock l hl).2⟩
  · rintro _ ⟨⟩
    exact mem_cons_self
  · intro q hq
    rcases mem_cons.mp hq with rfl | hq
    · exact .inr ⟨rfl, .inl (by simp [withProposal])⟩
    · exact (h.past q hq).imp_right fun hq => ⟨hq.1, .inl (by simp [withProposal])⟩
  · intro r b₁ b₂ h₁ h₂ hr
    rcases mem_cons.mp h₁ with heq₁ | h₁ <;> rcases mem_cons.mp h₂ with heq₂ | h₂
    · rw [(Prod.mk.inj heq₁).2, (Prod.mk.inj heq₂).2]
    · exact absurd (ho b₂ ((Prod.mk.inj heq₁).1 ▸ h₂)) ((Prod.mk.inj heq₁).1 ▸ hr)
    · exact absurd (ho b₁ ((Prod.mk.inj heq₂).1 ▸ h₁)) ((Prod.mk.inj heq₂).1 ▸ hr)
    · exact h.unique r b₁ b₂ h₁ h₂ hr
  · intro cert hcr
    have hnn : s.1.finalCert = none := by simpa using congrArg (·.2.2.2.2) hp
    rw [show (s.1.withProposal b).finalCert = s.1.finalCert from rfl, hnn] at hcr
    cases hcr

lemma RunInv.timeout (h : RunInv s) : RunInv (s.1.fireTimeout, s.2) := by
  have hc := h.coherent.fireTimeout
  by_cases hph : s.1.phase = .committed
  · rwa [fireTimeout, if_pos hph]
  have hcr : s.1.finalCert = none := by
    have hpr := h.present
    unfold Present at hpr
    cases hp : s.1.phase <;> simp_all
  have hrn := le_satAdd32 s.1.round 1
  rw [fireTimeout, if_neg hph] at hc ⊢
  refine ⟨hc, by simp [Present, hcr], ?_, by simp, ?_, h.unique, by simp [hcr]⟩
  · exact fun l hl => ⟨UInt32.le_trans (h.lock l hl).1 hrn, (h.lock l hl).2⟩
  · intro q hq
    have hle : q.1.toNat ≤ s.1.round.toNat := by
      rcases h.past q hq with hlt | ⟨heq, -⟩
      · exact Nat.le_of_lt (lt_iff_toNat_lt.mp hlt)
      · rw [heq]
    have hnx := satAdd32_toNat s.1.round 1
    have hlt := s.1.round.toNat_lt
    show q.1 < satAdd32 s.1.round 1 ∨ q.1 = satAdd32 s.1.round 1 ∧
      (Phase.awaitingProposal ≠ .awaitingProposal ∨ satAdd32 s.1.round 1 = LastRound)
    rw [lt_iff_toNat_lt, ← UInt32.toNat_inj, ← UInt32.toNat_inj (a := satAdd32 _ _), hnx]
    have hlast : LastRound.toNat = 2 ^ 32 - 1 := rfl
    have ho : (1 : UInt32).toNat = 1 := rfl
    omega

lemma RunInv.vote (h : RunInv s) (hok : s.1.submitVote c p v = .ok co') : RunInv (co', s.2) := by
  have hc := h.coherent.submitVote hok
  have hp := h.present
  unfold Present at hp
  cases p with
  | prevote =>
    obtain ⟨hph, t, t', st, ht, hs, hcs⟩ := submitPrevote_ok hok
    rw [hph] at hp
    rcases hcs with ⟨-, rfl⟩ | ⟨polc, block, -, -, hbl, rfl⟩
    · refine ⟨hc, ?_, h.lock, h.proposed, h.past, h.unique, h.cert⟩
      simp_all [Present]
    · refine ⟨hc, ?_, ?_, h.proposed, ?_, h.unique, h.cert⟩
      · simp_all [Present, withPolc]
      · intro l hl
        rw [show (s.1.withPolc t' block polc).locked = s.1.relock block polc from rfl,
          relock_eq fun l hl => (h.lock l hl).1] at hl
        cases hl
        exact ⟨UInt32.le_refl _, h.proposed block hbl⟩
      · exact fun q hq => (h.past q hq).imp_right fun hq => ⟨hq.1, .inl (by simp [withPolc])⟩
  | precommit =>
    obtain ⟨hph, t, t', st, ht, hs, hcs⟩ := submitPrecommit_ok hok
    rw [hph] at hp
    rcases hcs with ⟨-, rfl⟩ | ⟨cert, -, hcr, rfl⟩
    · refine ⟨hc, ?_, h.lock, h.proposed, h.past, h.unique, h.cert⟩
      simp_all [Present]
    · obtain ⟨t₁, ht₁, hf⟩ := h.coherent.voting .precommit hph
      cases ht.symm.trans ht₁
      refine ⟨hc, ?_, h.lock, h.proposed, ?_, h.unique, ?_⟩
      · simp_all [Present]
      · exact fun q hq => (h.past q hq).imp_right fun hq => ⟨hq.1, .inl (by simp)⟩
      · rintro _ ⟨⟩
        exact (hf.submit hs).certificate hcr

lemma RunInv.keeps (h : RunInv s) (x : CoordinatorCall) : RunInv (afterCall c s x) := by
  unfold afterCall
  cases hr : s.1.result c x with
  | error => exact h
  | ok =>
    cases x with
    | proposal => exact h.proposal hr
    | vote => exact h.vote hr
    | timeout => exact Except.ok.inj hr ▸ h.timeout

lemma RunInv.not_panicked (h : RunInv s) (x : CoordinatorCall) (msg : String) :
    s.1.result c x ≠ .error (.panicked msg) := by
  intro hr
  cases x with
  | proposal b proof =>
    have hv : s.1.verifyLeader c proof ≠ .error (.panicked msg) := by
      have hld : s.1.leaderIndex c < s.1.vs.size := s.1.vs.selectLeader_lt ..
      unfold verifyLeader LeaderProof.verify
      rw [getElem?_eq_getElem hld]
      dsimp only
      split
      · simp
      · split_ifs <;> simp
    change s.1.submitProposal c b proof = _ at hr
    unfold submitProposal at hr
    split_ifs at hr
    · cases hr
    · split at hr
      next err he => exact hv (he.trans (Except.error.inj hr ▸ rfl))
      next => cases hr
  | vote p v =>
    by_cases hph : s.1.phase = p.phase
    · obtain ⟨t, ht, -⟩ := h.coherent.voting p hph
      cases hs : t.submit c p v with
      | error =>
        cases (submitVote_error hph ht hs).symm.trans hr
        exact submit_not_panicked hs
      | ok =>
        obtain ⟨co', hok⟩ := h.coherent.submitVote_ok hph ht hs
        cases hok.symm.trans hr
    · cases (submitVote_wrongPhase hph v).symm.trans hr
  | timeout => cases hr

lemma RunInv.grows (h : RunInv s) (x : CoordinatorCall) :
    s.1.round ≤ (afterCall c s x).1.round ∧ ∀ l, s.1.locked = some l →
      ∃ l', (afterCall c s x).1.locked = some l' ∧ l.round ≤ l'.round := by
  unfold afterCall
  cases hr : s.1.result c x with
  | error => exact ⟨UInt32.le_refl _, fun l hl => ⟨l, hl, UInt32.le_refl _⟩⟩
  | ok =>
    cases x with
    | proposal =>
      obtain rfl := submitProposal_eq hr
      exact ⟨UInt32.le_refl _, fun l hl => ⟨l, hl, UInt32.le_refl _⟩⟩
    | vote =>
      refine ⟨(submitVote_frame hr).2.1 ▸ UInt32.le_refl _, fun l hl => ?_⟩
      exact submitVote_lock_grows (fun l hl => (h.lock l hl).1) hr hl
    | timeout =>
      cases hr
      dsimp only
      unfold fireTimeout
      split_ifs
      · exact ⟨UInt32.le_refl _, fun l hl => ⟨l, hl, UInt32.le_refl _⟩⟩
      · exact ⟨le_satAdd32 _ _, fun l hl => ⟨l, hl, UInt32.le_refl _⟩⟩

lemma afterCall_committed (h : s.1.phase = .committed) (x : CoordinatorCall) :
    afterCall c s x = s := by
  unfold afterCall
  cases x with
  | proposal => simp [result, submitProposal, h]
  | vote p v =>
    have hph : s.1.phase ≠ p.phase := by cases p <;> simp [h, VotePhase.phase]
    rw [show s.1.result c (.vote p v) = _ from submitVote_wrongPhase hph v]
  | timeout => simp [result, fireTimeout, h]

/-- **One height through its rounds**: what holds after any calls. -/
theorem coordinator_invariant (c : Crypto) (height : UInt64) (seed : Arr 32) (vs : ValidatorSet)
    (xs : List CoordinatorCall) :
    let s := xs.foldl (afterCall c) (.new height seed vs, [])
    (∀ x msg, s.1.result c x ≠ .error (.panicked msg)) ∧ s.1.Present ∧
      (∀ x, s.1.round ≤ (afterCall c s x).1.round ∧ ∀ l, s.1.locked = some l →
        ∃ l', (afterCall c s x).1.locked = some l' ∧ l.round ≤ l'.round) ∧
      (∀ l, s.1.locked = some l → (l.round, l.blockHash) ∈ s.2 ∧
        (l.round ≠ LastRound → ∀ b, (l.round, b) ∈ s.2 → b = l.blockHash)) ∧
      (s.1.phase = .committed → ∀ x, afterCall c s x = s) ∧
      ∀ cert, s.1.finalCert = some cert → s.1.proposedBlock = some cert.blockHash ∧
        cert.height = s.1.height ∧ cert.round = s.1.round := by
  intro s
  have h := xs.foldlRecOn (motive := RunInv) (afterCall c) (.new height seed vs)
    fun _ hs x _ => hs.keeps x
  refine ⟨h.not_panicked, h.present, h.grows, fun l hl => ?_, afterCall_committed, h.cert⟩
  have hm := (h.lock l hl).2
  exact ⟨hm, fun hr b hb => h.unique _ _ _ hb hm hr⟩

end RoundCoordinator

end Aii.Bft
