/-
Aii.Bft.Network — honest drivers, a hostile network, and what was cast.

A network state is one driver for each validator and the LOG of the votes
honest drivers have cast.
-/
import Aii.Bft.ChainLink
import Aii.Common.LockedVoting

namespace Aii.Bft

open Common Chain List UInt32 VoteTallier RoundCoordinator

/-! ## Casts -/

/-- A vote cast by validator `voter` of `vs`, without its signature. -/
structure Cast (vs : ValidatorSet) where
  voter : Fin vs.size
  phase : VotePhase
  blockHash : H256
  height : UInt64
  round : UInt32
  deriving DecidableEq

def VotePhase.kind : VotePhase → BallotKind
  | .prevote => .prevote
  | .precommit => .precommit

section Casts

variable {vs : ValidatorSet} {p : VotePhase} {honest : Finset (Fin vs.size)} {b : H256} {v : Vote}
  {height : UInt64}

/-- The cast behind a vote message of validator `i`. -/
def castOf (i : Fin vs.size) (p : VotePhase) (v : Vote) : Cast vs :=
  ⟨i, p, v.blockHash, v.height, v.round⟩

namespace Cast

def ballot (x : Cast vs) : Ballot (Fin vs.size) UInt64 H256 :=
  ⟨x.phase.kind, x.voter, x.height, x.round.toNat, x.blockHash⟩

def preimage (x : Cast vs) : Bytes := votePreimage x.phase x.blockHash x.height x.round

def digest (c : Crypto) (x : Cast vs) : Bytes := voteDigest c x.phase x.blockHash x.height x.round

end Cast

abbrev ballots (log : List (Cast vs)) : List (Ballot (Fin vs.size) UInt64 H256) :=
  log.map Cast.ballot

lemma mem_ballots {log : List (Cast vs)} {i : Fin vs.size} {round : UInt32} :
    ⟨p.kind, i, height, round.toNat, b⟩ ∈ ballots log ↔ ⟨i, p, b, height, round⟩ ∈ log := by
  constructor
  · intro h
    obtain ⟨⟨j, q, b', h', r'⟩, hm, heq⟩ := mem_map.mp h
    injection heq with hk hi hh hr hb
    obtain rfl : q = p := by cases p <;> cases q <;> first | rfl | cases hk
    obtain rfl : r' = round := UInt32.toNat_inj.mp hr
    obtain rfl : j = i := hi
    obtain rfl : h' = height := hh
    obtain rfl : b' = b := hb
    exact hm
  · exact fun h => mem_map_of_mem h

lemma exists_cast_of_mem_ballots {log : List (Cast vs)} {i : Fin vs.size} {r : Nat}
    (h : ⟨p.kind, i, height, r, b⟩ ∈ ballots log) :
    ∃ round : UInt32, round.toNat = r ∧ ⟨i, p, b, height, round⟩ ∈ log := by
  obtain ⟨x, hx, heq⟩ := mem_map.mp h
  have hr : x.round.toNat = r := congrArg Ballot.round heq
  refine ⟨x.round, hr, mem_ballots.mp ?_⟩
  rw [hr]
  exact h

/-- Log the votes among the messages `i` broadcasts, each one once. -/
def logCasts (i : Fin vs.size) (log : List (Cast vs)) (msgs : List BftMessage) : List (Cast vs) :=
  msgs.foldl (fun log msg =>
    match msg.vote? with
    | none => log
    | some (p, v) => if castOf i p v ∈ log then log else log ++ [castOf i p v]) log

variable {i : Fin vs.size} {log : List (Cast vs)} {c : Crypto}

lemma logCasts_append (msgs msgs' : List BftMessage) :
    logCasts i log (msgs ++ msgs') = logCasts i (logCasts i log msgs) msgs' :=
  foldl_append

lemma logCasts_novote {msgs : List BftMessage} (h : ∀ msg ∈ msgs, msg.vote? = none) :
    logCasts i log msgs = log := by
  induction msgs with
  | nil => rfl
  | cons msg _ ih =>
    rw [logCasts, foldl_cons, h msg mem_cons_self]
    exact ih (forall_mem_cons.mp h).2

lemma logCasts_vote {msg : BftMessage} (h : msg.vote? = some (p, v)) :
    logCasts i log [msg] = if castOf i p v ∈ log then log else log ++ [castOf i p v] := by
  rw [logCasts, foldl_cons, foldl_nil, h]

lemma logCasts_grows (msgs : List BftMessage) :
    log ⊆ logCasts i log msgs ∧ ∀ x ∈ logCasts i log msgs, x ∈ log ∨ x.voter = i := by
  induction msgs generalizing log with
  | nil => exact ⟨List.Subset.refl _, fun x hx => .inl hx⟩
  | cons msg msgs ih =>
    have hsi : logCasts i log (msg :: msgs) = logCasts i (logCasts i log [msg]) msgs :=
      logCasts_append [msg] msgs
    rw [hsi]
    obtain ⟨hs, hn⟩ := @ih (logCasts i log [msg])
    cases hv : msg.vote? with
    | none =>
      have hsm : logCasts i log [msg] = log := logCasts_novote (by simpa using hv)
      rw [hsm] at hs hn ⊢
      exact ⟨hs, hn⟩
    | some pv =>
      obtain ⟨p, v⟩ := pv
      rw [logCasts_vote hv] at hs hn ⊢
      split_ifs at hs hn ⊢ with hin
      · exact ⟨hs, hn⟩
      · refine ⟨fun x hx => hs (mem_append_left _ hx), fun x hx => ?_⟩
        rcases hn x hx with hx | hx
        · rcases mem_append.mp hx with hx | hx
          · exact .inl hx
          · exact .inr (mem_singleton.mp hx ▸ rfl)
        · exact .inr hx

/-- Validator `j` signed this vote: it signed the digest, and the digest
of nothing else that was cast. -/
def Signed (c : Crypto) (log : List (Cast vs)) (j : Fin vs.size) (p : VotePhase) (b : H256)
    (h : UInt64) (r : UInt32) : Prop :=
  (∃ x ∈ log, x.voter = j ∧ x.digest c = voteDigest c p b h r) ∧
    ∀ x ∈ log, x.digest c = voteDigest c p b h r → x.preimage = votePreimage p b h r

lemma Signed.mem {j : Fin vs.size} {h : UInt64} {r : UInt32} (hs : Signed c log j p b h r) :
    ⟨j, p, b, h, r⟩ ∈ log := by
  obtain ⟨⟨x, hx, hvr, hd⟩, hc⟩ := hs
  obtain ⟨hp, hb, hh, hr⟩ := votePreimage_inj (hc x hx hd)
  obtain ⟨voter, phase, blockHash, height, round⟩ := x
  subst hvr hp hb hh hr
  exact hx

/-- Signatures of honest validators in the delivered message are theirs. -/
structure Genuine (c : Crypto) (honest : Finset (Fin vs.size)) (log : List (Cast vs))
    (m : BftGossip.Micro) : Prop where
  vote : ∀ p v, m.message c = some (.ofVote p v) → v.verifies c p vs = true →
    ∀ j ∈ honest, v.validatorIndex.toNat = j → Signed c log j p v.blockHash v.height v.round
  certificate : ∀ bytes cert, m.message c = some (.blockResponse bytes cert) →
    PrecommitCertificate.verify c cert vs = .ok () →
    ∀ j ∈ honest, j ∈ cert.signerSet vs →
      Signed c log j .precommit cert.blockHash cert.height cert.round

def Authentic (c : Crypto) (honest : Finset (Fin vs.size)) (log : List (Cast vs)) (p : VotePhase)
    (v : Vote) : Prop :=
  v.verifies c p vs = true → ∀ j ∈ honest, v.validatorIndex.toNat = j → castOf j p v ∈ log

lemma Genuine.authentic {m : BftGossip.Micro} (h : Genuine c honest log m)
    (hm : m.message c = some (.ofVote p v)) : Authentic c honest log p v :=
  fun hv j hj hi => (h.vote p v hm hv j hj hi).mem

lemma Authentic.mono {log' : List (Cast vs)} (h : Authentic c honest log p v) (hl : log ⊆ log') :
    Authentic c honest log' p v :=
  fun hv j hj hi => hl (h hv j hj hi)

end Casts

/-! ## Coordinators and the log -/

section Coordinators

variable {vs : ValidatorSet} (c : Crypto) (honest : Finset (Fin vs.size)) (log : List (Cast vs))

def Backed (p : VotePhase) (height : UInt64) (round : UInt32) (b : H256) : Prop :=
  Supported vs.stakeAt honest (ballots log) p.kind height round.toNat b

/-- The tally counts votes for `b` at `(height, round)`; the honest ones
are in the log. -/
structure TallyInv (p : VotePhase) (height : UInt64) (round : UInt32) (b : H256)
    (t : VoteTallier) : Prop where
  wf : t.WF vs
  blockHash_eq : t.blockHash = b
  height_eq : t.height = height
  round_eq : t.round = round
  voted : ∀ j ∈ t.voters vs, j ∈ honest → ⟨j, p, b, height, round⟩ ∈ log

structure CoordInv (co : RoundCoordinator) : Prop where
  vs_eq : co.vs = vs
  prevoting : co.phase = .prevoting → ∃ b t, co.proposedBlock = some b ∧
    co.prevoteTally = some t ∧ TallyInv honest log .prevote co.height co.round b t
  precommitting : co.phase = .precommitting → ∃ b t, co.proposedBlock = some b ∧
    co.precommitTally = some t ∧ TallyInv honest log .precommit co.height co.round b t ∧
    Backed honest log .prevote co.height co.round b ∧
    ∃ lk, co.locked = some lk ∧ lk.round = co.round
  committed : co.phase = .committed → ∃ b, co.proposedBlock = some b ∧
    Backed honest log .precommit co.height co.round b
  locked : ∀ lk, co.locked = some lk →
    lk.round ≤ co.round ∧ Backed honest log .prevote co.height lk.round lk.blockHash

variable {c honest log} {log' : List (Cast vs)} {p : VotePhase} {height : UInt64} {round : UInt32}
  {b : H256} {t : VoteTallier}

lemma Backed.mono (h : Backed honest log p height round b) (hl : log ⊆ log') :
    Backed honest log' p height round b :=
  Supported.mono h (map_subset _ hl)

lemma TallyInv.mono (h : TallyInv honest log p height round b t) (hl : log ⊆ log') :
    TallyInv honest log' p height round b t :=
  ⟨h.wf, h.blockHash_eq, h.height_eq, h.round_eq, fun j hj hh => hl (h.voted j hj hh)⟩

lemma CoordInv.mono {co : RoundCoordinator} (h : CoordInv honest log co) (hl : log ⊆ log') :
    CoordInv honest log' co where
  vs_eq := h.vs_eq
  prevoting hp := by
    obtain ⟨b, t, hb, ht, hi⟩ := h.prevoting hp
    exact ⟨b, t, hb, ht, hi.mono hl⟩
  precommitting hp := by
    obtain ⟨b, t, hb, ht, hi, hbk, hlc⟩ := h.precommitting hp
    exact ⟨b, t, hb, ht, hi.mono hl, hbk.mono hl, hlc⟩
  committed hp := by
    obtain ⟨b, hb, hbk⟩ := h.committed hp
    exact ⟨b, hb, hbk.mono hl⟩
  locked lk hlk := ⟨(h.locked lk hlk).1, (h.locked lk hlk).2.mono hl⟩

lemma TallyInv.new (p : VotePhase) (height : UInt64) (round : UInt32) (b : H256) :
    TallyInv honest log p height round b (.new b height round vs) where
  wf := .new b height round vs
  blockHash_eq := rfl
  height_eq := rfl
  round_eq := rfl
  voted j hj := by simp [VoteTallier.voters, VoteTallier.new] at hj

lemma TallyInv.submit {t' : VoteTallier} {v : Vote} {st : TallyState}
    (h : TallyInv honest log p height round b t) (hv : Authentic c honest log p v)
    (hok : t.submit c p v = .ok (t', st)) : TallyInv honest log p height round b t' := by
  obtain ⟨hb, hh, hr, -, hvr, val, hg, rfl, -⟩ := submit_ok hok
  refine ⟨h.wf.submit hok, h.blockHash_eq, h.height_eq, h.round_eq, fun j hj hhn => ?_⟩
  rw [h.wf.vs_eq] at hvr hg
  obtain ⟨hi, -⟩ := List.getElem?_eq_some_iff.mp hg
  rw [voters_add t v.blsSig val hi] at hj
  rcases Finset.mem_insert.mp hj with rfl | hj
  · have hca := hv hvr ⟨v.validatorIndex.toNat, hi⟩ hhn rfl
    rw [castOf, hb, hh, hr, h.blockHash_eq, h.height_eq, h.round_eq] at hca
    exact hca
  · exact h.voted j hj hhn

lemma TallyInv.backed {cert : QuorumCertificate} (hT : vs.total < 2 ^ 63)
    (h : TallyInv honest log p height round b t) (hcr : t.tryCertify c = some cert) :
    Backed honest log p height round b :=
  ⟨t.voters vs, (ValidatorSet.isQuorum_iff hT _).mpr (h.wf.threshold_le hcr),
    fun j hj hh => mem_ballots.mpr (h.voted j hj hh)⟩

namespace CoordInv

variable {co co' : RoundCoordinator} {v : Vote}

lemma new (height : UInt64) (seed : Arr 32) : CoordInv honest log (.new height seed vs) where
  vs_eq := rfl
  prevoting := nofun
  precommitting := nofun
  committed := nofun
  locked := nofun

lemma submitProposal {b : H256} {proof : LeaderProof} (h : CoordInv honest log co)
    (hok : co.submitProposal c b proof = .ok co') : CoordInv honest log co' := by
  obtain rfl := submitProposal_eq hok
  refine ⟨h.vs_eq, fun _ => ⟨b, _, rfl, rfl, ?_⟩, nofun, nofun, h.locked⟩
  rw [h.vs_eq]
  exact .new .prevote co.height co.round b

section Votes

variable (hT : vs.total < 2 ^ 63) (h : CoordInv honest log co)

include hT h

lemma submitPrevote (hv : Authentic c honest log .prevote v)
    (hok : co.submitPrevote c v = .ok co') :
    CoordInv honest log co' := by
  obtain ⟨hph, t, t', st, ht, hs, hcs⟩ := submitPrevote_ok hok
  obtain ⟨b, t₀, hb, ht₀, hinv⟩ := h.prevoting hph
  cases ht.symm.trans ht₀
  have hinv' := hinv.submit hv hs
  rcases hcs with ⟨-, rfl⟩ | ⟨polc, block, -, hcr, hbl, rfl⟩
  · refine ⟨h.vs_eq, fun _ => ⟨b, t', hb, rfl, hinv'⟩, ?_, ?_, h.locked⟩
    · exact fun hp => absurd (hph.symm.trans hp) (by decide)
    · exact fun hp => absurd (hph.symm.trans hp) (by decide)
  · cases hb.symm.trans hbl
    have hbk := hinv'.backed hT hcr
    have hl := relock_eq (fun lk hlk => (h.locked lk hlk).1) b polc
    refine ⟨h.vs_eq, nofun, fun _ => ⟨b, _, hb, rfl, ?_, hbk, _, hl, rfl⟩, nofun, ?_⟩
    · rw [h.vs_eq]
      exact .new .precommit co.height co.round b
    · intro lk hlk
      cases hl.symm.trans hlk
      exact ⟨UInt32.le_refl _, hbk⟩

lemma submitPrecommit (hv : Authentic c honest log .precommit v)
    (hok : co.submitPrecommit c v = .ok co') :
    CoordInv honest log co' := by
  obtain ⟨hph, t, t', st, ht, hs, hcs⟩ := submitPrecommit_ok hok
  obtain ⟨b, t₀, hb, ht₀, hinv, hbk, hl⟩ := h.precommitting hph
  cases ht.symm.trans ht₀
  have hinv' := hinv.submit hv hs
  rcases hcs with ⟨-, rfl⟩ | ⟨cert, -, hcr, rfl⟩
  · refine ⟨h.vs_eq, ?_, fun _ => ⟨b, t', hb, rfl, hinv', hbk, hl⟩, ?_, h.locked⟩
    · exact fun hp => absurd (hph.symm.trans hp) (by decide)
    · exact fun hp => absurd (hph.symm.trans hp) (by decide)
  · exact ⟨h.vs_eq, nofun, nofun, fun _ => ⟨b, hb, hinv'.backed hT hcr⟩, h.locked⟩

lemma submitVote {p : VotePhase} (hv : Authentic c honest log p v)
    (hok : co.submitVote c p v = .ok co') :
    CoordInv honest log co' := by
  cases p with
  | prevote => exact h.submitPrevote hT hv hok
  | precommit => exact h.submitPrecommit hT hv hok

end Votes

lemma fireTimeout (h : CoordInv honest log co) : CoordInv honest log co.fireTimeout := by
  unfold RoundCoordinator.fireTimeout
  split_ifs with hph
  · exact h
  · refine ⟨h.vs_eq, nofun, nofun, nofun, fun lk hlk => ?_⟩
    obtain ⟨hle, hbk⟩ := h.locked lk hlk
    exact ⟨UInt32.le_trans hle (le_satAdd32 co.round 1), hbk⟩

end CoordInv

end Coordinators

end Aii.Bft
