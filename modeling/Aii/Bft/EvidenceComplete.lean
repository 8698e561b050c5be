/-
Aii.Bft.EvidenceComplete — which equivocations leave evidence that holds.

Of all votes with one key (validator, height, round) the detector keeps
the FIRST, whoever signed it.
-/
import Aii.Bft.VoteBuffers

namespace Aii.Bft

open Common Chain List Vote EquivocationEvidence

namespace BftEngine

variable (c : Crypto)

/-- The evidence of a run: what was drained, and what the next drain
hands out. -/
def evidence (e : BftEngine) (calls : List Call) : List EquivocationEvidence :=
  (runCalls c e calls).2 ++ (runCalls c e calls).1.drainEvidence.2

def inbound (p : VotePhase) (calls : List Call) : List Vote :=
  calls.filterMap fun x =>
    match x with
    | .submitRemoteVote q vote => if q = p then some vote else none
    | _ => none

/-- The first vote with the key of `v`: on record, or else coming in. -/
def firstVote (seen votes : List Vote) (v : Vote) : Option Vote :=
  (seen.find? (·.sameKey v)).or (votes.find? (·.sameKey v))

def watched (e : BftEngine) : EquivocationDetector × List EquivocationEvidence :=
  (e.detector, e.pendingEvidence)

variable {c} {e : BftEngine}

@[simp] lemma watched_drainPendingVotes : (drainPendingVotes c e).watched = e.watched := by
  obtain ⟨_, _, _, h⟩ := (drainPendingVotes_frame e).same
  rw [h]
  rfl

@[simp] lemma watched_ensureCoordinator : e.ensureCoordinator.watched = e.watched := by
  unfold ensureCoordinator
  split <;> rfl

@[simp] lemma watched_setPending (p : VotePhase) (votes : List Vote) :
    (e.setPending p votes).watched = e.watched := by
  cases p <;> rfl

def Call.watched (e : BftEngine) : Call → EquivocationDetector × List EquivocationEvidence
  | .submitRemoteVote p v => (e.recordRemote p v).watched
  | .drainEvidence => (e.detector, [])
  | _ => e.watched

lemma Outcome.watched {x : Call} {e' : BftEngine} (h : Outcome c e x e') :
    e'.watched = x.watched e := by
  cases h with
  | kept _ hn hnn =>
    cases x with
    | submitRemoteVote p v => exact absurd rfl (hn p v)
    | drainEvidence => exact absurd rfl hnn
    | _ => rfl
  | voted _ p ho =>
    subst ho
    cases p <;> rfl
  | buffered => exact watched_setPending ..
  | taken => exact watched_drainPendingVotes
  | accepted | timedOut => exact watched_drainPendingVotes.trans watched_ensureCoordinator
  | refused | notProposed | proposed => exact watched_ensureCoordinator
  | adopted _ _ _ hok =>
    obtain rfl := BftGossip.adoptSyncedBlock_eq hok
    rfl
  | _ => rfl

lemma call_cases (c : Crypto) (e : BftEngine) (x : Call) :
    (∃ p v, x = .submitRemoteVote p v ∧ (e.call c x).2 = [] ∧
        (e.call c x).1.watched = (e.recordRemote p v).watched) ∨
      (x = .drainEvidence ∧ (e.call c x).2 = e.pendingEvidence ∧
        (e.call c x).1.watched = (e.detector, [])) ∨
      ((∀ p, inbound p [x] = []) ∧ (e.call c x).2 = [] ∧ (e.call c x).1.watched = e.watched) := by
  have hw := (after_outcome c e x).watched
  cases x with
  | submitRemoteVote p v => exact .inl ⟨p, v, rfl, rfl, hw⟩
  | drainEvidence => exact .inr (.inl ⟨rfl, rfl, hw⟩)
  | _ => exact .inr (.inr ⟨fun _ => rfl, rfl, hw⟩)

lemma sameKey_trans {a b d : Vote} (h : a.sameKey b = true) (h' : b.sameKey d = true) :
    a.sameKey d = true := by
  rw [sameKey_iff] at *
  exact ⟨h.1.trans h'.1, h.2.1.trans h'.2.1, h.2.2.trans h'.2.2⟩

lemma firstVote_recordVote (p : VotePhase) (seen votes : List Vote) (w v : Vote) :
    firstVote (recordVote p seen w).1 votes v = firstVote seen (w :: votes) v := by
  unfold firstVote recordVote
  cases hw : seen.find? (·.sameKey w) with
  | none =>
    rw [find?_cons, find?_cons]
    by_cases hk : w.sameKey v = true
    · -- nobody on record has the key of `w`, so nobody has the key of `v`
      have hv : seen.find? (·.sameKey v) = none := by
        rw [find?_eq_none] at hw ⊢
        intro x hx hxv
        refine hw x hx (sameKey_trans hxv ?_)
        rw [sameKey_iff] at hk ⊢
        exact ⟨hk.1.symm, hk.2.1.symm, hk.2.2.symm⟩
      simp [hk, hv]
    · simp [hk]
  | some prior =>
    have hse : (if prior.blockHash ≠ w.blockHash then
        (seen, some (⟨p, prior, w⟩ : EquivocationEvidence)) else (seen, none)).1 = seen := by
      split_ifs <;> rfl
    rw [hse]
    by_cases hk : w.sameKey v = true
    · have hw' : prior.sameKey w = true := by simpa using find?_some hw
      have hp := sameKey_trans hw' hk
      have hso : (seen.find? (·.sameKey v)).isSome = true :=
        find?_isSome.mpr ⟨prior, mem_of_find?_eq_some hw, hp⟩
      obtain ⟨u, hu⟩ := Option.isSome_iff_exists.mp hso
      simp [hu]
    · simp [hk]

lemma mem_recordVote_iff {p : VotePhase} {seen votes : List Vote} {w : Vote}
    {ev : EquivocationEvidence} : ev ∈ (recordVote p seen w).2 ↔
      ∃ u, firstVote seen (w :: votes) w = some u ∧ u.blockHash ≠ w.blockHash ∧ ev = ⟨p, u, w⟩ := by
  have hsf : w.sameKey w = true := sameKey_iff.mpr ⟨rfl, rfl, rfl⟩
  unfold firstVote recordVote
  cases hw : seen.find? (·.sameKey w) with
  | none => simp [hsf]
  | some prior =>
    dsimp only
    constructor
    · intro hev
      split_ifs at hev with hne
      · exact ⟨prior, rfl, hne, (Option.some.inj hev).symm⟩
      · cases hev
    · grind

lemma seen_recordRemote (p q : VotePhase) (v : Vote) :
    (e.recordRemote p v).detector.seen q =
      if p = q then (recordVote p (e.detector.seen p) v).1 else e.detector.seen q := by
  cases p <;> cases q <;> rfl

lemma pendingEvidence_recordRemote (p : VotePhase) (v : Vote) :
    (e.recordRemote p v).pendingEvidence =
      e.pendingEvidence ++ (recordVote p (e.detector.seen p) v).2.toList := by
  cases p <;> rfl

lemma evidence_cons (e : BftEngine) (x : Call) (xs : List Call) :
    evidence c e (x :: xs) = (e.call c x).2 ++ evidence c (e.call c x).1 xs := by
  simp [evidence, runCalls]

lemma inbound_cons (p : VotePhase) (x : Call) (xs : List Call) :
    inbound p (x :: xs) = inbound p [x] ++ inbound p xs := by
  unfold inbound
  rw [← filterMap_append]
  rfl

/-- The evidence of a run: every vote for another block than the first
vote with its key, paired with that first vote. -/
lemma mem_evidence_iff (calls : List Call) (e : BftEngine) (ev : EquivocationEvidence) :
    ev ∈ evidence c e calls ↔ ev ∈ e.pendingEvidence ∨ ∃ p, ∃ v ∈ inbound p calls, ∃ u,
        firstVote (e.detector.seen p) (inbound p calls) v = some u ∧
          u.blockHash ≠ v.blockHash ∧ ev = ⟨p, u, v⟩ := by
  induction calls generalizing e with
  | nil => simp [evidence, runCalls, drainEvidence, inbound]
  | cons x xs ih =>
    rw [evidence_cons, mem_append, ih]
    rcases call_cases c e x with ⟨p, w, rfl, ho, hw⟩ | ⟨rfl, ho, hw⟩ | ⟨hin, ho, hw⟩
    · obtain ⟨hd, hp⟩ := Prod.mk.inj hw
      have hsm : inbound p (Call.submitRemoteVote p w :: xs) = w :: inbound p xs := by
        simp [inbound]
      have hoh : ∀ q, q ≠ p → inbound q (Call.submitRemoteVote p w :: xs) = inbound q xs := by
        intro q hq
        simp [inbound, Ne.symm hq]
      have hft : ∀ q v, firstVote ((e.recordRemote p w).detector.seen q) (inbound q xs) v =
          firstVote (e.detector.seen q) (inbound q (Call.submitRemoteVote p w :: xs)) v := by
        intro q v
        rw [seen_recordRemote]
        by_cases hq : p = q
        · subst hq
          rw [if_pos rfl, hsm, firstVote_recordVote]
        · rw [if_neg hq, hoh q (Ne.symm hq)]
      rw [ho, hd, hp, pendingEvidence_recordRemote]
      simp only [not_mem_nil, false_or, mem_append, Option.mem_toList, or_assoc, hft]
      refine or_congr_right ⟨?_, ?_⟩
      · rintro (hev | ⟨q, v, hv, hrs⟩)
        · refine ⟨p, w, by simp [hsm], ?_⟩
          rw [hsm]
          exact mem_recordVote_iff.mp hev
        · refine ⟨q, v, ?_, hrs⟩
          rw [inbound_cons]
          exact mem_append_right _ hv
      · rintro ⟨q, v, hv, hrs⟩
        by_cases hq : q = p
        · subst hq
          rw [hsm] at hv hrs
          rcases mem_cons.mp hv with rfl | hv
          · exact .inl (mem_recordVote_iff.mpr hrs)
          · exact .inr ⟨q, v, hv, by rw [hsm]; exact hrs⟩
        · exact .inr ⟨q, v, by rwa [hoh q hq] at hv, hrs⟩
    · obtain ⟨hd, hp⟩ := Prod.mk.inj hw
      rw [ho, hd, hp]
      simp only [not_mem_nil, false_or]
      rfl
    · obtain ⟨hd, hp⟩ := Prod.mk.inj hw
      have hs : ∀ q, inbound q (x :: xs) = inbound q xs := by
        intro q
        rw [inbound_cons, hin, nil_append]
      rw [ho, hd, hp]
      simp only [not_mem_nil, false_or, hs]

/-- Two signed conflicting votes lead to evidence that verifies exactly if
the first one seen is signed. -/
theorem equivocation_evidence_iff (c : Crypto) (config : BftConfig) (head : Block) (seed : Arr 32)
    (calls : List Call) (vs : ValidatorSet) (p : VotePhase) (a b : Vote) (ha : a ∈ inbound p calls)
    (hb : b ∈ inbound p calls) (hkey : a.sameKey b = true) (hne : a.blockHash ≠ b.blockHash)
    (hva : a.verifies c p vs = true) (hvb : b.verifies c p vs = true) :
    (∃ ev ∈ evidence c (fresh c config head seed) calls, ev.phase = p ∧
        ev.validatorIndex = a.validatorIndex ∧ ev.height = a.height ∧ ev.round = a.round ∧
        ev.verify c vs = .ok ()) ↔
      ∃ u ∈ (inbound p calls).find? (·.sameKey a), u.verifies c p vs = true := by
  have hm : ∀ ev, ev ∈ evidence c (fresh c config head seed) calls ↔
      ∃ q, ∃ v ∈ inbound q calls, ∃ u, (inbound q calls).find? (·.sameKey v) = some u ∧
        u.blockHash ≠ v.blockHash ∧ ev = ⟨q, u, v⟩ := by
    intro ev
    have hse : ∀ q, (fresh c config head seed).detector.seen q = [] := by
      intro q
      cases q <;> rfl
    have hnn : (fresh c config head seed).pendingEvidence = [] := rfl
    simp only [mem_evidence_iff, firstVote, hse, hnn, find?_nil, Option.none_or,
      not_mem_nil, false_or]
  -- votes with one key have one first vote
  have hft : ∀ v, a.sameKey v = true →
      (inbound p calls).find? (·.sameKey v) = (inbound p calls).find? (·.sameKey a) := by
    intro v hv
    rw [sameKey_iff] at hv
    simp [sameKey, hv]
  constructor
  · rintro ⟨ev, hev, hph, hi, hhg, hrn, hvr⟩
    obtain ⟨q, v, hv, u, hu, -, rfl⟩ := (hm ev).mp hev
    obtain rfl : q = p := hph
    obtain ⟨hsm, -, hvr, -⟩ := verify_eq_ok_iff.mp hvr
    rw [sameKey_iff] at hsm
    have hav := sameKey_iff.mpr ⟨hi.symm.trans hsm.1, hhg.symm.trans hsm.2.1,
        hrn.symm.trans hsm.2.2⟩
    exact ⟨u, (hft v hav).symm.trans hu, hvr⟩
  · rintro ⟨u, hu, hvr⟩
    have hua : u.sameKey a = true := by simpa using find?_some hu
    -- the first vote differs from at least one of the two
    obtain ⟨v, hv, hav, hvv, hbl⟩ : ∃ v ∈ inbound p calls, a.sameKey v = true ∧
        v.verifies c p vs = true ∧ u.blockHash ≠ v.blockHash := by
      by_cases hbl : u.blockHash = a.blockHash
      · exact ⟨b, hb, hkey, hvb, hbl ▸ hne⟩
      · exact ⟨a, ha, sameKey_iff.mpr ⟨rfl, rfl, rfl⟩, hva, hbl⟩
    have huv := sameKey_trans hua hav
    rw [sameKey_iff] at hua
    exact ⟨⟨p, u, v⟩, (hm _).mpr ⟨p, v, hv, u, (hft v hav).trans hu, hbl, rfl⟩, rfl,
      hua.1, hua.2.1, hua.2.2, verify_eq_ok_iff.mpr ⟨huv, hbl, hvr, hvv⟩⟩

def namedVote (k block : Nat) : Vote :=
  signVote .reference .prevote (arrOfNat 32 (k + 1)) (arrOfNat 32 block) 8 0 1

def votesIn (votes : List Vote) : List Call := votes.map (.submitRemoteVote .prevote)

theorem equivocation_evidence_iff_plain :
    ∃ ev ∈ evidence .reference (fresh .reference followerConfig
        (referenceHead followerConfig 7) followerConfig.initialSeed)
        (votesIn [namedVote 1 2, namedVote 1 3]),
      ev.phase = .prevote ∧ ev.validatorIndex = 1 ∧ ev.height = 8 ∧ ev.round = 0 ∧
        ev.verify .reference followerSet = .ok () :=
  (equivocation_evidence_iff .reference followerConfig (referenceHead followerConfig 7)
    followerConfig.initialSeed (votesIn [namedVote 1 2, namedVote 1 3]) followerSet .prevote
    (namedVote 1 2) (namedVote 1 3) (by decide +kernel) (by decide +kernel) (by decide +kernel)
    (by decide +kernel) (by decide +kernel) (by decide +kernel)).mpr (by decide +kernel)

/-- A vote forged in its name comes in first: of the evidence about the
same two votes, none verifies. -/
theorem forged_vote_shields_equivocator :
    (namedVote 1 2).verifies .reference .prevote followerSet = true ∧
      (namedVote 1 3).verifies .reference .prevote followerSet = true ∧
      (evidence .reference (fresh .reference followerConfig
        (referenceHead followerConfig 7) followerConfig.initialSeed)
        (votesIn [namedVote 0 9, namedVote 1 2, namedVote 1 3])).length = 2 ∧
      ∀ ev ∈ evidence .reference (fresh .reference followerConfig
        (referenceHead followerConfig 7) followerConfig.initialSeed)
        (votesIn [namedVote 0 9, namedVote 1 2, namedVote 1 3]),
        ev.verify .reference followerSet ≠ .ok () := by
  decide +kernel

end BftEngine

end Aii.Bft
