/-
Aii.Node.SlashOnce — how often an offence is punished.

The slashing record is read by nobody: a double vote is debited as often
as it is delivered.
-/
import Aii.Node.SlashSound

namespace Aii.Node

open Common Chain Bft List NodeLoop StakeTable EquivocationEvidence

/-! ## Offences and their records -/

/-- What a slashing record is kept for. -/
structure Offence where
  validatorIndex : UInt32
  height : UInt64
  phase : VotePhase
  deriving DecidableEq

def offenceOf (ev : EquivocationEvidence) : Offence := ⟨ev.validatorIndex, ev.height, ev.phase⟩

def Debit.offence (d : Debit) : Offence := offenceOf d.evidence

def Offence.ofVote (p : VotePhase) (v : Vote) : Offence := ⟨v.validatorIndex, v.height, p⟩

def Offence.key (o : Offence) : Bytes :=
  META_KEY_SLASH_PREFIX ++ u32Be o.validatorIndex ++ u64Be o.height ++ [(phaseTag o.phase).1]

def Offence.recorded (b : Backend) (o : Offence) : Bool := (b.get .metaCf o.key).isSome

def Conflicts (d : EquivocationDetector) (p : VotePhase) (v : Vote) : Prop :=
  ∃ prior ∈ (d.seen p).find? (·.sameKey v), prior.blockHash ≠ v.blockHash
deriving Decidable

/-- Nothing is known about the offence: no record, no evidence waiting. -/
def Offence.Unknown (s : NodeLoop) (o : Offence) : Prop :=
  o.recorded s.node.backend = false ∧ ∀ ev ∈ s.driver.engine.pendingEvidence, offenceOf ev ≠ o
deriving Decidable

/-- The run condition: an inbound vote that reaches the detector and
conflicts there is about an offence that is not known yet. -/
def onceOk (c : Crypto) : NodeLoop.StepOk where
  micro s m := ∀ pv ∈ (m.message c).bind BftMessage.vote?,
    pv.2.height ≤ satAdd64 s.driver.engine.headNumber 1 →
      Conflicts s.driver.engine.detector pv.1 pv.2 → (Offence.ofVote pv.1 pv.2).Unknown s
  evidence _ _ := True
  commit _ _ := True

instance (c : Crypto) (s : NodeLoop) (m : BftGossip.Micro) : Decidable ((onceOk c).micro s m) :=
  inferInstanceAs (Decidable (∀ pv ∈ _, _))

instance (c : Crypto) (s : NodeLoop) (ev : EquivocationEvidence) :
    Decidable ((onceOk c).evidence s ev) :=
  inferInstanceAs (Decidable True)

instance (c : Crypto) (s : NodeLoop) (block : Block) : Decidable ((onceOk c).commit s block) :=
  inferInstanceAs (Decidable True)

namespace Offence

lemma key_prefixed (o : Offence) : META_KEY_SLASH_PREFIX <+: o.key := by
  simp [key]

lemma key_inj {o o' : Offence} (h : o.key = o'.key) : o = o' := by
  obtain ⟨i, n, p⟩ := o
  obtain ⟨i', n', p'⟩ := o'
  simp only [key, append_assoc, append_cancel_left_eq] at h
  obtain ⟨hi, h⟩ := append_field_inj (by simp) h
  obtain ⟨hn, hp⟩ := append_field_inj (by simp) h
  obtain rfl := u32Be_inj hi
  obtain rfl := u64Be_inj hn
  cases p <;> cases p' <;> simp_all [phaseTag]

lemma recorded_recordSlashing (b : Backend) (ev : EquivocationEvidence) (o : Offence) :
    o.recorded (recordSlashing b ev) = (decide (o = offenceOf ev) || o.recorded b) := by
  have hp : recordSlashing b ev = b.put .metaCf (offenceOf ev).key
      (UInt8.ofNat (phaseTag ev.phase).2.length :: (phaseTag ev.phase).2 ++
        ev.first.blockHash.toList ++ ev.second.blockHash.toList) := rfl
  by_cases heq : o = offenceOf ev
  · subst heq
    simp [recorded, hp]
  · have hne : o.key ≠ (offenceOf ev).key := fun hk => heq (key_inj hk)
    simp [recorded, hp, heq, Backend.get_put_ne fun _ => hne]

lemma recorded_debitSlashStake (b : Backend) (offender : Address) (delta : U256) (o : Offence) :
    o.recorded (debitSlashStake b offender delta) = o.recorded b := by
  have hne : o.key ≠ StakeTable.key offender := by
    intro hk
    have hsk : StakeTable.KEY_PREFIX <+: o.key := hk ▸ prefix_append _ _
    exact prefix_excludes hsk (by decide) o.key_prefixed
  unfold debitSlashStake StakeTable.slash
  cases get b offender with
  | none => rfl
  | some =>
    dsimp only
    rw [recorded, putRecord, Backend.get_put_ne fun _ => hne, recorded]

lemma recorded_commit {c : Crypto} {revm : Revm} {spec : ChainSpec} (n : NodeState)
    (block : Block) (o : Offence) :
    o.recorded (commitStep c revm spec n block).backend = o.recorded n.backend := by
  have hoh {p : Bytes} : Apart META_KEY_SLASH_PREFIX p → ¬ p <+: o.key :=
    prefix_excludes o.key_prefixed
  have hbl : ¬ BlockKey o.key := by
    rintro (h | h | h | h | h)
    · exact hoh (by decide) h
    · exact hoh (by decide) h
    · exact h.excludes (by decide) o.key_prefixed
    · exact hoh (by decide) h
    · exact hoh (by decide) h
  have hhd : ∀ (n' : NodeState) num, o.recorded (setHead n' num).backend =
      o.recorded n'.backend := by
    intro n' num
    have hne : o.key ≠ META_KEY_HEAD := by
      intro hk
      exact hoh (p := META_KEY_HEAD) (by decide) (by rw [hk])
    have hne' : o.key ≠ META_KEY_HEAD_HASH := by
      intro hk
      exact hoh (p := META_KEY_HEAD_HASH) (by decide) (by rw [hk])
    have hag := setHead_agree (K := fun _ k => k = o.key) hne.symm hne'.symm n' num
    rw [recorded, hag .metaCf o.key rfl, recorded]
  rw [commitStep, hhd]
  by_cases has : applies c n block = true
  · rw [commitBlock_of_applies has, recorded, applyBlock_meta hbl, recorded]
  · rcases commitBlock_of_not_applies has with heq | ⟨canonical, heq⟩
    · rw [heq]
    · have hne : o.key ≠ META_KEY_FORK_PREFIX ++ u64Be block.header.number ++
          (block.hash c).toList := by
        intro hk
        refine hoh (p := META_KEY_FORK_PREFIX) (by decide) ?_
        rw [hk, append_assoc]
        exact prefix_append _ _
      rw [heq]
      rw [recorded, recordFork, Backend.get_put_ne fun _ => hne, recorded]

end Offence

section Runs

variable {c : Crypto} {revm : Revm} {spec : ChainSpec} {oracle : Backend → Option Executor}
  {s : NodeLoop}

/-- Evidence that waits is about different offences, none of them
recorded; the debits are about different offences, all of them recorded. -/
structure OnceEach (evs : List EquivocationEvidence) (b : Backend) (ds : List Debit) :
    Prop where
  waiting : (evs.map offenceOf).Nodup
  unrecorded : ∀ ev ∈ evs, (offenceOf ev).recorded b = false
  debits : (ds.map Debit.offence).Nodup
  recorded : ∀ d ∈ ds, d.offence.recorded b = true

/-- The invariant, over the evidence in the engine and the one already
taken from it. -/
def OnceInv (s : NodeLoop) (evs : List EquivocationEvidence) (_ : List Block) : Prop :=
  OnceEach (evs ++ s.driver.engine.pendingEvidence) s.node.backend s.debits

lemma pendingEvidence_recordRemote_cases (e : BftEngine) (p : VotePhase) (v : Vote) :
    (e.recordRemote p v).pendingEvidence = e.pendingEvidence ∨
      Conflicts e.detector p v ∧ ∃ ev, offenceOf ev = .ofVote p v ∧
        (e.recordRemote p v).pendingEvidence = e.pendingEvidence ++ [ev] := by
  have hvt : ∀ seen, (recordVote p seen v).2 = none ∨ ∃ prior,
      seen.find? (·.sameKey v) = some prior ∧ prior.blockHash ≠ v.blockHash ∧
        (recordVote p seen v).2 = some ⟨p, prior, v⟩ := by
    intro seen
    unfold recordVote
    cases seen.find? (·.sameKey v) with
    | none => exact .inl rfl
    | some prior =>
      dsimp only
      split_ifs with hne
      · exact .inr ⟨prior, rfl, hne, rfl⟩
      · exact .inl rfl
  have hp : (e.recordRemote p v).pendingEvidence =
      e.pendingEvidence ++ (recordVote p (e.detector.seen p) v).2.toList := by
    cases p <;> rfl
  rw [hp]
  rcases hvt (e.detector.seen p) with hnn | ⟨prior, hf, hne, hso⟩
  · left
    simp [hnn]
  · refine .inr ⟨⟨prior, hf, hne⟩, ⟨p, prior, v⟩, ?_, by rw [hso]; rfl⟩
    have hk := List.find?_some hf
    rw [Vote.sameKey_iff] at hk
    simp [offenceOf, Offence.ofVote, validatorIndex, height, hk]

lemma OnceEach.record {p : VotePhase} {v : Vote}
    (hok : Conflicts s.driver.engine.detector p v → (Offence.ofVote p v).Unknown s)
    (h : OnceEach s.driver.engine.pendingEvidence s.node.backend s.debits) :
    OnceEach (s.driver.engine.recordRemote p v).pendingEvidence s.node.backend s.debits := by
  rcases pendingEvidence_recordRemote_cases s.driver.engine p v with
    hsm | ⟨hc, ev, ho, ha⟩
  · rw [hsm]
    exact h
  · obtain ⟨hr, hwa⟩ := hok hc
    rw [ha]
    refine ⟨?_, ?_, h.debits, h.recorded⟩
    · rw [map_append]
      refine List.Nodup.append h.waiting (nodup_singleton _) ?_
      simp only [map_cons, map_nil, disjoint_singleton, mem_map, not_exists, not_and]
      intro ev' hev' heq
      exact hwa ev' hev' (heq.trans ho)
    · intro ev' hev'
      rcases mem_append.mp hev' with hev' | hev'
      · exact h.unrecorded ev' hev'
      · grind

lemma OnceInv.evidence {ev : EquivocationEvidence} {evs : List EquivocationEvidence}
    (h : OnceInv s (ev :: evs) []) : OnceInv (NodeLoop.handleEvidence spec s ev) evs [] := by
  obtain ⟨hfh, hwt⟩ := nodup_cons.mp h.waiting
  obtain ⟨hn, hunr⟩ := forall_mem_cons.mp h.unrecorded
  have hdb : ∀ d ∈ s.debits, d.offence ≠ offenceOf ev := by
    intro d hd heq
    have hrec := h.recorded d hd
    rw [heq, hn] at hrec
    cases hrec
  -- the new store has the old records and the one of the evidence
  have hkp : ∀ b' : Backend, (∀ o : Offence, o.recorded b' =
        (decide (o = offenceOf ev) || o.recorded s.node.backend)) →
      (∀ ev' ∈ evs ++ s.driver.engine.pendingEvidence, (offenceOf ev').recorded b' = false) ∧
      ∀ d ∈ s.debits, d.offence.recorded b' = true := by
    intro b' hb'
    constructor
    · intro ev' hev'
      have hne : offenceOf ev' ≠ offenceOf ev := by
        intro heq
        exact hfh (heq ▸ mem_map_of_mem hev')
      simp [hb', hne, hunr ev' hev']
    · intro d hd
      simp [hb', h.recorded d hd]
  unfold handleEvidence
  dsimp only
  split
  · obtain ⟨hunr', hrec'⟩ := hkp _ (Offence.recorded_recordSlashing s.node.backend ev)
    exact ⟨hwt, hunr', h.debits, hrec'⟩
  next epoch offender _ =>
    have hstore : ∀ o : Offence, o.recorded (debitSlashStake (recordSlashing s.node.backend ev)
        offender (slashAmountWei spec)) =
          (decide (o = offenceOf ev) || o.recorded s.node.backend) := by
      intro o
      rw [Offence.recorded_debitSlashStake, Offence.recorded_recordSlashing]
    obtain ⟨hunr', hrec'⟩ := hkp _ hstore
    refine ⟨hwt, hunr', ?_, ?_⟩
    · dsimp only
      rw [map_append]
      refine List.Nodup.append h.debits ?_ ?_
      · split_ifs <;> simp
      · split_ifs
        · simp only [map_cons, map_nil, disjoint_singleton, mem_map, not_exists, not_and]
          exact hdb
        · exact disjoint_nil_right _
    · intro d hd
      rcases mem_append.mp hd with hd | hd
      · exact hrec' d hd
      · split_ifs at hd
        · rw [mem_singleton.mp hd]
          simp [hstore, Debit.offence]
        · cases hd

lemma onceInv_kept : NodeLoop.Kept c revm spec oracle (onceOk c) OnceInv where
  act s m g g' hok _ _ h ha := by
    cases ha with
    | record _ p v hm hle hft =>
      subst hft
      refine OnceEach.record (hok (p, v) ?_ hle) h
      simp [hm]
    | adopt _ _ _ _ _ _ _ _ had =>
      obtain rfl := BftGossip.adoptSyncedBlock_eq had
      exact h
    | buffer _ p => cases p <;> exact h
    | _ => exact h
  clock s key h := h
  take s h := by
    unfold OnceInv at h ⊢
    simpa [takeEvidence, BftEngine.drainEvidence] using h
  evidence s ev evs _ h := h.evidence
  drain s h := h
  commit s block blocks _ h := by
    obtain ⟨last, e, heq, he⟩ := commitOne_cases c revm spec s block
    have hp : e.pendingEvidence = s.driver.engine.pendingEvidence := by
      rcases he with rfl | ⟨vs, i, rfl⟩
      · rfl
      · rfl
    rw [heq, OnceInv]
    rw [hp]
    refine ⟨h.waiting, ?_, h.debits, ?_⟩
    · intro ev hev
      rw [Offence.recorded_commit]
      exact h.unrecorded ev hev
    · intro d hd
      rw [Offence.recorded_commit]
      exact h.recorded d hd

/-- Over every run that meets the condition there is at most one debit
per validator, height and phase. -/
theorem offences_debited_once {engine : BftEngine} {node : NodeState} {inputs : List LoopInput}
    (hnone : engine.pendingEvidence = [])
    (hok : NodeLoop.RunOk c revm spec oracle (onceOk c) (.start engine node) inputs) :
    ((NodeLoop.run c revm spec oracle (.start engine node) inputs).debits.map
      Debit.offence).Nodup := by
  have hsr : OnceInv (.start engine node) [] [] := by
    have hem : [] ++ (start engine node).driver.engine.pendingEvidence = [] := hnone
    rw [OnceInv, hem]
    exact ⟨nodup_nil, nofun, nodup_nil, nofun⟩
  exact (run_induction onceInv_kept hok hsr).debits

end Runs

/-! ## A vote that is delivered again

The double vote of the soundness module, and then one of its two votes
once more. -/

def singleVoteInput (k block : Nat) : LoopInput :=
  ⟨[(BftMessage.prevote (doubleVote k block)).encode], [], false, []⟩

theorem offences_debited_once_first_again :
    (stakedRun [doubleVoteInput 2, singleVoteInput 2 1]).debits.length = 1 ∧
      ((stakedRun [doubleVoteInput 2, singleVoteInput 2 1]).debits.map Debit.offence).Nodup := by
  refine ⟨by decide +kernel, ?_⟩
  exact offences_debited_once rfl (by decide +kernel)

/-- A second delivery of the conflicting vote is a second debit. -/
theorem redelivered_vote_debited_again :
    (stakedRun [doubleVoteInput 2, singleVoteInput 2 2]).debits.map
        (fun d => (d.offence, d.offender)) = List.replicate 2 (⟨1, 8, .prevote⟩, arrOfNat 20 2) ∧
      StakeTable.amountOf (stakedRun [doubleVoteInput 2, singleVoteInput 2 2]).node.backend
        (arrOfNat 20 2) = 998 ∧
      ¬ ((stakedRun [doubleVoteInput 2, singleVoteInput 2 2]).debits.map Debit.offence).Nodup := by
  refine ⟨by decide +kernel, by decide +kernel, by decide +kernel⟩

end Aii.Node
