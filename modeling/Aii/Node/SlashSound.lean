/-
Aii.Node.SlashSound — which stake debits are justified.

`verify` is never called, and the address is looked up in the latest
elected set.
-/
import Aii.Node.Loop

namespace Aii.Node

open Common Chain Bft List

section Model

variable (c : Crypto) (inForce : UInt64 → ValidatorSet)

/-- The vote verifies under the key its index has at its height. -/
def Genuine (p : VotePhase) (v : Vote) : Prop :=
  ∃ val ∈ (inForce v.height).validators[v.validatorIndex.toNat]?,
    c.blsVerify v.blsSig (voteDigest c p v.blockHash v.height v.round) val.blsPubkey = true
deriving Decidable

/-- The evidence of the debit verifies, and the debited address is the
elected owner of the key that signed it. -/
structure Debit.Justified (d : Debit) : Prop where
  verifies : d.evidence.verify c (inForce d.evidence.height) = .ok ()
  signed : ∃ epoch entries entry val, Dpos.latestValidatorSet d.store = some (epoch, entries) ∧
    entries[d.evidence.validatorIndex.toNat]? = some entry ∧ entry.address = d.offender ∧
    (inForce d.evidence.height).validators[d.evidence.validatorIndex.toNat]? = some val ∧
    entry.blsPubkey = some val.blsPubkey

/-- The run condition: an inbound vote of a height the driver processes
is genuine, and the latest elected set has the offender's key at the
index of the evidence. -/
def slashOk : NodeLoop.StepOk where
  micro s m := ∀ pv ∈ (m.message c).bind BftMessage.vote?,
    pv.2.height ≤ satAdd64 s.driver.engine.headNumber 1 → Genuine c inForce pv.1 pv.2
  evidence s ev := ∀ set ∈ Dpos.latestValidatorSet s.node.backend,
    ∀ entry ∈ set.2[ev.validatorIndex.toNat]?,
      ∃ val ∈ (inForce ev.height).validators[ev.validatorIndex.toNat]?,
        entry.blsPubkey = some val.blsPubkey
  commit _ _ := True

instance (s : NodeLoop) (m : BftGossip.Micro) : Decidable ((slashOk c inForce).micro s m) :=
  inferInstanceAs (Decidable (∀ pv ∈ _, _))

instance (s : NodeLoop) (ev : EquivocationEvidence) :
    Decidable ((slashOk c inForce).evidence s ev) :=
  inferInstanceAs (Decidable (∀ set ∈ _, _))

instance (s : NodeLoop) (block : Block) : Decidable ((slashOk c inForce).commit s block) :=
  inferInstanceAs (Decidable True)

end Model

section Detector

variable {c : Crypto} {inForce : UInt64 → ValidatorSet} {p : VotePhase} {v : Vote} {e : BftEngine}

lemma verify_of_genuine {a b : Vote} (ha : Genuine c inForce p a) (hb : Genuine c inForce p b)
    (hk : a.sameKey b = true) (hne : a.blockHash ≠ b.blockHash) :
    EquivocationEvidence.verify c ⟨p, a, b⟩ (inForce a.height) = .ok () := by
  simp only [Vote.sameKey, Bool.and_eq_true, beq_iff_eq] at hk
  obtain ⟨⟨hi, hhg⟩, hrn⟩ := hk
  obtain ⟨val, hval, hsig⟩ := ha
  obtain ⟨val', hval', hsig'⟩ := hb
  rw [← hi, ← hhg, hval] at hval'
  cases hval'
  rw [EquivocationEvidence.verify,
    if_neg (not_not.mpr hi), if_neg (not_not.mpr hhg), if_neg (not_not.mpr hrn), if_neg hne, hval]
  simp [hsig, hsig']

lemma recordVote_genuine {seen : List Vote} (hse : ∀ a ∈ seen, Genuine c inForce p a)
    (hv : Genuine c inForce p v) : (∀ a ∈ (recordVote p seen v).1, Genuine c inForce p a) ∧
      ∀ ev ∈ (recordVote p seen v).2, ev.verify c (inForce ev.height) = .ok () := by
  unfold recordVote
  cases hf : seen.find? (·.sameKey v) with
  | none => exact ⟨forall_mem_cons.mpr ⟨hv, hse⟩, nofun⟩
  | some prior =>
    dsimp only
    split_ifs with hne
    · refine ⟨hse, ?_⟩
      rintro ev hev
      cases hev
      have hk := List.find?_some hf
      exact verify_of_genuine (hse prior (mem_of_find?_eq_some hf)) hv hk hne
    · exact ⟨hse, nofun⟩

variable (c inForce) in
/-- The tables hold genuine votes, and all evidence verifies. -/
structure EvidenceSound (e : BftEngine) : Prop where
  prevotes : ∀ v ∈ e.detector.seenPrevote, Genuine c inForce .prevote v
  precommits : ∀ v ∈ e.detector.seenPrecommit, Genuine c inForce .precommit v
  pending : ∀ ev ∈ e.pendingEvidence, ev.verify c (inForce ev.height) = .ok ()

lemma EvidenceSound.recordRemote (h : EvidenceSound c inForce e) (hv : Genuine c inForce p v) :
    EvidenceSound c inForce (e.recordRemote p v) := by
  have hpg : ∀ ev? : Option EquivocationEvidence,
      (∀ ev ∈ ev?, ev.verify c (inForce ev.height) = .ok ()) →
      ∀ ev ∈ e.pendingEvidence ++ ev?.toList, ev.verify c (inForce ev.height) = .ok () := by
    intro ev? hev ev hm
    rcases mem_append.mp hm with hm | hm
    · exact h.pending ev hm
    · exact hev ev (Option.mem_toList.mp hm)
  cases p with
  | prevote =>
    obtain ⟨hse, hev⟩ := recordVote_genuine h.prevotes hv
    exact ⟨hse, h.precommits, hpg _ hev⟩
  | precommit =>
    obtain ⟨hse, hev⟩ := recordVote_genuine h.precommits hv
    exact ⟨h.prevotes, hse, hpg _ hev⟩

lemma EvidenceSound.congr {e' : BftEngine} (h : EvidenceSound c inForce e)
    (hd : e'.detector = e.detector) (hev : e'.pendingEvidence = e.pendingEvidence) :
    EvidenceSound c inForce e' :=
  ⟨hd ▸ h.prevotes, hd ▸ h.precommits, hev ▸ h.pending⟩

lemma EvidenceSound.act {g₀ g g' : BftGossip} {m : BftGossip.Micro}
    (hok : ∀ pv ∈ (m.message c).bind BftMessage.vote?,
      pv.2.height ≤ satAdd64 g₀.engine.headNumber 1 → Genuine c inForce pv.1 pv.2)
    (h : EvidenceSound c inForce g.engine) (ha : BftGossip.Act c g₀ m g g') :
    EvidenceSound c inForce g'.engine := by
  cases ha with
  | record _ p v hm hle =>
    refine h.recordRemote (hok (p, v) ?_ hle)
    rw [hm, Option.bind_some, BftMessage.vote?_ofVote]
    rfl
  | buffer _ p => cases p <;> exact h.congr rfl rfl
  | adopt _ _ _ _ _ _ _ _ had =>
    obtain rfl := BftGossip.adoptSyncedBlock_eq had
    exact h.congr rfl rfl
  | _ => exact h.congr rfl rfl

end Detector

section Runs

variable {c : Crypto} {inForce : UInt64 → ValidatorSet} {revm : Revm} {spec : ChainSpec}
  {oracle : Backend → Option Executor}

variable (c inForce) in
structure SlashInv (s : NodeLoop) (evs : List EquivocationEvidence) (_ : List Block) : Prop where
  engine : EvidenceSound c inForce s.driver.engine
  taken : ∀ ev ∈ evs, ev.verify c (inForce ev.height) = .ok ()
  debits : ∀ d ∈ s.debits, d.Justified c inForce

lemma SlashInv.evidence {s : NodeLoop} {ev : EquivocationEvidence}
    {evs : List EquivocationEvidence} (hok : (slashOk c inForce).evidence s ev)
    (h : SlashInv c inForce s (ev :: evs) []) :
    SlashInv c inForce (NodeLoop.handleEvidence spec s ev) evs [] := by
  obtain ⟨hv, htk⟩ := forall_mem_cons.mp h.taken
  unfold NodeLoop.handleEvidence
  dsimp only
  split
  · exact ⟨h.engine, htk, h.debits⟩
  next epoch offender hlatest =>
    refine ⟨h.engine, htk, ?_⟩
    intro d hd
    rcases mem_append.mp hd with hd | hd
    · exact h.debits d hd
    split_ifs at hd
    · obtain rfl := mem_singleton.mp hd
      refine ⟨hv, ?_⟩
      obtain ⟨⟨epoch', entries⟩, hs, hm⟩ := Option.bind_eq_some_iff.mp hlatest
      obtain ⟨entry, hen, heq⟩ := Option.map_eq_some_iff.mp hm
      cases heq
      rw [latestValidatorSet_recordSlashing] at hs ⊢
      obtain ⟨val, hvl, hk⟩ := hok (epoch', entries) hs entry hen
      exact ⟨epoch', entries, entry, val, hs, hen, rfl, hvl, hk⟩
    · cases hd

lemma slashInv_kept :
    NodeLoop.Kept c revm spec oracle (slashOk c inForce) (SlashInv c inForce) where
  act s m g g' hok _ _ h ha := ⟨h.engine.act hok ha, nofun, h.debits⟩
  clock s key h := ⟨h.engine, nofun, h.debits⟩
  take s h := ⟨⟨h.engine.prevotes, h.engine.precommits, nofun⟩, h.engine.pending, h.debits⟩
  evidence s ev evs hok h := h.evidence hok
  drain s h := ⟨h.engine, nofun, h.debits⟩
  commit s block blocks _ h := by
    obtain ⟨last, e, heq, he⟩ := NodeLoop.commitOne_cases c revm spec s block
    rw [heq]
    rcases he with rfl | ⟨vs, i, rfl⟩
    · exact ⟨h.engine, nofun, h.debits⟩
    · exact ⟨h.engine.congr rfl rfl, nofun, h.debits⟩

/-- Slashing soundness, over every run that meets the condition. -/
theorem debits_justified {config : BftConfig} {head : Block} {seed : Arr 32} {node : NodeState}
    {inputs : List LoopInput} (hok : NodeLoop.RunOk c revm spec oracle (slashOk c inForce)
      (.start (.fresh c config head seed) node) inputs) :
    ∀ d ∈ (NodeLoop.run c revm spec oracle (.start (.fresh c config head seed) node) inputs).debits,
      d.Justified c inForce := by
  have hsr : SlashInv c inForce (.start (.fresh c config head seed) node) [] [] :=
    ⟨⟨nofun, nofun, nofun⟩, nofun, nofun⟩
  exact (NodeLoop.run_induction slashInv_kept hok hsr).debits

end Runs

/-! ## A double vote, and a forged one

The follower at head 7 gets two PRE-VOTES in the name of validator 1, for
different blocks of height 8. In the elected set that validator owns
address 2, with a stake of 1000 Wei. -/

def sampleEntries : List ValidatorEntry :=
  [0, 1].map fun k =>
    ⟨arrOfNat 20 (k + 1), 1000, some (referenceValidator k 1).blsPubkey,
      some (referenceValidator k 1).vrfPubkey⟩

def stakedNode : NodeState :=
  .new (StakeTable.putRecord (Dpos.persistValidatorSet .empty 1 sampleEntries) (arrOfNat 20 2)
    1000 0)

def stakedEngine : BftEngine :=
  .fresh .reference followerConfig (referenceHead followerConfig 7)
    followerConfig.initialSeed

def stakedRun (inputs : List LoopInput) : NodeLoop :=
  NodeLoop.run .reference Revm.reference sampleSpec (fun _ => none)
    (.start stakedEngine stakedNode) inputs

def doubleVote (k block : Nat) : Vote :=
  signVote .reference .prevote (arrOfNat 32 k) (arrOfNat 32 block) 8 0 1

def doubleVoteInput (k : Nat) : LoopInput :=
  ⟨[(BftMessage.prevote (doubleVote k 1)).encode, (BftMessage.prevote (doubleVote k 2)).encode],
    [], false, []⟩

theorem debits_justified_doubleVote : (stakedRun [doubleVoteInput 2]).debits.length = 1 ∧
      ∀ d ∈ (stakedRun [doubleVoteInput 2]).debits, d.Justified .reference fun _ => followerSet :=
  ⟨by decide +kernel, debits_justified (by decide +kernel)⟩

/-- With votes signed by somebody else the record goes from 1000 to 999 Wei.
-/
theorem forged_votes_debit :
    (stakedRun [doubleVoteInput 99]).debits.map (fun d => (d.offender, d.evidence.verify .reference
        followerSet)) = [(arrOfNat 20 2, .error .invalidSignature)] ∧
      StakeTable.amountOf (stakedRun [doubleVoteInput 99]).node.backend (arrOfNat 20 2) = 999 ∧
      ¬ ∀ d ∈ (stakedRun [doubleVoteInput 99]).debits,
        d.Justified .reference fun _ => followerSet := by
  have hvy : (stakedRun [doubleVoteInput 99]).debits.map (fun d => (d.offender,
      d.evidence.verify .reference followerSet)) =
        [(arrOfNat 20 2, .error .invalidSignature)] := by decide +kernel
  refine ⟨hvy, by decide +kernel, ?_⟩
  intro ha
  obtain ⟨d, hd, heq⟩ := mem_map.mp (hvy ▸ mem_singleton_self _)
  have he := congrArg Prod.snd heq
  rw [(ha d hd).verifies] at he
  cases he

end Aii.Node
