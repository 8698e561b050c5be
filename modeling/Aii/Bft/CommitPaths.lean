/-
Aii.Bft.CommitPaths — three ways to the same head.

An engine gets to a block by harvesting it, by adopting it from a peer, or
by starting from it.
-/
import Aii.Bft.ChainLink

namespace Aii.Bft

open Common Chain List RoundCoordinator QuorumCertificate Crypto

/-- Signatures that verify one by one under `keys` aggregate to one that
verifies under the same keys in any order. -/
def AggregateComplete (c : Crypto) : Prop :=
  ∀ (msg : Bytes) (sigs : List BlsSignature) (keys keys' : List BlsPubKey), sigs ≠ [] →
    List.Forall₂ (fun sig key => c.blsVerify sig msg key = true) sigs keys → keys.Perm keys' →
    c.blsFastAggregateVerify (c.blsAggregate sigs) msg keys' = true

lemma Crypto.reference_aggregateComplete : AggregateComplete .reference := by
  intro msg sigs keys keys' hne ha hpm
  have hs : sigs = keys.map fun key => referenceSig (ofBe key.toList) msg := by
    clear hne hpm
    induction ha with
    | nil => rfl
    | cons hsg _ ih =>
      rw [map_cons, ← ih, eq_of_beq hsg]
  have hks : (sigs.map referenceSigKey).sum % 2 ^ 384 =
      (keys'.map fun key => ofBe key.toList).sum % 2 ^ 384 := by
    rw [← (hpm.map fun key => ofBe key.toList).sum_eq, hs, map_map,
      sum_nat_mod (keys.map fun key => ofBe key.toList), map_map]
    simp [Function.comp_def, referenceSigKey_sig]
  have hm : (sigs.map referenceSigMsg).headD 0 = flagged msg := by
    cases keys with
    | nil => exact absurd hs hne
    | cons =>
      rw [hs, map_cons, map_cons, headD_cons, referenceSigMsg_sig]
  have hag : reference.blsAggregate sigs =
      referenceSig (keys'.map fun key => ofBe key.toList).sum msg := by
    rw [referenceSig, ← hks, ← hm]
    rfl
  exact beq_iff_eq.mpr hag

namespace VoteTallier

variable {c : Crypto} {p : VotePhase} {vs : ValidatorSet} {t t' : VoteTallier} {v : Vote}
  {st : TallyState}

/-- The tally has one verified signature per voter, and the bitmap is the
set of the voters. -/
structure Signed (c : Crypto) (p : VotePhase) (vs : ValidatorSet) (t : VoteTallier) : Prop where
  wf : t.WF vs
  voters : ∃ order : List (Fin vs.size), order.Nodup ∧ (∀ i, i ∈ order ↔ i ∈ t.voters vs) ∧
    t.pubkeys = order.map (fun i => (vs.member i).blsPubkey) ∧
    ∀ n, t.signerBitmap.getLsbD n = true ↔ ∃ i ∈ order, (i : Nat) = n
  sigs : List.Forall₂
    (fun sig key => c.blsVerify sig (voteDigest c p t.blockHash t.height t.round) key = true)
    t.sigs t.pubkeys

lemma Signed.new (b : H256) (h : UInt64) (r : UInt32) (vs : ValidatorSet) :
    (VoteTallier.new b h r vs).Signed c p vs where
  wf := .new b h r vs
  voters := ⟨[], nodup_nil, by simp [VoteTallier.voters, VoteTallier.new], rfl,
    by simp [VoteTallier.new]⟩
  sigs := .nil

lemma getLsbD_add (b : BitVec 128) {i n : Nat} (hi : i < 128) :
    (b ||| (1#128 <<< i)).getLsbD n = true ↔ b.getLsbD n = true ∨ i = n := by
  rw [BitVec.getLsbD_or, Bool.or_eq_true]
  refine or_congr_right ?_
  rw [BitVec.getLsbD_shiftLeft, BitVec.getLsbD_one]
  simp
  omega

lemma Signed.submit (h : t.Signed c p vs) (hs : t.submit c p v = .ok (t', st)) :
    t'.Signed c p vs ∧ t'.blockHash = t.blockHash ∧ t'.height = t.height := by
  have hwf := h.wf.submit hs
  obtain ⟨hbl, hhg, hrn, hn, hv, val, hg, rfl, -⟩ := submit_ok hs
  rw [h.wf.vs_eq] at hg hv
  obtain ⟨hi, hvl⟩ := List.getElem?_eq_some_iff.mp hg
  obtain ⟨order, hnp, hvt, hks, hbi⟩ := h.voters
  have hlt := Nat.lt_of_lt_of_le hi vs.size_le_128
  have hnt : (⟨v.validatorIndex.toNat, hi⟩ : Fin vs.size) ∉ order := by
    have hid := UInt32.toNat_inj.mp (ofNat_index hlt)
    rw [hvt]
    simp only [VoteTallier.voters, Finset.mem_filter, hid]
    exact fun hm => hn hm.2
  refine ⟨⟨hwf, ⟨order ++ [⟨v.validatorIndex.toNat, hi⟩], ?_, ?_, ?_, ?_⟩, ?_⟩, rfl, rfl⟩
  · exact nodup_append'.mpr ⟨hnp, nodup_singleton _, by simpa using hnt⟩
  · intro i
    rw [voters_add t v.blsSig val hi, mem_append, Finset.mem_insert, hvt, mem_singleton, or_comm]
  · have hk : val.blsPubkey = (vs.member ⟨v.validatorIndex.toNat, hi⟩).blsPubkey := by
      rw [← hvl]
      rfl
    rw [map_append, map_singleton, ← hk, ← hks]
    rfl
  · intro n
    show (t.signerBitmap ||| (1#128 <<< v.validatorIndex.toNat)).getLsbD n = true ↔ _
    rw [getLsbD_add _ hlt, hbi]
    simp [or_and_right, exists_or]
  · refine rel_append h.sigs (.cons ?_ .nil)
    rw [Vote.verifies, hg, hbl, hhg, hrn] at hv
    exact hv

lemma Signed.verify (ha : AggregateComplete c) (h : t.Signed c p vs) {cert : QuorumCertificate}
    (hcr : t.tryCertify c = some cert) :
    cert.verify c p vs = .ok () ∧ cert.blockHash = t.blockHash ∧ cert.height = t.height := by
  have ht := h.wf.threshold_le hcr
  obtain ⟨order, hnp, hv, hks, hbi⟩ := h.voters
  unfold tryCertify at hcr
  split_ifs at hcr
  obtain ⟨_, hs, rfl⟩ := Option.map_eq_some_iff.mp hcr
  unfold aggregateSignatures at hs
  split_ifs at hs with hem
  cases hs
  refine ⟨verify_ok_iff.mpr ⟨?_, ?_, ?_⟩, rfl, rfl⟩
  · -- the highest bit belongs to a voter
    by_cases hzr : t.signerBitmap = 0
    · exact .inl hzr
    · refine .inr ?_
      have hne : t.signerBitmap.toNat ≠ 0 := fun h0 => hzr (BitVec.eq_of_toNat_eq h0)
      have hb := Nat.testBit_log2 hne
      obtain ⟨i, -, hi⟩ := (hbi _).mp hb
      rw [← hi]
      exact i.isLt
  all_goals
    have hss : ∀ i : Fin vs.size, t.signerBitmap.getLsbD i = true ↔ i ∈ order := by
      intro i
      rw [hbi]
      constructor
      · grind
      · exact fun hi => ⟨i, hi, rfl⟩
  · have hst : signerSet
        ⟨t.blockHash, t.height, t.round, t.signerBitmap, c.blsAggregate t.sigs⟩ vs =
          t.voters vs := by
      ext i
      rw [← hv, ← hss]
      simp [signerSet]
    rw [hst]
    exact ht
  · have hpm : t.pubkeys.Perm (signerKeys
        ⟨t.blockHash, t.height, t.round, t.signerBitmap, c.blsAggregate t.sigs⟩ vs) := by
      rw [hks]
      refine List.Perm.map _ ((perm_ext_iff_of_nodup hnp
        ((nodup_finRange vs.size).filter _)).mpr fun i => ?_)
      rw [← hss, mem_filter]
      simp
    have hne : t.sigs ≠ [] := by simpa using hem
    have hks' : t.pubkeys ≠ [] := by
      intro hn
      have hsg := h.sigs
      rw [hn] at hsg
      exact hne (forall₂_nil_right_iff.mp hsg)
    rw [fastAggregateVerify, Bool.and_eq_true]
    refine ⟨?_, ha _ _ _ _ hne h.sigs hpm⟩
    rw [Bool.not_eq_true', isEmpty_eq_false_iff]
    intro hn
    rw [hn] at hpm
    exact hks' hpm.eq_nil

end VoteTallier

namespace RoundCoordinator

variable {c : Crypto} {co co' : RoundCoordinator}

/-- The PRE-COMMIT tally is of verified signatures for the proposal, and
the certificate of a committed height verifies. -/
structure Certifiable (c : Crypto) (co : RoundCoordinator) : Prop where
  precommitting : co.phase = .precommitting → ∃ t, co.precommitTally = some t ∧
    VoteTallier.Signed c .precommit co.vs t ∧ co.proposedBlock = some t.blockHash ∧
    t.height = co.height
  committed : co.phase = .committed → ∃ cert, co.finalCert = some cert ∧
    PrecommitCertificate.verify c cert co.vs = .ok () ∧
    co.proposedBlock = some cert.blockHash ∧ cert.height = co.height

lemma Certifiable.of_awaiting (h : co.phase = .awaitingProposal) : co.Certifiable c := by
  constructor <;> simp [h]

lemma Certifiable.fireTimeout (h : co.Certifiable c) : co.fireTimeout.Certifiable c := by
  unfold RoundCoordinator.fireTimeout
  split_ifs
  · exact h
  · exact .of_awaiting rfl

lemma fireTimeouts_awaiting (n : Nat) (h : co.phase = .awaitingProposal) :
    (fireTimeouts n co).phase = .awaitingProposal := by
  induction n generalizing co with
  | zero => exact h
  | succ _ ih =>
    refine ih ?_
    simp [fireTimeout, h]

lemma Certifiable.fireTimeouts (h : co.Certifiable c) (n : Nat) :
    (fireTimeouts n co).Certifiable c := by
  induction n generalizing co with
  | zero => exact h
  | succ _ ih => exact ih h.fireTimeout

lemma Certifiable.submitProposal {hash : H256} {proof : LeaderProof}
    (h : co.submitProposal c hash proof = .ok co') : co'.Certifiable c := by
  obtain rfl := submitProposal_eq h
  constructor <;> simp [withProposal]

lemma Certifiable.submitVote {p : VotePhase} {v : Vote} (ha : AggregateComplete c)
    (h : co.Certifiable c) (hs : co.submitVote c p v = .ok co') : co'.Certifiable c := by
  cases p with
  | prevote =>
    obtain ⟨hph, t, t', st, -, -, hcs⟩ := submitPrevote_ok hs
    rcases hcs with ⟨-, rfl⟩ | ⟨_, block, -, -, hbl, rfl⟩
    · constructor <;> simp [hph]
    · -- the PRE-COMMIT tally starts empty, for the proposed block
      refine ⟨fun _ => ?_, by simp [withPolc]⟩
      exact ⟨_, rfl, .new block co.height co.round co.vs, hbl, rfl⟩
  | precommit =>
    obtain ⟨hph, t, t', st, ht, hsb, hcs⟩ := submitPrecommit_ok hs
    obtain ⟨t₁, ht₁, hsg, hbl, hhg⟩ := h.precommitting hph
    cases ht.symm.trans ht₁
    obtain ⟨hsg', hbl', hhg'⟩ := hsg.submit hsb
    rw [← hbl'] at hbl
    rw [← hhg'] at hhg
    rcases hcs with ⟨-, rfl⟩ | ⟨cert, -, hcr, rfl⟩
    · refine ⟨fun _ => ⟨t', rfl, hsg', hbl, hhg⟩, by simp [hph]⟩
    · obtain ⟨hvy, hc, hct⟩ := hsg'.verify ha hcr
      refine ⟨by simp, fun _ => ⟨cert, rfl, hvy, ?_, ?_⟩⟩
      · rw [hc]
        exact hbl
      · rw [hct]
        exact hhg

end RoundCoordinator

namespace BftEngine

variable {c : Crypto} {e e' : BftEngine} {co : RoundCoordinator} {block : Block}
  {co' : RoundCoordinator} {proof : LeaderProof}

/-- The coordinator is for the next height, over the engine's set; the
proposal is built on the head with the proof's output as its `mix_hash`
and is the one the coordinator votes on. -/
structure PathInv (c : Crypto) (e : BftEngine) : Prop where
  coordinator : ∀ co, e.coordinator = some co →
    co.height = e.headNumber + 1 ∧ co.vs = e.validatorSet ∧ co.Certifiable c
  proposal : ∀ block proof, e.proposal = some (block, proof) →
    block.header.parentHash = e.headHash ∧ block.header.mixHash = proof.vrfOutput
  proposed : ∀ co block proof, e.coordinator = some co → e.proposal = some (block, proof) →
    co.phase ≠ .awaitingProposal → co.proposedBlock = some (block.hash c)

lemma PathInv.idle (hco : e.coordinator = none) (hpp : e.proposal = none) : e.PathInv c := by
  constructor <;> simp [hco, hpp]

lemma PathInv.startRound (h : e.PathInv c) (n : Nat) :
    { e with coordinator := some (RoundCoordinator.fireTimeouts n
        (.new (e.headNumber + 1) e.seed e.validatorSet)) }.PathInv c := by
  have hfr := fireTimeouts_frame n
    (.new (e.headNumber + 1) e.seed e.validatorSet)
  refine ⟨?_, h.proposal, ?_⟩
  · intro co hso
    cases hso
    have hn : (RoundCoordinator.new (e.headNumber + 1) e.seed e.validatorSet).Certifiable c :=
      .of_awaiting rfl
    exact ⟨hfr.1, hfr.2.1, hn.fireTimeouts n⟩
  · intro co _ _ hso _ hph
    cases hso
    exact absurd (fireTimeouts_awaiting n rfl) hph

lemma PathInv.withVote {p : VotePhase} {v : Vote} (ha : AggregateComplete c) (h : e.PathInv c)
    (hac : e.coordinator = some co) (hs : co.submitVote c p v = .ok co') :
    { e with coordinator := some co' }.PathInv c := by
  obtain ⟨hhg, -, hvs, -, hbl⟩ := submitVote_frame hs
  obtain ⟨hnx, hst, hcr⟩ := h.coordinator co hac
  refine ⟨?_, h.proposal, ?_⟩
  · intro co₁ hso
    cases hso
    exact ⟨hhg.trans hnx, hvs.trans hst, hcr.submitVote ha hs⟩
  · intro _ block proof hso hpp _
    cases hso
    rw [hbl]
    exact h.proposed co block proof hac hpp (submitVote_phase hs)

lemma PathInv.withProposal (h : e.PathInv c) (hac : e.coordinator = some co)
    (hok : co.submitProposal c (block.hash c) proof = .ok co')
    (hpt : block.header.parentHash = e.headHash) (hm : block.header.mixHash = proof.vrfOutput) :
    { e with coordinator := some co', proposal := some (block, proof) }.PathInv c := by
  obtain ⟨hnx, hs, -⟩ := h.coordinator co hac
  have hcr := RoundCoordinator.Certifiable.submitProposal hok
  obtain rfl := submitProposal_eq hok
  refine ⟨?_, ?_, ?_⟩
  · intro co₁ hso
    cases hso
    exact ⟨hnx, hs, hcr⟩
  · grind
  · intro _ b p hso hpp _
    cases hso
    cases hpp
    rfl

lemma PathInv.timeout (h : e.PathInv c) (hac : e.coordinator = some co) :
    { e with coordinator := some co.fireTimeout, proposal := none }.PathInv c := by
  obtain ⟨hnx, hs, hcr⟩ := h.coordinator co hac
  obtain ⟨hhg, hvs, -⟩ := fireTimeout_frame co
  refine ⟨?_, by simp, by simp⟩
  intro _ hso
  cases hso
  exact ⟨hhg.trans hnx, hvs.trans hs, hcr.fireTimeout⟩

/-! ## What the three paths leave behind -/

structure HeadState where
  headHash : H256
  headNumber : UInt64
  headTimestamp : UInt64
  seed : Arr 32
  deriving DecidableEq

def headState (e : BftEngine) : HeadState :=
  ⟨e.headHash, e.headNumber, e.headTimestamp, e.seed⟩

def leaderAt (c : Crypto) (e : BftEngine) (height : UInt64) (round : UInt32) : Nat :=
  e.validatorSet.selectLeader c height round e.seed

def HeadState.ofBlock (c : Crypto) (block : Block) : HeadState :=
  ⟨block.hash c, block.header.number, block.header.timestamp, block.header.mixHash⟩

/-- `e` and `e'` have the same head state and elect the same leaders. -/
def SameLeaders (c : Crypto) (e e' : BftEngine) : Prop :=
  e.headState = e'.headState ∧
    ∀ height round, e.leaderAt c height round = e'.leaderAt c height round

lemma SameLeaders.of_set (hstate : e.headState = e'.headState)
    (hs : e.validatorSet = e'.validatorSet) : SameLeaders c e e' := by
  refine ⟨hstate, fun height round => ?_⟩
  have hse : e.seed = e'.seed := congrArg HeadState.seed hstate
  rw [leaderAt, leaderAt, hs, hse]

/-- `after` is where adopting `block` on top of `before` leads to, and
where a node restarted from `block` with the same set starts. -/
def PathsAgree (c : Crypto) (before : BftEngine) (block : Block) (after : BftEngine) : Prop :=
  (∃ cert e, before.adoptSyncedBlock c block cert = .ok e ∧ SameLeaders c e after) ∧
    (block.header.number ≠ 0 → ∀ config, config.validatorSet = after.validatorSet →
      SameLeaders c (fromRecovered c config block) after)

/-- `after` has `block` as its head, and a certificate for the height
after `before` proves the commit. -/
structure Certified (c : Crypto) (before : BftEngine) (block : Block) (after : BftEngine) :
    Prop where
  state : after.headState = .ofBlock c block
  set : after.validatorSet = before.validatorSet
  parent : block.header.parentHash = before.headHash
  cert : ∃ cert : PrecommitCertificate, cert.height = before.headNumber + 1 ∧
    cert.blockHash = block.hash c ∧
    PrecommitCertificate.verify c cert before.validatorSet = .ok ()

lemma Certified.pathsAgree_iff (h : Certified c e block e') :
    PathsAgree c e block e' ↔ block.header.number = e.headNumber + 1 := by
  constructor
  · rintro ⟨⟨cert, e₁, had, -⟩, -⟩
    exact (BftGossip.adoptSyncedBlock_ok had).1
  · intro hnm
    obtain ⟨cert, hhg, hbl, hvy⟩ := h.cert
    refine ⟨⟨cert, { e.advanceHead c block cert block.header.mixHash with
      pendingPrevotes := [], pendingPrecommits := [] }, ?_, .of_set h.state.symm h.set.symm⟩, ?_⟩
    · simp [adoptSyncedBlock, hnm, hhg, hbl, hvy, h.parent]
    · intro hne _ hs
      refine .of_set ?_ hs
      rw [h.state]
      simp [fromRecovered, fresh, headState, HeadState.ofBlock, hne]

lemma PathInv.harvest (h : e.PathInv c) (hac : e.coordinator = some co)
    (hph : co.phase = .committed) (hpp : e.proposal = some (block, proof))
    (cert : PrecommitCertificate) :
    Certified c e block (e.advanceHead c block cert proof.vrfOutput) := by
  obtain ⟨hnx, hs, hcr⟩ := h.coordinator co hac
  obtain ⟨hpt, hm⟩ := h.proposal block proof hpp
  obtain ⟨cert₁, -, hvy, hbl, hhg⟩ := hcr.committed hph
  have hpd := h.proposed co block proof hac hpp (by simp [hph])
  refine ⟨?_, rfl, hpt, cert₁, hhg.trans hnx, ?_, hs ▸ hvy⟩
  · simp [headState, advanceHead, HeadState.ofBlock, hm]
  · exact Option.some.inj (hbl.symm.trans hpd)

lemma Certified.adopt {cert : PrecommitCertificate}
    (h : e.adoptSyncedBlock c block cert = .ok e') : Certified c e block e' := by
  obtain ⟨hnm, hhg, hpt, hbl, hvy, rfl⟩ := BftGossip.adoptSyncedBlock_ok h
  exact ⟨rfl, rfl, hpt, cert, hhg.trans hnm, hbl, hvy⟩

end BftEngine

/-! ## Every act of a driver -/

namespace BftGossip

open BftEngine

variable {c : Crypto} {g₀ g g' : BftGossip} {m : Micro}

lemma Act.validatorSet (h : Act c g₀ m g g') :
    g'.engine.validatorSet = g.engine.validatorSet := by
  cases h with
  | adopt _ _ _ _ _ _ _ _ ok =>
    obtain rfl := adoptSyncedBlock_eq ok
    rfl
  | buffer _ p => cases p <;> rfl
  | _ => rfl

lemma PathInv.act (ha : AggregateComplete c) (h : g.engine.PathInv c)
    (hat : Act c g₀ m g g') : g'.engine.PathInv c := by
  cases hat with
  | sync | resend | stage | record | prune | announce =>
    exact { h with }
  | buffer _ p => cases p <;> exact { h with }
  | ensure => exact h.startRound 0
  | jump p => exact h.startRound p.round.toNat
  | accept _ _ _ _ _ _ _ _ _ _ hbu hac hs | propose _ _ _ _ _ _ _ hbu hac hs =>
    refine h.withProposal hac hs ?_ ?_ <;> rw [hbu] <;> rfl
  | vote _ _ _ _ _ _ hac hs => exact h.withVote ha hac hs
  | castPrevote _ _ _ _ _ hac _ _ _ _ hs =>
    exact h.withVote (p := .prevote) ha hac hs
  | castPrecommit _ _ _ _ _ hac _ _ _ _ hs =>
    exact h.withVote (p := .precommit) ha hac hs
  | timeout _ _ hac => exact h.timeout hac
  | harvest => exact .idle rfl rfl
  | adopt _ _ _ _ _ _ _ _ had =>
    obtain rfl := adoptSyncedBlock_eq had
    exact .idle rfl rfl

/-- What has happened to the head since the micro-step began: nothing, or
one block was committed. -/
def Progress (c : Crypto) (g₀ g : BftGossip) : Prop :=
  (SameHead g₀ g ∧ g.engine.validatorSet = g₀.engine.validatorSet) ∨
    ∃ block, g.harvested = g₀.harvested ++ [block] ∧ Certified c g₀.engine block g.engine

lemma certified_of_same {e : BftEngine} {block : Block} (h : Certified c g.engine block e)
    (hsm : SameHead g₀ g) (hs : g.engine.validatorSet = g₀.engine.validatorSet) :
    Certified c g₀.engine block e := by
  obtain ⟨hstate, hvs, hpt, hcr⟩ := h
  rw [hs] at hvs hcr
  rw [hsm.headHash] at hpt
  rw [hsm.headNumber] at hcr
  exact ⟨hstate, hvs, hpt, hcr⟩

lemma Act.certified (hi : g.engine.PathInv c) (ha : Act c g₀ m g g') :
    (SameHead g g' ∧ g'.engine.seed = g.engine.seed) ∨
      ∃ block, SameHead g₀ g ∧ g'.harvested = g.harvested ++ [block] ∧
        Certified c g.engine block g'.engine := by
  cases ha with
  | harvest _ _ block _ cert hsm hac hph _ hpp =>
    exact .inr ⟨block, hsm, rfl, hi.harvest hac hph hpp cert⟩
  | adopt _ _ block _ _ _ hsm _ had =>
    exact .inr ⟨block, hsm, rfl, .adopt had⟩
  | buffer _ p => cases p <;> exact .inl ⟨⟨rfl, rfl, rfl, rfl, rfl⟩, rfl⟩
  | _ => exact .inl ⟨⟨rfl, rfl, rfl, rfl, rfl⟩, rfl⟩

lemma Progress.act (hi : g.engine.PathInv c) (h : Progress c g₀ g)
    (ha : Act c g₀ m g g') : Progress c g₀ g' := by
  have hset := ha.validatorSet
  rcases ha.certified hi with ⟨hsm, hs⟩ | ⟨block, hsm, hhr, hcr⟩
  · rcases h with ⟨hsm₀, hset₀⟩ | ⟨block, hhr, hcr⟩
    · exact .inl ⟨hsm₀.trans hsm, hset.trans hset₀⟩
    · refine .inr ⟨block, hsm.harvested.trans hhr, ?_⟩
      have hstate : g'.engine.headState = g.engine.headState := by
        simp [headState, hsm.headHash, hsm.headNumber, hsm.headTimestamp, hs]
      exact ⟨hstate.trans hcr.state, hset.trans hcr.set, hcr.parent, hcr.cert⟩
  · rcases h with ⟨-, hset₀⟩ | ⟨_, hhr', -⟩
    · refine .inr ⟨block, ?_, certified_of_same hcr hsm hset₀⟩
      rw [hhr, hsm.harvested]
    · -- a micro-step commits only on the head it began with
      have hn := hsm.harvested.symm.trans hhr'
      simp at hn

lemma microStep_progress (hag : AggregateComplete c) (h : g.engine.PathInv c) (m : Micro) :
    (g.microStep c m).engine.PathInv c ∧ Progress c g (g.microStep c m) :=
  microStep_keeps (P := fun g' => g'.engine.PathInv c ∧ Progress c g g')
    ⟨h, .inl ⟨.refl g, rfl⟩⟩ fun _ _ ih hac => ⟨PathInv.act hag ih.1 hac, ih.2.act ih.1 hac⟩

/-- The drivers a node can have: started at some head, resumed at the
round it was in, fed with micro-steps, drained and rotated by its host. -/
inductive Reachable (c : Crypto) : BftGossip → Prop
  | start (config : BftConfig) (head : Block) (seed : Arr 32) :
      Reachable c (.new (.fresh c config head seed))
  | resume {g : BftGossip} {round : UInt32} {e : BftEngine} (h : Reachable c g)
      (ok : g.engine.fastForwardToRound round = .ok e) : Reachable c { g with engine := e }
  | micro {g : BftGossip} (h : Reachable c g) (m : Micro) : Reachable c (g.microStep c m)
  | drain {g : BftGossip} (h : Reachable c g) : Reachable c g.drainHarvested.1
  | evidence {g : BftGossip} (h : Reachable c g) :
      Reachable c { g with engine := g.engine.drainEvidence.1 }
  | rotate {g : BftGossip} {vs : ValidatorSet} {myIndex : UInt32} {e : BftEngine}
      (h : Reachable c g) (ok : g.engine.rotateValidatorSet vs myIndex = .ok e) :
      Reachable c { g with engine := e }

lemma Reachable.runMicro (h : Reachable c g) (ms : List Micro) :
    Reachable c (g.runMicro c ms) := by
  induction ms generalizing g with
  | nil => exact h
  | cons m _ ih => exact ih (h.micro m)

lemma Reachable.pathInv (ha : AggregateComplete c) (h : Reachable c g) :
    g.engine.PathInv c := by
  induction h with
  | start => exact .idle rfl rfl
  | @resume _ round _ _ hok ih =>
    unfold fastForwardToRound at hok
    dsimp only at hok
    split_ifs at hok
    cases hok
    exact ih.startRound round.toNat
  | micro _ m ih => exact (microStep_progress ha ih m).1
  | drain _ ih | evidence _ ih => exact ⟨ih.coordinator, ih.proposal, ih.proposed⟩
  | @rotate _ _ _ _ _ hok =>
    unfold rotateValidatorSet at hok
    split_ifs at hok with _ hil
    cases hok
    simp [Bool.or_eq_true, not_or] at hil
    exact .idle hil.1 hil.2

def committedBy (c : Crypto) (g : BftGossip) (m : Micro) : List Block :=
  (g.microStep c m).harvested.drop g.harvested.length

/-- The three ways lead to one head, seed and leaders exactly when the block
has the next number. -/
theorem commit_paths_agree_iff (hagg : AggregateComplete c) (hg : Reachable c g) (m : Micro)
    (block : Block) (h : block ∈ g.committedBy c m) :
    PathsAgree c g.engine block (g.microStep c m).engine ↔
      block.header.number = g.engine.headNumber + 1 := by
  unfold committedBy at h
  rcases (microStep_progress hagg (hg.pathInv hagg) m).2 with ⟨hsm, -⟩ | ⟨b, hb, hcr⟩
  · rw [hsm.harvested, drop_length] at h
    cases h
  · rw [hb, drop_left, mem_singleton] at h
    subst h
    exact hcr.pathsAgree_iff

/-! ### The follower again

The follower of `followerHost` takes a proposal, votes on its own quorum
and is one `drive` away from the commit. -/

def followerVoted (height : UInt64) : BftGossip :=
  followerHost.driver.runMicro .reference
    [.recv none (BftMessage.proposal (proposalAt height)).encode, .drive none]

lemma followerVoted_reachable (height : UInt64) : Reachable .reference (followerVoted height) :=
  (Reachable.start followerConfig _ _).runMicro _

def followerBlock (height : UInt64) : Block :=
  followerHost.driver.engine.reconstruct .reference none height
    (proposalAt height).leaderProof (Arr.zero 20) .empty

theorem commit_paths_agree_follower :
    followerBlock 8 ∈ (followerVoted 8).committedBy .reference (.drive none) ∧
      PathsAgree .reference (followerVoted 8).engine (followerBlock 8)
        ((followerVoted 8).microStep .reference (.drive none)).engine := by
  have hm : followerBlock 8 ∈
      (followerVoted 8).committedBy .reference (.drive none) := by decide +kernel
  exact ⟨hm, (commit_paths_agree_iff Crypto.reference_aggregateComplete
    (followerVoted_reachable 8) (.drive none) (followerBlock 8) hm).mpr (by decide +kernel)⟩

/-- Block 3 on head 7 is committed, but no certificate lets another engine
at head 7 adopt it. -/
theorem stale_block_not_adoptable : Reachable .reference (followerVoted 3) ∧
      followerBlock 3 ∈ (followerVoted 3).committedBy .reference (.drive none) ∧
      ((followerVoted 3).microStep .reference (.drive none)).engine.headState =
        .ofBlock .reference (followerBlock 3) ∧
      ¬ PathsAgree .reference (followerVoted 3).engine (followerBlock 3)
        ((followerVoted 3).microStep .reference (.drive none)).engine := by
  refine ⟨followerVoted_reachable 3, by decide +kernel, by decide +kernel, ?_⟩
  rintro ⟨⟨_, e, had, -⟩, -⟩
  exact absurd (adoptSyncedBlock_ok had).1 (by decide +kernel)

end BftGossip

end Aii.Bft
