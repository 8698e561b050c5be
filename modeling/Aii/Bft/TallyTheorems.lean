/-
Aii.Bft.TallyTheorems — what a digest, a tally and a certificate prove.

`VoteTallier.WF` is preserved by submissions, and the signers of a
verifying certificate are a quorum.
-/
import Aii.Bft.Tally
import Mathlib.Data.Finset.Image
import Mathlib.Data.Set.Function

namespace Aii.Bft

open Common List VoteTallier UInt64 ValidatorSet QuorumCertificate PrecommitCertificate

variable {c : Crypto} {vs : ValidatorSet}

lemma votePreimage_length (p : VotePhase) (b : H256) (h : UInt64) (r : UInt32) :
    (votePreimage p b h r).length = p.domain.length + 44 := by
  simp [votePreimage]

lemma votePreimage_inj {p p' : VotePhase} {b b' : H256} {h h' : UInt64} {r r' : UInt32}
    (e : votePreimage p b h r = votePreimage p' b' h' r') : p = p' ∧ b = b' ∧ h = h' ∧ r = r' := by
  have hl := congrArg length e
  rw [votePreimage_length, votePreimage_length] at hl
  obtain rfl : p = p' := by
    cases p <;> cases p' <;> first | rfl | exact absurd hl (by decide)
  obtain ⟨e, hr⟩ := append_field_inj (by simp) e
  obtain ⟨e, hh⟩ := append_field_inj (by simp) e
  obtain ⟨-, hb⟩ := append_field_inj rfl e
  exact ⟨rfl, toList_inj.mp hb, u64Be_inj hh, u32Be_inj hr⟩

/-! ## Tallies -/

namespace VoteTallier

variable {vs : ValidatorSet} {p : VotePhase} {t t' : VoteTallier} {v : Vote} {st : TallyState}

/-- The validators of `vs` whose vote was accepted. -/
def voters (vs : ValidatorSet) (t : VoteTallier) : Finset (Fin vs.size) :=
  Finset.univ.filter fun i => UInt32.ofNat i ∈ t.received

/-- Well-formedness: what holds of every tallier over `vs` that only
`submit` moved. -/
structure WF (vs : ValidatorSet) (t : VoteTallier) : Prop where
  vs_eq : t.vs = vs
  inRange : ∀ i ∈ t.received, i.toNat < vs.size
  stake : t.stakeCollected.toNat = weight vs.stakeAt (t.voters vs)
  sigs_length : t.sigs.length = t.received.length

/-- Everything an accepted submission says and does. -/
lemma submit_ok (h : t.submit c p v = .ok (t', st)) :
    v.blockHash = t.blockHash ∧ v.height = t.height ∧ v.round = t.round ∧
      v.validatorIndex ∉ t.received ∧ v.verifies c p t.vs = true ∧
      ∃ val, t.vs.validators[v.validatorIndex.toNat]? = some val ∧
        t' = t.add v.validatorIndex v.blsSig val ∧ st = t'.state := by
  unfold submit at h
  by_cases hb : v.blockHash = t.blockHash
  · by_cases hh : v.height = t.height
    · by_cases hr : v.round = t.round
      · simp only [hb, hh, hr, ne_eq, not_true_eq_false, if_false] at h
        cases hg : t.vs.validators[v.validatorIndex.toNat]? with
        | none => simp [hg] at h
        | some val =>
          simp only [hg] at h
          split_ifs at h with hd hs
          cases h
          refine ⟨hb, hh, hr, hd, ?_, val, rfl, rfl, rfl⟩
          simp [Vote.verifies, hg, hb, hh, hr, hs]
      · simp [hb, hh, hr] at h
    · simp [hb, hh] at h
  · simp [hb] at h

lemma ofNat_index {n : Nat} (h : n < 128) : (UInt32.ofNat n).toNat = n :=
  UInt32.toNat_ofNat_of_lt' (Nat.lt_trans h (by decide))

lemma voters_add (t : VoteTallier) {i : UInt32} (s : BlsSignature) (val : Validator)
    (hi : i.toNat < vs.size) : (t.add i s val).voters vs = insert ⟨i.toNat, hi⟩ (t.voters vs) := by
  ext j
  have hlt := Nat.lt_of_lt_of_le j.isLt vs.size_le_128
  have hj : UInt32.ofNat j = i ↔ j = ⟨i.toNat, hi⟩ := by
    rw [← UInt32.toNat_inj, ofNat_index hlt, Fin.ext_iff]
  simp only [voters, add, Finset.mem_filter, Finset.mem_univ, true_and, Finset.mem_insert,
    mem_cons, hj]

lemma WF.new (b : H256) (h : UInt64) (r : UInt32) (vs : ValidatorSet) :
    (VoteTallier.new b h r vs).WF vs where
  vs_eq := rfl
  inRange := by simp [VoteTallier.new]
  stake := by simp [VoteTallier.new, voters, weight]
  sigs_length := rfl

/-- One accepted vote keeps the tally well formed: the stakes of distinct
validators add up below `2 ^ 64`, so the saturating sum is exact. -/
lemma WF.submit (hwf : t.WF vs) (h : t.submit c p v = .ok (t', st)) : t'.WF vs := by
  obtain ⟨-, -, -, hn, -, val, hg, rfl, -⟩ := submit_ok h
  rw [hwf.vs_eq] at hg
  obtain ⟨hi, hv⟩ := List.getElem?_eq_some_iff.mp hg
  have hnt : (⟨v.validatorIndex.toNat, hi⟩ : Fin vs.size) ∉ t.voters vs := by
    have hlt := Nat.lt_of_lt_of_le hi vs.size_le_128
    have hid := UInt32.toNat_inj.mp (ofNat_index hlt)
    simp only [voters, Finset.mem_filter, hid]
    exact fun hm => hn hm.2
  have hw : weight vs.stakeAt (insert ⟨v.validatorIndex.toNat, hi⟩ (t.voters vs))
      = val.stake.toNat + t.stakeCollected.toNat := by
    rw [weight, Finset.sum_insert hnt, hwf.stake, ← hv]
    rfl
  refine ⟨hwf.vs_eq, ?_, ?_, ?_⟩
  · intro i hm
    rcases mem_cons.mp hm with rfl | hm
    · exact hi
    · exact hwf.inRange i hm
  · have hle := weight_le_total vs.stakeAt (insert ⟨v.validatorIndex.toNat, hi⟩ (t.voters vs))
    have ht : totalWeight vs.stakeAt = vs.total := vs.total_eq_sum.symm
    have hlt := vs.total_lt
    rw [voters_add t v.blsSig val hi]
    show (satAdd64 t.stakeCollected val.stake).toNat
      = weight vs.stakeAt (insert ⟨v.validatorIndex.toNat, hi⟩ (t.voters vs))
    rw [satAdd64_toNat]
    omega
  · simp [add, hwf.sigs_length]

variable (c) in
def submitOrKeep (p : VotePhase) (t : VoteTallier) (v : Vote) : VoteTallier :=
  match t.submit c p v with
  | .ok out => out.1
  | .error _ => t

variable (c) in
def submitAll (p : VotePhase) (t : VoteTallier) (votes : List Vote) : VoteTallier :=
  votes.foldl (submitOrKeep c p) t

lemma submitAll_keeps {P : VoteTallier → Prop} (h : P t) (votes : List Vote)
    (hsp : ∀ t v t' st, P t → t.submit c p v = .ok (t', st) → P t') :
    P (t.submitAll c p votes) := by
  refine votes.foldlRecOn (motive := P) _ h fun t ht v _ => ?_
  unfold submitOrKeep
  cases hs : t.submit c p v with
  | error e => exact ht
  | ok out => exact hsp _ _ _ _ ht hs

lemma WF.submitAll (hwf : t.WF vs) (votes : List Vote) : (t.submitAll c p votes).WF vs :=
  submitAll_keeps hwf votes fun _ _ _ _ hwf hs => hwf.submit hs

end VoteTallier

/-! ## Quorums of a validator set -/

lemma ValidatorSet.totalWeight_eq (vs : ValidatorSet) : totalWeight vs.stakeAt = vs.total :=
  vs.total_eq_sum.symm

lemma ValidatorSet.isQuorum_iff (hT : vs.total < 2 ^ 63) (S : Finset (Fin vs.size)) :
    IsQuorum vs.stakeAt S ↔ vs.quorumThreshold.toNat ≤ weight vs.stakeAt S := by
  rw [IsQuorum, vs.totalWeight_eq, vs.quorumThreshold_exact hT]
  omega

lemma VoteTallier.WF.threshold_le {t : VoteTallier} {cert : QuorumCertificate} (hwf : t.WF vs)
    (h : t.tryCertify c = some cert) :
    vs.quorumThreshold.toNat ≤ weight vs.stakeAt (t.voters vs) := by
  unfold tryCertify at h
  split at h
  · cases h
  next hge =>
    rw [← hwf.stake, ← hwf.vs_eq]
    exact Nat.le_of_not_lt hge

namespace QuorumCertificate

variable {vs : ValidatorSet} {p : VotePhase} {cert : QuorumCertificate} {i : Fin vs.size}

def signerSet (cert : QuorumCertificate) (vs : ValidatorSet) : Finset (Fin vs.size) :=
  Finset.univ.filter fun i => cert.signerBitmap.getLsbD i

lemma mem_signers : i ∈ cert.signers vs ↔ i ∈ cert.signerSet vs := by
  simp [signers, signerSet]

lemma mem_signerKeys (hi : i ∈ cert.signerSet vs) :
    (vs.member i).blsPubkey ∈ cert.signerKeys vs :=
  mem_map.mpr ⟨i, mem_signers.mpr hi, rfl⟩

lemma signerStake_toNat (cert : QuorumCertificate) (vs : ValidatorSet) :
    (cert.signerStake vs).toNat = weight vs.stakeAt (cert.signerSet vs) := by
  have hs : ((cert.signers vs).map vs.stakeAt).sum = weight vs.stakeAt (cert.signerSet vs) := by
    have hnp : (cert.signers vs).Nodup := (nodup_finRange vs.size).filter _
    have hst : (cert.signers vs).toFinset = cert.signerSet vs := by
      ext i
      rw [mem_toFinset, mem_signers]
    rw [weight, ← hst, sum_toFinset _ hnp]
  have hle := weight_le_total vs.stakeAt (cert.signerSet vs)
  rw [vs.totalWeight_eq] at hle
  have hlt := vs.total_lt
  have hm : ((cert.signers vs).map fun i => (vs.member i).stake).map toNat
      = (cert.signers vs).map vs.stakeAt := by
    rw [map_map]
    rfl
  rw [signerStake, satSum64_toNat, hm, hs]
  · simp
  · rw [hm, hs]
    simp
    omega

lemma verify_ok_iff : cert.verify c p vs = .ok () ↔
      (cert.signerBitmap = 0 ∨ cert.signerBitmap.toNat.log2 < vs.size) ∧
      vs.quorumThreshold.toNat ≤ weight vs.stakeAt (cert.signerSet vs) ∧
      c.fastAggregateVerify cert.aggregatedSig
        (voteDigest c p cert.blockHash cert.height cert.round) (cert.signerKeys vs) = true := by
  rw [← cert.signerStake_toNat vs, ← UInt64.le_iff_toNat_le]
  unfold verify
  simp only
  by_cases hb : cert.signerBitmap ≠ 0 ∧ vs.size ≤ cert.signerBitmap.toNat.log2
  · grind
  have hin : cert.signerBitmap = 0 ∨ cert.signerBitmap.toNat.log2 < vs.size := by
    by_cases hzr : cert.signerBitmap = 0
    · exact .inl hzr
    · exact .inr (Nat.lt_of_not_le fun hle => hb ⟨hzr, hle⟩)
  rw [if_neg hb]
  by_cases hsk : cert.signerStake vs < vs.quorumThreshold
  · simp [hsk, UInt64.not_le.mpr hsk]
  · grind

lemma isQuorum_of_verify (hT : vs.total < 2 ^ 63) (h : cert.verify c p vs = .ok ()) :
    IsQuorum vs.stakeAt (cert.signerSet vs) :=
  (isQuorum_iff hT _).mpr (verify_ok_iff.mp h).2.1

end QuorumCertificate

/-- The threshold is `⌊2T/3⌋ + 1` over the mathematical total `T`, and no
verifying certificate and no tally that certifies is carried by two
thirds of the stake or less. -/
def QuorumExact (c : Crypto) (vs : ValidatorSet) : Prop :=
  vs.quorumThreshold.toNat = 2 * stakeSum vs.validators / 3 + 1 ∧
  (∀ p cert, QuorumCertificate.verify c p cert vs = .ok () →
    2 * stakeSum vs.validators < 3 * weight vs.stakeAt (cert.signerSet vs)) ∧
  ∀ p blockHash height round votes,
    let t := (VoteTallier.new blockHash height round vs).submitAll c p votes
    (t.tryCertify c).isSome → 2 * stakeSum vs.validators < 3 * weight vs.stakeAt (t.voters vs)

/-- The doubling in `quorum_threshold` wraps from `2 ^ 63` on, and there
the threshold is always wrong. -/
theorem quorumExact_iff (c : Crypto) (l : List Validator) (vs : ValidatorSet)
    (h : ValidatorSet.new l = .ok vs) : QuorumExact c vs ↔ stakeSum l < 2 ^ 63 := by
  have ht : vs.total = stakeSum l := by
    rw [total, vs.total_eq, new_validators h]
  rw [QuorumExact, new_validators h, ← ht]
  constructor
  · rintro ⟨hth, -⟩
    rw [vs.quorumThreshold_toNat] at hth
    omega
  · intro hT
    refine ⟨vs.quorumThreshold_exact hT, ?_, ?_⟩
    · intro p cert hcr
      have hq := isQuorum_of_verify hT hcr
      rwa [IsQuorum, vs.totalWeight_eq] at hq
    · intro p b height round votes t hso
      obtain ⟨cert, hcr⟩ := Option.isSome_iff_exists.mp hso
      have hwf : t.WF vs := (VoteTallier.WF.new b height round vs).submitAll votes
      have hq := (isQuorum_iff hT _).mpr (hwf.threshold_le hcr)
      rwa [IsQuorum, vs.totalWeight_eq] at hq

def soloValidator (stake : UInt64) : Validator := ⟨Arr.zero 48, Arr.zero 32, stake⟩

/-- Four validators of stake one. -/
def quartet : ValidatorSet :=
  ⟨[1, 2, 3, 4].map fun k => ⟨arrOfNat 48 k, Arr.zero 32, 1⟩, 4,
    by decide, by decide, by decide, by decide⟩

theorem quorumExact_iff_quartet : QuorumExact .reference quartet :=
  (quorumExact_iff _ quartet.validators _ rfl).mpr (by decide)

/-- With stakes `2 ^ 63` and `1` the doubled total wraps, and the threshold
is `1`. -/
theorem quorumExact_wraps :
    ∃ vs, ValidatorSet.new [soloValidator 0x8000000000000000, soloValidator 1] = .ok vs ∧
      vs.quorumThreshold = 1 ∧ ¬ QuorumExact .reference vs :=
  ⟨⟨[soloValidator 0x8000000000000000, soloValidator 1], 0x8000000000000001,
      by decide, by decide, by decide, by decide⟩, rfl, by decide, fun h => absurd h.1 (by decide)⟩

/-- The digest preimages of the votes that members of `honest` cast. -/
def castPreimages {vs : ValidatorSet} (honest : Finset (Fin vs.size))
    (cast : Fin vs.size → VotePhase → H256 → UInt64 → UInt32 → Prop) : Set Bytes :=
  {x | ∃ i ∈ honest, ∃ p b h r, cast i p b h r ∧ x = votePreimage p b h r}

/-- What is assumed of the signatures when two certificates are compared.
`signed pk m`: the holder of `pk` signed `m`. `cast i p b h r`: validator
`i` cast that vote. -/
structure SigningAssumptions (c : Crypto) (vs : ValidatorSet) (honest : Finset (Fin vs.size))
    (signed : BlsPubKey → Bytes → Prop)
    (cast : Fin vs.size → VotePhase → H256 → UInt64 → UInt32 → Prop)
    (certs : List PrecommitCertificate) : Prop where
  /-- Aggregate verification succeeds only if every listed key signed. -/
  aggregate_sound : ∀ cert ∈ certs, c.fastAggregateVerify cert.aggregatedSig
      (PrecommitVote.digest c cert.blockHash cert.height cert.round) (cert.signerKeys vs) = true →
    ∀ pk ∈ cert.signerKeys vs,
      signed pk (PrecommitVote.digest c cert.blockHash cert.height cert.round)
  /-- An honest key signs nothing but the votes its owner cast. -/
  unforgeable : ∀ i ∈ honest, ∀ m, signed (vs.member i).blsPubkey m →
    ∃ p b h r, cast i p b h r ∧ m = voteDigest c p b h r
  /-- An honest validator casts one PRE-COMMIT per height and round. -/
  one_precommit : ∀ i ∈ honest, ∀ b b' h r,
    cast i .precommit b h r → cast i .precommit b' h r → b = b'
  /-- Keccak does not collide on the preimages that occur. -/
  collision_free : Set.InjOn c.keccak256
    (castPreimages honest cast ∪
      {x | ∃ cert ∈ certs, x = votePreimage .precommit cert.blockHash cert.height cert.round})

lemma SigningAssumptions.cast_of_signer {honest : Finset (Fin vs.size)}
    {signed : BlsPubKey → Bytes → Prop}
    {cast : Fin vs.size → VotePhase → H256 → UInt64 → UInt32 → Prop}
    {certs : List PrecommitCertificate} (hs : SigningAssumptions c vs honest signed cast certs)
    {cert : PrecommitCertificate} (hm : cert ∈ certs)
    (hv : verify c cert vs = .ok ()) {i : Fin vs.size} (hi : i ∈ honest)
    (hsi : i ∈ cert.signerSet vs) : cast i .precommit cert.blockHash cert.height cert.round := by
  have ha := (verify_ok_iff.mp hv).2.2
  have hsg := hs.aggregate_sound cert hm ha _ (mem_signerKeys hsi)
  obtain ⟨p, b, h, r, hca, hd⟩ := hs.unforgeable i hi _ hsg
  have hp := hs.collision_free (.inr ⟨cert, hm, rfl⟩) (.inl ⟨i, hi, p, b, h, r, hca, rfl⟩)
    (toList_inj.mp hd)
  obtain ⟨rfl, rfl, rfl, rfl⟩ := votePreimage_inj hp
  exact hca

/-- Two verifying PRE-COMMIT certificates share more than a third of the
stake. -/
theorem precommit_certificates_intersect (c : Crypto) (vs : ValidatorSet) (hT : vs.total < 2 ^ 63)
    (cert₁ cert₂ : PrecommitCertificate) (h₁ : PrecommitCertificate.verify c cert₁ vs = .ok ())
    (h₂ : PrecommitCertificate.verify c cert₂ vs = .ok ()) :
    (vs.total < 3 * weight vs.stakeAt (cert₁.signerSet vs ∩ cert₂.signerSet vs) ∧
      vs.total / 3 < weight vs.stakeAt (cert₁.signerSet vs ∩ cert₂.signerSet vs)) ∧
    ∀ honest signed cast, FaultBound vs.stakeAt honest →
      SigningAssumptions c vs honest signed cast [cert₁, cert₂] →
      cert₁.height = cert₂.height → cert₁.round = cert₂.round →
      cert₁.blockHash = cert₂.blockHash := by
  have hq₁ := isQuorum_of_verify hT h₁
  have hq₂ := isQuorum_of_verify hT h₂
  have hit := hq₁.inter hq₂
  rw [vs.totalWeight_eq] at hit
  refine ⟨⟨hit, by omega⟩, ?_⟩
  intro honest signed cast hf hs hhg hrn
  obtain ⟨i, hi, hi₁, hi₂⟩ := hq₁.exists_honest hf hq₂
  have hc₁ := hs.cast_of_signer (by simp) h₁ hi hi₁
  have hc₂ := hs.cast_of_signer (by simp) h₂ hi hi₂
  rw [← hhg, ← hrn] at hc₂
  exact hs.one_precommit i hi _ _ _ _ hc₁ hc₂

def quartetCert (bitmap : BitVec 128) (keys : Nat) : PrecommitCertificate where
  blockHash := Arr.zero 32
  height := 1
  round := 0
  signerBitmap := bitmap
  aggregatedSig := referenceSig keys (PrecommitVote.digest .reference (Arr.zero 32) 1 0)

/-- Validators 0, 1, 2 and validators 1, 2, 3 certify, and validator 3 is
faulty: what is signed twice is signed by 1 and 2. -/
theorem precommit_certificates_intersect_quartet :
    let cert := quartetCert 0b0111 6
    let cert' := quartetCert 0b1110 9
    (verify .reference cert quartet = .ok () ∧ verify .reference cert' quartet = .ok ()) ∧
      cert.signerSet quartet ≠ cert'.signerSet quartet ∧
      quartet.total < 3 * weight quartet.stakeAt
        (cert.signerSet quartet ∩ cert'.signerSet quartet) ∧
      cert.blockHash = cert'.blockHash := by
  intro cert cert'
  have hv : verify .reference cert quartet = .ok () := by decide +kernel
  have hv' : verify .reference cert' quartet = .ok () := by decide +kernel
  have h := precommit_certificates_intersect .reference quartet (by decide) cert cert' hv hv'
  let honest : Finset (Fin quartet.size) := Finset.univ.filter (·.val ≠ 3)
  let digest := PrecommitVote.digest .reference cert.blockHash cert.height cert.round
  refine ⟨⟨hv, hv'⟩, by decide +kernel, h.1.1, h.2 honest (fun _ m => m = digest)
    (fun _ p b h r => p = .precommit ∧ b = cert.blockHash ∧ h = cert.height ∧ r = cert.round)
    (by decide +kernel) ⟨?_, ?_, ?_, ?_⟩ rfl rfl⟩
  · simp only [mem_cons, not_mem_nil, or_false, forall_eq_or_imp, forall_eq]
    exact ⟨fun _ _ _ => rfl, fun _ _ _ => rfl⟩
  · intro i _ m hm
    exact ⟨_, _, _, _, ⟨rfl, rfl, rfl, rfl⟩, hm⟩
  · rintro i - b b' _ _ ⟨-, rfl, -⟩ ⟨-, rfl, -⟩
    rfl
  · -- one preimage occurs
    have hone : ∀ z ∈ castPreimages honest (fun (_ : Fin quartet.size) p b h r =>
          p = VotePhase.precommit ∧ b = cert.blockHash ∧ h = cert.height ∧ r = cert.round) ∪
        {x | ∃ cert₁ ∈ [cert, cert'],
          x = votePreimage .precommit cert₁.blockHash cert₁.height cert₁.round},
        z = votePreimage .precommit cert.blockHash cert.height cert.round := by
      rintro z (⟨i, -, p, b, h, r, ⟨rfl, rfl, rfl, rfl⟩, rfl⟩ | ⟨cert₁, hmem, rfl⟩)
      · rfl
      · rcases mem_pair.mp hmem with rfl | rfl <;> rfl
    rintro x hx y hy -
    rw [hone x hx, hone y hy]

end Aii.Bft
