/-
Aii.Cross.Federation — the federated bridge vault
(`aii-crosschain/src/federation.rs`).

The vault takes one aggregated signature with a bitmap of the positions
that signed.
-/
import Aii.Common.Runs
import Aii.Crypto
import Mathlib.Data.Fintype.Card

namespace Aii.Cross

open Common List BitVec

def MAX_FEDERATION_SIZE : Nat := 64

inductive BridgeError where
  | emptyFederation
  | federationTooLarge (got max : Nat)
  | invalidThreshold (threshold federationSize : Nat)
  | signerBitmapOversized (highestBit federationSize : Nat)
  | belowThreshold (signers threshold : Nat)
  | invalidAggregateSig
  | nonceReused (nonce : UInt64)
  deriving DecidableEq

/-! ## Federations and receipts -/

/-- `FederationSet`, with what `FederationSet::new` checked. -/
@[ext] structure FederationSet where
  pubkeys : List BlsPubKey
  threshold : Nat
  nonempty : pubkeys ≠ []
  size_le : pubkeys.length ≤ MAX_FEDERATION_SIZE
  threshold_pos : threshold ≠ 0
  threshold_le : threshold ≤ pubkeys.length
  deriving DecidableEq

namespace FederationSet

def new (pubkeys : List BlsPubKey) (threshold : Nat) : Except BridgeError FederationSet :=
  if hne : pubkeys = [] then .error .emptyFederation
  else if hsize : MAX_FEDERATION_SIZE < pubkeys.length then
    .error (.federationTooLarge pubkeys.length MAX_FEDERATION_SIZE)
  else if hthreshold : threshold = 0 ∨ pubkeys.length < threshold then
    .error (.invalidThreshold threshold pubkeys.length)
  else .ok
    { pubkeys, threshold
      nonempty := hne
      size_le := Nat.not_lt.mp hsize
      threshold_pos := fun h => hthreshold (Or.inl h)
      threshold_le := Nat.not_lt.mp fun h => hthreshold (Or.inr h) }

variable (f : FederationSet)

abbrev size : Nat := f.pubkeys.length

def idPreimage : Bytes := toBe 8 f.threshold ++ f.pubkeys.flatMap List.Vector.toList

def id (c : Crypto) : H256 := c.keccak256 f.idPreimage

end FederationSet

open FederationSet

@[ext] structure LockReceipt where
  srcChainId : UInt64
  asset : H256
  amount : U256
  recipient : Address
  nonce : UInt64
  deriving DecidableEq

namespace LockReceipt

def preimage (r : LockReceipt) (federationId : H256) : Bytes :=
  federationId.toList ++ (u64Be r.srcChainId ++ (r.asset.toList ++ (toBe 32 r.amount.toNat ++
    (r.recipient.toList ++ u64Be r.nonce))))

def digest (c : Crypto) (r : LockReceipt) (federationId : H256) : H256 :=
  c.keccak256 (r.preimage federationId)

end LockReceipt

/-- A federation-signed authorisation to release one lock. -/
structure AttestationBundle where
  receipt : LockReceipt
  aggregatedSig : BlsSignature
  signerBitmap : BitVec 64
  deriving DecidableEq

def countOnes (bitmap : BitVec 64) : Nat := (List.range 64).countP bitmap.getLsbD

def FederationSet.signerKeys (f : FederationSet) (bitmap : BitVec 64) : List BlsPubKey :=
  ((List.finRange f.size).filter fun i : Fin f.size => bitmap.getLsbD i).map f.pubkeys.get

structure Released where
  receipt : LockReceipt
  deriving DecidableEq

structure Vault where
  federation : FederationSet
  usedNonces : Finset UInt64
  deriving DecidableEq

open Vault

namespace Vault

def new (federation : FederationSet) : Vault := ⟨federation, ∅⟩

/-- `release`: the vault afterwards, and what it answers. -/
def release (c : Crypto) (v : Vault) (bundle : AttestationBundle) :
    Vault × Except BridgeError Released :=
  let n := v.federation.size
  let highestBit := bundle.signerBitmap.toNat.log2
  let signers := countOnes bundle.signerBitmap
  if bundle.signerBitmap ≠ 0 ∧ n ≤ highestBit then
    (v, .error (.signerBitmapOversized highestBit n))
  else if signers < v.federation.threshold then
    (v, .error (.belowThreshold signers v.federation.threshold))
  else if bundle.receipt.nonce ∈ v.usedNonces then
    (v, .error (.nonceReused bundle.receipt.nonce))
  else
    let digest := bundle.receipt.digest c (v.federation.id c)
    let signerPks := v.federation.signerKeys bundle.signerBitmap
    if c.fastAggregateVerify bundle.aggregatedSig digest.toList signerPks then
      ({ v with usedNonces := insert bundle.receipt.nonce v.usedNonces }, .ok ⟨bundle.receipt⟩)
    else (v, .error .invalidAggregateSig)

def run (c : Crypto) (v : Vault) :
    List AttestationBundle → Vault × List (Except BridgeError Released)
  | [] => (v, [])
  | bundle :: bundles =>
    let out := v.release c bundle
    let rest := run c out.1 bundles
    (rest.1, out.2 :: rest.2)

end Vault

section Release

variable {c : Crypto} {v : Vault} {bundle : AttestationBundle}

def Vault.Accepts (c : Crypto) (v : Vault) (bundle : AttestationBundle) : Prop :=
  (v.release c bundle).2 = .ok ⟨bundle.receipt⟩
deriving Decidable

def Vault.Verifies (c : Crypto) (v : Vault) (bundle : AttestationBundle) : Prop :=
  c.fastAggregateVerify bundle.aggregatedSig
    (bundle.receipt.digest c (v.federation.id c)).toList
    (v.federation.signerKeys bundle.signerBitmap) = true

lemma Vault.accepts_iff : v.Accepts c bundle ↔
      (bundle.signerBitmap = 0 ∨ bundle.signerBitmap.toNat.log2 < v.federation.size) ∧
        v.federation.threshold ≤ countOnes bundle.signerBitmap ∧
        bundle.receipt.nonce ∉ v.usedNonces ∧ v.Verifies c bundle := by
  unfold Accepts Verifies release
  dsimp only
  split_ifs with hb hs hnc hvy
  · refine iff_of_false (by simp) ?_
    rintro ⟨hzr | hlt, -⟩
    · exact hb.1 hzr
    · exact absurd hb.2 (Nat.not_le.mpr hlt)
  · grind
  · grind
  · refine iff_of_true rfl ⟨?_, Nat.not_lt.mp hs, hnc, hvy⟩
    by_cases hzr : bundle.signerBitmap = 0
    · exact .inl hzr
    · exact .inr (Nat.not_le.mp fun hle => hb ⟨hzr, hle⟩)
  · grind

lemma Vault.release_cases (c : Crypto) (v : Vault) (bundle : AttestationBundle) :
    (v.Accepts c bundle ∧ (v.release c bundle).1 =
          { v with usedNonces := insert bundle.receipt.nonce v.usedNonces }) ∨
      ∃ e, v.release c bundle = (v, .error e) := by
  unfold Accepts release
  dsimp only
  split_ifs
  · exact .inr ⟨_, rfl⟩
  · exact .inr ⟨_, rfl⟩
  · exact .inr ⟨_, rfl⟩
  · exact .inl ⟨rfl, rfl⟩
  · exact .inr ⟨_, rfl⟩

end Release

/-! ## Positions and signers -/

section Signers

variable {f : FederationSet} {bitmap : BitVec 64}

lemma le_log2_of_getLsbD {i : Nat} (h : bitmap.getLsbD i = true) : i ≤ bitmap.toNat.log2 := by
  have hp := Nat.ge_two_pow_of_testBit h
  have hne : bitmap.toNat ≠ 0 := fun hzr => by
    have hps := Nat.two_pow_pos i
    omega
  exact (Nat.le_log2 hne).mpr hp

lemma FederationSet.signerKeys_length (hin : bitmap = 0 ∨ bitmap.toNat.log2 < f.size) :
    (f.signerKeys bitmap).length = countOnes bitmap := by
  have hs : (f.signerKeys bitmap).length = (range f.size).countP bitmap.getLsbD := by
    rw [signerKeys, length_map, ← countP_eq_length_filter, ← map_coe_finRange_eq_range, countP_map]
    rfl
  have hb : ∀ i, f.size ≤ i → bitmap.getLsbD i = false := by
    intro i hi
    rcases hin with rfl | hlt
    · exact getLsbD_zero
    · by_contra hst
      have hle := le_log2_of_getLsbD (Bool.not_eq_false _ ▸ hst)
      omega
  have hsi : range 64 = range f.size ++ (range (64 - f.size)).map (f.size + ·) := by
    have hsz : f.size ≤ 64 := f.size_le
    rw [← range_add, Nat.add_sub_cancel' hsz]
  have hrs : ((range (64 - f.size)).map (f.size + ·)).countP bitmap.getLsbD = 0 := by
    rw [countP_eq_zero]
    intro i hi
    obtain ⟨k, -, rfl⟩ := mem_map.mp hi
    simp [hb (f.size + k) (Nat.le_add_right _ _)]
  rw [hs, countOnes, hsi, countP_append, hrs, Nat.add_zero]

lemma FederationSet.signerKeys_nodup (h : f.pubkeys.Nodup) : (f.signerKeys bitmap).Nodup :=
  ((nodup_finRange _).filter _).map (nodup_iff_injective_get.mp h)

lemma exists_bitmap (S : Finset Nat) (hS : ∀ i ∈ S, i < 64) :
    ∃ bitmap : BitVec 64, ∀ i, bitmap.getLsbD i = true ↔ i ∈ S := by
  induction S using Finset.induction_on with
  | empty => exact ⟨0, by simp⟩
  | insert k S _ ih =>
    obtain ⟨bitmap, hbi⟩ := ih fun i hi => hS i (Finset.mem_insert_of_mem hi)
    have hlt := hS k (Finset.mem_insert_self k S)
    refine ⟨bitmap ||| twoPow 64 k, fun i => ?_⟩
    rw [getLsbD_or, Bool.or_eq_true, hbi, getLsbD_twoPow, Finset.mem_insert]
    simp [hlt, decide_true, Bool.true_and]
    constructor
    · rintro (h | h)
      · exact .inr h
      · exact .inl h.symm
    · rintro (h | h)
      · exact .inr h.symm
      · exact .inl h

end Signers

/-- `signed pk m`: the holder of `pk` signed `m`. Aggregate verification
succeeds only if every listed key signed. -/
def AggregateSound (c : Crypto) (signed : BlsPubKey → Bytes → Prop) : Prop :=
  ∀ sig msg pks, c.fastAggregateVerify sig msg pks = true → ∀ pk ∈ pks, signed pk msg

/-- At least `threshold` distinct keys signed the digest of the receipt. -/
def EnoughSigners (c : Crypto) (signed : BlsPubKey → Bytes → Prop) (f : FederationSet)
    (receipt : LockReceipt) : Prop :=
  ∃ keys : Finset BlsPubKey, f.threshold ≤ keys.card ∧
    ∀ pk ∈ keys, signed pk (receipt.digest c (f.id c)).toList

section Threshold

variable {c : Crypto} {signed : BlsPubKey → Bytes → Prop} {f : FederationSet} {v : Vault}
  {bundle : AttestationBundle}

lemma Vault.Accepts.allSigned (hs : AggregateSound c signed) (h : v.Accepts c bundle) :
    ∀ pk ∈ v.federation.signerKeys bundle.signerBitmap,
      signed pk (bundle.receipt.digest c (v.federation.id c)).toList :=
  hs _ _ _ (accepts_iff.mp h).2.2.2

lemma Vault.Accepts.threshold_le (h : v.Accepts c bundle) :
    v.federation.threshold ≤ (v.federation.signerKeys bundle.signerBitmap).length := by
  obtain ⟨hin, ht, -⟩ := accepts_iff.mp h
  rwa [signerKeys_length hin]

lemma enoughSigners_of_distinct (hs : AggregateSound c signed) (h : v.Accepts c bundle)
    (hks : v.federation.threshold = 1 ∨ v.federation.pubkeys.Nodup) :
    EnoughSigners c signed v.federation bundle.receipt := by
  have hsg := h.allSigned hs
  have hcu := h.threshold_le
  refine ⟨(v.federation.signerKeys bundle.signerBitmap).toFinset, ?_, fun pk hpk =>
    hsg pk (mem_toFinset.mp hpk)⟩
  rcases hks with ho | hnp
  · rw [ho] at hcu ⊢
    refine Finset.card_pos.mpr ?_
    obtain ⟨pk, hpk⟩ := exists_mem_of_length_pos hcu
    exact ⟨pk, mem_toFinset.mpr hpk⟩
  · rwa [toFinset_card_of_nodup (signerKeys_nodup hnp)]

lemma FederationSet.mem_signerKeys {bitmap : BitVec 64} {pk : BlsPubKey} :
    pk ∈ f.signerKeys bitmap ↔
      ∃ i : Fin f.size, bitmap.getLsbD i = true ∧ f.pubkeys.get i = pk := by
  simp [signerKeys]

lemma FederationSet.exists_selection (f : FederationSet) (S : Finset (Fin f.size)) :
    ∃ bitmap : BitVec 64, (bitmap = 0 ∨ bitmap.toNat.log2 < f.size) ∧
      (f.signerKeys bitmap).length = S.card ∧
      (f.signerKeys bitmap).toFinset = S.image f.pubkeys.get := by
  have hsz := f.size_le
  obtain ⟨bitmap, hbi⟩ := exists_bitmap (S.map Fin.valEmbedding) fun i hi => by
    obtain ⟨k, -, rfl⟩ := Finset.mem_map.mp hi
    exact k.isLt.trans_le hsz
  have hb : ∀ i : Fin f.size, bitmap.getLsbD i = true ↔ i ∈ S := fun i => by
    rw [hbi]
    exact Finset.mem_map' Fin.valEmbedding
  refine ⟨bitmap, ?_, ?_, ?_⟩
  · by_cases hzr : bitmap = 0
    · exact .inl hzr
    · have hne : bitmap.toNat ≠ 0 := fun h0 => hzr (eq_of_toNat_eq h0)
      obtain ⟨k, -, hk⟩ := Finset.mem_map.mp ((hbi _).mp (Nat.testBit_log2 hne))
      exact .inr (hk ▸ k.isLt)
  · have hf : ((finRange f.size).filter fun i : Fin f.size => bitmap.getLsbD i).toFinset
        = S := by
      ext i
      simp [hb]
    rw [signerKeys, length_map, ← hf, toFinset_card_of_nodup ((nodup_finRange _).filter _)]
  · ext pk
    rw [mem_toFinset, mem_signerKeys, Finset.mem_image]
    simp [hb]

/-- Verification accepts exactly the keys of `K`. -/
def signersOnly (K : List BlsPubKey) : Crypto :=
  { Crypto.reference with blsFastAggregateVerify := fun _ _ pks => pks.all (· ∈ K) }

lemma signersOnly_sound (K : List BlsPubKey) :
    AggregateSound (signersOnly K) fun pk _ => pk ∈ K := by
  intro _ _ _ hvy pk hpk
  obtain ⟨-, ha⟩ := Bool.and_eq_true_iff.mp hvy
  exact of_decide_eq_true (all_eq_true.mp ha pk hpk)

lemma exists_release_below (ho : f.threshold ≠ 1) (hd : ¬ f.pubkeys.Nodup) :
    ∃ K bundle, (new f).Accepts (signersOnly K) bundle ∧ K.toFinset.card < f.threshold := by
  rw [nodup_iff_injective_get, Function.not_injective_iff] at hd
  obtain ⟨i, j, hsm, hne⟩ := hd
  have ht : ({i, j} : Finset (Fin f.size)).card ≤ f.threshold := by
    rw [Finset.card_pair hne]
    have hps := f.threshold_pos
    omega
  obtain ⟨S, hp, -, hc⟩ := Finset.exists_subsuperset_card_eq (Finset.subset_univ {i, j}) ht
    (by simpa using f.threshold_le)
  obtain ⟨bitmap, hin, hlh, hks⟩ := f.exists_selection S
  refine ⟨f.signerKeys bitmap, ⟨⟨0, Arr.zero 32, 0, Arr.zero 20, 0⟩, Arr.zero 96, bitmap⟩, ?_, ?_⟩
  · refine accepts_iff.mpr ⟨hin, ?_, Finset.notMem_empty _, ?_⟩
    · show f.threshold ≤ countOnes bitmap
      rw [← signerKeys_length hin, hlh, hc]
    · have hso : f.signerKeys bitmap ≠ [] := by
        rw [← length_pos_iff, hlh, hc]
        exact Nat.pos_of_ne_zero f.threshold_pos
      show (!(f.signerKeys bitmap).isEmpty && (f.signerKeys bitmap).all _) = true
      simp [hso]
  · rw [hks, ← hc]
    refine lt_of_le_of_ne Finset.card_image_le fun heq => hne ?_
    exact Finset.card_image_iff.mp heq (hp (by simp)) (hp (by simp)) hsm

end Threshold

lemma FederationSet.new_eq {pubkeys : List BlsPubKey} {threshold : Nat} {f : FederationSet}
    (h : new pubkeys threshold = .ok f) :
    f.pubkeys = pubkeys ∧ f.threshold = threshold := by
  unfold new at h
  split_ifs at h
  cases h
  exact ⟨rfl, rfl⟩

/-- **Federation threshold**: `threshold` distinct keys exactly if one is
enough or none is listed twice. -/
theorem federation_threshold_iff (pubkeys : List BlsPubKey) (threshold : Nat) (f : FederationSet)
    (hnew : FederationSet.new pubkeys threshold = .ok f) :
    (∀ c signed, AggregateSound c signed → ∀ (v : Vault) (bundle : AttestationBundle),
        v.federation = f → v.Accepts c bundle → EnoughSigners c signed f bundle.receipt) ↔
      threshold = 1 ∨ pubkeys.Nodup := by
  obtain ⟨rfl, rfl⟩ := new_eq hnew
  constructor
  · intro he
    by_contra hn
    obtain ⟨ho, hd⟩ := not_or.mp hn
    obtain ⟨K, bundle, hae, hf⟩ := exists_release_below ho hd
    obtain ⟨_, hc, hsg⟩ := he _ _ (signersOnly_sound K) (.new f) bundle rfl hae
    have hle := Finset.card_le_card fun pk hpk => mem_toFinset.mpr (hsg pk hpk)
    omega
  · rintro hks c _ hs v _ rfl hae
    exact enoughSigners_of_distinct hs hae hks

def twoMembers (k l : BlsPubKey) : FederationSet :=
  ⟨[k, l], 2, by simp, by simp [MAX_FEDERATION_SIZE], by decide, by simp⟩

def bothSigned (nonce : UInt64) (sig : BlsSignature) : AttestationBundle :=
  ⟨⟨1, Arr.zero 32, 1000, Arr.zero 20, nonce⟩, sig, 3⟩

theorem twoMembers_enough : EnoughSigners (signersOnly [arrOfNat 48 1, arrOfNat 48 2])
      (fun pk _ => pk ∈ [arrOfNat 48 1, arrOfNat 48 2]) (twoMembers (arrOfNat 48 1) (arrOfNat 48 2))
      (bothSigned 7 (Arr.zero 96)).receipt :=
  (federation_threshold_iff [arrOfNat 48 1, arrOfNat 48 2] 2
      (twoMembers (arrOfNat 48 1) (arrOfNat 48 2)) (by decide)).mpr (Or.inr (by decide))
    _ _ (signersOnly_sound _) (.new (twoMembers (arrOfNat 48 1) (arrOfNat 48 2)))
    (bothSigned 7 (Arr.zero 96)) rfl (by decide +kernel)

/-- One signer, listed twice, meets a threshold of two. -/
theorem one_signer_meets_two : FederationSet.new [arrOfNat 48 1, arrOfNat 48 1] 2 =
        .ok (twoMembers (arrOfNat 48 1) (arrOfNat 48 1)) ∧
      AggregateSound (signersOnly [arrOfNat 48 1]) (fun pk _ => pk ∈ [arrOfNat 48 1]) ∧
      (Vault.new (twoMembers (arrOfNat 48 1) (arrOfNat 48 1))).Accepts
        (signersOnly [arrOfNat 48 1]) (bothSigned 7 (Arr.zero 96)) ∧
      ¬ EnoughSigners (signersOnly [arrOfNat 48 1]) (fun pk _ => pk ∈ [arrOfNat 48 1])
        (twoMembers (arrOfNat 48 1) (arrOfNat 48 1)) (bothSigned 7 (Arr.zero 96)).receipt := by
  refine ⟨by decide, signersOnly_sound _, by decide +kernel, ?_⟩
  rintro ⟨keys, hc, hsg⟩
  have hle := Finset.card_le_card fun pk hpk =>
      Finset.mem_singleton.mpr (mem_singleton.mp (hsg pk hpk))
  rw [Finset.card_singleton] at hle
  exact absurd (hc.trans hle) (by decide)

section Runs

variable {c : Crypto} {v : Vault} {bundles : List AttestationBundle}

def releasedNonces (answers : List (Except BridgeError Released)) : List UInt64 :=
  (answers.filterMap Except.toOption).map fun r => r.receipt.nonce

variable (c : Crypto) (v : Vault) (bundles : List AttestationBundle)

lemma Vault.run_federation : (v.run c bundles).1.federation = v.federation := by
  induction bundles generalizing v with
  | nil => rfl
  | cons bundle _ ih =>
    rw [run]
    rw [ih]
    rcases v.release_cases c bundle with ⟨-, haf⟩ | ⟨e, he⟩
    · rw [haf]
    · rw [he]

lemma Vault.run_nonces : (releasedNonces (v.run c bundles).2).Nodup ∧
      ∀ n ∈ releasedNonces (v.run c bundles).2, n ∉ v.usedNonces := by
  induction bundles generalizing v with
  | nil => simp [run, releasedNonces]
  | cons bundle bundles ih =>
    rcases v.release_cases c bundle with ⟨hae, haf⟩ | ⟨e, he⟩
    · obtain ⟨hnp, hnw⟩ := ih (v.release c bundle).1
      have hhd : releasedNonces (v.run c (bundle :: bundles)).2 =
          bundle.receipt.nonce :: releasedNonces ((v.release c bundle).1.run c bundles).2 := by
        rw [run]
        rw [show (v.release c bundle).2 = _ from hae]
        rfl
      rw [hhd]
      rw [haf] at hnw
      refine ⟨nodup_cons.mpr ⟨fun hm => ?_, hnp⟩, fun n hn => ?_⟩
      · rw [haf] at hm
        exact hnw _ hm (Finset.mem_insert_self _ _)
      · rcases mem_cons.mp hn with rfl | hn
        · exact (accepts_iff.mp hae).2.2.1
        · rw [haf] at hn
          exact fun hu => hnw n hn (Finset.mem_insert_of_mem hu)
    · have hhd : releasedNonces (v.run c (bundle :: bundles)).2 =
          releasedNonces (v.run c bundles).2 := by
        rw [run, he]
        rfl
      rw [hhd]
      exact ih v

end Runs

/-! ## What a digest stands for -/

section Digest

variable {c : Crypto} {r r' : LockReceipt} {f f' : FederationSet}

lemma LockReceipt.preimage_inj {h h' : H256} (heq : r.preimage h = r'.preimage h') :
    h = h' ∧ r = r' := by
  obtain ⟨hid, heq⟩ := append_field_inj (by simp) heq
  obtain ⟨hcn, heq⟩ := append_field_inj (by simp) heq
  obtain ⟨ha, heq⟩ := append_field_inj (by simp) heq
  obtain ⟨ham, heq⟩ := append_field_inj (by simp) heq
  obtain ⟨hr, hnc⟩ := append_field_inj (by simp) heq
  have hw : ∀ x : U256, x.toNat < 256 ^ 32 := fun x => x.isLt
  refine ⟨toList_inj.mp hid, LockReceipt.ext (u64Be_inj hcn) (toList_inj.mp ha) ?_
    (toList_inj.mp hr) (u64Be_inj hnc)⟩
  exact eq_of_toNat_eq (toBe_inj (hw _) (hw _) ham)

lemma FederationSet.idPreimage_inj (h : f.idPreimage = f'.idPreimage) : f = f' := by
  obtain ⟨ht, hks⟩ := append_field_inj (by simp) h
  have hs : ∀ g : FederationSet, g.threshold < 256 ^ 8 := fun g =>
    (g.threshold_le.trans g.size_le).trans_lt (by decide)
  exact FederationSet.ext (flatMap_toList_inj (by decide) hks)
    (toBe_inj (hs f) (hs f') ht)

def hashedFor (c : Crypto) (f f' : FederationSet) (r r' : LockReceipt) : Set Bytes :=
  {f.idPreimage, f'.idPreimage, r.preimage (f.id c), r'.preimage (f'.id c)}

lemma digest_inj (hfe : Set.InjOn c.keccak256 (hashedFor c f f' r r'))
    (h : r.digest c (f.id c) = r'.digest c (f'.id c)) : f = f' ∧ r = r' := by
  have hp := hfe (by simp [hashedFor]) (by simp [hashedFor]) h
  obtain ⟨hid, hr⟩ := LockReceipt.preimage_inj hp
  have hi := hfe (by simp [hashedFor]) (by simp [hashedFor]) hid
  exact ⟨idPreimage_inj hi, hr⟩

def OneDigest (c : Crypto) : Prop :=
  ∀ (sig : BlsSignature) (d d' : H256) pks pks', c.fastAggregateVerify sig d.toList pks = true →
    c.fastAggregateVerify sig d'.toList pks' = true → d = d'

end Digest

lemma oneDigest_reference : OneDigest .reference := by
  have hdg : ∀ (sig : BlsSignature) (d : H256) pks,
      Crypto.reference.fastAggregateVerify sig d.toList pks = true →
      referenceSigMsg sig = 2 ^ 383 + ofBe d.toList := by
    intro _ d _ hvy
    obtain ⟨-, heq⟩ := Bool.and_eq_true_iff.mp hvy
    have hlt : ofBe d.toList < 2 ^ 383 := by
      have hd := ofBe_lt d.toList
      rw [length_toList] at hd
      exact hd.trans_le (by decide)
    rw [beq_iff_eq.mp heq, referenceSigMsg_sig, flagged, Nat.mod_eq_of_lt hlt]
  intro sig d d' pks pks' hvy hvy'
  have heq := Nat.add_left_cancel ((hdg sig d pks hvy).symm.trans (hdg sig d' pks' hvy'))
  refine toList_inj.mp ?_
  rw [← toBe_ofBe d.toList, ← toBe_ofBe d'.toList, heq, length_toList, length_toList]

def signedByBoth (f : FederationSet) (nonce : UInt64) : AttestationBundle :=
  bothSigned nonce (referenceSig 3
    ((bothSigned nonce (Arr.zero 96)).receipt.digest .reference (f.id .reference)).toList)

end Aii.Cross
