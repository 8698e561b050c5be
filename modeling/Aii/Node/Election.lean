/-
Aii.Node.Election — what an epoch boundary elects, and what the engine and
the subsidy make of it (`maybe_elect_validator_set` and its readers in
`aii-node/src/lib.rs`).

`electionStore` is the store the election of a boundary block reads.
-/
import Aii.Node.ConsensusKeys
import Aii.Node.MetaKeys

namespace Aii.Node

open Common Chain List Dpos Backend ValidatorRegistry UInt64

/-! ## Elections -/

/-- A block at which a set is elected. -/
def IsBoundary (spec : ChainSpec) (number : UInt64) : Prop :=
  number ≠ 0 ∧ spec.epochLengthBlocks ≠ 0 ∧ number % spec.epochLengthBlocks = 0
deriving Decidable

def epochOf (spec : ChainSpec) (number : UInt64) : UInt64 := number / spec.epochLengthBlocks

section Elections

variable (c : Crypto) (revm : Revm) (spec : ChainSpec)

def electionStore (b : Backend) (block : Block) : Backend :=
  scanMicrochainAnchors c spec (executeBlockTxs c revm spec (persistBlock c b block) block) block

def registeredElection (b : Backend) (block : Block) : List ValidatorEntry :=
  electRegisteredActiveSet (electionStore c revm spec b block)
    (u256OfU128 spec.minValidatorStakeWei) spec.validatorsPerEpoch

/-- What is elected at a block: without registered stakers, any stakers. -/
def election (b : Backend) (block : Block) : List ValidatorEntry :=
  if (registeredElection c revm spec b block).isEmpty then
    electActiveSet (electionStore c revm spec b block) (u256OfU128 spec.minValidatorStakeWei)
      spec.validatorsPerEpoch
  else registeredElection c revm spec b block

end Elections

section Lemmas

variable {c : Crypto} {revm : Revm} {spec : ChainSpec} {b : Backend} {block : Block}

lemma applyBlock_of_boundary (h : IsBoundary spec block.header.number) :
    applyBlock c revm spec b block = persistValidatorSet (electionStore c revm spec b block)
        (epochOf spec block.header.number) (election c revm spec b block) := by
  obtain ⟨hnm, hl, hm⟩ := h
  change maybeElectValidatorSet spec (electionStore c revm spec b block) _ = _
  exact if_neg (by simp [hnm, hl, hm])

lemma election_of_registered (h : registeredElection c revm spec b block ≠ []) :
    election c revm spec b block = registeredElection c revm spec b block :=
  if_neg (by simpa using h)

lemma mem_registeredElection {v : ValidatorEntry}
    (hv : v ∈ registeredElection c revm spec b block) :
    ∃ keys, get (electionStore c revm spec b block) v.address = some keys ∧
      v.blsPubkey = some keys.blsPubkey ∧ v.vrfPubkey = some keys.vrfPubkey := by
  obtain ⟨r, -, hr⟩ := mem_filterMap.mp (mem_of_mem_take hv)
  obtain ⟨keys, hks, rfl⟩ := Option.map_eq_some_iff.mp hr
  exact ⟨keys, hks, rfl, rfl⟩

lemma registeredElection_hasKeys (b : Backend) (block : Block) :
    hasKeys (registeredElection c revm spec b block) = true := by
  rw [hasKeys_iff]
  intro v hv
  obtain ⟨keys, -, hb, hvr⟩ := mem_registeredElection hv
  exact ⟨keys.blsPubkey, keys.vrfPubkey, hb, hvr⟩

abbrev EpochRecord (cf : ColumnFamily) (k : Bytes) : Prop := cf = .metaCf ∧ Dpos.KEY_PREFIX <+: k

lemma electionStore_agree (c : Crypto) (revm : Revm) (spec : ChainSpec) (b : Backend)
    (block : Block) : Backend.AgreeOn EpochRecord (electionStore c revm spec b block) b := by
  rintro cf k ⟨rfl, hk⟩
  rw [electionStore, Backend.get, scanMicrochainAnchors_frame (by decide), ← Backend.get,
    executeBlockTxs_meta (prefix_excludes hk (by decide)),
    executedState_meta (prefix_excludes hk (by decide)) fun hg => hg.not_epoch hk,
    persistBlock_meta (prefix_excludes hk (by decide))]

end Lemmas

/-! ## Keys on record -/

def KeysDecode (c : Crypto) (b : Backend) : Prop :=
  ∀ addr keys, ValidatorRegistry.get b addr = some keys →
    c.blsPubkeyOk keys.blsPubkey = true ∧ c.vrfPubkeyOk keys.vrfPubkey = true

section Keys

variable {c : Crypto} {revm : Revm} {spec : ChainSpec} {b b' : Backend} {n : NodeState}

lemma keysDecode_of_empty (h : ValidatorRegistry.Empty b) : KeysDecode c b := by
  intro addr _ hg
  rw [ValidatorRegistry.get, h (key addr) (prefix_append _ _)] at hg
  cases hg

section Keys

variable (h : KeysDecode c b)

include h

lemma KeysDecode.of_agree
    (hag : Backend.AgreeOn MetaKind.validatorKey.Key b' b) : KeysDecode c b' := by
  intro addr keys hg
  rw [get_congr fun k hk => hag .metaCf k ⟨rfl, hk⟩] at hg
  exact h addr keys hg

lemma KeysDecode.of_cf_eq (hcf : b'.cf .metaCf = b.cf .metaCf) : KeysDecode c b' := by
  refine h.of_agree ?_
  rintro cf k ⟨rfl, -⟩
  rw [Backend.get, hcf, Backend.get]

lemma KeysDecode.exec (op : MetaOp) (hop : .validatorKey ∉ op.writes) :
    KeysDecode c (op.exec c b) :=
  h.of_agree (op.exec_agree c b hop)

lemma KeysDecode.afterDispatch (call : PrecompileCall) :
    KeysDecode c (afterDispatch c b call) := by
  unfold Node.afterDispatch
  cases hd : dispatch c b call with
  | error => exact h
  | ok r =>
    obtain ⟨b', _⟩ := r
    rcases dispatch_registry hd with hfr | ⟨keys, -, hok, rfl⟩
    · intro addr keys hg
      rw [get_congr hfr] at hg
      exact h addr keys hg
    · intro addr found hg
      by_cases har : addr = call.sender
      · subst har
        rw [get_register_self] at hg
        cases hg
        exact hok
      · rw [get_register_ne _ har] at hg
        exact h addr found hg

lemma KeysDecode.afterTx (number : UInt64) (beneficiary : Address)
    (tx : Tx) : KeysDecode c (afterTx c revm spec number beneficiary b tx) := by
  have hr : KeysDecode c (runTx c revm spec number b tx).1 := by
    rcases runTx_metaCf tx with hcf | ⟨call, hcl⟩
    · exact h.of_cf_eq hcf
    · rw [hcl]
      exact h.afterDispatch call
  exact hr.of_cf_eq (settle_frame (by decide) _ _)

lemma KeysDecode.executedState (block : Block) :
    KeysDecode c (executedState c revm spec b block).backend := by
  have hby : ∀ txs : List Tx, KeysDecode c (txs.foldl
      (Node.afterTx c revm spec block.header.number block.header.beneficiary) b) := by
    intro txs
    induction txs generalizing b with
    | nil => exact h
    | cons tx _ ih => exact ih (h.afterTx _ _ tx)
  rw [executedState_backend]
  unfold mintSubsidy
  dsimp only
  split_ifs
  · exact (hby _).of_cf_eq (credit_frame (by decide) _ _ _)
  · exact hby _

lemma KeysDecode.electionStore (block : Block) :
    KeysDecode c (electionStore c revm spec b block) := by
  have hp := h.exec (.persistBlock block) (by simp [MetaOp.writes])
  have he : KeysDecode c
      (Node.executedState c revm spec (persistBlock c b block) block).backend :=
    hp.executedState block
  refine KeysDecode.of_cf_eq ?_ (scanMicrochainAnchors_frame (by decide) _ _)
  refine he.of_agree ?_
  rintro cf k ⟨rfl, hk⟩
  exact executeBlockTxs_meta (prefix_excludes hk (by decide)) _ _

lemma KeysDecode.applyBlock (block : Block) : KeysDecode c (applyBlock c revm spec b block) := by
  have hread : KeysDecode c (Node.electionStore c revm spec b block) := h.electionStore block
  refine hread.of_agree ?_
  rintro cf k ⟨rfl, hk⟩
  exact maybeElectValidatorSet_meta (prefix_excludes hk (by decide)) _ _

end Keys

lemma KeysDecode.commitStep (h : KeysDecode c n.backend) (block : Block) :
    KeysDecode c (commitStep c revm spec n block).backend := by
  have hci : KeysDecode c (commitBlock c revm spec n block).backend := by
    by_cases has : applies c n block = true
    · rw [commitBlock_of_applies has]
      exact h.applyBlock block
    · rcases commitBlock_of_not_applies has with hsm | ⟨canonical, hf⟩
      · rw [hsm]
        exact h
      · rw [hf]
        exact h.exec (.recordFork block.header.number canonical (block.hash c))
          (by simp [MetaOp.writes])
  refine hci.of_agree (setHead_agree ?_ ?_ _ _)
  · rintro ⟨-, hk⟩
    revert hk
    decide
  · rintro ⟨-, hk⟩
    revert hk
    decide

lemma keysDecode_replay (h : KeysDecode c n.backend) (blocks : List Block) :
    KeysDecode c (replay c revm spec n blocks).backend := by
  induction blocks generalizing n with
  | nil => exact h
  | cons block _ ih => exact ih (h.commitStep block)

end Keys

/-! ## Voting weights -/

def votingWeight (v : ValidatorEntry) : Nat :=
  max 1 (v.stakeWei.toNat / BFT_STAKE_WEIGHT_UNIT_WEI)

section Weights

variable {c : Crypto} {v : ValidatorEntry}

lemma bftStakeWeight_eq (v : ValidatorEntry) :
    bftStakeWeightFromWei v.stakeWei = if votingWeight v < 2 ^ 64 then .ok (ofNat (votingWeight v))
      else .error .totalStakeOverflow := by
  have hw : (if v.stakeWei.toNat / BFT_STAKE_WEIGHT_UNIT_WEI = 0 then 1
      else v.stakeWei.toNat / BFT_STAKE_WEIGHT_UNIT_WEI) = votingWeight v := by
    unfold votingWeight
    generalize v.stakeWei.toNat / BFT_STAKE_WEIGHT_UNIT_WEI = units
    split_ifs <;> omega
  unfold bftStakeWeightFromWei
  dsimp only
  rw [hw]

def Usable (c : Crypto) (v : ValidatorEntry) : Prop :=
  ∃ bls vrf, v.blsPubkey = some bls ∧ v.vrfPubkey = some vrf ∧ c.blsPubkeyOk bls = true ∧
    c.vrfPubkeyOk vrf = true

lemma bftValidatorOf_ok_iff (h : Usable c v) (i : Nat) :
    (∃ w, bftValidatorOf c i v = .ok w) ↔ votingWeight v < 2 ^ 64 := by
  obtain ⟨_, _, hb, hv, hbl, hvr⟩ := h
  unfold bftValidatorOf
  simp [hb, hv, hbl, hvr, Bool.not_true, Bool.false_eq_true]
  rw [bftStakeWeight_eq]
  split_ifs with hfi
  · exact iff_of_true ⟨_, rfl⟩ hfi
  · refine iff_of_false ?_ hfi
    rintro ⟨w, ⟨⟩⟩

lemma weight_of_bftValidatorOf {i : Nat} {w : Bft.Validator} (h : bftValidatorOf c i v = .ok w) :
    votingWeight v = w.stake.toNat := by
  unfold bftValidatorOf at h
  split at h
  · cases h
  split at h
  · cases h
  split_ifs at h
  rw [bftStakeWeight_eq] at h
  split_ifs at h with hfi
  · cases h
    exact (toNat_ofNat_of_lt' hfi).symm
  · cases h

lemma bftValidatorSet_ok_iff {entries : List ValidatorEntry} (h : ∀ v ∈ entries, Usable c v) :
    (∃ S, bftValidatorSetFromEntries c entries = .ok S) ↔
      entries ≠ [] ∧ entries.length ≤ Bft.MAX_VALIDATORS ∧
        (entries.map votingWeight).sum < 2 ^ 64 := by
  have hwg : ∀ vs, (entries.zipIdx.mapM fun e => bftValidatorOf c e.2 e.1) = .ok vs →
      entries.map votingWeight = vs.map fun v => v.stake.toNat := by
    intro vs hvs
    have hm := map_eq_of_mapM_ok
      (fun e w hw => weight_of_bftValidatorOf hw) hvs
    have hf := congrArg (map votingWeight) (zipIdx_map_fst 0 entries)
    rw [map_map] at hf
    exact hf.symm.trans hm
  have hlh : ∀ vs : List Bft.Validator,
      entries.map votingWeight = (vs.map fun v => v.stake.toNat) → entries.length = vs.length := by
    intro vs hvs
    simpa using congrArg length hvs
  constructor
  · rintro ⟨S, hS⟩
    unfold bftValidatorSetFromEntries at hS
    cases hvs : entries.zipIdx.mapM fun e => bftValidatorOf c e.2 e.1 with
    | error =>
      rw [hvs] at hS
      cases hS
    | ok vs =>
      rw [hvs] at hS
      obtain ⟨hne, hsz, hlt, -⟩ := Bft.ValidatorSet.new_ok_iff.mp ⟨S, hS⟩
      have hl := hlh vs (hwg vs hvs)
      refine ⟨?_, hl ▸ hsz, (congrArg sum (hwg vs hvs)).trans_lt hlt⟩
      rintro rfl
      exact hne (length_eq_zero_iff.mp hl.symm)
  · rintro ⟨hne, hsz, hlt⟩
    have hfi : ∀ v ∈ entries, votingWeight v < 2 ^ 64 := by
      intro v hv
      exact (single_le_sum (by simp) _ (mem_map_of_mem hv)).trans_lt hlt
    obtain ⟨vs, hvs⟩ := exists_mapM_ok (f := fun e : ValidatorEntry × Nat =>
      bftValidatorOf c e.2 e.1) fun e he =>
        (bftValidatorOf_ok_iff (h e.1 (fst_mem_of_mem_zipIdx he)) e.2).mpr
          (hfi e.1 (fst_mem_of_mem_zipIdx he))
    have hs : Bft.stakeSum vs = (entries.map votingWeight).sum :=
      (congrArg sum (hwg vs hvs)).symm
    have hl := hlh vs (hwg vs hvs)
    have hp : Bft.stakeSum vs ≠ 0 := by
      obtain ⟨v, hv⟩ := exists_mem_of_ne_nil entries hne
      have ho : 1 ≤ votingWeight v := Nat.le_max_left _ _
      have hle := single_le_sum (by simp) _ (mem_map_of_mem (f := votingWeight) hv)
      omega
    obtain ⟨S, hS⟩ := Bft.ValidatorSet.new_ok_iff.mpr
      ⟨fun hn => hne (length_eq_zero_iff.mp (by simpa [hn] using hl)), hl ▸ hsz, hs ▸ hlt, hp⟩
    refine ⟨S, ?_⟩
    rw [bftValidatorSetFromEntries, hvs]
    exact hS

end Weights

section Usable

variable {c : Crypto} {revm : Revm} {spec : ChainSpec} {b : Backend} {block : Block}

lemma usable_of_registered (h : KeysDecode c (electionStore c revm spec b block))
    {v : ValidatorEntry} (hv : v ∈ registeredElection c revm spec b block) : Usable c v := by
  obtain ⟨keys, hks, hb, hvr⟩ := mem_registeredElection hv
  obtain ⟨hbl, hvk⟩ := h _ _ hks
  exact ⟨keys.blsPubkey, keys.vrfPubkey, hb, hvr, hbl, hvk⟩

lemma ChainSpec.validatorsPerEpoch_le {blockTimeSeconds : UInt64}
    (h : spec.validate blockTimeSeconds = .ok ()) :
    spec.validatorsPerEpoch.toNat ≤ Bft.MAX_VALIDATORS := by
  unfold ChainSpec.validate at h
  split_ifs at h with _ _ _ _ _ _ hm
  exact UInt32.le_iff_toNat_le.mp (UInt32.not_lt.mp hm)

lemma readElected (hb : IsBoundary spec block.header.number)
    (hne : registeredElection c revm spec b block ≠ []) :
    readValidatorSet (applyBlock c revm spec b block) (epochOf spec block.header.number) =
      some (registeredElection c revm spec b block) := by
  rw [applyBlock_of_boundary hb, election_of_registered hne]
  exact readValidatorSet_persist _ _ (registeredElection_hasKeys _ _)
    ((elected_length_le _ _).trans_lt spec.validatorsPerEpoch.toNat_lt)

end Usable

/-- **Elected sets** make a BFT set exactly if the voting weights add up in
64 bits. -/
theorem elected_set_usable_iff (c : Crypto) (revm : Revm) (spec : ChainSpec)
    (blockTimeSeconds : UInt64) (hvalid : spec.validate blockTimeSeconds = .ok ())
    (genesis : Backend) (hgenesis : ValidatorRegistry.Empty genesis) (blocks : List Block)
    (block : Block) (hboundary : IsBoundary spec block.header.number) :
    let b := (replay c revm spec (.new genesis) blocks).backend
    let set := registeredElection c revm spec b block
    set ≠ [] → Dpos.readValidatorSet (applyBlock c revm spec b block)
          (epochOf spec block.header.number) = some set ∧
        ((∃ S, bftValidatorSetFromEntries c set = .ok S) ↔
          (set.map votingWeight).sum < 2 ^ 64) := by
  intro b set hne
  have hks : KeysDecode c b := keysDecode_replay (keysDecode_of_empty hgenesis) blocks
  have hu : ∀ v ∈ set, Usable c v := fun v hv =>
    usable_of_registered (hks.electionStore block) hv
  have hsz : set.length ≤ Bft.MAX_VALIDATORS :=
    (elected_length_le _ _).trans (ChainSpec.validatorsPerEpoch_le hvalid)
  refine ⟨readElected hboundary hne, ?_⟩
  rw [bftValidatorSet_ok_iff hu]
  constructor
  · rintro ⟨-, -, hlt⟩
    exact hlt
  · intro hlt
    exact ⟨hne, hsz, hlt⟩

def shortEpochs : ChainSpec := { sampleSpec with epochLengthBlocks := 1 }

def signedCall (k : Nat) (value : U256) (data : Bytes) : Tx :=
  .legacy ⟨0, 0, 100000, some PRECOMPILE_ADDR, value, data, 27, arrOfNat 32 k, arrOfNat 32 2,
    .secp256k1⟩

def joins (k : Nat) (stake : U256) : List Tx :=
  [signedCall k stake OP_BOND,
    signedCall k 0 (OP_REGISTER_VALIDATOR ++ (arrOfNat 48 k).toList ++ (arrOfNat 32 k).toList)]

def electedTwo (stake₁ stake₂ : U256) : List ValidatorEntry :=
  registeredElection .reference .reference shortEpochs
    (replay .reference .reference shortEpochs (.new .empty) []).backend
    (sampleBlock 1 (joins 1 stake₁ ++ joins 2 stake₂))

theorem electedTwo_usable :
    ∃ S, bftValidatorSetFromEntries .reference (electedTwo 200 300) = .ok S :=
  ((elected_set_usable_iff .reference .reference shortEpochs 3 (by decide) .empty
    registryEmpty_empty [] (sampleBlock 1 (joins 1 200 ++ joins 2 300)) (by decide)
    (by decide +kernel)).2).mpr (by decide +kernel)

/-- One staker puts 2^255 Wei on record, and the set of both cannot be
used. -/
theorem oversized_stake_elected : shortEpochs.validate 3 = .ok () ∧ IsBoundary shortEpochs 1 ∧
      (electedTwo 200 (BitVec.ofNat 256 (2 ^ 255))).length = 2 ∧
      bftValidatorSetFromEntries .reference (electedTwo 200 (BitVec.ofNat 256 (2 ^ 255))) =
        .error .totalStakeOverflow := by
  refine ⟨by decide, by decide, by decide +kernel, by decide +kernel⟩

/-! ## Empty elections -/

namespace Dpos

variable {b : Backend} {epoch : UInt64} {e : UInt64}

lemma latestEpoch_of_greatest {m : UInt64} (hm : m ∈ epochs b) (hle : ∀ e ∈ epochs b, e ≤ m) :
    latestEpoch b = some m :=
  foldl_latest hle (by simp) (Or.inl hm)

lemma exists_greatest_epoch (he : e ∈ epochs b) : ∃ m ∈ epochs b, ∀ e' ∈ epochs b, e' ≤ m := by
  obtain ⟨m, hm, hle⟩ := Finset.exists_max_image (epochs b).toFinset toNat
    ⟨e, mem_toFinset.mpr he⟩
  exact ⟨m, mem_toFinset.mp hm, fun e' he' => hle e' (mem_toFinset.mpr he')⟩

lemma readValidatorSet_persist_ne {epoch' : UInt64} (set : List ValidatorEntry)
    (h : epoch' ≠ epoch) :
    readValidatorSet (persistValidatorSet b epoch set) epoch' = readValidatorSet b epoch' := by
  have hk : key epoch' ≠ key epoch := fun heq => h (u64Be_inj (append_cancel_left heq))
  rw [readValidatorSet, persistValidatorSet, get_put_ne fun _ => hk, readValidatorSet]

lemma latestValidatorSet_persist_empty (hle : ∀ e ∈ epochs b, e ≤ epoch) :
    latestValidatorSet (persistValidatorSet b epoch []) = some (epoch, []) := by
  rw [latestValidatorSet, latestEpoch_persist [] hle, Option.map_some,
    readValidatorSet_persist b epoch rfl (by decide)]
  rfl

lemma latestValidatorSet_persist_early (he : e ∈ epochs b) (hlt : epoch < e)
    (set : List ValidatorEntry) :
    latestValidatorSet (persistValidatorSet b epoch set) = latestValidatorSet b := by
  obtain ⟨m, hm, hle⟩ := exists_greatest_epoch he
  have hb := UInt64.lt_of_lt_of_le hlt (hle e he)
  have hle' : ∀ e' ∈ epochs (persistValidatorSet b epoch set), e' ≤ m := by
    intro e' he'
    rcases mem_epochs_persist.mp he' with rfl | he'
    · exact UInt64.le_of_lt hb
    · exact hle e' he'
  rw [latestValidatorSet, latestEpoch_of_greatest (mem_epochs_persist.mpr (.inr hm)) hle',
    latestValidatorSet, latestEpoch_of_greatest hm hle, Option.map_some, Option.map_some,
    readValidatorSet_persist_ne set (UInt64.ne_of_lt hb).symm]

end Dpos

section Empty

variable {c : Crypto} {revm : Revm} {spec : ChainSpec} {b : Backend} {block : Block}

def NobodyClears (spec : ChainSpec) (b : Backend) : Prop :=
  ∀ r ∈ StakeTable.listAll b, r.isBonded = true →
    r.amountWei.toNat < (u256OfU128 spec.minValidatorStakeWei).toNat
deriving Decidable

lemma election_of_nobody (h : NobodyClears spec (electionStore c revm spec b block)) :
    election c revm spec b block = [] := by
  have hnn : candidates (electionStore c revm spec b block)
      (u256OfU128 spec.minValidatorStakeWei) = [] := by
    have hf : ((StakeTable.listAll (electionStore c revm spec b block)).filter fun r =>
        r.isBonded && (u256OfU128 spec.minValidatorStakeWei).toNat ≤ r.amountWei.toNat) = [] := by
      refine filter_eq_nil_iff.mpr fun r hr => ?_
      simp [not_and]
      exact h r hr
    rw [candidates, hf, insertionSort_nil]
  simp [election, registeredElection, electRegisteredActiveSet, electActiveSet, hnn]

/-- **Empty elections** keep the set exactly if it was empty, or a later
epoch is on record. -/
theorem empty_election_keeps_iff (c : Crypto) (revm : Revm) (spec : ChainSpec) (b : Backend)
    (block : Block) (hboundary : IsBoundary spec block.header.number)
    (hnobody : NobodyClears spec (electionStore c revm spec b block)) :
    ((Dpos.latestValidatorSet (applyBlock c revm spec b block)).map Prod.snd =
          (Dpos.latestValidatorSet b).map Prod.snd ∧
        ∀ a, mayReceiveSubsidy (applyBlock c revm spec b block) a = mayReceiveSubsidy b a) ↔
      (∃ e, Dpos.latestValidatorSet b = some (e, [])) ∨
        ∃ e ∈ Dpos.epochs b, epochOf spec block.header.number < e := by
  have hag := electionStore_agree c revm spec b block
  have hep := epochs_congr hag fun k hk => ⟨rfl, hk⟩
  have hlatest := latestValidatorSet_congr hag fun k hk => ⟨rfl, hk⟩
  rw [applyBlock_of_boundary hboundary, election_of_nobody hnobody]
  by_cases hla : ∃ e ∈ epochs b, epochOf spec block.header.number < e
  · -- the record is below the latest one
    obtain ⟨e, he, hlt⟩ := hla
    have hkp := latestValidatorSet_persist_early (hep ▸ he) hlt []
    refine iff_of_true ⟨by rw [hkp, hlatest], fun a => ?_⟩ (.inr ⟨e, he, hlt⟩)
    rw [mayReceiveSubsidy, hkp, hlatest, mayReceiveSubsidy]
  · -- the empty set is the latest one
    have hle : ∀ e ∈ epochs (electionStore c revm spec b block),
        e ≤ epochOf spec block.header.number := by grind
    have hem := latestValidatorSet_persist_empty hle
    constructor
    · simp_all
    · rintro (⟨e, hs⟩ | hla')
      · refine ⟨by rw [hem, hs]; rfl, fun a => ?_⟩
        rw [mayReceiveSubsidy, hem, mayReceiveSubsidy, hs]
      · exact absurd hla' hla

end Empty

def firstBoundary : Backend :=
  applyBlock .reference .reference shortEpochs .empty (sampleBlock 1 [])

theorem second_empty_election :
    mayReceiveSubsidy (applyBlock .reference .reference shortEpochs firstBoundary
      (sampleBlock 2 [])) = mayReceiveSubsidy firstBoundary :=
  funext ((empty_election_keeps_iff .reference .reference shortEpochs firstBoundary
    (sampleBlock 2 []) (by decide) (by decide +kernel)).mpr (Or.inl ⟨1, by decide +kernel⟩)).2

/-- The first one takes the subsidy from everybody. -/
theorem first_empty_election : IsBoundary shortEpochs (sampleBlock 1 []).header.number ∧
      StakeTable.listAll (electionStore .reference .reference shortEpochs .empty
        (sampleBlock 1 [])) = [] ∧ Dpos.latestValidatorSet .empty = none ∧
      Dpos.latestValidatorSet firstBoundary = some (1, []) ∧
      mayReceiveSubsidy .empty sampleSender = true ∧
      mayReceiveSubsidy firstBoundary sampleSender = false := by
  decide +kernel

end Aii.Node
