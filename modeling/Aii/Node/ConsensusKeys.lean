/-
Aii.Node.ConsensusKeys — whose consensus keys are in an elected set
(`aii-node/src/{precompile,validator_registry,dpos}.rs` and the index
lookup of `aii-node/src/lib.rs`).

Nobody asks whether another staker has the same BLS key, and a node takes
the first entry with its own.
-/
import Aii.Common.Runs
import Aii.Node.Precompile

namespace Aii.Node

open Common List Backend Option ValidatorRegistry

namespace ValidatorRegistry

lemma decodeValue_encodeValue (keys : ValidatorKeys) :
    decodeValue (encodeValue keys) = some keys := by
  have hl : (encodeValue keys).length = 80 := by simp [encodeValue]
  rw [decodeValue, if_neg (not_not.mpr hl), encodeValue, take_left' (length_toList _),
    drop_left' (length_toList _), arr?_toList, arr?_toList]
  rfl

lemma key_inj {a a' : Address} (h : key a = key a') : a = a' :=
  toList_inj.mp (append_cancel_left h)

variable {b b' : Backend} {addr : Address} {keys : ValidatorKeys}

lemma get_register_self (addr : Address) (keys : ValidatorKeys) :
    get (register b addr keys) addr = some keys := by
  rw [get, register, get_put_self, bind_some, decodeValue_encodeValue]

lemma get_register_ne {addr' : Address} (keys : ValidatorKeys) (h : addr' ≠ addr) :
    get (register b addr keys) addr' = get b addr' := by
  rw [get, register, get_put_ne fun _ heq => h (key_inj heq), get]

lemma get_congr (h : ∀ k, KEY_PREFIX <+: k → b'.get .metaCf k = b.get .metaCf k)
    (addr : Address) : get b' addr = get b addr := by
  have hk : b'.get .metaCf (key addr) = b.get .metaCf (key addr) := h _ (prefix_append _ _)
  rw [get, hk, get]

/-- Nobody has registered. -/
def Empty (b : Backend) : Prop := ∀ k, KEY_PREFIX <+: k → b.get .metaCf k = none

/-- No two stakers have one BLS key on record. -/
def Distinct (b : Backend) : Prop :=
  ∀ a a' keys keys', get b a = some keys → get b a' = some keys' →
    keys.blsPubkey = keys'.blsPubkey → a = a'

/-- Nobody but `addr` has the key on record. -/
def freeFor (b : Backend) (addr : Address) (bls : BlsPubKey) : Bool :=
  (b.iterPrefix .metaCf KEY_PREFIX).all fun e =>
    e.1 == key addr || (decodeValue e.2).all fun keys => keys.blsPubkey != bls

lemma eq_of_freeFor {other : Address} {bls : BlsPubKey} (h : freeFor b addr bls = true)
    (hoh : get b other = some keys) (hb : keys.blsPubkey = bls) : other = addr := by
  obtain ⟨v, hg, hread⟩ := bind_eq_some_iff.mp hoh
  have hen := all_eq_true.mp h (key other, v)
    (mem_iterPrefix.mpr ⟨hg, prefix_append _ _⟩)
  simp only [hread, hb, all_some, bne_self_eq_false, Bool.or_false, beq_iff_eq] at hen
  exact key_inj hen

lemma Distinct.register (h : Distinct b) (hfe : freeFor b addr keys.blsPubkey = true) :
    Distinct (register b addr keys) := by
  intro a a' ka ka' ha ha' heq
  by_cases har : a = addr
  · by_cases har' : a' = addr
    · rw [har, har']
    · subst har
      rw [get_register_self] at ha
      cases ha
      rw [get_register_ne _ har'] at ha'
      exact (eq_of_freeFor hfe ha' heq.symm).symm
  · rw [get_register_ne _ har] at ha
    by_cases har' : a' = addr
    · subst har'
      rw [get_register_self] at ha'
      cases ha'
      exact eq_of_freeFor hfe ha heq
    · rw [get_register_ne _ har'] at ha'
      exact h a a' ka ka' ha ha' heq

end ValidatorRegistry

def PrecompileCall.registeredKey (call : PrecompileCall) : Option BlsPubKey :=
  if call.data.take 4 = OP_REGISTER_VALIDATOR then arr? 48 ((call.data.drop 4).take 48) else none

def PrecompileCall.keyFree (b : Backend) (call : PrecompileCall) : Bool :=
  call.registeredKey.all fun bls => ValidatorRegistry.freeFor b call.sender bls

section Calls

variable {c : Crypto} {b b' : Backend} {call : PrecompileCall} {out : PrecompileOutcome} {k : Bytes}

lemma put_outside_registry {p v : Bytes} (hp : p <+: k)
    (haa : Apart p ValidatorRegistry.KEY_PREFIX) {k' : Bytes}
    (hk' : ValidatorRegistry.KEY_PREFIX <+: k') :
    (b.put .metaCf k v).get .metaCf k' = b.get .metaCf k' := by
  refine get_put_ne ?_
  rintro - rfl
  exact prefix_excludes hp haa hk'

lemma DispatchStep.registry (h : DispatchStep b call b' out)
    (hop : call.data.take 4 ∈ [OP_BOND, OP_BEGIN_UNBOND, OP_WITHDRAW])
    (hk : ValidatorRegistry.KEY_PREFIX <+: k) : b'.get .metaCf k = b.get .metaCf k := by
  cases h with
  | bond | beginUnbond =>
    exact put_outside_registry (prefix_append _ _) (by decide) hk
  | sweep =>
    refine get_delete_ne ?_
    rintro - rfl
    exact prefix_excludes (prefix_append _ _) (by decide) hk
  | idle => rfl
  | store _ _ _ _ op =>
    have haa : ∀ o ∈ [OP_BOND, OP_BEGIN_UNBOND, OP_WITHDRAW],
        o ∉ [OP_PROPOSE, OP_VOTE, OP_REGISTER_VALIDATOR] := by decide
    exact absurd op (haa _ hop)

lemma dispatch_registry (h : dispatch c b call = .ok (b', out)) :
    (∀ k, ValidatorRegistry.KEY_PREFIX <+: k → b'.get .metaCf k = b.get .metaCf k) ∨
      ∃ keys, call.registeredKey = some keys.blsPubkey ∧
        (c.blsPubkeyOk keys.blsPubkey = true ∧ c.vrfPubkeyOk keys.vrfPubkey = true) ∧
        b' = register b call.sender keys := by
  have hsp := dispatch_step h
  unfold dispatch at h
  dsimp only at h
  split_ifs at h with _ hb hu hw hp hvt hr
  · exact .inl fun k hk => hsp.registry (by simp [hb]) hk
  · exact .inl fun k hk => hsp.registry (by simp [hu]) hk
  · exact .inl fun k hk => hsp.registry (by simp [hw]) hk
  · unfold dispatchPropose at h
    dsimp only at h
    split_ifs at h
    split at h
    · cases h
    · cases h
      exact .inl fun k hk => put_outside_registry (prefix_append _ _) (by decide) hk
  · unfold dispatchVote at h
    dsimp only at h
    split_ifs at h
    split at h
    · cases h
    next hca =>
      cases h
      rw [castVote_ok hca, Governance.voteKey, append_assoc]
      exact .inl fun k hk => put_outside_registry (prefix_append _ _) (by decide) hk
  · unfold dispatchRegister at h
    split_ifs at h
    split at h
    next bls vrf hbl hvr =>
      split_ifs at h with hbk hv
      cases h
      refine .inr ⟨⟨bls, vrf⟩, ?_, by simpa using And.intro hbk hv, rfl⟩
      rw [PrecompileCall.registeredKey, if_pos hr, hbl]
    · cases h

lemma distinct_afterDispatch (h : ValidatorRegistry.Distinct b) (hfe : call.keyFree b = true) :
    ValidatorRegistry.Distinct (afterDispatch c b call) := by
  unfold afterDispatch
  cases hd : dispatch c b call with
  | error => exact h
  | ok r =>
    obtain ⟨b', out⟩ := r
    rcases dispatch_registry hd with hfr | ⟨keys, hk, -, rfl⟩
    · intro a a' keys keys' ha ha'
      rw [get_congr hfr] at ha ha'
      exact h a a' keys keys' ha ha'
    · rw [PrecompileCall.keyFree, hk] at hfe
      exact h.register hfe

end Calls

section Elections

variable {b : Backend} (minStake : U256) (validatorsPerEpoch : UInt32)

lemma candidates_distinct : (candidates b minStake).Pairwise fun r s => r.staker ≠ s.staker := by
  refine ((perm_insertionSort _ _).pairwise_iff fun h => Ne.symm h).mpr ?_
  exact (StakeTable.listAll_distinct b).filter _

lemma registered_of_mem {minStake : U256} {validatorsPerEpoch : UInt32} {v : ValidatorEntry}
    (h : v ∈ electRegisteredActiveSet b minStake validatorsPerEpoch) :
    ∃ keys, get b v.address = some keys ∧ v.blsPubkey = some keys.blsPubkey := by
  obtain ⟨r, -, hr⟩ := mem_filterMap.mp (mem_of_mem_take h)
  obtain ⟨keys, hks, rfl⟩ := map_eq_some_iff.mp hr
  exact ⟨keys, hks, rfl⟩

lemma addresses_distinct : (electRegisteredActiveSet b minStake validatorsPerEpoch).Pairwise
      fun v w => v.address ≠ w.address := by
  refine List.Pairwise.sublist (take_sublist _ _) ?_
  refine pairwise_filterMap.mpr ((candidates_distinct minStake).imp ?_)
  intro r s hne v hv w hw
  obtain ⟨_, -, rfl⟩ := map_eq_some_iff.mp hv
  obtain ⟨_, -, rfl⟩ := map_eq_some_iff.mp hw
  exact hne

lemma elected_distinct (h : ValidatorRegistry.Distinct b) :
    (electRegisteredActiveSet b minStake validatorsPerEpoch).Pairwise
      fun v w => v.blsPubkey ≠ w.blsPubkey := by
  refine (addresses_distinct minStake validatorsPerEpoch).imp_of_mem ?_
  intro v w hv hw hne heq
  obtain ⟨kv, hkv, hb⟩ := registered_of_mem hv
  obtain ⟨kw, hkw, hbl⟩ := registered_of_mem hw
  rw [hb, hbl] at heq
  exact hne (h _ _ _ _ hkv hkw (some.inj heq))

lemma elected_length_le : (electRegisteredActiveSet b minStake validatorsPerEpoch).length ≤
    validatorsPerEpoch.toNat :=
  length_take_le _ _

end Elections

lemma bftMyIndex_of_distinct {set : List ValidatorEntry}
    (hks : set.Pairwise fun v w => v.blsPubkey ≠ w.blsPubkey) (hl : set.length ≤ 2 ^ 32) {i : Nat}
    {v : ValidatorEntry} {pk : BlsPubKey} (hv : set[i]? = some v)
    (hpk : v.blsPubkey = some pk) : ∃ k, bftMyIndexFromEntries set pk = some k ∧ k.toNat = i := by
  obtain ⟨hi, rfl⟩ := List.getElem?_eq_some_iff.mp hv
  have hfo : set.findIdx? (fun e => e.blsPubkey == some pk) = some i := by
    refine List.findIdx?_eq_some_iff_getElem.mpr ⟨hi, by simp [hpk], fun j hj => ?_⟩
    have hne := pairwise_iff_getElem.mp hks j i (by omega) hi hj
    rw [hpk] at hne
    simpa using hne
  have hlt : i < 2 ^ 32 := by omega
  refine ⟨UInt32.ofNat i, ?_, UInt32.toNat_ofNat_of_lt' hlt⟩
  rw [bftMyIndexFromEntries, hfo, bind_some, if_pos hlt]

/-- If every registration is of a free key, no key belongs to two
validators. -/
theorem elected_identities_distinct {c : Crypto} {b : Backend} (hempty : ValidatorRegistry.Empty b)
    {calls : List PrecompileCall}
    (hfree : Along (afterDispatch c) (fun b call => call.keyFree b = true) b calls)
    (minStake : U256) (validatorsPerEpoch : UInt32) :
    let set := electRegisteredActiveSet (calls.foldl (afterDispatch c) b) minStake
      validatorsPerEpoch
    (set.Pairwise fun v w => v.blsPubkey ≠ w.blsPubkey) ∧
      (∀ i v, set[i]? = some v → ∃ pk k, v.blsPubkey = some pk ∧
        bftMyIndexFromEntries set pk = some k ∧ k.toNat = i) ∧
      ∀ S, bftValidatorSetFromEntries c set = .ok S →
        S.validators.Pairwise fun v w => v.blsPubkey ≠ w.blsPubkey := by
  have hsr : ValidatorRegistry.Distinct b := by
    intro a a' keys keys' ha
    rw [ValidatorRegistry.get, hempty (key a) (prefix_append _ _)] at ha
    cases ha
  have hds : ValidatorRegistry.Distinct (calls.foldl (afterDispatch c) b) :=
    hfree.keeps (fun _ _ hcl hs => distinct_afterDispatch hs hcl) hsr
  have hks := elected_distinct minStake validatorsPerEpoch hds
  refine ⟨hks, fun i v hv => ?_, fun S hS => ?_⟩
  · obtain ⟨keys, -, hpk⟩ := registered_of_mem (mem_of_getElem? hv)
    have hl := elected_length_le (b := calls.foldl (afterDispatch c) b) minStake
      validatorsPerEpoch
    have hc := validatorsPerEpoch.toNat_lt
    obtain ⟨k, hk⟩ := bftMyIndex_of_distinct hks (by omega) hv hpk
    exact ⟨_, k, hpk, hk⟩
  · have hm := pairwise_map.mpr hks
    rw [bls_of_entries hS, pairwise_map] at hm
    exact hm.imp fun hne heq => hne (congrArg some heq)

def callOf (sender : Address) (value : U256) (op args : Bytes) : PrecompileCall :=
  ⟨sender, value, op ++ args, 1, 10⟩

def twoRegistrations (k₁ k₂ : BlsPubKey) : List PrecompileCall :=
  [callOf (arrOfNat 20 1) 5 OP_BOND [], callOf (arrOfNat 20 2) 3 OP_BOND [],
    callOf (arrOfNat 20 1) 0 OP_REGISTER_VALIDATOR (k₁.toList ++ (Arr.zero 32).toList),
    callOf (arrOfNat 20 2) 0 OP_REGISTER_VALIDATOR (k₂.toList ++ (Arr.zero 32).toList)]

lemma registryEmpty_empty : ValidatorRegistry.Empty .empty := fun _ _ => rfl

theorem elected_identities_distinct_two :
    (electRegisteredActiveSet ((twoRegistrations (arrOfNat 48 7) (arrOfNat 48 8)).foldl
      (afterDispatch .reference) .empty) 1 2).Pairwise fun v w => v.blsPubkey ≠ w.blsPubkey :=
  (elected_identities_distinct registryEmpty_empty (by decide +kernel) 1 2).1

def sharedSet : List ValidatorEntry :=
  electRegisteredActiveSet ((twoRegistrations (arrOfNat 48 7) (arrOfNat 48 7)).foldl
    (afterDispatch .reference) .empty) 1 2

/-- Both are elected with the key, and the node of the second finds itself
at the place of the first. -/
theorem shared_key_elected :
    sharedSet = [⟨arrOfNat 20 1, 5, some (arrOfNat 48 7), some (Arr.zero 32)⟩,
        ⟨arrOfNat 20 2, 3, some (arrOfNat 48 7), some (Arr.zero 32)⟩] ∧
      ¬ (sharedSet.Pairwise fun v w => v.blsPubkey ≠ w.blsPubkey) ∧
      bftMyIndexFromEntries sharedSet (arrOfNat 48 7) = some 0 := by
  decide +kernel

end Aii.Node
