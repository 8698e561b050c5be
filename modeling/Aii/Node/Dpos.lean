/-
Aii.Node.Dpos — runtime keys, elections and the BFT set they give
(`aii-node/src/{validator_registry,dpos}.rs` and the conversion functions
of `aii-node/src/lib.rs`).

The set of an epoch is persisted with the keys of its members if all have
them.
-/
import Aii.Bft.ValidatorSet
import Aii.Node.Staking

namespace Aii.Node

open Common List Backend UInt64

structure ValidatorKeys where
  blsPubkey : BlsPubKey
  vrfPubkey : VrfPubKey
  deriving DecidableEq

namespace ValidatorRegistry

def KEY_PREFIX : Bytes :=
  ascii ['v', 'a', 'l', 'i', 'd', 'a', 't', 'o', 'r', '_', 'k', 'e', 'y', ':']

def key (addr : Address) : Bytes := KEY_PREFIX ++ addr.toList

def encodeValue (keys : ValidatorKeys) : Bytes := keys.blsPubkey.toList ++ keys.vrfPubkey.toList

def decodeValue (bytes : Bytes) : Option ValidatorKeys :=
  if bytes.length ≠ 80 then none
  else
    (arr? 48 (bytes.take 48)).bind fun bls =>
      (arr? 32 (bytes.drop 48)).map fun vrf => ⟨bls, vrf⟩

def register (b : Backend) (addr : Address) (keys : ValidatorKeys) : Backend :=
  b.put .metaCf (key addr) (encodeValue keys)

def get (b : Backend) (addr : Address) : Option ValidatorKeys :=
  (b.get .metaCf (key addr)).bind decodeValue

end ValidatorRegistry

/-! ## Elections -/

structure ValidatorEntry where
  address : Address
  stakeWei : U256
  blsPubkey : Option BlsPubKey
  vrfPubkey : Option VrfPubKey
  deriving DecidableEq

/-- Does `r` rank before `s`? -/
def ranksBefore (r s : StakeRecord) : Bool :=
  s.amountWei.toNat < r.amountWei.toNat ||
    (r.amountWei == s.amountWei && decide (r.staker.toList ≤ s.staker.toList))

/-- The bonded stakers that clear the floor, in rank order. -/
def candidates (b : Backend) (minStake : U256) : List StakeRecord :=
  ((StakeTable.listAll b).filter fun r => r.isBonded && minStake.toNat ≤ r.amountWei.toNat)
    |>.insertionSort fun r s => ranksBefore r s

def electActiveSet (b : Backend) (minStake : U256) (validatorsPerEpoch : UInt32) :
    List ValidatorEntry :=
  ((candidates b minStake).take validatorsPerEpoch.toNat).map fun r =>
    ⟨r.staker, r.amountWei, none, none⟩

def electRegisteredActiveSet (b : Backend) (minStake : U256) (validatorsPerEpoch : UInt32) :
    List ValidatorEntry :=
  ((candidates b minStake).filterMap fun r =>
    (ValidatorRegistry.get b r.staker).map fun keys =>
      (⟨r.staker, r.amountWei, some keys.blsPubkey, some keys.vrfPubkey⟩ : ValidatorEntry)).take
    validatorsPerEpoch.toNat

namespace Dpos

def KEY_PREFIX : Bytes :=
  ascii ['v', 'a', 'l', 'i', 'd', 'a', 't', 'o', 'r', '_', 's', 'e', 't', ':']

def key (epoch : UInt64) : Bytes := KEY_PREFIX ++ u64Be epoch

def hasKeys (set : List ValidatorEntry) : Bool :=
  set.all fun v => v.blsPubkey.isSome && v.vrfPubkey.isSome

def encodeEntry (withKeys : Bool) (v : ValidatorEntry) : Bytes :=
  v.address.toList ++ toBe 32 v.stakeWei.toNat ++ if withKeys then
      v.blsPubkey.elim [] List.Vector.toList ++ v.vrfPubkey.elim [] List.Vector.toList
    else []

def persistValidatorSet (b : Backend) (epoch : UInt64) (set : List ValidatorEntry) : Backend :=
  b.put .metaCf (key epoch)
    (toBe 4 (min set.length (2 ^ 32 - 1)) ++ set.flatMap (encodeEntry (hasKeys set)))

def decodeEntry (withKeys : Bool) (bs : Bytes) : Option ValidatorEntry :=
  (arr? 20 (bs.take 20)).bind fun address =>
    let stakeWei := BitVec.ofNat 256 (ofBe ((bs.drop 20).take 32))
    if withKeys then
      (arr? 48 ((bs.drop 52).take 48)).bind fun bls =>
        (arr? 32 ((bs.drop 100).take 32)).map fun vrf => ⟨address, stakeWei, some bls, some vrf⟩
    else some ⟨address, stakeWei, none, none⟩

/-- `read_validator_set`. A length that fits neither layout reads as
absent; the keyed layout wins when both fit. -/
def readValidatorSet (b : Backend) (epoch : UInt64) : Option (List ValidatorEntry) :=
  (b.get .metaCf (key epoch)).bind fun bytes =>
    if bytes.length < 4 then none
    else
      let count := ofBe (bytes.take 4)
      let body := bytes.drop 4
      let legacyLen := count * (20 + 32)
      let keyedLen := count * (20 + 32 + 48 + 32)
      if body.length ≠ legacyLen ∧ body.length ≠ keyedLen then none
      else
        let withKeys := body.length == keyedLen
        let entryLen := if withKeys then 20 + 32 + 48 + 32 else 20 + 32
        (List.range count).mapM fun i => decodeEntry withKeys (body.drop (i * entryLen))

def epochs (b : Backend) : List UInt64 :=
  (b.iterPrefix .metaCf KEY_PREFIX).filterMap fun e =>
    let suffix := e.1.drop KEY_PREFIX.length
    if suffix.length ≠ 8 then none else some (u64OfBe suffix)

def latestEpoch (b : Backend) : Option UInt64 :=
  (epochs b).foldl (fun latest epoch =>
    match latest with
    | none => some epoch
    | some cur => if cur < epoch then some epoch else some cur) none

def latestValidatorSet (b : Backend) : Option (UInt64 × List ValidatorEntry) :=
  (latestEpoch b).map fun epoch => (epoch, (readValidatorSet b epoch).getD [])

section Congr

variable {K : ColumnFamily → Bytes → Prop} {b₁ b₂ : Backend}

variable (h : Backend.AgreeOn K b₁ b₂) (hK : ∀ k, KEY_PREFIX <+: k → K .metaCf k)

include h hK

lemma readValidatorSet_congr (epoch : UInt64) :
    readValidatorSet b₁ epoch = readValidatorSet b₂ epoch := by
  have hg := h .metaCf (key epoch) (hK _ (prefix_append _ _))
  rw [readValidatorSet, hg, readValidatorSet]

lemma epochs_congr : epochs b₁ = epochs b₂ := by
  rw [epochs, h.iterPrefix hK, epochs]

lemma latestEpoch_congr : latestEpoch b₁ = latestEpoch b₂ := by
  rw [latestEpoch, epochs_congr h hK, latestEpoch]

lemma latestValidatorSet_congr : latestValidatorSet b₁ = latestValidatorSet b₂ := by
  rw [latestValidatorSet, latestEpoch_congr h hK, latestValidatorSet]
  simp only [readValidatorSet_congr h hK]

end Congr

def Keyed (v : ValidatorEntry) : Prop := ∃ bls vrf, v.blsPubkey = some bls ∧ v.vrfPubkey = some vrf

variable {set : List ValidatorEntry} {epoch : UInt64} {b : Backend} {v : ValidatorEntry}

lemma hasKeys_iff : hasKeys set = true ↔ ∀ v ∈ set, Keyed v := by
  simp [hasKeys, Keyed, Option.isSome_iff_exists]

/-- Entries of one of the two layouts. -/
def Fits : Bool → ValidatorEntry → Prop
  | true, v => Keyed v
  | false, v => v.blsPubkey = none ∧ v.vrfPubkey = none

def entryLen (withKeys : Bool) : Nat := if withKeys then 20 + 32 + 48 + 32 else 20 + 32

lemma encodeEntry_length {k : Bool} (h : Fits k v) : (encodeEntry k v).length = entryLen k := by
  cases k with
  | true =>
    obtain ⟨bls, vrf, hb, hv⟩ := h
    simp [encodeEntry, entryLen, hb, hv]
  | false => simp [encodeEntry, entryLen]

lemma decodeEntry_encodeEntry {k : Bool} (h : Fits k v) (rest : Bytes) :
    decodeEntry k (encodeEntry k v ++ rest) = some v := by
  have hsk : ofBe (toBe 32 v.stakeWei.toNat) = v.stakeWei.toNat :=
    ofBe_toBe_of_lt (v.stakeWei.isLt.trans_eq (by norm_num))
  obtain ⟨address, stakeWei, bls, vrf⟩ := v
  cases k with
  | false =>
    obtain ⟨rfl, rfl⟩ := h
    simp_all [decodeEntry, encodeEntry]
  | true =>
    obtain ⟨bls, vrf, rfl, rfl⟩ := h
    simp_all [decodeEntry, encodeEntry, drop_append, drop_of_length_le]

lemma readValidatorSet_persist_of_fits (b : Backend) (epoch : UInt64)
    (hfi : ∀ v ∈ set, Fits (hasKeys set) v) (hln : set.length < 2 ^ 32) :
    readValidatorSet (persistValidatorSet b epoch set) epoch = some set := by
  have hcu : ofBe (toBe 4 (min set.length (2 ^ 32 - 1))) = set.length := by
    rw [ofBe_toBe_of_lt (by omega)]
    omega
  have hby : (set.flatMap (encodeEntry (hasKeys set))).length =
      set.length * entryLen (hasKeys set) := by
    rw [length_flatMap, map_congr_left fun v hv => encodeEntry_length (hfi v hv)]
    simp
  have hread : ∀ i (hi : i < set.length), decodeEntry (hasKeys set)
      ((set.flatMap (encodeEntry (hasKeys set))).drop (i * entryLen (hasKeys set))) =
        some set[i] := by
    intro i hi
    rw [drop_flatMap fun v hv => encodeEntry_length (hfi v hv), drop_eq_getElem_cons hi,
      flatMap_cons, decodeEntry_encodeEntry (hfi _ (getElem_mem hi))]
  -- only the empty set has one length in both layouts, and it counts as keyed
  have hl : (set.length * entryLen (hasKeys set) == set.length * (20 + 32 + 48 + 32)) =
      hasKeys set := by
    cases hks : hasKeys set with
    | true => simp [entryLen]
    | false =>
      have hne : set ≠ [] := by
        rintro rfl
        cases hks
      have hp := length_pos_iff.mpr hne
      simp [entryLen]
      omega
  have ho : ¬ (set.length * entryLen (hasKeys set) ≠ set.length * (20 + 32) ∧
      set.length * entryLen (hasKeys set) ≠ set.length * (20 + 32 + 48 + 32)) := by
    unfold entryLen
    split_ifs <;> simp
  unfold readValidatorSet persistValidatorSet
  rw [get_put_self, Option.bind_some, take_left' (by simp), drop_left' (by simp), hcu]
  dsimp only
  rw [hby, if_neg (by simp), if_neg ho, hl]
  exact range_mapM hread

lemma readValidatorSet_persist (b : Backend) (epoch : UInt64) (hks : hasKeys set = true)
    (hl : set.length < 2 ^ 32) :
    readValidatorSet (persistValidatorSet b epoch set) epoch = some set :=
  readValidatorSet_persist_of_fits b epoch (hks ▸ hasKeys_iff.mp hks) hl

lemma mem_epochs : epoch ∈ epochs b ↔ ∃ v, b.get .metaCf (key epoch) = some v := mem_suffixes

lemma mem_epochs_persist {e : UInt64} :
    e ∈ epochs (persistValidatorSet b epoch set) ↔ e = epoch ∨ e ∈ epochs b := by
  rw [mem_epochs, mem_epochs, persistValidatorSet]
  by_cases heq : e = epoch
  · simp [heq]
  · have hne : key e ≠ key epoch := fun hk => heq (u64Be_inj (append_cancel_left hk))
    simp [heq, get_put_ne fun _ => hne]

lemma foldl_latest {l : List UInt64} {latest : Option UInt64} {m : UInt64} (hle : ∀ e ∈ l, e ≤ m)
    (hlatest : ∀ e, latest = some e → e ≤ m) (hm : m ∈ l ∨ latest = some m) :
    l.foldl (fun latest epoch =>
      match latest with
      | none => some epoch
      | some cur => if cur < epoch then some epoch else some cur) latest = some m := by
  induction l generalizing latest with
  | nil => simpa using hm
  | cons _ _ ih =>
    obtain ⟨he, hl⟩ := forall_mem_cons.mp hle
    rw [foldl_cons]
    refine ih hl ?_ ?_
    · cases latest with
      | none => simpa using he
      | some =>
        dsimp only
        split_ifs
        · simpa using he
        · exact hlatest
    · cases latest with
      | none =>
        rcases hm with hm | hm
        · rcases mem_cons.mp hm with rfl | hm
          · exact .inr rfl
          · exact .inl hm
        · cases hm
      | some cur =>
        dsimp only
        rcases hm with hm | hm
        · rcases mem_cons.mp hm with rfl | hm
          · -- the maximum itself: it replaces a smaller one
            refine .inr ?_
            split_ifs with hlt
            · rfl
            · rw [UInt64.le_antisymm (hlatest cur rfl) (UInt64.not_lt.mp hlt)]
          · exact .inl hm
        · cases hm
          rw [if_neg (UInt64.not_lt.mpr he)]
          exact .inr rfl

lemma latestEpoch_persist (set : List ValidatorEntry) (hle : ∀ e ∈ epochs b, e ≤ epoch) :
    latestEpoch (persistValidatorSet b epoch set) = some epoch := by
  refine foldl_latest ?_ (by simp) (.inl (mem_epochs_persist.mpr (.inl rfl)))
  intro e he
  rcases mem_epochs_persist.mp he with rfl | he
  · exact UInt64.le_refl _
  · exact hle e he

end Dpos

/-! ## The BFT set of an election -/

def BFT_STAKE_WEIGHT_UNIT_WEI : Nat := 10 ^ 18

def bftStakeWeightFromWei (stakeWei : U256) : Except Bft.BftError UInt64 :=
  let weight := stakeWei.toNat / BFT_STAKE_WEIGHT_UNIT_WEI
  let weight := if weight = 0 then 1 else weight
  if weight < 2 ^ 64 then .ok (UInt64.ofNat weight) else .error .totalStakeOverflow

/-- One entry as a BFT validator, at position `i`. -/
def bftValidatorOf (c : Crypto) (i : Nat) (entry : ValidatorEntry) :
    Except Bft.BftError Bft.Validator :=
  match entry.blsPubkey with
  | none => .error (.invalidValidatorPubkey i "bls")
  | some bls =>
    match entry.vrfPubkey with
    | none => .error (.invalidValidatorPubkey i "vrf")
    | some vrf =>
      if !c.blsPubkeyOk bls then .error (.invalidValidatorPubkey i "bls")
      else if !c.vrfPubkeyOk vrf then .error (.invalidValidatorPubkey i "vrf")
      else (bftStakeWeightFromWei entry.stakeWei).map fun stake => ⟨bls, vrf, stake⟩

def bftValidatorSetFromEntries (c : Crypto) (entries : List ValidatorEntry) :
    Except Bft.BftError Bft.ValidatorSet :=
  (entries.zipIdx.mapM fun e => bftValidatorOf c e.2 e.1) >>= Bft.ValidatorSet.new

variable {α β ε : Type} {f : α → Except ε β} {l : List α}

lemma map_eq_of_mapM_ok {γ : Type} {g : α → γ} {k : β → γ} (hf : ∀ a b, f a = .ok b → g a = k b)
    {r : List β} (h : l.mapM f = .ok r) : l.map g = r.map k := by
  induction l generalizing r with
  | nil =>
    cases h
    rfl
  | cons a l ih =>
    rw [mapM_cons] at h
    cases ha : f a with
    | error =>
      rw [ha] at h
      cases h
    | ok b =>
      cases hl : l.mapM f with
      | error =>
        rw [ha, hl] at h
        cases h
      | ok =>
        rw [ha, hl] at h
        cases h
        rw [map_cons, map_cons, hf a b ha, ih hl]

lemma exists_mapM_ok (hf : ∀ a ∈ l, ∃ b, f a = .ok b) : ∃ r, l.mapM f = .ok r := by
  induction l with
  | nil => exact ⟨[], rfl⟩
  | cons _ _ ih =>
    obtain ⟨⟨b, hb⟩, hl⟩ := forall_mem_cons.mp hf
    obtain ⟨r, hr⟩ := ih hl
    refine ⟨b :: r, ?_⟩
    rw [mapM_cons, hb, hr]
    rfl

lemma bls_of_entries {c : Crypto} {entries : List ValidatorEntry} {S : Bft.ValidatorSet}
    (h : bftValidatorSetFromEntries c entries = .ok S) :
    entries.map ValidatorEntry.blsPubkey = S.validators.map fun v => some v.blsPubkey := by
  have ho : ∀ (e : ValidatorEntry × Nat) v, bftValidatorOf c e.2 e.1 = .ok v →
      e.1.blsPubkey = some v.blsPubkey := by
    intro e v hv
    unfold bftValidatorOf at hv
    cases hb : e.1.blsPubkey with
    | none => simp [hb] at hv
    | some =>
      cases hvr : e.1.vrfPubkey with
      | none => simp [hb, hvr] at hv
      | some =>
        simp only [hb, hvr] at hv
        split_ifs at hv
        cases hsk : bftStakeWeightFromWei e.1.stakeWei with
        | error =>
          rw [hsk] at hv
          cases hv
        | ok =>
          rw [hsk] at hv
          cases hv
          rfl
  unfold bftValidatorSetFromEntries at h
  cases hvs : entries.zipIdx.mapM fun e => bftValidatorOf c e.2 e.1 with
  | error =>
    rw [hvs] at h
    cases h
  | ok =>
    rw [hvs] at h
    have hf := congrArg (map ValidatorEntry.blsPubkey) (zipIdx_map_fst 0 entries)
    rw [map_map] at hf
    rw [Bft.ValidatorSet.new_validators h, ← map_eq_of_mapM_ok ho hvs, ← hf]
    rfl

def bftMyIndexFromEntries (entries : List ValidatorEntry) (localBlsPubkey : BlsPubKey) :
    Option UInt32 :=
  (entries.findIdx? fun e => e.blsPubkey == some localBlsPubkey).bind fun i =>
    if i < 2 ^ 32 then some (UInt32.ofNat i) else none

end Aii.Node
