/-
Aii.Node.ElectionSpec — what an election elects.

The set is a function of the records in the two tables: the eligible
stakers in one strict order.
-/
import Aii.Node.Election

namespace Aii.Node

open Common List Backend Dpos

/-- Stake descending, then address ascending. -/
def RanksAhead (v w : ValidatorEntry) : Prop :=
  w.stakeWei.toNat < v.stakeWei.toNat ∨
    v.stakeWei = w.stakeWei ∧ v.address.toList < w.address.toList

/-- Bonded, at or above the floor, with registered keys. -/
def Eligible (b : Backend) (minStake : U256) (v : ValidatorEntry) : Prop :=
  ∃ r keys, StakeTable.get b v.address = some r ∧ r.isBonded = true ∧
    minStake.toNat ≤ r.amountWei.toNat ∧ ValidatorRegistry.get b v.address = some keys ∧
    v = ⟨r.staker, r.amountWei, some keys.blsPubkey, some keys.vrfPubkey⟩

/-- A set one of the two election functions produces. -/
def Elected (set : List ValidatorEntry) : Prop :=
  ∃ b minStake validatorsPerEpoch, set = electRegisteredActiveSet b minStake validatorsPerEpoch ∨
    set = electActiveSet b minStake validatorsPerEpoch

abbrev EpochSet := UInt64 × List ValidatorEntry

def persistAll (b : Backend) (log : List EpochSet) : Backend :=
  log.foldl (fun b p => Dpos.persistValidatorSet b p.1 p.2) b

variable {b b' : Backend} {minStake : U256} {r s : StakeRecord} {v : ValidatorEntry}
  {log : List EpochSet}

lemma ranksBefore_iff : ranksBefore r s = true ↔ s.amountWei.toNat < r.amountWei.toNat ∨
    r.amountWei = s.amountWei ∧ r.staker.toList ≤ s.staker.toList := by
  simp [ranksBefore]

lemma candidates_sorted (b : Backend) (minStake : U256) :
    (candidates b minStake).Pairwise fun r s => ranksBefore r s = true ∧ r.staker ≠ s.staker := by
  have : Std.Total fun r s => ranksBefore r s = true := ⟨fun r s => by
    rw [ranksBefore_iff, ranksBefore_iff, ← BitVec.toNat_inj, ← BitVec.toNat_inj]
    have := List.le_total r.staker.toList s.staker.toList
    grind⟩
  have : IsTrans StakeRecord fun r s => ranksBefore r s = true := ⟨fun r s t h h' => by
    rw [ranksBefore_iff, ← BitVec.toNat_inj] at *
    have : r.staker.toList ≤ s.staker.toList → s.staker.toList ≤ t.staker.toList →
      r.staker.toList ≤ t.staker.toList := List.le_trans
    grind⟩
  exact (pairwise_insertionSort _ _).and (candidates_distinct minStake)

/-- All eligible stakers, in rank order. -/
def ranked (b : Backend) (minStake : U256) : List ValidatorEntry :=
  (candidates b minStake).filterMap fun r => (ValidatorRegistry.get b r.staker).map fun keys =>
    ⟨r.staker, r.amountWei, some keys.blsPubkey, some keys.vrfPubkey⟩

lemma ranked_sorted (b : Backend) (minStake : U256) : (ranked b minStake).Pairwise RanksAhead := by
  refine pairwise_filterMap.mpr ((candidates_sorted b minStake).imp ?_)
  rintro r s ⟨hbf, hne⟩ v hv w hw
  obtain ⟨_, -, rfl⟩ := Option.map_eq_some_iff.mp hv
  obtain ⟨_, -, rfl⟩ := Option.map_eq_some_iff.mp hw
  refine (ranksBefore_iff.mp hbf).imp_right fun hsm => ⟨hsm.1, ?_⟩
  exact List.not_le.mp fun hle => hne (toList_inj.mp (List.le_antisymm hsm.2 hle))

lemma mem_ranked : v ∈ ranked b minStake ↔ Eligible b minStake v := by
  rw [ranked, mem_filterMap]
  constructor
  · rintro ⟨r, hr, hen⟩
    obtain ⟨hg, hkp⟩ := mem_filter.mp ((mem_insertionSort _).mp hr)
    obtain ⟨hbn, hf⟩ := Bool.and_eq_true_iff.mp hkp
    obtain ⟨keys, hks, rfl⟩ := Option.map_eq_some_iff.mp hen
    exact ⟨r, keys, StakeTable.mem_listAll.mp hg, hbn, of_decide_eq_true hf, hks, rfl⟩
  · rintro ⟨r, keys, hg, hbn, hf, hks, rfl⟩
    refine ⟨r, (mem_insertionSort _).mpr (mem_filter.mpr ⟨StakeTable.mem_listAll.mpr hg, ?_⟩), ?_⟩
    · simp [hbn, hf]
    · rw [hks, Option.map_some]

lemma ranked_congr (hsk : StakeTable.get b' = StakeTable.get b)
    (hks : ValidatorRegistry.get b' = ValidatorRegistry.get b) :
    ranked b' minStake = ranked b minStake := by
  have : Std.Irrefl RanksAhead :=
    ⟨fun v h => List.lt_irrefl v.address.toList (by simpa [RanksAhead] using h)⟩
  have : Std.Antisymm RanksAhead := ⟨fun v w h h' => by
    have : v.address.toList < w.address.toList → ¬ w.address.toList < v.address.toList :=
      List.lt_asymm
    grind [RanksAhead]⟩
  refine (ranked_sorted b' minStake).eq_of_mem_iff (ranked_sorted b minStake) fun v => ?_
  rw [mem_ranked, mem_ranked, Eligible, Eligible, hsk, hks]

lemma Elected.fits {set : List ValidatorEntry} (h : Elected set) :
    (∀ v ∈ set, Dpos.Fits (hasKeys set) v) ∧ set.length < 2 ^ 32 := by
  obtain ⟨b, minStake, n, rfl | rfl⟩ := h
  · refine ⟨?_, (length_take_le _ _).trans_lt n.toNat_lt⟩
    have hk : ∀ v ∈ electRegisteredActiveSet b minStake n, Dpos.Keyed v := by
      intro v hv
      obtain ⟨r, -, hr⟩ := mem_filterMap.mp (mem_of_mem_take hv)
      obtain ⟨keys, -, rfl⟩ := Option.map_eq_some_iff.mp hr
      exact ⟨_, _, rfl, rfl⟩
    rwa [hasKeys_iff.mpr hk]
  · refine ⟨fun v hv => ?_, ?_⟩
    · obtain ⟨r, -, rfl⟩ := mem_map.mp hv
      have hb : hasKeys (electActiveSet b minStake n) = false := all_eq_false.mpr ⟨_, hv, by simp⟩
      rw [hb]
      exact ⟨rfl, rfl⟩
    · rw [electActiveSet, length_map]
      exact (length_take_le _ _).trans_lt n.toNat_lt

lemma mem_epochs_persistAll {e : UInt64} :
    e ∈ epochs (persistAll b log) ↔ e ∈ log.map Prod.fst ∨ e ∈ epochs b := by
  induction log generalizing b with
  | nil => simp [persistAll]
  | cons p log ih =>
    rw [persistAll, foldl_cons, ← persistAll, ih, mem_epochs_persist, map_cons, mem_cons]
    tauto

lemma readValidatorSet_persistAll {p : EpochSet} (hds : (log.map Prod.fst).Nodup) (hp : p ∈ log)
    (h : Elected p.2) : readValidatorSet (persistAll b log) p.1 = some p.2 := by
  induction log using reverseRecOn with
  | nil => cases hp
  | append_singleton log q ih =>
    rw [map_append, nodup_append_comm] at hds
    obtain ⟨hq, hl⟩ := nodup_cons.mp hds
    rw [persistAll, foldl_append, ← persistAll]
    rcases mem_append.mp hp with hp | hp
    · have hne : p.1 ≠ q.1 := fun heq => hq (heq ▸ mem_map_of_mem hp)
      exact (readValidatorSet_persist_ne _ hne).trans (ih hl hp)
    · obtain rfl := mem_singleton.mp hp
      exact readValidatorSet_persist_of_fits _ _ h.fits.1 h.fits.2

/-- **Elections**: the first seats of the eligible stakers in rank order, and
every elected set reads back. -/
theorem election_elects (b : Backend) (minStake : U256) (validatorsPerEpoch : UInt32) :
    (∃ order : List ValidatorEntry, order.Pairwise RanksAhead ∧
      (∀ v, v ∈ order ↔ Eligible b minStake v) ∧
      electRegisteredActiveSet b minStake validatorsPerEpoch =
        order.take validatorsPerEpoch.toNat) ∧
    ((electRegisteredActiveSet b minStake validatorsPerEpoch).map ValidatorEntry.address).Nodup ∧
    (∀ b', StakeTable.get b' = StakeTable.get b →
      ValidatorRegistry.get b' = ValidatorRegistry.get b →
      electRegisteredActiveSet b' minStake validatorsPerEpoch =
        electRegisteredActiveSet b minStake validatorsPerEpoch) ∧
    ∀ (log : List EpochSet) (p : EpochSet), p ∈ log → Elected p.2 → (log.map Prod.fst).Nodup →
      Dpos.readValidatorSet (persistAll b log) p.1 = some p.2 ∧
        ((∀ e ∈ log.map Prod.fst, e ≤ p.1) → (∀ e ∈ Dpos.epochs b, e ≤ p.1) →
          Dpos.latestValidatorSet (persistAll b log) = some p) := by
  refine ⟨⟨_, ranked_sorted b minStake, fun v => mem_ranked, rfl⟩, ?_, ?_, ?_⟩
  · rw [Nodup, pairwise_map]
    exact addresses_distinct minStake validatorsPerEpoch
  · intro b' hsk hks
    exact congrArg (take _) (ranked_congr hsk hks)
  · intro log p hp hel hds
    have hread := readValidatorSet_persistAll (b := b) hds hp hel
    refine ⟨hread, fun hl hb => ?_⟩
    have hlatest : latestEpoch (persistAll b log) = some p.1 := by
      refine latestEpoch_of_greatest ?_ fun e he => ?_
      · exact mem_epochs_persistAll.mpr (.inl (mem_map_of_mem hp))
      · exact (mem_epochs_persistAll.mp he).elim (hl e) (hb e)
    rw [latestValidatorSet, hlatest, Option.map_some, hread, Option.getD_some]

end Aii.Node
