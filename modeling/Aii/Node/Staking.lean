/-
Aii.Node.Staking — the stake table (`aii-node/src/staking.rs`).

A record is the amount and the height of a sweep; the table never touches
account balances.
-/
import Aii.Crypto
import Aii.Node.Storage

namespace Aii.Node

open Common Common.OrderedMap List

structure StakeRecord where
  staker : Address
  amountWei : U256
  unbondAt : UInt64
  deriving DecidableEq

def StakeRecord.isBonded (r : StakeRecord) : Bool := r.unbondAt == 0 && r.amountWei != 0

/-- `{addr:?}`, the derived debug form. -/
def debugAddress (a : Address) : String :=
  "Address([" ++ ", ".intercalate (a.toList.map fun b => toString b.toNat) ++ "])"

namespace StakeTable

def KEY_PREFIX : Bytes := ascii ['s', 't', 'a', 'k', 'e', ':']

def key (addr : Address) : Bytes := KEY_PREFIX ++ addr.toList

def encodeValue (amount : U256) (unbondAt : UInt64) : Bytes :=
  toBe 32 amount.toNat ++ u64Be unbondAt

def decodeValue (bytes : Bytes) : Option (U256 × UInt64) :=
  if bytes.length ≠ 40 then none
  else some (BitVec.ofNat 256 (ofBe (bytes.take 32)), u64OfBe (bytes.drop 32))

def get (b : Backend) (addr : Address) : Option StakeRecord :=
  (b.get .metaCf (key addr)).bind fun bytes =>
    (decodeValue bytes).map fun p => ⟨addr, p.1, p.2⟩

def putRecord (b : Backend) (addr : Address) (amount : U256) (unbondAt : UInt64) : Backend :=
  b.put .metaCf (key addr) (encodeValue amount unbondAt)

def amountOf (b : Backend) (addr : Address) : U256 := (get b addr).elim 0 (·.amountWei)

def bond (b : Backend) (addr : Address) (delta : U256) : Backend :=
  putRecord b addr (satAdd256 (amountOf b addr) delta) 0

def beginUnbond (b : Backend) (addr : Address) (currentHeight unbondingPeriod : UInt64) :
    Except String Backend :=
  match get b addr with
  | none => .error ("begin_unbond: no stake at " ++ debugAddress addr)
  | some prev => .ok (putRecord b addr prev.amountWei (satAdd64 currentHeight unbondingPeriod))

/-- `withdraw`: the swept amount, if the stake has finished unbonding. -/
def withdraw (b : Backend) (addr : Address) (currentHeight : UInt64) : Backend × Option U256 :=
  match get b addr with
  | none => (b, none)
  | some rec =>
    if rec.unbondAt = 0 ∨ currentHeight < rec.unbondAt then (b, none)
    else (b.delete .metaCf (key addr), some rec.amountWei)

def slash (b : Backend) (addr : Address) (delta : U256) : Except String Backend :=
  match get b addr with
  | none => .error ("slash: no stake at " ++ debugAddress addr)
  | some prev => .ok (putRecord b addr (satSub256 prev.amountWei delta) prev.unbondAt)

def recordOf (e : Bytes × Bytes) : Option StakeRecord :=
  if e.1.length ≠ KEY_PREFIX.length + 20 then none
  else
    (arr? 20 (e.1.drop KEY_PREFIX.length)).bind fun staker =>
      (decodeValue e.2).map fun p => ⟨staker, p.1, p.2⟩

def listAll (b : Backend) : List StakeRecord :=
  (b.iterPrefix .metaCf KEY_PREFIX).filterMap recordOf

def totalBonded (b : Backend) : U256 :=
  satSum256 0 (((listAll b).filter StakeRecord.isBonded).map StakeRecord.amountWei)

lemma decodeValue_encodeValue (amount : U256) (unbondAt : UInt64) :
    decodeValue (encodeValue amount unbondAt) = some (amount, unbondAt) := by
  have hl : (encodeValue amount unbondAt).length = 40 := by simp [encodeValue]
  rw [decodeValue, if_neg (not_not.mpr hl), encodeValue, take_left' (toBe_length 32 _),
    drop_left' (toBe_length 32 _), ofNat_ofBe_toBe, u64OfBe_u64Be]

lemma encodeValue_decodeValue {bytes : Bytes} {p : U256 × UInt64}
    (h : decodeValue bytes = some p) : encodeValue p.1 p.2 = bytes := by
  unfold decodeValue at h
  split_ifs at h with hl
  rw [not_not] at hl
  cases h
  have hta : (bytes.take 32).length = 32 := by rw [length_take, hl]; rfl
  have hdp : (bytes.drop 32).length = 8 := by rw [length_drop, hl]
  have ha : toBe 32 (BitVec.ofNat 256 (ofBe (bytes.take 32))).toNat = bytes.take 32 := by
    have hlt := ofBe_lt (bytes.take 32)
    have hread := toBe_ofBe (bytes.take 32)
    rw [hta] at hlt hread
    rw [BitVec.toNat_ofNat, Nat.mod_eq_of_lt (lt_of_lt_of_eq hlt (by decide)), hread]
  have hhg : u64Be (u64OfBe (bytes.drop 32)) = bytes.drop 32 := by
    have hlt := ofBe_lt (bytes.drop 32)
    have hread := toBe_ofBe (bytes.drop 32)
    rw [hdp] at hlt hread
    rw [u64Be, u64OfBe, UInt64.toNat_ofNat_of_lt' (lt_of_lt_of_eq hlt (by decide)), hread]
  rw [encodeValue, ha, hhg, take_append_drop]

lemma key_inj {a a' : Address} (h : key a = key a') : a = a' :=
  toList_inj.mp (append_cancel_left h)

variable {b : Backend} {r : StakeRecord} {addr : Address} {b' : Backend}

@[simp] lemma get_putRecord_self (addr : Address) (amount : U256) (unbondAt : UInt64) :
    get (putRecord b addr amount unbondAt) addr = some ⟨addr, amount, unbondAt⟩ := by
  rw [get, putRecord, Backend.get_put_self]
  simp [decodeValue_encodeValue]

lemma get_putRecord_ne {addr' : Address} (amount : U256) (unbondAt : UInt64) (h : addr' ≠ addr) :
    get (putRecord b addr amount unbondAt) addr' = get b addr' := by
  rw [get, putRecord, Backend.get_put_ne (fun _ heq => h (key_inj heq)), get]

lemma putRecord_of_get (h : get b addr = some r) :
    putRecord b addr r.amountWei r.unbondAt = b := by
  obtain ⟨bytes, hbt, hm⟩ := Option.bind_eq_some_iff.mp h
  obtain ⟨p, hp, rfl⟩ := Option.map_eq_some_iff.mp hm
  rw [putRecord, encodeValue_decodeValue hp]
  exact Backend.put_of_get hbt

lemma entry_of_recordOf {e : Bytes × Bytes} (hm : e ∈ b.iterPrefix .metaCf KEY_PREFIX)
    (h : recordOf e = some r) :
    e.1 = key r.staker ∧ ((decodeValue e.2).map fun p => ⟨r.staker, p.1, p.2⟩) = some r := by
  obtain ⟨-, suffix, hk⟩ := Backend.mem_iterPrefix.mp hm
  unfold recordOf at h
  split_ifs at h
  obtain ⟨staker, hs, hvl⟩ := Option.bind_eq_some_iff.mp h
  rw [← hk, drop_left' rfl, arr?_eq_some_iff] at hs
  obtain ⟨p, hp, rfl⟩ := Option.map_eq_some_iff.mp hvl
  exact ⟨by rw [← hk, ← hs, key], hvl⟩

lemma mem_listAll : r ∈ listAll b ↔ get b r.staker = some r := by
  rw [listAll, mem_filterMap]
  constructor
  · rintro ⟨e, hm, hread⟩
    obtain ⟨hk, hvl⟩ := entry_of_recordOf hm hread
    rw [get, ← hk, (Backend.mem_iterPrefix.mp hm).1]
    exact hvl
  · intro h
    obtain ⟨v, hg, hvl⟩ := Option.bind_eq_some_iff.mp h
    refine ⟨(key r.staker, v), Backend.mem_iterPrefix.mpr ⟨hg, prefix_append _ _⟩, ?_⟩
    rw [recordOf, if_neg (by simp [key]), key, drop_left' rfl, arr?_toList]
    exact hvl

lemma listAll_distinct (b : Backend) : (listAll b).Pairwise fun r s => r.staker ≠ s.staker := by
  refine pairwise_filterMap.mpr ((b.iterPrefix_distinct _ _).imp_of_mem ?_)
  intro e e' he he' hne r hr r' hr' heq
  refine hne ?_
  rw [(entry_of_recordOf he hr).1, (entry_of_recordOf he' hr').1, heq]

/-- What an entry of the `Meta` column family counts for. -/
def stakeWeight (k v : Bytes) : Nat :=
  if KEY_PREFIX.isPrefixOf k then (recordOf (k, v)).elim 0 fun r => r.amountWei.toNat else 0

def totalStake (b : Backend) : Nat := ((listAll b).map fun r => r.amountWei.toNat).sum

lemma totalStake_eq_weight (b : Backend) :
    totalStake b = OrderedMap.weight stakeWeight (b.cf .metaCf) := by
  unfold totalStake listAll Backend.iterPrefix entriesWhere OrderedMap.weight
  induction (b.cf .metaCf).toList with
  | nil => rfl
  | cons e _ ih =>
    rw [map_cons, sum_cons, ← ih, stakeWeight]
    by_cases hp : KEY_PREFIX.isPrefixOf e.1 = true
    · rw [filter_cons, if_pos hp, if_pos hp, filterMap_cons]
      cases recordOf e with
      | none | some => simp
    · rw [filter_cons, if_neg hp, if_neg hp, Nat.zero_add]

section Key

variable (addr : Address)

lemma isPrefixOf_key : KEY_PREFIX.isPrefixOf (key addr) = true :=
  isPrefixOf_iff_prefix.mpr (prefix_append _ _)

lemma recordOf_key (v : Bytes) :
    recordOf (key addr, v) = (decodeValue v).map fun p => ⟨addr, p.1, p.2⟩ := by
  have hl : (key addr).length = KEY_PREFIX.length + 20 := by simp [key]
  rw [recordOf, if_neg (not_not.mpr hl), key, drop_left' rfl, arr?_toList]
  rfl

lemma weightAt_stakeWeight :
    weightAt stakeWeight (b.cf .metaCf) (key addr) = (amountOf b addr).toNat := by
  rw [weightAt, amountOf, get, ← Backend.get]
  cases b.get .metaCf (key addr) with
  | none => rfl
  | some v =>
    rw [Option.elim_some, stakeWeight, if_pos (isPrefixOf_key addr), recordOf_key, Option.bind_some]
    cases decodeValue v <;> rfl

lemma totalStake_putRecord (amount : U256) (unbondAt : UInt64) :
    totalStake (putRecord b addr amount unbondAt) + (amountOf b addr).toNat =
      totalStake b + amount.toNat := by
  have h := weight_insert stakeWeight (b.cf .metaCf) (key addr) (encodeValue amount unbondAt)
  rw [weightAt_stakeWeight, stakeWeight, if_pos (isPrefixOf_key addr), recordOf_key,
    decodeValue_encodeValue] at h
  rw [totalStake_eq_weight, totalStake_eq_weight, putRecord, Backend.put, Backend.cf_setCf_self]
  exact h

lemma totalStake_delete :
    totalStake (b.delete .metaCf (key addr)) + (amountOf b addr).toNat = totalStake b := by
  have h := weight_erase stakeWeight (b.cf .metaCf) (key addr)
  rw [weightAt_stakeWeight] at h
  rw [totalStake_eq_weight, totalStake_eq_weight, Backend.delete, Backend.cf_setCf_self]
  exact h

end Key

lemma listAll_congr (h : ∀ k, KEY_PREFIX <+: k → b'.get .metaCf k = b.get .metaCf k) :
    listAll b' = listAll b := by
  have hsc : b'.iterPrefix .metaCf KEY_PREFIX = b.iterPrefix .metaCf KEY_PREFIX :=
    entriesWhere_congr fun k hk => h k <| isPrefixOf_iff_prefix.mp hk
  rw [listAll, hsc, listAll]

lemma totalStake_congr (h : ∀ k, KEY_PREFIX <+: k → b'.get .metaCf k = b.get .metaCf k) :
    totalStake b' = totalStake b := by
  rw [totalStake, listAll_congr h, totalStake]

lemma get_staker (h : get b addr = some r) : r.staker = addr := by
  obtain ⟨bytes, -, hread⟩ := Option.bind_eq_some_iff.mp h
  obtain ⟨p, -, rfl⟩ := Option.map_eq_some_iff.mp hread
  rfl

lemma amountOf_of_get (h : get b addr = some r) : amountOf b addr = r.amountWei := by
  rw [amountOf, h]
  rfl

end StakeTable

end Aii.Node
