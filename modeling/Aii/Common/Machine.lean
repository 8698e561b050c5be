/-
Aii.Common.Machine — the fixed-width arithmetic the code is written in.

`u64` and `u32` are `UInt64` and `UInt32`, which wrap as in the release
build; `U256` is `BitVec 256`.
-/
import Mathlib.Algebra.BigOperators.Group.List.Basic
import Mathlib.Algebra.GroupWithZero.Nat

namespace Aii.Common

open List BitVec

/-- `u64::checked_add`. -/
def checkedAdd64 (a b : UInt64) : Option UInt64 :=
  if a.toNat + b.toNat < 2 ^ 64 then some (a + b) else none

/-- `u64::saturating_add`. -/
def satAdd64 (a b : UInt64) : UInt64 :=
  if a.toNat + b.toNat < 2 ^ 64 then a + b else UInt64.ofNat (2 ^ 64 - 1)

/-- `u32::saturating_add`. -/
def satAdd32 (a b : UInt32) : UInt32 :=
  if a.toNat + b.toNat < 2 ^ 32 then a + b else UInt32.ofNat (2 ^ 32 - 1)

lemma toNat_add64_of_lt {a b : UInt64} (h : a.toNat + b.toNat < 2 ^ 64) :
    (a + b).toNat = a.toNat + b.toNat := by
  rw [UInt64.toNat_add, Nat.mod_eq_of_lt h]

lemma add_ofNat_toNat {x : UInt64} {n : Nat} (h : x.toNat + n < 2 ^ 64) :
    (x + UInt64.ofNat n).toNat = x.toNat + n := by
  have hn := UInt64.toNat_ofNat_of_lt' (Nat.lt_of_le_of_lt (Nat.le_add_left n _) h)
  rw [toNat_add64_of_lt (by rwa [hn]), hn]

lemma checkedAdd64_eq_some {a b c : UInt64} (h : checkedAdd64 a b = some c) :
    c.toNat = a.toNat + b.toNat := by
  unfold checkedAdd64 at h
  split at h
  next hlt => rw [← Option.some.inj h, toNat_add64_of_lt hlt]
  next => cases h

lemma satAdd64_toNat (a b : UInt64) :
    (satAdd64 a b).toNat = min (a.toNat + b.toNat) (2 ^ 64 - 1) := by
  unfold satAdd64
  split
  next hlt => rw [toNat_add64_of_lt hlt]; omega
  next hge => rw [UInt64.toNat_ofNat_of_lt' (by decide)]; omega

lemma satAdd32_toNat (a b : UInt32) :
    (satAdd32 a b).toNat = min (a.toNat + b.toNat) (2 ^ 32 - 1) := by
  unfold satAdd32
  split
  next hlt => rw [UInt32.toNat_add, Nat.mod_eq_of_lt hlt]; omega
  next hge => rw [UInt32.toNat_ofNat_of_lt' (by decide)]; omega

lemma le_satAdd32 (a b : UInt32) : a ≤ satAdd32 a b := by
  have := a.toNat_lt
  rw [UInt32.le_iff_toNat_le, satAdd32_toNat]
  omega

def satSum64 (acc : UInt64) (xs : List UInt64) : UInt64 :=
  xs.foldl satAdd64 acc

lemma satSum64_toNat (acc : UInt64) (xs : List UInt64)
    (h : acc.toNat + (xs.map UInt64.toNat).sum < 2 ^ 64) :
    (satSum64 acc xs).toNat = acc.toNat + (xs.map UInt64.toNat).sum := by
  induction xs generalizing acc with
  | nil => simp [satSum64]
  | cons x _ ih =>
    rw [map_cons, sum_cons] at h
    have hx : (satAdd64 acc x).toNat = acc.toNat + x.toNat := by
      rw [satAdd64_toNat]; omega
    have hrs := ih (satAdd64 acc x) (by omega)
    rw [satSum64, foldl_cons, map_cons, sum_cons]
    rw [satSum64] at hrs
    omega

abbrev U256 := BitVec 256

/-- The largest `U256`. -/
def u256Max : Nat := 2 ^ 256 - 1

/-- `U256::saturating_add`. -/
def satAdd256 (a b : U256) : U256 := BitVec.ofNat 256 (min (a.toNat + b.toNat) u256Max)

/-- `U256::saturating_sub`. -/
def satSub256 (a b : U256) : U256 := BitVec.ofNat 256 (a.toNat - b.toNat)

/-- `U256::saturating_mul`. -/
def satMul256 (a b : U256) : U256 := BitVec.ofNat 256 (min (a.toNat * b.toNat) u256Max)

/-- `U256::from` of a machine word. -/
def u256OfU64 (x : UInt64) : U256 := BitVec.ofNat 256 x.toNat

lemma satAdd256_toNat (a b : U256) : (satAdd256 a b).toNat = min (a.toNat + b.toNat) u256Max := by
  rw [satAdd256, toNat_ofNat, Nat.mod_eq_of_lt]
  unfold u256Max
  omega

lemma satSub256_toNat (a b : U256) : (satSub256 a b).toNat = a.toNat - b.toNat := by
  rw [satSub256, toNat_ofNat, Nat.mod_eq_of_lt]
  omega

lemma satMul256_toNat (a b : U256) : (satMul256 a b).toNat = min (a.toNat * b.toNat) u256Max := by
  rw [satMul256, toNat_ofNat, Nat.mod_eq_of_lt]
  unfold u256Max
  omega

def satSum256 (acc : U256) (xs : List U256) : U256 := xs.foldl satAdd256 acc

lemma satSum256_toNat (acc : U256) (xs : List U256) :
    (satSum256 acc xs).toNat = min (acc.toNat + (xs.map BitVec.toNat).sum) u256Max := by
  induction xs generalizing acc with
  | nil =>
    rw [satSum256, foldl_nil, map_nil, sum_nil, u256Max]
    omega
  | cons x _ ih =>
    have hrs := ih (satAdd256 acc x)
    rw [satAdd256_toNat] at hrs
    rw [satSum256, foldl_cons, map_cons, sum_cons]
    rw [satSum256] at hrs
    omega

lemma u256OfU64_toNat (x : UInt64) : (u256OfU64 x).toNat = x.toNat := by
  have hx := x.toNat_lt
  rw [u256OfU64, toNat_ofNat, Nat.mod_eq_of_lt]
  omega

end Aii.Common
