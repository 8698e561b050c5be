/-
Aii.Node.StakeLedger — histories of stake-table calls
(`aii-node/src/staking.rs`).

What is on record, plus what was paid out and slashed, is what was bonded.
-/
import Aii.Common.Runs
import Aii.Node.Staking

namespace Aii.Node

open Common

inductive StakeOp where
  | bond (delta : U256)
  | beginUnbond (currentHeight unbondingPeriod : UInt64)
  | withdraw (currentHeight : UInt64)
  | slash (delta : U256)

structure StakeCall where
  addr : Address
  op : StakeOp

open StakeCall

namespace StakeCall

def exec (b : Backend) (call : StakeCall) : Backend :=
  match call.op with
  | .bond delta => StakeTable.bond b call.addr delta
  | .beginUnbond height period => (StakeTable.beginUnbond b call.addr height period).toOption.getD b
  | .withdraw height => (StakeTable.withdraw b call.addr height).1
  | .slash delta => (StakeTable.slash b call.addr delta).toOption.getD b

def after (b : Backend) (calls : List StakeCall) : Backend := calls.foldl exec b

/-- What the call adds to the stake of `a`. -/
def bonded (a : Address) (_ : Backend) (call : StakeCall) : Nat :=
  match call.op with
  | .bond delta => if call.addr = a then delta.toNat else 0
  | _ => 0

/-- What the call pays out of the stake of `a`. -/
def paid (a : Address) (b : Backend) (call : StakeCall) : Nat :=
  match call.op with
  | .withdraw height =>
    if call.addr = a then ((StakeTable.withdraw b a height).2.getD 0).toNat else 0
  | _ => 0

def slashed (a : Address) (b : Backend) (call : StakeCall) : Nat :=
  match call.op with
  | .slash delta =>
    if call.addr = a then min delta.toNat (StakeTable.amountOf b a).toNat else 0
  | _ => 0

def Fits (b : Backend) (call : StakeCall) : Prop :=
  match call.op with
  | .bond delta => (StakeTable.amountOf b call.addr).toNat + delta.toNat < 2 ^ 256
  | .beginUnbond height period => height.toNat + period.toNat < 2 ^ 64
  | .withdraw _ => True
  | .slash _ => True

instance (b : Backend) (call : StakeCall) : Decidable (call.Fits b) := by
  obtain ⟨addr, op⟩ := call
  cases op <;> unfold Fits <;> infer_instance

/-- The calls that write the unbonding height of `a`. -/
def SetsTimer (a : Address) (call : StakeCall) : Prop :=
  call.addr = a ∧ ((∃ delta, call.op = .bond delta) ∨
    ∃ height period, call.op = .beginUnbond height period)

end StakeCall

namespace StakeTable

variable {b : Backend} {addr a : Address}

/-! ## What a call does to a record -/

lemma get_delete_self (b : Backend) (addr : Address) :
    get (b.delete .metaCf (key addr)) addr = none := by
  rw [get, Backend.get_delete_self, Option.bind_none]

lemma get_delete_ne (h : a ≠ addr) : get (b.delete .metaCf (key addr)) a = get b a := by
  rw [get, Backend.get_delete_ne fun _ heq => h (key_inj heq), get]

lemma amountOf_of_none (h : get b addr = none) : amountOf b addr = 0 := by
  rw [amountOf, h]
  rfl

/-- What a call does: it writes a record with its own address, sweeps it,
or leaves the store as it is. -/
inductive Step (b : Backend) (addr : Address) : StakeOp → Backend → Prop
  | bond (delta : U256) :
      Step b addr (.bond delta) (putRecord b addr (satAdd256 (amountOf b addr) delta) 0)
  | beginUnbond (height period : UInt64) (prev : StakeRecord) (found : get b addr = some prev) :
      Step b addr (.beginUnbond height period)
        (putRecord b addr prev.amountWei (satAdd64 height period))
  | sweep (height : UInt64) (rec : StakeRecord) (found : get b addr = some rec)
      (due : rec.unbondAt ≠ 0 ∧ rec.unbondAt ≤ height)
      (pays : (withdraw b addr height).2 = some rec.amountWei) :
      Step b addr (.withdraw height) (b.delete .metaCf (key addr))
  | slash (delta : U256) (prev : StakeRecord) (found : get b addr = some prev) :
      Step b addr (.slash delta)
        (putRecord b addr (satSub256 prev.amountWei delta) prev.unbondAt)
  | noRecord (op : StakeOp) (missing : get b addr = none) (notBond : ∀ delta, op ≠ .bond delta) :
      Step b addr op b
  | early (height : UInt64) (pays : (withdraw b addr height).2 = none) :
      Step b addr (.withdraw height) b

lemma withdraw_pays_iff {height : UInt64} {amount : U256} :
    (withdraw b addr height).2 = some amount ↔
      ∃ rec, get b addr = some rec ∧ rec.unbondAt ≠ 0 ∧ rec.unbondAt ≤ height ∧
        rec.amountWei = amount := by
  unfold withdraw
  cases hg : get b addr with
  | none => simp
  | some rec =>
    dsimp only
    split_ifs with hwa
    · constructor
      · rintro ⟨⟩
      · grind
    · obtain ⟨hbn, hd⟩ := not_or.mp hwa
      rw [Option.some.injEq]
      constructor
      · grind
      · grind

lemma step_exec (b : Backend) (call : StakeCall) : Step b call.addr call.op (call.exec b) := by
  obtain ⟨addr, op⟩ := call
  unfold exec
  cases op with
  | bond delta => exact .bond delta
  | beginUnbond height period =>
    unfold beginUnbond
    cases hg : get b addr with
    | none => exact .noRecord _ hg (by rintro _ ⟨⟩)
    | some prev => exact .beginUnbond height period prev hg
  | withdraw height =>
    dsimp only
    cases hp : (withdraw b addr height).2 with
    | none =>
      have hkp : (withdraw b addr height).1 = b := by
        unfold withdraw at hp ⊢
        cases hg : get b addr with
        | none => rfl
        | some => grind
      rw [hkp]
      exact .early height hp
    | some =>
      obtain ⟨rec, hg, hbn, hd, rfl⟩ := withdraw_pays_iff.mp hp
      have hs : (withdraw b addr height).1 = b.delete .metaCf (key addr) := by
        rw [withdraw, hg]
        dsimp only
        rw [if_neg (not_or.mpr ⟨hbn, UInt64.not_lt.mpr hd⟩)]
      rw [hs]
      exact .sweep height rec hg ⟨hbn, hd⟩ hp
  | slash delta =>
    dsimp only
    unfold slash
    cases hg : get b addr with
    | none => exact .noRecord _ hg (by rintro _ ⟨⟩)
    | some prev => exact .slash delta prev hg

section Step

variable {b' : Backend} {op : StakeOp}

lemma Step.frame (h : Step b addr op b') (ha : a ≠ addr) : get b' a = get b a := by
  cases h with
  | bond | beginUnbond | slash => exact get_putRecord_ne _ _ ha
  | sweep => exact get_delete_ne ha
  | noRecord | early => rfl

lemma amountOf_putRecord_self (amount : U256) (unbondAt : UInt64) :
    amountOf (putRecord b addr amount unbondAt) addr = amount :=
  amountOf_of_get (get_putRecord_self addr amount unbondAt)

variable (h : Step b addr op b') (hfi : StakeCall.Fits b ⟨addr, op⟩)

include h hfi

lemma Step.balance : (amountOf b' addr).toNat +
        (paid addr b ⟨addr, op⟩ + slashed addr b ⟨addr, op⟩) =
      (amountOf b addr).toNat + bonded addr b ⟨addr, op⟩ := by
  unfold paid slashed bonded
  cases h with
  | bond delta =>
    have hfi : (amountOf b addr).toNat + delta.toNat < 2 ^ 256 := hfi
    simp only [if_true]
    rw [amountOf_putRecord_self, satAdd256_toNat, u256Max]
    omega
  | beginUnbond _ _ _ found =>
    rw [amountOf_putRecord_self, amountOf_of_get found]
    rfl
  | sweep _ _ found _ pays =>
    simp only [if_true]
    rw [pays, amountOf_of_get found, amountOf_of_none (get_delete_self b addr)]
    simp
  | slash _ _ found =>
    simp only [if_true]
    rw [amountOf_putRecord_self, amountOf_of_get found, satSub256_toNat]
    omega
  | noRecord op missing notBond =>
    cases op with
    | bond delta => exact absurd rfl (notBond delta)
    | beginUnbond => rfl
    | withdraw =>
      simp only [if_true]
      rw [withdraw, missing]
      rfl
    | slash =>
      simp only [if_true]
      rw [amountOf_of_none missing]
      simp
  | early _ pays => grind

lemma Step.unbondAt {rec : StakeRecord} (hr : get b' addr = some rec) (hne : rec.unbondAt ≠ 0) :
    ∃ old, get b addr = some old ∧ ((∃ height period, op = .beginUnbond height period ∧
          rec.unbondAt.toNat = height.toNat + period.toNat) ∨
        ¬ StakeCall.SetsTimer addr ⟨addr, op⟩ ∧ old.unbondAt = rec.unbondAt) := by
  cases h with
  | bond =>
    rw [get_putRecord_self] at hr
    cases hr
    exact absurd rfl hne
  | beginUnbond height period prev found =>
    have hfi : height.toNat + period.toNat < 2 ^ 64 := hfi
    rw [get_putRecord_self] at hr
    cases hr
    refine ⟨prev, found, .inl ⟨height, period, rfl, ?_⟩⟩
    rw [satAdd64_toNat]
    omega
  | sweep =>
    rw [get_delete_self] at hr
    cases hr
  | slash _ prev found =>
    rw [get_putRecord_self] at hr
    cases hr
    exact ⟨prev, found, .inr ⟨by simp [StakeCall.SetsTimer], rfl⟩⟩
  | noRecord _ missing =>
    rw [missing] at hr
    cases hr
  | early =>
    exact ⟨rec, hr, .inr ⟨by simp [StakeCall.SetsTimer], rfl⟩⟩

end Step

end StakeTable

namespace StakeCall

open StakeTable

variable {b : Backend} {a : Address} {calls : List StakeCall}

lemma exec_balance (a : Address) (b : Backend) (call : StakeCall) (hfi : call.Fits b) :
    (amountOf (call.exec b) a).toNat + (paid a b call + slashed a b call) =
      (amountOf b a).toNat + bonded a b call := by
  have hsp := step_exec b call
  by_cases ha : a = call.addr
  · subst ha
    exact hsp.balance hfi
  · have ham : amountOf (call.exec b) a = amountOf b a := by
      rw [amountOf, hsp.frame ha, amountOf]
    have hoh : ¬ call.addr = a := fun h => ha h.symm
    unfold paid slashed bonded
    rw [ham]
    cases call.op <;> simp only [if_neg hoh]

/-- An unbonding height on record was written by an unbond, after which
the address did not bond. -/
def Timed (b : Backend) (a : Address) (calls : List StakeCall) : Prop :=
  ∀ rec, get (after b calls) a = some rec → rec.unbondAt ≠ 0 → ∃ before height period,
      Latest (SetsTimer a) calls before ⟨a, .beginUnbond height period⟩ ∧
        (get (after b before) a).isSome ∧ rec.unbondAt.toNat = height.toNat + period.toNat

lemma after_concat (b : Backend) (calls : List StakeCall) (call : StakeCall) :
    after b (calls ++ [call]) = call.exec (after b calls) := by
  rw [after, List.foldl_append, List.foldl_cons, List.foldl_nil, after]

lemma Timed.concat {call : StakeCall} (ht : Timed b a calls)
    (hfi : call.Fits (after b calls)) : Timed b a (calls ++ [call]) := by
  intro rec hr hne
  rw [after_concat] at hr
  have hsp := step_exec (after b calls) call
  have hke : ∀ old, get (after b calls) a = some old → ¬ SetsTimer a call →
      old.unbondAt = rec.unbondAt → ∃ before height period,
        Latest (SetsTimer a) (calls ++ [call]) before ⟨a, .beginUnbond height period⟩ ∧
          (get (after b before) a).isSome ∧ rec.unbondAt.toNat = height.toNat + period.toNat := by
    intro old ho hs heq
    obtain ⟨before, height, period, hlatest, hfo, hsm⟩ := ht old ho (heq ▸ hne)
    exact ⟨before, height, period, latest_concat_iff.mpr (.inr ⟨hs, hlatest⟩), hfo, heq ▸ hsm⟩
  by_cases ha : a = call.addr
  · subst ha
    obtain ⟨old, ho, ⟨height, period, hop, hsm⟩ | ⟨hs, heq⟩⟩ := hsp.unbondAt hfi hr hne
    · obtain ⟨addr, op⟩ := call
      obtain rfl : op = .beginUnbond height period := hop
      exact ⟨calls, height, period,
        latest_concat_iff.mpr (.inl ⟨⟨rfl, .inr ⟨height, period, rfl⟩⟩, rfl, rfl⟩),
        Option.isSome_of_eq_some ho, hsm⟩
    · exact hke old ho hs heq
  · rw [hsp.frame ha] at hr
    exact hke rec hr (fun h => ha h.1.symm) rfl

lemma timed_of_fits (hn : get b a = none)
    (hfi : Along exec (fun b call => call.Fits b) b calls) : Timed b a calls := by
  induction calls using List.reverseRecOn with
  | nil =>
    intro rec hr
    rw [after, List.foldl_nil, hn] at hr
    cases hr
  | append_singleton _ _ ih =>
    obtain ⟨hbf, hlast⟩ := hfi.of_append
    exact (ih hbf).concat hlast.1

/-- **Stake ledger**: what is on record, paid and slashed is what was
bonded, and payouts wait. -/
theorem stake_ledger_law (b : Backend) (a : Address) (hnew : get b a = none)
    (calls : List StakeCall) (hfits : Along exec (fun b call => call.Fits b) b calls) :
    (amountOf (after b calls) a).toNat + sumAlong exec (paid a) b calls +
        sumAlong exec (slashed a) b calls = sumAlong exec (bonded a) b calls ∧
      (∀ earlier later height amount, calls = earlier ++ ⟨a, .withdraw height⟩ :: later →
        (withdraw (after b earlier) a height).2 = some amount → ∃ before start period between,
          earlier = before ++ ⟨a, .beginUnbond start period⟩ :: between ∧
            (get (after b before) a).isSome ∧ start.toNat + period.toNat ≤ height.toNat ∧
            ∀ delta, ⟨a, .bond delta⟩ ∉ between) ∧
      ∀ earlier call later, calls = earlier ++ call :: later → call.addr ≠ a →
        get (after b (earlier ++ [call])) a = get (after b earlier) a := by
  refine ⟨?_, ?_, ?_⟩
  · have hb := Along.balance (fun b => (amountOf b a).toNat) (bonded a)
      (fun b call => paid a b call + slashed a b call) (exec_balance a) hfits
    rw [sumAlong_add, amountOf_of_none hnew] at hb
    rw [after]
    simpa [Nat.add_assoc] using hb
  · rintro earlier later height amount rfl hp
    obtain ⟨rec, hr, hne, hd, -⟩ := withdraw_pays_iff.mp hp
    obtain ⟨before, start, period, ⟨between, hsi, -, hq⟩, hfo, hs⟩ :=
      timed_of_fits hnew hfits.of_append.1 rec hr hne
    refine ⟨before, start, period, between, hsi, hfo, hs ▸ hd, fun delta hm => ?_⟩
    exact hq _ hm ⟨rfl, .inl ⟨delta, rfl⟩⟩
  · rintro earlier call later - hoh
    rw [after_concat]
    exact (step_exec _ call).frame hoh.symm

def sampleStakeCalls : List StakeCall :=
  [⟨arrOfNat 20 1, .bond 5⟩, ⟨arrOfNat 20 2, .bond 7⟩, ⟨arrOfNat 20 1, .beginUnbond 1 2⟩,
    ⟨arrOfNat 20 1, .slash 2⟩, ⟨arrOfNat 20 1, .withdraw 3⟩]

theorem sampleStakeCalls_ledger : sumAlong exec (paid (arrOfNat 20 1)) .empty sampleStakeCalls = 3 ∧
      (amountOf (after .empty sampleStakeCalls) (arrOfNat 20 1)).toNat +
          sumAlong exec (paid (arrOfNat 20 1)) .empty sampleStakeCalls +
          sumAlong exec (slashed (arrOfNat 20 1)) .empty sampleStakeCalls =
        sumAlong exec (bonded (arrOfNat 20 1)) .empty sampleStakeCalls :=
  ⟨by decide +kernel,
    (stake_ledger_law .empty (arrOfNat 20 1) (by decide) sampleStakeCalls (by decide +kernel)).1⟩

end StakeCall

end Aii.Node
