/-
Aii.Node.Precompile — the staking and governance calls
(`aii-node/src/precompile.rs`).

`dispatch` is given the sender and the value, but neither the nonce nor
the account state.
-/
import Aii.Node.Dpos
import Aii.Node.Governance

namespace Aii.Node

open Common List Except StakeTable

/-- `0x0000000000000000000000000000000000000099`. -/
def PRECOMPILE_ADDR : Address := arrOfNat 20 0x99

/-- `bond()`. -/
def OP_BOND : Bytes := [0x64, 0xc9, 0xec, 0x6f]

/-- `beginUnbond()`. -/
def OP_BEGIN_UNBOND : Bytes := [0x3f, 0x17, 0x2c, 0xef]

/-- `withdraw()`. -/
def OP_WITHDRAW : Bytes := [0x3c, 0xcf, 0xd6, 0x0b]

/-- `propose(uint64,string)`. -/
def OP_PROPOSE : Bytes := [0x37, 0x03, 0x8a, 0x1d]

/-- `vote(uint64,bool)`. -/
def OP_VOTE : Bytes := [0xc7, 0xf2, 0x15, 0x60]

/-- `registerValidator(bytes,bytes)`. -/
def OP_REGISTER_VALIDATOR : Bytes := [0x22, 0x6f, 0x26, 0x45]

inductive PrecompileOutcome where
  | bonded (staker : Address) (amount : U256)
  | unbondStarted (staker : Address)
  | withdrawn (staker : Address) (amount : U256)
  | proposed (id : UInt64)
  | voted (id : UInt64) (support : Bool)
  | validatorRegistered (staker : Address)
  deriving DecidableEq

inductive PrecompileError where
  | invalidOpcode
  | invalidArgs (msg : String)
  | backend (msg : String)
  deriving DecidableEq

/-- What a call that succeeded leaves behind. -/
abbrev DispatchResult := Except PrecompileError (Backend × PrecompileOutcome)

/-- The call as `dispatch` gets it. -/
structure PrecompileCall where
  sender : Address
  value : U256
  data : Bytes
  blockHeight : UInt64
  unbondingPeriodBlocks : UInt64

variable (c : Crypto)

/-- `OP_BOND`. -/
def dispatchBond (b : Backend) (call : PrecompileCall) : DispatchResult :=
  if call.value = 0 then .error (.invalidArgs "bond value is zero")
  else .ok (StakeTable.bond b call.sender call.value, .bonded call.sender call.value)

/-- `OP_BEGIN_UNBOND`. -/
def dispatchBeginUnbond (b : Backend) (call : PrecompileCall) : DispatchResult :=
  match StakeTable.beginUnbond b call.sender call.blockHeight call.unbondingPeriodBlocks with
  | .error e => .error (.backend e)
  | .ok b' => .ok (b', .unbondStarted call.sender)

/-- `OP_WITHDRAW`. -/
def dispatchWithdraw (b : Backend) (call : PrecompileCall) : DispatchResult :=
  let out := StakeTable.withdraw b call.sender call.blockHeight
  .ok (out.1, .withdrawn call.sender (out.2.getD 0))

/-- `OP_PROPOSE`: `voting_ends_at_be8 ‖ title_len_be4 ‖ title_utf8`. -/
def dispatchPropose (b : Backend) (call : PrecompileCall) (args : Bytes) : DispatchResult :=
  if args.length < 8 + 4 then .error (.invalidArgs "propose args truncated")
  else
    let votingEndsAt := u64OfBe (args.take 8)
    let titleLen := ofBe ((args.drop 8).take 4)
    if args.length < 12 + titleLen then
      .error (.invalidArgs "propose title length overflows args")
    else
      let title := (args.drop 12).take titleLen
      match utf8Error? title with
      | some e => .error (.invalidArgs ("propose title: " ++ e.text))
      | none =>
        let out := Governance.propose b call.sender title votingEndsAt
        .ok (out.1, .proposed out.2)

/-- `OP_VOTE`: `proposal_id_be8 ‖ support_byte`. -/
def dispatchVote (b : Backend) (call : PrecompileCall) (args : Bytes) : DispatchResult :=
  if args.length ≠ 8 + 1 then .error (.invalidArgs "vote args must be 9 bytes")
  else
    let proposalId := u64OfBe (args.take 8)
    let support := args.getD 8 0 != 0
    match Governance.castVote b proposalId call.sender support call.blockHeight with
    | .error e => .error (.backend e)
    | .ok (b', _) => .ok (b', .voted proposalId support)

/-- `OP_REGISTER_VALIDATOR`: `bls_pubkey[48] ‖ vrf_pubkey[32]`. -/
def dispatchRegister (b : Backend) (call : PrecompileCall) (args : Bytes) : DispatchResult :=
  if call.value ≠ 0 then .error (.invalidArgs "registerValidator value must be zero")
  else
    match arr? 48 (args.take 48), arr? 32 (args.drop 48) with
    | some bls, some vrf =>
      if !c.blsPubkeyOk bls then
        .error (.invalidArgs "bls_pubkey: invalid encoding: BLS pubkey decompression failed")
      else if !c.vrfPubkeyOk vrf then
        .error (.invalidArgs "vrf_pubkey: invalid encoding: schnorrkel VRF decoding failed")
      else .ok (ValidatorRegistry.register b call.sender ⟨bls, vrf⟩,
        .validatorRegistered call.sender)
    | _, _ => .error (.invalidArgs "registerValidator args must be 80 bytes")

def dispatch (b : Backend) (call : PrecompileCall) : DispatchResult :=
  if call.data.length < 4 then .error .invalidOpcode
  else
    let opcode := call.data.take 4
    let args := call.data.drop 4
    if opcode = OP_BOND then dispatchBond b call
    else if opcode = OP_BEGIN_UNBOND then dispatchBeginUnbond b call
    else if opcode = OP_WITHDRAW then dispatchWithdraw b call
    else if opcode = OP_PROPOSE then dispatchPropose b call args
    else if opcode = OP_VOTE then dispatchVote b call args
    else if opcode = OP_REGISTER_VALIDATOR then dispatchRegister c b call args
    else .error .invalidOpcode

def afterDispatch (b : Backend) (call : PrecompileCall) : Backend :=
  match dispatch c b call with
  | .ok (b', _) => b'
  | .error _ => b

inductive GovernanceKey : Bytes → Prop
  | prop (id : UInt64) : GovernanceKey (Governance.propKey id)
  | vote (id : UInt64) (voter : Address) : GovernanceKey (Governance.voteKey id voter)
  | registry (addr : Address) : GovernanceKey (ValidatorRegistry.key addr)

inductive DispatchStep (b : Backend) (call : PrecompileCall) :
    Backend → PrecompileOutcome → Prop
  | bond (op : call.data.take 4 = OP_BOND) (nonzero : call.value ≠ 0) :
      DispatchStep b call (StakeTable.bond b call.sender call.value)
        (.bonded call.sender call.value)
  | beginUnbond (prev : StakeRecord) (op : call.data.take 4 = OP_BEGIN_UNBOND)
      (found : StakeTable.get b call.sender = some prev) :
      DispatchStep b call
        (StakeTable.putRecord b call.sender prev.amountWei
          (satAdd64 call.blockHeight call.unbondingPeriodBlocks))
        (.unbondStarted call.sender)
  | sweep (rec : StakeRecord) (op : call.data.take 4 = OP_WITHDRAW)
      (found : StakeTable.get b call.sender = some rec)
      (due : ¬ (rec.unbondAt = 0 ∨ call.blockHeight < rec.unbondAt)) :
      DispatchStep b call (b.delete .metaCf (StakeTable.key call.sender))
        (.withdrawn call.sender rec.amountWei)
  | idle (op : call.data.take 4 = OP_WITHDRAW)
      (nothing : StakeTable.withdraw b call.sender call.blockHeight = (b, none)) :
      DispatchStep b call b (.withdrawn call.sender 0)
  | store (k v : Bytes) (out : PrecompileOutcome) (key : GovernanceKey k)
      (op : call.data.take 4 ∈ [OP_PROPOSE, OP_VOTE, OP_REGISTER_VALIDATOR]) :
      DispatchStep b call (b.put .metaCf k v) out

section Inversion

variable {c} {b b' : Backend} {call : PrecompileCall} {out : PrecompileOutcome} {args : Bytes}
  {k : Bytes}

lemma dispatchWithdraw_step (hop : call.data.take 4 = OP_WITHDRAW)
    (h : dispatchWithdraw b call = .ok (b', out)) : DispatchStep b call b' out := by
  cases h
  cases hg : get b call.sender with
  | none =>
    have hw : withdraw b call.sender call.blockHeight = (b, none) := by
      rw [withdraw, hg]
    rw [hw]
    exact .idle hop hw
  | some rec =>
    by_cases hd : rec.unbondAt = 0 ∨ call.blockHeight < rec.unbondAt
    · have hw : withdraw b call.sender call.blockHeight = (b, none) := by
        rw [withdraw, hg]
        exact if_pos hd
      rw [hw]
      exact .idle hop hw
    · have hw : withdraw b call.sender call.blockHeight =
          (b.delete .metaCf (key call.sender), some rec.amountWei) := by
        rw [withdraw, hg]
        exact if_neg hd
      rw [hw]
      exact .sweep rec hop hg hd

lemma dispatchPropose_step (hop : call.data.take 4 = OP_PROPOSE)
    (h : dispatchPropose b call args = .ok (b', out)) : DispatchStep b call b' out := by
  unfold dispatchPropose at h
  dsimp only at h
  split_ifs at h
  split at h
  · cases h
  · cases h
    exact .store _ _ _ (.prop _) (by simp [hop])

lemma castVote_ok {id : UInt64} {voter : Address} {support : Bool} {height : UInt64}
    {vote : GovVote} (h : Governance.castVote b id voter support height = .ok (b', vote)) :
    b' = b.put .metaCf (Governance.voteKey id voter) (Governance.encodeVote vote) := by
  unfold Governance.castVote at h
  split at h
  · cases h
  split_ifs at h
  split at h
  · cases h
  split_ifs at h
  cases h
  rfl

lemma dispatchVote_step (hop : call.data.take 4 = OP_VOTE)
    (h : dispatchVote b call args = .ok (b', out)) : DispatchStep b call b' out := by
  unfold dispatchVote at h
  dsimp only at h
  split_ifs at h
  split at h
  · cases h
  next hvt =>
    cases h
    rw [castVote_ok hvt]
    exact .store _ _ _ (.vote _ _) (by simp [hop])

lemma dispatchRegister_step (hop : call.data.take 4 = OP_REGISTER_VALIDATOR)
    (h : dispatchRegister c b call args = .ok (b', out)) : DispatchStep b call b' out := by
  unfold dispatchRegister at h
  split_ifs at h
  split at h
  · split_ifs at h
    cases h
    exact .store _ _ _ (.registry _) (by simp [hop])
  · cases h

lemma dispatch_step (h : dispatch c b call = .ok (b', out)) : DispatchStep b call b' out := by
  unfold dispatch at h
  dsimp only at h
  split_ifs at h with _ hb hu hw hp hvt hr
  · unfold dispatchBond at h
    split_ifs at h with hzr
    cases h
    exact .bond hb hzr
  · unfold dispatchBeginUnbond beginUnbond at h
    cases hg : get b call.sender with
    | none => simp [hg] at h
    | some prev =>
      simp only [hg] at h
      cases h
      exact .beginUnbond prev hu hg
  · exact dispatchWithdraw_step hw h
  · exact dispatchPropose_step hp h
  · exact dispatchVote_step hvt h
  · exact dispatchRegister_step hr h

lemma GovernanceKey.excludes {q : Bytes} (h : GovernanceKey k)
    (hq : ∀ p ∈ [Governance.PROP_PREFIX, Governance.VOTE_PREFIX, ValidatorRegistry.KEY_PREFIX],
      Apart p q) : ¬ q <+: k := by
  simp only [forall_mem_cons, not_mem_nil, false_implies, implies_true, and_true] at hq
  obtain ⟨hpp, hvt, hr⟩ := hq
  cases h with
  | prop => exact prefix_excludes (prefix_append _ _) hpp
  | vote =>
    rw [Governance.voteKey, append_assoc]
    exact prefix_excludes (prefix_append _ _) hvt
  | registry => exact prefix_excludes (prefix_append _ _) hr

lemma GovernanceKey.not_epoch (h : GovernanceKey k) : ¬ Dpos.KEY_PREFIX <+: k :=
  h.excludes (by decide)

end Inversion

end Aii.Node
