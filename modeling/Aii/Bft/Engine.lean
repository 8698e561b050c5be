/-
Aii.Bft.Engine — the chain-level consensus engine
(`aii-consensus-bft/src/engine.rs`).

A method is a function from the engine to the engine it leaves behind and
its result.
-/
import Aii.Bft.Coordinator
import Aii.Bft.Slashing
import Aii.Chain.Trie

namespace Aii.Bft

open Common Chain

/-! ## Configuration and state -/

structure PostBlockRoots where
  stateRoot : H256
  receiptsRoot : H256
  logsBloom : Bloom
  gasUsed : UInt64
  deriving DecidableEq

/-- `BlockExecutor::execute_for_proposal` at the current host state;
`none` is an error. -/
abbrev Executor := BlockBody → Address → UInt64 → Option PostBlockRoots

/-- `BftConfig` without the oracle. -/
structure BftConfig where
  validatorSet : ValidatorSet
  myIndex : UInt32
  myBlsSk : BlsSecretKey
  myVrfSk : VrfSecretKey
  initialSeed : Arr 32
  coinbase : Address
  gasLimit : UInt64
  baseFeePerGas : U256
  slotSeconds : UInt64
  deriving DecidableEq

/-- Gas charged per transaction when no oracle is configured. -/
def PLACEHOLDER_TX_GAS : UInt64 := 21000

def RECENT_BLOCKS_CAP : Nat := 64

/-- `BftEngine` with its locked state. -/
structure BftEngine where
  config : BftConfig
  validatorSet : ValidatorSet
  myIndex : UInt32
  headHash : H256
  headNumber : UInt64
  headTimestamp : UInt64
  seed : Arr 32
  coordinator : Option RoundCoordinator
  proposal : Option (Block × LeaderProof)
  detector : EquivocationDetector
  pendingEvidence : List EquivocationEvidence
  pendingPrevotes : List PrevoteVote
  pendingPrecommits : List PrecommitVote
  recentBlocks : List (Block × PrecommitCertificate)
  pendingTxs : List Tx
  deriving DecidableEq

namespace BftEngine

variable (c : Crypto)

def fresh (config : BftConfig) (head : Block) (seed : Arr 32) : BftEngine where
  config := config
  validatorSet := config.validatorSet
  myIndex := config.myIndex
  headHash := head.hash c
  headNumber := head.header.number
  headTimestamp := head.header.timestamp
  seed := seed
  coordinator := none
  proposal := none
  detector := .new
  pendingEvidence := []
  pendingPrevotes := []
  pendingPrecommits := []
  recentBlocks := []
  pendingTxs := []

def new (config : BftConfig) (genesis : Block) : BftEngine :=
  fresh c config genesis config.initialSeed

def fromRecovered (config : BftConfig) (head : Block) : BftEngine :=
  fresh c config head (if head.header.number = 0 then config.initialSeed else head.header.mixHash)

def setPendingTxs (e : BftEngine) (txs : List Tx) : BftEngine := { e with pendingTxs := txs }

def extendPendingTxs (e : BftEngine) (txs : List Tx) : BftEngine :=
  { e with pendingTxs := e.pendingTxs ++ txs }

def currentRoundState (e : BftEngine) : Option (UInt64 × UInt32 × Phase) :=
  e.coordinator.map fun co => (co.height, co.round, co.phase)

def currentLeaderIndex (e : BftEngine) : Option Nat := e.coordinator.map (·.leaderIndex c)

def wouldBeLeaderNextHeight (e : BftEngine) : Bool :=
  e.validatorSet.selectLeader c (satAdd64 e.headNumber 1) 0 e.seed == e.myIndex.toNat

def committedBlockAt (e : BftEngine) (height : UInt64) : Option (Block × PrecommitCertificate) :=
  e.recentBlocks.find? fun entry => entry.1.header.number == height

/-! ## Blocks -/

/-- Insert into the cache, ordered by height, replacing an equal height. -/
def insertRecent (entry : Block × PrecommitCertificate) :
    List (Block × PrecommitCertificate) → List (Block × PrecommitCertificate)
  | [] => [entry]
  | x :: xs =>
    if entry.1.header.number < x.1.header.number then entry :: x :: xs
    else if entry.1.header.number = x.1.header.number then entry :: xs
    else x :: insertRecent entry xs

/-- `cache_recent_block`: insert, then evict the lowest heights. -/
def cacheRecentBlock (recent : List (Block × PrecommitCertificate)) (block : Block)
    (cert : PrecommitCertificate) : List (Block × PrecommitCertificate) :=
  let map := insertRecent (block, cert) recent
  map.drop (map.length - RECENT_BLOCKS_CAP)

def placeholderRoots (body : BlockBody) : PostBlockRoots where
  stateRoot := EMPTY_TRIE_HASH
  receiptsRoot := EMPTY_TRIE_HASH
  logsBloom := Arr.zero 256
  gasUsed := UInt64.ofNat body.transactions.length * PLACEHOLDER_TX_GAS

/-- The roots `build_block_with_body` puts into the header. -/
def rootsFor (ex : Option Executor) (body : BlockBody) (coinbase : Address) (height : UInt64) :
    PostBlockRoots :=
  match ex with
  | none => placeholderRoots body
  | some execute => (execute body coinbase height).getD (placeholderRoots body)

def buildBlockWithBody (ex : Option Executor) (config : BftConfig) (parentHash : H256)
    (parentTimestamp height : UInt64) (proof : LeaderProof) (coinbase : Address)
    (body : BlockBody) : Block :=
  let roots := rootsFor ex body coinbase height
  { header :=
      { parentHash := parentHash
        ommersHash := EMPTY_LIST_HASH
        beneficiary := coinbase
        stateRoot := roots.stateRoot
        transactionsRoot := transactionsRoot c body
        receiptsRoot := roots.receiptsRoot
        logsBloom := roots.logsBloom
        difficulty := 0
        number := height
        gasLimit := config.gasLimit
        gasUsed := roots.gasUsed
        timestamp := parentTimestamp + config.slotSeconds
        extraData := ascii ['a', 'i', 'i', '-', 'b', 'f', 't']
        mixHash := proof.vrfOutput
        nonce := Arr.zero 8
        baseFeePerGas := config.baseFeePerGas
        withdrawalsRoot := EMPTY_TRIE_HASH
        blobGasUsed := none
        excessBlobGas := none
        parentBeaconBlockRoot := none }
    body := body }

/-- `reconstruct_proposed_block_with_body`. -/
def reconstruct (ex : Option Executor) (e : BftEngine) (height : UInt64) (proof : LeaderProof)
    (coinbase : Address) (body : BlockBody) : Block :=
  buildBlockWithBody c ex e.config e.headHash e.headTimestamp height proof coinbase body

def ensureCoordinator (e : BftEngine) : BftEngine :=
  match e.coordinator with
  | some _ => e
  | none =>
    { e with coordinator := some (RoundCoordinator.new (e.headNumber + 1) e.seed e.validatorSet) }

lemma ensureCoordinator_active {e : BftEngine} {co : RoundCoordinator}
    (h : e.coordinator = some co) : e.ensureCoordinator = e := by
  rw [ensureCoordinator, h]

/-- `fast_forward_to_round`: a NEW coordinator, timed out `targetRound`
times. -/
def fastForwardToRound (e : BftEngine) (targetRound : UInt32) : Except BftError BftEngine :=
  let nextHeight := e.headNumber + 1
  if e.coordinator.any (·.height ≠ nextHeight) then .error .wrongHeight
  else
    .ok { e with
      coordinator := some (RoundCoordinator.fireTimeouts targetRound.toNat
        (RoundCoordinator.new nextHeight e.seed e.validatorSet)) }

def rotateValidatorSet (e : BftEngine) (vs : ValidatorSet) (myIndex : UInt32) :
    Except BftError BftEngine :=
  if vs.size ≤ myIndex.toNat then .error (.validatorIndexOutOfBounds myIndex vs.size)
  else if e.coordinator.isSome || e.proposal.isSome then .error .activeRoundInProgress
  else
    .ok { e with
      pendingPrevotes := [], pendingPrecommits := [], validatorSet := vs, myIndex := myIndex }

lemma rotateValidatorSet_ok {e e' : BftEngine} {vs : ValidatorSet} {i : UInt32}
    (h : e.rotateValidatorSet vs i = .ok e') :
    e.coordinator = none ∧ e.proposal = none ∧ e' = { e with
      pendingPrevotes := [], pendingPrecommits := [], validatorSet := vs, myIndex := i } := by
  unfold rotateValidatorSet at h
  split_ifs at h with _ hil
  simp [Bool.or_eq_true, not_or] at hil
  exact ⟨hil.1, hil.2, (Except.ok.inj h).symm⟩

/-! ## Votes that arrived early

The PRE-VOTE and PRE-COMMIT buffers are handled by the same code, over
the buffer and the coordinator method of the phase. -/

def pending (e : BftEngine) : VotePhase → List Vote
  | .prevote => e.pendingPrevotes
  | .precommit => e.pendingPrecommits

def setPending (e : BftEngine) (p : VotePhase) (votes : List Vote) : BftEngine :=
  match p with
  | .prevote => { e with pendingPrevotes := votes }
  | .precommit => { e with pendingPrecommits := votes }

def isEarly : BftError → Bool
  | .wrongPhase _ _ | .wrongRound | .wrongHeight => true
  | _ => false

/-- Run buffered votes of phase `p` through the coordinator: the votes
still too early, and whether any vote was applied. -/
def drainPass (p : VotePhase) : RoundCoordinator → List Vote → RoundCoordinator × List Vote × Bool
  | co, [] => (co, [], false)
  | co, v :: vs =>
    match co.submitVote c p v with
    | .ok co' =>
      let (co'', left, _) := drainPass p co' vs
      (co'', left, true)
    | .error e =>
      let (co', left, applied) := drainPass p co vs
      (co', if isEarly e then v :: left else left, applied)

def dropStale (e : BftEngine) : BftEngine :=
  { e with
    pendingPrevotes := e.pendingPrevotes.filter (e.headNumber < ·.height)
    pendingPrecommits := e.pendingPrecommits.filter (e.headNumber < ·.height) }

/-- One iteration of the loop of `drain_pending_votes`; the flag says
whether the loop goes on. -/
def drainOnce (e : BftEngine) : BftEngine × Bool :=
  let e := e.dropStale
  match e.coordinator with
  | none => (e, false)
  | some co =>
    let prev := drainPass c .prevote co e.pendingPrevotes
    let pc := drainPass c .precommit prev.1 e.pendingPrecommits
    ({ e with
        coordinator := some pc.1
        pendingPrevotes := prev.2.1
        pendingPrecommits := pc.2.1 }, prev.2.2 || pc.2.2)

def drainLoop : Nat → BftEngine → BftEngine
  | 0, e => e
  | n + 1, e =>
    let (e', again) := drainOnce c e
    if again then drainLoop n e' else e'

/-- `drain_pending_votes`. An iteration that goes on has applied a
buffered vote, so the number of buffered votes bounds the iterations. -/
def drainPendingVotes (e : BftEngine) : BftEngine :=
  drainLoop c (e.pendingPrevotes.length + e.pendingPrecommits.length + 1) e

/-- `record_prevote` / `record_precommit` on the engine's detector,
parking evidence for the host. -/
def recordRemote (p : VotePhase) (e : BftEngine) (vote : Vote) : BftEngine :=
  let out := match p with
    | .prevote => e.detector.recordPrevote vote
    | .precommit => e.detector.recordPrecommit vote
  { e with
    detector := out.1
    pendingEvidence := e.pendingEvidence ++ out.2.toList }

/-- The common body of `submit_remote_prevote` and
`submit_remote_precommit`. -/
def submitRemoteVote (p : VotePhase) (e : BftEngine) (vote : Vote) :
    BftEngine × Except BftError Unit :=
  let e := recordRemote p e vote
  if vote.height ≤ e.headNumber then (e, .ok ())
  else
    match e.coordinator with
    | none => (e.setPending p (e.pending p ++ [vote]), .ok ())
    | some co =>
      match co.submitVote c p vote with
      | .ok co' => (drainPendingVotes c { e with coordinator := some co' }, .ok ())
      | .error err =>
        if isEarly err then (e.setPending p (e.pending p ++ [vote]), .ok ())
        else (e, .error err)

def submitRemotePrevote := submitRemoteVote c .prevote

def submitRemotePrecommit := submitRemoteVote c .precommit

def drainEvidence (e : BftEngine) : BftEngine × List EquivocationEvidence :=
  ({ e with pendingEvidence := [] }, e.pendingEvidence)

def drainPendingTxsIntoBody (e : BftEngine) : BftEngine × BlockBody :=
  let maxTxs := (e.config.gasLimit / PLACEHOLDER_TX_GAS).toNat
  ({ e with pendingTxs := e.pendingTxs.drop maxTxs }, ⟨e.pendingTxs.take maxTxs, [], []⟩)

def castProposal (ex : Option Executor) (e : BftEngine) :
    BftEngine × Except BftError (Block × LeaderProof) :=
  let e := e.ensureCoordinator
  match e.coordinator with
  | none => (e, .error (.panicked "ensured"))
  | some co =>
    let leader := co.leaderIndex c
    if leader ≠ e.myIndex.toNat then (e, .error (.notLeader co.round (UInt32.ofNat leader)))
    else
      let proof := LeaderProof.produce c e.config.myVrfSk co.height co.round e.seed
      let (e, body) := e.drainPendingTxsIntoBody
      let block := buildBlockWithBody c ex e.config e.headHash e.headTimestamp co.height proof
        e.config.coinbase body
      match co.submitProposal c (block.hash c) proof with
      | .error err => (e, .error err)
      | .ok co' =>
        ({ e with coordinator := some co', proposal := some (block, proof) }, .ok (block, proof))

def castPrevote (e : BftEngine) : Except BftError (BftEngine × PrevoteVote) :=
  match e.coordinator with
  | none => .error .noActiveCoordinator
  | some co =>
    match co.proposedBlock with
    | none => .error (.wrongPhase .prevoting co.phase)
    | some blockHash =>
      let vote := PrevoteVote.sign c e.config.myBlsSk blockHash co.height co.round e.myIndex
      match co.submitPrevote c vote with
      | .error err => .error err
      | .ok co' => .ok ({ e with coordinator := some co' }, vote)

def castPrecommit (e : BftEngine) : Except BftError (BftEngine × PrecommitVote) :=
  match e.coordinator with
  | none => .error .noActiveCoordinator
  | some co =>
    if co.phase ≠ .precommitting then .error (.wrongPhase .precommitting co.phase)
    else
      match co.proposedBlock with
      | none => .error (.panicked "invariant: block set by Precommitting")
      | some blockHash =>
        let vote := PrecommitVote.sign c e.config.myBlsSk blockHash co.height co.round e.myIndex
        match co.submitPrecommit c vote with
        | .error err => .error err
        | .ok co' => .ok ({ e with coordinator := some co' }, vote)

def submitRemoteProposal (e : BftEngine) (block : Block) (proof : LeaderProof) :
    BftEngine × Except BftError Unit :=
  let e := e.ensureCoordinator
  match e.coordinator with
  | none => (e, .error (.panicked "ensured"))
  | some co =>
    match co.submitProposal c (block.hash c) proof with
    | .error err => (e, .error err)
    | .ok co' =>
      (drainPendingVotes c { e with coordinator := some co', proposal := some (block, proof) },
        .ok ())

def tickTimeout (e : BftEngine) : BftEngine :=
  let e := e.ensureCoordinator
  drainPendingVotes c
    { e with coordinator := e.coordinator.map RoundCoordinator.fireTimeout, proposal := none }

/-- The engine with `block` as its new head. -/
def advanceHead (e : BftEngine) (block : Block) (cert : PrecommitCertificate) (seed : Arr 32) :
    BftEngine :=
  { e with
    headHash := block.hash c
    headNumber := block.header.number
    headTimestamp := block.header.timestamp
    seed := seed
    coordinator := none
    proposal := none
    recentBlocks := cacheRecentBlock e.recentBlocks block cert }

def tryHarvestCommitted (e : BftEngine) : Option (BftEngine × Block) :=
  match e.coordinator, e.proposal with
  | some co, some (block, proof) =>
    if co.phase = .committed then
      co.finalCert.map fun cert => (e.advanceHead c block cert proof.vrfOutput, block)
    else none
  | _, _ => none

def adoptSyncedBlock (e : BftEngine) (block : Block) (cert : PrecommitCertificate) :
    Except BftError BftEngine :=
  if block.header.number ≠ e.headNumber + 1 ∨ cert.height ≠ block.header.number then
    .error .wrongHeight
  else if block.header.parentHash ≠ e.headHash ∨ cert.blockHash ≠ block.hash c then
    .error .proposalHashMismatch
  else
    match PrecommitCertificate.verify c cert e.validatorSet with
    | .error err => .error err
    | .ok () =>
      .ok { e.advanceHead c block cert block.header.mixHash with
        pendingPrevotes := [], pendingPrecommits := [] }

/-- Propose, PRE-VOTE and PRE-COMMIT on a coordinator of one's own. -/
def voteAlone (e : BftEngine) (height : UInt64) (blockHash : H256) (proof : LeaderProof) :
    Except BftError PrecommitCertificate := do
  let co ← (RoundCoordinator.new height e.seed e.validatorSet).submitProposal c blockHash proof
  let co ← co.submitPrevote c
    (PrevoteVote.sign c e.config.myBlsSk blockHash height 0 e.myIndex)
  let co ← co.submitPrecommit c
    (PrecommitVote.sign c e.config.myBlsSk blockHash height 0 e.myIndex)
  match co.finalCert with
  | some cert => .ok cert
  | none => .error (.notSingleValidator e.validatorSet.size)

/-- `advance_single`: the coordinator in flight, if any, is left alone. -/
def advanceSingle (ex : Option Executor) (e : BftEngine) :
    BftEngine × Except BftError (Block × PrecommitCertificate) :=
  if e.validatorSet.size ≠ 1 then (e, .error (.notSingleValidator e.validatorSet.size))
  else if e.headNumber.toNat + 1 = 2 ^ 64 then (e, .error .overflow)
  else
    let newNumber := e.headNumber + 1
    let proof := LeaderProof.produce c e.config.myVrfSk newNumber 0 e.seed
    let (e, body) := e.drainPendingTxsIntoBody
    let block := buildBlockWithBody c ex e.config e.headHash e.headTimestamp newNumber proof
      e.config.coinbase body
    match e.voteAlone c newNumber (block.hash c) proof with
    | .error err => (e, .error err)
    | .ok cert =>
      ({ e with
          headHash := block.hash c
          headNumber := newNumber
          headTimestamp := block.header.timestamp
          seed := proof.vrfOutput
          recentBlocks := cacheRecentBlock e.recentBlocks block cert },
        .ok (block, cert))

def init (e : BftEngine) (genesis : Block) : BftEngine :=
  { e with
    headHash := genesis.hash c
    headNumber := genesis.header.number
    headTimestamp := genesis.header.timestamp
    seed := e.config.initialSeed }

end BftEngine

/-! ## Reference nodes

Small executable networks over `Crypto.reference`: validator `k` has the
key number `k + 1` for both schemes. -/

/-- The secret VRF key of reference validator `k`. -/
def referenceVrfSk (k : Nat) : VrfSecretKey := arrOfNat 64 ((k + 1) * 2 ^ 256)

/-- Reference validator `k`. -/
def referenceValidator (k : Nat) (stake : UInt64) : Validator where
  blsPubkey := Crypto.reference.blsPublicKey (arrOfNat 32 (k + 1))
  vrfPubkey := arrOfNat 32 (k + 1)
  stake := stake

/-- The configuration of reference validator `k`. The leading bytes of
the seed decide the leader draw. -/
def referenceConfig (vs : ValidatorSet) (k seed : Nat) : BftConfig where
  validatorSet := vs
  myIndex := UInt32.ofNat k
  myBlsSk := arrOfNat 32 (k + 1)
  myVrfSk := referenceVrfSk k
  initialSeed := arrOfNat 32 (seed * 2 ^ 192)
  coinbase := arrOfNat 20 (k + 1)
  gasLimit := 30000000
  baseFeePerGas := 1
  slotSeconds := 3

/-- A follower with stake 5 next to a leader with stake 1. -/
def followerSet : ValidatorSet :=
  ⟨[referenceValidator 0 5, referenceValidator 1 1], 6, by decide, by decide, by decide, by decide⟩

def swappedSet : ValidatorSet :=
  ⟨[referenceValidator 1 1, referenceValidator 0 5], 6, by decide, by decide, by decide, by decide⟩

/-- The follower's configuration; the seed elects the other validator. -/
def followerConfig : BftConfig := referenceConfig followerSet 0 5

def referenceHead (config : BftConfig) (number : UInt64) : Block :=
  BftEngine.buildBlockWithBody Crypto.reference none config (Arr.zero 32) 0 number
    ⟨⟨Arr.zero 32, Arr.zero 64⟩, Arr.zero 32⟩ (Arr.zero 20) .empty

end Aii.Bft
