/-
Aii.Bft.Gossip — the gossip driver (`aii-consensus-bft/src/gossip.rs`).

`tick` handles the inbox one payload at a time and then takes at most one
action for the phase.
-/
import Aii.Bft.Engine
import Aii.Bft.Wire

namespace Aii.Bft

open Common Common.Rlp Chain List

structure RoundFlags where
  proposed : Option (UInt64 × UInt32)
  prevoted : Option (UInt64 × UInt32)
  precommitted : Option (UInt64 × UInt32)
  lastProposal : Option BftMessage
  lastPrevote : Option BftMessage
  lastPrecommit : Option BftMessage
  requestedBlocks : List UInt64
  deriving DecidableEq

/-- `RoundFlags::default()`. -/
def RoundFlags.empty : RoundFlags := ⟨none, none, none, none, none, none, []⟩

structure BftGossip where
  engine : BftEngine
  flags : RoundFlags
  harvested : List Block
  outbox : List BftMessage
  deriving DecidableEq

namespace BftGossip

variable (c : Crypto) (ex : Option Executor)

def new (engine : BftEngine) : BftGossip := ⟨engine, .empty, [], []⟩

def drainHarvested (g : BftGossip) : BftGossip × List Block :=
  ({ g with harvested := [] }, g.harvested)

/-- `transport.broadcast`. -/
def broadcast (g : BftGossip) (msg : BftMessage) : BftGossip :=
  { g with outbox := g.outbox ++ [msg] }

/-- `while let Some(block) = try_harvest_committed()`, with a bound. -/
def harvestLoop : Nat → BftGossip → BftGossip
  | 0, g => g
  | n + 1, g =>
    match g.engine.tryHarvestCommitted c with
    | none => g
    | some (e, block) =>
      harvestLoop n { g with engine := e, harvested := g.harvested ++ [block] }

/-- `auto_harvest`. A harvest clears the coordinator, so the loop stops
after at most one. -/
def autoHarvest (g : BftGossip) : BftGossip := harvestLoop c 2 g

def sendProposal (g : BftGossip) (h : UInt64) (r : UInt32) (block : Block)
    (proof : LeaderProof) : BftGossip :=
  let msg := BftMessage.proposal
    { height := h, round := r, blockHash := block.hash c, leaderProof := proof
      coinbase := g.engine.config.coinbase, bodyBytes := block.body.encode }
  { g with flags := { g.flags with proposed := some (h, r), lastProposal := some msg } }
    |>.broadcast msg

def bootstrapPropose (g : BftGossip) : BftGossip :=
  let (e, result) := g.engine.castProposal c ex
  let g := { g with engine := e }
  match result, e.currentRoundState with
  | .ok (block, proof), some (h, r, _) => g.sendProposal c h r block proof
  | _, _ => g

def maybePropose (g : BftGossip) (h : UInt64) (r : UInt32) : BftGossip :=
  if g.flags.proposed = some (h, r) then g
  else if g.engine.currentLeaderIndex c ≠ some g.engine.myIndex.toNat then g
  else
    let (e, result) := g.engine.castProposal c ex
    let g := { g with engine := e }
    match result with
    | .error _ => g
    | .ok (block, proof) => g.sendProposal c h r block proof

def maybePrevote (g : BftGossip) (h : UInt64) (r : UInt32) : BftGossip :=
  if g.flags.prevoted = some (h, r) then g
  else
    match g.engine.castPrevote c with
    | .error _ => g
    | .ok (e, vote) =>
      let msg := BftMessage.prevote vote
      { g with
        engine := e
        flags := { g.flags with prevoted := some (h, r), lastPrevote := some msg } }
        |>.broadcast msg

def maybePrecommit (g : BftGossip) (h : UInt64) (r : UInt32) : BftGossip :=
  if g.flags.precommitted = some (h, r) then g
  else
    match g.engine.castPrecommit c with
    | .error _ => g
    | .ok (e, vote) =>
      let msg := BftMessage.precommit vote
      { g with
        engine := e
        flags := { g.flags with precommitted := some (h, r), lastPrecommit := some msg } }
        |>.broadcast msg

/-- `retransmit_proposal`, `retransmit_prevote`, `retransmit_precommit`:
broadcast the remembered message of the slot, if any. -/
def retransmit (slot : RoundFlags → Option BftMessage) (g : BftGossip) : BftGossip :=
  match slot g.flags with
  | none => g
  | some msg => g.broadcast msg

def drivePhase (g : BftGossip) (h : UInt64) (r : UInt32) (phase : Phase) : BftGossip :=
  match phase with
  | .awaitingProposal => (g.maybePropose c ex h r).retransmit (·.lastProposal)
  | .prevoting =>
    ((g.maybePrevote c h r).retransmit (·.lastProposal)).retransmit (·.lastPrevote)
  | .precommitting =>
    ((g.maybePrecommit c h r).retransmit (·.lastPrevote)).retransmit (·.lastPrecommit)
  | .committed => g

/-- `request_catchup_if_future_height`; `true` means the message is not
processed further. -/
def requestCatchup (g : BftGossip) (remoteHeight : UInt64) : BftGossip × Bool :=
  let nextHeight := satAdd64 g.engine.headNumber 1
  if remoteHeight ≤ nextHeight then (g, false)
  else if nextHeight ∈ g.flags.requestedBlocks then (g, true)
  else
    ({ g with
        flags := { g.flags with requestedBlocks := nextHeight :: g.flags.requestedBlocks } }
        |>.broadcast (.blockRequest nextHeight), true)

def decodeBlockBody (bytes : Bytes) : Except BftError BlockBody :=
  match BlockBody.decode bytes with
  | .error e => .error (.invalidProposalBody e.text)
  | .ok (body, _) => .ok body

/-- Should a proposal at `(height, round)` jump the local round? -/
def shouldFastForward (e : BftEngine) (height : UInt64) (round : UInt32) : Bool :=
  height == satAdd64 e.headNumber 1 &&
    (match e.currentRoundState with
      | none => true
      | some (activeHeight, activeRound, _) =>
        activeHeight == height && decide (activeRound < round)) &&
    decide (0 < round)

def jumpRound (e : BftEngine) (height : UInt64) (round : UInt32) : Except BftError BftEngine :=
  if shouldFastForward e height round then e.fastForwardToRound round else .ok e

def handleProposalMsg (g : BftGossip) (p : Proposal) : BftGossip × Except BftError Unit :=
  match jumpRound g.engine p.height p.round with
  | .error err => (g, .error err)
  | .ok e =>
    let g := { g with engine := e }
    match decodeBlockBody p.bodyBytes with
    | .error err => (g, .error err)
    | .ok body =>
      let block := e.reconstruct c ex p.height p.leaderProof p.coinbase body
      if block.hash c ≠ p.blockHash then (g, .error .proposalHashMismatch)
      else
        let (e, result) := e.submitRemoteProposal c block p.leaderProof
        ({ g with engine := e }, result)

def handleBlockResponse (g : BftGossip) (blockBytes : Bytes) (cert : PrecommitCertificate) :
    BftGossip × Except BftError Unit :=
  match Block.decode blockBytes with
  | .error err => (g, .error (.invalidProposalBody err.text))
  | .ok (block, rest) =>
    if !rest.isEmpty then (g, .error (.invalidProposalBody "trailing bytes after synced block"))
    else
      match g.engine.adoptSyncedBlock c block cert with
      | .error err => (g, .error err)
      | .ok e =>
        ({ g with
            engine := e
            flags := { g.flags with
              requestedBlocks := g.flags.requestedBlocks.filter (· ≠ block.header.number) }
            harvested := g.harvested ++ [block] }, .ok ())

/-- A vote message of phase `p`. -/
def handleVote (p : VotePhase) (g : BftGossip) (v : Vote) : BftGossip × Except BftError Unit :=
  let (g, future) := g.requestCatchup v.height
  if future then (g, .ok ())
  else
    let (e, result) := g.engine.submitRemoteVote c p v
    ({ g with engine := e }, result)

def dispatchInbound (g : BftGossip) (msg : BftMessage) : BftGossip × Except BftError Unit :=
  match msg with
  | .proposal p =>
    let (g, future) := g.requestCatchup p.height
    if future then (g, .ok ()) else g.handleProposalMsg c ex p
  | .prevote v => g.handleVote c .prevote v
  | .precommit v => g.handleVote c .precommit v
  | .blockRequest height =>
    match g.engine.committedBlockAt height with
    | none => (g, .ok ())
    | some (block, cert) => (g.broadcast (.blockResponse block.encode cert), .ok ())
  | .blockResponse blockBytes cert => g.handleBlockResponse c blockBytes cert

/-- One inbound payload: dispatch it if it decodes, then harvest. -/
def recv (g : BftGossip) (bytes : Bytes) : BftGossip :=
  match BftMessage.decode c bytes with
  | .error _ => g.autoHarvest c
  | .ok msg => (g.dispatchInbound c ex msg).1.autoHarvest c

/-- The second half of `tick`: act on the phase, then harvest. -/
def drive (g : BftGossip) : BftGossip :=
  autoHarvest c <|
    match g.engine.currentRoundState with
    | some (h, r, phase) => g.drivePhase c ex h r phase
    | none => if g.engine.wouldBeLeaderNextHeight c then g.bootstrapPropose c ex else g

def tick (g : BftGossip) (inbox : List Bytes) : BftGossip :=
  (inbox.foldl (recv c ex) g).drive c ex

/-- The host's timeout: `engine.tick_timeout()`. -/
def timeout (g : BftGossip) : BftGossip := { g with engine := g.engine.tickTimeout c }

/-! ## Runs

The oracle may answer differently at every tick, since the host's state
moves between ticks, so an event carries the oracle it runs with. -/

/-- One thing the host can make a driver do. -/
inductive Event where
  | tick (ex : Option Executor) (inbox : List Bytes)
  | timeout
  | stageTxs (txs : List Tx)

/-- The smallest steps a driver takes. -/
inductive Micro where
  | recv (ex : Option Executor) (bytes : Bytes)
  | drive (ex : Option Executor)
  | timeout
  | stageTxs (txs : List Tx)

def Event.micros : Event → List Micro
  | .tick ex inbox => inbox.map (.recv ex) ++ [.drive ex]
  | .timeout => [.timeout]
  | .stageTxs txs => [.stageTxs txs]

def step (g : BftGossip) : Event → BftGossip
  | .tick ex inbox => g.tick c ex inbox
  | .timeout => g.timeout c
  | .stageTxs txs => { g with engine := g.engine.extendPendingTxs txs }

def microStep (g : BftGossip) : Micro → BftGossip
  | .recv ex bytes => g.recv c ex bytes
  | .drive ex => g.drive c ex
  | .timeout => g.timeout c
  | .stageTxs txs => { g with engine := g.engine.extendPendingTxs txs }

def run (g : BftGossip) (events : List Event) : BftGossip := events.foldl (step c) g

def runMicro (g : BftGossip) (ms : List Micro) : BftGossip := ms.foldl (microStep c) g

lemma step_eq_runMicro (g : BftGossip) (ev : Event) : g.step c ev = g.runMicro c ev.micros := by
  cases ev with
  | tick =>
    simp only [step, tick, Event.micros, runMicro, foldl_append, foldl_map, foldl_cons, foldl_nil]
    rfl
  | timeout | stageTxs => rfl

lemma run_eq_runMicro (g : BftGossip) (events : List Event) :
    g.run c events = g.runMicro c (events.flatMap Event.micros) := by
  induction events generalizing g with
  | nil => rfl
  | cons _ _ ih =>
    rw [run, foldl_cons, step_eq_runMicro, ← run, ih, flatMap_cons, runMicro, runMicro,
      runMicro, foldl_append]

end BftGossip

end Aii.Bft
