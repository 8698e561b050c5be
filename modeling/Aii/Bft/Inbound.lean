/-
Aii.Bft.Inbound — what inbound bytes cost a node.

Everything a peer sends is handled before anybody has checked who sent it.
-/
import Aii.Bft.EvidenceComplete
import Aii.Bft.Finality
import Aii.Bft.WireCodec
import Mathlib.Data.Finset.Prod
import Mathlib.Order.Bounds.Basic

namespace Aii.Bft

open Common Common.Rlp Chain List BftMessage BftGossip UInt32

/-! ## Work

The counted functions do what the functions of the model do and count
the `fire_timeout` calls on the side. -/

/-- `for _ in 0..n { coord.fire_timeout() }`, with the number of calls. -/
def RoundCoordinator.fireTimeoutsCounted : Nat → RoundCoordinator → RoundCoordinator × Nat
  | 0, co => (co, 0)
  | n + 1, co =>
    let (co', calls) := fireTimeoutsCounted n co.fireTimeout
    (co', calls + 1)

lemma RoundCoordinator.fireTimeoutsCounted_eq (n : Nat) (co : RoundCoordinator) :
    fireTimeoutsCounted n co = (fireTimeouts n co, n) := by
  induction n generalizing co with
  | zero => rfl
  | succ _ ih => rw [fireTimeoutsCounted, ih, fireTimeouts]

/-- `fast_forward_to_round`, counted. -/
def BftEngine.fastForwardCounted (e : BftEngine) (targetRound : UInt32) :
    Except BftError BftEngine × Nat :=
  let nextHeight := e.headNumber + 1
  if e.coordinator.any (·.height ≠ nextHeight) then (.error .wrongHeight, 0)
  else
    let (co, calls) := RoundCoordinator.fireTimeoutsCounted targetRound.toNat
      (RoundCoordinator.new nextHeight e.seed e.validatorSet)
    (.ok { e with coordinator := some co }, calls)

namespace BftGossip

open BftEngine

variable (c : Crypto)

/-- The jump of `handle_proposal_msg`, counted. -/
def jumpRoundCounted (e : BftEngine) (height : UInt64) (round : UInt32) :
    Except BftError BftEngine × Nat :=
  if shouldFastForward e height round then e.fastForwardCounted round else (.ok e, 0)

/-- `handle_proposal_msg`, counted. -/
def handleProposalMsgCounted (ex : Option Executor) (g : BftGossip) (p : Proposal) :
    (BftGossip × Except BftError Unit) × Nat :=
  match jumpRoundCounted g.engine p.height p.round with
  | (.error err, calls) => ((g, .error err), calls)
  | (.ok e, calls) =>
    let g := { g with engine := e }
    match decodeBlockBody p.bodyBytes with
    | .error err => ((g, .error err), calls)
    | .ok body =>
      let block := e.reconstruct c ex p.height p.leaderProof p.coinbase body
      if block.hash c ≠ p.blockHash then ((g, .error .proposalHashMismatch), calls)
      else
        let (e, result) := e.submitRemoteProposal c block p.leaderProof
        (({ g with engine := e }, result), calls)

/-- The proposal arm of `dispatch_inbound`, counted. -/
def dispatchProposalCounted (ex : Option Executor) (g : BftGossip) (p : Proposal) :
    (BftGossip × Except BftError Unit) × Nat :=
  let (g, future) := g.requestCatchup p.height
  if future then ((g, .ok ()), 0) else g.handleProposalMsgCounted c ex p

variable {c} {g : BftGossip} {e : BftEngine}

/-- The number of `fire_timeout` calls a proposal causes. -/
def timeoutCalls (e : BftEngine) (height : UInt64) (round : UInt32) : Nat :=
  if shouldFastForward e height round ∧ ¬e.coordinator.any (·.height ≠ e.headNumber + 1) then
    round.toNat
  else 0

lemma jumpRoundCounted_eq (e : BftEngine) (height : UInt64) (round : UInt32) :
    jumpRoundCounted e height round = (jumpRound e height round, timeoutCalls e height round) := by
  unfold jumpRoundCounted jumpRound timeoutCalls
  by_cases hjm : shouldFastForward e height round = true
  · rw [if_pos hjm, if_pos hjm]
    unfold fastForwardCounted fastForwardToRound
    by_cases hoh : e.coordinator.any (·.height ≠ e.headNumber + 1) = true
    · simp only [hoh, ↓reduceIte, not_true_eq_false, and_false]
    · simp only [hoh, hjm, Bool.false_eq_true, ↓reduceIte, not_false_eq_true, and_self,
        RoundCoordinator.fireTimeoutsCounted_eq]
  · simp [hjm, Bool.false_eq_true, ↓reduceIte]

lemma handleProposalMsgCounted_eq (ex : Option Executor) (g : BftGossip) (p : Proposal) :
    g.handleProposalMsgCounted c ex p =
      (g.handleProposalMsg c ex p, timeoutCalls g.engine p.height p.round) := by
  unfold handleProposalMsgCounted handleProposalMsg
  rw [jumpRoundCounted_eq]
  cases jumpRound g.engine p.height p.round with
  | error => rfl
  | ok =>
    cases decodeBlockBody p.bodyBytes with
    | error => rfl
    | ok =>
      dsimp only
      split_ifs <;> rfl

lemma dispatchProposalCounted_eq (ex : Option Executor) (g : BftGossip) (p : Proposal) :
    (g.dispatchProposalCounted c ex p).1 = g.dispatchInbound c ex (.proposal p) ∧
      (g.dispatchProposalCounted c ex p).2 =
        if (g.requestCatchup p.height).2 then 0 else timeoutCalls g.engine p.height p.round := by
  unfold dispatchProposalCounted dispatchInbound
  by_cases hfu : (g.requestCatchup p.height).2 = true
  · simp [hfu, ↓reduceIte]
  · obtain ⟨hsm, -⟩ := requestCatchup_not_future (Bool.not_eq_true _ ▸ hfu)
    simp [hfu, Bool.false_eq_true, ↓reduceIte, handleProposalMsgCounted_eq, hsm, and_self]

lemma timeoutCalls_le (e : BftEngine) (height : UInt64) (round : UInt32) :
    timeoutCalls e height round ≤ round.toNat := by
  unfold timeoutCalls
  split_ifs <;> omega

def laterRound (round : UInt32) : Proposal where
  height := 1
  round := round
  blockHash := Arr.zero 32
  leaderProof := ⟨⟨Arr.zero 32, Arr.zero 64⟩, Arr.zero 32⟩
  coinbase := Arr.zero 20
  bodyBytes := []

def idleFollower (c : Crypto) : BftGossip :=
  .new (.fresh c followerConfig (referenceHead followerConfig 0) (Arr.zero 32))

lemma laterRound_costs (c : Crypto) (ex : Option Executor) (round : UInt32) :
    ((idleFollower c).dispatchProposalCounted c ex (laterRound round)).2 = round.toNat ∧
      ((idleFollower c).dispatchInbound c ex (.proposal (laterRound round))).2 ≠ .ok () := by
  have hnx : satAdd64 (idleFollower c).engine.headNumber 1 = 1 := rfl
  have hc : (idleFollower c).requestCatchup (laterRound round).height =
      (idleFollower c, false) := by
    simp [requestCatchup, hnx, laterRound]
  constructor
  · rw [(dispatchProposalCounted_eq ex _ _).2, hc]
    have hil : (idleFollower c).engine.coordinator = none := rfl
    by_cases hzr : round = 0
    · simp [timeoutCalls, shouldFastForward, hzr, laterRound]
    · have hp := UInt32.pos_iff_ne_zero.mpr hzr
      simp [timeoutCalls, shouldFastForward, hnx, laterRound, currentRoundState, hil, hp]
  · unfold dispatchInbound
    simp [hc, Bool.false_eq_true, ↓reduceIte]
    have hby : ∃ err, decodeBlockBody (laterRound round).bodyBytes = .error err := ⟨_, rfl⟩
    obtain ⟨_, hby⟩ := hby
    unfold handleProposalMsg
    cases jumpRound (idleFollower c).engine (laterRound round).height (laterRound round).round with
    | error => simp
    | ok => simp [hby]

/-- **Work per proposal.** At most `2 ^ 32 - 1` calls of `fire_timeout`, and
that is the least bound. -/
theorem proposal_steps_least (c : Crypto) (ex : Option Executor) :
    (∀ (g : BftGossip) (p : Proposal),
      (g.dispatchProposalCounted c ex p).1 = g.dispatchInbound c ex (.proposal p)) ∧
    IsLeast {bound | ∀ (g : BftGossip) (p : Proposal),
      (g.dispatchProposalCounted c ex p).2 ≤ bound} (2 ^ 32 - 1) ∧
    ∃ (g : BftGossip) (p : Proposal), (g.dispatchProposalCounted c ex p).2 = 2 ^ 32 - 1 ∧
      (g.dispatchInbound c ex (.proposal p)).2 ≠ .ok () := by
  have hm : ((2 : UInt32) ^ 32 - 1).toNat = 2 ^ 32 - 1 := by decide
  have hc := laterRound_costs c ex (2 ^ 32 - 1)
  rw [hm] at hc
  refine ⟨fun g p => (dispatchProposalCounted_eq ex g p).1, ⟨?_, ?_⟩, _, _, hc⟩
  · intro g p
    have hrn : timeoutCalls g.engine p.height p.round ≤ p.round.toNat := timeoutCalls_le _ _ _
    have hlt := p.round.toNat_lt
    rw [(dispatchProposalCounted_eq ex g p).2]
    split_ifs <;> omega
  · intro _ hb
    have hle := hb (idleFollower c) (laterRound (2 ^ 32 - 1))
    rwa [hc.1] at hle

end BftGossip

/-! ## Requests -/

def BftMessage.height? : BftMessage → Option UInt64
  | .proposal p => some p.height
  | .prevote v | .precommit v => some v.height
  | .blockRequest _ | .blockResponse _ _ => none

namespace BftGossip

open BftEngine

variable {c : Crypto} {g : BftGossip} {x : UInt64} {ex : Option Executor} {bytes : Bytes}
  {height : UInt64}

lemma harvestLoop_sent (n : Nat) (g : BftGossip) :
    (g.harvestLoop c n).flags = g.flags ∧ (g.harvestLoop c n).outbox = g.outbox := by
  induction n generalizing g with
  | zero => exact ⟨rfl, rfl⟩
  | succ _ ih =>
    unfold harvestLoop
    split
    · exact ⟨rfl, rfl⟩
    · exact ih _

lemma recv_future {msg : BftMessage} (hdc : decode c bytes = .ok msg)
    (hhg : msg.height? = some height) (hfu : satAdd64 g.engine.headNumber 1 < height) :
    (g.recv c ex bytes).outbox =
      if satAdd64 g.engine.headNumber 1 ∈ g.flags.requestedBlocks then g.outbox
      else g.outbox ++ [.blockRequest (satAdd64 g.engine.headNumber 1)] := by
  have hc : (g.requestCatchup height).2 = true ∧ (g.requestCatchup height).1.outbox =
      if satAdd64 g.engine.headNumber 1 ∈ g.flags.requestedBlocks then g.outbox
      else g.outbox ++ [.blockRequest (satAdd64 g.engine.headNumber 1)] := by
    unfold requestCatchup
    simp [UInt64.not_le.mpr hfu, ↓reduceIte]
    split_ifs <;> exact ⟨rfl, rfl⟩
  have hd : (g.dispatchInbound c ex msg).1 = (g.requestCatchup height).1 := by
    cases msg with
    | proposal p =>
      obtain rfl : p.height = height := Option.some.inj hhg
      simp [dispatchInbound, hc.1, ↓reduceIte]
    | prevote v | precommit v =>
      obtain rfl : v.height = height := Option.some.inj hhg
      simp [dispatchInbound, handleVote, hc.1, ↓reduceIte]
    | blockRequest | blockResponse => cases hhg
  rw [recv, hdc]
  show (harvestLoop c 2 (g.dispatchInbound c ex msg).1).outbox = _
  rw [(harvestLoop_sent 2 _).2, hd, hc.2]

lemma mem_requestCatchup (h : x ∈ g.flags.requestedBlocks) :
    x ∈ (g.requestCatchup height).1.flags.requestedBlocks := by
  unfold requestCatchup
  dsimp only
  split_ifs
  · exact h
  · exact h
  · exact mem_cons_of_mem _ h

lemma mem_requestedBlocks_response (h : x ∈ g.flags.requestedBlocks) (bytes : Bytes)
    (cert : PrecommitCertificate) :
    x ∈ (g.handleBlockResponse c bytes cert).1.flags.requestedBlocks ∨
      ((g.handleBlockResponse c bytes cert).1.engine.headNumber = x ∧
        (g.handleBlockResponse c bytes cert).1.engine.coordinator = none) := by
  unfold handleBlockResponse
  cases Block.decode bytes with
  | error => exact .inl h
  | ok out =>
    dsimp only
    split_ifs
    · exact .inl h
    · cases had : g.engine.adoptSyncedBlock c out.1 cert with
      | error => exact .inl h
      | ok =>
        obtain rfl := adoptSyncedBlock_eq had
        by_cases hx : x = out.1.header.number
        · exact .inr ⟨hx.symm, rfl⟩
        · exact .inl (mem_filter.mpr ⟨h, by simpa using hx⟩)

lemma mem_requestedBlocks_dispatch (h : x ∈ g.flags.requestedBlocks) (ex : Option Executor)
    (msg : BftMessage) : x ∈ (g.dispatchInbound c ex msg).1.flags.requestedBlocks ∨
      ((g.dispatchInbound c ex msg).1.engine.headNumber = x ∧
        (g.dispatchInbound c ex msg).1.engine.coordinator = none) := by
  cases msg with
  | proposal =>
    left
    unfold dispatchInbound
    dsimp only
    split_ifs
    · exact mem_requestCatchup h
    · rw [(handleProposalMsg_frame ..).2.1]
      exact mem_requestCatchup h
  | prevote v | precommit v =>
    left
    rw [dispatchInbound, (handleVote_frame ..).2.1]
    exact mem_requestCatchup h
  | blockRequest =>
    left
    unfold dispatchInbound
    dsimp only
    split <;> exact h
  | blockResponse bytes cert => exact mem_requestedBlocks_response h bytes cert

lemma harvestLoop_idle {n : Nat} (h : g.engine.coordinator = none) : g.harvestLoop c n = g := by
  cases n with
  | zero => rfl
  | succ =>
    have hnn : g.engine.tryHarvestCommitted c = none := by simp [tryHarvestCommitted, h]
    simp [harvestLoop, hnn]

lemma mem_requestedBlocks_microStep (h : x ∈ g.flags.requestedBlocks) (m : Micro) :
    x ∈ (g.microStep c m).flags.requestedBlocks ∨ (g.microStep c m).engine.headNumber = x := by
  cases m with
  | recv ex bytes =>
    show x ∈ (g.recv c ex bytes).flags.requestedBlocks ∨ (g.recv c ex bytes).engine.headNumber = x
    unfold recv autoHarvest
    cases decode c bytes with
    | error =>
      left
      rw [(harvestLoop_sent 2 g).1]
      exact h
    | ok msg =>
      rcases mem_requestedBlocks_dispatch h ex msg with hm | ⟨hhd, hil⟩
      · left
        rw [(harvestLoop_sent 2 _).1]
        exact hm
      · right
        dsimp only
        rw [harvestLoop_idle hil]
        exact hhd
  | drive ex =>
    left
    show x ∈ (g.drive c ex).flags.requestedBlocks
    unfold drive autoHarvest
    rw [(harvestLoop_sent 2 _).1]
    split
    · rw [(drivePhase_frame ..).2]
      exact h
    · split_ifs
      · unfold bootstrapPropose
        dsimp only
        split <;> exact h
      · exact h
  | timeout | stageTxs => exact .inl h

lemma mem_requestedBlocks_operate (h : x ∈ g.flags.requestedBlocks) (op : Operation) :
    x ∈ (g.operate c op).flags.requestedBlocks ∨ (g.operate c op).engine.headNumber = x := by
  cases op with
  | micro m => exact mem_requestedBlocks_microStep h m
  | call | advanceSingle | init | setPendingTxs => exact .inl h

lemma requestCatchup_sent (height : UInt64) : (g.requestCatchup height).1.outbox = g.outbox ∨
      satAdd64 g.engine.headNumber 1 ∈ (g.requestCatchup height).1.flags.requestedBlocks ∧
        (g.requestCatchup height).1.outbox =
          g.outbox ++ [.blockRequest (satAdd64 g.engine.headNumber 1)] := by
  unfold requestCatchup
  dsimp only
  split_ifs
  · exact .inl rfl
  · exact .inl rfl
  · exact .inr ⟨mem_cons_self, rfl⟩

lemma handleBlockResponse_outbox (bytes : Bytes) (cert : PrecommitCertificate) :
    (g.handleBlockResponse c bytes cert).1.outbox = g.outbox := by
  unfold handleBlockResponse
  split
  · rfl
  · split_ifs
    · rfl
    · split <;> rfl

lemma dispatchInbound_sent (ex : Option Executor) (msg : BftMessage) :
    (g.dispatchInbound c ex msg).1.outbox = g.outbox ∨
      (∃ bytes cert, (g.dispatchInbound c ex msg).1.outbox =
        g.outbox ++ [.blockResponse bytes cert]) ∨
      satAdd64 g.engine.headNumber 1 ∈ (g.dispatchInbound c ex msg).1.flags.requestedBlocks ∧
        (g.dispatchInbound c ex msg).1.outbox =
          g.outbox ++ [.blockRequest (satAdd64 g.engine.headNumber 1)] := by
  cases msg with
  | proposal p =>
    have hsm : (g.dispatchInbound c ex (.proposal p)).1.outbox =
          (g.requestCatchup p.height).1.outbox ∧
        (g.dispatchInbound c ex (.proposal p)).1.flags = (g.requestCatchup p.height).1.flags := by
      unfold dispatchInbound
      dsimp only
      split_ifs
      · exact ⟨rfl, rfl⟩
      · exact (handleProposalMsg_frame ex p).2.symm
    rw [hsm.1, hsm.2]
    exact (requestCatchup_sent p.height).imp_right .inr
  | prevote v | precommit v =>
    rw [dispatchInbound, (handleVote_frame ..).2.1, (handleVote_frame ..).2.2]
    exact (requestCatchup_sent v.height).imp_right .inr
  | blockRequest =>
    unfold dispatchInbound
    dsimp only
    split
    · exact .inl rfl
    · exact .inr (.inl ⟨_, _, rfl⟩)
  | blockResponse bytes cert => exact .inl (handleBlockResponse_outbox bytes cert)

lemma requested_of_asked (h : (g.recv c ex bytes).outbox = g.outbox ++ [.blockRequest x]) :
    x ∈ (g.recv c ex bytes).flags.requestedBlocks := by
  unfold recv autoHarvest at h ⊢
  cases hdc : decode c bytes with
  | error =>
    simp only [hdc, (harvestLoop_sent 2 g).2] at h
    simp at h
  | ok msg =>
    simp [hdc, (harvestLoop_sent 2 _).2] at h
    simp [(harvestLoop_sent 2 _).1]
    rcases dispatchInbound_sent (g := g) (c := c) ex msg with hs | ⟨_, _, hs⟩ | ⟨hm, hs⟩
    · simp [hs] at h
    · simp [hs] at h
    · simp_all

/-- **A lost request is lost for good** as long as the head stays where it
is. -/
theorem catchup_never_repeated (c : Crypto) (g waiting : BftGossip) (ex ex' : Option Executor)
    (bytes bytes' : Bytes) (ops : List Operation) (msg : BftMessage) (height : UInt64)
    (hasked : (g.recv c ex bytes).outbox =
      g.outbox ++ [.blockRequest (satAdd64 g.engine.headNumber 1)]) (hunanswered : Along (operate c)
      (fun g' op => (g'.operate c op).engine.headNumber = g'.engine.headNumber) g
      (.micro (.recv ex bytes) :: ops))
    (hwaiting : waiting = g.runOperations c (.micro (.recv ex bytes) :: ops))
    (hdecode : BftMessage.decode c bytes' = .ok msg) (hheight : msg.height? = some height)
    (hfuture : satAdd64 waiting.engine.headNumber 1 < height) :
    (waiting.recv c ex' bytes').outbox = waiting.outbox := by
  have hhd : waiting.engine.headNumber = g.engine.headNumber := by
    rw [hwaiting]
    exact hunanswered.keeps (P := fun g' => g'.engine.headNumber = g.engine.headNumber)
      (fun _ _ hsp hsm => hsp.trans hsm) rfl
  have hrm : g.engine.headNumber ≠ satAdd64 g.engine.headNumber 1 := by
    rw [hhd] at hfuture
    intro heq
    have hlt := UInt64.lt_iff_toNat_lt.mp hfuture
    have ht := congrArg UInt64.toNat heq
    have hheight := height.toNat_lt
    rw [satAdd64_toNat, UInt64.toNat_one] at hlt ht
    omega
  -- the head is never the requested height, so the mark is never removed
  have hm : waiting.engine.headNumber = g.engine.headNumber ∧
      satAdd64 g.engine.headNumber 1 ∈ waiting.flags.requestedBlocks := by
    rw [hwaiting]
    obtain ⟨hft, hrs⟩ := hunanswered
    refine hrs.keeps (P := fun g' => g'.engine.headNumber = g.engine.headNumber ∧
      satAdd64 g.engine.headNumber 1 ∈ g'.flags.requestedBlocks) ?_ ⟨hft, ?_⟩
    · rintro g' op hsp ⟨hsm, hmm⟩
      have hsm' := hsp.trans hsm
      refine ⟨hsm', (mem_requestedBlocks_operate hmm op).resolve_right ?_⟩
      rwa [hsm']
    · exact requested_of_asked hasked
  rw [recv_future hdecode hheight hfuture, hhd, if_pos hm.2]

/-- A vote in the name of validator 1, signed with a key of no member. -/
def strayVote (height : UInt64) : Vote :=
  signVote .reference .prevote (arrOfNat 32 9) (Arr.zero 32) height 0 1

def strayBytes (height : UInt64) : Bytes := (BftMessage.prevote (strayVote height)).encode

def waitingRun : List Operation := [.micro (.recv none (strayBytes 2)), .micro .timeout]

theorem catchup_never_repeated_follower :
    (((idleFollower .reference).runOperations .reference waitingRun).recv
        .reference none (strayBytes 3)).outbox =
      ((idleFollower .reference).runOperations .reference waitingRun).outbox :=
  catchup_never_repeated .reference (idleFollower .reference)
    ((idleFollower .reference).runOperations .reference waitingRun) none none
    (strayBytes 2) (strayBytes 3) [.micro .timeout] (.prevote (strayVote 3)) 3
    (by decide +kernel) (by decide +kernel) rfl (by decide +kernel) rfl (by decide +kernel)

/-- The answer to the first request is lost: block 1 is asked for once. -/
theorem lost_request_not_repeated :
    ((idleFollower .reference).recv .reference none (strayBytes 2)).outbox = [.blockRequest 1] ∧
      ((idleFollower .reference).runOperations .reference waitingRun).engine.headNumber = 0 ∧
      (((idleFollower .reference).runOperations .reference waitingRun).recv
        .reference none (strayBytes 3)).outbox = [.blockRequest 1] := by
  decide +kernel

end BftGossip

/-! ## Memory -/

lemma Vote.sameKey_comm (a b : Vote) : a.sameKey b = b.sameKey a := by
  rw [Bool.eq_iff_iff, Vote.sameKey_iff, Vote.sameKey_iff, eq_comm, eq_comm (a := a.height),
    eq_comm (a := a.round)]

/-- Pairwise different keys, all of members, one height and rounds up to
`R`. -/
structure Slots (members : Nat) (height : UInt64) (R : UInt32) (votes : List Vote) : Prop where
  distinct : votes.Pairwise fun a b => a.sameKey b = false
  inside : ∀ v ∈ votes, v.validatorIndex.toNat < members ∧ v.height = height ∧ v.round ≤ R

namespace Slots

variable {members : Nat} {height : UInt64} {R : UInt32} {votes votes' : List Vote}

lemma nil : Slots members height R [] := ⟨.nil, by simp⟩

lemma sublist (h : Slots members height R votes) (hs : votes'.Sublist votes) :
    Slots members height R votes' :=
  ⟨h.distinct.sublist hs, fun v hv => h.inside v (hs.subset hv)⟩

lemma length_le (h : Slots members height R votes) : votes.length ≤ members * (R.toNat + 1) := by
  let slot : Vote → Nat × Nat := fun v => (v.validatorIndex.toNat, v.round.toNat)
  have hnp : (votes.map slot).Nodup := by
    rw [List.Nodup, pairwise_map]
    refine h.distinct.imp_of_mem fun {a b} ha hb hab heq => ?_
    obtain ⟨hie, hrn⟩ := Prod.mk.inj heq
    have hk := Vote.sameKey_iff.mpr
      ⟨UInt32.toNat_inj.mp hie, (h.inside a ha).2.1.trans (h.inside b hb).2.1.symm,
        UInt32.toNat_inj.mp hrn⟩
    rw [hk] at hab
    cases hab
  have hi : (votes.map slot).toFinset ⊆
      Finset.range members ×ˢ Finset.range (R.toNat + 1) := by
    intro s hs
    obtain ⟨v, hv, rfl⟩ := mem_map.mp (mem_toFinset.mp hs)
    obtain ⟨hie, -, hrn⟩ := h.inside v hv
    have hle := le_iff_toNat_le.mp hrn
    exact Finset.mem_product.mpr
      ⟨Finset.mem_range.mpr hie, Finset.mem_range.mpr (Nat.lt_succ_of_le hle)⟩
  calc votes.length = (votes.map slot).toFinset.card := by
        rw [toFinset_card_of_nodup hnp, length_map]
    _ ≤ (Finset.range members ×ˢ Finset.range (R.toNat + 1)).card := Finset.card_le_card hi
    _ = members * (R.toNat + 1) := by simp

end Slots

namespace BftEngine

variable {c : Crypto} {e : BftEngine}

def stored (e : BftEngine) : Nat :=
  e.pendingPrevotes.length + e.pendingPrecommits.length + e.detector.seenPrevote.length +
    e.detector.seenPrecommit.length

lemma stored_eq (e : BftEngine) :
    e.stored = ((e.pending .prevote).length + (e.detector.seen .prevote).length) +
      ((e.pending .precommit).length + (e.detector.seen .precommit).length) := by
  show _ + _ + _ + _ = (e.pendingPrevotes.length + e.detector.seenPrevote.length) +
    (e.pendingPrecommits.length + e.detector.seenPrecommit.length)
  omega

lemma drainPendingVotes_sublist (p : VotePhase) (e : BftEngine) :
    ((drainPendingVotes c e).pending p).Sublist (e.pending p) := by
  obtain ⟨_, -, hdr⟩ := drainLoop_drainsIn (c := c) (Nat.lt_succ_self e.buffered)
  exact hdr.ordered p

lemma after_stores (x : Call) (hx : ∀ p v, x ≠ .submitRemoteVote p v) :
    (e.after c x).detector = e.detector ∧ ∀ p, ((e.after c x).pending p).Sublist (e.pending p) := by
  have ho := after_outcome c e x
  generalize e.after c x = e' at ho ⊢
  refine ⟨?_, fun p => ?_⟩
  · have hw := congrArg Prod.fst ho.watched
    cases x with
    | submitRemoteVote q v => exact absurd rfl (hx q v)
    | _ => exact hw
  · have he : (e.ensureCoordinator.pending p).Sublist (e.pending p) := by simp
    cases ho with
    | kept => exact .refl _
    | recorded q v | buffered q v | taken q v => exact absurd rfl (hx q v)
    | refused => exact he
    | accepted | timedOut =>
      refine (drainPendingVotes_sublist p _).trans ?_
      cases p <;> exact he
    | notProposed | proposed => cases p <;> exact he
    | voted | harvested | restarted | extended | drained => cases p <;> exact .refl _
    | adopted _ _ _ hok =>
      obtain rfl := adoptSyncedBlock_eq hok
      cases p <;> exact nil_sublist _
    | rotated => cases p <;> exact nil_sublist _

lemma submitRemoteVote_stores (p : VotePhase) (v : Vote) :
    (∀ q, (e.submitRemoteVote c p v).1.detector.seen q = e.detector.seen q ∨
      q = p ∧ (∀ w ∈ e.detector.seen p, w.sameKey v = false) ∧
        (e.submitRemoteVote c p v).1.detector.seen q = v :: e.detector.seen p) ∧
    ∀ q, ((e.submitRemoteVote c p v).1.pending q).Sublist (e.pending q) ∨
      q = p ∧ (e.submitRemoteVote c p v).1.pending q = e.pending p ++ [v] := by
  constructor
  · intro q
    have hd : (e.submitRemoteVote c p v).1.detector = (e.recordRemote p v).detector :=
      congrArg Prod.fst (after_outcome c e (.submitRemoteVote p v)).watched
    rw [hd, seen_recordRemote]
    by_cases hq : p = q
    · subst hq
      rw [if_pos rfl]
      unfold recordVote
      cases hf : (e.detector.seen p).find? (·.sameKey v) with
      | none | some => grind
    · exact .inl (if_neg hq)
  · intro q
    have hrc : ((e.recordRemote p v).pending q).Sublist (e.pending q) := by
      rw [pending_recordRemote]
    have hce := submitRemoteVote_cases (c := c) p e v
    generalize e.submitRemoteVote c p v = out at hce ⊢
    cases hce with
    | stale | refused => exact .inl hrc
    | buffered =>
      rw [pending_setPending]
      by_cases hq : q = p
      · exact .inr ⟨hq, if_pos hq⟩
      · rw [if_neg hq]
        exact .inl hrc
    | taken =>
      refine .inl ((drainPendingVotes_sublist q _).trans ?_)
      cases q <;> exact hrc

lemma submitRemoteVote_set (p : VotePhase) (v : Vote) :
    (e.submitRemoteVote c p v).1.validatorSet = e.validatorSet := by
  have hce := submitRemoteVote_cases (c := c) p e v
  generalize e.submitRemoteVote c p v = out at hce ⊢
  cases hce with
  | stale | refused => rfl
  | buffered | taken => simp [recordRemote]

/-- The votes stored since `e₀` fill slots. -/
structure Grown (height : UInt64) (R : UInt32) (e₀ e : BftEngine) : Prop where
  set : e.validatorSet = e₀.validatorSet
  seen : ∀ p, ∃ new, e.detector.seen p = new ++ e₀.detector.seen p ∧
    Slots e₀.validatorSet.size height R new
  pending : ∀ p, ∃ old new, e.pending p = old ++ new ∧ old.Sublist (e₀.pending p) ∧
    Slots e₀.validatorSet.size height R new

namespace Grown

variable {height : UInt64} {R : UInt32} {e₀ e' : BftEngine}

lemma refl (e : BftEngine) : Grown height R e e :=
  ⟨rfl, fun _ => ⟨[], rfl, .nil⟩, fun _ => ⟨_, [], (append_nil _).symm, .refl _, .nil⟩⟩

lemma shrink (h : Grown height R e₀ e) (hs : e'.validatorSet = e.validatorSet)
    (hse : ∀ p, e'.detector.seen p = e.detector.seen p)
    (hpg : ∀ p, (e'.pending p).Sublist (e.pending p)) : Grown height R e₀ e' := by
  refine ⟨hs.trans h.set, fun p => ?_, fun p => ?_⟩
  · obtain ⟨new, heq, hss⟩ := h.seen p
    exact ⟨new, (hse p).trans heq, hss⟩
  · obtain ⟨_, _, heq, hold, hss⟩ := h.pending p
    obtain ⟨old', new', heq', hold', hnew'⟩ := sublist_append_iff.mp (heq ▸ hpg p)
    exact ⟨old', new', heq', hold'.trans hold, hss.sublist hnew'⟩

lemma stored_le (h : Grown height R e₀ e) :
    e.stored ≤ e₀.stored + 4 * (e₀.validatorSet.size * (R.toNat + 1)) := by
  have hse : ∀ p, (e.detector.seen p).length ≤
      (e₀.detector.seen p).length + e₀.validatorSet.size * (R.toNat + 1) := by
    intro p
    obtain ⟨_, heq, hss⟩ := h.seen p
    have := hss.length_le
    rw [heq, length_append]
    omega
  have hpg : ∀ p, (e.pending p).length ≤
      (e₀.pending p).length + e₀.validatorSet.size * (R.toNat + 1) := by
    intro p
    obtain ⟨_, _, heq, ho, hss⟩ := h.pending p
    have := hss.length_le
    have := ho.length_le
    rw [heq, length_append]
    omega
  have hp := Nat.add_le_add (hpg .prevote) (hse .prevote)
  have hpr := Nat.add_le_add (hpg .precommit) (hse .precommit)
  rw [stored_eq, stored_eq]
  omega

lemma vote {p : VotePhase} {v : Vote} (h : Grown height R e₀ e)
    (hie : v.validatorIndex.toNat < e.validatorSet.size) (hhg : v.height = height)
    (hrn : v.round ≤ R) (hnew : ∀ w ∈ e.pending p, w.sameKey v = false) :
    Grown height R e₀ (e.submitRemoteVote c p v).1 := by
  rw [h.set] at hie
  obtain ⟨hse, hpg⟩ := submitRemoteVote_stores p v
  refine ⟨(submitRemoteVote_set p v).trans h.set, fun q => ?_, fun q => ?_⟩
  · obtain ⟨new, heq, hss⟩ := h.seen q
    rcases hse q with hsm | ⟨rfl, hfe, hc⟩
    · exact ⟨new, hsm.trans heq, hss⟩
    · refine ⟨v :: new, by rw [hc, heq, cons_append], ?_, ?_⟩
      · refine pairwise_cons.mpr ⟨fun w hw => ?_, hss.distinct⟩
        rw [Vote.sameKey_comm]
        exact hfe w (heq ▸ mem_append_left _ hw)
      · exact forall_mem_cons.mpr ⟨⟨hie, hhg, hrn⟩, hss.inside⟩
  · obtain ⟨old, new, heq, hold, hss⟩ := h.pending q
    rcases hpg q with hs | ⟨rfl, ha⟩
    · obtain ⟨old', new', heq', hold', hnew'⟩ := sublist_append_iff.mp (heq ▸ hs)
      exact ⟨old', new', heq', hold'.trans hold, hss.sublist hnew'⟩
    · refine ⟨old, new ++ [v], by rw [ha, heq, append_assoc], hold, ?_, ?_⟩
      · refine pairwise_append.mpr ⟨hss.distinct, pairwise_singleton _ _, ?_⟩
        intro w hw u hu
        obtain rfl := mem_singleton.mp hu
        exact hnew w (heq ▸ mem_append_right _ hw)
      · exact forall_mem_append.mpr
          ⟨hss.inside, forall_mem_singleton.mpr ⟨hie, hhg, hrn⟩⟩

end Grown

end BftEngine

namespace BftGossip

open BftEngine

variable {c : Crypto} {g : BftGossip} {R : UInt32} {m : Micro} {e₀ : BftEngine}

lemma answered_stores {msg : Option BftMessage} {e e' : BftEngine}
    (hm : ∀ p v, msg ≠ some (.ofVote p v)) (h : Answered c msg e e') :
    (∀ p, e'.detector.seen p = e.detector.seen p) ∧ ∀ p, (e'.pending p).Sublist (e.pending p) := by
  refine h.keeps (P := fun e' => (∀ p, e'.detector.seen p = e.detector.seen p) ∧
    ∀ p, (e'.pending p).Sublist (e.pending p)) ?_ ⟨fun _ => rfl, fun _ => .refl _⟩
  rintro e₁ x hx ⟨hse, hpg⟩
  obtain ⟨hd, hs⟩ := after_stores x
    fun p v heq => hm p v (hx p v heq)
  exact ⟨fun p => by rw [hd, hse], fun p => (hs p).trans (hpg p)⟩

/-- A vote that the driver would show to its engine is of a member, of the
next height, of a round up to `R`, and no vote of its phase with its
validator and round is waiting. -/
def Sober (c : Crypto) (R : UInt32) (g : BftGossip) (m : Micro) : Prop :=
  ∀ pv ∈ (m.message c).bind BftMessage.vote?, pv.2.height ≤ satAdd64 g.engine.headNumber 1 →
      pv.2.validatorIndex.toNat < g.engine.validatorSet.size ∧
        pv.2.height = satAdd64 g.engine.headNumber 1 ∧ pv.2.round ≤ R ∧
        ∀ w ∈ g.engine.pending pv.1, w.sameKey pv.2 = false

instance (c : Crypto) (R : UInt32) (g : BftGossip) (m : Micro) : Decidable (Sober c R g m) :=
  @decidableForallMemOption _ _ (fun _ => inferInstance) _

lemma microStep_set (g : BftGossip) (m : Micro) :
    (g.microStep c m).engine.validatorSet = g.engine.validatorSet :=
  microStep_keeps (P := fun g' => g'.engine.validatorSet = g.engine.validatorSet) rfl
    fun _ _ ih hac => hac.validatorSet.trans ih

lemma grown_handleVote {p : VotePhase} {v : Vote}
    (h : Grown (satAdd64 g.engine.headNumber 1) R e₀ g.engine)
    (hm : m.message c = some (.ofVote p v)) (hs : Sober c R g m) :
    Grown (satAdd64 g.engine.headNumber 1) R e₀ (g.handleVote c p v).1.engine := by
  unfold handleVote
  dsimp only
  split_ifs with hfu
  · rwa [(requestCatchup_frame _).1]
  · obtain ⟨hsm, hle⟩ := requestCatchup_not_future (Bool.not_eq_true _ ▸ hfu)
    obtain ⟨hie, hhg, hrn, hn⟩ := hs (p, v) (by simp [hm]) hle
    rw [hsm]
    exact h.vote hie hhg hrn hn

lemma grown_microStep (h : Grown (satAdd64 g.engine.headNumber 1) R e₀ g.engine)
    (hsb : Sober c R g m) :
    Grown (satAdd64 g.engine.headNumber 1) R e₀ (g.microStep c m).engine := by
  by_cases hvt : ∃ p v, m.message c = some (.ofVote p v)
  · obtain ⟨p, v, hm⟩ := hvt
    have hg := grown_handleVote h hm hsb
    cases m with
    | recv ex bytes =>
      have hsp : g.microStep c (.recv ex bytes) = (g.handleVote c p v).1.harvestLoop c 2 := by
        show g.recv c ex bytes = _
        unfold recv
        cases hdc : decode c bytes with
        | error => simp [Micro.message, hdc, Except.toOption] at hm
        | ok msg =>
          obtain rfl : msg = .ofVote p v := by
            simpa [Micro.message, hdc, Except.toOption] using hm
          cases p <;> rfl
      -- the harvest after the vote shows the engine no vote
      have hh : Answered c none (g.handleVote c p v).1.engine
          ((g.handleVote c p v).1.harvestLoop c 2).engine := harvestLoop_answered 2 _
      obtain ⟨hse, hpg⟩ := answered_stores (by simp) hh
      have hs := microStep_set (c := c) g (.recv ex bytes)
      rw [hsp] at hs ⊢
      exact hg.shrink (hs.trans (h.set.trans hg.set.symm)) hse hpg
    | drive | timeout | stageTxs => cases hm
  · obtain ⟨hse, hpg⟩ := answered_stores (fun p v heq => hvt ⟨p, v, heq⟩)
      (microStep_answered c g m)
    exact h.shrink (microStep_set g m) hse hpg

/-- **Vote memory.** While the head stays and votes are sober: four votes
per member and round. -/
theorem vote_memory_bounded (c : Crypto) (R : UInt32) :
    ∃ bound : ValidatorSet → Nat, ∀ (g : BftGossip) (ms : List Micro),
      Along (microStep c) (fun g' m => Sober c R g' m ∧
        (g'.microStep c m).engine.headNumber = g'.engine.headNumber) g ms →
      (g.runMicro c ms).engine.stored ≤ g.engine.stored + bound g.engine.validatorSet := by
  refine ⟨fun vs => 4 * (vs.size * (R.toNat + 1)), fun g ms hr => ?_⟩
  have hg := hr.keeps
    (P := fun g' => g'.engine.headNumber = g.engine.headNumber ∧
      Grown (satAdd64 g.engine.headNumber 1) R g.engine g'.engine) ?_ ⟨rfl, .refl _⟩
  · exact hg.2.stored_le
  · rintro g' m ⟨hs, hsp⟩ ⟨hhd, hg⟩
    refine ⟨hsp.trans hhd, ?_⟩
    rw [← hhd] at hg ⊢
    exact grown_microStep hg hs

def soberRun : List Micro :=
  [.recv none (strayBytes 1), .timeout, .recv none (BftMessage.encode (.prevote
    { strayVote 1 with validatorIndex := 0 }))]

theorem vote_memory_bounded_follower : ∃ bound : ValidatorSet → Nat,
      ((idleFollower .reference).runMicro .reference soberRun).engine.stored ≤ bound followerSet :=
  have ⟨bound, hbound⟩ := vote_memory_bounded .reference 0
  ⟨fun vs => (idleFollower .reference).engine.stored + bound vs,
    hbound (idleFollower .reference) soberRun (by decide +kernel)⟩

lemma strayVote_buffered {g' : BftGossip} (hil : g.engine.coordinator = none)
    (hhd : g.engine.headNumber = 0)
    (hg' : g' = g.microStep .reference (.recv none (strayBytes 1))) :
    g'.engine.coordinator = none ∧ g'.engine.headNumber = 0 ∧
      g'.engine.pendingPrevotes.length = g.engine.pendingPrevotes.length + 1 := by
  have hdc : decode .reference (strayBytes 1) = .ok (.prevote (strayVote 1)) := by
    decide +kernel
  have hc : g.requestCatchup (strayVote 1).height = (g, false) := by
    have hle : (strayVote 1).height ≤ satAdd64 g.engine.headNumber 1 := by
      rw [hhd]
      decide
    simp [requestCatchup, hle, ↓reduceIte]
  have hce := submitRemoteVote_cases (c := .reference) .prevote g.engine (strayVote 1)
  have hr : g' = harvestLoop .reference 2
      { g with
        engine := (g.engine.submitRemoteVote .reference .prevote (strayVote 1)).1 } := by
    simp [hg', microStep, recv, hdc, dispatchInbound, handleVote, hc,
      Bool.false_eq_true, ↓reduceIte, autoHarvest]
  rw [hr]
  generalize g.engine.submitRemoteVote .reference .prevote (strayVote 1) = out at hce ⊢
  cases hce with
  | stale height => exact absurd height (by rw [hhd]; decide)
  | buffered =>
    have hs : harvestLoop .reference 2 { g with
        engine := (g.engine.recordRemote .prevote (strayVote 1)).setPending .prevote
          (g.engine.pending .prevote ++ [strayVote 1]) } = _ := harvestLoop_idle hil
    rw [hs]
    exact ⟨hil, hhd, by simp [setPending, pending]⟩
  | taken _ _ active | refused _ _ _ active => exact absurd (hil.symm.trans active) (by simp)

lemma flood_stored (n : Nat)
    (hsp : ∀ g : BftGossip, g.engine.coordinator = none → g.engine.headNumber = 0 →
      (g.microStep c m).engine.coordinator = none ∧ (g.microStep c m).engine.headNumber = 0 ∧
        (g.microStep c m).engine.pendingPrevotes.length = g.engine.pendingPrevotes.length + 1)
    (hil : g.engine.coordinator = none) (hhd : g.engine.headNumber = 0) :
    Along (microStep c) (fun g' m => (g'.microStep c m).engine.headNumber = g'.engine.headNumber)
        g (replicate n m) ∧ (g.runMicro c (replicate n m)).engine.pendingPrevotes.length =
        g.engine.pendingPrevotes.length + n := by
  induction n generalizing g with
  | zero => exact ⟨trivial, rfl⟩
  | succ _ ih =>
    obtain ⟨hil', hhd', hm⟩ := hsp g hil hhd
    obtain ⟨ha, hrs⟩ := ih hil' hhd'
    rw [replicate_succ]
    refine ⟨⟨hhd'.trans hhd.symm, ha⟩, ?_⟩
    rw [runMicro, foldl_cons, ← runMicro, hrs, hm]
    omega

/-- No bound that depends on the validator set alone holds for every run
of a fresh node that keeps its head. -/
theorem vote_memory_unbounded :
    ¬∃ bound : ValidatorSet → Nat, ∀ (config : BftConfig) (head : Block) (seed : Arr 32)
      (ms : List Micro), Along (microStep .reference)
        (fun g' m => (g'.microStep .reference m).engine.headNumber = g'.engine.headNumber)
        (.new (.fresh .reference config head seed)) ms →
      ((BftGossip.new (.fresh .reference config head seed)).runMicro .reference
        ms).engine.stored ≤ bound config.validatorSet := by
  rintro ⟨bound, hb⟩
  obtain ⟨ha, hlh⟩ := flood_stored
    (g := idleFollower .reference) (m := .recv none (strayBytes 1)) (bound followerSet + 1)
    (fun _ hil hhd => strayVote_buffered hil hhd rfl) rfl rfl
  have hle := hb followerConfig (referenceHead followerConfig 0) (Arr.zero 32) _ ha
  have hs : followerConfig.validatorSet = followerSet := rfl
  rw [stored, hs] at hle
  rw [idleFollower] at hlh
  omega

end BftGossip

end Aii.Bft
