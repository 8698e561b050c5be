/-
Aii.Node.HeaderRoots — are the roots in a header those after execution?

A proposal is executed on the store of the node, which may lack the blocks
harvested in the same tick.
-/
import Aii.Node.ProposalExec
import Aii.Node.StakeAgreement

namespace Aii.Node

open Common Chain Bft List

section Model

variable (c : Crypto) (revm : Revm) (spec : ChainSpec)

/-- The store after executing `blocks` in order. -/
def executedChain (b : Backend) (blocks : List Block) : Backend :=
  blocks.foldl (applyBlock c revm spec) b

/-- The header has the roots and the gas of executing the body on `b`. -/
def RightRoots (b : Backend) (block : Block) : Prop :=
  block.header.stateRoot = (committedRoots c revm spec b block).stateRoot ∧
    block.header.receiptsRoot = (committedRoots c revm spec b block).receiptsRoot ∧
    block.header.gasUsed = (committedRoots c revm spec b block).gasUsed
deriving Decidable

/-- Every header is right on the store the blocks before it leave. -/
def ChainRoots (b : Backend) : List Block → Prop
  | [] => True
  | block :: blocks =>
    RightRoots c revm spec b block ∧ ChainRoots (applyBlock c revm spec b block) blocks

def nodeOracle (b : Backend) : Option Executor := some (nodeStateExecutor c revm spec b)

/-- The node leads the round it is in, or the first one of the next
height, and the round has no proposal yet. -/
def MayPropose (e : BftEngine) : Prop :=
  ∃ co ∈ e.ensureCoordinator.coordinator,
    co.phase = .awaitingProposal ∧ co.leaderIndex c = e.myIndex.toNat
deriving Decidable

/-- A block response either is refused by the engine or carries a block
with the roots of the state after the harvested blocks. -/
def ServedRight (s : NodeLoop) (blockBytes : Bytes) (cert : PrecommitCertificate) : Prop :=
  ∀ p ∈ (Block.decode blockBytes).toOption, p.2 = [] →
    (s.driver.engine.adoptSyncedBlock c p.1 cert).isOk →
    RightRoots c revm spec (executedChain c revm spec s.node.backend s.driver.harvested) p.1
deriving Decidable

def FreshMessage (s : NodeLoop) : BftMessage → Prop
  | .proposal _ => s.driver.harvested = []
  | .blockResponse blockBytes cert => ServedRight c revm spec s blockBytes cert
  | _ => True

instance (s : NodeLoop) (msg : BftMessage) : Decidable (FreshMessage c revm spec s msg) := by
  cases msg <;> unfold FreshMessage <;> infer_instance

/-- What a micro-step has to meet: while harvested blocks wait to be
committed no proposal arrives and the node does not lead. -/
def FreshMicro (s : NodeLoop) : BftGossip.Micro → Prop
  | .recv _ bytes => ∀ msg ∈ (BftMessage.decode c bytes).toOption, FreshMessage c revm spec s msg
  | .drive _ => MayPropose c s.driver.engine → s.driver.harvested = []
  | _ => True

instance (s : NodeLoop) (m : BftGossip.Micro) : Decidable (FreshMicro c revm spec s m) := by
  cases m <;> unfold FreshMicro <;> infer_instance

/-- The run condition: proposals are built and received on a store that
has all harvested blocks, served blocks have right roots, evidence finds
nothing at stake and a committed block is executed. -/
def freshRoots : NodeLoop.StepOk where
  micro := FreshMicro c revm spec
  evidence := noDebit.evidence
  commit s block := applies c s.node block = true

instance (s : NodeLoop) (m : BftGossip.Micro) : Decidable ((freshRoots c revm spec).micro s m) :=
  inferInstanceAs (Decidable (FreshMicro c revm spec s m))

instance (s : NodeLoop) (ev : EquivocationEvidence) :
    Decidable ((freshRoots c revm spec).evidence s ev) :=
  inferInstanceAs (Decidable (noDebit.evidence s ev))

instance (s : NodeLoop) (block : Block) : Decidable ((freshRoots c revm spec).commit s block) :=
  inferInstanceAs (Decidable (_ = true))

/-- The invariant of an admitted run. `blocks` are drained and not
committed yet. -/
structure RootsInv (genesis : Backend) (s : NodeLoop) (blocks : List Block) : Prop where
  readable : StateDb.StateOk s.node.backend
  follows : ExecAgree s.node.backend (executedChain c revm spec genesis s.committed)
  right : ChainRoots c revm spec genesis (s.committed ++ blocks ++ s.driver.harvested)
  held : ∀ p ∈ s.driver.engine.proposal, RightRoots c revm spec
    (executedChain c revm spec genesis (s.committed ++ blocks ++ s.driver.harvested)) p.1

end Model

section Steps

variable {c : Crypto} {revm : Revm} {spec : ChainSpec} {b b₁ b₂ genesis : Backend} {s : NodeLoop}
  {g g' : BftGossip} {block : Block} {m : BftGossip.Micro} {blocks : List Block}
  {ex : Option Executor} {msg : BftMessage}

lemma executedChain_append (b : Backend) (xs ys : List Block) :
    executedChain c revm spec b (xs ++ ys) =
      executedChain c revm spec (executedChain c revm spec b xs) ys :=
  foldl_append

lemma executedChain_agree (h : ExecAgree b₁ b₂) (blocks : List Block) :
    ExecAgree (executedChain c revm spec b₁ blocks) (executedChain c revm spec b₂ blocks) := by
  induction blocks generalizing b₁ b₂ with
  | nil => exact h
  | cons block _ ih => exact ih (applyBlock_agree h block)

lemma RightRoots.congr (h : ExecAgree b₁ b₂) (hrg : RightRoots c revm spec b₁ block) :
    RightRoots c revm spec b₂ block := by
  unfold RightRoots at hrg ⊢
  rw [← committedRoots_agree h]
  exact hrg

lemma chainRoots_append (b : Backend) (xs ys : List Block) : ChainRoots c revm spec b (xs ++ ys) ↔
      ChainRoots c revm spec b xs ∧ ChainRoots c revm spec (executedChain c revm spec b xs) ys := by
  induction xs generalizing b with
  | nil => exact (iff_of_eq (true_and _)).symm
  | cons _ _ ih =>
    simp only [cons_append, ChainRoots, ih, and_assoc]
    rfl

lemma ChainRoots.concat (h : ChainRoots c revm spec b blocks)
    (hrg : RightRoots c revm spec (executedChain c revm spec b blocks) block) :
    ChainRoots c revm spec b (blocks ++ [block]) :=
  (chainRoots_append b blocks [block]).mpr ⟨h, hrg, trivial⟩

lemma reconstruct_rightRoots (hok : StateDb.StateOk b) (e : BftEngine) (height : UInt64)
    (proof : LeaderProof) (coinbase : Address) (body : BlockBody) : RightRoots c revm spec b
      (e.reconstruct c (nodeOracle c revm spec b) height proof coinbase body) := by
  generalize hbl : e.reconstruct c (nodeOracle c revm spec b) height proof coinbase body = block
  have hby : block.body = body := by rw [← hbl]; rfl
  have hc : block.header.beneficiary = coinbase := by rw [← hbl]; rfl
  have hhg : block.header.number = height := by rw [← hbl]; rfl
  have hcp := copyExecutionBackend_agree b
  have hec : executeBodyForRoots c revm spec (copyExecutionBackend b) body coinbase height =
      .ok (committedRoots c revm spec b block) := by
    rw [← hby, ← hc, ← hhg, executeBodyForRoots_eq (hcp.stateOk hok), committedRoots_agree hcp]
  have hr : BftEngine.rootsFor (nodeOracle c revm spec b) body coinbase height =
      committedRoots c revm spec b block := by
    unfold nodeOracle BftEngine.rootsFor nodeStateExecutor
    dsimp only
    rw [hec]
    rfl
  rw [RightRoots, ← hr, ← hbl]
  exact ⟨rfl, rfl, rfl⟩

/-! ## The steps of the loop -/

lemma oracle_of_message (hw : NodeLoop.RunsWith ex m) (hm : m.message c = some msg) :
    m.oracle = ex := by
  cases m with
  | recv => exact hw
  | drive | timeout | stageTxs => cases hm

lemma FreshMicro.message (h : FreshMicro c revm spec s m) (hm : m.message c = some msg) :
    FreshMessage c revm spec s msg := by
  cases m with
  | recv => exact h msg hm
  | drive | timeout | stageTxs => cases hm

section Keeps

variable (h : RootsInv c revm spec genesis { s with driver := g } [])

include h

lemma RootsInv.built (hex : ex = nodeOracle c revm spec s.node.backend) (hil : g.harvested = [])
    (height : UInt64) (proof : LeaderProof) (coinbase : Address) (body : BlockBody) :
    RightRoots c revm spec
      (executedChain c revm spec genesis (s.committed ++ [] ++ g.harvested))
      (g.engine.reconstruct c ex height proof coinbase body) := by
  rw [hex, hil, append_nil, append_nil]
  exact (reconstruct_rightRoots h.readable _ _ _ _ _).congr h.follows

lemma RootsInv.propose {p : Block × LeaderProof}
    (hrg : RightRoots c revm spec
      (executedChain c revm spec genesis (s.committed ++ [] ++ g.harvested)) p.1)
    (co : Option RoundCoordinator) :
    RootsInv c revm spec genesis { s with driver := { g with engine := { g.engine with
      coordinator := co, proposal := some p } } } [] where
  readable := h.readable
  follows := h.follows
  right := h.right
  held q hq := by
    obtain rfl : p = q := Option.some.inj hq
    exact hrg

lemma RootsInv.append
    (hrg : RightRoots c revm spec
      (executedChain c revm spec genesis (s.committed ++ [] ++ g.harvested)) block)
    (hh : g'.harvested = g.harvested ++ [block]) (hc : g'.engine.proposal = none) :
    RootsInv c revm spec genesis { s with driver := g' } [] where
  readable := h.readable
  follows := h.follows
  right := by
    rw [hh, ← append_assoc]
    exact h.right.concat hrg
  held q hq := by
    rw [hc] at hq
    cases hq

lemma RootsInv.frame (hh : g'.harvested = g.harvested)
    (hpo : g'.engine.proposal = g.engine.proposal ∨ g'.engine.proposal = none) :
    RootsInv c revm spec genesis { s with driver := g' } [] where
  readable := h.readable
  follows := h.follows
  right := by
    rw [hh]
    exact h.right
  held q hq := by
    rw [hh]
    rcases hpo with heq | heq
    · exact h.held q (heq ▸ hq)
    · rw [heq] at hq
      cases hq

end Keeps

lemma RootsInv.act (hok : FreshMicro c revm spec s m)
    (hw : NodeLoop.RunsWith (nodeOracle c revm spec s.node.backend) m)
    (h : RootsInv c revm spec genesis { s with driver := g } [])
    (ha : BftGossip.Act c s.driver m g g') :
    RootsInv c revm spec genesis { s with driver := g' } [] := by
  cases ha with
  | sync | resend | stage | record | ensure | jump | announce | vote | prune | castPrevote
  | castPrecommit => exact h.frame rfl (.inl rfl)
  | buffer _ p => exact h.frame rfl (.inl (by cases p <;> rfl))
  | timeout => exact h.frame rfl (.inr rfl)
  | accept _ _ _ _ _ _ hsm hm _ _ hbu =>
    have hil := hsm.harvested.trans (hok.message hm)
    subst hbu
    exact h.propose (h.built (oracle_of_message hw hm) hil _ _ _ _) _
  | propose _ _ co _ _ _ hsm hbu _ hs _ hd hrn hld =>
    obtain ⟨ex, rfl⟩ := hd
    have haw := (RoundCoordinator.submitProposal_ok hs).1
    have hil := hsm.harvested.trans (hok ⟨co, hrn, haw, hld⟩)
    subst hbu
    exact h.propose (h.built hw hil _ _ _ _) _
  | harvest _ _ block proof _ _ _ _ _ hpp =>
    exact h.append (h.held (block, proof) hpp) rfl rfl
  | adopt _ bytes block cert _ _ _ hm had hft hdc =>
    subst hft
    have hsv : ServedRight c revm spec s bytes cert := hok.message hm
    have hrg := hsv (block, []) (by rw [hdc]; rfl) rfl (by rw [had]; rfl)
    obtain rfl := BftGossip.adoptSyncedBlock_eq had
    refine h.append (hrg.congr ?_) rfl rfl
    rw [append_nil, executedChain_append]
    exact executedChain_agree h.follows _

lemma RootsInv.commit (has : applies c s.node block = true)
    (h : RootsInv c revm spec genesis s (block :: blocks)) :
    RootsInv c revm spec genesis (NodeLoop.commitOne c revm spec s block) blocks := by
  have hstore : ExecAgree (commitStep c revm spec s.node block).backend
      (applyBlock c revm spec s.node.backend block) := by
    have hci : (commitBlock c revm spec s.node block).backend =
        applyBlock c revm spec s.node.backend block := by
      rw [commitBlock_of_applies has]
    rw [commitStep, ← hci]
    exact setHead_execAgree _ _
  have hm : s.committed ++ [block] ++ blocks = s.committed ++ block :: blocks :=
    append_cons s.committed block blocks ▸ rfl
  obtain ⟨last, e, heq, he⟩ := NodeLoop.commitOne_cases c revm spec s block
  have hpo : e.proposal = s.driver.engine.proposal := by
    rcases he with rfl | ⟨vs, i, rfl⟩
    · rfl
    · rfl
  rw [heq]
  refine ⟨?_, ?_, ?_, ?_⟩
  · exact hstore.stateOk (stateOk_applyBlock h.readable block)
  · rw [executedChain_append]
    exact hstore.trans (applyBlock_agree h.follows block)
  · dsimp only
    rw [hm]
    exact h.right
  · dsimp only
    rw [hpo, hm]
    exact h.held

lemma rootsInv_kept (genesis : Backend) :
    NodeLoop.Kept c revm spec (nodeOracle c revm spec) (freshRoots c revm spec)
      fun s _ blocks => RootsInv c revm spec genesis s blocks where
  act s m g g' hok hw _ h ha := h.act hok hw ha
  clock s key h := { h with }
  take s h := { h with }
  evidence s ev evs hok h := by
    obtain ⟨hb, -, hcm⟩ := handleEvidence_agree spec hok
    have hd := @NodeLoop.handleEvidence_driver spec s ev
    refine ⟨hb.stateOk h.readable, ?_, ?_, ?_⟩
    · rw [hcm]
      exact hb.trans h.follows
    · rw [hcm, hd]
      exact h.right
    · rw [hcm, hd]
      exact h.held
  drain s h := by
    have hm : s.committed ++ s.driver.harvested ++ [] =
        s.committed ++ [] ++ s.driver.harvested := by
      rw [append_nil, append_nil]
    exact ⟨h.readable, h.follows, hm ▸ h.right, hm ▸ h.held⟩
  commit s block blocks has h := h.commit has

/-- In a run that meets `freshRoots` every committed header has the roots of
executing its body. -/
theorem header_roots_post_execution {config : BftConfig} {head : Block} {seed : Arr 32}
    {genesis : NodeState} {inputs : List LoopInput} (hgenesis : StateDb.StateOk genesis.backend)
    (hok : NodeLoop.RunOk c revm spec (nodeOracle c revm spec) (freshRoots c revm spec)
      (.start (.fresh c config head seed) genesis) inputs)
    {earlier later : List Block} {block : Block}
    (hblock : (NodeLoop.run c revm spec (nodeOracle c revm spec)
      (.start (.fresh c config head seed) genesis) inputs).committed = earlier ++ block :: later) :
    RightRoots c revm spec (executedChain c revm spec genesis.backend earlier) block := by
  have hsr : RootsInv c revm spec genesis.backend
      (.start (.fresh c config head seed) genesis) [] :=
    ⟨hgenesis, .refl _, trivial, fun p hp => by cases hp⟩
  have hi := NodeLoop.run_induction (rootsInv_kept genesis.backend) hok hsr
  have hrg := hi.right
  rw [append_nil, hblock, append_assoc] at hrg
  exact ((chainRoots_append _ _ _).mp hrg).2.1

end Steps

/-! ## A small leader

Validator 1 has stake 1 next to a validator with stake 5, whose votes
alone decide. Every block mints a reward. -/

def rewardSpec : ChainSpec := { sampleSpec with blockRewardInitialWei := 10 }

def rewardRun (k seed : Nat) (inputs : List LoopInput) : NodeLoop :=
  NodeLoop.run .reference Revm.reference rewardSpec
    (nodeOracle .reference Revm.reference rewardSpec)
    (.start (.fresh .reference (referenceConfig followerSet k seed)
      (referenceHead (referenceConfig followerSet k seed) 7)
      (referenceConfig followerSet k seed).initialSeed) (.new sampleGenesis)) inputs

def arrives (inbox : List Bytes) : LoopInput := ⟨inbox, [], false, []⟩

def votesFor (s : NodeLoop) (height : UInt64) : List Bytes :=
  s.driver.engine.proposal.toList.flatMap fun p =>
    [VotePhase.prevote, .precommit].map fun phase =>
      (BftMessage.ofVote phase (signVote .reference phase (arrOfNat 32 1)
        (p.1.hash .reference) height 0 0)).encode

/-- The small leader proposes block 8, gets the votes for it, and then
the votes for the block it holds after that tick. -/
def smallLeaderInputs : List LoopInput :=
  let proposed := [arrives []]
  let decided := proposed ++ [arrives (votesFor (rewardRun 1 5 proposed) 8)]
  decided ++ [arrives (votesFor (rewardRun 1 5 decided) 9)]

/-- A validator with a quorum of its own commits two blocks with the right
roots. -/
theorem header_roots_own_quorum :
    ∃ first second, (rewardRun 0 0 (List.replicate 6 (arrives []))).committed = [first, second] ∧
      RightRoots .reference Revm.reference rewardSpec
        (executedChain .reference Revm.reference rewardSpec sampleGenesis [first]) second := by
  obtain ⟨first, second, hcm⟩ : ∃ first second,
      (rewardRun 0 0 (List.replicate 6 (arrives []))).committed = [first, second] :=
    length_eq_two.mp (by decide +kernel)
  refine ⟨first, second, hcm, ?_⟩
  exact @header_roots_post_execution .reference Revm.reference rewardSpec _ _ _
    (.new sampleGenesis) _ sampleGenesis_ok (by decide +kernel) [first] [] second hcm

/-- The header of block 9 has the roots of the state without block 8. -/
theorem stale_roots_committed :
    ∃ first second, (rewardRun 1 5 smallLeaderInputs).committed = [first, second] ∧
      RightRoots .reference Revm.reference rewardSpec sampleGenesis second ∧
      ¬ RightRoots .reference Revm.reference rewardSpec
        (executedChain .reference Revm.reference rewardSpec sampleGenesis [first]) second := by
  obtain ⟨first, second, hcm⟩ : ∃ first second,
      (rewardRun 1 5 smallLeaderInputs).committed = [first, second] :=
    length_eq_two.mp (by decide +kernel)
  have hp : ∀ p ∈ (rewardRun 1 5 smallLeaderInputs).committed.zip
        (rewardRun 1 5 smallLeaderInputs).committed.tail,
      RightRoots .reference Revm.reference rewardSpec sampleGenesis p.2 ∧
        ¬ RightRoots .reference Revm.reference rewardSpec
          (executedChain .reference Revm.reference rewardSpec sampleGenesis [p.1]) p.2 := by
    decide +kernel
  rw [hcm] at hp
  exact ⟨first, second, hcm, hp (first, second) (mem_singleton_self _)⟩

end Aii.Node
