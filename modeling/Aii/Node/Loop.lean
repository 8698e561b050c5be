/-
Aii.Node.Loop — the BFT producer loop of the node
(`aii-node/src/main.rs`, the task spawned for `--bft`).

The round snapshot written to disk is left out, as nothing here reads it.
-/
import Aii.Bft.Acts
import Aii.Node.Commit

namespace Aii.Node

open Common Chain Bft List BftGossip

structure Debit where
  evidence : EquivocationEvidence
  offender : Address
  store : Backend

structure NodeLoop where
  driver : BftGossip
  node : NodeState
  lastRotationCheckedEpoch : Option UInt64
  timeoutKey : Option (UInt64 × UInt32)
  /-- History: the blocks committed so far. -/
  committed : List Block
  /-- History: the debits made so far. -/
  debits : List Debit

/-- What one iteration gets from outside. -/
structure LoopInput where
  inbox : List Bytes
  txs : List Tx
  deadlinePassed : Bool
  lateInbox : List Bytes

namespace NodeLoop

def start (engine : BftEngine) (node : NodeState) : NodeLoop :=
  ⟨.new engine, node, none, none, [], []⟩

section Model

variable (c : Crypto) (revm : Revm) (spec : ChainSpec) (oracle : Backend → Option Executor)

/-! ## The steps of an iteration -/

/-- `gossip.tick()`. -/
def tick (s : NodeLoop) (inbox : List Bytes) : NodeLoop :=
  { s with driver := s.driver.tick c (oracle s.node.backend) inbox }

def stage (s : NodeLoop) (txs : List Tx) : NodeLoop :=
  { s with driver := { s.driver with engine := s.driver.engine.extendPendingTxs txs } }

/-- `(min_validator_stake_wei / 100).max(1)`. -/
def slashAmountWei : U256 := BitVec.ofNat 256 (max (spec.minValidatorStakeWei.toNat / 100) 1)

/-- One piece of evidence: record it, and debit the address the latest
epoch set has at the index. -/
def handleEvidence (s : NodeLoop) (ev : EquivocationEvidence) : NodeLoop :=
  let b := recordSlashing s.node.backend ev
  match latestValidatorAddressByIndex b ev.validatorIndex with
  | none => { s with node := { s.node with backend := b } }
  | some (_, offender) =>
    { s with
      node := { s.node with backend := debitSlashStake b offender (slashAmountWei spec) }
      debits := s.debits ++ if (StakeTable.get b offender).isSome then [⟨ev, offender, b⟩] else [] }

/-- `drain_evidence`. -/
def takeEvidence (s : NodeLoop) : NodeLoop × List EquivocationEvidence :=
  let out := s.driver.engine.drainEvidence
  ({ s with driver := { s.driver with engine := out.1 } }, out.2)

/-- Every piece of evidence, in order. -/
def slashAll (s : NodeLoop) : NodeLoop :=
  (takeEvidence s).2.foldl (handleEvidence spec) (takeEvidence s).1

/-- `drain_harvested`, and one more `try_harvest_committed`. -/
def drain (s : NodeLoop) : NodeLoop × List Block :=
  let out := s.driver.drainHarvested
  match out.1.engine.tryHarvestCommitted c with
  | none => ({ s with driver := out.1 }, out.2)
  | some (e, block) => ({ s with driver := { out.1 with engine := e } }, out.2 ++ [block])

/-- Rotate the engine to the latest epoch set, once per epoch. -/
def rotate (s : NodeLoop) : NodeLoop :=
  match Dpos.latestValidatorSet s.node.backend with
  | none => s
  | some (epoch, entries) =>
    if s.lastRotationCheckedEpoch = some epoch then s
    else
      let s := { s with lastRotationCheckedEpoch := some epoch }
      match bftMyIndexFromEntries entries (c.blsPublicKey s.driver.engine.config.myBlsSk) with
      | none => s
      | some myIndex =>
        match bftValidatorSetFromEntries c entries >>= fun vs =>
            s.driver.engine.rotateValidatorSet vs myIndex with
        | .error _ => s
        | .ok e => { s with driver := { s.driver with engine := e } }

def commitOne (s : NodeLoop) (block : Block) : NodeLoop :=
  rotate c { s with
    node := setHead (commitBlock c revm spec s.node block) block.header.number
    committed := s.committed ++ [block] }

def currentTimeoutKey (e : BftEngine) : UInt64 × UInt32 :=
  match e.currentRoundState with
  | some (height, round, _) => (height, round)
  | none => (satAdd64 e.headNumber 1, 0)

/-- The timeout branch: restart the clock in a new round; otherwise, once
the deadline has passed, end the round and tick again. -/
def checkTimeout (s : NodeLoop) (deadlinePassed : Bool) (lateInbox : List Bytes) : NodeLoop :=
  let key := currentTimeoutKey s.driver.engine
  if s.timeoutKey ≠ some key then { s with timeoutKey := some key }
  else if deadlinePassed then
    let driver := s.driver.timeout c
    tick c oracle
      { s with
        driver := driver
        timeoutKey := driver.engine.currentRoundState.map fun p => (p.1, p.2.1) } lateInbox
  else s

def gather (s : NodeLoop) (i : LoopInput) : NodeLoop := stage (tick c oracle s i.inbox) i.txs

/-- The second part: handle the evidence. -/
def punish (s : NodeLoop) (i : LoopInput) : NodeLoop := slashAll spec (gather c oracle s i)

def commitAll (s : NodeLoop) (i : LoopInput) : NodeLoop :=
  let out := drain c (punish c spec oracle s i)
  out.2.foldl (commitOne c revm spec) out.1

def iterate (s : NodeLoop) (i : LoopInput) : NodeLoop :=
  checkTimeout c oracle (commitAll c revm spec oracle s i) i.deadlinePassed i.lateInbox

def run (s : NodeLoop) (inputs : List LoopInput) : NodeLoop :=
  inputs.foldl (iterate c revm spec oracle) s

/-! ## Runs under a condition on each step -/

structure StepOk where
  micro : NodeLoop → BftGossip.Micro → Prop
  evidence : NodeLoop → EquivocationEvidence → Prop
  commit : NodeLoop → Block → Prop

variable (ok : StepOk)

/-- The micro-steps of a tick over `inbox`. -/
def tickMicros (s : NodeLoop) (inbox : List Bytes) : List BftGossip.Micro :=
  (BftGossip.Event.tick (oracle s.node.backend) inbox).micros

/-- Every micro-step of the driver meets the condition. -/
def MicrosOk (s : NodeLoop) (ms : List BftGossip.Micro) : Prop :=
  BftGossip.Admitted c (fun g m => ok.micro { s with driver := g } m) s.driver ms

/-- Every piece of evidence meets the condition when it is handled. -/
def EvidenceOk : NodeLoop → List EquivocationEvidence → Prop
  | _, [] => True
  | s, ev :: evs => ok.evidence s ev ∧ EvidenceOk (handleEvidence spec s ev) evs

def CommitsOk : NodeLoop → List Block → Prop
  | _, [] => True
  | s, block :: blocks => ok.commit s block ∧ CommitsOk (commitOne c revm spec s block) blocks

def timeoutMicros (s : NodeLoop) (deadlinePassed : Bool) (lateInbox : List Bytes) :
    List BftGossip.Micro :=
  if s.timeoutKey = some (currentTimeoutKey s.driver.engine) ∧ deadlinePassed then
    .timeout :: tickMicros oracle s lateInbox
  else []

/-- Every step of an iteration meets the condition. -/
structure IterateOk (s : NodeLoop) (i : LoopInput) : Prop where
  micros : MicrosOk c ok s (tickMicros oracle s i.inbox ++ [.stageTxs i.txs])
  evidence : EvidenceOk spec ok (takeEvidence (gather c oracle s i)).1
    (takeEvidence (gather c oracle s i)).2
  commits : CommitsOk c revm spec ok (drain c (punish c spec oracle s i)).1
    (drain c (punish c spec oracle s i)).2
  timeout : MicrosOk c ok (commitAll c revm spec oracle s i)
    (timeoutMicros oracle (commitAll c revm spec oracle s i) i.deadlinePassed i.lateInbox)

def RunOk : NodeLoop → List LoopInput → Prop
  | _, [] => True
  | s, i :: inputs =>
    IterateOk c revm spec oracle ok s i ∧ RunOk (iterate c revm spec oracle s i) inputs

section Decidable

variable [∀ s m, Decidable (ok.micro s m)] [∀ s ev, Decidable (ok.evidence s ev)]
  [∀ s block, Decidable (ok.commit s block)]

instance (s : NodeLoop) (ms : List BftGossip.Micro) : Decidable (MicrosOk c ok s ms) :=
  inferInstanceAs (Decidable (BftGossip.Admitted _ _ _ _))

instance EvidenceOk.decidable :
    (s : NodeLoop) → (evs : List EquivocationEvidence) → Decidable (EvidenceOk spec ok s evs)
  | _, [] => inferInstanceAs (Decidable True)
  | s, ev :: evs =>
    have := EvidenceOk.decidable (handleEvidence spec s ev) evs
    inferInstanceAs (Decidable (ok.evidence s ev ∧ EvidenceOk spec ok _ evs))

instance CommitsOk.decidable :
    (s : NodeLoop) → (blocks : List Block) → Decidable (CommitsOk c revm spec ok s blocks)
  | _, [] => inferInstanceAs (Decidable True)
  | s, block :: blocks =>
    have := CommitsOk.decidable (commitOne c revm spec s block) blocks
    inferInstanceAs (Decidable (ok.commit s block ∧ CommitsOk c revm spec ok _ blocks))

instance (s : NodeLoop) (i : LoopInput) : Decidable (IterateOk c revm spec oracle ok s i) :=
  decidable_of_iff (_ ∧ _ ∧ _ ∧ _) ⟨fun h => ⟨h.1, h.2.1, h.2.2.1, h.2.2.2⟩,
    fun h => ⟨h.micros, h.evidence, h.commits, h.timeout⟩⟩

instance RunOk.decidable :
    (s : NodeLoop) → (inputs : List LoopInput) → Decidable (RunOk c revm spec oracle ok s inputs)
  | _, [] => inferInstanceAs (Decidable True)
  | s, i :: inputs =>
    have := RunOk.decidable (iterate c revm spec oracle s i) inputs
    inferInstanceAs (Decidable (IterateOk c revm spec oracle ok s i ∧ RunOk _ _ _ _ ok _ inputs))

end Decidable

end Model

lemma rotate_cases (c : Crypto) (s : NodeLoop) :
    ∃ last e, rotate c s =
        { s with lastRotationCheckedEpoch := last, driver := { s.driver with engine := e } } ∧
      (e = s.driver.engine ∨ ∃ vs i, s.driver.engine.rotateValidatorSet vs i = .ok e) := by
  unfold rotate
  split
  · exact ⟨_, _, rfl, .inl rfl⟩
  next epoch entries _ =>
    split_ifs
    · exact ⟨_, _, rfl, .inl rfl⟩
    · dsimp only
      split
      · exact ⟨_, _, rfl, .inl rfl⟩
      next i _ =>
        split
        · exact ⟨_, _, rfl, .inl rfl⟩
        next e hrd =>
          cases hvs : bftValidatorSetFromEntries c entries with
          | error =>
            rw [hvs] at hrd
            cases hrd
          | ok vs =>
            rw [hvs] at hrd
            exact ⟨_, _, rfl, .inr ⟨vs, i, hrd⟩⟩

lemma commitOne_cases (c : Crypto) (revm : Revm) (spec : ChainSpec) (s : NodeLoop)
    (block : Block) :
    ∃ last e, commitOne c revm spec s block = { s with
          node := commitStep c revm spec s.node block
          committed := s.committed ++ [block]
          lastRotationCheckedEpoch := last
          driver := { s.driver with engine := e } } ∧
      (e = s.driver.engine ∨ ∃ vs i, e = { s.driver.engine with
        pendingPrevotes := [], pendingPrecommits := [], validatorSet := vs, myIndex := i }) := by
  obtain ⟨last, e, heq, he⟩ := rotate_cases c { s with
    node := commitStep c revm spec s.node block, committed := s.committed ++ [block] }
  refine ⟨last, e, heq, ?_⟩
  rcases he with rfl | ⟨vs, i, hrd⟩
  · exact .inl rfl
  · exact .inr ⟨vs, i, (BftEngine.rotateValidatorSet_ok hrd).2.2⟩

/-! ## Induction over runs -/

section Induction

variable {c : Crypto} {revm : Revm} {spec : ChainSpec} {oracle : Backend → Option Executor}
  {ok : StepOk} {s : NodeLoop}

def runMicros (c : Crypto) (s : NodeLoop) (ms : List BftGossip.Micro) : NodeLoop :=
  { s with driver := s.driver.runMicro c ms }

lemma gather_eq (s : NodeLoop) (i : LoopInput) :
    gather c oracle s i = runMicros c s (tickMicros oracle s i.inbox ++ [.stageTxs i.txs]) := by
  have htic : s.driver.tick c (oracle s.node.backend) i.inbox =
      s.driver.runMicro c (tickMicros oracle s i.inbox) :=
    step_eq_runMicro c s.driver (.tick (oracle s.node.backend) i.inbox)
  rw [gather, stage, tick, htic, runMicros, runMicro, runMicro, foldl_append]
  rfl

variable (c oracle) in
lemma checkTimeout_eq (s : NodeLoop) (deadlinePassed : Bool) (lateInbox : List Bytes) :
    ∃ key, checkTimeout c oracle s deadlinePassed lateInbox =
      { runMicros c s (timeoutMicros oracle s deadlinePassed lateInbox) with
        timeoutKey := key } := by
  unfold checkTimeout timeoutMicros
  by_cases hkey : s.timeoutKey = some (currentTimeoutKey s.driver.engine)
  · rw [if_neg (not_not.mpr hkey)]
    cases deadlinePassed with
    | false =>
      rw [if_neg Bool.false_ne_true, if_neg fun h => Bool.false_ne_true h.2]
      exact ⟨s.timeoutKey, rfl⟩
    | true =>
      have htic : (s.driver.timeout c).tick c (oracle s.node.backend) lateInbox =
          (s.driver.timeout c).runMicro c (tickMicros oracle s lateInbox) :=
        step_eq_runMicro c _ (.tick (oracle s.node.backend) lateInbox)
      rw [if_pos rfl, if_pos ⟨hkey, rfl⟩, tick]
      rw [htic]
      exact ⟨_, rfl⟩
  · rw [if_pos hkey, if_neg fun h => hkey h.1]
    exact ⟨_, rfl⟩

/-- The micro-step runs with the oracle `ex`, if it runs with one. -/
def RunsWith (ex : Option Executor) : BftGossip.Micro → Prop
  | .recv ex' _ | .drive ex' => ex' = ex
  | _ => True

lemma tickMicros_runsWith (s : NodeLoop) (inbox : List Bytes) :
    ∀ m ∈ tickMicros oracle s inbox, RunsWith (oracle s.node.backend) m := by
  intro m hm
  rcases mem_append.mp hm with hm | hm
  · obtain ⟨_, -, rfl⟩ := mem_map.mp hm
    exact rfl
  · rw [mem_singleton.mp hm]
    exact rfl

lemma handleEvidence_driver (s : NodeLoop) (ev : EquivocationEvidence) :
    (handleEvidence spec s ev).driver = s.driver := by
  unfold handleEvidence
  dsimp only
  split <;> rfl

lemma slashAll_round (s : NodeLoop) :
    (slashAll spec s).driver.engine.coordinator = s.driver.engine.coordinator ∧
      (slashAll spec s).driver.engine.proposal = s.driver.engine.proposal := by
  have hf : ∀ (evs : List EquivocationEvidence) (s : NodeLoop),
      (evs.foldl (handleEvidence spec) s).driver = s.driver := by
    intro evs
    induction evs with
    | nil => exact fun _ => rfl
    | cons _ _ ih =>
      intro s
      rw [foldl_cons, ih, handleEvidence_driver]
  rw [slashAll, hf]
  exact ⟨rfl, rfl⟩

lemma drain_of_settled (h : s.driver.engine.tryHarvestCommitted c = none) :
    drain c s = ({ s with driver := s.driver.drainHarvested.1 }, s.driver.harvested) := by
  have hdd : s.driver.drainHarvested.1.engine.tryHarvestCommitted c = none := h
  unfold drain
  dsimp only
  rw [hdd]
  rfl

lemma drain_punish (s : NodeLoop) (i : LoopInput) :
    drain c (punish c spec oracle s i) = ({ punish c spec oracle s i with
          driver := (punish c spec oracle s i).driver.drainHarvested.1 },
        (punish c spec oracle s i).driver.harvested) := by
  have hs : ∀ s' : NodeLoop, s'.driver.engine.tryHarvestCommitted c = none →
      (stage s' i.txs).driver.engine.tryHarvestCommitted c = none := fun s' h =>
    tryHarvestCommitted_none_congr (e := s'.driver.engine) rfl rfl h
  obtain ⟨hco, hpp⟩ := @slashAll_round spec (gather c oracle s i)
  refine drain_of_settled (tryHarvestCommitted_none_congr hco hpp (hs _ ?_))
  exact tick_settled c s.driver (oracle s.node.backend) i.inbox

variable (c revm spec oracle ok) in
/-- Every step that meets the condition keeps `P`. The lists are the
evidence and the blocks the loop has taken and not handled yet. -/
structure Kept (P : NodeLoop → List EquivocationEvidence → List Block → Prop) : Prop where
  act : ∀ s m g g', ok.micro s m → RunsWith (oracle s.node.backend) m → P s [] [] →
    P { s with driver := g } [] [] → BftGossip.Act c s.driver m g g' →
    P { s with driver := g' } [] []
  clock : ∀ s key, P s [] [] → P { s with timeoutKey := key } [] []
  take : ∀ s, P s [] [] → P (takeEvidence s).1 (takeEvidence s).2 []
  evidence : ∀ s ev evs, ok.evidence s ev → P s (ev :: evs) [] → P (handleEvidence spec s ev) evs []
  drain : ∀ s, P s [] [] → P { s with driver := s.driver.drainHarvested.1 } [] s.driver.harvested
  commit : ∀ s block blocks, ok.commit s block → P s [] (block :: blocks) →
    P (commitOne c revm spec s block) [] blocks

variable {P : NodeLoop → List EquivocationEvidence → List Block → Prop}

variable (h : Kept c revm spec oracle ok P)

include h

lemma Kept.runMicros {ms : List BftGossip.Micro} (hok : MicrosOk c ok s ms)
    (hms : ∀ m ∈ ms, RunsWith (oracle s.node.backend) m)
    (hs : P s [] []) : P (runMicros c s ms) [] [] := by
  have hr : ∀ (g : BftGossip), P { s with driver := g } [] [] →
      BftGossip.Admitted c (fun g m => ok.micro { s with driver := g } m) g ms →
      P { s with driver := g.runMicro c ms } [] [] := by
    clear hok hs
    induction ms with
    | nil => exact fun g hg _ => hg
    | cons m _ ih =>
      rintro g hg ⟨hm, hrs⟩
      obtain ⟨hw, hms⟩ := forall_mem_cons.mp hms
      refine ih hms (g.microStep c m) ?_ hrs
      refine @microStep_induction c
        (fun g₀ m' => m' = m ∧ ok.micro { s with driver := g₀ } m)
        (fun g => P { s with driver := g } [] []) g ?_ m ⟨rfl, hm⟩ hg
      rintro g₀ m' g g' ⟨rfl, hm⟩ hg₀ hg ha
      exact h.act { s with driver := g₀ } m' g g' hm hw hg₀ hg ha
  exact hr s.driver hs hok

lemma Kept.slashAll {evs : List EquivocationEvidence} (hok : EvidenceOk spec ok s evs)
    (hs : P s evs []) :
    P (evs.foldl (handleEvidence spec) s) [] [] := by
  induction evs generalizing s with
  | nil => exact hs
  | cons ev evs ih => exact ih hok.2 (h.evidence s ev evs hok.1 hs)

lemma Kept.commits {blocks : List Block} (hok : CommitsOk c revm spec ok s blocks)
    (hs : P s [] blocks) :
    P (blocks.foldl (commitOne c revm spec) s) [] [] := by
  induction blocks generalizing s with
  | nil => exact hs
  | cons block blocks ih => exact ih hok.2 (h.commit s block blocks hok.1 hs)

lemma Kept.iterate {i : LoopInput} (hok : IterateOk c revm spec oracle ok s i) (hs : P s [] []) :
    P (iterate c revm spec oracle s i) [] [] := by
  have hg : P (gather c oracle s i) [] [] := by
    rw [gather_eq]
    refine h.runMicros hok.micros ?_ hs
    intro m hm
    rcases mem_append.mp hm with hm | hm
    · exact tickMicros_runsWith s i.inbox m hm
    · rw [mem_singleton.mp hm]
      trivial
  have hp := h.slashAll hok.evidence (h.take _ hg)
  have hci : P (commitAll c revm spec oracle s i) [] [] := by
    refine h.commits hok.commits ?_
    rw [drain_punish]
    exact h.drain _ hp
  unfold NodeLoop.iterate
  obtain ⟨key, hkey⟩ := checkTimeout_eq c oracle (commitAll c revm spec oracle s i)
    i.deadlinePassed i.lateInbox
  rw [hkey]
  refine h.clock _ key (h.runMicros hok.timeout ?_ hci)
  intro m hm
  unfold timeoutMicros at hm
  split_ifs at hm
  · rcases mem_cons.mp hm with rfl | hm
    · trivial
    · exact tickMicros_runsWith _ i.lateInbox m hm
  · cases hm

lemma run_induction {inputs : List LoopInput} (hok : RunOk c revm spec oracle ok s inputs)
    (hs : P s [] []) :
    P (run c revm spec oracle s inputs) [] [] := by
  induction inputs generalizing s with
  | nil => exact hs
  | cons _ _ ih => exact ih hok.2 (h.iterate hok.1 hs)

end Induction

end NodeLoop

end Aii.Node
