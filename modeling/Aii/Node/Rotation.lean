/-
Aii.Node.Rotation — does the engine follow the elections?

Blocks are committed after `gossip.tick`, and the engine refuses a new set
while a round is active.
-/
import Aii.Bft.Calls
import Aii.Bft.CommitPaths
import Aii.Node.Election
import Aii.Node.Loop

/-! ## Coordinators and the engine's set -/

namespace Aii.Bft

open Common Chain List RoundCoordinator BftGossip

/-- The coordinator votes with the engine's set, and a proposal is only
kept for a coordinator. -/
structure BftEngine.RoundInv (e : BftEngine) : Prop where
  set : ∀ co, e.coordinator = some co → co.vs = e.validatorSet
  proposal : e.coordinator = none → e.proposal = none

lemma BftEngine.RoundInv.idle {e : BftEngine} (hco : e.coordinator = none)
    (hpp : e.proposal = none) : e.RoundInv := by
  constructor <;> simp [hco, hpp]

lemma BftEngine.RoundInv.active {e : BftEngine} {co : RoundCoordinator}
    (hac : e.coordinator = some co) (hvs : co.vs = e.validatorSet) : e.RoundInv := by
  constructor <;> simp [hac, hvs]

lemma BftEngine.RoundInv.change {c : Crypto} {e e' : BftEngine} (h : e.RoundInv)
    (hcg : Change c e e') : e'.RoundInv := by
  cases hcg with
  | aside => exact { h with }
  | start => exact .active rfl (fireTimeouts_frame _ _).2.1
  | accept co _ _ _ hac hs =>
    obtain rfl := submitProposal_eq hs
    exact .active rfl (h.set co hac)
  | vote _ _ co _ hac hs =>
    exact .active rfl ((submitVote_frame hs).2.2.1.trans (h.set co hac))
  | timeout co hac => exact .active rfl ((fireTimeout_frame co).2.1.trans (h.set co hac))
  | harvest => exact .idle rfl rfl
  | adopt _ _ _ had =>
    obtain rfl := adoptSyncedBlock_eq had
    exact .idle rfl rfl
  | rotate _ _ hil hfe => exact .idle hil hfe

lemma BftEngine.RoundInv.changes {c : Crypto} {e e' : BftEngine} (h : e.RoundInv)
    (hc : Changes c e e') : e'.RoundInv := by
  induction hc with
  | refl => exact h
  | tail _ hcg ih => exact ih.change hcg

namespace BftGossip

variable {c : Crypto} {g₀ g g' : BftGossip} {m : Micro}

/-- `g'` is a state the driver passes through in micro-step `m`. -/
def During (c : Crypto) (g : BftGossip) (m : Micro) (g' : BftGossip) : Prop :=
  Acts c g m g g' ∧ Acts c g m g' (g.microStep c m)

lemma Act.active (ha : Act c g₀ m g g') (hco : g.engine.coordinator ≠ none) :
    g'.engine.coordinator ≠ none ∨ g.harvested.length < g'.harvested.length := by
  cases ha with
  | harvest | adopt => exact .inr (by simp)
  | buffer _ p => cases p <;> exact .inl hco
  | sync | resend | stage | record | prune | announce => exact .inl hco
  | _ => exact .inl (by simp [broadcast])

lemma Acts.active (h : Acts c g₀ m g g') (hco : g.engine.coordinator ≠ none) :
    g'.engine.coordinator ≠ none ∨ g.harvested.length < g'.harvested.length := by
  have hmo : ∀ {g₁ g₂ : BftGossip}, SameHead g₁ g₂ ∨ g₁.harvested.length < g₂.harvested.length →
      g₁.harvested.length ≤ g₂.harvested.length := by
    rintro g₁ g₂ (hsm | hlt)
    · rw [hsm.harvested]
    · exact hlt.le
  induction h with
  | refl => exact .inl hco
  | tail hac ha ih =>
    rcases ih with ih | ih
    · exact (ha.active ih).imp_right (lt_of_le_of_lt (hmo (Acts.sameHead_or_commit hac)))
    · exact .inr (ih.trans_le (hmo ha.sameHead_or_commit))

lemma Act.idle (ha : Act c g₀ m g g') (hco : g.engine.coordinator = none)
    (hn : ¬ SameHead g₀ g) : g'.engine.coordinator = none ∧ g'.harvested = g.harvested := by
  cases ha with
  | sync | resend | stage | record | prune | announce => exact ⟨hco, rfl⟩
  | buffer _ p => cases p <;> exact ⟨hco, rfl⟩
  | ensure _ _ hsm | accept _ _ _ _ _ _ hsm | propose _ _ _ _ _ _ hsm
  | harvest _ _ _ _ _ hsm | adopt _ _ _ _ _ _ hsm => exact absurd hsm hn
  | jump | castPrevote | castPrecommit => exact absurd (.refl _) hn
  | vote _ _ _ co _ _ hac | timeout _ co hac =>
    exact absurd (hco.symm.trans hac) (Option.some_ne_none co).symm

lemma Acts.round (h : Acts c g₀ m g₀ g) (hi : g₀.engine.RoundInv) :
    g.engine.RoundInv ∧ g.engine.validatorSet = g₀.engine.validatorSet ∧
      (g.harvested = g₀.harvested ∨
        ∃ block, g.harvested = g₀.harvested ++ [block] ∧ g.engine.coordinator = none) := by
  induction h with
  | refl => exact ⟨hi, rfl, .inl rfl⟩
  | @tail g₁ _ _ ha ih =>
    obtain ⟨hrn, hs, hcs⟩ := ih
    refine ⟨hrn.changes (BftEngine.act_changes ha), ha.validatorSet.trans hs, ?_⟩
    rcases hcs with hhr | ⟨block, hhr, hil⟩
    · rcases ha.commits with hsm | ⟨block, hci⟩
      · exact .inl (hsm.harvested.trans hhr)
      · exact .inr ⟨block, hhr ▸ hci.harvested, hci.idle⟩
    · have hn : ¬ SameHead g₀ g₁ := by
        intro hsm
        simpa [hhr] using hsm.harvested
      obtain ⟨hil', hhr'⟩ := ha.idle hil hn
      exact .inr ⟨block, hhr'.trans hhr, hil'⟩

end BftGossip

end Aii.Bft

namespace Aii.Node

open Common Chain Bft

/-! ## Elections -/

def boundaries (spec : ChainSpec) (blocks : List Block) : Nat :=
  blocks.countP fun b => IsBoundary spec b.header.number

section Elections

variable (c : Crypto) (revm : Revm) (spec : ChainSpec)

/-- The BFT set elected by committing `block`, if there is one: the block
is executed and is at a boundary, the node's key is among the registered
stakers elected, and they convert to a BFT set. -/
def electedSet? (s : NodeLoop) (block : Block) : Option ValidatorSet :=
  if applies c s.node block ∧ IsBoundary spec block.header.number ∧
      ∃ entry ∈ registeredElection c revm spec s.node.backend block,
        entry.blsPubkey = some (c.blsPublicKey s.driver.engine.config.myBlsSk) then
    (bftValidatorSetFromEntries c (registeredElection c revm spec s.node.backend block)).toOption
  else none

end Elections

section Lemmas

variable {c : Crypto} {revm : Revm} {spec : ChainSpec} {S : ValidatorSet} {block : Block}
  {entries : List ValidatorEntry} {s : NodeLoop}

lemma latestEpoch_of_agree {b₁ b₂ : Backend} (h : Backend.AgreeOn EpochRecord b₁ b₂) :
    Dpos.latestEpoch b₁ = Dpos.latestEpoch b₂ :=
  Dpos.latestEpoch_congr h fun _ hk => ⟨rfl, hk⟩

lemma setHead_epochRecords (n : NodeState) (number : UInt64) :
    Backend.AgreeOn EpochRecord (setHead n number).backend n.backend :=
  setHead_agree (fun hk => absurd hk.2 (by decide)) (fun hk => absurd hk.2 (by decide)) n number

lemma debitSlashStake_agree (b : Backend) (offender : Address) (delta : U256) :
    Backend.AgreeOn EpochRecord (debitSlashStake b offender delta) b := by
  unfold debitSlashStake StakeTable.slash
  cases StakeTable.get b offender with
  | none => exact .refl b
  | some =>
    refine .put_outside fun hk => ?_
    exact prefix_excludes (List.prefix_append _ _) (by decide) hk.2

lemma commit_agree {n : NodeState} (h : ¬ IsBoundary spec block.header.number) :
    Backend.AgreeOn EpochRecord
      (setHead (commitBlock c revm spec n block) block.header.number).backend n.backend := by
  refine (setHead_epochRecords _ _).trans ?_
  by_cases has : applies c n block = true
  · rw [commitBlock_of_applies has]
    have hno : block.header.number = 0 ∨ spec.epochLengthBlocks = 0 ∨
        block.header.number % spec.epochLengthBlocks ≠ 0 := by
      unfold IsBoundary at h
      tauto
    unfold applyBlock maybeElectValidatorSet
    dsimp only
    rw [if_pos hno]
    exact electionStore_agree c revm spec n.backend block
  · rcases commitBlock_of_not_applies has with heq | ⟨_, heq⟩
    · rw [heq]
      exact .refl _
    · rw [heq]
      refine .put_outside fun hk => ?_
      rw [List.append_assoc] at hk
      exact prefix_excludes (List.prefix_append _ _) (by decide) hk.2

lemma electedSet?_some (h : electedSet? c revm spec s block = some S) :
    applies c s.node block = true ∧ IsBoundary spec block.header.number ∧
      (∃ entry ∈ registeredElection c revm spec s.node.backend block,
        entry.blsPubkey = some (c.blsPublicKey s.driver.engine.config.myBlsSk)) ∧
      bftValidatorSetFromEntries c (registeredElection c revm spec s.node.backend block) =
        .ok S := by
  unfold electedSet? at h
  split_ifs at h with hc
  obtain ⟨has, hb, ho⟩ := hc
  refine ⟨has, hb, ho, ?_⟩
  cases hs : bftValidatorSetFromEntries c
      (registeredElection c revm spec s.node.backend block) with
  | error =>
    rw [hs] at h
    cases h
  | ok =>
    rw [hs] at h
    rw [Option.some.inj h]

lemma size_of_entries (h : bftValidatorSetFromEntries c entries = .ok S) :
    S.size = entries.length := by
  have hl := congrArg List.length (bls_of_entries h)
  rw [List.length_map, List.length_map] at hl
  exact hl.symm

lemma bftMyIndex_of_mem {pk : BlsPubKey} (hs : bftValidatorSetFromEntries c entries = .ok S)
    (h : ∃ entry ∈ entries, entry.blsPubkey = some pk) :
    ∃ i, bftMyIndexFromEntries entries pk = some i ∧ i.toNat < S.size := by
  have hsz := size_of_entries hs
  have h1 := S.size_le_128
  unfold bftMyIndexFromEntries
  cases hid : entries.findIdx? fun e => e.blsPubkey == some pk with
  | none => grind
  | some i =>
    obtain ⟨hi, -⟩ := List.findIdx?_eq_some_iff_getElem.mp hid
    have hlt : i < 2 ^ 32 := by omega
    refine ⟨UInt32.ofNat i, ?_, ?_⟩
    · rw [Option.bind_some, if_pos hlt]
    · rw [UInt32.toNat_ofNat', Nat.mod_eq_of_lt hlt]
      omega

lemma latestValidatorSet_commit (h : electedSet? c revm spec s block = some S)
    (hle : ∀ e ∈ Dpos.epochs s.node.backend, e ≤ epochOf spec block.header.number) :
    Dpos.latestValidatorSet
        (setHead (commitBlock c revm spec s.node block) block.header.number).backend =
      some (epochOf spec block.header.number,
        registeredElection c revm spec s.node.backend block) := by
  obtain ⟨has, hb, ⟨_, hm, -⟩, hs⟩ := electedSet?_some h
  have hsz := size_of_entries hs
  have h1 := S.size_le_128
  have hn := List.ne_nil_of_mem hm
  have hstore : (commitBlock c revm spec s.node block).backend =
      Dpos.persistValidatorSet (electionStore c revm spec s.node.backend block)
        (epochOf spec block.header.number)
        (registeredElection c revm spec s.node.backend block) := by
    rw [commitBlock_of_applies has]
    rw [applyBlock_of_boundary hb, election_of_registered hn]
  have he : ∀ e ∈ Dpos.epochs (electionStore c revm spec s.node.backend block),
      e ≤ epochOf spec block.header.number := by
    rw [Dpos.epochs_congr (electionStore_agree c revm spec s.node.backend block)
      fun _ hk => ⟨rfl, hk⟩]
    exact hle
  rw [Dpos.latestValidatorSet_congr (setHead_epochRecords _ _) fun _ hk => ⟨rfl, hk⟩, hstore,
    Dpos.latestValidatorSet, Dpos.latestEpoch_persist _ he, Option.map_some,
    Dpos.readValidatorSet_persist _ _ (registeredElection_hasKeys _ _) (by omega), Option.getD_some]

end Lemmas

namespace NodeLoop

section Rotate

variable {c : Crypto} {s : NodeLoop}

lemma rotate_checked (h : s.lastRotationCheckedEpoch = Dpos.latestEpoch s.node.backend) :
    rotate c s = s := by
  unfold rotate
  cases hlatest : Dpos.latestEpoch s.node.backend with
  | none => simp [Dpos.latestValidatorSet, hlatest]
  | some => simp [Dpos.latestValidatorSet, hlatest, h]

lemma rotate_active (h : s.driver.engine.coordinator ≠ none) : (rotate c s).driver = s.driver := by
  obtain ⟨_, e, heq, hcs⟩ := rotate_cases c s
  rcases hcs with rfl | ⟨vs, i, hrd⟩
  · rw [heq]
  · exact absurd (BftEngine.rotateValidatorSet_ok hrd).1 h

lemma rotate_round (h : s.driver.engine.RoundInv) : (rotate c s).driver.engine.RoundInv := by
  obtain ⟨_, e, heq, hcs⟩ := rotate_cases c s
  rw [heq]
  rcases hcs with rfl | ⟨vs, i, hrd⟩
  · exact h
  · obtain ⟨hco, hpp, rfl⟩ := BftEngine.rotateValidatorSet_ok hrd
    exact .idle hco hpp

lemma rotate_elected {epoch : UInt64} {entries : List ValidatorEntry} {S : ValidatorSet}
    (hlatest : Dpos.latestValidatorSet s.node.backend = some (epoch, entries))
    (hs : bftValidatorSetFromEntries c entries = .ok S) (ho : ∃ entry ∈ entries,
      entry.blsPubkey = some (c.blsPublicKey s.driver.engine.config.myBlsSk))
    (hc : s.driver.engine.validatorSet = S ∨ s.driver.engine.coordinator = none ∧
      s.driver.engine.proposal = none ∧ s.lastRotationCheckedEpoch ≠ some epoch) :
    (rotate c s).driver.engine.validatorSet = S ∧
      (rotate c s).lastRotationCheckedEpoch = some epoch := by
  obtain ⟨i, hid, hi⟩ := bftMyIndex_of_mem hs ho
  rw [rotate, hlatest]
  dsimp only
  split_ifs with hlast
  · rcases hc with hsm | ⟨-, -, hne⟩
    · exact ⟨hsm, hlast⟩
    · exact absurd hlast hne
  · rw [hid, hs]
    have hb : ((Except.ok S : Except BftError ValidatorSet) >>= fun vs =>
        s.driver.engine.rotateValidatorSet vs i) = s.driver.engine.rotateValidatorSet S i := rfl
    dsimp only
    rw [hb]
    cases hrd : s.driver.engine.rotateValidatorSet S i with
    | ok =>
      obtain ⟨-, -, rfl⟩ := BftEngine.rotateValidatorSet_ok hrd
      exact ⟨rfl, rfl⟩
    | error =>
      rcases hc with hsm | ⟨hco, hpp, -⟩
      · exact ⟨hsm, rfl⟩
      · simp [BftEngine.rotateValidatorSet, hco, hpp, Nat.not_le.mpr hi] at hrd

end Rotate

/-! ## What a run does, step by step -/

section Trace

variable (c : Crypto) (revm : Revm) (spec : ChainSpec) (oracle : Backend → Option Executor)

def microSteps : NodeLoop → List BftGossip.Micro → List (NodeLoop × BftGossip.Micro)
  | _, [] => []
  | s, m :: ms => (s, m) :: microSteps { s with driver := s.driver.microStep c m } ms

def iterationSteps (s : NodeLoop) (i : LoopInput) : List (NodeLoop × BftGossip.Micro) :=
  microSteps c s (tickMicros oracle s i.inbox ++ [.stageTxs i.txs]) ++
    microSteps c (commitAll c revm spec oracle s i)
      (timeoutMicros oracle (commitAll c revm spec oracle s i) i.deadlinePassed i.lateInbox)

def runSteps : NodeLoop → List LoopInput → List (NodeLoop × BftGossip.Micro)
  | _, [] => []
  | s, i :: inputs =>
    iterationSteps c revm spec oracle s i ++ runSteps (iterate c revm spec oracle s i) inputs

def commitSteps : NodeLoop → List Block → List (NodeLoop × Block)
  | _, [] => []
  | s, block :: blocks => (s, block) :: commitSteps (commitOne c revm spec s block) blocks

def iterationCommits (s : NodeLoop) (i : LoopInput) : List (NodeLoop × Block) :=
  commitSteps c revm spec (drain c (punish c spec oracle s i)).1
    (drain c (punish c spec oracle s i)).2

def runCommits : NodeLoop → List LoopInput → List (NodeLoop × Block)
  | _, [] => []
  | s, i :: inputs =>
    iterationCommits c revm spec oracle s i ++ runCommits (iterate c revm spec oracle s i) inputs

/-- `vs` is the set of a coordinator the driver has in one of the steps,
after `k` boundary blocks were harvested. -/
def UsedIn (steps : List (NodeLoop × BftGossip.Micro)) (k : Nat) (vs : ValidatorSet) : Prop :=
  ∃ x ∈ steps, ∃ g co, BftGossip.During c x.1.driver x.2 g ∧ g.engine.coordinator = some co ∧
    co.vs = vs ∧ boundaries spec (x.1.committed ++ g.harvested) = k

/-- `S` is elected by one of the commits, as boundary block number `k`. -/
def ElectedIn (commits : List (NodeLoop × Block)) (k : Nat) (S : ValidatorSet) : Prop :=
  ∃ x ∈ commits, electedSet? c revm spec x.1 x.2 = some S ∧
    boundaries spec (x.1.committed ++ [x.2]) = k

/-- Rotation is synchronous: every coordinator the driver has after a
boundary block is harvested, and until the next one is, uses the set that
committing that block elects. -/
def Synchronous (s : NodeLoop) (inputs : List LoopInput) : Prop :=
  ∀ k vs S, UsedIn c spec (runSteps c revm spec oracle s inputs) k vs →
    ElectedIn c revm spec (runCommits c revm spec oracle s inputs) k S → vs = S

/-- The condition on the steps. Nothing is harvested while a boundary
block waits for its commit. When the commit elects a set, the epoch is
not behind the stored ones, and the engine has the set already or it is
idle and the epoch was not checked before. -/
def rotationOk : StepOk where
  micro s m := (∃ b ∈ s.driver.harvested, IsBoundary spec b.header.number) →
    s.driver.committedBy c m = []
  evidence _ _ := True
  commit s block := ∀ S ∈ electedSet? c revm spec s block,
    (∀ e ∈ Dpos.epochs s.node.backend, e ≤ epochOf spec block.header.number) ∧
      (s.driver.engine.validatorSet = S ∨ s.driver.engine.coordinator = none ∧
        s.lastRotationCheckedEpoch ≠ some (epochOf spec block.header.number))

instance (s : NodeLoop) (m : BftGossip.Micro) :
    Decidable ((rotationOk c revm spec).micro s m) :=
  inferInstanceAs (Decidable ((∃ b ∈ s.driver.harvested, IsBoundary spec b.header.number) → _))

instance (s : NodeLoop) (ev : EquivocationEvidence) :
    Decidable ((rotationOk c revm spec).evidence s ev) :=
  inferInstanceAs (Decidable True)

instance (s : NodeLoop) (block : Block) : Decidable ((rotationOk c revm spec).commit s block) :=
  -- the stored epochs are looked through, not all numbers of their type
  have : Decidable (∀ e ∈ Dpos.epochs s.node.backend, e ≤ epochOf spec block.header.number) :=
    List.decidableBAll _ _
  inferInstanceAs (Decidable (∀ S ∈ electedSet? c revm spec s block, _ ∧ _))

end Trace

/-! ## The invariant -/

section Invariant

variable {c : Crypto} {revm : Revm} {spec : ChainSpec} {oracle : Backend → Option Executor}
  {steps : List (NodeLoop × BftGossip.Micro)} {commits : List (NodeLoop × Block)}
  {s : NodeLoop} {blocks : List Block} {inputs : List LoopInput} {k : Nat} {vs : ValidatorSet}
  {m : BftGossip.Micro}

lemma usedIn_append {steps' : List (NodeLoop × BftGossip.Micro)} :
    UsedIn c spec (steps ++ steps') k vs ↔
      UsedIn c spec steps k vs ∨ UsedIn c spec steps' k vs := by
  simp [UsedIn, or_and_right, exists_or]

lemma electedIn_append {commits' : List (NodeLoop × Block)} {S : ValidatorSet} :
    ElectedIn c revm spec (commits ++ commits') k S ↔
      ElectedIn c revm spec commits k S ∨ ElectedIn c revm spec commits' k S := by
  simp [ElectedIn, or_and_right, exists_or]

@[simp] lemma boundaries_append (bs bs' : List Block) :
    boundaries spec (bs ++ bs') = boundaries spec bs + boundaries spec bs' :=
  List.countP_append

lemma exists_of_boundaries_pos {bs : List Block} (h : 0 < boundaries spec bs) :
    ∃ b ∈ bs, IsBoundary spec b.header.number := by
  simpa using List.countP_pos_iff.mp h

/-- After the steps and commits so far. `blocks` are drained and not yet
committed. A set used after a boundary block that still waits is the
engine's, and its round is still active. -/
structure RotationInv (c : Crypto) (revm : Revm) (spec : ChainSpec)
    (steps : List (NodeLoop × BftGossip.Micro)) (commits : List (NodeLoop × Block))
    (s : NodeLoop) (blocks : List Block) : Prop where
  round : s.driver.engine.RoundInv
  used_le : ∀ k vs, UsedIn c spec steps k vs →
    k ≤ boundaries spec (s.committed ++ blocks ++ s.driver.harvested)
  elected_le : ∀ k S, ElectedIn c revm spec commits k S → k ≤ boundaries spec s.committed
  waiting : ∀ k vs, UsedIn c spec steps k vs → boundaries spec s.committed < k →
    vs = s.driver.engine.validatorSet ∧ s.driver.engine.coordinator ≠ none
  current : ∀ S, ElectedIn c revm spec commits (boundaries spec s.committed) S →
    s.driver.engine.validatorSet = S ∧ s.lastRotationCheckedEpoch = Dpos.latestEpoch s.node.backend
  agree : ∀ k vs S, UsedIn c spec steps k vs → ElectedIn c revm spec commits k S → vs = S

lemma usedIn_step (hrn : s.driver.engine.RoundInv) (h : UsedIn c spec [(s, m)] k vs) :
    vs = s.driver.engine.validatorSet ∧ k = boundaries spec (s.committed ++ s.driver.harvested) ∧
      ((s.driver.microStep c m).engine.coordinator ≠ none ∨ s.driver.committedBy c m ≠ []) := by
  obtain ⟨x, hx, g, co, ⟨hto, hf⟩, hco, rfl, rfl⟩ := h
  obtain rfl := List.mem_singleton.mp hx
  obtain ⟨hi, hs, hcs⟩ := BftGossip.Acts.round hto hrn
  have hac : g.engine.coordinator ≠ none := by simp [hco]
  have hhr : g.harvested = s.driver.harvested := by
    rcases hcs with hhr | ⟨_, -, hil⟩
    · exact hhr
    · exact absurd hil hac
  refine ⟨(hi.set co hco).trans hs, by rw [hhr], ?_⟩
  refine (BftGossip.Acts.active hf hac).imp_right fun hlt hn => ?_
  rw [hhr] at hlt
  have hle := List.drop_eq_nil_iff.mp hn
  exact absurd hlt (not_lt.mpr hle)

lemma RotationInv.micro (h : RotationInv c revm spec steps commits s [])
    (hok : (rotationOk c revm spec).micro s m) :
    RotationInv c revm spec (steps ++ [(s, m)]) commits
      { s with driver := s.driver.microStep c m } [] := by
  obtain ⟨hrn, hs, hcs⟩ := BftGossip.Acts.round (BftGossip.microStep_acts c s.driver m) h.round
  have hhr : ∃ new, (s.driver.microStep c m).harvested = s.driver.harvested ++ new := by
    rcases hcs with hhr | ⟨block, hhr, -⟩
    · exact ⟨[], by simpa using hhr⟩
    · exact ⟨[block], hhr⟩
  obtain ⟨_, hhr⟩ := hhr
  -- while a boundary block waits, nothing is committed and the round stays
  have hst : boundaries spec s.committed < boundaries spec (s.committed ++ s.driver.harvested) →
      s.driver.committedBy c m = [] := by
    intro hlt
    rw [boundaries_append] at hlt
    exact hok (exists_of_boundaries_pos (by omega))
  have hu := h.used_le
  simp only [List.append_nil] at hu
  refine ⟨hrn, ?_, h.elected_le, ?_, ?_, ?_⟩
  · intro k vs hk
    have hle : k ≤ boundaries spec (s.committed ++ s.driver.harvested) := by
      rcases usedIn_append.mp hk with hk | hk
      · exact hu k vs hk
      · exact (usedIn_step h.round hk).2.1.le
    rw [hhr, List.append_nil]
    simp [boundaries_append] at hle ⊢
    omega
  · intro k vs hk hlt
    rw [hs]
    rcases usedIn_append.mp hk with hk | hk
    · obtain ⟨hvs, hac⟩ := h.waiting k vs hk hlt
      have hnn := hst (lt_of_lt_of_le hlt (hu k vs hk))
      refine ⟨hvs, (BftGossip.Acts.active (BftGossip.microStep_acts c s.driver m)
        hac).resolve_right fun hl => ?_⟩
      exact absurd hl (not_lt.mpr (List.drop_eq_nil_iff.mp hnn))
    · obtain ⟨hvs, rfl, hac⟩ := usedIn_step h.round hk
      exact ⟨hvs, hac.resolve_right fun hne => hne (hst hlt)⟩
  · intro S hS
    dsimp only
    rw [hs]
    exact h.current S hS
  · intro k vs S hk hS
    rcases usedIn_append.mp hk with hk | hk
    · exact h.agree k vs S hk hS
    · obtain ⟨rfl, rfl, -⟩ := usedIn_step h.round hk
      have hle := h.elected_le _ S hS
      have heq : boundaries spec (s.committed ++ s.driver.harvested) =
          boundaries spec s.committed := by simp_all
      rw [heq] at hS
      exact (h.current S hS).1

lemma RotationInv.frame {s' : NodeLoop} (h : RotationInv c revm spec steps commits s blocks)
    (hco : s'.driver.engine.coordinator = s.driver.engine.coordinator)
    (hpp : s'.driver.engine.proposal = s.driver.engine.proposal)
    (hs : s'.driver.engine.validatorSet = s.driver.engine.validatorSet)
    (hhr : s'.driver.harvested = s.driver.harvested) (hcm : s'.committed = s.committed)
    (hlast : s'.lastRotationCheckedEpoch = s.lastRotationCheckedEpoch)
    (hep : Dpos.latestEpoch s'.node.backend = Dpos.latestEpoch s.node.backend) :
    RotationInv c revm spec steps commits s' blocks := by
  refine ⟨⟨?_, ?_⟩, ?_, ?_, ?_, ?_, h.agree⟩
  · rw [hco, hs]
    exact h.round.set
  · rw [hco, hpp]
    exact h.round.proposal
  · rw [hcm, hhr]
    exact h.used_le
  · rw [hcm]
    exact h.elected_le
  · rw [hcm, hs, hco]
    exact h.waiting
  · rw [hcm, hs, hlast, hep]
    exact h.current

section Steps

variable (h : RotationInv c revm spec steps commits s [])

include h

lemma RotationInv.evidence (ev : EquivocationEvidence) :
    RotationInv c revm spec steps commits (handleEvidence spec s ev) [] := by
  have hrc : Dpos.latestEpoch (recordSlashing s.node.backend ev) =
      Dpos.latestEpoch s.node.backend :=
    latestEpoch_of_agree (recordSlashing_agree
      (fun k hk hr => prefix_excludes hk (by decide) hr.2) _ ev)
  unfold handleEvidence
  dsimp only
  split
  · exact h.frame rfl rfl rfl rfl rfl rfl hrc
  · refine h.frame rfl rfl rfl rfl rfl rfl ?_
    exact (latestEpoch_of_agree (debitSlashStake_agree _ _ _)).trans hrc

lemma RotationInv.slashAll : RotationInv c revm spec steps commits (slashAll spec s) [] := by
  have hf : ∀ (evs : List EquivocationEvidence) (s : NodeLoop),
      RotationInv c revm spec steps commits s [] →
      RotationInv c revm spec steps commits (evs.foldl (handleEvidence spec) s) [] := by
    intro evs
    induction evs with
    | nil => exact fun s h => h
    | cons ev _ ih => exact fun s h => ih _ (h.evidence ev)
  exact hf _ _ (h.frame rfl rfl rfl rfl rfl rfl rfl)

lemma RotationInv.drain :
    RotationInv c revm spec steps commits { s with driver := s.driver.drainHarvested.1 }
      s.driver.harvested := by
  refine ⟨⟨h.round.set, h.round.proposal⟩, ?_, h.elected_le, h.waiting, h.current, h.agree⟩
  intro k vs hk
  have hle := h.used_le k vs hk
  simpa [BftGossip.drainHarvested] using hle

end Steps

lemma RotationInv.commit {block : Block}
    (h : RotationInv c revm spec steps commits s (block :: blocks))
    (hok : (rotationOk c revm spec).commit s block) :
    RotationInv c revm spec steps (commits ++ [(s, block)]) (commitOne c revm spec s block)
      blocks := by
  set s₁ : NodeLoop := { s with
    node := setHead (commitBlock c revm spec s.node block) block.header.number
    committed := s.committed ++ [block] } with hs₁
  obtain ⟨_, e, hr, -⟩ := rotate_cases c s₁
  have hcm : (rotate c s₁).committed = s.committed ++ [block] := by
    rw [hr]
  have hhr : (rotate c s₁).driver.harvested = s.driver.harvested := by
    rw [hr]
  have hnd : (rotate c s₁).node = s₁.node := by
    rw [hr]
  have hn : ∀ k S, ElectedIn c revm spec [(s, block)] k S →
      electedSet? c revm spec s block = some S ∧
        k = boundaries spec s.committed + boundaries spec [block] := by
    rintro k S ⟨x, hx, hS, rfl⟩
    obtain rfl := List.mem_singleton.mp hx
    exact ⟨hS, boundaries_append _ _⟩
  have hon : ∀ {S}, electedSet? c revm spec s block = some S → boundaries spec [block] = 1 := by
    intro S hS
    simp [boundaries, (electedSet?_some hS).2.1]
  show RotationInv c revm spec steps (commits ++ [(s, block)]) (rotate c s₁) blocks
  refine ⟨rotate_round h.round, ?_, ?_, ?_, ?_, ?_⟩
  · intro k vs hk
    rw [hcm, hhr, List.append_assoc s.committed]
    exact h.used_le k vs hk
  · intro k S hS
    rw [hcm, boundaries_append]
    rcases electedIn_append.mp hS with hS | hS
    · exact (h.elected_le k S hS).trans (Nat.le_add_right _ _)
    · exact (hn k S hS).2.le
  · -- a round of a later boundary block stops the rotation
    intro k vs hk hlt
    rw [hcm, boundaries_append] at hlt
    obtain ⟨hvs, hac⟩ := h.waiting k vs hk (by omega)
    rw [rotate_active (s := s₁) hac]
    exact ⟨hvs, hac⟩
  · intro S hS
    rw [hcm, boundaries_append] at hS
    rw [hnd]
    rcases electedIn_append.mp hS with ho | hS
    · -- not a boundary block: the epoch was checked when its set was elected
      have hle := h.elected_le _ S ho
      have hno : ¬ IsBoundary spec block.header.number := by
        intro hb
        have hon : boundaries spec [block] = 1 := by simp [boundaries, hb]
        omega
      have hzr : boundaries spec [block] = 0 := by simp [boundaries, hno]
      rw [hzr, Nat.add_zero] at ho
      obtain ⟨hst, hlast⟩ := h.current S ho
      have hep : Dpos.latestEpoch s₁.node.backend = Dpos.latestEpoch s.node.backend :=
        latestEpoch_of_agree (commit_agree hno)
      rw [rotate_checked (s := s₁) (hlast.trans hep.symm)]
      exact ⟨hst, hlast.trans hep.symm⟩
    · obtain ⟨hso, -⟩ := hn _ S hS
      obtain ⟨hle, hc⟩ := hok S hso
      have hlatest := latestValidatorSet_commit hso hle
      obtain ⟨-, -, how, hst⟩ := electedSet?_some hso
      obtain ⟨hvs, hlast⟩ := rotate_elected (s := s₁) hlatest hst how
        (hc.imp_right fun hil => ⟨hil.1, h.round.proposal hil.1, hil.2⟩)
      refine ⟨hvs, hlast.trans ?_⟩
      obtain ⟨_, hep, heq⟩ := Option.map_eq_some_iff.mp hlatest
      rw [hep, (Prod.mk.inj heq).1]
  · intro k vs S hk hS
    rcases electedIn_append.mp hS with hS | hS
    · exact h.agree k vs S hk hS
    · obtain ⟨hso, rfl⟩ := hn k S hS
      rw [hon hso] at hk
      obtain ⟨hvs, hac⟩ := h.waiting _ vs hk (Nat.lt_succ_self _)
      rcases (hok S hso).2 with hst | ⟨hil, -⟩
      · exact hvs.trans hst
      · exact absurd hil hac

lemma RotationInv.micros (h : RotationInv c revm spec steps commits s [])
    {ms : List BftGossip.Micro} (hok : MicrosOk c (rotationOk c revm spec) s ms) :
    RotationInv c revm spec (steps ++ microSteps c s ms) commits (runMicros c s ms) [] := by
  induction ms generalizing s steps with
  | nil => simpa [microSteps, runMicros, BftGossip.runMicro] using h
  | cons _ _ ih =>
    have hrs := ih (h.micro hok.1) hok.2
    rw [List.append_assoc] at hrs
    exact hrs

lemma RotationInv.commitAll (h : RotationInv c revm spec steps commits s blocks)
    (hok : CommitsOk c revm spec (rotationOk c revm spec) s blocks) :
    RotationInv c revm spec steps (commits ++ commitSteps c revm spec s blocks)
      (blocks.foldl (commitOne c revm spec) s) [] := by
  induction blocks generalizing s commits with
  | nil => simpa [commitSteps] using h
  | cons _ _ ih =>
    have hrs := ih (h.commit hok.1) hok.2
    rw [List.append_assoc] at hrs
    exact hrs

lemma RotationInv.iterate (h : RotationInv c revm spec steps commits s []) {i : LoopInput}
    (hok : IterateOk c revm spec oracle (rotationOk c revm spec) s i) :
    RotationInv c revm spec (steps ++ iterationSteps c revm spec oracle s i)
      (commits ++ iterationCommits c revm spec oracle s i) (iterate c revm spec oracle s i) [] := by
  have hg := h.micros hok.micros
  rw [← gather_eq] at hg
  have hdd : RotationInv c revm spec
      (steps ++ microSteps c s (tickMicros oracle s i.inbox ++ [.stageTxs i.txs])) commits
      (NodeLoop.drain c (punish c spec oracle s i)).1
      (NodeLoop.drain c (punish c spec oracle s i)).2 := by
    rw [drain_punish]
    exact hg.slashAll.drain
  have ht := (hdd.commitAll hok.commits).micros hok.timeout
  obtain ⟨_, hk⟩ := checkTimeout_eq c oracle (NodeLoop.commitAll c revm spec oracle s i)
    i.deadlinePassed i.lateInbox
  unfold NodeLoop.iterate iterationSteps
  rw [hk, ← List.append_assoc]
  exact ht.frame rfl rfl rfl rfl rfl rfl rfl

lemma RotationInv.run (h : RotationInv c revm spec steps commits s [])
    (hok : RunOk c revm spec oracle (rotationOk c revm spec) s inputs) :
    RotationInv c revm spec (steps ++ runSteps c revm spec oracle s inputs)
      (commits ++ runCommits c revm spec oracle s inputs) (run c revm spec oracle s inputs) [] := by
  induction inputs generalizing s steps commits with
  | nil => simpa [runSteps, runCommits, run] using h
  | cons _ _ ih =>
    have hrs := ih (h.iterate hok.1) hok.2
    rw [List.append_assoc, List.append_assoc] at hrs
    exact hrs

lemma RotationInv.start {engine : BftEngine} (h : engine.RoundInv) (node : NodeState) :
    RotationInv c revm spec [] [] (start engine node) [] := by
  have hu : ∀ k vs, ¬ UsedIn c spec [] k vs := by simp [UsedIn]
  have he : ∀ k S, ¬ ElectedIn c revm spec [] k S := by simp [ElectedIn]
  exact ⟨h, fun k vs hk => absurd hk (hu k vs), fun k S hS => absurd hS (he k S),
    fun k vs hk => absurd hk (hu k vs), fun S hS => absurd hS (he _ S),
    fun k vs _ hk => absurd hk (hu k vs)⟩

/-- In every run of the loop whose steps meet the condition, rotation is
synchronous. -/
theorem rotation_synchronous {engine : BftEngine} (hengine : engine.RoundInv) (node : NodeState)
    (inputs : List LoopInput)
    (hok : RunOk c revm spec oracle (rotationOk c revm spec) (start engine node) inputs) :
    Synchronous c revm spec oracle (start engine node) inputs := by
  have hi := (RotationInv.start hengine node).run hok
  rw [List.nil_append, List.nil_append] at hi
  exact hi.agree

lemma not_synchronous
    (h : ∃ x ∈ runSteps c revm spec oracle s inputs, ∃ co ∈ x.1.driver.engine.coordinator,
      ∃ y ∈ runCommits c revm spec oracle s inputs, ∃ S ∈ electedSet? c revm spec y.1 y.2,
        boundaries spec (x.1.committed ++ x.1.driver.harvested) =
          boundaries spec (y.1.committed ++ [y.2]) ∧ co.vs ≠ S) :
    ¬ Synchronous c revm spec oracle s inputs := by
  obtain ⟨x, hx, co, hco, y, hy, S, hS, hk, hne⟩ := h
  intro hs
  have hd : BftGossip.During c x.1.driver x.2 x.1.driver :=
    ⟨.refl, BftGossip.microStep_acts c x.1.driver x.2⟩
  exact hne (hs _ co.vs S ⟨x, hx, x.1.driver, co, hd, hco, rfl, hk⟩ ⟨y, hy, hS, rfl⟩)

end Invariant

/-! ### A member of a set of two

A validator with stake 1 next to one with stake 5, both at head 7; the
other one leads and has the quorum. In the store their bonds are 3 and 2,
and block 8 is a boundary. -/

def rotationSpec : ChainSpec := { sampleSpec with epochLengthBlocks := 8 }

def rotationStore : Backend :=
  [(0, 3 * 10 ^ 18), (1, 2 * 10 ^ 18)].foldl (fun b p =>
    let v := referenceValidator p.1 1
    ValidatorRegistry.register
      (StakeTable.putRecord b (arrOfNat 20 (p.1 + 1)) (BitVec.ofNat 256 p.2) 0)
      (arrOfNat 20 (p.1 + 1)) ⟨v.blsPubkey, v.vrfPubkey⟩) .empty

def memberEngine (k : Nat) : BftEngine :=
  .fresh .reference (referenceConfig followerSet k 0)
    (referenceHead (referenceConfig followerSet 0 0) 7)
    (referenceConfig followerSet k 0).initialSeed

/-- What the leader sends in its first ticks: the round of block 8 takes
three, and the fourth is the proposal of block 9. -/
def leaderOutbox (ticks : Nat) : List Bytes :=
  ((BftGossip.new (memberEngine 0)).run .reference
    (List.replicate ticks (.tick none []))).outbox.map BftMessage.encode

def memberLoop : NodeLoop := .start (memberEngine 1) (.new rotationStore)

/-- The member gets what the leader sends in `ticks` ticks at once, and
the proposal of block 9 (again) in the next iteration. -/
def memberInputs (ticks : Nat) : List LoopInput :=
  [⟨leaderOutbox ticks, [], false, []⟩,
    ⟨(leaderOutbox 4).drop (leaderOutbox 3).length, [], false, []⟩,
    ⟨[], [], false, []⟩]

/-- With block 8 alone in the first tick the round of block 9 uses the
elected set, of total stake 5. -/
theorem rotation_synchronous_member :
    (run .reference Revm.reference rotationSpec (fun _ => none) memberLoop
        (memberInputs 3)).driver.engine.coordinator.map (fun co => (co.height, co.vs.totalStake)) =
      some (9, 5) ∧ Synchronous .reference Revm.reference rotationSpec (fun _ => none) memberLoop
      (memberInputs 3) :=
  ⟨by decide +kernel, rotation_synchronous (.idle rfl rfl) (.new rotationStore) (memberInputs 3)
    (by decide +kernel)⟩

/-- Block 9 is proposed in the tick that harvests block 8, and the old set
stays. -/
theorem rotation_refused :
    ¬ Synchronous .reference Revm.reference rotationSpec (fun _ => none) memberLoop
      (memberInputs 4) :=
  not_synchronous (by decide +kernel)

end NodeLoop

end Aii.Node
