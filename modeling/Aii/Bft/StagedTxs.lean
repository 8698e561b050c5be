/-
Aii.Bft.StagedTxs — where staged transactions are.

A staged transaction waits in the queue, travels in the proposal in
flight, and ends in a block.
-/
import Aii.Bft.Decision

namespace Aii.Bft

open Common Chain

namespace BftEngine

variable {c : Crypto} {e : BftEngine}

def inFlight (e : BftEngine) : List Tx :=
  match e.proposal with
  | some (block, _) => block.body.transactions
  | none => []

/-- The node leads the round `cast_proposal` would propose in. -/
def leads (c : Crypto) (e : BftEngine) : Bool :=
  e.ensureCoordinator.coordinator.any fun co => co.leaderIndex c == e.myIndex.toNat

def commits (c : Crypto) (e : BftEngine) : Call → List Block
  | .tryHarvestCommitted => (e.harvested c).toList
  | .adoptSyncedBlock block cert =>
    match e.adoptSyncedBlock c block cert with
    | .ok _ => [block]
    | .error _ => []
  | _ => []

def Call.stages : Call → List Tx
  | .extendPendingTxs txs => txs
  | _ => []

@[simp] lemma ensureCoordinator_inFlight (e : BftEngine) :
    e.ensureCoordinator.inFlight = e.inFlight := by
  simp [inFlight]

lemma leads_iff {co : RoundCoordinator} (h : e.ensureCoordinator.coordinator = some co) :
    e.leads c = true ↔ co.leaderIndex c = e.myIndex.toNat := by
  simp [leads, h]

end BftEngine

open BftEngine

structure Staging where
  engine : BftEngine
  staged : List Tx
  committed : List Block

namespace Staging

variable {c : Crypto} {s : Staging} {tx : Tx} {x : Call}

def committedTxs (s : Staging) : List Tx := s.committed.flatMap (·.body.transactions)

/-- Where a transaction can be. -/
def places (s : Staging) : List Tx :=
  s.engine.pendingTxs ++ s.engine.inFlight ++ s.committedTxs

def Kept (s : Staging) : Prop := ∀ tx ∈ s.staged, tx ∈ s.places

def step (c : Crypto) (s : Staging) (x : Call) : Staging where
  engine := s.engine.after c x
  staged := s.staged ++ x.stages
  committed := s.committed ++ s.engine.commits c x

def dropsAndLeaves (c : Crypto) (s : Staging) : Call → List Tx × List Tx
  | .castProposal ex =>
    match (s.engine.castProposal c ex).2 with
    | .ok _ => (s.engine.inFlight, s.engine.pendingTxs ++ s.committedTxs)
    | .error _ =>
      -- the leader has emptied its queue into a block nobody will see
      if s.engine.leads c then
        (s.engine.pendingTxs.take s.engine.maxTxs,
          s.engine.pendingTxs.drop s.engine.maxTxs ++ s.engine.inFlight ++ s.committedTxs)
      else ([], s.places)
  | .submitRemoteProposal block proof =>
    match (s.engine.submitRemoteProposal c block proof).2 with
    | .ok _ =>
      (s.engine.inFlight, s.engine.pendingTxs ++ block.body.transactions ++ s.committedTxs)
    | .error _ => ([], s.places)
  | .tickTimeout => (s.engine.inFlight, s.engine.pendingTxs ++ s.committedTxs)
  | .adoptSyncedBlock block cert =>
    match s.engine.adoptSyncedBlock c block cert with
    | .ok _ =>
      (s.engine.inFlight, s.engine.pendingTxs ++ block.body.transactions ++ s.committedTxs)
    | .error _ => ([], s.places)
  | _ => ([], s.places)

def Harmless (c : Crypto) (s : Staging) (x : Call) : Prop :=
  ∀ tx ∈ s.staged, tx ∈ (s.dropsAndLeaves c x).1 → tx ∈ (s.dropsAndLeaves c x).2

lemma mem_places : tx ∈ s.places ↔
    tx ∈ s.engine.pendingTxs ∨ tx ∈ s.engine.inFlight ∨ tx ∈ s.committedTxs := by
  simp [places]

lemma mem_places_step : tx ∈ (s.step c x).places ↔
    tx ∈ (s.engine.after c x).pendingTxs ∨ tx ∈ (s.engine.after c x).inFlight ∨
      tx ∈ s.committedTxs ∨ ∃ block ∈ s.engine.commits c x, tx ∈ block.body.transactions := by
  simp [places, step, committedTxs]

lemma mem_pendingTxs (e : BftEngine) : tx ∈ e.pendingTxs ↔
    tx ∈ e.pendingTxs.take e.maxTxs ∨ tx ∈ e.pendingTxs.drop e.maxTxs := by
  rw [← List.mem_append, List.take_append_drop]

structure Moves (c : Crypto) (s : Staging) (x : Call) : Prop where
  covered : ∀ tx ∈ s.places, tx ∈ (s.dropsAndLeaves c x).1 ∨ tx ∈ (s.dropsAndLeaves c x).2
  left : ∀ tx, tx ∈ (s.step c x).places ↔ tx ∈ (s.dropsAndLeaves c x).2 ∨ tx ∈ x.stages

lemma Moves.of_drops {dropped left : List Tx} (hd : s.dropsAndLeaves c x = (dropped, left))
    (hs : x.stages = []) (hc : ∀ tx ∈ s.places, tx ∈ dropped ∨ tx ∈ left)
    (hlf : ∀ tx, tx ∈ (s.step c x).places ↔ tx ∈ left) : Moves c s x := by
  refine ⟨fun tx htx => ?_, fun tx => ?_⟩
  · rw [hd]
    exact hc tx htx
  · rw [hd, hs, hlf]
    simp

lemma Moves.of_same (hd : s.dropsAndLeaves c x = ([], s.places)) (hs : x.stages = [])
    (hpg : (s.engine.after c x).pendingTxs = s.engine.pendingTxs)
    (hf : (s.engine.after c x).inFlight = s.engine.inFlight)
    (hc : s.engine.commits c x = []) : Moves c s x := by
  refine .of_drops hd hs (fun tx htx => .inr htx) fun tx => ?_
  rw [mem_places_step, mem_places, hpg, hf, hc]
  simp

lemma Moves.of_replaces (txs : List Tx) (hd : s.dropsAndLeaves c x =
      (s.engine.inFlight, s.engine.pendingTxs ++ txs ++ s.committedTxs)) (hs : x.stages = [])
    (hlf : ∀ tx, tx ∈ (s.step c x).places ↔
      tx ∈ s.engine.pendingTxs ∨ tx ∈ txs ∨ tx ∈ s.committedTxs) : Moves c s x := by
  refine .of_drops hd hs (fun tx htx => ?_) fun tx => ?_
  · rw [mem_places] at htx
    simp only [List.mem_append]
    tauto
  · rw [hlf]
    simp

lemma Moves.castProposal (s : Staging) (ex : Option Executor) : Moves c s (.castProposal ex) := by
  have hce := castProposal_cases c ex s.engine
  have haf : s.engine.after c (.castProposal ex) = (s.engine.castProposal c ex).1 := rfl
  generalize ho : s.engine.castProposal c ex = out at hce haf
  cases hce with
  | notLeader _ hac hoh =>
    have hl := mt (leads_iff hac).mp hoh
    exact .of_same (by simp [dropsAndLeaves, ho, hl]) rfl (by simp [haf])
      (by simp [haf]) rfl
  | refused _ hac hl =>
    replace hl : s.engine.leads c = true := (leads_iff hac).mpr hl
    refine .of_drops (by simp only [dropsAndLeaves, ho, if_pos hl]; rfl) rfl
      (fun tx htx => ?_) fun tx => ?_
    · rw [mem_places, mem_pendingTxs] at htx
      simp only [List.mem_append]
      tauto
    · rw [mem_places_step, haf]
      simp [inFlight, commits]
  | accepted _ _ _ _ _ hby =>
    refine .of_replaces [] (by simp [dropsAndLeaves, ho]) rfl fun tx => ?_
    rw [mem_places_step, haf, mem_pendingTxs s.engine]
    simp only [inFlight, hby, commits, List.not_mem_nil, false_and, exists_false, or_false]
    tauto

lemma Moves.submitRemoteProposal (s : Staging) (block : Block) (proof : LeaderProof) :
    Moves c s (.submitRemoteProposal block proof) := by
  have hce := submitRemoteProposal_cases (c := c) s.engine block proof
  have haf : s.engine.after c (.submitRemoteProposal block proof) =
    (s.engine.submitRemoteProposal c block proof).1 := rfl
  generalize ho : s.engine.submitRemoteProposal c block proof = out at hce haf
  cases hce with
  | refused =>
    exact .of_same (by simp [dropsAndLeaves, ho]) rfl (by simp [haf]) (by simp [haf]) rfl
  | accepted =>
    refine .of_replaces block.body.transactions (by simp [dropsAndLeaves, ho]) rfl fun tx => ?_
    rw [mem_places_step, haf]
    simp [inFlight, commits]

lemma Moves.tickTimeout (s : Staging) : Moves c s .tickTimeout := by
  have haf : s.engine.after c .tickTimeout = s.engine.tickTimeout c := rfl
  refine .of_replaces [] (by simp [dropsAndLeaves]) rfl fun tx => ?_
  rw [mem_places_step, haf, BftEngine.tickTimeout]
  simp [inFlight, commits]

lemma Moves.adoptSyncedBlock (s : Staging) (block : Block) (cert : PrecommitCertificate) :
    Moves c s (.adoptSyncedBlock block cert) := by
  have haf : s.engine.after c (.adoptSyncedBlock block cert) =
    s.engine.orKeep (s.engine.adoptSyncedBlock c block cert) := rfl
  cases had : s.engine.adoptSyncedBlock c block cert with
  | error =>
    rw [had] at haf
    exact .of_same (by simp [dropsAndLeaves, had]) rfl (by rw [haf]; rfl)
      (by rw [haf]; rfl) (by simp [commits, had])
  | ok =>
    refine .of_replaces block.body.transactions (by simp [dropsAndLeaves, had]) rfl fun tx => ?_
    rw [mem_places_step, haf, had]
    obtain rfl := BftGossip.adoptSyncedBlock_eq had
    simp [inFlight, orKeep, advanceHead, commits, had]
    tauto

lemma Moves.tryHarvestCommitted (s : Staging) : Moves c s .tryHarvestCommitted := by
  have haf : s.engine.after c .tryHarvestCommitted =
    ((s.engine.tryHarvestCommitted c).map Prod.fst).getD s.engine := rfl
  cases ht : s.engine.tryHarvestCommitted c with
  | none =>
    rw [ht] at haf
    exact .of_same rfl rfl (by rw [haf]; rfl) (by rw [haf]; rfl)
      (by simp [commits, harvested, ht])
  | some =>
    obtain ⟨co, proof, cert, -, hpp, -, -, heq⟩ := BftGossip.tryHarvestCommitted_some ht
    refine .of_drops rfl rfl (fun tx htx => .inr htx) fun tx => ?_
    rw [mem_places_step, haf, ht]
    simp [mem_places, inFlight, hpp, heq, advanceHead, commits, harvested, ht]
    tauto

lemma moves (c : Crypto) (s : Staging) (x : Call) : Moves c s x := by
  have ho := after_outcome c s.engine x
  cases x with
  | castProposal ex => exact .castProposal s ex
  | submitRemoteProposal block proof => exact .submitRemoteProposal s block proof
  | tickTimeout => exact .tickTimeout s
  | adoptSyncedBlock block cert => exact .adoptSyncedBlock s block cert
  | tryHarvestCommitted => exact .tryHarvestCommitted s
  | extendPendingTxs =>
    refine ⟨fun tx htx => .inr htx, fun tx => ?_⟩
    rw [mem_places_step]
    simp only [dropsAndLeaves, mem_places, after, call, extendPendingTxs, inFlight, commits,
      Call.stages, List.mem_append, List.not_mem_nil, false_and, exists_false, or_false]
    tauto
  | _ =>
    refine .of_same rfl rfl ?_ ?_ rfl
    all_goals
      generalize s.engine.after c _ = e' at ho ⊢
      cases ho <;> simp [recordRemote, inFlight, drainEvidence]

lemma kept_step_iff (h : s.Kept) (x : Call) : (s.step c x).Kept ↔ Harmless c s x := by
  have hm := moves c s x
  constructor
  · intro hkp tx hs hd
    rcases (hm.left tx).mp (hkp tx (List.mem_append_left _ hs)) with hlf | hn
    · exact hlf
    · -- the call that stages drops nothing
      cases x with
      | extendPendingTxs => cases hd
      | _ => cases hn
  · intro hh tx hs
    rw [hm.left]
    rcases List.mem_append.mp hs with ho | hn
    · left
      rcases hm.covered tx (h tx ho) with hd | hlf
      · exact hh tx ho hd
      · exact hlf
    · exact .inr hn

def start (c : Crypto) (config : BftConfig) (head : Block) (seed : Arr 32) : Staging :=
  ⟨.fresh c config head seed, [], []⟩

lemma castProposal_failed {e : BftEngine} {ex : Option Executor} {err : BftError}
    (h : (e.castProposal c ex).2 = .error err) : (e.castProposal c ex).1.pendingTxs = e.pendingTxs ↔
      e.leads c = false ∨ e.pendingTxs.take e.maxTxs = [] := by
  have hce := castProposal_cases c ex e
  generalize e.castProposal c ex = out at hce h ⊢
  cases hce with
  | notLeader _ hac hoh =>
    exact iff_of_true (by simp : e.ensureCoordinator.pendingTxs = e.pendingTxs)
      (.inl (by simpa using mt (leads_iff hac).mp hoh))
  | refused _ hac hl =>
    simp only [(leads_iff hac).mpr hl, Bool.true_eq_false, false_or]
    constructor
    · intro hsm
      have hln := congrArg List.length hsm
      simp only [List.length_drop] at hln
      rw [List.take_eq_nil_iff]
      rcases Nat.eq_zero_or_pos e.pendingTxs.length with hzr | hp
      · exact .inr (List.length_eq_zero_iff.mp hzr)
      · exact .inl (by omega)
    · intro hn
      conv_rhs => rw [← List.take_append_drop e.maxTxs e.pendingTxs, hn, List.nil_append]
  | accepted => cases h

/-- Every staged transaction stays in the queue, in flight or committed
exactly if all calls are harmless. -/
theorem staged_kept_iff (config : BftConfig) (head : Block) (seed : Arr 32) (xs : List Call) :
    ((∀ n, ((xs.take n).foldl (step c) (start c config head seed)).Kept) ↔
      Along (step c) (Harmless c) (start c config head seed) xs) ∧
    ∀ (e : BftEngine) ex err, (e.castProposal c ex).2 = .error err →
      ((e.castProposal c ex).1.pendingTxs = e.pendingTxs ↔
        e.leads c = false ∨ e.pendingTxs.take e.maxTxs = []) := by
  refine ⟨?_, fun e ex err h => castProposal_failed h⟩
  have hg : Along (step c) (fun _ _ => True) (start c config head seed) xs :=
    along_iff_forall.mpr fun _ _ => trivial
  refine always_iff_along (fun s x _ h => kept_step_iff h x) hg ?_
  intro tx htx
  cases htx

instance (s : Staging) : Decidable s.Kept := List.decidableBAll (· ∈ s.places) s.staged

def stagedTx (nonce : UInt64) : Tx :=
  .legacy ⟨nonce, 1, 21000, none, 0, [], 27, Arr.zero 32, Arr.zero 32, .secp256k1⟩

def stagingLeader : Staging := ⟨memberEngine 1, [], []⟩

/-- A second `cast_proposal` in a round and a timeout lose transactions. -/
theorem staged_lost :
    ¬ ([.extendPendingTxs [stagedTx 0], .castProposal none, .extendPendingTxs [stagedTx 1],
        .castProposal none].foldl (step Crypto.reference) stagingLeader).Kept ∧
      ([.extendPendingTxs [stagedTx 0], .castProposal none, .extendPendingTxs [stagedTx 1],
        .castProposal none].foldl (step Crypto.reference) stagingLeader).engine.pendingTxs = [] ∧
      ¬ ([.extendPendingTxs [stagedTx 0], .castProposal none, .tickTimeout].foldl
        (step Crypto.reference) stagingLeader).Kept := by
  decide +kernel

end Staging

end Aii.Bft
