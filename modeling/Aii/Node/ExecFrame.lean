/-
Aii.Node.ExecFrame — what executing a block depends on.

Two stores that agree on the `ExecKey`s execute alike and leave stores
that agree again.
-/
import Aii.Node.Commit

namespace Aii.Node

open Common Chain List StateDb StakeTable Governance

inductive ExecKey : ColumnFamily → Bytes → Prop
  | state (k : Bytes) : ExecKey .state k
  | code (k : Bytes) : ExecKey .code k
  | storage (k : Bytes) : ExecKey .accountStorage k
  | stake {k : Bytes} (h : StakeTable.KEY_PREFIX <+: k) : ExecKey .metaCf k
  | prop {k : Bytes} (h : Governance.PROP_PREFIX <+: k) : ExecKey .metaCf k
  | registry {k : Bytes} (h : ValidatorRegistry.KEY_PREFIX <+: k) : ExecKey .metaCf k
  | epoch {k : Bytes} (h : Dpos.KEY_PREFIX <+: k) : ExecKey .metaCf k

/-- The two stores execute alike. -/
abbrev ExecAgree : Backend → Backend → Prop := Backend.AgreeOn ExecKey

lemma ExecKey.not_meta {p k : Bytes} (hk : p <+: k)
    (hp : ∀ q ∈ [StakeTable.KEY_PREFIX, Governance.PROP_PREFIX, ValidatorRegistry.KEY_PREFIX,
      Dpos.KEY_PREFIX], Apart p q) : ¬ ExecKey .metaCf k := by
  simp [not_mem_nil] at hp
  obtain ⟨hsk, hpp, hr, hep⟩ := hp
  intro h
  cases h with
  | stake h => exact prefix_excludes hk hsk h
  | prop h => exact prefix_excludes hk hpp h
  | registry h => exact prefix_excludes hk hr h
  | epoch h => exact prefix_excludes hk hep h

section Reads

variable {c : Crypto} {b₁ b₂ : Backend} (h : ExecAgree b₁ b₂)

include h

/-! ## Reads -/

lemma ExecAgree.account (addr : Address) :
    StateDb.account c b₁ addr = StateDb.account c b₂ addr := by
  rw [StateDb.account, h .state _ (.state _), StateDb.account]

lemma ExecAgree.accountD (addr : Address) :
    StateDb.accountD c b₁ addr = StateDb.accountD c b₂ addr := by
  rw [StateDb.accountD, ExecAgree.account h, StateDb.accountD]

lemma ExecAgree.stateRoot : StateDb.stateRoot c b₁ = StateDb.stateRoot c b₂ := by
  have hcf := h.cf_eq fun k => .state k
  rw [StateDb.stateRoot, Backend.iter, hcf, StateDb.stateRoot, Backend.iter]

lemma ExecAgree.stateOk (hok : StateDb.StateOk b₂) : StateDb.StateOk b₁ :=
  hok.of_cf_eq (h.cf_eq fun k => .state k)

lemma ExecAgree.revmDb : RevmDb.new c b₁ = RevmDb.new c b₂ := by
  have hcd : codeGet b₁ = codeGet b₂ := by
    funext k
    exact h .code _ (.code _)
  have hs : storageGet b₁ = storageGet b₂ := by
    funext addr slot
    rw [storageGet, h .accountStorage _ (.storage _), storageGet]
  unfold RevmDb.new
  simp [ExecAgree.account h, hcd, hs]

lemma ExecAgree.stake (addr : Address) : StakeTable.get b₁ addr = StakeTable.get b₂ addr := by
  rw [StakeTable.get, h .metaCf (key addr) (.stake (prefix_append _ _)), StakeTable.get]

lemma ExecAgree.amountOf (addr : Address) :
    StakeTable.amountOf b₁ addr = StakeTable.amountOf b₂ addr := by
  rw [StakeTable.amountOf, ExecAgree.stake h, StakeTable.amountOf]

lemma ExecAgree.listAll : StakeTable.listAll b₁ = StakeTable.listAll b₂ :=
  StakeTable.listAll_congr fun k hk => h .metaCf k (.stake hk)

lemma ExecAgree.proposal (id : UInt64) : Governance.get b₁ id = Governance.get b₂ id := by
  rw [Governance.get, h .metaCf (propKey id) (.prop (prefix_append _ _)), Governance.get]

lemma ExecAgree.nextId : Governance.nextId b₁ = Governance.nextId b₂ := by
  rw [Governance.nextId, h.iterPrefix fun k hk => .prop hk, Governance.nextId]

lemma ExecAgree.registered (addr : Address) :
    ValidatorRegistry.get b₁ addr = ValidatorRegistry.get b₂ addr := by
  rw [ValidatorRegistry.get, h .metaCf (ValidatorRegistry.key addr) (.registry (prefix_append _ _)),
    ValidatorRegistry.get]

lemma ExecAgree.validatorSet (epoch : UInt64) :
    Dpos.readValidatorSet b₁ epoch = Dpos.readValidatorSet b₂ epoch :=
  Dpos.readValidatorSet_congr h (fun _ hk => .epoch hk) epoch

lemma ExecAgree.mayReceiveSubsidy (beneficiary : Address) :
    mayReceiveSubsidy b₁ beneficiary = mayReceiveSubsidy b₂ beneficiary := by
  rw [Node.mayReceiveSubsidy, Dpos.latestValidatorSet_congr h fun _ hk => .epoch hk,
    Node.mayReceiveSubsidy]

/-! ## Precompile calls -/

end Reads

/-- Both calls fail alike, or both succeed alike and leave stores that
execute alike. -/
inductive ResultsAgree {ε α : Type} : Except ε (Backend × α) → Except ε (Backend × α) → Prop
  | error (e : ε) : ResultsAgree (.error e) (.error e)
  | ok {b₁ b₂ : Backend} (h : ExecAgree b₁ b₂) (a : α) : ResultsAgree (.ok (b₁, a)) (.ok (b₂, a))

section Dispatch

variable {c : Crypto} {b₁ b₂ : Backend} (h : ExecAgree b₁ b₂)

include h

lemma castVote_agree (id : UInt64) (voter : Address) (support : Bool) (height : UInt64) :
    ResultsAgree (Governance.castVote b₁ id voter support height)
      (Governance.castVote b₂ id voter support height) := by
  unfold castVote
  rw [ExecAgree.proposal h, ExecAgree.stake h]
  split
  · exact .error _
  · split_ifs
    · exact .error _
    · split
      · exact .error _
      · split_ifs
        · exact .error _
        · exact .ok (h.put _ _ _) _

variable (call : PrecompileCall)

lemma dispatchWithdraw_agree :
    ResultsAgree (dispatchWithdraw b₁ call) (dispatchWithdraw b₂ call) := by
  unfold dispatchWithdraw withdraw
  rw [ExecAgree.stake h]
  split
  · exact .ok h _
  · split_ifs
    · exact .ok h _
    · exact .ok (h.delete _ _) _

lemma dispatchPropose_agree (args : Bytes) :
    ResultsAgree (dispatchPropose b₁ call args) (dispatchPropose b₂ call args) := by
  unfold dispatchPropose propose
  rw [ExecAgree.nextId h]
  dsimp only
  split_ifs
  · exact .error _
  · exact .error _
  · split
    · exact .error _
    · exact .ok (h.put _ _ _) _

lemma dispatchVote_agree (args : Bytes) :
    ResultsAgree (dispatchVote b₁ call args) (dispatchVote b₂ call args) := by
  unfold dispatchVote
  dsimp only
  split_ifs
  · exact .error _
  · have hvt := castVote_agree h (u64OfBe (args.take 8)) call.sender (args.getD 8 0 != 0)
      call.blockHeight
    generalize castVote b₁ _ _ _ _ = r₁ at hvt ⊢
    generalize castVote b₂ _ _ _ _ = r₂ at hvt ⊢
    cases hvt with
    | error => exact .error _
    | ok hag => exact .ok hag _

lemma dispatchRegister_agree (args : Bytes) :
    ResultsAgree (dispatchRegister c b₁ call args) (dispatchRegister c b₂ call args) := by
  unfold dispatchRegister
  split_ifs
  · exact .error _
  · split
    · split_ifs
      · exact .error _
      · exact .error _
      · exact .ok (h.put _ _ _) _
    · exact .error _

lemma dispatch_agree : ResultsAgree (dispatch c b₁ call) (dispatch c b₂ call) := by
  unfold dispatch
  dsimp only
  split_ifs
  · exact .error _
  · unfold dispatchBond bond
    rw [ExecAgree.amountOf h]
    split_ifs
    · exact .error _
    · exact .ok (h.put _ _ _) _
  · unfold dispatchBeginUnbond beginUnbond
    rw [ExecAgree.stake h]
    cases get b₂ call.sender with
    | none => exact .error _
    | some => exact .ok (h.put _ _ _) _
  · exact dispatchWithdraw_agree h call
  · exact dispatchPropose_agree h call _
  · exact dispatchVote_agree h call _
  · exact dispatchRegister_agree h call _
  · exact .error _

lemma afterDispatch_agree : ExecAgree (afterDispatch c b₁ call) (afterDispatch c b₂ call) ∧
      (dispatch c b₁ call).isOk = (dispatch c b₂ call).isOk := by
  have hr := dispatch_agree (c := c) h call
  unfold afterDispatch
  generalize dispatch c b₁ call = r₁ at hr ⊢
  generalize dispatch c b₂ call = r₂ at hr ⊢
  cases hr with
  | error => exact ⟨h, rfl⟩
  | ok hag => exact ⟨hag, rfl⟩

end Dispatch

/-! ## Transactions -/

section Transactions

variable {c : Crypto} {revm : Revm} {spec : ChainSpec} {number : UInt64} {b₁ b₂ : Backend}
  (h : ExecAgree b₁ b₂)

include h

lemma applySlots_agree (addr : Address) (slots : List (U256 × StorageSlot)) :
    ExecAgree (applySlots b₁ addr slots) (applySlots b₂ addr slots) := by
  unfold applySlots
  induction slots generalizing b₁ b₂ with
  | nil => exact h
  | cons _ _ ih =>
    rw [foldl_cons, foldl_cons]
    apply ih
    split_ifs
    · exact h
    · unfold storagePut
      split_ifs
      · exact h.delete _ _
      · exact h.put _ _ _

lemma applyAccount_agree (addr : Address) (old : Account) (acc : RevmAccount) :
    ExecAgree (applyAccount c b₁ addr old acc) (applyAccount c b₂ addr old acc) := by
  unfold applyAccount
  apply applySlots_agree
  split
  · split_ifs
    · exact h.put _ _ _
    · exact (h.put _ _ _).put _ _ _
  · exact h.put _ _ _

lemma applyDiff_agree (entries : List (Address × RevmAccount)) :
    ExecAgree (applyDiff c b₁ entries).1 (applyDiff c b₂ entries).1 ∧
      (applyDiff c b₁ entries).2 = (applyDiff c b₂ entries).2 := by
  induction entries generalizing b₁ b₂ with
  | nil => exact ⟨h, rfl⟩
  | cons e _ ih =>
    obtain ⟨addr, _⟩ := e
    unfold applyDiff
    rw [ExecAgree.account h]
    cases account c b₂ addr with
    | error => exact ⟨h, rfl⟩
    | ok => exact ih (applyAccount_agree h _ _ _)

lemma executeWithRevm_agree (env : TxEnv) :
    ExecAgree (executeWithRevm c revm b₁ env).1 (executeWithRevm c revm b₂ env).1 ∧
      (executeWithRevm c revm b₁ env).2 = (executeWithRevm c revm b₂ env).2 := by
  unfold executeWithRevm
  rw [ExecAgree.revmDb h]
  cases revm (RevmDb.new c b₂) env with
  | error => exact ⟨h, rfl⟩
  | ok out =>
    dsimp only
    obtain ⟨hag, hsm⟩ := applyDiff_agree h out.state.entries
    generalize applyDiff c b₁ out.state.entries = r₁ at hag hsm ⊢
    generalize applyDiff c b₂ out.state.entries = r₂ at hag hsm ⊢
    obtain ⟨_, r₁⟩ := r₁
    obtain ⟨_, r₂⟩ := r₂
    obtain rfl : r₁ = r₂ := hsm
    cases r₁ with
    | error | ok => exact ⟨hag, rfl⟩

lemma runTx_agree (tx : Tx) :
    ExecAgree (runTx c revm spec number b₁ tx).1 (runTx c revm spec number b₂ tx).1 ∧
      (runTx c revm spec number b₁ tx).2 = (runTx c revm spec number b₂ tx).2 := by
  unfold runTx
  cases tx.recoverSigner c spec.chainId with
  | none => exact ⟨h, rfl⟩
  | some sender =>
    cases txCall tx with
    | none => exact ⟨h, rfl⟩
    | some call =>
      dsimp only
      split_ifs
      · obtain ⟨hag, hsm⟩ := afterDispatch_agree h
          (precompileCall spec number sender call)
        exact ⟨hag, by rw [hsm]⟩
      · have hrv : ExecAgree (executeWithRevm c revm b₁ _).1 _ ∧ _ :=
          executeWithRevm_agree h (callEnv sender call)
        obtain ⟨hag, hsm⟩ := hrv
        generalize executeWithRevm c revm b₁ (callEnv sender call) = r₁ at hag hsm ⊢
        generalize executeWithRevm c revm b₂ (callEnv sender call) = r₂ at hag hsm ⊢
        obtain ⟨_, r₁⟩ := r₁
        obtain ⟨_, r₂⟩ := r₂
        obtain rfl : r₁ = r₂ := hsm
        cases r₁ with
        | error | ok => exact ⟨hag, rfl⟩

lemma credit_agree (addr : Address) (delta : U256) :
    ExecAgree (credit c b₁ addr delta) (credit c b₂ addr delta) := by
  rw [credit, ExecAgree.accountD h]
  exact h.put _ _ _

lemma mintSubsidy_agree (beneficiary : Address) :
    ExecAgree (mintSubsidy c spec b₁ number beneficiary)
      (mintSubsidy c spec b₂ number beneficiary) := by
  unfold mintSubsidy
  rw [ExecAgree.mayReceiveSubsidy h]
  dsimp only
  split_ifs
  · exact credit_agree h _ _
  · exact h

end Transactions

/-! ## Blocks -/

section Blocks

variable {c : Crypto} {revm : Revm} {spec : ChainSpec} {number : UInt64} {b₁ b₂ : Backend}
  {n₁ n₂ : NodeState}

/-- The loop states differ in what execution does not read. -/
structure ExecState.Agree (s₁ s₂ : ExecState) : Prop where
  backend : ExecAgree s₁.backend s₂.backend
  gas : s₁.cumulativeGasUsed = s₂.cumulativeGasUsed
  receipts : s₁.receipts = s₂.receipts

lemma commitTx_agree (beneficiary : Address) {s₁ s₂ : ExecState} (h : s₁.Agree s₂) (tx : Tx) :
    (commitTx c revm spec number beneficiary s₁ tx).Agree
      (commitTx c revm spec number beneficiary s₂ tx) := by
  have hr : ExecAgree (runTx c revm spec number s₁.backend tx).1 _ ∧ _ := runTx_agree h.backend tx
  obtain ⟨hag, hsm⟩ := hr
  unfold commitTx
  generalize runTx c revm spec number s₁.backend tx = r₁ at hag hsm ⊢
  generalize runTx c revm spec number s₂.backend tx = r₂ at hag hsm ⊢
  obtain ⟨b₁, ch?⟩ := r₁
  obtain ⟨b₂, ch?'⟩ := r₂
  obtain rfl : ch? = ch?' := hsm
  cases ch? with
  | none => exact ⟨hag, h.gas, h.receipts⟩
  | some =>
    unfold ExecState.charged
    rw [h.gas, h.receipts]
    refine ⟨?_, rfl, rfl⟩
    dsimp only
    split_ifs
    · exact hag
    · exact credit_agree hag _ _

section Executed

variable (h : ExecAgree b₁ b₂)

include h

lemma executedState_agree (block : Block) :
    (executedState c revm spec b₁ block).Agree (executedState c revm spec b₂ block) := by
  have hlp : ∀ (txs : List Tx) (s₁ s₂ : ExecState), s₁.Agree s₂ →
      (commitTxs c revm spec block.header.number block.header.beneficiary s₁ txs).Agree
        (commitTxs c revm spec block.header.number block.header.beneficiary s₂ txs) := by
    intro txs
    induction txs with
    | nil => exact fun _ _ hs => hs
    | cons tx _ ih => exact fun s₁ s₂ hs => ih _ _ (commitTx_agree _ hs tx)
  have hby := hlp block.body.transactions (.start b₁) (.start b₂) ⟨h, rfl, rfl⟩
  exact ⟨mintSubsidy_agree hby.backend _, hby.gas, hby.receipts⟩

lemma executeBlockTxs_agree (block : Block) :
    ExecAgree (executeBlockTxs c revm spec b₁ block) (executeBlockTxs c revm spec b₂ block) := by
  have hec : (executedState c revm spec b₁ block).Agree _ := executedState_agree h block
  unfold executeBlockTxs persistPostRoots persistReceipts
  dsimp only
  rw [hec.receipts]
  have hp := hec.backend.write ((executedState c revm spec b₂ block).receipts.map fun p =>
    ⟨.receipts, (p.1.hash c).toList, p.2.encode2718⟩)
  rw [ExecAgree.stateRoot hp]
  exact hp.put _ _ _

lemma scanMicrochainAnchors_agree (block : Block) :
    ExecAgree (scanMicrochainAnchors c spec b₁ block) (scanMicrochainAnchors c spec b₂ block) := by
  unfold scanMicrochainAnchors
  generalize block.body.transactions = txs
  induction txs generalizing b₁ b₂ with
  | nil => exact h
  | cons _ _ ih =>
    rw [foldl_cons, foldl_cons]
    apply ih
    split
    · split_ifs
      · exact h
      · exact h.put _ _ _
    · exact h

lemma maybeElectValidatorSet_agree (number : UInt64) :
    ExecAgree (maybeElectValidatorSet spec b₁ number) (maybeElectValidatorSet spec b₂ number) := by
  have hc : candidates b₁ = candidates b₂ := by
    funext minStake
    rw [candidates, ExecAgree.listAll h, candidates]
  have hr : ValidatorRegistry.get b₁ = ValidatorRegistry.get b₂ := by
    funext addr
    exact ExecAgree.registered h addr
  unfold maybeElectValidatorSet electRegisteredActiveSet electActiveSet
  rw [hc, hr]
  dsimp only
  split_ifs
  · exact h
  · exact h.put _ _ _
  · exact h.put _ _ _

lemma applyBlock_agree (block : Block) :
    ExecAgree (applyBlock c revm spec b₁ block) (applyBlock c revm spec b₂ block) :=
  maybeElectValidatorSet_agree (scanMicrochainAnchors_agree
    (executeBlockTxs_agree (h.write _) block) block) _

lemma applyBlock_receipts (hr : b₁.cf .receipts = b₂.cf .receipts) (block : Block) :
    (applyBlock c revm spec b₁ block).cf .receipts =
      (applyBlock c revm spec b₂ block).cf .receipts := by
  have hp : ExecAgree (persistBlock c b₁ block) (persistBlock c b₂ block) := h.write _
  have hec : (executedState c revm spec (persistBlock c b₁ block) block).Agree _ :=
    executedState_agree hp block
  -- a store agrees on `Receipts` with the one before the block was executed
  have hstate : ∀ b : Backend, Backend.AgreeOn (fun cf _ => cf = .receipts)
      (executedState c revm spec (persistBlock c b block) block).backend b := by
    rintro b _ k rfl
    rw [Backend.get, executedState_frame (by decide) (by decide),
      persistBlock_frame (by decide), Backend.get]
  have hbh : Backend.AgreeOn (fun cf _ => cf = .receipts)
      (executedState c revm spec (persistBlock c b₁ block) block).backend
      (executedState c revm spec (persistBlock c b₂ block) block).backend := by
    refine (hstate b₁).trans (Backend.AgreeOn.trans ?_ (hstate b₂).symm)
    rintro _ k rfl
    rw [Backend.get, hr, Backend.get]
  unfold applyBlock
  rw [maybeElectValidatorSet_frame (by decide), maybeElectValidatorSet_frame (by decide),
    scanMicrochainAnchors_frame (by decide), scanMicrochainAnchors_frame (by decide)]
  unfold executeBlockTxs persistPostRoots persistReceipts
  dsimp only
  rw [Backend.cf_put_ne (by decide), Backend.cf_put_ne (by decide), hec.receipts]
  exact (hbh.write _).cf_eq fun _ => rfl

end Executed

/-! ## Nodes -/

/-- Two nodes with the same index execute alike and have the same
receipts. -/
structure NodesAgree (n₁ n₂ : NodeState) : Prop where
  blocks : n₁.blocks = n₂.blocks
  exec : ExecAgree n₁.backend n₂.backend
  receipts : n₁.backend.cf .receipts = n₂.backend.cf .receipts

lemma NodesAgree.refl (n : NodeState) : NodesAgree n n := ⟨rfl, .refl _, rfl⟩

lemma commitBlock_agree (hbc : n₁.blocks = n₂.blocks) (hec : ExecAgree n₁.backend n₂.backend)
    (block : Block) :
    (commitBlock c revm spec n₁ block).blocks = (commitBlock c revm spec n₂ block).blocks ∧
      ExecAgree (commitBlock c revm spec n₁ block).backend
        (commitBlock c revm spec n₂ block).backend := by
  unfold commitBlock
  rw [hbc]
  split_ifs
  · exact ⟨hbc, hec⟩
  · split
    · exact ⟨rfl, hec.put _ _ _⟩
    · exact ⟨rfl, applyBlock_agree hec block⟩

lemma NodesAgree.commitBlock (h : NodesAgree n₁ n₂) (block : Block) :
    NodesAgree (commitBlock c revm spec n₁ block) (commitBlock c revm spec n₂ block) := by
  refine ⟨(commitBlock_agree h.blocks h.exec block).1,
    (commitBlock_agree h.blocks h.exec block).2, ?_⟩
  unfold Node.commitBlock
  rw [h.blocks]
  split_ifs
  · exact h.receipts
  · split
    · unfold recordFork
      rw [Backend.cf_put_ne (by decide), Backend.cf_put_ne (by decide), h.receipts]
    · exact applyBlock_receipts h.exec h.receipts block

lemma setHead_execAgree (n : NodeState) (num : UInt64) :
    ExecAgree (setHead n num).backend n.backend :=
  setHead_agree (ExecKey.not_meta (prefix_refl META_KEY_HEAD) (by decide))
    (ExecKey.not_meta (prefix_refl META_KEY_HEAD_HASH) (by decide)) n num

lemma NodesAgree.setHead (n : NodeState) (num : UInt64) : NodesAgree (setHead n num) n :=
  ⟨rfl, setHead_execAgree n num, setHead_frame (by decide) n num⟩

lemma NodesAgree.symm (h : NodesAgree n₁ n₂) : NodesAgree n₂ n₁ :=
  ⟨h.blocks.symm, h.exec.symm, h.receipts.symm⟩

lemma NodesAgree.trans {n₃ : NodeState} (h : NodesAgree n₁ n₂) (h' : NodesAgree n₂ n₃) :
    NodesAgree n₁ n₃ :=
  ⟨h.blocks.trans h'.blocks, h.exec.trans h'.exec, h.receipts.trans h'.receipts⟩

end Blocks

end Aii.Node
