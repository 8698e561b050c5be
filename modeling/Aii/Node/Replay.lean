/-
Aii.Node.Replay — transactions and nonces over a chain of blocks.

A precompile call neither reads nor bumps a nonce, and revm is given no
nonce to check.
-/
import Aii.Node.Commit

namespace Aii.Node

open Common Chain StateDb List

/-! ## The executed transactions -/

structure TxStep where
  number : UInt64
  tx : Tx
  before : Backend
  after : Backend

/-- The transaction changed the store. -/
def TxStep.Effective (st : TxStep) : Prop := st.after ≠ st.before

section Model

variable (c : Crypto) (revm : Revm) (spec : ChainSpec)

def bodySteps (number : UInt64) (beneficiary : Address) (b : Backend) (txs : List Tx) :
    List TxStep :=
  (txTrace c revm spec number beneficiary b txs).map fun p =>
    ⟨number, p.2, p.1, afterTx c revm spec number beneficiary p.1 p.2⟩

def blockSteps (s : NodeState) (block : Block) : List TxStep :=
  if applies c s block then
    bodySteps c revm spec block.header.number block.header.beneficiary
      (persistBlock c s.backend block) block.body.transactions
  else []

/-- The transactions executed while a sequence of blocks is committed. -/
def chainSteps : NodeState → List Block → List TxStep
  | _, [] => []
  | s, block :: blocks =>
    blockSteps c revm spec s block ++ chainSteps (commitBlock c revm spec s block) blocks

/-- An effect uses up the nonce of the sender's account. -/
def TxStep.Counted (st : TxStep) : Prop :=
  ∃ sender, st.tx.recoverSigner c spec.chainId = some sender ∧
    st.tx.nonce = (accountD c st.before sender).nonce ∧
    (accountD c st.after sender).nonce = st.tx.nonce + 1

/-- Every effect uses up a nonce, and no transaction has two. -/
structure ReplayProtected (steps : List TxStep) : Prop where
  counted : ∀ st ∈ steps, st.Effective → st.Counted c spec
  once : steps.Pairwise fun st st' =>
    st.Effective → st'.Effective → st.tx.hash c ≠ st'.tx.hash c

/-- A precompile call is rejected and pays no fee, and revm accepts a
transaction only with the nonce of the account, which is not the last. -/
structure ReplaySafe (number : UInt64) (b : Backend) (tx : Tx) : Prop where
  precompile : ∀ sender ∈ tx.recoverSigner c spec.chainId, ∀ call ∈ txCall tx,
    call.toAddr = some PRECOMPILE_ADDR →
    call.gasPrice = 0 ∧ (dispatch c b (precompileCall spec number sender call)).isOk = false
  revm : ∀ sender ∈ tx.recoverSigner c spec.chainId, ∀ call ∈ txCall tx,
    call.toAddr ≠ some PRECOMPILE_ADDR →
    (revm (RevmDb.new c b) (callEnv sender call)).isOk = true →
    tx.nonce = (accountD c b sender).nonce ∧ tx.nonce.toNat + 1 < 2 ^ 64

instance (number : UInt64) (b : Backend) (tx : Tx) :
    Decidable (ReplaySafe c revm spec number b tx) :=
  decidable_of_iff (_ ∧ _) ⟨fun h => ⟨h.1, h.2⟩, fun h => ⟨h.precompile, h.revm⟩⟩

/-- No account nonce is lower in `b'` than in `b`. -/
def NonceLe (b b' : Backend) : Prop :=
  ∀ addr, (accountD c b addr).nonce ≤ (accountD c b' addr).nonce

end Model

/-! ## Nonces never fall -/

section Nonces

variable {c : Crypto} {revm : Revm} {spec : ChainSpec} {number : UInt64} {b b' : Backend}

lemma NonceLe.refl (b : Backend) : NonceLe c b b := fun _ => UInt64.le_refl _

lemma NonceLe.trans {b'' : Backend} (h : NonceLe c b b') (h' : NonceLe c b' b'') :
    NonceLe c b b'' :=
  fun addr => UInt64.le_trans (h addr) (h' addr)

lemma NonceLe.of_cf_eq (h : b'.cf .state = b.cf .state) : NonceLe c b b' := by
  intro _
  rw [accountD_of_cf_eq h]
  exact UInt64.le_refl _

lemma nonce_credit (b : Backend) (addr addr' : Address) (delta : U256) :
    (accountD c (credit c b addr delta) addr').nonce = (accountD c b addr').nonce := by
  unfold credit
  by_cases hk : key c addr' = key c addr
  · have hsm : ∀ b : Backend, accountD c b addr' = accountD c b addr := by
      intro b
      rw [accountD, account, hk, ← account, ← accountD]
    rw [hsm, hsm, accountD_setAccount_self]
  · rw [accountD_setAccount_ne _ hk]

lemma nonceLe_credit (b : Backend) (addr : Address) (delta : U256) :
    NonceLe c b (credit c b addr delta) := by
  intro _
  rw [nonce_credit]
  exact UInt64.le_refl _

lemma nonce_settle (beneficiary addr : Address) (r : Backend × Option Charge) :
    (accountD c (settle c beneficiary r) addr).nonce = (accountD c r.1 addr).nonce := by
  unfold settle
  split
  · rfl
  · split_ifs
    · rfl
    · exact nonce_credit _ _ _ _

lemma nonceLe_settle (beneficiary : Address) (r : Backend × Option Charge) :
    NonceLe c r.1 (settle c beneficiary r) := by
  intro _
  rw [nonce_settle]
  exact UInt64.le_refl _

lemma nonceLe_mintSubsidy (spec : ChainSpec) (b : Backend) (number : UInt64)
    (beneficiary : Address) : NonceLe c b (mintSubsidy c spec b number beneficiary) := by
  unfold mintSubsidy
  dsimp only
  split_ifs
  · exact nonceLe_credit _ _ _
  · exact .refl b

section Machine

variable (hinj : Function.Injective (key c)) (hrv : revm.CountsNonces)

include hinj hrv

lemma nonceLe_applyDiff {env : TxEnv} {out : ResultAndState}
    (hok : revm (RevmDb.new c b) env = .ok out)
    (hwr : applyDiff c b out.state.entries = (b', .ok ())) : NonceLe c b b' := by
  intro addr
  by_cases hm : addr ∈ out.state.entries.map Prod.fst
  · obtain ⟨e, he, rfl⟩ := mem_map.mp hm
    rw [(applyDiff_accountD_mem hinj hwr out.state.nodup he).2, ← RevmDb.nonce_new]
    exact hrv.mono _ _ _ hok e he
  · rw [applyDiff_accountD_notMem hinj hwr hm]
    exact UInt64.le_refl _

lemma nonceLe_runTx (h : StateOk b) (tx : Tx) :
    NonceLe c b (runTx c revm spec number b tx).1 := by
  obtain ⟨b', ch, hr, hsp⟩ := runTx_step c revm spec number h tx
  rw [hr]
  cases hsp with
  | skipped => exact .refl b
  | precompile => exact .of_cf_eq (afterDispatch_frame (by decide) b _)
  | rejected => exact .refl b
  | executed _ _ _ _ _ _ _ hok hwr =>
    exact nonceLe_applyDiff hinj hrv hok hwr

lemma nonceLe_afterTx (h : StateOk b) (beneficiary : Address) (tx : Tx) :
    NonceLe c b (afterTx c revm spec number beneficiary b tx) :=
  (nonceLe_runTx hinj hrv h tx).trans (nonceLe_settle beneficiary _)

lemma counted_of_replaySafe (h : StateOk b) (beneficiary : Address) {tx : Tx}
    (hs : ReplaySafe c revm spec number b tx)
    (he : afterTx c revm spec number beneficiary b tx ≠ b) :
    TxStep.Counted c spec ⟨number, tx, b, afterTx c revm spec number beneficiary b tx⟩ ∧
      tx.nonce.toNat + 1 < 2 ^ 64 := by
  obtain ⟨b', ch, hr, hsp⟩ := runTx_step c revm spec number h tx
  rw [afterTx, hr] at he ⊢
  cases hsp with
  | skipped | rejected => exact absurd rfl he
  | precompile sender call hsg hf htr =>
    -- the rejected call writes nothing, and its fee is zero
    obtain ⟨hp, hr⟩ := hs.precompile sender hsg call hf htr
    refine absurd ?_ he
    have hfe : ∀ ty ok, Charge.fee ⟨ty, ok, PRECOMPILE_GAS, call.gasPrice, []⟩ = 0 := by
      intro ty ok
      rw [Charge.fee, hp]
      exact (by decide : satMul256 (u256OfU64 PRECOMPILE_GAS) 0 = 0)
    unfold settle
    dsimp only
    rw [if_pos (hfe _ _)]
    unfold afterDispatch
    cases hd : dispatch c b (precompileCall spec number sender call) with
    | error => rfl
    | ok =>
      rw [hd] at hr
      cases hr
  | executed sender call out b' hsg hf htr hok hwr =>
    obtain ⟨hnc, hlast⟩ := hs.revm sender hsg call hf htr (by rw [hok]; rfl)
    have hb := hlast
    rw [hnc, ← RevmDb.nonce_new] at hb
    obtain ⟨_, hm, ha⟩ := hrv.sender _ _ _ hok hb
    have haf : (accountD c b' sender).nonce = tx.nonce + 1 := by
      rw [RevmDb.nonce_new] at ha
      rw [hnc]
      exact (applyDiff_accountD_mem hinj hwr out.state.nodup hm).2.trans ha
    refine ⟨⟨sender, hsg, hnc, ?_⟩, hlast⟩
    rw [nonce_settle]
    exact haf

end Machine

end Nonces

/-! ## Whole runs -/

section Runs

variable {c : Crypto} {revm : Revm} {spec : ChainSpec} {b b' b'' : Backend} {l : List TxStep}
  {st : TxStep}

variable (c) in
/-- Nonces do not fall from `b`, over the steps in order, to `b'`. -/
structure NonceRun (b : Backend) (steps : List TxStep) (b' : Backend) : Prop where
  whole : NonceLe c b b'
  start : ∀ st ∈ steps, NonceLe c b st.before
  finish : ∀ st ∈ steps, NonceLe c st.after b'
  ordered : steps.Pairwise fun st st' => NonceLe c st.after st'.before

lemma NonceRun.nil (h : NonceLe c b b') : NonceRun c b [] b' := ⟨h, nofun, nofun, .nil⟩

lemma NonceRun.single (st : TxStep) (h : NonceLe c st.before st.after) :
    NonceRun c st.before [st] st.after := by
  refine ⟨h, ?_, ?_, pairwise_singleton _ _⟩
  · intro st' hst'
    rw [mem_singleton.mp hst']
    exact .refl _
  · intro _ hst'
    rw [mem_singleton.mp hst']
    exact .refl _

lemma NonceRun.append {l' : List TxStep} (h : NonceRun c b l b') (h' : NonceRun c b' l' b'') :
    NonceRun c b (l ++ l') b'' := by
  refine ⟨h.whole.trans h'.whole, ?_, ?_, ?_⟩
  · intro st hst
    rcases mem_append.mp hst with hst | hst
    · exact h.start st hst
    · exact h.whole.trans (h'.start st hst)
  · intro st hst
    rcases mem_append.mp hst with hst | hst
    · exact (h.finish st hst).trans h'.whole
    · exact h'.finish st hst
  · refine pairwise_append.mpr ⟨h.ordered, h'.ordered, ?_⟩
    intro st hst st' hst'
    exact (h.finish st hst).trans (h'.start st' hst')

lemma NonceRun.extend (hp : NonceLe c b b') (h : NonceRun c b' l b'') {b₁ : Backend}
    (hps : NonceLe c b'' b₁) : NonceRun c b l b₁ := by
  simpa using ((NonceRun.nil hp).append h).append (.nil hps)

lemma bodySteps_step (h : StateOk b) {number : UInt64} {beneficiary : Address} {txs : List Tx}
    (hst : st ∈ bodySteps c revm spec number beneficiary b txs) :
    StateOk st.before ∧ st.after = afterTx c revm spec st.number beneficiary st.before st.tx := by
  induction txs generalizing b with
  | nil => cases hst
  | cons tx _ ih =>
    rcases mem_cons.mp hst with rfl | hst
    · exact ⟨h, rfl⟩
    · exact ih (stateOk_afterTx h beneficiary tx) hst

lemma chainSteps_step {s : NodeState} (h : StateOk s.backend) {blocks : List Block}
    (hst : st ∈ chainSteps c revm spec s blocks) : StateOk st.before ∧
      ∃ beneficiary, st.after = afterTx c revm spec st.number beneficiary st.before st.tx := by
  induction blocks generalizing s with
  | nil => cases hst
  | cons block _ ih =>
    rcases mem_append.mp hst with hst | hst
    · unfold blockSteps at hst
      split_ifs at hst
      · have hp := h.of_cf_eq (persistBlock_frame (c := c) (by decide) s.backend block)
        obtain ⟨hok, haf⟩ := bodySteps_step hp hst
        exact ⟨hok, _, haf⟩
      · cases hst
    · exact ih (stateOk_commitBlock h block) hst

section Machine

variable (hinj : Function.Injective (key c)) (hrv : revm.CountsNonces) {s : NodeState}

include hinj hrv

lemma nonceRun_body (h : StateOk b) (number : UInt64) (beneficiary : Address) (txs : List Tx) :
    NonceRun c b (bodySteps c revm spec number beneficiary b txs)
      (txs.foldl (afterTx c revm spec number beneficiary) b) := by
  induction txs generalizing b with
  | nil => exact .nil (.refl b)
  | cons tx _ ih =>
    have hhd : NonceLe c b (afterTx c revm spec number beneficiary b tx) :=
      nonceLe_afterTx hinj hrv h beneficiary tx
    exact (NonceRun.single ⟨number, tx, b, _⟩ hhd).append
      (ih (stateOk_afterTx h beneficiary tx))

lemma nonceRun_block (h : StateOk s.backend) (block : Block) :
    NonceRun c s.backend (blockSteps c revm spec s block)
      (commitBlock c revm spec s block).backend := by
  unfold blockSteps
  split_ifs with has
  · rw [commitBlock_of_applies has]
    have hp : (persistBlock c s.backend block).cf .state = s.backend.cf .state :=
      persistBlock_frame (by decide) _ _
    refine (nonceRun_body hinj hrv (h.of_cf_eq hp) _ _ _).extend (.of_cf_eq hp) ?_
    refine (nonceLe_mintSubsidy spec _ block.header.number block.header.beneficiary).trans
      (.of_cf_eq ?_)
    rw [applyBlock_state, executedState_backend]
  · have hce : commitBlock c revm spec s block = s ∨ _ := commitBlock_of_not_applies has
    rcases hce with heq | ⟨_, heq⟩
    · rw [heq]
      exact .nil (.refl _)
    · rw [heq]
      exact .nil (.of_cf_eq (Backend.cf_put_ne (by decide)))

lemma nonceRun_chain (h : StateOk s.backend) (blocks : List Block) :
    NonceRun c s.backend (chainSteps c revm spec s blocks)
      (blocks.foldl (commitBlock c revm spec) s).backend := by
  induction blocks generalizing s with
  | nil => exact .nil (.refl _)
  | cons block _ ih =>
    exact (nonceRun_block hinj hrv h block).append (ih (stateOk_commitBlock h block))

/-- Replay protection, over every chain whose transactions are all safe. -/
theorem replayProtected_chain {s : NodeState} (h : StateOk s.backend) {blocks : List Block}
    (hsafe : ∀ st ∈ chainSteps c revm spec s blocks,
      ReplaySafe c revm spec st.number st.before st.tx)
    (hhash : ∀ st ∈ chainSteps c revm spec s blocks, ∀ st' ∈ chainSteps c revm spec s blocks,
      st.tx.hash c = st'.tx.hash c → st.tx = st'.tx) :
    ReplayProtected c spec (chainSteps c revm spec s blocks) := by
  have hc : ∀ st ∈ chainSteps c revm spec s blocks, st.Effective →
      st.Counted c spec ∧ st.tx.nonce.toNat + 1 < 2 ^ 64 := by
    intro st hst heff
    obtain ⟨hok, beneficiary, haf⟩ := chainSteps_step h hst
    obtain ⟨_, tx, _, _⟩ := st
    dsimp only at hok haf
    subst haf
    exact counted_of_replaySafe hinj hrv hok beneficiary (hsafe _ hst) heff
  refine ⟨fun st hst heff => (hc st hst heff).1, ?_⟩
  have hr : NonceRun c s.backend (chainSteps c revm spec s blocks) _ :=
    nonceRun_chain hinj hrv h blocks
  refine hr.ordered.imp_of_mem ?_
  intro st st' hst hst' hle heff heff' heq
  -- the second effect would need the nonce the first one used up
  have htx := hhash st hst st' hst' heq
  obtain ⟨⟨sender, hsg, -, haf⟩, hlast⟩ := hc st hst heff
  obtain ⟨⟨_, hsg', hnc', -⟩, -⟩ := hc st' hst' heff'
  rw [← htx, hsg] at hsg'
  cases hsg'
  have hle := UInt64.le_iff_toNat_le.mp (hle sender)
  rw [haf, ← hnc', ← htx, toNat_add64_of_lt hlast] at hle
  exact absurd hle (Nat.not_succ_le_self _)

end Machine

end Runs

def sampleNode : NodeState := .new sampleGenesis

theorem replayProtected_transfers : ReplayProtected .reference sampleSpec
      (chainSteps .reference Revm.reference sampleSpec sampleNode
        [sampleBlock 1 [sampleTx 0 0 (arrOfNat 20 7) 5 []],
          sampleBlock 2 [sampleTx 1 0 (arrOfNat 20 7) 5 []]]) :=
  replayProtected_chain referenceKey_injective Revm.reference_countsNonces sampleGenesis_ok
    (by decide +kernel) (by decide +kernel)

lemma effective_of_get {st : TxStep} (cf : ColumnFamily) (k : Bytes)
    (h : st.after.get cf k ≠ st.before.get cf k) : st.Effective := by
  intro heq
  rw [heq] at h
  exact h rfl

lemma not_replayProtected_of_twice {c : Crypto} {spec : ChainSpec} {steps : List TxStep}
    (i j : Fin steps.length) (hij : i < j) (hi : (steps.get i).Effective)
    (hj : (steps.get j).Effective) (hhs : (steps.get i).tx.hash c = (steps.get j).tx.hash c) :
    ¬ ReplayProtected c spec steps :=
  fun h => pairwise_iff_get.mp h.once i j hij hi hj hhs

/-- A bond included twice bonds twice, and so does a transfer pay. -/
theorem bond_and_transfer_replayed : ¬ ReplayProtected .reference sampleSpec
        (chainSteps .reference Revm.reference sampleSpec sampleNode
          [sampleBlock 1 [sampleTx 0 0 PRECOMPILE_ADDR 5 OP_BOND,
            sampleTx 0 0 PRECOMPILE_ADDR 5 OP_BOND]]) ∧ ¬ ReplayProtected .reference sampleSpec
        (chainSteps .reference Revm.reference sampleSpec sampleNode
          [sampleBlock 1 [sampleTx 0 0 (arrOfNat 20 7) 5 []],
            sampleBlock 2 [sampleTx 0 0 (arrOfNat 20 7) 5 []]]) := by
  constructor
  · refine not_replayProtected_of_twice ⟨0, by decide +kernel⟩ ⟨1, by decide +kernel⟩ (by decide)
      (effective_of_get .metaCf (StakeTable.key sampleSender) ?_)
      (effective_of_get .metaCf (StakeTable.key sampleSender) ?_) ?_
    · decide +kernel
    · decide +kernel
    · decide +kernel
  · refine not_replayProtected_of_twice ⟨0, by decide +kernel⟩ ⟨1, by decide +kernel⟩ (by decide)
      (effective_of_get .state (key .reference (arrOfNat 20 7)) ?_)
      (effective_of_get .state (key .reference (arrOfNat 20 7)) ?_) ?_
    · decide +kernel
    · decide +kernel
    · decide +kernel

end Aii.Node
