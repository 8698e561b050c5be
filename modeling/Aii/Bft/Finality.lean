/-
Aii.Bft.Finality — whatever is final comes with its proof.

A cache entry entered the cache with a certificate that verifies against
the set of that moment.
-/
import Aii.Bft.CommitPaths
import Aii.Bft.Decision

namespace Aii.Bft

open Common Chain List Option RoundCoordinator BftGossip

variable {c : Crypto}

namespace BftEngine

variable {e e' : BftEngine} {entry : Block × PrecommitCertificate} {vs : ValidatorSet}
  {cert : PrecommitCertificate} {block : Block} {proof : LeaderProof}
  {recent : List (Block × PrecommitCertificate)} {height : UInt64} {hash : H256} {x : Call}

def Proves (c : Crypto) (vs : ValidatorSet) (entry : Block × PrecommitCertificate) : Prop :=
  entry.2.blockHash = entry.1.hash c ∧ PrecommitCertificate.verify c entry.2 vs = .ok ()

lemma mem_insertRecent {new : Block × PrecommitCertificate}
    (h : entry ∈ insertRecent new recent) : entry = new ∨ entry ∈ recent := by
  induction recent with
  | nil => exact .inl (mem_singleton.mp h)
  | cons _ _ ih =>
    unfold insertRecent at h
    split_ifs at h
    · exact mem_cons.mp h
    · rcases mem_cons.mp h with h | h
      · exact .inl h
      · exact .inr (mem_cons_of_mem _ h)
    · rcases mem_cons.mp h with h | h
      · exact .inr (h ▸ mem_cons_self)
      · exact (ih h).imp_right (mem_cons_of_mem _)

lemma mem_cacheRecentBlock (h : entry ∈ cacheRecentBlock recent block cert) :
    entry = (block, cert) ∨ entry ∈ recent :=
  mem_insertRecent (mem_of_mem_drop h)

def cacheAll (recent entries : List (Block × PrecommitCertificate)) :
    List (Block × PrecommitCertificate) :=
  entries.foldl (fun recent new => cacheRecentBlock recent new.1 new.2) recent

lemma mem_cacheAll {entries : List (Block × PrecommitCertificate)}
    (h : entry ∈ cacheAll recent entries) : entry ∈ entries ∨ entry ∈ recent := by
  induction entries generalizing recent with
  | nil => exact .inr h
  | cons new _ ih =>
    rcases ih h with h | h
    · exact .inl (mem_cons_of_mem new h)
    · rcases mem_cacheRecentBlock h with rfl | h
      · exact .inl mem_cons_self
      · exact .inr h

/-! ## The invariant -/

/-- The engine is live and its coordinator can prove its commit. -/
structure Sealed (c : Crypto) (e : BftEngine) : Prop where
  live : e.Live c
  certifiable : ∀ co, e.coordinator = some co → co.Certifiable c

lemma Sealed.idle (h : e.coordinator = none) : e.Sealed c := ⟨.idle h, by simp [h]⟩

lemma Sealed.of_same (h : e.Sealed c) (hs : e'.validatorSet = e.validatorSet)
    (hco : e'.coordinator = e.coordinator) (hpp : e'.proposal = e.proposal) : e'.Sealed c := by
  obtain ⟨⟨hc, hm, hp⟩, hcr⟩ := h
  rw [← hco] at hc hm hp hcr
  rw [← hs] at hc
  rw [← hpp] at hm hp
  exact ⟨⟨hc, hm, hp⟩, hcr⟩

lemma Sealed.change (ha : AggregateComplete c) (h : e.Sealed c) (hcg : Change c e e') :
    e'.Sealed c := by
  refine ⟨h.live.change hcg, ?_⟩
  intro co₁ hco
  cases hcg with
  | aside => exact h.certifiable co₁ hco
  | start n =>
    cases hco
    exact .of_awaiting (fireTimeouts_awaiting n rfl)
  | accept _ _ _ _ _ hok =>
    cases hco
    exact .submitProposal hok
  | vote _ _ co _ hac hok =>
    cases hco
    exact (h.certifiable co hac).submitVote ha hok
  | timeout co hac =>
    cases hco
    exact (h.certifiable co hac).fireTimeout
  | harvest => cases hco
  | adopt _ _ _ hok =>
    obtain rfl := adoptSyncedBlock_eq hok
    cases hco
  | rotate _ _ hil => exact absurd (hil.symm.trans hco) (some_ne_none co₁).symm

lemma Sealed.changes (ha : AggregateComplete c) (h : e.Sealed c)
    (hc : Changes c e e') : e'.Sealed c := by
  induction hc with
  | refl => exact h
  | tail _ hcg ih => exact ih.change ha hcg

lemma Sealed.proves (h : e.Sealed c) {co : RoundCoordinator} (hac : e.coordinator = some co)
    (hph : co.phase = .committed) (hfn : co.finalCert = some cert)
    (hpp : e.proposal = some (block, proof)) : Proves c e.validatorSet (block, cert) := by
  obtain ⟨_, hfn₁, hvy, hbl, -⟩ := (h.certifiable co hac).committed hph
  cases hfn.symm.trans hfn₁
  have hm := h.live.matched co block proof hac hpp (by simp [hph])
  exact ⟨some.inj (hbl.symm.trans hm), (h.live.coordinator co hac).1 ▸ hvy⟩

lemma proves_of_adopted (h : e.adoptSyncedBlock c block cert = .ok e') :
    Proves c e.validatorSet (block, cert) := by
  obtain ⟨-, -, -, hbl, hvy, -⟩ := adoptSyncedBlock_ok h
  exact ⟨hbl, hvy⟩

lemma voteAlone_ok (h : e.voteAlone c height hash proof = .ok cert) : ∃ co₁ co₂ co₃ v w,
      (RoundCoordinator.new height e.seed e.validatorSet).submitProposal c hash proof = .ok co₁ ∧
      co₁.submitPrevote c v = .ok co₂ ∧ co₂.submitPrecommit c w = .ok co₃ ∧
      co₃.finalCert = some cert := by
  unfold voteAlone at h
  cases h₁ : (RoundCoordinator.new height e.seed e.validatorSet).submitProposal c hash proof with
  | error => simp [h₁, bind, Except.bind] at h
  | ok co₁ =>
    simp [h₁, bind, Except.bind] at h
    split at h
    · cases h
    next co₂ h₂ =>
      split at h
      · cases h
      next co₃ h₃ =>
        split at h
        next cert' hfn =>
          cases h
          exact ⟨co₁, co₂, co₃, _, _, rfl, h₂, h₃, hfn⟩
        next => cases h

lemma finalCert_of_voteAlone {co₀ co₁ co₂ co₃ : RoundCoordinator} {v w : Vote}
    (h₁ : co₀.submitProposal c hash proof = .ok co₁) (h₂ : co₁.submitPrevote c v = .ok co₂)
    (h₃ : co₂.submitPrecommit c w = .ok co₃) (hnn : co₀.finalCert = none)
    (hfn : co₃.finalCert = some cert) : co₃.phase = .committed := by
  obtain rfl := submitProposal_eq h₁
  obtain ⟨-, t, t', st, -, -, hcs⟩ := submitPrevote_ok h₂
  have hnn₂ : co₂.finalCert = none := by
    rcases hcs with ⟨-, rfl⟩ | ⟨_, _, -, -, -, rfl⟩ <;> exact hnn
  obtain ⟨-, u, u', _, -, -, hcs'⟩ := submitPrecommit_ok h₃
  rcases hcs' with ⟨-, rfl⟩ | ⟨_, -, -, rfl⟩
  · exact absurd (hnn₂.symm.trans hfn) (some_ne_none cert).symm
  · rfl

lemma proves_of_voteAlone (ha : AggregateComplete c)
    (h : e.voteAlone c height (block.hash c) proof = .ok cert) :
    Proves c e.validatorSet (block, cert) := by
  obtain ⟨_, _, co₃, v, w, h₁, h₂, h₃, hfn⟩ := voteAlone_ok h
  have hph := finalCert_of_voteAlone h₁ h₂ h₃ rfl hfn
  have hcr := ((RoundCoordinator.Certifiable.submitProposal h₁).submitVote (p := .prevote) ha
      h₂).submitVote (p := .precommit) ha h₃
  obtain ⟨-, -, hvs₂, -, hbl₂⟩ := submitVote_frame (p := .prevote) h₂
  obtain ⟨-, -, hvs₃, -, hbl₃⟩ := submitVote_frame (p := .precommit) h₃
  obtain rfl := submitProposal_eq h₁
  obtain ⟨_, hfn', hvy, hbl, -⟩ := hcr.committed hph
  cases hfn.symm.trans hfn'
  refine ⟨some.inj (hbl.symm.trans (hbl₃.trans hbl₂)), ?_⟩
  rw [hvs₃, hvs₂] at hvy
  exact hvy

lemma advanceSingle_frame (ha : AggregateComplete c) (ex : Option Executor) (e : BftEngine) :
    (e.advanceSingle c ex).1.validatorSet = e.validatorSet ∧
      (e.advanceSingle c ex).1.coordinator = e.coordinator ∧
      (e.advanceSingle c ex).1.proposal = e.proposal ∧
      ∀ entry ∈ (e.advanceSingle c ex).1.recentBlocks,
        entry ∈ e.recentBlocks ∨ Proves c e.validatorSet entry := by
  unfold advanceSingle
  split_ifs
  · exact ⟨rfl, rfl, rfl, fun _ h => .inl h⟩
  · exact ⟨rfl, rfl, rfl, fun _ h => .inl h⟩
  · dsimp only
    split
    next => exact ⟨rfl, rfl, rfl, fun _ h => .inl h⟩
    next cert hvt =>
      refine ⟨rfl, rfl, rfl, fun entry h => ?_⟩
      rcases mem_cacheRecentBlock h with rfl | ho
      · exact .inr (proves_of_voteAlone ha hvt)
      · exact .inl ho

def cachedBy (c : Crypto) (e : BftEngine) : Call → List (Block × PrecommitCertificate)
  | .tryHarvestCommitted =>
    match e.harvested c, e.coordinator.bind (·.finalCert) with
    | some block, some cert => [(block, cert)]
    | _, _ => []
  | .adoptSyncedBlock block cert =>
    match e.adoptSyncedBlock c block cert with
    | .ok _ => [(block, cert)]
    | .error _ => []
  | _ => []

lemma Outcome.recentBlocks {e' : BftEngine} (h : Outcome c e x e') (hh : x ≠ .tryHarvestCommitted)
    (had : ∀ block cert, x ≠ .adoptSyncedBlock block cert) :
    e'.recentBlocks = e.recentBlocks := by
  cases h with
  | harvested => exact absurd rfl hh
  | adopted block cert => exact absurd rfl (had block cert)
  | _ => simp [recordRemote, drainEvidence]

lemma after_recentBlocks (x : Call) :
    (e.after c x).recentBlocks = cacheAll e.recentBlocks (e.cachedBy c x) := by
  cases x with
  | tryHarvestCommitted =>
    change (((e.tryHarvestCommitted c).map Prod.fst).getD e).recentBlocks = _
    simp [cachedBy, harvested]
    cases ht : e.tryHarvestCommitted c with
    | none => rfl
    | some =>
      obtain ⟨co, _, _, hac, -, -, hfn, heq⟩ := tryHarvestCommitted_some ht
      simp [getD_some, heq, hac, bind_some, hfn]
      rfl
  | adoptSyncedBlock block cert =>
    change (e.orKeep (e.adoptSyncedBlock c block cert)).recentBlocks = _
    simp [cachedBy]
    cases had : e.adoptSyncedBlock c block cert with
    | error => rfl
    | ok =>
      obtain rfl := adoptSyncedBlock_eq had
      rfl
  | _ => exact (after_outcome c e _).recentBlocks (by simp) (by simp)

lemma proves_of_cachedBy (h : e.Sealed c) (hm : entry ∈ e.cachedBy c x) :
    Proves c e.validatorSet entry := by
  cases x with
  | tryHarvestCommitted =>
    simp [cachedBy] at hm
    split at hm
    next block cert hh hcr =>
      obtain ⟨co, _, _, hac, hpp, hph, hfn⟩ := harvested_eq_some_iff.mp hh
      rw [hac, bind_some, hfn] at hcr
      cases hcr
      obtain rfl := mem_singleton.mp hm
      exact h.proves hac hph hfn hpp
    next => cases hm
  | adoptSyncedBlock =>
    simp [cachedBy] at hm
    split at hm
    next e' hok =>
      obtain rfl := mem_singleton.mp hm
      exact proves_of_adopted hok
    next => cases hm
  | _ => cases hm

end BftEngine

namespace BftGossip

open BftEngine

variable {g₀ g g' : BftGossip} {m : Micro}

/-- What one micro-step has added since `g₀` is proved by the set of
`g₀`. -/
structure Proved (c : Crypto) (g₀ g : BftGossip) : Prop where
  engine : g.engine.Sealed c
  set : g.engine.validatorSet = g₀.engine.validatorSet
  recent : ∀ entry ∈ g.engine.recentBlocks,
    entry ∈ g₀.engine.recentBlocks ∨ Proves c g₀.engine.validatorSet entry
  harvested : ∃ new, g.harvested = g₀.harvested ++ new ∧
    ∀ block ∈ new, ∃ cert, Proves c g₀.engine.validatorSet (block, cert)

lemma Proved.commit {block : Block} {cert : PrecommitCertificate} {e : BftEngine}
    (h : Proved c g₀ g) (hpv : Proves c g.engine.validatorSet (block, cert)) (he : e.Sealed c)
    (hs : e.validatorSet = g.engine.validatorSet)
    (hr : e.recentBlocks = cacheRecentBlock g.engine.recentBlocks block cert) (hg : g'.engine = e)
    (hh : g'.harvested = g.harvested ++ [block]) : Proved c g₀ g' := by
  rw [h.set] at hpv hs
  subst hg
  refine ⟨he, hs, fun entry hm => ?_, ?_⟩
  · rw [hr] at hm
    rcases mem_cacheRecentBlock hm with rfl | ho
    · exact .inr hpv
    · exact h.recent entry ho
  · obtain ⟨new, hn, ha⟩ := h.harvested
    refine ⟨new ++ [block], by rw [hh, hn, append_assoc], ?_⟩
    intro b hb
    rcases mem_append.mp hb with hb | hb
    · exact ha b hb
    · grind

lemma Proved.act (hag : AggregateComplete c) (h : Proved c g₀ g) (ha : Act c g₀ m g g') :
    Proved c g₀ g' := by
  have he := h.engine.changes hag (act_changes ha)
  have hs := ha.validatorSet
  cases ha with
  | harvest _ _ _ _ _ _ hac hph hfn hpp =>
    exact h.commit (h.engine.proves hac hph hfn hpp) he hs rfl rfl rfl
  | adopt _ _ _ _ _ _ _ _ hok =>
    have hpv := proves_of_adopted hok
    obtain rfl := adoptSyncedBlock_eq hok
    exact h.commit hpv he hs rfl rfl rfl
  | buffer _ p => cases p <;> exact ⟨he, hs.trans h.set, h.recent, h.harvested⟩
  | _ => exact ⟨he, hs.trans h.set, h.recent, h.harvested⟩

lemma microStep_proved (hag : AggregateComplete c) (h : g.engine.Sealed c) (m : Micro) :
    Proved c g (g.microStep c m) :=
  microStep_keeps (P := Proved c g) ⟨h, rfl, fun _ hm => .inl hm, [], by simp, by simp⟩
    fun _ _ ih hac => ih.act hag hac

/-! ## Runs -/

/-- Everything that can happen to an engine and its driver. -/
inductive Operation where
  | call (x : Call)
  | advanceSingle (ex : Option Executor)
  | init (genesis : Block)
  | setPendingTxs (txs : List Tx)
  | micro (m : Micro)

def operate (c : Crypto) (g : BftGossip) : Operation → BftGossip
  | .call x => { g with engine := g.engine.after c x }
  | .advanceSingle ex => { g with engine := (g.engine.advanceSingle c ex).1 }
  | .init genesis => { g with engine := g.engine.init c genesis }
  | .setPendingTxs txs => { g with engine := g.engine.setPendingTxs txs }
  | .micro m => g.microStep c m

def runOperations (c : Crypto) (g : BftGossip) (ops : List Operation) : BftGossip :=
  ops.foldl (operate c) g

lemma runOperations_concat (g : BftGossip) (ops : List Operation) (op : Operation) :
    g.runOperations c (ops ++ [op]) = (g.runOperations c ops).operate c op := by
  simp [runOperations]

lemma sealed_operate (ha : AggregateComplete c) (h : g.engine.Sealed c) (op : Operation) :
    (g.operate c op).engine.Sealed c := by
  cases op with
  | call x => exact h.changes ha (after_outcome c g.engine x).changes
  | advanceSingle ex =>
    obtain ⟨hs, hco, hpp, -⟩ := advanceSingle_frame ha ex g.engine
    exact h.of_same hs hco hpp
  | init | setPendingTxs => exact h.of_same rfl rfl rfl
  | micro m => exact (microStep_proved ha h m).engine

lemma mem_recentBlocks_operate (ha : AggregateComplete c) (h : g.engine.Sealed c) {op : Operation}
    {entry : Block × PrecommitCertificate} (hm : entry ∈ (g.operate c op).engine.recentBlocks) :
    entry ∈ g.engine.recentBlocks ∨ Proves c g.engine.validatorSet entry := by
  cases op with
  | call x =>
    change entry ∈ (g.engine.after c x).recentBlocks at hm
    rw [after_recentBlocks] at hm
    exact (mem_cacheAll hm).symm.imp_right (proves_of_cachedBy h)
  | advanceSingle ex => exact (advanceSingle_frame ha ex g.engine).2.2.2 entry hm
  | init | setPendingTxs => exact .inl hm
  | micro m => exact (microStep_proved ha h m).recent entry hm

lemma sealed_runOperations (ha : AggregateComplete c) (config : BftConfig) (head : Block)
    (seed : Arr 32) (ops : List Operation) :
    ((new (.fresh c config head seed)).runOperations c ops).engine.Sealed c := by
  induction ops using reverseRecOn with
  | nil => exact .idle rfl
  | append_singleton _ op ih =>
    rw [runOperations_concat]
    exact sealed_operate ha ih op

/-- Whatever is cached, harvested or committed comes with a certificate that
verifies. -/
theorem finality_certified (hagg : AggregateComplete c) (config : BftConfig) (head : Block)
    (seed : Arr 32) (ops : List Operation) {g : BftGossip}
    (hg : g = (BftGossip.new (.fresh c config head seed)).runOperations c ops) :
    (∀ entry ∈ g.engine.recentBlocks, ∃ pre op post, ops = pre ++ op :: post ∧
      ∃ before, before = (BftGossip.new (.fresh c config head seed)).runOperations c pre ∧
        entry ∉ before.engine.recentBlocks ∧ entry ∈ (before.operate c op).engine.recentBlocks ∧
        Proves c before.engine.validatorSet entry) ∧
    (∀ block, g.engine.harvested c = some block → ∃ co cert, g.engine.coordinator = some co ∧
      co.finalCert = some cert ∧ Proves c g.engine.validatorSet (block, cert)) ∧
    ∀ m, ∀ block ∈ g.committedBy c m, ∃ cert, Proves c g.engine.validatorSet (block, cert) := by
  have hs := hg ▸ sealed_runOperations hagg config head seed ops
  refine ⟨?_, fun block hbl => ?_, fun m block hbl => ?_⟩
  · subst hg
    induction ops using reverseRecOn with
    | nil =>
      intro _ hm
      cases hm
    | append_singleton ops op ih =>
      intro entry hm
      have hbf := sealed_runOperations hagg config head seed ops
      by_cases ho : entry ∈ ((new (.fresh c config head seed)).runOperations c
        ops).engine.recentBlocks
      · obtain ⟨pre, op', post, rfl, before, hp⟩ := ih hbf entry ho
        exact ⟨pre, op', post ++ [op], by simp, before, hp⟩
      · rw [runOperations_concat] at hm
        exact ⟨ops, op, [], rfl, _, rfl, ho, hm,
          (mem_recentBlocks_operate hagg hbf hm).resolve_left ho⟩
  · obtain ⟨co, _, cert, hac, hpp, hph, hfn⟩ := harvested_eq_some_iff.mp hbl
    exact ⟨co, cert, hac, hfn, hs.proves hac hph hfn hpp⟩
  · obtain ⟨_, hn, ha⟩ := (microStep_proved hagg hs m).harvested
    rw [committedBy, hn, drop_left] at hbl
    exact ha block hbl

def finalRun : List Operation :=
  [.call (.submitRemoteProposal leaderProposal.1 leaderProposal.2), .call .castPrevote,
    .call .castPrecommit, .call .tryHarvestCommitted]

def finalFollower : BftGossip :=
  (BftGossip.new (memberEngine 0)).runOperations .reference finalRun

theorem finality_certified_follower : finalFollower.engine.recentBlocks.length = 1 ∧
      ∀ entry ∈ finalFollower.engine.recentBlocks, ∃ pre op post, finalRun = pre ++ op :: post ∧
        ∃ before, before = (BftGossip.new (memberEngine 0)).runOperations .reference pre ∧
          entry ∉ before.engine.recentBlocks ∧
          entry ∈ (before.operate .reference op).engine.recentBlocks ∧
          Proves .reference before.engine.validatorSet entry :=
  ⟨by decide +kernel, (finality_certified Crypto.reference_aggregateComplete
    (referenceConfig followerSet 0 5) (referenceHead followerConfig 7)
    (referenceConfig followerSet 0 5).initialSeed finalRun rfl).1⟩

end BftGossip

end Aii.Bft
