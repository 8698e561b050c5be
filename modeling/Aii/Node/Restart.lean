/-
Aii.Node.Restart — a validator that is stopped and started again
(`aii-node/src/main.rs`, the start-up of `--bft` and the round snapshot
of the producer loop; `aii-node/src/bft_state.rs`).

What survives a restart is the store and a height and a round; the votes
are gone.
-/
import Aii.Bft.ChainLink
import Aii.Bft.OncePerSlot
import Aii.Node.Loop
import Aii.Node.Recover

namespace Aii.Node

open Common Common.Rlp Chain Bft List NodeLoop BftMessage BftGossip

/-! ## Start-up -/

structure BftStateSnapshot where
  height : UInt64
  round : UInt32
  deriving DecidableEq

/-- What a node is started with: its consensus configuration, the genesis
block and the genesis allocation. -/
structure BootConfig where
  config : BftConfig
  genesis : Block
  alloc : List (Address × Account)

section Model

variable (c : Crypto) (revm : Revm) (spec : ChainSpec) (oracle : Backend → Option Executor)
  (boot : BootConfig)

def applyGenesisAlloc (b : Backend) (alloc : List (Address × Account)) : Backend :=
  alloc.foldl (fun b entry => StateDb.setAccount c b entry.1 entry.2) b

/-- `rotate_bft_engine_to_latest_dpos`; on every failure the engine stays
as it is. -/
def rotateBftEngineToLatestDpos (e : BftEngine) (b : Backend) : BftEngine :=
  match Dpos.latestValidatorSet b with
  | none => e
  | some (_, entries) =>
    match bftMyIndexFromEntries entries (c.blsPublicKey e.config.myBlsSk) with
    | none => e
    | some myIndex =>
      match bftValidatorSetFromEntries c entries >>= fun vs =>
          e.rotateValidatorSet vs myIndex with
      | .error _ => e
      | .ok e' => e'

/-- Does the store have a head marker to recover from? -/
def openState (b : Backend) : Except RlpError NodeState :=
  if (b.get .metaCf META_KEY_HEAD).isSome then recover c b else .ok (.new b)

def bootEngine (head : Option Block) : BftEngine :=
  match head with
  | some block =>
    if 0 < block.header.number then .fromRecovered c boot.config block
    else .new c boot.config boot.genesis
  | none => .new c boot.config boot.genesis

def restoreRound (e : BftEngine) (headNumber : UInt64) (snapshot : Option BftStateSnapshot) :
    BftEngine :=
  match snapshot with
  | none => e
  | some snap =>
    if snap.height = headNumber + 1 ∧ 0 < snap.round then
      match e.fastForwardToRound snap.round with
      | .error _ => e
      | .ok e' => e'
    else e

/-- The loop of a node that starts on the store `b`. -/
def bootLoop (b : Backend) (snapshot : Option BftStateSnapshot) : Except RlpError NodeLoop :=
  match openState c b with
  | .error err => .error err
  | .ok node =>
    let head := headBlock node
    let node := { node with backend := applyGenesisAlloc c node.backend boot.alloc }
    let e := rotateBftEngineToLatestDpos c (bootEngine c boot head) node.backend
    .ok (.start (restoreRound e (head.elim 0 (·.header.number)) snapshot) node)

/-! ## Lives of a validator -/

structure ValidatorNode where
  loop : NodeLoop
  snapshot : Option BftStateSnapshot
  /-- `last_persisted_height` and `last_persisted_round`. -/
  lastPersisted : UInt64 × UInt64
  /-- History: what was broadcast in earlier lives. -/
  sent : List BftMessage

def ValidatorNode.start (b : Backend) (snapshot : Option BftStateSnapshot)
    (sent : List BftMessage) : Except RlpError ValidatorNode :=
  (bootLoop c boot b snapshot).map fun loop =>
    ⟨loop, snapshot, (0, UInt64.ofNat (2 ^ 64 - 1)), sent⟩

def snapshotAfterCommits (snapshot : Option BftStateSnapshot) (blocks : List Block) :
    Option BftStateSnapshot :=
  blocks.foldl (fun _ block => some ⟨block.header.number + 1, 0⟩) snapshot

def ValidatorNode.persistRound (s : ValidatorNode) : ValidatorNode :=
  match s.loop.driver.engine.currentRoundState with
  | none => s
  | some (height, round, _) =>
    if s.lastPersisted = (height, round.toUInt64) then s
    else { s with snapshot := some ⟨height, round⟩, lastPersisted := (height, round.toUInt64) }

def ValidatorNode.iterate (s : ValidatorNode) (i : LoopInput) : ValidatorNode :=
  let blocks := (NodeLoop.drain c (NodeLoop.punish c spec oracle s.loop i)).2
  { s with
    loop := NodeLoop.iterate c revm spec oracle s.loop i
    snapshot := snapshotAfterCommits s.snapshot blocks }.persistRound

/-- Stop, and start again from the store and the snapshot. -/
def ValidatorNode.restart (s : ValidatorNode) : Except RlpError ValidatorNode :=
  ValidatorNode.start c boot s.loop.node.backend s.snapshot (s.sent ++ s.loop.driver.outbox)

/-- What happens to a validator. -/
inductive LifeEvent where
  | iterate (i : LoopInput)
  | restart

def ValidatorNode.step (s : ValidatorNode) : LifeEvent → Except RlpError ValidatorNode
  | .iterate i => .ok (s.iterate c revm spec oracle i)
  | .restart => s.restart c boot

def ValidatorNode.run (s : ValidatorNode) : List LifeEvent → Except RlpError ValidatorNode
  | [] => .ok s
  | ev :: evs =>
    match s.step c revm spec oracle boot ev with
    | .error err => .error err
    | .ok s' => s'.run evs

def ValidatorNode.broadcasts (s : ValidatorNode) : List BftMessage :=
  s.sent ++ s.loop.driver.outbox

/-- No two votes of one phase, height and round are for different blocks. -/
def ValidatorNode.NoDoubleVote (s : ValidatorNode) : Prop :=
  ∀ msg ∈ s.broadcasts, ∀ msg' ∈ s.broadcasts, ∀ p v v', msg.vote? = some (p, v) →
    msg'.vote? = some (p, v') → v.height = v'.height → v.round = v'.round →
      v.blockHash = v'.blockHash

/-! ## The condition -/

def ValidatorNode.ResumesAbove (s : ValidatorNode) : Prop :=
  ∀ msg ∈ s.sent, ∀ pv ∈ msg.vote?, pv.2.height ≤ s.loop.driver.engine.headNumber ∨
    ∃ co ∈ s.loop.driver.engine.coordinator, pv.2.height = co.height ∧ pv.2.round < co.round
deriving Decidable

/-- The condition on the micro-steps: the one under which heads rise. -/
def risingOk : NodeLoop.StepOk where
  micro s m := BftGossip.LinkOk c s.driver m
  evidence _ _ := True
  commit _ _ := True

instance (s : NodeLoop) (m : BftGossip.Micro) : Decidable ((risingOk c).micro s m) :=
  inferInstanceAs (Decidable (BftGossip.LinkOk _ _ _))

instance (s : NodeLoop) (ev : EquivocationEvidence) : Decidable ((risingOk c).evidence s ev) :=
  inferInstanceAs (Decidable True)

instance (s : NodeLoop) (block : Block) : Decidable ((risingOk c).commit s block) :=
  inferInstanceAs (Decidable True)

/-- What an event has to meet: the steps of an iteration meet `risingOk`,
and a restart comes back above the votes. -/
def ValidatorNode.EventOk (s : ValidatorNode) : LifeEvent → Prop
  | .iterate i => NodeLoop.IterateOk c revm spec oracle (risingOk c) s.loop i
  | .restart => ∀ s' ∈ (s.restart c boot).toOption, s'.ResumesAbove

instance (s : ValidatorNode) (ev : LifeEvent) :
    Decidable (s.EventOk c revm spec oracle boot ev) := by
  cases ev <;> unfold ValidatorNode.EventOk <;> infer_instance

def ValidatorNode.RunOk (s : ValidatorNode) : List LifeEvent → Prop
  | [] => True
  | ev :: evs => s.EventOk c revm spec oracle boot ev ∧
      ∀ s' ∈ (s.step c revm spec oracle boot ev).toOption, s'.RunOk evs

instance ValidatorNode.RunOk.decidable : (s : ValidatorNode) → (evs : List LifeEvent) →
    Decidable (s.RunOk c revm spec oracle boot evs)
  | _, [] => inferInstanceAs (Decidable True)
  | s, ev :: evs =>
    have := fun s' => ValidatorNode.RunOk.decidable s' evs
    inferInstanceAs (Decidable (s.EventOk c revm spec oracle boot ev ∧ ∀ s' ∈ _, _))

end Model

section Life

variable {c : Crypto} {revm : Revm} {spec : ChainSpec} {oracle : Backend → Option Executor}
  {past : List BftMessage} {g : BftGossip} {h₀ : H256} {n₀ : Nat} {handed : List Block}
  {g' : BftGossip}

def Settled (e : BftEngine) (height : UInt64) : Prop := height ≤ e.headNumber

variable (c past) in
/-- The invariant of a life: the committed blocks form a chain up to the
head, and every message sent is behind the driver. -/
structure LifeInv (s : NodeLoop) (_ : List EquivocationEvidence) (blocks : List Block) : Prop where
  link : ∃ h₀ n₀, BftGossip.LinkInv c h₀ n₀ (s.committed ++ blocks) s.driver
  slots : BftGossip.SlotInv (Settled s.driver.engine) past s.driver

lemma next_not_settled (hln : BftGossip.LinkInv c h₀ n₀ handed g)
    (hrm : BftGossip.HeadRoom g.engine) {co : RoundCoordinator}
    (hco : g.engine.coordinator = some co) : ¬ Settled g.engine co.height := by
  rw [Settled, hln.height co hco, UInt64.le_iff_toNat_le, hrm.toNat_add]
  omega

lemma slotInv_commit (hln : BftGossip.LinkInv c h₀ n₀ handed g)
    (hrm : BftGossip.HeadRoom g.engine) (hss : BftGossip.SlotInv (Settled g.engine) past g)
    (hkp : ∀ msg, BftGossip.RoundFlags.Kept g'.flags msg → BftGossip.RoundFlags.Kept g.flags msg)
    (ho : g'.outbox = g.outbox) (hn : g'.engine.headNumber = g.engine.headNumber + 1) :
    BftGossip.SlotInv (Settled g'.engine) past g' := by
  refine hss.commit hkp ho ?_ ?_
  · intro _ hhg
    rw [Settled, UInt64.le_iff_toNat_le] at hhg ⊢
    rw [hn, hrm.toNat_add]
    omega
  · intro co hco
    rw [Settled, hn, hln.height co hco]
    exact UInt64.le_refl _

lemma settled_congr {e e' : BftEngine} (hn : e'.headNumber = e.headNumber) :
    Settled e' = Settled e := by
  funext height
  rw [Settled, Settled, hn]

lemma LifeInv.act {s : NodeLoop} {m : BftGossip.Micro} (hok : BftGossip.LinkOk c s.driver m)
    (h₀ : LifeInv c past s [] []) (h : LifeInv c past { s with driver := g } [] [])
    (ha : BftGossip.Act c s.driver m g g') : LifeInv c past { s with driver := g' } [] [] := by
  obtain ⟨⟨hash, n, hln⟩, hss⟩ := h
  refine ⟨⟨hash, n, hln.act hok ha⟩, ?_⟩
  rcases ha.commits with hsm | ⟨block, hci⟩
  · rw [settled_congr hsm.headNumber]
    refine BftGossip.SlotInv.act ?_ hss ha ?_ hsm.harvested
    · intro hsm₀
      rw [settled_congr hsm₀.headNumber]
      exact h₀.slots
    · intro hsm₀ co hco
      exact next_not_settled hln (hsm₀.headRoom hok.1) hco
  · have hn : block.header.number = g.engine.headNumber + 1 := by
      rcases hci.source with ⟨proof, hpp⟩ | hnx
      · exact (hln.proposal block proof hpp).2
      · exact hnx
    exact slotInv_commit hln (hci.same.headRoom hok.1) hss hci.kept
      hci.outbox (hci.headNumber.trans hn)

lemma lifeInv_kept : NodeLoop.Kept c revm spec oracle (risingOk c) (LifeInv c past) where
  act s m g g' hok _ h₀ h ha := h₀.act hok h ha
  clock s key h := ⟨h.link, h.slots⟩
  take s h := by
    obtain ⟨⟨hash, n, hln⟩, hss⟩ := h
    exact ⟨⟨hash, n, { hln with }⟩, hss.frame rfl rfl rfl⟩
  evidence s ev evs _ h := by
    unfold handleEvidence
    dsimp only
    split <;> exact ⟨h.link, h.slots⟩
  drain s h := by
    obtain ⟨⟨hash, n, hln⟩, hss⟩ := h
    refine ⟨⟨hash, n, ?_, ?_, hln.height, hln.proposal⟩, hss.frame rfl rfl rfl⟩
    · simpa [drainHarvested] using hln.chain
    · simpa [drainHarvested] using hln.head
  commit s block blocks _ h := by
    obtain ⟨⟨hash, n, hln⟩, hss⟩ := h
    obtain ⟨_, e, heq, he⟩ := commitOne_cases c revm spec s block
    have hcm : s.committed ++ block :: blocks = s.committed ++ [block] ++ blocks := by simp
    rw [hcm] at hln
    rw [heq]
    rcases he with rfl | ⟨vs, i, rfl⟩
    · exact ⟨⟨hash, n, hln⟩, hss⟩
    · exact ⟨⟨hash, n, { hln with }⟩, hss.frame rfl rfl rfl⟩

end Life

/-! ## Restarts -/

section Restarts

variable {c : Crypto} {revm : Revm} {spec : ChainSpec} {oracle : Backend → Option Executor}
  {boot : BootConfig} {s : ValidatorNode} {snapshot : Option BftStateSnapshot}
  {sent : List BftMessage} {e : BftEngine} {b : Backend} {msg : BftMessage}

structure Resumed (e : BftEngine) : Prop where
  height : ∀ co, e.coordinator = some co → co.height = e.headNumber + 1
  proposal : e.proposal = none

lemma resumed_bootEngine (head : Option Block) : Resumed (bootEngine c boot head) := by
  have hfh : ∀ (block : Block) (seed : Arr 32),
      Resumed (BftEngine.fresh c boot.config block seed) := by
    intro _ _
    refine ⟨?_, rfl⟩
    intro co hco
    cases hco
  unfold bootEngine
  split
  · split_ifs
    · exact hfh _ _
    · exact hfh _ _
  · exact hfh _ _

lemma Resumed.rotate (h : Resumed e) (b : Backend) :
    Resumed (rotateBftEngineToLatestDpos c e b) := by
  unfold rotateBftEngineToLatestDpos
  split
  · exact h
  next entries _ =>
    split
    · exact h
    · split
      · exact h
      next e' hrd =>
        cases hvs : bftValidatorSetFromEntries c entries with
        | error =>
          rw [hvs] at hrd
          cases hrd
        | ok =>
          rw [hvs] at hrd
          obtain ⟨-, -, rfl⟩ := BftEngine.rotateValidatorSet_ok hrd
          exact ⟨h.height, h.proposal⟩

lemma Resumed.restoreRound (h : Resumed e) (headNumber : UInt64)
    (snapshot : Option BftStateSnapshot) : Resumed (restoreRound e headNumber snapshot) := by
  unfold Node.restoreRound
  split
  · exact h
  · split_ifs
    · split
      · exact h
      next e' hjm =>
        unfold BftEngine.fastForwardToRound at hjm
        dsimp only at hjm
        split_ifs at hjm
        cases hjm
        refine ⟨?_, h.proposal⟩
        intro co hco
        cases hco
        exact (RoundCoordinator.fireTimeouts_frame _ _).1
    · exact h

lemma start_ok (h : ValidatorNode.start c boot b snapshot sent = .ok s) :
    s.sent = sent ∧ ∃ e node, Resumed e ∧ s.loop = .start e node := by
  unfold ValidatorNode.start bootLoop at h
  cases hoe : openState c b with
  | error =>
    rw [hoe] at h
    cases h
  | ok =>
    rw [hoe] at h
    cases h
    exact ⟨rfl, _, _, ((resumed_bootEngine _).rotate _).restoreRound _ _, rfl⟩

def votesOf (msgs : List BftMessage) : List BftMessage := msgs.filter fun msg => msg.vote?.isSome

lemma slot?_eq_of_vote? {msg' : BftMessage} {p : VotePhase} {v v' : Vote}
    (h : msg.vote? = some (p, v)) (h' : msg'.vote? = some (p, v')) (hhg : v.height = v'.height)
    (hrn : v.round = v'.round) : ∃ slot, msg.slot? = some slot ∧ msg'.slot? = some slot := by
  cases p <;> cases msg <;> cases msg' <;> simp_all [vote?, slot?]

lemma vote?_of_slot? {k : SlotKind} {height : UInt64} {r : UInt32} (hvt : msg.vote?.isSome = true)
    (hsl : msg.slot? = some (k, height, r)) :
    ∃ p v, msg.vote? = some (p, v) ∧ v.height = height ∧ v.round = r := by
  cases msg <;> simp_all [vote?, slot?]

def NodeInv (c : Crypto) (s : ValidatorNode) : Prop :=
  LifeInv c (votesOf s.sent) s.loop [] []

lemma NodeInv.start (h : ValidatorNode.start c boot b snapshot sent = .ok s) (ha : s.ResumesAbove)
    (hu : ∀ msg ∈ votesOf sent, ∀ msg' ∈ votesOf sent, ∀ slot, msg.slot? = some slot →
      msg'.slot? = some slot → msg = msg') : NodeInv c s := by
  obtain ⟨rfl, e, node, hr, hlp⟩ := start_ok h
  unfold ValidatorNode.ResumesAbove at ha
  rw [NodeInv]
  rw [hlp] at ha ⊢
  refine ⟨⟨e.headHash, e.headNumber.toNat, .nil _ _, rfl, hr.height, ?_⟩, ?_, ?_, ?_⟩
  · intro _ _ hpp
    rw [show (start e node).driver.engine.proposal = none from hr.proposal] at hpp
    cases hpp
  · rintro msg (hlast | hlast | hlast) <;> cases hlast
  · intro msg hm k _ r hsl
    have hm : msg ∈ votesOf s.sent := by simpa [start, new] using hm
    obtain ⟨hs, hvt⟩ := mem_filter.mp hm
    obtain ⟨p, v, hv, rfl, rfl⟩ := vote?_of_slot? hvt hsl
    rcases ha msg hs (p, v) hv with ho | ⟨co, hco, hhg, hlt⟩
    · exact .inl ho
    · refine .inr ⟨co, hco, hhg.symm, UInt32.le_of_lt hlt, ?_⟩
      intro heq
      exact absurd (heq ▸ hlt) (UInt32.lt_irrefl _)
  · simpa [start, new] using hu

lemma NodeInv.noDoubleVote (h : NodeInv c s) : s.NoDoubleVote := by
  intro msg hmsg msg' hmsg' p v v' hv hv' hhg hrn
  have hin : ∀ m ∈ s.broadcasts, m.vote?.isSome → m ∈ votesOf s.sent ++ s.loop.driver.outbox := by
    intro m hm hvt
    rcases mem_append.mp hm with hm | hm
    · exact mem_append_left _ (mem_filter.mpr ⟨hm, hvt⟩)
    · exact mem_append_right _ hm
  obtain ⟨slot, hsl, hsl'⟩ := slot?_eq_of_vote? hv hv' hhg hrn
  obtain rfl := h.slots.unique msg (hin msg hmsg (by simp [hv])) msg'
    (hin msg' hmsg' (by simp [hv'])) slot hsl hsl'
  rw [hv] at hv'
  cases hv'
  rfl

lemma NodeInv.step {s' : ValidatorNode} {ev : LifeEvent} (h : NodeInv c s)
    (hok : s.EventOk c revm spec oracle boot ev)
    (hsp : s.step c revm spec oracle boot ev = .ok s') : NodeInv c s' := by
  cases ev with
  | iterate i =>
    cases hsp
    have hlp := lifeInv_kept.iterate hok h
    unfold ValidatorNode.iterate ValidatorNode.persistRound
    dsimp only
    split
    · exact hlp
    · split_ifs <;> exact hlp
  | restart =>
    have hm : s' ∈ (s.restart c boot).toOption := by
      rw [show s.restart c boot = .ok s' from hsp]
      rfl
    refine NodeInv.start hsp (hok s' hm) ?_
    have hvo : votesOf (s.sent ++ s.loop.driver.outbox) ⊆
        votesOf s.sent ++ s.loop.driver.outbox := by
      intro _ hmsg
      rw [votesOf, filter_append] at hmsg
      rcases mem_append.mp hmsg with hmsg | hmsg
      · exact mem_append_left _ hmsg
      · exact mem_append_right _ (mem_of_mem_filter hmsg)
    intro msg hmsg msg' hmsg' slot hsl hsl'
    exact h.slots.unique msg (hvo hmsg) msg' (hvo hmsg') slot hsl hsl'

/-- A validator that comes back above its votes never votes twice in a slot.
-/
theorem no_double_vote_over_lives {b : Backend} {snapshot : Option BftStateSnapshot}
    {s s' : ValidatorNode} {evs : List LifeEvent}
    (hstart : ValidatorNode.start c boot b snapshot [] = .ok s)
    (hok : s.RunOk c revm spec oracle boot evs)
    (hrun : s.run c revm spec oracle boot evs = .ok s') : s'.NoDoubleVote := by
  have hi : NodeInv c s := by
    refine NodeInv.start hstart ?_ nofun
    intro _ hm
    rw [(start_ok hstart).1] at hm
    cases hm
  clear hstart
  induction evs generalizing s with
  | nil =>
    cases hrun
    exact hi.noDoubleVote
  | cons ev _ ih =>
    obtain ⟨hev, hrs⟩ := hok
    unfold ValidatorNode.run at hrun
    cases hsp : s.step c revm spec oracle boot ev with
    | error =>
      rw [hsp] at hrun
      cases hrun
    | ok s₁ =>
      rw [hsp] at hrun hrs
      exact ih (hrs s₁ rfl) hrun (hi.step hev hsp)

end Restarts

/-! ## A leader that is restarted

The leader of the reference set at height 1, alone on the network. In
round 1 it proposes a block with a transaction that was staged before,
and PRE-VOTES it. The mempool does not survive the restart. -/

def leaderBoot : BootConfig :=
  ⟨referenceConfig followerSet 1 5, referenceHead (referenceConfig followerSet 1 5) 0, []⟩

def quietIteration (txs : List Tx) (deadlinePassed : Bool) : LifeEvent :=
  .iterate ⟨[], txs, deadlinePassed, []⟩

def leaderRun (evs : List LifeEvent) : Except RlpError ValidatorNode :=
  match ValidatorNode.start .reference leaderBoot .empty none [] with
  | .error err => .error err
  | .ok s => s.run .reference Revm.reference sampleSpec (fun _ => none) leaderBoot evs

def roundZero : List LifeEvent :=
  [quietIteration [sampleTx 0 0 (arrOfNat 20 7) 5 []] false, quietIteration [] true]

def secondLife : List LifeEvent := [.restart, quietIteration [] false, quietIteration [] false]

def prevotedIn (r : UInt32) (s : ValidatorNode) : List H256 :=
  (s.broadcasts.filterMap BftMessage.vote?).filterMap fun pv =>
    if pv.1 = .prevote ∧ pv.2.height = 1 ∧ pv.2.round = r then some pv.2.blockHash else none

theorem no_double_vote_over_lives_leader :
    ((leaderRun (roundZero ++ secondLife)).toOption.map fun s =>
        ((prevotedIn 0 s).dedup.length, (prevotedIn 1 s).dedup.length)) = some (1, 1) ∧
      ∀ s' ∈ (leaderRun (roundZero ++ secondLife)).toOption, s'.NoDoubleVote := by
  refine ⟨by decide +kernel, ?_⟩
  have ha : ∀ s ∈ (ValidatorNode.start .reference leaderBoot .empty none []).toOption,
      s.RunOk .reference Revm.reference sampleSpec (fun _ => none) leaderBoot
        (roundZero ++ secondLife) := by
    decide +kernel
  intro s' hs'
  unfold leaderRun at hs'
  split at hs'
  · cases hs'
  next s hsr =>
    have hok := ha s (by rw [hsr]; rfl)
    cases hr : s.run .reference Revm.reference sampleSpec (fun _ => none) leaderBoot
        (roundZero ++ secondLife) with
    | error =>
      rw [hr] at hs'
      cases hs'
    | ok =>
      rw [hr] at hs'
      cases hs'
      exact no_double_vote_over_lives hsr hok hr

lemma ValidatorNode.NoDoubleVote.prevotedIn_eq {s : ValidatorNode} (h : s.NoDoubleVote)
    {r : UInt32} {a b : H256} (ha : a ∈ prevotedIn r s) (hb : b ∈ prevotedIn r s) : a = b := by
  have hvt : ∀ x ∈ prevotedIn r s, ∃ msg ∈ s.broadcasts, ∃ v, msg.vote? = some (.prevote, v) ∧
      v.height = 1 ∧ v.round = r ∧ v.blockHash = x := by
    intro x hx
    simp only [prevotedIn, mem_filterMap, Option.ite_none_right_eq_some, Option.some.injEq] at hx
    obtain ⟨⟨p, v⟩, ⟨msg, hmsg, hv⟩, ⟨rfl, hhg, hrn⟩, rfl⟩ := hx
    exact ⟨msg, hmsg, v, hv, hhg, hrn, rfl⟩
  obtain ⟨msg, hmsg, v, hv, hhg, hrn, rfl⟩ := hvt a ha
  obtain ⟨msg', hmsg', v', hv', hhg', hrn', rfl⟩ := hvt b hb
  exact h msg hmsg msg' hmsg' .prevote v v' hv hv' (hhg.trans hhg'.symm)
    (hrn.trans hrn'.symm)

/-- Stopped after it, the leader votes in round 1 again, for another
block. -/
theorem restarted_leader_votes_twice :
    ((leaderRun (roundZero ++ [quietIteration [] false] ++ secondLife)).toOption.map fun s =>
        (prevotedIn 1 s).dedup.length) = some 2 ∧
      ∀ s' ∈ (leaderRun (roundZero ++ [quietIteration [] false] ++ secondLife)).toOption,
        ¬ s'.NoDoubleVote := by
  refine ⟨by decide +kernel, ?_⟩
  have ht : ∀ s' ∈ (leaderRun (roundZero ++ [quietIteration [] false] ++ secondLife)).toOption,
      ∃ a ∈ prevotedIn 1 s', ∃ b ∈ prevotedIn 1 s', a ≠ b := by
    decide +kernel
  intro s' hs' hnn
  obtain ⟨a, ha, b, hb, hne⟩ := ht s' hs'
  exact hne (hnn.prevotedIn_eq ha hb)

end Aii.Node
