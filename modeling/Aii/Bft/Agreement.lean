/-
Aii.Bft.Agreement — do honest engines commit the same blocks?

The engine records the lock but nothing reads it, so agreement needs a
condition (`honest_nodes_disagree`).
-/
import Aii.Bft.Network

namespace Aii.Bft

open Common Chain BftGossip List RoundCoordinator UInt32 BftMessage

/-! ## The network -/

structure Network (vs : ValidatorSet) where
  nodes : Fin vs.size → BftGossip
  log : List (Cast vs)

namespace Network

variable {vs : ValidatorSet}

/-- Validator `op.1` takes the micro-step `op.2`. -/
def step (c : Crypto) (net : Network vs) (op : Fin vs.size × Micro) : Network vs :=
  let g := net.nodes op.1
  let g' := g.microStep c op.2
  { nodes := Function.update net.nodes op.1 g'
    log := logCasts op.1 net.log (g'.outbox.drop g.outbox.length) }

/-- A run; the network may interleave the micro-steps of the drivers. -/
def run (c : Crypto) (net : Network vs) (ops : List (Fin vs.size × Micro)) : Network vs :=
  ops.foldl (step c) net

/-- Honest drivers step, messages are genuine, and each micro-step meets
`ok` in the state it starts from. -/
def Admitted (c : Crypto) (honest : Finset (Fin vs.size)) (ok : BftGossip → Micro → Prop) :
    Network vs → List (Fin vs.size × Micro) → Prop
  | _, [] => True
  | net, op :: ops =>
    (op.1 ∈ honest ∧ Genuine c honest net.log op.2 ∧ ok (net.nodes op.1) op.2) ∧
      Admitted c honest ok (net.step c op) ops

def start (c : Crypto) (config : Fin vs.size → BftConfig) (head : Block) (seed : Arr 32) :
    Network vs :=
  ⟨fun i => .new (.fresh c (config i) head seed), []⟩

end Network

/-- The run condition: no stale proposal passes, the round is not jumped
while a lock is held, and a driver about to PRE-VOTE holds no lock on
another block. -/
structure VoteOk (c : Crypto) (g : BftGossip) (m : Micro) : Prop where
  link : LinkOk c g m
  jump : ∀ p, m.message c = some (.proposal p) →
    shouldFastForward g.engine p.height p.round = true →
    ∀ co, g.engine.coordinator = some co → co.locked = none
  prevote : ∀ ex, m = .drive ex → ∀ co, g.engine.coordinator = some co →
    co.phase = .prevoting → g.flags.prevoted ≠ some (co.height, co.round) →
    ∀ lk, co.locked = some lk → co.proposedBlock = some lk.blockHash

section Own

variable {vs : ValidatorSet} {log : List (Cast vs)} {i : Fin vs.size} {g g' : BftGossip}

/-- The casts of `i` are for heights up to the next one; those for the
next height are for rounds the coordinator has reached, a PRE-VOTE of the
current round is flagged, and PRE-COMMITS are covered by the lock. -/
structure OwnInv (log : List (Cast vs)) (i : Fin vs.size) (g : BftGossip) : Prop where
  height : ∀ x ∈ log, x.voter = i → x.height.toNat ≤ g.engine.headNumber.toNat + 1
  round : ∀ x ∈ log, x.voter = i → x.height.toNat = g.engine.headNumber.toNat + 1 →
    ∃ co, g.engine.coordinator = some co ∧ x.round ≤ co.round
  prevoted : ∀ x ∈ log, x.voter = i → x.height.toNat = g.engine.headNumber.toNat + 1 →
    x.phase = .prevote → ∀ co, g.engine.coordinator = some co → x.round = co.round →
      g.flags.prevoted = some (co.height, co.round)
  locked : ∀ x ∈ log, x.voter = i → x.height.toNat = g.engine.headNumber.toNat + 1 →
    x.phase = .precommit → ∀ co, g.engine.coordinator = some co →
      ∃ lk, co.locked = some lk ∧ x.round ≤ lk.round

namespace OwnInv

lemma congr (h : OwnInv log i g) (hhd : g'.engine.headNumber = g.engine.headNumber)
    (hco : g'.engine.coordinator = g.engine.coordinator)
    (hfg : g'.flags.prevoted = g.flags.prevoted) : OwnInv log i g' := by
  constructor
  · rw [hhd]; exact h.height
  · rw [hhd, hco]; exact h.round
  · rw [hhd, hco, hfg]; exact h.prevoted
  · rw [hhd, hco]; exact h.locked

variable {co' : RoundCoordinator}

lemma advance {co : RoundCoordinator} (h : OwnInv log i g)
    (hhd : g'.engine.headNumber = g.engine.headNumber) (hco : g.engine.coordinator = some co)
    (hco' : g'.engine.coordinator = some co') (hhg : co'.height = co.height)
    (hrn : co.round ≤ co'.round)
    (hl : ∀ lk, co.locked = some lk → ∃ lk', co'.locked = some lk' ∧ lk.round ≤ lk'.round)
    (hfg : g'.flags.prevoted = g.flags.prevoted) : OwnInv log i g' := by
  constructor
  · rw [hhd]; exact h.height
  · rw [hhd]
    intro x hx hvr hxh
    obtain ⟨co₀, hco₀, hle⟩ := h.round x hx hvr hxh
    cases hco.symm.trans hco₀
    exact ⟨co', hco', UInt32.le_trans hle hrn⟩
  · rw [hhd]
    intro x hx hvr hxh hph co₁ hco₁ hxr
    cases hco'.symm.trans hco₁
    obtain ⟨_, hco₀, hle⟩ := h.round x hx hvr hxh
    cases hco.symm.trans hco₀
    have hsm := UInt32.le_antisymm (hxr ▸ hle) hrn
    rw [hfg, hhg, hsm]
    exact h.prevoted x hx hvr hxh hph co hco (hxr.trans hsm)
  · rw [hhd]
    intro x hx hvr hxh hph _ hco₁
    cases hco'.symm.trans hco₁
    obtain ⟨lk, hlk, hle⟩ := h.locked x hx hvr hxh hph co hco
    obtain ⟨lk', hlk', hle'⟩ := hl lk hlk
    exact ⟨lk', hlk', UInt32.le_trans hle hle'⟩

lemma replace (h : OwnInv log i g) (hhd : g'.engine.headNumber = g.engine.headNumber)
    (hco' : g'.engine.coordinator = some co')
    (hb : ∀ x ∈ log, x.voter = i → x.height.toNat = g.engine.headNumber.toNat + 1 →
      x.round < co'.round ∧ x.phase ≠ .precommit) : OwnInv log i g' := by
  constructor
  · rw [hhd]; exact h.height
  · grind
  · grind
  · grind

lemma commit (h : OwnInv log i g)
    (hhd : g'.engine.headNumber.toNat = g.engine.headNumber.toNat + 1) : OwnInv log i g' := by
  have hnn : ∀ x ∈ log, x.voter = i → x.height.toNat ≠ g'.engine.headNumber.toNat + 1 := by
    intro x hx hvr _
    have hle := h.height x hx hvr
    omega
  refine ⟨?_, ?_, ?_, ?_⟩
  · intro x hx hvr
    have hle := h.height x hx hvr
    omega
  all_goals exact fun x hx hvr hxh => absurd hxh (hnn x hx hvr)

end OwnInv

end Own

/-! ## A driver and the log -/

section Node

variable {vs : ValidatorSet} {c : Crypto} {honest : Finset (Fin vs.size)} {h₀ : H256} {n₀ : Nat}
  {log log' : List (Cast vs)} {i : Fin vs.size} {g₀ g g' : BftGossip} {m : Micro}

/-- What the log says about the driver of validator `i`. -/
structure NodeInv (c : Crypto) (honest : Finset (Fin vs.size)) (h₀ : H256) (n₀ : Nat)
    (log : List (Cast vs)) (i : Fin vs.size) (g : BftGossip) : Prop where
  link : LinkInv c h₀ n₀ [] g
  index : g.engine.myIndex.toNat = i
  set : g.engine.validatorSet = vs
  coord : ∀ co, g.engine.coordinator = some co → CoordInv honest log co
  proposal : ∀ co block proof, g.engine.coordinator = some co → co.phase ≠ .awaitingProposal →
    g.engine.proposal = some (block, proof) → co.proposedBlock = some (block.hash c)
  own : OwnInv log i g
  kept : ∀ msg p v, RoundFlags.Kept g.flags msg → msg.vote? = some (p, v) → castOf i p v ∈ log
  pending : ∀ p, ∀ v ∈ g.engine.pending p, Authentic c honest log p v
  harvested : ∀ block ∈ g.harvested,
    ∃ r, Backed honest log .precommit block.header.number r (block.hash c)

namespace NodeInv

lemma start (config : BftConfig) (head : Block) (seed : Arr 32) (hs : config.validatorSet = vs)
    (hie : config.myIndex.toNat = i) : NodeInv c honest (head.hash c) head.header.number.toNat [] i
      (.new (.fresh c config head seed)) where
  link := LinkInv.start config head seed
  index := hie
  set := hs
  coord co hco := nomatch (show none = some co from hco)
  proposal co block proof hco := nomatch (show none = some co from hco)
  own := by
    constructor <;> exact fun x hx => absurd hx not_mem_nil
  kept := by
    rintro msg p v (hk | hk | hk) <;> exact nomatch (show none = some msg from hk)
  pending p v hv := by
    cases p <;> exact absurd (show v ∈ [] from hv) not_mem_nil
  harvested block hb := absurd (show block ∈ [] from hb) not_mem_nil

lemma mono (h : NodeInv c honest h₀ n₀ log i g) (hs : log ⊆ log')
    (hn : ∀ x ∈ log', x ∈ log ∨ x.voter ≠ i) : NodeInv c honest h₀ n₀ log' i g where
  __ := h
  coord co hco := (h.coord co hco).mono hs
  own := by
    have ho : ∀ x ∈ log', x.voter = i → x ∈ log := fun x hx hvr =>
      (hn x hx).resolve_right fun hne => hne hvr
    exact ⟨fun x hx hv => h.own.height x (ho x hx hv) hv,
      fun x hx hv => h.own.round x (ho x hx hv) hv,
      fun x hx hv => h.own.prevoted x (ho x hx hv) hv,
      fun x hx hv => h.own.locked x (ho x hx hv) hv⟩
  kept msg p v hk hv := hs (h.kept msg p v hk hv)
  pending p v hv := (h.pending p v hv).mono hs
  harvested block hb := by
    obtain ⟨r, hbk⟩ := h.harvested block hb
    exact ⟨r, hbk.mono hs⟩

variable {co co' : RoundCoordinator} {block : H256} {p : VotePhase} {outbox : List BftMessage}
  {v : Vote} {sk : BlsSecretKey} {flags : RoundFlags}

lemma freshCoordinator (h : NodeInv c honest h₀ n₀ log i g)
    (hln : LinkInv c h₀ n₀ [] { g with engine := { g.engine with coordinator := some co' } })
    (hc : CoordInv honest log co') (hph : co'.phase = .awaitingProposal)
    (hb : ∀ x ∈ log, x.voter = i → x.height.toNat = g.engine.headNumber.toNat + 1 →
      x.round < co'.round ∧ x.phase ≠ .precommit) :
    NodeInv c honest h₀ n₀ log i
      { g with engine := { g.engine with coordinator := some co' } } where
  __ := h
  link := hln
  coord co hco := Option.some.inj hco ▸ hc
  proposal co block proof hco hne := by
    cases hco
    exact absurd hph hne
  own := h.own.replace rfl rfl hb

lemma withProposal {block : Block} {proof : LeaderProof} (h : NodeInv c honest h₀ n₀ log i g)
    (hln : LinkInv c h₀ n₀ [] { g with engine := { g.engine with
      coordinator := some co', proposal := some (block, proof) } })
    (hac : g.engine.coordinator = some co)
    (hok : co.submitProposal c (block.hash c) proof = .ok co') :
    NodeInv c honest h₀ n₀ log i { g with engine := { g.engine with
      coordinator := some co', proposal := some (block, proof) } } where
  __ := h
  link := hln
  coord co₁ hco := Option.some.inj hco ▸ (h.coord co hac).submitProposal hok
  proposal co₁ b pf hco _ hpp := by
    cases hco
    cases hpp
    obtain rfl := submitProposal_eq hok
    rfl
  own := by
    obtain rfl := submitProposal_eq hok
    exact h.own.advance rfl hac rfl rfl (UInt32.le_refl _)
      (fun lk hlk => ⟨lk, hlk, UInt32.le_refl _⟩) rfl

lemma withVote (hT : vs.total < 2 ^ 63) (h : NodeInv c honest h₀ n₀ log i g)
    (hln : LinkInv c h₀ n₀ [] { g with engine := { g.engine with coordinator := some co' } })
    (hac : g.engine.coordinator = some co) (hv : Authentic c honest log p v)
    (hok : co.submitVote c p v = .ok co') :
    NodeInv c honest h₀ n₀ log i
      { g with engine := { g.engine with coordinator := some co' } } where
  __ := h
  link := hln
  coord co₁ hco := Option.some.inj hco ▸ (h.coord co hac).submitVote hT hv hok
  proposal co₁ block proof hco _ hpp := by
    cases hco
    rw [(submitVote_frame hok).2.2.2.2]
    exact h.proposal co block proof hac (submitVote_phase hok) hpp
  own := by
    obtain ⟨hhg, hrn, -⟩ := submitVote_frame hok
    exact h.own.advance rfl hac rfl hhg (hrn ▸ UInt32.le_refl _)
      (fun _ => submitVote_lock_grows (fun l hl => ((h.coord co hac).locked l hl).1) hok) rfl

lemma commit {block : Block} {r : UInt32} (h : NodeInv c honest h₀ n₀ log i g)
    (hln : LinkInv c h₀ n₀ [] g') (hrm : HeadRoom g.engine)
    (hnm : block.header.number = g.engine.headNumber + 1)
    (hbk : Backed honest log .precommit block.header.number r (block.hash c))
    (hhd : g'.engine.headNumber = block.header.number) (hie : g'.engine.myIndex = g.engine.myIndex)
    (hs : g'.engine.validatorSet = g.engine.validatorSet) (hco : g'.engine.coordinator = none)
    (hkp : ∀ msg, RoundFlags.Kept g'.flags msg → RoundFlags.Kept g.flags msg)
    (hpg : ∀ p, g'.engine.pending p ⊆ g.engine.pending p)
    (hhr : g'.harvested = g.harvested ++ [block]) : NodeInv c honest h₀ n₀ log i g' where
  link := hln
  index := hie ▸ h.index
  set := hs ▸ h.set
  coord co hso := by
    rw [hco] at hso
    cases hso
  proposal co b proof hso := by
    rw [hco] at hso
    cases hso
  own := h.own.commit (by rw [hhd, hnm, hrm.toNat_add])
  kept msg p v hk := h.kept msg p v (hkp msg hk)
  pending p v hv := h.pending p v (hpg p hv)
  harvested b hb := by
    rw [hhr] at hb
    rcases mem_append.mp hb with hb | hb
    · exact h.harvested b hb
    · grind

lemma height_toNat (h : NodeInv c honest h₀ n₀ log i g) (hrm : HeadRoom g.engine)
    (hac : g.engine.coordinator = some co) :
    co.height.toNat = g.engine.headNumber.toNat + 1 := by
  rw [h.link.height co hac, hrm.toNat_add]

lemma prevote_ok (h : NodeInv c honest h₀ n₀ log i g) (hrm : HeadRoom g.engine)
    (hac : g.engine.coordinator = some co) (hfh : g.flags.prevoted ≠ some (co.height, co.round))
    (hpd : co.proposedBlock = some block)
    (hl : ∀ lk, co.locked = some lk → co.proposedBlock = some lk.blockHash) :
    BallotOk vs.stakeAt honest (ballots log)
      (Cast.ballot ⟨i, .prevote, block, co.height, co.round⟩) := by
  have hnx := h.height_toNat hrm hac
  constructor
  · intro b hb
    obtain ⟨round, hr, hm⟩ := exists_cast_of_mem_ballots (p := .prevote) hb
    have hfg := h.own.prevoted _ hm rfl hnx rfl co hac (UInt32.toNat_inj.mp hr)
    exact absurd hfg hfh
  · intro r₀ b₀ hpc _
    obtain ⟨_, rfl, hm⟩ := exists_cast_of_mem_ballots (p := .precommit) hpc
    obtain ⟨lk, hlk, hle⟩ := h.own.locked _ hm rfl hnx rfl co hac
    have hbl := Option.some.inj (hpd.symm.trans (hl lk hlk))
    refine ⟨lk.round.toNat, le_iff_toNat_le.mp hle, ?_⟩
    rw [show (Cast.ballot ⟨i, .prevote, block, co.height, co.round⟩).value = lk.blockHash from hbl]
    exact ((h.coord co hac).locked lk hlk).2

lemma precommit_ok (h : NodeInv c honest h₀ n₀ log i g) (hrm : HeadRoom g.engine)
    (hac : g.engine.coordinator = some co) (hph : co.phase = .precommitting)
    (hpd : co.proposedBlock = some block) : BallotOk vs.stakeAt honest (ballots log)
      (Cast.ballot ⟨i, .precommit, block, co.height, co.round⟩) := by
  have hnx := h.height_toNat hrm hac
  obtain ⟨b, t, hb, -, -, hbk, -⟩ := (h.coord co hac).precommitting hph
  cases hb.symm.trans hpd
  refine ⟨hbk, fun r b' hprev => ?_⟩
  obtain ⟨_, rfl, hm⟩ := exists_cast_of_mem_ballots (p := .prevote) hprev
  obtain ⟨_, hco₀, hle⟩ := h.own.round _ hm rfl hnx
  cases hac.symm.trans hco₀
  exact le_iff_toNat_le.mp hle

section Casting

variable (hT : vs.total < 2 ^ 63) (h : NodeInv c honest h₀ n₀ log i g) (hrm : HeadRoom g.engine)
  (hln : LinkInv c h₀ n₀ []
    ⟨{ g.engine with coordinator := some co' }, flags, g.harvested, outbox⟩)
  (hac : g.engine.coordinator = some co)
  (hsg : v = signVote c p sk block co.height co.round g.engine.myIndex)
  (hok : co.submitVote c p v = .ok co')
  (hfg : flags.prevoted = if p = .prevote then some (co.height, co.round) else g.flags.prevoted)
  (hkp : ∀ msg, RoundFlags.Kept flags msg → msg = .ofVote p v ∨ RoundFlags.Kept g.flags msg)

include hT h hrm hln hac hsg hok hfg hkp

lemma cast (hs : log ⊆ log') (hx : castOf i p v ∈ log')
    (hn : ∀ y ∈ log', y ∈ log ∨ y = castOf i p v) : NodeInv c honest h₀ n₀ log' i
      ⟨{ g.engine with coordinator := some co' }, flags, g.harvested, outbox⟩ := by
  have hco := h.coord co hac
  obtain ⟨hhg, hrn, -, -, hpp⟩ := submitVote_frame hok
  have hnx := h.height_toNat hrm hac
  have hxh : (castOf i p v).height.toNat = g.engine.headNumber.toNat + 1 := by
    rw [hsg]
    exact hnx
  have hxr : (castOf i p v).round = co.round := by
    rw [hsg]
    rfl
  have ha : Authentic c honest log' p v := by
    intro _ j _ hj
    have hi : v.validatorIndex.toNat = i := by rw [hsg]; exact h.index
    obtain rfl : i = j := Fin.ext (hi.symm.trans hj)
    exact hx
  refine ⟨hln, h.index, h.set, ?_, ?_, ⟨?_, ?_, ?_, ?_⟩, ?_, ?_, ?_⟩
  · intro co₁ hso
    cases hso
    exact (hco.mono hs).submitVote hT ha hok
  · intro co₁ b proof hso _ hp
    cases hso
    rw [hpp]
    exact h.proposal co b proof hac (submitVote_phase hok) hp
  · intro y hy hvr
    rcases hn y hy with hy | rfl
    · exact h.own.height y hy hvr
    · exact le_of_eq hxh
  · intro y hy hvr hyh
    refine ⟨co', rfl, ?_⟩
    rcases hn y hy with hy | rfl
    · obtain ⟨_, hco₀, hle⟩ := h.own.round y hy hvr hyh
      cases hac.symm.trans hco₀
      exact hrn ▸ hle
    · grind
  · intro y hy hvr hyh hph co₁ hso hyr
    cases hso
    rw [hrn] at hyr
    rw [hhg, hrn]
    rcases hn y hy with hy | rfl
    · have ho := h.own.prevoted y hy hvr hyh hph co hac hyr
      split_ifs at hfg
      · exact hfg
      · exact hfg.trans ho
    · exact hfg.trans (if_pos hph)
  · intro y hy hvr hyh hph _ hso
    cases hso
    rcases hn y hy with hy | rfl
    · obtain ⟨lk, hlk, hle⟩ := h.own.locked y hy hvr hyh hph co hac
      obtain ⟨lk', hlk', hle'⟩ := submitVote_lock_grows (fun l hl => (hco.locked l hl).1) hok hlk
      exact ⟨lk', hlk', UInt32.le_trans hle hle'⟩
    · -- a PRE-COMMIT is cast in the round whose POLC set the lock
      obtain rfl : p = .precommit := hph
      obtain ⟨hpc, -⟩ := submitPrecommit_ok hok
      obtain ⟨_, _, _, _, _, _, lk, hlk, hlr⟩ := hco.precommitting hpc
      obtain ⟨lk', hlk', hle'⟩ := submitVote_lock_grows (fun l hl => (hco.locked l hl).1) hok hlk
      refine ⟨lk', hlk', UInt32.le_trans ?_ hle'⟩
      rw [hxr, hlr]
      exact UInt32.le_refl _
  · intro msg q u hk hu
    rcases hkp msg hk with rfl | hk
    · rw [vote?_ofVote] at hu
      cases hu
      exact hx
    · exact hs (h.kept msg q u hk hu)
  · intro q u hu
    exact (h.pending q u hu).mono hs
  · intro b hb
    obtain ⟨r, hbk⟩ := h.harvested b hb
    exact ⟨r, hbk.mono hs⟩

lemma cast_step (hd : Disciplined vs.stakeAt honest (ballots log))
    (hb : BallotOk vs.stakeAt honest (ballots log) (castOf i p v).ballot) :
    Disciplined vs.stakeAt honest (ballots (logCasts i log [.ofVote p v])) ∧
      NodeInv c honest h₀ n₀ (logCasts i log [.ofVote p v]) i
        ⟨{ g.engine with coordinator := some co' }, flags, g.harvested, outbox⟩ := by
  rw [logCasts_vote (vote?_ofVote p v)]
  split_ifs with hin
  · exact ⟨hd, h.cast hT hrm hln hac hsg hok hfg hkp (List.Subset.refl _) hin
      fun y hy => .inl hy⟩
  · refine ⟨?_, h.cast hT hrm hln hac hsg hok hfg hkp (subset_append_left _ _)
      (mem_append_right _ (mem_singleton_self _)) ?_⟩
    · rw [ballots, map_append]
      exact hd.append_singleton hb
    · grind

end Casting

lemma act {log₀ : List (Cast vs)} (hT : vs.total < 2 ^ 63) (hok : VoteOk c g₀ m)
    (hg : Genuine c honest log₀ m) (hl : log₀ ⊆ log)
    (hd : Disciplined vs.stakeAt honest (ballots log)) (h : NodeInv c honest h₀ n₀ log i g)
    (ha : Act c g₀ m g g') :
    ∃ sent, g'.outbox = g.outbox ++ sent ∧
      Disciplined vs.stakeAt honest (ballots (logCasts i log sent)) ∧
      NodeInv c honest h₀ n₀ (logCasts i log sent) i g' := by
  have hln := h.link.act hok.link ha
  have silent : g.outbox = g.outbox ++ [] := (append_nil _).symm
  cases ha with
  | sync _ _ msgs hnv =>
    refine ⟨msgs, rfl, ?_⟩
    rw [logCasts_novote hnv]
    exact ⟨hd, { h with link := hln, own := h.own.congr rfl rfl rfl }⟩
  | resend _ msg hkp =>
    refine ⟨[msg], rfl, ?_⟩
    have hsm : logCasts i log [msg] = log := by
      cases hv : msg.vote? with
      | none => exact logCasts_novote (by simpa using hv)
      | some pv =>
        obtain ⟨p, v⟩ := pv
        rw [logCasts_vote hv, if_pos (h.kept msg p v hkp hv)]
    rw [hsm]
    exact ⟨hd, { h with link := hln, own := h.own.congr rfl rfl rfl }⟩
  | stage _ txs | record _ p v hm =>
    exact ⟨[], silent, hd, { h with link := hln, own := h.own.congr rfl rfl rfl }⟩
  | ensure _ hil =>
    refine ⟨[], silent, hd, h.freshCoordinator hln ?_ rfl fun x hx hvr hxh => ?_⟩
    · rw [h.set]
      exact .new _ _
    · obtain ⟨co, hco, -⟩ := h.own.round x hx hvr hxh
      rw [hil] at hco
      cases hco
  | jump p hm hla =>
    have hn := fireTimeouts_toNat p.round (g₀.engine.headNumber + 1)
      g₀.engine.seed g₀.engine.validatorSet
    refine ⟨[], silent, hd, h.freshCoordinator hln ?_ ?_ fun x hx hvr hxh => ?_⟩
    · rw [hn, h.set]
      exact ⟨rfl, nofun, nofun, nofun, nofun⟩
    · rw [hn]
      rfl
    · rw [hn]
      obtain ⟨co, hco, hle⟩ := h.own.round x hx hvr hxh
      refine ⟨UInt32.lt_of_le_of_lt hle (shouldFastForward_lt hla hco), fun hph => ?_⟩
      obtain ⟨lk, hlk, -⟩ := h.own.locked x hx hvr hxh hph co hco
      rw [hok.jump p hm hla co hco] at hlk
      cases hlk
  | accept _ _ _ _ _ _ _ _ _ _ _ hac hs | propose _ _ _ _ _ _ _ _ hac hs =>
    exact ⟨[], silent, hd, h.withProposal hln hac hs⟩
  | announce _ _ p =>
    refine ⟨[.proposal p], rfl, ?_⟩
    rw [logCasts_novote (by simp [vote?])]
    refine ⟨hd, { h with link := hln, own := h.own.congr rfl rfl rfl, kept := ?_ }⟩
    rintro msg q v (hk | hk) hv
    · cases hk
      cases hv
    · exact h.kept msg q v (.inr hk) hv
  | vote _ p v _ _ hsc hac hs =>
    have hat : Authentic c honest log p v := by
      rcases hsc with hm | hp
      · exact (hg.authentic hm).mono hl
      · exact h.pending p v hp
    exact ⟨[], silent, hd, h.withVote hT hln hac hat hs⟩
  | buffer _ p v hm =>
    have hat := (hg.authentic hm).mono hl
    have hpg : ∀ q, ∀ u ∈ (g.engine.setPending p (g.engine.pending p ++ [v])).pending q,
        Authentic c honest log q u := by
      intro q u hu
      have hol := h.pending q u
      cases p <;> cases q <;> grind [BftEngine.setPending, BftEngine.pending]
    cases p <;> exact ⟨[], silent, hd,
      { h with link := hln, own := h.own.congr rfl rfl rfl, pending := hpg }⟩
  | prune _ _ _ hprev hpc =>
    refine ⟨[], silent, hd,
      { h with link := hln, own := h.own.congr rfl rfl rfl, pending := fun q u hu => ?_ }⟩
    cases q with
    | prevote => exact h.pending .prevote u (hprev hu)
    | precommit => exact h.pending .precommit u (hpc hu)
  | castPrevote co _ _ v hdr hac hph hfh hpd hsg hs =>
    obtain ⟨ex, rfl⟩ := hdr
    have hbl := h.prevote_ok hok.link.1 hac hfh hpd
      (hok.prevote ex rfl co hac hph hfh)
    exact ⟨[.prevote v], rfl, h.cast_step hT hok.link.1 hln hac hsg hs rfl
      (fun _ hk => kept_of_set hk (by simp [ofVote])) hd (hsg ▸ hbl)⟩
  | castPrecommit _ _ _ v _ hac hph _ hpd hsg hs =>
    have hbl := h.precommit_ok hok.link.1 hac hph hpd
    exact ⟨[.precommit v], rfl, h.cast_step hT hok.link.1 hln hac hsg hs rfl
      (fun _ hk => kept_of_set hk (by simp [ofVote])) hd (hsg ▸ hbl)⟩
  | timeout _ co hac =>
    have hco := h.coord co hac
    have hrn : co.round ≤ co.fireTimeout.round := by
      unfold fireTimeout
      split_ifs
      · exact UInt32.le_refl _
      · exact le_satAdd32 co.round 1
    have hlc : co.fireTimeout.locked = co.locked := by
      unfold fireTimeout
      split_ifs <;> rfl
    refine ⟨[], silent, hd, ⟨hln, h.index, h.set, ?_, ?_, ?_, h.kept, h.pending, h.harvested⟩⟩
    · intro _ hso
      exact Option.some.inj hso ▸ hco.fireTimeout
    · intro _ _ _ _ _ hpp
      cases hpp
    · refine h.own.advance rfl hac rfl (fireTimeout_frame co).1 hrn
        (fun lk hlk => ⟨lk, hlc.trans hlk, UInt32.le_refl _⟩) rfl
  | harvest _ co block proof _ hsm hac hph _ hpp =>
    obtain ⟨-, hnm⟩ := h.link.proposal block proof hpp
    obtain ⟨b, hb, hbk⟩ := (h.coord co hac).committed hph
    have hhs := h.proposal co block proof hac (by rw [hph]; decide) hpp
    cases hb.symm.trans hhs
    rw [h.link.height co hac, ← hnm] at hbk
    exact ⟨[], silent, hd, h.commit hln (hsm.headRoom hok.link.1) hnm hbk rfl rfl rfl rfl
      (fun _ hk => hk) (fun _ => List.Subset.refl _) rfl⟩
  | adopt _ bytes block cert _ _ hsm hm had =>
    obtain ⟨hnm, hhg, -, hhs, hve, rfl⟩ := adoptSyncedBlock_ok had
    rw [h.set] at hve
    have hbk : Backed honest log .precommit block.header.number cert.round (block.hash c) := by
      rw [← hhg, ← hhs]
      refine ⟨cert.signerSet vs, QuorumCertificate.isQuorum_of_verify hT hve, fun j hj hh => ?_⟩
      exact mem_ballots.mpr (hl (hg.certificate bytes cert hm hve j hh hj).mem)
    refine ⟨[], silent, hd, h.commit hln (hsm.headRoom hok.link.1) hnm hbk rfl rfl rfl rfl
      (fun _ hk => hk) (fun p => ?_) rfl⟩
    cases p <;> exact nil_subset _

lemma microStep (hT : vs.total < 2 ^ 63) (hok : VoteOk c g m) (hg : Genuine c honest log m)
    (hdis : Disciplined vs.stakeAt honest (ballots log)) (h : NodeInv c honest h₀ n₀ log i g) :
    let sent := (g.microStep c m).outbox.drop g.outbox.length
    Disciplined vs.stakeAt honest (ballots (logCasts i log sent)) ∧
      NodeInv c honest h₀ n₀ (logCasts i log sent) i (g.microStep c m) := by
  have ha : ∃ sent, (g.microStep c m).outbox = g.outbox ++ sent ∧
      Disciplined vs.stakeAt honest (ballots (logCasts i log sent)) ∧
      NodeInv c honest h₀ n₀ (logCasts i log sent) i (g.microStep c m) := by
    have hs := microStep_acts c g m
    generalize g.microStep c m = g' at hs ⊢
    induction hs with
    | refl => exact ⟨[], (append_nil _).symm, hdis, h⟩
    | tail _ hac ih =>
      obtain ⟨sent, hout, hdis', hi⟩ := ih
      obtain ⟨sent', hout', hr⟩ := hi.act hT hok hg (logCasts_grows sent).1 hdis' hac
      refine ⟨sent ++ sent', by rw [hout', hout, append_assoc], ?_⟩
      rw [logCasts_append]
      exact hr
  obtain ⟨sent, hout, hr⟩ := ha
  intro sent'
  have hsn : sent' = sent := by grind
  rw [hsn]
  exact hr

end NodeInv

end Node

namespace Network

variable {vs : ValidatorSet} {c : Crypto} {honest : Finset (Fin vs.size)} {h₀ : H256} {n₀ : Nat}
  {net : Network vs}

/-- The log is disciplined and speaks for every honest driver. -/
structure Inv (c : Crypto) (honest : Finset (Fin vs.size)) (h₀ : H256) (n₀ : Nat)
    (net : Network vs) : Prop where
  disciplined : Disciplined vs.stakeAt honest (ballots net.log)
  nodes : ∀ i ∈ honest, NodeInv c honest h₀ n₀ net.log i (net.nodes i)

lemma Inv.step (hT : vs.total < 2 ^ 63) {op : Fin vs.size × Micro} (h : Inv c honest h₀ n₀ net)
    (hi : op.1 ∈ honest) (hgn : Genuine c honest net.log op.2)
    (hok : VoteOk c (net.nodes op.1) op.2) : Inv c honest h₀ n₀ (net.step c op) := by
  obtain ⟨hd, hn⟩ := (h.nodes op.1 hi).microStep hT hok hgn h.disciplined
  refine ⟨hd, fun j hj => ?_⟩
  by_cases heq : j = op.1
  · subst heq
    rw [show (net.step c op).nodes op.1 = (net.nodes op.1).microStep c op.2 from
      Function.update_self _ _ _]
    exact hn
  · rw [show (net.step c op).nodes j = net.nodes j from Function.update_of_ne heq _ _]
    have hg : net.log ⊆ (net.step c op).log ∧
        ∀ x ∈ (net.step c op).log, x ∈ net.log ∨ x.voter = op.1 := logCasts_grows _
    refine (h.nodes j hj).mono hg.1 fun x hx => ?_
    exact (hg.2 x hx).imp_right fun hvr hxj => heq (hxj.symm.trans hvr)

lemma Inv.run (hT : vs.total < 2 ^ 63) {ops : List (Fin vs.size × Micro)}
    (h : Inv c honest h₀ n₀ net) (ha : net.Admitted c honest (VoteOk c) ops) :
    Inv c honest h₀ n₀ (net.run c ops) := by
  induction ops generalizing net with
  | nil => exact h
  | cons _ _ ih =>
    obtain ⟨⟨hi, hg, hok⟩, hrs⟩ := ha
    exact ih (h.step hT hi hg hok) hrs

lemma Inv.start {config : Fin vs.size → BftConfig} (head : Block) (seed : Arr 32)
    (hc : ∀ i ∈ honest, (config i).validatorSet = vs ∧ (config i).myIndex.toNat = i) :
    Inv c honest (head.hash c) head.header.number.toNat (start c config head seed) :=
  ⟨.nil, fun i hi => .start (config i) head seed (hc i hi).1 (hc i hi).2⟩

end Network

/-- In every run that meets the condition, honest drivers commit one block
per height. -/
theorem agreement (c : Crypto) (vs : ValidatorSet) (hT : vs.total < 2 ^ 63)
    (honest : Finset (Fin vs.size)) (hf : FaultBound vs.stakeAt honest)
    (config : Fin vs.size → BftConfig)
    (hconfig : ∀ i ∈ honest, (config i).validatorSet = vs ∧ (config i).myIndex.toNat = i)
    (head : Block) (seed : Arr 32) (ops : List (Fin vs.size × Micro))
    (hadm : (Network.start c config head seed).Admitted c honest (VoteOk c) ops) :
    ∀ i ∈ honest, ∀ j ∈ honest,
      ∀ b ∈ (((Network.start c config head seed).run c ops).nodes i).harvested,
      ∀ b' ∈ (((Network.start c config head seed).run c ops).nodes j).harvested,
        b.header.number = b'.header.number → b.hash c = b'.hash c := by
  intro i hi j hj b hb b' hb' hnm
  have hin := (Network.Inv.start head seed hconfig).run hT hadm
  obtain ⟨r, hbk⟩ := (hin.nodes i hi).harvested b hb
  obtain ⟨r', hbk'⟩ := (hin.nodes j hj).harvested b' hb'
  rw [← hnm] at hbk'
  exact hin.disciplined.committed_unique hf hbk hbk'

/-! ## Running a network

Executable forms of the conditions, to run small networks. -/

namespace Network

variable {vs : ValidatorSet} {c : Crypto} {m : Micro}

def genuineCheck (c : Crypto) (log : List (Cast vs)) (m : Micro) : Bool :=
  match m.message c with
  | none => true
  | some (.blockResponse _ _) => false
  | some msg =>
    match msg.vote? with
    | none => true
    | some (p, v) =>
      let digest := voteDigest c p v.blockHash v.height v.round
      (log.any fun x => x.voter.val = v.validatorIndex.toNat ∧ x.digest c = digest) &&
        log.all fun x => x.digest c = digest →
          x.preimage = votePreimage p v.blockHash v.height v.round

lemma genuine_of_check {log : List (Cast vs)} (honest : Finset (Fin vs.size))
    (h : genuineCheck c log m = true) : Genuine c honest log m := by
  constructor
  · intro p v hm _ j _ hj
    have hck : ((log.any fun x => decide (x.voter.val = v.validatorIndex.toNat ∧
        x.digest c = voteDigest c p v.blockHash v.height v.round)) &&
        log.all fun x => decide (x.digest c = voteDigest c p v.blockHash v.height v.round →
          x.preimage = votePreimage p v.blockHash v.height v.round)) = true := by
      rw [genuineCheck, hm] at h
      cases p <;> exact h
    obtain ⟨ha, hal⟩ := Bool.and_eq_true_iff.mp hck
    obtain ⟨x, hx, hmt⟩ := any_eq_true.mp ha
    obtain ⟨hvr, hd⟩ := of_decide_eq_true hmt
    exact ⟨⟨x, hx, Fin.ext (hvr.trans hj), hd⟩,
      fun y hy => of_decide_eq_true (all_eq_true.mp hal y hy)⟩
  · intro _ _ hm
    rw [genuineCheck, hm] at h
    cases h

def admittedCheck (c : Crypto) (ok : BftGossip → Micro → Bool) :
    Network vs → List (Fin vs.size × Micro) → Bool
  | _, [] => true
  | net, op :: ops =>
    genuineCheck c net.log op.2 && ok (net.nodes op.1) op.2 &&
      admittedCheck c ok (net.step c op) ops

lemma admitted_of_check {okCheck : BftGossip → Micro → Bool} {ok : BftGossip → Micro → Prop}
    (hok : ∀ g m, okCheck g m = true → ok g m) {net : Network vs} {ops : List (Fin vs.size × Micro)}
    (h : net.admittedCheck c okCheck ops = true) :
    net.Admitted c Finset.univ ok ops := by
  induction ops generalizing net with
  | nil => trivial
  | cons _ _ ih =>
    rw [admittedCheck, Bool.and_eq_true, Bool.and_eq_true] at h
    obtain ⟨⟨hg, hsp⟩, hrs⟩ := h
    exact ⟨⟨Finset.mem_univ _, genuine_of_check _ hg, hok _ _ hsp⟩, ih hrs⟩

/-- A sufficient check for `VoteOk`: proposals are for heights above the
head and jump no lock, and the lock is on the proposed block. -/
def voteOkCheck (c : Crypto) (g : BftGossip) (m : Micro) : Bool :=
  decide (HeadRoom g.engine) &&
    (match m.message c with
      | some (.proposal p) =>
        decide (g.engine.headNumber < p.height) && !(shouldFastForward g.engine p.height p.round)
      | _ => true) &&
    g.engine.coordinator.all fun co =>
      co.locked.all fun lk => co.proposedBlock == some lk.blockHash

lemma voteOk_of_check {g : BftGossip} (h : voteOkCheck c g m = true) : VoteOk c g m := by
  rw [voteOkCheck, Bool.and_eq_true, Bool.and_eq_true] at h
  obtain ⟨⟨hrm, hm⟩, hl⟩ := h
  refine ⟨⟨of_decide_eq_true hrm, fun p hp hsa => ?_⟩, fun p hp hff => ?_,
    fun ex _ co hco _ _ lk hlk => ?_⟩
  · rw [hp] at hm
    obtain ⟨hlt, -⟩ := Bool.and_eq_true_iff.mp hm
    exact absurd hsa.height_le (UInt64.not_le.mpr (of_decide_eq_true hlt))
  · grind
  · grind

end Network

/-! ### Three honest validators

Stakes 3, 2 and 2, quorum 5. The seed makes validator 0 the leader of
height 1 in rounds 0 and 1. -/

def trioSet : ValidatorSet :=
  ⟨[referenceValidator 0 3, referenceValidator 1 2, referenceValidator 2 2], 7,
    by decide, by decide, by decide, by decide⟩

def val0 : Fin trioSet.size := ⟨0, by decide⟩
def val1 : Fin trioSet.size := ⟨1, by decide⟩
def val2 : Fin trioSet.size := ⟨2, by decide⟩

def trioConfig (i : Fin trioSet.size) : BftConfig := referenceConfig trioSet i 0

def trioHead : Block := referenceHead (referenceConfig trioSet 0 0) 0

def trioSeed : Arr 32 := arrOfNat 32 0

def trioStart : Network trioSet := .start .reference trioConfig trioHead trioSeed

def trioProof (r : UInt32) : LeaderProof :=
  .produce .reference (referenceVrfSk 0) 1 r trioSeed

def trioBlock (r : UInt32) : Block :=
  (BftEngine.fresh .reference (referenceConfig trioSet 0 0) trioHead trioSeed).reconstruct
    .reference none 1 (trioProof r) (referenceConfig trioSet 0 0).coinbase .empty

def trioProposal (r : UInt32) : Bytes :=
  BftMessage.encode <| .proposal
    { height := 1, round := r, blockHash := (trioBlock r).hash .reference
      leaderProof := trioProof r, coinbase := (referenceConfig trioSet 0 0).coinbase
      bodyBytes := BlockBody.empty.encode }

def trioVote (p : VotePhase) (k : Nat) (r : UInt32) : Bytes :=
  BftMessage.encode <| .ofVote p <|
    signVote .reference p (arrOfNat 32 (k + 1)) ((trioBlock r).hash .reference) 1 r
      (UInt32.ofNat k)

def trioTick (i : Fin trioSet.size) (inbox : List Bytes) : List (Fin trioSet.size × Micro) :=
  (Event.tick none inbox).micros.map fun m => (i, m)

def trioRoundZero : List (Fin trioSet.size × Micro) :=
  trioTick val0 [] ++ trioTick val0 [] ++ trioTick val1 [trioProposal 0] ++
    trioTick val0 [trioVote .prevote 1 0] ++ trioTick val1 [trioVote .prevote 0 0] ++
    trioTick val1 [trioVote .precommit 0 0]

/-- Validator 0 has not seen the PRE-COMMIT of 1. It times out, proposes
again, PRE-VOTES against its lock, and validator 2 commits the block of
round 1 with the votes of 0 and 2. -/
def trioRoundOne : List (Fin trioSet.size × Micro) :=
  [(val0, .timeout)] ++ trioTick val0 [] ++ trioTick val0 [] ++ trioTick val2 [trioProposal 1] ++
    trioTick val0 [trioVote .prevote 2 1] ++ trioTick val2 [trioVote .prevote 0 1] ++
    trioTick val2 [trioVote .precommit 0 1]

/-- Three honest validators, no forged message: 1 and 2 commit different
blocks at height 1. -/
theorem honest_nodes_disagree : trioSet.total < 2 ^ 63 ∧ FaultBound trioSet.stakeAt Finset.univ ∧
      trioStart.Admitted .reference Finset.univ (fun _ _ => True) (trioRoundZero ++ trioRoundOne) ∧
      ((trioStart.run .reference (trioRoundZero ++ trioRoundOne)).nodes val1).harvested =
        [trioBlock 0] ∧
      ((trioStart.run .reference (trioRoundZero ++ trioRoundOne)).nodes val2).harvested =
        [trioBlock 1] ∧ (trioBlock 0).header.number = (trioBlock 1).header.number ∧
      (trioBlock 0).hash .reference ≠ (trioBlock 1).hash .reference := by
  have ha : trioStart.admittedCheck .reference (fun _ _ => true)
      (trioRoundZero ++ trioRoundOne) = true := by decide +kernel
  refine ⟨by decide, by decide, Network.admitted_of_check (fun _ _ _ => trivial) ha, ?_⟩
  decide +kernel

theorem agreement_trio : ((trioStart.run .reference
        (trioRoundZero ++ trioTick val0 [trioVote .precommit 1 0])).nodes
          val0).harvested.length = 1 ∧
      ∀ b ∈ ((trioStart.run .reference
        (trioRoundZero ++ trioTick val0 [trioVote .precommit 1 0])).nodes val0).harvested,
      ∀ b' ∈ ((trioStart.run .reference
        (trioRoundZero ++ trioTick val0 [trioVote .precommit 1 0])).nodes val1).harvested,
        b.header.number = b'.header.number → b.hash .reference = b'.hash .reference := by
  have ha : trioStart.admittedCheck .reference (Network.voteOkCheck .reference)
      (trioRoundZero ++ trioTick val0 [trioVote .precommit 1 0]) = true := by decide +kernel
  have hr := Network.admitted_of_check (fun _ _ => Network.voteOk_of_check) ha
  refine ⟨by decide +kernel, ?_⟩
  exact agreement .reference trioSet (by decide) Finset.univ (by decide) trioConfig
    (by decide +kernel) trioHead trioSeed _ hr val0 (Finset.mem_univ _)
    val1 (Finset.mem_univ _)

end Aii.Bft
