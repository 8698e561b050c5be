/-
Aii.Bft.ChainLink — do the blocks a driver hands out form a chain?

They do if every inbound proposal for a height at or below the head fails
some check.
-/
import Aii.Bft.Acts

namespace Aii.Bft

open Common Chain List Option RoundCoordinator

/-! ## Linked chains -/

section Linked

variable (c : Crypto) {bs : List Block} {h : H256} {n : Nat}

/-- The blocks continue the chain that ends in hash `h` at number `n`. -/
inductive ChainLinked : H256 → Nat → List Block → Prop
  | nil (h : H256) (n : Nat) : ChainLinked h n []
  | cons {h : H256} {n : Nat} {b : Block} {bs : List Block} (parent : b.header.parentHash = h)
      (number : b.header.number.toNat = n + 1)
      (rest : ChainLinked (b.hash c) b.header.number.toNat bs) : ChainLinked h n (b :: bs)

lemma chainLinked_cons_iff (h : H256) (n : Nat) (b : Block) (bs : List Block) :
    ChainLinked c h n (b :: bs) ↔ b.header.parentHash = h ∧ b.header.number.toNat = n + 1 ∧
      ChainLinked c (b.hash c) b.header.number.toNat bs := by
  constructor
  · rintro ⟨⟩
    exact ⟨‹_›, ‹_›, ‹_›⟩
  · rintro ⟨hp, hn, hrs⟩
    exact .cons hp hn hrs

instance decidableChainLinked :
    (h : H256) → (n : Nat) → (bs : List Block) → Decidable (ChainLinked c h n bs)
  | h, n, [] => isTrue (.nil h n)
  | h, n, b :: bs =>
    have := decidableChainLinked (b.hash c) b.header.number.toNat bs
    decidable_of_iff _ (chainLinked_cons_iff c h n b bs).symm

def chainHead (h : H256) (n : Nat) (bs : List Block) : H256 × Nat :=
  bs.foldl (fun _ b => (b.hash c, b.header.number.toNat)) (h, n)

variable {c}

lemma ChainLinked.append_singleton {b : Block} (hbs : ChainLinked c h n bs)
    (hpt : b.header.parentHash = (chainHead c h n bs).1)
    (hnm : b.header.number.toNat = (chainHead c h n bs).2 + 1) : ChainLinked c h n (bs ++ [b]) := by
  induction bs generalizing h n with
  | nil => exact .cons hpt hnm (.nil _ _)
  | cons b' bs ih =>
    obtain ⟨hp, hn, hrs⟩ := (chainLinked_cons_iff c h n b' bs).mp hbs
    exact .cons hp hn (ih hrs hpt hnm)

lemma chainHead_append_singleton (h : H256) (n : Nat) (bs : List Block) (b : Block) :
    chainHead c h n (bs ++ [b]) = (b.hash c, b.header.number.toNat) := by
  rw [chainHead, foldl_append]
  rfl

lemma ChainLinked.of_append {bs' : List Block} (hbs : ChainLinked c h n (bs ++ bs')) :
    ChainLinked c h n bs := by
  induction bs generalizing h n with
  | nil => exact .nil h n
  | cons b bs ih =>
    obtain ⟨hp, hn, hrs⟩ := (chainLinked_cons_iff c h n b (bs ++ bs')).mp hbs
    exact .cons hp hn (ih hrs)

lemma ChainLinked.number_eq (hbs : ChainLinked c h n bs) :
    (chainHead c h n bs).2 = n + bs.length := by
  induction bs generalizing h n with
  | nil => rfl
  | cons b bs ih =>
    obtain ⟨-, hn, hrs⟩ := (chainLinked_cons_iff c h n b bs).mp hbs
    have hcu := ih hrs
    rw [length_cons, chainHead, foldl_cons, ← chainHead, hcu, hn]
    omega

end Linked

/-! ## The invariant -/

namespace BftGossip

variable {c : Crypto} {h₀ : H256} {n₀ : Nat} {handed : List Block} {g g' : BftGossip}
  {g₀ : BftGossip} {block : Block} {co co' : RoundCoordinator} {s : Host}

/-- The run condition: there is a next height, and an inbound proposal
for a height at or below the head does not pass the driver's checks. -/
def LinkOk (c : Crypto) (g : BftGossip) (m : Micro) : Prop :=
  HeadRoom g.engine ∧ ∀ p, m.message c = some (.proposal p) → ¬ StaleAccepted c m.oracle g.engine p

instance (c : Crypto) (g : BftGossip) (m : Micro) : Decidable (LinkOk c g m) :=
  match hmsg : m.message c with
  | some (.proposal p) =>
    decidable_of_iff (HeadRoom g.engine ∧ ¬ StaleAccepted c m.oracle g.engine p) <| by
      simp [LinkOk, hmsg]
  | some (.prevote _) | some (.precommit _) | some (.blockRequest _) | some (.blockResponse _ _)
  | none =>
    decidable_of_iff (HeadRoom g.engine) <| by simp [LinkOk, hmsg]

/-- The blocks handed out and those waiting to be form a chain that ends
in the engine's head; the coordinator and the proposal are for the next
height. -/
structure LinkInv (c : Crypto) (h₀ : H256) (n₀ : Nat) (handed : List Block) (g : BftGossip) :
    Prop where
  chain : ChainLinked c h₀ n₀ (handed ++ g.harvested)
  head : chainHead c h₀ n₀ (handed ++ g.harvested) = (g.engine.headHash, g.engine.headNumber.toNat)
  height : ∀ co, g.engine.coordinator = some co → co.height = g.engine.headNumber + 1
  proposal : ∀ block proof, g.engine.proposal = some (block, proof) →
    block.header.parentHash = g.engine.headHash ∧ block.header.number = g.engine.headNumber + 1

lemma SameHead.headRoom (h : SameHead g₀ g) (hrm : HeadRoom g₀.engine) : HeadRoom g.engine := by
  rw [HeadRoom, h.headNumber]
  exact hrm

lemma LinkInv.commit (h : LinkInv c h₀ n₀ handed g) (hrm : HeadRoom g.engine)
    (hpt : block.header.parentHash = g.engine.headHash)
    (hnm : block.header.number = g.engine.headNumber + 1)
    (hhr : g'.harvested = g.harvested ++ [block]) (hhs : g'.engine.headHash = block.hash c)
    (hn : g'.engine.headNumber = block.header.number) (hco : g'.engine.coordinator = none)
    (hpp : g'.engine.proposal = none) : LinkInv c h₀ n₀ handed g' := by
  have hhd := h.head
  constructor
  · rw [hhr, ← append_assoc]
    refine h.chain.append_singleton ?_ ?_
    · rw [hhd, hpt]
    · rw [hhd, hnm, hrm.toNat_add]
  · rw [hhr, ← append_assoc, chainHead_append_singleton, hhs, hn]
  · grind
  · grind

lemma LinkInv.withCoordinator (h : LinkInv c h₀ n₀ handed g)
    (hac : g.engine.coordinator = some co) (hhg : co'.height = co.height)
    (he : g'.engine = { g.engine with coordinator := some co' })
    (hhr : g'.harvested = g.harvested) : LinkInv c h₀ n₀ handed g' := by
  refine ⟨hhr ▸ h.chain, ?_, ?_, ?_⟩
  · rw [hhr, h.head, he]
  · rw [he]
    intro co₁ hso
    cases hso
    exact hhg.trans (h.height co hac)
  · rw [he]
    exact h.proposal

lemma LinkInv.withProposal {proof : LeaderProof} {hash : H256} (h : LinkInv c h₀ n₀ handed g)
    (hac : g.engine.coordinator = some co) (hok : co.submitProposal c hash proof = .ok co')
    (hpt : block.header.parentHash = g.engine.headHash)
    (hnm : block.header.number = g.engine.headNumber + 1) :
    LinkInv c h₀ n₀ handed { g with engine := { g.engine with
      coordinator := some co', proposal := some (block, proof) } } := by
  refine ⟨h.chain, h.head, ?_, ?_⟩
  · intro co₁ hso
    obtain rfl := submitProposal_eq hok
    cases hso
    exact h.height co hac
  · grind

lemma height_eq_next {e : BftEngine} {height : UInt64} (hrm : HeadRoom e)
    (hle : height ≤ satAdd64 e.headNumber 1) (hn : ¬ height ≤ e.headNumber) :
    height = e.headNumber + 1 := by
  have hle' := UInt64.le_iff_toNat_le.mp hle
  rw [hrm.toNat_satAdd] at hle'
  rw [UInt64.le_iff_toNat_le] at hn
  apply UInt64.toNat_inj.mp
  rw [hrm.toNat_add]
  omega

lemma LinkInv.act {m : Micro} (hok : LinkOk c g₀ m) (h : LinkInv c h₀ n₀ handed g)
    (ha : Act c g₀ m g g') : LinkInv c h₀ n₀ handed g' := by
  obtain ⟨hrm, hsa⟩ := hok
  cases ha with
  | sync | resend | stage | record | prune | announce =>
    exact { h with }
  | buffer _ p => cases p <;> exact { h with }
  | ensure =>
    refine { h with height := fun co hso => ?_ }
    cases hso
    rfl
  | jump =>
    refine { h with height := fun co hso => ?_ }
    cases hso
    exact (fireTimeouts_frame _ _).1
  | accept _ p _ _ _ _ hsm hm hle hacc hbu hac hs =>
    -- a stale height would have passed every check in the state the step began in
    have hn : ¬ p.height ≤ g₀.engine.headNumber := fun hst => hsa p hm (hacc hrm hst)
    have hnx := height_eq_next hrm hle hn
    refine h.withProposal hac hs ?_ ?_
    · rw [hbu]
      rfl
    · rw [hbu, hsm.headNumber]
      exact hnx
  | propose _ _ co _ _ _ _ hbu hac hs =>
    refine h.withProposal hac hs ?_ ?_
    · rw [hbu]
      rfl
    · rw [hbu]
      exact h.height co hac
  | vote _ _ _ _ _ _ hac hs =>
    exact h.withCoordinator hac (submitVote_frame hs).1 rfl rfl
  | castPrevote _ _ _ _ _ hac _ _ _ _ hs =>
    have hfr := submitVote_frame (p := .prevote) hs
    exact h.withCoordinator hac hfr.1 rfl rfl
  | castPrecommit _ _ _ _ _ hac _ _ _ _ hs =>
    have hfr := submitVote_frame (p := .precommit) hs
    exact h.withCoordinator hac hfr.1 rfl rfl
  | timeout _ co hac =>
    refine ⟨h.chain, h.head, fun co₁ hso => ?_, fun b p hso => nomatch hso⟩
    cases hso
    exact (fireTimeout_frame co).1.trans (h.height co hac)
  | harvest _ _ block proof _ hsm _ _ _ hpp =>
    obtain ⟨hpt, hnm⟩ := h.proposal block proof hpp
    exact h.commit (hsm.headRoom hrm) hpt hnm rfl rfl rfl rfl rfl
  | adopt _ _ _ _ _ _ hsm _ had =>
    obtain ⟨hnm, -, hpt, -, -, rfl⟩ := adoptSyncedBlock_ok had
    exact h.commit (hsm.headRoom hrm) hpt hnm rfl rfl rfl rfl rfl

/-! ## Runs with a host -/

/-- What a host does with a driver: feed it an event, or take the
harvested blocks. -/
inductive HostOp where
  | event (ev : Event)
  | drain

/-- A driver and the blocks its host has taken from it so far, in order. -/
structure Host where
  driver : BftGossip
  handed : List Block

def Host.step (c : Crypto) (s : Host) : HostOp → Host
  | .event ev => { s with driver := s.driver.step c ev }
  | .drain =>
    let out := s.driver.drainHarvested
    { driver := out.1, handed := s.handed ++ out.2 }

def Host.run (c : Crypto) (s : Host) (ops : List HostOp) : Host := ops.foldl (Host.step c) s

/-- Every micro-step of the run meets `ok` in the state it starts from. -/
def Host.Admitted (c : Crypto) (ok : BftGossip → Micro → Prop) : Host → List HostOp → Prop
  | _, [] => True
  | s, .event ev :: ops =>
    BftGossip.Admitted c ok s.driver ev.micros ∧ Host.Admitted c ok (s.step c (.event ev)) ops
  | s, .drain :: ops => Host.Admitted c ok (s.step c .drain) ops

lemma LinkInv.hostStep {op : HostOp} (h : LinkInv c h₀ n₀ s.handed s.driver)
    (hok : s.Admitted c (LinkOk c) [op]) :
    LinkInv c h₀ n₀ (s.step c op).handed (s.step c op).driver := by
  cases op with
  | event =>
    unfold Host.step
    dsimp only
    rw [step_eq_runMicro]
    exact runMicro_induction (fun _ _ _ _ hok' _ hi ha => hi.act hok' ha) hok.1 h
  | drain =>
    refine ⟨?_, ?_, h.height, h.proposal⟩
    · simpa [Host.step, drainHarvested] using h.chain
    · simpa [Host.step, drainHarvested] using h.head

lemma LinkInv.hostRun {ops : List HostOp} (h : LinkInv c h₀ n₀ s.handed s.driver)
    (hok : s.Admitted c (LinkOk c) ops) :
    LinkInv c h₀ n₀ (s.run c ops).handed (s.run c ops).driver := by
  induction ops generalizing s with
  | nil => exact h
  | cons op _ ih =>
    cases op with
    | event ev =>
      have hev : s.Admitted c (LinkOk c) [.event ev] := ⟨hok.1, trivial⟩
      exact ih (h.hostStep hev) hok.2
    | drain =>
      have hd : s.Admitted c (LinkOk c) [.drain] := trivial
      exact ih (h.hostStep hd) hok

/-- A host with a driver that has just been started at `head`. -/
def Host.start (c : Crypto) (config : BftConfig) (head : Block) (seed : Arr 32) : Host :=
  ⟨.new (.fresh c config head seed), []⟩

lemma LinkInv.start (config : BftConfig) (head : Block) (seed : Arr 32) :
    LinkInv c (head.hash c) head.header.number.toNat [] (.new (.fresh c config head seed)) :=
  ⟨.nil _ _, rfl, fun _ h => (nomatch h), fun _ _ h => (nomatch h)⟩

/-- If no stale proposal passes the checks, the blocks handed to the host
form a chain on the starting head. -/
theorem handed_chain_linked (c : Crypto) (config : BftConfig) (head : Block) (seed : Arr 32)
    (ops : List HostOp) (hok : (Host.start c config head seed).Admitted c (LinkOk c) ops) :
    ChainLinked c (head.hash c) head.header.number.toNat
        ((Host.start c config head seed).run c ops).handed ∧
      ((Host.start c config head seed).run c ops).driver.engine.headNumber.toNat =
        head.header.number.toNat + ((Host.start c config head seed).run c ops).handed.length +
          ((Host.start c config head seed).run c ops).driver.harvested.length := by
  have hi := LinkInv.hostRun (LinkInv.start config head seed) hok
  refine ⟨hi.chain.of_append, ?_⟩
  have hcu := hi.chain.number_eq
  rw [hi.head, length_append] at hcu
  rw [Nat.add_assoc]
  exact hcu

/-! ### A follower with a quorum of its own

Two reference validators, a follower with stake 5 and a leader with stake
1, at head 7. The leader's proof is for height 8, round 0; the height in
the proposal is a parameter. -/

def followerHost : Host :=
  .start .reference followerConfig (referenceHead followerConfig 7)
    followerConfig.initialSeed

def proposalAt (height : UInt64) : Proposal :=
  let proof := LeaderProof.produce .reference (referenceVrfSk 1) 8 0
    followerConfig.initialSeed
  let block := followerHost.driver.engine.reconstruct .reference none height proof
    (Arr.zero 20) .empty
  { height := height, round := 0, blockHash := block.hash .reference, leaderProof := proof
    coinbase := Arr.zero 20, bodyBytes := BlockBody.empty.encode }

def followerOps (height : UInt64) : List HostOp :=
  [.event (.tick none [(BftMessage.proposal (proposalAt height)).encode]),
    .event (.tick none []), .drain]

/-- A proposal that says height 3 commits block 3 on top of head 7. -/
theorem stale_height_committed :
    let out := followerHost.run .reference (followerOps 3)
    out.handed.map (·.header.number) = [3] ∧ out.driver.engine.headNumber = 3 ∧
      ¬ ChainLinked .reference ((referenceHead followerConfig 7).hash .reference) 7
        out.handed := by
  decide +kernel

theorem handed_chain_linked_follower :
    (followerHost.run .reference (followerOps 8)).handed.map (·.header.number) = [8] ∧
      ChainLinked .reference ((referenceHead followerConfig 7).hash .reference) 7
        (followerHost.run .reference (followerOps 8)).handed := by
  have hm : (Micro.recv none (BftMessage.proposal (proposalAt 8)).encode).message
      .reference = some (.proposal (proposalAt 8)) := by decide +kernel
  refine ⟨by decide +kernel, (handed_chain_linked .reference followerConfig
    (referenceHead followerConfig 7) followerConfig.initialSeed (followerOps 8) ?_).1⟩
  refine ⟨⟨⟨by decide +kernel, ?_⟩, ⟨by decide +kernel, nofun⟩, trivial⟩,
    ⟨⟨by decide +kernel, nofun⟩, trivial⟩, trivial⟩
  intro p hp hsa
  obtain rfl := BftMessage.proposal.inj (some.inj (hm.symm.trans hp))
  exact absurd hsa.height_le (by decide +kernel)

end BftGossip

end Aii.Bft
