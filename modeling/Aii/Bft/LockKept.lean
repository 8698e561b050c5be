/-
Aii.Bft.LockKept — the lock across rounds.

A timeout keeps the lock, but an inbound proposal of a later round,
genuine or junk, takes it away.
-/
import Aii.Bft.Rejection

namespace Aii.Bft

open Common Chain UInt32 Option

/-! ## Locks -/

/-- `new` is `old` if there was a lock, or a lock of a later round. -/
def KeepsLock (old new : Option LockedState) : Prop :=
  ∀ l, old = some l → ∃ l', new = some l' ∧ (l' = l ∨ l.round < l'.round)

lemma KeepsLock.refl (lock : Option LockedState) : KeepsLock lock lock :=
  fun l h => ⟨l, h, Or.inl rfl⟩

lemma KeepsLock.trans {l₁ l₂ l₃ : Option LockedState} (h : KeepsLock l₁ l₂)
    (h' : KeepsLock l₂ l₃) : KeepsLock l₁ l₃ := by
  intro l hl
  obtain ⟨l', hl', hle⟩ := h l hl
  obtain ⟨l'', hl'', hle'⟩ := h' l' hl'
  refine ⟨l'', hl'', ?_⟩
  rcases hle with rfl | hlt
  · exact hle'
  · rcases hle' with rfl | hlt'
    · exact .inr hlt
    · exact .inr (UInt32.lt_trans hlt hlt')

lemma KeepsLock.of_none (lock : Option LockedState) : KeepsLock none lock := fun _ h => by cases h

namespace RoundCoordinator

variable {c : Crypto} {co co' : RoundCoordinator}

def LockBehind (co : RoundCoordinator) : Prop :=
  ∀ l, co.locked = some l → l.round < co.round ∨
    (l.round = co.round ∧ (co.phase = .precommitting ∨ co.phase = .committed))

lemma LockBehind.of_unlocked (h : co.locked = none) : co.LockBehind := by
  intro l hl
  rw [h] at hl
  cases hl

lemma LockBehind.startRound (n : Nat) (height : UInt64) (seed : Arr 32) (vs : ValidatorSet) :
    (fireTimeouts n (.new height seed vs)).LockBehind := by
  obtain ⟨r, heq, -⟩ := fireTimeouts_new n height seed vs 0
  exact heq ▸ .of_unlocked rfl

lemma LockBehind.earlier (h : co.LockBehind) {l : LockedState} (hl : co.locked = some l)
    (hph : co.phase = .awaitingProposal ∨ co.phase = .prevoting) : l.round < co.round := by
  rcases h l hl with hlt | ⟨-, hla⟩
  · exact hlt
  · rcases hph with h₁ | h₁ <;> rcases hla with h₂ | h₂ <;> rw [h₁] at h₂ <;> cases h₂

lemma LockBehind.submitProposal {hash : H256} {proof : LeaderProof} (h : co.LockBehind)
    (hok : co.submitProposal c hash proof = .ok co') :
    co'.LockBehind ∧ KeepsLock co.locked co'.locked := by
  obtain ⟨hph, -, rfl⟩ := submitProposal_ok hok
  refine ⟨fun l hl => .inl ?_, .refl _⟩
  exact h.earlier hl (.inl hph)

lemma LockBehind.submitVote {p : VotePhase} {v : Vote} (h : co.LockBehind)
    (hok : co.submitVote c p v = .ok co') : co'.LockBehind ∧ KeepsLock co.locked co'.locked := by
  cases p with
  | prevote =>
    obtain ⟨hph, t, t', st, -, -, hcs⟩ := submitPrevote_ok hok
    rcases hcs with ⟨-, rfl⟩ | ⟨polc, block, -, -, -, rfl⟩
    · exact ⟨fun l hl => h l hl, .refl _⟩
    · -- the old lock is of an earlier round, so the new one replaces it
      have hr := relock_eq (fun l hl => UInt32.le_of_lt (h.earlier hl (.inr hph))) block polc
      refine ⟨fun l hl => .inr ?_, fun l hl => ?_⟩
      · cases hr.symm.trans hl
        exact ⟨rfl, .inl rfl⟩
      · exact ⟨_, hr, .inr (h.earlier hl (.inr hph))⟩
  | precommit =>
    obtain ⟨hph, t, t', st, -, -, hcs⟩ := submitPrecommit_ok hok
    rcases hcs with ⟨-, rfl⟩ | ⟨cert, -, -, rfl⟩
    · exact ⟨fun l hl => h l hl, .refl _⟩
    · refine ⟨fun l hl => ?_, .refl _⟩
      rcases h l hl with hlt | ⟨heq, -⟩
      · exact .inl hlt
      · exact .inr ⟨heq, .inr rfl⟩

lemma LockBehind.fireTimeout (h : co.LockBehind)
    (hrm : co.locked ≠ none → co.round.toNat + 1 < 2 ^ 32) :
    co.fireTimeout.LockBehind ∧ KeepsLock co.locked co.fireTimeout.locked := by
  unfold RoundCoordinator.fireTimeout
  split_ifs
  · exact ⟨h, .refl _⟩
  · refine ⟨fun l hl => .inl ?_, .refl _⟩
    have hle : l.round.toNat ≤ co.round.toNat := by
      rcases h l hl with hlt | ⟨heq, -⟩
      · exact Nat.le_of_lt (lt_iff_toNat_lt.mp hlt)
      · rw [heq]
    have hlt := hrm (ne_none_iff_exists'.mpr ⟨l, hl⟩)
    rw [lt_iff_toNat_lt, satAdd32_toNat]
    simp only [reduceToNat]
    omega

end RoundCoordinator

/-! ## Drivers -/

namespace BftGossip

open BftEngine

variable {c : Crypto} {g₀ g g' : BftGossip} {m : Micro} {co : RoundCoordinator} {ms : List Micro}

def lock (g : BftGossip) : Option LockedState := g.engine.coordinator.bind (·.locked)

lemma lock_of_active (h : g.engine.coordinator = some co) : g.lock = co.locked := by
  simp [lock, h]

def LockBehind (g : BftGossip) : Prop :=
  ∀ co, g.engine.coordinator = some co → co.LockBehind

/-- While it holds a lock, the driver jumps to no later round, and there
is no timeout in the last one. -/
def Calm (c : Crypto) (g : BftGossip) (m : Micro) : Prop :=
  ∀ co ∈ g.engine.coordinator, co.locked ≠ none →
    (∀ p, m.message c = some (.proposal p) → ¬ JumpsRound g.engine p) ∧
      (m = .timeout → co.round.toNat + 1 < 2 ^ 32)

/-- Since `g₀` a block was committed, or the lock was kept. -/
def LockSince (g₀ g : BftGossip) : Prop :=
  g.LockBehind ∧ g₀.harvested.length ≤ g.harvested.length ∧
    (g₀.harvested.length < g.harvested.length ∨ KeepsLock g₀.lock g.lock)

lemma LockSince.of_same (h : LockSince g₀ g) (hco : g'.engine.coordinator = g.engine.coordinator)
    (hhr : g'.harvested = g.harvested) :
    LockSince g₀ g' := by
  obtain ⟨hb, hkp⟩ := h
  unfold LockSince LockBehind lock at *
  rw [hco, hhr]
  exact ⟨hb, hkp⟩

lemma LockSince.coordinator (h : LockSince g₀ g) {co' : RoundCoordinator}
    (hac : g.engine.coordinator = some co) (hsp : co'.LockBehind ∧ KeepsLock co.locked co'.locked)
    (hac' : g'.engine.coordinator = some co') (hhr : g'.harvested = g.harvested) :
    LockSince g₀ g' := by
  obtain ⟨hb, hl, hkp⟩ := h
  refine ⟨fun co₁ hco₁ => ?_, by rw [hhr]; exact hl, ?_⟩
  · grind
  · rw [hhr, lock_of_active hac']
    rw [lock_of_active hac] at hkp
    exact hkp.imp_right fun hk => hk.trans hsp.2

lemma LockSince.commit (h : LockSince g₀ g) {block : Block} (hil : g'.engine.coordinator = none)
    (hhr : g'.harvested = g.harvested ++ [block]) :
    LockSince g₀ g' := by
  have hl := h.2.1
  refine ⟨fun co hco => absurd (hil.symm.trans hco) (some_ne_none co).symm, ?_, ?_⟩
  · rw [hhr, List.length_append]
    omega
  · grind

lemma LockSince.act (hc : Calm c g₀ m) (h : LockSince g₀ g)
    (ha : Act c g₀ m g g') : LockSince g₀ g' := by
  cases ha with
  | sync | resend | stage | record | announce | prune => exact h.of_same rfl rfl
  | buffer _ p => cases p <;> exact h.of_same rfl rfl
  | ensure _ hil =>
    obtain ⟨-, hln, hkp⟩ := h
    refine ⟨fun co hco => ?_, hln, ?_⟩
    · cases hco
      exact .of_unlocked rfl
    · refine hkp.imp_right fun hk => ?_
      have hnn : g.lock = none := by simp [lock, hil]
      have hnn₀ : g₀.lock = none := by
        rw [hnn] at hk
        by_contra hne
        obtain ⟨l, hl⟩ := ne_none_iff_exists'.mp hne
        obtain ⟨l', hl', -⟩ := hk l hl
        cases hl'
      rw [hnn₀]
      exact .of_none _
  | jump p hm hla hhg =>
    obtain ⟨-, hln, -⟩ := h
    refine ⟨fun co hco => ?_, hln, .inr ?_⟩
    · cases hco
      exact .startRound _ _ _ _
    · -- the driver has no lock, or it would not have jumped
      have hnn : g₀.lock = none := by
        by_contra hne
        obtain ⟨l, hl⟩ := ne_none_iff_exists'.mp hne
        obtain ⟨co, hco, hld⟩ := bind_eq_some_iff.mp hl
        exact (hc co hco (ne_none_iff_exists'.mpr ⟨l, hld⟩)).1 p hm
          ⟨hla, hhg⟩
      rw [hnn]
      exact .of_none _
  | accept _ _ _ co _ _ _ _ _ _ _ hac hok | propose _ _ co _ _ _ _ _ hac hok =>
    exact h.coordinator hac ((h.1 co hac).submitProposal hok) rfl rfl
  | vote _ _ _ co _ _ hac hok =>
    exact h.coordinator hac ((h.1 co hac).submitVote hok) rfl rfl
  | castPrevote co co' block v _ hac _ _ _ _ hok =>
    exact h.coordinator hac ((h.1 co hac).submitVote (p := .prevote) hok) rfl rfl
  | castPrecommit co co' block v _ hac _ _ _ _ hok =>
    exact h.coordinator hac ((h.1 co hac).submitVote (p := .precommit) hok) rfl rfl
  | timeout _ co hac hmc hft =>
    refine h.coordinator hac ((h.1 co hac).fireTimeout fun hld => ?_) rfl rfl
    -- a lock is held since before the micro-step
    cases hco₀ : g₀.engine.coordinator with
    | none =>
      rw [hft, ensureCoordinator, hco₀] at hac
      obtain rfl := some.inj hac
      exact absurd rfl hld
    | some co₀ =>
      rw [hft, ensureCoordinator_active hco₀, hco₀] at hac
      obtain rfl := some.inj hac
      exact (hc co₀ hco₀ hld).2 hmc
  | harvest => exact h.commit rfl rfl
  | adopt _ bytes block cert e' requested _ _ hok =>
    obtain rfl := adoptSyncedBlock_eq hok
    exact h.commit rfl rfl

lemma microStep_lockSince (hc : Calm c g m) (h : g.LockBehind) :
    LockSince g (g.microStep c m) :=
  microStep_keeps (P := LockSince g) ⟨h, Nat.le_refl _, .inr (.refl _)⟩
    fun _ _ ih hac => ih.act hc hac

lemma runMicro_lockSince (hc : Admitted c (Calm c) g ms) (h : g.LockBehind) :
    LockSince g (g.runMicro c ms) := by
  induction ms generalizing g with
  | nil => exact ⟨h, Nat.le_refl _, .inr (.refl _)⟩
  | cons _ _ ih =>
    obtain ⟨hbeh, hlen, hkp⟩ := microStep_lockSince hc.1 h
    obtain ⟨hbeh', hlen', hkp'⟩ := ih hc.2 hbeh
    refine ⟨hbeh', Nat.le_trans hlen hlen', ?_⟩
    rcases hkp with hlt | hkee
    · exact .inl (Nat.lt_of_lt_of_le hlt hlen')
    · rcases hkp' with hlt' | hkee'
      · exact .inl (Nat.lt_of_le_of_lt hlen hlt')
      · exact .inr (hkee.trans hkee')

lemma Admitted.append {ok : BftGossip → Micro → Prop} {ns : List Micro}
    (h : Admitted c ok g (ms ++ ns)) : Admitted c ok g ms ∧ Admitted c ok (g.runMicro c ms) ns := by
  induction ms generalizing g with
  | nil => exact ⟨trivial, h⟩
  | cons _ _ ih =>
    obtain ⟨hms, hns⟩ := ih h.2
    exact ⟨⟨h.1, hms⟩, hns⟩

/-- In a calm run a lock is kept or replaced by a later one until a block is
committed. -/
theorem lock_kept (config : BftConfig) (head : Block) (seed : Arr 32) (ms ns : List Micro)
    (hcalm : Admitted c (Calm c) (.new (.fresh c config head seed)) (ms ++ ns))
    (hg : g = (BftGossip.new (.fresh c config head seed)).runMicro c ms)
    (hhead : (g.runMicro c ns).harvested = g.harvested) :
    KeepsLock g.lock (g.runMicro c ns).lock := by
  obtain ⟨hms, hns⟩ := hcalm.append
  have hsr : LockBehind (.new (.fresh c config head seed)) := fun co hco => by cases hco
  have hb := (runMicro_lockSince hms hsr).1
  rw [← hg] at hns hb
  rcases (runMicro_lockSince hns hb).2.2 with hlt | hk
  · grind
  · exact hk

/-! ### A locked follower

The follower accepts the leader's proposal for height 8, round 0, and its
own PRE-VOTE makes the quorum. -/

instance (c : Crypto) (g : BftGossip) (m : Micro) : Decidable (Calm c g m) :=
  have : Decidable (m = .timeout) :=
    match m with
    | .timeout => isTrue rfl
    | .recv _ _ | .drive _ | .stageTxs _ => isFalse (by simp)
  have : Decidable (∀ p, m.message c = some (.proposal p) → ¬ JumpsRound g.engine p) :=
    match h : m.message c with
    | some (.proposal p) => decidable_of_iff (¬ JumpsRound g.engine p) (by simp)
    | some (.prevote _) | some (.precommit _) | some (.blockRequest _) | some (.blockResponse _ _)
    | none => isTrue (by simp)
  have : ∀ co : RoundCoordinator, Decidable (co.locked ≠ none) := fun co =>
    decidable_of_iff (co.locked.isSome = true) (by simp [Option.isSome_iff_ne_none])
  @decidableForallMemOption _ _ (fun _ => inferInstance) g.engine.coordinator

def lockingRun : List Micro :=
  [.recv none (BftMessage.proposal (proposalAt 8)).encode, .drive none]

def lockedDriver : BftGossip :=
  (BftGossip.new (.fresh .reference followerConfig (referenceHead followerConfig 7)
    followerConfig.initialSeed)).runMicro .reference lockingRun

theorem lock_kept_timeout : lockedDriver.lock.isSome ∧
      KeepsLock lockedDriver.lock (lockedDriver.runMicro .reference [.timeout]).lock :=
  ⟨by decide +kernel, lock_kept followerConfig
    (referenceHead followerConfig 7) followerConfig.initialSeed lockingRun [.timeout]
    (by decide +kernel) rfl (by decide +kernel)⟩

def nextProposal : Proposal :=
  let proof := LeaderProof.produce .reference (referenceVrfSk 1) 8 1
    followerConfig.initialSeed
  let block := lockedDriver.engine.reconstruct .reference none 8 proof (Arr.zero 20) .empty
  { height := 8, round := 1, blockHash := block.hash .reference, leaderProof := proof
    coinbase := Arr.zero 20, bodyBytes := BlockBody.empty.encode }

/-- The genuine proposal of round 1 takes the follower's lock of round 0
away. -/
theorem lock_dropped_by_proposal : lockedDriver.lock.isSome ∧ (lockedDriver.runMicro .reference
        [.recv none (BftMessage.proposal nextProposal).encode]).lock = none ∧
      (lockedDriver.runMicro .reference
        [.recv none (BftMessage.proposal nextProposal).encode]).engine.currentRoundState =
          some (8, 1, .prevoting) ∧ (lockedDriver.runMicro .reference
        [.recv none (BftMessage.proposal nextProposal).encode]).harvested = [] := by
  decide +kernel

end BftGossip

end Aii.Bft
