/-
Aii.Bft.OncePerSlot — what a driver sends once per height and round.

A flag remembers only the LAST slot, so the coordinator must never go back
to an earlier round.
-/
import Aii.Bft.Acts

namespace Aii.Bft

open Common Chain List BftMessage RoundCoordinator UInt32

/-- The kinds of messages that are guarded by a flag. -/
inductive SlotKind where
  | proposal
  | prevote
  | precommit
  deriving DecidableEq

def BftMessage.slot? : BftMessage → Option (SlotKind × UInt64 × UInt32)
  | .proposal p => some (.proposal, p.height, p.round)
  | .prevote v => some (.prevote, v.height, v.round)
  | .precommit v => some (.precommit, v.height, v.round)
  | _ => none

def RoundFlags.done (f : RoundFlags) : SlotKind → Option (UInt64 × UInt32)
  | .proposal => f.proposed
  | .prevote => f.prevoted
  | .precommit => f.precommitted

lemma BftMessage.slot?_eq_none {msg : BftMessage} (hvt : msg.vote? = none)
    (hpo : ∀ p, msg ≠ .proposal p) : msg.slot? = none := by
  cases msg <;> simp_all [vote?, slot?]

lemma RoundCoordinator.round_le_fireTimeout (co : RoundCoordinator) :
    co.round ≤ co.fireTimeout.round := by
  have hlt := co.round.toNat_lt
  unfold fireTimeout
  split_ifs
  · exact UInt32.le_refl _
  · rw [le_iff_toNat_le, satAdd32_toNat, toNat_one]
    omega

namespace BftGossip

variable (old : UInt64 → Prop) (past : List BftMessage)

/-- The slot is behind the driver: its height is done with, or it is a
round the coordinator has passed, or the current one with its flag set. -/
def Behind (g : BftGossip) (k : SlotKind) (h : UInt64) (r : UInt32) : Prop :=
  old h ∨ ∃ co, g.engine.coordinator = some co ∧ co.height = h ∧ r ≤ co.round ∧
    (r = co.round → g.flags.done k = some (h, r))

/-- All that was sent is behind the driver, and no two messages share a
slot. -/
structure SlotInv (g : BftGossip) : Prop where
  kept : ∀ msg, RoundFlags.Kept g.flags msg → msg ∈ past ++ g.outbox
  behind : ∀ msg ∈ past ++ g.outbox, ∀ k h r, msg.slot? = some (k, h, r) → Behind old g k h r
  unique : ∀ msg ∈ past ++ g.outbox, ∀ msg' ∈ past ++ g.outbox, ∀ slot, msg.slot? = some slot →
    msg'.slot? = some slot → msg = msg'

variable {old past} {c : Crypto} {m : Micro} {g₀ g g' : BftGossip} {k : SlotKind}
  {co : RoundCoordinator} {co' : RoundCoordinator} {msg : BftMessage}

lemma SlotInv.old_of_idle (h : SlotInv old past g) (hil : g.engine.coordinator = none)
    (hm : msg ∈ past ++ g.outbox) {height : UInt64} {r : UInt32}
    (hsl : msg.slot? = some (k, height, r)) : old height := by
  rcases h.behind msg hm k height r hsl with ho | ⟨co, hco, -⟩
  · exact ho
  · rw [hil] at hco
    cases hco

lemma SlotInv.slot_free (h : SlotInv old past g) (hco : g.engine.coordinator = some co)
    (hnx : ¬ old co.height) (hfh : g.flags.done k ≠ some (co.height, co.round)) :
    ∀ msg ∈ past ++ g.outbox, msg.slot? ≠ some (k, co.height, co.round) := by
  intro msg hm hsl
  rcases h.behind msg hm k _ _ hsl with ho | ⟨co', hco', -, -, hdn⟩
  · exact hnx ho
  · grind

/-! ## What the acts do to it -/

section Quiet

variable (h : SlotInv old past g) (hf : g'.flags = g.flags) (ho : g'.outbox = g.outbox)

include h hf ho

lemma SlotInv.move
    (hmv : ∀ co, g.engine.coordinator = some co → ∃ co', g'.engine.coordinator = some co' ∧
      co'.height = co.height ∧ co.round ≤ co'.round) : SlotInv old past g' := by
  refine ⟨?_, ?_, ?_⟩
  · rw [hf, ho]
    exact h.kept
  · rw [ho]
    intro msg hm k height r hsl
    rcases h.behind msg hm k height r hsl with hol | ⟨co, hco, hhg, hle, hdn⟩
    · exact .inl hol
    · obtain ⟨co', hco', hhg', hrn⟩ := hmv co hco
      refine .inr ⟨co', hco', hhg'.trans hhg, UInt32.le_trans hle hrn, ?_⟩
      intro hr
      rw [hf]
      exact hdn (UInt32.le_antisymm hle (hr ▸ hrn))
  · rw [ho]
    exact h.unique

lemma SlotInv.stay (hco : g.engine.coordinator = some co)
    (hco' : g'.engine.coordinator = some co') (hhg : co'.height = co.height)
    (hrn : co'.round = co.round) : SlotInv old past g' := by
  refine h.move hf ho ?_
  intro co₁ hco₁
  cases hco.symm.trans hco₁
  exact ⟨co', hco', hhg, hrn ▸ UInt32.le_refl _⟩

lemma SlotInv.frame (hco : g'.engine.coordinator = g.engine.coordinator) :
    SlotInv old past g' := by
  refine h.move hf ho ?_
  intro co hso
  exact ⟨co, hco.trans hso, rfl, UInt32.le_refl _⟩

end Quiet

lemma SlotInv.repeat (h : SlotInv old past g) (he : g'.engine = g.engine)
    (hkp : ∀ msg, RoundFlags.Kept g'.flags msg → RoundFlags.Kept g.flags msg)
    (hdn : g'.flags.done = g.flags.done) {msgs : List BftMessage}
    (ho : g'.outbox = g.outbox ++ msgs)
    (hm : ∀ msg ∈ msgs, msg.slot? = none ∨ msg ∈ past ++ g.outbox) : SlotInv old past g' := by
  have hs : ∀ msg ∈ past ++ g'.outbox, msg.slot? = none ∨ msg ∈ past ++ g.outbox := by
    intro msg hmsg
    rw [ho, ← append_assoc] at hmsg
    rcases mem_append.mp hmsg with hmsg | hmsg
    · exact .inr hmsg
    · exact hm msg hmsg
  refine ⟨?_, ?_, ?_⟩
  · intro msg hmsg
    rw [ho, ← append_assoc]
    exact mem_append_left _ (h.kept msg (hkp msg hmsg))
  · intro msg hmsg k height r hsl
    rcases hs msg hmsg with hnn | hold
    · rw [hnn] at hsl
      cases hsl
    · rw [Behind, he, hdn]
      exact h.behind msg hold k height r hsl
  · intro msg hmsg msg' hmsg' slot hsl hsl'
    rcases hs msg hmsg with hnn | hold
    · rw [hnn] at hsl
      cases hsl
    rcases hs msg' hmsg' with hnn | hold'
    · rw [hnn] at hsl'
      cases hsl'
    · exact h.unique msg hold msg' hold' slot hsl hsl'

lemma SlotInv.send (h : SlotInv old past g) (hco : g.engine.coordinator = some co)
    (hco' : g'.engine.coordinator = some co') (hhg : co'.height = co.height)
    (hrn : co'.round = co.round) (hsl : msg.slot? = some (k, co.height, co.round))
    (hfe : ∀ msg' ∈ past ++ g.outbox, msg'.slot? ≠ some (k, co.height, co.round))
    (ho : g'.outbox = g.outbox ++ [msg])
    (hkp : ∀ msg', RoundFlags.Kept g'.flags msg' → msg' = msg ∨ RoundFlags.Kept g.flags msg')
    (hst : g'.flags.done k = some (co.height, co.round))
    (hoh : ∀ k', k' ≠ k → g'.flags.done k' = g.flags.done k') : SlotInv old past g' := by
  have hs : ∀ msg' ∈ past ++ g'.outbox, msg' = msg ∨ msg' ∈ past ++ g.outbox := by grind
  refine ⟨?_, ?_, ?_⟩
  · intro msg' hmsg'
    rw [ho, ← append_assoc, mem_append, mem_singleton]
    rcases hkp msg' hmsg' with rfl | hold
    · exact .inr rfl
    · exact .inl (h.kept msg' hold)
  · intro msg' hmsg' k' height r hsl'
    rcases hs msg' hmsg' with rfl | hold
    · rw [hsl] at hsl'
      simp only [Option.some.injEq, Prod.mk.injEq] at hsl'
      obtain ⟨rfl, rfl, rfl⟩ := hsl'
      exact .inr ⟨co', hco', hhg, hrn ▸ UInt32.le_refl _, fun _ => hst⟩
    · rcases h.behind msg' hold k' height r hsl' with hold' | ⟨co₁, hco₁, rfl, hle, hdn⟩
      · exact .inl hold'
      · cases hco.symm.trans hco₁
        refine .inr ⟨co', hco', hhg, hrn ▸ hle, ?_⟩
        intro hr
        by_cases hk : k' = k
        · rw [hk, hst, hr, hrn]
        · grind
  · -- the new message is the only one in its slot
    intro msg₁ hmsg₁ msg₂ hmsg₂ slot hsl₁ hsl₂
    rcases hs msg₁ hmsg₁ with rfl | hold₁
    · rcases hs msg₂ hmsg₂ with rfl | hold₂
      · rfl
      · exact absurd (hsl₂.trans (hsl₁.symm.trans hsl)) (hfe msg₂ hold₂)
    · rcases hs msg₂ hmsg₂ with rfl | hold₂
      · exact absurd (hsl₁.trans (hsl₂.symm.trans hsl)) (hfe msg₁ hold₁)
      · exact h.unique msg₁ hold₁ msg₂ hold₂ slot hsl₁ hsl₂

lemma SlotInv.act (h₀ : SameHead g₀ g → SlotInv old past g₀) (h : SlotInv old past g)
    (ha : Act c g₀ m g g')
    (hnx : SameHead g₀ g → ∀ co, g.engine.coordinator = some co → ¬ old co.height)
    (hno : g'.harvested = g.harvested) : SlotInv old past g' := by
  cases ha with
  | sync _ _ _ novote noproposal =>
    refine h.repeat rfl (fun msg hmsg => hmsg) ?_ rfl ?_
    · funext k
      cases k <;> rfl
    · intro msg hmsg
      exact .inl (slot?_eq_none (novote msg hmsg) (noproposal msg hmsg))
  | resend _ msg kept =>
    refine h.repeat rfl (fun msg hmsg => hmsg) rfl rfl ?_
    simp only [mem_singleton, forall_eq]
    exact .inr (h.kept msg kept)
  | stage | record | prune => exact h.frame rfl rfl rfl
  | buffer _ p => cases p <;> exact h.frame rfl rfl rfl
  | ensure _ idle =>
    refine h.move rfl rfl ?_
    intro co hco
    rw [idle] at hco
    cases hco
  | jump _ _ later height_eq =>
    rw [fireTimeouts_toNat]
    refine h.move rfl rfl ?_
    intro co hco
    exact ⟨_, rfl, (height_eq co hco).symm, UInt32.le_of_lt (shouldFastForward_lt later hco)⟩
  | accept _ _ _ _ _ _ _ _ _ _ _ active ok | propose _ _ _ _ _ _ _ _ active ok =>
    obtain rfl := submitProposal_eq ok
    exact h.stay rfl rfl active rfl rfl rfl
  | vote _ _ _ _ _ _ active ok =>
    obtain ⟨hhg, hrn, -⟩ := submitVote_frame ok
    exact h.stay rfl rfl active rfl hhg hrn
  | timeout _ co active =>
    refine h.move rfl rfl ?_
    intro co₁ hco₁
    cases active.symm.trans hco₁
    exact ⟨_, rfl, (fireTimeout_frame co).1, co.round_le_fireTimeout⟩
  | announce g _ p named flags outbox active fresh same =>
    obtain ⟨co, hco, rfl⟩ := active
    obtain ⟨hhg, hrn⟩ := Prod.mk.inj named
    have hsl : (proposal p).slot? = some (.proposal, co.height, co.round) := by
      simp [slot?, hhg, hrn]
    -- a driver that was idle has sent nothing at this height
    have hfe : ∀ msg ∈ past ++ g.outbox, msg.slot? ≠ some (.proposal, co.height, co.round) := by
      rcases fresh with hil | hfg
      · intro msg hmsg hmsg'
        rw [outbox] at hmsg
        exact hnx same co hco ((h₀ same).old_of_idle hil hmsg hmsg')
      · exact h.slot_free hco (hnx same co hco) (by rw [flags]; exact hfg)
    refine h.send hco hco rfl rfl hsl hfe rfl ?_ rfl ?_
    · exact fun _ hk => kept_of_set hk (by simp [broadcast])
    · intro k hk
      cases k <;> first | rfl | exact absurd rfl hk
  | castPrevote co _ _ v _ active _ fresh _ signed ok =>
    obtain ⟨hhg, hrn, -⟩ := submitVote_frame (p := .prevote) ok
    have hsl : (prevote v).slot? = some (.prevote, co.height, co.round) := by
      rw [signed]
      rfl
    refine h.send active rfl hhg hrn hsl
      (h.slot_free active (hnx (.refl _) co active) fresh) rfl ?_ rfl ?_
    · exact fun _ hk => kept_of_set hk (by simp [broadcast])
    · intro k hk
      cases k <;> first | rfl | exact absurd rfl hk
  | castPrecommit co _ _ v _ active _ fresh _ signed ok =>
    obtain ⟨hhg, hrn, -⟩ := submitVote_frame (p := .precommit) ok
    have hsl : (precommit v).slot? = some (.precommit, co.height, co.round) := by
      rw [signed]
      rfl
    refine h.send active rfl hhg hrn hsl
      (h.slot_free active (hnx (.refl _) co active) fresh) rfl ?_ rfl ?_
    · exact fun _ hk => kept_of_set hk (by simp [broadcast])
    · intro k hk
      cases k <;> first | rfl | exact absurd rfl hk
  | harvest | adopt =>
    simp at hno

lemma SlotInv.commit {old' : UInt64 → Prop} (h : SlotInv old past g)
    (hkp : ∀ msg, RoundFlags.Kept g'.flags msg → RoundFlags.Kept g.flags msg)
    (ho : g'.outbox = g.outbox) (hol : ∀ height, old height → old' height)
    (hdn : ∀ co, g.engine.coordinator = some co → old' co.height) : SlotInv old' past g' := by
  refine ⟨?_, ?_, ?_⟩
  · intro msg hm
    rw [ho]
    exact h.kept msg (hkp msg hm)
  · rw [ho]
    intro msg hm k height r hsl
    rcases h.behind msg hm k height r hsl with hhg | ⟨co, hco, rfl, -⟩
    · exact .inl (hol height hhg)
    · exact .inl (hdn co hco)
  · rw [ho]
    exact h.unique

lemma Acts.harvested_le (h : Acts c g₀ m g g') : g.harvested.length ≤ g'.harvested.length := by
  rcases h.sameHead_or_commit with hsm | hlt
  · rw [hsm.harvested]
  · exact hlt.le

lemma harvested_le_runMicro (c : Crypto) (g : BftGossip) (ms : List Micro) :
    g.harvested.length ≤ (g.runMicro c ms).harvested.length := by
  induction ms generalizing g with
  | nil => exact le_refl _
  | cons m _ ih => exact (microStep_acts c g m).harvested_le.trans (ih (g.microStep c m))

lemma SlotInv.microStep (h : SlotInv (fun _ => False) past g)
    (hno : (g.microStep c m).harvested.length ≤ g.harvested.length) :
    SlotInv (fun _ => False) past (g.microStep c m) := by
  -- blocks are only ever added, so no act of the step adds one
  have hsp : g.harvested.length ≤ (g.microStep c m).harvested.length ∧
      ((g.microStep c m).harvested.length ≤ g.harvested.length →
        SlotInv (fun _ => False) past (g.microStep c m)) := by
    refine @microStep_induction c (fun g₀ _ => g₀.harvested.length ≤ g.harvested.length)
      (fun g' => g.harvested.length ≤ g'.harvested.length ∧
        (g'.harvested.length ≤ g.harvested.length → SlotInv (fun _ => False) past g')) g
      ?_ m (le_refl _) ⟨le_refl _, fun _ => h⟩
    rintro g₀ m g₁ g₂ hle₀ ⟨-, h₀⟩ ⟨hle₁, h₁⟩ ha
    refine ⟨hle₁.trans (Acts.harvested_le (.single ha)), ?_⟩
    intro hle₂
    rcases ha.sameHead_or_commit with hsm | hlt
    · exact SlotInv.act (fun _ => h₀ hle₀) (h₁ (hsm.harvested ▸ hle₂)) ha
        (fun _ _ _ => id) hsm.harvested
    · omega
  exact hsp.2 hno

lemma SlotInv.runMicro (h : SlotInv (fun _ => False) past g) {ms : List Micro}
    (hno : (g.runMicro c ms).harvested.length ≤ g.harvested.length) :
    SlotInv (fun _ => False) past (g.runMicro c ms) := by
  induction ms generalizing g with
  | nil => exact h
  | cons m ms ih =>
    have hft := (microStep_acts c g m).harvested_le
    have hrs := harvested_le_runMicro c (g.microStep c m) ms
    refine ih (h.microStep (hrs.trans hno)) (le_trans hno hft)

/-- Until a block is committed, a driver sends at most one message of a kind
per height and round. -/
theorem one_message_per_slot (c : Crypto) (engine : BftEngine) (events : List Event)
    (hno : ((new engine).run c events).harvested = []) :
    ∀ msg ∈ ((new engine).run c events).outbox, ∀ msg' ∈ ((new engine).run c events).outbox,
      ∀ slot, msg.slot? = some slot → msg'.slot? = some slot → msg = msg' := by
  have hsr : SlotInv (fun _ => False) [] (new engine) := by
    refine ⟨?_, nofun, nofun⟩
    rintro msg (hlast | hlast | hlast) <;> cases hlast
  rw [run_eq_runMicro] at hno ⊢
  have he := hsr.runMicro (by rw [hno]; simp)
  exact he.unique

def quietLeader : BftEngine :=
  .fresh .reference (referenceConfig followerSet 1 5)
    (referenceHead (referenceConfig followerSet 1 5) 7)
    (referenceConfig followerSet 1 5).initialSeed

def quietEvents : List Event :=
  List.replicate 3 (.tick none []) ++ [.timeout] ++ List.replicate 3 (.tick none [])

theorem one_message_per_slot_quietLeader :
    ((new quietLeader).run .reference quietEvents).outbox.length = 13 ∧
      ((new quietLeader).run .reference quietEvents).outbox.dedup.length = 4 ∧
      ∀ msg ∈ ((new quietLeader).run .reference quietEvents).outbox,
      ∀ msg' ∈ ((new quietLeader).run .reference quietEvents).outbox,
        ∀ slot, msg.slot? = some slot → msg'.slot? = some slot → msg = msg' :=
  ⟨by decide +kernel, by decide +kernel,
    one_message_per_slot .reference quietLeader quietEvents (by decide +kernel)⟩

end BftGossip

end Aii.Bft
