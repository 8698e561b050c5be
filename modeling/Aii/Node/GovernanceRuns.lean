/-
Aii.Node.GovernanceRuns — histories of governance calls
(`aii-node/src/{governance,staking}.rs`).

`GovStep` lists what a call can write; every invariant goes through that
list.
-/
import Aii.Common.Runs
import Aii.Node.Governance

namespace Aii.Node

open Common Governance List UInt64

inductive GovOp where
  | bond (addr : Address) (delta : U256)
  | beginUnbond (addr : Address) (unbondingPeriod : UInt64)
  | withdraw (addr : Address)
  | propose (proposer : Address) (title : Bytes) (votingEndsAt : UInt64)
  | castVote (id : UInt64) (voter : Address) (support : Bool)
  | tally (id : UInt64)

structure GovCall where
  blockHeight : UInt64
  op : GovOp

open GovCall

abbrev NonDecreasing (calls : List GovCall) : Prop :=
  calls.Pairwise fun c d => c.blockHeight ≤ d.blockHeight

inductive GovAnswer where
  | done
  | withdrawn (amount : Option U256)
  | proposed (id : UInt64)
  | voted (vote : GovVote)
  | tallied (id : UInt64) (status : ProposalStatus)
  | failed (msg : String)

def GovCall.exec (b : Backend) (call : GovCall) : Backend × GovAnswer :=
  match call.op with
  | .bond addr delta => (StakeTable.bond b addr delta, .done)
  | .beginUnbond addr period =>
    match StakeTable.beginUnbond b addr call.blockHeight period with
    | .error e => (b, .failed e)
    | .ok b' => (b', .done)
  | .withdraw addr =>
    let out := StakeTable.withdraw b addr call.blockHeight
    (out.1, .withdrawn out.2)
  | .propose proposer title votingEndsAt =>
    let out := propose b proposer title votingEndsAt
    (out.1, .proposed out.2)
  | .castVote id voter support =>
    match castVote b id voter support call.blockHeight with
    | .error e => (b, .failed e)
    | .ok (b', vote) => (b', .voted vote)
  | .tally id =>
    match tally b id call.blockHeight with
    | .error e => (b, .failed e)
    | .ok (b', status) => (b', .tallied id status)

/-- The store, the height of the last call and the answers so far. -/
structure GovState where
  store : Backend
  height : UInt64
  answers : List GovAnswer

open GovState

namespace GovState

def start (b : Backend) : GovState := ⟨b, 0, []⟩

def step (s : GovState) (call : GovCall) : GovState :=
  let out := call.exec s.store
  ⟨out.1, call.blockHeight, s.answers ++ [out.2]⟩

def after (b : Backend) (calls : List GovCall) : GovState := calls.foldl step (start b)

def ids (s : GovState) : List UInt64 :=
  s.answers.filterMap fun
    | .proposed id => some id
    | _ => none

end GovState

/-- The last vote of `voter` on proposal `id` that was accepted. -/
def lastVote (answers : List GovAnswer) (id : UInt64) (voter : Address) : Option GovVote :=
  answers.reverse.findSome? fun
    | .voted vote => if vote.proposalId = id ∧ vote.voter = voter then some vote else none
    | _ => none

/-- Nothing of the governance store is there yet; the stakes may be. -/
def NoRecords (b : Backend) : Prop :=
  ∀ f : Family, f ≠ .stake → ∀ cf k, f.Key cf k → b.get cf k = none

lemma noRecords_empty : NoRecords Backend.empty := by
  intro f _ cf k _
  rfl

/-- An answer that announces neither a proposal nor a vote. -/
def GovAnswer.Quiet : GovAnswer → Prop
  | .proposed _ => False
  | .voted _ => False
  | _ => True

/-- What a call at `height` does to the store `b`. -/
inductive GovStep (b : Backend) (height : UInt64) : GovOp → Backend → GovAnswer → Prop
  | bond (addr : Address) (delta : U256) :
      GovStep b height (.bond addr delta) (StakeTable.bond b addr delta) .done
  | beginUnbond (addr : Address) (period : UInt64) (prev : StakeRecord)
      (found : StakeTable.get b addr = some prev) :
      GovStep b height (.beginUnbond addr period)
        (StakeTable.putRecord b addr prev.amountWei (satAdd64 height period)) .done
  | sweep (addr : Address) (rec : StakeRecord) (found : StakeTable.get b addr = some rec)
      (due : ¬ (rec.unbondAt = 0 ∨ height < rec.unbondAt)) :
      GovStep b height (.withdraw addr) (b.delete .metaCf (StakeTable.key addr))
        (.withdrawn (some rec.amountWei))
  | propose (proposer : Address) (title : Bytes) (ends : UInt64) :
      GovStep b height (.propose proposer title ends)
        (b.put .metaCf (propKey (nextId b))
          (encodeProposal ⟨nextId b, title, ends, .pending, proposer⟩))
        (.proposed (nextId b))
  | vote (id : UInt64) (voter : Address) (support : Bool) (p : GovProposal) (stake : StakeRecord)
      (found : get b id = some p) (isOpen : height < p.votingEndsAt)
      (staked : StakeTable.get b voter = some stake) (bonded : stake.isBonded = true) :
      GovStep b height (.castVote id voter support)
        (b.put .metaCf (voteKey id voter) (encodeVote ⟨id, voter, support, stake.amountWei⟩))
        (.voted ⟨id, voter, support, stake.amountWei⟩)
  | finish (id : UInt64) (p : GovProposal) (found : get b id = some p)
      (pending : p.status = .pending) (ended : p.votingEndsAt ≤ height) :
      GovStep b height (.tally id) (finish b id p) (.tallied id (finalStatus b id))
  | idle (op : GovOp) (answer : GovAnswer) (quiet : answer.Quiet) : GovStep b height op b answer

lemma ProposalStatus.eq_pending {status : ProposalStatus}
    (h : ¬ (status = .passed ∨ status = .rejected ∨ status = .executed)) : status = .pending := by
  cases status <;> simp_all

lemma GovCall.exec_step (b : Backend) (call : GovCall) :
    GovStep b call.blockHeight call.op (call.exec b).1 (call.exec b).2 := by
  obtain ⟨-, op⟩ := call
  cases op with
  | bond addr delta => exact .bond addr delta
  | beginUnbond addr period =>
    simp [exec, StakeTable.beginUnbond]
    cases hg : StakeTable.get b addr with
    | none => exact .idle _ _ trivial
    | some prev => exact .beginUnbond addr period prev hg
  | withdraw addr =>
    simp [exec, StakeTable.withdraw]
    cases hg : StakeTable.get b addr with
    | none => exact .idle _ _ trivial
    | some rec =>
      dsimp only
      split_ifs with hd
      · exact .idle _ _ trivial
      · exact .sweep addr rec hg hd
  | propose proposer title ends => exact .propose proposer title ends
  | castVote id voter support =>
    simp [exec, castVote]
    cases hg : get b id with
    | none => exact .idle _ _ trivial
    | some p =>
      dsimp only
      split_ifs with hc
      · exact .idle _ _ trivial
      cases hsk : StakeTable.get b voter with
      | none => exact .idle _ _ trivial
      | some stake =>
        dsimp only
        split_ifs with hbn
        · exact .idle _ _ trivial
        · exact .vote id voter support p stake hg (UInt64.not_le.mp hc) hsk
            (by simpa using hbn)
  | tally id =>
    simp [exec, tally]
    cases hg : get b id with
    | none => exact .idle _ _ trivial
    | some p =>
      dsimp only
      split_ifs with hdn hoe
      · exact .idle _ _ trivial
      · exact .idle _ _ trivial
      · exact .finish id p hg (ProposalStatus.eq_pending hdn) (UInt64.not_lt.mp hoe)

/-- What a call does to the three families: calls on the stakes, and calls
that change nothing, are alike here. -/
inductive GovEffect (b : Backend) (height : UInt64) : Backend → GovAnswer → Prop
  | quiet (b' : Backend) (answer : GovAnswer) (quiet : answer.Quiet)
      (frame : ∀ f : Family, f ≠ .stake → Backend.AgreeOn f.Key b' b) :
      GovEffect b height b' answer
  | propose (proposer : Address) (title : Bytes) (ends : UInt64) :
      GovEffect b height
        (b.put .metaCf (propKey (nextId b))
          (encodeProposal ⟨nextId b, title, ends, .pending, proposer⟩))
        (.proposed (nextId b))
  | vote (vote : GovVote) (p : GovProposal) (found : get b vote.proposalId = some p)
      (isOpen : height < p.votingEndsAt) :
      GovEffect b height
        (b.put .metaCf (voteKey vote.proposalId vote.voter) (encodeVote vote)) (.voted vote)
  | finish (id : UInt64) (p : GovProposal) (found : get b id = some p)
      (pending : p.status = .pending) (ended : p.votingEndsAt ≤ height) :
      GovEffect b height (finish b id p) (.tallied id (finalStatus b id))

variable {b b' : Backend} {height id : UInt64} {op : GovOp} {answer : GovAnswer}

lemma GovStep.effect (h : GovStep b height op b' answer) : GovEffect b height b' answer := by
  cases h with
  | bond addr | beginUnbond addr =>
    exact .quiet _ _ trivial fun f hf => agree_put (stakeKey_family addr) hf
  | sweep addr =>
    exact .quiet _ _ trivial fun f hf => agree_delete (stakeKey_family addr) hf
  | propose proposer title ends => exact .propose proposer title ends
  | vote id voter support p stake found isOpen =>
    exact .vote ⟨id, voter, support, stake.amountWei⟩ p found isOpen
  | finish id p found pending ended => exact .finish id p found pending ended
  | idle _ _ quiet => exact .quiet _ _ quiet fun f _ => .refl b

lemma GovState.step_effect (s : GovState) (call : GovCall) :
    GovEffect s.store call.blockHeight (call.exec s.store).1 (call.exec s.store).2 :=
  (call.exec_step s.store).effect

/-! ## Ids -/

/-- The id of proposal number `i`, counted from zero. -/
def idOf (i : Nat) : UInt64 := UInt64.ofNat (min (i + 1) (2 ^ 64))

lemma idOf_toNat (i : Nat) : (idOf i).toNat = min (i + 1) (2 ^ 64) % 2 ^ 64 := toNat_ofNat'

/-- The ids on record are the ones handed out, in the order of `idOf`. -/
structure Issued (s : GovState) : Prop where
  present : ∀ id, (s.store.get .metaCf (propKey id)).isSome ↔ id ∈ s.ids
  ids_eq : s.ids = (List.range s.ids.length).map idOf

lemma Issued.start {b : Backend} (h : NoRecords b) : Issued (.start b) := by
  refine ⟨fun id => ?_, rfl⟩
  have hnn := h .prop (by decide) _ _ (propKey_family id)
  simp [GovState.start, GovState.ids, hnn]

lemma Issued.nextId_eq {s : GovState} (h : Issued s) : nextId s.store = idOf s.ids.length := by
  obtain ⟨m, hnx, hle, hmm⟩ := nextId_spec s.store
  have hid : ∀ id, (s.store.get .metaCf (propKey id)).isSome ↔ ∃ i < s.ids.length, idOf i = id := by
    intro id
    rw [h.present, h.ids_eq]
    simp
  have hml := m.toNat_lt
  -- The largest id is the number of proposals, or the largest word.
  have hm : m.toNat = min s.ids.length (2 ^ 64 - 1) := by
    refine le_antisymm ?_ ?_
    · rcases hmm with rfl | hmm
      · simp
      · obtain ⟨i, hi, rfl⟩ := (hid m).mp hmm
        rw [idOf_toNat] at hml ⊢
        omega
    · rcases Nat.eq_zero_or_pos s.ids.length with hzr | hp
      · omega
      · have hlast := hle (idOf (min s.ids.length (2 ^ 64 - 1) - 1))
          ((hid _).mpr ⟨_, by omega, rfl⟩)
        rw [le_iff_toNat_le, idOf_toNat] at hlast
        omega
  rw [hnx]
  refine UInt64.toNat_inj.mp ?_
  rw [UInt64.toNat_add, hm, idOf_toNat]
  change (min s.ids.length (2 ^ 64 - 1) + 1) % 2 ^ 64 = _
  omega

lemma GovEffect.present {b b' : Backend} {height : UInt64} {answer : GovAnswer}
    (h : GovEffect b height b' answer) (id : UInt64) : (b'.get .metaCf (propKey id)).isSome ↔
      (b.get .metaCf (propKey id)).isSome ∨ answer = .proposed id := by
  cases h with
  | quiet _ _ _ frame =>
    rw [frame .prop (by decide) _ _ (propKey_family id)]
    cases answer <;> simp_all [GovAnswer.Quiet]
  | propose =>
    by_cases hid : nextId b = id
    · subst hid
      simp
    · rw [Backend.get_put_ne fun _ h => hid (propKey_inj h).symm]
      simp [hid]
  | vote =>
    rw [agree_put (voteKey_family _ _) (by decide) _ _ (propKey_family id)]
    simp
  | finish id' _ found =>
    have ho : (b.get .metaCf (propKey id')).isSome := by
      obtain ⟨_, hbt, -⟩ := Option.bind_eq_some_iff.mp found
      rw [hbt]
      rfl
    rw [Governance.finish, agree_put (tallyKey_family _) (by decide) _ _ (propKey_family id)]
    by_cases hid : id' = id
    · subst hid
      simp [ho]
    · rw [Backend.get_put_ne fun _ h => hid (propKey_inj h).symm]
      simp

lemma GovState.ids_step (s : GovState) (call : GovCall) :
    (s.step call).ids = s.ids ++ (match (call.exec s.store).2 with
      | .proposed id => [id]
      | _ => []) := by
  simp [ids, step, filterMap_append]
  cases (call.exec s.store).2 <;> rfl

lemma Issued.step {s : GovState} (h : Issued s) (call : GovCall) : Issued (s.step call) := by
  have hi := s.ids_step call
  have he := s.step_effect call
  have hp : ∀ id, ((s.step call).store.get .metaCf (propKey id)).isSome ↔
      id ∈ s.ids ∨ (call.exec s.store).2 = .proposed id := by
    intro id
    rw [← h.present id]
    exact he.present id
  generalize (call.exec s.store).1 = b', (call.exec s.store).2 = answer at he hi hp
  cases he with
  | propose =>
    refine ⟨fun id => ?_, ?_⟩
    · rw [hp, hi]
      simp [eq_comm]
    · rw [hi, length_append, length_singleton, range_succ, map_append, ← h.ids_eq, h.nextId_eq]
      rfl
  | quiet =>
    have hsm : (s.step call).ids = s.ids := by
      rw [hi]
      cases answer <;> simp_all [GovAnswer.Quiet]
    refine ⟨fun id => ?_, hsm ▸ h.ids_eq⟩
    rw [hp, hsm]
    cases answer <;> simp_all [GovAnswer.Quiet]
  | vote =>
    rw [append_nil] at hi
    refine ⟨fun id => ?_, hi ▸ h.ids_eq⟩
    rw [hp, hi]
    simp
  | finish =>
    rw [append_nil] at hi
    refine ⟨fun id' => ?_, hi ▸ h.ids_eq⟩
    rw [hp, hi]
    simp

section Votes

def Voted (b : Backend) (answers : List GovAnswer) : Prop :=
  ∀ id voter, b.get .metaCf (voteKey id voter) = (lastVote answers id voter).map encodeVote

variable {b b' : Backend} {answers : List GovAnswer} {answer : GovAnswer} {id : UInt64}
  {vote : GovVote}

lemma lastVote_concat (answers : List GovAnswer) (answer : GovAnswer) (id : UInt64)
    (voter : Address) :
    lastVote (answers ++ [answer]) id voter = match answer with
      | .voted vote =>
        if vote.proposalId = id ∧ vote.voter = voter then some vote
        else lastVote answers id voter
      | _ => lastVote answers id voter := by
  rw [lastVote, reverse_append, reverse_singleton, singleton_append, findSome?_cons]
  cases answer with
  | voted =>
    dsimp only
    split_ifs <;> rfl
  | _ => rfl

lemma lastVote_eq_some {voter : Address} (h : lastVote answers id voter = some vote) :
    .voted vote ∈ answers ∧ vote.proposalId = id ∧ vote.voter = voter := by
  obtain ⟨answer, hm, han⟩ := exists_of_findSome?_eq_some h
  cases answer with
  | voted => grind
  | _ => cases han

lemma Voted.of_agree (h : Voted b answers) (han : ∀ vote, answer ≠ .voted vote)
    (hfr : Backend.AgreeOn Family.vote.Key b' b) : Voted b' (answers ++ [answer]) := by
  intro id voter
  rw [hfr _ _ (voteKey_family id voter), h id voter, lastVote_concat]
  cases answer with
  | voted vote => exact absurd rfl (han vote)
  | _ => rfl

lemma Voted.effect {height : UInt64} (h : Voted b answers)
    (he : GovEffect b height b' answer) : Voted b' (answers ++ [answer]) := by
  cases he with
  | quiet _ _ quiet frame =>
    refine h.of_agree ?_ (frame .vote (by decide))
    rintro _ rfl
    exact quiet
  | propose => exact h.of_agree nofun (agree_put (propKey_family _) (by decide))
  | vote =>
    intro id voter
    rw [lastVote_concat]
    dsimp only
    split_ifs with hsm
    · simp_all
    · rw [Backend.get_put_ne, h id voter]
      intro _ heq
      obtain ⟨rfl, rfl⟩ := voteKey_inj heq
      exact hsm ⟨rfl, rfl⟩
  | finish => exact h.of_agree nofun (finish_agree (by decide) (by decide))

lemma Voted.mem_votesOn (h : Voted b answers) :
    vote ∈ votesOn b id ↔ lastVote answers id vote.voter = some vote := by
  rw [Governance.mem_votesOn, voteAt, h]
  cases hlast : lastVote answers id vote.voter with
  | none => simp
  | some =>
    obtain ⟨-, rfl, hvr⟩ := lastVote_eq_some hlast
    rw [Option.map_some, Option.bind_some, ← hvr, decodeVote_encodeVote]

end Votes

/-! ## The three families stay linked -/

structure GovOk (s : GovState) : Prop where
  /-- Only proposals that can be read are voted on. -/
  known : ∀ vote, .voted vote ∈ s.answers → get s.store vote.proposalId ≠ none
  /-- A proposal is stored under its id. -/
  named : ∀ id p, get s.store id = some p → p.id = id
  /-- A proposal that is no longer pending is past its window. -/
  closed : ∀ id p, get s.store id = some p → p.status ≠ .pending → p.votingEndsAt ≤ s.height
  /-- The count is cached when the proposal is decided, and not before. -/
  cached : ∀ id p, get s.store id = some p → tallyOf s.store id =
      if p.status = .pending then none else some (countVotes (votesOn s.store id))
  uncached : ∀ id, get s.store id = none → tallyOf s.store id = none

lemma GovOk.start (h : NoRecords b) : GovOk (.start b) := by
  have hg : ∀ id, get b id = none := by
    intro id
    rw [Governance.get, h .prop (by decide) _ _ (propKey_family id)]
    rfl
  have hty : ∀ id, tallyOf b id = none := by
    intro id
    rw [tallyOf, h .tally (by decide) _ _ (tallyKey_family id)]
    rfl
  constructor
  · intro _ hvt
    cases hvt
  · intro id p hp
    cases (hg id).symm.trans hp
  · intro id p hp
    cases (hg id).symm.trans hp
  · intro id p hp
    cases (hg id).symm.trans hp
  · exact fun id _ => hty id

section Step

variable {s : GovState} {b' : Backend} {height : UInt64} {answer : GovAnswer} {p : GovProposal}
  {id : UInt64}

section Quiet

variable (h : GovOk s) (hhg : s.height ≤ height)

include h hhg

lemma GovOk.quiet (hq : answer.Quiet)
    (hfr : ∀ f : Family, f ≠ .stake → Backend.AgreeOn f.Key b' s.store) :
    GovOk ⟨b', height, s.answers ++ [answer]⟩ := by
  have hg := get_congr (hfr .prop (by decide))
  have hvo := votesOn_agree (hfr .vote (by decide))
  have hty := tallyOf_congr (hfr .tally (by decide))
  have han : ∀ vote, answer ≠ .voted vote := by
    rintro _ rfl
    exact hq
  constructor
  · intro vote hvt
    rw [hg]
    rcases mem_append.mp hvt with hvt | hvt
    · exact h.known vote hvt
    · exact absurd (mem_singleton.mp hvt).symm (han vote)
  · intro id p hp
    exact h.named id p ((hg id).symm.trans hp)
  · intro id p hp hs
    exact UInt64.le_trans (h.closed id p ((hg id).symm.trans hp) hs) hhg
  · intro id p hp
    rw [hty, hvo]
    exact h.cached id p ((hg id).symm.trans hp)
  · intro id hp
    exact (hty id).trans (h.uncached id ((hg id).symm.trans hp))

lemma GovOk.propose (hfe : s.store.get .metaCf (propKey (nextId s.store)) = none)
    (proposer : Address) (title : Bytes)
    (ends : UInt64) : GovOk ⟨s.store.put .metaCf (propKey (nextId s.store))
      (encodeProposal ⟨nextId s.store, title, ends, .pending, proposer⟩), height,
      s.answers ++ [.proposed (nextId s.store)]⟩ := by
  have hnn : get s.store (nextId s.store) = none := by
    rw [Governance.get, hfe]
    rfl
  generalize nextId s.store = new at hfe hnn
  have hag {g : Family} (hg : g ≠ .prop) := agree_put (b := s.store) (propKey_family new) hg
    (v := encodeProposal ⟨new, title, ends, .pending, proposer⟩)
  have hty := tallyOf_congr (hag (by decide))
  have hvo := votesOn_agree (hag (by decide))
  have hn : ∀ p, decodeProposal (encodeProposal ⟨new, title, ends, .pending, proposer⟩) =
      some p → p.id = new ∧ p.status = .pending := by
    intro p hp
    rw [decodeProposal_encodeProposal] at hp
    split_ifs at hp
    cases hp
    exact ⟨rfl, rfl⟩
  constructor
  · intro vote hvt
    have ho : .voted vote ∈ s.answers := by simpa using hvt
    rw [get_put_prop_ne]
    · exact h.known vote ho
    · rintro rfl
      exact h.known vote ho hnn
  · intro id p hp
    by_cases hid : id = new
    · subst hid
      rw [get_put_prop_self] at hp
      exact (hn p hp).1
    · rw [get_put_prop_ne _ hid] at hp
      exact h.named id p hp
  · intro id p hp hs
    dsimp only at hp
    by_cases hid : id = new
    · subst hid
      rw [get_put_prop_self] at hp
      exact absurd (hn p hp).2 hs
    · rw [get_put_prop_ne _ hid] at hp
      exact UInt64.le_trans (h.closed id p hp hs) hhg
  · intro id p hp
    rw [hty, hvo]
    by_cases hid : id = new
    · subst hid
      rw [get_put_prop_self] at hp
      rw [if_pos (hn p hp).2, h.uncached id hnn]
    · rw [get_put_prop_ne _ hid] at hp
      exact h.cached id p hp
  · intro id hp
    dsimp only at hp ⊢
    rw [hty]
    by_cases hid : id = new
    · subst hid
      exact h.uncached id hnn
    · rw [get_put_prop_ne _ hid] at hp
      exact h.uncached id hp

lemma GovOk.vote {vote : GovVote} (found : get s.store vote.proposalId = some p)
    (isOpen : height < p.votingEndsAt) :
    GovOk ⟨s.store.put .metaCf (voteKey vote.proposalId vote.voter) (encodeVote vote), height,
      s.answers ++ [.voted vote]⟩ := by
  have hag {g : Family} (hg : g ≠ .vote) := agree_put (b := s.store)
    (voteKey_family vote.proposalId vote.voter) hg (v := encodeVote vote)
  have hg := get_congr (hag (by decide))
  have hty := tallyOf_congr (hag (by decide))
  have hpg : p.status = .pending := by
    by_contra hs
    have hc := UInt64.le_trans (h.closed _ p found hs) hhg
    exact UInt64.not_lt.mpr hc isOpen
  constructor
  · intro other hoh
    rw [hg]
    rcases mem_append.mp hoh with hoh | hoh
    · exact h.known other hoh
    · grind
  · intro id q hq
    exact h.named id q ((hg id).symm.trans hq)
  · intro id q hq hs
    exact UInt64.le_trans (h.closed id q ((hg id).symm.trans hq) hs) hhg
  · intro id q hq
    rw [hg] at hq
    rw [hty, h.cached id q hq]
    by_cases hid : id = vote.proposalId
    · grind
    · rw [votesOn_put_vote_ne _ _ hid]
  · intro id hnn
    exact (hty id).trans (h.uncached id ((hg id).symm.trans hnn))

lemma GovOk.finish (found : get s.store id = some p) (ended : p.votingEndsAt ≤ height) :
    GovOk ⟨finish s.store id p, height, s.answers ++ [.tallied id (finalStatus s.store id)]⟩ := by
  have hvo : ∀ id', votesOn (Governance.finish s.store id p) id' = votesOn s.store id' :=
    votesOn_agree (finish_agree (by decide) (by decide))
  have hfn : finalStatus s.store id ≠ .pending := by
    unfold finalStatus
    split_ifs <;> nofun
  have hg : ∀ id' q, get (Governance.finish s.store id p) id' = some q →
      (id' = id ∧ q = { p with status := finalStatus s.store id }) ∨
        (id' ≠ id ∧ get s.store id' = some q) := by
    intro id' q hq
    by_cases hid : id' = id
    · subst hid
      rw [get_finish_self found] at hq
      exact .inl ⟨rfl, (Option.some.inj hq).symm⟩
    · rw [get_finish_ne hid] at hq
      exact .inr ⟨hid, hq⟩
  constructor
  · intro vote hvt
    have ho : .voted vote ∈ s.answers := by simpa using hvt
    by_cases hid : vote.proposalId = id
    · rw [hid, get_finish_self found]
      nofun
    · rw [get_finish_ne hid]
      exact h.known vote ho
  · intro id' q hq
    rcases hg id' q hq with ⟨rfl, rfl⟩ | ⟨-, hq⟩
    · exact h.named id' p found
    · exact h.named id' q hq
  · intro id' q hq hs
    rcases hg id' q hq with ⟨rfl, rfl⟩ | ⟨-, hq⟩
    · exact ended
    · exact UInt64.le_trans (h.closed id' q hq hs) hhg
  · intro id' q hq
    dsimp only
    rw [hvo]
    rcases hg id' q hq with ⟨rfl, rfl⟩ | ⟨hid, hq⟩
    · rw [if_neg hfn, tallyOf_finish_self]
    · rw [tallyOf_finish_ne hid, h.cached id' q hq]
  · intro id' hnn
    have hid : id' ≠ id := by
      rintro rfl
      rw [get_finish_self found] at hnn
      cases hnn
    rw [get_finish_ne hid] at hnn
    rw [tallyOf_finish_ne hid, h.uncached id' hnn]

end Quiet

section Effect

variable (h : GovOk s) (he : GovEffect s.store height b' answer) (hhg : s.height ≤ height)
  (hfe : ∀ id, answer = .proposed id → s.store.get .metaCf (propKey id) = none)

include h he hhg hfe

lemma GovOk.effect : GovOk ⟨b', height, s.answers ++ [answer]⟩ := by
  cases he with
  | quiet _ _ quiet frame => exact h.quiet hhg quiet frame
  | propose proposer title ends => exact h.propose hhg (hfe _ rfl) proposer title ends
  | vote _ _ found isOpen => exact h.vote hhg found isOpen
  | finish _ _ found _ ended => exact h.finish hhg found ended

lemma GovOk.decided_effect (hp : get s.store id = some p) (hs : p.status ≠ .pending) :
    get b' id = some p ∧ ∀ vote, answer = .voted vote → vote.proposalId ≠ id := by
  cases he with
  | quiet _ _ quiet frame =>
    refine ⟨(get_congr (frame .prop (by decide)) id).trans hp, ?_⟩
    rintro _ rfl
    exact quiet.elim
  | propose =>
    refine ⟨?_, by rintro _ ⟨⟩⟩
    rw [get_put_prop_ne, hp]
    rintro rfl
    rw [Governance.get, hfe _ rfl] at hp
    cases hp
  | vote _ _ found isOpen =>
    refine ⟨(get_congr (agree_put (voteKey_family _ _) (by decide)) id).trans hp, ?_⟩
    rintro _ ⟨⟩ rfl
    cases hp.symm.trans found
    exact UInt64.not_lt.mpr (UInt64.le_trans (h.closed _ p hp hs) hhg) isOpen
  | finish _ _ found pending =>
    refine ⟨?_, by rintro _ ⟨⟩⟩
    rw [get_finish_ne, hp]
    rintro rfl
    cases hp.symm.trans found
    exact hs pending

end Effect

end Step

/-! ## Histories -/

def GovCall.NotEarlier (s : GovState) (call : GovCall) : Prop := s.height ≤ call.blockHeight

def GovCall.NewId (s : GovState) (call : GovCall) : Prop :=
  ∀ id, (call.exec s.store).2 = .proposed id → s.store.get .metaCf (propKey id) = none

def GovCall.Fits (s : GovState) (call : GovCall) : Prop := call.NotEarlier s ∧ call.NewId s

variable {s : GovState} {calls : List GovCall}

lemma GovOk.step (h : GovOk s) {call : GovCall} (hcl : call.Fits s) : GovOk (s.step call) :=
  h.effect (s.step_effect call) hcl.1 hcl.2

lemma GovOk.run (h : GovOk s) (hr : Along GovState.step (fun s call => call.Fits s) s calls) :
    GovOk (calls.foldl GovState.step s) :=
  hr.keeps (fun _ _ hcl hs => hs.step hcl) h

lemma GovOk.decided_run (h : GovOk s)
    (hr : Along GovState.step (fun s call => call.Fits s) s calls) {p : GovProposal}
    (hp : get s.store id = some p) (hs : p.status ≠ .pending) :
    get (calls.foldl GovState.step s).store id = some p ∧
      ∃ new, (calls.foldl GovState.step s).answers = s.answers ++ new ∧
        ∀ vote, .voted vote ∈ new → vote.proposalId ≠ id := by
  induction calls generalizing s with
  | nil => exact ⟨hp, [], (append_nil _).symm, nofun⟩
  | cons call _ ih =>
    obtain ⟨hcl, hrs⟩ := hr
    obtain ⟨hkp, hvt⟩ := h.decided_effect (s.step_effect call) hcl.1 hcl.2 hp hs
    obtain ⟨he, new, hn, hvo⟩ := ih (h.step hcl) hrs hkp
    refine ⟨he, (call.exec s.store).2 :: new, ?_, ?_⟩
    · rw [foldl_cons, hn]
      simp [GovState.step]
    · intro vote hm
      rcases mem_cons.mp hm with heq | hm
      · exact hvt vote heq.symm
      · exact hvo vote hm

def GovOp.isPropose : GovOp → Bool
  | .propose .. => true
  | _ => false

lemma GovStep.isPropose (h : GovStep b height op b' answer) (han : answer = .proposed id) :
    op.isPropose = true ∧ id = nextId b := by
  subst han
  cases h with
  | propose => exact ⟨rfl, rfl⟩
  | idle _ _ quiet => exact quiet.elim

lemma GovState.ids_length_step (s : GovState) (call : GovCall) :
    (s.step call).ids.length = s.ids.length + (if call.op.isPropose then 1 else 0) := by
  rw [s.ids_step call, length_append]
  obtain ⟨height, op⟩ := call
  by_cases hop : op.isPropose = true
  · cases op <;> first | rfl | cases hop
  · have hq : ∀ id, (exec s.store ⟨height, op⟩).2 ≠ .proposed id :=
      fun id hid => hop ((exec_step s.store ⟨height, op⟩).isPropose hid).1
    rw [if_neg hop]
    cases han : (exec s.store ⟨height, op⟩).2 with
    | proposed id => exact absurd han (hq id)
    | _ => rfl

lemma Issued.newId (h : Issued s) (hcu : s.ids.length < 2 ^ 64) (call : GovCall) :
    call.NewId s := by
  intro id hid
  obtain ⟨-, rfl⟩ := (call.exec_step s.store).isPropose hid
  by_contra hso
  have hm := (h.present _).mp (Option.ne_none_iff_isSome.mp hso)
  rw [h.nextId_eq, h.ids_eq] at hm
  obtain ⟨i, hi, heq⟩ := mem_map.mp hm
  have hn := congrArg toNat heq
  rw [mem_range] at hi
  rw [length_map, length_range, idOf_toNat, idOf_toNat] at hn
  omega

lemma Issued.along (h : Issued s) (hsr : ∀ call ∈ calls, s.height ≤ call.blockHeight)
    (hht : NonDecreasing calls) (hcu : s.ids.length + calls.countP (·.op.isPropose) ≤ 2 ^ 64) :
    Along GovState.step (fun s call => call.Fits s) s calls := by
  induction calls generalizing s with
  | nil => trivial
  | cons call _ ih =>
    obtain ⟨hft, hrs⟩ := pairwise_cons.mp hht
    refine ⟨⟨hsr call mem_cons_self, ?_⟩, ih (h.step call) hft hrs ?_⟩
    · intro id hid
      have hpp := ((call.exec_step s.store).isPropose hid).1
      rw [countP_cons, if_pos hpp] at hcu
      exact h.newId (by omega) call id hid
    · rw [GovState.ids_length_step]
      rw [countP_cons] at hcu
      omega

section Histories

variable {b : Backend} {calls : List GovCall}

lemma Issued.after (h : NoRecords b) (calls : List GovCall) : Issued (.after b calls) := by
  have hr : Along GovState.step (fun _ _ => True) (.start b) calls :=
    along_iff_forall.mpr fun _ _ => trivial
  exact hr.keeps (fun _ call _ hs => hs.step call) (Issued.start h)

lemma Voted.after (h : NoRecords b) (calls : List GovCall) :
    Voted (after b calls).store (after b calls).answers := by
  have hr : Along step (fun _ _ => True) (.start b) calls := along_iff_forall.mpr fun _ _ => trivial
  have hsr : Voted (start b).store (start b).answers :=
    fun id voter => h .vote (by decide) _ _ (voteKey_family id voter)
  exact hr.keeps (P := fun s => Voted s.store s.answers)
    (fun s call _ hs => hs.effect (s.step_effect call)) hsr

lemma GovState.answers_length (s : GovState) (calls : List GovCall) :
    (calls.foldl step s).answers.length = s.answers.length + calls.length := by
  induction calls generalizing s with
  | nil => rfl
  | cons _ _ ih =>
    rw [foldl_cons, ih, length_cons]
    simp [step]
    omega

lemma GovState.ids_length (s : GovState) (calls : List GovCall) :
    (calls.foldl step s).ids.length = s.ids.length + calls.countP (·.op.isPropose) := by
  induction calls generalizing s with
  | nil => rfl
  | cons _ _ ih =>
    rw [foldl_cons, ih, ids_length_step, countP_cons]
    omega

lemma along_fits (h : NoRecords b) (hht : NonDecreasing calls)
    (hcu : calls.countP (·.op.isPropose) ≤ 2 ^ 64) :
    Along GovState.step (fun s call => call.Fits s) (.start b) calls := by
  refine (Issued.start h).along (fun _ _ => UInt64.zero_le) hht ?_
  exact (Nat.zero_add _).trans_le hcu

lemma idOf_nodup {n : Nat} (h : n ≤ 2 ^ 64) : ((range n).map idOf).Nodup := by
  refine nodup_range.map_on fun i hi j hj heq => ?_
  have hn := congrArg toNat heq
  rw [mem_range] at hi hj
  rw [idOf_toNat, idOf_toNat] at hn
  omega

/-- The statement of the whole: ids, votes, decisions and counts. -/
theorem governance_history_final (hstore : NoRecords b) (hheights : NonDecreasing calls)
    (hcount : calls.countP (·.op.isPropose) ≤ 2 ^ 64) :
    let s := GovState.after b calls
    s.ids.Nodup ∧ (∀ id, ((votesOn s.store id).Pairwise fun v w => v.voter ≠ w.voter) ∧
        ∀ vote, vote ∈ votesOn s.store id ↔ lastVote s.answers id vote.voter = some vote) ∧
      (∀ before later, calls = before ++ later →
        ∀ id p, get (GovState.after b before).store id = some p →
          p.status = .passed ∨ p.status = .rejected → get s.store id = some p ∧
            ∀ vote, .voted vote ∈ s.answers.drop before.length → vote.proposalId ≠ id) ∧
      (∀ id, (tallyOf s.store id).isSome ↔ ∃ p, get s.store id = some p ∧ p.status ≠ .pending) ∧
      ∀ id sums, tallyOf s.store id = some sums →
        sums.1.toNat = min (weightSum true (votesOn s.store id)) u256Max ∧
          sums.2.toNat = min (weightSum false (votesOn s.store id)) u256Max := by
  have hr := along_fits hstore hheights hcount
  have hok : GovOk (.after b calls) := (GovOk.start hstore).run hr
  refine ⟨?_, fun id => ⟨votesOn_distinct _ id, fun vote => (Voted.after hstore calls).mem_votesOn⟩,
    ?_, ?_, ?_⟩
  · rw [(Issued.after hstore calls).ids_eq]
    refine idOf_nodup ?_
    rw [GovState.after, GovState.ids_length]
    exact (Nat.zero_add _).trans_le hcount
  · rintro before _ rfl id p hp hst
    obtain ⟨hbf, hla⟩ := Along.of_append hr
    have hd : p.status ≠ .pending := by
      rcases hst with h | h <;> rw [h] <;> nofun
    obtain ⟨hkp, _, hn, hvo⟩ := ((GovOk.start hstore).run hbf).decided_run hla hp hd
    rw [GovState.after, foldl_append]
    refine ⟨hkp, ?_⟩
    have hl : (before.foldl GovState.step (.start b)).answers.length = before.length := by
      rw [GovState.answers_length]
      exact Nat.zero_add _
    rw [hn, drop_left' hl]
    exact hvo
  · intro id
    cases hg : get (GovState.after b calls).store id with
    | none => simp [hok.uncached id hg]
    | some p =>
      rw [hok.cached id p hg]
      by_cases hpg : p.status = .pending <;> simp [hpg]
  · intro id _ hs
    cases hg : get (GovState.after b calls).store id with
    | none => cases (hok.uncached id hg).symm.trans hs
    | some p =>
      rw [hok.cached id p hg] at hs
      split_ifs at hs
      cases hs
      exact countVotes_toNat _

end Histories

/-- Two stakers bond `amount` each and vote yes on the first proposal, which
is tallied when its window is over. -/
def twoYesVotes (amount : U256) : List GovCall :=
  [⟨1, .bond (arrOfNat 20 1) amount⟩, ⟨1, .bond (arrOfNat 20 2) amount⟩,
    ⟨1, .propose (arrOfNat 20 1) [] 5⟩, ⟨2, .castVote 1 (arrOfNat 20 1) true⟩,
    ⟨2, .castVote 1 (arrOfNat 20 2) true⟩, ⟨5, .tally 1⟩]

theorem twoYesVotes_final : (GovState.after .empty (twoYesVotes 100)).ids.Nodup ∧
      tallyOf (GovState.after .empty (twoYesVotes 100)).store 1 = some (200, 0) := by
  have h := @governance_history_final .empty (twoYesVotes 100) noRecords_empty (by decide)
    (by decide)
  exact ⟨h.1, by decide +kernel⟩

lemma idOf_not_nodup {n : Nat} (h : 2 ^ 64 < n) : ¬ ((List.range n).map idOf).Nodup := by
  intro hnp
  have hlast : idOf (2 ^ 64 - 1) = idOf (2 ^ 64) := by
    refine UInt64.toNat_inj.mp ?_
    rw [idOf_toNat, idOf_toNat]
    omega
  have heq := inj_on_of_nodup_map hnp (mem_range.mpr (by omega))
    (mem_range.mpr h) hlast
  omega

/-- With weights of `2 ^ 255` the sum is cut off, and after `2 ^ 64`
proposals an id comes twice. -/
theorem governance_limits : (∃ calls : List GovCall, NonDecreasing calls ∧
      ∃ id sums, tallyOf (GovState.after .empty calls).store id = some sums ∧
        sums.1.toNat ≠ weightSum true (votesOn (GovState.after .empty calls).store id)) ∧
      ∃ calls : List GovCall, NonDecreasing calls ∧ ¬ (GovState.after .empty calls).ids.Nodup := by
  constructor
  · exact ⟨twoYesVotes (BitVec.ofNat 256 (2 ^ 255)), by decide, 1,
      (BitVec.ofNat 256 (2 ^ 256 - 1), 0), by decide +kernel, by decide +kernel⟩
  · refine ⟨List.replicate (2 ^ 64 + 1) ⟨0, .propose (arrOfNat 20 1) [] 0⟩,
      pairwise_replicate.mpr (.inr UInt64.le_rfl), ?_⟩
    rw [(Issued.after noRecords_empty _).ids_eq]
    refine idOf_not_nodup ?_
    rw [GovState.after, GovState.ids_length, countP_replicate]
    exact lt_of_lt_of_eq (Nat.lt_succ_self _) (Nat.zero_add _).symm

end Aii.Node
