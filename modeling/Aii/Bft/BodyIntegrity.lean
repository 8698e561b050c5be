/-
Aii.Bft.BodyIntegrity — do committed blocks carry the body of their
header?

The block hash covers the header only, and on the block-sync path the body
is not compared with it.
-/
import Aii.Bft.ProposalAuth
import Aii.Chain.RootBinding

namespace Aii.Bft

open Common Common.Rlp Chain List

def Rooted (c : Crypto) (block : Block) : Prop :=
  transactionsRoot c block.body = block.header.transactionsRoot
deriving Decidable

def Plain (body : BlockBody) : Prop := body.ommers = [] ∧ body.withdrawals = []
deriving Decidable

def Whole (c : Crypto) (block : Block) : Prop := Rooted c block ∧ Plain block.body

namespace BftGossip

def held (g : BftGossip) : List Block := g.harvested ++ (g.engine.proposal.map (·.1)).toList

def HeldWhole (c : Crypto) (g : BftGossip) : Prop := ∀ block ∈ g.held, Whole c block

def proposedBody (c : Crypto) (g : BftGossip) (m : Micro) : Option BlockBody :=
  match m.message c with
  | some (.proposal p) =>
    if (g.requestCatchup p.height).2 then none
    else if (g.handleProposalMsg c m.oracle p).2.isOk then (decodeBlockBody p.bodyBytes).toOption
    else none
  | _ => none

def servedBlock (c : Crypto) (g : BftGossip) (m : Micro) : Option Block :=
  match m.message c with
  | some (.blockResponse bytes cert) =>
    if (g.handleBlockResponse c bytes cert).2.isOk then (Block.decode bytes).toOption.map (·.1)
    else none
  | _ => none

/-- The run condition, on the message delivered: an accepted proposal has
transactions only, and an adopted block is whole. -/
def Intact (c : Crypto) (g : BftGossip) (m : Micro) : Prop :=
  (∀ body ∈ proposedBody c g m, Plain body) ∧ ∀ block ∈ servedBlock c g m, Whole c block

instance (c : Crypto) (g : BftGossip) (m : Micro) : Decidable (Intact c g m) :=
  @instDecidableAnd _ _ (decidableForallMemOption (proposedBody c g m))
    (@decidableForallMemOption _ (Whole c)
      (fun _ => inferInstanceAs (Decidable (_ ∧ _))) (servedBlock c g m))

variable {c : Crypto} {g₀ g g' : BftGossip} {m : Micro}

lemma held_autoHarvest : (g.autoHarvest c).held = g.held := by
  unfold autoHarvest harvestLoop
  cases ht : g.engine.tryHarvestCommitted c with
  | none => rfl
  | some out =>
    obtain ⟨e, block⟩ := out
    obtain ⟨co, proof, cert, -, hpp, -, -, rfl⟩ := tryHarvestCommitted_some ht
    show (g.harvested ++ [block]) ++ [] = g.harvested ++ (g.engine.proposal.map (·.1)).toList
    rw [hpp, append_nil]
    rfl

lemma held_requestCatchup (height : UInt64) : (g.requestCatchup height).1.held = g.held := by
  unfold requestCatchup
  dsimp only
  split_ifs <;> rfl

lemma submitRemoteProposal_proposal (e : BftEngine) (block : Block) (proof : LeaderProof) :
    ((e.submitRemoteProposal c block proof).2.isOk = true ∧
        (e.submitRemoteProposal c block proof).1.proposal = some (block, proof)) ∨
      ((e.submitRemoteProposal c block proof).2.isOk = false ∧
        (e.submitRemoteProposal c block proof).1.proposal = e.proposal) := by
  have hce := BftEngine.submitRemoteProposal_cases (c := c) e block proof
  generalize e.submitRemoteProposal c block proof = out at hce ⊢
  cases hce with
  | refused =>
    obtain ⟨co', he⟩ := ensureCoordinator_frame e
    refine .inr ⟨rfl, ?_⟩
    rw [he]
  | accepted =>
    refine .inl ⟨rfl, ?_⟩
    obtain ⟨_, _, _, hfr⟩ := (BftEngine.drainPendingVotes_frame _).same
    rw [hfr]

lemma held_handleProposalMsg (ex : Option Executor) (p : Proposal) :
    ((g.handleProposalMsg c ex p).2.isOk = false ∧ (g.handleProposalMsg c ex p).1.held = g.held) ∨
    ((g.handleProposalMsg c ex p).2.isOk = true ∧ ∃ body block,
      decodeBlockBody p.bodyBytes = .ok body ∧ block.body = body ∧ Rooted c block ∧
      (g.handleProposalMsg c ex p).1.held = g.harvested ++ [block]) := by
  unfold handleProposalMsg
  cases hjm : jumpRound g.engine p.height p.round with
  | error => exact .inl ⟨rfl, rfl⟩
  | ok e =>
    have hkp : e.proposal = g.engine.proposal := by
      obtain ⟨co, rfl⟩ := jumpRound_frame hjm
      rfl
    cases hby : decodeBlockBody p.bodyBytes with
    | error => exact .inl ⟨rfl, by simp only [held, hkp]⟩
    | ok body =>
      dsimp only
      split_ifs with hhs
      · exact .inl ⟨rfl, by simp only [held, hkp]⟩
      · rcases submitRemoteProposal_proposal e
          (e.reconstruct c ex p.height p.leaderProof p.coinbase body) p.leaderProof with
          ⟨hok, hpp⟩ | ⟨hok, hpp⟩
        · refine .inr ⟨hok, body, e.reconstruct c ex p.height p.leaderProof p.coinbase body,
            rfl, rfl, rfl, ?_⟩
          simp only [held, hpp]
          rfl
        · exact .inl ⟨hok, by simp only [held, hpp, hkp]⟩

lemma held_handleBlockResponse (bytes : Bytes) (cert : PrecommitCertificate) :
    ((g.handleBlockResponse c bytes cert).2.isOk = false ∧
      (g.handleBlockResponse c bytes cert).1.held = g.held) ∨
    ((g.handleBlockResponse c bytes cert).2.isOk = true ∧ ∃ block rest,
      Block.decode bytes = .ok (block, rest) ∧
      (g.handleBlockResponse c bytes cert).1.held = g.harvested ++ [block]) := by
  unfold handleBlockResponse
  cases hd : Block.decode bytes with
  | error => exact .inl ⟨rfl, rfl⟩
  | ok out =>
    obtain ⟨block, rest⟩ := out
    dsimp only
    split_ifs with hrs
    · exact .inl ⟨rfl, rfl⟩
    · cases had : g.engine.adoptSyncedBlock c block cert with
      | error => exact .inl ⟨rfl, rfl⟩
      | ok =>
        obtain rfl := adoptSyncedBlock_eq had
        refine .inr ⟨rfl, block, rest, rfl, ?_⟩
        exact append_nil _

/-! ### Micro-steps and runs -/

lemma HeldWhole.of_same (h : HeldWhole c g) (hhl : g'.held = g.held) : HeldWhole c g' := by
  rw [HeldWhole, hhl]
  exact h

lemma HeldWhole.append_iff (h : HeldWhole c g) {block : Block}
    (hhl : g'.held = g.harvested ++ [block]) : HeldWhole c g' ↔ Whole c block := by
  have ho : ∀ b ∈ g.harvested, Whole c b := fun b hb => h b (mem_append_left _ hb)
  rw [HeldWhole, hhl, forall_mem_append, and_iff_right ho, forall_mem_singleton]

lemma HeldWhole.act (h : HeldWhole c g) (ha : Act c g₀ m g g')
    (hpo : ∀ p, m.message c ≠ some (.proposal p))
    (hr : ∀ bytes cert, m.message c ≠ some (.blockResponse bytes cert)) : HeldWhole c g' := by
  cases ha with
  | jump p msg | accept _ p _ _ _ _ _ msg => exact absurd msg (hpo p)
  | adopt _ bytes _ cert _ _ _ msg => exact absurd msg (hr bytes cert)
  | propose _ _ _ _ block _ _ built _ _ drained =>
    refine (h.append_iff (show held _ = g.harvested ++ [block] from rfl)).mpr ⟨?_, ?_⟩
    · rw [built]
      rfl
    · obtain ⟨txs, rfl⟩ := drained
      rw [built]
      exact ⟨rfl, rfl⟩
  | timeout => exact fun b hb => h b (mem_append_left _ (by simpa [held] using hb))
  | harvest _ _ block _ _ _ _ _ _ proposal =>
    refine h.of_same ?_
    show (g.harvested ++ [block]) ++ [] = g.harvested ++ (g.engine.proposal.map (·.1)).toList
    rw [proposal, append_nil]
    rfl
  | buffer _ p => cases p <;> exact h.of_same rfl
  | _ => exact h.of_same rfl

lemma intact_of_quiet (hpo : ∀ p, m.message c ≠ some (.proposal p))
    (hr : ∀ bytes cert, m.message c ≠ some (.blockResponse bytes cert)) : Intact c g m := by
  constructor
  · unfold proposedBody
    split
    next p hm => exact absurd hm (hpo p)
    · exact fun _ hb => by cases hb
  · unfold servedBlock
    split
    next bytes cert hm => exact absurd hm (hr bytes cert)
    · exact fun _ hb => by cases hb

lemma held_microStep_of_message {msg : BftMessage} (hm : m.message c = some msg) :
    (g.microStep c m).held = (g.dispatchInbound c m.oracle msg).1.held := by
  cases m with
  | recv _ bytes =>
    cases hd : BftMessage.decode c bytes with
    | error => simp [Micro.message, hd, Except.toOption] at hm
    | ok msg' =>
      obtain rfl : msg' = msg := by simpa [Micro.message, hd, Except.toOption] using hm
      simp only [microStep, recv, hd]
      exact held_autoHarvest
  | _ => cases hm

lemma microStep_proposal_iff (h : HeldWhole c g) {p : Proposal}
    (hm : m.message c = some (.proposal p)) : HeldWhole c (g.microStep c m) ↔ Intact c g m := by
  have hsv : servedBlock c g m = none := by simp [servedBlock, hm]
  have hhl := held_microStep_of_message (g := g) hm
  have hi : Intact c g m ↔ ∀ body ∈ proposedBody c g m, Plain body := by simp [Intact, hsv]
  simp only [dispatchInbound] at hhl
  by_cases hfu : (g.requestCatchup p.height).2 = true
  · have hnn : proposedBody c g m = none := by simp only [proposedBody, hm, if_pos hfu]
    rw [if_pos hfu] at hhl
    rw [hi, hnn]
    exact iff_of_true (h.of_same (hhl.trans (held_requestCatchup _))) (by simp)
  · have hsm := (requestCatchup_not_future (Bool.eq_false_iff.mpr hfu)).1
    have hby : proposedBody c g m = if (g.handleProposalMsg c m.oracle p).2.isOk then
        (decodeBlockBody p.bodyBytes).toOption else none := by
      simp only [proposedBody, hm, if_neg hfu]
    rw [if_neg hfu, hsm] at hhl
    rcases held_handleProposalMsg m.oracle p with
      ⟨hrf, hkp⟩ | ⟨ha, body, block, hd, rfl, hr, hn⟩
    · have hnn : proposedBody c g m = none := by rw [hby, hrf]; rfl
      rw [hi, hnn]
      exact iff_of_true (h.of_same (hhl.trans hkp)) (by simp)
    · have hso : proposedBody c g m = some block.body := by rw [hby, ha, hd]; rfl
      rw [hi, hso, h.append_iff (hhl.trans hn)]
      simp [Whole, hr]

lemma microStep_response_iff (h : HeldWhole c g) {bytes : Bytes} {cert : PrecommitCertificate}
    (hm : m.message c = some (.blockResponse bytes cert)) :
    HeldWhole c (g.microStep c m) ↔ Intact c g m := by
  have hpd : proposedBody c g m = none := by simp [proposedBody, hm]
  have hhl := held_microStep_of_message (g := g) hm
  have hsv : servedBlock c g m = if (g.handleBlockResponse c bytes cert).2.isOk then
      (Block.decode bytes).toOption.map (·.1) else none := by simp only [servedBlock, hm]
  have hi : Intact c g m ↔ ∀ block ∈ servedBlock c g m, Whole c block := by
    simp [Intact, hpd]
  rcases held_handleBlockResponse bytes cert with
    ⟨hrf, hsm⟩ | ⟨ha, block, rest, hd, hn⟩
  · have hnn : servedBlock c g m = none := by rw [hsv, hrf]; rfl
    rw [hi, hnn]
    exact iff_of_true (h.of_same (hhl.trans hsm)) (by simp)
  · have hso : servedBlock c g m = some block := by rw [hsv, ha, hd]; rfl
    rw [hi, hso, h.append_iff (hhl.trans hn)]
    simp

lemma microStep_heldWhole_iff (h : HeldWhole c g) (m : Micro) :
    HeldWhole c (g.microStep c m) ↔ Intact c g m := by
  by_cases hpo : ∃ p, m.message c = some (.proposal p)
  · obtain ⟨p, hm⟩ := hpo
    exact microStep_proposal_iff h hm
  · by_cases hr : ∃ bytes cert, m.message c = some (.blockResponse bytes cert)
    · obtain ⟨bytes, cert, hm⟩ := hr
      exact microStep_response_iff h hm
    · push Not at hpo hr
      exact iff_of_true (microStep_keeps h fun _ _ ih ha => ih.act ha hpo hr)
        (intact_of_quiet hpo hr)

lemma runMicro_heldWhole_iff (h : HeldWhole c g) (ms : List Micro) :
    (∀ k, HeldWhole c (g.runMicro c (ms.take k))) ↔ Admitted c (Intact c) g ms := by
  induction ms generalizing g with
  | nil =>
    simp only [take_nil, Admitted, iff_true]
    exact fun _ => h
  | cons m ms ih =>
    have hr : ∀ k, g.runMicro c ((m :: ms).take (k + 1)) =
        (g.microStep c m).runMicro c (ms.take k) := fun _ => rfl
    constructor
    · intro ha
      have hsp := ha 1
      exact ⟨(microStep_heldWhole_iff h m).mp hsp, (ih hsp).mp fun k => hr k ▸ ha (k + 1)⟩
    · rintro ⟨hi, hrs⟩ k
      have hsp := (microStep_heldWhole_iff h m).mpr hi
      cases k with
      | zero => exact h
      | succ k => exact hr k ▸ (ih hsp).mpr hrs k

lemma transactionsRoot_of_encode_eq {h h' : Header} (heq : h.encode = h'.encode) :
    h.transactionsRoot = h'.transactionsRoot := by
  have hpy := encodeList_inj heq
  simp only [Header.payload, Header.tail, flatten_cons] at hpy
  obtain ⟨-, hpy⟩ := encodeArr_append_inj (by decide) hpy
  obtain ⟨-, hpy⟩ := encodeArr_append_inj (by decide) hpy
  obtain ⟨-, hpy⟩ := encodeArr_append_inj (by decide) hpy
  obtain ⟨-, hpy⟩ := encodeArr_append_inj (by decide) hpy
  exact (encodeArr_append_inj (by decide) hpy).1

/-- The hash does not collide on the headers and transaction tries of the
blocks, and their bodies are of a size that a process can hold. -/
structure Binding (c : Crypto) (blocks : List Block) : Prop where
  empty : c.keccak256 [0x80] = EMPTY_TRIE_HASH
  headers : ∀ b ∈ blocks, ∀ b' ∈ blocks, b.hash c = b'.hash c → b.header.encode = b'.header.encode
  tries : ∀ b ∈ blocks, ∀ b' ∈ blocks, CollisionFree c (txMap b.body) (txMap b'.body)
  sized : ∀ b ∈ blocks, BodySized b.body

lemma Binding.body_eq {blocks : List Block} (hb : Binding c blocks) {b b' : Block}
    (hmem : b ∈ blocks) (hmem' : b' ∈ blocks) (hw : Whole c b) (hw' : Whole c b')
    (hhs : b.hash c = b'.hash c) : b.body = b'.body := by
  have hhe := transactionsRoot_of_encode_eq (hb.headers b hmem b' hmem' hhs)
  have hrt : transactionsRoot c b.body = transactionsRoot c b'.body := by
    rw [hw.1, hw'.1, hhe]
  have ht := transactionsRoot_inj hb.empty (hb.tries b hmem b' hmem') (hb.sized b hmem)
    (hb.sized b' hmem') hrt
  obtain ⟨homm, hwis⟩ := hw.2
  obtain ⟨homm', hwis'⟩ := hw'.2
  cases hby : b.body with
  | mk =>
    cases hby' : b'.body with
    | mk => grind

def started (c : Crypto) (config : BftConfig) (head : Block) (seed : Arr 32) : BftGossip :=
  .new (.fresh c config head seed)

lemma started_heldWhole (config : BftConfig) (head : Block) (seed : Arr 32) :
    HeldWhole c (started c config head seed) :=
  fun _ hbl => by cases hbl

lemma harvested_whole (h : HeldWhole c g) {ms : List Micro} (hi : Admitted c (Intact c) g ms) :
    ∀ block ∈ (g.runMicro c ms).harvested, Whole c block := by
  have hhl := (runMicro_heldWhole_iff h ms).mpr hi ms.length
  rw [take_length] at hhl
  exact fun block hbl => hhl block (mem_append_left _ hbl)

/-- **Body integrity.** A node holds whole blocks all along a run exactly
when its micro-steps are intact. -/
theorem bodies_whole_iff (config config' : BftConfig) (head head' : Block) (seed seed' : Arr 32)
    (ms ms' : List Micro) :
    ((∀ k, HeldWhole c ((started c config head seed).runMicro c (ms.take k))) ↔
      Admitted c (Intact c) (started c config head seed) ms) ∧
    (Admitted c (Intact c) (started c config head seed) ms →
      ∀ block ∈ ((started c config head seed).runMicro c ms).harvested, Whole c block) ∧
    (Admitted c (Intact c) (started c config head seed) ms →
      Admitted c (Intact c) (started c config' head' seed') ms' →
      Binding c (((started c config head seed).runMicro c ms).harvested ++
        ((started c config' head' seed').runMicro c ms').harvested) →
      ∀ block ∈ ((started c config head seed).runMicro c ms).harvested,
      ∀ block' ∈ ((started c config' head' seed').runMicro c ms').harvested,
        block.hash c = block'.hash c → block.body = block'.body) := by
  refine ⟨runMicro_heldWhole_iff (started_heldWhole config head seed) ms,
    harvested_whole (started_heldWhole config head seed), ?_⟩
  intro hint hint' hb block hbl block' hbl' hhs
  exact hb.body_eq (mem_append_left _ hbl) (mem_append_right _ hbl')
    (harvested_whole (started_heldWhole config head seed) hint block hbl)
    (harvested_whole (started_heldWhole config' head' seed') hint' block' hbl') hhs

/-! ### A follower that is offered bodies

The follower of the reference network at head 7. The leader proposes
block 8 with a body of its choice, or a peer serves block 8 with the
certificate the follower would have formed itself. -/

/-- The reference instance with the value of Keccak-256 on the encoding
of the empty string. -/
def trieCrypto : Crypto :=
  { Crypto.reference with
    keccak256 := fun bs => if bs = [0x80] then EMPTY_TRIE_HASH else referenceHash bs }

def bodyFollower : BftGossip :=
  started trieCrypto followerConfig (referenceHead followerConfig 7) followerConfig.initialSeed

def bodyProposal (body : BlockBody) : Proposal :=
  let proof := LeaderProof.produce trieCrypto (referenceVrfSk 1) 8 0 followerConfig.initialSeed
  let block := bodyFollower.engine.reconstruct trieCrypto none 8 proof (Arr.zero 20) body
  { height := 8, round := 0, blockHash := block.hash trieCrypto, leaderProof := proof
    coinbase := Arr.zero 20, bodyBytes := body.encode }

def proposedRun (body : BlockBody) : List Micro :=
  [.recv none (BftMessage.proposal (bodyProposal body)).encode, .drive none, .drive none]

def servedRun (tamper : BlockBody → BlockBody) : List Micro :=
  match (bodyFollower.runMicro trieCrypto (proposedRun .empty)).engine.committedBlockAt 8 with
  | none => []
  | some (block, cert) =>
    [.recv none (BftMessage.blockResponse { block with body := tamper block.body }.encode
      cert).encode]

def strayTx : Tx :=
  .legacy ⟨0, 1, 21000, some (Arr.zero 20), 5, [], 27, Arr.zero 32, Arr.zero 32, .secp256k1⟩

def emptyBlock : Block :=
  bodyFollower.engine.reconstruct trieCrypto none 8
    (LeaderProof.produce trieCrypto (referenceVrfSk 1) 8 0 followerConfig.initialSeed)
    (Arr.zero 20) .empty

lemma harvested_proposed :
    (bodyFollower.runMicro trieCrypto (proposedRun .empty)).harvested = [emptyBlock] := by
  decide +kernel

lemma harvested_served :
    (bodyFollower.runMicro trieCrypto (servedRun id)).harvested = [emptyBlock] := by
  decide +kernel

lemma binding_emptyBlock : Binding trieCrypto ([emptyBlock] ++ [emptyBlock]) := by
  have ho : ∀ b ∈ [emptyBlock] ++ [emptyBlock], b = emptyBlock := by simp
  have hn : YellowPaper.NodeBytes trieCrypto (YellowPaper.entries (txMap .empty)) = ∅ := by
    refine Set.eq_empty_of_forall_notMem ?_
    rintro bs ⟨p, t, ht, -⟩
    obtain ⟨e, k, -, hk⟩ := ht.nonempty
    cases hk
  refine ⟨rfl, ?_, ?_, ?_⟩
  · intro b hb b' hb' _
    rw [ho b hb, ho b' hb']
  · intro b hb b' hb'
    rw [ho b hb, ho b' hb']
    show Set.InjOn _ _
    rw [show emptyBlock.body = .empty from rfl, hn, Set.union_empty, Set.union_empty]
    exact Set.injOn_singleton _ _
  · intro b hb
    rw [ho b hb]
    exact ⟨by decide, fun tx htx => by cases htx⟩

theorem bodies_whole_follower :
    (∀ block ∈ (bodyFollower.runMicro trieCrypto (proposedRun .empty)).harvested,
      Whole trieCrypto block) ∧
    ∀ block ∈ (bodyFollower.runMicro trieCrypto (proposedRun .empty)).harvested,
      ∀ block' ∈ (bodyFollower.runMicro trieCrypto (servedRun id)).harvested,
        block.hash trieCrypto = block'.hash trieCrypto → block.body = block'.body := by
  have hi : Admitted trieCrypto (Intact trieCrypto) bodyFollower (proposedRun .empty) := by
    decide +kernel
  obtain ⟨-, hwh, hbo⟩ := bodies_whole_iff followerConfig followerConfig
    (referenceHead followerConfig 7) (referenceHead followerConfig 7) followerConfig.initialSeed
    followerConfig.initialSeed (proposedRun .empty) (servedRun id)
  rw [← bodyFollower] at hwh hbo
  rw [harvested_proposed, harvested_served] at hbo
  refine ⟨hwh hi, ?_⟩
  rw [harvested_proposed, harvested_served]
  exact hbo hi (by decide +kernel) binding_emptyBlock

/-- The body of a served block can be replaced, and a proposed one may carry
an uncovered withdrawal. -/
theorem body_smuggled :
    let genuine := (bodyFollower.runMicro trieCrypto (servedRun id)).harvested
    let tampered := (bodyFollower.runMicro trieCrypto
      (servedRun fun _ => ⟨[strayTx], [], []⟩)).harvested
    let proposed := (bodyFollower.runMicro trieCrypto
      (proposedRun ⟨[], [], [⟨0, 0, Arr.zero 20, 1⟩]⟩)).harvested
    genuine.map (·.hash trieCrypto) = tampered.map (·.hash trieCrypto) ∧
      genuine.map (·.body) = [.empty] ∧ tampered.map (·.body) = [⟨[strayTx], [], []⟩] ∧
      tampered.map (decide <| Rooted trieCrypto ·) = [false] ∧
      proposed.map (·.body.withdrawals.length) = [1] := by
  decide +kernel

end BftGossip

end Aii.Bft
