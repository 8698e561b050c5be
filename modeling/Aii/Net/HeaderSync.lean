/-
Aii.Net.HeaderSync — the header-first sync engine
(`SyncEngine` of `aii-net-sync`).

Headers are checked for consecutive NUMBERS only; links and bodies are up
to the peer.
-/
import Aii.Bft.BodyIntegrity

namespace Aii.Net

open Common Chain Bft List UInt64

inductive SyncState where
  | idle
  | headers (target next : UInt64)
  | bodies (pending : List H256)
  | done
  deriving DecidableEq

/-- `Event`. -/
inductive SyncEvent where
  | peerAnnouncedTip (height : UInt64)
  | headersReceived (batch : List Header)
  | bodyReceived (block : Block)
  | peerDisconnected

/-- `Action`. -/
inductive SyncAction where
  | requestHeaders (start : UInt64) (count : UInt32)
  | requestBody (hash : H256)
  | persistBlock (block : Block)
  | idle

/-- `SyncError`; the texts of `unexpected` are those of its arguments. -/
inductive SyncError where
  | emptyHeaderBatch
  | headerOutOfOrder (expected got : UInt64)
  | unexpectedBody (got : H256)
  | unexpected (state : SyncState) (event : SyncEvent)

structure SyncEngine where
  state : SyncState
  headersBuffer : List Header
  localHeight : UInt64

def SyncEngine.new (localHeight : UInt64) : SyncEngine := ⟨.idle, [], localHeight⟩

def HEADER_BATCH : UInt32 := 192

def outOfOrder : UInt64 → List Header → Option (UInt64 × UInt64)
  | _, [] => none
  | expected, h :: batch =>
    if h.number ≠ expected then some (expected, h.number) else outOfOrder (expected + 1) batch

section Engine

variable (c : Crypto) {s : SyncEngine × List Block} {event : SyncEvent}

def SyncEngine.handle (e : SyncEngine) (event : SyncEvent) :
    SyncEngine × Except SyncError SyncAction :=
  match e.state, event with
  | .idle, .peerAnnouncedTip height =>
    if height ≤ e.localHeight then ({ e with state := .done }, .ok .idle)
    else ({ e with state := .headers height (e.localHeight + 1) },
      .ok (.requestHeaders (e.localHeight + 1) HEADER_BATCH))
  | .headers target next, .headersReceived batch =>
    if batch.isEmpty then (e, .error .emptyHeaderBatch)
    else
      match outOfOrder next batch with
      | some (expected, got) => (e, .error (.headerOutOfOrder expected got))
      | none =>
        let buffer := e.headersBuffer ++ batch
        let newNext := next + UInt64.ofNat batch.length
        if target < newNext then
          let pending := buffer.map (·.hash c)
          ({ e with state := .bodies pending, headersBuffer := buffer },
            .ok (.requestBody (pending.headD (Arr.zero 32))))
        else ({ e with state := .headers target newNext, headersBuffer := buffer },
          .ok (.requestHeaders newNext HEADER_BATCH))
  | .bodies pending, .bodyReceived block =>
    if pending.head? ≠ some (block.hash c) then (e, .error (.unexpectedBody (block.hash c)))
    else
      match pending.tail with
      | [] => (⟨.done, [], block.header.number⟩, .ok (.persistBlock block))
      | next :: rest =>
        ({ e with state := .bodies (next :: rest), localHeight := block.header.number },
          .ok (.requestBody next))
  | _, .peerDisconnected => ({ e with state := .idle, headersBuffer := [] }, .ok .idle)
  | state, event => (e, .error (.unexpected state event))

def acceptedAfter (e : SyncEngine) (session : List Block) (event : SyncEvent) : List Block :=
  match event with
  | .peerDisconnected => []
  | .bodyReceived block => if (e.handle c event).2.isOk then session ++ [block] else session
  | _ => session

def syncStep (s : SyncEngine × List Block) (event : SyncEvent) : SyncEngine × List Block :=
  ((s.1.handle c event).1, acceptedAfter c s.1 s.2 event)

/-- The accepted blocks are linked and have the bodies their headers
promise. -/
def SessionOk (session : List Block) : Prop :=
  session.IsChain (fun a b => b.header.parentHash = a.hash c) ∧ ∀ b ∈ session, Rooted c b

def Follows (a b : Header) : Prop := b.parentHash = a.hash c

/-- The peer is honest: its headers continue those received before, its
bodies match, and no block has the hash of another header. -/
def HonestEvent (s : SyncEngine × List Block) : SyncEvent → Prop
  | .headersReceived batch => (s.1.headersBuffer ++ batch).IsChain (Follows c)
  | .bodyReceived block =>
    Rooted c block ∧ ∀ h ∈ s.1.headersBuffer, h.hash c = block.hash c → h = block.header
  | _ => True

instance : DecidableRel (Follows c) := fun _ _ => inferInstanceAs (Decidable (_ = _))

instance (s : SyncEngine × List Block) : DecidablePred (HonestEvent c s) := fun event => by
  cases event <;> unfold HonestEvent <;> infer_instance

/-- The headers of the session's blocks are the first of those received,
and the pending hashes are those of the others. -/
structure SyncInv (s : SyncEngine × List Block) : Prop where
  ok : SessionOk c s.2
  linked : s.1.headersBuffer.IsChain (Follows c)
  shape : match s.1.state with
    | .bodies pending => ∃ rest, s.2.map (·.header) ++ rest = s.1.headersBuffer ∧
        pending = rest.map (·.hash c)
    | .done => True
    | _ => s.2 = []

variable {c}

lemma SyncInv.body {block : Block} {pending : List H256} (h : SyncInv c s)
    (hstate : s.1.state = .bodies pending) (hh : HonestEvent c s (.bodyReceived block))
    (hhd : pending.head? = some (block.hash c)) : SessionOk c (s.2 ++ [block]) ∧ ∃ rest,
      (s.2 ++ [block]).map (·.header) ++ rest = s.1.headersBuffer ∧
        pending.tail = rest.map (·.hash c) := by
  have hs := h.shape
  rw [hstate] at hs
  obtain ⟨rest, hbr, rfl⟩ := hs
  obtain ⟨header, rest, rfl⟩ : ∃ header rest', rest = header :: rest' := by
    cases rest with
    | nil => simp at hhd
    | cons header rest => exact ⟨header, rest, rfl⟩
  obtain ⟨hr, hu⟩ := hh
  obtain rfl : header = block.header := hu header (by simp [← hbr]) (by simpa using hhd)
  refine ⟨⟨?_, ?_⟩, rest, by simpa using hbr, rfl⟩
  · -- the headers received are linked, so the first of them are
    have hp : (s.2 ++ [block]).map (·.header) <+: s.1.headersBuffer := ⟨rest, by simpa using hbr⟩
    exact (isChain_map Block.header).mp <| h.linked.prefix hp
  · intro b hb
    rcases mem_append.mp hb with hb | hb
    · exact h.ok.2 b hb
    · exact mem_singleton.mp hb ▸ hr

lemma SessionOk.nil (c : Crypto) : SessionOk c [] := ⟨.nil, by simp⟩

/-- What an accepted event does. -/
inductive Accepted (c : Crypto) (e : SyncEngine) : SyncEvent → SyncEngine → Prop
  | upToDate {height : UInt64} (hstate : e.state = .idle) (hle : height ≤ e.localHeight) :
    Accepted c e (.peerAnnouncedTip height) { e with state := .done }
  | behind {height : UInt64} (hstate : e.state = .idle) (hlt : e.localHeight < height) :
    Accepted c e (.peerAnnouncedTip height)
      { e with state := .headers height (e.localHeight + 1) }
  | lastHeaders {target next : UInt64} {batch : List Header}
    (hstate : e.state = .headers target next) (hne : batch ≠ [])
    (horder : outOfOrder next batch = none) (hlast : target < next + UInt64.ofNat batch.length) :
    Accepted c e (.headersReceived batch) ⟨.bodies ((e.headersBuffer ++ batch).map (·.hash c)),
      e.headersBuffer ++ batch, e.localHeight⟩
  | headers {target next : UInt64} {batch : List Header} (hstate : e.state = .headers target next)
    (horder : outOfOrder next batch = none) : Accepted c e (.headersReceived batch)
      ⟨.headers target (next + UInt64.ofNat batch.length), e.headersBuffer ++ batch, e.localHeight⟩
  | lastBody {block : Block} (hstate : e.state = .bodies [block.hash c]) :
    Accepted c e (.bodyReceived block) ⟨.done, [], block.header.number⟩
  | body {block : Block} {next : H256} {rest : List H256}
    (hstate : e.state = .bodies (block.hash c :: next :: rest)) :
    Accepted c e (.bodyReceived block)
      ⟨.bodies (next :: rest), e.headersBuffer, block.header.number⟩
  | disconnected : Accepted c e .peerDisconnected { e with state := .idle, headersBuffer := [] }

lemma SyncEngine.handle_cases (c : Crypto) (e : SyncEngine) (event : SyncEvent) :
    (event ≠ .peerDisconnected ∧ ∃ err, e.handle c event = (e, .error err)) ∨
      ∃ action e', e.handle c event = (e', .ok action) ∧ Accepted c e event e' := by
  obtain ⟨state, buffer, height⟩ := e
  cases event with
  | peerDisconnected =>
    exact .inr ⟨.idle, _, by cases state <;> rfl, .disconnected⟩
  | peerAnnouncedTip tip =>
    cases state with
    | idle =>
      by_cases hle : tip ≤ height
      · exact .inr ⟨_, _, if_pos hle, .upToDate rfl hle⟩
      · exact .inr ⟨_, _, if_neg hle, .behind rfl (UInt64.not_le.mp hle)⟩
    | _ => exact .inl ⟨nofun, _, rfl⟩
  | headersReceived batch =>
    cases state with
    | headers target next =>
      by_cases hn : batch.isEmpty
      · exact .inl ⟨nofun, .emptyHeaderBatch, if_pos hn⟩
      cases horder : outOfOrder next batch with
      | some out =>
        exact .inl ⟨nofun, .headerOutOfOrder out.1 out.2, by simp only [handle, if_neg hn, horder]⟩
      | none =>
        by_cases hlast : target < next + ofNat batch.length
        · exact .inr ⟨_, _, by simp only [handle, if_neg hn, horder, if_pos hlast]; rfl,
            .lastHeaders rfl (by simpa using hn) horder hlast⟩
        · exact .inr ⟨_, _, by simp only [handle, if_neg hn, horder, if_neg hlast]; rfl,
            .headers rfl horder⟩
    | _ => exact .inl ⟨nofun, _, rfl⟩
  | bodyReceived block =>
    cases state with
    | bodies pending =>
      by_cases hhd : pending.head? = some (block.hash c)
      · obtain ⟨rest, rfl⟩ : ∃ rest, pending = block.hash c :: rest := head?_eq_some_iff.mp hhd
        cases rest with
        | nil => exact .inr ⟨_, _, if_neg (by simp), .lastBody rfl⟩
        | cons => exact .inr ⟨_, _, if_neg (by simp), .body rfl⟩
      · exact .inl ⟨nofun, .unexpectedBody (block.hash c), if_pos hhd⟩
    | _ => exact .inl ⟨nofun, _, rfl⟩

lemma SyncInv.step (h : SyncInv c s) (hh : HonestEvent c s event) :
    SyncInv c (syncStep c s event) := by
  have hs := h.shape
  rcases s.1.handle_cases c event with ⟨hne, err, he⟩ | ⟨action, e', hok, ha⟩
  · have hsm : syncStep c s event = s := by
      rw [syncStep, he]
      cases event <;> simp_all [acceptedAfter, Except.isOk, Except.toBool]
    rwa [hsm]
  unfold syncStep acceptedAfter
  rw [hok]
  cases ha with
  | upToDate => exact ⟨h.ok, h.linked, trivial⟩
  | behind hstate =>
    rw [hstate] at hs
    exact ⟨h.ok, h.linked, hs⟩
  | lastHeaders hstate =>
    rw [hstate] at hs
    exact ⟨h.ok, hh, _, by simp [hs], rfl⟩
  | headers hstate =>
    rw [hstate] at hs
    exact ⟨h.ok, hh, hs⟩
  | lastBody hstate => exact ⟨(h.body hstate hh rfl).1, .nil, trivial⟩
  | body hstate =>
    obtain ⟨hok, hrs⟩ := h.body hstate hh rfl
    exact ⟨hok, h.linked, hrs⟩
  | disconnected => exact ⟨.nil c, .nil, rfl⟩

/-- **From an honest peer only linked and matching blocks are accepted.** -/
theorem sync_session_ok (c : Crypto) (localHeight : UInt64) (events : List SyncEvent)
    (hhonest : Along (syncStep c) (HonestEvent c) (.new localHeight, []) events) :
    SessionOk c (events.foldl (syncStep c) (.new localHeight, [])).2 :=
  (hhonest.keeps (P := SyncInv c) (fun _ _ hevent h => h.step hevent) ⟨.nil c, .nil, rfl⟩).ok

def syncHeader (n : UInt64) (parent : H256) : Header :=
  { (referenceHead followerConfig n).header with
    parentHash := parent, transactionsRoot := EMPTY_TRIE_HASH }

def syncEvents (first second : Header) : List SyncEvent :=
  [.peerAnnouncedTip 2, .headersReceived [first, second], .bodyReceived ⟨first, .empty⟩,
    .bodyReceived ⟨second, .empty⟩]

theorem sync_session_ok_linked : SessionOk .reference ((syncEvents (syncHeader 1 (Arr.zero 32))
      (syncHeader 2 ((syncHeader 1 (Arr.zero 32)).hash .reference))).foldl (syncStep .reference)
        (.new 0, [])).2 :=
  sync_session_ok .reference 0 _ (by decide +kernel)

/-- Two blocks that are not linked are accepted, the second with a body
that is not the one of its header. -/
theorem unlinked_blocks_accepted : ∃ first second : Header,
      ((syncEvents first second).foldl (syncStep .reference) (.new 0, [])).2 =
        [⟨first, .empty⟩, ⟨second, .empty⟩] ∧
      second.parentHash ≠ first.hash .reference ∧ ¬ Rooted .reference ⟨second, .empty⟩ :=
  ⟨syncHeader 1 (Arr.zero 32), { syncHeader 2 (Arr.zero 32) with transactionsRoot := Arr.zero 32 },
    by decide +kernel, by decide +kernel, by
      decide +kernel⟩

end Engine

/-! ## The order of the accepted blocks -/

/-- An engine, the blocks it has accepted, those of them in the current
session, and the height the peer announced. -/
structure SyncRun where
  engine : SyncEngine
  accepted : List Block
  session : List Block
  target : UInt64

section Order

variable (c : Crypto) {start : UInt64} {s : SyncRun} {event : SyncEvent}

def SyncRun.new (start : UInt64) : SyncRun := ⟨.new start, [], [], 0⟩

/-- `handle`, and what it adds to the record. -/
def SyncRun.handle (s : SyncRun) (event : SyncEvent) : SyncRun :=
  let r := s.engine.handle c event
  match r.2, event with
  | .error _, _ => { s with engine := r.1 }
  | .ok _, .peerAnnouncedTip height => { s with engine := r.1, session := [], target := height }
  | .ok _, .headersReceived _ => { s with engine := r.1 }
  | .ok _, .bodyReceived block =>
    { s with engine := r.1, accepted := s.accepted ++ [block], session := s.session ++ [block] }
  | .ok _, .peerDisconnected => { s with engine := r.1, session := [] }

/-- `n` more headers stay below height `2 ^ 64`. -/
def SyncState.HasRoom (n : Nat) : SyncState → Prop
  | .headers _ next => next.toNat + n < 2 ^ 64
  | _ => True

instance (n : Nat) : DecidablePred (SyncState.HasRoom n) := fun state => by
  cases state <;> unfold SyncState.HasRoom <;> infer_instance

/-- Heights stay below `2 ^ 64`, and no block has the hash of another
header. -/
def Regular (s : SyncRun) : SyncEvent → Prop
  | .headersReceived batch => s.engine.state.HasRoom batch.length
  | .bodyReceived block =>
    ∀ h ∈ s.engine.headersBuffer, h.hash c = block.hash c → h = block.header
  | _ => True

instance (s : SyncRun) : DecidablePred (Regular c s) := fun event => by
  cases event <;> unfold Regular <;> infer_instance

def numbers (l : List Header) : List Nat := l.map (·.number.toNat)

/-- The headers are numbered from `n` on. -/
def NumberedFrom (n : Nat) (l : List Header) : Prop := numbers l = range' n l.length

/-- What a state says of the session. -/
def SessionInv (s : SyncRun) : Prop :=
  match s.engine.state with
  | .idle => s.session = [] ∧ s.engine.headersBuffer = []
  | .headers target next => s.session = [] ∧ target = s.target ∧
      next.toNat = s.engine.localHeight.toNat + 1 + s.engine.headersBuffer.length ∧
      NumberedFrom (s.engine.localHeight.toNat + 1) s.engine.headersBuffer
  | .bodies pending => ∃ rest base, s.session.map (·.header) ++ rest = s.engine.headersBuffer ∧
      pending = rest.map (·.hash c) ∧ rest ≠ [] ∧
      base + s.session.length = s.engine.localHeight.toNat ∧
      NumberedFrom (base + 1) s.engine.headersBuffer ∧
      s.target.toNat ≤ base + s.engine.headersBuffer.length
  | .done => s.engine.headersBuffer = []

structure OrderInv (start : UInt64) (s : SyncRun) : Prop where
  numbered : NumberedFrom (start.toNat + 1) (s.accepted.map (·.header))
  height : s.engine.localHeight.toNat = start.toNat + s.accepted.length
  session : SessionInv c s

variable {c}

lemma numberedFrom_append {n : Nat} {l l' : List Header} :
    NumberedFrom n (l ++ l') ↔ NumberedFrom n l ∧ NumberedFrom (n + l.length) l' := by
  unfold NumberedFrom numbers
  rw [map_append, length_append, ← range'_append_1]
  refine ⟨fun h => append_inj h (by simp), ?_⟩
  rintro ⟨h, h'⟩
  rw [h, h']

lemma numberedFrom_of_outOfOrder {next : UInt64} {batch : List Header}
    (h : outOfOrder next batch = none) (hlt : next.toNat + batch.length < 2 ^ 64) :
    NumberedFrom next.toNat batch := by
  induction batch generalizing next with
  | nil => rfl
  | cons _ _ ih =>
    unfold outOfOrder at h
    split_ifs at h with hne
    rw [length_cons] at hlt
    have hnx : (next + 1).toNat = next.toNat + 1 := toNat_add64_of_lt (by simp; omega)
    have hrs := ih h (by omega)
    rw [hnx] at hrs
    unfold NumberedFrom numbers at *
    rw [map_cons, length_cons, range'_succ, hrs, not_not.mp hne]

lemma OrderInv.body (h : OrderInv c start s) {block : Block} {pending : List H256}
    (hr : Regular c s (.bodyReceived block))
    (hstate : s.engine.state = .bodies (block.hash c :: pending)) :
    NumberedFrom (start.toNat + 1) ((s.accepted ++ [block]).map (·.header)) ∧
      block.header.number.toNat = start.toNat + (s.accepted ++ [block]).length ∧
      ∃ rest base, (s.session ++ [block]).map (·.header) ++ rest = s.engine.headersBuffer ∧
        pending = rest.map (·.hash c) ∧
        base + (s.session ++ [block]).length = block.header.number.toNat ∧
        NumberedFrom (base + 1) s.engine.headersBuffer ∧
        s.target.toNat ≤ base + s.engine.headersBuffer.length := by
  have hs := h.session
  rw [SessionInv, hstate] at hs
  obtain ⟨rest, base, hbr, hpg, hne, hb, hnb, htr⟩ := hs
  obtain ⟨header, rest, rfl⟩ := exists_cons_of_ne_nil hne
  obtain ⟨hhs, hrs⟩ := cons.inj hpg
  obtain rfl : header = block.header := hr header (by simp [← hbr]) hhs.symm
  -- its number is the next one, as it comes after those of the session
  have hnm : block.header.number.toNat = base + 1 + s.session.length := by
    rw [← hbr] at hnb
    have hrs := (numberedFrom_append.mp hnb).2
    rw [NumberedFrom, numbers, map_cons, length_cons, range'_succ, length_map] at hrs
    exact (cons.inj hrs).1
  have hhg := h.height
  refine ⟨?_, ?_, rest, base, by simpa using hbr, hrs, ?_, hnb, htr⟩
  · rw [map_append, numberedFrom_append]
    refine ⟨h.numbered, ?_⟩
    simp [NumberedFrom, numbers, hnm]
    omega
  · grind
  · grind

lemma OrderInv.step (h : OrderInv c start s) (hr : Regular c s event) :
    OrderInv c start (s.handle c event) := by
  rcases s.engine.handle_cases c event with ⟨-, err, he⟩ | ⟨action, e', hok, ha⟩
  · have hsm : s.handle c event = s := by simp [SyncRun.handle, he]
    rwa [hsm]
  have hs := h.session
  unfold SessionInv at hs
  unfold SyncRun.handle
  simp only [hok]
  cases ha with
  | upToDate hstate =>
    rw [hstate] at hs
    exact ⟨h.numbered, h.height, hs.2⟩
  | @behind height hstate hlt =>
    rw [hstate] at hs
    have hnx : (s.engine.localHeight + 1).toNat = s.engine.localHeight.toNat + 1 :=
      toNat_add64_of_lt (Nat.lt_of_le_of_lt (lt_iff_toNat_lt.mp hlt) height.toNat_lt)
    refine ⟨h.numbered, h.height, rfl, rfl, ?_, ?_⟩
    · simp [hnx, hs.2]
    · simp [hs.2, NumberedFrom, numbers]
  | @lastHeaders _ _ batch hstate hne horder hlast =>
    rw [hstate] at hs
    obtain ⟨hn, rfl, hnx, hnb⟩ := hs
    rw [Regular, hstate, SyncState.HasRoom] at hr
    refine ⟨h.numbered, h.height, s.engine.headersBuffer ++ batch, s.engine.localHeight.toNat,
      by simp [hn], rfl, by simp [hne], by simp [hn], ?_, ?_⟩
    · exact numberedFrom_append.mpr
        ⟨hnb, hnx ▸ numberedFrom_of_outOfOrder horder hr⟩
    · rw [lt_iff_toNat_lt, add_ofNat_toNat hr] at hlast
      show s.target.toNat ≤ _ + (s.engine.headersBuffer ++ batch).length
      rw [length_append]
      omega
  | @headers _ next batch hstate horder =>
    rw [hstate] at hs
    obtain ⟨hn, rfl, hnx, hnb⟩ := hs
    rw [Regular, hstate, SyncState.HasRoom] at hr
    refine ⟨h.numbered, h.height, hn, rfl, ?_, ?_⟩
    · show (next + ofNat batch.length).toNat =
        s.engine.localHeight.toNat + 1 + (s.engine.headersBuffer ++ batch).length
      rw [add_ofNat_toNat hr, hnx, length_append, Nat.add_assoc]
    · exact numberedFrom_append.mpr
        ⟨hnb, hnx ▸ numberedFrom_of_outOfOrder horder hr⟩
  | lastBody hstate =>
    obtain ⟨hnb, hhg, -⟩ := h.body hr hstate
    exact ⟨hnb, hhg, rfl⟩
  | body hstate =>
    obtain ⟨hnb, hhg, rest, base, hbr, hpg, hrs⟩ := h.body hr hstate
    refine ⟨hnb, hhg, rest, base, hbr, hpg, ?_, hrs⟩
    rintro rfl
    cases hpg
  | disconnected => exact ⟨h.numbered, h.height, rfl, rfl⟩

/-- **Blocks are accepted in order**, a refused event changes nothing, and
a body ends the sync only as the last of the session. -/
theorem sync_in_order (c : Crypto) (start : UInt64) (events : List SyncEvent)
    (hreg : Along (SyncRun.handle c) (Regular c) (.new start) events) :
    let s := events.foldl (SyncRun.handle c) (.new start)
    (s.accepted.map fun b => b.header.number.toNat) = range' (start.toNat + 1) s.accepted.length ∧
      (∀ event err e', s.engine.handle c event = (e', .error err) → e' = s.engine) ∧
      ∀ block, Regular c s (.bodyReceived block) → s.engine.state ≠ .done →
        (s.handle c (.bodyReceived block)).engine.state = .done →
        (s.handle c (.bodyReceived block)).session.map (·.header) = s.engine.headersBuffer ∧
          s.target ≤ (s.handle c (.bodyReceived block)).engine.localHeight := by
  intro s
  have h : OrderInv c start s := hreg.keeps (fun _ _ hev h => h.step hev) ⟨rfl, rfl, rfl, rfl⟩
  refine ⟨by simpa [NumberedFrom, numbers, Function.comp_def] using h.numbered, ?_, ?_⟩
  · intro event err e' he
    rcases s.engine.handle_cases c event with ⟨-, err', hsm⟩ | ⟨_, _, hok, -⟩
    · exact (congrArg Prod.fst (he.symm.trans hsm))
    · cases congrArg Prod.snd (he.symm.trans hok)
  · intro block hbl hn hdn
    rcases s.engine.handle_cases c (.bodyReceived block) with
      ⟨-, err, he⟩ | ⟨action, e', hok, ha⟩
    · simp [SyncRun.handle, he, hn] at hdn
    simp only [SyncRun.handle, hok] at hdn ⊢
    cases ha with
    | body => cases hdn
    | lastBody hstate =>
      obtain ⟨-, -, rest, base, hbr, hpg, hb, -, htr⟩ := h.body hbl hstate
      obtain rfl : rest = [] := by simpa using hpg.symm
      rw [append_nil] at hbr
      refine ⟨hbr, ?_⟩
      rw [← hbr, length_map] at htr
      exact le_iff_toNat_le.mpr (by dsimp only; omega)

theorem sync_in_order_linked :
    let s := (syncEvents (syncHeader 1 (Arr.zero 32))
      (syncHeader 2 ((syncHeader 1 (Arr.zero 32)).hash .reference))).foldl
        (SyncRun.handle .reference) (.new 0)
    (s.accepted.map fun b => b.header.number.toNat) = range' 1 s.accepted.length ∧
      s.accepted.length = 2 :=
  ⟨(sync_in_order .reference 0 _ (by decide +kernel)).1, by decide +kernel⟩

end Order

end Aii.Net
