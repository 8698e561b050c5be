/-
Aii.Net.Noise — encrypted sessions (`aii-net-p2p/src/noise.rs` and
`run_peer_noise` of `aii-node/src/bft_p2p.rs`).

A window of 20 ms that ends before a whole frame is there cancels the read
and loses the bytes.
-/
import Aii.Net.Transport

namespace Aii.Net

open Common Bft List

/-! ## Frames -/

/-- One direction of an established session: `TransportState` of the
cipher library, with the number of the message as nonce. -/
structure NoiseCipher where
  writeMessage : Nat → Bytes → Bytes
  readMessage : Nat → Bytes → Option Bytes
  read_write : ∀ n msg, readMessage n (writeMessage n msg) = some msg
  write_length : ∀ n msg, (writeMessage n msg).length = msg.length + 16

def MAX_NOISE_MESSAGE : Nat := 65535

inductive NoiseError where
  | snow
  | frameTooLarge (len : Nat)
  deriving DecidableEq

/-- `EncryptedSession::send_msg`: the bytes of message number `n`. The
library refuses to seal more than fits a Noise message. -/
def sendMsg (cipher : NoiseCipher) (n : Nat) (plaintext : Bytes) : Except NoiseError Bytes :=
  if MAX_NOISE_MESSAGE < plaintext.length + 16 then .error .snow
  else
    let frame := cipher.writeMessage n plaintext
    if MAX_NOISE_MESSAGE < frame.length then .error (.frameTooLarge frame.length)
    else .ok (toBe 2 frame.length ++ frame)

inductive Read where
  /-- Not a whole frame yet. -/
  | incomplete
  /-- A frame that does not open. -/
  | failed
  | message (payload rest : Bytes)
  deriving DecidableEq

/-- `EncryptedSession::recv_msg` on the bytes that are there. -/
def recvMsg (cipher : NoiseCipher) (n : Nat) (bytes : Bytes) : Read :=
  if bytes.length < 2 then .incomplete
  else
    let len := ofBe (bytes.take 2)
    let body := bytes.drop 2
    if body.length < len then .incomplete
    else
      match cipher.readMessage n (body.take len) with
      | none => .failed
      | some payload => .message payload (body.drop len)

def WholeFrame (bytes : Bytes) : Prop :=
  2 ≤ bytes.length ∧ 2 + ofBe (bytes.take 2) ≤ bytes.length
deriving Decidable

section Frames

variable {cipher : NoiseCipher} {n : Nat} {bytes msg : Bytes} {frame rest : Bytes}

lemma recvMsg_incomplete (h : ¬WholeFrame bytes) : recvMsg cipher n bytes = .incomplete := by
  unfold recvMsg
  split_ifs with hl
  · rfl
  · refine if_pos ?_
    unfold WholeFrame at h
    rw [length_drop]
    omega

lemma sendMsg_eq_ok_iff : sendMsg cipher n msg = .ok bytes ↔ msg.length + 16 ≤ MAX_NOISE_MESSAGE ∧
      bytes = toBe 2 (msg.length + 16) ++ cipher.writeMessage n msg := by
  unfold sendMsg
  simp only [cipher.write_length]
  by_cases hl : MAX_NOISE_MESSAGE < msg.length + 16
  · simp [hl]
  · grind

lemma recvMsg_frame (h : sendMsg cipher n msg = .ok frame) :
    recvMsg cipher n (frame ++ rest) = .message msg rest := by
  obtain ⟨hl, rfl⟩ := sendMsg_eq_ok_iff.mp h
  have hsz : ofBe (toBe 2 (msg.length + 16)) = msg.length + 16 := by
    unfold MAX_NOISE_MESSAGE at hl
    exact ofBe_toBe_of_lt (by omega)
  have hct := cipher.write_length n msg
  have hta : (toBe 2 (msg.length + 16) ++ cipher.writeMessage n msg ++ rest).take 2 =
      toBe 2 (msg.length + 16) := by simp_all
  have hdp : (toBe 2 (msg.length + 16) ++ cipher.writeMessage n msg ++ rest).drop 2 =
      cipher.writeMessage n msg ++ rest := by grind
  unfold recvMsg
  simp only [hta, hdp, hsz, take_left' hct, drop_left' hct,
    cipher.read_write, length_append, toBe_length, hct]
  rw [if_neg (by omega), if_neg (by omega)]

/-- The bytes of messages number `n`, `n + 1`, … -/
def sendAll (cipher : NoiseCipher) : Nat → List Bytes → Except NoiseError Bytes
  | _, [] => .ok []
  | n, msg :: msgs =>
    match sendMsg cipher n msg, sendAll cipher (n + 1) msgs with
    | .ok frame, .ok rest => .ok (frame ++ rest)
    | .error err, _ => .error err
    | _, .error err => .error err

lemma sendAll_cons_ok {msgs : List Bytes} (h : sendAll cipher n (msg :: msgs) = .ok bytes) :
    ∃ frame rest, sendMsg cipher n msg = .ok frame ∧ sendAll cipher (n + 1) msgs = .ok rest ∧
      bytes = frame ++ rest := by
  unfold sendAll at h
  cases hfr : sendMsg cipher n msg with
  | error => simp [hfr] at h
  | ok frame =>
    cases hrs : sendAll cipher (n + 1) msgs with
    | error => simp [hfr, hrs] at h
    | ok rest => grind

lemma frame_of_whole {future : Bytes} (hfr : sendMsg cipher n msg = .ok frame)
    (hbt : bytes ++ future <+: frame ++ rest) (hwh : WholeFrame bytes) :
    ∃ left, bytes = frame ++ left := by
  obtain ⟨hl, heq⟩ := sendMsg_eq_ok_iff.mp hfr
  have hsr : bytes <+: frame ++ rest := (prefix_append bytes future).trans hbt
  have hsz : bytes.take 2 = toBe 2 (msg.length + 16) := by
    have hta := prefix_iff_eq_take.mp hsr
    rw [hta, take_take, Nat.min_eq_left hwh.1, heq, append_assoc]
    exact take_left' (toBe_length 2 _)
  have hle : frame.length ≤ bytes.length := by
    have hwh := hwh.2
    unfold MAX_NOISE_MESSAGE at hl
    rw [hsz, ofBe_toBe_of_lt (by omega)] at hwh
    rw [heq, length_append, toBe_length, cipher.write_length]
    omega
  obtain ⟨left, hlf⟩ := prefix_of_prefix_length_le (prefix_append frame rest) hsr hle
  exact ⟨left, hlf.symm⟩

end Frames

/-! ## The peer task -/

/-- Why a peer task returned. -/
inductive Ended where
  /-- `recv_msg` failed on a frame. -/
  | noise
  /-- The peer closed the connection. -/
  | closed
  /-- Nothing arrived for `BFT_PEER_IDLE_TIMEOUT`. -/
  | idle
  deriving DecidableEq

/-- The inbound half of `run_peer_noise` after the handshake. -/
structure NoisePeer where
  /-- The number of the next message. -/
  nonce : Nat
  /-- Bytes that have arrived and were not read. -/
  socket : Bytes
  dedup : GossipDedup
  /-- What the task has put into the inbox. -/
  pushed : List Bytes
  ended : Option Ended

inductive WindowEnd where
  /-- After 20 ms; `idle` if the last message is too long ago. -/
  | timedOut (idle : Bool)
  /-- The peer closes the connection. -/
  | eof
  deriving DecidableEq

/-- What happens around a peer task. -/
inductive Poll where
  /-- A listening window and the bytes that arrive in it. -/
  | window (arrived : Bytes) (ending : WindowEnd)
  /-- Another task of the node passes a payload through the ring. -/
  | elsewhere (payload : Bytes)

namespace NoisePeer

variable (c : Crypto) (cipher : NoiseCipher)

def start (dedup : GossipDedup) : NoisePeer := ⟨0, [], dedup, [], none⟩

def push (s : NoisePeer) (payload : Bytes) : NoisePeer :=
  let (dedup, novel) := s.dedup.observe (hashPayload c payload)
  { s with dedup := dedup, pushed := if novel then s.pushed ++ [payload] else s.pushed }

/-- One window: `timeout(20 ms, session.recv_msg(stream))`. A read that
does not complete takes all the bytes there are, and they are lost when
the window times out. -/
def listen (s : NoisePeer) (arrived : Bytes) (ending : WindowEnd) : NoisePeer :=
  match recvMsg cipher s.nonce (s.socket ++ arrived) with
  | .message payload rest => { s with nonce := s.nonce + 1, socket := rest }.push c payload
  | .failed => { s with socket := [], ended := some .noise }
  | .incomplete =>
    match ending with
    | .eof => { s with socket := [], ended := some .closed }
    | .timedOut true => { s with socket := [], ended := some .idle }
    | .timedOut false => { s with socket := [] }

/-- One event; a task that has returned stays as it is. -/
def step (s : NoisePeer) : Poll → NoisePeer
  | .elsewhere payload => { s with dedup := (s.dedup.observe (hashPayload c payload)).1 }
  | .window arrived ending => if s.ended.isSome then s else s.listen c cipher arrived ending

def run (s : NoisePeer) (polls : List Poll) : NoisePeer := polls.foldl (step c cipher) s

def arrivals (polls : List Poll) : Bytes :=
  polls.flatMap fun poll =>
    match poll with
    | .window arrived _ => arrived
    | .elsewhere _ => []

/-- A window of the running task that times out, and is not the last, has
seen no byte of a frame or a whole frame. -/
def Whole (s : NoisePeer) : Poll → Prop
  | .window arrived (.timedOut false) =>
    s.ended = none → s.socket ++ arrived = [] ∨ WholeFrame (s.socket ++ arrived)
  | _ => True

instance (s : NoisePeer) (poll : Poll) : Decidable (s.Whole poll) := by
  rcases poll with ⟨_, (_ | _) | _⟩ | _ <;> unfold Whole <;> infer_instance

variable {c cipher} {s : NoisePeer} {msgs : List Bytes} {future : Bytes} {rest : List Bytes}
  {bytes : Bytes}

/-- The task has read the first `nonce` messages, and what is in the
socket and still to come is the stream of the others. -/
structure Synced (cipher : NoiseCipher) (msgs : List Bytes) (s : NoisePeer) (future : Bytes) :
    Prop where
  sound : s.ended ≠ some .noise
  ordered : s.pushed.Sublist (msgs.take s.nonce)
  stream : s.ended = none →
    ∃ bytes, sendAll cipher s.nonce (msgs.drop s.nonce) = .ok bytes ∧ s.socket ++ future <+: bytes

lemma push_pushed (payload : Bytes) :
    (s.push c payload).pushed = s.pushed ∨ (s.push c payload).pushed = s.pushed ++ [payload] := by
  unfold push
  dsimp only
  split_ifs
  · exact .inr rfl
  · exact .inl rfl

lemma recvMsg_stream {n : Nat} {buffer : Bytes} (hs : sendAll cipher n rest = .ok bytes)
    (hsr : buffer ++ future <+: bytes) (hwh : WholeFrame buffer) :
    ∃ msg rest' left bytes', rest = msg :: rest' ∧ recvMsg cipher n buffer = .message msg left ∧
      sendAll cipher (n + 1) rest' = .ok bytes' ∧ left ++ future <+: bytes' := by
  cases rest with
  | nil =>
    cases hs
    have hem := (append_eq_nil_iff.mp (prefix_nil.mp hsr)).1
    have hl := hwh.1
    rw [hem] at hl
    simp at hl
  | cons msg rest' =>
    obtain ⟨frame, bytes', hfr, hrs, rfl⟩ := sendAll_cons_ok hs
    obtain ⟨left, rfl⟩ := frame_of_whole hfr hsr hwh
    refine ⟨msg, rest', left, bytes', rfl, recvMsg_frame hfr, hrs, ?_⟩
    rw [append_assoc] at hsr
    exact (prefix_append_right_inj frame).mp hsr

lemma Synced.read {msg left : Bytes} (h : Synced cipher msgs s future) (hr : s.ended = none)
    (hdp : msgs.drop s.nonce = msg :: rest) (hrs : sendAll cipher (s.nonce + 1) rest = .ok bytes)
    {future' : Bytes} (hsr : left ++ future' <+: bytes) :
    Synced cipher msgs ({ s with nonce := s.nonce + 1, socket := left }.push c msg) future' := by
  have hta : msgs.take (s.nonce + 1) = msgs.take s.nonce ++ [msg] := by
    rw [take_add, hdp]
    rfl
  have hdp' : msgs.drop (s.nonce + 1) = rest := by
    rw [← drop_drop, hdp]
    rfl
  refine ⟨?_, ?_, fun _ => ⟨bytes, ?_, hsr⟩⟩
  · show s.ended ≠ some .noise
    simp [hr]
  · show List.Sublist _ (msgs.take (s.nonce + 1))
    rw [hta]
    rcases push_pushed msg
      with heq | heq <;> rw [heq]
    · exact h.ordered.trans (sublist_append_left _ _)
    · exact h.ordered.append (.refl [msg])
  · show sendAll cipher (s.nonce + 1) (msgs.drop (s.nonce + 1)) = .ok bytes
    rw [hdp', hrs]

lemma Synced.listen {arrived : Bytes} {ending : WindowEnd}
    (h : Synced cipher msgs s (arrived ++ future)) (hr : s.ended = none)
    (hwh : s.Whole (.window arrived ending)) :
    Synced cipher msgs (s.listen c cipher arrived ending) future := by
  obtain ⟨bytes, hs, hsr⟩ := h.stream hr
  rw [← append_assoc] at hsr
  unfold NoisePeer.listen
  by_cases hfr : WholeFrame (s.socket ++ arrived)
  · obtain ⟨msg, rest, left, bytes', hdp, hrc, hrs, hlf⟩ :=
      recvMsg_stream hs hsr hfr
    rw [hrc]
    exact h.read hr hdp hrs hlf
  · rw [recvMsg_incomplete hfr]
    cases ending with
    | eof => exact ⟨by simp, h.ordered, by simp⟩
    | timedOut idle =>
      cases idle with
      | true => exact ⟨by simp, h.ordered, by simp⟩
      | false =>
        -- nothing had arrived, so nothing is lost
        have hem := (hwh hr).resolve_right hfr
        rw [hem, nil_append] at hsr
        exact ⟨h.sound, h.ordered, fun _ => ⟨bytes, hs, hsr⟩⟩

lemma Synced.step {poll : Poll} (h : Synced cipher msgs s (arrivals [poll] ++ future))
    (hwh : s.Whole poll) : Synced cipher msgs (s.step c cipher poll) future := by
  cases poll with
  | elsewhere => exact ⟨h.sound, h.ordered, h.stream⟩
  | window arrived ending =>
    have ha : arrivals [.window arrived ending] = arrived := append_nil _
    rw [ha] at h
    unfold NoisePeer.step
    cases he : s.ended with
    | none => exact h.listen he hwh
    | some =>
      exact ⟨h.sound, h.ordered, fun hnn => absurd (he.symm.trans hnn) (by simp)⟩

lemma Synced.run {polls : List Poll} (h : Synced cipher msgs s (arrivals polls ++ future))
    (hwh : Along (NoisePeer.step c cipher) Whole s polls) :
    Synced cipher msgs (s.run c cipher polls) future := by
  induction polls generalizing s with
  | nil => exact h
  | cons poll polls ih =>
    have hsi : arrivals (poll :: polls) = arrivals [poll] ++ arrivals polls := by
      simp [arrivals]
    rw [hsi, append_assoc] at h
    exact ih (h.step hwh.1) hwh.2

/-- **Messages in order**, if every window sees nothing or a whole frame
before it times out. -/
theorem windows_whole_in_order (c : Crypto) (cipher : NoiseCipher) (msgs : List Bytes)
    (bytes : Bytes) (dedup : GossipDedup) (polls : List Poll)
    (hsent : sendAll cipher 0 msgs = .ok bytes) (harrived : arrivals polls <+: bytes)
    (hwhole : Along (step c cipher) Whole (start dedup) polls) :
    ((start dedup).run c cipher polls).pushed.Sublist msgs ∧
      ((start dedup).run c cipher polls).ended ≠ some .noise := by
  obtain ⟨future, hfu⟩ := harrived
  have hsr : Synced cipher msgs (start dedup) (arrivals polls ++ future) := by
    refine ⟨by simp [start], nil_sublist _, fun _ => ⟨bytes, hsent, ?_⟩⟩
    show [] ++ (arrivals polls ++ future) <+: bytes
    rw [nil_append, hfu]
  have he := hsr.run hwhole
  exact ⟨he.ordered.trans (take_sublist _ _), he.sound⟩

def numbering : NoiseCipher where
  writeMessage n msg := msg ++ toBe 16 n
  readMessage n ct :=
    if 16 ≤ ct.length ∧ ct.drop (ct.length - 16) = toBe 16 n then some (ct.take (ct.length - 16))
    else none
  read_write n msg := by simp
  write_length n msg := by simp

def twoMessages : List Bytes := [[1], [2]]

def twoFrames : Bytes := (sendAll numbering 0 twoMessages).toOption.getD []

theorem windows_whole_in_order_at_once : ((start .empty).run .reference numbering
        [.window twoFrames (.timedOut false), .window [] (.timedOut false)]).pushed.Sublist
          twoMessages ∧ ((start .empty).run .reference numbering
        [.window twoFrames (.timedOut false), .window [] (.timedOut false)]).ended ≠ some .noise :=
  windows_whole_in_order .reference numbering twoMessages twoFrames .empty
    [.window twoFrames (.timedOut false), .window [] (.timedOut false)] (by decide +kernel)
    (by decide +kernel) (by decide +kernel)

/-- The first byte of the first frame arrives in one window, the rest of
that frame in the next and the second frame in a third. -/
def splitFrame : List Poll :=
  [.window (twoFrames.take 1) (.timedOut false),
    .window ((twoFrames.drop 1).take 18) (.timedOut false),
    .window (twoFrames.drop 19) (.timedOut false)]

/-- A correct peer: the first message is lost and the second closes the
session. -/
theorem cancelled_read_desyncs :
    sendAll numbering 0 twoMessages = .ok twoFrames ∧ arrivals splitFrame = twoFrames ∧
      ((start .empty).run .reference numbering splitFrame).pushed = [] ∧
      ((start .empty).run .reference numbering splitFrame).ended = some .noise := by
  decide +kernel

end NoisePeer

end Aii.Net
