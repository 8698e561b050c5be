/-
Aii.Net.Transport — the TCP transport of consensus messages
(`aii-node/src/bft_p2p.rs`).

"Seen" is a ring of the hashes of the last `GOSSIP_DEDUP_CAPACITY`
payloads, shared by all tasks.
-/
import Aii.Common.FifoSet
import Aii.Bft.Inbound

namespace Aii.Net

open Common Chain Bft FifoSet

def GOSSIP_DEDUP_CAPACITY : Nat := 4096

abbrev GossipDedup := FifoSet H256 GOSSIP_DEDUP_CAPACITY

/-- **The ring** of any calls of `observe`: the set is the queue, and a hash
is new unless it is one of the last `GOSSIP_DEDUP_CAPACITY` new ones. -/
theorem gossip_dedup_window (stream : List H256) :
    let calls := FifoSet.Ring.calls GOSSIP_DEDUP_CAPACITY stream
    calls.1.set = calls.1.queue.toFinset ∧ calls.1.queue.Nodup ∧
      calls.1.queue.length ≤ GOSSIP_DEDUP_CAPACITY ∧
      ∀ h, (calls.1.observe GOSSIP_DEDUP_CAPACITY h).2 = true ↔
        h ∉ calls.2.rtake GOSSIP_DEDUP_CAPACITY := by
  have hq := run_queue (show 0 < GOSSIP_DEDUP_CAPACITY by decide) stream
  intro calls
  rw [show calls = _ from calls_eq (by decide) stream]
  generalize run .empty stream = s at hq ⊢
  refine ⟨Finset.ext fun h => ?_, s.nodup, ?_, fun h => ?_⟩
  · rw [List.mem_toFinset]
    exact s.mem_set h
  · change s.queue.length ≤ _
    simp [hq]
  · rw [ring_observe, observe_new_iff, hq, List.rtake_eq_reverse_take_reverse, List.reverse_reverse]

def hashPayload (c : Crypto) (payload : Bytes) : H256 := c.keccak256 payload

/-- `TcpBftTransport`: the ring, the inbox and everything that was handed
to the peers' writer tasks. -/
structure TcpBftTransport where
  dedup : GossipDedup
  inbox : List Bytes
  sent : List Bytes

open TcpBftTransport

namespace TcpBftTransport

variable (c : Crypto)

def new : TcpBftTransport := ⟨.empty, [], []⟩

/-- A peer task got `Message::Bft(payload)`, in clear or over Noise. -/
def receive (t : TcpBftTransport) (payload : Bytes) : TcpBftTransport :=
  let (dedup, novel) := t.dedup.observe (hashPayload c payload)
  if novel then { dedup := dedup, inbox := t.inbox ++ [payload], sent := t.sent ++ [payload] }
  else { t with dedup := dedup }

def broadcast (t : TcpBftTransport) (bytes : Bytes) : TcpBftTransport :=
  { t with dedup := (t.dedup.observe (hashPayload c bytes)).1, sent := t.sent ++ [bytes] }

def tryRecv (t : TcpBftTransport) : Option (TcpBftTransport × Bytes) :=
  match t.inbox with
  | [] => none
  | bytes :: rest => some ({ t with inbox := rest }, bytes)

end TcpBftTransport

/-- A driver and its transport. -/
structure GossipNode where
  transport : TcpBftTransport
  driver : BftGossip

inductive NodeEvent where
  /-- A peer sent a payload. -/
  | frame (payload : Bytes)
  /-- The driver takes a payload out of the inbox. -/
  | deliver (ex : Option Executor)
  | drive (ex : Option Executor)
  | timeout
  | stageTxs (txs : List Tx)

namespace GossipNode

variable (c : Crypto)

def start (config : BftConfig) (head : Block) (seed : Arr 32) : GossipNode :=
  ⟨.new, .new (.fresh c config head seed)⟩

def sends (n : GossipNode) (m : BftGossip.Micro) : List Bytes :=
  ((n.driver.microStep c m).outbox.drop n.driver.outbox.length).map BftMessage.encode

def act (n : GossipNode) (m : BftGossip.Micro) : GossipNode where
  transport := (n.sends c m).foldl (TcpBftTransport.broadcast c) n.transport
  driver := n.driver.microStep c m

def step (n : GossipNode) : NodeEvent → GossipNode
  | .frame payload => { n with transport := n.transport.receive c payload }
  | .deliver ex =>
    match n.transport.tryRecv with
    | none => n
    | some (t, bytes) => act c { n with transport := t } (.recv ex bytes)
  | .drive ex => n.act c (.drive ex)
  | .timeout => n.act c .timeout
  | .stageTxs txs => n.act c (.stageTxs txs)

def run (n : GossipNode) (events : List NodeEvent) : GossipNode := events.foldl (step c) n

def payloads (n : GossipNode) : NodeEvent → List Bytes
  | .frame payload => [payload]
  | .deliver ex =>
    match n.transport.tryRecv with
    | none => []
    | some (t, bytes) => sends c { n with transport := t } (.recv ex bytes)
  | .drive ex => n.sends c (.drive ex)
  | .timeout => n.sends c .timeout
  | .stageTxs txs => n.sends c (.stageTxs txs)

/-- The hashes of the payloads received and sent in a run, in order. -/
def history : GossipNode → List NodeEvent → List H256
  | _, [] => []
  | n, ev :: events => (n.payloads c ev).map (hashPayload c) ++ history (n.step c ev) events

variable {c} {n : GossipNode}

lemma dedup_receive (t : TcpBftTransport) (payload : Bytes) :
    (t.receive c payload).dedup = (t.dedup.observe (hashPayload c payload)).1 := by
  unfold receive
  dsimp only
  split_ifs <;> rfl

lemma dedup_broadcasts (t : TcpBftTransport) (msgs : List Bytes) :
    (msgs.foldl (broadcast c) t).dedup = t.dedup.run (msgs.map (hashPayload c)) := by
  induction msgs generalizing t with
  | nil => rfl
  | cons msg _ ih => exact ih (t.broadcast c msg)

lemma dedup_step (n : GossipNode) (ev : NodeEvent) : (n.step c ev).transport.dedup =
      n.transport.dedup.run ((n.payloads c ev).map (hashPayload c)) := by
  cases ev with
  | frame payload => exact dedup_receive n.transport payload
  | deliver =>
    unfold step payloads tryRecv
    cases n.transport.inbox with
    | nil => rfl
    | cons => exact dedup_broadcasts _ _
  | drive | timeout
  | stageTxs => exact dedup_broadcasts _ _

lemma dedup_run (n : GossipNode) (events : List NodeEvent) :
    (n.run c events).transport.dedup = n.transport.dedup.run (n.history c events) := by
  induction events generalizing n with
  | nil => rfl
  | cons ev _ ih =>
    rw [history, run_append, ← dedup_step]
    exact ih (n.step c ev)

lemma mem_history {events : List NodeEvent} {payload : Bytes}
    (h : .frame payload ∈ events) : hashPayload c payload ∈ n.history c events := by
  induction events generalizing n with
  | nil => cases h
  | cons _ _ ih =>
    rcases List.mem_cons.mp h with rfl | h
    · exact List.mem_append_left _ (by simp [payloads])
    · exact List.mem_append_right _ (ih h)

/-- The payload a peer sends next reaches the inbox. -/
def Hands (c : Crypto) (n : GossipNode) (payload : Bytes) : Prop :=
  (n.step c (.frame payload)).transport.inbox = n.transport.inbox ++ [payload]
deriving Decidable

lemma hands_iff_new (n : GossipNode) (payload : Bytes) :
    n.Hands c payload ↔ (n.transport.dedup.observe (hashPayload c payload)).2 = true := by
  unfold Hands step receive
  dsimp only
  split_ifs with hn
  · simp [hn]
  · simp [hn]

/-- **Copies over TCP** are handed on after `GOSSIP_DEDUP_CAPACITY` other
new payloads. -/
theorem copy_handed_iff (c : Crypto) (config : BftConfig) (head : Block) (seed : Arr 32)
    (events : List NodeEvent) (payload : Bytes) (hreached : .frame payload ∈ events) :
    ((start c config head seed).run c events).Hands c payload ↔
      GOSSIP_DEDUP_CAPACITY ≤ FifoSet.since (hashPayload c payload)
        (FifoSet.accepted GOSSIP_DEDUP_CAPACITY ((start c config head seed).history c events)) := by
  rw [hands_iff_new, dedup_run]
  exact observe_again_iff (by decide) (mem_history hreached)

def follower : GossipNode :=
  start .reference (referenceConfig followerSet 0 5) (referenceHead followerConfig 7)
    (Arr.zero 32)

def askForEight : Bytes := (BftMessage.blockRequest 8).encode

def earlyRequest : List NodeEvent := [.frame askForEight, .deliver none]

theorem copy_handed_iff_follower :
    (follower.run .reference earlyRequest).Hands .reference askForEight ↔
      GOSSIP_DEDUP_CAPACITY ≤ FifoSet.since (hashPayload .reference askForEight)
        (FifoSet.accepted GOSSIP_DEDUP_CAPACITY (follower.history .reference earlyRequest)) :=
  copy_handed_iff .reference (referenceConfig followerSet 0 5)
    (referenceHead followerConfig 7) (Arr.zero 32) earlyRequest askForEight
    (by simp [earlyRequest])

/-- The same request of another node is dropped. -/
theorem second_request_dropped : follower.Hands .reference askForEight ∧
      (follower.run .reference earlyRequest).driver = follower.driver ∧
      (follower.run .reference earlyRequest).transport.inbox = [] ∧
      ¬(follower.run .reference earlyRequest).Hands .reference askForEight := by
  decide +kernel

end GossipNode

end Aii.Net
