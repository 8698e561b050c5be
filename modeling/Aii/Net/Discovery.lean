/-
Aii.Net.Discovery — the discovery responder
(`discovery.rs` of `aii-net-p2p`, `discovery_bootstrap.rs` of `aii-node`).

A Neighbours answer lists all known peers in ONE packet of at most 1280
bytes.
-/
import Aii.Common.RlpItems
import Aii.Crypto

namespace Aii.Net

open Common Common.Rlp List

/-! ## Packets -/

inductive IpAddr where
  | v4 (octets : Arr 4)
  | v6 (octets : Arr 16)
  deriving DecidableEq

structure SocketAddr where
  ip : IpAddr
  port : UInt16
  deriving DecidableEq

structure Endpoint where
  ip : IpAddr
  udpPort : UInt16
  tcpPort : UInt16
  deriving DecidableEq

open Endpoint

inductive Packet where
  | ping (version : UInt32) (sender dest : Endpoint) (expiration : UInt64)
  | pong (dest : Endpoint) (pingHash : H256) (expiration : UInt64)
  | findNode (target : H256) (expiration : UInt64)
  | neighbours (nodes : List Endpoint) (expiration : UInt64)
  deriving DecidableEq

open Packet

inductive DiscoveryError where
  | rlp (e : RlpError)
  | frame (msg : String)
  | crypto
  | unknownPacketType (type : UInt8)
  | packetTooLarge (length : Nat)
  deriving DecidableEq

/-- `encode_ip_bytes`. -/
def IpAddr.octets : IpAddr → Bytes
  | .v4 octets => octets.toList
  | .v6 octets => octets.toList

/-- `Endpoint::rlp_payload_length`. -/
def Endpoint.payloadLength (e : Endpoint) : Nat :=
  stringLength e.ip.octets + uintLength 2 e.udpPort.toNat + uintLength 2 e.tcpPort.toNat

/-- `Endpoint::encode_to`. -/
def Endpoint.encode (e : Endpoint) : Bytes :=
  encodeHeader true e.payloadLength ++
    (encodeString e.ip.octets ++ (encodeUint 2 e.udpPort.toNat ++ encodeUint 2 e.tcpPort.toNat))

/-- `Endpoint::decode_from`. -/
def Endpoint.decode : Decoder Endpoint := do
  let _ ← decodeListHeader
  let octets ← decodeString
  let udpPort ← decodeUint 2
  let tcpPort ← decodeUint 2
  match arr? 4 octets, arr? 16 octets with
  | some octets, _ => pure ⟨.v4 octets, UInt16.ofNat udpPort, UInt16.ofNat tcpPort⟩
  | none, some octets => pure ⟨.v6 octets, UInt16.ofNat udpPort, UInt16.ofNat tcpPort⟩
  | none, none =>
    Decoder.fail (.custom (if octets.isEmpty then "empty ip" else "unexpected ip length"))

def Packet.typeByte : Packet → UInt8
  | .ping .. => 1
  | .pong .. => 2
  | .findNode .. => 3
  | .neighbours .. => 4

def Packet.encodeData : Packet → Bytes
  | .ping version sender dest expiration =>
    encodeHeader true (uintLength 4 version.toNat + listLength sender.payloadLength
        + listLength dest.payloadLength + u64Length expiration) ++
      (encodeUint 4 version.toNat ++ (sender.encode ++ (dest.encode ++ encodeU64 expiration)))
  | .pong dest pingHash expiration =>
    encodeHeader true (listLength dest.payloadLength + stringLength pingHash.toList
        + u64Length expiration) ++
      (dest.encode ++ (encodeString pingHash.toList ++ encodeU64 expiration))
  | .findNode target expiration =>
    encodeHeader true (stringLength target.toList + u64Length expiration) ++
      (encodeString target.toList ++ encodeU64 expiration)
  | .neighbours nodes expiration =>
    let inner := (nodes.map fun n => listLength n.payloadLength).sum
    encodeHeader true (listLength inner + u64Length expiration) ++
      (encodeHeader true inner ++ (nodes.flatMap Endpoint.encode ++ encodeU64 expiration))

def readFields (fields : Decoder Packet) (data : Bytes) : Except DiscoveryError Packet :=
  match fields data with
  | .error e => .error (.rlp e)
  | .ok (packet, _) => .ok packet

def Packet.decodeData (type : UInt8) (data : Bytes) : Except DiscoveryError Packet :=
  match decodeHeader data with
  | .error e => .error (.rlp e)
  | .ok ((false, _), _) => .error (.frame "expected list")
  | .ok ((true, _), data) =>
    match type with
    | 1 => readFields (do
        let version ← decodeUint 4
        let sender ← Endpoint.decode
        let dest ← Endpoint.decode
        let expiration ← decodeU64
        pure (.ping (UInt32.ofNat version) sender dest expiration)) data
    | 2 => readFields (do
        let dest ← Endpoint.decode
        let pingHash ← decodeArr 32
        let expiration ← decodeU64
        pure (.pong dest pingHash expiration)) data
    | 3 => readFields (do
        let target ← decodeArr 32
        let expiration ← decodeU64
        pure (.findNode target expiration)) data
    | 4 =>
      match decodeHeader data with
      | .error e => .error (.rlp e)
      | .ok ((false, _), _) => .error (.frame "expected nodes list")
      | .ok ((true, len), data) => readFields (do
          let nodes ← decodeItems Endpoint.decode len
          let expiration ← decodeU64
          pure (.neighbours nodes expiration)) data
    | other => .error (.unknownPacketType other)

structure SecretKey (c : Crypto) where
  sign : H256 → Arr 65
  publicKey : Arr 64
  recovers : ∀ hash, c.secpRecover (sign hash) hash = some publicKey

def MAX_DISCOVERY_PACKET : Nat := 1280

structure DecodedPacket where
  packet : Packet
  senderPubkey : Arr 64
  senderAddress : Address
  packetHash : H256

section Codec

variable (c : Crypto) {nodes : List Endpoint} {expiration : UInt64} {secret : SecretKey c}
  {packet : Packet}

def encodePacket (secret : SecretKey c) (packet : Packet) : Except DiscoveryError Bytes :=
  let body := packet.typeByte :: packet.encodeData
  let signature := secret.sign (c.keccak256 body)
  let out := (c.keccak256 (signature.toList ++ body)).toList ++ (signature.toList ++ body)
  if MAX_DISCOVERY_PACKET < out.length then .error (.packetTooLarge out.length) else .ok out

def decodePacket (bytes : Bytes) : Except DiscoveryError DecodedPacket :=
  match arr? 65 ((bytes.drop 32).take 65), bytes.drop 97 with
  | some signature, type :: data =>
    let hash := c.keccak256 (signature.toList ++ type :: data)
    if hash.toList ≠ bytes.take 32 then .error (.frame "bad packet hash")
    else
      match c.secpRecover signature (c.keccak256 (type :: data)) with
      | none => .error .crypto
      | some key =>
        match Packet.decodeData type data with
        | .error e => .error e
        | .ok packet => .ok ⟨packet, key, c.addressOf key, hash⟩
  | _, _ => .error (.frame "packet too short")

/-! ## The responder -/

/-- The order of addresses: by family, address and port. -/
def SocketAddr.key (peer : SocketAddr) : Nat :=
  (match peer.ip with
    | .v4 octets => ofBe octets.toList
    | .v6 octets => 2 ^ 32 + ofBe octets.toList) * 2 ^ 16 + peer.port.toNat

def peerIsAdvertisable (peer : SocketAddr) : Bool :=
  !peer.ip.octets.all (· == 0) && peer.port != 0

def insertSorted (peer : SocketAddr) : List SocketAddr → List SocketAddr
  | [] => [peer]
  | p :: peers =>
    if peer.key < p.key then peer :: p :: peers
    else if peer.key = p.key then p :: peers
    else p :: insertSorted peer peers

def normalizePeers (peers : List SocketAddr) : List SocketAddr :=
  (peers.filter peerIsAdvertisable).foldl (fun acc peer => insertSorted peer acc) []

def insertSharedPeer (peers : List SocketAddr) (peer : SocketAddr) : List SocketAddr :=
  if peerIsAdvertisable peer then insertSorted peer peers else peers

inductive PeerEvent where
  | configured (next : List SocketAddr)
  | ping (sender : Endpoint)

/-- `set_shared_peers`, and the ping branch of the responder. -/
def sharedPeers (peers : List SocketAddr) : PeerEvent → List SocketAddr
  | .configured next => normalizePeers next
  | .ping sender => insertSharedPeer peers ⟨sender.ip, sender.tcpPort⟩

def knownNodes (self : Option Endpoint) (peers : List SocketAddr) : List Endpoint :=
  self.toList ++ (peers.filter peerIsAdvertisable).map fun peer => ⟨peer.ip, peer.port, peer.port⟩

/-! ## Answers are read back -/

variable {c}

lemma Endpoint.payloadLength_eq (e : Endpoint) : e.payloadLength = (encodeString e.ip.octets ++
      (encodeUint 2 e.udpPort.toNat ++ encodeUint 2 e.tcpPort.toNat)).length := by
  rw [payloadLength, stringLength_eq, uintLength_eq e.udpPort.toNat_lt (by decide),
    uintLength_eq e.tcpPort.toNat_lt (by decide), length_append, length_append, Nat.add_assoc]

lemma Endpoint.encode_eq (e : Endpoint) : e.encode = encodeList (encodeString e.ip.octets ++
      (encodeUint 2 e.udpPort.toNat ++ encodeUint 2 e.tcpPort.toNat)) := by
  rw [encode, e.payloadLength_eq, encodeList]

lemma encodeString_length_lt {bs : Bytes} (h : bs.length < 56) :
    (encodeString bs).length ≤ bs.length + 1 := by
  have ho : lengthOfLength 1 = 1 := rfl
  rw [← stringLength_eq]
  unfold stringLength
  split
  · split_ifs <;> simp [ho]
  · rw [lengthOfLength, if_pos h]

lemma encodeUint_length_le {w : Nat} (n : Nat) (hw : w < 55) :
    (encodeUint w n).length ≤ w + 1 := by
  have hle := stripZeros_length_le (toBe w n)
  rw [toBe_length] at hle
  exact (encodeString_length_lt (by omega)).trans (by omega)

lemma Endpoint.payload_length_le (e : Endpoint) : (encodeString e.ip.octets ++
      (encodeUint 2 e.udpPort.toNat ++ encodeUint 2 e.tcpPort.toNat)).length ≤ 23 := by
  have hip : e.ip.octets.length ≤ 16 := by
    unfold IpAddr.octets
    split <;> simp
  have hs : (encodeString e.ip.octets).length ≤ _ := encodeString_length_lt (by omega)
  have hu := encodeUint_length_le (w := 2) e.udpPort.toNat (by decide)
  have ht := encodeUint_length_le (w := 2) e.tcpPort.toNat (by decide)
  rw [length_append, length_append]
  omega

lemma Endpoint.length_encode_le (e : Endpoint) : e.encode.length ≤ 24 := by
  have hle := e.payload_length_le
  rw [e.encode_eq, encodeList, length_append, encodeHeader_length_eq, lengthOfLength,
    if_pos (by omega)]
  omega

lemma Endpoint.readsBack (e : Endpoint) : ReadsBack decode encode e where
  read rest := by
    have hpy := e.payload_length_le.trans_lt (show 23 < 2 ^ 64 by decide)
    have hip : e.ip.octets.length < 2 ^ 64 :=
      (length_le_encodeString _).trans_lt ((length_append ▸ Nat.le_add_right _ _).trans_lt hpy)
    rw [e.encode_eq]
    simp only [decode, bind, Decoder.bind, decodeListHeader_encodeList hpy, append_assoc,
      decodeString_encodeString hip, decodeUint_encodeUint (w := 2) (by decide) e.udpPort.toNat_lt,
      decodeUint_encodeUint (w := 2) (by decide) e.tcpPort.toNat_lt]
    obtain ⟨ip, udpPort, tcpPort⟩ := e
    cases ip with
    | v4 => simp [IpAddr.octets, pure, Decoder.pure]
    | v6 => simp [IpAddr.octets, arr?, pure, Decoder.pure]
  ne_nil := by
    rw [e.encode_eq]
    simp [encodeList, encodeHeader]
    split_ifs <;> simp

/-- The bytes written after the header. -/
def Packet.payload : Packet → Bytes
  | .ping version sender dest expiration =>
    encodeUint 4 version.toNat ++ (sender.encode ++ (dest.encode ++ encodeU64 expiration))
  | .pong dest pingHash expiration =>
    dest.encode ++ (encodeString pingHash.toList ++ encodeU64 expiration)
  | .findNode target expiration => encodeString target.toList ++ encodeU64 expiration
  | .neighbours nodes expiration =>
    encodeList (nodes.flatMap Endpoint.encode) ++ encodeU64 expiration

lemma Endpoint.listLength_payload (e : Endpoint) :
    listLength e.payloadLength = e.encode.length := by
  rw [e.payloadLength_eq, listLength_eq, e.encode_eq]

lemma Packet.encodeData_eq (packet : Packet) : packet.encodeData = encodeList packet.payload := by
  cases packet with
  | ping version =>
    simp only [encodeData, payload, encodeList, listLength_payload, length_append,
      uintLength_eq (w := 4) version.toNat_lt (by decide), u64Length_eq, Nat.add_assoc]
  | pong | findNode =>
    simp only [encodeData, payload, encodeList, listLength_payload, length_append,
      stringLength_eq, u64Length_eq, Nat.add_assoc]
  | neighbours nodes =>
    have hi : (nodes.map fun n => listLength n.payloadLength).sum =
        (nodes.flatMap encode).length := by
      rw [length_flatMap]
      exact congrArg List.sum (map_congr_left fun n _ => n.listLength_payload)
    rw [encodeData, hi, listLength_eq, u64Length_eq]
    simp only [payload, encodeList, length_append, append_assoc, Nat.add_assoc]

lemma decodeData_encodeData (h : packet.encodeData.length < 2 ^ 64) :
    decodeData packet.typeByte packet.encodeData = .ok packet := by
  rw [packet.encodeData_eq] at h ⊢
  have ho := payload_lt h
  have hread := decodeHeader_encodeList ho []
  have he : ∀ x, decodeU64 (encodeU64 x) = .ok (x, []) := fun x => by
    simpa using decodeU64_encodeU64 x []
  have hen := fun e : Endpoint => e.readsBack.read
  rw [append_nil, append_nil] at hread
  rw [decodeData, hread]
  cases packet with
  | ping version =>
    simp [typeByte, payload, readFields, bind, Decoder.bind, hen,
      decodeUint_encodeUint (w := 4) (by decide) version.toNat_lt, he, pure, Decoder.pure]
  | pong | findNode =>
    simp [typeByte, payload, readFields, bind, Decoder.bind, hen,
      decodeArr_encodeString, he, pure, Decoder.pure]
  | neighbours nodes =>
    have hi := payload_lt ((length_append ▸ Nat.le_add_right _ _).trans_lt ho)
    have hit := decodeItems_flatMap (fun (e : Endpoint) (_ : e ∈ nodes) => e.readsBack)
    simp only [typeByte, payload, decodeHeader_encodeList hi, readFields, bind,
      Decoder.bind, hit, he, pure, Decoder.pure]

lemma decodePacket_encodePacket {wire : Bytes} (h : encodePacket c secret packet = .ok wire)
    (hdt : decodeData packet.typeByte packet.encodeData = .ok packet) :
    ∃ hash, decodePacket c wire =
      .ok ⟨packet, secret.publicKey, c.addressOf secret.publicKey, hash⟩ ∧
        hash.toList = wire.take 32 := by
  unfold encodePacket at h
  dsimp only at h
  split_ifs at h
  injection h with h
  subst h
  refine ⟨_, ?_, (take_left' (length_toList _)).symm⟩
  rw [decodePacket, drop_left' (length_toList _), take_left' (length_toList _),
    take_left' (length_toList _), ← append_assoc, drop_left' (by simp), arr?_toList]
  dsimp only
  rw [if_neg (by simp), secret.recovers]
  dsimp only
  rw [hdt]

lemma encodePacket_ok_iff :
    (∃ wire, encodePacket c secret packet = .ok wire) ↔ packet.encodeData.length ≤ 1182 := by
  unfold encodePacket
  dsimp only
  split_ifs with hlg <;> simp [MAX_DISCOVERY_PACKET] at hlg ⊢ <;> omega

lemma length_encodeList_le (payload : Bytes) :
    (encodeList payload).length ≤ payload.length + 9 := by
  have hhd := encodeHeader_length_le true payload.length
  rw [encodeList, length_append]
  omega

lemma neighbours_length_le (h : nodes.length ≤ 48) :
    (neighbours nodes expiration).encodeData.length ≤ 1182 := by
  have hn : (nodes.flatMap encode).length ≤ nodes.length * 24 := by
    rw [length_flatMap]
    exact sum_le_card_nsmul _ _ (by simpa using fun e _ => e.length_encode_le) |>.trans (by simp)
  have he := encodeUint_length_le (w := 8) expiration.toNat (by decide)
  have hi := length_encodeList_le (nodes.flatMap encode)
  have ho := length_encodeList_le
    (encodeList (nodes.flatMap encode) ++ encodeUint 8 expiration.toNat)
  rw [length_append] at ho
  rw [encodeData_eq, payload, encodeU64]
  omega

/-- **A FindNode request is answered while the list fits.** -/
theorem find_node_answered (c : Crypto) (secret : SecretKey c) (self : Option Endpoint)
    (configured : List SocketAddr) (events : List PeerEvent) (expiration : UInt64) :
    let nodes := knownNodes self (events.foldl sharedPeers (normalizePeers configured))
    let answer := Packet.neighbours nodes expiration
    ((∃ wire, encodePacket c secret answer = .ok wire ∧ wire.length ≤ 1280 ∧
        ∃ decoded, decodePacket c wire = .ok decoded ∧ decoded.packet = answer) ↔
      answer.encodeData.length ≤ 1182) ∧
    (nodes.length ≤ 48 → answer.encodeData.length ≤ 1182) := by
  intro nodes answer
  refine ⟨⟨fun ⟨wire, hw, _⟩ => encodePacket_ok_iff.mp ⟨wire, hw⟩, fun hsh => ?_⟩,
    neighbours_length_le⟩
  obtain ⟨wire, hw⟩ : ∃ wire, encodePacket c secret answer = .ok wire := encodePacket_ok_iff.mpr hsh
  obtain ⟨hash, hd, -⟩ := decodePacket_encodePacket hw
    (decodeData_encodeData (hsh.trans_lt (by decide)))
  refine ⟨wire, hw, ?_, _, hd, rfl⟩
  unfold encodePacket at hw
  dsimp only at hw
  split_ifs at hw with hlg
  injection hw with hw
  exact hw ▸ Nat.le_of_not_lt hlg

def sampleSecret : SecretKey .reference := ⟨fun _ => Arr.zero 65, Arr.zero 64, fun _ => rfl⟩

def samplePings (n : Nat) : List PeerEvent :=
  (List.range n).map fun i =>
    .ping ⟨.v4 (arrOfNat 4 (10 * 2 ^ 24 + i)), 30303, 30303⟩

/-- After 98 pings the answer no longer fits. -/
theorem pings_silence_responder :
    (encodePacket .reference sampleSecret (.neighbours (knownNodes none
        ((samplePings 97).foldl sharedPeers (normalizePeers []))) 1)).isOk ∧
      encodePacket .reference sampleSecret (.neighbours (knownNodes none
        ((samplePings 98).foldl sharedPeers (normalizePeers []))) 1) =
          .error (.packetTooLarge 1281) := by
  decide +kernel

/-- What is encoded is read back with the signer, and the lengths summed
up for the headers are those of the bytes written. -/
theorem discovery_round_trip (c : Crypto) (secret : SecretKey c) (packet : Packet) (wire : Bytes)
    (h : encodePacket c secret packet = .ok wire) :
    (∃ hash, decodePacket c wire =
      .ok ⟨packet, secret.publicKey, c.addressOf secret.publicKey, hash⟩ ∧
        hash.toList = wire.take 32) ∧
      packet.encodeData = encodeList packet.payload ∧
      ∀ e : Endpoint, e.encode = encodeList (encodeString e.ip.octets ++
        (encodeUint 2 e.udpPort.toNat ++ encodeUint 2 e.tcpPort.toNat)) :=
  ⟨decodePacket_encodePacket h (decodeData_encodeData
    ((encodePacket_ok_iff.mp ⟨wire, h⟩).trans_lt (by decide))), packet.encodeData_eq,
    encode_eq⟩

def samplePacket : Packet :=
  .neighbours [⟨.v4 (arrOfNat 4 1), 30303, 30303⟩, ⟨.v6 (arrOfNat 16 2), 30303, 0⟩] 1

theorem discovery_round_trip_neighbours : ∃ wire hash,
    encodePacket .reference sampleSecret samplePacket = .ok wire ∧
      decodePacket .reference wire = .ok ⟨samplePacket, sampleSecret.publicKey,
        Crypto.reference.addressOf sampleSecret.publicKey, hash⟩ ∧ hash.toList = wire.take 32 := by
  obtain ⟨wire, hw⟩ := encodePacket_ok_iff.mpr
    (by decide : samplePacket.encodeData.length ≤ 1182)
  obtain ⟨hash, hd⟩ := (discovery_round_trip _ sampleSecret _ _ hw).1
  exact ⟨wire, hash, hw, hd⟩

end Codec

end Aii.Net
