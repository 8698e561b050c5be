/-
Aii.Chain.Trie — Merkle Patricia tree roots (`aii-state/src/trie.rs`).

A node is a LEAF, an EXTENSION or a BRANCH; a child of at most 31 bytes is
inlined.
-/
import Aii.Chain.Block
import Mathlib.Data.List.Sort

namespace Aii.Chain

open Common Common.Rlp

def keyToNibbles (bs : Bytes) : Bytes := bs.flatMap fun (b : UInt8) => [b >>> 4, b &&& 0x0F]

/-- Two nibbles per byte; a trailing odd nibble is dropped, as the
source's `while i + 1 < len` loop does. -/
def packNibbles : Bytes → Bytes
  | a :: b :: rest => ((a <<< 4) ||| b) :: packNibbles rest
  | _ => []

def hexPrefix (nibbles : Bytes) (isLeaf : Bool) : Bytes :=
  let flag : UInt8 := if isLeaf then 2 else 0
  match nibbles with
  | [] => [flag <<< 4]
  | n :: rest =>
    if nibbles.length % 2 = 1 then (((flag ||| 1) <<< 4) ||| n) :: packNibbles rest
    else (flag <<< 4) :: packNibbles nibbles

/-- The longest common prefix of two byte strings, as a length. -/
def commonLen : Bytes → Bytes → Nat
  | a :: as, b :: bs => if a = b then commonLen as bs + 1 else 0
  | _, _ => 0

def commonPrefixLen : List (Bytes × Bytes) → Nat
  | [] => 0
  | (k, _) :: rest => rest.foldl (fun n p => min n (commonLen k p.1)) k.length

variable (c : Crypto)

/-- `child_ref` together with `write_child_ref`. -/
def childRef (node : Bytes) : Bytes :=
  if node.length < 32 then node else encodeString (c.keccak256 node).toList

def rlpLeaf (path value : Bytes) : Bytes :=
  encodeList (encodeString (hexPrefix path true) ++ encodeString value)

def rlpExtension (path child : Bytes) : Bytes :=
  encodeList (encodeString (hexPrefix path false) ++ childRef c child)

/-- `rlp_branch`; an absent child is the empty string. -/
def rlpBranch (children : List Bytes) (value : Bytes) : Bytes :=
  encodeList (children.flatMap (fun n => if n.isEmpty then [0x80] else childRef c n) ++
    encodeString value)

def nibbleRuns (pairs : List (Bytes × Bytes)) : List (List (Bytes × Bytes)) :=
  pairs.splitBy fun a b => a.1.head? == b.1.head?

def buildNode : Nat → List (Bytes × Bytes) → Bytes
  | 0, _ => []
  | _ + 1, [(k, v)] => rlpLeaf k v
  | fuel + 1, pairs =>
    let common := commonPrefixLen pairs
    if 0 < common then
      rlpExtension c ((pairs.headD ([], [])).1.take common)
        (buildNode fuel (pairs.map fun p => (p.1.drop common, p.2)))
    else
      let step (acc : List Bytes × Bytes) (run : List (Bytes × Bytes)) : List Bytes × Bytes :=
        match run with
        | [] => acc
        | (k, v) :: more =>
          match k with
          | [] => (acc.1, (more.getLastD (k, v)).2)
          | n :: _ =>
            (acc.1.set n.toNat (buildNode fuel (run.map fun p => (p.1.drop 1, p.2))), acc.2)
      let (children, value) := (nibbleRuns pairs).foldl step (List.replicate 16 [], [])
      rlpBranch c children value

def mptRoot (items : List (Bytes × Bytes)) : H256 :=
  match items with
  | [] => EMPTY_TRIE_HASH
  | items =>
    let pairs := (items.map fun p => (keyToNibbles p.1, p.2)).insertionSort fun a b => a.1 ≤ b.1
    c.keccak256 (buildNode c ((pairs.map fun p => p.1.length).sum + 1) pairs)

def indexedPairs (values : List Bytes) : List (Bytes × Bytes) :=
  values.zipIdx.map fun p => (encodeU64 (UInt64.ofNat p.2), p.1)

def transactionsRoot (body : BlockBody) : H256 :=
  mptRoot c (indexedPairs (body.transactions.map Tx.encode2718))

def receiptsRoot (receipts : List Receipt) : H256 :=
  mptRoot c (indexedPairs (receipts.map Receipt.encode2718))

end Aii.Chain
