/-
Aii.Net.TxPool — the pool of transactions (`aii-net-txpool`).

The key is the sender followed by the big-endian nonce, the order of the
source's `BTreeMap`.
-/
import Aii.Chain.Tx
import Aii.Common.OrderedMap

namespace Aii.Net

open Common Chain

structure PoolEntry where
  sender : Address
  nonce : UInt64
  effectiveGasPrice : U256
  tx : Tx

def poolKey (sender : Address) (nonce : UInt64) : Bytes := sender.toList ++ u64Be nonce

structure TxPool where
  entries : Std.ExtTreeMap Bytes PoolEntry
  capacity : Nat

inductive AddOutcome where
  | inserted
  | rejectedUnderpriced
  | replaced (old : PoolEntry)

inductive PoolError where
  | full
  deriving DecidableEq

def PoolError.text : PoolError → String
  | .full => "pool full"

namespace TxPool

def new (capacity : Nat) : TxPool := ⟨∅, capacity⟩

def add (pool : TxPool) (entry : PoolEntry) : Except PoolError (TxPool × AddOutcome) :=
  if pool.capacity ≤ pool.entries.size then .error .full
  else
    let key := poolKey entry.sender entry.nonce
    match pool.entries[key]? with
    | some existing =>
      if entry.effectiveGasPrice.toNat ≤ existing.effectiveGasPrice.toNat then
        .ok (pool, .rejectedUnderpriced)
      else .ok (⟨pool.entries.insert key entry, pool.capacity⟩, .replaced existing)
    | none => .ok (⟨pool.entries.insert key entry, pool.capacity⟩, .inserted)

/-- Without the entry at a key, which is returned. -/
def remove (pool : TxPool) (sender : Address) (nonce : UInt64) : TxPool × Option PoolEntry :=
  (⟨pool.entries.erase (poolKey sender nonce), pool.capacity⟩, pool.entries[poolKey sender nonce]?)

/-- The loop of `drain_ready`. A turn that goes on has removed an entry, so
the loop ends after as many turns as there are entries. The error is a
failed `expect`, i.e. a panic. -/
def drainLoop (sender : Address) : Nat → Std.ExtTreeMap Bytes PoolEntry → UInt64 → List Tx →
    Except String (Std.ExtTreeMap Bytes PoolEntry × List Tx)
  | 0, entries, _, out => .ok (entries, out)
  | turns + 1, entries, nextNonce, out =>
    match entries[poolKey sender nextNonce]? with
    | none => .ok (entries, out)
    | some entry =>
      match checkedAdd64 nextNonce 1 with
      | none => .error "nonce overflow"
      | some next => drainLoop sender turns (entries.erase (poolKey sender nextNonce)) next
          (out ++ [entry.tx])

def drainReady (pool : TxPool) (sender : Address) (currentNonce : UInt64) :
    Except String (TxPool × List Tx) :=
  (drainLoop sender pool.entries.size pool.entries currentNonce []).map fun r =>
    (⟨r.1, pool.capacity⟩, r.2)

def drainKey (r : Std.ExtTreeMap Bytes PoolEntry × List Tx) (key : Bytes) :
    Std.ExtTreeMap Bytes PoolEntry × List Tx :=
  match r.1[key]? with
  | some e => (r.1.erase key, r.2 ++ [e.tx])
  | none => r

def drainUpTo (pool : TxPool) (n : Nat) : TxPool × List Tx :=
  let r := (pool.entries.keys.take n).foldl drainKey (pool.entries, [])
  (⟨r.1, pool.capacity⟩, r.2)

/-- The prices of the pool, in ascending order. -/
def byPrice (pool : TxPool) : List (Bytes × U256) :=
  (pool.entries.toList.map fun e => (e.1, e.2.effectiveGasPrice)).insertionSort
    fun a b => a.2.toNat ≤ b.2.toNat

def evictTo (pool : TxPool) (target : Nat) : TxPool :=
  if pool.entries.size ≤ target then pool
  else
    ⟨(pool.byPrice.take (pool.entries.size - target)).foldl (fun m e => m.erase e.1) pool.entries,
      pool.capacity⟩

end TxPool

def effectiveGasPrice : Tx → U256
  | .legacy t => t.gasPrice
  | .eip1559 t => t.maxFeePerGas
  | .eip4844 t => t.maxFeePerGas

end Aii.Net
