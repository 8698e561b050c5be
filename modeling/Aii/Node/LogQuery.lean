/-
Aii.Node.LogQuery — querying logs (`logs_in_range`, `post_roots` and
`receipt_by_tx_hash` of `aii-node/src/lib.rs`).

A filter is a record of texts; a field that does not parse counts as one
that was not given.
-/
import Aii.Chain.Bloom
import Aii.Node.ChainBinding
import Aii.Node.Commit

namespace Aii.Node

open Common Chain List String Bloom

abbrev Text := List Char

structure LogFilter where
  fromBlock : Option Text
  toBlock : Option Text
  address : Option Text
  topics : List Text
  deriving DecidableEq

def isWhitespace (ch : Char) : Bool :=
  (9 ≤ ch.toNat && ch.toNat ≤ 13) || (0x2000 ≤ ch.toNat && ch.toNat ≤ 0x200A) ||
    [0x20, 0x85, 0xA0, 0x1680, 0x2028, 0x2029, 0x202F, 0x205F, 0x3000].contains ch.toNat

def trim (s : Text) : Text :=
  ((s.dropWhile isWhitespace).reverse.dropWhile isWhitespace).reverse

def toDigit (radix : Nat) (ch : Char) : Option Nat :=
  let d :=
    if '0' ≤ ch ∧ ch ≤ '9' then ch.toNat - '0'.toNat
    else if 'a' ≤ ch ∧ ch ≤ 'z' then ch.toNat - 'a'.toNat + 10
    else if 'A' ≤ ch ∧ ch ≤ 'Z' then ch.toNat - 'A'.toNat + 10
    else radix
  if d < radix then some d else none

def digitsValue (radix : Nat) (digits : Text) : Option Nat :=
  digits.foldlM (fun value ch => (toDigit radix ch).map (value * radix + ·)) 0

/-- `u64::from_str_radix`. A plus may stand in front. -/
def fromStrRadix (radix : Nat) (s : Text) : Option UInt64 :=
  let digits := if s.head? = some '+' then s.tail else s
  if digits.isEmpty then none
  else ((digitsValue radix digits).filter (· < 2 ^ 64)).map UInt64.ofNat

def parseBlockTag (s : Text) : Option UInt64 :=
  match trim s with
  | '0' :: 'x' :: rest => fromStrRadix 16 rest
  | trimmed => fromStrRadix 10 trimmed

def hexArr? (n : Nat) (s : Text) : Option (Arr n) :=
  let digits := without0x (s.flatMap String.utf8EncodeChar)
  if digits.length ≠ 2 * n then none
  else
    match hexDecode digits with
    | .ok decoded => arr? n decoded
    | .error _ => none

/-- What a filter asks for. -/
structure LogQuery where
  fromBlock : UInt64
  toBlock : UInt64
  address : Option Address
  topics : List H256
  deriving DecidableEq

def LogFilter.query (f : LogFilter) (head : UInt64) : LogQuery where
  fromBlock := (f.fromBlock.bind parseBlockTag).getD 0
  toBlock := min ((f.toBlock.bind parseBlockTag).getD head) head
  address := f.address.bind (hexArr? 20)
  topics := f.topics.filterMap (hexArr? 32)

namespace LogQuery

def covers (q : LogQuery) (number : UInt64) : Bool :=
  q.fromBlock ≤ number && number ≤ q.toBlock

def accepts (q : LogQuery) (log : Log) : Bool :=
  q.address.all (log.address = ·) && q.topics.all fun t => log.topics.any (· = t)

/-- The bloom misses neither the address nor a topic. -/
def admits (c : Crypto) (q : LogQuery) (bloom : Bloom) : Bool :=
  q.address.all (fun a => bloom.contains c a.toList) &&
    q.topics.all fun t => bloom.contains c t.toList

end LogQuery

/-- `PostBlockRoots`, as stored. -/
structure StoredRoots where
  stateRoot : H256
  receiptsRoot : H256
  logsBloom : Bloom

/-- `post_roots`: a record of another length reads as none. -/
def postRoots (b : Backend) (blockHash : H256) : Option StoredRoots :=
  (b.get .metaCf (META_KEY_POSTROOT_PREFIX ++ blockHash.toList)).bind fun roots =>
    if roots.length ≠ 32 + 32 + 256 then none
    else do
      let stateRoot ← arr? 32 (roots.take 32)
      let receiptsRoot ← arr? 32 ((roots.drop 32).take 32)
      let logsBloom ← arr? 256 (roots.drop 64)
      pure ⟨stateRoot, receiptsRoot, logsBloom⟩

lemma postRoots_persistPostRoots (b : Backend) (h stateRoot receiptsRoot : H256) (bloom : Bloom) :
    postRoots (persistPostRoots b h stateRoot receiptsRoot bloom) h =
      some ⟨stateRoot, receiptsRoot, bloom⟩ := by
  have hr : (stateRoot.toList ++ receiptsRoot.toList).length = 64 := by simp
  rw [postRoots, persistPostRoots, Backend.get_put_self, Option.bind_some, if_neg (by simp),
    drop_left' hr, List.append_assoc, take_left' (by simp), drop_left' (by simp),
    take_left' (by simp)]
  simp

def receiptByTxHash (b : Backend) (txHash : H256) : Except Rlp.RlpError (Option Receipt) :=
  match b.get .receipts txHash.toList with
  | none => .ok none
  | some stored =>
    match Receipt.decode2718 stored with
    | .ok (r, _) => .ok (some r)
    | .error e => .error e

structure LogEntry where
  blockNumber : UInt64
  transactionHash : H256
  log : Log
  deriving DecidableEq

structure LogEntryView where
  blockNumber : String
  transactionHash : String
  address : String
  topics : List String
  data : String
  deriving DecidableEq

/-- `0x` and the digits of a number. -/
def hexNumber (n : UInt64) : String := "0x" ++ String.ofList (Nat.toDigits 16 n.toNat)

/-- `0x` and the digits of bytes. -/
def hexBytes (bs : Bytes) : String := "0x" ++ Governance.hexEncode bs

def LogEntry.view (e : LogEntry) : LogEntryView where
  blockNumber := hexNumber e.blockNumber
  transactionHash := hexBytes e.transactionHash.toList
  address := hexBytes e.log.address.toList
  topics := e.log.topics.map fun t => hexBytes t.toList
  data := hexBytes e.log.data

section Query

variable (c : Crypto)

def acceptedEntries (q : LogQuery) (number : UInt64) (tx : Tx) (logs : List Log) : List LogEntry :=
  (logs.filter q.accepts).map fun log => ⟨number, tx.hash c, log⟩

def entriesAt (n : NodeState) (q : LogQuery) (number : UInt64) : List LogEntry :=
  match n.blocks.byNumber[number]? with
  | none => []
  | some blockHash =>
    if (postRoots n.backend blockHash).any fun roots => !q.admits c roots.logsBloom then []
    else
      match n.blocks.bodyByHash[blockHash.toList]? with
      | none => []
      | some body => body.transactions.flatMap fun tx =>
        match receiptByTxHash n.backend (tx.hash c) with
        | .ok (some r) => acceptedEntries c q number tx r.logs
        | _ => []

def entriesInRange (n : NodeState) (q : LogQuery) : List LogEntry :=
  (List.range' q.fromBlock.toNat (q.toBlock.toNat + 1 - q.fromBlock.toNat)).flatMap fun number =>
    entriesAt c n q (UInt64.ofNat number)

def logsInRange (n : NodeState) (f : LogFilter) : List LogEntryView :=
  (entriesInRange c n (f.query n.head)).map LogEntry.view

end Query

lemma toDigit_digitChar {d : Nat} (h : d < 16) : toDigit 16 (Nat.digitChar d) = some d := by
  have ha : ∀ d : Fin 16, toDigit 16 (Nat.digitChar d) = some d.val := by decide
  exact ha ⟨d, h⟩

lemma digitsValue_toDigits (n : Nat) : digitsValue 16 (Nat.toDigits 16 n) = some n := by
  induction n using Nat.strongRecOn with
  | ind n ih =>
    rw [Nat.toDigits_eq_if (by decide)]
    split_ifs with hn
    · simp [digitsValue, toDigit_digitChar hn]
    · have hprev := ih (n / 16) (by omega)
      unfold digitsValue at hprev ⊢
      have hsi := Nat.div_add_mod' n 16
      rw [foldlM_append, hprev]
      simp [toDigit_digitChar (Nat.mod_lt n (by decide : 0 < 16)), hsi]

lemma ofList_inj {s t : List Char} (h : ofList s = ofList t) : s = t := by
  rw [← toList_ofList (l := s), h, toList_ofList]

lemma after0x_inj {s t : String} (h : "0x" ++ s = "0x" ++ t) : s = t := by
  have hls := congrArg toList h
  rw [toList_append, toList_append] at hls
  exact toList_inj.mp (append_cancel_left hls)

lemma hexNumber_injective : Function.Injective hexNumber := by
  intro n m h
  have hd := ofList_inj (after0x_inj h)
  refine UInt64.toNat_inj.mp (Option.some.inj ?_)
  rw [← digitsValue_toDigits, hd, digitsValue_toDigits]

lemma hexBytes_injective : Function.Injective hexBytes := by
  intro bs bs' h
  have hc := ofList_inj (after0x_inj h)
  clear h
  induction bs generalizing bs' with
  | nil => cases bs' with
    | nil => rfl
    | cons => simp at hc
  | cons b _ ih => cases bs' with
    | nil => simp at hc
    | cons b' =>
      simp only [flatMap_cons, cons_append, nil_append, cons.injEq] at hc
      obtain ⟨hhh, hl, hrs⟩ := hc
      -- a digit character has one value
      have hdg : ∀ {d d' : Nat}, d < 16 → d' < 16 → Nat.digitChar d = Nat.digitChar d' →
          d = d' := by
        intro d d' hd hd' heq
        rw [← Option.some_inj, ← toDigit_digitChar hd, heq, toDigit_digitChar hd']
      have hb := b.toNat_lt
      have hb' := b'.toNat_lt
      have hdv := hdg (by omega) (by omega) hhh
      have hm := hdg (by omega) (by omega) hl
      rw [ih hrs, UInt8.toNat_inj.mp (by omega : b.toNat = b'.toNat)]

lemma LogEntry.view_injective : Function.Injective LogEntry.view := by
  rintro ⟨number, txHash, address, topics, data⟩ ⟨number', txHash', address', topics', data'⟩ h
  obtain ⟨hnm, htx, had, ht, hdt⟩ := LogEntryView.mk.inj h
  have ha {n : Nat} : Function.Injective fun a : Arr n => hexBytes a.toList :=
    hexBytes_injective.comp fun _ _ => toList_inj.mp
  obtain rfl := hexNumber_injective hnm
  obtain rfl := ha htx
  obtain rfl := ha had
  obtain rfl := map_injective_iff.mpr ha ht
  obtain rfl := hexBytes_injective hdt
  rfl

section Blooms

variable {c : Crypto}

def logBits (c : Crypto) (log : Log) : Set (Nat × Nat) :=
  Bloom.dataBits c log.address.toList ∪ {p | ∃ t ∈ log.topics, p ∈ Bloom.dataBits c t.toList}

lemma bits_accrueLog (bloom : Bloom) (log : Log) :
    (accrueLog c bloom log).bits = bloom.bits ∪ logBits c log := by
  rw [accrueLog, bits_foldl (fun b t => bits_accrue c b t.toList), bits_accrue, logBits,
    Set.union_assoc]

lemma bits_logsBloom (logs : List Log) :
    (logsBloom c logs).bits = {p | ∃ log ∈ logs, p ∈ logBits c log} := by
  rw [logsBloom, bits_foldl bits_accrueLog, bits_zero, Set.empty_union]

/-- What a log adds to the bloom. -/
def logItems (log : Log) : List Bytes := log.address.toList :: log.topics.map (·.toList)

lemma mem_logBits {log : Log} {x : Nat × Nat} :
    x ∈ logBits c log ↔ ∃ d ∈ logItems log, x ∈ dataBits c d := by
  simp [logBits, logItems]

/-- The block's bloom contains every address and topic of its logs; in
whatever order they are accrued, it is the union of the logs' blooms. -/
theorem bloom_no_false_negatives (c : Crypto) (receipts : List (Tx × Receipt)) :
    let logs := receipts.flatMap (·.2.logs)
    (∀ log ∈ logs, ∀ d ∈ logItems log, (blockBloom c receipts).contains c d = true) ∧
      (∀ (b : Bloom) data, b.bits ⊆ (b.accrue c data).bits) ∧
      (∀ items : List Bytes, items.Perm (logs.flatMap logItems) →
        items.foldl (accrue c) (Arr.zero 256) = blockBloom c receipts) ∧
      blockBloom c receipts =
        (logs.map fun log => logsBloom c [log]).foldl Bloom.union (Arr.zero 256) := by
  intro logs
  have hbb : blockBloom c receipts = logsBloom c logs := rfl
  clear_value logs
  rw [hbb]
  refine ⟨fun log hl d hd => ?_, fun b data => ?_, fun items h => bits_inj ?_, bits_inj ?_⟩
  · rw [Bloom.contains_iff, bits_logsBloom]
    exact fun x hx => ⟨log, hl, mem_logBits.mpr ⟨d, hd, hx⟩⟩
  · rw [bits_accrue]
    exact Set.subset_union_left
  · rw [bits_foldl (bits_accrue c), bits_zero, bits_logsBloom]
    ext x
    simp only [Set.empty_union, Set.mem_ofPred_eq, h.mem_iff, mem_flatMap, mem_logBits]
    grind
  · have hun : ∀ b log, (union b (logsBloom c [log])).bits = b.bits ∪ logBits c log := by
      intro b log
      rw [bits_union, bits_logsBloom]
      simp
    rw [foldl_map, bits_foldl hun, bits_zero, bits_logsBloom, Set.empty_union]

lemma admits_of_accepts {q : LogQuery} {logs : List Log} {log : Log} (hm : log ∈ logs)
    (h : q.accepts log = true) : q.admits c (logsBloom c logs) = true := by
  have hbi : logBits c log ⊆ (logsBloom c logs).bits := by
    rw [bits_logsBloom]
    exact fun p hp => ⟨log, hm, hp⟩
  unfold LogQuery.accepts at h
  unfold LogQuery.admits
  simp only [Bool.and_eq_true, all_eq_true, any_eq_true, decide_eq_true_eq,
    Bloom.contains_iff] at h ⊢
  refine ⟨?_, fun t ht => ?_⟩
  · cases har : q.address with
    | none => rfl
    | some a =>
      rw [har] at h
      have heq := of_decide_eq_true h.1
      rw [Option.all_some, Bloom.contains_iff, ← heq]
      exact Set.subset_union_left.trans hbi
  · obtain ⟨t', ht', rfl⟩ := h.2 t ht
    exact fun p hp => hbi (.inr ⟨t', ht', hp⟩)

end Blooms

end Aii.Node
