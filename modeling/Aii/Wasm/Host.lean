/-
Aii.Wasm.Host — the host imports of a contract (`aii-wasm/src/host.rs`).

An operand is an `i32`. The storage and address imports cast it to `usize`,
which SIGN-EXTENDS it; `log` and `abort` CLAMP a negative one to zero.
-/
import Aii.Node.StateDb

namespace Aii.Wasm

open Common Chain List

abbrev Operand := BitVec 32

/-- A linear memory: at most 65536 pages of 64 KiB. -/
structure Memory where
  bytes : Bytes
  small : bytes.length ≤ 2 ^ 32

structure CallContext where
  caller : Address
  callee : Address

structure StoreData where
  memory : Option Memory
  overlay : Std.ExtTreeMap H256 H256 (compareOn List.Vector.toList)
  logs : List Bytes

/-- Why an import traps; `abort` leaves its message, here as bytes. -/
inductive Trap where
  | noMemory
  | outOfBounds (what : String)
  | aborted (msg : Bytes)

def callerMemory (s : StoreData) : Except Trap Memory :=
  match s.memory with
  | none => .error .noMemory
  | some m => .ok m

def Memory.read (m : Memory) (offset n : Nat) (what : String) : Except Trap (Arr n) :=
  if h : offset + n ≤ m.bytes.length then .ok ⟨(m.bytes.drop offset).take n, by simp; omega⟩
  else .error (.outOfBounds what)

def Memory.write (m : Memory) (offset : Nat) {n : Nat} (a : Arr n) (what : String) :
    Except Trap Memory :=
  if h : offset + n ≤ m.bytes.length then
    .ok ⟨m.bytes.take offset ++ (a.toList ++ m.bytes.drop (offset + n)), by
      have := m.small
      simp
      omega⟩
  else .error (.outOfBounds what)

/-- `x as usize`. -/
def asUsize (x : Operand) : Nat := (x.signExtend 64).toNat

/-- `usize::try_from(x.max(0)).unwrap_or(0)`. -/
def clamped (x : Operand) : Nat := x.toInt.toNat

def MAX_ABORT_MSG_LEN : Nat := 256

inductive HostCall where
  | storageRead (slotPtr outPtr : Operand)
  | storageWrite (slotPtr valuePtr : Operand)
  | caller (outPtr : Operand)
  | selfAddress (outPtr : Operand)
  | log (dataPtr dataLen : Operand)
  | abort (msgPtr msgLen : Operand)

section Imports

variable (ctx : CallContext) (storageGet : Address → H256 → H256) (conv ptr num : Operand → Nat)
  (s : StoreData)

def hostStorageRead (slotPtr outPtr : Operand) : Except Trap StoreData := do
  let mem ← callerMemory s
  let slot ← mem.read (conv slotPtr) 32 "storage_read slot"
  let value := s.overlay[slot]?.getD (storageGet ctx.callee slot)
  let mem ← mem.write (conv outPtr) value "storage_read out"
  pure { s with memory := some mem }

def hostStorageWrite (slotPtr valuePtr : Operand) : Except Trap StoreData := do
  let mem ← callerMemory s
  let slot ← mem.read (conv slotPtr) 32 "storage_write slot"
  let value ← mem.read (conv valuePtr) 32 "storage_write value"
  pure { s with overlay := s.overlay.insert slot value }

/-- `host_caller_addr` and `host_self_addr`. -/
def hostAddr (addr : Address) (what : String) (outPtr : Operand) : Except Trap StoreData := do
  let mem ← callerMemory s
  let mem ← mem.write (conv outPtr) addr what
  pure { s with memory := some mem }

/-- How `log` and `abort` read the memory: nothing for length zero. -/
def fetch (offset len : Nat) (what : String) : Except Trap Bytes := do
  let mem ← callerMemory s
  if len = 0 then pure [] else (·.toList) <$> mem.read offset len what

def hostLog (dataPtr dataLen : Operand) : Except Trap StoreData := do
  let buf ← fetch s (conv dataPtr) (conv dataLen) "log data"
  pure { s with logs := s.logs ++ [buf] }

def hostAbort (msgPtr msgLen : Operand) : Except Trap StoreData := do
  let buf ← fetch s (conv msgPtr) (min (conv msgLen) MAX_ABORT_MSG_LEN) "abort message"
  .error (.aborted buf)

/-- An import, with the conversions of its operands as parameters. -/
def HostCall.run : HostCall → Except Trap StoreData
  | .storageRead slotPtr outPtr => hostStorageRead ctx storageGet ptr s slotPtr outPtr
  | .storageWrite slotPtr valuePtr => hostStorageWrite ptr s slotPtr valuePtr
  | .caller outPtr => hostAddr ptr s ctx.caller "caller out" outPtr
  | .selfAddress outPtr => hostAddr ptr s ctx.callee "self_address out" outPtr
  | .log dataPtr dataLen => hostLog num s dataPtr dataLen
  | .abort msgPtr msgLen => hostAbort num s msgPtr msgLen

/-- A trap other than the contract's own `abort`. -/
def Traps {α : Type} (r : Except Trap α) : Prop :=
  ∃ t, r = .error t ∧ ∀ msg, t ≠ .aborted msg

def SameOrTraps {α : Type} (r r' : Except Trap α) : Prop := r = r' ∨ Traps r

/-- The import does what it does on operands read as unsigned numbers, or
it traps. -/
def Checked (call : HostCall) : Prop :=
  SameOrTraps (call.run ctx storageGet asUsize clamped s)
    (call.run ctx storageGet BitVec.toNat BitVec.toNat s)

end Imports

/-- Clamping does not show: the operands are not negative, or the clamped
range is empty, out of range, or holds the same bytes. -/
def Unclamped (m : Memory) (p n : Operand) (len : Nat) : Prop :=
  n.msb = false ∧ (p.msb = false ∨ len = 0 ∨ m.bytes.length < len ∨
    p.toNat + len ≤ m.bytes.length ∧ (m.bytes.drop p.toNat).take len = m.bytes.take len)

def HostCall.Unclamped (m : Memory) : HostCall → Prop
  | .log p n => Wasm.Unclamped m p n n.toNat
  | .abort p n => Wasm.Unclamped m p n (min n.toNat MAX_ABORT_MSG_LEN)
  | _ => True

variable {ctx : CallContext} {storageGet : Address → H256 → H256} {s : StoreData} {m : Memory}
  {x p n : Operand} {α β : Type} {k offset len : Nat} {what : String}

/-- A sign-extended pointer is beyond every memory. -/
lemma asUsize_of_le (h : asUsize x + k ≤ m.bytes.length) : asUsize x = x.toNat := by
  have hs := m.small
  have hx := x.isLt
  rw [asUsize, BitVec.toNat_signExtend] at h ⊢
  cases hm : x.msb <;> simp [hm] at h ⊢ <;> omega

lemma clamped_eq (x : Operand) : clamped x = if x.msb then 0 else x.toNat := by
  have hx := x.isLt
  rw [clamped, BitVec.toInt_eq_msb_cond]
  split_ifs
  · omega
  · rfl

lemma read_sameOrTraps {f g : Arr k → Except Trap α} (h : ∀ a, SameOrTraps (f a) (g a)) :
    SameOrTraps (m.read (asUsize x) k what >>= f) (m.read x.toNat k what >>= g) := by
  by_cases hx : asUsize x + k ≤ m.bytes.length
  · rw [← asUsize_of_le hx, Memory.read, dif_pos hx]
    exact h _
  · rw [Memory.read, dif_neg hx]
    exact .inr ⟨_, rfl, nofun⟩

lemma write_sameOrTraps (a : Arr k) {f : Memory → Except Trap α} :
    SameOrTraps (m.write (asUsize x) a what >>= f) (m.write x.toNat a what >>= f) := by
  by_cases hx : asUsize x + k ≤ m.bytes.length
  · exact .inl (by rw [asUsize_of_le hx])
  · rw [Memory.write, dif_neg hx]
    exact .inr ⟨_, rfl, nofun⟩

lemma fetch_eq (hm : s.memory = some m) : fetch s offset len what =
    if len = 0 then .ok [] else if offset + len ≤ m.bytes.length then
      .ok ((m.bytes.drop offset).take len) else .error (.outOfBounds what) := by
  rw [fetch, callerMemory, hm]
  change (if len = 0 then _ else _) = _
  split_ifs with h0 h
  · rfl
  · rw [Memory.read, dif_pos h]
    rfl
  · rw [Memory.read, dif_neg h]
    rfl

/-- What `log` and `abort` read is checked when clamping does not show. -/
lemma fetch_checked_iff (cap : Nat → Nat) {f : Bytes → Except Trap α} (hm : s.memory = some m)
    (hc : ∀ k, cap k = 0 ↔ k = 0) (hf : f.Injective) (ht : ∀ a, ¬ Traps (f a)) :
    SameOrTraps (fetch s (clamped p) (cap (clamped n)) what >>= f)
        (fetch s p.toNat (cap n.toNat) what >>= f) ↔ Unclamped m p n (cap n.toNat) := by
  have hoob : ∀ a, f a ≠ .error (.outOfBounds what) := fun a h => ht a ⟨_, h, nofun⟩
  rw [fetch_eq hm, fetch_eq hm, clamped_eq, clamped_eq, Unclamped, SameOrTraps]
  cases hn : n.msb with
  | true =>
    -- nothing is read, where the unsigned length is not zero
    have hp := BitVec.le_toNat_of_msb_true hn
    have h0 : cap n.toNat ≠ 0 := mt (hc _).mp (by omega)
    refine iff_of_false ?_ (by simp)
    simp only [if_true, (hc 0).mpr rfl, if_neg h0]
    rintro (h | h)
    · split_ifs at h with hr
      · have := congrArg List.length (hf h)
        simp at this
        omega
      · exact hoob _ h
    · exact ht _ h
  | false =>
    cases hp : p.msb with
    | false => simp
    | true =>
      by_cases h0 : cap n.toNat = 0
      · simp [h0]
      by_cases hl : m.bytes.length < cap n.toNat
      · refine iff_of_true (.inr ⟨.outOfBounds what, ?_, nofun⟩) ⟨rfl, .inr (.inr (.inl hl))⟩
        simp [h0, Nat.not_le.mpr hl]
        rfl
      · have hl' := Nat.le_of_not_lt hl
        by_cases hr : p.toNat + cap n.toNat ≤ m.bytes.length
        · simp [h0, hl, hl', hr, bind, Except.bind, ht, hf.eq_iff, eq_comm]
        · simp [h0, hl, hl', hr, bind, Except.bind, ht, hoob]

def sampleStore : StoreData := ⟨some ⟨[7], by decide⟩, ∅, []⟩

end Aii.Wasm
