/-
Aii.Wasm.Effects — a contract call and the commit of its writes
(`aii-wasm/src/host.rs`, `aii-wasm-state/src/lib.rs`).
-/
import Aii.Node.StorageRoot
import Aii.Wasm.Host

namespace Aii.Wasm

open Common OrderedMap Chain List Node StateDb Std Backend

structure HostEffects where
  storageWrites : List SlotWrite
  logs : List Bytes

inductive WasmError where
  | aborted (msg : Bytes)
  | trap
  | outOfFuel

/-- The host calls of a contract, each with the memory the contract has made
before it. -/
abbrev Trace := List (Option Memory × HostCall)

/-- `StateDbHost::storage_get`: an unreadable slot reads as zero. -/
def stateDbHostGet (b : Backend) (addr : Address) (slot : H256) : H256 :=
  (storageGet b addr slot).toOption.getD (Arr.zero 32)

/-- The slot and the value of a write. -/
def written (x : Option Memory × HostCall) : Option (H256 × H256) :=
  match x.2 with
  | .storageWrite slotPtr valuePtr => x.1.bind fun mem =>
    match mem.read (asUsize slotPtr) 32 "storage_write slot",
      mem.read (asUsize valuePtr) 32 "storage_write value" with
    | .ok slot, .ok value => some (slot, value)
    | _, _ => none
  | _ => none

/-- The last value written to the slot. -/
def lastWrite (ws : List (H256 × H256)) (slot : H256) : Option H256 :=
  (ws.reverse.find? (·.1 = slot)).map (·.2)

def putAll (callee : Address) (b : Backend) (ws : List (H256 × H256)) : Backend :=
  ws.foldl (fun b w => storagePut b callee w.1 w.2) b

def commitEffects (b : Backend) (effects : HostEffects) : Backend :=
  effects.storageWrites.foldl (fun b w => storagePut b w.addr w.slot w.value) b

instance slotTrans : TransCmp (compareOn (List.Vector.toList (α := UInt8) (n := 32))) :=
  inferInstance

instance slotLawful : LawfulEqCmp (compareOn (List.Vector.toList (α := UInt8) (n := 32))) where
  eq_of_compare h := toList_inj.mp (compare_eq_iff_eq.mp h)

section Call

variable (ctx : CallContext) (b : Backend)

def traceStep (s : StoreData) (x : Option Memory × HostCall) : Except Trap StoreData :=
  x.2.run ctx (stateDbHostGet b) asUsize clamped { s with memory := x.1 }

def runTrace (trace : Trace) : Except Trap StoreData :=
  trace.foldlM (traceStep ctx b) ⟨none, ∅, []⟩

/-- `call_with_host` from the call of the export on; `ended` is how the
contract ends after its last host call. -/
def callWithHost (trace : Trace) (ended : Except WasmError Operand) :
    Except WasmError (Operand × HostEffects) :=
  match runTrace ctx b trace with
  | .error (.aborted msg) => .error (.aborted msg)
  | .error _ => .error .trap
  | .ok s => ended.map fun v =>
    (v, ⟨s.overlay.toList.map fun w => ⟨ctx.callee, w.1, w.2⟩, s.logs⟩)

/-- A read after `before` puts the last value written to its slot, or else
the persisted one, into the memory. -/
def ReadsBack (before : Trace) (mem : Option Memory) (slotPtr outPtr : Operand) : Prop :=
  ∃ s m slot m', runTrace ctx b before = .ok s ∧ mem = some m ∧
    m.read (asUsize slotPtr) 32 "storage_read slot" = .ok slot ∧
    m.write (asUsize outPtr) ((lastWrite (before.filterMap written) slot).getD
      (stateDbHostGet b ctx.callee slot)) "storage_read out" = .ok m' ∧
    traceStep ctx b s (mem, .storageRead slotPtr outPtr) = .ok { s with memory := some m' }

end Call

variable {ctx : CallContext} {b : Backend} {s s' : StoreData} {trace : Trace}
  {ws ws' : List (H256 × H256)} {callee : Address} {slot : H256} {cf : ColumnFamily} {k : Bytes}

lemma callerMemory_ok {m : Memory} (h : callerMemory s = .ok m) : s.memory = some m := by
  rw [callerMemory] at h
  split at h <;> cases h
  assumption

lemma traceStep_overlay {x : Option Memory × HostCall} (h : traceStep ctx b s x = .ok s') :
    s'.overlay = (written x).elim s.overlay fun w => s.overlay.insert w.1 w.2 := by
  obtain ⟨mem, call⟩ := x
  cases call with
  | storageWrite p q =>
    obtain ⟨m, hm, h⟩ := bind_ok.mp h
    obtain rfl : mem = some m := callerMemory_ok hm
    obtain ⟨slot, hs, h⟩ := bind_ok.mp h
    obtain ⟨value, hv, h⟩ := bind_ok.mp h
    cases h
    simp [written, hs, hv]
  | _ =>
    simp only [traceStep, HostCall.run, hostStorageRead, hostAddr, hostLog, hostAbort, bind,
      Except.bind] at h
    repeat' split at h
    all_goals cases h <;> rfl

lemma runTrace_overlay (h : runTrace ctx b trace = .ok s) :
    s.overlay[slot]? = lastWrite (trace.filterMap written) slot := by
  have hfold : ∀ s₀, trace.foldlM (traceStep ctx b) s₀ = .ok s →
      s.overlay = (trace.filterMap written).foldl (fun m w => m.insert w.1 w.2) s₀.overlay := by
    clear h
    induction trace with
    | nil =>
      intro s₀ h
      cases h
      rfl
    | cons x _ ih =>
      intro s₀ h
      rw [foldlM_cons] at h
      obtain ⟨s₁, hs, h⟩ := bind_ok.mp h
      rw [ih s₁ h, traceStep_overlay hs, filterMap_cons]
      cases written x <;> rfl
  rw [hfold _ h, getElem?_foldl_insert_last]
  simp [lastWrite]

lemma get_putAll_self : (putAll callee b ws).get .accountStorage (storageKey callee slot) =
    ((lastWrite ws slot).map fun v => if v = Arr.zero 32 then none else some v.toList).getD
      (b.get .accountStorage (storageKey callee slot)) := by
  induction ws using reverseRecOn with
  | nil => rfl
  | append_singleton ws w ih =>
    rw [putAll, foldl_concat, storagePut, ← putAll, lastWrite, reverse_concat, find?_cons]
    by_cases hw : w.1 = slot
    · subst hw
      split_ifs with hz <;> simp [hz]
    · have hne : storageKey callee slot ≠ storageKey callee w.1 :=
        fun h => hw (storageKey_inj h).2.symm
      rw [decide_eq_false hw, ← lastWrite, ← ih]
      split_ifs
      · exact get_delete_ne fun _ => hne
      · exact get_put_ne fun _ => hne

lemma get_putAll_ne (h : cf = .accountStorage → ∀ slot, k ≠ storageKey callee slot) :
    (putAll callee b ws).get cf k = b.get cf k := by
  refine foldlRecOn ws _ (motive := fun b' => get b' cf k = _) rfl fun b' hb w _ => ?_
  rw [← hb, storagePut]
  split_ifs
  · exact get_delete_ne fun hc => h hc _
  · exact get_put_ne fun hc => h hc _

lemma putAll_congr (h : ∀ slot, lastWrite ws slot = lastWrite ws' slot) :
    putAll callee b ws = putAll callee b ws' := by
  refine Backend.ext (funext fun cf => ExtTreeMap.ext_getElem? fun k => ?_)
  change Backend.get _ cf k = Backend.get _ cf k
  by_cases hk : cf = .accountStorage → ∀ slot, k ≠ storageKey callee slot
  · rw [get_putAll_ne hk, get_putAll_ne hk]
  · push Not at hk
    obtain ⟨rfl, slot, rfl⟩ := hk
    rw [get_putAll_self, get_putAll_self, h]

lemma callWithHost_ok {ended : Except WasmError Operand} {out : Operand × HostEffects}
    (h : callWithHost ctx b trace ended = .ok out) :
    ended = .ok out.1 ∧ ∃ s, runTrace ctx b trace = .ok s ∧
      commitEffects b out.2 = putAll ctx.callee b s.overlay.toList := by
  rw [callWithHost] at h
  split at h
  · cases h
  · cases h
  · next s hs =>
    cases ended <;> cases h
    exact ⟨rfl, s, hs, foldl_map⟩

lemma runTrace_read {before after : Trace} {mem : Option Memory} {p q : Operand}
    (h : runTrace ctx b (before ++ (mem, .storageRead p q) :: after) = .ok s) :
    ReadsBack ctx b before mem p q := by
  rw [runTrace, foldlM_append] at h
  obtain ⟨s₁, hs, h⟩ := bind_ok.mp h
  rw [foldlM_cons] at h
  obtain ⟨s₂, hr, -⟩ := bind_ok.mp h
  obtain ⟨m, hm, h⟩ := bind_ok.mp hr
  obtain ⟨slot, hslot, h⟩ := bind_ok.mp h
  obtain ⟨m', hw, h⟩ := bind_ok.mp h
  cases h
  exact ⟨s₁, m, slot, m', hs, callerMemory_ok hm, hslot, runTrace_overlay hs ▸ hw, hr⟩

end Aii.Wasm
