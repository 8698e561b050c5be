/-
Aii.Node.WriteBack — writing a diff back against committing it.

`RevmDb.commit` is what a database does that commits a diff of revm.
-/
import Aii.Node.Execute
import Aii.Node.StorageRoot

namespace Aii.Node

open Common Chain StateDb List RevmDb StateOk RevmAccount Option Backend StateDiff Revm

/-! ## Committing a diff -/

def AccountInfo.isEmpty (i : AccountInfo) : Bool :=
  i.nonce == 0 && i.balance == 0 && (i.codeHash == EMPTY_CODE_HASH || i.codeHash == Arr.zero 32)

def AccountInfo.newCode (i : AccountInfo) : Option Bytes := i.code.filter (!·.isEmpty)

/-- What a commit does with an account of the diff. -/
inductive Fate where
  | loaded
  | dropped
  | kept
  deriving DecidableEq

namespace RevmAccount

def fate (acc : RevmAccount) : Fate :=
  if acc.status.touched then
    if acc.status.selfDestructed || acc.info.isEmpty then .dropped else .kept
  else .loaded

def slot? (acc : RevmAccount) (k : U256) : Option StorageSlot := acc.storage.lookup k

def newValue? (acc : RevmAccount) (k : U256) : Option U256 :=
  ((acc.slot? k).filter fun s => s.originalValue ≠ s.presentValue).map (·.presentValue)

end RevmAccount

def StateDiff.account? (diff : StateDiff) (addr : Address) : Option RevmAccount :=
  diff.entries.lookup addr

def RevmDb.commit (db : RevmDb) (diff : StateDiff) : RevmDb where
  basic addr :=
    match diff.account? addr with
    | none => db.basic addr
    | some acc =>
      match acc.fate with
      | .loaded => db.basic addr
      | .dropped => none
      | .kept => some { acc.info with code := none }
  codeByHash h :=
    (diff.entries.findSome? fun e =>
      if e.2.fate = .kept ∧ e.2.info.codeHash = h then e.2.info.newCode else none).getD
        (db.codeByHash h)
  storage addr k :=
    match diff.account? addr with
    | none => db.storage addr k
    | some acc =>
      match acc.fate with
      | .loaded => db.storage addr k
      | .dropped => 0
      | .kept =>
        match acc.slot? k with
        | some s => s.presentValue
        | none => if acc.status.created then 0 else db.storage addr k
  blockHash := db.blockHash

structure StateDiff.Over (db : RevmDb) (diff : StateDiff) : Prop where
  /-- The slots of an account are a map. -/
  slots : ∀ e ∈ diff.entries, (e.2.storage.map Prod.fst).Nodup
  /-- A slot starts from the database, that of a created account from zero. -/
  original : ∀ e ∈ diff.entries, ∀ s ∈ e.2.storage,
    s.2.originalValue = if e.2.status.created then 0 else db.storage e.1 s.1
  /-- An account that was only loaded is as the database has it. -/
  loaded : ∀ e ∈ diff.entries, e.2.fate = .loaded →
    { e.2.info with code := none } = { db.info e.1 with code := none } ∧
      (∀ code, e.2.info.newCode = some code → db.codeByHash e.2.info.codeHash = code) ∧
      ∀ s ∈ e.2.storage, s.2.originalValue = s.2.presentValue
  /-- Bytecode is addressed by its hash. -/
  code : ∀ e ∈ diff.entries, ∀ e' ∈ diff.entries, e.2.info.codeHash = e'.2.info.codeHash →
    ∀ code code', e.2.info.newCode = some code → e'.2.info.newCode = some code' → code = code'

/-- An account whose status asks for nothing but a record write: it is in
the database if it was only loaded, it is not dropped, and if it was
created there is nothing left in the slots it did not write. -/
def RevmAccount.Plain (db : RevmDb) (addr : Address) (acc : RevmAccount) : Prop :=
  match acc.fate with
  | .loaded => db.basic addr ≠ none
  | .dropped => False
  | .kept => acc.status.created = true → ∀ k, acc.newValue? k = none → db.storage addr k = 0

/-! ## What the write-back leaves -/

variable {α β : Type} {l : List (α × β)} {a : α}

lemma lookup_of_mem [BEq α] [LawfulBEq α] (hnd : (l.map Prod.fst).Nodup) {v : β} (h : (a, v) ∈ l) :
    l.lookup a = some v := by
  induction l with
  | nil => cases h
  | cons p _ ih =>
    rw [map_cons, nodup_cons] at hnd
    rw [lookup_cons]
    rcases mem_cons.mp h with rfl | h
    · simp
    · grind

lemma lookup_eq_none_of_notMem [BEq α] [LawfulBEq α] (h : a ∉ l.map Prod.fst) :
    l.lookup a = none := by
  rw [lookup_eq_none_iff]
  intro p hp
  rw [bne_iff_ne]
  rintro rfl
  exact h (mem_map_of_mem hp)

@[simp] lemma u256OfH256_h256OfU256 (x : U256) : u256OfH256 (h256OfU256 x) = x :=
  ofNat_ofBe_toBe x

lemma h256OfU256_inj {x y : U256} (h : h256OfU256 x = h256OfU256 y) : x = y := by
  rw [← u256OfH256_h256OfU256 x, h, u256OfH256_h256OfU256]

section Written

variable {c : Crypto} {b : Backend} {entries : List (Address × RevmAccount)} {addr : Address}
  {h : H256}

lemma RevmDb.basic_of_cf_eq {b' : Backend} (h : b'.cf .state = b.cf .state) (addr : Address) :
    (new c b').basic addr = (new c b).basic addr := by
  simp [new, account_of_cf_eq h]

lemma basic_applyDiff (hi : Function.Injective (key c)) (hok : StateOk b)
    (hnd : (entries.map Prod.fst).Nodup) (addr : Address) :
    (new c (applyDiff c b entries).1).basic addr = match entries.lookup addr with
      | none => (new c b).basic addr
      | some acc => some { acc.info with code := none } := by
  induction entries generalizing b with
  | nil => rfl
  | cons e rest ih =>
    rw [map_cons, nodup_cons] at hnd
    obtain ⟨old, heq, hsp⟩ := applyDiff_cons (c := c) hok e rest
    rw [heq, ih hsp hnd.2, basic_of_cf_eq (applyAccount_cf ..), lookup_cons]
    by_cases har : addr = e.1
    · subst har
      rw [lookup_eq_none_of_notMem hnd.1, beq_self_eq_true]
      simp [new, account_setAccount_self]
    · rw [beq_eq_false_iff_ne.mpr har]
      simp [new, account_setAccount_ne _ (hi.ne har)]

lemma accountWrites_cons (account : Address) (s : U256 × StorageSlot)
    (slots : List (U256 × StorageSlot)) :
    accountWrites account (s :: slots) = (if s.2.originalValue = s.2.presentValue then []
        else [⟨account, h256OfU256 s.1, h256OfU256 s.2.presentValue⟩]) ++
        accountWrites account slots := by
  unfold accountWrites
  by_cases hsm : s.2.originalValue = s.2.presentValue <;> simp [hsm]

lemma slotAfter_eq_old {ws : List SlotWrite} {slot : H256} (old : Except StateError H256)
    (h : ∀ w ∈ ws, ¬ (w.addr = addr ∧ w.slot = slot)) : slotAfter ws addr slot old = old := by
  induction ws with
  | nil => rfl
  | cons w _ ih =>
    rw [slotAfter, foldl_cons, if_neg (h w (by simp))]
    exact ih fun w' hw' => h w' (by simp [hw'])

lemma slotAfter_accountWrites {acc : RevmAccount} (hnd : (acc.storage.map Prod.fst).Nodup)
    (addr : Address) (k : U256) (old : Except StateError H256) :
    slotAfter (accountWrites addr acc.storage) addr (h256OfU256 k) old =
      ((acc.newValue? k).map fun v => .ok (h256OfU256 v)).getD old := by
  unfold newValue? slot?
  generalize acc.storage = slots at hnd ⊢
  induction slots generalizing old with
  | nil => rfl
  | cons s _ ih =>
    rw [map_cons, nodup_cons] at hnd
    rw [accountWrites_cons, slotAfter_append, ih _ hnd.2, lookup_cons]
    by_cases hk : k = s.1
    · subst hk
      rw [lookup_eq_none_of_notMem hnd.1, beq_self_eq_true]
      by_cases hsm : s.2.originalValue = s.2.presentValue <;>
        simp [slotAfter, hsm, Option.filter]
    · rw [beq_eq_false_iff_ne.mpr hk]
      congr 1
      refine slotAfter_eq_old _ fun w hw hm => hk ?_
      split_ifs at hw
      · cases hw
      · obtain rfl := mem_singleton.mp hw
        exact (h256OfU256_inj hm.2).symm

lemma slotAfter_accountWrites_ne {account : Address} (h : addr ≠ account)
    (slots : List (U256 × StorageSlot)) (slot : H256) (old : Except StateError H256) :
    slotAfter (accountWrites account slots) addr slot old = old := by
  refine slotAfter_eq_old _ fun w hw hm => h ?_
  obtain ⟨s, -, rfl⟩ := mem_map.mp hw
  exact hm.1.symm

lemma storage_applyDiff (hok : StateOk b) (hnd : (entries.map Prod.fst).Nodup)
    (hss : ∀ e ∈ entries, (e.2.storage.map Prod.fst).Nodup) (addr : Address) (k : U256) :
    (new c (applyDiff c b entries).1).storage addr k = match entries.lookup addr with
      | none => (new c b).storage addr k
      | some acc => (acc.newValue? k).getD ((new c b).storage addr k) := by
  induction entries generalizing b with
  | nil => rfl
  | cons e rest ih =>
    rw [map_cons, nodup_cons] at hnd
    obtain ⟨old, heq, hsp⟩ := applyDiff_cons (c := c) hok e rest
    rw [heq, ih hsp hnd.2 (forall_mem_cons.mp hss).2, lookup_cons]
    by_cases har : addr = e.1
    · subst har
      rw [lookup_eq_none_of_notMem hnd.1, beq_self_eq_true]
      simp [new, storageGet_applyAccount, slotAfter_accountWrites (hss e mem_cons_self)]
      cases e.2.newValue? k <;> simp
    · rw [beq_eq_false_iff_ne.mpr har]
      simp [new, storageGet_applyAccount, slotAfter_accountWrites_ne har]

lemma codeGet_applyAccount (addr : Address) (old : Account) (acc : RevmAccount) (h : H256) :
    codeGet (applyAccount c b addr old acc) h =
      (if acc.info.codeHash = h then acc.info.newCode else none).or (codeGet b h) := by
  have hstate (acc' : Account) : (setAccount c b addr acc').get .code h.toList = codeGet b h :=
    Backend.get_put_ne nofun
  rw [applyAccount, codeGet, Backend.get, applySlots_frame _ _ _ (by decide), ← Backend.get,
    AccountInfo.newCode]
  cases acc.info.code with
  | none => simpa using hstate _
  | some code =>
    cases code with
    | nil => simpa [Option.filter] using hstate _
    | cons =>
      by_cases hh : acc.info.codeHash = h
      · simp [hh, codePut, Backend.get_put_self, Option.filter]
      · have hk : h.toList ≠ acc.info.codeHash.toList := fun heq => hh (toList_inj.mp heq).symm
        simpa [hh, codePut, Backend.get_put_ne fun _ => hk] using hstate _

lemma codeGet_applyDiff_of_none (hok : StateOk b)
    (hnn : ∀ e ∈ entries, e.2.info.codeHash = h → e.2.info.newCode = none) :
    codeGet (applyDiff c b entries).1 h = codeGet b h := by
  induction entries generalizing b with
  | nil => rfl
  | cons e rest ih =>
    obtain ⟨old, heq, hsp⟩ := applyDiff_cons (c := c) hok e rest
    rw [heq, ih hsp (forall_mem_cons.mp hnn).2, codeGet_applyAccount]
    split_ifs with hh
    · rw [hnn e mem_cons_self hh, none_or]
    · rw [none_or]

lemma codeGet_applyDiff_of_mem (hok : StateOk b) {code : Bytes}
    (ho : ∀ e ∈ entries, e.2.info.codeHash = h → ∀ code', e.2.info.newCode = some code' →
      code' = code) (hm : ∃ e ∈ entries, e.2.info.codeHash = h ∧ e.2.info.newCode ≠ none) :
    codeGet (applyDiff c b entries).1 h = some code := by
  induction entries generalizing b with
  | nil => simp at hm
  | cons e rest ih =>
    obtain ⟨old, heq, hsp⟩ := applyDiff_cons (c := c) hok e rest
    rw [heq]
    by_cases hrs : ∃ e' ∈ rest, e'.2.info.codeHash = h ∧ e'.2.info.newCode ≠ none
    · exact ih hsp (forall_mem_cons.mp ho).2 hrs
    · -- the last entry that writes under the hash is the head
      obtain ⟨hh, hso⟩ : e.2.info.codeHash = h ∧ e.2.info.newCode ≠ none := by
        obtain ⟨e', he', hw⟩ := hm
        rcases mem_cons.mp he' with rfl | he'
        · exact hw
        · exact absurd ⟨e', he', hw⟩ hrs
      have hnn (e' : Address × RevmAccount) (he' : e' ∈ rest)
          (hh' : e'.2.info.codeHash = h) : e'.2.info.newCode = none := by grind
      obtain ⟨code', hcd⟩ := ne_none_iff_exists'.mp hso
      rw [codeGet_applyDiff_of_none hsp hnn, codeGet_applyAccount, if_pos hh, hcd,
        some_or, ho e mem_cons_self hh code' hcd]

end Written

/-! ## The commit, part by part -/

section Commit

variable {c : Crypto} {b : Backend} {diff : StateDiff} {db : RevmDb} {addr : Address}
  {acc : RevmAccount}

lemma StateDiff.mem_of_account? (h : diff.account? addr = some acc) :
    (addr, acc) ∈ diff.entries := by
  obtain ⟨_, _, hsi, -⟩ := lookup_eq_some_iff.mp h
  rw [hsi]
  simp

lemma RevmAccount.mem_of_slot? {k : U256} {s : StorageSlot} (h : acc.slot? k = some s) :
    (k, s) ∈ acc.storage := by
  obtain ⟨_, _, hsi, -⟩ := lookup_eq_some_iff.mp h
  rw [hsi]
  simp

lemma RevmDb.commit_basic_of_mem (h : (addr, acc) ∈ diff.entries) :
    (db.commit diff).basic addr = match acc.fate with
      | .loaded => db.basic addr
      | .dropped => none
      | .kept => some { acc.info with code := none } := by
  simp [commit, account?, lookup_of_mem diff.nodup h]

lemma RevmDb.commit_storage_of_mem (hov : diff.Over db) (h : (addr, acc) ∈ diff.entries)
    (k : U256) :
    (db.commit diff).storage addr k = match acc.fate with
      | .loaded => db.storage addr k
      | .dropped => 0
      | .kept => (acc.newValue? k).getD (if acc.status.created then 0 else db.storage addr k) := by
  simp only [commit, StateDiff.account?, lookup_of_mem diff.nodup h]
  cases acc.fate with
  | loaded | dropped => rfl
  | kept =>
    unfold newValue?
    cases hs : acc.slot? k with
    | none => rfl
    | some s =>
      have ho := hov.original _ h _ (mem_of_slot? hs)
      rw [← ho]
      by_cases hsm : s.originalValue = s.presentValue <;> simp [Option.filter, hsm]

lemma StateDiff.Over.slot_loaded (hov : diff.Over db) (h : (addr, acc) ∈ diff.entries)
    (hfa : acc.fate = .loaded) (k : U256) : acc.newValue? k = none := by
  unfold newValue?
  cases hs : acc.slot? k with
  | none => rfl
  | some s =>
    have hsm : s.originalValue = s.presentValue := (hov.loaded _ h hfa).2.2 _ (mem_of_slot? hs)
    simp [hsm]

lemma RevmDb.commit_codeByHash_of_kept (hov : diff.Over db) {e : Address × RevmAccount}
    (he : e ∈ diff.entries) (hfa : e.2.fate = .kept) {code : Bytes}
    (hcd : e.2.info.newCode = some code) :
    (db.commit diff).codeByHash e.2.info.codeHash = code := by
  have hfn : (diff.entries.findSome? fun e' =>
      if e'.2.fate = .kept ∧ e'.2.info.codeHash = e.2.info.codeHash then e'.2.info.newCode
      else none) = some code := by
    cases hf : diff.entries.findSome? fun e' =>
        if e'.2.fate = .kept ∧ e'.2.info.codeHash = e.2.info.codeHash then e'.2.info.newCode
        else none with
    | none => grind
    | some code' =>
      obtain ⟨e', he', hv⟩ := exists_of_findSome?_eq_some hf
      split_ifs at hv with hkp
      rw [hov.code e' he' e he hkp.2 code' code hv hcd]
  rw [commit]
  dsimp only
  rw [hfn, getD_some]

lemma RevmDb.commit_codeByHash_of_none {h : H256}
    (hnn : ∀ e ∈ diff.entries, e.2.fate = .kept → e.2.info.codeHash = h →
      e.2.info.newCode = none) : (db.commit diff).codeByHash h = db.codeByHash h := by
  have hf : (diff.entries.findSome? fun e =>
      if e.2.fate = .kept ∧ e.2.info.codeHash = h then e.2.info.newCode else none) = none := by
    rw [findSome?_eq_none_iff]
    intro e he
    split_ifs with hkp
    · exact hnn e he hkp.1 hkp.2
    · rfl
  rw [commit]
  dsimp only
  rw [hf, getD_none]

lemma RevmDb.new_basic_code {i : AccountInfo} (h : (new c b).basic addr = some i) :
    i.code = none := by
  unfold new at h
  dsimp only at h
  split at h
  · rw [← some.inj h]
  · cases h

lemma codeByHash_applyDiff (hok : StateOk b) (hov : diff.Over (new c b))
    (hd : ∀ e ∈ diff.entries, e.2.fate ≠ .dropped) (h : H256) :
    (new c (applyDiff c b diff.entries).1).codeByHash h = ((new c b).commit diff).codeByHash h := by
  by_cases hm : ∃ e ∈ diff.entries, e.2.info.codeHash = h ∧ e.2.info.newCode ≠ none
  · obtain ⟨e, he, rfl, hso⟩ := hm
    obtain ⟨code, hcd⟩ := ne_none_iff_exists'.mp hso
    have ho (e' : Address × RevmAccount) (he' : e' ∈ diff.entries)
        (hh : e'.2.info.codeHash = e.2.info.codeHash) (code' : Bytes)
        (hcd' : e'.2.info.newCode = some code') : code' = code :=
      hov.code e' he' e he hh code' code hcd' hcd
    have hwr : (new c (applyDiff c b diff.entries).1).codeByHash e.2.info.codeHash = code := by
      simp [new]
      rw [codeGet_applyDiff_of_mem hok ho ⟨e, he, rfl, hso⟩, getD_some]
    rw [hwr]
    by_cases hkp : ∃ e' ∈ diff.entries, e'.2.fate = .kept ∧
        e'.2.info.codeHash = e.2.info.codeHash ∧ e'.2.info.newCode ≠ none
    · obtain ⟨e', he', hfa, hh, hso'⟩ := hkp
      obtain ⟨code', hcd'⟩ := ne_none_iff_exists'.mp hso'
      rw [← hh, commit_codeByHash_of_kept hov he' hfa hcd', ho e' he' hh code' hcd']
    · have hnn (e' : Address × RevmAccount) (he' : e' ∈ diff.entries) (hfa : e'.2.fate = .kept)
          (hh : e'.2.info.codeHash = e.2.info.codeHash) : e'.2.info.newCode = none := by
        by_contra hne
        exact hkp ⟨e', he', hfa, hh, hne⟩
      rw [commit_codeByHash_of_none hnn]
      -- the account that has this bytecode was only loaded
      cases hfa : e.2.fate with
      | loaded => exact ((hov.loaded e he hfa).2.1 code hcd).symm
      | dropped => exact absurd hfa (hd e he)
      | kept => exact absurd (hnn e he hfa rfl) hso
  · have hnn (e : Address × RevmAccount) (he : e ∈ diff.entries)
        (hh : e.2.info.codeHash = h) : e.2.info.newCode = none := by
      by_contra hne
      exact hm ⟨e, he, hh, hne⟩
    rw [commit_codeByHash_of_none fun e he _ hh => hnn e he hh]
    simp [new]
    rw [codeGet_applyDiff_of_none hok hnn]

lemma RevmAccount.Plain.basic (hov : diff.Over (RevmDb.new c b)) (hm : (addr, acc) ∈ diff.entries)
    (h : acc.Plain (RevmDb.new c b) addr) :
    some { acc.info with code := none } = ((RevmDb.new c b).commit diff).basic addr := by
  rw [RevmDb.commit_basic_of_mem hm]
  unfold RevmAccount.Plain at h
  cases hfa : acc.fate with
  | loaded =>
    rw [hfa] at h
    obtain ⟨i, hi⟩ := ne_none_iff_exists'.mp h
    have hin := (hov.loaded _ hm hfa).1
    rw [RevmDb.info, hi, getD_some] at hin
    rw [hin, hi, ← RevmDb.new_basic_code hi]
  | dropped =>
    rw [hfa] at h
    exact h.elim
  | kept => rfl

lemma RevmAccount.Plain.storage (hov : diff.Over db) (hm : (addr, acc) ∈ diff.entries)
    (h : acc.Plain db addr) (k : U256) :
    (acc.newValue? k).getD (db.storage addr k) = (db.commit diff).storage addr k := by
  rw [commit_storage_of_mem hov hm]
  unfold RevmAccount.Plain at h
  cases hfa : acc.fate with
  | loaded => rw [hov.slot_loaded hm hfa, getD_none]
  | dropped =>
    rw [hfa] at h
    exact h.elim
  | kept =>
    rw [hfa] at h
    cases hn : acc.newValue? k with
    | some => rfl
    | none =>
      split_ifs with hc
      · exact h hc k hn
      · rfl

lemma applyDiff_refines_iff (hi : Function.Injective (key c)) (hok : StateOk b)
    (hov : diff.Over (new c b)) :
    new c (applyDiff c b diff.entries).1 = (new c b).commit diff ↔
      ∀ e ∈ diff.entries, e.2.Plain (new c b) e.1 := by
  have hb := basic_applyDiff hi hok diff.nodup
  have hs := storage_applyDiff (c := c) hok diff.nodup hov.slots
  constructor
  · rintro h ⟨addr, acc⟩ he
    have ha := lookup_of_mem diff.nodup he
    -- the write-back has a record for this account
    have hrc := hb addr
    rw [h, ha, commit_basic_of_mem he] at hrc
    unfold RevmAccount.Plain
    cases hfa : acc.fate with
    | loaded | dropped => grind
    | kept =>
      intro hc k hn
      have hsl := hs addr k
      rw [h, ha, commit_storage_of_mem hov he, hfa] at hsl
      dsimp only at hsl
      rw [hn, getD_none, getD_none, if_pos hc] at hsl
      exact hsl.symm
  · intro h
    have hnn {addr : Address} (ha : diff.entries.lookup addr = none) :
        diff.account? addr = none := ha
    ext1
    · funext addr
      rw [hb]
      cases ha : diff.entries.lookup addr with
      | none => simp [commit, hnn ha]
      | some =>
        have hm := mem_of_account? ha
        exact (h _ hm).basic hov hm
    · funext hash
      refine codeByHash_applyDiff hok hov (fun e he hfa => ?_) hash
      have hpl := h e he
      rw [RevmAccount.Plain, hfa] at hpl
      exact hpl
    · funext addr k
      rw [hs]
      cases ha : diff.entries.lookup addr with
      | none => simp [commit, hnn ha]
      | some =>
        have hm := mem_of_account? ha
        exact (h _ hm).storage hov hm k
    · rfl

end Commit

/-- `execute_with_revm` leaves the committed database exactly when every
account of the diff is plain. -/
theorem write_back_refines_iff {c : Crypto} (hinj : Function.Injective (key c)) {b : Backend}
    (hok : StateOk b) (revm : Revm) (env : TxEnv)
    (hover : ∀ out, revm (RevmDb.new c b) env = .ok out → out.state.Over (RevmDb.new c b)) :
    (match revm (RevmDb.new c b) env with
      | .error _ => (executeWithRevm c revm b env).1 = b
      | .ok out =>
        RevmDb.new c (executeWithRevm c revm b env).1 = (RevmDb.new c b).commit out.state ↔
          ∀ e ∈ out.state.entries, e.2.Plain (RevmDb.new c b) e.1) ∧
      ∀ cf, cf ≠ .state → cf ≠ .code → cf ≠ .accountStorage →
        (executeWithRevm c revm b env).1.cf cf = b.cf cf := by
  constructor
  · rw [executeWithRevm_fst]
    cases hr : revm (new c b) env with
    | error => rfl
    | ok out => exact applyDiff_refines_iff hinj hok (hover out hr)
  · intro cf hs hc ha
    exact executeWithRevm_frame ⟨hs, hc, ha⟩ revm b env

/-! ## Transfers, and accounts that should be gone -/

lemma RevmDb.new_info_code (c : Crypto) (b : Backend) (addr : Address) :
    ((new c b).info addr).code = none := by
  unfold info
  cases h : (new c b).basic addr with
  | none => rfl
  | some => exact new_basic_code h

lemma StateDiff.over_of_bare {db : RevmDb} {diff : StateDiff}
    (h : ∀ e ∈ diff.entries, e.2.status.touched = true ∧ e.2.storage = [] ∧
      e.2.info.newCode = none) : diff.Over db where
  slots e he := by simp [(h e he).2.1]
  original e he s hs := by simp [(h e he).2.1] at hs
  loaded e he hfa := by
    rw [fate, if_pos (h e he).1] at hfa
    split_ifs at hfa
  code e he _ _ _ code _ hcd := by
    rw [(h e he).2.2] at hcd
    cases hcd

lemma Revm.reference_over {c : Crypto} {b : Backend} {env : TxEnv} {out : ResultAndState}
    (h : reference (new c b) env = .ok out) : out.state.Over (new c b) := by
  have hs (addr : Address) (balance : Nat) (nonce : UInt64) :
      ((new c b).settled addr balance nonce).info.newCode = none := by
    rw [AccountInfo.newCode, settled]
    rw [new_info_code]
    rfl
  unfold reference at h
  split at h
  · cases h
  next recipient _ =>
    dsimp only at h
    split_ifs at h with hnd hok
    cases h
    refine over_of_bare fun e he => ?_
    simp [not_mem_nil] at he
    rcases he with rfl | rfl | rfl <;> exact ⟨rfl, rfl, hs _ _ _⟩

lemma exists_of_any {ε : Type} {x : Except ε α} {p : α → Bool} (h : x.toOption.any p = true) :
    ∃ a, x = .ok a ∧ p a = true := by
  cases x with
  | error => cases h
  | ok a => exact ⟨a, rfl, h⟩

def payment (gasPrice : U256) : TxEnv := txEnv sampleSender (some vault) 5 [] 100000 gasPrice

theorem write_back_refines_payment :
    ∃ out, Revm.reference (RevmDb.new .reference sampleGenesis) (payment 1) = .ok out ∧
      RevmDb.new .reference
          (executeWithRevm .reference Revm.reference sampleGenesis (payment 1)).1 =
        (RevmDb.new .reference sampleGenesis).commit out.state := by
  have hf : ((reference (new .reference sampleGenesis)
      (payment 1)).toOption.any fun out => out.state.entries.all fun e =>
        e.2.fate = .kept ∧ e.2.status.created = false) = true := by
    decide +kernel
  generalize payment 1 = env at hf ⊢
  have hi := (write_back_refines_iff referenceKey_injective sampleGenesis_ok reference env
    fun _ hr => reference_over hr).1
  obtain ⟨out, hr, ha⟩ := exists_of_any hf
  rw [hr] at hi
  refine ⟨out, hr, hi.mpr fun e he => ?_⟩
  obtain ⟨hkp, hc⟩ := of_decide_eq_true (all_eq_true.mp ha e he)
  rw [RevmAccount.Plain, hkp]
  intro h
  rw [hc] at h
  cases h

/-- A machine for one deployment: the code of the new contract stores 7 in slot 0 and
destroys the contract. -/
def shortLived : Revm := fun db env =>
  if h : env.caller = vault then .error "occupied"
  else
    let sender := { db.info env.caller with nonce := db.nonce env.caller + 1 }
    let contract := { db.info vault with nonce := 1 }
    .ok ⟨.success 60000 [] (.create [] (some vault)),
      ⟨[(env.caller, ⟨sender, [], .called⟩),
        (vault, ⟨contract, [(0, ⟨0, 7⟩)], ⟨true, true, true⟩⟩)],
        by simpa using h⟩⟩

/-- An empty account is left behind, and a destroyed contract is still
there. -/
theorem dead_account_kept :
    (∃ out, Revm.reference (RevmDb.new .reference sampleGenesis) (payment 0) = .ok out ∧
      ((RevmDb.new .reference sampleGenesis).commit out.state).basic (Arr.zero 20) = none ∧
      (RevmDb.new .reference
        (executeWithRevm .reference Revm.reference sampleGenesis (payment 0)).1).basic
          (Arr.zero 20) ≠ none) ∧ ∃ out, shortLived (RevmDb.new .reference sampleGenesis)
        (txEnv sampleSender none 0 [] 100000 0) = .ok out ∧
      ((RevmDb.new .reference sampleGenesis).commit out.state).basic vault = none ∧
      ((RevmDb.new .reference sampleGenesis).commit out.state).storage vault 0 = 0 ∧
      (RevmDb.new .reference (executeWithRevm .reference shortLived sampleGenesis
        (txEnv sampleSender none 0 [] 100000 0)).1).basic vault ≠ none ∧
      (RevmDb.new .reference (executeWithRevm .reference shortLived sampleGenesis
        (txEnv sampleSender none 0 [] 100000 0)).1).storage vault 0 = 7 := by
  constructor
  · obtain ⟨out, hr, hgn⟩ := exists_of_any
      (x := reference (new .reference sampleGenesis) (payment 0))
      (p := fun out => decide (((new .reference sampleGenesis).commit out.state).basic
        (Arr.zero 20) = none)) (by decide +kernel)
    exact ⟨out, hr, of_decide_eq_true hgn, by decide +kernel⟩
  · obtain ⟨out, hr, hgn⟩ := exists_of_any
      (x := shortLived (new .reference sampleGenesis) (txEnv sampleSender none 0 [] 100000 0))
      (p := fun out => decide
        (((new .reference sampleGenesis).commit out.state).basic vault = none ∧
          ((new .reference sampleGenesis).commit out.state).storage vault 0 = 0))
      (by decide +kernel)
    obtain ⟨hb, hs⟩ := of_decide_eq_true hgn
    exact ⟨out, hr, hb, hs, by decide +kernel, by decide +kernel⟩

end Aii.Node
