/-
Aii.Release.StoreRace — two imports at once
(`store_verified_binary` of `aii-node/src/release_store.rs`).

The staging file has the extension REPLACED by `tmp`, so 1.2.3 and 1.2.4
share theirs.
-/
import Aii.Release.Host

namespace Aii.Release

open Common Node List Function

/-- A call of `store_verified_binary`. -/
structure StoreCall where
  version : Bytes
  sha : Bytes
  bytes : Bytes

/-- The names of files, and what is in them. -/
structure Disk where
  names : Path → Option Nat
  data : Nat → Bytes
  next : Nat

open Disk

/-- How far a call is: the hash has been checked, it writes a file from an
offset on, it has returned `Ok`, or an error. -/
inductive Phase where
  | checked
  | writing (file offset : Nat)
  | stored
  | failed
  deriving DecidableEq

structure Race where
  disk : Disk
  phase : Bool → Phase

section Race

variable (c : ReleaseCrypto) (dataDir : Path) (calls : Bool → StoreCall)

def releasePath (t : Bool) : Path := binaryPath dataDir (calls t).version

def stagingPath (t : Bool) : Path :=
  (releasePath dataDir calls t).withExtension (ascii ['t', 'm', 'p'])

def Expected (call : StoreCall) (content : Bytes) : Prop :=
  hexText (c.sha256 content).toList = toAsciiLowercase (trim0x call.sha)
deriving Decidable

def Race.start (disk : Disk) : Race :=
  ⟨disk, fun t => if Expected c (calls t) (calls t).bytes then .checked else .failed⟩

/-- `open` with `O_CREAT` and `O_TRUNC`. -/
def Disk.openNew (disk : Disk) (p : Path) : Disk × Nat :=
  match disk.names p with
  | some file => ({ disk with data := Function.update disk.data file [] }, file)
  | none =>
    (⟨Function.update disk.names p (some disk.next), Function.update disk.data disk.next [],
      disk.next + 1⟩, disk.next)

/-- `write` at an offset; a gap is filled with zeros. -/
def Disk.writeAt (disk : Disk) (file offset : Nat) (chunk : Bytes) : Disk :=
  let old := disk.data file
  let new := old.take offset ++ replicate (offset - old.length) 0 ++ chunk ++
    old.drop (offset + chunk.length)
  { disk with data := Function.update disk.data file new }

def Disk.rename (disk : Disk) (p q : Path) : Option Disk :=
  (disk.names p).map fun file =>
    { disk with names := Function.update (Function.update disk.names p none) q (some file) }

/-- The next file operation of a call; a write takes up to `size` bytes. -/
def raceStep (s : Race) (turn : Bool × Nat) : Race :=
  let t := turn.1
  match s.phase t with
  | .checked =>
    let opened := s.disk.openNew (stagingPath dataDir calls t)
    ⟨opened.1, Function.update s.phase t (.writing opened.2 0)⟩
  | .writing file offset =>
    if offset < (calls t).bytes.length then
      let chunk := ((calls t).bytes.drop offset).take turn.2
      ⟨s.disk.writeAt file offset chunk,
        Function.update s.phase t (.writing file (offset + chunk.length))⟩
    else
      match s.disk.rename (stagingPath dataDir calls t) (releasePath dataDir calls t) with
      | some disk => ⟨disk, Function.update s.phase t .stored⟩
      | none => ⟨s.disk, Function.update s.phase t .failed⟩
  | _ => s

/-- What is at the release paths has the expected hash. -/
def Consistent (disk : Disk) : Prop :=
  ∀ t, ∀ file ∈ disk.names (releasePath dataDir calls t), Expected c (calls t) (disk.data file)

/-- A file has one name, and the names in use are of files made. -/
structure Disk.Ok (disk : Disk) : Prop where
  inj : ∀ p q file, disk.names p = some file → disk.names q = some file → p = q
  made : ∀ p file, disk.names p = some file → file < disk.next

structure Apart : Prop where
  staging : stagingPath dataDir calls true ≠ stagingPath dataDir calls false
  release : releasePath dataDir calls true ≠ releasePath dataDir calls false
  cross : ∀ t t', stagingPath dataDir calls t ≠ releasePath dataDir calls t'

/-- A call that writes has the first bytes in its staging file. -/
structure RaceInv (s : Race) : Prop where
  disk : s.disk.Ok
  consistent : Consistent c dataDir calls s.disk
  checked : ∀ t, s.phase t ≠ .failed → Expected c (calls t) (calls t).bytes
  writing : ∀ t file offset, s.phase t = .writing file offset →
    s.disk.names (stagingPath dataDir calls t) = some file ∧
      s.disk.data file = (calls t).bytes.take offset

variable {c dataDir calls} {disk : Disk} {s : Race} {t : Bool} {file offset : Nat} {t' : Bool}
  {p q : Path}

lemma Apart.staging_ne (h : Apart dataDir calls) {t : Bool} (hne : t' ≠ t) :
    stagingPath dataDir calls t' ≠ stagingPath dataDir calls t := by
  cases t <;> cases t' <;> simp_all [h.staging, h.staging.symm]

lemma Apart.release_ne (h : Apart dataDir calls) {t : Bool} (hne : t' ≠ t) :
    releasePath dataDir calls t' ≠ releasePath dataDir calls t := by
  cases t <;> cases t' <;> simp_all [h.release, h.release.symm]

lemma Disk.openNew_names (disk : Disk) (p : Path) :
    (disk.openNew p).1.names = update disk.names p (some (disk.openNew p).2) := by
  unfold openNew
  cases h : disk.names p with
  | some file => exact (update_eq_self_iff.mpr h.symm).symm
  | none => rfl

lemma Disk.openNew_data (disk : Disk) (p : Path) :
    (disk.openNew p).1.data = update disk.data (disk.openNew p).2 [] := by
  unfold openNew
  cases disk.names p <;> rfl

lemma Disk.Ok.openNew_fresh (h : disk.Ok) (hne : q ≠ p) (hq : disk.names q = some file) :
    file ≠ (disk.openNew p).2 := by
  unfold openNew
  cases hp : disk.names p with
  | some file' =>
    rintro rfl
    exact hne (h.inj _ _ _ hq hp)
  | none => exact (h.made _ _ hq).ne

lemma Disk.Ok.openNew (h : disk.Ok) (p : Path) : (disk.openNew p).1.Ok where
  inj q q' file hq hq' := by
    rw [disk.openNew_names] at hq hq'
    by_cases hp : q = p <;> by_cases hp' : q' = p <;>
      grind [update_apply, h.openNew_fresh, h.inj]
  made q file hq := by
    unfold Disk.openNew at hq ⊢
    cases hp : disk.names p with
    | some file' =>
      rw [hp] at hq
      exact h.made q file hq
    | none =>
      simp only [hp] at hq ⊢
      have hm := h.made q file
      grind [update_apply]

lemma Disk.Ok.moved (h : disk.Ok) (hp : disk.names p = some file) :
    Disk.Ok { disk with
      names := update (update disk.names p none) q (some file) } where
  inj r r' file' hr hr' := by
    dsimp only [update_apply] at hr hr'
    grind [update_apply, h.inj]
  made r file' hr := by
    dsimp only at hr ⊢
    have hfl := h.made p file hp
    have hm := h.made r file'
    grind [update_apply]

lemma writeAt_data {size : Nat} {bytes : Bytes} (h : disk.data file = bytes.take offset)
    (hlt : offset < bytes.length) :
    (disk.writeAt file offset ((bytes.drop offset).take size)).data = update disk.data file
        (bytes.take (offset + ((bytes.drop offset).take size).length)) := by
  have hl : (bytes.take offset).length = offset := by simp [hlt.le]
  unfold writeAt
  dsimp only
  congr 1
  have hrs : (bytes.take offset).drop (offset + ((bytes.drop offset).take size).length) = [] :=
    drop_eq_nil_of_le (by omega)
  rw [h, hrs, take_take, Nat.min_self, hl, Nat.sub_self, replicate_zero, append_nil,
    append_nil, take_add]
  congr 1
  rw [length_take, take_eq_take_iff]
  omega

section Step

variable (h : RaceInv c dataDir calls s)

include h

lemma RaceInv.advance (hph : s.phase t ≠ .failed) {phase : Phase} (hdk : disk.Ok)
    (hc : Consistent c dataDir calls disk)
    (ho : ∀ file offset, phase = .writing file offset →
      disk.names (stagingPath dataDir calls t) = some file ∧
        disk.data file = (calls t).bytes.take offset)
    (hoh : ∀ t' ≠ t, ∀ file, s.disk.names (stagingPath dataDir calls t') = some file →
      disk.names (stagingPath dataDir calls t') = some file ∧ disk.data file = s.disk.data file) :
    RaceInv c dataDir calls ⟨disk, update s.phase t phase⟩ where
  disk := hdk
  consistent := hc
  checked t' h' := by
    refine h.checked t' fun hf => h' ?_
    dsimp only
    rwa [update_of_ne (by rintro rfl; exact hph hf)]
  writing t' file offset hw := by
    dsimp only at hw ⊢
    by_cases ht : t' = t
    · grind
    · rw [update_of_ne ht] at hw
      obtain ⟨hnam, hdt⟩ := h.writing t' file offset hw
      obtain ⟨hnam', hdt'⟩ := hoh t' ht file hnam
      exact ⟨hnam', hdt'.trans hdt⟩

variable (haa : Apart dataDir calls)

include haa

lemma RaceInv.opened (hph : s.phase t = .checked) :
    RaceInv c dataDir calls ⟨(s.disk.openNew (stagingPath dataDir calls t)).1,
      update s.phase t (.writing (s.disk.openNew (stagingPath dataDir calls t)).2 0)⟩ := by
  have hsm : ∀ {q file}, q ≠ stagingPath dataDir calls t → s.disk.names q = some file →
      (s.disk.openNew (stagingPath dataDir calls t)).1.data file = s.disk.data file := by
    intro q file hne hq
    rw [openNew_data, update_of_ne (h.disk.openNew_fresh hne hq)]
  refine h.advance (by simp [hph]) (h.disk.openNew _) ?_ ?_ ?_
  · intro t' file hfl
    have hne := (haa.cross t t').symm
    rw [Option.mem_def, openNew_names, update_of_ne hne] at hfl
    rw [hsm hne hfl]
    exact h.consistent t' file hfl
  · intro file offset hw
    obtain ⟨rfl, rfl⟩ := Phase.writing.inj hw
    rw [openNew_names, openNew_data, update_self, update_self]
    exact ⟨rfl, rfl⟩
  · intro t' ht file hfl
    have hne := haa.staging_ne ht
    rw [hsm hne hfl, openNew_names, update_of_ne hne]
    exact ⟨hfl, rfl⟩

lemma RaceInv.wrote (hph : s.phase t = .writing file offset)
    (hlt : offset < (calls t).bytes.length) (size : Nat) :
    RaceInv c dataDir calls ⟨s.disk.writeAt file offset (((calls t).bytes.drop offset).take size),
        update s.phase t (.writing file
          (offset + (((calls t).bytes.drop offset).take size).length))⟩ := by
  obtain ⟨hn, hdt⟩ := h.writing t file offset hph
  have hsm : ∀ {q file'}, q ≠ stagingPath dataDir calls t → s.disk.names q = some file' →
      (s.disk.writeAt file offset (((calls t).bytes.drop offset).take size)).data file' =
        s.disk.data file' := by
    intro q file' hne hq
    rw [writeAt_data hdt hlt, update_of_ne]
    rintro rfl
    exact hne (h.disk.inj _ _ _ hq hn)
  refine h.advance (by simp [hph]) ⟨h.disk.inj, h.disk.made⟩ ?_ ?_ ?_
  · intro t' file' hfl
    rw [hsm (haa.cross t t').symm hfl]
    exact h.consistent t' file' hfl
  · intro file' offset' hw
    obtain ⟨rfl, rfl⟩ := Phase.writing.inj hw
    rw [writeAt_data hdt hlt, update_self]
    exact ⟨hn, rfl⟩
  · intro t' ht file' hfl
    exact ⟨hfl, hsm (haa.staging_ne ht) hfl⟩

lemma RaceInv.renamed (hph : s.phase t = .writing file offset)
    (he : ¬ offset < (calls t).bytes.length) :
    RaceInv c dataDir calls ⟨{ s.disk with names := update (update s.disk.names
          (stagingPath dataDir calls t) none) (releasePath dataDir calls t) (some file) },
        update s.phase t .stored⟩ := by
  obtain ⟨hn, hdt⟩ := h.writing t file offset hph
  refine h.advance (by simp [hph]) (h.disk.moved hn) ?_ (by simp) ?_
  · intro t' file' hfl
    dsimp only at hfl ⊢
    by_cases ht : t' = t
    · -- everything has been written
      subst ht
      rw [Option.mem_def, update_self] at hfl
      obtain rfl := Option.some.inj hfl
      rw [hdt, take_of_length_le (Nat.le_of_not_lt he)]
      exact h.checked t' (by simp [hph])
    · rw [Option.mem_def, update_of_ne (haa.release_ne ht),
        update_of_ne (haa.cross t t').symm] at hfl
      exact h.consistent t' file' hfl
  · intro t' ht file' hfl
    dsimp only
    rw [update_of_ne (haa.cross t' t), update_of_ne (haa.staging_ne ht)]
    exact ⟨hfl, rfl⟩

lemma RaceInv.step (turn : Bool × Nat) :
    RaceInv c dataDir calls (raceStep dataDir calls s turn) := by
  unfold raceStep
  dsimp only
  split
  case h_1 hph => exact h.opened haa hph
  case h_2 file offset hph =>
    split_ifs with hlt
    · exact h.wrote haa hph hlt turn.2
    · rw [Disk.rename, (h.writing _ file offset hph).1]
      exact h.renamed haa hph hlt
  case h_3 => exact h

end Step

/-- **Imports with paths of their own keep the cache consistent.** -/
theorem imports_keep_consistent (c : ReleaseCrypto) (dataDir : Path) (calls : Bool → StoreCall)
    (disk : Disk) (schedule : List (Bool × Nat)) (hapart : Apart dataDir calls) (hdisk : disk.Ok)
    (hconsistent : Consistent c dataDir calls disk) : Consistent c dataDir calls
      (schedule.foldl (raceStep dataDir calls) (.start c calls disk)).disk := by
  suffices h : RaceInv c dataDir calls
      (schedule.foldl (raceStep dataDir calls) (.start c calls disk)) from h.consistent
  have hsr : RaceInv c dataDir calls (.start c calls disk) := by
    refine ⟨hdisk, hconsistent, fun t hph => ?_, fun t file offset hw => ?_⟩
    · by_contra hb
      exact hph (if_neg hb)
    · unfold Race.start at hw
      dsimp only at hw
      split_ifs at hw
  induction schedule using reverseRecOn with
  | nil => exact hsr
  | append_singleton schedule turn ih =>
    rw [foldl_append]
    exact ih.step hapart turn

end Race

def Disk.empty : Disk := ⟨fun _ => none, fun _ => [], 0⟩

def twoImports (version version' bytes bytes' : Bytes) (t : Bool) : StoreCall :=
  if t then ⟨version, hexText (referenceHash bytes).toList, bytes⟩
  else ⟨version', hexText (referenceHash bytes').toList, bytes'⟩

theorem imports_keep_consistent_apart :
    Consistent referenceRelease [] (twoImports [0x31] [0x32] [1] [2])
      ([(true, 0), (false, 0), (true, 9), (false, 9), (true, 0), (false, 0)].foldl
        (raceStep [] (twoImports [0x31] [0x32] [1] [2]))
        (.start referenceRelease (twoImports [0x31] [0x32] [1] [2]) .empty)).disk :=
  imports_keep_consistent referenceRelease [] _ .empty _ ⟨by decide, by decide, by decide⟩
    ⟨by simp [empty], by simp [empty]⟩ (by simp [Consistent, empty])

/-- After a run of two imports the first has returned `Ok`, and what is at
its release path is the content, which does not have the hash. -/
def StoredWrong (calls : Bool → StoreCall) (schedule : List (Bool × Nat)) (content : Bytes) :
    Prop :=
  let s := schedule.foldl (raceStep [] calls) (.start referenceRelease calls .empty)
  s.phase true = .stored ∧
    (s.disk.names (releasePath [] calls true)).map s.disk.data = some content ∧
    ¬ Expected referenceRelease (calls true) content
deriving Decidable

/-- Version 1.2.3 is stored with the bytes of 1.2.4, and a version that is
imported twice with no bytes. -/
theorem shared_staging_stores_wrong_bytes :
    StoredWrong (twoImports (ascii ['1', '.', '2', '.', '3']) (ascii ['1', '.', '2', '.', '4'])
        [1] [2]) [(true, 0), (true, 9), (false, 0), (false, 9), (true, 0)] [2] ∧
      StoredWrong (twoImports [0x31] [0x31] [1] [1])
        [(true, 0), (true, 9), (false, 0), (true, 0)] [] := by
  decide +kernel

end Aii.Release
