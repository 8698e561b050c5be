/-
Aii.Common.FileSystem — a tree of files and directories, and programs
that change it.

`FileSystem.walk` follows a path to the location it names; there are no
symbolic links.
-/
import Aii.Common.Bytes

namespace Aii.Common

/-! ## Paths -/

abbrev Path := List Bytes

/-- A place in the tree: the names of the directories that lead to it and
its own. -/
abbrev Location := List Bytes

/-- The byte `/`. -/
def slash : UInt8 := 0x2f

/-- The part `.`. -/
def dot : Bytes := [0x2e]

/-- The part `..`. -/
def dotDot : Bytes := [0x2e, 0x2e]

/-- A part that is the name of an entry. -/
structure Proper (n : Bytes) : Prop where
  ne_nil : n ≠ []
  ne_dot : n ≠ dot
  ne_dotDot : n ≠ dotDot
  no_slash : slash ∉ n
  no_nul : 0 ∉ n

instance (n : Bytes) : Decidable (Proper n) :=
  decidable_of_iff (_ ∧ _ ∧ _ ∧ _ ∧ _)
    ⟨fun h => ⟨h.1, h.2.1, h.2.2.1, h.2.2.2.1, h.2.2.2.2⟩,
      fun h => ⟨h.ne_nil, h.ne_dot, h.ne_dotDot, h.no_slash, h.no_nul⟩⟩

variable {n : Bytes}

lemma Proper.append {s : Bytes} (hn : Proper n) (hl : 2 < (n ++ s).length) (hs : slash ∉ s)
    (hnl : 0 ∉ s) : Proper (n ++ s) where
  ne_nil h := by simp [h] at hl
  ne_dot h := by simp [h, dot] at hl
  ne_dotDot h := by simp [h, dotDot] at hl
  no_slash h := (List.mem_append.mp h).elim hn.no_slash hs
  no_nul h := (List.mem_append.mp h).elim hn.no_nul hnl

abbrev ProperPath (p : List Bytes) : Prop := ∀ n ∈ p, Proper n

lemma proper_concat {d : List Bytes} (hd : ProperPath d) (hn : Proper n) :
    ProperPath (d ++ [n]) := by
  intro x hx
  rcases List.mem_append.mp hx with hx | hx
  · exact hd x hx
  · rwa [List.mem_singleton.mp hx]

abbrev FileName := { n : Bytes // Proper n }

abbrev Place := { p : Path // ∀ n ∈ p, Proper n }

namespace Path

/-- `Path::join`: an absolute text replaces the path. -/
def join (p : Path) (text : Bytes) : Path :=
  if text.head? = some slash then text.splitOn slash else p ++ text.splitOn slash

/-- `Path::components`, without the root. -/
def components (p : Path) : List Bytes :=
  p.filter fun part => part ≠ [] ∧ part ≠ dot

def parent (p : Path) : Option Path :=
  if p.components = [] then none else some p.components.dropLast

def fileName (p : Path) : Option Bytes :=
  p.components.getLast?.filter (· ≠ dotDot)

def beforeDot (n : Bytes) : Bytes := (n.reverse.dropWhile (· ≠ 0x2e)).tail.reverse

/-- `Path::file_stem` of a file name: up to the last dot, unless that is
the first byte. -/
def fileStem (n : Bytes) : Bytes := if beforeDot n = [] then n else beforeDot n

def withExtension (p : Path) (ext : Bytes) : Path :=
  match p.fileName with
  | none => p
  | some n => p.components.dropLast ++ [fileStem n ++ dot ++ ext]

def withSuffix (p : Path) (text : Bytes) : Path :=
  p.dropLast ++ [p.getLastD [] ++ text]

lemma join_of_no_slash {text : Bytes} (h : slash ∉ text) (p : Path) :
    p.join text = p ++ [text] := by
  have hhd : text.head? ≠ some slash := by
    intro heq
    exact h (List.mem_of_mem_head? (by simp [heq]))
  rw [join, if_neg hhd, List.splitOn_eq_singleton h]

@[simp] lemma withSuffix_concat (d : Path) (n text : Bytes) :
    withSuffix (d ++ [n]) text = d ++ [n ++ text] := by
  simp [withSuffix]

lemma components_of_proper {p : Path} (hp : ProperPath p) : p.components = p := by
  refine List.filter_eq_self.mpr fun n hn => ?_
  simpa using ⟨(hp n hn).ne_nil, (hp n hn).ne_dot⟩

variable {n : Bytes} {d : Path}

lemma parent_concat (hp : ProperPath (d ++ [n])) : parent (d ++ [n]) = some d := by
  simp [parent, components_of_proper hp]

lemma withExtension_concat (hp : ProperPath (d ++ [n])) (ext : Bytes) :
    withExtension (d ++ [n]) ext = d ++ [fileStem n ++ dot ++ ext] := by
  have hn := (hp n (by simp)).ne_dotDot
  simp [withExtension, fileName, components_of_proper hp, hn, Option.filter]

lemma fileStem_prefix (hn : n ≠ []) : fileStem n <+: n ∧ fileStem n ≠ [] := by
  unfold fileStem
  split_ifs with h
  · exact ⟨List.prefix_rfl, hn⟩
  · refine ⟨?_, h⟩
    rw [beforeDot, ← List.reverse_suffix, List.reverse_reverse]
    exact (List.tail_suffix _).trans (List.dropWhile_suffix _)

end Path

/-! ## The tree -/

/-- What is at a location. -/
inductive FsEntry where
  | file (content : Bytes)
  | dir
  deriving DecidableEq

/-- A tree of files and directories. -/
structure FileSystem where
  entry : Location → Option FsEntry

/-- `io::ErrorKind`. -/
inductive IoError where
  | notFound
  | notADirectory
  | isADirectory
  | alreadyExists
  | invalidInput
  deriving DecidableEq

namespace FileSystem

def set (fs : FileSystem) (l : Location) (e : Option FsEntry) : FileSystem :=
  ⟨fun l' => if l' = l then e else fs.entry l'⟩

@[simp] lemma set_entry_self (fs : FileSystem) (l : Location) (e : Option FsEntry) :
    (fs.set l e).entry l = e := if_pos rfl

lemma set_entry_ne {l l' : Location} (h : l' ≠ l) (fs : FileSystem) (e : Option FsEntry) :
    (fs.set l e).entry l' = fs.entry l' := if_neg h

lemma set_not_dir {fs : FileSystem} {l l' : Location} {e : Option FsEntry} (he : e ≠ some .dir)
    (h : fs.entry l ≠ some .dir) : (fs.set l' e).entry l ≠ some .dir := by
  by_cases heq : l = l'
  · rwa [heq, set_entry_self]
  · rwa [set_entry_ne heq]

def follow (cur : Location) (part : Bytes) : Location :=
  if part = [] ∨ part = dot then cur
  else if part = dotDot then cur.dropLast
  else cur ++ [part]

lemma follow_proper {n : Bytes} (hn : Proper n) (cur : Location) : follow cur n = cur ++ [n] := by
  simp [follow, hn.ne_nil, hn.ne_dot, hn.ne_dotDot]

/-- Follow a path. Every part is looked up in a directory; what the last
part leads to may be missing. -/
def walk (fs : FileSystem) : Location → Path → Except IoError Location
  | cur, [] => .ok cur
  | cur, part :: rest =>
    match fs.entry cur with
    | some .dir => walk fs (follow cur part) rest
    | some (.file _) => .error .notADirectory
    | none => .error .notFound

def locate (fs : FileSystem) (p : Path) : Except IoError Location :=
  if p.any (·.contains 0) then .error .invalidInput else fs.walk [] p

def pathExists (fs : FileSystem) (p : Path) : Bool :=
  match fs.locate p with
  | .ok l => (fs.entry l).isSome
  | .error _ => false

def contentAt (fs : FileSystem) (l : Location) : Bytes :=
  match fs.entry l with
  | some (.file content) => content
  | _ => []

variable {fs : FileSystem} {cur l l' : Location} {p : Path} {n : Bytes} {e : Option FsEntry}
  {d : Path}

lemma walk_cons_ok {part : Bytes} {rest : Path} : fs.walk cur (part :: rest) = .ok l ↔
      fs.entry cur = some .dir ∧ fs.walk (follow cur part) rest = .ok l := by
  rw [walk]
  split <;> simp_all

lemma walk_append_ok {q : Path} :
    fs.walk cur (p ++ q) = .ok l ↔ ∃ mid, fs.walk cur p = .ok mid ∧ fs.walk mid q = .ok l := by
  induction p generalizing cur with
  | nil => simp [walk]
  | cons _ _ ih =>
    rw [List.cons_append, walk_cons_ok, ih]
    simp [walk_cons_ok]
    constructor
    · grind
    · grind

lemma walk_proper (hp : ProperPath p) (h : fs.walk cur p = .ok l) : l = cur ++ p := by
  induction p generalizing cur with
  | nil => simpa [walk] using h.symm
  | cons part _ ih =>
    have hrs := ih (List.forall_mem_cons.mp hp).2 (walk_cons_ok.mp h).2
    rw [hrs, follow_proper (hp part List.mem_cons_self)]
    simp

lemma walk_set (hl : fs.entry l ≠ some .dir) (h : fs.walk cur p = .ok l') :
    (fs.set l e).walk cur p = .ok l' := by
  induction p generalizing cur with
  | nil => exact h
  | cons _ _ ih =>
    obtain ⟨hdir, hrs⟩ := walk_cons_ok.mp h
    have hne : cur ≠ l := by
      rintro rfl
      exact hl hdir
    exact walk_cons_ok.mpr ⟨by rw [set_entry_ne hne, hdir], ih hrs⟩

lemma locate_ok : fs.locate p = .ok l ↔ (∀ part ∈ p, 0 ∉ part) ∧ fs.walk [] p = .ok l := by
  have hn : p.any (·.contains 0) = true ↔ ¬ ∀ part ∈ p, 0 ∉ part := by simp
  rw [locate]
  split_ifs with h
  · simp [hn.mp h]
  · grind

lemma locate_of_walk (hp : ProperPath p) (h : fs.walk [] p = .ok l) : fs.locate p = .ok l :=
  locate_ok.mpr ⟨fun n hn => (hp n hn).no_nul, h⟩

lemma locate_proper (hp : ProperPath p) (h : fs.locate p = .ok l) : l = p := by
  simpa using walk_proper hp (locate_ok.mp h).2

lemma locate_set (hl : fs.entry l ≠ some .dir) (h : fs.locate p = .ok l') :
    (fs.set l e).locate p = .ok l' := by
  rw [locate_ok] at h ⊢
  exact ⟨h.1, walk_set hl h.2⟩

lemma locate_parent {n : Bytes} (hn : ProperPath (d ++ [n])) (h : fs.locate (d ++ [n]) = .ok l) :
    fs.locate d = .ok d ∧ fs.entry d = some .dir := by
  have hd : ProperPath d := fun x hx => hn x (List.mem_append_left _ hx)
  obtain ⟨mid, hmid, hlast⟩ := walk_append_ok.mp (locate_ok.mp h).2
  obtain rfl : mid = d := by simpa using walk_proper hd hmid
  exact ⟨locate_of_walk hd hmid, (walk_cons_ok.mp hlast).1⟩

lemma locate_child {n : Bytes} (hn : ProperPath (d ++ [n])) (hd : fs.locate d = .ok d)
    (hdir : fs.entry d = some .dir) : fs.locate (d ++ [n]) = .ok (d ++ [n]) := by
  refine locate_of_walk hn (walk_append_ok.mpr ⟨d, (locate_ok.mp hd).2, ?_⟩)
  exact walk_cons_ok.mpr ⟨hdir, by rw [follow_proper (hn n (by simp)), walk]⟩

end FileSystem

/-! ## Operations -/

/-- A program over the tree. -/
abbrev FsM := EStateM IoError FileSystem

open FileSystem List

def readFile (p : Path) : FsM Bytes := fun fs =>
  match fs.locate p with
  | .error e => .error e fs
  | .ok l =>
    match fs.entry l with
    | some (.file content) => .ok content fs
    | some .dir => .error .isADirectory fs
    | none => .error .notFound fs

def writeFile (p : Path) (content : Bytes) : FsM Unit := fun fs =>
  match fs.locate p with
  | .error e => .error e fs
  | .ok l =>
    match fs.entry l with
    | some .dir => .error .isADirectory fs
    | _ => .ok () (fs.set l (some (.file content)))

def removeFile (p : Path) : FsM Unit := fun fs =>
  match fs.locate p with
  | .error e => .error e fs
  | .ok l =>
    match fs.entry l with
    | some (.file _) => .ok () (fs.set l none)
    | some .dir => .error .isADirectory fs
    | none => .error .notFound fs

/-- `fs::rename` of a file. -/
def rename (p q : Path) : FsM Unit := fun fs =>
  match fs.locate p, fs.locate q with
  | .error e, _ => .error e fs
  | .ok _, .error e => .error e fs
  | .ok l, .ok l' =>
    match fs.entry l, fs.entry l' with
    | some (.file _), some .dir => .error .isADirectory fs
    | some (.file content), _ => .ok () ((fs.set l none).set l' (some (.file content)))
    | some .dir, _ => .error .isADirectory fs
    | none, _ => .error .notFound fs

/-- `fs::copy`. The target is emptied before the source is read. -/
def copyFile (p q : Path) : FsM Unit := fun fs =>
  match fs.locate p, fs.locate q with
  | .error e, _ => .error e fs
  | .ok l, found =>
    match fs.entry l, found with
    | some (.file _), .error e => .error e fs
    | some (.file content), .ok l' =>
      match fs.entry l' with
      | some .dir => .error .isADirectory fs
      | _ => .ok () (fs.set l' (some (.file (if l = l' then [] else content))))
    | some .dir, _ => .error .invalidInput fs
    | none, _ => .error .notFound fs

def makeDirs : Location → Path → FsM Unit
  | _, [] => pure ()
  | cur, part :: rest => fun fs =>
    match fs.entry cur, fs.entry (follow cur part) with
    | some .dir, none =>
      makeDirs (follow cur part) rest (fs.set (follow cur part) (some .dir))
    | some .dir, some .dir => makeDirs (follow cur part) rest fs
    | some .dir, some (.file _) =>
      .error (if rest = [] then .alreadyExists else .notADirectory) fs
    | some (.file _), _ => .error .notADirectory fs
    | none, _ => .error .notFound fs

def createDirAll (p : Path) : FsM Unit := fun fs =>
  if p.any (·.contains 0) then .error .invalidInput fs else makeDirs [] p fs

/-- `if path.exists() { fs::remove_file(path)? }`. -/
def removeIfExists (p : Path) : FsM Unit := fun fs =>
  if fs.pathExists p then removeFile p fs else .ok () fs

/-! ## What a program keeps -/

section Keeps

variable {ε ε' σ α β : Type} {P : σ → Prop} {s : σ} {m : EStateM ε σ α} {f : α → EStateM ε σ β}
  {s' s'' : σ}

def final : EStateM.Result ε σ α → σ
  | .ok _ s => s
  | .error _ s => s

/-- The program keeps `P`, whether it succeeds or not. -/
def Keeps (P : σ → Prop) (m : EStateM ε σ α) : Prop :=
  ∀ s, P s → P (final (m s))

lemma keeps_pure (a : α) : Keeps P (pure a : EStateM ε σ α) := fun _ hs => hs

lemma bind_apply (m : EStateM ε σ α) (f : α → EStateM ε σ β) (s : σ) :
    (m >>= f) s = match m s with
      | .ok a s' => f a s'
      | .error e s' => .error e s' := rfl

lemma bind_eq_ok {s : σ} {b : β} :
    (m >>= f) s = .ok b s'' ↔ ∃ a s', m s = .ok a s' ∧ f a s' = .ok b s'' := by
  rw [bind_apply]
  cases m s <;> simp

lemma bind_eq_error {s : σ} {e : ε} : (m >>= f) s = .error e s'' ↔
      m s = .error e s'' ∨ ∃ a s', m s = .ok a s' ∧ f a s' = .error e s'' := by
  rw [bind_apply]
  cases m s <;> simp

lemma Keeps.bind (hm : Keeps P m) (hf : ∀ a, Keeps P (f a)) : Keeps P (m >>= f) := by
  intro s hs
  have hsp := hm s hs
  rw [bind_apply]
  cases hr : m s with
  | ok a s' => exact hf a s' (by simpa [hr, final] using hsp)
  | error => simpa [hr, final] using hsp

lemma Keeps.adaptExcept (hm : Keeps P m) (f : ε → ε') : Keeps P (EStateM.adaptExcept f m) := by
  intro s hs
  have hsp := hm s hs
  unfold EStateM.adaptExcept
  cases hr : m s <;> simpa [hr, final] using hsp

lemma adaptExcept_ok {f : ε → ε'} {s : σ} {a : α} (h : EStateM.adaptExcept f m s = .ok a s') :
    m s = .ok a s' := by
  unfold EStateM.adaptExcept at h
  cases hm : m s with
  | ok => simpa [hm] using h
  | error => simp [hm] at h

lemma adaptExcept_error {f : ε → ε'} {s : σ} {e : ε'}
    (h : EStateM.adaptExcept f m s = .error e s') : ∃ e', m s = .error e' s' := by
  unfold EStateM.adaptExcept at h
  cases hm : m s with
  | ok => simp [hm] at h
  | error e' => grind

end Keeps

section Frames

variable {P : FileSystem → Prop} {fs : FileSystem} {l l' : Location} {p q : Path}
  {P' : FileSystem → Prop} {content : Bytes}

/-- `P` does not depend on which file, if any, is at a location. -/
def Ignores (P : FileSystem → Prop) (l : Location) : Prop :=
  ∀ fs e, fs.entry l ≠ some .dir → e ≠ some .dir → P fs → P (fs.set l e)

/-- `P` survives the making of directories on the way of a path. -/
def IgnoresDirs (P : FileSystem → Prop) (p : Path) : Prop :=
  ∀ fs l, l <+: p → fs.entry l = none → P fs → P (fs.set l (some .dir))

lemma ignores_locate (p : Path) (l' l : Location) : Ignores (fun fs => fs.locate p = .ok l') l :=
  fun _ _ hl _ h => locate_set hl h

lemma ignoresDirs_locate (p q : Path) (l : Location) :
    IgnoresDirs (fun fs => fs.locate p = .ok l) q :=
  fun _ _ _ hnn h => locate_set (by simp [hnn]) h

lemma ignores_entry (h : l ≠ l') (e : Option FsEntry) :
    Ignores (fun fs => fs.entry l = e) l' := by
  intro fs e' _ _ _
  rwa [set_entry_ne h]

lemma ignores_not_dir (l l' : Location) : Ignores (fun fs => fs.entry l ≠ some .dir) l' :=
  fun _ _ _ he hfs => set_not_dir he hfs

lemma ignoresDirs_some (l : Location) (e : FsEntry) (p : Path) :
    IgnoresDirs (fun fs => fs.entry l = some e) p := by
  intro fs l' _ hnn hfs
  have hne : l ≠ l' := by
    rintro rfl
    simp [hfs] at hnn
  rwa [set_entry_ne hne]

lemma ignoresDirs_below {d : Path} {n : Bytes} (Q : Option FsEntry → Prop) :
    IgnoresDirs (fun fs => Q (fs.entry (d ++ [n]))) d := by
  intro fs l hp _ _
  have hne : d ++ [n] ≠ l := by
    rintro rfl
    have hl := hp.length_le
    simp at hl
  rwa [set_entry_ne hne]

lemma Ignores.and (h : Ignores P l) (h' : Ignores P' l) : Ignores (fun fs => P fs ∧ P' fs) l :=
  fun fs e hl he hfs => ⟨h fs e hl he hfs.1, h' fs e hl he hfs.2⟩

lemma IgnoresDirs.and (h : IgnoresDirs P p) (h' : IgnoresDirs P' p) :
    IgnoresDirs (fun fs => P fs ∧ P' fs) p :=
  fun fs l hp hnn hfs => ⟨h fs l hp hnn hfs.1, h' fs l hp hnn hfs.2⟩

lemma writeFile_cases (p : Path) (content : Bytes) (fs : FileSystem) :
    (∃ e, writeFile p content fs = .error e fs) ∨
      ∃ l, fs.locate p = .ok l ∧ fs.entry l ≠ some .dir ∧
        writeFile p content fs = .ok () (fs.set l (some (.file content))) := by
  unfold writeFile
  cases hl : fs.locate p with
  | error e => exact .inl ⟨e, rfl⟩
  | ok l =>
    dsimp only
    split
    · exact .inl ⟨_, rfl⟩
    · exact .inr ⟨l, rfl, ‹_›, rfl⟩

lemma removeFile_cases (p : Path) (fs : FileSystem) : (∃ e, removeFile p fs = .error e fs) ∨
      ∃ l content, fs.locate p = .ok l ∧ fs.entry l = some (.file content) ∧
        removeFile p fs = .ok () (fs.set l none) := by
  unfold removeFile
  cases hl : fs.locate p with
  | error e => exact .inl ⟨e, rfl⟩
  | ok l =>
    dsimp only
    cases hen : fs.entry l with
    | none => exact .inl ⟨_, rfl⟩
    | some entry =>
      cases entry with
      | file content => exact .inr ⟨l, content, rfl, hen, rfl⟩
      | dir => exact .inl ⟨_, rfl⟩

lemma rename_cases (p q : Path) (fs : FileSystem) : (∃ e, rename p q fs = .error e fs) ∨
      ∃ l l' content, fs.locate p = .ok l ∧ fs.locate q = .ok l' ∧
        fs.entry l = some (.file content) ∧ fs.entry l' ≠ some .dir ∧
        rename p q fs = .ok () ((fs.set l none).set l' (some (.file content))) := by
  unfold rename
  cases hl : fs.locate p with
  | error e => exact .inl ⟨e, rfl⟩
  | ok l =>
    cases hl' : fs.locate q with
    | error e => exact .inl ⟨e, rfl⟩
    | ok l' =>
      dsimp only
      split
      · exact .inl ⟨_, rfl⟩
      · exact .inr ⟨l, l', _, rfl, rfl, ‹_›, fun h => by simp_all, rfl⟩
      · exact .inl ⟨_, rfl⟩
      · exact .inl ⟨_, rfl⟩

lemma copyFile_cases (p q : Path) (fs : FileSystem) :
    (∃ e, copyFile p q fs = .error e fs) ∨
      ∃ l l' content, fs.locate p = .ok l ∧ fs.locate q = .ok l' ∧
        fs.entry l = some (.file content) ∧ fs.entry l' ≠ some .dir ∧
        copyFile p q fs = .ok () (fs.set l' (some (.file (if l = l' then [] else content)))) := by
  unfold copyFile
  cases hl : fs.locate p with
  | error e => exact .inl ⟨e, rfl⟩
  | ok l =>
    dsimp only
    split
    · exact .inl ⟨_, rfl⟩
    · next content l' hen hl' =>
      split
      · exact .inl ⟨_, rfl⟩
      · exact .inr ⟨l, l', content, rfl, hl', hen, ‹_›, rfl⟩
    · exact .inl ⟨_, rfl⟩
    · exact .inl ⟨_, rfl⟩

section Rename

variable (hl : fs.locate p = .ok l) (hl' : fs.locate q = .ok l')
  (hen : fs.entry l = some (.file content)) (hdir : fs.entry l' ≠ some .dir)

include hl hl' hen hdir

lemma rename_ok : rename p q fs = .ok () ((fs.set l none).set l' (some (.file content))) := by
  simp [rename, hl, hl', hen]

lemma copyFile_ok (hne : l ≠ l') :
    copyFile p q fs = .ok () (fs.set l' (some (.file content))) := by
  simp [copyFile, hl, hl', hen, if_neg hne]

end Rename

lemma removeIfExists_ok (hl : fs.locate p = .ok l) (hdir : fs.entry l ≠ some .dir) :
    ∃ fs', removeIfExists p fs = .ok () fs' ∧ fs'.entry l = none ∧
      (∀ l' ≠ l, fs'.entry l' = fs.entry l') ∧
      ∀ q l', fs.locate q = .ok l' → fs'.locate q = .ok l' := by
  cases hen : fs.entry l with
  | none => exact ⟨fs, by simp [removeIfExists, pathExists, hl, hen], hen, by simp, by simp⟩
  | some entry =>
    cases entry with
    | dir => exact absurd hen hdir
    | file =>
      refine ⟨fs.set l none, ?_, by simp, fun l' hne => set_entry_ne hne fs none, ?_⟩
      · simp [removeIfExists, pathExists, removeFile, hl, hen]
      · exact fun q l' h => locate_set hdir h

lemma keeps_writeFile (hp : ProperPath p) (h : Ignores P p) (content : Bytes) :
    Keeps P (writeFile p content) := by
  intro fs hfs
  rcases writeFile_cases p content fs with ⟨e, hr⟩ | ⟨l, hl, hdir, hr⟩
  · rwa [hr]
  · rw [hr]
    obtain rfl := locate_proper hp hl
    exact h fs _ hdir (by simp) hfs

lemma keeps_removeFile (hp : ProperPath p) (h : Ignores P p) : Keeps P (removeFile p) := by
  intro fs hfs
  rcases removeFile_cases p fs with ⟨e, hr⟩ | ⟨l, _, hl, hen, hr⟩
  · rwa [hr]
  · rw [hr]
    obtain rfl := locate_proper hp hl
    exact h fs _ (by simp [hen]) (by simp) hfs

lemma keeps_removeIfExists (hp : ProperPath p) (h : Ignores P p) :
    Keeps P (removeIfExists p) := by
  intro fs hfs
  unfold removeIfExists
  split_ifs
  · exact keeps_removeFile hp h fs hfs
  · exact hfs

lemma keeps_rename (hp : ProperPath p) (hq : ProperPath q) (h : Ignores P p)
    (h' : Ignores P q) : Keeps P (rename p q) := by
  intro fs hfs
  rcases rename_cases p q fs with ⟨e, hr⟩ | ⟨l, l', _, hl, hl', hen, hdir, hr⟩
  · rwa [hr]
  · rw [hr]
    obtain rfl := locate_proper hp hl
    obtain rfl := locate_proper hq hl'
    have hgn := h fs none (by simp [hen]) (by simp) hfs
    exact h' _ _ (set_not_dir (by simp) hdir) (by simp) hgn

lemma keeps_copyFile (hq : ProperPath q) (h : Ignores P q) (p : Path) :
    Keeps P (copyFile p q) := by
  intro fs hfs
  rcases copyFile_cases p q fs with ⟨e, hr⟩ | ⟨l, l', _, -, hl', -, hdir, hr⟩
  · rwa [hr]
  · rw [hr]
    obtain rfl := locate_proper hq hl'
    exact h fs _ hdir (by simp) hfs

lemma keeps_makeDirs (hp : ProperPath p) (cur : Location) (h : IgnoresDirs P (cur ++ p)) :
    Keeps P (makeDirs cur p) := by
  induction p generalizing cur with
  | nil => exact keeps_pure ()
  | cons part rest ih =>
    intro fs hfs
    obtain ⟨hpt, hrs⟩ := forall_mem_cons.mp hp
    have hpa : cur ++ part :: rest = follow cur part ++ rest := by simp [follow_proper hpt]
    have hke := ih hrs (follow cur part) (hpa ▸ h)
    cases hc : fs.entry cur with
    | none => simpa [makeDirs, hc, final] using hfs
    | some entry =>
      cases entry with
      | file => simpa [makeDirs, hc, final] using hfs
      | dir =>
        cases hen : fs.entry (follow cur part) with
        | none =>
          have hpr : follow cur part <+: cur ++ part :: rest := hpa ▸ prefix_append _ _
          simpa [makeDirs, hc, hen] using hke _ (h fs _ hpr hen hfs)
        | some entry =>
          cases entry with
          | file => simpa [makeDirs, hc, hen, final] using hfs
          | dir => simpa [makeDirs, hc, hen] using hke fs hfs

lemma keeps_createDirAll (hp : ProperPath p) (h : IgnoresDirs P p) :
    Keeps P (createDirAll p) := by
  intro fs hfs
  unfold createDirAll
  split_ifs
  · exact hfs
  · exact keeps_makeDirs hp [] (by simpa using h) fs hfs

lemma createDirAll_of_dir (hp : ProperPath p) (h : fs.locate p = .ok p)
    (hdir : fs.entry p = some .dir) : createDirAll p fs = .ok () fs := by
  have hm : ∀ cur, fs.walk cur p = .ok (cur ++ p) → fs.entry (cur ++ p) = some .dir →
      makeDirs cur p fs = .ok () fs := by
    clear h hdir
    induction p with
    | nil => intro cur _ _; rfl
    | cons part rest ih =>
      intro cur hw hlast
      obtain ⟨hpt, hrs⟩ := forall_mem_cons.mp hp
      have hpa : cur ++ part :: rest = follow cur part ++ rest := by simp [follow_proper hpt]
      obtain ⟨hc, hw⟩ := walk_cons_ok.mp hw
      rw [hpa] at hw hlast
      -- the next directory is the last one or is walked through
      have hen : fs.entry (follow cur part) = some .dir := by
        cases rest with
        | nil => simpa using hlast
        | cons => exact (walk_cons_ok.mp hw).1
      rw [makeDirs]
      simp [hc, hen]
      exact ih hrs _ hw hlast
  have hnl : ¬ p.any (·.contains 0) = true := by
    simpa using fun n hn => (hp n hn).no_nul
  rw [createDirAll, if_neg hnl]
  exact hm [] (by simpa using (locate_ok.mp h).2) (by simpa using hdir)

end Frames

end Aii.Common
