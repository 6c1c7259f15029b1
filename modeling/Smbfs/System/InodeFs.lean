import Smbfs.Lib.GoMap
import Smbfs.Server.ObjectFs

/-!
A filesystem with inodes. Names lead to inodes, open files hold inodes, and a
file that is renamed or removed stays with the files that have it open.
Directories are not renamed or removed.

* `InodeTree`, `InodeDisk`: the names and the open files, with what holds of them;
* `inodeFs`: the backend, `inodeView` what it stands for;
* `inodeView_posix`, `inodeView_byteFiles`, `inodeView_keepsData`, `inodeView_lexical`:
  its laws.
-/

namespace Smbfs

open Smbfs.Lib Smbfs.Lib.GoPath

/-! ## Names and inodes -/

/-- The names of the inodes, and what the inodes are. Every name is in a
directory, and no inode has two names. -/
structure InodeTree where
  names : GoMap (List Part) Nat
  nodes : Nat → Node
  next : Nat
  root : ∃ i, names.lookup [] = some i ∧ (nodes i).isDir = true
  named_lt : ∀ l i, names.lookup l = some i → i < next
  distinct : ∀ l l' i, names.lookup l = some i → names.lookup l' = some i → l = l'
  closed : ∀ c l, names.lookup (c :: l) ≠ none →
    ∃ i, names.lookup l = some i ∧ (nodes i).isDir = true

variable {t : InodeTree} {i : Nat}

namespace InodeTree

def empty : InodeTree where
  names := (∅ : GoMap (List Part) Nat).insert [] 0
  nodes := fun _ => .dir
  next := 1
  root := ⟨0, by rw [GoMap.lookup_insert, if_pos rfl], rfl⟩
  named_lt := by
    intro l i h
    rw [GoMap.lookup_insert] at h
    split at h
    · cases h
      exact Nat.one_pos
    · cases h
  distinct := by
    intro l l' i h h'
    rw [GoMap.lookup_insert] at h h'
    split at h <;> split at h' <;> simp_all
  closed := by
    intro c l h
    rw [GoMap.lookup_insert, if_neg (List.cons_ne_nil c l)] at h
    exact absurd rfl h

/-- There is a directory at the location. -/
def isDirAt (t : InodeTree) (l : List Part) : Bool :=
  (t.names.lookup l).any fun i => (t.nodes i).isDir

theorem isDirAt_iff {l : List Part} :
    t.isDirAt l = true ↔ ∃ i, t.names.lookup l = some i ∧ (t.nodes i).isDir = true :=
  Option.any_eq_true _ _

/-- A file gets other data. -/
def setData (t : InodeTree) (i : Nat) (data : Bytes) : InodeTree :=
  if h : (t.nodes i).isDir = false then
    have hkind : ∀ j, (Function.update t.nodes i (.file data) j).isDir = (t.nodes j).isDir := by
      intro j
      by_cases hj : j = i
      · subst hj
        rw [Function.update_self, h]
        rfl
      · rw [Function.update_of_ne hj]
    { t with
      nodes := Function.update t.nodes i (.file data)
      root := by
        simp only [hkind]
        exact t.root
      closed := by
        simp only [hkind]
        exact t.closed }
  else t

/-- A new inode gets a name. -/
def add (t : InodeTree) (n : Node) : List Part → Option InodeTree
  | [] => none
  | c :: l =>
    if h : t.isDirAt l = true ∧ t.names.lookup (c :: l) = none then
      have hold : ∀ l' i, t.names.lookup l' = some i →
          ((t.names.insert (c :: l) t.next).lookup l' = some i ∧
            Function.update t.nodes t.next n i = t.nodes i) := by
        intro l' i hi
        have hne : l' ≠ c :: l := by
          rintro rfl
          rw [h.2] at hi
          cases hi
        rw [GoMap.lookup_insert, if_neg hne, Function.update_of_ne (Nat.ne_of_lt (t.named_lt l' i hi))]
        exact ⟨hi, rfl⟩
      some
        { names := t.names.insert (c :: l) t.next
          nodes := Function.update t.nodes t.next n
          next := t.next + 1
          root := by
            obtain ⟨i, hi, hdir⟩ := t.root
            obtain ⟨hi', hn⟩ := hold [] i hi
            exact ⟨i, hi', hn ▸ hdir⟩
          named_lt := by
            intro l' i hi
            rw [GoMap.lookup_insert] at hi
            split at hi
            · cases hi
              exact Nat.lt_succ_self _
            · exact Nat.lt_succ_of_lt (t.named_lt l' i hi)
          distinct := by
            intro l₁ l₂ i h₁ h₂
            rw [GoMap.lookup_insert] at h₁ h₂
            split at h₁ <;> split at h₂
            · next he₁ he₂ => rw [he₁, he₂]
            · cases h₁
              exact absurd (t.named_lt l₂ _ h₂) (Nat.lt_irrefl _)
            · cases h₂
              exact absurd (t.named_lt l₁ _ h₁) (Nat.lt_irrefl _)
            · exact t.distinct l₁ l₂ i h₁ h₂
          closed := by
            intro c' l' hc
            rw [GoMap.lookup_insert] at hc
            obtain ⟨i, hi, hdir⟩ : ∃ i, t.names.lookup l' = some i ∧ (t.nodes i).isDir = true := by
              split at hc
              · next heq =>
                cases heq
                exact isDirAt_iff.mp h.1
              · exact t.closed c' l' hc
            obtain ⟨hi', hn⟩ := hold l' i hi
            exact ⟨i, hi', hn ▸ hdir⟩ }
    else none

/-- A file loses its name. -/
def unlink (t : InodeTree) (l : List Part) : InodeTree :=
  if h : t.isDirAt l = false then
    have hkeep : ∀ l' i, t.names.lookup l' = some i → (t.nodes i).isDir = true →
        (t.names.erase l).lookup l' = some i := by
      intro l' i hi hdir
      have hne : l' ≠ l := by
        rintro rfl
        rw [isDirAt_iff.mpr ⟨i, hi, hdir⟩] at h
        cases h
      rw [GoMap.lookup_erase, if_neg hne]
      exact hi
    have hold : ∀ l' i, (t.names.erase l).lookup l' = some i → t.names.lookup l' = some i := by
      intro l' i hi
      rw [GoMap.lookup_erase] at hi
      split at hi
      · cases hi
      · exact hi
    { t with
      names := t.names.erase l
      root := by
        obtain ⟨i, hi, hdir⟩ := t.root
        exact ⟨i, hkeep [] i hi hdir, hdir⟩
      named_lt := fun l' i hi => t.named_lt l' i (hold l' i hi)
      distinct := fun l₁ l₂ i h₁ h₂ => t.distinct l₁ l₂ i (hold l₁ i h₁) (hold l₂ i h₂)
      closed := by
        intro c l' hc
        obtain ⟨i, hi⟩ := Option.ne_none_iff_exists'.mp hc
        have hsome : t.names.lookup (c :: l') ≠ none := by
          rw [hold _ i hi]
          exact Option.some_ne_none i
        obtain ⟨j, hj, hdir⟩ := t.closed c l' hsome
        exact ⟨j, hkeep l' j hj hdir, hdir⟩ }
  else t

/-- A file gets another name. -/
def move (t : InodeTree) (old : List Part) : List Part → Option InodeTree
  | [] => none
  | c :: l =>
    if h : (t.isDirAt old = false ∧ t.isDirAt l = true) ∧ t.names.lookup (c :: l) = none ∧
        t.names.lookup old ≠ none then
      have hparent : ∀ l' i, t.names.lookup l' = some i → (t.nodes i).isDir = true →
          ((t.names.erase old).insert (c :: l) ((t.names.lookup old).getD 0)).lookup l' = some i := by
        intro l' i hi hdir
        have hnew : l' ≠ c :: l := by
          rintro rfl
          rw [h.2.1] at hi
          cases hi
        have hold : l' ≠ old := by
          rintro rfl
          rw [isDirAt_iff.mpr ⟨i, hi, hdir⟩] at h
          cases h.1.1
        rw [GoMap.lookup_insert, if_neg hnew, GoMap.lookup_erase, if_neg hold]
        exact hi
      have hcases : ∀ l' i,
          ((t.names.erase old).insert (c :: l) ((t.names.lookup old).getD 0)).lookup l' = some i →
          (l' = c :: l ∧ t.names.lookup old = some i) ∨
            (l' ≠ c :: l ∧ l' ≠ old ∧ t.names.lookup l' = some i) := by
        intro l' i hi
        rw [GoMap.lookup_insert] at hi
        split at hi
        · next heq =>
          obtain ⟨j, hj⟩ := Option.ne_none_iff_exists'.mp h.2.2
          rw [hj] at hi ⊢
          exact .inl ⟨heq, hi⟩
        · next hne =>
          rw [GoMap.lookup_erase] at hi
          split at hi
          · cases hi
          · next hold => exact .inr ⟨hne, hold, hi⟩
      some
        { t with
          names := (t.names.erase old).insert (c :: l) ((t.names.lookup old).getD 0)
          root := by
            obtain ⟨i, hi, hdir⟩ := t.root
            exact ⟨i, hparent [] i hi hdir, hdir⟩
          named_lt := by
            intro l' i hi
            rcases hcases l' i hi with ⟨-, hi⟩ | ⟨-, -, hi⟩
            · exact t.named_lt old i hi
            · exact t.named_lt l' i hi
          distinct := by
            intro l₁ l₂ i h₁ h₂
            rcases hcases l₁ i h₁ with ⟨he₁, h₁⟩ | ⟨-, hne₁, h₁⟩ <;>
              rcases hcases l₂ i h₂ with ⟨he₂, h₂⟩ | ⟨-, hne₂, h₂⟩
            · rw [he₁, he₂]
            · exact absurd (t.distinct l₂ old i h₂ h₁) hne₂
            · exact absurd (t.distinct l₁ old i h₁ h₂) hne₁
            · exact t.distinct l₁ l₂ i h₁ h₂
          closed := by
            intro c' l' hc
            obtain ⟨i, hi⟩ := Option.ne_none_iff_exists'.mp hc
            obtain ⟨j, hj, hdir⟩ : ∃ j, t.names.lookup l' = some j ∧ (t.nodes j).isDir = true := by
              rcases hcases _ i hi with ⟨heq, -⟩ | ⟨-, -, hi⟩
              · cases heq
                exact isDirAt_iff.mp h.1.2
              · exact t.closed c' l' (by rw [hi]; exact Option.some_ne_none i)
            exact ⟨j, hparent l' j hj hdir, hdir⟩ }
    else none

@[simp] theorem names_setData (t : InodeTree) (i : Nat) (data : Bytes) :
    (t.setData i data).names = t.names := by
  unfold setData
  split <;> rfl

@[simp] theorem next_setData (t : InodeTree) (i : Nat) (data : Bytes) :
    (t.setData i data).next = t.next := by
  unfold setData
  split <;> rfl

theorem nodes_setData (h : (t.nodes i).isDir = false) (data : Bytes) :
    (t.setData i data).nodes = Function.update t.nodes i (.file data) := by
  rw [setData, dif_pos h]

theorem add_some {t t' : InodeTree} {n : Node} {l : List Part} (h : t.add n l = some t') :
    ∃ c l₀, l = c :: l₀ ∧ t.isDirAt l₀ = true ∧ t.names.lookup l = none ∧
      t'.names = t.names.insert l t.next ∧ t'.nodes = Function.update t.nodes t.next n ∧
      t'.next = t.next + 1 := by
  cases l with
  | nil => cases h
  | cons c l =>
    rw [add] at h
    split at h
    · next hl =>
      cases h
      exact ⟨c, l, rfl, hl.1, hl.2, rfl, rfl, rfl⟩
    · cases h

/-- Directories stay where they are. -/
theorem isDirAt_add {t' : InodeTree} {n : Node} {l l' : List Part} (h : t.add n l = some t')
    (hl' : t.isDirAt l' = true) : t'.isDirAt l' = true := by
  obtain ⟨c, l₀, -, -, hnone, hnames, hnodes, -⟩ := add_some h
  obtain ⟨i, hi, hdir⟩ := isDirAt_iff.mp hl'
  have hne : l' ≠ l := by
    rintro rfl
    rw [hnone] at hi
    cases hi
  refine isDirAt_iff.mpr ⟨i, ?_, ?_⟩
  · rw [hnames, GoMap.lookup_insert, if_neg hne, hi]
  · rw [hnodes, Function.update_of_ne (Nat.ne_of_lt (t.named_lt l' i hi))]
    exact hdir

theorem move_some {t t' : InodeTree} {old new : List Part} (h : t.move old new = some t') :
    ∃ i, t.names.lookup old = some i ∧ t'.names.lookup new = some i ∧ t'.nodes = t.nodes ∧
      t'.next = t.next := by
  cases new with
  | nil => cases h
  | cons c l =>
    rw [move] at h
    split at h
    · next hl =>
      cases h
      obtain ⟨i, hi⟩ := Option.ne_none_iff_exists'.mp hl.2.2
      refine ⟨i, hi, ?_, rfl, rfl⟩
      rw [GoMap.lookup_insert, if_pos rfl, hi]
      rfl
    · cases h

end InodeTree

/-! ## The disk -/

/-- The tree, and the inode and the offset of every open file. -/
structure InodeDisk where
  tree : InodeTree
  files : Nat → Option (Nat × Nat)
  nextFile : Nat
  file_lt : ∀ f p, files f = some p → p.1 < tree.next
  unused : ∀ f, nextFile ≤ f → files f = none

variable {d : InodeDisk} {path : Str} {flags : OpenFlags}

namespace InodeDisk

def errNotExist : GoError :=
  ⟨true, false, false, false, false, false, false, false, false, true⟩

def errExist : GoError :=
  ⟨false, true, false, false, false, false, false, false, false, false⟩

def errClosed : GoError :=
  ⟨false, false, false, false, true, false, false, false, false, false⟩

def errInvalid : GoError :=
  ⟨false, false, false, true, false, false, false, false, false, false⟩

def errEOF : GoError :=
  ⟨false, false, false, false, false, true, false, false, true, false⟩

def errIsDirectory : GoError :=
  ⟨false, false, false, false, false, false, true, false, false, false⟩

def empty : InodeDisk where
  tree := .empty
  files := fun _ => none
  nextFile := 0
  file_lt := by
    intro f p h
    cases h
  unused := fun _ _ => rfl

/-- Another tree, in which no inode has been given back. -/
def setTree (d : InodeDisk) (t : InodeTree) : InodeDisk :=
  if h : d.tree.next ≤ t.next then
    { d with tree := t, file_lt := fun f p hf => Nat.lt_of_lt_of_le (d.file_lt f p hf) h }
  else d

theorem tree_setTree (h : d.tree.next ≤ t.next) : (d.setTree t).tree = t := by
  rw [setTree, dif_pos h]

@[simp] theorem files_setTree (d : InodeDisk) (t : InodeTree) : (d.setTree t).files = d.files := by
  unfold setTree
  split <;> rfl

/-- A new file for an inode, at the offset 0. -/
def openInode (d : InodeDisk) (i : Nat) : Except GoError Nat × InodeDisk :=
  if h : i < d.tree.next then
    (.ok d.nextFile,
      { d with
        files := Function.update d.files d.nextFile (some (i, 0))
        nextFile := d.nextFile + 1
        file_lt := by
          intro f p hf
          by_cases hne : f = d.nextFile
          · rw [hne, Function.update_self] at hf
            cases hf
            exact h
          · rw [Function.update_of_ne hne] at hf
            exact d.file_lt f p hf
        unused := by
          intro f hf
          rw [Function.update_of_ne (Nat.ne_of_gt hf)]
          exact d.unused f (Nat.le_of_succ_le hf) })
  else (.error errInvalid, d)

@[simp] theorem tree_openInode (d : InodeDisk) (i : Nat) : (d.openInode i).2.tree = d.tree := by
  unfold openInode
  split <;> rfl

theorem openInode_ok {i f : Nat} (h : (d.openInode i).1 = .ok f) :
    d.files f = none ∧ (d.openInode i).2.files = Function.update d.files f (some (i, 0)) := by
  unfold openInode at h ⊢
  split at h
  · next hi =>
    cases h
    rw [dif_pos hi]
    exact ⟨d.unused _ le_rfl, rfl⟩
  · cases h

theorem openInode_of_lt (h : i < d.tree.next) : (d.openInode i).1 = .ok d.nextFile := by
  rw [openInode, dif_pos h]

/-- An open file goes to an offset. -/
def seekTo (d : InodeDisk) (f offset : Nat) : InodeDisk where
  tree := d.tree
  files := fun g => (d.files g).map fun p => if g = f then (p.1, offset) else p
  nextFile := d.nextFile
  file_lt := by
    intro g p hp
    obtain ⟨q, hq, rfl⟩ := Option.map_eq_some_iff.mp hp
    have hlt := d.file_lt g q hq
    split <;> exact hlt
  unused := by
    intro g hg
    rw [d.unused g hg]
    rfl

def closeFile (d : InodeDisk) (f : Nat) : InodeDisk where
  tree := d.tree
  files := fun g => if g = f then none else d.files g
  nextFile := d.nextFile
  file_lt := by
    intro g p hp
    split at hp
    · cases hp
    · exact d.file_lt g p hp
  unused := by
    intro g hg
    split
    · rfl
    · exact d.unused g hg

def cursor (d : InodeDisk) (f : Nat) : Nat := ((d.files f).map Prod.snd).getD 0

def inode (d : InodeDisk) (f : Nat) : Option Nat := (d.files f).map Prod.fst

/-- The bytes of an open file, if it is not a directory. -/
def data (d : InodeDisk) (f : Nat) : Option (Nat × Bytes) :=
  match d.inode f with
  | none => none
  | some i =>
    match d.tree.nodes i with
    | .file data => some (i, data)
    | .dir => none

def info (name : Str) : Node → FileInfo
  | .file data => ⟨name, Int64.ofNat data.length, 0o644, 0, false⟩
  | .dir => ⟨name, 0, modeDir ||| 0o755, 0, true⟩

def openFile (d : InodeDisk) (path : Str) (flags : OpenFlags) : Except GoError Nat × InodeDisk :=
  match d.tree.names.lookup (location path) with
  | some i =>
    if (d.tree.nodes i).isDir && (flags.rdwr || flags.trunc) then (.error errIsDirectory, d)
    else (if flags.trunc then d.setTree (d.tree.setData i []) else d).openInode i
  | none =>
    if flags.create then
      match d.tree.add (.file []) (location path) with
      | some t => (d.setTree t).openInode d.tree.next
      | none => (.error errNotExist, d)
    else (.error errNotExist, d)

/-- What `whence` counts from: the start, the cursor or the end. -/
def origin (d : InodeDisk) (f whence : Nat) : Int :=
  if whence = 1 then d.cursor f
  else if whence = 2 then ((d.data f).map fun p => p.2.length).getD 0
  else 0

/-- The entries of the directory with the inode `i`. -/
def entries (d : InodeDisk) (i : Nat) : List FileInfo :=
  d.tree.names.pairs.filterMap fun e =>
    match e.1 with
    | [] => none
    | c :: l => if d.tree.names.lookup l = some i then some (info c (d.tree.nodes e.2)) else none

/-- The calls of the server. -/
def exec : (c : FsCall Nat) → InodeDisk → c.Reply × InodeDisk
  | .stat path, d =>
    (match d.tree.names.lookup (location path) with
      | some i => .ok (info (base path) (d.tree.nodes i))
      | none => .error errNotExist, d)
  | .openFile path flags _, d => d.openFile path flags
  | .mkdir path _, d =>
    match d.tree.add .dir (location path) with
    | some t => (none, d.setTree t)
    | none => (some errExist, d)
  | .remove path, d =>
    if (d.tree.names.lookup (location path)).isSome && !d.tree.isDirAt (location path) then
      (none, d.setTree (d.tree.unlink (location path)))
    else (some errNotExist, d)
  | .rename old new, d =>
    match d.tree.move (location old) (location new) with
    | some t => (none, d.setTree t)
    | none => (some errNotExist, d)
  | .fileStat f, d =>
    (match d.inode f with
      | some i => .ok (info [] (d.tree.nodes i))
      | none => .error errClosed, d)
  | .read f n, d =>
    match d.data f with
    | some (_, data) =>
      let out := pread data (d.cursor f) n
      ((out, if out.isEmpty then some errEOF else none), d.seekTo f (d.cursor f + out.length))
    | none => (([], some errIsDirectory), d)
  | .write f new, d =>
    match d.data f with
    | some (i, data) =>
      ((new.length, none),
        (d.setTree (d.tree.setData i (pwrite 0 data (d.cursor f) new))).seekTo f
          (d.cursor f + new.length))
    | none => ((0, some errIsDirectory), d)
  | .seek f offset whence, d =>
    if d.origin f whence + offset.toInt < 0 then ((0, some errInvalid), d)
    else ((Int64.ofInt (d.origin f whence + offset.toInt), none),
      d.seekTo f (d.origin f whence + offset.toInt).toNat)
  | .readDir f, d =>
    match d.inode f with
    | some i => (((d.entries i).map .ok, none), d)
    | none => (([], some errClosed), d)
  | .truncate f size, d =>
    match d.data f with
    | some (i, data) =>
      if size.toInt < 0 then (some errInvalid, d)
      else (none, d.setTree (d.tree.setData i (resize 0 data size.toInt.toNat)))
    | none => (some errIsDirectory, d)
  | .sync _, d | .chtimes .., d | .chmod .., d => (none, d)
  | .close f, d => (if (d.inode f).isSome then none else some errClosed, d.closeFile f)

/-- Calls that do not mutate keep the tree. -/
theorem tree_exec (c : FsCall Nat) (d : InodeDisk) (hc : c.mutates = false) :
    (exec c d).2.tree = d.tree := by
  cases c with
  | openFile path flags perm =>
    simp only [FsCall.mutates, Bool.or_eq_false_iff] at hc
    simp only [exec, openFile, hc.1, hc.2, Bool.false_eq_true, if_false]
    split
    · split
      · rfl
      · exact tree_openInode d _
    · rfl
  | read | seek | readDir =>
    simp only [exec]
    split <;> rfl
  | stat | fileStat | sync | close => rfl
  | mkdir | remove | rename | write | truncate | chtimes | chmod => cases hc

end InodeDisk

/-- The filesystem with inodes. -/
@[reducible] def inodeFs : Backend where
  Disk := InodeDisk
  File := Nat
  Content := InodeTree
  exec := InodeDisk.exec
  content := InodeDisk.tree
  content_exec := InodeDisk.tree_exec
  seeker := fun _ => true
  syncer := fun _ => true
  truncater := fun _ => true
  chtimer := fun _ => true
  chmoder := fun _ => true
  renamer := fun _ => true

/-! ## Its laws -/

@[reducible] def inodeView : ObjectFs inodeFs where
  Loc := List Part
  Obj := Nat
  locate := fun t path =>
    if location path = [] ∨ t.isDirAt (location path).tail = true then some (location path) else none
  parent := List.tail?
  entry := fun t l => t.names.lookup l
  node := InodeTree.nodes
  opened := InodeDisk.inode

namespace InodeDisk

open InodeTree

/-- What a path names is found by its names alone. -/
theorem look_eq (t : InodeTree) (path : Str) :
    inodeView.look t path = t.names.lookup (location path) := by
  unfold ObjectFs.look
  simp only [inodeView]
  split
  · rfl
  · next h =>
    cases hl : location path with
    | nil => exact absurd (.inl hl) h
    | cons c l =>
      rw [hl] at h
      symm
      by_contra hsome
      exact h (.inr (isDirAt_iff.mpr (t.closed c l hsome)))

theorem inode_of_files {d d' : InodeDisk} (h : d'.files = d.files) : d'.inode = d.inode := by
  funext f
  rw [inode, inode, h]

@[simp] theorem inode_setTree (d : InodeDisk) (t : InodeTree) : (d.setTree t).inode = d.inode :=
  inode_of_files (files_setTree d t)

@[simp] theorem inode_seekTo (d : InodeDisk) (f offset : Nat) : (d.seekTo f offset).inode = d.inode := by
  funext g
  show ((d.files g).map fun p => if g = f then (p.1, offset) else p).map Prod.fst = _
  rw [Option.map_map]
  refine Option.map_congr fun p _ => ?_
  show (if g = f then (p.1, offset) else p).1 = p.1
  split <;> rfl

theorem cursor_seekTo {f i : Nat} (h : d.inode f = some i) (offset : Nat) :
    (d.seekTo f offset).cursor f = offset := by
  obtain ⟨p, hp, -⟩ := Option.map_eq_some_iff.mp h
  show (((d.files f).map fun p => if f = f then (p.1, offset) else p).map Prod.snd).getD 0 = offset
  rw [hp, Option.map_some, if_pos rfl]
  rfl

theorem data_eq {f i : Nat} {bytes : Bytes} (hi : d.inode f = some i)
    (hn : d.tree.nodes i = .file bytes) : d.data f = some (i, bytes) := by
  simp only [data, hi, hn]

/-- The calls that neither open nor close a file keep the files. -/
theorem inode_exec (c : FsCall Nat) (d : InodeDisk) (hc : c.opensOrCloses = false) :
    (exec c d).2.inode = d.inode := by
  cases c with
  | openFile | close => cases hc
  | stat | fileStat | sync | chtimes | chmod => rfl
  | mkdir | remove | rename | read | write | seek | readDir | truncate =>
    -- another tree, another offset, or nothing at all
    simp only [exec]
    repeat' split
    all_goals first | rfl | simp only [inode_seekTo, inode_setTree]

theorem opens_openInode {d e : InodeDisk} {i f : Nat} (he : e.files = d.files)
    (h : (e.openInode i).1 = .ok f) : inodeView.Opens d (e.openInode i).2 f i := by
  obtain ⟨hnone, hfiles⟩ := openInode_ok h
  have hfresh : d.inode f = none := by
    rw [inode, ← he, hnone]
    rfl
  have hopened : (e.openInode i).2.inode f = some i := by
    rw [inode, hfiles, Function.update_self]
    rfl
  have hothers : ∀ g : Nat, g ≠ f → (e.openInode i).2.inode g = d.inode g := by
    intro g hg
    rw [inode, inode, hfiles, Function.update_of_ne hg, he]
  exact ⟨hfresh, hopened, hothers⟩

theorem rewrites_setData (h : (t.nodes i).isDir = false) (data : Bytes) :
    inodeView.Rewrites t (t.setData i data) i data := by
  have hdir : (t.setData i data).isDirAt = t.isDirAt := by
    funext l
    unfold isDirAt
    rw [names_setData, nodes_setData h]
    congr 1
    funext j
    by_cases hj : j = i
    · rw [hj, Function.update_self, h]
      rfl
    · rw [Function.update_of_ne hj]
  have hnode : (t.setData i data).nodes i = .file data := by
    rw [nodes_setData h, Function.update_self]
  have hothers : ∀ y : Nat, y ≠ i → (t.setData i data).nodes y = t.nodes y := by
    intro y hy
    rw [nodes_setData h, Function.update_of_ne hy]
  refine ⟨?_, ?_, h, hnode, hothers⟩
  · simp only [inodeView, hdir]
  · simp only [inodeView, names_setData]

/-- A tree to which a node has been added, on a disk with the same files or one more. -/
theorem adds_of_add {d d' : InodeDisk} {n : Node}
    (h : d.tree.add n (location path) = some d'.tree) : inodeView.Adds d d' path d.tree.next n := by
  obtain ⟨c, l, hl, hdir, hnone, hnames, hnodes, -⟩ := add_some h
  have hold : ∀ l', l' ≠ location path →
      d'.tree.names.lookup l' = d.tree.names.lookup l' := by
    intro l' hl'
    rw [hnames, GoMap.lookup_insert, if_neg hl']
  have hnew : d'.tree.names.lookup (location path) = some d.tree.next := by
    rw [hnames, GoMap.lookup_insert, if_pos rfl]
  have hnode : d'.tree.nodes d.tree.next = n := by
    rw [hnodes, Function.update_self]
  have hothers : ∀ y : Nat, y ≠ d.tree.next → d'.tree.nodes y = d.tree.nodes y := by
    intro y hy
    rw [hnodes, Function.update_of_ne hy]
  have hlocate : ∀ t : InodeTree, t.isDirAt l = true →
      inodeView.locate t path = some (location path) := by
    intro t ht
    refine if_pos (.inr ?_)
    rw [hl]
    exact ht
  have hlocated : ∀ p l', inodeView.locate d.tree p = some l' →
      inodeView.locate d'.tree p = some l' := by
    intro p l' hp
    simp only [inodeView] at hp ⊢
    split at hp
    · next hin => rw [if_pos (hin.imp_right (isDirAt_add h)), hp]
    · cases hp
  refine ⟨?_, ?_, ⟨location path, hlocate _ hdir, hlocate _ (isDirAt_add h hdir), hnone, hnew,
    hold, ?_⟩, hlocated, hnode, hothers⟩
  · intro l' hl'
    exact absurd (d.tree.named_lt l' _ hl') (Nat.lt_irrefl _)
  · intro f hf
    obtain ⟨p, hp, hpi⟩ := Option.map_eq_some_iff.mp hf
    have hlt := d.file_lt f p hp
    rw [hpi] at hlt
    exact absurd hlt (Nat.lt_irrefl _)
  · -- what lies below the new object would have lain below nothing
    intro l' hl'
    cases l' with
    | nil => cases hl'
    | cons c' l' =>
      cases hl'
      refine (hold _ (List.cons_ne_self _ _)).trans ?_
      by_contra hsome
      obtain ⟨i, hi, -⟩ := d.tree.closed _ _ hsome
      rw [hnone] at hi
      cases hi

theorem info_isDir (name : Str) (n : Node) : (info name n).isDir = n.isDir := by
  cases n <;> rfl

theorem openFile_present (h : d.tree.names.lookup (location path) = some i) (flags : OpenFlags) :
    d.openFile path flags =
      if (d.tree.nodes i).isDir && (flags.rdwr || flags.trunc) then (.error errIsDirectory, d)
      else (if flags.trunc then d.setTree (d.tree.setData i []) else d).openInode i := by
  unfold openFile
  rw [h]

theorem openFile_absent (h : d.tree.names.lookup (location path) = none) {f : Nat}
    (hok : (d.openFile path flags).1 = .ok f) :
    flags.create = true ∧ ∃ t, d.tree.add (.file []) (location path) = some t ∧
      d.openFile path flags = (d.setTree t).openInode d.tree.next := by
  unfold openFile at hok ⊢
  rw [h] at hok ⊢
  dsimp only at hok ⊢
  split at hok
  · next hcreate =>
    rw [if_pos hcreate]
    refine ⟨hcreate, ?_⟩
    split at hok
    · next t ht => exact ⟨t, ht, rfl⟩
    · cases hok
  · cases hok

/-- An open that fails does nothing. -/
theorem openFile_error {err : GoError} (h : (d.openFile path flags).1 = .error err) :
    (d.openFile path flags).2 = d := by
  cases hl : d.tree.names.lookup (location path) with
  | some i =>
    rw [openFile_present hl] at h ⊢
    split at h
    · next hdir => rw [if_pos hdir]
    · -- the inode has a name, so it can be opened
      have hlt : i < (if flags.trunc then d.setTree (d.tree.setData i []) else d).tree.next := by
        split
        · rw [tree_setTree (by rw [next_setData])]
          rw [next_setData]
          exact d.tree.named_lt _ i hl
        · exact d.tree.named_lt _ i hl
      rw [openInode_of_lt hlt] at h
      cases h
  | none =>
    unfold openFile at h ⊢
    rw [hl] at h ⊢
    dsimp only at h ⊢
    split at h
    · next hcreate =>
      rw [if_pos hcreate]
      split at h
      · next t ht =>
        obtain ⟨-, -, -, -, -, -, -, hnext⟩ := add_some ht
        rw [openInode_of_lt (by rw [tree_setTree (by omega)]; omega)] at h
        cases h
      · rfl
    · next hcreate => rw [if_neg hcreate]

/-- What has a name can be opened for reading. -/
theorem openFile_there (h : d.tree.names.lookup (location path) = some i) :
    (d.openFile path ⟨false, false, false⟩).1 = .ok d.nextFile := by
  rw [openFile_present h, if_neg (by simp), if_neg (by simp)]
  exact openInode_of_lt (d.tree.named_lt _ i h)

theorem opens_present {i f : Nat} (hi : d.tree.names.lookup (location path) = some i)
    (h : (d.openFile path flags).1 = .ok f) :
    inodeView.Opens d (d.openFile path flags).2 f i ∧
      (d.openFile path flags).2.tree = (if flags.trunc then d.tree.setData i [] else d.tree) ∧
      (flags.trunc = true → (d.tree.nodes i).isDir = false) := by
  rw [openFile_present hi] at h ⊢
  split at h
  · cases h
  · next hkind =>
    rw [if_neg hkind]
    have hfiles : (if flags.trunc then d.setTree (d.tree.setData i []) else d).files = d.files := by
      split
      · exact files_setTree d _
      · rfl
    refine ⟨opens_openInode hfiles h, ?_, ?_⟩
    · rw [tree_openInode]
      split
      · exact tree_setTree (by rw [next_setData])
      · rfl
    · intro htrunc
      simpa [htrunc] using hkind

theorem opens_absent {f : Nat} (hnone : d.tree.names.lookup (location path) = none)
    (h : (d.openFile path flags).1 = .ok f) :
    flags.create = true ∧ inodeView.Opens d (d.openFile path flags).2 f d.tree.next ∧
      inodeView.Adds d (d.openFile path flags).2 path d.tree.next (.file []) := by
  obtain ⟨hcreate, t, ht, heq⟩ := openFile_absent hnone h
  obtain ⟨-, -, -, -, -, -, -, hnext⟩ := add_some ht
  rw [heq] at h ⊢
  refine ⟨hcreate, opens_openInode (files_setTree d t) h, adds_of_add ?_⟩
  rw [ht, tree_openInode, tree_setTree (by omega)]

theorem adds_mkdir {perm : FileMode} (h : (exec (.mkdir path perm) d).1 = none) :
    inodeView.Adds d (exec (.mkdir path perm) d).2 path d.tree.next .dir := by
  refine adds_of_add ?_
  simp only [exec] at h ⊢
  split at h
  · next t ht =>
    obtain ⟨-, -, -, -, -, -, -, hnext⟩ := add_some ht
    rw [ht, tree_setTree (by omega)]
  · cases h

end InodeDisk

open InodeDisk in
theorem inodeView_posix : inodeView.Posix where
  stat_ok := by
    intro d path info h
    rw [look_eq]
    simp only [inodeFs, exec] at h
    split at h
    · next i hi =>
      cases h
      exact ⟨i, hi, info_isDir _ _⟩
    · cases h
  stat_error := by
    intro d path err h
    rw [look_eq]
    simp only [inodeFs, exec] at h
    split at h
    · cases h
    · next hnone => exact hnone
  opened_exec := inode_exec
  open_error := by
    intro d path flags perm err h
    rw [show inodeFs.exec (.openFile path flags perm) d = d.openFile path flags from rfl] at h ⊢
    rw [openFile_error h]
    exact .refl d
  open_present := by
    intro d path flags perm i f hi h
    rw [look_eq] at hi
    obtain ⟨hopens, htree, hfile⟩ := opens_present hi h
    refine ⟨hopens, ?_⟩
    split
    · next htrunc =>
      rw [if_pos htrunc] at htree
      show inodeView.Rewrites d.tree (d.openFile path flags).2.tree i []
      rw [htree]
      exact rewrites_setData (hfile htrunc) []
    · next htrunc =>
      rw [if_neg htrunc] at htree
      exact htree
  open_absent := by
    intro d path flags perm f hnone h
    rw [look_eq] at hnone
    obtain ⟨hcreate, hopens, hadds⟩ := opens_absent hnone h
    exact ⟨hcreate, d.tree.next, hopens, hadds⟩
  mkdir_error := by
    intro d path perm err h
    simp only [inodeFs, exec] at h ⊢
    split at h
    · cases h
    · rfl
  mkdir_ok := fun d path perm h => ⟨d.tree.next, adds_mkdir h⟩
  open_made := by
    intro d path perm h
    have hlook := (adds_mkdir h).look_eq.2
    rw [look_eq] at hlook
    exact ⟨_, openFile_there hlook⟩
  fileStat_opened := by
    intro d path flags perm f h
    obtain ⟨i, hi⟩ : ∃ i, (d.openFile path flags).2.inode f = some i := by
      cases hl : d.tree.names.lookup (location path) with
      | some i => exact ⟨i, (opens_present hl h).1.opened_eq⟩
      | none => exact ⟨d.tree.next, (opens_absent hl h).2.1.opened_eq⟩
    refine ⟨info [] ((d.openFile path flags).2.tree.nodes i), ?_, ?_⟩
    · simp only [inodeFs, exec, hi]
    · intro x hx
      cases hi.symm.trans hx
      exact info_isDir _ _

open InodeDisk in
theorem inodeView_byteFiles : inodeView.ByteFiles cursor where
  opened_seek := fun d f offset whence => inode_exec (.seek f offset whence) d rfl
  opened_read := fun d f n => inode_exec (.read f n) d rfl
  opened_write := fun d f new => inode_exec (.write f new) d rfl
  seek_ok := by
    intro d f i data offset hi _ hoffset
    have hstart : d.origin f 0 + offset.toInt = offset.toInt := by
      rw [origin, if_neg (by decide), if_neg (by decide), Int.zero_add]
    simp only [inodeFs, exec, hstart, if_neg (Int.not_lt.mpr hoffset)]
    exact ⟨trivial, trivial, cursor_seekTo hi _⟩
  read_ok := by
    intro d f i data n hi hn
    simp only [inodeFs, exec, data_eq hi hn]
    refine ⟨trivial, fun err herr => ?_⟩
    split at herr
    · cases herr
      rfl
    · cases herr
  write_ok := by
    intro d f i data new hi hn
    simp only [inodeFs, exec, data_eq hi hn]
    refine ⟨trivial, ?_⟩
    show inodeView.Rewrites d.tree (d.setTree _).tree i _
    rw [tree_setTree (by rw [InodeTree.next_setData])]
    exact rewrites_setData (congrArg Node.isDir hn) _

open InodeDisk in
theorem inodeView_refusesNegative : inodeView.RefusesNegative := by
  intro d f i offset _ hoffset
  have hstart : d.origin f 0 + offset.toInt = offset.toInt := by
    rw [origin, if_neg (by decide), if_neg (by decide), Int.zero_add]
  simp [inodeFs, exec, hstart, hoffset]

open InodeDisk in
theorem inodeView_keepsData : inodeView.KeepsData where
  opened_eq := inode_exec
  node_chtimes := fun _ _ _ _ _ => rfl
  node_chmod := fun _ _ _ _ => rfl
  node_rename := by
    intro d old new g y _
    simp only [inodeFs, exec]
    split
    · next t ht =>
      obtain ⟨-, -, -, hnodes, hnext⟩ := InodeTree.move_some ht
      show (d.setTree t).tree.nodes y = d.tree.nodes y
      rw [tree_setTree (by omega), hnodes]
    · rfl
  truncate_ok := by
    intro d f i data size hi hn h
    simp only [inodeFs, exec, data_eq hi hn] at h ⊢
    split at h
    · cases h
    · next hsize =>
      rw [if_neg hsize]
      show inodeView.Rewrites d.tree (d.setTree _).tree i _
      rw [tree_setTree (by rw [InodeTree.next_setData])]
      exact rewrites_setData (congrArg Node.isDir hn) _
  truncate_error := by
    intro d f size err h
    simp only [inodeFs, exec] at h ⊢
    split at h
    · split at h
      · next hsize => rw [if_pos hsize]
      · cases h
    · rfl

open InodeDisk in
theorem inodeView_lexical : inodeView.Lexical id where
  locate_eq := by
    intro t path l h
    simp only [inodeView] at h
    split at h
    · cases h
      rfl
    · cases h
  locate_congr := by
    intro t p q h
    simp only [inodeView, h]
  place_injective := Function.injective_id
  no_links := fun t => t.distinct
  rename_ok := by
    intro d old new h
    simp only [look_eq]
    simp only [inodeFs, exec] at h ⊢
    split at h
    · next t ht =>
      obtain ⟨i, hold, hnew, -, hnext⟩ := InodeTree.move_some ht
      refine ⟨i, hold, ?_⟩
      show (d.setTree t).tree.names.lookup _ = _
      rw [tree_setTree (by omega), hnew]
    · cases h
  open_there := by
    intro d path i h
    rw [look_eq] at h
    exact ⟨_, openFile_there h⟩

end Smbfs
