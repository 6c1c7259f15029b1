import Smbfs.Client.Tree

/-!
A share in memory that behaves as a tree. A node is kept under the list of
its names, the innermost first, and an open file is a name and a position.
-/

namespace Smbfs.Client

open Smbfs.Lib

inductive TreeNode where
  | file (data : Bytes) (mode : FileMode) (modTime : GoTime)
  | dir (mode : FileMode) (modTime : GoTime)

abbrev MemTree := List (List Str × TreeNode)

structure TreeFile where
  name : Str
  pos : Nat

/-- The names in an SMB path, the innermost first. -/
def splitName (name : Str) : List Str := if name = [] then [] else (name.splitOn '\\').reverse

variable (t : MemTree) (l : Loc) {k q : List Str} (n : TreeNode)

theorem splitName_smb : splitName l.smb = l.names := by
  unfold splitName Loc.smb
  by_cases hnil : l.names = []
  · simp [hnil, List.intercalate]
  · have hsplit : (['\\'].intercalate l.names.reverse).splitOn '\\' = l.names.reverse :=
      List.splitOn_intercalate '\\'
        (fun c hc => (l.valid c (List.mem_reverse.mp hc)).no_backslash) (by simpa using hnil)
    have hne : ['\\'].intercalate l.names.reverse ≠ [] := by
      intro h
      rw [h] at hsplit
      cases hn : l.names.reverse with
      | nil => exact hnil (List.reverse_eq_nil_iff.mp hn)
      | cons c cs =>
        have hc : IsName c := l.valid c (List.mem_reverse.mp (hn ▸ List.mem_cons_self))
        rw [hn] at hsplit
        have := (List.cons.inj hsplit).1
        exact hc.plain.ne_nil this.symm
    rw [if_neg hne, hsplit, List.reverse_reverse]

namespace MemTree

def node (t : MemTree) (k : List Str) : Option TreeNode := t.lookup k

def set (t : MemTree) (k : List Str) (n : TreeNode) : MemTree := (k, n) :: t.filter fun e => e.1 ≠ k

def erase (t : MemTree) (k : List Str) : MemTree := t.filter fun e => e.1 ≠ k

def info (name : Str) : TreeNode → FileInfo
  | .file data mode modTime => ⟨name, Int64.ofNat data.length, mode, modTime, false⟩
  | .dir mode modTime => ⟨name, 0, modeDir ||| mode, modTime, true⟩

def nameOf (k : List Str) : Str := k.head?.getD []

/-- The nodes directly below a directory. -/
def children (t : MemTree) (k : List Str) : List FileInfo :=
  t.filterMap fun e =>
    match e.1 with
    | [] => none
    | name :: up => if up = k then some (info name e.2) else none

def isDirectory (t : MemTree) (k : List Str) : Bool :=
  match t.node k with
  | some (.dir ..) => true
  | _ => false

def errNotExist : Err := .sentinel .fsNotExist
def errExist : Err := .sentinel .fsExist
def errInvalid : Err := .sentinel .fsInvalid
def errIsDirectory : Err := .sentinel .isDirectory

def openFile (t : MemTree) (name : Str) (flag : UInt32) (perm : FileMode) :
    Except Err TreeFile × MemTree :=
  let k := splitName name
  match t.node k with
  | none =>
    if hasBits flag oCREATE && t.isDirectory k.tail then (.ok ⟨name, 0⟩, t.set k (.file [] perm 0))
    else (.error errNotExist, t)
  | some (.dir ..) =>
    if hasBits flag (oWRONLY ||| oRDWR ||| oCREATE ||| oTRUNC) then (.error errIsDirectory, t)
    else (.ok ⟨name, 0⟩, t)
  | some (.file _ mode modTime) =>
    if hasBits flag oCREATE && hasBits flag oEXCL then (.error errExist, t)
    else if hasBits flag oTRUNC then (.ok ⟨name, 0⟩, t.set k (.file [] mode modTime))
    else (.ok ⟨name, 0⟩, t)

def mkdir (t : MemTree) (k : List Str) (perm : FileMode) : Option Err × MemTree :=
  match t.node k with
  | some _ => (some errExist, t)
  | none => if t.isDirectory k.tail then (none, t.set k (.dir perm 0)) else (some errNotExist, t)

/-- The root and directories with something in them stay. -/
def remove (t : MemTree) (k : List Str) : Option Err × MemTree :=
  if k = [] ∨ t.children k ≠ [] then (some errInvalid, t)
  else
    match t.node k with
    | none => (some errNotExist, t)
    | some _ => (none, t.erase k)

/-- The key of a node after the move. -/
def moveKey (old new k : List Str) : List Str :=
  if old.isSuffixOf k then k.take (k.length - old.length) ++ new else k

def rename (t : MemTree) (old new : List Str) : Option Err × MemTree :=
  if t.node old = none then (some errNotExist, t)
  else if t.any fun e => new.isSuffixOf e.1 then (some errExist, t)
  else if old = [] ∨ old.isSuffixOf new ∨ !t.isDirectory new.tail then (some errInvalid, t)
  else (none, t.map fun e => (moveKey old new e.1, e.2))

def update (t : MemTree) (k : List Str) (f : TreeNode → TreeNode) : Option Err × MemTree :=
  match t.node k with
  | none => (some errNotExist, t)
  | some n => (none, t.set k (f n))

def chmod (mode : FileMode) : TreeNode → TreeNode
  | .file data _ modTime => .file data mode modTime
  | .dir _ modTime => .dir mode modTime

def chtimes (mtime : GoTime) : TreeNode → TreeNode
  | .file data mode _ => .file data mode mtime
  | .dir mode _ => .dir mode mtime

/-- The bytes of a file after a write; a write of nothing cuts the file at the position. -/
def overwrite (data : Bytes) (pos : Nat) (new : Bytes) : Bytes :=
  if new = [] then data.take pos
  else data.take pos ++ List.replicate (pos - data.length) 0 ++ new ++ data.drop (pos + new.length)

def write (t : MemTree) (f : TreeFile) (new : Bytes) : ((Nat × Option Err) × TreeFile) × MemTree :=
  match t.node (splitName f.name) with
  | some (.file data mode modTime) =>
    (((new.length, none), { f with pos := f.pos + new.length }),
      t.set (splitName f.name) (.file (overwrite data f.pos new) mode modTime))
  | _ => (((0, some errInvalid), f), t)

def content (t : MemTree) (f : TreeFile) : Bytes :=
  match t.node (splitName f.name) with
  | some (.file data ..) => data
  | _ => []

def seek (t : MemTree) (f : TreeFile) (offset : Int64) (whence : Whence) : Except Err Int64 × TreeFile :=
  let base : Int := match whence with
    | .start => 0
    | .current => f.pos
    | .fromEnd => (t.content f).length
  let pos := base + offset.toInt
  if pos < 0 then (.error errInvalid, f) else (.ok (Int64.ofInt pos), { f with pos := pos.toNat })

def read (t : MemTree) (f : TreeFile) (n : Nat) : (Bytes × Option Err) × TreeFile :=
  let data := ((t.content f).drop f.pos).take n
  ((data, if data = [] then some (.sentinel .eof) else none), { f with pos := f.pos + data.length })

def stat (t : MemTree) (name : Str) : Except Err FileInfo :=
  match t.node (splitName name) with
  | none => .error errNotExist
  | some n => .ok (info (nameOf (splitName name)) n)

def exec : (c : ShareCall TreeFile) → MemTree → c.Reply × MemTree
  | .openFile name flag perm, t => t.openFile name flag perm
  | .stat name, t => (t.stat name, t)
  | .mkdir name perm, t => t.mkdir (splitName name) perm
  | .remove name, t => t.remove (splitName name)
  | .rename oldname newname, t => t.rename (splitName oldname) (splitName newname)
  | .chmod name mode, t => t.update (splitName name) (chmod mode)
  | .chtimes name _ mtime, t => t.update (splitName name) (chtimes mtime)
  | .read f n, t => (t.read f n, t)
  | .write f data, t => t.write f data
  | .seek f offset whence, t => (t.seek f offset whence, t)
  | .close _, t => (none, t)
  | .fileStat f, t => (t.stat f.name, t)
  | .readdir f _, t => ((.ok (t.children (splitName f.name)), f), t)

end MemTree

abbrev memShare : Share := ⟨MemTree, TreeFile, TreeFile.name, MemTree.exec⟩

/-! ## The laws -/

namespace MemTree

theorem lookup_filter_ne (h : q ≠ k) : (t.filter fun e => e.1 ≠ k).lookup q = t.lookup q := by
  induction t with
  | nil => rfl
  | cons e t ih =>
    obtain ⟨k', n⟩ := e
    by_cases hk : k' = k
    · subst hk
      simp only [ne_eq, not_true_eq_false, decide_false, Bool.false_eq_true, not_false_eq_true,
        List.filter_cons_of_neg]
      rw [ih, List.lookup_cons, beq_eq_false_iff_ne.mpr h]
    · rw [List.filter_cons_of_pos (by simpa using hk), List.lookup_cons, List.lookup_cons, ih]

theorem node_set (h : q ≠ k) : (t.set k n).node q = t.node q := by
  rw [node, set, List.lookup_cons, beq_eq_false_iff_ne.mpr h]
  exact lookup_filter_ne t h

theorem node_set_self (k : List Str) (n : TreeNode) : (t.set k n).node k = some n := by
  rw [node, set, List.lookup_cons, beq_self_eq_true]

theorem node_erase (h : q ≠ k) : (t.erase k).node q = t.node q :=
  lookup_filter_ne t h

/-- A node is listed in the directory around it and nowhere else. -/
theorem children_filter (h : ∀ name, k ≠ name :: q) :
    children (t.filter fun e => e.1 ≠ k) q = children t q := by
  unfold children
  induction t with
  | nil => rfl
  | cons e t ih =>
    obtain ⟨k', n⟩ := e
    by_cases hk : k' = k
    · rw [List.filter_cons_of_neg (by simpa using hk), ih]
      subst hk
      cases k' with
      | nil => rfl
      | cons name up =>
        have hup : up ≠ q := fun hup => h name (by rw [hup])
        simp [hup]
    · rw [List.filter_cons_of_pos (by simpa using hk), List.filterMap_cons, List.filterMap_cons, ih]

theorem children_set (h : ∀ name, k ≠ name :: q) : (t.set k n).children q = t.children q := by
  rw [← children_filter t h, set]
  unfold children
  cases k with
  | nil => rfl
  | cons name up =>
    have hup : up ≠ q := fun hup => h name (by rw [hup])
    simp [hup]

theorem children_erase (h : ∀ name, k ≠ name :: q) : (t.erase k).children q = t.children q :=
  children_filter t h

theorem statOf_eq :
    memShare.statOf t l = match t.node l.names with
      | none => .error errNotExist
      | some n => .ok (info (nameOf l.names) n) := by
  change t.stat l.smb = _
  rw [stat, splitName_smb]

theorem openFile_rdonly :
    (memShare.exec (.openFile l.smb oRDONLY 0) t).1 =
      if (t.node l.names).isSome then .ok ⟨l.smb, 0⟩ else .error errNotExist := by
  change (t.openFile l.smb oRDONLY 0).1 = _
  simp only [openFile, splitName_smb]
  cases t.node l.names with
  | none => rfl
  | some n => cases n <;> rfl

theorem listOf_eq :
    memShare.listOf t l = if t.isDirectory l.names then some (t.children l.names) else none := by
  unfold Share.listOf isDirectory
  rw [openFile_rdonly]
  cases hn : t.node l.names with
  | none => rfl
  | some n =>
    simp only [Option.isSome_some, if_true, exec, stat, splitName_smb, hn]
    cases n <;> simp [info]

/-- Trees with the same nodes and listings give the same answers. -/
theorem agree_of {N D : Set Loc} {t t' : MemTree}
    (hnode : ∀ l : Loc, l ∉ N ∨ l ∉ D → t'.node l.names = t.node l.names)
    (hchildren : ∀ l : Loc, l ∉ D → t'.children l.names = t.children l.names) :
    memShare.Agree N D t t' := by
  constructor
  · intro l hl i hi
    refine ⟨i, ?_, .refl i⟩
    rw [statOf_eq, hnode l (.inl hl), ← statOf_eq]
    exact hi
  · intro l hl is his
    refine ⟨is, ?_, .refl is⟩
    rw [listOf_eq, isDirectory, hnode l (.inr hl), hchildren l hl, ← isDirectory, ← listOf_eq]
    exact his

theorem names_ne_of_ne {l q : Loc} (h : q ≠ l) : q.names ≠ l.names := fun hn => h (Loc.ext hn)

theorem ne_cons_of_ne_parent {l q : Loc} (h : q ≠ l.parent) : ∀ name, l.names ≠ name :: q.names := by
  intro name hn
  apply h
  ext1
  rw [Loc.parent_names, hn, List.tail_cons]

/-- A change at `l` is seen there and in the listing around it. -/
theorem agree_at {t t' : MemTree} {l : Loc}
    (hnode : ∀ q : List Str, q ≠ l.names → t'.node q = t.node q)
    (hchildren : ∀ q : List Str, (∀ name, l.names ≠ name :: q) → t'.children q = t.children q) :
    memShare.Agree {l} {l, l.parent} t t' := by
  refine agree_of ?_ ?_
  · intro q hq
    apply hnode
    apply names_ne_of_ne
    rcases hq with hq | hq
    · exact hq
    · exact fun h => hq (.inl h)
  · intro q hq
    exact hchildren _ (ne_cons_of_ne_parent fun h => hq (.inr h))

theorem agree_set : memShare.Agree {l} {l, l.parent} t (t.set l.names n) :=
  agree_at (fun _ hq => node_set t n hq) fun _ hq => children_set t n hq

theorem agree_erase : memShare.Agree {l} {l, l.parent} t (t.erase l.names) :=
  agree_at (fun _ hq => node_erase t hq) fun _ hq => children_erase t hq

/-! ### Renaming -/

theorem moveKey_of_not_suffix {old new k : List Str} (h : ¬ old <:+ k) : moveKey old new k = k := by
  rw [moveKey, if_neg (by simpa using h)]

theorem suffix_moveKey {old new k : List Str} (h : old <:+ k) : new <:+ moveKey old new k := by
  rw [moveKey, if_pos (by simpa using h)]
  exact List.suffix_append _ _

/-- Outside the two names a renamed tree has the same nodes. -/
theorem node_move {old new q : List Str} (hold : ¬ old <:+ q) (hnew : ¬ new <:+ q) :
    node (t.map fun e => (moveKey old new e.1, e.2)) q = t.node q := by
  unfold node
  induction t with
  | nil => rfl
  | cons e t ih =>
    obtain ⟨k, n⟩ := e
    rw [List.map_cons, List.lookup_cons, List.lookup_cons, ih]
    by_cases hk : old <:+ k
    · have h1 : q ≠ moveKey old new k := fun h => hnew (h ▸ suffix_moveKey hk)
      have h2 : q ≠ k := fun h => hold (h ▸ hk)
      rw [beq_eq_false_iff_ne.mpr h1, beq_eq_false_iff_ne.mpr h2]
    · rw [moveKey_of_not_suffix hk]

theorem children_move {old new q : List Str} (hold : ∀ x, ¬ old <:+ x :: q)
    (hnew : ∀ x, ¬ new <:+ x :: q) :
    children (t.map fun e => (moveKey old new e.1, e.2)) q = t.children q := by
  unfold children
  rw [List.filterMap_map]
  refine List.filterMap_congr fun e _ => ?_
  obtain ⟨k, n⟩ := e
  simp only [Function.comp]
  by_cases hk : old <:+ k
  · -- a moved node was not listed here and is not listed here now
    have h1 : ∀ x up, moveKey old new k = x :: up → up ≠ q := by
      rintro x up hup rfl
      exact hnew x (hup ▸ suffix_moveKey hk)
    have h2 : ∀ x up, k = x :: up → up ≠ q := by
      rintro x up rfl rfl
      exact hold x hk
    have hnone : ∀ k' : List Str, (∀ x up, k' = x :: up → up ≠ q) →
        (match k' with
          | [] => none
          | name :: up => if up = q then some (info name n) else none) = none := by
      intro k' hk'
      cases k' with
      | nil => rfl
      | cons x up => exact if_neg (hk' x up rfl)
    rw [hnone _ h1, hnone _ h2]
  · rw [moveKey_of_not_suffix hk]

theorem not_suffix_cons {l q : Loc} (hq : ¬ l.Covers q) (hp : q ≠ l.parent) (x : Str) :
    ¬ l.names <:+ x :: q.names := by
  intro h
  rcases List.suffix_cons_iff.mp h with h | h
  · exact ne_cons_of_ne_parent hp x h
  · exact hq h

theorem agree_move (l l' : Loc) :
    memShare.Agree (moved l l') (moved l l' ∪ {l.parent, l'.parent}) t
      (t.map fun e => (moveKey l.names l'.names e.1, e.2)) := by
  have hout : ∀ q : Loc, q ∉ moved l l' ∨ q ∉ moved l l' ∪ {l.parent, l'.parent} →
      ¬ l.Covers q ∧ ¬ l'.Covers q := by
    intro q hq
    rcases hq with hq | hq
    · exact not_or.mp hq
    · exact not_or.mp fun h => hq (.inl h)
  refine agree_of ?_ ?_
  · intro q hq
    exact node_move t (hout q hq).1 (hout q hq).2
  · intro q hq
    obtain ⟨h, h'⟩ := hout q (.inr hq)
    refine children_move t (not_suffix_cons h ?_) (not_suffix_cons h' ?_)
    · exact fun hp => hq (.inr (.inl hp))
    · exact fun hp => hq (.inr (.inr hp))

theorem openFile_cases (name : Str) (flag : UInt32) (perm : FileMode) :
    (∃ err, t.openFile name flag perm = (.error err, t)) ∨
      t.openFile name flag perm = (.ok ⟨name, 0⟩, t) ∨
      (hasBits flag oCREATE = true ∨ hasBits flag oTRUNC = true) ∧
        ∃ n, t.openFile name flag perm = (.ok ⟨name, 0⟩, t.set (splitName name) n) := by
  simp only [openFile]
  cases t.node (splitName name) with
  | none =>
    dsimp only
    split
    · next h =>
      rw [Bool.and_eq_true] at h
      exact .inr (.inr ⟨.inl h.1, _, rfl⟩)
    · exact .inl ⟨_, rfl⟩
  | some n =>
    cases n with
    | dir mode modTime =>
      dsimp only
      split
      · exact .inl ⟨_, rfl⟩
      · exact .inr (.inl rfl)
    | file data mode modTime =>
      dsimp only
      split
      · exact .inl ⟨_, rfl⟩
      · split
        · next h => exact .inr (.inr ⟨.inr h, _, rfl⟩)
        · exact .inr (.inl rfl)

theorem update_cases (k : List Str) (f : TreeNode → TreeNode) :
    (∃ err, t.update k f = (some err, t)) ∨ ∃ n, t.update k f = (none, t.set k n) := by
  unfold update
  cases t.node k with
  | none => exact .inl ⟨_, rfl⟩
  | some n => exact .inr ⟨_, rfl⟩

theorem mkdir_cases (k : List Str) (perm : FileMode) :
    (∃ err, t.mkdir k perm = (some err, t)) ∨ ∃ n, t.mkdir k perm = (none, t.set k n) := by
  unfold mkdir
  cases t.node k with
  | some n => exact .inl ⟨_, rfl⟩
  | none =>
    dsimp only
    split
    · exact .inr ⟨_, rfl⟩
    · exact .inl ⟨_, rfl⟩

theorem remove_cases (k : List Str) :
    (∃ err, t.remove k = (some err, t)) ∨ t.remove k = (none, t.erase k) := by
  unfold remove
  split
  · exact .inl ⟨_, rfl⟩
  · cases t.node k with
    | none => exact .inl ⟨_, rfl⟩
    | some n => exact .inr rfl

theorem write_cases (f : TreeFile) (data : Bytes) :
    (∃ err, t.write f data = (((0, some err), f), t)) ∨
      ∃ n, t.write f data = (((data.length, none), { f with pos := f.pos + data.length }),
        t.set (splitName f.name) n) := by
  unfold write
  split
  · exact .inr ⟨_, rfl⟩
  · exact .inl ⟨_, rfl⟩

theorem rename_cases (old new : List Str) :
    (∃ err, t.rename old new = (some err, t)) ∨
      (∀ e ∈ t, ¬ new <:+ e.1) ∧
        t.rename old new = (none, t.map fun e => (moveKey old new e.1, e.2)) := by
  unfold rename
  split
  · exact .inl ⟨_, rfl⟩
  · split
    · exact .inl ⟨_, rfl⟩
    · next hany =>
      split
      · exact .inl ⟨_, rfl⟩
      · refine .inr ⟨fun e he hsuf => hany ?_, rfl⟩
        exact List.any_eq_true.mpr ⟨e, he, by simpa using hsuf⟩

/-- A call that changed the node it names. -/
theorem changed {c : ShareCall TreeFile} {r : c.Reply} {t t' : MemTree} {name : Str}
    (h : exec c t = (r, t')) (hreads : c.reads = false) (hr : c.failed r = false)
    (hname : c.changes TreeFile.name = some name)
    (ht : (∃ n, t' = t.set (splitName name) n) ∨ t' = t.erase (splitName name)) :
    c.reads = false ∧ c.failed (exec c t).1 = false ∧
      ((∃ old new, c = .rename old new) ∨ ∃ name, c.changes TreeFile.name = some name ∧
        ((∃ n, (exec c t).2 = t.set (splitName name) n) ∨
          (exec c t).2 = t.erase (splitName name))) := by
  rw [h]
  exact ⟨hreads, hr, .inr ⟨name, hname, ht⟩⟩

/-- What a call does to the tree: nothing, or a change of the node it names, or a move. -/
theorem exec_cases (c : ShareCall TreeFile) (t : MemTree) :
    (exec c t).2 = t ∨ c.reads = false ∧ c.failed (exec c t).1 = false ∧
      ((∃ old new, c = .rename old new) ∨ ∃ name, c.changes TreeFile.name = some name ∧
        ((∃ n, (exec c t).2 = t.set (splitName name) n) ∨ (exec c t).2 = t.erase (splitName name))) := by
  cases c with
  | stat | fileStat | read | seek | close | readdir => exact .inl rfl
  | openFile name flag perm =>
    obtain ⟨err, h⟩ | h | ⟨hflag, n, h⟩ := openFile_cases t name flag perm
    · exact .inl (congrArg Prod.snd h)
    · exact .inl (congrArg Prod.snd h)
    · refine .inr (changed h ?_ rfl rfl (.inl ⟨n, rfl⟩))
      rcases hflag with hflag | hflag <;> simp [ShareCall.reads, hasBits_or, hflag]
  | mkdir name perm =>
    obtain ⟨err, h⟩ | ⟨n, h⟩ := mkdir_cases t (splitName name) perm
    · exact .inl (congrArg Prod.snd h)
    · exact .inr (changed h rfl rfl rfl (.inl ⟨n, rfl⟩))
  | remove name =>
    obtain ⟨err, h⟩ | h := remove_cases t (splitName name)
    · exact .inl (congrArg Prod.snd h)
    · exact .inr (changed h rfl rfl rfl (.inr rfl))
  | chmod name mode =>
    obtain ⟨err, h⟩ | ⟨n, h⟩ := update_cases t (splitName name) (chmod mode)
    · exact .inl (congrArg Prod.snd h)
    · exact .inr (changed h rfl rfl rfl (.inl ⟨n, rfl⟩))
  | chtimes name atime mtime =>
    obtain ⟨err, h⟩ | ⟨n, h⟩ := update_cases t (splitName name) (chtimes mtime)
    · exact .inl (congrArg Prod.snd h)
    · exact .inr (changed h rfl rfl rfl (.inl ⟨n, rfl⟩))
  | write f data =>
    obtain ⟨err, h⟩ | ⟨n, h⟩ := write_cases t f data
    · exact .inl (congrArg Prod.snd h)
    · exact .inr (changed h rfl rfl rfl (.inl ⟨n, rfl⟩))
  | rename old new =>
    obtain ⟨err, h⟩ | ⟨_, h⟩ := rename_cases t (splitName old) (splitName new)
    · exact .inl (congrArg Prod.snd h)
    · refine .inr ⟨rfl, ?_, .inl ⟨old, new, rfl⟩⟩
      change (t.rename (splitName old) (splitName new)).1.isSome = false
      rw [h]
      rfl

theorem node_eq_none {t : MemTree} (h : ∀ e ∈ t, ¬ k <:+ e.1) (hq : k <:+ q) :
    t.node q = none := by
  unfold node
  rw [List.lookup_eq_none_iff]
  intro e he
  rw [bne_iff_ne]
  rintro rfl
  exact h e he hq

end MemTree

open MemTree in
/-- **The share in memory behaves as a tree.** -/
theorem treeLike_memShare : TreeLike memShare where
  reads c t hc := by
    obtain h | ⟨hreads, _⟩ := exec_cases c t
    · exact h
    · rw [hc] at hreads
      cases hreads
  failed c t hc := by
    obtain h | ⟨_, hfailed, _⟩ := exec_cases c t
    · exact h
    · have hc : c.failed (exec c t).1 = true := hc
      rw [hc] at hfailed
      cases hfailed
  changes c t l hl := by
    change memShare.Agree {l} {l, l.parent} t (exec c t).2
    have hl : c.changes TreeFile.name = some l.smb := hl
    obtain h | ⟨_, _, ⟨old, new, rfl⟩ | ⟨name, hname, h⟩⟩ := exec_cases c t
    · rw [h]
      exact .same memShare _ _ t
    · cases hl
    · cases hname.symm.trans hl
      rw [splitName_smb] at h
      rcases h with ⟨n, h⟩ | h
      · rw [h]
        exact agree_set t l n
      · rw [h]
        exact agree_erase t l
  rename l l' t := by
    change memShare.Agree _ _ t (t.rename (splitName l.smb) (splitName l'.smb)).2
    rw [splitName_smb, splitName_smb]
    obtain ⟨err, h⟩ | ⟨_, h⟩ := rename_cases t l.names l'.names
    · rw [h]
      exact .same memShare _ _ t
    · rw [h]
      exact agree_move t l l'
  rename_empty l l' q t hok hq hne hcov := by
    have hok : (t.rename (splitName l.smb) (splitName l'.smb)).1 = none := hok
    rw [splitName_smb, splitName_smb] at hok
    obtain ⟨err, h⟩ | ⟨hempty, h⟩ := rename_cases t l.names l'.names
    · rw [h] at hok
      cases hok
    · have hnode := node_eq_none hempty hq
      constructor
      · intro i
        rw [statOf_eq, hnode]
        nofun
      · rw [listOf_eq, isDirectory, hnode]
        rfl
  opened name flag perm t f h := by
    have h : (t.openFile name flag perm).1 = .ok f := h
    obtain ⟨err, hr⟩ | hr | ⟨_, n, hr⟩ := openFile_cases t name flag perm
    · rw [hr] at h
      cases h
    · rw [hr] at h
      cases h
      rfl
    · rw [hr] at h
      cases h
      rfl
  write_name f data t := by
    change (t.write f data).1.2.name = f.name
    obtain ⟨err, h⟩ | ⟨n, h⟩ := write_cases t f data
    · rw [h]
    · rw [h]
  seek_name f offset whence t := by
    change (t.seek f offset whence).2.name = f.name
    simp only [seek]
    split <;> split <;> rfl

/-! ## A client of it -/

/-- Paths as they are written. -/
def exactPaths : PathNormalizer := ⟨true, id, fun _ => rfl, fun _ _ _ => Iff.rfl⟩

/-- A client that always gets a connection. -/
def steadyClient : FileSystem := ⟨exactPaths, 3, fun n => n, fun _ => none, fun _ => none, 64⟩

def cacheOn : CacheConfig := { defaultCacheConfig with enableCache := true }

/-- A share with an empty root directory. -/
def emptyTree : MemTree := [([], .dir 0o755 0)]

end Smbfs.Client
