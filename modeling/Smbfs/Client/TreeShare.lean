import Smbfs.Client.Acting
import Smbfs.Client.MemShare
import Smbfs.Lib.PathTree

/-!
Shares on which nothing fails, seen as trees: `TreeShare` gives the tree that a
share stores, and `Stat` tells what is in it; `Makes` and `Removes` say when
`Mkdir` and `Remove` succeed and what they do to the tree.

* `takes_of_normalize`: the location of an accepted path; `takes_parent` and
  `takes_child`: the paths of the locations around it are accepted;
* `memTrees`: the share in memory is such a share.
-/

namespace Smbfs.Client

open Smbfs.Lib CM

/-- The tree that a share stores, under the names of a location. A call that only reads
leaves the share as it is, and `Stat` succeeds on what is there. -/
structure TreeShare (S : Share) where
  Node : Type
  isDir : Node → Bool
  tree : S.Disk → PathTree Str Node
  steady : S.Steady
  stat : ∀ d (l : Loc) n, tree d l.names = some n →
    ∃ info, S.statOf d l = .ok info ∧ info.isDir = isDir n
  stat_none : ∀ d (l : Loc), tree d l.names = none → ∃ err, S.statOf d l = .error err

namespace TreeShare

variable {S : Share} (T : TreeShare S)

/-- There is a directory. -/
abbrev DirAt (d : S.Disk) (k : List Str) : Prop := PathTree.IsDirAt T.isDir (T.tree d) k

/-- There is a file. -/
abbrev FileAt (d : S.Disk) (k : List Str) : Prop := PathTree.IsFileAt T.isDir (T.tree d) k

/-- The root is a directory, and everything stands in a directory. -/
abbrev Rooted (d : S.Disk) : Prop := PathTree.Closed T.isDir (T.tree d)

/-- The two contents have the same tree apart from one node. -/
def SameBut (k : List Str) (d d' : S.Disk) : Prop := ∀ q, q ≠ k → T.tree d' q = T.tree d q

/-- `Mkdir` makes a directory where there is nothing in a directory. -/
def Makes : Prop :=
  ∀ d (l : Loc) perm, T.tree d l.names = none → T.DirAt d l.names.tail →
    (S.exec (.mkdir l.smb perm) d).1 = none ∧
      T.DirAt (S.exec (.mkdir l.smb perm) d).2 l.names ∧
      T.SameBut l.names d (S.exec (.mkdir l.smb perm) d).2

/-- What `RemoveAll` relies on: `Stat` says that there is nothing with `fs.ErrNotExist`
itself, a directory lists what is in it, and `Remove` removes what has nothing below it. -/
structure Removes : Prop where
  absent : ∀ d (l : Loc) err, S.statOf d l = .error err → err = .sentinel .fsNotExist
  list : ∀ d (l : Loc), T.DirAt d l.names → ∃ infos, S.listOf d l = some infos ∧
    (∀ info ∈ visible infos, T.tree d (info.name :: l.names) ≠ none) ∧
    ∀ name, IsName name → T.tree d (name :: l.names) ≠ none →
      ∃ info ∈ visible infos, info.name = name
  remove : ∀ d (l : Loc), l.names ≠ [] → T.tree d l.names ≠ none →
    (∀ x, T.tree d (x :: l.names) = none) →
    (S.exec (.remove l.smb) d).1 = none ∧
      T.tree (S.exec (.remove l.smb) d).2 l.names = none ∧
      T.SameBut l.names d (S.exec (.remove l.smb) d).2

variable {T} {d : S.Disk} {l : Loc}

/-! ## What `Stat` answers -/

theorem statAnswer_of_some (fsys : FileSystem) {n : T.Node} (h : T.tree d l.names = some n) :
    ∃ info, statAnswer fsys d l = .ok info ∧ info.isDir = T.isDir n := by
  obtain ⟨info, hinfo, hdir⟩ := T.stat d l n h
  exact ⟨{ info with name := fsys.pathNorm.base l.slash }, by rw [statAnswer, hinfo], hdir⟩

theorem statAnswer_of_none (fsys : FileSystem) (h : T.tree d l.names = none) :
    ∃ err, S.statOf d l = .error err ∧
      statAnswer fsys d l = .error (wrapPathError .stat l.slash (convertError err)) := by
  obtain ⟨err, herr⟩ := T.stat_none d l h
  exact ⟨err, herr, by rw [statAnswer, herr]⟩

/-- `os.IsNotExist` recognises what `FileSystem.Stat` makes of `fs.ErrNotExist`. It would not
if the share had wrapped it: `wrapPathError` adds its own wrapper to one for another path. -/
theorem Removes.osIsNotExist_stat (hT : T.Removes) {err : Err} (h : S.statOf d l = .error err) :
    osIsNotExist (wrapPathError .stat l.slash (convertError err)) = true := by
  rw [hT.absent d l err h]
  rfl

end TreeShare

/-! ## Accepted locations -/

variable {fsys : FileSystem} {l : Loc}

theorem takes_of_validatePath (hcase : fsys.pathNorm.caseSensitive = true)
    (h : validatePath l.slash = none) : fsys.Takes l :=
  ⟨h, by rw [l.normalize_self, hcase, if_pos rfl]⟩

/-- The location that an accepted path leads to. -/
theorem takes_of_normalize {p : Str} (h : validatePath p = none)
    (hp : fsys.pathNorm.normalize p = l.slash) : fsys.Takes l := by
  have hagain := normalize_normalize fsys.pathNorm h
  rwa [hp] at hagain

/-- A function goes on with the location of its path. -/
theorem checkPath_eq {S : Share} {p : Str} (h : validatePath p = none)
    (hp : fsys.pathNorm.normalize p = l.slash) (op : Op) :
    (fsys.checkPath op p : CM S Str) = fsys.checkPath op l.slash := by
  obtain ⟨hvalid, hself⟩ := takes_of_normalize h hp
  unfold FileSystem.checkPath
  rw [h, hp, hvalid, hself]

theorem takes_parent (hcase : fsys.pathNorm.caseSensitive = true) (h : fsys.Takes l) :
    fsys.Takes l.parent := by
  refine takes_of_validatePath hcase (l.parent.validatePath_slash_iff.mpr fun c hc => ?_)
  exact l.validatePath_slash_iff.mp h.1 c (List.mem_of_mem_tail hc)

/-- A name that `validatePath` accepts. -/
structure Accepted (c : Str) : Prop where
  isName : IsName c
  valid : validatePath c = none

theorem Accepted.no_dots {c : Str} (h : Accepted c) : '\x00' ∉ c ∧ ¬ GoPath.dotdot <+: c := by
  obtain ⟨-, hnul, hdots, -⟩ := validatePath_eq_none.mp h.valid
  rw [slashed_eq_self h.isName.no_backslash, GoPath.clean_plain h.isName.plain] at hdots
  exact ⟨hnul, hdots⟩

theorem takes_child (hcase : fsys.pathNorm.caseSensitive = true) (h : fsys.Takes l) {c : Str}
    (hc : Accepted c) : fsys.Takes (l.child c hc.isName) := by
  refine takes_of_validatePath hcase ((l.child c hc.isName).validatePath_slash_iff.mpr ?_)
  exact List.forall_mem_cons.mpr ⟨hc.no_dots, l.validatePath_slash_iff.mp h.1⟩

/-! ## The share in memory -/

def TreeNode.isDir : TreeNode → Bool
  | .dir .. => true
  | .file .. => false

namespace MemTree

variable (t : MemTree) (k : List Str) (name : Str)

theorem info_isDir (n : TreeNode) : (info name n).isDir = n.isDir := by
  cases n <;> rfl

theorem isDirectory_iff : t.isDirectory k = true ↔ PathTree.IsDirAt TreeNode.isDir t.node k := by
  unfold isDirectory PathTree.IsDirAt
  cases t.node k with
  | none => simp
  | some n => cases n <;> simp [TreeNode.isDir]

theorem info_name (n : TreeNode) : (info name n).name = name := by
  cases n <;> rfl

theorem node_ne_none_iff : t.node k ≠ none ↔ ∃ n, (k, n) ∈ t := by
  rw [node, ne_eq, List.lookup_eq_none_iff]
  constructor
  · intro h
    push Not at h
    obtain ⟨⟨k', n⟩, hmem, hk⟩ := h
    obtain rfl : k = k' := by simpa using hk
    exact ⟨n, hmem⟩
  · rintro ⟨n, hmem⟩ h
    simpa using h (k, n) hmem

/-- A directory lists the nodes with one name more. -/
theorem mem_children_iff :
    (∃ info ∈ t.children k, info.name = name) ↔ t.node (name :: k) ≠ none := by
  rw [node_ne_none_iff]
  constructor
  · rintro ⟨i, hi, rfl⟩
    obtain ⟨⟨k', n⟩, hmem, hi⟩ := List.mem_filterMap.mp hi
    cases k' with
    | nil => cases hi
    | cons x up =>
      dsimp only at hi
      split at hi
      · rename_i hup
        cases hi
        subst hup
        rw [info_name]
        exact ⟨n, hmem⟩
      · cases hi
  · rintro ⟨n, hmem⟩
    refine ⟨info name n, List.mem_filterMap.mpr ⟨(name :: k, n), hmem, ?_⟩, info_name name n⟩
    exact if_pos rfl

theorem children_eq_nil {t : MemTree} {k : List Str} (h : ∀ x, t.node (x :: k) = none) :
    t.children k = [] := by
  rw [List.eq_nil_iff_forall_not_mem]
  intro i hi
  exact (t.mem_children_iff k i.name).mp ⟨i, hi, rfl⟩ (h i.name)

theorem node_erase_self : (t.erase k).node k = none := by
  rw [node, List.lookup_eq_none_iff]
  intro e he
  have hne : e.1 ≠ k := by simpa using (List.mem_filter.mp he).2
  simpa using hne.symm

end MemTree

/-- The tree of the share in memory. -/
def memTrees : TreeShare memShare where
  Node := TreeNode
  isDir := TreeNode.isDir
  tree := MemTree.node
  steady := treeLike_memShare.reads
  stat := by
    intro t l n hn
    refine ⟨MemTree.info (MemTree.nameOf l.names) n, ?_, MemTree.info_isDir _ n⟩
    rw [MemTree.statOf_eq, hn]
  stat_none := by
    intro t l hn
    exact ⟨MemTree.errNotExist, by rw [MemTree.statOf_eq, hn]⟩

/-- Every entry stands in a directory. -/
theorem memTrees_rooted {t : MemTree} (hroot : t.isDirectory [] = true)
    (hup : t.all (fun e => t.isDirectory e.1.tail) = true) : memTrees.Rooted t := by
  refine ⟨(t.isDirectory_iff []).mp hroot, fun x k hnode => (t.isDirectory_iff k).mp ?_⟩
  obtain ⟨n, hmem⟩ := (t.node_ne_none_iff (x :: k)).mp hnode
  exact List.all_eq_true.mp hup (x :: k, n) hmem

theorem memTrees_makes : memTrees.Makes := by
  intro t l perm hnone hdir
  have hrun : memShare.exec (.mkdir l.smb perm) t = (none, t.set l.names (.dir perm 0)) := by
    change t.mkdir (splitName l.smb) perm = _
    rw [splitName_smb, MemTree.mkdir, show t.node l.names = none from hnone]
    exact if_pos ((t.isDirectory_iff _).mpr hdir)
  rw [hrun]
  refine ⟨rfl, ⟨.dir perm 0, ?_, rfl⟩, fun q hq => MemTree.node_set t _ hq⟩
  exact MemTree.node_set_self t l.names _

theorem memTrees_removes : memTrees.Removes where
  absent := by
    intro t l err herr
    rw [MemTree.statOf_eq] at herr
    split at herr
    · cases herr
      rfl
    · cases herr
  list := by
    intro t l hdir
    refine ⟨t.children l.names, ?_, fun i hi => ?_, fun name hname hnode => ?_⟩
    · rw [MemTree.listOf_eq, if_pos ((t.isDirectory_iff _).mpr hdir)]
    · exact (t.mem_children_iff l.names i.name).mp ⟨i, List.mem_of_mem_filter hi, rfl⟩
    · obtain ⟨i, hi, rfl⟩ := (t.mem_children_iff l.names name).mpr hnode
      refine ⟨i, List.mem_filter.mpr ⟨hi, ?_⟩, rfl⟩
      simp [hname.plain.ne_dot, hname.plain.ne_dotdot]
  remove := by
    intro t l hroot hnode hempty
    have hrun : memShare.exec (.remove l.smb) t = (none, t.erase l.names) := by
      change t.remove (splitName l.smb) = _
      obtain ⟨n, hn⟩ := Option.ne_none_iff_exists'.mp hnode
      rw [splitName_smb, MemTree.remove, if_neg, show t.node l.names = some n from hn]
      simp [hroot, MemTree.children_eq_nil hempty]
    rw [hrun]
    exact ⟨rfl, t.node_erase_self _, fun q hq => MemTree.node_erase t hq⟩

end Smbfs.Client
