import Smbfs.Client.TreeShare

/-!
`MkdirAll` over a share on which nothing fails. It goes up until `Stat`
succeeds, and makes the directories on the way back.

* `mkdirAllFrom_acts`: by induction on the depth that is left, the call adds the
  missing directories, or finds a file on the way before it has changed anything;
* `mkdirAll_spec`: the two outcomes for an accepted path, and a second call.
-/

namespace Smbfs.Client

open Smbfs.Lib PathTree

variable {S : Share} {T : TreeShare S} {fsys : FileSystem}

/-- What `MkdirAll` does: the directories on the way to `l` are made, or a file is on the
way and nothing happens. -/
def MakesAll (T : TreeShare S) (d : S.Disk) (l : Loc) (r : Except Err Unit) (d' : S.Disk) : Prop :=
  (∀ q, q <:+ l.names → ¬ T.FileAt d q) ∧ r = .ok () ∧
      Grown T.isDir l.names (T.tree d) (T.tree d') ∧ (T.DirAt d l.names → d' = d) ∨
    (∃ q, q <:+ l.names ∧ T.FileAt d q) ∧ (∃ err, r = .error err) ∧ d' = d

section Step

variable {d d₁ : S.Disk} {l : Loc}

theorem ne_root_of_absent (hd : T.Rooted d) (hnone : T.tree d l.names = none) : l.names ≠ [] := by
  intro hnil
  rw [hnil] at hnone
  exact hd.root.ne_none hnone

/-- There is a directory already. -/
theorem makesAll_of_dir (hd : T.Rooted d) (hdir : T.DirAt d l.names) :
    MakesAll T d l (.ok ()) d := by
  have hgrown := Grown.refl hd hdir
  exact .inl ⟨fun q hq => (hgrown.dirs q hq).not_file, rfl, hgrown, fun _ => rfl⟩

/-- Nothing is at `l`, so a file on the way to it is on the way to its parent. -/
theorem file_above (hroot : l.names ≠ []) (hnone : T.tree d l.names = none) {q : List Str}
    (hq : q <:+ l.names) (hfile : T.FileAt d q) : q <:+ l.parent.names := by
  obtain ⟨x, up, hn⟩ := List.exists_cons_of_ne_nil hroot
  rw [Loc.parent_names, hn, List.tail_cons]
  rw [hn] at hq
  refine (List.suffix_cons_iff.mp hq).resolve_left ?_
  rintro rfl
  obtain ⟨n, hnode, -⟩ := hfile
  rw [← hn, hnone] at hnode
  cases hnode

variable (hT : T.Makes) (hu : fsys.Unfailing)

include hT hu

/-- The last directory, once those on the way to it are there. -/
theorem mkdir_grown (hl : fsys.Takes l) (perm : FileMode) (hroot : l.names ≠ [])
    (hnone : T.tree d l.names = none)
    (hgrown : Grown T.isDir l.parent.names (T.tree d) (T.tree d₁)) :
    Acts d₁ (fsys.mkdir l.slash perm) fun r d' =>
      r = .ok () ∧ Grown T.isDir l.names (T.tree d) (T.tree d') := by
  obtain ⟨x, up, hn⟩ := List.exists_cons_of_ne_nil hroot
  have hparent : l.parent.names = up := by rw [Loc.parent_names, hn, List.tail_cons]
  rw [hparent] at hgrown
  have hbelow : ¬ l.names <:+ up := by
    intro hs
    have := hs.length_le
    rw [hn, List.length_cons] at this
    omega
  have hnone₁ : T.tree d₁ l.names = none := (hgrown.others _ hbelow).trans hnone
  have hdir : T.DirAt d₁ l.names.tail := by
    rw [hn, List.tail_cons]
    exact hgrown.dirs up (List.suffix_refl up)
  obtain ⟨hok, hmade, hsame⟩ := hT d₁ l perm hnone₁ hdir
  refine (mkdir_acts hu hl perm hok).mono ?_
  rintro r d' ⟨rfl, rfl⟩
  refine ⟨rfl, ?_⟩
  rw [hn] at hnone hmade hsame ⊢
  exact hgrown.cons hnone hmade hsame

/-- The directory is made after its parent. -/
theorem makesAll_of_parent (hl : fsys.Takes l) (perm : FileMode) (hroot : l.names ≠ [])
    (hnone : T.tree d l.names = none) (hno : ∀ q, q <:+ l.parent.names → ¬ T.FileAt d q)
    (hgrown : Grown T.isDir l.parent.names (T.tree d) (T.tree d₁)) :
    Acts d₁ (fsys.mkdir l.slash perm) (MakesAll T d l) := by
  refine (mkdir_grown hT hu hl perm hroot hnone hgrown).mono ?_
  rintro r d' ⟨rfl, hgrown'⟩
  refine .inl ⟨fun q hq hfile => ?_, rfl, hgrown', fun hdir => absurd hnone hdir.ne_none⟩
  exact hno q (file_above hroot hnone hq hfile) hfile

/-- Where there is nothing yet, the parent is made first, unless that is the root. -/
theorem mkdirAbsent_acts (hl : fsys.Takes l) (perm : FileMode) (hd : T.Rooted d)
    (hnone : T.tree d l.names = none) {mkdirParent : CM S Unit}
    (hmk : Acts d mkdirParent (MakesAll T d l.parent)) :
    Acts d (if l.parent.slash ≠ ['/'] ∧ l.parent.slash ≠ ['.'] then do
        mkdirParent
        fsys.mkdir l.slash perm
      else fsys.mkdir l.slash perm)
      (MakesAll T d l) := by
  have hroot := ne_root_of_absent hd hnone
  by_cases hparent : l.parent.names = []
  · rw [if_neg fun h => h.1 (Loc.slash_eq_root.mpr hparent)]
    -- nothing is on the way but the root, which is a directory
    have hgrown : Grown T.isDir l.parent.names (T.tree d) (T.tree d) :=
      Grown.refl hd (hparent ▸ hd.root)
    exact makesAll_of_parent hT hu hl perm hroot hnone
      (fun q hq => (hgrown.dirs q hq).not_file) hgrown
  · have hdot : l.parent.slash ≠ ['.'] := fun h => absurd (List.cons.inj h).1 (by decide)
    rw [if_pos ⟨fun h => hparent (Loc.slash_eq_root.mp h), hdot⟩]
    refine Acts.bind hmk ?_ ?_
    · rintro u d₁ (⟨hno, -, hgrown, -⟩ | ⟨-, ⟨_, ⟨⟩⟩, -⟩)
      exact makesAll_of_parent hT hu hl perm hroot hnone hno hgrown
    · rintro err d₁ (⟨-, ⟨⟩, -⟩ | ⟨⟨q, hq, hfile⟩, -, hsame⟩)
      exact .inr ⟨⟨q, hq.trans (List.tail_suffix _), hfile⟩, ⟨err, rfl⟩, hsame⟩

variable (hcase : fsys.pathNorm.caseSensitive = true)

include hcase

/-- By induction on the room for nested calls: the parent is one name shorter, and it is made
before the directory. -/
theorem mkdirAllFrom_acts (perm : FileMode) (depth : Nat) (d : S.Disk) (l : Loc)
    (hl : fsys.Takes l) (hd : T.Rooted d) (hdepth : l.names.length < depth) :
    Acts d (fsys.mkdirAllFrom depth l.slash perm) (MakesAll T d l) := by
  induction depth generalizing d l with
  | zero => omega
  | succ depth ih =>
    rw [FileSystem.mkdirAllFrom]
    refine Acts.bind_ok (checkPath_acts hl.1 _) ?_
    rintro _ d ⟨rfl, rfl⟩
    rw [hl.2]
    refine Acts.bind_ok (stat_acts hu hl T.steady).attempt ?_
    rintro _ d ⟨rfl, rfl⟩
    cases hnode : T.tree d l.names with
    | some n =>
      obtain ⟨info, hinfo, hdir⟩ := T.statAnswer_of_some fsys hnode
      rw [hinfo]
      dsimp only
      rw [hdir]
      cases hn : T.isDir n with
      | true => exact Acts.pure (makesAll_of_dir hd ⟨n, hnode, hn⟩)
      | false =>
        exact Acts.fail (.inr ⟨⟨l.names, List.suffix_refl _, n, hnode, hn⟩, ⟨_, rfl⟩, rfl⟩)
    | none =>
      obtain ⟨err, -, herr⟩ := T.statAnswer_of_none fsys hnode
      rw [herr]
      dsimp only
      rw [l.dir_slash _ hl.2]
      have hshort : l.parent.names.length < depth := by
        have := List.length_pos_of_ne_nil (ne_root_of_absent hd hnode)
        rw [Loc.parent_names, List.length_tail]
        omega
      exact mkdirAbsent_acts hT hu hl perm hd hnode (ih d l.parent (takes_parent hcase hl) hd hshort)

theorem mkdirAll_acts {p : Str} (hv : validatePath p = none)
    (hl : fsys.pathNorm.normalize p = l.slash) (hstack : l.names.length < fsys.stack)
    (perm : FileMode) (hd : T.Rooted d) :
    Acts d (fsys.mkdirAll p perm) (MakesAll T d l) := by
  have htakes := takes_of_normalize hv hl
  have hrun := mkdirAllFrom_acts hT hu hcase perm fsys.stack d l htakes hd hstack
  have heq : fsys.mkdirAll (S := S) p perm = fsys.mkdirAllFrom fsys.stack l.slash perm := by
    obtain ⟨depth, hdepth⟩ := Nat.exists_eq_add_of_lt hstack
    rw [FileSystem.mkdirAll, hdepth, FileSystem.mkdirAllFrom, FileSystem.mkdirAllFrom,
      checkPath_eq hv hl]
  rwa [heq]

end Step

variable {p : Str} {l : Loc}

/-- **`MkdirAll`** of an accepted path, with case-sensitive paths and without a cache, over a
tree on which nothing fails; the stack has room for the names of the path. With no file on the way
every directory on it is there afterwards and nothing else changed, and a second call does nothing.
With a file on the way the call fails and changes nothing. -/
theorem mkdirAll_spec (hT : T.Makes) (hu : fsys.Unfailing)
    (hcase : fsys.pathNorm.caseSensitive = true) (hv : validatePath p = none)
    (hl : fsys.pathNorm.normalize p = l.slash) (hstack : l.names.length < fsys.stack)
    (perm : FileMode) (st : State S) (hoff : st.cache.enabled = false) (hd : T.Rooted st.disk) :
    ((∀ q, q <:+ l.names → ¬ T.FileAt st.disk q) →
      ∃ st', fsys.mkdirAll p perm st = .ok () st' ∧
        Grown T.isDir l.names (T.tree st.disk) (T.tree st'.disk) ∧
        ∃ st'', fsys.mkdirAll p perm st' = .ok () st'' ∧ st''.disk = st'.disk) ∧
    ((∃ q, q <:+ l.names ∧ T.FileAt st.disk q) →
      ∃ err st', fsys.mkdirAll p perm st = .error (.error err) st' ∧ st'.disk = st.disk) := by
  obtain ⟨r, st', hrun, hmade, hoff'⟩ := mkdirAll_acts hT hu hcase hv hl hstack perm hd st rfl hoff
  rcases hmade with ⟨hno, rfl, hgrown, -⟩ | ⟨⟨q, hq, hfile⟩, ⟨err, rfl⟩, hsame⟩
  · obtain ⟨r, st'', hrun', hmade, -⟩ :=
      mkdirAll_acts hT hu hcase hv hl hstack perm (hgrown.closed hd) st' rfl hoff'
    refine ⟨fun _ => ⟨st', eq_ok_of_attempt hrun, hgrown, ?_⟩, ?_⟩
    · rcases hmade with ⟨-, rfl, -, hsame⟩ | ⟨⟨q, hq, hfile⟩, -, -⟩
      · exact ⟨st'', eq_ok_of_attempt hrun', hsame (hgrown.dirs l.names (List.suffix_refl _))⟩
      · exact absurd hfile (hgrown.dirs q hq).not_file
    · rintro ⟨q, hq, hfile⟩
      exact absurd hfile (hno q hq)
  · exact ⟨fun hno => (hno q hq hfile).elim, fun _ => ⟨err, st', eq_error_of_attempt hrun, hsame⟩⟩

/-- The directory `/a/b`. -/
def nested : Loc where
  names := [['b'], ['a']]
  valid := by
    intro c hc
    obtain rfl | rfl : c = ['b'] ∨ c = ['a'] := by simpa using hc
    · exact ⟨⟨by decide, by decide, by decide, by decide⟩, by decide⟩
    · exact ⟨⟨by decide, by decide, by decide, by decide⟩, by decide⟩

/-- A share whose root has one file, `a`. -/
def fileTree : MemTree := ([['a']], .file [] 0o644 0) :: emptyTree

/-- `/a//b` on an empty share, and where `/a` is a file. -/
theorem mkdirAll_spec_nested :
    (∃ st', steadyClient.mkdirAll "/a//b".toList 0o755
        (State.new (S := memShare) defaultCacheConfig emptyTree) = .ok () st' ∧
      Grown memTrees.isDir nested.names (memTrees.tree emptyTree) (memTrees.tree st'.disk) ∧
      ∃ st'', steadyClient.mkdirAll "/a//b".toList 0o755 st' = .ok () st'' ∧ st''.disk = st'.disk) ∧
    ∃ err st', steadyClient.mkdirAll "/a//b".toList 0o755
        (State.new (S := memShare) defaultCacheConfig fileTree) = .error (.error err) st' ∧
      st'.disk = fileTree := by
  have hu : steadyClient.Unfailing := ⟨fun _ => rfl, fun _ => rfl⟩
  have hrooted : memTrees.Rooted emptyTree := memTrees_rooted (by decide) (by decide)
  constructor
  · refine (mkdirAll_spec (l := nested) memTrees_makes hu rfl (by decide +kernel)
      (by decide +kernel) (by decide) 0o755 (State.new defaultCacheConfig emptyTree) rfl hrooted).1 ?_
    rintro q - ⟨n, hnode, hfile⟩
    cases q with
    | nil =>
      cases hnode
      cases hfile
    | cons x up => cases hnode
  · refine (mkdirAll_spec (l := nested) memTrees_makes hu rfl (by decide +kernel)
      (by decide +kernel) (by decide) 0o755 (State.new defaultCacheConfig fileTree) rfl
      (memTrees_rooted (by decide) (by decide))).2 ⟨[['a']], by decide, .file [] 0o644 0, rfl, rfl⟩

end Smbfs.Client
