import Smbfs.Client.TreeShare

/-!
`RemoveAll` over a share on which nothing fails. It removes the entries of a
directory before the directory. To find them it calls `ReadDir`, which answers
`io.EOF` for a directory without entries, and passes that on.

* `removeEntries_acts`: the loop over the entries of a directory, by induction on
  the entries that are left;
* `removeAllFrom_acts`: by induction on the depth that is left, the call removes
  what is at or below the path, or meets an empty directory and fails;
* `removeAll_spec`: which of the two happens for an accepted path.
-/

namespace Smbfs.Client

open Smbfs.Lib PathTree

variable {S : Share} {T : TreeShare S} {fsys : FileSystem}

/-- What `RemoveAll` does: the tree loses what is at or below `l`, or there is an empty
directory at or below `l` and the call fails. -/
def RemovesAll (T : TreeShare S) (d : S.Disk) (l : Loc) (r : Except Err Unit) (d' : S.Disk) :
    Prop :=
  NoEmptyDir T.isDir (T.tree d) l.names ∧ r = .ok () ∧ T.tree d' = prune l.names (T.tree d) ∨
    ¬ NoEmptyDir T.isDir (T.tree d) l.names ∧ ∃ err, r = .error err

/-- A tree with names that `validatePath` accepts, no more than `room` deep below `l`. -/
structure Removable (T : TreeShare S) (l : Loc) (room : Nat) (d : S.Disk) : Prop where
  rooted : T.Rooted d
  accepted : ∀ x k, T.tree d (x :: k) ≠ none → Accepted x
  low : ∀ q, l.names <:+ q → T.tree d q ≠ none → q.length < l.names.length + room

namespace Removable

variable {l : Loc} {room : Nat} {d d' : S.Disk} {c : Str}

/-- What is removed below some path leaves less. -/
theorem of_prune {k : List Str} (h : Removable T l room d) (hk : k ≠ [])
    (heq : T.tree d' = prune k (T.tree d)) : Removable T l room d' := by
  have hless : ∀ q, T.tree d' q ≠ none → T.tree d q ≠ none := by
    intro q hq
    rw [heq] at hq
    exact ne_none_of_prune hq
  refine ⟨?_, fun x k hx => h.accepted x k (hless _ hx), fun q hq hn => h.low q hq (hless q hn)⟩
  rw [TreeShare.Rooted, heq]
  exact h.rooted.prune hk

theorem child (h : Removable T l (room + 1) d) (hc : IsName c) :
    Removable T (l.child c hc) room d := by
  refine ⟨h.rooted, h.accepted, fun q hq hn => ?_⟩
  have hbelow := h.low q ((List.suffix_cons c l.names).trans hq) hn
  have hlength : (l.child c hc).names.length = l.names.length + 1 := rfl
  omega

end Removable

section Step

variable {l : Loc} {room : Nat} {d d₁ : S.Disk}

/-- The names in a directory, one after the other. -/
def pruneEntries (infos : List FileInfo) (k : List Str) (t : PathTree Str T.Node) :
    PathTree Str T.Node :=
  (infos.map FileInfo.name).foldl (fun t c => prune (c :: k) t) t

/-- What is left of a directory is removed after its entries. -/
theorem remove_pruned (hT : T.Removes) (hu : fsys.Unfailing) (hl : fsys.Takes l)
    (hd : T.Rooted d) (hroot : l.names ≠ []) (hnode : T.tree d l.names ≠ none)
    {infos : List FileInfo}
    (hall : ∀ x, T.tree d (x :: l.names) ≠ none → x ∈ infos.map FileInfo.name)
    (hpruned : T.tree d₁ = pruneEntries infos l.names (T.tree d)) :
    Acts d₁ (fsys.remove l.slash) fun r d' =>
      r = .ok () ∧ T.tree d' = prune l.names (T.tree d) := by
  have hself : T.tree d₁ l.names ≠ none := by
    rw [hpruned, pruneEntries, foldl_prune, if_neg]
    · exact hnode
    · rintro ⟨c, -, hc⟩
      have := hc.length_le
      rw [List.length_cons] at this
      omega
  have hempty : ∀ x, T.tree d₁ (x :: l.names) = none := by
    intro x
    rw [hpruned, pruneEntries, foldl_prune]
    by_cases hx : T.tree d (x :: l.names) = none
    · rw [hx, ite_self]
    · exact if_pos ⟨x, hall x hx, List.suffix_refl _⟩
  obtain ⟨hok, hgone, hsame⟩ := hT.remove d₁ l hroot hself hempty
  refine (remove_acts hu hl hok).mono ?_
  rintro r d' ⟨rfl, rfl⟩
  refine ⟨rfl, prune_of_children hd hall hgone fun q hq => ?_⟩
  rw [hsame q hq, hpruned, pruneEntries]

/-- What the loop over the entries of a directory does. -/
def RemovesEntries (T : TreeShare S) (d : S.Disk) (l : Loc) (infos : List FileInfo)
    (r : Except Err Unit) (d' : S.Disk) : Prop :=
  (∀ i ∈ infos, NoEmptyDir T.isDir (T.tree d) (i.name :: l.names)) ∧ r = .ok () ∧
      T.tree d' = pruneEntries infos l.names (T.tree d) ∨
    (∃ i ∈ infos, ¬ NoEmptyDir T.isDir (T.tree d) (i.name :: l.names)) ∧ ∃ err, r = .error err

/-- The rest of the loop, after an entry is removed. -/
theorem RemovesEntries.cons {i : FileInfo} {infos : List FileInfo} {r : Except Err Unit}
    {d' : S.Disk} (hno : NoEmptyDir T.isDir (T.tree d) (i.name :: l.names))
    (hpruned : T.tree d₁ = prune (i.name :: l.names) (T.tree d))
    (h : RemovesEntries T d₁ l infos r d') : RemovesEntries T d l (i :: infos) r d' := by
  unfold RemovesEntries at h
  simp only [hpruned, noEmptyDir_prune hno] at h
  rcases h with ⟨hrest, hr, htree⟩ | ⟨⟨j, hj, hbad⟩, herr⟩
  · exact .inl ⟨List.forall_mem_cons.mpr ⟨hno, hrest⟩, hr, htree⟩
  · exact .inr ⟨⟨j, List.mem_cons_of_mem i hj, hbad⟩, herr⟩

theorem removeEntries_acts (hcase : fsys.pathNorm.caseSensitive = true) (hl : fsys.Takes l)
    (hall : ∀ d l, fsys.Takes l → l.names ≠ [] → Removable T l room d →
      Acts d (fsys.removeAllFrom room l.slash) (RemovesAll T d l))
    (infos : List FileInfo) (hinfos : ∀ i ∈ infos, Accepted i.name)
    (hd : Removable T l (room + 1) d) :
    Acts d (infos.forM fun i => fsys.removeAllFrom room (fsys.pathNorm.join l.slash i.name))
      (RemovesEntries T d l infos) := by
  induction infos generalizing d with
  | nil => exact Acts.pure (.inl ⟨fun i hi => absurd hi List.not_mem_nil, rfl, rfl⟩)
  | cons i infos ih =>
    obtain ⟨hi, hrest⟩ := List.forall_mem_cons.mp hinfos
    have hchild := hall d (l.child i.name hi.isName) (takes_child hcase hl hi)
      (List.cons_ne_nil _ _) (hd.child hi.isName)
    rw [List.forM, l.join_slash _ hcase hi.isName]
    refine Acts.bind hchild ?_ ?_
    · rintro u d₁ (⟨hno, -, hpruned⟩ | ⟨-, _, ⟨⟩⟩)
      refine (ih hrest (hd.of_prune (List.cons_ne_nil _ _) hpruned)).mono ?_
      intro r d' h
      exact h.cons hno hpruned
    · rintro err d₁ (⟨-, ⟨⟩, -⟩ | ⟨hno, -⟩)
      exact .inr ⟨⟨i, List.mem_cons_self, hno⟩, err, rfl⟩

variable (hT : T.Removes) (hu : fsys.Unfailing) (hcase : fsys.pathNorm.caseSensitive = true)

include hT hu hcase

/-- A directory: its entries, and then what is left of it. -/
theorem removeDir_acts (hl : fsys.Takes l)
    (hall : 0 < room → ∀ d l, fsys.Takes l → l.names ≠ [] → Removable T l room d →
      Acts d (fsys.removeAllFrom room l.slash) (RemovesAll T d l))
    (hroot : l.names ≠ []) (hd : Removable T l (room + 1) d) (hdir : T.DirAt d l.names) :
    Acts d (do
        let entries ← fsys.readDir l.slash
        entries.forM fun i => fsys.removeAllFrom room (fsys.pathNorm.join l.slash i.name)
        fsys.remove l.slash)
      (RemovesAll T d l) := by
  have hno := noEmptyDir_iff hd.rooted hdir
  obtain ⟨infos, hlist, hthere, hlisted⟩ := hT.list d l hdir
  have hfound : ∀ x, T.tree d (x :: l.names) ≠ none → ∃ i ∈ visible infos, i.name = x :=
    fun x hx => hlisted x (hd.accepted x _ hx).isName hx
  refine Acts.bind (readDir_acts hu hl T.steady) ?_ ?_
  · rintro entries d₁ ⟨hentries, rfl⟩
    obtain ⟨infos', hlist', rfl, hne⟩ := dirAnswer_eq_ok.mp hentries.symm
    cases hlist.symm.trans hlist'
    obtain ⟨first, hfirst⟩ := List.exists_mem_of_ne_nil _ hne
    have hroom : 0 < room := by
      have := hd.low (first.name :: l.names) (List.suffix_cons _ _) (hthere first hfirst)
      rw [List.length_cons] at this
      omega
    have hloop := removeEntries_acts hcase hl (hall hroom) (visible infos)
      (fun i hi => hd.accepted _ _ (hthere i hi)) hd
    refine Acts.bind hloop ?_ ?_
    · rintro u d₂ (⟨hbelow, -, hpruned⟩ | ⟨-, _, ⟨⟩⟩)
      have hmem : ∀ x, T.tree d₁ (x :: l.names) ≠ none → x ∈ (visible infos).map FileInfo.name :=
        fun x hx => List.mem_map.mpr (hfound x hx)
      refine (remove_pruned hT hu hl hd.rooted hroot hdir.ne_none hmem hpruned).mono ?_
      rintro r d' ⟨rfl, htree⟩
      refine .inl ⟨hno.mpr ⟨⟨first.name, hthere first hfirst⟩, fun x hx => ?_⟩, rfl, htree⟩
      obtain ⟨i, hi, rfl⟩ := hfound x hx
      exact hbelow i hi
    · rintro err d₂ (⟨-, ⟨⟩, -⟩ | ⟨⟨i, hi, hbad⟩, -⟩)
      exact .inr ⟨fun h => hbad ((hno.mp h).2 i.name (hthere i hi)), err, rfl⟩
  · rintro err d₁ ⟨herr, rfl⟩
    refine .inr ⟨fun h => ?_, err, rfl⟩
    obtain ⟨⟨x, hx⟩, -⟩ := hno.mp h
    obtain ⟨i, hi, -⟩ := hfound x hx
    have hok : dirAnswer d₁ l = .ok (visible infos) :=
      dirAnswer_eq_ok.mpr ⟨infos, hlist, rfl, List.ne_nil_of_mem hi⟩
    rw [hok] at herr
    cases herr

/-- By induction on the room for nested calls: an entry of a directory is one name deeper. -/
theorem removeAllFrom_acts (room : Nat) (hroom : 0 < room) (d : S.Disk) (l : Loc)
    (hl : fsys.Takes l) (hroot : l.names ≠ []) (hd : Removable T l room d) :
    Acts d (fsys.removeAllFrom room l.slash) (RemovesAll T d l) := by
  induction room generalizing d l with
  | zero => omega
  | succ room ih =>
    rw [FileSystem.removeAllFrom]
    refine Acts.bind_ok (checkPath_acts hl.1 _) ?_
    rintro _ d ⟨rfl, rfl⟩
    rw [hl.2]
    refine Acts.bind_ok (stat_acts hu hl T.steady).attempt ?_
    rintro _ d ⟨rfl, rfl⟩
    cases hnode : T.tree d l.names with
    | none =>
      obtain ⟨err, hstat, herr⟩ := T.statAnswer_of_none fsys hnode
      rw [herr]
      dsimp only
      rw [if_pos (hT.osIsNotExist_stat hstat)]
      refine Acts.pure (.inl ⟨noEmptyDir_of_none hd.rooted hnode, rfl, ?_⟩)
      rw [prune_eq_self hd.rooted hnode]
    | some n =>
      obtain ⟨info, hinfo, hdir⟩ := T.statAnswer_of_some fsys hnode
      rw [hinfo]
      dsimp only
      rw [hdir]
      cases hn : T.isDir n with
      | false =>
        have hfile : T.FileAt d l.names := ⟨n, hnode, hn⟩
        have hnone : ∀ x, T.tree d (x :: l.names) ≠ none → x ∈ [].map FileInfo.name := by
          intro x hx
          have hne : l.names ≠ x :: l.names := (List.cons_ne_self x _).symm
          exact absurd (hd.rooted.eq_none_of_file hfile (List.suffix_cons x _) hne) hx
        refine (remove_pruned hT hu hl hd.rooted hroot (by simp [hnode]) hnone rfl).mono ?_
        rintro r d' ⟨rfl, htree⟩
        exact .inl ⟨noEmptyDir_of_file hd.rooted hfile, rfl, htree⟩
      | true =>
        have hall := fun hroom d l hl => ih hroom d l hl
        exact removeDir_acts hT hu hcase hl hall hroot hd ⟨n, hnode, hn⟩

theorem removeAll_acts {p : Str} (hv : validatePath p = none)
    (hl : fsys.pathNorm.normalize p = l.slash) (hroot : l.names ≠ []) (hstack : 0 < fsys.stack)
    (hd : Removable T l fsys.stack d) :
    Acts d (fsys.removeAll p) (RemovesAll T d l) := by
  have htakes := takes_of_normalize hv hl
  have hrun := removeAllFrom_acts hT hu hcase fsys.stack hstack d l htakes hroot hd
  have heq : fsys.removeAll (S := S) p = fsys.removeAllFrom fsys.stack l.slash := by
    obtain ⟨room, hroom⟩ := Nat.exists_eq_add_of_lt hstack
    rw [FileSystem.removeAll, hroom, FileSystem.removeAllFrom, FileSystem.removeAllFrom,
      checkPath_eq hv hl]
  rwa [heq]

end Step

variable {p : Str} {l : Loc}

/-- **`RemoveAll`** of an accepted path other than the root, with case-sensitive paths and
without a cache, over a tree on which nothing fails; the stack has room for what is below the
path. The call removes what is at or below the path if no directory there is empty, and fails
otherwise. -/
theorem removeAll_spec (hT : T.Removes) (hu : fsys.Unfailing)
    (hcase : fsys.pathNorm.caseSensitive = true) (hv : validatePath p = none)
    (hl : fsys.pathNorm.normalize p = l.slash) (hroot : l.names ≠ []) (hstack : 0 < fsys.stack)
    (st : State S) (hoff : st.cache.enabled = false) (hd : Removable T l fsys.stack st.disk) :
    (NoEmptyDir T.isDir (T.tree st.disk) l.names →
      ∃ st', fsys.removeAll p st = .ok () st' ∧
        T.tree st'.disk = prune l.names (T.tree st.disk)) ∧
    (¬ NoEmptyDir T.isDir (T.tree st.disk) l.names →
      ∃ err st', fsys.removeAll p st = .error (.error err) st') := by
  obtain ⟨r, st', hrun, hremoved, -⟩ := removeAll_acts hT hu hcase hv hl hroot hstack hd st rfl hoff
  rcases hremoved with ⟨hno, rfl, htree⟩ | ⟨hbad, err, rfl⟩
  · exact ⟨fun _ => ⟨st', eq_ok_of_attempt hrun, htree⟩, fun hbad => absurd hno hbad⟩
  · exact ⟨fun hno => absurd hno hbad, fun _ => ⟨err, st', eq_error_of_attempt hrun⟩⟩

/-! ## A directory with a file, and an empty one -/

/-- The directory `/a`. -/
def topDir : Loc where
  names := [['a']]
  valid := by
    intro c hc
    obtain rfl : c = ['a'] := by simpa using hc
    exact ⟨⟨by decide, by decide, by decide, by decide⟩, by decide⟩

/-- A share with an empty directory `a`. -/
def emptyDirTree : MemTree := ([['a']], .dir 0o755 0) :: emptyTree

/-- A share with a directory `a` and a file `f` in it. -/
def oneFileTree : MemTree := ([['f'], ['a']], .file [] 0o644 0) :: emptyDirTree

theorem memTrees_removable {t : MemTree} {room : Nat} (hroot : t.isDirectory [] = true)
    (hup : t.all (fun e => t.isDirectory e.1.tail) = true) (hnames : ∀ e ∈ t, ∀ x ∈ e.1, Accepted x)
    (hlow : t.all (fun e => e.1.length < l.names.length + room) = true) :
    Removable memTrees l room t := by
  refine ⟨memTrees_rooted hroot hup, fun x k hx => ?_, fun q _ hq => ?_⟩
  · obtain ⟨n, hmem⟩ := (t.node_ne_none_iff (x :: k)).mp hx
    exact hnames _ hmem x List.mem_cons_self
  · obtain ⟨n, hmem⟩ := (t.node_ne_none_iff q).mp hq
    simpa using List.all_eq_true.mp hlow _ hmem

theorem accepted_a : Accepted ['a'] :=
  ⟨⟨⟨by decide, by decide, by decide, by decide⟩, by decide⟩, by decide +kernel⟩

theorem accepted_f : Accepted ['f'] :=
  ⟨⟨⟨by decide, by decide, by decide, by decide⟩, by decide⟩, by decide +kernel⟩

/-- The directory `/a` with its file goes. -/
theorem removeAll_spec_file :
    ∃ st', steadyClient.removeAll "/a/".toList
        (State.new (S := memShare) defaultCacheConfig oneFileTree) = .ok () st' ∧
      memTrees.tree st'.disk = prune topDir.names (memTrees.tree oneFileTree) := by
  have hu : steadyClient.Unfailing := ⟨fun _ => rfl, fun _ => rfl⟩
  have hd : Removable memTrees topDir steadyClient.stack oneFileTree :=
    memTrees_removable (by decide) (by decide)
      (by simp [oneFileTree, emptyDirTree, emptyTree, accepted_a, accepted_f]) (by decide)
  refine (removeAll_spec memTrees_removes hu rfl (by decide +kernel) (by decide +kernel) (by decide)
    (by decide) (State.new defaultCacheConfig oneFileTree) rfl hd).1 ?_
  rintro q hq ⟨n, hnode, hdir⟩
  obtain ⟨m, hmem⟩ := (oneFileTree.node_ne_none_iff q).mp (IsDirAt.ne_none ⟨n, hnode, hdir⟩)
  obtain rfl | rfl | rfl : q = [['f'], ['a']] ∨ q = [['a']] ∨ q = [] := by
    simp only [oneFileTree, emptyDirTree, emptyTree, List.mem_cons, Prod.mk.injEq,
      List.not_mem_nil, or_false] at hmem
    exact hmem.imp And.left (Or.imp And.left And.left)
  · cases hnode
    cases hdir
  · exact ⟨['f'], by decide⟩
  · exact absurd hq (by decide)

/-- An empty directory `/a` stays, and the caller gets the `io.EOF` of `ReadDir`. -/
theorem removeAll_spec_empty :
    memTrees.Removes ∧ steadyClient.Unfailing ∧
      Removable memTrees topDir steadyClient.stack emptyDirTree ∧
      ∃ st', steadyClient.removeAll topDir.slash
          (State.new (S := memShare) defaultCacheConfig emptyDirTree) =
            .error (.error (.sentinel .eof)) st' ∧
        memTrees.DirAt st'.disk topDir.names := by
  have hd : Removable memTrees topDir steadyClient.stack emptyDirTree :=
    memTrees_removable (by decide) (by decide)
      (by simp [emptyDirTree, emptyTree, accepted_a]) (by decide)
  exact ⟨memTrees_removes, ⟨fun _ => rfl, fun _ => rfl⟩, hd, _, rfl, .dir 0o755 0, rfl, rfl⟩

end Smbfs.Client
