import Smbfs.System.Handles
import Smbfs.System.Samples

/-!
The paths that reach the filesystem of a share.

* `paths_contained`: they lie at or below the root of the share, in runs whose
  CREATE and rename names do;
* `create_climbs`: names are not checked, so `..` components reach the
  filesystem.
-/

namespace Smbfs

open Smbfs.Lib Smbfs.Lib.GoPath Relation

variable {B : Backend} {P : Platform} {k : ConnId} {msg : SMB2Message} {o : Oracle}
  {s0 s s' : Server B} {options : ShareOptions}

/-! ## Containment -/

/-- The location of `SharePath`, the root of the share within the filesystem. -/
def shareRoot (options : ShareOptions) : List Part :=
  (resolve true [] (components options.sharePath)).getD []

/-- The path leads to a location at or below the root of the share, without
climbing above the root of the filesystem. -/
def contained (options : ShareOptions) (path : Str) : Bool :=
  (walk path).any (shareRoot options).isSuffixOf

/-- So does the name, followed from the directory of a path. -/
def containedFrom (options : ShareOptions) (path name : Str) : Bool :=
  (walk (dirPart path)).any fun d =>
    (resolve (isRooted path) d (components name)).any (shareRoot options).isSuffixOf

theorem contained_renamePath {path name : Str} (h : containedFrom options path name = true) :
    contained options (renamePath path name) = true := by
  obtain ⟨d, hd, h⟩ := (Option.any_eq_true _ _).mp h
  obtain ⟨l, hl, h⟩ := (Option.any_eq_true _ _).mp h
  rw [contained, renamePath, joinDir_walk path name d l hd hl]
  exact h

/-- The leading slash that CREATE strips does not matter. -/
theorem walk_createPath (name : Str) : walk (createPath name) = walk (slashed name) := by
  have htrim : ∀ p : Str, walk (if trimSlash p = [] then ['/'] else trimSlash p) = walk p := by
    intro p
    have hwalk : walk (trimSlash p) = walk p := by
      unfold trimSlash
      split
      · exact (walk_slash _).symm
      · rfl
    split
    · next hnil => rw [walk_slash, ← hnil, hwalk]
    · exact hwalk
  exact htrim (slashed name)

/-! ## Requests -/

/-- The names that the message brings are contained: the name of a CREATE with
both separators, and the new name of a rename from the directory of its handle. -/
def NamesContained (s : Server B) (msg : SMB2Message) (_ : Oracle) : Prop :=
  ∀ tree ∈ treeOf s msg,
    (msg.cmd = .create → ∀ name ∈ createName msg.payload,
      contained (s.shareHeap tree.share).options (slashed name) = true) ∧
    (msg.cmd = .setInfo → ∀ x ∈ renameTarget msg.payload,
      ∀ of ∈ (s.handlesOf tree.share).view x.1, of.treeID = tree.id →
        of.sessionID = msg.header.sessionID →
        containedFrom (s.shareHeap tree.share).options of.path x.2 = true)

instance : Decidable (NamesContained s msg o) := by
  delta NamesContained
  infer_instance

/-- The paths that the event passes to a filesystem: it is the filesystem of
the request's share, and they are contained in that share. -/
def PathsContained (P : Platform) (sys : System B) (e : Event) : Prop :=
  ∃ calls, (sys.step P e).server.log = sys.server.log ++ calls ∧
    ∀ fs c p, (fs, c) ∈ calls → p ∈ c.paths → ∃ k msg o tree, e = .message k msg o ∧
      treeOf sys.server msg = some tree ∧ (sys.server.shareHeap tree.share).fs = some fs ∧
      contained (sys.server.shareHeap tree.share).options p = true

section Message

variable (h : Tables s) (hcond : NamesContained s msg o)

include hcond in
theorem contained_create {r : SessionRef} {tree : TreeConnection} {filename : Str}
    (hauth : Auth s msg r tree) (hcmd : msg.cmd = .create)
    (hname : createFilename msg.payload = some filename) :
    contained (s.shareHeap tree.share).options filename = true := by
  rw [createFilename_eq] at hname
  obtain ⟨name, hmem, rfl⟩ := Option.map_eq_some_iff.mp hname
  rw [contained, walk_createPath]
  exact (hcond tree hauth.treeOf_eq).1 hcmd name hmem

include h hcond in
theorem contained_rename {r : SessionRef} {tree : TreeConnection} {id : FileID}
    {of : B.OpenFile} {newName : Str} (ht : Target s msg r tree id of)
    (hcmd : msg.cmd = .setInfo) (hname : renameTarget msg.payload = some (id, newName)) :
    contained (s.shareHeap tree.share).options (renamePath of.path newName) = true :=
  contained_renamePath <| (hcond tree ht.toAuth.treeOf_eq).2 hcmd (id, newName) hname of ht.view_eq
    ht.treeID_eq (ht.owner h).1

end Message

/-! ## Stored paths -/

/-- The path of a handle is contained in its share. -/
def PathContained (options : ShareOptions) (of : B.OpenFile) : Prop :=
  contained options of.path = true

theorem pathContained_step {sys : System B} {e : Event} (h : Tables sys.server)
    (hp : AllHandles PathContained sys.server) (hcond : System.OnMessage NamesContained sys e) :
    AllHandles PathContained (sys.step P e).server := by
  refine hp.step h e ?_ ?_
  · rintro k msg o rfl hcr sh of ⟨r, tree, name, file, isDir, hauth, hcmd, rfl, hname, -, rfl⟩
    exact contained_create (hcond hcr) hauth hcmd hname
  · rintro k msg o rfl hcr sh id old new ⟨r, tree, of, f, ht, he, rfl, rfl⟩ hold
    cases he with
    | lastAccess | deleteOnClose => exact hold
    | path hcmd _ hname => exact contained_rename h (hcond hcr) ht hcmd hname

/-! ## Calls -/

theorem FsCall.paths_of_file {File : Type} {c : FsCall File} {f : File} (h : c.file? = some f) :
    c.paths = [] := by
  cases c <;> first | rfl | cases h

theorem Permitted.contained (h : Tables s)
    (hpaths : AllHandles PathContained s) (hcond : NamesContained s msg o)
    {fs : FsRef} {c : FsCall B.File} (hp : Permitted s msg fs c) {p : Str} (hmem : p ∈ c.paths) :
    ∃ tree, treeOf s msg = some tree ∧ (s.shareHeap tree.share).fs = some fs ∧
      contained (s.shareHeap tree.share).options p = true := by
  cases hp with
  | path ha hcmd hname hfs _ hc =>
    rw [hc, List.mem_singleton] at hmem
    exact ⟨_, ha.treeOf_eq, hfs, hmem ▸ contained_create hcond ha hcmd hname⟩
  | rename ht hcmd _ hname hfs _ hc =>
    refine ⟨_, ht.toAuth.treeOf_eq, hfs, ?_⟩
    rcases hc p hmem with rfl | rfl
    · exact hpaths _ _ _ ht.view_eq
    · exact contained_rename h hcond ht hcmd hname
  | removed ht _ _ hfs =>
    rw [FsCall.paths, List.mem_singleton] at hmem
    exact ⟨_, ht.toAuth.treeOf_eq, hfs, hmem ▸ hpaths _ _ _ ht.view_eq⟩
  | opened _ _ hfile | handle _ _ hfile => simp [FsCall.paths_of_file hfile] at hmem
  | closed => simp [FsCall.paths] at hmem

theorem pathsContained_step {sys : System B} {e : Event} (h : Tables sys.server)
    (hpaths : AllHandles PathContained sys.server) (hcond : System.OnMessage NamesContained sys e) :
    PathsContained P sys e := by
  obtain ⟨calls, hlog, hcalls⟩ := step_calls (P := P) h e
  refine ⟨calls, hlog, fun fs c p hmem hp => ?_⟩
  rcases hcalls _ hmem with ⟨k, msg, o, rfl, hcr, hpermitted⟩ | ⟨f, hf⟩
  · obtain ⟨tree, htree⟩ := hpermitted.contained h hpaths (hcond hcr) hp
    exact ⟨k, msg, o, tree, rfl, htree⟩
  · simp [show c = .close f from hf, FsCall.paths] at hp

/-- **Path containment.** Along every run whose names are contained, every path
that a request passes to the filesystem of its share lies at or below the root
of that share. -/
theorem paths_contained (options : ServerOptions) (rand : Bytes) (disks : FsRef → B.Disk)
    (es : List Event)
    (hcond : Along (System.step P) (System.OnMessage NamesContained)
      (.initial options rand disks) es) :
    Along (System.step P) (PathsContained P) (.initial options rand disks) es :=
  along_imp (I := fun sys => Tables sys.server ∧ AllHandles PathContained sys.server)
    (fun _ e hi hc => ⟨hi.1.step e, pathContained_step hi.1 hi.2 hc⟩)
    (fun _ _ hi hc => pathsContained_step hi.1 hi.2 hc)
    ⟨.initial options rand disks, .initial options rand disks⟩ hcond

/-- A file is opened, renamed and closed. -/
theorem paths_contained_rename :
    Along (System.step samplePlatform) (PathsContained samplePlatform) sampleSystem
      (sampleLogin false ++ [sent (createRequest 7 1 ['f'] 1 7 1 0),
        sent (renameRequest 7 1 ⟨1, 1⟩ ['g']), sent (closeRequest 7 1 ⟨1, 1⟩)]) :=
  paths_contained _ _ _ _ (by decide +kernel)

/-- CREATE with the name `..\x` on a share with SharePath `/` passes `../x` to
the filesystem. -/
theorem create_climbs :
    ¬ Along (System.step samplePlatform) (PathsContained samplePlatform) sampleSystem
      (sampleLogin false ++ [sent (createRequest 7 1 ['.', '.', '\\', 'x'] 1 7 1 0)]) := by
  intro h
  obtain ⟨calls, hlog, hcalls⟩ := (along_append.mp h).2.1
  have hbefore : (runFrom (System.step samplePlatform) sampleSystem
      (sampleLogin false)).server.log = [] := by decide +kernel
  rw [hbefore, List.nil_append] at hlog
  have hmem : (0, FsCall.stat ['.', '.', '/', 'x']) ∈ calls := by
    rw [← hlog]
    decide +kernel
  obtain ⟨-, -, -, tree, -, -, -, hcontained⟩ := hcalls 0 _ ['.', '.', '/', 'x'] hmem (by decide)
  obtain ⟨l, hl, -⟩ := (Option.any_eq_true _ _).mp hcontained
  have hnone : walk ['.', '.', '/', 'x'] = none := by decide
  cases hnone.symm.trans hl

end Smbfs
