import Smbfs.Properties.CreateTable
import Smbfs.Properties.RenameIndex

/-!
The names of renames and of CREATE. CREATE turns the backslashes of a name into
slashes and starts at the root of the share. FileRenameInformation does neither: it
joins the name, as it was sent, to the directory of the handle.

* `names_agree_iff`: for which names the two lead to the same place;
* `rename_create_agree_iff`: FILE_OPEN finds the renamed object under the name of the
  rename for these names only;
* `renamed_object_not_found`: a rename to `d\x` that FILE_OPEN of `d\x` does not find.
-/

namespace Smbfs

open Smbfs.Lib Smbfs.Lib.GoPath

/-! ## Names -/

theorem location_trimSlash (p : Str) : location (trimSlash p) = location p := by
  unfold trimSlash
  split
  · exact (location_slash _).symm
  · rfl

/-- CREATE leads to where its name leads, read with slashes. -/
theorem location_createPath (name : Str) : location (createPath name) = location (slashed name) := by
  rw [createPath, ← location_trimSlash (slashed name)]
  split
  · next hempty =>
    rw [hempty]
    rfl
  · rfl

/-- A component of a name of the protocol. -/
structure NamePart (c : Part) : Prop extends Plain c where
  no_backslash : '\\' ∉ c

/-- The name with these components. -/
def wireName (cs : List Part) : Str := ['\\'].intercalate cs

theorem slashed_part {c : Part} (h : '\\' ∉ c) : slashed c = c := by
  refine (List.map_congr_left fun x hx => if_neg ?_).trans (List.map_id c)
  rintro rfl
  exact h hx

theorem slashed_wireName (cs : List Part) (h : ∀ c ∈ cs, '\\' ∉ c) :
    slashed (wireName cs) = joinParts cs := by
  induction cs with
  | nil => rfl
  | cons c cs ih =>
    have hc := slashed_part (h c List.mem_cons_self)
    have hcs := ih fun d hd => h d (List.mem_cons_of_mem c hd)
    cases cs with
    | nil => simpa [wireName, joinParts] using hc
    | cons d ds =>
      rw [wireName, intercalate_cons_cons, joinParts, intercalate_cons_cons]
      rw [slashed, List.map_append, List.map_cons]
      exact congrArg₂ (· ++ ·) hc (congrArg ('/' :: ·) hcs)

theorem location_createPath_wireName (cs : List Part) (h : ∀ c ∈ cs, NamePart c) :
    location (createPath (wireName cs)) = cs.reverse := by
  rw [location_createPath, slashed_wireName cs fun c hc => (h c hc).no_backslash,
    location_joinParts cs fun c hc => (h c hc).no_slash,
    resolve_plain true [] cs fun c hc => (h c hc).toPlain, List.append_nil]
  rfl

variable {name : Str}

/-- A rename to a name without slashes puts it into the directory of the handle. -/
theorem location_renamePath (a : Str) (h : Plain name) :
    location (renamePath a name) = name :: location (GoPath.dir a) := by
  have hone : components name = [name] := by
    simpa [joinParts] using components_joinParts [name] (by simpa using h.no_slash) (by simp)
  rw [renamePath, location_join, hone, resolve_plain true _ [name] (by simpa using h)]
  rfl

theorem mem_wireName {cs : List Part} {x : Char} (h : x ∈ wireName cs) :
    x = '\\' ∨ ∃ c ∈ cs, x ∈ c := by
  induction cs with
  | nil => cases h
  | cons c cs ih =>
    cases cs with
    | nil => exact .inr ⟨c, List.mem_cons_self, by simpa [wireName] using h⟩
    | cons d ds =>
      rw [wireName, intercalate_cons_cons] at h
      rcases List.mem_append.mp h with hc | hrest
      · exact .inr ⟨c, List.mem_cons_self, hc⟩
      · rcases List.mem_cons.mp hrest with rfl | hrest
        · exact .inl rfl
        · rcases ih hrest with hx | ⟨e, he, hx⟩
          · exact .inl hx
          · exact .inr ⟨e, List.mem_cons_of_mem c he, hx⟩

/-- A name of several components has a backslash. -/
theorem backslash_mem_wireName (c d : Part) (ds : List Part) : '\\' ∈ wireName (c :: d :: ds) := by
  rw [wireName, intercalate_cons_cons]
  simp

theorem plain_wireName {cs : List Part} (hne : cs ≠ []) (h : ∀ c ∈ cs, NamePart c) :
    Plain (wireName cs) := by
  match cs, hne with
  | [c], _ =>
    have hc : wireName [c] = c := by simp [wireName]
    rw [hc]
    exact (h c List.mem_cons_self).toPlain
  | c :: d :: ds, _ =>
    have hback := backslash_mem_wireName c d ds
    refine ⟨?_, ?_, ?_, fun hslash => ?_⟩
    · intro heq
      rw [heq] at hback
      cases hback
    · intro heq
      rw [heq] at hback
      revert hback
      decide
    · intro heq
      rw [heq] at hback
      revert hback
      decide
    · rcases mem_wireName hslash with hx | ⟨e, he, hx⟩
      · cases hx
      · exact (h e he).no_slash hx

/-- **Names.** The path of a rename and the path of CREATE lead to the same place
exactly when the handle is in the root of the share and the name has one component. -/
theorem names_agree_iff (a : Str) {cs : List Part} (hne : cs ≠ []) (h : ∀ c ∈ cs, NamePart c) :
    location (renamePath a (wireName cs)) = location (createPath (wireName cs)) ↔
      location (GoPath.dir a) = [] ∧ cs.length = 1 := by
  rw [location_renamePath a (plain_wireName hne h), location_createPath_wireName cs h]
  match cs, hne with
  | [c], _ => simp [wireName]
  | c :: d :: ds, _ =>
    refine iff_of_false (fun heq => ?_) fun hone => by simp at hone
    -- the last component of the rename has a backslash, that of CREATE has none
    have hmem : wireName (c :: d :: ds) ∈ (c :: d :: ds).reverse := by
      rw [← heq]
      exact List.mem_cons_self
    exact (h _ (List.mem_reverse.mp hmem)).no_backslash (backslash_mem_wireName c d ds)

/-! ## CREATE by name -/

variable {B : Backend} {F : ObjectFs B} {place : List Part → F.Loc} {P : Platform} {k : ConnId}
  {msg : SMB2Message} {o : Oracle}

/-- A CREATE for the name with FILE_OPEN, for objects of every kind, that no share
mode forbids. -/
structure AsksToOpen (s : Server B) (msg : SMB2Message) (tree : TreeConnection) (name : Str) :
    Prop where
  cmd_eq : msg.cmd = .create
  tree_eq : treeOf s msg = some tree
  wellFormed : wellFormed msg.payload 56 57 = true
  name_eq : createName msg.payload = some name
  code_eq : CreateDisposition.ofCode msg.create.createDisposition = some .open
  wantDir_eq : msg.create.wantDir = false
  wantFile_eq : msg.create.wantFile = false
  checked : (s.handlesOf tree.share).checkShareAccess (createPath name) msg.create.desiredAccess
    msg.create.shareAccess = true

/-- The CREATE is answered with STATUS_SUCCESS, and its handle is open for `x`. -/
def OpensObject (F : ObjectFs B) (P : Platform) (sys : System B) (k : ConnId) (msg : SMB2Message)
    (o : Oracle) (sh : ShareRef) (fs : FsRef) (x : F.Obj) : Prop :=
  Succeeds P k msg o sys.server ∧ ∃ of f,
    AddsHandle sys.server (sys.step P (.message k msg o)).server sh of ∧ of.file = some (fs, f) ∧
    F.opened ((sys.step P (.message k msg o)).server.disks fs) f = some x

variable {tree : TreeConnection}

theorem AsksToOpen.asks {s : Server B}
    (h : AsksToOpen s msg tree name) : Asks s msg tree (createPath name) := by
  refine ⟨h.wellFormed, ?_, h.checked⟩
  rw [createFilename_eq, h.name_eq]
  rfl

/-- A CREATE adds one handle. -/
theorem AddsHandle.unique {s s' : Server B} {sh : ShareRef} {of of' : B.OpenFile}
    (h : AddsHandle s s' sh of) (h' : AddsHandle s s' sh of') : of = of' := by
  have hid : of'.id = of.id := by
    by_contra hne
    have hview := h.others sh of'.id fun heq => hne heq.2
    rw [h'.added, h'.fresh] at hview
    cases hview
  have hadded := h'.added
  rw [hid, h.added] at hadded
  exact Option.some.inj hadded

/-- What a FILE_OPEN opens that is answered with STATUS_SUCCESS. -/
theorem AsksToOpen.found (hF : F.Posix) {sys : System B} (hwf : Tables sys.server)
    (hrunning : sys.crashed = false) (h : AsksToOpen sys.server msg tree name) {fs : FsRef}
    (hfs : (sys.server.shareHeap tree.share).fs = some fs) (hok : Succeeds P k msg o sys.server) :
    ∃ f y of, F.look (B.content (sys.server.disks fs)) (createPath name) = some y ∧
      AddsHandle sys.server (sys.step P (.message k msg o)).server tree.share of ∧
      of.file = some (fs, f) ∧
      F.opened ((sys.step P (.message k msg o)).server.disks fs) f = some y := by
  obtain ⟨path, disposition, action, f, y, of, -, -, hasks, hcode, -, -, hdone, -⟩ :=
    step_create_ok hF hwf hrunning h.cmd_eq h.tree_eq hfs hok
  cases hcode.symm.trans h.code_eq
  cases hasks.path_eq.symm.trans h.asks.path_eq
  have haction : action = .opened := by
    have haction := hdone.action_eq
    cases hsome : (F.look (B.content (sys.server.disks fs)) (createPath name)).isSome with
    | true =>
      rw [hsome] at haction
      exact (Option.some.inj haction).symm
    | false =>
      rw [hsome] at haction
      cases haction
  subst haction
  exact ⟨f, y, of, hdone.effect.1, hdone.handle, hdone.file_eq, hdone.opens.opened_eq⟩

/-- FILE_OPEN opens the object its name leads to. -/
theorem opensObject_iff (hF : F.Posix) (hL : F.Lexical place) {sys : System B}
    (hwf : Tables sys.server) (hrunning : sys.crashed = false)
    (h : AsksToOpen sys.server msg tree name) {fs : FsRef}
    (hfs : (sys.server.shareHeap tree.share).fs = some fs) (x : F.Obj) :
    OpensObject F P sys k msg o tree.share fs x ↔
      F.look (B.content (sys.server.disks fs)) (createPath name) = some x := by
  constructor
  · rintro ⟨hok, of, f, hadds, hfile, hopened⟩
    obtain ⟨f', y, of', hy, hadds', hfile', hopened'⟩ := h.found hF hwf hrunning hfs hok
    cases hadds.unique hadds'
    cases hfile.symm.trans hfile'
    cases hopened.symm.trans hopened'
    exact hy
  · intro hx
    obtain ⟨r, hsession, htree⟩ := Option.bind_eq_some_iff.mp h.tree_eq
    obtain ⟨reply, s', hrun⟩ := handleCreate_opens (o := o) hF hL hx ⟨hsession, htree⟩ hfs h.asks
      h.code_eq h.wantDir_eq h.wantFile_eq
    have hok : Succeeds P k msg o sys.server := by
      refine (succeeds_create_iff h.cmd_eq).mpr ⟨reply, s', hrun, ?_⟩
      obtain ⟨_, _, _, _, _, _, -, hanswered⟩ :=
        (handleCreate_finishes ⟨hsession, htree⟩ hfs hF).post hrun
      rw [hanswered.reply_eq]
      rfl
    obtain ⟨f, y, of, hy, hadds, hfile, hopened⟩ := h.found hF hwf hrunning hfs hok
    cases hx.symm.trans hy
    exact ⟨hok, of, f, hadds, hfile, hopened⟩

/-! ## Renames -/

/-- After a rename the object stands where the new path leads. -/
theorem rename_moves (hL : F.Lexical place) {sys : System B} (hrunning : sys.crashed = false)
    (hcmd : msg.cmd = .setInfo) {id : FileID}
    (htarget : renameTarget msg.payload = some (id, name)) (hok : Succeeds P k msg o sys.server)
    (htree : treeOf sys.server msg = some tree)
    {of : B.OpenFile} (hview : (sys.server.handlesOf tree.share).view id = some of)
    {fs : FsRef} (hfs : (sys.server.shareHeap tree.share).fs = some fs) {x : F.Obj}
    (hx : F.look (B.content (sys.server.disks fs)) of.path = some x) :
    (sys.step P (.message k msg o)).crashed = false ∧
      ((sys.step P (.message k msg o)).server.shareHeap tree.share).fs = some fs ∧
      F.look (B.content ((sys.step P (.message k msg o)).server.disks fs))
        (renamePath of.path name) = some x := by
  obtain ⟨reply, s', hrun, -⟩ := (succeeds_setInfo_iff hcmd).mp hok
  obtain ⟨resp, hresp, -⟩ := processMessage_ok (routedTo_setInfo hcmd) hrun
  rw [step_response hrunning hresp]
  refine ⟨rfl, ?_⟩
  obtain ⟨r, tree', of', fs', ht, -, hfs', hnone, rfl⟩ := handleSetInfo_rename htarget hrun
  cases htree.symm.trans ht.treeOf_eq
  cases hview.symm.trans ht.view_eq
  cases hfs.symm.trans hfs'
  refine ⟨?_, ?_⟩
  · rw [Server.renamed, Server.modifyHandles_fs]
    exact (Server.modifyHandles_fs sys.server tree.share tree.share fun m =>
      m.updateLastAccess id o.now).trans hfs
  · obtain ⟨y, hy, hnew⟩ := hL.rename_ok _ _ _ hnone
    rw [B.content_exec _ _ rfl] at hy
    cases hx.symm.trans hy
    have hdisk : (sys.server.renamed o tree.share fs id of.path (renamePath of.path name)).disks fs =
        (B.exec (.rename of.path (renamePath of.path name))
          (B.exec (.stat (renamePath of.path name)) (sys.server.disks fs)).2).2 := by
      rw [Server.renamed]
      refine (Server.disks_exec _ _ _).trans ?_
      rw [Server.disks_exec]
      rfl
    rw [hdisk]
    exact hnew

/-- **Rename and CREATE.** In every reachable state, after a rename of an open handle
to a name has succeeded, FILE_OPEN for the name opens the renamed object exactly when
the paths of the two requests lead to the same place. For a name with the components
`cs` this is so when the handle is in the root of the share and the name has one
component. -/
theorem rename_create_agree_iff (hF : F.Posix) (hL : F.Lexical place) (P : Platform)
    (options : ServerOptions) (rand : Bytes) (disks : FsRef → B.Disk) (before : List Event)
    (k : ConnId) (msg : SMB2Message) (o : Oracle) :
    let sys := System.run P (.initial options rand disks) before
    let sys' := sys.step P (.message k msg o)
    ∀ id name tree of fs x, sys.crashed = false → msg.cmd = .setInfo →
      renameTarget msg.payload = some (id, name) → Succeeds P k msg o sys.server →
      treeOf sys.server msg = some tree → (sys.server.handlesOf tree.share).view id = some of →
      (sys.server.shareHeap tree.share).fs = some fs →
      F.look (B.content (sys.server.disks fs)) of.path = some x →
      ∀ k' msg' o' tree', AsksToOpen sys'.server msg' tree' name → tree'.share = tree.share →
        (OpensObject F P sys' k' msg' o' tree.share fs x ↔
          location (renamePath of.path name) = location (createPath name)) ∧
        ∀ cs, cs ≠ [] → (∀ c ∈ cs, NamePart c) → name = wireName cs →
          (OpensObject F P sys' k' msg' o' tree.share fs x ↔
            location (GoPath.dir of.path) = [] ∧ cs.length = 1) := by
  intro sys sys' id name tree of fs x hrunning hcmd htarget hok htree hview hfs hx k' msg' o' tree'
    hasks hshare
  obtain ⟨hrunning', hfs', hx'⟩ := rename_moves hL hrunning hcmd htarget hok htree hview hfs hx
  have hwf : Tables sys'.server := Tables.step (.run options rand disks before) _
  have hopens : OpensObject F P sys' k' msg' o' tree.share fs x ↔
      location (renamePath of.path name) = location (createPath name) := by
    rw [← hL.look_iff hx', ← hshare]
    exact opensObject_iff hF hL hwf hrunning' hasks (by rw [hshare]; exact hfs') x
  refine ⟨hopens, fun cs hne hparts hname => ?_⟩
  rw [hopens, hname]
  exact names_agree_iff of.path hne hparts

/-- A rename in the root of the share. -/
theorem rename_create_agree_root :
    let sys := System.run samplePlatform inodeSystem
      (sampleLogin false ++ [sent (createRequest 7 1 ['f'] 3 7 2 0)])
    let sys' := sys.step samplePlatform (sent (renameRequest 7 1 ⟨1, 1⟩ ['g']))
    OpensObject inodeView samplePlatform sys' 0 (createRequest 7 1 ['g'] 1 7 1 0) sampleOracle 1 0
      1 := by
  intro sys sys'
  have hshare : (treeOf sys.server (renameRequest 7 1 ⟨1, 1⟩ ['g'])).map TreeConnection.share =
      some 1 := by decide +kernel
  obtain ⟨tree, htree, hsh⟩ := Option.map_eq_some_iff.mp hshare
  have hview : ((sys.server.handlesOf 1).view ⟨1, 1⟩).map OpenFile.path = some ['f'] := by
    decide +kernel
  obtain ⟨of, hof, hpath⟩ := Option.map_eq_some_iff.mp hview
  have hshare' : (treeOf sys'.server (createRequest 7 1 ['g'] 1 7 1 0)).map TreeConnection.share =
      some 1 := by decide +kernel
  obtain ⟨tree', htree', hsh'⟩ := Option.map_eq_some_iff.mp hshare'
  have hasks : AsksToOpen sys'.server (createRequest 7 1 ['g'] 1 7 1 0) tree' ['g'] := by
    refine ⟨rfl, htree', by decide +kernel, by decide +kernel, by decide +kernel, by decide +kernel,
      by decide +kernel, ?_⟩
    rw [hsh']
    decide +kernel
  have hagree := rename_create_agree_iff inodeView_posix inodeView_lexical _ _ _ _
    (sampleLogin false ++ [sent (createRequest 7 1 ['f'] 3 7 2 0)]) 0 _ sampleOracle ⟨1, 1⟩ ['g']
    tree of 0 1 (by decide +kernel) rfl (by decide +kernel) (by decide +kernel) htree
    (by rw [hsh]; exact hof)
    (by rw [hsh]; decide +kernel) (by rw [hpath]; decide +kernel) 0 _ sampleOracle tree' hasks
    (hsh'.trans hsh.symm)
  rw [hsh] at hagree
  refine (hagree.2 [['g']] (by decide) ?_ (by decide)).mpr ?_
  · simp only [List.mem_singleton, forall_eq]
    exact ⟨⟨by decide, by decide, by decide, by decide⟩, by decide⟩
  · rw [hpath]
    decide +kernel

/-- The directory `d` is there. A rename of `f` to `d\x` succeeds, and FILE_OPEN of
`d\x` is answered with STATUS_OBJECT_NAME_NOT_FOUND. -/
theorem renamed_object_not_found :
    let sys := System.run samplePlatform inodeSystem (sampleLogin false ++
      [sent (createRequest 7 1 ['d'] 1 7 2 1), sent (createRequest 7 1 ['f'] 3 7 2 0)])
    let name := ['d', '\\', 'x']
    let sys' := sys.step samplePlatform (sent (renameRequest 7 1 ⟨1, 2⟩ name))
    Succeeds samplePlatform 0 (renameRequest 7 1 ⟨1, 2⟩ name) sampleOracle sys.server ∧
      (processMessage samplePlatform 0 (createRequest 7 1 name 1 7 1 0) sampleOracle
        sys'.server).1.status = some NTStatus.objectNameNotFound.code ∧
      inodeView.look (inodeFs.content (sys'.server.disks 0)) name =
        inodeView.look (inodeFs.content (sys.server.disks 0)) ['f'] := by
  decide +kernel

end Smbfs
