import Smbfs.Properties.RenameNames

/-!
The spellings of a file name. CREATE checks the share modes under the path as it was
spelled, and lists the new handle under it; the path is not cleaned. So two names of
one file are checked against each other when both are spelled without redundant
separators, `.` and `..`.

* `createPath_eq_iff`: which names of a file have the same path;
* `spelling_checked_iff`: which CREATE requests for a file are checked against an open
  handle for it;
* `dot_name_not_checked`: two handles for one file, each for itself alone.
-/

namespace Smbfs

open Smbfs.Lib Smbfs.Lib.GoPath Relation

/-! ## Names -/

/-- The names denote one file of the share: with slashes and cleaned from the root
they are the same. -/
def SameFile (n m : Str) : Prop := clean ('/' :: slashed n) = clean ('/' :: slashed m)

instance (n m : Str) : Decidable (SameFile n m) := inferInstanceAs (Decidable (_ = _))

/-- A name that stands for the root, or has plain components only. -/
def NormalName (n : Str) : Prop := createPath n = ['/'] ∨ ∀ c ∈ components (createPath n), Plain c

variable {n m : Str}

theorem SameFile.location_eq (h : SameFile n m) :
    location (createPath n) = location (createPath m) := by
  have hloc := congrArg location h
  rw [location_clean, location_clean, location_slash, location_slash] at hloc
  rw [location_createPath, location_createPath, hloc]

theorem location_ne_nil {p : Str} (h : ∀ c ∈ components p, Plain c) : location p ≠ [] := by
  rw [location_of_plain h]
  exact fun hnil => List.splitOn_ne_nil '/' p (List.reverse_eq_nil_iff.mp hnil)

/-- **Spellings.** A name has the same path as a normal name of its file exactly if it
is normal itself. -/
theorem createPath_eq_iff (h : SameFile n m) (hn : NormalName n) :
    createPath m = createPath n ↔ NormalName m := by
  constructor
  · intro heq
    rw [NormalName, heq]
    exact hn
  · intro hm
    have hloc := h.location_eq
    rcases hn with hn | hn <;> rcases hm with hm | hm
    · rw [hn, hm]
    · rw [hn] at hloc
      exact absurd hloc.symm (location_ne_nil hm)
    · rw [hm] at hloc
      exact absurd hloc (location_ne_nil hn)
    · exact eq_of_location_eq hm hn hloc.symm

/-! ## Handles -/

variable {B : Backend} {P : Platform} {k : ConnId} {msg : SMB2Message} {o : Oracle}
  {sys : System B} {sh : ShareRef} {id : FileID} {path : Str}

/-- A handle that a CREATE has opened has the path of the request. -/
theorem opened_path (hwf : Tables sys.server) (hcmd : msg.cmd = .create)
    (hname : createFilename msg.payload = some path)
    (hbefore : (sys.server.handlesOf sh).view id = none) {of : B.OpenFile}
    (hv : ((sys.step P (.message k msg o)).server.handlesOf sh).view id = some of) :
    of.path = path := by
  refine step_message_invariant (P := P) (k := k) (o := o)
    (I := fun t => ∀ of, (t.handlesOf sh).view id = some of → of.path = path) hwf (fun _ _ h => h)
    ?_ (fun of hof => ?_) of hv
  · intro c t t' hc ht hpath of hof
    rcases hc.view_cases ht hof with hold | ⟨-, hnew⟩ | ⟨old, hold, r, tree, of', f, -, he, -, rfl⟩
    · exact hpath of hold
    · obtain ⟨r, tree, path', file, isDir, -, -, -, hname', -, rfl⟩ := hnew
      cases hname.symm.trans hname'
      rfl
    · cases he with
      | lastAccess => exact hpath old hold
      | deleteOnClose _ hset | path hset => cases hcmd.symm.trans hset
  · cases hbefore.symm.trans hof

/-- A handle that a CREATE has opened is listed under the path of the request as long
as it is open. -/
theorem opened_listed (h : Indexed sys.server) (hcmd : msg.cmd = .create)
    (hname : createFilename msg.payload = some path)
    (hbefore : (sys.server.handlesOf sh).view id = none)
    (hafter : ((sys.step P (.message k msg o)).server.handlesOf sh).view id ≠ none)
    (es : List Event)
    (hopen : (((sys.step P (.message k msg o)).run P es).server.handlesOf sh).view id ≠ none) :
    Indexed ((sys.step P (.message k msg o)).run P es).server ∧
      id ∈ (((sys.step P (.message k msg o)).run P es).server.handlesOf sh).idsForPath path := by
  obtain ⟨of, hof⟩ := Option.ne_none_iff_exists'.mp hafter
  obtain ⟨path', hlast, hmem⟩ := listed_step (P := P) h [] (absurd hbefore ·) _ hafter
  have hopening : opening P sh id sys (.message k msg o) = some of.path := by
    simp [opening, hbefore, hof]
  rw [hopening] at hlast
  cases hlast
  rw [opened_path h.tables hcmd hname hbefore hof] at hmem
  have hstep := h.step (P := P) (.message k msg o)
  obtain ⟨hrun, -, hl⟩ := hstep.listedUnder_run (P := P) (hstep.onShare sh id of hof).1
    ⟨(hstep.filed sh).ids_lt_next hmem, .inr hmem⟩ es
  exact ⟨hrun, hl.2.resolve_left hopen⟩

/-- A CREATE whose modes are not compatible with those of a handle that is listed under
its path is refused. -/
theorem create_refused {s : Server B} (hwf : Tables s) (hf : (s.handlesOf sh).Filed)
    {of : B.OpenFile} (hv : (s.handlesOf sh).view id = some of)
    (hmem : id ∈ (s.handlesOf sh).idsForPath path) (hcmd : msg.cmd = .create) {tree : TreeConnection}
    (htree : treeOf s msg = some tree) (hsh : tree.share = sh)
    (hwell : wellFormed msg.payload 56 57 = true) (hname : createFilename msg.payload = some path)
    (hmodes : checkShareCompatibility msg.create.desiredAccess
      msg.create.shareAccess of.access of.shareAccess = false) :
    (processMessage P k msg o s).1.status = some NTStatus.sharingViolation.code := by
  subst hsh
  obtain ⟨r, hsession, htree⟩ := Option.bind_eq_some_iff.mp htree
  have hcheck : ¬ (s.handlesOf tree.share).checkShareAccess path msg.create.desiredAccess
      msg.create.shareAccess = true := by
    intro hcheck
    obtain ⟨ref, href, hheap⟩ := FileHandleMap.view_eq_some.mp hv
    have hall := FileHandleMap.checkShareAccess_iff.mp hcheck id.volatile (hf.mem_idsForPath.mp hmem).1
    rw [← (hwf.handles tree.share).ref_eq id ref href, hheap, hmodes] at hall
    cases hall
  have hrun := run_handleCreate (o := o) ⟨hsession, htree⟩ hwell hname
  rw [if_neg hcheck] at hrun
  obtain ⟨resp, hresp, hstatus⟩ := processMessage_error (P := P) (k := k)
    (routedTo_create hcmd) hrun
  rw [hresp]
  exact congrArg some hstatus

/-- **Share modes and spellings.** A CREATE for the normal name `n` has opened a
handle, which is open after the events `post`, with fewer than 2^64 allocations per
share. For every name `m` of the same file: CREATE for `m` uses the same path, and is
checked against the handle, exactly if `m` is normal; in that case it is refused if
its modes are not compatible. -/
theorem spelling_checked_iff (P : Platform) (options : ServerOptions) (rand : Bytes)
    (disks : FsRef → B.Disk) (pre post : List Event) (k : ConnId) (msg : SMB2Message) (o : Oracle) :
    let sys₀ := System.run P (.initial options rand disks) pre
    let sys₁ := sys₀.step P (.message k msg o)
    let sys := sys₁.run P post
    ∀ n m sh id of, msg.cmd = .create → createName msg.payload = some n →
      (sys₀.server.handlesOf sh).view id = none → (sys₁.server.handlesOf sh).view id ≠ none →
      (sys.server.handlesOf sh).view id = some of → SameFile n m → NormalName n →
      (createPath m = createPath n ↔ NormalName m) ∧
      (id ∈ (sys.server.handlesOf sh).idsForPath (createPath m) ↔ NormalName m) ∧
      ∀ k' msg' o' tree, msg'.cmd = .create → treeOf sys.server msg' = some tree →
        tree.share = sh → wellFormed msg'.payload 56 57 = true →
        createName msg'.payload = some m → NormalName m →
        checkShareCompatibility (CreateRequest.ofPayload msg'.payload).desiredAccess
          (CreateRequest.ofPayload msg'.payload).shareAccess of.access of.shareAccess = false →
        (processMessage P k' msg' o' sys.server).1.status = some NTStatus.sharingViolation.code := by
  intro sys₀ sys₁ sys n m sh id of hcmd hname hbefore hafter hof hsame hn
  have hkey := createPath_eq_iff hsame hn
  have hfilename : createFilename msg.payload = some (createPath n) := by
    rw [createFilename_eq, hname]
    rfl
  obtain ⟨hindexed, hmem⟩ := opened_listed (P := P) (k := k) (o := o)
    (openedAs_listed P sh id options rand disks pre).1 hcmd hfilename hbefore
    hafter post (by rw [hof]; exact Option.some_ne_none of)
  refine ⟨hkey, ⟨fun hlisted => hkey.mp ((hindexed.filed sh).ids_path_eq hlisted hmem), fun hm => ?_⟩,
    fun k' msg' o' tree hcmd' htree hsh hwell hname' hm hmodes => ?_⟩
  · rw [hkey.mpr hm]
    exact hmem
  · refine create_refused hindexed.tables (hindexed.filed sh) hof hmem hcmd' htree hsh hwell ?_ hmodes
    rw [createFilename_eq, hname', Option.map_some, hkey.mpr hm]

/-- A leading backslash does not matter: the second CREATE is refused. -/
theorem spelling_checked_backslash :
    let sys := (System.run samplePlatform inodeSystem (sampleLogin false)).step samplePlatform
      (sent (createRequest 7 1 ['f'] 3 0 2 0))
    (processMessage samplePlatform 0 (createRequest 7 1 ['\\', 'f'] 3 0 1 0) sampleOracle
      sys.server).1.status = some NTStatus.sharingViolation.code := by
  intro sys
  have hshare : (treeOf sys.server (createRequest 7 1 ['\\', 'f'] 3 0 1 0)).map
      TreeConnection.share = some 1 := by decide +kernel
  obtain ⟨tree, htree, hsh⟩ := Option.map_eq_some_iff.mp hshare
  have hview : ((sys.server.handlesOf 1).view ⟨1, 1⟩).map
      (fun of => (of.access, of.shareAccess)) = some (3, 0) := by decide +kernel
  obtain ⟨of, hof, hmodes⟩ := Option.map_eq_some_iff.mp hview
  obtain ⟨haccess, hshareAccess⟩ := Prod.mk.inj hmodes
  have hf : ∀ c ∈ components ['f'], Plain c := by
    rw [show components ['f'] = [['f']] by decide]
    simp only [List.mem_singleton, forall_eq]
    exact ⟨by decide, by decide, by decide, by decide⟩
  have hchecked := spelling_checked_iff _ _ _ _ (sampleLogin false) [] 0 _ sampleOracle ['f']
    ['\\', 'f'] 1 ⟨1, 1⟩ of rfl (by decide +kernel) (by decide +kernel)
    (by rw [← Option.isSome_iff_ne_none]; decide +kernel) hof (by decide +kernel) (.inr hf)
  refine hchecked.2.2 0 _ sampleOracle tree rfl htree hsh (by decide +kernel) (by decide +kernel)
    (.inr hf) ?_
  rw [haccess, hshareAccess]
  decide +kernel

/-- `f` is open for reading and writing by a handle that shares nothing, and so it is
once more under the name `.\f`. -/
theorem dot_name_not_checked :
    let sys := System.run samplePlatform inodeSystem
      (sampleLogin false ++ [sent (createRequest 7 1 ['f'] 3 0 2 0)])
    let name := ['.', '\\', 'f']
    let sys' := sys.step samplePlatform (sent (createRequest 7 1 name 3 0 1 0))
    SameFile ['f'] name ∧
      Succeeds samplePlatform 0 (createRequest 7 1 name 3 0 1 0) sampleOracle sys.server ∧
      checkShareCompatibility 3 0 3 0 = false ∧
      ([(⟨1, 1⟩ : FileID), ⟨1, 2⟩].map fun id => ((sys'.server.handlesOf 1).view id).bind fun of =>
        of.file.bind fun f => inodeView.opened (sys'.server.disks f.1) f.2) = [some 1, some 1] := by
  decide +kernel

end Smbfs
