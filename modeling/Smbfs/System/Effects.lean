import Smbfs.System.FirstCall
import Smbfs.System.Release
import Smbfs.System.Setup

/-!
Every handler only makes the changes of `Change`.

* `route_runs`: whatever the command, a request takes the server from the
  state it finds to the state it leaves by a chain of its changes.
-/

namespace Smbfs

open Smbfs.Lib Relation

variable {B : Backend} {P : Platform} {k : ConnId} {msg : SMB2Message} {o : Oracle}
  {s0 s : Server B} {α : Type} {Q : α → Server B → Prop}
  {r : SessionRef} {tree : TreeConnection} {id : FileID} {of : B.OpenFile}

/-- The program makes no changes but those of the request, and stops early only
with an error or where it panics. -/
abbrev Handled (P : Platform) (k : ConnId) (msg : SMB2Message) (o : Oracle) (s0 : Server B)
    (m : M B α) (s : Server B) (Q : α → Server B → Prop) : Prop :=
  Runs (Write P k msg o s0) (Exit msg s0) m s Q

abbrev OnlyWrites (P : Platform) (k : ConnId) (msg : SMB2Message) (o : Oracle) (s0 : Server B)
    (m : M B α) (s : Server B) : Prop :=
  Handled P k msg o s0 m s fun _ _ => True

theorem mapGoErrorToNTStatus_ne_success (err : GoError) : mapGoErrorToNTStatus err ≠ .success := by
  unfold mapGoErrorToNTStatus
  repeat' split
  all_goals decide

/-! ## Validation -/

variable {f : Unit → M B α}

section Validation

variable {R : Server B → Server B → Prop} {E : Stop → Prop}

theorem bind_shareFs {sh : ShareRef} {f : FsRef → M B α}
    (hE : (s.shareHeap sh).fs = none → E .crash)
    (h : ∀ fs, (s.shareHeap sh).fs = some fs → Runs R E (f fs) s Q) :
    Runs R E (shareFs sh >>= f) s Q := by
  unfold Runs
  rw [run_shareFs_bind]
  cases hfs : (s.shareHeap sh).fs with
  | none => exact ⟨.refl, hE hfs⟩
  | some fs => exact h fs hfs

theorem postQuery_calls {flags : UInt16} (hE : E .crash) (hR : ∀ fs c, R s (s.exec fs c)) :
    Runs R E (postQuery flags of) s fun _ _ => True := by
  unfold postQuery
  split
  · exact M.bind_deref (fun _ => hE) fun f _ => M.bind_call (hR _ _) fun _ => .pure trivial
  · exact .pure trivial

variable [Errs E]

theorem bind_validateSession {f : SessionRef → M B α}
    (h : ∀ r, s0.sessions.validateSession msg.header.sessionID = some r → Runs R E (f r) s0 Q) :
    Runs R E (validateSession msg.header >>= f) s0 Q := by
  unfold Runs
  rw [run_validateSession_bind]
  cases hv : s0.sessions.validateSession msg.header.sessionID with
  | none => exact ⟨.refl, Errs.status nofun⟩
  | some r => exact h r hv

theorem bind_validateTree {f : SessionRef × TreeConnection → M B α}
    (h : ∀ r tree, Auth s0 msg r tree → Runs R E (f (r, tree)) s0 Q) :
    Runs R E (validateTree msg.header >>= f) s0 Q := by
  rw [validateTree, bind_assoc]
  refine bind_validateSession fun r hr => ?_
  rw [bind_assoc]
  apply M.bind_get
  rw [bind_assoc]
  exact M.bind_require (by decide) fun tree htree => h r tree ⟨hr, htree⟩

theorem bind_checkRequest {payload : Bytes} {n : Nat} {size : UInt16}
    (h : wellFormed payload n size = true → Runs R E (f ()) s Q) :
    Runs R E (checkRequest payload n size >>= f) s Q := by
  unfold Runs
  rw [run_checkRequest_bind]
  by_cases hwell : wellFormed payload n size = true
  · rw [if_pos hwell]
    exact h hwell
  · rw [if_neg hwell]
    exact ⟨.refl, Errs.status nofun⟩

theorem bind_getByTree (hauth : Auth s0 msg r tree) {f : HandleRef × B.OpenFile → M B α}
    (h : ∀ ref of, Target s0 msg r tree id of →
      (s0.handlesOf tree.share).handles.lookup id = some ref → Runs R E (f (ref, of)) s0 Q) :
    Runs R E (getByTree r tree id >>= f) s0 Q := by
  unfold Runs
  rw [run_getByTree_bind]
  cases href : (s0.handlesOf tree.share).getByTree id tree.id (s0.sessions.heap r).id with
  | none => exact ⟨.refl, Errs.status nofun⟩
  | some ref =>
    obtain ⟨hl, ht, hs⟩ := FileHandleMap.getByTree_eq_some href
    exact h ref _ ⟨hauth, FileHandleMap.view_eq_some.mpr ⟨ref, hl, rfl⟩, ht, hs⟩ hl

theorem onHandle_runs {n : Nat} {size : UInt16} {Q : Reply → Server B → Prop}
    {f : TreeConnection → HandleRef × B.OpenFile → M B Reply}
    (h : ∀ r tree ref of, Target s0 msg r tree id of →
      (s0.handlesOf tree.share).handles.lookup id = some ref →
      wellFormed msg.payload n size = true → Runs R E (f tree (ref, of)) s0 Q) :
    Runs R E (onHandle msg n size id f) s0 Q :=
  bind_validateTree fun r tree hauth => bind_checkRequest fun hwell =>
    bind_getByTree hauth fun ref of ht href => h r tree ref of ht href hwell

/-- An exit with an error. -/
def Stop.Fails : Stop → Prop
  | .status st => st ≠ .success
  | .crash => False

instance : Errs Stop.Fails := ⟨fun h => h⟩

/-- A program that neither returns nor panics stops with an error. -/
theorem M.stops {τ : Type} {g : Server B → τ} {m : M B α}
    (h : Runs (fun s s' => g s' = g s) Stop.Fails m s fun _ _ => False) :
    ∃ st s', st ≠ .success ∧ m s = .error (.status st) s' ∧ g s' = g s := by
  have hsame := h.keeps fun _ _ h => h
  cases hrun : m s with
  | ok a s' => exact (h.post hrun).elim
  | error e s' =>
    rw [hrun] at hsame
    have hfails := h.exit hrun
    cases e with
    | status st => exact ⟨st, s', hfails, rfl, hsame⟩
    | crash => exact hfails.elim

theorem M.stops_same {m : M B α} (h : Runs (fun s s' => s' = s) Stop.Fails m s fun _ _ => False) :
    ∃ st, st ≠ .success ∧ m s = .error (.status st) s := by
  obtain ⟨st, s', hst, hrun, rfl⟩ := M.stops (g := fun s => s) h
  exact ⟨st, hst, hrun⟩

end Validation

theorem bind_updateLastAccess (ht : Target s0 msg r tree id of)
    (h : Handled P k msg o s0 (f ())
      (s.modifyHandles tree.share fun m => m.updateLastAccess id o.now) Q) :
    Handled P k msg o s0 (updateLastAccess tree.share id o >>= f) s Q :=
  M.bind_modify (.handles fun _ => .edit ht .lastAccess) h

/-! ## Calls on the file of a handle -/

section Handle

variable (ht : Target s0 msg r tree id of)

include ht

theorem bind_handleCall {f : FileObj B} (hof : of.file = some f) {c : FsCall B.File}
    (hfile : c.file? = some f.2) (hro : c.mutates = true → tree.isReadOnly = false)
    {g : c.Reply → M B α} (h : ∀ a s', Handled P k msg o s0 (g a) s' Q) :
    Handled P k msg o s0 (M.call f.1 c >>= g) s Q :=
  M.bind_call (.call (.handle ht hof hfile hro) (by simp [FsCall.isRemove_eq_false hfile]))
    fun a => h a _

theorem seekStart_runs (offset : UInt64) :
    OnlyWrites P k msg o s0 (seekStart of.file offset) s := by
  unfold seekStart
  cases hof : of.file with
  | none => exact .pure trivial
  | some f =>
    simp only
    split
    · refine bind_handleCall ht hof rfl (by simp [FsCall.mutates]) fun a s' => ?_
      split
      · exact .pure trivial
      · exact .throw (mapGoErrorToNTStatus_ne_success _)
    · exact .pure trivial

theorem currentOffset_runs : OnlyWrites P k msg o s0 (currentOffset of) s := by
  unfold currentOffset
  cases hof : of.file with
  | none => exact .pure trivial
  | some f =>
    simp only
    split
    · exact bind_handleCall ht hof rfl (by simp [FsCall.mutates]) fun _ _ => .pure trivial
    · exact .pure trivial

end Handle

/-! ## READ, WRITE, FLUSH -/

theorem checkRead_runs (data : Bytes) (err : Option GoError) :
    OnlyWrites P k msg o s0 (checkRead data err) s := by
  unfold checkRead
  split
  · split
    · exact M.failIf_runs _ nofun
    · exact .throw (mapGoErrorToNTStatus_ne_success _)
  · exact M.failIf_runs _ nofun

theorem handleRead_runs : OnlyWrites P k msg o s0 (handleRead msg o) s0 := by
  refine onHandle_runs fun r tree ref of ht _ _ => ?_
  refine bind_updateLastAccess ht <| M.bind_get <| (seekStart_runs ht _).bind fun _ s _ => ?_
  refine M.bind_deref (.file ht) fun f hof => ?_
  refine bind_handleCall ht hof rfl (by simp [FsCall.mutates]) fun a s => ?_
  exact (checkRead_runs _ _).bind fun _ _ _ => .pure trivial

theorem handleWrite_runs : OnlyWrites P k msg o s0 (handleWrite msg o) s0 := by
  refine onHandle_runs fun r tree ref of ht _ _ => ?_
  refine M.bind_failIf nofun fun hro => ?_
  refine M.bind_failIf nofun fun _ => ?_
  refine bind_updateLastAccess ht ?_
  refine M.bind_require nofun fun data _ => ?_
  refine (seekStart_runs ht _).bind fun _ s _ => ?_
  refine M.bind_deref (.file ht) fun f hof => ?_
  refine bind_handleCall ht hof rfl (fun _ => hro) fun a s => ?_
  split
  unfold writeReply
  split
  · exact .throw (mapGoErrorToNTStatus_ne_success _)
  · exact .pure trivial

theorem handleFlush_runs : OnlyWrites P k msg o s0 (handleFlush msg) s0 := by
  refine onHandle_runs fun r tree ref of ht _ _ => ?_
  dsimp only
  cases hof : of.file with
  | none => exact .pure trivial
  | some f =>
    dsimp only
    split
    · refine bind_handleCall ht hof rfl (by simp [FsCall.mutates]) fun a s => ?_
      split
      · exact .throw (mapGoErrorToNTStatus_ne_success _)
      · exact .pure trivial
    · exact .pure trivial

/-! ## QUERY_INFO, SET_INFO -/

section Info

variable (ht : Target s0 msg r tree id of)

include ht

theorem queryFileInfo_runs (fileInfoClass : UInt8) :
    OnlyWrites P k msg o s0 (queryFileInfo o of fileInfoClass) s := by
  unfold queryFileInfo
  refine M.bind_deref (.file ht) fun f hof => ?_
  refine bind_handleCall ht hof rfl (by simp [FsCall.mutates]) fun a s => ?_
  split
  · exact .throw nofun
  · split
    case h_6 | h_7 => exact (currentOffset_runs ht).bind fun _ _ _ => .pure trivial
    case h_10 => exact .throw nofun
    all_goals exact .pure trivial

theorem queryInfoBuffer_runs (req : QueryInfoRequest) :
    OnlyWrites P k msg o s0 (queryInfoBuffer o of req) s := by
  unfold queryInfoBuffer
  split
  · exact queryFileInfo_runs ht _
  · exact M.require_runs _ nofun
  all_goals exact .throw nofun

omit ht in
theorem handleQueryInfo_runs : OnlyWrites P k msg o s0 (handleQueryInfo msg o) s0 := by
  unfold handleQueryInfo
  refine onHandle_runs fun r tree ref of ht _ _ => ?_
  refine bind_updateLastAccess ht <| (queryInfoBuffer_runs ht _).bind fun buffer s _ => ?_
  split
  · exact .pure trivial
  · exact .pure trivial

section

variable (hro : tree.isReadOnly = false)

include hro

theorem setModTime_runs (lastWriteTime : UInt64) :
    OnlyWrites P k msg o s0 (setModTime of lastWriteTime) s := by
  unfold setModTime
  split
  · split
    · exact .pure trivial
    · next f hof =>
      split
      · exact bind_handleCall ht hof rfl (fun _ => hro) fun _ _ => M.failIf_runs _ nofun
      · exact .pure trivial
  · exact .pure trivial

theorem setMode_runs (fileAttributes : UInt32) :
    OnlyWrites P k msg o s0 (setMode of fileAttributes) s := by
  unfold setMode
  split
  · split
    · exact .pure trivial
    · next f hof =>
      split
      · exact bind_handleCall ht hof rfl (fun _ => hro) fun _ _ => .pure trivial
      · exact .pure trivial
  · exact .pure trivial

theorem setFileBasicInformation_runs (buffer : Bytes) :
    OnlyWrites P k msg o s0 (setFileBasicInformation of buffer) s := by
  unfold setFileBasicInformation
  refine M.bind_failIf nofun fun _ => ?_
  exact (setModTime_runs ht hro _).bind fun _ _ _ => setMode_runs ht hro _

theorem setFileEndOfFileInformation_runs (buffer : Bytes) :
    OnlyWrites P k msg o s0 (setFileEndOfFileInformation of buffer) s := by
  unfold setFileEndOfFileInformation
  refine M.bind_failIf nofun fun _ => ?_
  dsimp only
  split
  · exact .throw nofun
  · next f hof =>
    split
    · exact bind_handleCall ht hof rfl (fun _ => hro) fun _ _ => M.failIf_runs _ nofun
    · exact .throw nofun

end

theorem setFileDispositionInformation_runs (hcmd : msg.cmd = .setInfo)
    (hro : tree.isReadOnly = false) (buffer : Bytes) :
    OnlyWrites P k msg o s0 (setFileDispositionInformation tree.share of buffer) s := by
  unfold setFileDispositionInformation
  refine M.bind_failIf nofun fun _ => ?_
  refine (M.modify_runs (.handles fun hwf => ?_)).mono fun _ _ _ => trivial
  rw [(hwf _).view_id ht.view_eq]
  exact .edit ht (.deleteOnClose _ hcmd hro)

/-- A write through the address that `GetByTree` returned. -/
theorem editRef {ref : HandleRef} {f : B.OpenFile → B.OpenFile}
    (he : Edit msg o tree id of f) (href : (s.handlesOf tree.share).handles.lookup id = some ref) :
    Change P k msg o s0 s (s.modifyHandles tree.share fun m => m.modify ref f) := by
  have h : s.modifyHandles tree.share (fun m => m.modify ref f) =
      s.modifyHandles tree.share fun m => m.modifyID id f :=
    Server.modifyHandles_congr (FileHandleMap.modify_eq_modifyID href f)
  rw [h]
  exact .edit ht he

section

variable {ref : HandleRef} {buffer : Bytes} (hcmd : msg.cmd = .setInfo)
  (hro : tree.isReadOnly = false) (hfs : (s.shareHeap tree.share).fs = (s0.shareHeap tree.share).fs)
  (href : (s.handlesOf tree.share).handles.lookup id = some ref)

include hcmd hro hfs href

theorem setFileRenameInformation_runs
    (hname : ∀ x, 20 ≤ buffer.length → readRenameInformation.parse buffer = some x →
      renameTarget msg.payload = some (id, x.2)) :
    OnlyWrites P k msg o s0 (setFileRenameInformation tree.share ref of buffer) s := by
  unfold setFileRenameInformation
  refine M.bind_failIf nofun fun hlen => M.bind_require nofun fun x hx => ?_
  have hname := hname x (by simpa using hlen) hx
  refine bind_shareFs (fun hnone => .share ht (hfs ▸ hnone)) fun fs hfs' => ?_
  rw [hfs] at hfs'
  refine M.bind_call (.call (.rename ht hcmd hro hname hfs' rfl (by simp [FsCall.paths])) nofun) ?_
  intro a
  refine M.bind_failIf nofun fun _ => M.bind_get ?_
  split
  · refine M.bind_call (.call (.rename ht hcmd hro hname hfs' rfl (by simp [FsCall.paths])) nofun) ?_
    intro a
    split
    · exact .throw (by split <;> nofun)
    · refine (M.modify_runs ?_).mono fun _ _ _ => trivial
      exact .handles fun _ => editRef ht (.path hcmd hro hname) href
  · exact .throw nofun

theorem setInfo_runs (hreq : msg.setInfo.fileID = id)
    (hbuffer : setInfoBuffer msg.payload = some buffer) :
    OnlyWrites P k msg o s0 (setInfo tree.share ref of msg.setInfo buffer) s := by
  unfold setInfo
  split
  · next htype =>
    unfold setFileInfo
    split
    · exact setFileBasicInformation_runs ht hro buffer
    · exact setFileDispositionInformation_runs ht hcmd hro buffer
    · next hclass =>
      refine setFileRenameInformation_runs ht hcmd hro hfs href fun x hlen hx => ?_
      simp only [renameTarget, htype, hclass, hbuffer, hx, Nat.not_lt.mpr hlen, if_false,
        Option.map_some, hreq]
    · exact setFileEndOfFileInformation_runs ht hro buffer
    · exact .throw nofun
  all_goals exact .throw nofun

end

omit ht in
theorem handleSetInfo_runs (hcmd : msg.cmd = .setInfo) :
    OnlyWrites P k msg o s0 (handleSetInfo msg o) s0 := by
  refine onHandle_runs fun r tree ref of ht href _ => ?_
  refine M.bind_failIf nofun fun hro => ?_
  refine bind_updateLastAccess ht <| M.bind_require nofun fun buffer hbuffer => ?_
  refine (setInfo_runs ht hcmd hro ?_ ?_ rfl hbuffer).bind fun _ _ _ => .pure trivial
  · exact Server.modifyHandles_fs _ _ _ _
  · rw [Server.handlesOf_modifyHandles, if_pos rfl, FileHandleMap.updateLastAccess,
      FileHandleMap.modifyID_handles]
    exact href

end Info

/-! ## QUERY_DIRECTORY -/

theorem bind_storeDirState (hcmd : msg.cmd = .queryDirectory) {d : DirEnumState}
    (h : ∀ s, Handled P k msg o s0 (f ()) s Q) :
    Handled P k msg o s0 (storeDirState id d >>= f) s Q :=
  M.bind_modify (.dirState id d hcmd) (h _)

theorem readDirEntries_runs (ht : Target s0 msg r tree id of) :
    OnlyWrites P k msg o s0 (readDirEntries of) s := by
  unfold readDirEntries
  refine M.bind_deref (.file ht) fun f hof => ?_
  refine bind_handleCall ht hof rfl (by simp [FsCall.mutates]) fun a s => ?_
  split
  split
  · split
    · exact .pure trivial
    · exact .pure trivial
  · exact .pure trivial

theorem cachedEntries_runs (hcmd : msg.cmd = .queryDirectory) (ht : Target s0 msg r tree id of)
    (d : DirEnumState) (stored : Bool) : OnlyWrites P k msg o s0 (cachedEntries of d stored) s := by
  unfold cachedEntries
  split
  · refine (readDirEntries_runs ht).bind fun entries s _ => ?_
    split
    · exact .pure trivial
    · split
      · exact bind_storeDirState hcmd fun _ => .throw nofun
      · exact .throw nofun
  · exact .pure trivial

theorem fillDirBuffer_error {req : QueryDirectoryRequest} {position : Nat}
    {entries : List FileInfo} {w w' : DirBuffer} {st : NTStatus}
    (h : fillDirBuffer req position entries w = (some st, w')) : st ≠ .success := by
  fun_induction fillDirBuffer req position entries w with
  | case1 | case4 => cases h
  | case2 =>
    cases h
    nofun
  | case3 =>
    split at h <;> cases h
    nofun
  | case5 _ _ _ _ _ _ _ ih => exact ih h

theorem answerFromEntries_runs (hcmd : msg.cmd = .queryDirectory) (req : QueryDirectoryRequest)
    (d : DirEnumState) : OnlyWrites P k msg o s0 (answerFromEntries P of req d) s := by
  unfold answerFromEntries
  refine M.bind_deref (fun _ => .slice (.inr hcmd)) fun rest _ => ?_
  dsimp only
  split
  · exact bind_storeDirState hcmd fun _ => .throw nofun
  · split
    · next hfill => exact bind_storeDirState hcmd fun _ => .throw (fillDirBuffer_error hfill)
    · exact bind_storeDirState hcmd fun _ => .pure trivial

theorem handleQueryDirectory_runs (hcmd : msg.cmd = .queryDirectory) :
    OnlyWrites P k msg o s0 (handleQueryDirectory P msg) s0 := by
  refine onHandle_runs fun r tree ref of ht _ _ => ?_
  refine M.bind_failIf nofun fun _ => M.bind_get ?_
  dsimp only
  split
  · exact bind_storeDirState hcmd fun _ => .throw nofun
  · exact (cachedEntries_runs hcmd ht _ _).bind fun d s _ => answerFromEntries_runs hcmd _ d

/-! ## Releasing handles -/

/-- The steps `Release` takes for a handle with record `of`. -/
def CanRelease (R : Server B → Server B → Prop) (sh : ShareRef) (id : FileID)
    (of : B.OpenFile) : Prop :=
  (∀ t : Server B, R t (t.modifyHandles sh fun m => m.release id)) ∧
    ∀ f (t : Server B), of.file = some f → R t (t.exec f.1 (.close f.2))

section Release

variable {R : Server B → Server B → Prop} {E : Stop → Prop} {sh : ShareRef}

theorem release_runs (h : ∀ of, (s.handlesOf sh).view id = some of → CanRelease R sh id of) :
    Runs R E (release sh id) s fun _ _ => True := by
  unfold release
  apply M.bind_get
  cases hv : (s.handlesOf sh).view id with
  | none => exact .pure trivial
  | some of =>
    obtain ⟨hrel, hclose⟩ := h of hv
    refine M.bind_modify (hrel s) ?_
    cases hof : of.file with
    | none => exact .pure trivial
    | some f => exact (M.call_runs (hclose f _ hof)).mono fun _ _ _ => trivial

theorem releaseAll_runs {ids : List FileID}
    (h : ∀ id ∈ ids, ∀ of, (s.handlesOf sh).view id = some of → CanRelease R sh id of) :
    Runs R E (releaseAll sh ids) s fun _ _ => True := by
  induction ids generalizing s with
  | nil => exact .pure trivial
  | cons id ids ih =>
    rw [List.forall_mem_cons] at h
    refine (release_releases sh id).bind_runs (release_runs h.1) fun _ s1 hs1 _ => ?_
    exact ih fun id' hid' of hv => h.2 id' hid' of (hs1.view sh id' of hv)

/-- The handles with `q` are released. -/
theorem releaseOwned_runs {q : B.OpenFile → Prop} {ids : List FileID}
    (hids : ∀ id, id ∈ ids ↔ ∃ of, (s.handlesOf sh).view id = some of ∧ q of)
    (h : ∀ id of, (s.handlesOf sh).view id = some of → q of → CanRelease R sh id of) :
    Runs R E (releaseAll sh ids) s fun _ _ => True := by
  refine releaseAll_runs fun id hid of hv => ?_
  obtain ⟨of', hv', hq⟩ := (hids id).mp hid
  cases hv.symm.trans hv'
  exact h id of hv hq

theorem releaseByTree_runs {treeID : UInt32}
    (h : ∀ id of, (s.handlesOf sh).view id = some of → of.treeID = treeID →
      of.sessionID = sessionID → CanRelease R sh id of) :
    Runs R E (releaseByTree sh treeID sessionID) s fun _ _ => True :=
  M.bind_get <| releaseOwned_runs (fun _ => FileHandleMap.mem_idsByTree)
    fun id of hv hq => h id of hv hq.1 hq.2

theorem releaseBySession_runs
    (h : ∀ id of, (s.handlesOf sh).view id = some of → of.sessionID = sessionID →
      CanRelease R sh id of) : Runs R E (releaseBySession sh sessionID) s fun _ _ => True :=
  M.bind_get <| releaseOwned_runs (fun _ => FileHandleMap.mem_idsBySession) h

theorem releaseTrees_runs (trees : List TreeConnection)
    (h : ∀ t ∈ trees, ∀ id of, (s.handlesOf t.share).view id = some of →
      of.sessionID = sessionID → CanRelease R t.share id of) :
    Runs R E (releaseTrees sessionID trees) s fun _ _ => True := by
  induction trees generalizing s with
  | nil => exact .pure trivial
  | cons t trees ih =>
    rw [List.forall_mem_cons] at h
    refine (releaseByTree_releases t.share t.id sessionID).bind_runs
      (releaseByTree_runs fun id of hv _ => h.1 id of hv) fun _ s1 hs1 _ => ?_
    exact ih fun t ht id of hv => h.2 t ht id of (hs1.view _ _ _ hv)

end Release

/-- A request may release the handles that are `Mine`. -/
theorem canRelease_of_mine {sh : ShareRef} (hview : (s0.handlesOf sh).view id = some of)
    (hmine : Mine s0 msg sh of) (hcmd : msg.cmd.releases = true) :
    CanRelease (Write P k msg o s0) sh id of :=
  ⟨fun _ => .handles fun _ => .release hview hmine hcmd,
    fun _ _ hof => .call (.closed hview hmine hof) nofun⟩

/-! ## CLOSE, TREE_DISCONNECT, LOGOFF -/

theorem Target.mine (ht : Target s0 msg r tree id of) : Mine s0 msg tree.share of :=
  ⟨r, ht.session_eq, ht.sessionID_eq, .inr ⟨tree, ht.tree_eq, rfl, ht.treeID_eq⟩⟩

theorem postQuery_runs (ht : Target s0 msg r tree id of) (flags : UInt16) (hs : FsOnly s0 s) :
    Handled P k msg o s0 (postQuery flags of) s fun _ s' => FsOnly s0 s' := by
  unfold postQuery
  split
  · refine M.bind_deref (.file ht) fun f hof => ?_
    refine M.bind_call (.call (.handle ht hof rfl (by simp [FsCall.mutates])) nofun) fun a => ?_
    exact .pure (hs.exec _ _)
  · exact .pure hs

theorem handleClose_runs (hcmd : msg.cmd = .close) :
    OnlyWrites P k msg o s0 (handleClose msg) s0 := by
  refine onHandle_runs fun r tree ref of ht _ _ => ?_
  refine (postQuery_runs ht _ (.refl s0)).bind fun info s hs => ?_
  obtain ⟨d, l, rfl⟩ := hs
  refine (release_releases _ _).bind_runs (release_runs fun of' hv => ?_) fun _ s' hs' _ => ?_
  · cases hv.symm.trans ht.view_eq
    exact canRelease_of_mine ht.view_eq ht.mine (by rw [hcmd]; rfl)
  · unfold closeReleased
    split
    · next hdel =>
      refine bind_shareFs (fun hnone => .share ht (hs'.fs _ ▸ hnone)) fun fs hfs => ?_
      rw [hs'.fs] at hfs
      refine M.bind_call (.call (.removed ht hcmd hdel hfs) fun _ => hcmd) fun a => ?_
      exact .pure trivial
    · exact .pure trivial

theorem handleTreeDisconnect_runs (hcmd : msg.cmd = .treeDisconnect) :
    OnlyWrites P k msg o s0 (handleTreeDisconnect msg) s0 := by
  unfold handleTreeDisconnect
  refine bind_validateTree fun r tree hauth => M.bind_get ?_
  refine (releaseByTree_releases _ _ _).bind_runs (releaseByTree_runs fun id of hv ht hs => ?_)
    fun _ s' hs' hgone => ?_
  · exact canRelease_of_mine hv
      ⟨r, hauth.session_eq, hs, .inr ⟨tree, hauth.tree_eq, rfl, ht⟩⟩ (by rw [hcmd]; rfl)
  · refine M.bind_modify (.sessions (.removeTree hcmd hauth hs'.sessions fun id of hv => ?_))
      (.pure trivial)
    simpa [OpenFile.inTree] using hgone _ id of hv

theorem handleLogoff_runs (hcmd : msg.cmd = .logoff) :
    OnlyWrites P k msg o s0 (handleLogoff k msg) s0 := by
  unfold handleLogoff
  refine bind_validateSession fun r hr => bind_checkRequest fun _ => M.bind_get ?_
  refine (releaseTrees_releases _ _).bind_runs (releaseTrees_runs _ fun t _ id of hv hsid => ?_)
    fun _ s' hs' hgone => ?_
  · exact canRelease_of_mine hv ⟨r, hr, hsid, .inl hcmd⟩ (by rw [hcmd]; rfl)
  refine M.bind_modify (.sessions (.logoff hcmd hr hs'.sessions fun t ht id of hv hof => ?_)) ?_
  · have hnone := List.any_eq_false.mp (hgone _ id of hv) t ht
    simp [OpenFile.inTree, hof] at hnone
  exact M.bind_modify (.conn _ (by rw [hcmd]; rfl)) (.pure trivial)

/-! ## TREE_CONNECT, NEGOTIATE -/

theorem handleTreeConnect_runs (hcmd : msg.cmd = .treeConnect) :
    OnlyWrites P k msg o s0 (handleTreeConnect msg o) s0 := by
  unfold handleTreeConnect
  refine bind_validateSession fun r hr => bind_checkRequest fun _ => ?_
  refine M.bind_require nofun fun shareName _ => M.bind_failIf nofun fun _ => M.bind_get ?_
  refine M.bind_require nofun fun sh hsh => M.bind_failIf nofun fun haccess => ?_
  exact M.bind_modify (.sessions (.addTree hcmd hr hsh (by simpa using haccess))) (.pure trivial)

theorem handleNegotiate_runs (hcmd : msg.cmd = .negotiate) :
    OnlyWrites P k msg o s0 (handleNegotiate k msg o) s0 := by
  unfold handleNegotiate
  apply M.bind_get
  dsimp only
  split
  · exact .pure trivial
  · refine bind_checkRequest fun _ => M.bind_require nofun fun dialects _ => ?_
    refine M.bind_failIf nofun fun _ => M.bind_failIf nofun fun _ => ?_
    exact M.bind_modify (.conn _ (by rw [hcmd]; rfl)) (.pure trivial)

/-! ## CREATE -/

section Create

variable {filename : Str} {fs : FsRef}
  (hauth : Auth s0 msg r tree) (hcmd : msg.cmd = .create)
  (hname : createFilename msg.payload = some filename)
  (hfs : (s0.shareHeap tree.share).fs = some fs) (hs : FsOnly s0 s)

include hauth hcmd hname hfs hs

/-- A call of CREATE on the path it names. -/
theorem pathCall_runs {c : FsCall B.File} (hfile : c.file? = none) (hpaths : c.paths = [filename])
    (hremove : c.isRemove = false) (hro : c.mutates = true → tree.isReadOnly = false) :
    Handled P k msg o s0 (M.call fs c) s fun _ s' => FsOnly s0 s' := by
  refine (M.call_runs (.call (.path hauth hcmd hname hfs hfile hpaths hro)
    (by simp [hremove]))).mono ?_
  rintro _ _ rfl
  exact hs.exec _ _

theorem openByDisposition_runs (req : CreateRequest) (info : Except GoError FileInfo) :
    Handled P k msg o s0 (openByDisposition fs tree filename req info) s
      fun _ s' => FsOnly s0 s' := by
  have hreadonly : ∀ {s : Server B}, FsOnly s0 s → Handled P k msg o s0
      (M.call fs (.openFile filename oRdonly 0)) s fun _ s' => FsOnly s0 s' :=
    fun hs => pathCall_runs hauth hcmd hname hfs hs rfl rfl rfl (by simp [FsCall.mutates, oRdonly])
  rw [openByDisposition_eq]
  cases hfirst : firstCall tree req info with
  | error st => exact .throw (firstCall_error hfirst)
  | ok first =>
    obtain ⟨_, -, -, hfirst⟩ := firstCall_ok hfirst
    obtain ⟨call, action⟩ := first
    cases hfirst with
    | makes hro =>
      refine (pathCall_runs hauth hcmd hname hfs hs rfl rfl rfl fun _ => hro).bind fun err s hs => ?_
      cases err with
      | none => exact (hreadonly hs).bind fun _ _ hs => .pure hs
      | some err => exact .pure hs
    | opens =>
      refine (pathCall_runs hauth hcmd hname hfs hs rfl rfl rfl
        (by simp [FsCall.mutates, oRdwr])).bind fun file s hs => ?_
      cases file with
      | ok f => exact .pure hs
      | error err => exact (hreadonly hs).bind fun _ _ hs => .pure hs
    | creates hro | replaces hro =>
      refine (pathCall_runs hauth hcmd hname hfs hs rfl rfl rfl fun _ => hro).bind
        fun file s hs => ?_
      cases file <;> exact .pure hs

end Create

theorem allocate_runs {filename : Str} (hauth : Auth s0 msg r tree) (hcmd : msg.cmd = .create)
    (hname : createFilename msg.payload = some filename)
    (hcheck : (s0.handlesOf tree.share).checkShareAccess filename msg.create.desiredAccess
      msg.create.shareAccess = true) (hs : FsOnly s0 s)
    {file : FileObj B} (hfs : (s0.shareHeap tree.share).fs = some file.1) (isDir : Bool) :
    OnlyWrites P k msg o s0 (allocate r tree file filename isDir msg.create o) s := by
  obtain ⟨d, l, rfl⟩ := hs
  unfold OnlyWrites Handled Runs
  rw [run_allocate]
  refine ⟨.single (.handles fun _ => ?_), trivial⟩
  exact .allocate file isDir hauth hcmd hname hcheck rfl rfl hfs

theorem handleCreate_runs (hcmd : msg.cmd = .create) :
    OnlyWrites P k msg o s0 (handleCreate msg o) s0 := by
  unfold handleCreate
  refine bind_validateTree fun r tree hauth => bind_checkRequest fun hwell => ?_
  refine M.bind_require nofun fun filename hname => M.bind_get ?_
  refine M.bind_failIf nofun fun hcheck => ?_
  rw [Bool.not_eq_false'] at hcheck
  refine bind_shareFs (.create hcmd hauth hwell hname hcheck) fun fs hfs => ?_
  refine (pathCall_runs hauth hcmd hname hfs (.refl s0) rfl rfl rfl (by simp [FsCall.mutates])).bind
    fun info s hs => ?_
  refine (openByDisposition_runs hauth hcmd hname hfs hs _ info).bind fun x s hs => ?_
  dsimp only
  split
  · exact .throw (mapGoErrorToNTStatus_ne_success _)
  · refine M.bind_call (.call (.opened hauth hcmd rfl rfl hfs) nofun) fun info => ?_
    split
    · exact M.bind_call (.call (.opened hauth hcmd rfl rfl hfs) nofun) fun _ =>
        .throw (mapGoErrorToNTStatus_ne_success _)
    · refine (allocate_runs hauth hcmd hname hcheck (hs.exec _ _) hfs _).bind
        fun _ _ _ => .pure trivial

/-! ## SESSION_SETUP -/

section Setup

variable (hcmd : msg.cmd = .sessionSetup) (a : NTLMAuthenticator)

include hcmd

theorem withSession_chain : ReflTransGen (Write P k msg o s0) s0 (withSession k msg o s0) := by
  unfold withSession
  cases hsel : selectSession s0.sessions msg with
  | some r => exact .refl
  | none => exact .single (.sessions (.createSession hcmd hsel))

theorem asked_chain : ReflTransGen (Write P k msg o s0) s0 (asked k msg o s0 a) :=
  (withSession_chain hcmd).tail (.sessions (.setAuthenticator a hcmd))

theorem refusedServer_chain :
    ReflTransGen (Write P k msg o s0) s0 (refusedServer k msg o s0 a) := by
  unfold refusedServer
  split
  · next hnone =>
    have hnew : selectSession s0.sessions msg = none := Option.isNone_iff_eq_none.mp hnone
    obtain ⟨href, hid, htrees⟩ := asked_new (k := k) (o := o) a hnew
    rw [href] at hid htrees ⊢
    refine (asked_chain hcmd a).tail (.sessions (.destroyNew hcmd ?_ htrees))
    rw [hid, lookup_asked a hnew, if_pos rfl]
  · exact asked_chain hcmd a

theorem establishedServer_chain {result : AuthResult}
    (hanswer : setupAnswer P s0 msg o = some (result, a)) (hsuccess : result.success = true) :
    ReflTransGen (Write P k msg o s0) s0 (establishedServer P k msg o s0 result a) := by
  refine ((asked_chain hcmd a).tail (.sessions (.setValid result _ hcmd (fun r hr => ?_)
    fun hnew => ?_))).tail (.conn _ (by rw [hcmd]; rfl))
  · obtain ⟨blob, hblob, hauth⟩ := Option.bind_eq_some_iff.mp hanswer
    rw [setupAuthenticator, hr] at hauth
    exact ⟨blob, a, hblob, hauth, hsuccess⟩
  · obtain ⟨href, -, htrees⟩ := asked_new (k := k) (o := o) a hnew
    exact href ▸ htrees

theorem handleSessionSetup_runs : OnlyWrites P k msg o s0 (handleSessionSetup P k msg o) s0 := by
  have hend := handleSessionSetup_end P k msg o s0
  unfold OnlyWrites Handled Runs
  generalize handleSessionSetup P k msg o s0 = out at hend ⊢
  cases hend with
  | malformed => exact ⟨.refl, nofun⟩
  | crash => exact ⟨withSession_chain hcmd, .slice (.inl hcmd)⟩
  | refused => exact ⟨refusedServer_chain hcmd _, nofun⟩
  | challenged => exact ⟨asked_chain hcmd _, trivial⟩
  | established _ hanswer hsuccess =>
    exact ⟨establishedServer_chain hcmd _ hanswer hsuccess, trivial⟩

end Setup

/-! ## All commands -/

/-- **Effects.** A request only makes its own changes. -/
theorem route_runs : OnlyWrites P k msg o s0 (route P k msg o) s0 := by
  unfold route Command.handler
  split <;> rename_i hcmd
  · exact .map (handleNegotiate_runs hcmd)
  · exact .map (handleSessionSetup_runs hcmd)
  · exact .map (handleLogoff_runs hcmd)
  · exact .map (handleTreeConnect_runs hcmd)
  · exact .map (handleTreeDisconnect_runs hcmd)
  · exact .map (handleCreate_runs hcmd)
  · exact .map (handleClose_runs hcmd)
  · exact .map handleRead_runs
  · exact .map handleWrite_runs
  · exact .map handleFlush_runs
  · exact .map (handleQueryDirectory_runs hcmd)
  · exact .map handleQueryInfo_runs
  · exact .map (handleSetInfo_runs hcmd)
  · exact .map (.pure trivial)
  · rw [handleIOCTL_eq]
    exact .map (bind_validateSession fun r hr => bind_checkRequest fun _ => .throw nofun)
  · exact .pure trivial
  · exact .throw nofun

theorem handleMessage_state (P : Platform) (k : ConnId) (msg : SMB2Message) (o : Oracle)
    (s : Server B) : (handleMessage P k msg o s).2 = stateOf (route P k msg o s) := by
  unfold handleMessage
  split <;> rename_i h <;> rw [h] <;> rfl

theorem handleMessage_chain (hwf : ∀ sh, (s0.handlesOf sh).WF) :
    ReflTransGen (Change P k msg o s0) s0 (handleMessage P k msg o s0).2 := by
  rw [handleMessage_state]
  exact ReflTransGen.mono (fun _ _ hw => hw.change hwf) _ _ route_runs.chain

/-- The calls of a chain of steps that each make at most one call, with `q`. -/
theorem chain_calls {R : Server B → Server B → Prop} {q : FsRef × FsCall B.File → Prop}
    (hR : ∀ t t', R t t' → t'.log = t.log ∨ ∃ x, t'.log = t.log ++ [x] ∧ q x) {s s' : Server B}
    (h : ReflTransGen R s s') : ∃ calls, s'.log = s.log ++ calls ∧ ∀ x ∈ calls, q x := by
  induction h with
  | refl => exact ⟨[], by simp⟩
  | tail _ hc ih =>
    obtain ⟨calls, hlog, hcalls⟩ := ih
    rcases hR _ _ hc with heq | ⟨x, heq, hx⟩
    · exact ⟨calls, heq.trans hlog, hcalls⟩
    · refine ⟨calls ++ [x], by rw [heq, hlog, List.append_assoc], ?_⟩
      rw [List.forall_mem_append]
      exact ⟨hcalls, by simpa using hx⟩

/-- Every call a request makes is one it may make. -/
theorem chain_log (h : ReflTransGen (Change P k msg o s0) s0 s) :
    ∃ calls, s.log = s0.log ++ calls ∧ ∀ x ∈ calls, Permitted s0 msg x.1 x.2 := by
  refine chain_calls (fun t t' hc => ?_) h
  cases hc with
  | call hp => exact .inr ⟨_, rfl, hp⟩
  | _ => exact .inl rfl

/-! ## Session cleanup -/

variable (now : GoTime) (sessionID : UInt64) (shs : List ShareRef)

theorem sweep_log {now : GoTime} {s s' : Server B} (h : ReflTransGen (Sweep now) s s') :
    ∃ calls, s'.log = s.log ++ calls ∧ ∀ x ∈ calls, ∃ f, x.2 = .close f := by
  refine chain_calls (fun t t' hc => ?_) h
  cases hc with
  | close fs f => exact .inr ⟨(fs, .close f), rfl, f, rfl⟩
  | _ => exact .inl rfl

theorem canRelease_sweep (sh : ShareRef) (id : FileID) (of : B.OpenFile) :
    CanRelease (Sweep now) sh id of :=
  ⟨fun _ => .release sh id, fun f _ _ => .close f.1 f.2⟩

theorem releaseInShares_runs :
    Runs (Sweep now) (fun _ => False) (releaseInShares sessionID shs) s fun _ _ => True := by
  induction shs generalizing s with
  | nil => exact .pure trivial
  | cons sh shs ih =>
    exact (releaseBySession_runs fun id of _ _ => canRelease_sweep now sh id of).bind fun _ _ _ => ih

theorem releaseSessions_runs (ids : List UInt64) :
    Runs (Sweep now) (fun _ => False) (releaseSessions shs ids) s fun _ _ => True := by
  induction ids generalizing s with
  | nil => exact .pure trivial
  | cons sid ids ih => exact (releaseInShares_runs now sid shs).bind fun _ _ _ => ih

theorem cleanupTick_runs : Runs (Sweep now) (fun _ => False) (cleanupTick now) s fun _ _ => True := by
  unfold cleanupTick
  exact M.bind_get <| M.bind_modify .expire (releaseSessions_runs now _ _)

end Smbfs
