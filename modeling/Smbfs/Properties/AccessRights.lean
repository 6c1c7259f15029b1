import Smbfs.Properties.PositionalIO
import Smbfs.System.Handles

/-!
The access rights of a handle. WRITE looks at them; READ and
FileEndOfFileInformation do not.

* `resizeOp`: the size that a SET_INFO gives to the file, told from the state before;
* `handleSetInfo_data`: SET_INFO changes the data of the handle's file only by that;
* `rights_enforced_iff`: when the rights of a handle are enforced;
* `attributes_handle_reads_and_truncates`: a handle that was opened for its
  attributes reads the file and cuts it.
-/

namespace Smbfs

open Smbfs.Lib Relation

variable {B : Backend} {F : ObjectFs B} {cursor : B.Disk → B.File → Nat} {P : Platform} {k : ConnId}
  {msg : SMB2Message} {o : Oracle} {s s' : Server B} {fs : FsRef} {f : B.File} {x : F.Obj}
  {data : Bytes}

/-! ## The record of a handle -/

/-- The handle is open with the access and the file. -/
def Held (s : Server B) (sh : ShareRef) (id : FileID) (access : UInt32) (file : FileObj B) : Prop :=
  ∃ of, (s.handlesOf sh).view id = some of ∧ of.access = access ∧ of.file = some file

theorem Change.held {s0 : Server B} (hwf : Tables s) (hc : Change P k msg o s0 s s')
    (hrel : msg.cmd.releases = false) {sh : ShareRef} {id : FileID} {access : UInt32}
    {file : FileObj B} (h : Held s sh id access file) : Held s' sh id access file := by
  obtain ⟨of, hv, haccess, hfile⟩ := h
  rcases hc.view_kept hwf hv with hsame | ⟨_, hnew, r, tree, of', f, -, he, -, rfl⟩ | ⟨hyes, -⟩
  · exact ⟨of, hsame, haccess, hfile⟩
  · refine ⟨f of, hnew, ?_, ?_⟩
    · cases he <;> exact haccess
    · cases he <;> exact hfile
  · cases hrel.symm.trans hyes

theorem step_held {sys : System B} (hwf : Tables sys.server) (hrel : msg.cmd.releases = false)
    {sh : ShareRef} {id : FileID} {access : UInt32} {file : FileObj B}
    (h : Held sys.server sh id access file) :
    Held (sys.step P (.message k msg o)).server sh id access file := by
  refine step_message_invariant (I := fun t => Held t sh id access file) hwf (fun _ _ h => h) ?_ h
  intro c t t' hc ht hheld
  exact hc.held ht hrel hheld

/-- The request names no tree connection of another share. -/
def OnShare (s : Server B) (msg : SMB2Message) (sh : ShareRef) : Prop :=
  ∀ tree, treeOf s msg = some tree → tree.share = sh

/-! ## The data of its file -/

/-- The file `f` is open for `x`, which has the data. -/
structure Holds (F : ObjectFs B) (fs : FsRef) (f : B.File) (x : F.Obj) (data : Bytes)
    (s : Server B) : Prop where
  opened : F.opened (s.disks fs) f = some x
  node : F.node (B.content (s.disks fs)) x = .file data

theorem Holds.of_disks (h : Holds F fs f x data s) (hd : s'.disks = s.disks) :
    Holds F fs f x data s' := by
  constructor
  · rw [hd]
    exact h.opened
  · rw [hd]
    exact h.node

theorem Holds.exec (h : Holds F fs f x data s) {fs' : FsRef} {c : FsCall B.File}
    (ho : F.opened (B.exec c (s.disks fs')).2 = F.opened (s.disks fs'))
    (hn : ∀ g y, F.opened (s.disks fs') g = some y →
      F.node (B.content (B.exec c (s.disks fs')).2) y = F.node (B.content (s.disks fs')) y) :
    Holds F fs f x data (s.exec fs' c) := by
  refine ⟨by rw [opened_exec_eq ho]; exact h.opened, ?_⟩
  by_cases hfs : fs = fs'
  · subst hfs
    rw [Server.disks_exec, hn f x h.opened]
    exact h.node
  · rw [Server.disks_exec_of_ne s c hfs]
    exact h.node

/-- The program leaves the data as it is, whether it fails or not. -/
abbrev Leaves {α : Type} (F : ObjectFs B) (fs : FsRef) (f : B.File) (x : F.Obj) (data : Bytes)
    (m : M B α) (s : Server B) : Prop :=
  Finishes m s (fun _ => Holds F fs f x data) fun _ => Holds F fs f x data

theorem Holds.call {fs' : FsRef} {c : FsCall B.File} (h : Holds F fs f x data (s.exec fs' c)) :
    Leaves F fs f x data (M.call fs' c) s :=
  M.call_finishes h

theorem Holds.failIf (h : Holds F fs f x data s) (c : Bool) (st : NTStatus) :
    Leaves F fs f x data (M.failIf c st) s :=
  M.failIf_finishes (fun _ => h) fun _ => h

/-- The size that SET_INFO gives to the file of an open handle: the request is for
FileEndOfFileInformation, with the 8 bytes of a size, and `Truncate` will do it. -/
def newSize (s : Server B) (of : B.OpenFile) (req : SetInfoRequest) (buffer : Bytes) :
    Option Nat :=
  let size := (Reader.readUint64.parse buffer).toInt64
  match InfoType.ofCode req.infoType, SetClass.ofCode req.fileInfoClass, of.file with
  | some .file, some .endOfFile, some f =>
    if 8 ≤ buffer.length ∧ B.truncater f.2 = true ∧
        (B.exec (.truncate f.2 size) (s.disks f.1)).1.isNone = true then
      some size.toInt.toNat
    else none
  | _, _, _ => none

/-- The size that a request gives to the file of its handle, if the tree may be written. -/
def resizeOp (s : Server B) (msg : SMB2Message) : Option Nat :=
  let req := msg.setInfo
  (openFileOf s msg req.fileID).bind fun p => (setInfoBuffer msg.payload).bind fun buffer =>
    if wellFormed msg.payload 32 33 = true ∧ p.1.isReadOnly = false then newSize s p.2 req buffer
    else none

/-- The data of a file that is given a size. -/
def resized (data : Bytes) (size : Option Nat) : Bytes := size.elim data (resize 0 data)

theorem openFileOf_of_target {id : FileID} {r : SessionRef} {tree : TreeConnection}
    {of : B.OpenFile} (ht : Target s msg r tree id of) :
    openFileOf s msg id = some (tree, of.untimed) := by
  rw [openFileOf, ht.session_eq, Option.bind_some, ht.tree_eq, Option.bind_some, ht.view_eq,
    Option.map_some, Option.bind_some]
  exact if_pos ⟨ht.treeID_eq, ht.sessionID_eq⟩

variable {of : B.OpenFile}

section SetInfo

variable (hK : F.KeepsData) (hs : Holds F fs f x data s)

include hK hs

variable (fs' : FsRef)

theorem Holds.stat (path : Str) : Holds F fs f x data (s.exec fs' (.stat path)) :=
  hs.exec (hK.opened_eq _ _ rfl) fun g y _ => by rw [B.content_exec _ _ rfl]

theorem Holds.rename (old new : Str) : Holds F fs f x data (s.exec fs' (.rename old new)) :=
  hs.exec (hK.opened_eq _ _ rfl) fun g y hg => hK.node_rename _ _ _ g y hg

theorem Holds.chtimes (g : B.File) (atime mtime : GoTime) :
    Holds F fs f x data (s.exec fs' (.chtimes g atime mtime)) :=
  hs.exec (hK.opened_eq _ _ rfl) fun _ y _ => hK.node_chtimes _ _ _ _ y

theorem Holds.chmod (g : B.File) (mode : FileMode) :
    Holds F fs f x data (s.exec fs' (.chmod g mode)) :=
  hs.exec (hK.opened_eq _ _ rfl) fun _ y _ => hK.node_chmod _ _ _ y

theorem setFileBasicInformation_holds (of : B.OpenFile) (buffer : Bytes) :
    Leaves F fs f x data (setFileBasicInformation of buffer) s := by
  refine .bind (hs.failIf _ _) fun _ t ht => ?_
  refine .bind (Q := fun _ => Holds F fs f x data) ?_ fun _ t ht => ?_
  · unfold setModTime
    split
    · split
      · exact Finishes.pure ht
      · split
        · exact .bind (ht.chtimes hK _ _ _ _).call fun _ t ht => ht.failIf _ _
        · exact Finishes.pure ht
    · exact Finishes.pure ht
  · unfold setMode
    split
    · split
      · exact Finishes.pure ht
      · split
        · exact .bind (ht.chmod hK _ _ _).call fun _ t ht => Finishes.pure ht
        · exact Finishes.pure ht
    · exact Finishes.pure ht

omit hK in
theorem setFileDispositionInformation_holds (sh : ShareRef) (of : B.OpenFile)
    (buffer : Bytes) : Leaves F fs f x data (setFileDispositionInformation sh of buffer) s := by
  refine .bind (hs.failIf _ _) fun _ t ht => ?_
  exact Finishes.modifyGet (ht.of_disks rfl)

theorem setFileRenameInformation_holds (sh : ShareRef) (ref : HandleRef)
    (of : B.OpenFile) (buffer : Bytes) :
    Leaves F fs f x data (setFileRenameInformation sh ref of buffer) s := by
  refine .bind (hs.failIf _ _) fun _ t ht => ?_
  refine .bind (M.require_finishes (Q := fun _ => Holds F fs f x data) ht fun _ _ => ht)
    fun y t ht => ?_
  obtain ⟨replaceIfExists, newName⟩ := y
  dsimp only
  rw [Finishes, run_shareFs_bind]
  cases (t.shareHeap sh).fs with
  | none => exact ht
  | some fs' =>
    dsimp only
    change Finishes _ t _ _
    refine .bind (ht.stat hK _ _).call fun _ t ht => ?_
    refine .bind (ht.failIf _ _) fun _ t ht => ?_
    rw [Finishes, M.run_get_bind]
    change Finishes _ t _ _
    split
    · refine .bind (ht.rename hK _ _ _).call fun err t ht => ?_
      cases err with
      | some err => exact Finishes.throw ht
      | none => exact Finishes.modifyGet (ht.of_disks rfl)
    · exact Finishes.throw ht

/-- FileEndOfFileInformation cuts or extends the file, whatever the access of the
handle is. -/
theorem setFileEndOfFileInformation_holds (hfile : of.file = some (fs, f)) {req : SetInfoRequest}
    (htype : InfoType.ofCode req.infoType = some .file)
    (hcls : SetClass.ofCode req.fileInfoClass = some .endOfFile) (buffer : Bytes) :
    Leaves F fs f x (resized data (newSize s of req buffer))
      (setFileEndOfFileInformation of buffer) s := by
  unfold newSize Leaves Finishes setFileEndOfFileInformation
  rw [htype, hcls, hfile, M.run_failIf_bind]
  dsimp only
  by_cases hlen : buffer.length < 8
  · rw [if_pos (decide_eq_true hlen), if_neg (fun h => Nat.not_le.mpr hlen h.1)]
    exact hs
  rw [if_neg (by simpa using hlen)]
  by_cases htrunc : B.truncater f = true
  · rw [if_pos htrunc, M.run_call_bind]
    change Finishes _ (s.exec fs _) _ _
    have hopened := opened_exec_eq (s := s)
      (hK.opened_eq (.truncate f (Reader.readUint64.parse buffer).toInt64) (s.disks fs) rfl)
    cases herr : (B.exec (.truncate f (Reader.readUint64.parse buffer).toInt64) (s.disks fs)).1 with
    | some err =>
      rw [if_neg (by simp)]
      refine M.failIf_finishes (fun _ => ⟨by rw [hopened]; exact hs.opened, ?_⟩)
        fun h => by cases h
      rw [Server.disks_exec, hK.truncate_error _ _ _ _ herr]
      exact hs.node
    | none =>
      rw [if_pos ⟨Nat.not_lt.mp hlen, htrunc, rfl⟩]
      refine M.failIf_finishes (fun h => by cases h)
        fun _ => ⟨by rw [hopened]; exact hs.opened, ?_⟩
      rw [Server.disks_exec]
      exact (hK.truncate_ok _ _ _ _ _ hs.opened hs.node herr).node_eq
  · rw [if_neg htrunc, if_neg (fun h => htrunc h.2.1)]
    exact hs

theorem setInfo_holds (hfile : of.file = some (fs, f)) (sh : ShareRef) (ref : HandleRef)
    (req : SetInfoRequest) (buffer : Bytes) :
    Leaves F fs f x (resized data (newSize s of req buffer)) (setInfo sh ref of req buffer) s := by
  have hother : (InfoType.ofCode req.infoType = some .file →
      SetClass.ofCode req.fileInfoClass = some .endOfFile → False) →
      resized data (newSize s of req buffer) = data := by
    intro h
    unfold newSize
    split
    · next htype hcls _ => exact (h htype hcls).elim
    · rfl
  unfold setInfo
  cases htype : InfoType.ofCode req.infoType with
  | none =>
    rw [hother (by simp [htype])]
    exact Finishes.throw hs
  | some type =>
    cases type with
    | filesystem | security | quota =>
      rw [hother (by simp [htype])]
      exact Finishes.throw hs
    | file =>
      unfold setFileInfo
      dsimp only
      cases hcls : SetClass.ofCode req.fileInfoClass with
      | none =>
        rw [hother (by simp [hcls])]
        exact Finishes.throw hs
      | some cls =>
        cases cls with
        | basic =>
          rw [hother (by simp [hcls])]
          exact setFileBasicInformation_holds hK hs of buffer
        | disposition =>
          rw [hother (by simp [hcls])]
          exact setFileDispositionInformation_holds hs sh of buffer
        | rename =>
          rw [hother (by simp [hcls])]
          exact setFileRenameInformation_holds hK hs sh ref of buffer
        | endOfFile => exact setFileEndOfFileInformation_holds hK hs hfile htype hcls buffer

/-- **SET_INFO and the data.** -/
theorem handleSetInfo_data {sh : ShareRef} {id : FileID} {access : UInt32}
    (hheld : Held s sh id access (fs, f)) (hshare : OnShare s msg sh)
    (hid : msg.setInfo.fileID = id) :
    Leaves F fs f x (resized data (resizeOp s msg)) (handleSetInfo msg o) s := by
  rw [handleSetInfo]
  unfold Leaves Finishes
  rcases onHandle_cases s msg 32 33 msg.setInfo.fileID
    (setInfoFound msg o) with ⟨r, tree, ref, of, ht, -, hwell, hrun⟩ | ⟨st, -, hrun, hnone⟩
  · obtain ⟨of', hv, -, hfile⟩ := hheld
    rw [← hshare tree ht.treeOf_eq, ← hid] at hv
    cases hv.symm.trans ht.view_eq
    rw [hrun, resizeOp, openFileOf_of_target ht, Option.bind_some, setInfoFound, M.run_failIf_bind]
    cases tree.isReadOnly with
    | true =>
      simp only [Bool.true_eq_false, and_false, if_false, Option.bind_fun_none]
      exact hs
    | false =>
      rw [if_neg Bool.false_ne_true, updateLastAccess, M.run_modify_bind, M.run_require_bind]
      cases setInfoBuffer msg.payload with
      | none => exact hs.of_disks rfl
      | some buffer =>
        rw [Option.bind_some, if_pos ⟨hwell, rfl⟩]
        have hs' : Holds F fs f x data (s.modifyHandles tree.share fun m =>
            m.updateLastAccess msg.setInfo.fileID o.now) := hs.of_disks rfl
        exact (setInfo_holds hK hs' hfile tree.share ref msg.setInfo buffer).bind
          fun _ t ht => Finishes.pure ht
  · have hno : resizeOp s msg = none := by
      refine Option.eq_none_iff_forall_ne_some.mpr fun size hop => ?_
      obtain ⟨⟨tree, of⟩, hof, hop⟩ := Option.bind_eq_some_iff.mp hop
      obtain ⟨r, of', ht, -⟩ := openFileOf_eq_some hof
      obtain ⟨buffer, -, hop⟩ := Option.bind_eq_some_iff.mp hop
      rw [if_neg (fun h => by rw [hnone r tree of' ht] at h; cases h.1)] at hop
      cases hop
    rw [hrun, hno]
    exact hs

end SetInfo

/-! ## Requests for the handle -/

/-- The access, with the generic rights mapped, has none of the rights. -/
def Lacks (access rights : UInt32) : Prop := hasBits (mapGenericAccess access) rights = false

instance (access rights : UInt32) : Decidable (Lacks access rights) :=
  inferInstanceAs (Decidable (_ = _))

section Requests

variable {sys : System B} {sh : ShareRef} {id : FileID} {access : UInt32}

/-- WRITE through a handle without the rights to write does nothing. -/
theorem handleWrite_denied (hheld : Held s sh id access (fs, f))
    (hlacks : Lacks access (fileWriteData ||| fileAppendData)) (hshare : OnShare s msg sh)
    (hid : msg.write.fileID = id) :
    stateOf (handleWrite msg o s) = s := by
  rw [handleWrite, hid]
  rcases onHandle_cases s msg 48 49 id (writeFound msg o) with
    ⟨r, tree, ref, of, ht, -, -, hrun⟩ | ⟨st, -, hrun, -⟩
  · obtain ⟨of', hv, haccess, -⟩ := hheld
    rw [← hshare tree ht.treeOf_eq] at hv
    cases hv.symm.trans ht.view_eq
    rw [hrun, writeFound, M.run_failIf_bind]
    split
    · rfl
    · rw [M.run_failIf_bind, if_pos]
      · rfl
      · rw [haccess, hlacks]
        rfl
  · rw [hrun]
    rfl

/-- SET_INFO through a handle gives the file another size, or leaves the data. -/
theorem step_setInfo_data (hK : F.KeepsData) (hcr : sys.crashed = false)
    (hs : Holds F fs f x data sys.server) (hheld : Held sys.server sh id access (fs, f))
    (hcmd : msg.cmd = .setInfo) (hshare : OnShare sys.server msg sh)
    (hid : msg.setInfo.fileID = id) :
    Holds F fs f x (resized data (resizeOp sys.server msg))
      (sys.step P (.message k msg o)).server := by
  have hfin := handleSetInfo_data (o := o) hK hs hheld hshare hid
  rw [step_routed hcr (routedTo_setInfo hcmd)]
  cases hrun : handleSetInfo msg o sys.server with
  | ok reply t => exact hfin.post hrun
  | error stop t => exact hfin.exit hrun

/-- A WRITE or SET_INFO request for the handle. -/
def WritesOrSets (sh : ShareRef) (id : FileID) (sys : System B) (e : Event) : Prop :=
  ∃ k msg o, e = .message k msg o ∧ OnShare sys.server msg sh ∧
    (msg.cmd = .write ∧ msg.write.fileID = id ∨
      msg.cmd = .setInfo ∧ msg.setInfo.fileID = id)

/-- A request that gives the file of its handle another size than `n`. -/
def Resizes (n : Nat) (sys : System B) (e : Event) : Prop :=
  ∃ k msg o size, e = .message k msg o ∧ sys.crashed = false ∧ msg.cmd = .setInfo ∧
    resizeOp sys.server msg = some size ∧ size ≠ n

/-- The handle is open with the access for a file that has the data. -/
structure Reaches (F : ObjectFs B) (sh : ShareRef) (id : FileID) (access : UInt32) (fs : FsRef)
    (f : B.File) (x : F.Obj) (data : Bytes) (sys : System B) : Prop where
  tables : Tables sys.server
  held : Held sys.server sh id access (fs, f)
  holds : Holds F fs f x data sys.server

variable (hK : F.KeepsData) (h : Reaches F sh id access fs f x data sys)
  (hlacks : Lacks access (fileWriteData ||| fileAppendData)) {e : Event}
  (hon : WritesOrSets sh id sys e)

include hK h hon

include hlacks in
/-- The requests that keep the data. -/
theorem Reaches.step (hno : ¬ Resizes data.length sys e) :
    Reaches F sh id access fs f x data (sys.step P e) := by
  obtain ⟨k, msg, o, rfl, hshare, hcmd⟩ := hon
  have hrel : msg.cmd.releases = false := by
    rcases hcmd with ⟨hcmd, -⟩ | ⟨hcmd, -⟩ <;> rw [hcmd] <;> rfl
  refine ⟨h.tables.step _, step_held h.tables hrel h.held, ?_⟩
  cases hcr : sys.crashed with
  | true =>
    rw [step_crashed hcr]
    exact h.holds
  | false =>
    rcases hcmd with ⟨hcmd, hid⟩ | ⟨hcmd, hid⟩
    · rw [step_routed hcr (routedTo_write hcmd),
        handleWrite_denied h.held hlacks hshare hid]
      exact h.holds
    · have hdata := step_setInfo_data (P := P) (k := k) (o := o) hK hcr h.holds h.held hcmd hshare hid
      cases hsize : resizeOp sys.server msg with
      | none =>
        rw [hsize] at hdata
        exact hdata
      | some size =>
        have hlen : size = data.length := by
          by_contra hne
          exact hno ⟨k, msg, o, size, rfl, hcr, hcmd, hsize, hne⟩
        rw [hsize, hlen] at hdata
        rw [← resize_length (0 : UInt8) data]
        exact hdata

/-- The requests that do not. -/
theorem Reaches.resized (hre : Resizes data.length sys e) :
    F.node (B.content ((sys.step P e).server.disks fs)) x ≠ .file data := by
  obtain ⟨k, msg, o, size, rfl, hcr, hcmd, hsize, hne⟩ := hre
  obtain ⟨_, _, _, heq, hshare, ⟨hwrite, -⟩ | ⟨-, hid⟩⟩ := hon
  · cases heq
    cases hcmd.symm.trans hwrite
  · cases heq
    have hdata := step_setInfo_data (P := P) (k := k) (o := o) hK hcr h.holds h.held hcmd hshare hid
    rw [hsize] at hdata
    intro hsame
    have hlen := congrArg List.length (Node.file.inj (hdata.node.symm.trans hsame))
    exact hne ((length_resize 0 data size).symm.trans hlen)

end Requests

/-! ## READ -/

/-- The response carries data of a file. -/
def ReturnsData (out : Outcome) : Prop := ∃ bytes, bytes ≠ [] ∧ Encodes (.data bytes) out

theorem ReturnsData.status_eq {r : SMB2Response} (h : ReturnsData (.response r)) :
    r.header.status = NTStatus.success.code := by
  obtain ⟨bytes, -, hstatus, -⟩ := h
  exact hstatus

variable {tree : TreeConnection}

theorem readOp_eq {r : SessionRef} (ht : Target s msg r tree msg.read.fileID of)
    (hfile : of.file = some (fs, f)) (hs : Holds F fs f x data s)
    (hwell : wellFormed msg.payload 48 49 = true)
    (hoffset : msg.read.offset.toNat < offsetLimit) :
    readOp F s msg = some (.read (fs, x) msg.read.offset.toNat (readLength s msg.read)) := by
  have hobject : objectOf F s of.untimed = some (fs, x) := by
    rw [objectOf, show of.untimed.file = some (fs, f) from hfile, Option.bind_some, hs.opened,
      Option.bind_some, hs.node]
    rfl
  rw [readOp, openFileOf_of_target ht, Option.bind_some, hobject, Option.bind_some]
  exact if_pos ⟨hwell, hoffset⟩

section Read

variable {sh : ShareRef} {id : FileID} {access : UInt32} {sys : System B}

/-- READ through the handle answers with the bytes of the range. -/
theorem read_returns_pread (hB : F.ByteFiles cursor)
    (h : Reaches F sh id access fs f x data sys) (hcmd : msg.cmd = .read)
    (hshare : OnShare sys.server msg sh) (hid : msg.read.fileID = id)
    (hoffset : msg.read.offset.toNat < offsetLimit)
    {r : SessionRef}
    (ht : Target sys.server msg r tree msg.read.fileID of)
    (hwell : wellFormed msg.payload 48 49 = true) :
    (readOp F sys.server msg).isSome = true ∧
      (ReturnsData (processMessage P k msg o sys.server).1 ↔
        pread data msg.read.offset.toNat (readLength sys.server msg.read) ≠ []) := by
  classical
  obtain ⟨of', hv, -, hfile⟩ := h.held
  rw [← hshare tree ht.treeOf_eq, ← hid] at hv
  cases hv.symm.trans ht.view_eq
  have hop := readOp_eq ht hfile h.holds hwell hoffset
  have hstore : storeOf F sys.server (fs, x) = data := by
    rw [storeOf, h.holds.node]
    rfl
  have hanswers : Answers F P ⟨sys.server, false⟩ k msg o _ :=
    readOp_step hB h.tables rfl hcmd hop
  have hencodes := hanswers.encodes
  rw [posStep, hstore] at hencodes
  rw [hop]
  refine ⟨rfl, fun hdata hempty => ?_, fun hdata => ⟨_, hdata, ?_⟩⟩
  · rw [hempty] at hencodes
    cases hout : (processMessage P k msg o sys.server).1 with
    | response resp =>
      rw [hout] at hdata hencodes
      have hcode := (show resp.header.status = _ from hencodes).symm.trans hdata.status_eq
      revert hcode
      decide
    | crash | silent =>
      rw [hout] at hencodes
      exact hencodes.elim
  · rw [if_neg (by rw [List.isEmpty_iff]; exact hdata)] at hencodes
    exact hencodes

/-- A READ that finds no handle, or asks for an offset from `2^63` on, is no operation. -/
theorem readOp_eq_none (hnone : ∀ r tree of, Target s msg r tree msg.read.fileID of →
      ¬ (wellFormed msg.payload 48 49 = true ∧
        msg.read.offset.toNat < offsetLimit)) :
    readOp F s msg = none := by
  refine Option.eq_none_iff_forall_ne_some.mpr fun op hop => ?_
  obtain ⟨⟨tree, of⟩, hof, hop⟩ := Option.bind_eq_some_iff.mp hop
  obtain ⟨r, of', ht, -⟩ := openFileOf_eq_some hof
  obtain ⟨y, -, hread⟩ := Option.bind_eq_some_iff.mp hop
  rw [if_neg (hnone r tree of' ht)] at hread
  cases hread

theorem not_returnsData {st : NTStatus} {m : M B Reply} (hm : RoutedTo P k msg o m)
    (hrun : m s = .error (.status st) s') (hst : st ≠ .success) :
    ¬ ReturnsData (processMessage P k msg o s).1 := by
  obtain ⟨resp, hresp, hstatus⟩ := processMessage_error hm hrun
  rw [hresp]
  exact fun hdata => hst (NTStatus.code_eq_success.mp (hstatus.symm.trans hdata.status_eq))

/-- READ answers with data wherever there are some, whatever the access of the
handle is. -/
theorem read_returns_iff (hB : F.ByteFiles cursor) (hR : F.RefusesNegative)
    (h : Reaches F sh id access fs f x data sys) (hcmd : msg.cmd = .read)
    (hshare : OnShare sys.server msg sh)
    (hid : msg.read.fileID = id) :
    ReturnsData (processMessage P k msg o sys.server).1 ↔
      (readOp F sys.server msg).isSome = true ∧
        pread data msg.read.offset.toNat (readLength sys.server msg.read) ≠ [] := by
  rcases onHandle_cases sys.server msg 48 49 msg.read.fileID (readFound msg o) with
    ⟨r, tree, ref, of, ht, -, hwell, hrun⟩ | ⟨st, hst, hrun, hnone⟩
  · by_cases hoffset : msg.read.offset.toNat < offsetLimit
    · obtain ⟨hop, hiff⟩ := read_returns_pread (P := P) (k := k) (o := o) hB h hcmd hshare hid
        hoffset ht hwell
      rw [hiff, and_iff_right hop]
    · obtain ⟨of', hv, -, hfile⟩ := h.held
      rw [← hshare tree ht.treeOf_eq, ← hid] at hv
      cases hv.symm.trans ht.view_eq
      obtain ⟨st, hst, hfails⟩ : ∃ st, st ≠ .success ∧ readFound msg o tree (ref, _) sys.server =
          .error (.status st) _ :=
        readFound_fails hB hfile h.holds.opened h.holds.node hR (Nat.not_lt.mp hoffset)
      rw [← handleRead, hfails] at hrun
      rw [readOp_eq_none fun _ _ _ _ hok => hoffset hok.2]
      exact iff_of_false (not_returnsData (routedTo_read hcmd) hrun hst)
        fun hdata => Bool.false_ne_true hdata.1
  · rw [← handleRead] at hrun
    rw [readOp_eq_none fun r tree of ht hok => Bool.false_ne_true ((hnone r tree of ht).symm.trans hok.1)]
    exact iff_of_false (not_returnsData (routedTo_read hcmd) hrun hst)
      fun hdata => Bool.false_ne_true hdata.1

end Read

/-! ## Handles without the rights -/

/-- **Access rights.** Through a handle that may not write, the WRITE and SET_INFO
requests keep the data exactly as long as none of them resizes the file; through a
handle that may not read, READ returns data wherever the range of the request has some. -/
theorem rights_enforced_iff (hB : F.ByteFiles cursor) (hR : F.RefusesNegative)
    (hK : F.KeepsData) (P : Platform) (options : ServerOptions) (rand : Bytes) (disks : FsRef → B.Disk)
    (before : List Event) :
    let sys := System.run P (.initial options rand disks) before
    ∀ sh id of fs f x data, (sys.server.handlesOf sh).view id = some of → of.file = some (fs, f) →
      F.opened (sys.server.disks fs) f = some x →
      F.node (B.content (sys.server.disks fs)) x = .file data →
      (Lacks of.access (fileWriteData ||| fileAppendData) →
        ∀ es, Along (System.step P) (WritesOrSets sh id) sys es →
          (Always (System.step P)
              (fun t => F.node (B.content (t.server.disks fs)) x = .file data) sys es ↔
            Along (System.step P) (fun t e => ¬ Resizes data.length t e) sys es)) ∧
      (Lacks of.access (fileReadData ||| fileExecute) →
        ∀ k msg o, msg.cmd = .read → OnShare sys.server msg sh →
          let req := msg.read
          req.fileID = id →
          (ReturnsData (processMessage P k msg o sys.server).1 ↔
            (readOp F sys.server msg).isSome = true ∧
              pread data req.offset.toNat (readLength sys.server req) ≠ [])) := by
  intro sys sh id of fs f x data hv hfile hx hn
  have hreaches : Reaches F sh id of.access fs f x data sys :=
    ⟨.run options rand disks before, ⟨of, hv, rfl, hfile⟩, hx, hn⟩
  refine ⟨fun hlacks es hes => ?_, fun _ k msg o hcmd hshare hid => ?_⟩
  · refine always_iff_along_of (I := Reaches F sh id of.access fs f x data)
      (fun t e ht hon hno => ht.step hK hlacks hon hno) (fun t ht => ht.holds.node)
      (fun t e ht hon hre => ht.resized hK hon (not_not.mp hre)) hreaches hes
  · exact read_returns_iff hB hR hreaches hcmd hshare hid

/-- `f` has two bytes, and the handle `⟨1, 2⟩` is open for its attributes only. -/
def attributesSystem : System inodeFs :=
  System.run samplePlatform inodeSystem (sampleLogin false ++
    [sent (createRequest 7 1 ['f'] 3 7 2 0), sent (writeRequest 7 1 ⟨1, 1⟩ 0 [97, 98]),
      sent (createRequest 7 1 ['f'] fileReadAttributes 7 1 0)])

/-- A WRITE through such a handle does nothing; a READ through it answers. -/
theorem rights_enforced_attributes :
    Always (System.step samplePlatform)
      (fun t => inodeView.node (inodeFs.content (t.server.disks 0)) 1 = .file [97, 98])
      attributesSystem [sent (writeRequest 7 1 ⟨1, 2⟩ 0 [99])] ∧
    ReturnsData (processMessage samplePlatform 0 (readRequest 7 1 ⟨1, 2⟩ 10) sampleOracle
      attributesSystem.server).1 := by
  have hview : ((attributesSystem.server.handlesOf 1).view ⟨1, 2⟩).map
      (fun of => (of.access, of.file)) = some (fileReadAttributes, some (0, 1)) := by decide +kernel
  obtain ⟨of, hof, heq⟩ := Option.map_eq_some_iff.mp hview
  obtain ⟨haccess, hfile⟩ := Prod.mk.inj heq
  have hwrite : OnShare attributesSystem.server (writeRequest 7 1 ⟨1, 2⟩ 0 [99]) 1 := by
    have hshare : (treeOf attributesSystem.server (writeRequest 7 1 ⟨1, 2⟩ 0 [99])).map
        TreeConnection.share = some 1 := by decide +kernel
    intro tree htree
    rw [htree] at hshare
    exact Option.some.inj hshare
  have hread : OnShare attributesSystem.server (readRequest 7 1 ⟨1, 2⟩ 10) 1 := hwrite
  obtain ⟨hkeeps, hreads⟩ := rights_enforced_iff inodeView_byteFiles inodeView_refusesNegative
    inodeView_keepsData _ _ _ _ _ 1 ⟨1, 2⟩ of 0 1 1 [97, 98] hof hfile (by decide +kernel)
    (by decide +kernel)
  rw [haccess] at hkeeps hreads
  refine ⟨(hkeeps (by decide) [sent (writeRequest 7 1 ⟨1, 2⟩ 0 [99])]
    ⟨⟨_, _, _, rfl, hwrite, .inl (by decide +kernel)⟩, trivial⟩).mpr ⟨?_, trivial⟩,
    (hreads (by decide) _ _ _ (by decide) hread (by decide +kernel)).mpr (by decide +kernel)⟩
  rintro ⟨k, msg, o, size, heq, -, hcmd, -⟩
  cases heq
  revert hcmd
  decide

/-- A handle that is open for its attributes reads the data of the file and cuts it. -/
theorem attributes_handle_reads_and_truncates :
    ((attributesSystem.server.handlesOf 1).view ⟨1, 2⟩).map OpenFile.access =
        some fileReadAttributes ∧
      Lacks fileReadAttributes (fileWriteData ||| fileAppendData) ∧
      Lacks fileReadAttributes (fileReadData ||| fileExecute) ∧
      Encodes (.data [97, 98]) (processMessage samplePlatform 0 (readRequest 7 1 ⟨1, 2⟩ 10)
        sampleOracle attributesSystem.server).1 ∧
      let cut := attributesSystem.step samplePlatform (sent (endOfFileRequest 7 1 ⟨1, 2⟩ 0))
      storeOf inodeView attributesSystem.server (0, 1) = [97, 98] ∧
        storeOf inodeView cut.server (0, 1) = [] :=
  ⟨by decide +kernel, by decide, by decide, by decide +kernel, by decide +kernel, by decide +kernel⟩

end Smbfs
