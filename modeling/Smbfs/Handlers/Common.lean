import Smbfs.Server.State

/-!
What the handlers share (`smb2_handlers.go`): validation of the session and of
the tree, access to an open handle, release of handles.
-/

namespace Smbfs

open Smbfs.Lib

/-- What a handler returns: the payload and the status, and the fields of the
response header that it sets. -/
structure Reply where
  payload : Bytes
  status : NTStatus
  sessionID : Option UInt64
  treeID : Option UInt32

def Reply.ok (payload : Bytes) : Reply := ⟨payload, .success, none, none⟩

/-- The response of FLUSH, ECHO, LOGOFF and TREE_DISCONNECT. -/
def emptyResponse : Bytes := putUint16 4 ++ putUint16 0

variable {B : Backend}

def validateSession (header : SMB2Header) : M B SessionRef := do
  let s ← M.get
  M.require (s.sessions.validateSession header.sessionID) .userSessionDeleted

def validateTree (header : SMB2Header) : M B (SessionRef × TreeConnection) := do
  let session ← validateSession header
  let s ← M.get
  let tree ← M.require ((s.sessions.heap session).trees.lookup header.treeID) .networkNameDeleted
  return (session, tree)

/-- The checks every request passes: its length and its structure size. -/
def checkRequest (payload : Bytes) (minLength : Nat) (structSize : UInt16) : M B Unit := do
  M.failIf (payload.length < minLength) .invalidParameter
  M.failIf (Reader.readUint16.parse payload ≠ structSize) .invalidParameter

/-- The request passes the checks of `checkRequest`. -/
def wellFormed (payload : Bytes) (minLength : Nat) (structSize : UInt16) : Bool :=
  minLength ≤ payload.length && Reader.readUint16.parse payload = structSize

theorem run_checkRequest_bind {α : Type} (payload : Bytes) (minLength : Nat) (structSize : UInt16)
    (f : Unit → M B α) (s : Server B) :
    (checkRequest payload minLength structSize >>= f) s =
      if wellFormed payload minLength structSize then f () s
      else .error (.status .invalidParameter) s := by
  rw [Lib.bind_run]
  have hsize : M.failIf (B := B) (decide (Reader.readUint16.parse payload ≠ structSize))
      .invalidParameter s =
      if Reader.readUint16.parse payload = structSize then .ok () s
      else .error (.status .invalidParameter) s := by
    by_cases h : Reader.readUint16.parse payload = structSize <;> simp [h, M.failIf]
  by_cases hlen : payload.length < minLength
  · simp [checkRequest, wellFormed, hlen, Nat.not_le.mpr hlen]
  · simp only [checkRequest, wellFormed, M.run_failIf_bind, hlen, hsize, decide_false,
      Bool.false_eq_true, if_false, Nat.not_lt.mp hlen, decide_true, Bool.true_and,
      decide_eq_true_eq]
    split
    · next heq => split at heq <;> simp_all
    · next heq => split at heq <;> simp_all

/-- `GetByTree` for the session and the tree of the request. -/
def getByTree (session : SessionRef) (tree : TreeConnection) (id : FileID) :
    M B (HandleRef × B.OpenFile) := do
  let s ← M.get
  let r ← M.require ((s.handlesOf tree.share).getByTree id tree.id (s.sessions.heap session).id)
    .fileClosed
  return (r, (s.handlesOf tree.share).heap r)

/-- How the requests for an open handle start: they validate the session and the tree,
check the layout of the request, and look the handle up. -/
def onHandle (msg : SMB2Message) (minLength : Nat) (structSize : UInt16) (id : FileID)
    (f : TreeConnection → HandleRef × B.OpenFile → M B Reply) : M B Reply := do
  let (session, tree) ← validateTree msg.header
  checkRequest msg.payload minLength structSize
  let found ← getByTree session tree id
  f tree found

section Run

variable {α : Type} (s : Server B)

theorem run_validateSession_bind (header : SMB2Header) (f : SessionRef → M B α) :
    (validateSession header >>= f) s =
      match s.sessions.validateSession header.sessionID with
      | some r => f r s
      | none => .error (.status .userSessionDeleted) s := by
  rw [Lib.bind_run]
  simp only [validateSession, M.run_get_bind]
  cases s.sessions.validateSession header.sessionID <;> rfl

theorem run_validateTree_bind (header : SMB2Header) (f : SessionRef × TreeConnection → M B α) :
    (validateTree header >>= f) s =
      match s.sessions.validateSession header.sessionID with
      | none => .error (.status .userSessionDeleted) s
      | some r =>
        match (s.sessions.heap r).trees.lookup header.treeID with
        | some tree => f (r, tree) s
        | none => .error (.status .networkNameDeleted) s := by
  rw [Lib.bind_run]
  simp only [validateTree, run_validateSession_bind, M.run_get_bind, M.run_require_bind]
  cases s.sessions.validateSession header.sessionID with
  | none => rfl
  | some r =>
    dsimp only
    cases (s.sessions.heap r).trees.lookup header.treeID <;> rfl

theorem run_getByTree_bind (session : SessionRef) (tree : TreeConnection) (id : FileID)
    (f : HandleRef × B.OpenFile → M B α) :
    (getByTree session tree id >>= f) s =
      match (s.handlesOf tree.share).getByTree id tree.id (s.sessions.heap session).id with
      | some r => f (r, (s.handlesOf tree.share).heap r) s
      | none => .error (.status .fileClosed) s := by
  rw [Lib.bind_run]
  simp only [getByTree, M.run_get_bind, M.run_require_bind]
  cases (s.handlesOf tree.share).getByTree id tree.id (s.sessions.heap session).id <;> rfl

end Run

def updateLastAccess (sh : ShareRef) (id : FileID) (o : Oracle) : M B Unit :=
  M.modify fun s => s.modifyHandles sh fun m => m.updateLastAccess id o.now

/-- The filesystem of a share; a call on the nil one panics. -/
def shareFs (sh : ShareRef) : M B FsRef := do
  let s ← M.get
  M.deref (s.shareHeap sh).fs

theorem run_shareFs_bind {α : Type} (sh : ShareRef) (f : FsRef → M B α) (s : Server B) :
    (shareFs sh >>= f) s =
      match (s.shareHeap sh).fs with
      | some fs => f fs s
      | none => .error .crash s := by
  rw [Lib.bind_run]
  simp only [shareFs, M.run_get_bind]
  cases (s.shareHeap sh).fs <;> rfl

def release (sh : ShareRef) (id : FileID) : M B (Option GoError) := do
  let s ← M.get
  match (s.handlesOf sh).view id with
  | none => return none
  | some of =>
    M.modify fun s => s.modifyHandles sh fun m => m.release id
    match of.file with
    | none => return none
    | some f => M.call f.1 (.close f.2)

/-- The loop of `ReleaseBySession` and `ReleaseByTree`. -/
def releaseAll (sh : ShareRef) : List FileID → M B Unit
  | [] => pure ()
  | id :: ids => do
    let _ ← release sh id
    releaseAll sh ids

def releaseByTree (sh : ShareRef) (treeID : UInt32) (sessionID : UInt64) : M B Unit := do
  let s ← M.get
  releaseAll sh ((s.handlesOf sh).idsByTree treeID sessionID)

def releaseBySession (sh : ShareRef) (sessionID : UInt64) : M B Unit := do
  let s ← M.get
  releaseAll sh ((s.handlesOf sh).idsBySession sessionID)

/-- `seeker.Seek(int64(offset), io.SeekStart)`, if the file has it. -/
def seekStart (file : Option (FileObj B)) (offset : UInt64) : M B Unit :=
  match file with
  | none => pure ()
  | some f =>
    if B.seeker f.2 then do
      let (_, err) ← M.call f.1 (.seek f.2 offset.toInt64 0)
      match err with
      | none => pure ()
      | some err => M.fail (mapGoErrorToNTStatus err)
    else pure ()

end Smbfs
