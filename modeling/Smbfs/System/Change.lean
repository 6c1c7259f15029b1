import Smbfs.System.Dispatch

/-!
What one request can do to the server. `Change` lists the writes the handlers
make, each with the checks that stand before it in the code; `s0` is the
server as the request finds it.

Every handler is a chain of such writes (`Effects`), so a property of all
requests is a case analysis over `Change`.
-/

namespace Smbfs

open Smbfs.Lib

variable {B : Backend}

/-! ## The handler of a request -/

section Handlers

variable {P : Platform} {k : ConnId} {msg : SMB2Message} {o : Oracle} {s : Server B}

theorem handleMessage_negotiate (h : msg.cmd = .negotiate) :
    handleMessage P k msg o s = respond k msg (handleNegotiate k msg o s) :=
  handleMessage_of_cmd h rfl s

theorem handleMessage_sessionSetup (h : msg.cmd = .sessionSetup) :
    handleMessage P k msg o s = respond k msg (handleSessionSetup P k msg o s) :=
  handleMessage_of_cmd h rfl s

theorem handleMessage_logoff (h : msg.cmd = .logoff) :
    handleMessage P k msg o s = respond k msg (handleLogoff k msg s) :=
  handleMessage_of_cmd h rfl s

theorem handleMessage_treeConnect (h : msg.cmd = .treeConnect) :
    handleMessage P k msg o s = respond k msg (handleTreeConnect msg o s) :=
  handleMessage_of_cmd h rfl s

theorem handleMessage_treeDisconnect (h : msg.cmd = .treeDisconnect) :
    handleMessage P k msg o s = respond k msg (handleTreeDisconnect msg s) :=
  handleMessage_of_cmd h rfl s

theorem handleMessage_create (h : msg.cmd = .create) :
    handleMessage P k msg o s = respond k msg (handleCreate msg o s) :=
  handleMessage_of_cmd h rfl s

theorem handleMessage_close (h : msg.cmd = .close) :
    handleMessage P k msg o s = respond k msg (handleClose msg s) :=
  handleMessage_of_cmd h rfl s

theorem handleMessage_read (h : msg.cmd = .read) :
    handleMessage P k msg o s = respond k msg (handleRead msg o s) :=
  handleMessage_of_cmd h rfl s

theorem handleMessage_write (h : msg.cmd = .write) :
    handleMessage P k msg o s = respond k msg (handleWrite msg o s) :=
  handleMessage_of_cmd h rfl s

theorem handleMessage_queryDirectory (h : msg.cmd = .queryDirectory) :
    handleMessage P k msg o s = respond k msg (handleQueryDirectory P msg s) :=
  handleMessage_of_cmd h rfl s

theorem handleMessage_setInfo (h : msg.cmd = .setInfo) :
    handleMessage P k msg o s = respond k msg (handleSetInfo msg o s) :=
  handleMessage_of_cmd h rfl s

end Handlers

/-! ## What a request has been checked for -/

/-- The request passed `validateTree`. -/
structure Auth (s0 : Server B) (msg : SMB2Message) (r : SessionRef) (tree : TreeConnection) :
    Prop where
  session_eq : s0.sessions.validateSession msg.header.sessionID = some r
  tree_eq : (s0.sessions.heap r).trees.lookup msg.header.treeID = some tree

/-- The tree connection a request names, if its session is valid. -/
def treeOf (s : Server B) (msg : SMB2Message) : Option TreeConnection :=
  (s.sessions.validateSession msg.header.sessionID).bind fun r =>
    (s.sessions.heap r).trees.lookup msg.header.treeID

variable {tree : TreeConnection}

theorem Auth.treeOf_eq {s : Server B} {msg : SMB2Message} {r : SessionRef}
    (h : Auth s msg r tree) : treeOf s msg = some tree := by
  rw [treeOf, h.session_eq]
  exact h.tree_eq

/-- The request passed `validateTree`, and `GetByTree` found the record `of`. -/
structure Target (s0 : Server B) (msg : SMB2Message) (r : SessionRef) (tree : TreeConnection)
    (id : FileID) (of : B.OpenFile) : Prop extends Auth s0 msg r tree where
  view_eq : (s0.handlesOf tree.share).view id = some of
  treeID_eq : of.treeID = tree.id
  sessionID_eq : of.sessionID = (s0.sessions.heap r).id

/-- The handle of the request leads to its record. -/
theorem Target.getByTree_eq {s : Server B} {msg : SMB2Message} {r : SessionRef}
    {id : FileID} {of : B.OpenFile} (ht : Target s msg r tree id of) :
    ∃ ref, (s.handlesOf tree.share).handles.lookup id = some ref ∧
      (s.handlesOf tree.share).heap ref = of ∧
      (s.handlesOf tree.share).getByTree id tree.id (s.sessions.heap r).id = some ref := by
  obtain ⟨ref, href, rfl⟩ := FileHandleMap.view_eq_some.mp ht.view_eq
  refine ⟨ref, href, rfl, ?_⟩
  rw [FileHandleMap.getByTree, href]
  dsimp only
  rw [if_neg]
  simp [ht.treeID_eq, ht.sessionID_eq]

/-- A handle the request may release: one of its session and tree, or with
LOGOFF any of its session. -/
def Mine (s0 : Server B) (msg : SMB2Message) (sh : ShareRef) (of : B.OpenFile) : Prop :=
  ∃ r, s0.sessions.validateSession msg.header.sessionID = some r ∧
    of.sessionID = (s0.sessions.heap r).id ∧
    (msg.cmd = .logoff ∨ ∃ tree, (s0.sessions.heap r).trees.lookup msg.header.treeID = some tree ∧
      tree.share = sh ∧ of.treeID = tree.id)

/-- The name of a CREATE request, as it was sent. -/
def createName (payload : Bytes) : Option Str :=
  let req := CreateRequest.ofPayload payload
  (messageBuffer payload req.nameOffset.toNat req.nameLength.toNat).map decodeUTF16LEToString

theorem createFilename_eq (payload : Bytes) :
    createFilename payload = (createName payload).map createPath := by
  rw [createName, Option.map_map]
  rfl

/-- The handle and the new name of a SET_INFO request for FileRenameInformation. -/
def renameTarget (payload : Bytes) : Option (FileID × Str) :=
  let req := SetInfoRequest.ofPayload payload
  match InfoType.ofCode req.infoType, SetClass.ofCode req.fileInfoClass, setInfoBuffer payload with
  | some .file, some .rename, some buffer =>
    if buffer.length < 20 then none
    else (readRenameInformation.parse buffer).map fun x => (req.fileID, x.2)
  | _, _, _ => none

/-- The session SESSION_SETUP works on. -/
def setupRef (s0 : Server B) (msg : SMB2Message) : SessionRef :=
  (selectSession s0.sessions msg).getD s0.sessions.nextRef

/-- The commands that release handles. -/
def Command.releases : Command → Bool
  | .logoff | .treeDisconnect | .close => true
  | _ => false

/-! ## Calls on the filesystems -/

/-- The calls a request may make on filesystem `fs`. -/
inductive Permitted (s0 : Server B) (msg : SMB2Message) (fs : FsRef) : FsCall B.File → Prop where
  /-- CREATE looks up, opens or makes the file it names. -/
  | path {r tree filename c} (hauth : Auth s0 msg r tree) (hcmd : msg.cmd = .create)
      (hname : createFilename msg.payload = some filename)
      (hfs : (s0.shareHeap tree.share).fs = some fs) (hfile : c.file? = none)
      (hpaths : c.paths = [filename]) (hro : c.mutates = true → tree.isReadOnly = false) :
      Permitted s0 msg fs c
  /-- CREATE asks for the status of the file it opened, or closes it. -/
  | opened {r tree f c} (hauth : Auth s0 msg r tree) (hcmd : msg.cmd = .create)
      (hfile : c.file? = some f) (hmut : c.mutates = false)
      (hfs : (s0.shareHeap tree.share).fs = some fs) : Permitted s0 msg fs c
  /-- A call on the file of the handle the request names. -/
  | handle {r tree id of f c} (ht : Target s0 msg r tree id of) (hof : of.file = some (fs, f))
      (hfile : c.file? = some f) (hro : c.mutates = true → tree.isReadOnly = false) :
      Permitted s0 msg fs c
  /-- A rename looks up the new path and renames to it. -/
  | rename {r tree id of newName c} (ht : Target s0 msg r tree id of)
      (hcmd : msg.cmd = .setInfo) (hro : tree.isReadOnly = false)
      (hname : renameTarget msg.payload = some (id, newName))
      (hfs : (s0.shareHeap tree.share).fs = some fs) (hfile : c.file? = none)
      (hpaths : ∀ p ∈ c.paths, p = of.path ∨ p = renamePath of.path newName) :
      Permitted s0 msg fs c
  /-- CLOSE removes a file that was marked for deletion. -/
  | removed {r tree id of} (ht : Target s0 msg r tree id of) (hcmd : msg.cmd = .close)
      (hdel : of.deleteOnClose = true) (hfs : (s0.shareHeap tree.share).fs = some fs) :
      Permitted s0 msg fs (.remove of.path)
  /-- The file of a released handle is closed. -/
  | closed {sh id of f} (hview : (s0.handlesOf sh).view id = some of) (hmine : Mine s0 msg sh of)
      (hof : of.file = some (fs, f)) : Permitted s0 msg fs (.close f)

/-! ## Writes to the record of a handle -/

/-- The writes a request may make to the record of the handle it names. -/
inductive Edit (msg : SMB2Message) (o : Oracle) (tree : TreeConnection) (id : FileID)
    (of : B.OpenFile) : (B.OpenFile → B.OpenFile) → Prop where
  | lastAccess : Edit msg o tree id of fun of => { of with lastAccess := o.now }
  | deleteOnClose (b : Bool) (hcmd : msg.cmd = .setInfo) (hro : tree.isReadOnly = false) :
      Edit msg o tree id of fun of => { of with deleteOnClose := b }
  | path {newName} (hcmd : msg.cmd = .setInfo) (hro : tree.isReadOnly = false)
      (hname : renameTarget msg.payload = some (id, newName)) :
      Edit msg o tree id of fun of' => { of' with path := renamePath of.path newName }

/-- The record CREATE allocates. -/
def createdFile (m : B.FileHandleMap) (o : Oracle) (req : CreateRequest)
    (file : FileObj B) (filename : Str) (isDir : Bool) (treeID : UInt32) (sessionID : UInt64) :
    B.OpenFile :=
  { m.newOpenFile o.handleRand o.now (some file) filename isDir req.desiredAccess req.shareAccess
      req.createDisposition req.createOptions treeID sessionID with
    deleteOnClose := req.deleteOnClose }

theorem run_allocate (session : SessionRef) (tree : TreeConnection) (file : FileObj B)
    (filename : Str) (isDir : Bool) (req : CreateRequest) (o : Oracle) (s : Server B) :
    let of := createdFile (s.handlesOf tree.share) o req file filename isDir tree.id
      (s.sessions.heap session).id
    allocate session tree file filename isDir req o s =
      .ok of.id (s.modifyHandles tree.share fun m => m.allocate of) := by
  unfold allocate createdFile
  simp only [M.run_get_bind, M.run_modify_bind, M.run_pure]
  refine congrArg _ (Server.modifyHandles_congr ?_)
  cases req.deleteOnClose with
  | true =>
    exact FileHandleMap.allocate_modify _ _ (f := fun of => { of with deleteOnClose := true }) rfl rfl
  | false => rfl

/-! ## Changes -/

/-- The writes of a request that the connection `k` sent. -/
inductive Change (P : Platform) (k : ConnId) (msg : SMB2Message) (o : Oracle) (s0 : Server B) :
    Server B → Server B → Prop where
  | setConn {s} (c : ConnState) : Change P k msg o s0 s (s.setConn k c)
  | storeDirState {s} (id : FileID) (d : DirEnumState) :
      Change P k msg o s0 s (s.storeDirState id d)
  | call {s fs c} (h : Permitted s0 msg fs c) : Change P k msg o s0 s (s.exec fs c)
  -- SESSION_SETUP
  | createSession (hcmd : msg.cmd = .sessionSetup) (hnew : selectSession s0.sessions msg = none) :
      Change P k msg o s0 s0 { s0 with
        sessions := s0.sessions.createSession o.sessionRand o.now s0.options.maxDialect (zeros 16)
          (s0.conns k).remoteAddr }
  | setAuthenticator {s} (a : NTLMAuthenticator) (hcmd : msg.cmd = .sessionSetup) :
      Change P k msg o s0 s (s.modifySession (setupRef s0 msg) fun session =>
        { session with authenticator := some a })
  | setValid {s} (result : AuthResult) (key : Option Bytes) (hcmd : msg.cmd = .sessionSetup)
      (hold : ∀ r, selectSession s0.sessions msg = some r → ∃ blob a,
        securityBlob msg.payload = some blob ∧ (authenticatorOf P s0 r).authenticate P o.now
          o.challenge blob = some (result, a) ∧ result.success = true)
      (hnew : selectSession s0.sessions msg = none →
        (s.sessions.heap s0.sessions.nextRef).trees = ∅) :
      Change P k msg o s0 s (s.modifySession (setupRef s0 msg) fun session =>
        session.setValid result.username result.domain result.isGuest key o.now)
  | destroyNew {s id} (hcmd : msg.cmd = .sessionSetup)
      (hlookup : s.sessions.sessions.lookup id = some s0.sessions.nextRef)
      (htrees : (s.sessions.heap s0.sessions.nextRef).trees = ∅) :
      Change P k msg o s0 s { s with sessions := s.sessions.destroySession id }
  -- LOGOFF, TREE_CONNECT, TREE_DISCONNECT
  | logoff {s r} (hcmd : msg.cmd = .logoff)
      (hsession : s0.sessions.validateSession msg.header.sessionID = some r)
      (hs : s.sessions = s0.sessions)
      (hreleased : ∀ t ∈ (s0.sessions.heap r).trees.values, ∀ id of,
        (s.handlesOf t.share).view id = some of →
          ¬ (of.treeID = t.id ∧ of.sessionID = (s0.sessions.heap r).id)) :
      Change P k msg o s0 s
        { s with sessions := s.sessions.destroySession (s0.sessions.heap r).id }
  | addTree {r sh shareName} (hcmd : msg.cmd = .treeConnect)
      (hsession : s0.sessions.validateSession msg.header.sessionID = some r)
      (hshare : s0.shares.lookup shareName = some sh)
      (haccess : (s0.shareHeap sh).checkUserAccess (s0.sessions.heap r).username
        (s0.sessions.heap r).isGuest = true) :
      Change P k msg o s0 s0 (s0.modifySession r fun session => session.addTreeConnection
        ((s0.sessions.heap r).newTree shareName sh (s0.shareHeap sh).isReadOnly o.now))
  | removeTree {s r tree} (hcmd : msg.cmd = .treeDisconnect) (hauth : Auth s0 msg r tree)
      (hs : s.sessions = s0.sessions)
      (hreleased : ∀ id of, (s.handlesOf tree.share).view id = some of →
        ¬ (of.treeID = tree.id ∧ of.sessionID = (s0.sessions.heap r).id)) :
      Change P k msg o s0 s (s.modifySession r fun session => session.removeTreeConnection tree.id)
  -- handles
  | allocate {s r tree filename} (file : FileObj B) (isDir : Bool) (hauth : Auth s0 msg r tree)
      (hcmd : msg.cmd = .create) (hname : createFilename msg.payload = some filename)
      (hcheck : (s0.handlesOf tree.share).checkShareAccess filename msg.create.desiredAccess
        msg.create.shareAccess = true)
      (hheap : s.shareHeap = s0.shareHeap) (hs : s.sessions = s0.sessions)
      (hfs : (s0.shareHeap tree.share).fs = some file.1) :
      Change P k msg o s0 s (s.modifyHandles tree.share fun m => m.allocate
        (createdFile (s0.handlesOf tree.share) o msg.create file filename
          isDir tree.id (s0.sessions.heap r).id))
  | edit {s r tree id of f} (ht : Target s0 msg r tree id of) (he : Edit msg o tree id of f) :
      Change P k msg o s0 s (s.modifyHandles tree.share fun m => m.modifyID id f)
  | release {s sh id of} (hview : (s0.handlesOf sh).view id = some of)
      (hmine : Mine s0 msg sh of) (hcmd : msg.cmd.releases = true) :
      Change P k msg o s0 s (s.modifyHandles sh fun m => m.release id)

/-! ## Writes -/

/-- `fs.Remove`. -/
def FsCall.isRemove {File : Type} : FsCall File → Bool
  | .remove _ => true
  | _ => false

/-- The commands whose handlers write to the state of the connection. -/
def Command.writesConn : Command → Bool
  | .negotiate | .sessionSetup | .logoff => true
  | _ => false

/-- The changes by the part of the server they write to, with the commands that do so. -/
inductive Write (P : Platform) (k : ConnId) (msg : SMB2Message) (o : Oracle) (s0 : Server B) :
    Server B → Server B → Prop where
  | conn {s} (c : ConnState) (hcmd : msg.cmd.writesConn = true) :
      Write P k msg o s0 s (s.setConn k c)
  | dirState {s} (id : FileID) (d : DirEnumState) (hcmd : msg.cmd = .queryDirectory) :
      Write P k msg o s0 s (s.storeDirState id d)
  | call {s fs c} (h : Permitted s0 msg fs c) (hremove : c.isRemove = true → msg.cmd = .close) :
      Write P k msg o s0 s (s.exec fs c)
  | sessions {s m} (h : Change P k msg o s0 s { s with sessions := m }) :
      Write P k msg o s0 s { s with sessions := m }
  -- SET_INFO writes to the handle that the record names: that of the request, if the maps are right
  | handles {s sh g}
      (h : (∀ sh, (s0.handlesOf sh).WF) → Change P k msg o s0 s (s.modifyHandles sh g)) :
      Write P k msg o s0 s (s.modifyHandles sh g)

/-- What makes a handler panic: a handle without a file, a share without a
filesystem, or what SESSION_SETUP and QUERY_DIRECTORY slice. -/
inductive Panics (msg : SMB2Message) (s0 : Server B) : Prop where
  | file {r tree id of} (ht : Target s0 msg r tree id of) (hof : of.file = none)
  | share {r tree id of} (ht : Target s0 msg r tree id of) (hfs : (s0.shareHeap tree.share).fs = none)
  | create {r tree filename} (hcmd : msg.cmd = .create) (hauth : Auth s0 msg r tree)
      (hwell : wellFormed msg.payload 56 57 = true)
      (hname : createFilename msg.payload = some filename)
      (hcheck : (s0.handlesOf tree.share).checkShareAccess filename msg.create.desiredAccess
        msg.create.shareAccess = true)
      (hfs : (s0.shareHeap tree.share).fs = none)
  | slice (hcmd : msg.cmd = .sessionSetup ∨ msg.cmd = .queryDirectory)

/-- How a handler stops early: with an error status, or in a panic. -/
def Exit (msg : SMB2Message) (s0 : Server B) : Stop → Prop
  | .status st => st ≠ .success
  | .crash => Panics msg s0

theorem Write.change {P : Platform} {k : ConnId} {msg : SMB2Message} {o : Oracle}
    {s0 s s' : Server B} (hwf : ∀ sh, (s0.handlesOf sh).WF) (h : Write P k msg o s0 s s') :
    Change P k msg o s0 s s' := by
  cases h with
  | conn c _ => exact .setConn c
  | dirState id d _ => exact .storeDirState id d
  | call h _ => exact .call h
  | sessions h => exact h
  | handles h => exact h hwf

theorem FsCall.isRemove_eq_false {File : Type} {c : FsCall File} {f : File}
    (h : c.file? = some f) : c.isRemove = false := by
  cases c with
  | remove path => cases h
  | _ => rfl

/-- What a tick of the cleanup loop does. -/
inductive Sweep (now : GoTime) : Server B → Server B → Prop where
  | expire {s} : Sweep now s { s with sessions := s.sessions.cleanupExpired now }
  | release {s} (sh : ShareRef) (id : FileID) :
      Sweep now s (s.modifyHandles sh fun m => m.release id)
  | close {s} (fs : FsRef) (f : B.File) : Sweep now s (s.exec fs (.close f))

/-! ## Rules for the primitives -/

/-- Every error status is an exit with `E`. -/
class Errs (E : Stop → Prop) : Prop where
  status {st : NTStatus} : st ≠ .success → E (.status st)

instance (msg : SMB2Message) (s0 : Server B) : Errs (Exit msg s0) := ⟨id⟩

instance : Errs fun _ => True := ⟨fun _ => trivial⟩

/-- Only the filesystems were called. -/
def FsOnly (s s' : Server B) : Prop := ∃ d l, s' = { s with disks := d, log := l }

theorem FsOnly.refl (s : Server B) : FsOnly s s := ⟨s.disks, s.log, rfl⟩

theorem FsOnly.exec {s s' : Server B} (h : FsOnly s s') (fs : FsRef) (c : FsCall B.File) :
    FsOnly s (s'.exec fs c) := by
  obtain ⟨d, l, rfl⟩ := h
  exact ⟨_, _, rfl⟩

namespace M

variable {α β : Type} {R : Server B → Server B → Prop} {E : Stop → Prop} {s : Server B}
  {Q : β → Server B → Prop}

theorem bind_get {f : Server B → M B β} (h : Runs R E (f s) s Q) : Runs R E (M.get >>= f) s Q :=
  Runs.bind (Runs.get (Q := fun a s' => a = s ∧ s' = s) ⟨rfl, rfl⟩) fun _ _ ⟨ha, hs⟩ =>
    ha ▸ hs ▸ h

variable {f : α → M B β}

theorem bind_throw {e : Stop} (hE : E e) : Runs R E ((throw e : M B α) >>= f) s Q :=
  .bind (Q := fun _ _ => False) (.throw hE) fun _ _ => False.elim

section

variable [Errs E] {st : NTStatus}

theorem bind_failIf {c : Bool} {f : Unit → M B β}
    (hst : st ≠ .success) (h : c = false → Runs R E (f ()) s Q) :
    Runs R E (M.failIf c st >>= f) s Q := by
  cases c with
  | true => exact bind_throw (Errs.status hst)
  | false => exact h rfl

theorem failIf_runs (c : Bool) (hst : st ≠ .success) :
    Runs R E (M.failIf c st) s fun _ _ => True := by
  cases c with
  | true => exact .throw (Errs.status hst)
  | false => exact .pure trivial

theorem require_runs (x : Option α) (hst : st ≠ .success) :
    Runs R E (M.require x st) s fun _ _ => True := by
  cases x with
  | none => exact .throw (Errs.status hst)
  | some a => exact .pure trivial

theorem bind_require {x : Option α} (hst : st ≠ .success)
    (h : ∀ a, x = some a → Runs R E (f a) s Q) :
    Runs R E (M.require x st >>= f) s Q := by
  cases x with
  | none => exact bind_throw (Errs.status hst)
  | some a => exact h a rfl

end

theorem bind_deref {x : Option α} (hE : x = none → E .crash)
    (h : ∀ a, x = some a → Runs R E (f a) s Q) : Runs R E (M.deref x >>= f) s Q := by
  cases x with
  | none => exact bind_throw (hE rfl)
  | some a => exact h a rfl

variable {g : Server B → Server B}

theorem modify_runs (hR : R s (g s)) :
    Runs R E (M.modify g) s fun _ s' => s' = g s := .modify hR rfl

theorem bind_modify {f : Unit → M B β} (hR : R s (g s))
    (h : Runs R E (f ()) (g s) Q) : Runs R E (M.modify g >>= f) s Q :=
  .bind (modify_runs hR) fun _ _ hs => hs ▸ h

variable {c : FsCall B.File} {fs : FsRef}

theorem call_runs (hR : R s (s.exec fs c)) :
    Runs R E (M.call fs c) s fun _ s' => s' = s.exec fs c :=
  ⟨.single hR, rfl⟩

theorem bind_call_eq {f : c.Reply → M B β}
    (hR : R s (s.exec fs c)) (h : Runs R E (f (B.exec c (s.disks fs)).1) (s.exec fs c) Q) :
    Runs R E (M.call fs c >>= f) s Q :=
  .bind (Q := fun a s' => a = (B.exec c (s.disks fs)).1 ∧ s' = s.exec fs c) ⟨.single hR, rfl, rfl⟩
    fun _ _ ⟨ha, hs⟩ => ha ▸ hs ▸ h

theorem bind_call {f : c.Reply → M B β} (hR : R s (s.exec fs c))
    (h : ∀ a, Runs R E (f a) (s.exec fs c) Q) : Runs R E (M.call fs c >>= f) s Q :=
  bind_call_eq hR (h _)

end M

end Smbfs
