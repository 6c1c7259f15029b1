import Smbfs.Lib.Walk
import Smbfs.Server.HandleMap
import Smbfs.Server.Session

/-!
Shares and the server state (`server_config.go`, `server.go`), and the monad
the handlers are written in. A handler reads and writes the server, returns
early with a status, or panics; what it did before stays done.

Shares are pointers held by the registry and by tree connections, so they
live in a heap, as do the backing filesystems, which shares may have in
common. `log` records every call made on a filesystem.
-/

namespace Smbfs

open Smbfs.Lib

abbrev FsRef := Nat
abbrev ConnId := Nat

/-- The fields of `ShareOptions` that the server reads, and `SharePath`. -/
structure ShareOptions where
  shareName : Str
  sharePath : Str
  shareType : UInt8
  readOnly : Bool
  allowGuest : Bool
  allowedUsers : List Str

/-- `Share`. The filesystem of IPC$ is nil. -/
structure Share (File : Type) where
  fs : Option FsRef
  options : ShareOptions
  fileHandles : FileHandleMap File

namespace Share

variable {File : Type}

/-- `NewShare`. -/
def new (fs : Option FsRef) (options : ShareOptions) : Share File :=
  ⟨fs, options, newFileHandleMap File⟩

def isReadOnly (s : Share File) : Bool := s.options.readOnly

def getShareType (s : Share File) : UInt8 :=
  if s.options.shareType = 0 then 1 else s.options.shareType

def checkUserAccess (s : Share File) (username : Str) (isGuest : Bool) : Bool :=
  if isGuest then s.options.allowGuest
  else if s.options.allowedUsers.isEmpty then true
  else s.options.allowedUsers.contains username

end Share

/-- The fields of `ServerOptions` that the handlers read. -/
structure ServerOptions where
  minDialect : SMBDialect
  maxDialect : SMBDialect
  signingRequired : Bool
  idleTimeout : Int
  serverGUID : Bytes
  serverName : Str
  users : GoMap Str Str
  allowGuest : Bool
  maxReadSize : UInt32
  maxWriteSize : UInt32

/-- The defaults `NewServer` fills in; `rand` is the generated GUID. -/
def ServerOptions.applyDefaults (o : ServerOptions) (rand : Bytes) : ServerOptions :=
  { o with
    minDialect := if o.minDialect = 0 then smb2_0_2 else o.minDialect
    maxDialect := if o.maxDialect = 0 then smb3_1_1 else o.maxDialect
    idleTimeout := if o.idleTimeout = 0 then fifteenMinutes else o.idleTimeout
    maxReadSize := if o.maxReadSize = 0 then 8 * 1024 * 1024 else o.maxReadSize
    maxWriteSize := if o.maxWriteSize = 0 then 8 * 1024 * 1024 else o.maxWriteSize
    serverGUID := if o.serverGUID = zeros 16 then rand else o.serverGUID }

structure ConnState where
  session : Option SessionRef
  remoteAddr : Str
  dialect : SMBDialect
  signingRequired : Bool
  preauthHash : Bytes

def ConnState.new (remoteAddr : Str) : ConnState := ⟨none, remoteAddr, 0, false, []⟩

/-- `dirEnumState`; the nil list of entries is the empty one. -/
structure DirEnumState where
  entries : List FileInfo
  position : Nat
  pattern : Str
  exhausted : Bool

/-- An `absfs.File`: an open file of one of the filesystems. -/
abbrev FileObj (B : Backend) := FsRef × B.File

abbrev Backend.OpenFile (B : Backend) := Smbfs.OpenFile (FileObj B)

abbrev Backend.FileHandleMap (B : Backend) := Smbfs.FileHandleMap (FileObj B)

/-- `Server`, with the handlers' global `dirStates`. -/
structure Server (B : Backend) where
  options : ServerOptions
  shares : GoMap Str ShareRef
  shareHeap : ShareRef → Share (FileObj B)
  nextShare : ShareRef
  sessions : SessionManager
  conns : ConnId → ConnState
  dirStates : GoMap FileID DirEnumState
  disks : FsRef → B.Disk
  log : List (FsRef × FsCall B.File)

def ipcName : Str := ['I', 'P', 'C', '$']

/-- `addIPCShare`. -/
def ipcShare (File : Type) : Share File :=
  .new none ⟨ipcName, [], 2, false, true, []⟩

/-- `NewServer`, over the given filesystems. -/
def newServer {B : Backend} (options : ServerOptions) (rand : Bytes) (disks : FsRef → B.Disk) :
    Server B :=
  let options := options.applyDefaults rand
  { options := options
    shares := (∅ : GoMap Str ShareRef).insert ipcName 0
    shareHeap := fun _ => ipcShare (FileObj B)
    nextShare := 1
    sessions := newSessionManager options.idleTimeout
    conns := fun _ => .new []
    dirStates := ∅
    disks := disks
    log := [] }

namespace Server

variable {B : Backend}

/-- A call on filesystem `k`. -/
def exec (s : Server B) (k : FsRef) (c : FsCall B.File) : Server B :=
  { s with
    disks := Function.update s.disks k (B.exec c (s.disks k)).2
    log := s.log ++ [(k, c)] }

theorem disks_exec (s : Server B) (k : FsRef) (c : FsCall B.File) :
    (s.exec k c).disks k = (B.exec c (s.disks k)).2 := Function.update_self ..

theorem disks_exec_of_ne (s : Server B) {k k' : FsRef} (c : FsCall B.File) (h : k' ≠ k) :
    (s.exec k c).disks k' = s.disks k' := Function.update_of_ne h ..

/-- Calls that do not mutate keep the content of every filesystem. -/
theorem content_exec (s : Server B) (fs : FsRef) {c : FsCall B.File} (hc : c.mutates = false)
    (fs' : FsRef) : B.content ((s.exec fs c).disks fs') = B.content (s.disks fs') := by
  by_cases hfs : fs' = fs
  · subst hfs
    simp only [Server.exec, Function.update_self]
    exact B.content_exec c _ hc
  · simp only [Server.exec, Function.update_of_ne hfs]

/-- The handle map of a share. -/
def handlesOf (s : Server B) (sh : ShareRef) : B.FileHandleMap :=
  (s.shareHeap sh).fileHandles

/-- A change of the handle map of a share. -/
def modifyHandles (s : Server B) (sh : ShareRef)
    (f : B.FileHandleMap → B.FileHandleMap) : Server B :=
  { s with
    shareHeap := Function.update s.shareHeap sh
      { s.shareHeap sh with fileHandles := f (s.handlesOf sh) } }

theorem modifyHandles_congr {s : Server B} {sh : ShareRef}
    {f g : B.FileHandleMap → B.FileHandleMap}
    (h : f (s.handlesOf sh) = g (s.handlesOf sh)) : s.modifyHandles sh f = s.modifyHandles sh g := by
  simp only [modifyHandles, h]

theorem handlesOf_modifyHandles (s : Server B) (sh sh' : ShareRef)
    (f : B.FileHandleMap → B.FileHandleMap) :
    (s.modifyHandles sh f).handlesOf sh' =
      if sh' = sh then f (s.handlesOf sh) else s.handlesOf sh' := by
  by_cases h : sh' = sh
  · subst h
    simp [modifyHandles, handlesOf]
  · simp [modifyHandles, handlesOf, h]

theorem modifyHandles_fs (s : Server B) (sh sh' : ShareRef)
    (f : B.FileHandleMap → B.FileHandleMap) :
    ((s.modifyHandles sh f).shareHeap sh').fs = (s.shareHeap sh').fs := by
  by_cases h : sh' = sh
  · subst h
    simp [modifyHandles]
  · simp [modifyHandles, h]

theorem modifyHandles_options (s : Server B) (sh sh' : ShareRef)
    (f : B.FileHandleMap → B.FileHandleMap) :
    ((s.modifyHandles sh f).shareHeap sh').options = (s.shareHeap sh').options := by
  by_cases h : sh' = sh
  · subst h
    simp [modifyHandles]
  · simp [modifyHandles, h]

/-- A write to the session at `r`. -/
def modifySession (s : Server B) (r : SessionRef) (f : Session → Session) : Server B :=
  { s with sessions := s.sessions.modify r f }

theorem heap_modifySession (s : Server B) (r r' : SessionRef) (f : Session → Session) :
    (s.modifySession r f).sessions.heap r' =
      if r' = r then f (s.sessions.heap r) else s.sessions.heap r' := by
  by_cases h : r' = r
  · subst h
    simp [modifySession, SessionManager.modify]
  · simp [modifySession, SessionManager.modify, h]

def setConn (s : Server B) (k : ConnId) (c : ConnState) : Server B :=
  { s with conns := Function.update s.conns k c }

def storeDirState (s : Server B) (id : FileID) (d : DirEnumState) : Server B :=
  { s with dirStates := s.dirStates.insert id d }

/-- `AddShare`; it fails when the name is empty or taken. -/
def addShare (s : Server B) (fs : Option FsRef) (options : ShareOptions) : Server B :=
  if options.shareName = [] ∨ (s.shares.lookup options.shareName).isSome then s
  else
    { s with
      shares := s.shares.insert options.shareName s.nextShare
      shareHeap := Function.update s.shareHeap s.nextShare (.new fs options)
      nextShare := s.nextShare + 1 }

def removeShare (s : Server B) (shareName : Str) : Server B :=
  { s with shares := s.shares.erase shareName }

end Server

/-! ## Handlers -/

/-- What a request brings from outside: the clock and the random sources. -/
structure Oracle where
  now : GoTime
  sessionRand : Option UInt64
  handleRand : Option UInt64
  challenge : Bytes

/-- Why a handler stops before its end. -/
inductive Stop where
  | status (st : NTStatus)
  | crash

/-- A computation on the server that may stop early. -/
abbrev M (B : Backend) := EStateM Stop (Server B)

namespace M

variable {B : Backend} {α : Type}

/-- `return h.buildErrorResponse(), st`. -/
def fail (st : NTStatus) : M B α := throw (.status st)

/-- A run-time panic. -/
def crash : M B α := throw .crash

def failIf (c : Bool) (st : NTStatus) : M B Unit := if c then fail st else pure ()

def get : M B (Server B) := EStateM.get

def modify (f : Server B → Server B) : M B Unit := EStateM.modifyGet fun s => ((), f s)

/-- The value of a pointer or slice expression, which panics on nil or out of range. -/
def deref (x : Option α) : M B α :=
  match x with
  | some a => pure a
  | none => crash

/-- A value, or the status to return without it. -/
def require (x : Option α) (st : NTStatus) : M B α :=
  match x with
  | some a => pure a
  | none => fail st

/-- A call on filesystem `k`. -/
def call (k : FsRef) (c : FsCall B.File) : M B c.Reply :=
  EStateM.modifyGet fun s => ((B.exec c (s.disks k)).1, s.exec k c)

/-! A computation is run by its first primitive. -/

variable {β : Type} (s : Server B)

@[simp] theorem run_pure (a : α) : (pure a : M B α) s = .ok a s := rfl

@[simp] theorem run_fail (st : NTStatus) : (fail st : M B α) s = .error (.status st) s := rfl

@[simp] theorem run_get_bind (f : Server B → M B β) : (get >>= f) s = f s s := rfl

@[simp] theorem run_modify_bind (g : Server B → Server B) (f : Unit → M B β) :
    (modify g >>= f) s = f () (g s) := rfl

@[simp] theorem run_call_bind (k : FsRef) (c : FsCall B.File) (f : c.Reply → M B β) :
    (call k c >>= f) s = f (B.exec c (s.disks k)).1 (s.exec k c) := rfl

@[simp] theorem run_failIf_bind (c : Bool) (st : NTStatus) (f : Unit → M B β) :
    (failIf c st >>= f) s = if c then .error (.status st) s else f () s := by
  cases c <;> rfl

@[simp] theorem run_require_bind (x : Option α) (st : NTStatus) (f : α → M B β) :
    (require x st >>= f) s =
      match x with
      | some a => f a s
      | none => .error (.status st) s := by
  cases x <;> rfl

@[simp] theorem run_deref_bind (x : Option α) (f : α → M B β) :
    (deref x >>= f) s =
      match x with
      | some a => f a s
      | none => .error .crash s := by
  cases x <;> rfl

end M

end Smbfs
