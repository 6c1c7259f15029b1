import Smbfs.Handlers.Common

/-! CREATE, CLOSE, READ, WRITE and FLUSH, `smb2_file.go`. -/

namespace Smbfs

open Smbfs.Lib

variable {B : Backend}

/-! ## CREATE -/

/-- The fields of a CREATE request that the handler uses. -/
structure CreateRequest where
  desiredAccess : UInt32
  shareAccess : UInt32
  createDisposition : UInt32
  createOptions : UInt32
  nameOffset : UInt16
  nameLength : UInt16

namespace CreateRequest

def read : Reader CreateRequest := do
  let _ ← Reader.readUint16 -- StructureSize
  let _ ← Reader.readOneByte -- SecurityFlags
  let _ ← Reader.readOneByte -- RequestedOplockLevel
  let _ ← Reader.readUint32 -- ImpersonationLevel
  let _ ← Reader.readUint64 -- SmbCreateFlags
  let _ ← Reader.readUint64 -- Reserved
  let desiredAccess ← Reader.readUint32
  let _ ← Reader.readUint32 -- FileAttributes
  let shareAccess ← Reader.readUint32
  let createDisposition ← Reader.readUint32
  let createOptions ← Reader.readUint32
  let nameOffset ← Reader.readUint16
  let nameLength ← Reader.readUint16
  let _ ← Reader.readUint32 -- CreateContextsOffset
  let _ ← Reader.readUint32 -- CreateContextsLength
  return ⟨desiredAccess, shareAccess, createDisposition, createOptions, nameOffset, nameLength⟩

def ofPayload (payload : Bytes) : CreateRequest := read.parse payload

def wantDir (req : CreateRequest) : Bool := hasBits req.createOptions fileDirectoryFile
def wantFile (req : CreateRequest) : Bool := hasBits req.createOptions fileNonDirectoryFile
def deleteOnClose (req : CreateRequest) : Bool := hasBits req.createOptions fileDeleteOnClose

end CreateRequest

abbrev SMB2Message.create (msg : SMB2Message) : CreateRequest := .ofPayload msg.payload

/-- `strings.ReplaceAll(filename, "\\", "/")`. -/
def slashed (name : Str) : Str := name.map fun c => if c = '\\' then '/' else c

/-- `strings.TrimPrefix(filename, "/")`. -/
def trimSlash : Str → Str
  | '/' :: name => name
  | name => name

/-- The path of a CREATE request, from the name as it was sent. -/
def createPath (name : Str) : Str :=
  let filename := trimSlash (slashed name)
  if filename = [] then ['/'] else filename

/-- The path of a CREATE request, if its name lies inside the payload. -/
def createFilename (payload : Bytes) : Option Str :=
  let req := CreateRequest.ofPayload payload
  (messageBuffer payload req.nameOffset.toNat req.nameLength.toNat).map fun b =>
    createPath (decodeUTF16LEToString b)

def oRdwr : OpenFlags := ⟨true, false, false⟩
def oRdonly : OpenFlags := ⟨false, false, false⟩
def oCreate : OpenFlags := ⟨true, true, false⟩
def oTrunc : OpenFlags := ⟨true, false, true⟩
def oCreateTrunc : OpenFlags := ⟨true, true, true⟩

/-- An existing file is opened: its kind is checked, and a file that cannot be
opened for writing is opened read-only. -/
def openExisting (fs : FsRef) (filename : Str) (req : CreateRequest) (info : FileInfo) :
    M B (Except GoError B.File) := do
  M.failIf (req.wantDir && !info.isDir) .notADirectory
  M.failIf (req.wantFile && info.isDir) .fileIsADirectory
  let file ← M.call fs (.openFile filename oRdwr 0)
  match file with
  | .ok f => return .ok f
  | .error _ => M.call fs (.openFile filename oRdonly 0)

/-- A file or directory that does not exist is created. -/
def createNew (fs : FsRef) (tree : TreeConnection) (filename : Str) (req : CreateRequest) :
    M B (Except GoError B.File) := do
  M.failIf tree.isReadOnly .accessDenied
  if req.wantDir then
    let err ← M.call fs (.mkdir filename 0o755)
    match err with
    | none => M.call fs (.openFile filename oRdonly 0)
    | some err => return .error err
  else M.call fs (.openFile filename oCreate 0o644)

/-- FILE_OVERWRITE_IF and FILE_SUPERSEDE. -/
def replaceFile (fs : FsRef) (tree : TreeConnection) (filename : Str)
    (info : Except GoError FileInfo) (replaced : CreateAction) :
    M B (Except GoError B.File × CreateAction) := do
  M.failIf tree.isReadOnly .accessDenied
  M.failIf (match info with | .ok info => info.isDir | .error _ => false) .fileIsADirectory
  let file ← M.call fs (.openFile filename oCreateTrunc 0o644)
  return (file, if info.isOk then replaced else .created)

/-- The create dispositions; `info` is the result of `Stat`. -/
def openByDisposition (fs : FsRef) (tree : TreeConnection) (filename : Str) (req : CreateRequest)
    (info : Except GoError FileInfo) : M B (Except GoError B.File × CreateAction) :=
  match CreateDisposition.ofCode req.createDisposition with
  | none => M.fail .invalidParameter
  | some .open =>
    match info with
    | .error _ => M.fail .objectNameNotFound
    | .ok info => do return (← openExisting fs filename req info, .opened)
  | some .create =>
    match info with
    | .ok _ => M.fail .objectNameCollision
    | .error _ => do return (← createNew fs tree filename req, .created)
  | some .openIf =>
    match info with
    | .ok info => do return (← openExisting fs filename req info, .opened)
    | .error _ => do return (← createNew fs tree filename req, .created)
  | some .overwrite =>
    match info with
    | .error _ => M.fail .objectNameNotFound
    | .ok info => do
      M.failIf tree.isReadOnly .accessDenied
      M.failIf info.isDir .fileIsADirectory
      return (← M.call fs (.openFile filename oTrunc 0o644), .overwritten)
  | some .overwriteIf => replaceFile fs tree filename info .overwritten
  | some .supersede => replaceFile fs tree filename info .superseded

/-- `(size + 4095) &^ 4095`. -/
def allocationSize (size : Int64) : UInt64 := ((size + 4095) &&& ~~~4095).toUInt64

/-- The four times and the two sizes of CREATE and CLOSE responses. -/
def fileTimesAndSizes (info : FileInfo) : Bytes :=
  let t := putUint64 (timeToFiletime info.modTime)
  t ++ t ++ t ++ t ++ putUint64 (allocationSize info.size) ++ putUint64 info.size.toUInt64

def createResponse (action : CreateAction) (info : FileInfo) (id : FileID) : Bytes :=
  let attrs := if info.isDir then fileAttributeDirectory else fileAttributeNormal
  let attrs := if info.name.head? = some '.' then attrs ||| fileAttributeHidden else attrs
  putUint16 89 ++ [0, 0] ++ putUint32 action.code ++ fileTimesAndSizes info ++
    putUint32 attrs ++ putUint32 0 ++ putFileID id ++ putUint32 0 ++ putUint32 0

/-- `Allocate` for a CREATE request, and the delete-on-close flag set on the
record it returns. -/
def allocate (session : SessionRef) (tree : TreeConnection) (file : FileObj B) (filename : Str)
    (isDir : Bool) (req : CreateRequest) (o : Oracle) : M B FileID := do
  let s ← M.get
  let of := (s.handlesOf tree.share).newOpenFile o.handleRand o.now (some file) filename isDir
    req.desiredAccess req.shareAccess req.createDisposition req.createOptions tree.id
    (s.sessions.heap session).id
  M.modify fun s => s.modifyHandles tree.share fun m =>
    if req.deleteOnClose then
      (m.allocate of).modify m.nextHandle fun of => { of with deleteOnClose := true }
    else m.allocate of
  return of.id

/-- CREATE from where it has called `Stat`. -/
def createOpened (session : SessionRef) (tree : TreeConnection) (fs : FsRef) (filename : Str)
    (req : CreateRequest) (o : Oracle) (info : Except GoError FileInfo) : M B Reply := do
  let (file, action) ← openByDisposition fs tree filename req info
  match file with
  | .error err => M.fail (mapGoErrorToNTStatus err)
  | .ok file =>
    let info ← M.call fs (.fileStat file)
    match info with
    | .error err =>
      let _ ← M.call fs (.close file)
      M.fail (mapGoErrorToNTStatus err)
    | .ok info =>
      let id ← allocate session tree (fs, file) filename info.isDir req o
      return .ok (createResponse action info id)

def handleCreate (msg : SMB2Message) (o : Oracle) : M B Reply := do
  let (session, tree) ← validateTree msg.header
  checkRequest msg.payload 56 57
  let req := msg.create
  let filename ← M.require (createFilename msg.payload) .invalidParameter
  let s ← M.get
  M.failIf (!(s.handlesOf tree.share).checkShareAccess filename req.desiredAccess req.shareAccess)
    .sharingViolation
  let fs ← shareFs tree.share
  let info ← M.call fs (.stat filename)
  createOpened session tree fs filename req o info

/-! ## CLOSE -/

structure CloseRequest where
  flags : UInt16
  fileID : FileID

def CloseRequest.read : Reader CloseRequest := do
  let _ ← Reader.readUint16 -- StructureSize
  let flags ← Reader.readUint16
  let _ ← Reader.readUint32 -- Reserved
  let fileID ← Reader.readFileID
  return ⟨flags, fileID⟩

def CloseRequest.ofPayload (payload : Bytes) : CloseRequest := CloseRequest.read.parse payload

abbrev SMB2Message.close (msg : SMB2Message) : CloseRequest := .ofPayload msg.payload

def closeResponse (flags : UInt16) (info : Option FileInfo) : Bytes :=
  putUint16 60 ++ putUint16 flags ++ putUint32 0 ++
    match info with
    | some info => fileTimesAndSizes info ++
        putUint32 (if info.isDir then fileAttributeDirectory else fileAttributeNormal)
    | none => zeros 52

/-- `of.File.Stat()`, when the request asks for it. -/
def postQuery (flags : UInt16) (of : B.OpenFile) : M B (Option FileInfo) :=
  if flags &&& 0x0001 ≠ 0 then do
    let f ← M.deref of.file
    let info ← M.call f.1 (.fileStat f.2)
    return info.toOption
  else return none

/-- `postQuery` calls `Stat` at most. -/
theorem run_postQuery (flags : UInt16) (of : B.OpenFile) (s : Server B) :
    (of.file = none ∧ postQuery flags of s = .error .crash s) ∨
      ∃ info s', postQuery flags of s = .ok info s' ∧
        (s' = s ∨ ∃ f : FileObj B, s' = s.exec f.1 (.fileStat f.2)) := by
  unfold postQuery
  split
  · rw [M.run_deref_bind]
    cases of.file with
    | none => exact .inl ⟨rfl, rfl⟩
    | some f => exact .inr ⟨_, _, rfl, .inr ⟨f, rfl⟩⟩
  · exact .inr ⟨_, _, rfl, .inl rfl⟩

/-- CLOSE from where it has released the handle. The error of `Remove` hides the file
information. -/
def closeReleased (req : CloseRequest) (tree : TreeConnection) (of : B.OpenFile)
    (info : Option FileInfo) : M B Reply := do
  if of.deleteOnClose then
    let fs ← shareFs tree.share
    let err ← M.call fs (.remove of.path)
    return .ok (closeResponse req.flags (if err.isNone then info else none))
  else return .ok (closeResponse req.flags info)

def closeFound (req : CloseRequest) (tree : TreeConnection)
    (found : HandleRef × B.OpenFile) : M B Reply := do
  let info ← postQuery req.flags found.2
  let _ ← release tree.share req.fileID
  closeReleased req tree found.2 info

def handleClose (msg : SMB2Message) : M B Reply :=
  let req := msg.close
  onHandle msg 24 24 req.fileID (closeFound req)

/-! ## READ, WRITE, FLUSH -/

structure ReadRequest where
  length : UInt32
  offset : UInt64
  fileID : FileID

def ReadRequest.read : Reader ReadRequest := do
  let _ ← Reader.readUint16 -- StructureSize
  let _ ← Reader.readOneByte -- Padding
  let _ ← Reader.readOneByte -- Flags
  let length ← Reader.readUint32
  let offset ← Reader.readUint64
  let fileID ← Reader.readFileID
  return ⟨length, offset, fileID⟩

def ReadRequest.ofPayload (payload : Bytes) : ReadRequest := ReadRequest.read.parse payload

abbrev SMB2Message.read (msg : SMB2Message) : ReadRequest := .ofPayload msg.payload

def readResponse (data : Bytes) : Bytes :=
  putUint16 17 ++ [80, 0] ++ putUint32 (UInt32.ofNat data.length) ++ putUint32 0 ++ putUint32 0 ++
    data

/-- The errors of `Read`: only the end of the file may be reached, with some data. -/
def checkRead (data : Bytes) (err : Option GoError) : M B Unit :=
  match err with
  | some err =>
    if err.eqEOF then M.failIf data.isEmpty .endOfFile else M.fail (mapGoErrorToNTStatus err)
  | none => M.failIf data.isEmpty .endOfFile

/-- READ from where it has found the handle. -/
def readFound (msg : SMB2Message) (o : Oracle) (tree : TreeConnection)
    (found : HandleRef × B.OpenFile) : M B Reply := do
  let req := msg.read
  updateLastAccess tree.share req.fileID o
  let s ← M.get
  let length := if req.length > s.options.maxReadSize then s.options.maxReadSize else req.length
  seekStart found.2.file req.offset
  let f ← M.deref found.2.file
  let (data, err) ← M.call f.1 (.read f.2 length.toNat)
  checkRead data err
  return .ok (readResponse data)

def handleRead (msg : SMB2Message) (o : Oracle) : M B Reply :=
  onHandle msg 48 49 msg.read.fileID (readFound msg o)

structure WriteRequest where
  dataOffset : UInt16
  length : UInt32
  offset : UInt64
  fileID : FileID

def WriteRequest.read : Reader WriteRequest := do
  let _ ← Reader.readUint16 -- StructureSize
  let dataOffset ← Reader.readUint16
  let length ← Reader.readUint32
  let offset ← Reader.readUint64
  let fileID ← Reader.readFileID
  let _ ← Reader.readUint32 -- Channel
  let _ ← Reader.readUint32 -- RemainingBytes
  let _ ← Reader.readUint16 -- WriteChannelInfoOffset
  let _ ← Reader.readUint16 -- WriteChannelInfoLength
  let _ ← Reader.readUint32 -- Flags
  return ⟨dataOffset, length, offset, fileID⟩

def WriteRequest.ofPayload (payload : Bytes) : WriteRequest := WriteRequest.read.parse payload

abbrev SMB2Message.write (msg : SMB2Message) : WriteRequest := .ofPayload msg.payload

/-- The data of a WRITE request, if it lies inside the payload. -/
def writeData (payload : Bytes) : Option Bytes :=
  let req := WriteRequest.ofPayload payload
  messageBuffer payload req.dataOffset.toNat req.length.toNat

def writeResponse (n : Nat) : Bytes :=
  putUint16 17 ++ putUint16 0 ++ putUint32 (UInt32.ofNat n) ++ putUint32 0 ++ putUint16 0 ++
    putUint16 0

/-- What WRITE answers to what `Write` returns. -/
def writeReply (n : Nat) (err : Option GoError) : M B Reply :=
  match err with
  | some err => M.fail (mapGoErrorToNTStatus err)
  | none => return .ok (writeResponse n)

/-- WRITE from where it has found the handle. -/
def writeFound (msg : SMB2Message) (o : Oracle) (tree : TreeConnection)
    (found : HandleRef × B.OpenFile) : M B Reply := do
  let req := msg.write
  M.failIf tree.isReadOnly .accessDenied
  M.failIf (!hasBits (mapGenericAccess found.2.access) (fileWriteData ||| fileAppendData))
    .accessDenied
  updateLastAccess tree.share req.fileID o
  let data ← M.require (writeData msg.payload) .invalidParameter
  seekStart found.2.file req.offset
  let f ← M.deref found.2.file
  let (n, err) ← M.call f.1 (.write f.2 data)
  writeReply n err

def handleWrite (msg : SMB2Message) (o : Oracle) : M B Reply :=
  onHandle msg 48 49 msg.write.fileID (writeFound msg o)

/-- `handleFlush`; the request has the layout of CLOSE. -/
def handleFlush (msg : SMB2Message) : M B Reply :=
  onHandle msg 24 24 msg.close.fileID fun _ found => do
    match found.2.file with
    | none => return .ok emptyResponse
    | some f =>
      if B.syncer f.2 then
        let err ← M.call f.1 (.sync f.2)
        match err with
        | some err => M.fail (mapGoErrorToNTStatus err)
        | none => return .ok emptyResponse
      else return .ok emptyResponse

end Smbfs
