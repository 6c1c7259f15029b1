import Smbfs.Lib.GoPath
import Smbfs.Handlers.Common

/-! QUERY_INFO and SET_INFO, `smb2_info.go`. -/

namespace Smbfs

open Smbfs.Lib

variable {B : Backend}

/-- The information types; other codes are rejected. -/
inductive InfoType where
  | file
  | filesystem
  | security
  | quota

def InfoType.ofCode (c : UInt8) : Option InfoType :=
  if c = 1 then some file
  else if c = 2 then some filesystem
  else if c = 3 then some security
  else if c = 4 then some quota
  else none

/-! ## QUERY_INFO -/

/-- The file information classes that QUERY_INFO answers. -/
inductive QueryClass where
  | basic
  | standard
  | internal
  | ea
  | access
  | position
  | all
  | networkOpen
  | attributeTag

def QueryClass.ofCode (c : UInt8) : Option QueryClass :=
  if c = 4 then some basic
  else if c = 5 then some standard
  else if c = 6 then some internal
  else if c = 7 then some ea
  else if c = 8 then some access
  else if c = 14 then some position
  else if c = 18 then some all
  else if c = 34 then some networkOpen
  else if c = 35 then some attributeTag
  else none

structure QueryInfoRequest where
  infoType : UInt8
  fileInfoClass : UInt8
  outputBufferLength : UInt32
  fileID : FileID

def QueryInfoRequest.read : Reader QueryInfoRequest := do
  let _ ← Reader.readUint16 -- StructureSize
  let infoType ← Reader.readOneByte
  let fileInfoClass ← Reader.readOneByte
  let outputBufferLength ← Reader.readUint32
  let _ ← Reader.readUint16 -- InputBufferOffset
  let _ ← Reader.readUint16 -- Reserved
  let _ ← Reader.readUint32 -- InputBufferLength
  let _ ← Reader.readUint32 -- AdditionalInformation
  let _ ← Reader.readUint32 -- Flags
  let fileID ← Reader.readFileID
  return ⟨infoType, fileInfoClass, outputBufferLength, fileID⟩

def QueryInfoRequest.ofPayload (payload : Bytes) : QueryInfoRequest :=
  QueryInfoRequest.read.parse payload

/-- The allocation size of the information classes. -/
def roundedSize (info : FileInfo) : UInt64 :=
  let size := info.size.toUInt64
  if size > 0 then (size + 4095) / 4096 * 4096 else size

def buildFileBasicInformation (now : GoTime) (info : FileInfo) (attrs : UInt32) : Bytes :=
  let t := putUint64 (timeToFiletime info.modTime)
  putUint64 (timeToFiletime now) ++ t ++ t ++ t ++ putUint32 attrs ++ putUint32 0

def buildFileStandardInformation (info : FileInfo) : Bytes :=
  putUint64 (roundedSize info) ++ putUint64 info.size.toUInt64 ++ putUint32 1 ++
    [0, if info.isDir then 1 else 0] ++ putUint16 0

def buildFileInternalInformation (of : B.OpenFile) : Bytes :=
  putUint64 (UInt64.ofNat of.id.volatile)

def buildFileNetworkOpenInformation (now : GoTime) (info : FileInfo) (attrs : UInt32) : Bytes :=
  let t := putUint64 (timeToFiletime info.modTime)
  putUint64 (timeToFiletime now) ++ t ++ t ++ t ++ putUint64 (roundedSize info) ++
    putUint64 info.size.toUInt64 ++ putUint32 attrs ++ putUint32 0

/-- `seeker.Seek(0, io.SeekCurrent)`, zero for a file that cannot seek. -/
def currentOffset (of : B.OpenFile) : M B Int64 :=
  match of.file with
  | none => return 0
  | some f =>
    if B.seeker f.2 then do
      let (pos, _) ← M.call f.1 (.seek f.2 0 1)
      return pos
    else return 0

/-- `buildFileAllInformation`, with the position in the file. -/
def buildFileAllInformation (now : GoTime) (of : B.OpenFile) (info : FileInfo)
    (attrs : UInt32) (pos : Int64) : Bytes :=
  let nameBytes := encodeStringToUTF16LE (GoPath.base of.path)
  buildFileBasicInformation now info attrs ++ buildFileStandardInformation info ++
    buildFileInternalInformation of ++ putUint32 0 ++ putUint32 of.access ++
    putUint64 pos.toUInt64 ++ putUint32 0 ++ putUint32 0 ++
    putUint32 (UInt32.ofNat nameBytes.length) ++ nameBytes

def queryFileInfo (o : Oracle) (of : B.OpenFile) (fileInfoClass : UInt8) :
    M B Bytes := do
  let f ← M.deref of.file
  let info ← M.call f.1 (.fileStat f.2)
  match info with
  | .error _ => M.fail .noSuchFile
  | .ok info =>
    let attrs := modeToAttributes info.mode
    match QueryClass.ofCode fileInfoClass with
    | some .basic => return buildFileBasicInformation o.now info attrs
    | some .standard => return buildFileStandardInformation info
    | some .internal => return buildFileInternalInformation of
    | some .ea => return putUint32 0
    | some .access => return putUint32 of.access
    | some .position => return putUint64 (← currentOffset of).toUInt64
    | some .all => return buildFileAllInformation o.now of info attrs (← currentOffset of)
    | some .networkOpen => return buildFileNetworkOpenInformation o.now info attrs
    | some .attributeTag => return putUint32 attrs ++ putUint32 0
    | none => M.fail .notSupported

def volumeLabel : Str := ['S', 'M', 'B', ' ', 'S', 'h', 'a', 'r', 'e']
def fsName : Str := ['S', 'M', 'B', 'F', 'S']

def totalUnits : UInt64 := 1024 * 1024 * 256
def availableUnits : UInt64 := 1024 * 1024 * 128

/-- `queryFilesystemInfo`: nothing is asked of the filesystem. -/
def queryFilesystemInfo (o : Oracle) (fileInfoClass : UInt8) : Option Bytes :=
  if fileInfoClass = 1 then
    let label := encodeStringToUTF16LE volumeLabel
    some (putUint64 (timeToFiletime o.now) ++ putUint32 0x12345678 ++
      putUint32 (UInt32.ofNat label.length) ++ [0, 0] ++ label)
  else if fileInfoClass = 3 then
    some (putUint64 totalUnits ++ putUint64 availableUnits ++ putUint32 8 ++ putUint32 512)
  else if fileInfoClass = 5 then
    let name := encodeStringToUTF16LE fsName
    some (putUint32 (0x2 ||| 0x4 ||| 0x8) ++ putUint32 255 ++
      putUint32 (UInt32.ofNat name.length) ++ name)
  else if fileInfoClass = 7 then
    some (putUint64 totalUnits ++ putUint64 availableUnits ++ putUint64 availableUnits ++
      putUint32 8 ++ putUint32 512)
  else none

def queryInfoResponse (buffer : Bytes) : Bytes :=
  putUint16 9 ++ putUint16 (UInt16.ofNat (smb2HeaderSize + 8)) ++
    putUint32 (UInt32.ofNat buffer.length) ++ buffer

/-- The buffer QUERY_INFO returns, by the type of information. -/
def queryInfoBuffer (o : Oracle) (of : B.OpenFile) (req : QueryInfoRequest) :
    M B Bytes :=
  match InfoType.ofCode req.infoType with
  | some .file => queryFileInfo o of req.fileInfoClass
  | some .filesystem => M.require (queryFilesystemInfo o req.fileInfoClass) .notSupported
  | some .security | some .quota => M.fail .notSupported
  | none => M.fail .invalidParameter

def handleQueryInfo (msg : SMB2Message) (o : Oracle) : M B Reply :=
  let req := QueryInfoRequest.ofPayload msg.payload
  onHandle msg 40 41 req.fileID fun tree found => do
    updateLastAccess tree.share req.fileID o
    let buffer ← queryInfoBuffer o found.2 req
    -- the length is compared as a uint32
    if UInt32.ofNat buffer.length > req.outputBufferLength then
      return ⟨queryInfoResponse (buffer.take req.outputBufferLength.toNat), .bufferOverflow,
        none, none⟩
    else return .ok (queryInfoResponse buffer)

/-! ## SET_INFO -/

/-- The file information classes that SET_INFO takes. -/
inductive SetClass where
  | basic
  | rename
  | disposition
  | endOfFile
  deriving DecidableEq

def SetClass.ofCode (c : UInt8) : Option SetClass :=
  if c = 4 then some basic
  else if c = 10 then some rename
  else if c = 13 then some disposition
  else if c = 20 then some endOfFile
  else none

structure SetInfoRequest where
  infoType : UInt8
  fileInfoClass : UInt8
  bufferLength : UInt32
  bufferOffset : UInt16
  fileID : FileID

def SetInfoRequest.read : Reader SetInfoRequest := do
  let _ ← Reader.readUint16 -- StructureSize
  let infoType ← Reader.readOneByte
  let fileInfoClass ← Reader.readOneByte
  let bufferLength ← Reader.readUint32
  let bufferOffset ← Reader.readUint16
  let _ ← Reader.readUint16 -- Reserved
  let _ ← Reader.readUint32 -- AdditionalInformation
  let fileID ← Reader.readFileID
  return ⟨infoType, fileInfoClass, bufferLength, bufferOffset, fileID⟩

def SetInfoRequest.ofPayload (payload : Bytes) : SetInfoRequest :=
  SetInfoRequest.read.parse payload

abbrev SMB2Message.setInfo (msg : SMB2Message) : SetInfoRequest := .ofPayload msg.payload

/-- The buffer of a SET_INFO request, if it lies inside the payload. -/
def setInfoBuffer (payload : Bytes) : Option Bytes :=
  let req := SetInfoRequest.ofPayload payload
  messageBuffer payload req.bufferOffset.toNat req.bufferLength.toNat

/-- The modification time is set, if the request gives one and the file can. -/
def setModTime (of : B.OpenFile) (lastWriteTime : UInt64) : M B Unit :=
  if lastWriteTime ≠ 0 ∧ lastWriteTime ≠ 0xFFFFFFFFFFFFFFFF then
    match of.file with
    | none => pure ()
    | some f =>
      if B.chtimer f.2 then do
        let modTime := filetimeToTime lastWriteTime
        let err ← M.call f.1 (.chtimes f.2 modTime modTime)
        M.failIf err.isSome .accessDenied
      else pure ()
  else pure ()

/-- The mode is set, if the request gives attributes and the file can; an error
is ignored. -/
def setMode (of : B.OpenFile) (fileAttributes : UInt32) : M B Unit :=
  if fileAttributes ≠ 0 ∧ fileAttributes ≠ 0xFFFFFFFF then
    match of.file with
    | none => pure ()
    | some f =>
      if B.chmoder f.2 then do
        let _ ← M.call f.1 (.chmod f.2 (attributesToMode fileAttributes of.isDir))
      else pure ()
  else pure ()

/-- The last write time and the attributes of a FileBasicInformation buffer. -/
def readBasicInformation : Reader (UInt64 × UInt32) := do
  let _ ← Reader.readUint64 -- CreationTime
  let _ ← Reader.readUint64 -- LastAccessTime
  let lastWriteTime ← Reader.readUint64
  let _ ← Reader.readUint64 -- ChangeTime
  let fileAttributes ← Reader.readUint32
  return (lastWriteTime, fileAttributes)

def setFileBasicInformation (of : B.OpenFile) (buffer : Bytes) : M B Unit := do
  M.failIf (buffer.length < 40) .invalidParameter
  let (lastWriteTime, fileAttributes) := readBasicInformation.parse buffer
  setModTime of lastWriteTime
  setMode of fileAttributes

def setFileDispositionInformation (sh : ShareRef) (of : B.OpenFile) (buffer : Bytes) :
    M B Unit := do
  M.failIf buffer.isEmpty .invalidParameter
  M.modify fun s => s.modifyHandles sh fun m => m.setDeleteOnClose of.id (buffer.headD 0 ≠ 0)

/-- The replace flag and the name of a FileRenameInformation buffer; `none` if
the name is longer than the rest of the buffer. -/
def readRenameInformation : Reader (Option (UInt8 × Str)) := do
  let replaceIfExists ← Reader.readOneByte
  let _ ← Reader.readBytes 7 -- Reserved
  let _ ← Reader.readUint64 -- RootDirectory
  let fileNameLength ← Reader.readUint32
  let remaining ← Reader.remaining
  if remaining < fileNameLength.toNat then return none
  else
    let newName ← Reader.readUTF16String fileNameLength.toNat
    return some (replaceIfExists, newName)

/-- `path.Join(path.Dir(of.Path), newName)`. -/
def renamePath (path newName : Str) : Str := GoPath.join (GoPath.dir path) newName

/-- `setFileRenameInformation`. A nil filesystem panics at `Stat`. -/
def setFileRenameInformation (sh : ShareRef) (r : HandleRef) (of : B.OpenFile)
    (buffer : Bytes) : M B Unit := do
  M.failIf (buffer.length < 20) .invalidParameter
  let (replaceIfExists, newName) ← M.require (readRenameInformation.parse buffer)
    .invalidParameter
  let newPath := renamePath of.path newName
  let fs ← shareFs sh
  let info ← M.call fs (.stat newPath)
  M.failIf (info.isOk && replaceIfExists == 0) .objectNameCollision
  let s ← M.get
  if B.renamer (s.disks fs) then
    let err ← M.call fs (.rename of.path newPath)
    match err with
    | some err => M.fail (if err.osNotExist then .objectNameNotFound else .accessDenied)
    | none => M.modify fun s => s.modifyHandles sh fun m => m.modify r fun of =>
        { of with path := newPath }
  else M.fail .notSupported

def setFileEndOfFileInformation (of : B.OpenFile) (buffer : Bytes) : M B Unit := do
  M.failIf (buffer.length < 8) .invalidParameter
  let endOfFile := Reader.readUint64.parse buffer
  match of.file with
  | none => M.fail .notSupported
  | some f =>
    if B.truncater f.2 then
      let err ← M.call f.1 (.truncate f.2 endOfFile.toInt64)
      M.failIf err.isSome .accessDenied
    else M.fail .notSupported

def setFileInfo (sh : ShareRef) (r : HandleRef) (of : B.OpenFile)
    (fileInfoClass : UInt8) (buffer : Bytes) : M B Unit :=
  match SetClass.ofCode fileInfoClass with
  | some .basic => setFileBasicInformation of buffer
  | some .disposition => setFileDispositionInformation sh of buffer
  | some .rename => setFileRenameInformation sh r of buffer
  | some .endOfFile => setFileEndOfFileInformation of buffer
  | none => M.fail .notSupported

/-- What SET_INFO sets, by the type of information. -/
def setInfo (sh : ShareRef) (r : HandleRef) (of : B.OpenFile) (req : SetInfoRequest)
    (buffer : Bytes) : M B Unit :=
  match InfoType.ofCode req.infoType with
  | some .file => setFileInfo sh r of req.fileInfoClass buffer
  | some .filesystem | some .security | some .quota => M.fail .notSupported
  | none => M.fail .invalidParameter

/-- SET_INFO from where it has found the handle. -/
def setInfoFound (msg : SMB2Message) (o : Oracle) (tree : TreeConnection)
    (found : HandleRef × B.OpenFile) : M B Reply := do
  let req := msg.setInfo
  M.failIf tree.isReadOnly .accessDenied
  updateLastAccess tree.share req.fileID o
  let buffer ← M.require (setInfoBuffer msg.payload) .invalidParameter
  setInfo tree.share found.1 found.2 req buffer
  return .ok (putUint16 2)

def handleSetInfo (msg : SMB2Message) (o : Oracle) : M B Reply :=
  onHandle msg 32 33 msg.setInfo.fileID (setInfoFound msg o)

end Smbfs
