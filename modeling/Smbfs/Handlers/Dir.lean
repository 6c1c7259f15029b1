import Smbfs.Handlers.Common

/-!
QUERY_DIRECTORY, `smb2_dir.go`. The enumeration state of a handle is a
pointer in the source: a state that was stored before is changed in place,
also where the handler returns an error.
-/

namespace Smbfs

open Smbfs.Lib

variable {B : Backend}

structure QueryDirectoryRequest where
  infoClass : UInt8
  flags : UInt8
  fileIndex : UInt32
  fileID : FileID
  fileNameOffset : UInt16
  fileNameLength : UInt16
  outputBufferLength : UInt32

namespace QueryDirectoryRequest

def read : Reader QueryDirectoryRequest := do
  let _ ← Reader.readUint16 -- StructureSize
  let infoClass ← Reader.readOneByte
  let flags ← Reader.readOneByte
  let fileIndex ← Reader.readUint32
  let fileID ← Reader.readFileID
  let fileNameOffset ← Reader.readUint16
  let fileNameLength ← Reader.readUint16
  let outputBufferLength ← Reader.readUint32
  return ⟨infoClass, flags, fileIndex, fileID, fileNameOffset, fileNameLength, outputBufferLength⟩

def ofPayload (payload : Bytes) : QueryDirectoryRequest := read.parse payload

def restartScans (req : QueryDirectoryRequest) : Bool := req.flags &&& 0x01 ≠ 0
def returnSingleEntry (req : QueryDirectoryRequest) : Bool := req.flags &&& 0x02 ≠ 0
def indexSpecified (req : QueryDirectoryRequest) : Bool := req.flags &&& 0x04 ≠ 0

/-- The search pattern; a name outside the payload is ignored. -/
def pattern (req : QueryDirectoryRequest) (payload : Bytes) : Str :=
  let pattern := if req.fileNameLength > 0 then
    match messageBuffer payload req.fileNameOffset.toNat req.fileNameLength.toNat with
    | some b => decodeUTF16LEToString b
    | none => []
    else []
  if pattern = [] then ['*'] else pattern

end QueryDirectoryRequest

abbrev SMB2Message.queryDirectory (msg : SMB2Message) : QueryDirectoryRequest :=
  .ofPayload msg.payload

/-! ## Entries -/

/-- The directory information classes; other codes are not supported. -/
inductive DirClass where
  | directory
  | full
  | both
  | names
  | idBoth

def DirClass.ofCode (c : UInt8) : Option DirClass :=
  if c = 1 then some directory
  else if c = 2 then some full
  else if c = 3 then some both
  else if c = 12 then some names
  else if c = 37 then some idBoth
  else none

/-- The fields that all classes but the names-only one start with. -/
def dirEntryBase (info : FileInfo) (fileIndex : UInt32) (nameLen : Nat) : Bytes :=
  let t := putUint64 (timeToFiletime info.modTime)
  let fileSize := if info.isDir then 0 else info.size.toUInt64
  let allocSize := if info.isDir then 0 else (info.size.toUInt64 + 4095) &&& ~~~4095
  putUint32 0 ++ putUint32 fileIndex ++ t ++ t ++ t ++ t ++ putUint64 fileSize ++
    putUint64 allocSize ++ putUint32 (modeToAttributes info.mode) ++
    putUint32 (UInt32.ofNat nameLen)

def formatDirEntry (info : FileInfo) (infoClass : UInt8) (fileIndex : UInt32) : Option Bytes :=
  let nameUTF16 := encodeStringToUTF16LE info.name
  let base := dirEntryBase info fileIndex nameUTF16.length
  match DirClass.ofCode infoClass with
  | some .directory => some (base ++ nameUTF16)
  | some .full => some (base ++ putUint32 0 ++ nameUTF16)
  | some .both => some (base ++ putUint32 0 ++ [0, 0] ++ zeros 24 ++ nameUTF16)
  | some .names => some (putUint32 0 ++ putUint32 fileIndex ++
      putUint32 (UInt32.ofNat nameUTF16.length) ++ nameUTF16)
  | some .idBoth => some (base ++ putUint32 0 ++ [0, 0] ++ zeros 24 ++ putUint16 0 ++
      putUint64 fileIndex.toUInt64 ++ nameUTF16)
  | none => none

def matchPattern (P : Platform) (name pattern : Str) : Bool :=
  P.globMatch (P.upper pattern) (P.upper name)

def filterEntries (P : Platform) (entries : List FileInfo) (pattern : Str) : List FileInfo :=
  if pattern = ['*'] then entries
  else entries.filter fun entry => matchPattern P entry.name pattern

/-! ## The response buffer -/

def setUint32At (b : Bytes) (pos : Nat) (v : UInt32) : Bytes :=
  if pos + 4 ≤ b.length then b.take pos ++ putUint32 v ++ b.drop (pos + 4) else b

/-- What the loop over the entries has written: the buffer, the number of
entries, and where the last entry starts. -/
structure DirBuffer where
  data : Bytes
  count : Nat
  lastStart : Nat

def DirBuffer.empty : DirBuffer := ⟨[], 0, 0⟩

/-- An entry appended, with the offset of the previous entry patched. -/
def DirBuffer.push (w : DirBuffer) (entryData : Bytes) : DirBuffer :=
  let start := w.data.length
  let data := if w.count > 0 then
    setUint32At w.data w.lastStart (UInt32.ofNat (start - w.lastStart)) else w.data
  let data := data ++ entryData
  ⟨data ++ zeros (padTo8ByteBoundary data.length), w.count + 1, start⟩

/-- The loop over the matching entries. `position` is the cursor before the
loop, and moves with every entry written. The status is the error the handler
returns. -/
def fillDirBuffer (req : QueryDirectoryRequest) (position : Nat) :
    List FileInfo → DirBuffer → Option NTStatus × DirBuffer
  | [], w => (none, w)
  | entry :: entries, w =>
    -- the cursor has moved by `count` already, and `entryCount` is added to it
    match formatDirEntry entry req.infoClass (UInt32.ofNat (position + w.count + w.count)) with
    | none => (some .notSupported, w)
    | some entryData =>
      if w.data.length + alignTo8 entryData.length > req.outputBufferLength.toNat then
        (if w.count = 0 then some .bufferOverflow else none, w)
      else if req.returnSingleEntry then (none, w.push entryData)
      else fillDirBuffer req position entries (w.push entryData)

def queryDirectoryResponse (buffer : Bytes) : Bytes :=
  putUint16 9 ++ putUint16 (UInt16.ofNat (smb2HeaderSize + 8)) ++
    putUint32 (UInt32.ofNat buffer.length) ++ buffer

/-! ## The handler -/

/-- The state at the start of an enumeration request: restart, change of the
pattern, and the index of the request. -/
def DirEnumState.prepare (d : DirEnumState) (req : QueryDirectoryRequest) (pattern : Str) :
    DirEnumState :=
  let d := if req.restartScans then ⟨[], 0, pattern, false⟩ else d
  let d := if d.pattern ≠ pattern then ⟨[], 0, pattern, false⟩ else d
  if req.indexSpecified then { d with position := req.fileIndex.toNat, exhausted := false } else d

/-- `readDirEntries`: entries without information are skipped. -/
def readDirEntries (of : B.OpenFile) : M B (Option (List FileInfo)) := do
  let f ← M.deref of.file
  let (dirEntries, err) ← M.call f.1 (.readDir f.2)
  match err with
  | some err => if err.eqEOF then return some (dirEntries.filterMap Except.toOption) else return none
  | none => return some (dirEntries.filterMap Except.toOption)

def storeDirState (id : FileID) (d : DirEnumState) : M B Unit :=
  M.modify fun s => s.storeDirState id d

/-- The entries of the directory, read if there are none yet. -/
def cachedEntries (of : B.OpenFile) (d : DirEnumState) (stored : Bool) :
    M B DirEnumState :=
  if d.entries = [] then do
    let entries ← readDirEntries of
    match entries with
    | some entries => return { d with entries := entries, position := 0 }
    | none =>
      if stored then storeDirState of.id d
      M.fail .accessDenied
  else return d

/-- The part of `handleQueryDirectory` after the entries were read. -/
def answerFromEntries (P : Platform) (of : B.OpenFile) (req : QueryDirectoryRequest)
    (d : DirEnumState) : M B Reply := do
  -- d.entries[d.position:]
  let rest ← M.deref (if d.position ≤ d.entries.length then some (d.entries.drop d.position)
    else none)
  let matched := filterEntries P rest d.pattern
  if matched.isEmpty then
    storeDirState of.id { d with exhausted := true }
    M.fail .noMoreFiles
  else
    match fillDirBuffer req d.position matched .empty with
    | (some status, w) =>
      storeDirState of.id { d with position := d.position + w.count }
      M.fail status
    | (none, w) =>
      let position := d.position + w.count
      storeDirState of.id
        { d with position := position, exhausted := d.exhausted || position ≥ d.entries.length }
      return .ok (queryDirectoryResponse w.data)

/-- QUERY_DIRECTORY from where it has found the handle. -/
def queryDirectoryFound (P : Platform) (msg : SMB2Message) (_ : TreeConnection)
    (found : HandleRef × B.OpenFile) : M B Reply := do
  let req := msg.queryDirectory
  let of := found.2
  M.failIf (!of.isDir) .notADirectory
  let pattern := req.pattern msg.payload
  let s ← M.get
  let stored := s.dirStates.lookup of.id
  let d := (stored.getD ⟨[], 0, pattern, false⟩).prepare req pattern
  if d.exhausted then
    storeDirState of.id d
    M.fail .noMoreFiles
  else
    let d ← cachedEntries of d stored.isSome
    answerFromEntries P of req d

def handleQueryDirectory (P : Platform) (msg : SMB2Message) : M B Reply :=
  onHandle msg 32 33 msg.queryDirectory.fileID (queryDirectoryFound P msg)

end Smbfs
