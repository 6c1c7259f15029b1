import Smbfs.System.DirQuery
import Smbfs.Wire.Reads

/-!
The buffers of requests: the security blob of SESSION_SETUP, the names of
TREE_CONNECT, CREATE and QUERY_DIRECTORY, the data of WRITE, the information
of SET_INFO with the name of a rename in it, and the input of IOCTL.

* `outside64_iff`: the test of the handlers in 64-bit arithmetic;
* `messageBuffer_taken`: what passes it is a range of the payload;
* `request_buffers_in_bounds`: the seven handlers.
-/

namespace Smbfs

open Smbfs.Lib

variable {B : Backend} {P : Platform} {k : ConnId} {msg : SMB2Message} {o : Oracle} {s : Server B}

/-! ## Ranges of a message -/

/-- The bytes are those of the message from `offset` on, and all of them are
bytes of the payload. -/
structure TakenAt (payload : Bytes) (offset length : Nat) (b : Bytes) : Prop where
  inside : ∀ i, offset ≤ i → i < offset + length →
    smb2HeaderSize ≤ i ∧ i < smb2HeaderSize + payload.length
  length_eq : b.length = length
  bytes_eq : ∀ header : Bytes, header.length = smb2HeaderSize →
    b = slice (header ++ payload) offset length

section Range

variable {payload b : Bytes} {offset length : Nat}

theorem messageBuffer_eq_none :
    messageBuffer payload offset length = none ↔
      offset < smb2HeaderSize ∨ smb2HeaderSize + payload.length < offset + length := by
  unfold messageBuffer
  split
  · next h =>
    constructor
    · intro _
      omega
    · intro _
      rfl
  · next h =>
    constructor
    · intro hnone
      cases hnone
    · intro hout
      omega

/-- A buffer that is accepted is a range of the payload. -/
theorem messageBuffer_taken (h : messageBuffer payload offset length = some b) :
    TakenAt payload offset length b := by
  have hinside : ¬ (offset < smb2HeaderSize ∨ smb2HeaderSize + payload.length < offset + length) := by
    rw [← messageBuffer_eq_none, h]
    exact Option.some_ne_none b
  have hb : b = slice payload (offset - smb2HeaderSize) length := by
    unfold messageBuffer at h
    rw [if_neg (by omega)] at h
    exact (Option.some.inj h).symm
  refine ⟨?_, ?_, ?_⟩
  · intro i hlow hhigh
    omega
  · rw [hb, slice, List.length_take, List.length_drop]
    omega
  · intro header hheader
    have hdrop : (header ++ payload).drop offset = payload.drop (offset - smb2HeaderSize) := by
      rw [List.drop_append, List.drop_eq_nil_of_le (by omega), hheader, List.nil_append]
    rw [hb, slice, slice, hdrop]

/-- A part of such a range is one too. -/
theorem TakenAt.slice (h : TakenAt payload offset length b) {start n : Nat}
    (hn : start + n ≤ b.length) : TakenAt payload (offset + start) n (slice b start n) := by
  have hlength := h.length_eq
  refine ⟨?_, ?_, ?_⟩
  · intro i hlow hhigh
    exact h.inside i (by omega) (by omega)
  · rw [Smbfs.slice, List.length_take, List.length_drop]
    omega
  · intro header hheader
    rw [h.bytes_eq header hheader]
    simp only [Smbfs.slice, List.drop_take, List.take_take, List.drop_drop]
    rw [Nat.min_eq_left (by omega)]

end Range

/-- The test of the handlers, with an `int` of 64 bits:
`start < 0 || start+int(length) > len(payload)` for
`start := int(offset) - SMB2HeaderSize`. -/
def outside64 (payload : Bytes) (offset length : UInt32) : Bool :=
  let start := Int64.ofNat offset.toNat - Int64.ofNat smb2HeaderSize
  start < 0 || start + Int64.ofNat length.toNat > Int64.ofNat payload.length

/-- For a payload whose length is an `int` nothing overflows. -/
theorem outside64_iff {payload : Bytes} (offset length : UInt32)
    (h : payload.length < 0x8000000000000000) :
    outside64 payload offset length = true ↔
      messageBuffer payload offset.toNat length.toNat = none := by
  have hoffset := offset.toNat_lt
  have hlength := length.toNat_lt
  have hheader : (Int64.ofNat smb2HeaderSize).toInt = 64 := rfl
  have hoffset' : (Int64.ofNat offset.toNat).toInt = offset.toNat :=
    Int64.toInt_ofNat_of_lt (by omega)
  have hlength' : (Int64.ofNat length.toNat).toInt = length.toNat :=
    Int64.toInt_ofNat_of_lt (by omega)
  have hpayload : (Int64.ofNat payload.length).toInt = payload.length :=
    Int64.toInt_ofNat_of_lt (by omega)
  have hstart : (Int64.ofNat offset.toNat - Int64.ofNat smb2HeaderSize).toInt =
      offset.toNat - 64 := by
    rw [Int64.toInt_sub, hoffset', hheader]
    exact Int.bmod_eq_of_le (by omega) (by omega)
  have hend : (Int64.ofNat offset.toNat - Int64.ofNat smb2HeaderSize +
      Int64.ofNat length.toNat).toInt = offset.toNat - 64 + length.toNat := by
    rw [Int64.toInt_add, hstart, hlength']
    exact Int.bmod_eq_of_le (by omega) (by omega)
  have hsize : smb2HeaderSize = 64 := rfl
  rw [messageBuffer_eq_none, outside64]
  simp only [Bool.or_eq_true, decide_eq_true_eq, gt_iff_lt, Int64.lt_iff_toInt_lt, hstart, hend,
    hpayload, Int64.toInt_zero]
  omega

/-! ## The requests -/

/-- The requests with a buffer. -/
inductive BufferCommand where
  | sessionSetup
  | treeConnect
  | create
  | write
  | setInfo
  | queryDirectory
  | ioctl

namespace BufferCommand

/-- The length that the handler asks for. -/
def minLength : BufferCommand → Nat
  | sessionSetup => 24
  | treeConnect => 8
  | create => 56
  | write => 48
  | setInfo => 32
  | queryDirectory => 32
  | ioctl => 56

def structSize : BufferCommand → UInt16
  | sessionSetup => 25
  | treeConnect => 9
  | create => 57
  | write => 49
  | setInfo => 33
  | queryDirectory => 33
  | ioctl => 57

/-- The number of bytes of the fixed fields that are read. -/
def fieldsLength : BufferCommand → Nat
  | sessionSetup => 24
  | treeConnect => 8
  | create => 56
  | write => 48
  | setInfo => 32
  | queryDirectory => 32
  | ioctl => 52

/-- Where the reader stands after them. -/
def fieldsEnd (payload : Bytes) : BufferCommand → Nat
  | sessionSetup => SessionSetupRequest.read.parsed payload
  | treeConnect => readTreeConnect.parsed payload
  | create => CreateRequest.read.parsed payload
  | write => WriteRequest.read.parsed payload
  | setInfo => SetInfoRequest.read.parsed payload
  | queryDirectory => QueryDirectoryRequest.read.parsed payload
  | ioctl => IOCTLRequest.read.parsed payload

/-- The field with the offset of the buffer. -/
def offset (payload : Bytes) : BufferCommand → UInt32
  | sessionSetup => (getUint16 (payload.drop 12)).toUInt32
  | treeConnect => (getUint16 (payload.drop 4)).toUInt32
  | create => (getUint16 (payload.drop 44)).toUInt32
  | write => (getUint16 (payload.drop 2)).toUInt32
  | setInfo => (getUint16 (payload.drop 8)).toUInt32
  | queryDirectory => (getUint16 (payload.drop 24)).toUInt32
  | ioctl => getUint32 (payload.drop 24)

/-- The field with its length. -/
def length (payload : Bytes) : BufferCommand → UInt32
  | sessionSetup => (getUint16 (payload.drop 14)).toUInt32
  | treeConnect => (getUint16 (payload.drop 6)).toUInt32
  | create => (getUint16 (payload.drop 46)).toUInt32
  | write => getUint32 (payload.drop 4)
  | setInfo => getUint32 (payload.drop 4)
  | queryDirectory => (getUint16 (payload.drop 26)).toUInt32
  | ioctl => getUint32 (payload.drop 28)

/-- The bytes that these fields describe, if they lie inside the payload. -/
def buffer (payload : Bytes) (c : BufferCommand) : Option Bytes :=
  messageBuffer payload (c.offset payload).toNat (c.length payload).toNat

/-- What the handler makes of the buffer. SESSION_SETUP and QUERY_DIRECTORY do
not look at one of length zero, IOCTL not at one with offset zero either. -/
def Uses (payload : Bytes) : BufferCommand → Prop
  | sessionSetup => (securityBlob payload).map Window.live =
      if sessionSetup.length payload = 0 then some [] else sessionSetup.buffer payload
  | treeConnect => treeConnectShareName payload =
      (treeConnect.buffer payload).map fun b => extractShareName (decodeUTF16LEToString b)
  | create => createFilename payload =
      (create.buffer payload).map fun b => createPath (decodeUTF16LEToString b)
  | write => writeData payload = write.buffer payload
  | setInfo => setInfoBuffer payload = setInfo.buffer payload
  | queryDirectory =>
      let name := ((if queryDirectory.length payload = 0 then none
        else queryDirectory.buffer payload).map decodeUTF16LEToString).getD []
      (QueryDirectoryRequest.ofPayload payload).pattern payload = if name = [] then ['*'] else name
  | ioctl => ioctlInput payload =
      if ioctl.length payload = 0 ∨ ioctl.offset payload = 0 then none else ioctl.buffer payload

def handler (P : Platform) (k : ConnId) (msg : SMB2Message) (o : Oracle) :
    BufferCommand → M B Reply
  | sessionSetup => handleSessionSetup P k msg o
  | treeConnect => handleTreeConnect msg o
  | create => handleCreate msg o
  | write => handleWrite msg o
  | setInfo => handleSetInfo msg o
  | queryDirectory => handleQueryDirectory P msg
  | ioctl => handleIOCTL msg

end BufferCommand

/-! ### Fields -/

section Fields

open Reader

theorem sessionSetup_reads : SessionSetupRequest.read.Reads 24 fun b =>
    ⟨getUint16 (b.drop 12), getUint16 (b.drop 14), getUint64 (b.drop 16)⟩ :=
  (reads_uint16.bind fun _ => reads_oneByte.bind fun _ => reads_oneByte.bind fun _ =>
    reads_uint32.bind fun _ => reads_uint32.bind fun _ => reads_uint16.bind fun _ =>
    reads_uint16.bind fun _ => reads_uint64.bind fun _ => reads_pure _).congr fun _ => by simp

theorem treeConnect_reads : readTreeConnect.Reads 8 fun b =>
    (getUint16 (b.drop 4), getUint16 (b.drop 6)) :=
  (reads_uint16.bind fun _ => reads_uint16.bind fun _ => reads_uint16.bind fun _ =>
    reads_uint16.bind fun _ => reads_pure _).congr fun _ => by simp

theorem create_reads : CreateRequest.read.Reads 56 fun b =>
    ⟨getUint32 (b.drop 24), getUint32 (b.drop 32), getUint32 (b.drop 36), getUint32 (b.drop 40),
      getUint16 (b.drop 44), getUint16 (b.drop 46)⟩ :=
  (reads_uint16.bind fun _ => reads_oneByte.bind fun _ => reads_oneByte.bind fun _ =>
    reads_uint32.bind fun _ => reads_uint64.bind fun _ => reads_uint64.bind fun _ =>
    reads_uint32.bind fun _ => reads_uint32.bind fun _ => reads_uint32.bind fun _ =>
    reads_uint32.bind fun _ => reads_uint32.bind fun _ => reads_uint16.bind fun _ =>
    reads_uint16.bind fun _ => reads_uint32.bind fun _ => reads_uint32.bind fun _ =>
    reads_pure _).congr fun _ => by simp

theorem write_reads : WriteRequest.read.Reads 48 fun b =>
    ⟨getUint16 (b.drop 2), getUint32 (b.drop 4), getUint64 (b.drop 8),
      ⟨getUint64 (b.drop 16), (getUint64 (b.drop 24)).toNat⟩⟩ :=
  (reads_uint16.bind fun _ => reads_uint16.bind fun _ => reads_uint32.bind fun _ =>
    reads_uint64.bind fun _ => reads_fileID.bind fun _ => reads_uint32.bind fun _ =>
    reads_uint32.bind fun _ => reads_uint16.bind fun _ => reads_uint16.bind fun _ =>
    reads_uint32.bind fun _ => reads_pure _).congr fun _ => by simp

theorem setInfo_reads : SetInfoRequest.read.Reads 32 fun b =>
    ⟨(b.drop 2).headD 0, (b.drop 3).headD 0, getUint32 (b.drop 4), getUint16 (b.drop 8),
      ⟨getUint64 (b.drop 16), (getUint64 (b.drop 24)).toNat⟩⟩ :=
  (reads_uint16.bind fun _ => reads_oneByte.bind fun _ => reads_oneByte.bind fun _ =>
    reads_uint32.bind fun _ => reads_uint16.bind fun _ => reads_uint16.bind fun _ =>
    reads_uint32.bind fun _ => reads_fileID.bind fun _ => reads_pure _).congr fun _ => by simp

theorem queryDirectory_reads : QueryDirectoryRequest.read.Reads 32 fun b =>
    ⟨(b.drop 2).headD 0, (b.drop 3).headD 0, getUint32 (b.drop 4),
      ⟨getUint64 (b.drop 8), (getUint64 (b.drop 16)).toNat⟩, getUint16 (b.drop 24),
      getUint16 (b.drop 26), getUint32 (b.drop 28)⟩ :=
  (reads_uint16.bind fun _ => reads_oneByte.bind fun _ => reads_oneByte.bind fun _ =>
    reads_uint32.bind fun _ => reads_fileID.bind fun _ => reads_uint16.bind fun _ =>
    reads_uint16.bind fun _ => reads_uint32.bind fun _ => reads_pure _).congr fun _ => by simp

theorem ioctl_reads : IOCTLRequest.read.Reads 52 fun b =>
    ⟨getUint32 (b.drop 4), getUint32 (b.drop 24), getUint32 (b.drop 28), getUint32 (b.drop 44)⟩ :=
  (reads_uint16.bind fun _ => reads_uint16.bind fun _ => reads_uint32.bind fun _ =>
    reads_uint64.bind fun _ => reads_uint64.bind fun _ => reads_uint32.bind fun _ =>
    reads_uint32.bind fun _ => reads_uint32.bind fun _ => reads_uint32.bind fun _ =>
    reads_uint32.bind fun _ => reads_uint32.bind fun _ => reads_uint32.bind fun _ =>
    reads_pure _).congr fun _ => by simp

theorem basicInformation_reads : readBasicInformation.Reads 36 fun b =>
    (getUint64 (b.drop 16), getUint32 (b.drop 32)) :=
  (reads_uint64.bind fun _ => reads_uint64.bind fun _ => reads_uint64.bind fun _ =>
    reads_uint64.bind fun _ => reads_uint32.bind fun _ => reads_pure _).congr fun _ => by simp

end Fields

theorem le_length_of_wellFormed {payload : Bytes} {n : Nat} {size : UInt16}
    (h : wellFormed payload n size = true) : n ≤ payload.length := by
  unfold wellFormed at h
  rw [Bool.and_eq_true, decide_eq_true_eq] at h
  exact h.1

/-- The fixed fields are all inside the payload. -/
theorem fieldsEnd_eq {payload : Bytes} (c : BufferCommand) (h : c.minLength ≤ payload.length) :
    c.fieldsEnd payload = c.fieldsLength := by
  cases c with
  | sessionSetup => exact sessionSetup_reads.parsed_eq h
  | treeConnect => exact treeConnect_reads.parsed_eq h
  | create => exact create_reads.parsed_eq h
  | write => exact write_reads.parsed_eq h
  | setInfo => exact setInfo_reads.parsed_eq h
  | queryDirectory => exact queryDirectory_reads.parsed_eq h
  | ioctl => exact ioctl_reads.parsed_eq (Nat.le_trans (by decide) h)

/-! ### Buffers -/

theorem toUInt32_eq_zero {v : UInt16} : v.toUInt32 = 0 ↔ ¬ v > 0 := by
  rw [gt_iff_lt, UInt16.lt_iff_toNat_lt, ← UInt32.toNat_inj, UInt16.toNat_toUInt32]
  simp

/-- The slice of SESSION_SETUP holds the buffer. -/
theorem securityBlob_live (payload : Bytes) :
    let req := SessionSetupRequest.ofPayload payload
    (securityBlob payload).map Window.live =
      if req.secBufLen > 0 then messageBuffer payload req.secBufOffset.toNat req.secBufLen.toNat
      else some [] := by
  intro req
  have hreq : SessionSetupRequest.ofPayload payload = req := rfl
  unfold securityBlob messageBuffer
  dsimp only
  rw [hreq]
  by_cases hpos : req.secBufLen > 0
  · rw [if_pos hpos, if_pos hpos]
    split
    · rfl
    · next hinside =>
      rw [Window.sub_live (by omega) (by show _ ≤ payload.length; omega), Window.ofList_live,
        Nat.add_sub_cancel_left, slice]
  · rw [if_neg hpos, if_neg hpos]
    rfl

namespace BufferCommand

/-- The handlers use the ranges that the fields describe. -/
theorem uses_buffer {payload : Bytes} (c : BufferCommand) (h : c.minLength ≤ payload.length) :
    c.Uses payload := by
  cases c with
  | sessionSetup =>
    have hreq : SessionSetupRequest.ofPayload payload = _ := sessionSetup_reads.parse_eq h
    have hlive := securityBlob_live payload
    simp only [hreq] at hlive
    simp only [Uses, hlive, buffer, offset, length, UInt16.toNat_toUInt32, toUInt32_eq_zero,
      ite_not]
  | treeConnect =>
    have hreq : readTreeConnect.parse payload = _ := treeConnect_reads.parse_eq h
    simp only [Uses, treeConnectShareName, hreq, buffer, offset, length, UInt16.toNat_toUInt32]
  | create =>
    have hreq : CreateRequest.ofPayload payload = _ := create_reads.parse_eq h
    simp only [Uses, createFilename, hreq, buffer, offset, length, UInt16.toNat_toUInt32]
  | write =>
    have hreq : WriteRequest.ofPayload payload = _ := write_reads.parse_eq h
    simp only [Uses, writeData, hreq, buffer, offset, length, UInt16.toNat_toUInt32]
  | setInfo =>
    have hreq : SetInfoRequest.ofPayload payload = _ := setInfo_reads.parse_eq h
    simp only [Uses, setInfoBuffer, hreq, buffer, offset, length, UInt16.toNat_toUInt32]
  | queryDirectory =>
    have hreq : QueryDirectoryRequest.ofPayload payload = _ := queryDirectory_reads.parse_eq h
    simp only [Uses, QueryDirectoryRequest.pattern, hreq, buffer, offset, length,
      UInt16.toNat_toUInt32, toUInt32_eq_zero, ite_not]
    by_cases hpos : getUint16 (payload.drop 26) > 0
    · simp only [if_pos hpos]
      cases messageBuffer payload (getUint16 (payload.drop 24)).toNat
        (getUint16 (payload.drop 26)).toNat <;> rfl
    · simp only [if_neg hpos]
      rfl
  | ioctl =>
    have hreq : IOCTLRequest.ofPayload payload = _ :=
      ioctl_reads.parse_eq (Nat.le_trans (by decide) h)
    have hzero : ∀ v : UInt32, v > 0 ↔ v ≠ 0 := fun v => UInt32.pos_iff_ne_zero
    simp only [Uses, ioctlInput, hreq, buffer, offset, length, hzero, ← not_or, ite_not]
    congr

end BufferCommand

/-! ### The name of a rename -/

/-- The name in a FileRenameInformation buffer, if it lies inside. -/
def renameName (b : Bytes) : Option Bytes :=
  let n := (getUint32 (b.drop 16)).toNat
  if 20 + n ≤ b.length then some (slice b 20 n) else none

/-- The fixed fields of the buffer: the replace flag and the length of the name. -/
def readRenameFields : Reader (UInt8 × UInt32) := do
  let replaceIfExists ← Reader.readOneByte
  let _ ← Reader.readBytes 7 -- Reserved
  let _ ← Reader.readUint64 -- RootDirectory
  let fileNameLength ← Reader.readUint32
  return (replaceIfExists, fileNameLength)

open Reader in
theorem renameFields_reads : readRenameFields.Reads 20 fun b =>
    (b.headD 0, getUint32 (b.drop 16)) :=
  (reads_oneByte.bind fun _ => (reads_bytes 7).bind fun _ => reads_uint64.bind fun _ =>
    reads_uint32.bind fun _ => reads_pure _).congr fun _ => by simp

/-- What is read behind them. -/
def readRenameName (replaceIfExists : UInt8) (fileNameLength : UInt32) :
    Reader (Option (UInt8 × Str)) := do
  let remaining ← Reader.remaining
  if remaining < fileNameLength.toNat then return none
  else
    let newName ← Reader.readUTF16String fileNameLength.toNat
    return some (replaceIfExists, newName)

theorem readRenameInformation_eq :
    readRenameInformation =
      readRenameFields >>= fun fields => readRenameName fields.1 fields.2 := by
  simp only [readRenameInformation, readRenameFields, readRenameName, bind_assoc, pure_bind]

theorem readRenameName_run {b : Bytes} {pos : Nat} (h : pos ≤ b.length) (replaceIfExists : UInt8)
    (n : UInt32) :
    (readRenameName replaceIfExists n ⟨b, pos⟩).1 =
      if pos + n.toNat ≤ b.length then
        some (replaceIfExists, decodeUTF16LEToString (slice b pos n.toNat)) else none := by
  have hrun : readRenameName replaceIfExists n ⟨b, pos⟩ =
      (if b.length - pos < n.toNat then return none
      else do
        let newName ← Reader.readUTF16String n.toNat
        return some (replaceIfExists, newName) : Reader (Option (UInt8 × Str))) ⟨b, pos⟩ := rfl
  rw [hrun]
  by_cases hin : pos + n.toNat ≤ b.length
  · rw [if_neg (by omega), if_pos hin, (Reader.reads_utf16String n.toNat).run_bind _ hin]
    rfl
  · rw [if_pos (by omega), if_neg hin]
    rfl

theorem readRenameInformation_parse {b : Bytes} (h : 20 ≤ b.length) :
    readRenameInformation.parse b =
      (renameName b).map fun name => (b.headD 0, decodeUTF16LEToString name) := by
  rw [readRenameInformation_eq, renameFields_reads.parse_bind _ h, readRenameName_run h, renameName]
  dsimp only
  split <;> rfl

/-! ## Rejections -/

/-- The handle map without the times of last access. -/
def FileHandleMap.forgetAccess {File : Type} (m : FileHandleMap File) : FileHandleMap File :=
  { m with heap := fun r => { m.heap r with lastAccess := GoTime.zero } }

/-- The server without the times of last access of its handles. -/
def Server.forgetAccess (s : Server B) : Server B :=
  { s with
    shareHeap := fun sh =>
      { s.shareHeap sh with fileHandles := (s.handlesOf sh).forgetAccess } }

theorem FileHandleMap.forgetAccess_update {File : Type} (m : FileHandleMap File) (id : FileID)
    (now : GoTime) : (m.updateLastAccess id now).forgetAccess = m.forgetAccess := by
  unfold updateLastAccess modifyID
  cases m.handles.lookup id with
  | none => rfl
  | some r =>
    unfold forgetAccess modify
    congr 1
    funext r'
    by_cases hr : r' = r
    · subst hr
      simp
    · simp [hr]

theorem Server.forgetAccess_update (s : Server B) (sh : ShareRef) (id : FileID) (now : GoTime) :
    (s.modifyHandles sh fun m => m.updateLastAccess id now).forgetAccess = s.forgetAccess := by
  unfold forgetAccess
  congr 1
  funext sh'
  rw [handlesOf_modifyHandles]
  by_cases hsh : sh' = sh
  · subst hsh
    simp [modifyHandles, FileHandleMap.forgetAccess_update]
  · simp [modifyHandles, hsh]

/-- The computation stops with a status, and leaves everything but times of
last access as it was. -/
def Rejected {α : Type} (s : Server B) (p : M B α) : Prop :=
  ∃ st s', p s = .error (.status st) s' ∧ s'.forgetAccess = s.forgetAccess

/-- A program that never returns, does not panic and writes times of last access only. -/
abbrev Stops {α : Type} (s : Server B) (p : M B α) : Prop :=
  Runs (fun s s' => s'.forgetAccess = s.forgetAccess) Stop.Fails p s fun _ _ => False

theorem Stops.rejected {α : Type} {p : M B α} (h : Stops s p) : Rejected s p := by
  obtain ⟨st, s', -, hrun⟩ := M.stops h
  exact ⟨st, s', hrun⟩

theorem stops_updateLastAccess {α : Type} {sh : ShareRef} {id : FileID} {f : Unit → M B α}
    (h : ∀ s', Stops s' (f ())) : Stops s (updateLastAccess sh id o >>= f) :=
  M.bind_modify (s.forgetAccess_update sh id o.now) (h _)

/-- The buffer is too short for the information of the class. -/
def SetClass.Misfits (b : Bytes) : SetClass → Prop
  | basic => b.length < 40
  | disposition => b = []
  | rename => b.length < 20 ∨ renameName b = none
  | endOfFile => b.length < 8

namespace BufferCommand

/-- The buffer has to lie inside the payload. -/
def required (payload : Bytes) : BufferCommand → Bool
  | sessionSetup => sessionSetup.length payload ≠ 0
  | treeConnect | create | write | setInfo => true
  | queryDirectory | ioctl => false

/-- A SET_INFO request whose file information is not inside its buffer. -/
def BadInformation (payload : Bytes) : Prop :=
  let req := SetInfoRequest.ofPayload payload
  InfoType.ofCode req.infoType = some .file ∧ ∃ c b, SetClass.ofCode req.fileInfoClass = some c ∧
    setInfo.buffer payload = some b ∧ c.Misfits b

/-- A request that is too short, of another structure size, or with a buffer
that it has to have and that does not lie inside. -/
def Malformed (payload : Bytes) (c : BufferCommand) : Prop :=
  wellFormed payload c.minLength c.structSize = false ∨
    (c.required payload = true ∧ c.buffer payload = none) ∨ (c = setInfo ∧ BadInformation payload)

/-- Of a request that passes the first checks the buffer is at fault. -/
theorem Malformed.buffer_eq {payload : Bytes} {c : BufferCommand} (h : c.Malformed payload)
    (hwell : wellFormed payload c.minLength c.structSize = true) (hc : c ≠ setInfo) :
    c.required payload = true ∧ c.buffer payload = none := by
  rcases h with hbad | hbuffer | ⟨rfl, -⟩
  · rw [hwell] at hbad
    cases hbad
  · exact hbuffer
  · exact absurd rfl hc

end BufferCommand

theorem misfits_stops {sh : ShareRef} {r : HandleRef} {of : B.OpenFile} {code : UInt8}
    {c : SetClass} {b : Bytes} (hc : SetClass.ofCode code = some c) (h : c.Misfits b) :
    Stops s (setFileInfo sh r of code b) := by
  unfold setFileInfo
  rw [hc]
  cases c with
  | basic | disposition | endOfFile =>
    refine M.bind_failIf nofun fun hlong => ?_
    simp only [SetClass.Misfits] at h
    simp [h] at hlong
  | rename =>
    refine M.bind_failIf nofun fun hlength => ?_
    have hlong : 20 ≤ b.length := by simpa using hlength
    have hname : renameName b = none := by
      rcases h with hshort | hname
      · omega
      · exact hname
    refine M.bind_require nofun fun a ha => ?_
    rw [readRenameInformation_parse hlong, hname] at ha
    cases ha

/-- SET_INFO rejects its buffer, or what it finds in there. -/
theorem malformed_setInfo_stops (o : Oracle)
    (h : BufferCommand.setInfo.Malformed msg.payload) : Stops s (handleSetInfo msg o) := by
  refine onHandle_runs fun r tree ref of _ _ hwell => M.bind_failIf nofun fun _ => ?_
  refine stops_updateLastAccess fun s' => M.bind_require nofun fun b hb => ?_
  have hset : setInfoBuffer msg.payload = _ :=
    BufferCommand.setInfo.uses_buffer (le_length_of_wellFormed hwell)
  rw [hb] at hset
  rcases h with hbad | ⟨-, hnone⟩ | ⟨-, htype, c, b', hc, hb', hmisfits⟩
  · exact absurd (hwell.symm.trans hbad) (by decide)
  · rw [hnone] at hset
    cases hset
  · cases hset.trans hb'
    refine Runs.bind (Q := fun _ _ => False) ?_ fun _ _ => False.elim
    unfold setInfo
    rw [htype]
    exact misfits_stops hc hmisfits

namespace BufferCommand

/-- **Rejections.** A malformed request is answered with an error and leaves
everything but the time of last access of its handle as it was. -/
theorem malformed_rejected (P : Platform) (k : ConnId) (o : Oracle) (s : Server B)
    {c : BufferCommand} (h : c.Malformed msg.payload) :
    Rejected s (c.handler P k msg o : M B Reply) := by
  apply Stops.rejected
  have huses : wellFormed msg.payload c.minLength c.structSize = true → c.Uses msg.payload :=
    fun hwell => c.uses_buffer (le_length_of_wellFormed hwell)
  cases c with
  | sessionSetup =>
    refine bind_checkRequest fun hwell => M.bind_require nofun fun blob hblob => ?_
    obtain ⟨hrequired, hnone⟩ := h.buffer_eq hwell (by rintro ⟨⟩)
    have hlive := huses hwell
    simp only [required, decide_eq_true_eq] at hrequired
    simp only [Uses, hrequired, if_false, hnone, hblob] at hlive
    cases hlive
  | treeConnect =>
    refine bind_validateSession fun r _ => bind_checkRequest fun hwell => ?_
    refine M.bind_require nofun fun name hname => ?_
    have hshare := huses hwell
    simp only [Uses, (h.buffer_eq hwell (by rintro ⟨⟩)).2, hname] at hshare
    cases hshare
  | create =>
    refine bind_validateTree fun r tree _ => bind_checkRequest fun hwell => ?_
    refine M.bind_require nofun fun name hname => ?_
    have hfile := huses hwell
    simp only [Uses, (h.buffer_eq hwell (by rintro ⟨⟩)).2, hname] at hfile
    cases hfile
  | write =>
    refine onHandle_runs fun r tree ref of _ _ hwell => M.bind_failIf nofun fun _ => ?_
    refine M.bind_failIf nofun fun _ => ?_
    refine stops_updateLastAccess fun s' => M.bind_require nofun fun data hdata => ?_
    have hwrite := huses hwell
    simp only [Uses, (h.buffer_eq hwell (by rintro ⟨⟩)).2, hdata] at hwrite
    cases hwrite
  | setInfo => exact malformed_setInfo_stops o h
  | queryDirectory =>
    refine onHandle_runs fun r tree ref of _ _ hwell => ?_
    cases (h.buffer_eq hwell (by rintro ⟨⟩)).1
  | ioctl =>
    refine bind_validateSession fun r _ => bind_checkRequest fun hwell => ?_
    cases (h.buffer_eq hwell (by rintro ⟨⟩)).1

end BufferCommand

/-! ## The seven handlers -/

/-- What the extraction of a buffer keeps to. -/
structure BufferInBounds (P : Platform) (k : ConnId) (msg : SMB2Message) (o : Oracle)
    (s : Server B) (c : BufferCommand) : Prop where
  /-- The fixed fields are read inside the payload. -/
  fields : wellFormed msg.payload c.minLength c.structSize = true →
    c.fieldsEnd msg.payload = c.fieldsLength ∧ c.fieldsLength ≤ msg.payload.length
  /-- The test on the offset and the length does not overflow. -/
  test : msg.payload.length < 0x8000000000000000 →
    (outside64 msg.payload (c.offset msg.payload) (c.length msg.payload) = true ↔
      c.buffer msg.payload = none)
  /-- What passes it are the bytes at the offset, inside the payload. -/
  taken : ∀ b, c.buffer msg.payload = some b →
    TakenAt msg.payload (c.offset msg.payload).toNat (c.length msg.payload).toNat b
  /-- The handler uses nothing else. -/
  uses : wellFormed msg.payload c.minLength c.structSize = true → c.Uses msg.payload
  /-- The fields of the other file information are read inside the buffer of SET_INFO. -/
  information : ∀ b : Bytes, (40 ≤ b.length → readBasicInformation.parsed b = 36) ∧
    (8 ≤ b.length → Reader.readUint64.parsed b = 8)
  /-- The name of a rename is read inside it. -/
  rename : ∀ b, BufferCommand.setInfo.buffer msg.payload = some b → 20 ≤ b.length →
    readRenameFields.parsed b = 20 ∧
    readRenameInformation.parse b =
      (renameName b).map (fun name => (b.headD 0, decodeUTF16LEToString name)) ∧
    ∀ name, renameName b = some name →
      TakenAt msg.payload ((BufferCommand.setInfo.offset msg.payload).toNat + 20)
        (getUint32 (b.drop 16)).toNat name
  /-- Otherwise the request is rejected. -/
  rejected : c.Malformed msg.payload → Rejected s (c.handler P k msg o : M B Reply)

/-- **Request buffers.** -/
theorem request_buffers_in_bounds (P : Platform) (k : ConnId) (msg : SMB2Message) (o : Oracle)
    (s : Server B) (c : BufferCommand) : BufferInBounds P k msg o s c where
  fields hwell := by
    have hle := le_length_of_wellFormed hwell
    refine ⟨fieldsEnd_eq c hle, Nat.le_trans ?_ hle⟩
    cases c <;> decide
  test hlen := outside64_iff _ _ hlen
  taken _ hb := messageBuffer_taken hb
  uses hwell := c.uses_buffer (le_length_of_wellFormed hwell)
  information b :=
    ⟨fun hlong => basicInformation_reads.parsed_eq (Nat.le_trans (by decide) hlong),
      fun hlong => Reader.reads_uint64.parsed_eq hlong⟩
  rename b hb hlong := by
    refine ⟨renameFields_reads.parsed_eq hlong, readRenameInformation_parse hlong, ?_⟩
    intro name hname
    unfold renameName at hname
    dsimp only at hname
    split at hname
    · next hinside =>
      cases hname
      exact (messageBuffer_taken hb).slice hinside
    · cases hname
  rejected := BufferCommand.malformed_rejected P k o s

end Smbfs
