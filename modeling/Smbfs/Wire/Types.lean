import Mathlib.Logic.Basic

/-!
Types and constants of `smb2_types.go` and `smb2_commands.go`. Go strings are
lists of characters: every string the server handles is decoded from UTF-16
or is a name of the backing filesystem.
-/

namespace Smbfs

abbrev Bytes := List UInt8
abbrev Str := List Char

/-! ## Status codes -/

inductive NTStatus where
  | success
  | bufferOverflow
  | noMoreFiles
  | invalidParameter
  | noSuchFile
  | endOfFile
  | moreProcessingRequired
  | accessDenied
  | objectNameNotFound
  | objectNameCollision
  | sharingViolation
  | logonFailure
  | fileIsADirectory
  | badNetworkName
  | notADirectory
  | fileClosed
  | networkNameDeleted
  | userSessionDeleted
  | invalidDeviceRequest
  | notSupported
  deriving DecidableEq, Repr

def NTStatus.code : NTStatus → UInt32
  | success => 0x00000000
  | bufferOverflow => 0x80000005
  | noMoreFiles => 0x80000006
  | invalidParameter => 0xC000000D
  | noSuchFile => 0xC000000F
  | endOfFile => 0xC0000011
  | moreProcessingRequired => 0xC0000016
  | accessDenied => 0xC0000022
  | objectNameNotFound => 0xC0000034
  | objectNameCollision => 0xC0000035
  | sharingViolation => 0xC0000043
  | logonFailure => 0xC000006D
  | fileIsADirectory => 0xC00000BA
  | badNetworkName => 0xC00000CC
  | notADirectory => 0xC0000103
  | fileClosed => 0xC0000128
  | networkNameDeleted => 0xC00000C9
  | userSessionDeleted => 0xC0000203
  | invalidDeviceRequest => 0xC0000010
  | notSupported => 0xC00000BB

theorem NTStatus.code_eq_success {st : NTStatus} : st.code = success.code ↔ st = success := by
  cases st <;> decide

theorem NTStatus.code_eq_zero {st : NTStatus} : st.code = 0 ↔ st = .success := by
  cases st <;> decide

/-! ## Commands -/

/-- The commands `HandleMessage` routes; every other code is `unsupported`. -/
inductive Command where
  | negotiate
  | sessionSetup
  | logoff
  | treeConnect
  | treeDisconnect
  | create
  | close
  | flush
  | read
  | write
  | ioctl
  | cancel
  | echo
  | queryDirectory
  | queryInfo
  | setInfo
  | unsupported
  deriving DecidableEq, Repr

def Command.ofCode (c : UInt16) : Command :=
  if c = 0x0000 then negotiate
  else if c = 0x0001 then sessionSetup
  else if c = 0x0002 then logoff
  else if c = 0x0003 then treeConnect
  else if c = 0x0004 then treeDisconnect
  else if c = 0x0005 then create
  else if c = 0x0006 then close
  else if c = 0x0007 then flush
  else if c = 0x0008 then read
  else if c = 0x0009 then write
  else if c = 0x000B then ioctl
  else if c = 0x000C then cancel
  else if c = 0x000D then echo
  else if c = 0x000E then queryDirectory
  else if c = 0x0010 then queryInfo
  else if c = 0x0011 then setInfo
  else unsupported

/-! ## Messages -/

abbrev SMBDialect := UInt16

def smb2_0_2 : SMBDialect := 0x0202
def smb2_1 : SMBDialect := 0x0210
def smb3_0 : SMBDialect := 0x0300
def smb3_0_2 : SMBDialect := 0x0302
def smb3_1_1 : SMBDialect := 0x0311

def supportedDialects : List SMBDialect := [smb3_1_1, smb3_0_2, smb3_0, smb2_1, smb2_0_2]

def smb2HeaderSize : Nat := 64
def maxTransactSize : UInt32 := 8 * 1024 * 1024

def smb2FlagsServerToRedir : UInt32 := 0x00000001
def smb2FlagsSigned : UInt32 := 0x00000008

structure SMB2Header where
  protocolID : Bytes
  structureSize : UInt16
  creditCharge : UInt16
  status : UInt32
  command : UInt16
  creditRequest : UInt16
  flags : UInt32
  nextCommand : UInt32
  messageID : UInt64
  reserved : UInt32
  treeID : UInt32
  sessionID : UInt64
  signature : Bytes

/-- `SMB2Message` as it is received. -/
structure SMB2Message where
  header : SMB2Header
  payload : Bytes
  rawBytes : Bytes

/-- `SMB2Message` as it is sent. -/
structure SMB2Response where
  header : SMB2Header
  payload : Bytes
  signingKey : Option Bytes
  dialect : SMBDialect

/-- `FileID`. The volatile half is a counter of 64 bits that starts at 1 and is never
reset. It is kept as a natural number, so what is said of runs is said of those that
allocate fewer than 2^64 handles per share. -/
structure FileID where
  persistent : UInt64
  volatile : Nat
  deriving DecidableEq, Repr

/-! ## Access masks, share modes, create options -/

def fileReadData : UInt32 := 0x00000001
def fileWriteData : UInt32 := 0x00000002
def fileAppendData : UInt32 := 0x00000004
def fileReadEa : UInt32 := 0x00000008
def fileWriteEa : UInt32 := 0x00000010
def fileExecute : UInt32 := 0x00000020
def fileDeleteChild : UInt32 := 0x00000040
def fileReadAttributes : UInt32 := 0x00000080
def fileWriteAttributes : UInt32 := 0x00000100
def delete : UInt32 := 0x00010000
def readControl : UInt32 := 0x00020000
def writeDac : UInt32 := 0x00040000
def writeOwner : UInt32 := 0x00080000
def synchronize : UInt32 := 0x00100000
def genericAll : UInt32 := 0x10000000
def genericExecute : UInt32 := 0x20000000
def genericWrite : UInt32 := 0x40000000
def genericRead : UInt32 := 0x80000000

def fileShareRead : UInt32 := 0x00000001
def fileShareWrite : UInt32 := 0x00000002
def fileShareDelete : UInt32 := 0x00000004

def fileDirectoryFile : UInt32 := 0x00000001
def fileNonDirectoryFile : UInt32 := 0x00000040
def fileDeleteOnClose : UInt32 := 0x00001000

/-- The create dispositions; other codes are rejected. -/
inductive CreateDisposition where
  | supersede
  | open
  | create
  | openIf
  | overwrite
  | overwriteIf
  deriving DecidableEq, Repr

def CreateDisposition.ofCode (c : UInt32) : Option CreateDisposition :=
  if c = 0 then some supersede
  else if c = 1 then some .open
  else if c = 2 then some create
  else if c = 3 then some openIf
  else if c = 4 then some overwrite
  else if c = 5 then some overwriteIf
  else none

/-- Create actions, returned in the CREATE response. -/
inductive CreateAction where
  | superseded
  | opened
  | created
  | overwritten
  deriving DecidableEq, Repr

def CreateAction.code : CreateAction → UInt32
  | superseded => 0
  | opened => 1
  | created => 2
  | overwritten => 3

/-- `x & mask != 0`. -/
def hasBits (x mask : UInt32) : Bool := x &&& mask != 0

def mapGenericAccess (access : UInt32) : UInt32 :=
  let result := access
  let result := if hasBits access genericRead then
    result ||| (fileReadData ||| fileReadAttributes ||| fileReadEa ||| readControl |||
      synchronize) else result
  let result := if hasBits access genericWrite then
    result ||| (fileWriteData ||| fileAppendData ||| fileWriteAttributes ||| fileWriteEa |||
      synchronize) else result
  let result := if hasBits access genericExecute then
    result ||| (fileExecute ||| fileReadAttributes ||| synchronize) else result
  if hasBits access genericAll then
    result ||| (fileReadData ||| fileWriteData ||| fileAppendData ||| fileReadEa |||
      fileWriteEa ||| fileExecute ||| fileDeleteChild ||| fileReadAttributes |||
      fileWriteAttributes ||| delete ||| readControl ||| writeDac ||| writeOwner |||
      synchronize)
  else result

/-! ## Times -/

/-- `time.Time`, in nanoseconds since 1970. -/
abbrev GoTime := Int

/-- `time.Time{}`: the first of January of the year 1. -/
def GoTime.zero : GoTime := -62135596800000000000

def windowsEpochOffset : UInt64 := 116444736000000000

/-- `TimeToFiletime`; `UnixNano` wraps to 64 bits. -/
def timeToFiletime (t : GoTime) : UInt64 :=
  if t = GoTime.zero then 0
  else (Int64.ofInt t / 100).toUInt64 + windowsEpochOffset

def filetimeToTime (ft : UInt64) : GoTime :=
  if ft = 0 then GoTime.zero
  else ((ft - windowsEpochOffset).toInt64 * 100).toInt

end Smbfs
