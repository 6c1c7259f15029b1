import Smbfs.Wire.Encoding

/-!
The filesystem behind a share. `absfs.FileSystem` and `absfs.File` are
interfaces of another package, so a backing filesystem is a parameter: a
type of states, a type of open files, and what every call the server makes
returns and does to the state. The only assumption is that a call which does
not mutate leaves the content as it was.
-/

namespace Smbfs

/-! ## Files and errors -/

/-- `fs.FileMode`. -/
abbrev FileMode := UInt32

def modeDir : FileMode := 0x80000000
def modeSymlink : FileMode := 0x08000000
def modeDevice : FileMode := 0x04000000
def modeNamedPipe : FileMode := 0x02000000
def modeSocket : FileMode := 0x01000000
def modeCharDevice : FileMode := 0x00200000
def modeIrregular : FileMode := 0x00080000

/-- `fs.ModeType`. -/
def modeType : FileMode :=
  modeDir ||| modeSymlink ||| modeNamedPipe ||| modeSocket ||| modeDevice ||| modeCharDevice |||
    modeIrregular

/-- `fs.FileInfo`. -/
structure FileInfo where
  name : Str
  size : Int64
  mode : FileMode
  modTime : GoTime
  isDir : Bool
  deriving DecidableEq

/-- What the server asks of an error: `errors.Is` for the sentinels,
`err == io.EOF`, and `os.IsNotExist`. -/
structure GoError where
  notExist : Bool
  exist : Bool
  permission : Bool
  invalid : Bool
  closed : Bool
  eof : Bool
  isDirectory : Bool
  notDirectory : Bool
  eqEOF : Bool
  osNotExist : Bool

/-- `mapGoErrorToNTStatus`, for an error that is not nil. -/
def mapGoErrorToNTStatus (err : GoError) : NTStatus :=
  if err.notExist then .objectNameNotFound
  else if err.exist then .objectNameCollision
  else if err.permission then .accessDenied
  else if err.invalid then .invalidParameter
  else if err.closed then .fileClosed
  else if err.eof then .endOfFile
  else if err.isDirectory then .fileIsADirectory
  else if err.notDirectory then .notADirectory
  else .invalidDeviceRequest

/-! ## Attributes -/

def fileAttributeReadonly : UInt32 := 0x00000001
def fileAttributeHidden : UInt32 := 0x00000002
def fileAttributeDirectory : UInt32 := 0x00000010
def fileAttributeArchive : UInt32 := 0x00000020
def fileAttributeDevice : UInt32 := 0x00000040
def fileAttributeNormal : UInt32 := 0x00000080
def fileAttributeReparsePoint : UInt32 := 0x00000400

def attributesToMode (attrs : UInt32) (isDir : Bool) : FileMode :=
  let readonly := hasBits attrs fileAttributeReadonly
  let mode : FileMode := if readonly then 0o444 else 0o666
  let mode := if isDir || hasBits attrs fileAttributeDirectory then
    if readonly then modeDir ||| 0o555 else modeDir ||| 0o777
    else mode
  let mode := if hasBits attrs fileAttributeReparsePoint then mode ||| modeSymlink else mode
  if hasBits attrs fileAttributeDevice then mode ||| modeDevice else mode

def modeToAttributes (mode : FileMode) : UInt32 :=
  let attrs := fileAttributeNormal
  let attrs := if hasBits mode 0o222 then attrs else attrs ||| fileAttributeReadonly
  let attrs := if hasBits mode modeDir then attrs ||| fileAttributeDirectory else attrs
  let attrs := if hasBits mode modeSymlink then attrs ||| fileAttributeReparsePoint else attrs
  let attrs := if hasBits mode modeDevice then attrs ||| fileAttributeDevice else attrs
  if hasBits mode modeType then attrs else attrs ||| fileAttributeArchive

/-! ## Calls -/

/-- The flags of `OpenFile`: `O_RDWR` or `O_RDONLY`, `O_CREATE`, `O_TRUNC`. -/
structure OpenFlags where
  rdwr : Bool
  create : Bool
  trunc : Bool
  deriving DecidableEq

/-- The calls the server makes on a filesystem and on its open files. -/
inductive FsCall (File : Type) where
  | stat (path : Str)
  | openFile (path : Str) (flags : OpenFlags) (perm : FileMode)
  | mkdir (path : Str) (perm : FileMode)
  | remove (path : Str)
  | rename (oldname newname : Str)
  | fileStat (f : File)
  | read (f : File) (n : Nat)
  | write (f : File) (data : Bytes)
  | seek (f : File) (offset : Int64) (whence : Nat)
  | readDir (f : File)
  | sync (f : File)
  | truncate (f : File) (size : Int64)
  | chtimes (f : File) (atime mtime : GoTime)
  | chmod (f : File) (mode : FileMode)
  | close (f : File)
  deriving DecidableEq

namespace FsCall

variable {File : Type}

/-- What a call returns. A `read` returns the bytes it read; `readDir` returns
for every entry what its `Info` returns. -/
@[reducible] def Reply : FsCall File → Type
  | stat _ | fileStat _ => Except GoError FileInfo
  | openFile .. => Except GoError File
  | read .. => Bytes × Option GoError
  | write .. => Nat × Option GoError
  | seek .. => Int64 × Option GoError
  | readDir _ => List (Except GoError FileInfo) × Option GoError
  | mkdir .. | remove _ | rename .. | sync _ | truncate .. | chtimes .. | chmod .. | close _ =>
    Option GoError

/-- The calls that may change a file or a directory. -/
def mutates : FsCall File → Bool
  | openFile _ flags _ => flags.create || flags.trunc
  | mkdir .. | remove _ | rename .. | write .. | truncate .. | chtimes .. | chmod .. => true
  | stat _ | fileStat _ | read .. | seek .. | readDir _ | sync _ | close _ => false

/-- The paths a call passes to the filesystem. -/
def paths : FsCall File → List Str
  | stat p | openFile p _ _ | mkdir p _ | remove p => [p]
  | rename p q => [p, q]
  | fileStat _ | read .. | write .. | seek .. | readDir _ | sync _ | truncate .. | chtimes .. |
    chmod .. | close _ => []

/-- The open file a call operates on. -/
def file? : FsCall File → Option File
  | fileStat f | read f _ | write f _ | seek f _ _ | readDir f | sync f | truncate f _ |
    chtimes f _ _ | chmod f _ | close f => some f
  | stat _ | openFile .. | mkdir .. | remove _ | rename .. => none

end FsCall

/-- A backing filesystem. `Disk` is everything its calls read and write, open
files included; `content` is the part that the mutating calls change. The
other fields say which optional interfaces the files and the filesystem
implement. -/
structure Backend where
  Disk : Type
  File : Type
  Content : Type
  exec : (c : FsCall File) → Disk → c.Reply × Disk
  content : Disk → Content
  content_exec : ∀ (c : FsCall File) (d : Disk), c.mutates = false →
    content (exec c d).2 = content d
  seeker : File → Bool
  syncer : File → Bool
  truncater : File → Bool
  chtimer : File → Bool
  chmoder : File → Bool
  renamer : Disk → Bool

end Smbfs
