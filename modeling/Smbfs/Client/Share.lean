import Smbfs.Client.Errors
import Smbfs.Server.Backend

/-!
The share behind the client. `SMBShare` and `SMBFile` are interfaces, so a
share is a parameter: a type for what it stores, a type of open files, and
what every call returns and does. An open file is a value with its own
position; a call on it returns the file as it is afterwards.
-/

namespace Smbfs.Client

/-! ## Flags of `OpenFile` -/

def oRDONLY : UInt32 := 0x0
def oWRONLY : UInt32 := 0x1
def oRDWR : UInt32 := 0x2
def oCREATE : UInt32 := 0x40
def oEXCL : UInt32 := 0x80
def oTRUNC : UInt32 := 0x200

/-- A mask of two parts has a bit in common with a flag if one of the parts has. -/
theorem hasBits_or (flag a b : UInt32) :
    hasBits flag (a ||| b) = (hasBits flag a || hasBits flag b) := by
  have hdist : flag &&& (a ||| b) = flag &&& a ||| flag &&& b :=
    UInt32.toBitVec_inj.mp BitVec.and_or_distrib_left
  rw [hasBits, hdist, hasBits, hasBits, Bool.eq_iff_iff, Bool.or_eq_true, bne_iff_ne, bne_iff_ne,
    bne_iff_ne, ne_eq, UInt32.or_eq_zero_iff, Decidable.not_and_iff_or_not]

/-! ## Calls -/

inductive Whence where
  | start
  | current
  | fromEnd
  deriving DecidableEq

/-- The methods of `SMBShare` and `SMBFile` that the client calls. -/
inductive ShareCall (File : Type) where
  | openFile (name : Str) (flag : UInt32) (perm : FileMode)
  | stat (name : Str)
  | mkdir (name : Str) (perm : FileMode)
  | remove (name : Str)
  | rename (oldname newname : Str)
  | chmod (name : Str) (mode : FileMode)
  | chtimes (name : Str) (atime mtime : GoTime)
  | read (f : File) (n : Nat)
  | write (f : File) (data : Bytes)
  | seek (f : File) (offset : Int64) (whence : Whence)
  | close (f : File)
  | fileStat (f : File)
  | readdir (f : File) (n : Int64)

namespace ShareCall

variable {File : Type}

/-- What a call returns. A `read` returns the bytes it read. -/
@[reducible] def Reply : ShareCall File → Type
  | openFile .. => Except Err File
  | stat _ | fileStat _ => Except Err FileInfo
  | mkdir .. | remove _ | rename .. | chmod .. | chtimes .. | close _ => Option Err
  | read .. => (Bytes × Option Err) × File
  | write .. => (Nat × Option Err) × File
  | seek .. => Except Err Int64 × File
  | readdir .. => Except Err (List FileInfo) × File

/-- The calls that only look at what is stored. -/
def reads : ShareCall File → Bool
  | openFile _ flag _ => !hasBits flag (oCREATE ||| oTRUNC)
  | stat _ | fileStat _ | read .. | seek .. | close _ | readdir .. => true
  | mkdir .. | remove _ | rename .. | chmod .. | chtimes .. | write .. => false

end ShareCall

/-- A share: what it stores, its open files with the name each was opened
under, and its calls. -/
structure Share where
  Disk : Type
  File : Type
  nameOf : File → Str
  exec : (c : ShareCall File) → Disk → c.Reply × Disk

end Smbfs.Client
