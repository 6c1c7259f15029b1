import Smbfs.Client.State

/-!
Open files of the client. A method changes its `File` also where it returns
an error, so it returns the file next to its result.
-/

namespace Smbfs.Client

open Smbfs.Lib CM

/-- `File`. The field `file` is `none` once the file is closed, `dirEntry`
until the directory has been read. -/
structure File (S : Share) where
  conn : Option Nat
  file : Option S.File
  path : Str
  offset : Int64
  dirEntry : Option (List FileInfo)
  dirPos : Nat

/-- A file as `OpenFile` returns it. -/
def File.opened {S : Share} (conn : Nat) (file : S.File) (path : Str) : File S :=
  ⟨some conn, some file, path, 0, none, 0⟩

def errClosed : Err := .sentinel .fsClosed

/-- The entries of a directory without those for itself and its parent. -/
def visible (infos : List FileInfo) : List FileInfo :=
  infos.filter fun info => !(info.name = GoPath.dot || info.name = GoPath.dotdot)

namespace File

variable {S : Share} (fsys : FileSystem)

def read (f : File S) (n : Nat) : CM S ((Bytes × Option Err) × File S) :=
  match f.file with
  | none => return (([], some errClosed), f)
  | some file => do
    let ((data, err), file) ← call (.read file n)
    let f := { f with file := some file }
    let moved := { f with offset := f.offset + Int64.ofNat data.length }
    match err with
    | none => return ((data, none), moved)
    | some err =>
      if err = .sentinel .eof then return ((data, some err), moved)
      else return ((data, some (wrapPathError .read f.path err)), f)

def write (f : File S) (p : Bytes) : CM S ((Nat × Option Err) × File S) :=
  match f.file with
  | none => return ((0, some errClosed), f)
  | some file => do
    let ((n, err), file) ← call (.write file p)
    let f := { f with file := some file }
    match err with
    | some err => return ((n, some (wrapPathError .write f.path err)), f)
    | none => return ((n, none), { f with offset := f.offset + Int64.ofNat n })

def seek (f : File S) (offset : Int64) (whence : Whence) : CM S (Except Err Int64 × File S) :=
  match f.file with
  | none => return (.error errClosed, f)
  | some file => do
    let (r, file) ← call (.seek file offset whence)
    let f := { f with file := some file }
    match r with
    | .error err => return (.error (wrapPathError .seek f.path err), f)
    | .ok newOffset => return (.ok newOffset, { f with offset := newOffset })

def close (f : File S) : CM S (Option Err × File S) :=
  match f.file with
  | none => return (none, f)
  | some file => do
    let err ← call (.close file)
    match f.conn with
    | some conn => putConn conn
    | none => pure ()
    return (err.map (wrapPathError .close f.path), { f with file := none, conn := none })

def stat (f : File S) : CM S (Except Err FileInfo) :=
  match f.file with
  | none => return .error errClosed
  | some file => do
    match ← call (.fileStat file) with
    | .error err => return .error (wrapPathError .stat f.path err)
    | .ok info => return .ok { info with name := fsys.pathNorm.base f.path }

/-- The loop of `Truncate` that extends a file by `remaining` zero bytes, 4096
at a time. Every iteration writes at least one byte, so `remaining` iterations
are enough. -/
def writeZeros (path : Str) : Nat → S.File → Nat → CM S (Option Err × S.File)
  | 0, file, _ => return (none, file)
  | fuel + 1, file, remaining =>
    if remaining = 0 then return (none, file)
    else do
      let toWrite := min remaining 4096
      let ((_, err), file) ← call (.write file (List.replicate toWrite 0))
      match err with
      | some err => return (some (wrapPathError .truncate path err), file)
      | none => writeZeros path fuel file (remaining - toWrite)

/-- `Truncate` on the file of the share. -/
def truncateFile (path : Str) (file : S.File) (size : Int64) : CM S (Option Err × S.File) := do
  match ← call (.fileStat file) with
  | .error err => return (some (wrapPathError .truncate path err), file)
  | .ok info =>
    let currentSize := info.size
    if size = currentSize then return (none, file)
    else if size < currentSize then
      let (r, file) ← call (.seek file size .start)
      match r with
      | .error err => return (some (wrapPathError .truncate path err), file)
      | .ok _ =>
        -- A write of no bytes at the new end asks for the truncation.
        let ((_, err), file) ← call (.write file [])
        return (err.map (wrapPathError .truncate path), file)
    else
      let (r, file) ← call (.seek file 0 .fromEnd)
      match r with
      | .error err => return (some (wrapPathError .truncate path err), file)
      | .ok _ =>
        let remaining := (size - currentSize).toNatClampNeg
        writeZeros path remaining file remaining

def truncate (f : File S) (size : Int64) : CM S (Option Err × File S) :=
  match f.file with
  | none => return (some errClosed, f)
  | some file => do
    let (err, file) ← truncateFile f.path file size
    return (err, { f with file := some file })

def readAt (f : File S) (n : Nat) (off : Int64) : CM S ((Bytes × Option Err) × File S) :=
  match f.file with
  | none => return (([], some errClosed), f)
  | some file => do
    let (r, file) ← call (.seek file off .start)
    match r with
    | .error err => return (([], some (wrapPathError .readat f.path err)), { f with file := some file })
    | .ok _ =>
      let ((data, err), file) ← call (.read file n)
      let (back, file) ← call (.seek file f.offset .start)
      let f := { f with file := some file }
      match err, back with
      | some err, _ =>
        if err = .sentinel .eof then return ((data, some err), f)
        else return ((data, some (wrapPathError .readat f.path err)), f)
      | none, .error seekErr => return ((data, some (wrapPathError .readat f.path seekErr)), f)
      | none, .ok _ => return ((data, none), f)

def writeAt (f : File S) (b : Bytes) (off : Int64) : CM S ((Nat × Option Err) × File S) :=
  match f.file with
  | none => return ((0, some errClosed), f)
  | some file => do
    let (r, file) ← call (.seek file off .start)
    match r with
    | .error err => return ((0, some (wrapPathError .writeat f.path err)), { f with file := some file })
    | .ok _ =>
      let ((n, err), file) ← call (.write file b)
      let (back, file) ← call (.seek file f.offset .start)
      let f := { f with file := some file }
      match err, back with
      | some err, _ => return ((n, some (wrapPathError .writeat f.path err)), f)
      | none, .error seekErr => return ((n, some (wrapPathError .writeat f.path seekErr)), f)
      | none, .ok _ => return ((n, none), f)

/-- The end of `ReadDir`: the entries from `dirPos`, all of them or the next `n`. -/
def page (f : File S) (entries : List FileInfo) (n : Int64) :
    CM S (Except Err (List FileInfo) × File S) :=
  if n ≤ 0 then
    let rest := entries.drop f.dirPos
    let f := { f with dirPos := entries.length }
    if rest = [] then return (.error (.sentinel .eof), f) else return (.ok rest, f)
  else if f.dirPos ≥ entries.length then return (.error (.sentinel .eof), f)
  else
    let last := Int64.ofNat f.dirPos + n
    let last := if last > Int64.ofNat entries.length then Int64.ofNat entries.length else last
    -- The sum may have wrapped around; a slice that ends before it starts panics.
    if last < Int64.ofNat f.dirPos then crash
    else
      let last := last.toNatClampNeg
      return (.ok ((entries.take last).drop f.dirPos), { f with dirPos := last })

/-- `ReadDir`: the directory is read once. -/
def readDir (f : File S) (n : Int64) : CM S (Except Err (List FileInfo) × File S) :=
  match f.file with
  | none => return (.error errClosed, f)
  | some file =>
    match f.dirEntry with
    | some entries => f.page entries n
    | none => do
      let (r, file) ← call (.readdir file (-1))
      let f := { f with file := some file }
      match r with
      | .error err => return (.error (wrapPathError .readdir f.path err), f)
      | .ok infos =>
        let f := { f with dirEntry := some (visible infos), dirPos := 0 }
        f.page (visible infos) n

def readdirnames (f : File S) (n : Int64) : CM S (Except Err (List Str) × File S) := do
  let (r, f) ← f.readDir n
  return (r.map fun entries => entries.map FileInfo.name, f)

def sync (f : File S) : Option Err :=
  match f.file with
  | none => some errClosed
  | some _ => none

/-- The loop of `io.ReadFull` on a file, with `want` bytes still to read: the
bytes and the error of the last `Read`. A file may go on returning no bytes and
no error, so the loop is followed for a number of rounds. -/
def readLoop : Nat → File S → Nat → CM S ((Bytes × Option Err) × File S)
  | rounds, f, want =>
    if want = 0 then return (([], none), f)
    else
      match rounds with
      | 0 => crash
      | rounds + 1 => do
        let ((data, err), f) ← f.read want
        match err with
        | some err => return ((data, some err), f)
        | none =>
          let ((rest, err), f) ← readLoop rounds f (want - data.length)
          return ((data ++ rest, err), f)

/-- `io.ReadFull` into a buffer of `size` bytes. -/
def readFull (rounds : Nat) (f : File S) (size : Nat) : CM S ((Bytes × Option Err) × File S) := do
  let ((data, err), f) ← readLoop rounds f size
  if size ≤ data.length then return ((data, none), f)
  else if 0 < data.length ∧ err = some (.sentinel .eof) then
    return ((data, some (.sentinel .unexpectedEOF)), f)
  else return ((data, err), f)

end File

end Smbfs.Client
