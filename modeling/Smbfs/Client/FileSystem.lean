import Smbfs.Client.File

/-!
The path functions of `FileSystem`.
-/

namespace Smbfs.Client

open Smbfs.Lib CM

namespace FileSystem

variable {S : Share} (fsys : FileSystem)

/-- The operation `OpenFile` retries. -/
def openOnce (name : Str) (flag : UInt32) (perm : FileMode) : CM S (File S) := do
  let conn ← fsys.get
  match ← call (.openFile (toSMBPath name) flag perm) with
  | .error err =>
    putConn conn
    fail (convertError err)
  | .ok file => return File.opened conn file name

def openFile (name : Str) (flag : UInt32) (perm : FileMode) : CM S (File S) := do
  let name ← fsys.checkPath .open' name
  match ← attempt (fsys.withRetry (fsys.openOnce name flag perm)) with
  | .error err => fail (wrapPathError .open' name err)
  | .ok f =>
    if hasBits flag oCREATE then
      invalidate name
      return f
    else return f

/-- The operation `Stat` retries. -/
def statOnce (name : Str) : CM S FileInfo := do
  let conn ← fsys.get
  deferPut conn do
    match ← call (.stat (toSMBPath name)) with
    | .error err => fail (convertError err)
    | .ok info => return { info with name := fsys.pathNorm.base name }

/-- The part of `Stat` after a miss in the cache, up to storing the result. -/
def askStat (name : Str) : CM S FileInfo := do
  match ← attempt (fsys.withRetry (fsys.statOnce name)) with
  | .error err => fail (wrapPathError .stat name err)
  | .ok info => return info

def stat (name : Str) : CM S FileInfo := do
  let name ← fsys.checkPath .stat name
  match ← fsys.getStatInfo name with
  | some info => return info
  | none =>
    let info ← fsys.askStat name
    fsys.putStatInfo name info
    return info

/-- The part of `ReadDir` after a miss in the cache, up to storing the result:
the entries and the file to close. The deferred `Close` runs on every way out. -/
def askDir (name : Str) : CM S (List FileInfo × File S) := do
  let f ← fsys.openFile name oRDONLY 0
  match ← f.stat fsys with
  | .error err =>
    let _ ← f.close
    fail (wrapPathError .readdir name err)
  | .ok info =>
    if !info.isDir then
      let _ ← f.close
      fail (wrapPathError .readdir name (.sentinel .notDirectory))
    else
      let (r, f) ← f.readDir (-1)
      match r with
      | .error err =>
        let _ ← f.close
        fail err
      | .ok entries => return (entries, f)

def readDir (name : Str) : CM S (List FileInfo) := do
  let name ← fsys.checkPath .readdir name
  match ← fsys.getDirEntries name with
  | some entries => return entries
  | none =>
    let (entries, f) ← fsys.askDir name
    fsys.putDirEntries name entries
    let _ ← f.close
    return entries

/-- `body` with a connection of the pool, which is put back. -/
def withConn (op : Op) (name : Str) (body : CM S Unit) : CM S Unit := do
  match ← attempt fsys.get with
  | .error err => fail (wrapPathError op name err)
  | .ok conn => deferPut conn body

/-- The form of `Mkdir`, `Remove`, `Chmod` and `Chtimes`: one call on the
share, and the entries of the path invalidated if it succeeds. -/
def changePath (op : Op) (name : Str) (change : Str → CM S (Option Err)) : CM S Unit := do
  let name ← fsys.checkPath op name
  fsys.withConn op name do
    match ← change (toSMBPath name) with
    | some err => fail (wrapPathError op name (convertError err))
    | none => invalidate name

def mkdir (name : Str) (perm : FileMode) : CM S Unit :=
  fsys.changePath .mkdir name fun path => call (.mkdir path perm)

def remove (name : Str) : CM S Unit :=
  fsys.changePath .remove name fun path => call (.remove path)

def chmod (name : Str) (mode : FileMode) : CM S Unit :=
  fsys.changePath .chmod name fun path => call (.chmod path mode)

def chtimes (name : Str) (atime mtime : GoTime) : CM S Unit :=
  fsys.changePath .chtimes name fun path => call (.chtimes path atime mtime)

def rename (oldname newname : Str) : CM S Unit := do
  let _ ← (fsys.checkPath .rename oldname : CM S Str)
  let _ ← (fsys.checkPath .rename newname : CM S Str)
  let oldname := fsys.pathNorm.normalize oldname
  let newname := fsys.pathNorm.normalize newname
  fsys.withConn .rename oldname do
    match ← call (.rename (toSMBPath oldname) (toSMBPath newname)) with
    | some err => fail (wrapPathError .rename oldname (convertError err))
    | none =>
      invalidate oldname
      invalidate newname

/-- `MkdirAll`, with room for `depth` nested calls. -/
def mkdirAllFrom : Nat → Str → FileMode → CM S Unit
  | 0, _, _ => crash
  | depth + 1, name, perm => do
    let name ← fsys.checkPath .mkdir name
    match ← attempt (fsys.stat name) with
    | .ok info =>
      if !info.isDir then fail (wrapPathError .mkdir name (.sentinel .notDirectory))
      else return ()
    | .error _ =>
      let parent := fsys.pathNorm.dir name
      if parent ≠ ['/'] ∧ parent ≠ ['.'] then
        mkdirAllFrom depth parent perm
        fsys.mkdir name perm
      else fsys.mkdir name perm

def mkdirAll (name : Str) (perm : FileMode) : CM S Unit := fsys.mkdirAllFrom fsys.stack name perm

/-- `RemoveAll`, with room for `depth` nested calls. -/
def removeAllFrom : Nat → Str → CM S Unit
  | 0, _ => crash
  | depth + 1, name => do
    let name ← fsys.checkPath .remove name
    match ← attempt (fsys.stat name) with
    | .error err => if osIsNotExist err then return () else fail err
    | .ok info =>
      if !info.isDir then fsys.remove name
      else
        let entries ← fsys.readDir name
        entries.forM fun entry => removeAllFrom depth (fsys.pathNorm.join name entry.name)
        fsys.remove name

def removeAll (name : Str) : CM S Unit := fsys.removeAllFrom fsys.stack name

/-- `Truncate`. The deferred `Close` runs on every way out. -/
def truncate (name : Str) (size : Int64) : CM S Unit := do
  let name ← fsys.checkPath .truncate name
  let f ← fsys.openFile name oWRONLY 0
  let (err, f) ← f.truncate size
  match err with
  | some err =>
    let _ ← f.close
    fail (wrapPathError .truncate name err)
  | none =>
    invalidate name
    let _ ← f.close
    return ()

def chdir (dir : Str) : CM S Unit := do
  let dir ← fsys.checkPath .chdir dir
  let info ← fsys.stat dir
  if !info.isDir then fail (wrapPathError .chdir dir (.sentinel .notDirectory))
  else return ()

/-- `ReadFile`, with at most `rounds` reads. The deferred `Close` runs on every
way out, also where the buffer cannot be made. -/
def readFile (rounds : Nat) (name : Str) : CM S Bytes := do
  let name ← fsys.checkPath .readfile name
  let f ← fsys.openFile name oRDONLY 0
  match ← f.stat fsys with
  | .error err =>
    let _ ← f.close
    fail (wrapPathError .readfile name err)
  | .ok info =>
    if info.isDir then
      let _ ← f.close
      fail (wrapPathError .readfile name (.sentinel .notDirectory))
    else if info.size < 0 then
      let _ ← f.close
      crash
    else
      let ((data, err), f) ← f.readFull rounds info.size.toNatClampNeg
      let _ ← f.close
      match err with
      | none => return data
      | some err =>
        if err = .sentinel .eof ∨ err = .sentinel .unexpectedEOF then return data
        else fail (wrapPathError .readfile name err)

end FileSystem

end Smbfs.Client
