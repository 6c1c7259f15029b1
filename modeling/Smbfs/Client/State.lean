import Smbfs.Client.Cache
import Smbfs.Client.Path
import Smbfs.Client.Share
import Smbfs.Lib.Walk

/-!
The state a `FileSystem` works on, the outside world it meets, and the retry
loop. The pool, the context and the clock are sequences of answers: what the
next `pool.get`, the next look at the context and the next reading of the
clock give. A program of the client is an `EStateM`: an `error` is what a Go
function returns early, a `crash` ends the process.
-/

namespace Smbfs.Client

open Smbfs.Lib

/-- The parts of a `FileSystem` that never change, and what its calls meet. -/
structure FileSystem where
  pathNorm : PathNormalizer
  /-- `MaxAttempts` of the retry policy. -/
  maxAttempts : Int
  clock : Nat → GoTime
  /-- The error of each `pool.get`, or a connection. -/
  poolGet : Nat → Option Err
  /-- `ctx.Err()` at each look. -/
  ctxErr : Nat → Option Err
  /-- How deep the functions that call themselves may go. -/
  stack : Nat

/-- The cache, what the share stores, and how often the clock, the pool and
the context were asked. A connection is the number of the `pool.get` that gave it. -/
structure State (S : Share) where
  cache : MetadataCache
  disk : S.Disk
  ticks : Nat
  gets : Nat
  looks : Nat
  puts : List Nat

/-- A client that has done nothing yet. -/
def State.new {S : Share} (config : CacheConfig) (disk : S.Disk) : State S :=
  ⟨newMetadataCache config, disk, 0, 0, 0, []⟩

inductive Fault where
  | error (err : Err)
  | crash
  deriving DecidableEq

abbrev CM (S : Share) := EStateM Fault (State S)

namespace CM

variable {S : Share} {α : Type}

def fail (err : Err) : CM S α := throw (.error err)

def crash : CM S α := throw .crash

/-- The error a program returns, as a value. -/
def attempt (m : CM S α) : CM S (Except Err α) := fun c =>
  match m c with
  | .ok a c' => .ok (.ok a) c'
  | .error (.error err) c' => .ok (.error err) c'
  | .error .crash c' => .error .crash c'

def ofExcept : Except Err α → CM S α
  | .ok a => pure a
  | .error err => fail err

/-- A call on the share. -/
def call (c : ShareCall S.File) : CM S c.Reply := fun st =>
  let r := S.exec c st.disk
  .ok r.1 { st with disk := r.2 }

theorem call_run {c : ShareCall S.File} {st : State S} {r : c.Reply} {d : S.Disk}
    (h : S.exec c st.disk = (r, d)) : call c st = .ok r { st with disk := d } := by
  rw [call, h]

/-- A change of the cache. -/
def onCache (f : MetadataCache → MetadataCache) : CM S Unit :=
  modify fun st => { st with cache := f st.cache }

/-- `cache.invalidate`. -/
def invalidate (path : Str) : CM S Unit := onCache fun cache => cache.invalidate path

/-- `pool.put`. -/
def putConn (conn : Nat) : CM S Unit := modify fun st => { st with puts := conn :: st.puts }

/-- `defer pool.put(conn)` around the rest of a function. -/
def deferPut (conn : Nat) (body : CM S α) : CM S α := do
  let r ← attempt body
  putConn conn
  ofExcept r

end CM

open CM in
theorem attempt_bind {S : Share} {α β : Type} (m : CM S α) (f : α → CM S β) (v : State S) :
    attempt (m >>= f) v = match attempt m v with
      | .ok (.ok a) v' => attempt (f a) v'
      | .ok (.error err) v' => .ok (.error err) v'
      | .error e v' => .error e v' := by
  simp only [attempt, bind_run]
  cases m v with
  | ok a v' => rfl
  | error e v' => cases e <;> rfl

namespace FileSystem

variable {S : Share} {α : Type} (fsys : FileSystem)

open CM

/-! ## The outside world -/

/-- `time.Now`. -/
def now : CM S GoTime := fun st => .ok (fsys.clock st.ticks) { st with ticks := st.ticks + 1 }

/-- `pool.get`. -/
def get : CM S Nat := fun st =>
  let st' := { st with gets := st.gets + 1 }
  match fsys.poolGet st.gets with
  | some err => .error (.error err) st'
  | none => .ok st.gets st'

/-- `if ctx.Err() != nil { return ctx.Err() }`. -/
def checkContext : CM S Unit := fun st =>
  let st' := { st with looks := st.looks + 1 }
  match fsys.ctxErr st.looks with
  | some err => .error (.error err) st'
  | none => .ok () st'

/-! ## Retrying -/

/-- One iteration up to the test of the error: a value or an error that can be retried. -/
def tryOnce (operation : CM S α) : CM S (Except Err α) := do
  fsys.checkContext
  match ← attempt operation with
  | .ok a => return .ok a
  | .error err => if isRetryable err then return .error err else fail err

/-- The loop of `withRetry`, with `n` attempts left after this one. The wait
between two attempts ends early if the context is done. -/
def retryLoop (operation : CM S α) : Nat → CM S α
  | 0 => do ofExcept (← fsys.tryOnce operation)
  | n + 1 => do
    match ← fsys.tryOnce operation with
    | .ok a => return a
    | .error _ =>
      fsys.checkContext
      retryLoop operation n

def withRetry (operation : CM S α) : CM S α :=
  if fsys.maxAttempts ≤ 1 then operation
  else fsys.retryLoop operation (fsys.maxAttempts.toNat - 1)

/-! ## Cache and paths -/

/-- `cache.getStatInfo`. -/
def getStatInfo (path : Str) : CM S (Option FileInfo) := do
  let t ← fsys.now
  return (← EStateM.get).cache.getStatInfo path t

/-- `cache.getDirEntries`. -/
def getDirEntries (path : Str) : CM S (Option (List FileInfo)) := do
  let t ← fsys.now
  return (← EStateM.get).cache.getDirEntries path t

/-- `cache.putStatInfo`. -/
def putStatInfo (path : Str) (info : FileInfo) : CM S Unit := do
  let t ← fsys.now
  onCache fun cache => cache.putStatInfo path info t

/-- `cache.putDirEntries`. -/
def putDirEntries (path : Str) (entries : List FileInfo) : CM S Unit := do
  let t ← fsys.now
  onCache fun cache => cache.putDirEntries path entries t

/-- The check every path function starts with, and the normalised path. -/
def checkPath (op : Op) (name : Str) : CM S Str :=
  match validatePath name with
  | some err => fail (wrapPathError op name err)
  | none => pure (fsys.pathNorm.normalize name)

end FileSystem

end Smbfs.Client
