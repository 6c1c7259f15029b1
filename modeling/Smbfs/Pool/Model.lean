import Mathlib.Logic.Function.Basic
import Smbfs.Lib.Run
import Smbfs.Lib.Slice

/-!
The connection pool of `connection.go`, as the interleaving of its critical
sections. Connections are addresses into a heap, as they are pointers in the
source. Every call of `get` is numbered by its start; the call's number also
names the channel it waits on. A step of `System.step` is one section under
`p.mu` or one way out of the `select` in `get`.

The sweep in `get` shortens `p.connections` while ranging over it, so it runs
on a `Window` and can panic. The mutex is then never released:
`System.locked`.
-/

namespace Smbfs.Pool

open Smbfs.Lib

abbrev ConnRef := Nat
abbrev CallId := Nat

/-- Successive readings of the monotonic clock, in nanoseconds. -/
structure Clock where
  now : Nat → Int
  mono : ∀ i j, i ≤ j → now i ≤ now j

def Clock.stopped (t : Int) : Clock := ⟨fun _ => t, fun _ _ _ => Int.le_refl t⟩

/-- The fields of `Config` the pool reads. -/
structure Config where
  maxIdle : Int
  maxOpen : Int
  idleTimeout : Int

structure PooledConn where
  createdAt : Int
  lastUsed : Int
  inUse : Bool

/-- `connectionPool`. `conn` is the heap, `closing` the connections for which
`go conn.close()` has been started, in order. -/
structure ConnectionPool where
  config : Config
  conn : ConnRef → PooledConn
  nextConn : ConnRef
  connections : List ConnRef
  waiters : List CallId
  numOpen : Int
  closed : Bool
  closing : List ConnRef

def ConnectionPool.empty (config : Config) : ConnectionPool where
  config := config
  conn := fun _ => ⟨0, 0, false⟩
  nextConn := 0
  connections := []
  waiters := []
  numOpen := 0
  closed := false
  closing := []

/-- `newConnectionPool`: `make` panics on a negative capacity. -/
def newConnectionPool (config : Config) : Option ConnectionPool :=
  if config.maxOpen < 0 then none else some (.empty config)

/-! ## The calls of `get` -/

/-- Where a call of `get` is: creating a connection, blocked in the `select`,
returned with a connection that is not yet put back, over (it returned an
error, or its connection was put back), or panicked. -/
inductive Phase where
  | creating
  | waiting
  | holding (c : ConnRef)
  | over
  | panicked
  deriving DecidableEq

/-- A call of `get` with its channel of capacity one. -/
structure Call where
  phase : Phase
  buffer : Option ConnRef
  closed : Bool

def Call.start (phase : Phase) : Call := ⟨phase, none, false⟩

structure System where
  pool : ConnectionPool
  calls : List Call
  locked : Bool

def System.init (pool : ConnectionPool) : System := ⟨pool, [], false⟩

namespace ConnectionPool

def setConn (p : ConnectionPool) (c : ConnRef) (v : PooledConn) : ConnectionPool :=
  { p with conn := Function.update p.conn c v }

section setConn

variable (p : ConnectionPool) (c : ConnRef) (v : PooledConn)

@[simp] theorem setConn_config : (p.setConn c v).config = p.config := rfl
@[simp] theorem setConn_connections : (p.setConn c v).connections = p.connections := rfl
@[simp] theorem setConn_nextConn : (p.setConn c v).nextConn = p.nextConn := rfl
@[simp] theorem setConn_waiters : (p.setConn c v).waiters = p.waiters := rfl
@[simp] theorem setConn_numOpen : (p.setConn c v).numOpen = p.numOpen := rfl

@[simp] theorem setConn_conn_self : (p.setConn c v).conn c = v := by
  simp [setConn]

theorem setConn_conn_ne {d : ConnRef} (h : d ≠ c) : (p.setConn c v).conn d = p.conn d := by
  simp [setConn, h]

end setConn

/-- `time.Since(conn.lastUsed) < p.config.IdleTimeout` at reading `t`. -/
def valid (p : ConnectionPool) (c : ConnRef) (t : Int) : Prop :=
  t - (p.conn c).lastUsed < p.config.idleTimeout

instance (p : ConnectionPool) (c : ConnRef) (t : Int) : Decidable (p.valid c t) :=
  inferInstanceAs (Decidable (_ < _))

end ConnectionPool

/-! ## `get` -/

/-- How the loop over the idle connections ends. -/
inductive Sweep where
  | found (p : ConnectionPool) (c : ConnRef)
  | exhausted (p : ConnectionPool)
  | panic (p : ConnectionPool)

/-- The loop `for i, conn := range p.connections`, `k` iterations before its
end. The window stands for `p.connections` until the loop is left. -/
def sweepFrom (clock : Clock) : Nat → Nat → ConnectionPool → Window ConnRef → Sweep
  | 0, _, p, w => .exhausted { p with connections := w.live }
  | k + 1, i, p, w =>
    match w.cells[i]? with
    | none => .exhausted { p with connections := w.live }
    | some c =>
      if (p.conn c).inUse then sweepFrom clock k (i + 1) p w
      else if p.valid c (clock.now i) then
        .found
          (({ p with connections := w.live }).setConn c
            { p.conn c with inUse := true, lastUsed := clock.now (i + 1) }) c
      else
        match w.removeAt i with
        | none => .panic { p with connections := w.live }
        | some w' =>
          sweepFrom clock k (i + 1)
            { p with numOpen := p.numOpen - 1, closing := p.closing ++ [c] } w'

def sweep (clock : Clock) (p : ConnectionPool) : Sweep :=
  sweepFrom clock p.connections.length 0 p (Window.ofList p.connections)

namespace System

def setCall (s : System) (k : CallId) (call : Call) : System :=
  { s with calls := s.calls.set k call }

/-- `get` up to its first unlock. -/
def get (s : System) (clock : Clock) : System :=
  if s.pool.closed then { s with calls := s.calls ++ [.start .over] }
  else
    match sweep clock s.pool with
    | .found p c => { s with pool := p, calls := s.calls ++ [.start (.holding c)] }
    | .panic p => ⟨p, s.calls ++ [.start .panicked], true⟩
    | .exhausted p =>
      if p.numOpen < p.config.maxOpen then
        { s with pool := { p with numOpen := p.numOpen + 1 }
                 calls := s.calls ++ [.start .creating] }
      else
        { s with pool := { p with waiters := p.waiters ++ [s.calls.length] }
                 calls := s.calls ++ [.start .waiting] }

/-- `createConnection` has a connection: it is appended and `get` returns it. -/
def created (s : System) (k : CallId) (createdAt lastUsed : Int) : System :=
  match s.calls[k]? with
  | some ⟨.creating, b, cl⟩ =>
    let c := s.pool.nextConn
    { s with
      pool :=
        { s.pool.setConn c ⟨createdAt, lastUsed, true⟩ with
          nextConn := c + 1
          connections := s.pool.connections ++ [c] }
      calls := s.calls.set k ⟨.holding c, b, cl⟩ }
  | _ => s

/-- `createConnection` failed: the reservation is given back. -/
def createFailed (s : System) (k : CallId) : System :=
  match s.calls[k]? with
  | some ⟨.creating, b, cl⟩ =>
    { s with pool := { s.pool with numOpen := s.pool.numOpen - 1 }
             calls := s.calls.set k ⟨.over, b, cl⟩ }
  | _ => s

/-- `case conn := <-waiter`. -/
def receive (s : System) (k : CallId) : System :=
  match s.calls[k]? with
  | some ⟨.waiting, some c, cl⟩ => s.setCall k ⟨.holding c, none, cl⟩
  | some ⟨.waiting, none, true⟩ => s.setCall k ⟨.over, none, true⟩
  | _ => s

/-- `case <-ctx.Done()`: the call leaves the queue and returns. -/
def cancel (s : System) (k : CallId) : System :=
  match s.calls[k]? with
  | some ⟨.waiting, b, cl⟩ =>
    { s with pool := { s.pool with waiters := s.pool.waiters.erase k }
             calls := s.calls.set k ⟨.over, b, cl⟩ }
  | _ => s

/-- `case <-time.After(p.config.ConnTimeout)`: the call returns and nothing else. -/
def timeout (s : System) (k : CallId) : System :=
  match s.calls[k]? with
  | some ⟨.waiting, b, cl⟩ => s.setCall k ⟨.over, b, cl⟩
  | _ => s

/-- `waiter <- conn`. -/
def send (calls : List Call) (w : CallId) (c : ConnRef) : List Call :=
  calls.modify w fun call => { call with buffer := some c }

/-- The part of `put` after the closed check. -/
def putOpen (p : ConnectionPool) (calls : List Call) (c : ConnRef) (now : Int) :
    ConnectionPool × List Call :=
  match p.waiters with
  | w :: ws =>
    ({ p.setConn c { p.conn c with inUse := true, lastUsed := now } with waiters := ws },
      send calls w c)
  | [] =>
    let p := p.setConn c { p.conn c with inUse := false, lastUsed := now }
    let idleCount := p.connections.countP fun d => !(p.conn d).inUse
    if p.config.maxIdle ≤ idleCount then
      ({ p with
          numOpen := p.numOpen - 1
          connections := p.connections.erase c
          closing := p.closing ++ [c] }, calls)
    else (p, calls)

/-- `put` of the connection that call `k` returned. -/
def put (s : System) (k : CallId) (now : Int) : System :=
  match s.calls[k]? with
  | some ⟨.holding c, b, cl⟩ =>
    let calls := s.calls.set k ⟨.over, b, cl⟩
    if s.pool.closed then
      { s with pool := { s.pool with closing := s.pool.closing ++ [c] }, calls := calls }
    else
      let (p, calls) := putOpen s.pool calls c now
      { s with pool := p, calls := calls }
  | _ => s

/-- `!conn.inUse && now.Sub(conn.lastUsed) > p.config.IdleTimeout`. -/
def expired (p : ConnectionPool) (now : Int) (c : ConnRef) : Bool :=
  !(p.conn c).inUse && decide (p.config.idleTimeout < now - (p.conn c).lastUsed)

/-- `cleanup`, which compacts `p.connections` in place. -/
def cleanup (s : System) (now : Int) : System :=
  if s.pool.closed then s
  else
    let out := s.pool.connections.filter (expired s.pool now)
    { s with
      pool :=
        { s.pool with
          connections := s.pool.connections.filter fun c => !expired s.pool now c
          numOpen := s.pool.numOpen - out.length
          closing := s.pool.closing ++ out } }

def close (s : System) : System :=
  if s.pool.closed then s
  else
    { s with
      pool :=
        { s.pool with
          closed := true
          waiters := []
          closing := s.pool.closing ++ s.pool.connections
          connections := []
          numOpen := 0 }
      calls := s.calls.mapIdx fun k call =>
        if k ∈ s.pool.waiters then { call with closed := true } else call }

end System

/-! ## Steps -/

/-- One atomic step of the users of an open pool. -/
inductive PoolOp where
  | get (clock : Clock)
  | created (k : CallId) (createdAt lastUsed : Int)
  | createFailed (k : CallId)
  | receive (k : CallId)
  | cancel (k : CallId)
  | timeout (k : CallId)
  | put (k : CallId) (now : Int)
  | cleanup (now : Int)

/-- The steps that do not take the mutex. -/
def PoolOp.lockFree : PoolOp → Bool
  | .receive _ | .timeout _ => true
  | _ => false

def System.step (s : System) (op : PoolOp) : System :=
  if s.locked && !op.lockFree then s
  else
    match op with
    | .get clock => s.get clock
    | .created k createdAt lastUsed => s.created k createdAt lastUsed
    | .createFailed k => s.createFailed k
    | .receive k => s.receive k
    | .cancel k => s.cancel k
    | .timeout k => s.timeout k
    | .put k now => s.put k now
    | .cleanup now => s.cleanup now

end Smbfs.Pool
