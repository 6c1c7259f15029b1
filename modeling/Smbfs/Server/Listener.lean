import Smbfs.Lib.Run

/-!
The connections of a server: `Listen`, `acceptLoop`, the parts of
`handleConnection` around its message loop, and `Stop`. Every section that
holds `connMu` is one step, so a run of the listener is any order of accepts
and of the starts and ends of handlers.
-/

namespace Smbfs.Listener

/-- A connection is the number of the accept that gave it. -/
abbrev Conn := Nat

/-- How far the goroutine of a connection is: just started, or with its
connection in `conns` and on its way to the end of `handleConnection`. -/
inductive Phase where
  | started
  | tracked
  deriving DecidableEq

/-- The fields of `Server` that count connections, and its goroutines: the
accept loops, and the handlers that have not finished. -/
structure State where
  maxConnections : Int
  connCount : Int
  conns : List Conn
  done : Bool
  loops : Nat
  handlers : List (Conn × Phase)
  next : Conn
  deriving DecidableEq

/-- A server made by `NewServer`. -/
def State.new (maxConnections : Int) : State := ⟨maxConnections, 0, [], false, 0, [], 0⟩

inductive Event where
  /-- `Listen` starts an accept loop. -/
  | listen
  /-- `Accept` returns a connection. -/
  | accept
  /-- `Accept` returns an error. -/
  | acceptError
  /-- A handler enters its connection in `conns`. -/
  | track (c : Conn)
  /-- The deferred end of a handler, after its message loop. -/
  | finish (c : Conn)
  | stop
  deriving DecidableEq

/-- `go s.handleConnection(conn)`. -/
def State.handle (s : State) : State :=
  { s with handlers := s.handlers ++ [(s.next, .started)], next := s.next + 1 }

/-- The part of `acceptLoop` after `Accept` returned a connection. Over the
limit, the connection is closed. -/
def State.accept (s : State) : State :=
  if s.maxConnections > 0 then
    if s.connCount ≥ s.maxConnections then s
    else { s with connCount := s.connCount + 1 }.handle
  else s.handle

/-- The loop ends when the context is done and goes on otherwise. -/
def State.acceptError (s : State) : State :=
  if s.done then { s with loops := s.loops - 1 } else s

/-- The first section of `handleConnection`. -/
def State.track (s : State) (c : Conn) : State :=
  { s with conns := c :: s.conns, handlers := (c, .tracked) :: s.handlers.erase (c, .started) }

/-- The deferred section of `handleConnection`. -/
def State.finish (s : State) (c : Conn) : State :=
  { s with
    conns := s.conns.erase c
    connCount := s.connCount - 1
    handlers := s.handlers.erase (c, .tracked) }

/-- An event that no goroutine is ready for changes nothing. -/
def step (s : State) : Event → State
  | .listen => { s with loops := s.loops + 1 }
  | .accept => if s.loops = 0 then s else s.accept
  | .acceptError => if s.loops = 0 then s else s.acceptError
  | .track c => if (c, .started) ∈ s.handlers then s.track c else s
  | .finish c => if (c, .tracked) ∈ s.handlers then s.finish c else s
  | .stop => { s with done := true }

def State.connectionCount (s : State) : Int := s.connCount

end Smbfs.Listener
