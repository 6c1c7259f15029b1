import Smbfs.Handlers.Dir
import Smbfs.Handlers.File
import Smbfs.Handlers.Info
import Smbfs.Handlers.Ioctl
import Smbfs.Handlers.Negotiate
import Smbfs.Handlers.Session
import Smbfs.Lib.Run

/-!
`HandleMessage` (`smb2_handlers.go`), and the server as a transition system:
the messages of its connections, `AddShare`, `RemoveShare` and the session
cleanup loop (`server.go`). A panic in a handler ends the process.
-/

namespace Smbfs

open Smbfs.Lib

variable {B : Backend}

def handleEcho : M B Reply := return .ok emptyResponse

def SMB2Message.cmd (msg : SMB2Message) : Command := Command.ofCode msg.header.command

/-- The handler of a command; CANCEL has none. -/
def Command.handler (P : Platform) (k : ConnId) (msg : SMB2Message) (o : Oracle) :
    Command → M B (Option Reply)
  | .negotiate => some <$> handleNegotiate k msg o
  | .sessionSetup => some <$> handleSessionSetup P k msg o
  | .logoff => some <$> handleLogoff k msg
  | .treeConnect => some <$> handleTreeConnect msg o
  | .treeDisconnect => some <$> handleTreeDisconnect msg
  | .create => some <$> handleCreate msg o
  | .close => some <$> handleClose msg
  | .read => some <$> handleRead msg o
  | .write => some <$> handleWrite msg o
  | .flush => some <$> handleFlush msg
  | .queryDirectory => some <$> handleQueryDirectory P msg
  | .queryInfo => some <$> handleQueryInfo msg o
  | .setInfo => some <$> handleSetInfo msg o
  | .echo => some <$> handleEcho
  | .ioctl => some <$> handleIOCTL msg
  | .cancel => return none
  | .unsupported => M.fail .notSupported

def route (P : Platform) (k : ConnId) (msg : SMB2Message) (o : Oracle) : M B (Option Reply) :=
  msg.cmd.handler P k msg o

/-- What `HandleMessage` returns. -/
inductive Outcome where
  | crash
  | silent
  | response (r : SMB2Response)

def Outcome.isCrash : Outcome → Bool
  | .crash => true
  | _ => false

@[simp] theorem Outcome.isCrash_eq_false {out : Outcome} : out.isCrash = false ↔ out ≠ .crash := by
  cases out <;> simp [isCrash]

def grantedCredits (requested : UInt16) : UInt16 := if requested < 10 then 10 else requested

/-- The response header. -/
def responseHeader (h : SMB2Header) (reply : Reply) : SMB2Header where
  protocolID := smb2ProtocolID
  structureSize := UInt16.ofNat smb2HeaderSize
  creditCharge := 0
  status := reply.status.code
  command := h.command
  creditRequest := grantedCredits h.creditRequest
  flags := smb2FlagsServerToRedir
  nextCommand := 0
  messageID := h.messageID
  reserved := 0
  treeID := reply.treeID.getD h.treeID
  sessionID := reply.sessionID.getD h.sessionID
  signature := zeros 16

/-- The key the response is signed with: the connection's session has one, and
signing is required or the request was signed. NEGOTIATE and unsuccessful
SESSION_SETUP responses are not signed. -/
def responseKey (s : Server B) (k : ConnId) (msg : SMB2Message) (status : NTStatus) :
    Option Bytes :=
  let conn := s.conns k
  let cmd := msg.cmd
  let shouldSign := (conn.signingRequired || hasBits msg.header.flags smb2FlagsSigned) &&
    !(cmd = .sessionSetup && status ≠ .success) && cmd ≠ .negotiate
  match conn.session with
  | none => none
  | some session => if shouldSign then (s.sessions.heap session).signingKey else none

/-- The response message for a reply. -/
def buildResponse (s : Server B) (k : ConnId) (msg : SMB2Message) (reply : Reply) :
    SMB2Response :=
  let header := responseHeader msg.header reply
  match responseKey s k msg reply.status with
  | none => ⟨header, reply.payload, none, 0⟩
  | some key =>
    ⟨{ header with flags := header.flags ||| smb2FlagsSigned }, reply.payload, some key,
      (s.conns k).dialect⟩

theorem buildResponse_status (s : Server B) (k : ConnId) (msg : SMB2Message) (reply : Reply) :
    (buildResponse s k msg reply).header.status = reply.status.code := by
  unfold buildResponse
  dsimp only
  split <;> rfl

theorem buildResponse_payload (s : Server B) (k : ConnId) (msg : SMB2Message) (reply : Reply) :
    (buildResponse s k msg reply).payload = reply.payload := by
  unfold buildResponse
  dsimp only
  split <;> rfl

theorem buildResponse_command (s : Server B) (k : ConnId) (msg : SMB2Message) (reply : Reply) :
    (buildResponse s k msg reply).header.command = msg.header.command := by
  unfold buildResponse
  dsimp only
  split <;> rfl

def handleMessage (P : Platform) (k : ConnId) (msg : SMB2Message) (o : Oracle) (s : Server B) :
    Outcome × Server B :=
  match route P k msg o s with
  | .ok (some reply) s => (.response (buildResponse s k msg reply), s)
  | .ok none s => (.silent, s)
  | .error (.status st) s => (.response (buildResponse s k msg ⟨errorResponse, st, none, none⟩), s)
  | .error .crash s => (.crash, s)

/-- The outcome of a handler that answers. -/
def respond (k : ConnId) (msg : SMB2Message) :
    EStateM.Result Stop (Server B) Reply → Outcome × Server B
  | .ok reply s => (.response (buildResponse s k msg reply), s)
  | .error (.status st) s => (.response (buildResponse s k msg ⟨errorResponse, st, none, none⟩), s)
  | .error .crash s => (.crash, s)

theorem respond_state (k : ConnId) (msg : SMB2Message)
    (x : EStateM.Result Stop (Server B) Reply) : (respond k msg x).2 = stateOf x := by
  cases x with
  | ok reply s => rfl
  | error e s => cases e <;> rfl

theorem handleMessage_of_cmd {P : Platform} {k : ConnId} {msg : SMB2Message} {o : Oracle}
    {c : Command} {m : M B Reply} (h : msg.cmd = c) (hm : c.handler P k msg o = some <$> m)
    (s : Server B) : handleMessage P k msg o s = respond k msg (m s) := by
  rw [handleMessage, route, h, hm, map_run]
  cases m s with
  | ok reply s => rfl
  | error e s => cases e <;> rfl

/-! ## The connection loop -/

/-- The preauthentication hash takes in a NEGOTIATE request, and with SMB 3.1.1
a SESSION_SETUP request of a connection without a valid session. -/
def hashRequest (P : Platform) (k : ConnId) (msg : SMB2Message) (s : Server B) : Server B :=
  let conn := s.conns k
  let cmd := msg.cmd
  let established := match conn.session with
    | none => false
    | some session => (s.sessions.heap session).state = .valid
  if cmd = .negotiate ∨ (conn.dialect ≥ smb3_1_1 ∧ cmd = .sessionSetup ∧ established = false) then
    s.setConn k { conn with preauthHash := updatePreauthHash P conn.preauthHash msg.rawBytes }
  else s

/-- With SMB 3.1.1 it takes in the response too; these responses are unsigned. -/
def hashResponse (P : Platform) (k : ConnId) (r : SMB2Response) (s : Server B) : Server B :=
  let conn := s.conns k
  let cmd := Command.ofCode r.header.command
  if conn.dialect ≥ smb3_1_1 ∧
      (cmd = .negotiate ∨ (cmd = .sessionSetup ∧ r.header.status ≠ NTStatus.success.code)) then
    s.setConn k { conn with preauthHash := updatePreauthHash P conn.preauthHash r.marshal }
  else s

/-- One round of the loop of `handleConnection`. -/
def processMessage (P : Platform) (k : ConnId) (msg : SMB2Message) (o : Oracle) (s : Server B) :
    Outcome × Server B :=
  match handleMessage P k msg o (hashRequest P k msg s) with
  | (.response r, s) => (.response r, hashResponse P k r s)
  | r => r

/-! ## Session cleanup -/

/-- The handles of a session are released in each share of the registry. -/
def releaseInShares (sessionID : UInt64) : List ShareRef → M B Unit
  | [] => pure ()
  | sh :: shs => do
    releaseBySession sh sessionID
    releaseInShares sessionID shs

def releaseSessions (shares : List ShareRef) : List UInt64 → M B Unit
  | [] => pure ()
  | id :: ids => do
    releaseInShares id shares
    releaseSessions shares ids

/-- One tick of `sessionCleanupLoop`. -/
def cleanupTick (now : GoTime) : M B Unit := do
  let s ← M.get
  let expired := s.sessions.expired now
  M.modify fun s => { s with sessions := s.sessions.cleanupExpired now }
  releaseSessions s.shares.values (expired.map fun e => (s.sessions.heap e.2).id)

/-! ## The system -/

inductive Event where
  | connect (k : ConnId) (remoteAddr : Str)
  | message (k : ConnId) (msg : SMB2Message) (o : Oracle)
  | addShare (fs : Option FsRef) (options : ShareOptions)
  | removeShare (shareName : Str)
  | cleanup (now : GoTime)

/-- The process: the server, or the server as it was when a handler panicked. -/
structure System (B : Backend) where
  server : Server B
  crashed : Bool

namespace System

/-- What an event does to a running server. -/
def react (P : Platform) (s : Server B) : Event → System B
  | .connect k remoteAddr => ⟨s.setConn k (.new remoteAddr), false⟩
  | .message k msg o =>
    match processMessage P k msg o s with
    | (.crash, s) => ⟨s, true⟩
    | (_, s) => ⟨s, false⟩
  | .addShare fs options => ⟨s.addShare fs options, false⟩
  | .removeShare shareName => ⟨s.removeShare shareName, false⟩
  | .cleanup now => ⟨stateOf (cleanupTick now s), false⟩

def step (P : Platform) (sys : System B) (e : Event) : System B :=
  if sys.crashed then sys else react P sys.server e

/-- The state after the events. -/
def run (P : Platform) (sys : System B) (es : List Event) : System B := runFrom (step P) sys es

/-- A server that has just been made. -/
def initial (options : ServerOptions) (rand : Bytes) (disks : FsRef → B.Disk) : System B :=
  ⟨newServer options rand disks, false⟩

/-- A condition on the messages that reach a running server. -/
def OnMessage (C : Server B → SMB2Message → Oracle → Prop) (sys : System B) : Event → Prop
  | .message _ msg o => sys.crashed = false → C sys.server msg o
  | _ => True

instance {C : Server B → SMB2Message → Oracle → Prop} [∀ s msg o, Decidable (C s msg o)]
    (sys : System B) : (e : Event) → Decidable (OnMessage C sys e)
  | .message _ msg o => inferInstanceAs (Decidable (sys.crashed = false → C sys.server msg o))
  | .connect .. | .addShare .. | .removeShare _ | .cleanup _ => inferInstanceAs (Decidable True)

/-- Conditions that agree on the server agree on the events. -/
theorem onMessage_congr {C D : Server B → SMB2Message → Oracle → Prop} {sys : System B}
    (h : ∀ msg o, C sys.server msg o ↔ D sys.server msg o) (e : Event) :
    OnMessage C sys e ↔ OnMessage D sys e := by
  cases e with
  | message k msg o => exact imp_congr_right fun _ => h msg o
  | connect | addShare | removeShare | cleanup => exact Iff.rfl

end System

end Smbfs
