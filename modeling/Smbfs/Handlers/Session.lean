import Smbfs.Handlers.Common
import Smbfs.Server.Signing

/-!
SESSION_SETUP and LOGOFF (`smb2_session.go`), TREE_CONNECT and
TREE_DISCONNECT (`smb2_tree.go`).
-/

namespace Smbfs

open Smbfs.Lib

variable {B : Backend}

/-! ## SESSION_SETUP -/

structure SessionSetupRequest where
  secBufOffset : UInt16
  secBufLen : UInt16
  previousSessionID : UInt64

namespace SessionSetupRequest

def read : Reader SessionSetupRequest := do
  let _ ← Reader.readUint16 -- StructureSize
  let _ ← Reader.readOneByte -- Flags
  let _ ← Reader.readOneByte -- SecurityMode
  let _ ← Reader.readUint32 -- Capabilities
  let _ ← Reader.readUint32 -- Channel
  let secBufOffset ← Reader.readUint16
  let secBufLen ← Reader.readUint16
  let previousSessionID ← Reader.readUint64
  return ⟨secBufOffset, secBufLen, previousSessionID⟩

def ofPayload (payload : Bytes) : SessionSetupRequest := read.parse payload

end SessionSetupRequest

/-- The security blob of a SESSION_SETUP request: a slice of the payload,
`none` when it does not lie inside. -/
def securityBlob (payload : Bytes) : Option (Window UInt8) :=
  let req := SessionSetupRequest.ofPayload payload
  if req.secBufLen > 0 then
    let offset := req.secBufOffset.toNat
    if offset < smb2HeaderSize ∨ offset - smb2HeaderSize + req.secBufLen.toNat > payload.length
    then none
    else (Window.ofList payload).sub (offset - smb2HeaderSize)
      (offset - smb2HeaderSize + req.secBufLen.toNat)
  else some (.ofList [])

/-- The session a SESSION_SETUP request continues: the one of PreviousSessionId,
or the one of the header. -/
def selectSession (m : SessionManager) (msg : SMB2Message) : Option SessionRef :=
  let previousSessionID := (SessionSetupRequest.ofPayload msg.payload).previousSessionID
  let previous := if previousSessionID ≠ 0 then m.getSession previousSessionID else none
  match previous with
  | some r => some r
  | none => if msg.header.sessionID ≠ 0 then m.getSession msg.header.sessionID else none

/-- The authenticator of a session: its own, or a new one. -/
def authenticatorOf (P : Platform) (s : Server B) (r : SessionRef) : NTLMAuthenticator :=
  (s.sessions.heap r).authenticator.getD
    (newNTLMAuthenticator P s.options.serverName s.options.users s.options.allowGuest)

/-- Get or create the session. -/
def sessionFor (k : ConnId) (msg : SMB2Message) (o : Oracle) : M B SessionRef := do
  let s ← M.get
  match selectSession s.sessions msg with
  | some r => return r
  | none =>
    M.modify fun s => { s with
      sessions := s.sessions.createSession o.sessionRand o.now s.options.maxDialect (zeros 16)
        (s.conns k).remoteAddr }
    return s.sessions.nextRef

/-- `Authenticate` on the session's authenticator, which keeps its state. -/
def authenticateSession (P : Platform) (session : SessionRef) (o : Oracle)
    (blob : Window UInt8) : M B AuthResult := do
  let s ← M.get
  let (result, a) ← M.deref ((authenticatorOf P s session).authenticate P o.now o.challenge blob)
  M.modify fun s => s.modifySession session fun session => { session with authenticator := some a }
  return result

def sessionSetupResponse (sessionFlags : UInt16) (blob : Option Bytes) : Bytes :=
  putUint16 9 ++ putUint16 sessionFlags ++
    match blob with
    | some blob => putUint16 (UInt16.ofNat (smb2HeaderSize + 8)) ++
        putUint16 (UInt16.ofNat blob.length) ++ blob
    | none => putUint16 0 ++ putUint16 0

/-- The session becomes valid for the user of `result`. -/
def establish (P : Platform) (k : ConnId) (session : SessionRef) (result : AuthResult)
    (o : Oracle) : M B Reply := do
  let s ← M.get
  let conn := s.conns k
  let signingKey := result.sessionKey.map fun key =>
    deriveSigningKey P key conn.dialect conn.preauthHash
  M.modify fun s => s.modifySession session fun session =>
    session.setValid result.username result.domain result.isGuest signingKey o.now
  M.modify fun s => s.setConn k { s.conns k with session := some session }
  return ⟨sessionSetupResponse (if result.isGuest then 1 else 0)
      (result.responseBlob.filter fun blob => blob.length > 0),
    .success, some (s.sessions.heap session).id, none⟩

/-- `handleSessionSetupImpl`. -/
def handleSessionSetup (P : Platform) (k : ConnId) (msg : SMB2Message) (o : Oracle) :
    M B Reply := do
  checkRequest msg.payload 24 25
  let blob ← M.require (securityBlob msg.payload) .invalidParameter
  let s ← M.get
  let isNewSession := (selectSession s.sessions msg).isNone
  let session ← sessionFor k msg o
  let result ← authenticateSession P session o blob
  let s ← M.get
  let id := (s.sessions.heap session).id
  if result.success then establish P k session result o
  else
    match result.responseBlob with
    | some blob => return ⟨sessionSetupResponse 0 (some blob), .moreProcessingRequired, some id, none⟩
    | none =>
      if isNewSession then
        M.modify fun s => { s with sessions := s.sessions.destroySession id }
      M.fail .logonFailure

/-! ## LOGOFF -/

/-- The handles of each tree of a session are released. -/
def releaseTrees (sessionID : UInt64) : List TreeConnection → M B Unit
  | [] => pure ()
  | tree :: trees => do
    releaseByTree tree.share tree.id sessionID
    releaseTrees sessionID trees

/-- `handleLogoffImpl`. -/
def handleLogoff (k : ConnId) (msg : SMB2Message) : M B Reply := do
  let session ← validateSession msg.header
  checkRequest msg.payload 4 4
  let s ← M.get
  let id := (s.sessions.heap session).id
  releaseTrees id (s.sessions.heap session).trees.values
  M.modify fun s => { s with sessions := s.sessions.destroySession id }
  M.modify fun s => s.setConn k { s.conns k with session := none }
  return .ok emptyResponse

/-! ## TREE_CONNECT, TREE_DISCONNECT -/

def isSeparator (c : Char) : Bool := c = '\\' || c = '/'

/-- `extractShareName`. A path without a separator after the server name is
taken as it stands. -/
def extractShareName (path : Str) : Str :=
  let path := path.dropWhile isSeparator
  let path := match path.dropWhile fun c => !isSeparator c with
    | [] => path
    | _ :: rest => rest
  path.takeWhile fun c => !isSeparator c

/-- The offset and the length of the path of a TREE_CONNECT request. -/
def readTreeConnect : Reader (UInt16 × UInt16) := do
  let _ ← Reader.readUint16 -- StructureSize
  let _ ← Reader.readUint16 -- Flags
  let pathOffset ← Reader.readUint16
  let pathLen ← Reader.readUint16
  return (pathOffset, pathLen)

/-- The share name of a TREE_CONNECT request, if its path lies inside the payload. -/
def treeConnectShareName (payload : Bytes) : Option Str :=
  let (pathOffset, pathLen) := readTreeConnect.parse payload
  (messageBuffer payload pathOffset.toNat pathLen.toNat).map fun b =>
    extractShareName (decodeUTF16LEToString b)

def maximalAccess (readOnly : Bool) : UInt32 :=
  if readOnly then
    fileReadData ||| fileReadAttributes ||| fileReadEa ||| readControl ||| synchronize
  else
    fileReadData ||| fileWriteData ||| fileAppendData ||| fileReadEa ||| fileWriteEa |||
      fileExecute ||| fileDeleteChild ||| fileReadAttributes ||| fileWriteAttributes |||
      delete ||| readControl ||| writeDac ||| writeOwner ||| synchronize

/-- `handleTreeConnectImpl`. -/
def handleTreeConnect (msg : SMB2Message) (o : Oracle) : M B Reply := do
  let session ← validateSession msg.header
  checkRequest msg.payload 8 9
  let shareName ← M.require (treeConnectShareName msg.payload) .invalidParameter
  M.failIf shareName.isEmpty .badNetworkName
  let s ← M.get
  let sh ← M.require (s.shares.lookup shareName) .badNetworkName
  let share := s.shareHeap sh
  let sess := s.sessions.heap session
  M.failIf (!share.checkUserAccess sess.username sess.isGuest) .accessDenied
  let tree := sess.newTree shareName sh share.isReadOnly o.now
  M.modify fun s => s.modifySession session fun session => session.addTreeConnection tree
  return ⟨putUint16 16 ++ [share.getShareType, 0] ++ putUint32 0 ++ putUint32 0 ++
    putUint32 (maximalAccess share.isReadOnly), .success, none, some tree.id⟩

/-- `handleTreeDisconnectImpl`. -/
def handleTreeDisconnect (msg : SMB2Message) : M B Reply := do
  let (session, tree) ← validateTree msg.header
  let s ← M.get
  releaseByTree tree.share tree.id (s.sessions.heap session).id
  M.modify fun s => s.modifySession session fun session => session.removeTreeConnection tree.id
  return .ok emptyResponse

end Smbfs
