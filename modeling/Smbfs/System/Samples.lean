import Smbfs.System.InodeFs
import Smbfs.System.Tables

/-!
Requests as a client writes them, and small servers over the filesystem with
inodes.
-/

namespace Smbfs

open Smbfs.Lib

/-! ## Requests -/

def request (command : UInt16) (sessionID : UInt64) (treeID : UInt32) (payload : Bytes) :
    SMB2Message where
  header :=
    { protocolID := smb2ProtocolID, structureSize := 64, creditCharge := 0, status := 0,
      command := command, creditRequest := 1, flags := 0, nextCommand := 0, messageID := 0,
      reserved := 0, treeID := treeID, sessionID := sessionID, signature := zeros 16 }
  payload := payload
  rawBytes := []

/-- The message with the bytes it was read from. -/
def SMB2Message.framed (msg : SMB2Message) : SMB2Message :=
  { msg with rawBytes := msg.header.marshal ++ msg.payload }

def negotiateRequest (dialects : List SMBDialect) : SMB2Message :=
  request 0 0 0 (putUint16 36 ++ putUint16 (UInt16.ofNat dialects.length) ++ zeros 32 ++
    dialects.flatMap putUint16)

def sessionSetupRequest (sessionID : UInt64) (blob : Bytes) : SMB2Message :=
  request 1 sessionID 0 (putUint16 25 ++ zeros 10 ++ putUint16 88 ++
    putUint16 (UInt16.ofNat blob.length) ++ zeros 8 ++ blob)

/-- A Type 1 message. -/
def negotiateMessage : Bytes := ntlmSignature ++ putUint32 1 ++ putUint32 ntlmFlagNegotiateUnicode

/-- A Type 3 message for a user, with an empty domain and no responses. -/
def authenticateMessage (username : Str) : Bytes :=
  let name := encodeStringToUTF16LE username
  ntlmSignature ++ putUint32 3 ++ zeros 24 ++ putUint16 (UInt16.ofNat name.length) ++
    putUint16 (UInt16.ofNat name.length) ++ putUint32 64 ++ zeros 20 ++ name

/-- TREE_CONNECT to `\\s\name`. -/
def treeConnectRequest (sessionID : UInt64) (name : Str) : SMB2Message :=
  let path := encodeStringToUTF16LE (['\\', '\\', 's', '\\'] ++ name)
  request 3 sessionID 0 (putUint16 9 ++ [0, 0] ++ putUint16 72 ++
    putUint16 (UInt16.ofNat path.length) ++ path)

def createRequest (sessionID : UInt64) (treeID : UInt32) (name : Str)
    (access share disposition options : UInt32) : SMB2Message :=
  let name := encodeStringToUTF16LE name
  request 5 sessionID treeID (putUint16 57 ++ zeros 22 ++ putUint32 access ++ putUint32 0 ++
    putUint32 share ++ putUint32 disposition ++ putUint32 options ++ putUint16 120 ++
    putUint16 (UInt16.ofNat name.length) ++ zeros 8 ++ name)

def closeRequest (sessionID : UInt64) (treeID : UInt32) (id : FileID) : SMB2Message :=
  request 6 sessionID treeID (putUint16 24 ++ zeros 6 ++ putFileID id)

def readRequest (sessionID : UInt64) (treeID : UInt32) (id : FileID) (length : UInt32) :
    SMB2Message :=
  request 8 sessionID treeID (putUint16 49 ++ [0, 0] ++ putUint32 length ++ putUint64 0 ++
    putFileID id ++ zeros 16)

def writeRequest (sessionID : UInt64) (treeID : UInt32) (id : FileID) (offset : UInt64)
    (data : Bytes) : SMB2Message :=
  request 9 sessionID treeID (putUint16 49 ++ putUint16 112 ++
    putUint32 (UInt32.ofNat data.length) ++ putUint64 offset ++ putFileID id ++ zeros 16 ++ data)

def renameRequest (sessionID : UInt64) (treeID : UInt32) (id : FileID) (name : Str) :
    SMB2Message :=
  let name := encodeStringToUTF16LE name
  request 0x11 sessionID treeID (putUint16 33 ++ [1, 10] ++
    putUint32 (UInt32.ofNat (20 + name.length)) ++ putUint16 96 ++ zeros 6 ++ putFileID id ++
    zeros 16 ++ putUint32 (UInt32.ofNat name.length) ++ name)

/-- FileEndOfFileInformation. -/
def endOfFileRequest (sessionID : UInt64) (treeID : UInt32) (id : FileID) (size : UInt64) :
    SMB2Message :=
  request 0x11 sessionID treeID (putUint16 33 ++ [1, 20] ++ putUint32 8 ++ putUint16 96 ++ zeros 6 ++
    putFileID id ++ putUint64 size)

/-! ## Servers -/

/-- Functions that keep what they are given apart, in place of the hashes. -/
def samplePlatform : Platform where
  hmacMD5 := fun k m => k ++ m
  md4 := id
  rc4 := fun k m => k ++ m
  hmacSHA256 := fun k m => k ++ m
  sha512 := id
  toUpper := Char.toUpper
  foldEq := fun a b => a.toLower = b.toLower
  globMatch := fun p n => p = n

/-- A server that lets guests in. -/
def sampleOptions : ServerOptions where
  minDialect := 0
  maxDialect := 0
  signingRequired := false
  idleTimeout := 0
  serverGUID := zeros 16
  serverName := ['S']
  users := ∅
  allowGuest := true
  maxReadSize := 0
  maxWriteSize := 0

def sampleShare (name : Str) (readOnly : Bool) : ShareOptions where
  shareName := name
  sharePath := ['/']
  shareType := 1
  readOnly := readOnly
  allowGuest := true
  allowedUsers := []

def sampleOracle : Oracle := ⟨0, some 7, some 1, zeros 8⟩

/-- A disk with empty files of these names in its root. -/
def diskWith (names : List Str) : InodeDisk :=
  names.foldl (fun d name => d.setTree ((d.tree.add (.file []) [name]).getD d.tree)) .empty

/-- A disk with one file, `f`. -/
def sampleDisk : InodeDisk := diskWith [['f']]

def sampleSystem : System inodeFs := .initial sampleOptions (zeros 16) fun _ => sampleDisk

/-- A server over an empty disk. -/
def inodeSystem : System inodeFs := .initial sampleOptions (zeros 16) fun _ => .empty

/-- A server that asks for signatures and for the password of its user `U`. -/
def userSystem : System inodeFs :=
  .initial { sampleOptions with
      signingRequired := true, allowGuest := false,
      users := (∅ : GoMap Str Str).insert ['U'] ['p'] } (zeros 16) fun _ => sampleDisk

/-- A message of connection 0. -/
def sent (msg : SMB2Message) : Event := .message 0 msg sampleOracle

/-- The user `u` opens session 7 with SMB 3.0. -/
def userLogin : List Event :=
  [.connect 0 [], sent (negotiateRequest [smb3_0]),
    sent (sessionSetupRequest 0 (authenticateMessage ['u']))]

/-- A guest opens session 7 and connects its tree 1 to the share `R`. -/
def sampleLogin (readOnly : Bool) : List Event :=
  [.addShare (some 0) (sampleShare ['R'] readOnly), sent (sessionSetupRequest 0 []),
    sent (treeConnectRequest 7 ['R'])]

/-- The server after this. -/
def guestSystem (readOnly : Bool) : System inodeFs :=
  System.run samplePlatform sampleSystem (sampleLogin readOnly)

end Smbfs
