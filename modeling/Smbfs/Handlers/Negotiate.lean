import Smbfs.Handlers.Common
import Smbfs.Server.Signing

/-! NEGOTIATE, `smb2_negotiate.go`. -/

namespace Smbfs

open Smbfs.Lib

variable {B : Backend}

structure NegotiateRequest where
  dialectCount : UInt16
  clientSecurityMode : UInt16
  /-- `none` when the payload is too short for the dialects. -/
  clientDialects : Option (List SMBDialect)

namespace NegotiateRequest

def readDialects : Nat → Reader (List SMBDialect)
  | 0 => pure []
  | n + 1 => do
    let dialect ← Reader.readUint16
    let dialects ← readDialects n
    return dialect :: dialects

def read : Reader NegotiateRequest := do
  let _ ← Reader.readUint16 -- StructureSize
  let dialectCount ← Reader.readUint16
  let clientSecurityMode ← Reader.readUint16
  let _ ← Reader.readUint16 -- Reserved
  let _ ← Reader.readUint32 -- Capabilities
  let _ ← Reader.readGUID -- ClientGUID
  let _ ← Reader.readUint32 -- NegotiateContextOffset
  let _ ← Reader.readUint16 -- NegotiateContextCount
  let _ ← Reader.readUint16 -- Reserved2
  let remaining ← Reader.remaining
  if remaining < dialectCount.toNat * 2 then return ⟨dialectCount, clientSecurityMode, none⟩
  else
    let dialects ← readDialects dialectCount.toNat
    return ⟨dialectCount, clientSecurityMode, some dialects⟩

def ofPayload (payload : Bytes) : NegotiateRequest := read.parse payload

end NegotiateRequest

/-- `selectDialect`; zero when there is no common dialect. -/
def selectDialect (opts : ServerOptions) (clientDialects : List SMBDialect) : SMBDialect :=
  (supportedDialects.find? fun d =>
    !(d > opts.maxDialect) && !(d < opts.minDialect) && clientDialects.contains d).getD 0

/-! ## The response -/

def smb2GlobalCapDFS : UInt32 := 0x00000001
def smb2GlobalCapLargeMTU : UInt32 := 0x00000004
def smb2GlobalCapMultiChannel : UInt32 := 0x00000008
def smb2GlobalCapPersistentHandles : UInt32 := 0x00000010
def smb2GlobalCapDirectoryLeasing : UInt32 := 0x00000020
def smb2GlobalCapEncryption : UInt32 := 0x00000040

/-- A negotiate context without its padding. -/
def negotiateContext (contextType : UInt16) (data : Bytes) : Bytes :=
  putUint16 contextType ++ putUint16 (UInt16.ofNat data.length) ++ putUint32 0 ++ data

/-- `buildPreauthIntegrityContext`: SHA-512, with the fixed salt 0, 1, .., 31. -/
def buildPreauthIntegrityContext : Bytes :=
  putUint16 1 ++ putUint16 32 ++ putUint16 1 ++ (List.range 32).map UInt8.ofNat

/-- `buildEncryptionContext`: AES-128-GCM. -/
def buildEncryptionContext : Bytes := putUint16 1 ++ putUint16 2

/-- `buildSigningCapabilitiesContext`: AES-CMAC. -/
def buildSigningCapabilitiesContext : Bytes := putUint16 1 ++ putUint16 1

def buildNegotiateContexts : Bytes :=
  negotiateContext 0x0001 buildPreauthIntegrityContext ++
    zeros (padTo8ByteBoundary buildPreauthIntegrityContext.length) ++
    negotiateContext 0x0002 buildEncryptionContext ++
    zeros (padTo8ByteBoundary buildEncryptionContext.length) ++
    negotiateContext 0x0008 buildSigningCapabilitiesContext

def negotiateCapabilities (dialect : SMBDialect) : UInt32 :=
  let capabilities := smb2GlobalCapLargeMTU ||| smb2GlobalCapDFS
  let capabilities := if dialect ≥ smb3_0 then
    capabilities ||| smb2GlobalCapEncryption ||| smb2GlobalCapMultiChannel |||
      smb2GlobalCapPersistentHandles else capabilities
  if dialect ≥ smb3_0_2 then capabilities ||| smb2GlobalCapDirectoryLeasing else capabilities

def buildNegotiateResponse (opts : ServerOptions) (now : GoTime) (dialect : SMBDialect) : Bytes :=
  let securityMode : UInt16 := if opts.signingRequired then 0x0001 ||| 0x0002 else 0x0001
  let time := putUint64 (timeToFiletime now)
  let contexts := dialect ≥ smb3_1_1
  putUint16 65 ++ putUint16 securityMode ++ putUint16 dialect ++
    putUint16 (if contexts then 3 else 0) ++ opts.serverGUID ++
    putUint32 (negotiateCapabilities dialect) ++ putUint32 maxTransactSize ++
    putUint32 opts.maxReadSize ++ putUint32 opts.maxWriteSize ++ time ++ time ++
    putUint16 (UInt16.ofNat (smb2HeaderSize + 64)) ++ putUint16 0 ++
    putUint32 (if contexts then UInt32.ofNat (smb2HeaderSize + 64) else 0) ++
    (if contexts then buildNegotiateContexts else [])

/-- `handleSMB1Negotiate`: the request an SMB1 NEGOTIATE is turned into. -/
def handleSMB1Negotiate : SMB2Message where
  header :=
    { protocolID := smb2ProtocolID, structureSize := UInt16.ofNat smb2HeaderSize, creditCharge := 0,
      status := 0, command := 0, creditRequest := 0, flags := 0, nextCommand := 0, messageID := 0,
      reserved := 0, treeID := 0, sessionID := 0, signature := zeros 16 }
  payload := []
  rawBytes := []

/-- `handleNegotiateImpl`. The empty payload comes from an SMB1 client. The
client's negotiate contexts are only logged. -/
def handleNegotiate (k : ConnId) (msg : SMB2Message) (o : Oracle) : M B Reply := do
  let s ← M.get
  let opts := s.options
  if msg.payload.isEmpty then return .ok (buildNegotiateResponse opts o.now opts.maxDialect)
  else
    checkRequest msg.payload 36 36
    let req := NegotiateRequest.ofPayload msg.payload
    let clientDialects ← M.require req.clientDialects .invalidParameter
    let selectedDialect := selectDialect opts clientDialects
    M.failIf (selectedDialect = 0) .notSupported
    M.failIf (selectedDialect < opts.minDialect) .notSupported
    let clientSigningRequired := req.clientSecurityMode &&& 0x02 ≠ 0
    M.modify fun s => s.setConn k { s.conns k with
      session := none
      dialect := selectedDialect
      signingRequired := clientSigningRequired || opts.signingRequired }
    return .ok (buildNegotiateResponse opts o.now selectedDialect)

end Smbfs
