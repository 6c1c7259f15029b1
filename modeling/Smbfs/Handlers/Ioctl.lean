import Smbfs.Handlers.Common

/-!
IOCTL, `smb2_ioctl.go`. The input is taken from the request, but no control
code does anything with it.
-/

namespace Smbfs

variable {B : Backend}

/-- The control codes that the handler tells apart. -/
inductive IoctlCode where
  | validateNegotiateInfo
  | queryNetworkInterfaceInfo
  | dfsGetReferrals
  | pipeTransceive
  | srvRequestResumeKey

def IoctlCode.ofCode (c : UInt32) : Option IoctlCode :=
  if c = 0x00140204 then some validateNegotiateInfo
  else if c = 0x001401FC then some queryNetworkInterfaceInfo
  else if c = 0x00060194 ∨ c = 0x000601B0 then some dfsGetReferrals
  else if c = 0x0011C017 then some pipeTransceive
  else if c = 0x00140078 then some srvRequestResumeKey
  else none

structure IOCTLRequest where
  ctlCode : UInt32
  inputOffset : UInt32
  inputCount : UInt32
  maxOutputResp : UInt32

namespace IOCTLRequest

def read : Reader IOCTLRequest := do
  let _ ← Reader.readUint16 -- StructureSize
  let _ ← Reader.readUint16 -- Reserved
  let ctlCode ← Reader.readUint32
  let _ ← Reader.readUint64 -- FileId.Persistent
  let _ ← Reader.readUint64 -- FileId.Volatile
  let inputOffset ← Reader.readUint32
  let inputCount ← Reader.readUint32
  let _ ← Reader.readUint32 -- MaxInputResponse
  let _ ← Reader.readUint32 -- OutputOffset
  let _ ← Reader.readUint32 -- OutputCount
  let maxOutputResp ← Reader.readUint32
  let _ ← Reader.readUint32 -- Flags
  return ⟨ctlCode, inputOffset, inputCount, maxOutputResp⟩

def ofPayload (payload : Bytes) : IOCTLRequest := read.parse payload

end IOCTLRequest

/-- The input of an IOCTL request; one outside the payload is ignored. -/
def ioctlInput (payload : Bytes) : Option Bytes :=
  let req := IOCTLRequest.ofPayload payload
  if req.inputCount > 0 ∧ req.inputOffset > 0 then
    messageBuffer payload req.inputOffset.toNat req.inputCount.toNat
  else none

def handleValidateNegotiateInfo (_input : Option Bytes) (_maxOutput : UInt32) : M B Reply :=
  M.fail .notSupported

def handlePipeTransceive (_input : Option Bytes) (_maxOutput : UInt32) : M B Reply :=
  M.fail .notSupported

def handleIOCTL (msg : SMB2Message) : M B Reply := do
  let _ ← validateSession msg.header
  checkRequest msg.payload 56 57
  let req := IOCTLRequest.ofPayload msg.payload
  let inputBuffer := ioctlInput msg.payload
  match IoctlCode.ofCode req.ctlCode with
  | some .validateNegotiateInfo => handleValidateNegotiateInfo inputBuffer req.maxOutputResp
  | some .pipeTransceive => handlePipeTransceive inputBuffer req.maxOutputResp
  | some .queryNetworkInterfaceInfo | some .dfsGetReferrals | some .srvRequestResumeKey | none =>
    M.fail .notSupported

/-- Every control code ends in STATUS_NOT_SUPPORTED. -/
theorem handleIOCTL_eq (msg : SMB2Message) :
    handleIOCTL (B := B) msg = (do
      let _ ← validateSession msg.header
      checkRequest msg.payload 56 57
      M.fail .notSupported) := by
  unfold handleIOCTL
  dsimp only
  cases IoctlCode.ofCode (IOCTLRequest.ofPayload msg.payload).ctlCode with
  | none => rfl
  | some code => cases code <;> rfl

end Smbfs
