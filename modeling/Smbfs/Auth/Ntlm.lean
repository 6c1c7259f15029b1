import Smbfs.Lib.GoMap
import Smbfs.Lib.Slice
import Smbfs.Wire.Encoding

/-!
The NTLM authenticator of `auth_ntlm.go`. The hash functions, RC4 and the
Unicode case tables are parameters. A security blob is a slice of the
request, with the rest of the request as spare capacity: an access beyond it
panics, and the result is then `none`.
-/

namespace Smbfs

open Smbfs.Lib

/-- Functions of the standard library that stay uninterpreted: the hashes, RC4
under a key, `unicode.ToUpper`, simple case folding of two runes, and
`filepath.Match` of a pattern and a name, false where it returns an error. -/
structure Platform where
  hmacMD5 : Bytes → Bytes → Bytes
  md4 : Bytes → Bytes
  rc4 : Bytes → Bytes → Bytes
  hmacSHA256 : Bytes → Bytes → Bytes
  sha512 : Bytes → Bytes
  toUpper : Char → Char
  foldEq : Char → Char → Bool
  globMatch : Str → Str → Bool

namespace Platform

/-- `strings.ToUpper`. -/
def upper (P : Platform) (s : Str) : Str := s.map P.toUpper

/-- `strings.EqualFold`. -/
def equalFold (P : Platform) : Str → Str → Bool
  | [], [] => true
  | a :: s, b :: t => P.foldEq a b && P.equalFold s t
  | _, _ => false

end Platform

/-- `[]byte(s)`. -/
def utf8 (s : Str) : Bytes := s.flatMap String.utf8EncodeChar

structure AuthResult where
  success : Bool
  isGuest : Bool
  username : Str
  domain : Str
  sessionKey : Option Bytes
  responseBlob : Option Bytes

def AuthResult.failed : AuthResult := ⟨false, false, [], [], none, none⟩

def AuthResult.guest (username domain : Str) : AuthResult := ⟨true, true, username, domain, none, none⟩

structure NTLMAuthenticator where
  serverChallenge : Bytes
  targetName : Str
  users : GoMap Str Str
  allowGuest : Bool
  state : Nat
  clientFlags : UInt32

def newNTLMAuthenticator (P : Platform) (targetName : Str) (users : GoMap Str Str)
    (allowGuest : Bool) : NTLMAuthenticator where
  serverChallenge := []
  targetName := targetName
  users := users.pairs.foldl (fun m e => m.insert (P.upper e.1) e.2) ∅
  allowGuest := allowGuest
  state := 0
  clientFlags := 0

def ntlmFlagNegotiateUnicode : UInt32 := 0x00000001
def ntlmFlagNegotiateOEM : UInt32 := 0x00000002
def ntlmFlagRequestTarget : UInt32 := 0x00000004
def ntlmFlagNegotiateSign : UInt32 := 0x00000010
def ntlmFlagNegotiateSeal : UInt32 := 0x00000020
def ntlmFlagNegotiateLMKey : UInt32 := 0x00000080
def ntlmFlagNegotiateNTLM : UInt32 := 0x00000200
def ntlmFlagNegotiateAlwaysSign : UInt32 := 0x00008000
def ntlmFlagNegotiateTargetTypeServer : UInt32 := 0x00020000
def ntlmFlagNegotiateExtendedSessionSec : UInt32 := 0x00080000
def ntlmFlagNegotiateTargetInfo : UInt32 := 0x00800000
def ntlmFlagNegotiateVersion : UInt32 := 0x02000000
def ntlmFlagNegotiate128 : UInt32 := 0x20000000
def ntlmFlagNegotiateKeyExch : UInt32 := 0x40000000
def ntlmFlagNegotiate56 : UInt32 := 0x80000000

/-- `"NTLMSSP\x00"`. -/
def ntlmSignature : Bytes := [0x4E, 0x54, 0x4C, 0x4D, 0x53, 0x53, 0x50, 0x00]

def guestName : Str := ['G', 'u', 'e', 's', 't']

/-! ## Fields of a message -/

def uint16At (blob : Window UInt8) (i : Nat) : Option UInt16 :=
  (blob.sub i (i + 2)).map fun w => getUint16 w.live

def uint32At (blob : Window UInt8) (i : Nat) : Option UInt32 :=
  (blob.sub i (i + 4)).map fun w => getUint32 w.live

/-- The field of a Type 3 message with its length at `lenAt` and its offset at
`offAt`, in a message of at least `minLen` bytes. The end of the field is
computed in 32 bits. The inner `none` is nil, the outer one a panic. -/
def extractField (blob : Window UInt8) (minLen lenAt offAt : Nat) : Option (Option Bytes) :=
  if blob.len < minLen then some none
  else do
    let len ← uint16At blob lenAt
    let off ← uint32At blob offAt
    if len = 0 ∨ off.toNat + len.toNat > blob.len then some none
    else
      let w ← blob.sub off.toNat (off + len.toUInt32).toNat
      some (some w.live)

def extractUsername (blob : Window UInt8) : Option Str :=
  (extractField blob 44 36 40).map fun b => decodeUTF16LEToString (b.getD [])

def extractDomain (blob : Window UInt8) : Option Str :=
  (extractField blob 32 28 32).map fun b => decodeUTF16LEToString (b.getD [])

def extractNTResponse (blob : Window UInt8) : Option Bytes :=
  (extractField blob 24 20 24).map fun b => b.getD []

def extractEncryptedSessionKey (blob : Window UInt8) : Option Bytes :=
  (extractField blob 60 52 56).map fun b => b.getD []

/-- `extractNTLMFromSPNEGO`: the message from the first signature on. -/
def extractNTLMFromSPNEGO (blob : Window UInt8) : Option (Window UInt8) :=
  if blob.len < 10 then none
  else
    ((List.range (blob.len - 8)).find? fun i => slice blob.live i 8 = ntlmSignature).map
      blob.dropFront

/-! ## The challenge -/

def asn1Wrap (tag : UInt8) (data : Bytes) : Bytes :=
  if data.length < 128 then tag :: UInt8.ofNat data.length :: data
  else if data.length < 256 then tag :: 0x81 :: UInt8.ofNat data.length :: data
  else
    tag :: 0x82 :: UInt8.ofNat (data.length / 256) :: UInt8.ofNat data.length :: data

def wrapInSPNEGO (ntlmMsg : Bytes) : Bytes :=
  let ntlmOID := [0x2b, 0x06, 0x01, 0x04, 0x01, 0x82, 0x37, 0x02, 0x02, 0x0a]
  let negState := asn1Wrap 0xa0 [0x0a, 0x01, 0x01]
  let supportedMech := asn1Wrap 0xa1 (asn1Wrap 0x06 ntlmOID)
  let responseToken := asn1Wrap 0xa2 (asn1Wrap 0x04 ntlmMsg)
  asn1Wrap 0xa1 (asn1Wrap 0x30 (negState ++ supportedMech ++ responseToken))

namespace NTLMAuthenticator

/-- The client's flags that `buildResponseFlags` echoes without a condition. -/
def echoedFlags : List UInt32 :=
  [ntlmFlagNegotiateUnicode, ntlmFlagNegotiateOEM, ntlmFlagRequestTarget,
    ntlmFlagNegotiateTargetTypeServer, ntlmFlagNegotiateTargetInfo,
    ntlmFlagNegotiateExtendedSessionSec, ntlmFlagNegotiateSign, ntlmFlagNegotiateAlwaysSign,
    ntlmFlagNegotiateSeal, ntlmFlagNegotiateKeyExch, ntlmFlagNegotiate128, ntlmFlagNegotiate56,
    ntlmFlagNegotiateVersion]

def buildResponseFlags (a : NTLMAuthenticator) : UInt32 :=
  let flags := echoedFlags.foldl
    (fun flags f => if hasBits a.clientFlags f then flags ||| f else flags) ntlmFlagNegotiateNTLM
  if hasBits a.clientFlags ntlmFlagNegotiateLMKey &&
      !hasBits flags ntlmFlagNegotiateExtendedSessionSec then
    flags ||| ntlmFlagNegotiateLMKey
  else flags

/-- `writeAVPair`. -/
def avPair (avID : UInt16) (value : Bytes) : Bytes :=
  putUint16 avID ++ putUint16 (UInt16.ofNat value.length) ++ value

/-- `buildTargetInfo`: domain name, computer name, timestamp, end of list. -/
def buildTargetInfo (a : NTLMAuthenticator) (now : GoTime) : Bytes :=
  let domainUTF16 := encodeStringToUTF16LE a.targetName
  avPair 0x0002 domainUTF16 ++ avPair 0x0001 domainUTF16 ++
    avPair 0x0007 (putUint64 (timeToFiletime now)) ++ avPair 0x0000 []

def buildChallengeMessage (a : NTLMAuthenticator) (now : GoTime) : Bytes :=
  let targetNameUTF16 := encodeStringToUTF16LE a.targetName
  let targetNameLen := targetNameUTF16.length
  let includeTargetInfo := hasBits a.clientFlags ntlmFlagNegotiateTargetInfo ||
    hasBits a.clientFlags ntlmFlagNegotiateExtendedSessionSec
  let targetInfo := if includeTargetInfo then a.buildTargetInfo now else []
  let flags := if includeTargetInfo then a.buildResponseFlags ||| ntlmFlagNegotiateTargetInfo
    else a.buildResponseFlags
  ntlmSignature ++ putUint32 2 ++
    putUint16 (UInt16.ofNat targetNameLen) ++ putUint16 (UInt16.ofNat targetNameLen) ++
    putUint32 56 ++ putUint32 flags ++
    slice (a.serverChallenge ++ zeros 8) 0 8 ++ zeros 8 ++
    (if targetInfo.length > 0 then
      putUint16 (UInt16.ofNat targetInfo.length) ++ putUint16 (UInt16.ofNat targetInfo.length) ++
        putUint32 (UInt32.ofNat (56 + targetNameLen))
    else zeros 8) ++
    [6, 1] ++ putUint16 7601 ++ [0, 0, 0, 15] ++ targetNameUTF16 ++ targetInfo

/-- `handleNegotiate`; `challenge` is what the random source gives. -/
def handleNegotiate (a : NTLMAuthenticator) (now : GoTime) (challenge : Bytes)
    (blob : Window UInt8) : AuthResult × NTLMAuthenticator :=
  let a := if blob.len ≥ 16 then { a with clientFlags := getUint32 (blob.live.drop 12) } else a
  let a := { a with serverChallenge := challenge, state := 1 }
  (⟨false, false, [], [], none, some (wrapInSPNEGO (a.buildChallengeMessage now))⟩, a)

/-! ## Verification -/

def ntHash (P : Platform) (password : Str) : Bytes := P.md4 (encodeStringToUTF16LE password)

def ntv2Hash (P : Platform) (username password domain : Str) : Bytes :=
  P.hmacMD5 (ntHash P password) (encodeStringToUTF16LE (P.upper username ++ P.upper domain))

/-- `rc4Decrypt`: `rc4.NewCipher` takes keys of 1 to 256 bytes. -/
def rc4Decrypt (P : Platform) (key data : Bytes) : Option Bytes :=
  if key.length < 1 ∨ key.length > 256 then none else some (P.rc4 key data)

def computeSessionKeyForUser (P : Platform) (a : NTLMAuthenticator)
    (username password domain : Str) : Bytes :=
  P.hmacMD5 (ntv2Hash P username password domain) (a.serverChallenge ++ utf8 username)

def verifyAndComputeSessionKey (P : Platform) (a : NTLMAuthenticator)
    (username password domain : Str) (ntResponse encryptedSessionKey : Bytes) : Option Bytes :=
  if ntResponse.length < 24 then some (a.computeSessionKeyForUser P username password domain)
  else
    let ntProofStr := ntResponse.take 16
    let clientBlob := ntResponse.drop 16
    let responseKeyNT := ntv2Hash P username password domain
    if ntProofStr ≠ P.hmacMD5 responseKeyNT (a.serverChallenge ++ clientBlob) then
      some (a.computeSessionKeyForUser P username password domain)
    else
      let sessionBaseKey := P.hmacMD5 responseKeyNT ntProofStr
      if hasBits a.clientFlags ntlmFlagNegotiateKeyExch && encryptedSessionKey.length == 16 then
        rc4Decrypt P sessionBaseKey encryptedSessionKey
      else some sessionBaseKey

def isGuestAttempt (P : Platform) (username : Str) : Bool :=
  username.isEmpty || P.equalFold username ['g', 'u', 'e', 's', 't'] ||
    P.equalFold username ['a', 'n', 'o', 'n', 'y', 'm', 'o', 'u', 's']

/-- `handleAuthenticate` on the extracted credentials. -/
def checkCredentials (P : Platform) (a : NTLMAuthenticator) (username domain : Str)
    (ntResponse encryptedSessionKey : Bytes) : AuthResult × NTLMAuthenticator :=
  if isGuestAttempt P username then
    if a.allowGuest then (.guest guestName domain, a) else (.failed, a)
  else
    match a.users.lookup (P.upper username) with
    | none => if a.allowGuest then (.guest username domain, a) else (.failed, a)
    | some password =>
      match a.verifyAndComputeSessionKey P username password domain ntResponse
          encryptedSessionKey with
      | none => (.failed, a)
      | some sessionKey =>
        (⟨true, false, username, domain, some sessionKey, none⟩, { a with state := 2 })

def handleAuthenticate (P : Platform) (a : NTLMAuthenticator) (blob : Window UInt8) :
    Option (AuthResult × NTLMAuthenticator) := do
  let username ← extractUsername blob
  let domain ← extractDomain blob
  let ntResponse ← extractNTResponse blob
  let encryptedSessionKey ← extractEncryptedSessionKey blob
  return a.checkCredentials P username domain ntResponse encryptedSessionKey

/-- The message `Authenticate` looks at. -/
def ntlmBlob (securityBlob : Window UInt8) : Window UInt8 :=
  (extractNTLMFromSPNEGO securityBlob).getD securityBlob

/-- The type of an NTLM message, if it is one. -/
def messageType (blob : Window UInt8) : Option UInt32 :=
  if blob.len < 12 ∨ blob.live.take 8 ≠ ntlmSignature then none
  else some (getUint32 (blob.live.drop 8))

def authenticate (P : Platform) (a : NTLMAuthenticator) (now : GoTime) (challenge : Bytes)
    (securityBlob : Window UInt8) : Option (AuthResult × NTLMAuthenticator) :=
  let blob := ntlmBlob securityBlob
  match messageType blob with
  | none => some (if a.allowGuest then .guest guestName [] else .failed, a)
  | some msgType =>
    if msgType = 1 then some (a.handleNegotiate now challenge blob)
    else if msgType = 3 then a.handleAuthenticate P blob
    else some (.failed, a)

end NTLMAuthenticator

end Smbfs
