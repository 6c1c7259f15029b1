import Smbfs.Auth.Ntlm

/-!
Key derivation, the preauthentication hash and message signatures,
`smb2_signing.go`, and the header codec of `smb2_types.go`.
-/

namespace Smbfs

/-- `binary.BigEndian.PutUint32`. -/
def putUint32BE (v : UInt32) : Bytes := (putUint32 v).reverse

/-- The loop of `kdfSP800108`: blocks are appended until there are `length`
bytes. Every block has at least one byte, so `length` rounds suffice. -/
def kdfBlocks (P : Platform) (ki label context : Bytes) (length : Nat) :
    Nat → UInt32 → Bytes → Bytes
  | 0, _, result => result
  | rounds + 1, counter, result =>
    if result.length < length then
      let block := P.hmacSHA256 ki (putUint32BE counter ++ label ++ [0] ++ context ++
        putUint32BE (UInt32.ofNat (length * 8)))
      kdfBlocks P ki label context length rounds (counter + 1) (result ++ block)
    else result

def kdfSP800108 (P : Platform) (ki label context : Bytes) (lengthBytes : Nat) : Bytes :=
  (kdfBlocks P ki label context lengthBytes lengthBytes 1 []).take lengthBytes

def smbSigningKeyLabel : Bytes :=
  utf8 ['S', 'M', 'B', 'S', 'i', 'g', 'n', 'i', 'n', 'g', 'K', 'e', 'y'] ++ [0]

def smb2AesCmacLabel : Bytes :=
  utf8 ['S', 'M', 'B', '2', 'A', 'E', 'S', 'C', 'M', 'A', 'C'] ++ [0]

def smbSignContext : Bytes := utf8 ['S', 'm', 'b', 'S', 'i', 'g', 'n'] ++ [0]

def deriveSigningKey (P : Platform) (sessionKey : Bytes) (dialect : SMBDialect)
    (preauthHash : Bytes) : Bytes :=
  if dialect < smb3_0 then sessionKey
  else if dialect ≥ smb3_1_1 ∧ preauthHash ≠ [] then
    kdfSP800108 P sessionKey smbSigningKeyLabel preauthHash 16
  else kdfSP800108 P sessionKey smb2AesCmacLabel smbSignContext 16

section Length

variable {P : Platform} (hP : ∀ key m, P.hmacSHA256 key m ≠ [])

include hP

theorem kdfBlocks_ne_nil (ki label context : Bytes) (length rounds : Nat) (counter : UInt32)
    (result : Bytes) (h : result ≠ [] ∨ (0 < rounds ∧ 0 < length)) :
    kdfBlocks P ki label context length rounds counter result ≠ [] := by
  induction rounds generalizing counter result with
  | zero =>
    rcases h with h | ⟨h, -⟩
    · exact h
    · exact absurd h (Nat.lt_irrefl 0)
  | succ rounds ih =>
    rw [kdfBlocks]
    split
    · refine ih _ _ (.inl fun h => ?_)
      exact hP _ _ (List.append_eq_nil_iff.mp h).2
    · next hlt =>
      rcases h with h | ⟨-, hlen⟩
      · exact h
      · rintro rfl
        exact hlt hlen

theorem kdfSP800108_ne_nil (ki label context : Bytes) {n : Nat} (hn : 0 < n) :
    kdfSP800108 P ki label context n ≠ [] := by
  have hblocks := kdfBlocks_ne_nil hP ki label context n n 1 [] (.inr ⟨hn, hn⟩)
  simp [kdfSP800108, List.take_eq_nil_iff, hblocks, Nat.ne_of_gt hn]

/-- A session key gives a signing key. -/
theorem deriveSigningKey_ne_nil {sessionKey : Bytes} (h : sessionKey ≠ []) (dialect : SMBDialect)
    (preauthHash : Bytes) : deriveSigningKey P sessionKey dialect preauthHash ≠ [] := by
  unfold deriveSigningKey
  split
  · exact h
  · split <;> exact kdfSP800108_ne_nil hP _ _ _ (by decide)

end Length

def updatePreauthHash (P : Platform) (currentHash message : Bytes) : Bytes :=
  P.sha512 ((if currentHash = [] then zeros 64 else currentHash) ++ message)

/-! ## Signatures -/

def signatureOffset : Nat := 48
def signatureLength : Nat := 16

/-- The block function of AES under a key of 16 bytes. -/
abbrev BlockCipher := Bytes → Bytes → Bytes

/-- `copy` of a slice into a new one of length `n`. -/
def copied (n : Nat) (src : Bytes) : Bytes := (src ++ zeros n).take n

def xorBytes (dst src : Bytes) : Bytes := List.zipWith (· ^^^ ·) dst src ++ dst.drop src.length

/-- `shiftLeft`; the loop runs from the last byte to the first. -/
def shiftLeft (src : Bytes) : Bytes :=
  (src.foldr (fun b (dst, overflow) => ((b <<< 1 ||| overflow) :: dst, b >>> 7))
    (([], 0) : Bytes × UInt8)).1

/-- The shift of `generateCMACSubkeys`, with the reduction by `rb`. -/
def cmacDouble (l : Bytes) : Bytes :=
  if l.headD 0 &&& 0x80 ≠ 0 then (shiftLeft l).modify 15 (· ^^^ 0x87) else shiftLeft l

def generateCMACSubkeys (aes : BlockCipher) (key : Bytes) : Bytes × Bytes :=
  let l := aes key (zeros 16)
  let k1 := cmacDouble l
  (k1, cmacDouble k1)

def computeAESCMAC (aes : BlockCipher) (message key : Bytes) : Bytes :=
  let signingKey := copied 16 key
  let (k1, k2) := generateCMACSubkeys aes signingKey
  let n := if (message.length + 15) / 16 = 0 then 1 else (message.length + 15) / 16
  let last := copied 16 (message.drop ((n - 1) * 16))
  let lastBlock :=
    if 0 < message.length ∧ message.length % 16 = 0 then xorBytes last k1
    else xorBytes (last.set (message.length % 16) 0x80) k2
  let x := (List.range (n - 1)).foldl
    (fun x i => aes signingKey (xorBytes x (slice message (i * 16) 16))) (zeros 16)
  aes signingKey (xorBytes x lastBlock)

def computeHMACSHA256 (P : Platform) (message key : Bytes) : Bytes :=
  (P.hmacSHA256 (copied 16 key) message).take 16

/-- `SignMessage`; `none` is the nil signature. -/
def signMessage (P : Platform) (aes : BlockCipher) (message signingKey : Bytes)
    (dialect : SMBDialect) : Option Bytes :=
  if signingKey = [] ∨ message.length < smb2HeaderSize then none
  else
    let msgCopy := message.take signatureOffset ++ zeros signatureLength ++
      message.drop (signatureOffset + signatureLength)
    some (if dialect ≥ smb3_0 then computeAESCMAC aes msgCopy signingKey
      else computeHMACSHA256 P msgCopy signingKey)

def verifySignature (P : Platform) (aes : BlockCipher) (message signingKey : Bytes)
    (dialect : SMBDialect) : Bool :=
  if signingKey = [] ∨ message.length < smb2HeaderSize then false
  else
    match signMessage P aes message signingKey dialect with
    | none => false
    | some expectedSig => slice message signatureOffset signatureLength = expectedSig

def applySignature (message signature : Bytes) : Bytes :=
  if smb2HeaderSize ≤ message.length ∧ signatureLength ≤ signature.length then
    message.take signatureOffset ++ signature.take signatureLength ++
      message.drop (signatureOffset + signatureLength)
  else message

/-! ## Header codec -/

def smb2ProtocolID : Bytes := [0xFE, 0x53, 0x4D, 0x42]

/-- `SMB2Header.Marshal`. -/
def SMB2Header.marshal (h : SMB2Header) : Bytes :=
  smb2ProtocolID ++ putUint16 h.structureSize ++ putUint16 h.creditCharge ++ putUint32 h.status ++
    putUint16 h.command ++ putUint16 h.creditRequest ++ putUint32 h.flags ++
    putUint32 h.nextCommand ++ putUint64 h.messageID ++ putUint32 h.reserved ++
    putUint32 h.treeID ++ putUint64 h.sessionID ++ slice (h.signature ++ zeros 16) 0 16

/-- The bytes `writeMessage` sends, before a signature is applied. -/
def SMB2Response.marshal (r : SMB2Response) : Bytes := r.header.marshal ++ r.payload

end Smbfs
