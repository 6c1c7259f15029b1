import Smbfs.Handlers.Negotiate
import Smbfs.Lib.Stream

/-!
How messages stand in the byte stream of a connection: `readMessage` and
`writeMessage` of `server.go`, and the header codec of `smb2_types.go`.

* `unmarshal_marshal`: the header codec, in front of any payload;
* `header_codec`: the two directions of the codec, and what it rejects;
* `frameLength_netbiosHeader`: the length prefix counts modulo 2^24;
* `readMessage_frame`: a message of at most MaxTransactSize bytes is read
  back, whatever follows it;
* `readMessage_too_long`: a longer one is refused.
-/

namespace Smbfs

open Smbfs.Lib

/-! ## The header -/

/-- `UnmarshalSMB2Header`; the failure is `ErrInvalidMessage`. -/
def unmarshalSMB2Header (data : Bytes) : Option SMB2Header :=
  if data.length < smb2HeaderSize then none
  else some
    { protocolID := data.take 4
      structureSize := getUint16 (data.drop 4)
      creditCharge := getUint16 (data.drop 6)
      status := getUint32 (data.drop 8)
      command := getUint16 (data.drop 12)
      creditRequest := getUint16 (data.drop 14)
      flags := getUint32 (data.drop 16)
      nextCommand := getUint32 (data.drop 20)
      messageID := getUint64 (data.drop 24)
      reserved := getUint32 (data.drop 32)
      treeID := getUint32 (data.drop 36)
      sessionID := getUint64 (data.drop 40)
      signature := slice data 48 16 }

variable (h : SMB2Header)

theorem marshal_length : h.marshal.length = smb2HeaderSize := by
  simp [SMB2Header.marshal, smb2ProtocolID, putUint16, putUint32, putUint64, slice, zeros,
    smb2HeaderSize]

theorem take_marshal (payload : Bytes) : (h.marshal ++ payload).take 4 = smb2ProtocolID := by
  simp only [SMB2Header.marshal, List.append_assoc]
  exact List.take_left' rfl

/-- The header as it is received. -/
def SMB2Header.received (h : SMB2Header) : SMB2Header := { h with protocolID := smb2ProtocolID }

/-- What follows a field that stands at `n`. -/
theorem drop_next {data field rest : Bytes} {n m : Nat} (h : data.drop n = field ++ rest)
    (hm : n + field.length = m) : data.drop m = rest := by
  subst hm
  rw [← List.drop_drop, h, List.drop_left]

theorem unmarshal_marshal (hsig : h.signature.length = 16) (payload : Bytes) :
    unmarshalSMB2Header (h.marshal ++ payload) = some h.received := by
  have hlen : ¬ (h.marshal ++ payload).length < smb2HeaderSize := by
    rw [List.length_append, marshal_length]
    omega
  have hid := take_marshal h payload
  have h0 : (h.marshal ++ payload).drop 0 =
      smb2ProtocolID ++ (putUint16 h.structureSize ++ (putUint16 h.creditCharge ++
        (putUint32 h.status ++ (putUint16 h.command ++ (putUint16 h.creditRequest ++
        (putUint32 h.flags ++ (putUint32 h.nextCommand ++ (putUint64 h.messageID ++
        (putUint32 h.reserved ++ (putUint32 h.treeID ++ (putUint64 h.sessionID ++
        (slice (h.signature ++ zeros 16) 0 16 ++ payload)))))))))))) := by
    simp only [List.drop_zero, SMB2Header.marshal, List.append_assoc]
  generalize h.marshal ++ payload = data at hlen hid h0 ⊢
  -- the fields stand one behind the other
  have h4 := drop_next (m := 4) h0 rfl
  have h6 := drop_next (m := 6) h4 rfl
  have h8 := drop_next (m := 8) h6 rfl
  have h12 := drop_next (m := 12) h8 rfl
  have h14 := drop_next (m := 14) h12 rfl
  have h16 := drop_next (m := 16) h14 rfl
  have h20 := drop_next (m := 20) h16 rfl
  have h24 := drop_next (m := 24) h20 rfl
  have h32 := drop_next (m := 32) h24 rfl
  have h36 := drop_next (m := 36) h32 rfl
  have h40 := drop_next (m := 40) h36 rfl
  have h48 := drop_next (m := 48) h40 rfl
  have hsignature : slice data 48 16 = h.signature := by
    simp [slice, h48, hsig]
  rw [unmarshalSMB2Header, if_neg hlen]
  simp only [hid, h4, h6, h8, h12, h14, h16, h20, h24, h32, h36, h40, hsignature,
    getUint16_putUint16, getUint32_putUint32, getUint64_putUint64]
  rfl

/-- A header that was unmarshalled is marshalled to the bytes that it was read from. -/
theorem marshal_unmarshal {data : Bytes} (hlen : smb2HeaderSize ≤ data.length)
    (hid : data.take 4 = smb2ProtocolID) :
    ∃ h, unmarshalSMB2Header data = some h ∧ h.signature.length = 16 ∧
      h.marshal = data.take smb2HeaderSize := by
  have hsize : 64 ≤ data.length := hlen
  have hsignature : (slice data 48 16).length = 16 := by
    rw [slice, List.length_take, List.length_drop]
    omega
  have hcopied : slice (slice data 48 16 ++ zeros 16) 0 16 = (data.drop 48).take 16 := by
    rw [slice, List.drop_zero, List.take_left' hsignature, slice]
  rw [unmarshalSMB2Header, if_neg (Nat.not_lt.mpr hlen)]
  refine ⟨_, rfl, hsignature, ?_⟩
  -- every field is a stretch of the data, and each one starts where the last one ended
  have hleft : ∀ n k, n + k ≤ 64 → k ≤ (data.drop n).length := by
    intro n k hnk
    rw [List.length_drop]
    omega
  simp only [SMB2Header.marshal, hcopied, ← hid]
  rw [putUint16_getUint16 (hleft 4 2 (by omega)), putUint16_getUint16 (hleft 6 2 (by omega)),
    putUint32_getUint32 (hleft 8 4 (by omega)), putUint16_getUint16 (hleft 12 2 (by omega)),
    putUint16_getUint16 (hleft 14 2 (by omega)), putUint32_getUint32 (hleft 16 4 (by omega)),
    putUint32_getUint32 (hleft 20 4 (by omega)), putUint64_getUint64 (hleft 24 8 (by omega)),
    putUint32_getUint32 (hleft 32 4 (by omega)), putUint32_getUint32 (hleft 36 4 (by omega)),
    putUint64_getUint64 (hleft 40 8 (by omega))]
  simp only [← List.take_add, smb2HeaderSize, Nat.reduceAdd]

/-- **Header codec.** A header with its sixteen bytes of signature is read back
with the protocol ID replaced, 64 bytes that start with the protocol ID are
written back, and fewer bytes are rejected. -/
theorem header_codec :
    (∀ h : SMB2Header, h.signature.length = 16 →
      unmarshalSMB2Header h.marshal = some { h with protocolID := smb2ProtocolID }) ∧
    (∀ b : Bytes, 64 ≤ b.length → b.take 4 = smb2ProtocolID →
      ∃ h, unmarshalSMB2Header b = some h ∧ h.signature.length = 16 ∧ h.marshal = b.take 64) ∧
    (∀ b : Bytes, b.length < 64 → unmarshalSMB2Header b = none) := by
  refine ⟨?_, fun b => marshal_unmarshal, ?_⟩
  · intro h hsig
    have hread := unmarshal_marshal h hsig []
    rwa [List.append_nil] at hread
  · intro b hshort
    exact if_pos hshort

theorem header_codec_sample :
    ∃ h, unmarshalSMB2Header (smb2ProtocolID ++ List.replicate 70 7) = some h ∧
      h.marshal = smb2ProtocolID ++ List.replicate 60 7 ∧
      unmarshalSMB2Header h.marshal = some { h with protocolID := smb2ProtocolID } := by
  obtain ⟨hread, hwritten, -⟩ := header_codec
  obtain ⟨h, hparse, hsig, hmarshal⟩ :=
    hwritten (smb2ProtocolID ++ List.replicate 70 7) (by decide) (by decide)
  exact ⟨h, hparse, hmarshal, hread h hsig⟩

/-! ## The length prefix -/

/-- The four bytes `writeMessage` puts in front of a message. -/
def netbiosHeader (msgLen : Nat) : Bytes :=
  [0x00, UInt8.ofNat (msgLen >>> 16), UInt8.ofNat (msgLen >>> 8), UInt8.ofNat msgLen]

/-- `int(nbHeader[1])<<16 | int(nbHeader[2])<<8 | int(nbHeader[3])`. -/
def frameLength (nbHeader : Bytes) : Nat :=
  (nbHeader.getD 1 0).toNat <<< 16 ||| (nbHeader.getD 2 0).toNat <<< 8 ||| (nbHeader.getD 3 0).toNat

theorem or_shifted_bytes (a b c : UInt8) :
    a.toNat <<< 16 ||| b.toNat <<< 8 ||| c.toNat = 65536 * a.toNat + 256 * b.toNat + c.toNat := by
  have hb := b.toNat_lt
  have hc := c.toNat_lt
  have hlow : b.toNat <<< 8 < 2 ^ 16 := by
    rw [Nat.shiftLeft_eq]
    omega
  rw [← Nat.shiftLeft_add_eq_or_of_lt hlow]
  have hshift : a.toNat <<< 16 + b.toNat <<< 8 = (256 * a.toNat + b.toNat) <<< 8 := by
    simp only [Nat.shiftLeft_eq]
    omega
  rw [hshift, ← Nat.shiftLeft_add_eq_or_of_lt hc, Nat.shiftLeft_eq]
  omega

/-- Three bytes hold a length below 2^24. -/
def maxFrame : Nat := 16777216

theorem frameLength_netbiosHeader (n : Nat) : frameLength (netbiosHeader n) = n % maxFrame := by
  simp only [frameLength, netbiosHeader, List.getD_cons_succ, List.getD_cons_zero]
  rw [or_shifted_bytes]
  simp only [UInt8.toNat_ofNat', Nat.shiftRight_eq_div_pow, maxFrame]
  omega

/-! ## Messages -/

/-- Why `readMessage` fails: the stream ended, or `ErrInvalidMessage`. -/
inductive ReadError where
  | ended (how : Ended)
  | invalidMessage
  deriving DecidableEq, Repr

/-- `io.ReadFull`, with the error of `readMessage`. -/
def readBytes (n : Nat) (stream : Bytes) : Except ReadError (Bytes × Bytes) :=
  (readFull n stream).mapError .ended

theorem readBytes_append (xs rest : Bytes) : readBytes xs.length (xs ++ rest) = .ok (xs, rest) := by
  rw [readBytes, readFull_append]
  rfl

/-- `"SMB"`. -/
def smb1Name : Bytes := [0x53, 0x4D, 0x42]

/-- The message in the bytes of a frame; an SMB1 NEGOTIATE becomes an SMB2 one. -/
def parseMessage (msgData : Bytes) : Except ReadError SMB2Message :=
  if msgData.take 4 ≠ smb2ProtocolID then
    if msgData.head? = some 0xFF ∧ slice msgData 1 3 = smb1Name then .ok handleSMB1Negotiate
    else .error .invalidMessage
  else
    match unmarshalSMB2Header msgData with
    | none => .error .invalidMessage
    | some header => .ok ⟨header, msgData.drop smb2HeaderSize, msgData⟩

/-- `readMessage`, on the bytes that the connection still gives. -/
def readMessage : StreamReader ReadError UInt8 SMB2Message := fun stream => do
  let (nbHeader, stream) ← readBytes 4 stream
  let msgLen := frameLength nbHeader
  if msgLen < smb2HeaderSize then throw .invalidMessage
  if msgLen > maxTransactSize.toNat then throw .invalidMessage
  let (msgData, stream) ← readBytes msgLen stream
  let msg ← parseMessage msgData
  return (msg, stream)

/-- The bytes of a message after signing. -/
def signedBytes (P : Platform) (aes : BlockCipher) (r : SMB2Response) : Bytes :=
  match r.signingKey with
  | none => r.marshal
  | some key =>
    if key.length > 0 then
      match signMessage P aes r.marshal key r.dialect with
      | some signature => applySignature r.marshal signature
      | none => r.marshal
    else r.marshal

/-- What `writeMessage` puts into the stream. -/
def writeMessage (P : Platform) (aes : BlockCipher) (r : SMB2Response) : Bytes :=
  netbiosHeader r.marshal.length ++ signedBytes P aes r

/-- The message has no signing key. -/
def SMB2Response.unsigned (r : SMB2Response) : Bool := (r.signingKey.getD []).isEmpty

theorem signedBytes_unsigned (P : Platform) (aes : BlockCipher) {r : SMB2Response}
    (h : r.unsigned = true) : signedBytes P aes r = r.marshal := by
  unfold signedBytes
  cases hk : r.signingKey with
  | none => rfl
  | some key =>
    have hnil : key = [] := by simpa [SMB2Response.unsigned, hk] using h
    simp [hnil]

/-- A message in its frame. -/
def frame (msgData : Bytes) : Bytes := netbiosHeader msgData.length ++ msgData

/-- What is read from a frame, up to its length checks. -/
theorem readMessage_frame_eq (msgData rest : Bytes) (hlen : msgData.length < maxFrame) :
    readMessage (frame msgData ++ rest) =
      if msgData.length < smb2HeaderSize ∨ maxTransactSize.toNat < msgData.length then
        .error .invalidMessage else (parseMessage msgData).map fun msg => (msg, rest) := by
  have hfull : frameLength (netbiosHeader msgData.length) = msgData.length := by
    rw [frameLength_netbiosHeader, Nat.mod_eq_of_lt hlen]
  have hnetbios : readBytes 4 (frame msgData ++ rest) =
      .ok (netbiosHeader msgData.length, msgData ++ rest) := by
    rw [frame, List.append_assoc]
    exact readBytes_append (netbiosHeader msgData.length) _
  unfold readMessage
  rw [hnetbios]
  simp only [bind, Except.bind, hfull, readBytes_append]
  by_cases hshort : msgData.length < smb2HeaderSize
  · simp [hshort, throw, throwThe, MonadExceptOf.throw]
  · by_cases hlong : maxTransactSize.toNat < msgData.length
    · simp [hshort, hlong, throw, throwThe, MonadExceptOf.throw]
    · simp only [hshort, hlong, if_false, or_self]
      cases parseMessage msgData <;> rfl

theorem maxTransactSize_lt : maxTransactSize.toNat < maxFrame := by decide

/-- **A message of at most MaxTransactSize bytes is read back.** -/
theorem readMessage_frame (hsig : h.signature.length = 16) (payload rest : Bytes)
    (hlen : smb2HeaderSize + payload.length ≤ maxTransactSize.toNat) :
    readMessage (frame (h.marshal ++ payload) ++ rest) =
      .ok (⟨h.received, payload, h.marshal ++ payload⟩, rest) := by
  have hsize : (h.marshal ++ payload).length = smb2HeaderSize + payload.length := by
    rw [List.length_append, marshal_length]
  have hfits := maxTransactSize_lt
  have hid := take_marshal h payload
  have hdrop : (h.marshal ++ payload).drop smb2HeaderSize = payload := by
    rw [← marshal_length h, List.drop_left]
  rw [readMessage_frame_eq _ _ (by omega), if_neg (by omega), parseMessage,
    if_neg (not_not.mpr hid), unmarshal_marshal h hsig, hdrop]
  rfl

/-- A longer message is refused. -/
theorem readMessage_too_long (payload rest : Bytes)
    (hlen : maxTransactSize.toNat < smb2HeaderSize + payload.length)
    (hfits : smb2HeaderSize + payload.length < maxFrame) :
    readMessage (frame (h.marshal ++ payload) ++ rest) = .error .invalidMessage := by
  have hsize : (h.marshal ++ payload).length = smb2HeaderSize + payload.length := by
    rw [List.length_append, marshal_length]
  rw [readMessage_frame_eq _ _ (by omega), if_pos (by omega)]

theorem writeMessage_unsigned (P : Platform) (aes : BlockCipher) {r : SMB2Response}
    (h : r.unsigned = true) : writeMessage P aes r = frame (r.header.marshal ++ r.payload) := by
  rw [writeMessage, signedBytes_unsigned P aes h]
  rfl

end Smbfs
