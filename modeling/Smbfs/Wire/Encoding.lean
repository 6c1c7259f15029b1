import Smbfs.Wire.Types

/-!
Little-endian fields, UTF-16LE strings and the byte reader of
`smb2_encoding.go`. A read past the end returns zero and does not advance.
Writers are concatenations of byte lists.
-/

namespace Smbfs

/-! ## Little-endian fields -/

def putUint16 (v : UInt16) : Bytes := [v.toUInt8, (v >>> 8).toUInt8]

def putUint32 (v : UInt32) : Bytes :=
  [v.toUInt8, (v >>> 8).toUInt8, (v >>> 16).toUInt8, (v >>> 24).toUInt8]

def putUint64 (v : UInt64) : Bytes := putUint32 v.toUInt32 ++ putUint32 (v >>> 32).toUInt32

/-- The value of the first `n` bytes, least significant first; missing bytes
count as zero. -/
def leNat : Nat → Bytes → Nat
  | 0, _ => 0
  | _ + 1, [] => 0
  | n + 1, b :: bs => b.toNat + 256 * leNat n bs

def getUint16 (b : Bytes) : UInt16 := UInt16.ofNat (leNat 2 b)
def getUint32 (b : Bytes) : UInt32 := UInt32.ofNat (leNat 4 b)
def getUint64 (b : Bytes) : UInt64 := UInt64.ofNat (leNat 8 b)

theorem getUint16_putUint16 (v : UInt16) (b : Bytes) : getUint16 (putUint16 v ++ b) = v := by
  have hlt := v.toNat_lt
  have hlo : v.toUInt8.toNat = v.toNat % 256 := by simp
  have hhi : (v >>> 8).toUInt8.toNat = v.toNat / 256 % 256 := by
    simp [UInt16.toNat_shiftRight, Nat.shiftRight_eq_div_pow]
  apply UInt16.toNat.inj
  simp only [getUint16, putUint16, List.cons_append, List.nil_append, leNat, hlo, hhi,
    UInt16.toNat_ofNat']
  omega

theorem leNat_putUint32 (v : UInt32) (b : Bytes) : leNat 4 (putUint32 v ++ b) = v.toNat := by
  have hlt := v.toNat_lt
  have h0 : v.toUInt8.toNat = v.toNat % 256 := by simp
  have h1 : (v >>> 8).toUInt8.toNat = v.toNat / 256 % 256 := by
    simp [UInt32.toNat_shiftRight, Nat.shiftRight_eq_div_pow]
  have h2 : (v >>> 16).toUInt8.toNat = v.toNat / 65536 % 256 := by
    simp [UInt32.toNat_shiftRight, Nat.shiftRight_eq_div_pow]
  have h3 : (v >>> 24).toUInt8.toNat = v.toNat / 16777216 % 256 := by
    simp [UInt32.toNat_shiftRight, Nat.shiftRight_eq_div_pow]
  simp only [putUint32, List.cons_append, List.nil_append, leNat, h0, h1, h2, h3]
  omega

theorem getUint32_putUint32 (v : UInt32) (b : Bytes) : getUint32 (putUint32 v ++ b) = v := by
  rw [getUint32, leNat_putUint32, UInt32.ofNat_toNat]

/-- Four bytes in front of a number are its low part. -/
theorem leNat_putUint32_append (v : UInt32) (m : Nat) (b : Bytes) :
    leNat (m + 4) (putUint32 v ++ b) = leNat 4 (putUint32 v) + UInt32.size * leNat m b := by
  simp only [putUint32, List.cons_append, List.nil_append, leNat, UInt32.size]
  omega

theorem getUint64_putUint64 (v : UInt64) (b : Bytes) : getUint64 (putUint64 v ++ b) = v := by
  have hlt := v.toNat_lt
  have hlo := leNat_putUint32 v.toUInt32 []
  have hhi := leNat_putUint32 (v >>> 32).toUInt32 b
  have hsplit := leNat_putUint32_append v.toUInt32 4 (putUint32 (v >>> 32).toUInt32 ++ b)
  rw [hhi] at hsplit
  rw [List.append_nil] at hlo
  rw [hlo, UInt64.toNat_toUInt32, UInt64.toNat_toUInt32, UInt64.toNat_shiftRight] at hsplit
  apply UInt64.toNat.inj
  rw [getUint64, putUint64, List.append_assoc, hsplit, UInt64.toNat_ofNat']
  simp only [UInt32.size, UInt64.reduceToNat, Nat.reduceMod, Nat.shiftRight_eq_div_pow,
    Nat.reducePow]
  omega

/-! A field is written back as the bytes it was read from. -/

variable {b : Bytes}

theorem putUint16_getUint16 (h : 2 ≤ b.length) : putUint16 (getUint16 b) = b.take 2 := by
  match b, h with
  | b0 :: b1 :: b, _ =>
    have h0 := b0.toNat_lt
    have h1 := b1.toNat_lt
    have hval : (getUint16 (b0 :: b1 :: b)).toNat = b0.toNat + 256 * b1.toNat := by
      rw [getUint16, UInt16.toNat_ofNat']
      simp only [leNat]
      omega
    have hbyte0 : (getUint16 (b0 :: b1 :: b)).toUInt8 = b0 := by
      apply UInt8.toNat.inj
      simp only [UInt16.toNat_toUInt8, hval]
      omega
    have hbyte1 : (getUint16 (b0 :: b1 :: b) >>> 8).toUInt8 = b1 := by
      apply UInt8.toNat.inj
      simp only [UInt16.toNat_toUInt8, UInt16.toNat_shiftRight, UInt16.reduceToNat, Nat.reduceMod,
        Nat.shiftRight_eq_div_pow, Nat.reducePow, hval]
      omega
    rw [putUint16, hbyte0, hbyte1]
    rfl

variable (b0 b1 b2 b3 : UInt8)

theorem leNat_four (b : Bytes) :
    leNat 4 (b0 :: b1 :: b2 :: b3 :: b) =
      b0.toNat + 256 * b1.toNat + 65536 * b2.toNat + 16777216 * b3.toNat := by
  simp only [leNat]
  omega

theorem toNat_getUint32 (b : Bytes) :
    (getUint32 (b0 :: b1 :: b2 :: b3 :: b)).toNat =
      b0.toNat + 256 * b1.toNat + 65536 * b2.toNat + 16777216 * b3.toNat := by
  have h0 := b0.toNat_lt
  have h1 := b1.toNat_lt
  have h2 := b2.toNat_lt
  have h3 := b3.toNat_lt
  rw [getUint32, UInt32.toNat_ofNat', leNat_four]
  omega

theorem putUint32_getUint32 (h : 4 ≤ b.length) : putUint32 (getUint32 b) = b.take 4 := by
  match b, h with
  | b0 :: b1 :: b2 :: b3 :: b, _ =>
    have h0 := b0.toNat_lt
    have h1 := b1.toNat_lt
    have h2 := b2.toNat_lt
    have h3 := b3.toNat_lt
    have hval := toNat_getUint32 b0 b1 b2 b3 b
    generalize getUint32 (b0 :: b1 :: b2 :: b3 :: b) = v at hval
    have hbyte0 : v.toUInt8 = b0 := by
      apply UInt8.toNat.inj
      simp only [UInt32.toNat_toUInt8, hval]
      omega
    have hbyte : ∀ (k : UInt32) (x : UInt8), v.toNat / 2 ^ (k.toNat % 32) % 256 = x.toNat →
        (v >>> k).toUInt8 = x := by
      intro k x h
      apply UInt8.toNat.inj
      rw [← h, ← Nat.shiftRight_eq_div_pow]
      simp only [UInt32.toNat_toUInt8, UInt32.toNat_shiftRight, Nat.reducePow]
    rw [hval] at hbyte
    have hbyte1 : (v >>> 8).toUInt8 = b1 := hbyte 8 b1 (by simp; omega)
    have hbyte2 : (v >>> 16).toUInt8 = b2 := hbyte 16 b2 (by simp; omega)
    have hbyte3 : (v >>> 24).toUInt8 = b3 := hbyte 24 b3 (by simp; omega)
    rw [putUint32, hbyte0, hbyte1, hbyte2, hbyte3]
    rfl

/-- Eight bytes are two numbers of four. -/
theorem toNat_getUint64 (h : 8 ≤ b.length) :
    (getUint64 b).toNat = (getUint32 b).toNat + UInt32.size * (getUint32 (b.drop 4)).toNat := by
  match b, h with
  | b0 :: b1 :: b2 :: b3 :: b4 :: b5 :: b6 :: b7 :: b, _ =>
    have hlow := UInt32.toNat_lt (getUint32 (b0 :: b1 :: b2 :: b3 :: b4 :: b5 :: b6 :: b7 :: b))
    have hhigh := UInt32.toNat_lt (getUint32 (b4 :: b5 :: b6 :: b7 :: b))
    rw [toNat_getUint32] at hlow hhigh
    change _ = _ + UInt32.size * (getUint32 (b4 :: b5 :: b6 :: b7 :: b)).toNat
    rw [toNat_getUint32, toNat_getUint32, getUint64, UInt64.toNat_ofNat']
    simp only [leNat, UInt32.size] at *
    omega

theorem putUint64_getUint64 (h : 8 ≤ b.length) : putUint64 (getUint64 b) = b.take 8 := by
  have hval := toNat_getUint64 h
  have hlow : (getUint64 b).toUInt32 = getUint32 b := by
    have hlt := (getUint32 b).toNat_lt
    apply UInt32.toNat.inj
    rw [UInt64.toNat_toUInt32, hval]
    simp only [UInt32.size] at *
    omega
  have hhigh : (getUint64 b >>> 32).toUInt32 = getUint32 (b.drop 4) := by
    have hlt := (getUint32 b).toNat_lt
    have hlt' := (getUint32 (b.drop 4)).toNat_lt
    apply UInt32.toNat.inj
    rw [UInt64.toNat_toUInt32, UInt64.toNat_shiftRight, hval]
    simp only [UInt32.size, UInt64.reduceToNat, Nat.reduceMod, Nat.shiftRight_eq_div_pow,
      Nat.reducePow] at *
    omega
  rw [putUint64, hlow, hhigh, putUint32_getUint32 (by omega),
    putUint32_getUint32 (by rw [List.length_drop]; omega), ← List.take_add]

def putFileID (f : FileID) : Bytes := putUint64 f.persistent ++ putUint64 (UInt64.ofNat f.volatile)

def zeros (n : Nat) : Bytes := List.replicate n 0

/-- `b[i : i+n]`, for a range inside `b`. -/
def slice (b : Bytes) (i n : Nat) : Bytes := (b.drop i).take n

def padTo8ByteBoundary (offset : Nat) : Nat := (8 - offset % 8) % 8

def alignTo8 (v : Nat) : Nat := (v + 7) / 8 * 8

/-! ## UTF-16 -/

def isHighSurrogate (u : UInt16) : Bool := 0xD800 ≤ u && u < 0xDC00
def isLowSurrogate (u : UInt16) : Bool := 0xDC00 ≤ u && u < 0xE000

/-- `utf16.Decode`: a surrogate without its partner becomes U+FFFD. -/
def utf16Decode : List UInt16 → Str
  | [] => []
  | [u] =>
    if isHighSurrogate u || isLowSurrogate u then [Char.ofNat 0xFFFD]
    else [Char.ofNat u.toNat]
  | u :: v :: us =>
    if isHighSurrogate u then
      if isLowSurrogate v then
        Char.ofNat ((u.toNat - 0xD800) * 1024 + (v.toNat - 0xDC00) + 0x10000) :: utf16Decode us
      else Char.ofNat 0xFFFD :: utf16Decode (v :: us)
    else if isLowSurrogate u then Char.ofNat 0xFFFD :: utf16Decode (v :: us)
    else Char.ofNat u.toNat :: utf16Decode (v :: us)

/-- `utf16.Encode`. -/
def utf16Encode : Str → List UInt16
  | [] => []
  | c :: cs =>
    if c.toNat < 0x10000 then UInt16.ofNat c.toNat :: utf16Encode cs
    else
      UInt16.ofNat (0xD800 + (c.toNat - 0x10000) / 1024) ::
        UInt16.ofNat (0xDC00 + (c.toNat - 0x10000) % 1024) :: utf16Encode cs

/-- The code units of the bytes; an odd last byte is dropped. -/
def codeUnits : Bytes → List UInt16
  | lo :: hi :: bs => getUint16 [lo, hi] :: codeUnits bs
  | _ => []

def encodeStringToUTF16LE (s : Str) : Bytes := (utf16Encode s).flatMap putUint16

/-- `DecodeUTF16LEToString`: one trailing NUL is removed. -/
def decodeUTF16LEToString (data : Bytes) : Str :=
  let runes := codeUnits data
  utf16Decode (if runes.getLast? = some 0 then runes.dropLast else runes)

/-! ## ByteReader -/

structure ByteReader where
  data : Bytes
  pos : Nat

/-- A sequence of reads. -/
abbrev Reader := StateM ByteReader

namespace Reader

def remaining : Reader Nat := fun r => (r.data.length - r.pos, r)

/-- `ReadBytes`: nil when fewer than `n` bytes are left. -/
def readBytes (n : Nat) : Reader (Option Bytes) := fun r =>
  if r.pos + n > r.data.length then (none, r)
  else (some (slice r.data r.pos n), { r with pos := r.pos + n })

def readOneByte : Reader UInt8 := fun r =>
  if r.pos ≥ r.data.length then (0, r)
  else ((r.data.drop r.pos).headD 0, { r with pos := r.pos + 1 })

def readUint16 : Reader UInt16 := fun r =>
  if r.pos + 2 > r.data.length then (0, r)
  else (getUint16 (r.data.drop r.pos), { r with pos := r.pos + 2 })

def readUint32 : Reader UInt32 := fun r =>
  if r.pos + 4 > r.data.length then (0, r)
  else (getUint32 (r.data.drop r.pos), { r with pos := r.pos + 4 })

def readUint64 : Reader UInt64 := fun r =>
  if r.pos + 8 > r.data.length then (0, r)
  else (getUint64 (r.data.drop r.pos), { r with pos := r.pos + 8 })

def readFileID : Reader FileID := do
  let persistent ← readUint64
  let volatile ← readUint64
  return ⟨persistent, volatile.toNat⟩

/-- `ReadGUID`: sixteen zeros when fewer bytes are left. -/
def readGUID : Reader Bytes := do
  let b ← readBytes 16
  return b.getD (zeros 16)

def readUTF16String (byteLen : Nat) : Reader Str := do
  let b ← readBytes byteLen
  return decodeUTF16LEToString (b.getD [])

/-- The reads made on `data` from its start. -/
@[irreducible] def parse {α : Type} (p : Reader α) (data : Bytes) : α := (p.run ⟨data, 0⟩).1

end Reader

/-! ## Buffers inside a message -/

/-- The buffer at `offset` from the start of the header: `none` when it does
not lie inside the payload. -/
def messageBuffer (payload : Bytes) (offset length : Nat) : Option Bytes :=
  if offset < smb2HeaderSize ∨ offset - smb2HeaderSize + length > payload.length then none
  else some (slice payload (offset - smb2HeaderSize) length)

/-- `buildErrorResponse`. -/
def errorResponse : Bytes := putUint16 9 ++ [0, 0] ++ putUint32 0 ++ [0]

end Smbfs
