import Smbfs.Wire.Reads
import Smbfs.Wire.Utf16

/-!
The byte writer of `smb2_encoding.go`, and what the byte reader makes of its
bytes.

`Reader.ReadsBack p b a`: wherever the bytes `b` stand in the data, the reads of
`p` take exactly them and return `a`. Every typed read is so for the bytes of its
typed write, and the property is kept by sequencing, so `readsBack_readAll`
follows by induction on the fields.
-/

namespace Smbfs

/-! ## ByteWriter -/

structure ByteWriter where
  data : Bytes
  deriving DecidableEq

namespace ByteWriter

def new : ByteWriter := ⟨[]⟩

def bytes (w : ByteWriter) : Bytes := w.data

def writeBytes (w : ByteWriter) (b : Bytes) : ByteWriter := ⟨w.data ++ b⟩

def writeOneByte (w : ByteWriter) (b : UInt8) : ByteWriter := ⟨w.data ++ [b]⟩

def writeUint16 (w : ByteWriter) (v : UInt16) : ByteWriter := ⟨w.data ++ putUint16 v⟩

def writeUint32 (w : ByteWriter) (v : UInt32) : ByteWriter := ⟨w.data ++ putUint32 v⟩

def writeUint64 (w : ByteWriter) (v : UInt64) : ByteWriter := ⟨w.data ++ putUint64 v⟩

def writeFileID (w : ByteWriter) (f : FileID) : ByteWriter :=
  (w.writeUint64 f.persistent).writeUint64 (UInt64.ofNat f.volatile)

def writeGUID (w : ByteWriter) (guid : Bytes) : ByteWriter := ⟨w.data ++ guid⟩

def writeUTF16String (w : ByteWriter) (s : Str) : ByteWriter := w.writeBytes (encodeStringToUTF16LE s)

/-- The bytes of a `Put` at `pos`; `none` is the panic at a negative index. A
position past the end leaves the data as it is. -/
def putAt (w : ByteWriter) (pos : Int) (field : Bytes) : Option ByteWriter :=
  if pos + field.length ≤ w.data.length then
    if pos < 0 then none
    else some ⟨w.data.take pos.toNat ++ field ++ w.data.drop (pos.toNat + field.length)⟩
  else some w

def setUint16At (w : ByteWriter) (pos : Int) (v : UInt16) : Option ByteWriter := w.putAt pos (putUint16 v)

def setUint32At (w : ByteWriter) (pos : Int) (v : UInt32) : Option ByteWriter := w.putAt pos (putUint32 v)

/-- The bytes from `pos` on are now `field`, and there is no other change. -/
structure ChangedAt (w w' : ByteWriter) (pos : Nat) (field : Bytes) : Prop where
  length_eq : w'.bytes.length = w.bytes.length
  slice_eq : slice w'.bytes pos field.length = field
  getElem_eq : ∀ i, i < pos ∨ pos + field.length ≤ i → w'.bytes[i]? = w.bytes[i]?

variable {w : ByteWriter} {pos : Nat}

theorem putAt_of_le {field : Bytes}
    (h : pos + field.length ≤ w.bytes.length) :
    ∃ w', w.putAt pos field = some w' ∧ w.ChangedAt w' pos field := by
  have hfits : (pos : Int) + field.length ≤ w.data.length := by exact_mod_cast h
  have htake : (w.data.take pos).length = pos := by
    rw [List.length_take]
    exact Nat.min_eq_left (Nat.le_trans (Nat.le_add_right _ _) h)
  rw [putAt, if_pos hfits, if_neg (by omega), Int.toNat_natCast]
  refine ⟨_, rfl, ?_, ?_, ?_⟩
  · rw [bytes, List.length_append, List.length_append, htake, List.length_drop]
    exact Nat.add_sub_of_le h
  · rw [bytes, slice, List.append_assoc, List.drop_left' htake, List.take_left]
  · intro i hi
    rw [bytes, List.append_assoc, List.getElem?_append, htake, List.getElem?_append]
    rcases hi with hi | hi
    · rw [if_pos hi, List.getElem?_take, if_pos hi]
      rfl
    · rw [if_neg (by omega), if_neg (by omega), List.getElem?_drop]
      have hback : pos + field.length + (i - pos - field.length) = i := by omega
      rw [hback]
      rfl

theorem setUint16At_of_le (h : pos + 2 ≤ w.bytes.length) (v : UInt16) :
    ∃ w', w.setUint16At pos v = some w' ∧ w.ChangedAt w' pos (putUint16 v) := by
  have hfits : pos + (putUint16 v).length ≤ w.bytes.length := h
  exact putAt_of_le hfits

theorem setUint32At_of_le (h : pos + 4 ≤ w.bytes.length) (v : UInt32) :
    ∃ w', w.setUint32At pos v = some w' ∧ w.ChangedAt w' pos (putUint32 v) := by
  have hfits : pos + (putUint32 v).length ≤ w.bytes.length := h
  exact putAt_of_le hfits

end ByteWriter

/-! ## Reading back -/

namespace Reader

variable {α β : Type}

/-- Wherever `b` stands in the data, the reads take it and return `a`. -/
def ReadsBack (p : Reader α) (b : Bytes) (a : α) : Prop :=
  ∀ before behind : Bytes, p ⟨before ++ (b ++ behind), before.length⟩ =
    (a, ⟨before ++ (b ++ behind), before.length + b.length⟩)

theorem readsBack_pure (a : α) : ReadsBack (pure a) [] a := fun _ _ => rfl

variable {p : Reader α}

theorem Reads.readsBack {v : Bytes → α} {b : Bytes} {a : α} (h : p.Reads b.length v)
    (ha : ∀ behind, v (b ++ behind) = a) : p.ReadsBack b a := by
  intro before behind
  have hfits : before.length + b.length ≤ (before ++ (b ++ behind)).length := by
    rw [List.length_append, List.length_append]
    omega
  rw [h _ _ hfits, List.drop_left, ha]

theorem ReadsBack.bind {f : α → Reader β} {b b' : Bytes} {a : α} {c : β}
    (hp : p.ReadsBack b a) (hf : (f a).ReadsBack b' c) : (p >>= f).ReadsBack (b ++ b') c := by
  intro before behind
  have hsecond := hf (before ++ b) behind
  rw [List.append_assoc, List.length_append] at hsecond
  show f (p _).1 (p _).2 = _
  rw [List.append_assoc, hp, hsecond, List.length_append, Nat.add_assoc]

theorem ReadsBack.map {b : Bytes} {a : α} (h : p.ReadsBack b a) (f : α → β) :
    (f <$> p).ReadsBack b (f a) := by
  intro before behind
  show (f (p _).1, (p _).2) = _
  rw [h]

end Reader

/-! ## Fields -/

/-- A typed read, with the byte length where the caller gives it. -/
inductive FieldType where
  | byte | uint16 | uint32 | uint64 | fileID | guid
  | bytes (n : Nat)
  | utf16 (byteLen : Nat)
  deriving DecidableEq

/-- What a typed read returns; nil bytes are `none`. -/
inductive FieldValue where
  | byte (b : UInt8)
  | uint16 (v : UInt16)
  | uint32 (v : UInt32)
  | uint64 (v : UInt64)
  | fileID (f : FileID)
  | guid (g : Bytes)
  | bytes (b : Option Bytes)
  | utf16 (s : Str)
  deriving DecidableEq

/-- A typed write. The two halves of a FileID are 64-bit, and a GUID has sixteen bytes. -/
inductive Field where
  | byte (b : UInt8)
  | uint16 (v : UInt16)
  | uint32 (v : UInt32)
  | uint64 (v : UInt64)
  | fileID (persistent volatile : UInt64)
  | guid (g : Bytes) (sixteen : g.length = 16)
  | bytes (b : Bytes)
  | utf16 (s : Str)

def FieldType.read : FieldType → Reader FieldValue
  | .byte => .byte <$> Reader.readOneByte
  | .uint16 => .uint16 <$> Reader.readUint16
  | .uint32 => .uint32 <$> Reader.readUint32
  | .uint64 => .uint64 <$> Reader.readUint64
  | .fileID => .fileID <$> Reader.readFileID
  | .guid => .guid <$> Reader.readGUID
  | .bytes n => .bytes <$> Reader.readBytes n
  | .utf16 byteLen => .utf16 <$> Reader.readUTF16String byteLen

namespace Field

def write (w : ByteWriter) : Field → ByteWriter
  | .byte b => w.writeOneByte b
  | .uint16 v => w.writeUint16 v
  | .uint32 v => w.writeUint32 v
  | .uint64 v => w.writeUint64 v
  | .fileID persistent volatile => w.writeFileID ⟨persistent, volatile.toNat⟩
  | .guid g _ => w.writeGUID g
  | .bytes b => w.writeBytes b
  | .utf16 s => w.writeUTF16String s

/-- The read that corresponds to a write. -/
def type : Field → FieldType
  | .byte _ => .byte
  | .uint16 _ => .uint16
  | .uint32 _ => .uint32
  | .uint64 _ => .uint64
  | .fileID _ _ => .fileID
  | .guid _ _ => .guid
  | .bytes b => .bytes b.length
  | .utf16 s => .utf16 (encodeStringToUTF16LE s).length

/-- The value that was written; a string loses one trailing NUL. -/
def value : Field → FieldValue
  | .byte b => .byte b
  | .uint16 v => .uint16 v
  | .uint32 v => .uint32 v
  | .uint64 v => .uint64 v
  | .fileID persistent volatile => .fileID ⟨persistent, volatile.toNat⟩
  | .guid g _ => .guid g
  | .bytes b => .bytes (some b)
  | .utf16 s => .utf16 (stripNul s)

/-- The bytes of a write. -/
def encoded (f : Field) : Bytes := (f.write .new).bytes

end Field

/-- The writes, one after the other. -/
def writeAll (w : ByteWriter) (fields : List Field) : ByteWriter := fields.foldl Field.write w

/-- The reads, one after the other. -/
def readAll : List FieldType → Reader (List FieldValue)
  | [] => pure []
  | t :: types => do
    let v ← t.read
    let vs ← readAll types
    return v :: vs

/-- A write appends its bytes. -/
theorem Field.bytes_write (f : Field) (w : ByteWriter) : (f.write w).bytes = w.bytes ++ f.encoded := by
  cases f with
  | fileID persistent volatile => exact List.append_assoc _ _ _
  | _ => rfl

theorem bytes_writeAll (w : ByteWriter) (fields : List Field) :
    (writeAll w fields).bytes = w.bytes ++ fields.flatMap Field.encoded := by
  induction fields generalizing w with
  | nil => exact (List.append_nil _).symm
  | cons f fields ih =>
    rw [List.flatMap_cons, ← List.append_assoc, ← f.bytes_write]
    exact ih (f.write w)

namespace Reader

theorem readsBack_uint64 (v : UInt64) : readUint64.ReadsBack (putUint64 v) v :=
  reads_uint64.readsBack (getUint64_putUint64 v)

theorem readsBack_bytes (b : Bytes) : (readBytes b.length).ReadsBack b (some b) :=
  (reads_bytes b.length).readsBack fun _ => by rw [List.take_left]

theorem readsBack_fileID (persistent volatile : UInt64) :
    readFileID.ReadsBack (putUint64 persistent ++ putUint64 volatile)
      ⟨persistent, volatile.toNat⟩ := by
  have hreads : readFileID.ReadsBack (putUint64 persistent ++ (putUint64 volatile ++ []))
      ⟨persistent, volatile.toNat⟩ :=
    (readsBack_uint64 persistent).bind ((readsBack_uint64 volatile).bind (readsBack_pure _))
  rwa [List.append_nil] at hreads

theorem readsBack_utf16String (s : Str) :
    (readUTF16String (encodeStringToUTF16LE s).length).ReadsBack (encodeStringToUTF16LE s)
      (stripNul s) := by
  have hreads := (readsBack_bytes (encodeStringToUTF16LE s)).map fun b =>
    decodeUTF16LEToString (b.getD [])
  rwa [Option.getD_some, decode_encode_eq] at hreads

end Reader

/-- Every typed read takes the bytes of its typed write. -/
theorem Field.readsBack (f : Field) : f.type.read.ReadsBack f.encoded f.value := by
  cases f with
  | byte b =>
    have hreads : Reader.readOneByte.ReadsBack [b] b := Reader.reads_oneByte.readsBack fun _ => rfl
    exact hreads.map FieldValue.byte
  | uint16 v => exact (Reader.reads_uint16.readsBack (getUint16_putUint16 v)).map FieldValue.uint16
  | uint32 v => exact (Reader.reads_uint32.readsBack (getUint32_putUint32 v)).map FieldValue.uint32
  | uint64 v => exact (Reader.readsBack_uint64 v).map FieldValue.uint64
  | fileID persistent volatile =>
    have hbytes : (Field.fileID persistent volatile).encoded =
        putUint64 persistent ++ putUint64 volatile := by
      change putUint64 persistent ++ putUint64 (UInt64.ofNat volatile.toNat) = _
      rw [UInt64.ofNat_toNat]
    rw [hbytes]
    exact (Reader.readsBack_fileID persistent volatile).map FieldValue.fileID
  | guid g sixteen =>
    have hreads := ((Reader.readsBack_bytes g).map fun b => b.getD (zeros 16)).map FieldValue.guid
    rw [sixteen] at hreads
    exact hreads
  | bytes b => exact (Reader.readsBack_bytes b).map FieldValue.bytes
  | utf16 s => exact (Reader.readsBack_utf16String s).map FieldValue.utf16

theorem readsBack_readAll (fields : List Field) :
    (readAll (fields.map Field.type)).ReadsBack (fields.flatMap Field.encoded)
      (fields.map Field.value) := by
  induction fields with
  | nil => exact Reader.readsBack_pure []
  | cons f fields ih =>
    have hreads : (readAll ((f :: fields).map Field.type)).ReadsBack
        (f.encoded ++ (fields.flatMap Field.encoded ++ [])) ((f :: fields).map Field.value) :=
      f.readsBack.bind (ih.bind (Reader.readsBack_pure _))
    rwa [List.append_nil] at hreads

/-- **The reader undoes the writer.** The reads that correspond to a sequence of
writes return the values of the writes and leave nothing; and a `Set…At` in range
changes only the bytes that it addresses. -/
theorem byteReader_undoes_byteWriter :
    (∀ fields : List Field, ∃ r : ByteReader,
      readAll (fields.map Field.type) ⟨(writeAll .new fields).bytes, 0⟩ =
          (fields.map Field.value, r) ∧ (Reader.remaining r).1 = 0) ∧
    (∀ (w : ByteWriter) (pos : Nat) (v : UInt16), pos + 2 ≤ w.bytes.length →
      ∃ w', w.setUint16At pos v = some w' ∧ w.ChangedAt w' pos (putUint16 v)) ∧
    (∀ (w : ByteWriter) (pos : Nat) (v : UInt32), pos + 4 ≤ w.bytes.length →
      ∃ w', w.setUint32At pos v = some w' ∧ w.ChangedAt w' pos (putUint32 v)) := by
  refine ⟨?_, fun w pos v h => ByteWriter.setUint16At_of_le h v,
    fun w pos v h => ByteWriter.setUint32At_of_le h v⟩
  intro fields
  have hbytes : (writeAll .new fields).bytes = fields.flatMap Field.encoded := bytes_writeAll .new fields
  have hreads := readsBack_readAll fields [] []
  rw [List.append_nil, List.nil_append, ← hbytes] at hreads
  exact ⟨_, hreads, by simp [Reader.remaining]⟩

theorem byteReader_undoes_byteWriter_sample :
    ∃ w, (writeAll .new [.byte 5, .uint32 0, .utf16 ['a', Char.ofNat 0], .uint16 7]).setUint32At 1 9 =
        some w ∧ w.bytes = [5, 9, 0, 0, 0, 0x61, 0, 0, 0, 7, 0] := by
  obtain ⟨-, -, hset⟩ := byteReader_undoes_byteWriter
  obtain ⟨w, hw, hchanged⟩ := hset
    (writeAll .new [.byte 5, .uint32 0, .utf16 ['a', Char.ofNat 0], .uint16 7]) 1 9 (by decide)
  refine ⟨w, hw, ?_⟩
  cases hw
  rfl

end Smbfs
