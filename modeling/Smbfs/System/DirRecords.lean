import Smbfs.System.Listing

/-!
The entries of a QUERY_DIRECTORY response with their fields, as a client finds
them when it follows the distances from the start of the buffer.

* `entryBytes_record`: the fields of one entry;
* `fillDirBuffer_records`: the walk through the buffer of a response.
-/

namespace Smbfs

/-! ## The client -/

namespace DirClass

/-- The entries of the class have the size and the attributes. -/
def hasInfo : DirClass → Bool
  | names => false
  | directory | full | both | idBoth => true

/-- The entries of the class have a file id. -/
def hasFileID : DirClass → Bool
  | idBoth => true
  | directory | full | both | names => false

end DirClass

/-- What a client finds in an entry. -/
structure DirRecord where
  fileIndex : UInt32
  name : Bytes
  endOfFile : Option UInt64
  attributes : Option UInt32
  fileID : Option UInt64
deriving DecidableEq

/-- The fields of an entry at their offsets. -/
def readRecord (c : DirClass) (entry : Bytes) : DirRecord where
  fileIndex := getUint32 (entry.drop 4)
  name := entryName c entry
  endOfFile := if c.hasInfo then some (getUint64 (entry.drop 40)) else none
  attributes := if c.hasInfo then some (getUint32 (entry.drop 56)) else none
  fileID := if c.hasFileID then some (getUint64 (entry.drop 96)) else none

/-- The fields as they stand for a file; the size of a directory is zero. -/
def FileInfo.record (c : DirClass) (info : FileInfo) (fileIndex : UInt32) : DirRecord where
  fileIndex := fileIndex
  name := encodeStringToUTF16LE info.name
  endOfFile := if c.hasInfo then some (if info.isDir then 0 else info.size.toUInt64) else none
  attributes := if c.hasInfo then some (modeToAttributes info.mode) else none
  fileID := if c.hasFileID then some fileIndex.toUInt64 else none

/-! ## One entry -/

/-- What stands behind the first `k` bytes of an entry, read in a chain. -/
theorem drop_entry {e front back : Bytes} {k : Nat} (he : e = front ++ back) (hk : front.length = k)
    (hfour : 4 ≤ k) (next : UInt32) (tail : Bytes) :
    (putUint32 next ++ (e.drop 4 ++ tail)).drop k = back ++ tail := by
  have hlength : (putUint32 next ++ front.drop 4).length = k := by
    rw [List.length_append, List.length_drop, putUint32_length]
    omega
  have hbody : e.drop 4 = front.drop 4 ++ back := by
    rw [he, List.drop_append_of_le_length (by omega)]
  rw [hbody, List.append_assoc, ← List.append_assoc, List.drop_left' hlength]

theorem entryBytes_fileIndex (c : DirClass) (info : FileInfo) (fileIndex next : UInt32)
    (tail : Bytes) :
    getUint32 ((putUint32 next ++ ((entryBytes c info fileIndex).drop 4 ++ tail)).drop 4) =
      fileIndex := by
  obtain ⟨more, hmore⟩ : ∃ more, entryBytes c info fileIndex =
      putUint32 0 ++ (putUint32 fileIndex ++ more) := by
    cases c <;> simp only [entryBytes, dirEntryBase, List.append_assoc] <;> exact ⟨_, rfl⟩
  rw [drop_entry (k := 4) hmore rfl (Nat.le_refl 4), List.append_assoc, getUint32_putUint32]

theorem dirEntryBase_length (info : FileInfo) (fileIndex : UInt32) (n : Nat) :
    (dirEntryBase info fileIndex n).length = 64 := rfl

variable {c : DirClass}

theorem entryBytes_fileID (h : c.hasFileID = true) (info : FileInfo)
    (fileIndex next : UInt32) (tail : Bytes) :
    getUint64 ((putUint32 next ++ ((entryBytes c info fileIndex).drop 4 ++ tail)).drop 96) =
      fileIndex.toUInt64 := by
  obtain rfl : c = .idBoth := by
    cases c <;> first | rfl | cases h
  have hsplit : entryBytes .idBoth info fileIndex =
      (dirEntryBase info fileIndex (encodeStringToUTF16LE info.name).length ++ putUint32 0 ++
        [0, 0] ++ zeros 24 ++ putUint16 0) ++
      (putUint64 fileIndex.toUInt64 ++ encodeStringToUTF16LE info.name) := by
    simp only [entryBytes, List.append_assoc]
  have hfront : (dirEntryBase info fileIndex (encodeStringToUTF16LE info.name).length ++
      putUint32 0 ++ [0, 0] ++ zeros 24 ++ putUint16 0).length = 96 := by
    simp only [List.length_append, dirEntryBase_length]
    rfl
  rw [drop_entry hsplit hfront (by omega), List.append_assoc, getUint64_putUint64]

/-- What stands before the size of the file. -/
def entryFront (info : FileInfo) (fileIndex : UInt32) : Bytes :=
  let t := putUint64 (timeToFiletime info.modTime)
  putUint32 0 ++ putUint32 fileIndex ++ t ++ t ++ t ++ t

section Fields

variable (h : c.hasInfo = true) (info : FileInfo) (fileIndex next : UInt32)
  (tail : Bytes)

include h

/-- All entries but those of the names-only class start with the same fields. -/
theorem entryBytes_base : ∃ more, entryBytes c info fileIndex = entryFront info fileIndex ++
    (putUint64 (if info.isDir then 0 else info.size.toUInt64) ++
      (putUint64 (if info.isDir then 0 else (info.size.toUInt64 + 4095) &&& ~~~4095) ++
        (putUint32 (modeToAttributes info.mode) ++ more))) := by
  cases c with
  | names => cases h
  | directory | full | both | idBoth =>
    simp only [entryBytes, dirEntryBase, entryFront, List.append_assoc]
    exact ⟨_, rfl⟩

theorem entryBytes_endOfFile :
    getUint64 ((putUint32 next ++ ((entryBytes c info fileIndex).drop 4 ++ tail)).drop 40) =
      if info.isDir then 0 else info.size.toUInt64 := by
  obtain ⟨more, hbase⟩ := entryBytes_base h info fileIndex
  rw [drop_entry (k := 40) hbase rfl (by omega), List.append_assoc, getUint64_putUint64]

theorem entryBytes_attributes :
    getUint32 ((putUint32 next ++ ((entryBytes c info fileIndex).drop 4 ++ tail)).drop 56) =
      modeToAttributes info.mode := by
  obtain ⟨more, hbase⟩ := entryBytes_base h info fileIndex
  rw [← List.append_assoc, ← List.append_assoc] at hbase
  rw [drop_entry (k := 56) hbase rfl (by omega), List.append_assoc, getUint32_putUint32]

end Fields

/-- **One entry.** A client finds the fields of the file. -/
theorem entryBytes_record {info : FileInfo} (h : entrySize c info < UInt32.size)
    (fileIndex : UInt32) :
    ReadsAs (readRecord c) (info.record c fileIndex) (entryBytes c info fileIndex) := by
  intro next tail
  rw [readRecord, FileInfo.record, (entryBytes_isEntry h fileIndex).name_eq next tail,
    entryBytes_fileIndex]
  congr 1
  · cases hc : c.hasInfo with
    | false => rfl
    | true => rw [entryBytes_endOfFile hc]
  · cases hc : c.hasInfo with
    | false => rfl
    | true => rw [entryBytes_attributes hc]
  · cases hc : c.hasFileID with
    | false => rfl
    | true => rw [entryBytes_fileID hc]

/-! ## The walk -/

/-- A client that walks through the buffer finds the records, at offsets that
are multiples of eight. -/
def Walks (c : DirClass) (b : Bytes) (records : List DirRecord) : Prop :=
  ∃ offsets, chainOffsets b b.length 0 = some offsets ∧ (∀ offset ∈ offsets, 8 ∣ offset) ∧
    offsets.map (fun offset => readRecord c (b.drop offset)) = records

/-- The records that a client finds, if the walk ends. -/
def recordsIn (c : DirClass) (b : Bytes) : Option (List DirRecord) :=
  (chainOffsets b b.length 0).map fun offsets =>
    offsets.map fun offset => readRecord c (b.drop offset)

theorem Walks.recordsIn_eq {b : Bytes} {records : List DirRecord}
    (h : Walks c b records) : recordsIn c b = some records := by
  obtain ⟨offsets, hwalk, -, hread⟩ := h
  rw [recordsIn, hwalk, Option.map_some, hread]

theorem DirBuffer.Holds.walks {w : DirBuffer} {init : List (Bytes × Bytes)}
    {last : Bytes × Bytes} (h : w.Holds c init last) (hlen : w.data.length < UInt32.size)
    {v : Bytes × Bytes → DirRecord}
    (hview : ∀ e ∈ init ++ [last], ReadsAs (readRecord c) (v e) e.2) :
    Walks c w.data ((init ++ [last]).map v) := by
  obtain ⟨hcount, hsize⟩ := h.bounds hlen
  obtain ⟨offsets, hwalk, haligned, hread⟩ :=
    chain_walk [] h.init_entries h.last_entry hsize hcount hview
  rw [List.nil_append, ← h.data_eq] at hwalk hread
  exact ⟨offsets, hwalk, haligned (Nat.dvd_zero 8), hread⟩

/-! ## A batch -/

/-- The fields of the entries of a batch, from the `j`-th on. -/
def batchRecords (c : DirClass) (position : Nat) : Nat → List FileInfo → List DirRecord
  | _, [] => []
  | j, info :: infos =>
    info.record c (UInt32.ofNat (position + j + j)) :: batchRecords c position (j + 1) infos

theorem getElem?_batchRecords (c : DirClass) (position j : Nat) (infos : List FileInfo) (i : Nat) :
    (batchRecords c position j infos)[i]? =
      (infos[i]?).map fun info => info.record c (UInt32.ofNat (position + (j + i) + (j + i))) := by
  induction infos generalizing j i with
  | nil => rfl
  | cons info infos ih =>
    cases i with
    | zero => rfl
    | succ i =>
      rw [batchRecords, List.getElem?_cons_succ, List.getElem?_cons_succ, ih,
        show j + 1 + i = j + (i + 1) by omega]

/-- An entry as it is read at the end of a chain. -/
def recordOf (c : DirClass) (e : Bytes) : DirRecord := readRecord c (putUint32 0 ++ (e.drop 4 ++ []))

theorem ReadsAs.recordOf {e : Bytes} {r : DirRecord}
    (h : ReadsAs (readRecord c) r e) : recordOf c e = r := h 0 []

theorem map_recordOf_emitted (position j : Nat) {infos : List FileInfo}
    (h : ∀ info ∈ infos, entrySize c info < UInt32.size) :
    (emitted c position j infos).map (fun e => recordOf c e.2) = batchRecords c position j infos := by
  induction infos generalizing j with
  | nil => rfl
  | cons info infos ih =>
    have hrecord := entryBytes_record (h info List.mem_cons_self)
      (UInt32.ofNat (position + j + j))
    rw [emitted, batchRecords, List.map_cons, ih (j + 1) fun x hx => h x (List.mem_cons_of_mem _ hx)]
    exact congrArg (· :: _) hrecord.recordOf

theorem readsAs_of_mem_emitted {position j : Nat} {infos : List FileInfo}
    (h : ∀ info ∈ infos, entrySize c info < UInt32.size) {e : Bytes × Bytes}
    (he : e ∈ emitted c position j infos) : ReadsAs (readRecord c) (recordOf c e.2) e.2 := by
  induction infos generalizing j with
  | nil => cases he
  | cons info infos ih =>
    rcases List.mem_cons.mp he with rfl | he
    · have hrecord := entryBytes_record (h info List.mem_cons_self)
        (UInt32.ofNat (position + j + j))
      rw [hrecord.recordOf]
      exact hrecord
    · exact ih (fun x hx => h x (List.mem_cons_of_mem _ hx)) he

/-- **The buffer of a response.** A client that walks through it finds the
entries of the batch. -/
theorem fillDirBuffer_records {req : QueryDirectoryRequest}
    (hc : DirClass.ofCode req.infoClass = some c) (position : Nat) (entry : FileInfo)
    (entries : List FileInfo)
    (hfit : alignTo8 (entrySize c entry) ≤ req.outputBufferLength.toNat) :
    let m := batchSize c req 0 (entry :: entries)
    ∃ w, fillDirBuffer req position (entry :: entries) .empty = (none, w) ∧ w.count = m ∧
      w.data.length ≤ req.outputBufferLength.toNat ∧
      Walks c w.data (batchRecords c position 0 ((entry :: entries).take m)) := by
  intro m
  obtain ⟨w, init, last, hfill, hw, hlen, hcount, hemitted⟩ :=
    fillDirBuffer_emitted hc position entry entries hfit
  have hsizes : ∀ info ∈ (entry :: entries).take m, entrySize c info < UInt32.size :=
    fun info hinfo => entrySize_lt_of_mem hinfo
  have hlt : w.data.length < UInt32.size :=
    Nat.lt_of_le_of_lt hlen req.outputBufferLength.toNat_lt
  refine ⟨w, hfill, hcount, hlen, ?_⟩
  rw [← map_recordOf_emitted position 0 hsizes, ← hemitted]
  apply hw.walks hlt
  intro e he
  rw [hemitted] at he
  exact readsAs_of_mem_emitted hsizes he

end Smbfs
