import Smbfs.Properties.Enumeration
import Smbfs.System.DirRecords

/-!
The FileIndex of an entry as the key to resume at it.

The loop of QUERY_DIRECTORY adds the number of entries written to a cursor
that has already moved by that number, so the entry `j` of a response that
starts at `n` has the index `n + 2 j`.

* `reportsPositions_iff`: a response has the right indices exactly if it has
  one entry;
* `file_index_iff`: so over every run of the system.
-/

namespace Smbfs

open Smbfs.Lib

variable {B : Backend} {P : Platform} {msg : SMB2Message} {o : Oracle} {s s' : Server B}
  {of : B.OpenFile} {c : DirClass}

/-! ## The property -/

/-- A request for all entries of a directory whose listing is cached, from the
index on, with a buffer that takes the entry. -/
structure AsksFrom (s : Server B) (msg : SMB2Message) (id : FileID) (entries : List FileInfo)
    (index : UInt32) (info : FileInfo) (c : DirClass) : Prop where
  queried : ∃ of, queriedDir s msg = some of ∧ of.id = id
  cached : ∃ d, s.dirStates.lookup id = some d ∧ d.entries = entries ∧ d.pattern = ['*']
  pattern_eq : msg.scan.pattern = ['*']
  index_specified : msg.queryDirectory.indexSpecified = true
  no_restart : msg.queryDirectory.restartScans = false
  index_eq : msg.queryDirectory.fileIndex = index
  class_eq : DirClass.ofCode msg.queryDirectory.infoClass = some c
  fits : alignTo8 (entrySize c info) ≤ msg.queryDirectory.outputBufferLength.toNat

/-- Such a request is answered with the entry first. -/
def Resumes (B : Backend) (P : Platform) (id : FileID) (entries : List FileInfo) (index : UInt32)
    (info : FileInfo) : Prop :=
  ∀ (s : Server B) (msg : SMB2Message) (c : DirClass), AsksFrom s msg id entries index info c →
    ∃ reply s' records, handleQueryDirectory P msg s = .ok reply s' ∧
      recordsIn c (reply.payload.drop 8) = some records ∧
      records.head? = some (info.record c index)

/-- The entry is that at the position of the listing, has the position as its
index and its file id, and is found again by its index. -/
def ReportedAt (B : Backend) (P : Platform) (id : FileID) (entries : List FileInfo) (c : DirClass)
    (r : DirRecord) (position : Nat) : Prop :=
  ∃ info, entries[position]? = some info ∧ r = info.record c r.fileIndex ∧
    r.fileIndex.toNat = position ∧ (∀ fileID, r.fileID = some fileID → fileID.toNat = position) ∧
    Resumes B P id entries r.fileIndex info

/-- The entries of the response to a request for all entries are reported with
their positions in the listing that is then cached. -/
def ReportsPositions (P : Platform) (s : Server B) (msg : SMB2Message) (_ : Oracle) : Prop :=
  msg.cmd = .queryDirectory → msg.scan.pattern = ['*'] →
    ∀ of c reply s' records, queriedDir s msg = some of →
      DirClass.ofCode msg.queryDirectory.infoClass = some c →
      handleQueryDirectory P msg s = .ok reply s' →
      recordsIn c (reply.payload.drop 8) = some records →
      (s'.dirStates.lookup of.id).map (·.entries) = some (enumEntries s of msg) ∧
      ∀ j r, records[j]? = some r →
        ReportedAt B P of.id (enumEntries s of msg) c r (enumStart s of msg + j)

/-- A request for all entries that is answered at all has one entry asked for,
or one left, or its buffer takes no second one; and its cursor is a number of
32 bits. -/
def AnswersOne (s : Server B) (msg : SMB2Message) (_ : Oracle) : Prop :=
  let req := msg.queryDirectory
  msg.cmd = .queryDirectory → msg.scan.pattern = ['*'] →
    ∀ of c first more, queriedDir s msg = some of →
      (preparedState s of msg).exhausted = false → DirClass.ofCode req.infoClass = some c →
      (enumEntries s of msg).drop (enumStart s of msg) = first :: more →
      alignTo8 (entrySize c first) ≤ req.outputBufferLength.toNat →
      enumStart s of msg < UInt32.size ∧
      (req.returnSingleEntry = true ∨ ∀ second ∈ more.head?, req.outputBufferLength.toNat <
        alignTo8 (entrySize c first) + alignTo8 (entrySize c second))

/-! ## One request -/

theorem batchSize_le_one_iff {req : QueryDirectoryRequest} {first : FileInfo}
    {more : List FileInfo} (hfit : alignTo8 (entrySize c first) ≤ req.outputBufferLength.toNat) :
    batchSize c req 0 (first :: more) ≤ 1 ↔
      req.returnSingleEntry = true ∨ ∀ second ∈ more.head?, req.outputBufferLength.toNat <
        alignTo8 (entrySize c first) + alignTo8 (entrySize c second) := by
  rw [batchSize, if_neg (by omega)]
  cases hsingle : req.returnSingleEntry with
  | true => simp
  | false =>
    cases more with
    | nil => simp [batchSize]
    | cons second more =>
      simp only [batchSize, hsingle, Bool.false_eq_true, if_false, false_or, List.head?_cons,
        Option.mem_some]
      constructor
      · rintro hle _ rfl
        by_contra hroom
        have hnot : ¬ 0 + alignTo8 (entrySize c first) + alignTo8 (entrySize c second) >
            req.outputBufferLength.toNat := by omega
        simp only [hnot, if_false] at hle
        omega
      · intro hover
        rw [if_pos (by have := hover second rfl; omega)]

/-- What a request for all entries is answered with. -/
theorem handleQueryDirectory_all {first : FileInfo} {more : List FileInfo}
    (hq : queriedDir s msg = some of) (hpattern : msg.scan.pattern = ['*'])
    (hex : (preparedState s of msg).exhausted = false)
    (hc : DirClass.ofCode msg.queryDirectory.infoClass = some c)
    (hrest : (enumEntries s of msg).drop (enumStart s of msg) = first :: more)
    (hfit : alignTo8 (entrySize c first) ≤ msg.queryDirectory.outputBufferLength.toNat) :
    let m := batchSize c msg.queryDirectory 0 (first :: more)
    ∃ reply s', handleQueryDirectory P msg s = .ok reply s' ∧
      recordsIn c (reply.payload.drop 8) =
        some (batchRecords c (enumStart s of msg) 0 ((first :: more).take m)) := by
  intro m
  have hne : enumEntries s of msg ≠ [] := by
    intro hnil
    rw [hnil, List.drop_nil] at hrest
    cases hrest
  have hd := slicedState_of_enum hq hex hne
  rw [hpattern] at hd
  have hmatched : filterEntries P ((enumEntries s of msg).drop (enumStart s of msg)) ['*'] =
      first :: more := hrest
  obtain ⟨w, hfill, -, -, hwalks⟩ := fillDirBuffer_records hc (enumStart s of msg) first more hfit
  rw [← hmatched] at hfill
  obtain ⟨s₁, hrun⟩ := handleQueryDirectory_answers hq hd
    (by rw [hmatched]; exact List.cons_ne_nil _ _) hfill
  exact ⟨_, s₁, hrun, hwalks.recordsIn_eq⟩

/-- A request that is answered is one of these. -/
theorem handleQueryDirectory_ok_all {reply : Reply} (hq : queriedDir s msg = some of)
    (hpattern : msg.scan.pattern = ['*']) (h : handleQueryDirectory P msg s = .ok reply s')
    (hc : DirClass.ofCode msg.queryDirectory.infoClass = some c) :
    ∃ first more, (preparedState s of msg).exhausted = false ∧
      (enumEntries s of msg).drop (enumStart s of msg) = first :: more ∧
      alignTo8 (entrySize c first) ≤ msg.queryDirectory.outputBufferLength.toNat ∧
      (s'.dirStates.lookup of.id).map (·.entries) = some (enumEntries s of msg) := by
  obtain ⟨of', d, w, hq', hd, -, hne, hfill, -, hstored⟩ := handleQueryDirectory_ok h
  cases hq.symm.trans hq'
  obtain rfl := slicedState_enum hq hd
  dsimp only at hne hfill hstored
  rw [hpattern] at hne hfill
  have hmatched : filterEntries P ((enumEntries s of msg).drop (enumStart s of msg)) ['*'] =
      (enumEntries s of msg).drop (enumStart s of msg) := rfl
  rw [hmatched] at hne hfill
  obtain ⟨first, more, hrest⟩ := List.exists_cons_of_ne_nil hne
  rw [hrest] at hfill
  obtain ⟨c', hc', hfit⟩ := fillDirBuffer_success hfill
  cases hc.symm.trans hc'
  refine ⟨first, more, ?_, hrest, hfit, ?_⟩
  · by_contra hex
    rw [Bool.not_eq_false] at hex
    simp [slicedState, hq, hex] at hd
  · rw [hstored]
    rfl

/-- An index that is the position of an entry is a key to it. -/
theorem resumes_of_position {id : FileID} {entries : List FileInfo} {index : UInt32}
    {info : FileInfo} (h : entries[index.toNat]? = some info) :
    Resumes B P id entries index info := by
  intro s msg c hasks
  obtain ⟨of, hq, rfl⟩ := hasks.queried
  obtain ⟨d, hd, rfl, hpattern⟩ := hasks.cached
  have hne : d.entries ≠ [] := by
    intro hnil
    rw [hnil] at h
    cases h
  have hprepared : preparedState s of msg =
      { d with position := index.toNat, exhausted := false } := by
    simp [preparedState, hd, DirEnumState.prepare, hasks.no_restart, hpattern, hasks.pattern_eq,
      hasks.index_specified, hasks.index_eq]
  have hentries : enumEntries s of msg = d.entries := by
    simp [enumEntries, hprepared, hne]
  have hstart : enumStart s of msg = index.toNat := by
    simp [enumStart, hprepared, hne]
  have hrest : (enumEntries s of msg).drop (enumStart s of msg) =
      info :: d.entries.drop (index.toNat + 1) := by
    obtain ⟨hlt, hget⟩ := List.getElem?_eq_some_iff.mp h
    rw [hentries, hstart, List.drop_eq_getElem_cons hlt, hget]
  obtain ⟨reply, s', hrun, hrecords⟩ := handleQueryDirectory_all (P := P) hq hasks.pattern_eq
    (by rw [hprepared]) hasks.class_eq hrest hasks.fits
  refine ⟨reply, s', _, hrun, hrecords, ?_⟩
  have hpos : 0 < batchSize c msg.queryDirectory 0
      (info :: d.entries.drop (index.toNat + 1)) := batchSize_pos hasks.fits
  rw [List.head?_eq_getElem?, getElem?_batchRecords, List.getElem?_take_of_lt hpos]
  simp [hstart]

theorem fileID_record {info : FileInfo} {index : UInt32} {fileID : UInt64}
    (h : (info.record c index).fileID = some fileID) : fileID.toNat = index.toNat := by
  unfold FileInfo.record at h
  dsimp only at h
  split at h
  · cases h
    exact UInt32.toNat_toUInt64 index
  · cases h

/-- **One request.** -/
theorem reportsPositions_iff (P : Platform) (s : Server B) (msg : SMB2Message) (o : Oracle) :
    ReportsPositions P s msg o ↔ AnswersOne s msg o := by
  constructor
  · intro hreports hcmd hpattern of c first more hq hex hc hrest hfit
    obtain ⟨reply, s', hrun, hrecords⟩ :=
      handleQueryDirectory_all (P := P) hq hpattern hex hc hrest hfit
    obtain ⟨-, hindex⟩ := hreports hcmd hpattern of c reply s' _ hq hc hrun hrecords
    have hpos : 0 < batchSize c msg.queryDirectory 0 (first :: more) := batchSize_pos hfit
    constructor
    · -- the first entry has the cursor as its index
      obtain ⟨-, -, -, hposition, -⟩ := hindex 0 _ (by
        rw [getElem?_batchRecords, List.getElem?_take_of_lt hpos]
        rfl)
      rw [← Nat.add_zero (enumStart s of msg), ← hposition]
      exact UInt32.toNat_lt _
    · rw [← batchSize_le_one_iff hfit]
      by_contra hmany
      -- a second entry has an index that is too large by one
      have hle := batchSize_le c msg.queryDirectory 0 (first :: more)
      obtain ⟨second, hsecond⟩ : ∃ second, (first :: more)[1]? = some second := by
        rw [← Option.isSome_iff_exists, isSome_getElem?]
        omega
      obtain ⟨-, -, -, hposition, -⟩ := hindex 1 (second.record c _) (by
        rw [getElem?_batchRecords, List.getElem?_take_of_lt (by omega), hsecond]
        rfl)
      dsimp only [FileInfo.record] at hposition
      rw [UInt32.toNat_ofNat'] at hposition
      omega
  · intro hone hcmd hpattern of c reply s' records hq hc hrun hrecords
    obtain ⟨first, more, hex, hrest, hfit, hcached⟩ :=
      handleQueryDirectory_ok_all hq hpattern hrun hc
    obtain ⟨hstart, hbatch⟩ := hone hcmd hpattern of c first more hq hex hc hrest hfit
    rw [← batchSize_le_one_iff hfit] at hbatch
    obtain ⟨reply', s₁, hrun', hrecords'⟩ :=
      handleQueryDirectory_all (P := P) hq hpattern hex hc hrest hfit
    cases hrun.symm.trans hrun'
    cases hrecords.symm.trans hrecords'
    refine ⟨hcached, ?_⟩
    intro j r hr
    rw [getElem?_batchRecords] at hr
    obtain ⟨info, hinfo, rfl⟩ := Option.map_eq_some_iff.mp hr
    -- the only entry is the first one
    obtain rfl : j = 0 := by
      have hlt := (List.getElem?_eq_some_iff.mp hinfo).1
      rw [List.length_take] at hlt
      omega
    have hentry : (enumEntries s of msg)[enumStart s of msg]? = some info := by
      have hhead := congrArg (·[0]?) hrest
      rw [List.getElem?_take_of_lt (batchSize_pos hfit)] at hinfo
      rwa [List.getElem?_drop, hinfo, Nat.add_zero] at hhead
    have hindex : (UInt32.ofNat (enumStart s of msg)).toNat = enumStart s of msg := by
      rw [UInt32.toNat_ofNat']
      exact Nat.mod_eq_of_lt hstart
    refine ⟨info, hentry, rfl, hindex, ?_, ?_⟩
    · intro fileID hfileID
      exact (fileID_record hfileID).trans hindex
    · apply resumes_of_position
      show (enumEntries s of msg)[(UInt32.ofNat (enumStart s of msg)).toNat]? = some info
      rw [hindex, hentry]

/-- **FileIndex.** In a run of the server the entries that are reported for the
pattern `*` have their positions as indices, and are found again by them,
exactly if every response has one entry. -/
theorem file_index_iff (P : Platform) (options : ServerOptions) (rand : Bytes)
    (disks : FsRef → B.Disk) (es : List Event) :
    Along (System.step P) (System.OnMessage (ReportsPositions P))
        (.initial options rand disks : System B) es ↔
      Along (System.step P) (System.OnMessage AnswersOne)
        (.initial options rand disks : System B) es := by
  apply along_congr
  intro sys e
  exact System.onMessage_congr (reportsPositions_iff P sys.server) e

/-- The names, the indices and the file ids that a request is answered with. -/
def reported (s : Server inodeFs) (msg : SMB2Message) : Option (List (Str × Nat × Option UInt64)) := do
  let reply ← valueOf (handleQueryDirectory samplePlatform msg s)
  let records ← recordsIn .idBoth (reply.payload.drop 8)
  return records.map fun r => (decodeUTF16LEToString r.name, r.fileIndex.toNat, r.fileID)

/-- The second entry of a response has the index 2, which is that of the third one. -/
theorem second_entry_not_resumed :
    let sys := listedSystem.step samplePlatform (sent (listedRequest 37 0 0 256))
    listedEntries.map (·.name) = [['g'], ['f'], ['h']] ∧
    reported listedSystem.server (listedRequest 37 0 0 256) =
      some [(['g'], 0, some 0), (['f'], 2, some 2)] ∧
    reported sys.server (listedRequest 37 4 2 128) = some [(['h'], 2, some 2)] := by
  decide +kernel

end Smbfs
