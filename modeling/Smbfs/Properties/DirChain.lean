import Smbfs.Properties.Enumeration
import Smbfs.System.DirRecords
import Smbfs.Wire.Utf16

/-!
The response of QUERY_DIRECTORY as a chain of entries.

`query_directory_chain`: a client that walks through the buffer of a response
with STATUS_SUCCESS finds the next matching entries, as many as the cursor of
the handle moves by, with their names, sizes and attributes.
-/

namespace Smbfs

open Smbfs.Lib

variable {B : Backend} {P : Platform} {msg : SMB2Message} {s s' : Server B}

/-- An entry as a client lists it. -/
structure ListedEntry where
  name : Str
  endOfFile : Option UInt64
  attributes : Option UInt32

/-- The name is decoded by the length that the entry has for it. -/
def DirRecord.listed (r : DirRecord) : ListedEntry :=
  ⟨decodeUTF16LEToString r.name, r.endOfFile, r.attributes⟩

/-- The entry of a file: size and attributes where the class carries them, and
the size of a directory is zero. -/
def FileInfo.listed (c : DirClass) (info : FileInfo) : ListedEntry where
  name := info.name
  endOfFile := if c.hasInfo then some (if info.isDir then 0 else info.size.toUInt64) else none
  attributes := if c.hasInfo then some (modeToAttributes info.mode) else none

/-- The response carries the chain of the entries, in at most `max` bytes. -/
structure CarriesChain (c : DirClass) (max : UInt32) (payload : Bytes) (infos : List FileInfo) :
    Prop where
  buffer : messageBuffer payload (getUint16 (payload.drop 2)).toNat
    (getUint32 (payload.drop 4)).toNat = some (payload.drop 8)
  length_eq : (getUint32 (payload.drop 4)).toNat = (payload.drop 8).length
  length_le : (getUint32 (payload.drop 4)).toNat ≤ max.toNat
  entries : ∃ records, Walks c (payload.drop 8) records ∧
    records.map DirRecord.listed = infos.map (FileInfo.listed c)

theorem listed_batchRecords {c : DirClass} (position j : Nat) {infos : List FileInfo}
    (h : ∀ info ∈ infos, Char.ofNat 0 ∉ info.name) :
    (batchRecords c position j infos).map DirRecord.listed = infos.map (FileInfo.listed c) := by
  induction infos generalizing j with
  | nil => rfl
  | cons info infos ih =>
    have hinfo : (info.record c (UInt32.ofNat (position + j + j))).listed = info.listed c := by
      simp only [FileInfo.record, DirRecord.listed, FileInfo.listed,
        decode_encode (h info List.mem_cons_self)]
    rw [batchRecords, List.map_cons, List.map_cons, hinfo,
      ih (j + 1) fun x hx => h x (List.mem_cons_of_mem _ hx)]

/-- **The chain.** A request that is answered with STATUS_SUCCESS moves the
cursor of its directory by the number of the entries in the response, which are
the next ones that match. -/
theorem query_directory_chain {reply : Reply} (h : handleQueryDirectory P msg s = .ok reply s')
    (hnames : ∀ d, slicedState s msg = some d → ∀ info ∈ d.entries, Char.ofNat 0 ∉ info.name) :
    let req := msg.queryDirectory
    ∃ of d c m, queriedDir s msg = some of ∧ slicedState s msg = some d ∧
      DirClass.ofCode req.infoClass = some c ∧ 0 < m ∧
      (s'.dirStates.lookup of.id).map (·.position) = some (d.position + m) ∧
      reply.status = .success ∧
      CarriesChain c req.outputBufferLength reply.payload
        ((filterEntries P (d.entries.drop d.position) d.pattern).take m) := by
  intro req
  obtain ⟨of, d, w, hq, hd, -, hne, hfill, rfl, hstored⟩ := handleQueryDirectory_ok h
  have hmatched : ∀ info ∈ filterEntries P (d.entries.drop d.position) d.pattern,
      Char.ofNat 0 ∉ info.name := by
    intro info hinfo
    rw [filterEntries_eq] at hinfo
    exact hnames d hd info (List.mem_of_mem_drop (List.mem_of_mem_filter hinfo))
  obtain ⟨entry, entries, hentries⟩ := List.exists_cons_of_ne_nil hne
  rw [hentries] at hfill hmatched
  obtain ⟨c, hc, hfit⟩ := fillDirBuffer_success hfill
  obtain ⟨w', hfill', hcount, hlen, hwalks⟩ :=
    fillDirBuffer_records hc d.position entry entries hfit
  obtain rfl : w = w' := congrArg Prod.snd (hfill.symm.trans hfill')
  have hlt : w.data.length < UInt32.size :=
    Nat.lt_of_le_of_lt hlen req.outputBufferLength.toNat_lt
  refine ⟨of, d, c, w.count, hq, hd, hc, ?_, ?_, rfl, ?_⟩
  · rw [hcount]
    exact batchSize_pos hfit
  · rw [hstored]
    rfl
  · refine ⟨queryDirectoryResponse_buffer hlt, queryDirectoryResponse_length hlt, ?_, _, hwalks, ?_⟩
    · exact (queryDirectoryResponse_length hlt).trans_le hlen
    · rw [hentries, hcount]
      exact listed_batchRecords d.position 0 fun info hinfo =>
        hmatched info (List.mem_of_mem_take hinfo)

/-- Two of the three entries of a directory fit the response. -/
theorem query_directory_chain_listed :
    let msg := listedRequest 37 0 0 256
    ∃ reply s', handleQueryDirectory samplePlatform msg listedSystem.server = .ok reply s' ∧
      ∃ of d c m, queriedDir listedSystem.server msg = some of ∧
        slicedState listedSystem.server msg = some d ∧
        DirClass.ofCode msg.queryDirectory.infoClass = some c ∧ 0 < m ∧
        (s'.dirStates.lookup of.id).map (·.position) = some (d.position + m) ∧
        reply.status = .success ∧
        CarriesChain c msg.queryDirectory.outputBufferLength reply.payload
          ((filterEntries samplePlatform (d.entries.drop d.position) d.pattern).take m) := by
  intro msg
  have hok : (valueOf (handleQueryDirectory samplePlatform msg listedSystem.server)).isSome = true := by
    decide +kernel
  have hnames : (slicedState listedSystem.server msg).all (fun d => d.entries.all fun info =>
      decide (Char.ofNat 0 ∉ info.name)) = true := by
    decide +kernel
  cases hrun : handleQueryDirectory samplePlatform msg listedSystem.server with
  | error e s' =>
    rw [hrun] at hok
    cases hok
  | ok reply s' =>
    refine ⟨reply, s', rfl, query_directory_chain hrun ?_⟩
    intro d hd info hinfo
    rw [hd] at hnames
    exact of_decide_eq_true (List.all_eq_true.mp hnames info hinfo)

end Smbfs
