import Smbfs.System.Connection

/-!
A QUERY_DIRECTORY request part by part: the open directory it names, the
enumeration state it continues, the entries it reads if there are none, and
the answer from them.

* `handleQueryDirectory_refused`: a request that names no open directory
  changes nothing;
* `handleQueryDirectory_queried`: the others go on with `preparedState`;
* `cachedEntries_cases`, `run_answerFromEntries`: what the two last parts do;
* `handleQueryDirectory_ok`: a request that is answered.
-/

namespace Smbfs

open Smbfs.Lib

variable {B : Backend} {P : Platform} {k : ConnId} {msg : SMB2Message} {o : Oracle}
  {s s' : Server B}

/-! ## The directory of a request -/

/-- A handle as the requests name it, and the pattern of an enumeration. -/
structure Scan where
  sessionID : UInt64
  treeID : UInt32
  fileID : FileID
  pattern : Str

/-- The entry matches the pattern. -/
def matchesPattern (P : Platform) (pattern : Str) (info : FileInfo) : Bool :=
  pattern = ['*'] || matchPattern P info.name pattern

/-- The handle of the scan, if its session, its tree and the handle are there. -/
def Scan.handle (scan : Scan) (s : Server B) : Option B.OpenFile := do
  let r ← s.sessions.validateSession scan.sessionID
  let tree ← (s.sessions.heap r).trees.lookup scan.treeID
  let h ← (s.handlesOf tree.share).getByTree scan.fileID tree.id (s.sessions.heap r).id
  return (s.handlesOf tree.share).heap h

/-- The handle is an open directory. -/
structure Scan.OpenAt (scan : Scan) (s : Server B) (of : B.OpenFile) : Prop where
  handle_eq : scan.handle s = some of
  isDir : of.isDir = true

/-- What `ReadDir` of the handle returns. -/
def listing (s : Server B) (of : B.OpenFile) : Option (List FileInfo) :=
  match readDirEntries of s with
  | .ok entries _ => entries
  | .error .. => none

/-- The scan that a request belongs to. -/
def SMB2Message.scan (msg : SMB2Message) : Scan :=
  let req := msg.queryDirectory
  ⟨msg.header.sessionID, msg.header.treeID, req.fileID, req.pattern msg.payload⟩

/-- The open directory that a well-formed request names. -/
def queriedDir (s : Server B) (msg : SMB2Message) : Option B.OpenFile :=
  if wellFormed msg.payload 32 33 then (msg.scan.handle s).filter (·.isDir) else none

/-- The enumeration state of the directory after a restart, a change of the
pattern and the index of the request. -/
def preparedState (s : Server B) (of : B.OpenFile) (msg : SMB2Message) : DirEnumState :=
  ((s.dirStates.lookup of.id).getD ⟨[], 0, msg.scan.pattern, false⟩).prepare
    msg.queryDirectory msg.scan.pattern

/-- The state with which the handler slices the entries, if it comes to that. -/
def slicedState (s : Server B) (msg : SMB2Message) : Option DirEnumState := do
  let of ← queriedDir s msg
  let d := preparedState s of msg
  if d.exhausted then none
  else
    match cachedEntries of d (s.dirStates.lookup of.id).isSome s with
    | .ok d _ => some d
    | .error .. => none

/-- The entries that the request enumerates: those that are left for its
directory, or else what `ReadDir` returns. -/
def enumEntries (s : Server B) (of : B.OpenFile) (msg : SMB2Message) : List FileInfo :=
  let d := preparedState s of msg
  if d.entries = [] then (listing s of).getD [] else d.entries

/-- Where the request starts in them. -/
def enumStart (s : Server B) (of : B.OpenFile) (msg : SMB2Message) : Nat :=
  let d := preparedState s of msg
  if d.entries = [] then 0 else d.position

/-- `d.entries[d.position:]` is in range. -/
def DirEnumState.Inside (d : DirEnumState) : Prop := d.position ≤ d.entries.length

theorem filterEntries_eq (P : Platform) (L : List FileInfo) (pattern : Str) :
    filterEntries P L pattern = L.filter (matchesPattern P pattern) := by
  unfold filterEntries
  by_cases h : pattern = ['*']
  · rw [if_pos h]
    exact (List.filter_eq_self.mpr fun info _ => by simp [matchesPattern, h]).symm
  · rw [if_neg h]
    refine congrArg (List.filter · L) (funext fun info => ?_)
    simp [matchesPattern, h]

section Handler

variable {scan : Scan} {of : B.OpenFile}

theorem Scan.OpenAt.queriedDir (h : msg.scan.OpenAt s of)
    (hwell : wellFormed msg.payload 32 33 = true) : queriedDir s msg = some of := by
  rw [Smbfs.queriedDir, if_pos hwell, h.handle_eq, Option.filter_some, if_pos h.isDir]

theorem openAt_of_queriedDir (h : queriedDir s msg = some of) :
    wellFormed msg.payload 32 33 = true ∧ msg.scan.OpenAt s of := by
  unfold Smbfs.queriedDir at h
  split at h
  · next hwell =>
    obtain ⟨hhandle, hdir⟩ := Option.filter_eq_some_iff.mp h
    exact ⟨hwell, hhandle, hdir⟩
  · cases h

/-- The directory is the handle that the request names. -/
theorem target_of_queriedDir (h : queriedDir s msg = some of) :
    ∃ r tree, Target s msg r tree msg.queryDirectory.fileID of := by
  obtain ⟨r, hr, hhandle⟩ := Option.bind_eq_some_iff.mp (openAt_of_queriedDir h).2.handle_eq
  obtain ⟨tree, htree, hhandle⟩ := Option.bind_eq_some_iff.mp hhandle
  obtain ⟨ref, href, hof⟩ := Option.bind_eq_some_iff.mp hhandle
  obtain ⟨hlookup, hid, hsid⟩ := FileHandleMap.getByTree_eq_some href
  cases hof
  exact ⟨r, tree, ⟨hr, htree⟩, FileHandleMap.view_eq_some.mpr ⟨ref, hlookup, rfl⟩, hid, hsid⟩

/-- A request that names no open directory fails. -/
theorem handleQueryDirectory_refused (h : queriedDir s msg = none) :
    ∃ st, handleQueryDirectory P msg s = .error (.status st) s := by
  obtain ⟨st, -, hrun⟩ := M.stops_same (m := handleQueryDirectory P msg) (s := s) <| by
    refine onHandle_runs fun r tree ref of ht _ hwell => M.bind_failIf (by decide) fun hdir => ?_
    obtain ⟨ref, -, hheap, hget⟩ := ht.getByTree_eq
    rw [Smbfs.queriedDir, if_pos hwell] at h
    simp [Scan.handle, SMB2Message.scan, ht.session_eq, ht.tree_eq, hget, hheap,
      Option.filter_some] at h hdir
    cases h.symm.trans hdir
  exact ⟨st, hrun⟩

/-- A request on an open directory goes on with its enumeration state. -/
theorem handleQueryDirectory_queried (h : queriedDir s msg = some of) :
    handleQueryDirectory P msg s =
      (let req := msg.queryDirectory
      let d := preparedState s of msg
      if d.exhausted then do
        storeDirState of.id d
        M.fail .noMoreFiles
      else do
        let d ← cachedEntries of d (s.dirStates.lookup of.id).isSome
        answerFromEntries P of req d : M B Reply) s := by
  obtain ⟨hwell, hopen⟩ := openAt_of_queriedDir h
  obtain ⟨r, tree, ht⟩ := target_of_queriedDir h
  obtain ⟨ref, -, rfl, hget⟩ := ht.getByTree_eq
  simp only [handleQueryDirectory, onHandle, queryDirectoryFound, run_validateTree_bind,
    ht.session_eq, ht.tree_eq, run_checkRequest_bind, hwell, if_true, run_getByTree_bind, hget,
    M.run_failIf_bind, hopen.isDir, M.run_get_bind]
  rfl

/-! ## Reading the directory -/

/-- `ReadDir` of a directory that is open, or a nil pointer. -/
theorem readDirEntries_cases (of : B.OpenFile) (s : Server B) :
    (of.file = none ∧ readDirEntries of s = .error .crash s) ∨
      ∃ entries fs c, readDirEntries of s = .ok entries (s.exec fs c) := by
  unfold readDirEntries
  rw [M.run_deref_bind]
  cases of.file with
  | none => exact .inl ⟨rfl, rfl⟩
  | some f =>
    refine .inr ?_
    dsimp only
    rw [M.run_call_bind]
    cases (B.exec (.readDir f.2) (s.disks f.1)).1.2 with
    | none => exact ⟨_, f.1, .readDir f.2, rfl⟩
    | some err =>
      dsimp only
      cases err.eqEOF <;> exact ⟨_, f.1, .readDir f.2, rfl⟩

theorem Scan.OpenAt.storeDirState (h : scan.OpenAt s of) (id : FileID) (d : DirEnumState) :
    scan.OpenAt (s.storeDirState id d) of := ⟨h.handle_eq, h.isDir⟩

theorem Scan.OpenAt.exec (h : scan.OpenAt s of) (fs : FsRef) (c : FsCall B.File) :
    scan.OpenAt (s.exec fs c) of := ⟨h.handle_eq, h.isDir⟩

theorem readDirEntries_of_listing {L : List FileInfo} (h : listing s of = some L) :
    ∃ fs c, readDirEntries of s = .ok (some L) (s.exec fs c) := by
  unfold listing at h
  rcases readDirEntries_cases of s with ⟨-, hrun⟩ | ⟨entries, fs, c, hrun⟩
  · rw [hrun] at h
    cases h
  · rw [hrun] at h
    exact ⟨fs, c, by rw [hrun, ← h]⟩

/-- Entries that are there are taken; otherwise the directory is read, which may fail. -/
theorem cachedEntries_cases (of : B.OpenFile) (d : DirEnumState) (stored : Bool)
    (s : Server B) :
    (d.entries ≠ [] ∧ cachedEntries of d stored s = .ok d s) ∨
    (d.entries = [] ∧ ∃ L fs c, readDirEntries of s = .ok (some L) (s.exec fs c) ∧
      cachedEntries of d stored s = .ok { d with entries := L, position := 0 } (s.exec fs c)) ∨
    (d.entries = [] ∧ ∃ e s', cachedEntries of d stored s = .error e s' ∧
      (e = .crash → of.file = none) ∧
      (s'.dirStates = s.dirStates ∨ s'.dirStates = s.dirStates.insert of.id d)) := by
  unfold cachedEntries
  by_cases hentries : d.entries = []
  · refine .inr ?_
    rw [if_pos hentries, bind_run]
    rcases readDirEntries_cases of s with ⟨hfile, hrun⟩ | ⟨entries, fs, c, hrun⟩
    · rw [hrun]
      exact .inr ⟨hentries, _, _, rfl, fun _ => hfile, .inl rfl⟩
    · rw [hrun]
      cases entries with
      | some L => exact .inl ⟨hentries, L, fs, c, rfl, rfl⟩
      | none =>
        refine .inr ⟨hentries, ?_⟩
        cases stored with
        | false => exact ⟨_, _, rfl, nofun, .inl rfl⟩
        | true => exact ⟨_, _, rfl, nofun, .inr rfl⟩
  · rw [if_neg hentries]
    exact .inl ⟨hentries, rfl⟩

end Handler

/-! ## The answer -/

variable {d : DirEnumState} {of : B.OpenFile}

theorem run_answerFromEntries (P : Platform) (of : B.OpenFile)
    (req : QueryDirectoryRequest) (hn : d.position ≤ d.entries.length) :
    answerFromEntries P of req d s =
      let matched := filterEntries P (d.entries.drop d.position) d.pattern
      if matched.isEmpty then
        .error (.status .noMoreFiles) (s.storeDirState of.id { d with exhausted := true })
      else
        match fillDirBuffer req d.position matched .empty with
        | (some status, w) => .error (.status status)
            (s.storeDirState of.id { d with position := d.position + w.count })
        | (none, w) => .ok (.ok (queryDirectoryResponse w.data)) (s.storeDirState of.id
            { d with
              position := d.position + w.count
              exhausted := d.exhausted || d.position + w.count ≥ d.entries.length }) := by
  unfold answerFromEntries
  rw [if_pos hn, M.run_deref_bind]
  dsimp only
  split
  · rfl
  · split
    · next h => rw [h]; rfl
    · next h => rw [h]; rfl

/-- Beyond the entries the slice expression panics. -/
theorem answerFromEntries_outside {req : QueryDirectoryRequest}
    (hd : ¬ d.Inside) : answerFromEntries P of req d s = .error .crash s := by
  unfold DirEnumState.Inside at hd
  rw [answerFromEntries, M.run_deref_bind, if_neg hd]

/-- What the handler slices: the entries that the directory has, or those that
it reads. -/
theorem slicedState_source (h : slicedState s msg = some d) :
    ∃ of, queriedDir s msg = some of ∧ (preparedState s of msg).exhausted = false ∧
      (((preparedState s of msg).entries ≠ [] ∧ d = preparedState s of msg) ∨
        ((preparedState s of msg).entries = [] ∧ ∃ L, listing s of = some L ∧
          d = { preparedState s of msg with entries := L, position := 0 })) := by
  obtain ⟨of, hq, h⟩ := Option.bind_eq_some_iff.mp h
  dsimp only at h
  split at h
  · cases h
  · next hex =>
    refine ⟨of, hq, Bool.eq_false_iff.mpr hex, ?_⟩
    rcases cachedEntries_cases of (preparedState s of msg) (s.dirStates.lookup of.id).isSome s with
      ⟨hne, hrun⟩ | ⟨hnil, L, fs, c, hread, hrun⟩ | ⟨-, e, s', hrun, -⟩
    · rw [hrun] at h
      cases h
      exact .inl ⟨hne, rfl⟩
    · rw [hrun] at h
      cases h
      exact .inr ⟨hnil, L, by rw [listing, hread], rfl⟩
    · rw [hrun] at h
      cases h

/-- The handler slices with entries it has, or at the start of new ones. -/
theorem slicedState_cases (h : slicedState s msg = some d) :
    d.position = 0 ∨ ∃ of, queriedDir s msg = some of ∧ d = preparedState s of msg ∧
      d.entries ≠ [] := by
  obtain ⟨of, hq, -, ⟨hne, rfl⟩ | ⟨-, L, -, rfl⟩⟩ := slicedState_source h
  · exact .inr ⟨of, hq, rfl, hne⟩
  · exact .inl rfl

theorem preparedState_pattern (s : Server B) (of : B.OpenFile) (msg : SMB2Message) :
    (preparedState s of msg).pattern = msg.scan.pattern := by
  unfold preparedState DirEnumState.prepare
  dsimp only
  split <;> split <;> split <;> first | rfl | simp_all

section

variable (hq : queriedDir s msg = some of)

include hq

/-- The handler slices what the request enumerates. -/
theorem slicedState_enum (h : slicedState s msg = some d) :
    d = ⟨enumEntries s of msg, enumStart s of msg, msg.scan.pattern, false⟩ := by
  obtain ⟨of', hq', hex, hcase⟩ := slicedState_source h
  obtain rfl : of = of' := Option.some_inj.mp (hq.symm.trans hq')
  have hpattern := preparedState_pattern s of msg
  rcases hcase with ⟨hne, rfl⟩ | ⟨hnil, L, hlist, rfl⟩
  · simp only [enumEntries, enumStart, if_neg hne, ← hpattern, ← hex]
  · simp only [enumEntries, enumStart, if_pos hnil, hlist, Option.getD_some, hpattern, hex]

/-- Where no entries are left the directory is read, from its start. -/
theorem slicedState_read {L : List FileInfo} (hex : (preparedState s of msg).exhausted = false)
    (hnil : (preparedState s of msg).entries = []) (hlist : listing s of = some L) :
    slicedState s msg = some ⟨L, 0, msg.scan.pattern, false⟩ := by
  obtain ⟨fs, c, hread⟩ := readDirEntries_of_listing hlist
  simp only [slicedState, hq, hex, Option.bind_eq_bind, Option.bind_some, Bool.false_eq_true,
    if_false, cachedEntries, if_pos hnil]
  rw [bind_run, hread, ← preparedState_pattern s of msg, ← hex]
  rfl

theorem slicedState_of_enum
    (hex : (preparedState s of msg).exhausted = false) (hne : enumEntries s of msg ≠ []) :
    slicedState s msg =
      some ⟨enumEntries s of msg, enumStart s of msg, msg.scan.pattern, false⟩ := by
  by_cases hnil : (preparedState s of msg).entries = []
  · simp only [enumEntries, enumStart, if_pos hnil] at hne ⊢
    cases hlist : listing s of with
    | none =>
      rw [hlist] at hne
      exact absurd rfl hne
    | some L => exact slicedState_read hq hex hnil hlist
  · have hsliced : slicedState s msg = some (preparedState s of msg) := by
      simp [slicedState, hq, hex, cachedEntries, hnil]
    rw [hsliced, slicedState_enum hq hsliced]

/-- From the state it slices with, a request is answered from the entries. -/
theorem handleQueryDirectory_sliced (hd : slicedState s msg = some d) :
    ∃ s₁, handleQueryDirectory P msg s = answerFromEntries P of msg.queryDirectory d s₁ := by
  rw [handleQueryDirectory_queried hq]
  simp only [slicedState, hq, Option.bind_eq_bind, Option.bind_some] at hd
  cases hex : (preparedState s of msg).exhausted with
  | true =>
    rw [hex, if_pos rfl] at hd
    cases hd
  | false =>
    rw [hex, if_neg Bool.false_ne_true] at hd
    dsimp only
    rw [hex, if_neg Bool.false_ne_true, bind_run]
    split at hd
    · next d' s₁ hrun =>
      cases hd
      rw [hrun]
      exact ⟨s₁, rfl⟩
    · cases hd

/-- Without such a state it fails. -/
theorem handleQueryDirectory_unsliced
    (hd : slicedState s msg = none) : ∃ e s₁, handleQueryDirectory P msg s = .error e s₁ := by
  rw [handleQueryDirectory_queried hq]
  simp only [slicedState, hq, Option.bind_eq_bind, Option.bind_some] at hd
  dsimp only
  cases hex : (preparedState s of msg).exhausted with
  | true => exact ⟨_, _, rfl⟩
  | false =>
    rw [hex, if_neg Bool.false_ne_true] at hd
    rw [if_neg Bool.false_ne_true, bind_run]
    split at hd
    · cases hd
    · next e s₁ hrun =>
      rw [hrun]
      exact ⟨e, s₁, rfl⟩

end

/-- A request that is answered: the state it slices with, and the entries written. -/
theorem handleQueryDirectory_ok {reply : Reply} (h : handleQueryDirectory P msg s = .ok reply s') :
    ∃ of d w, queriedDir s msg = some of ∧ slicedState s msg = some d ∧ d.Inside ∧
      filterEntries P (d.entries.drop d.position) d.pattern ≠ [] ∧
      fillDirBuffer msg.queryDirectory d.position
        (filterEntries P (d.entries.drop d.position) d.pattern) .empty = (none, w) ∧
      reply = .ok (queryDirectoryResponse w.data) ∧
      s'.dirStates.lookup of.id = some { d with
        position := d.position + w.count
        exhausted := d.exhausted || d.position + w.count ≥ d.entries.length } := by
  cases hq : queriedDir s msg with
  | none =>
    obtain ⟨st, hrun⟩ := handleQueryDirectory_refused (P := P) hq
    rw [hrun] at h
    cases h
  | some of =>
    cases hd : slicedState s msg with
    | none =>
      obtain ⟨e, s₁, hrun⟩ := handleQueryDirectory_unsliced (P := P) hq hd
      rw [hrun] at h
      cases h
    | some d =>
      obtain ⟨s₁, hrun⟩ := handleQueryDirectory_sliced (P := P) hq hd
      rw [hrun] at h
      by_cases hinside : d.Inside
      · rw [run_answerFromEntries P of _ hinside] at h
        dsimp only at h
        split at h
        · cases h
        · next hne =>
          split at h
          · cases h
          · next w hfill =>
            cases h
            refine ⟨of, d, w, rfl, rfl, hinside, ?_, hfill, rfl, ?_⟩
            · intro hnil
              rw [hnil] at hne
              exact hne rfl
            · rw [Server.storeDirState, GoMap.lookup_insert, if_pos rfl]
      · rw [answerFromEntries_outside hinside] at h
        cases h

/-- The converse: entries that can be written are the answer. -/
theorem handleQueryDirectory_answers {w : DirBuffer}
    (hq : queriedDir s msg = some of) (hd : slicedState s msg = some d)
    (hne : filterEntries P (d.entries.drop d.position) d.pattern ≠ [])
    (hfill : fillDirBuffer msg.queryDirectory d.position
      (filterEntries P (d.entries.drop d.position) d.pattern) .empty = (none, w)) :
    ∃ s₁, handleQueryDirectory P msg s = .ok (.ok (queryDirectoryResponse w.data)) s₁ := by
  have hinside : d.Inside := by
    by_contra hout
    apply hne
    unfold DirEnumState.Inside at hout
    rw [List.drop_eq_nil_of_le (by omega), filterEntries_eq]
    rfl
  obtain ⟨s₁, hrun⟩ := handleQueryDirectory_sliced (P := P) hq hd
  rw [hrun, run_answerFromEntries P of _ hinside]
  dsimp only
  rw [if_neg (by simpa using hne), hfill]
  exact ⟨_, rfl⟩

theorem processMessage_queryDirectory (h : msg.cmd = .queryDirectory) :
    processMessage P k msg o s = respond k msg (handleQueryDirectory P msg s) := by
  rw [processMessage_of_quiet]
  · exact handleMessage_queryDirectory h
  · simp [h]
  · simp [h]
  · simp [h]

end Smbfs
