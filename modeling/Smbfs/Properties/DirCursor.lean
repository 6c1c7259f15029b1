import Smbfs.Properties.Enumeration

/-!
The cursor with which QUERY_DIRECTORY slices the cached entries.

A request with SMB2_INDEX_SPECIFIED sets the cursor to any 32-bit number; the
handler looks at it only where it reads the directory afresh.

* `CursorsInside`: the stored cursors do not exceed their entries;
* `inRange_iff`: from such a state a request slices in range exactly if its
  index is one of the cached listing;
* `cursor_safe_iff`: so over every run of the system.
-/

namespace Smbfs

open Smbfs.Lib

variable {B : Backend} {P : Platform} {k : ConnId} {msg : SMB2Message} {o : Oracle}
  {s : Server B} {of : B.OpenFile}

/-- The cursor that the request slices with is in range. -/
def SlicesInside (s : Server B) (msg : SMB2Message) (_ : Oracle) : Prop :=
  msg.cmd = .queryDirectory → ∀ d, slicedState s msg = some d → d.Inside

/-- An index of the request is not beyond the entries cached for its directory,
unless the request has them read again. -/
def IndexInside (s : Server B) (msg : SMB2Message) (_ : Oracle) : Prop :=
  let req := msg.queryDirectory
  msg.cmd = .queryDirectory → req.indexSpecified = true → req.restartScans = false →
    ∀ of d, queriedDir s msg = some of → s.dirStates.lookup of.id = some d → d.entries ≠ [] →
      d.pattern = msg.scan.pattern → req.fileIndex.toNat ≤ d.entries.length

/-- The stored cursors do not exceed their entries. -/
def CursorsInside (s : Server B) : Prop :=
  ∀ id d, s.dirStates.lookup id = some d → d.entries ≠ [] → d.Inside

/-! ## The state of a request -/

variable {d : DirEnumState}

/-- Entries that are left after `prepare` are those of the state, at its cursor
or at the index. -/
theorem prepare_entries {req : QueryDirectoryRequest} {pattern : Str}
    (h : (d.prepare req pattern).entries ≠ []) :
    req.restartScans = false ∧ d.pattern = pattern ∧
      d.prepare req pattern =
        if req.indexSpecified then { d with position := req.fileIndex.toNat, exhausted := false }
        else d := by
  have hrestart : req.restartScans = false := by
    by_contra hyes
    rw [Bool.not_eq_false] at hyes
    cases hindex : req.indexSpecified <;> simp [DirEnumState.prepare, hyes, hindex] at h
  have hpattern : d.pattern = pattern := by
    by_contra hne
    cases hindex : req.indexSpecified <;>
      simp [DirEnumState.prepare, hrestart, hne, hindex] at h
  exact ⟨hrestart, hpattern, by simp [DirEnumState.prepare, hrestart, hpattern]⟩

/-- Such entries are stored for the directory. -/
theorem preparedState_entries (h : (preparedState s of msg).entries ≠ []) :
    ∃ d, s.dirStates.lookup of.id = some d ∧ d.entries ≠ [] ∧
      msg.queryDirectory.restartScans = false ∧
      d.pattern = msg.scan.pattern ∧
      preparedState s of msg =
        if msg.queryDirectory.indexSpecified then
          { d with
            position := msg.queryDirectory.fileIndex.toNat
            exhausted := false }
        else d := by
  obtain ⟨hrestart, hpattern, hprepare⟩ := prepare_entries h
  cases hd : s.dirStates.lookup of.id with
  | none =>
    simp only [preparedState, hd, Option.getD_none, DirEnumState.prepare, hrestart] at h
    cases hindex : msg.queryDirectory.indexSpecified <;>
      simp [hindex] at h
  | some d =>
    rw [hd, Option.getD_some] at hpattern hprepare
    rw [preparedState, hd, Option.getD_some, hprepare] at h ⊢
    refine ⟨d, rfl, ?_, hrestart, hpattern, rfl⟩
    split at h <;> exact h

theorem slicedState_of_entries (hq : queriedDir s msg = some of)
    (hex : (preparedState s of msg).exhausted = false) (h : (preparedState s of msg).entries ≠ []) :
    slicedState s msg = some (preparedState s of msg) := by
  simp [slicedState, hq, hex, cachedEntries, h]

/-- **One request.** -/
theorem inRange_iff (h : CursorsInside s) : SlicesInside s msg o ↔ IndexInside s msg o := by
  constructor
  · intro hslices hcmd hindex hrestart of d hq hd hne hpattern
    have hprepared : preparedState s of msg =
        { d with
          position := msg.queryDirectory.fileIndex.toNat
          exhausted := false } := by
      simp [preparedState, hd, DirEnumState.prepare, hrestart, hpattern, hindex]
    have hsliced := slicedState_of_entries hq (by rw [hprepared]) (by rw [hprepared]; exact hne)
    have hinside := hslices hcmd _ hsliced
    rw [hprepared] at hinside
    exact hinside
  · intro hindex hcmd d hd
    rcases slicedState_cases hd with hzero | ⟨of, hq, rfl, hne⟩
    · rw [DirEnumState.Inside, hzero]
      exact Nat.zero_le _
    · obtain ⟨d, hstored, hne', hrestart, hpattern, hprepared⟩ := preparedState_entries hne
      rw [hprepared]
      split
      · next hyes => exact hindex hcmd hyes hrestart of d hq hstored hne' hpattern
      · exact h of.id d hstored hne'

/-! ## What a request leaves -/

theorem fillDirBuffer_count_le (req : QueryDirectoryRequest) (position : Nat)
    (entries : List FileInfo) (w : DirBuffer) :
    (fillDirBuffer req position entries w).2.count ≤ w.count + entries.length := by
  induction entries generalizing w with
  | nil => exact Nat.le_refl _
  | cons entry entries ih =>
    rw [fillDirBuffer, List.length_cons]
    cases formatDirEntry entry req.infoClass (UInt32.ofNat (position + w.count + w.count)) with
    | none => exact Nat.le_add_right _ _
    | some entryData =>
      have hpush : (w.push entryData).count = w.count + 1 := rfl
      have hrest := ih (w.push entryData)
      dsimp only
      split
      · exact Nat.le_add_right _ _
      · split
        · rw [hpush]
          omega
        · omega

/-- Only QUERY_DIRECTORY writes enumeration states. -/
theorem calm_dirStates : Calm (B := B) Server.dirStates :=
  ⟨fun _ _ _ => rfl, fun _ _ => rfl, fun _ _ _ _ => rfl⟩

namespace CursorsInside

section

variable (h : CursorsInside s)

include h

theorem store (id : FileID)
    (hd : d.entries ≠ [] → d.Inside) : CursorsInside (s.storeDirState id d) := by
  intro id' d' hlookup
  rw [Server.storeDirState, GoMap.lookup_insert] at hlookup
  split at hlookup
  · cases hlookup
    exact hd
  · exact h id' d' hlookup

theorem congr {t : Server B} (ht : t.dirStates = s.dirStates) : CursorsInside t := by
  intro id d hd
  rw [ht] at hd
  exact h id d hd

/-- The entries written move the cursor within the entries. -/
theorem answerFromEntries (hd : d.Inside)
    (req : QueryDirectoryRequest) : CursorsInside (stateOf (answerFromEntries P of req d s)) := by
  have hcount := fillDirBuffer_count_le req d.position
    (filterEntries P (d.entries.drop d.position) d.pattern) .empty
  have hmatched : (filterEntries P (d.entries.drop d.position) d.pattern).length ≤
      d.entries.length - d.position := by
    rw [filterEntries_eq, ← List.length_drop]
    exact List.length_filter_le _ _
  have hzero : DirBuffer.empty.count = 0 := rfl
  unfold DirEnumState.Inside at hd
  rw [run_answerFromEntries P of req hd]
  dsimp only
  split
  · exact h.store _ fun _ => hd
  · split
    all_goals
      next w hfill =>
        rw [hfill] at hcount
        dsimp only at hcount
        refine h.store _ fun _ => ?_
        simp only [DirEnumState.Inside]
        omega

/-- A state that is exhausted is the one that was stored. -/
theorem prepared (hex : (preparedState s of msg).exhausted = true)
    (hne : (preparedState s of msg).entries ≠ []) : (preparedState s of msg).Inside := by
  obtain ⟨d, hd, hne', -, -, hprepared⟩ := preparedState_entries hne
  rw [hprepared] at hex ⊢
  split at hex
  · cases hex
  · next hindex =>
    rw [if_neg hindex]
    exact h of.id d hd hne'

theorem handleQueryDirectory (P : Platform) (msg : SMB2Message) :
    CursorsInside (stateOf (handleQueryDirectory P msg s)) := by
  cases hq : queriedDir s msg with
  | none =>
    obtain ⟨st, hrun⟩ := handleQueryDirectory_refused (P := P) hq
    rw [hrun]
    exact h
  | some of =>
    rw [handleQueryDirectory_queried hq]
    dsimp only
    cases hex : (preparedState s of msg).exhausted with
    | true =>
      rw [if_pos rfl]
      exact h.store of.id (h.prepared hex)
    | false =>
      rw [if_neg Bool.false_ne_true, bind_run]
      rcases cachedEntries_cases of (preparedState s of msg) (s.dirStates.lookup of.id).isSome s with
        ⟨-, hrun⟩ | ⟨-, L, fs, c, -, hrun⟩ | ⟨hnil, e, s', hrun, -, hs'⟩
      · rw [hrun]
        dsimp only
        by_cases hd : (preparedState s of msg).Inside
        · exact h.answerFromEntries hd _
        · rw [answerFromEntries_outside hd]
          exact h
      · rw [hrun]
        have hexec : CursorsInside (s.exec fs c) := h.congr rfl
        exact hexec.answerFromEntries (Nat.zero_le _) _
      · rw [hrun]
        rcases hs' with hs' | hs'
        · exact h.congr hs'
        · have hstore : CursorsInside (s.storeDirState of.id (preparedState s of msg)) :=
            h.store of.id fun hne => absurd hnil hne
          exact hstore.congr hs'

theorem handleMessage : CursorsInside (handleMessage P k msg o s).2 := by
  by_cases hcmd : msg.cmd = .queryDirectory
  · rw [handleMessage_queryDirectory hcmd, respond_state]
    exact h.handleQueryDirectory P msg
  · rw [handleMessage_state]
    refine h.congr (calm_dirStates.route_keeps (fun _ _ _ => rfl) (fun _ _ _ _ => rfl) ?_ s)
    exact fun hyes => absurd hyes hcmd

end

theorem step {sys : System B} (h : CursorsInside sys.server) (e : Event) :
    CursorsInside (sys.step P e).server := by
  refine step_keeps ?_ ?_ ?_ ?_ ?_ h
  · intro s k c hs
    exact hs.congr rfl
  · intro k msg o c _ _ hs
    exact hs.handleMessage
  · intro fs options hs
    refine hs.congr ?_
    unfold Server.addShare
    split <;> rfl
  · intro name _ hs
    exact hs.congr rfl
  · intro now hs
    exact hs.congr (Frame.cleanupTick calm_dirStates now sys.server)

theorem initial (options : ServerOptions) (rand : Bytes) (disks : FsRef → B.Disk) :
    CursorsInside (System.initial options rand disks).server := by
  intro id d hd
  cases hd

end CursorsInside

/-- **The cursor.** In a run of the server the slices of QUERY_DIRECTORY are all
in range exactly if no request has an index beyond the entries that are cached
for its directory. -/
theorem cursor_safe_iff (P : Platform) (options : ServerOptions) (rand : Bytes)
    (disks : FsRef → B.Disk) (es : List Event) :
    Along (System.step P) (System.OnMessage SlicesInside) (.initial options rand disks) es ↔
      Along (System.step P) (System.OnMessage IndexInside) (.initial options rand disks) es := by
  refine along_iff_along (I := fun sys : System B => CursorsInside sys.server) ?_ ?_
    (.initial options rand disks)
  · intro sys e h
    exact h.step e
  · intro sys e h
    exact System.onMessage_congr (fun _ _ => inRange_iff h) e

/-- A request with an index, for the handle of `listedSystem`. -/
def indexedQuery (index : UInt32) : SMB2Message :=
  request 0x0E 7 1 (putUint16 33 ++ [1, 4] ++ putUint32 index ++ putFileID ⟨1, 1⟩ ++
    putUint16 96 ++ putUint16 2 ++ putUint32 128 ++ encodeStringToUTF16LE ['*'])

/-- After a first request has cached three entries, index 9 panics. -/
theorem index_beyond_entries :
    let sys := listedSystem.step samplePlatform (sent (queryDirectoryRequest 7 1 ⟨1, 1⟩ ['*'] 0))
    sys.crashed = false ∧
    (slicedState sys.server (indexedQuery 9)).map (fun d => (d.entries.length, d.position)) =
      some (3, 9) ∧
    (sys.step samplePlatform (sent (indexedQuery 9))).crashed = true := by
  decide +kernel

end Smbfs
