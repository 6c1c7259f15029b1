import Smbfs.Properties.Enumeration

/-!
Enumerations that start over, on directories that keep a read cursor.

A restart and a change of the pattern throw the cached entries away and read
the directory again, with `ReadDir(-1)` on the same open file. A file that
keeps a cursor, as `fs.ReadDirFile` asks for, then returns what it has not
returned before.

* `CursorDirs`: such files;
* `startsOver_iff`: a request starts over exactly if nothing stands before the
  cursor of its file;
* `restart_iff`: so over every run of the system.
-/

namespace Smbfs

open Smbfs.Lib

variable {B : Backend} {P : Platform} {msg : SMB2Message} {o : Oracle} {s : Server B}
  {of : B.OpenFile}

/-! ## Directories with a cursor -/

/-- Open directories whose `ReadDir(-1)` returns the entries from a cursor on
and leaves the cursor at the end. At the end it may return `io.EOF`. -/
structure CursorDirs (B : Backend) where
  reads : B.Disk → B.File → Prop
  contents : B.Disk → B.File → List (Except GoError FileInfo)
  cursor : B.Disk → B.File → Nat
  entries_eq : ∀ d f, reads d f →
    (B.exec (.readDir f) d).1.1 = (contents d f).drop (cursor d f)
  error_eof : ∀ d f, reads d f → ∀ err, (B.exec (.readDir f) d).1.2 = some err → err.eqEOF = true
  reads_after : ∀ d f, reads d f → reads (B.exec (.readDir f) d).2 f
  contents_after : ∀ d f, reads d f → contents (B.exec (.readDir f) d).2 f = contents d f
  cursor_after : ∀ d f, reads d f → (contents d f).length ≤ cursor (B.exec (.readDir f) d).2 f

namespace CursorDirs

variable (W : CursorDirs B) {d : B.Disk} {f : B.File}

/-- The entries of the directory that have information. -/
def infos (d : B.Disk) (f : B.File) : List FileInfo :=
  (W.contents d f).filterMap Except.toOption

/-- Those before the cursor. -/
def behind (d : B.Disk) (f : B.File) : List FileInfo :=
  ((W.contents d f).take (W.cursor d f)).filterMap Except.toOption

/-- Those from the cursor on. -/
def ahead (d : B.Disk) (f : B.File) : List FileInfo :=
  ((W.contents d f).drop (W.cursor d f)).filterMap Except.toOption

theorem behind_append_ahead : W.behind d f ++ W.ahead d f = W.infos d f := by
  rw [behind, ahead, ← List.filterMap_append, List.take_append_drop, infos]

theorem ahead_eq_infos_iff : W.ahead d f = W.infos d f ↔ W.behind d f = [] := by
  rw [← W.behind_append_ahead, List.self_eq_append_left]

theorem listing_eq {fs : FsRef} (hfile : of.file = some (fs, f)) (h : W.reads (s.disks fs) f) :
    listing s of = some (W.ahead (s.disks fs) f) := by
  have hread : readDirEntries of s =
      .ok (some (W.ahead (s.disks fs) f)) (s.exec fs (.readDir f)) := by
    unfold readDirEntries ahead
    rw [M.run_deref_bind, hfile, ← W.entries_eq _ _ h]
    dsimp only
    rw [M.run_call_bind]
    cases herr : (B.exec (.readDir f) (s.disks fs)).1.2 with
    | none => rfl
    | some err =>
      dsimp only
      rw [W.error_eof _ _ h err herr]
      rfl
  rw [listing, hread]

end CursorDirs

/-! ## One request -/

/-- The request restarts the enumeration of the directory, or changes its pattern. -/
def Restarts (s : Server B) (of : B.OpenFile) (msg : SMB2Message) : Prop :=
  msg.queryDirectory.restartScans = true ∨
    ∃ d, s.dirStates.lookup of.id = some d ∧ d.pattern ≠ msg.scan.pattern

/-- A request that restarts is answered from all entries of the directory, from
the first one on. -/
def StartsOver (W : CursorDirs B) (P : Platform) (s : Server B) (msg : SMB2Message)
    (_ : Oracle) : Prop :=
  msg.cmd = .queryDirectory → ∀ of fs f, queriedDir s msg = some of → of.file = some (fs, f) →
    W.reads (s.disks fs) f → Restarts s of msg →
    ∃ s₁, handleQueryDirectory P msg s = answerFromEntries P of msg.queryDirectory
        ⟨W.infos (s.disks fs) f, 0, msg.scan.pattern, false⟩ s₁

/-- A request that restarts finds nothing before the cursor of its file. -/
def FindsUnread (W : CursorDirs B) (s : Server B) (msg : SMB2Message) (_ : Oracle) : Prop :=
  msg.cmd = .queryDirectory → ∀ of fs f, queriedDir s msg = some of → of.file = some (fs, f) →
    W.reads (s.disks fs) f → Restarts s of msg → W.behind (s.disks fs) f = []

theorem Restarts.preparedState (h : Restarts s of msg) :
    (preparedState s of msg).entries = [] ∧ (preparedState s of msg).exhausted = false := by
  unfold Smbfs.preparedState DirEnumState.prepare
  rcases h with hrestart | ⟨d, hd, hpattern⟩
  · cases hindex : msg.queryDirectory.indexSpecified <;>
      simp [hrestart]
  · cases hrestart : msg.queryDirectory.restartScans <;>
      cases hindex : msg.queryDirectory.indexSpecified <;>
        simp [hd, hpattern]

/-- The entries that a request is answered from are then cached. -/
theorem answerFromEntries_cached (P : Platform) (of : B.OpenFile)
    (req : QueryDirectoryRequest) {d : DirEnumState} (hd : d.Inside) (s : Server B) :
    ((stateOf (answerFromEntries P of req d s)).dirStates.lookup of.id).map (·.entries) =
      some d.entries := by
  rw [run_answerFromEntries P of req hd]
  dsimp only
  split
  · simp [stateOf, Server.storeDirState]
  · split <;> simp [stateOf, Server.storeDirState]

/-- **One request.** -/
theorem startsOver_iff (W : CursorDirs B) (P : Platform) (s : Server B) (msg : SMB2Message)
    (o : Oracle) : StartsOver W P s msg o ↔ FindsUnread W s msg o := by
  -- the handler goes on from what is ahead of the cursor
  have hruns : ∀ of fs f, queriedDir s msg = some of → of.file = some (fs, f) →
      W.reads (s.disks fs) f → Restarts s of msg → ∃ s₁, handleQueryDirectory P msg s =
        answerFromEntries P of msg.queryDirectory
          ⟨W.ahead (s.disks fs) f, 0, msg.scan.pattern, false⟩ s₁ := by
    intro of fs f hq hfile hreads hrestarts
    obtain ⟨hnil, hex⟩ := hrestarts.preparedState
    exact handleQueryDirectory_sliced hq
      (slicedState_read hq hex hnil (W.listing_eq hfile hreads))
  constructor
  · intro hover hcmd of fs f hq hfile hreads hrestarts
    obtain ⟨s₁, hall⟩ := hover hcmd of fs f hq hfile hreads hrestarts
    obtain ⟨s₂, hahead⟩ := hruns of fs f hq hfile hreads hrestarts
    rw [← W.ahead_eq_infos_iff]
    have hcached := answerFromEntries_cached P of msg.queryDirectory
      (d := ⟨W.infos (s.disks fs) f, 0, msg.scan.pattern, false⟩) (Nat.zero_le _) s₁
    rw [← hall, hahead, answerFromEntries_cached P of _ (Nat.zero_le _) s₂] at hcached
    exact Option.some.inj hcached
  · intro hunread hcmd of fs f hq hfile hreads hrestarts
    have hbehind := hunread hcmd of fs f hq hfile hreads hrestarts
    rw [← W.ahead_eq_infos_iff] at hbehind
    rw [← hbehind]
    exact hruns of fs f hq hfile hreads hrestarts

/-! ## The run -/

/-- **Restart.** In a run of the server the requests that restart start over
exactly if they find nothing before the cursors of their files. -/
theorem restart_iff (W : CursorDirs B) (P : Platform) (options : ServerOptions) (rand : Bytes)
    (disks : FsRef → B.Disk) (es : List Event) :
    Along (System.step P) (System.OnMessage (StartsOver W P)) (.initial options rand disks) es ↔
      Along (System.step P) (System.OnMessage (FindsUnread W)) (.initial options rand disks) es := by
  apply along_congr
  intro sys e
  exact System.onMessage_congr (startsOver_iff W P sys.server) e

/-! ## A filesystem with cursors -/

namespace InodeDisk

/-- The calls on the filesystem with inodes, with the offset of a directory as its read
cursor. -/
def execCursor : (c : FsCall Nat) → InodeDisk → c.Reply × InodeDisk
  | .readDir f, d =>
    match d.inode f with
    | some i => ((((d.entries i).map .ok).drop (d.cursor f), none), d.seekTo f (d.entries i).length)
    | none => (([], some errClosed), d)
  | c, d => exec c d

theorem tree_execCursor (c : FsCall Nat) (d : InodeDisk) (hc : c.mutates = false) :
    (execCursor c d).2.tree = d.tree := by
  cases c with
  | readDir f =>
    simp only [execCursor]
    split <;> rfl
  | _ => exact tree_exec _ d hc

end InodeDisk

@[reducible] def cursorFs : Backend :=
  { inodeFs with exec := InodeDisk.execCursor, content_exec := InodeDisk.tree_execCursor }

/-- Its open files are directories with a cursor. -/
def cursorDirs : CursorDirs cursorFs where
  reads d f := ∃ i, d.inode f = some i
  contents d f := ((d.inode f).elim [] d.entries).map .ok
  cursor := InodeDisk.cursor
  entries_eq := by
    rintro d f ⟨i, hi⟩
    simp only [InodeDisk.execCursor, hi, Option.elim_some]
  error_eof := by
    rintro d f ⟨i, hi⟩ err herr
    simp only [InodeDisk.execCursor, hi] at herr
    cases herr
  reads_after := by
    rintro d f ⟨i, hi⟩
    simp only [InodeDisk.execCursor, hi, InodeDisk.inode_seekTo]
    exact ⟨i, rfl⟩
  contents_after := by
    rintro d f ⟨i, hi⟩
    simp only [InodeDisk.execCursor, hi, InodeDisk.inode_seekTo]
    rfl
  cursor_after := by
    rintro d f ⟨i, hi⟩
    simp only [InodeDisk.execCursor, hi, InodeDisk.cursor_seekTo hi, Option.elim_some,
      List.length_map, Nat.le_refl]

/-- A guest opens the root with the files `g`, `f` and `h`. -/
def rootOpened : List Event := sampleLogin false ++ [sent (createRequest 7 1 [] 1 7 1 1)]

def cursorSystem : System cursorFs :=
  System.run samplePlatform (.initial sampleOptions (zeros 16) fun _ => listedDisk) rootOpened

/-- A restart by the first request for a handle starts over: nothing is read yet. -/
theorem restart_of_unread :
    Along (System.step samplePlatform) (System.OnMessage (StartsOver cursorDirs samplePlatform))
      (.initial sampleOptions (zeros 16) fun _ => listedDisk)
      (rootOpened ++ [sent (listedRequest 1 1 0 256)]) := by
  have hfile : (queriedDir cursorSystem.server (listedRequest 1 1 0 256)).map OpenFile.file =
      some (some (0, (0 : Nat))) := by decide +kernel
  have hnone : cursorDirs.behind (cursorSystem.server.disks 0) (0 : Nat) = [] := by decide +kernel
  refine (restart_iff cursorDirs _ _ _ _ _).mpr ⟨trivial, ?_, ?_, ?_, ?_, trivial⟩
  · exact fun _ h => absurd h (by decide)
  · exact fun _ h => absurd h (by decide)
  · exact fun _ h => absurd h (by decide)
  · intro _ _ of fs f hof hf _ _
    change queriedDir cursorSystem.server _ = _ at hof
    rw [hof, Option.map_some, hf] at hfile
    cases hfile
    exact hnone

/-- After an enumeration of the three entries neither a restart nor a new
pattern finds any. -/
theorem restart_finds_nothing :
    let queries := List.replicate 2 (sent (listedRequest 1 0 0 256))
    let sys := cursorSystem.run samplePlatform queries
    (cursorDirs.infos (sys.server.disks 0) (0 : Nat)).map (·.name) = [['g'], ['f'], ['h']] ∧
    (cursorDirs.ahead (sys.server.disks 0) (0 : Nat)).map (·.name) = [] ∧
    enumerated samplePlatform cursorSystem queries =
      some [encodeStringToUTF16LE ['g'], encodeStringToUTF16LE ['f'],
        encodeStringToUTF16LE ['h']] ∧
    enumerated samplePlatform sys [sent (listedRequest 1 1 0 256)] = some [] ∧
    enumerated samplePlatform sys [sent (queryDirectoryRequest 7 1 ⟨1, 1⟩ ['f'] 0)] = some [] := by
  decide +kernel

end Smbfs
