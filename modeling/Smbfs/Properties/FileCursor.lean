import Smbfs.Client.FileRuns
import Smbfs.Client.MemShare
import Smbfs.Lib.Run

/-!
A `File` keeps its own copy of the position of the file it was opened on, and
`ReadAt` and `WriteAt` go back to that copy. Here the two positions are
compared over sequences of calls.

* `Cursors`: files that move by what they report to have transferred;
* `Keeps`: the calls after which the copy is right, told from what the share
  answers. A `Read` or `Write` that transfers bytes and fails is not one of them,
  nor is a `Truncate` to another place than the position;
* `truncateFile_pos`: where `Truncate` leaves the file;
* `coherent_step`: from a state with the right copy, these are the only ones;
* `coherent_iff`: the runs along which the copy stays right.
-/

namespace Smbfs.Client

open Smbfs.Lib CM

/-! ## Files with a position -/

/-- A share whose open files have a position. `Read` and `Write` advance it by the number
of bytes they report, also with an error. A `Seek` that succeeds sets it, from the end to the
size that `Stat` reports, and one that fails leaves it. -/
structure Cursors (S : Share) where
  pos : S.File → Int64
  read : ∀ d f n, pos (S.exec (.read f n) d).1.2 =
    pos f + Int64.ofNat (S.exec (.read f n) d).1.1.1.length
  write : ∀ d f data, pos (S.exec (.write f data) d).1.2 =
    pos f + Int64.ofNat (S.exec (.write f data) d).1.1.1
  write_le : ∀ d f data, (S.exec (.write f data) d).1.1.1 ≤ data.length
  seek : ∀ d f offset whence k, (S.exec (.seek f offset whence) d).1.1 = .ok k →
    pos (S.exec (.seek f offset whence) d).1.2 = k
  seek_fails : ∀ d f offset whence err, (S.exec (.seek f offset whence) d).1.1 = .error err →
    pos (S.exec (.seek f offset whence) d).1.2 = pos f
  seekStart : ∀ d f offset k, (S.exec (.seek f offset .start) d).1.1 = .ok k → k = offset
  seekEnd : ∀ d f info k, (S.exec (.fileStat f) d).1 = .ok info →
    (S.exec (.seek f 0 .fromEnd) (S.exec (.fileStat f) d).2).1.1 = .ok k → k = info.size

/-- The calls on an open file that use its position. -/
inductive CursorCall where
  | read (n : Nat)
  | write (data : Bytes)
  | seek (offset : Int64) (whence : Whence)
  | readAt (n : Nat) (off : Int64)
  | writeAt (data : Bytes) (off : Int64)
  | truncate (size : Int64)

/-- The calls that say where they read, write or cut. -/
def CursorCall.positional : CursorCall → Bool
  | .readAt .. | .writeAt .. | .truncate _ => true
  | .read _ | .write _ | .seek .. => false

variable {S : Share}

/-- The file after a call. -/
def CursorCall.run (f : File S) : CursorCall → CM S (File S)
  | .read n => Prod.snd <$> f.read n
  | .write data => Prod.snd <$> f.write data
  | .seek offset whence => Prod.snd <$> f.seek offset whence
  | .readAt n off => Prod.snd <$> f.readAt n off
  | .writeAt data off => Prod.snd <$> f.writeAt data off
  | .truncate size => Prod.snd <$> f.truncate size

/-- An open file and the client. -/
structure FileInUse (S : Share) where
  file : File S
  client : State S

namespace FileInUse

def step (s : FileInUse S) (c : CursorCall) : FileInUse S :=
  match c.run s.file s.client with
  | .ok f st => ⟨f, st⟩
  | .error _ st => ⟨s.file, st⟩

/-- The file is open, and its offset is the position on the share. -/
def Coherent (V : Cursors S) (s : FileInUse S) : Prop :=
  ∃ file, s.file.file = some file ∧ V.pos file = s.file.offset

/-- A call that reads or writes at `off` by `transfer` gets back to the offset: the share
cannot seek to `off`, it can seek back, or the transfer ends at the offset. -/
def GetsBack (s : FileInUse S) (file : S.File) (off : Int64)
    (transfer : S.File → S.Disk → (Nat × S.File) × S.Disk) : Prop :=
  let there := S.exec (.seek file off .start) s.client.disk
  let moved := transfer there.1.2 there.2
  there.1.1.isOk = true →
    (S.exec (.seek moved.1.2 s.file.offset .start) moved.2).1.1.isOk = true ∨
      off + Int64.ofNat moved.1.1 = s.file.offset

/-- A `Truncate` to `size` leaves the position: `Stat` fails or reports this size, the share
cannot seek to the end of the shorter file, or of the file to be extended, or the position is
the end that `Truncate` comes to: `size`, or less if the share does not take all the zeros. -/
def EndsHere (V : Cursors S) (d : S.Disk) (file : S.File) (size : Int64) : Prop :=
  let stat := S.exec (.fileStat file) d
  let cut := S.exec (.seek file size .start) stat.2
  let extended := S.exec (.seek file 0 .fromEnd) stat.2
  ∀ info, stat.1 = .ok info →
    let remaining := (size - info.size).toNatClampNeg
    size = info.size ∨
    size < info.size ∧ (cut.1.1.isOk = true → V.pos file = size) ∨
    info.size < size ∧ (extended.1.1.isOk = true → V.pos file =
      info.size + Int64.ofNat (S.zerosTaken remaining extended.1.2 remaining extended.2))

/-- A call keeps the offset right: `Read` and `Write` report no error with bytes
transferred, except `io.EOF`; `ReadAt` and `WriteAt` get back; `Truncate` ends at the
position. -/
def Keeps (V : Cursors S) (s : FileInUse S) (c : CursorCall) : Prop :=
  ∀ file, s.file.file = some file →
    match c with
    | .read n =>
      let (data, err) := (S.exec (.read file n) s.client.disk).1.1
      err = none ∨ err = some (.sentinel .eof) ∨ Int64.ofNat data.length = 0
    | .write data =>
      let (n, err) := (S.exec (.write file data) s.client.disk).1.1
      err = none ∨ Int64.ofNat n = 0
    | .seek .. => True
    | .readAt n off => GetsBack s file off (transferRead n)
    | .writeAt data off => GetsBack s file off (transferWrite data)
    | .truncate size => EndsHere V s.client.disk file size

/-! ## One call -/

variable {V : Cursors S} {s : FileInUse S} {file : S.File}

/-- Where a `Seek` from the start leaves the file. -/
theorem pos_seekStart (V : Cursors S) (d : S.Disk) (file : S.File) (offset : Int64) :
    V.pos (S.exec (.seek file offset .start) d).1.2 =
      if (S.exec (.seek file offset .start) d).1.1.isOk = true then offset else V.pos file := by
  cases h : (S.exec (.seek file offset .start) d).1.1 with
  | ok k => exact (V.seek _ _ _ _ k h).trans (V.seekStart _ _ _ k h)
  | error err => exact V.seek_fails _ _ _ _ err h

theorem coherent_mk {f : File S} {st : State S} (hf : f.file = some file) :
    Coherent V ⟨f, st⟩ ↔ V.pos file = f.offset := by
  simp [Coherent, hf]

section

variable (hf : s.file.file = some file) (hpos : V.pos file = s.file.offset)

include hf hpos

theorem coherent_step_read (n : Nat) : Coherent V (s.step (.read n)) ↔ Keeps V s (.read n) := by
  have hmove := V.read s.client.disk file n
  unfold step CursorCall.run File.read Keeps
  simp only [hf, Option.some.injEq, forall_eq', map_run, bind_run, CM.call]
  generalize S.exec (.read file n) s.client.disk = r at hmove ⊢
  obtain ⟨⟨⟨data, err⟩, file'⟩, d'⟩ := r
  dsimp only at hmove ⊢
  cases err with
  | none =>
    refine iff_of_true ((coherent_mk rfl).mpr ?_) (.inl rfl)
    rw [hmove, hpos]
  | some err =>
    dsimp only
    by_cases heof : err = .sentinel .eof
    · rw [if_pos heof]
      refine iff_of_true ((coherent_mk rfl).mpr ?_) (.inr (.inl (congrArg some heof)))
      rw [hmove, hpos]
    · rw [if_neg heof]
      refine (coherent_mk rfl).trans ?_
      rw [hmove, hpos, Int64.add_eq_left]
      simp [heof]

theorem coherent_step_write (data : Bytes) :
    Coherent V (s.step (.write data)) ↔ Keeps V s (.write data) := by
  have hmove := V.write s.client.disk file data
  unfold step CursorCall.run File.write Keeps
  simp only [hf, Option.some.injEq, forall_eq', map_run, bind_run, CM.call]
  generalize S.exec (.write file data) s.client.disk = r at hmove ⊢
  obtain ⟨⟨⟨n, err⟩, file'⟩, d'⟩ := r
  dsimp only at hmove ⊢
  cases err with
  | none =>
    refine iff_of_true ((coherent_mk rfl).mpr ?_) (.inl rfl)
    rw [hmove, hpos]
  | some err =>
    refine (coherent_mk rfl).trans ?_
    rw [hmove, hpos, Int64.add_eq_left]
    simp

/-- A `Seek` sets both, or neither. -/
theorem coherent_step_seek (offset : Int64) (whence : Whence) :
    Coherent V (s.step (.seek offset whence)) := by
  have hmove := V.seek s.client.disk file offset whence
  have hstay := V.seek_fails s.client.disk file offset whence
  unfold step CursorCall.run File.seek
  simp only [hf, map_run, bind_run, CM.call]
  generalize S.exec (.seek file offset whence) s.client.disk = r at hmove hstay ⊢
  obtain ⟨⟨r, file'⟩, d'⟩ := r
  dsimp only at hmove hstay ⊢
  cases r with
  | ok k => exact (coherent_mk rfl).mpr (hmove k rfl)
  | error err => exact (coherent_mk rfl).mpr ((hstay err rfl).trans hpos)

end

theorem coherent_transferAt (hpos : V.pos file = s.file.offset) (off : Int64)
    (transfer : S.File → S.Disk → (Nat × S.File) × S.Disk)
    (hmove : ∀ f d, V.pos (transfer f d).1.2 = V.pos f + Int64.ofNat (transfer f d).1.1) :
    V.pos (transferAt s.file file off transfer s.client.disk).1 = s.file.offset ↔
      GetsBack s file off transfer := by
  have hthere := pos_seekStart V s.client.disk file off
  unfold transferAt GetsBack
  rcases h₁ : S.exec (.seek file off .start) s.client.disk with ⟨⟨r, file₁⟩, d₁⟩
  rw [h₁] at hthere
  cases r with
  | error err => exact iff_of_true (hthere.trans hpos) fun h => by cases h
  | ok k =>
    have hmoved : V.pos (transfer file₁ d₁).1.2 = off + Int64.ofNat (transfer file₁ d₁).1.1 := by
      rw [hmove, show V.pos file₁ = off from hthere]
    dsimp only
    rw [pos_seekStart, hmoved]
    split
    · next hback => exact iff_of_true rfl fun _ => .inl hback
    · next hback => exact ⟨fun h _ => .inr h, fun h => (h rfl).resolve_left hback⟩

/-- The loop moves the file by what the share takes. -/
theorem writeZeros_pos (V : Cursors S) (path : Str) (fuel : Nat) (file : S.File) (remaining : Nat)
    (st : State S) : ∃ err file' d',
      File.writeZeros path fuel file remaining st = .ok (err, file') { st with disk := d' } ∧
      V.pos file' = V.pos file + Int64.ofNat (S.zerosTaken fuel file remaining st.disk) := by
  induction fuel generalizing file remaining st with
  | zero => exact ⟨none, file, st.disk, rfl, (Int64.add_zero _).symm⟩
  | succ fuel ih =>
    unfold File.writeZeros Share.zerosTaken
    by_cases hzero : remaining = 0
    · rw [if_pos hzero, if_pos hzero]
      exact ⟨none, file, st.disk, rfl, (Int64.add_zero _).symm⟩
    · rw [if_neg hzero, if_neg hzero]
      have hmove := V.write st.disk file (List.replicate (min remaining 4096) 0)
      dsimp only
      rcases hw : S.exec (.write file (List.replicate (min remaining 4096) 0)) st.disk with
        ⟨⟨⟨n, err⟩, file₁⟩, d₁⟩
      rw [hw] at hmove
      rw [bind_run, call_run hw]
      cases err with
      | some err => exact ⟨_, file₁, d₁, rfl, hmove⟩
      | none =>
        obtain ⟨err, file', d', hrun, hpos⟩ :=
          ih file₁ (remaining - min remaining 4096) { st with disk := d₁ }
        refine ⟨err, file', d', hrun, ?_⟩
        dsimp only at hmove ⊢
        rw [hpos, hmove, Int64.ofNat_add, Int64.add_assoc]

/-- A write of nothing leaves the file where it is. -/
theorem pos_writeNothing (V : Cursors S) (d : S.Disk) (file : S.File) :
    V.pos (S.exec (.write file []) d).1.2 = V.pos file := by
  rw [V.write, Nat.le_zero.mp (V.write_le d file []), show Int64.ofNat 0 = 0 from rfl,
    Int64.add_zero]

/-- `Truncate` leaves the file where it was, or at the end it comes to. -/
theorem truncateFile_pos (V : Cursors S) (path : Str) (file : S.File) (size : Int64)
    (st : State S) : ∃ err file' d',
      File.truncateFile path file size st = .ok (err, file') { st with disk := d' } ∧
      (V.pos file' = V.pos file ↔ EndsHere V st.disk file size) := by
  have hend := V.seekEnd st.disk file
  unfold EndsHere
  rw [File.truncateFile, bind_run]
  rcases hstat : S.exec (.fileStat file) st.disk with ⟨r, d₁⟩
  rw [hstat] at hend
  rw [call_run hstat]
  cases r with
  | error err => exact ⟨_, file, d₁, rfl, iff_of_true rfl fun _ h => by cases h⟩
  | ok info =>
    simp only [Except.ok.injEq, forall_eq']
    by_cases heq : size = info.size
    · rw [if_pos heq]
      exact ⟨_, file, d₁, rfl, iff_of_true rfl (.inl heq)⟩
    by_cases hlt : size < info.size
    · simp only [heq, hlt, Int64.lt_asymm hlt, if_true, if_false, false_or, true_and, false_and,
        or_false]
      have hcut := pos_seekStart V d₁ file size
      rcases hseek : S.exec (.seek file size .start) d₁ with ⟨⟨r, file₂⟩, d₂⟩
      rw [hseek] at hcut
      rw [bind_run, call_run hseek]
      cases r with
      | error err => exact ⟨_, file₂, d₂, rfl, iff_of_true hcut fun h => by cases h⟩
      | ok k =>
        have hpos : V.pos (S.exec (.write file₂ []) d₂).1.2 = size :=
          (pos_writeNothing V d₂ file₂).trans hcut
        refine ⟨_, _, _, rfl, ?_⟩
        rw [hpos]
        exact ⟨fun h _ => h.symm, fun h => (h rfl).symm⟩
    · have hgt : info.size < size := Int64.lt_of_le_of_ne (Int64.not_lt.mp hlt) (Ne.symm heq)
      simp only [heq, hlt, hgt, if_false, false_or, true_and, false_and]
      have hmove := V.seek d₁ file 0 .fromEnd
      have hstay := V.seek_fails d₁ file 0 .fromEnd
      rcases hseek : S.exec (.seek file 0 .fromEnd) d₁ with ⟨⟨r, file₂⟩, d₂⟩
      rw [hseek] at hmove hstay
      rw [bind_run, call_run hseek]
      cases r with
      | error err => exact ⟨_, file₂, d₂, rfl, iff_of_true (hstay err rfl) fun h => by cases h⟩
      | ok k =>
        obtain rfl : k = info.size := hend info k rfl (by rw [hseek])
        obtain ⟨err, file', d', hrun, hpos⟩ := writeZeros_pos V path
          (size - info.size).toNatClampNeg file₂ (size - info.size).toNatClampNeg
          { st with disk := d₂ }
        refine ⟨err, file', d', hrun, ?_⟩
        rw [hpos, hmove _ rfl]
        exact ⟨fun h _ => h.symm, fun h => (h rfl).symm⟩

theorem step_truncate (hf : s.file.file = some file) {size : Int64} {err : Option Err}
    {file' : S.File} {d' : S.Disk} (hrun : File.truncateFile s.file.path file size s.client =
      .ok (err, file') { s.client with disk := d' }) :
    s.step (.truncate size) =
      ⟨{ s.file with file := some file' }, { s.client with disk := d' }⟩ := by
  unfold step CursorCall.run File.truncate
  simp only [hf, map_run, bind_run, hrun]
  rfl

/-- From a state with the right offset, the calls that keep it are those of `Keeps`. -/
theorem coherent_step (h : Coherent V s) (c : CursorCall) :
    Coherent V (s.step c) ↔ Keeps V s c := by
  obtain ⟨file, hf, hpos⟩ := h
  cases c with
  | read n => exact coherent_step_read hf hpos n
  | write data => exact coherent_step_write hf hpos data
  | seek offset whence =>
    exact iff_of_true (coherent_step_seek hf hpos offset whence) fun _ _ => trivial
  | readAt n off =>
    obtain ⟨x, hrun⟩ := readAt_run hf n off s.client
    rw [step, CursorCall.run, map_run, hrun, coherent_mk rfl]
    simp only [Keeps, hf, Option.some.injEq, forall_eq']
    exact coherent_transferAt hpos off _ fun f d => V.read d f n
  | writeAt data off =>
    obtain ⟨x, hrun⟩ := writeAt_run hf data off s.client
    rw [step, CursorCall.run, map_run, hrun, coherent_mk rfl]
    simp only [Keeps, hf, Option.some.injEq, forall_eq']
    exact coherent_transferAt hpos off _ fun f d => V.write d f data
  | truncate size =>
    obtain ⟨err, file', d', hrun, hend⟩ := truncateFile_pos V s.file.path file size s.client
    rw [step_truncate hf hrun, coherent_mk rfl, ← hpos, hend]
    simp only [Keeps, hf, Option.some.injEq, forall_eq']

/-- The calls that say where they read, write or cut do not touch the offset. -/
theorem offset_step {c : CursorCall} (hc : c.positional = true) (hf : s.file.file = some file) :
    (s.step c).file.offset = s.file.offset := by
  cases c with
  | read n => cases hc
  | write data => cases hc
  | seek offset whence => cases hc
  | readAt n off =>
    obtain ⟨x, hrun⟩ := readAt_run hf n off s.client
    rw [step, CursorCall.run, map_run, hrun]
  | writeAt data off =>
    obtain ⟨x, hrun⟩ := writeAt_run hf data off s.client
    rw [step, CursorCall.run, map_run, hrun]
  | truncate size =>
    obtain ⟨⟨err, file'⟩, d', hrun⟩ := truncateFile_onlyCalls s.file.path file size s.client
    rw [step_truncate hf hrun]

/-- A call that says where it reads, writes or cuts does not move the file on the share. -/
def Unmoved (V : Cursors S) (s : FileInUse S) (c : CursorCall) : Prop :=
  c.positional = true → ∀ file file', s.file.file = some file →
    (s.step c).file.file = some file' → V.pos file' = V.pos file

theorem unmoved_of_coherent {c : CursorCall} (h : Coherent V s) (h' : Coherent V (s.step c)) :
    Unmoved V s c := by
  intro hc file file' hf hf'
  obtain ⟨_, heq, hpos⟩ := h
  obtain ⟨_, heq', hpos'⟩ := h'
  cases hf.symm.trans heq
  cases hf'.symm.trans heq'
  rw [hpos', hpos, offset_step hc hf]

end FileInUse

/-- **Coherence of the cursor.** Along a run from a state where the offset of an open file is
its position on the share, the two stay equal exactly if every call is one of `Keeps`; then
`ReadAt`, `WriteAt` and `Truncate` leave the position of the next `Read` or `Write`. -/
theorem coherent_iff (V : Cursors S) (s : FileInUse S) (hs : FileInUse.Coherent V s)
    (calls : List CursorCall) :
    (Always FileInUse.step (FileInUse.Coherent V) s calls ↔
        Along FileInUse.step (FileInUse.Keeps V) s calls) ∧
      (Along FileInUse.step (FileInUse.Keeps V) s calls →
        Along FileInUse.step (FileInUse.Unmoved V) s calls) := by
  have hkeep : ∀ (s : FileInUse S) c, FileInUse.Coherent V s → FileInUse.Keeps V s c →
      FileInUse.Coherent V (s.step c) := fun s c h => (FileInUse.coherent_step h c).mpr
  have hlose : ∀ (s : FileInUse S) c, FileInUse.Coherent V s → ¬ FileInUse.Keeps V s c →
      ¬ FileInUse.Coherent V (s.step c) := fun s c h => mt (FileInUse.coherent_step h c).mp
  refine ⟨always_iff_along hkeep (fun _ h => h) hlose hs, fun hk => ?_⟩
  exact along_imp hkeep (fun s c h hk => FileInUse.unmoved_of_coherent h (hkeep s c h hk)) hs hk

/-! ## The share in memory -/

namespace MemTree

variable (t : MemTree) (f : TreeFile)

theorem write_pos (data : Bytes) : Int64.ofNat (t.write f data).1.2.pos =
    Int64.ofNat f.pos + Int64.ofNat (t.write f data).1.1.1 := by
  obtain ⟨err, h⟩ | ⟨n, h⟩ := write_cases t f data
  · rw [h]
    exact (Int64.add_zero _).symm
  · rw [h]
    exact Int64.ofNat_add _ _

theorem write_le (data : Bytes) : (t.write f data).1.1.1 ≤ data.length := by
  obtain ⟨err, h⟩ | ⟨n, h⟩ := write_cases t f data <;> simp [h]

/-- A `Seek` of the share in memory fails and leaves the file, or goes where it says. -/
theorem seek_cases (offset : Int64) (whence : Whence) :
    t.seek f offset whence = (.error errInvalid, f) ∨
      t.seek f offset whence = (.ok (Int64.ofNat (t.seek f offset whence).2.pos),
        (t.seek f offset whence).2) := by
  unfold seek
  dsimp only
  generalize _ + offset.toInt = p
  by_cases hpos : p < 0
  · exact .inl (if_pos hpos)
  · rw [if_neg hpos]
    refine .inr (Prod.ext ?_ rfl)
    dsimp only
    rw [← Int64.ofInt_eq_ofNat, Int.toNat_of_nonneg (Int.not_lt.mp hpos)]

variable {t f} {offset k : Int64} {whence : Whence}

theorem seek_ok (hk : (t.seek f offset whence).1 = .ok k) :
    Int64.ofNat (t.seek f offset whence).2.pos = k := by
  obtain h | h := t.seek_cases f offset whence
  · rw [h] at hk
    cases hk
  · rw [h] at hk
    exact Except.ok.inj hk

theorem seek_error {err : Err} (herr : (t.seek f offset whence).1 = .error err) :
    (t.seek f offset whence).2 = f := by
  obtain h | h := t.seek_cases f offset whence
  · rw [h]
  · rw [h] at herr
    cases herr

theorem offset_of_seek_start (hk : (t.seek f offset .start).1 = .ok k) : k = offset := by
  unfold seek at hk
  dsimp only at hk
  split at hk
  · cases hk
  · cases hk
    rw [Int.zero_add, Int64.ofInt_toInt]

theorem size_of_seek_fromEnd {info : FileInfo} (hinfo : t.stat f.name = .ok info)
    (hk : (t.seek f 0 .fromEnd).1 = .ok k) : k = info.size := by
  have hsize : info.size = Int64.ofNat (t.content f).length := by
    unfold stat at hinfo
    unfold content
    split at hinfo
    · cases hinfo
    · next n hn =>
      cases hinfo
      rw [hn]
      cases n <;> rfl
  rw [seek, Int64.toInt_zero, Int.add_zero, if_neg (by omega)] at hk
  rw [hsize, ← Except.ok.inj hk, Int64.ofInt_eq_ofNat]

end MemTree

/-- The positions of the share in memory. -/
def memCursors : Cursors memShare where
  pos f := Int64.ofNat f.pos
  read _ _ _ := Int64.ofNat_add _ _
  write t f data := MemTree.write_pos t f data
  write_le t f data := MemTree.write_le t f data
  seek _ _ _ _ _ hk := MemTree.seek_ok hk
  seek_fails _ _ _ _ _ herr :=
    congrArg (fun f : TreeFile => Int64.ofNat f.pos) (MemTree.seek_error herr)
  seekStart t _ _ _ hk := MemTree.offset_of_seek_start (t := t) hk
  seekEnd _ _ _ _ hinfo hk := MemTree.size_of_seek_fromEnd hinfo hk

/-- A file of three bytes, just opened. -/
def threeBytes : FileInUse memShare :=
  ⟨File.opened 0 ⟨['a'], 0⟩ ['/', 'a'],
    State.new defaultCacheConfig [([['a']], .file [1, 2, 3] 0o644 0)]⟩

/-- Reading at an offset, reading on, and going back. -/
theorem coherent_iff_reading :
    Always FileInUse.step (FileInUse.Coherent memCursors) threeBytes
      [.read 2, .readAt 1 0, .seek 0 .start] := by
  refine (coherent_iff memCursors threeBytes ⟨⟨['a'], 0⟩, rfl, rfl⟩
    [.read 2, .readAt 1 0, .seek 0 .start]).1.mpr ⟨?_, ?_, ?_, trivial⟩
  · rintro _ ⟨⟩
    exact .inl rfl
  · rintro _ ⟨⟩
    exact fun _ => .inl rfl
  · exact fun _ _ => trivial

/-- Cutting the file after its first byte moves it there on the share, while the offset
stays at the start. -/
theorem coherent_iff_truncate :
    FileInUse.Coherent memCursors threeBytes ∧
      ¬ Always FileInUse.step (FileInUse.Coherent memCursors) threeBytes [.truncate 1] := by
  refine ⟨⟨⟨['a'], 0⟩, rfl, rfl⟩, ?_⟩
  rintro ⟨-, file, hf, hpos⟩
  have hcut : (threeBytes.step (.truncate 1)).file.file.map TreeFile.pos = some 1 := by
    decide +kernel
  have hoffset : (threeBytes.step (.truncate 1)).file.offset = 0 := by decide +kernel
  rw [hf] at hcut
  have hmoved : Int64.ofNat file.pos = Int64.ofNat 1 := congrArg Int64.ofNat (Option.some.inj hcut)
  rw [hoffset] at hpos
  exact absurd (hmoved.symm.trans hpos) (by decide)

end Smbfs.Client
