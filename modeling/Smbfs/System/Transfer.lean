import Smbfs.Server.ObjectFs
import Smbfs.System.Request

/-!
READ and WRITE on files that are arrays of bytes. Both move the cursor of the file
and transfer from there.

* `storeOf`: the bytes of every object;
* `Alike`: servers with the same open files, but for the times of the records;
* `readFound_eq`, `writeFound_eq`: what the handlers answer, and the state they leave.
-/

namespace Smbfs

open Smbfs.Lib

variable {B : Backend} {F : ObjectFs B} {cursor : B.Disk → B.File → Nat} {msg : SMB2Message}
  {o : Oracle} {s s' : Server B} {fs : FsRef} {f : B.File} {x : F.Obj} {data : Bytes}

/-! ## Open files and bytes -/

/-- The bytes of a file; a directory has none. -/
def Node.bytes : Node → Bytes
  | file data => data
  | dir => []

/-- The bytes of every object of every filesystem. -/
def storeOf (F : ObjectFs B) (s : Server B) (p : FsRef × F.Obj) : Bytes :=
  (F.node (B.content (s.disks p.1)) p.2).bytes

/-- The record without the time of its last access. -/
def OpenFile.untimed (of : B.OpenFile) : B.OpenFile := { of with lastAccess := 0 }

/-- The sessions, the records of the handles, the open files and the kinds of the
objects are the same. -/
structure Alike (F : ObjectFs B) (s s' : Server B) : Prop where
  options_eq : s'.options = s.options
  sessions_eq : s'.sessions = s.sessions
  views : ∀ sh id, ((s'.handlesOf sh).view id).map OpenFile.untimed =
    ((s.handlesOf sh).view id).map OpenFile.untimed
  opened_eq : ∀ fs, F.opened (s'.disks fs) = F.opened (s.disks fs)
  isDir_eq : ∀ fs x, (F.node (B.content (s'.disks fs)) x).isDir =
    (F.node (B.content (s.disks fs)) x).isDir

theorem Alike.refl (F : ObjectFs B) (s : Server B) : Alike F s s :=
  ⟨rfl, rfl, fun _ _ => rfl, fun _ => rfl, fun _ _ => rfl⟩

theorem Alike.trans {t : Server B} (h : Alike F s t) (h' : Alike F t s') : Alike F s s' :=
  ⟨h'.options_eq.trans h.options_eq, h'.sessions_eq.trans h.sessions_eq,
    fun sh id => (h'.views sh id).trans (h.views sh id),
    fun fs => (h'.opened_eq fs).trans (h.opened_eq fs),
    fun fs x => (h'.isDir_eq fs x).trans (h.isDir_eq fs x)⟩

theorem Alike.touched (hwf : ∀ sh, (s.handlesOf sh).WF) (sh : ShareRef) (id : FileID) (o : Oracle) :
    Alike F s (s.modifyHandles sh fun m => m.updateLastAccess id o.now) := by
  refine ⟨rfl, rfl, fun sh' id' => ?_, fun _ => rfl, fun _ _ => rfl⟩
  rw [Server.handlesOf_modifyHandles]
  split
  · next hsh =>
    rw [hsh, FileHandleMap.updateLastAccess, (hwf sh).view_modifyID]
    split
    · next hid =>
      rw [hid, Option.map_map]
      rfl
    · rfl
  · rfl

variable {c : FsCall B.File}

theorem opened_exec_eq
    (ho : F.opened (B.exec c (s.disks fs)).2 = F.opened (s.disks fs)) (fs' : FsRef) :
    F.opened ((s.exec fs c).disks fs') = F.opened (s.disks fs') := by
  by_cases hfs : fs' = fs
  · rw [hfs, Server.disks_exec, ho]
  · rw [Server.disks_exec_of_ne s c hfs]

/-- A call that keeps the open files and the content. -/
theorem Alike.exec (hc : c.mutates = false)
    (ho : F.opened (B.exec c (s.disks fs)).2 = F.opened (s.disks fs)) :
    Alike F s (s.exec fs c) := by
  refine ⟨rfl, rfl, fun _ _ => rfl, opened_exec_eq ho, fun fs' x => ?_⟩
  rw [s.content_exec fs hc]

theorem storeOf_exec (hc : c.mutates = false) (fs : FsRef) :
    storeOf F (s.exec fs c) = storeOf F s := by
  funext p
  rw [storeOf, storeOf, s.content_exec fs hc]

variable {new : Bytes}

/-- A call that gives a file other data. -/
theorem Alike.rewrites (ho : F.opened (B.exec c (s.disks fs)).2 = F.opened (s.disks fs))
    (hre : F.Rewrites (B.content (s.disks fs)) (B.content (B.exec c (s.disks fs)).2) x new) :
    Alike F s (s.exec fs c) := by
  refine ⟨rfl, rfl, fun _ _ => rfl, opened_exec_eq ho, fun fs' y => ?_⟩
  by_cases hfs : fs' = fs
  · rw [hfs, Server.disks_exec]
    by_cases hy : y = x
    · rw [hy, hre.node_eq, hre.was_file]
      rfl
    · rw [hre.others y hy]
  · rw [Server.disks_exec_of_ne s c hfs]

theorem storeOf_rewrites [DecidableEq F.Obj]
    (hre : F.Rewrites (B.content (s.disks fs)) (B.content (B.exec c (s.disks fs)).2) x new) :
    storeOf F (s.exec fs c) = Function.update (storeOf F s) (fs, x) new := by
  funext p
  obtain ⟨fs', y⟩ := p
  by_cases hfs : fs' = fs
  · subst hfs
    rw [storeOf, Server.disks_exec]
    by_cases hy : y = x
    · rw [hy, Function.update_self, hre.node_eq]
      rfl
    · rw [Function.update_of_ne (fun h => hy (Prod.mk.inj h).2), hre.others y hy]
      rfl
  · rw [Function.update_of_ne (fun h => hfs (Prod.mk.inj h).1), storeOf,
      Server.disks_exec_of_ne s c hfs]
    rfl

/-! ## Seeking -/

/-- `2^63`: the offsets below it are those that `int64` keeps. -/
def offsetLimit : Nat := 0x8000000000000000

variable {offset : UInt64}

theorem toInt64_toInt (h : offset.toNat < offsetLimit) : offset.toInt64.toInt = offset.toNat := by
  refine BitVec.toInt_eq_toNat_of_lt ?_
  have hnat : offset.toBitVec.toNat = offset.toNat := rfl
  unfold offsetLimit at h
  change 2 * offset.toBitVec.toNat < _
  omega

theorem toInt64_neg (h : offsetLimit ≤ offset.toNat) : offset.toInt64.toInt < 0 := by
  have hnat : offset.toBitVec.toNat = offset.toNat := rfl
  have hlt := offset.toNat_lt
  unfold offsetLimit at h
  change offset.toBitVec.toInt < 0
  rw [BitVec.toInt_eq_toNat_cond]
  split <;> omega

section Seek

variable (hB : F.ByteFiles cursor) (hx : F.opened (s.disks fs) f = some x)
  (hn : F.node (B.content (s.disks fs)) x = .file data)

include hB hx hn

/-- `Seek` moves the cursor of the file to the offset. -/
theorem run_seekStart_bind {α : Type} (h : offset.toNat < offsetLimit) (g : Unit → M B α) :
    (seekStart (some (fs, f)) offset >>= g) s = g () (s.exec fs (.seek f offset.toInt64 0)) := by
  obtain ⟨hseeker, hnone, -⟩ := hB.seek_ok _ _ _ _ offset.toInt64 hx hn
    (by rw [toInt64_toInt h]; exact Int.natCast_nonneg _)
  rw [bind_run, seekStart]
  dsimp only
  rw [if_pos hseeker, M.run_call_bind]
  cases hres : (B.exec (.seek f offset.toInt64 0) (s.disks fs)).1 with
  | mk n err =>
    rw [hres] at hnone
    cases hnone
    rfl

end Seek

/-! ## READ -/

/-- The number of bytes a READ asks for, at most `MaxReadSize`. -/
def readLength (s : Server B) (req : ReadRequest) : Nat :=
  min req.length.toNat s.options.maxReadSize.toNat

theorem readLength_eq (s : Server B) (req : ReadRequest) :
    (if req.length > s.options.maxReadSize then s.options.maxReadSize else req.length).toNat =
      readLength s req := by
  unfold readLength
  split
  · next h => exact (Nat.min_eq_right (Nat.le_of_lt h)).symm
  · next h => exact (Nat.min_eq_left (Nat.le_of_not_lt h)).symm

/-- Where `Read` fails at the end of the file only, READ fails where it has no bytes. -/
theorem run_read {n : Nat} {out : Bytes} (hout : (B.exec (.read f n) (s.disks fs)).1.1 = out)
    (herr : ∀ e, (B.exec (.read f n) (s.disks fs)).1.2 = some e → e.eqEOF = true) :
    (do
      let out ← M.call fs (.read f n)
      checkRead out.1 out.2
      return Reply.ok (readResponse out.1)) s =
      if out.isEmpty then .error (.status .endOfFile) (s.exec fs (.read f n))
      else .ok (Reply.ok (readResponse out)) (s.exec fs (.read f n)) := by
  have hcheck : checkRead (B := B) out (B.exec (.read f n) (s.disks fs)).1.2 =
      M.failIf out.isEmpty .endOfFile := by
    cases hres : (B.exec (.read f n) (s.disks fs)).1.2 with
    | none => rfl
    | some e => exact if_pos (herr e hres)
  rw [M.run_call_bind, hout, hcheck, M.run_failIf_bind]
  rfl

/-- The server after a READ or a WRITE has moved the cursor. -/
def seeked (s : Server B) (o : Oracle) (sh : ShareRef) (id : FileID) (fs : FsRef) (f : B.File)
    (offset : UInt64) : Server B :=
  (s.modifyHandles sh fun m => m.updateLastAccess id o.now).exec fs (.seek f offset.toInt64 0)

section Transfer

variable {tree : TreeConnection} {ref : HandleRef} {of : B.OpenFile}
  (hB : F.ByteFiles cursor) (hfile : of.file = some (fs, f))
  (hx : F.opened (s.disks fs) f = some x) (hn : F.node (B.content (s.disks fs)) x = .file data)

include hB hx hn

theorem seeked_spec (o : Oracle) (sh : ShareRef) (id : FileID)
    (hoffset : offset.toNat < offsetLimit) :
    F.opened ((seeked s o sh id fs f offset).disks fs) f = some x ∧
      F.node (B.content ((seeked s o sh id fs f offset).disks fs)) x = .file data ∧
      cursor ((seeked s o sh id fs f offset).disks fs) f = offset.toNat := by
  have hnat := toInt64_toInt hoffset
  obtain ⟨-, -, hcursor⟩ := hB.seek_ok _ _ _ _ offset.toInt64 hx hn
    (by rw [hnat]; exact Int.natCast_nonneg _)
  have hdisk : (seeked s o sh id fs f offset).disks fs =
      (B.exec (.seek f offset.toInt64 0) (s.disks fs)).2 := Server.disks_exec _ _ _
  rw [hdisk, hB.opened_seek, B.content_exec _ _ rfl, hcursor, hnat, Int.toNat_natCast]
  exact ⟨hx, hn, rfl⟩

omit hx hn in
theorem Alike.seeked (hwf : ∀ sh, (s.handlesOf sh).WF) (o : Oracle) (sh : ShareRef) (id : FileID)
    (fs : FsRef) (f : B.File) (offset : UInt64) : Alike F s (Smbfs.seeked s o sh id fs f offset) :=
  (Alike.touched hwf sh id o).trans (Alike.exec rfl (hB.opened_seek _ _ _ _))

omit hB hx hn in
theorem storeOf_seeked (o : Oracle) (sh : ShareRef) (id : FileID) (fs : FsRef) (f : B.File)
    (offset : UInt64) : storeOf F (seeked s o sh id fs f offset) = storeOf F s := by
  rw [seeked, storeOf_exec rfl]
  rfl

omit hx hn in
theorem Alike.read (hwf : ∀ sh, (s.handlesOf sh).WF) (o : Oracle) (sh : ShareRef) (id : FileID)
    (fs : FsRef) (f : B.File) (offset : UInt64) (n : Nat) :
    Alike F s ((Smbfs.seeked s o sh id fs f offset).exec fs (.read f n)) :=
  (Alike.seeked hB hwf o sh id fs f offset).trans (Alike.exec rfl (hB.opened_read _ _ _))

/-- A write at an offset. -/
theorem write_rewrites {sh : ShareRef} {id : FileID}
    (hoffset : offset.toNat < offsetLimit) (o : Oracle) (new : Bytes) :
    F.Rewrites (B.content ((seeked s o sh id fs f offset).disks fs))
      (B.content (B.exec (.write f new) ((seeked s o sh id fs f offset).disks fs)).2) x
      (pwrite 0 data offset.toNat new) := by
  obtain ⟨hx', hn', hcursor⟩ := seeked_spec hB hx hn o sh id hoffset
  have hre := (hB.write_ok _ _ _ _ new hx' hn').2
  rw [hcursor] at hre
  exact hre

theorem Alike.write (hwf : ∀ sh, (s.handlesOf sh).WF)
    (hoffset : offset.toNat < offsetLimit) (o : Oracle) (sh : ShareRef) (id : FileID) (new : Bytes) :
    Alike F s ((Smbfs.seeked s o sh id fs f offset).exec fs (.write f new)) :=
  (Alike.seeked hB hwf o sh id fs f offset).trans
    (Alike.rewrites (hB.opened_write _ _ _) (write_rewrites hB hx hn hoffset o new))

theorem storeOf_write [DecidableEq F.Obj] (hoffset : offset.toNat < offsetLimit)
    (o : Oracle) (sh : ShareRef) (id : FileID) (new : Bytes) :
    storeOf F ((seeked s o sh id fs f offset).exec fs (.write f new)) =
      Function.update (storeOf F s) (fs, x) (pwrite 0 data offset.toNat new) := by
  rw [storeOf_rewrites (write_rewrites hB hx hn hoffset o new), storeOf_seeked]

include hfile

/-- READ answers with the bytes in its range, or that there are none. -/
theorem readFound_eq (hoffset : msg.read.offset.toNat < offsetLimit) :
    let req := msg.read
    let out := pread data req.offset.toNat (readLength s req)
    let s' := (seeked s o tree.share req.fileID fs f req.offset).exec fs (.read f (readLength s req))
    readFound msg o tree (ref, of) s =
      if out.isEmpty then .error (.status .endOfFile) s' else .ok (.ok (readResponse out)) s' := by
  intro req out s'
  obtain ⟨hx', hn', hcursor⟩ :=
    seeked_spec hB hx hn o tree.share req.fileID hoffset
  obtain ⟨hout, herr⟩ := hB.read_ok _ _ _ _ (readLength s req) hx' hn'
  rw [hcursor] at hout
  rw [readFound, updateLastAccess, M.run_modify_bind, M.run_get_bind, hfile]
  dsimp only
  rw [run_seekStart_bind (s := s.modifyHandles tree.share fun m =>
    m.updateLastAccess req.fileID o.now) hB hx hn hoffset, M.run_deref_bind]
  dsimp only
  rw [readLength_eq]
  exact run_read hout herr

/-- At an offset from `2^63` on READ fails at `Seek`. -/
theorem readFound_fails (hR : F.RefusesNegative) (hoffset : offsetLimit ≤ msg.read.offset.toNat) :
    let req := msg.read
    ∃ st, st ≠ .success ∧ readFound msg o tree (ref, of) s =
      .error (.status st) (seeked s o tree.share req.fileID fs f req.offset) := by
  have hseeker := (hB.seek_ok _ _ _ _ 0 hx hn (by decide)).1
  obtain ⟨err, herr⟩ := Option.ne_none_iff_exists'.mp (hR _ _ _ _ hx (toInt64_neg hoffset))
  refine ⟨mapGoErrorToNTStatus err, mapGoErrorToNTStatus_ne_success err, ?_⟩
  rw [readFound, updateLastAccess, M.run_modify_bind, M.run_get_bind, hfile, bind_run, seekStart]
  dsimp only
  rw [if_pos hseeker, M.run_call_bind]
  dsimp only [Server.modifyHandles]
  rw [herr]
  rfl

/-! ## WRITE -/

omit hB hx hn hfile in
theorem run_write
    (hres : (B.exec (.write f new) (s.disks fs)).1 = (new.length, none)) :
    (do
      let out ← M.call fs (.write f new)
      writeReply out.1 out.2) s =
      .ok (Reply.ok (writeResponse new.length)) (s.exec fs (.write f new)) := by
  rw [M.run_call_bind, hres]
  rfl

/-- WRITE stores its data and reports their number. -/
theorem writeFound_eq (hnew : writeData msg.payload = some new)
    (hro : tree.isReadOnly = false)
    (haccess : hasBits (mapGenericAccess of.access) (fileWriteData ||| fileAppendData) = true)
    (hoffset : msg.write.offset.toNat < offsetLimit) :
    let req := msg.write
    writeFound msg o tree (ref, of) s = .ok (.ok (writeResponse new.length))
      ((seeked s o tree.share req.fileID fs f req.offset).exec fs (.write f new)) := by
  intro req
  obtain ⟨hx', hn', -⟩ :=
    seeked_spec hB hx hn o tree.share req.fileID hoffset
  obtain ⟨hres, -⟩ := hB.write_ok _ _ _ _ new hx' hn'
  rw [writeFound, M.run_failIf_bind, hro, if_neg Bool.false_ne_true, M.run_failIf_bind]
  dsimp only
  rw [haccess, Bool.not_true, if_neg Bool.false_ne_true, updateLastAccess, M.run_modify_bind, hnew,
    M.run_require_bind, hfile]
  dsimp only
  rw [run_seekStart_bind (s := s.modifyHandles tree.share fun m =>
    m.updateLastAccess req.fileID o.now) hB hx hn hoffset, M.run_deref_bind]
  exact run_write hres

end Transfer

end Smbfs
