import Smbfs.Server.Framing
import Smbfs.System.Samples
import Smbfs.System.Transfer

/-!
READ and WRITE refine positional reads and writes of the files' bytes.

* `ioOp`: the operation a request stands for, if its handle is open for a file, its
  access suffices and its offset is below `2^63`;
* `Encodes`: a response and the answer of the store;
* `ioOp_step`: one request; `transfers_positional`: every sequence of them.
-/

namespace Smbfs

open Smbfs.Lib

variable {B : Backend} {F : ObjectFs B} {cursor : B.Disk → B.File → Nat} {P : Platform} {k : ConnId}
  {msg : SMB2Message} {o : Oracle} {s s' : Server B}

/-! ## Requests as operations -/

/-- The tree and the record of the handle that a request names, if `validateTree`
and `GetByTree` let it pass. -/
def openFileOf (s : Server B) (msg : SMB2Message) (id : FileID) :
    Option (TreeConnection × B.OpenFile) :=
  (s.sessions.validateSession msg.header.sessionID).bind fun r =>
    ((s.sessions.heap r).trees.lookup msg.header.treeID).bind fun tree =>
      (((s.handlesOf tree.share).view id).map OpenFile.untimed).bind fun of =>
        if of.treeID = tree.id ∧ of.sessionID = (s.sessions.heap r).id then some (tree, of) else none

theorem openFileOf_eq_some {id : FileID} {tree : TreeConnection} {of : B.OpenFile}
    (h : openFileOf s msg id = some (tree, of)) :
    ∃ r of', Target s msg r tree id of' ∧ of = of'.untimed := by
  obtain ⟨r, hsession, h⟩ := Option.bind_eq_some_iff.mp h
  obtain ⟨tree', htree, h⟩ := Option.bind_eq_some_iff.mp h
  obtain ⟨of', hof', h⟩ := Option.bind_eq_some_iff.mp h
  obtain ⟨of'', hview, rfl⟩ := Option.map_eq_some_iff.mp hof'
  split at h
  · next hids =>
    cases h
    exact ⟨r, of'', ⟨⟨hsession, htree⟩, hview, hids.1, hids.2⟩, rfl⟩
  · cases h

theorem Alike.openFileOf_eq (h : Alike F s s') (msg : SMB2Message) (id : FileID) :
    openFileOf s' msg id = openFileOf s msg id := by
  simp only [openFileOf, h.sessions_eq, h.views]

/-- The object of an open file that is not a directory. -/
def objectOf (F : ObjectFs B) (s : Server B) (of : B.OpenFile) : Option (FsRef × F.Obj) :=
  of.file.bind fun f =>
    (F.opened (s.disks f.1) f.2).bind fun x =>
      if (F.node (B.content (s.disks f.1)) x).isDir then none else some (f.1, x)

theorem objectOf_eq_some {of : B.OpenFile} {fs : FsRef} {x : F.Obj}
    (h : objectOf F s of = some (fs, x)) :
    ∃ f, of.file = some (fs, f) ∧ F.opened (s.disks fs) f = some x ∧
      F.node (B.content (s.disks fs)) x = .file (storeOf F s (fs, x)) := by
  obtain ⟨⟨fs', f⟩, hfile, h⟩ := Option.bind_eq_some_iff.mp h
  obtain ⟨x', hx, h⟩ := Option.bind_eq_some_iff.mp h
  split at h
  · cases h
  · next hdir =>
    cases h
    refine ⟨f, hfile, hx, ?_⟩
    unfold storeOf
    dsimp only at hdir ⊢
    cases hn : F.node (B.content (s.disks fs')) x with
    | file data => rfl
    | dir => exact absurd (congrArg Node.isDir hn) hdir

theorem Alike.objectOf_eq (h : Alike F s s') (of : B.OpenFile) :
    objectOf F s' of = objectOf F s of := by
  simp only [objectOf, h.opened_eq, h.isDir_eq]

/-- A READ below `2^63`, through a handle that is open for a file. -/
def readOp (F : ObjectFs B) (s : Server B) (msg : SMB2Message) :
    Option (PosOp (FsRef × F.Obj) UInt8) :=
  let req := msg.read
  (openFileOf s msg req.fileID).bind fun p => (objectOf F s p.2).bind fun x =>
    if wellFormed msg.payload 48 49 = true ∧ req.offset.toNat < offsetLimit then
      some (.read x req.offset.toNat (readLength s req))
    else none

/-- The same for WRITE, where the tree and the access of the handle allow it. -/
def writeOp (F : ObjectFs B) (s : Server B) (msg : SMB2Message) :
    Option (PosOp (FsRef × F.Obj) UInt8) :=
  let req := msg.write
  (openFileOf s msg req.fileID).bind fun p => (objectOf F s p.2).bind fun x =>
    (writeData msg.payload).bind fun new =>
      if (wellFormed msg.payload 48 49 = true ∧ req.offset.toNat < offsetLimit) ∧
          p.1.isReadOnly = false ∧
          hasBits (mapGenericAccess p.2.access) (fileWriteData ||| fileAppendData) = true then
        some (.write x req.offset.toNat new)
      else none

/-- The operation an event stands for. -/
def ioOp (F : ObjectFs B) (s : Server B) : Event → Option (PosOp (FsRef × F.Obj) UInt8)
  | .message _ msg _ =>
    if msg.cmd = .read then readOp F s msg
    else if msg.cmd = .write then writeOp F s msg
    else none
  | _ => none

/-- The operation depends on the open files only. -/
theorem Alike.ioOp_eq (h : Alike F s s') (e : Event) : ioOp F s' e = ioOp F s e := by
  cases e with
  | message k msg o =>
    simp only [ioOp, readOp, writeOp, h.openFileOf_eq, h.objectOf_eq, readLength, h.options_eq]
  | connect | addShare | removeShare | cleanup => rfl

/-! ## Responses as answers -/

/-- The field DataOffset of a READ response, from the start of the header. -/
def SMB2Response.dataOffset (r : SMB2Response) : Nat := (r.payload.getD 2 0).toNat

/-- DataLength of a READ response, Count of a WRITE response. -/
def SMB2Response.dataLength (r : SMB2Response) : Nat := (getUint32 (r.payload.drop 4)).toNat

/-- The response says what the store answers. The data of a READ stand at the
DataOffset it announces. -/
def Encodes : PosReply UInt8 → Outcome → Prop
  | .data bytes, .response r =>
    r.header.status = NTStatus.success.code ∧ r.dataLength = bytes.length ∧
      slice r.marshal r.dataOffset r.dataLength = bytes
  | .eof, .response r => r.header.status = NTStatus.endOfFile.code
  | .count n, .response r => r.header.status = NTStatus.success.code ∧ r.dataLength = n
  | _, _ => False

instance Encodes.decidable : ∀ (reply : PosReply UInt8) (out : Outcome),
    Decidable (Encodes reply out)
  | .data _, .response _ => inferInstanceAs (Decidable (_ ∧ _ ∧ _))
  | .eof, .response _ => inferInstanceAs (Decidable (_ = _))
  | .count _, .response _ => inferInstanceAs (Decidable (_ ∧ _))
  | .data _, .crash | .eof, .crash | .count _, .crash => inferInstanceAs (Decidable False)
  | .data _, .silent | .eof, .silent | .count _, .silent => inferInstanceAs (Decidable False)

theorem encodes_read {bytes : Bytes} {r : SMB2Response}
    (hlen : bytes.length < UInt32.size) (hstatus : r.header.status = NTStatus.success.code)
    (hpayload : r.payload = readResponse bytes) : Encodes (.data bytes) (.response r) := by
  have hdrop4 : r.payload.drop 4 = putUint32 (UInt32.ofNat bytes.length) ++
      (putUint32 0 ++ putUint32 0 ++ bytes) := by
    rw [hpayload]
    rfl
  have hlength : r.dataLength = bytes.length := by
    rw [SMB2Response.dataLength, hdrop4, getUint32_putUint32, UInt32.toNat_ofNat_of_lt' hlen]
  have hoffset : r.dataOffset = smb2HeaderSize + 16 := by
    rw [SMB2Response.dataOffset, hpayload]
    rfl
  have hdrop16 : r.payload.drop 16 = bytes := by
    rw [hpayload]
    rfl
  refine ⟨hstatus, hlength, ?_⟩
  rw [slice, hlength, hoffset, SMB2Response.marshal, ← List.drop_drop,
    List.drop_left' (marshal_length r.header), hdrop16, List.take_length]

theorem encodes_write {n : Nat} {r : SMB2Response}
    (hlen : n < UInt32.size) (hstatus : r.header.status = NTStatus.success.code)
    (hpayload : r.payload = writeResponse n) : Encodes (.count n) (.response r) := by
  have hdrop4 : r.payload.drop 4 = putUint32 (UInt32.ofNat n) ++
      (putUint32 0 ++ putUint16 0 ++ putUint16 0) := by
    rw [hpayload]
    rfl
  refine ⟨hstatus, ?_⟩
  rw [SMB2Response.dataLength, hdrop4, getUint32_putUint32, UInt32.toNat_ofNat_of_lt' hlen]

/-! ## One request -/

theorem writeData_length_lt {payload new : Bytes} (h : writeData payload = some new) :
    new.length < UInt32.size := by
  have hlt := (WriteRequest.ofPayload payload).length.toNat_lt
  unfold writeData messageBuffer at h
  dsimp only at h
  split at h
  · cases h
  · cases h
    rw [slice, List.length_take]
    change _ < 4294967296
    omega

/-- The answer of the system, and what it keeps. -/
structure Answers (F : ObjectFs B) [DecidableEq F.Obj] (P : Platform) (sys : System B) (k : ConnId)
    (msg : SMB2Message) (o : Oracle) (op : PosOp (FsRef × F.Obj) UInt8) : Prop where
  encodes : Encodes (posStep 0 (storeOf F sys.server) op).1 (processMessage P k msg o sys.server).1
  running : (sys.step P (.message k msg o)).crashed = false
  alike : Alike F sys.server (sys.step P (.message k msg o)).server
  store_eq : storeOf F (sys.step P (.message k msg o)).server =
    (posStep 0 (storeOf F sys.server) op).2

section Step

variable [DecidableEq F.Obj] {sys : System B} {op : PosOp (FsRef × F.Obj) UInt8}
  (hB : F.ByteFiles cursor) (hwf : Tables sys.server) (hrunning : sys.crashed = false)

include hB hwf hrunning

theorem readOp_step (hcmd : msg.cmd = .read) (hop : readOp F sys.server msg = some op) :
    Answers F P sys k msg o op := by
  obtain ⟨⟨tree, of⟩, hof, hop⟩ := Option.bind_eq_some_iff.mp hop
  obtain ⟨r, of, htarget, rfl⟩ := openFileOf_eq_some hof
  obtain ⟨⟨fs, x⟩, hobject, hread⟩ := Option.bind_eq_some_iff.mp hop
  obtain ⟨f, hfile, hx, hn⟩ := objectOf_eq_some hobject
  split at hread
  · next hok =>
    cases hread
    obtain ⟨ref, -, hrun⟩ := run_onHandle (f := readFound msg o) htarget hok.1
    rw [← handleRead, readFound_eq hB (show of.file = some (fs, f) from hfile) hx hn hok.2] at hrun
    have hout : (pread (storeOf F sys.server (fs, x)) msg.read.offset.toNat
        (readLength sys.server msg.read)).length < UInt32.size := by
      have hlt := msg.read.length.toNat_lt
      rw [pread, List.length_take]
      unfold readLength
      change _ < 4294967296
      omega
    have halike := Alike.read hB hwf.handles o tree.share msg.read.fileID fs f msg.read.offset
      (readLength sys.server msg.read)
    split at hrun
    · next hempty =>
      obtain ⟨resp, hresp, hstatus⟩ := processMessage_error (routedTo_read hcmd) hrun
      have hstep := step_response hrunning hresp
      refine ⟨?_, by rw [hstep], by rw [hstep]; exact halike, ?_⟩
      · rw [posStep, if_pos hempty, hresp]
        exact hstatus
      · rw [hstep, storeOf_exec rfl, storeOf_seeked]
        rfl
    · next hdata =>
      obtain ⟨resp, hresp, hpayload, hstatus⟩ := processMessage_ok (routedTo_read hcmd) hrun
      have hstep := step_response hrunning hresp
      refine ⟨?_, by rw [hstep], by rw [hstep]; exact halike, ?_⟩
      · rw [posStep, if_neg hdata, hresp]
        exact encodes_read hout hstatus hpayload
      · rw [hstep, storeOf_exec rfl, storeOf_seeked]
        rfl
  · cases hread

theorem writeOp_step (hcmd : msg.cmd = .write) (hop : writeOp F sys.server msg = some op) :
    Answers F P sys k msg o op := by
  obtain ⟨⟨tree, of⟩, hof, hop⟩ := Option.bind_eq_some_iff.mp hop
  obtain ⟨r, of, htarget, rfl⟩ := openFileOf_eq_some hof
  obtain ⟨⟨fs, x⟩, hobject, hop⟩ := Option.bind_eq_some_iff.mp hop
  obtain ⟨f, hfile, hx, hn⟩ := objectOf_eq_some hobject
  obtain ⟨new, hnew, hwrite⟩ := Option.bind_eq_some_iff.mp hop
  split at hwrite
  · next hok =>
    obtain ⟨⟨hwell, hoffset⟩, hro, haccess⟩ := hok
    cases hwrite
    obtain ⟨ref, -, hrun⟩ := run_onHandle (f := writeFound msg o) htarget hwell
    rw [← handleWrite, writeFound_eq hB (show of.file = some (fs, f) from hfile) hx hn hnew hro
      haccess hoffset] at hrun
    obtain ⟨resp, hresp, hpayload, hstatus⟩ := processMessage_ok (routedTo_write hcmd) hrun
    have hstep := step_response hrunning hresp
    refine ⟨?_, by rw [hstep], ?_, ?_⟩
    · rw [hresp]
      exact encodes_write (writeData_length_lt hnew) hstatus hpayload
    · rw [hstep]
      exact Alike.write hB hx hn hwf.handles hoffset o _ _ new
    · rw [hstep]
      exact storeOf_write hB hx hn hoffset o _ _ new
  · cases hwrite

/-- **One request.** -/
theorem ioOp_step {e : Event} (hop : ioOp F sys.server e = some op) :
    ∃ k msg o, e = .message k msg o ∧ Answers F P sys k msg o op := by
  cases e with
  | message k msg o =>
    refine ⟨k, msg, o, rfl, ?_⟩
    rw [ioOp] at hop
    split at hop
    · next hcmd => exact readOp_step hB hwf hrunning hcmd hop
    · split at hop
      · next hcmd => exact writeOp_step hB hwf hrunning hcmd hop
      · cases hop
  | connect | addShare | removeShare | cleanup => cases hop

end Step

/-! ## Sequences -/

/-- What the system answers to an event. -/
def outcome (P : Platform) (sys : System B) : Event → Outcome
  | .message k msg o => (processMessage P k msg o sys.server).1
  | _ => .silent

/-- The system serves the store, with the files open as they were in `s`. -/
structure Serves (F : ObjectFs B) (s : Server B) (sys : System B)
    (store : FsRef × F.Obj → Bytes) : Prop where
  running : sys.crashed = false
  tables : Tables sys.server
  alike : Alike F s sys.server
  store_eq : storeOf F sys.server = store

theorem Serves.step [DecidableEq F.Obj] (hB : F.ByteFiles cursor) (P : Platform) (sys : System B)
    (store : FsRef × F.Obj → Bytes) (e : Event) (op : PosOp (FsRef × F.Obj) UInt8)
    (h : Serves F s sys store) (hop : ioOp F s e = some op) :
    Encodes (posStep 0 store op).1 (outcome P sys e) ∧
      Serves F s (sys.step P e) (posStep 0 store op).2 := by
  rw [← h.alike.ioOp_eq] at hop
  obtain ⟨k, msg, o, rfl, hanswers⟩ := ioOp_step (P := P) hB h.tables h.running hop
  rw [← h.store_eq]
  exact ⟨hanswers.encodes, hanswers.running, h.tables.step _, h.alike.trans hanswers.alike,
    hanswers.store_eq⟩

/-- **Positional I/O.** From every reachable state, every sequence of READ and WRITE
requests through handles with sufficient access is answered as the array of bytes of
each file would answer it, and the files end up with the bytes of these arrays. -/
theorem transfers_positional [DecidableEq F.Obj] (hB : F.ByteFiles cursor) (P : Platform)
    (options : ServerOptions) (rand : Bytes) (disks : FsRef → B.Disk) (before es : List Event) :
    let sys := System.run P (.initial options rand disks) before
    sys.crashed = false → (∀ e ∈ es, (ioOp F sys.server e).isSome = true) →
    let run := posRun 0 (storeOf F sys.server) (es.filterMap (ioOp F sys.server))
    List.Forall₂ Encodes run.1
        (collect (System.step P) (fun sys e => some (outcome P sys e)) sys es) ∧
      storeOf F (sys.run P es).server = run.2 := by
  intro sys hrunning hes run
  have hstart : Serves F sys.server sys (storeOf F sys.server) :=
    ⟨hrunning, .run options rand disks before, .refl F _, rfl⟩
  obtain ⟨hencodes, hend⟩ := posRun_simulates (Serves.step hB P) hstart hes
  exact ⟨hencodes, hend.store_eq⟩

/-- A write behind the end of a new file, and a read of the whole file. -/
theorem transfers_positional_gap :
    let sys := System.run samplePlatform inodeSystem
      (sampleLogin false ++ [sent (createRequest 7 1 ['f'] 3 7 2 0)])
    let es := [sent (writeRequest 7 1 ⟨1, 1⟩ 2 [97, 98]), sent (readRequest 7 1 ⟨1, 1⟩ 10)]
    List.Forall₂ Encodes [.count 2, .data [0, 0, 97, 98]]
      (collect (System.step samplePlatform) (fun sys e => some (outcome samplePlatform sys e)) sys
        es) := by
  intro sys es
  have hrun : (posRun 0 (storeOf inodeView sys.server)
      (es.filterMap (ioOp inodeView sys.server))).1 = [.count 2, .data [0, 0, 97, 98]] := by
    decide +kernel
  rw [← hrun]
  exact (transfers_positional inodeView_byteFiles _ _ _ _ _ es (by decide +kernel)
    (by decide +kernel)).1

end Smbfs
