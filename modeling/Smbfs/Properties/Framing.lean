import Smbfs.Server.Framing
import Smbfs.System.Samples
import Smbfs.System.Transfer

/-!
The byte stream of a connection and the sizes the server announces.

* `framing_round_trip`: a sequence of unsigned messages is read back as it was
  written, and nothing is left over;
* `writesAccepted_iff`, `readsFit_iff`: which limits the reader and the length
  prefix can honour;
* `limits_honoured_iff`: the options whose announced limits are honoured;
* `default_write_refused`: the default options are not among them.
-/

namespace Smbfs

open Smbfs.Lib

/-! ## Round trip -/

/-- The message that is read from what `writeMessage` wrote. -/
def SMB2Response.received (r : SMB2Response) : SMB2Message := ⟨r.header.received, r.payload, r.marshal⟩

/-- An unsigned message of at most MaxTransactSize bytes. -/
structure Sendable (r : SMB2Response) : Prop where
  signature : r.header.signature.length = 16
  unsigned : r.unsigned = true
  size : smb2HeaderSize + r.payload.length ≤ maxTransactSize.toNat

/-- **Messages are read back as they were written**, in order, up to the end
of the stream. -/
theorem framing_round_trip (P : Platform) (aes : BlockCipher) (ms : List SMB2Response)
    (h : ∀ m ∈ ms, Sendable m) :
    readMany readMessage ms.length (ms.flatMap (writeMessage P aes)) =
      .ok (ms.map SMB2Response.received, []) := by
  have hread : ∀ m ∈ ms, ∀ rest,
      readMessage (writeMessage P aes m ++ rest) = .ok (m.received, rest) := by
    intro m hm rest
    obtain ⟨hsig, hunsigned, hsize⟩ := h m hm
    rw [writeMessage_unsigned P aes hunsigned]
    exact readMessage_frame m.header hsig m.payload rest hsize
  have hall := readMany_flatMap hread []
  rwa [List.append_nil] at hall

/-- A request without a signing key. -/
def sampleResponse (payload : Bytes) : SMB2Response := ⟨(request 13 7 1 []).header, payload, none, 0⟩

theorem framing_round_trip_two :
    let ms := [sampleResponse [1, 2, 3], sampleResponse []]
    readMany readMessage 2 (ms.flatMap (writeMessage samplePlatform fun _ _ => [])) =
      .ok (ms.map SMB2Response.received, []) := by
  refine framing_round_trip samplePlatform (fun _ _ => [])
    [sampleResponse [1, 2, 3], sampleResponse []] ?_
  intro m hm
  simp only [List.mem_cons, List.not_mem_nil, or_false] at hm
  rcases hm with rfl | rfl <;> exact ⟨by decide, by decide, by decide⟩

/-! ## The announced limits -/

/-- The limits in the payload of a NEGOTIATE response. -/
def announcedMaxReadSize (response : Bytes) : UInt32 := getUint32 (response.drop 32)
def announcedMaxWriteSize (response : Bytes) : UInt32 := getUint32 (response.drop 36)

variable (opts : ServerOptions)

theorem announced_limits (now : GoTime) (dialect : SMBDialect)
    (hguid : opts.serverGUID.length = 16) :
    announcedMaxReadSize (buildNegotiateResponse opts now dialect) = opts.maxReadSize ∧
    announcedMaxWriteSize (buildNegotiateResponse opts now dialect) = opts.maxWriteSize := by
  obtain ⟨mode, count, rest, h0⟩ : ∃ mode count rest,
      (buildNegotiateResponse opts now dialect).drop 0 =
        putUint16 65 ++ (putUint16 mode ++ (putUint16 dialect ++ (putUint16 count ++
          (opts.serverGUID ++ (putUint32 (negotiateCapabilities dialect) ++
          (putUint32 maxTransactSize ++ (putUint32 opts.maxReadSize ++
          (putUint32 opts.maxWriteSize ++ rest)))))))) := by
    simp only [buildNegotiateResponse, List.drop_zero, List.append_assoc]
    exact ⟨_, _, _, rfl⟩
  have h2 := drop_next (m := 2) h0 rfl
  have h4 := drop_next (m := 4) h2 rfl
  have h6 := drop_next (m := 6) h4 rfl
  have h8 := drop_next (m := 8) h6 rfl
  have h24 := drop_next (m := 24) h8 (by rw [hguid])
  have h28 := drop_next (m := 28) h24 rfl
  have h32 := drop_next (m := 32) h28 rfl
  have h36 := drop_next (m := 36) h32 rfl
  rw [announcedMaxReadSize, announcedMaxWriteSize, h32, h36, getUint32_putUint32,
    getUint32_putUint32]
  exact ⟨rfl, rfl⟩

/-! ## WRITE requests -/

/-- The payload of a WRITE request with its data behind the fixed part; `rest`
are the fields from Offset to Flags. -/
def writePayload (rest data : Bytes) : Bytes :=
  putUint16 49 ++ putUint16 112 ++ putUint32 (UInt32.ofNat data.length) ++ rest ++ data

theorem writePayload_length {rest : Bytes} (h : rest.length = 40) (data : Bytes) :
    (writePayload rest data).length = 48 + data.length := by
  simp only [writePayload, putUint16, putUint32, List.length_append, List.length_cons,
    List.length_nil, h]

/-- Every well-formed WRITE request with at most `limit` bytes of data is
accepted by the reader. -/
def WritesAccepted (limit : Nat) : Prop :=
  ∀ (h : SMB2Header) (rest data stream : Bytes), h.signature.length = 16 →
    Command.ofCode h.command = .write → rest.length = 40 → data.length ≤ limit →
    readMessage (frame (h.marshal ++ writePayload rest data) ++ stream) =
      .ok (⟨h.received, writePayload rest data, h.marshal ++ writePayload rest data⟩, stream)

/-- The header of a WRITE request. -/
def writeHeader : SMB2Header := (request 9 7 1 []).header

theorem writesAccepted_iff (limit : Nat) :
    WritesAccepted limit ↔ smb2HeaderSize + 48 + limit ≤ maxTransactSize.toNat := by
  constructor
  · intro h
    by_contra hlimit
    -- one byte more than the reader takes
    let n := maxTransactSize.toNat + 1 - (smb2HeaderSize + 48)
    have hn : (zeros n).length = n := List.length_replicate
    have hmax : maxTransactSize.toNat = 8388608 := by decide
    have hhead : smb2HeaderSize = 64 := rfl
    have hlen := writePayload_length (show (zeros 40).length = 40 from rfl) (zeros n)
    have hok := h writeHeader (zeros 40) (zeros n) [] rfl (by decide) rfl (by omega)
    rw [readMessage_too_long _ _ _ (by omega) (by rw [hlen, maxFrame]; omega)] at hok
    cases hok
  · intro hlimit h rest data stream hsig _ hrest hdata
    refine readMessage_frame h hsig _ stream ?_
    rw [writePayload_length hrest]
    omega

/-! ## READ responses -/

/-- `Read` returns at most the bytes it was asked for, as `io.Reader` has it. -/
def BoundedReads (B : Backend) : Prop :=
  ∀ f n (d : B.Disk), (B.exec (.read f n) d).1.1.length ≤ n

/-- The READ responses for at most `limit` bytes have a length that their
prefix can hold. -/
def ReadsFit (opts : ServerOptions) (limit : UInt32) : Prop :=
  ∀ (B : Backend) (P : Platform) (k : ConnId) (msg : SMB2Message) (o : Oracle)
    (s s' : Server B) (r : SMB2Response), BoundedReads B → s.options = opts →
    Command.ofCode msg.header.command = .read →
    msg.read.length ≤ limit →
    handleMessage P k msg o s = (.response r, s') →
    frameLength (netbiosHeader r.marshal.length) = r.marshal.length

theorem readResponse_length (data : Bytes) : (readResponse data).length = 16 + data.length := by
  simp only [readResponse, putUint16, putUint32, List.length_append, List.length_cons,
    List.length_nil]

section Read

variable {B : Backend}

/-- A READ that succeeds answers what `Read` gave for at most MaxReadSize bytes. -/
theorem handleRead_ok {msg : SMB2Message} {o : Oracle} {s s' : Server B} {reply : Reply}
    (h : handleRead msg o s = .ok reply s') :
    ∃ (f : B.File) (n : Nat) (d : B.Disk), n ≤ s.options.maxReadSize.toNat ∧
      reply = .ok (readResponse (B.exec (.read f n) d).1.1) := by
  rw [handleRead] at h
  obtain ⟨_, _, _, _, -, -, -, h⟩ := onHandle_ok h
  rw [readFound] at h
  obtain ⟨_, t, hmod, h⟩ := bind_eq_ok h
  cases hmod
  rw [M.run_get_bind] at h
  obtain ⟨_, t, _, h⟩ := bind_eq_ok h
  obtain ⟨f, t', _, h⟩ := bind_eq_ok h
  obtain ⟨⟨data, err⟩, t'', hcall, h⟩ := bind_eq_ok h
  obtain ⟨_, _, _, h⟩ := bind_eq_ok h
  cases h
  have hread : _ = data := congrArg Prod.fst (EStateM.Result.ok.inj hcall).1
  rw [← hread]
  refine ⟨f.2, _, t'.disks f.1, ?_, rfl⟩
  rw [readLength_eq]
  exact Nat.min_le_right _ _

end Read

theorem readsFit_of_lt {opts : ServerOptions}
    (h : smb2HeaderSize + 16 + opts.maxReadSize.toNat < maxFrame) (limit : UInt32) :
    ReadsFit opts limit := by
  intro B P k msg o s s' r hbounded hopts hcmd _ hmsg
  rw [handleMessage_read hcmd] at hmsg
  -- a response has the payload of the handler, or that of an error
  have hpayload : r.payload.length ≤ 16 + opts.maxReadSize.toNat := by
    cases hx : handleRead msg o s with
    | ok reply t =>
      rw [hx] at hmsg
      cases hmsg
      obtain ⟨f, n, d, hn, rfl⟩ := handleRead_ok hx
      rw [buildResponse_payload]
      have := readResponse_length (B.exec (.read f n) d).1.1
      have := hbounded f n d
      simp only [Reply.ok]
      rw [hopts] at hn
      omega
    | error e t =>
      rw [hx] at hmsg
      cases e with
      | status st =>
        cases hmsg
        rw [buildResponse_payload]
        simp [errorResponse, putUint16, putUint32]
        omega
      | crash => cases hmsg
  rw [frameLength_netbiosHeader, SMB2Response.marshal, List.length_append, marshal_length]
  exact Nat.mod_eq_of_lt (by omega)

/-! Files that never end: they show that the bound is exact. -/

/-- `Read` fills the buffer with zeros; every other call fails. -/
def endlessReply : (c : FsCall Unit) → c.Reply
  | .read _ n => (zeros n, none)
  | .stat _ => .error InodeDisk.errNotExist
  | .fileStat _ => .error InodeDisk.errNotExist
  | .openFile .. => .error InodeDisk.errNotExist
  | .write .. => (0, some InodeDisk.errNotExist)
  | .seek .. => (0, some InodeDisk.errNotExist)
  | .readDir _ => ([], some InodeDisk.errNotExist)
  | .mkdir .. => some InodeDisk.errNotExist
  | .remove _ => some InodeDisk.errNotExist
  | .rename .. => some InodeDisk.errNotExist
  | .sync _ => some InodeDisk.errNotExist
  | .truncate .. => some InodeDisk.errNotExist
  | .chtimes .. => some InodeDisk.errNotExist
  | .chmod .. => some InodeDisk.errNotExist
  | .close _ => some InodeDisk.errNotExist

def endlessFs : Backend where
  Disk := Unit
  File := Unit
  Content := Unit
  exec := fun c d => (endlessReply c, d)
  content := id
  content_exec := fun _ _ _ => rfl
  seeker := fun _ => false
  syncer := fun _ => false
  truncater := fun _ => false
  chtimer := fun _ => false
  chmoder := fun _ => false
  renamer := fun _ => false

def endlessFile : FileObj endlessFs := (0, ())

/-- A server where session 1 has a file of `endlessFs` open on its tree 1. -/
def endlessServer (opts : ServerOptions) : Server endlessFs :=
  { newServer (B := endlessFs) opts [] fun _ => () with
    options := opts
    sessions :=
      { newSessionManager 0 with
        heap := fun _ =>
          { Session.new 1 0 [] [] 0 with
            state := .valid
            trees := (∅ : GoMap UInt32 TreeConnection).insert 1 ⟨1, [], 0, 0, false⟩ }
        sessions := (∅ : GoMap UInt64 SessionRef).insert 1 0 }
    shareHeap := fun _ =>
      { (Share.new (some 0) (sampleShare [] false) : Share (FileObj endlessFs)) with
        fileHandles :=
          { newFileHandleMap (FileObj endlessFs) with
            heap := fun _ =>
              { OpenFile.zero (FileObj endlessFs) with
                file := some endlessFile, treeID := 1, sessionID := 1 }
            handles := (∅ : GoMap FileID HandleRef).insert ⟨0, 1⟩ 1 } } }

theorem readRequest_wellFormed (length : UInt32) :
    wellFormed (readRequest 1 1 ⟨0, 1⟩ length).payload 48 49 = true := by
  unfold wellFormed Reader.parse
  rfl

theorem readRequest_ofPayload (length : UInt32) :
    (readRequest 1 1 ⟨0, 1⟩ length).read = ⟨length, 0, ⟨0, 1⟩⟩ := by
  have hlength := getUint32_putUint32 length (putUint64 0 ++ putFileID ⟨0, 1⟩ ++ zeros 16)
  unfold SMB2Message.read ReadRequest.ofPayload Reader.parse
  exact congrArg (fun n => (⟨n, 0, ⟨0, 1⟩⟩ : ReadRequest)) hlength

/-- A READ of the largest size gives that many bytes. -/
theorem handleRead_endless (o : Oracle) (h : 0 < opts.maxReadSize.toNat) :
    ∃ s', handleRead (readRequest 1 1 ⟨0, 1⟩ opts.maxReadSize) o (endlessServer opts) =
      .ok (.ok (readResponse (zeros opts.maxReadSize.toNat))) s' := by
  have hdata : (zeros opts.maxReadSize.toNat).isEmpty = false := by
    simp [zeros, Nat.ne_of_gt h]
  have ht : Target (endlessServer opts) (readRequest 1 1 ⟨0, 1⟩ opts.maxReadSize) 0
      ⟨1, [], 0, 0, false⟩ ⟨0, 1⟩ { OpenFile.zero (FileObj endlessFs) with
        file := some endlessFile, treeID := 1, sessionID := 1 } := ⟨⟨rfl, rfl⟩, rfl, rfl, rfl⟩
  obtain ⟨ref, -, hrun⟩ := run_onHandle (f := readFound _ o) ht (readRequest_wellFormed _)
  rw [handleRead, readRequest_ofPayload, hrun, readFound, readRequest_ofPayload]
  -- the file has no `Seek`, and `Read` fills the buffer
  have hseek : seekStart (some endlessFile) 0 = pure () := rfl
  have hcheck : checkRead (B := endlessFs) (zeros opts.maxReadSize.toNat) none = pure () := by
    simp [checkRead, hdata, M.failIf]
  have hopts : ∀ g, ((endlessServer opts).modifyHandles 0 g).options = opts := fun _ => rfl
  have hexec : ∀ n d, (endlessFs.exec (.read endlessFile.2 n) d).1 = (zeros n, none) :=
    fun _ _ => rfl
  rw [updateLastAccess, M.run_modify_bind, M.run_get_bind]
  dsimp only
  rw [hseek, pure_bind, M.run_deref_bind, hopts, if_neg (UInt32.lt_irrefl _)]
  dsimp only
  rw [M.run_call_bind, hexec]
  dsimp only
  rw [hcheck, pure_bind]
  exact ⟨_, rfl⟩

theorem readsFit_iff :
    ReadsFit opts opts.maxReadSize ↔ smb2HeaderSize + 16 + opts.maxReadSize.toNat < maxFrame := by
  refine ⟨fun h => ?_, fun h => readsFit_of_lt h _⟩
  by_contra hlarge
  have hbounded : BoundedReads endlessFs := fun _ n _ => Nat.le_of_eq List.length_replicate
  have hhead : smb2HeaderSize = 64 := rfl
  have hmax : maxFrame = 16777216 := rfl
  obtain ⟨s', hread⟩ := handleRead_endless opts sampleOracle (by omega)
  have hmsg := handleMessage_read (P := samplePlatform) (k := 0) (o := sampleOracle)
    (s := endlessServer opts) (show (readRequest 1 1 ⟨0, 1⟩ opts.maxReadSize).cmd = .read from rfl)
  rw [hread] at hmsg
  have hfit := h endlessFs samplePlatform 0 _ sampleOracle (endlessServer opts) _ _ hbounded rfl
    rfl (by rw [readRequest_ofPayload]; exact UInt32.le_refl _) hmsg
  rw [frameLength_netbiosHeader, SMB2Response.marshal, List.length_append, marshal_length,
    buildResponse_payload] at hfit
  have hlen := readResponse_length (zeros opts.maxReadSize.toNat)
  have hzeros : (zeros opts.maxReadSize.toNat).length = opts.maxReadSize.toNat :=
    List.length_replicate
  simp only [Reply.ok] at hfit
  have := Nat.mod_lt (smb2HeaderSize + (readResponse (zeros opts.maxReadSize.toNat)).length)
    (show 0 < maxFrame by decide)
  omega

/-! ## Both limits -/

/-- **The announced limits are honoured exactly if the largest WRITE request
fits MaxTransactSize and the largest READ response fits the length prefix.** -/
theorem limits_honoured_iff (options : ServerOptions) (rand : Bytes) (now : GoTime)
    (dialect : SMBDialect) (hguid : options.serverGUID.length = 16) (hrand : rand.length = 16) :
    let opts := options.applyDefaults rand
    let response := buildNegotiateResponse opts now dialect
    (WritesAccepted (announcedMaxWriteSize response).toNat ∧
      ReadsFit opts (announcedMaxReadSize response)) ↔
    (smb2HeaderSize + 48 + opts.maxWriteSize.toNat ≤ maxTransactSize.toNat ∧
      smb2HeaderSize + 16 + opts.maxReadSize.toNat < maxFrame) := by
  intro opts response
  have hlen : opts.serverGUID.length = 16 := by
    simp only [opts, ServerOptions.applyDefaults]
    split
    · exact hrand
    · exact hguid
  obtain ⟨hread, hwrite⟩ := announced_limits opts now dialect hlen
  rw [hread, hwrite, writesAccepted_iff, readsFit_iff]

/-- Transfers of one megabyte. -/
theorem limits_honoured_one_megabyte :
    let options := { sampleOptions with maxReadSize := 1048576, maxWriteSize := 1048576 }
    let opts := options.applyDefaults (zeros 16)
    let response := buildNegotiateResponse opts 0 smb3_1_1
    WritesAccepted (announcedMaxWriteSize response).toNat ∧
      ReadsFit opts (announcedMaxReadSize response) :=
  (limits_honoured_iff { sampleOptions with maxReadSize := 1048576, maxWriteSize := 1048576 }
    (zeros 16) 0 smb3_1_1 rfl rfl).mpr ⟨by decide, by decide⟩

/-- With the default options a WRITE of the announced size, 8 MB, is refused. -/
theorem default_write_refused :
    let opts := sampleOptions.applyDefaults (zeros 16)
    (announcedMaxWriteSize (buildNegotiateResponse opts 0 smb3_1_1)).toNat = 8388608 ∧
    readMessage (frame (writeHeader.marshal ++ writePayload (zeros 40) (zeros 8388608))) =
      .error .invalidMessage := by
  have hlen := writePayload_length (show (zeros 40).length = 40 from rfl) (zeros 8388608)
  have hzeros : (zeros 8388608).length = 8388608 := List.length_replicate
  have hhead : smb2HeaderSize = 64 := rfl
  have hmax : maxTransactSize.toNat = 8388608 := by decide
  refine ⟨by decide +kernel, ?_⟩
  rw [← List.append_nil (frame _)]
  exact readMessage_too_long _ _ _ (by omega) (by rw [hlen, hzeros]; decide)

end Smbfs
