import Smbfs.System.Handles
import Smbfs.System.Samples

/-!
Handles of different sessions and trees do not interfere.

* `handle_isolation`: a request leaves the handles of other sessions and other
  trees alone, and operates on files of its own handles only.
-/

namespace Smbfs

open Smbfs.Lib Relation

variable {B : Backend} {P : Platform} {k : ConnId} {msg : SMB2Message} {o : Oracle}
  {s0 s s' : Server B}

/-- A record that the request has no business with. -/
def Foreign (msg : SMB2Message) (of : B.OpenFile) : Prop :=
  of.sessionID ≠ msg.header.sessionID ∨ of.treeID ≠ msg.header.treeID ∧ msg.cmd ≠ .logoff

/-- The commands that work on the file of a handle. -/
def OnHandle (c : Command) : Prop :=
  c = .read ∨ c = .write ∨ c = .flush ∨ c = .close ∨ c = .queryDirectory ∨ c = .queryInfo ∨
    c = .setInfo

theorem Mine.not_foreign (h : Tables s0) {sh : ShareRef} {of : B.OpenFile}
    (hm : Mine s0 msg sh of) : ¬ Foreign msg of := by
  obtain ⟨hsession, htree⟩ := hm.owner h
  rintro (hne | ⟨hne, hcmd⟩)
  · exact hne hsession
  · exact htree.elim hcmd hne

/-- The foreign handles of `s0` are open in `s`, with the same records. -/
def KeepsForeign (s0 : Server B) (msg : SMB2Message) (s : Server B) : Prop :=
  ∀ sh id of, (s0.handlesOf sh).view id = some of → Foreign msg of →
    (s.handlesOf sh).view id = some of

theorem KeepsForeign.change (h0 : Tables s0) (h : Tables s) (hk : KeepsForeign s0 msg s)
    (hc : Change P k msg o s0 s s') : KeepsForeign s0 msg s' := by
  intro sh id of hv hforeign
  rcases hc.view_kept h (hk sh id of hv hforeign) with
    hsame | ⟨new, -, r, tree, of', f, ht, -, rfl, -⟩ | ⟨-, old, hold, hmine⟩
  · exact hsame
  · cases hv.symm.trans ht.view_eq
    exact absurd hforeign (ht.mine.not_foreign h0)
  · cases hv.symm.trans hold
    exact absurd hforeign (hmine.not_foreign h0)

/-- A call on an open file by one of these commands is on the file of a record
of the request's session and tree. -/
theorem Permitted.owner (h : Tables s0) {fs : FsRef} {c : FsCall B.File}
    (hp : Permitted s0 msg fs c) (hcmd : OnHandle msg.cmd) {f : B.File} (hf : c.file? = some f) :
    ∃ sh id of, (s0.handlesOf sh).view id = some of ∧ of.file = some (fs, f) ∧
      of.sessionID = msg.header.sessionID ∧ of.treeID = msg.header.treeID := by
  have hne : msg.cmd ≠ .create ∧ msg.cmd ≠ .logoff := by
    rcases hcmd with hc | hc | hc | hc | hc | hc | hc <;> rw [hc] <;> decide
  cases hp with
  | path _ _ _ _ hfile | rename _ _ _ _ _ hfile => cases hfile.symm.trans hf
  | opened _ hc => exact absurd hc hne.1
  | removed => cases hf
  | handle ht hof hfile =>
    cases hfile.symm.trans hf
    exact ⟨_, _, _, ht.view_eq, hof, ht.owner h⟩
  | closed hview hmine hof =>
    cases hf
    obtain ⟨hsession, htree⟩ := hmine.owner h
    exact ⟨_, _, _, hview, hof, hsession, htree.resolve_left hne.2⟩

/-- **Handle isolation.** In every state that is reached with fewer than 2^64
allocations per share, a request with SessionID `S` and TreeID `T` leaves every record
of another session as it is, and every record of `S` with another tree unless it is a
LOGOFF. The files that READ, WRITE, FLUSH, CLOSE, QUERY_DIRECTORY, QUERY_INFO and
SET_INFO operate on belong to records of `S` and `T`. -/
theorem handle_isolation (options : ServerOptions) (rand : Bytes) (disks : FsRef → B.Disk)
    (es : List Event) (k : ConnId) (msg : SMB2Message) (o : Oracle) (s : Server B)
    (hs : s = (System.run P (.initial options rand disks) es).server) :
    (∀ sh id of, (s.handlesOf sh).view id = some of →
      (of.sessionID ≠ msg.header.sessionID ∨
        of.sessionID = msg.header.sessionID ∧ of.treeID ≠ msg.header.treeID ∧
          msg.cmd ≠ .logoff) →
      ((handleMessage P k msg o s).2.handlesOf sh).view id = some of) ∧
    ∃ calls, (handleMessage P k msg o s).2.log = s.log ++ calls ∧
      ∀ fs c f, (fs, c) ∈ calls → OnHandle msg.cmd → c.file? = some f →
        ∃ sh id of, (s.handlesOf sh).view id = some of ∧ of.file = some (fs, f) ∧
          of.sessionID = msg.header.sessionID ∧ of.treeID = msg.header.treeID := by
  have htables : Tables s := hs ▸ Tables.run options rand disks es
  have hchain : ReflTransGen (Change P k msg o s) s (handleMessage P k msg o s).2 :=
    handleMessage_chain htables.handles
  have hkeep : Tables (handleMessage P k msg o s).2 ∧
      KeepsForeign s msg (handleMessage P k msg o s).2 :=
    chain_invariant (I := fun t => Tables t ∧ KeepsForeign s msg t) hchain
      (fun _ _ hc ht => ⟨htables.change ht.1 hc, ht.2.change htables ht.1 hc⟩)
      ⟨htables, fun _ _ _ hv _ => hv⟩
  refine ⟨fun sh id of hv hforeign => hkeep.2 sh id of hv ?_, ?_⟩
  · exact hforeign.imp_right And.right
  · obtain ⟨calls, hlog, hcalls⟩ := chain_log hchain
    exact ⟨calls, hlog, fun fs c f hmem hcmd hf => (hcalls (fs, c) hmem).owner htables hcmd hf⟩

/-- Session 7 has a file open; session 9, with a tree of the same ID on the
same share, asks to close it. -/
theorem handle_isolation_close :
    let s := (System.run samplePlatform sampleSystem (sampleLogin false ++
      [sent (createRequest 7 1 ['f'] 1 7 1 0),
        .message 1 (sessionSetupRequest 0 []) { sampleOracle with sessionRand := some 9 },
        .message 1 (treeConnectRequest 9 ['R']) sampleOracle])).server
    (s.sessions.validateSession 9).isSome ∧ ((s.handlesOf 1).view ⟨1, 1⟩).isSome ∧
    ((handleMessage samplePlatform 1 (closeRequest 9 1 ⟨1, 1⟩) sampleOracle s).2.handlesOf 1).view
      ⟨1, 1⟩ = (s.handlesOf 1).view ⟨1, 1⟩ := by
  intro s
  have hopen : ((s.handlesOf 1).view ⟨1, 1⟩).map (·.sessionID) = some 7 := by decide +kernel
  obtain ⟨of, hv, hid⟩ := Option.map_eq_some_iff.mp hopen
  have hkept := (handle_isolation _ _ _ _ 1 (closeRequest 9 1 ⟨1, 1⟩) sampleOracle s rfl).1 1 ⟨1, 1⟩
    of hv (.inl (by rw [hid]; decide))
  exact ⟨by decide +kernel, by rw [hv]; rfl, hkept.trans hv.symm⟩

end Smbfs
