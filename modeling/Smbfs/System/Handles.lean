import Smbfs.System.Tables

/-!
The open handles over a request and over a run.

* `Change.view_cases`: where a handle that is open after a change comes from;
* `AllHandles.step`: a property of records that CREATE establishes and the
  edits keep is a property of every open handle;
* `HandlesOnShare.step`: every open handle has a file of its share;
* `step_calls`: the calls an event makes on the filesystems.
-/

namespace Smbfs

open Smbfs.Lib Relation

variable {B : Backend} {P : Platform} {k : ConnId} {msg : SMB2Message} {o : Oracle}
  {s0 s s' : Server B}

theorem Server.view_modifyHandles (s : Server B) (sh sh' : ShareRef)
    (f : B.FileHandleMap → B.FileHandleMap) (id : FileID) :
    ((s.modifyHandles sh f).handlesOf sh').view id =
      if sh' = sh then (f (s.handlesOf sh)).view id else (s.handlesOf sh').view id := by
  rw [Server.handlesOf_modifyHandles]
  split <;> rfl

/-! ## Owners -/

/-- The record a request names belongs to its session and its tree. -/
theorem Target.owner (h : Tables s0) {r : SessionRef} {tree : TreeConnection} {id : FileID}
    {of : B.OpenFile} (ht : Target s0 msg r tree id of) :
    of.sessionID = msg.header.sessionID ∧ of.treeID = msg.header.treeID := by
  have hr := (SessionManager.validateSession_eq_some.mp ht.session_eq).1
  exact ⟨ht.sessionID_eq.trans (h.sessions.id_eq _ _ hr),
    ht.treeID_eq.trans (h.tree_id _ _ _ ht.tree_eq)⟩

theorem Mine.owner (h : Tables s0) {sh : ShareRef} {of : B.OpenFile}
    (hm : Mine s0 msg sh of) :
    of.sessionID = msg.header.sessionID ∧ (msg.cmd = .logoff ∨ of.treeID = msg.header.treeID) := by
  obtain ⟨r, hr, hs, htree⟩ := hm
  refine ⟨hs.trans (h.sessions.id_eq _ _ (SessionManager.validateSession_eq_some.mp hr).1), ?_⟩
  rcases htree with hcmd | ⟨tree, htree, -, hid⟩
  · exact .inl hcmd
  · exact .inr (hid.trans (h.tree_id _ _ _ htree))

/-! ## One change -/

/-- The records CREATE may allocate in the handle map of `sh`. -/
def Created (s0 : Server B) (msg : SMB2Message) (o : Oracle) (sh : ShareRef)
    (of : B.OpenFile) : Prop :=
  ∃ r tree filename file isDir, Auth s0 msg r tree ∧ msg.cmd = .create ∧ tree.share = sh ∧
    createFilename msg.payload = some filename ∧
    (s0.handlesOf sh).checkShareAccess filename msg.create.desiredAccess
      msg.create.shareAccess = true ∧
    of = createdFile (s0.handlesOf sh) o msg.create file filename isDir
      tree.id (s0.sessions.heap r).id

/-- The records a write to the handle `id` of `sh` may make of `old`. -/
def Edited (s0 : Server B) (msg : SMB2Message) (o : Oracle) (sh : ShareRef) (id : FileID)
    (old new : B.OpenFile) : Prop :=
  ∃ r tree of f, Target s0 msg r tree id of ∧ Edit msg o tree id of f ∧ tree.share = sh ∧ new = f old

/-- **Inversion.** A change leaves an entry of a handle map as it is, allocates
it, edits it or releases it. -/
theorem Change.view (h : Tables s) (hc : Change P k msg o s0 s s') (sh : ShareRef) (id : FileID) :
    (s'.handlesOf sh).view id = (s.handlesOf sh).view id ∨
    (∃ of, (s'.handlesOf sh).view id = some of ∧ s.sessions = s0.sessions ∧
      Created s0 msg o sh of ∧ (s.handlesOf sh).view id = none ∧
      ∃ file, of.file = some file ∧ (s0.shareHeap sh).fs = some file.1) ∨
    (∃ old new, (s.handlesOf sh).view id = some old ∧ (s'.handlesOf sh).view id = some new ∧
      Edited s0 msg o sh id old new) ∨
    ((s'.handlesOf sh).view id = none ∧ msg.cmd.releases = true ∧
      ∃ old, (s0.handlesOf sh).view id = some old ∧ Mine s0 msg sh old) := by
  cases hc with
  | @allocate _ r tree filename file isDir hauth hcmd hname hcheck hheap hs hfs =>
    rw [Server.view_modifyHandles]
    split
    · next hsh =>
      subst hsh
      rw [(h.handles tree.share).view_allocate]
      split
      · next hid =>
        refine .inr (.inl ⟨_, rfl, hs, ⟨r, tree, filename, file, isDir, hauth, hcmd, rfl, hname,
          hcheck, rfl⟩, (h.handles tree.share).view_fresh ?_, file, rfl, hfs⟩)
        rw [hid, Server.handlesOf, Server.handlesOf, hheap]
        rfl
      · exact .inl rfl
    · exact .inl rfl
  | @edit _ r tree id' of f ht he =>
    rw [Server.view_modifyHandles]
    split
    · next hsh =>
      subst hsh
      rw [(h.handles tree.share).view_modifyID]
      split
      · next hid =>
        subst hid
        cases (s.handlesOf tree.share).view id with
        | none => exact .inl rfl
        | some old => exact .inr (.inr (.inl ⟨old, _, rfl, rfl, r, tree, of, f, ht, he, rfl, rfl⟩))
      · exact .inl rfl
    · exact .inl rfl
  | release hview hmine hcmd =>
    rw [view_modifyHandles_release]
    split
    · next heq =>
      obtain ⟨rfl, rfl⟩ := heq
      exact .inr (.inr (.inr ⟨rfl, hcmd, _, hview, hmine⟩))
    · exact .inl rfl
  | _ => exact .inl rfl

section View

variable (h : Tables s) (hc : Change P k msg o s0 s s') {sh : ShareRef} {id : FileID}
  {of : B.OpenFile}

include h hc

/-- A handle that is open after a change was open before, as it is or before an
edit, or has just been allocated. -/
theorem Change.view_cases (hv : (s'.handlesOf sh).view id = some of) :
    (s.handlesOf sh).view id = some of ∨
    (s.sessions = s0.sessions ∧ Created s0 msg o sh of) ∨
    ∃ old, (s.handlesOf sh).view id = some old ∧ Edited s0 msg o sh id old of := by
  rcases hc.view h sh id with heq | ⟨_, hnew, hs, hcreated, -⟩ | ⟨old, _, hold, hnew, hed⟩ |
    ⟨hnone, -⟩
  · exact .inl (heq.symm.trans hv)
  · cases hnew.symm.trans hv
    exact .inr (.inl ⟨hs, hcreated⟩)
  · cases hnew.symm.trans hv
    exact .inr (.inr ⟨old, hold, hed⟩)
  · cases hnone.symm.trans hv

/-- A handle that is open before a change stays open as it is or with an edit, or
belongs to the request, which releases handles. -/
theorem Change.view_kept (hv : (s.handlesOf sh).view id = some of) :
    (s'.handlesOf sh).view id = some of ∨
    (∃ new, (s'.handlesOf sh).view id = some new ∧ Edited s0 msg o sh id of new) ∨
    (msg.cmd.releases = true ∧ ∃ old, (s0.handlesOf sh).view id = some old ∧ Mine s0 msg sh old) := by
  rcases hc.view h sh id with heq | ⟨_, -, -, -, hnone, -⟩ | ⟨old, new, hold, hnew, hed⟩ |
    ⟨-, hreleased⟩
  · exact .inl (heq.trans hv)
  · cases hnone.symm.trans hv
  · cases hold.symm.trans hv
    exact .inr (.inl ⟨new, hnew, hed⟩)
  · exact .inr (.inr hreleased)

end View

variable {c : ConnState} {r : SessionRef} {tree : TreeConnection} {sys : System B}

/-- **A message and its changes.** What does not depend on the connections and is kept by
the changes that the message may make is kept by the message. -/
theorem step_message_invariant {I : Server B → Prop} (h : Tables sys.server)
    (hconn : ∀ t c, I t → I (t.setConn k c))
    (hchange : ∀ c t t', Change P k msg o (sys.server.setConn k c) t t' → Tables t → I t → I t')
    (hI : I sys.server) : I (sys.step P (.message k msg o)).server := by
  cases hcr : sys.crashed with
  | true =>
    rw [step_crashed hcr]
    exact hI
  | false =>
    obtain ⟨c, c', heq⟩ := step_message P k msg o hcr
    rw [heq]
    refine hconn _ c' (chain_invariant (I := fun t => Tables t ∧ I t)
      (handleMessage_chain (h.setConn k c).handles) ?_ ⟨h.setConn k c, hconn _ c hI⟩).2
    rintro t t' hc ⟨ht, hIt⟩
    exact ⟨(h.setConn k c).change ht hc, hchange c t t' hc ht hIt⟩

theorem Sweep.view {now : GoTime} (hc : Sweep now s s') {sh : ShareRef} {id : FileID}
    {of : B.OpenFile} (hv : (s'.handlesOf sh).view id = some of) :
    (s.handlesOf sh).view id = some of := by
  cases hc with
  | release =>
    rw [view_modifyHandles_release] at hv
    split at hv
    · cases hv
    · exact hv
  | _ => exact hv

/-! ## Connections

What a request found does not depend on the connection it came over. -/

theorem Auth.of_setConn (h : Auth (s.setConn k c) msg r tree) : Auth s msg r tree :=
  ⟨h.session_eq, h.tree_eq⟩

theorem Target.of_setConn {id : FileID} {of : B.OpenFile}
    (h : Target (s.setConn k c) msg r tree id of) : Target s msg r tree id of :=
  ⟨h.toAuth.of_setConn, h.view_eq, h.treeID_eq, h.sessionID_eq⟩

/-! ## Properties of every handle -/

/-- Every open handle has `J`, which may depend on the options of its share. -/
def AllHandles (J : ShareOptions → B.OpenFile → Prop) (s : Server B) : Prop :=
  ∀ sh id of, (s.handlesOf sh).view id = some of → J (s.shareHeap sh).options of

namespace AllHandles

variable {J : ShareOptions → B.OpenFile → Prop}

theorem handleMessage (hJ : AllHandles J s) (h : Tables s)
    (hcreate : ∀ sh of, Created s msg o sh of → J (s.shareHeap sh).options of)
    (hedit : ∀ sh id old new, Edited s msg o sh id old new → J (s.shareHeap sh).options old →
      J (s.shareHeap sh).options new) : AllHandles J (handleMessage P k msg o s).2 := by
  -- the options stay those that the request found
  let I : Server B → Prop := fun t => Tables t ∧ SameShares s t ∧ AllHandles J t
  suffices hI : I (Smbfs.handleMessage P k msg o s).2 from hI.2.2
  refine chain_invariant (handleMessage_chain h.handles) ?_ ⟨h, .refl s, hJ⟩
  rintro t t' hc ⟨ht, hsame, hJt⟩
  have hsame' := hsame.trans hc.sameShares
  refine ⟨h.change ht hc, hsame', fun sh id of hv => ?_⟩
  rw [hsame'.share_options]
  rcases hc.view_cases ht hv with hold | ⟨-, hnew⟩ | ⟨old, hold, hed⟩
  · rw [← hsame.share_options]
    exact hJt sh id of hold
  · exact hcreate sh of hnew
  · refine hedit sh id old of hed ?_
    rw [← hsame.share_options]
    exact hJt sh id old hold

theorem cleanupTick (hJ : AllHandles J s) (now : GoTime) :
    AllHandles J (stateOf (cleanupTick now s)) := by
  refine chain_invariant (cleanupTick_runs now).chain (fun t t' hc hJt sh id of hv => ?_) hJ
  rw [hc.sameShares.share_options]
  exact hJt sh id of (hc.view hv)

theorem addShare (hJ : AllHandles J s) (fs : Option FsRef) (options : ShareOptions) :
    AllHandles J (s.addShare fs options) := by
  intro sh id of hv
  rcases addShare_cases s fs options sh with heq | heq <;> rw [Server.handlesOf, heq] at hv
  · rw [heq]
    exact hJ sh id of hv
  · simp [Share.new] at hv

theorem initial (options : ServerOptions) (rand : Bytes) (disks : FsRef → B.Disk) :
    AllHandles J (newServer options rand disks) := by
  intro sh id of hv
  simp [newServer, Server.handlesOf, ipcShare, Share.new] at hv

/-- **Handle rule.** -/
theorem step (h : Tables sys.server) (hJ : AllHandles J sys.server) (e : Event)
    (hcreate : ∀ k msg o, e = .message k msg o → sys.crashed = false → ∀ sh of,
      Created sys.server msg o sh of → J (sys.server.shareHeap sh).options of)
    (hedit : ∀ k msg o, e = .message k msg o → sys.crashed = false → ∀ sh id old new,
      Edited sys.server msg o sh id old new → J (sys.server.shareHeap sh).options old →
        J (sys.server.shareHeap sh).options new) : AllHandles J (sys.step P e).server := by
  refine step_keeps (fun _ _ _ hs => hs) ?_ (fun fs options hs => hs.addShare fs options)
    (fun _ _ hs => hs) (fun now hs => hs.cleanupTick now) hJ
  intro k msg o c he hcr hs
  refine hs.handleMessage (h.setConn k c) ?_ ?_
  · rintro sh of ⟨r, tree, name, file, isDir, hauth, hrest⟩
    exact hcreate k msg o he hcr sh of ⟨r, tree, name, file, isDir, hauth.of_setConn, hrest⟩
  · rintro sh id old new ⟨r, tree, of, f, ht, hrest⟩
    exact hedit k msg o he hcr sh id old new ⟨r, tree, of, f, ht.of_setConn, hrest⟩

end AllHandles

/-! ## Files -/

/-- Every open handle is on a share that was added, and has a file of its filesystem. -/
def HandlesOnShare (s : Server B) : Prop :=
  ∀ sh id of, (s.handlesOf sh).view id = some of →
    sh < s.nextShare ∧ ∃ f, of.file = some f ∧ (s.shareHeap sh).fs = some f.1

namespace HandlesOnShare

section

variable (h : HandlesOnShare s)

include h

theorem change (h0 : Tables s0) (hwf : Tables s) (hsame : SameShares s0 s)
    (hc : Change P k msg o s0 s s') : HandlesOnShare s' := by
  intro sh id of hv
  rw [hc.sameShares.share_fs, hc.sameShares.nextShare]
  rcases hc.view hwf sh id with heq | ⟨_, hnew, -, hcreated, -, file, hfile, hfs⟩ |
    ⟨old, _, hold, hnew, r, tree, of', f, -, he, -, rfl⟩ | ⟨hnone, -⟩
  · exact h sh id of (heq.symm.trans hv)
  · cases hnew.symm.trans hv
    obtain ⟨r, tree, _, _, _, hauth, -, rfl, -⟩ := hcreated
    rw [hsame.nextShare]
    exact ⟨h0.tree_share _ _ _ hauth.tree_eq, file, hfile, (hsame.share_fs _).trans hfs⟩
  · cases hnew.symm.trans hv
    obtain ⟨hlt, file, hfile, hfs⟩ := h sh id old hold
    cases he <;> exact ⟨hlt, file, hfile, hfs⟩
  · cases hnone.symm.trans hv

theorem handleMessage (hwf : Tables s) :
    HandlesOnShare (handleMessage P k msg o s).2 :=
  (chain_invariant (I := fun t => Tables t ∧ SameShares s t ∧ HandlesOnShare t)
    (handleMessage_chain hwf.handles)
    (fun _ _ hc ⟨ht, hsame, hi⟩ =>
      ⟨hwf.change ht hc, hsame.trans hc.sameShares, hi.change hwf ht hsame hc⟩)
    ⟨hwf, .refl s, h⟩).2.2

theorem cleanupTick (now : GoTime) :
    HandlesOnShare (stateOf (cleanupTick now s)) := by
  refine chain_invariant (cleanupTick_runs now).chain (fun t t' hc ht sh id of hv => ?_) h
  rw [hc.sameShares.share_fs, hc.sameShares.nextShare]
  exact ht sh id of (hc.view hv)

/-- `AddShare` leaves the handles as they are. -/
theorem view_addShare (fs : Option FsRef) (options : ShareOptions) (sh : ShareRef) (id : FileID) :
    ((s.addShare fs options).handlesOf sh).view id = (s.handlesOf sh).view id := by
  unfold Server.addShare
  split
  · rfl
  · by_cases hsh : sh = s.nextShare
    · subst hsh
      have hnone : (s.handlesOf s.nextShare).view id = none :=
        Option.eq_none_iff_forall_ne_some.mpr fun of hv => Nat.lt_irrefl _ (h _ _ of hv).1
      rw [hnone]
      simp [Server.handlesOf, Share.new]
    · simp [Server.handlesOf, hsh]

theorem addShare (fs : Option FsRef) (options : ShareOptions) :
    HandlesOnShare (s.addShare fs options) := by
  intro sh id of hv
  rw [h.view_addShare] at hv
  obtain ⟨hlt, hf⟩ := h sh id of hv
  rw [addShare_old s fs options hlt]
  exact ⟨Nat.lt_of_lt_of_le hlt (addShare_nextShare_le ..), hf⟩

end

theorem initial (options : ServerOptions) (rand : Bytes) (disks : FsRef → B.Disk) :
    HandlesOnShare (newServer options rand disks) := by
  intro sh id of hv
  simp [newServer, Server.handlesOf, ipcShare, Share.new] at hv

theorem step (h : HandlesOnShare sys.server) (hwf : Tables sys.server) (e : Event) :
    HandlesOnShare (sys.step P e).server :=
  step_keeps (fun _ _ _ hs => hs) (fun k _ _ c _ _ hs => handleMessage hs (hwf.setConn k c))
    (fun fs options hs => hs.addShare fs options) (fun _ _ hs => hs)
    (fun now hs => hs.cleanupTick now) h

end HandlesOnShare

/-! ## Calls -/

theorem Permitted.setConn {fs : FsRef} {call : FsCall B.File}
    (h : Permitted (s.setConn k c) msg fs call) : Permitted s msg fs call := by
  cases h with
  | path ha hcmd hname hfs hfile hp hro => exact .path ha.of_setConn hcmd hname hfs hfile hp hro
  | opened ha hcmd hfile hmut hfs => exact .opened ha.of_setConn hcmd hfile hmut hfs
  | handle ht hof hfile hro => exact .handle ht.of_setConn hof hfile hro
  | rename ht hcmd hro hname hfs hfile hp => exact .rename ht.of_setConn hcmd hro hname hfs hfile hp
  | removed ht hcmd hdel hfs => exact .removed ht.of_setConn hcmd hdel hfs
  | closed hview hmine hof => exact .closed hview hmine hof

/-- The calls of an event: those its request may make, and in a cleanup tick
the closing of files. -/
theorem step_calls (h : Tables sys.server) (e : Event) :
    ∃ calls, (sys.step P e).server.log = sys.server.log ++ calls ∧ ∀ x ∈ calls,
      (∃ k msg o, e = .message k msg o ∧ sys.crashed = false ∧
        Permitted sys.server msg x.1 x.2) ∨ ∃ f, x.2 = .close f := by
  cases hcr : sys.crashed with
  | true => rw [step_crashed hcr]; exact ⟨[], by simp⟩
  | false =>
    cases e with
    | message k msg o =>
      obtain ⟨c, c', heq⟩ := step_message P k msg o hcr
      have hchain : ReflTransGen (Change P k msg o (sys.server.setConn k c)) _ _ :=
        handleMessage_chain (h.setConn k c).handles
      obtain ⟨calls, hlog, hcalls⟩ := chain_log hchain
      rw [heq]
      exact ⟨calls, hlog, fun x hx => .inl ⟨k, msg, o, rfl, rfl, (hcalls x hx).setConn⟩⟩
    | cleanup now =>
      rw [step_react hcr]
      obtain ⟨calls, hlog, hcalls⟩ := sweep_log (cleanupTick_runs (s := sys.server) now).chain
      exact ⟨calls, hlog, fun x hx => .inr (hcalls x hx)⟩
    | connect | removeShare => rw [step_react hcr]; exact ⟨[], by simp [System.react,
        Server.setConn, Server.removeShare]⟩
    | addShare fs options =>
      rw [step_react hcr]
      refine ⟨[], ?_, by simp⟩
      simp only [System.react, Server.addShare, List.append_nil]
      split <;> rfl

end Smbfs
