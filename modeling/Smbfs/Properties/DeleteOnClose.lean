import Smbfs.System.Handles
import Smbfs.System.Samples
import Smbfs.System.Request

/-!
Deletion on close. Four requests and events take handles out of the handle
maps, and only CLOSE looks at the flag.

* `delete_on_close_iff`: the flag is honoured over a run exactly if
  TREE_DISCONNECT, LOGOFF and the cleanup loop release no marked handle on a
  writable share;
* `tree_disconnect_keeps_file`: TREE_DISCONNECT drops a marked handle and
  leaves the file.
-/

namespace Smbfs

open Smbfs.Lib

variable {B : Backend} {P : Platform} {k : ConnId} {msg : SMB2Message} {o : Oracle}
  {s s' : Server B}

/-! ## The property and its condition -/

/-- The path of a `Remove`. -/
def FsCall.removed {File : Type} : FsCall File → Option Str
  | .remove path => some path
  | _ => none

/-- The calls of `Remove` so far. -/
def removals (s : Server B) : List (FsRef × Str) :=
  s.log.filterMap fun x => x.2.removed.map fun path => (x.1, path)

/-- The calls of `Remove` between two states. -/
def newRemovals (s s' : Server B) : List (FsRef × Str) := (removals s').drop (removals s).length

/-- A marked handle on a writable share that has gone was removed once, and
what was removed are the paths of marked handles that have gone. -/
structure DeletesOnClose (s s' : Server B) : Prop where
  removed : ∀ sh id of, (s.handlesOf sh).view id = some of → of.deleteOnClose = true →
    (s.shareHeap sh).isReadOnly = false → (s'.handlesOf sh).view id = none →
    ∃ fs, (s.shareHeap sh).fs = some fs ∧ (newRemovals s s').count (fs, of.path) = 1
  marked : ∀ fs path, (fs, path) ∈ newRemovals s s' → ∃ sh id of,
    (s.handlesOf sh).view id = some of ∧ of.deleteOnClose = true ∧
    (s.shareHeap sh).fs = some fs ∧ of.path = path ∧ (s'.handlesOf sh).view id = none

/-- An event honours the flag. -/
def HonoursDelete (P : Platform) (sys : System B) (e : Event) : Prop :=
  DeletesOnClose sys.server (sys.step P e).server

/-- None of the handles on the share is marked for deletion, or the share is read-only. -/
def noneMarked (s : Server B) (sh : ShareRef) (ids : List FileID) : Bool :=
  (s.shareHeap sh).isReadOnly ||
    ids.all fun id => ((s.handlesOf sh).view id).all fun of => !of.deleteOnClose

/-- TREE_DISCONNECT, LOGOFF and the cleanup loop find no marked handle to release. -/
def ReleasesNoneMarked (sys : System B) : Event → Prop
  | .message _ msg _ =>
    let s := sys.server
    sys.crashed = false → ∀ r ∈ s.sessions.validateSession msg.header.sessionID,
      (msg.cmd = .treeDisconnect → ∀ tree ∈ (s.sessions.heap r).trees.lookup msg.header.treeID,
        noneMarked s tree.share ((s.handlesOf tree.share).idsByTree tree.id
          (s.sessions.heap r).id) = true) ∧
      (msg.cmd = .logoff → wellFormed msg.payload 4 4 = true →
        ∀ tree ∈ (s.sessions.heap r).trees.values,
          noneMarked s tree.share ((s.handlesOf tree.share).idsByTree tree.id
            (s.sessions.heap r).id) = true)
  | .cleanup now =>
    let s := sys.server
    sys.crashed = false → ∀ sh ∈ s.shares.values, ∀ sessionID ∈ expiredIDs s now,
      noneMarked s sh ((s.handlesOf sh).idsBySession sessionID) = true
  | _ => True

/-- The handle belongs to the session and to one of its trees on the share. -/
def inTrees (session : Session) (trees : List TreeConnection) (sh : ShareRef)
    (of : B.OpenFile) : Bool :=
  trees.any fun tree => sh = tree.share && of.inTree tree.id session.id

/-- The message takes the handle out of the map of `sh`. -/
def SMB2Message.frees (msg : SMB2Message) (s : Server B) (sh : ShareRef)
    (of : B.OpenFile) : Bool :=
  (s.sessions.validateSession msg.header.sessionID).any fun r =>
    let session := s.sessions.heap r
    let tree := (session.trees.lookup msg.header.treeID).toList
    match msg.cmd with
    | .close => wellFormed msg.payload 24 24 &&
        of.id = msg.close.fileID && inTrees session tree sh of
    | .treeDisconnect => inTrees session tree sh of
    | .logoff => wellFormed msg.payload 4 4 && inTrees session session.trees.values sh of
    | _ => false

/-! ## Removals -/

theorem removals_exec (s : Server B) (fs : FsRef) (c : FsCall B.File) :
    removals (s.exec fs c) = removals s ++ (c.removed.map fun path => (fs, path)).toList := by
  simp only [removals, Server.exec, List.filterMap_append]
  cases h : c.removed <;> simp [h]

theorem removals_exec_other (s : Server B) (fs : FsRef) {c : FsCall B.File}
    (hc : c.isRemove = false) : removals (s.exec fs c) = removals s := by
  rw [removals_exec]
  cases c <;> simp_all [FsCall.isRemove, FsCall.removed]

theorem frame_removals : Frame (B := B) removals :=
  ⟨fun _ _ _ => rfl, fun _ _ => rfl, fun _ _ _ => rfl, fun s fs _ hc => removals_exec_other s fs hc⟩

theorem removals_handleMessage (hcmd : msg.cmd ≠ .close) :
    removals (handleMessage P k msg o s).2 = removals s := by
  rw [handleMessage_state]
  exact route_keeps frame_removals (fun _ _ _ => rfl) (absurd · hcmd) s

/-- Without removals, no marked handle on a writable share may go. -/
theorem deletesOnClose_iff_of_removals (h : removals s' = removals s) :
    DeletesOnClose s s' ↔ ∀ sh id of, (s.handlesOf sh).view id = some of →
      of.deleteOnClose = true → (s.shareHeap sh).isReadOnly = false →
      (s'.handlesOf sh).view id ≠ none := by
  have hnew : newRemovals s s' = [] := by simp [newRemovals, h]
  constructor
  · intro hd sh id of hv hmark hw hgone
    obtain ⟨fs, -, hcount⟩ := hd.removed sh id of hv hmark hw hgone
    rw [hnew] at hcount
    cases hcount
  · intro hstay
    refine ⟨fun sh id of hv hmark hw hgone => absurd hgone (hstay sh id of hv hmark hw), ?_⟩
    intro fs path hmem
    rw [hnew] at hmem
    cases hmem

/-- Where the handles with `q` are released, none of them may be marked. -/
theorem deletesOnClose_iff_of_filter {q : ShareRef → B.OpenFile → Bool}
    (hr : removals s' = removals s) (hview : ∀ sh id, (s'.handlesOf sh).view id =
      ((s.handlesOf sh).view id).filter fun of => !q sh of) :
    DeletesOnClose s s' ↔ ∀ sh id of, (s.handlesOf sh).view id = some of →
      of.deleteOnClose = true → (s.shareHeap sh).isReadOnly = false → q sh of = false := by
  rw [deletesOnClose_iff_of_removals hr]
  refine forall_congr' fun sh => forall_congr' fun id => forall_congr' fun of => ?_
  refine imp_congr_right fun hv => imp_congr_right fun _ => imp_congr_right fun _ => ?_
  rw [hview, hv, Option.filter_some]
  cases q sh of <;> simp

theorem noneMarked_iff {sh : ShareRef} {ids : List FileID} :
    noneMarked s sh ids = true ↔ ∀ id ∈ ids, ∀ of, (s.handlesOf sh).view id = some of →
      of.deleteOnClose = true → (s.shareHeap sh).isReadOnly = false → False := by
  unfold noneMarked
  cases hro : (s.shareHeap sh).isReadOnly with
  | true => simp
  | false =>
    simp only [Bool.false_or, List.all_eq_true]
    refine forall_congr' fun id => imp_congr_right fun _ => ?_
    cases (s.handlesOf sh).view id <;> simp

/-! ## The releases -/

variable {tree : TreeConnection}

section Releases

variable {r : SessionRef} {sh : ShareRef} {id : FileID}

theorem filter_eq_of_forall {α : Type} {x : Option α} {p : α → Bool}
    (h : ∀ a, x = some a → p a = true) : x.filter p = x := by
  cases x with
  | none => rfl
  | some a => rw [Option.filter_some, if_pos (h a rfl)]

/-- A request that frees nothing. -/
theorem view_of_frees_none (h : ∀ of, msg.frees s sh of = false) :
    (s.handlesOf sh).view id = ((s.handlesOf sh).view id).filter fun of => !msg.frees s sh of :=
  (filter_eq_of_forall fun of _ => by rw [h of]; rfl).symm

theorem handleTreeDisconnect_frees (hcmd : msg.cmd = .treeDisconnect) :
    ((stateOf (handleTreeDisconnect msg s)).handlesOf sh).view id =
      ((s.handlesOf sh).view id).filter fun of => !msg.frees s sh of := by
  simp only [handleTreeDisconnect, run_validateTree_bind, M.run_get_bind]
  cases hsession : s.sessions.validateSession msg.header.sessionID with
  | none => exact view_of_frees_none (s := s) fun of => by simp [SMB2Message.frees, hsession]
  | some r =>
    dsimp only
    cases htree : (s.sessions.heap r).trees.lookup msg.header.treeID with
    | none =>
      refine view_of_frees_none (s := s) fun of => ?_
      simp [SMB2Message.frees, hsession, htree, hcmd, inTrees]
    | some tree =>
      obtain ⟨a, s1, h1, -, hview⟩ :=
        releaseByTree_releases tree.share tree.id (s.sessions.heap r).id s
      dsimp only
      rw [stateOf_bind h1]
      refine (hview sh id).trans ?_
      simp [SMB2Message.frees, hsession, htree, hcmd, inTrees]

theorem handleLogoff_frees (hcmd : msg.cmd = .logoff) :
    ((stateOf (handleLogoff k msg s)).handlesOf sh).view id =
      ((s.handlesOf sh).view id).filter fun of => !msg.frees s sh of := by
  simp only [handleLogoff, run_validateSession_bind, run_checkRequest_bind, M.run_get_bind]
  cases hsession : s.sessions.validateSession msg.header.sessionID with
  | none => exact view_of_frees_none (s := s) fun of => by simp [SMB2Message.frees, hsession]
  | some r =>
    cases hw : wellFormed msg.payload 4 4 with
    | false =>
      exact view_of_frees_none (s := s) fun of => by simp [SMB2Message.frees, hsession, hcmd, hw]
    | true =>
      obtain ⟨a, s1, h1, -, hview⟩ := releaseTrees_releases (s.sessions.heap r).id
        (s.sessions.heap r).trees.values s
      dsimp only
      rw [if_pos rfl, stateOf_bind h1]
      refine (hview sh id).trans ?_
      simp [SMB2Message.frees, hsession, hcmd, hw, inTrees]

/-- No marked handle of the tree, in terms of the list that `ReleaseByTree` makes. -/
theorem noneMarked_byTree {sessionID : UInt64} :
    noneMarked s tree.share ((s.handlesOf tree.share).idsByTree tree.id sessionID) = true ↔
      ∀ sh id of, (s.handlesOf sh).view id = some of → of.deleteOnClose = true →
        (s.shareHeap sh).isReadOnly = false →
        (decide (sh = tree.share) && of.inTree tree.id sessionID) = false := by
  rw [noneMarked_iff]
  constructor
  · intro h sh id of hv hmark hw
    by_contra hne
    simp only [Bool.not_eq_false, Bool.and_eq_true, decide_eq_true_eq, OpenFile.inTree] at hne
    obtain ⟨rfl, htree, hsession⟩ := hne
    exact h id (FileHandleMap.mem_idsByTree.mpr ⟨of, hv, htree, hsession⟩) of hv hmark hw
  · intro h id hid of hv hmark hw
    obtain ⟨of', hv', htree, hsession⟩ := FileHandleMap.mem_idsByTree.mp hid
    cases hv.symm.trans hv'
    have hfalse := h _ id of hv hmark hw
    simp [OpenFile.inTree, htree, hsession] at hfalse

/-- A request that releases the handles of some trees, if `g` holds. -/
theorem noneFreed_iff (x : Option SessionRef) (g : Bool) (trees : SessionRef → List TreeConnection) :
    (∀ sh id of, (s.handlesOf sh).view id = some of → of.deleteOnClose = true →
      (s.shareHeap sh).isReadOnly = false →
      (x.any fun r => g && inTrees (s.sessions.heap r) (trees r) sh of) = false) ↔
    ∀ r ∈ x, g = true → ∀ tree ∈ trees r, noneMarked s tree.share
      ((s.handlesOf tree.share).idsByTree tree.id (s.sessions.heap r).id) = true := by
  cases x with
  | none => simp
  | some r =>
    cases g with
    | false => simp
    | true =>
      simp only [noneMarked_byTree, inTrees, Option.any_some, Bool.true_and, List.any_eq_false,
        Bool.not_eq_true, Option.mem_def, Option.some.injEq, forall_eq', forall_const]
      constructor
      · exact fun h tree ht sh id of hv hmark hw => h sh id of hv hmark hw tree ht
      · exact fun h sh id of hv hmark hw tree ht => h tree ht sh id of hv hmark hw

end Releases

/-! ## CLOSE -/

variable {of : B.OpenFile}

/-- `Release` of an open handle takes it from the map, and removes nothing. -/
theorem run_release {sh : ShareRef} {id : FileID} (hv : (s.handlesOf sh).view id = some of) :
    ∃ a s', release sh id s = .ok a s' ∧
      s'.shareHeap = (s.modifyHandles sh fun m => m.release id).shareHeap ∧
      removals s' = removals s := by
  simp only [release, M.run_get_bind, hv]
  rw [M.run_modify_bind]
  cases of.file with
  | none => exact ⟨_, _, rfl, rfl, rfl⟩
  | some f => exact ⟨_, _, rfl, rfl, removals_exec_other _ _ rfl⟩

theorem postQuery_cases (flags : UInt16) (of : B.OpenFile) :
    (of.file = none ∧ postQuery flags of s = .error .crash s) ∨
      ∃ info s', postQuery flags of s = .ok info s' ∧ s'.shareHeap = s.shareHeap ∧
        removals s' = removals s := by
  rcases run_postQuery flags of s with ⟨hnil, h⟩ | ⟨info, s', h, rfl | ⟨f, rfl⟩⟩
  · exact .inl ⟨hnil, h⟩
  · exact .inr ⟨info, _, h, rfl, rfl⟩
  · exact .inr ⟨info, _, h, rfl, removals_exec_other _ _ rfl⟩

/-- What CLOSE leaves of the handle maps and adds to the removals: nothing, or
it releases the handle, and removes the path of a marked one. -/
structure Closes (s s' : Server B) (tree : TreeConnection) (id : FileID)
    (of : B.OpenFile) : Prop where
  shareHeap : s'.shareHeap = (s.modifyHandles tree.share fun m => m.release id).shareHeap
  removals : removals s' = removals s ++
    if of.deleteOnClose then ((s.shareHeap tree.share).fs.map fun fs => (fs, of.path)).toList else []

theorem closeFound_closes {req : CloseRequest} {ref : HandleRef}
    (hv : (s.handlesOf tree.share).view req.fileID = some of) {info : Option FileInfo}
    {s1 : Server B} (h1 : postQuery req.flags of s = .ok info s1)
    (hheap1 : s1.shareHeap = s.shareHeap) (hrem1 : removals s1 = removals s) :
    Closes s (stateOf (closeFound req tree (ref, of) s)) tree req.fileID of := by
  have hv1 : (s1.handlesOf tree.share).view req.fileID = some of := by
    rw [Server.handlesOf, hheap1]
    exact hv
  obtain ⟨a, s2, h2, hheap2, hrem2⟩ := run_release hv1
  have hheap : s2.shareHeap =
      (s.modifyHandles tree.share fun m => m.release req.fileID).shareHeap := by
    rw [hheap2]
    simp only [Server.modifyHandles, Server.handlesOf, hheap1]
  have hrem : Smbfs.removals s2 = Smbfs.removals s := hrem2.trans hrem1
  have hfs : (s2.shareHeap tree.share).fs = (s.shareHeap tree.share).fs := by
    rw [hheap, Server.modifyHandles_fs]
  unfold closeFound
  rw [stateOf_bind h1, stateOf_bind h2, closeReleased]
  cases hmark : of.deleteOnClose with
  | false => exact ⟨hheap, by simpa [hmark, stateOf] using hrem⟩
  | true =>
    rw [if_pos rfl, run_shareFs_bind, hfs]
    cases hsome : (s.shareHeap tree.share).fs with
    | none => exact ⟨hheap, by simpa [hmark, hsome, stateOf] using hrem⟩
    | some fs =>
      refine ⟨hheap, ?_⟩
      dsimp only
      rw [M.run_call_bind]
      refine (removals_exec _ _ _).trans ?_
      simp [hrem, hmark, hsome, FsCall.removed]

/-- CLOSE panics before it does anything, or closes the handle. -/
theorem closeFound_cases {req : CloseRequest} {ref : HandleRef}
    (hv : (s.handlesOf tree.share).view req.fileID = some of) :
    (of.file = none ∧ stateOf (closeFound req tree (ref, of) s) = s) ∨
      Closes s (stateOf (closeFound req tree (ref, of) s)) tree req.fileID of := by
  rcases postQuery_cases req.flags of with ⟨hnil, h1⟩ | ⟨info, s1, h1, hheap1, hrem1⟩
  · refine .inl ⟨hnil, ?_⟩
    unfold closeFound
    rw [bind_run, h1]
    rfl
  · exact .inr (closeFound_closes hv h1 hheap1 hrem1)

/-- **CLOSE.** A well-formed request for an open handle closes it. -/
theorem handleClose_cases (msg : SMB2Message) (s : Server B) :
    (stateOf (handleClose msg s) = s ∧ ∀ r tree of,
      Target s msg r tree msg.close.fileID of →
      wellFormed msg.payload 24 24 = true → of.file = none) ∨
      ∃ r tree of, Target s msg r tree msg.close.fileID of ∧
        wellFormed msg.payload 24 24 = true ∧
        Closes s (stateOf (handleClose msg s)) tree msg.close.fileID of := by
  rw [handleClose]
  rcases onHandle_cases s msg 24 24 msg.close.fileID (closeFound msg.close) with
    ⟨r, tree, ref, of, ht, -, hwell, hrun⟩ | ⟨st, -, hrun, hnone⟩
  · rw [hrun]
    rcases closeFound_cases ht.view_eq with ⟨hnil, hsame⟩ | hcloses
    · refine .inl ⟨hsame, fun r' tree' of' ht' _ => ?_⟩
      obtain ⟨rfl⟩ : tree' = tree := Option.some.inj (ht'.toAuth.treeOf_eq.symm.trans
        ht.toAuth.treeOf_eq)
      cases ht'.view_eq.symm.trans ht.view_eq
      exact hnil
    · exact .inr ⟨r, tree, of, ht, hwell, hcloses⟩
  · rw [hrun]
    refine .inl ⟨rfl, fun r tree of ht hwell => ?_⟩
    rw [hnone r tree of ht] at hwell
    cases hwell

/-- CLOSE honours the flag. -/
theorem deletesOnClose_close (hon : HandlesOnShare s) :
    DeletesOnClose s (stateOf (handleClose msg s)) := by
  rcases handleClose_cases msg s with ⟨hsame, -⟩ | ⟨r, tree, of, ht, -, hcloses⟩
  · rw [hsame, deletesOnClose_iff_of_removals rfl]
    intro sh id of hv _ _ hgone
    cases hv.symm.trans hgone
  · have hview : ∀ sh' id', ((stateOf (handleClose msg s)).handlesOf sh').view id' =
        if sh' = tree.share ∧ id' = msg.close.fileID then none
        else (s.handlesOf sh').view id' := by
      intro sh' id'
      rw [Server.handlesOf, hcloses.shareHeap, ← Server.handlesOf, view_modifyHandles_release]
    obtain ⟨-, f, -, hfs⟩ := hon _ _ _ ht.view_eq
    have hnew : newRemovals s (stateOf (handleClose msg s)) =
        if of.deleteOnClose then [(f.1, of.path)] else [] := by
      rw [newRemovals, hcloses.removals, List.drop_left, hfs]
      rfl
    refine ⟨fun sh' id' of' hv hmark _ hgone => ?_, fun fs path hmem => ?_⟩
    · rw [hview] at hgone
      split at hgone
      · next heq =>
        obtain ⟨rfl, rfl⟩ := heq
        cases hv.symm.trans ht.view_eq
        exact ⟨f.1, hfs, by simp [hnew, hmark]⟩
      · cases hv.symm.trans hgone
    · rw [hnew] at hmem
      cases hmark : of.deleteOnClose with
      | false => simp [hmark] at hmem
      | true =>
        simp only [hmark, if_true, List.mem_singleton, Prod.mk.injEq] at hmem
        refine ⟨tree.share, _, of, ht.view_eq, hmark, hfs.trans (by rw [hmem.1]), hmem.2.symm, ?_⟩
        rw [hview, if_pos ⟨rfl, rfl⟩]

/-! ## One event -/

/-- Other requests release no handle. -/
theorem view_handleMessage (hwf : Tables s) (hcmd : msg.cmd.releases = false) {sh : ShareRef}
    {id : FileID} (hv : (s.handlesOf sh).view id ≠ none) :
    ((handleMessage P k msg o s).2.handlesOf sh).view id ≠ none := by
  refine (chain_invariant (I := fun t => Tables t ∧ (t.handlesOf sh).view id ≠ none)
    (handleMessage_chain hwf.handles) ?_ ⟨hwf, hv⟩).2
  rintro t t' hc ⟨ht, hv⟩
  obtain ⟨of, hof⟩ := Option.ne_none_iff_exists'.mp hv
  refine ⟨hwf.change ht hc, Option.ne_none_iff_exists'.mpr ?_⟩
  rcases hc.view_kept ht hof with hsame | ⟨new, hnew, -⟩ | ⟨hyes, -⟩
  · exact ⟨of, hsame⟩
  · exact ⟨new, hnew⟩
  · cases hcmd.symm.trans hyes

/-- Where no handle goes and nothing is removed, the flag is honoured. -/
theorem deletesOnClose_of_view (hr : removals s' = removals s)
    (hview : ∀ sh id, (s'.handlesOf sh).view id = (s.handlesOf sh).view id) :
    DeletesOnClose s s' := by
  rw [deletesOnClose_iff_of_removals hr]
  intro sh id of hv _ _ hgone
  rw [hview, hv] at hgone
  cases hgone

theorem DeletesOnClose.refl (s : Server B) : DeletesOnClose s s :=
  deletesOnClose_of_view rfl fun _ _ => rfl

theorem deletesOnClose_other (hwf : Tables s) (hcmd : msg.cmd.releases = false) :
    DeletesOnClose s (handleMessage P k msg o s).2 := by
  have hclose : msg.cmd ≠ .close := fun h => by rw [h] at hcmd; cases hcmd
  rw [deletesOnClose_iff_of_removals (removals_handleMessage hclose)]
  intro sh id of hv _ _
  exact view_handleMessage hwf hcmd (by simp [hv])

theorem deletesOnClose_treeDisconnect (hcmd : msg.cmd = .treeDisconnect) :
    DeletesOnClose s (handleMessage P k msg o s).2 ↔
      ∀ r ∈ s.sessions.validateSession msg.header.sessionID,
      ∀ tree ∈ (s.sessions.heap r).trees.lookup msg.header.treeID,
        noneMarked s tree.share ((s.handlesOf tree.share).idsByTree tree.id
          (s.sessions.heap r).id) = true := by
  have hrem : removals (handleMessage P k msg o s).2 = removals s :=
    removals_handleMessage (by simp [hcmd])
  rw [handleMessage_treeDisconnect hcmd, respond_state] at hrem ⊢
  rw [deletesOnClose_iff_of_filter hrem fun sh id => handleTreeDisconnect_frees hcmd]
  simpa [SMB2Message.frees, hcmd] using noneFreed_iff (s := s) _ true
    fun r => ((s.sessions.heap r).trees.lookup msg.header.treeID).toList

theorem deletesOnClose_logoff (hcmd : msg.cmd = .logoff) :
    DeletesOnClose s (handleMessage P k msg o s).2 ↔
      ∀ r ∈ s.sessions.validateSession msg.header.sessionID, wellFormed msg.payload 4 4 = true →
      ∀ tree ∈ (s.sessions.heap r).trees.values,
        noneMarked s tree.share ((s.handlesOf tree.share).idsByTree tree.id
          (s.sessions.heap r).id) = true := by
  have hrem : removals (handleMessage P k msg o s).2 = removals s :=
    removals_handleMessage (by simp [hcmd])
  rw [handleMessage_logoff hcmd, respond_state] at hrem ⊢
  rw [deletesOnClose_iff_of_filter hrem fun sh id => handleLogoff_frees hcmd]
  simp only [SMB2Message.frees, hcmd]
  exact noneFreed_iff _ _ fun r => (s.sessions.heap r).trees.values

theorem deletesOnClose_cleanup (now : GoTime) :
    DeletesOnClose s (stateOf (cleanupTick now s)) ↔
      ∀ sh ∈ s.shares.values, ∀ sessionID ∈ expiredIDs s now,
        noneMarked s sh ((s.handlesOf sh).idsBySession sessionID) = true := by
  have hrem : removals (stateOf (cleanupTick now s)) = removals s :=
    Frame.cleanupTick frame_removals.calm now s
  rw [deletesOnClose_iff_of_filter hrem fun sh id => cleanupTick_view now]
  simp only [noneMarked_iff, FileHandleMap.mem_idsBySession]
  constructor
  · rintro h sh hsh sessionID hid id ⟨of', hv', rfl⟩ of hv hmark hwrite
    cases hv'.symm.trans hv
    have hfalse := h sh id of' hv' hmark hwrite
    simp [hsh, hid] at hfalse
  · intro h sh id of hv hmark hwrite
    by_contra hne
    simp only [Bool.not_eq_false, Bool.and_eq_true, List.contains_iff_mem] at hne
    exact h sh hne.1 of.sessionID hne.2 id ⟨of, hv, rfl⟩ of hv hmark hwrite

/-! ## Runs -/

theorem deletesOnClose_setConn (k : ConnId) (c c' : ConnState) :
    DeletesOnClose s (s'.setConn k c') ↔ DeletesOnClose (s.setConn k c) s' :=
  ⟨fun h => ⟨h.removed, h.marked⟩, fun h => ⟨h.removed, h.marked⟩⟩

theorem honoursDelete_message {sys : System B} (hcr : sys.crashed = false)
    (hwf : Tables sys.server) (hon : HandlesOnShare sys.server) :
    HonoursDelete P sys (.message k msg o) ↔ ReleasesNoneMarked sys (.message k msg o) := by
  obtain ⟨c, c', heq⟩ := step_message P k msg o hcr
  rw [HonoursDelete, heq, deletesOnClose_setConn k c]
  simp only [ReleasesNoneMarked, hcr, forall_const]
  cases hrel : msg.cmd.releases with
  | false =>
    refine iff_of_true (deletesOnClose_other (hwf.setConn k c) hrel) fun r _ => ⟨fun h => ?_, fun h => ?_⟩
    all_goals
      rw [h] at hrel
      cases hrel
  | true =>
    by_cases hclose : msg.cmd = .close
    · have hstate : (handleMessage P k msg o (sys.server.setConn k c)).2 =
          stateOf (handleClose msg (sys.server.setConn k c)) := by
        rw [handleMessage_close hclose, respond_state]
      rw [hstate]
      refine iff_of_true (deletesOnClose_close hon) fun r _ => ⟨fun h => ?_, fun h => ?_⟩ <;>
        cases hclose.symm.trans h
    · by_cases htree : msg.cmd = .treeDisconnect
      · rw [deletesOnClose_treeDisconnect htree]
        refine forall_congr' fun r => imp_congr_right fun _ => ?_
        simp only [htree, forall_const, reduceCtorEq, false_imp_iff, and_true]
        rfl
      · have hlogoff : msg.cmd = .logoff := by
          cases hcmd : msg.cmd <;> simp_all [Command.releases]
        rw [deletesOnClose_logoff hlogoff]
        refine forall_congr' fun r => imp_congr_right fun _ => ?_
        simp only [hlogoff, forall_const, reduceCtorEq, false_imp_iff, true_and]
        rfl

/-- **One event.** -/
theorem honoursDelete_iff {sys : System B} (hwf : Tables sys.server)
    (hon : HandlesOnShare sys.server) (e : Event) :
    HonoursDelete P sys e ↔ ReleasesNoneMarked sys e := by
  cases hcr : sys.crashed with
  | true =>
    rw [HonoursDelete, step_crashed hcr]
    refine iff_of_true (.refl _) ?_
    cases e <;> simp [ReleasesNoneMarked, hcr]
  | false =>
    cases e with
    | message k msg o => exact honoursDelete_message hcr hwf hon
    | cleanup now =>
      rw [HonoursDelete, step_react hcr]
      simp only [ReleasesNoneMarked, hcr, forall_const]
      exact deletesOnClose_cleanup now
    | connect | removeShare =>
      rw [HonoursDelete, step_react hcr]
      exact iff_of_true (deletesOnClose_of_view rfl fun _ _ => rfl) trivial
    | addShare fs options =>
      rw [HonoursDelete, step_react hcr]
      refine iff_of_true (deletesOnClose_of_view ?_ (hon.view_addShare fs options)) trivial
      simp only [System.react, Server.addShare]
      split <;> rfl

/-- **Deletion on close.** Over a run, every marked handle on a writable share
that goes is removed once, and nothing else is, exactly if TREE_DISCONNECT,
LOGOFF and the cleanup loop release no marked handle on a writable share. The run
allocates fewer than 2^64 handles per share. -/
theorem delete_on_close_iff (options : ServerOptions) (rand : Bytes) (disks : FsRef → B.Disk)
    (es : List Event) :
    Along (System.step P) (HonoursDelete P) (.initial options rand disks) es ↔
      Along (System.step P) ReleasesNoneMarked (.initial options rand disks) es := by
  refine along_iff_along (I := fun sys => Tables sys.server ∧ HandlesOnShare sys.server) ?_ ?_
    ⟨.initial options rand disks, .initial options rand disks⟩
  · rintro sys e ⟨hwf, hon⟩
    exact ⟨hwf.step e, hon.step hwf e⟩
  · rintro sys e ⟨hwf, hon⟩
    exact honoursDelete_iff hwf hon e

/-- A file opened for deletion on close, whose tree is then disconnected. -/
theorem tree_disconnect_keeps_file :
    ¬ Along (System.step samplePlatform) (HonoursDelete samplePlatform) sampleSystem
      (sampleLogin false ++ [sent (createRequest 7 1 ['f'] 0x10001 7 1 0x1000),
        sent (request 4 7 1 emptyResponse)]) := by
  intro h
  let sys := System.run samplePlatform sampleSystem
    (sampleLogin false ++ [sent (createRequest 7 1 ['f'] 0x10001 7 1 0x1000)])
  have hmark : ((sys.server.handlesOf 1).view ⟨1, 1⟩).map (·.deleteOnClose) = some true := by
    decide +kernel
  obtain ⟨of, hv, hmark⟩ := Option.map_eq_some_iff.mp hmark
  have hlast : HonoursDelete samplePlatform sys (sent (request 4 7 1 emptyResponse)) :=
    (along_append.mp h).2.2.1
  obtain ⟨fs, -, hcount⟩ := hlast.removed 1 ⟨1, 1⟩ of hv hmark (by decide +kernel) (by
    rw [← Option.isNone_iff_eq_none]
    decide +kernel)
  have hnone : newRemovals sys.server (sys.step samplePlatform
      (sent (request 4 7 1 emptyResponse))).server = [] := by decide +kernel
  rw [hnone] at hcount
  cases hcount

end Smbfs
