import Smbfs.System.Exits

/-!
Requests for an open handle: CLOSE, READ, WRITE and SET_INFO.

* `onHandle_cases`: the handler goes on with the record of the handle, if there is one;
* `handleSetInfo_rename`: a rename that is answered with STATUS_SUCCESS.
-/

namespace Smbfs

open Smbfs.Lib

variable {B : Backend} {msg : SMB2Message} {o : Oracle} {s s' : Server B}

section OnHandle

variable {n : Nat} {size : UInt16} {id : FileID} {r : SessionRef} {tree : TreeConnection}
  {of : B.OpenFile} {f : TreeConnection → HandleRef × B.OpenFile → M B Reply}

theorem run_onHandle (ht : Target s msg r tree id of)
    (hwell : wellFormed msg.payload n size = true) :
    ∃ ref, (s.handlesOf tree.share).handles.lookup id = some ref ∧
      onHandle msg n size id f s = f tree (ref, of) s := by
  obtain ⟨ref, href, hheap, hget⟩ := ht.getByTree_eq
  refine ⟨ref, href, ?_⟩
  rw [onHandle, run_validateTree_bind, ht.session_eq]
  dsimp only
  rw [ht.tree_eq]
  dsimp only
  rw [run_checkRequest_bind, if_pos hwell, run_getByTree_bind, hget]
  dsimp only
  rw [hheap]

/-- **Requests for a handle.** The handler goes on with the record of the handle, or
nothing happens. -/
theorem onHandle_cases (s : Server B) (msg : SMB2Message) (n : Nat) (size : UInt16) (id : FileID)
    (f : TreeConnection → HandleRef × B.OpenFile → M B Reply) :
    (∃ r tree ref of, Target s msg r tree id of ∧
      (s.handlesOf tree.share).handles.lookup id = some ref ∧
      wellFormed msg.payload n size = true ∧
      onHandle msg n size id f s = f tree (ref, of) s) ∨
    (∃ st, st ≠ .success ∧ onHandle msg n size id f s = .error (.status st) s ∧
      ∀ r tree of, Target s msg r tree id of → wellFormed msg.payload n size = false) := by
  by_cases h : ∃ r tree of, Target s msg r tree id of ∧ wellFormed msg.payload n size = true
  · obtain ⟨r, tree, of, ht, hwell⟩ := h
    obtain ⟨ref, href, hrun⟩ := run_onHandle (f := f) ht hwell
    exact .inl ⟨r, tree, ref, of, ht, href, hwell, hrun⟩
  · obtain ⟨st, hst, hrun⟩ := M.stops_same (m := onHandle msg n size id f) (s := s) <|
      onHandle_runs fun r tree ref of ht _ hwell => absurd ⟨r, tree, of, ht, hwell⟩ h
    exact .inr ⟨st, hst, hrun, fun r tree of ht => Bool.eq_false_iff.mpr fun hwell =>
      h ⟨r, tree, of, ht, hwell⟩⟩

theorem onHandle_ok {reply : Reply} (h : onHandle msg n size id f s = .ok reply s') :
    ∃ r tree ref of, Target s msg r tree id of ∧
      (s.handlesOf tree.share).handles.lookup id = some ref ∧
      wellFormed msg.payload n size = true ∧ f tree (ref, of) s = .ok reply s' := by
  rcases onHandle_cases s msg n size id f with
    ⟨r, tree, ref, of, ht, href, hwell, hrun⟩ | ⟨st, -, hrun, -⟩
  · exact ⟨r, tree, ref, of, ht, href, hwell, hrun ▸ h⟩
  · cases hrun.symm.trans h

end OnHandle

/-! ## SET_INFO -/

/-- The server after a rename of the handle `id` from `a` to `b`. -/
def Server.renamed (s : Server B) (o : Oracle) (sh : ShareRef) (fs : FsRef) (id : FileID)
    (a b : Str) : Server B :=
  ((((s.modifyHandles sh fun m => m.updateLastAccess id o.now).exec fs (.stat b)).exec fs
    (.rename a b)).modifyHandles sh fun m => m.modifyID id fun of => { of with path := b })

theorem setFileRenameInformation_ok {sh : ShareRef} {ref : HandleRef} {of : B.OpenFile}
    {buffer : Bytes} :
    Runs (fun _ _ => True) (fun _ => True) (setFileRenameInformation sh ref of buffer) s fun _ s' =>
    ∃ x fs, readRenameInformation.parse buffer = some x ∧ (s.shareHeap sh).fs = some fs ∧
      (B.exec (.rename of.path (renamePath of.path x.2))
        (B.exec (.stat (renamePath of.path x.2)) (s.disks fs)).2).1 = none ∧
      s' = ((s.exec fs (.stat (renamePath of.path x.2))).exec fs
        (.rename of.path (renamePath of.path x.2))).modifyHandles sh fun m =>
          m.modify ref fun of' => { of' with path := renamePath of.path x.2 } := by
  refine M.bind_failIf nofun fun _ => M.bind_require nofun fun x hname => ?_
  refine bind_shareFs (fun _ => trivial) fun fs hfs => ?_
  refine M.bind_call trivial fun info => M.bind_failIf nofun fun _ => M.bind_get ?_
  split
  · refine M.bind_call_eq trivial ?_
    rw [show (s.exec fs (.stat (renamePath of.path x.2))).disks fs =
      (B.exec (.stat (renamePath of.path x.2)) (s.disks fs)).2 from Function.update_self ..]
    cases herr : (B.exec (.rename of.path (renamePath of.path x.2))
        (B.exec (.stat (renamePath of.path x.2)) (s.disks fs)).2).1 with
    | some err => exact .throw trivial
    | none => exact .modify trivial ⟨x, fs, hname, hfs, herr, rfl⟩
  · exact .throw trivial

/-- **A rename.** If it is answered with STATUS_SUCCESS, the filesystem has
renamed the object, and the record of the handle has the new path. -/
theorem handleSetInfo_rename {id : FileID} {newName : Str} {reply : Reply}
    (hname : renameTarget msg.payload = some (id, newName))
    (h : handleSetInfo msg o s = .ok reply s') :
    ∃ r tree of fs, Target s msg r tree id of ∧ tree.isReadOnly = false ∧
      (s.shareHeap tree.share).fs = some fs ∧
      (B.exec (.rename of.path (renamePath of.path newName))
        (B.exec (.stat (renamePath of.path newName)) (s.disks fs)).2).1 = none ∧
      s' = s.renamed o tree.share fs id of.path (renamePath of.path newName) := by
  rw [handleSetInfo] at h
  obtain ⟨r, tree, ref, of, ht, href, -, hrun⟩ := onHandle_ok h
  unfold renameTarget at hname
  dsimp only at hname
  split at hname
  · next buffer htype hclass hbuffer =>
    split at hname
    · cases hname
    · obtain ⟨x, hx, heq⟩ := Option.map_eq_some_iff.mp hname
      cases heq
      rw [setInfoFound, M.run_failIf_bind] at hrun
      split at hrun
      · cases hrun
      · next hro =>
        rw [updateLastAccess, M.run_modify_bind, hbuffer, M.run_require_bind] at hrun
        obtain ⟨_, t, hset, hret⟩ := bind_eq_ok hrun
        cases hret
        unfold setInfo setFileInfo at hset
        simp only [htype, hclass] at hset
        obtain ⟨y, fs, hy, hfs, hnone, rfl⟩ := setFileRenameInformation_ok.post hset
        cases hx.symm.trans hy
        rw [Server.modifyHandles_fs] at hfs
        refine ⟨r, tree, of, fs, ht, Bool.eq_false_iff.mpr hro, hfs, hnone, ?_⟩
        -- the address still belongs to the handle
        refine Server.modifyHandles_congr (FileHandleMap.modify_eq_modifyID ?_ _)
        have hheap : (s.modifyHandles tree.share fun m => m.updateLastAccess
            msg.setInfo.fileID o.now).handlesOf tree.share =
            (s.handlesOf tree.share).updateLastAccess msg.setInfo.fileID o.now := by
          rw [Server.handlesOf_modifyHandles, if_pos rfl]
        refine (congrArg (fun m : B.FileHandleMap => m.handles.lookup _) hheap).trans ?_
        rw [FileHandleMap.updateLastAccess, FileHandleMap.modifyID_handles]
        exact href
  · cases hname

end Smbfs
