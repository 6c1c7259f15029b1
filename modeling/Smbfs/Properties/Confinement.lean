import Smbfs.System.Handles

/-!
Which filesystems a request can touch. A share has its own filesystem, and the
handles on it have files of that filesystem.

* `ReachesFs`: the filesystem is that of the tree of the request, or with LOGOFF
  that of a handle of its session;
* `Permitted.reaches`: the calls of a request are on such filesystems;
* `requests_confined`: in every reachable state all others stay as they are.
-/

namespace Smbfs

open Smbfs.Lib

variable {B : Backend} {P : Platform} {k : ConnId} {msg : SMB2Message} {o : Oracle}
  {s t : Server B} {fs : FsRef}

/-- The request gets to the filesystem. -/
inductive ReachesFs (s : Server B) (msg : SMB2Message) (fs : FsRef) : Prop where
  | tree {r tree} (hauth : Auth s msg r tree) (hfs : (s.shareHeap tree.share).fs = some fs)
  | logoff {r sh id of} (hcmd : msg.cmd = .logoff)
      (hsession : s.sessions.validateSession msg.header.sessionID = some r)
      (hview : (s.handlesOf sh).view id = some of) (hown : of.sessionID = (s.sessions.heap r).id)
      (hfs : (s.shareHeap sh).fs = some fs)

/-- The request called no other filesystem, and changed none. -/
structure Confined (msg : SMB2Message) (s t : Server B) : Prop where
  calls : ∃ calls, t.log = s.log ++ calls ∧ ∀ x ∈ calls, ReachesFs s msg x.1
  disks : ∀ fs, ¬ ReachesFs s msg fs → t.disks fs = s.disks fs

theorem HandlesOnShare.fs_eq (h : HandlesOnShare s) {sh : ShareRef} {id : FileID}
    {of : B.OpenFile} {f : B.File} (hv : (s.handlesOf sh).view id = some of)
    (hof : of.file = some (fs, f)) : (s.shareHeap sh).fs = some fs := by
  obtain ⟨-, file, hfile, hfs⟩ := h sh id of hv
  cases hof.symm.trans hfile
  exact hfs

theorem Permitted.reaches (h : HandlesOnShare s) {c : FsCall B.File} (hp : Permitted s msg fs c) :
    ReachesFs s msg fs := by
  cases hp with
  | path hauth _ _ hfs => exact .tree hauth hfs
  | opened hauth _ _ _ hfs => exact .tree hauth hfs
  | handle ht hof => exact .tree ht.toAuth (h.fs_eq ht.view_eq hof)
  | rename ht _ _ _ hfs => exact .tree ht.toAuth hfs
  | removed ht _ _ hfs => exact .tree ht.toAuth hfs
  | closed hview hmine hof =>
    obtain ⟨r, hr, hown, hcmd | ⟨tree, htree, rfl, -⟩⟩ := hmine
    · exact .logoff hcmd hr hview hown (h.fs_eq hview hof)
    · exact .tree ⟨hr, htree⟩ (h.fs_eq hview hof)

theorem Confined.exec (h : Confined msg s t) (hfs : ReachesFs s msg fs) (c : FsCall B.File) :
    Confined msg s (t.exec fs c) := by
  obtain ⟨calls, hlog, hcalls⟩ := h.calls
  refine ⟨⟨calls ++ [(fs, c)], ?_, ?_⟩, fun fs' hfs' => ?_⟩
  · rw [← List.append_assoc, ← hlog]
    rfl
  · intro x hx
    rcases List.mem_append.mp hx with hx | hx
    · exact hcalls x hx
    · rw [List.mem_singleton.mp hx]
      exact hfs
  · have hne : fs' ≠ fs := by
      rintro rfl
      exact hfs' hfs
    rw [Server.disks_exec_of_ne _ c hne]
    exact h.disks fs' hfs'

/-- **Confinement.** In every state of a run, a request calls no filesystem but
that of the share its tree is connected to, or with LOGOFF those on which its
session has open handles. The others do not change. -/
theorem requests_confined (P : Platform) (options : ServerOptions) (rand : Bytes)
    (disks : FsRef → B.Disk) (es : List Event) (k : ConnId) (msg : SMB2Message) (o : Oracle) :
    let sys := System.run P (.initial options rand disks) es
    Confined msg sys.server (sys.step P (.message k msg o)).server := by
  intro sys
  obtain ⟨hwf, hon⟩ : Tables sys.server ∧ HandlesOnShare sys.server :=
    runFrom_invariant (I := fun sys : System B => Tables sys.server ∧ HandlesOnShare sys.server)
      (fun _ e h => ⟨h.1.step e, h.2.step h.1 e⟩)
      ⟨.initial options rand disks, .initial options rand disks⟩ es
  refine step_message_invariant (I := Confined msg sys.server) hwf ?_ ?_ ⟨⟨[], by simp⟩, fun _ _ => rfl⟩
  · exact fun t c h => ⟨h.calls, h.disks⟩
  · intro c t t' hc _ h
    cases hc with
    | call hp => exact h.exec (hp.setConn.reaches hon) _
    | _ => exact ⟨h.calls, h.disks⟩

end Smbfs
