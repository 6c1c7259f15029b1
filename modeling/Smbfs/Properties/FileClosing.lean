import Smbfs.System.Handles

/-!
Open files. A handle leaves its map only in `Release`, which closes its file.

* `handleClose_covers`, `handleTreeDisconnect_covers`, `handleLogoff_covers`: the
  requests that release handles;
* `Covers.step`: one event;
* `open_files_closed`: over every run, a file that was open is still that of its
  handle, or was closed since.
-/

namespace Smbfs

open Smbfs.Lib Relation

variable {B : Backend} {P : Platform} {k : ConnId} {msg : SMB2Message} {o : Oracle}
  {s s' : Server B}

/-! ## Requests that release handles -/

/-- Along the program, every open file is kept or closed. -/
def Closing (m : M B Reply) (s : Server B) : Prop :=
  Runs Covers (fun _ => True) m s fun _ _ => True

theorem Releases.covers {α : Type} {E : Stop → Prop} {m : M B α}
    {p : ShareRef → FileID → B.OpenFile → Bool} (h : Releases m p) :
    Runs Covers E m s fun _ _ => True := by
  obtain ⟨a, s', hrun, hs, -⟩ := h s
  unfold Runs
  rw [hrun]
  exact ⟨.single hs.covers, trivial⟩

theorem handleClose_covers (msg : SMB2Message) (s : Server B) : Closing (handleClose msg) s := by
  refine onHandle_runs fun r tree ref of _ _ _ => ?_
  refine (postQuery_calls trivial (Covers.exec s)).bind fun info s₁ _ => ?_
  refine (release_releases _ _).covers.bind fun _ s₂ _ => ?_
  unfold closeReleased
  split
  · exact bind_shareFs (fun _ => trivial) fun fs _ => M.bind_call (.exec ..) fun _ => .pure trivial
  · exact .pure trivial

theorem handleTreeDisconnect_covers (msg : SMB2Message) (s : Server B) :
    Closing (handleTreeDisconnect msg) s := by
  refine bind_validateTree fun r tree _ => M.bind_get ?_
  refine (releaseByTree_releases _ _ _).covers.bind fun _ s₁ _ => ?_
  exact M.bind_modify (.same rfl rfl) (.pure trivial)

theorem handleLogoff_covers (k : ConnId) (msg : SMB2Message) (s : Server B) :
    Closing (handleLogoff k msg) s := by
  refine bind_validateSession fun r _ => bind_checkRequest fun _ => M.bind_get ?_
  refine (releaseTrees_releases _ _).covers.bind fun _ s₁ _ => ?_
  exact M.bind_modify (.same rfl rfl) (M.bind_modify (.same rfl rfl) (.pure trivial))

/-! ## Events -/

namespace Covers

theorem of_chain (h : ReflTransGen Covers s s') : Covers s s' :=
  chain_invariant (I := Covers s) h (fun _ _ h' hs => hs.trans h') (.same rfl rfl)

/-- A request that releases no handle keeps every file open. -/
theorem change {s0 : Server B} (hwf : Tables s) (hcmd : msg.cmd.releases = false)
    (hc : Change P k msg o s0 s s') : Covers s s' := by
  have hkept : ∀ sh id of, (s.handlesOf sh).view id = some of →
      ∃ of', (s'.handlesOf sh).view id = some of' ∧ of'.file = of.file := by
    intro sh id of hv
    rcases hc.view_kept hwf hv with hsame | ⟨_, hnew, _, _, _, f, -, hedit, -, rfl⟩ | ⟨hyes, -⟩
    · exact ⟨of, hsame, rfl⟩
    · exact ⟨_, hnew, by cases hedit <;> rfl⟩
    · cases hcmd.symm.trans hyes
  cases hc with
  | call => exact .exec ..
  | _ => exact .of_kept (List.append_nil _).symm hkept

theorem handleMessage (hwf : Tables s) : Covers s (handleMessage P k msg o s).2 := by
  cases hrel : msg.cmd.releases with
  | false =>
    refine (chain_invariant (I := fun t => Tables t ∧ Covers s t)
      (handleMessage_chain hwf.handles) ?_ ⟨hwf, .same rfl rfl⟩).2
    rintro t t' hc ⟨ht, hcov⟩
    exact ⟨hwf.change ht hc, hcov.trans (.change ht hrel hc)⟩
  | true =>
    have hcmd : msg.cmd = .close ∨ msg.cmd = .treeDisconnect ∨ msg.cmd = .logoff := by
      cases hcmd : msg.cmd <;> simp_all [Command.releases]
    rcases hcmd with hcmd | hcmd | hcmd
    · rw [handleMessage_close hcmd, respond_state]
      exact .of_chain (handleClose_covers msg s).chain
    · rw [handleMessage_treeDisconnect hcmd, respond_state]
      exact .of_chain (handleTreeDisconnect_covers msg s).chain
    · rw [handleMessage_logoff hcmd, respond_state]
      exact .of_chain (handleLogoff_covers k msg s).chain

theorem step {sys : System B} (hwf : Tables sys.server) (hon : HandlesOnShare sys.server)
    (e : Event) : Covers sys.server (sys.step P e).server := by
  refine step_keeps (I := Covers sys.server) (fun _ _ _ h => h.trans (.same rfl rfl))
    (fun k _ _ c _ _ h => h.trans (.handleMessage (hwf.setConn k c))) (fun fs options h => ?_)
    (fun _ _ h => h.trans (.same rfl rfl)) (fun now h => h.trans (cleanupTick_spec now).1.covers)
    (.same rfl rfl)
  have hlog : (sys.server.addShare fs options).log = sys.server.log ++ [] := by
    unfold Server.addShare
    split <;> simp
  exact .of_kept hlog fun sh id of hv => ⟨of, (hon.view_addShare ..).trans hv, rfl⟩

end Covers

/-- **Open files.** Whatever happens between two moments of a run, a file that was
open is still the file of its handle, or the server closed it in between, with fewer
than 2^64 handles allocated per share. -/
theorem open_files_closed (options : ServerOptions) (rand : Bytes) (disks : FsRef → B.Disk)
    (es later : List Event) :
    Covers (System.run P (.initial options rand disks) es).server
      (System.run P (.initial options rand disks) (es ++ later)).server := by
  let I : System B → Prop := fun sys => Tables sys.server ∧ HandlesOnShare sys.server
  have hI : ∀ sys e, I sys → I (sys.step P e) := fun sys e h => ⟨h.1.step e, h.2.step h.1 e⟩
  have hreach : I (runFrom (System.step P) (.initial options rand disks) es) :=
    runFrom_invariant hI ⟨.initial options rand disks, .initial options rand disks⟩ es
  rw [System.run, System.run, runFrom_append]
  generalize runFrom (System.step P) (.initial options rand disks) es = sys at hreach ⊢
  refine (runFrom_invariant (I := fun t => I t ∧ Covers sys.server t.server) ?_
    ⟨hreach, .same rfl rfl⟩ later).2
  rintro t e ⟨ht, hcov⟩
  exact ⟨hI t e ht, hcov.trans (.step ht.1 ht.2 e)⟩

end Smbfs
