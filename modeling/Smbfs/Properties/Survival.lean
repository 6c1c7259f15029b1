import Smbfs.Properties.CreateAnswered
import Smbfs.Properties.DirCursor
import Smbfs.System.Create
import Smbfs.System.Handles

/-!
What ends the process. A handler panics where it follows a nil pointer or slices
out of range; `Panics` collects these places for all commands.

* `Fatal`: the requests that panic;
* `crash_iff`: in a state that the server can reach, a request panics exactly
  if it is fatal: no other command panics, whatever it is sent;
* `survives_iff`: so over every run of the system.
-/

namespace Smbfs

open Smbfs.Lib

variable {B : Backend} {P : Platform} {k : ConnId} {msg : SMB2Message} {o : Oracle} {s : Server B}

/-- The requests that panic: CREATE comes to call a filesystem that the share
does not have, `Authenticate` slices the security blob of SESSION_SETUP out of
range, or QUERY_DIRECTORY has an index beyond the entries that are cached. -/
def Fatal (P : Platform) (s : Server B) (msg : SMB2Message) (o : Oracle) : Prop :=
  (msg.cmd = .create ∧ ∃ tree, treeOf s msg = some tree ∧
    createChecked s tree msg.payload = true ∧ (s.shareHeap tree.share).fs = none) ∨
  (msg.cmd = .sessionSetup ∧ setupWellFormed msg.payload = true ∧ setupAnswer P s msg o = none) ∨
  ¬ IndexInside s msg o

/-! ## One request -/

theorem respond_crash {x : EStateM.Result Stop (Server B) Reply} :
    (respond k msg x).1 = .crash ↔ ∃ t, x = .error .crash t := by
  cases x with
  | ok reply s => simp [respond]
  | error stop s => cases stop <;> simp [respond]

theorem handleCreate_panics {tree : TreeConnection} (htree : treeOf s msg = some tree)
    (hchecked : createChecked s tree msg.payload = true) (hfs : (s.shareHeap tree.share).fs = none) :
    handleCreate msg o s = .error .crash s := by
  obtain ⟨r, hsession, htree⟩ := Option.bind_eq_some_iff.mp htree
  obtain ⟨hwell, hany⟩ := Bool.and_eq_true_iff.mp hchecked
  obtain ⟨filename, hname, hcheck⟩ := (Option.any_eq_true ..).mp hany
  rw [run_handleCreate ⟨hsession, htree⟩ hwell hname, if_pos hcheck, run_shareFs_bind, hfs]

theorem handleSessionSetup_crash_iff :
    (∃ t, handleSessionSetup P k msg o s = .error .crash t) ↔
      setupWellFormed msg.payload = true ∧ setupAnswer P s msg o = none := by
  have hend := handleSessionSetup_end P k msg o s
  generalize handleSessionSetup P k msg o s = out at hend ⊢
  cases hend <;> simp_all

theorem answerFromEntries_crash_iff {of : B.OpenFile} {req : QueryDirectoryRequest}
    {d : DirEnumState} : (∃ t, answerFromEntries P of req d s = .error .crash t) ↔ ¬ d.Inside := by
  by_cases hd : d.Inside
  · rw [run_answerFromEntries P of req hd]
    dsimp only
    repeat' split
    all_goals simp [hd]
  · simp [answerFromEntries_outside hd, hd]

theorem handleQueryDirectory_crash_iff (hfile : ∀ of, queriedDir s msg = some of → of.file ≠ none) :
    (∃ t, handleQueryDirectory P msg s = .error .crash t) ↔
      ∃ d, slicedState s msg = some d ∧ ¬ d.Inside := by
  cases hq : queriedDir s msg with
  | none =>
    obtain ⟨st, hrun⟩ := handleQueryDirectory_refused (P := P) hq
    simp [hrun, slicedState, hq]
  | some of =>
    simp only [handleQueryDirectory_queried hq, slicedState, hq, Option.bind_eq_bind,
      Option.bind_some]
    split
    · refine iff_of_false ?_ (by simp)
      rintro ⟨_, h⟩
      cases h
    · rw [bind_run]
      rcases cachedEntries_cases of (preparedState s of msg) (s.dirStates.lookup of.id).isSome s with
        ⟨-, hrun⟩ | ⟨-, _, _, _, -, hrun⟩ | ⟨-, e, s', hrun, hcrash, -⟩
      · simp [hrun, answerFromEntries_crash_iff]
      · simp [hrun, answerFromEntries_crash_iff]
      · rw [hrun]
        refine iff_of_false ?_ (by simp)
        rintro ⟨_, h⟩
        cases h
        exact hfile of hq (hcrash rfl)

theorem queryDirectory_crash_iff (hshare : HandlesOnShare s) (hcursor : CursorsInside s)
    (hcmd : msg.cmd = .queryDirectory) :
    (handleMessage P k msg o s).1 = .crash ↔ ¬ IndexInside s msg o := by
  have hfile : ∀ of, queriedDir s msg = some of → of.file ≠ none := by
    intro of hq
    obtain ⟨r, tree, ht⟩ := target_of_queriedDir hq
    obtain ⟨-, f, hf, -⟩ := hshare _ _ of ht.view_eq
    exact hf ▸ Option.some_ne_none f
  rw [handleMessage_queryDirectory hcmd, respond_crash, handleQueryDirectory_crash_iff hfile,
    ← inRange_iff hcursor]
  simp [SlicesInside, hcmd]

theorem panics_of_crash (h : (handleMessage P k msg o s).1 = .crash) : Panics msg s := by
  cases hrun : route P k msg o s with
  | ok reply t => cases reply <;> simp [handleMessage, hrun] at h
  | error stop t =>
    cases stop with
    | status st => simp [handleMessage, hrun] at h
    | crash => exact route_runs.exit hrun

/-- **One request.** The handles have files of their shares, and the stored
cursors are inside, so nothing else can panic. -/
theorem crash_iff (hshare : HandlesOnShare s) (hcursor : CursorsInside s) :
    (handleMessage P k msg o s).1 = .crash ↔ Fatal P s msg o := by
  constructor
  · intro hcrash
    cases panics_of_crash hcrash with
    | file ht hof =>
      obtain ⟨-, f, hf, -⟩ := hshare _ _ _ ht.view_eq
      cases hof.symm.trans hf
    | share ht hfs =>
      obtain ⟨-, f, -, hf⟩ := hshare _ _ _ ht.view_eq
      cases hfs.symm.trans hf
    | @create r tree _ hcmd hauth hwell hname hcheck hfs =>
      exact .inl ⟨hcmd, tree, hauth.treeOf_eq, by simp [createChecked, hwell, hname, hcheck], hfs⟩
    | slice hcmd =>
      rcases hcmd with hcmd | hcmd
      · rw [handleMessage_sessionSetup hcmd, respond_crash, handleSessionSetup_crash_iff] at hcrash
        exact .inr (.inl ⟨hcmd, hcrash⟩)
      · exact .inr (.inr ((queryDirectory_crash_iff hshare hcursor hcmd).mp hcrash))
  · rintro (⟨hcmd, tree, htree, hchecked, hfs⟩ | ⟨hcmd, hsetup⟩ | hindex)
    · rw [handleMessage_create hcmd, respond_crash]
      exact ⟨s, handleCreate_panics htree hchecked hfs⟩
    · rw [handleMessage_sessionSetup hcmd, respond_crash, handleSessionSetup_crash_iff]
      exact hsetup
    · have hcmd : msg.cmd = .queryDirectory := by
        by_contra hother
        exact hindex fun hyes => absurd hyes hother
      exact (queryDirectory_crash_iff hshare hcursor hcmd).mpr hindex

/-! ## Runs -/

/-- The invariant of a server that runs. -/
structure Running (sys : System B) : Prop where
  tables : Tables sys.server
  shares : HandlesOnShare sys.server
  cursors : CursorsInside sys.server
  crashed_eq : sys.crashed = false

theorem Running.crashed_iff {sys : System B} (h : Running sys) (e : Event) :
    (sys.step P e).crashed = false ↔ sys.OnMessage (fun s msg o => ¬ Fatal P s msg o) e := by
  rw [step_react h.crashed_eq]
  cases e with
  | message k msg o =>
    obtain ⟨c, hout, -⟩ := processMessage_sessions P k msg o sys.server
    have hfatal : (handleMessage P k msg o (sys.server.setConn k c)).1 = .crash ↔
      Fatal P sys.server msg o := crash_iff (s := sys.server.setConn k c) h.shares h.cursors
    rw [react_message, System.OnMessage, ← hfatal, hout]
    cases (handleMessage P k msg o (sys.server.setConn k c)).1 <;>
      simp [Outcome.isCrash, h.crashed_eq]
  | _ => exact iff_of_true rfl trivial

theorem Running.step {sys : System B} (h : Running sys) {e : Event}
    (hcrash : (sys.step P e).crashed = false) : Running (sys.step P e) :=
  ⟨h.tables.step e, h.shares.step h.tables e, h.cursors.step e, hcrash⟩

/-- **What ends the process.** A run of the server goes on to its end exactly
if no request of it is fatal in the state that it finds. -/
theorem survives_iff (P : Platform) (options : ServerOptions) (rand : Bytes)
    (disks : FsRef → B.Disk) (es : List Event) :
    (System.run P (.initial options rand disks) es).crashed = false ↔
      Along (System.step P) (System.OnMessage fun s msg o => ¬ Fatal P s msg o)
        (.initial options rand disks) es := by
  have hinit : Running (System.initial options rand disks) :=
    ⟨.initial options rand disks, .initial options rand disks, .initial options rand disks, rfl⟩
  have hlast : ∀ (sys : System B) e, (sys.step P e).crashed = false → sys.crashed = false := by
    intro sys e hnext
    cases hcr : sys.crashed with
    | false => rfl
    | true =>
      rw [step_crashed hcr] at hnext
      exact hcr.symm.trans hnext
  exact (always_iff_last hlast).symm.trans (always_iff_along (I := Running)
    (fun sys e h hsafe => h.step ((h.crashed_iff e).mpr hsafe)) (fun _ h => h.crashed_eq)
    (fun sys e h hfatal hrun => hfatal ((h.crashed_iff e).mp hrun)) hinit)

end Smbfs
