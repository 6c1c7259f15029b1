import Smbfs.Server.ObjectFs
import Smbfs.System.Exits

/-!
CREATE on a filesystem with the POSIX laws.

* `Effect`: what each action does to the filesystem;
* `Opened`: an object has been opened for a request, with the effect its action
  announces; `Unchanged`: nothing has been opened, made or emptied;
* `openByDisposition_finishes`, `createOpened_finishes`: CREATE does the one or the other.
-/

namespace Smbfs

open Smbfs.Lib

variable {B : Backend}

/-! ## Actions -/

/-- A file without data, or a directory. -/
def Node.isEmpty : Node → Bool
  | file data => data.isEmpty
  | dir => true

/-- What an action does to the filesystem, with `x` the object of the new file. -/
def Effect (F : ObjectFs B) (d d' : B.Disk) (path : Str) (x : F.Obj) : CreateAction → Prop
  | .opened => F.look (B.content d) path = some x ∧ B.content d' = B.content d
  | .overwritten | .superseded =>
    F.look (B.content d) path = some x ∧ F.Rewrites (B.content d) (B.content d') x []
  | .created => ∃ n, n.isEmpty = true ∧ F.Adds d d' path x n

/-- The kinds of object a request gets, by its action. The options count where an
object is opened, and FILE_DIRECTORY_FILE where one is made under FILE_CREATE and
FILE_OPEN_IF. -/
def resultKind (req : CreateRequest) (disposition : CreateDisposition) (isDir : Bool) :
    CreateAction → Prop
  | .opened => (req.wantDir = true → isDir = true) ∧ (req.wantFile = true → isDir = false)
  | .created =>
    isDir = (req.wantDir && (disposition = .create || disposition = .openIf))
  | .overwritten | .superseded => isDir = false

/-! ## States -/

/-- Only the filesystem `fs` has been called. -/
def OnlyDisk (fs : FsRef) (s s' : Server B) : Prop :=
  ∃ d l, s' = { s with disks := Function.update s.disks fs d, log := l }

theorem OnlyDisk.refl (fs : FsRef) (s : Server B) : OnlyDisk fs s s :=
  ⟨s.disks fs, s.log, by rw [Function.update_eq_self]⟩

theorem OnlyDisk.exec {fs : FsRef} {s s' : Server B} (h : OnlyDisk fs s s') (c : FsCall B.File) :
    OnlyDisk fs s (s'.exec fs c) := by
  obtain ⟨d, l, rfl⟩ := h
  exact ⟨_, _, by rw [Server.exec, Function.update_idem]⟩

theorem OnlyDisk.trans {fs : FsRef} {s t s' : Server B} (h : OnlyDisk fs s t)
    (h' : OnlyDisk fs t s') : OnlyDisk fs s s' := by
  obtain ⟨d, l, rfl⟩ := h
  obtain ⟨d', l', rfl⟩ := h'
  exact ⟨d', l', by rw [Function.update_idem]⟩

theorem OnlyDisk.disks_eq {fs fs' : FsRef} {s s' : Server B} (h : OnlyDisk fs s s')
    (hne : fs' ≠ fs) : s'.disks fs' = s.disks fs' := by
  obtain ⟨d, l, rfl⟩ := h
  exact Function.update_of_ne hne _ _

theorem OnlyDisk.shareHeap_eq {fs : FsRef} {s s' : Server B} (h : OnlyDisk fs s s') :
    s'.shareHeap = s.shareHeap := by
  obtain ⟨d, l, rfl⟩ := h
  rfl

theorem OnlyDisk.sessions_eq {fs : FsRef} {s s' : Server B} (h : OnlyDisk fs s s') :
    s'.sessions = s.sessions := by
  obtain ⟨d, l, rfl⟩ := h
  rfl

variable {F : ObjectFs B} {fs : FsRef} {s t s' : Server B} {path : Str} {x : F.Obj}
  {req : CreateRequest} {disposition : CreateDisposition} {action : CreateAction}

/-- The filesystem has been called, to no effect. -/
structure Unchanged (F : ObjectFs B) (fs : FsRef) (s s' : Server B) : Prop where
  only : OnlyDisk fs s s'
  same : F.Same (s.disks fs) (s'.disks fs)

theorem Unchanged.refl (F : ObjectFs B) (fs : FsRef) (s : Server B) : Unchanged F fs s s :=
  ⟨.refl fs s, .refl _⟩

theorem Unchanged.trans (h : Unchanged F fs s t) (h' : Unchanged F fs t s') :
    Unchanged F fs s s' := ⟨h.only.trans h'.only, h.same.trans h'.same⟩

theorem Unchanged.exec (h : Unchanged F fs s s') {c : FsCall B.File}
    (hc : F.Same (s'.disks fs) (B.exec c (s'.disks fs)).2) : Unchanged F fs s (s'.exec fs c) :=
  ⟨h.only.exec c, by rw [Server.disks_exec]; exact h.same.trans hc⟩

/-- `Stat` on the file says what its object is. -/
def Stats (F : ObjectFs B) (fs : FsRef) (s : Server B) (f : B.File) (x : F.Obj) : Prop :=
  ∃ info, (B.exec (.fileStat f) (s.disks fs)).1 = .ok info ∧
    info.isDir = (F.node (B.content (s.disks fs)) x).isDir

/-- The file `f` has been opened for the object `x`, with the effect of the action. -/
structure Opened (F : ObjectFs B) (fs : FsRef) (path : Str) (req : CreateRequest)
    (disposition : CreateDisposition) (s s' : Server B) (f : B.File) (action : CreateAction)
    (x : F.Obj) : Prop where
  only : OnlyDisk fs s s'
  opens : F.Opens (s.disks fs) (s'.disks fs) f x
  effect : Effect F (s.disks fs) (s'.disks fs) path x action
  kind : resultKind req disposition (F.node (B.content (s'.disks fs)) x).isDir action
  stats : Stats F fs s' f x

/-- The result of an attempt to open a file. -/
def Attempt (U : Server B → Prop) (Q : B.File → Server B → Prop) :
    Except GoError B.File → Server B → Prop
  | .ok f, s => Q f s
  | .error _, s => U s

/-- The result of `Stat`, if it is right. -/
def Statted (F : ObjectFs B) (c : B.Content) (path : Str) : Except GoError FileInfo → Prop
  | .ok info => ∃ x, F.look c path = some x ∧ info.isDir = (F.node c x).isDir
  | .error _ => F.look c path = none

variable {info : Except GoError FileInfo}

theorem Statted.isSome_look {c : B.Content}
    (h : Statted F c path info) : info.isOk = (F.look c path).isSome := by
  cases info with
  | ok info =>
    obtain ⟨x, hx, -⟩ := h
    rw [hx]
    rfl
  | error err =>
    rw [show F.look c path = none from h]
    rfl

/-! ## Calls -/

theorem Effect.congr {d d' e e' : B.Disk} (h : Effect F d d' path x action) (hd : F.Same d e)
    (hd' : B.content e' = B.content d') : Effect F e e' path x action := by
  cases action with
  | opened => exact ⟨by rw [hd.content_eq]; exact h.1, by rw [hd', hd.content_eq]; exact h.2⟩
  | overwritten | superseded =>
    refine ⟨by rw [hd.content_eq]; exact h.1, ?_⟩
    rw [hd.content_eq, hd']
    exact h.2
  | created =>
    obtain ⟨n, hn, hadds⟩ := h
    exact ⟨n, hn, hadds.congr hd hd'⟩

/-- What was opened after calls to no effect was opened from the start. -/
theorem Opened.of_unchanged {f : B.File} (hu : Unchanged F fs s t)
    (h : Opened F fs path req disposition t s' f action x) :
    Opened F fs path req disposition s s' f action x := by
  have hsame : F.Same (t.disks fs) (s.disks fs) := ⟨hu.same.content_eq.symm, hu.same.opened_eq.symm⟩
  exact ⟨hu.only.trans h.only, h.opens.congr hsame.opened_eq rfl, h.effect.congr hsame rfl, h.kind,
    h.stats⟩

namespace ObjectFs.Posix

variable (hF : F.Posix) {E : Stop → Server B → Prop} {flags : OpenFlags} {perm : FileMode}

include hF

theorem stats_opened {f : B.File} (h : (B.exec (.openFile path flags perm) (s.disks fs)).1 = .ok f)
    (hx : F.opened ((s.exec fs (.openFile path flags perm)).disks fs) f = some x) :
    Stats F fs (s.exec fs (.openFile path flags perm)) f x := by
  obtain ⟨info, hinfo, hdir⟩ := hF.fileStat_opened _ _ _ _ _ h
  rw [Server.disks_exec] at hx
  unfold Stats
  rw [Server.disks_exec]
  exact ⟨info, hinfo, hdir x hx⟩

/-- `OpenFile` where there is an object. -/
theorem openPresent_finishes (hu : Unchanged F fs s t)
    (hx : F.look (B.content (s.disks fs)) path = some x) (hact : ∀ d : B.Disk, (if flags.trunc then
        F.Rewrites (B.content (s.disks fs)) (B.content d) x []
      else B.content d = B.content (s.disks fs)) →
      Effect F (s.disks fs) d path x action ∧
        resultKind req disposition (F.node (B.content d) x).isDir action) :
    Finishes (M.call fs (.openFile path flags perm)) t
      (Attempt (Unchanged F fs s) fun f s' =>
        ∃ x, Opened F fs path req disposition s s' f action x) E := by
  refine M.call_finishes ?_
  cases hres : (B.exec (.openFile path flags perm) (t.disks fs)).1 with
  | error err => exact hu.exec (hF.open_error _ _ _ _ _ hres)
  | ok f =>
    have hxt : F.look (B.content (t.disks fs)) path = some x := by
      rw [hu.same.content_eq]
      exact hx
    obtain ⟨hopens, hcontent⟩ := hF.open_present _ _ _ _ _ _ hxt hres
    rw [← Server.disks_exec] at hopens hcontent
    rw [hu.same.content_eq] at hcontent
    obtain ⟨heffect, hkind⟩ := hact _ hcontent
    exact ⟨x, hu.only.exec _, hopens.congr hu.same.opened_eq.symm rfl, heffect, hkind,
      hF.stats_opened hres hopens.opened_eq⟩

/-- `OpenFile` with `O_TRUNC` where there is an object. -/
theorem openTrunc_finishes (req : CreateRequest) (disposition : CreateDisposition)
    (hx : F.look (B.content (s.disks fs)) path = some x) (htrunc : flags.trunc = true)
    (haction : action = .overwritten ∨ action = .superseded) :
    Finishes (M.call fs (.openFile path flags perm)) s
      (Attempt (Unchanged F fs s) fun f s' =>
        ∃ x, Opened F fs path req disposition s s' f action x) E := by
  refine hF.openPresent_finishes (.refl F fs s) hx fun d hre => ?_
  rw [if_pos htrunc] at hre
  rcases haction with rfl | rfl <;>
    exact ⟨⟨hx, hre⟩, congrArg Node.isDir hre.node_eq⟩

/-- `OpenFile` where there is none. -/
theorem openAbsent_finishes (hnone : F.look (B.content (s.disks fs)) path = none)
    (hkind : resultKind req disposition false .created) :
    Finishes (M.call fs (.openFile path flags perm)) s
      (Attempt (Unchanged F fs s) fun f s' =>
        ∃ x, Opened F fs path req disposition s s' f .created x) E := by
  refine M.call_finishes ?_
  cases hres : (B.exec (.openFile path flags perm) (s.disks fs)).1 with
  | error err => exact (Unchanged.refl F fs s).exec (hF.open_error _ _ _ _ _ hres)
  | ok f =>
    obtain ⟨-, x, hopens, hadds⟩ := hF.open_absent _ _ _ _ _ hnone hres
    rw [← Server.disks_exec] at hopens hadds
    refine ⟨x, (OnlyDisk.refl fs s).exec _, hopens, ⟨_, rfl, hadds⟩, ?_,
      hF.stats_opened hres hopens.opened_eq⟩
    rw [hadds.node_eq]
    exact hkind

/-- `OpenFile` for a directory that `Mkdir` has made. -/
theorem openMade_finishes (herr : (B.exec (.mkdir path perm) (s.disks fs)).1 = none)
    (hkind : resultKind req disposition true .created) :
    Finishes (M.call fs (.openFile path oRdonly 0)) (s.exec fs (.mkdir path perm))
      (Attempt (Unchanged F fs s) fun f s' =>
        ∃ x, Opened F fs path req disposition s s' f .created x) E := by
  have hopened := hF.opened_exec (.mkdir path perm) (s.disks fs) rfl
  obtain ⟨x, hadds⟩ := hF.mkdir_ok _ _ _ herr
  obtain ⟨f, hf⟩ := hF.open_made _ _ _ herr
  rw [← Server.disks_exec] at hadds hf hopened
  -- the new directory is found, and opening it changes nothing
  obtain ⟨hopens, hcontent⟩ := hF.open_present _ _ _ _ _ _ hadds.look_eq.2 hf
  rw [← Server.disks_exec] at hopens hcontent
  refine M.call_finishes ?_
  rw [show oRdonly = ⟨false, false, false⟩ from rfl, hf]
  refine ⟨x, ((OnlyDisk.refl fs s).exec _).exec _, hopens.congr hopened.symm rfl,
    ⟨.dir, rfl, hadds.congr (.refl _) hcontent⟩, ?_, hF.stats_opened hf hopens.opened_eq⟩
  rw [hcontent, hadds.node_eq]
  exact hkind

theorem mkdirError_unchanged {err : GoError}
    (herr : (B.exec (.mkdir path perm) (s.disks fs)).1 = some err) :
    Unchanged F fs s (s.exec fs (.mkdir path perm)) :=
  (Unchanged.refl F fs s).exec ⟨hF.mkdir_error _ _ _ _ herr, hF.opened_exec _ _ rfl⟩

end ObjectFs.Posix

/-! ## CREATE -/

section Create

variable (hF : F.Posix) {tree : TreeConnection}

include hF

theorem runFirst_finishes {call : FirstCall} (hst : Statted F (B.content (s.disks fs)) path info)
    (h : First tree req disposition info call action) :
    Finishes (runFirst fs path (.ok (call, action))) s
      (fun r s' => r.2 = action ∧ Attempt (Unchanged F fs s) (fun f s' =>
        ∃ x, Opened F fs path req disposition s s' f action x) r.1 s')
      (fun _ => Unchanged F fs s) := by
  cases h with
  | opens hwantDir hwantFile =>
    obtain ⟨x, hx, hdir⟩ := hst
    have heffect : ∀ d, B.content d = B.content (s.disks fs) →
        Effect F (s.disks fs) d path x .opened ∧
          resultKind req disposition (F.node (B.content d) x).isDir .opened := by
      intro d hcontent
      refine ⟨⟨hx, hcontent⟩, ?_⟩
      rw [hcontent, ← hdir]
      exact ⟨hwantDir, hwantFile⟩
    refine .bind (hF.openPresent_finishes (.refl F fs s) hx heffect) fun r t h => ?_
    cases r with
    | ok f => exact Finishes.pure ⟨rfl, h⟩
    | error err =>
      exact .bind (hF.openPresent_finishes h hx heffect) fun r t h => Finishes.pure ⟨rfl, h⟩
  | makes hro hwant hmakes =>
    have hkind : resultKind req disposition true .created := by
      rcases hmakes with rfl | rfl <;> simp [resultKind, hwant]
    refine .bind (M.call_finishes (Q := fun err t =>
      err = (B.exec (.mkdir path 0o755) (s.disks fs)).1 ∧ t = s.exec fs (.mkdir path 0o755))
      ⟨rfl, rfl⟩) ?_
    rintro _ _ ⟨rfl, rfl⟩
    cases herr : (B.exec (.mkdir path 0o755) (s.disks fs)).1 with
    | some err => exact Finishes.pure ⟨rfl, hF.mkdirError_unchanged herr⟩
    | none => exact .bind (hF.openMade_finishes herr hkind) fun r t h => Finishes.pure ⟨rfl, h⟩
  | creates hro hwant =>
    have hkind : resultKind req disposition false .created := by
      cases hdir : req.wantDir with
      | false => simp [resultKind, hdir]
      | true => simp [resultKind, hwant hdir]
    refine .bind (hF.openAbsent_finishes hst hkind) fun r t h => ?_
    cases r <;> exact Finishes.pure ⟨rfl, h⟩
  | replaces hro htrunc haction =>
    obtain ⟨x, hx, -⟩ := hst
    refine .bind (hF.openTrunc_finishes req disposition hx htrunc haction) fun r t h => ?_
    cases r <;> exact Finishes.pure ⟨rfl, h⟩

/-- **The dispositions.** An object is opened with the action of the table, or
nothing is opened or changed. -/
theorem openByDisposition_finishes (hst : Statted F (B.content (s.disks fs)) path info) :
    Finishes (openByDisposition fs tree path req info) s
      (fun r s' => ∃ disposition, CreateDisposition.ofCode req.createDisposition = some disposition ∧
        Attempt (Unchanged F fs s) (fun f s' =>
          ∃ x, Opened F fs path req disposition s s' f r.2 x) r.1 s' ∧
        expectedAction disposition (F.look (B.content (s.disks fs)) path).isSome = some r.2)
      (fun _ => Unchanged F fs s) := by
  rw [openByDisposition_eq]
  cases hfirst : firstCall tree req info with
  | error st => exact Finishes.throw (.refl F fs s)
  | ok first =>
    obtain ⟨call, action⟩ := first
    obtain ⟨disposition, hcode, hexpected, hfirst⟩ := firstCall_ok hfirst
    refine (runFirst_finishes hF hst hfirst).mono ?_ fun _ _ h => h
    rintro ⟨r, _⟩ t ⟨rfl, h⟩
    exact ⟨disposition, hcode, h, hst.isSome_look ▸ hexpected⟩

end Create

/-- A CREATE has returned: an object has been opened, a handle has been given out for
it, and the response is about both. -/
structure Answered (F : ObjectFs B) (fs : FsRef) (r : SessionRef) (tree : TreeConnection)
    (path : Str) (req : CreateRequest) (o : Oracle) (s s' : Server B) (reply : Reply)
    (disposition : CreateDisposition) (action : CreateAction) (f : B.File) (x : F.Obj)
    (info : FileInfo) : Prop where
  code_eq : CreateDisposition.ofCode req.createDisposition = some disposition
  action_eq : expectedAction disposition (F.look (B.content (s.disks fs)) path).isSome = some action
  opened : ∃ t, Opened F fs path req disposition s t f action x ∧
    (B.exec (.fileStat f) (t.disks fs)).1 = .ok info ∧
    s' = (t.exec fs (.fileStat f)).modifyHandles tree.share fun m => m.allocate
      (createdFile (s.handlesOf tree.share) o req (fs, f) path info.isDir tree.id
        (s.sessions.heap r).id)
  isDir_eq : info.isDir = (F.node (B.content (s'.disks fs)) x).isDir
  reply_eq : reply = .ok (createResponse action info (createdFile (s.handlesOf tree.share) o req
    (fs, f) path info.isDir tree.id (s.sessions.heap r).id).id)

/-- **CREATE from `Stat` on.** -/
theorem createOpened_finishes (hF : F.Posix) (r : SessionRef) (tree : TreeConnection) (o : Oracle) :
    Finishes (do
        let info ← M.call fs (.stat path)
        createOpened r tree fs path req o info) s
      (fun reply s' => ∃ disposition action f x info,
        Answered F fs r tree path req o s s' reply disposition action f x info)
      (fun _ => Unchanged F fs s) := by
  have hu : Unchanged F fs s (s.exec fs (.stat path)) :=
    (Unchanged.refl F fs s).exec (hF.same_exec rfl rfl _)
  have hst : Statted F (B.content ((s.exec fs (.stat path)).disks fs)) path
      (B.exec (.stat path) (s.disks fs)).1 := by
    rw [hu.same.content_eq]
    cases hres : (B.exec (.stat path) (s.disks fs)).1 with
    | ok info => exact hF.stat_ok _ _ _ hres
    | error err => exact hF.stat_error _ _ _ hres
  refine .bind (M.call_finishes (Q := fun info t => info = (B.exec (.stat path) (s.disks fs)).1 ∧
    t = s.exec fs (.stat path)) ⟨rfl, rfl⟩) ?_
  rintro _ _ ⟨rfl, rfl⟩
  refine .bind ((openByDisposition_finishes hF hst).mono (fun _ _ h => h) fun _ _ h => hu.trans h) ?_
  rintro ⟨file, action⟩ t ⟨disposition, hcode, hattempt, haction⟩
  rw [hu.same.content_eq] at haction
  cases file with
  | error err => exact Finishes.throw (hu.trans hattempt)
  | ok f =>
    obtain ⟨x, hopened⟩ := hattempt
    replace hopened := hopened.of_unchanged hu
    obtain ⟨info, hinfo, hdir⟩ := hopened.stats
    refine .bind (M.call_finishes (c := .fileStat f)
      (Q := fun i u => i = Except.ok info ∧ u = t.exec fs (.fileStat f))
      ⟨hinfo, rfl⟩) ?_
    rintro _ _ ⟨rfl, rfl⟩
    have hheap : (t.exec fs (.fileStat f)).shareHeap = s.shareHeap := hopened.only.shareHeap_eq
    have hsessions : (t.exec fs (.fileStat f)).sessions = s.sessions := hopened.only.sessions_eq
    have hrun := run_allocate r tree (fs, f) path info.isDir req o (t.exec fs (.fileStat f))
    rw [Server.handlesOf, hheap, hsessions] at hrun
    rw [Finishes]
    dsimp only
    rw [bind_run, hrun]
    refine ⟨disposition, action, f, x, info, hcode, haction, ⟨t, hopened, hinfo, rfl⟩, ?_, rfl⟩
    rw [hdir]
    refine congrArg (fun c => (F.node c x).isDir) ?_
    exact (t.content_exec fs (c := .fileStat f) rfl fs).symm

/-- The path of the request and what it asks for, where its checks pass. -/
structure Asks (s : Server B) (msg : SMB2Message) (tree : TreeConnection) (path : Str) : Prop where
  wellFormed : wellFormed msg.payload 56 57 = true
  path_eq : createFilename msg.payload = some path
  checked : (s.handlesOf tree.share).checkShareAccess path msg.create.desiredAccess
    msg.create.shareAccess = true

variable {msg : SMB2Message} {o : Oracle} {r : SessionRef} {tree : TreeConnection}

/-- CREATE with a valid tree and a name: the share modes are checked under the path of
the request, and what is opened is allocated under the same path. -/
theorem run_handleCreate (hauth : Auth s msg r tree)
    (hwell : Smbfs.wellFormed msg.payload 56 57 = true)
    (hname : createFilename msg.payload = some path) :
    handleCreate msg o s =
      if (s.handlesOf tree.share).checkShareAccess path msg.create.desiredAccess
          msg.create.shareAccess then
        (do
          let fs ← shareFs tree.share
          let info ← M.call fs (.stat path)
          createOpened r tree fs path msg.create o info) s
      else .error (.status .sharingViolation) s := by
  rw [handleCreate, run_validateTree_bind, hauth.session_eq]
  dsimp only
  rw [hauth.tree_eq]
  dsimp only
  rw [run_checkRequest_bind, if_pos hwell, M.run_require_bind, hname]
  dsimp only
  rw [M.run_get_bind, M.run_failIf_bind]
  cases (s.handlesOf tree.share).checkShareAccess path msg.create.desiredAccess
    msg.create.shareAccess <;> rfl

section

variable (hauth : Auth s msg r tree) (hfs : (s.shareHeap tree.share).fs = some fs)

include hauth hfs

/-- CREATE with a valid tree: it fails a check, or goes on with `Stat`. -/
theorem handleCreate_cases :
    (∃ path, Asks s msg tree path ∧ handleCreate msg o s = (do
      let info ← M.call fs (.stat path)
      createOpened r tree fs path msg.create o info) s) ∨
    ((∀ path, ¬ Asks s msg tree path) ∧ ∃ st, handleCreate msg o s = .error (.status st) s) := by
  by_cases hasks : Smbfs.wellFormed msg.payload 56 57 = true ∧ ∃ path,
      createFilename msg.payload = some path
  · obtain ⟨hwell, path, hname⟩ := hasks
    rw [run_handleCreate hauth hwell hname]
    split
    · next hcheck =>
      rw [run_shareFs_bind, hfs]
      exact .inl ⟨path, ⟨hwell, hname, hcheck⟩, rfl⟩
    · next hcheck =>
      refine .inr ⟨fun path' h => ?_, _, rfl⟩
      cases hname.symm.trans h.path_eq
      exact hcheck h.checked
  · refine .inr ⟨fun path h => hasks ⟨h.wellFormed, path, h.path_eq⟩, ?_⟩
    obtain ⟨st, -, hrun⟩ := M.stops_same (m := handleCreate msg o) (s := s) <|
      bind_validateTree fun _ _ _ => bind_checkRequest fun hwell =>
        M.bind_require nofun fun path hname => absurd ⟨hwell, path, hname⟩ hasks
    exact ⟨st, hrun⟩

/-- A tree with a filesystem does not make CREATE panic. -/
theorem handleCreate_noCrash (s' : Server B) :
    handleCreate msg o s ≠ .error .crash s' := by
  rcases handleCreate_cases (o := o) hauth hfs with ⟨path, -, hrun⟩ | ⟨-, st, hrun⟩
  · rw [hrun]
    intro hcrash
    have havoids : Avoids (· = Stop.crash) (M.call fs (.stat path) >>= fun info =>
        createOpened (B := B) r tree fs path msg.create o info) :=
      .bind (M.call_avoids fs _) fun info =>
        createOpened_avoids (fun st _ h => by cases h) fs tree path _ r o info
    exact havoids s _ s' hcrash rfl
  · rw [hrun]
    intro hcrash
    cases hcrash

/-- **CREATE.** An object is opened and a handle given out for it, or nothing is
opened or changed. -/
theorem handleCreate_finishes (hF : F.Posix) :
    Finishes (handleCreate msg o) s
      (fun reply s' => ∃ path disposition action f x info, Asks s msg tree path ∧
        Answered F fs r tree path msg.create o s s' reply disposition
          action f x info) (fun _ => Unchanged F fs s) := by
  rcases handleCreate_cases (o := o) hauth hfs with ⟨path, hasks, hrun⟩ | ⟨-, st, hrun⟩
  · rw [Finishes, hrun]
    refine (createOpened_finishes hF r tree o).mono ?_ fun _ _ h => h
    rintro reply s' ⟨disposition, action, f, x, info, h⟩
    exact ⟨path, disposition, action, f, x, info, hasks, h⟩
  · rw [Finishes, hrun]
    exact .refl F fs s

end

/-! ## FILE_OPEN -/

section Open

variable {place : List GoPath.Part → F.Loc} (hF : F.Posix) (hL : F.Lexical place)
  (hx : F.look (B.content (s.disks fs)) path = some x)

include hF hx

theorem stats_present {flags : OpenFlags} {perm : FileMode} {f : B.File}
    (hres : (B.exec (.openFile path flags perm) (s.disks fs)).1 = .ok f) :
    Stats F fs (s.exec fs (.openFile path flags perm)) f x := by
  refine hF.stats_opened hres ?_
  rw [Server.disks_exec]
  exact (hF.open_present _ _ _ _ _ _ hx hres).1.opened_eq

include hL

/-- What is there can be opened, if the request does not ask for its kind. -/
theorem openExisting_opens (hdir : req.wantDir = false) (hfile : req.wantFile = false)
    (info : FileInfo) :
    Finishes (openExisting fs path req info) s
      (fun r t => ∃ f, r = .ok f ∧ Stats F fs t f x) (fun _ _ => False) := by
  refine .bind (M.failIf_finishes (Q := fun _ t => t = s) (fun h => ?_) fun _ => rfl) ?_
  · rw [hdir] at h
    cases h
  rintro _ _ rfl
  refine .bind (M.failIf_finishes (Q := fun _ t => t = _) (fun h => ?_) fun _ => rfl) ?_
  · rw [hfile] at h
    cases h
  rintro _ s rfl
  rw [Finishes, M.run_call_bind]
  cases hres : (B.exec (.openFile path oRdwr 0) (s.disks fs)).1 with
  | ok f => exact ⟨f, rfl, stats_present hF hx hres⟩
  | error err =>
    -- the second attempt finds the disk as it was
    have hsame := hF.open_error _ _ _ _ _ hres
    have hx' : F.look (B.content ((s.exec fs (.openFile path oRdwr 0)).disks fs)) path = some x := by
      rw [Server.disks_exec, hsame.content_eq]
      exact hx
    obtain ⟨f, hf⟩ := hL.open_there _ _ _ hx'
    exact M.call_finishes (c := .openFile path oRdonly 0) (E := fun _ _ => False)
      (Q := fun r t => ∃ f, r = .ok f ∧ Stats F fs t f x) ⟨f, hf, stats_present hF hx' hf⟩

/-- **FILE_OPEN.** A CREATE for an object that is there returns, if it passes its
checks and does not ask for a kind. -/
theorem handleCreate_opens (hauth : Auth s msg r tree) (hfs : (s.shareHeap tree.share).fs = some fs)
    (hasks : Asks s msg tree path) (hcode : CreateDisposition.ofCode
      msg.create.createDisposition = some .open)
    (hdir : msg.create.wantDir = false)
    (hfile : msg.create.wantFile = false) :
    ∃ reply s', handleCreate msg o s = .ok reply s' := by
  rcases handleCreate_cases (o := o) hauth hfs with ⟨path', hasks', hrun⟩ | ⟨hno, -⟩
  · cases hasks.path_eq.symm.trans hasks'.path_eq
    suffices h : Finishes (handleCreate msg o) s (fun _ _ => True) (fun _ _ => False) by
      cases hres : handleCreate msg o s with
      | ok reply s' => exact ⟨reply, s', rfl⟩
      | error stop s' => exact (h.exit hres).elim
    rw [Finishes, hrun, M.run_call_bind]
    cases hstat : (B.exec (.stat path) (s.disks fs)).1 with
    | error err =>
      rw [hF.stat_error _ _ _ hstat] at hx
      cases hx
    | ok info =>
      have hx' : F.look (B.content ((s.exec fs (.stat path)).disks fs)) path = some x := by
        rw [Server.disks_exec, B.content_exec _ _ rfl]
        exact hx
      change Finishes _ (s.exec fs (.stat path)) _ _
      refine .bind (Q := fun p t => ∃ f, p.1 = .ok f ∧ Stats F fs t f x) ?_ ?_
      · unfold openByDisposition
        rw [hcode]
        exact .bind (openExisting_opens hF hL hx' hdir hfile info) fun _ _ h => Finishes.pure h
      · rintro ⟨file, action⟩ t ⟨f, rfl, info', hinfo, -⟩
        dsimp only
        rw [Finishes, M.run_call_bind, hinfo]
        dsimp only
        rw [bind_run, run_allocate]
        trivial
  · exact absurd hasks (hno path)

end Open

end Smbfs
