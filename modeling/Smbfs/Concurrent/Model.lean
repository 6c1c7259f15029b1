import Smbfs.Lib.Interleave
import Smbfs.System.Frame

/-!
CREATE and CLOSE as sequences of atomic steps. Every connection has its own
goroutine, so between two steps of one handler those of the others run. A step
takes the lock of a handle map once, or calls the filesystem once.

* `Stage.next`: one step of a handler;
* `Stage.MapStep`, `Next`: what a step does to the handle maps, and where it leads;
* `finish_create`, `finish_close`: a handler that runs alone is the handler of `smb2_file.go`.
-/

namespace Smbfs

open Smbfs.Lib

variable {B : Backend}

/-! ## Stages -/

/-- A CREATE request whose session, tree and name are known. -/
structure CreateCall where
  session : SessionRef
  tree : TreeConnection
  req : CreateRequest
  filename : Str
  o : Oracle

/-- A CREATE request behind the share check. The handles the check did not see
are those from `since` on; no handler reads it. -/
structure Opening where
  call : CreateCall
  since : HandleRef
  fs : FsRef

/-- A CLOSE request that found its handle. -/
structure CloseCall where
  tree : TreeConnection
  req : CloseRequest
  ref : HandleRef

/-- What a handler does next. -/
inductive Stage (B : Backend) where
  | create (msg : SMB2Message) (o : Oracle)
  | check (c : CreateCall)
  | stat (c : CreateCall) (since : HandleRef)
  | openFirst (x : Opening) (info : Except GoError FileInfo)
  | openAgain (x : Opening) (action : CreateAction)
  | fileStat (x : Opening) (file : B.File) (action : CreateAction)
  | discard (x : Opening) (file : B.File) (err : GoError)
  | allocate (x : Opening) (file : B.File) (action : CreateAction) (info : FileInfo)
  | close (msg : SMB2Message)
  | postQuery (c : CloseCall)
  | release (c : CloseCall) (info : Option FileInfo)
  | closeFile (c : CloseCall) (info : Option FileInfo) (path : Option Str) (file : FileObj B)
  | remove (c : CloseCall) (info : Option FileInfo) (path : Option Str)
  | answered (reply : Reply)
  | failed (st : NTStatus)

namespace Stage

/-- `OpenFile`, and where the handler goes from there. -/
def opens (x : Opening) (action : CreateAction) (flags : OpenFlags) (perm : FileMode)
    (retry : Bool) : M B (Stage B) := do
  let file ← M.call x.fs (.openFile x.call.filename flags perm)
  match file with
  | .ok f => return .fileStat x f action
  | .error err =>
    if retry then return .openAgain x action else M.fail (mapGoErrorToNTStatus err)

/-- One step of a handler. -/
def next : Stage B → M B (Stage B)
  | .create msg o => do
    let (session, tree) ← validateTree msg.header
    checkRequest msg.payload 56 57
    let filename ← M.require (createFilename msg.payload) .invalidParameter
    return .check ⟨session, tree, .ofPayload msg.payload, filename, o⟩
  | .check c => do
    let s ← M.get
    M.failIf (!(s.handlesOf c.tree.share).checkShareAccess c.filename c.req.desiredAccess
      c.req.shareAccess) .sharingViolation
    return .stat c (s.handlesOf c.tree.share).nextHandle
  | .stat c since => do
    let fs ← shareFs c.tree.share
    let info ← M.call fs (.stat c.filename)
    return .openFirst ⟨c, since, fs⟩ info
  | .openFirst x info =>
    match firstCall x.call.tree x.call.req info with
    | .error st => M.fail st
    | .ok (.openFile flags perm retry, action) => opens x action flags perm retry
    | .ok (.mkdir, action) => do
      let err ← M.call x.fs (.mkdir x.call.filename 0o755)
      match err with
      | none => return .openAgain x action
      | some err => M.fail (mapGoErrorToNTStatus err)
  | .openAgain x action => opens x action oRdonly 0 false
  | .fileStat x file action => do
    let info ← M.call x.fs (.fileStat file)
    match info with
    | .ok info => return .allocate x file action info
    | .error err => return .discard x file err
  | .discard x file err => do
    let _ ← M.call x.fs (.close file)
    M.fail (mapGoErrorToNTStatus err)
  | .allocate x file action info => do
    let c := x.call
    let id ← Smbfs.allocate c.session c.tree (x.fs, file) c.filename info.isDir c.req c.o
    return .answered (.ok (createResponse action info id))
  | .close msg => do
    let (session, tree) ← validateTree msg.header
    checkRequest msg.payload 24 24
    let req := msg.close
    let (ref, _) ← getByTree session tree req.fileID
    return .postQuery ⟨tree, req, ref⟩
  | .postQuery c => do
    let s ← M.get
    let info ← Smbfs.postQuery c.req.flags ((s.handlesOf c.tree.share).heap c.ref)
    return .release c info
  | .release c info => do
    let s ← M.get
    let of := (s.handlesOf c.tree.share).heap c.ref
    let path := if of.deleteOnClose then some of.path else none
    match (s.handlesOf c.tree.share).view c.req.fileID with
    | none => return .remove c info path
    | some of =>
      M.modify fun s => s.modifyHandles c.tree.share fun m => m.release c.req.fileID
      match of.file with
      | none => return .remove c info path
      | some f => return .closeFile c info path f
  | .closeFile c info path f => do
    let _ ← M.call f.1 (.close f.2)
    return .remove c info path
  | .remove c info path =>
    match path with
    | none => return .answered (.ok (closeResponse c.req.flags info))
    | some path => do
      let fs ← shareFs c.tree.share
      let err ← M.call fs (.remove path)
      return .answered (.ok (closeResponse c.req.flags (if err.isNone then info else none)))
  | .answered reply => return .answered reply
  | .failed st => return .failed st

/-- A step of a goroutine of the server. A panic ends the process. -/
def advance (t : Stage B) (sys : System B) : Stage B × System B :=
  if sys.crashed then (t, sys)
  else
    match t.next sys.server with
    | .ok t s => (t, ⟨s, false⟩)
    | .error (.status st) s => (.failed st, ⟨s, false⟩)
    | .error .crash s => (t, ⟨s, true⟩)

/-- At most `n` steps of a handler that runs alone. -/
def finish : Nat → Stage B → M B Reply
  | _, .answered reply => return reply
  | _, .failed st => M.fail st
  | 0, _ => M.crash
  | n + 1, t => do
    let t ← t.next
    finish n t

end Stage

theorem finish_answered (n : Nat) (reply : Reply) :
    (Stage.answered reply).finish n = (return reply : M B Reply) := by rw [Stage.finish]

/-- The requests of an interleaving. -/
inductive Job where
  | create (msg : SMB2Message) (o : Oracle)
  | close (msg : SMB2Message)

def Job.stage : Job → Stage B
  | .create msg o => .create msg o
  | .close msg => .close msg

/-- The server with requests that have not begun, each on a connection of its own. -/
def startPool (sys : System B) (jobs : Nat → Job) : Pool (System B) (Stage B) :=
  ⟨sys, fun n => (jobs n).stage⟩

/-- One of the requests takes a step. -/
abbrev stepPool (p : Pool (System B) (Stage B)) (n : Nat) : Pool (System B) (Stage B) :=
  p.step Stage.advance n

/-! ## Where a step leads -/

/-- The stages of CLOSE. -/
def Stage.closing : Stage B → Bool
  | .close _ | .postQuery _ | .release .. | .closeFile .. | .remove .. => true
  | _ => false

/-- The request has its answer. -/
def Stage.ended : Stage B → Bool
  | .answered _ | .failed _ => true
  | _ => false

/-- The steps of a handler that does not return an error: the stage and the
state it leads to, and what it found. Those of CLOSE are not told apart. -/
inductive Next : Stage B → Server B → Stage B → Server B → Prop where
  | validated {msg o s r tree filename}
      (hr : s.sessions.validateSession msg.header.sessionID = some r)
      (htree : (s.sessions.heap r).trees.lookup msg.header.treeID = some tree)
      (hname : createFilename msg.payload = some filename) :
      Next (.create msg o) s (.check ⟨r, tree, .ofPayload msg.payload, filename, o⟩) s
  | checked {c s} (hcheck : (s.handlesOf c.tree.share).checkShareAccess c.filename
      c.req.desiredAccess c.req.shareAccess = true) :
      Next (.check c) s (.stat c (s.handlesOf c.tree.share).nextHandle) s
  | statted {c since s fs} (hfs : (s.shareHeap c.tree.share).fs = some fs) :
      Next (.stat c since) s
        (.openFirst ⟨c, since, fs⟩ (B.exec (.stat c.filename) (s.disks fs)).1)
        (s.exec fs (.stat c.filename))
  | opened {x info flags perm retry action f s}
      (hfirst : firstCall x.call.tree x.call.req info = .ok (.openFile flags perm retry, action))
      (hok : (B.exec (.openFile x.call.filename flags perm) (s.disks x.fs)).1 = .ok f) :
      Next (.openFirst x info) s (.fileStat x f action)
        (s.exec x.fs (.openFile x.call.filename flags perm))
  | retried {x info flags perm action s}
      (hfirst : firstCall x.call.tree x.call.req info = .ok (.openFile flags perm true, action)) :
      Next (.openFirst x info) s (.openAgain x action)
        (s.exec x.fs (.openFile x.call.filename flags perm))
  | made {x info action s}
      (hfirst : firstCall x.call.tree x.call.req info = .ok (.mkdir, action))
      (hok : (B.exec (.mkdir x.call.filename 0o755) (s.disks x.fs)).1 = none) :
      Next (.openFirst x info) s (.openAgain x action)
        (s.exec x.fs (.mkdir x.call.filename 0o755))
  | reopened {x action f s} :
      Next (.openAgain x action) s (.fileStat x f action)
        (s.exec x.fs (.openFile x.call.filename oRdonly 0))
  | fileStatted {x f action info s} :
      Next (.fileStat x f action) s (.allocate x f action info) (s.exec x.fs (.fileStat f))
  | discarded {x f action err s} :
      Next (.fileStat x f action) s (.discard x f err) (s.exec x.fs (.fileStat f))
  | allocated {x f action info s s'} (id : FileID) :
      Next (.allocate x f action info) s
        (.answered (.ok (createResponse action info id))) s'
  | closing {t s t' s'} (ht : t.closing = true)
      (ht' : t'.closing = true ∨ ∃ reply, t' = .answered reply) : Next t s t' s'
  | ended {t s} (ht : t.ended = true) : Next t s t s

namespace Stage

variable {s s' : Server B}

/-- The steps that write to a handle map. -/
def writesHandles : Stage B → Bool
  | .allocate .. | .release .. => true
  | _ => false

/-- A step calls the filesystem, unless it writes to a handle map. -/
def Touches (t : Stage B) (s s' : Server B) : Prop :=
  t.writesHandles = true ∨ ∃ fs c, s' = s.exec fs c

theorem Touches.exec (t : Stage B) (s : Server B) (fs : FsRef) (c : FsCall B.File) :
    t.Touches s (s.exec fs c) := .inr ⟨fs, c, rfl⟩

/-- From the stage `t` the program leads to a next one. -/
def Leads (t : Stage B) (s : Server B) (m : M B (Stage B)) : Prop :=
  Runs t.Touches (fun _ => True) m s fun t' s' => Next t s t' s'

theorem opens_leads {x : Opening} {action : CreateAction} {flags : OpenFlags} {perm : FileMode}
    {retry : Bool} {t : Stage B}
    (hopened : ∀ f, (B.exec (.openFile x.call.filename flags perm) (s.disks x.fs)).1 = .ok f →
      Next t s (.fileStat x f action) (s.exec x.fs (.openFile x.call.filename flags perm)))
    (hretried : retry = true →
      Next t s (.openAgain x action) (s.exec x.fs (.openFile x.call.filename flags perm))) :
    Leads t s (opens x action flags perm retry) := by
  refine M.bind_call_eq (.exec ..) ?_
  cases hfile : (B.exec (.openFile x.call.filename flags perm) (s.disks x.fs)).1 with
  | ok f => exact .pure (hopened f hfile)
  | error err =>
    cases retry with
    | true => exact .pure (hretried rfl)
    | false => exact .throw trivial

theorem openFirst_leads (x : Opening) (info : Except GoError FileInfo) (s : Server B) :
    Leads (.openFirst x info) s (next (.openFirst x info)) := by
  rw [next]
  cases hfirst : firstCall x.call.tree x.call.req info with
  | error st => exact .throw trivial
  | ok first =>
    obtain ⟨call, action⟩ := first
    cases call with
    | openFile flags perm retry =>
      refine opens_leads (fun f hok => .opened hfirst hok) ?_
      rintro rfl
      exact .retried hfirst
    | mkdir =>
      refine M.bind_call_eq (.exec ..) ?_
      cases hok : (B.exec (.mkdir x.call.filename 0o755) (s.disks x.fs)).1 with
      | none => exact .pure (.made hfirst hok)
      | some err => exact .throw trivial

/-- **Where a step leads.** -/
theorem leads (t : Stage B) (s : Server B) : Leads t s t.next := by
  cases t with
  | create msg o =>
    exact bind_validateTree fun r tree hauth => bind_checkRequest fun _ =>
      M.bind_require nofun fun filename hname =>
        .pure (.validated hauth.session_eq hauth.tree_eq hname)
  | check c =>
    exact M.bind_get <| M.bind_failIf nofun fun hcheck => .pure (.checked (by simpa using hcheck))
  | stat c since =>
    exact bind_shareFs (fun _ => trivial) fun fs hfs =>
      M.bind_call_eq (.exec ..) (.pure (.statted hfs))
  | openFirst x info => exact openFirst_leads x info s
  | openAgain x action => exact opens_leads (fun _ _ => .reopened) nofun
  | fileStat x file action =>
    refine M.bind_call (.exec ..) fun info => ?_
    cases info with
    | ok info => exact .pure .fileStatted
    | error err => exact .pure .discarded
  | discard x file err => exact M.bind_call (.exec ..) fun _ => .throw trivial
  | allocate x file action info =>
    unfold Leads Runs
    rw [next, Lib.bind_run, run_allocate]
    exact ⟨.single (.inl rfl), .allocated _⟩
  | close msg =>
    exact bind_validateTree fun r tree hauth => bind_checkRequest fun _ =>
      bind_getByTree hauth fun _ _ _ _ => .pure (.closing rfl (.inl rfl))
  | postQuery c =>
    exact M.bind_get <| (postQuery_calls trivial (.exec _ s)).bind fun _ _ _ =>
      .pure (.closing rfl (.inl rfl))
  | release c info =>
    apply M.bind_get
    dsimp only
    split
    · exact .pure (.closing rfl (.inl rfl))
    · refine M.bind_modify (.inl rfl) ?_
      split <;> exact .pure (.closing rfl (.inl rfl))
  | closeFile c info path f => exact M.bind_call (.exec ..) fun _ => .pure (.closing rfl (.inl rfl))
  | remove c info path =>
    cases path with
    | none => exact .pure (.closing rfl (.inr ⟨_, rfl⟩))
    | some path =>
      exact bind_shareFs (fun _ => trivial) fun fs _ =>
        M.bind_call (.exec ..) fun _ => .pure (.closing rfl (.inr ⟨_, rfl⟩))
  | answered | failed => exact .pure (.ended rfl)

end Stage

/-! ## What a step changes -/

namespace Stage

/-- The other steps keep what calls of the filesystem do not change. -/
theorem next_keeps {τ : Type} {f : Server B → τ} (hcall : ∀ s fs c, f (s.exec fs c) = f s)
    {t : Stage B} (ht : t.writesHandles = false) : Keeps f t.next := by
  refine fun s => (t.leads s).keeps fun s s' h => ?_
  rcases h with h | ⟨fs, c, rfl⟩
  · cases ht.symm.trans h
  · exact hcall s fs c

/-- What a step may make of the handle map of share `sh`. -/
inductive MapStep (t : Stage B) (s : Server B) (sh : ShareRef) :
    B.FileHandleMap → Prop where
  | same : MapStep t s sh (s.handlesOf sh)
  | allocate {x file action info} (ht : t = .allocate x file action info)
      (hsh : sh = x.call.tree.share) :
      MapStep t s sh ((s.handlesOf sh).allocate (createdFile (s.handlesOf sh) x.call.o x.call.req
        (x.fs, file) x.call.filename info.isDir x.call.tree.id
        (s.sessions.heap x.call.session).id))
  | release (id : FileID) : MapStep t s sh ((s.handlesOf sh).release id)

/-- The state a step ends in: after calls of the filesystem only, or after one
write to a handle map. -/
theorem next_state (t : Stage B) (s : Server B) :
    t.writesHandles = false ∨ stateOf (t.next s) = s ∨
    (∃ x file action info, t = .allocate x file action info ∧
      stateOf (t.next s) = s.modifyHandles x.call.tree.share fun m =>
        m.allocate (createdFile (s.handlesOf x.call.tree.share) x.call.o x.call.req (x.fs, file)
          x.call.filename info.isDir x.call.tree.id (s.sessions.heap x.call.session).id)) ∨
    ∃ sh id, stateOf (t.next s) = s.modifyHandles sh fun m => m.release id := by
  cases t with
  | allocate x file action info =>
    refine .inr (.inr (.inl ⟨x, file, action, info, rfl, ?_⟩))
    rw [next, stateOf_bind (run_allocate ..), M.run_pure, stateOf]
  | release c info =>
    rw [next, M.run_get_bind]
    cases hv : (s.handlesOf c.tree.share).view c.req.fileID with
    | none => exact .inr (.inl rfl)
    | some of =>
      refine .inr (.inr (.inr ⟨c.tree.share, c.req.fileID, ?_⟩))
      dsimp only
      rw [M.run_modify_bind]
      cases of.file <;> rfl
  | _ => exact .inl rfl

theorem next_mapStep (t : Stage B) (s : Server B) (sh : ShareRef) :
    MapStep t s sh ((stateOf (t.next s)).handlesOf sh) := by
  rcases next_state t s with hw | h | ⟨x, file, action, info, rfl, h⟩ | ⟨sh', id, h⟩
  · have hkeep : (stateOf (t.next s)).handlesOf sh = s.handlesOf sh :=
      next_keeps (f := fun s => s.handlesOf sh) (fun _ _ _ => rfl) hw s
    rw [hkeep]
    exact .same
  · rw [h]
    exact .same
  · rw [h, Server.handlesOf_modifyHandles]
    split
    · next hsh =>
      subst hsh
      exact .allocate rfl rfl
    · exact .same
  · rw [h, Server.handlesOf_modifyHandles]
    split
    · next hsh =>
      subst hsh
      exact .release id
    · exact .same

end Stage

theorem Stage.advance_crashed {sys : System B} (hcr : sys.crashed = true) (t : Stage B) :
    t.advance sys = (t, sys) := by simp [advance, hcr]

theorem Stage.advance_server {sys : System B} (hcr : sys.crashed = false) (t : Stage B) :
    (t.advance sys).2.server = stateOf (t.next sys.server) := by
  rw [advance, hcr]
  cases t.next sys.server with
  | ok t' s' => rfl
  | error stop s' => cases stop <;> rfl

/-- A request stays where it is, fails, or goes on. -/
theorem Stage.advance_cases (t : Stage B) (sys : System B) :
    (t.advance sys).1 = t ∨ (∃ st, (t.advance sys).1 = .failed st) ∨
      Next t sys.server (t.advance sys).1 (t.advance sys).2.server := by
  cases hcr : sys.crashed with
  | true =>
    rw [advance_crashed hcr]
    exact .inl rfl
  | false =>
    rw [advance, hcr]
    cases h : t.next sys.server with
    | ok t' s' => exact .inr (.inr ((t.leads _).post h))
    | error stop s' =>
      cases stop with
      | status st => exact .inr (.inl ⟨_, rfl⟩)
      | crash => exact .inl rfl

/-! ## A handler that runs alone -/

/-- The rest of CREATE once the file was opened. -/
def afterOpen (x : Opening) : Except GoError B.File × CreateAction → M B Reply
  | (.error err, _) => M.fail (mapGoErrorToNTStatus err)
  | (.ok file, action) => do
    let info ← M.call x.fs (.fileStat file)
    match info with
    | .error err =>
      let _ ← M.call x.fs (.close file)
      M.fail (mapGoErrorToNTStatus err)
    | .ok info =>
      let id ← allocate x.call.session x.call.tree (x.fs, file) x.call.filename info.isDir
        x.call.req x.call.o
      return .ok (createResponse action info id)

theorem finish_fileStat (n : Nat) (x : Opening) (file : B.File) (action : CreateAction) :
    (Stage.fileStat x file action).finish (n + 2) = afterOpen x (.ok file, action) := by
  simp only [Stage.finish, Stage.next, afterOpen, bind_assoc]
  refine bind_congr fun info => ?_
  cases info with
  | error err =>
    simp only [pure_bind, Stage.finish, Stage.next, bind_assoc]
    rfl
  | ok info => simp only [pure_bind, Stage.finish, Stage.next, bind_assoc]

theorem finish_openAgain (n : Nat) (x : Opening) (action : CreateAction) :
    (Stage.openAgain x action).finish (n + 3) =
      (M.call x.fs (.openFile x.call.filename oRdonly 0) >>= fun file =>
        afterOpen (B := B) x (file, action)) := by
  simp only [Stage.finish, Stage.next, Stage.opens, bind_assoc]
  refine bind_congr fun file => ?_
  cases file with
  | error err => rfl
  | ok file =>
    simp only [pure_bind]
    exact finish_fileStat n x file action

theorem finish_openFirst (n : Nat) (x : Opening) (info : Except GoError FileInfo) :
    (Stage.openFirst x info).finish (n + 4) =
      (openByDisposition x.fs x.call.tree x.call.filename x.call.req info >>=
        afterOpen (B := B) x) := by
  rw [openByDisposition_eq]
  simp only [Stage.finish, Stage.next]
  rcases firstCall x.call.tree x.call.req info with st | ⟨call, action⟩
  · rfl
  · cases call with
    | openFile flags perm retry =>
      simp only [Stage.opens, runFirst, bind_assoc]
      refine bind_congr fun file => ?_
      cases file with
      | ok f =>
        simp only [pure_bind]
        exact finish_fileStat (n + 1) x f action
      | error err =>
        cases retry with
        | true =>
          simp only [if_true, pure_bind, bind_assoc]
          exact finish_openAgain n x action
        | false => rfl
    | mkdir =>
      simp only [runFirst, bind_assoc]
      refine bind_congr fun err => ?_
      cases err with
      | none =>
        simp only [pure_bind, bind_assoc]
        exact finish_openAgain n x action
      | some err => rfl

/-- **CREATE alone.** Its steps, one after the other, are the handler. -/
theorem finish_create (msg : SMB2Message) (o : Oracle) :
    (Stage.create msg o).finish 7 = handleCreate (B := B) msg o := by
  simp only [Stage.finish, Stage.next, handleCreate, bind_assoc, pure_bind]
  refine bind_congr fun st => bind_congr fun _ => bind_congr fun filename => ?_
  refine bind_congr fun s => bind_congr fun _ => bind_congr fun fs => bind_congr fun info => ?_
  have hopen := finish_openFirst (B := B) 0
    ⟨⟨st.1, st.2, .ofPayload msg.payload, filename, o⟩, (s.handlesOf st.2.share).nextHandle, fs⟩ info
  refine hopen.trans (bind_congr fun result => ?_)
  rcases result with ⟨err | file, action⟩ <;> rfl

/-- The removal at the end of CLOSE, for a record that may be marked. -/
theorem finish_remove (n : Nat) (c : CloseCall) (info : Option FileInfo)
    (of : B.OpenFile) :
    (Stage.remove c info (if of.deleteOnClose then some of.path else none)).finish (n + 1) =
      closeReleased c.req c.tree of info := by
  unfold closeReleased
  cases of.deleteOnClose with
  | true => simp only [if_true, Stage.finish, Stage.next, bind_assoc, pure_bind, finish_answered]
  | false =>
    simp only [Bool.false_eq_true, if_false, Stage.finish, Stage.next, pure_bind, finish_answered]

/-- The rest of CLOSE once the file information was read. -/
theorem finish_release (c : CloseCall) (info : Option FileInfo) (s : Server B)
    {of : B.OpenFile} (hof : (s.handlesOf c.tree.share).heap c.ref = of) :
    (Stage.release c info).finish 3 s =
      (Smbfs.release c.tree.share c.req.fileID >>= fun _ =>
        closeReleased c.req c.tree of info) s := by
  subst hof
  have hremove := fun n => finish_remove n c info ((s.handlesOf c.tree.share).heap c.ref)
  change ((Stage.release c info).next >>= Stage.finish 2) s = _
  simp only [Stage.next, Smbfs.release, bind_assoc, M.run_get_bind]
  cases (s.handlesOf c.tree.share).view c.req.fileID with
  | none =>
    simp only [pure_bind]
    rw [hremove 1]
  | some of =>
    simp only [bind_assoc, M.run_modify_bind]
    cases of.file with
    | none =>
      simp only [pure_bind]
      rw [hremove 1]
    | some f =>
      simp only [pure_bind, Stage.finish, Stage.next, bind_assoc]
      rw [← hremove 0]
      rfl

/-- **CLOSE alone.** -/
theorem finish_close (msg : SMB2Message) :
    (Stage.close msg).finish 5 = handleClose (B := B) msg := by
  simp only [Stage.finish, Stage.next, handleClose, onHandle, closeFound, bind_assoc, pure_bind]
  refine bind_congr fun st => bind_congr fun _ => funext fun s => ?_
  rw [run_getByTree_bind, run_getByTree_bind]
  cases (s.handlesOf st.2.share).getByTree msg.close.fileID st.2.id (s.sessions.heap st.1).id with
  | none => rfl
  | some ref =>
    dsimp only
    rw [M.run_get_bind, Lib.bind_run, Lib.bind_run]
    rcases run_postQuery msg.close.flags
      ((s.handlesOf st.2.share).heap ref) s with ⟨-, hq⟩ | ⟨info, s', hq, hs'⟩
    · rw [hq]
    · rw [hq]
      have hheap : (s'.handlesOf st.2.share).heap ref = (s.handlesOf st.2.share).heap ref := by
        rcases hs' with rfl | ⟨f, rfl⟩ <;> rfl
      exact finish_release ⟨st.2, .ofPayload msg.payload, ref⟩ info s' hheap

end Smbfs
