import Smbfs.Handlers.File

/-!
The dispositions of CREATE as data: the call that each of them starts with, and
what is done from there.

* `openByDisposition_eq`: the handler makes this call;
* `expectedAction`: the table of the dispositions, and `firstCall_ok`: the call is that
  of the table.
-/

namespace Smbfs

open Smbfs.Lib

variable {B : Backend}

/-! ## The first call of CREATE -/

/-- The call that a disposition starts with. After `OpenFile` with `retry`
fails, and after `Mkdir` succeeds, the file is opened read-only. -/
inductive FirstCall where
  | openFile (flags : OpenFlags) (perm : FileMode) (retry : Bool)
  | mkdir
  deriving DecidableEq

def openExistingCall (req : CreateRequest) (info : FileInfo) :
    Except NTStatus (FirstCall × CreateAction) :=
  if req.wantDir && !info.isDir then .error .notADirectory
  else if req.wantFile && info.isDir then .error .fileIsADirectory
  else .ok (.openFile oRdwr 0 true, .opened)

def createNewCall (tree : TreeConnection) (req : CreateRequest) :
    Except NTStatus (FirstCall × CreateAction) :=
  if tree.isReadOnly then .error .accessDenied
  else if req.wantDir then .ok (.mkdir, .created)
  else .ok (.openFile oCreate 0o644 false, .created)

def replaceFileCall (tree : TreeConnection) (info : Except GoError FileInfo)
    (replaced : CreateAction) : Except NTStatus (FirstCall × CreateAction) :=
  if tree.isReadOnly then .error .accessDenied
  else if (match info with | .ok info => info.isDir | .error _ => false) then
    .error .fileIsADirectory
  else .ok (.openFile oCreateTrunc 0o644 false, if info.isOk then replaced else .created)

/-- The create dispositions, up to their first call. -/
def firstCall (tree : TreeConnection) (req : CreateRequest) (info : Except GoError FileInfo) :
    Except NTStatus (FirstCall × CreateAction) :=
  match CreateDisposition.ofCode req.createDisposition with
  | none => .error .invalidParameter
  | some .open =>
    match info with
    | .error _ => .error .objectNameNotFound
    | .ok info => openExistingCall req info
  | some .create =>
    match info with
    | .ok _ => .error .objectNameCollision
    | .error _ => createNewCall tree req
  | some .openIf =>
    match info with
    | .ok info => openExistingCall req info
    | .error _ => createNewCall tree req
  | some .overwrite =>
    match info with
    | .error _ => .error .objectNameNotFound
    | .ok info =>
      if tree.isReadOnly then .error .accessDenied
      else if info.isDir then .error .fileIsADirectory
      else .ok (.openFile oTrunc 0o644 false, .overwritten)
  | some .overwriteIf => replaceFileCall tree info .overwritten
  | some .supersede => replaceFileCall tree info .superseded

/-! ## From the first call on -/

/-- The calls that open a file, from the first one on. -/
def runFirst (fs : FsRef) (filename : Str) :
    Except NTStatus (FirstCall × CreateAction) → M B (Except GoError B.File × CreateAction)
  | .error st => M.fail st
  | .ok (.openFile flags perm retry, action) => do
    let file ← M.call fs (.openFile filename flags perm)
    match file with
    | .ok f => return (.ok f, action)
    | .error err =>
      if retry then return (← M.call fs (.openFile filename oRdonly 0), action)
      else return (.error err, action)
  | .ok (.mkdir, action) => do
    let err ← M.call fs (.mkdir filename 0o755)
    match err with
    | none => return (← M.call fs (.openFile filename oRdonly 0), action)
    | some err => return (.error err, action)

section FirstCalls

variable (fs : FsRef) (tree : TreeConnection) (filename : Str) (req : CreateRequest)

theorem runFirst_openFile (flags : OpenFlags) (perm : FileMode) (action : CreateAction) :
    runFirst (B := B) fs filename (.ok (.openFile flags perm false, action)) =
      (do return (← M.call fs (.openFile filename flags perm), action)) := by
  refine bind_congr fun file => ?_
  cases file <;> rfl

theorem runFirst_openExistingCall (info : FileInfo) :
    runFirst (B := B) fs filename (openExistingCall req info) =
      (do return (← openExisting fs filename req info, .opened)) := by
  unfold openExistingCall openExisting
  cases req.wantDir && !info.isDir with
  | true => rfl
  | false =>
    cases req.wantFile && info.isDir with
    | true => rfl
    | false =>
      simp only [runFirst, M.failIf, Bool.false_eq_true, if_false, pure_bind, bind_assoc]
      refine bind_congr fun file => ?_
      cases file <;> rfl

theorem runFirst_createNewCall :
    runFirst (B := B) fs filename (createNewCall tree req) =
      (do return (← createNew fs tree filename req, .created)) := by
  unfold createNewCall createNew
  cases tree.isReadOnly with
  | true => rfl
  | false =>
    cases req.wantDir with
    | true =>
      simp only [runFirst, M.failIf, Bool.false_eq_true, if_false, if_true, pure_bind, bind_assoc]
      refine bind_congr fun err => ?_
      cases err <;> rfl
    | false => exact runFirst_openFile fs filename oCreate 0o644 .created

theorem runFirst_replaceFileCall (info : Except GoError FileInfo) (replaced : CreateAction) :
    runFirst (B := B) fs filename (replaceFileCall tree info replaced) =
      replaceFile fs tree filename info replaced := by
  unfold replaceFileCall replaceFile
  cases tree.isReadOnly with
  | true => rfl
  | false =>
    cases info with
    | error err => exact runFirst_openFile fs filename oCreateTrunc 0o644 .created
    | ok info =>
      cases hdir : info.isDir with
      | true =>
        simp only [hdir]
        rfl
      | false =>
        simp only [hdir]
        exact runFirst_openFile fs filename oCreateTrunc 0o644 replaced

/-- What a disposition does, from its first call on. -/
theorem openByDisposition_eq (info : Except GoError FileInfo) :
    openByDisposition (B := B) fs tree filename req info =
      runFirst fs filename (firstCall tree req info) := by
  unfold openByDisposition firstCall
  cases CreateDisposition.ofCode req.createDisposition with
  | none => rfl
  | some disposition =>
    cases disposition with
    | «open» | create | openIf =>
      cases info with
      | error err =>
        first
        | rfl
        | exact (runFirst_createNewCall fs tree filename req).symm
      | ok info =>
        first
        | rfl
        | exact (runFirst_openExistingCall fs filename req info).symm
    | overwrite =>
      cases info with
      | error err => rfl
      | ok info =>
        dsimp only
        cases tree.isReadOnly with
        | true => rfl
        | false =>
          cases info.isDir with
          | true => rfl
          | false => exact (runFirst_openFile fs filename oTrunc 0o644 .overwritten).symm
    | overwriteIf | supersede => exact (runFirst_replaceFileCall fs tree filename info _).symm

end FirstCalls

/-! ## The table -/

/-- What a disposition asks for, by whether there is an object under the name. -/
def expectedAction : CreateDisposition → (existed : Bool) → Option CreateAction
  | .open, true => some .opened
  | .open, false => none
  | .create, true => none
  | .create, false => some .created
  | .openIf, true => some .opened
  | .openIf, false => some .created
  | .overwrite, true => some .overwritten
  | .overwrite, false => none
  | .overwriteIf, true => some .overwritten
  | .overwriteIf, false => some .created
  | .supersede, true => some .superseded
  | .supersede, false => some .created

/-- The first call with its action, and what was checked before it. -/
inductive First (tree : TreeConnection) (req : CreateRequest) (disposition : CreateDisposition) :
    Except GoError FileInfo → FirstCall → CreateAction → Prop where
  | opens {info} (hdir : req.wantDir = true → info.isDir = true)
      (hfile : req.wantFile = true → info.isDir = false) :
      First tree req disposition (.ok info) (.openFile oRdwr 0 true) .opened
  | makes {err} (hro : tree.isReadOnly = false) (hwant : req.wantDir = true)
      (hmakes : disposition = .create ∨ disposition = .openIf) :
      First tree req disposition (.error err) .mkdir .created
  | creates {err flags} (hro : tree.isReadOnly = false)
      (hwant : req.wantDir = true → disposition ≠ .create ∧ disposition ≠ .openIf) :
      First tree req disposition (.error err) (.openFile flags 0o644 false) .created
  | replaces {info flags action} (hro : tree.isReadOnly = false) (htrunc : flags.trunc = true)
      (haction : action = .overwritten ∨ action = .superseded) :
      First tree req disposition (.ok info) (.openFile flags 0o644 false) action

variable {info : Except GoError FileInfo}

section Table

variable {tree : TreeConnection} {req : CreateRequest} {disposition : CreateDisposition}
  {call : FirstCall} {action : CreateAction}

theorem first_openExistingCall (tree : TreeConnection) (disposition : CreateDisposition)
    {info : FileInfo} (h : openExistingCall req info = .ok (call, action)) :
    First tree req disposition (.ok info) call action ∧ action = .opened := by
  unfold openExistingCall at h
  split at h
  · cases h
  · next hdir =>
    split at h
    · cases h
    · next hfile =>
      cases h
      exact ⟨.opens (by simpa using hdir) (by simpa using hfile), rfl⟩

theorem first_createNewCall (err : GoError) (hmakes : disposition = .create ∨ disposition = .openIf)
    (h : createNewCall tree req = .ok (call, action)) :
    First tree req disposition (.error err) call action ∧ action = .created := by
  unfold createNewCall at h
  split at h
  · cases h
  · next hro =>
    rw [Bool.not_eq_true] at hro
    split at h
    · next hwant =>
      cases h
      exact ⟨.makes hro hwant hmakes, rfl⟩
    · next hwant =>
      cases h
      exact ⟨.creates hro (absurd · hwant), rfl⟩

theorem first_replaceFileCall (req : CreateRequest) (disposition : CreateDisposition)
    {replaced : CreateAction} (hreplaced : replaced = .overwritten ∨ replaced = .superseded)
    (hdisp : disposition ≠ .create ∧ disposition ≠ .openIf)
    (h : replaceFileCall tree info replaced = .ok (call, action)) :
    First tree req disposition info call action ∧
      action = if info.isOk then replaced else .created := by
  unfold replaceFileCall at h
  split at h
  · cases h
  · next hro =>
    rw [Bool.not_eq_true] at hro
    cases info with
    | error err =>
      cases h
      exact ⟨.creates hro fun _ => hdisp, rfl⟩
    | ok info =>
      dsimp only at h
      split at h
      · cases h
      · cases h
        exact ⟨.replaces hro rfl hreplaced, rfl⟩

/-- **The table.** -/
theorem firstCall_ok (h : firstCall tree req info = .ok (call, action)) :
    ∃ disposition, CreateDisposition.ofCode req.createDisposition = some disposition ∧
      expectedAction disposition info.isOk = some action ∧
      First tree req disposition info call action := by
  unfold firstCall at h
  cases hcode : CreateDisposition.ofCode req.createDisposition with
  | none =>
    rw [hcode] at h
    cases h
  | some disposition =>
    rw [hcode] at h
    refine ⟨disposition, rfl, ?_⟩
    cases disposition with
    | «open» =>
      cases info with
      | error err => cases h
      | ok info =>
        obtain ⟨hfirst, rfl⟩ := first_openExistingCall tree .open h
        exact ⟨rfl, hfirst⟩
    | create =>
      cases info with
      | ok info => cases h
      | error err =>
        obtain ⟨hfirst, rfl⟩ := first_createNewCall err (.inl rfl) h
        exact ⟨rfl, hfirst⟩
    | openIf =>
      cases info with
      | ok info =>
        obtain ⟨hfirst, rfl⟩ := first_openExistingCall tree .openIf h
        exact ⟨rfl, hfirst⟩
      | error err =>
        obtain ⟨hfirst, rfl⟩ := first_createNewCall err (.inr rfl) h
        exact ⟨rfl, hfirst⟩
    | overwrite =>
      cases info with
      | error err => cases h
      | ok info =>
        dsimp only at h
        split at h
        · cases h
        · next hro =>
          split at h
          · cases h
          · cases h
            exact ⟨rfl, .replaces (by simpa using hro) rfl (.inl rfl)⟩
    | overwriteIf =>
      obtain ⟨hfirst, rfl⟩ :=
        first_replaceFileCall req .overwriteIf (.inl rfl) ⟨by decide, by decide⟩ h
      exact ⟨by cases info <;> rfl, hfirst⟩
    | supersede =>
      obtain ⟨hfirst, rfl⟩ :=
        first_replaceFileCall req .supersede (.inr rfl) ⟨by decide, by decide⟩ h
      exact ⟨by cases info <;> rfl, hfirst⟩

end Table

theorem firstCall_error {tree : TreeConnection} {req : CreateRequest}
    {st : NTStatus} (h : firstCall tree req info = .error st) : st ≠ .success := by
  unfold firstCall openExistingCall createNewCall replaceFileCall at h
  repeat' split at h
  all_goals
    rintro rfl
    cases h

end Smbfs
