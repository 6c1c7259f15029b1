import Smbfs.Client.Freshness

/-!
Programs of the client that only look at the share. `Reads d m R` says that
with content `d` the program `m` ends without a crash, with a result in `R`,
and leaves the content and the cache as they are.

* `askStat_reads`, `askDir_reads`: what `Stat` and `ReadDir` answer when the
  cache does not;
* `openFile_reads`: a file opened without creating or truncating.
-/

namespace Smbfs.Client

open Smbfs.Lib CM

/-- The pool has a connection for every call and the context is never cancelled. -/
structure FileSystem.Unfailing (fsys : FileSystem) : Prop where
  poolGet : ∀ i, fsys.poolGet i = none
  ctxErr : ∀ i, fsys.ctxErr i = none

variable {S : Share} {α β : Type} {fsys : FileSystem}

/-! ## Programs that only read -/

theorem eq_ok_of_attempt {m : CM S α} {v v' : State S} {a : α} (h : attempt m v = .ok (.ok a) v') :
    m v = .ok a v' := by
  unfold attempt at h
  cases hm : m v with
  | ok b w =>
    rw [hm] at h
    cases h
    rfl
  | error e w =>
    rw [hm] at h
    cases e <;> cases h

theorem eq_error_of_attempt {m : CM S α} {v v' : State S} {err : Err}
    (h : attempt m v = .ok (.error err) v') : m v = .error (.error err) v' := by
  unfold attempt at h
  cases hm : m v with
  | ok b w =>
    rw [hm] at h
    cases h
  | error e w =>
    rw [hm] at h
    cases e with
    | error e =>
      cases h
      rfl
    | crash => cases h

def Reads (d : S.Disk) (m : CM S α) (R : Except Err α → Prop) : Prop :=
  ∀ v : State S, v.disk = d →
    ∃ r v', attempt m v = .ok r v' ∧ R r ∧ v'.disk = d ∧ v'.cache = v.cache

namespace Reads

variable {d : S.Disk} {m : CM S α} {f : α → CM S β} {R R' : Except Err α → Prop}

theorem mono (h : Reads d m R) (hR : ∀ r, R r → R' r) : Reads d m R' := by
  intro v hv
  obtain ⟨r, v', hrun, hr, hkeep⟩ := h v hv
  exact ⟨r, v', hrun, hR r hr, hkeep⟩

theorem pure {a : α} (h : R (.ok a)) : Reads d (Pure.pure a : CM S α) R :=
  fun v hv => ⟨.ok a, v, rfl, h, hv, rfl⟩

theorem fail {err : Err} (h : R (.error err)) : Reads d (fail err : CM S α) R :=
  fun v hv => ⟨.error err, v, rfl, h, hv, rfl⟩

variable {Q : Except Err β → Prop}

theorem bind (h : Reads d m R) (hok : ∀ a, R (.ok a) → Reads d (f a) Q)
    (herr : ∀ err, R (.error err) → Q (.error err)) : Reads d (m >>= f) Q := by
  intro v hv
  obtain ⟨r, v', hrun, hr, hd, hc⟩ := h v hv
  rw [attempt_bind, hrun]
  cases r with
  | error err => exact ⟨.error err, v', rfl, herr err hr, hd, hc⟩
  | ok a =>
    obtain ⟨r', w, hrun', hr', hd', hc'⟩ := hok a hr v' hd
    exact ⟨r', w, hrun', hr', hd', hc'.trans hc⟩

/-- Sequence after a program that returns. -/
theorem bind_ok {P : α → Prop}
    (h : Reads d m fun r => ∃ a, r = .ok a ∧ P a) (hok : ∀ a, P a → Reads d (f a) Q) :
    Reads d (m >>= f) Q := by
  refine bind h ?_ ?_
  · rintro a ⟨_, ⟨⟩, ha⟩
    exact hok a ha
  · rintro err ⟨_, ⟨⟩, _⟩

/-- The error of a program that is tried becomes its result. -/
theorem attempt (h : Reads d m R) : Reads d (attempt m) fun r => ∃ x, r = .ok x ∧ R x := by
  intro v hv
  obtain ⟨r, v', hrun, hr, hkeep⟩ := h v hv
  refine ⟨.ok r, v', ?_, ⟨r, rfl, hr⟩, hkeep⟩
  rw [CM.attempt, hrun]

theorem ofExcept {r : Except Err α} (h : R r) : Reads d (ofExcept r : CM S α) R := by
  cases r with
  | ok a => exact pure h
  | error err => exact fail h

/-- A call that only reads gives the answer for the content. -/
theorem call (hS : S.Steady) {c : ShareCall S.File} (hc : c.reads = true) :
    Reads d (call c) fun r => ∃ a, r = .ok a ∧ a = (S.exec c d).1 := by
  rintro v rfl
  exact ⟨_, _, rfl, ⟨_, rfl, rfl⟩, hS c v.disk hc, rfl⟩

theorem get (hu : fsys.Unfailing) : Reads d fsys.get fun r => ∃ conn, r = .ok conn ∧ True := by
  intro v hv
  refine ⟨.ok v.gets, { v with gets := v.gets + 1 }, ?_, ⟨_, rfl, trivial⟩, hv, rfl⟩
  simp [CM.attempt, FileSystem.get, hu.poolGet]

theorem checkContext (hu : fsys.Unfailing) :
    Reads d fsys.checkContext fun r => ∃ u, r = .ok u ∧ True := by
  intro v hv
  refine ⟨.ok (), { v with looks := v.looks + 1 }, ?_, ⟨_, rfl, trivial⟩, hv, rfl⟩
  simp [CM.attempt, FileSystem.checkContext, hu.ctxErr]

theorem putConn (conn : Nat) : Reads d (putConn conn) fun r => ∃ u, r = .ok u ∧ True :=
  fun v hv => ⟨.ok (), { v with puts := conn :: v.puts }, rfl, ⟨_, rfl, trivial⟩, hv, rfl⟩

theorem deferPut (h : Reads d m R) (conn : Nat) : Reads d (deferPut conn m) R :=
  bind_ok h.attempt fun _ hr => bind_ok (putConn conn) fun _ _ => ofExcept hr

theorem checkPath {op : Op} {name : Str} (h : validatePath name = none) :
    Reads d (fsys.checkPath op name : CM S Str) fun r =>
      ∃ n, r = .ok n ∧ n = fsys.pathNorm.normalize name := by
  unfold FileSystem.checkPath
  rw [h]
  exact pure ⟨_, rfl, rfl⟩

/-- With the pool and the context in order, a retried program ends as the program does. -/
theorem withRetry (hu : fsys.Unfailing) (h : Reads d m R) : Reads d (fsys.withRetry m) R := by
  have honce : Reads d (fsys.tryOnce m) fun r =>
      (∃ x, r = .ok x ∧ R x) ∨ ∃ err, r = .error err ∧ R (.error err) := by
    refine bind_ok (checkContext hu) fun _ _ => bind_ok h.attempt fun r hr => ?_
    cases r with
    | ok a => exact pure (.inl ⟨_, rfl, hr⟩)
    | error err =>
      dsimp only
      split
      · exact pure (.inl ⟨_, rfl, hr⟩)
      · exact fail (.inr ⟨_, rfl, hr⟩)
  have hloop : ∀ n, Reads d (fsys.retryLoop m n) R := by
    intro n
    induction n with
    | zero =>
      refine bind honce ?_ ?_
      · rintro a (⟨_, ⟨⟩, hr⟩ | ⟨_, ⟨⟩, _⟩)
        exact ofExcept hr
      · rintro err (⟨_, ⟨⟩, _⟩ | ⟨_, ⟨⟩, hr⟩)
        exact hr
    | succ n ih =>
      refine bind honce ?_ ?_
      · rintro a (⟨_, ⟨⟩, hr⟩ | ⟨_, ⟨⟩, _⟩)
        cases a with
        | ok a => exact pure hr
        | error err => exact bind_ok (checkContext hu) fun _ _ => ih
      · rintro err (⟨_, ⟨⟩, _⟩ | ⟨_, ⟨⟩, hr⟩)
        exact hr
  unfold FileSystem.withRetry
  split
  · exact h
  · exact hloop _

end Reads

/-! ## Answers of the share -/

/-- What `Stat` of a location answers without a cache. -/
def statAnswer (fsys : FileSystem) (d : S.Disk) (l : Loc) : Except Err FileInfo :=
  match S.statOf d l with
  | .error err => .error (wrapPathError .stat l.slash (convertError err))
  | .ok info => .ok { info with name := fsys.pathNorm.base l.slash }

section

variable (hS : S.Steady) (hu : fsys.Unfailing) (d : S.Disk)

include hS hu

theorem statOnce_reads (l : Loc) :
    Reads d (fsys.statOnce l.slash) fun r =>
      r.mapError (wrapPathError .stat l.slash) = statAnswer fsys d l := by
  refine Reads.bind_ok (Reads.get hu) fun conn _ => Reads.deferPut ?_ conn
  refine Reads.bind_ok (Reads.call hS rfl) ?_
  rintro a rfl
  rw [l.toSMBPath_slash]
  cases hi : (S.exec (.stat l.smb) d).1 with
  | error err =>
    refine Reads.fail ?_
    simp only [statAnswer, Share.statOf, hi, Except.mapError]
  | ok info =>
    refine Reads.pure ?_
    simp only [statAnswer, Share.statOf, hi, Except.mapError]

theorem askStat_reads (l : Loc) :
    Reads d (fsys.askStat l.slash) (· = statAnswer fsys d l) := by
  refine Reads.bind_ok (Reads.withRetry hu (statOnce_reads hS hu d l)).attempt fun r hr => ?_
  cases r with
  | error err => exact Reads.fail hr
  | ok info => exact Reads.pure hr

/-! ## Opening without creating -/

/-- `OpenFile` with a flag that only reads, on a normalised path. -/
theorem openFile_reads {l : Loc}
    (hl : validatePath l.slash = none ∧ fsys.pathNorm.normalize l.slash = l.slash) {flag : UInt32}
    (hflag : hasBits flag (oCREATE ||| oTRUNC) = false) (hcreate : hasBits flag oCREATE = false)
    (perm : FileMode) :
    Reads d (fsys.openFile l.slash flag perm) fun r =>
      match (S.exec (.openFile l.smb flag perm) d).1 with
      | .error err => r = .error (wrapPathError .open' l.slash (convertError err))
      | .ok file => ∃ conn, r = .ok (File.opened conn file l.slash) := by
  have hreads : (ShareCall.openFile l.smb flag perm : ShareCall S.File).reads = true := by
    simp [ShareCall.reads, hflag]
  have honce : Reads d (fsys.openOnce l.slash flag perm) fun r =>
      match (S.exec (.openFile l.smb flag perm) d).1 with
      | .error err => r = .error (convertError err)
      | .ok file => ∃ conn, r = .ok (File.opened conn file l.slash) := by
    unfold FileSystem.openOnce
    rw [l.toSMBPath_slash]
    refine Reads.bind_ok (Reads.get hu) fun conn _ => Reads.bind_ok (Reads.call hS hreads) ?_
    rintro a rfl
    cases (S.exec (.openFile l.smb flag perm) d).1 with
    | error err => exact Reads.bind_ok (Reads.putConn conn) fun _ _ => Reads.fail rfl
    | ok file => exact Reads.pure ⟨conn, rfl⟩
  refine Reads.bind_ok (Reads.checkPath hl.1) ?_
  rintro n rfl
  rw [hl.2]
  refine Reads.bind_ok (Reads.withRetry hu honce).attempt fun r hr => ?_
  cases hex : (S.exec (.openFile l.smb flag perm) d).1 with
  | error err =>
    rw [hex] at hr
    subst hr
    exact Reads.fail rfl
  | ok file =>
    rw [hex] at hr
    obtain ⟨conn, rfl⟩ := hr
    simp only [hcreate, Bool.false_eq_true, if_false]
    exact Reads.pure ⟨conn, rfl⟩

end

/-! ## Listings -/

/-- All entries of a directory, from a file that was just opened. -/
def readAnswer (d : S.Disk) (path : Str) (file : S.File) : Except Err (List FileInfo) :=
  match (S.exec (.readdir file (-1)) d).1.1 with
  | .error err => .error (wrapPathError .readdir path err)
  | .ok infos => if visible infos = [] then .error (.sentinel .eof) else .ok (visible infos)

/-- What `ReadDir` of a location answers without a cache. -/
def dirAnswer (d : S.Disk) (l : Loc) : Except Err (List FileInfo) :=
  match (S.exec (.openFile l.smb oRDONLY 0) d).1 with
  | .error err => .error (wrapPathError .open' l.slash (convertError err))
  | .ok file =>
    match (S.exec (.fileStat file) d).1 with
    | .error err => .error (wrapPathError .readdir l.slash (wrapPathError .stat l.slash err))
    | .ok info =>
      if info.isDir then readAnswer d l.slash file
      else .error (wrapPathError .readdir l.slash (.sentinel .notDirectory))

/-- `ReadDir` lists what the share lists, and treats an empty directory as the end of input. -/
theorem dirAnswer_eq_ok {d : S.Disk} {l : Loc} {entries : List FileInfo} :
    dirAnswer d l = .ok entries ↔
      ∃ is, S.listOf d l = some is ∧ visible is = entries ∧ entries ≠ [] := by
  unfold dirAnswer Share.listOf readAnswer
  cases (S.exec (.openFile l.smb oRDONLY 0) d).1 with
  | error err => simp
  | ok file =>
    dsimp only
    cases (S.exec (.fileStat file) d).1 with
    | error err => simp
    | ok info =>
      dsimp only
      cases info.isDir with
      | false => simp
      | true =>
        simp only [if_true]
        cases (S.exec (.readdir file (-1)) d).1.1 with
        | error err => simp
        | ok infos =>
          by_cases hnil : visible infos = []
          · simp [hnil, eq_comm]
          · simp only [hnil, if_false, Except.ok.injEq, Option.some.injEq, exists_eq_left']
            exact ⟨fun h => ⟨h, h ▸ hnil⟩, fun h => h.1⟩

theorem close_reads (hS : S.Steady) (d : S.Disk) (f : File S) :
    Reads d f.close fun r => ∃ x, r = .ok x ∧ True := by
  unfold File.close
  cases f.file with
  | none => exact Reads.pure ⟨_, rfl, trivial⟩
  | some file =>
    refine Reads.bind_ok (Reads.call hS rfl) fun err _ => ?_
    cases f.conn with
    | none => exact Reads.pure ⟨_, rfl, trivial⟩
    | some conn =>
      exact Reads.bind_ok (Reads.putConn conn) fun _ _ => Reads.pure ⟨_, rfl, trivial⟩

theorem page_reads (d : S.Disk) (f : File S) (entries : List FileInfo) (hpos : f.dirPos = 0) :
    Reads d (f.page entries (-1)) fun r => ∃ x, r = .ok x ∧
      x.1 = if entries = [] then .error (.sentinel .eof) else .ok entries := by
  have hneg : (-1 : Int64) ≤ 0 := by decide
  simp only [File.page, hneg, if_true, hpos, List.drop_zero]
  split
  · exact Reads.pure ⟨_, rfl, rfl⟩
  · exact Reads.pure ⟨_, rfl, rfl⟩

theorem readDir_reads (hS : S.Steady) (d : S.Disk) (conn : Nat) (file : S.File) (path : Str) :
    Reads d ((File.opened conn file path).readDir (-1)) fun r => ∃ x, r = .ok x ∧
      x.1 = readAnswer d path file := by
  refine Reads.bind_ok (Reads.call hS rfl) ?_
  rintro a rfl
  cases hr : (S.exec (.readdir file (-1)) d).1 with
  | mk r file' =>
    cases r with
    | error err => exact Reads.pure ⟨_, rfl, by simp [readAnswer, hr]; rfl⟩
    | ok infos =>
      refine (page_reads d _ _ rfl).mono ?_
      rintro _ ⟨x, rfl, hx⟩
      exact ⟨x, rfl, by simp [hx, readAnswer, hr]⟩

theorem askDir_reads (hS : S.Steady) (hu : fsys.Unfailing) (d : S.Disk) {l : Loc}
    (hl : validatePath l.slash = none ∧ fsys.pathNorm.normalize l.slash = l.slash) :
    Reads d (fsys.askDir l.slash) fun r => r.map Prod.fst = dirAnswer d l := by
  have hclose : ∀ (f : File S) (err : Err), dirAnswer d l = .error err →
      Reads d (do let _ ← f.close; fail err : CM S (List FileInfo × File S))
        fun r => r.map Prod.fst = dirAnswer d l := by
    intro f err herr
    refine Reads.bind_ok (close_reads hS d f) fun _ _ => Reads.fail ?_
    rw [herr]
    rfl
  refine Reads.bind (openFile_reads hS hu d hl (by decide) (by decide) 0) ?_ ?_
  · intro f hf
    cases hopen : (S.exec (.openFile l.smb oRDONLY 0) d).1 with
    | error err =>
      rw [hopen] at hf
      cases hf
    | ok file =>
      rw [hopen] at hf
      obtain ⟨conn, hf⟩ := hf
      cases hf
      have hstat : Reads d ((File.opened conn file l.slash).stat fsys) fun r => ∃ x, r = .ok x ∧
          x = ((S.exec (.fileStat file) d).1.mapError (wrapPathError .stat l.slash)).map fun info =>
            { info with name := fsys.pathNorm.base l.slash } := by
        refine Reads.bind_ok (Reads.call hS rfl) ?_
        rintro a rfl
        cases (S.exec (.fileStat file) d).1 with
        | error err => exact Reads.pure ⟨_, rfl, rfl⟩
        | ok info => exact Reads.pure ⟨_, rfl, rfl⟩
      refine Reads.bind_ok hstat ?_
      rintro x rfl
      cases hinfo : (S.exec (.fileStat file) d).1 with
      | error err =>
        refine hclose _ _ ?_
        simp only [dirAnswer, hopen, hinfo]
      | ok info =>
        simp only [Except.mapError, Except.map]
        cases hdir : info.isDir with
        | false =>
          refine hclose _ _ ?_
          simp [dirAnswer, hopen, hinfo, hdir]
        | true =>
          have hanswer : dirAnswer d l = readAnswer d l.slash file := by
            simp only [dirAnswer, hopen, hinfo, hdir, if_true]
          simp only [Bool.not_true, Bool.false_eq_true, if_false]
          refine Reads.bind_ok (readDir_reads hS d conn file l.slash) ?_
          rintro ⟨r, f⟩ hr
          cases r with
          | error err => exact hclose f err (hanswer.trans hr.symm)
          | ok entries => exact Reads.pure (hr.trans hanswer.symm)
  · intro err herr
    cases hopen : (S.exec (.openFile l.smb oRDONLY 0) d).1 with
    | error e =>
      rw [hopen] at herr
      cases herr
      simp [dirAnswer, hopen, Except.map]
    | ok file =>
      rw [hopen] at herr
      obtain ⟨_, ⟨⟩⟩ := herr

end Smbfs.Client
