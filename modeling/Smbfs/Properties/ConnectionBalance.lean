import Smbfs.Client.Accounting

/-!
The connections of the client. Every `pool.get` that succeeds in a function of
`FileSystem` is answered by one `pool.put` before the function returns, with or
without an error and however often it retries. The one exception is the
connection in a `File` that `OpenFile` returns: the first `Close` puts it back,
and no other call on the file puts anything: `connections_balanced`.
-/

namespace Smbfs.Client

open Smbfs.Lib CM

variable {S : Share} {α : Type} {fsys : FileSystem}

/-! ## The functions of `FileSystem` -/

variable {f : File S}

namespace FileSystem

variable {operation : CM S α} (name : Str)

theorem accounts_openOnce (flag : UInt32) (perm : FileMode) :
    Accounts fsys [] (fsys.openOnce name flag perm) (File.held (S := S)) := by
  refine .bind accounts_get fun conn => ?_
  refine .bind (accounts_call _) fun r => ?_
  cases r with
  | error err => exact .bind (accounts_putConn conn) fun _ => accounts_fail _
  | ok file => exact accounts_return rfl

theorem accounts_openFile (flag : UInt32) (perm : FileMode) :
    Accounts fsys [] (fsys.openFile name flag perm) (File.held (S := S)) := by
  refine .bind (accounts_checkPath _ _) fun name => ?_
  refine .bind (accounts_attempt (accounts_withRetry (accounts_openOnce name flag perm))) fun r => ?_
  cases r with
  | error err => exact accounts_fail _
  | ok f =>
    dsimp only
    split
    · exact .bind (accounts_onCache _) fun _ => accounts_return rfl
    · exact accounts_return rfl

theorem accounts_statOnce : Accounts fsys [] (fsys.statOnce name : CM S FileInfo) fun _ => [] := by
  refine .bind accounts_get fun conn => ?_
  refine accounts_deferPut conn ?_
  refine .bind (accounts_call _) fun r => ?_
  cases r with
  | error err => exact accounts_fail _
  | ok info => exact accounts_return rfl

theorem accounts_askStat : Accounts fsys [] (fsys.askStat name : CM S FileInfo) fun _ => [] := by
  refine .bind (accounts_attempt (accounts_withRetry (accounts_statOnce name))) fun r => ?_
  cases r with
  | error err => exact accounts_fail _
  | ok info => exact accounts_return rfl

theorem accounts_stat : Accounts fsys [] (fsys.stat name : CM S FileInfo) fun _ => [] := by
  refine .bind (accounts_checkPath _ _) fun name => ?_
  refine .bind (accounts_getStatInfo name) fun cached => ?_
  cases cached with
  | some info => exact accounts_return rfl
  | none =>
    refine .bind (accounts_askStat name) fun info => ?_
    exact .bind (accounts_putStatInfo name info) fun _ => accounts_return rfl

/-- The form of every early return behind a deferred `Close`. -/
theorem accounts_closing (f : File S) {m : CM S α} {after : α → List Nat}
    (h : Accounts fsys [] m after) : Accounts fsys f.held (do let _ ← f.close; m) after :=
  .bind (File.accounts_close f) fun _ => h

theorem accounts_askDir :
    Accounts fsys [] (fsys.askDir name) fun r : List FileInfo × File S => r.2.held := by
  refine .bind (accounts_openFile name _ _) fun f => ?_
  refine .bind (Quiet.accounts (File.quiet_stat f) fun _ _ => rfl) fun r => ?_
  cases r with
  | error err => exact accounts_closing f (accounts_fail _)
  | ok info =>
    dsimp only
    split
    · exact accounts_closing f (accounts_fail _)
    · refine .bind (File.keeps_readDir f _).accounts fun r => ?_
      obtain ⟨r, f'⟩ := r
      cases r with
      | error err => exact accounts_closing f' (accounts_fail _)
      | ok entries => exact accounts_return rfl

theorem accounts_readDir :
    Accounts fsys [] (fsys.readDir name : CM S (List FileInfo)) fun _ => [] := by
  refine .bind (accounts_checkPath _ _) fun name => ?_
  refine .bind (accounts_getDirEntries name) fun cached => ?_
  cases cached with
  | some entries => exact accounts_return rfl
  | none =>
    refine .bind (accounts_askDir name) fun r => ?_
    obtain ⟨entries, f⟩ := r
    refine .bind (accounts_putDirEntries name entries) fun _ => ?_
    exact accounts_closing f (accounts_return rfl)

theorem accounts_withConn (op : Op) (name : Str) {body : CM S Unit}
    (h : Accounts fsys [] body fun _ => []) :
    Accounts fsys [] (fsys.withConn op name body) fun _ => [] := by
  refine .bind (accounts_attempt accounts_get) fun r => ?_
  cases r with
  | error err => exact accounts_fail _
  | ok conn => exact accounts_deferPut conn h

theorem accounts_changePath (op : Op) (name : Str) {change : Str → CM S (Option Err)}
    (h : ∀ path, Accounts fsys [] (change path) fun _ => []) :
    Accounts fsys [] (fsys.changePath op name change) fun _ => [] := by
  refine .bind (accounts_checkPath _ _) fun name => accounts_withConn op name ?_
  refine .bind (h _) fun err => ?_
  cases err with
  | some err => exact accounts_fail _
  | none => exact accounts_onCache _

theorem accounts_mkdir (perm : FileMode) :
    Accounts fsys [] (fsys.mkdir name perm : CM S Unit) fun _ => [] :=
  accounts_changePath _ _ fun _ => accounts_call _

theorem accounts_remove : Accounts fsys [] (fsys.remove name : CM S Unit) fun _ => [] :=
  accounts_changePath _ _ fun _ => accounts_call _

theorem accounts_rename (oldname newname : Str) :
    Accounts fsys [] (fsys.rename oldname newname : CM S Unit) fun _ => [] := by
  refine .bind (accounts_checkPath _ _) fun _ => ?_
  refine .bind (accounts_checkPath _ _) fun _ => accounts_withConn _ _ ?_
  refine .bind (accounts_call _) fun err => ?_
  cases err with
  | some err => exact accounts_fail _
  | none => exact .bind (accounts_onCache _) fun _ => accounts_onCache _

theorem accounts_mkdirAllFrom (depth : Nat) (name : Str) (perm : FileMode) :
    Accounts fsys [] (fsys.mkdirAllFrom depth name perm : CM S Unit) fun _ => [] := by
  induction depth generalizing name with
  | zero => exact accounts_crash
  | succ depth ih =>
    refine .bind (accounts_checkPath _ _) fun name => ?_
    refine .bind (accounts_attempt (accounts_stat name)) fun r => ?_
    cases r with
    | ok info =>
      dsimp only
      split
      · exact accounts_fail _
      · exact accounts_return rfl
    | error err =>
      dsimp only
      split
      · exact .bind (ih _) fun _ => accounts_mkdir name perm
      · exact accounts_mkdir name perm

theorem accounts_forM {γ : Type} {f : γ → CM S Unit}
    (h : ∀ x, Accounts fsys [] (f x) fun _ => []) (xs : List γ) :
    Accounts fsys [] (xs.forM f) fun _ => [] := by
  induction xs with
  | nil => exact accounts_return rfl
  | cons x xs ih => exact .bind (h x) fun _ => ih

theorem accounts_removeAllFrom (depth : Nat) (name : Str) :
    Accounts fsys [] (fsys.removeAllFrom depth name : CM S Unit) fun _ => [] := by
  induction depth generalizing name with
  | zero => exact accounts_crash
  | succ depth ih =>
    refine .bind (accounts_checkPath _ _) fun name => ?_
    refine .bind (accounts_attempt (accounts_stat name)) fun r => ?_
    cases r with
    | error err =>
      dsimp only
      split
      · exact accounts_return rfl
      · exact accounts_fail _
    | ok info =>
      dsimp only
      split
      · exact accounts_remove name
      · refine .bind (accounts_readDir name) fun entries => ?_
        refine .bind (accounts_forM (fun entry => ih _) entries) fun _ => ?_
        exact accounts_remove name

theorem accounts_truncate (size : Int64) :
    Accounts fsys [] (fsys.truncate name size : CM S Unit) fun _ => [] := by
  refine .bind (accounts_checkPath _ _) fun name => ?_
  refine .bind (accounts_openFile name _ _) fun f => ?_
  refine .bind (File.keeps_truncate f size).accounts fun r => ?_
  obtain ⟨err, f'⟩ := r
  cases err with
  | some err => exact accounts_closing f' (accounts_fail _)
  | none =>
    refine .bind (accounts_onCache _) fun _ => ?_
    exact accounts_closing f' (accounts_return rfl)

theorem accounts_chdir (dir : Str) : Accounts fsys [] (fsys.chdir dir : CM S Unit) fun _ => [] := by
  refine .bind (accounts_checkPath _ _) fun dir => ?_
  refine .bind (accounts_stat dir) fun info => ?_
  split
  · exact accounts_fail _
  · exact accounts_return rfl

theorem accounts_readFile (rounds : Nat) (name : Str) :
    Accounts fsys [] (fsys.readFile rounds name : CM S Bytes) fun _ => [] := by
  refine .bind (accounts_checkPath _ _) fun name => ?_
  refine .bind (accounts_openFile name _ _) fun f => ?_
  refine .bind (Quiet.accounts (File.quiet_stat f) fun _ _ => rfl) fun r => ?_
  cases r with
  | error err => exact accounts_closing f (accounts_fail _)
  | ok info =>
    dsimp only
    split
    · exact accounts_closing f (accounts_fail _)
    · split
      · exact accounts_closing f accounts_crash
      · refine .bind (File.keeps_readFull rounds f _).accounts fun r => ?_
        obtain ⟨⟨data, err⟩, f'⟩ := r
        refine accounts_closing f' ?_
        cases err with
        | none => exact accounts_return rfl
        | some err =>
          dsimp only
          split
          · exact accounts_return rfl
          · exact accounts_fail _

/-! ## What `OpenFile` returns -/

variable {s t : State S}

theorem attempt_ok {m : CM S α} {a : α} (h : attempt m s = .ok (.ok a) t) : m s = .ok a t := by
  unfold attempt at h
  cases hm : m s with
  | ok b u =>
    rw [hm] at h
    cases h
    rfl
  | error fault u =>
    rw [hm] at h
    cases fault <;> cases h

theorem tryOnce_ok {a : α} (h : fsys.tryOnce operation s = .ok (.ok a) t) :
    ∃ s₁, operation s₁ = .ok a t := by
  obtain ⟨_, s₁, -, h⟩ := bind_eq_ok h
  obtain ⟨r, t₁, hattempt, h⟩ := bind_eq_ok h
  cases r with
  | ok b =>
    cases h
    exact ⟨s₁, attempt_ok hattempt⟩
  | error err =>
    dsimp only at h
    split at h <;> cases h

theorem retryLoop_ok {n : Nat} {a : α} (h : fsys.retryLoop operation n s = .ok a t) :
    ∃ s₁, operation s₁ = .ok a t := by
  induction n generalizing s with
  | zero =>
    obtain ⟨r, t₁, htry, h⟩ := bind_eq_ok h
    cases r with
    | ok b =>
      cases h
      exact tryOnce_ok htry
    | error err => cases h
  | succ n ih =>
    obtain ⟨r, t₁, htry, h⟩ := bind_eq_ok h
    cases r with
    | ok b =>
      cases h
      exact tryOnce_ok htry
    | error err =>
      obtain ⟨_, t₂, -, h⟩ := bind_eq_ok h
      exact ih h

/-- What `withRetry` returns, the last attempt returned. -/
theorem withRetry_ok {a : α} (h : fsys.withRetry operation s = .ok a t) :
    ∃ s₁, operation s₁ = .ok a t := by
  unfold FileSystem.withRetry at h
  split at h
  · exact ⟨s, h⟩
  · exact retryLoop_ok h

theorem openOnce_ok {name : Str} {flag : UInt32} {perm : FileMode}
    (h : fsys.openOnce name flag perm s = .ok f t) :
    ∃ conn file, f = File.opened conn file name := by
  obtain ⟨conn, s₁, -, h⟩ := bind_eq_ok h
  obtain ⟨r, s₂, -, h⟩ := bind_eq_ok h
  cases r with
  | error err =>
    obtain ⟨_, s₃, -, h⟩ := bind_eq_ok h
    cases h
  | ok file =>
    cases h
    exact ⟨conn, file, rfl⟩

theorem openFile_ok {name : Str} {flag : UInt32} {perm : FileMode}
    (h : fsys.openFile name flag perm s = .ok f t) :
    ∃ conn file path, f = File.opened conn file path := by
  obtain ⟨path, s₁, -, h⟩ := bind_eq_ok h
  obtain ⟨r, s₂, hattempt, h⟩ := bind_eq_ok h
  cases r with
  | error err => cases h
  | ok f' =>
    obtain ⟨s₃, honce⟩ := withRetry_ok (attempt_ok hattempt)
    obtain ⟨conn, file, hopened⟩ := openOnce_ok honce
    have hf : f = f' := by
      dsimp only at h
      split at h
      · obtain ⟨_, _, -, h⟩ := bind_eq_ok h
        cases h
        rfl
      · cases h
        rfl
    exact ⟨conn, file, path, hf.trans hopened⟩

end FileSystem

/-! ## Operations -/

inductive FsOp where
  | openFile (name : Str) (flag : UInt32) (perm : FileMode)
  | stat (name : Str)
  | readDir (name : Str)
  | mkdir (name : Str) (perm : FileMode)
  | mkdirAll (name : Str) (perm : FileMode)
  | remove (name : Str)
  | removeAll (name : Str)
  | rename (oldname newname : Str)
  | chmod (name : Str) (mode : FileMode)
  | chtimes (name : Str) (atime mtime : GoTime)
  | truncate (name : Str) (size : Int64)
  | readFile (rounds : Nat) (name : Str)
  | chdir (dir : Str)

/-- An operation, and the file it returns if it is `OpenFile`. -/
def FileSystem.operate (fsys : FileSystem) : FsOp → CM S (Option (File S))
  | .openFile name flag perm => do return some (← fsys.openFile name flag perm)
  | .stat name => do let _ ← fsys.stat name; return none
  | .readDir name => do let _ ← fsys.readDir name; return none
  | .mkdir name perm => do fsys.mkdir name perm; return none
  | .mkdirAll name perm => do fsys.mkdirAll name perm; return none
  | .remove name => do fsys.remove name; return none
  | .removeAll name => do fsys.removeAll name; return none
  | .rename oldname newname => do fsys.rename oldname newname; return none
  | .chmod name mode => do fsys.chmod name mode; return none
  | .chtimes name atime mtime => do fsys.chtimes name atime mtime; return none
  | .truncate name size => do fsys.truncate name size; return none
  | .readFile rounds name => do let _ ← fsys.readFile rounds name; return none
  | .chdir dir => do fsys.chdir dir; return none

/-- The connection a `pool.get` between two states gave. -/
def FileSystem.Obtained (fsys : FileSystem) (s t : State S) (conn : Nat) : Prop :=
  s.gets ≤ conn ∧ conn < t.gets ∧ fsys.poolGet conn = none

instance (s t : State S) (conn : Nat) : Decidable (fsys.Obtained s t conn) :=
  inferInstanceAs (Decidable (_ ∧ _ ∧ _))

/-- From `s` to `t` every connection obtained was put back once, apart from
`kept`, and no other connection was put back. -/
def FileSystem.Balanced (fsys : FileSystem) (kept : Option Nat) (s t : State S) : Prop :=
  ∀ conn, t.puts.count conn =
    s.puts.count conn + if fsys.Obtained s t conn ∧ kept ≠ some conn then 1 else 0

/-! ## Calls on a file -/

/-- The methods of `File`; `WriteString` is `Write` and `Readdir` is `ReadDir`. -/
inductive FileCall where
  | read (n : Nat)
  | write (p : Bytes)
  | seek (offset : Int64) (whence : Whence)
  | stat
  | truncate (size : Int64)
  | readAt (n : Nat) (off : Int64)
  | writeAt (b : Bytes) (off : Int64)
  | sync
  | readDir (n : Int64)
  | readdirnames (n : Int64)
  | close
  deriving DecidableEq

/-- The file after a call on it. -/
def File.perform (fsys : FileSystem) (f : File S) : FileCall → CM S (File S)
  | .read n => do return (← f.read n).2
  | .write p => do return (← f.write p).2
  | .seek offset whence => do return (← f.seek offset whence).2
  | .stat => do let _ ← f.stat fsys; return f
  | .truncate size => do return (← f.truncate size).2
  | .readAt n off => do return (← f.readAt n off).2
  | .writeAt b off => do return (← f.writeAt b off).2
  | .sync => do let _ := f.sync; return f
  | .readDir n => do return (← f.readDir n).2
  | .readdirnames n => do return (← f.readdirnames n).2
  | .close => do return (← f.close).2

/-- A list of calls on a file, each made in the state the client is in at that
time: the first `Close` puts `conn` back, once, and no other call puts anything.
The flag says that the file was closed before. -/
def File.PutsOnce (fsys : FileSystem) (conn : Nat) :
    Bool → File S → List (FileCall × State S) → Prop
  | _, _, [] => True
  | closed, f, (call, s) :: calls =>
    match f.perform fsys call s with
    | .ok f' t =>
      t.puts = (if call = .close ∧ closed = false then [conn] else []) ++ s.puts ∧
        PutsOnce fsys conn (closed || call = .close) f' calls
    | .error fault _ => fault = .crash

theorem File.keeps_perform (f : File S) {call : FileCall} (h : call ≠ .close) :
    Quiet (fun f' => f'.held = f.held) (f.perform fsys call) := by
  cases call with
  | read n => exact .bind (keeps_read f n) fun _ hr => .pure hr
  | write p => exact .bind (keeps_write f p) fun _ hr => .pure hr
  | seek offset whence => exact .bind (keeps_seek f offset whence) fun _ hr => .pure hr
  | stat => exact .bind (quiet_stat f) fun _ _ => .pure rfl
  | truncate size => exact .bind (keeps_truncate f size) fun _ hr => .pure hr
  | readAt n off => exact .bind (keeps_readAt f n off) fun _ hr => .pure hr
  | writeAt b off => exact .bind (keeps_writeAt f b off) fun _ hr => .pure hr
  | sync => exact .pure rfl
  | readDir n => exact .bind (keeps_readDir f n) fun _ hr => .pure hr
  | readdirnames n => exact .bind (keeps_readdirnames f n) fun _ hr => .pure hr
  | close => exact absurd rfl h

/-- An open file holds its connection and a closed one nothing; every call keeps this. -/
theorem File.putsOnce {conn : Nat} {closed : Bool}
    (h : f.held = if closed then [] else [conn]) (calls : List (FileCall × State S)) :
    f.PutsOnce fsys conn closed calls := by
  induction calls generalizing f closed with
  | nil => trivial
  | cons first calls ih =>
    obtain ⟨call, s⟩ := first
    by_cases hclose : call = .close
    · subst hclose
      obtain ⟨err, f', t, hrun, hheld, -, hputs⟩ := close_run f s
      have hperform : f.perform fsys .close s = .ok f' t := by
        rw [perform, bind_run, hrun]
        rfl
      rw [PutsOnce, hperform]
      refine ⟨?_, ih (by simpa using hheld)⟩
      rw [hputs, h]
      cases closed <;> rfl
    · have hkeeps : Quiet (fun f' => f'.held = f.held) (f.perform fsys call) :=
        keeps_perform f hclose
      have hquiet := hkeeps s
      rw [PutsOnce]
      cases hrun : f.perform fsys call s with
      | error fault t =>
        rw [hrun] at hquiet
        exact hquiet
      | ok f' t =>
        rw [hrun] at hquiet
        obtain ⟨hheld, -, hputs⟩ := hquiet
        refine ⟨?_, ih ?_⟩
        · simpa [hclose] using hputs
        · simpa [hclose, hheld] using h

/-! ## Balance -/

namespace FileSystem

/-- Between two states a connection was obtained once or not at all. -/
theorem taken_of_le {s t : State S} {conn : Nat}
    (h : fsys.ledger.taken s conn ≤ fsys.ledger.taken t conn) :
    fsys.ledger.taken t conn =
      fsys.ledger.taken s conn + if fsys.Obtained s t conn then 1 else 0 := by
  simp only [ledger, Obtained] at h ⊢
  by_cases hnone : fsys.poolGet conn = none
  · simp only [hnone, and_true] at h ⊢
    split_ifs at h ⊢ <;> omega
  · simp [hnone]

section

variable {kept : Option Nat} {s t : State S}

theorem kept_add (h : fsys.ledger.Moves [] kept.toList s t) (conn : Nat) :
    t.puts.count conn + (if kept = some conn then 1 else 0) =
      s.puts.count conn + if fsys.Obtained s t conn then 1 else 0 := by
  have hconn : t.puts.count conn + _ + _ = s.puts.count conn + _ + _ := h.accounted conn
  have hkept : kept.toList.count conn = if kept = some conn then 1 else 0 := by
    cases kept with
    | none => rfl
    | some c => simp [List.count_singleton]
  rw [taken_of_le (h.taken_le conn), hkept, List.count_nil] at hconn
  omega

theorem obtained_of_kept (h : fsys.ledger.Moves [] kept.toList s t) {conn : Nat}
    (hkept : kept = some conn) : fsys.Obtained s t conn := by
  have hadd := kept_add h conn
  have hle : s.puts.count conn ≤ t.puts.count conn := h.returned_le conn
  rw [if_pos hkept] at hadd
  by_contra hnot
  rw [if_neg hnot] at hadd
  omega

theorem balanced_of_moves (kept : Option Nat) (h : fsys.ledger.Moves [] kept.toList s t) :
    fsys.Balanced kept s t := by
  intro conn
  have hadd := kept_add h conn
  by_cases hkept : kept = some conn
  · have hobtained := obtained_of_kept h hkept
    rw [if_pos hkept, if_pos hobtained] at hadd
    rw [if_neg fun hand => hand.2 hkept]
    omega
  · rw [if_neg hkept] at hadd
    simp only [ne_eq, hkept, not_false_eq_true, and_true]
    exact hadd

end

/-- Operations other than `OpenFile` return no file and hold nothing. -/
theorem accounts_operate (op : FsOp) :
    Accounts fsys [] (fsys.operate op : CM S (Option (File S))) fun r => r.elim [] File.held := by
  cases op with
  | openFile name flag perm =>
    exact .bind (accounts_openFile name flag perm) fun _ => accounts_return rfl
  | stat name => exact .bind (accounts_stat name) fun _ => accounts_return rfl
  | readDir name => exact .bind (accounts_readDir name) fun _ => accounts_return rfl
  | mkdir name perm => exact .bind (accounts_mkdir name perm) fun _ => accounts_return rfl
  | mkdirAll name perm =>
    exact .bind (accounts_mkdirAllFrom _ name perm) fun _ => accounts_return rfl
  | remove name => exact .bind (accounts_remove name) fun _ => accounts_return rfl
  | removeAll name => exact .bind (accounts_removeAllFrom _ name) fun _ => accounts_return rfl
  | rename oldname newname =>
    exact .bind (accounts_rename oldname newname) fun _ => accounts_return rfl
  | chmod | chtimes =>
    exact .bind (accounts_changePath _ _ fun _ => accounts_call _) fun _ => accounts_return rfl
  | truncate name size => exact .bind (accounts_truncate name size) fun _ => accounts_return rfl
  | readFile rounds name => exact .bind (accounts_readFile rounds name) fun _ => accounts_return rfl
  | chdir dir => exact .bind (accounts_chdir dir) fun _ => accounts_return rfl

/-- The file an operation returns is one that `OpenFile` has just made. -/
theorem operate_file {op : FsOp} {s t : State S}
    (h : fsys.operate op s = .ok (some f) t) : ∃ conn file path, f = File.opened conn file path := by
  cases op with
  | openFile name flag perm =>
    obtain ⟨f', t₁, hopen, h⟩ := bind_eq_ok h
    cases h
    exact openFile_ok hopen
  | _ =>
    obtain ⟨_, _, -, h⟩ := bind_eq_ok h
    cases h

end FileSystem

/-- Whatever the pool, the context, the share and the clock answer: an
operation that returns has put back every connection it obtained, once, and no
other, apart from the one in the file that `OpenFile` returns. That one is put
back by the first `Close` and by nothing else that is called on the file. -/
theorem connections_balanced (fsys : FileSystem) (op : FsOp) (s : State S) :
    match fsys.operate op s with
    | .ok none t => fsys.Balanced none s t
    | .ok (some f) t =>
      ∃ conn, f.conn = some conn ∧ fsys.Obtained s t conn ∧ fsys.Balanced (some conn) s t ∧
        ∀ calls, f.PutsOnce fsys conn false calls
    | .error (.error _) t => fsys.Balanced none s t
    | .error .crash _ => True := by
  have haccounts : Accounts fsys [] (fsys.operate op : CM S _) fun r => r.elim [] File.held :=
    FileSystem.accounts_operate op
  have hspends := haccounts s
  cases hrun : fsys.operate op s with
  | error fault t =>
    cases fault with
    | crash => trivial
    | error err =>
      rw [hrun] at hspends
      exact FileSystem.balanced_of_moves none (hspends.resolve_left (by simp))
  | ok r t =>
    rw [hrun] at hspends
    cases r with
    | none => exact FileSystem.balanced_of_moves none hspends
    | some f =>
      obtain ⟨conn, file, path, rfl⟩ := FileSystem.operate_file hrun
      refine ⟨conn, rfl, ?_, FileSystem.balanced_of_moves (some conn) hspends, fun calls => ?_⟩
      · exact FileSystem.obtained_of_kept hspends rfl
      · exact File.putsOnce rfl calls

end Smbfs.Client
