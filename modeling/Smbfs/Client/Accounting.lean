import Smbfs.Client.FileRuns
import Smbfs.Client.FileSystem
import Smbfs.Lib.Ledger

/-!
The books of the client: which connections a program of the client takes from
the pool, which it holds, and which it puts back. The rules follow the
combinators of the model; an error leaves a program with empty hands, and a
method of an open file leaves the pool alone unless it is `Close`.
-/

namespace Smbfs.Client

open Smbfs.Lib CM

variable {S : Share} {α β : Type}

/-! ## The books of the pool -/

/-- How often `pool.get` has given a connection, which is at most once, and how
often it was put back. -/
def FileSystem.ledger (fsys : FileSystem) : Ledger (State S) Nat where
  taken s i := if i < s.gets ∧ fsys.poolGet i = none then 1 else 0
  returned s i := s.puts.count i

/-- The program accounts for its connections; a crash ends everything. -/
abbrev Accounts (fsys : FileSystem) (before : List Nat) (m : CM S α) (after : α → List Nat) :
    Prop :=
  Spends fsys.ledger (· = Fault.crash) before m after

variable {fsys : FileSystem} {own : List Nat}

theorem taken_congr {s t : State S} (h : t.gets = s.gets) :
    (fsys.ledger : Ledger (State S) Nat).taken t = fsys.ledger.taken s := by
  funext i
  simp only [FileSystem.ledger, h]

theorem accounts_call (c : ShareCall S.File) : Accounts fsys own (call c) fun _ => own :=
  .of_returns (fun _ => rfl) (fun _ => rfl) fun _ => ⟨_, _, rfl⟩

theorem accounts_now : Accounts fsys own (fsys.now : CM S GoTime) fun _ => own :=
  .of_returns (fun _ => rfl) (fun _ => rfl) fun _ => ⟨_, _, rfl⟩

theorem accounts_onCache (f : MetadataCache → MetadataCache) :
    Accounts fsys own (onCache f : CM S Unit) fun _ => own :=
  .of_returns (fun _ => rfl) (fun _ => rfl) fun _ => ⟨_, _, rfl⟩

variable {after : α → List Nat}

theorem accounts_fail (err : Err) : Accounts fsys [] (fail err : CM S α) after :=
  .throw _

theorem accounts_crash : Accounts fsys own (crash : CM S α) after :=
  .throw_dead rfl

theorem accounts_return {a : α} (h : after a = own) : Accounts fsys own (pure a : CM S α) after :=
  h ▸ .pure a

theorem accounts_get : Accounts fsys [] (fsys.get : CM S Nat) fun conn => [conn] := by
  intro s
  unfold FileSystem.get
  cases h : fsys.poolGet s.gets with
  | some err =>
    refine .inr (.of_eq (funext fun i => ?_) rfl)
    -- the number of a failed `get` is no connection
    have hi : i < s.gets + 1 ∧ fsys.poolGet i = none ↔ i < s.gets ∧ fsys.poolGet i = none := by
      refine and_congr_left fun hnone => ⟨fun hlt => ?_, by omega⟩
      have hne : i ≠ s.gets := by
        rintro rfl
        rw [h] at hnone
        cases hnone
      omega
    simp only [FileSystem.ledger, hi]
  | none =>
    constructor
    · intro i
      simp only [FileSystem.ledger]
      split
      · next hi => rw [if_pos ⟨by omega, hi.2⟩]
      · exact Nat.zero_le _
    · exact fun i => Nat.le_refl _
    · intro i
      simp only [FileSystem.ledger, List.count_nil, List.count_singleton]
      by_cases hi : i = s.gets
      · subst hi
        simp [h]
      · have hlt : i < s.gets + 1 ↔ i < s.gets := by omega
        simp [hlt, Ne.symm hi]

theorem accounts_putConn (conn : Nat) :
    Accounts fsys (conn :: own) (putConn conn : CM S Unit) fun _ => own := by
  intro s
  constructor
  · exact fun i => Nat.le_refl _
  · exact fun i => List.count_le_count_cons
  · intro i
    have hcount : (conn :: s.puts).count i + own.count i =
        s.puts.count i + (conn :: own).count i := by
      simp only [List.count_cons]
      omega
    exact congrArg (· + fsys.ledger.taken s i) hcount

/-- What is held after a program whose error is looked at. -/
def heldAfter (after : α → List Nat) : Except Err α → List Nat
  | .ok a => after a
  | .error _ => []

theorem accounts_attempt {before : List Nat} {m : CM S α}
    (h : Accounts fsys before m after) : Accounts fsys before (attempt m) (heldAfter after) := by
  intro s
  have hs := h s
  unfold attempt
  cases hm : m s with
  | ok a t =>
    rw [hm] at hs
    exact hs
  | error fault t =>
    cases fault with
    | crash => exact .inl rfl
    | error err =>
      simp only [hm] at hs ⊢
      exact hs.resolve_left (by simp)

theorem attempt_error {m : CM S α} {s t : State S} {fault : Fault}
    (h : attempt m s = .error fault t) : fault = .crash := by
  unfold attempt at h
  cases hm : m s with
  | ok a u =>
    rw [hm] at h
    cases h
  | error e u =>
    rw [hm] at h
    cases e with
    | crash =>
      cases h
      rfl
    | error err => cases h

theorem accounts_ofExcept (r : Except Err α) :
    Accounts fsys (heldAfter after r) (ofExcept r : CM S α) after := by
  cases r with
  | ok a => exact .pure a
  | error err => exact accounts_fail err

/-- A deferred `pool.put` covers every way out of the body. -/
theorem accounts_deferPut (conn : Nat) {body : CM S α}
    (h : Accounts fsys [] body after) : Accounts fsys [conn] (deferPut conn body) after := by
  have hbody := (accounts_attempt h).frame (fun _ _ _ hs => attempt_error hs) [conn]
  refine .bind hbody fun r => ?_
  refine .bind (accounts_putConn conn) fun _ => ?_
  exact accounts_ofExcept r

/-! ## Retrying, cache and paths -/

theorem accounts_checkContext : Accounts fsys [] (fsys.checkContext : CM S Unit) fun _ => [] := by
  refine .of_keeps (fun s => ?_) fun s => ?_
  all_goals
    unfold FileSystem.checkContext
    cases fsys.ctxErr s.looks <;> rfl

variable {operation : CM S α}

theorem accounts_tryOnce (h : Accounts fsys [] operation after) :
    Accounts fsys [] (fsys.tryOnce operation) (heldAfter after) := by
  refine .bind accounts_checkContext fun _ => ?_
  refine .bind (accounts_attempt h) fun r => ?_
  cases r with
  | ok a => exact .pure (Except.ok a)
  | error err =>
    dsimp only
    split
    · exact .pure (Except.error err)
    · exact accounts_fail err

/-- A failed attempt holds nothing, so the next one starts with empty hands. -/
theorem accounts_retryLoop (h : Accounts fsys [] operation after) (n : Nat) :
    Accounts fsys [] (fsys.retryLoop operation n) after := by
  induction n with
  | zero => exact .bind (accounts_tryOnce h) fun r => accounts_ofExcept r
  | succ n ih =>
    refine .bind (accounts_tryOnce h) fun r => ?_
    cases r with
    | ok a => exact .pure a
    | error err => exact .bind accounts_checkContext fun _ => ih

theorem accounts_withRetry
    (h : Accounts fsys [] operation after) : Accounts fsys [] (fsys.withRetry operation) after := by
  unfold FileSystem.withRetry
  split
  · exact h
  · exact accounts_retryLoop h _

theorem accounts_look (g : State S → α) :
    Accounts fsys own (do return g (← EStateM.get)) fun _ => own :=
  .of_returns (fun _ => rfl) (fun _ => rfl) fun _ => ⟨_, _, rfl⟩

variable (path : Str)

theorem accounts_getStatInfo :
    Accounts fsys own (fsys.getStatInfo path : CM S (Option FileInfo)) fun _ => own :=
  .bind accounts_now fun _ => accounts_look _

theorem accounts_getDirEntries :
    Accounts fsys own (fsys.getDirEntries path : CM S (Option (List FileInfo))) fun _ => own :=
  .bind accounts_now fun _ => accounts_look _

theorem accounts_putStatInfo (info : FileInfo) :
    Accounts fsys own (fsys.putStatInfo path info : CM S Unit) fun _ => own :=
  .bind accounts_now fun _ => accounts_onCache _

theorem accounts_putDirEntries (entries : List FileInfo) :
    Accounts fsys own (fsys.putDirEntries path entries : CM S Unit) fun _ => own :=
  .bind accounts_now fun _ => accounts_onCache _

theorem accounts_checkPath (op : Op) (name : Str) :
    Accounts fsys [] (fsys.checkPath op name : CM S Str) fun _ => [] := by
  unfold FileSystem.checkPath
  cases validatePath name with
  | some err => exact accounts_fail _
  | none => exact accounts_return rfl

/-! ## Open files -/

/-- The program asks the pool for nothing, puts nothing back and fails in no
way but a crash; what it returns satisfies `P`. -/
def Quiet (P : α → Prop) (m : CM S α) : Prop :=
  ∀ s, match m s with
    | .ok a t => P a ∧ t.gets = s.gets ∧ t.puts = s.puts
    | .error fault _ => fault = .crash

namespace Quiet

variable {P : α → Prop} {Q : β → Prop} {m : CM S α} {g : α → CM S β}

theorem bind (h : Quiet P m) (hg : ∀ a, P a → Quiet Q (g a)) : Quiet Q (m >>= g) := by
  intro s
  have hs := h s
  rw [bind_run]
  cases hm : m s with
  | error fault t =>
    rw [hm] at hs
    exact hs
  | ok a t =>
    rw [hm] at hs
    have ht := hg a hs.1 t
    cases hga : g a t with
    | error fault u =>
      simp only [hga] at ht ⊢
      exact ht
    | ok b u =>
      simp only [hga] at ht ⊢
      exact ⟨ht.1, ht.2.1.trans hs.2.1, ht.2.2.trans hs.2.2⟩

theorem pure {a : α} (h : P a) : Quiet P (Pure.pure a : CM S α) := fun _ => ⟨h, rfl, rfl⟩

theorem crash : Quiet P (CM.crash : CM S α) := fun _ => rfl

theorem call (c : ShareCall S.File) : Quiet (fun _ => True) (CM.call c) :=
  fun _ => ⟨trivial, rfl, rfl⟩

theorem of_onlyCalls (h : OnlyCalls m) : Quiet (fun _ => True) m := by
  intro s
  obtain ⟨a, d, hm⟩ := h s
  rw [hm]
  exact ⟨trivial, rfl, rfl⟩

theorem accounts (h : Quiet P m) (hafter : ∀ a, P a → after a = own) :
    Accounts fsys own m after := by
  intro s
  have hs := h s
  cases hm : m s with
  | error fault t =>
    rw [hm] at hs
    exact .inl hs
  | ok a t =>
    rw [hm] at hs
    obtain ⟨ha, hgets, hputs⟩ := hs
    show fsys.ledger.Moves own (after a) s t
    rw [hafter a ha]
    exact .of_eq (taken_congr hgets) (funext fun i => congrArg (List.count i) hputs)

end Quiet

/-- What the next `Close` puts back. -/
def File.held (f : File S) : List Nat :=
  match f.file with
  | none => []
  | some _ => f.conn.toList

theorem File.held_of_open {f : File S} {file : S.File} (h : f.file = some file) :
    f.held = f.conn.toList := by
  rw [File.held, h]

/-- A method that touches no connection, neither in the pool nor in its file. -/
abbrev KeepsConn (f : File S) (m : CM S (α × File S)) : Prop :=
  Quiet (fun r => r.2.held = f.held) m

theorem KeepsConn.accounts {f : File S} {m : CM S (α × File S)} (h : KeepsConn f m) :
    Accounts fsys f.held m fun r => r.2.held :=
  Quiet.accounts h fun _ hr => hr

namespace File

variable (f : File S)

theorem keeps_read (n : Nat) : KeepsConn f (f.read n) := by
  unfold File.read
  cases hfile : f.file with
  | none => exact .pure rfl
  | some file =>
    refine .bind (.call _) fun r _ => ?_
    obtain ⟨⟨data, err⟩, file'⟩ := r
    cases err with
    | none => exact .pure (held_of_open hfile).symm
    | some err =>
      dsimp only
      split <;> exact .pure (held_of_open hfile).symm

theorem keeps_write (p : Bytes) : KeepsConn f (f.write p) := by
  unfold File.write
  cases hfile : f.file with
  | none => exact .pure rfl
  | some file =>
    refine .bind (.call _) fun r _ => ?_
    obtain ⟨⟨n, err⟩, file'⟩ := r
    cases err <;> exact .pure (held_of_open hfile).symm

theorem keeps_seek (offset : Int64) (whence : Whence) : KeepsConn f (f.seek offset whence) := by
  unfold File.seek
  cases hfile : f.file with
  | none => exact .pure rfl
  | some file =>
    refine .bind (.call _) fun r _ => ?_
    obtain ⟨r, file'⟩ := r
    cases r <;> exact .pure (held_of_open hfile).symm

theorem quiet_stat : Quiet (fun _ => True) (f.stat fsys) := by
  unfold File.stat
  cases f.file with
  | none => exact .pure trivial
  | some file =>
    refine .bind (.call _) fun r _ => ?_
    cases r <;> exact .pure trivial

theorem keeps_truncate (size : Int64) : KeepsConn f (f.truncate size) := by
  unfold File.truncate
  cases hfile : f.file with
  | none => exact .pure rfl
  | some file =>
    exact .bind (.of_onlyCalls (truncateFile_onlyCalls _ _ _)) fun _ _ =>
      .pure (held_of_open hfile).symm

/-- A method that leaves an open file open. -/
theorem keeps_of_run {f : File S} {file : S.File} {m : CM S (α × File S)} (hf : f.file = some file)
    (h : ∀ s, ∃ x file' d, m s = .ok (x, { f with file := some file' }) { s with disk := d }) :
    KeepsConn f m := by
  intro s
  obtain ⟨x, file', d, hm⟩ := h s
  rw [hm]
  exact ⟨(held_of_open hf).symm, rfl, rfl⟩

theorem keeps_readAt (n : Nat) (off : Int64) : KeepsConn f (f.readAt n off) := by
  cases hfile : f.file with
  | none =>
    rw [File.readAt, hfile]
    exact .pure rfl
  | some file =>
    refine keeps_of_run hfile fun s => ?_
    obtain ⟨x, hrun⟩ := FileInUse.readAt_run hfile n off s
    exact ⟨x, _, _, hrun⟩

theorem keeps_writeAt (b : Bytes) (off : Int64) : KeepsConn f (f.writeAt b off) := by
  cases hfile : f.file with
  | none =>
    rw [File.writeAt, hfile]
    exact .pure rfl
  | some file =>
    refine keeps_of_run hfile fun s => ?_
    obtain ⟨x, hrun⟩ := FileInUse.writeAt_run hfile b off s
    exact ⟨x, _, _, hrun⟩

theorem keeps_page (entries : List FileInfo) (n : Int64) : KeepsConn f (f.page entries n) := by
  unfold File.page
  split
  · extract_lets
    split <;> exact .pure rfl
  · split
    · exact .pure rfl
    · extract_lets
      split
      · exact .crash
      · exact .pure rfl

theorem keeps_readDir (n : Int64) : KeepsConn f (f.readDir n) := by
  unfold File.readDir
  cases hfile : f.file with
  | none => exact .pure rfl
  | some file =>
    cases hentry : f.dirEntry with
    | some entries => exact keeps_page f entries n
    | none =>
      refine .bind (.call _) fun r _ => ?_
      obtain ⟨r, file'⟩ := r
      rw [held_of_open hfile]
      cases r with
      | error err => exact .pure rfl
      | ok infos => exact keeps_page _ _ _

theorem keeps_readdirnames (n : Int64) : KeepsConn f (f.readdirnames n) :=
  .bind (keeps_readDir f n) fun _ h => .pure h

theorem keeps_readLoop (rounds : Nat) (f : File S) (want : Nat) :
    KeepsConn f (readLoop rounds f want) := by
  induction rounds generalizing f want with
  | zero =>
    unfold readLoop
    split
    · exact .pure rfl
    · exact .crash
  | succ rounds ih =>
    unfold readLoop
    split
    · exact .pure rfl
    · refine .bind (keeps_read f want) fun r hr => ?_
      obtain ⟨⟨data, err⟩, f'⟩ := r
      cases err with
      | some err => exact .pure hr
      | none => exact .bind (ih f' _) fun _ h => .pure (h.trans hr)

theorem keeps_readFull (rounds : Nat) (f : File S) (size : Nat) :
    KeepsConn f (readFull rounds f size) := by
  refine .bind (keeps_readLoop rounds f size) fun r hr => ?_
  obtain ⟨⟨data, err⟩, f'⟩ := r
  dsimp only
  split
  · exact .pure hr
  · split <;> exact .pure hr

/-- `Close` never fails to return, puts back what the file holds and leaves it with nothing. -/
theorem close_run (s : State S) :
    ∃ err f' t, f.close s = .ok (err, f') t ∧ f'.held = [] ∧ t.gets = s.gets ∧
      t.puts = f.held ++ s.puts := by
  unfold File.close
  cases hfile : f.file with
  | none => exact ⟨none, f, s, rfl, by rw [held, hfile], rfl, by rw [held, hfile]; rfl⟩
  | some file =>
    rw [held_of_open hfile]
    cases f.conn with
    | none => exact ⟨_, _, _, rfl, rfl, rfl, rfl⟩
    | some conn => exact ⟨_, _, _, rfl, rfl, rfl, rfl⟩

theorem accounts_close : Accounts fsys f.held f.close fun _ => [] := by
  intro s
  obtain ⟨err, f', t, hclose, -, hgets, hputs⟩ := close_run f s
  rw [hclose]
  have htaken : fsys.ledger.taken t = fsys.ledger.taken s := taken_congr hgets
  have hcount : ∀ i, t.puts.count i = f.held.count i + s.puts.count i := by
    intro i
    rw [hputs, List.count_append]
  constructor
  · intro i
    rw [htaken]
  · intro i
    show s.puts.count i ≤ t.puts.count i
    rw [hcount]
    exact Nat.le_add_left _ _
  · intro i
    show t.puts.count i + _ + _ = s.puts.count i + _ + _
    rw [htaken, hcount, List.count_nil]
    omega

end File

end Smbfs.Client
