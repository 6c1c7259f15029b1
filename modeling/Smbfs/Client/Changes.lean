import Smbfs.Client.Simulation

/-!
The functions that change the share, for a client with cache beside one
without. Each of them ends with the cache fresh again, under a condition for
`Rename`, for `Truncate` and for an `OpenFile` that truncates without creating.
-/

namespace Smbfs.Client

open Smbfs.Lib CM

variable {S : Share} {fsys : FileSystem} {κ : MetadataCache} {d : S.Disk}
  {E : State S → State S → Prop}

/-- The two are in step if they are for every cache and content. -/
theorem rel_of_synced {α β : Type} {m : CM S α} {n : CM S β} {pn : PathNormalizer}
    {Q : α → β → State S → State S → Prop}
    (h : ∀ κ d, κ.enabled = true → Fresh pn ∅ ∅ κ d → Relate (Sim κ d) m n Q E) :
    Relate (Synced pn) m n Q E := by
  rintro s t ⟨κ, d, ⟨hon, hf⟩, hsim⟩
  exact h κ d hon hf s t hsim

theorem rel_stat_same (hS : TreeLike S) (hu : fsys.Unfailing) (name : Str) :
    Relate (Synced fsys.pathNorm) (fsys.stat name : CM S FileInfo) (fsys.stat name)
      (fun a b s t => SameInfo a b ∧ Synced fsys.pathNorm s t) (Synced fsys.pathNorm) := by
  refine rel_of_synced fun κ d hon hf => (rel_stat hS hu hon hf name).post ?_
  rintro a b s t ⟨⟨_, _, _, hab⟩, h⟩
  exact ⟨hab, h⟩

theorem rel_readDir_same (hS : TreeLike S) (hu : fsys.Unfailing) (name : Str) :
    Relate (Synced fsys.pathNorm) (fsys.readDir name : CM S (List FileInfo)) (fsys.readDir name)
      (fun a b s t => SameInfos a b ∧ Synced fsys.pathNorm s t) (Synced fsys.pathNorm) :=
  rel_of_synced fun _ _ hon hf => rel_readDir hS hu hon hf name

/-- Nothing strictly below a path has an entry. -/
def NothingBelow (κ : MetadataCache) (l : Loc) : Prop :=
  ∀ q : Loc, l.Covers q → q ≠ l →
    κ.statCache.lookup q.slash = none ∧ κ.dirCache.lookup q.slash = none

/-- Neither a path nor the listing of its parent has an entry. -/
def NothingAt (κ : MetadataCache) (l : Loc) : Prop :=
  κ.statCache.lookup l.slash = none ∧ κ.dirCache.lookup l.slash = none ∧
    κ.dirCache.lookup l.parent.slash = none

/-! ## One call and one invalidation -/

/-- A call that may change the file at `l`. -/
theorem rel_change (hS : TreeLike S) (c : ShareCall S.File) (l : Loc)
    (hc : c.changes S.nameOf = some l.smb) :
    Relate (Sim κ d) (call c) (call c) (fun r r' s t => r' = r ∧
      ((c.failed r = true ∧ Sim κ d s t) ∨
        c.failed r = false ∧ ∃ d', S.Agree {l} {l, l.parent} d d' ∧ Sim κ d' s t)) E := by
  refine rel_call_last fun s t h => ⟨rfl, ?_⟩
  cases hfail : c.failed (S.exec c d).1 with
  | true => exact .inl ⟨rfl, hS.failed c d hfail ▸ h⟩
  | false => exact .inr ⟨rfl, _, hS.changes c d l hc, h⟩

theorem rel_withConn (hu : fsys.Unfailing) (op : Op) (name : Str) {body : CM S Unit}
    (h : Relate (Sim κ d) body body (fun _ _ => Synced fsys.pathNorm) (Synced fsys.pathNorm)) :
    Relate (Sim κ d) (fsys.withConn op name body) (fsys.withConn op name body)
      (fun _ _ => Synced fsys.pathNorm) (Synced fsys.pathNorm) := by
  refine rel_attempt (rel_get (E := fun _ _ => False) hu (Sim.stable κ d)) ?_ (fun _ _ _ h => h.elim)
    fun _ _ h => h.elim
  exact rel_deferPut h (fun _ _ => Synced.stable _) (Synced.stable _)

theorem rel_changePath (hu : fsys.Unfailing) (op : Op) (name : Str)
    (change : Str → CM S (Option Err))
    (hchange : ∀ (l : Loc) κ d, Relate (Sim κ d) (change l.smb) (change l.smb) (fun r r' s t =>
      r' = r ∧ ((r.isSome = true ∧ Sim κ d s t) ∨
        r.isSome = false ∧ ∃ d', S.Agree {l} {l, l.parent} d d' ∧ Sim κ d' s t))
      (Synced fsys.pathNorm)) : InStep fsys (fsys.changePath op name change) := by
  refine rel_of_synced fun κ d hon hf => ?_
  have hsync := synced_of_fresh hon hf
  refine rel_checkPath hsync fun _ l _ => rel_withConn hu op _ ?_
  rw [l.toSMBPath_slash]
  refine Relate.bind (hchange l κ d) fun r r' s t h => ?_
  obtain ⟨rfl, ⟨hr, h⟩ | ⟨hr, d', hagree, h⟩⟩ := h
  · cases r' with
    | none => cases hr
    | some err => exact rel_fail hsync s t h
  · cases r' with
    | some err => cases hr
    | none =>
      refine (rel_invalidate l.slash).post (fun _ _ s t h => ?_) s t h
      exact ⟨_, d', ⟨by simpa using hon, hf.changed hon hagree⟩, h⟩

section

variable (hS : TreeLike S) (hu : fsys.Unfailing)

include hS hu

theorem rel_mkdir (name : Str) (perm : FileMode) : InStep fsys (fsys.mkdir name perm : CM S Unit) :=
  rel_changePath hu _ _ _ fun l _ _ => rel_change hS (.mkdir l.smb perm) l rfl

theorem rel_remove (name : Str) : InStep fsys (fsys.remove name : CM S Unit) :=
  rel_changePath hu _ _ _ fun l _ _ => rel_change hS (.remove l.smb) l rfl

theorem rel_chmod (name : Str) (mode : FileMode) : InStep fsys (fsys.chmod name mode : CM S Unit) :=
  rel_changePath hu _ _ _ fun l _ _ => rel_change hS (.chmod l.smb mode) l rfl

theorem rel_chtimes (name : Str) (atime mtime : GoTime) :
    InStep fsys (fsys.chtimes name atime mtime : CM S Unit) :=
  rel_changePath hu _ _ _ fun l _ _ => rel_change hS (.chtimes l.smb atime mtime) l rfl

/-! ## Functions that call themselves -/

/-- `MkdirAll`, by induction on the depth of the calls. -/
theorem rel_mkdirAllFrom (depth : Nat) (name : Str) (perm : FileMode) :
    InStep fsys (fsys.mkdirAllFrom depth name perm : CM S Unit) := by
  induction depth generalizing name with
  | zero => exact rel_crash fun _ _ h => h
  | succ depth ih =>
    refine rel_checkPath (fun _ _ h => h) fun _ l _ => ?_
    refine rel_attempt (rel_stat_same hS hu l.slash) ?_ ?_ fun _ _ h => h
    · refine fun a b => Relate.of_fact fun hab => ?_
      dsimp only
      rw [hab.isDir]
      split
      · exact rel_fail fun _ _ h => h
      · exact Relate.pure fun _ _ h => h
    · intro err
      dsimp only
      split
      · exact Relate.bind (ih _) fun _ _ => rel_mkdir hS hu l.slash perm
      · exact rel_mkdir hS hu l.slash perm

/-- `RemoveAll`, by induction on the depth of the calls. The two listings have
the same names in the same order. -/
theorem rel_removeAllFrom (depth : Nat) (name : Str) :
    InStep fsys (fsys.removeAllFrom depth name : CM S Unit) := by
  induction depth generalizing name with
  | zero => exact rel_crash fun _ _ h => h
  | succ depth ih =>
    refine rel_checkPath (fun _ _ h => h) fun _ l _ => ?_
    refine rel_attempt (rel_stat_same hS hu l.slash) ?_ ?_ fun _ _ h => h
    · refine fun a b => Relate.of_fact fun hab => ?_
      dsimp only
      rw [hab.isDir]
      split
      · exact rel_remove hS hu l.slash
      · refine Relate.bind (rel_readDir_same hS hu l.slash)
          fun as bs => Relate.of_fact fun hsame => ?_
        refine Relate.bind (Relate.forM (fun a b hab => ?_) hsame) fun _ _ => rel_remove hS hu l.slash
        rw [hab.name]
        exact ih _
    · intro err
      dsimp only
      split
      · exact Relate.pure fun _ _ h => h
      · exact rel_fail fun _ _ h => h

/-! ## `Rename` -/

theorem rel_rename (hon : κ.enabled = true) (hf : Fresh fsys.pathNorm ∅ ∅ κ d)
    (oldname newname : Str)
    (hbelow : ∀ l l' : Loc, fsys.pathNorm.normalize oldname = l.slash →
      fsys.pathNorm.normalize newname = l'.slash →
      (S.exec (.rename l.smb l'.smb) d).1 = none → NothingBelow κ l) :
    Relate (Sim κ d) (fsys.rename oldname newname : CM S Unit) (fsys.rename oldname newname)
      (fun _ _ => Synced fsys.pathNorm) (Synced fsys.pathNorm) := by
  have hsync := synced_of_fresh hon hf
  refine rel_checkPath hsync fun _ l hl => rel_checkPath hsync fun _ l' hl' => ?_
  rw [hl, hl']
  refine rel_withConn hu _ _ ?_
  rw [l.toSMBPath_slash, l'.toSMBPath_slash]
  refine rel_call ?_
  cases hr : (S.exec (.rename l.smb l'.smb) d).1 with
  | some err =>
    rw [hS.failed (.rename l.smb l'.smb) d (by rw [hr]; rfl)]
    exact rel_fail hsync
  | none =>
    refine Relate.bind (rel_invalidate l.slash) fun _ _ => ?_
    refine (rel_invalidate l'.slash).post fun _ _ s t h => ?_
    exact ⟨_, _, ⟨by simpa using hon, hf.renamed hS hon hr (hbelow l l' hl hl' hr)⟩, h⟩

/-! ## `OpenFile` -/

/-- One file of the share, opened by both clients. -/
def BothOpened (f f' : File S) (file : S.File) (path : Str) : Prop :=
  ∃ conn conn', f = File.opened conn file path ∧ f' = File.opened conn' file path

theorem rel_openOnce (l : Loc) (flag : UInt32) (perm : FileMode) :
    Relate (Sim κ d) (fsys.openOnce l.slash flag perm : CM S (File S))
      (fsys.openOnce l.slash flag perm)
      (fun f f' s t => (∃ file, (S.exec (.openFile l.smb flag perm) d).1 = .ok file ∧
        BothOpened f f' file l.slash) ∧ Sim κ (S.exec (.openFile l.smb flag perm) d).2 s t)
      (Sim κ d) := by
  refine Relate.bind (rel_get hu (Sim.stable κ d)) fun conn conn' => ?_
  rw [l.toSMBPath_slash]
  refine rel_call ?_
  cases hr : (S.exec (.openFile l.smb flag perm) d).1 with
  | error err =>
    rw [hS.failed (.openFile l.smb flag perm) d (by rw [hr]; rfl)]
    exact Relate.bind (rel_putConn (Sim.stable κ d) conn conn') fun _ _ => rel_fail fun _ _ h => h
  | ok file => exact Relate.pure fun s t h => ⟨⟨file, rfl, conn, conn', rfl, rfl⟩, h⟩

/-- `OpenFile`: the entries of the path are invalidated if it may create the file. -/
theorem rel_openFile (name : Str) (flag : UInt32) (perm : FileMode) :
    Relate (Sim κ d) (fsys.openFile name flag perm : CM S (File S)) (fsys.openFile name flag perm)
      (fun f f' s t => ∃ (l : Loc) (file : S.File), fsys.pathNorm.normalize name = l.slash ∧
        (S.exec (.openFile l.smb flag perm) d).1 = .ok file ∧ BothOpened f f' file l.slash ∧
        Sim (if hasBits flag oCREATE then κ.invalidate l.slash else κ)
          (S.exec (.openFile l.smb flag perm) d).2 s t) (Sim κ d) := by
  refine rel_checkPath (fun _ _ h => h) fun _ l hl => ?_
  refine rel_attempt (rel_withRetry hu (Sim.stable κ d) (rel_openOnce hS hu l flag perm)) ?_ ?_
    fun _ _ h => h
  · intro f f'
    refine Relate.of_fact ?_
    rintro ⟨file, hr, hopened⟩
    dsimp only
    cases hasBits flag oCREATE with
    | true =>
      refine Relate.bind (rel_invalidate l.slash) fun _ _ => Relate.pure fun s t h => ?_
      exact ⟨l, file, hl, hr, hopened, h⟩
    | false => exact Relate.pure fun s t h => ⟨l, file, hl, hr, hopened, h⟩
  · exact fun err => rel_fail fun _ _ h => h

end

/-! ## Writing through a file -/

section Writing

variable (hS : TreeLike S)

include hS

variable {l : Loc}

/-- A write on a file opened at `l`. -/
theorem rel_write {α β : Type} {file : S.File} (hname : S.nameOf file = l.smb) (data : Bytes)
    {f : (Nat × Option Err) × S.File → CM S α} {g : (Nat × Option Err) × S.File → CM S β}
    {Q : α → β → State S → State S → Prop}
    (h : ∀ r d', (S.exec (.write file data) d).1 = r → S.Agree {l} {l, l.parent} d d' →
      (r.1.2 ≠ none → d' = d) → S.nameOf r.2 = l.smb → (S.exec (.write file data) d).2 = d' →
      Relate (Sim κ d') (f r) (g r) Q E) :
    Relate (Sim κ d) (call (.write file data) >>= f) (call (.write file data) >>= g) Q E := by
  refine rel_call (h _ _ rfl ?_ ?_ ?_ rfl)
  · exact hS.changes (.write file data) d l (congrArg some hname)
  · intro hr
    refine hS.failed (.write file data) d ?_
    simpa [ShareCall.failed, Option.isSome_iff_ne_none] using hr
  · exact (hS.write_name file data d).trans hname

theorem rel_writeZeros (path : Str) (fuel : Nat) (file : S.File)
    (hname : S.nameOf file = l.smb) (remaining : Nat) :
    Relate (Sim κ d) (File.writeZeros path fuel file remaining)
      (File.writeZeros path fuel file remaining)
      (fun r r' s t => (r' = r ∧ (S.takesZeros fuel file remaining d = true → r.1 = none)) ∧
        S.nameOf r.2 = l.smb ∧ ∃ d', S.Agree {l} {l, l.parent} d d' ∧ Sim κ d' s t) E := by
  induction fuel generalizing file remaining d with
  | zero => exact Relate.pure fun s t h => ⟨⟨rfl, fun _ => rfl⟩, hname, d, .same S _ _ d, h⟩
  | succ fuel ih =>
    unfold File.writeZeros Share.takesZeros
    by_cases hzero : remaining = 0
    · simp only [hzero, if_true]
      exact Relate.pure fun s t h => ⟨⟨rfl, fun _ => rfl⟩, hname, d, .same S _ _ d, h⟩
    · simp only [hzero, if_false]
      refine rel_write hS hname _ fun r d' hr hagree _ hname' hd' => ?_
      obtain ⟨⟨n, err⟩, file'⟩ := r
      rw [hr, hd']
      cases err with
      | some err =>
        refine Relate.pure fun s t h => ⟨⟨rfl, ?_⟩, hname', d', hagree, h⟩
        intro htakes
        simp at htakes
      | none =>
        refine (ih file' hname' _).post ?_
        rintro r r' s t ⟨⟨rfl, htakes⟩, hname'', d'', hagree', h⟩
        refine ⟨⟨rfl, fun h => htakes ?_⟩, hname'', d'', hagree.trans hagree', h⟩
        simpa using h

/-- `Truncate` on an open file: an error leaves the file as it was, unless it
comes from the writes that extend it. -/
theorem rel_truncateFile (path : Str) (file : S.File) (hname : S.nameOf file = l.smb)
    (size : Int64) :
    Relate (Sim κ d) (File.truncateFile path file size) (File.truncateFile path file size)
      (fun r r' s t => r' = r ∧ S.nameOf r.2 = l.smb ∧ ∃ d', S.Agree {l} {l, l.parent} d d' ∧
        (S.extendsFile d file size = true → r.1 ≠ none → d' = d) ∧ Sim κ d' s t) E := by
  have hsame : ∀ (r : Option Err × S.File), S.nameOf r.2 = l.smb →
      Relate (Sim κ d) (pure r : CM S _) (pure r : CM S _) (fun r r' s t =>
        r' = r ∧ S.nameOf r.2 = l.smb ∧ ∃ d', S.Agree {l} {l, l.parent} d d' ∧
          (S.extendsFile d file size = true → r.1 ≠ none → d' = d) ∧ Sim κ d' s t) E :=
    fun r hr => Relate.pure fun s t h => ⟨rfl, hr, d, .same S _ _ d, fun _ _ => rfl, h⟩
  refine rel_read hS rfl ?_
  cases hstat : (S.exec (.fileStat file) d).1 with
  | error err => exact hsame _ hname
  | ok info =>
    dsimp only
    split
    · exact hsame _ hname
    · next hne =>
      split
      · -- shrinking: one write of no bytes
        refine rel_read hS rfl ?_
        have hseek := (hS.seek_name file size .start d).trans hname
        cases hr : (S.exec (.seek file size .start) d).1 with
        | mk r file' =>
          rw [hr] at hseek
          cases r with
          | error err => exact hsame _ hseek
          | ok pos =>
            refine rel_write hS hseek _ fun r d' _ hagree hfail hname' _ => ?_
            obtain ⟨⟨n, err⟩, file''⟩ := r
            refine Relate.pure fun s t h => ⟨rfl, hname', d', hagree, fun _ herr => hfail ?_, h⟩
            intro hnone
            exact herr (by rw [hnone]; rfl)
      · next hle =>
        -- extending: zeros in pieces
        refine rel_read hS rfl ?_
        have hseek := (hS.seek_name file 0 .fromEnd d).trans hname
        cases hr : (S.exec (.seek file 0 .fromEnd) d).1 with
        | mk r file' =>
          rw [hr] at hseek
          cases r with
          | error err => exact hsame _ hseek
          | ok pos =>
            refine (rel_writeZeros hS path _ file' hseek _).post ?_
            rintro r r' s t ⟨⟨rfl, htakes⟩, hname', d', hagree, h⟩
            refine ⟨rfl, hname', d', hagree, fun hext herr => absurd (htakes ?_) herr, h⟩
            have hlt : info.size < size := by
              have hne : size.toInt ≠ info.size.toInt := fun h => hne (Int64.toInt_inj.mp h)
              rw [Int64.lt_iff_toInt_lt] at hle ⊢
              omega
            simpa [Share.extendsFile, hstat, hlt, hr] using hext

/-! ### Methods of a file -/

/-- A file that was opened at `l`. -/
def File.At (f : File S) (l : Loc) : Prop :=
  f.path = l.slash ∧ ∀ file, f.file = some file → S.nameOf file = l.smb

/-- A method of a file opened at `l`: it returns, and it changes at most what is at `l`. -/
def MethodAt {α : Type} (l : Loc) (m : CM S (α × File S)) : Prop :=
  ∀ κ d, Relate (Sim κ d) m m (fun r _ s t => r.2.At l ∧
    ∃ d', S.Agree {l} {l, l.parent} d d' ∧ Sim κ d' s t) fun _ _ => False

omit hS in
theorem MethodAt.of_closed {α : Type} {f : File S} (hf : f.At l) (a : α) :
    MethodAt l (pure (a, f)) :=
  fun _ d => Relate.pure fun _ _ h => ⟨hf, d, .same S _ _ d, h⟩

omit hS in
/-- The file after a method has the path it had before. -/
theorem File.At.update {f f' : File S} {file : S.File} (hf : f.At l)
    (hpath : f'.path = f.path) (hfile : f'.file = some file) (hname : S.nameOf file = l.smb) :
    f'.At l := by
  refine ⟨hpath.trans hf.1, fun g hg => ?_⟩
  cases hfile.symm.trans hg
  exact hname

theorem write_methodAt {f : File S} (hf : f.At l) (data : Bytes) : MethodAt l (f.write data) := by
  unfold File.write
  cases hfile : f.file with
  | none => exact .of_closed hf _
  | some file =>
    intro κ d
    refine rel_write hS (hf.2 file hfile) data fun r d' _ hagree _ hname _ => ?_
    obtain ⟨⟨n, err⟩, file'⟩ := r
    cases err <;> exact Relate.pure fun s t h => ⟨hf.update rfl rfl hname, d', hagree, h⟩

theorem writeAt_methodAt {f : File S} (hf : f.At l) (data : Bytes) (off : Int64) :
    MethodAt l (f.writeAt data off) := by
  unfold File.writeAt
  cases hfile : f.file with
  | none => exact .of_closed hf _
  | some file =>
    intro κ d
    refine rel_read hS rfl ?_
    have hseek := (hS.seek_name file off .start d).trans (hf.2 file hfile)
    cases hr : (S.exec (.seek file off .start) d).1 with
    | mk r moved =>
      rw [hr] at hseek
      cases r with
      | error err => exact Relate.pure fun s t h => ⟨hf.update rfl rfl hseek, d, .same S _ _ d, h⟩
      | ok pos =>
        refine rel_write hS hseek data fun r d' _ hagree _ hname _ => ?_
        obtain ⟨⟨n, err⟩, written⟩ := r
        refine rel_read hS rfl ?_
        have hback := (hS.seek_name written f.offset .start d').trans hname
        cases hr : (S.exec (.seek written f.offset .start) d').1 with
        | mk back file' =>
          rw [hr] at hback
          cases err <;> cases back <;>
            exact Relate.pure fun s t h => ⟨hf.update rfl rfl hback, d', hagree, h⟩

theorem truncate_methodAt {f : File S} (hf : f.At l) (size : Int64) :
    MethodAt l (f.truncate size) := by
  unfold File.truncate
  cases hfile : f.file with
  | none => exact .of_closed hf _
  | some file =>
    intro κ d
    refine Relate.bind (rel_truncateFile hS f.path file (hf.2 file hfile) size) fun r r' => ?_
    refine Relate.pure ?_
    rintro s t ⟨rfl, hname, d', hagree, _, h⟩
    exact ⟨hf.update rfl rfl hname, d', hagree, h⟩

theorem close_methodAt {f : File S} (hf : f.At l) : MethodAt l f.close := by
  unfold File.close
  cases hfile : f.file with
  | none => exact .of_closed hf _
  | some file =>
    intro κ d
    refine rel_read hS rfl ?_
    cases f.conn with
    | none => exact Relate.pure fun s t h => ⟨⟨hf.1, nofun⟩, d, .same S _ _ d, h⟩
    | some conn =>
      refine Relate.bind (rel_putConn (Sim.stable κ d) conn conn) fun _ _ => ?_
      exact Relate.pure fun s t h => ⟨⟨hf.1, nofun⟩, d, .same S _ _ d, h⟩

end Writing

/-! ## `Truncate` -/

/-- **`Truncate`.** If the share may refuse a part of the zeros that extend the
file, nothing about the file may be in the cache. -/
theorem rel_truncate (hS : TreeLike S) (hu : fsys.Unfailing) (hon : κ.enabled = true)
    (hf : Fresh fsys.pathNorm ∅ ∅ κ d) (name : Str) (size : Int64)
    (hsafe : ∀ l : Loc, fsys.pathNorm.normalize name = l.slash →
      S.extendsTo d l.smb size = true ∨ NothingAt κ l) :
    Relate (Sim κ d) (fsys.truncate name size : CM S Unit) (fsys.truncate name size)
      (fun _ _ => Synced fsys.pathNorm) (Synced fsys.pathNorm) := by
  have hsync := synced_of_fresh hon hf
  refine rel_checkPath hsync fun hv l hl => ?_
  have hcanon : fsys.pathNorm.normalize l.slash = l.slash := by
    rw [← hl]
    exact (normalize_normalize fsys.pathNorm hv).2
  refine Relate.bind ((rel_openFile hS hu l.slash oWRONLY 0).exits hsync) fun f f' s t hopen => ?_
  obtain ⟨l', file, hl', hfile, ⟨conn, conn', rfl, rfl⟩, h⟩ := hopen
  cases Loc.slash_injective (hcanon.symm.trans hl')
  rw [hS.reads (.openFile l.smb oWRONLY 0) d rfl] at h
  have hext : S.extendsTo d l.smb size = S.extendsFile d file size := by
    simp only [Share.extendsTo, hfile]
  refine Relate.bind (P := Sim κ d) (Q := fun r r' s t => r'.1 = r.1 ∧
      ∃ d', S.Agree {l} {l, l.parent} d d' ∧
        (S.extendsFile d file size = true → r.1 ≠ none → d' = d) ∧ Sim κ d' s t) ?_ ?_ s t h
  · refine Relate.bind (rel_truncateFile hS l.slash file (hS.opened _ _ _ _ _ hfile) size)
      fun r r' s t hrr => ?_
    obtain ⟨rfl, _, hd⟩ := hrr
    exact ⟨rfl, hd⟩
  · rintro ⟨err, f⟩ ⟨err', f'⟩ s t ⟨herr, d', hagree, hkeep, h⟩
    cases herr
    cases err with
    | some err =>
      have hf' : Fresh fsys.pathNorm ∅ ∅ κ d' := by
        rcases hsafe l hl with hgood | ⟨hstat, hdir, hpar⟩
        · exact hkeep (hext ▸ hgood) (by simp) ▸ hf
        · refine (hf.agree hagree).restrict ?_ ?_
          · rintro q (hq | rfl) _
            · cases hq
            · exact hstat
          · rintro q (hq | rfl | rfl) _
            · cases hq
            · exact hdir
            · exact hpar
      have hsync' := synced_of_fresh hon hf'
      exact Relate.bind (rel_close hS hsync' f f') (fun _ _ => rel_fail hsync') s t h
    | none =>
      have hsync' := synced_of_fresh (by simpa using hon) (hf.changed hon hagree)
      refine Relate.bind (rel_invalidate l.slash) (fun _ _ => ?_) s t h
      exact Relate.bind (rel_close hS hsync' f f') fun _ _ => Relate.pure hsync'

end Smbfs.Client
