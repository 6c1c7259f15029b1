import Smbfs.Client.Reading

/-!
Programs of the client that change the share, without a cache. `Acts d m R`
says that with content `d` and the cache disabled the program `m` ends without
a crash, with a result and a content in `R`, and leaves the cache disabled.

* `Acts.of_reads`: a program that only reads;
* `stat_acts`, `readDir_acts`: `Stat` and `ReadDir` answer what the share has;
* `changePath_acts`: `Mkdir`, `Remove` and the functions like them make their one
  call.
-/

namespace Smbfs.Client

open Smbfs.Lib CM

variable {S : Share} {α β : Type} {fsys : FileSystem}

def Acts (d : S.Disk) (m : CM S α) (R : Except Err α → S.Disk → Prop) : Prop :=
  ∀ v : State S, v.disk = d → v.cache.enabled = false →
    ∃ r v', attempt m v = .ok r v' ∧ R r v'.disk ∧ v'.cache.enabled = false

namespace Acts

variable {d : S.Disk} {m : CM S α} {f : α → CM S β} {R R' : Except Err α → S.Disk → Prop}

theorem mono (h : Acts d m R) (hR : ∀ r d', R r d' → R' r d') : Acts d m R' := by
  intro v hv hoff
  obtain ⟨r, v', hrun, hr, hoff'⟩ := h v hv hoff
  exact ⟨r, v', hrun, hR r _ hr, hoff'⟩

theorem of_reads {P : Except Err α → Prop} (h : Reads d m P) :
    Acts d m fun r d' => P r ∧ d' = d := by
  intro v hv hoff
  obtain ⟨r, v', hrun, hr, hd, hc⟩ := h v hv
  exact ⟨r, v', hrun, ⟨hr, hd⟩, hc ▸ hoff⟩

theorem pure {a : α} (h : R (.ok a) d) : Acts d (Pure.pure a : CM S α) R := by
  rintro v rfl hoff
  exact ⟨.ok a, v, rfl, h, hoff⟩

theorem fail {err : Err} (h : R (.error err) d) : Acts d (fail err : CM S α) R := by
  rintro v rfl hoff
  exact ⟨.error err, v, rfl, h, hoff⟩

variable {Q : Except Err β → S.Disk → Prop}

theorem bind (h : Acts d m R) (hok : ∀ a d', R (.ok a) d' → Acts d' (f a) Q)
    (herr : ∀ err d', R (.error err) d' → Q (.error err) d') : Acts d (m >>= f) Q := by
  intro v hv hoff
  obtain ⟨r, v', hrun, hr, hoff'⟩ := h v hv hoff
  rw [attempt_bind, hrun]
  cases r with
  | error err => exact ⟨.error err, v', rfl, herr err _ hr, hoff'⟩
  | ok a => exact hok a _ hr v' rfl hoff'

/-- Sequence after a program that returns. -/
theorem bind_ok {P : α → S.Disk → Prop}
    (h : Acts d m fun r d' => ∃ a, r = .ok a ∧ P a d') (hok : ∀ a d', P a d' → Acts d' (f a) Q) :
    Acts d (m >>= f) Q := by
  refine bind h ?_ ?_
  · rintro a d' ⟨_, ⟨⟩, ha⟩
    exact hok a d' ha
  · rintro err d' ⟨_, ⟨⟩, _⟩

/-- The error of a program that is tried becomes its result. -/
theorem attempt (h : Acts d m R) : Acts d (attempt m) fun r d' => ∃ x, r = .ok x ∧ R x d' := by
  intro v hv hoff
  obtain ⟨r, v', hrun, hr, hoff'⟩ := h v hv hoff
  refine ⟨.ok r, v', ?_, ⟨r, rfl, hr⟩, hoff'⟩
  rw [CM.attempt, hrun]

theorem ofExcept {r : Except Err α} (h : R r d) : Acts d (ofExcept r : CM S α) R := by
  cases r with
  | ok a => exact pure h
  | error err => exact fail h

theorem call (c : ShareCall S.File) :
    Acts d (call c) fun r d' => ∃ a, r = .ok a ∧ a = (S.exec c d).1 ∧ d' = (S.exec c d).2 := by
  rintro v rfl hoff
  exact ⟨_, _, rfl, ⟨_, rfl, rfl, rfl⟩, hoff⟩

theorem putConn (conn : Nat) : Acts d (putConn conn) fun r d' => ∃ u, r = .ok u ∧ d' = d :=
  (of_reads (Reads.putConn conn)).mono fun _ _ ⟨⟨u, hu, _⟩, hd⟩ => ⟨u, hu, hd⟩

theorem deferPut (h : Acts d m R) (conn : Nat) : Acts d (deferPut conn m) R := by
  refine bind_ok h.attempt fun r d' hr => bind_ok (putConn conn) ?_
  rintro _ d' rfl
  exact ofExcept hr

/-- A change of the cache that leaves it disabled. -/
theorem onCache {g : MetadataCache → MetadataCache} (hg : ∀ c, (g c).enabled = c.enabled) :
    Acts d (onCache g) fun r d' => ∃ u, r = .ok u ∧ d' = d := by
  rintro v rfl hoff
  exact ⟨.ok (), _, rfl, ⟨(), rfl, rfl⟩, (hg v.cache).trans hoff⟩

theorem now : Acts d (fsys.now : CM S GoTime) fun r d' => ∃ t, r = .ok t ∧ d' = d := by
  rintro v rfl hoff
  exact ⟨.ok (fsys.clock v.ticks), { v with ticks := v.ticks + 1 }, rfl, ⟨_, rfl, rfl⟩, hoff⟩

end Acts

/-! ## The cache -/

variable {d : S.Disk} (path : Str)

theorem getStatInfo_acts :
    Acts d (fsys.getStatInfo path) fun r d' => ∃ x, r = .ok x ∧ x = none ∧ d' = d := by
  refine Acts.bind_ok Acts.now ?_
  rintro t d' rfl v rfl hoff
  exact ⟨_, v, rfl, ⟨_, rfl, MetadataCache.getStatInfo_disabled hoff t, rfl⟩, hoff⟩

theorem getDirEntries_acts :
    Acts d (fsys.getDirEntries path) fun r d' => ∃ x, r = .ok x ∧ x = none ∧ d' = d := by
  refine Acts.bind_ok Acts.now ?_
  rintro t d' rfl v rfl hoff
  exact ⟨_, v, rfl, ⟨_, rfl, MetadataCache.getDirEntries_disabled hoff t, rfl⟩, hoff⟩

theorem putStatInfo_acts (info : FileInfo) :
    Acts d (fsys.putStatInfo path info) fun r d' => ∃ u, r = .ok u ∧ d' = d := by
  refine Acts.bind_ok Acts.now ?_
  rintro t d' rfl
  exact Acts.onCache fun c => MetadataCache.putStatInfo_enabled info t

theorem putDirEntries_acts (entries : List FileInfo) :
    Acts d (fsys.putDirEntries path entries) fun r d' => ∃ u, r = .ok u ∧ d' = d := by
  refine Acts.bind_ok Acts.now ?_
  rintro t d' rfl
  exact Acts.onCache fun c => MetadataCache.putDirEntries_enabled entries t

/-! ## The functions of the file system -/

/-- The path functions take the path of the location as it is. -/
def FileSystem.Takes (fsys : FileSystem) (l : Loc) : Prop :=
  validatePath l.slash = none ∧ fsys.pathNorm.normalize l.slash = l.slash

variable {l : Loc}

theorem checkPath_acts {name : Str} (hv : validatePath name = none) (op : Op) :
    Acts d (fsys.checkPath op name : CM S Str) fun r d' =>
      ∃ n, r = .ok n ∧ n = fsys.pathNorm.normalize name ∧ d' = d := by
  refine (Acts.of_reads (Reads.checkPath hv)).mono ?_
  rintro r d' ⟨⟨n, rfl, rfl⟩, hd⟩
  exact ⟨_, rfl, rfl, hd⟩

theorem close_acts (hS : S.Steady) (f : File S) :
    Acts d f.close fun r d' => ∃ x, r = .ok x ∧ d' = d := by
  refine (Acts.of_reads (close_reads hS d f)).mono ?_
  rintro r d' ⟨⟨x, hx, -⟩, hd⟩
  exact ⟨x, hx, hd⟩

section

variable (hu : fsys.Unfailing) (hl : fsys.Takes l)

include hu hl

/-- `Stat` answers what the share has. -/
theorem stat_acts (hS : S.Steady) :
    Acts d (fsys.stat l.slash) fun r d' => r = statAnswer fsys d l ∧ d' = d := by
  refine Acts.bind_ok (checkPath_acts hl.1 _) ?_
  rintro _ d' ⟨rfl, rfl⟩
  rw [hl.2]
  refine Acts.bind_ok (getStatInfo_acts l.slash) ?_
  rintro _ d' ⟨rfl, rfl⟩
  refine Acts.bind (Acts.of_reads (askStat_reads hS hu d' l)) ?_ fun err d' h => h
  rintro info d' ⟨hinfo, rfl⟩
  refine Acts.bind_ok (putStatInfo_acts l.slash info) ?_
  rintro _ d' rfl
  exact Acts.pure ⟨hinfo, rfl⟩

/-- `ReadDir` answers what the share lists, or `io.EOF` if that is nothing. -/
theorem readDir_acts (hS : S.Steady) :
    Acts d (fsys.readDir l.slash) fun r d' => r = dirAnswer d l ∧ d' = d := by
  refine Acts.bind_ok (checkPath_acts hl.1 _) ?_
  rintro _ d' ⟨rfl, rfl⟩
  rw [hl.2]
  refine Acts.bind_ok (getDirEntries_acts l.slash) ?_
  rintro _ d' ⟨rfl, rfl⟩
  refine Acts.bind (Acts.of_reads (askDir_reads hS hu d' hl)) ?_ fun err d' h => h
  rintro ⟨entries, f⟩ d' ⟨hentries, rfl⟩
  refine Acts.bind_ok (putDirEntries_acts l.slash entries) ?_
  rintro _ d' rfl
  refine Acts.bind_ok (close_acts hS f) ?_
  rintro _ d' rfl
  exact Acts.pure ⟨hentries, rfl⟩

/-- A function that makes one change on the share, which succeeds. -/
theorem changePath_acts (op : Op) {change : Str → CM S (Option Err)} {P : S.Disk → Prop}
    (hc : Acts d (change l.smb) fun r d' => ∃ x, r = .ok x ∧ x = none ∧ P d') :
    Acts d (fsys.changePath op l.slash change) fun r d' => r = .ok () ∧ P d' := by
  refine Acts.bind_ok (checkPath_acts hl.1 _) ?_
  rintro _ d' ⟨rfl, rfl⟩
  rw [hl.2, l.toSMBPath_slash]
  refine Acts.bind_ok (Acts.of_reads (Reads.get hu)).attempt ?_
  rintro r d' ⟨⟨conn, rfl, _⟩, rfl⟩
  refine Acts.deferPut (Acts.bind_ok hc ?_) conn
  rintro _ d' ⟨rfl, hd⟩
  refine (Acts.onCache fun c => MetadataCache.invalidate_enabled).mono ?_
  rintro r e ⟨_, rfl, rfl⟩
  exact ⟨rfl, hd⟩

theorem mkdir_acts (perm : FileMode) (hok : (S.exec (.mkdir l.smb perm) d).1 = none) :
    Acts d (fsys.mkdir l.slash perm) fun r d' =>
      r = .ok () ∧ d' = (S.exec (.mkdir l.smb perm) d).2 :=
  changePath_acts hu hl _ ((Acts.call _).mono fun _ _ ⟨x, hx, hn, hd⟩ => ⟨x, hx, hn.trans hok, hd⟩)

theorem remove_acts (hok : (S.exec (.remove l.smb) d).1 = none) :
    Acts d (fsys.remove l.slash) fun r d' => r = .ok () ∧ d' = (S.exec (.remove l.smb) d).2 :=
  changePath_acts hu hl _ ((Acts.call _).mono fun _ _ ⟨x, hx, hn, hd⟩ => ⟨x, hx, hn.trans hok, hd⟩)

end

end Smbfs.Client
