import Smbfs.Lib.GoPath
import Smbfs.Lib.Positional
import Smbfs.Server.Backend

/-!
What a backing filesystem stands for. Paths lead to locations; at a location
stands a file or a directory, or nothing; an open file belongs to the object it
was opened for, wherever that is by now.

* `ObjectFs`: these notions for a backend;
* `Same`, `Opens`, `Rewrites`, `Adds`, `OnlyAt`: what a call may do;
* `Posix`: what `Stat`, `OpenFile` and `Mkdir` do on a POSIX-like filesystem;
* `ByteFiles`: files are arrays of bytes with a cursor for each `File`, and
  `RefusesNegative` keeps the cursor out of what is before them;
* `KeepsData`, `Lexical`: what else the calls of SET_INFO and the names of a rename
  are asked for.
-/

namespace Smbfs

open Smbfs.Lib

/-- A file with its bytes, or a directory. -/
inductive Node where
  | file (data : Bytes)
  | dir
  deriving DecidableEq

def Node.isDir : Node → Bool
  | file _ => false
  | dir => true

structure ObjectFs (B : Backend) where
  Loc : Type
  Obj : Type
  /-- Where a path leads, if its directories are there. -/
  locate : B.Content → Str → Option Loc
  /-- The directory of a location. -/
  parent : Loc → Option Loc
  /-- The object at a location. -/
  entry : B.Content → Loc → Option Obj
  node : B.Content → Obj → Node
  /-- The object of a file that is open. -/
  opened : B.Disk → B.File → Option Obj

/-- The calls that open and close files. -/
def FsCall.opensOrCloses {File : Type} : FsCall File → Bool
  | openFile .. | close _ => true
  | _ => false

namespace ObjectFs

variable {B : Backend} (F : ObjectFs B)

/-- The object a path names. -/
def look (c : B.Content) (path : Str) : Option F.Obj := (F.locate c path).bind (F.entry c)

/-- Neither the content nor the open files are changed. -/
structure Same (d d' : B.Disk) : Prop where
  content_eq : B.content d' = B.content d
  opened_eq : F.opened d' = F.opened d

/-- The file `f` has been opened for `x`. -/
structure Opens (d d' : B.Disk) (f : B.File) (x : F.Obj) : Prop where
  fresh : F.opened d f = none
  opened_eq : F.opened d' f = some x
  others : ∀ g, g ≠ f → F.opened d' g = F.opened d g

/-- The file `x` has other data, and nothing else has changed. -/
structure Rewrites (c c' : B.Content) (x : F.Obj) (data : Bytes) : Prop where
  locate_eq : F.locate c' = F.locate c
  entry_eq : F.entry c' = F.entry c
  was_file : (F.node c x).isDir = false
  node_eq : F.node c' x = .file data
  others : ∀ y, y ≠ x → F.node c' y = F.node c y

/-- A new object `x` has been put where the path leads, with nothing in it. -/
structure Adds (d d' : B.Disk) (path : Str) (x : F.Obj) (n : Node) : Prop where
  unnamed : ∀ l, F.entry (B.content d) l ≠ some x
  unopened : ∀ f, F.opened d f ≠ some x
  place : ∃ l, F.locate (B.content d) path = some l ∧ F.locate (B.content d') path = some l ∧
    F.entry (B.content d) l = none ∧ F.entry (B.content d') l = some x ∧
    (∀ l', l' ≠ l → F.entry (B.content d') l' = F.entry (B.content d) l') ∧
    ∀ l', F.parent l' = some l → F.entry (B.content d') l' = none
  located : ∀ p l, F.locate (B.content d) p = some l → F.locate (B.content d') p = some l
  node_eq : F.node (B.content d') x = n
  others : ∀ y, y ≠ x → F.node (B.content d') y = F.node (B.content d) y

/-- Only the object `x` has been changed or made. Every path still leads to the
object it led to. -/
structure OnlyAt (c c' : B.Content) (x : F.Obj) : Prop where
  look_eq : ∀ p y, F.look c p = some y → F.look c' p = some y
  entry_eq : ∀ l y, y ≠ x → (F.entry c' l = some y ↔ F.entry c l = some y)
  node_eq : ∀ y, y ≠ x → F.node c' y = F.node c y

/-- A POSIX-like filesystem. `Stat` fails exactly where there is nothing, and
what has just been made or opened can be opened and asked for its status. -/
structure Posix : Prop where
  stat_ok : ∀ d path info, (B.exec (.stat path) d).1 = .ok info →
    ∃ x, F.look (B.content d) path = some x ∧ info.isDir = (F.node (B.content d) x).isDir
  stat_error : ∀ d path err, (B.exec (.stat path) d).1 = .error err →
    F.look (B.content d) path = none
  opened_exec : ∀ (c : FsCall B.File) d, c.opensOrCloses = false →
    F.opened (B.exec c d).2 = F.opened d
  open_error : ∀ d path flags perm err, (B.exec (.openFile path flags perm) d).1 = .error err →
    F.Same d (B.exec (.openFile path flags perm) d).2
  open_present : ∀ d path flags perm x f, F.look (B.content d) path = some x →
    (B.exec (.openFile path flags perm) d).1 = .ok f →
    F.Opens d (B.exec (.openFile path flags perm) d).2 f x ∧
      if flags.trunc then
        F.Rewrites (B.content d) (B.content (B.exec (.openFile path flags perm) d).2) x []
      else B.content (B.exec (.openFile path flags perm) d).2 = B.content d
  open_absent : ∀ d path flags perm f, F.look (B.content d) path = none →
    (B.exec (.openFile path flags perm) d).1 = .ok f →
    flags.create = true ∧ ∃ x, F.Opens d (B.exec (.openFile path flags perm) d).2 f x ∧
      F.Adds d (B.exec (.openFile path flags perm) d).2 path x (.file [])
  mkdir_error : ∀ d path perm err, (B.exec (.mkdir path perm) d).1 = some err →
    B.content (B.exec (.mkdir path perm) d).2 = B.content d
  mkdir_ok : ∀ d path perm, (B.exec (.mkdir path perm) d).1 = none →
    ∃ x, F.Adds d (B.exec (.mkdir path perm) d).2 path x .dir
  open_made : ∀ d path perm, (B.exec (.mkdir path perm) d).1 = none →
    ∃ f, (B.exec (.openFile path ⟨false, false, false⟩ 0) (B.exec (.mkdir path perm) d).2).1 = .ok f
  fileStat_opened : ∀ d path flags perm f, (B.exec (.openFile path flags perm) d).1 = .ok f →
    ∃ info, (B.exec (.fileStat f) (B.exec (.openFile path flags perm) d).2).1 = .ok info ∧
      ∀ x, F.opened (B.exec (.openFile path flags perm) d).2 f = some x →
        info.isDir = (F.node (B.content (B.exec (.openFile path flags perm) d).2) x).isDir

/-- Files that are seekable arrays of bytes, with a cursor for each `File`. -/
structure ByteFiles (cursor : B.Disk → B.File → Nat) : Prop where
  opened_seek : ∀ d f offset whence, F.opened (B.exec (.seek f offset whence) d).2 = F.opened d
  opened_read : ∀ d f n, F.opened (B.exec (.read f n) d).2 = F.opened d
  opened_write : ∀ d f new, F.opened (B.exec (.write f new) d).2 = F.opened d
  seek_ok : ∀ d f x data (offset : Int64), F.opened d f = some x →
    F.node (B.content d) x = .file data → 0 ≤ offset.toInt →
    B.seeker f = true ∧ (B.exec (.seek f offset 0) d).1.2 = none ∧
      cursor (B.exec (.seek f offset 0) d).2 f = offset.toInt.toNat
  read_ok : ∀ d f x data n, F.opened d f = some x → F.node (B.content d) x = .file data →
    (B.exec (.read f n) d).1.1 = pread data (cursor d f) n ∧
      ∀ err, (B.exec (.read f n) d).1.2 = some err → err.eqEOF = true
  write_ok : ∀ d f x data new, F.opened d f = some x → F.node (B.content d) x = .file data →
    (B.exec (.write f new) d).1 = (new.length, none) ∧
      F.Rewrites (B.content d) (B.content (B.exec (.write f new) d).2) x
        (pwrite 0 data (cursor d f) new)

/-- `Seek` to an offset before the start of a file fails, as `io.Seeker` asks. -/
def RefusesNegative : Prop :=
  ∀ d f x (offset : Int64), F.opened d f = some x → offset.toInt < 0 →
    (B.exec (.seek f offset 0) d).1.2 ≠ none

/-- What the other calls of SET_INFO do to the data of the open files: only
`Truncate` changes it. -/
structure KeepsData : Prop where
  opened_eq : ∀ (c : FsCall B.File) d, c.opensOrCloses = false →
    F.opened (B.exec c d).2 = F.opened d
  node_chtimes : ∀ d f atime mtime y,
    F.node (B.content (B.exec (.chtimes f atime mtime) d).2) y = F.node (B.content d) y
  node_chmod : ∀ d f mode y,
    F.node (B.content (B.exec (.chmod f mode) d).2) y = F.node (B.content d) y
  node_rename : ∀ d old new g y, F.opened d g = some y →
    F.node (B.content (B.exec (.rename old new) d).2) y = F.node (B.content d) y
  truncate_ok : ∀ d f x data (size : Int64), F.opened d f = some x →
    F.node (B.content d) x = .file data → (B.exec (.truncate f size) d).1 = none →
    F.Rewrites (B.content d) (B.content (B.exec (.truncate f size) d).2) x
      (resize 0 data size.toInt.toNat)
  truncate_error : ∀ d f size err, (B.exec (.truncate f size) d).1 = some err →
    B.content (B.exec (.truncate f size) d).2 = B.content d

/-- A filesystem without links, on which the names of a path alone say where it
leads. `Rename` puts the object where the new path leads, and what is there can be
opened. -/
structure Lexical (place : List GoPath.Part → F.Loc) : Prop where
  locate_eq : ∀ c path l, F.locate c path = some l → l = place (GoPath.location path)
  locate_congr : ∀ c p q, GoPath.location p = GoPath.location q → F.locate c p = F.locate c q
  place_injective : Function.Injective place
  no_links : ∀ c l l' x, F.entry c l = some x → F.entry c l' = some x → l = l'
  rename_ok : ∀ d old new, (B.exec (.rename old new) d).1 = none →
    ∃ x, F.look (B.content d) old = some x ∧
      F.look (B.content (B.exec (.rename old new) d).2) new = some x
  open_there : ∀ d path x, F.look (B.content d) path = some x →
    ∃ f, (B.exec (.openFile path ⟨false, false, false⟩ 0) d).1 = .ok f

variable {F}

theorem Same.refl (d : B.Disk) : F.Same d d := ⟨rfl, rfl⟩

theorem Same.trans {d d' d'' : B.Disk} (h : F.Same d d') (h' : F.Same d' d'') : F.Same d d'' :=
  ⟨h'.content_eq.trans h.content_eq, h'.opened_eq.trans h.opened_eq⟩

/-- Calls that neither mutate nor open or close a file change nothing. -/
theorem Posix.same_exec (h : F.Posix) {c : FsCall B.File} (hm : c.mutates = false)
    (ho : c.opensOrCloses = false) (d : B.Disk) : F.Same d (B.exec c d).2 :=
  ⟨B.content_exec c d hm, h.opened_exec c d ho⟩

variable {x : F.Obj} {d d' e e' : B.Disk}

/-- What was there before and after a call does not matter. -/
theorem Opens.congr {f : B.File} (h : F.Opens d d' f x)
    (hd : F.opened e = F.opened d) (hd' : F.opened e' = F.opened d') : F.Opens e e' f x := by
  refine ⟨?_, ?_, fun g hg => ?_⟩
  · rw [hd]
    exact h.fresh
  · rw [hd']
    exact h.opened_eq
  · rw [hd, hd']
    exact h.others g hg

variable {path : Str} {n : Node}

theorem Adds.congr
    (h : F.Adds d d' path x n) (hd : F.Same d e) (hd' : B.content e' = B.content d') :
    F.Adds e e' path x n := by
  refine ⟨?_, ?_, ?_, ?_, ?_, fun y hy => ?_⟩
  · rw [hd.content_eq]
    exact h.unnamed
  · rw [hd.opened_eq]
    exact h.unopened
  · rw [hd.content_eq, hd']
    exact h.place
  · rw [hd.content_eq, hd']
    exact h.located
  · rw [hd']
    exact h.node_eq
  · rw [hd.content_eq, hd']
    exact h.others y hy

/-- Where an object has been added there was none. -/
theorem Adds.look_eq (h : F.Adds d d' path x n) :
    F.look (B.content d) path = none ∧ F.look (B.content d') path = some x := by
  obtain ⟨l, hl, hl', hnone, hsome, -, -⟩ := h.place
  rw [look, look, hl, hl']
  exact ⟨hnone, hsome⟩

/-- Without links, an object is found on the paths that lead to its location. -/
theorem Lexical.look_iff {place : List GoPath.Part → F.Loc} (h : F.Lexical place) {c : B.Content}
    {p : Str} (hx : F.look c p = some x) (q : Str) :
    F.look c q = some x ↔ GoPath.location p = GoPath.location q := by
  constructor
  · intro hq
    obtain ⟨l, hl, hentry⟩ := Option.bind_eq_some_iff.mp hx
    obtain ⟨l', hl', hentry'⟩ := Option.bind_eq_some_iff.mp hq
    have hsame := h.no_links c l l' x hentry hentry'
    rw [h.locate_eq c p l hl, h.locate_eq c q l' hl'] at hsame
    exact h.place_injective hsame
  · intro hloc
    rw [look, ← h.locate_congr c p q hloc]
    exact hx

theorem Rewrites.onlyAt {c c' : B.Content} {data : Bytes}
    (h : F.Rewrites c c' x data) : F.OnlyAt c c' x := by
  refine ⟨fun p y hy => ?_, fun l y _ => by rw [h.entry_eq], h.others⟩
  rw [look, h.locate_eq, h.entry_eq]
  exact hy

theorem Adds.onlyAt
    (h : F.Adds d d' path x n) : F.OnlyAt (B.content d) (B.content d') x := by
  obtain ⟨l, -, -, hnone, hsome, hothers, -⟩ := h.place
  refine ⟨fun p y hy => ?_, fun l' y hy => ?_, h.others⟩
  · obtain ⟨l', hl', hentry⟩ := Option.bind_eq_some_iff.mp hy
    have hne : l' ≠ l := by
      rintro rfl
      rw [hnone] at hentry
      cases hentry
    rw [look, h.located p l' hl', Option.bind_some, hothers l' hne]
    exact hentry
  · by_cases hl' : l' = l
    · rw [hl', hnone, hsome]
      exact iff_of_false (fun h => hy (Option.some.inj h).symm) (fun h => by cases h)
    · rw [hothers l' hl']

end ObjectFs

end Smbfs
