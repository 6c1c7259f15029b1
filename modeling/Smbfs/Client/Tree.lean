import Mathlib.Data.List.Forall2
import Mathlib.Data.Set.Insert
import Smbfs.Client.File
import Smbfs.Client.Location

/-!
Shares that behave as a tree of files, for one client: what a share answers
about a location, and how far a call may change it.

The answers are compared up to what a directory says about its own size and
time, which change with its content.
-/

namespace Smbfs.Client

open Smbfs.Lib

/-! ## Answers -/

/-- The same name, kind and mode, and for a file the same size and time. -/
structure SameInfo (a b : FileInfo) : Prop where
  name : a.name = b.name
  isDir : a.isDir = b.isDir
  mode : a.mode = b.mode
  file : a.isDir = false → a.size = b.size ∧ a.modTime = b.modTime

namespace SameInfo

@[refl] theorem refl (a : FileInfo) : SameInfo a a := ⟨rfl, rfl, rfl, fun _ => ⟨rfl, rfl⟩⟩

theorem trans {a b c : FileInfo} (h : SameInfo a b) (h' : SameInfo b c) : SameInfo a c := by
  refine ⟨h.name.trans h'.name, h.isDir.trans h'.isDir, h.mode.trans h'.mode, fun hd => ?_⟩
  obtain ⟨hs, ht⟩ := h.file hd
  obtain ⟨hs', ht'⟩ := h'.file (h.isDir ▸ hd)
  exact ⟨hs.trans hs', ht.trans ht'⟩

theorem withName {a b : FileInfo} (h : SameInfo a b) (n : Str) :
    SameInfo { a with name := n } { b with name := n } :=
  ⟨rfl, h.isDir, h.mode, h.file⟩

end SameInfo

/-- Listings with the same entries in the same order. -/
abbrev SameInfos : List FileInfo → List FileInfo → Prop := List.Forall₂ SameInfo

theorem SameInfos.refl (l : List FileInfo) : SameInfos l l := List.forall₂_same.mpr fun a _ => .refl a

theorem SameInfos.trans {a b c : List FileInfo} (h : SameInfos a b) (h' : SameInfos b c) :
    SameInfos a c := by
  induction h generalizing c with
  | nil => exact h'
  | cons hx _ ih =>
    cases h' with
    | cons hy h' => exact .cons (hx.trans hy) (ih h')

theorem SameInfos.visible {a b : List FileInfo} (h : SameInfos a b) :
    SameInfos (visible a) (visible b) := by
  induction h with
  | nil => exact .nil
  | cons hx _ ih =>
    unfold Client.visible at ih ⊢
    rw [List.filter_cons, List.filter_cons, hx.name]
    split
    · exact .cons hx ih
    · exact ih

namespace Share

variable (S : Share)

/-- What `Stat` of a location answers. -/
def statOf (d : S.Disk) (l : Loc) : Except Err FileInfo := (S.exec (.stat l.smb) d).1

/-- What opening a location, asking for its kind and reading the directory answer. -/
def listOf (d : S.Disk) (l : Loc) : Option (List FileInfo) :=
  match (S.exec (.openFile l.smb oRDONLY 0) d).1 with
  | .error _ => none
  | .ok f =>
    match (S.exec (.fileStat f) d).1 with
    | .error _ => none
    | .ok info =>
      if info.isDir then
        match (S.exec (.readdir f (-1)) d).1.1 with
        | .error _ => none
        | .ok infos => some infos
      else none

/-- What is there in `d` is there in `d'`, except for the files in `N` and the listings in `D`. -/
structure Agree (N D : Set Loc) (d d' : S.Disk) : Prop where
  stat : ∀ l ∉ N, ∀ i, S.statOf d l = .ok i → ∃ i', S.statOf d' l = .ok i' ∧ SameInfo i i'
  list : ∀ l ∉ D, ∀ is, S.listOf d l = some is → ∃ is', S.listOf d' l = some is' ∧ SameInfos is is'

variable {S} in
theorem Agree.trans {N D : Set Loc} {d d' d'' : S.Disk} (h : S.Agree N D d d')
    (h' : S.Agree N D d' d'') : S.Agree N D d d'' := by
  constructor
  · intro l hl i hi
    obtain ⟨i', hi', hsame⟩ := h.stat l hl i hi
    obtain ⟨i'', hi'', hsame'⟩ := h'.stat l hl i' hi'
    exact ⟨i'', hi'', hsame.trans hsame'⟩
  · intro l hl is his
    obtain ⟨is', his', hsame⟩ := h.list l hl is his
    obtain ⟨is'', his'', hsame'⟩ := h'.list l hl is' his'
    exact ⟨is'', his'', hsame.trans hsame'⟩

theorem Agree.same (N D : Set Loc) (d : S.Disk) : S.Agree N D d d :=
  ⟨fun _ _ i h => ⟨i, h, .refl i⟩, fun _ _ is h => ⟨is, h, .refl is⟩⟩

/-! ## Extending a file -/

/-- The share takes the writes of `remaining` zero bytes that `Truncate` makes. -/
def takesZeros : Nat → S.File → Nat → S.Disk → Bool
  | 0, _, _, _ => true
  | fuel + 1, file, remaining, d =>
    if remaining = 0 then true
    else
      let toWrite := min remaining 4096
      let r := S.exec (.write file (List.replicate toWrite 0)) d
      r.1.1.2.isNone && takesZeros fuel r.1.2 (remaining - toWrite) r.2

/-- The bytes that the share reports to have taken in these writes, up to the first error. -/
def zerosTaken : Nat → S.File → Nat → S.Disk → Nat
  | 0, _, _, _ => 0
  | fuel + 1, file, remaining, d =>
    if remaining = 0 then 0
    else
      let toWrite := min remaining 4096
      let r := S.exec (.write file (List.replicate toWrite 0)) d
      match r.1.1.2 with
      | some _ => r.1.1.1
      | none => r.1.1.1 + zerosTaken fuel r.1.2 (remaining - toWrite) r.2

/-- If `Truncate` has to extend an open file, the share takes the writes for that. -/
def extendsFile (d : S.Disk) (file : S.File) (size : Int64) : Bool :=
  match (S.exec (.fileStat file) d).1 with
  | .error _ => true
  | .ok info =>
    if info.size < size then
      let remaining := (size - info.size).toNatClampNeg
      S.takesZeros remaining (S.exec (.seek file 0 .fromEnd) d).1.2 remaining d
    else true

/-- If `Truncate` has to extend the named file, the share takes the writes for that. -/
def extendsTo (d : S.Disk) (name : Str) (size : Int64) : Bool :=
  match (S.exec (.openFile name oWRONLY 0) d).1 with
  | .error _ => true
  | .ok file => S.extendsFile d file size

end Share

/-! ## Laws -/

namespace ShareCall

variable {File : Type}

/-- The name whose file a call may change. -/
def changes (nameOf : File → Str) : ShareCall File → Option Str
  | openFile name .. | mkdir name _ | remove name | chmod name _ | chtimes name .. => some name
  | write f _ => some (nameOf f)
  | stat _ | rename .. | read .. | seek .. | close _ | fileStat _ | readdir .. => none

/-- A call that may change something returned an error. -/
def failed : (c : ShareCall File) → c.Reply → Bool
  | openFile .., r => !r.isOk
  | mkdir .., r | remove _, r | rename .., r | chmod .., r | chtimes .., r => r.isSome
  | write .., r => r.1.2.isSome
  | stat _, _ | read .., _ | seek .., _ | close _, _ | fileStat _, _ | readdir .., _ => false

end ShareCall

/-- The files a rename moves or replaces. -/
def moved (l l' : Loc) : Set Loc := {q | l.Covers q ∨ l'.Covers q}

/-- Calls that only read leave the share as it is. -/
def Share.Steady (S : Share) : Prop := ∀ c d, c.reads = true → (S.exec c d).2 = d

/-- A share that behaves as a tree. Calls that only read leave it as it is,
and so do calls that fail. Another call changes the file it names and the
listing of the directory around it; a rename changes what is below the two
names, and nothing is below the new name unless it was moved from there. -/
structure TreeLike (S : Share) : Prop where
  reads : ∀ c d, c.reads = true → (S.exec c d).2 = d
  failed : ∀ c d, c.failed (S.exec c d).1 = true → (S.exec c d).2 = d
  changes : ∀ c d (l : Loc), c.changes S.nameOf = some l.smb →
    S.Agree {l} {l, l.parent} d (S.exec c d).2
  rename : ∀ (l l' : Loc) d,
    S.Agree (moved l l') (moved l l' ∪ {l.parent, l'.parent}) d (S.exec (.rename l.smb l'.smb) d).2
  rename_empty : ∀ (l l' q : Loc) d, (S.exec (.rename l.smb l'.smb) d).1 = none →
    l'.Covers q → q ≠ l' → ¬ l.Covers q → (∀ i, S.statOf d q ≠ .ok i) ∧ S.listOf d q = none
  opened : ∀ name flag perm d f, (S.exec (.openFile name flag perm) d).1 = .ok f → S.nameOf f = name
  write_name : ∀ f data d, S.nameOf (S.exec (.write f data) d).1.2 = S.nameOf f
  seek_name : ∀ f offset whence d, S.nameOf (S.exec (.seek f offset whence) d).1.2 = S.nameOf f

end Smbfs.Client
