import Smbfs.Lib.GoMap
import Smbfs.Server.Backend

/-!
The file handle map of a share, `file_handle_map.go`. Open files are
pointers in the source: the map keeps a heap of records, `handles` and
`byPath` hold addresses. An address is the volatile half of the file's ID.

* `view m id`: the record of an open handle;
* `WF`: every ID leads to its own record;
* `view_allocate`, `view_release`, `view_modifyID`: what the operations do to
  the open handles, each keeping `WF`.
-/

namespace Smbfs

open Smbfs.Lib

abbrev HandleRef := Nat

structure OpenFile (File : Type) where
  id : FileID
  file : Option File
  path : Str
  isDir : Bool
  access : UInt32
  shareAccess : UInt32
  disposition : UInt32
  options : UInt32
  createdAt : GoTime
  lastAccess : GoTime
  treeID : UInt32
  sessionID : UInt64
  deleteOnClose : Bool

def OpenFile.zero (File : Type) : OpenFile File where
  id := ⟨0, 0⟩
  file := none
  path := []
  isDir := false
  access := 0
  shareAccess := 0
  disposition := 0
  options := 0
  createdAt := GoTime.zero
  lastAccess := GoTime.zero
  treeID := 0
  sessionID := 0
  deleteOnClose := false

structure FileHandleMap (File : Type) where
  heap : HandleRef → OpenFile File
  handles : GoMap FileID HandleRef
  byPath : GoMap Str (List HandleRef)
  nextHandle : Nat

def newFileHandleMap (File : Type) : FileHandleMap File where
  heap := fun _ => OpenFile.zero File
  handles := ∅
  byPath := ∅
  nextHandle := 1

def checkShareCompatibility (newAccess newShare existingAccess existingShare : UInt32) : Bool :=
  if hasBits newAccess fileReadData && !hasBits existingShare fileShareRead then false
  else if hasBits newAccess fileWriteData && !hasBits existingShare fileShareWrite then false
  else if hasBits newAccess delete && !hasBits existingShare fileShareDelete then false
  else if hasBits existingAccess fileReadData && !hasBits newShare fileShareRead then false
  else if hasBits existingAccess fileWriteData && !hasBits newShare fileShareWrite then false
  else if hasBits existingAccess delete && !hasBits newShare fileShareDelete then false
  else true

namespace FileHandleMap

variable {File : Type}

/-- The record `Allocate` makes. `rand` is what the random source gives: it
stays zero when the source fails. -/
def newOpenFile (m : FileHandleMap File) (rand : Option UInt64) (now : GoTime) (file : Option File)
    (path : Str) (isDir : Bool) (access shareAccess disposition options treeID : UInt32)
    (sessionID : UInt64) : OpenFile File where
  id := ⟨rand.getD 0, m.nextHandle⟩
  file := file
  path := path
  isDir := isDir
  access := access
  shareAccess := shareAccess
  disposition := disposition
  options := options
  createdAt := now
  lastAccess := now
  treeID := treeID
  sessionID := sessionID
  deleteOnClose := false

/-- `Allocate`, for the record of `newOpenFile`. -/
def allocate (m : FileHandleMap File) (of : OpenFile File) : FileHandleMap File where
  heap := Function.update m.heap m.nextHandle of
  handles := m.handles.insert of.id m.nextHandle
  byPath := m.byPath.insert of.path ((m.byPath.lookup of.path).getD [] ++ [m.nextHandle])
  nextHandle := m.nextHandle + 1

def getByTree (m : FileHandleMap File) (id : FileID) (treeID : UInt32) (sessionID : UInt64) :
    Option HandleRef :=
  match m.handles.lookup id with
  | none => none
  | some r =>
    if (m.heap r).treeID ≠ treeID ∨ (m.heap r).sessionID ≠ sessionID then none else some r

/-- The `byPath` table after the handle `id` of path `p` was taken out. -/
def unlist (m : FileHandleMap File) (p : Str) (id : FileID) : GoMap Str (List HandleRef) :=
  let rest := ((m.byPath.lookup p).getD []).eraseP fun h => (m.heap h).id = id
  if rest = [] then m.byPath.erase p else m.byPath.insert p rest

/-- `Release` up to the unlock; the file is closed by the caller. -/
def release (m : FileHandleMap File) (id : FileID) : FileHandleMap File :=
  match m.handles.lookup id with
  | none => m
  | some r => { m with handles := m.handles.erase id, byPath := m.unlist (m.heap r).path id }

/-- The IDs `ReleaseBySession` collects. -/
def idsBySession (m : FileHandleMap File) (sessionID : UInt64) : List FileID :=
  (m.handles.pairs.filter fun e => (m.heap e.2).sessionID = sessionID).map Prod.fst

/-- The IDs `ReleaseByTree` collects. -/
def idsByTree (m : FileHandleMap File) (treeID : UInt32) (sessionID : UInt64) : List FileID :=
  (m.handles.pairs.filter fun e =>
    (m.heap e.2).treeID = treeID ∧ (m.heap e.2).sessionID = sessionID).map Prod.fst

def checkShareAccess (m : FileHandleMap File) (path : Str) (desiredAccess shareAccess : UInt32) :
    Bool :=
  ((m.byPath.lookup path).getD []).all fun h =>
    checkShareCompatibility desiredAccess shareAccess (m.heap h).access (m.heap h).shareAccess

/-- A write through the pointer `r`. -/
def modify (m : FileHandleMap File) (r : HandleRef) (f : OpenFile File → OpenFile File) :
    FileHandleMap File :=
  { m with heap := Function.update m.heap r (f (m.heap r)) }

/-- A write to the record of `id`, if it is open. -/
def modifyID (m : FileHandleMap File) (id : FileID) (f : OpenFile File → OpenFile File) :
    FileHandleMap File :=
  match m.handles.lookup id with
  | none => m
  | some r => m.modify r f

def updateLastAccess (m : FileHandleMap File) (id : FileID) (now : GoTime) :
    FileHandleMap File := m.modifyID id fun of => { of with lastAccess := now }

def setDeleteOnClose (m : FileHandleMap File) (id : FileID) (deleteOnClose : Bool) :
    FileHandleMap File := m.modifyID id fun of => { of with deleteOnClose := deleteOnClose }

/-! ## Open handles -/

/-- The record of an open handle. -/
def view (m : FileHandleMap File) (id : FileID) : Option (OpenFile File) :=
  (m.handles.lookup id).map m.heap

/-- Every ID leads to its own record. -/
structure WF (m : FileHandleMap File) : Prop where
  id_eq : ∀ id r, m.handles.lookup id = some r → (m.heap r).id = id
  ref_eq : ∀ id r, m.handles.lookup id = some r → r = id.volatile
  lt_next : ∀ id r, m.handles.lookup id = some r → r < m.nextHandle

theorem WF.new : WF (newFileHandleMap File) := by
  constructor <;> simp [newFileHandleMap]

variable {m : FileHandleMap File} {sessionID : UInt64} {id : FileID} {of : OpenFile File}

theorem view_eq_some : m.view id = some of ↔ ∃ r, m.handles.lookup id = some r ∧ m.heap r = of := by
  simp [view]

theorem WF.view_id (h : WF m) (hv : m.view id = some of) : of.id = id := by
  obtain ⟨r, hr, rfl⟩ := view_eq_some.mp hv
  exact h.id_eq id r hr

theorem WF.view_volatile_lt (h : WF m) (hv : m.view id = some of) :
    id.volatile < m.nextHandle := by
  obtain ⟨r, hr, _⟩ := view_eq_some.mp hv
  rw [← h.ref_eq id r hr]
  exact h.lt_next id r hr

@[simp] theorem view_new (id : FileID) : (newFileHandleMap File).view id = none := by
  simp [newFileHandleMap, view]

/-! ## Allocate -/

theorem WF.allocate (h : WF m) (hid : of.id.volatile = m.nextHandle) : WF (m.allocate of) := by
  have hcases : ∀ id r, (m.allocate of).handles.lookup id = some r →
      (id = of.id ∧ r = m.nextHandle) ∨ m.handles.lookup id = some r := by
    intro id r hr
    by_cases hid : id = of.id
    · rw [FileHandleMap.allocate, hid, AList.lookup_insert, Option.some.injEq] at hr
      exact .inl ⟨hid, hr.symm⟩
    · rw [FileHandleMap.allocate, AList.lookup_insert_ne hid] at hr
      exact .inr hr
  constructor
  · intro id r hr
    rcases hcases id r hr with ⟨rfl, rfl⟩ | hr
    · simp [FileHandleMap.allocate]
    · have hne : r ≠ m.nextHandle := Nat.ne_of_lt (h.lt_next id r hr)
      simp only [FileHandleMap.allocate, Function.update_of_ne hne]
      exact h.id_eq id r hr
  · intro id r hr
    rcases hcases id r hr with ⟨rfl, rfl⟩ | hr
    · exact hid.symm
    · exact h.ref_eq id r hr
  · intro id r hr
    rcases hcases id r hr with ⟨rfl, rfl⟩ | hr
    · exact Nat.lt_succ_self _
    · exact Nat.lt_succ_of_lt (h.lt_next id r hr)

theorem WF.view_fresh (h : WF m) (hid : id.volatile = m.nextHandle) :
    m.view id = none := by
  cases hv : m.view id with
  | none => rfl
  | some of =>
    have := h.view_volatile_lt hv
    omega

theorem WF.view_allocate (h : WF m) (of : OpenFile File) (id : FileID) :
    (m.allocate of).view id = if id = of.id then some of else m.view id := by
  by_cases hid : id = of.id
  · subst hid
    simp [view, FileHandleMap.allocate]
  · simp only [hid, ↓reduceIte, view, FileHandleMap.allocate, AList.lookup_insert_ne hid]
    cases hr : m.handles.lookup id with
    | none => rfl
    | some r =>
      have hlt := h.lt_next id r hr
      have : r ≠ m.nextHandle := Nat.ne_of_lt hlt
      simp [Function.update_of_ne this]

variable {f : OpenFile File → OpenFile File}

/-- A write to the record just allocated. -/
theorem allocate_modify (m : FileHandleMap File) (of : OpenFile File)
    (hid : (f of).id = of.id) (hpath : (f of).path = of.path) :
    (m.allocate of).modify m.nextHandle f = m.allocate (f of) := by
  rw [FileHandleMap.allocate, FileHandleMap.allocate, hid, hpath]
  simp [modify]

/-! ## Release -/

theorem release_heap (m : FileHandleMap File) (id : FileID) : (m.release id).heap = m.heap := by
  unfold FileHandleMap.release
  split <;> rfl

theorem release_nextHandle (m : FileHandleMap File) (id : FileID) :
    (m.release id).nextHandle = m.nextHandle := by
  unfold FileHandleMap.release
  split <;> rfl

theorem lookup_release (m : FileHandleMap File) (id id' : FileID) :
    (m.release id).handles.lookup id' = if id' = id then none else m.handles.lookup id' := by
  unfold FileHandleMap.release
  split
  · next hn => exact GoMap.lookup_of_absent hn id'
  · exact GoMap.lookup_erase _ _ _

theorem WF.release (h : WF m) (id : FileID) : WF (m.release id) := by
  have hold : ∀ id' r, (m.release id).handles.lookup id' = some r →
      m.handles.lookup id' = some r := by
    intro id' r hr
    rw [lookup_release] at hr
    split at hr
    · cases hr
    · exact hr
  constructor
  · intro id' r hr
    rw [release_heap]
    exact h.id_eq id' r (hold id' r hr)
  · intro id' r hr
    exact h.ref_eq id' r (hold id' r hr)
  · intro id' r hr
    rw [release_nextHandle]
    exact h.lt_next id' r (hold id' r hr)

theorem view_release (m : FileHandleMap File) (id id' : FileID) :
    (m.release id).view id' = if id' = id then none else m.view id' := by
  simp only [view, lookup_release, release_heap]
  split <;> rfl

/-! ## Writes to a record -/

theorem modifyID_handles (m : FileHandleMap File) (id : FileID)
    (f : OpenFile File → OpenFile File) : (m.modifyID id f).handles = m.handles := by
  unfold modifyID
  split <;> rfl

theorem modify_eq_modifyID {r : HandleRef} (h : m.handles.lookup id = some r)
    (f : OpenFile File → OpenFile File) : m.modify r f = m.modifyID id f := by
  rw [modifyID, h]

theorem WF.modifyID (h : WF m) (id : FileID)
    (hf : ∀ of, (f of).id = of.id) : WF (m.modifyID id f) := by
  unfold FileHandleMap.modifyID
  split
  · exact h
  · rename_i r hr
    refine ⟨?_, h.ref_eq, h.lt_next⟩
    intro id' r' hr'
    by_cases hrr : r' = r
    · subst hrr
      simp only [modify, Function.update_self]
      rw [hf]
      exact h.id_eq id' r' hr'
    · simp only [modify, Function.update_of_ne hrr]
      exact h.id_eq id' r' hr'

theorem WF.view_modifyID (h : WF m) (id id' : FileID) (f : OpenFile File → OpenFile File) :
    (m.modifyID id f).view id' = if id' = id then (m.view id).map f else m.view id' := by
  unfold FileHandleMap.modifyID
  split
  · rename_i hn
    by_cases hid : id' = id
    · subst hid
      simp [view, hn]
    · simp [hid]
  · rename_i r hr
    by_cases hid : id' = id
    · subst hid
      simp [view, modify, hr]
    · simp only [hid, ↓reduceIte, view, modify]
      cases hr' : m.handles.lookup id' with
      | none => rfl
      | some r' =>
        have hne : r' ≠ r := by
          rintro rfl
          exact hid ((h.id_eq id' r' hr').symm.trans (h.id_eq id r' hr))
        simp [Function.update_of_ne hne]

/-! ## Lookups -/

theorem getByTree_eq_some {treeID : UInt32} {r : HandleRef}
    (h : m.getByTree id treeID sessionID = some r) :
    m.handles.lookup id = some r ∧ (m.heap r).treeID = treeID ∧
      (m.heap r).sessionID = sessionID := by
  unfold getByTree at h
  split at h
  · cases h
  · rename_i r' hr
    split at h
    · cases h
    · rename_i hn
      cases h
      rw [not_or, not_not, not_not] at hn
      exact ⟨hr, hn.1, hn.2⟩

/-- The IDs whose records pass a test. -/
theorem mem_ids_filter {p : OpenFile File → Bool} :
    id ∈ (m.handles.pairs.filter fun e => p (m.heap e.2)).map Prod.fst ↔
      ∃ of, m.view id = some of ∧ p of = true := by
  rw [List.mem_map]
  constructor
  · rintro ⟨⟨id', r⟩, he, rfl⟩
    rw [List.mem_filter, GoMap.mem_pairs] at he
    exact ⟨m.heap r, view_eq_some.mpr ⟨r, he.1, rfl⟩, he.2⟩
  · rintro ⟨of, hv, hp⟩
    obtain ⟨r, hr, rfl⟩ := view_eq_some.mp hv
    refine ⟨(id, r), ?_, rfl⟩
    rw [List.mem_filter, GoMap.mem_pairs]
    exact ⟨hr, hp⟩

theorem mem_idsBySession :
    id ∈ m.idsBySession sessionID ↔ ∃ of, m.view id = some of ∧ of.sessionID = sessionID := by
  refine (mem_ids_filter (p := fun of => of.sessionID = sessionID)).trans ?_
  simp only [decide_eq_true_eq]

theorem mem_idsByTree {treeID : UInt32} :
    id ∈ m.idsByTree treeID sessionID ↔
      ∃ of, m.view id = some of ∧ of.treeID = treeID ∧ of.sessionID = sessionID := by
  refine (mem_ids_filter (p := fun of => of.treeID = treeID ∧ of.sessionID = sessionID)).trans ?_
  simp only [decide_eq_true_eq]

end FileHandleMap

end Smbfs
