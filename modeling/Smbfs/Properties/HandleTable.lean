import Smbfs.Server.HandleIndex
import Smbfs.System.Release

/-!
The handle map of a share over its whole life, with the calls of `Close` that
its operations make.

* `Consistent`: the invariant, against the list of the records allocated so far;
* `Consistent.allocate`, `Consistent.release`, `Consistent.modifyID`: the three
  ways in which the operations change the map;
* `handle_table_represents`: what the two indexes and the closed files are after
  every sequence of operations;
* `releaseAll_table`: the releases of the handlers are those of this file.

The numbers of the handles are natural numbers: the source counts in 64 bits,
which is the same for fewer than 2^64 allocations.
-/

namespace Smbfs

open Smbfs.Lib

variable {File : Type}

/-! ## Operations -/

/-- A handle map, and the calls of `Close` so far with the handles they were for. -/
structure HandleTable (File : Type) where
  map : FileHandleMap File
  closed : List (FileID × File)

/-- A call of one of the operations. A bulk release visits its IDs in some order. -/
inductive HandleOp (File : Type) where
  | allocate (rand : Option UInt64) (now : GoTime) (file : Option File) (path : Str) (isDir : Bool)
      (access shareAccess disposition options treeID : UInt32) (sessionID : UInt64)
  | release (id : FileID)
  | releaseBySession (sessionID : UInt64) (order : RangeOrder FileID)
  | releaseByTree (treeID : UInt32) (sessionID : UInt64) (order : RangeOrder FileID)
  | setDeleteOnClose (id : FileID) (deleteOnClose : Bool)
  | updateLastAccess (id : FileID) (now : GoTime)

namespace HandleTable

def new : HandleTable File := ⟨newFileHandleMap File, []⟩

/-- `Release`, with its `Close`. -/
def release (t : HandleTable File) (id : FileID) : HandleTable File :=
  match t.map.view id with
  | none => t
  | some of => ⟨t.map.release id, t.closed ++ (of.file.map fun f => (id, f)).toList⟩

def releaseAll (t : HandleTable File) (ids : List FileID) : HandleTable File := ids.foldl release t

def releaseBySession (t : HandleTable File) (sessionID : UInt64) (order : RangeOrder FileID) :
    HandleTable File :=
  t.releaseAll (order.visit (t.map.idsBySession sessionID))

def releaseByTree (t : HandleTable File) (treeID : UInt32) (sessionID : UInt64)
    (order : RangeOrder FileID) : HandleTable File :=
  t.releaseAll (order.visit (t.map.idsByTree treeID sessionID))

/-- The record that a call allocates. -/
def allocated (t : HandleTable File) : HandleOp File → Option (OpenFile File)
  | .allocate rand now file path isDir access shareAccess disposition options treeID sessionID =>
    some (t.map.newOpenFile rand now file path isDir access shareAccess disposition options treeID
      sessionID)
  | _ => none

def step (t : HandleTable File) : HandleOp File → HandleTable File
  | .allocate rand now file path isDir access shareAccess disposition options treeID sessionID =>
    { t with map := t.map.allocate (t.map.newOpenFile rand now file path isDir access shareAccess
        disposition options treeID sessionID) }
  | .release id => t.release id
  | .releaseBySession sessionID order => t.releaseBySession sessionID order
  | .releaseByTree treeID sessionID order => t.releaseByTree treeID sessionID order
  | .setDeleteOnClose id deleteOnClose => { t with map := t.map.setDeleteOnClose id deleteOnClose }
  | .updateLastAccess id now => { t with map := t.map.updateLastAccess id now }

end HandleTable

/-! ## The invariant -/

/-- The IDs of the records, in their order, that are open at the path. -/
def openIDs (m : FileHandleMap File) (recs : List (OpenFile File)) (path : Str) : List FileID :=
  (recs.map OpenFile.id).filter fun id => (m.view id).any fun of => of.path = path

/-- The state of the table after the records `recs` were allocated. -/
structure Consistent (recs : List (OpenFile File)) (t : HandleTable File) : Prop where
  wf : t.map.WF
  lists : t.map.NoEmptyList
  fresh : ∀ of ∈ recs, of.id.volatile < t.map.nextHandle
  distinct : (recs.map fun of => of.id.volatile).Nodup
  live : ∀ id of, t.map.view id = some of → ∃ old ∈ recs, old.id = id ∧ old.file = of.file
  listed : ∀ path, t.map.getOpenHandlesForPath path =
    (openIDs t.map recs path).map FileID.volatile
  closed_once : (t.closed.map Prod.fst).Nodup
  closed_iff : ∀ id f, (id, f) ∈ t.closed ↔
    (∃ old ∈ recs, old.id = id ∧ old.file = some f) ∧ t.map.view id = none

namespace Consistent

variable {recs : List (OpenFile File)} {t : HandleTable File}

theorem new : Consistent [] (HandleTable.new : HandleTable File) where
  wf := .new
  lists := .new
  fresh := by simp
  distinct := List.nodup_nil
  live := by simp [HandleTable.new]
  listed := fun _ => rfl
  closed_once := List.nodup_nil
  closed_iff := by simp [HandleTable.new]

theorem ids_nodup (h : Consistent recs t) : (recs.map OpenFile.id).Nodup := by
  have hvolatile : ((recs.map OpenFile.id).map FileID.volatile).Nodup := by
    rw [List.map_map]
    exact h.distinct
  exact hvolatile.of_map _

variable {m : FileHandleMap File}

theorem mem_openIDs {path : Str} {id : FileID} :
    id ∈ openIDs m recs path ↔ id ∈ recs.map OpenFile.id ∧
      ∃ of, m.view id = some of ∧ of.path = path := by
  rw [openIDs, List.mem_filter, Option.any_eq_true]
  simp only [decide_eq_true_eq]

/-- What is open at the path depends on the records of the IDs only. -/
theorem openIDs_congr {m m' : FileHandleMap File} {path : Str}
    (h : ∀ of ∈ recs, ((m'.view of.id).any fun x => x.path = path) =
      (m.view of.id).any fun x => x.path = path) : openIDs m' recs path = openIDs m recs path := by
  apply List.filter_congr
  intro id hid
  obtain ⟨of, hof, rfl⟩ := List.mem_map.mp hid
  exact h of hof

/-! ### Allocate -/

section Allocate

variable {of : OpenFile File} (h : Consistent recs t) (hid : of.id.volatile = t.map.nextHandle)

include h hid

variable {old : OpenFile File}

/-- The ID of the next record is new. -/
theorem id_ne (hold : old ∈ recs) : old.id ≠ of.id := by
  intro heq
  have hlt := h.fresh old hold
  rw [heq, hid] at hlt
  exact Nat.lt_irrefl _ hlt

theorem view_allocate_old (hold : old ∈ recs) :
    (t.map.allocate of).view old.id = t.map.view old.id := by
  rw [h.wf.view_allocate, if_neg (h.id_ne hid hold)]

theorem openIDs_allocate (path : Str) :
    openIDs (t.map.allocate of) (recs ++ [of]) path =
      openIDs t.map recs path ++ if path = of.path then [of.id] else [] := by
  have hself : (t.map.allocate of).view of.id = some of := by rw [h.wf.view_allocate, if_pos rfl]
  have hold : openIDs (t.map.allocate of) recs path = openIDs t.map recs path :=
    openIDs_congr fun old hmem => by rw [h.view_allocate_old hid hmem]
  rw [← hold]
  simp only [openIDs, List.map_append, List.filter_append]
  by_cases hp : of.path = path
  · simp [hself, hp]
  · simp [hself, hp, Ne.symm hp]

theorem allocate : Consistent (recs ++ [of]) { t with map := t.map.allocate of } := by
  constructor
  · exact h.wf.allocate hid
  · exact h.lists.allocate of
  · intro old hold
    rcases List.mem_append.mp hold with hold | hold
    · exact Nat.lt_succ_of_lt (h.fresh old hold)
    · rw [List.mem_singleton.mp hold, hid]
      exact Nat.lt_succ_self _
  · rw [List.map_append, List.nodup_append]
    refine ⟨h.distinct, List.nodup_singleton _, ?_⟩
    intro n hn n' hn' heq
    obtain ⟨old, hold, rfl⟩ := List.mem_map.mp hn
    have hlt := h.fresh old hold
    have hlast : n' = of.id.volatile := List.mem_singleton.mp hn'
    rw [heq, hlast, hid] at hlt
    exact Nat.lt_irrefl _ hlt
  · intro id x hx
    rw [h.wf.view_allocate] at hx
    split at hx
    · next hsame =>
      cases hx
      exact ⟨of, by simp, hsame.symm, rfl⟩
    · obtain ⟨old, hold, heq⟩ := h.live id x hx
      exact ⟨old, List.mem_append_left _ hold, heq⟩
  · intro path
    rw [FileHandleMap.getOpenHandlesForPath_allocate, h.openIDs_allocate hid, List.map_append,
      ← h.listed path]
    split
    · rw [← hid]; rfl
    · exact (List.append_nil _).symm
  · exact h.closed_once
  · intro id f
    rw [h.closed_iff]
    constructor
    · rintro ⟨⟨old, hold, rfl, hf⟩, hnone⟩
      refine ⟨⟨old, List.mem_append_left _ hold, rfl, hf⟩, ?_⟩
      exact (h.view_allocate_old hid hold).trans hnone
    · rintro ⟨⟨old, hold, rfl, hf⟩, hnone⟩
      rcases List.mem_append.mp hold with hold | hold
      · exact ⟨⟨old, hold, rfl, hf⟩, (h.view_allocate_old hid hold).symm.trans hnone⟩
      · -- the new record is open
        cases List.mem_singleton.mp hold
        rw [h.wf.view_allocate, if_pos rfl] at hnone
        cases hnone

end Allocate

/-! ### Release -/

/-- Taking the handle out of the list takes its ID out of the IDs. -/
theorem eraseP_map_volatile (hwf : m.WF) {ids : List FileID} (id : FileID)
    (hnodup : ids.Nodup) (hlive : ∀ i ∈ ids, ∃ of, m.view i = some of) :
    (ids.map FileID.volatile).eraseP (fun r => (m.heap r).id = id) =
      (ids.filter fun i => i ≠ id).map FileID.volatile := by
  induction ids with
  | nil => rfl
  | cons i ids ih =>
    obtain ⟨hmem, hnodup⟩ := List.nodup_cons.mp hnodup
    obtain ⟨of, hof⟩ := hlive i List.mem_cons_self
    obtain ⟨r, hr, -⟩ := FileHandleMap.view_eq_some.mp hof
    have hheap : (m.heap i.volatile).id = i := by
      rw [← hwf.ref_eq i r hr]
      exact hwf.id_eq i r hr
    by_cases hi : i = id
    · subst hi
      have hrest : ids.filter (fun j => j ≠ i) = ids := by
        apply List.filter_eq_self.mpr
        intro j hj
        have hne : j ≠ i := fun heq => hmem (heq ▸ hj)
        simpa using hne
      rw [List.map_cons, List.eraseP_cons_of_pos (by simpa using hheap),
        List.filter_cons_of_neg (by simp), hrest]
    · have hrest := ih hnodup fun j hj => hlive j (List.mem_cons_of_mem i hj)
      rw [List.map_cons, List.eraseP_cons_of_neg (by simpa [hheap] using hi), hrest,
        List.filter_cons_of_pos (by simpa using hi), List.map_cons]

theorem openIDs_release (m : FileHandleMap File) (recs : List (OpenFile File)) (id : FileID)
    (path : Str) :
    openIDs (m.release id) recs path = (openIDs m recs path).filter fun i => i ≠ id := by
  unfold openIDs
  rw [List.filter_filter]
  apply List.filter_congr
  intro i _
  rw [m.view_release]
  by_cases hi : i = id <;> simp [hi]

section Release

variable {id : FileID} {of : OpenFile File} (h : Consistent recs t) (hv : t.map.view id = some of)

include h hv

theorem listed_release (path : Str) : (t.map.release id).getOpenHandlesForPath path =
    (openIDs (t.map.release id) recs path).map FileID.volatile := by
  rw [FileHandleMap.getOpenHandlesForPath_release hv, openIDs_release, h.listed path]
  split
  · exact eraseP_map_volatile h.wf id (h.ids_nodup.filter _) fun i hi =>
      ((mem_openIDs.mp hi).2).imp fun _ hx => hx.1
  · -- the handle is open at another path
    next hne =>
    congr 1
    refine (List.filter_eq_self.mpr fun i hi => ?_).symm
    obtain ⟨-, x, hx, hp⟩ := mem_openIDs.mp hi
    have hid : i ≠ id := by
      rintro rfl
      cases hv.symm.trans hx
      exact hne hp.symm
    simpa using hid

theorem closed_once_release :
    ((t.closed ++ (of.file.map fun f => (id, f)).toList).map Prod.fst).Nodup := by
  rw [List.map_append, List.nodup_append]
  refine ⟨h.closed_once, by cases of.file <;> simp, ?_⟩
  intro i hi i' hi' heq
  obtain ⟨⟨j, f⟩, hj, rfl⟩ := List.mem_map.mp hi
  obtain ⟨⟨j', f'⟩, hj', rfl⟩ := List.mem_map.mp hi'
  obtain ⟨f'', -, heq'⟩ := Option.map_eq_some_iff.mp (Option.mem_toList.mp hj')
  cases heq'
  have hgone := ((h.closed_iff j f).mp hj).2
  rw [show j = id from heq] at hgone
  cases hv.symm.trans hgone

theorem closed_iff_release (i : FileID) (f : File) :
    (i, f) ∈ t.closed ++ (of.file.map fun f => (id, f)).toList ↔
      (∃ old ∈ recs, old.id = i ∧ old.file = some f) ∧ (t.map.release id).view i = none := by
  rw [List.mem_append, Option.mem_toList, Option.map_eq_some_iff, h.closed_iff,
    FileHandleMap.view_release]
  constructor
  · rintro (⟨hold, hnone⟩ | ⟨f', hf, heq⟩)
    · exact ⟨hold, by rw [hnone, ite_self]⟩
    · cases heq
      obtain ⟨old, hold, hid, hfile⟩ := h.live _ of hv
      exact ⟨⟨old, hold, hid, hfile.trans hf⟩, if_pos rfl⟩
  · rintro ⟨⟨old, hold, hid, hf⟩, hnone⟩
    by_cases hi : i = id
    · subst hi
      obtain ⟨old', hold', hid', hfile'⟩ := h.live _ of hv
      have hsame : old = old' :=
        List.inj_on_of_nodup_map h.ids_nodup hold hold' (hid.trans hid'.symm)
      subst hsame
      exact .inr ⟨f, hfile'.symm.trans hf, rfl⟩
    · rw [if_neg hi] at hnone
      exact .inl ⟨⟨old, hold, hid, hf⟩, hnone⟩

end Release

theorem release (h : Consistent recs t) (id : FileID) : Consistent recs (t.release id) := by
  unfold HandleTable.release
  cases hv : t.map.view id with
  | none => exact h
  | some of =>
    constructor
    · exact h.wf.release id
    · exact h.lists.release id
    · intro old hold
      rw [FileHandleMap.release_nextHandle]
      exact h.fresh old hold
    · exact h.distinct
    · intro id' x hx
      rw [FileHandleMap.view_release] at hx
      split at hx
      · cases hx
      · exact h.live id' x hx
    · exact h.listed_release hv
    · exact h.closed_once_release hv
    · exact h.closed_iff_release hv

theorem releaseAll (h : Consistent recs t) (ids : List FileID) :
    Consistent recs (t.releaseAll ids) :=
  foldl_invariant (fun _ id _ ht => ht.release id) h

/-! ### Writes to a record -/

theorem modifyID (h : Consistent recs t) (id : FileID) {f : OpenFile File → OpenFile File}
    (hid : ∀ of, (f of).id = of.id) (hpath : ∀ of, (f of).path = of.path)
    (hfile : ∀ of, (f of).file = of.file) :
    Consistent recs { t with map := t.map.modifyID id f } := by
  have hview := h.wf.view_modifyID id (f := f)
  have hnext : (t.map.modifyID id f).nextHandle = t.map.nextHandle := by
    unfold FileHandleMap.modifyID
    split <;> rfl
  constructor
  · exact h.wf.modifyID id hid
  · exact h.lists.modifyID id f
  · intro old hold
    rw [hnext]
    exact h.fresh old hold
  · exact h.distinct
  · intro i x hx
    rw [hview] at hx
    split at hx
    · next hi =>
      subst hi
      obtain ⟨y, hy, rfl⟩ := Option.map_eq_some_iff.mp hx
      rw [hfile]
      exact h.live i y hy
    · exact h.live i x hx
  · intro path
    rw [FileHandleMap.getOpenHandlesForPath_modifyID, h.listed path]
    congr 1
    refine (openIDs_congr fun old _ => ?_).symm
    rw [hview]
    split
    · next hi =>
      rw [hi]
      cases t.map.view id <;> simp [hpath]
    · rfl
  · exact h.closed_once
  · intro i f'
    rw [h.closed_iff, hview]
    split
    · next hi => rw [hi, Option.map_eq_none_iff]
    · rfl

/-- One operation. -/
theorem step (h : Consistent recs t) (op : HandleOp File) :
    Consistent (recs ++ (t.allocated op).toList) (t.step op) := by
  have hkeep : ∀ {t'}, Consistent recs t' → Consistent (recs ++ []) t' := by
    intro t' ht'
    rwa [List.append_nil]
  cases op with
  | allocate => exact h.allocate rfl
  | release id => exact hkeep (h.release id)
  | releaseBySession | releaseByTree => exact hkeep (h.releaseAll _)
  | setDeleteOnClose id | updateLastAccess id =>
    exact hkeep (h.modifyID id (fun _ => rfl) (fun _ => rfl) fun _ => rfl)

end Consistent

/-! ## Bulk releases -/

namespace HandleTable

theorem release_map (t : HandleTable File) (id : FileID) : (t.release id).map = t.map.release id := by
  unfold release
  cases hv : t.map.view id with
  | none => exact (FileHandleMap.release_of_none hv).symm
  | some of => rfl

theorem view_releaseAll (t : HandleTable File) (ids : List FileID) (id : FileID) :
    (t.releaseAll ids).map.view id = if id ∈ ids then none else t.map.view id := by
  induction ids generalizing t with
  | nil => simp [releaseAll]
  | cons i ids ih =>
    have hrest := ih (t.release i)
    rw [releaseAll] at hrest ⊢
    rw [List.foldl_cons, hrest, release_map, FileHandleMap.view_release]
    by_cases hi : id = i <;> simp [hi]

theorem view_releaseBySession (t : HandleTable File) (sessionID : UInt64)
    (order : RangeOrder FileID) (id : FileID) :
    (t.releaseBySession sessionID order).map.view id =
      (t.map.view id).filter fun of => of.sessionID ≠ sessionID := by
  simp only [releaseBySession, view_releaseAll, (order.perm _).mem_iff,
    FileHandleMap.mem_idsBySession]
  cases t.map.view id with
  | none => simp
  | some of => by_cases hof : of.sessionID = sessionID <;> simp [Option.filter_some, hof]

theorem view_releaseByTree (t : HandleTable File) (treeID : UInt32) (sessionID : UInt64)
    (order : RangeOrder FileID) (id : FileID) :
    (t.releaseByTree treeID sessionID order).map.view id =
      (t.map.view id).filter fun of => !of.inTree treeID sessionID := by
  simp only [releaseByTree, view_releaseAll, (order.perm _).mem_iff, FileHandleMap.mem_idsByTree]
  cases t.map.view id with
  | none => simp
  | some of =>
    by_cases hof : of.treeID = treeID ∧ of.sessionID = sessionID <;>
      simp [Option.filter_some, OpenFile.inTree, hof]

end HandleTable

/-! ## Every sequence of operations -/

/-- The two indexes and the closed files, against the records allocated so far. -/
structure Represents (recs : List (OpenFile File)) (t : HandleTable File) : Prop where
  /-- An ID leads to a record with that ID. -/
  id_eq : ∀ id of, t.map.view id = some of → of.id = id
  /-- No ID is given out twice. -/
  ids_once : (recs.map OpenFile.id).Nodup
  /-- The IDs that are open at a path are those of the open records with that path. -/
  open_iff : ∀ path id, id ∈ openIDs t.map recs path ↔
    ∃ of, t.map.view id = some of ∧ of.path = path
  /-- `byPath` has the path if there are any, with their records in the order of allocation. -/
  byPath_eq : ∀ path, (t.map.byPath.lookup path).map (List.map some) =
    if openIDs t.map recs path = [] then none
    else some ((openIDs t.map recs path).map t.map.handles.lookup)
  /-- No handle was closed twice. -/
  closed_once : (t.closed.map Prod.fst).Nodup
  /-- The files that were closed are those of the records that were removed. -/
  closed_iff : ∀ id f, (id, f) ∈ t.closed ↔
    (∃ old ∈ recs, old.id = id ∧ old.file = some f) ∧ t.map.view id = none

theorem Consistent.represents {recs : List (OpenFile File)} {t : HandleTable File}
    (h : Consistent recs t) : Represents recs t := by
  have hmem : ∀ path id, id ∈ openIDs t.map recs path ↔
      ∃ of, t.map.view id = some of ∧ of.path = path := by
    intro path id
    rw [Consistent.mem_openIDs]
    constructor
    · exact fun hid => hid.2
    · rintro ⟨of, hv, hp⟩
      obtain ⟨old, hold, hid, -⟩ := h.live id of hv
      exact ⟨List.mem_map.mpr ⟨old, hold, hid⟩, of, hv, hp⟩
  refine ⟨fun _ _ hv => h.wf.view_id hv, h.ids_nodup, hmem, ?_, h.closed_once, h.closed_iff⟩
  intro path
  simp only [h.lists.lookup_eq path, h.listed path, List.map_eq_nil_iff]
  split
  · rfl
  · rw [Option.map_some, List.map_map]
    congr 1
    apply List.map_congr_left
    intro id hid
    obtain ⟨of, hv, -⟩ := (hmem path id).mp hid
    obtain ⟨r, hr, -⟩ := FileHandleMap.view_eq_some.mp hv
    rw [hr, h.wf.ref_eq id r hr]
    rfl

/-- **The handle map.** After every sequence of fewer than 2^64 allocations and any
other operations the table represents the records allocated so far, and a bulk release
then removes exactly the records of the session, or of the tree. -/
theorem handle_table_represents (ops : List (HandleOp File)) :
    let t := runFrom HandleTable.step HandleTable.new ops
    Represents (collect HandleTable.step HandleTable.allocated HandleTable.new ops) t ∧
      (∀ sessionID order id, (t.releaseBySession sessionID order).map.view id =
        (t.map.view id).filter fun of => of.sessionID ≠ sessionID) ∧
      ∀ treeID sessionID order id, (t.releaseByTree treeID sessionID order).map.view id =
        (t.map.view id).filter fun of => !of.inTree treeID sessionID := by
  intro t
  refine ⟨?_, t.view_releaseBySession, t.view_releaseByTree⟩
  apply Consistent.represents
  exact runFrom_collect (I := Consistent) (fun _ _ op h => h.step op) .new ops

/-! ## The handlers -/

section Handlers

variable {B : Backend} {sh : ShareRef}

/-- The calls on the filesystems that close the files. -/
def closeCalls (closed : List (FileID × FileObj B)) : List (FsRef × FsCall B.File) :=
  closed.map fun x => (x.2.1, .close x.2.2)

theorem release_table {s : Server B} {t : HandleTable (FileObj B)} (ht : s.handlesOf sh = t.map)
    (id : FileID) : ∃ closed, (t.release id).closed = t.closed ++ closed ∧
      (stateOf (release sh id s)).handlesOf sh = (t.release id).map ∧
      (stateOf (release sh id s)).log = s.log ++ closeCalls closed := by
  simp only [release, M.run_get_bind, ht, HandleTable.release]
  cases hv : t.map.view id with
  | none => exact ⟨[], (List.append_nil _).symm, ht, (List.append_nil _).symm⟩
  | some of =>
    have hmap : (s.modifyHandles sh fun m => m.release id).handlesOf sh = t.map.release id := by
      rw [Server.handlesOf_modifyHandles, if_pos rfl, ht]
    dsimp only
    rw [M.run_modify_bind]
    cases of.file with
    | none => exact ⟨[], rfl, hmap, (List.append_nil _).symm⟩
    | some f => exact ⟨[(id, f)], rfl, hmap, rfl⟩

/-- The loop of the handlers does what it does to the table, and closes the same files. -/
theorem releaseAll_table {s : Server B} {t : HandleTable (FileObj B)} (ht : s.handlesOf sh = t.map)
    (ids : List FileID) : ∃ closed, (t.releaseAll ids).closed = t.closed ++ closed ∧
      (stateOf (releaseAll sh ids s)).handlesOf sh = (t.releaseAll ids).map ∧
      (stateOf (releaseAll sh ids s)).log = s.log ++ closeCalls closed := by
  induction ids generalizing s t with
  | nil => exact ⟨[], (List.append_nil _).symm, ht, (List.append_nil _).symm⟩
  | cons id ids ih =>
    obtain ⟨first, hfirst, hmap, hlog⟩ := release_table ht id
    obtain ⟨a, s1, hrun, -⟩ := release_releases sh id s
    rw [hrun, stateOf] at hmap hlog
    obtain ⟨rest, hrest, hmap', hlog'⟩ := ih hmap
    rw [releaseAll, stateOf_bind hrun]
    refine ⟨first ++ rest, ?_, hmap', ?_⟩
    · rw [← List.append_assoc, ← hfirst]
      exact hrest
    · rw [hlog', hlog, List.append_assoc]
      simp only [closeCalls, List.map_append]

end Handlers

end Smbfs
