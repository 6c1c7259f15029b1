import Smbfs.Server.HandleMap

/-!
The `byPath` table of a handle map: which handles the operations list under a
path. A handle is listed under the path of its record when it is allocated, and
`Release` looks for it under the path that the record has by then.

* `Filed`: the handles are listed under one path each, which need not be the
  path of the record;
* `mem_allocate`, `mem_release`: what the operations list;
* `idsForPath`: the handles listed under a path, by their IDs.
-/

namespace Smbfs

open Smbfs.Lib

namespace FileHandleMap

variable {File : Type}

def getOpenHandlesForPath (m : FileHandleMap File) (path : Str) : List HandleRef :=
  (m.byPath.lookup path).getD []

variable {m : FileHandleMap File} {id : FileID} {of : OpenFile File} {path : Str}

/-- The share check looks at the handles that are listed under the path. -/
theorem checkShareAccess_iff {access share : UInt32} :
    m.checkShareAccess path access share = true ↔ ∀ r ∈ m.getOpenHandlesForPath path,
      checkShareCompatibility access share (m.heap r).access (m.heap r).shareAccess = true :=
  List.all_eq_true

theorem getOpenHandlesForPath_new (path : Str) :
    (newFileHandleMap File).getOpenHandlesForPath path = [] := rfl

theorem getOpenHandlesForPath_allocate (m : FileHandleMap File) (of : OpenFile File) (path : Str) :
    (m.allocate of).getOpenHandlesForPath path =
      if path = of.path then m.getOpenHandlesForPath path ++ [m.nextHandle]
      else m.getOpenHandlesForPath path := by
  simp only [getOpenHandlesForPath, allocate, GoMap.lookup_insert]
  split
  · next h => rw [h]; rfl
  · rfl

theorem getOpenHandlesForPath_modifyID (m : FileHandleMap File) (id : FileID)
    (f : OpenFile File → OpenFile File) (path : Str) :
    (m.modifyID id f).getOpenHandlesForPath path = m.getOpenHandlesForPath path := by
  unfold modifyID
  split <;> rfl

theorem release_of_none (h : m.view id = none) : m.release id = m := by
  rw [release, Option.map_eq_none_iff.mp h]

theorem getOpenHandlesForPath_release (h : m.view id = some of) (path : Str) :
    (m.release id).getOpenHandlesForPath path =
      if path = of.path then (m.getOpenHandlesForPath path).eraseP fun r => (m.heap r).id = id
      else m.getOpenHandlesForPath path := by
  obtain ⟨r, hr, rfl⟩ := view_eq_some.mp h
  simp only [getOpenHandlesForPath, release, hr, unlist]
  by_cases hp : path = (m.heap r).path
  · rw [if_pos hp, hp]
    split
    · next hnil => rw [GoMap.lookup_erase, if_pos rfl, hnil]; rfl
    · rw [GoMap.lookup_insert, if_pos rfl]; rfl
  · rw [if_neg hp]
    split
    · rw [GoMap.lookup_erase, if_neg hp]
    · rw [GoMap.lookup_insert, if_neg hp]

/-! ## Empty lists -/

/-- No path has an empty list. -/
def NoEmptyList (m : FileHandleMap File) : Prop := ∀ path, m.byPath.lookup path ≠ some []

theorem NoEmptyList.new : NoEmptyList (newFileHandleMap File) := by
  intro path h
  cases h

theorem NoEmptyList.allocate (h : m.NoEmptyList) (of : OpenFile File) :
    (m.allocate of).NoEmptyList := by
  intro path hnil
  simp only [FileHandleMap.allocate, GoMap.lookup_insert] at hnil
  split at hnil
  · simp at hnil
  · exact h path hnil

theorem NoEmptyList.modifyID (h : m.NoEmptyList) (id : FileID) (f : OpenFile File → OpenFile File) :
    (m.modifyID id f).NoEmptyList := by
  unfold FileHandleMap.modifyID
  split <;> exact h

theorem NoEmptyList.release (h : m.NoEmptyList) (id : FileID) : (m.release id).NoEmptyList := by
  unfold FileHandleMap.release
  split
  · exact h
  · intro path hnil
    simp only [unlist] at hnil
    split at hnil
    · rw [GoMap.lookup_erase] at hnil
      split at hnil
      · cases hnil
      · exact h path hnil
    · next hne =>
      rw [GoMap.lookup_insert] at hnil
      split at hnil
      · exact hne (Option.some_inj.mp hnil)
      · exact h path hnil

/-- A path is in the table exactly if handles are listed under it. -/
theorem NoEmptyList.lookup_eq (h : m.NoEmptyList) (path : Str) :
    m.byPath.lookup path = if m.getOpenHandlesForPath path = [] then none
      else some (m.getOpenHandlesForPath path) := by
  have hp := h path
  unfold getOpenHandlesForPath
  cases hl : m.byPath.lookup path with
  | none => rfl
  | some l =>
    have hne : l ≠ [] := fun hnil => hp (by rw [hl, hnil])
    exact (if_neg hne).symm

/-! ## Listed handles

What holds whatever becomes of the paths of the records. -/

/-- A handle is listed once and under one path, and every open handle is listed. -/
structure Filed (m : FileHandleMap File) : Prop where
  nodup : ∀ path, (m.getOpenHandlesForPath path).Nodup
  path_eq : ∀ r p q, r ∈ m.getOpenHandlesForPath p → r ∈ m.getOpenHandlesForPath q → p = q
  lt_next : ∀ r path, r ∈ m.getOpenHandlesForPath path → r < m.nextHandle
  volatile_eq : ∀ r path, r ∈ m.getOpenHandlesForPath path → (m.heap r).id.volatile = r
  exists_path : ∀ id, m.view id ≠ none → ∃ path, id.volatile ∈ m.getOpenHandlesForPath path

theorem Filed.new : Filed (newFileHandleMap File) := by
  constructor <;> simp [getOpenHandlesForPath_new]

theorem mem_allocate {r : HandleRef} :
    r ∈ (m.allocate of).getOpenHandlesForPath path ↔
      r ∈ m.getOpenHandlesForPath path ∨ (path = of.path ∧ r = m.nextHandle) := by
  rw [getOpenHandlesForPath_allocate]
  split
  · next h => simp [h]
  · next h => simp [h]

theorem eraseP_congr_mem {α : Type} {l : List α} {p q : α → Bool} (h : ∀ a ∈ l, p a = q a) :
    l.eraseP p = l.eraseP q := by
  induction l with
  | nil => rfl
  | cons a l ih =>
    rw [List.eraseP_cons, List.eraseP_cons, h a List.mem_cons_self,
      ih fun b hb => h b (List.mem_cons_of_mem a hb)]

/-- `Release` looks for the handle under the path of its record only. -/
theorem mem_release (hwf : m.WF) (h : m.Filed) (hv : m.view id = some of) {r : HandleRef} :
    r ∈ (m.release id).getOpenHandlesForPath path ↔
      r ∈ m.getOpenHandlesForPath path ∧ ¬ (path = of.path ∧ r = id.volatile) := by
  rw [getOpenHandlesForPath_release hv]
  split
  · next hpath =>
    -- among the listed handles, the one with the ID is the one with its number
    have hid : ∀ r ∈ m.getOpenHandlesForPath path, ((m.heap r).id = id ↔ r = id.volatile) := by
      intro r hr
      constructor
      · intro hid
        rw [← hid]
        exact (h.volatile_eq r path hr).symm
      · rintro rfl
        obtain ⟨r', hr', -⟩ := view_eq_some.mp hv
        rw [← hwf.ref_eq id r' hr']
        exact hwf.id_eq id r' hr'
    have herase : (m.getOpenHandlesForPath path).eraseP (fun r => (m.heap r).id = id) =
        (m.getOpenHandlesForPath path).erase id.volatile := by
      rw [List.erase_eq_eraseP']
      refine eraseP_congr_mem fun r hr => ?_
      rw [decide_eq_decide.mpr (hid r hr)]
      exact Bool.beq_eq_decide_eq r id.volatile |>.symm
    rw [herase, (h.nodup path).mem_erase_iff]
    simp [hpath, and_comm]
  · next hpath => simp [hpath]

theorem Filed.allocate (hwf : m.WF) (h : m.Filed)
    (hid : of.id.volatile = m.nextHandle) : (m.allocate of).Filed := by
  have hfresh : ∀ p, m.nextHandle ∉ m.getOpenHandlesForPath p :=
    fun p hmem => Nat.lt_irrefl _ (h.lt_next _ p hmem)
  refine ⟨fun path => ?_, fun r p q hp hq => ?_, fun r path hr => ?_, fun r path hr => ?_,
    fun id hv => ?_⟩
  · rw [getOpenHandlesForPath_allocate]
    split
    · exact List.nodup_append.mpr ⟨h.nodup path, List.nodup_singleton _, fun r hr r' hr' => by
        rw [List.mem_singleton] at hr'
        rintro rfl
        exact hfresh path (hr' ▸ hr)⟩
    · exact h.nodup path
  · rcases mem_allocate.mp hp with hp | ⟨rfl, rfl⟩ <;> rcases mem_allocate.mp hq with hq | ⟨rfl, hr⟩
    · exact h.path_eq r p q hp hq
    · exact absurd (hr ▸ hp) (hfresh p)
    · exact absurd hq (hfresh q)
    · rfl
  · rcases mem_allocate.mp hr with hr | ⟨-, rfl⟩
    · exact Nat.lt_succ_of_lt (h.lt_next r path hr)
    · exact Nat.lt_succ_self _
  · rcases mem_allocate.mp hr with hr | ⟨-, rfl⟩
    · have hne : r ≠ m.nextHandle := Nat.ne_of_lt (h.lt_next r path hr)
      simp only [FileHandleMap.allocate, Function.update_of_ne hne]
      exact h.volatile_eq r path hr
    · simpa [FileHandleMap.allocate] using hid
  · rw [hwf.view_allocate] at hv
    split at hv
    · next heq => exact ⟨of.path, mem_allocate.mpr (.inr ⟨rfl, by rw [heq, hid]⟩)⟩
    · obtain ⟨path, hpath⟩ := h.exists_path id hv
      exact ⟨path, mem_allocate.mpr (.inl hpath)⟩

theorem nextHandle_modifyID (m : FileHandleMap File) (id : FileID)
    (f : OpenFile File → OpenFile File) : (m.modifyID id f).nextHandle = m.nextHandle := by
  unfold modifyID
  split <;> rfl

variable {f : OpenFile File → OpenFile File}

theorem heap_id_modifyID (m : FileHandleMap File) (id : FileID)
    (hf : ∀ of, (f of).id = of.id) (r : HandleRef) :
    ((m.modifyID id f).heap r).id = (m.heap r).id := by
  unfold modifyID
  split
  · rfl
  · next r' _ =>
    by_cases hr : r = r'
    · subst hr
      simp [modify, hf]
    · simp [modify, hr]

theorem Filed.modifyID (hwf : m.WF) (h : m.Filed) (id : FileID)
    (hf : ∀ of, (f of).id = of.id) : (m.modifyID id f).Filed := by
  constructor <;> simp only [getOpenHandlesForPath_modifyID, nextHandle_modifyID,
    heap_id_modifyID m id hf]
  · exact h.nodup
  · exact h.path_eq
  · exact h.lt_next
  · exact h.volatile_eq
  · intro id' hv
    refine h.exists_path id' fun hnone => hv ?_
    rw [hwf.view_modifyID]
    split
    · next heq => rw [← heq, hnone]; rfl
    · exact hnone

theorem Filed.release (hwf : m.WF) (h : m.Filed) (id : FileID) : (m.release id).Filed := by
  cases hv : m.view id with
  | none =>
    rw [release_of_none hv]
    exact h
  | some of =>
    have hold : ∀ r path, r ∈ (m.release id).getOpenHandlesForPath path →
        r ∈ m.getOpenHandlesForPath path := fun r path hr => ((mem_release hwf h hv).mp hr).1
    refine ⟨fun path => ?_, fun r p q hp hq => h.path_eq r p q (hold r p hp) (hold r q hq),
      fun r path hr => ?_, fun r path hr => ?_, fun id' hv' => ?_⟩
    · rw [getOpenHandlesForPath_release hv]
      split
      · exact (h.nodup path).sublist List.eraseP_sublist
      · exact h.nodup path
    · rw [release_nextHandle]
      exact h.lt_next r path (hold r path hr)
    · rw [release_heap]
      exact h.volatile_eq r path (hold r path hr)
    · rw [view_release] at hv'
      split at hv'
      · exact absurd rfl hv'
      · next hne =>
        obtain ⟨path, hpath⟩ := h.exists_path id' hv'
        refine ⟨path, (mem_release hwf h hv).mpr ⟨hpath, fun heq => hne ?_⟩⟩
        -- open handles with the same number are the same
        obtain ⟨r, hr, -⟩ := view_eq_some.mp hv
        obtain ⟨of', hof'⟩ := Option.ne_none_iff_exists'.mp hv'
        obtain ⟨r', hr', -⟩ := view_eq_some.mp hof'
        have hrr : r' = r := by rw [hwf.ref_eq _ _ hr', hwf.ref_eq _ _ hr, heq.2]
        subst hrr
        exact (hwf.id_eq _ _ hr').symm.trans (hwf.id_eq _ _ hr)

/-! ## Listed IDs -/

/-- The IDs of the records that `GetOpenHandlesForPath` returns. -/
def idsForPath (m : FileHandleMap File) (path : Str) : List FileID :=
  (m.getOpenHandlesForPath path).map fun r => (m.heap r).id

theorem Filed.mem_idsForPath (h : m.Filed) :
    id ∈ m.idsForPath path ↔
      id.volatile ∈ m.getOpenHandlesForPath path ∧ (m.heap id.volatile).id = id := by
  rw [idsForPath, List.mem_map]
  constructor
  · rintro ⟨r, hr, rfl⟩
    rw [h.volatile_eq r path hr]
    exact ⟨hr, rfl⟩
  · rintro ⟨hr, hid⟩
    exact ⟨id.volatile, hr, hid⟩

theorem Filed.ids_path_eq (h : m.Filed) {p q : Str} (hp : id ∈ m.idsForPath p)
    (hq : id ∈ m.idsForPath q) : p = q :=
  h.path_eq _ p q (h.mem_idsForPath.mp hp).1 (h.mem_idsForPath.mp hq).1

theorem Filed.ids_lt_next (h : m.Filed) (hid : id ∈ m.idsForPath path) :
    id.volatile < m.nextHandle :=
  h.lt_next _ path (h.mem_idsForPath.mp hid).1

theorem Filed.mem_ids_allocate (h : m.Filed) :
    id ∈ (m.allocate of).idsForPath path ↔
      id ∈ m.idsForPath path ∨ (path = of.path ∧ id = of.id) := by
  have hheap : ∀ r ∈ m.getOpenHandlesForPath path, (m.allocate of).heap r = m.heap r :=
    fun r hr => Function.update_of_ne (Nat.ne_of_lt (h.lt_next r path hr)) ..
  have hnew : (m.allocate of).heap m.nextHandle = of := Function.update_self ..
  rw [idsForPath, idsForPath, List.mem_map, List.mem_map]
  constructor
  · rintro ⟨r, hr, rfl⟩
    rcases mem_allocate.mp hr with hr | ⟨hpath, rfl⟩
    · exact .inl ⟨r, hr, by rw [hheap r hr]⟩
    · exact .inr ⟨hpath, by rw [hnew]⟩
  · rintro (⟨r, hr, rfl⟩ | ⟨hpath, rfl⟩)
    · exact ⟨r, mem_allocate.mpr (.inl hr), by rw [hheap r hr]⟩
    · exact ⟨m.nextHandle, mem_allocate.mpr (.inr ⟨hpath, rfl⟩), by rw [hnew]⟩

theorem idsForPath_modifyID (m : FileHandleMap File) (id : FileID)
    (hf : ∀ of, (f of).id = of.id) (path : Str) :
    (m.modifyID id f).idsForPath path = m.idsForPath path := by
  simp only [idsForPath, getOpenHandlesForPath_modifyID, heap_id_modifyID m id hf]

theorem Filed.mem_ids_release (hwf : m.WF) (h : m.Filed) {id id' : FileID}
    (hv : m.view id = some of) :
    id' ∈ (m.release id).idsForPath path ↔
      id' ∈ m.idsForPath path ∧ ¬ (path = of.path ∧ id' = id) := by
  rw [(h.release hwf id).mem_idsForPath, h.mem_idsForPath, release_heap, mem_release hwf h hv]
  obtain ⟨r, hr, -⟩ := view_eq_some.mp hv
  have hid : (m.heap id.volatile).id = id := by
    rw [← hwf.ref_eq id r hr]
    exact hwf.id_eq id r hr
  constructor
  · rintro ⟨⟨hmem, hne⟩, heq⟩
    exact ⟨⟨hmem, heq⟩, fun ⟨hpath, hid'⟩ => hne ⟨hpath, hid' ▸ rfl⟩⟩
  · rintro ⟨⟨hmem, heq⟩, hne⟩
    refine ⟨⟨hmem, fun ⟨hpath, hvol⟩ => hne ⟨hpath, ?_⟩⟩, heq⟩
    rw [← heq, hvol, hid]

end FileHandleMap

end Smbfs
