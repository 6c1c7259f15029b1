import Smbfs.System.Handles
import Smbfs.System.Samples

/-!
Share modes of handles that are open on the same path.

* `share_modes_hold`: without renames the effective rights of any two are
  compatible, in runs whose CREATE requests spell out the rights that the share
  check looks at;
* `generic_rights_share`: the check compares generic rights as they are sent,
  so they pass it unseen.
-/

namespace Smbfs

open Smbfs.Lib Relation

variable {B : Backend} {P : Platform} {k : ConnId} {msg : SMB2Message} {o : Oracle}
  {s0 s s' : Server B}

/-! ## Rights -/

theorem checkShareCompatibility_symm (a x b y : UInt32) :
    checkShareCompatibility a x b y = checkShareCompatibility b y a x := by
  simp only [checkShareCompatibility]
  cases hasBits a fileReadData && !hasBits y fileShareRead <;>
    cases hasBits a fileWriteData && !hasBits y fileShareWrite <;>
    cases hasBits a delete && !hasBits y fileShareDelete <;> simp

/-- The access asks for the rights of the share check explicitly: mapping
generic rights adds none of them. -/
def SpecificRights (access : UInt32) : Prop :=
  hasBits (mapGenericAccess access) fileReadData = hasBits access fileReadData ∧
    hasBits (mapGenericAccess access) fileWriteData = hasBits access fileWriteData ∧
    hasBits (mapGenericAccess access) delete = hasBits access delete

instance (access : UInt32) : Decidable (SpecificRights access) := by
  delta SpecificRights
  infer_instance

theorem checkShareCompatibility_map {a b : UInt32} (ha : SpecificRights a) (hb : SpecificRights b)
    (x y : UInt32) : checkShareCompatibility (mapGenericAccess a) x (mapGenericAccess b) y =
      checkShareCompatibility a x b y := by
  obtain ⟨har, haw, had⟩ := ha
  obtain ⟨hbr, hbw, hbd⟩ := hb
  simp only [checkShareCompatibility, har, haw, had, hbr, hbw, hbd]

/-! ## One handle map -/

section Map

variable {File : Type} {m : FileHandleMap File}

/-- The records of two handles agree on what the share check compares. -/
def Compatible (of of' : OpenFile File) : Prop :=
  of.path = of'.path →
    checkShareCompatibility of.access of.shareAccess of'.access of'.shareAccess = true

theorem Compatible.symm {of of' : OpenFile File} (h : Compatible of of') : Compatible of' of :=
  fun hp => (checkShareCompatibility_symm _ _ _ _).trans (h hp.symm)

/-- Every open handle is listed under its path, and any two are compatible. -/
structure Exclusive (m : FileHandleMap File) : Prop where
  listed : ∀ id r, m.handles.lookup id = some r → r ∈ (m.byPath.lookup (m.heap r).path).getD []
  compatible : ∀ id id' of of', id ≠ id' → m.view id = some of → m.view id' = some of' →
    Compatible of of'

theorem Exclusive.new : Exclusive (newFileHandleMap File) := by
  constructor
  · intro id r hr
    simp [newFileHandleMap] at hr
  · intro id id' of of' _ hv
    simp at hv

/-- The share check looks at every open handle of the path. -/
theorem Exclusive.check (h : Exclusive m) {of : OpenFile File}
    (hcheck : m.checkShareAccess of.path of.access of.shareAccess = true) {id : FileID}
    {of' : OpenFile File} (hv : m.view id = some of') : Compatible of of' := by
  intro hp
  obtain ⟨r, hr, rfl⟩ := FileHandleMap.view_eq_some.mp hv
  have hlisted := h.listed id r hr
  rw [← hp] at hlisted
  exact List.all_eq_true.mp hcheck r hlisted

/-- A new handle that is compatible with those that are open. -/
theorem Exclusive.allocate (hwf : m.WF) (h : Exclusive m) {of : OpenFile File}
    (hcompat : ∀ id of', m.view id = some of' → Compatible of of') : Exclusive (m.allocate of) := by
  constructor
  · intro id r hr
    simp only [FileHandleMap.allocate, GoMap.lookup_insert] at hr ⊢
    split at hr
    · cases hr
      simp
    · have hne : r ≠ m.nextHandle := Nat.ne_of_lt (hwf.lt_next id r hr)
      have hold := h.listed id r hr
      rw [Function.update_of_ne hne]
      split
      · next hp => rw [hp] at hold; simp [hold]
      · exact hold
  · intro id id' of1 of2 hne hv hv'
    rw [hwf.view_allocate] at hv hv'
    split at hv <;> split at hv'
    · next h1 h2 => exact absurd (h1.trans h2.symm) hne
    · cases hv
      exact hcompat id' of2 hv'
    · cases hv'
      exact (hcompat id of1 hv).symm
    · exact h.compatible id id' of1 of2 hne hv hv'

theorem Exclusive.release (hwf : m.WF) (h : Exclusive m) (id : FileID) :
    Exclusive (m.release id) := by
  constructor
  · intro id' r' hr'
    rw [FileHandleMap.lookup_release] at hr'
    split at hr'
    · cases hr'
    · next hne =>
      have hold := h.listed id' r' hr'
      unfold FileHandleMap.release
      split
      · exact hold
      · next r hr =>
        -- the record taken out of the list has the ID `id`, so `r'` stays
        have hid : ¬ ((m.heap r').id = id) := by rw [hwf.id_eq id' r' hr']; exact hne
        by_cases hp : (m.heap r').path = (m.heap r).path
        · rw [hp] at hold ⊢
          have hmem : r' ∈ ((m.byPath.lookup (m.heap r).path).getD []).eraseP
              fun x => decide ((m.heap x).id = id) :=
            (List.mem_eraseP_of_neg (by simpa using hid)).mpr hold
          simp only [FileHandleMap.unlist, List.ne_nil_of_mem hmem, if_false, GoMap.lookup_insert,
            if_true, Option.getD_some]
          exact hmem
        · simp only [FileHandleMap.unlist]
          split
          · rw [GoMap.lookup_erase, if_neg hp]
            exact hold
          · rw [GoMap.lookup_insert, if_neg hp]
            exact hold
  · intro id1 id2 of1 of2 hne hv hv'
    rw [FileHandleMap.view_release] at hv hv'
    split at hv
    · cases hv
    · split at hv'
      · cases hv'
      · exact h.compatible id1 id2 of1 of2 hne hv hv'

/-- A write that keeps the path and the modes. -/
theorem Exclusive.modifyID (hwf : m.WF) (h : Exclusive m) (id : FileID)
    {f : OpenFile File → OpenFile File} (hpath : ∀ of, (f of).path = of.path)
    (haccess : ∀ of, (f of).access = of.access)
    (hshare : ∀ of, (f of).shareAccess = of.shareAccess) : Exclusive (m.modifyID id f) := by
  have hview : ∀ id' of, (m.modifyID id f).view id' = some of → ∃ old, m.view id' = some old ∧
      of.path = old.path ∧ of.access = old.access ∧ of.shareAccess = old.shareAccess := by
    intro id' of hv
    rw [hwf.view_modifyID] at hv
    split at hv
    · next hid =>
      obtain ⟨old, hold, rfl⟩ := Option.map_eq_some_iff.mp hv
      exact ⟨old, hid ▸ hold, hpath old, haccess old, hshare old⟩
    · exact ⟨of, hv, rfl, rfl, rfl⟩
  constructor
  · intro id' r' hr'
    rw [FileHandleMap.modifyID_handles] at hr'
    have hold := h.listed id' r' hr'
    unfold FileHandleMap.modifyID
    split
    · exact hold
    · next r _ =>
      have hp : ((m.modify r f).heap r').path = (m.heap r').path := by
        by_cases hrr : r' = r
        · subst hrr
          simp [FileHandleMap.modify, hpath]
        · simp [FileHandleMap.modify, hrr]
      rw [hp]
      exact hold
  · intro id1 id2 of1 of2 hne hv hv' hp
    obtain ⟨old1, hold1, hp1, ha1, hs1⟩ := hview id1 of1 hv
    obtain ⟨old2, hold2, hp2, ha2, hs2⟩ := hview id2 of2 hv'
    rw [ha1, hs1, ha2, hs2]
    exact h.compatible id1 id2 old1 old2 hne hold1 hold2 (by rw [← hp1, ← hp2, hp])

end Map

/-! ## All handle maps -/

/-- The message asks for no rename. -/
def NoRename (_ : Server B) (msg : SMB2Message) (_ : Oracle) : Prop :=
  msg.cmd = .setInfo → renameTarget msg.payload = none

/-- A CREATE asks for specific rights. -/
def SpecificCreate (_ : Server B) (msg : SMB2Message) (_ : Oracle) : Prop :=
  msg.cmd = .create → SpecificRights msg.create.desiredAccess

instance : Decidable (NoRename s msg o) :=
  inferInstanceAs (Decidable (msg.cmd = .setInfo → renameTarget msg.payload = none))

instance : Decidable (SpecificCreate s msg o) := by
  delta SpecificCreate
  infer_instance

/-- Any two handles that are open on one path of a share are compatible in
their effective rights. -/
def ShareModesHold (s : Server B) : Prop :=
  ∀ sh id id' of of', id ≠ id' → (s.handlesOf sh).view id = some of →
    (s.handlesOf sh).view id' = some of' → of.path = of'.path →
    checkShareCompatibility (mapGenericAccess of.access) of.shareAccess
      (mapGenericAccess of'.access) of'.shareAccess = true

def AllExclusive (s : Server B) : Prop := ∀ sh, Exclusive (s.handlesOf sh)

namespace AllExclusive

theorem modifyHandles (h : AllExclusive s) (sh : ShareRef)
    {f : B.FileHandleMap → B.FileHandleMap}
    (hf : Exclusive (f (s.handlesOf sh))) : AllExclusive (s.modifyHandles sh f) := by
  intro sh'
  rw [Server.handlesOf_modifyHandles]
  split
  · exact hf
  · exact h sh'

theorem change (hn : NoRename s0 msg o) (ht : Tables s) (h : AllExclusive s)
    (hc : Change P k msg o s0 s s') : AllExclusive s' := by
  cases hc with
  | allocate file isDir _ _ _ hcheck hheap =>
    refine h.modifyHandles _ ((h _).allocate (ht.handles _) fun _ _ hv => (h _).check ?_ hv)
    simp only [Server.handlesOf, hheap]
    exact hcheck
  | edit _ he =>
    refine h.modifyHandles _ ?_
    cases he with
    | lastAccess | deleteOnClose =>
      exact (h _).modifyID (ht.handles _) _ (fun _ => rfl) (fun _ => rfl) fun _ => rfl
    | path hcmd _ hname => cases (hn hcmd).symm.trans hname
  | release => exact h.modifyHandles _ ((h _).release (ht.handles _) _)
  | _ => exact h

theorem handleMessage (hn : NoRename s msg o) (ht : Tables s) (h : AllExclusive s) :
    AllExclusive (handleMessage P k msg o s).2 :=
  (chain_invariant (I := fun t => Tables t ∧ AllExclusive t) (handleMessage_chain ht.handles)
    (fun _ _ hc hi => ⟨ht.change hi.1 hc, hi.2.change hn hi.1 hc⟩) ⟨ht, h⟩).2

theorem cleanupTick (ht : Tables s) (h : AllExclusive s) (now : GoTime) :
    AllExclusive (stateOf (cleanupTick now s)) := by
  refine (chain_invariant (I := fun t => Tables t ∧ AllExclusive t) (cleanupTick_runs now).chain
    (fun t t' hc hi => ⟨hi.1.sweep hc, ?_⟩) ⟨ht, h⟩).2
  cases hc with
  | release sh id => exact hi.2.modifyHandles _ ((hi.2 _).release (hi.1.handles _) _)
  | _ => exact hi.2

theorem addShare (h : AllExclusive s) (fs : Option FsRef) (options : ShareOptions) :
    AllExclusive (s.addShare fs options) := by
  intro sh
  rcases addShare_cases s fs options sh with heq | heq <;> rw [Server.handlesOf, heq]
  · exact h sh
  · exact .new

theorem step {sys : System B} {e : Event} (ht : Tables sys.server) (h : AllExclusive sys.server)
    (hn : sys.OnMessage NoRename e) : AllExclusive (sys.step P e).server := by
  refine step_keeps (fun _ _ _ hs => hs) ?_ (fun fs options hs => hs.addShare fs options)
    (fun _ _ hs => hs) (fun now hs => hs.cleanupTick ht now) h
  rintro k msg o c rfl hcr hs
  exact handleMessage (s := sys.server.setConn k c) (hn hcr) (ht.setConn k c) hs

end AllExclusive

/-! ## Runs -/

/-- Every open handle has specific rights. -/
def HasSpecificRights (_ : ShareOptions) (of : B.OpenFile) : Prop :=
  SpecificRights of.access

theorem specificRights_step {sys : System B} {e : Event} (ht : Tables sys.server)
    (h : AllHandles HasSpecificRights sys.server) (hcond : sys.OnMessage SpecificCreate e) :
    AllHandles HasSpecificRights (sys.step P e).server := by
  refine h.step ht e ?_ ?_
  · rintro k msg o rfl hcr sh of ⟨r, tree, name, file, isDir, -, hcmd, -, -, -, rfl⟩
    exact hcond hcr hcmd
  · rintro k msg o rfl hcr sh id old new ⟨r, tree, of, f, -, he, -, rfl⟩ hold
    cases he <;> exact hold

/-- **Share modes.** In every state of a run without renames, with fewer than 2^64
allocations per share, whose CREATE requests ask for specific rights, any two handles
open on one path of a share grant each other's effective rights. -/
theorem share_modes_hold (options : ServerOptions) (rand : Bytes) (disks : FsRef → B.Disk)
    (es : List Event)
    (hnorename : Along (System.step P) (System.OnMessage NoRename) (.initial options rand disks) es)
    (hcond : Along (System.step P) (System.OnMessage SpecificCreate)
      (.initial options rand disks) es) :
    Always (System.step P) (fun sys => ShareModesHold sys.server) (.initial options rand disks)
      es := by
  refine always_of_along (I := fun sys => Tables sys.server ∧ AllExclusive sys.server ∧
    AllHandles HasSpecificRights sys.server) ?_ ?_ ?_ (along_and hnorename hcond)
  · rintro sys e ⟨ht, hexclusive, hrights⟩ ⟨hn, hc⟩
    exact ⟨ht.step e, hexclusive.step ht hn, specificRights_step ht hrights hc⟩
  · rintro sys ⟨-, hexclusive, hrights⟩ sh id id' of of' hne hv hv' hp
    rw [checkShareCompatibility_map (hrights sh id of hv) (hrights sh id' of' hv')]
    exact (hexclusive sh).compatible id id' of of' hne hv hv' hp
  · exact ⟨.initial options rand disks, fun _ => .new, .initial options rand disks⟩

/-- A guest opens the file `f` twice. -/
def openedTwice (access share : UInt32) : List Event :=
  sampleLogin false ++ List.replicate 2 (sent (createRequest 7 1 ['f'] access share 1 0))

/-- Two readers that share reading open one file. -/
theorem share_modes_two_readers :
    Always (System.step samplePlatform) (fun sys => ShareModesHold sys.server) sampleSystem
      (openedTwice 1 1) :=
  share_modes_hold _ _ _ _ (by decide +kernel) (by decide +kernel)

/-- Two CREATE requests for `GENERIC_READ` that share nothing both succeed. -/
theorem generic_rights_share :
    Along (System.step samplePlatform) (System.OnMessage NoRename) sampleSystem
      (openedTwice genericRead 0) ∧
    ¬ Always (System.step samplePlatform) (fun sys => ShareModesHold sys.server) sampleSystem
      (openedTwice genericRead 0) := by
  refine ⟨by decide +kernel, fun h => ?_⟩
  let m := (runFrom (System.step samplePlatform) sampleSystem
    (openedTwice genericRead 0)).server.handlesOf 1
  have hopen : ∀ n ∈ [1, 2], (m.view ⟨1, n⟩).map (fun of => (of.path, of.access, of.shareAccess)) =
      some (['f'], genericRead, 0) := by decide +kernel
  obtain ⟨of, hv, heq⟩ := Option.map_eq_some_iff.mp (hopen 1 (by decide))
  obtain ⟨of', hv', heq'⟩ := Option.map_eq_some_iff.mp (hopen 2 (by decide))
  simp only [Prod.mk.injEq] at heq heq'
  have hcompat := h.last 1 ⟨1, 1⟩ ⟨1, 2⟩ of of' (by decide) hv hv' (heq.1.trans heq'.1.symm)
  rw [heq.2.1, heq.2.2, heq'.2.1, heq'.2.2] at hcompat
  exact absurd hcompat (by decide)

end Smbfs
