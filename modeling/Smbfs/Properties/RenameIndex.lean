import Smbfs.System.HandleSteps
import Smbfs.System.Samples
import Smbfs.System.Request

/-!
Renames and the table of paths. A rename writes the new path into the record of
the handle and leaves `byPath` as it is, so a handle stays listed under the path
it was opened under.

* `Tidy`: the handle is listed where its record says, and not at all once it is
  closed; every operation keeps this, but for a rename of the handle;
* `openedAs_listed`: in every reachable state, an open handle is listed under the
  path it was opened under;
* `rename_indexed_iff`: a rename leaves the table right exactly if it goes back to
  that path;
* `rename_leaves_phantom`: a file that is renamed and closed still refuses to be
  opened under its old name.
-/

namespace Smbfs

open Smbfs.Lib Relation

/-! ## One handle in the map -/

namespace FileHandleMap

variable {File : Type}

/-- The handle has been given out and closed. -/
def Gone (m : FileHandleMap File) (id : FileID) : Prop :=
  id.volatile < m.nextHandle ∧ m.view id = none

/-- The handle has been given out, and is closed or listed under the path. -/
def ListedUnder (m : FileHandleMap File) (id : FileID) (path : Str) : Prop :=
  id.volatile < m.nextHandle ∧ (m.view id = none ∨ id ∈ m.idsForPath path)

/-- An open handle is listed under the path of its record, a closed one nowhere. -/
structure Tidy (m : FileHandleMap File) (id : FileID) : Prop where
  listed : ∀ of, m.view id = some of → id ∈ m.idsForPath of.path
  unlisted : m.view id = none → ∀ path, id ∉ m.idsForPath path

/-- A handle that has not been given out is not listed. -/
theorem Tidy.of_fresh {m : FileHandleMap File} (hf : m.Filed) (hwf : m.WF) {id : FileID}
    (hid : m.nextHandle ≤ id.volatile) : m.Tidy id := by
  refine ⟨fun of hv => ?_, fun _ path hmem => ?_⟩
  · exact absurd (hwf.view_volatile_lt hv) (Nat.not_lt.mpr hid)
  · exact absurd (hf.ids_lt_next hmem) (Nat.not_lt.mpr hid)

section Tidy

variable {m : FileHandleMap File} {id : FileID} (ht : m.Tidy id) (hwf : m.WF)

include ht hwf

theorem Tidy.allocate (hf : m.Filed) (of : OpenFile File) : (m.allocate of).Tidy id := by
  constructor
  · intro of' hv
    rw [hwf.view_allocate] at hv
    split at hv
    · next heq =>
      cases hv
      exact hf.mem_ids_allocate.mpr (.inr ⟨rfl, heq⟩)
    · exact hf.mem_ids_allocate.mpr (.inl (ht.listed of' hv))
  · intro hnone path hmem
    rw [hwf.view_allocate] at hnone
    split at hnone
    · cases hnone
    · next hne =>
      rcases hf.mem_ids_allocate.mp hmem with hmem | ⟨-, heq⟩
      · exact ht.unlisted hnone path hmem
      · exact hne heq

/-- A write to a record that keeps the path of this handle. -/
theorem Tidy.modifyID {id' : FileID} {f : OpenFile File → OpenFile File}
    (hf : ∀ of, (f of).id = of.id) (hpath : id = id' → ∀ of, (f of).path = of.path) :
    (m.modifyID id' f).Tidy id := by
  constructor
  · intro of' hv
    rw [idsForPath_modifyID m id' hf]
    rw [hwf.view_modifyID] at hv
    split at hv
    · next heq =>
      obtain ⟨of, hof, rfl⟩ := Option.map_eq_some_iff.mp hv
      rw [hpath heq of]
      exact ht.listed of (heq ▸ hof)
    · exact ht.listed of' hv
  · intro hnone path
    rw [idsForPath_modifyID m id' hf]
    rw [hwf.view_modifyID] at hnone
    split at hnone
    · next heq => exact ht.unlisted (heq ▸ Option.map_eq_none_iff.mp hnone) path
    · exact ht.unlisted hnone path

theorem Tidy.release (hf : m.Filed) (id' : FileID) : (m.release id').Tidy id := by
  cases hv' : m.view id' with
  | none =>
    rw [release_of_none hv']
    exact ht
  | some of =>
    constructor
    · intro of' hv
      rw [view_release] at hv
      split at hv
      · cases hv
      · next hne => exact (hf.mem_ids_release hwf hv').mpr ⟨ht.listed of' hv, fun heq => hne heq.2⟩
    · intro hnone path hmem
      obtain ⟨hold, hne⟩ := (hf.mem_ids_release hwf hv').mp hmem
      rw [view_release] at hnone
      split at hnone
      · next heq =>
        -- the released handle was listed under the path of its record only
        refine hne ⟨hf.ids_path_eq hold (ht.listed of ?_), heq⟩
        rw [heq]
        exact hv'
      · exact ht.unlisted hnone path hold

end Tidy

end FileHandleMap

namespace HandleStep

open FileHandleMap

variable {File : Type} {m m' : FileHandleMap File} {id : FileID} {path : Str}
  {renames : FileID → Prop} {releases : Prop}

section

variable (h : HandleStep renames releases m m')

include h

theorem lt_next (hlt : id.volatile < m.nextHandle) : id.volatile < m'.nextHandle := by
  cases h with
  | allocate => exact Nat.lt_succ_of_lt hlt
  | edit => rwa [nextHandle_modifyID]
  | release => rwa [release_nextHandle]

/-- A number is given out once. -/
theorem gone (hwf : m.WF) (hg : m.Gone id) : m'.Gone id := by
  refine ⟨h.lt_next hg.1, ?_⟩
  cases h with
  | allocate of hid =>
    have hne : id ≠ of.id := fun heq => Nat.ne_of_lt hg.1 (heq ▸ hid)
    rw [hwf.view_allocate, if_neg hne]
    exact hg.2
  | edit id' f =>
    rw [hwf.view_modifyID]
    split
    · next heq => rw [← heq, hg.2]; rfl
    · exact hg.2
  | release id' =>
    rw [view_release]
    split
    · rfl
    · exact hg.2

/-- An open handle stays listed under the path, whatever is renamed. -/
theorem listedUnder (hwf : m.WF) (hf : m.Filed)
    (hl : m.ListedUnder id path) : m'.ListedUnder id path := by
  rcases hl.2 with hnone | hmem
  · have hg := h.gone hwf ⟨hl.1, hnone⟩
    exact ⟨hg.1, .inl hg.2⟩
  · refine ⟨h.lt_next hl.1, ?_⟩
    cases h with
    | allocate of => exact .inr (hf.mem_ids_allocate.mpr (.inl hmem))
    | edit id' f hid =>
      rw [idsForPath_modifyID m id' hid]
      exact .inr hmem
    | release id' =>
      rw [view_release]
      split
      · exact .inl rfl
      · next hne =>
        cases hv : m.view id' with
        | none =>
          rw [release_of_none hv]
          exact .inr hmem
        | some of => exact .inr ((hf.mem_ids_release hwf hv).mpr ⟨hmem, fun heq => hne heq.2⟩)

/-- Where the handle is not renamed, the table stays right about it. -/
theorem tidy (hwf : m.WF) (hf : m.Filed) (hid : ¬ renames id) (ht : m.Tidy id) : m'.Tidy id := by
  cases h with
  | allocate of => exact ht.allocate hwf hf of
  | edit id' f hf' hpath =>
    refine ht.modifyID hwf hf' fun heq of => ?_
    exact hpath.resolve_left (heq ▸ hid) of
  | release id' => exact ht.release hwf hf id'

/-- Only a release closes a handle. -/
theorem stays (hwf : m.WF) (hrel : ¬ releases) (hv : m.view id ≠ none) : m'.view id ≠ none := by
  cases h with
  | allocate of =>
    rw [hwf.view_allocate]
    split
    · exact Option.some_ne_none of
    · exact hv
  | edit id' f =>
    rw [hwf.view_modifyID]
    split
    · next heq => rwa [Ne, Option.map_eq_none_iff, ← heq]
    · exact hv
  | release _ hrel' => exact absurd hrel' hrel

end

end HandleStep

/-! ## Events -/

variable {B : Backend} {P : Platform} {sys : System B} {sh : ShareRef} {id : FileID}

/-- The tables agree, and every handle is listed under one path. -/
structure Indexed (s : Server B) : Prop where
  tables : Tables s
  onShare : HandlesOnShare s
  filed : AllMaps FileHandleMap.Filed s

theorem Indexed.step (h : Indexed sys.server) (e : Event) : Indexed (sys.step P e).server :=
  ⟨h.tables.step e, h.onShare.step h.tables e, AllMaps.filed_step h.tables h.filed e⟩

theorem Indexed.initial (options : ServerOptions) (rand : Bytes) (disks : FsRef → B.Disk) :
    Indexed (newServer options rand disks) :=
  ⟨.initial options rand disks, .initial options rand disks, fun _ => .new⟩

variable {K : B.FileHandleMap → Prop}

/-- What the operations keep of the map of a share, an event keeps. -/
theorem Indexed.step_map (h : Indexed sys.server) {e : Event}
    (hstep : ∀ m m', HandleStep (e.mayRename sys.server sh) e.releases m m' → m.WF → m.Filed →
      K m → K m') (hK : K (sys.server.handlesOf sh)) :
    K ((sys.step P e).server.handlesOf sh) ∨
      (sys.server.nextShare ≤ sh ∧ (sys.step P e).server.handlesOf sh = newFileHandleMap _) := by
  refine (step_handles (P := P) h.tables e sh).imp_left fun hchain => ?_
  refine (chain_invariant (I := fun m => (m.WF ∧ m.Filed) ∧ K m) hchain ?_
    ⟨⟨h.tables.handles sh, h.filed sh⟩, hK⟩).2
  rintro m m' hs ⟨⟨hwf, hf⟩, hm⟩
  exact ⟨⟨hs.wf hwf, hs.filed hwf hf⟩, hstep m m' hs hwf hf hm⟩

/-- The same for a share that has been added. -/
theorem Indexed.step_old (h : Indexed sys.server) {e : Event} (hsh : sh < sys.server.nextShare)
    (hstep : ∀ m m', HandleStep (e.mayRename sys.server sh) e.releases m m' → m.WF → m.Filed →
      K m → K m') (hK : K (sys.server.handlesOf sh)) : K ((sys.step P e).server.handlesOf sh) :=
  (h.step_map hstep hK).resolve_right fun hnew => Nat.not_lt.mpr hnew.1 hsh

/-- An event does not rename a handle that it finds closed. -/
theorem not_mayRename_of_none (h : (sys.server.handlesOf sh).view id = none) (e : Event) :
    ¬ e.mayRename sys.server sh id := by
  intro hr
  cases e with
  | message => exact hr.2 h
  | connect | addShare | removeShare | cleanup => exact hr

/-- An event that renames handles releases none. -/
theorem not_releases_of_mayRename {e : Event} (h : e.mayRename sys.server sh id) :
    ¬ e.releases := by
  cases e with
  | message k msg o =>
    intro hrel
    rw [Event.releases, h.1] at hrel
    cases hrel
  | connect | addShare | removeShare | cleanup => exact h.elim

/-! ## The path a handle was opened under -/

/-- The path of the record that an event opens. -/
def opening (P : Platform) (sh : ShareRef) (id : FileID) (sys : System B) (e : Event) :
    Option Str :=
  if ((sys.server.handlesOf sh).view id).isNone then
    (((sys.step P e).server.handlesOf sh).view id).map OpenFile.path
  else none

/-- The path under which the events opened the handle. -/
def openedAs (P : Platform) (sys : System B) (sh : ShareRef) (id : FileID) (es : List Event) :
    Option Str :=
  (collect (System.step P) (opening P sh id) sys es).getLast?

theorem listed_step (h : Indexed sys.server) (as : List Str)
    (has : (sys.server.handlesOf sh).view id ≠ none →
      ∃ path, as.getLast? = some path ∧ id ∈ (sys.server.handlesOf sh).idsForPath path)
    (e : Event) (hv : ((sys.step P e).server.handlesOf sh).view id ≠ none) :
    ∃ path, (as ++ (opening P sh id sys e).toList).getLast? = some path ∧
      id ∈ ((sys.step P e).server.handlesOf sh).idsForPath path := by
  obtain ⟨of, hof⟩ := Option.ne_none_iff_exists'.mp hv
  have hnew : (sys.step P e).server.handlesOf sh ≠ newFileHandleMap _ := by
    intro hnew
    rw [hnew, FileHandleMap.view_new] at hv
    exact hv rfl
  by_cases hbefore : (sys.server.handlesOf sh).view id = none
  · -- the event has opened the handle, so its number was not given out before
    refine ⟨of.path, by simp [opening, hbefore, hof], ?_⟩
    have hfresh : (sys.server.handlesOf sh).nextHandle ≤ id.volatile := by
      by_contra hlt
      rcases h.step_map (P := P) (e := e) (fun m m' hs hwf _ hg => hs.gone hwf hg)
        ⟨Nat.lt_of_not_le hlt, hbefore⟩ with hgone | ⟨-, hmap⟩
      · exact hv hgone.2
      · exact hnew hmap
    rcases h.step_map (P := P) (e := e)
      (fun m m' hs hwf hf ht => hs.tidy hwf hf (not_mayRename_of_none hbefore e) ht)
      (FileHandleMap.Tidy.of_fresh (h.filed sh) (h.tables.handles sh) hfresh) with htidy | ⟨-, hmap⟩
    · exact htidy.listed of hof
    · exact absurd hmap hnew
  · obtain ⟨path, hlast, hmem⟩ := has hbefore
    have hsome : opening P sh id sys e = none := by
      rw [opening, if_neg]
      simpa using hbefore
    refine ⟨path, by simpa [hsome] using hlast, ?_⟩
    rcases h.step_map (P := P) (e := e) (fun m m' hs hwf hf hl => hs.listedUnder hwf hf hl)
      ⟨(h.filed sh).ids_lt_next hmem, .inr hmem⟩ with hl | ⟨-, hmap⟩
    · exact hl.2.resolve_left hv
    · exact absurd hmap hnew

/-- **Opened handles.** In every reachable state, an open handle is listed under
the path it was opened under. -/
theorem openedAs_listed (P : Platform) (sh : ShareRef) (id : FileID) (options : ServerOptions)
    (rand : Bytes) (disks : FsRef → B.Disk) (es : List Event) :
    Indexed (System.run P (.initial options rand disks) es).server ∧
      (((System.run P (.initial options rand disks) es).server.handlesOf sh).view id ≠ none →
      ∃ path, openedAs P (.initial options rand disks) sh id es = some path ∧
        id ∈ ((System.run P (.initial options rand disks) es).server.handlesOf sh).idsForPath
          path) := by
  refine runFrom_collect (I := fun as (sys : System B) => Indexed sys.server ∧
    ((sys.server.handlesOf sh).view id ≠ none → ∃ path, as.getLast? = some path ∧
      id ∈ (sys.server.handlesOf sh).idsForPath path)) ?_ ?_ es
  · rintro as sys e ⟨h, has⟩
    exact ⟨h.step e, listed_step h as has e⟩
  · refine ⟨.initial options rand disks, fun hv => absurd ?_ hv⟩
    exact FileHandleMap.view_new id

/-! ## Renames -/

/-- The message is a rename of the handle `id` of share `sh` from `a` to `b`, and
is answered with STATUS_SUCCESS. -/
structure Renames (P : Platform) (sys : System B) (k : ConnId) (msg : SMB2Message) (o : Oracle)
    (sh : ShareRef) (id : FileID) (a b : Str) : Prop where
  running : sys.crashed = false
  cmd_eq : msg.cmd = .setInfo
  succeeds : Succeeds P k msg o sys.server
  share_eq : (treeOf sys.server msg).map TreeConnection.share = some sh
  path_eq : ((sys.server.handlesOf sh).view id).map OpenFile.path = some a
  target_eq : (renameTarget msg.payload).map (fun x => (x.1, renamePath a x.2)) = some (id, b)

/-- The table after a rename of `id` from `a` to `b`. The handle is listed under
its new path only, and once it has been closed under that path it is not listed
any more. -/
structure IndexFollows (P : Platform) (sys : System B) (sh : ShareRef) (id : FileID) (a b : Str) :
    Prop where
  new : id ∈ (sys.server.handlesOf sh).idsForPath b
  old : a ≠ b → id ∉ (sys.server.handlesOf sh).idsForPath a
  released : ∀ es e es' of, ((sys.run P es).server.handlesOf sh).view id = some of → of.path = b →
    (((sys.run P es).step P e).server.handlesOf sh).view id = none →
    ∀ path, id ∉ ((sys.run P (es ++ e :: es')).server.handlesOf sh).idsForPath path

section Renames

variable {k : ConnId} {msg : SMB2Message} {o : Oracle} {a b : Str}

/-- What a rename does to the handle map. -/
theorem Renames.handlesOf (h : Renames P sys k msg o sh id a b) :
    (sys.step P (.message k msg o)).server.handlesOf sh =
      ((sys.server.handlesOf sh).updateLastAccess id o.now).modifyID id fun of =>
        { of with path := b } := by
  obtain ⟨reply, s', hrun, -⟩ := (succeeds_setInfo_iff h.cmd_eq).mp h.succeeds
  obtain ⟨⟨id', newName⟩, hname, htarget⟩ := Option.map_eq_some_iff.mp h.target_eq
  cases htarget
  obtain ⟨r, tree, of, fs, ht, -, -, -, rfl⟩ := handleSetInfo_rename hname hrun
  have hsh : tree.share = sh := by
    have hshare := h.share_eq
    rw [ht.toAuth.treeOf_eq] at hshare
    exact Option.some.inj hshare
  subst hsh
  have hpath : of.path = a := by
    have hpath := h.path_eq
    rw [ht.view_eq] at hpath
    exact Option.some.inj hpath
  rw [step_routed h.running (routedTo_setInfo h.cmd_eq), hrun, stateOf, Server.renamed, hpath,
    Server.handlesOf_modifyHandles, if_pos rfl]
  refine congrArg (fun m : B.FileHandleMap => m.modifyID _ _) ?_
  have hexec : ∀ (s : Server B) (c : FsCall B.File), (s.exec fs c).handlesOf tree.share =
      s.handlesOf tree.share := fun _ _ => rfl
  rw [hexec, hexec, Server.handlesOf_modifyHandles, if_pos rfl]

theorem Renames.idsForPath (h : Renames P sys k msg o sh id a b) (path : Str) :
    ((sys.step P (.message k msg o)).server.handlesOf sh).idsForPath path =
      (sys.server.handlesOf sh).idsForPath path := by
  rw [h.handlesOf, FileHandleMap.idsForPath_modifyID _ _ (by intro of; rfl),
    FileHandleMap.updateLastAccess, FileHandleMap.idsForPath_modifyID _ _ (by intro of; rfl)]

end Renames

/-! ## Later events -/

/-- What every event keeps of the map of a share that has been added. -/
theorem Indexed.run_old (h : Indexed sys.server) (hsh : sh < sys.server.nextShare)
    (hstep : ∀ (sys : System B) e, Indexed sys.server → sh < sys.server.nextShare →
      K (sys.server.handlesOf sh) → K ((sys.step P e).server.handlesOf sh))
    (hK : K (sys.server.handlesOf sh)) (es : List Event) :
    Indexed (sys.run P es).server ∧ sh < (sys.run P es).server.nextShare ∧
      K ((sys.run P es).server.handlesOf sh) := by
  refine runFrom_invariant (I := fun sys : System B => Indexed sys.server ∧
    sh < sys.server.nextShare ∧ K (sys.server.handlesOf sh)) ?_ ⟨h, hsh, hK⟩ es
  rintro sys e ⟨h, hsh, hK⟩
  exact ⟨h.step e, Nat.lt_of_lt_of_le hsh (step_nextShare_le h.tables e), hstep sys e h hsh hK⟩

theorem Indexed.listedUnder_run (h : Indexed sys.server) (hsh : sh < sys.server.nextShare) {b : Str}
    (hl : (sys.server.handlesOf sh).ListedUnder id b) (es : List Event) :
    Indexed (sys.run P es).server ∧ sh < (sys.run P es).server.nextShare ∧
      ((sys.run P es).server.handlesOf sh).ListedUnder id b :=
  h.run_old hsh (fun _ _ h hsh =>
    h.step_old hsh fun _ _ hs hwf hf hl => hs.listedUnder hwf hf hl) hl es

/-- A handle that was closed and is listed nowhere stays so. -/
theorem Indexed.unlisted_run (h : Indexed sys.server) (hsh : sh < sys.server.nextShare)
    (hg : (sys.server.handlesOf sh).Gone id) (ht : (sys.server.handlesOf sh).Tidy id)
    (es : List Event) (path : Str) : id ∉ ((sys.run P es).server.handlesOf sh).idsForPath path := by
  obtain ⟨-, -, hgone, htidy⟩ := h.run_old (K := fun m => m.Gone id ∧ m.Tidy id) hsh
    (fun sys e h hsh ⟨hg, ht⟩ => ⟨h.step_old hsh (fun m m' hs hwf _ hg => hs.gone hwf hg) hg,
      h.step_old hsh (fun m m' hs hwf hf ht =>
        hs.tidy hwf hf (not_mayRename_of_none hg.2 e) ht) ht⟩) ⟨hg, ht⟩ es
  exact htidy.unlisted hgone.2 path

/-- A handle that is closed under the path it is listed under is not listed any more. -/
theorem Indexed.released (h : Indexed sys.server) {of : B.OpenFile}
    (hv : (sys.server.handlesOf sh).view id = some of)
    (hmem : id ∈ (sys.server.handlesOf sh).idsForPath of.path) {e : Event}
    (hgone : ((sys.step P e).server.handlesOf sh).view id = none) :
    ((sys.step P e).server.handlesOf sh).Gone id ∧ ((sys.step P e).server.handlesOf sh).Tidy id := by
  have hsh := (h.onShare sh id of hv).1
  have hlt : id.volatile < ((sys.step P e).server.handlesOf sh).nextHandle :=
    h.step_old hsh (K := fun m => id.volatile < m.nextHandle) (fun m m' hs _ _ hlt => hs.lt_next hlt)
      ((h.filed sh).ids_lt_next hmem)
  have hkeep : ¬ e.mayRename sys.server sh id := by
    intro hr
    refine h.step_old (P := P) (e := e) hsh (K := fun m => m.view id ≠ none)
      (fun m m' hs hwf _ hv => hs.stays hwf (not_releases_of_mayRename hr) hv) ?_ hgone
    rw [hv]
    exact Option.some_ne_none of
  refine ⟨⟨hlt, hgone⟩, h.step_old hsh (fun m m' hs hwf hf ht => hs.tidy hwf hf hkeep ht) ?_⟩
  refine ⟨fun of' hv' => ?_, fun hnone => ?_⟩
  · cases hv.symm.trans hv'
    exact hmem
  · cases hv.symm.trans hnone

/-- **Renames.** In every state that is reached with fewer than 2^64 allocations per
share, a rename that succeeds leaves the table of paths right about the handle exactly
if it renames it to the path it was opened under. -/
theorem rename_indexed_iff (options : ServerOptions) (rand : Bytes) (disks : FsRef → B.Disk)
    (es : List Event) {k : ConnId} {msg : SMB2Message} {o : Oracle} {sh : ShareRef} {id : FileID}
    {a b : Str} (h : Renames P (System.run P (.initial options rand disks) es) k msg o sh id a b) :
    IndexFollows P ((System.run P (.initial options rand disks) es).step P (.message k msg o)) sh id
        a b ↔
      openedAs P (.initial options rand disks) sh id es = some b := by
  obtain ⟨hinv, hopened⟩ := openedAs_listed P sh id options rand disks es
  have hv : ((System.run P (.initial options rand disks) es).server.handlesOf sh).view id ≠ none := by
    intro hnone
    have hpath := h.path_eq
    rw [hnone] at hpath
    cases hpath
  obtain ⟨path, hpath, hmem⟩ := hopened hv
  rw [hpath, Option.some.injEq]
  generalize System.run P (.initial options rand disks) es = sys at h hinv hv hmem
  have hsh : sh < sys.server.nextShare := by
    obtain ⟨of, hof⟩ := Option.ne_none_iff_exists'.mp hv
    exact (hinv.onShare sh id of hof).1
  constructor
  · intro hfollows
    have hnew := hfollows.new
    rw [h.idsForPath] at hnew
    exact (hinv.filed sh).ids_path_eq hmem hnew
  · rintro rfl
    have hafter := hinv.step (P := P) (.message k msg o)
    have hmem' := h.idsForPath path ▸ hmem
    refine ⟨hmem', fun hne hold => hne ((hafter.filed sh).ids_path_eq hold hmem'), ?_⟩
    intro es e es' of hof hpath hgone
    obtain ⟨hrun, hshrun, hl⟩ := hafter.listedUnder_run (P := P)
      (Nat.lt_of_lt_of_le hsh (step_nextShare_le hinv.tables _))
      ⟨(hafter.filed sh).ids_lt_next hmem', .inr hmem'⟩ es
    have hlisted := hl.2.resolve_left (by rw [hof]; exact Option.some_ne_none of)
    obtain ⟨hg, ht⟩ := hrun.released hof (hpath ▸ hlisted) hgone
    rw [System.run, runFrom_append]
    exact (hrun.step e).unlisted_run (Nat.lt_of_lt_of_le hshrun (step_nextShare_le hrun.tables e))
      hg ht es'

/-- The file `f`, opened for itself alone by handle 1. -/
def openedAlone : List Event := sampleLogin false ++ [sent (createRequest 7 1 ['f'] 1 0 1 0)]

/-- A file that is renamed to `g` and back. -/
theorem rename_back_indexed :
    let es := openedAlone ++ [sent (renameRequest 7 1 ⟨1, 1⟩ ['g'])]
    let sys := System.run samplePlatform sampleSystem es
    openedAs samplePlatform sampleSystem 1 ⟨1, 1⟩ es = some ['f'] ∧
      IndexFollows samplePlatform (sys.step samplePlatform (sent (renameRequest 7 1 ⟨1, 1⟩ ['f']))) 1
        ⟨1, 1⟩ ['g'] ['f'] := by
  intro es sys
  have hopened : openedAs samplePlatform sampleSystem 1 ⟨1, 1⟩ es = some ['f'] := by decide +kernel
  have hback : Renames samplePlatform sys 0 (renameRequest 7 1 ⟨1, 1⟩ ['f']) sampleOracle 1 ⟨1, 1⟩
      ['g'] ['f'] := by
    constructor <;> decide +kernel
  exact ⟨hopened, (rename_indexed_iff _ _ _ _ hback).mpr hopened⟩

/-- The file is renamed to `g` and closed: it is still listed as `f`, and a CREATE
for `f` meets a sharing violation with a handle that is not open. -/
theorem rename_leaves_phantom :
    let sys := System.run samplePlatform sampleSystem openedAlone
    let renamed := sys.step samplePlatform (sent (renameRequest 7 1 ⟨1, 1⟩ ['g']))
    let closed := renamed.step samplePlatform (sent (closeRequest 7 1 ⟨1, 1⟩))
    Renames samplePlatform sys 0 (renameRequest 7 1 ⟨1, 1⟩ ['g']) sampleOracle 1 ⟨1, 1⟩ ['f'] ['g'] ∧
      (renamed.server.handlesOf 1).idsForPath ['g'] = [] ∧
      (renamed.server.handlesOf 1).idsForPath ['f'] = [⟨1, 1⟩] ∧
      ((closed.server.handlesOf 1).view ⟨1, 1⟩).isNone ∧
      (closed.server.handlesOf 1).idsForPath ['f'] = [⟨1, 1⟩] ∧
      (processMessage samplePlatform 0 (createRequest 7 1 ['f'] 1 0 3 0) sampleOracle
        closed.server).1.status = some NTStatus.sharingViolation.code := by
  refine ⟨?_, by decide +kernel⟩
  constructor <;> decide +kernel

end Smbfs
