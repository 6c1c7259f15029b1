import Smbfs.Concurrent.Model
import Smbfs.Properties.ShareModes

/-!
Share modes under interleaving. CREATE checks the share modes and enters its
handle in the map under two separate locks, with calls of the filesystem in
between.

* `interleaved_share_modes_iff`: any two handles open on one path are
  compatible, in every state of an interleaving, exactly if every `Allocate`
  finds the handles that were allocated on its path since its check compatible;
* `interleaved_creates_collide`: two CREATE requests that exclude each other
  both pass the check.
-/

namespace Smbfs

open Smbfs.Lib

variable {B : Backend} {P : Platform} {s s' : Server B} {t t' : Stage B}

/-! ## The property and its condition -/

/-- Any two handles open on one path of a share are compatible in the modes they record. -/
def ShareModesRecorded (s : Server B) : Prop :=
  ∀ sh id id' of of', id ≠ id' → (s.handlesOf sh).view id = some of →
    (s.handlesOf sh).view id' = some of' → Compatible of of'

/-- The open handles that were allocated on the path of a CREATE request after
its share check are compatible with it. -/
def CreateCall.CompatibleSince (c : CreateCall) (since : HandleRef)
    (m : B.FileHandleMap) : Prop :=
  ∀ id of, m.view id = some of → since ≤ id.volatile → of.path = c.filename →
    checkShareCompatibility c.req.desiredAccess c.req.shareAccess of.access of.shareAccess = true

/-- A step that allocates a handle finds those allocated since its check compatible. -/
def AllocatesCompatible (p : Pool (System B) (Stage B)) (n : Nat) : Prop :=
  match p.threads n with
  | .allocate x _ _ _ => p.shared.crashed = false →
    x.call.CompatibleSince x.since (p.shared.server.handlesOf x.call.tree.share)
  | _ => True

/-! ## The window between check and allocation -/

/-- The CREATE request of a stage behind the share check, and the first handle
the check did not see. -/
def Stage.checked : Stage B → Option (CreateCall × HandleRef)
  | .stat c since => some (c, since)
  | .openFirst x _ | .openAgain x _ | .fileStat x _ _ | .discard x _ _ | .allocate x _ _ _ =>
    some (x.call, x.since)
  | _ => none

/-- The open handles on the path that the check saw are compatible. -/
structure CreateCall.Checked (c : CreateCall) (since : HandleRef)
    (m : B.FileHandleMap) : Prop where
  since_le : since ≤ m.nextHandle
  compatible : ∀ id of, m.view id = some of → id.volatile < since → of.path = c.filename →
    checkShareCompatibility c.req.desiredAccess c.req.shareAccess of.access of.shareAccess = true

section Map

variable {sh : ShareRef} {m' : B.FileHandleMap} {c : CreateCall} {since : HandleRef}

/-- A check that passes says so of all handles that are open. -/
theorem Exclusive.checked {m : B.FileHandleMap} (h : Exclusive m)
    (hcheck : m.checkShareAccess c.filename c.req.desiredAccess c.req.shareAccess = true) :
    c.Checked m.nextHandle m := by
  refine ⟨Nat.le_refl _, fun id of hv _ hp => ?_⟩
  obtain ⟨r, hr, rfl⟩ := FileHandleMap.view_eq_some.mp hv
  have hlisted := h.listed id r hr
  rw [hp] at hlisted
  exact List.all_eq_true.mp hcheck r hlisted

/-- The steps of other requests take handles from the map, or add handles behind the check. -/
theorem CreateCall.Checked.step (h : c.Checked since (s.handlesOf sh)) (hwf : (s.handlesOf sh).WF)
    (hs : t.MapStep s sh m') : c.Checked since m' := by
  cases hs with
  | same => exact h
  | @allocate x file action info =>
    refine ⟨Nat.le_succ_of_le h.since_le, fun id of hv hlt hp => ?_⟩
    rw [hwf.view_allocate] at hv
    split at hv
    · next hid =>
      have hnew : id.volatile = (s.handlesOf sh).nextHandle := congrArg FileID.volatile hid
      exact absurd hlt (Nat.not_lt.mpr (hnew ▸ h.since_le))
    · exact h.compatible id of hv hlt hp
  | release id =>
    refine ⟨?_, fun id' of hv hlt hp => ?_⟩
    · rw [FileHandleMap.release_nextHandle]
      exact h.since_le
    · rw [FileHandleMap.view_release] at hv
      split at hv
      · cases hv
      · exact h.compatible id' of hv hlt hp

theorem Stage.MapStep.wf (hs : t.MapStep s sh m') (hwf : (s.handlesOf sh).WF) : m'.WF := by
  cases hs with
  | same => exact hwf
  | allocate => exact hwf.allocate rfl
  | release id => exact hwf.release id

/-- An allocation that finds the handles before and since its check compatible
keeps the map exclusive. -/
theorem Stage.MapStep.exclusive (hs : t.MapStep s sh m') (hwf : (s.handlesOf sh).WF)
    (h : Exclusive (s.handlesOf sh))
    (hcompat : ∀ x file action info, t = .allocate x file action info → sh = x.call.tree.share →
      x.call.Checked x.since (s.handlesOf sh) ∧ x.call.CompatibleSince x.since (s.handlesOf sh)) :
    Exclusive m' := by
  cases hs with
  | same => exact h
  | @allocate x file action info ht hsh =>
    obtain ⟨hchecked, hsince⟩ := hcompat x file action info ht hsh
    refine h.allocate hwf fun id of hv hp => ?_
    rcases Nat.lt_or_ge id.volatile x.since with hlt | hge
    · exact hchecked.compatible id of hv hlt hp.symm
    · exact hsince id of hv hge hp.symm
  | release id => exact h.release hwf id

end Map

/-! ## The interleaving -/

/-- The handle maps are well formed, and their handles compatible. -/
structure Orderly (s : Server B) : Prop where
  wf : ∀ sh, (s.handlesOf sh).WF
  exclusive : AllExclusive s

theorem Orderly.recorded (h : Orderly s) : ShareModesRecorded s := fun sh =>
  (h.exclusive sh).compatible

/-- What a request behind its share check relies on. -/
def Stage.CheckedIn (t : Stage B) (s : Server B) : Prop :=
  ∀ c since, t.checked = some (c, since) → c.Checked since (s.handlesOf c.tree.share)

/-- A request that goes on is still behind its check, or has just passed it. -/
theorem Next.checked_cases (h : Next t s t' s') :
    t'.checked = none ∨ t'.checked = t.checked ∨
      ∃ c, t = .check c ∧ t' = .stat c (s.handlesOf c.tree.share).nextHandle ∧ s' = s ∧
        (s.handlesOf c.tree.share).checkShareAccess c.filename c.req.desiredAccess
          c.req.shareAccess = true := by
  cases h with
  | validated | allocated => exact .inl rfl
  | checked hcheck => exact .inr (.inr ⟨_, rfl, rfl, rfl, hcheck⟩)
  | statted | opened | retried | made | reopened | fileStatted | discarded | ended =>
    exact .inr (.inl rfl)
  | closing _ ht' =>
    refine .inl ?_
    rcases ht' with ht' | ⟨reply, rfl⟩
    · cases t' <;> first | rfl | cases ht'
    · rfl

/-- The invariant of an interleaving. -/
abbrev OrderlyPool (p : Pool (System B) (Stage B)) : Prop :=
  p.Inv (fun sys => Orderly sys.server) fun _ t sys => t.CheckedIn sys.server

/-- A step leaves every handle map as one of its steps may. -/
theorem mapStep_stepPool (p : Pool (System B) (Stage B)) (n : Nat) (sh : ShareRef) :
    (p.threads n).MapStep p.shared.server sh ((stepPool p n).shared.server.handlesOf sh) := by
  cases hcr : p.shared.crashed with
  | true =>
    have hstay : (stepPool p n).shared = p.shared := by simp [Pool.step, Stage.advance_crashed hcr]
    rw [hstay]
    exact .same
  | false =>
    have hserver : (stepPool p n).shared.server = _ := Stage.advance_server hcr (p.threads n)
    rw [hserver]
    exact Stage.next_mapStep _ _ sh

variable {p : Pool (System B) (Stage B)} {n : Nat}

theorem Stage.CheckedIn.step (n : Nat) (hwf : ∀ sh, (p.shared.server.handlesOf sh).WF)
    (h : t.CheckedIn p.shared.server) : t.CheckedIn (stepPool p n).shared.server :=
  fun c since hc => (h c since hc).step (hwf _) (mapStep_stepPool p n _)

/-- A step that finds the handles allocated since its check compatible. -/
theorem OrderlyPool.step (h : OrderlyPool p) (hc : AllocatesCompatible p n) :
    OrderlyPool (stepPool p n) := by
  have hwf := h.shared.wf
  refine Pool.Inv.step h (fun hshared hself => ?_) fun m t _ ht => ht.step n hwf
  cases hcr : p.shared.crashed with
  | true =>
    simp only [Pool.step, Stage.advance_crashed hcr]
    exact ⟨hshared, hself⟩
  | false =>
    refine ⟨⟨fun sh => (mapStep_stepPool p n sh).wf (hwf sh), fun sh => ?_⟩, ?_⟩
    · refine (mapStep_stepPool p n sh).exclusive (hwf sh) (hshared.exclusive sh) ?_
      rintro x file action info ht rfl
      rw [ht] at hself
      rw [AllocatesCompatible, ht] at hc
      exact ⟨hself x.call x.since rfl, hc hcr⟩
    · rcases (p.threads n).advance_cases p.shared with hsame | ⟨st, hfailed⟩ | hnext
      · rw [hsame]
        exact hself.step n hwf
      · rw [hfailed]
        intro c since hnone
        cases hnone
      · intro c since hchecked
        rcases hnext.checked_cases with hnone | hold | ⟨c', hcheck, hstat, hserver, hpass⟩
        · cases hnone.symm.trans hchecked
        · exact hself.step n hwf c since (hold.symm.trans hchecked)
        · rw [hstat] at hchecked
          cases hchecked
          have hserver : (stepPool p n).shared.server = p.shared.server := hserver
          rw [hserver]
          exact (hshared.exclusive _).checked hpass

/-- A step that does not makes two incompatible handles. -/
theorem OrderlyPool.breaks (h : OrderlyPool p) (hc : ¬ AllocatesCompatible p n) :
    ¬ ShareModesRecorded (stepPool p n).shared.server := by
  unfold AllocatesCompatible at hc
  cases ht : p.threads n with
  | allocate x file action info =>
    rw [ht] at hc
    simp only [CreateCall.CompatibleSince, not_forall] at hc
    obtain ⟨hcr, id, of, hv, -, hp, hbad⟩ := hc
    have hwf := h.shared.wf x.call.tree.share
    let new := createdFile (p.shared.server.handlesOf x.call.tree.share) x.call.o x.call.req
      (x.fs, file) x.call.filename info.isDir x.call.tree.id
      (p.shared.server.sessions.heap x.call.session).id
    have hmap : (stepPool p n).shared.server.handlesOf x.call.tree.share =
        (p.shared.server.handlesOf x.call.tree.share).allocate new := by
      have hserver : (stepPool p n).shared.server = _ := Stage.advance_server hcr (p.threads n)
      rw [hserver, ht, Stage.next, stateOf_bind (run_allocate ..), M.run_pure, stateOf,
        Server.handlesOf_modifyHandles, if_pos rfl]
    have hne : new.id ≠ id := by
      rintro rfl
      exact Nat.lt_irrefl _ (hwf.view_volatile_lt hv)
    intro hrec
    have hcompat := hrec x.call.tree.share new.id id new of hne
      (by rw [hmap, hwf.view_allocate, if_pos rfl])
      (by rw [hmap, hwf.view_allocate, if_neg hne.symm, hv])
    exact hbad (hcompat hp.symm)
  | _ => rw [ht] at hc; exact absurd trivial hc

theorem orderlyPool_start {sys : System B} (h : Orderly sys.server) (jobs : Nat → Job) :
    OrderlyPool (startPool sys jobs) := by
  refine ⟨h, fun n c since hchecked => ?_⟩
  change ((jobs n).stage : Stage B).checked = _ at hchecked
  cases hjob : jobs n <;> rw [hjob] at hchecked <;> cases hchecked

/-- **Share modes under interleaving.** After any run without renames, let CREATE
and CLOSE requests take their steps in any order. Any two handles open on one
path are compatible in every state, exactly if every `Allocate` finds the
handles that were allocated on its path since its share check compatible. As in
all runs, a share allocates fewer than 2^64 handles. -/
theorem interleaved_share_modes_iff (options : ServerOptions) (rand : Bytes)
    (disks : FsRef → B.Disk) (es : List Event) (jobs : Nat → Job) (schedule : List Nat)
    (hnorename : Along (System.step P) (System.OnMessage NoRename)
      (.initial options rand disks) es) :
    Always stepPool (fun p => ShareModesRecorded p.shared.server)
        (startPool (System.run P (.initial options rand disks) es) jobs) schedule ↔
      Along stepPool AllocatesCompatible
        (startPool (System.run P (.initial options rand disks) es) jobs) schedule := by
  have hstart : Tables (System.run P (.initial options rand disks) es).server ∧
      AllExclusive (System.run P (.initial options rand disks) es).server := by
    have hinitial : AllExclusive (newServer options rand disks) := fun _ => .new
    refine runFrom_along (I := fun sys => Tables sys.server ∧ AllExclusive sys.server) ?_
      ⟨.initial options rand disks, hinitial⟩ hnorename
    rintro sys e ⟨ht, hexclusive⟩ hn
    exact ⟨ht.step e, hexclusive.step ht hn⟩
  exact always_iff_along (I := OrderlyPool) (fun _ _ h hc => h.step hc) (fun _ h => h.shared.recorded)
    (fun _ _ h hc => h.breaks hc) (orderlyPool_start ⟨hstart.1.handles, hstart.2⟩ jobs)

/-! ## Two requests -/

instance (c : CreateCall) (since : HandleRef) (m : B.FileHandleMap) :
    Decidable (c.CompatibleSince since m) :=
  decidable_of_iff (∀ e ∈ m.handles.pairs, since ≤ e.1.volatile → (m.heap e.2).path = c.filename →
      checkShareCompatibility c.req.desiredAccess c.req.shareAccess (m.heap e.2).access
        (m.heap e.2).shareAccess = true) <| by
    constructor
    · intro h id of hv hge hp
      obtain ⟨r, hr, rfl⟩ := FileHandleMap.view_eq_some.mp hv
      exact h (id, r) (GoMap.mem_pairs.mpr hr) hge hp
    · rintro h ⟨id, r⟩ hr hge hp
      exact h id _ (FileHandleMap.view_eq_some.mpr ⟨r, GoMap.mem_pairs.mp hr, rfl⟩) hge hp

/-- What a stage is about to allocate a handle for. -/
def Stage.allocating : Stage B → Option Opening
  | .allocate x _ _ _ => some x
  | _ => none

theorem allocatesCompatible_iff :
    (∀ x ∈ (p.threads n).allocating, p.shared.crashed = false →
      x.call.CompatibleSince x.since (p.shared.server.handlesOf x.call.tree.share)) ↔
    AllocatesCompatible p n := by
  unfold AllocatesCompatible
  cases p.threads n <;> simp [Stage.allocating]

instance : Decidable (AllocatesCompatible p n) :=
  decidable_of_iff _ allocatesCompatible_iff

/-- Two CREATE requests for `f` with the same access and share modes. -/
def twoCreates (access share : UInt32) (disposition : UInt32) (_ : Nat) : Job :=
  .create (createRequest 7 1 ['f'] access share disposition 0) sampleOracle

/-- The two requests check before either of them allocates. -/
def checkedTogether : List Nat := [0, 0, 1, 1] ++ List.replicate 4 0 ++ List.replicate 4 1

/-- Two readers that share reading may interleave. -/
theorem interleaved_readers :
    Always stepPool (fun p => ShareModesRecorded p.shared.server)
      (startPool (guestSystem false) (twoCreates 1 1 1)) checkedTogether :=
  (interleaved_share_modes_iff _ _ _
    (sampleLogin false) (twoCreates 1 1 1) checkedTogether (by decide +kernel)).mpr
    (by decide +kernel)

/-- Two readers that share nothing both open `f`. -/
theorem interleaved_creates_collide :
    ¬ Always stepPool (fun p => ShareModesRecorded p.shared.server)
      (startPool (guestSystem false) (twoCreates 1 0 1)) checkedTogether := by
  intro h
  let m := (runFrom stepPool (startPool (guestSystem false) (twoCreates 1 0 1))
    checkedTogether).shared.server.handlesOf 1
  have hopen : ∀ n ∈ [1, 2], (m.view ⟨1, n⟩).map (fun of => (of.path, of.access, of.shareAccess)) =
      some (['f'], 1, 0) := by decide +kernel
  obtain ⟨of, hv, heq⟩ := Option.map_eq_some_iff.mp (hopen 1 (by decide))
  obtain ⟨of', hv', heq'⟩ := Option.map_eq_some_iff.mp (hopen 2 (by decide))
  simp only [Prod.mk.injEq] at heq heq'
  have hcompat := h.last 1 ⟨1, 1⟩ ⟨1, 2⟩ of of' (by decide) hv hv' (heq.1.trans heq'.1.symm)
  rw [heq.2.1, heq.2.2, heq'.2.1, heq'.2.2] at hcompat
  exact absurd hcompat (by decide)

end Smbfs
