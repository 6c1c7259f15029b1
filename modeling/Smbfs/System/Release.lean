import Smbfs.System.Dispatch

/-!
Which handles the releases take out of the handle maps: exactly those of the
tree, of the session or of the sessions, and all others stay as they are.

* `Releases m p`: the program returns, and the handles with `p` are gone;
* `releaseTrees_releases`: TREE_DISCONNECT and LOGOFF;
* `cleanupTick_view`: a tick of the cleanup loop.
-/

namespace Smbfs

open Smbfs.Lib

variable {B : Backend} {s : Server B} {sh sh' : ShareRef} {id : FileID}

/-- The handle belongs to the session and to the tree. -/
def OpenFile.inTree {File : Type} (of : OpenFile File) (treeID : UInt32) (sessionID : UInt64) :
    Bool := of.treeID = treeID ∧ of.sessionID = sessionID

/-! ## Fewer handles -/

/-- Every open file is still the file of its handle, or was closed since. -/
def Covers (s s' : Server B) : Prop :=
  ∃ calls, s'.log = s.log ++ calls ∧ ∀ sh id of f, (s.handlesOf sh).view id = some of →
    of.file = some f →
      (∃ of', (s'.handlesOf sh).view id = some of' ∧ of'.file = some f) ∨ (f.1, .close f.2) ∈ calls

namespace Covers

variable {s' s'' : Server B}

theorem of_kept {calls : List (FsRef × FsCall B.File)} (hlog : s'.log = s.log ++ calls)
    (h : ∀ sh id of, (s.handlesOf sh).view id = some of →
      ∃ of', (s'.handlesOf sh).view id = some of' ∧ of'.file = of.file) : Covers s s' := by
  refine ⟨calls, hlog, fun sh id of f hv hf => .inl ?_⟩
  obtain ⟨of', hv', hf'⟩ := h sh id of hv
  exact ⟨of', hv', hf'.trans hf⟩

theorem same (hlog : s'.log = s.log) (hheap : s'.shareHeap = s.shareHeap) : Covers s s' := by
  refine of_kept (hlog.trans (List.append_nil _).symm) fun sh id of hv => ⟨of, ?_, rfl⟩
  rw [Server.handlesOf, hheap]
  exact hv

theorem exec (s : Server B) (fs : FsRef) (c : FsCall B.File) : Covers s (s.exec fs c) :=
  of_kept rfl fun _ _ of hv => ⟨of, hv, rfl⟩

theorem trans (h : Covers s s') (h' : Covers s' s'') : Covers s s'' := by
  obtain ⟨calls, hlog, hfiles⟩ := h
  obtain ⟨calls', hlog', hfiles'⟩ := h'
  refine ⟨calls ++ calls', by rw [hlog', hlog, List.append_assoc], fun sh id of f hv hf => ?_⟩
  rcases hfiles sh id of f hv hf with ⟨of', hv', hf'⟩ | hclosed
  · exact (hfiles' sh id of' f hv' hf').imp_right (List.mem_append_right _)
  · exact .inr (List.mem_append_left _ hclosed)

end Covers

/-- The sessions and the filesystems of the shares are the same, every open handle
was open before, with the same record, and the files of the others are closed. -/
structure Shrinks (s s' : Server B) : Prop where
  sessions : s'.sessions = s.sessions
  shares : s'.shares = s.shares
  fs : ∀ sh, (s'.shareHeap sh).fs = (s.shareHeap sh).fs
  view : ∀ sh id of, (s'.handlesOf sh).view id = some of → (s.handlesOf sh).view id = some of
  covers : Covers s s'

theorem Shrinks.refl (s : Server B) : Shrinks s s :=
  ⟨rfl, rfl, fun _ => rfl, fun _ _ _ h => h, .same rfl rfl⟩

theorem Shrinks.trans {s s' s'' : Server B} (h : Shrinks s s') (h' : Shrinks s' s'') :
    Shrinks s s'' :=
  ⟨h'.sessions.trans h.sessions, h'.shares.trans h.shares, fun sh => (h'.fs sh).trans (h.fs sh),
    fun sh id of hv => h.view sh id of (h'.view sh id of hv), h.covers.trans h'.covers⟩

theorem view_modifyHandles_release (s : Server B) (sh sh' : ShareRef) (id id' : FileID) :
    ((s.modifyHandles sh fun m => m.release id).handlesOf sh').view id' =
      if sh' = sh ∧ id' = id then none else (s.handlesOf sh').view id' := by
  rw [Server.handlesOf_modifyHandles]
  by_cases hsh : sh' = sh
  · subst hsh
    rw [if_pos rfl, FileHandleMap.view_release]
    simp
  · simp [hsh]

/-- The handle is taken out of the map and its file is closed. -/
theorem Shrinks.release {s' : Server B} {of : B.OpenFile}
    (hof : (s.handlesOf sh).view id = some of) (hsessions : s'.sessions = s.sessions)
    (hshares : s'.shares = s.shares)
    (hheap : s'.shareHeap = (s.modifyHandles sh fun m => m.release id).shareHeap)
    (hlog : s'.log = s.log ++ (of.file.map fun f => (f.1, .close f.2)).toList) : Shrinks s s' := by
  have hview : ∀ sh' id', (s'.handlesOf sh').view id' =
      if sh' = sh ∧ id' = id then none else (s.handlesOf sh').view id' := by
    intro sh' id'
    rw [Server.handlesOf, hheap]
    exact view_modifyHandles_release ..
  refine ⟨hsessions, hshares, fun sh' => ?_, fun sh' id' of' hv => ?_, _, hlog,
    fun sh' id' of' f hv hf => ?_⟩
  · rw [hheap, Server.modifyHandles_fs]
  · rw [hview] at hv
    split at hv
    · cases hv
    · exact hv
  · rw [hview]
    split
    · next h =>
      obtain ⟨rfl, rfl⟩ := h
      cases hof.symm.trans hv
      exact .inr (by simp [hf])
    · exact .inl ⟨of', hv, hf⟩

/-- The program returns, and of the open handles exactly those with `p` are gone. -/
def Releases {α : Type} (m : M B α) (p : ShareRef → FileID → B.OpenFile → Bool) : Prop :=
  ∀ s, ∃ a s', m s = .ok a s' ∧ Shrinks s s' ∧ ∀ sh id,
    (s'.handlesOf sh).view id = ((s.handlesOf sh).view id).filter fun of => !p sh id of

namespace Releases

variable {α β : Type} {m : M B α} {f : α → M B β}
  {p q r : ShareRef → FileID → B.OpenFile → Bool}

theorem pure (a : α) (h : ∀ sh id of, p sh id of = false) : Releases (Pure.pure a : M B α) p := by
  refine fun s => ⟨a, s, rfl, .refl s, fun sh id => ?_⟩
  cases (s.handlesOf sh).view id <;> simp [h, Option.filter_some]

/-- One release after another. -/
theorem bind (hm : Releases m p) (hf : ∀ a, Releases (f a) q)
    (hr : ∀ sh id of, r sh id of = (p sh id of || q sh id of)) : Releases (m >>= f) r := by
  intro s
  obtain ⟨a, s1, h1, hs1, hv1⟩ := hm s
  obtain ⟨b, s2, h2, hs2, hv2⟩ := hf a s1
  refine ⟨b, s2, by rw [bind_run, h1]; exact h2, hs1.trans hs2, fun sh id => ?_⟩
  rw [hv2, hv1, Option.filter_filter]
  simp [hr]

/-- What follows a release finds no handle with `p`. -/
theorem bind_runs {R : Server B → Server B → Prop} {E : Stop → Prop} {Q : α → Server B → Prop}
    {Q' : β → Server B → Prop} (hm : Releases m p) (h : Runs R E m s Q)
    (hf : ∀ a s', Shrinks s s' → (∀ sh id of, (s'.handlesOf sh).view id = some of →
      p sh id of = false) → Runs R E (f a) s' Q') : Runs R E (m >>= f) s Q' := by
  obtain ⟨a, s', hrun, hs, hv⟩ := hm s
  refine (h.ran hrun).bind ?_
  rintro _ _ ⟨rfl, rfl⟩
  refine hf _ _ hs fun sh id of hof => ?_
  rw [hv] at hof
  simpa using (Option.filter_eq_some_iff.mp hof).2

end Releases

/-! ## Lists of handles -/

theorem release_releases (sh : ShareRef) (id : FileID) :
    Releases (release (B := B) sh id) fun sh' id' _ => sh' = sh ∧ id' = id := by
  intro s
  have hgone : ∀ {v : Option B.OpenFile} {c : Prop} [Decidable c],
      (if c then none else v) = v.filter fun _ => !decide c := by
    intro v c _
    split <;> cases v <;> simp [*, Option.filter_some]
  simp only [release, M.run_get_bind, ← hgone]
  cases hv : (s.handlesOf sh).view id with
  | none =>
    refine ⟨none, s, rfl, .refl s, fun sh' id' => ?_⟩
    split
    · next h => rw [h.1, h.2, hv]
    · rfl
  | some of =>
    dsimp only
    rw [M.run_modify_bind]
    cases hof : of.file with
    | none =>
      exact ⟨_, _, rfl, .release hv rfl rfl rfl (by simp [hof, Server.modifyHandles]),
        fun _ _ => view_modifyHandles_release ..⟩
    | some f =>
      exact ⟨_, _, rfl, .release hv rfl rfl rfl (by simp [hof, Server.exec, Server.modifyHandles]),
        fun _ _ => view_modifyHandles_release ..⟩

theorem releaseAll_releases (sh : ShareRef) (ids : List FileID) :
    Releases (releaseAll (B := B) sh ids) fun sh' id' _ => sh' = sh ∧ id' ∈ ids := by
  induction ids with
  | nil => exact .pure () (by simp)
  | cons id ids ih =>
    refine (release_releases sh id).bind (fun _ => ih) fun sh' id' _ => ?_
    by_cases h : sh' = sh <;> simp [h]

/-! ## Trees and sessions -/

/-- Where the handles with `q` are released, the others stay. -/
theorem releaseOwned_releases {q : B.OpenFile → Bool}
    (ids : B.FileHandleMap → List FileID)
    (hids : ∀ m id, id ∈ ids m ↔ ∃ of, m.view id = some of ∧ q of = true) :
    Releases (do let s ← M.get; releaseAll (B := B) sh (ids (s.handlesOf sh)))
      fun sh' _ of => sh' = sh && q of := by
  intro s
  obtain ⟨a, s', hrun, hs, hv⟩ := releaseAll_releases sh (ids (s.handlesOf sh)) s
  refine ⟨a, s', hrun, hs, fun sh' id => ?_⟩
  rw [hv]
  cases hof : (s.handlesOf sh').view id with
  | none => rfl
  | some of =>
    by_cases hsh : sh' = sh
    · subst hsh
      cases hq : q of <;> simp [hids, hof, Option.filter_some, hq]
    · simp [hsh, Option.filter_some]

theorem releaseByTree_releases (sh : ShareRef) (treeID : UInt32) (sessionID : UInt64) :
    Releases (releaseByTree (B := B) sh treeID sessionID)
      fun sh' _ of => sh' = sh && of.inTree treeID sessionID :=
  releaseOwned_releases (fun m => m.idsByTree treeID sessionID)
    fun m id => by simp [FileHandleMap.mem_idsByTree, OpenFile.inTree]

theorem releaseBySession_releases (sh : ShareRef) (sessionID : UInt64) :
    Releases (releaseBySession (B := B) sh sessionID)
      fun sh' _ of => sh' = sh && of.sessionID = sessionID :=
  releaseOwned_releases (fun m => m.idsBySession sessionID)
    fun m id => by simp [FileHandleMap.mem_idsBySession]

theorem releaseTrees_releases (sessionID : UInt64) (trees : List TreeConnection) :
    Releases (releaseTrees (B := B) sessionID trees)
      fun sh _ of => trees.any fun tree => sh = tree.share && of.inTree tree.id sessionID := by
  induction trees with
  | nil => exact .pure () fun _ _ _ => rfl
  | cons tree trees ih =>
    exact (releaseByTree_releases tree.share tree.id sessionID).bind (fun _ => ih) fun _ _ _ => rfl

theorem releaseInShares_releases (sessionID : UInt64) (shs : List ShareRef) :
    Releases (releaseInShares (B := B) sessionID shs)
      fun sh _ of => shs.contains sh && of.sessionID = sessionID := by
  induction shs with
  | nil => exact .pure () fun _ _ _ => rfl
  | cons sh shs ih =>
    refine (releaseBySession_releases sh sessionID).bind (fun _ => ih) fun sh' _ of => ?_
    rw [List.contains_cons, Bool.and_or_distrib_right]
    rfl

theorem releaseSessions_releases (shs : List ShareRef) (ids : List UInt64) :
    Releases (releaseSessions (B := B) shs ids)
      fun sh _ of => shs.contains sh && ids.contains of.sessionID := by
  induction ids with
  | nil => exact .pure () (by simp)
  | cons i ids ih =>
    refine (releaseInShares_releases i shs).bind (fun _ => ih) fun sh _ of => ?_
    rw [List.contains_cons, Bool.and_or_distrib_left]
    rfl

/-- The IDs of the sessions that a tick of the cleanup loop ends. -/
def expiredIDs (s : Server B) (now : GoTime) : List UInt64 :=
  (s.sessions.expired now).map fun e => (s.sessions.heap e.2).id

theorem cleanupTick_spec (now : GoTime) :
    Shrinks { s with sessions := s.sessions.cleanupExpired now } (stateOf (cleanupTick now s)) ∧
      ∀ sh id, ((stateOf (cleanupTick now s)).handlesOf sh).view id =
        ((s.handlesOf sh).view id).filter fun of =>
          !(s.shares.values.contains sh && (expiredIDs s now).contains of.sessionID) := by
  obtain ⟨a, s', hrun, hs, hv⟩ := releaseSessions_releases s.shares.values (expiredIDs s now)
    { s with sessions := s.sessions.cleanupExpired now }
  have htick : cleanupTick now s = .ok a s' := hrun
  rw [htick]
  exact ⟨hs, hv⟩

theorem cleanupTick_view (now : GoTime) :
    ((stateOf (cleanupTick now s)).handlesOf sh).view id =
      ((s.handlesOf sh).view id).filter fun of =>
        !(s.shares.values.contains sh && (expiredIDs s now).contains of.sessionID) :=
  (cleanupTick_spec now).2 sh id

theorem cleanupTick_sessions (now : GoTime) :
    (stateOf (cleanupTick now s)).sessions = s.sessions.cleanupExpired now :=
  (cleanupTick_spec now).1.sessions

end Smbfs
