import Smbfs.Server.HandleIndex
import Smbfs.System.Handles

/-!
What an event does to one handle map, without the rest of the server.

* `HandleStep`: the operations on a map, with those records apart whose path may
  change;
* `step_handles`: an event is a chain of such operations on every map, or the map
  is that of a share which has just been added;
* `AllMaps.step`: what the operations keep, the events keep of every map.
-/

namespace Smbfs

open Smbfs.Lib Relation

variable {B : Backend} {P : Platform} {k : ConnId} {msg : SMB2Message} {o : Oracle}
  {s0 s s' : Server B} {sh : ShareRef}

/-- An operation on a handle map; only the records in `renames` get another path,
and only with `releases` do handles go. -/
inductive HandleStep {File : Type} (renames : FileID → Prop) (releases : Prop) :
    FileHandleMap File → FileHandleMap File → Prop where
  | allocate {m} (of : OpenFile File) (hid : of.id.volatile = m.nextHandle) :
      HandleStep renames releases m (m.allocate of)
  | edit {m} (id : FileID) (f : OpenFile File → OpenFile File) (hid : ∀ of, (f of).id = of.id)
      (hpath : renames id ∨ ∀ of, (f of).path = of.path) :
      HandleStep renames releases m (m.modifyID id f)
  | release {m} (id : FileID) (hrel : releases) : HandleStep renames releases m (m.release id)

/-- The handles whose path a message may change: those SET_INFO finds. -/
def mayRename (s : Server B) (sh : ShareRef) (msg : SMB2Message) (id : FileID) : Prop :=
  msg.cmd = .setInfo ∧ (s.handlesOf sh).view id ≠ none

variable {renames : FileID → Prop}

theorem modifyHandles_step {releases : Prop}
    {f : B.FileHandleMap → B.FileHandleMap} {sh' : ShareRef}
    (h : sh = sh' → HandleStep renames releases (s.handlesOf sh) (f (s.handlesOf sh))) :
    ReflGen (HandleStep renames releases) (s.handlesOf sh)
      ((s.modifyHandles sh' f).handlesOf sh) := by
  rw [Server.handlesOf_modifyHandles]
  split
  · next hsh =>
    subst hsh
    exact .single (h rfl)
  · exact .refl

theorem Change.handleStep (hc : Change P k msg o s0 s s') (sh : ShareRef) :
    ReflGen (HandleStep (mayRename s0 sh msg) (msg.cmd.releases = true)) (s.handlesOf sh)
      (s'.handlesOf sh) := by
  cases hc with
  | allocate file isDir hauth hcmd hname hcheck hheap =>
    refine modifyHandles_step fun hsh => ?_
    subst hsh
    refine .allocate _ ?_
    rw [Server.handlesOf, Server.handlesOf, hheap]
    rfl
  | edit ht he =>
    refine modifyHandles_step fun hsh => ?_
    subst hsh
    cases he with
    | lastAccess | deleteOnClose => exact .edit _ _ (fun _ => rfl) (.inr fun _ => rfl)
    | path hcmd =>
      exact .edit _ _ (fun _ => rfl) (.inl ⟨hcmd, by rw [ht.view_eq]; exact Option.some_ne_none _⟩)
  | release _ _ hrel => exact modifyHandles_step fun _ => .release _ hrel
  | _ => exact .refl

theorem Sweep.handleStep {now : GoTime} (hc : Sweep now s s') (sh : ShareRef) :
    ReflGen (HandleStep (fun _ => False) True) (s.handlesOf sh) (s'.handlesOf sh) := by
  cases hc with
  | release => exact modifyHandles_step fun _ => .release _ trivial
  | _ => exact .refl

/-! ## Events -/

/-- The handles whose path an event may change. -/
def Event.mayRename (s : Server B) (sh : ShareRef) : Event → FileID → Prop
  | .message _ msg _, id => Smbfs.mayRename s sh msg id
  | _, _ => False

/-- The events that release handles. -/
def Event.releases : Event → Prop
  | .message _ msg _ => msg.cmd.releases = true
  | .cleanup _ => True
  | _ => False

theorem chain_handles {R : Server B → Server B → Prop} {releases : Prop} (hR : ∀ t t', R t t' →
      ReflGen (HandleStep renames releases) (t.handlesOf sh) (t'.handlesOf sh))
    (h : ReflTransGen R s s') :
    ReflTransGen (HandleStep renames releases) (s.handlesOf sh) (s'.handlesOf sh) :=
  chain_invariant (I := fun t => ReflTransGen _ (s.handlesOf sh) (t.handlesOf sh)) h
    (fun t t' hc ht => ht.trans (hR t t' hc).to_reflTransGen) .refl

/-- **An event and a handle map.** -/
theorem step_handles {sys : System B} (h : Tables sys.server) (e : Event) (sh : ShareRef) :
    ReflTransGen (HandleStep (e.mayRename sys.server sh) e.releases) (sys.server.handlesOf sh)
      ((sys.step P e).server.handlesOf sh) ∨
    (sys.server.nextShare ≤ sh ∧ (sys.step P e).server.handlesOf sh = newFileHandleMap _) := by
  cases hcr : sys.crashed with
  | true =>
    rw [step_crashed hcr]
    exact .inl .refl
  | false =>
    cases e with
    | message k msg o =>
      obtain ⟨c, c', heq⟩ := step_message P k msg o hcr
      rw [heq]
      have hchain : ReflTransGen (Change P k msg o (sys.server.setConn k c))
          (sys.server.setConn k c) (handleMessage P k msg o (sys.server.setConn k c)).2 :=
        handleMessage_chain (h.setConn k c).handles
      have hsteps := chain_handles (fun _ _ hc => Change.handleStep hc sh) hchain
      exact .inl hsteps
    | cleanup now =>
      rw [step_react hcr]
      exact .inl (chain_handles (fun _ _ hc => Sweep.handleStep hc sh)
        (cleanupTick_runs (s := sys.server) now).chain)
    | connect | removeShare =>
      rw [step_react hcr]
      exact .inl .refl
    | addShare fs options =>
      rw [step_react hcr]
      rcases Nat.lt_or_ge sh sys.server.nextShare with hlt | hge
      · refine .inl ?_
        rw [show (System.react P sys.server (.addShare fs options)).server.handlesOf sh =
          sys.server.handlesOf sh from congrArg Share.fileHandles (addShare_old _ _ _ hlt)]
      · rcases addShare_cases sys.server fs options sh with heq | heq
        · refine .inl ?_
          rw [show (System.react P sys.server (.addShare fs options)).server.handlesOf sh =
            sys.server.handlesOf sh from congrArg Share.fileHandles heq]
        · exact .inr ⟨hge, congrArg Share.fileHandles heq⟩

/-- Shares are only added. -/
theorem step_nextShare_le {sys : System B} (h : Tables sys.server) (e : Event) :
    sys.server.nextShare ≤ (sys.step P e).server.nextShare := by
  refine (step_keeps (I := fun s => (∀ sh, (s.handlesOf sh).WF) ∧ sys.server.nextShare ≤ s.nextShare)
    (fun _ _ _ hs => hs) ?_ ?_ (fun _ _ hs => hs) ?_ ⟨h.handles, Nat.le_refl _⟩).2
  · rintro k msg o c - - ⟨hwf, hle⟩
    have hsame : SameShares _ (handleMessage P k msg o (sys.server.setConn k c)).2 :=
      handleMessage_sameShares hwf
    exact ⟨(h.setConn k c).handleMessage.handles, hle.trans (Nat.le_of_eq hsame.nextShare.symm)⟩
  · rintro fs options ⟨-, hle⟩
    exact ⟨(h.addShare fs options).handles, hle.trans (addShare_nextShare_le _ _ _)⟩
  · rintro now ⟨-, hle⟩
    exact ⟨(h.cleanupTick now).handles,
      hle.trans (Nat.le_of_eq (cleanupTick_sameShares now).nextShare.symm)⟩

/-! ## Invariants of the maps -/

theorem HandleStep.wf {File : Type} {releases : Prop}
    {m m' : FileHandleMap File} (h : HandleStep renames releases m m') (hwf : m.WF) : m'.WF := by
  cases h with
  | allocate of hid => exact hwf.allocate hid
  | edit id f hid => exact hwf.modifyID id hid
  | release id => exact hwf.release id

theorem HandleStep.filed {File : Type} {releases : Prop}
    {m m' : FileHandleMap File} (h : HandleStep renames releases m m') (hwf : m.WF)
    (hf : m.Filed) : m'.Filed := by
  cases h with
  | allocate of hid => exact hf.allocate hwf hid
  | edit id f hid => exact hf.modifyID hwf id hid
  | release id => exact hf.release hwf id

/-- Every handle map has `K`. -/
def AllMaps (K : B.FileHandleMap → Prop) (s : Server B) : Prop :=
  ∀ sh, K (s.handlesOf sh)

/-- **Map rule.** What a new map has and the operations keep, every map has after
the event. -/
theorem AllMaps.step {K : B.FileHandleMap → Prop} (hnew : K (newFileHandleMap _))
    (hstep : ∀ renames releases m m', HandleStep renames releases m m' → m.WF → K m → K m')
    {sys : System B} (h : Tables sys.server) (hK : AllMaps K sys.server) (e : Event) :
    AllMaps K (sys.step P e).server := by
  intro sh
  rcases step_handles (P := P) h e sh with hchain | ⟨-, hnew'⟩
  · refine (chain_invariant (I := fun m => m.WF ∧ K m) hchain ?_ ⟨h.handles sh, hK sh⟩).2
    rintro m m' hs ⟨hwf, hm⟩
    exact ⟨hs.wf hwf, hstep _ _ m m' hs hwf hm⟩
  · rw [hnew']
    exact hnew

/-- The handles are listed under one path each. -/
theorem AllMaps.filed_step {sys : System B} (h : Tables sys.server)
    (hf : AllMaps FileHandleMap.Filed sys.server) (e : Event) :
    AllMaps FileHandleMap.Filed (sys.step P e).server :=
  AllMaps.step .new (fun _ _ _ _ hs hwf hm => hs.filed hwf hm) h hf e

end Smbfs
