import Smbfs.System.Effects

/-!
The server's tables agree with each other in every state: IDs lead to the
sessions, trees and handles they belong to, and a tree is read-only exactly
if its share is.

* `Tables`: the invariant;
* `step_keeps`: the rule for what every event keeps;
* `Tables.run`: the invariant holds in every reachable state.
-/

namespace Smbfs

open Smbfs.Lib Relation

variable {B : Backend} {P : Platform} {k : ConnId} {msg : SMB2Message} {o : Oracle}
  {s0 s s' : Server B}

/-! ## What no request changes -/

/-- The registry of shares, and what their options and filesystems are. -/
structure SameShares (s s' : Server B) : Prop where
  options : s'.options = s.options
  shares : s'.shares = s.shares
  nextShare : s'.nextShare = s.nextShare
  share_options : ∀ sh, (s'.shareHeap sh).options = (s.shareHeap sh).options
  share_fs : ∀ sh, (s'.shareHeap sh).fs = (s.shareHeap sh).fs

theorem SameShares.refl (s : Server B) : SameShares s s := by constructor <;> intros <;> rfl

theorem SameShares.modifyHandles (s : Server B) (sh : ShareRef)
    (f : B.FileHandleMap → B.FileHandleMap) :
    SameShares s (s.modifyHandles sh f) :=
  ⟨rfl, rfl, rfl, fun _ => Server.modifyHandles_options _ _ _ _,
    fun _ => Server.modifyHandles_fs _ _ _ _⟩

theorem SameShares.trans {s s' s'' : Server B} (h : SameShares s s') (h' : SameShares s' s'') :
    SameShares s s'' :=
  ⟨h'.options.trans h.options, h'.shares.trans h.shares, h'.nextShare.trans h.nextShare,
    fun sh => (h'.share_options sh).trans (h.share_options sh),
    fun sh => (h'.share_fs sh).trans (h.share_fs sh)⟩

theorem Change.sameShares (h : Change P k msg o s0 s s') : SameShares s s' := by
  cases h with
  | allocate | edit | release => exact .modifyHandles _ _ _
  | _ => exact ⟨rfl, rfl, rfl, fun _ => rfl, fun _ => rfl⟩

theorem Sweep.sameShares {now : GoTime} (h : Sweep now s s') : SameShares s s' := by
  cases h with
  | release => exact .modifyHandles _ _ _
  | _ => exact ⟨rfl, rfl, rfl, fun _ => rfl, fun _ => rfl⟩

theorem handleMessage_sameShares (h : ∀ sh, (s.handlesOf sh).WF) :
    SameShares s (handleMessage P k msg o s).2 :=
  chain_invariant (handleMessage_chain h) (fun _ _ hc hs => hs.trans hc.sameShares) (.refl s)

theorem cleanupTick_sameShares (now : GoTime) : SameShares s (stateOf (cleanupTick now s)) :=
  chain_invariant (cleanupTick_runs now).chain (fun _ _ hc hs => hs.trans hc.sameShares) (.refl s)

variable {f : Session → Session}

theorem trees_modifySession {r r' : SessionRef}
    (hf : ∀ x, (f x).trees = x.trees) :
    ((s.modifySession r f).sessions.heap r').trees = (s.sessions.heap r').trees := by
  rw [Server.heap_modifySession]
  split
  · next hr => rw [hr, hf]
  · rfl

/-- **Inversion.** A tree that is there after a change was there before, or
TREE_CONNECT has just made it. -/
theorem Change.tree_cases (hc : Change P k msg o s0 s s') {r : SessionRef} {id : UInt32}
    {t : TreeConnection} (ht : (s'.sessions.heap r).trees.lookup id = some t) :
    (s.sessions.heap r).trees.lookup id = some t ∨
    (s = s0 ∧ id = t.id ∧ ∃ name sh, s0.shares.lookup name = some sh ∧
      t = (s0.sessions.heap r).newTree name sh (s0.shareHeap sh).isReadOnly o.now) := by
  cases hc with
  | createSession =>
    by_cases hr : r = s0.sessions.nextRef
    · subst hr
      simp [SessionManager.createSession, Session.new] at ht
    · simp only [SessionManager.createSession, Function.update_of_ne hr] at ht
      exact .inl ht
  | setAuthenticator | setValid =>
    rw [Server.heap_modifySession] at ht
    split at ht
    · next hr => subst hr; exact .inl ht
    · exact .inl ht
  | destroyNew | logoff =>
    rw [SessionManager.destroySession_heap] at ht
    exact .inl ht
  | addTree _ _ hshare =>
    rw [Server.heap_modifySession] at ht
    split at ht
    · next hr =>
      subst hr
      simp only [Session.addTreeConnection, GoMap.lookup_insert] at ht
      split at ht
      · next hid =>
        cases ht
        exact .inr ⟨rfl, hid, _, _, hshare, rfl⟩
      · exact .inl ht
    · exact .inl ht
  | removeTree =>
    rw [Server.heap_modifySession] at ht
    split at ht
    · next hr =>
      simp only [Session.removeTreeConnection, GoMap.lookup_erase] at ht
      split at ht
      · cases ht
      · exact .inl (hr ▸ ht)
    · exact .inl ht
  | _ => exact .inl ht

/-- `AddShare` leaves every share as it is, or puts a new one in its place. -/
theorem addShare_cases (s : Server B) (fs : Option FsRef) (options : ShareOptions) (sh : ShareRef) :
    (s.addShare fs options).shareHeap sh = s.shareHeap sh ∨
      (s.addShare fs options).shareHeap sh = .new fs options := by
  unfold Server.addShare
  split
  · exact .inl rfl
  · by_cases hsh : sh = s.nextShare
    · subst hsh
      exact .inr (Function.update_self ..)
    · exact .inl (Function.update_of_ne hsh ..)

variable {sh : ShareRef}

/-- The shares there were stay as they are. -/
theorem addShare_old (s : Server B) (fs : Option FsRef) (options : ShareOptions)
    (hsh : sh < s.nextShare) : (s.addShare fs options).shareHeap sh = s.shareHeap sh := by
  unfold Server.addShare
  split
  · rfl
  · exact Function.update_of_ne (Nat.ne_of_lt hsh) ..

theorem addShare_nextShare_le (s : Server B) (fs : Option FsRef) (options : ShareOptions) :
    s.nextShare ≤ (s.addShare fs options).nextShare := by
  unfold Server.addShare
  split
  · exact Nat.le_refl _
  · exact Nat.le_succ _

/-- A name that is registered afterwards was there before, or has the new share. -/
theorem addShare_lookup {fs : Option FsRef} {options : ShareOptions} {name : Str}
    (h : (s.addShare fs options).shares.lookup name = some sh) :
    s.shares.lookup name = some sh ∨ (name = options.shareName ∧ sh = s.nextShare) := by
  unfold Server.addShare at h
  split at h
  · exact .inl h
  · rw [GoMap.lookup_insert] at h
    split at h
    · next hname => exact .inr ⟨hname, (Option.some.inj h).symm⟩
    · exact .inl h

/-- The names that are left are the other ones. -/
theorem removeShare_lookup {removed name : Str}
    (h : (s.removeShare removed).shares.lookup name = some sh) :
    name ≠ removed ∧ s.shares.lookup name = some sh := by
  rw [Server.removeShare, GoMap.lookup_erase] at h
  split at h
  · cases h
  · next hne => exact ⟨hne, h⟩

theorem addShare_sessions (s : Server B) (fs : Option FsRef) (options : ShareOptions) :
    (s.addShare fs options).sessions = s.sessions := by
  unfold Server.addShare
  split <;> rfl

/-! ## The invariant -/

structure Tables (s : Server B) : Prop where
  sessions : s.sessions.WF
  handles : ∀ sh, (s.handlesOf sh).WF
  share_lt : ∀ name sh, s.shares.lookup name = some sh → sh < s.nextShare
  tree_id : ∀ r id t, (s.sessions.heap r).trees.lookup id = some t → t.id = id
  tree_share : ∀ r id t, (s.sessions.heap r).trees.lookup id = some t → t.share < s.nextShare
  tree_readOnly : ∀ r id t, (s.sessions.heap r).trees.lookup id = some t →
    t.isReadOnly = (s.shareHeap t.share).options.readOnly

variable (options : ServerOptions)

namespace Tables

section

variable (h : Tables s)

include h

theorem sessions_modify (r : SessionRef)
    (hf : ∀ x, (f x).id = x.id) : (s.modifySession r f).sessions.WF :=
  h.sessions.modify r hf

theorem handles_modify (sh : ShareRef)
    {f : B.FileHandleMap → B.FileHandleMap} (hf : (f (s.handlesOf sh)).WF) :
    ∀ sh', ((s.modifyHandles sh f).handlesOf sh').WF := by
  intro sh'
  rw [Server.handlesOf_modifyHandles]
  split
  · exact hf
  · exact h.handles sh'

theorem sessions_change (hc : Change P k msg o s0 s s') : s'.sessions.WF := by
  cases hc with
  | createSession => exact h.sessions.createSession _ _ _ _ _
  | setAuthenticator | setValid | removeTree | addTree =>
    refine h.sessions_modify _ fun x => ?_
    rfl
  | destroyNew | logoff => exact h.sessions.destroySession _
  | _ => exact h.sessions

theorem handles_change (hc : Change P k msg o s0 s s') :
    ∀ sh, (s'.handlesOf sh).WF := by
  cases hc with
  | allocate _ _ _ _ _ _ hheap =>
    refine h.handles_modify _ ((h.handles _).allocate ?_)
    simp only [Server.handlesOf, hheap]
    rfl
  | edit _ he =>
    refine h.handles_modify _ ((h.handles _).modifyID _ fun of => ?_)
    cases he <;> rfl
  | release => exact h.handles_modify _ ((h.handles _).release _)
  | _ => exact h.handles

omit h in
theorem change (h0 : Tables s0) (h : Tables s) (hc : Change P k msg o s0 s s') : Tables s' := by
  have hsame := hc.sameShares
  refine ⟨h.sessions_change hc, h.handles_change hc, ?_, ?_, ?_, ?_⟩
  · rw [hsame.shares, hsame.nextShare]
    exact h.share_lt
  all_goals
    intro r id t ht
    rcases hc.tree_cases ht with hold | ⟨rfl, hid, name, sh, hname, rfl⟩
  · exact h.tree_id r id t hold
  · exact hid.symm
  · rw [hsame.nextShare]
    exact h.tree_share r id t hold
  · rw [hsame.nextShare]
    exact h0.share_lt name sh hname
  · rw [hsame.share_options]
    exact h.tree_readOnly r id t hold
  · rw [hsame.share_options]
    rfl

theorem sweep {now : GoTime} (hc : Sweep now s s') : Tables s' := by
  have hsame := hc.sameShares
  have hheap : s'.sessions.heap = s.sessions.heap := by
    cases hc with
    | expire => exact SessionManager.cleanupExpired_heap _ _
    | _ => rfl
  refine ⟨?_, ?_, ?_, ?_, ?_, ?_⟩
  · cases hc with
    | expire => exact h.sessions.cleanupExpired now
    | _ => exact h.sessions
  · cases hc with
    | release sh id => exact h.handles_modify sh ((h.handles sh).release id)
    | _ => exact h.handles
  · rw [hsame.shares, hsame.nextShare]
    exact h.share_lt
  · rw [hheap]
    exact h.tree_id
  · rw [hheap, hsame.nextShare]
    exact h.tree_share
  · simp only [hheap, hsame.share_options]
    exact h.tree_readOnly

theorem setConn (k : ConnId) (c : ConnState) : Tables (s.setConn k c) :=
  { h with }

theorem handleMessage : Tables (handleMessage P k msg o s).2 :=
  chain_invariant (handleMessage_chain h.handles) (fun _ _ hc ht => h.change ht hc) h

theorem cleanupTick (now : GoTime) : Tables (stateOf (cleanupTick now s)) :=
  chain_invariant (cleanupTick_runs now).chain (fun _ _ hc ht => ht.sweep hc) h

theorem addShare (fs : Option FsRef) (options : ShareOptions) :
    Tables (s.addShare fs options) := by
  have hhandles : ∀ sh, ((s.addShare fs options).handlesOf sh).WF := by
    intro sh
    rcases addShare_cases s fs options sh with heq | heq <;> rw [Server.handlesOf, heq]
    · exact h.handles sh
    · exact FileHandleMap.WF.new
  unfold Server.addShare at hhandles ⊢
  split at hhandles
  · next hguard => rw [if_pos hguard]; exact h
  · next hguard =>
    rw [if_neg hguard]
    -- the new share is at a reference that no tree and no name has
    have hold : ∀ sh, sh < s.nextShare →
        Function.update s.shareHeap s.nextShare (.new fs options) sh = s.shareHeap sh :=
      fun sh hsh => Function.update_of_ne (Nat.ne_of_lt hsh) _ _
    refine ⟨h.sessions, hhandles, ?_, h.tree_id, ?_, ?_⟩
    · intro name sh hname
      rw [GoMap.lookup_insert] at hname
      split at hname
      · cases hname
        exact Nat.lt_succ_self _
      · exact Nat.lt_succ_of_lt (h.share_lt name sh hname)
    · intro r id t ht
      exact Nat.lt_succ_of_lt (h.tree_share r id t ht)
    · intro r id t ht
      dsimp only at ht ⊢
      rw [hold t.share (h.tree_share r id t ht)]
      exact h.tree_readOnly r id t ht

theorem removeShare (shareName : Str) : Tables (s.removeShare shareName) :=
  { h with share_lt := fun name sh hname => h.share_lt name sh (removeShare_lookup hname).2 }

end

theorem initial (rand : Bytes) (disks : FsRef → B.Disk) :
    Tables (newServer options rand disks) := by
  refine ⟨.new _, fun _ => .new, fun name sh hname => ?_, ?_, ?_, ?_⟩
  · simp only [newServer, GoMap.lookup_insert] at hname
    split at hname
    · cases hname
      exact Nat.one_pos
    · simp at hname
  all_goals
    intro r id t ht
    simp [newServer, newSessionManager, Session.new] at ht

end Tables

/-! ## Events -/

theorem ite_setHash (k : ConnId) (s : Server B) (p : Prop) [Decidable p] (hash : Bytes) :
    ∃ hash', (if p then s.setConn k { s.conns k with preauthHash := hash } else s) =
      s.setConn k { s.conns k with preauthHash := hash' } := by
  split
  · exact ⟨hash, rfl⟩
  · exact ⟨(s.conns k).preauthHash, by simp [Server.setConn]⟩

/-- The connection loop writes nothing but the preauthentication hash. -/
theorem hashRequest_eq (P : Platform) (k : ConnId) (msg : SMB2Message) (s : Server B) :
    ∃ hash, hashRequest P k msg s = s.setConn k { s.conns k with preauthHash := hash } :=
  ite_setHash k s _ _

theorem hashResponse_eq (P : Platform) (k : ConnId) (r : SMB2Response) (s : Server B) :
    ∃ hash, hashResponse P k r s = s.setConn k { s.conns k with preauthHash := hash } :=
  ite_setHash k s _ _

variable {sys : System B}

/-- A message is handled between two writes to the state of its connection. -/
theorem step_message (P : Platform) (k : ConnId) (msg : SMB2Message) (o : Oracle)
    (h : sys.crashed = false) :
    ∃ c c', (sys.step P (.message k msg o)).server =
      (handleMessage P k msg o (sys.server.setConn k c)).2.setConn k c' := by
  obtain ⟨hash, hc⟩ := hashRequest_eq P k msg sys.server
  have hkeep : ∀ s : Server B, s = s.setConn k (s.conns k) := fun s => by simp [Server.setConn]
  refine ⟨{ sys.server.conns k with preauthHash := hash }, ?_⟩
  simp only [System.step, h, Bool.false_eq_true, if_false, System.react, processMessage, hc]
  generalize handleMessage P k msg o (sys.server.setConn k _) = out
  cases out with
  | mk out s =>
    cases out with
    | crash => exact ⟨s.conns k, hkeep s⟩
    | silent => exact ⟨s.conns k, hkeep s⟩
    | response r =>
      obtain ⟨hash', hr⟩ := hashResponse_eq P k r s
      exact ⟨_, hr⟩

theorem step_crashed (h : sys.crashed = true) (e : Event) : sys.step P e = sys := by
  simp [System.step, h]

theorem step_react (h : sys.crashed = false) (e : Event) :
    sys.step P e = System.react P sys.server e := by
  simp [System.step, h]

theorem react_message (P : Platform) (k : ConnId) (msg : SMB2Message) (o : Oracle) (s : Server B) :
    System.react P s (.message k msg o) =
      ⟨(processMessage P k msg o s).2, (processMessage P k msg o s).1.isCrash⟩ := by
  simp only [System.react]
  generalize processMessage P k msg o s = out
  obtain ⟨out, s⟩ := out
  cases out <;> rfl

/-- **Event rule.** What the handling of a message, `AddShare`, `RemoveShare` and
a cleanup tick keep is kept by every event, if connections do not matter to it. -/
theorem step_keeps {I : Server B → Prop} {e : Event} (hconn : ∀ s k c, I s → I (s.setConn k c))
    (hmsg : ∀ k msg o c, e = .message k msg o → sys.crashed = false →
      I (sys.server.setConn k c) → I (handleMessage P k msg o (sys.server.setConn k c)).2)
    (hadd : ∀ fs options, I sys.server → I (sys.server.addShare fs options))
    (hremove : ∀ name, e = .removeShare name → I sys.server → I (sys.server.removeShare name))
    (hclean : ∀ now, I sys.server → I (stateOf (cleanupTick now sys.server)))
    (h : I sys.server) : I (sys.step P e).server := by
  cases hcr : sys.crashed with
  | true => rw [step_crashed hcr]; exact h
  | false =>
    cases e with
    | message k msg o =>
      obtain ⟨c, c', heq⟩ := step_message P k msg o hcr
      rw [heq]
      exact hconn _ k c' (hmsg k msg o c rfl hcr (hconn _ k c h))
    | connect k addr => rw [step_react hcr]; exact hconn _ k (.new addr) h
    | addShare fs options => rw [step_react hcr]; exact hadd fs options h
    | removeShare name => rw [step_react hcr]; exact hremove name rfl h
    | cleanup now => rw [step_react hcr]; exact hclean now h

theorem Tables.step (h : Tables sys.server) (e : Event) : Tables (sys.step P e).server :=
  step_keeps (fun _ k c ht => ht.setConn k c) (fun _ _ _ _ _ _ ht => ht.handleMessage)
    (fun fs options ht => ht.addShare fs options) (fun name _ ht => ht.removeShare name)
    (fun now ht => ht.cleanupTick now) h

/-- **Tables.** They agree in every reachable state. -/
theorem Tables.run (rand : Bytes) (disks : FsRef → B.Disk)
    (es : List Event) : Tables (System.run P (.initial options rand disks) es).server :=
  runFrom_invariant (I := fun sys : System B => Tables sys.server) (fun _ e h => h.step e)
    (.initial options rand disks) es

end Smbfs
