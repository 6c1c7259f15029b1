import Smbfs.System.Create
import Smbfs.System.Handles
import Smbfs.System.Samples

/-!
`RemoveShare`. It takes the share out of the registry and nothing else: tree
connections keep their pointer to the share, so requests through them go on,
and the cleanup loop only visits the shares of the registry, so handles on the
share outlive their session.

* `Detached.step`: a share that is not registered, not connected to and has no
  open handle stays so;
* `share_removal_iff`: removal revokes everything, whatever comes later,
  exactly if the share was not in use or has no filesystem;
* `removed_share_in_use`: a share that is in use goes on being used.
-/

namespace Smbfs

open Smbfs.Lib Relation

variable {B : Backend} {P : Platform} {k : ConnId} {msg : SMB2Message} {o : Oracle}
  {s0 s s' : Server B} {sh : ShareRef}

/-! ## Use of a share -/

/-- The session is in the table and has a tree connection to the share. -/
def ConnectedTo (s : Server B) (sh : ShareRef) (id : UInt64) (r : SessionRef) : Prop :=
  s.sessions.sessions.lookup id = some r ∧
    ∃ treeID tree, (s.sessions.heap r).trees.lookup treeID = some tree ∧ tree.share = sh

def NoHandles (s : Server B) (sh : ShareRef) : Prop := ∀ id, (s.handlesOf sh).view id = none

/-- No session is connected to the share, and no handle is open on it. -/
structure Unused (s : Server B) (sh : ShareRef) : Prop where
  connections : ∀ id r, ¬ ConnectedTo s sh id r
  handles : NoHandles s sh

/-- The share is not used, and no TREE_CONNECT finds it. -/
structure Detached (s : Server B) (sh : ShareRef) : Prop extends Unused s sh where
  lt_next : sh < s.nextShare
  unregistered : ∀ name, s.shares.lookup name ≠ some sh

/-! ## Detached shares -/

variable {r : SessionRef}

/-- A session of the table after a change was there before, or is new and has no trees. -/
theorem Change.lookup_cases (hc : Change P k msg o s0 s s') {id : UInt64}
    (hr : s'.sessions.sessions.lookup id = some r) :
    s.sessions.sessions.lookup id = some r ∨ (s'.sessions.heap r).trees = ∅ := by
  cases hc with
  | createSession =>
    rw [SessionManager.createSession_lookup] at hr
    split at hr
    · cases hr
      exact .inr (by simp [SessionManager.createSession, Session.new])
    · exact .inl hr
  | destroyNew | logoff =>
    rw [SessionManager.destroySession_lookup] at hr
    split at hr
    · cases hr
    · exact .inl hr
  | _ => exact .inl hr

theorem Detached.no_tree (h : Detached s sh) {tree : TreeConnection}
    (hauth : Auth s msg r tree) : tree.share ≠ sh := by
  intro hsh
  have hlookup := (SessionManager.validateSession_eq_some.mp hauth.session_eq).1
  exact h.connections _ r ⟨hlookup, _, tree, hauth.tree_eq, hsh⟩

theorem Detached.change (h0 : Detached s0 sh) (hwf : Tables s) (h : Detached s sh)
    (hc : Change P k msg o s0 s s') : Detached s' sh := by
  refine ⟨⟨?_, ?_⟩, ?_, ?_⟩
  · rintro id r ⟨hlookup, treeID, tree, htree, hsh⟩
    rcases hc.tree_cases htree with hold | ⟨-, -, name, sh', hshare, rfl⟩
    · rcases hc.lookup_cases hlookup with hin | hnew
      · exact h.connections id r ⟨hin, treeID, tree, hold, hsh⟩
      · rw [hnew] at htree
        simp at htree
    · exact h0.unregistered name (hshare.trans (congrArg some hsh))
  · intro id
    refine Option.eq_none_iff_forall_ne_some.mpr fun of hview => ?_
    rcases hc.view_cases hwf hview with hold | ⟨-, hcreated⟩ | ⟨old, hold, -⟩
    · cases (h.handles id).symm.trans hold
    · obtain ⟨r, tree, filename, file, isDir, hauth, -, hsh, -⟩ := hcreated
      exact h0.no_tree hauth hsh
    · cases (h.handles id).symm.trans hold
  · rw [hc.sameShares.nextShare]
    exact h.lt_next
  · rw [hc.sameShares.shares]
    exact h.unregistered

theorem Detached.handleMessage (hwf : Tables s) (h : Detached s sh) :
    Detached (handleMessage P k msg o s).2 sh :=
  (chain_invariant (I := fun t => Tables t ∧ Detached t sh) (handleMessage_chain hwf.handles)
    (fun _ _ hc ⟨ht, hd⟩ => ⟨hwf.change ht hc, h.change ht hd hc⟩) ⟨hwf, h⟩).2

theorem Detached.cleanupTick (h : Detached s sh) (now : GoTime) :
    Detached (stateOf (cleanupTick now s)) sh := by
  have hsame := cleanupTick_sameShares (s := s) now
  refine ⟨⟨?_, ?_⟩, ?_, ?_⟩
  · rintro id r ⟨hlookup, htree⟩
    rw [cleanupTick_sessions, SessionManager.cleanupExpired_lookup] at hlookup
    rw [cleanupTick_sessions, SessionManager.cleanupExpired_heap] at htree
    split at hlookup
    · cases hlookup
    · exact h.connections id r ⟨hlookup, htree⟩
  · intro id
    rw [cleanupTick_view, h.handles id]
    rfl
  · rw [hsame.nextShare]
    exact h.lt_next
  · rw [hsame.shares]
    exact h.unregistered

theorem Detached.addShare (h : Detached s sh) (fs : Option FsRef) (options : ShareOptions) :
    Detached (s.addShare fs options) sh := by
  refine ⟨⟨?_, ?_⟩, Nat.lt_of_lt_of_le h.lt_next (addShare_nextShare_le ..), ?_⟩
  · intro id r hconn
    rw [ConnectedTo, addShare_sessions] at hconn
    exact h.connections id r hconn
  · intro id
    rw [Server.handlesOf, addShare_old s fs options h.lt_next]
    exact h.handles id
  · intro name hname
    rcases addShare_lookup hname with hold | ⟨-, hnew⟩
    · exact h.unregistered name hold
    · exact absurd hnew (Nat.ne_of_lt h.lt_next)

theorem Detached.removeShare (h : Detached s sh) (name : Str) :
    Detached (s.removeShare name) sh := by
  refine ⟨⟨h.connections, h.handles⟩, h.lt_next, fun name' hname => ?_⟩
  exact h.unregistered name' (removeShare_lookup hname).2

variable {sys : System B}

theorem Detached.step (hwf : Tables sys.server) (h : Detached sys.server sh) (e : Event) :
    Detached (sys.step P e).server sh :=
  step_keeps (I := fun t => Detached t sh)
    (fun _ _ _ hd => ⟨⟨hd.connections, hd.handles⟩, hd.lt_next, hd.unregistered⟩)
    (fun k _ _ c _ _ hd => hd.handleMessage (hwf.setConn k c))
    (fun fs options hd => hd.addShare fs options) (fun name _ hd => hd.removeShare name)
    (fun now hd => hd.cleanupTick now) h

/-! ## Shares without a filesystem -/

/-- The share was added, with a nil filesystem. -/
def NoFs (s : Server B) (sh : ShareRef) : Prop := sh < s.nextShare ∧ (s.shareHeap sh).fs = none

theorem NoFs.of_sameShares (h : NoFs s sh) (hsame : SameShares s s') : NoFs s' sh :=
  ⟨hsame.nextShare ▸ h.1, (hsame.share_fs sh).trans h.2⟩

theorem NoFs.step (hwf : Tables sys.server) (h : NoFs sys.server sh) (e : Event) :
    NoFs (sys.step P e).server sh := by
  refine step_keeps (I := fun t => NoFs t sh) (fun _ _ _ hn => hn) ?_ ?_ (fun _ _ hn => hn) ?_ h
  · intro k msg o c _ _ hn
    exact hn.of_sameShares (handleMessage_sameShares (hwf.setConn k c).handles)
  · intro fs options hn
    refine ⟨Nat.lt_of_lt_of_le hn.1 (addShare_nextShare_le ..), ?_⟩
    rw [addShare_old _ fs options hn.1]
    exact hn.2
  · intro now hn
    exact hn.of_sameShares (cleanupTick_sameShares now)

/-- Every handle has a file of its share's filesystem. -/
theorem NoFs.noHandles (h : NoFs s sh) (hfiles : HandlesOnShare s) : NoHandles s sh := by
  intro id
  refine Option.eq_none_iff_forall_ne_some.mpr fun of hview => ?_
  obtain ⟨-, f, -, hfs⟩ := hfiles sh id of hview
  cases h.2.symm.trans hfs

/-! ## Names and trees in reachable states -/

/-- A share has one name at most. -/
def UniqueNames (s : Server B) : Prop :=
  ∀ name name' sh, s.shares.lookup name = some sh → s.shares.lookup name' = some sh → name = name'

theorem UniqueNames.step (hwf : Tables sys.server) (h : UniqueNames sys.server) (e : Event) :
    UniqueNames (sys.step P e).server := by
  refine step_keeps (I := UniqueNames) (fun _ _ _ hn => hn) ?_ ?_ ?_ ?_ h
  · intro k msg o c _ _ hn
    rw [UniqueNames, (handleMessage_sameShares (hwf.setConn k c).handles).shares]
    exact hn
  · intro fs options hn name name' sh hname hname'
    -- the new share is at a reference that no name has
    have hfresh : ∀ n, sys.server.shares.lookup n ≠ some sys.server.nextShare :=
      fun n hlookup => Nat.lt_irrefl _ (hwf.share_lt n _ hlookup)
    rcases addShare_lookup hname with hold | ⟨heq, hsh⟩ <;>
      rcases addShare_lookup hname' with hold' | ⟨heq', hsh'⟩
    · exact hn name name' sh hold hold'
    · exact absurd (hsh' ▸ hold) (hfresh name)
    · exact absurd (hsh ▸ hold') (hfresh name')
    · exact heq.trans heq'.symm
  · intro removed _ hn name name' sh hname hname'
    exact hn name name' sh (removeShare_lookup hname).2 (removeShare_lookup hname').2
  · intro now hn
    rw [UniqueNames, (cleanupTick_sameShares now).shares]
    exact hn

/-- Only valid sessions have trees. -/
def TreesValid (s : Server B) : Prop :=
  ∀ r id t, (s.sessions.heap r).trees.lookup id = some t → (s.sessions.heap r).state = .valid

namespace TreesValid

/-- A write that keeps a valid session valid, and adds trees to valid sessions only. -/
theorem modifySession (h : TreesValid s) (r : SessionRef) {f : Session → Session}
    (hf : ∀ id t, (f (s.sessions.heap r)).trees.lookup id = some t →
      (f (s.sessions.heap r)).state = .valid) : TreesValid (s.modifySession r f) := by
  intro r' id t ht
  rw [Server.heap_modifySession] at ht ⊢
  split at ht
  · next hr =>
    rw [if_pos hr]
    exact hf id t ht
  · next hr =>
    rw [if_neg hr]
    exact h r' id t ht

theorem change (h : TreesValid s) (hc : Change P k msg o s0 s s') : TreesValid s' := by
  cases hc with
  | createSession =>
    intro r id t ht
    by_cases hr : r = s0.sessions.nextRef
    · subst hr
      simp [SessionManager.createSession, Session.new] at ht
    · simp only [SessionManager.createSession, Function.update_of_ne hr] at ht ⊢
      exact h r id t ht
  | setAuthenticator => exact h.modifySession _ fun id t ht => h _ id t ht
  | setValid => exact h.modifySession _ fun _ _ _ => rfl
  | destroyNew | logoff =>
    intro r id t ht
    rw [SessionManager.destroySession_heap] at ht ⊢
    exact h r id t ht
  | addTree _ hsession =>
    refine h.modifySession _ fun _ _ _ => ?_
    exact (SessionManager.validateSession_eq_some.mp hsession).2
  | removeTree _ hauth hs =>
    refine h.modifySession _ fun _ _ _ => ?_
    rw [hs]
    exact (SessionManager.validateSession_eq_some.mp hauth.session_eq).2
  | _ => exact h

theorem step (hwf : Tables sys.server) (h : TreesValid sys.server) (e : Event) :
    TreesValid (sys.step P e).server := by
  refine step_keeps (I := TreesValid) (fun _ _ _ ht => ht) ?_ ?_ (fun _ _ ht => ht) ?_ h
  · intro k msg o c _ _ ht
    exact chain_invariant (handleMessage_chain (hwf.setConn k c).handles)
      (fun _ _ hc ht => ht.change hc) ht
  · intro fs options ht
    rw [TreesValid, addShare_sessions]
    exact ht
  · intro now ht
    rw [TreesValid, cleanupTick_sessions, SessionManager.cleanupExpired_heap]
    exact ht

end TreesValid

/-- What holds in every reachable state. -/
structure Reached (s : Server B) : Prop where
  tables : Tables s
  files : HandlesOnShare s
  names : UniqueNames s
  trees : TreesValid s

theorem Reached.step (h : Reached sys.server) (e : Event) : Reached (sys.step P e).server :=
  ⟨h.tables.step e, h.files.step h.tables e, h.names.step h.tables e, h.trees.step h.tables e⟩

theorem Reached.initial (options : ServerOptions) (rand : Bytes) (disks : FsRef → B.Disk) :
    Reached (newServer options rand disks) := by
  refine ⟨.initial options rand disks, .initial options rand disks, ?_, ?_⟩
  · intro name name' sh hname hname'
    simp only [newServer, GoMap.lookup_insert] at hname hname'
    split at hname <;> split at hname' <;> simp_all
  · intro r id t ht
    simp [newServer, newSessionManager, Session.new] at ht

theorem Reached.run (options : ServerOptions) (rand : Bytes) (disks : FsRef → B.Disk)
    (es : List Event) : Reached (System.run P (.initial options rand disks) es).server :=
  runFrom_invariant (I := fun sys : System B => Reached sys.server) (fun _ e h => h.step e)
    (.initial options rand disks) es

/-! ## Revocation -/

/-- `Close`, which neither reads nor modifies the filesystem. -/
def FsCall.isClose {File : Type} : FsCall File → Bool
  | .close _ => true
  | _ => false

/-- The calls between two states. -/
def newCalls (s s' : Server B) : List (FsRef × FsCall B.File) := s'.log.drop s.log.length

/-- A request through a tree connection to the share does not read or modify
the filesystem of the share. -/
def NoAccess (P : Platform) (sh : ShareRef) (sys : System B) (e : Event) : Prop :=
  match e with
  | .message _ msg _ => sys.crashed = false → ∀ tree ∈ treeOf sys.server msg, tree.share = sh →
      ∀ x ∈ newCalls sys.server (sys.step P e).server,
        (sys.server.shareHeap sh).fs = some x.1 → x.2.isClose = true
  | _ => True

/-- Access to the share and its handles are revoked over the events `later`
that follow its removal from `s`. -/
structure Revoked (P : Platform) (s : Server B) (sh : ShareRef) (sys : System B)
    (later : List Event) : Prop where
  requests : Along (System.step P) (NoAccess P sh) sys later
  handles : (∀ id r, ConnectedTo s sh id r →
      (System.run P sys later).server.sessions.sessions.lookup id ≠ some r) →
    NoHandles (System.run P sys later).server sh

theorem Detached.noAccess (h : Detached sys.server sh) (e : Event) : NoAccess P sh sys e := by
  cases e with
  | message k msg o =>
    intro _ tree htree hsh
    obtain ⟨r, hsession, hlookup⟩ := Option.bind_eq_some_iff.mp htree
    exact absurd hsh (h.no_tree ⟨hsession, hlookup⟩)
  | _ => trivial

theorem NoFs.noAccess (h : NoFs sys.server sh) (e : Event) : NoAccess P sh sys e := by
  cases e with
  | message k msg o =>
    intro _ tree _ _ x _ hfs
    cases h.2.symm.trans hfs
  | _ => trivial

/-- **Revocation rule.** What every event keeps, allows no access and leaves no
handles revokes the share. -/
theorem revoked_of_invariant {I : Server B → Prop}
    (hstep : ∀ (sys : System B) e, Reached sys.server → I sys.server → I (sys.step P e).server)
    (haccess : ∀ (sys : System B) e, I sys.server → NoAccess P sh sys e)
    (hhandles : ∀ s : Server B, Reached s → I s → NoHandles s sh) (hreached : Reached sys.server)
    (h : I sys.server) (later : List Event) :
    Revoked P s sh sys later := by
  have hkeep : ∀ (sys : System B) e, Reached sys.server ∧ I sys.server →
      Reached (sys.step P e).server ∧ I (sys.step P e).server :=
    fun sys e ⟨hr, hi⟩ => ⟨hr.step e, hstep sys e hr hi⟩
  constructor
  · induction later generalizing sys with
    | nil => trivial
    | cons e later ih =>
      obtain ⟨hr, hi⟩ := hkeep sys e ⟨hreached, h⟩
      exact ⟨haccess sys e h, ih hr hi⟩
  · intro _
    have hend := runFrom_invariant (I := fun sys : System B => Reached sys.server ∧ I sys.server)
      hkeep ⟨hreached, h⟩ later
    exact hhandles _ hend.1 hend.2

/-- The removed share has no name left. -/
theorem Unused.detached (h : Unused s sh) (hreached : Reached s) {name : Str}
    (hname : s.shares.lookup name = some sh) : Detached (s.removeShare name) sh := by
  refine ⟨⟨h.connections, h.handles⟩, hreached.tables.share_lt name sh hname, ?_⟩
  intro name' hname'
  obtain ⟨hne, hold⟩ := removeShare_lookup hname'
  exact hne (hreached.names name' name sh hold hname)

/-! ## A request that gets through -/

/-- CREATE that asks for no access, shares everything and has no valid
disposition: it gets as far as `Stat`. -/
def probe (sessionID : UInt64) (treeID : UInt32) : SMB2Message :=
  createRequest sessionID treeID ['f'] 0 7 99 0

/-- No open handle stands in the way of a CREATE without access that shares everything. -/
theorem checkShareAccess_sharing {File : Type} (m : FileHandleMap File) (path : Str) :
    m.checkShareAccess path 0 7 = true := by
  have hnone : ∀ bits, hasBits 0 bits = false := by simp [hasBits]
  have hread : hasBits 7 fileShareRead = true := by decide
  have hwrite : hasBits 7 fileShareWrite = true := by decide
  have hdelete : hasBits 7 fileShareDelete = true := by decide
  simp [FileHandleMap.checkShareAccess, checkShareCompatibility, hnone, hread, hwrite, hdelete]

theorem handleMessage_probe {id : UInt64} {treeID : UInt32}
    {tree : TreeConnection} {fs : FsRef} (hauth : Auth s (probe id treeID) r tree)
    (hfs : (s.shareHeap tree.share).fs = some fs) :
    ∃ path, (handleMessage P k (probe id treeID) o s).2 = s.exec fs (.stat path) := by
  -- the payload does not depend on the session and the tree
  have hcreate : (probe id treeID).create = (probe 0 0).create := rfl
  have hwf : wellFormed (probe 0 0).payload 56 57 = true := by decide +kernel
  obtain ⟨path, hpath⟩ : ∃ path, createFilename (probe 0 0).payload = some path :=
    Option.isSome_iff_exists.mp (by decide +kernel)
  have haccess : (probe 0 0).create.desiredAccess = 0 := by decide +kernel
  have hshare : (probe 0 0).create.shareAccess = 7 := by decide +kernel
  have hdisposition : CreateDisposition.ofCode (probe 0 0).create.createDisposition = none := by
    decide +kernel
  refine ⟨path, ?_⟩
  rw [handleMessage_create rfl, respond_state, run_handleCreate hauth hwf hpath, hcreate,
    haccess, hshare, checkShareAccess_sharing, if_pos rfl, run_shareFs_bind, hfs]
  dsimp only
  rw [M.run_call_bind, createOpened, bind_run]
  simp only [openByDisposition, hdisposition]
  rfl

/-- A session that is connected to a share with a filesystem gets through to it. -/
theorem ConnectedTo.access (hrunning : sys.crashed = false) (hreached : Reached sys.server)
    {id : UInt64} (h : ConnectedTo sys.server sh id r) {fs : FsRef}
    (hfs : (sys.server.shareHeap sh).fs = some fs) : ∃ e, ¬ NoAccess P sh sys e := by
  obtain ⟨hlookup, treeID, tree, htree, rfl⟩ := h
  have hauth : Auth sys.server (probe id treeID) r tree :=
    ⟨SessionManager.validateSession_eq_some.mpr ⟨hlookup, hreached.trees r treeID tree htree⟩, htree⟩
  refine ⟨.message 0 (probe id treeID) ⟨0, none, none, []⟩, fun hno => ?_⟩
  obtain ⟨c, c', hstep⟩ := step_message P 0 (probe id treeID) ⟨0, none, none, []⟩ hrunning
  obtain ⟨path, hstat⟩ := handleMessage_probe (P := P) (k := 0) (o := ⟨0, none, none, []⟩)
    (s := sys.server.setConn 0 c) ⟨hauth.session_eq, hauth.tree_eq⟩ hfs
  rw [hstat] at hstep
  have hcalls : newCalls sys.server (sys.step P (.message 0 (probe id treeID)
      ⟨0, none, none, []⟩)).server = [(fs, .stat path)] := by
    rw [newCalls, hstep]
    exact List.drop_left
  have hclose := hno hrunning tree hauth.treeOf_eq rfl (fs, .stat path)
    (hcalls ▸ List.mem_singleton_self _) hfs
  cases hclose

/-! ## Removal -/

/-- **Removal of a share**, in every reachable state: whatever comes later, its
tree connections do not reach its filesystem and its handles go with their
sessions, exactly if it has no filesystem or nobody uses it. The run allocates fewer
than 2^64 handles per share. -/
theorem share_removal_iff (options : ServerOptions) (rand : Bytes) (disks : FsRef → B.Disk)
    (es : List Event) {name : Str} {sh : ShareRef} :
    let sys := System.run P (.initial options rand disks) es
    sys.crashed = false → sys.server.shares.lookup name = some sh →
      ((∀ later, Revoked P sys.server sh (sys.step P (.removeShare name)) later) ↔
        (sys.server.shareHeap sh).fs = none ∨ Unused sys.server sh) := by
  intro sys hrunning hname
  have hreached : Reached sys.server := .run options rand disks es
  have hstep : sys.step P (.removeShare name) = ⟨sys.server.removeShare name, false⟩ :=
    step_react hrunning _
  have hreached' : Reached (sys.step P (.removeShare name)).server := hreached.step _
  rw [hstep] at hreached' ⊢
  constructor
  · intro hrevoked
    cases hfs : (sys.server.shareHeap sh).fs with
    | none => exact .inl rfl
    | some fs =>
      have hnone : ∀ id r, ¬ ConnectedTo sys.server sh id r := by
        intro id r hconn
        -- the removal leaves sessions and shares as they are
        have haccess : ∃ e, ¬ NoAccess P sh ⟨sys.server.removeShare name, false⟩ e :=
          ConnectedTo.access rfl hreached' hconn hfs
        obtain ⟨e, he⟩ := haccess
        exact he (hrevoked [e]).requests.1
      exact .inr ⟨hnone, (hrevoked []).handles fun id r hconn => absurd hconn (hnone id r)⟩
  · rintro (hfs | hunused) later
    · exact revoked_of_invariant (I := fun t => NoFs t sh) (fun _ e hr hn => hn.step hr.tables e)
        (fun _ e hn => hn.noAccess e) (fun _ hr hn => hn.noHandles hr.files) hreached'
        ⟨hreached.tables.share_lt name sh hname, hfs⟩ later
    · exact revoked_of_invariant (I := fun t => Detached t sh)
        (fun _ e hr hd => hd.step hr.tables e) (fun _ e hd => hd.noAccess e)
        (fun _ _ hd => hd.handles) hreached' (hunused.detached hreached hname) later

/-- The share `R` is removed before anybody connects to it. -/
theorem share_removal_unused :
    let sys := System.run samplePlatform sampleSystem
      [.addShare (some 0) (sampleShare ['R'] false)]
    sys.crashed = false ∧ sys.server.shares.lookup ['R'] = some 1 ∧ ∀ later,
      Revoked samplePlatform sys.server 1 (sys.step samplePlatform (.removeShare ['R'])) later := by
  have hname : (System.run samplePlatform sampleSystem
      [.addShare (some 0) (sampleShare ['R'] false)]).server.shares.lookup ['R'] = some 1 := by
    decide +kernel
  refine ⟨rfl, hname, ?_⟩
  refine (share_removal_iff _ _ _ _ rfl hname).mpr (.inr ⟨?_, ?_⟩)
  · rintro id r ⟨hlookup, -⟩
    cases hlookup
  · intro id
    rfl

/-- A guest is connected to `R` and has the file `f` open there. -/
def guestOnShare : System inodeFs :=
  System.run samplePlatform sampleSystem
    (sampleLogin false ++ [sent (createRequest 7 1 ['f'] 1 7 1 0)])

/-- After `R` was removed the guest makes the file `g` in its filesystem. When
the session has expired instead, the handle on `f` is still open. -/
theorem removed_share_in_use :
    let removed := guestOnShare.step samplePlatform (.removeShare ['R'])
    guestOnShare.crashed = false ∧ guestOnShare.server.shares.lookup ['R'] = some 1 ∧
      ¬ NoAccess samplePlatform 1 removed (sent (createRequest 7 1 ['g'] 2 7 2 0)) ∧
      ¬ Revoked samplePlatform guestOnShare.server 1 removed [.cleanup (fifteenMinutes + 1)] := by
  refine ⟨by decide +kernel, by decide +kernel, fun hno => ?_, fun hrevoked => ?_⟩
  · have hcalls : ∀ x ∈ newCalls _ _, _ → x.2.isClose = true :=
      hno (by decide +kernel) _ (Option.some_get (by decide +kernel)).symm (by decide +kernel)
    revert hcalls
    decide +kernel
  · have hempty : (System.run samplePlatform (guestOnShare.step samplePlatform
        (.removeShare ['R'])) [.cleanup (fifteenMinutes + 1)]).server.sessions.sessions.pairs =
        [] := by decide +kernel
    have hnone := hrevoked.handles (fun id r _ hlookup => by
      have hmem := GoMap.mem_pairs.mpr hlookup
      rw [hempty] at hmem
      cases hmem) ⟨1, 1⟩
    have hopen : ((System.run samplePlatform (guestOnShare.step samplePlatform
        (.removeShare ['R'])) [.cleanup (fifteenMinutes + 1)]).server.handlesOf 1).view ⟨1, 1⟩
          |>.isSome := by decide +kernel
    rw [hnone] at hopen
    cases hopen

end Smbfs
