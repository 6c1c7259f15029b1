import Smbfs.System.Handles
import Smbfs.System.Samples

/-!
Every open handle has an owner: a valid session in the table, and a live tree
of that session on the share the handle is open in.

* `handles_owned`: this holds in every reachable state, so LOGOFF,
  TREE_DISCONNECT and the expiry of sessions leave no orphans.
-/

namespace Smbfs

open Smbfs.Lib Relation

variable {B : Backend} {P : Platform} {k : ConnId} {msg : SMB2Message} {o : Oracle}
  {s0 s s' : Server B} {sh : ShareRef} {of : B.OpenFile}

/-! ## Tree IDs -/

/-- Session `r` handed out at most `c r` tree IDs, 1 first. -/
def Counted (c : SessionRef → Nat) (s : Server B) : Prop :=
  ∀ r, ∃ n ≤ c r, (s.sessions.heap r).nextID = 1 + UInt32.ofNat n ∧
    ∀ id t, (s.sessions.heap r).trees.lookup id = some t → ∃ j < n, id = 1 + UInt32.ofNat j

namespace Counted

variable {c c' : SessionRef → Nat}

theorem mono (h : Counted c s) (hc : ∀ r, c r ≤ c' r) : Counted c' s := by
  intro r
  obtain ⟨n, hn, hrest⟩ := h r
  exact ⟨n, hn.trans (hc r), hrest⟩

/-- Before the IDs run out, the next one is not in use. -/
theorem nextID_free (h : Counted c s) {r : SessionRef} (hr : c r < UInt32.size) :
    (s.sessions.heap r).trees.lookup (s.sessions.heap r).nextID = none := by
  obtain ⟨n, hn, hnext, htrees⟩ := h r
  cases hl : (s.sessions.heap r).trees.lookup (s.sessions.heap r).nextID with
  | none => rfl
  | some t =>
    obtain ⟨j, hj, heq⟩ := htrees _ t hl
    rw [hnext, UInt32.add_right_inj] at heq
    have hmod := congrArg UInt32.toNat heq
    rw [UInt32.toNat_ofNat_of_lt' (by omega), UInt32.toNat_ofNat_of_lt' (by omega)] at hmod
    omega

theorem congr (h : Counted c s) (hheap : s'.sessions.heap = s.sessions.heap) : Counted c s' := by
  unfold Counted
  rw [hheap]
  exact h

theorem modifySession (h : Counted c s) (r : SessionRef) {f : Session → Session}
    (hnext : ∀ x, (f x).nextID = x.nextID)
    (htrees : ∀ x id t, (f x).trees.lookup id = some t → x.trees.lookup id = some t) :
    Counted c (s.modifySession r f) := by
  intro r'
  obtain ⟨n, hn, hid, hold⟩ := h r'
  refine ⟨n, hn, ?_, ?_⟩
  · rw [Server.heap_modifySession]
    split
    · next hr => rw [hnext, ← hr, hid]
    · exact hid
  · intro id t ht
    rw [Server.heap_modifySession] at ht
    split at ht
    · next hr => exact hold id t (hr ▸ htrees _ id t ht)
    · exact hold id t ht

theorem addTree (h : Counted c s) (hc : ∀ r, c r ≤ c' r) {r : SessionRef} (hr : c r + 1 ≤ c' r)
    {tree : TreeConnection} (hid : tree.id = (s.sessions.heap r).nextID) :
    Counted c' (s.modifySession r fun x => x.addTreeConnection tree) := by
  intro r'
  obtain ⟨n, hn, hnext, hold⟩ := h r'
  rw [Server.heap_modifySession]
  split
  · next hrr =>
    subst hrr
    refine ⟨n + 1, by omega, ?_, ?_⟩
    · simp only [Session.addTreeConnection, hnext, UInt32.ofNat_add]
      rw [UInt32.add_assoc]
      rfl
    · intro id t ht
      simp only [Session.addTreeConnection, GoMap.lookup_insert] at ht
      split at ht
      · next heq => exact ⟨n, Nat.lt_succ_self n, by rw [heq, hid, hnext]⟩
      · obtain ⟨j, hj, hjid⟩ := hold id t ht
        exact ⟨j, Nat.lt_succ_of_lt hj, hjid⟩
  · exact ⟨n, hn.trans (hc r'), hnext, hold⟩

/-- A request counts one tree connect for its session if it is a TREE_CONNECT. -/
theorem change (h0 : Counted c s0) (hc : ∀ r, c r ≤ c' r) (hbump : msg.cmd = .treeConnect → ∀ r,
      s0.sessions.validateSession msg.header.sessionID = some r → c r + 1 ≤ c' r)
    (h : Counted c' s) (hch : Change P k msg o s0 s s') : Counted c' s' := by
  cases hch with
  | createSession =>
    intro r
    by_cases hr : r = s0.sessions.nextRef
    · subst hr
      refine ⟨0, Nat.zero_le _, ?_, ?_⟩ <;> simp [SessionManager.createSession, Session.new]
    · simp only [SessionManager.createSession, Function.update_of_ne hr]
      exact h r
  | setAuthenticator | setValid => exact h.modifySession _ (fun _ => rfl) fun _ _ _ ht => ht
  | removeTree =>
    refine h.modifySession _ (fun _ => rfl) fun x id t ht => ?_
    simp only [Session.removeTreeConnection, GoMap.lookup_erase] at ht
    split at ht
    · cases ht
    · exact ht
  | destroyNew | logoff => exact h.congr (SessionManager.destroySession_heap _ _)
  | addTree hcmd hsession => exact h0.addTree hc (hbump hcmd _ hsession) rfl
  | _ => exact h

end Counted

/-! ## Shares of trees -/

/-- The share of every tree is in the registry. -/
def Registered (s : Server B) : Prop :=
  ∀ r id t, (s.sessions.heap r).trees.lookup id = some t → t.share ∈ s.shares.values

theorem Registered.change (h : Registered s) (hc : Change P k msg o s0 s s') : Registered s' := by
  intro r id t ht
  rw [hc.sameShares.shares]
  rcases hc.tree_cases ht with hold | ⟨rfl, -, name, sh, hshare, rfl⟩
  · exact h r id t hold
  · exact GoMap.mem_values.mpr ⟨name, hshare⟩

/-! ## Owners -/

/-- The record's session is valid and in the table, and the record's tree is a
tree of that session on the share `sh`. -/
def Owned (s : Server B) (sh : ShareRef) (of : B.OpenFile) : Prop :=
  ∃ r t, s.sessions.validateSession of.sessionID = some r ∧
    (s.sessions.heap r).trees.lookup of.treeID = some t ∧ t.share = sh

def AllOwned (s : Server B) : Prop :=
  ∀ sh id of, (s.handlesOf sh).view id = some of → Owned s sh of

/-- The ID of a session that SESSION_SETUP makes is not in use. -/
def FreshSessionID (s : Server B) (msg : SMB2Message) (o : Oracle) : Prop :=
  msg.cmd = .sessionSetup → selectSession s.sessions msg = none →
    s.sessions.sessions.lookup (s.sessions.newSessionID o.sessionRand) = none

instance : Decidable (FreshSessionID s msg o) := by
  delta FreshSessionID
  infer_instance

namespace Owned

theorem modifySession (h : Owned s sh of) (r : SessionRef) {f : Session → Session}
    (hstate : ∀ x, x.state = .valid → (f x).state = .valid)
    (htrees : ∀ t, s.sessions.validateSession of.sessionID = some r →
      (s.sessions.heap r).trees.lookup of.treeID = some t → t.share = sh →
      (f (s.sessions.heap r)).trees.lookup of.treeID = some t) :
    Owned (s.modifySession r f) sh of := by
  obtain ⟨r', t, hr', ht, hsh⟩ := h
  obtain ⟨hl, hv⟩ := SessionManager.validateSession_eq_some.mp hr'
  refine ⟨r', t, SessionManager.validateSession_eq_some.mpr ⟨hl, ?_⟩, ?_, hsh⟩
  all_goals
    rw [Server.heap_modifySession]
    split
  · next hr => subst hr; exact hstate _ hv
  · exact hv
  · next hr => subst hr; exact htrees t hr' ht hsh
  · exact ht

theorem destroySession (h : Owned s sh of) {id : UInt64} (hne : of.sessionID ≠ id) :
    Owned { s with sessions := s.sessions.destroySession id } sh of := by
  obtain ⟨r, t, hr, ht, hsh⟩ := h
  rw [SessionManager.validateSession_eq_some] at hr
  refine ⟨r, t, ?_, ?_, hsh⟩
  · rw [SessionManager.validateSession_eq_some, SessionManager.destroySession_lookup, if_neg hne,
      SessionManager.destroySession_heap]
    exact hr
  · rw [SessionManager.destroySession_heap]
    exact ht

theorem createSession (ht : Tables s) (h : Owned s sh of) {rand : Option UInt64} (now : GoTime)
    (d : SMBDialect) (guid : Bytes) (ip : Str)
    (hfresh : s.sessions.sessions.lookup (s.sessions.newSessionID rand) = none) :
    Owned { s with sessions := s.sessions.createSession rand now d guid ip } sh of := by
  obtain ⟨r, t, hr, htree, hsh⟩ := h
  rw [SessionManager.validateSession_eq_some] at hr
  have hid : of.sessionID ≠ s.sessions.newSessionID rand := by
    intro heq
    rw [heq, hfresh] at hr
    cases hr.1
  have hheap : (s.sessions.createSession rand now d guid ip).heap r = s.sessions.heap r := by
    have hne : r ≠ s.sessions.nextRef := Nat.ne_of_lt (ht.sessions.lt_next _ _ hr.1)
    simp only [SessionManager.createSession, Function.update_of_ne hne]
  refine ⟨r, t, ?_, ?_, hsh⟩
  · rw [SessionManager.validateSession_eq_some, SessionManager.createSession_lookup, if_neg hid,
      hheap]
    exact hr
  · rw [hheap]
    exact htree

/-- A record CREATE makes is owned by the session and tree of the request. -/
theorem of_created (h0 : Tables s0) (h : Created s0 msg o sh of) : Owned s0 sh of := by
  obtain ⟨r, tree, name, file, isDir, hauth, -, hsh, -, -, rfl⟩ := h
  have hr := (SessionManager.validateSession_eq_some.mp hauth.session_eq).1
  refine ⟨r, tree, ?_, ?_, hsh⟩
  · change s0.sessions.validateSession (s0.sessions.heap r).id = some r
    rw [h0.sessions.id_eq _ _ hr]
    exact hauth.session_eq
  · change (s0.sessions.heap r).trees.lookup tree.id = some tree
    rw [h0.tree_id _ _ _ hauth.tree_eq]
    exact hauth.tree_eq

theorem of_edited {id : FileID} {old new : B.OpenFile}
    (he : Edited s0 msg o sh id old new) (h : Owned s sh old) : Owned s sh new := by
  obtain ⟨r, tree, of, f, -, he, -, rfl⟩ := he
  cases he <;> exact h

end Owned

/-! ## One request -/

/-- Where a session or a tree goes, its handles have been released; where one
comes, its ID was free. -/
theorem AllOwned.change (h0 : Tables s0) (hfresh : FreshSessionID s0 msg o)
    (hfree : msg.cmd = .treeConnect → ∀ r,
      s0.sessions.validateSession msg.header.sessionID = some r →
      (s0.sessions.heap r).trees.lookup (s0.sessions.heap r).nextID = none)
    (ht : Tables s) (h : AllOwned s) (hc : Change P k msg o s0 s s') : AllOwned s' := by
  intro sh id of hv
  have hcases := hc.view_cases ht hv
  cases hc with
  | setConn | storeDirState | call => exact h sh id of hv
  | allocate | edit | release =>
    rcases hcases with hold | ⟨hs, hnew⟩ | ⟨old, hold, hed⟩
    · exact h sh id of hold
    · obtain ⟨r, t, howner⟩ := Owned.of_created h0 hnew
      rw [← hs] at howner
      exact ⟨r, t, howner⟩
    · exact Owned.of_edited hed (h sh id old hold)
  | createSession hcmd hnew => exact (h sh id of hv).createSession ht _ _ _ _ (hfresh hcmd hnew)
  | setAuthenticator =>
    exact (h sh id of hv).modifySession _ (fun _ hx => hx) fun _ _ htree _ => htree
  | setValid =>
    exact (h sh id of hv).modifySession _ (fun _ _ => rfl) fun _ _ htree _ => htree
  | destroyNew _ hlookup htrees =>
    refine (h sh id of hv).destroySession fun heq => ?_
    obtain ⟨r, t, hr, htree, -⟩ := h sh id of hv
    rw [SessionManager.validateSession_eq_some, heq, hlookup] at hr
    cases hr.1
    rw [htrees] at htree
    simp at htree
  | logoff _ hsession hs hreleased =>
    refine (h sh id of hv).destroySession fun heq => ?_
    obtain ⟨r, t, hr, htree, rfl⟩ := h sh id of hv
    have hid := ht.tree_id r _ t htree
    rw [hs] at hr htree
    have hsid := h0.sessions.id_eq _ _ (SessionManager.validateSession_eq_some.mp hsession).1
    rw [heq, hsid] at hr
    cases hsession.symm.trans hr
    exact hreleased t (GoMap.mem_values.mpr ⟨_, htree⟩) id of hv ⟨hid.symm, heq⟩
  | addTree hcmd hsession =>
    refine (h sh id of hv).modifySession _ (fun _ hx => hx) fun t _ htree _ => ?_
    simp only [Session.addTreeConnection, GoMap.lookup_insert]
    split
    · next hid =>
      -- the ID of the new tree was free
      have hnone := hfree hcmd _ hsession
      rw [hid] at htree
      cases hnone.symm.trans htree
    · exact htree
  | removeTree _ hauth hs hreleased =>
    refine (h sh id of hv).modifySession _ (fun _ hx => hx) fun t hr htree hsh => ?_
    simp only [Session.removeTreeConnection, GoMap.lookup_erase]
    split
    · next hid =>
      have hsession := ht.sessions.id_eq _ _ (SessionManager.validateSession_eq_some.mp hr).1
      rw [hs] at hsession htree
      rw [hid, h0.tree_id _ _ _ hauth.tree_eq, hauth.tree_eq] at htree
      cases htree
      subst hsh
      exact absurd ⟨hid, hsession.symm⟩ (hreleased id of hv)
    · exact htree

/-! ## Events -/

/-- The invariant; `c` counts the tree connects of each session. -/
structure Ownership (c : SessionRef → Nat) (s : Server B) : Prop where
  tables : Tables s
  registered : Registered s
  counted : Counted c s
  owned : AllOwned s

/-- The event is a TREE_CONNECT request on the session `r`. -/
def connectsTree (r : SessionRef) (sys : System B) : Event → Bool
  | .message _ msg _ => !sys.crashed && msg.cmd = .treeConnect &&
      sys.server.sessions.validateSession msg.header.sessionID = some r
  | _ => false

namespace Ownership

variable {c c' : SessionRef → Nat}

theorem mono (h : Ownership c s) (hc : ∀ r, c r ≤ c' r) : Ownership c' s :=
  { h with counted := h.counted.mono hc }

theorem setConn (h : Ownership c s) (k : ConnId) (con : ConnState) : Ownership c (s.setConn k con) :=
  { h with tables := h.tables.setConn k con }

theorem handleMessage (h : Ownership c s) (hfresh : FreshSessionID s msg o)
    (hc : ∀ r, c r ≤ c' r) (hlt : ∀ r, c r < UInt32.size) (hbump : msg.cmd = .treeConnect → ∀ r,
      s.sessions.validateSession msg.header.sessionID = some r → c r + 1 ≤ c' r) :
    Ownership c' (handleMessage P k msg o s).2 := by
  refine chain_invariant (handleMessage_chain h.tables.handles) (fun t t' hch ht => ?_) (h.mono hc)
  exact ⟨h.tables.change ht.tables hch, ht.registered.change hch,
    h.counted.change hc hbump ht.counted hch,
    ht.owned.change h.tables hfresh (fun _ r _ => h.counted.nextID_free (hlt r)) ht.tables hch⟩

/-- Expired sessions are gone together with their handles. -/
theorem cleanupTick (h : Ownership c s) (now : GoTime) :
    Ownership c (stateOf (cleanupTick now s)) := by
  have hshrinks := (cleanupTick_spec (s := s) now).1
  have hheap : (stateOf (Smbfs.cleanupTick now s)).sessions.heap = s.sessions.heap := by
    rw [hshrinks.sessions]
    exact SessionManager.cleanupExpired_heap _ _
  refine ⟨h.tables.cleanupTick now, fun r id t ht => ?_, h.counted.congr hheap, ?_⟩
  · rw [hheap] at ht
    rw [hshrinks.shares]
    exact h.registered r id t ht
  · intro sh id of hv
    rw [cleanupTick_view, Option.filter_eq_some_iff] at hv
    obtain ⟨r, t, hr, htree, rfl⟩ := h.owned sh id of hv.1
    rw [SessionManager.validateSession_eq_some] at hr
    have hlive : of.sessionID ∉ (s.sessions.expired now).map Prod.fst := by
      intro hmem
      obtain ⟨⟨sid, r'⟩, he, heq⟩ := List.mem_map.mp hmem
      have hl := GoMap.mem_pairs.mp (List.mem_filter.mp he).1
      have hid : of.sessionID ∈ expiredIDs s now :=
        List.mem_map.mpr ⟨_, he, (h.tables.sessions.id_eq _ _ hl).trans heq⟩
      simp [h.registered r _ t htree, hid] at hv
    refine ⟨r, t, ?_, by rw [hheap]; exact htree, rfl⟩
    rw [SessionManager.validateSession_eq_some, hheap, hshrinks.sessions]
    exact ⟨(SessionManager.cleanupExpired_lookup _ _ _).trans ((if_neg hlive).trans hr.1), hr.2⟩

theorem addShare (h : Ownership c s) (fs : Option FsRef) (options : ShareOptions) :
    Ownership c (s.addShare fs options) := by
  have howned : AllOwned (s.addShare fs options) := by
    intro sh id of hv
    rw [Owned, addShare_sessions]
    rcases addShare_cases s fs options sh with heq | heq <;> rw [Server.handlesOf, heq] at hv
    · exact h.owned sh id of hv
    · simp [Share.new] at hv
  refine ⟨h.tables.addShare fs options, fun r id t htree => ?_,
    h.counted.congr (by rw [addShare_sessions]), howned⟩
  rw [addShare_sessions] at htree
  obtain ⟨name, hname⟩ := GoMap.mem_values.mp (h.registered r id t htree)
  refine GoMap.mem_values.mpr ⟨name, ?_⟩
  unfold Server.addShare
  split
  · exact hname
  · next hguard =>
    rw [not_or, Option.not_isSome_iff_eq_none] at hguard
    have hne : name ≠ options.shareName := by
      rintro rfl
      cases hguard.2.symm.trans hname
    rw [GoMap.lookup_insert, if_neg hne]
    exact hname

theorem step {sys : System B} {e : Event} (h : Ownership c sys.server)
    (hremove : ∀ name, e ≠ .removeShare name) (hfresh : sys.OnMessage FreshSessionID e)
    (hlt : ∀ r, c r + (connectsTree r sys e).toNat < UInt32.size) :
    Ownership (fun r => c r + (connectsTree r sys e).toNat) (sys.step P e).server := by
  have hc : ∀ r, c r ≤ c r + (connectsTree r sys e).toNat := fun r => Nat.le_add_right _ _
  refine step_keeps (fun _ k con hs => hs.setConn k con) ?_
    (fun fs options hs => hs.addShare fs options) (fun name he => absurd he (hremove name))
    (fun now hs => hs.cleanupTick now) (h.mono hc)
  rintro k msg o con rfl hcr -
  -- the request starts from the old count and may raise it
  refine (h.setConn k con).handleMessage (hfresh hcr) hc (fun r => (hc r).trans_lt (hlt r)) ?_
  intro hcmd r hr
  have hr : sys.server.sessions.validateSession msg.header.sessionID = some r := hr
  simp [connectsTree, hcr, hcmd, hr]

theorem initial (options : ServerOptions) (rand : Bytes) (disks : FsRef → B.Disk) :
    Ownership (fun _ => 0) (newServer options rand disks) := by
  refine ⟨.initial options rand disks, ?_, fun r => ⟨0, Nat.le_refl 0, ?_, ?_⟩, ?_⟩
  · intro r id t ht
    simp [newServer, newSessionManager, Session.new] at ht
  · simp [newServer, newSessionManager, Session.new]
  · simp [newServer, newSessionManager, Session.new]
  · intro sh id of hv
    simp [newServer, Server.handlesOf, ipcShare, Share.new] at hv

end Ownership

/-- **Handle ownership.** In every state that is reached without RemoveShare, with
fresh session IDs, fewer than 2^32 tree connects per session and fewer than 2^64
allocations per share, every open handle of every share has a SessionID of a valid
session in the table and a TreeID of a tree of that session on that share. -/
theorem handles_owned (options : ServerOptions) (rand : Bytes) (disks : FsRef → B.Disk)
    (es : List Event) (hremove : ∀ e ∈ es, ∀ name, e ≠ .removeShare name)
    (hfresh : Along (System.step P) (System.OnMessage FreshSessionID)
      (.initial options rand disks) es)
    (hcount : ∀ r, countAlong (System.step P) (connectsTree r) (.initial options rand disks) es <
      UInt32.size) :
    let s := (System.run P (.initial options rand disks) es).server
    ∀ sh id of, (s.handlesOf sh).view id = some of → ∃ r t,
      s.sessions.validateSession of.sessionID = some r ∧
      (s.sessions.heap r).trees.lookup of.treeID = some t ∧ t.share = sh := by
  have hstep : ∀ c (sys : System B) e, Ownership c sys.server →
      (∀ name, e ≠ .removeShare name) ∧ sys.OnMessage FreshSessionID e →
      (∀ r, c r + (connectsTree r sys e).toNat < UInt32.size) →
      Ownership (fun r => c r + (connectsTree r sys e).toNat) (sys.step P e).server :=
    fun c sys e hi hcond hlt => hi.step hcond.1 hcond.2 hlt
  obtain ⟨c, h⟩ := runFrom_counted (I := fun c (sys : System B) => Ownership c sys.server) hstep
    (Ownership.initial options rand disks) (along_and (along_of_forall hremove) hfresh)
    (by simpa using hcount)
  exact h.owned

/-- A guest opens the file `f`. -/
theorem handles_owned_create :
    let s := (System.run samplePlatform sampleSystem
      (sampleLogin false ++ [sent (createRequest 7 1 ['f'] 1 7 1 0)])).server
    ∃ of, (s.handlesOf 1).view ⟨1, 1⟩ = some of ∧ ∃ r t,
      s.sessions.validateSession of.sessionID = some r ∧
      (s.sessions.heap r).trees.lookup of.treeID = some t ∧ t.share = 1 := by
  intro s
  have hopen : ((s.handlesOf 1).view ⟨1, 1⟩).isSome := by decide +kernel
  obtain ⟨of, hv⟩ := Option.isSome_iff_exists.mp hopen
  refine ⟨of, hv, handles_owned _ _ _ _ ?_
    (by decide +kernel) (fun r => ?_) 1 ⟨1, 1⟩ of hv⟩
  · simp [sampleLogin, sent]
  · exact (countAlong_le_length _ _ _).trans_lt (by decide)

end Smbfs
