import Smbfs.System.Samples

/-!
Share authorisation of the tree connections.

* `shares_authorised`: the user of every valid session has access to the shares
  of its trees, in runs where no SESSION_SETUP authenticates on a session that is
  connected to a restricted share;
* `setup_on_connected_session`: SESSION_SETUP replaces the user of a session and
  keeps its trees.
-/

namespace Smbfs

open Smbfs.Lib Relation

variable {B : Backend} {P : Platform} {k : ConnId} {msg : SMB2Message} {o : Oracle}
  {s0 s s' : Server B}

/-- Every user and every guest has access. -/
def Share.unrestricted {File : Type} (share : Share File) : Bool :=
  share.options.allowGuest && share.options.allowedUsers.isEmpty

theorem Share.checkUserAccess_of_unrestricted {File : Type} {share : Share File}
    (h : share.unrestricted = true) (username : Str) (isGuest : Bool) :
    share.checkUserAccess username isGuest = true := by
  rw [unrestricted, Bool.and_eq_true] at h
  rw [checkUserAccess, h.1, h.2]
  cases isGuest <;> rfl

theorem Share.checkUserAccess_congr {File : Type} {share share' : Share File}
    (h : share'.options = share.options) (username : Str) (isGuest : Bool) :
    share'.checkUserAccess username isGuest = share.checkUserAccess username isGuest := by
  rw [checkUserAccess, checkUserAccess, h]

/-- The user of the session has access to the shares of its trees. -/
def Session.Authorised (s : Server B) (session : Session) : Prop :=
  ∀ id t, session.trees.lookup id = some t →
    (s.shareHeap t.share).checkUserAccess session.username session.isGuest = true

/-- Every tree connection of every valid session in the table is authorised. -/
def SharesAuthorised (s : Server B) : Prop :=
  ∀ id r, s.sessions.sessions.lookup id = some r → (s.sessions.heap r).state = .valid →
    (s.sessions.heap r).Authorised s

/-- A SESSION_SETUP whose blob authenticates does not continue a session with a
tree on a restricted share. -/
def SetupUnrestricted (P : Platform) (s : Server B) (msg : SMB2Message) (o : Oracle) : Prop :=
  msg.cmd = .sessionSetup → ∀ r ∈ selectSession s.sessions msg,
    ∀ blob ∈ securityBlob msg.payload,
    ∀ x ∈ (authenticatorOf P s r).authenticate P o.now o.challenge blob, x.1.success = true →
    ∀ t ∈ (s.sessions.heap r).trees.values, (s.shareHeap t.share).unrestricted = true

instance : Decidable (SetupUnrestricted P s msg o) := by
  delta SetupUnrestricted
  infer_instance

/-! ## One request -/

/-- Every valid session of the heap is authorised, in the table or not. -/
def HeapAuthorised (s : Server B) : Prop :=
  ∀ r, (s.sessions.heap r).state = .valid → (s.sessions.heap r).Authorised s

namespace HeapAuthorised

theorem congr (h : HeapAuthorised s) (hs : SameShares s s')
    (hheap : s'.sessions.heap = s.sessions.heap) : HeapAuthorised s' := by
  intro r hvalid id t ht
  rw [hheap] at hvalid ht ⊢
  rw [Share.checkUserAccess_congr (hs.share_options t.share)]
  exact h r hvalid id t ht

theorem modifySession (h : HeapAuthorised s) (r : SessionRef) {f : Session → Session}
    (hf : (f (s.sessions.heap r)).state = .valid → (f (s.sessions.heap r)).Authorised s) :
    HeapAuthorised (s.modifySession r f) := by
  intro r' hvalid
  rw [Server.heap_modifySession] at hvalid ⊢
  split at hvalid
  · next hr => rw [if_pos hr]; exact hf hvalid
  · next hr => rw [if_neg hr]; exact h r' hvalid

/-- A request keeps the trees of the session that SESSION_SETUP continues. -/
def KeepsTrees (s0 : Server B) (msg : SMB2Message) (s : Server B) : Prop :=
  msg.cmd = .sessionSetup → ∀ r, selectSession s0.sessions msg = some r →
    (s.sessions.heap r).trees = (s0.sessions.heap r).trees

theorem keepsTrees_change (h : KeepsTrees s0 msg s) (hc : Change P k msg o s0 s s') :
    KeepsTrees s0 msg s' := by
  intro hcmd r hr
  have hkeep := h hcmd r hr
  cases hc with
  | createSession _ hnew => cases hr.symm.trans hnew
  | setAuthenticator | setValid =>
    refine Eq.trans (trees_modifySession fun x => ?_) hkeep
    rfl
  | destroyNew =>
    rw [SessionManager.destroySession_heap]
    exact hkeep
  | logoff hc | addTree hc | removeTree hc => cases hcmd.symm.trans hc
  | _ => exact hkeep

theorem change (hcond : SetupUnrestricted P s0 msg o) (hsame : SameShares s0 s)
    (hkeep : KeepsTrees s0 msg s) (h : HeapAuthorised s) (hc : Change P k msg o s0 s s') :
    HeapAuthorised s' := by
  cases hc with
  | createSession =>
    intro r hvalid
    by_cases hr : r = s0.sessions.nextRef
    · subst hr
      simp [SessionManager.createSession, Session.new] at hvalid
    · simp only [SessionManager.createSession, Function.update_of_ne hr] at hvalid ⊢
      exact h r hvalid
  | setAuthenticator => exact h.modifySession _ fun hvalid => h _ hvalid
  | setValid result key hcmd hold hnew =>
    refine h.modifySession _ fun _ id t ht => ?_
    have ht : (s.sessions.heap (setupRef s0 msg)).trees.lookup id = some t := ht
    cases hsel : selectSession s0.sessions msg with
    | none =>
      rw [setupRef, hsel, Option.getD_none, hnew hsel] at ht
      simp at ht
    | some r =>
      rw [setupRef, hsel, Option.getD_some, hkeep hcmd r hsel] at ht
      rw [Share.checkUserAccess_congr (hsame.share_options t.share)]
      obtain ⟨blob, a, hblob, hauth, hsuccess⟩ := hold r hsel
      exact Share.checkUserAccess_of_unrestricted (hcond hcmd r hsel blob hblob (result, a) hauth
        hsuccess t (GoMap.mem_values.mpr ⟨id, ht⟩)) _ _
  | destroyNew | logoff =>
    exact h.congr ⟨rfl, rfl, rfl, fun _ => rfl, fun _ => rfl⟩
      (SessionManager.destroySession_heap _ _)
  | addTree _ hsession _ haccess =>
    refine h.modifySession _ fun hvalid id t ht => ?_
    simp only [Session.addTreeConnection, GoMap.lookup_insert] at ht
    split at ht
    · cases ht; exact haccess
    · exact h _ hvalid id t ht
  | removeTree =>
    refine h.modifySession _ fun hvalid id t ht => ?_
    simp only [Session.removeTreeConnection, GoMap.lookup_erase] at ht
    split at ht
    · cases ht
    · exact h _ hvalid id t ht
  | allocate | edit | release => exact h.congr (.modifyHandles _ _ _) rfl
  | setConn | storeDirState | call => exact h.congr ⟨rfl, rfl, rfl, fun _ => rfl, fun _ => rfl⟩ rfl

theorem handleMessage (hwf : Tables s) (hcond : SetupUnrestricted P s msg o) (h : HeapAuthorised s) :
    HeapAuthorised (handleMessage P k msg o s).2 :=
  (chain_invariant (I := fun t => SameShares s t ∧ KeepsTrees s msg t ∧ HeapAuthorised t)
    (handleMessage_chain hwf.handles)
    (fun _ _ hc ⟨hsame, hkeep, ht⟩ =>
      ⟨hsame.trans hc.sameShares, keepsTrees_change hkeep hc, ht.change hcond hsame hkeep hc⟩)
    ⟨.refl s, fun _ _ _ => rfl, h⟩).2.2

/-! ## Events -/

theorem cleanupTick (h : HeapAuthorised s) (now : GoTime) :
    HeapAuthorised (stateOf (cleanupTick now s)) := by
  refine h.congr (cleanupTick_sameShares now) ?_
  rw [cleanupTick_sessions, SessionManager.cleanupExpired_heap]

theorem addShare (hwf : Tables s) (h : HeapAuthorised s) (fs : Option FsRef)
    (options : ShareOptions) : HeapAuthorised (s.addShare fs options) := by
  unfold Server.addShare
  split
  · exact h
  · intro r hvalid id t ht
    have hlt : t.share ≠ s.nextShare := Nat.ne_of_lt (hwf.tree_share r id t ht)
    simp only [Function.update_of_ne hlt]
    exact h r hvalid id t ht

theorem step {sys : System B} {e : Event} (hwf : Tables sys.server)
    (hcond : sys.OnMessage (SetupUnrestricted P) e) (h : HeapAuthorised sys.server) :
    HeapAuthorised (sys.step P e).server := by
  refine step_keeps (fun _ _ _ hs => hs) ?_ (fun fs options hs => hs.addShare hwf fs options)
    (fun _ _ hs => hs) (fun now hs => hs.cleanupTick now) h
  rintro k msg o c rfl hcr hs
  exact handleMessage (s := sys.server.setConn k c) (hwf.setConn k c) (hcond hcr) hs

end HeapAuthorised

/-- **Share authorisation.** In every state of a run in which no SESSION_SETUP
authenticates on a session with a tree on a restricted share, the user of every
valid session has access to the share of each of its trees. -/
theorem shares_authorised (options : ServerOptions) (rand : Bytes) (disks : FsRef → B.Disk)
    (es : List Event)
    (hcond : Along (System.step P) (System.OnMessage (SetupUnrestricted P))
      (.initial options rand disks) es) :
    Always (System.step P) (fun sys => SharesAuthorised sys.server)
      (.initial options rand disks) es := by
  refine always_of_along (I := fun sys => Tables sys.server ∧ HeapAuthorised sys.server)
    ?_ ?_ ?_ hcond
  · rintro sys e ⟨hwf, h⟩ hc
    exact ⟨hwf.step e, h.step hwf hc⟩
  · rintro sys ⟨-, h⟩ id r - hvalid
    exact h r hvalid
  · refine ⟨.initial options rand disks, fun r hvalid => ?_⟩
    simp [System.initial, newServer, newSessionManager, Session.new] at hvalid

/-- A server with the user `U`, and a share that keeps guests out. -/
def restrictedSystem : System inodeFs :=
  .initial { sampleOptions with users := (∅ : GoMap Str Str).insert ['U'] ['p'] } (zeros 16)
    fun _ => sampleDisk

def restrictedLogin : List Event :=
  [.addShare (some 0) { sampleShare ['R'] false with allowGuest := false },
    sent (sessionSetupRequest 0 (authenticateMessage ['u'])), sent (treeConnectRequest 7 ['R'])]

/-- A user connects to the share. -/
theorem shares_authorised_login :
    Always (System.step samplePlatform) (fun sys => SharesAuthorised sys.server) restrictedSystem
      restrictedLogin :=
  shares_authorised _ _ _ _ (by decide +kernel)

/-- The session is then continued by a SESSION_SETUP with an empty blob, which
makes it a guest session that keeps the tree. -/
theorem setup_on_connected_session :
    ¬ Always (System.step samplePlatform) (fun sys => SharesAuthorised sys.server) restrictedSystem
      (restrictedLogin ++ [sent (sessionSetupRequest 7 [])]) := by
  intro h
  let s := (runFrom (System.step samplePlatform) restrictedSystem
    (restrictedLogin ++ [sent (sessionSetupRequest 7 [])])).server
  have hauth : (s.sessions.heap 0).Authorised s :=
    h.last 7 0 (by decide +kernel) (by decide +kernel)
  have htree : ((s.sessions.heap 0).trees.lookup 1).map (·.share) = some 1 := by decide +kernel
  obtain ⟨t, ht, hshare⟩ := Option.map_eq_some_iff.mp htree
  have haccess := hauth 1 t ht
  rw [hshare] at haccess
  exact absurd haccess (by decide +kernel)

end Smbfs
