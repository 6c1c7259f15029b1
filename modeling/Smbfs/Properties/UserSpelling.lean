import Smbfs.System.Samples
import Smbfs.System.TreeConnect

/-!
The spelling of user names in authentication and in authorisation.

The authenticator looks a name up in capitals (`auth_ntlm.go`). The session keeps
the spelling that the client sent, and `CheckUserAccess` (`server_config.go`)
compares it with the AllowedUsers list as it stands.

* `logon`: what a SESSION_SETUP lets in, read off the run;
* `user_of_logon`: a session belongs to the user of its last logon;
* `user_spelling_iff`: when TREE_CONNECT treats two users alike.
-/

namespace Smbfs

open Smbfs.Lib Relation

variable {B : Backend} {P : Platform} {k : ConnId} {msg : SMB2Message} {o : Oracle}
  {s0 s s' s'' : Server B} {r : SessionRef}

/-! ## The user of a session -/

/-- The name of the user, and whether it is a guest. -/
def Session.user (session : Session) : Str × Bool := (session.username, session.isGuest)

def Server.userOf (s : Server B) (r : SessionRef) : Str × Bool := (s.sessions.heap r).user

/-- The session at `r` keeps its user, if it was there. -/
structure KeepsUser (r : SessionRef) (s s' : Server B) : Prop where
  next_le : s.sessions.nextRef ≤ s'.sessions.nextRef
  user_eq : r < s.sessions.nextRef → s'.userOf r = s.userOf r

namespace KeepsUser

theorem of_sessions (h : s'.sessions = s.sessions) : KeepsUser r s s' := by
  refine ⟨by rw [h], fun _ => ?_⟩
  rw [Server.userOf, Server.userOf, h]

theorem trans (h : KeepsUser r s s') (h' : KeepsUser r s' s'') : KeepsUser r s s'' := by
  refine ⟨Nat.le_trans h.next_le h'.next_le, fun hr => ?_⟩
  rw [h'.user_eq (Nat.lt_of_lt_of_le hr h.next_le), h.user_eq hr]

theorem modifySession (s : Server B) (r' : SessionRef) {f : Session → Session}
    (hf : r' = r → ∀ session, (f session).user = session.user) :
    KeepsUser r s (s.modifySession r' f) := by
  refine ⟨Nat.le_refl _, fun _ => ?_⟩
  rw [Server.userOf, Server.heap_modifySession]
  split
  · next h =>
    rw [hf h.symm, h]
    rfl
  · rfl

theorem setConn (s : Server B) (k : ConnId) (c : ConnState) : KeepsUser r s (s.setConn k c) :=
  .of_sessions rfl

theorem destroySession (s : Server B) (id : UInt64) :
    KeepsUser r s { s with sessions := s.sessions.destroySession id } := by
  refine ⟨(SessionManager.destroySession_nextRef _ _).ge, fun _ => ?_⟩
  rw [Server.userOf, Server.userOf, SessionManager.destroySession_heap]

theorem withSession : KeepsUser r s (withSession k msg o s) := by
  unfold Smbfs.withSession
  cases selectSession s.sessions msg with
  | some r' => exact .of_sessions rfl
  | none =>
    refine ⟨Nat.le_succ _, fun hr => ?_⟩
    simp only [Server.userOf, SessionManager.createSession, Function.update_of_ne (Nat.ne_of_lt hr)]

variable (a : NTLMAuthenticator)

theorem asked : KeepsUser r s (asked k msg o s a) :=
  withSession.trans (modifySession _ _ fun _ _ => rfl)

theorem refusedServer : KeepsUser r s (refusedServer k msg o s a) := by
  unfold Smbfs.refusedServer
  split
  · exact (KeepsUser.asked a).trans (destroySession _ _)
  · exact KeepsUser.asked a

end KeepsUser

/-- Only SESSION_SETUP changes the user of a session. -/
theorem Change.keepsUser (hc : Change P k msg o s0 s s') (hcmd : msg.cmd ≠ .sessionSetup) :
    KeepsUser r s s' := by
  cases hc with
  | createSession h | setAuthenticator _ h | setValid _ _ h | destroyNew h => exact absurd h hcmd
  | logoff => exact .destroySession _ _
  | addTree | removeTree => exact .modifySession _ _ fun _ _ => rfl
  | _ => exact .of_sessions rfl

theorem Sweep.keepsUser {now : GoTime} (hc : Sweep now s s') : KeepsUser r s s' := by
  cases hc with
  | expire =>
    refine ⟨?_, fun _ => ?_⟩
    · exact (SessionManager.foldl_destroySession _ s.sessions).2.1.ge
    · rw [Server.userOf, Server.userOf, SessionManager.cleanupExpired_heap]
  | release | close => exact .of_sessions rfl

/-! ## Logons -/

/-- What the authenticator answers when it lets a user in. -/
def admitted (P : Platform) (s : Server B) (msg : SMB2Message) (o : Oracle) : Option AuthResult :=
  (setupResult P s msg o).filter fun result => result.success

/-- The user that a SESSION_SETUP lets in as the session `r`. -/
def logon (P : Platform) (r : SessionRef) (sys : System B) : Event → Option AuthResult
  | .message _ msg o =>
    if sys.crashed = false ∧ msg.cmd = .sessionSetup ∧ setupRef sys.server msg = r then
      admitted P sys.server msg o
    else none
  | _ => none

/-- The last user that was let in as the session `r`. -/
def LastLogon (P : Platform) (sys : System B) (es : List Event) (r : SessionRef)
    (result : AuthResult) : Prop :=
  (collect (System.step P) (logon P r) sys es).getLast? = some result

variable {result : AuthResult}

section Setup

variable {out : EStateM.Result Stop (Server B) Reply}

theorem userOf_establishedServer (result : AuthResult) (a : NTLMAuthenticator) :
    (establishedServer P k msg o s result a).userOf (setupRef s msg) =
      (result.username, result.isGuest) := by
  rw [Server.userOf, establishedServer, Server.setConn, Server.heap_modifySession, if_pos rfl]
  rfl

theorem KeepsUser.establishedServer (result : AuthResult) (a : NTLMAuthenticator)
    (hr : setupRef s msg ≠ r) : KeepsUser r s (establishedServer P k msg o s result a) := by
  rw [Smbfs.establishedServer]
  have hasked : KeepsUser r s (Smbfs.asked k msg o s a) := .asked a
  refine (hasked.trans ?_).trans (.setConn _ _ _)
  exact .modifySession _ _ fun hsame => absurd hsame hr

/-- A SESSION_SETUP that lets nobody in, or works on another session. -/
theorem SetupEnd.keepsUser (h : SetupEnd P k msg o s out)
    (hr : setupRef s msg = r → admitted P s msg o = none) : KeepsUser r s (stateOf out) := by
  cases h with
  | malformed => exact .of_sessions rfl
  | crash => exact .withSession
  | @refused _ a => exact .refusedServer a
  | @challenged _ a => exact .asked a
  | @established result a hwell hanswer hsuccess =>
    have hadmitted : admitted P s msg o = some result := by
      rw [admitted, setupResult_of_answer hwell hanswer, Option.filter_some, if_pos hsuccess]
    refine .establishedServer result a fun hsame => ?_
    exact absurd (hadmitted.symm.trans (hr hsame)) (Option.some_ne_none result)

/-- A SESSION_SETUP that lets a user in. -/
theorem SetupEnd.user_of_admitted (h : SetupEnd P k msg o s out) (hwf : s.sessions.WF)
    (hadmitted : admitted P s msg o = some result) :
    setupRef s msg < (stateOf out).sessions.nextRef ∧
      (stateOf out).userOf (setupRef s msg) = (result.username, result.isGuest) := by
  obtain ⟨hresult, hsuccess⟩ := Option.filter_eq_some_iff.mp hadmitted
  cases h with
  | malformed hbad => cases hresult.symm.trans (setupResult_of_malformed hbad)
  | crash hwell hanswer =>
    rw [setupResult_of_wellFormed hwell, hanswer] at hresult
    cases hresult
  | refused hwell hanswer hfail | challenged hwell hanswer hfail =>
    cases hresult.symm.trans (setupResult_of_answer hwell hanswer)
    exact absurd (hsuccess.symm.trans hfail) Bool.noConfusion
  | @established _ a hwell hanswer =>
    cases hresult.symm.trans (setupResult_of_answer hwell hanswer)
    exact ⟨setupRef_lt hwf, userOf_establishedServer _ a⟩

end Setup

theorem handleMessage_keepsUser (hwf : Tables s)
    (hr : msg.cmd = .sessionSetup → setupRef s msg = r → admitted P s msg o = none) :
    KeepsUser r s (handleMessage P k msg o s).2 := by
  by_cases hcmd : msg.cmd = .sessionSetup
  · rw [handleMessage_sessionSetup hcmd, respond_state]
    exact (handleSessionSetup_end P k msg o s).keepsUser (hr hcmd)
  · exact chain_invariant (I := fun t => KeepsUser r s t) (handleMessage_chain hwf.handles)
      (fun _ _ hc ht => ht.trans (hc.keepsUser hcmd)) (.of_sessions rfl)

theorem processMessage_user (hwf : Tables s) (hcmd : msg.cmd = .sessionSetup)
    (hadmitted : admitted P s msg o = some result) :
    setupRef s msg < (processMessage P k msg o s).2.sessions.nextRef ∧
      (processMessage P k msg o s).2.userOf (setupRef s msg) = (result.username, result.isGuest) := by
  obtain ⟨c, out, hend, -, hsessions⟩ := processMessage_setup P k o s hcmd
  rw [Server.userOf, hsessions]
  exact hend.user_of_admitted hwf.sessions hadmitted

/-! ## Events -/

variable {sys : System B}

theorem step_keepsUser (hwf : Tables sys.server) {e : Event}
    (h : logon P r sys e = none) : KeepsUser r sys.server (sys.step P e).server := by
  refine step_keeps (I := fun t => KeepsUser r sys.server t) ?_ ?_ ?_ ?_ ?_ (.of_sessions rfl)
  · exact fun s k c hs => hs.trans (.setConn s k c)
  · rintro k msg o c rfl hcr hs
    refine hs.trans (handleMessage_keepsUser (hwf.setConn k c) fun hcmd href => ?_)
    rw [logon, if_pos ⟨hcr, hcmd, href⟩] at h
    exact h
  · exact fun fs options hs => hs.trans (.of_sessions (addShare_sessions _ _ _))
  · exact fun name _ hs => hs.trans (.of_sessions rfl)
  · exact fun now hs => chain_invariant (I := fun t => KeepsUser r sys.server t)
      (cleanupTick_runs now).chain (fun _ _ hc ht => ht.trans hc.keepsUser) hs

theorem step_logon (hwf : Tables sys.server) {e : Event}
    (h : logon P r sys e = some result) :
    r < (sys.step P e).server.sessions.nextRef ∧
      (sys.step P e).server.userOf r = (result.username, result.isGuest) := by
  cases e with
  | message k msg o =>
    rw [logon, Option.ite_none_right_eq_some] at h
    obtain ⟨⟨hcr, hcmd, rfl⟩, hadmitted⟩ := h
    rw [step_react hcr, react_message]
    exact processMessage_user hwf hcmd hadmitted
  | connect | addShare | removeShare | cleanup => cases h

/-- The session `r` belongs to the user let in last, when `results` are those let in so far. -/
structure Remembers (r : SessionRef) (results : List AuthResult) (sys : System B) : Prop where
  tables : Tables sys.server
  last : ∀ result, results.getLast? = some result →
    r < sys.server.sessions.nextRef ∧ sys.server.userOf r = (result.username, result.isGuest)

theorem Remembers.step {results : List AuthResult} (h : Remembers r results sys)
    (e : Event) : Remembers r (results ++ (logon P r sys e).toList) (sys.step P e) := by
  refine ⟨h.tables.step e, fun result hresult => ?_⟩
  cases hlogon : logon P r sys e with
  | none =>
    rw [hlogon, Option.toList_none, List.append_nil] at hresult
    obtain ⟨hlt, huser⟩ := h.last result hresult
    have hkeep := step_keepsUser h.tables hlogon
    exact ⟨Nat.lt_of_lt_of_le hlt hkeep.next_le, (hkeep.user_eq hlt).trans huser⟩
  | some new =>
    rw [hlogon, Option.toList_some, List.getLast?_concat] at hresult
    obtain rfl := Option.some.inj hresult
    exact step_logon h.tables hlogon

/-- **The user of a session** is the one that was let in last. -/
theorem user_of_logon (options : ServerOptions) (rand : Bytes) (disks : FsRef → B.Disk)
    {es : List Event} (h : LastLogon P (.initial options rand disks) es r result) :
    (System.run P (.initial options rand disks) es).server.userOf r =
      (result.username, result.isGuest) := by
  have hstart : Remembers r [] (System.initial options rand disks) :=
    ⟨.initial options rand disks, fun _ hnone => by cases hnone⟩
  have hrun : Remembers r _ (System.run P (.initial options rand disks) es) :=
    runFrom_collect (fun _ _ e hpast => hpast.step e) hstart es
  exact (hrun.last result h).2

/-! ## TREE_CONNECT -/

/-- After `es`, the user of the logon `result` asks to connect the session `r` to a
share with the list `allowed`. The user is not a guest. -/
structure UserConnects (P : Platform) (sys : System B) (es : List Event) (result : AuthResult)
    (msg : SMB2Message) (allowed : List Str) : Prop where
  command : msg.cmd = .treeConnect
  notGuest : result.isGuest = false
  asks : ∃ r name sh, LastLogon P sys es r result ∧
    Connects (System.run P sys es).server msg r name sh ∧
    ((System.run P sys es).server.shareHeap sh).options.allowedUsers = allowed

/-- A user who is no guest is let in by an empty list, or by name. -/
theorem Share.checkUserAccess_iff {File : Type} (share : Share File) (username : Str) :
    share.checkUserAccess username false = true ↔
      share.options.allowedUsers = [] ∨ username ∈ share.options.allowedUsers := by
  rw [checkUserAccess, if_neg Bool.false_ne_true]
  split
  · next hempty => exact iff_of_true rfl (.inl (List.isEmpty_iff.mp hempty))
  · next hempty =>
    rw [List.isEmpty_iff] at hempty
    rw [List.contains_iff_mem, or_iff_right hempty]

/-- The session is compared by the spelling that its user sent. -/
theorem UserConnects.succeeds_iff {options : ServerOptions} {rand : Bytes} {disks : FsRef → B.Disk}
    {es : List Event} {allowed : List Str}
    (h : UserConnects P (.initial options rand disks) es result msg allowed) (k : ConnId)
    (o : Oracle) :
    Succeeds P k msg o (System.run P (.initial options rand disks) es).server ↔
      allowed = [] ∨ result.username ∈ allowed := by
  obtain ⟨r, name, sh, hlogon, hconnects, rfl⟩ := h.asks
  have huser := user_of_logon options rand disks hlogon
  rw [h.notGuest] at huser
  obtain ⟨hname, hguest⟩ := Prod.mk.inj huser
  rw [hconnects.succeeds_iff h.command, Server.admits, hname, hguest, Share.checkUserAccess_iff]

/-- **Spelling of user names.** Two users who are no guests are treated alike by shares
with one list exactly if the list is empty, or has the spelling that the one logged on
with if it has that of the other. -/
theorem user_spelling_iff (options : ServerOptions) (rand : Bytes) (disks : FsRef → B.Disk)
    {es es' : List Event} {result result' : AuthResult} {msg msg' : SMB2Message}
    {allowed : List Str} (h : UserConnects P (.initial options rand disks) es result msg allowed)
    (h' : UserConnects P (.initial options rand disks) es' result' msg' allowed)
    (k k' : ConnId) (o o' : Oracle) :
    (Succeeds P k msg o (System.run P (.initial options rand disks) es).server ↔
      Succeeds P k' msg' o' (System.run P (.initial options rand disks) es').server) ↔
    allowed = [] ∨ (result.username ∈ allowed ↔ result'.username ∈ allowed) := by
  rw [h.succeeds_iff, h'.succeeds_iff]
  by_cases hempty : allowed = []
  · simp only [hempty, true_or]
  · simp only [hempty, false_or]

/-- A share for the users in `allowed`, and a logon of the user `U` as `name`. -/
def spelledLogon (allowed : List Str) (name : Str) : List Event :=
  .addShare (some 0) { sampleShare ['D'] false with allowedUsers := allowed } ::
    [.connect 0 [], sent (negotiateRequest [smb3_0]),
      sent (sessionSetupRequest 0 (authenticateMessage name))]

/-- The server after that logon. -/
def spelledServer (allowed : List Str) (name : Str) : Server inodeFs :=
  (System.run samplePlatform userSystem (spelledLogon allowed name)).server

/-- Both spellings log on, and ask for the share. -/
theorem spelledLogon_connects (allowed : List Str) (hallowed : allowed ∈ [[['u']], [['U'], ['u']]])
    (name : Str) (hname : name ∈ [['u'], ['U']]) :
    ∃ result : AuthResult, result.username = name ∧ UserConnects samplePlatform userSystem
      (spelledLogon allowed name) result (treeConnectRequest 7 ['D']) allowed := by
  have hlogon : ∀ allowed ∈ [[['u']], [['U'], ['u']]], ∀ name ∈ [['u'], ['U']],
      (collect (System.step samplePlatform) (logon samplePlatform 0) userSystem
        (spelledLogon allowed name)).getLast?.map (fun result => (result.username, result.isGuest)) =
        some (name, false) := by
    decide +kernel
  have hserver : ∀ allowed ∈ [[['u']], [['U'], ['u']]], ∀ name ∈ [['u'], ['U']],
      (spelledServer allowed name).sessions.validateSession 7 = some 0 ∧
        (spelledServer allowed name).shares.lookup ['D'] = some 1 ∧
        ((spelledServer allowed name).shareHeap 1).options.allowedUsers = allowed := by
    decide +kernel
  obtain ⟨result, hlast, huser⟩ := Option.map_eq_some_iff.mp (hlogon allowed hallowed name hname)
  obtain ⟨husername, hguest⟩ := Prod.mk.inj huser
  obtain ⟨hsession, hshare, hlist⟩ := hserver allowed hallowed name hname
  refine ⟨result, husername, rfl, hguest, 0, ['D'], 1, hlast, ?_, hlist⟩
  exact ⟨hsession, by decide +kernel, by decide +kernel, by decide, hshare⟩

/-- A share that lists both spellings treats them alike. -/
theorem user_spelling_both_listed :
    Succeeds samplePlatform 0 (treeConnectRequest 7 ['D']) sampleOracle
        (spelledServer [['U'], ['u']] ['u']) ↔
      Succeeds samplePlatform 0 (treeConnectRequest 7 ['D']) sampleOracle
        (spelledServer [['U'], ['u']] ['U']) := by
  obtain ⟨result, hname, h⟩ := spelledLogon_connects [['U'], ['u']] (by decide) ['u'] (by decide)
  obtain ⟨result', hname', h'⟩ := spelledLogon_connects [['U'], ['u']] (by decide) ['U'] (by decide)
  refine (user_spelling_iff _ _ _ h h' 0 0 sampleOracle sampleOracle).mpr (.inr ?_)
  rw [hname, hname']
  decide

/-- The user `U` logs on with either spelling. The share that lists `u` lets the one
in and not the other. -/
theorem user_spelling_refused :
    samplePlatform.upper ['u'] = samplePlatform.upper ['U'] ∧
      (∃ result : AuthResult, result.username = ['u'] ∧ UserConnects samplePlatform userSystem
        (spelledLogon [['u']] ['u']) result (treeConnectRequest 7 ['D']) [['u']]) ∧
      (∃ result : AuthResult, result.username = ['U'] ∧ UserConnects samplePlatform userSystem
        (spelledLogon [['u']] ['U']) result (treeConnectRequest 7 ['D']) [['u']]) ∧
      Succeeds samplePlatform 0 (treeConnectRequest 7 ['D']) sampleOracle
        (spelledServer [['u']] ['u']) ∧
      ¬ Succeeds samplePlatform 0 (treeConnectRequest 7 ['D']) sampleOracle
        (spelledServer [['u']] ['U']) :=
  ⟨by decide, spelledLogon_connects _ (by decide) _ (by decide),
    spelledLogon_connects _ (by decide) _ (by decide), by decide +kernel, by decide +kernel⟩

end Smbfs
