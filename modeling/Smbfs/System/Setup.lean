import Smbfs.System.Change

/-!
SESSION_SETUP, exit by exit.

* `setupResult`: the answer of the authenticator to the request;
* `SetupEnd`, `handleSessionSetup_end`: the ways out of the handler, with the
  server that each one leaves.
-/

namespace Smbfs

open Smbfs.Lib

variable {B : Backend} {P : Platform} {k : ConnId} {msg : SMB2Message} {o : Oracle} {s : Server B}

/-- The security blob is there and lies inside the request. -/
def setupWellFormed (payload : Bytes) : Bool :=
  wellFormed payload 24 25 && (securityBlob payload).isSome

/-- The authenticator SESSION_SETUP asks: that of the session it continues, or a new one. -/
def setupAuthenticator (P : Platform) (s : Server B) (msg : SMB2Message) : NTLMAuthenticator :=
  match selectSession s.sessions msg with
  | some r => authenticatorOf P s r
  | none => newNTLMAuthenticator P s.options.serverName s.options.users s.options.allowGuest

/-- What the authenticator answers; `none` if it is not asked, or panics. -/
def setupResult (P : Platform) (s : Server B) (msg : SMB2Message) (o : Oracle) :
    Option AuthResult :=
  if wellFormed msg.payload 24 25 then
    (securityBlob msg.payload).bind fun blob =>
      ((setupAuthenticator P s msg).authenticate P o.now o.challenge blob).map Prod.fst
  else none

/-- The answer with the state that the authenticator is in then. -/
def setupAnswer (P : Platform) (s : Server B) (msg : SMB2Message) (o : Oracle) :
    Option (AuthResult × NTLMAuthenticator) :=
  (securityBlob msg.payload).bind fun blob =>
    (setupAuthenticator P s msg).authenticate P o.now o.challenge blob

theorem setupResult_of_wellFormed (h : setupWellFormed msg.payload = true) :
    setupResult P s msg o = (setupAnswer P s msg o).map Prod.fst := by
  obtain ⟨hw, hblob⟩ := Bool.and_eq_true_iff.mp h
  obtain ⟨blob, hblob⟩ := Option.isSome_iff_exists.mp hblob
  rw [setupResult, if_pos hw, setupAnswer, hblob, Option.bind_some, Option.bind_some]

theorem setupResult_of_malformed (h : setupWellFormed msg.payload = false) :
    setupResult P s msg o = none := by
  unfold setupResult
  split
  · next hw =>
    have hblob : securityBlob msg.payload = none := by simpa [setupWellFormed, hw] using h
    rw [hblob, Option.bind_none]
  · rfl

/-- Neither the session nor the answer depends on the connections. -/
theorem setupRef_setConn (c : ConnState) : setupRef (s.setConn k c) msg = setupRef s msg := rfl

theorem setupResult_setConn (c : ConnState) :
    setupResult P (s.setConn k c) msg o = setupResult P s msg o := rfl

/-- The signing key that a successful authentication gives the session. -/
def establishedKey (P : Platform) (conn : ConnState) (result : AuthResult) : Option Bytes :=
  result.sessionKey.map fun key => deriveSigningKey P key conn.dialect conn.preauthHash

/-- The server after `sessionFor`. -/
def withSession (k : ConnId) (msg : SMB2Message) (o : Oracle) (s : Server B) : Server B :=
  match selectSession s.sessions msg with
  | some _ => s
  | none => { s with
      sessions := s.sessions.createSession o.sessionRand o.now s.options.maxDialect (zeros 16)
        (s.conns k).remoteAddr }

theorem selectSession_lookup {m : SessionManager} {r : SessionRef} (h : selectSession m msg = some r) :
    ∃ id, m.sessions.lookup id = some r := by
  unfold selectSession at h
  dsimp only at h
  split at h
  · next hprevious =>
    cases h
    split at hprevious
    · exact ⟨_, hprevious⟩
    · cases hprevious
  · split at h
    · exact ⟨_, h⟩
    · cases h

theorem setupRef_lt (hwf : s.sessions.WF) :
    setupRef s msg < (withSession k msg o s).sessions.nextRef := by
  unfold withSession setupRef
  cases hsel : selectSession s.sessions msg with
  | some r' =>
    obtain ⟨id, hid⟩ := selectSession_lookup hsel
    exact hwf.lt_next id r' hid
  | none => exact Nat.lt_succ_self _

/-- The server after the session was found or made and its authenticator has answered. -/
def asked (k : ConnId) (msg : SMB2Message) (o : Oracle) (s : Server B) (a : NTLMAuthenticator) :
    Server B :=
  (withSession k msg o s).modifySession (setupRef s msg) fun session =>
    { session with authenticator := some a }

/-- A request that names no session makes one, without trees, and puts it into the table. -/
theorem asked_new (a : NTLMAuthenticator) (h : selectSession s.sessions msg = none) :
    setupRef s msg = s.sessions.nextRef ∧
      ((asked k msg o s a).sessions.heap (setupRef s msg)).id =
        s.sessions.newSessionID o.sessionRand ∧
      ((asked k msg o s a).sessions.heap (setupRef s msg)).trees = ∅ := by
  rw [asked, Server.heap_modifySession, if_pos rfl]
  simp [withSession, h, setupRef, SessionManager.createSession, Session.new]

theorem lookup_asked (a : NTLMAuthenticator) (h : selectSession s.sessions msg = none)
    (id : UInt64) : (asked k msg o s a).sessions.sessions.lookup id =
      if id = s.sessions.newSessionID o.sessionRand then some s.sessions.nextRef
      else s.sessions.sessions.lookup id := by
  simp only [asked, withSession, h]
  exact SessionManager.createSession_lookup ..

/-- The server after a refusal: a session that the request created is destroyed. -/
def refusedServer (k : ConnId) (msg : SMB2Message) (o : Oracle) (s : Server B)
    (a : NTLMAuthenticator) : Server B :=
  if (selectSession s.sessions msg).isNone then
    { asked k msg o s a with
      sessions := (asked k msg o s a).sessions.destroySession
        ((asked k msg o s a).sessions.heap (setupRef s msg)).id }
  else asked k msg o s a

/-- The server after a successful authentication. -/
def establishedServer (P : Platform) (k : ConnId) (msg : SMB2Message) (o : Oracle) (s : Server B)
    (result : AuthResult) (a : NTLMAuthenticator) : Server B :=
  ((asked k msg o s a).modifySession (setupRef s msg) fun session =>
    session.setValid result.username result.domain result.isGuest
      (establishedKey P (s.conns k) result) o.now).setConn k
    { s.conns k with session := some (setupRef s msg) }

theorem run_sessionFor_bind {α : Type} (f : SessionRef → M B α) :
    (sessionFor k msg o >>= f) s = f (setupRef s msg) (withSession k msg o s) := by
  rw [bind_run]
  simp only [sessionFor, M.run_get_bind, withSession, setupRef]
  cases selectSession s.sessions msg with
  | some r => rfl
  | none => rfl

theorem run_authenticateSession_bind {α : Type} (r : SessionRef) (blob : Window UInt8)
    (f : AuthResult → M B α) :
    (authenticateSession P r o blob >>= f) s =
      match (authenticatorOf P s r).authenticate P o.now o.challenge blob with
      | some (result, a) =>
        f result (s.modifySession r fun session => { session with authenticator := some a })
      | none => .error .crash s := by
  rw [bind_run]
  simp only [authenticateSession, M.run_get_bind, M.run_deref_bind]
  cases (authenticatorOf P s r).authenticate P o.now o.challenge blob with
  | none => rfl
  | some x => rfl

theorem conns_withSession : (withSession k msg o s).conns = s.conns := by
  unfold withSession
  split <;> rfl

/-- A new session has no authenticator yet. -/
theorem authenticatorOf_withSession :
    authenticatorOf P (withSession k msg o s) (setupRef s msg) = setupAuthenticator P s msg := by
  unfold withSession setupRef setupAuthenticator
  cases selectSession s.sessions msg with
  | some r => rfl
  | none => simp [authenticatorOf, SessionManager.createSession, Session.new]

theorem run_establish (r : SessionRef) (result : AuthResult) :
    establish P k r result o s =
      .ok ⟨sessionSetupResponse (if result.isGuest then 1 else 0)
          (result.responseBlob.filter fun blob => blob.length > 0),
        .success, some (s.sessions.heap r).id, none⟩
      ((s.modifySession r fun session => session.setValid result.username result.domain
        result.isGuest (establishedKey P (s.conns k) result) o.now).setConn k
          { s.conns k with session := some r }) := rfl

/-- How SESSION_SETUP ends. -/
inductive SetupEnd (P : Platform) (k : ConnId) (msg : SMB2Message) (o : Oracle) (s : Server B) :
    EStateM.Result Stop (Server B) Reply → Prop where
  | malformed (h : setupWellFormed msg.payload = false) :
      SetupEnd P k msg o s (.error (.status .invalidParameter) s)
  | crash (h : setupWellFormed msg.payload = true) (hanswer : setupAnswer P s msg o = none) :
      SetupEnd P k msg o s (.error .crash (withSession k msg o s))
  | refused {result a} (h : setupWellFormed msg.payload = true)
      (hanswer : setupAnswer P s msg o = some (result, a)) (hfail : result.success = false)
      (hblob : result.responseBlob = none) :
      SetupEnd P k msg o s (.error (.status .logonFailure) (refusedServer k msg o s a))
  | challenged {result a blob} (h : setupWellFormed msg.payload = true)
      (hanswer : setupAnswer P s msg o = some (result, a)) (hfail : result.success = false)
      (hblob : result.responseBlob = some blob) :
      SetupEnd P k msg o s (.ok ⟨sessionSetupResponse 0 (some blob), .moreProcessingRequired,
        some ((asked k msg o s a).sessions.heap (setupRef s msg)).id, none⟩ (asked k msg o s a))
  | established {result a} (h : setupWellFormed msg.payload = true)
      (hanswer : setupAnswer P s msg o = some (result, a)) (hsuccess : result.success = true) :
      SetupEnd P k msg o s (.ok ⟨sessionSetupResponse (if result.isGuest then 1 else 0)
          (result.responseBlob.filter fun blob => blob.length > 0),
        .success, some ((asked k msg o s a).sessions.heap (setupRef s msg)).id, none⟩
        (establishedServer P k msg o s result a))

/-- **SESSION_SETUP.** -/
theorem handleSessionSetup_end (P : Platform) (k : ConnId) (msg : SMB2Message) (o : Oracle)
    (s : Server B) : SetupEnd P k msg o s (handleSessionSetup P k msg o s) := by
  simp only [handleSessionSetup, run_checkRequest_bind, M.run_require_bind, M.run_get_bind,
    run_sessionFor_bind, run_authenticateSession_bind, authenticatorOf_withSession]
  split
  case isFalse hw => exact .malformed (by simp [setupWellFormed, hw])
  case isTrue hw =>
    cases hblob : securityBlob msg.payload with
    | none => exact .malformed (by simp [setupWellFormed, hblob])
    | some blob =>
      have hwell : setupWellFormed msg.payload = true := by simp [setupWellFormed, hw, hblob]
      dsimp only
      cases hauth : (setupAuthenticator P s msg).authenticate P o.now o.challenge blob with
      | none => exact .crash hwell (by rw [setupAnswer, hblob, Option.bind_some, hauth])
      | some x =>
        obtain ⟨result, a⟩ := x
        have hanswer : setupAnswer P s msg o = some (result, a) := by
          rw [setupAnswer, hblob, Option.bind_some, hauth]
        dsimp only
        cases hs : result.success with
        | true =>
          have hconns : (asked k msg o s a).conns = s.conns := conns_withSession
          have hend := SetupEnd.established (k := k) hwell hanswer hs
          rw [establishedServer, ← hconns] at hend
          rw [if_pos rfl, run_establish]
          exact hend
        | false =>
          cases hresponse : result.responseBlob with
          | some blob => exact .challenged hwell hanswer hs hresponse
          | none =>
            have hend := SetupEnd.refused (k := k) hwell hanswer hs hresponse
            unfold refusedServer at hend
            cases hnew : (selectSession s.sessions msg).isNone with
            | true =>
              rw [if_pos hnew] at hend
              exact hend
            | false =>
              rw [if_neg (Bool.eq_false_iff.mp hnew)] at hend
              exact hend

end Smbfs
