import Smbfs.System.Frame
import Smbfs.System.Tables

/-!
The requests that write to the state of their connection, exit by exit.

* `handleNegotiate_cases`: NEGOTIATE fails or records the dialect it answers;
* `SetupExit`: what SESSION_SETUP does to the connections;
* `handleLogoff_conns`: LOGOFF takes at most the session from its connection;
* `processMessage_of_quiet`: a message that is not hashed is only handled.
-/

namespace Smbfs

open Smbfs.Lib

variable {B : Backend} {P : Platform} {k : ConnId} {msg : SMB2Message} {o : Oracle} {s : Server B}

/-! ## NEGOTIATE -/

theorem selectDialect_mem (opts : ServerOptions) (clientDialects : List SMBDialect)
    (h : selectDialect opts clientDialects ≠ 0) :
    opts.minDialect ≤ selectDialect opts clientDialects ∧
      selectDialect opts clientDialects ≤ opts.maxDialect := by
  unfold selectDialect at h ⊢
  cases hd : supportedDialects.find? (fun d => !(d > opts.maxDialect) && !(d < opts.minDialect) &&
      clientDialects.contains d) with
  | none =>
    rw [hd] at h
    exact absurd rfl h
  | some d =>
    have hp := List.find?_some hd
    simp only [gt_iff_lt, Bool.and_eq_true, Bool.not_eq_eq_eq_not, Bool.not_true,
      decide_eq_false_iff_not] at hp
    exact ⟨UInt16.not_lt.mp hp.1.2, UInt16.not_lt.mp hp.1.1⟩

theorem handleNegotiate_empty (h : msg.payload = []) :
    handleNegotiate k msg o s =
      .ok (.ok (buildNegotiateResponse s.options o.now s.options.maxDialect)) s := by
  simp [handleNegotiate, h]

/-- With a payload, NEGOTIATE fails or records the dialect it answers. -/
theorem handleNegotiate_cases (h : msg.payload ≠ []) :
    (∃ st, st ≠ .success ∧ handleNegotiate k msg o s = .error (.status st) s) ∨
    ∃ d signing, s.options.minDialect ≤ d ∧ d ≤ s.options.maxDialect ∧
      (s.options.signingRequired = true → signing = true) ∧
      handleNegotiate k msg o s = .ok (.ok (buildNegotiateResponse s.options o.now d))
        (s.setConn k { s.conns k with
          session := none, dialect := d, signingRequired := signing }) := by
  have hne : msg.payload.isEmpty = false := by simpa using h
  simp only [handleNegotiate, M.run_get_bind, hne, Bool.false_eq_true, if_false,
    run_checkRequest_bind, M.run_require_bind, M.run_failIf_bind, M.run_modify_bind, M.run_pure]
  split
  · cases hd : (NegotiateRequest.ofPayload msg.payload).clientDialects with
    | none => exact .inl ⟨.invalidParameter, by decide, rfl⟩
    | some clientDialects =>
      by_cases hzero : selectDialect s.options clientDialects = 0
      · exact .inl ⟨.notSupported, by decide, by simp [hzero]⟩
      · have hmem := selectDialect_mem s.options clientDialects hzero
        have hmin : ¬ selectDialect s.options clientDialects < s.options.minDialect :=
          UInt16.not_lt.mpr hmem.1
        refine .inr ⟨_, decide ((NegotiateRequest.ofPayload msg.payload).clientSecurityMode &&& 2 ≠ 0)
          || s.options.signingRequired, hmem.1, hmem.2, fun hs => ?_, ?_⟩
        · simp [hs]
        · simp only [hzero, hmin, decide_false, Bool.false_eq_true, if_false]
  · exact .inl ⟨.invalidParameter, by decide, rfl⟩

/-! ## SESSION_SETUP -/

/-- What SESSION_SETUP does to the connections. -/
inductive SetupExit (P : Platform) (k : ConnId) (msg : SMB2Message) (o : Oracle) (s : Server B) :
    EStateM.Result Stop (Server B) Reply → Prop where
  | malformed (h : setupWellFormed msg.payload = false) :
      SetupExit P k msg o s (.error (.status .invalidParameter) s)
  | crash {s'} (hresult : setupResult P s msg o = none) (hconns : s'.conns = s.conns) :
      SetupExit P k msg o s (.error .crash s')
  | refused {s' result} (h : setupWellFormed msg.payload = true)
      (hresult : setupResult P s msg o = some result) (hfail : result.success = false)
      (hconns : s'.conns = s.conns) : SetupExit P k msg o s (.error (.status .logonFailure) s')
  | continued {s' result reply} (h : setupWellFormed msg.payload = true)
      (hresult : setupResult P s msg o = some result) (hfail : result.success = false)
      (hstatus : reply.status = .moreProcessingRequired) (hconns : s'.conns = s.conns) :
      SetupExit P k msg o s (.ok reply s')
  | established {s' result reply} (h : setupWellFormed msg.payload = true)
      (hresult : setupResult P s msg o = some result) (hsuccess : result.success = true)
      (hstatus : reply.status = .success)
      (hconns : s'.conns = Function.update s.conns k
        { s.conns k with session := some (setupRef s msg) })
      (hkey : (s'.sessions.heap (setupRef s msg)).signingKey =
        establishedKey P (s.conns k) result) :
      SetupExit P k msg o s (.ok reply s')

theorem conns_refusedServer (a : NTLMAuthenticator) :
    (refusedServer k msg o s a).conns = s.conns := by
  unfold refusedServer
  split <;> exact conns_withSession

theorem setupResult_of_answer {result : AuthResult} {a : NTLMAuthenticator}
    (h : setupWellFormed msg.payload = true) (hanswer : setupAnswer P s msg o = some (result, a)) :
    setupResult P s msg o = some result := by
  rw [setupResult_of_wellFormed h, hanswer, Option.map_some]

theorem handleSessionSetup_exit (P : Platform) (k : ConnId) (msg : SMB2Message) (o : Oracle)
    (s : Server B) : SetupExit P k msg o s (handleSessionSetup P k msg o s) := by
  have hend := handleSessionSetup_end P k msg o s
  generalize handleSessionSetup P k msg o s = out at hend ⊢
  cases hend with
  | malformed h => exact .malformed h
  | crash h hanswer =>
    exact .crash (by rw [setupResult_of_wellFormed h, hanswer, Option.map_none]) conns_withSession
  | @refused result a h hanswer hfail =>
    exact .refused h (setupResult_of_answer h hanswer) hfail (conns_refusedServer a)
  | @challenged result a blob h hanswer hfail =>
    exact .continued h (setupResult_of_answer h hanswer) hfail rfl conns_withSession
  | @established result a h hanswer hsuccess =>
    refine .established h (setupResult_of_answer h hanswer) hsuccess rfl ?_ ?_
    · simp [establishedServer, asked, Server.setConn, Server.modifySession, conns_withSession]
    · simp [establishedServer, Server.setConn, Server.modifySession, SessionManager.modify,
        Session.setValid]

/-- When the authenticator accepts, the session is established. -/
theorem handleSessionSetup_of_success {result : AuthResult}
    (hresult : setupResult P s msg o = some result) (hsuccess : result.success = true) :
    ∃ reply s', handleSessionSetup P k msg o s = .ok reply s' ∧ reply.status = .success ∧
      s'.conns = Function.update s.conns k { s.conns k with session := some (setupRef s msg) } ∧
      (s'.sessions.heap (setupRef s msg)).signingKey = establishedKey P (s.conns k) result := by
  have hexit := handleSessionSetup_exit P k msg o s
  generalize handleSessionSetup P k msg o s = out at hexit ⊢
  cases hexit with
  | malformed hbad => cases hresult.symm.trans (setupResult_of_malformed hbad)
  | crash hnone => cases hresult.symm.trans hnone
  | refused _ hres hfail | continued _ hres hfail =>
    cases hresult.symm.trans hres
    cases hsuccess.symm.trans hfail
  | established _ hres _ hstatus hconns hkey =>
    cases hresult.symm.trans hres
    exact ⟨_, _, rfl, hstatus, hconns, hkey⟩

/-- SESSION_SETUP writes at most the session of the connection. -/
theorem handleSessionSetup_conn :
    ∃ x, (stateOf (handleSessionSetup P k msg o s)).conns k = { s.conns k with session := x } := by
  have hexit := handleSessionSetup_exit P k msg o s
  generalize handleSessionSetup P k msg o s = out at hexit ⊢
  cases hexit with
  | malformed => exact ⟨(s.conns k).session, rfl⟩
  | crash _ hconns | refused _ _ _ hconns | continued _ _ _ _ hconns =>
    exact ⟨(s.conns k).session, congrFun hconns k⟩
  | established _ _ _ _ hconns =>
    exact ⟨some (setupRef s msg), by simp [stateOf, hconns]⟩

/-! ## LOGOFF -/

theorem handleLogoff_malformed (h : wellFormed msg.payload 4 4 = false) :
    stateOf (handleLogoff k msg s) = s := by
  simp only [handleLogoff, run_validateSession_bind, run_checkRequest_bind, h, Bool.false_eq_true,
    if_false]
  cases s.sessions.validateSession msg.header.sessionID <;> rfl

theorem handleLogoff_conns (k : ConnId) (msg : SMB2Message) (s : Server B) :
    (stateOf (handleLogoff k msg s)).conns = s.conns ∨
      (stateOf (handleLogoff k msg s)).conns =
        Function.update s.conns k { s.conns k with session := none } := by
  have hframe : Frame (B := B) Server.conns := ⟨fun _ _ _ => rfl, fun _ _ => rfl, fun _ _ _ => rfl,
    fun _ _ _ _ => rfl⟩
  simp only [handleLogoff, run_validateSession_bind, run_checkRequest_bind, M.run_get_bind]
  cases s.sessions.validateSession msg.header.sessionID with
  | none => exact .inl rfl
  | some r =>
    dsimp only
    split
    · rw [bind_run]
      have hkeep := Frame.releaseTrees hframe.calm (s.sessions.heap r).id (s.sessions.heap r).trees.values s
      cases hr : releaseTrees (s.sessions.heap r).id (s.sessions.heap r).trees.values s with
      | error e s' =>
        rw [hr] at hkeep
        exact .inl hkeep
      | ok u s' =>
        rw [hr] at hkeep
        have hconns : s'.conns = s.conns := hkeep
        refine .inr ?_
        change Function.update s'.conns k { s'.conns k with session := none } = _
        rw [hconns]
    · exact .inl rfl

/-! ## The connection loop -/

theorem handleMessage_command {r : SMB2Response} (h : (handleMessage P k msg o s).1 = .response r) :
    r.header.command = msg.header.command := by
  unfold handleMessage at h
  split at h
  · cases h
    exact buildResponse_command _ _ _ _
  · cases h
  · cases h
    exact buildResponse_command _ _ _ _
  · cases h

variable {resp : SMB2Response}

/-- The response is built in the state that the handler leaves. -/
theorem handleMessage_response (h : (handleMessage P k msg o s).1 = .response resp) :
    ∃ reply, resp = buildResponse (handleMessage P k msg o s).2 k msg reply := by
  unfold handleMessage at h ⊢
  split at h
  · cases h
    exact ⟨_, rfl⟩
  · cases h
  · cases h
    exact ⟨_, rfl⟩
  · cases h

theorem handleMessage_cancel (h : msg.cmd = .cancel) : handleMessage P k msg o s = (.silent, s) := by
  have hroute : route P k msg o s = .ok none s := by
    rw [route, h]
    rfl
  rw [handleMessage, hroute]

theorem hashRequest_of_quiet (hneg : msg.cmd ≠ .negotiate)
    (hsetup : msg.cmd = .sessionSetup → (s.conns k).dialect < smb3_1_1) :
    hashRequest P k msg s = s := by
  refine if_neg ?_
  rintro (h | ⟨hd, h, -⟩)
  · exact hneg h
  · exact absurd hd (UInt16.not_le.mpr (hsetup h))

theorem hashResponse_of_quiet {r : SMB2Response} (hcmd : r.header.command = msg.header.command)
    (hneg : msg.cmd = .negotiate → (s.conns k).dialect < smb3_1_1)
    (hsetup : msg.cmd = .sessionSetup → (s.conns k).dialect < smb3_1_1) :
    hashResponse P k r s = s := by
  refine if_neg ?_
  rw [hcmd]
  rintro ⟨hd, h | ⟨h, -⟩⟩
  · exact absurd hd (UInt16.not_le.mpr (hneg h))
  · exact absurd hd (UInt16.not_le.mpr (hsetup h))

/-- The connections are those that `HandleMessage` leaves. -/
theorem processMessage_of_quiet (hneg : msg.cmd ≠ .negotiate)
    (hsetup : msg.cmd = .sessionSetup → (s.conns k).dialect < smb3_1_1)
    (hafter : msg.cmd = .sessionSetup →
      ((handleMessage P k msg o s).2.conns k).dialect < smb3_1_1) :
    processMessage P k msg o s = handleMessage P k msg o s := by
  have hcmd : ∀ r, (handleMessage P k msg o s).1 = .response r →
      r.header.command = msg.header.command := fun _ => handleMessage_command
  rw [processMessage, hashRequest_of_quiet hneg hsetup]
  generalize handleMessage P k msg o s = out at hcmd hafter
  obtain ⟨out, s'⟩ := out
  cases out with
  | response r =>
    have hkeep : hashResponse P k r s' = s' :=
      hashResponse_of_quiet (hcmd r rfl) (fun h => absurd h hneg) hafter
    exact congrArg _ hkeep
  | _ => rfl

theorem processMessage_of_handle {s1 s2 : Server B}
    (hreq : hashRequest P k msg s = s1) (h : handleMessage P k msg o s1 = (.response resp, s2)) :
    processMessage P k msg o s = (.response resp, hashResponse P k resp s2) := by
  rw [processMessage, hreq, h]

/-- The response is that of `HandleMessage`, and no session is written after it. -/
theorem processMessage_eq (P : Platform) (k : ConnId) (msg : SMB2Message) (o : Oracle)
    (s : Server B) :
    (processMessage P k msg o s).1 = (handleMessage P k msg o (hashRequest P k msg s)).1 ∧
      (processMessage P k msg o s).2.sessions =
        (handleMessage P k msg o (hashRequest P k msg s)).2.sessions := by
  rw [processMessage]
  generalize handleMessage P k msg o (hashRequest P k msg s) = out
  obtain ⟨out, s'⟩ := out
  cases out with
  | response r =>
    obtain ⟨hash, hresp⟩ := hashResponse_eq P k r s'
    exact ⟨rfl, by simp only [hresp]; rfl⟩
  | crash | silent => exact ⟨rfl, rfl⟩

theorem processMessage_response (h : (processMessage P k msg o s).1 = .response resp) :
    (handleMessage P k msg o (hashRequest P k msg s)).1 = .response resp ∧
      (processMessage P k msg o s).2.sessions =
        (handleMessage P k msg o (hashRequest P k msg s)).2.sessions := by
  obtain ⟨hout, hsessions⟩ := processMessage_eq P k msg o s
  exact ⟨hout.symm.trans h, hsessions⟩

/-- The loop answers as `HandleMessage` does, and writes no session besides. -/
theorem processMessage_sessions (P : Platform) (k : ConnId) (msg : SMB2Message) (o : Oracle)
    (s : Server B) :
    ∃ c, (processMessage P k msg o s).1 = (handleMessage P k msg o (s.setConn k c)).1 ∧
      (processMessage P k msg o s).2.sessions =
        (handleMessage P k msg o (s.setConn k c)).2.sessions := by
  obtain ⟨hash, hreq⟩ := hashRequest_eq P k msg s
  exact ⟨_, hreq ▸ processMessage_eq P k msg o s⟩

/-- SESSION_SETUP in the loop. -/
theorem processMessage_setup (P : Platform) (k : ConnId) (o : Oracle) (s : Server B)
    (hcmd : msg.cmd = .sessionSetup) :
    ∃ c out, SetupEnd P k msg o (s.setConn k c) out ∧
      (processMessage P k msg o s).1 = (respond k msg out).1 ∧
      (processMessage P k msg o s).2.sessions = (stateOf out).sessions := by
  obtain ⟨c, hout, hsessions⟩ := processMessage_sessions P k msg o s
  rw [handleMessage_sessionSetup hcmd] at hout hsessions
  rw [respond_state] at hsessions
  exact ⟨c, _, handleSessionSetup_end P k msg o (s.setConn k c), hout, hsessions⟩

theorem processMessage_conns_of_ne {k' : ConnId} (h : k' ≠ k) :
    (processMessage P k' msg o s).2.conns k = s.conns k := by
  obtain ⟨hash, hreq⟩ := hashRequest_eq P k' msg s
  have hkeep : (handleMessage P k' msg o (s.setConn k' { s.conns k' with
      preauthHash := hash })).2.conns k = _ := handleMessage_conns _ (.inl h.symm)
  rw [processMessage, hreq]
  generalize handleMessage P k' msg o (s.setConn k' _) = out at hkeep ⊢
  obtain ⟨out, s'⟩ := out
  have hs' : s'.conns k = s.conns k := hkeep.trans (Function.update_of_ne h.symm ..)
  cases out with
  | response r =>
    obtain ⟨hash', hresp⟩ := hashResponse_eq P k' r s'
    simp only [hresp]
    exact (Function.update_of_ne h.symm ..).trans hs'
  | _ => exact hs'

theorem dialect_hashResponse (resp : SMB2Response) :
    ((hashResponse P k resp s).conns k).dialect = (s.conns k).dialect := by
  obtain ⟨hash, hresp⟩ := hashResponse_eq P k resp s
  simp [hresp, Server.setConn]

end Smbfs
