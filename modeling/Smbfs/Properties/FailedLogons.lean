import Smbfs.System.Exits
import Smbfs.System.Samples

/-!
The sessions that failed SESSION_SETUP exchanges leave in the table,
`smb2_session.go`.

An exchange starts with a request that names no session and goes on with
requests that name the session of the exchange, until it is refused. The handler
destroys a session only in the round that created it.

* `sessions_of_answered`: the sessions after one round;
* `Exchange.mem_table`: a session that a later round was refused for stays;
* `failed_logon_iff`: no session of the exchange is left exactly if the first
  round was refused.
-/

namespace Smbfs

open Smbfs.Lib

variable {B : Backend} {P : Platform} {k : ConnId} {msg : SMB2Message} {o : Oracle} {s : Server B}

/-! ## One request -/

theorem Outcome.exists_of_status {out : Outcome} {code : UInt32} (h : out.status = some code) :
    ∃ resp, out = .response resp ∧ resp.header.status = code := by
  cases out with
  | response r => exact ⟨r, rfl, Option.some.inj h⟩
  | crash | silent => cases h

/-- The request is answered with the status. -/
def AnsweredWith (P : Platform) (k : ConnId) (msg : SMB2Message) (o : Oracle) (s : Server B)
    (st : NTStatus) : Prop :=
  (processMessage P k msg o s).1.status = some st.code

instance (st : NTStatus) : Decidable (AnsweredWith P k msg o s st) :=
  inferInstanceAs (Decidable ((processMessage P k msg o s).1.status = some st.code))

/-- The sessions after a challenge was sent, or a refusal. -/
theorem sessions_of_answered {st : NTStatus} (hcmd : msg.cmd = .sessionSetup)
    (h : AnsweredWith P k msg o s st) (hst : st = .moreProcessingRequired ∨ st = .logonFailure) :
    ∃ a c, (processMessage P k msg o s).2.sessions =
      (if st = .logonFailure then refusedServer k msg o (s.setConn k c) a
      else asked k msg o (s.setConn k c) a).sessions := by
  obtain ⟨resp, hresp, hstatus⟩ := Outcome.exists_of_status h
  obtain ⟨c, out, hend, hout, hsessions⟩ := processMessage_setup P k o s hcmd
  rw [hout] at hresp
  cases hend with
  | crash => cases hresp
  | malformed | established =>
    cases hresp
    rcases hst with rfl | rfl <;> simp [buildResponse_status, NTStatus.code] at hstatus
  | @challenged _ a | @refused _ a =>
    cases hresp
    refine ⟨a, c, hsessions.trans ?_⟩
    rcases hst with rfl | rfl
    all_goals first | rfl | simp [buildResponse_status, NTStatus.code] at hstatus

section Sessions

variable (a : NTLMAuthenticator)

/-- A request that names no session makes one. -/
theorem nextRef_asked (h : selectSession s.sessions msg = none) :
    (asked k msg o s a).sessions.nextRef = s.sessions.nextRef + 1 := by
  simp only [asked, withSession, h]
  rfl

/-- A later round leaves the table as it is. -/
theorem table_refused_of_some {r : SessionRef} (h : selectSession s.sessions msg = some r) :
    (refusedServer k msg o s a).sessions.sessions = s.sessions.sessions := by
  simp only [refusedServer, h, Option.isNone_some, Bool.false_eq_true, if_false, asked, withSession]
  rfl

theorem nextRef_refused (h : selectSession s.sessions msg = none) :
    (refusedServer k msg o s a).sessions.nextRef = s.sessions.nextRef + 1 := by
  rw [refusedServer, h, Option.isNone_none, if_pos rfl]
  exact (SessionManager.destroySession_nextRef _ _).trans (nextRef_asked a h)

/-- The first round takes the session that it made out of the table again. -/
theorem notMem_table_refused (hwf : s.sessions.WF) (h : selectSession s.sessions msg = none) :
    s.sessions.nextRef ∉ (refusedServer k msg o s a).sessions.sessions.values := by
  rw [refusedServer, h, Option.isNone_none, if_pos rfl, (asked_new a h).2.1, GoMap.mem_values]
  rintro ⟨id, hlookup⟩
  rw [SessionManager.destroySession_lookup, lookup_asked a h] at hlookup
  split at hlookup
  · cases hlookup
  · exact Nat.lt_irrefl _ (hwf.lt_next id _ hlookup)

end Sessions

/-- The first round of an exchange that goes on. -/
theorem nextRef_of_challenged (hcmd : msg.cmd = .sessionSetup)
    (h : AnsweredWith P k msg o s .moreProcessingRequired) (hnone : selectSession s.sessions msg = none) :
    (processMessage P k msg o s).2.sessions.nextRef = s.sessions.nextRef + 1 := by
  obtain ⟨a, c, hsessions⟩ := sessions_of_answered hcmd h (.inl rfl)
  rw [hsessions]
  exact nextRef_asked (s := s.setConn k c) a hnone

/-- A first round that is refused. -/
theorem table_of_refused_first (hcmd : msg.cmd = .sessionSetup)
    (h : AnsweredWith P k msg o s .logonFailure) (hwf : s.sessions.WF)
    (hnone : selectSession s.sessions msg = none) :
    (processMessage P k msg o s).2.sessions.nextRef = s.sessions.nextRef + 1 ∧
      s.sessions.nextRef ∉ (processMessage P k msg o s).2.sessions.sessions.values := by
  obtain ⟨a, c, hsessions⟩ := sessions_of_answered hcmd h (.inr rfl)
  rw [hsessions]
  exact ⟨nextRef_refused (s := s.setConn k c) a hnone,
    notMem_table_refused (s := s.setConn k c) a hwf hnone⟩

/-- A later round that is refused. -/
theorem table_of_refused_later {r : SessionRef} (hcmd : msg.cmd = .sessionSetup)
    (h : AnsweredWith P k msg o s .logonFailure) (hsome : selectSession s.sessions msg = some r) :
    (processMessage P k msg o s).2.sessions.sessions = s.sessions.sessions := by
  obtain ⟨a, c, hsessions⟩ := sessions_of_answered hcmd h (.inr rfl)
  rw [hsessions]
  exact table_refused_of_some (s := s.setConn k c) a hsome

/-! ## Exchanges -/

/-- A SESSION_SETUP request, after what others did since the round before. -/
structure Round where
  before : List Event
  k : ConnId
  msg : SMB2Message
  o : Oracle

namespace Round

def events (x : Round) : List Event := x.before ++ [.message x.k x.msg x.o]

/-- The system that the request reaches. -/
def reached (P : Platform) (sys : System B) (x : Round) : System B := System.run P sys x.before

/-- The request names the session (or none, with `none`) and is answered with the status. -/
structure Goes (P : Platform) (sys : System B) (x : Round) (session : Option SessionRef)
    (st : NTStatus) : Prop where
  running : (x.reached P sys).crashed = false
  command : x.msg.cmd = .sessionSetup
  names : selectSession (x.reached P sys).server.sessions x.msg = session
  answered : AnsweredWith P x.k x.msg x.o (x.reached P sys).server st

/-- The request created the session. -/
def Created (P : Platform) (sys : System B) (x : Round) (r : SessionRef) : Prop :=
  (x.reached P sys).server.sessions.nextRef ≤ r ∧
    r < (System.run P sys x.events).server.sessions.nextRef

end Round

/-- The system after the rounds. -/
def afterRounds (P : Platform) (sys : System B) (rounds : List Round) : System B :=
  System.run P sys (rounds.flatMap Round.events)

/-- The rest of an exchange that is refused in the end: the first request names
`session`, and each of the others names the session of the one before. -/
def Exchange (P : Platform) : Option SessionRef → System B → List Round → Prop
  | _, _, [] => False
  | session, sys, [last] => last.Goes P sys session .logonFailure
  | session, sys, x :: y :: rounds => x.Goes P sys session .moreProcessingRequired ∧
      Exchange P (some (setupRef (x.reached P sys).server x.msg)) (System.run P sys x.events)
        (y :: rounds)

/-- One of the requests created the session. -/
def CreatedIn (P : Platform) : System B → List Round → SessionRef → Prop
  | _, [], _ => False
  | sys, x :: rounds, r => x.Created P sys r ∨ CreatedIn P (System.run P sys x.events) rounds r

theorem run_events (sys : System B) (x : Round) :
    System.run P sys x.events = (x.reached P sys).step P (.message x.k x.msg x.o) :=
  runFrom_concat sys x.before _

theorem sessions_run_events {sys : System B} {x : Round} (h : (x.reached P sys).crashed = false) :
    (System.run P sys x.events).server.sessions =
      (processMessage P x.k x.msg x.o (x.reached P sys).server).2.sessions := by
  rw [run_events, step_react h, react_message]

theorem afterRounds_cons (sys : System B) (x : Round) (rounds : List Round) :
    afterRounds P sys (x :: rounds) = afterRounds P (System.run P sys x.events) rounds :=
  runFrom_append sys x.events _

theorem afterRounds_singleton (sys : System B) (x : Round) :
    afterRounds P sys [x] = System.run P sys x.events := afterRounds_cons sys x []

variable {sys : System B} {x y : Round} {rounds : List Round} {r : SessionRef}

/-- **Later rounds.** The session of an exchange that a later round is refused for
is in the table afterwards. -/
theorem Exchange.mem_table (h : Exchange P (some r) sys rounds) :
    r ∈ (afterRounds P sys rounds).server.sessions.sessions.values := by
  induction rounds generalizing sys with
  | nil => exact h.elim
  | cons x rounds ih =>
    cases rounds with
    | nil =>
      have hround : x.Goes P sys (some r) .logonFailure := h
      rw [afterRounds_singleton, sessions_run_events hround.running,
        table_of_refused_later hround.command hround.answered hround.names, GoMap.mem_values]
      exact selectSession_lookup hround.names
    | cons y rounds =>
      obtain ⟨hround, hrest⟩ := h
      have hsame : setupRef (x.reached P sys).server x.msg = r := by
        rw [setupRef, hround.names, Option.getD_some]
      rw [hsame] at hrest
      rw [afterRounds_cons]
      exact ih hrest

/-- An exchange of one round leaves nothing. -/
theorem Exchange.notMem_table (hwf : (x.reached P sys).server.sessions.WF)
    (h : Exchange P none sys [x]) (hr : CreatedIn P sys [x] r) :
    r ∉ (afterRounds P sys [x]).server.sessions.sessions.values := by
  have hround : x.Goes P sys none .logonFailure := h
  obtain ⟨hnext, hgone⟩ :=
    table_of_refused_first hround.command hround.answered hwf hround.names
  obtain ⟨hle, hlt⟩ := hr.resolve_right id
  rw [sessions_run_events hround.running, hnext] at hlt
  have hnew : r = (x.reached P sys).server.sessions.nextRef :=
    Nat.le_antisymm (Nat.lt_succ_iff.mp hlt) hle
  rw [afterRounds_singleton, sessions_run_events hround.running, hnew]
  exact hgone

/-- A longer exchange leaves the session of its first round. -/
theorem Exchange.left (h : Exchange P none sys (x :: y :: rounds)) :
    ∃ r, CreatedIn P sys (x :: y :: rounds) r ∧
      r ∈ (afterRounds P sys (x :: y :: rounds)).server.sessions.sessions.values := by
  obtain ⟨hround, hrest⟩ := h
  have hsession : setupRef (x.reached P sys).server x.msg =
      (x.reached P sys).server.sessions.nextRef := by
    rw [setupRef, hround.names, Option.getD_none]
  rw [hsession] at hrest
  refine ⟨_, .inl ⟨Nat.le_refl _, ?_⟩, ?_⟩
  · rw [sessions_run_events hround.running,
      nextRef_of_challenged hround.command hround.answered hround.names]
    exact Nat.lt_succ_self _
  · rw [afterRounds_cons]
    exact hrest.mem_table

/-- **Failed logons.** In every reachable state, an exchange that starts with a
request that names no session and is refused in the end leaves none of the
sessions it created in the table exactly if it has one round. -/
theorem failed_logon_iff (options : ServerOptions) (rand : Bytes) (disks : FsRef → B.Disk)
    (es : List Event) {rounds : List Round}
    (h : Exchange P none (System.run P (.initial options rand disks) es) rounds) :
    (∀ r, CreatedIn P (System.run P (.initial options rand disks) es) rounds r →
      r ∉ (afterRounds P (System.run P (.initial options rand disks) es)
        rounds).server.sessions.sessions.values) ↔ rounds.length = 1 := by
  cases rounds with
  | nil => exact h.elim
  | cons x rounds =>
    cases rounds with
    | nil =>
      have hreached : Tables (x.reached P (System.run P (.initial options rand disks) es)).server := by
        have htables : Tables (System.run P (.initial options rand disks) (es ++ x.before)).server :=
          .run options rand disks _
        rw [System.run, runFrom_append] at htables
        exact htables
      exact iff_of_true (fun r hr => h.notMem_table hreached.sessions hr) rfl
    | cons y rounds =>
      refine iff_of_false (fun hgone => ?_) (by simp)
      obtain ⟨r, hr, hleft⟩ := h.left
      exact hgone r hr hleft

/-- A request of connection 0. -/
def sampleRound (sessionID : UInt64) (blob : Bytes) : Round where
  before := []
  k := 0
  msg := sessionSetupRequest sessionID blob
  o := sampleOracle

/-- A Type 3 message for an unknown user, without a Type 1 message. -/
theorem failed_logon_one_round :
    let rounds := [sampleRound 0 (authenticateMessage ['x'])]
    CreatedIn samplePlatform userSystem rounds 0 ∧
      0 ∉ (afterRounds samplePlatform userSystem rounds).server.sessions.sessions.values := by
  intro rounds
  have hexchange : Exchange samplePlatform none userSystem rounds :=
    ⟨rfl, rfl, by decide +kernel, by decide +kernel⟩
  have hcreated : CreatedIn samplePlatform userSystem rounds 0 :=
    .inl ⟨by decide +kernel, by decide +kernel⟩
  exact ⟨hcreated, (failed_logon_iff _ _ _ [] hexchange).mpr rfl 0 hcreated⟩

/-- A Type 1 message and then a Type 3 message for an unknown user. -/
def failedLogon : List Round :=
  [sampleRound 0 negotiateMessage, sampleRound 7 (authenticateMessage ['x'])]

/-- The exchange is refused, and its session is still in the table. -/
theorem failed_logon_session_left :
    Exchange samplePlatform none userSystem failedLogon ∧
      CreatedIn samplePlatform userSystem failedLogon 0 ∧
      0 ∈ (afterRounds samplePlatform userSystem failedLogon).server.sessions.sessions.values := by
  refine ⟨⟨⟨rfl, rfl, ?_, ?_⟩, ⟨?_, rfl, ?_, ?_⟩⟩, .inl ⟨?_, ?_⟩, ?_⟩
  all_goals decide +kernel

end Smbfs
