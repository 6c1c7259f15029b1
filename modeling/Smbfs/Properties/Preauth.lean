import Smbfs.System.Connection
import Smbfs.System.Samples

/-!
The preauthentication hash that the signing keys of SMB 3.1.1 are derived from.

* `Transcript`: what the client of a connection sees of its NEGOTIATE and of
  each SESSION_SETUP exchange;
* `preauth_of_single_setup`: the hash is that of the NEGOTIATE and the exchange
  if the connection has one NEGOTIATE and one exchange;
* `preauth_after_failed_setup`: after a failed SESSION_SETUP it is not.
-/

namespace Smbfs

open Smbfs.Lib

variable {B : Backend} {P : Platform} {k : ConnId} {msg : SMB2Message} {o : Oracle} {s : Server B}

/-- The hash over a list of messages. -/
def preauthChain (P : Platform) (msgs : List Bytes) : Bytes :=
  msgs.foldl (updatePreauthHash P) []

theorem preauthChain_concat (msgs : List Bytes) (m : Bytes) :
    preauthChain P (msgs ++ [m]) = updatePreauthHash P (preauthChain P msgs) m := by
  simp [preauthChain]

/-! ## Transcripts -/

/-- The NEGOTIATE and SESSION_SETUP messages of a connection, as its client sorts them. -/
structure Transcript where
  /-- A NEGOTIATE came. -/
  negotiated : Bool
  /-- The last successful NEGOTIATE: request and response. -/
  negotiate : List Bytes
  /-- The session of the last SESSION_SETUP since then. -/
  session : Option SessionRef
  /-- The messages of the exchange that is open for a session; none if there is no such exchange. -/
  exchange : SessionRef → List Bytes

namespace Transcript

def new : Transcript := ⟨false, [], none, fun _ => []⟩

/-- A request for the session `r` and its outcome. Malformed SESSION_SETUP
requests belong to no exchange; an exchange ends when the status is not
STATUS_MORE_PROCESSING_REQUIRED. -/
def record (t : Transcript) (msg : SMB2Message) (r : SessionRef) : Outcome → Transcript
  | .response resp =>
    if msg.cmd = .negotiate then
      if resp.header.status = NTStatus.success.code then
        ⟨true, [msg.rawBytes, resp.marshal], none, fun _ => []⟩
      else { t with negotiated := true }
    else if msg.cmd = .sessionSetup ∧ setupWellFormed msg.payload then
      { t with
        session := some r
        exchange := Function.update t.exchange r
          (if resp.header.status = NTStatus.moreProcessingRequired.code then
            t.exchange r ++ [msg.rawBytes, resp.marshal] else []) }
    else t
  | _ => t

/-- The transcript of connection `k`. -/
def observe (P : Platform) (k : ConnId) (s : Server B) (t : Transcript) : Event → Transcript
  | .connect k' _ => if k' = k then .new else t
  | .message k' msg o =>
    if k' = k then t.record msg (setupRef s msg) (processMessage P k msg o s).1 else t
  | _ => t

end Transcript

/-- The system with the transcript of one connection. -/
structure Observed (B : Backend) where
  system : System B
  transcript : Transcript

namespace Observed

def step (P : Platform) (k : ConnId) (x : Observed B) (e : Event) : Observed B where
  system := x.system.step P e
  transcript :=
    if x.system.crashed then x.transcript else x.transcript.observe P k x.system.server e

def initial (options : ServerOptions) (rand : Bytes) (disks : FsRef → B.Disk) : Observed B :=
  ⟨.initial options rand disks, .new⟩

/-- Watching a connection changes nothing. -/
theorem run_system (x : Observed B) (es : List Event) :
    (runFrom (step P k) x es).system = System.run P x.system es := by
  induction es generalizing x with
  | nil => rfl
  | cons e es ih => exact ih (step P k x e)

end Observed

/-! ## The property and its condition -/

/-- A SESSION_SETUP that succeeds on the 3.1.1 connection `k` derives the key of
its session from the NEGOTIATE, the exchange so far and the request itself. -/
def PreauthExact (P : Platform) (k : ConnId) (x : Observed B) : Event → Prop
  | .message k' msg o =>
    let s := x.system.server
    let hash := preauthChain P
      (x.transcript.negotiate ++ x.transcript.exchange (setupRef s msg) ++ [msg.rawBytes])
    x.system.crashed = false → k' = k → msg.cmd = .sessionSetup →
    smb3_1_1 ≤ (s.conns k).dialect →
    ∀ result, setupResult P s msg o = some result → result.success = true →
      ((hashRequest P k msg s).conns k).preauthHash = hash ∧
      ((processMessage P k msg o s).2.sessions.heap (setupRef s msg)).signingKey =
        result.sessionKey.map fun key => deriveSigningKey P key (s.conns k).dialect hash
  | _ => True

/-- The connection `k` has one NEGOTIATE, and with SMB 3.1.1 only SESSION_SETUP
requests that are well formed and belong to one exchange. -/
def SingleSetup (k : ConnId) (x : Observed B) : Event → Prop
  | .message k' msg _ => x.system.crashed = false → k' = k →
      (msg.cmd = .negotiate → x.transcript.negotiated = false) ∧
      (msg.cmd = .sessionSetup → smb3_1_1 ≤ (x.system.server.conns k).dialect →
        setupWellFormed msg.payload = true ∧ ∀ r ∈ x.transcript.session,
          r = setupRef x.system.server msg ∧ x.transcript.exchange r ≠ [])
  | _ => True

instance (x : Observed B) : (e : Event) → Decidable (SingleSetup k x e)
  | .message .. => by delta SingleSetup; infer_instance
  | .connect .. | .addShare .. | .removeShare _ | .cleanup _ => inferInstanceAs (Decidable True)

/-! ## The hash of a connection -/

/-- The messages of the exchange that is open. -/
def Transcript.current (t : Transcript) : List Bytes :=
  match t.session with
  | none => []
  | some r => t.exchange r

/-- The connection agrees with its transcript. -/
structure Tracks (P : Platform) (conn : ConnState) (t : Transcript) : Prop where
  fresh : t.negotiated = false → conn.dialect < smb3_1_1 ∧ conn.preauthHash = []
  exchange : t.session = none → ∀ r, t.exchange r = []
  hash : smb3_1_1 ≤ conn.dialect → (t.session ≠ none → t.current ≠ []) →
    conn.session = none ∧ conn.preauthHash = preauthChain P (t.negotiate ++ t.current)

theorem Tracks.new (addr : Str) : Tracks P (.new addr) .new := by
  have hd : (ConnState.new addr).dialect < smb3_1_1 := (by decide : (0 : UInt16) < smb3_1_1)
  exact ⟨fun _ => ⟨hd, rfl⟩, fun _ _ => rfl, fun h => absurd h (UInt16.not_le.mpr hd)⟩

variable {conn : ConnState}

/-- Losing its session changes nothing for a connection. -/
theorem Tracks.dropSession {t : Transcript} (h : Tracks P conn t) :
    Tracks P { conn with session := none } t :=
  ⟨h.fresh, h.exchange, fun hd ho => ⟨rfl, (h.hash hd ho).2⟩⟩

/-! ## Steps of the connection -/

variable {t : Transcript} {r : SessionRef}

theorem Tracks.of_old_dialect (hd : conn.dialect < smb3_1_1)
    (hfresh : t.negotiated = false → conn.preauthHash = [])
    (hex : t.session = none → ∀ r, t.exchange r = []) : Tracks P conn t :=
  ⟨fun h => ⟨hd, hfresh h⟩, hex, fun h => absurd h (UInt16.not_le.mpr hd)⟩

theorem record_negotiate (hcmd : msg.cmd = .negotiate) (resp : SMB2Response) :
    t.record msg r (.response resp) =
      if resp.header.status = NTStatus.success.code then
        ⟨true, [msg.rawBytes, resp.marshal], none, fun _ => []⟩
      else { t with negotiated := true } := if_pos hcmd

theorem record_sessionSetup (hcmd : msg.cmd = .sessionSetup)
    (hw : setupWellFormed msg.payload = true) (resp : SMB2Response) :
    t.record msg r (.response resp) =
      { t with
        session := some r
        exchange := Function.update t.exchange r
          (if resp.header.status = NTStatus.moreProcessingRequired.code then
            t.exchange r ++ [msg.rawBytes, resp.marshal] else []) } := by
  simp [Transcript.record, hcmd, hw]

/-- The response is hashed. -/
theorem conn_hashResponse {resp : SMB2Response} (hd : smb3_1_1 ≤ (s.conns k).dialect)
    (hcmd : resp.header.command = msg.header.command)
    (h : msg.cmd = .negotiate ∨
      (msg.cmd = .sessionSetup ∧ resp.header.status ≠ NTStatus.success.code)) :
    (hashResponse P k resp s).conns k = { s.conns k with
      preauthHash := updatePreauthHash P (s.conns k).preauthHash resp.marshal } := by
  have heq : hashResponse P k resp s = s.setConn k { s.conns k with
      preauthHash := updatePreauthHash P (s.conns k).preauthHash resp.marshal } := by
    refine if_pos ⟨hd, ?_⟩
    rw [hcmd]
    exact h
  rw [heq]
  exact Function.update_self ..

/-- A NEGOTIATE that fails, or has no payload, leaves the dialect as it was. -/
theorem Tracks.negotiate_keep {s1 : Server B} {reply : Reply} (h : Tracks P (s.conns k) t)
    (hcmd : msg.cmd = .negotiate) (hd : (s1.conns k).dialect < smb3_1_1)
    (hreq : hashRequest P k msg s = s1)
    (hout : handleMessage P k msg o s1 = (.response (buildResponse s1 k msg reply), s1)) :
    Tracks P ((processMessage P k msg o s).2.conns k)
      (t.record msg r (processMessage P k msg o s).1) := by
  rw [processMessage_of_handle hreq hout, record_negotiate hcmd]
  refine .of_old_dialect ?_ ?_ ?_
  · rw [dialect_hashResponse]
    exact hd
  · split <;> simp
  · split
    · exact fun _ _ => rfl
    · exact h.exchange

/-- The first NEGOTIATE of a connection starts the hash. -/
theorem Tracks.negotiate (h : Tracks P (s.conns k) t) (hcmd : msg.cmd = .negotiate)
    (hfirst : t.negotiated = false) :
    Tracks P ((processMessage P k msg o s).2.conns k)
      (t.record msg r (processMessage P k msg o s).1) := by
  obtain ⟨hd, hempty⟩ := h.fresh hfirst
  obtain ⟨s1, hreq, hconn⟩ : ∃ s1, hashRequest P k msg s = s1 ∧
      s1.conns k = { s.conns k with preauthHash := preauthChain P [msg.rawBytes] } := by
    refine ⟨_, if_pos (.inl hcmd), ?_⟩
    rw [hempty]
    exact Function.update_self ..
  have hd1 : (s1.conns k).dialect < smb3_1_1 := by rw [hconn]; exact hd
  have hmsg := handleMessage_negotiate (P := P) (k := k) (o := o) (s := s1) hcmd
  by_cases hp : msg.payload = []
  · rw [handleNegotiate_empty hp] at hmsg
    exact h.negotiate_keep hcmd hd1 hreq hmsg
  · rcases handleNegotiate_cases (k := k) (o := o) (s := s1) hp with
      ⟨st, -, hneg⟩ | ⟨d, signing, -, -, -, hneg⟩
    · rw [hneg] at hmsg
      exact h.negotiate_keep hcmd hd1 hreq hmsg
    · rw [hneg, hconn] at hmsg
      rw [processMessage_of_handle hreq hmsg, record_negotiate hcmd, if_pos]
      · refine ⟨fun hn => absurd hn (by simp), fun _ _ => rfl, fun hd' _ => ?_⟩
        rw [dialect_hashResponse] at hd'
        rw [conn_hashResponse hd' (buildResponse_command _ _ _ _) (.inl hcmd)]
        simp [Server.setConn, Transcript.current, preauthChain]
      · exact buildResponse_status _ _ _ _

/-- SESSION_SETUP below SMB 3.1.1 is not hashed. -/
theorem Tracks.oldSetup (h : Tracks P (s.conns k) t) (hcmd : msg.cmd = .sessionSetup)
    (hd : (s.conns k).dialect < smb3_1_1) :
    Tracks P ((processMessage P k msg o s).2.conns k)
      (t.record msg r (processMessage P k msg o s).1) := by
  have hneg : msg.cmd ≠ .negotiate := by simp [hcmd]
  obtain ⟨x, hconn⟩ : ∃ x, (handleMessage P k msg o s).2.conns k =
      { s.conns k with session := x } := by
    rw [handleMessage_sessionSetup hcmd, respond_state]
    exact handleSessionSetup_conn
  rw [processMessage_of_quiet hneg (fun _ => hd) (fun _ => by rw [hconn]; exact hd), hconn]
  have hrecord : (t.record msg r (handleMessage P k msg o s).1).negotiated = t.negotiated ∧
      ((t.record msg r (handleMessage P k msg o s).1).session = none →
        ∀ r', (t.record msg r (handleMessage P k msg o s).1).exchange r' = []) := by
    unfold Transcript.record
    split
    · rw [if_neg hneg]
      split
      · exact ⟨rfl, fun hn => absurd hn (by simp)⟩
      · exact ⟨rfl, h.exchange⟩
    · exact ⟨rfl, h.exchange⟩
  exact .of_old_dialect hd (fun hn => (h.fresh (hrecord.1.symm.trans hn)).2) hrecord.2

/-- What the condition says of a SESSION_SETUP for the session `r`. -/
theorem Tracks.current_eq (h : Tracks P conn t)
    (hone : ∀ r', t.session = some r' → r' = r ∧ t.exchange r' ≠ []) :
    t.current = t.exchange r ∧ (t.session ≠ none → t.current ≠ []) := by
  unfold Transcript.current
  cases hs : t.session with
  | none => exact ⟨(h.exchange hs r).symm, fun hn => absurd rfl hn⟩
  | some r' =>
    obtain ⟨rfl, hne⟩ := hone r' hs
    exact ⟨rfl, fun _ => hne⟩

/-- The request is hashed before it is handled. -/
theorem Tracks.hashRequest (h : Tracks P (s.conns k) t) (hcmd : msg.cmd = .sessionSetup)
    (hd : smb3_1_1 ≤ (s.conns k).dialect)
    (hone : ∀ r', t.session = some r' → r' = r ∧ t.exchange r' ≠ []) :
    Smbfs.hashRequest P k msg s = s.setConn k { s.conns k with
      preauthHash := preauthChain P (t.negotiate ++ t.exchange r ++ [msg.rawBytes]) } := by
  obtain ⟨hcur, hopen⟩ := h.current_eq hone
  obtain ⟨hsession, hhash⟩ := h.hash hd hopen
  rw [preauthChain_concat, ← hcur, ← hhash]
  refine if_pos (.inr ⟨hd, hcmd, ?_⟩)
  rw [hsession]

/-- A SESSION_SETUP of the exchange adds itself and the answer. -/
theorem Tracks.setup (h : Tracks P (s.conns k) t) (hcmd : msg.cmd = .sessionSetup)
    (hd : smb3_1_1 ≤ (s.conns k).dialect) (hw : setupWellFormed msg.payload = true)
    (hone : ∀ r', t.session = some r' → r' = r ∧ t.exchange r' ≠ [])
    (hrun : (processMessage P k msg o s).1 ≠ .crash) :
    Tracks P ((processMessage P k msg o s).2.conns k)
      (t.record msg r (processMessage P k msg o s).1) := by
  have hneg : t.negotiated = true := by
    by_contra hn
    exact absurd hd (UInt16.not_le.mpr (h.fresh (by simpa using hn)).1)
  obtain ⟨hcur, hopen⟩ := h.current_eq hone
  have hsession := (h.hash hd hopen).1
  obtain ⟨s1, hs1, hconn⟩ : ∃ s1, Smbfs.hashRequest P k msg s = s1 ∧ s1.conns k = { s.conns k with
      preauthHash := preauthChain P (t.negotiate ++ t.exchange r ++ [msg.rawBytes]) } :=
    ⟨_, h.hashRequest hcmd hd hone, Function.update_self ..⟩
  have hmsg := handleMessage_sessionSetup (P := P) (k := k) (o := o) (s := s1) hcmd
  -- an exchange that has ended asks nothing of the hash
  have hended : ∀ conn, Tracks P conn
      { t with session := some r, exchange := Function.update t.exchange r [] } := by
    refine fun conn => ⟨fun hn => absurd (hneg.symm.trans hn) (by simp), fun hn => absurd hn (by simp),
      fun _ hne => absurd (hne (by simp)) ?_⟩
    simp [Transcript.current]
  have hexit := handleSessionSetup_exit P k msg o s1
  generalize handleSessionSetup P k msg o s1 = out at hexit hmsg
  cases hexit with
  | malformed hbad => exact absurd (hw.symm.trans hbad) (by simp)
  | crash =>
    rw [processMessage, hs1, hmsg] at hrun
    exact absurd rfl hrun
  | refused =>
    rw [processMessage_of_handle hs1 hmsg, record_sessionSetup hcmd hw, if_neg]
    · exact hended _
    · rw [buildResponse_status]
      decide
  | @established s' result reply _ _ _ hstatus =>
    rw [processMessage_of_handle hs1 hmsg, record_sessionSetup hcmd hw, if_neg]
    · exact hended _
    · rw [buildResponse_status, hstatus]
      decide
  | @continued s' result reply _ _ _ hstatus hconns =>
    have hs' : s'.conns k = { s.conns k with
        preauthHash := preauthChain P (t.negotiate ++ t.exchange r ++ [msg.rawBytes]) } :=
      (congrFun hconns k).trans hconn
    have hd' : smb3_1_1 ≤ (s'.conns k).dialect := by rw [hs']; exact hd
    rw [processMessage_of_handle hs1 hmsg, record_sessionSetup hcmd hw, if_pos]
    · rw [conn_hashResponse hd' (buildResponse_command _ _ _ _) (.inr ⟨hcmd, ?_⟩), hs']
      · refine ⟨fun hn => absurd (hneg.symm.trans hn) (by simp), fun hn => absurd hn (by simp),
          fun _ _ => ⟨hsession, ?_⟩⟩
        simp [Transcript.current, preauthChain]
      · rw [buildResponse_status, hstatus]
        decide
    · rw [buildResponse_status, hstatus]

/-- Other messages leave the transcript and the hash alone. -/
theorem Tracks.other (h : Tracks P (s.conns k) t) (hneg : msg.cmd ≠ .negotiate)
    (hsetup : msg.cmd ≠ .sessionSetup) :
    Tracks P ((processMessage P k msg o s).2.conns k)
      (t.record msg r (processMessage P k msg o s).1) := by
  have hrecord : ∀ out, t.record msg r out = t := by
    intro out
    cases out with
    | response => simp [Transcript.record, hneg, hsetup]
    | _ => rfl
  rw [hrecord, processMessage_of_quiet hneg (absurd · hsetup) (absurd · hsetup)]
  by_cases hlogoff : msg.cmd = .logoff
  · rw [handleMessage_logoff hlogoff, respond_state]
    rcases handleLogoff_conns k msg s with hc | hc
    · rw [hc]
      exact h
    · rw [hc, Function.update_self]
      exact h.dropSession
  · have hwrites : msg.cmd.writesConn = false := by
      cases hcmd : msg.cmd <;> simp_all [Command.writesConn]
    rw [handleMessage_conns s (.inr hwrites)]
    exact h

/-! ## Runs -/

/-- While the server runs, the connection agrees with its transcript. -/
def Observed.Tracked (P : Platform) (k : ConnId) (x : Observed B) : Prop :=
  x.system.crashed = false → Tracks P (x.system.server.conns k) x.transcript

variable {x : Observed B}

theorem Observed.tracked_message (h : x.Tracked P k)
    (hc : SingleSetup k x (.message k msg o)) : (x.step P k (.message k msg o)).Tracked P k := by
  cases hcr : x.system.crashed with
  | true =>
    intro hrun
    rw [Observed.step, step_crashed hcr, hcr] at hrun
    cases hrun
  | false =>
    obtain ⟨hfirst, hone⟩ := hc hcr rfl
    have ht := h hcr
    simp only [Observed.Tracked, Observed.step, hcr, Bool.false_eq_true, if_false, step_react hcr,
      Transcript.observe, if_true, react_message]
    intro hrun
    by_cases hneg : msg.cmd = .negotiate
    · exact ht.negotiate hneg (hfirst hneg)
    · by_cases hsetup : msg.cmd = .sessionSetup
      · by_cases hd : smb3_1_1 ≤ (x.system.server.conns k).dialect
        · obtain ⟨hw, hone⟩ := hone hsetup hd
          exact ht.setup hsetup hd hw hone (by simpa using hrun)
        · exact ht.oldSetup hsetup (UInt16.not_le.mp hd)
      · exact ht.other hneg hsetup

theorem Observed.tracked_step {e : Event} (h : x.Tracked P k)
    (hc : SingleSetup k x e) : (x.step P k e).Tracked P k := by
  cases hcr : x.system.crashed with
  | true =>
    intro hrun
    rw [Observed.step, step_crashed hcr, hcr] at hrun
    cases hrun
  | false =>
    -- an event that keeps the connection and its transcript
    have hkeep : (System.react P x.system.server e).server.conns k = x.system.server.conns k →
        x.transcript.observe P k x.system.server e = x.transcript →
        (x.step P k e).Tracked P k := by
      intro hconn htrans _
      simp only [Observed.step, step_react hcr, hconn, htrans, hcr, Bool.false_eq_true, if_false]
      exact h hcr
    have hframe : Frame (B := B) Server.conns := ⟨fun _ _ _ => rfl, fun _ _ => rfl,
      fun _ _ _ => rfl, fun _ _ _ _ => rfl⟩
    cases e with
    | message k' msg o =>
      by_cases hk : k' = k
      · subst hk
        exact tracked_message h hc
      · refine hkeep ?_ (if_neg hk)
        rw [react_message]
        exact processMessage_conns_of_ne hk
    | connect k' addr =>
      by_cases hk : k' = k
      · subst hk
        intro _
        simp only [Observed.step, hcr, step_react hcr, System.react, Transcript.observe, if_true,
          Bool.false_eq_true, if_false, Server.setConn, Function.update_self]
        exact .new addr
      · exact hkeep (Function.update_of_ne (Ne.symm hk) ..) (if_neg hk)
    | addShare fs options =>
      refine hkeep ?_ rfl
      simp only [System.react, Server.addShare]
      split <;> rfl
    | removeShare name => exact hkeep rfl rfl
    | cleanup now => exact hkeep (congrFun (Frame.cleanupTick hframe.calm now x.system.server) k) rfl

/-- A SESSION_SETUP of the one exchange uses the hash of the exchange. -/
theorem preauthExact_of_tracked {e : Event} (h : x.Tracked P k)
    (hc : SingleSetup k x e) : PreauthExact P k x e := by
  cases e with
  | message k' msg o =>
    intro hcr hk hcmd hd result hresult hsuccess
    subst hk
    obtain ⟨-, hone⟩ := (hc hcr rfl).2 hcmd hd
    have hreq := (h hcr).hashRequest hcmd hd hone
    refine ⟨by rw [hreq]; simp [Server.setConn], ?_⟩
    obtain ⟨reply, s', hout, -, -, hkey⟩ := handleSessionSetup_of_success (P := P) (k := k')
      (s := hashRequest P k' msg x.system.server) (o := o)
      (by rw [hreq, setupResult_setConn]; exact hresult) hsuccess
    have hmsg := handleMessage_sessionSetup (P := P) (k := k') (o := o)
      (s := hashRequest P k' msg x.system.server) hcmd
    rw [hout] at hmsg
    obtain ⟨hash, hresp⟩ := hashResponse_eq P k' (buildResponse s' k' msg reply) s'
    rw [processMessage_of_handle rfl hmsg, hresp]
    rw [hreq, setupRef_setConn] at hkey
    simpa [Server.setConn, establishedKey] using hkey
  | _ => trivial

/-- **Preauthentication hash.** On a connection with one NEGOTIATE, whose
SESSION_SETUP requests under SMB 3.1.1 are well formed and belong to one
exchange, the key of the session is derived from the hash over the NEGOTIATE
and the exchange. -/
theorem preauth_of_single_setup (k : ConnId) (options : ServerOptions) (rand : Bytes)
    (disks : FsRef → B.Disk) (es : List Event)
    (h : Along (Observed.step P k) (SingleSetup k) (.initial options rand disks) es) :
    Along (Observed.step P k) (PreauthExact P k) (.initial options rand disks) es :=
  along_imp (fun _ _ => Observed.tracked_step) (fun _ _ => preauthExact_of_tracked)
    (fun _ => Tracks.new []) h

/-- Connection 0 negotiates SMB 3.1.1 and sends the blobs. -/
def preauthSetup (blobs : List (UInt64 × Bytes)) : List Event :=
  [.connect 0 [], sent (negotiateRequest [smb3_1_1]).framed] ++
    blobs.map fun (sessionID, blob) => sent (sessionSetupRequest sessionID blob).framed

/-- A login in two rounds. -/
theorem preauth_two_rounds :
    Along (Observed.step samplePlatform 0) (PreauthExact samplePlatform 0) ⟨userSystem, .new⟩
      (preauthSetup [(0, negotiateMessage), (7, authenticateMessage ['u'])]) :=
  preauth_of_single_setup 0 _ _ _ _ (by decide +kernel)

/-- A login after a failed one: the failed request and its answer are in the hash. -/
theorem preauth_after_failed_setup :
    ¬ Along (Observed.step samplePlatform 0) (PreauthExact samplePlatform 0) ⟨userSystem, .new⟩
      (preauthSetup [(0, authenticateMessage ['x']), (0, authenticateMessage ['u'])]) := by
  intro h
  let x := runFrom (Observed.step samplePlatform 0) ⟨userSystem, .new⟩
    (preauthSetup [(0, authenticateMessage ['x'])])
  have hresult : (setupResult samplePlatform x.system.server
      (sessionSetupRequest 0 (authenticateMessage ['u'])).framed sampleOracle).map (·.success) =
      some true := by decide +kernel
  obtain ⟨result, hresult, hsuccess⟩ := Option.map_eq_some_iff.mp hresult
  have hexact := h.2.2.2.1 (by decide +kernel) rfl rfl (by decide +kernel) result hresult hsuccess
  exact absurd hexact.1 (by decide +kernel)

end Smbfs
