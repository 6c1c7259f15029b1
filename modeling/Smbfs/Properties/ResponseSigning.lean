import Smbfs.System.Connection
import Smbfs.System.Samples

/-!
The signatures of responses. A request is authorised by the session its header
names, and the response is signed with the key of the session its connection
is on.

* `responses_signed`: responses are signed with the key of the session the
  request names, in runs where the connection has that key at hand;
* `logoff_unsigned`: the response to LOGOFF is not signed.
-/

namespace Smbfs

open Smbfs.Lib

variable {B : Backend} {P : Platform} {k : ConnId} {msg : SMB2Message} {o : Oracle} {s : Server B}

/-! ## The property and its condition -/

/-- The response is flagged as signed and carries the key `key`, from which
`writeMessage` makes the signature. -/
structure SMB2Response.SignedWith (resp : SMB2Response) (key : Bytes) : Prop where
  flag : hasBits resp.header.flags smb2FlagsSigned = true
  key_eq : resp.signingKey = some key
  ne_nil : key ≠ []

/-- The response to a request that names the valid session `r`, with a signing
key, is signed with the key of `r`. -/
def ResponseSigned (P : Platform) (sys : System B) : Event → Prop
  | .message k msg o =>
    sys.crashed = false → msg.cmd ≠ .negotiate →
    ∀ r, sys.server.sessions.validateSession msg.header.sessionID = some r →
    ∀ key, (sys.server.sessions.heap r).signingKey = some key → key ≠ [] →
    ∀ resp, (processMessage P k msg o sys.server).1 = .response resp →
    (msg.cmd = .sessionSetup → resp.header.status = NTStatus.success.code) →
    ∃ key', ((processMessage P k msg o sys.server).2.sessions.heap r).signingKey = some key' ∧
      (msg.cmd ≠ .sessionSetup → key' = key) ∧ resp.SignedWith key'
  | _ => True

/-- Signing is required on the connection, or the request is signed. -/
def wantsSignature (s : Server B) (k : ConnId) (msg : SMB2Message) : Bool :=
  (s.conns k).signingRequired || hasBits msg.header.flags smb2FlagsSigned

/-- The connection will sign with the key of the session `r`, which is `key`:
a SESSION_SETUP that authenticates continues `r` and has a session key; before
any other request the connection is on a session with that key, and LOGOFF is
one that fails. -/
def KeyAtHand (P : Platform) (s : Server B) (k : ConnId) (msg : SMB2Message) (o : Oracle)
    (r : SessionRef) (key : Bytes) : Prop :=
  if msg.cmd = .sessionSetup then
    ∀ result ∈ setupResult P s msg o, result.success = true →
      wantsSignature s k msg = true ∧ setupRef s msg = r ∧ ∃ sk ∈ result.sessionKey, sk ≠ []
  else
    wantsSignature s k msg = true ∧ (msg.cmd = .logoff → wellFormed msg.payload 4 4 = false) ∧
      ∃ r' ∈ (s.conns k).session, (s.sessions.heap r').signingKey = some key

/-- The requests that name a session with a signing key find the key at hand. -/
def SignsWithOwnKey (P : Platform) (sys : System B) : Event → Prop
  | .message k msg o =>
    sys.crashed = false → msg.cmd ≠ .negotiate → msg.cmd ≠ .cancel →
    ∀ r ∈ sys.server.sessions.validateSession msg.header.sessionID,
    ∀ key ∈ (sys.server.sessions.heap r).signingKey, key ≠ [] →
      KeyAtHand P sys.server k msg o r key
  | _ => True

instance (r : SessionRef) (key : Bytes) : Decidable (KeyAtHand P s k msg o r key) := by
  delta KeyAtHand
  infer_instance

instance (sys : System B) : (e : Event) → Decidable (SignsWithOwnKey P sys e)
  | .message .. => by delta SignsWithOwnKey; infer_instance
  | .connect .. | .addShare .. | .removeShare _ | .cleanup _ => inferInstanceAs (Decidable True)

/-! ## The signing decision -/

theorem buildResponse_signed {reply : Reply} {key : Bytes} (hne : key ≠ [])
    (h : responseKey s k msg reply.status = some key) :
    (buildResponse s k msg reply).SignedWith key := by
  rw [buildResponse, h]
  exact ⟨(by decide : hasBits (smb2FlagsServerToRedir ||| smb2FlagsSigned) smb2FlagsSigned = true),
    rfl, hne⟩

theorem responseKey_of_session {r : SessionRef} {status : NTStatus}
    (hwants : wantsSignature s k msg = true) (hneg : msg.cmd ≠ .negotiate)
    (hsetup : msg.cmd = .sessionSetup → status = .success)
    (hsession : (s.conns k).session = some r) :
    responseKey s k msg status = (s.sessions.heap r).signingKey := by
  have hwants : ((s.conns k).signingRequired || hasBits msg.header.flags smb2FlagsSigned) = true :=
    hwants
  simp only [responseKey, hsession, hwants, Bool.true_and]
  rw [if_pos]
  simp only [Bool.and_eq_true, Bool.not_eq_eq_eq_not, Bool.not_true, Bool.and_eq_false_iff,
    decide_eq_false_iff_not, decide_eq_true_eq, ne_eq, not_not]
  refine ⟨?_, hneg⟩
  by_cases hs : msg.cmd = .sessionSetup
  · exact .inr (hsetup hs)
  · exact .inl hs

/-- Only SESSION_SETUP writes signing keys. -/
theorem signingKey_handleMessage (hwf : Tables s) (hcmd : msg.cmd ≠ .sessionSetup)
    (r : SessionRef) : ((handleMessage P k msg o s).2.sessions.heap r).signingKey =
      (s.sessions.heap r).signingKey := by
  refine chain_invariant (I := fun t : Server B => (t.sessions.heap r).signingKey =
    (s.sessions.heap r).signingKey) (handleMessage_chain hwf.handles) ?_ rfl
  intro t t' hc ht
  cases hc with
  | createSession h | setAuthenticator _ h | setValid _ _ h | destroyNew h => exact absurd h hcmd
  | logoff =>
    rw [SessionManager.destroySession_heap]
    exact ht
  | addTree | removeTree =>
    rw [Server.heap_modifySession]
    split
    · next hr => rw [← ht, hr]; rfl
    · exact ht
  | _ => exact ht

/-! ## One request -/

theorem conns_handleMessage (hneg : msg.cmd ≠ .negotiate) (hsetup : msg.cmd ≠ .sessionSetup)
    (hlogoff : msg.cmd = .logoff → wellFormed msg.payload 4 4 = false) :
    (handleMessage P k msg o s).2.conns k = s.conns k := by
  by_cases h : msg.cmd = .logoff
  · rw [handleMessage_logoff h, respond_state, handleLogoff_malformed (hlogoff h)]
  · refine handleMessage_conns s (.inr ?_)
    cases hcmd : msg.cmd <;> simp_all [Command.writesConn]

/-- A SESSION_SETUP that succeeds is signed with the new key of its session. -/
theorem setup_signed (hP : ∀ key m, P.hmacSHA256 key m ≠ []) (hcmd : msg.cmd = .sessionSetup)
    (hwants : ∀ result ∈ setupResult P s msg o, result.success = true →
      wantsSignature s k msg = true ∧ ∃ sk ∈ result.sessionKey, sk ≠ [])
    {resp : SMB2Response} (hresp : (handleMessage P k msg o s).1 = .response resp)
    (hstatus : resp.header.status = NTStatus.success.code) :
    ∃ result ∈ setupResult P s msg o, result.success = true ∧
    ∃ key, ((handleMessage P k msg o s).2.sessions.heap (setupRef s msg)).signingKey = some key ∧
      resp.SignedWith key := by
  rw [handleMessage_sessionSetup hcmd] at hresp ⊢
  have hexit := handleSessionSetup_exit P k msg o s
  generalize handleSessionSetup P k msg o s = out at hexit hresp ⊢
  cases hexit with
  | crash => cases hresp
  | malformed | refused =>
    cases hresp
    rw [buildResponse_status] at hstatus
    exact absurd hstatus (by decide)
  | continued _ _ _ hmore =>
    cases hresp
    rw [buildResponse_status, hmore] at hstatus
    exact absurd hstatus (by decide)
  | @established s' result reply _ hresult hsuccess hok hconns hkey =>
    cases hresp
    obtain ⟨hw, sk, hsk, hne⟩ := hwants result hresult hsuccess
    have hsk : result.sessionKey = some sk := hsk
    have hconn : s'.conns k = { s.conns k with session := some (setupRef s msg) } := by simp [hconns]
    have hw' : wantsSignature s' k msg = true := by
      rw [wantsSignature, hconn]
      exact hw
    rw [establishedKey, hsk, Option.map_some] at hkey
    refine ⟨result, hresult, hsuccess, _, hkey, ?_⟩
    refine buildResponse_signed (deriveSigningKey_ne_nil hP hne _ _) ?_
    rw [responseKey_of_session hw' (by simp [hcmd]) (fun _ => hok) (by rw [hconn]), hkey]

theorem handleMessage_signed (hP : ∀ key m, P.hmacSHA256 key m ≠ []) (hwf : Tables s)
    (hneg : msg.cmd ≠ .negotiate) {r : SessionRef} {key : Bytes}
    (hkey : (s.sessions.heap r).signingKey = some key) (hne : key ≠ [])
    (hcond : KeyAtHand P s k msg o r key)
    {resp : SMB2Response} (hresp : (handleMessage P k msg o s).1 = .response resp)
    (hstatus : msg.cmd = .sessionSetup → resp.header.status = NTStatus.success.code) :
    ∃ key', ((handleMessage P k msg o s).2.sessions.heap r).signingKey = some key' ∧
      (msg.cmd ≠ .sessionSetup → key' = key) ∧ resp.SignedWith key' := by
  unfold KeyAtHand at hcond
  split at hcond
  · next hcmd =>
    have hwants : ∀ result ∈ setupResult P s msg o, result.success = true →
        wantsSignature s k msg = true ∧ ∃ sk ∈ result.sessionKey, sk ≠ [] :=
      fun result hres hs => ⟨(hcond result hres hs).1, (hcond result hres hs).2.2⟩
    obtain ⟨result, hresult, hsuccess, key', hkey', hsigned⟩ :=
      setup_signed hP hcmd hwants hresp (hstatus hcmd)
    rw [(hcond result hresult hsuccess).2.1] at hkey'
    exact ⟨key', hkey', absurd hcmd, hsigned⟩
  · next hcmd =>
    obtain ⟨hwants, hlogoff, r', hsession, hkey'⟩ := hcond
    have hsession : (s.conns k).session = some r' := hsession
    have hconn := conns_handleMessage (P := P) (o := o) (s := s) (k := k) hneg hcmd hlogoff
    obtain ⟨reply, rfl⟩ := handleMessage_response hresp
    refine ⟨key, (signingKey_handleMessage hwf hcmd r).trans hkey, fun _ => rfl, ?_⟩
    refine buildResponse_signed hne ?_
    rw [responseKey_of_session (by rw [wantsSignature, hconn]; exact hwants) hneg (absurd · hcmd)
      (by rw [hconn]; exact hsession), signingKey_handleMessage hwf hcmd, hkey']

/-! ## Runs -/

theorem keyAtHand_setHash (hash : Bytes) (r : SessionRef) (key : Bytes) :
    KeyAtHand P (s.setConn k { s.conns k with preauthHash := hash }) k msg o r key ↔
      KeyAtHand P s k msg o r key := by
  have hconn : (s.setConn k { s.conns k with preauthHash := hash }).conns k =
      { s.conns k with preauthHash := hash } := Function.update_self ..
  simp only [KeyAtHand, wantsSignature, setupResult_setConn, setupRef_setConn, hconn]
  rfl

theorem responseSigned_of_key (hP : ∀ key m, P.hmacSHA256 key m ≠ []) {sys : System B} {e : Event}
    (hwf : Tables sys.server) (hcond : SignsWithOwnKey P sys e) : ResponseSigned P sys e := by
  cases e with
  | message k msg o =>
    intro hcr hneg r hvalid key hkey hne resp hresp hstatus
    obtain ⟨hash, hreq⟩ := hashRequest_eq P k msg sys.server
    obtain ⟨hresp, hsessions⟩ := processMessage_response hresp
    rw [hreq] at hresp hsessions
    have hcancel : msg.cmd ≠ .cancel := by
      intro h
      rw [handleMessage_cancel h] at hresp
      cases hresp
    have hhand := (keyAtHand_setHash hash r key).mpr (hcond hcr hneg hcancel r hvalid key hkey hne)
    rw [hsessions]
    exact handleMessage_signed hP (hwf.setConn k _) hneg hkey hne hhand hresp hstatus
  | _ => trivial

/-- **Response signing.** In a run in which every request that names a session
with a signing key finds the key at hand, its response is signed with it. -/
theorem responses_signed (hP : ∀ key m, P.hmacSHA256 key m ≠ []) (options : ServerOptions)
    (rand : Bytes) (disks : FsRef → B.Disk) (es : List Event)
    (h : Along (System.step P) (SignsWithOwnKey P) (.initial options rand disks) es) :
    Along (System.step P) (ResponseSigned P) (.initial options rand disks) es :=
  along_imp (I := fun sys => Tables sys.server) (fun _ e hwf _ => hwf.step e)
    (fun _ _ hwf hc => responseSigned_of_key hP hwf hc) (.initial options rand disks) h

/-- Hashes that are never empty. -/
def signingPlatform : Platform := { samplePlatform with hmacSHA256 := fun key m => 1 :: key ++ m }

def logoffRequest (sessionID : UInt64) : SMB2Message := request 2 sessionID 0 emptyResponse

/-- TREE_CONNECT over the connection of the login. -/
theorem responses_signed_login :
    Along (System.step signingPlatform) (ResponseSigned signingPlatform) userSystem
      (userLogin ++ [sent (treeConnectRequest 7 ipcName)]) :=
  responses_signed (B := inodeFs) (fun _ _ => List.cons_ne_nil _ _) _ (zeros 16)
    (fun _ => sampleDisk) _ (by decide +kernel)

/-- A response without the signed flag. -/
def Outcome.unsigned : Outcome → Bool
  | .response resp => !hasBits resp.header.flags smb2FlagsSigned
  | _ => false

/-- LOGOFF takes the session from the connection before its response is signed. -/
theorem logoff_unsigned :
    ¬ Along (System.step signingPlatform) (ResponseSigned signingPlatform) userSystem
      (userLogin ++ [sent (logoffRequest 7)]) := by
  intro h
  let sys := System.run signingPlatform userSystem userLogin
  have hkey : ∃ key ∈ (sys.server.sessions.heap 0).signingKey, key ≠ [] := by decide +kernel
  have hflag : (processMessage signingPlatform 0 (logoffRequest 7) sampleOracle
      sys.server).1.unsigned = true := by decide +kernel
  obtain ⟨key, hkey, hne⟩ := hkey
  cases hresp : (processMessage signingPlatform 0 (logoffRequest 7) sampleOracle sys.server).1 with
  | response resp =>
    rw [hresp] at hflag
    obtain ⟨_, -, -, hsigned⟩ := h.2.2.2.1 (by decide +kernel) (by decide) 0 (by decide +kernel) key
      hkey hne resp hresp (absurd · (by decide))
    rw [Outcome.unsigned, hsigned.flag] at hflag
    cases hflag
  | crash | silent =>
    rw [hresp] at hflag
    cases hflag

end Smbfs
