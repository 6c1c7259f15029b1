import Smbfs.System.Connection
import Smbfs.System.Samples

/-!
The signatures of requests. The server does not check them: `VerifySignature`
has no caller.

* `Admitted`: the checks that a handler makes before its first effect;
* `route_idle`, `handleMessage_not_admitted`: a request that fails them changes nothing;
* `unverified_ignored`: the server changes nothing for unsigned and wrongly
  signed requests if none of them is admitted;
* `unsigned_tree_connect`: one that is admitted takes effect.
-/

namespace Smbfs

open Smbfs.Lib

variable {B : Backend} {P : Platform} {k : ConnId} {msg : SMB2Message} {o : Oracle}
  {s s' : Server B}

/-! ## The property and its condition -/

/-- The sessions with their trees, the handles with their enumeration states,
and the content of the filesystems are the same. -/
structure SameState (s s' : Server B) : Prop where
  sessions : s'.sessions = s.sessions
  shareHeap : s'.shareHeap = s.shareHeap
  dirStates : s'.dirStates = s.dirStates
  content : ∀ fs, B.content (s'.disks fs) = B.content (s.disks fs)

/-- The request names a session with a signing key, and is not signed with it. -/
def Unverified (P : Platform) (aes : BlockCipher) (s : Server B) (k : ConnId) (msg : SMB2Message) :
    Prop :=
  msg.cmd ≠ .negotiate ∧ msg.cmd ≠ .sessionSetup ∧
    ∃ r ∈ s.sessions.validateSession msg.header.sessionID,
    ∃ key ∈ (s.sessions.heap r).signingKey, key ≠ [] ∧
      (hasBits msg.header.flags smb2FlagsSigned = false ∨
        verifySignature P aes msg.rawBytes key (s.conns k).dialect = false)

/-- Requests that are not verified change nothing. -/
def UnverifiedIgnored (P : Platform) (aes : BlockCipher) (sys : System B) : Event → Prop
  | .message k msg o => sys.crashed = false → Unverified P aes sys.server k msg →
      SameState sys.server (processMessage P k msg o sys.server).2
  | _ => True

/-- The session has the handle `id` open through the tree, and `p` holds of it. -/
def hasHandle (s : Server B) (r : SessionRef) (tree : TreeConnection) (id : FileID)
    (p : B.OpenFile → Bool) : Bool :=
  match (s.handlesOf tree.share).getByTree id tree.id (s.sessions.heap r).id with
  | some h => p ((s.handlesOf tree.share).heap h)
  | none => false

/-- TREE_CONNECT names a share that the user of the session may connect to. -/
def connectAllowed (s : Server B) (r : SessionRef) (payload : Bytes) : Bool :=
  match treeConnectShareName payload with
  | none => false
  | some shareName => !shareName.isEmpty && match s.shares.lookup shareName with
    | none => false
    | some sh => (s.shareHeap sh).checkUserAccess (s.sessions.heap r).username
        (s.sessions.heap r).isGuest

/-- CREATE names a file, and the open handles share it. -/
def createAllowed (s : Server B) (tree : TreeConnection) (payload : Bytes) : Bool :=
  let req := CreateRequest.ofPayload payload
  match createFilename payload with
  | none => false
  | some filename =>
    (s.handlesOf tree.share).checkShareAccess filename req.desiredAccess req.shareAccess

/-- The request of a session passes the checks that its handler makes before it
changes anything. FLUSH, ECHO, IOCTL and CANCEL have no effect to admit. -/
def Admitted (s : Server B) (msg : SMB2Message) (r : SessionRef) : Bool :=
  let payload := msg.payload
  match msg.cmd with
  | .logoff => wellFormed payload 4 4
  | .treeConnect => wellFormed payload 8 9 && connectAllowed s r payload
  | cmd =>
    match (s.sessions.heap r).trees.lookup msg.header.treeID with
    | none => false
    | some tree =>
      match cmd with
      | .treeDisconnect => true
      | .create => wellFormed payload 56 57 && createAllowed s tree payload
      | .close => wellFormed payload 24 24 &&
          hasHandle s r tree (CloseRequest.ofPayload payload).fileID fun _ => true
      | .read => wellFormed payload 48 49 &&
          hasHandle s r tree (ReadRequest.ofPayload payload).fileID fun _ => true
      | .write => wellFormed payload 48 49 &&
          hasHandle s r tree (WriteRequest.ofPayload payload).fileID fun of => !tree.isReadOnly &&
            hasBits (mapGenericAccess of.access) (fileWriteData ||| fileAppendData)
      | .queryDirectory => wellFormed payload 32 33 &&
          hasHandle s r tree (QueryDirectoryRequest.ofPayload payload).fileID fun of => of.isDir
      | .queryInfo => wellFormed payload 40 41 &&
          hasHandle s r tree (QueryInfoRequest.ofPayload payload).fileID fun _ => true
      | .setInfo => wellFormed payload 32 33 &&
          hasHandle s r tree (SetInfoRequest.ofPayload payload).fileID fun _ => !tree.isReadOnly
      | _ => false

/-- No request that is not verified is admitted. -/
def UnverifiedRefused (P : Platform) (aes : BlockCipher) (sys : System B) : Event → Prop
  | .message k msg _ => sys.crashed = false → Unverified P aes sys.server k msg →
      ∀ r ∈ sys.server.sessions.validateSession msg.header.sessionID,
        Admitted sys.server msg r = false
  | _ => True

instance (aes : BlockCipher) : Decidable (Unverified P aes s k msg) := by
  delta Unverified
  infer_instance

instance (aes : BlockCipher) (sys : System B) : (e : Event) → Decidable (UnverifiedRefused P aes sys e)
  | .message .. => by delta UnverifiedRefused; infer_instance
  | .connect .. | .addShare .. | .removeShare _ | .cleanup _ => inferInstanceAs (Decidable True)

/-! ## Handlers that stop early -/

theorem SameState.refl (s : Server B) : SameState s s := ⟨rfl, rfl, rfl, fun _ => rfl⟩

theorem SameState.exec (s : Server B) (fs : FsRef) {c : FsCall B.File} (hc : c.mutates = false) :
    SameState s (s.exec fs c) := by
  exact ⟨rfl, rfl, rfl, s.content_exec fs hc⟩

theorem SameState.trans {s s' s'' : Server B} (h : SameState s s') (h' : SameState s' s'') :
    SameState s s'' :=
  ⟨h'.sessions.trans h.sessions, h'.shareHeap.trans h.shareHeap, h'.dirStates.trans h.dirStates,
    fun fs => (h'.content fs).trans (h.content fs)⟩

instance : Errs (· ≠ .crash) := ⟨fun _ => by simp⟩

/-- The program changes nothing. -/
abbrev Idle {α : Type} (s : Server B) (m : M B α) : Prop :=
  Runs SameState (· ≠ .crash) m s fun _ _ => True

theorem Target.hasHandle_eq {r : SessionRef} {tree : TreeConnection} {id : FileID}
    {of : B.OpenFile} (ht : Target s msg r tree id of) (p : B.OpenFile → Bool) :
    hasHandle s r tree id p = p of := by
  obtain ⟨ref, -, rfl, hget⟩ := ht.getByTree_eq
  rw [hasHandle, hget]

/-! ## One request -/

section

variable {r : SessionRef} (hneg : msg.cmd ≠ .negotiate) (hsetup : msg.cmd ≠ .sessionSetup)
  (hsession : s.sessions.validateSession msg.header.sessionID = some r)
  (h : Admitted s msg r = false)

include hneg hsetup hsession h

theorem route_idle : Idle s (route P k msg o) := by
  cases hcmd : msg.cmd
  case negotiate => exact absurd hcmd hneg
  case sessionSetup => exact absurd hcmd hsetup
  all_goals
    simp only [Admitted, hcmd] at h
    rw [route, hcmd]
    dsimp only [Command.handler]
  -- the commands that need no tree
  case cancel => exact .pure trivial
  case unsupported => exact .throw (by simp)
  all_goals apply Runs.map
  case echo => exact .pure trivial
  case ioctl =>
    rw [handleIOCTL_eq]
    exact bind_validateSession fun _ _ => bind_checkRequest fun _ => .throw (by simp)
  case logoff =>
    refine bind_validateSession fun _ _ => bind_checkRequest fun hwell => ?_
    cases h.symm.trans hwell
  case treeConnect =>
    refine bind_validateSession fun r' hr => bind_checkRequest fun hwell => ?_
    cases hsession.symm.trans hr
    refine M.bind_require (by decide) fun name hname => ?_
    refine M.bind_failIf (by decide) fun hempty => M.bind_get ?_
    refine M.bind_require (by decide) fun sh hsh => M.bind_failIf (by decide) fun haccess => ?_
    simp [hwell, connectAllowed, hname, hempty, hsh] at h
    simp [h] at haccess
  -- the others
  all_goals
    refine bind_validateTree fun r' tree hauth => ?_
    cases hsession.symm.trans hauth.session_eq
    simp only [hauth.tree_eq] at h
  case treeDisconnect => cases h
  case flush =>
    refine bind_checkRequest fun _ => bind_getByTree hauth fun ref of _ _ => ?_
    dsimp only
    -- the file is synced, which leaves its content as it is
    split
    · exact .pure trivial
    · split
      · refine M.bind_call (.exec s _ rfl) fun err => ?_
        split
        · exact .throw (by simp)
        · exact .pure trivial
      · exact .pure trivial
  all_goals
    refine bind_checkRequest fun hwell => ?_
    simp only [hwell, Bool.true_and] at h
  case create =>
    refine M.bind_require (by decide) fun filename hname => M.bind_get ?_
    refine M.bind_failIf (by decide) fun hcheck => ?_
    simp [createAllowed, hname] at h
    simp [h] at hcheck
  all_goals refine bind_getByTree hauth fun ref of ht _ => ?_
  all_goals rw [ht.hasHandle_eq] at h
  case close | read | queryInfo => cases h
  case queryDirectory =>
    refine M.bind_failIf (by decide) fun hdir => ?_
    simp [h] at hdir
  case setInfo =>
    refine M.bind_failIf (by decide) fun hro => ?_
    simp [hro] at h
  case write =>
    refine M.bind_failIf (by decide) fun hro => M.bind_failIf (by decide) fun haccess => ?_
    simp [hro] at h
    simp [h] at haccess

/-- **Refused requests.** They change nothing. -/
theorem handleMessage_not_admitted : SameState s (handleMessage P k msg o s).2 := by
  rw [handleMessage_state]
  exact chain_invariant (route_idle hneg hsetup hsession h).chain (fun _ _ h' h => h.trans h') (.refl s)

end

/-! ## Runs -/

theorem unverifiedIgnored_of_refused {aes : BlockCipher} {sys : System B} {e : Event}
    (h : UnverifiedRefused P aes sys e) : UnverifiedIgnored P aes sys e := by
  cases e with
  | message k msg o =>
    intro hcr hun
    have hrefused := h hcr hun
    obtain ⟨hneg, hsetup, r, hsession, -⟩ := hun
    rw [processMessage_of_quiet hneg (absurd · hsetup) (absurd · hsetup)]
    exact handleMessage_not_admitted hneg hsetup hsession (hrefused r hsession)
  | _ => trivial

/-- **Request signing.** In a run in which no unsigned or wrongly signed request
is admitted, none of them changes anything. -/
theorem unverified_ignored (aes : BlockCipher) (options : ServerOptions) (rand : Bytes)
    (disks : FsRef → B.Disk) (es : List Event)
    (h : Along (System.step P) (UnverifiedRefused P aes) (.initial options rand disks) es) :
    Along (System.step P) (UnverifiedIgnored P aes) (.initial options rand disks) es :=
  along_imp (I := fun _ => True) (fun _ _ _ _ => trivial)
    (fun _ _ _ hc => unverifiedIgnored_of_refused hc) trivial h

/-- A block function for the examples. -/
def sampleCipher : BlockCipher := fun key block => xorBytes block key

/-- The request, signed. -/
def SMB2Message.signed (msg : SMB2Message) (key : Bytes) (dialect : SMBDialect) : SMB2Message :=
  let msg := { msg with header := { msg.header with flags := smb2FlagsSigned } }
  let signature := (signMessage samplePlatform sampleCipher msg.framed.rawBytes key dialect).getD []
  { msg with
    header := { msg.header with signature := signature }
    rawBytes := applySignature msg.framed.rawBytes signature }

/-- The signing key of the session. -/
def userKey : Bytes :=
  ((System.run samplePlatform userSystem userLogin).server.sessions.heap 0).signingKey.getD []

/-- A signed TREE_CONNECT and an ECHO that is not signed. -/
theorem unverified_ignored_signed :
    Along (System.step samplePlatform) (UnverifiedIgnored samplePlatform sampleCipher) userSystem
      (userLogin ++ [sent ((treeConnectRequest 7 ipcName).signed userKey smb3_0),
        sent (request 0x0D 7 0 emptyResponse)]) :=
  unverified_ignored sampleCipher _ _ _ _
    (by decide +kernel)

/-- A TREE_CONNECT that is not signed connects a tree, though the server asks for signatures. -/
theorem unsigned_tree_connect :
    ¬ Along (System.step samplePlatform) (UnverifiedIgnored samplePlatform sampleCipher) userSystem
      (userLogin ++ [sent (treeConnectRequest 7 ipcName)]) := by
  intro h
  let s := (System.run samplePlatform userSystem userLogin).server
  have hsame : SameState s
      (processMessage samplePlatform 0 (treeConnectRequest 7 ipcName) sampleOracle s).2 :=
    h.2.2.2.1 (by decide +kernel) (by decide +kernel)
  have htree : ((s.sessions.heap 0).trees.lookup 1).isSome = false := by decide +kernel
  rw [← hsame.sessions] at htree
  revert htree
  decide +kernel

end Smbfs
