import Smbfs.System.Exits

/-!
TREE_CONNECT, exit by exit, `smb2_tree.go`.

* `Connects`: the request names a session, and a share by the name it is
  registered under;
* `run_handleTreeConnect`, `handleTreeConnect_cases`: such a request is left to
  the access check of the share, and any other one fails;
* `Connects.succeeds_iff`: it succeeds exactly if the share lets the user in;
* `getsTree_iff`: the share of the tree that a session gets.
-/

namespace Smbfs

open Smbfs.Lib

variable {B : Backend} {P : Platform} {k : ConnId} {msg : SMB2Message} {o : Oracle} {s : Server B}

/-- The path of a TREE_CONNECT request, if it lies inside the payload. -/
def treeConnectPath (payload : Bytes) : Option Str :=
  let (pathOffset, pathLen) := readTreeConnect.parse payload
  (messageBuffer payload pathOffset.toNat pathLen.toNat).map decodeUTF16LEToString

theorem treeConnectShareName_eq (payload : Bytes) :
    treeConnectShareName payload = (treeConnectPath payload).map extractShareName := by
  rw [treeConnectPath, Option.map_map]
  rfl

/-- The request is well formed and asks to connect the valid session `r` to the
share `sh`, which is registered under `name`. -/
structure Connects (s : Server B) (msg : SMB2Message) (r : SessionRef) (name : Str)
    (sh : ShareRef) : Prop where
  session_eq : s.sessions.validateSession msg.header.sessionID = some r
  well : wellFormed msg.payload 8 9 = true
  name_eq : treeConnectShareName msg.payload = some name
  nonempty : name ≠ []
  share_eq : s.shares.lookup name = some sh

/-- The share lets the user of the session in. -/
def Server.admits (s : Server B) (r : SessionRef) (sh : ShareRef) : Bool :=
  (s.shareHeap sh).checkUserAccess (s.sessions.heap r).username (s.sessions.heap r).isGuest

/-- The server after TREE_CONNECT, with a new tree of the share. -/
def connectedServer (s : Server B) (o : Oracle) (r : SessionRef) (name : Str) (sh : ShareRef) :
    Server B :=
  s.modifySession r fun session => session.addTreeConnection
    ((s.sessions.heap r).newTree name sh (s.shareHeap sh).isReadOnly o.now)

section Connects

variable {r : SessionRef} {name : Str} {sh : ShareRef}

/-- **TREE_CONNECT to a share.** The session gets a tree of the share, or the share
denies access. -/
theorem run_handleTreeConnect (h : Connects s msg r name sh) :
    (s.admits r sh = true ∧ ∃ reply, reply.status = .success ∧
      handleTreeConnect msg o s = .ok reply (connectedServer s o r name sh)) ∨
    (s.admits r sh = false ∧ handleTreeConnect msg o s = .error (.status .accessDenied) s) := by
  have hnonempty : name.isEmpty = false := by simpa using h.nonempty
  simp only [handleTreeConnect, run_validateSession_bind, h.session_eq, run_checkRequest_bind,
    h.well, if_true, M.run_require_bind, h.name_eq, M.run_failIf_bind, hnonempty,
    Bool.false_eq_true, if_false, M.run_get_bind, h.share_eq]
  have hcheck : (s.shareHeap sh).checkUserAccess (s.sessions.heap r).username
      (s.sessions.heap r).isGuest = s.admits r sh := rfl
  rw [hcheck]
  cases s.admits r sh with
  | true => exact .inl ⟨rfl, _, by rfl, rfl⟩
  | false => exact .inr ⟨rfl, rfl⟩

theorem handleTreeConnect_cases (s : Server B) (msg : SMB2Message) (o : Oracle) :
    (∃ r name sh, Connects s msg r name sh) ∨
    ∃ st, st ≠ .success ∧ handleTreeConnect msg o s = .error (.status st) s := by
  by_cases h : ∃ r name sh, Connects s msg r name sh
  · exact .inl h
  · refine .inr (M.stops_same ?_)
    refine bind_validateSession fun r hr => bind_checkRequest fun hwell => ?_
    refine M.bind_require nofun fun name hname => M.bind_failIf nofun fun hempty => M.bind_get ?_
    refine M.bind_require nofun fun sh hsh => absurd ⟨r, name, sh, hr, hwell, hname, ?_, hsh⟩ h
    simpa using hempty

theorem routedTo_treeConnect (hcmd : msg.cmd = .treeConnect) :
    RoutedTo (B := B) P k msg o (handleTreeConnect msg o) := by
  refine ⟨by rw [hcmd]; decide, by rw [hcmd]; decide, fun _ => ?_⟩
  exact handleMessage_treeConnect hcmd

theorem Connects.succeeds_iff (hcmd : msg.cmd = .treeConnect) (h : Connects s msg r name sh) :
    Succeeds P k msg o s ↔ s.admits r sh = true := by
  rw [Succeeds, processMessage_routed (routedTo_treeConnect hcmd)]
  rcases run_handleTreeConnect (o := o) h with ⟨hadmits, reply, hstatus, hrun⟩ | ⟨hadmits, hrun⟩
  · rw [hrun, hadmits]
    simp [respond, Outcome.status, buildResponse_status, hstatus]
  · rw [hrun, hadmits]
    simp [respond, Outcome.status, buildResponse_status, NTStatus.code]

/-- The request is answered with STATUS_SUCCESS, and the new tree of the session is
one of the share. -/
def GetsTree (P : Platform) (k : ConnId) (msg : SMB2Message) (o : Oracle) (s : Server B)
    (r : SessionRef) (sh : ShareRef) : Prop :=
  Succeeds P k msg o s ∧
    (((processMessage P k msg o s).2.sessions.heap r).trees.lookup (s.sessions.heap r).nextID).map
      TreeConnection.share = some sh

theorem Connects.getsTree_iff (hcmd : msg.cmd = .treeConnect) (h : Connects s msg r name sh)
    (sh' : ShareRef) : GetsTree P k msg o s r sh' ↔ s.admits r sh = true ∧ sh = sh' := by
  rw [GetsTree, h.succeeds_iff hcmd]
  refine and_congr_right fun hadmits => ?_
  rcases run_handleTreeConnect (o := o) h with ⟨-, reply, -, hrun⟩ | ⟨hdenied, -⟩
  · rw [processMessage_routed (routedTo_treeConnect hcmd), hrun, respond_state, stateOf,
      connectedServer, Server.heap_modifySession, if_pos rfl]
    simp [Session.addTreeConnection, Session.newTree]
  · exact absurd (hadmits.symm.trans hdenied) Bool.noConfusion

/-- **TREE_CONNECT.** A session is connected to the share that it names, if the share
lets its user in. -/
theorem getsTree_iff (hcmd : msg.cmd = .treeConnect)
    (hsession : s.sessions.validateSession msg.header.sessionID = some r) :
    GetsTree P k msg o s r sh ↔ s.admits r sh = true ∧ ∃ name, Connects s msg r name sh := by
  rcases handleTreeConnect_cases s msg o with ⟨r', name, sh', h⟩ | ⟨st, hst, hrun⟩
  · obtain rfl : r' = r := Option.some.inj (h.session_eq.symm.trans hsession)
    rw [h.getsTree_iff hcmd]
    constructor
    · rintro ⟨hadmits, rfl⟩
      exact ⟨hadmits, name, h⟩
    · rintro ⟨hadmits, name', h'⟩
      obtain rfl : name = name' := Option.some.inj (h.name_eq.symm.trans h'.name_eq)
      obtain rfl : sh' = sh := Option.some.inj (h.share_eq.symm.trans h'.share_eq)
      exact ⟨hadmits, rfl⟩
  · refine iff_of_false ?_ ?_
    · rintro ⟨hsucceeds, -⟩
      rw [Succeeds, processMessage_routed (routedTo_treeConnect hcmd), hrun] at hsucceeds
      simp only [respond, Outcome.status, buildResponse_status, Option.some.injEq,
        NTStatus.code_eq_success] at hsucceeds
      exact hst hsucceeds
    · rintro ⟨hadmits, name, h⟩
      rcases run_handleTreeConnect (o := o) h with ⟨-, reply, -, hok⟩ | ⟨hdenied, -⟩
      · cases hrun.symm.trans hok
      · exact absurd (hadmits.symm.trans hdenied) Bool.noConfusion

end Connects

end Smbfs
