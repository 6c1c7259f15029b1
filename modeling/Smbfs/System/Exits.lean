import Smbfs.System.Connection

/-!
How the handlers end. No handler stops with STATUS_SUCCESS, so a response with
that status is one that the handler returned: `succeeds_iff`.
-/

namespace Smbfs

open Smbfs.Lib

variable {B : Backend}

/-! ## Rules -/

variable {st : NTStatus}

section Exits

variable {α β : Type} {bad : Stop → Prop}

theorem M.call_avoids (fs : FsRef) (c : FsCall B.File) : Avoids bad (M.call fs c) :=
  .of_returns (.modifyGet _)

theorem M.modify_avoids (g : Server B → Server B) : Avoids bad (M.modify g) :=
  .of_returns (.modifyGet _)

theorem M.get_avoids : Avoids bad (M.get (B := B)) := .of_returns .get

variable {s : Server B} {E : Stop → Server B → Prop}

theorem M.failIf_finishes {c : Bool} {Q : Unit → Server B → Prop}
    (hE : c = true → E (.status st) s) (hQ : c = false → Q () s) : Finishes (M.failIf c st) s Q E := by
  cases c with
  | true => exact Finishes.throw (hE rfl)
  | false => exact Finishes.pure (hQ rfl)

theorem M.require_finishes {x : Option α} {Q : α → Server B → Prop}
    (hE : E (.status st) s) (hQ : ∀ a, x = some a → Q a s) : Finishes (M.require x st) s Q E := by
  cases x with
  | none => exact Finishes.throw hE
  | some a => exact Finishes.pure (hQ a rfl)

theorem M.call_finishes {fs : FsRef} {c : FsCall B.File} {Q : c.Reply → Server B → Prop}
    (h : Q (B.exec c (s.disks fs)).1 (s.exec fs c)) : Finishes (M.call fs c) s Q E :=
  Finishes.modifyGet h

end Exits

/-! ## Handlers

They stop with error statuses, and panic where they use a nil pointer. -/

section Handlers

variable {bad : Stop → Prop} (hst : ∀ st, st ≠ .success → ¬ bad (.status st))

include hst

variable (fs : FsRef) (tree : TreeConnection) (filename : Str) (req : CreateRequest)

theorem openByDisposition_avoids (info : Except GoError FileInfo) :
    Avoids bad (openByDisposition (B := B) fs tree filename req info) := by
  rw [openByDisposition_eq]
  cases hfirst : firstCall tree req info with
  | error st => exact .throw (hst _ (firstCall_error hfirst))
  | ok first =>
    obtain ⟨call, action⟩ := first
    cases call with
    | mkdir =>
      refine .bind (M.call_avoids _ _) fun err => ?_
      cases err with
      | none => exact .bind (M.call_avoids _ _) fun _ => .of_returns (.pure _)
      | some err => exact .of_returns (.pure _)
    | openFile flags perm retry =>
      refine .bind (M.call_avoids _ _) fun file => ?_
      cases file with
      | ok f => exact .of_returns (.pure _)
      | error err =>
        cases retry with
        | true => exact .bind (M.call_avoids _ _) fun _ => .of_returns (.pure _)
        | false => exact .of_returns (.pure _)

theorem createOpened_avoids (session : SessionRef) (o : Oracle) (info : Except GoError FileInfo) :
    Avoids bad (createOpened (B := B) session tree fs filename req o info) := by
  refine .bind (openByDisposition_avoids hst fs tree filename req info) fun opened => ?_
  obtain ⟨file, action⟩ := opened
  cases file with
  | error err => exact .throw (hst _ (mapGoErrorToNTStatus_ne_success err))
  | ok file =>
    refine .bind (M.call_avoids _ _) fun info => ?_
    cases info with
    | error err =>
      exact .bind (M.call_avoids _ _) fun _ => .throw (hst _ (mapGoErrorToNTStatus_ne_success err))
    | ok info =>
      refine .bind (.bind M.get_avoids fun _ => ?_) fun _ => .of_returns (.pure _)
      exact .bind (M.modify_avoids _) fun _ => .of_returns (.pure _)

end Handlers

/-! ## Responses -/

/-- The status of the response, if there is one. -/
def Outcome.status : Outcome → Option UInt32
  | .response r => some r.header.status
  | .crash | .silent => none

/-- The request is answered with STATUS_SUCCESS. -/
def Succeeds (P : Platform) (k : ConnId) (msg : SMB2Message) (o : Oracle) (s : Server B) : Prop :=
  (processMessage P k msg o s).1.status = some NTStatus.success.code

instance (P : Platform) (k : ConnId) (msg : SMB2Message) (o : Oracle) (s : Server B) :
    Decidable (Succeeds P k msg o s) :=
  inferInstanceAs (Decidable (_ = _))

/-- The handler returns with STATUS_SUCCESS. -/
def ReturnsOk (m : M B Reply) (s : Server B) : Prop :=
  ∃ reply s', m s = .ok reply s' ∧ reply.status = .success

section Responses

variable {P : Platform} {k : ConnId} {msg : SMB2Message} {o : Oracle} {s : Server B} {m : M B Reply}

/-- The message is left to the handler `m`: it is answered by what `m` returns. -/
structure RoutedTo (P : Platform) (k : ConnId) (msg : SMB2Message) (o : Oracle) (m : M B Reply) :
    Prop where
  not_negotiate : msg.cmd ≠ .negotiate
  not_sessionSetup : msg.cmd ≠ .sessionSetup
  handleMessage_eq : ∀ s, handleMessage P k msg o s = respond k msg (m s)

theorem routedTo_create (hcmd : msg.cmd = .create) :
    RoutedTo (B := B) P k msg o (handleCreate msg o) := by
  refine ⟨by rw [hcmd]; decide, by rw [hcmd]; decide, fun _ => ?_⟩
  exact handleMessage_create hcmd

theorem routedTo_read (hcmd : msg.cmd = .read) :
    RoutedTo (B := B) P k msg o (handleRead msg o) := by
  refine ⟨by rw [hcmd]; decide, by rw [hcmd]; decide, fun _ => ?_⟩
  exact handleMessage_read hcmd

theorem routedTo_write (hcmd : msg.cmd = .write) :
    RoutedTo (B := B) P k msg o (handleWrite msg o) := by
  refine ⟨by rw [hcmd]; decide, by rw [hcmd]; decide, fun _ => ?_⟩
  exact handleMessage_write hcmd

theorem routedTo_setInfo (hcmd : msg.cmd = .setInfo) :
    RoutedTo (B := B) P k msg o (handleSetInfo msg o) := by
  refine ⟨by rw [hcmd]; decide, by rw [hcmd]; decide, fun _ => ?_⟩
  exact handleMessage_setInfo hcmd

theorem processMessage_routed (h : RoutedTo P k msg o m) :
    processMessage P k msg o s = respond k msg (m s) := by
  rw [processMessage_of_quiet h.not_negotiate (absurd · h.not_sessionSetup)
    (absurd · h.not_sessionSetup), h.handleMessage_eq]

theorem succeeds_iff (h : RoutedTo P k msg o m) (hm : OnlyWrites P k msg o s m s) :
    Succeeds P k msg o s ↔ ReturnsOk m s := by
  rw [Succeeds, ReturnsOk, processMessage_routed h]
  cases hrun : m s with
  | ok reply t =>
    simp only [respond, Outcome.status, Option.some.injEq, buildResponse_status,
      NTStatus.code_eq_success, EStateM.Result.ok.injEq]
    exact ⟨fun h => ⟨reply, t, ⟨rfl, rfl⟩, h⟩, fun ⟨_, _, ⟨hr, _⟩, h⟩ => hr ▸ h⟩
  | error stop t =>
    refine iff_of_false ?_ fun ⟨_, _, h, _⟩ => by cases h
    intro hstatus
    cases stop with
    | crash => cases hstatus
    | status st =>
      simp only [respond, Outcome.status, Option.some.injEq, buildResponse_status,
        NTStatus.code_eq_success] at hstatus
      exact hm.exit hrun hstatus

theorem succeeds_create_iff (hcmd : msg.cmd = .create) :
    Succeeds P k msg o s ↔ ReturnsOk (handleCreate msg o) s :=
  succeeds_iff (routedTo_create hcmd) (handleCreate_runs hcmd)

theorem succeeds_setInfo_iff (hcmd : msg.cmd = .setInfo) :
    Succeeds P k msg o s ↔ ReturnsOk (handleSetInfo msg o) s :=
  succeeds_iff (routedTo_setInfo hcmd) (handleSetInfo_runs hcmd)

variable {s' : Server B}

/-- What a handler returns is sent. -/
theorem processMessage_ok (h : RoutedTo P k msg o m) {reply : Reply}
    (hrun : m s = .ok reply s') :
    ∃ resp, processMessage P k msg o s = (.response resp, s') ∧ resp.payload = reply.payload ∧
      resp.header.status = reply.status.code := by
  rw [processMessage_routed h, hrun]
  exact ⟨_, rfl, buildResponse_payload .., buildResponse_status ..⟩

theorem processMessage_error (h : RoutedTo P k msg o m)
    (hrun : m s = .error (.status st) s') :
    ∃ resp, processMessage P k msg o s = (.response resp, s') ∧ resp.header.status = st.code := by
  rw [processMessage_routed h, hrun]
  exact ⟨_, rfl, buildResponse_status ..⟩

/-- An event whose message is answered is the handling of the message. -/
theorem step_routed {sys : System B} (hcr : sys.crashed = false) (h : RoutedTo P k msg o m) :
    (sys.step P (.message k msg o)).server = stateOf (m sys.server) := by
  rw [step_react hcr, react_message, processMessage_routed h, respond_state]

/-- The system after a message that is answered. -/
theorem step_response {sys : System B} (hcr : sys.crashed = false) {resp : SMB2Response}
    (h : processMessage P k msg o sys.server = (.response resp, s')) :
    sys.step P (.message k msg o) = ⟨s', false⟩ := by
  rw [step_react hcr, react_message, h]
  rfl

end Responses

end Smbfs
