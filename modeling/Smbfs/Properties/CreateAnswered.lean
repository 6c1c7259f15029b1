import Smbfs.System.Exits
import Smbfs.System.Samples

/-!
CREATE on a share without a filesystem. IPC$ is registered with a nil
filesystem and lets guests in, and `handleCreate` calls `Stat` on whatever
filesystem the share of the tree has, so a CREATE on IPC$ that passes the
checks before ends the process: `create_answered_iff`.
-/

namespace Smbfs

open Smbfs.Lib

variable {B : Backend}

/-- A handler is answered unless it panics. -/
theorem respond_answers {k : ConnId} {msg : SMB2Message}
    {x : EStateM.Result Stop (Server B) Reply} :
    (∃ resp, (respond k msg x).1 = .response resp) ↔ ∀ s, x ≠ .error .crash s := by
  cases x with
  | ok reply s => simp [respond]
  | error stop s => cases stop <;> simp [respond]

/-- The checks of `handleCreate` before it calls the filesystem. -/
def createChecked (s : Server B) (tree : TreeConnection) (payload : Bytes) : Bool :=
  let req := CreateRequest.ofPayload payload
  wellFormed payload 56 57 && (createFilename payload).any fun filename =>
    (s.handlesOf tree.share).checkShareAccess filename req.desiredAccess req.shareAccess

/-- **CREATE on a valid session and tree**, in every state of the server: it
is answered exactly if the share has a filesystem or the request fails one of
the checks that come first. -/
theorem create_answered_iff (P : Platform) (k : ConnId) {msg : SMB2Message} (o : Oracle)
    {s : Server B} {tree : TreeConnection} (hcmd : msg.cmd = .create)
    (htree : treeOf s msg = some tree) :
    (∃ resp, (handleMessage P k msg o s).1 = .response resp) ↔
      (s.shareHeap tree.share).fs ≠ none ∨ createChecked s tree msg.payload = false := by
  obtain ⟨r, hsession, htree⟩ := Option.bind_eq_some_iff.mp htree
  rw [handleMessage_create hcmd, respond_answers, handleCreate, run_validateTree_bind, hsession]
  dsimp only
  rw [htree]
  dsimp only
  rw [run_checkRequest_bind, createChecked]
  cases hwf : wellFormed msg.payload 56 57 with
  | false => simp
  | true =>
    rw [if_pos rfl, M.run_require_bind]
    cases hname : createFilename msg.payload with
    | none => simp
    | some filename =>
      dsimp only
      rw [M.run_get_bind, M.run_failIf_bind, Option.any_some, Bool.true_and]
      cases haccess : (s.handlesOf tree.share).checkShareAccess filename msg.create.desiredAccess
          msg.create.shareAccess with
      | false => simp
      | true =>
        rw [Bool.not_true, if_neg Bool.false_ne_true, run_shareFs_bind]
        cases hfs : (s.shareHeap tree.share).fs with
        | none => simp
        | some fs =>
          simp only [ne_eq, reduceCtorEq, not_false_eq_true, true_or, iff_true]
          intro t hcrash
          refine Avoids.bind (M.call_avoids fs _) (fun info => ?_) s Stop.crash t hcrash rfl
          exact createOpened_avoids (fun st _ h => by cases h) fs tree filename _ r o info

/-- CREATE of the file `f` on an ordinary share. -/
theorem create_answered_ordinary :
    let s := (guestSystem false).server
    let msg := createRequest 7 1 ['f'] 1 7 1 0
    (treeOf s msg).isSome ∧
      ∃ resp, (handleMessage samplePlatform 0 msg sampleOracle s).1 = .response resp := by
  refine ⟨by decide +kernel, ?_⟩
  refine (create_answered_iff samplePlatform 0 sampleOracle rfl
    (Option.some_get (by decide +kernel)).symm).mpr (.inl ?_)
  rw [← Option.isSome_iff_ne_none]
  decide +kernel

/-- A guest connects to IPC$ and asks for a file there: the tree is valid, and
the process ends. -/
theorem create_on_ipc_crashes :
    let sys := System.run samplePlatform sampleSystem
      [sent (sessionSetupRequest 0 []), sent (treeConnectRequest 7 ipcName)]
    let msg := createRequest 7 1 ['f'] 1 7 1 0
    sys.crashed = false ∧ (treeOf sys.server msg).isSome ∧
      (sys.step samplePlatform (sent msg)).crashed = true := by
  decide +kernel

end Smbfs
