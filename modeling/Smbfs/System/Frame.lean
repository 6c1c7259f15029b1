import Smbfs.System.Effects

/-!
What most requests leave alone. A function of the server that the writes to
handles, sessions and enumeration states do not change, and no call but
`Remove`, is not changed by any handler that neither writes to its connection
nor removes files.

* `Frame`: such functions; `Calm` leaves out the enumeration states;
* `route_keeps`: the other handlers keep them;
* `handleMessage_conns`: a request does not change the state of another
  connection, and only NEGOTIATE, SESSION_SETUP and LOGOFF change that of their own.
-/

namespace Smbfs

open Smbfs.Lib

variable {B : Backend} {τ : Type} {f : Server B → τ}

/-- The writes that do not change `f`. -/
structure Frame (f : Server B → τ) : Prop where
  handles : ∀ s sh g, f (s.modifyHandles sh g) = f s
  sessions : ∀ (s : Server B) m, f { s with sessions := m } = f s
  dirStates : ∀ s id d, f (s.storeDirState id d) = f s
  call : ∀ s fs c, c.isRemove = false → f (s.exec fs c) = f s

/-- The same without the writes to enumeration states, which only
QUERY_DIRECTORY makes. -/
structure Calm (f : Server B → τ) : Prop where
  handles : ∀ s sh g, f (s.modifyHandles sh g) = f s
  sessions : ∀ (s : Server B) m, f { s with sessions := m } = f s
  call : ∀ s fs c, c.isRemove = false → f (s.exec fs c) = f s

theorem Frame.calm (h : Frame f) : Calm f := ⟨h.handles, h.sessions, h.call⟩

/-! ## Releases -/

theorem Calm.canRelease (h : Calm f) (sh : ShareRef) (id : FileID) (of : B.OpenFile) :
    CanRelease (fun s s' => f s' = f s) sh id of :=
  ⟨fun _ => h.handles _ _ _, fun _ _ _ => h.call _ _ _ rfl⟩

theorem Frame.releaseTrees (h : Calm f) (sessionID : UInt64) (trees : List TreeConnection) :
    Keeps f (releaseTrees (B := B) sessionID trees) := by
  intro s
  have hruns : Runs (fun s s' => f s' = f s) (fun _ => False)
      (Smbfs.releaseTrees sessionID trees) s fun _ _ => True :=
    releaseTrees_runs trees fun t _ id of _ _ => h.canRelease t.share id of
  exact hruns.keeps fun _ _ h => h

theorem Frame.cleanupTick (h : Calm f) (now : GoTime) : Keeps f (cleanupTick (B := B) now) := by
  intro s
  refine (cleanupTick_runs now).keeps fun t t' hsweep => ?_
  cases hsweep with
  | expire => exact h.sessions _ _
  | release sh id => exact h.handles _ _ _
  | close fs file => exact h.call _ _ _ rfl

/-! ## All commands -/

variable {P : Platform} {k : ConnId} {msg : SMB2Message} {o : Oracle}

section Commands

variable (hconn : msg.cmd.writesConn = true → ∀ (s : Server B) c, f (s.setConn k c) = f s)
  (hremove : msg.cmd = .close → ∀ (s : Server B) fs p, f (s.exec fs (.remove p)) = f s)

include hconn hremove

theorem Calm.write (h : Calm f)
    (hdir : msg.cmd = .queryDirectory → ∀ (s : Server B) id d, f (s.storeDirState id d) = f s)
    {s0 s s' : Server B} (hw : Write P k msg o s0 s s') : f s' = f s := by
  cases hw with
  | conn c hcmd => exact hconn hcmd s c
  | dirState id d hcmd => exact hdir hcmd s id d
  | sessions _ => exact h.sessions _ _
  | handles _ => exact h.handles _ _ _
  | @call _ c _ hclose =>
    cases c with
    | remove path => exact hremove (hclose rfl) s _ path
    | _ => exact h.call _ _ _ rfl

/-- **Frame.** -/
theorem Calm.route_keeps (h : Calm f)
    (hdir : msg.cmd = .queryDirectory → ∀ (s : Server B) id d, f (s.storeDirState id d) = f s) :
    Keeps f (route P k msg o) := by
  intro s
  exact route_runs.keeps fun t t' hw => h.write hconn hremove hdir hw

end Commands

theorem route_keeps (h : Frame f)
    (hconn : msg.cmd.writesConn = true → ∀ (s : Server B) c, f (s.setConn k c) = f s)
    (hremove : msg.cmd = .close → ∀ (s : Server B) fs p, f (s.exec fs (.remove p)) = f s) :
    Keeps f (route P k msg o) :=
  h.calm.route_keeps hconn hremove fun _ => h.dirStates

/-- The state of another connection stays as it is, and that of the request's
own unless its command writes to it. -/
theorem handleMessage_conns (s : Server B) {k' : ConnId} (h : k' ≠ k ∨ msg.cmd.writesConn = false) :
    (handleMessage P k msg o s).2.conns k' = s.conns k' := by
  rw [handleMessage_state]
  have hframe : Frame (B := B) fun s => s.conns k' :=
    ⟨fun _ _ _ => rfl, fun _ _ => rfl, fun _ _ _ => rfl, fun _ _ _ _ => rfl⟩
  refine route_keeps hframe (fun hw t c => ?_) (fun _ _ _ _ => rfl) s
  rcases h with hne | hcmd
  · exact Function.update_of_ne hne _ _
  · rw [hcmd] at hw
    cases hw

end Smbfs
