import Smbfs.System.Samples

/-!
Requests without a valid session.

* `unauthenticated_no_effect`: they leave the filesystems, the handle maps,
  the tree tables and the registry of shares as they are, and only NEGOTIATE,
  SESSION_SETUP and ECHO succeed.
-/

namespace Smbfs

open Smbfs.Lib Relation

variable {B : Backend} {P : Platform} {k : ConnId} {msg : SMB2Message} {o : Oracle}
  {s0 s s' : Server B}

/-! ## The state -/

/-- What the request must not touch. -/
structure Untouched (s0 s : Server B) : Prop where
  disks : s.disks = s0.disks
  shareHeap : s.shareHeap = s0.shareHeap
  shares : s.shares = s0.shares
  trees : ∀ r, r < s0.sessions.nextRef → (s.sessions.heap r).trees = (s0.sessions.heap r).trees

theorem not_permitted (h : s0.sessions.validateSession msg.header.sessionID = none) {fs : FsRef}
    {c : FsCall B.File} (hp : Permitted s0 msg fs c) : False := by
  have hauth : ∀ r tree, ¬ Auth s0 msg r tree := fun r tree ha => by
    cases h.symm.trans ha.session_eq
  cases hp with
  | path ha | opened ha => exact hauth _ _ ha
  | handle ht | rename ht | removed ht => exact hauth _ _ ht.toAuth
  | closed _ hmine =>
    obtain ⟨r, hr, -⟩ := hmine
    cases h.symm.trans hr

theorem Untouched.change (h : s0.sessions.validateSession msg.header.sessionID = none)
    (hu : Untouched s0 s) (hc : Change P k msg o s0 s s') : Untouched s0 s' := by
  cases hc with
  | setConn | storeDirState => exact { hu with }
  | call hp => exact (not_permitted h hp).elim
  | createSession =>
    refine { hu with trees := fun r hr => ?_ }
    have hne : r ≠ s0.sessions.nextRef := Nat.ne_of_lt hr
    simp [SessionManager.createSession, hne]
  | setAuthenticator | setValid =>
    refine { hu with trees := fun r hr => ?_ }
    refine Eq.trans (trees_modifySession fun x => ?_) (hu.trees r hr)
    rfl
  | destroyNew =>
    refine { hu with trees := fun r hr => ?_ }
    rw [← hu.trees r hr, SessionManager.destroySession_heap]
  | logoff _ hsession | addTree _ hsession => cases h.symm.trans hsession
  | removeTree _ hauth | allocate _ _ hauth => cases h.symm.trans hauth.session_eq
  | edit ht => cases h.symm.trans ht.session_eq
  | release _ hmine =>
    obtain ⟨r, hr, -⟩ := hmine
    cases h.symm.trans hr

/-! ## The response -/

section

variable (h : s.sessions.validateSession msg.header.sessionID = none)

include h

theorem validateSession_fails {α : Type} (f : SessionRef → M B α) :
    (validateSession msg.header >>= f) s = .error (.status .userSessionDeleted) s := by
  have hv : validateSession msg.header s = .error (.status .userSessionDeleted) s := by
    unfold validateSession
    rw [bind_run]
    change M.require (s.sessions.validateSession msg.header.sessionID) .userSessionDeleted s = _
    rw [h]
    rfl
  rw [bind_run, hv]

theorem validateTree_fails {α : Type} (f : SessionRef × TreeConnection → M B α) :
    (validateTree msg.header >>= f) s = .error (.status .userSessionDeleted) s := by
  rw [bind_run]
  unfold validateTree
  rw [validateSession_fails h]

/-- Every command but three fails, or gets no response. -/
theorem route_fails :
    msg.cmd = .negotiate ∨ msg.cmd = .sessionSetup ∨ msg.cmd = .echo ∨
      route P k msg o s = .ok none s ∨
      ∃ st, st ≠ .success ∧ route P k msg o s = .error (.status st) s := by
  have hmap : ∀ m : M B Reply, m s = .error (.status .userSessionDeleted) s →
      (some <$> m) s = .error (.status .userSessionDeleted) s := by
    intro m hm
    rw [map_run, hm]
  have hfail : NTStatus.userSessionDeleted ≠ .success := by decide
  unfold route
  cases msg.cmd with
  | negotiate => exact .inl rfl
  | sessionSetup => exact .inr (.inl rfl)
  | echo => exact .inr (.inr (.inl rfl))
  | cancel => exact .inr (.inr (.inr (.inl rfl)))
  | unsupported => exact .inr (.inr (.inr (.inr ⟨.notSupported, by decide, rfl⟩)))
  | logoff | treeConnect | ioctl =>
    exact .inr (.inr (.inr (.inr ⟨_, hfail, hmap _ (validateSession_fails h _)⟩)))
  | _ => exact .inr (.inr (.inr (.inr ⟨_, hfail, hmap _ (validateTree_fails h _)⟩)))

end

/-- **Unauthenticated requests.** In every reachable state, a request whose
SessionID names no valid session leaves the filesystems, the handle maps and
options of the shares, the registry and the trees of every session as they
were, and has a success status only for NEGOTIATE, SESSION_SETUP and ECHO. -/
theorem unauthenticated_no_effect (options : ServerOptions) (rand : Bytes)
    (disks : FsRef → B.Disk) (es : List Event) (k : ConnId) (msg : SMB2Message) (o : Oracle)
    (s : Server B) (hs : s = (System.run P (.initial options rand disks) es).server)
    (h : s.sessions.validateSession msg.header.sessionID = none) :
    (handleMessage P k msg o s).2.disks = s.disks ∧
    (handleMessage P k msg o s).2.shareHeap = s.shareHeap ∧
    (handleMessage P k msg o s).2.shares = s.shares ∧
    (∀ id r, s.sessions.sessions.lookup id = some r →
      ((handleMessage P k msg o s).2.sessions.heap r).trees = (s.sessions.heap r).trees) ∧
    (∀ resp, (handleMessage P k msg o s).1 = .response resp →
      resp.header.status = NTStatus.success.code →
      msg.cmd = .negotiate ∨ msg.cmd = .sessionSetup ∨ msg.cmd = .echo) := by
  have htables : Tables s := hs ▸ Tables.run options rand disks es
  have hu : Untouched s (handleMessage P k msg o s).2 :=
    chain_invariant (handleMessage_chain htables.handles) (fun _ _ hc hu => hu.change h hc)
      ⟨rfl, rfl, rfl, fun _ _ => rfl⟩
  refine ⟨hu.disks, hu.shareHeap, hu.shares, ?_, ?_⟩
  · intro id r hr
    exact hu.trees r (htables.sessions.lt_next id r hr)
  · intro resp hresp hstatus
    rcases route_fails (P := P) (k := k) (o := o) h with hc | hc | hc | hroute | ⟨st, hst, hroute⟩
    · exact .inl hc
    · exact .inr (.inl hc)
    · exact .inr (.inr hc)
    · rw [handleMessage, hroute] at hresp
      cases hresp
    · rw [handleMessage, hroute] at hresp
      cases hresp
      rw [buildResponse_status] at hstatus
      exact absurd (NTStatus.code_eq_zero.mp hstatus) hst

/-- A guest has the file `f` open, and session 8 has got its challenge. -/
def challengedSystem : System inodeFs :=
  System.run samplePlatform sampleSystem (sampleLogin false ++
    [sent (createRequest 7 1 ['f'] 3 7 1 0),
      .message 1 (sessionSetupRequest 0 negotiateMessage)
        { sampleOracle with sessionRand := some 8 }])

/-- A CREATE by the session that is in progress leaves the disk and the handles. -/
theorem unauthenticated_create :
    (challengedSystem.server.sessions.sessions.lookup 8).isSome = true ∧
    ((challengedSystem.server.handlesOf 1).view ⟨1, 1⟩).isSome = true ∧
    challengedSystem.server.sessions.validateSession 8 = none ∧
    let after := (handleMessage samplePlatform 1 (createRequest 8 1 ['g'] 3 7 2 0) sampleOracle
      challengedSystem.server).2
    after.disks = challengedSystem.server.disks ∧
      after.shareHeap = challengedSystem.server.shareHeap := by
  have h : challengedSystem.server.sessions.validateSession 8 = none := by decide +kernel
  obtain ⟨hdisks, hshares, -⟩ := unauthenticated_no_effect _ _ _ _ 1
    (createRequest 8 1 ['g'] 3 7 2 0) sampleOracle challengedSystem.server rfl h
  exact ⟨by decide +kernel, by decide +kernel, h, hdisks, hshares⟩

end Smbfs
