import Mathlib.Data.List.Induction
import Smbfs.System.Connection
import Smbfs.System.Samples

/-!
The expiry of sessions. `CleanupExpired` looks at `LastActivity`, which only
`CreateSession` and `SetValid` write: `UpdateActivity` has no caller. A valid
session is as old as its last successful SESSION_SETUP, whatever it did since.

* `step_ages`: what an event does to the state and the last activity of a session;
* `Renewed`: along a run, the last activity of a valid session is the time of
  its latest successful SESSION_SETUP;
* `active_kept_iff`: a tick keeps the active sessions exactly if each of them
  had a SESSION_SETUP within the idle limit;
* `busy_session_expired`: one that had none is removed with its handles.
-/

namespace Smbfs

open Smbfs.Lib Relation

variable {B : Backend} {P : Platform} {k : ConnId} {msg : SMB2Message} {o : Oracle}
  {s s' : Server B} {r : SessionRef}

/-! ## What is read off a run -/

/-- A response with STATUS_SUCCESS. -/
def Outcome.succeeds : Outcome → Bool
  | .response resp => resp.header.status = NTStatus.success.code
  | .silent | .crash => false

/-- The request is answered with STATUS_SUCCESS. -/
def succeeds (P : Platform) (k : ConnId) (msg : SMB2Message) (o : Oracle) (s : Server B) : Bool :=
  (processMessage P k msg o s).1.succeeds

/-- The time of a request that names the valid session at `r` and succeeds. -/
def activity (P : Platform) (r : SessionRef) (sys : System B) : Event → Option GoTime
  | .message k msg o =>
    if !sys.crashed && sys.server.sessions.validateSession msg.header.sessionID = some r &&
        succeeds P k msg o sys.server then some o.now else none
  | _ => none

/-- The time of a SESSION_SETUP that succeeds for the session at `r`. -/
def renewal (P : Platform) (r : SessionRef) (sys : System B) : Event → Option GoTime
  | .message k msg o =>
    if !sys.crashed && msg.cmd = .sessionSetup && setupRef sys.server msg = r &&
        succeeds P k msg o sys.server then some o.now else none
  | _ => none

def Event.time? : Event → Option GoTime
  | .message _ _ o => some o.now
  | .cleanup now => some now
  | _ => none

/-- The clock never goes back. -/
def NonDecreasing (es : List Event) : Prop := (es.filterMap Event.time?).Pairwise (· ≤ ·)

instance (es : List Event) : Decidable (NonDecreasing es) :=
  inferInstanceAs (Decidable (List.Pairwise _ _))

theorem NonDecreasing.init {es : List Event} {e : Event} (h : NonDecreasing (es ++ [e])) :
    NonDecreasing es := by
  rw [NonDecreasing, List.filterMap_append] at h
  exact (List.pairwise_append.mp h).1

/-! ## Ageing -/

/-- What a step does to the state and the last activity of the session at `r`:
nothing, or the session is new and not valid yet, or it is renewed. -/
inductive Ages (s s' : Server B) (r : SessionRef) : Option GoTime → Prop where
  | same (hstate : (s'.sessions.heap r).state = (s.sessions.heap r).state)
      (hactivity : (s'.sessions.heap r).lastActivity = (s.sessions.heap r).lastActivity) :
      Ages s s' r none
  | created (hnew : r = s.sessions.nextRef) (hstate : (s'.sessions.heap r).state ≠ .valid) :
      Ages s s' r none
  | renewed {now : GoTime} (hlt : r < s'.sessions.nextRef)
      (hstate : (s'.sessions.heap r).state = .valid)
      (hactivity : (s'.sessions.heap r).lastActivity = now) : Ages s s' r (some now)

theorem Ages.of_heap (h : s'.sessions.heap = s.sessions.heap) : Ages s s' r none :=
  .same (by rw [h]) (by rw [h])

variable {t t' : Server B} {sys : System B}

/-- The session table and heap are all that matters. -/
theorem Ages.congr {x : Option GoTime} (h : Ages s s' r x) (hs : t.sessions = s.sessions)
    (hs' : t'.sessions = s'.sessions) : Ages t t' r x := by
  cases h with
  | same hstate hactivity => exact .same (by rw [hs, hs', hstate]) (by rw [hs, hs', hactivity])
  | created hnew hstate => exact .created (by rw [hs, hnew]) (by rw [hs']; exact hstate)
  | renewed hlt hstate hactivity =>
    exact .renewed (by rw [hs']; exact hlt) (by rw [hs', hstate]) (by rw [hs', hactivity])

/-- What comes after and leaves the session alone. -/
theorem Ages.of_same (h : Ages s s' r none)
    (hstate : (t.sessions.heap r).state = (s'.sessions.heap r).state)
    (hactivity : (t.sessions.heap r).lastActivity = (s'.sessions.heap r).lastActivity) :
    Ages s t r none := by
  cases h with
  | same hs ha => exact .same (hstate.trans hs) (hactivity.trans ha)
  | created hnew hs => exact .created hnew (by rw [hstate]; exact hs)

theorem Change.same_age (hc : Change P k msg o s t t') (hcmd : msg.cmd ≠ .sessionSetup)
    (r : SessionRef) :
    (t'.sessions.heap r).state = (t.sessions.heap r).state ∧
      (t'.sessions.heap r).lastActivity = (t.sessions.heap r).lastActivity := by
  cases hc with
  | createSession h | setAuthenticator _ h | setValid _ _ h | destroyNew h => exact absurd h hcmd
  | logoff => simp only [SessionManager.destroySession_heap, and_self]
  | addTree | removeTree =>
    rw [Server.heap_modifySession]
    split
    · next h =>
      subst h
      exact ⟨rfl, rfl⟩
    · exact ⟨rfl, rfl⟩
  | _ => exact ⟨rfl, rfl⟩

theorem handleMessage_ages (hwf : Tables s) (hcmd : msg.cmd ≠ .sessionSetup) :
    Ages s (handleMessage P k msg o s).2 r none := by
  have hchain : ReflTransGen (Change P k msg o s) s (handleMessage P k msg o s).2 :=
    handleMessage_chain hwf.handles
  have hsame := chain_invariant
    (I := fun t : Server B => (t.sessions.heap r).state = (s.sessions.heap r).state ∧
      (t.sessions.heap r).lastActivity = (s.sessions.heap r).lastActivity) hchain
    (fun t t' hc ht => ⟨(hc.same_age hcmd r).1.trans ht.1, (hc.same_age hcmd r).2.trans ht.2⟩)
    ⟨rfl, rfl⟩
  exact .same hsame.1 hsame.2

/-! ## SESSION_SETUP -/

theorem withSession_ages : Ages s (withSession k msg o s) r none := by
  unfold withSession
  cases selectSession s.sessions msg with
  | some r' => exact .of_heap rfl
  | none =>
    by_cases hr : r = s.sessions.nextRef
    · refine .created hr ?_
      simp [SessionManager.createSession, hr, Session.new]
    · refine .same ?_ ?_ <;> simp [SessionManager.createSession, hr]

theorem asked_ages (a : NTLMAuthenticator) : Ages s (asked k msg o s a) r none := by
  have hheap : ((asked k msg o s a).sessions.heap r).state =
      ((withSession k msg o s).sessions.heap r).state ∧
      ((asked k msg o s a).sessions.heap r).lastActivity =
      ((withSession k msg o s).sessions.heap r).lastActivity := by
    rw [asked, Server.heap_modifySession]
    split
    · next h => subst h; exact ⟨rfl, rfl⟩
    · exact ⟨rfl, rfl⟩
  exact withSession_ages.of_same hheap.1 hheap.2

/-- What SESSION_SETUP for the session at `ref` does to the session at `r`. -/
def SetupAges (k : ConnId) (msg : SMB2Message) (s : Server B) (r ref : SessionRef) (now : GoTime)
    (out : EStateM.Result Stop (Server B) Reply) : Prop :=
  Ages s (stateOf out) r (if ref = r ∧ (respond k msg out).1.succeeds then some now else none)

namespace SetupAges

variable {ref : SessionRef} {now : GoTime} {reply : Reply}

theorem failed {out : EStateM.Result Stop (Server B) Reply}
    (hfails : (respond k msg out).1.succeeds = false) (h : Ages s (stateOf out) r none) :
    SetupAges k msg s r ref now out := by
  simp only [SetupAges, hfails, Bool.false_eq_true, and_false, if_false]
  exact h

theorem refused {st : NTStatus} (hstatus : st ≠ .success) (h : Ages s s' r none) :
    SetupAges k msg s r ref now (.error (.status st) s') :=
  failed (by simp [respond, Outcome.succeeds, buildResponse_status, NTStatus.code_eq_success,
    hstatus]) h

theorem pending (hstatus : reply.status ≠ .success) (h : Ages s s' r none) :
    SetupAges k msg s r ref now (.ok reply s') :=
  failed (by simp [respond, Outcome.succeeds, buildResponse_status, NTStatus.code_eq_success,
    hstatus]) h

theorem established (hstatus : reply.status = .success)
    (h : Ages s s' r (if ref = r then some now else none)) :
    SetupAges k msg s r ref now (.ok reply s') := by
  have hsucceeds : (respond k msg (.ok reply s')).1.succeeds = true := by
    simp only [respond, Outcome.succeeds, buildResponse_status, hstatus, decide_true]
  simp only [SetupAges, hsucceeds, and_true]
  exact h

end SetupAges

theorem Ages.destroySession (h : Ages s s' r none) (id : UInt64) :
    Ages s { s' with sessions := s'.sessions.destroySession id } r none := by
  have hheap := SessionManager.destroySession_heap s'.sessions id
  exact h.of_same (by rw [hheap]) (by rw [hheap])

/-- `SetValid` renews its session and leaves the others alone. -/
theorem Ages.setValid {ref : SessionRef} (h : Ages s s' r none) (hlt : ref < s'.sessions.nextRef)
    (username domain : Str) (isGuest : Bool) (key : Option Bytes) (now : GoTime) :
    Ages s (s'.modifySession ref fun session => session.setValid username domain isGuest key now) r
      (if ref = r then some now else none) := by
  have hheap := s'.heap_modifySession ref r fun session =>
    session.setValid username domain isGuest key now
  by_cases hr : ref = r
  · subst hr
    rw [if_pos rfl] at hheap ⊢
    exact .renewed hlt (by rw [hheap]; rfl) (by rw [hheap]; rfl)
  · rw [if_neg (Ne.symm hr)] at hheap
    rw [if_neg hr]
    exact h.of_same (by rw [hheap]) (by rw [hheap])

theorem handleSessionSetup_ages (P : Platform) (k : ConnId) (msg : SMB2Message) (o : Oracle)
    (hwf : s.sessions.WF) (r : SessionRef) :
    SetupAges k msg s r (setupRef s msg) o.now (handleSessionSetup P k msg o s) := by
  have hend := handleSessionSetup_end P k msg o s
  generalize handleSessionSetup P k msg o s = out at hend ⊢
  cases hend with
  | malformed => exact .refused (by simp) (.of_heap rfl)
  | crash => exact .failed rfl withSession_ages
  | @refused _ a =>
    refine .refused (by simp) ?_
    unfold refusedServer
    split
    · exact (asked_ages a).destroySession _
    · exact asked_ages a
  | @challenged _ a => exact .pending (by simp) (asked_ages a)
  | @established _ a =>
    exact .established rfl
      ((Ages.setValid (asked_ages a) (setupRef_lt hwf) _ _ _ _ _).congr rfl rfl)

/-! ## Events -/

theorem message_ages (P : Platform) (k : ConnId) (msg : SMB2Message) (o : Oracle) (hwf : Tables s)
    (r : SessionRef) :
    Ages s (processMessage P k msg o s).2 r
      (if msg.cmd = .sessionSetup ∧ setupRef s msg = r ∧ succeeds P k msg o s then some o.now
        else none) := by
  obtain ⟨c, houtcome, hsessions⟩ := processMessage_sessions P k msg o s
  rw [succeeds, houtcome]
  by_cases hcmd : msg.cmd = .sessionSetup
  · rw [handleMessage_sessionSetup hcmd] at hsessions ⊢
    rw [respond_state] at hsessions
    have hsetup : SetupAges k msg (s.setConn k c) r _ o.now
        (handleSessionSetup P k msg o (s.setConn k c)) :=
      handleSessionSetup_ages P k msg o (hwf.setConn k c).sessions r
    simp only [hcmd, true_and]
    exact Ages.congr hsetup rfl hsessions
  · rw [if_neg fun hand => hcmd hand.1]
    exact (handleMessage_ages (hwf.setConn k c) hcmd).congr rfl hsessions

/-- **Ageing.** Only a successful SESSION_SETUP renews a session. -/
theorem step_ages (hwf : Tables sys.server) (e : Event) (r : SessionRef) :
    Ages sys.server (sys.step P e).server r (renewal P r sys e) := by
  cases hcr : sys.crashed with
  | true =>
    have hnone : renewal P r sys e = none := by cases e <;> simp [renewal, hcr]
    rw [hnone, step_crashed hcr]
    exact .of_heap rfl
  | false =>
    rw [step_react hcr]
    cases e with
    | message k msg o =>
      rw [react_message]
      have hages := message_ages P k msg o hwf r
      simpa [renewal, hcr, and_assoc] using hages
    | connect k addr => exact .of_heap rfl
    | addShare fs options => exact .of_heap (by rw [System.react, addShare_sessions])
    | removeShare name => exact .of_heap rfl
    | cleanup now =>
      refine .of_heap ?_
      rw [System.react, cleanupTick_sessions, SessionManager.cleanupExpired_heap]

theorem Change.nextRef_le (hc : Change P k msg o s t t') :
    t.sessions.nextRef ≤ t'.sessions.nextRef := by
  cases hc with
  | createSession => exact Nat.le_succ _
  | destroyNew | logoff => exact Nat.le_of_eq (SessionManager.destroySession_nextRef _ _).symm
  | _ => exact Nat.le_refl _

theorem step_nextRef_le (hwf : Tables sys.server) (e : Event) :
    sys.server.sessions.nextRef ≤ (sys.step P e).server.sessions.nextRef := by
  refine step_keeps (I := fun t : Server B => sys.server.sessions.nextRef ≤ t.sessions.nextRef)
    (fun _ _ _ h => h) ?_ ?_ (fun _ _ h => h) ?_ (Nat.le_refl _)
  · intro k msg o c _ _ h
    exact chain_invariant (I := fun t : Server B => sys.server.sessions.nextRef ≤ t.sessions.nextRef)
      (handleMessage_chain (hwf.setConn k c).handles) (fun _ _ hc ht => ht.trans hc.nextRef_le) h
  · intro fs options h
    rw [addShare_sessions]
  · intro now h
    rw [cleanupTick_sessions]
    exact Nat.le_of_eq (SessionManager.foldl_destroySession _ _).2.1.symm

/-! ## Along a run -/

theorem renewal_time {e : Event} {now : GoTime} (h : renewal P r sys e = some now) :
    e.time? = some now := by
  cases e with
  | message k msg o =>
    simp only [renewal, Option.ite_none_right_eq_some] at h
    exact h.2
  | _ => cases h

theorem activity_valid {e : Event} {t : GoTime} (h : activity P r sys e = some t) :
    ∃ id, sys.server.sessions.validateSession id = some r := by
  cases e with
  | message k msg o =>
    simp only [activity, Option.ite_none_right_eq_some, Bool.and_eq_true, decide_eq_true_eq] at h
    exact ⟨_, h.1.1.2⟩
  | _ => cases h

/-- What was read off earlier events is not later than the last event. -/
theorem le_of_nonDecreasing {sys₀ : System B} {es : List Event} {e : Event} {t now : GoTime}
    (hclock : NonDecreasing (es ++ [e])) (ht : t ∈ collect (System.step P) (renewal P r) sys₀ es)
    (he : e.time? = some now) : t ≤ now := by
  have hmem : t ∈ es.filterMap Event.time? :=
    mem_filterMap_of_mem_collect (fun _ _ _ h => renewal_time h) ht
  rw [NonDecreasing, List.filterMap_append] at hclock
  refine (List.pairwise_append.mp hclock).2.2 t hmem now ?_
  simp [he]

/-- After the events: a valid session has its place in the heap, its last
activity is the latest time a SESSION_SETUP succeeded for it, and a session
that was active is valid. -/
structure Renewed (P : Platform) (sys₀ : System B) (es : List Event) (r : SessionRef) : Prop where
  lt_next : ((System.run P sys₀ es).server.sessions.heap r).state = .valid →
    r < (System.run P sys₀ es).server.sessions.nextRef
  mem : ((System.run P sys₀ es).server.sessions.heap r).state = .valid →
    ((System.run P sys₀ es).server.sessions.heap r).lastActivity ∈
      collect (System.step P) (renewal P r) sys₀ es
  latest : ((System.run P sys₀ es).server.sessions.heap r).state = .valid →
    ∀ t ∈ collect (System.step P) (renewal P r) sys₀ es,
      t ≤ ((System.run P sys₀ es).server.sessions.heap r).lastActivity
  valid : ∀ t ∈ collect (System.step P) (activity P r) sys₀ es,
    ((System.run P sys₀ es).server.sessions.heap r).state = .valid

namespace Renewed

variable {sys₀ : System B} {es : List Event} {e : Event}

/-- A session that was active before the last event or is active with it was valid before it. -/
theorem valid_before (h : Renewed P sys₀ es r) {t : GoTime}
    (ht : t ∈ collect (System.step P) (activity P r) sys₀ (es ++ [e])) :
    ((System.run P sys₀ es).server.sessions.heap r).state = .valid := by
  rw [collect_concat, List.mem_append] at ht
  rcases ht with hold | hnew
  · exact h.valid t hold
  · obtain ⟨id, hid⟩ := activity_valid (Option.mem_toList.mp hnew)
    exact (SessionManager.validateSession_eq_some.mp hid).2

theorem concat (h : Renewed P sys₀ es r) (hwf : Tables (System.run P sys₀ es).server)
    (hclock : NonDecreasing (es ++ [e])) : Renewed P sys₀ (es ++ [e]) r := by
  have hrun : System.run P sys₀ (es ++ [e]) = (System.run P sys₀ es).step P e :=
    runFrom_concat _ _ _
  have hnext := step_nextRef_le (P := P) hwf e
  have hages := step_ages (P := P) hwf e r
  have hcollect : collect (System.step P) (renewal P r) sys₀ (es ++ [e]) =
      collect (System.step P) (renewal P r) sys₀ es ++
        (renewal P r (System.run P sys₀ es) e).toList := collect_concat _ _ _ _
  have hvalid := fun t => h.valid_before (e := e) (t := t)
  generalize hx : renewal P r (System.run P sys₀ es) e = x at hages hcollect
  cases hages with
  | same hstate hactivity =>
    rw [Option.toList_none, List.append_nil] at hcollect
    constructor
    · rw [hrun, hstate]
      exact fun hv => (h.lt_next hv).trans_le hnext
    · rw [hrun, hstate, hactivity, hcollect]
      exact h.mem
    · rw [hrun, hstate, hactivity, hcollect]
      exact h.latest
    · intro t ht
      rw [hrun, hstate]
      exact hvalid t ht
  | created hnew hstate =>
    constructor
    · rw [hrun]
      exact fun hv => absurd hv hstate
    · rw [hrun]
      exact fun hv => absurd hv hstate
    · rw [hrun]
      exact fun hv => absurd hv hstate
    · intro t ht
      have hlt := h.lt_next (hvalid t ht)
      exact absurd hnew (Nat.ne_of_lt hlt)
  | renewed hlt hstate hactivity =>
    constructor
    · rw [hrun]
      exact fun _ => hlt
    · rw [hrun, hactivity, hcollect]
      exact fun _ => by simp
    · rw [hrun, hactivity, hcollect]
      intro _ t ht
      rcases List.mem_append.mp ht with hold | hlast
      · exact le_of_nonDecreasing hclock hold (renewal_time hx)
      · rw [Option.toList_some, List.mem_singleton] at hlast
        exact Int.le_of_eq hlast
    · rw [hrun]
      exact fun _ _ => hstate

theorem run (options : ServerOptions) (rand : Bytes) (disks : FsRef → B.Disk)
    (hclock : NonDecreasing es) (r : SessionRef) :
    Renewed P (.initial options rand disks) es r := by
  induction es using List.reverseRecOn with
  | nil =>
    have hstate : ((newServer (B := B) options rand disks).sessions.heap r).state ≠ .valid := by
      simp [newServer, newSessionManager, Session.new]
    exact ⟨fun h => absurd h hstate, fun h => absurd h hstate, fun h => absurd h hstate,
      fun _ ht => by cases ht⟩
  | append_singleton es e ih =>
    exact (ih hclock.init).concat (.run options rand disks es) hclock

end Renewed

/-! ## The tick -/

/-- The table before and after a tick. -/
theorem mem_expired {now : GoTime} {id : UInt64} (hlookup : s.sessions.sessions.lookup id = some r) :
    id ∈ (s.sessions.expired now).map Prod.fst ↔
      (s.sessions.heap r).lastActivity < now - s.sessions.idleLimit := by
  constructor
  · intro hmem
    obtain ⟨⟨id', r'⟩, he, rfl⟩ := List.mem_map.mp hmem
    obtain ⟨hpair, hold⟩ := List.mem_filter.mp he
    cases (GoMap.mem_pairs.mp hpair).symm.trans hlookup
    exact of_decide_eq_true hold
  · intro hold
    exact List.mem_map.mpr ⟨(id, r), List.mem_filter.mpr
      ⟨GoMap.mem_pairs.mpr hlookup, decide_eq_true hold⟩, rfl⟩

theorem expiredIDs_eq (hwf : Tables s) (now : GoTime) :
    expiredIDs s now = (s.sessions.expired now).map Prod.fst := by
  refine List.map_congr_left fun e he => ?_
  exact hwf.sessions.id_eq e.1 e.2 (GoMap.mem_pairs.mp (List.mem_filter.mp he).1)

/-- From `s` to `s'` the session stays in the table and keeps its handles. -/
structure SessionKept (s s' : Server B) (id : UInt64) (r : SessionRef) : Prop where
  session : s'.sessions.sessions.lookup id = some r
  handles : ∀ sh h of, (s.handlesOf sh).view h = some of → of.sessionID = id →
    (s'.handlesOf sh).view h = some of

theorem sessionKept_iff (hwf : Tables s) (now : GoTime) {id : UInt64}
    (hlookup : s.sessions.sessions.lookup id = some r) :
    SessionKept s (stateOf (cleanupTick now s)) id r ↔
      now - s.sessions.idleLimit ≤ (s.sessions.heap r).lastActivity := by
  have hmem : id ∈ (s.sessions.expired now).map Prod.fst ↔ _ := mem_expired hlookup
  constructor
  · intro hkept
    have hafter := hkept.session
    rw [cleanupTick_sessions, SessionManager.cleanupExpired_lookup] at hafter
    by_contra hold
    rw [if_pos (hmem.mpr (Int.not_le.mp hold))] at hafter
    cases hafter
  · intro hrecent
    have hnot : id ∉ (s.sessions.expired now).map Prod.fst :=
      fun hin => Int.not_lt.mpr hrecent (hmem.mp hin)
    constructor
    · rw [cleanupTick_sessions, SessionManager.cleanupExpired_lookup, if_neg hnot, hlookup]
    · intro sh h of hview hid
      rw [cleanupTick_view, hview, expiredIDs_eq hwf, Option.filter_some]
      simp [hid, hnot]

/-! ## Active sessions -/

/-- The session at `r` is in the table under `id`, and a request that named it
succeeded not longer ago than the idle limit. -/
def ActiveAt (P : Platform) (sys₀ : System B) (es : List Event) (now : GoTime) (id : UInt64)
    (r : SessionRef) : Prop :=
  (System.run P sys₀ es).server.sessions.sessions.lookup id = some r ∧
    ∃ t ∈ collect (System.step P) (activity P r) sys₀ es,
      t ≤ now ∧ now ≤ t + (System.run P sys₀ es).server.sessions.idleLimit

/-- A tick at `now` after the events removes no active session and releases none of its handles. -/
def KeepsActive (P : Platform) (sys₀ : System B) (es : List Event) (now : GoTime) : Prop :=
  ∀ id r, ActiveAt P sys₀ es now id r →
    SessionKept (System.run P sys₀ es).server
      ((System.run P sys₀ es).step P (.cleanup now)).server id r

/-- A SESSION_SETUP succeeded for every active session within the idle limit. -/
def RenewsActive (P : Platform) (sys₀ : System B) (es : List Event) (now : GoTime) : Prop :=
  (System.run P sys₀ es).crashed = false → ∀ id r, ActiveAt P sys₀ es now id r →
    ∃ t ∈ collect (System.step P) (renewal P r) sys₀ es,
      now - (System.run P sys₀ es).server.sessions.idleLimit ≤ t

/-- **Expiry.** After every run with a clock that does not go back and fewer than 2^64
allocations per share, a tick keeps the active sessions and their handles exactly if a
SESSION_SETUP succeeded for each of them within the idle limit before the tick. -/
theorem active_kept_iff (options : ServerOptions) (rand : Bytes) (disks : FsRef → B.Disk)
    (es : List Event) (now : GoTime) (hclock : NonDecreasing (es ++ [.cleanup now])) :
    KeepsActive P (.initial options rand disks) es now ↔
      RenewsActive P (.initial options rand disks) es now := by
  let sys := System.run P (.initial options rand disks) es
  cases hcr : sys.crashed with
  | true =>
    refine iff_of_true (fun id r hactive => ?_) fun hrunning => ?_
    · rw [step_crashed hcr]
      exact ⟨hactive.1, fun _ _ _ hview _ => hview⟩
    · cases hcr.symm.trans hrunning
  | false =>
    have hwf : Tables sys.server := .run options rand disks es
    have hserver : (sys.step P (.cleanup now)).server = stateOf (cleanupTick now sys.server) := by
      rw [step_react hcr]
      rfl
    -- an active session is valid, so its last activity is its last SESSION_SETUP
    have hsession : ∀ id r, ActiveAt P (.initial options rand disks) es now id r →
        (SessionKept sys.server (sys.step P (.cleanup now)).server id r ↔
          ∃ t ∈ collect (System.step P) (renewal P r) (.initial options rand disks) es,
            now - sys.server.sessions.idleLimit ≤ t) := by
      rintro id r ⟨hlookup, t, ht, -⟩
      have hrenewed : Renewed P (.initial options rand disks) es r :=
        .run options rand disks hclock.init r
      have hvalid := hrenewed.valid t ht
      rw [hserver, sessionKept_iff hwf now hlookup]
      constructor
      · intro hrecent
        exact ⟨_, hrenewed.mem hvalid, hrecent⟩
      · rintro ⟨t', ht', hrecent⟩
        exact Int.le_trans hrecent (hrenewed.latest hvalid t' ht')
    constructor
    · intro hkeeps _ id r hactive
      exact (hsession id r hactive).mp (hkeeps id r hactive)
    · intro hrenews id r hactive
      exact (hsession id r hactive).mpr (hrenews hcr id r hactive)

/-- A guest logs in, and one nanosecond later a tick comes. -/
theorem active_kept_login : KeepsActive samplePlatform sampleSystem (sampleLogin false) 1 := by
  refine (active_kept_iff _ _ _ _ 1 (by decide)).mpr ?_
  rintro - id r ⟨hlookup, -⟩
  have htables : Tables (guestSystem false).server := .run _ _ _ _
  have hlt := htables.sessions.lt_next id r hlookup
  have hone : (guestSystem false).server.sessions.nextRef = 1 := by decide +kernel
  obtain rfl := Nat.lt_one_iff.mp (hlt.trans_eq hone)
  exact ⟨0, by decide +kernel, by decide +kernel⟩

/-- A request at a later time. -/
def sentAt (now : GoTime) (msg : SMB2Message) : Event := .message 0 msg { sampleOracle with now := now }

/-- A guest logs in at time 0, opens a file as the idle limit is reached, and
loses the session and the handle to a tick one nanosecond later. -/
def busyGuest : List Event :=
  sampleLogin false ++ [sentAt fifteenMinutes (createRequest 7 1 ['f'] 1 7 1 0)]

theorem busy_session_expired :
    NonDecreasing (busyGuest ++ [.cleanup (fifteenMinutes + 1)]) ∧
      ¬ KeepsActive samplePlatform sampleSystem busyGuest (fifteenMinutes + 1) := by
  refine ⟨by decide, fun hkeeps => ?_⟩
  have hkept := hkeeps 7 0 ⟨by decide +kernel, fifteenMinutes, by decide +kernel, by decide,
    by decide +kernel⟩
  have hgone : ((System.run samplePlatform sampleSystem busyGuest).step samplePlatform
      (.cleanup (fifteenMinutes + 1))).server.sessions.sessions.lookup 7 = none := by
    decide +kernel
  cases hgone.symm.trans hkept.session

end Smbfs
