import Smbfs.Pool.Accounting

/-!
When a call of `get` waits although the pool has room.

* `Full`: no connection is idle and numOpen is at its limit;
* `sweep_busy`, `busy_of_sweep`: the sweep of a pool without idle connections
  changes nothing, and a sweep that drops and returns nothing saw none;
* `Served`: the invariant, blocked calls are in the queue, on a full pool;
* `waits_when_full_iff`: calls are blocked only while the pool is full, exactly
  in the runs where no creation fails while a call is blocked;
* `failed_creation_wakes_nobody`: the shortest run where one does.
-/

namespace Smbfs.Pool

open Smbfs.Lib

/-! ## Blocked calls -/

/-- The call is in the `select` of `get` and nothing was delivered to it. -/
def Call.Blocked (call : Call) : Prop := call.phase = .waiting ∧ call.buffer = none

def Blocked (calls : List Call) (k : CallId) : Prop :=
  ∃ call, calls[k]? = some call ∧ call.Blocked

/-- No capacity is free. -/
def Full (p : ConnectionPool) : Prop :=
  (∀ c ∈ p.connections, (p.conn c).inUse = true) ∧ p.numOpen = p.config.maxOpen

/-- Nobody waits while capacity is free. -/
def WaitsWhenFull (s : System) : Prop := (∃ k, Blocked s.calls k) → Full s.pool

/-- No creation fails while a call is blocked. -/
def NoFailureWhileBlocked (s : System) : PoolOp → Prop
  | .createFailed k => s.locked = false →
      (∃ call, s.calls[k]? = some call ∧ call.phase = .creating) → ¬ ∃ j, Blocked s.calls j
  | _ => True

theorem Call.not_blocked {call : Call} (h : call.phase ≠ .waiting) : ¬ call.Blocked :=
  fun hb => h hb.1

theorem blocked_append_iff {calls : List Call} {new : Call} (h : ¬ new.Blocked) {k : CallId} :
    Blocked (calls ++ [new]) k ↔ Blocked calls k := by
  unfold Blocked
  rw [call_append]
  exact or_iff_left fun hk => h hk.2

theorem blocked_set_iff {calls : List Call} {k j : CallId} {old call : Call}
    (hk : calls[k]? = some old) (h : ¬ call.Blocked) :
    Blocked (calls.set k call) j ↔ j ≠ k ∧ Blocked calls j := by
  unfold Blocked
  rw [call_set hk]
  exact or_iff_right fun hj => h hj.2

/-! ## The sweep -/

variable (clock : Clock) (p q : ConnectionPool) (k i : Nat) (w : Window ConnRef) {config : Config}
  {s : System}

theorem sweepFrom_busy (p : ConnectionPool) (k i : Nat) (w : Window ConnRef)
    (h : ∀ c ∈ w.cells, (p.conn c).inUse = true) :
    sweepFrom clock k i p w = .exhausted { p with connections := w.live } := by
  induction k generalizing i with
  | zero => rfl
  | succ k ih =>
    unfold sweepFrom
    cases hc : w.cells[i]? with
    | none => rfl
    | some c =>
      simp only [h c (List.mem_of_getElem? hc), if_true]
      exact ih (i + 1)

/-- Without idle connections the sweep changes nothing. -/
theorem sweep_busy (p : ConnectionPool) (h : ∀ c ∈ p.connections, (p.conn c).inUse = true) :
    sweep clock p = .exhausted p := by
  unfold sweep
  rw [sweepFrom_busy clock p _ 0 _ (by simpa using h), Window.ofList_live]

/-- A round of a sweep that runs to its end: the loop goes on behind a busy
connection, or with one connection less. -/
theorem sweepFrom_round {clock : Clock} {p q : ConnectionPool} {k i : Nat} {w : Window ConnRef}
    {c : ConnRef} (hc : w.cells[i]? = some c) (h : sweepFrom clock (k + 1) i p w = .exhausted q) :
    (p.conn c).inUse = true ∧ sweepFrom clock k (i + 1) p w = .exhausted q ∨
      ∃ p' w', p'.numOpen < p.numOpen ∧ sweepFrom clock k (i + 1) p' w' = .exhausted q := by
  unfold sweepFrom at h
  simp only [hc] at h
  split at h
  · next hbusy => exact .inl ⟨hbusy, h⟩
  · split at h
    · cases h
    · cases hw : w.removeAt i with
      | none =>
        rw [hw] at h
        cases h
      | some w' =>
        rw [hw] at h
        exact .inr ⟨_, w', Int.sub_one_lt_of_le (Int.le_refl _), h⟩

/-- The sweep only lowers the count. -/
theorem sweepFrom_numOpen_le (h : sweepFrom clock k i p w = .exhausted q) :
    q.numOpen ≤ p.numOpen := by
  induction k generalizing i p w with
  | zero =>
    cases h
    exact Int.le_refl _
  | succ k ih =>
    cases hc : w.cells[i]? with
    | none =>
      unfold sweepFrom at h
      rw [hc] at h
      cases h
      exact Int.le_refl _
    | some c =>
      rcases sweepFrom_round hc h with ⟨-, hrest⟩ | ⟨p', w', hlt, hrest⟩
      · exact ih p (i + 1) w hrest
      · exact Int.le_trans (ih p' (i + 1) w' hrest) (Int.le_of_lt hlt)

theorem sweepFrom_saw_busy (h : sweepFrom clock k i p w = .exhausted q)
    (hsame : p.numOpen ≤ q.numOpen) :
    ∀ j, i ≤ j → j < i + k → ∀ c, w.cells[j]? = some c → (p.conn c).inUse = true := by
  induction k generalizing i with
  | zero =>
    intro j hij hj
    omega
  | succ k ih =>
    intro j hij hj c hc
    -- cells before `j` are present, so the loop gets to `j`
    have hi : i < w.cells.length := by
      have := (List.getElem?_eq_some_iff.mp hc).1
      omega
    rcases sweepFrom_round (List.getElem?_eq_getElem hi) h with ⟨hbusy, hrest⟩ | ⟨p', w', hlt, hrest⟩
    · by_cases hji : j = i
      · subst hji
        rw [List.getElem?_eq_getElem hi] at hc
        cases hc
        exact hbusy
      · exact ih (i + 1) hrest j (by omega) (by omega) c hc
    · have hle := sweepFrom_numOpen_le clock p' q k (i + 1) w' hrest
      omega

/-- A sweep that ran to its end and dropped nothing saw no idle connection. -/
theorem busy_of_sweep (h : sweep clock p = .exhausted q) (hsame : p.numOpen ≤ q.numOpen) :
    ∀ c ∈ p.connections, (p.conn c).inUse = true := by
  intro c hc
  obtain ⟨j, hj⟩ := List.getElem?_of_mem hc
  have hlt : j < p.connections.length := (List.getElem?_eq_some_iff.mp hj).1
  exact sweepFrom_saw_busy clock p q _ 0 _ h hsame j (Nat.zero_le j) (by omega) c hj

/-! ## The invariant -/

/-- Blocked calls are in the queue, on a full pool. -/
structure Served (s : System) : Prop where
  full : WaitsWhenFull s
  queued : ∀ k, Blocked s.calls k → k ∈ s.pool.waiters

theorem served_of_none (h : ∀ k, ¬ Blocked s.calls k) : Served s :=
  ⟨fun ⟨k, hk⟩ => absurd hk (h k), fun k hk => absurd hk (h k)⟩

structure WaitInv (config : Config) (s : System) : Prop extends Served s where
  run : RunInv config s

/-- When the sweep drops nothing and finds nothing, and no connection may be
created, the pool is full. -/
theorem full_of_sweep {clock : Clock} {p q : ConnectionPool} {out : List ConnRef}
    (hsw : Swept clock p q out) (hw : sweep clock p = .exhausted q)
    (hle : p.numOpen ≤ p.config.maxOpen) (hno : q.config.maxOpen ≤ q.numOpen) : Full q := by
  have hconfig : q.config = p.config := by rw [hsw.same]
  have hconn : q.conn = p.conn := by rw [hsw.same]
  have hq : q.numOpen ≤ p.numOpen := sweepFrom_numOpen_le clock p q _ 0 _ hw
  rw [hconfig] at hno
  have hbusy := busy_of_sweep clock p q hw (by omega)
  refine ⟨?_, ?_⟩
  · intro c hc
    rw [hconn]
    exact hbusy c (hsw.perm.mem_iff.mpr (List.mem_append_left _ hc))
  · rw [hconfig]
    omega

/-- A sweep of a full pool leaves it full, and creates nothing. -/
theorem Full.sweep {clock : Clock} (h : Full s.pool) (hopen : s.pool.closed = false) :
    s.get clock =
      { s with
        pool := { s.pool with waiters := s.pool.waiters ++ [s.calls.length] }
        calls := s.calls ++ [.start .waiting] } := by
  unfold System.get
  rw [sweep_busy clock s.pool h.1]
  simp only [hopen, Bool.false_eq_true, if_false]
  rw [if_neg (Int.not_lt.mpr (Int.le_of_eq h.2.symm))]

section Steps

variable (h : WaitInv config s)

include h

theorem WaitInv.get (clock : Clock) : Served (s.get clock) := by
  have hqueue : ∀ (q : ConnectionPool) k, q.waiters = s.pool.waiters →
      Blocked (s.calls ++ [.start .waiting]) k → k ∈ q.waiters ++ [s.calls.length] := by
    intro q k hq hk
    rcases call_append.mp hk with hk | ⟨rfl, _⟩
    · exact List.mem_append_left _ (hq ▸ h.queued k hk)
    · simp
  by_cases hb : ∃ k, Blocked s.calls k
  · -- somebody waits already, so the pool is full and the new call waits too
    rw [(h.full hb).sweep h.run.not_closed]
    exact ⟨fun _ => h.full hb, fun k hk => hqueue s.pool k rfl hk⟩
  · have hnone : ∀ {ph : Phase}, ph ≠ .waiting → ∀ k, ¬ Blocked (s.calls ++ [.start ph]) k := by
      intro ph hph k hk
      exact hb ⟨k, (blocked_append_iff (Call.not_blocked hph)).mp hk⟩
    have hr := get_result s clock
    generalize s.get clock = t at hr ⊢
    cases hr with
    | closed | found | panicked | creating => exact served_of_none (hnone (by simp))
    | @waiting q out _ hsw hw hno =>
      have hfull := full_of_sweep hsw hw h.run.accounted.numOpen_le hno
      exact ⟨fun _ => hfull, fun k hk => hqueue q k (by rw [hsw.same]) hk⟩

/-- One call changes, and does not wait any more; the pool keeps its capacity,
and the queue loses at most that call. -/
theorem WaitInv.setCall {t : System} {k : CallId} {old call : Call}
    (hk : s.calls[k]? = some old) (hcalls : t.calls = s.calls.set k call) (hcall : ¬ call.Blocked)
    (hfull : Full s.pool → Full t.pool)
    (hqueue : ∀ j, j ≠ k → j ∈ s.pool.waiters → j ∈ t.pool.waiters) : Served t := by
  have hblocked : ∀ j, Blocked t.calls j → j ≠ k ∧ Blocked s.calls j := by
    intro j hj
    rw [hcalls] at hj
    exact (blocked_set_iff hk hcall).mp hj
  refine ⟨?_, ?_⟩
  · rintro ⟨j, hj⟩
    exact hfull (h.full ⟨j, (hblocked j hj).2⟩)
  · intro j hj
    exact hqueue j (hblocked j hj).1 (h.queued j (hblocked j hj).2)

omit h in
/-- A connection that is given out keeps the pool full. -/
theorem Full.give {c : ConnRef} {v : PooledConn} (hv : v.inUse = true)
    {conns : List ConnRef} (hfull : Full s.pool)
    (hconns : ∀ d ∈ conns, d ≠ c → d ∈ s.pool.connections) :
    ∀ d ∈ conns, ((s.pool.setConn c v).conn d).inUse = true := by
  intro d hd
  by_cases hdc : d = c
  · subst hdc
    simpa using hv
  · simpa [s.pool.setConn_conn_ne _ _ hdc] using hfull.1 d (hconns d hd hdc)

/-- `put` hands the connection to the head of the queue, or nobody is blocked. -/
theorem WaitInv.put {t : System} {k : CallId} {c : ConnRef} {b : Option ConnRef} {cl : Bool}
    (hk : s.calls[k]? = some ⟨.holding c, b, cl⟩) (now : Int)
    (hpool : t.pool = (System.putOpen s.pool (s.calls.set k ⟨.over, b, cl⟩) c now).1)
    (hcalls : t.calls = (System.putOpen s.pool (s.calls.set k ⟨.over, b, cl⟩) c now).2) :
    Served t := by
  have hblocked : ∀ j, Blocked (s.calls.set k ⟨.over, b, cl⟩) j → Blocked s.calls j :=
    fun j hj => ((blocked_set_iff hk (Call.not_blocked (by simp))).mp hj).2
  cases hw : s.pool.waiters with
  | nil =>
    have hno : ∀ j, ¬ Blocked (s.calls.set k ⟨.over, b, cl⟩) j := by
      intro j hj
      have := h.queued j (hblocked j hj)
      rw [hw] at this
      cases this
    refine served_of_none ?_
    simp only [hcalls, System.putOpen, hw]
    split <;> exact hno
  | cons w ws =>
    simp only [System.putOpen, hw] at hpool hcalls
    obtain ⟨call, hcall, _⟩ := h.run.accounted.queue w (by simp [hw])
    obtain ⟨call', hcall'⟩ : ∃ call', (s.calls.set k ⟨.over, b, cl⟩)[w]? = some call' := by
      refine ⟨_, List.getElem?_eq_getElem ?_⟩
      rw [List.length_set]
      exact (List.getElem?_eq_some_iff.mp hcall).1
    have hleft : ∀ j, Blocked t.calls j → j ≠ w ∧ Blocked s.calls j := by
      intro j hj
      rw [hcalls, send_eq_set hcall'] at hj
      obtain ⟨hjw, hj⟩ := (blocked_set_iff hcall' (by simp [Call.Blocked])).mp hj
      exact ⟨hjw, hblocked j hj⟩
    refine ⟨?_, fun j hj => ?_⟩
    · rintro ⟨j, hj⟩
      have hfull := h.full ⟨j, (hleft j hj).2⟩
      rw [hpool]
      exact ⟨hfull.give rfl fun _ hd _ => hd, hfull.2⟩
    · have hmem := h.queued j (hleft j hj).2
      rw [hw] at hmem
      rw [hpool]
      exact (List.mem_cons.mp hmem).resolve_left (hleft j hj).1

theorem step_waitInv {op : PoolOp} (hop : NoFailureWhileBlocked s op) :
    WaitInv config (s.step op) := by
  refine ⟨?_, step_runInv config s op h.run⟩
  have hr := step_result s op
  generalize s.step op = t at hr ⊢
  cases hr with
  | none => exact h.toServed
  | get => exact h.get _
  | created hk =>
    refine h.setCall hk rfl (Call.not_blocked (by simp)) (fun hfull => ?_) fun _ _ hj => hj
    refine ⟨hfull.give rfl fun d hd hne => ?_, hfull.2⟩
    exact (List.mem_append.mp hd).resolve_right fun hnew => hne (List.mem_singleton.mp hnew)
  | createFailed hfree hk =>
    refine served_of_none fun j hj => hop hfree ⟨_, hk, rfl⟩ ⟨j, ?_⟩
    exact ((blocked_set_iff hk (Call.not_blocked (by simp))).mp hj).2
  | received hk | woken hk | timeout hk =>
    exact h.setCall hk rfl (Call.not_blocked (by simp)) id fun _ _ hj => hj
  | cancel _ hk =>
    exact h.setCall hk rfl (Call.not_blocked (by simp)) id
      fun j hjk hj => (List.mem_erase_of_ne hjk).mpr hj
  | putClosed _ hclosed => cases hclosed.symm.trans h.run.not_closed
  | put _ hk _ => exact h.put hk _ rfl rfl
  | @cleanup now _ =>
    refine ⟨fun hb => ?_, h.queued⟩
    obtain ⟨hbusy, hnum⟩ := h.full hb
    -- no connection is idle, so none has expired
    have hout : s.pool.connections.filter (System.expired s.pool now) = [] := by
      rw [List.filter_eq_nil_iff]
      intro c hc
      simp [System.expired, hbusy c hc]
    refine ⟨fun c hc => hbusy c (List.mem_filter.mp hc).1, ?_⟩
    simp only [hout, List.length_nil, hnum]
    omega

end Steps

/-- A creation that fails while a call is blocked frees capacity the blocked
call is not told about. -/
theorem step_failure_while_blocked {op : PoolOp} (h : WaitInv config s)
    (hop : ¬ NoFailureWhileBlocked s op) : ¬ WaitsWhenFull (s.step op) := by
  cases op with
  | createFailed k =>
    simp only [NoFailureWhileBlocked, Classical.not_imp, not_not] at hop
    obtain ⟨hfree, ⟨⟨ph, b, cl⟩, hk, hph⟩, j, hj⟩ := hop
    cases hph
    obtain ⟨_, hnum⟩ := h.full ⟨j, hj⟩
    have hjk : j ≠ k := by
      rintro rfl
      obtain ⟨call, hcall, hph, _⟩ := hj
      rw [hk] at hcall
      cases hcall
      cases hph
    intro hfull
    simp only [System.step, hfree, Bool.false_and, Bool.false_eq_true, if_false,
      System.createFailed, hk] at hfull
    have hafter := (hfull ⟨j, (blocked_set_iff hk (Call.not_blocked (by simp))).mpr ⟨hjk, hj⟩⟩).2
    simp only at hafter
    omega
  | _ => exact absurd trivial hop

theorem init_waitInv {p : ConnectionPool} (h : newConnectionPool config = some p) :
    WaitInv config (.init p) :=
  have hnone : ∀ k, ¬ Blocked (System.init p).calls k := by
    rintro k ⟨call, hk, _⟩
    cases hk
  ⟨served_of_none hnone, init_runInv h⟩

/-- **Nobody waits while capacity is free, exactly in the runs where no
creation fails while a call is blocked.** -/
theorem waits_when_full_iff (config : Config) (p : ConnectionPool)
    (h : newConnectionPool config = some p) (ops : List PoolOp) :
    Always System.step WaitsWhenFull (System.init p) ops ↔
      Along System.step NoFailureWhileBlocked (System.init p) ops :=
  always_iff_along (I := WaitInv config) (fun _ _ hs => step_waitInv hs) (fun _ h => h.full)
    (fun _ _ => step_failure_while_blocked) (init_waitInv h)

/-- A creation fails before anybody waits; then one connection serves two callers. -/
theorem waits_when_full_hand_over :
    let config : Config := ⟨1, 1, 10⟩
    let ops : List PoolOp :=
      [.get (.stopped 0), .createFailed 0, .get (.stopped 0), .created 1 0 0, .get (.stopped 0),
        .put 1 1, .receive 2, .put 2 2]
    newConnectionPool config = some (.empty config) ∧
    Always System.step WaitsWhenFull (System.init (.empty config)) ops := by
  refine ⟨rfl, (waits_when_full_iff ⟨1, 1, 10⟩ _ rfl _).mpr ?_⟩
  refine ⟨trivial, ?_, trivial, trivial, trivial, trivial, trivial, trivial, trivial⟩
  rintro _ _ ⟨j, call, hj, hph, _⟩
  have hcall : call ∈ [Call.start .creating] := List.mem_of_getElem? hj
  rw [List.mem_singleton.mp hcall] at hph
  cases hph

/-- Two calls of `get` on a pool of one; the creation of the first fails, and
the second stays blocked on an empty pool. -/
theorem failed_creation_wakes_nobody :
    let config : Config := ⟨1, 1, 10⟩
    let s := runFrom System.step (System.init (.empty config))
      [.get (.stopped 0), .get (.stopped 0), .createFailed 0]
    newConnectionPool config = some (.empty config) ∧
    Blocked s.calls 1 ∧ s.pool.numOpen = 0 ∧ ¬ WaitsWhenFull s := by
  refine ⟨rfl, ⟨.start .waiting, rfl, rfl, rfl⟩, rfl, fun h => ?_⟩
  have hfull := (h ⟨1, .start .waiting, rfl, rfl, rfl⟩).2
  revert hfull
  decide

end Smbfs.Pool
