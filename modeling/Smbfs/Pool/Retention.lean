import Smbfs.Pool.NoLoss

/-!
How many idle connections the pool keeps.

`put` marks the connection idle before it counts the idle ones, so it counts
the connection itself.

* `putOpen_keepsIdle_iff`: the connection stays if the others and itself are fewer
  than `MaxIdle`;
* `step_idleBelow`: no step brings the idle connections up to `MaxIdle`;
* `retention_iff`: the count is the one `MaxIdle` asks for unless the
  connection would be the last one to fit, in every state of every run.
-/

namespace Smbfs.Pool

open Smbfs.Lib

namespace ConnectionPool

variable (p : ConnectionPool)

/-- The count that `put` makes. -/
def idleCount : Nat := p.connections.countP fun d => !(p.conn d).inUse

/-- The connections other than `c` that are idle. -/
def otherIdle (c : ConnRef) : Nat := p.connections.countP fun d => d != c && !(p.conn d).inUse

/-- The pool has `c` as an idle connection. -/
def KeepsIdle (c : ConnRef) : Prop := c ∈ p.connections ∧ (p.conn c).inUse = false

theorem otherIdle_eq_erase {c : ConnRef} (hnodup : p.connections.Nodup) (hc : c ∈ p.connections) :
    p.otherIdle c = (p.connections.erase c).countP fun d => !(p.conn d).inUse := by
  unfold otherIdle
  rw [(List.perm_cons_erase hc).countP_eq, List.countP_cons_of_neg (by simp)]
  refine List.countP_congr fun d hd => ?_
  have hne : d ≠ c := (hnodup.mem_erase_iff.mp hd).1
  simp [hne]

/-- Marking `c` idle adds it to the others. -/
theorem idleCount_setConn_idle {c : ConnRef} {v : PooledConn} (hnodup : p.connections.Nodup)
    (hc : c ∈ p.connections) (hv : v.inUse = false) :
    (p.setConn c v).idleCount = p.otherIdle c + 1 := by
  have hothers : (p.connections.erase c).countP (fun d => !((p.setConn c v).conn d).inUse) =
      (p.connections.erase c).countP fun d => !(p.conn d).inUse := by
    refine List.countP_congr fun d hd => ?_
    have hne : d ≠ c := (hnodup.mem_erase_iff.mp hd).1
    rw [p.setConn_conn_ne c v hne]
  rw [p.otherIdle_eq_erase hnodup hc, ← hothers, idleCount, setConn_connections,
    (List.perm_cons_erase hc).countP_eq, List.countP_cons_of_pos (by simp [hv])]

theorem otherIdle_le (c : ConnRef) : p.otherIdle c ≤ p.idleCount := by
  refine List.countP_mono_left fun d _ hd => ?_
  rw [Bool.and_eq_true] at hd
  exact hd.2

/-- Marking a connection used adds none to the idle ones. -/
theorem idleCount_setConn_used {c : ConnRef} {v : PooledConn} (hv : v.inUse = true) :
    (p.setConn c v).idleCount ≤ p.idleCount := by
  refine List.countP_mono_left fun d _ hd => ?_
  by_cases hdc : d = c
  · subst hdc
    simp [hv] at hd
  · rwa [p.setConn_conn_ne c v hdc] at hd

end ConnectionPool

theorem Swept.idleCount_le {clock : Clock} {p q : ConnectionPool} {out : List ConnRef}
    (h : Swept clock p q out) : q.idleCount ≤ p.idleCount := by
  have hconn : q.conn = p.conn := by rw [h.same]
  rw [ConnectionPool.idleCount, ConnectionPool.idleCount, hconn, h.perm.countP_eq,
    List.countP_append]
  exact Nat.le_add_right _ _

/-! ## `put` without waiters -/

section Put

variable {p : ConnectionPool} (calls : List Call) {c : ConnRef} (now : Int)
  (hwait : p.waiters = []) (hnodup : p.connections.Nodup) (hc : c ∈ p.connections)

include hwait hnodup hc

/-- The connection counts as one of the idle ones itself. -/
theorem putOpen_unwaited :
    (System.putOpen p calls c now).1 =
      let q := p.setConn c { p.conn c with inUse := false, lastUsed := now }
      if p.config.maxIdle ≤ p.otherIdle c + 1 then
        { q with
          numOpen := q.numOpen - 1
          connections := q.connections.erase c
          closing := q.closing ++ [c] }
      else q := by
  have hcount := p.idleCount_setConn_idle (v := { p.conn c with inUse := false, lastUsed := now })
    hnodup hc rfl
  unfold ConnectionPool.idleCount at hcount
  simp only [System.putOpen, hwait, hcount]
  by_cases hfull : p.config.maxIdle ≤ p.otherIdle c + 1
  · rw [if_pos (by simpa using hfull), if_pos hfull]
  · rw [if_neg (by simpa using hfull), if_neg hfull]

theorem putOpen_keepsIdle_iff :
    (System.putOpen p calls c now).1.KeepsIdle c ↔ p.otherIdle c + 1 < p.config.maxIdle := by
  rw [putOpen_unwaited calls now hwait hnodup hc]
  dsimp only
  split
  · next hfull => exact iff_of_false (fun h => hnodup.not_mem_erase h.1) (Int.not_lt.mpr hfull)
  · next hroom => exact iff_of_true ⟨hc, by rw [p.setConn_conn_self]⟩ (Int.not_le.mp hroom)

theorem putOpen_idleCount_lt (hbelow : p.idleCount < p.config.maxIdle) :
    (System.putOpen p calls c now).1.idleCount < p.config.maxIdle := by
  rw [putOpen_unwaited calls now hwait hnodup hc]
  dsimp only
  split
  · have hothers := p.otherIdle_le c
    refine Int.lt_of_le_of_lt (Int.ofNat_le.mpr (Nat.le_trans ?_ hothers)) hbelow
    rw [ConnectionPool.idleCount, p.otherIdle_eq_erase hnodup hc]
    refine List.countP_mono_left fun d hd hidle => ?_
    rwa [p.setConn_conn_ne c _ (hnodup.mem_erase_iff.mp hd).1] at hidle
  · rw [p.idleCount_setConn_idle hnodup hc rfl]
    omega

end Put

/-! ## The bound over runs -/

/-- There is room for one more idle connection. -/
def IdleBelow (s : System) : Prop := s.pool.idleCount < s.pool.config.maxIdle

theorem get_idleCount_le (s : System) (clock : Clock) :
    (s.get clock).pool.idleCount ≤ s.pool.idleCount := by
  have hr := get_result s clock
  generalize s.get clock = t at hr ⊢
  cases hr with
  | closed => exact Nat.le_refl _
  | found _ hsw => exact Nat.le_trans (ConnectionPool.idleCount_setConn_used _ rfl) hsw.idleCount_le
  | panicked _ hsw | creating _ hsw | waiting _ hsw => exact hsw.idleCount_le

theorem IdleBelow.putOpen {p : ConnectionPool} (h : p.idleCount < p.config.maxIdle)
    (hnodup : p.connections.Nodup) {c : ConnRef} (hc : c ∈ p.connections) (calls : List Call)
    (now : Int) : (System.putOpen p calls c now).1.idleCount < p.config.maxIdle := by
  cases hwait : p.waiters with
  | nil => exact putOpen_idleCount_lt _ now hwait hnodup hc h
  | cons w ws =>
    have hused := p.idleCount_setConn_used (c := c)
      (v := { p.conn c with inUse := true, lastUsed := now }) rfl
    simp only [System.putOpen, hwait]
    exact Int.lt_of_le_of_lt (Int.ofNat_le.mpr hused) h

/-- No step makes the idle connections as many as `MaxIdle`. -/
theorem step_idleBelow {config : Config} {s : System} (op : PoolOp) (h : IdleBelow s)
    (hrun : RunInv config s) : IdleBelow (s.step op) := by
  rw [IdleBelow, (step_sameSetup s op).1]
  -- every step but `put` leaves the number or lowers it
  have hle : ∀ t : System, t.pool.idleCount ≤ s.pool.idleCount →
      (t.pool.idleCount : Int) < s.pool.config.maxIdle :=
    fun t ht => Int.lt_of_le_of_lt (Int.ofNat_le.mpr ht) h
  have hr := step_result s op
  generalize s.step op = t at hr ⊢
  cases hr with
  | get => exact hle _ (get_idleCount_le s _)
  | @created k b cl createdAt lastUsed _ =>
    -- a new connection is in use
    have hused := s.pool.idleCount_setConn_used (c := s.pool.nextConn)
      (v := ⟨createdAt, lastUsed, true⟩) rfl
    refine hle _ ?_
    simpa [ConnectionPool.idleCount, List.countP_append] using hused
  | put _ hk _ =>
    exact IdleBelow.putOpen h hrun.accounted.nodup
      (hrun.accounted.live _ _ ⟨_, hk, Or.inl rfl⟩).1 _ _
  | cleanup => exact hle _ (List.Sublist.countP_le List.filter_sublist)
  | _ => exact h

theorem step_put_keepsIdle_iff {config : Config} {s : System} (hrun : RunInv config s)
    (hfree : s.locked = false) (hwait : s.pool.waiters = []) {k : CallId} {c : ConnRef}
    (hk : Holds s.calls k c) (now : Int) :
    (s.step (.put k now)).pool.KeepsIdle c ↔ s.pool.otherIdle c + 1 < config.maxIdle := by
  have hc : c ∈ s.pool.connections := (hrun.accounted.live k c hk.owns).1
  obtain ⟨⟨ph, b, cl⟩, hcall, hph⟩ := hk
  cases hph
  rw [step_put hfree, ← hrun.config_eq]
  simp only [System.put, hcall, hrun.not_closed, Bool.false_eq_true, ↓reduceIte]
  exact putOpen_keepsIdle_iff _ now hwait hrun.accounted.nodup hc

/-- **Retention.** In every state of every run a `put` with no waiters decides
as `MaxIdle` asks, exactly if the others are not one short of `MaxIdle`; and
the idle connections stay below `MaxIdle`, which they never reach. -/
theorem retention_iff (config : Config) (hidle : 1 ≤ config.maxIdle) (p : ConnectionPool)
    (h : newConnectionPool config = some p) (ops : List PoolOp) :
    let s := runFrom System.step (System.init p) ops
    (∀ k c now, s.locked = false → s.pool.waiters = [] → Holds s.calls k c →
      (((s.step (.put k now)).pool.KeepsIdle c ↔ s.pool.otherIdle c < config.maxIdle) ↔
        s.pool.otherIdle c + 1 ≠ config.maxIdle)) ∧
    s.pool.idleCount < config.maxIdle := by
  intro s
  have hinit : IdleBelow (System.init p) := by
    unfold newConnectionPool at h
    split at h
    · cases h
    · cases h
      exact Int.lt_of_lt_of_le Int.zero_lt_one hidle
  obtain ⟨hrun, hbelow⟩ : RunInv config s ∧ IdleBelow s := by
    refine runFrom_invariant (I := fun t => RunInv config t ∧ IdleBelow t) ?_ ?_ ops
    · rintro t op ⟨hrun, hbelow⟩
      exact ⟨step_runInv config t op hrun, step_idleBelow op hbelow hrun⟩
    · exact ⟨init_runInv h, hinit⟩
  constructor
  · intro k c now hfree hwait hk
    rw [step_put_keepsIdle_iff hrun hfree hwait hk]
    omega
  · rw [← hrun.config_eq]
    exact hbelow

/-- With `MaxIdle` two, the only connection of the pool is kept. -/
theorem retention_two :
    let s := runFrom System.step (System.init (.empty ⟨2, 2, 10⟩))
      [.get (.stopped 0), .created 0 0 0]
    (s.step (.put 0 1)).pool.KeepsIdle 0 ∧ s.pool.idleCount < (2 : Int) := by
  intro s
  have hret := retention_iff ⟨2, 2, 10⟩ (by decide) _ rfl [.get (.stopped 0), .created 0 0 0]
  refine ⟨?_, hret.2⟩
  exact ((hret.1 0 0 1 rfl rfl ⟨_, rfl, rfl⟩).mpr (by decide)).mpr (by decide)

/-- With `MaxIdle` one, the only connection of the pool is closed when it is
put back, though no other is idle. -/
theorem only_connection_not_kept :
    let s := runFrom System.step (System.init (.empty ⟨1, 1, 10⟩))
      [.get (.stopped 0), .created 0 0 0]
    newConnectionPool ⟨1, 1, 10⟩ = some (.empty ⟨1, 1, 10⟩) ∧
    s.locked = false ∧ s.pool.waiters = [] ∧ Holds s.calls 0 0 ∧ s.pool.otherIdle 0 = 0 ∧
    ¬ (s.step (.put 0 1)).pool.KeepsIdle 0 := by
  refine ⟨rfl, rfl, rfl, ⟨_, rfl, rfl⟩, rfl, ?_⟩
  rintro ⟨hmem, -⟩
  exact absurd hmem (by decide)

end Smbfs.Pool
