import Mathlib.Data.List.Perm.Basic
import Smbfs.Pool.Model

/-!
What the sweep in `get` does to the pool, whichever way it ends.

* `sweep_spec`: the connections it drops are idle and expired, each is closed
  once and counted once, and a connection it returns is one of those left;
* `get_result`: the ways out of the first critical section of `get`;
* `step_result`: what a step of the users does.
-/

namespace Smbfs.Pool

open Smbfs.Lib

variable {p : ConnectionPool}

theorem ConnectionPool.not_valid_mono {c : ConnRef} {t u : Int}
    (h : ¬ p.valid c t) (htu : t ≤ u) : ¬ p.valid c u := by
  unfold ConnectionPool.valid at *
  omega

/-- `q` is `p` after the connections `out` were dropped by a sweep. -/
structure Swept (clock : Clock) (p q : ConnectionPool) (out : List ConnRef) : Prop where
  same : q = { p with
    connections := q.connections
    numOpen := p.numOpen - out.length
    closing := p.closing ++ out }
  perm : p.connections.Perm (q.connections ++ out)
  old : ∀ d ∈ out, (p.conn d).inUse = false ∧ ∃ i, ¬ p.valid d (clock.now i)

/-- What is known when the sweep of `p` is left. -/
def Sweep.Spec (clock : Clock) (p : ConnectionPool) : Sweep → Prop
  | .found q c => ∃ p' out t, Swept clock p p' out ∧ c ∈ p'.connections ∧
      (p.conn c).inUse = false ∧
      q = p'.setConn c { p.conn c with inUse := true, lastUsed := t }
  | .exhausted q => ∃ out, Swept clock p q out
  | .panic q => ∃ out, Swept clock p q out

/-- The loop invariant before iteration `i`: `out` is what was dropped so far,
and a cell that left the slice is one of `out`, expired at an earlier reading. -/
structure SweepInv (clock : Clock) (p : ConnectionPool) (i : Nat) (w : Window ConnRef)
    (out : List ConnRef) : Prop where
  perm : p.connections.Perm (w.live ++ out)
  old : ∀ d ∈ out, (p.conn d).inUse = false ∧ ∃ j < i, ¬ p.valid d (clock.now j)
  cells : ∀ d ∈ w.cells, d ∈ w.live ∨ d ∈ out

theorem SweepInv.swept {clock : Clock} {i : Nat} {w : Window ConnRef}
    {out : List ConnRef} (h : SweepInv clock p i w out) :
    Swept clock p
      { p with
        connections := w.live
        numOpen := p.numOpen - out.length
        closing := p.closing ++ out } out where
  same := rfl
  perm := h.perm
  old := by
    intro d hd
    obtain ⟨hu, j, _, hj⟩ := h.old d hd
    exact ⟨hu, j, hj⟩

theorem SweepInv.next {clock : Clock} {i : Nat} {w : Window ConnRef}
    {out : List ConnRef} (h : SweepInv clock p i w out) : SweepInv clock p (i + 1) w out where
  perm := h.perm
  old := by
    intro d hd
    obtain ⟨hu, j, hji, hj⟩ := h.old d hd
    exact ⟨hu, j, by omega, hj⟩
  cells := h.cells

/-- Dropping the expired cell `i` keeps the loop invariant. -/
theorem SweepInv.remove {clock : Clock} {i : Nat} {w w' : Window ConnRef}
    {out : List ConnRef} {c : ConnRef} (h : SweepInv clock p i w out)
    (hc : w.cells[i]? = some c) (hidle : (p.conn c).inUse = false)
    (hexp : ¬ p.valid c (clock.now i)) (hw : w.removeAt i = some w') :
    SweepInv clock p (i + 1) w' (out ++ [c]) where
  perm := by
    obtain ⟨hi, he⟩ := Window.removeAt_live hw
    have hil : i < w.live.length := by rw [Window.live_length]; exact hi
    have hci : w.live[i] = c := by
      have := Window.getElem?_live hi
      rw [hc, List.getElem?_eq_getElem hil] at this
      exact Option.some.inj this
    have hlive : w.live.Perm (w'.live ++ [c]) := by
      rw [he]
      refine (List.getElem_cons_eraseIdx_perm hil).symm.trans ?_
      rw [hci]
      exact (List.perm_append_singleton c _).symm
    refine h.perm.trans ((hlive.append_right out).trans ?_)
    rw [List.append_assoc]
    exact List.Perm.append_left _ List.perm_append_comm
  old := by
    intro d hd
    rcases List.mem_append.mp hd with hd | hd
    · exact h.next.old d hd
    · rw [List.mem_singleton.mp hd]
      exact ⟨hidle, i, by omega, hexp⟩
  cells := by
    intro d hd
    rcases h.cells d (Window.mem_cells_removeAt hw hd) with hl | ho
    · rcases Window.mem_removeAt_or_eq hw hc hl with hl | rfl
      · exact Or.inl hl
      · exact Or.inr (by simp)
    · exact Or.inr (List.mem_append_left _ ho)

/-- A cell that is valid at reading `i` is still in the slice. -/
theorem SweepInv.live_of_valid {clock : Clock} {i : Nat}
    {w : Window ConnRef} {out : List ConnRef} {c : ConnRef} (h : SweepInv clock p i w out)
    (hc : w.cells[i]? = some c) (hv : p.valid c (clock.now i)) : c ∈ w.live := by
  rcases h.cells c (List.mem_of_getElem? hc) with hl | ho
  · exact hl
  · obtain ⟨_, j, hj, hnv⟩ := h.old c ho
    exact absurd hv (p.not_valid_mono hnv (clock.mono j i (by omega)))

theorem sweepFrom_spec (clock : Clock) (p : ConnectionPool) (k i : Nat) (w : Window ConnRef)
    (out : List ConnRef) (h : SweepInv clock p i w out) :
    Sweep.Spec clock p (sweepFrom clock k i
      { p with numOpen := p.numOpen - out.length, closing := p.closing ++ out } w) := by
  induction k generalizing i w out with
  | zero => exact ⟨out, h.swept⟩
  | succ k ih =>
    unfold sweepFrom
    cases hc : w.cells[i]? with
    | none => exact ⟨out, h.swept⟩
    | some c =>
      simp only
      split
      · exact ih (i + 1) w out h.next
      · rename_i hidle
        have hidle : (p.conn c).inUse = false := by simpa using hidle
        split
        · rename_i hv
          exact ⟨_, out, clock.now (i + 1), h.swept, h.live_of_valid hc hv, hidle, rfl⟩
        · rename_i hexp
          cases hw : w.removeAt i with
          | none => exact ⟨out, h.swept⟩
          | some w' =>
            have hnext := ih (i + 1) w' (out ++ [c]) (h.remove hc hidle hexp hw)
            simpa [Int.sub_sub] using hnext

/-- **The sweep.** -/
theorem sweep_spec (clock : Clock) (p : ConnectionPool) : Sweep.Spec clock p (sweep clock p) := by
  have h : SweepInv clock p 0 (Window.ofList p.connections) [] :=
    ⟨by simp, by simp, by simp⟩
  simpa [sweep] using sweepFrom_spec clock p p.connections.length 0 _ [] h

/-! ## `get` -/

/-- The ways out of the first critical section of `get`. -/
inductive GetResult (clock : Clock) (s : System) : System → Prop
  | closed : s.pool.closed = true →
      GetResult clock s { s with calls := s.calls ++ [.start .over] }
  | found {p out c t} : s.pool.closed = false → Swept clock s.pool p out → c ∈ p.connections →
      (p.conn c).inUse = false →
      GetResult clock s
        { s with
          pool := p.setConn c { s.pool.conn c with inUse := true, lastUsed := t }
          calls := s.calls ++ [.start (.holding c)] }
  | panicked {p out} : s.pool.closed = false → Swept clock s.pool p out →
      GetResult clock s ⟨p, s.calls ++ [.start .panicked], true⟩
  | creating {p out} : s.pool.closed = false → Swept clock s.pool p out →
      p.numOpen < p.config.maxOpen →
      GetResult clock s
        { s with
          pool := { p with numOpen := p.numOpen + 1 }
          calls := s.calls ++ [.start .creating] }
  | waiting {p out} : s.pool.closed = false → Swept clock s.pool p out →
      sweep clock s.pool = .exhausted p → p.config.maxOpen ≤ p.numOpen →
      GetResult clock s
        { s with
          pool := { p with waiters := p.waiters ++ [s.calls.length] }
          calls := s.calls ++ [.start .waiting] }

theorem get_result (s : System) (clock : Clock) : GetResult clock s (s.get clock) := by
  unfold System.get
  split
  · rename_i hclosed
    exact .closed hclosed
  · rename_i hclosed
    have hopen : s.pool.closed = false := by simpa using hclosed
    have hs := sweep_spec clock s.pool
    cases hw : sweep clock s.pool with
    | found q c =>
      rw [hw] at hs
      obtain ⟨p, out, t, hsw, hc, hidle, rfl⟩ := hs
      exact .found hopen hsw hc (by rw [hsw.same]; exact hidle)
    | panic q =>
      rw [hw] at hs
      obtain ⟨out, hsw⟩ := hs
      exact .panicked hopen hsw
    | exhausted q =>
      rw [hw] at hs
      obtain ⟨out, hsw⟩ := hs
      simp only
      split
      · rename_i hlt
        exact .creating hopen hsw hlt
      · rename_i hlt
        exact .waiting hopen hsw hw (Int.not_lt.mp hlt)

/-! ## Steps -/

/-- What a step does, with what it finds. -/
inductive StepResult (s : System) : PoolOp → System → Prop
  -- the mutex is held, or there is no such call
  | none {op} : StepResult s op s
  | get {clock} : StepResult s (.get clock) (s.get clock)
  | created {k b cl createdAt lastUsed} : s.calls[k]? = some ⟨.creating, b, cl⟩ →
      StepResult s (.created k createdAt lastUsed)
        { s with
          pool :=
            { s.pool.setConn s.pool.nextConn ⟨createdAt, lastUsed, true⟩ with
              nextConn := s.pool.nextConn + 1
              connections := s.pool.connections ++ [s.pool.nextConn] }
          calls := s.calls.set k ⟨.holding s.pool.nextConn, b, cl⟩ }
  | createFailed {k b cl} : s.locked = false → s.calls[k]? = some ⟨.creating, b, cl⟩ →
      StepResult s (.createFailed k)
        { s with pool := { s.pool with numOpen := s.pool.numOpen - 1 }
                 calls := s.calls.set k ⟨.over, b, cl⟩ }
  | received {k c cl} : s.calls[k]? = some ⟨.waiting, some c, cl⟩ →
      StepResult s (.receive k) (s.setCall k ⟨.holding c, none, cl⟩)
  | woken {k} : s.calls[k]? = some ⟨.waiting, none, true⟩ →
      StepResult s (.receive k) (s.setCall k ⟨.over, none, true⟩)
  | cancel {k b cl} : s.locked = false → s.calls[k]? = some ⟨.waiting, b, cl⟩ →
      StepResult s (.cancel k)
        { s with pool := { s.pool with waiters := s.pool.waiters.erase k }
                 calls := s.calls.set k ⟨.over, b, cl⟩ }
  | timeout {k b cl} : s.calls[k]? = some ⟨.waiting, b, cl⟩ →
      StepResult s (.timeout k) (s.setCall k ⟨.over, b, cl⟩)
  | putClosed {k now c b cl} : s.calls[k]? = some ⟨.holding c, b, cl⟩ → s.pool.closed = true →
      StepResult s (.put k now)
        { s with pool := { s.pool with closing := s.pool.closing ++ [c] }
                 calls := s.calls.set k ⟨.over, b, cl⟩ }
  | put {k now c b cl} : s.locked = false → s.calls[k]? = some ⟨.holding c, b, cl⟩ →
      s.pool.closed = false →
      StepResult s (.put k now)
        { s with pool := (System.putOpen s.pool (s.calls.set k ⟨.over, b, cl⟩) c now).1
                 calls := (System.putOpen s.pool (s.calls.set k ⟨.over, b, cl⟩) c now).2 }
  | cleanup {now} : s.pool.closed = false →
      StepResult s (.cleanup now)
        { s with
          pool :=
            { s.pool with
              connections := s.pool.connections.filter fun c => !System.expired s.pool now c
              numOpen := s.pool.numOpen -
                (s.pool.connections.filter (System.expired s.pool now)).length
              closing := s.pool.closing ++
                s.pool.connections.filter (System.expired s.pool now) } }

theorem put_result (s : System) (hfree : s.locked = false) (k : CallId) (now : Int) :
    StepResult s (.put k now) (s.put k now) := by
  unfold System.put
  split
  · next hk =>
    cases hclosed : s.pool.closed with
    | true => exact .putClosed hk hclosed
    | false => exact .put hfree hk hclosed
  · exact .none

theorem step_result (s : System) (op : PoolOp) : StepResult s op (s.step op) := by
  unfold System.step
  split
  · exact .none
  · next hfree =>
    simp only [Bool.and_eq_true, Bool.not_eq_true', not_and, Bool.not_eq_false] at hfree
    cases op with
    | get clock => exact .get
    | created k createdAt lastUsed =>
      simp only [System.created]
      split
      · next hk => exact .created hk
      · exact .none
    | createFailed k =>
      simp only [System.createFailed]
      split
      · next hk => exact .createFailed (by simpa [PoolOp.lockFree] using hfree) hk
      · exact .none
    | receive k =>
      simp only [System.receive]
      split
      · next hk => exact .received hk
      · next hk => exact .woken hk
      · exact .none
    | cancel k =>
      simp only [System.cancel]
      split
      · next hk => exact .cancel (by simpa [PoolOp.lockFree] using hfree) hk
      · exact .none
    | timeout k =>
      simp only [System.timeout]
      split
      · next hk => exact .timeout hk
      · exact .none
    | put k now => exact put_result s (by simpa [PoolOp.lockFree] using hfree) k now
    | cleanup now =>
      simp only [System.cleanup]
      split
      · exact .none
      · next hopen => exact .cleanup (by simpa using hopen)

end Smbfs.Pool
