import Smbfs.Pool.Sweep

/-!
The sweep in `get` against the slice that it shortens as it goes.

A removal moves the later connections one place left, so the connection right
behind a removed one is not looked at, and at the end of the loop the cells
beyond the shortened slice still hold the last connection. If that one is idle
and expired the sweep removes it there once more, out of range.

* `sweepFrom_panics`: the sweep is a loop that removes what it reads;
* `sweep_safe_iff`: the sweep does what it is for exactly if the walk along
  `p.connections` does not overrun.
-/

namespace Smbfs.Pool

open Smbfs.Lib

def Sweep.pool : Sweep → ConnectionPool
  | .found p _ => p
  | .exhausted p => p
  | .panic p => p

def Sweep.panics : Sweep → Bool
  | .panic _ => true
  | _ => false

/-- What iteration `i` of the sweep does with the connection it reads. -/
def look (clock : Clock) (p : ConnectionPool) (i : Nat) (c : ConnRef) : Window.Look :=
  if (p.conn c).inUse then .pass
  else if p.valid c (clock.now i) then .stop
  else .drop

/-- A connection in use stays so during the sweep, and an expired one too. -/
theorem look_lasting (clock : Clock) (p : ConnectionPool) : Window.Lasting (look clock p) := by
  intro i c hlook
  unfold look at hlook ⊢
  by_cases hused : (p.conn c).inUse
  · simp [hused]
  · by_cases hvalid : p.valid c (clock.now i)
    · simp [hused, hvalid] at hlook
    · have hlater := p.not_valid_mono hvalid (clock.mono i (i + 1) (Nat.le_succ i))
      simp [hused, hvalid, hlater]

theorem sweepFrom_panics (clock : Clock) (p : ConnectionPool) (k i : Nat) (w : Window ConnRef) :
    (sweepFrom clock k i p w).panics = Window.loopPanics (look clock p) k i w := by
  induction k generalizing i p w with
  | zero => rfl
  | succ k ih =>
    rw [sweepFrom, Window.loopPanics]
    cases w.cells[i]? with
    | none => rfl
    | some c =>
      by_cases hused : (p.conn c).inUse
      · simp only [look, hused, ↓reduceIte]
        exact ih p (i + 1) w
      · by_cases hvalid : p.valid c (clock.now i)
        · simp [look, hused, hvalid, Sweep.panics]
        · simp only [look, hused, hvalid, Bool.false_eq_true, ↓reduceIte]
          cases w.removeAt i with
          | none => rfl
          | some w' => exact ih _ (i + 1) w'

/-- The walk along `p.connections`. -/
def ConnectionPool.overruns (clock : Clock) (p : ConnectionPool) : Bool :=
  Window.overruns (look clock p) 0 false p.connections

theorem sweep_panics (clock : Clock) (p : ConnectionPool) :
    (sweep clock p).panics = p.overruns clock :=
  (sweepFrom_panics clock p _ 0 _).trans (Window.loopPanics_ofList (look_lasting clock p) _)

/-! ## What the sweep is for -/

/-- The sweep made no slice operation out of range; the connections `out` that
left the pool were idle and unused for the idle timeout, the closing of each
was started once, and `numOpen` counts them off. -/
def SweepSafe (clock : Clock) (p : ConnectionPool) (r : Sweep) : Prop :=
  r.panics = false ∧
    ∃ out : List ConnRef,
      p.connections.Perm (r.pool.connections ++ out) ∧
      (∀ d ∈ out, (p.conn d).inUse = false ∧
        ∃ i, p.config.idleTimeout ≤ clock.now i - (p.conn d).lastUsed) ∧
      r.pool.closing = p.closing ++ out ∧
      r.pool.numOpen = p.numOpen - out.length

/-- However the sweep ends, its removals are sound. -/
theorem Sweep.Spec.swept {clock : Clock} {p : ConnectionPool} {r : Sweep}
    (h : Sweep.Spec clock p r) :
    ∃ q out, Swept clock p q out ∧ r.pool.connections = q.connections ∧
      r.pool.closing = q.closing ∧ r.pool.numOpen = q.numOpen := by
  cases r with
  | found q c =>
    obtain ⟨p', out, t, hswept, -, -, rfl⟩ := h
    exact ⟨p', out, hswept, rfl, rfl, rfl⟩
  | exhausted q | panic q =>
    obtain ⟨out, hswept⟩ := h
    exact ⟨q, out, hswept, rfl, rfl, rfl⟩

theorem sweepSafe_of_not_panics {clock : Clock} {p : ConnectionPool} {r : Sweep}
    (hspec : Sweep.Spec clock p r) (h : r.panics = false) : SweepSafe clock p r := by
  obtain ⟨q, out, hswept, hconns, hclosing, hnum⟩ := hspec.swept
  refine ⟨h, out, ?_, ?_, ?_, ?_⟩
  · rw [hconns]
    exact hswept.perm
  · intro d hd
    obtain ⟨hidle, i, hexpired⟩ := hswept.old d hd
    exact ⟨hidle, i, Int.not_lt.mp hexpired⟩
  · rw [hclosing, hswept.same]
  · rw [hnum, hswept.same]

/-- **The expiry sweep.** For every pool and clock the sweep is safe exactly if
this does not happen: going along `p.connections`, and skipping the connection
behind each expired one, one comes past an expired connection to a last one
that is idle and expired as well, with no fresh idle one on the way. -/
theorem sweep_safe_iff (clock : Clock) (p : ConnectionPool) :
    SweepSafe clock p (sweep clock p) ↔ p.overruns clock = false := by
  rw [← sweep_panics]
  constructor
  · exact fun h => h.1
  · exact sweepSafe_of_not_panics (sweep_spec clock p)

/-- A pool of two connections, taken at time 0 and put back at time 1. -/
def twoIdle : System :=
  runFrom System.step (.init (.empty ⟨3, 2, 5⟩))
    [.get (.stopped 0), .created 0 0 0, .get (.stopped 0), .created 1 0 0, .put 0 1, .put 1 1]

/-- Ten units later both have expired: the first is removed, and the second
removal is out of range. -/
theorem two_expired_overrun :
    newConnectionPool ⟨3, 2, 5⟩ = some (.empty ⟨3, 2, 5⟩) ∧
      twoIdle.pool.closed = false ∧ twoIdle.pool.connections = [0, 1] ∧
      ¬ SweepSafe (.stopped 10) twoIdle.pool (sweep (.stopped 10) twoIdle.pool) := by
  refine ⟨rfl, rfl, rfl, ?_⟩
  rintro ⟨hpanics, -⟩
  rw [sweep_panics] at hpanics
  exact absurd hpanics (by decide)

end Smbfs.Pool
