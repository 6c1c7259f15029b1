import Mathlib.Logic.Function.Basic

/-!
Threads that take atomic steps on a shared state. A schedule is the list of
the threads that move, so a run is a `runFrom` of `Pool.step`.

`Pool.Inv.step` is the thread-modular rule: an invariant of the shared state
and one for every thread hold after a step if the thread that moves
establishes them and the other threads' invariants are stable under its step.
-/

namespace Smbfs.Lib

variable {σ τ : Type*}

/-- The shared state and the threads. -/
structure Pool (σ τ : Type*) where
  shared : σ
  threads : Nat → τ

namespace Pool

/-- Thread `n` takes its next step. -/
def step (advance : τ → σ → τ × σ) (p : Pool σ τ) (n : Nat) : Pool σ τ where
  shared := (advance (p.threads n) p.shared).2
  threads := Function.update p.threads n (advance (p.threads n) p.shared).1

variable {advance : τ → σ → τ × σ} {p : Pool σ τ} {n : Nat}

theorem step_threads_self :
    (p.step advance n).threads n = (advance (p.threads n) p.shared).1 := by simp [step]

theorem step_threads_ne {m : Nat} (h : m ≠ n) : (p.step advance n).threads m = p.threads m := by
  simp [step, h]

/-- `I` holds of the shared state, and `J m` of thread `m` and the shared state. -/
structure Inv (I : σ → Prop) (J : Nat → τ → σ → Prop) (p : Pool σ τ) : Prop where
  shared : I p.shared
  thread : ∀ m, J m (p.threads m) p.shared

variable {I : σ → Prop} {J : Nat → τ → σ → Prop}

/-- **Thread-modular rule.** -/
theorem Inv.step (h : Inv I J p) (hown : I p.shared → J n (p.threads n) p.shared →
      I (p.step advance n).shared ∧
        J n (advance (p.threads n) p.shared).1 (p.step advance n).shared)
    (hother : ∀ m t, m ≠ n → J m t p.shared → J m t (p.step advance n).shared) :
    Inv I J (p.step advance n) := by
  obtain ⟨hshared, hself⟩ := hown h.shared (h.thread n)
  refine ⟨hshared, fun m => ?_⟩
  by_cases hm : m = n
  · subst hm
    rw [step_threads_self]
    exact hself
  · rw [step_threads_ne hm]
    exact hother m _ hm (h.thread m)

end Pool

end Smbfs.Lib
