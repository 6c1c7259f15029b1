import Mathlib.Data.List.Basic

/-!
Blocks that a counter gives, laid end to end.

* `counterStream f m`: the blocks of 1, 2, …, `m`;
* `length_counterStream`: its length, if all blocks have the same;
* `take_counterStream`: what is cut off the front does not depend on how many
  blocks stand there, as long as they suffice.
-/

namespace Smbfs.Lib

variable {α : Type*} {f : Nat → List α} {w : Nat}

def counterStream (f : Nat → List α) (m : Nat) : List α :=
  (List.range m).flatMap fun i => f (i + 1)

@[simp] theorem counterStream_zero (f : Nat → List α) : counterStream f 0 = [] := rfl

theorem counterStream_succ (f : Nat → List α) (m : Nat) :
    counterStream f (m + 1) = counterStream f m ++ f (m + 1) := by
  simp [counterStream, List.range_succ]

theorem length_counterStream (h : ∀ i, (f i).length = w) (m : Nat) :
    (counterStream f m).length = w * m := by
  induction m with
  | zero => simp
  | succ m ih => simp [counterStream_succ, ih, h, Nat.mul_succ]

/-- More blocks only add to the end. -/
theorem counterStream_prefix (f : Nat → List α) (m k : Nat) :
    counterStream f m <+: counterStream f (m + k) := by
  induction k with
  | zero => simp
  | succ k ih =>
    rw [← Nat.add_assoc, counterStream_succ]
    exact ih.trans (List.prefix_append _ _)

theorem take_counterStream_add (h : ∀ i, (f i).length = w) {n m : Nat} (hm : n ≤ w * m) (k : Nat) :
    (counterStream f (m + k)).take n = (counterStream f m).take n := by
  obtain ⟨rest, hrest⟩ := counterStream_prefix f m k
  rw [← hrest, List.take_append_of_le_length]
  rw [length_counterStream h]
  exact hm

theorem take_counterStream (h : ∀ i, (f i).length = w) {n m m' : Nat} (hm : n ≤ w * m)
    (hm' : n ≤ w * m') : (counterStream f m).take n = (counterStream f m').take n := by
  rw [← take_counterStream_add h hm m', ← take_counterStream_add h hm' m, Nat.add_comm]

end Smbfs.Lib
