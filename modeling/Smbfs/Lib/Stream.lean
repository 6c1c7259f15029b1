import Mathlib.Data.List.Basic

/-!
Reading values one after another from a finite stream.

* `readFull`: the next `n` elements, or the kind of end the stream came to;
* `readMany`: a reader called `n` times;
* `readMany_flatMap`: a reader that undoes a writer in front of any rest reads
  a concatenation of written values back, in order, and leaves the rest.
-/

namespace Smbfs.Lib

variable {α β γ ε : Type*}

/-- How `io.ReadFull` fails: nothing was read, or less than was asked for. -/
inductive Ended where
  | eof
  | unexpectedEOF
  deriving DecidableEq, Repr

/-- `io.ReadFull` on a stream that ends after these elements. -/
def readFull (n : Nat) (stream : List α) : Except Ended (List α × List α) :=
  if n ≤ stream.length then .ok (stream.take n, stream.drop n)
  else .error (if stream.isEmpty then .eof else .unexpectedEOF)

theorem readFull_append (xs rest : List α) : readFull xs.length (xs ++ rest) = .ok (xs, rest) := by
  simp [readFull]

/-- A reader takes a value off the front of the stream. -/
abbrev StreamReader (ε α β : Type*) := List α → Except ε (β × List α)

def readMany (read : StreamReader ε α β) : Nat → StreamReader ε α (List β)
  | 0, stream => .ok ([], stream)
  | n + 1, stream => do
    let (value, stream) ← read stream
    let (values, stream) ← readMany read n stream
    return (value :: values, stream)

theorem readMany_flatMap {read : StreamReader ε α β} {write : γ → List α} {received : γ → β}
    {xs : List γ}
    (h : ∀ x ∈ xs, ∀ rest, read (write x ++ rest) = .ok (received x, rest)) (rest : List α) :
    readMany read xs.length (xs.flatMap write ++ rest) = .ok (xs.map received, rest) := by
  induction xs with
  | nil => rfl
  | cons x xs ih =>
    have hx := h x List.mem_cons_self (xs.flatMap write ++ rest)
    have hxs := ih fun y hy => h y (List.mem_cons_of_mem _ hy)
    rw [List.flatMap_cons, List.append_assoc, List.length_cons, readMany, hx]
    simp only [bind, Except.bind, hxs]
    rfl

end Smbfs.Lib
