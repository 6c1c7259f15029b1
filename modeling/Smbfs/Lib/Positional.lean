import Mathlib.Data.List.Forall2
import Smbfs.Lib.Run

/-!
Positional reads and writes. A store gives every object an array; a read names an
object, an offset and a length, a write an object, an offset and the new elements.

* `pread`, `pwrite`: one array; elements that a write leaves out before its offset
  are `gap`;
* `PosOp`, `posStep`, `posRun`: the operations on a store, and what they answer;
* `posRun_simulates`: a machine whose steps answer as the store does answers so over
  every sequence of operations.
-/

namespace Smbfs.Lib

variable {α Obj : Type}

/-- The elements in `[offset, offset + n)`. -/
def pread (data : List α) (offset n : Nat) : List α := (data.drop offset).take n

/-- The array with `new` in `[offset, offset + new.length)`. -/
def pwrite (gap : α) (data : List α) (offset : Nat) (new : List α) : List α :=
  if new.isEmpty then data
  else data.take offset ++ List.replicate (offset - data.length) gap ++ new ++
    data.drop (offset + new.length)

/-- The array cut or filled up to the length `n`. -/
def resize (gap : α) (data : List α) (n : Nat) : List α :=
  data.take n ++ List.replicate (n - data.length) gap

theorem length_resize (gap : α) (data : List α) (n : Nat) : (resize gap data n).length = n := by
  rw [resize, List.length_append, List.length_take, List.length_replicate]
  omega

theorem resize_length (gap : α) (data : List α) : resize gap data data.length = data := by
  rw [resize, List.take_length, Nat.sub_self, List.replicate_zero, List.append_nil]

/-- An operation on one of the objects. -/
inductive PosOp (Obj α : Type) where
  | read (x : Obj) (offset n : Nat)
  | write (x : Obj) (offset : Nat) (new : List α)

/-- A read answers with elements, or that there are none in its range; a write
with the number of elements written. -/
inductive PosReply (α : Type) where
  | data (elements : List α)
  | eof
  | count (n : Nat)
  deriving DecidableEq

variable [DecidableEq Obj]

def posStep (gap : α) (store : Obj → List α) : PosOp Obj α → PosReply α × (Obj → List α)
  | .read x offset n =>
    let out := pread (store x) offset n
    (if out.isEmpty then .eof else .data out, store)
  | .write x offset new =>
    (.count new.length, Function.update store x (pwrite gap (store x) offset new))

/-- The answers to the operations, in their order, and the store after them. -/
def posRun (gap : α) (store : Obj → List α) : List (PosOp Obj α) → List (PosReply α) × (Obj → List α)
  | [] => ([], store)
  | op :: ops =>
    let (reply, store) := posStep gap store op
    let (replies, store) := posRun gap store ops
    (reply :: replies, store)

/-- **Simulation.** `op e` is the operation that the event `e` stands for, `answer s e`
what the machine answers to it in the state `s`, and `encodes` relates that to an
answer of the store. If one step from related states gives related answers and
states, so does every run of events that stand for operations. -/
theorem posRun_simulates {σ ε β : Type} {gap : α} {step : σ → ε → σ}
    {op : ε → Option (PosOp Obj α)} {answer : σ → ε → β} {R : σ → (Obj → List α) → Prop}
    {encodes : PosReply α → β → Prop} (hstep : ∀ s store e o, R s store → op e = some o →
      encodes (posStep gap store o).1 (answer s e) ∧ R (step s e) (posStep gap store o).2)
    {s : σ} {store : Obj → List α} (hs : R s store) {es : List ε}
    (hes : ∀ e ∈ es, (op e).isSome = true) :
    List.Forall₂ encodes (posRun gap store (es.filterMap op)).1
        (collect step (fun s e => some (answer s e)) s es) ∧
      R (runFrom step s es) (posRun gap store (es.filterMap op)).2 := by
  induction es generalizing s store with
  | nil => exact ⟨.nil, hs⟩
  | cons e es ih =>
    obtain ⟨o, ho⟩ := Option.isSome_iff_exists.mp (hes e List.mem_cons_self)
    obtain ⟨henc, hnext⟩ := hstep s store e o hs ho
    obtain ⟨hrest, hend⟩ := ih hnext fun e' he' => hes e' (List.mem_cons_of_mem e he')
    rw [List.filterMap_cons_some ho]
    exact ⟨.cons henc hrest, hend⟩

end Smbfs.Lib
