import Smbfs.Lib.Walk

/-!
Programs that take things and give them back. A ledger counts how often each
thing was taken and given back until a state is reached. `Spends L dead before
m after` says of a program that holds `before` when it starts: if it returns
`a` it holds `after a`, and if it exits early it holds nothing; every other
thing it took in between it gave back, as often as it took it.

Exits that satisfy `dead` end everything, and nothing is said about them.
-/

namespace Smbfs.Lib

variable {σ ε α β ι : Type}

structure Ledger (σ ι : Type) where
  taken : σ → ι → Nat
  returned : σ → ι → Nat

section

variable [DecidableEq ι] {L : Ledger σ ι} {dead : ε → Prop}

/-- What happened from `s` to `s'` accounts for `before` and `after`. -/
structure Ledger.Moves (L : Ledger σ ι) (before after : List ι) (s s' : σ) : Prop where
  taken_le : ∀ i, L.taken s i ≤ L.taken s' i
  returned_le : ∀ i, L.returned s i ≤ L.returned s' i
  accounted : ∀ i, L.returned s' i + after.count i + L.taken s i =
    L.returned s i + before.count i + L.taken s' i

namespace Ledger.Moves

variable {before middle after : List ι} {s t u : σ}

theorem of_eq (ht : L.taken t = L.taken s) (hr : L.returned t = L.returned s) :
    L.Moves before before s t := by
  constructor
  · exact fun i => Nat.le_of_eq (congrFun ht.symm i)
  · exact fun i => Nat.le_of_eq (congrFun hr.symm i)
  · intro i
    rw [ht, hr]

theorem trans (h : L.Moves before middle s t) (h' : L.Moves middle after t u) :
    L.Moves before after s u := by
  constructor
  · exact fun i => Nat.le_trans (h.taken_le i) (h'.taken_le i)
  · exact fun i => Nat.le_trans (h.returned_le i) (h'.returned_le i)
  · intro i
    have hi := h.accounted i
    have hi' := h'.accounted i
    omega

theorem frame (h : L.Moves before after s t) (extra : List ι) :
    L.Moves (extra ++ before) (extra ++ after) s t := by
  constructor
  · exact h.taken_le
  · exact h.returned_le
  · intro i
    have hi := h.accounted i
    simp only [List.count_append]
    omega

end Ledger.Moves

def Spends (L : Ledger σ ι) (dead : ε → Prop) (before : List ι) (m : EStateM ε σ α)
    (after : α → List ι) : Prop :=
  ∀ s, match m s with
    | .ok a s' => L.Moves before (after a) s s'
    | .error e s' => dead e ∨ L.Moves before [] s s'

namespace Spends

variable {before held : List ι} {m : EStateM ε σ α} {f : α → EStateM ε σ β}
  {after : α → List ι} {last : β → List ι}

theorem bind (h : Spends L dead before m after) (hf : ∀ a, Spends L dead (after a) (f a) last) :
    Spends L dead before (m >>= f) last := by
  intro s
  have hs := h s
  rw [bind_run]
  cases hm : m s with
  | error e t =>
    rw [hm] at hs
    exact hs
  | ok a t =>
    rw [hm] at hs
    have ht := hf a t
    cases hfa : f a t with
    | ok b u =>
      simp only [hfa] at ht ⊢
      exact hs.trans ht
    | error e u =>
      simp only [hfa] at ht ⊢
      exact ht.imp id hs.trans

theorem pure (a : α) : Spends L dead (after a) (Pure.pure a : EStateM ε σ α) after :=
  fun _ => .of_eq rfl rfl

/-- A program whose early exits are all dead may hold more. -/
theorem frame (h : Spends L dead before m after) (hexit : ∀ s e s', m s = .error e s' → dead e)
    (extra : List ι) : Spends L dead (extra ++ before) m fun a => extra ++ after a := by
  intro s
  have hs := h s
  cases hm : m s with
  | ok a t =>
    rw [hm] at hs
    exact hs.frame extra
  | error e t => exact .inl (hexit s e t hm)

/-- An early exit with empty hands. -/
theorem throw (e : ε) : Spends L dead [] (throw e : EStateM ε σ α) after :=
  fun _ => .inr (.of_eq rfl rfl)

theorem throw_dead {e : ε} (h : dead e) :
    Spends L dead before (MonadExcept.throw e : EStateM ε σ α) after :=
  fun _ => .inl h

/-- A program that leaves the books alone and never exits early may hold anything. -/
theorem of_returns (ht : Keeps L.taken m) (hr : Keeps L.returned m) (hm : Returns m) :
    Spends L dead held m fun _ => held := by
  intro s
  obtain ⟨a, s', hs⟩ := hm s
  have hts := ht s
  have hrs := hr s
  rw [hs] at hts hrs ⊢
  exact .of_eq hts hrs

/-- A program that leaves the books alone and starts with empty hands. -/
theorem of_keeps (ht : Keeps L.taken m) (hr : Keeps L.returned m) :
    Spends L dead [] m fun _ => [] := by
  intro s
  have hts := ht s
  have hrs := hr s
  cases hs : m s with
  | ok a s' =>
    rw [hs] at hts hrs
    exact .of_eq hts hrs
  | error e s' =>
    rw [hs] at hts hrs
    exact .inr (.of_eq hts hrs)

end Spends

end

end Smbfs.Lib
