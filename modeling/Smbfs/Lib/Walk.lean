import Mathlib.Logic.Relation

/-!
Programs with a state and early exits, `EStateM`, and what they do to the
state: `Runs R E m s Q` says that `m`, started in `s`, changes the state by a
chain of `R`-steps, also where it exits early, that `Q` holds of its result
and of the last state if it returns, and `E` of its early exit.

* `Runs.bind` and the rules below it follow the structure of a program;
* `Runs.chain` forgets the result: what every `R`-step keeps, the program keeps;
* `Returns m`: the program never exits early;
* `Keeps f m`: the program leaves `f` of the state as it is, also where it exits early;
* `Avoids bad m`: the program makes no `bad` early exit;
* `Finishes m s Q E`: from `s` the program returns with `Q` or exits early with `E`.
-/

namespace Smbfs.Lib

open Relation

variable {σ τ ε α β : Type} {R : σ → σ → Prop} {E : ε → Prop}

/-- The state a program ends in. -/
def stateOf : EStateM.Result ε σ α → σ
  | .ok _ s => s
  | .error _ s => s

/-- What a computation returns, if it does. -/
def valueOf : EStateM.Result ε σ α → Option α
  | .ok a _ => some a
  | .error .. => none

def Runs (R : σ → σ → Prop) (E : ε → Prop) (m : EStateM ε σ α) (s : σ) (Q : α → σ → Prop) :
    Prop :=
  match m s with
  | .ok a s' => ReflTransGen R s s' ∧ Q a s'
  | .error e s' => ReflTransGen R s s' ∧ E e

theorem bind_run (m : EStateM ε σ α) (f : α → EStateM ε σ β) (s : σ) :
    (m >>= f) s = match m s with
      | .ok a s' => f a s'
      | .error e s' => .error e s' := by
  change EStateM.bind m f s = _
  unfold EStateM.bind
  cases m s <;> rfl

theorem map_run (g : α → β) (m : EStateM ε σ α) (s : σ) :
    (g <$> m) s = match m s with
      | .ok a s' => .ok (g a) s'
      | .error e s' => .error e s' := by
  change EStateM.map g m s = _
  unfold EStateM.map
  cases m s <;> rfl

/-- A program that returns is one whose parts return. -/
theorem bind_eq_ok {m : EStateM ε σ α} {f : α → EStateM ε σ β} {s s' : σ} {b : β}
    (h : (m >>= f) s = .ok b s') : ∃ a t, m s = .ok a t ∧ f a t = .ok b s' := by
  rw [bind_run] at h
  cases hm : m s with
  | ok a t =>
    rw [hm] at h
    exact ⟨a, t, rfl, h⟩
  | error e t =>
    rw [hm] at h
    cases h

variable {a : α}

theorem stateOf_bind {m : EStateM ε σ α} {s s' : σ} (h : m s = .ok a s')
    (f : α → EStateM ε σ β) : stateOf ((m >>= f) s) = stateOf (f a s') := by
  rw [bind_run, h]

/-- What every step of a chain keeps holds at its end. -/
theorem chain_invariant {I : σ → Prop} {s s' : σ} (h : ReflTransGen R s s')
    (hstep : ∀ t t', R t t' → I t → I t') (hs : I s) : I s' := by
  induction h with
  | refl => exact hs
  | tail _ hR ih => exact hstep _ _ hR ih

variable {e : ε}

namespace Runs

variable {m : EStateM ε σ α} {f : α → EStateM ε σ β} {s : σ} {Q Q' : α → σ → Prop}

theorem chain (h : Runs R E m s Q) : ReflTransGen R s (stateOf (m s)) := by
  unfold Runs at h
  cases hm : m s with
  | ok a s' => rw [hm] at h; exact h.1
  | error e s' => rw [hm] at h; exact h.1

theorem post (h : Runs R E m s Q) {s' : σ} (hm : m s = .ok a s') : Q a s' := by
  unfold Runs at h
  rw [hm] at h
  exact h.2

theorem exit (h : Runs R E m s Q) {s' : σ} (hm : m s = .error e s') : E e := by
  unfold Runs at h
  rw [hm] at h
  exact h.2

theorem ran (h : Runs R E m s Q) {s' : σ} (hm : m s = .ok a s') :
    Runs R E m s fun b t => b = a ∧ t = s' := by
  unfold Runs at h ⊢
  rw [hm] at h ⊢
  exact ⟨h.1, rfl, rfl⟩

theorem mono (h : Runs R E m s Q) (hQ : ∀ a s', Q a s' → Q' a s') : Runs R E m s Q' := by
  unfold Runs at h ⊢
  cases hm : m s with
  | ok a s' => rw [hm] at h; exact ⟨h.1, hQ a s' h.2⟩
  | error e s' => rw [hm] at h; exact h

theorem bind {Q' : β → σ → Prop} (h : Runs R E m s Q)
    (hf : ∀ a s', Q a s' → Runs R E (f a) s' Q') : Runs R E (m >>= f) s Q' := by
  unfold Runs at h ⊢
  rw [bind_run]
  cases hm : m s with
  | error e s' => rw [hm] at h; exact h
  | ok a s' =>
    rw [hm] at h
    have ha := hf a s' h.2
    unfold Runs at ha
    cases hfa : f a s' with
    | ok b s'' => simp only [hfa] at ha ⊢; exact ⟨h.1.trans ha.1, ha.2⟩
    | error e s'' => simp only [hfa] at ha ⊢; exact ⟨h.1.trans ha.1, ha.2⟩

theorem pure (h : Q a s) : Runs R E (Pure.pure a : EStateM ε σ α) s Q :=
  ⟨.refl, h⟩

theorem throw (h : E e) : Runs R E (throw e : EStateM ε σ α) s Q := ⟨.refl, h⟩

theorem get {Q : σ → σ → Prop} (h : Q s s) : Runs R E (EStateM.get : EStateM ε σ σ) s Q :=
  ⟨.refl, h⟩

theorem modify {g : σ → σ} {Q : Unit → σ → Prop} (hR : R s (g s)) (h : Q () (g s)) :
    Runs R E (EStateM.modifyGet fun s => ((), g s) : EStateM ε σ Unit) s Q :=
  ⟨.single hR, h⟩

theorem map {g : α → β} {Q' : β → σ → Prop} (h : Runs R E m s fun a s' => Q' (g a) s') :
    Runs R E (g <$> m) s Q' := by
  unfold Runs at h ⊢
  rw [map_run]
  cases hm : m s with
  | ok a s' => rw [hm] at h; exact h
  | error e s' => rw [hm] at h; exact h

/-- What no step changes. -/
theorem keeps {g : σ → τ} (h : Runs R E m s Q) (hR : ∀ t t', R t t' → g t' = g t) :
    g (stateOf (m s)) = g s :=
  chain_invariant (I := fun t => g t = g s) h.chain (fun t t' ht hs => (hR t t' ht).trans hs) rfl

end Runs

/-- The program exits early in no state. -/
def Returns (m : EStateM ε σ α) : Prop := ∀ s, ∃ a s', m s = .ok a s'

namespace Returns

variable {m : EStateM ε σ α} {f : α → EStateM ε σ β}

theorem pure (a : α) : Returns (Pure.pure a : EStateM ε σ α) := fun s => ⟨a, s, rfl⟩

theorem get : Returns (EStateM.get : EStateM ε σ σ) := fun s => ⟨s, s, rfl⟩

theorem modifyGet (g : σ → α × σ) : Returns (EStateM.modifyGet g : EStateM ε σ α) :=
  fun s => ⟨(g s).1, (g s).2, rfl⟩

end Returns

/-- The program does not change `f` of the state. -/
def Keeps (f : σ → τ) (m : EStateM ε σ α) : Prop := ∀ s, f (stateOf (m s)) = f s

/-- No early exit of the program is a bad one. -/
def Avoids (bad : ε → Prop) (m : EStateM ε σ α) : Prop :=
  ∀ s e s', m s = .error e s' → ¬ bad e

namespace Avoids

variable {bad : ε → Prop} {m : EStateM ε σ α} {f : α → EStateM ε σ β}

theorem bind (h : Avoids bad m) (hf : ∀ a, Avoids bad (f a)) : Avoids bad (m >>= f) := by
  intro s e s' hs
  rw [bind_run] at hs
  cases hm : m s with
  | error e' t =>
    rw [hm] at hs
    cases hs
    exact h s _ _ hm
  | ok a t =>
    rw [hm] at hs
    exact hf a t e s' hs

theorem throw (h : ¬ bad e) : Avoids bad (throw e : EStateM ε σ α) := by
  intro s e' s' hs
  cases hs
  exact h

theorem of_returns (h : Returns m) : Avoids bad m := by
  intro s e s' hs
  obtain ⟨a, t, hm⟩ := h s
  cases hm.symm.trans hs

end Avoids

/-- From `s` the program returns a value and a state with `Q`, or exits early with `E`. -/
def Finishes (m : EStateM ε σ α) (s : σ) (Q : α → σ → Prop) (E : ε → σ → Prop) : Prop :=
  match m s with
  | .ok a s' => Q a s'
  | .error e s' => E e s'

namespace Finishes

variable {m : EStateM ε σ α} {f : α → EStateM ε σ β} {s s' : σ} {Q Q' : α → σ → Prop}
  {E E' : ε → σ → Prop}

theorem post (h : Finishes m s Q E) (hm : m s = .ok a s') : Q a s' := by
  unfold Finishes at h
  rw [hm] at h
  exact h

theorem exit (h : Finishes m s Q E) (hm : m s = .error e s') : E e s' := by
  unfold Finishes at h
  rw [hm] at h
  exact h

theorem mono (h : Finishes m s Q E) (hQ : ∀ a s', Q a s' → Q' a s') (hE : ∀ e s', E e s' → E' e s') :
    Finishes m s Q' E' := by
  unfold Finishes at h ⊢
  cases hm : m s with
  | ok a s' => rw [hm] at h; exact hQ a s' h
  | error e s' => rw [hm] at h; exact hE e s' h

theorem bind {Q' : β → σ → Prop} (h : Finishes m s Q E)
    (hf : ∀ a s', Q a s' → Finishes (f a) s' Q' E) : Finishes (m >>= f) s Q' E := by
  unfold Finishes at h ⊢
  rw [bind_run]
  cases hm : m s with
  | error e s' => rw [hm] at h; exact h
  | ok a s' => rw [hm] at h; exact hf a s' h

theorem pure (h : Q a s) : Finishes (Pure.pure a : EStateM ε σ α) s Q E := h

theorem throw (h : E e s) : Finishes (throw e : EStateM ε σ α) s Q E := h

theorem modifyGet {g : σ → α × σ} (h : Q (g s).1 (g s).2) :
    Finishes (EStateM.modifyGet g : EStateM ε σ α) s Q E := h

end Finishes

end Smbfs.Lib
