import Mathlib.Data.List.Forall2
import Smbfs.Lib.Walk

/-!
Two programs side by side. `Relate P m n Q E` says that from states related by
`P` both programs return, with results and states related by `Q`, or both exit
early with the same error, in states related by `E`.

* `Relate.bind` follows the two programs in step;
* `Relate.of_fact` and `Relate.mono` move facts in and out of the relations.
-/

namespace Smbfs.Lib

variable {σ τ ε α β γ δ : Type}

/-- Two programs ended in the same way. -/
def Ends (Q : α → β → σ → τ → Prop) (E : σ → τ → Prop) :
    EStateM.Result ε σ α → EStateM.Result ε τ β → Prop
  | .ok a s, .ok b t => Q a b s t
  | .error e s, .error e' t => e = e' ∧ E s t
  | _, _ => False

def Relate (P : σ → τ → Prop) (m : EStateM ε σ α) (n : EStateM ε τ β)
    (Q : α → β → σ → τ → Prop) (E : σ → τ → Prop) : Prop :=
  ∀ s t, P s t → Ends Q E (m s) (n t)

namespace Relate

variable {P P' E E' : σ → τ → Prop} {m : EStateM ε σ α} {n : EStateM ε τ β}
  {Q Q' : α → β → σ → τ → Prop}

/-- The two ways two related programs end. -/
theorem cases (h : Relate P m n Q E) {s : σ} {t : τ} (hst : P s t) :
    (∃ a s' b t', m s = .ok a s' ∧ n t = .ok b t' ∧ Q a b s' t') ∨
      ∃ e s' t', m s = .error e s' ∧ n t = .error e t' ∧ E s' t' := by
  have h := h s t hst
  cases hm : m s with
  | ok a s' =>
    cases hn : n t with
    | ok b t' =>
      rw [hm, hn] at h
      exact .inl ⟨a, s', b, t', rfl, rfl, h⟩
    | error e t' =>
      rw [hm, hn] at h
      exact h.elim
  | error e s' =>
    cases hn : n t with
    | ok b t' =>
      rw [hm, hn] at h
      exact h.elim
    | error e' t' =>
      rw [hm, hn] at h
      obtain ⟨rfl, hE⟩ := h
      exact .inr ⟨e, s', t', rfl, rfl, hE⟩

theorem of_ok {s s' : σ} {t t' : τ} {a : α} {b : β} (hm : m s = .ok a s') (hn : n t = .ok b t')
    (h : Q a b s' t') : Ends Q E (m s) (n t) := by
  rw [hm, hn]
  exact h

theorem of_error {s s' : σ} {t t' : τ} {e : ε} (hm : m s = .error e s') (hn : n t = .error e t')
    (h : E s' t') : Ends Q E (m s) (n t) := by
  rw [hm, hn]
  exact ⟨rfl, h⟩

theorem mono (h : Relate P m n Q E) (hP : ∀ s t, P' s t → P s t)
    (hQ : ∀ a b s t, Q a b s t → Q' a b s t) (hE : ∀ s t, E s t → E' s t) :
    Relate P' m n Q' E' := by
  intro s t hst
  obtain ⟨a, s', b, t', hm, hn, h⟩ | ⟨e, s', t', hm, hn, h⟩ := h.cases (hP s t hst)
  · exact of_ok hm hn (hQ a b s' t' h)
  · exact of_error hm hn (hE s' t' h)

theorem post (h : Relate P m n Q E) (hQ : ∀ a b s t, Q a b s t → Q' a b s t) : Relate P m n Q' E :=
  h.mono (fun _ _ h => h) hQ fun _ _ h => h

theorem pre (h : Relate P m n Q E) (hP : ∀ s t, P' s t → P s t) : Relate P' m n Q E :=
  h.mono hP (fun _ _ _ _ h => h) fun _ _ h => h

theorem exits (h : Relate P m n Q E) (hE : ∀ s t, E s t → E' s t) : Relate P m n Q E' :=
  h.mono (fun _ _ h => h) (fun _ _ _ _ h => h) hE

theorem pure {a : α} {b : β} (h : ∀ s t, P s t → Q a b s t) :
    Relate P (Pure.pure a : EStateM ε σ α) (Pure.pure b : EStateM ε τ β) Q E :=
  fun s t hst => h s t hst

theorem throw {e : ε} (h : ∀ s t, P s t → E s t) :
    Relate P (throw e : EStateM ε σ α) (throw e : EStateM ε τ β) Q E :=
  fun s t hst => ⟨rfl, h s t hst⟩

/-- **Sequence.** -/
theorem bind {f : α → EStateM ε σ γ} {g : β → EStateM ε τ δ} {R : γ → δ → σ → τ → Prop}
    (h : Relate P m n Q E) (hfg : ∀ a b, Relate (Q a b) (f a) (g b) R E) :
    Relate P (m >>= f) (n >>= g) R E := by
  intro s t hst
  rw [bind_run, bind_run]
  obtain ⟨a, s', b, t', hm, hn, h⟩ | ⟨e, s', t', hm, hn, h⟩ := h.cases hst
  · rw [hm, hn]
    exact hfg a b s' t' h
  · rw [hm, hn]
    exact ⟨rfl, h⟩

/-- A fact that does not depend on the states. -/
theorem of_fact {r : Prop} (h : r → Relate P m n Q E) : Relate (fun s t => r ∧ P s t) m n Q E :=
  fun s t hst => h hst.1 s t hst.2

/-- A loop over two lists whose elements are related pairwise. -/
theorem forM {R : α → β → Prop} {f : α → EStateM ε σ Unit} {g : β → EStateM ε τ Unit}
    (hfg : ∀ a b, R a b → Relate P (f a) (g b) (fun _ _ => P) E) {as : List α} {bs : List β}
    (h : List.Forall₂ R as bs) : Relate P (as.forM f) (bs.forM g) (fun _ _ => P) E := by
  induction h with
  | nil => exact pure fun _ _ h => h
  | cons hab _ ih => exact bind (hfg _ _ hab) fun _ _ => ih

end Relate

end Smbfs.Lib
