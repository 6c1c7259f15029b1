import Mathlib.Data.List.Induction

/-!
Runs of a machine with a total step function: `step s e` is the state after
event `e`. A run is a list of events.

* `runFrom_invariant`: what every step keeps holds at the end of every run;
* `Along P`: every event of the run meets `P` in the state it is taken from;
  `runFrom_along` is the invariant rule for such runs;
* `Always Q`: `Q` holds in every state of the run, the first included;
  `always_of_along` and `always_iff_along` connect the two, the second when
  a step that breaks `P` also breaks `Q`; `always_iff_along_of` is for runs along
  another condition; `always_iff_last` is for a `Q` that is lost for good;
* `runFrom_counted`: an invariant that depends on the number of events so far;
* `collect f`: what `f` reads off the events of the run, in order;
  `collect_append` and `collect_concat` add to them, `runFrom_collect` is the invariant rule;
* `lastOf f`: what `f` last read off an event; `runFrom_lastOf` is for a part of the
  state that every step sets to what `f` reads, or leaves;
* `runFrom_history`: an invariant that depends on the events so far, and
  `Latest touches e es`: `e` is among them and nothing touched it since.
-/

namespace Smbfs.Lib

variable {σ ε : Type*} (step : σ → ε → σ)

/-- The state after the events, first event first. -/
def runFrom (s : σ) : List ε → σ
  | [] => s
  | e :: es => runFrom (step s e) es

/-- Every event meets `P` in the state it is taken from. -/
def Along (P : σ → ε → Prop) (s : σ) : List ε → Prop
  | [] => True
  | e :: es => P s e ∧ Along P (step s e) es

/-- `Q` holds in every state of the run. -/
def Always (Q : σ → Prop) (s : σ) : List ε → Prop
  | [] => Q s
  | e :: es => Q s ∧ Always Q (step s e) es

/-- The number of events that `p` holds for in the state they are taken from. -/
def countAlong (p : σ → ε → Bool) (s : σ) : List ε → Nat
  | [] => 0
  | e :: es => (p s e).toNat + countAlong p (step s e) es

/-- What `f` gives for the events, each in the state it is taken from. -/
def collect {α : Type*} (f : σ → ε → Option α) (s : σ) : List ε → List α
  | [] => []
  | e :: es => (f s e).toList ++ collect f (step s e) es

/-- What `f` gives for the last event it gives anything for. -/
def lastOf {α : Type*} (f : ε → Option α) : List ε → Option α
  | [] => none
  | e :: es => (lastOf f es).or (f e)

instance Along.decidable {P : σ → ε → Prop} [∀ s e, Decidable (P s e)] :
    ∀ (s : σ) (es : List ε), Decidable (Along step P s es)
  | _, [] => inferInstanceAs (Decidable True)
  | s, e :: es =>
    have := Along.decidable (P := P) (step s e) es
    inferInstanceAs (Decidable (P s e ∧ Along step P (step s e) es))

variable {step}

theorem runFrom_append (s : σ) (es fs : List ε) :
    runFrom step s (es ++ fs) = runFrom step (runFrom step s es) fs := by
  induction es generalizing s with
  | nil => rfl
  | cons e es ih => exact ih (step s e)

theorem runFrom_concat (s : σ) (es : List ε) (e : ε) :
    runFrom step s (es ++ [e]) = step (runFrom step s es) e :=
  runFrom_append s es [e]

variable {α : Type*}

theorem collect_append (f : σ → ε → Option α) (s : σ) (es fs : List ε) :
    collect step f s (es ++ fs) = collect step f s es ++ collect step f (runFrom step s es) fs := by
  induction es generalizing s with
  | nil => rfl
  | cons e es ih =>
    rw [List.cons_append, collect, ih, collect, List.append_assoc]
    rfl

theorem collect_concat (f : σ → ε → Option α) (s : σ) (es : List ε) (e : ε) :
    collect step f s (es ++ [e]) = collect step f s es ++ (f (runFrom step s es) e).toList := by
  rw [collect_append, collect, collect, List.append_nil]

variable {es : List ε} {s : σ} {f : σ → ε → Option α}

/-- What is read off the state is among what is read off the events alone. -/
theorem mem_filterMap_of_mem_collect {g : ε → Option α}
    (h : ∀ s e a, f s e = some a → g e = some a) {a : α}
    (ha : a ∈ collect step f s es) : a ∈ es.filterMap g := by
  induction es generalizing s with
  | nil => cases ha
  | cons e es ih =>
    rcases List.mem_append.mp ha with hfirst | hrest
    · exact List.mem_filterMap.mpr
        ⟨e, List.mem_cons_self, h s e a (Option.mem_toList.mp hfirst)⟩
    · obtain ⟨e', he', hg⟩ := List.mem_filterMap.mp (ih hrest)
      exact List.mem_filterMap.mpr ⟨e', List.mem_cons_of_mem e he', hg⟩

variable {I : σ → Prop}

/-- **Invariant rule.** -/
theorem runFrom_invariant (hstep : ∀ s e, I s → I (step s e)) (hs : I s)
    (es : List ε) : I (runFrom step s es) := by
  induction es generalizing s with
  | nil => exact hs
  | cons e es ih => exact ih (hstep s e hs)

/-- A part of the state that only the events of `f` set. -/
theorem runFrom_lastOf {g : σ → α} {f : ε → Option α}
    (hstep : ∀ s e, g (step s e) = (f e).getD (g s)) (s : σ) (es : List ε) :
    g (runFrom step s es) = (lastOf f es).getD (g s) := by
  induction es generalizing s with
  | nil => rfl
  | cons e es ih =>
    rw [runFrom, ih, hstep, lastOf]
    cases lastOf f es <;> rfl

/-- **Invariant rule with the history.** -/
theorem runFrom_history {I : List ε → σ → Prop}
    (hstep : ∀ es s e, I es s → I (es ++ [e]) (step s e)) (hs : I [] s) (es : List ε) :
    I es (runFrom step s es) := by
  induction es using List.reverseRecOn with
  | nil => exact hs
  | append_singleton es e ih =>
    rw [runFrom_concat]
    exact hstep es _ e ih

/-- **Invariant rule with what was collected.** -/
theorem runFrom_collect {I : List α → σ → Prop}
    (hstep : ∀ as s e, I as s → I (as ++ (f s e).toList) (step s e)) (hs : I [] s)
    (es : List ε) : I (collect step f s es) (runFrom step s es) := by
  induction es using List.reverseRecOn with
  | nil => exact hs
  | append_singleton es e ih =>
    rw [collect_concat, runFrom_concat]
    exact hstep _ _ e ih

/-- `e` is one of the events, and no later event touched what it did. -/
def Latest (touches : ε → Prop) (e : ε) (es : List ε) : Prop :=
  ∃ pre post, es = pre ++ e :: post ∧ ∀ e' ∈ post, ¬ touches e'

theorem latest_concat_self (touches : ε → Prop) (e : ε) (es : List ε) :
    Latest touches e (es ++ [e]) :=
  ⟨es, [], rfl, fun _ h => absurd h List.not_mem_nil⟩

theorem Latest.concat {touches : ε → Prop} {e e' : ε} (h : Latest touches e es)
    (h' : ¬ touches e') : Latest touches e (es ++ [e']) := by
  obtain ⟨pre, post, rfl, hpost⟩ := h
  refine ⟨pre, post ++ [e'], by rw [List.append_assoc, List.cons_append], ?_⟩
  intro e'' hmem
  rcases List.mem_append.mp hmem with hmem | hmem
  · exact hpost e'' hmem
  · rw [List.mem_singleton.mp hmem]
    exact h'

variable {P : σ → ε → Prop}

/-- **Invariant rule under a condition on the steps.** -/
theorem runFrom_along (hstep : ∀ s e, I s → P s e → I (step s e)) (hs : I s)
    (h : Along step P s es) : I (runFrom step s es) := by
  induction es generalizing s with
  | nil => exact hs
  | cons e es ih => exact ih (hstep s e hs h.1) h.2

theorem along_append {es fs : List ε} :
    Along step P s (es ++ fs) ↔ Along step P s es ∧ Along step P (runFrom step s es) fs := by
  induction es generalizing s with
  | nil => exact (iff_of_eq (true_and _)).symm
  | cons e es ih =>
    rw [List.cons_append, Along, Along, ih, and_assoc]
    rfl

theorem along_of_forall {P : ε → Prop} (h : ∀ e ∈ es, P e) : Along step (fun _ e => P e) s es := by
  induction es generalizing s with
  | nil => trivial
  | cons e es ih => exact ⟨h e List.mem_cons_self, ih fun e he => h e (List.mem_cons_of_mem _ he)⟩

/-- Conditions that agree in every state with the invariant agree along the runs. -/
theorem along_iff_along {P Q : σ → ε → Prop} (hstep : ∀ s e, I s → I (step s e))
    (h : ∀ s e, I s → (P s e ↔ Q s e)) (hs : I s) : Along step P s es ↔ Along step Q s es := by
  induction es generalizing s with
  | nil => rfl
  | cons e es ih => exact and_congr (h s e hs) (ih (hstep s e hs))

theorem along_congr {P Q : σ → ε → Prop} (h : ∀ s e, P s e ↔ Q s e) :
    Along step P s es ↔ Along step Q s es :=
  along_iff_along (I := fun _ => True) (fun _ _ _ => trivial) (fun s e _ => h s e) trivial

theorem along_and {P Q : σ → ε → Prop} (hP : Along step P s es)
    (hQ : Along step Q s es) : Along step (fun s e => P s e ∧ Q s e) s es := by
  induction es generalizing s with
  | nil => trivial
  | cons e es ih => exact ⟨⟨hP.1, hQ.1⟩, ih hP.2 hQ.2⟩

theorem countAlong_le_length (p : σ → ε → Bool) (s : σ) (es : List ε) :
    countAlong step p s es ≤ es.length := by
  induction es generalizing s with
  | nil => exact Nat.le_refl 0
  | cons e es ih =>
    have hbit := Bool.toNat_le (p s e)
    have := ih (step s e)
    simp only [countAlong, List.length_cons]
    omega

/-- **Invariant rule with counters.** The invariant may depend on how many
events of each kind `k` there were; a kind stays below `N` over the whole run. -/
theorem runFrom_counted {κ : Type*} {p : κ → σ → ε → Bool} {N : Nat} {I : (κ → Nat) → σ → Prop}
    (hstep : ∀ c s e, I c s → P s e → (∀ k, c k + (p k s e).toNat < N) →
      I (fun k => c k + (p k s e).toNat) (step s e))
    {c : κ → Nat} (hs : I c s) (h : Along step P s es)
    (hcount : ∀ k, c k + countAlong step (p k) s es < N) : ∃ c', I c' (runFrom step s es) := by
  induction es generalizing c s with
  | nil => exact ⟨c, hs⟩
  | cons e es ih =>
    simp only [countAlong] at hcount
    have hlt : ∀ k, c k + (p k s e).toNat < N := fun k => by have := hcount k; omega
    refine ih (hstep c s e hs h.1 hlt) h.2 fun k => ?_
    have := hcount k
    omega

/-- What the invariant and the condition give for every step holds along the run. -/
theorem along_imp {P Q : σ → ε → Prop}
    (hstep : ∀ s e, I s → P s e → I (step s e)) (hQ : ∀ s e, I s → P s e → Q s e)
    (hs : I s) (h : Along step P s es) : Along step Q s es := by
  induction es generalizing s with
  | nil => trivial
  | cons e es ih => exact ⟨hQ s e hs h.1, ih (hstep s e hs h.1) h.2⟩

/-- A run with more to its state than the run it is projected to. -/
theorem along_of_map {τ : Type*} {step' : τ → ε → τ} {g : τ → σ} {Q : σ → ε → Prop}
    (hg : ∀ t e, g (step' t e) = step (g t) e) {t : τ}
    (h : Along step' (fun t e => Q (g t) e) t es) : Along step Q (g t) es := by
  induction es generalizing t with
  | nil => trivial
  | cons e es ih => exact ⟨h.1, hg t e ▸ ih h.2⟩

/-- An invariant that implies `Q` gives `Q` in every state of the run. -/
theorem always_of_along {I Q : σ → Prop}
    (hstep : ∀ s e, I s → P s e → I (step s e)) (hQ : ∀ s, I s → Q s)
    (hs : I s) (h : Along step P s es) : Always step Q s es := by
  induction es generalizing s with
  | nil => exact hQ s hs
  | cons e es ih => exact ⟨hQ s hs, ih (hstep s e hs h.1) h.2⟩

variable {Q : σ → Prop}

theorem Always.head (h : Always step Q s es) : Q s := by
  cases es with
  | nil => exact h
  | cons e es => exact h.1

theorem Always.last (h : Always step Q s es) : Q (runFrom step s es) := by
  induction es generalizing s with
  | nil => exact h
  | cons e es ih => exact ih h.2

/-- Where a state without `Q` is never left, the last state tells for all. -/
theorem always_iff_last (hstep : ∀ s e, Q (step s e) → Q s) :
    Always step Q s es ↔ Q (runFrom step s es) := by
  refine ⟨Always.last, fun h => ?_⟩
  induction es generalizing s with
  | nil => exact h
  | cons e es ih => exact ⟨hstep s e (ih h).head, ih h⟩

/-- **Exact condition.** For runs along `A`: when the steps that meet `P` keep `I`,
and a step that does not meet `P` leads from `I` to a state without `Q`, the runs
that stay in `Q` are the runs that meet `P`. -/
theorem always_iff_along_of {A P : σ → ε → Prop} (hstep : ∀ s e, I s → A s e → P s e → I (step s e))
    (hQ : ∀ s, I s → Q s) (hbreak : ∀ s e, I s → A s e → ¬ P s e → ¬ Q (step s e)) (hs : I s)
    (hA : Along step A s es) : Always step Q s es ↔ Along step P s es := by
  induction es generalizing s with
  | nil => exact iff_of_true (hQ s hs) trivial
  | cons e es ih =>
    by_cases hp : P s e
    · have hrest := ih (hstep s e hs hA.1 hp) hA.2
      exact ⟨fun h => ⟨hp, hrest.mp h.2⟩, fun h => ⟨hQ s hs, hrest.mpr h.2⟩⟩
    · exact iff_of_false (fun h => hbreak s e hs hA.1 hp h.2.head) (fun h => hp h.1)

/-- The same for all runs. -/
theorem always_iff_along (hstep : ∀ s e, I s → P s e → I (step s e)) (hQ : ∀ s, I s → Q s)
    (hbreak : ∀ s e, I s → ¬ P s e → ¬ Q (step s e)) (hs : I s) :
    Always step Q s es ↔ Along step P s es := by
  refine always_iff_along_of (A := fun _ _ => True) (fun s e hI _ => hstep s e hI) hQ
    (fun s e hI _ => hbreak s e hI) hs ?_
  clear hs
  induction es generalizing s with
  | nil => trivial
  | cons e es ih => exact ⟨trivial, ih⟩

end Smbfs.Lib
