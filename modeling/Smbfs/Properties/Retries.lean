import Smbfs.Client.State

/-!
Retries, `retry.go` and `errors.go`.

* `withRetry_spec`: how often an operation is called, and what becomes of its
  outcomes and of a cancelled context;
* `isRetryable_convertError_iff`: `convertError` changes whether an error is
  retried only for `ErrConnectionClosed`.
-/

namespace Smbfs.Client

open Smbfs.Lib CM

/-! ## The loop -/

/-- A share with nothing on it; what it stores is a log. -/
abbrev logShare : Share where
  Disk := List Nat
  File := Empty
  nameOf := nofun
  exec
    | .openFile .., log => (.error (.sentinel .fsNotExist), log)
    | .stat _, log => (.error (.sentinel .fsNotExist), log)
    | .mkdir .., log => (none, log)
    | .remove _, log => (none, log)
    | .rename .., log => (none, log)
    | .chmod .., log => (none, log)
    | .chtimes .., log => (none, log)

variable {α : Type}

/-- An operation that comes to the outcomes one after the other, and logs how often the
context had been looked at when it was called. -/
def scripted (outcome : Nat → Except Err α) : CM logShare α := fun st =>
  let st' := { st with disk := st.disk ++ [st.looks] }
  match outcome st.disk.length with
  | .ok a => .ok a st'
  | .error err => .error (.error err) st'

/-- What became of a retried operation that came to `outcome`: its calls, the looks at the
context from `start` on until `looks`, and the result. -/
structure Retried (fsys : FileSystem) (outcome : Nat → Except Err α) (limit start : Nat)
    (calls : List Nat) (looks : Nat) (r : Except Err α) : Prop where
  /-- It is called unless the context was cancelled before. -/
  called : fsys.ctxErr start = none → calls ≠ []
  atMost : calls.length ≤ limit
  /-- Only after an error that can be retried it is called again. -/
  again : ∀ i, i + 1 < calls.length → ∃ err, outcome i = .error err ∧ isRetryable err = true
  /-- It is not called after a look that found the context cancelled. -/
  notAfter : ∀ k ∈ calls, ∀ i, start ≤ i → i < k → fsys.ctxErr i = none
  ok_iff : ∀ a, r = .ok a ↔ ∃ n, calls.length = n + 1 ∧ outcome n = .ok a
  cancelled : ∀ i err, start ≤ i → i < looks → fsys.ctxErr i = some err → r = .error err
  last : (∀ i, start ≤ i → i < looks → fsys.ctxErr i = none) →
    ∃ n, calls.length = n + 1 ∧ r = outcome n

namespace Retried

variable {fsys : FileSystem} {outcome : Nat → Except Err α} {limit start looks : Nat}
  {calls : List Nat} {r : Except Err α} {err stop : Err}

/-- One call, whose outcome is the result. -/
theorem once (hlimit : 1 ≤ limit) (hlooks : ∀ i, start ≤ i → i < looks → fsys.ctxErr i = none) :
    Retried fsys outcome limit start [looks] looks (outcome 0) where
  called _ := List.cons_ne_nil _ _
  atMost := hlimit
  again i hi := by simp at hi
  notAfter k hk i hlow hhigh := hlooks i hlow (List.mem_singleton.mp hk ▸ hhigh)
  ok_iff a := by simp
  cancelled i err hlow hhigh hseen := by
    rw [hlooks i hlow hhigh] at hseen
    cases hseen
  last _ := ⟨0, rfl, rfl⟩

/-- The context was cancelled before the first call. -/
theorem never (hseen : fsys.ctxErr start = some stop) :
    Retried fsys outcome limit start [] (start + 1) (.error stop) where
  called hnone := by
    rw [hseen] at hnone
    cases hnone
  atMost := Nat.zero_le _
  again i hi := by simp at hi
  notAfter := by simp
  ok_iff a := by simp
  cancelled i err hlow hhigh hi := by
    obtain rfl : i = start := by omega
    rw [← Option.some.inj (hseen.symm.trans hi)]
  last hlooks := by
    rw [hlooks start (by omega) (by omega)] at hseen
    cases hseen

/-- A call that can be retried, before what follows the looks until `next`. -/
theorem retry {outcome' : Nat → Except Err α} {next : Nat} (hnext : start < next)
    (hlook : ∀ i, start ≤ i → i < next → fsys.ctxErr i = none) (hout : outcome 0 = .error err)
    (herr : isRetryable err = true) (hshift : ∀ i, outcome (i + 1) = outcome' i)
    (h : Retried fsys outcome' limit next calls looks r) :
    Retried fsys outcome (limit + 1) start ((start + 1) :: calls) looks r := by
  refine ⟨fun _ => List.cons_ne_nil _ _, Nat.succ_le_succ h.atMost, ?_, ?_, ?_, ?_, ?_⟩
  · intro i hi
    cases i with
    | zero => exact ⟨err, hout, herr⟩
    | succ i =>
      rw [hshift]
      exact h.again i (Nat.lt_of_succ_lt_succ hi)
  · intro k hk i hlow hhigh
    by_cases hi : i < next
    · exact hlook i hlow hi
    · rcases List.mem_cons.mp hk with rfl | hk
      · omega
      · exact h.notAfter k hk i (by omega) hhigh
  · intro a
    rw [h.ok_iff a, List.length_cons]
    constructor
    · rintro ⟨n, hn, hok⟩
      exact ⟨n + 1, by omega, (hshift n).trans hok⟩
    · rintro ⟨n, hn, hok⟩
      cases n with
      | zero =>
        rw [hout] at hok
        cases hok
      | succ n => exact ⟨n, by omega, (hshift n).symm.trans hok⟩
  · intro i e hlow hhigh hseen
    by_cases hi : i < next
    · rw [hlook i hlow hi] at hseen
      cases hseen
    · exact h.cancelled i e (by omega) hhigh hseen
  · intro hlooks
    obtain ⟨n, hn, hr⟩ := h.last fun i hlow hhigh => hlooks i (by omega) hhigh
    exact ⟨n + 1, by rw [List.length_cons, hn], by rw [hr, hshift]⟩

end Retried

section Loop

variable {fsys : FileSystem} {outcome : Nat → Except Err α} {st : State logShare}

theorem attempt_scripted : attempt (scripted outcome) st =
    .ok (outcome st.disk.length) { st with disk := st.disk ++ [st.looks] } := by
  unfold attempt scripted
  cases outcome st.disk.length <;> rfl

theorem attempt_checkContext {S : Share} (fsys : FileSystem) (st : State S) :
    attempt fsys.checkContext st =
      .ok ((fsys.ctxErr st.looks).elim (.ok ()) .error) { st with looks := st.looks + 1 } := by
  unfold attempt FileSystem.checkContext
  cases fsys.ctxErr st.looks <;> rfl

/-- The state after a call in the loop. -/
def called (st : State logShare) : State logShare :=
  { st with looks := st.looks + 1, disk := st.disk ++ [st.looks + 1] }

/-- An iteration ends the loop with the outcome of its call, or goes on to the wait. -/
theorem retryLoop_step (outcome : Nat → Except Err α) (hctx : fsys.ctxErr st.looks = none)
    (n : Nat) :
    attempt (fsys.retryLoop (scripted outcome) n) st =
        .ok (outcome st.disk.length) (called st) ∨
      ∃ k err, n = k + 1 ∧ outcome st.disk.length = .error err ∧ isRetryable err = true ∧
        attempt (fsys.retryLoop (scripted outcome) n) st =
          attempt (fsys.checkContext >>= fun _ => fsys.retryLoop (scripted outcome) k)
            (called st) := by
  have hcall : attempt (attempt (scripted outcome)) { st with looks := st.looks + 1 } =
      .ok (.ok (outcome st.disk.length)) (called st) := by
    rw [attempt, attempt_scripted]
    rfl
  have honce : attempt (fsys.tryOnce (scripted outcome)) st = attempt (
      match outcome st.disk.length with
      | .ok a => pure (.ok a)
      | .error err => if isRetryable err then pure (.error err) else fail err) (called st) := by
    rw [FileSystem.tryOnce, attempt_bind, attempt_checkContext, hctx]
    dsimp only [Option.elim_none]
    refine (attempt_bind ..).trans ?_
    exact hcall ▸ rfl
  cases hout : outcome st.disk.length with
  | ok a =>
    rw [hout] at honce
    refine .inl ?_
    cases n <;> rw [FileSystem.retryLoop, attempt_bind, honce] <;> rfl
  | error err =>
    rw [hout] at honce
    by_cases herr : isRetryable err = true
    · simp only [if_pos herr] at honce
      cases n with
      | zero =>
        rw [FileSystem.retryLoop, attempt_bind, honce]
        exact .inl rfl
      | succ k =>
        refine .inr ⟨k, err, rfl, rfl, herr, ?_⟩
        rw [FileSystem.retryLoop, attempt_bind, honce]
        rfl
    · simp only [if_neg herr] at honce
      refine .inl ?_
      cases n <;> rw [FileSystem.retryLoop, attempt_bind, honce] <;> rfl

/-- A run of the loop, from a log of earlier calls. -/
theorem retryLoop_spec (fsys : FileSystem) (outcome : Nat → Except Err α) (n : Nat)
    (st : State logShare) :
    ∃ r st' calls, attempt (fsys.retryLoop (scripted outcome) n) st = .ok r st' ∧
      st'.disk = st.disk ++ calls ∧
      Retried fsys (fun i => outcome (st.disk.length + i)) (n + 1) st.looks calls st'.looks r := by
  induction n using Nat.strongRecOn generalizing st with
  | ind n ih =>
    cases hctx : fsys.ctxErr st.looks with
    | some stop =>
      refine ⟨.error stop, { st with looks := st.looks + 1 }, [], ?_, (List.append_nil _).symm,
        .never hctx⟩
      cases n <;> rw [FileSystem.retryLoop, FileSystem.tryOnce, attempt_bind, attempt_bind,
        attempt_checkContext, hctx] <;> rfl
    | none =>
      have hlook : ∀ i, st.looks ≤ i → i < st.looks + 1 → fsys.ctxErr i = none := by
        intro i hlow hhigh
        obtain rfl : i = st.looks := by omega
        exact hctx
      obtain hrun | ⟨k, err, rfl, hout, herr, hrun⟩ := retryLoop_step outcome hctx n
      · exact ⟨_, called st, [st.looks + 1], hrun, rfl, .once (Nat.le_add_left 1 n) hlook⟩
      rw [attempt_bind, attempt_checkContext] at hrun
      cases hwait : fsys.ctxErr (called st).looks with
      | some stop =>
        rw [hwait] at hrun
        refine ⟨.error stop, _, [st.looks + 1], hrun, rfl, ?_⟩
        exact .retry (Nat.lt_succ_self _) hlook hout herr (fun i => rfl) (.never hwait)
      | none =>
        rw [hwait] at hrun
        obtain ⟨r, st', calls, hrest, hdisk, h⟩ := ih k (Nat.lt_succ_self k)
          { called st with looks := st.looks + 2 }
        refine ⟨r, st', (st.looks + 1) :: calls, hrun.trans hrest, ?_, ?_⟩
        · rw [hdisk, called, List.append_assoc]
          rfl
        · refine .retry (show st.looks < st.looks + 2 by omega) ?_ hout herr ?_ h
          · intro i hlow hhigh
            obtain hi | rfl : i < st.looks + 1 ∨ i = st.looks + 1 := by omega
            · exact hlook i hlow hi
            · exact hwait
          · intro i
            have hlen : (called st).disk.length = st.disk.length + 1 := List.length_append
            exact congrArg outcome (by dsimp only; omega)

end Loop

/-- **Retries.** -/
theorem withRetry_spec (fsys : FileSystem) (outcome : Nat → Except Err α) (st : State logShare) :
    ∃ r st', attempt (fsys.withRetry (scripted outcome)) { st with disk := [] } = .ok r st' ∧
      Retried fsys outcome (max fsys.maxAttempts 1).toNat st.looks st'.disk st'.looks r ∧
      (fsys.maxAttempts ≤ 1 → st'.disk ≠ []) := by
  unfold FileSystem.withRetry
  split
  · next hone =>
    have hlimit : 1 ≤ (max fsys.maxAttempts 1).toNat := by omega
    exact ⟨_, _, attempt_scripted, .once hlimit fun i hlow hhigh => absurd hhigh (by dsimp only; omega),
      fun _ => List.cons_ne_nil _ _⟩
  · next hmore =>
    obtain ⟨r, st', calls, hrun, hdisk, h⟩ := retryLoop_spec fsys outcome
      (fsys.maxAttempts.toNat - 1) { st with disk := [] }
    have hlimit : fsys.maxAttempts.toNat - 1 + 1 = (max fsys.maxAttempts 1).toNat := by omega
    refine ⟨r, st', hrun, ?_, fun hone => absurd hone hmore⟩
    simpa [hdisk, hlimit] using h

/-! ## Converted errors -/

variable {s : Sentinel}

theorem is_eq_of_is {e : Err} (h : e.is s = true) (t : Sentinel) :
    e.is t = decide (s = t) := by
  induction e with
  | sentinel u =>
    rw [Err.is, decide_eq_true_eq] at h
    rw [Err.is, h]
  | net => cases h
  | other => cases h
  | pathError op path e ih => exact ih h
  | wrapped e ih => exact ih h

theorem asNet_eq_none {e : Err} (h : e.is s = true) : e.asNet = none := by
  induction e with
  | sentinel u => rfl
  | net => cases h
  | other => cases h
  | pathError op path e ih => exact ih h
  | wrapped e ih => exact ih h

/-- Looking at the wrapped errors finds nothing that the first look did not find. -/
theorem isRetryable_eq (e : Err) : isRetryable e = retryableHere e := by
  induction e with
  | sentinel u => rfl
  | net => rfl
  | other => rfl
  | pathError op path e ih =>
    rw [isRetryable, ih]
    exact Bool.or_self _
  | wrapped e ih =>
    rw [isRetryable, ih]
    exact Bool.or_self _

theorem isRetryable_of_is {e : Err} (h : e.is s = true) :
    isRetryable e = (decide (s = .connectionClosed) || decide (s = .poolExhausted)) := by
  rw [isRetryable_eq, retryableHere, asNet_eq_none h, is_eq_of_is h, is_eq_of_is h, Bool.false_or]

/-- **Converted errors.** -/
theorem isRetryable_convertError_iff (e : Err) :
    isRetryable (convertError e) = isRetryable e ↔ e.is .connectionClosed = false := by
  unfold convertError
  split
  · next hfs =>
    simp only [Bool.or_eq_true] at hfs
    refine iff_of_true rfl ?_
    rcases hfs with (((h | h) | h) | h) | h
    all_goals exact is_eq_of_is h _
  · split
    · next h =>
      rw [isRetryable_of_is h, h]
      decide
    · next hopen =>
      rw [Bool.not_eq_true] at hopen
      refine iff_of_true ?_ hopen
      split
      · next h => rw [isRetryable_of_is h]; rfl
      · split
        · next h => rw [isRetryable_of_is h]; rfl
        · rfl

/-- `ErrConnectionClosed` can be retried, and `fs.ErrClosed` cannot. -/
theorem isRetryable_convertError_closed :
    isRetryable (convertError (.sentinel .connectionClosed)) ≠
      isRetryable (.sentinel .connectionClosed) := by
  decide

end Smbfs.Client
