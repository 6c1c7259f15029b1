import Smbfs.Pool.Accounting

/-!
The order in which waiting callers of `get` are served. A call that has to wait
appends its channel to `p.waiters`, and `put` hands its connection to the first.

* `InTurn`: the calls served so far and the queue, in the order of the calls;
* `InTurn.put`, `InTurn.get`: the head of the queue is served, a call joins it;
* `waiters_served_in_order`: so over every run.
-/

namespace Smbfs.Pool

open Smbfs.Lib

variable {s t : System} {op : PoolOp} {served : List CallId} {k w : CallId} {call : Call}

/-- The call in the queue that the step hands a connection. -/
def handed (s : System) (op : PoolOp) : Option CallId :=
  s.pool.waiters.find? fun w => (s.step op).calls[w]?.any fun call => call.buffer.isSome

/-- Calls are served and wait in the order in which they began, and only those
served have a connection in their channel. -/
structure InTurn (served : List CallId) (s : System) : Prop where
  order : (served ++ s.pool.waiters).Pairwise (· < ·)
  begun : ∀ w ∈ served ++ s.pool.waiters, w < s.calls.length
  parked : ∀ (w : CallId) call, s.calls[w]? = some call → call.buffer ≠ none → w ∈ served

theorem Swept.waiters {clock : Clock} {p q : ConnectionPool} {out : List ConnRef}
    (h : Swept clock p q out) : q.waiters = p.waiters := by rw [h.same]

namespace InTurn

variable (h : InTurn served s)

include h

theorem parked_set {old new : Call} (hw : (s.calls.set k new)[w]? = some call)
    (hk : s.calls[k]? = some old) (hnew : new.buffer ≠ none → old.buffer ≠ none)
    (hcall : call.buffer ≠ none) : w ∈ served := by
  rcases (call_set (Q := (· = call)) hk).mp ⟨call, hw, rfl⟩ with ⟨rfl, rfl⟩ | ⟨-, _, hold, rfl⟩
  · exact h.parked w old hk (hnew hcall)
  · exact h.parked w _ hold hcall

theorem parked_append {ph : Phase} (hw : (s.calls ++ [.start ph])[w]? = some call)
    (hcall : call.buffer ≠ none) : w ∈ served := by
  rcases (call_append (Q := (· = call))).mp ⟨call, hw, rfl⟩ with ⟨_, hold, rfl⟩ | ⟨-, rfl⟩
  · exact h.parked w _ hold hcall
  · exact absurd rfl hcall

theorem handed_eq_none (hparked : ∀ (w : CallId) call, (s.step op).calls[w]? = some call →
    call.buffer ≠ none → w ∈ served) : handed s op = none := by
  refine List.find?_eq_none.mpr fun w hw hbuffer => ?_
  cases hcall : (s.step op).calls[w]? with
  | none => simp [hcall] at hbuffer
  | some call =>
    rw [hcall, Option.any_some, Option.isSome_iff_ne_none] at hbuffer
    have hserved := hparked w call hcall hbuffer
    exact Nat.lt_irrefl w ((List.pairwise_append.mp h.order).2.2 w hserved w hw)

/-- Nobody is served, and nobody joins the queue. -/
theorem keep (ht : s.step op = t) (hqueue : t.pool.waiters.Sublist s.pool.waiters)
    (hlen : s.calls.length ≤ t.calls.length)
    (hparked : ∀ (w : CallId) call, t.calls[w]? = some call → call.buffer ≠ none → w ∈ served) :
    InTurn (served ++ (handed s op).toList) t := by
  have hsub := (List.Sublist.refl served).append hqueue
  rw [h.handed_eq_none (ht ▸ hparked), Option.toList_none, List.append_nil]
  exact ⟨h.order.sublist hsub, fun w hw => Nat.lt_of_lt_of_le (h.begun w (hsub.subset hw)) hlen,
    hparked⟩

theorem set {ph ph' : Phase} {b b' : Option ConnRef} {cl : Bool} {p : ConnectionPool}
    (ht : s.step op = { s with pool := p, calls := s.calls.set k ⟨ph', b', cl⟩ })
    (hqueue : p.waiters.Sublist s.pool.waiters) (hk : s.calls[k]? = some ⟨ph, b, cl⟩)
    (hb : b' ≠ none → b ≠ none) : InTurn (served ++ (handed s op).toList)
      { s with pool := p, calls := s.calls.set k ⟨ph', b', cl⟩ } :=
  h.keep ht hqueue (by simp) fun _ _ hw => h.parked_set hw hk hb

theorem get {clock : Clock} (ht : s.step op = s.get clock) :
    InTurn (served ++ (handed s op).toList) (s.get clock) := by
  have hr := get_result s clock
  generalize s.get clock = t at hr ht ⊢
  cases hr with
  | closed => exact h.keep ht (.refl _) (by simp) fun _ _ => h.parked_append
  | found _ hsw | panicked _ hsw | creating _ hsw =>
    exact h.keep ht (by simp [hsw.waiters]) (by simp) fun _ _ => h.parked_append
  | waiting _ hsw =>
    rw [h.handed_eq_none (ht ▸ fun _ _ => h.parked_append), Option.toList_none, List.append_nil]
    refine ⟨?_, ?_, fun _ _ => h.parked_append⟩ <;> rw [hsw.waiters, ← List.append_assoc]
    · exact List.pairwise_append.mpr ⟨h.order, List.pairwise_singleton .., by simpa using h.begun⟩
    · intro w hw
      rcases List.mem_append.mp hw with hw | hw
      · exact Nat.lt_of_lt_of_le (h.begun w hw) (by simp)
      · simp_all

theorem put {now : Int} {c : ConnRef} {b : Option ConnRef} {cl : Bool}
    (hk : s.calls[k]? = some ⟨.holding c, b, cl⟩) (ht : s.step op = t)
    (hpool : t.pool = (System.putOpen s.pool (s.calls.set k ⟨.over, b, cl⟩) c now).1)
    (hcalls : t.calls = (System.putOpen s.pool (s.calls.set k ⟨.over, b, cl⟩) c now).2) :
    InTurn (served ++ (handed s op).toList) t := by
  cases hq : s.pool.waiters with
  | nil =>
    have hkeep : t.pool.waiters = [] ∧ t.calls = s.calls.set k ⟨.over, b, cl⟩ := by
      rw [hpool, hcalls]
      simp only [System.putOpen, hq]
      split <;> simp [hq]
    refine h.keep ht (by simp [hkeep.1]) (by simp [hkeep.2]) ?_
    rw [hkeep.2]
    exact fun _ _ hw => h.parked_set hw hk fun hb => hb
  | cons w ws =>
    have hlt : w < (s.calls.set k ⟨.over, b, cl⟩).length := by
      simpa using h.begun w (by simp [hq])
    simp only [System.putOpen, hq] at hpool hcalls
    rw [send_eq_set (List.getElem?_eq_getElem hlt)] at hcalls
    have hfirst : handed s op = some w := by
      rw [handed, hq, List.find?_cons_of_pos]
      rw [ht, hcalls, List.getElem?_set_self hlt]
      rfl
    have hqueue : served ++ [w] ++ t.pool.waiters = served ++ s.pool.waiters := by
      rw [hpool, hq, List.append_assoc]
      rfl
    rw [hfirst, Option.toList_some]
    refine ⟨hqueue ▸ h.order, fun j hj => ?_, fun j call hj hbuffer => ?_⟩
    · rw [hqueue] at hj
      simpa [hcalls] using h.begun j hj
    · rw [hcalls] at hj
      rcases (call_set (Q := (· = call)) (List.getElem?_eq_getElem hlt)).mp ⟨call, hj, rfl⟩ with
        ⟨rfl, -⟩ | ⟨-, _, hold, rfl⟩
      · exact List.mem_append_right _ (List.mem_singleton_self _)
      · exact List.mem_append_left _ (h.parked_set hold hk (fun hb => hb) hbuffer)

theorem step (op : PoolOp) : InTurn (served ++ (handed s op).toList) (s.step op) := by
  have hr := step_result s op
  generalize ht : s.step op = t at hr ⊢
  cases hr with
  | none | cleanup => exact h.keep ht (.refl _) (Nat.le_refl _) h.parked
  | get => exact h.get ht
  | put _ hk => exact h.put hk ht rfl rfl
  | created hk | createFailed _ hk | putClosed hk | timeout hk =>
    exact h.set ht (.refl _) hk fun hb => hb
  | cancel _ hk => exact h.set ht List.erase_sublist hk fun hb => hb
  | received hk | woken hk => exact h.set ht (.refl _) hk (absurd rfl)

end InTurn

/-- **Waiting callers are served in turn.** In every run the calls that got a
connection while they waited, in the order in which they got it, followed by
those still in the queue, are in the order in which they began; and every
connection in a channel came to a call in its turn. -/
theorem waiters_served_in_order (config : Config) (ops : List PoolOp) :
    let s := runFrom System.step (.init (.empty config)) ops
    let served := collect System.step handed (.init (.empty config)) ops
    (served ++ s.pool.waiters).Pairwise (· < ·) ∧
      ∀ (w : CallId) call, s.calls[w]? = some call → call.buffer ≠ none → w ∈ served := by
  have hstart : InTurn [] (.init (.empty config)) := ⟨.nil, nofun, by simp [System.init]⟩
  have hend := runFrom_collect (I := InTurn) (fun _ _ op h => h.step op) hstart ops
  exact ⟨hend.order, hend.parked⟩

end Smbfs.Pool
