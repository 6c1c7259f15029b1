import Smbfs.Pool.Accounting

/-!
The pool after `Close`.

* `System.next`: the steps of the users and `Close` itself;
* `Finished`: nothing is left in the pool and every connection it ever made
  is scheduled for closing;
* `ClosingFinal`: from the close on, every state is finished and no call of
  `get` returns a connection;
* `Tracked`: while the pool is open, a connection that is not in it any more
  is scheduled for closing;
* `closing_final_iff`: closing is final, however the run goes on, exactly if
  `Close` finds no creation in flight and no connection in the channel of a
  waiting call;
* `created_after_close`: a creation in flight puts its connection into the
  closed pool and hands it out.
-/

namespace Smbfs.Pool

open Smbfs.Lib

/-- A step of the users of the pool, or `Close`. -/
inductive PoolEvent where
  | use (op : PoolOp)
  | close

def System.next (s : System) : PoolEvent → System
  | .use op => s.step op
  | .close => if s.locked then s else s.close

structure Finished (s : System) : Prop where
  connections : s.pool.connections = []
  numOpen : s.pool.numOpen = 0
  scheduled : ∀ c < s.pool.nextConn, c ∈ s.pool.closing

/-- No call of `get` returns a connection between `s` and `t`. -/
def NoReturn (s t : System) : Prop := ∀ k c, Holds t.calls k c → Holds s.calls k c

/-- Closing is final along a run. -/
def ClosingFinal (s : System) (es : List PoolEvent) : Prop :=
  Always System.next (fun s => s.pool.closed = true → Finished s) s es ∧
  Along System.next (fun s e => s.pool.closed = true → NoReturn s (s.next e)) s es

/-- No creation is in flight, and no connection is on its way to a caller. -/
def Quiet (calls : List Call) : Prop :=
  ∀ (k : CallId) call, calls[k]? = some call →
    call.phase ≠ .creating ∧ (call.phase = .waiting → call.buffer = none)

/-! ## While the pool is open -/

def Tracked (p : ConnectionPool) : Prop :=
  ∀ c < p.nextConn, c ∈ p.connections ∨ c ∈ p.closing

theorem Tracked.swept {clock : Clock} {p q : ConnectionPool} {out : List ConnRef}
    (h : Tracked p) (hs : Swept clock p q out) : Tracked q := by
  have hnext : q.nextConn = p.nextConn := by rw [hs.same]
  have hclosing : q.closing = p.closing ++ out := by rw [hs.same]
  intro c hc
  rw [hnext] at hc
  rw [hclosing, List.mem_append]
  rcases h c hc with hin | hcl
  · rcases List.mem_append.mp (hs.perm.mem_iff.mp hin) with hin | hout
    · exact Or.inl hin
    · exact Or.inr (Or.inr hout)
  · exact Or.inr (Or.inl hcl)

variable {s : System}

theorem Tracked.get (h : Tracked s.pool) (clock : Clock) : Tracked (s.get clock).pool := by
  have hr := get_result s clock
  generalize s.get clock = t at hr ⊢
  cases hr with
  | closed => exact h
  | found _ hsw | panicked _ hsw | creating _ hsw | waiting _ hsw => exact (h.swept hsw :)

variable {p : ConnectionPool}

theorem Tracked.putOpen (h : Tracked p) (calls : List Call) (c : ConnRef)
    (now : Int) : Tracked (System.putOpen p calls c now).1 := by
  unfold System.putOpen
  split
  · exact h
  · simp only
    split
    · intro d hd
      rcases h d hd with hin | hcl
      · by_cases hdc : d = c
        · exact Or.inr (by simp [hdc])
        · exact Or.inl ((List.mem_erase_of_ne hdc).mpr hin)
      · exact Or.inr (List.mem_append_left _ hcl)
    · exact h

theorem step_tracked (s : System) (op : PoolOp) (h : Tracked s.pool) :
    Tracked (s.step op).pool := by
  have hr := step_result s op
  generalize s.step op = t at hr ⊢
  cases hr with
  | get => exact h.get _
  | created =>
    intro c hc
    rcases Nat.lt_succ_iff_lt_or_eq.mp hc with hlt | rfl
    · rcases h c hlt with hin | hcl
      · exact Or.inl (List.mem_append_left _ hin)
      · exact Or.inr hcl
    · exact Or.inl (by simp)
  | putClosed =>
    intro d hd
    exact (h d hd).imp_right fun hcl => List.mem_append_left _ hcl
  | put => exact h.putOpen _ _ _
  | @cleanup now _ =>
    intro c hc
    rcases h c hc with hin | hcl
    · cases he : System.expired s.pool now c with
      | true => exact Or.inr (List.mem_append_right _ (List.mem_filter.mpr ⟨hin, he⟩))
      | false => exact Or.inl (List.mem_filter.mpr ⟨hin, by simp [he]⟩)
    · exact Or.inr (List.mem_append_left _ hcl)
  | _ => exact h

/-- `Close` moves what is in the pool to the connections being closed. -/
theorem next_tracked (s : System) (e : PoolEvent) (h : Tracked s.pool) :
    Tracked (s.next e).pool := by
  cases e with
  | use op => exact step_tracked s op h
  | close =>
    simp only [System.next]
    split
    · exact h
    · unfold System.close
      split
      · exact h
      · intro c hc
        refine Or.inr (List.mem_append.mpr ?_)
        exact (h c hc).symm

theorem init_tracked {config : Config}
    (h : newConnectionPool config = some p) : Tracked p := by
  unfold newConnectionPool at h
  split at h
  · cases h
  · cases h
    intro c hc
    exact absurd hc (Nat.not_lt_zero c)

/-! ## After `Close` -/

structure Closed (s : System) : Prop extends Finished s where
  closed : s.pool.closed = true
  quiet : Quiet s.calls

/-- A call that is over has no part in the pool any more. -/
theorem Quiet.set_over {calls : List Call} (h : Quiet calls) (k : CallId) (b : Option ConnRef)
    (cl : Bool) : Quiet (calls.set k ⟨.over, b, cl⟩) := by
  intro j call hj
  exact forall_call_set h (by simp) hj

theorem Quiet.append_over {calls : List Call} (h : Quiet calls) :
    Quiet (calls ++ [.start .over]) := by
  intro j call hj
  by_cases hlt : j < calls.length
  · rw [List.getElem?_append_left hlt] at hj
    exact h j call hj
  · rw [List.getElem?_append_right (Nat.not_lt.mp hlt)] at hj
    rw [List.mem_singleton.mp (List.mem_of_getElem? hj)]
    simp [Call.start]

variable {k : CallId} {b : Option ConnRef}

theorem noReturn_set_over {s t : System} {old : Call} {cl : Bool}
    (hk : s.calls[k]? = some old) (ht : t.calls = s.calls.set k ⟨.over, b, cl⟩) : NoReturn s t := by
  intro j c hj
  unfold Holds at hj
  rw [ht, call_set hk] at hj
  rcases hj with ⟨_, hj⟩ | ⟨_, hj⟩
  · cases hj
  · exact hj

theorem noReturn_append_over {s t : System} (ht : t.calls = s.calls ++ [.start .over]) :
    NoReturn s t := by
  intro j c hj
  unfold Holds at hj
  rw [ht, call_append] at hj
  rcases hj with hj | ⟨_, hj⟩
  · exact hj
  · cases hj

theorem NoReturn.refl (s : System) : NoReturn s s := fun _ _ h => h

/-- A call ends; the pool stays as it is, but for its queue and the
connections being closed. -/
theorem Closed.finish {s t : System} {old : Call} {cl : Bool}
    (h : Closed s) (hk : s.calls[k]? = some old) (hcalls : t.calls = s.calls.set k ⟨.over, b, cl⟩)
    (hpool : t.pool =
      { s.pool with waiters := t.pool.waiters, closing := t.pool.closing })
    (hclosing : s.pool.closing ⊆ t.pool.closing) : Closed t ∧ NoReturn s t := by
  refine ⟨⟨⟨?_, ?_, ?_⟩, ?_, ?_⟩, noReturn_set_over hk hcalls⟩
  · rw [hpool]
    exact h.connections
  · rw [hpool]
    exact h.numOpen
  · intro c hc
    rw [hpool] at hc
    exact hclosing (h.scheduled c hc)
  · rw [hpool]
    exact h.closed
  · rw [hcalls]
    exact h.quiet.set_over k b cl

theorem step_closed (h : Closed s) (op : PoolOp) : Closed (s.step op) ∧ NoReturn s (s.step op) := by
  have hr := step_result s op
  generalize s.step op = t at hr ⊢
  cases hr with
  | none => exact ⟨h, .refl s⟩
  | get =>
    simp only [System.get, h.closed, if_true]
    exact ⟨⟨⟨h.connections, h.numOpen, h.scheduled⟩, h.closed, h.quiet.append_over⟩,
      noReturn_append_over rfl⟩
  | created hk | createFailed _ hk => exact absurd rfl (h.quiet _ _ hk).1
  | received hk => cases (h.quiet _ _ hk).2 rfl
  | woken hk | cancel _ hk | timeout hk => exact h.finish hk rfl rfl (List.Subset.refl _)
  | putClosed hk _ => exact h.finish hk rfl rfl (List.subset_append_left _ _)
  | put _ _ hopen | cleanup hopen => cases hopen.symm.trans h.closed

theorem next_closed (h : Closed s) (e : PoolEvent) : Closed (s.next e) ∧ NoReturn s (s.next e) := by
  cases e with
  | use op => exact step_closed h op
  | close =>
    have hsame : s.close = s := by simp [System.close, h.closed]
    simp only [System.next, hsame, ite_self]
    exact ⟨h, .refl s⟩

theorem Closed.final (h : Closed s) (es : List PoolEvent) : ClosingFinal s es := by
  have hall : Along System.next (fun _ _ => True) s es := along_of_forall fun _ _ => trivial
  have hstep : ∀ s e, Closed s → True → Closed (s.next e) := fun s e hs _ => (next_closed hs e).1
  constructor
  · refine always_of_along hstep ?_ h hall
    intro s hs _
    exact hs.toFinished
  · refine along_imp hstep ?_ h hall
    intro s e hs _ _
    exact (next_closed hs e).2

/-! ## `Close` -/

variable {call : Call}

section

variable (hopen : s.pool.closed = false)

include hopen

/-- `Close` of an open pool only closes channels of the calls. -/
theorem close_call
    (hk : s.calls[k]? = some call) : ∃ cl, s.close.calls[k]? = some { call with closed := cl } := by
  simp only [System.close, hopen, Bool.false_eq_true, if_false, List.getElem?_mapIdx, hk,
    Option.map_some]
  split
  · exact ⟨true, rfl⟩
  · exact ⟨call.closed, rfl⟩

theorem close_call_of (hk : s.close.calls[k]? = some call) :
    ∃ old, s.calls[k]? = some old ∧ call.phase = old.phase ∧ call.buffer = old.buffer := by
  cases hold : s.calls[k]? with
  | none => simp [System.close, hopen, hold] at hk
  | some old =>
    obtain ⟨cl, hcl⟩ := close_call hopen hold
    rw [hcl] at hk
    cases hk
    exact ⟨old, rfl, rfl, rfl⟩

theorem close_closed (ht : Tracked s.pool) (hq : Quiet s.calls) : Closed s.close := by
  refine ⟨⟨?_, ?_, ?_⟩, ?_, ?_⟩
  · simp [System.close, hopen]
  · simp [System.close, hopen]
  · intro c hc
    simp only [System.close, hopen, Bool.false_eq_true, if_false] at hc ⊢
    exact List.mem_append.mpr (ht c hc).symm
  · simp [System.close, hopen]
  · intro k call hk
    obtain ⟨old, hold, hph, hb⟩ := close_call_of hopen hk
    rw [hph, hb]
    exact hq k old hold

/-- A creation that is in flight when the pool is closed gives back a
reservation that is not there any more. -/
theorem not_final_of_creating (hfree : s.locked = false)
    (hk : s.calls[k]? = some call) (hph : call.phase = .creating) :
    ¬ ClosingFinal s.close [.use (.createFailed k)] := by
  obtain ⟨ph, b, cl⟩ := call
  cases hph
  obtain ⟨cl', hk'⟩ := close_call hopen hk
  have hlock : s.close.locked = false := by simpa [System.close, hopen] using hfree
  rintro ⟨⟨_, hlast⟩, _⟩
  simp only [Always, System.next, System.step, hlock, Bool.false_and, Bool.false_eq_true, if_false,
    System.createFailed, hk'] at hlast
  have hnum := (hlast (by simp [System.close, hopen])).numOpen
  simp [System.close, hopen] at hnum

/-- A connection that is in a channel when the pool is closed is still received. -/
theorem not_final_of_delivered
    {c : ConnRef} (hk : s.calls[k]? = some call) (hph : call.phase = .waiting)
    (hb : call.buffer = some c) : ¬ ClosingFinal s.close [.use (.receive k)] := by
  obtain ⟨ph, b, cl⟩ := call
  cases hph
  cases hb
  obtain ⟨cl', hk'⟩ := close_call hopen hk
  rintro ⟨_, hret, _⟩
  have hlt := (List.getElem?_eq_some_iff.mp hk').1
  have hstep : s.close.next (.use (.receive k)) = s.close.setCall k ⟨.holding c, none, cl'⟩ := by
    simp [System.next, System.step, PoolOp.lockFree, System.receive, hk']
  rw [hstep] at hret
  obtain ⟨call, hcall, hphase⟩ := hret (by simp [System.close, hopen]) k c
    ⟨_, List.getElem?_set_self hlt, rfl⟩
  rw [hk'] at hcall
  cases hcall
  cases hphase

end

/-- **Closing is final, however the run goes on, exactly if `Close` finds no
creation in flight and no connection in the channel of a waiting call.** -/
theorem closing_final_iff (config : Config) (p : ConnectionPool)
    (h : newConnectionPool config = some p) (es : List PoolEvent) :
    let s := runFrom System.next (System.init p) es
    s.locked = false → s.pool.closed = false →
    ((∀ fs, ClosingFinal (s.next .close) fs) ↔ Quiet s.calls) := by
  intro s hfree hopen
  have hclose : s.next .close = s.close := by simp [System.next, hfree]
  have ht : Tracked s.pool :=
    runFrom_invariant (I := fun s => Tracked s.pool) (fun s e => next_tracked s e)
      (init_tracked h) es
  rw [hclose]
  constructor
  · intro hfinal k call hk
    constructor
    · intro hph
      exact not_final_of_creating hopen hfree hk hph (hfinal _)
    · intro hph
      cases hb : call.buffer with
      | none => rfl
      | some c => exact absurd (hfinal _) (not_final_of_delivered hopen hk hph hb)
  · intro hq fs
    exact (close_closed hopen ht hq).final fs

/-- One caller has the connection and another one waits when the pool is closed. -/
theorem closing_final_in_use :
    let config : Config := ⟨1, 1, 10⟩
    let s := runFrom System.next (System.init (.empty config))
      [.use (.get (.stopped 0)), .use (.created 0 0 0), .use (.get (.stopped 0))]
    newConnectionPool config = some (.empty config) ∧ s.locked = false ∧
    s.pool.closed = false ∧ ∀ fs, ClosingFinal (s.next .close) fs := by
  refine ⟨rfl, rfl, rfl, (closing_final_iff ⟨1, 1, 10⟩ _ rfl _ rfl rfl).mpr ?_⟩
  intro k call hk
  have hcall : call ∈ [⟨.holding 0, none, false⟩, (⟨.waiting, none, false⟩ : Call)] :=
    List.mem_of_getElem? hk
  simp only [List.mem_cons, List.not_mem_nil, or_false] at hcall
  rcases hcall with rfl | rfl <;> simp

/-- The pool is closed while `createConnection` runs: its connection is put
into the closed pool and returned, and nothing closes it. -/
theorem created_after_close :
    let config : Config := ⟨1, 1, 10⟩
    let es : List PoolEvent := [.use (.get (.stopped 0)), .close, .use (.created 0 0 0)]
    let s := runFrom System.next (System.init (.empty config)) es
    newConnectionPool config = some (.empty config) ∧
    s.pool.closed = true ∧ s.pool.connections = [0] ∧ s.pool.closing = [] ∧ Holds s.calls 0 0 ∧
    ¬ ClosingFinal (System.init (.empty config)) es := by
  refine ⟨rfl, rfl, rfl, rfl, ⟨_, rfl, rfl⟩, fun h => ?_⟩
  exact absurd (h.1.last rfl).connections (List.cons_ne_nil _ _)

end Smbfs.Pool
