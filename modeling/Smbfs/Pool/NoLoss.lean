import Smbfs.Pool.Accounting

/-!
Which runs of the open pool lose no connection.

* `NotLost`: every connection marked inUse is held by a caller, or is in the
  channel of a call that still waits;
* `Prompt`: a put finds the head of the queue still waiting, and a call that
  gives up has an empty channel;
* `not_lost_iff_prompt`: the runs that lose nothing are exactly the prompt
  ones;
* `timed_out_waiter_takes_connection`: three calls of `get` and one timeout
  are enough to lose a connection.
-/

namespace Smbfs.Pool

open Smbfs.Lib

/-! ## Accessible connections -/

/-- The call returned `c` and its caller has it, or `c` is in its channel and
the call has not returned. -/
def Call.Has (call : Call) (c : ConnRef) : Prop :=
  call.phase = .holding c ∨ (call.phase = .waiting ∧ call.buffer = some c)

def Accessible (calls : List Call) (c : ConnRef) : Prop :=
  ∃ (k : CallId) (call : Call), calls[k]? = some call ∧ call.Has c

/-- No connection of the pool is lost. -/
def NotLost (s : System) : Prop :=
  ∀ c ∈ s.pool.connections, (s.pool.conn c).inUse = true → Accessible s.calls c

variable {p : ConnectionPool} {calls : List Call} {s : System} {k : CallId} {call : Call}
  {c : ConnRef}

theorem Call.Has.owns (h : call.Has c) : call.Owns c := by
  rcases h with h | ⟨_, h⟩
  · exact Or.inl h
  · exact Or.inr h

theorem Accessible.append (h : Accessible calls c) (call : Call) :
    Accessible (calls ++ [call]) c := by
  obtain ⟨k, old, hk, hc⟩ := h
  refine ⟨k, old, ?_, hc⟩
  rw [List.getElem?_append_left (List.getElem?_eq_some_iff.mp hk).1]
  exact hk

theorem accessible_start (calls : List Call) (c : ConnRef) :
    Accessible (calls ++ [.start (.holding c)]) c :=
  ⟨calls.length, _, List.getElem?_concat_length, Or.inl rfl⟩

/-- A connection stays accessible when the call that had it keeps it. -/
theorem Accessible.set {old call : Call} (h : Accessible calls c) (hk : calls[k]? = some old)
    (hkeep : old.Has c → call.Has c) :
    Accessible (calls.set k call) c := by
  have hlt : k < calls.length := (List.getElem?_eq_some_iff.mp hk).1
  obtain ⟨j, call', hj, hc⟩ := h
  by_cases hjk : j = k
  · subst hjk
    rw [hk] at hj
    cases hj
    exact ⟨j, call, List.getElem?_set_self hlt, hkeep hc⟩
  · exact ⟨j, call', by rw [List.getElem?_set_ne (Ne.symm hjk)]; exact hj, hc⟩

theorem accessible_set_self {old call : Call} (hk : calls[k]? = some old) (hc : call.Has c) :
    Accessible (calls.set k call) c :=
  ⟨k, call, List.getElem?_set_self (List.getElem?_eq_some_iff.mp hk).1, hc⟩

/-- A connection owned by a call that does not have it is not accessible. -/
theorem Accounted.not_accessible (h : Accounted p calls) (hk : calls[k]? = some call)
    (hown : call.Owns c) (hno : ¬ call.Has c) : ¬ Accessible calls c := by
  rintro ⟨j, call', hj, hc⟩
  cases h.unique j k c ⟨call', hj, hc.owns⟩ ⟨call, hk, hown⟩
  rw [hk] at hj
  cases hj
  exact hno hc

/-! ## Prompt steps -/

/-- The longest waiting call has not given up when a connection is put back,
and no call gives up with a connection in its channel. -/
def Prompt (s : System) : PoolOp → Prop
  | .put k _ => s.locked = false → (∃ c, Holds s.calls k c) →
      ∀ w ws, s.pool.waiters = w :: ws → ∃ call, s.calls[w]? = some call ∧ call.phase = .waiting
  | .cancel k => s.locked = false → ∀ call, s.calls[k]? = some call → call.phase = .waiting →
      call.buffer = none
  | .timeout k => ∀ call, s.calls[k]? = some call → call.phase = .waiting → call.buffer = none
  | _ => True

theorem NotLost.swept {clock : Clock} {q : ConnectionPool} {out : List ConnRef} (h : NotLost s)
    (hs : Swept clock s.pool q out) (c : ConnRef) (hc : c ∈ q.connections)
    (hu : (q.conn c).inUse = true) : Accessible s.calls c := by
  have hconn : q.conn = s.pool.conn := by rw [hs.same]
  rw [hconn] at hu
  exact h c (hs.perm.mem_iff.mpr (List.mem_append_left _ hc)) hu

theorem NotLost.get (h : NotLost s) (clock : Clock) : NotLost (s.get clock) := by
  have hr := get_result s clock
  generalize s.get clock = t at hr ⊢
  cases hr with
  | closed => exact fun c hc hu => (h c hc hu).append _
  | @found p out c t _ hsw =>
    intro d hd hu
    by_cases hdc : d = c
    · subst hdc
      exact accessible_start s.calls d
    · rw [p.setConn_conn_ne c _ hdc] at hu
      exact (h.swept hsw d hd hu).append _
  | panicked _ hsw | creating _ hsw | waiting _ hsw =>
    exact fun d hd hu => (h.swept hsw d hd hu).append _

/-- A step that only changes the state of one call. -/
theorem NotLost.setCall {s t : System} {old call : Call} (h : NotLost s)
    (hk : s.calls[k]? = some old) (hconns : t.pool.connections = s.pool.connections)
    (hconn : t.pool.conn = s.pool.conn) (hcalls : t.calls = s.calls.set k call)
    (hkeep : ∀ c, old.Has c → call.Has c) : NotLost t := by
  intro c hc hu
  rw [hconns] at hc
  rw [hconn] at hu
  rw [hcalls]
  exact (h c hc hu).set hk (hkeep c)

/-- `put` on a pool where everything but `c` is accessible. -/
theorem notLost_putOpen (now : Int) (hnd : p.connections.Nodup)
    (hrest : ∀ d ∈ p.connections, d ≠ c → (p.conn d).inUse = true → Accessible calls d)
    (hhead : ∀ w ws, p.waiters = w :: ws → ∃ call, calls[w]? = some call ∧
      call.phase = .waiting ∧ call.buffer = none) :
    ∀ d ∈ (System.putOpen p calls c now).1.connections,
      ((System.putOpen p calls c now).1.conn d).inUse = true →
      Accessible (System.putOpen p calls c now).2 d := by
  unfold System.putOpen
  split
  · rename_i w ws hw
    obtain ⟨call, hk, hph, hb⟩ := hhead w ws hw
    rw [send_eq_set hk]
    intro d hd hu
    by_cases hdc : d = c
    · subst hdc
      exact accessible_set_self hk (Or.inr ⟨hph, rfl⟩)
    · refine (hrest d hd hdc ?_).set hk ?_
      · simpa [p.setConn_conn_ne _ _ hdc] using hu
      · rintro (hh | ⟨_, hh⟩)
        · rw [hph] at hh
          cases hh
        · rw [hb] at hh
          cases hh
  · simp only
    split
    · intro d hd hu
      have hdc : d ≠ c := by
        rintro rfl
        exact absurd hd (List.Nodup.not_mem_erase hnd)
      refine hrest d (List.mem_of_mem_erase hd) hdc ?_
      simpa [p.setConn_conn_ne _ _ hdc] using hu
    · intro d hd hu
      have hdc : d ≠ c := by
        rintro rfl
        simp at hu
      refine hrest d hd hdc ?_
      simpa [p.setConn_conn_ne _ _ hdc] using hu

theorem NotLost.put (h : NotLost s) (hacc : Accounted s.pool s.calls) {b : Option ConnRef}
    {cl : Bool} (hk : s.calls[k]? = some ⟨.holding c, b, cl⟩)
    (hhead : ∀ w ws, s.pool.waiters = w :: ws →
      ∃ call, s.calls[w]? = some call ∧ call.phase = .waiting) (now : Int) :
    ∀ d ∈ (System.putOpen s.pool (s.calls.set k ⟨.over, b, cl⟩) c now).1.connections,
      ((System.putOpen s.pool (s.calls.set k ⟨.over, b, cl⟩) c now).1.conn d).inUse = true →
      Accessible (System.putOpen s.pool (s.calls.set k ⟨.over, b, cl⟩) c now).2 d := by
  refine notLost_putOpen now hacc.nodup ?_ ?_
  · intro d hd hdc hu
    refine (h d hd hu).set hk ?_
    rintro (hh | ⟨hh, _⟩)
    · cases hh
      exact absurd rfl hdc
    · cases hh
  · intro w ws hw
    obtain ⟨call, hcall, hph⟩ := hhead w ws hw
    obtain ⟨call', hcall', hb, _⟩ := hacc.queue w (by simp [hw])
    rw [hcall] at hcall'
    cases hcall'
    have hne : k ≠ w := by
      rintro rfl
      rw [hk] at hcall
      cases hcall
      cases hph
    exact ⟨call, by rw [List.getElem?_set_ne hne]; exact hcall, hph, hb⟩

theorem step_notLost {op : PoolOp} (h : NotLost s) (hacc : Accounted s.pool s.calls)
    (hopen : s.pool.closed = false) (hp : Prompt s op) : NotLost (s.step op) := by
  have hr := step_result s op
  generalize s.step op = t at hr ⊢
  cases hr with
  | none => exact h
  | get => exact h.get _
  | created hk =>
    intro c hc hu
    by_cases hnew : c = s.pool.nextConn
    · subst hnew
      exact accessible_set_self hk (Or.inl rfl)
    · rcases List.mem_append.mp hc with hc | hc
      · refine (h c hc ?_).set hk ?_
        · simpa [s.pool.setConn_conn_ne _ _ hnew] using hu
        · rintro (hh | ⟨hh, _⟩) <;> cases hh
      · exact absurd (List.mem_singleton.mp hc) hnew
  | createFailed _ hk =>
    refine h.setCall hk rfl rfl rfl ?_
    rintro c (hh | ⟨hh, _⟩) <;> cases hh
  | woken hk =>
    refine h.setCall hk rfl rfl rfl ?_
    rintro c (hh | ⟨_, hh⟩) <;> cases hh
  | received hk =>
    refine h.setCall hk rfl rfl rfl ?_
    rintro d (hh | ⟨_, hh⟩)
    · cases hh
    · cases hh
      exact Or.inl rfl
  | cancel hfree hk =>
    cases hp hfree _ hk rfl
    refine h.setCall hk rfl rfl rfl ?_
    rintro d (hh | ⟨_, hh⟩) <;> cases hh
  | timeout hk =>
    cases hp _ hk rfl
    refine h.setCall hk rfl rfl rfl ?_
    rintro d (hh | ⟨_, hh⟩) <;> cases hh
  | putClosed _ hclosed => cases hclosed.symm.trans hopen
  | put hfree hk _ => exact h.put hacc hk (hp hfree ⟨_, _, hk, rfl⟩) _
  | cleanup => exact fun c hc hu => h c (List.mem_filter.mp hc).1 hu

/-! ## Steps that are not prompt -/

/-- A call that is over with a connection in its channel has lost it. -/
theorem lost_of_over (hacc : Accounted s.pool s.calls) (hk : s.calls[k]? = some call)
    (hph : call.phase = .over) (hb : call.buffer = some c) : ¬ NotLost s := by
  intro h
  have hown : call.Owns c := Or.inr hb
  obtain ⟨hc, hu⟩ := hacc.live k c ⟨call, hk, hown⟩
  refine hacc.not_accessible hk hown ?_ (h c hc hu)
  rintro (hh | ⟨hh, _⟩) <;> rw [hph] at hh <;> cases hh

theorem step_cancel (h : s.locked = false) : s.step (.cancel k) = s.cancel k := by
  simp [System.step, h]

theorem step_put {now : Int} (h : s.locked = false) : s.step (.put k now) = s.put k now := by
  simp [System.step, h]

theorem step_timeout (s : System) (k : CallId) : s.step (.timeout k) = s.timeout k := by
  simp [System.step, PoolOp.lockFree]

theorem step_lost {config : Config} {op : PoolOp} (h : RunInv config s) (hp : ¬ Prompt s op) :
    ¬ NotLost (s.step op) := by
  have hacc := (step_runInv config s op h).accounted
  cases op with
  | get | created | createFailed | receive | cleanup => exact absurd trivial hp
  | cancel k =>
    simp only [Prompt, not_forall] at hp
    obtain ⟨hfree, ⟨ph, b, cl⟩, hk, hph, hb⟩ := hp
    cases hph
    obtain ⟨c, rfl⟩ := Option.ne_none_iff_exists'.mp hb
    rw [step_cancel hfree] at hacc ⊢
    have hk' : (s.cancel k).calls[k]? = some ⟨.over, some c, cl⟩ := by
      simp only [System.cancel, hk]
      exact List.getElem?_set_self (List.getElem?_eq_some_iff.mp hk).1
    exact lost_of_over hacc hk' rfl rfl
  | timeout k =>
    simp only [Prompt, not_forall] at hp
    obtain ⟨⟨ph, b, cl⟩, hk, hph, hb⟩ := hp
    cases hph
    obtain ⟨c, rfl⟩ := Option.ne_none_iff_exists'.mp hb
    rw [step_timeout] at hacc ⊢
    have hk' : (s.timeout k).calls[k]? = some ⟨.over, some c, cl⟩ := by
      simp only [System.timeout, hk, System.setCall]
      exact List.getElem?_set_self (List.getElem?_eq_some_iff.mp hk).1
    exact lost_of_over hacc hk' rfl rfl
  | put k now =>
    simp only [Prompt, not_forall] at hp
    obtain ⟨hfree, ⟨c, ⟨ph, b, cl⟩, hk, hc⟩, w, ws, hw, hno⟩ := hp
    cases hc
    obtain ⟨call, hcall, hb, hph⟩ := h.accounted.queue w (by simp [hw])
    have hover : call.phase = .over := by
      rcases hph with hph | hph
      · exact absurd ⟨call, hcall, hph⟩ hno
      · exact hph
    have hne : k ≠ w := by
      rintro rfl
      rw [hk] at hcall
      cases hcall
      cases hover
    have hcall' : (s.calls.set k ⟨.over, b, cl⟩)[w]? = some call := by
      rw [List.getElem?_set_ne hne]
      exact hcall
    rw [step_put hfree] at hacc ⊢
    have hw' : (s.put k now).calls[w]? = some { call with buffer := some c } := by
      simp only [System.put, hk, h.not_closed, Bool.false_eq_true, ↓reduceIte, System.putOpen, hw]
      rw [send_eq_set hcall']
      exact List.getElem?_set_self (List.getElem?_eq_some_iff.mp hcall').1
    exact lost_of_over hacc hw' hover rfl

theorem init_notLost {config : Config} (h : newConnectionPool config = some p) :
    NotLost (.init p) := by
  unfold newConnectionPool at h
  split at h
  · cases h
  · cases h
    intro c hc
    cases hc

/-- **No connection is lost, exactly in the prompt runs.** -/
theorem not_lost_iff_prompt (config : Config) (p : ConnectionPool)
    (h : newConnectionPool config = some p) (ops : List PoolOp) :
    Always System.step NotLost (System.init p) ops ↔
      Along System.step Prompt (System.init p) ops := by
  refine always_iff_along (I := fun s => RunInv config s ∧ NotLost s) ?_ ?_ ?_ ?_
  · rintro s op ⟨hr, hn⟩ hp
    exact ⟨step_runInv config s op hr, step_notLost hn hr.accounted hr.not_closed hp⟩
  · rintro s ⟨_, hn⟩
    exact hn
  · rintro s op ⟨hr, _⟩ hp
    exact step_lost hr hp
  · exact ⟨init_runInv h, init_notLost h⟩

/-- One connection; the second caller waits, is handed the connection, and
puts it back. -/
theorem not_lost_hand_over :
    let config : Config := ⟨1, 1, 10⟩
    let ops : List PoolOp :=
      [.get (.stopped 0), .created 0 0 0, .get (.stopped 0), .put 0 1, .receive 1, .put 1 2]
    newConnectionPool config = some (.empty config) ∧
    Always System.step NotLost (System.init (.empty config)) ops := by
  refine ⟨rfl, (not_lost_iff_prompt ⟨1, 1, 10⟩ _ rfl _).mpr ?_⟩
  refine ⟨trivial, trivial, trivial, ?_, trivial, ?_, trivial⟩
  · intro _ _ w ws hw
    cases hw
    exact ⟨.start .waiting, rfl, rfl⟩
  · intro _ _ w ws hw
    cases hw

/-- One connection; the second caller times out, and the connection put back
by the first goes to the channel nobody reads. -/
theorem timed_out_waiter_takes_connection :
    let config : Config := ⟨1, 1, 10⟩
    let ops : List PoolOp :=
      [.get (.stopped 0), .created 0 0 0, .get (.stopped 0), .timeout 1, .put 0 1]
    newConnectionPool config = some (.empty config) ∧
    ¬ NotLost (runFrom System.step (System.init (.empty config)) ops) := by
  refine ⟨rfl, fun h => ?_⟩
  obtain ⟨k, call, hk, hc⟩ := h 0 (by decide) rfl
  have hcalls : call ∈ [⟨.over, none, false⟩, (⟨.over, some 0, false⟩ : Call)] :=
    List.mem_of_getElem? hk
  simp only [List.mem_cons, List.not_mem_nil, or_false] at hcalls
  rcases hcalls with rfl | rfl <;> rcases hc with hc | ⟨hc, _⟩ <;> cases hc

end Smbfs.Pool
