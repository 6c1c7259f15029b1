import Mathlib.Data.List.Perm.Basic
import Smbfs.Pool.Sweep

/-!
Accounting and exclusivity of the connection pool.

* `Accounted`: the invariant, over the pool and the table of `get` calls. It
  strengthens the counting equation with the creations in flight and with the
  connections that sit in a channel;
* `step_accounted`: every step of the users of an open pool keeps it;
* `pool_accounting`: numOpen counts the connections and the creations in
  flight and stays within bounds, no connection is listed twice, an idle
  connection is held by nobody and no connection is held by two callers.
-/

namespace Smbfs.Pool

open Smbfs.Lib

/-! ## Ownership -/

/-- The call was given the connection: it returned it, or has it in its channel. -/
def Call.Owns (call : Call) (c : ConnRef) : Prop :=
  call.phase = .holding c ∨ call.buffer = some c

def Owns (calls : List Call) (k : CallId) (c : ConnRef) : Prop :=
  ∃ call, calls[k]? = some call ∧ call.Owns c

/-- The caller of `get` number `k` has `c` and has not put it back. -/
def Holds (calls : List Call) (k : CallId) (c : ConnRef) : Prop :=
  ∃ call, calls[k]? = some call ∧ call.phase = .holding c

variable {s : System} {Q : Call → Prop} {p : ConnectionPool} {calls : List Call} {new : Call}
  {call : Call} {k : CallId} {ph : Phase} {c : ConnRef}

theorem Holds.owns (h : Holds calls k c) : Owns calls k c := by
  obtain ⟨call, hk, hc⟩ := h
  exact ⟨call, hk, Or.inl hc⟩

/-- Number of connections being created. -/
def inflight (calls : List Call) : Nat := calls.countP (·.phase == .creating)

theorem start_owns : (Call.start ph).Owns c ↔ ph = .holding c := by
  simp [Call.start, Call.Owns]

/-! What is known of a call after a call was added, or changed. -/

theorem call_append :
    (∃ call, (calls ++ [new])[k]? = some call ∧ Q call) ↔
      (∃ call, calls[k]? = some call ∧ Q call) ∨ (k = calls.length ∧ Q new) := by
  rcases Nat.lt_trichotomy k calls.length with h | h | h
  · rw [List.getElem?_append_left h]
    simp only [Nat.ne_of_lt h, false_and, or_false]
  · subst h
    simp
  · rw [List.getElem?_eq_none (by simp; omega), List.getElem?_eq_none (by omega)]
    simp [Nat.ne_of_gt h]

theorem call_set {k j : CallId} {old new : Call} (hk : calls[k]? = some old) :
    (∃ call, (calls.set k new)[j]? = some call ∧ Q call) ↔
      (j = k ∧ Q new) ∨ (j ≠ k ∧ ∃ call, calls[j]? = some call ∧ Q call) := by
  have hlt : k < calls.length := (List.getElem?_eq_some_iff.mp hk).1
  by_cases h : j = k
  · subst h
    rw [List.getElem?_set_self hlt]
    simp
  · rw [List.getElem?_set_ne (Ne.symm h)]
    simp [h]

theorem forall_call_set (h : ∀ (i : CallId) call, calls[i]? = some call → Q call) (hnew : Q new)
    {j : CallId} (hj : (calls.set k new)[j]? = some call) :
    Q call := by
  rcases List.mem_or_eq_of_mem_set (List.mem_of_getElem? hj) with hmem | rfl
  · obtain ⟨i, hi⟩ := List.getElem?_of_mem hmem
    exact h i call hi
  · exact hnew

theorem owns_append :
    Owns (calls ++ [call]) k c ↔ Owns calls k c ∨ (k = calls.length ∧ call.Owns c) := call_append

theorem owns_set {k j : CallId} {old call : Call} (hk : calls[k]? = some old) :
    Owns (calls.set k call) j c ↔ (j = k ∧ call.Owns c) ∨ (j ≠ k ∧ Owns calls j c) := call_set hk

theorem inflight_append (calls : List Call) (call : Call) :
    inflight (calls ++ [call]) = inflight calls + if call.phase = .creating then 1 else 0 := by
  simp [inflight, List.countP_append, List.countP_cons]

theorem inflight_set {old : Call} (call : Call) (hk : calls[k]? = some old) :
    inflight (calls.set k call) + (if old.phase = .creating then 1 else 0) =
      inflight calls + if call.phase = .creating then 1 else 0 := by
  obtain ⟨hlt, rfl⟩ := List.getElem?_eq_some_iff.mp hk
  unfold inflight
  rw [List.countP_set hlt]
  have hpos : calls[k].phase = .creating → 0 < calls.countP (·.phase == .creating) := by
    intro h
    exact List.countP_pos_iff.mpr ⟨_, List.getElem_mem hlt, by simp [h]⟩
  simp only [beq_iff_eq]
  split
  · have := hpos ‹_›
    omega
  · omega

/-! ## The invariant -/

structure Accounted (p : ConnectionPool) (calls : List Call) : Prop where
  numOpen_eq : p.numOpen = p.connections.length + inflight calls
  numOpen_le : p.numOpen ≤ p.config.maxOpen
  nodup : p.connections.Nodup
  fresh : ∀ c ∈ p.connections, c < p.nextConn
  live : ∀ k c, Owns calls k c → c ∈ p.connections ∧ (p.conn c).inUse = true
  unique : ∀ k j c, Owns calls k c → Owns calls j c → k = j
  parked : ∀ (k : CallId) call c, calls[k]? = some call → call.buffer = some c →
    call.phase = .waiting ∨ call.phase = .over
  queue_nodup : p.waiters.Nodup
  queue : ∀ w ∈ p.waiters, ∃ call, calls[w]? = some call ∧ call.buffer = none ∧
    (call.phase = .waiting ∨ call.phase = .over)

theorem init_accounted {config : Config} (h : newConnectionPool config = some p) :
    Accounted p [] := by
  unfold newConnectionPool at h
  split at h
  · cases h
  · cases h
    constructor <;> simp [ConnectionPool.empty, Owns, inflight]
    omega

/-- The connections `out` leave the pool; nobody owns them. -/
theorem Accounted.drop {conns out : List ConnRef} (h : Accounted p calls)
    (hperm : p.connections.Perm (conns ++ out)) (hfree : ∀ d ∈ out, ∀ k, ¬ Owns calls k d) :
    Accounted { p with
      connections := conns
      numOpen := p.numOpen - out.length
      closing := p.closing ++ out } calls where
  numOpen_eq := by
    have hlen := hperm.length_eq
    have hn := h.numOpen_eq
    rw [List.length_append] at hlen
    simp only
    omega
  numOpen_le := by
    have hle := h.numOpen_le
    simp only
    omega
  nodup := (List.nodup_append.mp (hperm.nodup_iff.mp h.nodup)).1
  fresh := fun c hc => h.fresh c (hperm.mem_iff.mpr (List.mem_append_left _ hc))
  live := by
    intro k c hk
    obtain ⟨hc, hu⟩ := h.live k c hk
    rcases List.mem_append.mp (hperm.mem_iff.mp hc) with hin | hout
    · exact ⟨hin, hu⟩
    · exact absurd hk (hfree c hout k)
  __ := h

theorem Accounted.free_of_idle (h : Accounted p calls) (hidle : (p.conn c).inUse = false)
    (k : CallId) : ¬ Owns calls k c := by
  intro hk
  have hu := (h.live k c hk).2
  rw [hidle] at hu
  cases hu

theorem Accounted.swept {clock : Clock} {p q : ConnectionPool} {out : List ConnRef}
    (h : Accounted p calls) (hs : Swept clock p q out) :
    Accounted q calls := by
  rw [hs.same]
  exact h.drop hs.perm fun d hd => h.free_of_idle (hs.old d hd).1

variable {ws : List CallId}

section

variable (h : Accounted p calls)

include h

/-- A call changes its state without gaining a connection, in a queue that
only loses members. A creation that ends gives its reservation back. -/
theorem Accounted.setCall {old call : Call} {n : Int}
    (hk : calls[k]? = some old) (hws : ws.Sublist p.waiters) (hown : ∀ c, call.Owns c → old.Owns c)
    (hcr : call.phase ≠ .creating) (hn : n + (if old.phase = .creating then 1 else 0) = p.numOpen)
    (hpark : ∀ c, call.buffer = some c → call.phase = .waiting ∨ call.phase = .over)
    (hq : k ∈ ws → call.buffer = none ∧ (call.phase = .waiting ∨ call.phase = .over)) :
    Accounted { p with waiters := ws, numOpen := n } (calls.set k call) := by
  have hold : ∀ j c, Owns (calls.set k call) j c → Owns calls j c := by
    intro j c hj
    rcases (owns_set hk).mp hj with ⟨rfl, ho⟩ | ⟨_, ho⟩
    · exact ⟨old, hk, hown c ho⟩
    · exact ho
  have hin := inflight_set call hk
  simp only [hcr, ↓reduceIte] at hin
  exact
    { numOpen_eq := by
        have heq := h.numOpen_eq
        simp only
        by_cases ho : old.phase = .creating
        · simp only [ho, ↓reduceIte] at hin hn
          omega
        · simp only [ho, ↓reduceIte] at hin hn
          omega
      numOpen_le := by
        have := h.numOpen_le
        simp only
        split at hn <;> omega
      __ := h
      live := fun j c hj => h.live j c (hold j c hj)
      unique := fun i j c hi hj => h.unique i j c (hold i c hi) (hold j c hj)
      parked := fun _ _ c hj => forall_call_set (fun i other hi => h.parked i other c hi) (hpark c) hj
      queue_nodup := h.queue_nodup.sublist hws
      queue := by
        intro w hw
        rw [call_set hk]
        by_cases hwk : w = k
        · exact Or.inl ⟨hwk, hq (hwk ▸ hw)⟩
        · exact Or.inr ⟨hwk, h.queue w (hws.subset hw)⟩ }

variable {b : Option ConnRef}

/-- Call `k` returns an error, or its connection was put back. -/
theorem Accounted.finish {cl : Bool} {n : Int}
    (hk : calls[k]? = some ⟨ph, b, cl⟩) (hws : ws.Sublist p.waiters)
    (hn : n + (if ph = .creating then 1 else 0) = p.numOpen) :
    Accounted { p with waiters := ws, numOpen := n } (calls.set k ⟨.over, b, cl⟩) := by
  refine h.setCall hk hws ?_ (by simp) hn (by simp) ?_
  · rintro d (hd | hd)
    · cases hd
    · exact Or.inr hd
  · intro hw
    obtain ⟨call, hc, hb, _⟩ := h.queue k (hws.subset hw)
    rw [hk] at hc
    cases hc
    exact ⟨hb, Or.inr rfl⟩

/-- An unowned connection of the pool is given to call `k`, which leaves the queue. -/
theorem Accounted.give {old : Call} {v : PooledConn} (call : Call) (hk : calls[k]? = some old)
    (hws : ws.Sublist p.waiters) (hkw : k ∉ ws) (hc : c ∈ p.connections)
    (hfree : ∀ j, ¬ Owns calls j c) (hv : v.inUse = true) (hown : ∀ d, call.Owns d → d = c)
    (hold : old.phase ≠ .creating) (hcr : call.phase ≠ .creating)
    (hpark : ∀ c, call.buffer = some c → call.phase = .waiting ∨ call.phase = .over) :
    Accounted { p.setConn c v with waiters := ws } (calls.set k call) where
  numOpen_eq := by
    have hin := inflight_set call hk
    simp only [hold, hcr, ↓reduceIte, Nat.add_zero] at hin
    rw [hin]
    exact h.numOpen_eq
  __ := h
  live := by
    intro j d hj
    rcases (owns_set hk).mp hj with ⟨_, ho⟩ | ⟨_, ho⟩
    · cases hown d ho
      exact ⟨hc, by simpa using hv⟩
    · have hne : d ≠ c := by
        rintro rfl
        exact hfree j ho
      obtain ⟨hd, hu⟩ := h.live j d ho
      exact ⟨hd, by simpa [p.setConn_conn_ne c v hne] using hu⟩
  unique := by
    intro i j d hi hj
    rcases (owns_set hk).mp hi with ⟨hik, hi⟩ | ⟨_, hi⟩ <;>
      rcases (owns_set hk).mp hj with ⟨hjk, hj⟩ | ⟨_, hj⟩
    · rw [hik, hjk]
    · cases hown d hi
      exact absurd hj (hfree j)
    · cases hown d hj
      exact absurd hi (hfree i)
    · exact h.unique i j d hi hj
  parked := fun _ _ d hj => forall_call_set (fun i other hi => h.parked i other d hi) (hpark d) hj
  queue_nodup := h.queue_nodup.sublist hws
  queue := by
    intro w hw
    have hwk : k ≠ w := by
      rintro rfl
      exact hkw hw
    rw [List.getElem?_set_ne hwk]
    exact h.queue w (hws.subset hw)

/-- An unowned connection may change its record. -/
theorem Accounted.setConn (hfree : ∀ j, ¬ Owns calls j c) (v : PooledConn) :
    Accounted (p.setConn c v) calls where
  live := by
    intro k d hk
    have hne : d ≠ c := by
      rintro rfl
      exact hfree k hk
    rw [p.setConn_conn_ne c v hne]
    exact h.live k d hk
  __ := h

/-- A new connection enters the pool. -/
theorem Accounted.add {n : Int} (hn : n = p.numOpen + 1)
    (hle : n ≤ p.config.maxOpen) :
    Accounted { p with
      numOpen := n
      nextConn := p.nextConn + 1
      connections := p.connections ++ [p.nextConn] } calls where
  numOpen_eq := by
    have := h.numOpen_eq
    simp only [List.length_append, List.length_singleton]
    omega
  numOpen_le := hle
  nodup := by
    rw [List.nodup_append]
    refine ⟨h.nodup, List.pairwise_singleton _ _, ?_⟩
    rintro a ha b hb rfl
    rw [List.mem_singleton.mp hb] at ha
    exact absurd (h.fresh _ ha) (Nat.lt_irrefl _)
  fresh := by
    intro c hc
    rcases List.mem_append.mp hc with hc | hc
    · exact Nat.lt_succ_of_lt (h.fresh c hc)
    · rw [List.mem_singleton.mp hc]
      exact Nat.lt_succ_self _
  live := by
    intro k c hk
    obtain ⟨hc, hu⟩ := h.live k c hk
    exact ⟨List.mem_append_left _ hc, hu⟩
  __ := h

/-! ## A new call -/

theorem Accounted.parked_start (k : CallId) (call : Call) (c : ConnRef)
    (hk : (calls ++ [.start ph])[k]? = some call) (hc : call.buffer = some c) :
    call.phase = .waiting ∨ call.phase = .over := by
  rcases (call_append (Q := (· = call))).mp ⟨call, hk, rfl⟩ with ⟨_, hold, rfl⟩ | ⟨-, rfl⟩
  · exact h.parked k _ c hold hc
  · cases hc

theorem Accounted.queue_start (w : CallId) (hw : w ∈ p.waiters) :
    ∃ call, (calls ++ [new])[w]? = some call ∧ call.buffer = none ∧
      (call.phase = .waiting ∨ call.phase = .over) :=
  call_append.mpr (Or.inl (h.queue w hw))

theorem Accounted.length_not_queued : calls.length ∉ p.waiters := by
  intro hmem
  obtain ⟨call, hc, _⟩ := h.queue _ hmem
  simp at hc

omit h in
theorem owns_start_iff (hph : ∀ c, ph ≠ .holding c) :
    Owns (calls ++ [.start ph]) k c ↔ Owns calls k c := by
  rw [owns_append, start_owns]
  simp [hph c]

/-- A call without a connection. -/
theorem Accounted.startWith {n : Int} (hph : ∀ c, ph ≠ .holding c)
    (hn : n = p.connections.length + inflight (calls ++ [.start ph])) (hle : n ≤ p.config.maxOpen) :
    Accounted { p with numOpen := n } (calls ++ [.start ph]) where
  numOpen_eq := hn
  numOpen_le := hle
  __ := h
  live := fun k c hk => h.live k c ((owns_start_iff hph).mp hk)
  unique := fun i j c hi hj =>
    h.unique i j c ((owns_start_iff hph).mp hi) ((owns_start_iff hph).mp hj)
  parked := h.parked_start
  queue := fun w hw => h.queue_start w hw

/-- A call that returned at once, without a connection. -/
theorem Accounted.start (hph : ∀ c, ph ≠ .holding c) (hcr : ph ≠ .creating) :
    Accounted p (calls ++ [.start ph]) := by
  refine h.startWith hph ?_ h.numOpen_le
  rw [inflight_append]
  simpa [Call.start, hcr] using h.numOpen_eq

/-- A call that reserved a creation. -/
theorem Accounted.startCreating (hlt : p.numOpen < p.config.maxOpen) :
    Accounted { p with numOpen := p.numOpen + 1 } (calls ++ [.start .creating]) := by
  refine h.startWith (fun _ => Phase.noConfusion) ?_ hlt
  have := h.numOpen_eq
  rw [inflight_append]
  simp only [Call.start, ↓reduceIte]
  omega

/-- A call that joined the queue. -/
theorem Accounted.startWaiting :
    Accounted { p with waiters := p.waiters ++ [calls.length] }
      (calls ++ [.start .waiting]) where
  __ := h.start (fun _ => Phase.noConfusion) Phase.noConfusion
  queue_nodup := by
    rw [List.nodup_append]
    refine ⟨h.queue_nodup, List.pairwise_singleton _ _, ?_⟩
    rintro a ha b hb rfl
    rw [List.mem_singleton.mp hb] at ha
    exact h.length_not_queued ha
  queue := by
    intro w hw
    rcases List.mem_append.mp hw with hw | hw
    · exact h.queue_start w hw
    · rw [List.mem_singleton.mp hw]
      exact ⟨.start .waiting, by simp, rfl, Or.inl rfl⟩

/-- A call that returned the idle connection `c`. -/
theorem Accounted.startHolding {v : PooledConn} (hc : c ∈ p.connections)
    (hidle : (p.conn c).inUse = false) (hv : v.inUse = true) :
    Accounted (p.setConn c v) (calls ++ [.start (.holding c)]) := by
  have hs : Accounted p (calls ++ [.start .over]) := h.start (by simp) (by simp)
  have hset : calls ++ [.start (.holding c)] =
      (calls ++ [Call.start .over]).set calls.length (.start (.holding c)) := by simp
  have hfree : ∀ j, ¬ Owns (calls ++ [.start .over]) j c := by
    intro j hj
    exact h.free_of_idle hidle j ((owns_start_iff (by simp)).mp hj)
  have hk : (calls ++ [Call.start .over])[calls.length]? = some (.start .over) := by simp
  rw [hset]
  refine hs.give _ hk (List.Sublist.refl _) h.length_not_queued hc hfree hv ?_
    (by simp [Call.start]) (by simp [Call.start]) (by simp [Call.start])
  intro d hd
  cases start_owns.mp hd
  rfl

end

/-! ## The steps -/

section Steps

variable (h : Accounted s.pool s.calls)

include h

theorem Accounted.get (clock : Clock) : Accounted (s.get clock).pool (s.get clock).calls := by
  have hr := get_result s clock
  generalize s.get clock = t at hr ⊢
  cases hr with
  | closed => exact h.start (by simp) (by simp)
  | found _ hsw hc hidle => exact (h.swept hsw).startHolding hc hidle rfl
  | panicked _ hsw => exact (h.swept hsw).start (by simp) (by simp)
  | creating _ hsw hlt => exact (h.swept hsw).startCreating hlt
  | waiting _ hsw => exact (h.swept hsw).startWaiting

theorem Accounted.created {cl : Bool}
    (hk : s.calls[k]? = some ⟨.creating, b, cl⟩) (createdAt lastUsed : Int) :
    Accounted
      { s.pool.setConn s.pool.nextConn ⟨createdAt, lastUsed, true⟩ with
        nextConn := s.pool.nextConn + 1
        connections := s.pool.connections ++ [s.pool.nextConn] }
      (s.calls.set k ⟨.holding s.pool.nextConn, b, cl⟩) := by
  have hb : b = none := by
    cases b with
    | none => rfl
    | some c => cases h.parked k _ c hk rfl <;> contradiction
  subst hb
  have hnew : ∀ j, ¬ Owns s.calls j s.pool.nextConn := by
    intro j hj
    exact absurd (h.fresh _ (h.live j _ hj).1) (Nat.lt_irrefl _)
  have hkw : k ∉ s.pool.waiters := by
    intro hw
    obtain ⟨call, hc, _, hph⟩ := h.queue k hw
    rw [hk] at hc
    cases hc
    cases hph <;> contradiction
  -- the reservation is given back, the connection enters, the call gets it
  have hover := h.finish (n := s.pool.numOpen - 1) hk (List.Sublist.refl _) (by simp)
  have hadd := hover.add (n := s.pool.numOpen) (by simp) h.numOpen_le
  have hfree : ∀ j, ¬ Owns (s.calls.set k ⟨.over, none, cl⟩) j s.pool.nextConn := by
    intro j hj
    rcases (owns_set hk).mp hj with ⟨_, ho | ho⟩ | ⟨_, ho⟩
    · cases ho
    · cases ho
    · exact hnew j ho
  have hgive := hadd.give (v := ⟨createdAt, lastUsed, true⟩) ⟨.holding s.pool.nextConn, none, cl⟩
    (List.getElem?_set_self (List.getElem?_eq_some_iff.mp hk).1) (List.Sublist.refl _) hkw
    (by simp) hfree rfl (by
      rintro d (hd | hd) <;> cases hd
      rfl) (by simp) (by simp) (by simp)
  rw [List.set_set] at hgive
  exact hgive

theorem Accounted.received {cl : Bool} (hk : s.calls[k]? = some ⟨.waiting, some c, cl⟩) :
    Accounted s.pool (s.calls.set k ⟨.holding c, none, cl⟩) := by
  refine h.setCall hk (List.Sublist.refl _) ?_ (by simp) (by simp) (by simp) ?_
  · rintro d (hd | hd)
    · cases hd
      exact Or.inr rfl
    · cases hd
  · intro hw
    obtain ⟨call, hc, hb, _⟩ := h.queue k hw
    rw [hk] at hc
    cases hc
    cases hb

omit h in
theorem send_eq_set {w : CallId} (h : calls[w]? = some call) (c : ConnRef) :
    System.send calls w c = calls.set w { call with buffer := some c } := by
  unfold System.send
  rw [List.modify_eq_set_getElem?, h]
  rfl

omit h in
/-- The three ways on for a connection that was just put back. -/
theorem Accounted.putOpen (h : Accounted p calls) (hc : c ∈ p.connections)
    (hfree : ∀ j, ¬ Owns calls j c) (now : Int) :
    Accounted (System.putOpen p calls c now).1 (System.putOpen p calls c now).2 := by
  unfold System.putOpen
  split
  · rename_i w ws hw
    obtain ⟨call, hcall, hb, hph⟩ := h.queue w (by simp [hw])
    have hnd := h.queue_nodup
    rw [hw, List.nodup_cons] at hnd
    rw [send_eq_set hcall]
    refine h.give _ hcall (by simp [hw]) hnd.1 hc hfree rfl ?_ ?_ ?_ (fun _ _ => hph)
    · rintro d (hd | hd)
      · rcases hph with hph | hph <;> simp [hph] at hd
      · cases hd
        rfl
    · rcases hph with hph | hph <;> simp [hph]
    · rcases hph with hph | hph <;> simp [hph]
  · have hidle := h.setConn hfree { p.conn c with inUse := false, lastUsed := now }
    simp only
    split
    · have hperm : p.connections.Perm (p.connections.erase c ++ [c]) :=
        (List.perm_cons_erase hc).trans (List.perm_append_singleton c _).symm
      refine hidle.drop hperm ?_
      intro d hd
      rw [List.mem_singleton.mp hd]
      exact hfree
    · exact hidle

theorem Accounted.put {cl : Bool} (hk : s.calls[k]? = some ⟨.holding c, b, cl⟩) (now : Int) :
    Accounted (System.putOpen s.pool (s.calls.set k ⟨.over, b, cl⟩) c now).1
      (System.putOpen s.pool (s.calls.set k ⟨.over, b, cl⟩) c now).2 := by
  have hown : Owns s.calls k c := ⟨_, hk, Or.inl rfl⟩
  have hover : Accounted s.pool (s.calls.set k ⟨.over, b, cl⟩) :=
    h.finish hk (List.Sublist.refl _) (by simp)
  refine hover.putOpen (h.live k c hown).1 ?_ now
  intro j hj
  rcases (owns_set hk).mp hj with ⟨_, ho | ho⟩ | ⟨hne, ho⟩
  · cases ho
  · rcases h.parked k _ c hk ho with hp | hp <;> cases hp
  · exact hne (h.unique j k c ho hown)

theorem step_accounted (op : PoolOp) : Accounted (s.step op).pool (s.step op).calls := by
  have hr := step_result s op
  generalize s.step op = t at hr ⊢
  cases hr with
  | none => exact h
  | get => exact h.get _
  | created hk => exact h.created hk _ _
  | received hk => exact h.received hk
  | createFailed _ hk | woken hk | timeout hk =>
    exact h.finish hk (List.Sublist.refl _) (by simp)
  | putClosed hk _ =>
    have hover := h.finish (n := s.pool.numOpen) hk (List.Sublist.refl _) (by simp)
    exact { hover with }
  | cancel _ hk => exact h.finish hk List.erase_sublist (by simp)
  | put _ hk _ => exact h.put hk _
  | @cleanup now _ =>
    refine h.drop ?_ fun d hd => ?_
    · refine (List.filter_append_perm (System.expired s.pool now) _).symm.trans ?_
      exact List.perm_append_comm
    · have hexp := (List.mem_filter.mp hd).2
      simp only [System.expired, Bool.and_eq_true, Bool.not_eq_true'] at hexp
      exact h.free_of_idle hexp.1

end Steps

/-! ## Runs -/

/-- No step changes the configuration, and none of them closes the pool. -/
def SameSetup (p q : ConnectionPool) : Prop := q.config = p.config ∧ q.closed = p.closed

theorem Swept.sameSetup {clock : Clock} {p q : ConnectionPool} {out : List ConnRef}
    (h : Swept clock p q out) : SameSetup p q := by
  rw [h.same]
  exact ⟨rfl, rfl⟩

theorem get_sameSetup (s : System) (clock : Clock) : SameSetup s.pool (s.get clock).pool := by
  have hr := get_result s clock
  generalize s.get clock = t at hr ⊢
  cases hr with
  | closed => exact ⟨rfl, rfl⟩
  | found _ hsw | panicked _ hsw | creating _ hsw | waiting _ hsw => exact hsw.sameSetup

theorem putOpen_sameSetup (p : ConnectionPool) (calls : List Call) (c : ConnRef) (now : Int) :
    SameSetup p (System.putOpen p calls c now).1 := by
  unfold System.putOpen
  split
  · exact ⟨rfl, rfl⟩
  · simp only
    split <;> exact ⟨rfl, rfl⟩

theorem step_sameSetup (s : System) (op : PoolOp) : SameSetup s.pool (s.step op).pool := by
  have hr := step_result s op
  generalize s.step op = t at hr ⊢
  cases hr with
  | get => exact get_sameSetup s _
  | put => exact putOpen_sameSetup _ _ _ _
  | _ => exact ⟨rfl, rfl⟩

/-- The invariant of a run of the open pool made with `config`. -/
structure RunInv (config : Config) (s : System) : Prop where
  accounted : Accounted s.pool s.calls
  config_eq : s.pool.config = config
  not_closed : s.pool.closed = false

theorem init_runInv {config : Config} (h : newConnectionPool config = some p) :
    RunInv config (.init p) := by
  have hacc := init_accounted h
  unfold newConnectionPool at h
  split at h
  · cases h
  · cases h
    exact ⟨hacc, rfl, rfl⟩

theorem step_runInv (config : Config) (s : System) (op : PoolOp) (h : RunInv config s) :
    RunInv config (s.step op) := by
  obtain ⟨hconfig, hclosed⟩ := step_sameSetup s op
  exact ⟨step_accounted h.accounted op, hconfig.trans h.config_eq, hclosed.trans h.not_closed⟩

/-- **Accounting and exclusivity.** Along every interleaving of the steps of
an open pool. -/
theorem pool_accounting (config : Config) (p : ConnectionPool)
    (h : newConnectionPool config = some p) (ops : List PoolOp) :
    let s := runFrom System.step (System.init p) ops
    s.pool.numOpen = s.pool.connections.length + inflight s.calls ∧
    0 ≤ s.pool.numOpen ∧ s.pool.numOpen ≤ config.maxOpen ∧
    s.pool.connections.Nodup ∧
    (∀ c ∈ s.pool.connections, (s.pool.conn c).inUse = false → ∀ k, ¬ Holds s.calls k c) ∧
    (∀ c k j, Holds s.calls k c → Holds s.calls j c → k = j) := by
  intro s
  obtain ⟨hacc, hconfig, _⟩ : RunInv config s :=
    runFrom_invariant (step_runInv config) (init_runInv h) ops
  have heq := hacc.numOpen_eq
  have hle := hacc.numOpen_le
  rw [hconfig] at hle
  refine ⟨heq, by omega, hle, hacc.nodup, ?_, ?_⟩
  · intro c _ hidle k hk
    exact hacc.free_of_idle hidle k hk.owns
  · intro c k j hk hj
    exact hacc.unique k j c hk.owns hj.owns

theorem pool_accounting_get_put :
    let config : Config := ⟨2, 2, 10⟩
    let ops : List PoolOp := [.get (.stopped 0), .created 0 1 1, .put 0 2]
    newConnectionPool config = some (.empty config) ∧
    (runFrom System.step (.init (.empty config)) ops).pool.connections = [0] ∧
    (runFrom System.step (.init (.empty config)) ops).pool.numOpen ≤ 2 :=
  ⟨rfl, rfl, (pool_accounting ⟨2, 2, 10⟩ _ rfl _).2.2.1⟩

end Smbfs.Pool
