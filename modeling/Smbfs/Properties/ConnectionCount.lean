import Smbfs.Server.Listener

/-!
`ConnectionCount`. The accept loop counts a connection only under a limit, the
end of a handler takes one off in any case. With a limit the count is the
number of unfinished handlers and stays below it, for every order of events;
without one it is wrong from the first connection on: `connection_count_iff`.
-/

namespace Smbfs.Listener

open Smbfs.Lib

/-- The count is the number of unfinished handlers, and below the limit if there is one. -/
structure Counted (s : State) : Prop where
  count : s.connectionCount = s.handlers.length
  limit : 0 < s.maxConnections → s.connectionCount ≤ s.maxConnections

/-- A connection that is accepted is accepted under a limit. -/
def Limited (s : State) (e : Event) : Prop :=
  e = .accept → s.loops ≠ 0 → 0 < s.maxConnections

variable {s : State}

theorem length_track {c : Conn} (h : (c, .started) ∈ s.handlers) :
    (s.track c).handlers.length = s.handlers.length := by
  have hpos := List.length_pos_of_mem h
  have herase := List.length_erase_of_mem h
  simp only [State.track, List.length_cons]
  omega

theorem Counted.finish (h : Counted s) {c : Conn} (hc : (c, .tracked) ∈ s.handlers) :
    Counted (s.finish c) := by
  obtain ⟨hcount, hlimit⟩ := h
  have hpos := List.length_pos_of_mem hc
  have herase := List.length_erase_of_mem hc
  simp only [State.connectionCount] at hcount hlimit
  constructor
  · simp only [State.connectionCount, State.finish]
    omega
  · intro hmax
    have hle := hlimit hmax
    simp only [State.connectionCount, State.finish]
    omega

theorem Counted.accept (h : Counted s) (hmax : 0 < s.maxConnections) : Counted s.accept := by
  obtain ⟨hcount, hlimit⟩ := h
  unfold State.accept
  rw [if_pos hmax]
  split
  · exact ⟨hcount, hlimit⟩
  · next hroom =>
    simp only [State.connectionCount] at hcount hlimit
    constructor
    · simp only [State.connectionCount, State.handle, List.length_append, List.length_singleton]
      omega
    · intro _
      simp only [State.connectionCount, State.handle]
      omega

theorem Counted.step (h : Counted s) {e : Event} (hlimited : Limited s e) :
    Counted (Listener.step s e) := by
  cases e with
  | listen => exact ⟨h.count, h.limit⟩
  | accept =>
    simp only [Listener.step]
    split
    · exact h
    · next hloops => exact h.accept (hlimited rfl hloops)
  | acceptError =>
    simp only [Listener.step, State.acceptError]
    split
    · exact h
    · split
      · exact ⟨h.count, h.limit⟩
      · exact h
  | track c =>
    simp only [Listener.step]
    split
    · next hc => exact ⟨h.count.trans (by rw [length_track hc]), h.limit⟩
    · exact h
  | finish c =>
    simp only [Listener.step]
    split
    · next hc => exact h.finish hc
    · exact h
  | stop => exact ⟨h.count, h.limit⟩

/-- Without a limit an accepted connection is handled and not counted. -/
theorem not_counted_of_unlimited (h : Counted s) {e : Event} (hnot : ¬ Limited s e) :
    ¬ Counted (Listener.step s e) := by
  simp only [Limited, Classical.not_imp] at hnot
  obtain ⟨rfl, hloops, hmax⟩ := hnot
  intro hafter
  have hcount := h.count
  have hcount' := hafter.count
  simp only [Listener.step, State.accept, State.connectionCount, if_neg hloops,
    if_neg hmax, State.handle, List.length_append, List.length_singleton]
    at hcount hcount'
  omega

theorem counted_new (maxConnections : Int) : Counted (State.new maxConnections) :=
  ⟨rfl, fun h => Int.le_of_lt h⟩

/-- For every limit and every order of events: `ConnectionCount` is right in
every state of the run exactly if every connection is accepted under a limit,
that is, if `MaxConnections` is positive or no connection is accepted. -/
theorem connection_count_iff (maxConnections : Int) (es : List Event) :
    Always step Counted (State.new maxConnections) es ↔
      Along step Limited (State.new maxConnections) es :=
  always_iff_along (fun _ _ h hlimited => h.step hlimited) (fun _ h => h)
    (fun _ _ h hnot => not_counted_of_unlimited h hnot) (counted_new maxConnections)

/-- Without a limit, a client that connects and goes away leaves a count of minus one. -/
theorem unlimited_count_negative :
    let s := runFrom step (State.new 0) [.listen, .accept, .track 0, .finish 0]
    s.connectionCount = -1 ∧ s.handlers = [] := by
  decide

end Smbfs.Listener
