import Mathlib.Data.List.Basic

/-!
A slice that is cut in place while a `range` loop reads it.

`for i, x := range s` fixes the backing array and its length `n` once; the
body may shorten `s` with `s = append(s[:i], s[i+1:]...)`, which moves the
later cells of the same array one place left. `Window` is that situation: the
`n` cells the loop reads, and the length the slice has by now.

* `removeAt_live`: a removal that does not panic erases index `i` of the slice;
* `mem_cells_removeAt`: it never brings a new value into the cells;
* `loopPanics_ofList`: a loop that removes what it reads panics exactly if it
  `overruns` the slice, which is a walk along the original list.

The same structure is a slice with spare capacity: `sub` cuts a slice of it,
which may reach into the cells beyond the length and panics beyond them.
-/

namespace Smbfs.Lib

/-- The cells a `range` loop reads and the current length of the slice. -/
structure Window (α : Type*) where
  cells : List α
  len : Nat
  len_le : len ≤ cells.length

namespace Window

variable {α : Type*}

/-- The whole slice, as the loop starts. -/
def ofList (l : List α) : Window α := ⟨l, l.length, Nat.le_refl _⟩

/-- What the slice holds now. -/
def live (w : Window α) : List α := w.cells.take w.len

@[simp] theorem ofList_live (l : List α) : (ofList l).live = l := by simp [ofList, live]

@[simp] theorem ofList_cells (l : List α) : (ofList l).cells = l := rfl

theorem live_length (w : Window α) : w.live.length = w.len := by
  simp [live, w.len_le]

theorem mem_cells_of_live {w : Window α} {a : α} (h : a ∈ w.live) : a ∈ w.cells :=
  List.mem_of_mem_take h

/-- `s = append(s[:i], s[i+1:]...)`. The operand `s[i+1:]` is out of range,
and the statement panics, when `i + 1` exceeds the length of `s`. -/
def removeAt (w : Window α) (i : Nat) : Option (Window α) :=
  if h : i + 1 ≤ w.len then
    some ⟨w.live.eraseIdx i ++ w.cells.drop (w.len - 1), w.len - 1, by
      rw [List.length_append, List.length_eraseIdx_of_lt (by rw [live_length]; omega), live_length]
      omega⟩
  else none

theorem removeAt_live {w w' : Window α} {i : Nat} (h : w.removeAt i = some w') :
    i < w.len ∧ w'.live = w.live.eraseIdx i := by
  unfold removeAt at h
  split at h
  · rename_i hi
    have hl : (w.live.eraseIdx i).length = w.len - 1 := by
      rw [List.length_eraseIdx_of_lt (by rw [live_length]; omega), live_length]
    cases h
    refine ⟨by omega, ?_⟩
    simp [live, ← hl]
  · cases h

theorem mem_cells_removeAt {w w' : Window α} {i : Nat} (h : w.removeAt i = some w') {a : α}
    (ha : a ∈ w'.cells) : a ∈ w.cells := by
  unfold removeAt at h
  split at h
  · cases h
    rcases List.mem_append.mp ha with h' | h'
    · exact mem_cells_of_live (List.mem_of_mem_eraseIdx h')
    · exact List.mem_of_mem_drop h'
  · cases h

/-- The value erased is the one the loop has just read. -/
theorem getElem?_live {w : Window α} {i : Nat} (hi : i < w.len) : w.live[i]? = w.cells[i]? := by
  simp [live, hi]

theorem mem_removeAt_or_eq {w w' : Window α} {i : Nat} (h : w.removeAt i = some w') {a b : α}
    (hb : w.cells[i]? = some b) (ha : a ∈ w.live) : a ∈ w'.live ∨ a = b := by
  obtain ⟨hi, he⟩ := removeAt_live h
  obtain ⟨j, hj⟩ := List.getElem?_of_mem ha
  by_cases hji : j = i
  · subst hji
    rw [getElem?_live hi, hb] at hj
    exact Or.inr (Option.some.inj hj).symm
  · rw [he]
    exact Or.inl (List.mem_eraseIdx_iff_getElem?.mpr ⟨j, hji, hj⟩)

/-- What a removal does to the cells that the loop has still to read: they move
one place left, and the last value stays where it was as well. -/
theorem removeAt_drop {w : Window α} {i : Nat} {a : α} {rest tail : List α}
    (hlen : w.len = i + (rest.length + 1)) (hcells : w.cells.drop i = a :: rest ++ tail) :
    ∃ w', w.removeAt i = some w' ∧ w'.len = i + rest.length ∧
      w'.cells.drop i = rest ++ (a :: rest).getLast (List.cons_ne_nil a rest) :: tail := by
  have hi : i + 1 ≤ w.len := by omega
  have hbound : i ≤ w.cells.length := by
    have := w.len_le
    omega
  have hlive : w.live.drop i = a :: rest := by
    rw [live, List.drop_take, hcells, show w.len - i = (a :: rest).length by
      rw [hlen, List.length_cons]; omega, List.take_left]
  have herase : w.live.eraseIdx i = w.live.take i ++ rest := by
    rw [List.eraseIdx_eq_take_drop_succ, ← List.drop_drop, hlive]
    rfl
  have htail : w.cells.drop (w.len - 1) =
      (a :: rest).getLast (List.cons_ne_nil a rest) :: tail := by
    have hlast : (a :: rest).drop rest.length =
        [(a :: rest).getLast (List.cons_ne_nil a rest)] := by
      cases rest with
      | nil => rfl
      | cons b rest => exact List.drop_length_cons (List.cons_ne_nil b rest) a
    rw [show w.len - 1 = i + rest.length by omega, ← List.drop_drop, hcells,
      List.drop_append_of_le_length (by rw [List.length_cons]; omega), hlast]
    rfl
  have htake : (w.live.take i).length = i := by
    rw [List.length_take, live_length]
    omega
  refine ⟨_, dif_pos hi, by dsimp only; omega, ?_⟩
  show (w.live.eraseIdx i ++ w.cells.drop (w.len - 1)).drop i = _
  rw [herase, htail, List.append_assoc, List.drop_left' htake]

/-! ## Loops that remove what they read -/

/-- What the body of a loop does with the value it reads: it goes on, leaves
the loop, or removes the value and goes on. -/
inductive Look where
  | pass
  | stop
  | drop
  deriving DecidableEq

/-- The loop `for i, x := range s`, `k` iterations before its end, comes to a
removal that panics. -/
def loopPanics (look : Nat → α → Look) : Nat → Nat → Window α → Bool
  | 0, _, _ => false
  | k + 1, i, w =>
    match w.cells[i]? with
    | none => false
    | some a =>
      match look i a with
      | .pass => loopPanics look k (i + 1) w
      | .stop => false
      | .drop =>
        match w.removeAt i with
        | none => true
        | some w' => loopPanics look k (i + 1) w'

/-- The walk along the list from iteration `i` on; `dropped` tells whether
something was removed before. A value that is removed takes the one behind it
along, which moves to a place the loop has passed. The walk ends badly if it
comes to the end of the list after a removal, and the last value is one to
remove. -/
def overruns (look : Nat → α → Look) : Nat → Bool → List α → Bool
  | _, _, [] => false
  | i, dropped, [a] => dropped && look i a = .drop
  | i, dropped, a :: b :: rest =>
    match look i a with
    | .pass => overruns look (i + 1) dropped (b :: rest)
    | .stop => false
    | .drop => if rest.isEmpty then look (i + 1) b = .drop else overruns look (i + 1) true rest

/-- Only a value at which the loop stops may be looked at differently later. -/
def Lasting (look : Nat → α → Look) : Prop := ∀ i a, look i a ≠ .stop → look (i + 1) a = look i a

section Loop

variable {look : Nat → α → Look} {k i m : Nat} {w : Window α} {last : α}

theorem getElem?_of_drop {a : α} {rest : List α} (h : w.cells.drop i = a :: rest) :
    w.cells[i]? = some a ∧ w.cells.drop (i + 1) = rest := by
  constructor
  · rw [← Nat.add_zero i, ← List.getElem?_drop, h]
    rfl
  · rw [← List.drop_drop, h]
    rfl

/-- Behind the slice every cell holds the last value. If it is passed once it
is passed to the end of the loop. -/
theorem loopPanics_passed (hlook : Lasting look) (hcells : w.cells.drop i = List.replicate m last)
    (hpass : look i last = .pass) : loopPanics look m i w = false := by
  induction m generalizing i with
  | zero => rfl
  | succ m ih =>
    obtain ⟨hread, hnext⟩ := getElem?_of_drop hcells
    have hpass' : look (i + 1) last = .pass := by
      rw [hlook i last (by rw [hpass]; decide), hpass]
    simp only [loopPanics, hread, hpass]
    exact ih hnext hpass'

/-- The loop behind the slice: one more removal is out of range. -/
theorem loopPanics_behind (hlook : Lasting look) (hlen : w.len ≤ i)
    (hcells : w.cells.drop i = List.replicate m last) :
    loopPanics look m i w = (decide (0 < m) && decide (look i last = .drop)) := by
  cases m with
  | zero => rfl
  | succ m =>
    obtain ⟨hread, hnext⟩ := getElem?_of_drop hcells
    cases h : look i last with
    | pass => simp [loopPanics_passed hlook hcells h]
    | stop => simp [loopPanics, hread, h]
    | drop =>
      have hout : w.removeAt i = none := dif_neg (by omega)
      simp [loopPanics, hread, h, hout]

/-- The loop inside the slice, of which it has `rest` before it; the `m` cells
behind that are left of `m` removals. -/
theorem loopPanics_inside (hlook : Lasting look) {rest : List α} (hrest : rest ≠ [])
    (hlast : rest.getLast hrest = last) (hlen : w.len = i + rest.length)
    (hcells : w.cells.drop i = rest ++ List.replicate m last) {dropped : Bool}
    (hdropped : dropped = decide (0 < m)) :
    loopPanics look (rest.length + m) i w = overruns look i dropped rest := by
  -- induction along the walk, which skips a value after each removal
  fun_induction overruns look i dropped rest generalizing m w
  case case1 => exact absurd rfl hrest
  case case2 i dropped a =>
    obtain rfl : a = last := hlast
    obtain ⟨hread, hnext⟩ := getElem?_of_drop hcells
    rw [show [a].length + m = m + 1 by rw [List.length_singleton]; omega]
    cases h : look i a with
    | pass =>
      have hbehind := loopPanics_behind hlook (by rw [hlen]; exact Nat.le_refl _) hnext
      simp [loopPanics, hread, h, hbehind, hlook i a (by simp [h])]
    | stop => simp [loopPanics, hread, h]
    | drop =>
      obtain ⟨w', hw, hlen', hcells'⟩ := removeAt_drop hlen hcells
      have hbehind := loopPanics_behind hlook (by rw [hlen']; exact Nat.le_succ i)
        (getElem?_of_drop hcells').2
      simp [loopPanics, hread, h, hw, hbehind, hlook i a (by simp [h]), hdropped]
  case case3 i dropped a b rest h ih =>
    obtain ⟨hread, hnext⟩ := getElem?_of_drop hcells
    have hih := ih (List.cons_ne_nil b rest) hlast (by rw [hlen, List.length_cons]; omega) hnext
      hdropped
    rw [← hih, List.length_cons, Nat.add_right_comm]
    simp only [loopPanics, hread, h]
  case case4 i dropped a b rest h =>
    obtain ⟨hread, hnext⟩ := getElem?_of_drop hcells
    rw [List.length_cons, Nat.add_right_comm]
    simp only [loopPanics, hread, h]
  case case5 i dropped a b rest h hempty =>
    obtain rfl := List.isEmpty_iff.mp hempty
    obtain rfl : b = last := hlast
    obtain ⟨hread, hnext⟩ := getElem?_of_drop hcells
    obtain ⟨w', hw, hlen', hcells'⟩ := removeAt_drop hlen hcells
    have hbehind := loopPanics_behind hlook (m := m + 1) (by rw [hlen']; exact Nat.le_refl _)
      (getElem?_of_drop hcells').2
    rw [List.length_cons, Nat.add_right_comm, show [b].length + m = m + 1 from Nat.add_comm 1 m,
      loopPanics]
    simp [hread, h, hw, hbehind]
  case case6 i dropped a b rest h hempty ih =>
    have hrest' : rest ≠ [] := fun hnil => hempty (List.isEmpty_iff.mpr hnil)
    have hlast' : rest.getLast hrest' = last := by
      rw [← hlast, List.getLast_cons (List.cons_ne_nil b rest), List.getLast_cons hrest']
    obtain ⟨hread, hnext⟩ := getElem?_of_drop hcells
    obtain ⟨w', hw, hlen', hcells'⟩ := removeAt_drop hlen hcells
    rw [hlast] at hcells'
    -- the value behind the removed one is skipped
    have hih := ih (m := m + 1) hrest' hlast' (by rw [hlen', List.length_cons]; omega)
      (getElem?_of_drop hcells').2 (by simp)
    rw [← hih, List.length_cons, Nat.add_right_comm, List.length_cons,
      Nat.add_assoc rest.length 1 m, Nat.add_comm 1 m]
    simp only [loopPanics, hread, h, hw]

/-- **The loop overruns the slice exactly if the walk along the list does.** -/
theorem loopPanics_ofList (hlook : Lasting look) (l : List α) :
    loopPanics look l.length 0 (ofList l) = overruns look 0 false l := by
  cases l with
  | nil => rfl
  | cons a rest =>
    have h := loopPanics_inside (w := ofList (a :: rest)) (m := 0) hlook (List.cons_ne_nil a rest)
      rfl (Nat.zero_add _).symm (List.append_nil _).symm rfl
    exact h

end Loop

/-- `s[i:j]`. -/
def sub (w : Window α) (i j : Nat) : Option (Window α) :=
  if h : i ≤ j ∧ j ≤ w.cells.length then
    some ⟨w.cells.drop i, j - i, by rw [List.length_drop]; omega⟩
  else none

theorem sub_eq_none {w : Window α} {i j : Nat} : w.sub i j = none ↔ j < i ∨ w.cells.length < j := by
  unfold sub
  split
  · simp only [reduceCtorEq, false_iff]
    omega
  · simp only [true_iff]
    omega

/-- A slice inside the length holds what the slice it is cut from holds there. -/
theorem sub_live {w : Window α} {i j : Nat} (hij : i ≤ j) (hj : j ≤ w.len) :
    (w.sub i j).map live = some ((w.live.drop i).take (j - i)) := by
  have hcells := w.len_le
  have hmin : min (j - i) (w.len - i) = j - i := by omega
  simp [sub, live, hij, Nat.le_trans hj hcells, List.drop_take, List.take_take, hmin]

/-- `s[i:]`, for `i` inside the slice. -/
def dropFront (w : Window α) (i : Nat) : Window α :=
  ⟨w.cells.drop i, w.len - i, by have := w.len_le; rw [List.length_drop]; omega⟩

theorem dropFront_live (w : Window α) (i : Nat) : (w.dropFront i).live = w.live.drop i := by
  rw [live, live, List.drop_take]
  rfl

end Window

end Smbfs.Lib
