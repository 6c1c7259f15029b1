import Mathlib.Data.List.Basic

/-!
Enumeration of the elements with a property through a cursor into the whole
list. The cursor moves by the number of elements returned, not by the number
of elements passed over.

`Cursor.map_exact_iff`: such an enumeration returns the elements with the
property, each once and in order, exactly if they are the first elements of
the list.
-/

namespace Smbfs.Lib

variable {α β : Type*} {p : α → Bool} {L out : List α} {k : Nat}

/-- An enumeration from position `k` to its end returns `out`, in batches of
any size above zero. -/
inductive Cursor (p : α → Bool) (L : List α) : Nat → List α → Prop
  | done {k : Nat} (h : (L.drop k).filter p = []) : Cursor p L k []
  | batch {k : Nat} (n : Nat) {out : List α} (hpos : 0 < n)
      (hn : n ≤ ((L.drop k).filter p).length) (h : Cursor p L (k + n) out) :
      Cursor p L k (((L.drop k).filter p).take n ++ out)

namespace Cursor

/-- At the end nothing with the property is left after the cursor. -/
theorem filter_drop_eq_nil (h : Cursor p L k out) : (L.drop (k + out.length)).filter p = [] := by
  induction h with
  | done h => exact h
  | batch n _ hn _ ih =>
    rw [List.length_append, List.length_take, Nat.min_eq_left hn, ← Nat.add_assoc]
    exact ih

/-- When the elements with the property come first, the cursor is where it should be. -/
theorem eq_drop (hfirst : L.filter p <+: L) (h : Cursor p L k out) (hk : k ≤ (L.filter p).length) :
    out = (L.filter p).drop k := by
  obtain ⟨rest, hL⟩ := hfirst
  have hself : (L.filter p).filter p = L.filter p :=
    List.filter_eq_self.mpr fun _ ha => (List.mem_filter.mp ha).2
  have hrest : rest.filter p = [] := by
    have hfilter : (L.filter p).filter p ++ rest.filter p = L.filter p := by
      rw [← List.filter_append, hL]
    rwa [hself, List.append_right_eq_self] at hfilter
  have hdrop : ∀ j ≤ (L.filter p).length, (L.drop j).filter p = (L.filter p).drop j := by
    intro j hj
    have hall : ((L.filter p).drop j).filter p = (L.filter p).drop j :=
      List.filter_eq_self.mpr fun a ha => (List.mem_filter.mp (List.mem_of_mem_drop ha)).2
    calc (L.drop j).filter p = ((L.filter p ++ rest).drop j).filter p := by rw [hL]
      _ = (L.filter p).drop j := by
        rw [List.drop_append_of_le_length hj, List.filter_append, hall, hrest, List.append_nil]
  induction h with
  | done h => rw [← hdrop _ hk, h]
  | batch n _ hn _ ih =>
    rw [hdrop _ hk, List.length_drop] at hn
    rw [ih (by omega), hdrop _ hk, ← List.drop_drop, List.take_append_drop]

/-- **Exactness of the cursor**, up to a function of the elements. -/
theorem map_exact_iff (h : Cursor p L 0 out) (f : α → β) :
    out.map f = (L.filter p).map f ↔ L.filter p <+: L := by
  constructor
  · intro hout
    have hlen : out.length = (L.filter p).length := by
      have := congrArg List.length hout
      rwa [List.length_map, List.length_map] at this
    have hend : (L.drop out.length).filter p = [] := by
      have := h.filter_drop_eq_nil
      rwa [Nat.zero_add] at this
    -- everything with the property lies among the first `out.length` elements
    have hsplit : (L.take out.length).filter p = L.filter p := by
      conv_rhs => rw [← List.take_append_drop out.length L, List.filter_append, hend,
        List.append_nil]
    have hfull : ((L.take out.length).filter p).length = (L.take out.length).length := by
      have hle := List.length_filter_le p (L.take out.length)
      have htake := List.length_take_le out.length L
      rw [hsplit] at hle ⊢
      omega
    rw [← hsplit, List.filter_eq_self.mpr (List.length_filter_eq_length_iff.mp hfull)]
    exact List.take_prefix _ _
  · intro hfirst
    rw [h.eq_drop hfirst (Nat.zero_le _), List.drop_zero]

end Cursor

end Smbfs.Lib
