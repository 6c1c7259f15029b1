import Mathlib.Data.List.Nodup

/-!
Items in the order of their latest use. A history is a list of uses; an item
leaves when it is dropped, and all items leave when the history is cleared.

* `recent_append`: what later uses do to the items of a history;
* `recent_put`, `recent_drops`, `recent_clear`: one use at the end, and the
  oldest items dropped.
-/

namespace Smbfs.Lib

inductive Use (α : Type*) where
  | put (a : α)
  | drop (a : α)
  | clear

/-- The use decides by itself whether the item is there. -/
def Use.Touches {α : Type*} : Use α → α → Prop
  | put a, b | drop a, b => b = a
  | clear, _ => True

variable {α : Type*} [DecidableEq α]

instance (e : Use α) (a : α) : Decidable (e.Touches a) :=
  match e with
  | .put b | .drop b => inferInstanceAs (Decidable (a = b))
  | .clear => inferInstanceAs (Decidable True)

/-- The items that nothing touches after they were put, oldest first. -/
def recent : List (Use α) → List α
  | [] => []
  | .put a :: es => if ∃ e ∈ es, e.Touches a then recent es else a :: recent es
  | _ :: es => recent es

theorem touched_of_mem_recent {a : α} {es : List (Use α)} (h : a ∈ recent es) :
    ∃ e ∈ es, e.Touches a := by
  induction es with
  | nil => cases h
  | cons e es ih =>
    have hlater : a ∈ recent es → ∃ e' ∈ e :: es, e'.Touches a := fun hmem => by
      obtain ⟨e', he', htouches⟩ := ih hmem
      exact ⟨e', List.mem_cons_of_mem e he', htouches⟩
    cases e with
    | put b =>
      rw [recent] at h
      split at h
      · exact hlater h
      · rcases List.mem_cons.mp h with rfl | h
        · exact ⟨.put a, List.mem_cons_self, rfl⟩
        · exact hlater h
    | drop b | clear => exact hlater h

variable (es : List (Use α))

theorem recent_nodup : (recent es).Nodup := by
  induction es with
  | nil => exact List.nodup_nil
  | cons e es ih =>
    cases e with
    | put a =>
      rw [recent]
      split
      · exact ih
      · next hnone => exact ih.cons fun hmem => hnone (touched_of_mem_recent hmem)
    | drop a | clear => exact ih

theorem recent_append (es fs : List (Use α)) : recent (es ++ fs) =
    (recent es).filter (fun a => ∀ e ∈ fs, ¬ e.Touches a) ++ recent fs := by
  induction es with
  | nil => rfl
  | cons e es ih =>
    cases e with
    | put a =>
      simp only [List.cons_append, recent, List.mem_append, or_and_right, exists_or, ih]
      by_cases hes : ∃ e ∈ es, e.Touches a
      · rw [if_pos (.inl hes), if_pos hes]
      · rw [if_neg hes]
        by_cases hfs : ∃ e ∈ fs, e.Touches a
        · rw [if_pos (.inr hfs), List.filter_cons_of_neg (by simpa using hfs)]
        · rw [if_neg (not_or.mpr ⟨hes, hfs⟩), List.filter_cons_of_pos (by simpa using hfs)]
          rfl
    | drop a | clear => exact ih

theorem recent_put [BEq α] [LawfulBEq α] (a : α) :
    recent (es ++ [.put a]) = (recent es).erase a ++ [a] := by
  have hkept : ∀ b, decide (∀ e ∈ [Use.put a], ¬ e.Touches b) = (b != a) := fun b => by
    rw [Bool.eq_iff_iff]
    simp [Use.Touches]
  rw [recent_append, (recent_nodup es).erase_eq_filter]
  simp only [hkept]
  rfl

theorem recent_clear : recent (es ++ [.clear]) = [] := by
  simp [recent_append, recent, Use.Touches]

theorem recent_drops (n : Nat) :
    recent (es ++ ((recent es).take n).map .drop) = (recent es).drop n := by
  have hnone : ∀ l : List α, recent (l.map .drop) = [] := fun l => by
    induction l with
    | nil => rfl
    | cons a l ih => exact ih
  have htouched : ∀ a, (∀ e ∈ ((recent es).take n).map Use.drop, ¬ e.Touches a) ↔
      a ∉ (recent es).take n := by
    intro a
    rw [List.forall_mem_map]
    exact ⟨fun h hmem => h a hmem rfl, fun h b hb hab => h (hab ▸ hb)⟩
  have hapart := List.disjoint_take_drop (recent_nodup es) (Nat.le_refl n)
  rw [recent_append, hnone, List.append_nil]
  simp only [htouched]
  conv_lhs =>
    rw [← List.take_append_drop n (recent es), List.filter_append, List.take_append_drop]
  rw [List.filter_eq_nil_iff.mpr, List.filter_eq_self.mpr, List.nil_append]
  · exact fun a ha => decide_eq_true fun hmem => hapart hmem ha
  · exact fun a ha hnot => of_decide_eq_true hnot ha

end Smbfs.Lib
