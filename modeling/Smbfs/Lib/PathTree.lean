import Mathlib.Data.List.Infix

/-!
Trees of nodes under paths. A path is the list of its names, the innermost
first, so that the way to a node is the suffixes of its path.

* `Closed`: the root is a directory, and so is what is around a node;
  `Closed.above` and `Closed.eq_none` are the same for longer ways;
* `Grown k`: directories were added on the way to `k`;
* `prune k`: what is at or below `k` is gone, and `foldl_prune` the same for some
  names in a directory;
* `NoEmptyDir k`: no directory at or below `k` is empty; `noEmptyDir_iff` follows
  it from a directory to its entries.
-/

namespace Smbfs.Lib

/-- The node under each path. -/
abbrev PathTree (α N : Type*) := List α → Option N

namespace PathTree

variable {α N : Type*}

def IsDirAt (isDir : N → Bool) (t : PathTree α N) (k : List α) : Prop :=
  ∃ n, t k = some n ∧ isDir n = true

def IsFileAt (isDir : N → Bool) (t : PathTree α N) (k : List α) : Prop :=
  ∃ n, t k = some n ∧ isDir n = false

/-- The root is a directory, and a node stands in a directory. -/
structure Closed (isDir : N → Bool) (t : PathTree α N) : Prop where
  root : IsDirAt isDir t []
  up : ∀ x k, t (x :: k) ≠ none → IsDirAt isDir t k

/-- There is a directory under every path on the way to `k`, and nothing else changed. -/
structure Grown (isDir : N → Bool) (k : List α) (t t' : PathTree α N) : Prop where
  dirs : ∀ q, q <:+ k → IsDirAt isDir t' q
  others : ∀ q, ¬ q <:+ k → t' q = t q
  kept : ∀ q, t q ≠ none → t' q = t q

/-- No directory at or below `k` is empty. -/
def NoEmptyDir (isDir : N → Bool) (t : PathTree α N) (k : List α) : Prop :=
  ∀ q, k <:+ q → IsDirAt isDir t q → ∃ x, t (x :: q) ≠ none

variable {isDir : N → Bool} {t t' : PathTree α N} {k q : List α}

/-- Two names in one directory have no path below both. -/
theorem eq_of_suffix {x y : α} (hx : x :: k <:+ q) (hy : y :: k <:+ q) : x = y := by
  have hlen : (x :: k).length = (y :: k).length := rfl
  have heq := (List.suffix_of_suffix_length_le hx hy (Nat.le_of_eq hlen)).eq_of_length hlen
  exact (List.cons.inj heq).1

/-- The way from a directory to a path below it goes through one of its entries. -/
theorem exists_entry (hq : k <:+ q) (hne : q ≠ k) : ∃ x, x :: k <:+ q := by
  obtain ⟨front, rfl⟩ := hq
  have hfront : front ≠ [] := by
    rintro rfl
    exact hne rfl
  refine ⟨front.getLast hfront, front.dropLast, ?_⟩
  rw [List.append_cons, List.dropLast_append_getLast]

theorem IsDirAt.ne_none (h : IsDirAt isDir t k) : t k ≠ none := by
  obtain ⟨n, hn, -⟩ := h
  rw [hn]
  exact Option.some_ne_none n

theorem IsDirAt.not_file (h : IsDirAt isDir t k) : ¬ IsFileAt isDir t k := by
  rintro ⟨n, hn, hfile⟩
  obtain ⟨m, hm, hdir⟩ := h
  cases hm.symm.trans hn
  rw [hfile] at hdir
  cases hdir

theorem IsDirAt.congr (h : IsDirAt isDir t k) (heq : t' k = t k) : IsDirAt isDir t' k := by
  obtain ⟨n, hn, hdir⟩ := h
  exact ⟨n, heq.trans hn, hdir⟩

namespace Closed

/-- The way to a node leads through directories. -/
theorem above (h : Closed isDir t) (hq : t q ≠ none) (hk : k <:+ q) (hne : k ≠ q) :
    IsDirAt isDir t k := by
  induction q with
  | nil => exact absurd (List.suffix_nil.mp hk) hne
  | cons x q ih =>
    have hk' : k <:+ q := (List.suffix_cons_iff.mp hk).resolve_left hne
    have hdir := h.up x q hq
    by_cases heq : k = q
    · exact heq ▸ hdir
    · exact ih hdir.ne_none hk' heq

/-- Nothing is below a path with no node. -/
theorem eq_none (h : Closed isDir t) (hk : t k = none) (hq : k <:+ q) : t q = none := by
  by_contra hne
  by_cases heq : k = q
  · exact hne (heq ▸ hk)
  · exact (h.above hne hq heq).ne_none hk

/-- Nothing is below a file. -/
theorem eq_none_of_file (h : Closed isDir t) (hk : IsFileAt isDir t k) (hq : k <:+ q)
    (hne : k ≠ q) : t q = none := by
  by_contra hnode
  exact (h.above hnode hq hne).not_file hk

end Closed

/-! ## Adding directories -/

namespace Grown

theorem refl (h : Closed isDir t) (hk : IsDirAt isDir t k) : Grown isDir k t t := by
  refine ⟨fun q hq => ?_, fun _ _ => rfl, fun _ _ => rfl⟩
  by_cases heq : q = k
  · exact heq ▸ hk
  · exact h.above hk.ne_none hq heq

/-- One more directory, where there was nothing. -/
theorem cons {x : α} {t₁ : PathTree α N} (h : Grown isDir k t t₁) (hnew : t (x :: k) = none)
    (hdir : IsDirAt isDir t' (x :: k)) (hsame : ∀ q, q ≠ x :: k → t' q = t₁ q) :
    Grown isDir (x :: k) t t' := by
  refine ⟨fun q hq => ?_, fun q hq => ?_, fun q hq => ?_⟩
  · by_cases heq : q = x :: k
    · exact heq ▸ hdir
    · exact (h.dirs q ((List.suffix_cons_iff.mp hq).resolve_left heq)).congr (hsame q heq)
  · have hne : q ≠ x :: k := fun heq => hq (heq ▸ List.suffix_refl _)
    rw [hsame q hne]
    exact h.others q fun hs => hq (hs.trans (List.suffix_cons x k))
  · have hne : q ≠ x :: k := fun heq => hq (heq ▸ hnew)
    rw [hsame q hne]
    exact h.kept q hq

theorem closed (h : Grown isDir k t t') (hc : Closed isDir t) : Closed isDir t' := by
  refine ⟨h.dirs [] (List.nil_suffix), fun x q hq => ?_⟩
  by_cases hs : x :: q <:+ k
  · exact h.dirs q ((List.suffix_cons x q).trans hs)
  · rw [h.others _ hs] at hq
    have hdir := hc.up x q hq
    exact hdir.congr (h.kept q hdir.ne_none)

end Grown

/-! ## Removing what is below a path -/

section Prune

variable [DecidableEq α]

/-- The tree without what is at or below `k`. -/
def prune (k : List α) (t : PathTree α N) : PathTree α N := fun q => if k <:+ q then none else t q

theorem prune_of_suffix (h : k <:+ q) : prune k t q = none := if_pos h

theorem prune_of_not_suffix (h : ¬ k <:+ q) : prune k t q = t q := if_neg h

theorem prune_eq_or (k q : List α) (t : PathTree α N) : prune k t q = t q ∨ prune k t q = none := by
  by_cases h : k <:+ q
  · exact .inr (prune_of_suffix h)
  · exact .inl (prune_of_not_suffix h)

theorem ne_none_of_prune (h : prune k t q ≠ none) : t q ≠ none := by
  rcases prune_eq_or k q t with heq | heq
  · rwa [heq] at h
  · exact absurd heq h

/-- Without a node there is nothing to remove. -/
theorem prune_eq_self (h : Closed isDir t) (hk : t k = none) : prune k t = t := by
  funext q
  by_cases hq : k <:+ q
  · rw [prune_of_suffix hq, h.eq_none hk hq]
  · exact prune_of_not_suffix hq

theorem Closed.prune (h : Closed isDir t) (hk : k ≠ []) : Closed isDir (prune k t) := by
  refine ⟨?_, fun x q hq => ?_⟩
  · exact h.root.congr (prune_of_not_suffix fun hs => hk (List.suffix_nil.mp hs))
  · have hdir := h.up x q (ne_none_of_prune hq)
    refine hdir.congr (prune_of_not_suffix fun hs => hq ?_)
    exact prune_of_suffix (hs.trans (List.suffix_cons x q))

/-- What is below the names `cs` in a directory is gone. -/
theorem foldl_prune (cs : List α) (k q : List α) (t : PathTree α N) :
    cs.foldl (fun t c => prune (c :: k) t) t q = if ∃ c ∈ cs, c :: k <:+ q then none else t q := by
  induction cs generalizing t with
  | nil => simp
  | cons c cs ih =>
    rw [List.foldl_cons, ih]
    by_cases hc : c :: k <:+ q
    · simp [hc, prune_of_suffix hc]
    · simp [hc, prune_of_not_suffix hc]

/-- A directory without its entries, once it is gone as well. -/
theorem prune_of_children {cs : List α} (h : Closed isDir t) (hcs : ∀ x, t (x :: k) ≠ none → x ∈ cs)
    (hk : t' k = none)
    (hsame : ∀ q, q ≠ k → t' q = cs.foldl (fun t c => prune (c :: k) t) t q) : t' = prune k t := by
  funext q
  by_cases heq : q = k
  · rw [heq, hk, prune_of_suffix (List.suffix_refl k)]
  · rw [hsame q heq, foldl_prune]
    by_cases hq : k <:+ q
    · rw [prune_of_suffix hq]
      split
      · rfl
      · rename_i hnone
        by_contra hnode
        obtain ⟨x, hway⟩ := exists_entry hq heq
        exact hnone ⟨x, hcs x fun hx => hnode (h.eq_none hx hway), hway⟩
    · rw [prune_of_not_suffix hq, if_neg]
      rintro ⟨c, -, hc⟩
      exact hq ((List.suffix_cons c k).trans hc)

/-- Removing one entry of a directory does not matter for the others. -/
theorem noEmptyDir_prune {x y : α} (hx : NoEmptyDir isDir t (x :: k)) :
    NoEmptyDir isDir (prune (x :: k) t) (y :: k) ↔ NoEmptyDir isDir t (y :: k) := by
  by_cases hxy : y = x
  · subst hxy
    refine iff_of_true ?_ hx
    intro q hq hdir
    exact absurd (prune_of_suffix hq) hdir.ne_none
  · have hsame : ∀ q, y :: k <:+ q → prune (x :: k) t q = t q := fun q hq =>
      prune_of_not_suffix fun hx => hxy (eq_of_suffix hq hx)
    constructor
    · intro h q hq hdir
      obtain ⟨z, hz⟩ := h q hq (hdir.congr (hsame q hq))
      rw [hsame _ (hq.trans (List.suffix_cons z q))] at hz
      exact ⟨z, hz⟩
    · intro h q hq hdir
      obtain ⟨z, hz⟩ := h q hq (hdir.congr (hsame q hq).symm)
      refine ⟨z, ?_⟩
      rwa [hsame _ (hq.trans (List.suffix_cons z q))]

end Prune

/-- A directory and what is below it: the entries of the directory and what is below them. -/
theorem noEmptyDir_iff (h : Closed isDir t) (hk : IsDirAt isDir t k) :
    NoEmptyDir isDir t k ↔
      (∃ x, t (x :: k) ≠ none) ∧ ∀ x, t (x :: k) ≠ none → NoEmptyDir isDir t (x :: k) := by
  constructor
  · intro hno
    exact ⟨hno k (List.suffix_refl k) hk, fun x _ q hq => hno q ((List.suffix_cons x k).trans hq)⟩
  · rintro ⟨hne, hbelow⟩ q hq hdir
    by_cases heq : q = k
    · exact heq ▸ hne
    · obtain ⟨x, hway⟩ := exists_entry hq heq
      exact hbelow x (fun hx => hdir.ne_none (h.eq_none hx hway)) q hway hdir

theorem noEmptyDir_of_file (h : Closed isDir t) (hk : IsFileAt isDir t k) :
    NoEmptyDir isDir t k := by
  intro q hq hdir
  by_cases heq : k = q
  · exact absurd (heq ▸ hk) hdir.not_file
  · exact absurd (h.eq_none_of_file hk hq heq) hdir.ne_none

theorem noEmptyDir_of_none (h : Closed isDir t) (hk : t k = none) : NoEmptyDir isDir t k := by
  intro q hq hdir
  exact absurd (h.eq_none hk hq) hdir.ne_none

end PathTree

end Smbfs.Lib
