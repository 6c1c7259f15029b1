import Mathlib.Data.List.AList

/-!
Maps with a list of entries, as Go's `map[K]V`: reading a missing key gives
`none`, and the entries can be ranged over. The maps are Mathlib's `AList`;
this file adds the pairs of a map and what the folds over them need.

* `mem_pairs`: the pairs of a map are its key-value bindings;
* `length_insert`, `length_erase`: the number of its entries;
* `lookup_eraseAll`: what is left when some keys are deleted;
* `foldl_invariant`: what every iteration keeps holds after a range loop.
-/

namespace Smbfs.Lib

/-- `map[K]V`. -/
abbrev GoMap (K V : Type) := AList (fun _ : K => V)

namespace GoMap

variable {K V σ : Type} [DecidableEq K]

/-- The bindings, in the order of the entries. -/
def pairs (m : GoMap K V) : List (K × V) := m.entries.map fun e => (e.1, e.2)

theorem mem_pairs {m : GoMap K V} {k : K} {v : V} : (k, v) ∈ m.pairs ↔ m.lookup k = some v := by
  unfold pairs
  rw [List.mem_map]
  constructor
  · rintro ⟨⟨k', v'⟩, he, heq⟩
    cases heq
    exact AList.mem_lookup_iff.mpr he
  · intro h
    exact ⟨⟨k, v⟩, AList.mem_lookup_iff.mp h, rfl⟩

/-- The values, in the order of the entries. -/
def values (m : GoMap K V) : List V := m.pairs.map Prod.snd

theorem mem_values {m : GoMap K V} {v : V} : v ∈ m.values ↔ ∃ k, m.lookup k = some v := by
  unfold values
  rw [List.mem_map]
  constructor
  · rintro ⟨⟨k, v'⟩, hp, rfl⟩
    exact ⟨k, mem_pairs.mp hp⟩
  · rintro ⟨k, h⟩
    exact ⟨(k, v), mem_pairs.mpr h, rfl⟩

variable (m : GoMap K V)

theorem lookup_insert (a b : K) (v : V) :
    (m.insert a v).lookup b = if b = a then some v else m.lookup b := by
  by_cases h : b = a
  · subst h
    simp
  · simp [h]

theorem lookup_erase (a b : K) : (m.erase a).lookup b = if b = a then none else m.lookup b := by
  by_cases h : b = a
  · subst h
    simp
  · simp [h]

/-- The map without the keys. -/
def eraseAll (m : GoMap K V) (ks : List K) : GoMap K V := ks.foldl (fun m k => m.erase k) m

theorem lookup_eraseAll (ks : List K) (b : K) :
    (m.eraseAll ks).lookup b = if b ∈ ks then none else m.lookup b := by
  induction ks generalizing m with
  | nil => rfl
  | cons a ks ih =>
    refine (ih (m.erase a)).trans ?_
    rw [lookup_erase]
    by_cases hmem : b ∈ ks <;> simp [hmem]

theorem mem_eraseAll {m : GoMap K V} {ks : List K} {b : K} :
    b ∈ m.eraseAll ks ↔ b ∈ m ∧ b ∉ ks := by
  rw [← AList.lookup_isSome, lookup_eraseAll, ← AList.lookup_isSome]
  split <;> simp [*]

/-- Erasing a key that is not there. -/
theorem lookup_of_absent {m : GoMap K V} {a : K} (h : m.lookup a = none) (b : K) :
    m.lookup b = if b = a then none else m.lookup b := by
  split
  · next heq => rw [heq, h]
  · rfl

omit [DecidableEq K] in
/-- `len(m)` is the number of keys. -/
theorem length_keys : m.keys.length = m.entries.length := List.length_map _

theorem length_erase (a : K) :
    (m.erase a).entries.length + (if a ∈ m then 1 else 0) = m.entries.length := by
  rw [← length_keys, ← length_keys, AList.keys_erase]
  by_cases h : a ∈ m
  · have hpos : 0 < m.keys.length := List.length_pos_of_mem h
    rw [if_pos h, List.length_erase_of_mem h]
    omega
  · rw [if_neg h, List.erase_of_not_mem h]
    rfl

theorem length_insert (a : K) (v : V) :
    (m.insert a v).entries.length = m.entries.length + if a ∈ m then 0 else 1 := by
  have hlen := length_erase m a
  rw [← length_keys, AList.keys_insert, List.length_cons, ← AList.keys_erase, length_keys]
  by_cases h : a ∈ m
  · rw [if_pos h] at hlen ⊢
    omega
  · rw [if_neg h] at hlen ⊢
    omega

end GoMap

/-- An order in which a `range` loop visits the entries of a map, which Go
leaves open. -/
structure RangeOrder (α : Type) where
  visit : List α → List α
  perm : ∀ l, (visit l).Perm l

/-- **Range loops.** What every iteration keeps holds after the loop. -/
theorem foldl_invariant {α σ : Type} {f : σ → α → σ} {I : σ → Prop} {l : List α}
    (hstep : ∀ s, ∀ a ∈ l, I s → I (f s a)) {s : σ} (hs : I s) : I (l.foldl f s) := by
  induction l generalizing s with
  | nil => exact hs
  | cons a l ih =>
    refine ih ?_ (hstep s a List.mem_cons_self hs)
    intro t b hb
    exact hstep t b (List.mem_cons_of_mem a hb)

end Smbfs.Lib
