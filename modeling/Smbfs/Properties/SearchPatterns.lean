import Smbfs.Lib.Glob
import Smbfs.System.Samples

/-!
The search patterns of QUERY_DIRECTORY. `matchPattern` hands the pattern, in upper
case, to `filepath.Match`, which knows classes and backslashes besides `*` and `?`.

* `searchPattern_wild_iff`: a pattern means its wildcards only if it has neither `[` nor
  a backslash, and then a pattern without wildcards means itself, up to case;
* `bracketed_name_not_found`: the pattern `[a]` does not match the name `[a]`.
-/

namespace Smbfs

open Smbfs.Lib Smbfs.Lib.Glob

/-- The functions are those of Go on Unix, as far as patterns go: `filepath.Match` is as
documented, and the slash is the upper case of the slash only. -/
structure GoOnUnix (P : Platform) : Prop where
  globMatch_eq : P.globMatch = pathMatch
  toUpper_slash : ∀ c, P.toUpper c = '/' ↔ c = '/'

/-- The pattern means that `*` stands for any string and `?` for any character. -/
def MeansWildcards (P : Platform) (pattern : Str) : Prop :=
  ∀ name, '/' ∉ name →
    (matchPattern P name pattern = true ↔ Wild (P.upper pattern) (P.upper name))

variable {P : Platform} {pattern : Str}

theorem GoOnUnix.slash_mem_upper (hP : GoOnUnix P) (s : Str) : '/' ∈ P.upper s ↔ '/' ∈ s := by
  rw [Platform.upper, List.mem_map]
  constructor
  · rintro ⟨c, hc, heq⟩
    rwa [← (hP.toUpper_slash c).mp heq]
  · exact fun h => ⟨'/', h, (hP.toUpper_slash '/').mpr rfl⟩

/-- Every string of upper case characters of `s` is the upper case of a name. -/
theorem exists_upper {s t : Str} (h : ∀ c ∈ t, c ∈ P.upper s) :
    ∃ name, P.upper name = t ∧ ∀ c ∈ name, c ∈ s := by
  induction t with
  | nil => exact ⟨[], rfl, by simp⟩
  | cons c t ih =>
    obtain ⟨name, hname, hmem⟩ := ih fun d hd => h d (List.mem_cons_of_mem c hd)
    obtain ⟨d, hd, rfl⟩ := List.mem_map.mp (h c List.mem_cons_self)
    refine ⟨d :: name, congrArg (P.toUpper d :: ·) hname, fun e he => ?_⟩
    rcases List.mem_cons.mp he with rfl | he
    · exact hd
    · exact hmem e he

theorem meansWildcards_of_plain (hP : GoOnUnix P) (hclass : '[' ∉ P.upper pattern)
    (hescape : '\\' ∉ P.upper pattern) : MeansWildcards P pattern := by
  intro name hname
  rw [matchPattern, hP.globMatch_eq]
  exact pathMatch_iff_wild hclass hescape fun h => hname ((hP.slash_mem_upper name).mp h)

theorem plain_of_meansWildcards (hP : GoOnUnix P) (hslash : '/' ∉ pattern)
    (h : MeansWildcards P pattern) : '[' ∉ P.upper pattern ∧ '\\' ∉ P.upper pattern := by
  refine plain_of_agree fun s hs => ?_
  obtain ⟨name, rfl, hmem⟩ := exists_upper hs
  rw [← h name fun hname => hslash (hmem _ hname), matchPattern, hP.globMatch_eq]

/-- **Search patterns.** With neither `[` nor a backslash in its upper case, a pattern
means its wildcards, and without wildcards it matches the names that are equal to it up
to case. A pattern without slashes that means its wildcards has neither of them. -/
theorem searchPattern_wild_iff (hP : GoOnUnix P) (pattern : Str) :
    ('[' ∉ P.upper pattern → '\\' ∉ P.upper pattern → MeansWildcards P pattern ∧
      ('*' ∉ P.upper pattern → '?' ∉ P.upper pattern → ∀ name, '/' ∉ name →
        (matchPattern P name pattern = true ↔ P.upper name = P.upper pattern))) ∧
    ('/' ∉ pattern → MeansWildcards P pattern →
      '[' ∉ P.upper pattern ∧ '\\' ∉ P.upper pattern) := by
  refine ⟨fun hclass hescape => ?_, plain_of_meansWildcards hP⟩
  have hmeans := meansWildcards_of_plain hP hclass hescape
  refine ⟨hmeans, fun hstar hany name hname => ?_⟩
  rw [hmeans name hname, wild_iff_eq hstar hany]

/-- The sample platform with `filepath.Match`. -/
def unixPlatform : Platform := { samplePlatform with globMatch := pathMatch }

theorem unixPlatform_goOnUnix : GoOnUnix unixPlatform := by
  refine ⟨rfl, fun c => ?_⟩
  change c.toUpper = '/' ↔ c = '/'
  unfold Char.toUpper
  split
  · next h =>
    refine iff_of_false (fun heq => ?_) ?_
    · have hlo : 97 ≤ c.val := h.1
      have hhi : c.val ≤ 122 := h.2
      rw [Char.ext_iff] at heq
      grind
    · rintro rfl
      revert h
      decide
  · rfl

/-- `*.T` finds `a.t`. -/
theorem searchPattern_suffix :
    matchPattern unixPlatform ['a', '.', 't'] ['*', '.', 'T'] = true := by
  have hmeans := ((searchPattern_wild_iff unixPlatform_goOnUnix ['*', '.', 'T']).1 (by decide)
    (by decide)).1
  exact (hmeans ['a', '.', 't'] (by decide)).mpr
    (.star ['A'] (.char (by decide) (by decide) (.char (by decide) (by decide) .nil)))

/-- A name with brackets is not found under the pattern that is the name. -/
theorem bracketed_name_not_found :
    matchPattern unixPlatform ['[', 'a', ']'] ['[', 'a', ']'] = false ∧
      Wild (unixPlatform.upper ['[', 'a', ']']) (unixPlatform.upper ['[', 'a', ']']) ∧
      matchPattern unixPlatform ['a'] ['[', 'a', ']'] = true :=
  ⟨by decide, (wild_iff_eq (by decide) (by decide)).mpr rfl, by decide⟩

end Smbfs
