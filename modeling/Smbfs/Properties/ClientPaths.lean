import Mathlib.Data.Set.Function
import Smbfs.Client.MemShare

/-!
The paths that the client accepts, `path.go`.

* `normalize_safe`: a path that `validatePath` accepts is normalised to a path
  without special components, which is accepted and stays as it is, and whose SMB
  form does not climb;
* `getParentPath_normalize`: the cache drops the listing of `path.Dir`;
* `validatePath_rejects`: a path is rejected for a component that begins with two
  dots, not only for `..`;
* `fromSMBPath_toSMBPath`: the SMB form of a normalised path gives it back.
-/

namespace Smbfs.Client

open Smbfs.Lib GoPath

/-! ## Normalised paths -/

/-- The path starts with a slash, has neither backslash nor NUL, and is the root or has
no empty, `.` or `..` component behind the slash and no slash at its end. -/
structure SafePath (n : Str) : Prop where
  rooted : n.head? = some '/'
  no_backslash : '\\' ∉ n
  no_nul : '\x00' ∉ n
  names : n ≠ ['/'] → ∀ c ∈ components n.tail, c ≠ [] ∧ c ≠ dot ∧ c ≠ dotdot
  no_trailing : n ≠ ['/'] → n.getLast? ≠ some '/'

/-- The path has no slash, does not start with a backslash, and its components never
climb above the root of the share. -/
structure SafeSMBPath (n : Str) : Prop where
  no_slash : '/' ∉ n
  relative : n.head? ≠ some '\\'
  no_dotdot : dotdot ∉ n.splitOn '\\'
  inside : resolve false [] (n.splitOn '\\') ≠ none

namespace Loc

variable (l : Loc)

theorem getLast_slash (h : l.names ≠ []) : l.slash.getLast? ≠ some '/' := by
  obtain ⟨c, up, hn⟩ := List.exists_cons_of_ne_nil h
  have hc : IsName c := l.valid c (by simp [hn])
  rw [slash_eq hn, List.getLast?_append, List.getLast?_cons]
  have hlast : c.getLast? = some (c.getLast hc.plain.ne_nil) := List.getLast?_eq_some_getLast _
  simp only [hlast, Option.getD_some]
  intro heq
  exact hc.plain.no_slash (Option.some.inj heq ▸ List.getLast_mem _)

theorem safePath_slash (hnul : '\x00' ∉ l.slash) : SafePath l.slash := by
  refine ⟨rfl, ?_, hnul, ?_, ?_⟩
  · intro hmem
    obtain ⟨c, hc, hx⟩ := (mem_slash hmem).resolve_left (by decide)
    exact (l.valid c hc).no_backslash hx
  · intro hroot c hc
    rw [components_slash l fun h => hroot (slash_eq_root.mpr h), List.mem_reverse] at hc
    have hplain := (l.valid c hc).plain
    exact ⟨hplain.ne_nil, hplain.ne_dot, hplain.ne_dotdot⟩
  · intro hroot
    exact getLast_slash l fun h => hroot (slash_eq_root.mpr h)

theorem splitOn_smb (h : l.names ≠ []) : l.smb.splitOn '\\' = l.names.reverse := by
  refine List.splitOn_intercalate '\\' ?_ (by simpa using h)
  intro c hc
  exact (l.valid c (List.mem_reverse.mp hc)).no_backslash

theorem slashed_smb : slashed l.smb = joinParts l.names.reverse := by
  have hmap : ∀ c ∈ l.names.reverse, List.map (fun x => if x = '\\' then '/' else x) c = c := by
    intro c hc
    have hno := (l.valid c (List.mem_reverse.mp hc)).no_backslash
    conv_rhs => rw [← List.map_id c]
    refine List.map_congr_left fun x hx => ?_
    have hne : x ≠ '\\' := fun h => hno (h ▸ hx)
    rw [if_neg hne, id]
  rw [slashed, smb, map_intercalate, if_pos rfl, joinParts]
  congr 1
  conv_rhs => rw [← List.map_id l.names.reverse]
  exact List.map_congr_left hmap

theorem safeSMBPath_smb : SafeSMBPath l.smb := by
  by_cases hnil : l.names = []
  · have hsmb : l.smb = [] := by simp [smb, hnil, List.intercalate]
    rw [hsmb]
    constructor <;> simp [dotdot, resolve, resolveStep]
  · have hplain : ∀ c ∈ l.names.reverse, Plain c := fun c hc =>
      (l.valid c (List.mem_reverse.mp hc)).plain
    refine ⟨?_, ?_, ?_, ?_⟩
    · rw [← toSMBPath_slash, toSMBPath]
      intro hmem
      obtain ⟨x, -, hx⟩ := List.mem_map.mp hmem
      split at hx
      · exact absurd hx (by decide)
      · next hne => exact hne hx
    · -- a leading backslash would make the first name empty
      intro hhead
      obtain ⟨rest, hrest⟩ := List.head?_eq_some_iff.mp hhead
      have hfirst : ('\\' :: rest).splitOn '\\' = [] :: rest.splitOn '\\' :=
        List.splitOn_append_cons_self [] rest
      have hsplit := splitOn_smb l hnil
      rw [hrest, hfirst] at hsplit
      exact (hplain [] (hsplit ▸ List.mem_cons_self)).ne_nil rfl
    · rw [splitOn_smb l hnil]
      exact fun hmem => (hplain _ hmem).ne_dotdot rfl
    · rw [splitOn_smb l hnil, resolve_plain false [] _ hplain]
      exact Option.some_ne_none _

theorem fromSMBPath_smb : fromSMBPath l.smb = l.slash := by
  have hplain : ∀ c ∈ l.names.reverse, Plain c := fun c hc =>
    (l.valid c (List.mem_reverse.mp hc)).plain
  simp only [fromSMBPath, slashed_smb, isRooted_joinParts hplain, Bool.false_eq_true, if_false]
  exact clean_rooted l.names fun c hc => (l.valid c hc).plain

end Loc

theorem normalize_no_nul (pn : PathNormalizer) {p : Str} (h : validatePath p = none) :
    '\x00' ∉ pn.normalize p :=
  (validatePath_eq_none.mp (normalize_normalize pn h).1).2.1

/-- **Safe paths.** -/
theorem normalize_safe (pn : PathNormalizer) {p : Str} (h : validatePath p = none) :
    SafePath (pn.normalize p) ∧ pn.normalize (pn.normalize p) = pn.normalize p ∧
      validatePath (pn.normalize p) = none ∧ SafeSMBPath (toSMBPath (pn.normalize p)) := by
  obtain ⟨hvalid, hagain⟩ := normalize_normalize pn h
  have hnul := normalize_no_nul pn h
  obtain ⟨l, hl⟩ := normalize_slash pn h
  refine ⟨?_, hagain, hvalid, ?_⟩
  · rw [hl] at hnul ⊢
    exact l.safePath_slash hnul
  · rw [hl, l.toSMBPath_slash]
    exact l.safeSMBPath_smb

/-- A path with both separators, dots and capitals. -/
theorem normalize_safe_mixed :
    SafePath (exactPaths.normalize ['a', '\\', '.', '/', 'B', '/', '/', '.', '.', '\\', 'c']) :=
  (normalize_safe exactPaths (by decide)).1

/-! ## Parents -/

/-- **Parents.** The cache and the file system agree on the parent of a normalised path, and
`ReadDir` caches the listing of the parent where `invalidate` of the path drops it. -/
theorem getParentPath_normalize (pn : PathNormalizer) {p : Str} (h : validatePath p = none) :
    getParentPath (pn.normalize p) = pn.dir (pn.normalize p) ∧
      pn.dir (pn.normalize p) = GoPath.dir (pn.normalize p) ∧
      pn.normalize (pn.dir (pn.normalize p)) = pn.dir (pn.normalize p) ∧
      ∀ c : MetadataCache, c.enabled = true →
        (c.invalidate (pn.normalize p)).dirCache.lookup (pn.normalize (pn.dir (pn.normalize p))) =
          none := by
  obtain ⟨-, hagain⟩ := normalize_normalize pn h
  obtain ⟨l, hl⟩ := normalize_slash pn h
  rw [hl] at hagain ⊢
  have hdir := l.dir_slash pn hagain
  rw [hdir, l.getParentPath_slash, l.normalize_parent pn hagain]
  refine ⟨rfl, ?_, rfl, fun c hon => ?_⟩
  · rw [← hdir, PathNormalizer.dir, hagain]
  · simp [MetadataCache.invalidate, hon, l.getParentPath_slash]

theorem getParentPath_normalize_nested :
    getParentPath (exactPaths.normalize ['a', '\\', 'b', '/', 'c']) =
      exactPaths.dir (exactPaths.normalize ['a', '\\', 'b', '/', 'c']) :=
  (getParentPath_normalize exactPaths (by decide)).1

/-! ## The SMB form -/

/-- **Round trip.** A normalised path is that of its SMB form, so no two of them have
the same one. -/
theorem fromSMBPath_toSMBPath :
    (∀ (pn : PathNormalizer) (p : Str), validatePath p = none →
      fromSMBPath (toSMBPath (pn.normalize p)) = pn.normalize p) ∧
    Set.InjOn toSMBPath {n | ∃ pn : PathNormalizer, ∃ p, validatePath p = none ∧ pn.normalize p = n} := by
  have hback : ∀ (pn : PathNormalizer) (p : Str), validatePath p = none →
      fromSMBPath (toSMBPath (pn.normalize p)) = pn.normalize p := by
    intro pn p h
    obtain ⟨l, hl⟩ := normalize_slash pn h
    rw [hl, l.toSMBPath_slash, l.fromSMBPath_smb]
  refine ⟨hback, ?_⟩
  rintro _ ⟨pn, p, hp, rfl⟩ _ ⟨pn', q, hq, rfl⟩ heq
  rw [← hback pn p hp, heq, hback pn' q hq]

theorem fromSMBPath_toSMBPath_deep :
    fromSMBPath (toSMBPath (exactPaths.normalize ['a', '\\', 'b', '/', 'c'])) =
      exactPaths.normalize ['a', '\\', 'b', '/', 'c'] :=
  fromSMBPath_toSMBPath.1 exactPaths _ (by decide)

/-! ## Rejected paths -/

/-- **Rejections.** A path is rejected exactly for climbing if no component of the
cleaned path begins with two dots, or one is `..`. -/
theorem validatePath_rejects {p : Str} (hne : p ≠ []) (hnul : '\x00' ∉ p) :
    (validatePath p ≠ none ↔ dotdot ∈ components (clean (slashed p))) ↔
      ((∃ c ∈ components (clean (slashed p)), dotdot <+: c) →
        dotdot ∈ components (clean (slashed p))) := by
  rw [validatePath_ne_none hne hnul]
  constructor
  · exact fun h => h.mp
  · intro h
    exact ⟨h, fun hmem => ⟨dotdot, hmem, List.prefix_refl dotdot⟩⟩

/-- `a/../../b` climbs, and is rejected. -/
theorem validatePath_rejects_climbing :
    validatePath ['a', '/', '.', '.', '\\', '.', '.', '/', 'b'] ≠ none ↔
      dotdot ∈ components (clean (slashed ['a', '/', '.', '.', '\\', '.', '.', '/', 'b'])) :=
  (validatePath_rejects (by decide) (by decide)).mpr fun _ => by decide

/-- The name `..a` does not climb, and is rejected. -/
theorem validatePath_rejects_name :
    validatePath ['.', '.', 'a'] ≠ none ∧ dotdot ∉ components (clean (slashed ['.', '.', 'a'])) := by
  decide

end Smbfs.Client
