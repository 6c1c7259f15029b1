import Smbfs.Client.Cache
import Smbfs.Client.Path

/-!
Where the paths of the client lead. A location is the list of the names from
the innermost to the outermost one, all of them fit for a normalised path; its
two spellings are the normalised path and the path sent to the share.

* `normalize_slash`: a path that `validatePath` accepts is normalised to the
  spelling of a location;
* `toSMBPath_slash` and `getParentPath_slash`: the SMB path and the parent of a
  normalised path are those of its location;
* `slash_injective`: a normalised path has one location.
-/

namespace Smbfs.Client

open Smbfs.Lib GoPath

/-- A name of a normalised path. -/
structure IsName (c : Str) : Prop where
  plain : Plain c
  no_backslash : '\\' ∉ c

/-- A place on a share. -/
@[ext] structure Loc where
  names : List Str
  valid : ∀ c ∈ names, IsName c

namespace Loc

def parent (l : Loc) : Loc := ⟨l.names.tail, fun c hc => l.valid c (List.mem_of_mem_tail hc)⟩

@[simp] theorem parent_names (l : Loc) : l.parent.names = l.names.tail := rfl

/-- The normalised path. -/
def slash (l : Loc) : Str := '/' :: joinParts l.names.reverse

/-- The path sent to the share. -/
def smb (l : Loc) : Str := ['\\'].intercalate l.names.reverse

/-- `q` is `l` or lies below it. -/
def Covers (l q : Loc) : Prop := l.names <:+ q.names

theorem mem_slash {l : Loc} {x : Char} (h : x ∈ l.slash) : x = '/' ∨ ∃ c ∈ l.names, x ∈ c := by
  rcases List.mem_cons.mp h with h | h
  · exact .inl h
  · obtain h | ⟨c, hc, hx⟩ := mem_joinParts h
    · exact .inl h
    · exact .inr ⟨c, List.mem_reverse.mp hc, hx⟩

theorem walk_slash (l : Loc) : walk l.slash = some l.names :=
  (GoPath.walk_slash _).trans (walk_joinParts l.names fun c hc => (l.valid c hc).plain)

theorem slash_injective {l q : Loc} (h : l.slash = q.slash) : l = q := by
  have hw := walk_slash l
  rw [h, walk_slash q] at hw
  exact Loc.ext (Option.some.inj hw).symm

end Loc

/-! ## Normalised paths -/

variable {c : Str}

/-- The lower case of a name is a name. -/
theorem IsName.map (h : IsName c) (pn : PathNormalizer) : IsName (c.map pn.toLower) := by
  have hdot : ∀ x : Char, pn.toLower x = '.' ↔ x = '.' := fun x => pn.toLower_eq_iff x '.' (by simp)
  have hmem : ∀ s ∈ ['/', '\\'], s ∉ c → s ∉ c.map pn.toLower := by
    intro s hs hc hm
    obtain ⟨x, hx, hxs⟩ := List.mem_map.mp hm
    have hxs : x = s := (pn.toLower_eq_iff x s (by simp at hs ⊢; tauto)).mp hxs
    exact hc (hxs ▸ hx)
  refine ⟨⟨?_, ?_, ?_, hmem '/' (by simp) h.plain.no_slash⟩, hmem '\\' (by simp) h.no_backslash⟩
  · simpa using h.plain.ne_nil
  · intro hc
    apply h.plain.ne_dot
    rw [dot, List.map_eq_singleton_iff] at hc
    obtain ⟨x, rfl, hx⟩ := hc
    rw [(hdot x).mp hx, dot]
  · intro hc
    apply h.plain.ne_dotdot
    rw [dotdot, List.map_eq_cons_iff] at hc
    obtain ⟨x, xs, rfl, hx, hxs⟩ := hc
    rw [List.map_eq_singleton_iff] at hxs
    obtain ⟨y, rfl, hy⟩ := hxs
    rw [(hdot x).mp hx, (hdot y).mp hy, dotdot]

theorem slashed_no_backslash (p : Str) : '\\' ∉ slashed p := by
  intro h
  obtain ⟨c, _, hc⟩ := List.mem_map.mp h
  split at hc
  · exact absurd hc (by decide)
  · next hne => exact hne hc

theorem joinParts_ne_dot {l : List Str} (h : ∀ c ∈ l, Plain c) : joinParts l ≠ ['.'] := by
  intro hd
  cases l with
  | nil => cases hd
  | cons c cs =>
    cases cs with
    | nil =>
      apply (h c List.mem_cons_self).ne_dot
      simpa [joinParts, List.intercalate, dot] using hd
    | cons d ds =>
      rw [joinParts, intercalate_cons_cons] at hd
      have hmem : '/' ∈ c ++ '/' :: ['/'].intercalate (d :: ds) := by simp
      rw [hd] at hmem
      simp at hmem

theorem isRooted_joinParts {l : List Str} (h : ∀ c ∈ l, Plain c) : isRooted (joinParts l) = false := by
  cases l with
  | nil => rfl
  | cons c cs => exact (joinParts_head c cs (h c List.mem_cons_self)).2

variable (pn : PathNormalizer) {p : Str}

/-- What `validatePath` accepts. -/
theorem validatePath_eq_none :
    validatePath p = none ↔ p ≠ [] ∧ '\x00' ∉ p ∧ ¬ dotdot <+: clean (slashed p) ∧
      containsStr (clean (slashed p)) ['/', '.', '.'] = false := by
  unfold validatePath
  by_cases hnil : p = []
  · simp [hnil]
  · by_cases hnul : '\x00' ∈ p
    · simp [hnul]
    · simp [hnil, hnul, dotdot, List.isPrefixOf_iff_prefix]

theorem containsStr_cons (x : Char) (p needle : Str) :
    containsStr (x :: p) needle = (needle.isPrefixOf (x :: p) || containsStr p needle) := by
  simp [containsStr]

/-- Before the change of case a normalised path spells the names of the
cleaned path, none of which starts with two dots. -/
theorem normalize_eq (h : validatePath p = none) :
    ∃ l : Loc, pn.normalize p = (if pn.caseSensitive then l.slash else l.slash.map pn.toLower) ∧
      '\x00' ∉ l.slash ∧ containsStr l.slash ['/', '.', '.'] = false := by
  obtain ⟨hne, hnul, hdots, hin⟩ := validatePath_eq_none.mp h
  have hne' : slashed p ≠ [] := by simpa [slashed] using hne
  obtain ⟨l, hl, hclean⟩ := clean_form (slashed p) hne' hdots
  have hname : ∀ c ∈ l, IsName c := fun c hc =>
    ⟨(hl c hc).1, fun hb => slashed_no_backslash p (mem_of_mem_components (hl c hc).2 hb)⟩
  have hplain : ∀ c ∈ l.reverse, Plain c := fun c hc => (hname c (List.mem_reverse.mp hc)).plain
  -- the steps of `normalize` before the change of case
  have hslash : (if isRooted (if clean (slashed p) = ['.'] then ['/'] else clean (slashed p)) then
      (if clean (slashed p) = ['.'] then ['/'] else clean (slashed p))
      else '/' :: (if clean (slashed p) = ['.'] then ['/'] else clean (slashed p))) =
      '/' :: joinParts l.reverse := by
    rw [hclean]
    cases isRooted (slashed p) with
    | true => simp [isRooted]
    | false =>
      by_cases hnil : l = []
      · simp [hnil, dot, isRooted, joinParts, List.intercalate]
      · simp only [hnil, if_false, Bool.false_eq_true, joinParts_ne_dot hplain,
          isRooted_joinParts hplain]
  refine ⟨⟨l, hname⟩, ?_, ?_, ?_⟩
  · simp only [PathNormalizer.normalize, hne, if_false, hslash]
    rfl
  · intro hmem
    obtain ⟨c, hc, hx⟩ := (Loc.mem_slash hmem).resolve_left (by decide)
    have hx := mem_of_mem_components (hl c hc).2 hx
    obtain ⟨y, hy, hyx⟩ := List.mem_map.mp hx
    split at hyx
    · exact absurd hyx (by decide)
    · exact hnul (hyx ▸ hy)
  · rw [Loc.slash]
    simp only
    rw [hclean] at hin hdots
    cases hr : isRooted (slashed p) with
    | true => simpa [hr] using hin
    | false =>
      by_cases hnil : l = []
      · subst hnil
        rfl
      · simp only [hr, hnil, if_false, Bool.false_eq_true] at hin hdots
        rw [containsStr_cons, hin, Bool.or_false, ← Bool.not_eq_true]
        intro hpre
        exact hdots (List.isPrefixOf_iff_prefix.mp hpre)

/-- **Normalised paths.** -/
theorem normalize_slash (h : validatePath p = none) : ∃ l : Loc, pn.normalize p = l.slash := by
  obtain ⟨l, hl, -, -⟩ := normalize_eq pn h
  cases hcase : pn.caseSensitive with
  | true => exact ⟨l, by simpa [hcase] using hl⟩
  | false =>
    refine ⟨⟨l.names.map (List.map pn.toLower), ?_⟩, ?_⟩
    · intro c hc
      obtain ⟨d, hd, rfl⟩ := List.mem_map.mp hc
      exact (l.valid d hd).map pn
    · have hs : pn.toLower '/' = '/' := (pn.toLower_eq_iff '/' '/' (by simp)).mpr rfl
      rw [hl, hcase, Loc.slash, joinParts]
      simp only [Bool.false_eq_true, if_false, List.map_cons, map_intercalate, hs, Loc.slash,
        joinParts, List.map_reverse]

/-! ## Normalising twice -/

theorem slashed_eq_self (h : '\\' ∉ p) : slashed p = p := by
  conv_rhs => rw [← List.map_id p]
  refine List.map_congr_left fun x hx => ?_
  have hne : x ≠ '\\' := fun heq => h (heq ▸ hx)
  rw [if_neg hne, id]

theorem Loc.slashed_slash (l : Loc) : slashed l.slash = l.slash := by
  refine slashed_eq_self fun hx => ?_
  obtain ⟨c, hc, hx⟩ := (mem_slash hx).resolve_left (by decide)
  exact (l.valid c hc).no_backslash hx

theorem Loc.clean_slash (l : Loc) : clean (slashed l.slash) = l.slash := by
  rw [l.slashed_slash]
  exact clean_rooted l.names fun c hc => (l.valid c hc).plain

theorem Loc.validatePath_slash {l : Loc} (hnul : '\x00' ∉ l.slash)
    (hin : containsStr l.slash ['/', '.', '.'] = false) : validatePath l.slash = none := by
  rw [validatePath_eq_none, l.clean_slash]
  refine ⟨List.cons_ne_nil _ _, hnul, ?_, hin⟩
  intro h
  have := List.cons_prefix_cons.mp h
  exact absurd this.1 (by decide)

theorem Loc.normalize_self (l : Loc) (pn : PathNormalizer) :
    pn.normalize l.slash = if pn.caseSensitive then l.slash else l.slash.map pn.toLower := by
  have hne : l.slash ≠ [] := List.cons_ne_nil _ _
  have hdot : l.slash ≠ ['.'] := fun h => absurd (List.cons.inj h).1 (by decide)
  have hroot : isRooted l.slash = true := rfl
  simp only [PathNormalizer.normalize, hne, if_false, l.clean_slash, hdot, hroot, if_true]

theorem containsStr_map (p : Str) :
    containsStr (p.map pn.toLower) ['/', '.', '.'] = containsStr p ['/', '.', '.'] := by
  have hs : ∀ x : Char, ('/' == pn.toLower x) = ('/' == x) := fun x => by
    rw [Bool.eq_iff_iff, beq_iff_eq, beq_iff_eq, eq_comm, pn.toLower_eq_iff x '/' (by simp), eq_comm]
  have hd : ∀ x : Char, ('.' == pn.toLower x) = ('.' == x) := fun x => by
    rw [Bool.eq_iff_iff, beq_iff_eq, beq_iff_eq, eq_comm, pn.toLower_eq_iff x '.' (by simp), eq_comm]
  induction p with
  | nil => rfl
  | cons x p ih =>
    rw [List.map_cons, containsStr_cons, containsStr_cons, ih]
    congr 1
    match p with
    | [] => simp [List.isPrefixOf]
    | [y] => simp [List.isPrefixOf]
    | y :: z :: p => simp [List.isPrefixOf, hs, hd]

/-- **A normalised path is accepted and stays as it is.** -/
theorem normalize_normalize (h : validatePath p = none) :
    validatePath (pn.normalize p) = none ∧ pn.normalize (pn.normalize p) = pn.normalize p := by
  obtain ⟨l, hl, hnul, hin⟩ := normalize_eq pn h
  obtain ⟨l', hl'⟩ := normalize_slash pn h
  have hself := l'.normalize_self pn
  cases hcase : pn.caseSensitive with
  | true =>
    rw [hcase, if_pos rfl] at hl hself
    rw [hl]
    exact ⟨l.validatePath_slash hnul hin, by rw [← hl, hl', hself]⟩
  | false =>
    rw [hcase, if_neg (by simp)] at hl hself
    have hl'l : l'.slash = l.slash.map pn.toLower := hl'.symm.trans hl
    constructor
    · rw [hl']
      refine l'.validatePath_slash ?_ ?_
      · intro hmem
        rw [hl'l] at hmem
        obtain ⟨x, hx, hx0⟩ := List.mem_map.mp hmem
        exact hnul ((pn.toLower_eq_iff x '\x00' (by simp)).mp hx0 ▸ hx)
      · rw [hl'l, containsStr_map]
        exact hin
    · rw [hl', hself, hl'l, List.map_map]
      exact List.map_congr_left fun x _ => pn.toLower_toLower x

/-! ## Spellings of a location -/

namespace Loc

theorem toSMBPath_slash (l : Loc) : toSMBPath l.slash = l.smb := by
  have hmap : ∀ c ∈ l.names.reverse, List.map (fun x => if x = '/' then '\\' else x) c = c := by
    intro c hc
    have hslash := (l.valid c (List.mem_reverse.mp hc)).plain.no_slash
    conv_rhs => rw [← List.map_id c]
    refine List.map_congr_left fun x hx => ?_
    have hne : x ≠ '/' := fun h => hslash (h ▸ hx)
    rw [if_neg hne, id]
  have hroot : isRooted l.slash = true := rfl
  simp only [toSMBPath, hroot, if_true]
  rw [slash, List.tail_cons, joinParts, map_intercalate, smb, if_pos rfl]
  congr 1
  conv_rhs => rw [← List.map_id l.names.reverse]
  exact List.map_congr_left hmap

/-- The path of a child is the path of its parent, a separator and a name. -/
theorem slash_eq {l : Loc} {up : List Str} (h : l.names = c :: up) :
    l.slash = (if up = [] then [] else l.parent.slash) ++ '/' :: c := by
  have hp : l.parent.names = up := by rw [parent_names, h, List.tail_cons]
  rw [slash, slash, hp, h, List.reverse_cons, joinParts, joinParts]
  by_cases hup : up = []
  · simp [hup, List.intercalate]
  · rw [if_neg hup, intercalate_concat '/' _ c (by simpa using hup), List.cons_append]

theorem slash_eq_root {l : Loc} : l.slash = ['/'] ↔ l.names = [] := by
  constructor
  · intro h
    have hw := walk_slash l
    rw [h] at hw
    exact (Option.some.inj hw).symm
  · intro h
    rw [slash, h]
    rfl

/-- A path below another continues it after a separator. -/
theorem slash_of_covers {l q : Loc} (h : l.Covers q) (hne : q ≠ l) :
    ∃ rest, rest ≠ [] ∧ q.slash = (if l.names = [] then [] else l.slash) ++ '/' :: rest := by
  obtain ⟨pre, hpre⟩ := h
  induction pre generalizing q with
  | nil => exact absurd (Loc.ext hpre.symm) hne
  | cons x pre ih =>
    have hq : q.names = x :: (pre ++ l.names) := hpre.symm
    have hx : x ≠ [] := (q.valid x (by rw [hq]; exact List.mem_cons_self)).plain.ne_nil
    have hparent : q.parent.names = pre ++ l.names := by rw [parent_names, hq, List.tail_cons]
    rw [slash_eq hq]
    by_cases hpl : q.parent = l
    · rw [hpl] at hparent ⊢
      exact ⟨x, hx, by rw [← hparent]⟩
    · obtain ⟨rest, hrest, hslash⟩ := ih hpl hparent.symm
      have hup : pre ++ l.names ≠ [] := by
        intro hnil
        apply hpl
        ext1
        rw [hparent, hnil, (List.append_eq_nil_iff.mp hnil).2]
      refine ⟨rest ++ '/' :: x, by simp, ?_⟩
      rw [if_neg hup, hslash, List.append_assoc, List.cons_append]

/-- What is left of a path without its last name. -/
theorem dropWhile_slash {l : Loc} {up : List Str} (h : l.names = c :: up) :
    l.slash.reverse.dropWhile (· ≠ '/') = '/' :: (if up = [] then [] else l.parent.slash).reverse := by
  have hc : IsName c := l.valid c (by rw [h]; exact List.mem_cons_self)
  rw [slash_eq h, List.reverse_append, List.reverse_cons, List.append_assoc]
  rw [List.dropWhile_append_of_pos]
  · rfl
  · intro x hx
    have : x ≠ '/' := fun h => hc.plain.no_slash (h ▸ List.mem_reverse.mp hx)
    simpa using this

theorem getParentPath_slash (l : Loc) : getParentPath l.slash = l.parent.slash := by
  cases hn : l.names with
  | nil =>
    have hroot : ∀ q : Loc, q.names = [] → q.slash = ['/'] := by
      intro q hq
      rw [slash, hq]
      rfl
    rw [hroot l hn, hroot l.parent (by rw [parent_names, hn]; rfl)]
    rfl
  | cons c up =>
    have hc : IsName c := l.valid c (by rw [hn]; exact List.mem_cons_self)
    have hne : ¬ (l.slash = ['/'] ∨ l.slash = []) := by
      rw [slash_eq hn]
      rintro (h | h)
      · have hlen := congrArg List.length h
        have hpos := List.length_pos_of_ne_nil hc.plain.ne_nil
        simp at hlen
        omega
      · simp at h
    rw [getParentPath, if_neg hne, dropWhile_slash hn]
    by_cases hup : up = []
    · simp [hup, slash, hn, joinParts, List.intercalate]
    · rw [if_neg hup]
      cases hrev : l.parent.slash.reverse with
      | nil => simp [slash] at hrev
      | cons x xs =>
        simp only
        rw [← hrev, List.reverse_reverse]

end Loc

/-! ## Rejected paths -/

section Components

variable {needle : Str} (hneedle : '/' ∉ needle)

include hneedle

/-- A prefix without a slash stands before the first slash. -/
theorem prefix_iff_takeWhile (p : Str) : needle <+: p ↔ needle <+: p.takeWhile (· ≠ '/') := by
  constructor
  · rintro ⟨rest, rfl⟩
    rw [List.takeWhile_append_of_pos]
    · exact List.prefix_append needle _
    · intro x hx
      have hne : x ≠ '/' := fun h => hneedle (h ▸ hx)
      simpa using hne
  · intro h
    exact h.trans (List.takeWhile_prefix _)

/-- A component other than the first begins behind a slash. -/
theorem containsStr_slash (p : Str) :
    ∃ rest, components p = p.takeWhile (· ≠ '/') :: rest ∧
      (containsStr p ('/' :: needle) = true ↔ ∃ c ∈ rest, needle <+: c) := by
  induction p with
  | nil => exact ⟨[], rfl, by simp [containsStr]⟩
  | cons x p ih =>
    obtain ⟨rest, hp, hrest⟩ := ih
    rw [containsStr_cons, Bool.or_eq_true, hrest, List.isPrefixOf_iff_prefix]
    by_cases hx : x = '/'
    · subst hx
      refine ⟨components p, components_append [] p, ?_⟩
      rw [List.cons_prefix_cons, and_iff_right rfl, prefix_iff_takeWhile hneedle, hp,
        List.exists_mem_cons_iff]
    · have hcons : components (x :: p) = (components p).modifyHead (x :: ·) := by
        simp [components, List.splitOn_cons_eq_if_modifyHead, hx]
      refine ⟨rest, ?_, ?_⟩
      · rw [hcons, hp, List.takeWhile_cons_of_pos (by simpa using hx)]
        rfl
      · rw [List.cons_prefix_cons, or_iff_right]
        exact fun h => hx h.1.symm

/-- A component begins with the string if the path does, or has it behind a slash. -/
theorem exists_component_prefix (p : Str) :
    (needle <+: p ∨ containsStr p ('/' :: needle) = true) ↔ ∃ c ∈ components p, needle <+: c := by
  obtain ⟨rest, hp, hrest⟩ := containsStr_slash hneedle p
  rw [hrest, prefix_iff_takeWhile hneedle, hp, List.exists_mem_cons_iff]

end Components

theorem validatePath_ne_none (hne : p ≠ []) (hnul : '\x00' ∉ p) :
    validatePath p ≠ none ↔ ∃ c ∈ components (clean (slashed p)), dotdot <+: c := by
  rw [← exists_component_prefix (by decide), ne_eq, validatePath_eq_none, and_iff_right hne,
    and_iff_right hnul, not_and_or, not_not, Bool.not_eq_false]
  rfl

/-! ## Going up and down -/

namespace Loc

variable (l : Loc)

theorem components_slash (h : l.names ≠ []) : components l.slash.tail = l.names.reverse := by
  rw [slash, List.tail_cons]
  refine components_joinParts _ ?_ (by simpa using h)
  intro c hc
  exact (l.valid c (List.mem_reverse.mp hc)).plain.no_slash

theorem components_of_ne (h : l.names ≠ []) : components l.slash = [] :: l.names.reverse := by
  rw [← components_slash l h]
  exact components_append [] l.slash.tail

/-- A path is accepted for its names: none has a NUL or begins with two dots. -/
theorem validatePath_slash_iff :
    validatePath l.slash = none ↔ ∀ c ∈ l.names, '\x00' ∉ c ∧ ¬ dotdot <+: c := by
  have hne : l.slash ≠ [] := List.cons_ne_nil _ _
  constructor
  · intro h c hc
    have hmem : c ∈ components l.slash := by
      rw [components_of_ne l (List.ne_nil_of_mem hc)]
      exact List.mem_cons_of_mem _ (List.mem_reverse.mpr hc)
    have hnul := (validatePath_eq_none.mp h).2.1
    refine ⟨fun hx => hnul (mem_of_mem_components hmem hx), fun hdots => ?_⟩
    refine (validatePath_ne_none hne hnul).mpr ⟨c, ?_, hdots⟩ h
    rwa [l.clean_slash]
  · intro h
    have hnul : '\x00' ∉ l.slash := by
      intro hx
      obtain ⟨c, hc, hx⟩ := (mem_slash hx).resolve_left (by decide)
      exact (h c hc).1 hx
    by_contra hrejects
    obtain ⟨c, hc, hdots⟩ := (validatePath_ne_none hne hnul).mp hrejects
    rw [l.clean_slash] at hc
    by_cases hroot : l.names = []
    · rw [slash_eq_root.mpr hroot, show components ['/'] = [[], []] from rfl] at hc
      have hnil : c = [] := by simpa using hc
      rw [hnil] at hdots
      exact absurd hdots (by decide)
    · rw [components_of_ne l hroot] at hc
      rcases List.mem_cons.mp hc with rfl | hc
      · exact absurd hdots (by decide)
      · exact (h c (List.mem_reverse.mp hc)).2 hdots

/-- The entry of a directory with the name `c`. -/
def child (c : Str) (h : IsName c) : Loc := ⟨c :: l.names, List.forall_mem_cons.mpr ⟨h, l.valid⟩⟩

theorem location_joinParts : location (joinParts l.names.reverse) = l.names := by
  have h := l.walk_slash
  rw [slash, GoPath.walk_slash] at h
  rw [location, resolve_of_walk true _ _ _ h]
  rfl

/-- `dir` goes up. -/
theorem dir_slash (hl : pn.normalize l.slash = l.slash) : pn.dir l.slash = l.parent.slash := by
  rw [PathNormalizer.dir, hl, dir, dirPart]
  cases hn : l.names with
  | nil =>
    have hparent : l.parent.names = [] := by rw [parent_names, hn, List.tail_nil]
    rw [slash_eq_root.mpr hn, slash_eq_root.mpr hparent]
    rfl
  | cons c up =>
    rw [dropWhile_slash hn, List.reverse_cons, List.reverse_reverse]
    have hparent : l.parent.names = up := by rw [parent_names, hn, List.tail_cons]
    by_cases hup : up = []
    · rw [if_pos hup, slash_eq_root.mpr (hparent.trans hup)]
      rfl
    · rw [if_neg hup, slash, List.cons_append, GoPath.clean_slash, location_append,
        location_joinParts]
      rfl

/-- The parent of a normalised path is normalised. -/
theorem normalize_parent (hl : pn.normalize l.slash = l.slash) :
    pn.normalize l.parent.slash = l.parent.slash := by
  rw [normalize_self] at hl ⊢
  cases hcase : pn.caseSensitive with
  | true => rfl
  | false =>
    have hroot : pn.toLower '/' = '/' := (pn.toLower_eq_iff '/' '/' (by decide)).mpr rfl
    simp only [hcase, Bool.false_eq_true, if_false] at hl ⊢
    cases hn : l.parent.names with
    | nil => rw [slash_eq_root.mpr hn, List.map_singleton, hroot]
    | cons d up =>
      have hne : l.names ≠ [] := by
        rintro hnil
        rw [parent_names, hnil] at hn
        cases hn
      obtain ⟨c, rest, hc⟩ := List.exists_cons_of_ne_nil hne
      have hrest : rest ≠ [] := by
        rintro rfl
        rw [parent_names, hc] at hn
        cases hn
      rw [slash_eq hc, if_neg hrest, List.map_append] at hl
      exact (List.append_inj hl (List.length_map _)).1

/-- `join` goes down. -/
theorem join_slash (hcase : pn.caseSensitive = true) (h : IsName c) :
    pn.join l.slash c = (l.child c h).slash := by
  have hloc : location (joinParts l.names.reverse ++ '/' :: c) = c :: l.names := by
    rw [location_append, location_joinParts, components_of_no_slash h.plain.no_slash,
      resolve_plain true _ _ (List.forall_mem_singleton.mpr h.plain)]
    rfl
  have hjoin : join l.slash c = (l.child c h).slash := by
    have hne : l.slash ≠ [] := List.cons_ne_nil _ _
    rw [join, if_neg fun hnil => hne hnil.1, if_neg hne, slash, List.cons_append,
      GoPath.clean_slash, hloc]
    rfl
  rw [PathNormalizer.join, hjoin, normalize_self, hcase, if_pos rfl]

end Loc

end Smbfs.Client
