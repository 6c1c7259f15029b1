import Mathlib.Data.List.TakeWhile

/-!
Slash-separated paths: Go's package `path`, and where a path leads.

A location is the list of the names from the innermost to the outermost one.
`walk` follows the components of a path and fails when one of them climbs
above the root; `resolve true` stays at the root instead, as `path.Clean` does
for a rooted path.

* `clean_walk`: the cleaned path leads to the same location;
* `joinDir_walk`: so does a name joined to the directory of another path;
* `location`: where a path leads when `..` stays at the root, and `location_clean`,
  `location_join` for it.
-/

namespace Smbfs.Lib.GoPath

abbrev Part := List Char

def dot : Part := ['.']
def dotdot : Part := ['.', '.']

def components (p : List Char) : List Part := p.splitOn '/'

def isRooted (p : List Char) : Bool := p.head? == some '/'

/-! ## Package `path` -/

/-- One component of the loop of `path.Clean`; the last name kept is the head. -/
def cleanStep (rooted : Bool) (kept : List Part) (c : Part) : List Part :=
  if c = [] ∨ c = dot then kept
  else if c = dotdot then
    match kept with
    | [] => if rooted then [] else [dotdot]
    | t :: ts => if t = dotdot then dotdot :: kept else ts
  else c :: kept

def joinParts (cs : List Part) : List Char := ['/'].intercalate cs

/-- `path.Clean`. -/
def clean (p : List Char) : List Char :=
  if p = [] then dot
  else
    let kept := (components p).foldl (cleanStep (isRooted p)) []
    if isRooted p then '/' :: joinParts kept.reverse
    else if kept = [] then dot
    else joinParts kept.reverse

/-- The path up to its last slash, as `path.Split` gives it. -/
def dirPart (p : List Char) : List Char := (p.reverse.dropWhile (· ≠ '/')).reverse

/-- `path.Dir`. -/
def dir (p : List Char) : List Char := clean (dirPart p)

/-- `path.Base`. -/
def base (p : List Char) : List Char :=
  if p = [] then dot
  else
    let p := (p.reverse.dropWhile (· = '/')).reverse
    if p = [] then ['/'] else (p.reverse.takeWhile (· ≠ '/')).reverse

/-- `path.Join` of two elements. -/
def join (a b : List Char) : List Char :=
  if a = [] ∧ b = [] then [] else if a = [] then clean b else clean (a ++ '/' :: b)

/-! ## Where a path leads -/

def resolveStep (rooted : Bool) (loc : List Part) (c : Part) : Option (List Part) :=
  if c = [] ∨ c = dot then some loc
  else if c = dotdot then
    match loc with
    | [] => if rooted then some [] else none
    | _ :: up => some up
  else some (c :: loc)

/-- The location the components lead to from `loc`; from the root, `..` stays
there if `rooted` and leads nowhere otherwise. -/
def resolve (rooted : Bool) (loc : List Part) : List Part → Option (List Part)
  | [] => some loc
  | c :: cs => (resolveStep rooted loc c).bind fun loc => resolve rooted loc cs

/-- The location of a path, if it never climbs above the root. -/
def walk (p : List Char) : Option (List Part) := resolve false [] (components p)

/-- The location of a path when the root is above itself. -/
def location (p : List Char) : List Part := (resolve true [] (components p)).getD []

/-- A name as it stands in a cleaned path. -/
structure Plain (c : Part) : Prop where
  ne_nil : c ≠ []
  ne_dot : c ≠ dot
  ne_dotdot : c ≠ dotdot
  no_slash : '/' ∉ c

theorem components_append (a b : List Char) :
    components (a ++ '/' :: b) = components a ++ components b :=
  List.splitOn_append_cons_self a b

variable (p : List Char)

theorem components_no_slash : ∀ c ∈ components p, '/' ∉ c := by
  induction p with
  | nil => simp [components]
  | cons x p ih =>
    simp only [components] at ih
    simp only [components, List.splitOn_cons_eq_if_modifyHead]
    split
    · simpa using ih
    · next hx =>
      cases hs : p.splitOn '/' with
      | nil => simp
      | cons d ds =>
        rw [hs] at ih
        have hx : '/' ≠ x := fun h => hx (beq_iff_eq.mpr h.symm)
        simpa [hx] using ih

theorem components_joinParts (cs : List Part) (h : ∀ c ∈ cs, '/' ∉ c) (hne : cs ≠ []) :
    components (joinParts cs) = cs :=
  List.splitOn_intercalate '/' h hne

theorem intercalate_cons_cons {α : Type*} (x : α) (c d : List α) (ds : List (List α)) :
    [x].intercalate (c :: d :: ds) = c ++ x :: [x].intercalate (d :: ds) := by
  simp [List.intercalate]

theorem intercalate_concat {α : Type*} (x : α) (cs : List (List α)) (c : List α) (h : cs ≠ []) :
    [x].intercalate (cs ++ [c]) = [x].intercalate cs ++ x :: c := by
  induction cs with
  | nil => exact absurd rfl h
  | cons d ds ih =>
    cases ds with
    | nil => simp [List.intercalate]
    | cons e es =>
      have hne : e :: es ≠ [] := List.cons_ne_nil e es
      calc [x].intercalate (d :: e :: (es ++ [c]))
          = d ++ x :: [x].intercalate (e :: es ++ [c]) := intercalate_cons_cons x d e (es ++ [c])
        _ = [x].intercalate (d :: e :: es) ++ x :: c := by
          rw [ih hne, intercalate_cons_cons, List.append_assoc, List.cons_append]

theorem map_intercalate {α β : Type*} (f : α → β) (x : α) (cs : List (List α)) :
    ([x].intercalate cs).map f = [f x].intercalate (cs.map (List.map f)) := by
  induction cs with
  | nil => rfl
  | cons d ds ih =>
    cases ds with
    | nil => simp [List.intercalate]
    | cons e es =>
      rw [intercalate_cons_cons, List.map_append, List.map_cons, ih]
      exact (intercalate_cons_cons (f x) _ _ _).symm

theorem mem_of_mem_components {p : List Char} {c : Part} {x : Char} (hc : c ∈ components p)
    (hx : x ∈ c) : x ∈ p := by
  have hp : joinParts (components p) = p := List.intercalate_splitOn '/'
  rw [← hp]
  generalize components p = cs at hc
  induction cs with
  | nil => cases hc
  | cons d ds ih =>
    cases ds with
    | nil =>
      cases List.mem_singleton.mp hc
      simpa [joinParts, List.intercalate] using hx
    | cons e es =>
      rw [joinParts, intercalate_cons_cons]
      rcases List.mem_cons.mp hc with rfl | hc
      · exact List.mem_append_left _ hx
      · exact List.mem_append_right _ (List.mem_cons_of_mem _ (ih hc))

theorem mem_joinParts {cs : List Part} {x : Char} (h : x ∈ joinParts cs) :
    x = '/' ∨ ∃ c ∈ cs, x ∈ c := by
  induction cs with
  | nil => cases h
  | cons c cs ih =>
    cases cs with
    | nil =>
      have h : x ∈ c := by simpa [joinParts, List.intercalate] using h
      exact .inr ⟨c, List.mem_cons_self, h⟩
    | cons d ds =>
      rw [joinParts, intercalate_cons_cons, List.mem_append, List.mem_cons] at h
      rcases h with h | rfl | h
      · exact .inr ⟨c, List.mem_cons_self, h⟩
      · exact .inl rfl
      · exact (ih h).imp id fun ⟨e, he, hx⟩ => ⟨e, List.mem_cons_of_mem c he, hx⟩

variable (r : Bool)

theorem resolve_append (loc cs ds : List Part) :
    resolve r loc (cs ++ ds) = (resolve r loc cs).bind fun loc => resolve r loc ds := by
  induction cs generalizing loc with
  | nil => rfl
  | cons c cs ih =>
    simp only [List.cons_append, resolve]
    cases resolveStep r loc c with
    | none => rfl
    | some l => exact ih l

theorem resolve_plain (loc cs : List Part) (h : ∀ c ∈ cs, Plain c) :
    resolve r loc cs = some (cs.reverse ++ loc) := by
  induction cs generalizing loc with
  | nil => rfl
  | cons c cs ih =>
    have hc := h c List.mem_cons_self
    simp only [resolve, resolveStep, hc.ne_nil, hc.ne_dot, hc.ne_dotdot, or_self, if_false,
      Option.bind_some]
    rw [ih _ fun d hd => h d (List.mem_cons_of_mem c hd)]
    simp

/-- Not climbing, a path leads to the same place rooted or not. -/
theorem resolve_of_walk (loc l cs : List Part) (h : resolve false loc cs = some l) :
    resolve r loc cs = some l := by
  induction cs generalizing loc with
  | nil => exact h
  | cons c cs ih =>
    obtain ⟨m, hm, hl⟩ := Option.bind_eq_some_iff.mp h
    have hm' : resolveStep r loc c = some m := by
      unfold resolveStep at hm ⊢
      split <;> simp_all
      split <;> simp_all
      cases loc <;> simp_all
    simp only [resolve, hm', Option.bind_some]
    exact ih m hl

/-! ## Cleaned paths -/

theorem cleanStep_eq (loc l : List Part) (c : Part) (hloc : ∀ c ∈ loc, Plain c)
    (h : resolveStep r loc c = some l) : cleanStep r loc c = l := by
  unfold resolveStep at h
  unfold cleanStep
  split <;> rename_i hc
  · simpa [hc] using h
  · simp only [hc, if_false] at h
    split <;> rename_i hd
    · cases loc with
      | nil => cases r <;> simp_all
      | cons t up =>
        have ht := (hloc t List.mem_cons_self).ne_dotdot
        simpa [hd, ht] using h
    · simpa [hd] using h

theorem resolveStep_plain (loc l : List Part) (c : Part) (hloc : ∀ c ∈ loc, Plain c)
    (hc : '/' ∉ c) (h : resolveStep r loc c = some l) : ∀ d ∈ l, Plain d := by
  unfold resolveStep at h
  split at h
  · cases h; exact hloc
  · split at h
    · cases loc with
      | nil => cases r <;> simp_all
      | cons t up => cases h; exact fun d hd => hloc d (List.mem_cons_of_mem t hd)
    · next hn hd =>
      cases h
      rw [not_or] at hn
      exact List.forall_mem_cons.mpr ⟨⟨hn.1, hn.2, hd, hc⟩, hloc⟩

/-- The loop of `path.Clean` keeps the location reached so far. -/
theorem foldl_cleanStep (loc l cs : List Part) (hloc : ∀ c ∈ loc, Plain c)
    (hcs : ∀ c ∈ cs, '/' ∉ c) (h : resolve r loc cs = some l) :
    cs.foldl (cleanStep r) loc = l ∧ ∀ d ∈ l, Plain d := by
  induction cs generalizing loc with
  | nil => cases h; exact ⟨rfl, hloc⟩
  | cons c cs ih =>
    obtain ⟨m, hm, hl⟩ := Option.bind_eq_some_iff.mp h
    rw [List.foldl_cons, cleanStep_eq r loc m c hloc hm]
    exact ih m (resolveStep_plain r loc m c hloc (hcs c List.mem_cons_self) hm)
      (fun d hd => hcs d (List.mem_cons_of_mem c hd)) hl

theorem walk_joinParts (l : List Part) (h : ∀ c ∈ l, Plain c) :
    walk (joinParts l.reverse) = some l := by
  cases l with
  | nil => rfl
  | cons c cs =>
    have hp : ∀ d ∈ (c :: cs).reverse, Plain d := fun d hd => h d (List.mem_reverse.mp hd)
    rw [walk, components_joinParts _ (fun d hd => (hp d hd).no_slash) (by simp),
      resolve_plain false [] _ hp]
    simp

theorem walk_slash : walk ('/' :: p) = walk p := by
  have h : components ('/' :: p) = [] :: components p := components_append [] p
  rw [walk, h]
  rfl

theorem joinParts_head (c : Part) (cs : List Part) (h : Plain c) :
    joinParts (c :: cs) ≠ [] ∧ isRooted (joinParts (c :: cs)) = false := by
  cases c with
  | nil => exact absurd rfl h.ne_nil
  | cons x xs =>
    have hx : x ≠ '/' := fun hx => h.no_slash (by simp [hx])
    cases cs <;> simp [isRooted, joinParts, List.intercalate, hx]

/-- **Clean.** The cleaned path leads to the location of the path, rooted as it was. -/
theorem clean_walk (l : List Part) (hp : p ≠ [])
    (h : resolve (isRooted p) [] (components p) = some l) :
    walk (clean p) = some l ∧ clean p ≠ [] ∧ isRooted (clean p) = isRooted p := by
  obtain ⟨hl, hplain⟩ := foldl_cleanStep _ _ _ _ (by simp) (components_no_slash p) h
  simp only [clean, hp, if_false, hl]
  cases hr : isRooted p with
  | true => exact ⟨(walk_slash _).trans (walk_joinParts l hplain), List.cons_ne_nil _ _, rfl⟩
  | false =>
    simp only [Bool.false_eq_true, if_false]
    split
    · next hnil => subst hnil; exact ⟨rfl, List.cons_ne_nil _ _, rfl⟩
    · next hne =>
      refine ⟨walk_joinParts l hplain, ?_⟩
      cases hrev : l.reverse with
      | nil => exact absurd (List.reverse_eq_nil_iff.mp hrev) hne
      | cons c cs =>
        exact joinParts_head c cs (hplain c (List.mem_reverse.mp (hrev ▸ List.mem_cons_self)))

/-- A rooted path of plain names is clean. -/
theorem clean_rooted (l : List Part) (h : ∀ c ∈ l, Plain c) :
    clean ('/' :: joinParts l.reverse) = '/' :: joinParts l.reverse := by
  have hw : walk ('/' :: joinParts l.reverse) = some l := (walk_slash _).trans (walk_joinParts l h)
  have hr := resolve_of_walk true _ _ _ hw
  obtain ⟨hl, _⟩ := foldl_cleanStep true [] l _ (by simp) (components_no_slash _) hr
  have hroot : isRooted ('/' :: joinParts l.reverse) = true := rfl
  simp only [clean, hroot, if_true, hl, List.cons_ne_nil, if_false]

/-- Names of `cs` below a number of `..`, which is zero for a rooted path. -/
def Climbs (r : Bool) (cs kept : List Part) : Prop :=
  ∃ l n, kept = l ++ List.replicate n dotdot ∧ (∀ c ∈ l, Plain c ∧ c ∈ cs) ∧ (r = true → n = 0)

theorem Climbs.cleanStep {r : Bool} {cs kept : List Part} {c : Part} (h : Climbs r cs kept)
    (hc : c ∈ cs) (hslash : '/' ∉ c) : Climbs r cs (cleanStep r kept c) := by
  obtain ⟨l, n, rfl, hl, hn⟩ := h
  by_cases hskip : c = [] ∨ c = dot
  · exact ⟨l, n, if_pos hskip, hl, hn⟩
  · rw [not_or] at hskip
    by_cases hdd : c = dotdot
    · cases l with
      | cons t ts =>
        -- the last name goes
        have ht : t ≠ dotdot := (hl t List.mem_cons_self).1.ne_dotdot
        refine ⟨ts, n, ?_, fun d hd => hl d (List.mem_cons_of_mem t hd), hn⟩
        subst hdd
        simp [GoPath.cleanStep, ht, hskip]
      | nil =>
        cases n with
        | zero =>
          cases r with
          | true => exact ⟨[], 0, by simp [GoPath.cleanStep, hdd, dotdot, dot], by simp, by simp⟩
          | false => exact ⟨[], 1, by simp [GoPath.cleanStep, hdd, dotdot, dot], by simp, by simp⟩
        | succ n =>
          cases r with
          | true => exact absurd (hn rfl) (Nat.succ_ne_zero n)
          | false =>
            refine ⟨[], n + 2, ?_, by simp, by simp⟩
            simp [GoPath.cleanStep, hdd, dotdot, dot, List.replicate_succ]
    · refine ⟨c :: l, n, ?_, ?_, hn⟩
      · simp [GoPath.cleanStep, hskip, hdd]
      · exact List.forall_mem_cons.mpr ⟨⟨⟨hskip.1, hskip.2, hdd, hslash⟩, hc⟩, hl⟩

theorem climbs_foldl (cs : List Part) (hcs : ∀ c ∈ cs, '/' ∉ c) :
    Climbs r cs (cs.foldl (cleanStep r) []) :=
  List.foldlRecOn cs (cleanStep r) ⟨[], 0, rfl, by simp, fun _ => rfl⟩
    fun _ h c hc => h.cleanStep hc (hcs c hc)

/-- A cleaned path that does not start with `..` is a location, rooted or not. -/
theorem clean_form (hp : p ≠ []) (hdots : ¬ dotdot <+: clean p) :
    ∃ l, (∀ c ∈ l, Plain c ∧ c ∈ components p) ∧
      clean p = if isRooted p then '/' :: joinParts l.reverse
        else if l = [] then dot else joinParts l.reverse := by
  obtain ⟨l, m, hf, hl, hm⟩ := climbs_foldl (isRooted p) (components p) (components_no_slash p)
  simp only [clean, hp, if_false, hf] at hdots ⊢
  have hzero : m = 0 := by
    cases hr : isRooted p with
    | true => exact hm hr
    | false =>
      cases m with
      | zero => rfl
      | succ m =>
        -- an unrooted path that climbs starts with `..`
        exfalso
        apply hdots
        simp only [hr, Bool.false_eq_true, if_false]
        have hrev : (l ++ List.replicate (m + 1) dotdot).reverse =
            dotdot :: (List.replicate m dotdot ++ l.reverse) := by
          rw [List.reverse_append, List.reverse_replicate, List.replicate_succ, List.cons_append]
        rw [if_neg (by simp), hrev, joinParts]
        cases List.replicate m dotdot ++ l.reverse with
        | nil => simp [List.intercalate]
        | cons d ds => simp [List.intercalate, List.intersperse]
  subst hzero
  exact ⟨l, hl, by simp⟩

theorem components_of_no_slash {c : Part} (h : '/' ∉ c) : components c = [c] := by
  have hone := components_joinParts [c] (List.forall_mem_singleton.mpr h) (List.cons_ne_nil _ _)
  simpa [joinParts, List.intercalate] using hone

/-- A plain name is clean. -/
theorem clean_plain {c : Part} (h : Plain c) : clean c = c := by
  have hstep : (components c).foldl (cleanStep false) [] = [c] := by
    rw [components_of_no_slash h.no_slash]
    simp [cleanStep, h.ne_nil, h.ne_dot, h.ne_dotdot]
  have hroot : isRooted c = false := by
    have := (joinParts_head c [] h).2
    rwa [show joinParts [c] = c by simp [joinParts, List.intercalate]] at this
  simp [clean, h.ne_nil, hroot, hstep, joinParts, List.intercalate]

/-! ## Directories -/

/-- A path is its directory part, which is empty or ends in a slash, and a name. -/
theorem dirPart_append :
    ∃ name, p = dirPart p ++ name ∧ '/' ∉ name ∧ (dirPart p = [] ∨ ∃ q, dirPart p = q ++ ['/']) := by
  refine ⟨(p.reverse.takeWhile (· ≠ '/')).reverse, ?_, ?_, ?_⟩
  · rw [dirPart, ← List.reverse_append, List.takeWhile_append_dropWhile, List.reverse_reverse]
  · intro h
    have := List.mem_takeWhile_imp (List.mem_reverse.mp h)
    simp at this
  · cases hd : p.reverse.dropWhile (· ≠ '/') with
    | nil => exact .inl (by rw [dirPart, hd]; rfl)
    | cons x xs =>
      have hx : x = '/' := by
        have := List.head?_dropWhile_not (· ≠ '/') p.reverse
        rw [hd] at this
        simpa using this
      exact .inr ⟨xs.reverse, by rw [dirPart, hd, hx, List.reverse_cons]⟩

theorem isRooted_dirPart : isRooted (dirPart p) = isRooted p := by
  obtain ⟨name, hp, hname, hnil | ⟨q, hq⟩⟩ := dirPart_append p
  · rw [hnil, List.nil_append] at hp
    rw [hnil, hp]
    cases name with
    | nil => rfl
    | cons x xs =>
      have hx : x ≠ '/' := fun hx => hname (by simp [hx])
      simp [isRooted, hx]
  · rw [hq] at hp ⊢
    rw [hp]
    cases q <;> rfl

theorem dir_walk (d : List Part) (h : walk (dirPart p) = some d) :
    walk (dir p) = some d ∧ dir p ≠ [] ∧ isRooted (dir p) = isRooted p := by
  rw [← isRooted_dirPart p]
  by_cases hnil : dirPart p = []
  · rw [hnil] at h
    rw [dir, hnil]
    cases h
    exact ⟨rfl, List.cons_ne_nil _ _, rfl⟩
  · exact clean_walk _ _ hnil (resolve_of_walk _ _ _ _ h)

/-- **Join.** A name joined to the directory of `p` leads where the name leads
from that directory. -/
theorem joinDir_walk (p name : List Char) (d l : List Part) (hd : walk (dirPart p) = some d)
    (hl : resolve (isRooted p) d (components name) = some l) :
    walk (join (dir p) name) = some l := by
  obtain ⟨hw, hne, hr⟩ := dir_walk p d hd
  have hr' : isRooted (dir p ++ '/' :: name) = isRooted p := by
    rw [← hr]
    cases hdir : dir p with
    | nil => exact absurd hdir hne
    | cons x xs => rfl
  have happ : resolve (isRooted p) [] (components (dir p ++ '/' :: name)) = some l := by
    rw [components_append, resolve_append, resolve_of_walk _ _ _ _ hw]
    exact hl
  rw [join, if_neg fun h => hne h.1, if_neg hne]
  exact (clean_walk _ l (by simp) (hr' ▸ happ)).1

/-! ## Locations -/

/-- Staying at the root, every path leads somewhere. -/
theorem resolveStep_total (loc : List Part) (c : Part) : ∃ l, resolveStep true loc c = some l := by
  unfold resolveStep
  split
  · exact ⟨loc, rfl⟩
  · split
    · cases loc with
      | nil => exact ⟨[], rfl⟩
      | cons _ up => exact ⟨up, rfl⟩
    · exact ⟨c :: loc, rfl⟩

theorem resolve_total (loc cs : List Part) : ∃ l, resolve true loc cs = some l := by
  induction cs generalizing loc with
  | nil => exact ⟨loc, rfl⟩
  | cons c cs ih =>
    obtain ⟨l, hl⟩ := resolveStep_total loc c
    rw [resolve, hl]
    exact ih l

theorem resolve_location : resolve true [] (components p) = some (location p) := by
  obtain ⟨l, hl⟩ := resolve_total [] (components p)
  rw [location, hl]
  rfl

theorem resolve_concat (loc cs : List Part) (c : Part) :
    resolve true loc (cs ++ [c]) = (resolve true loc cs).bind fun l => resolveStep true l c := by
  rw [resolve_append]
  cases resolve true loc cs with
  | none => rfl
  | some l =>
    obtain ⟨m, hm⟩ := resolveStep_total l c
    simp [resolve, hm]

/-- A step of `path.Clean` leads to where the component leads. -/
theorem resolve_cleanStep {kept : List Part} {l : List Part} (c : Part)
    (h : resolve true [] kept.reverse = some l) (hkept : ∀ d ∈ kept, d = dotdot ∨ Plain d) :
    resolve true [] (cleanStep r kept c).reverse = resolveStep true l c := by
  unfold cleanStep
  split
  · next hskip =>
    rw [h]
    exact (if_pos hskip).symm
  · next hskip =>
    split
    · next hdd =>
      subst hdd
      cases kept with
      | nil =>
        cases h
        cases r <;> rfl
      | cons t ts =>
        dsimp only
        split
        · next ht =>
          rw [List.reverse_cons, resolve_concat, h]
          rfl
        · next ht =>
          -- the name that goes was the last one
          have hplain := (hkept t List.mem_cons_self).resolve_left ht
          rw [List.reverse_cons, resolve_concat] at h
          obtain ⟨m, hm⟩ := resolve_total [] ts.reverse
          rw [hm] at h ⊢
          have hpush : resolveStep true m t = some (t :: m) := by
            simp [resolveStep, hplain.ne_nil, hplain.ne_dot, hplain.ne_dotdot]
          cases hpush.symm.trans h
          simp [resolveStep, dotdot, dot]
    · rw [List.reverse_cons, resolve_concat, h]
      rfl

theorem resolve_foldl_cleanStep (cs : List Part) (hcs : ∀ c ∈ cs, '/' ∉ c)
    {kept l : List Part} (h : resolve true [] kept.reverse = some l)
    (hkept : ∀ d ∈ kept, d = dotdot ∨ Plain d) :
    resolve true [] (cs.foldl (cleanStep r) kept).reverse = resolve true l cs := by
  induction cs generalizing kept l with
  | nil => exact h
  | cons c cs ih =>
    obtain ⟨m, hm⟩ := resolveStep_total l c
    rw [List.foldl_cons, resolve, hm]
    refine ih (fun d hd => hcs d (List.mem_cons_of_mem c hd))
      ((resolve_cleanStep r c h hkept).trans hm) ?_
    intro d hd
    unfold cleanStep at hd
    split at hd
    · exact hkept d hd
    · next hskip =>
      rw [not_or] at hskip
      split at hd
      · cases kept with
        | nil =>
          cases r with
          | true => cases hd
          | false => exact .inl (List.mem_singleton.mp hd)
        | cons t ts =>
          dsimp only at hd
          split at hd
          · rcases List.mem_cons.mp hd with rfl | hd
            · exact .inl rfl
            · exact hkept d hd
          · exact hkept d (List.mem_cons_of_mem t hd)
      · next hdd =>
        rcases List.mem_cons.mp hd with rfl | hd
        · exact .inr ⟨hskip.1, hskip.2, hdd, hcs _ List.mem_cons_self⟩
        · exact hkept d hd

theorem location_joinParts (cs : List Part) (h : ∀ c ∈ cs, '/' ∉ c) :
    location (joinParts cs) = (resolve true [] cs).getD [] := by
  cases cs with
  | nil => rfl
  | cons c cs => rw [location, components_joinParts _ h (List.cons_ne_nil c cs)]

theorem location_slash : location ('/' :: p) = location p := by
  have h : components ('/' :: p) = [] :: components p := components_append [] p
  rw [location, h]
  rfl

/-- **Clean.** The cleaned path leads to the same location. -/
theorem location_clean : location (clean p) = location p := by
  by_cases hp : p = []
  · subst hp
    rfl
  · obtain ⟨l, n, hkept, hl, -⟩ :=
      climbs_foldl (isRooted p) (components p) (components_no_slash p)
    have hres : resolve true [] ((components p).foldl (cleanStep (isRooted p)) []).reverse =
        resolve true [] (components p) :=
      resolve_foldl_cleanStep (isRooted p) (components p) (components_no_slash p) rfl (by simp)
    have hslash : ∀ c ∈ ((components p).foldl (cleanStep (isRooted p)) []).reverse, '/' ∉ c := by
      intro c hc
      rw [List.mem_reverse, hkept, List.mem_append] at hc
      rcases hc with hc | hc
      · exact (hl c hc).1.no_slash
      · rw [List.eq_of_mem_replicate hc]
        decide
    have hloc := location_joinParts _ hslash
    rw [hres] at hloc
    simp only [clean, hp, if_false]
    split
    · rw [location_slash]
      exact hloc
    · split
      · next hnil =>
        rw [hnil] at hloc
        exact hloc
      · exact hloc

/-- A rooted path is cleaned to its location. -/
theorem clean_slash : clean ('/' :: p) = '/' :: joinParts (location p).reverse := by
  obtain ⟨hl, -⟩ := foldl_cleanStep true [] _ _ (by simp) (components_no_slash ('/' :: p))
    (resolve_location ('/' :: p))
  have hroot : isRooted ('/' :: p) = true := rfl
  simp only [clean, hroot, if_true, hl, List.cons_ne_nil, if_false, location_slash]

theorem location_of_plain {p : List Char} (h : ∀ c ∈ components p, Plain c) :
    location p = (components p).reverse := by
  rw [location, resolve_plain true [] _ h, List.append_nil]
  rfl

/-- Paths of plain names that lead to the same location are the same. -/
theorem eq_of_location_eq {p q : List Char} (hp : ∀ c ∈ components p, Plain c)
    (hq : ∀ c ∈ components q, Plain c) (h : location p = location q) : p = q := by
  rw [location_of_plain hp, location_of_plain hq, List.reverse_inj] at h
  calc p = joinParts (components p) := (List.intercalate_splitOn '/').symm
    _ = joinParts (components q) := by rw [h]
    _ = q := List.intercalate_splitOn '/'

theorem location_append (a b : List Char) :
    location (a ++ '/' :: b) = (resolve true (location a) (components b)).getD [] := by
  rw [location, components_append, resolve_append, resolve_location]
  rfl

/-- **Join.** The name leads on from where the first path leads. -/
theorem location_join (a b : List Char) :
    location (join a b) = (resolve true (location a) (components b)).getD [] := by
  unfold join
  split
  · next h =>
    rw [h.1, h.2]
    rfl
  · split
    · next h =>
      rw [location_clean, h]
      rfl
    · rw [location_clean, location_append]

end Smbfs.Lib.GoPath
