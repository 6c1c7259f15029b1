import Mathlib.Data.List.Basic

/-!
Patterns for names. `pathMatch` is the matching that Go documents for
`filepath.Match` on Unix: `*` and `?` stand for characters other than the slash,
`[...]` for a character of a class, a backslash takes the meaning from the next
character, and a malformed pattern matches nothing. `Wild` knows `*` and `?` only.

* `tokens`, `parse`: the terms of a pattern; the parser reads one token at a time;
* `pathMatch_iff_wild`: without `[` and backslashes the two agree on names without
  slashes;
* `plain_of_agree`: where they agree, the pattern has neither of them.
-/

namespace Smbfs.Lib.Glob

/-! ## Terms -/

/-- A character of a pattern, as it stands or behind a backslash. -/
inductive Token where
  | plain (c : Char)
  | escaped (c : Char)
  deriving DecidableEq

def Token.char : Token → Char
  | plain c => c
  | escaped c => c

/-- The tokens of the pattern, or of what follows a backslash. None may come last. -/
def tokens : Bool → List Char → Option (List Token)
  | false, [] => some []
  | true, [] => none
  | false, c :: p =>
    if c = '\\' then tokens true p else (tokens false p).map (Token.plain c :: ·)
  | true, c :: p => (tokens false p).map (Token.escaped c :: ·)

/-- What stands for one character. -/
inductive Single where
  | any
  | lit (c : Char)
  | cls (negated : Bool) (ranges : List (Char × Char))

def Single.accepts : Single → Char → Bool
  | any, c => c ≠ '/'
  | lit d, c => c = d
  | cls negated ranges, c => (ranges.any fun r => r.1 ≤ c && c ≤ r.2) != negated

inductive Term where
  | star
  | one (x : Single)

/-- Where the parser is: outside the classes, behind `[`, before a range or `]`, behind
the first character of a range, or behind its `-`. -/
inductive Mode where
  | top
  | opened
  | ranges (negated : Bool) (done : List (Char × Char))
  | lo (negated : Bool) (done : List (Char × Char)) (c : Char)
  | hi (negated : Bool) (done : List (Char × Char)) (c : Char)

/-- A token where a range may start. The class must have a range before it ends. -/
def startRange (negated : Bool) (done : List (Char × Char)) (t : Token) : Option (List Term × Mode) :=
  if t = .plain ']' then
    if done = [] then none else some ([.one (.cls negated done)], .top)
  else if t = .plain '-' then none
  else some ([], .lo negated done t.char)

/-- One token: the terms it completes, and where the parser is then. -/
def step : Mode → Token → Option (List Term × Mode)
  | .top, t =>
    if t = .plain '*' then some ([.star], .top)
    else if t = .plain '?' then some ([.one .any], .top)
    else if t = .plain '[' then some ([], .opened)
    else some ([.one (.lit t.char)], .top)
  | .opened, t => if t = .plain '^' then some ([], .ranges true []) else startRange false [] t
  | .ranges negated done, t => startRange negated done t
  | .lo negated done c, t =>
    if t = .plain '-' then some ([], .hi negated done c)
    else startRange negated ((c, c) :: done) t
  | .hi negated done c, t =>
    if t = .plain '-' ∨ t = .plain ']' then none
    else some ([], .ranges negated ((c, t.char) :: done))

def parse : Mode → List Token → Option (List Term)
  | .top, [] => some []
  | _, [] => none
  | mode, t :: ts => (step mode t).bind fun r => (parse r.2 ts).map (r.1 ++ ·)

/-! ## Matching -/

/-- The rests of a name behind characters other than the slash. -/
def skips : List Char → List (List Char)
  | [] => [[]]
  | c :: s => (c :: s) :: if c = '/' then [] else skips s

def matchTerms : List Term → List Char → Bool
  | [], s => s.isEmpty
  | .star :: ts, s => (skips s).any (matchTerms ts)
  | .one _ :: _, [] => false
  | .one x :: ts, c :: s => x.accepts c && matchTerms ts s

/-- `filepath.Match`: the pattern is well formed and matches all of the name. -/
def pathMatch (p s : List Char) : Bool :=
  ((tokens false p).bind (parse .top)).elim false fun ts => matchTerms ts s

/-- `*` stands for any string, `?` for any character, and every other character for
itself. -/
inductive Wild : List Char → List Char → Prop where
  | nil : Wild [] []
  | star {p s : List Char} (skipped : List Char) (h : Wild p s) : Wild ('*' :: p) (skipped ++ s)
  | any {p s : List Char} (c : Char) (h : Wild p s) : Wild ('?' :: p) (c :: s)
  | char {p s : List Char} {c : Char} (hstar : c ≠ '*') (hany : c ≠ '?') (h : Wild p s) :
      Wild (c :: p) (c :: s)

/-! ## Patterns without classes and backslashes -/

/-- What a character stands for if it opens no class. -/
def termOf (c : Char) : Term :=
  if c = '*' then .star else if c = '?' then .one .any else .one (.lit c)

theorem tokens_plain {p : List Char} (h : '\\' ∉ p) : tokens false p = some (p.map .plain) := by
  induction p with
  | nil => rfl
  | cons c p ih =>
    rw [List.mem_cons, not_or] at h
    rw [tokens, if_neg fun hc => h.1 hc.symm, ih h.2]
    rfl

variable {c : Char}

theorem step_plain (h : c ≠ '[') : step .top (.plain c) = some ([termOf c], .top) := by
  unfold step termOf
  simp only [Token.plain.injEq, h, if_false, Token.char]
  split
  · rfl
  · split <;> rfl

theorem parse_plain {p : List Char} (h : '[' ∉ p) :
    parse .top (p.map .plain) = some (p.map termOf) := by
  induction p with
  | nil => rfl
  | cons c p ih =>
    rw [List.mem_cons, not_or] at h
    rw [List.map_cons, parse, step_plain fun hc => h.1 hc.symm, Option.bind_some, ih h.2]
    rfl

theorem mem_skips {s t : List Char} (hs : '/' ∉ s) : t ∈ skips s ↔ ∃ u, s = u ++ t := by
  induction s with
  | nil =>
    rw [skips, List.mem_singleton]
    exact ⟨fun h => ⟨[], by rw [h]; rfl⟩, fun ⟨u, hu⟩ => (List.append_eq_nil_iff.mp hu.symm).2⟩
  | cons c s ih =>
    rw [List.mem_cons, not_or] at hs
    rw [skips, if_neg fun hc => hs.1 hc.symm, List.mem_cons, ih hs.2]
    constructor
    · rintro (rfl | ⟨u, rfl⟩)
      · exact ⟨[], rfl⟩
      · exact ⟨c :: u, rfl⟩
    · rintro ⟨u, hu⟩
      cases u with
      | nil => exact .inl hu.symm
      | cons d u => exact .inr ⟨u, (List.cons.inj hu).2⟩

theorem mem_of_mem_skips {s t : List Char} (h : t ∈ skips s) (hc : c ∈ t) : c ∈ s := by
  induction s with
  | nil =>
    rw [List.mem_singleton.mp h] at hc
    exact hc
  | cons d s ih =>
    rcases List.mem_cons.mp h with rfl | h
    · exact hc
    · split at h
      · cases h
      · exact List.mem_cons_of_mem d (ih h)

theorem self_mem_skips (s : List Char) : s ∈ skips s := by
  cases s with
  | nil => exact List.mem_singleton_self _
  | cons c s => exact List.mem_cons_self

section Wild

variable {p s : List Char}

theorem wild_nil : Wild [] s ↔ s = [] :=
  ⟨fun h => by cases h; rfl, fun h => by rw [h]; exact .nil⟩

theorem wild_star : Wild ('*' :: p) s ↔ ∃ u t, s = u ++ t ∧ Wild p t := by
  constructor
  · intro h
    cases h with
    | star u h => exact ⟨u, _, rfl, h⟩
    | char hstar => exact absurd rfl hstar
  · rintro ⟨u, t, rfl, h⟩
    exact .star u h

theorem wild_any : Wild ('?' :: p) s ↔ ∃ c t, s = c :: t ∧ Wild p t := by
  constructor
  · intro h
    cases h with
    | any c h => exact ⟨c, _, rfl, h⟩
    | char _ hany => exact absurd rfl hany
  · rintro ⟨c, t, rfl, h⟩
    exact .any c h

theorem wild_char (hstar : c ≠ '*') (hany : c ≠ '?') :
    Wild (c :: p) s ↔ ∃ t, s = c :: t ∧ Wild p t := by
  constructor
  · intro h
    cases h with
    | star => exact absurd rfl hstar
    | any => exact absurd rfl hany
    | char _ _ h => exact ⟨_, rfl, h⟩
  · rintro ⟨t, rfl, h⟩
    exact .char hstar hany h

/-- A pattern without wildcards stands for itself. -/
theorem wild_iff_eq (hstar : '*' ∉ p) (hany : '?' ∉ p) : Wild p s ↔ s = p := by
  induction p generalizing s with
  | nil => exact wild_nil
  | cons c p ih =>
    rw [List.mem_cons, not_or] at hstar hany
    rw [wild_char (fun h => hstar.1 h.symm) fun h => hany.1 h.symm]
    constructor
    · rintro ⟨t, rfl, h⟩
      rw [(ih hstar.2 hany.2).mp h]
    · rintro rfl
      exact ⟨p, rfl, (ih hstar.2 hany.2).mpr rfl⟩

end Wild

variable {ts : List Term}

/-- A term for one character takes the first one. -/
theorem matchTerms_one {x : Single} {s : List Char} :
    matchTerms (.one x :: ts) s = true ↔
      ∃ c t, s = c :: t ∧ x.accepts c = true ∧ matchTerms ts t = true := by
  cases s with
  | nil => exact iff_of_false Bool.false_ne_true fun ⟨_, _, h, _⟩ => by cases h
  | cons c s =>
    rw [matchTerms, Bool.and_eq_true]
    constructor
    · exact fun h => ⟨c, s, rfl, h⟩
    · rintro ⟨_, _, heq, h⟩
      cases heq
      exact h

theorem matchTerms_star {s : List Char} :
    matchTerms (.star :: ts) s = true ↔ ∃ t ∈ skips s, matchTerms ts t = true := by
  rw [matchTerms, List.any_eq_true]

theorem matchTerms_wild {p s : List Char} (hs : '/' ∉ s) :
    matchTerms (p.map termOf) s = true ↔ Wild p s := by
  induction p generalizing s with
  | nil => rw [List.map_nil, matchTerms, List.isEmpty_iff, wild_nil]
  | cons c p ih =>
    rw [List.map_cons]
    by_cases hstar : c = '*'
    · rw [termOf, if_pos hstar, hstar, matchTerms_star, wild_star]
      constructor
      · rintro ⟨t, ht, h⟩
        obtain ⟨u, rfl⟩ := (mem_skips hs).mp ht
        exact ⟨u, t, rfl, (ih fun hmem => hs (List.mem_append_right u hmem)).mp h⟩
      · rintro ⟨u, t, rfl, h⟩
        exact ⟨t, (mem_skips hs).mpr ⟨u, rfl⟩,
          (ih fun hmem => hs (List.mem_append_right u hmem)).mpr h⟩
    · by_cases hany : c = '?'
      · rw [termOf, if_neg hstar, if_pos hany, hany, matchTerms_one, wild_any]
        constructor
        · rintro ⟨d, t, rfl, -, h⟩
          exact ⟨d, t, rfl, (ih fun hmem => hs (List.mem_cons_of_mem d hmem)).mp h⟩
        · rintro ⟨d, t, rfl, h⟩
          rw [List.mem_cons, not_or] at hs
          exact ⟨d, t, rfl, decide_eq_true fun hd => hs.1 hd.symm, (ih hs.2).mpr h⟩
      · rw [termOf, if_neg hstar, if_neg hany, matchTerms_one, wild_char hstar hany]
        constructor
        · rintro ⟨d, t, rfl, hd, h⟩
          cases of_decide_eq_true hd
          exact ⟨t, rfl, (ih fun hmem => hs (List.mem_cons_of_mem c hmem)).mp h⟩
        · rintro ⟨t, rfl, h⟩
          exact ⟨c, t, rfl, decide_eq_true rfl,
            (ih fun hmem => hs (List.mem_cons_of_mem c hmem)).mpr h⟩

/-- **Wildcards.** -/
theorem pathMatch_iff_wild {p s : List Char} (hclass : '[' ∉ p) (hescape : '\\' ∉ p)
    (hs : '/' ∉ s) : pathMatch p s = true ↔ Wild p s := by
  rw [pathMatch, tokens_plain hescape, Option.bind_some, parse_plain hclass]
  exact matchTerms_wild hs

/-! ## Other patterns

A pattern matches itself under `Wild`, and every name it matches has at least as many
characters as the pattern has besides `*`. Classes and backslashes make the shortest
name of `pathMatch` shorter than that. -/

/-- The number of characters besides `*`. -/
def nonStars : List Char → Nat
  | [] => 0
  | c :: p => (if c = '*' then 0 else 1) + nonStars p

theorem wild_filter (p : List Char) : Wild p (p.filter (· ≠ '*')) := by
  induction p with
  | nil => exact .nil
  | cons c p ih =>
    by_cases hstar : c = '*'
    · subst hstar
      exact .star [] ih
    · rw [List.filter_cons_of_pos (by simpa using hstar)]
      by_cases hany : c = '?'
      · subst hany
        exact .any '?' ih
      · exact .char hstar hany ih

theorem Wild.nonStars_le {p s : List Char} (h : Wild p s) : nonStars p ≤ s.length := by
  induction h with
  | nil => exact Nat.le_refl 0
  | star u h ih =>
    rw [nonStars, if_pos rfl, Nat.zero_add, List.length_append]
    exact Nat.le_trans ih (Nat.le_add_left _ _)
  | any c h ih | char _ _ h ih =>
    rw [nonStars, List.length_cons]
    split <;> omega

/-- The number of terms besides the stars. -/
def ones : List Term → Nat
  | [] => 0
  | .star :: ts => ones ts
  | .one _ :: ts => 1 + ones ts

/-- A name can be cut down to one character for each term but the stars. -/
theorem exists_shortest {s : List Char} (h : matchTerms ts s = true) :
    ∃ t, matchTerms ts t = true ∧ t.length = ones ts ∧ ∀ c ∈ t, c ∈ s := by
  induction ts generalizing s with
  | nil => exact ⟨[], rfl, rfl, by simp⟩
  | cons term ts ih =>
    cases term with
    | star =>
      obtain ⟨u, hu, h⟩ := matchTerms_star.mp h
      obtain ⟨t, ht, hlen, hmem⟩ := ih h
      refine ⟨t, matchTerms_star.mpr ⟨t, self_mem_skips t, ht⟩, hlen, fun c hc => ?_⟩
      exact mem_of_mem_skips hu (hmem c hc)
    | one x =>
      obtain ⟨c, u, rfl, hx, h⟩ := matchTerms_one.mp h
      obtain ⟨t, ht, hlen, hmem⟩ := ih h
      refine ⟨c :: t, matchTerms_one.mpr ⟨c, t, rfl, hx, ht⟩,
        by rw [ones, List.length_cons, hlen, Nat.add_comm], ?_⟩
      intro d hd
      rcases List.mem_cons.mp hd with rfl | hd
      · exact List.mem_cons_self
      · exact List.mem_cons_of_mem c (hmem d hd)

/-- A name has the characters that the pattern asks for. -/
theorem mem_of_lit {s : List Char} (h : matchTerms ts s = true)
    (hc : .one (.lit c) ∈ ts) : c ∈ s := by
  induction ts generalizing s with
  | nil => cases hc
  | cons term ts ih =>
    cases term with
    | star =>
      obtain ⟨u, hu, h⟩ := matchTerms_star.mp h
      exact mem_of_mem_skips hu (ih h (by simpa using hc))
    | one x =>
      obtain ⟨d, u, rfl, hx, h⟩ := matchTerms_one.mp h
      rcases List.mem_cons.mp hc with heq | hc
      · cases heq
        rw [of_decide_eq_true hx]
        exact List.mem_cons_self
      · exact List.mem_cons_of_mem d (ih h hc)

/-! ### Counting -/

/-- What a token takes up in the pattern, besides `*`. -/
def Token.cost : Token → Nat
  | plain c => if c = '*' then 0 else 1
  | escaped c => if c = '*' then 1 else 2

theorem Token.one_le_cost (t : Token) (h : t ≠ .plain '*') : 1 ≤ t.cost := by
  cases t with
  | plain c => exact Nat.le_of_eq (if_neg fun hc => h (congrArg plain hc)).symm
  | escaped c =>
    rw [cost]
    split <;> decide

def cost : List Token → Nat
  | [] => 0
  | t :: toks => t.cost + cost toks

/-- The `[` of a class that has not been closed. -/
def Mode.cost : Mode → Nat
  | top => 0
  | _ => 1

variable {toks : List Token}

theorem nonStars_eq_cost {esc : Bool} {p : List Char}
    (h : tokens esc p = some toks) : nonStars p + esc.toNat = Glob.cost toks := by
  induction p generalizing esc toks with
  | nil =>
    cases esc with
    | false => cases h; rfl
    | true => cases h
  | cons c p ih =>
    cases esc with
    | false =>
      rw [tokens] at h
      split at h
      · next hc =>
        rw [← ih h, nonStars, hc, if_neg (by decide), Bool.toNat_false, Bool.toNat_true]
        omega
      · obtain ⟨rest, hrest, rfl⟩ := Option.map_eq_some_iff.mp h
        rw [Glob.cost, ← ih hrest, nonStars, Token.cost, Nat.add_assoc]
    | true =>
      obtain ⟨rest, hrest, rfl⟩ := Option.map_eq_some_iff.mp h
      rw [Glob.cost, ← ih hrest, nonStars, Token.cost, Bool.toNat_true, Bool.toNat_false]
      split <;> omega

variable {t : Token}

/-- The ways a token is read. -/
theorem step_cases {mode mode' : Mode} {out : List Term}
    (h : step mode t = some (out, mode')) :
    (mode = .top ∧ mode' = .top ∧ t = .plain '*' ∧ out = [.star]) ∨
    (mode = .top ∧ mode' = .top ∧ ∃ x, out = [.one x] ∧ t ≠ .plain '*' ∧ t ≠ .plain '[' ∧
      ∀ c, t = .escaped c → x = .lit c) ∨
    (mode = .top ∧ mode'.cost = 1 ∧ t = .plain '[' ∧ out = []) ∨
    (mode.cost = 1 ∧ mode' = .top ∧ t = .plain ']' ∧ ∃ x, out = [.one x]) ∨
    (mode.cost = 1 ∧ mode'.cost = 1 ∧ out = []) := by
  have hstart : ∀ negated done, startRange negated done t = some (out, mode') →
      (mode' = .top ∧ t = .plain ']' ∧ ∃ x, out = [.one x]) ∨ (mode'.cost = 1 ∧ out = []) := by
    intro negated done h
    unfold startRange at h
    split at h
    · next ht =>
      split at h
      · cases h
      · cases h
        exact .inl ⟨rfl, ht, _, rfl⟩
    · split at h
      · cases h
      · cases h
        exact .inr ⟨rfl, rfl⟩
  cases mode with
  | top =>
    rw [step] at h
    split at h
    · next ht =>
      cases h
      exact .inl ⟨rfl, rfl, ht, rfl⟩
    · next hstar =>
      split at h
      · next ht =>
        cases h
        exact .inr (.inl ⟨rfl, rfl, _, rfl, hstar, by rw [ht]; decide, fun c hc => by cases ht ▸ hc⟩)
      · split at h
        · next ht =>
          cases h
          exact .inr (.inr (.inl ⟨rfl, rfl, ht, rfl⟩))
        · next hclass =>
          cases h
          exact .inr (.inl ⟨rfl, rfl, _, rfl, hstar, hclass, fun c hc => by rw [hc]; rfl⟩)
  | opened =>
    rw [step] at h
    split at h
    · cases h
      exact .inr (.inr (.inr (.inr ⟨rfl, rfl, rfl⟩)))
    · exact .inr (.inr (.inr ((hstart _ _ h).imp (fun h => ⟨rfl, h⟩) fun h => ⟨rfl, h⟩)))
  | ranges =>
    exact .inr (.inr (.inr ((hstart _ _ h).imp (fun h => ⟨rfl, h⟩) fun h => ⟨rfl, h⟩)))
  | lo =>
    rw [step] at h
    split at h
    · cases h
      exact .inr (.inr (.inr (.inr ⟨rfl, rfl, rfl⟩)))
    · exact .inr (.inr (.inr ((hstart _ _ h).imp (fun h => ⟨rfl, h⟩) fun h => ⟨rfl, h⟩)))
  | hi =>
    rw [step] at h
    split at h
    · cases h
    · cases h
      exact .inr (.inr (.inr (.inr ⟨rfl, rfl, rfl⟩)))

variable {mode : Mode}

theorem parse_nil (h : parse mode [] = some ts) : mode = .top ∧ ts = [] := by
  cases mode <;> cases h
  exact ⟨rfl, rfl⟩

theorem parse_cons (h : parse mode (t :: toks) = some ts) :
    ∃ out mode' rest, step mode t = some (out, mode') ∧ parse mode' toks = some rest ∧
      ts = out ++ rest := by
  rw [parse] at h
  obtain ⟨⟨out, mode'⟩, hstep, h⟩ := Option.bind_eq_some_iff.mp h
  obtain ⟨rest, hrest, rfl⟩ := Option.map_eq_some_iff.mp h
  exact ⟨out, mode', rest, hstep, hrest, rfl⟩

/-- What a token adds to the terms, it takes up in the pattern, with the `[` of its
class; a backslash and the end of a class take up more. -/
theorem step_cost {mode mode' : Mode} {out : List Term}
    (h : step mode t = some (out, mode')) (rest : List Term) :
    ones (out ++ rest) + mode'.cost ≤ ones rest + (mode.cost + t.cost) ∧
      ((mode.cost = 1 ∧ mode' = .top ∨ ∃ c, c ≠ '*' ∧ mode = .top ∧ t = .escaped c) →
        ones (out ++ rest) + mode'.cost < ones rest + (mode.cost + t.cost)) := by
  have htop : Mode.top.cost = 0 := rfl
  have hclass : (Token.plain '[').cost = 1 := rfl
  have hend : (Token.plain ']').cost = 1 := rfl
  have hone : ∀ x, ones ([.one x] ++ rest) = 1 + ones rest := fun _ => rfl
  rcases step_cases h with ⟨rfl, rfl, rfl, rfl⟩ | ⟨rfl, rfl, x, rfl, hstar, -, -⟩ |
    ⟨rfl, hmode', rfl, rfl⟩ | ⟨hmode, rfl, rfl, x, rfl⟩ | ⟨hmode, hmode', rfl⟩
  · exact ⟨Nat.le_add_right _ _, fun h => by rcases h with ⟨h, -⟩ | ⟨c, -, -, h⟩ <;> cases h⟩
  · have hcost := t.one_le_cost hstar
    rw [hone, htop]
    refine ⟨by omega, fun h => ?_⟩
    rcases h with ⟨h, -⟩ | ⟨c, hc, -, rfl⟩
    · cases h
    · have htwo : (Token.escaped c).cost = 2 := if_neg hc
      omega
  · rw [hmode', hclass, htop, List.nil_append]
    exact ⟨by omega, fun h => by rcases h with ⟨h, -⟩ | ⟨c, -, -, h⟩ <;> cases h⟩
  · rw [hone, hmode, hend, htop]
    exact ⟨by omega, fun _ => by omega⟩
  · rw [hmode, hmode', List.nil_append]
    refine ⟨by omega, fun h => ?_⟩
    rcases h with ⟨-, rfl⟩ | ⟨c, -, rfl, -⟩
    · cases hmode'
    · cases hmode

/-- Every term but the stars takes up a character. -/
theorem ones_le_cost (h : parse mode toks = some ts) : ones ts ≤ mode.cost + cost toks := by
  induction toks generalizing mode ts with
  | nil =>
    obtain ⟨rfl, rfl⟩ := parse_nil h
    exact Nat.le_refl 0
  | cons t toks ih =>
    obtain ⟨out, mode', rest, hstep, hrest, rfl⟩ := parse_cons h
    have hle := ih hrest
    have hcost := (step_cost hstep rest).1
    rw [cost]
    omega

/-- With a class or a backslash, some take up more, unless it is for a `*`. -/
theorem ones_lt_cost (h : parse mode toks = some ts) (hlit : .one (.lit '*') ∉ ts)
    (hspecial : mode.cost = 1 ∨ .plain '[' ∈ toks ∨ ∃ c, .escaped c ∈ toks) :
    ones ts < mode.cost + cost toks := by
  induction toks generalizing mode ts with
  | nil =>
    obtain ⟨rfl, rfl⟩ := parse_nil h
    rcases hspecial with hmode | hmem | ⟨c, hmem⟩
    · cases hmode
    · cases hmem
    · cases hmem
  | cons t toks ih =>
    obtain ⟨out, mode', rest, hstep, hrest, rfl⟩ := parse_cons h
    have hle := ones_le_cost hrest
    have hlit' : .one (.lit '*') ∉ rest := fun hmem => hlit (List.mem_append_right out hmem)
    obtain ⟨hcost, hstrict⟩ := step_cost hstep rest
    rw [cost]
    -- the special token comes later, or this is the one that takes up more
    suffices hnow : (mode'.cost = 1 ∨ .plain '[' ∈ toks ∨ ∃ c, .escaped c ∈ toks) ∨
        (mode.cost = 1 ∧ mode' = .top ∨ ∃ c, c ≠ '*' ∧ mode = .top ∧ t = .escaped c) by
      rcases hnow with hlater | hnow
      · have hlt := ih hrest hlit' hlater
        omega
      · have hlt := hstrict hnow
        omega
    rcases step_cases hstep with ⟨rfl, rfl, rfl, rfl⟩ | ⟨rfl, rfl, x, rfl, -, hclass, hesc⟩ |
      ⟨-, hmode', -, -⟩ | ⟨hmode, rfl, -, -⟩ | ⟨-, hmode', -⟩
    · refine .inl (.inr ?_)
      rcases hspecial with hmode | hmem | ⟨c, hmem⟩
      · cases hmode
      · exact .inl ((List.mem_cons.mp hmem).resolve_left (by decide))
      · exact .inr ⟨c, (List.mem_cons.mp hmem).resolve_left fun h => by cases h⟩
    · rcases hspecial with hmode | hmem | ⟨c, hmem⟩
      · cases hmode
      · exact .inl (.inr (.inl ((List.mem_cons.mp hmem).resolve_left fun h => hclass h.symm)))
      · rcases List.mem_cons.mp hmem with rfl | hmem
        · refine .inr (.inr ⟨c, ?_, rfl, rfl⟩)
          rintro rfl
          rw [hesc _ rfl] at hlit
          exact hlit List.mem_cons_self
        · exact .inl (.inr (.inr ⟨c, hmem⟩))
    · exact .inl (.inl hmode')
    · exact .inr (.inl ⟨hmode, rfl⟩)
    · exact .inl (.inl hmode')

/-- Backslashes and `[` are seen in the tokens. -/
theorem exists_special {esc : Bool} {p : List Char}
    (h : tokens esc p = some toks) (hp : esc = true ∨ '[' ∈ p ∨ '\\' ∈ p) :
    .plain '[' ∈ toks ∨ ∃ c, .escaped c ∈ toks := by
  induction p generalizing esc toks with
  | nil =>
    cases esc with
    | false =>
      rcases hp with hp | hp | hp <;> cases hp
    | true => cases h
  | cons c p ih =>
    cases esc with
    | true =>
      obtain ⟨rest, -, rfl⟩ := Option.map_eq_some_iff.mp h
      exact .inr ⟨c, List.mem_cons_self⟩
    | false =>
      rw [tokens] at h
      split at h
      · exact ih h (.inl rfl)
      · next hc =>
        obtain ⟨rest, hrest, rfl⟩ := Option.map_eq_some_iff.mp h
        by_cases hclass : c = '['
        · exact .inl (by rw [hclass]; exact List.mem_cons_self)
        · have hp' : '[' ∈ p ∨ '\\' ∈ p := by
            rcases hp with hp | hp | hp
            · cases hp
            · exact .inl ((List.mem_cons.mp hp).resolve_left fun h => hclass h.symm)
            · exact .inr ((List.mem_cons.mp hp).resolve_left fun h => hc h.symm)
          exact (ih hrest (.inr hp')).imp (List.mem_cons_of_mem _)
            fun ⟨d, hd⟩ => ⟨d, List.mem_cons_of_mem _ hd⟩

/-- **Wildcards only.** A pattern for which the two agree on the names made of its
characters has neither `[` nor backslashes. -/
theorem plain_of_agree {p : List Char}
    (h : ∀ s, (∀ c ∈ s, c ∈ p) → (pathMatch p s = true ↔ Wild p s)) : '[' ∉ p ∧ '\\' ∉ p := by
  have hmem : ∀ c ∈ p.filter (· ≠ '*'), c ∈ p := fun c hc => List.mem_of_mem_filter hc
  have hself := (h _ hmem).mpr (wild_filter p)
  rw [pathMatch] at hself
  cases hparse : (tokens false p).bind (parse .top) with
  | none =>
    rw [hparse] at hself
    cases hself
  | some ts =>
    rw [hparse] at hself
    obtain ⟨toks, htoks, hts⟩ := Option.bind_eq_some_iff.mp hparse
    have hlit : .one (.lit '*') ∉ ts := by
      intro hstar
      have := mem_of_lit hself hstar
      simp at this
    obtain ⟨t, ht, hlen, hchars⟩ := exists_shortest hself
    have hwild := (h t fun c hc => hmem c (hchars c hc)).mp (by rw [pathMatch, hparse]; exact ht)
    have hle := hwild.nonStars_le
    have hcost := nonStars_eq_cost htoks
    rw [← not_or]
    intro hspecial
    have hlt := ones_lt_cost hts hlit (.inr (exists_special htoks (.inr hspecial)))
    have htop : Mode.top.cost = 0 := rfl
    rw [Bool.toNat_false] at hcost
    omega

end Smbfs.Lib.Glob
