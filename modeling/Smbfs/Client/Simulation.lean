import Smbfs.Client.Reading

/-!
A client with cache beside a client without, over shares with the same
content. `Sim κ d` relates the two: `κ` is the cache of the first and `d` the
content of both shares. `Synced` says in addition that the cache is fresh.

The rules follow the two clients through the parts of a program; then every
path function that starts in step ends in step, with results that agree.
-/

namespace Smbfs.Client

open Smbfs.Lib CM

variable {S : Share} {α β γ δ : Type} {fsys : FileSystem}

structure Sim (κ : MetadataCache) (d : S.Disk) (s t : State S) : Prop where
  cache : s.cache = κ
  disabled : t.cache.enabled = false
  left : s.disk = d
  right : t.disk = d

/-- The cache of the first client is fresh. -/
def Synced (pn : PathNormalizer) (s t : State S) : Prop :=
  ∃ κ d, (κ.enabled = true ∧ Fresh pn ∅ ∅ κ d) ∧ Sim κ d s t

theorem synced_of_fresh {pn : PathNormalizer} {κ : MetadataCache} {d : S.Disk}
    (hon : κ.enabled = true) (hf : Fresh pn ∅ ∅ κ d) : ∀ s t, Sim κ d s t → Synced pn s t :=
  fun _ _ h => ⟨κ, d, ⟨hon, hf⟩, h⟩

/-- The program keeps the two in step. -/
abbrev InStep (fsys : FileSystem) (m : CM S α) : Prop :=
  Relate (Synced fsys.pathNorm) m m (fun _ _ => Synced fsys.pathNorm) (Synced fsys.pathNorm)

/-- A relation that sees only the caches and the content. -/
def Stable (P : State S → State S → Prop) : Prop :=
  ∀ s t s' t', P s t → s'.cache = s.cache → s'.disk = s.disk → t'.cache = t.cache →
    t'.disk = t.disk → P s' t'

theorem Sim.stable (κ : MetadataCache) (d : S.Disk) : Stable (Sim κ d) := by
  intro s t s' t' h hc hd hc' hd'
  exact ⟨hc.trans h.cache, hc' ▸ h.disabled, hd.trans h.left, hd'.trans h.right⟩

theorem Synced.stable (pn : PathNormalizer) :
    Stable (Synced pn : State S → State S → Prop) := by
  rintro s t s' t' ⟨κ, d, hf, h⟩ hc hd hc' hd'
  exact ⟨κ, d, hf, Sim.stable κ d s t s' t' h hc hd hc' hd'⟩

/-! ## Rules -/

variable {c : ShareCall S.File} (path : Str)

section Rules

variable {κ : MetadataCache} {d : S.Disk} {P E : State S → State S → Prop}
  {m : CM S α} {n : CM S β} {Q : α → β → State S → State S → Prop}

/-- Two programs that only read, with results that agree. -/
theorem rel_of_reads {R : Except Err α → Prop} {R' : Except Err β → Prop} {q : α → β → Prop}
    (hm : Reads d m R) (hn : Reads d n R')
    (hR : ∀ r r', R r → R' r' → (∃ a b, r = .ok a ∧ r' = .ok b ∧ q a b) ∨
      ∃ err, r = .error err ∧ r' = .error err) :
    Relate (Sim κ d) m n (fun a b s t => q a b ∧ Sim κ d s t) (Sim κ d) := by
  intro s t h
  obtain ⟨r, s', hrun, hr, hd, hc⟩ := hm s h.left
  obtain ⟨r', t', hrun', hr', hd', hc'⟩ := hn t h.right
  have hsim : Sim κ d s' t' := ⟨hc.trans h.cache, hc' ▸ h.disabled, hd, hd'⟩
  obtain ⟨a, b, rfl, rfl, hq⟩ | ⟨err, rfl, rfl⟩ := hR r r' hr hr'
  · exact Relate.of_ok (eq_ok_of_attempt hrun) (eq_ok_of_attempt hrun') ⟨hq, hsim⟩
  · exact Relate.of_error (eq_error_of_attempt hrun) (eq_error_of_attempt hrun') hsim

theorem rel_fail {err : Err} (h : ∀ s t, P s t → E s t) :
    Relate P (fail err : CM S α) (fail err : CM S β) Q E :=
  Relate.throw h

theorem rel_crash (h : ∀ s t, P s t → E s t) : Relate P (crash : CM S α) (crash : CM S β) Q E :=
  Relate.throw h

/-- A call on both shares. -/
theorem rel_call {f : c.Reply → CM S α} {g : c.Reply → CM S β}
    (h : Relate (Sim κ (S.exec c d).2) (f (S.exec c d).1) (g (S.exec c d).1) Q E) :
    Relate (Sim κ d) (call c >>= f) (call c >>= g) Q E := by
  rintro s t ⟨rfl, hoff, rfl, hd⟩
  rw [bind_run, bind_run]
  have hs : (call c : CM S c.Reply) s =
      .ok (S.exec c s.disk).1 { s with disk := (S.exec c s.disk).2 } := rfl
  have ht : (call c : CM S c.Reply) t =
      .ok (S.exec c s.disk).1 { t with disk := (S.exec c s.disk).2 } := by
    rw [← hd]
    rfl
  rw [hs, ht]
  exact h _ _ ⟨rfl, hoff, rfl, rfl⟩

/-- A call that only reads. -/
theorem rel_read (hS : TreeLike S) (hc : c.reads = true) {f : c.Reply → CM S α}
    {g : c.Reply → CM S β} (h : Relate (Sim κ d) (f (S.exec c d).1) (g (S.exec c d).1) Q E) :
    Relate (Sim κ d) (call c >>= f) (call c >>= g) Q E :=
  rel_call ((hS.reads c d hc).symm ▸ h)

/-- A call that both programs end with. -/
theorem rel_call_last {Q : c.Reply → c.Reply → State S → State S → Prop}
    (h : ∀ s t, Sim κ (S.exec c d).2 s t → Q (S.exec c d).1 (S.exec c d).1 s t) :
    Relate (Sim κ d) (call c) (call c) Q E := by
  have := rel_call (c := c) (f := pure) (g := pure) (E := E) (Relate.pure h)
  simpa using this

theorem rel_invalidate :
    Relate (Sim κ d) (invalidate path) (invalidate path)
      (fun _ _ => Sim (κ.invalidate path) d) E := by
  rintro s t ⟨rfl, hoff, hs, ht⟩
  exact ⟨rfl, by simpa using hoff, hs, ht⟩

theorem rel_get (hu : fsys.Unfailing) (hP : Stable P) :
    Relate P fsys.get fsys.get (fun _ _ => P) E := by
  intro s t h
  have hs : fsys.get s = .ok s.gets { s with gets := s.gets + 1 } := by
    simp [FileSystem.get, hu.poolGet]
  have ht : fsys.get t = .ok t.gets { t with gets := t.gets + 1 } := by
    simp [FileSystem.get, hu.poolGet]
  exact Relate.of_ok hs ht (hP s t _ _ h rfl rfl rfl rfl)

theorem rel_checkContext (hu : fsys.Unfailing) (hP : Stable P) :
    Relate P fsys.checkContext fsys.checkContext (fun _ _ => P) E := by
  intro s t h
  have hs : fsys.checkContext s = .ok () { s with looks := s.looks + 1 } := by
    simp [FileSystem.checkContext, hu.ctxErr]
  have ht : fsys.checkContext t = .ok () { t with looks := t.looks + 1 } := by
    simp [FileSystem.checkContext, hu.ctxErr]
  exact Relate.of_ok hs ht (hP s t _ _ h rfl rfl rfl rfl)

theorem rel_putConn (hP : Stable P) (conn conn' : Nat) :
    Relate P (putConn conn) (putConn conn') (fun _ _ => P) E :=
  fun s t h => hP s t _ _ h rfl rfl rfl rfl

/-- Two programs that are tried, and what follows. -/
theorem rel_attempt {f : Except Err α → CM S γ} {g : Except Err β → CM S δ}
    {R : γ → δ → State S → State S → Prop} {E' : State S → State S → Prop}
    (h : Relate P m n Q E) (hok : ∀ a b, Relate (Q a b) (f (.ok a)) (g (.ok b)) R E')
    (herr : ∀ err, Relate E (f (.error err)) (g (.error err)) R E') (hE : ∀ s t, E s t → E' s t) :
    Relate P (attempt m >>= f) (attempt n >>= g) R E' := by
  intro s t hst
  rw [bind_run, bind_run]
  obtain ⟨a, s', b, t', hm, hn, hq⟩ | ⟨e, s', t', hm, hn, he⟩ := h.cases hst
  · simp only [attempt, hm, hn]
    exact hok a b s' t' hq
  · simp only [attempt, hm, hn]
    cases e with
    | error err => exact herr err s' t' he
    | crash => exact ⟨rfl, hE s' t' he⟩

theorem rel_deferPut (h : Relate P m n Q E) (hQ : ∀ a b, Stable (Q a b)) (hE : Stable E)
    (conn conn' : Nat) : Relate P (deferPut conn m) (deferPut conn' n) Q E := by
  refine rel_attempt h ?_ ?_ fun _ _ h => h
  · exact fun a b => Relate.bind (rel_putConn (hQ a b) conn conn') fun _ _ => Relate.pure fun _ _ h => h
  · exact fun err => Relate.bind (rel_putConn hE conn conn') fun _ _ => rel_fail fun _ _ h => h

/-- A retried program whose failures change nothing. -/
theorem rel_withRetry (hu : fsys.Unfailing) (hP : Stable P) (h : Relate P m n Q P) :
    Relate P (fsys.withRetry m) (fsys.withRetry n) Q P := by
  have hloop : ∀ k, Relate P (fsys.retryLoop m k) (fsys.retryLoop n k) Q P := by
    intro k
    -- one iteration ends with two values, or with one error and nothing changed
    have honce : Relate P (fsys.tryOnce m) (fsys.tryOnce n) (fun r r' s t =>
        (∃ a b, r = .ok a ∧ r' = .ok b ∧ Q a b s t) ∨
          ∃ err, r = .error err ∧ r' = .error err ∧ P s t) P := by
      refine Relate.bind (rel_checkContext hu hP) fun _ _ => rel_attempt h ?_ ?_ fun _ _ h => h
      · exact fun a b => Relate.pure fun s t hq => .inl ⟨a, b, rfl, rfl, hq⟩
      · intro err
        dsimp only
        split
        · exact Relate.pure fun s t hp => .inr ⟨err, rfl, rfl, hp⟩
        · exact rel_fail fun _ _ h => h
    induction k with
    | zero =>
      refine Relate.bind honce fun r r' s t hrr => ?_
      obtain ⟨a, b, rfl, rfl, hq⟩ | ⟨err, rfl, rfl, hp⟩ := hrr
      · exact hq
      · exact ⟨rfl, hp⟩
    | succ k ih =>
      refine Relate.bind honce fun r r' s t hrr => ?_
      obtain ⟨a, b, rfl, rfl, hq⟩ | ⟨err, rfl, rfl, hp⟩ := hrr
      · exact hq
      · exact Relate.bind (rel_checkContext hu hP) (fun _ _ => ih) s t hp
  unfold FileSystem.withRetry
  split
  · exact h
  · exact hloop _

/-- A path that is refused is refused to both. -/
theorem rel_checkPath {op : Op} {name : Str} {f : Str → CM S α} {g : Str → CM S β}
    (hE : ∀ s t, P s t → E s t)
    (h : validatePath name = none → ∀ l : Loc, fsys.pathNorm.normalize name = l.slash →
      Relate P (f l.slash) (g l.slash) Q E) :
    Relate P (fsys.checkPath op name >>= f) (fsys.checkPath op name >>= g) Q E := by
  unfold FileSystem.checkPath
  cases hv : validatePath name with
  | some err => exact fun s t hst => ⟨rfl, hE s t hst⟩
  | none =>
    obtain ⟨l, hl⟩ := normalize_slash fsys.pathNorm hv
    rw [hl]
    exact h hv l hl

end Rules

/-! ## `Stat` and `ReadDir` -/

section Answers

variable {κ : MetadataCache} {d : S.Disk} {E : State S → State S → Prop}

theorem rel_getStatInfo :
    Relate (Sim κ d) (fsys.getStatInfo path) (fsys.getStatInfo path)
      (fun r r' s t => ((∃ now, κ.getStatInfo path now = r) ∧ r' = none) ∧ Sim κ d s t) E := by
  rintro s t ⟨rfl, hoff, hs, ht⟩
  exact ⟨⟨⟨_, rfl⟩, MetadataCache.getStatInfo_disabled hoff _⟩, rfl, hoff, hs, ht⟩

theorem rel_getDirEntries :
    Relate (Sim κ d) (fsys.getDirEntries path) (fsys.getDirEntries path)
      (fun r r' s t => ((∃ now, κ.getDirEntries path now = r) ∧ r' = none) ∧ Sim κ d s t) E := by
  rintro s t ⟨rfl, hoff, hs, ht⟩
  exact ⟨⟨⟨_, rfl⟩, MetadataCache.getDirEntries_disabled hoff _⟩, rfl, hoff, hs, ht⟩

theorem rel_putStatInfo (info : FileInfo) :
    Relate (Sim κ d) (fsys.putStatInfo path info) (fsys.putStatInfo path info)
      (fun _ _ s t => ∃ now, Sim (κ.putStatInfo path info now) d s t) E := by
  rintro s t ⟨rfl, hoff, hs, ht⟩
  exact ⟨_, rfl, by simpa using hoff, hs, ht⟩

theorem rel_putDirEntries (entries : List FileInfo) :
    Relate (Sim κ d) (fsys.putDirEntries path entries) (fsys.putDirEntries path entries)
      (fun _ _ s t => ∃ now, Sim (κ.putDirEntries path entries now) d s t) E := by
  rintro s t ⟨rfl, hoff, hs, ht⟩
  exact ⟨_, rfl, by simpa using hoff, hs, ht⟩

/-- Storing does nothing for the client without cache. -/
theorem rel_putStatInfo_right (info : FileInfo) :
    Relate (Sim κ d) (pure () : CM S Unit) (fsys.putStatInfo path info) (fun _ _ => Sim κ d) E := by
  rintro s t ⟨hc, hoff, hs, ht⟩
  exact ⟨hc, by simpa using hoff, hs, ht⟩

theorem rel_putDirEntries_right (entries : List FileInfo) :
    Relate (Sim κ d) (pure () : CM S Unit) (fsys.putDirEntries path entries)
      (fun _ _ => Sim κ d) E := by
  rintro s t ⟨hc, hoff, hs, ht⟩
  exact ⟨hc, by simpa using hoff, hs, ht⟩

/-- **`Stat`.** A hit is what the share answers, a miss asks the share. -/
theorem rel_stat (hS : TreeLike S) (hu : fsys.Unfailing) (hon : κ.enabled = true)
    (hf : Fresh fsys.pathNorm ∅ ∅ κ d) (name : Str) :
    Relate (Sim κ d) (fsys.stat name) (fsys.stat name)
      (fun a b s t => (∃ l : Loc, fsys.pathNorm.normalize name = l.slash ∧
        statAnswer fsys d l = .ok b ∧ SameInfo a b) ∧ Synced fsys.pathNorm s t)
      (Synced fsys.pathNorm) := by
  have hsync := synced_of_fresh hon hf
  refine rel_checkPath hsync fun _ l hl => ?_
  refine Relate.bind (rel_getStatInfo l.slash) fun r r' => Relate.of_fact ?_
  rintro ⟨⟨now, hr⟩, rfl⟩
  have hask := askStat_reads hS.reads hu d l
  cases r with
  | some info =>
    obtain ⟨e, he, rfl, -⟩ := MetadataCache.getStatInfo_lookup hr
    obtain ⟨i, hi, hsame⟩ := hf.stat l (by simp) e he
    have hanswer : statAnswer fsys d l = .ok { i with name := fsys.pathNorm.base l.slash } := by
      simp only [statAnswer, hi]
    have hmiss : Relate (Sim κ d) (pure e.info : CM S FileInfo) (fsys.askStat l.slash)
        (fun a b s t => (statAnswer fsys d l = .ok b ∧ SameInfo a b) ∧ Sim κ d s t) (Sim κ d) := by
      refine rel_of_reads (R := (· = .ok e.info)) (Reads.pure rfl) hask ?_
      rintro _ _ rfl rfl
      exact .inl ⟨_, _, rfl, hanswer, hanswer, hsame⟩
    refine Relate.bind (f := fun a => (pure () : CM S Unit) >>= fun _ => pure a)
      (hmiss.exits hsync) fun a b => Relate.of_fact fun hab => ?_
    refine Relate.bind (rel_putStatInfo_right l.slash b) fun _ _ => Relate.pure fun s t h => ?_
    exact ⟨⟨l, hl, hab⟩, hsync s t h⟩
  | none =>
    have hmiss : Relate (Sim κ d) (fsys.askStat l.slash) (fsys.askStat l.slash)
        (fun a b s t => (b = a ∧ statAnswer fsys d l = .ok a) ∧ Sim κ d s t) (Sim κ d) := by
      refine rel_of_reads hask hask ?_
      rintro _ _ rfl rfl
      cases hanswer : statAnswer fsys d l with
      | ok a => exact .inl ⟨a, a, rfl, rfl, rfl, rfl⟩
      | error err => exact .inr ⟨err, rfl, rfl⟩
    refine Relate.bind (hmiss.exits hsync) fun a b => Relate.of_fact ?_
    rintro ⟨rfl, hanswer⟩
    refine Relate.bind (rel_putStatInfo l.slash b) fun _ _ => Relate.pure ?_
    rintro s t ⟨now, h⟩
    refine ⟨⟨l, hl, hanswer, .refl b⟩, _, d, ⟨by simpa using hon, ?_⟩, h⟩
    -- the stored value is what the share answers
    unfold statAnswer at hanswer
    cases hi : S.statOf d l with
    | error err => simp [hi] at hanswer
    | ok i =>
      simp only [hi, Except.ok.injEq] at hanswer
      rw [← hanswer]
      exact hf.putStatInfo hi now

/-- Closing a file leaves the two in step. -/
theorem rel_close (hS : TreeLike S) (hsync : ∀ s t, Sim κ d s t → E s t) (f f' : File S) :
    Relate (Sim κ d) f.close f'.close (fun _ _ => Sim κ d) E := by
  refine (rel_of_reads (q := fun _ _ => True) (close_reads hS.reads d f) (close_reads hS.reads d f')
    ?_).mono (fun _ _ h => h) (fun _ _ _ _ h => h.2) hsync
  rintro _ _ ⟨x, rfl, _⟩ ⟨y, rfl, _⟩
  exact .inl ⟨x, y, rfl, rfl, trivial⟩

theorem rel_close_right (hS : TreeLike S) (hsync : ∀ s t, Sim κ d s t → E s t) (f : File S) :
    Relate (Sim κ d) (pure () : CM S Unit) f.close (fun _ _ => Sim κ d) E := by
  refine (rel_of_reads (R := (· = .ok ())) (q := fun _ _ => True) (Reads.pure rfl)
    (close_reads hS.reads d f) ?_).mono (fun _ _ h => h) (fun _ _ _ _ h => h.2) hsync
  rintro _ _ rfl ⟨y, rfl, _⟩
  exact .inl ⟨(), y, rfl, rfl, trivial⟩

/-- Entries from the cache against the question. -/
theorem rel_askDir_hit {l : Loc} {entries infos : List FileInfo}
    (hask : Reads d (fsys.askDir l.slash) fun r => r.map Prod.fst = dirAnswer d l)
    (hanswer : dirAnswer d l = .ok infos) (hsame : SameInfos entries infos) :
    Relate (Sim κ d) (pure entries : CM S (List FileInfo)) (fsys.askDir l.slash)
      (fun a b s t => SameInfos a b.1 ∧ Sim κ d s t) (Sim κ d) := by
  refine rel_of_reads (R := (· = .ok entries)) (Reads.pure rfl) hask ?_
  rintro _ r rfl hr
  rw [hanswer] at hr
  cases r with
  | error err => cases hr
  | ok x => exact .inl ⟨_, x, rfl, rfl, (Except.ok.inj hr) ▸ hsame⟩

/-- The same question twice. -/
theorem rel_askDir {l : Loc}
    (hask : Reads d (fsys.askDir l.slash) fun r => r.map Prod.fst = dirAnswer d l) :
    Relate (Sim κ d) (fsys.askDir l.slash) (fsys.askDir l.slash)
      (fun a b s t => (b.1 = a.1 ∧ dirAnswer d l = .ok a.1) ∧ Sim κ d s t) (Sim κ d) := by
  refine rel_of_reads hask hask ?_
  intro r r' hr hr'
  rw [← hr'] at hr
  cases r with
  | ok a =>
    cases r' with
    | ok b => exact .inl ⟨a, b, rfl, rfl, (Except.ok.inj hr).symm, hr'.symm.trans hr.symm⟩
    | error err => cases hr
  | error err =>
    cases r' with
    | ok b => cases hr
    | error err' =>
      cases hr
      exact .inr ⟨err, rfl, rfl⟩

/-- **`ReadDir`.** -/
theorem rel_readDir (hS : TreeLike S) (hu : fsys.Unfailing) (hon : κ.enabled = true)
    (hf : Fresh fsys.pathNorm ∅ ∅ κ d) (name : Str) :
    Relate (Sim κ d) (fsys.readDir name) (fsys.readDir name)
      (fun a b s t => SameInfos a b ∧ Synced fsys.pathNorm s t) (Synced fsys.pathNorm) := by
  have hsync := synced_of_fresh hon hf
  refine rel_checkPath hsync fun hv l hl => ?_
  have hcanon : validatePath l.slash = none ∧ fsys.pathNorm.normalize l.slash = l.slash :=
    hl ▸ normalize_normalize fsys.pathNorm hv
  refine Relate.bind (rel_getDirEntries l.slash) fun r r' => Relate.of_fact ?_
  rintro ⟨⟨now, hr⟩, rfl⟩
  have hask := askDir_reads hS.reads hu d hcanon
  cases r with
  | some entries =>
    obtain ⟨e, he, rfl, -⟩ := MetadataCache.getDirEntries_lookup hr
    obtain ⟨hne, is, his, hsame⟩ := hf.list l (by simp) e he
    have hanswer : dirAnswer d l = .ok (visible is) :=
      dirAnswer_eq_ok.mpr ⟨is, his, rfl, fun hnil => hne (List.forall₂_nil_right_iff.mp (hnil ▸ hsame))⟩
    have hhit := rel_askDir_hit (κ := κ) hask hanswer hsame
    refine Relate.bind
      (f := fun a => (pure () : CM S Unit) >>= fun _ => (pure () : CM S Unit) >>= fun _ => pure a)
      (hhit.exits hsync) fun a b => Relate.of_fact fun hab => ?_
    refine Relate.bind (rel_putDirEntries_right l.slash b.1) fun _ _ => ?_
    refine Relate.bind (rel_close_right hS hsync b.2) fun _ _ => Relate.pure fun s t h => ?_
    exact ⟨hab, hsync s t h⟩
  | none =>
    have hmiss := rel_askDir (κ := κ) hask
    refine Relate.bind (hmiss.exits hsync) fun a b => Relate.of_fact ?_
    obtain ⟨entries, f⟩ := a
    obtain ⟨entries', f'⟩ := b
    rintro ⟨rfl, hanswer⟩
    obtain ⟨is, his, rfl, hne⟩ := dirAnswer_eq_ok.mp hanswer
    refine Relate.bind (rel_putDirEntries l.slash (visible is)) fun _ _ => ?_
    rintro s t ⟨now, h⟩
    have hsync' := synced_of_fresh (by simpa using hon) (hf.putDirEntries his hne now)
    refine Relate.bind (rel_close hS hsync' f f') (fun _ _ => Relate.pure fun s t h => ?_) s t h
    exact ⟨.refl _, hsync' s t h⟩

end Answers

end Smbfs.Client
