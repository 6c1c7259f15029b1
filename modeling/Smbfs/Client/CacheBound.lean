import Smbfs.Client.CacheEntries
import Smbfs.Lib.Run

/-!
How many entries the cache holds.

A put may make the cache one entry too large; `evictIfNeeded` then takes the
oldest path off the access order, once. Invalidations leave their path in that
order, so the path may have nothing left to evict.

* `evictIfNeeded_bounded_iff`: the cache is within its bound again exactly if
  the oldest path still owned an entry;
* `cache_bounded_iff`: the runs that stay within the bound are those in which
  every put into a full cache finds such a path.
-/

namespace Smbfs.Client

open Smbfs.Lib

namespace MetadataCache

variable {c : MetadataCache} {path : Str}

/-- The path has an entry. -/
def Owns (c : MetadataCache) (path : Str) : Prop := path ∈ c.dirCache ∨ path ∈ c.statCache

instance : Decidable (c.Owns path) :=
  inferInstanceAs (Decidable (_ ∨ _))

/-- The paths that a put evicts first, oldest first: all but its own. -/
def olderThan (c : MetadataCache) (path : Str) : List Str := c.accessOrder.erase path

/-- The entries of one path are taken out. -/
def dropPath (c : MetadataCache) (path : Str) (rest : List Str) : MetadataCache :=
  { c with
    accessOrder := rest
    dirCache := c.dirCache.erase path
    statCache := c.statCache.erase path }

theorem dropPath_total_lt (h : c.Owns path) (rest : List Str) :
    (c.dropPath path rest).total < c.total := by
  have hdir := GoMap.length_erase c.dirCache path
  have hstat := GoMap.length_erase c.statCache path
  unfold total dropPath
  rcases h with h | h
  · rw [if_pos h] at hdir
    dsimp only
    split at hstat <;> omega
  · rw [if_pos h] at hstat
    dsimp only
    split at hdir <;> omega

theorem dropPath_total_eq (h : ¬ c.Owns path) (rest : List Str) :
    (c.dropPath path rest).total = c.total := by
  have hdir := GoMap.length_erase c.dirCache path
  have hstat := GoMap.length_erase c.statCache path
  obtain ⟨hnodir, hnostat⟩ := not_or.mp h
  rw [if_neg hnodir] at hdir
  rw [if_neg hnostat] at hstat
  unfold total dropPath
  dsimp only
  omega

/-- A path that was just put is tracked last, behind the older ones. -/
theorem trackAccess_head (c : MetadataCache) (path : Str) :
    ∃ q rest, (c.trackAccess path).accessOrder = q :: rest ∧
      ((c.olderThan path).head? = some q ∨ (c.olderThan path = [] ∧ q = path)) := by
  unfold trackAccess olderThan
  cases c.accessOrder.erase path with
  | nil => exact ⟨path, [], rfl, .inr ⟨rfl, rfl⟩⟩
  | cons q rest => exact ⟨q, rest ++ [path], rfl, .inl rfl⟩

theorem evictIfNeeded_within (h : c.total ≤ c.config.maxCacheEntries) : c.evictIfNeeded = c := by
  rw [evictIfNeeded_eq, Int.toNat_of_nonpos (by omega)]
  rfl

/-- One entry too many: one path is evicted. -/
theorem evictIfNeeded_over {q : Str} {rest : List Str}
    (h : c.total = c.config.maxCacheEntries + 1) (horder : c.accessOrder = q :: rest) :
    c.evictIfNeeded = c.dropPath q rest := by
  have hone : (c.total - c.config.maxCacheEntries).toNat = 1 := by omega
  rw [evictIfNeeded_eq, hone, evict_eq, horder]
  rfl

/-- **Eviction.** The cache `c` has just got an entry for `path`. -/
theorem evictIfNeeded_bounded_iff (hle : c.total ≤ c.config.maxCacheEntries + 1)
    (hown : c.Owns path) :
    (c.trackAccess path).evictIfNeeded.total ≤ c.config.maxCacheEntries ↔
      (c.total = c.config.maxCacheEntries + 1 → ∀ q, (c.olderThan path).head? = some q → c.Owns q) := by
  have hsame : (c.trackAccess path).total = c.total := rfl
  by_cases hover : c.total = c.config.maxCacheEntries + 1
  · obtain ⟨q, rest, horder, hq⟩ := c.trackAccess_head path
    have hevict : (c.trackAccess path).evictIfNeeded = (c.trackAccess path).dropPath q rest :=
      evictIfNeeded_over hover horder
    rw [hevict]
    by_cases howns : c.Owns q
    · have hlt : ((c.trackAccess path).dropPath q rest).total < c.total :=
        dropPath_total_lt (c := c.trackAccess path) howns rest
      refine iff_of_true (by omega) fun _ q' hq' => ?_
      rcases hq with hq | ⟨hnil, -⟩
      · cases hq.symm.trans hq'
        exact howns
      · rw [hnil] at hq'
        cases hq'
    · have heq : ((c.trackAccess path).dropPath q rest).total = c.total :=
        dropPath_total_eq (c := c.trackAccess path) howns rest
      refine iff_of_false (by omega) fun h => ?_
      rcases hq with hq | ⟨-, rfl⟩
      · exact howns (h hover q hq)
      · exact howns hown
  · have hwithin : c.total ≤ c.config.maxCacheEntries := by omega
    have hstays : (c.trackAccess path).evictIfNeeded = c.trackAccess path :=
      evictIfNeeded_within hwithin
    rw [hstays]
    exact iff_of_true hwithin fun h => absurd h hover

/-! ## Puts -/

/-- When `path` gets an entry in a full cache, the oldest other path in the
access order still owns an entry. `stored` says that the new entry replaces one. -/
def FreesFor (c : MetadataCache) (path : Str) (stored : Prop) : Prop :=
  c.total = c.config.maxCacheEntries → ¬ stored →
    ∀ q, (c.olderThan path).head? = some q → c.Owns q

def FreesEntry (c : MetadataCache) : CacheOp → Prop
  | .putStatInfo path _ _ => c.FreesFor path (path ∈ c.statCache)
  | .putDirEntries path _ _ => c.FreesFor path (path ∈ c.dirCache)
  | _ => True

/-- `c'` is `c` with an entry for `path`, in the place of another if `stored`. -/
structure Adds (c c' : MetadataCache) (path : Str) (stored : Prop) : Prop where
  config : c'.config = c.config
  order : c'.accessOrder = c.accessOrder
  replaced : stored → c'.total = c.total
  added : ¬ stored → c'.total = c.total + 1
  owns : ∀ q, c'.Owns q ↔ q = path ∨ c.Owns q

theorem adds_withStat (c : MetadataCache) (path : Str) (e : StatCacheEntry) :
    c.Adds (c.withStat path e) path (path ∈ c.statCache) where
  config := rfl
  order := rfl
  replaced := by
    intro h
    simp only [total, withStat, GoMap.length_insert, h, ↓reduceIte, Nat.add_zero]
  added := by
    intro h
    simp only [total, withStat, GoMap.length_insert, h, ↓reduceIte]
    omega
  owns := by
    intro q
    simp only [Owns, withStat, AList.mem_insert]
    tauto

theorem adds_withDir (c : MetadataCache) (path : Str) (e : DirCacheEntry) :
    c.Adds (c.withDir path e) path (path ∈ c.dirCache) where
  config := rfl
  order := rfl
  replaced := by
    intro h
    simp only [total, withDir, GoMap.length_insert, h, ↓reduceIte, Nat.add_zero]
  added := by
    intro h
    simp only [total, withDir, GoMap.length_insert, h, ↓reduceIte]
    omega
  owns := by
    intro q
    simp only [Owns, withDir, AList.mem_insert, or_assoc]

variable {c' : MetadataCache}

theorem Adds.bounded_iff {stored : Prop} (h : c.Adds c' path stored)
    (hnodup : c.accessOrder.Nodup) (hwithin : c.total ≤ c.config.maxCacheEntries) :
    (c'.trackAccess path).evictIfNeeded.total ≤ c.config.maxCacheEntries ↔
      c.FreesFor path stored := by
  have holder : c'.olderThan path = c.olderThan path := by rw [olderThan, h.order, olderThan]
  have hother : ∀ q, (c.olderThan path).head? = some q → (c'.Owns q ↔ c.Owns q) := by
    intro q hq
    have hne : q ≠ path := (hnodup.mem_erase_iff.mp (List.mem_of_head? hq)).1
    rw [h.owns q]
    exact or_iff_right hne
  have hle : c'.total ≤ c'.config.maxCacheEntries + 1 := by
    rw [h.config]
    by_cases hs : stored
    · rw [h.replaced hs]
      omega
    · rw [h.added hs]
      omega
  rw [← h.config, evictIfNeeded_bounded_iff hle ((h.owns path).mpr (.inl rfl)), h.config, holder,
    FreesFor]
  constructor
  · intro hfrees hfull hnew q hq
    exact (hother q hq).mp (hfrees (by rw [h.added hnew]; omega) q hq)
  · intro hfrees hover q hq
    have hnew : ¬ stored := by
      intro hs
      rw [h.replaced hs] at hover
      omega
    rw [h.added hnew] at hover
    exact (hother q hq).mpr (hfrees (by omega) hnew q hq)

/-! ## The access order -/

theorem evictIfNeeded_order_sublist (c : MetadataCache) :
    c.evictIfNeeded.accessOrder.Sublist c.accessOrder := by
  rw [evictIfNeeded_eq, evict_eq]
  exact List.drop_sublist _ _

theorem trackAccess_nodup (h : c.accessOrder.Nodup) (path : Str) :
    (c.trackAccess path).accessOrder.Nodup := by
  refine List.nodup_append.mpr ⟨h.erase path, List.nodup_singleton path, ?_⟩
  rintro a ha b hb rfl
  rw [List.mem_singleton] at hb
  exact (h.mem_erase_iff.mp ha).1 hb

theorem Adds.order_nodup {stored : Prop} (h : c.Adds c' path stored)
    (hnodup : c.accessOrder.Nodup) : (c'.trackAccess path).evictIfNeeded.accessOrder.Nodup := by
  rw [← h.order] at hnodup
  exact (trackAccess_nodup hnodup path).sublist (evictIfNeeded_order_sublist _)

end MetadataCache

/-! ## Runs -/

/-- The invariant of a run that has stayed within the bound. -/
structure Bounded (config : CacheConfig) (c : MetadataCache) : Prop where
  enabled : c.enabled = true
  config_eq : c.config = (newMetadataCache config).config
  nodup : c.accessOrder.Nodup
  within : c.total ≤ c.config.maxCacheEntries

namespace Bounded

variable {config : CacheConfig} {c : MetadataCache}

section

variable (h : Bounded config c)

include h

theorem statOn : c.StatOn := by
  refine ⟨h.enabled, ?_⟩
  rw [h.config_eq]
  exact (MetadataCache.new_ttl_ne_zero config).1

theorem dirOn : c.DirOn := by
  refine ⟨h.enabled, ?_⟩
  rw [h.config_eq]
  exact (MetadataCache.new_ttl_ne_zero config).2

theorem invalidate_total_le (path : Str) : (c.invalidate path).total ≤ c.total := by
  have hdir := GoMap.length_erase c.dirCache path
  have hparent := GoMap.length_erase (c.dirCache.erase path) (getParentPath path)
  have hstat := GoMap.length_erase c.statCache path
  simp only [MetadataCache.invalidate, h.enabled, MetadataCache.total, Bool.not_true,
    Bool.false_eq_true, ↓reduceIte]
  omega

variable (op : CacheOp)

/-- One call: the bound holds after it exactly if the call frees what it needs. -/
theorem step_within_iff :
    (c.step op).total ≤ c.config.maxCacheEntries ↔ c.FreesEntry op := by
  cases op with
  | getDirEntries | getStatInfo => exact iff_of_true h.within trivial
  | putStatInfo path info now =>
    rw [MetadataCache.step, MetadataCache.putStatInfo_on path info now h.statOn]
    exact (c.adds_withStat path ⟨info, now⟩).bounded_iff h.nodup h.within
  | putDirEntries path entries now =>
    rw [MetadataCache.step, MetadataCache.putDirEntries_on path entries now h.dirOn]
    exact (c.adds_withDir path ⟨entries, now⟩).bounded_iff h.nodup h.within
  | invalidate path =>
    have hle := h.invalidate_total_le path
    have hwithin := h.within
    refine iff_of_true ?_ trivial
    rw [MetadataCache.step]
    omega
  | invalidateAll =>
    have hzero : c.invalidateAll.total = 0 := by simp [MetadataCache.invalidateAll, h.enabled]; rfl
    have hwithin := h.within
    refine iff_of_true ?_ trivial
    rw [MetadataCache.step, hzero]
    omega

theorem step_nodup : (c.step op).accessOrder.Nodup := by
  cases op with
  | getDirEntries path now => exact h.nodup
  | getStatInfo path now => exact h.nodup
  | putStatInfo path info now =>
    rw [MetadataCache.step, MetadataCache.putStatInfo_on path info now h.statOn]
    exact (c.adds_withStat path ⟨info, now⟩).order_nodup h.nodup
  | putDirEntries path entries now =>
    rw [MetadataCache.step, MetadataCache.putDirEntries_on path entries now h.dirOn]
    exact (c.adds_withDir path ⟨entries, now⟩).order_nodup h.nodup
  | invalidate path =>
    simp only [MetadataCache.step, MetadataCache.invalidate]
    split <;> exact h.nodup
  | invalidateAll =>
    simp only [MetadataCache.step, MetadataCache.invalidateAll]
    split
    · exact h.nodup
    · exact List.nodup_nil

theorem step (hfrees : c.FreesEntry op) : Bounded config (c.step op) := by
  obtain ⟨hen, hconfig⟩ := c.step_setup op
  refine ⟨hen.trans h.enabled, hconfig.trans h.config_eq, h.step_nodup op, ?_⟩
  rw [hconfig]
  exact (h.step_within_iff op).mpr hfrees

end

theorem new (hon : config.enableCache = true)
    (hmax : 1 ≤ (newMetadataCache config).config.maxCacheEntries) :
    Bounded config (newMetadataCache config) where
  enabled := (MetadataCache.new_enabled config).trans hon
  config_eq := rfl
  nodup := List.nodup_nil
  within := by
    have hzero : (newMetadataCache config).total = 0 := rfl
    rw [hzero]
    omega

end Bounded

theorem new_maxCacheEntries {config : CacheConfig} (hmax : 1 ≤ config.maxCacheEntries) :
    (newMetadataCache config).config.maxCacheEntries = config.maxCacheEntries := by
  have hne : config.maxCacheEntries ≠ 0 := by omega
  simp only [newMetadataCache, hne, ↓reduceIte]
  split <;> split <;> rfl

/-- **The size bound.** An enabled cache stays within `MaxCacheEntries` over a
run exactly if every put of a new entry into a full cache finds that the oldest
other path in the access order still owns an entry. -/
theorem cache_bounded_iff (config : CacheConfig) (hon : config.enableCache = true)
    (hmax : 1 ≤ config.maxCacheEntries) (ops : List CacheOp) :
    Always MetadataCache.step (fun c => c.total ≤ config.maxCacheEntries)
        (newMetadataCache config) ops ↔
      Along MetadataCache.step MetadataCache.FreesEntry (newMetadataCache config) ops := by
  have hnew := new_maxCacheEntries hmax
  have hsame : ∀ {c : MetadataCache}, Bounded config c →
      c.config.maxCacheEntries = config.maxCacheEntries := by
    intro c hc
    rw [hc.config_eq, hnew]
  refine always_iff_along (I := Bounded config) ?_ ?_ ?_ ?_
  · intro c op hc hfrees
    exact hc.step op hfrees
  · intro c hc
    rw [← hsame hc]
    exact hc.within
  · intro c op hc hfrees hwithin
    rw [← hsame hc] at hwithin
    exact hfrees ((hc.step_within_iff op).mp hwithin)
  · exact Bounded.new hon (by rw [hnew]; exact hmax)

/-- A cache of one entry: the second path pushes the first one out. -/
theorem cache_bounded_two_paths :
    let info : FileInfo := ⟨['a'], 0, 0, 0, false⟩
    Always MetadataCache.step (fun c => c.total ≤ (1 : Int)) (newMetadataCache ⟨true, 5, 5, 1⟩)
      [.putStatInfo ['/', 'a'] info 1, .putStatInfo ['/', 'b'] info 2] := by
  intro info
  refine (cache_bounded_iff ⟨true, 5, 5, 1⟩ rfl (by decide) _).mpr ⟨?_, ?_, trivial⟩
  · intro hfull
    exact absurd hfull (by decide)
  · rintro - - q hq
    cases hq
    exact .inr (by decide)

/-- A cache of one entry: the first path is invalidated and stays in the access
order, so that the third put evicts a path without entries and two remain. -/
theorem invalidated_path_not_evicted :
    let info : FileInfo := ⟨['a'], 0, 0, 0, false⟩
    (runFrom MetadataCache.step (newMetadataCache ⟨true, 5, 5, 1⟩)
      [.putStatInfo ['/', 'a'] info 1, .invalidate ['/', 'a'], .putStatInfo ['/', 'b'] info 2,
        .putStatInfo ['/', 'c'] info 3]).total = 2 := by
  decide

end Smbfs.Client
