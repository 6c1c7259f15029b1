import Smbfs.Client.Cache

/-!
What the calls of the cache do to its entries.

* `evictIfNeeded_eq`, `evict_eq`: eviction takes the oldest paths away;
* `putStatInfo_stored`, `putDirEntries_stored`: a put that stores leaves the
  new entry or none in the place of the one that the path had;
* `getStatInfo_lookup`, `getDirEntries_lookup`: a hit is an entry that is not
  older than its TTL.
-/

namespace Smbfs.Client

open Smbfs.Lib

namespace MetadataCache

variable {c : MetadataCache} {k path : Str}

/-- One cache has no entry that the other has not. -/
structure Sub (c c' : MetadataCache) : Prop where
  enabled : c.enabled = c'.enabled
  stat : ∀ k e, c.statCache.lookup k = some e → c'.statCache.lookup k = some e
  dir : ∀ k e, c.dirCache.lookup k = some e → c'.dirCache.lookup k = some e

theorem lookup_of_lookup_erase {V : Type} {m : GoMap Str V} {a k : Str} {e : V}
    (h : (m.erase a).lookup k = some e) : k ≠ a ∧ m.lookup k = some e := by
  rw [GoMap.lookup_erase] at h
  split at h
  · cases h
  · next hne => exact ⟨hne, h⟩

theorem invalidate_lookup {e : StatCacheEntry}
    (h : (c.invalidate path).statCache.lookup k = some e) : c.statCache.lookup k = some e := by
  unfold invalidate at h
  split at h
  · exact h
  · exact (lookup_of_lookup_erase h).2

/-- `len(c.dirCache) + len(c.statCache)`. -/
def total (c : MetadataCache) : Nat := c.dirCache.entries.length + c.statCache.entries.length

/-- The loop takes the oldest paths with their entries. -/
theorem evict_eq (n : Nat) (c : MetadataCache) : c.evict n = { c with
    accessOrder := c.accessOrder.drop n
    dirCache := c.dirCache.eraseAll (c.accessOrder.take n)
    statCache := c.statCache.eraseAll (c.accessOrder.take n) } := by
  induction n generalizing c with
  | zero => rfl
  | succ n ih =>
    unfold evict
    split
    · next hnil =>
      rw [hnil]
      exact congrArg (fun order => { c with accessOrder := order }) hnil
    · next hcons =>
      rw [ih, hcons]
      rfl

theorem evictIfNeeded_eq (c : MetadataCache) :
    c.evictIfNeeded = c.evict (c.total - c.config.maxCacheEntries).toNat := by
  simp only [evictIfNeeded, total, Int.natCast_add]
  split
  · rw [Int.toNat_of_nonpos (by omega)]
    rfl
  · rfl

theorem evictIfNeeded_sub (c : MetadataCache) : c.evictIfNeeded.Sub c := by
  have herased : ∀ {V : Type} {m : GoMap Str V} {ks : List Str} {k : Str} {e : V},
      (m.eraseAll ks).lookup k = some e → m.lookup k = some e := by
    intro V m ks k e h
    rw [GoMap.lookup_eraseAll] at h
    split at h
    · cases h
    · exact h
  rw [evictIfNeeded_eq, evict_eq]
  exact ⟨rfl, fun _ _ => herased, fun _ _ => herased⟩

theorem evictIfNeeded_config (c : MetadataCache) : c.evictIfNeeded.config = c.config := by
  rw [evictIfNeeded_eq, evict_eq]

/-! ## Puts -/

/-- Results of `Stat` are cached. -/
def StatOn (c : MetadataCache) : Prop := c.enabled = true ∧ c.config.statCacheTTL ≠ 0

/-- Listings are cached. -/
def DirOn (c : MetadataCache) : Prop := c.enabled = true ∧ c.config.dirCacheTTL ≠ 0

/-- The cache with a new result of `Stat`, before anything is evicted. -/
def withStat (c : MetadataCache) (path : Str) (e : StatCacheEntry) : MetadataCache :=
  { c with statCache := c.statCache.insert path e }

/-- The cache with a new listing, before anything is evicted. -/
def withDir (c : MetadataCache) (path : Str) (e : DirCacheEntry) : MetadataCache :=
  { c with dirCache := c.dirCache.insert path e }

section Put

variable (path : Str) (info : FileInfo) (entries : List FileInfo) (now : GoTime)

theorem putStatInfo_on (h : c.StatOn) : c.putStatInfo path info now =
    ((c.withStat path ⟨info, now⟩).trackAccess path).evictIfNeeded := by
  simp [putStatInfo, withStat, h.1, h.2]

theorem putStatInfo_off (h : ¬ c.StatOn) : c.putStatInfo path info now = c := by
  unfold putStatInfo
  refine if_pos ?_
  unfold StatOn at h
  cases hen : c.enabled with
  | false => rfl
  | true => simpa [hen] using h

theorem putDirEntries_on (h : c.DirOn) : c.putDirEntries path entries now =
    ((c.withDir path ⟨entries, now⟩).trackAccess path).evictIfNeeded := by
  simp [putDirEntries, withDir, h.1, h.2]

theorem putDirEntries_off (h : ¬ c.DirOn) : c.putDirEntries path entries now = c := by
  unfold putDirEntries
  refine if_pos ?_
  unfold DirOn at h
  cases hen : c.enabled with
  | false => rfl
  | true => simpa [hen] using h

end Put

section Lookup

variable {info : FileInfo} {entries : List FileInfo} {now : GoTime}

theorem putStatInfo_stored {e : StatCacheEntry} (hon : c.StatOn)
    (h : (c.putStatInfo path info now).statCache.lookup k = some e) :
    (k = path ∧ e = ⟨info, now⟩) ∨ (k ≠ path ∧ c.statCache.lookup k = some e) := by
  rw [putStatInfo_on path info now hon] at h
  have h := (evictIfNeeded_sub _).stat k e h
  simp only [trackAccess, withStat, GoMap.lookup_insert] at h
  split at h
  · next hk => exact .inl ⟨hk, (Option.some.inj h).symm⟩
  · next hk => exact .inr ⟨hk, h⟩

/-- `putStatInfo` stores at most the new entry. -/
theorem putStatInfo_lookup {e : StatCacheEntry}
    (h : (c.putStatInfo path info now).statCache.lookup k = some e) :
    (k = path ∧ e.info = info) ∨ c.statCache.lookup k = some e := by
  by_cases hon : c.StatOn
  · rcases putStatInfo_stored hon h with ⟨hk, rfl⟩ | ⟨-, h⟩
    · exact .inl ⟨hk, rfl⟩
    · exact .inr h
  · rw [putStatInfo_off path info now hon] at h
    exact .inr h

theorem putStatInfo_dir {e : DirCacheEntry}
    (h : (c.putStatInfo path info now).dirCache.lookup k = some e) :
    c.dirCache.lookup k = some e := by
  by_cases hon : c.StatOn
  · rw [putStatInfo_on path info now hon] at h
    have h := (evictIfNeeded_sub _).dir k e h
    exact h
  · rwa [putStatInfo_off path info now hon] at h

theorem putDirEntries_stored {e : DirCacheEntry} (hon : c.DirOn)
    (h : (c.putDirEntries path entries now).dirCache.lookup k = some e) :
    (k = path ∧ e = ⟨entries, now⟩) ∨ (k ≠ path ∧ c.dirCache.lookup k = some e) := by
  rw [putDirEntries_on path entries now hon] at h
  have h := (evictIfNeeded_sub _).dir k e h
  simp only [trackAccess, withDir, GoMap.lookup_insert] at h
  split at h
  · next hk => exact .inl ⟨hk, (Option.some.inj h).symm⟩
  · next hk => exact .inr ⟨hk, h⟩

/-- `putDirEntries` stores at most the new entry. -/
theorem putDirEntries_lookup {e : DirCacheEntry}
    (h : (c.putDirEntries path entries now).dirCache.lookup k = some e) :
    (k = path ∧ e.entries = entries) ∨ c.dirCache.lookup k = some e := by
  by_cases hon : c.DirOn
  · rcases putDirEntries_stored hon h with ⟨hk, rfl⟩ | ⟨-, h⟩
    · exact .inl ⟨hk, rfl⟩
    · exact .inr h
  · rw [putDirEntries_off path entries now hon] at h
    exact .inr h

theorem putDirEntries_stat {e : StatCacheEntry}
    (h : (c.putDirEntries path entries now).statCache.lookup k = some e) :
    c.statCache.lookup k = some e := by
  by_cases hon : c.DirOn
  · rw [putDirEntries_on path entries now hon] at h
    have h := (evictIfNeeded_sub _).stat k e h
    exact h
  · rwa [putDirEntries_off path entries now hon] at h

/-! ## Hits -/

theorem getStatInfo_lookup (h : c.getStatInfo path now = some info) :
    ∃ e, c.statCache.lookup path = some e ∧ e.info = info ∧
      now - e.cachedAt ≤ c.config.statCacheTTL := by
  unfold getStatInfo at h
  split at h
  · cases h
  · split at h
    · cases h
    · next e he =>
      split at h
      · cases h
      · next hage => exact ⟨e, he, Option.some.inj h, Int.not_lt.mp hage⟩

theorem getDirEntries_lookup (h : c.getDirEntries path now = some entries) :
    ∃ e, c.dirCache.lookup path = some e ∧ e.entries = entries ∧
      now - e.cachedAt ≤ c.config.dirCacheTTL := by
  unfold getDirEntries at h
  split at h
  · cases h
  · split at h
    · cases h
    · next e he =>
      split at h
      · cases h
      · next hage => exact ⟨e, he, Option.some.inj h, Int.not_lt.mp hage⟩

end Lookup

theorem getStatInfo_disabled (h : c.enabled = false) (now : GoTime) : c.getStatInfo path now = none := by
  simp [getStatInfo, h]

theorem getDirEntries_disabled (h : c.enabled = false) (now : GoTime) :
    c.getDirEntries path now = none := by
  simp [getDirEntries, h]

/-! ## What no call changes -/

@[simp] theorem putStatInfo_enabled (info : FileInfo) (now : GoTime) :
    (c.putStatInfo path info now).enabled = c.enabled := by
  unfold putStatInfo
  split
  · rfl
  · exact (evictIfNeeded_sub _).enabled

@[simp] theorem putDirEntries_enabled (entries : List FileInfo) (now : GoTime) :
    (c.putDirEntries path entries now).enabled = c.enabled := by
  unfold putDirEntries
  split
  · rfl
  · exact (evictIfNeeded_sub _).enabled

@[simp] theorem invalidate_enabled : (c.invalidate path).enabled = c.enabled := by
  unfold invalidate
  split <;> rfl

/-- No call switches the cache on or off or changes its configuration. -/
theorem step_setup (c : MetadataCache) (op : CacheOp) :
    (c.step op).enabled = c.enabled ∧ (c.step op).config = c.config := by
  cases op with
  | getDirEntries path now => exact ⟨rfl, rfl⟩
  | getStatInfo path now => exact ⟨rfl, rfl⟩
  | putStatInfo path info now =>
    refine ⟨putStatInfo_enabled info now, ?_⟩
    simp only [step, putStatInfo]
    split
    · rfl
    · exact evictIfNeeded_config _
  | putDirEntries path entries now =>
    refine ⟨putDirEntries_enabled entries now, ?_⟩
    simp only [step, putDirEntries]
    split
    · rfl
    · exact evictIfNeeded_config _
  | invalidate path =>
    refine ⟨invalidate_enabled, ?_⟩
    simp only [step, invalidate]
    split <;> rfl
  | invalidateAll =>
    simp only [step, invalidateAll]
    split <;> exact ⟨rfl, rfl⟩

theorem new_enabled (config : CacheConfig) :
    (newMetadataCache config).enabled = config.enableCache := by
  simp only [newMetadataCache]
  split <;> split <;> split <;> rfl

/-- The defaults leave no TTL at zero. -/
theorem new_ttl_ne_zero (config : CacheConfig) :
    (newMetadataCache config).config.statCacheTTL ≠ 0 ∧
      (newMetadataCache config).config.dirCacheTTL ≠ 0 := by
  simp only [newMetadataCache]
  split <;> split <;> split <;> simp_all

end MetadataCache

end Smbfs.Client
