import Smbfs.Client.CacheEntries
import Smbfs.Lib.Run

/-!
Cache hits against the history of the calls.

An eviction may take any entry away, whatever path the put that caused it is
about. What stays in the cache is still the last thing that was stored for its
path, and nothing has invalidated it since.

* `step_lookup_stat`, `step_lookup_dir`: an entry was stored by the last call,
  or was there before and the last call did not concern it;
* `stored_run`: so every entry comes from the latest put for its path;
* `hits_current`: a hit is not older than the TTL, and is from that put.
-/

namespace Smbfs.Client

open Smbfs.Lib

/-- The calls that end the life of a result of `Stat` for the path. -/
def CacheOp.ResetsStat (path : Str) : CacheOp → Prop
  | .putStatInfo p _ _ => p = path
  | .invalidate p => p = path
  | .invalidateAll => True
  | _ => False

/-- The calls that end the life of a listing of the path. -/
def CacheOp.ResetsDir (path : Str) : CacheOp → Prop
  | .putDirEntries p _ _ => p = path
  | .invalidate p => p = path ∨ getParentPath p = path
  | .invalidateAll => True
  | _ => False

namespace MetadataCache

variable {c : MetadataCache} {path : Str}

theorem invalidate_on (h : c.enabled = true) (path : Str) : c.invalidate path =
    { c with
      dirCache := (c.dirCache.erase path).erase (getParentPath path)
      statCache := c.statCache.erase path } := by
  simp [invalidate, h]

theorem invalidateAll_on (h : c.enabled = true) :
    c.invalidateAll = { c with dirCache := ∅, statCache := ∅, accessOrder := [] } := by
  simp [invalidateAll, h]

theorem step_lookup_stat {op : CacheOp} {e : StatCacheEntry} (hon : c.StatOn)
    (h : (c.step op).statCache.lookup path = some e) :
    op = .putStatInfo path e.info e.cachedAt ∨
      (c.statCache.lookup path = some e ∧ ¬ op.ResetsStat path) := by
  cases op with
  | getDirEntries p now => exact .inr ⟨h, id⟩
  | getStatInfo p now => exact .inr ⟨h, id⟩
  | putDirEntries p entries now => exact .inr ⟨putDirEntries_stat h, id⟩
  | putStatInfo p info now =>
    rcases putStatInfo_stored hon h with ⟨rfl, rfl⟩ | ⟨hne, h⟩
    · exact .inl rfl
    · exact .inr ⟨h, Ne.symm hne⟩
  | invalidate p =>
    rw [step, invalidate_on hon.1] at h
    obtain ⟨hne, h⟩ := lookup_of_lookup_erase h
    exact .inr ⟨h, Ne.symm hne⟩
  | invalidateAll =>
    rw [step, invalidateAll_on hon.1] at h
    cases h

theorem step_lookup_dir {op : CacheOp} {e : DirCacheEntry} (hon : c.DirOn)
    (h : (c.step op).dirCache.lookup path = some e) :
    op = .putDirEntries path e.entries e.cachedAt ∨
      (c.dirCache.lookup path = some e ∧ ¬ op.ResetsDir path) := by
  cases op with
  | getDirEntries p now => exact .inr ⟨h, id⟩
  | getStatInfo p now => exact .inr ⟨h, id⟩
  | putStatInfo p info now => exact .inr ⟨putStatInfo_dir h, id⟩
  | putDirEntries p entries now =>
    rcases putDirEntries_stored hon h with ⟨rfl, rfl⟩ | ⟨hne, h⟩
    · exact .inl rfl
    · exact .inr ⟨h, Ne.symm hne⟩
  | invalidate p =>
    rw [step, invalidate_on hon.1] at h
    obtain ⟨hparent, h⟩ := lookup_of_lookup_erase h
    obtain ⟨hne, h⟩ := lookup_of_lookup_erase h
    refine .inr ⟨h, ?_⟩
    rintro (hp | hp)
    · exact hne hp.symm
    · exact hparent hp.symm
  | invalidateAll =>
    rw [step, invalidateAll_on hon.1] at h
    cases h

end MetadataCache

/-! ## The history of an entry -/

/-- Every entry of the cache is from the latest put for its path. -/
structure Stored (ops : List CacheOp) (c : MetadataCache) : Prop where
  stat : ∀ path e, c.statCache.lookup path = some e →
    Latest (CacheOp.ResetsStat path) (.putStatInfo path e.info e.cachedAt) ops
  dir : ∀ path e, c.dirCache.lookup path = some e →
    Latest (CacheOp.ResetsDir path) (.putDirEntries path e.entries e.cachedAt) ops

theorem Stored.step {ops : List CacheOp} {c : MetadataCache} (h : Stored ops c) (op : CacheOp)
    (hstat : c.StatOn) (hdir : c.DirOn) : Stored (ops ++ [op]) (c.step op) where
  stat := by
    intro path e he
    rcases MetadataCache.step_lookup_stat hstat he with rfl | ⟨he, hop⟩
    · exact latest_concat_self _ _ ops
    · exact (h.stat path e he).concat hop
  dir := by
    intro path e he
    rcases MetadataCache.step_lookup_dir hdir he with rfl | ⟨he, hop⟩
    · exact latest_concat_self _ _ ops
    · exact (h.dir path e he).concat hop

theorem stored_new (config : CacheConfig) : Stored [] (newMetadataCache config) where
  stat := by
    intro path e he
    cases he
  dir := by
    intro path e he
    cases he

/-- The setup is that of the new cache, and if the cache is enabled the
entries come from the history. -/
theorem stored_run (config : CacheConfig) (ops : List CacheOp) :
    let c := runFrom MetadataCache.step (newMetadataCache config) ops
    c.enabled = config.enableCache ∧ c.config = (newMetadataCache config).config ∧
      (config.enableCache = true → Stored ops c) := by
  obtain ⟨hstat, hdir⟩ := MetadataCache.new_ttl_ne_zero config
  refine runFrom_history
    (I := fun ops c => c.enabled = config.enableCache ∧
      c.config = (newMetadataCache config).config ∧ (config.enableCache = true → Stored ops c))
    ?_ ⟨MetadataCache.new_enabled config, rfl, fun _ => stored_new config⟩ ops
  rintro past c op ⟨hen, hconfig, h⟩
  obtain ⟨hen', hconfig'⟩ := c.step_setup op
  refine ⟨hen'.trans hen, hconfig'.trans hconfig, fun hon => ?_⟩
  rw [← hconfig] at hstat hdir
  exact (h hon).step op ⟨hen.trans hon, hstat⟩ ⟨hen.trans hon, hdir⟩

/-- **Hits are fresh and current.** A hit after any calls has the value of the
latest put for its path, made not longer than the TTL ago, and no invalidation
concerned it since. -/
theorem hits_current (config : CacheConfig) (ops : List CacheOp) (path : Str) (t : GoTime) :
    let c := runFrom MetadataCache.step (newMetadataCache config) ops
    (∀ info, c.getStatInfo path t = some info →
      ∃ t0, Latest (CacheOp.ResetsStat path) (.putStatInfo path info t0) ops ∧
        t - t0 ≤ (newMetadataCache config).config.statCacheTTL) ∧
    (∀ entries, c.getDirEntries path t = some entries →
      ∃ t0, Latest (CacheOp.ResetsDir path) (.putDirEntries path entries t0) ops ∧
        t - t0 ≤ (newMetadataCache config).config.dirCacheTTL) := by
  intro c
  obtain ⟨hen, hconfig, hstored⟩ := stored_run config ops
  rw [← hconfig]
  cases hon : config.enableCache with
  | false =>
    have hoff : c.enabled = false := hen.trans hon
    constructor
    · intro info h
      rw [MetadataCache.getStatInfo_disabled hoff] at h
      cases h
    · intro entries h
      rw [MetadataCache.getDirEntries_disabled hoff] at h
      cases h
  | true =>
    constructor
    · intro info h
      obtain ⟨e, he, rfl, hage⟩ := MetadataCache.getStatInfo_lookup h
      exact ⟨e.cachedAt, (hstored hon).stat path e he, hage⟩
    · intro entries h
      obtain ⟨e, he, rfl, hage⟩ := MetadataCache.getDirEntries_lookup h
      exact ⟨e.cachedAt, (hstored hon).dir path e he, hage⟩

/-- An empty file `a` put twice; the second result is the one that is found. -/
theorem hits_current_second :
    let config : CacheConfig := ⟨true, 5, 5, 10⟩
    let old : FileInfo := ⟨['a'], 0, 0, 0, false⟩
    let new : FileInfo := ⟨['a'], 0, 0, 1, false⟩
    let ops : List CacheOp :=
      [.putStatInfo ['/', 'a'] old 1, .putStatInfo ['/', 'a'] new 3, .invalidate ['/', 'b']]
    (runFrom MetadataCache.step (newMetadataCache config) ops).getStatInfo ['/', 'a'] 7 = some new ∧
      ∃ t0, Latest (CacheOp.ResetsStat ['/', 'a']) (.putStatInfo ['/', 'a'] new t0) ops ∧
        7 - t0 ≤ (5 : Int) := by
  intro config old new ops
  have hit : (runFrom MetadataCache.step (newMetadataCache config) ops).getStatInfo ['/', 'a'] 7 =
      some new := by decide
  exact ⟨hit, (hits_current config ops ['/', 'a'] 7).1 new hit⟩

end Smbfs.Client
