import Smbfs.Client.CacheBound
import Smbfs.Client.CacheHistory
import Smbfs.Lib.Recency

/-!
The access order of the cache. A put uses its path and drops the paths that it
evicts; an invalidation deletes entries and leaves their paths in the order.

* `history`: what a run does to the paths;
* `accessOrder_recent`: the access order is the order of the latest puts, and
  every path with an entry is in it.
-/

namespace Smbfs.Client

open Smbfs.Lib

namespace MetadataCache

/-- The paths that `evictIfNeeded` takes. -/
def oldest (c : MetadataCache) : List Str :=
  c.accessOrder.take (c.total - c.config.maxCacheEntries).toNat

/-- A put of `path` whose entry is in the cache already. -/
def putUses (c : MetadataCache) (path : Str) : List (Use Str) :=
  .put path :: (c.trackAccess path).oldest.map .drop

def uses (c : MetadataCache) : CacheOp → List (Use Str)
  | .putStatInfo path info now => (c.withStat path ⟨info, now⟩).putUses path
  | .putDirEntries path entries now => (c.withDir path ⟨entries, now⟩).putUses path
  | .invalidateAll => [.clear]
  | .invalidate _ | .getStatInfo _ _ | .getDirEntries _ _ => []

theorem evict_owns (c : MetadataCache) (n : Nat) (path : Str) :
    (c.evict n).Owns path ↔ c.Owns path ∧ path ∉ c.accessOrder.take n := by
  rw [evict_eq]
  simp only [Owns, GoMap.mem_eraseAll]
  exact or_and_right.symm

/-- The access order follows the history and covers the entries. -/
structure Covers (past : List (Use Str)) (c : MetadataCache) : Prop where
  order : c.accessOrder = recent past
  owned : ∀ path, c.Owns path → path ∈ c.accessOrder

variable {past : List (Use Str)} {c c' : MetadataCache} {path : Str}

theorem Covers.put {stored : Prop} (h : Covers past c) (hadds : c.Adds c' path stored) :
    Covers (past ++ c'.putUses path) (c'.trackAccess path).evictIfNeeded := by
  have htracked : (c'.trackAccess path).accessOrder = recent (past ++ [.put path]) := by
    rw [recent_put, ← h.order, ← hadds.order]
    rfl
  have howned : ∀ q, (c'.trackAccess path).Owns q → q ∈ (c'.trackAccess path).accessOrder := by
    intro q hq
    rw [htracked, recent_put, ← h.order, List.mem_append, List.mem_singleton]
    rcases (hadds.owns q).mp hq with rfl | hq
    · exact .inr rfl
    · by_cases hne : q = path
      · exact .inr hne
      · exact .inl ((List.mem_erase_of_ne hne).mpr (h.owned q hq))
  rw [evictIfNeeded_eq]
  constructor
  · rw [putUses, List.append_cons, oldest, htracked, recent_drops, evict_eq, ← htracked]
  · intro q hq
    obtain ⟨hq, hkept⟩ := (evict_owns _ _ q).mp hq
    rw [evict_eq]
    refine (List.mem_append.mp ?_).resolve_left hkept
    rw [List.take_append_drop]
    exact howned q hq

theorem Covers.invalidate (h : Covers past c) (hon : c.enabled = true) :
    Covers past (c.invalidate path) := by
  rw [invalidate_on hon]
  refine ⟨h.order, fun q hq => h.owned q ?_⟩
  simp only [Owns, AList.mem_erase] at hq
  exact hq.imp (fun hdir => hdir.2.2) (fun hstat => hstat.2)

theorem covers_cleared (past : List (Use Str)) (hon : c.enabled = true) :
    Covers (past ++ [.clear]) c.invalidateAll := by
  rw [invalidateAll_on hon]
  refine ⟨(recent_clear past).symm, fun q hq => ?_⟩
  rcases hq with hq | hq <;> exact absurd hq (AList.notMem_empty q)

theorem Covers.step (h : Covers past c) (hstat : c.StatOn) (hdir : c.DirOn) (op : CacheOp) :
    Covers (past ++ c.uses op) (c.step op) := by
  cases op with
  | getDirEntries path now | getStatInfo path now =>
    rw [uses, List.append_nil]
    exact h
  | putStatInfo path info now =>
    rw [MetadataCache.step, putStatInfo_on path info now hstat]
    exact h.put (c.adds_withStat path ⟨info, now⟩)
  | putDirEntries path entries now =>
    rw [MetadataCache.step, putDirEntries_on path entries now hdir]
    exact h.put (c.adds_withDir path ⟨entries, now⟩)
  | invalidate path =>
    rw [uses, List.append_nil]
    exact h.invalidate hstat.1
  | invalidateAll => exact covers_cleared past hstat.1

end MetadataCache

/-- The puts and evictions of a run, and the calls that clear the cache. -/
def history (config : CacheConfig) (ops : List CacheOp) : List (Use Str) :=
  (collect MetadataCache.step (fun c op => some (c.uses op)) (newMetadataCache config) ops).flatten

/-- **Access order.** After every run of an enabled cache the access order has no
path twice, has the paths that were put and neither evicted nor cleared since, in
the order of their latest puts, and covers the cache: an eviction of `n` paths
takes the entries of the `n` oldest, and there is none that it cannot reach. -/
theorem accessOrder_recent (config : CacheConfig) (hon : config.enableCache = true)
    (ops : List CacheOp) :
    let c := runFrom MetadataCache.step (newMetadataCache config) ops
    c.accessOrder.Nodup ∧ c.accessOrder = recent (history config ops) ∧
      (∀ path, c.Owns path → path ∈ c.accessOrder) ∧
      (∀ n path, (c.evict n).Owns path ↔ c.Owns path ∧ path ∉ c.accessOrder.take n) ∧
      ∀ path, ¬ (c.evict c.accessOrder.length).Owns path := by
  intro c
  have hnew : (newMetadataCache config).enabled = true :=
    (MetadataCache.new_enabled config).trans hon
  obtain ⟨-, -, hcovers⟩ : c.StatOn ∧ c.DirOn ∧ c.Covers (history config ops) := by
    refine runFrom_collect (I := fun uses c => MetadataCache.StatOn c ∧ MetadataCache.DirOn c ∧
      MetadataCache.Covers (List.flatten uses) c) ?_ ?_ ops
    · rintro past c op ⟨hstat, hdir, hcovers⟩
      obtain ⟨henabled, hconfig⟩ := c.step_setup op
      refine ⟨?_, ?_, ?_⟩
      · rwa [MetadataCache.StatOn, henabled, hconfig]
      · rwa [MetadataCache.DirOn, henabled, hconfig]
      · rw [List.flatten_append]
        simpa using hcovers.step hstat hdir op
    · obtain ⟨hstat, hdir⟩ := MetadataCache.new_ttl_ne_zero config
      refine ⟨⟨hnew, hstat⟩, ⟨hnew, hdir⟩, rfl, fun q hq => ?_⟩
      rcases hq with hq | hq <;> exact absurd hq (AList.notMem_empty q)
  refine ⟨?_, hcovers.order, hcovers.owned, c.evict_owns, ?_⟩
  · rw [hcovers.order]
    exact recent_nodup _
  · intro path hleft
    obtain ⟨howns, hkept⟩ := (c.evict_owns _ path).mp hleft
    rw [List.take_length] at hkept
    exact hkept (hcovers.owned path howns)

/-- A cache of two entries: `/a` is put again, so that `/b` is the oldest. -/
theorem accessOrder_recent_two :
    let info : FileInfo := ⟨['f'], 0, 0, 0, false⟩
    let c := runFrom MetadataCache.step (newMetadataCache ⟨true, 5, 5, 2⟩)
      [.putStatInfo ['/', 'a'] info 1, .putStatInfo ['/', 'b'] info 2,
        .putStatInfo ['/', 'a'] info 3, .putStatInfo ['/', 'c'] info 4]
    c.accessOrder = [['/', 'a'], ['/', 'c']] ∧ ∀ path, c.Owns path → path ∈ c.accessOrder :=
  ⟨by decide, (accessOrder_recent ⟨true, 5, 5, 2⟩ rfl _).2.2.1⟩

end Smbfs.Client
