import Smbfs.Lib.GoMap
import Smbfs.Server.Backend

/-!
The metadata cache of the client: results of `Stat` and listings of
directories by normalised path, with the time they were stored and a list of
paths in the order of their last store. The time of a call is an argument.
-/

namespace Smbfs.Client

open Smbfs.Lib

/-- `CacheConfig`; durations in nanoseconds. -/
structure CacheConfig where
  enableCache : Bool
  dirCacheTTL : Int
  statCacheTTL : Int
  maxCacheEntries : Int

def defaultCacheConfig : CacheConfig := ⟨false, 5000000000, 5000000000, 1000⟩

structure DirCacheEntry where
  entries : List FileInfo
  cachedAt : GoTime

structure StatCacheEntry where
  info : FileInfo
  cachedAt : GoTime

structure MetadataCache where
  config : CacheConfig
  dirCache : GoMap Str DirCacheEntry
  statCache : GoMap Str StatCacheEntry
  accessOrder : List Str
  enabled : Bool

def newMetadataCache (config : CacheConfig) : MetadataCache :=
  let config := if config.maxCacheEntries = 0 then { config with maxCacheEntries := 1000 } else config
  let config := if config.dirCacheTTL = 0 then { config with dirCacheTTL := 5000000000 } else config
  let config := if config.statCacheTTL = 0 then { config with statCacheTTL := 5000000000 } else config
  ⟨config, ∅, ∅, [], config.enableCache⟩

/-- `getParentPath`: the path up to its last separator. -/
def getParentPath (path : Str) : Str :=
  if path = ['/'] ∨ path = [] then ['/']
  else
    match path.reverse.dropWhile (· ≠ '/') with
    | [] => ['/']
    | [_] => ['/']
    | _ :: before => before.reverse

namespace MetadataCache

def getDirEntries (c : MetadataCache) (path : Str) (now : GoTime) : Option (List FileInfo) :=
  if !c.enabled || c.config.dirCacheTTL = 0 then none
  else
    match c.dirCache.lookup path with
    | none => none
    | some entry =>
      if now - entry.cachedAt > c.config.dirCacheTTL then none else some entry.entries

def getStatInfo (c : MetadataCache) (path : Str) (now : GoTime) : Option FileInfo :=
  if !c.enabled || c.config.statCacheTTL = 0 then none
  else
    match c.statCache.lookup path with
    | none => none
    | some entry =>
      if now - entry.cachedAt > c.config.statCacheTTL then none else some entry.info

def trackAccess (c : MetadataCache) (path : Str) : MetadataCache :=
  { c with accessOrder := c.accessOrder.erase path ++ [path] }

/-- The loop of `evictIfNeeded`. -/
def evict : Nat → MetadataCache → MetadataCache
  | 0, c => c
  | n + 1, c =>
    match c.accessOrder with
    | [] => c
    | oldestPath :: rest =>
      evict n { c with
        accessOrder := rest
        dirCache := c.dirCache.erase oldestPath
        statCache := c.statCache.erase oldestPath }

def evictIfNeeded (c : MetadataCache) : MetadataCache :=
  let totalEntries : Int := c.dirCache.entries.length + c.statCache.entries.length
  if totalEntries ≤ c.config.maxCacheEntries then c
  else c.evict (totalEntries - c.config.maxCacheEntries).toNat

def putDirEntries (c : MetadataCache) (path : Str) (entries : List FileInfo) (now : GoTime) :
    MetadataCache :=
  if !c.enabled || c.config.dirCacheTTL = 0 then c
  else
    let c := { c with dirCache := c.dirCache.insert path ⟨entries, now⟩ }
    (c.trackAccess path).evictIfNeeded

def putStatInfo (c : MetadataCache) (path : Str) (info : FileInfo) (now : GoTime) :
    MetadataCache :=
  if !c.enabled || c.config.statCacheTTL = 0 then c
  else
    let c := { c with statCache := c.statCache.insert path ⟨info, now⟩ }
    (c.trackAccess path).evictIfNeeded

/-- `invalidate`: the entries of a path and the listing of its parent. The
access order keeps the path. -/
def invalidate (c : MetadataCache) (path : Str) : MetadataCache :=
  if !c.enabled then c
  else
    { c with
      dirCache := (c.dirCache.erase path).erase (getParentPath path)
      statCache := c.statCache.erase path }

def invalidateAll (c : MetadataCache) : MetadataCache :=
  if !c.enabled then c else { c with dirCache := ∅, statCache := ∅, accessOrder := [] }

end MetadataCache

/-! ## Runs -/

/-- The calls of the cache; `now` is what the call reads from the clock. -/
inductive CacheOp where
  | getDirEntries (path : Str) (now : GoTime)
  | putDirEntries (path : Str) (entries : List FileInfo) (now : GoTime)
  | getStatInfo (path : Str) (now : GoTime)
  | putStatInfo (path : Str) (info : FileInfo) (now : GoTime)
  | invalidate (path : Str)
  | invalidateAll

/-- The cache after a call; a lookup changes nothing. -/
def MetadataCache.step (c : MetadataCache) : CacheOp → MetadataCache
  | .getDirEntries _ _ => c
  | .putDirEntries path entries now => c.putDirEntries path entries now
  | .getStatInfo _ _ => c
  | .putStatInfo path info now => c.putStatInfo path info now
  | .invalidate path => c.invalidate path
  | .invalidateAll => c.invalidateAll

end Smbfs.Client
