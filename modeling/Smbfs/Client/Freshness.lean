import Smbfs.Client.CacheEntries
import Smbfs.Client.FileSystem
import Smbfs.Client.Tree
import Smbfs.Lib.Relate

/-!
Fresh caches: every entry is what the share would answer now. `Fresh N D`
leaves out the stat entries of `N` and the listings of `D`, which a call on the
share may have made stale and `invalidate` then removes.
-/

namespace Smbfs.Client

open Smbfs.Lib

/-! ## Freshness -/

section Fresh

variable {S : Share} (pn : PathNormalizer)

structure Fresh (N D : Set Loc) (cache : MetadataCache) (d : S.Disk) : Prop where
  stat : ∀ l ∉ N, ∀ e, cache.statCache.lookup l.slash = some e →
    ∃ i, S.statOf d l = .ok i ∧ SameInfo e.info { i with name := pn.base l.slash }
  list : ∀ l ∉ D, ∀ e, cache.dirCache.lookup l.slash = some e →
    e.entries ≠ [] ∧ ∃ is, S.listOf d l = some is ∧ SameInfos e.entries (visible is)

variable {pn} {N D : Set Loc} {cache : MetadataCache} {d d' : S.Disk}

namespace Fresh

theorem mono {N' D' : Set Loc} (h : Fresh pn N D cache d) (hN : N ⊆ N') (hD : D ⊆ D') :
    Fresh pn N' D' cache d :=
  ⟨fun l hl => h.stat l fun hin => hl (hN hin), fun l hl => h.list l fun hin => hl (hD hin)⟩

/-- A new cache is empty. -/
theorem new (N D : Set Loc) (config : CacheConfig) (d : S.Disk) :
    Fresh pn N D (newMetadataCache config) d := by
  have hstat : (newMetadataCache config).statCache = ∅ := rfl
  have hdir : (newMetadataCache config).dirCache = ∅ := rfl
  constructor
  · intro l _ e he
    rw [hstat, AList.lookup_empty] at he
    cases he
  · intro l _ e he
    rw [hdir, AList.lookup_empty] at he
    cases he

section

variable (h : Fresh pn N D cache d)

include h

/-- A call makes stale at most what it changes. -/
theorem agree {A B : Set Loc} (hd : S.Agree A B d d') :
    Fresh pn (N ∪ A) (D ∪ B) cache d' := by
  constructor
  · intro l hl e he
    rw [Set.mem_union, not_or] at hl
    obtain ⟨i, hi, hsame⟩ := h.stat l hl.1 e he
    obtain ⟨i', hi', hsame'⟩ := hd.stat l hl.2 i hi
    exact ⟨i', hi', hsame.trans (hsame'.withName _)⟩
  · intro l hl e he
    rw [Set.mem_union, not_or] at hl
    obtain ⟨hne, is, his, hsame⟩ := h.list l hl.1 e he
    obtain ⟨is', his', hsame'⟩ := hd.list l hl.2 is his
    exact ⟨hne, is', his', hsame.trans hsame'.visible⟩

theorem putStatInfo {l : Loc} {i : FileInfo} (hi : S.statOf d l = .ok i) (now : GoTime) :
    Fresh pn N D (cache.putStatInfo l.slash { i with name := pn.base l.slash } now) d := by
  constructor
  · intro q hq e he
    rcases MetadataCache.putStatInfo_lookup he with ⟨hk, hinfo⟩ | he
    · cases Loc.slash_injective hk
      exact ⟨i, hi, hinfo ▸ .refl _⟩
    · exact h.stat q hq e he
  · exact fun q hq e he => h.list q hq e (MetadataCache.putStatInfo_dir he)

theorem putDirEntries {l : Loc} {is : List FileInfo} (his : S.listOf d l = some is)
    (hne : visible is ≠ []) (now : GoTime) :
    Fresh pn N D (cache.putDirEntries l.slash (visible is) now) d := by
  constructor
  · exact fun q hq e he => h.stat q hq e (MetadataCache.putDirEntries_stat he)
  · intro q hq e he
    rcases MetadataCache.putDirEntries_lookup he with ⟨hk, hentries⟩ | he
    · cases Loc.slash_injective hk
      rw [hentries]
      exact ⟨hne, is, his, .refl _⟩
    · exact h.list q hq e he

/-- **Invalidation.** The entries of the path and the listing of its parent
are no longer in the cache. -/
theorem invalidate (hon : cache.enabled = true) (l : Loc) :
    Fresh pn (N \ {l}) (D \ {l, l.parent}) (cache.invalidate l.slash) d := by
  have hinv : cache.invalidate l.slash =
      { cache with
        dirCache := (cache.dirCache.erase l.slash).erase l.parent.slash
        statCache := cache.statCache.erase l.slash } := by
    rw [MetadataCache.invalidate, l.getParentPath_slash, hon]
    rfl
  rw [hinv]
  constructor
  · intro q hq e he
    obtain ⟨hne, he⟩ := MetadataCache.lookup_of_lookup_erase he
    refine h.stat q (fun hin => hq ⟨hin, fun hql => hne ?_⟩) e he
    exact congrArg Loc.slash hql
  · intro q hq e he
    obtain ⟨hne', he⟩ := MetadataCache.lookup_of_lookup_erase he
    obtain ⟨hne, he⟩ := MetadataCache.lookup_of_lookup_erase he
    refine h.list q (fun hin => hq ⟨hin, ?_⟩) e he
    rintro (rfl | rfl)
    · exact hne rfl
    · exact hne' rfl

end

/-- A change of one file whose entries are then invalidated. -/
theorem changed {l : Loc} (h : Fresh pn ∅ D cache d) (hon : cache.enabled = true)
    (hd : S.Agree {l} {l, l.parent} d d') : Fresh pn ∅ D (cache.invalidate l.slash) d' := by
  refine ((h.agree hd).invalidate hon l).mono ?_ ?_
  · rintro q ⟨hq | hq, hne⟩
    · exact hq
    · exact hne hq
  · rintro q ⟨hq | hq, hne⟩
    · exact hq
    · exact absurd hq hne

/-- Entries that are not in the cache are not stale. -/
theorem restrict {N' D' : Set Loc} (h : Fresh pn N D cache d)
    (hN : ∀ q ∈ N, q ∉ N' → cache.statCache.lookup q.slash = none)
    (hD : ∀ q ∈ D, q ∉ D' → cache.dirCache.lookup q.slash = none) : Fresh pn N' D' cache d := by
  constructor
  · intro q hq e he
    by_cases hin : q ∈ N
    · rw [hN q hin hq] at he
      cases he
    · exact h.stat q hin e he
  · intro q hq e he
    by_cases hin : q ∈ D
    · rw [hD q hin hq] at he
      cases he
    · exact h.list q hin e he

/-- **Rename.** With no entry below the old name, the two invalidations are enough. -/
theorem renamed {l l' : Loc} (hS : TreeLike S) (h : Fresh pn ∅ ∅ cache d)
    (hon : cache.enabled = true) (hok : (S.exec (.rename l.smb l'.smb) d).1 = none)
    (hbelow : ∀ q : Loc, l.Covers q → q ≠ l →
      cache.statCache.lookup q.slash = none ∧ cache.dirCache.lookup q.slash = none) :
    Fresh pn ∅ ∅ ((cache.invalidate l.slash).invalidate l'.slash)
      (S.exec (.rename l.smb l'.smb) d).2 := by
  -- nothing that was moved has an entry, the two names themselves apart
  have hmoved : ∀ q ∈ moved l l', q ≠ l → q ≠ l' →
      cache.statCache.lookup q.slash = none ∧ cache.dirCache.lookup q.slash = none := by
    intro q hq hl hl'
    by_cases hcov : l.Covers q
    · exact hbelow q hcov hl
    · obtain ⟨hstat, hlist⟩ := hS.rename_empty l l' q d hok (hq.resolve_left hcov) hl' hcov
      constructor
      · cases he : cache.statCache.lookup q.slash with
        | none => rfl
        | some e =>
          obtain ⟨i, hi, _⟩ := h.stat q (by simp) e he
          exact absurd hi (hstat i)
      · cases he : cache.dirCache.lookup q.slash with
        | none => rfl
        | some e =>
          obtain ⟨_, is, his, _⟩ := h.list q (by simp) e he
          rw [hlist] at his
          cases his
  have hfresh : Fresh pn {l, l'} {l, l.parent, l', l'.parent} cache
      (S.exec (.rename l.smb l'.smb) d).2 := by
    refine (h.agree (hS.rename l l' d)).restrict ?_ ?_
    · rintro q (hq | hq) hne
      · cases hq
      · simp only [Set.mem_insert_iff, Set.mem_singleton_iff, not_or] at hne
        exact (hmoved q hq hne.1 hne.2).1
    · rintro q (hq | hq | hq) hne
      · cases hq
      · simp only [Set.mem_insert_iff, Set.mem_singleton_iff, not_or] at hne
        exact (hmoved q hq hne.1 hne.2.2.1).2
      · simp only [Set.mem_insert_iff, Set.mem_singleton_iff, not_or] at hne hq
        rcases hq with hq | hq
        · exact absurd hq hne.2.1
        · exact absurd hq hne.2.2.2
  refine ((hfresh.invalidate hon l).invalidate (by simpa using hon) l').mono ?_ ?_
  · rintro q ⟨⟨hq | hq, hne⟩, hne'⟩
    · exact hne hq
    · exact hne' hq
  · rintro q ⟨⟨hq, hne⟩, hne'⟩
    simp only [Set.mem_insert_iff, Set.mem_singleton_iff, not_or] at hq hne hne'
    tauto

end Fresh

end Fresh

end Smbfs.Client
