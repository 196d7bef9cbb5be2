import Squiddish.Cache.Index

/-!
# Balance — the counter and the eviction order against a directory of complete entries

`Balanced s cache` says that the directory holds complete entries only, that the eviction order
names each of them once, and that the counter is the length of their files and within the limit.
Every operation keeps it when no file-system step fails.
-/

namespace Squiddish
namespace Cache

open Lib

/-! ## The directory -/

/-- The directory holds complete entries and nothing else. -/
structure CompleteEntries (s : FileStore Path) : Prop where
  named : ∀ p bytes, s.file p = some bytes →
    ∃ key : CacheKey, p = key.metaPath ∨ p = key.dataPath
  complete : ∀ key : CacheKey, pair s key = (none, none) ∨
    ∃ metaJson data, metaJson ≠ [] ∧ pair s key = (some metaJson, some data)

namespace CompleteEntries

variable {s : FileStore Path}

theorem indexable (h : CompleteEntries s) : Indexable s where
  orphan := by
    intro key hmeta
    rcases h.complete key with hnone | ⟨metaJson, data, _, hsome⟩
    · exact FileStore.size_of_absent (congrArg Prod.snd hnone)
    · have hmeta' : s.file key.metaPath = some metaJson := congrArg Prod.fst hsome
      simp [hmeta] at hmeta'
  sized := by
    intro key hmeta
    rcases h.complete key with hnone | ⟨metaJson, data, hjson, hsome⟩
    · have hmeta' : s.file key.metaPath = none := congrArg Prod.fst hnone
      simp [hmeta'] at hmeta
    · have hsize := FileStore.size_of_file (congrArg Prod.fst hsome)
      have hpos := List.length_pos_of_ne_nil hjson
      omega

theorem dropFiles (h : CompleteEntries s) (key : CacheKey) :
    CompleteEntries (dropFiles key.filePath s) where
  named := Named.dropFiles h.named key
  complete := by
    intro key'
    by_cases hhash : key'.hashHex = key.hashHex
    · left
      have hself := pair_dropFiles_self key s
      rw [pair, CacheKey.metaPath_inj.2 hhash, CacheKey.dataPath_inj.2 hhash]
      exact hself
    · rw [pair_dropFiles_of_ne hhash s]
      exact h.complete key'

theorem saveEntry (h : CompleteEntries s) {key : CacheKey} {metaJson : Bytes}
    (hjson : metaJson ≠ []) (data : Bytes) :
    CompleteEntries (saveEntry key metaJson data s) where
  named := Named.saveEntry h.named metaJson data
  complete := by
    intro key'
    by_cases hhash : key'.hashHex = key.hashHex
    · right
      refine ⟨metaJson, data, hjson, ?_⟩
      rw [pair, CacheKey.metaPath_inj.2 hhash, CacheKey.dataPath_inj.2 hhash]
      exact pair_saveEntry_self key metaJson data s
    · rw [pair_saveEntry_of_ne hhash]
      exact h.complete key'

end CompleteEntries

/-! ## The eviction order -/

/-- The order names each stored hash once and no other hash. -/
structure Tracked (s : FileStore Path) (order : List Str) : Prop where
  complete : CompleteEntries s
  nodup : order.Nodup
  stored : ∀ hashHex, hashHex ∈ order ↔ Stored s hashHex

namespace Tracked

variable {s : FileStore Path} {order : List Str}

theorem listed (h : Tracked s order) : Listed s order where
  named := h.complete.named
  indexable := h.complete.indexable
  nodup := h.nodup
  stored := h.stored

theorem of_listed (h : Listed s order) (hcomplete : CompleteEntries s) : Tracked s order where
  complete := hcomplete
  nodup := h.nodup
  stored := h.stored

theorem dropFiles (h : Tracked s order) (key : CacheKey) :
    Tracked (dropFiles key.filePath s) (order.filter (fun hex => hex ≠ key.hashHex)) :=
  .of_listed (h.listed.dropFiles key) (h.complete.dropFiles key)

theorem saveEntry (h : Tracked s order) {key : CacheKey} {metaJson : Bytes}
    (hjson : metaJson ≠ []) (data : Bytes) (hnew : key.hashHex ∉ order) :
    Tracked (saveEntry key metaJson data s) (order ++ [key.hashHex]) :=
  .of_listed (h.listed.saveEntry hjson data hnew) (h.complete.saveEntry hjson data)

/-- Where nothing is stored there are no bytes. -/
theorem cacheBytes_of_nil (h : Tracked s []) : cacheBytes s = 0 :=
  h.listed.cacheBytes_of_nil

end Tracked

/-- The counter is the length of the files and within the limit. -/
structure Balanced (s : FileStore Path) (cache : DiskCache) : Prop where
  tracked : Tracked s cache.evictionOrder
  size : cache.currentSize = cacheBytes s
  bound : cache.currentSize ≤ cache.maxSize

/-- Only what stands in the files matters. -/
theorem Balanced.congr {s t : FileStore Path} {cache : DiskCache} (h : Balanced s cache)
    (hfile : t.file = s.file) : Balanced t cache where
  tracked :=
    { complete :=
        { named := by
            rw [hfile]
            exact h.tracked.complete.named
          complete := by
            intro key
            rw [pair, hfile]
            exact h.tracked.complete.complete key }
      nodup := h.tracked.nodup
      stored := by
        intro hashHex
        rw [Stored, hfile]
        exact h.tracked.stored hashHex }
  size := h.size.trans (cacheBytes_congr hfile).symm
  bound := h.bound

/-! ## The operations -/

section Operations

variable {s : FileStore Path} {cache : DiskCache}

theorem Balanced.counted (h : Balanced s cache) : Counted s cache where
  listed := h.tracked.listed
  size := h.size

theorem Balanced.of_counted (h : Counted s cache) (hcomplete : CompleteEntries s)
    (hbound : cache.currentSize ≤ cache.maxSize) : Balanced s cache where
  tracked := .of_listed h.listed hcomplete
  size := h.size
  bound := hbound

theorem evictIfNeeded_spec {neededSize : Nat} (h : Balanced s cache)
    (hneeded : neededSize ≤ cache.maxSize) :
    ∃ cache' t,
      perform (evictIfNeeded neededSize cache) s = ((.ok (), cache'), t) ∧ Balanced t cache' ∧
        cache'.maxSize = cache.maxSize ∧
        cache'.evictionOrder.Sublist cache.evictionOrder ∧
        cache'.currentSize + neededSize ≤ cache'.maxSize := by
  rcases evictIfNeeded_counted (P := CompleteEntries) (fun _ key hs => hs.dropFiles key)
    neededSize h.counted h.tracked.complete with
    ⟨cache', t, hexec, hcounted, hcomplete, hmax, hsub, hend⟩
  have hroom : cache'.currentSize + neededSize ≤ cache'.maxSize := by
    rcases hend with hfits | hleft | hnil
    · exact hfits
    · omega
    -- all entries are gone, so no bytes are left and the new entry fits
    · have htracked : Tracked t [] := hnil ▸ .of_listed hcounted.listed hcomplete
      have hzero := htracked.cacheBytes_of_nil
      have hsize := hcounted.size
      omega
  exact ⟨cache', t, hexec, .of_counted hcounted hcomplete (by omega), hmax, hsub, hroom⟩

theorem replaceEntry_spec (h : Balanced s cache) (key : CacheKey) {entry : CacheEntry}
    {metaJson : Bytes} (hjson : metaJson ≠ [])
    (hroom : cache.currentSize + (metaJson.length + entry.data.length) ≤ cache.maxSize) :
    ∃ cache' t,
      perform (DiskCache.replaceEntry key entry metaJson cache) s = ((.ok (), cache'), t) ∧
        Balanced t cache' ∧ cache'.maxSize = cache.maxSize ∧
        cache'.evictionOrder =
          cache.evictionOrder.filter (fun hex => hex ≠ key.hashHex) ++ [key.hashHex] := by
  rcases replaceEntry_counted h.counted key entry hjson with
    ⟨cache', hexec, hcounted, hmax, hle, horder⟩
  refine ⟨cache', _, hexec, .of_counted hcounted ?_ (by omega), hmax, horder⟩
  exact (h.tracked.complete.dropFiles key).saveEntry hjson entry.data

/-- A put drops old entries from the front of the order and has its own at the end. -/
theorem put_spec {S : Serde} (hS : S.NonEmpty) (h : Balanced s cache) (key : CacheKey)
    (entry : CacheEntry) :
    ∃ r cache' t, perform (DiskCache.put S key entry cache) s = ((r, cache'), t) ∧
      Balanced t cache' ∧ cache'.maxSize = cache.maxSize ∧
      cache'.evictionOrder.Sublist (if fits S cache.maxSize entry then
        cache.evictionOrder.filter (fun hex => hex ≠ key.hashHex) ++ [key.hashHex]
        else cache.evictionOrder) ∧
      (fits S cache.maxSize entry = true → key.hashHex ∈ cache'.evictionOrder) := by
  cases hfits : fits S cache.maxSize entry with
  | false =>
      rcases perform_put_of_not_fits hfits key s with ⟨r, hexec⟩
      exact ⟨r, cache, s, hexec, h, rfl, by simp, by simp⟩
  | true =>
      rcases fits_eq_true.1 hfits with ⟨metaJson, hjson, hle⟩
      rcases evictIfNeeded_spec h hle with
        ⟨cache₁, s₁, hevict, hbalanced, hmax, hsub, hroom⟩
      rcases replaceEntry_spec hbalanced key (hS _ _ hjson) hroom with
        ⟨cache₂, s₂, hreplace, hbalanced', hmax', horder⟩
      refine ⟨.ok (), cache₂, s₂, ?_, hbalanced', hmax'.trans hmax, ?_, fun _ => ?_⟩
      · rw [put_of_fits hjson hle]
        simp [hevict, hreplace]
      -- what is left of the order, without the key, and the key at its end
      · rw [horder, if_pos rfl]
        exact (hsub.filter _).append (List.Sublist.refl _)
      · rw [horder]
        exact List.mem_append_right _ (List.mem_singleton_self _)

theorem remove_spec (h : Balanced s cache) (key : CacheKey) :
    ∃ cache' t, perform (DiskCache.remove key cache) s = ((.ok (), cache'), t) ∧
      Balanced t cache' ∧ cache'.maxSize = cache.maxSize ∧
      cache'.evictionOrder.Sublist cache.evictionOrder := by
  have hbound : cache.currentSize - (s.size key.metaPath + s.size key.dataPath) ≤
      cache.maxSize :=
    (Nat.sub_le _ _).trans h.bound
  exact ⟨_, _, perform_remove key cache s,
    .of_counted (remove_counted h.counted key) (h.tracked.complete.dropFiles key) hbound, rfl,
    List.filter_sublist⟩

end Operations

end Cache
end Squiddish
