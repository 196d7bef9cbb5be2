import Squiddish.Cache.Accounting
import Squiddish.Lib.Fifo

/-!
# Refinement — the disk cache is a bounded first-in first-out map

`HoldsMap S s m` says that the directory `s` holds exactly the bindings of the map `m`, from hashes
to entries, and that their metadata files were written in the order of the map.  Every operation
that does not fail, and every reopening, keeps the directory, the counter and the eviction order in
step with the map.
-/

namespace Squiddish
namespace Cache

open Lib

/-! ## The directory and the map -/

/-- The bytes of an entry on the disk. -/
def diskSize (S : Serde) (entry : CacheEntry) : Nat :=
  match S.toVec entry.metadata with
  | .ok metaJson => metaJson.length + entry.data.length
  | .error _ => 0

theorem diskSize_of_toVec {S : Serde} {entry : CacheEntry} {metaJson : Bytes}
    (h : S.toVec entry.metadata = .ok metaJson) :
    diskSize S entry = metaJson.length + entry.data.length := by
  simp [diskSize, h]

/-- When the metadata file of this hash was written. -/
def metaTime (s : FileStore Path) (hashHex : Str) : Nat :=
  s.modifiedAt (entryPath hashHex metaExt)

structure HoldsMap (S : Serde) (s : FileStore Path) (m : Fifo Str CacheEntry) : Prop where
  tracked : Tracked s m.keys
  files : ∀ (key : CacheKey) entry, (key.hashHex, entry) ∈ m →
    ∃ metaJson, S.toVec entry.metadata = .ok metaJson ∧
      pair s key = (some metaJson, some entry.data)
  sorted : m.keys.Pairwise (fun a b => metaTime s a < metaTime s b)

/-- All metadata files were written before this time. -/
def OlderThan (now : Nat) (s : FileStore Path) (m : Fifo Str CacheEntry) : Prop :=
  ∀ hashHex ∈ m.keys, metaTime s hashHex < now

/-- The metadata file of another hash is none of the two files of the key. -/
theorem entryPath_metaExt_ne {key : CacheKey} {hashHex : Str} (h : hashHex ≠ key.hashHex) :
    entryPath hashHex metaExt ≠ key.metaPath ∧ entryPath hashHex metaExt ≠ key.dataPath := by
  rw [CacheKey.metaPath_eq, CacheKey.dataPath_eq]
  constructor
  · exact fun heq => h (entryPath_inj rfl heq).1
  · exact fun heq => metaExt_ne_dataExt (entryPath_inj length_metaExt heq).2

theorem metaTime_dropFiles {key : CacheKey} {hashHex : Str} (h : hashHex ≠ key.hashHex)
    (s : FileStore Path) : metaTime (dropFiles key.filePath s) hashHex = metaTime s hashHex := by
  obtain ⟨hmeta, hdata⟩ := entryPath_metaExt_ne h
  exact (FileStore.modifiedAt_unlink_of_ne hdata).trans (FileStore.modifiedAt_unlink_of_ne hmeta)

theorem metaTime_saveEntry_of_ne {key : CacheKey} {hashHex : Str} (h : hashHex ≠ key.hashHex)
    (metaJson data : Bytes) (s : FileStore Path) :
    metaTime (saveEntry key metaJson data s) hashHex = metaTime s hashHex := by
  obtain ⟨hmeta, hdata⟩ := entryPath_metaExt_ne h
  exact (FileStore.modifiedAt_save_of_ne data hdata).trans
    (FileStore.modifiedAt_save_of_ne metaJson hmeta)

theorem metaTime_saveEntry_self (key : CacheKey) (metaJson data : Bytes) (s : FileStore Path) :
    metaTime (saveEntry key metaJson data s) key.hashHex = s.clock := by
  rw [metaTime, ← CacheKey.metaPath_eq]
  exact (FileStore.modifiedAt_save_of_ne data CacheKey.metaPath_ne_dataPath).trans
    (FileStore.modifiedAt_save_self metaJson)

section Map

variable {S : Serde} {s : FileStore Path} {m : Fifo Str CacheEntry} {now : Nat}

namespace HoldsMap

theorem empty (now : Nat) : HoldsMap S (FileStore.empty now) [] where
  tracked :=
    { complete := CompleteEntries.empty now
      nodup := List.nodup_nil
      stored := by
        intro hashHex
        constructor
        · intro h
          cases h
        · rintro ⟨key, _, hfile⟩
          cases hfile }
  files := by simp
  sorted := .nil

theorem setClock (h : HoldsMap S s m) (now : Nat) : HoldsMap S (s.setClock now) m where
  tracked :=
    { complete :=
        { named := h.tracked.complete.named
          complete := h.tracked.complete.complete }
      nodup := h.tracked.nodup
      stored := h.tracked.stored }
  files := h.files
  sorted := h.sorted

/-- The files of an entry are removed. -/
theorem erase (h : HoldsMap S s m) (key : CacheKey) :
    HoldsMap S (dropFiles key.filePath s) (m.erase key.hashHex) where
  tracked := by
    rw [Fifo.keys_erase]
    exact h.tracked.dropFiles key
  files := by
    intro key' entry hmem
    rcases List.mem_filter.1 hmem with ⟨hmem, hne⟩
    rw [pair_dropFiles_of_ne (by simpa using hne)]
    exact h.files key' entry hmem
  sorted := by
    rw [Fifo.keys_erase]
    refine (h.sorted.filter _).imp_of_mem ?_
    intro a b ha hb hab
    have hane : a ≠ key.hashHex := by
      simpa using (List.mem_filter.1 ha).2
    have hbne : b ≠ key.hashHex := by
      simpa using (List.mem_filter.1 hb).2
    rwa [metaTime_dropFiles hane, metaTime_dropFiles hbne]

theorem olderThan_erase (hold : OlderThan now s m) (key : CacheKey) :
    OlderThan now (dropFiles key.filePath s) (m.erase key.hashHex) := by
  intro hashHex hmem
  rw [Fifo.keys_erase] at hmem
  rcases List.mem_filter.1 hmem with ⟨hmem, hne⟩
  rw [metaTime_dropFiles (by simpa using hne)]
  exact hold hashHex hmem

theorem erase_head {key : CacheKey} {entry : CacheEntry}
    (h : HoldsMap S s ((key.hashHex, entry) :: m)) :
    Fifo.erase key.hashHex ((key.hashHex, entry) :: m) = m := by
  have hnot : key.hashHex ∉ m.keys := (List.nodup_cons.1 h.tracked.nodup).1
  have hcons : Fifo.erase key.hashHex ((key.hashHex, entry) :: m) = m.erase key.hashHex :=
    List.filter_cons_of_neg (by simp)
  rw [hcons, Fifo.erase_of_notMem hnot]

/-- An entry that is not there is written, later than all others. -/
theorem save (h : HoldsMap S s m) {key : CacheKey} {entry : CacheEntry} {metaJson : Bytes}
    (hS : S.NonEmpty) (hjson : S.toVec entry.metadata = .ok metaJson)
    (hnew : key.hashHex ∉ m.keys) (hold : OlderThan s.clock s m) :
    HoldsMap S (saveEntry key metaJson entry.data s) (m ++ [(key.hashHex, entry)]) where
  tracked := by
    have htracked := h.tracked.saveEntry (hS _ _ hjson) entry.data hnew
    simpa [Fifo.keys] using htracked
  files := by
    intro key' entry' hmem
    have hne_of_mem : ∀ e, (key'.hashHex, e) ∈ m → key'.hashHex ≠ key.hashHex :=
      fun e he heq => hnew (heq ▸ List.mem_map_of_mem he)
    rcases List.mem_append.1 hmem with hmem | hmem
    · rw [pair_saveEntry_of_ne (hne_of_mem entry' hmem)]
      exact h.files key' entry' hmem
    · have hboth : key'.hashHex = key.hashHex ∧ entry' = entry := by
        simpa using hmem
      rcases hboth with ⟨hhash, rfl⟩
      refine ⟨metaJson, hjson, ?_⟩
      rw [pair, CacheKey.metaPath_inj.2 hhash, CacheKey.dataPath_inj.2 hhash]
      exact pair_saveEntry_self key metaJson entry'.data s
  sorted := by
    have hne : ∀ a ∈ m.keys, a ≠ key.hashHex := fun a ha heq => hnew (heq ▸ ha)
    rw [Fifo.keys, List.map_append]
    -- the old ones keep their times, and the new one is later than all of them
    refine List.pairwise_append.2 ⟨?_, List.pairwise_singleton _ _, ?_⟩
    · refine h.sorted.imp_of_mem ?_
      intro a b ha hb hab
      rwa [metaTime_saveEntry_of_ne (hne a ha), metaTime_saveEntry_of_ne (hne b hb)]
    · intro a ha b hb
      have hb' : b = key.hashHex := by
        simpa using hb
      rw [hb', metaTime_saveEntry_of_ne (hne a ha), metaTime_saveEntry_self]
      exact hold a ha

/-- The files are as long as the map is heavy. -/
theorem cacheBytes_eq (h : HoldsMap S s m) : cacheBytes s = m.total (diskSize S) := by
  induction m generalizing s with
  | nil =>
      exact h.tracked.cacheBytes_of_nil
  | cons p m ih =>
      rcases p with ⟨hashHex, entry⟩
      rcases (h.tracked.stored hashHex).1 List.mem_cons_self with ⟨key, rfl, -⟩
      have hdrop := h.erase key
      rw [h.erase_head] at hdrop
      rcases h.files key entry List.mem_cons_self with ⟨metaJson, hjson, hpair⟩
      have hmeta := FileStore.size_of_file (congrArg Prod.fst hpair)
      have hdata := FileStore.size_of_file (congrArg Prod.snd hpair)
      -- the files of the first entry, and those of the others
      calc
        cacheBytes s =
            cacheBytes (dropFiles key.filePath s) +
              (s.size key.metaPath + s.size key.dataPath) := (cacheBytes_dropFiles key).symm
        _ = Fifo.total (diskSize S) m + (metaJson.length + entry.data.length) := by
              rw [ih hdrop, hmeta, hdata]
        _ = Fifo.total (diskSize S) m + diskSize S entry := by
              rw [diskSize_of_toVec hjson]
        _ = Fifo.total (diskSize S) ((key.hashHex, entry) :: m) := by
              rw [Fifo.total_cons, Nat.add_comm]

/-- Reading an entry gives what the map binds its hash to. -/
theorem get (h : HoldsMap S s m) (hS : S.RoundTrip) (key : CacheKey) :
    (perform (DiskCache.get S key) s).1 = .ok (m.get key.hashHex) := by
  cases hget : m.get key.hashHex with
  | none =>
      have hnot := Fifo.get_eq_none.1 hget
      rw [h.tracked.stored, stored_iff] at hnot
      exact get_of_meta_absent S (by simpa using hnot)
  | some entry =>
      rcases h.files key entry (Fifo.mem_of_get hget) with ⟨metaJson, hjson, hpair⟩
      exact get_of_pair hS hjson hpair

end HoldsMap

/-! ## Making room -/

/-- The loop forgets what the map forgets. -/
theorem evictLoop_refines {currentSize : Nat} (targetSize freed : Nat) (h : HoldsMap S s m)
    (hsize : cacheBytes s + freed = currentSize) :
    ∃ freed' t, perform (evictLoop currentSize targetSize m.keys freed) s =
        ((some freed', (m.evict (diskSize S) targetSize).keys), t) ∧
      HoldsMap S t (m.evict (diskSize S) targetSize) ∧ cacheBytes t + freed' = currentSize ∧
      t.clock = s.clock ∧
      ∀ now, OlderThan now s m → OlderThan now t (m.evict (diskSize S) targetSize) := by
  induction m generalizing freed s with
  | nil =>
      exact ⟨freed, s, rfl, h, hsize, rfl, fun _ hold => hold⟩
  | cons p m ih =>
      rcases p with ⟨hashHex, entry⟩
      have htotal := h.cacheBytes_eq
      -- the loop compares what is left of the counter, the map what is left of its weight
      have hdone : currentSize - freed ≤ targetSize ↔
          Fifo.total (diskSize S) ((hashHex, entry) :: m) ≤ targetSize := by
        rw [← htotal]
        omega
      by_cases hfits : Fifo.total (diskSize S) ((hashHex, entry) :: m) ≤ targetSize
      · rw [Fifo.evict, if_pos hfits]
        refine ⟨freed, s, ?_, h, hsize, rfl, fun _ hold => hold⟩
        simp [evictLoop, Fifo.keys, hdone.2 hfits]
      · rw [Fifo.evict, if_neg hfits]
        rcases (h.tracked.stored hashHex).1 List.mem_cons_self with ⟨key, rfl, -⟩
        have hdrop := h.erase key
        -- the first entry goes, and the others keep their times
        have holder : ∀ now, OlderThan now s ((key.hashHex, entry) :: m) →
            OlderThan now (dropFiles key.filePath s) m := by
          intro now hold
          have herase := HoldsMap.olderThan_erase hold key
          rwa [h.erase_head] at herase
        rw [h.erase_head] at hdrop
        have hbytes := cacheBytes_dropFiles (s := s) key
        rcases ih (freed + (s.size key.metaPath + s.size key.dataPath)) hdrop (by omega) with
          ⟨freed', t, hexec, hholds, hsize', hclock, hold'⟩
        refine ⟨freed', t, ?_, hholds, hsize', hclock, fun now hold => hold' now (holder now hold)⟩
        have hpaths : withExtension key.filePath metaExt = key.metaPath ∧
            withExtension key.filePath dataExt = key.dataPath := ⟨rfl, rfl⟩
        have hnot := mt hdone.1 hfits
        simpa [evictLoop, Fifo.keys, hnot, filePathFromHash_hashHex, hpaths] using hexec

/-! ## The cache and the map -/

/-- The open cache is in step with the map. -/
structure Represents (S : Serde) (maxSize : Nat) (m : Fifo Str CacheEntry) (s : OpenCache) :
    Prop where
  holds : HoldsMap S s.files m
  limit : s.cache.maxSize = maxSize
  order : s.cache.evictionOrder = m.keys
  size : s.cache.currentSize = m.total (diskSize S)
  bound : m.total (diskSize S) ≤ maxSize

namespace Represents

variable {u : OpenCache} {maxSize : Nat}

theorem balanced (h : Represents S maxSize m u) : Balanced u.files u.cache where
  tracked := h.order ▸ h.holds.tracked
  size := h.size.trans h.holds.cacheBytes_eq.symm
  bound := by
    rw [h.size, h.limit]
    exact h.bound

theorem evictIfNeeded (h : Represents S maxSize m u) (neededSize : Nat)
    (hneeded : neededSize ≤ maxSize) :
    ∃ v : OpenCache, perform (Cache.evictIfNeeded neededSize u.cache) u.files =
        ((.ok (), v.cache), v.files) ∧
      Represents S maxSize (m.evict (diskSize S) (maxSize - neededSize)) v ∧
      v.files.clock = u.files.clock ∧
      ∀ now, OlderThan now u.files m →
        OlderThan now v.files (m.evict (diskSize S) (maxSize - neededSize)) := by
  have htotal := h.size
  obtain rfl := h.limit
  by_cases hfits : u.cache.currentSize + neededSize ≤ u.cache.maxSize
  · have hroom : m.total (diskSize S) ≤ u.cache.maxSize - neededSize := by
      omega
    rw [Fifo.evict_of_le (diskSize S) hroom]
    exact ⟨u, by simp [Cache.evictIfNeeded, hfits], h, rfl, fun _ hold => hold⟩
  · have hbytes := h.holds.cacheBytes_eq
    rcases evictLoop_refines (u.cache.maxSize - neededSize) 0 h.holds
      (by simpa using hbytes.trans htotal.symm) with ⟨freed, t, hexec, hholds, hsize, hclock, hold⟩
    have hleft := Fifo.total_evict_le (diskSize S) (u.cache.maxSize - neededSize) m
    have hbytes' := hholds.cacheBytes_eq
    refine ⟨{ files := t
              cache :=
                { u.cache with
                  currentSize := u.cache.currentSize - freed
                  evictionOrder := (m.evict (diskSize S) (u.cache.maxSize - neededSize)).keys } },
      ?_, ⟨hholds, rfl, rfl, ?_, ?_⟩, hclock, hold⟩
    · rw [← h.order] at hexec
      simp [Cache.evictIfNeeded, hfits, hexec]
    · show u.cache.currentSize - freed = _
      omega
    · omega

/-- A put that is accepted inserts. -/
theorem put (h : Represents S maxSize m u) (hS : S.NonEmpty) (key : CacheKey) {entry : CacheEntry}
    (hfits : fits S maxSize entry = true) (hold : OlderThan u.files.clock u.files m) :
    ∃ v : OpenCache, perform (DiskCache.put S key entry u.cache) u.files =
        ((.ok (), v.cache), v.files) ∧
      Represents S maxSize (m.insert (diskSize S) maxSize key.hashHex entry) v := by
  rcases fits_eq_true.1 hfits with ⟨metaJson, hjson, hle⟩
  rcases h.evictIfNeeded (metaJson.length + entry.data.length) hle with
    ⟨v, hevict, hv, hclock, holdv⟩
  -- the old entry of the key goes, if there is one, then the new one is written last
  have hdrop := hv.holds.erase key
  have hnot : key.hashHex ∉
      ((m.evict (diskSize S) (maxSize - diskSize S entry)).erase key.hashHex).keys :=
    Fifo.get_eq_none.1 Fifo.get_erase_self
  rw [← diskSize_of_toVec hjson] at hdrop holdv hv
  have hsave := hdrop.save hS hjson hnot
    (HoldsMap.olderThan_erase (by
      show OlderThan v.files.clock v.files _
      rw [hclock]
      exact holdv _ hold) key)
  have hreplace := perform_replaceEntry key entry metaJson v.cache v.files
  simp only [afterReplace, retained_order hv.balanced.tracked.listed key] at hreplace
  simp only [DiskCache.retainOther] at hreplace
  have hbytes := cacheBytes_dropFiles (s := v.files) key
  have hleft := hdrop.cacheBytes_eq
  have hsize := hv.balanced.size
  refine ⟨{ files := saveEntry key metaJson entry.data (dropFiles key.filePath v.files)
            cache :=
              { maxSize := v.cache.maxSize
                currentSize :=
                  v.cache.currentSize - (v.files.size key.metaPath + v.files.size key.dataPath) +
                    (metaJson.length + entry.data.length)
                evictionOrder :=
                  v.cache.evictionOrder.filter (fun hex => hex ≠ key.hashHex) ++
                    [key.hashHex] } }, ?_, ⟨hsave, hv.limit, ?_, ?_, ?_⟩⟩
  · rw [put_of_fits hjson (by rwa [h.limit])]
    simp [hevict, hreplace]
  · rw [Fifo.insert, Fifo.keys, List.map_append, ← Fifo.keys, Fifo.keys_erase, hv.order]
    rfl
  · rw [Fifo.insert, Fifo.total_append, ← hleft, Fifo.total_cons, Fifo.total_nil,
      diskSize_of_toVec hjson]
    show v.cache.currentSize - _ + _ = _
    omega
  · have hroom := Fifo.total_evict_le (diskSize S) (maxSize - diskSize S entry) m
    have hwhole := hv.holds.cacheBytes_eq
    rw [Fifo.insert, Fifo.total_append, ← hleft, Fifo.total_cons, Fifo.total_nil]
    rw [← diskSize_of_toVec hjson] at hle
    show cacheBytes _ + (diskSize S entry + 0) ≤ maxSize
    omega

theorem remove (h : Represents S maxSize m u) (key : CacheKey) :
    ∃ v : OpenCache, perform (DiskCache.remove key u.cache) u.files =
        ((.ok (), v.cache), v.files) ∧ Represents S maxSize (m.erase key.hashHex) v := by
  have hdrop := h.holds.erase key
  have hbytes := cacheBytes_dropFiles (s := u.files) key
  have hleft := hdrop.cacheBytes_eq
  have hsize := h.balanced.size
  have hbound := h.bound
  have hwhole := h.holds.cacheBytes_eq
  refine ⟨{ files := dropFiles key.filePath u.files
            cache := afterRemove key (u.files.size key.metaPath + u.files.size key.dataPath)
              u.cache }, perform_remove key u.cache u.files, ⟨hdrop, h.limit, ?_, ?_, ?_⟩⟩
  · simp only [afterRemove, DiskCache.retainOther, h.order, Fifo.keys_erase]
  · simp only [afterRemove, DiskCache.retainOther]
    omega
  · omega

/-- Reopening the cache finds it as it was. -/
theorem new (h : Represents S maxSize m u) {walk : List Path}
    (hwalk : walk.Perm u.files.names.toList) :
    perform (DiskCache.new maxSize walk) u.files = (.ok u.cache, u.files) := by
  have hbytes : cacheBytes u.files ≤ maxSize := h.holds.cacheBytes_eq.symm ▸ h.bound
  rcases new_spec h.holds.tracked.complete hwalk hbytes with
    ⟨cache, hnew, hbalanced, hmax, holdest⟩
  -- the walk finds the hashes of the map, and sorts them by the times of their files
  have hperm : cache.evictionOrder.Perm m.keys := by
    refine (List.perm_ext_iff_of_nodup hbalanced.tracked.nodup h.holds.tracked.nodup).2 ?_
    intro hashHex
    rw [hbalanced.tracked.stored, h.holds.tracked.stored]
  have hsorted : m.keys.Pairwise (fun a b => metaTime u.files a ≤ metaTime u.files b) :=
    h.holds.sorted.imp fun hab => Nat.le_of_lt hab
  -- two keys of the map with the same time are the same
  have horder : cache.evictionOrder = m.keys := by
    refine hperm.eq_of_pairwise ?_ holdest hsorted
    intro a b ha hb hab hba
    have hnodup : (m.keys.map (metaTime u.files)).Nodup :=
      List.pairwise_map.2 (h.holds.sorted.imp Nat.ne_of_lt)
    exact List.inj_on_of_nodup_map hnodup (hperm.mem_iff.1 ha) hb (Nat.le_antisymm hab hba)
  have hcache : cache = u.cache := by
    have hsize : cache.currentSize = u.cache.currentSize :=
      hbalanced.size.trans h.balanced.size.symm
    rcases hcache : cache with ⟨max, size, order⟩
    rcases hcache' : u.cache with ⟨max', size', order'⟩
    have hmax' := h.limit
    have horder' := h.order
    simp_all
  rw [hnew, hcache]

end Represents

end Map

end Cache
end Squiddish
