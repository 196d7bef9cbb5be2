import Squiddish.Cache.Effects

/-!
# Index — the counter and the eviction order against whatever lies in the directory

The eviction order names the metadata files and the counter measures all files.  Both stay right as
long as no data lies about without metadata, and no metadata file is empty and without data: only
then do the sizes that `put` measures tell what is there.  Interrupted operations may leave other
things behind that do no harm, such as metadata without data.
-/

namespace Squiddish
namespace Cache

open Lib

/-! ## The directory -/

/-- The directory holds an entry of this hash. -/
def Stored (s : FileStore Path) (hashHex : Str) : Prop :=
  ∃ key : CacheKey, key.hashHex = hashHex ∧ (s.file key.metaPath).isSome = true

def isCacheFile (path : Path) : Bool :=
  match path.getLast? with
  | some name => extension name == some metaExt || extension name == some dataExt
  | none => false

/-- The total length of all `.meta` and `.data` files. -/
def cacheBytes (s : FileStore Path) : Nat :=
  s.total isCacheFile

theorem cacheBytes_congr {s t : FileStore Path} (h : t.file = s.file) :
    cacheBytes t = cacheBytes s := by
  have hnames : t.names = s.names := by
    ext p
    rw [FileStore.mem_names_iff_file, FileStore.mem_names_iff_file, h]
  have hsize : ∀ p, t.size p = s.size p :=
    fun p => FileStore.size_congr (congrFun h p)
  simp only [cacheBytes, FileStore.total, hnames, hsize]

@[simp] theorem isCacheFile_metaPath (key : CacheKey) : isCacheFile key.metaPath = true := by
  simp [CacheKey.metaPath_eq, entryPath, isCacheFile, extension_entry key dot_notMem_metaExt]

@[simp] theorem isCacheFile_dataPath (key : CacheKey) : isCacheFile key.dataPath = true := by
  simp [CacheKey.dataPath_eq, entryPath, isCacheFile, extension_entry key dot_notMem_dataExt]

theorem stored_iff {s : FileStore Path} {key : CacheKey} :
    Stored s key.hashHex ↔ (s.file key.metaPath).isSome = true := by
  constructor
  · rintro ⟨key', hhash, hfile⟩
    rwa [CacheKey.metaPath_inj.2 hhash] at hfile
  · intro h
    exact ⟨key, rfl, h⟩

/-! ## Removing an entry -/

section Drop

variable {s : FileStore Path} (key : CacheKey)

theorem cacheBytes_unlink {p : Path} (hp : isCacheFile p = true) :
    cacheBytes (s.unlink p) + s.size p = cacheBytes s := by
  have hagree := FileStore.total_of_agree (s := s) (t := s.unlink p) (p := p) isCacheFile
    (fun q hq => FileStore.file_unlink_of_ne hq)
  simpa [cacheBytes, hp, FileStore.size_of_absent FileStore.file_unlink_self] using hagree

theorem cacheBytes_dropFiles :
    cacheBytes (dropFiles key.filePath s) + (s.size key.metaPath + s.size key.dataPath) =
      cacheBytes s := by
  have hmeta := cacheBytes_unlink (s := s) (isCacheFile_metaPath key)
  have hdata := cacheBytes_unlink (s := s.unlink key.metaPath) (isCacheFile_dataPath key)
  have hsize : (s.unlink key.metaPath).size key.dataPath = s.size key.dataPath :=
    FileStore.size_congr (FileStore.file_unlink_of_ne CacheKey.metaPath_ne_dataPath.symm)
  have hdrop : dropFiles key.filePath s = (s.unlink key.metaPath).unlink key.dataPath := rfl
  rw [hdrop]
  omega

theorem stored_dropFiles (hashHex : Str) :
    Stored (dropFiles key.filePath s) hashHex ↔ Stored s hashHex ∧ hashHex ≠ key.hashHex := by
  constructor
  · rintro ⟨key', rfl, hfile⟩
    by_cases hhash : key'.hashHex = key.hashHex
    · have hnone : (dropFiles key.filePath s).file key.metaPath = none :=
        congrArg Prod.fst (pair_dropFiles_self key s)
      rw [CacheKey.metaPath_inj.2 hhash, hnone] at hfile
      simp at hfile
    · have hsame : (dropFiles key.filePath s).file key'.metaPath = s.file key'.metaPath :=
        congrArg Prod.fst (pair_dropFiles_of_ne hhash s)
      rw [hsame] at hfile
      exact ⟨⟨key', rfl, hfile⟩, hhash⟩
  · rintro ⟨⟨key', rfl, hfile⟩, hhash⟩
    have hsame : (dropFiles key.filePath s).file key'.metaPath = s.file key'.metaPath :=
      congrArg Prod.fst (pair_dropFiles_of_ne hhash s)
    exact ⟨key', rfl, by rw [hsame]; exact hfile⟩

theorem file_of_file_unlink {p q : Path} {bytes : Bytes} (h : (s.unlink p).file q = some bytes) :
    s.file q = some bytes := by
  by_cases hq : q = p
  · simp [hq] at h
  · rwa [FileStore.file_unlink_of_ne hq] at h

end Drop

/-! ## Writing an entry -/

section Save

variable {s : FileStore Path} {key : CacheKey}

theorem cacheBytes_save {p : Path} (bytes : Bytes) (hp : isCacheFile p = true)
    (habsent : s.file p = none) : cacheBytes (s.save p bytes) = cacheBytes s + bytes.length := by
  have hagree := FileStore.total_of_agree (s := s) (t := s.save p bytes) (p := p) isCacheFile
    (fun q hq => FileStore.file_save_of_ne bytes hq)
  simpa [cacheBytes, hp, FileStore.size_of_absent habsent,
    FileStore.size_of_file (FileStore.file_save_self bytes)] using hagree

theorem cacheBytes_saveEntry (key : CacheKey) (metaJson data : Bytes)
    (habsent : pair s key = (none, none)) :
    cacheBytes (saveEntry key metaJson data s) =
      cacheBytes s + (metaJson.length + data.length) := by
  have hmeta : s.file key.metaPath = none := congrArg Prod.fst habsent
  have hdata : (s.save key.metaPath metaJson).file key.dataPath = none := by
    rw [FileStore.file_save_of_ne metaJson CacheKey.metaPath_ne_dataPath.symm]
    exact congrArg Prod.snd habsent
  calc
    cacheBytes (saveEntry key metaJson data s) =
        cacheBytes (s.save key.metaPath metaJson) + data.length :=
      cacheBytes_save data (isCacheFile_dataPath key) hdata
    _ = cacheBytes s + metaJson.length + data.length := by
      rw [cacheBytes_save metaJson (isCacheFile_metaPath key) hmeta]
    _ = cacheBytes s + (metaJson.length + data.length) := by
      omega

theorem stored_saveEntry (metaJson data : Bytes) (hashHex : Str) :
    Stored (saveEntry key metaJson data s) hashHex ↔
      Stored s hashHex ∨ hashHex = key.hashHex := by
  have hself : (saveEntry key metaJson data s).file key.metaPath = some metaJson :=
    congrArg Prod.fst (pair_saveEntry_self key metaJson data s)
  have hother : ∀ key' : CacheKey, key'.hashHex ≠ key.hashHex →
      (saveEntry key metaJson data s).file key'.metaPath = s.file key'.metaPath :=
    fun key' hne => congrArg Prod.fst (pair_saveEntry_of_ne hne metaJson data s)
  constructor
  · rintro ⟨key', rfl, hfile⟩
    by_cases hhash : key'.hashHex = key.hashHex
    · exact .inr hhash
    · rw [hother key' hhash] at hfile
      exact .inl ⟨key', rfl, hfile⟩
  · rintro (⟨key', rfl, hfile⟩ | rfl)
    · by_cases hhash : key'.hashHex = key.hashHex
      · rw [hhash]
        exact ⟨key, rfl, by simp [hself]⟩
      · exact ⟨key', rfl, by rw [hother key' hhash]; exact hfile⟩
    · exact ⟨key, rfl, by simp [hself]⟩

end Save

/-! ## What can be indexed -/

/-- Every file belongs to an entry. -/
def Named (s : FileStore Path) : Prop :=
  ∀ p bytes, s.file p = some bytes → ∃ key : CacheKey, p = key.metaPath ∨ p = key.dataPath

/-- There is no data without metadata, and where there is metadata there are bytes. -/
structure Indexable (s : FileStore Path) : Prop where
  orphan : ∀ key : CacheKey, s.file key.metaPath = none → s.size key.dataPath = 0
  sized : ∀ key : CacheKey, (s.file key.metaPath).isSome = true →
    0 < s.size key.metaPath + s.size key.dataPath

/-- The old size tells whether there is metadata. -/
theorem Indexable.size_pos_iff {s : FileStore Path} (h : Indexable s) (key : CacheKey) :
    0 < s.size key.metaPath + s.size key.dataPath ↔ Stored s key.hashHex := by
  rw [stored_iff]
  refine ⟨fun hpos => ?_, h.sized key⟩
  cases hmeta : s.file key.metaPath with
  | none =>
      have hdata := h.orphan key hmeta
      have hzero := FileStore.size_of_absent hmeta
      omega
  | some metaJson =>
      rfl

section Steps

variable {s : FileStore Path} {key : CacheKey}

theorem size_of_pair {key : CacheKey} {s t : FileStore Path} (h : pair t key = pair s key) :
    t.size key.metaPath = s.size key.metaPath ∧ t.size key.dataPath = s.size key.dataPath :=
  ⟨FileStore.size_congr (congrArg Prod.fst h), FileStore.size_congr (congrArg Prod.snd h)⟩

variable (key) in
/-- Only the files of one key have changed, and those are in order. -/
theorem Indexable.of_key (h : Indexable s) {t : FileStore Path}
    (hother : ∀ key' : CacheKey, key'.hashHex ≠ key.hashHex → pair t key' = pair s key')
    (horphan : t.file key.metaPath = none → t.size key.dataPath = 0)
    (hsized : (t.file key.metaPath).isSome = true →
      0 < t.size key.metaPath + t.size key.dataPath) : Indexable t where
  orphan := by
    intro key' hmeta
    -- keys with the same hash have the same files
    by_cases hhash : key'.hashHex = key.hashHex
    · rw [CacheKey.metaPath_inj.2 hhash] at hmeta
      rw [CacheKey.dataPath_inj.2 hhash]
      exact horphan hmeta
    · have hpair := hother key' hhash
      rw [(size_of_pair hpair).2]
      exact h.orphan key' ((congrArg Prod.fst hpair).symm.trans hmeta)
  sized := by
    intro key' hmeta
    by_cases hhash : key'.hashHex = key.hashHex
    · rw [CacheKey.metaPath_inj.2 hhash] at hmeta ⊢
      rw [CacheKey.dataPath_inj.2 hhash]
      exact hsized hmeta
    · have hpair := hother key' hhash
      have hfile : t.file key'.metaPath = s.file key'.metaPath := congrArg Prod.fst hpair
      rw [(size_of_pair hpair).1, (size_of_pair hpair).2]
      exact h.sized key' (hfile ▸ hmeta)

theorem Named.dropFiles (h : Named s) (key : CacheKey) : Named (dropFiles key.filePath s) :=
  fun p bytes hp => h p bytes (file_of_file_unlink (file_of_file_unlink hp))

theorem Named.saveEntry (h : Named s) (metaJson data : Bytes) :
    Named (saveEntry key metaJson data s) := by
  intro p bytes hp
  by_cases hmeta : p = key.metaPath
  · exact ⟨key, .inl hmeta⟩
  · by_cases hdata : p = key.dataPath
    · exact ⟨key, .inr hdata⟩
    · have hsame : (Cache.saveEntry key metaJson data s).file p = s.file p := by
        simp [Cache.saveEntry, FileStore.file_save_of_ne data hdata,
          FileStore.file_save_of_ne metaJson hmeta]
      exact h p bytes (hsame ▸ hp)

theorem Indexable.dropFiles (h : Indexable s) (key : CacheKey) :
    Indexable (dropFiles key.filePath s) := by
  have hself := pair_dropFiles_self key s
  have hmeta : (Cache.dropFiles key.filePath s).file key.metaPath = none :=
    congrArg Prod.fst hself
  refine h.of_key key (fun key' hne => pair_dropFiles_of_ne hne s) (fun _ => ?_) ?_
  · exact FileStore.size_of_absent (congrArg Prod.snd hself)
  · simp [hmeta]

theorem Indexable.saveEntry (h : Indexable s) {metaJson : Bytes} (hjson : metaJson ≠ [])
    (data : Bytes) : Indexable (saveEntry key metaJson data s) := by
  have hself : (Cache.saveEntry key metaJson data s).file key.metaPath = some metaJson :=
    congrArg Prod.fst (pair_saveEntry_self key metaJson data s)
  have hsize := FileStore.size_of_file hself
  have hpos := List.length_pos_of_ne_nil hjson
  refine h.of_key key (fun key' hne => pair_saveEntry_of_ne hne metaJson data s) ?_ ?_
  · simp [hself]
  · intro _
    omega

end Steps

/-! ## The order and the counter -/

/-- The order names each hash with metadata once and no other hash. -/
structure Listed (s : FileStore Path) (order : List Str) : Prop where
  named : Named s
  indexable : Indexable s
  nodup : order.Nodup
  stored : ∀ hashHex, hashHex ∈ order ↔ Stored s hashHex

namespace Listed

variable {s : FileStore Path} {order : List Str}

theorem dropFiles (h : Listed s order) (key : CacheKey) :
    Listed (dropFiles key.filePath s) (order.filter (fun hex => hex ≠ key.hashHex)) where
  named := h.named.dropFiles key
  indexable := h.indexable.dropFiles key
  nodup := h.nodup.filter _
  stored := by
    intro hashHex
    rw [stored_dropFiles, ← h.stored hashHex]
    simp

theorem dropFiles_head {key : CacheKey} (h : Listed s (key.hashHex :: order)) :
    Listed (Cache.dropFiles key.filePath s) order := by
  have hdrop := h.dropFiles key
  have hnotMem : key.hashHex ∉ order := (List.nodup_cons.1 h.nodup).1
  have hfilter : (key.hashHex :: order).filter (fun hex => hex ≠ key.hashHex) = order := by
    rw [List.filter_cons_of_neg (by simp)]
    refine List.filter_eq_self.2 ?_
    intro hex hhex
    have hne : hex ≠ key.hashHex := fun heq => hnotMem (heq ▸ hhex)
    simpa using hne
  rwa [hfilter] at hdrop

theorem saveEntry (h : Listed s order) {key : CacheKey} {metaJson : Bytes}
    (hjson : metaJson ≠ []) (data : Bytes) (hnew : key.hashHex ∉ order) :
    Listed (saveEntry key metaJson data s) (order ++ [key.hashHex]) where
  named := h.named.saveEntry metaJson data
  indexable := h.indexable.saveEntry hjson data
  nodup := by
    refine List.Nodup.append h.nodup (List.nodup_singleton _) ?_
    intro hex hhex hmem
    have heq : hex = key.hashHex := by
      simpa using hmem
    exact hnew (heq ▸ hhex)
  stored := by
    intro hashHex
    rw [stored_saveEntry, ← h.stored hashHex]
    simp

/-- Where no metadata is stored there are no bytes. -/
theorem cacheBytes_of_nil (h : Listed s []) : cacheBytes s = 0 := by
  refine FileStore.total_eq_zero isCacheFile ?_
  intro p _
  cases hp : s.file p with
  | none =>
      exact FileStore.size_of_absent hp
  | some bytes =>
      rcases h.named p bytes hp with ⟨key, hkey⟩
      have hmeta : s.file key.metaPath = none := by
        have hnot : ¬ Stored s key.hashHex :=
          fun hfile => List.not_mem_nil ((h.stored key.hashHex).2 hfile)
        simpa [stored_iff] using hnot
      rcases hkey with rfl | rfl
      · exact FileStore.size_of_absent hmeta
      · exact h.indexable.orphan key hmeta

end Listed

/-- The counter is the length of the files. -/
structure Counted (s : FileStore Path) (cache : DiskCache) : Prop where
  listed : Listed s cache.evictionOrder
  size : cache.currentSize = cacheBytes s

/-! ## Making room -/

section Evict

variable {P : FileStore Path → Prop} (hP : ∀ s (key : CacheKey), P s → P (dropFiles key.filePath s))

include hP

/-- The loop ends with enough room or with nothing left to evict, and what it says it has freed
is what the directory has lost.  What every removal keeps is kept. -/
theorem evictLoop_listed {currentSize : Nat} (targetSize freed : Nat) {order : List Str}
    {s : FileStore Path} (h : Listed s order) (hs : P s)
    (hsize : cacheBytes s + freed = currentSize) :
    ∃ freed' order' t,
      perform (evictLoop currentSize targetSize order freed) s = ((some freed', order'), t) ∧
        Listed t order' ∧ P t ∧ order'.Sublist order ∧ cacheBytes t + freed' = currentSize ∧
        (currentSize - freed' ≤ targetSize ∨ order' = []) := by
  induction order generalizing freed s with
  | nil =>
      exact ⟨freed, [], s, rfl, h, hs, List.Sublist.refl _, hsize, .inr rfl⟩
  | cons hashHex order ih =>
      by_cases hdone : currentSize - freed ≤ targetSize
      · refine ⟨freed, hashHex :: order, s, ?_, h, hs, List.Sublist.refl _, hsize, .inl hdone⟩
        simp [evictLoop, hdone]
      -- the first hash names an entry, whose files are measured and removed
      · rcases (h.stored hashHex).1 (by simp) with ⟨key, rfl, _⟩
        have hdrop := h.dropFiles_head
        have hbytes := cacheBytes_dropFiles (s := s) key
        rcases ih (freed + (s.size key.metaPath + s.size key.dataPath)) hdrop (hP s key hs)
          (by omega) with ⟨freed', order', t, hexec, hlisted, ht, hsub, hsize', hend⟩
        refine ⟨freed', order', t, ?_, hlisted, ht, hsub.cons _, hsize', hend⟩
        have hpaths : withExtension key.filePath metaExt = key.metaPath ∧
            withExtension key.filePath dataExt = key.dataPath := ⟨rfl, rfl⟩
        simpa [evictLoop, hdone, filePathFromHash_hashHex, hpaths] using hexec

theorem evictIfNeeded_counted {s : FileStore Path} {cache : DiskCache} (neededSize : Nat)
    (h : Counted s cache) (hs : P s) :
    ∃ cache' t,
      perform (evictIfNeeded neededSize cache) s = ((.ok (), cache'), t) ∧ Counted t cache' ∧ P t ∧
        cache'.maxSize = cache.maxSize ∧
        cache'.evictionOrder.Sublist cache.evictionOrder ∧
        (cache'.currentSize + neededSize ≤ cache'.maxSize ∨
          cache'.currentSize ≤ cache'.maxSize - neededSize ∨ cache'.evictionOrder = []) := by
  by_cases hfits : cache.currentSize + neededSize ≤ cache.maxSize
  · exact ⟨cache, s, by simp [evictIfNeeded, hfits], h, hs, rfl, List.Sublist.refl _, .inl hfits⟩
  · rcases evictLoop_listed hP (cache.maxSize - neededSize) 0 h.listed hs
      (by simpa using h.size.symm) with ⟨freed, order, t, hexec, hlisted, ht, hsub, hsize, hend⟩
    refine ⟨{ cache with currentSize := cache.currentSize - freed, evictionOrder := order }, t,
      ?_, ⟨hlisted, ?_⟩, ht, rfl, hsub, .inr hend⟩
    · simp [evictIfNeeded, hfits, hexec]
    · show cache.currentSize - freed = cacheBytes t
      omega

end Evict

/-! ## The operations -/

section Operations

variable {s : FileStore Path} {cache : DiskCache}

/-- Whether the clean-up of the order runs or not, the order is without the hash after it. -/
theorem retained_order (h : Listed s cache.evictionOrder) (key : CacheKey) :
    (if 0 < s.size key.metaPath + s.size key.dataPath then cache.retainOther key.hashHex
      else cache) = cache.retainOther key.hashHex := by
  by_cases hpos : 0 < s.size key.metaPath + s.size key.dataPath
  · simp [hpos]
  -- no bytes were measured, so there is no metadata and the order has no such hash
  · have hnot : key.hashHex ∉ cache.evictionOrder := by
      rw [h.stored, ← h.indexable.size_pos_iff key]
      exact hpos
    have hfilter : cache.evictionOrder.filter (fun hex => hex ≠ key.hashHex) =
        cache.evictionOrder := by
      refine List.filter_eq_self.2 ?_
      intro hex hhex
      have hne : hex ≠ key.hashHex := fun heq => hnot (heq ▸ hhex)
      simpa using hne
    simp only [hpos, if_false, DiskCache.retainOther, hfilter]

theorem replaceEntry_counted (h : Counted s cache) (key : CacheKey) (entry : CacheEntry)
    {metaJson : Bytes} (hjson : metaJson ≠ []) :
    ∃ cache',
      perform (DiskCache.replaceEntry key entry metaJson cache) s =
        ((.ok (), cache'), saveEntry key metaJson entry.data (dropFiles key.filePath s)) ∧
        Counted (saveEntry key metaJson entry.data (dropFiles key.filePath s)) cache' ∧
        cache'.maxSize = cache.maxSize ∧
        cache'.currentSize ≤ cache.currentSize + (metaJson.length + entry.data.length) ∧
        cache'.evictionOrder =
          cache.evictionOrder.filter (fun hex => hex ≠ key.hashHex) ++ [key.hashHex] := by
  have hexec := perform_replaceEntry key entry metaJson cache s
  simp only [afterReplace, retained_order h.listed key] at hexec
  refine ⟨_, hexec, ⟨?_, ?_⟩, rfl, ?_, rfl⟩
  · refine Listed.saveEntry (h.listed.dropFiles key) hjson entry.data ?_
    simp
  · have hbytes := cacheBytes_dropFiles (s := s) key
    have hsave := cacheBytes_saveEntry (s := dropFiles key.filePath s) key metaJson entry.data
      (pair_dropFiles_self key s)
    have hsize := h.size
    simp only [DiskCache.retainOther]
    omega
  · simp only [DiskCache.retainOther]
    omega

theorem remove_counted (h : Counted s cache) (key : CacheKey) :
    Counted (dropFiles key.filePath s)
      (afterRemove key (s.size key.metaPath + s.size key.dataPath) cache) where
  listed := h.listed.dropFiles key
  size := by
    have hbytes := cacheBytes_dropFiles (s := s) key
    have hsize := h.size
    simp only [afterRemove, DiskCache.retainOther]
    omega

end Operations

end Cache
end Squiddish
