import Squiddish.Cache.Disk

/-!
# Effects — what the functions of the disk cache leave when no step of them fails

The file store is seen through the pair of files of each entry:

* `dropFiles base` : both files of an entry are gone;
* `saveEntry key metaJson data` : both files of an entry are written;
* `pair s key` : what stands in the two files of an entry.
-/

namespace Squiddish
namespace Cache

open Lib

/-- The result and the final store when every call succeeds that can. -/
abbrev perform {α : Type} (p : DiskProg α) (s : FileStore Path) : α × FileStore Path :=
  p.exec FileOp.apply s

/-- The metadata and the data of an entry. -/
def pair (s : FileStore Path) (key : CacheKey) : Option Bytes × Option Bytes :=
  (s.file key.metaPath, s.file key.dataPath)

theorem pair_of_agree {s t : FileStore Path} {key key' : CacheKey}
    (hhash : key'.hashHex ≠ key.hashHex)
    (hagree : ∀ q, q ≠ key.metaPath → q ≠ key.dataPath → t.file q = s.file q) :
    pair t key' = pair s key' := by
  have hmeta : t.file key'.metaPath = s.file key'.metaPath :=
    hagree _ (fun heq => hhash (CacheKey.metaPath_inj.1 heq)) CacheKey.metaPath_ne_dataPath
  have hdata : t.file key'.dataPath = s.file key'.dataPath :=
    hagree _ CacheKey.metaPath_ne_dataPath.symm (fun heq => hhash (CacheKey.dataPath_inj.1 heq))
  rw [pair, pair, hmeta, hdata]

/-! ## Removing -/

def dropFiles (base : Path) (s : FileStore Path) : FileStore Path :=
  (s.unlink (withExtension base metaExt)).unlink (withExtension base dataExt)

@[simp] theorem perform_removeFiles (base : Path) (s : FileStore Path) :
    perform (removeFiles base) s =
      (s.size (withExtension base metaExt) + s.size (withExtension base dataExt),
        dropFiles base s) := by
  simp [removeFiles, dropFiles]

@[simp] theorem perform_removeEntry (key : CacheKey) (s : FileStore Path) :
    perform (removeEntry key) s =
      (s.size key.metaPath + s.size key.dataPath, dropFiles key.filePath s) :=
  perform_removeFiles key.filePath s

/-- The files of an entry go together: a removal takes both or none. -/
theorem pair_dropFiles (base : Path) (s : FileStore Path) (key : CacheKey) :
    pair (dropFiles base s) key = (none, none) ∨ pair (dropFiles base s) key = pair s key := by
  have hmeta : key.metaPath ≠ withExtension base dataExt :=
    fun h => withExtension_data_ne base key h.symm
  have hdata : key.dataPath ≠ withExtension base metaExt :=
    fun h => withExtension_meta_ne base key h.symm
  by_cases h : withExtension base metaExt = key.metaPath
  · left
    -- the path of an entry is that of one key, with its metadata and its data
    have h' := (withExtension_pair base key).1 h
    simp [pair, dropFiles, h, h', FileStore.file_unlink_of_ne CacheKey.metaPath_ne_dataPath]
  · right
    have h' : ¬ withExtension base dataExt = key.dataPath :=
      fun hd => h ((withExtension_pair base key).2 hd)
    simp [pair, dropFiles, FileStore.file_unlink_of_ne hmeta, FileStore.file_unlink_of_ne hdata,
      FileStore.file_unlink_of_ne (Ne.symm h), FileStore.file_unlink_of_ne (Ne.symm h')]

theorem pair_dropFiles_self (key : CacheKey) (s : FileStore Path) :
    pair (dropFiles key.filePath s) key = (none, none) := by
  have hmeta : withExtension key.filePath metaExt = key.metaPath := rfl
  have hdata : withExtension key.filePath dataExt = key.dataPath := rfl
  simp [pair, dropFiles, hmeta, hdata,
    FileStore.file_unlink_of_ne CacheKey.metaPath_ne_dataPath]

theorem pair_dropFiles_of_ne {key key' : CacheKey} (h : key'.hashHex ≠ key.hashHex)
    (s : FileStore Path) : pair (dropFiles key.filePath s) key' = pair s key' := by
  refine pair_of_agree h ?_
  intro q hmeta hdata
  have hdrop : dropFiles key.filePath s = (s.unlink key.metaPath).unlink key.dataPath := rfl
  rw [hdrop, FileStore.file_unlink_of_ne hdata, FileStore.file_unlink_of_ne hmeta]

/-- An eviction takes entries away and leaves the others as they are. -/
theorem pair_evictLoop (currentSize targetSize : Nat) (order : List Str) (freed : Nat)
    (s : FileStore Path) (key : CacheKey) :
    pair (perform (evictLoop currentSize targetSize order freed) s).2 key = (none, none) ∨
      pair (perform (evictLoop currentSize targetSize order freed) s).2 key = pair s key := by
  induction order generalizing freed s with
  | nil =>
      exact .inr rfl
  | cons hashHex order ih =>
      by_cases hdone : currentSize - freed ≤ targetSize
      · right
        simp [evictLoop, hdone]
      · cases hbase : filePathFromHash hashHex with
        | none =>
            right
            simp [evictLoop, hdone, hbase]
        | some base =>
            have hrest := ih (freed + (s.size (withExtension base metaExt) +
              s.size (withExtension base dataExt))) (dropFiles base s)
            -- one turn of the loop removes the files of the first hash, then the loop goes on
            have hexec : (perform (evictLoop currentSize targetSize (hashHex :: order) freed) s).2 =
                (perform (evictLoop currentSize targetSize order
                  (freed + (s.size (withExtension base metaExt) +
                    s.size (withExtension base dataExt)))) (dropFiles base s)).2 := by
              simp [evictLoop, hdone, hbase]
            rw [hexec]
            -- what is gone stays gone; what was left may have gone in this turn
            rcases hrest with hrest | hrest
            · exact .inl hrest
            · rcases pair_dropFiles base s key with hdrop | hdrop
              · exact .inl (hrest.trans hdrop)
              · exact .inr (hrest.trans hdrop)

theorem pair_evictIfNeeded (neededSize : Nat) (cache : DiskCache) (s : FileStore Path)
    (key : CacheKey) :
    pair (perform (evictIfNeeded neededSize cache) s).2 key = (none, none) ∨
      pair (perform (evictIfNeeded neededSize cache) s).2 key = pair s key := by
  by_cases hfits : cache.currentSize + neededSize ≤ cache.maxSize
  · right
    simp [evictIfNeeded, hfits]
  · have hloop := pair_evictLoop cache.currentSize (cache.maxSize - neededSize)
      cache.evictionOrder 0 s key
    cases hres : (perform (evictLoop cache.currentSize (cache.maxSize - neededSize)
      cache.evictionOrder 0) s).1.1 with
    | none =>
        simpa [evictIfNeeded, hfits, hres] using hloop
    | some freed =>
        simpa [evictIfNeeded, hfits, hres] using hloop

/-! ## Writing -/

def saveEntry (key : CacheKey) (metaJson data : Bytes) (s : FileStore Path) : FileStore Path :=
  (s.save key.metaPath metaJson).save key.dataPath data

@[simp] theorem perform_writeEntry (key : CacheKey) (entry : CacheEntry) (metaJson : Bytes)
    (s : FileStore Path) :
    perform (writeEntry key entry metaJson) s =
      (.ok (metaJson.length + entry.data.length), saveEntry key metaJson entry.data s) := by
  simp [writeEntry, FileOp.apply, saveEntry]

theorem pair_saveEntry_self (key : CacheKey) (metaJson data : Bytes) (s : FileStore Path) :
    pair (saveEntry key metaJson data s) key = (some metaJson, some data) := by
  simp [pair, saveEntry, FileStore.file_save_of_ne data CacheKey.metaPath_ne_dataPath]

theorem pair_saveEntry_of_ne {key key' : CacheKey} (h : key'.hashHex ≠ key.hashHex)
    (metaJson data : Bytes) (s : FileStore Path) :
    pair (saveEntry key metaJson data s) key' = pair s key' := by
  refine pair_of_agree h ?_
  intro q hmeta hdata
  rw [saveEntry, FileStore.file_save_of_ne data hdata, FileStore.file_save_of_ne metaJson hmeta]

/-! ## The operations -/

/-- Whether `put` writes this entry: its metadata has a text, and both fit into the cache. -/
def fits (S : Serde) (maxSize : Nat) (entry : CacheEntry) : Bool :=
  match S.toVec entry.metadata with
  | .ok metaJson => decide (metaJson.length + entry.data.length ≤ maxSize)
  | .error _ => false

theorem fits_eq_true {S : Serde} {maxSize : Nat} {entry : CacheEntry} :
    fits S maxSize entry = true ↔ ∃ metaJson, S.toVec entry.metadata = .ok metaJson ∧
      metaJson.length + entry.data.length ≤ maxSize := by
  cases hjson : S.toVec entry.metadata with
  | error text =>
      simp [fits, hjson]
  | ok metaJson =>
      simp [fits, hjson]

/-- Metadata without a text makes `put` fail before it does anything. -/
theorem perform_put_of_error {S : Serde} {entry : CacheEntry} {text : Str}
    (hjson : S.toVec entry.metadata = .error text) (key : CacheKey) (cache : DiskCache)
    (s : FileStore Path) :
    ∃ e, perform (DiskCache.put S key entry cache) s = ((.error e, cache), s) := by
  refine ⟨.error (.cache ("Failed to serialize metadata: ".toList ++ text)), ?_⟩
  simp only [DiskCache.put, hjson, perform, Prog.exec_ret]

/-- An entry larger than the whole cache is not written, and this is no error. -/
theorem perform_put_of_large {S : Serde} {entry : CacheEntry} {cache : DiskCache}
    {metaJson : Bytes} (hjson : S.toVec entry.metadata = .ok metaJson)
    (hlarge : cache.maxSize < metaJson.length + entry.data.length) (key : CacheKey)
    (s : FileStore Path) :
    perform (DiskCache.put S key entry cache) s = ((.ok (), cache), s) := by
  simp [DiskCache.put, hjson, hlarge]

theorem perform_put_of_not_fits {S : Serde} {entry : CacheEntry} {cache : DiskCache}
    (h : fits S cache.maxSize entry = false) (key : CacheKey) (s : FileStore Path) :
    ∃ r, perform (DiskCache.put S key entry cache) s = ((r, cache), s) := by
  cases hjson : S.toVec entry.metadata with
  | error text =>
      rcases perform_put_of_error hjson key cache s with ⟨e, hexec⟩
      exact ⟨.error e, hexec⟩
  | ok metaJson =>
      have hlarge : cache.maxSize < metaJson.length + entry.data.length := by
        simpa [fits, hjson] using h
      exact ⟨.ok (), perform_put_of_large hjson hlarge key s⟩

/-- An entry that fits is written after room has been made. -/
theorem put_of_fits {S : Serde} {entry : CacheEntry} {cache : DiskCache} {metaJson : Bytes}
    (hjson : S.toVec entry.metadata = .ok metaJson)
    (hfits : metaJson.length + entry.data.length ≤ cache.maxSize) (key : CacheKey) :
    DiskCache.put S key entry cache =
      (evictIfNeeded (metaJson.length + entry.data.length) cache >>= fun r =>
        match r.1 with
        | .error e => .ret (.error e, r.2)
        | .ok _ => DiskCache.replaceEntry key entry metaJson r.2) := by
  simp only [DiskCache.put, hjson]
  exact if_neg (Nat.not_lt.2 hfits)

/-- What the cache keeps in memory after an entry has been replaced. -/
def afterReplace (key : CacheKey) (oldSize newSize : Nat) (cache : DiskCache) : DiskCache :=
  let kept := if 0 < oldSize then cache.retainOther key.hashHex else cache
  { kept with
    currentSize := kept.currentSize - oldSize + newSize
    evictionOrder := kept.evictionOrder ++ [key.hashHex] }

@[simp] theorem maxSize_afterReplace (key : CacheKey) (oldSize newSize : Nat)
    (cache : DiskCache) : (afterReplace key oldSize newSize cache).maxSize = cache.maxSize := by
  by_cases hold : 0 < oldSize
  · simp [afterReplace, hold, DiskCache.retainOther]
  · simp [afterReplace, hold]

@[simp] theorem perform_replaceEntry (key : CacheKey) (entry : CacheEntry) (metaJson : Bytes)
    (cache : DiskCache) (s : FileStore Path) :
    perform (DiskCache.replaceEntry key entry metaJson cache) s =
      ((.ok (), afterReplace key (s.size key.metaPath + s.size key.dataPath)
        (metaJson.length + entry.data.length) cache),
        saveEntry key metaJson entry.data (dropFiles key.filePath s)) := by
  simp [DiskCache.replaceEntry, afterReplace]

theorem maxSize_evictIfNeeded (neededSize : Nat) (cache : DiskCache) (s : FileStore Path) :
    (perform (evictIfNeeded neededSize cache) s).1.2.maxSize = cache.maxSize := by
  by_cases hfits : cache.currentSize + neededSize ≤ cache.maxSize
  · simp [evictIfNeeded, hfits]
  · cases hres : (perform (evictLoop cache.currentSize (cache.maxSize - neededSize)
      cache.evictionOrder 0) s).1.1 with
    | none =>
        simp [evictIfNeeded, hfits, hres]
    | some freed =>
        simp [evictIfNeeded, hfits, hres]

/-- A put of an entry that fits either panics while it makes room, or writes the entry. -/
theorem perform_put_of_fits {S : Serde} {entry : CacheEntry} {cache : DiskCache}
    {metaJson : Bytes} (hjson : S.toVec entry.metadata = .ok metaJson)
    (hfits : metaJson.length + entry.data.length ≤ cache.maxSize) (key : CacheKey)
    (s : FileStore Path) :
    ∃ r cache' t u, perform (DiskCache.put S key entry cache) s = ((r, cache'), t) ∧
      cache'.maxSize = cache.maxSize ∧
      (∀ key', pair u key' = (none, none) ∨ pair u key' = pair s key') ∧
      ((∃ e, r = .error e ∧ t = u) ∨
        r = .ok () ∧ t = saveEntry key metaJson entry.data (dropFiles key.filePath u)) := by
  have hmax := maxSize_evictIfNeeded (metaJson.length + entry.data.length) cache s
  have hpair := pair_evictIfNeeded (metaJson.length + entry.data.length) cache s
  rw [put_of_fits hjson hfits]
  -- first room is made; a name in the order that is too short makes that panic
  rcases hevict : perform (evictIfNeeded (metaJson.length + entry.data.length) cache) s with
    ⟨⟨r, cache₁⟩, u⟩
  rw [hevict] at hmax
  simp only [hevict] at hpair
  cases r with
  | error e =>
      refine ⟨.error e, cache₁, u, u, ?_, hmax, hpair, .inl ⟨e, rfl, rfl⟩⟩
      simp [hevict]
  | ok _ =>
      have hreplace := perform_replaceEntry key entry metaJson cache₁ u
      refine ⟨.ok (), afterReplace key (u.size key.metaPath + u.size key.dataPath)
        (metaJson.length + entry.data.length) cache₁, _, u, ?_,
        (maxSize_afterReplace _ _ _ _).trans hmax, hpair, .inr ⟨rfl, rfl⟩⟩
      simp only [perform, Prog.exec_bind, hevict]
      exact hreplace

/-- With room for the entry nothing is evicted. -/
theorem perform_put_of_room {S : Serde} {entry : CacheEntry} {cache : DiskCache}
    {metaJson : Bytes} (hjson : S.toVec entry.metadata = .ok metaJson)
    (hroom : cache.currentSize + (metaJson.length + entry.data.length) ≤ cache.maxSize)
    (key : CacheKey) (s : FileStore Path) :
    perform (DiskCache.put S key entry cache) s =
      ((.ok (), afterReplace key (s.size key.metaPath + s.size key.dataPath)
        (metaJson.length + entry.data.length) cache),
        saveEntry key metaJson entry.data (dropFiles key.filePath s)) := by
  rw [put_of_fits hjson (by omega)]
  simp [evictIfNeeded, hroom]

/-- What the cache keeps in memory after an entry has been removed. -/
def afterRemove (key : CacheKey) (removedSize : Nat) (cache : DiskCache) : DiskCache :=
  { cache with currentSize := cache.currentSize - removedSize }.retainOther key.hashHex

@[simp] theorem perform_remove (key : CacheKey) (cache : DiskCache) (s : FileStore Path) :
    perform (DiskCache.remove key cache) s =
      ((.ok (), afterRemove key (s.size key.metaPath + s.size key.dataPath) cache),
        dropFiles key.filePath s) := by
  simp [DiskCache.remove, afterRemove]

/-- Opening the cache on an empty directory. -/
theorem perform_new_empty (maxSize now : Nat) :
    perform (DiskCache.new maxSize []) (FileStore.empty now) =
      (.ok { maxSize := maxSize, currentSize := 0, evictionOrder := [] }, FileStore.empty now) := by
  simp [DiskCache.new, rebuildIndex, indexFiles, FileOp.apply]

/-! ## Reading -/

theorem readData_looks (metadata : DiskCacheMetadata) (dataFile : Nat) :
    (readData metadata dataFile).OnlyCalls FileOp.Looks := by
  unfold readData
  split
  · refine ⟨trivial, ?_⟩
    intro r
    cases r with
    | error e =>
        trivial
    | ok data =>
        dsimp only
        split
        · trivial
        · trivial
  · trivial

theorem readMetadata_looks (S : Serde) (metaFile dataFile : Nat) :
    (readMetadata S metaFile dataFile).OnlyCalls FileOp.Looks := by
  refine ⟨trivial, ?_⟩
  intro r
  cases r with
  | error e =>
      trivial
  | ok content =>
      dsimp only
      split
      · trivial
      · exact readData_looks _ _

theorem openData_looks (S : Serde) (key : CacheKey) (metaFile : Nat) :
    (openData S key metaFile).OnlyCalls FileOp.Looks := by
  refine ⟨trivial, ?_⟩
  intro r
  cases r with
  | error e =>
      trivial
  | ok dataFile =>
      exact readMetadata_looks S metaFile dataFile

/-- A reader looks at files and changes none. -/
theorem get_looks (S : Serde) (key : CacheKey) :
    (DiskCache.get S key).OnlyCalls FileOp.Looks := by
  refine ⟨trivial, ?_⟩
  intro r
  cases r with
  | error e =>
      trivial
  | ok metaFile =>
      exact openData_looks S key metaFile

theorem perform_get_store (S : Serde) (key : CacheKey) (s : FileStore Path) :
    (perform (DiskCache.get S key) s).2 = s :=
  (get_looks S key).exec_store (fun _ t hop => hop.store t) s

theorem get_of_meta_absent (S : Serde) {key : CacheKey} {s : FileStore Path}
    (h : s.file key.metaPath = none) : (perform (DiskCache.get S key) s).1 = .ok none := by
  have hdir : s.dir key.metaPath = none := FileStore.file_eq_none.1 h
  simp [DiskCache.get, readEntry, FileOp.apply, hdir, openFailure, FileOp.notFoundError]

theorem entryOf_metadata {entry : CacheEntry} {data : Bytes} (h : data = entry.data)
    (hdata : data.length < 2 ^ 63) : entryOf entry.metadata data hdata = entry := by
  subst h
  rfl

theorem perform_readData {metadata : DiskCacheMetadata} {dataFile : Nat} {s : FileStore Path}
    (hsize : metadata.dataSize < 2 ^ 63) (hlen : (s.content dataFile).length < 2 ^ 63) :
    perform (readData metadata dataFile) s =
      (.ok (some (entryOf metadata (s.content dataFile) hlen)), s) := by
  calc
    perform (readData metadata dataFile) s =
        perform (if hdata : (s.content dataFile).length < 2 ^ 63 then
          .ret (.ok (some (entryOf metadata (s.content dataFile) hdata)))
        else .ret (.error .panic)) s := by
          rw [readData, if_pos hsize]
          rfl
    _ = (.ok (some (entryOf metadata (s.content dataFile) hlen)), s) := by
          rw [dif_pos hlen]
          rfl

theorem perform_readMetadata {S : Serde} {metaFile dataFile : Nat} {s : FileStore Path}
    {metadata : DiskCacheMetadata} (hback : S.fromSlice (s.content metaFile) = .ok metadata)
    (hsize : metadata.dataSize < 2 ^ 63) (hlen : (s.content dataFile).length < 2 ^ 63) :
    perform (readMetadata S metaFile dataFile) s =
      (.ok (some (entryOf metadata (s.content dataFile) hlen)), s) := by
  have hdata := perform_readData hsize hlen
  simpa [readMetadata, FileOp.apply, hback] using hdata

theorem perform_openData {S : Serde} {key : CacheKey} {metaFile dataFile : Nat}
    {s : FileStore Path} (hd : s.dir key.dataPath = some dataFile) :
    perform (openData S key metaFile) s = perform (readMetadata S metaFile dataFile) s := by
  simp [openData, FileOp.apply, hd]

theorem get_of_data_absent (S : Serde) {key : CacheKey} {s : FileStore Path}
    (h : s.file key.dataPath = none) : (perform (DiskCache.get S key) s).1 = .ok none := by
  have hdata : s.dir key.dataPath = none := FileStore.file_eq_none.1 h
  cases hmeta : s.dir key.metaPath with
  | none =>
      exact get_of_meta_absent S (FileStore.file_eq_none.2 hmeta)
  | some m =>
      simp [DiskCache.get, readEntry, openData, FileOp.apply, hmeta, hdata, openFailure,
        FileOp.notFoundError]

/-! ## What is read -/

def deserializeError (text : Str) : Failure :=
  .error (.cache ("Failed to deserialize metadata: ".toList ++ text))

/-- The data is read into a buffer of the recorded size. -/
def readBuffer (metadata : DiskCacheMetadata) (data : Bytes) : Outcome (Option CacheEntry) :=
  if metadata.dataSize < 2 ^ 63 then
    if hdata : data.length < 2 ^ 63 then
      .ok (some (entryOf metadata data hdata))
    else
      .error .panic
  else
    .error .panic

/-- What `read_entry` makes of the contents of the two files. -/
def readPair (S : Serde) : Option Bytes × Option Bytes → Outcome (Option CacheEntry)
  | (some metaJson, some data) =>
      match S.fromSlice metaJson with
      | .error text => .error (deserializeError text)
      | .ok metadata => readBuffer metadata data
  | _ => .ok none

/-- Where a file is missing there is no entry. -/
theorem readPair_of_missing (S : Serde) {p : Option Bytes × Option Bytes}
    (h : p.1 = none ∨ p.2 = none) : readPair S p = .ok none := by
  rcases p with ⟨_ | metaJson, _ | data⟩
  · rfl
  · rfl
  · rfl
  · rcases h with h | h <;> cases h

/-- Whatever stands in the two files is taken for an entry: the length of the data is not
compared with the size the metadata names. -/
theorem readPair_of_files {S : Serde} {metaJson data : Bytes} {metadata : DiskCacheMetadata}
    (hback : S.fromSlice metaJson = .ok metadata) (hsize : metadata.dataSize < 2 ^ 63)
    (hlen : data.length < 2 ^ 63) :
    readPair S (some metaJson, some data) = .ok (some (entryOf metadata data hlen)) := by
  have hread : readPair S (some metaJson, some data) = readBuffer metadata data := by
    simp [readPair, hback]
  rw [hread, readBuffer, if_pos hsize, dif_pos hlen]

section Read

variable {s : FileStore Path} {key : CacheKey}

theorem readData_eq_readBuffer (metadata : DiskCacheMetadata) (dataFile : Nat) :
    (perform (readData metadata dataFile) s).1 = readBuffer metadata (s.content dataFile) := by
  by_cases hsize : metadata.dataSize < 2 ^ 63
  · by_cases hlen : (s.content dataFile).length < 2 ^ 63
    · rw [perform_readData hsize hlen, readBuffer, if_pos hsize, dif_pos hlen]
    · have hexec : perform (readData metadata dataFile) s =
          perform (if hdata : (s.content dataFile).length < 2 ^ 63 then
            .ret (.ok (some (entryOf metadata (s.content dataFile) hdata)))
          else .ret (.error .panic)) s := by
        rw [readData, if_pos hsize]
        rfl
      rw [hexec, dif_neg hlen, readBuffer, if_pos hsize, dif_neg hlen]
      rfl
  · rw [readData, if_neg hsize, readBuffer, if_neg hsize]
    rfl

/-- A get depends on the contents of the two files only. -/
theorem get_eq_readPair (S : Serde) (s : FileStore Path) (key : CacheKey) :
    (perform (DiskCache.get S key) s).1 = readPair S (pair s key) := by
  rcases hpair : pair s key with ⟨metaJson?, data?⟩
  have hmeta : s.file key.metaPath = metaJson? := congrArg Prod.fst hpair
  have hdata : s.file key.dataPath = data? := congrArg Prod.snd hpair
  cases metaJson? with
  | none =>
      exact get_of_meta_absent S hmeta
  | some metaJson =>
      cases data? with
      | none =>
          exact get_of_data_absent S hdata
      | some data =>
          obtain ⟨m, hm, rfl⟩ := Option.map_eq_some_iff.1 hmeta
          obtain ⟨d, hd, rfl⟩ := Option.map_eq_some_iff.1 hdata
          have hopen : perform (DiskCache.get S key) s = perform (readMetadata S m d) s := by
            simp [DiskCache.get, readEntry, FileOp.apply, hm, perform_openData hd]
          rw [hopen]
          cases hback : S.fromSlice (s.content m) with
          | error text =>
              simp [readMetadata, FileOp.apply, hback, readPair, deserializeError]
          | ok metadata =>
              have hread : perform (readMetadata S m d) s = perform (readData metadata d) s := by
                simp [readMetadata, FileOp.apply, hback]
              rw [hread, readData_eq_readBuffer]
              simp [readPair, hback]

theorem get_of_files {S : Serde} {metaJson data : Bytes} {metadata : DiskCacheMetadata}
    (h : pair s key = (some metaJson, some data)) (hback : S.fromSlice metaJson = .ok metadata)
    (hsize : metadata.dataSize < 2 ^ 63) (hlen : data.length < 2 ^ 63) :
    (perform (DiskCache.get S key) s).1 = .ok (some (entryOf metadata data hlen)) := by
  rw [get_eq_readPair, h, readPair_of_files hback hsize hlen]

/-- The bytes of a complete entry are read back as the entry. -/
theorem get_of_pair {S : Serde} (hS : S.RoundTrip) {entry : CacheEntry} {metaJson : Bytes}
    (hjson : S.toVec entry.metadata = .ok metaJson)
    (h : pair s key = (some metaJson, some entry.data)) :
    (perform (DiskCache.get S key) s).1 = .ok (some entry) := by
  rw [get_of_files h (hS _ _ hjson) entry.data_lt entry.data_lt]
  rfl

end Read

/-! ## The parts that only look and remove -/

theorem fileSize_shrinks (p : Path) :
    (FileProg.fileSize p).OnlyCalls FileOp.Shrinks := by
  refine ⟨trivial, ?_⟩
  intro r
  cases r with
  | error e =>
      trivial
  | ok m =>
      trivial

theorem removeQuietly_shrinks (p : Path) :
    (FileProg.removeQuietly p).OnlyCalls FileOp.Shrinks :=
  ⟨trivial, fun _ => trivial⟩

theorem removeFiles_shrinks (base : Path) : (removeFiles base).OnlyCalls FileOp.Shrinks :=
  (fileSize_shrinks _).bind fun _ => (fileSize_shrinks _).bind fun _ =>
    (removeQuietly_shrinks _).bind fun _ => (removeQuietly_shrinks _).bind fun _ => trivial

theorem evictLoop_shrinks (currentSize targetSize : Nat) (order : List Str) (freed : Nat) :
    (evictLoop currentSize targetSize order freed).OnlyCalls FileOp.Shrinks := by
  induction order generalizing freed with
  | nil =>
      trivial
  | cons hashHex order ih =>
      unfold evictLoop
      split
      · trivial
      · split
        · trivial
        · exact (removeFiles_shrinks _).bind fun _ => ih _

theorem evictIfNeeded_shrinks (neededSize : Nat) (cache : DiskCache) :
    (evictIfNeeded neededSize cache).OnlyCalls FileOp.Shrinks := by
  unfold evictIfNeeded
  split
  · trivial
  · refine (evictLoop_shrinks _ _ _ _).bind ?_
    intro r
    split
    · trivial
    · trivial

theorem remove_shrinks (key : CacheKey) (cache : DiskCache) :
    (DiskCache.remove key cache).OnlyCalls FileOp.Shrinks :=
  (removeFiles_shrinks _).bind fun _ => trivial

theorem indexFiles_shrinks (walk : List Path) (files : List IndexedFile) (totalSize : Nat) :
    (indexFiles walk files totalSize).OnlyCalls FileOp.Shrinks := by
  induction walk generalizing files totalSize with
  | nil =>
      trivial
  | cons path walk ih =>
      unfold indexFiles
      split
      · exact ih _ _
      · split
        · refine ⟨trivial, ?_⟩
          intro r
          cases r with
          | error e =>
              exact ih _ _
          | ok m =>
              exact (fileSize_shrinks _).bind fun _ => ih _ _
        · exact ih _ _

theorem rebuildIndex_shrinks (walk : List Path) (cache : DiskCache) :
    (rebuildIndex walk cache).OnlyCalls FileOp.Shrinks :=
  (indexFiles_shrinks walk [] 0).bind fun _ => trivial

theorem new_shrinks (maxSize : Nat) (walk : List Path) :
    (DiskCache.new maxSize walk).OnlyCalls FileOp.Shrinks := by
  refine ⟨trivial, ?_⟩
  intro r
  cases r with
  | error e =>
      trivial
  | ok _ =>
      exact (rebuildIndex_shrinks _ _).bind fun _ => trivial

end Cache
end Squiddish
