import Squiddish.Lib.FileStore
import Squiddish.Error
import Squiddish.Cache.Paths

/-!
# Disk — the disk cache as programs over the file store

`cache/disk.rs`.  A function of the source is a program: every call into the file system is an
operation of it, and what the cache keeps in memory is passed along.  `serde_json` is a parameter.
The lock that writers hold is not part of the programs; whoever runs them runs one writer at a
time.

Sizes are natural numbers: no sum of lengths of files on one disk reaches `2 ^ 64`.
-/

namespace Squiddish
namespace Cache

open Lib

/-! ## Metadata -/

structure DiskCacheMetadata where
  headers : List (Str × Str)
  status : Nat
  timestamp : Nat
  ttlSeconds : Nat
  dataSize : Nat
  deriving DecidableEq, Repr

/-- `serde_json` on metadata: the text of an error, or the result. -/
structure Serde where
  toVec : DiskCacheMetadata → Except Str Bytes
  fromSlice : Bytes → Except Str DiskCacheMetadata

/-- What was written is read back. -/
def Serde.RoundTrip (S : Serde) : Prop :=
  ∀ metadata bytes, S.toVec metadata = .ok bytes → S.fromSlice bytes = .ok metadata

/-- The text of a structure is never empty. -/
def Serde.NonEmpty (S : Serde) : Prop :=
  ∀ metadata bytes, S.toVec metadata = .ok bytes → bytes ≠ []

def CacheEntry.metadata (entry : CacheEntry) : DiskCacheMetadata :=
  { headers := entry.headers
    status := entry.status
    timestamp := entry.timestamp
    ttlSeconds := entry.ttlSeconds
    dataSize := entry.data.length }

/-! ## State and results -/

structure DiskCache where
  maxSize : Nat
  currentSize : Nat
  /-- Oldest entries first. -/
  evictionOrder : List Str
  deriving DecidableEq, Repr

abbrev DiskProg (α : Type) := FileProg Path α

/-- The `?` on a result of the file system. -/
def ioFailure (e : IoError) : Failure :=
  .error (.io e.text)

/-! ## Opening the cache -/

structure IndexedFile where
  hashHex : Str
  size : Nat
  modified : Nat
  deriving DecidableEq, Repr

/-- The loop of `rebuild_index` over the files below the cache directory, in the order in which
the directories list them. -/
def indexFiles : List Path → List IndexedFile → Nat → DiskProg (List IndexedFile × Nat)
  | [], files, totalSize => .ret (files, totalSize)
  | path :: walk, files, totalSize =>
      match path.getLast? with
      | none => indexFiles walk files totalSize
      | some name =>
          if extension name = some metaExt then
            .call (.metadata path) fun r =>
              match r with
              -- a file whose metadata cannot be read is left out
              | .error _ => indexFiles walk files totalSize
              | .ok metadata =>
                  -- data that is not there counts nothing; data without metadata is never looked at
                  FileProg.fileSize (withExtension path dataExt) >>= fun dataSize =>
                    indexFiles walk
                      (files ++ [{ hashHex := fileStem name
                                   size := metadata.len + dataSize
                                   modified := metadata.modified }])
                      (totalSize + (metadata.len + dataSize))
          else
            indexFiles walk files totalSize

/-- `rebuild_index`: oldest files first, files of one age in the order of the walk. -/
def rebuildIndex (walk : List Path) (cache : DiskCache) : DiskProg DiskCache :=
  indexFiles walk [] 0 >>= fun r =>
    .ret { cache with
      currentSize := r.2
      evictionOrder :=
        (r.1.mergeSort (fun a b => decide (a.modified ≤ b.modified))).map IndexedFile.hashHex }

/-- `DiskCache::new`. -/
def DiskCache.new (maxSize : Nat) (walk : List Path) : DiskProg (Outcome DiskCache) :=
  .call (.createDirAll []) fun r =>
    match r with
    | .error e => .ret (.error (ioFailure e))
    | .ok _ =>
        rebuildIndex walk { maxSize := maxSize, currentSize := 0, evictionOrder := [] } >>=
          fun cache => .ret (.ok cache)

/-! ## Removing files -/

/-- The two files of an entry are measured and removed, as an eviction and `remove_entry` do. -/
def removeFiles (base : Path) : DiskProg Nat :=
  FileProg.fileSize (withExtension base metaExt) >>= fun metaSize =>
  FileProg.fileSize (withExtension base dataExt) >>= fun dataSize =>
  FileProg.removeQuietly (withExtension base metaExt) >>= fun _ =>
  FileProg.removeQuietly (withExtension base dataExt) >>= fun _ =>
  .ret (metaSize + dataSize)

def removeEntry (key : CacheKey) : DiskProg Nat :=
  removeFiles key.filePath

/-- The loop of `evict_if_needed`: what it freed, or `none` after a panic, and what is left of
the order. -/
def evictLoop (currentSize targetSize : Nat) : List Str → Nat → DiskProg (Option Nat × List Str)
  | [], freed => .ret (some freed, [])
  | hashHex :: order, freed =>
      if currentSize - freed ≤ targetSize then
        .ret (some freed, hashHex :: order)
      else
        match filePathFromHash hashHex with
        -- the hash is too short to be cut into directory names, and the slice panics
        | none => .ret (none, order)
        | some base =>
            removeFiles base >>= fun actualSize =>
              evictLoop currentSize targetSize order (freed + actualSize)

def evictIfNeeded (neededSize : Nat) (cache : DiskCache) : DiskProg (Outcome Unit × DiskCache) :=
  if cache.currentSize + neededSize ≤ cache.maxSize then
    .ret (.ok (), cache)
  else
    evictLoop cache.currentSize (cache.maxSize - neededSize) cache.evictionOrder 0 >>= fun r =>
      match r.1 with
      -- what was freed so far is not taken off the counter
      | none => .ret (.error .panic, { cache with evictionOrder := r.2 })
      | some freed =>
          .ret (.ok (),
            { cache with currentSize := cache.currentSize - freed, evictionOrder := r.2 })

/-! ## Writing and reading entries -/

def writeEntry (key : CacheKey) (entry : CacheEntry) (metaJson : Bytes) :
    DiskProg (Outcome Nat) :=
  .call (.createDirAll key.filePath.dropLast) fun r =>
    match r with
    | .error e => .ret (.error (ioFailure e))
    | .ok _ =>
        FileProg.writeFile key.metaPath metaJson >>= fun r =>
          match r with
          | .error e => .ret (.error (ioFailure e))
          | .ok _ =>
              -- the metadata is complete before the data file is created
              FileProg.writeFile key.dataPath entry.data >>= fun r =>
                match r with
                | .error e => .ret (.error (ioFailure e))
                | .ok _ => .ret (.ok (metaJson.length + entry.data.length))

/-- The error of an `open`, unless it says that there is no such file. -/
def openFailure (e : IoError) : Outcome (Option CacheEntry) :=
  if e.notFound then .ok none else .error (ioFailure e)

/-- The entry made of the metadata and the bytes that were read. -/
def entryOf (metadata : DiskCacheMetadata) (data : Bytes) (hdata : data.length < 2 ^ 63) :
    CacheEntry :=
  { data := data
    headers := metadata.headers
    status := metadata.status
    timestamp := metadata.timestamp
    ttlSeconds := metadata.ttlSeconds
    data_lt := hdata }

/-- The end of `read_entry`: the data is read into a buffer of the size the metadata names, and
no buffer grows beyond `isize::MAX` bytes. -/
def readData (metadata : DiskCacheMetadata) (dataFile : Nat) :
    DiskProg (Outcome (Option CacheEntry)) :=
  if metadata.dataSize < 2 ^ 63 then
    .call (.readToEnd dataFile) fun r =>
      match r with
      | .error e => .ret (.error (ioFailure e))
      | .ok data =>
          if hdata : data.length < 2 ^ 63 then
            .ret (.ok (some (entryOf metadata data hdata)))
          else
            .ret (.error .panic)
  else
    .ret (.error .panic)

/-- The middle of `read_entry`, when both files are open. -/
def readMetadata (S : Serde) (metaFile dataFile : Nat) : DiskProg (Outcome (Option CacheEntry)) :=
  .call (.readToEnd metaFile) fun r =>
    match r with
    | .error e => .ret (.error (ioFailure e))
    | .ok content =>
        match S.fromSlice content with
        | .error text =>
            .ret (.error (.error (.cache ("Failed to deserialize metadata: ".toList ++ text))))
        | .ok metadata => readData metadata dataFile

def openData (S : Serde) (key : CacheKey) (metaFile : Nat) :
    DiskProg (Outcome (Option CacheEntry)) :=
  .call (.openFile key.dataPath) fun r =>
    match r with
    | .error e => .ret (openFailure e)
    | .ok dataFile => readMetadata S metaFile dataFile

def readEntry (S : Serde) (key : CacheKey) : DiskProg (Outcome (Option CacheEntry)) :=
  .call (.openFile key.metaPath) fun r =>
    match r with
    | .error e => .ret (openFailure e)
    | .ok metaFile => openData S key metaFile

/-! ## The operations of the cache -/

namespace DiskCache

def get (S : Serde) (key : CacheKey) : DiskProg (Outcome (Option CacheEntry)) :=
  readEntry S key

def retainOther (cache : DiskCache) (hashHex : Str) : DiskCache :=
  { cache with evictionOrder := cache.evictionOrder.filter (fun h => h ≠ hashHex) }

/-- The end of `put`, when room has been made. -/
def replaceEntry (key : CacheKey) (entry : CacheEntry) (metaJson : Bytes) (cache : DiskCache) :
    DiskProg (Outcome Unit × DiskCache) :=
  removeEntry key >>= fun oldSize =>
    -- an older place in the order is given up only when bytes were removed
    let cache := if 0 < oldSize then cache.retainOther key.hashHex else cache
    writeEntry key entry metaJson >>= fun r =>
      match r with
      -- the old files are gone, and the counter still has them
      | .error e => .ret (.error e, cache)
      | .ok newSize =>
          .ret (.ok (),
            { cache with
              currentSize := cache.currentSize - oldSize + newSize
              evictionOrder := cache.evictionOrder ++ [key.hashHex] })

def put (S : Serde) (key : CacheKey) (entry : CacheEntry) (cache : DiskCache) :
    DiskProg (Outcome Unit × DiskCache) :=
  match S.toVec entry.metadata with
  | .error text =>
      .ret (.error (.error (.cache ("Failed to serialize metadata: ".toList ++ text))), cache)
  | .ok metaJson =>
      let entrySize := metaJson.length + entry.data.length
      -- an entry larger than the whole cache is not written, and this is no error
      if cache.maxSize < entrySize then
        .ret (.ok (), cache)
      else
        evictIfNeeded entrySize cache >>= fun r =>
          match r.1 with
          | .error e => .ret (.error e, r.2)
          | .ok _ => replaceEntry key entry metaJson r.2

def remove (key : CacheKey) (cache : DiskCache) : DiskProg (Outcome Unit × DiskCache) :=
  removeEntry key >>= fun removedSize =>
    .ret (.ok (),
      { cache with currentSize := cache.currentSize - removedSize }.retainOther key.hashHex)

end DiskCache

end Cache
end Squiddish
