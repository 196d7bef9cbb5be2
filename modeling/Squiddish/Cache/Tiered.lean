import Squiddish.Cache.Effects

/-!
# Tiered — the memory tier in front of the disk tier

`TieredCache::get` and `put` of `cache/mod.rs`.  The memory tier is the `moka` cache behind
`cache/memory.rs`: a map whose entries may be gone at any moment.
-/

namespace Squiddish
namespace Cache

open Lib

structure TieredCache where
  memory : CacheKey → Option CacheEntry
  disk : DiskCache

namespace TieredCache

def remember (cache : TieredCache) (key : CacheKey) (entry : CacheEntry) : TieredCache :=
  { cache with memory := Function.update cache.memory key (some entry) }

/-- `invalidate`, and what the memory tier does to an entry of its own accord. -/
def forget (cache : TieredCache) (key : CacheKey) : TieredCache :=
  { cache with memory := Function.update cache.memory key none }

/-- `TieredCache::new` has nothing in memory. -/
def ofDisk (disk : DiskCache) : TieredCache :=
  { memory := fun _ => none, disk := disk }

/-- The part of `get` that is reached when the memory tier has no answer. -/
def getFromDisk (S : Serde) (key : CacheKey) (now : Nat) (cache : TieredCache) :
    DiskProg (Outcome (Option CacheEntry) × TieredCache) :=
  DiskCache.get S key >>= fun r =>
    match r with
    | .error e => .ret (.error e, cache)
    | .ok none => .ret (.ok none, cache)
    | .ok (some entry) =>
        if entry.isExpired now then
          -- expired: the files are removed, and the error of that is ignored
          DiskCache.remove key cache.disk >>= fun r => .ret (.ok none, { cache with disk := r.2 })
        else
          .ret (.ok (some entry), cache.remember key entry)

/-- `get`: `now` is the time when the entry in memory is looked at, and `later` the time when the
entry from the disk is. -/
def get (S : Serde) (key : CacheKey) (now later : Nat) (cache : TieredCache) :
    DiskProg (Outcome (Option CacheEntry) × TieredCache) :=
  match cache.memory key with
  | some entry =>
      if entry.isExpired now then
        -- expired: removed from memory, then the disk is asked as after a miss
        getFromDisk S key later (cache.forget key)
      else
        .ret (.ok (some entry), cache)
  | none => getFromDisk S key later cache

/-- `put`: entries of more than 1 MiB go to the disk as well. -/
def put (S : Serde) (key : CacheKey) (entry : CacheEntry) (cache : TieredCache) :
    DiskProg (Outcome Unit × TieredCache) :=
  if 1024 * 1024 < entry.size then
    DiskCache.put S key entry cache.disk >>= fun r =>
      match r.1 with
      -- an entry the disk fails to take is not put into memory either
      | .error e => .ret (.error e, { cache with disk := r.2 })
      | .ok _ => .ret (.ok (), { cache with disk := r.2 }.remember key entry)
  else
    .ret (.ok (), cache.remember key entry)

/-! ## What the operations leave in memory -/

variable {cache : TieredCache} {key key' : CacheKey} {entry : CacheEntry}

@[simp] theorem memory_remember_self : (cache.remember key entry).memory key = some entry := by
  simp [remember]

theorem memory_remember_of_ne (h : key' ≠ key) :
    (cache.remember key entry).memory key' = cache.memory key' := by
  simp [remember, h]

@[simp] theorem memory_forget_self : (cache.forget key).memory key = none := by
  simp [forget]

theorem memory_forget_of_ne (h : key' ≠ key) :
    (cache.forget key).memory key' = cache.memory key' := by
  simp [forget, h]

@[simp] theorem disk_remember : (cache.remember key entry).disk = cache.disk :=
  rfl

@[simp] theorem disk_forget : (cache.forget key).disk = cache.disk :=
  rfl

end TieredCache

end Cache
end Squiddish
