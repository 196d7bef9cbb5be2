import Squiddish.Cache.Lookups
import Squiddish.Cache.Tearing
import Squiddish.Inflight.Locks

/-!
# Tiers — the handlers and tasks over the two tiers of the cache

`System` and the handlers ask one cache, which answers at once.  What they really ask is
`TieredCache`: a `get` looks into memory, removes there what has expired, opens and reads the two
files of the entry, and puts the copy into memory or waits for `write_mutex` to remove it; a `put`
writes a large entry to the disk under that lock and then to memory.  Any number of handlers and
tasks are somewhere in these two at the same time, and every file operation is a step of its own.

* `AssemblyStep` : handlers, bodies, tasks, both tiers and the files;
* `Assembly.Apart` : the condition under which a get of the disk finds one entry as a whole.
-/

namespace Squiddish
namespace Inflight

open Lib Cache Proxy

variable {ι : Type} {E : Env ι}

/-! ## Gets and puts under way -/

/-- What a `cache.get` does next. -/
inductive LookupPhase
  /-- The memory tier is asked. -/
  | arrived
  /-- The copy from memory has expired and is removed there. -/
  | expiredMemory
  /-- The disk tier is asked. -/
  | missed
  /-- The disk tier looks for the files, as its get `id`. -/
  | reading (id : Nat)
  /-- The copy from the disk goes to memory. -/
  | promoting (entry : CacheEntry)
  /-- The copy from the disk has expired and is removed there, under `write_mutex`. -/
  | expiredDisk
  | returned (r : Outcome (Option CacheEntry))

namespace LookupPhase

def afterMemory (found : Option CacheEntry) (time : Nat) : LookupPhase :=
  match found with
  | some entry => if entry.isExpired time then .expiredMemory else .returned (.ok (some entry))
  | none => .missed

def afterDisk (r : Outcome (Option CacheEntry)) (time : Nat) : LookupPhase :=
  match r with
  | .error e => .returned (.error e)
  | .ok none => .returned (.ok none)
  | .ok (some entry) => if entry.isExpired time then .expiredDisk else .promoting entry

/-- The copy that is still to be remembered, or returned. -/
def copy : LookupPhase → Option CacheEntry
  | .promoting entry => some entry
  | .returned (.ok found) => found
  | _ => none

/-- Memory answers with what it has, or the get goes on. -/
theorem copy_afterMemory {found : Option CacheEntry} {time : Nat} {entry : CacheEntry}
    (h : (afterMemory found time).copy = some entry) : found = some entry := by
  cases found with
  | none =>
      cases h
  | some held =>
      cases hexpired : held.isExpired time <;> simp [afterMemory, hexpired, copy] at h ⊢
      exact h

theorem copy_afterDisk {r : Outcome (Option CacheEntry)} {time : Nat} {entry : CacheEntry}
    (h : (afterDisk r time).copy = some entry) : r = .ok (some entry) := by
  rcases r with e | _ | found
  · cases h
  · cases h
  · cases hexpired : found.isExpired time <;> simp [afterDisk, hexpired, copy] at h ⊢
    exact h

end LookupPhase

structure Lookup where
  key : CacheKey
  phase : LookupPhase

/-- The `cache.put` of a task, whose key is that of the task. -/
structure Storing where
  entry : CacheEntry
  phase : PutPhase

/-- What becomes of the task: an error of `cache.put` is only logged. -/
def phaseAfterPut : Outcome Unit → TaskPhase
  | .error .panic => .panicked
  | _ => .succeeded

/-- Who holds `write_mutex`. -/
inductive Holder (ι : Type)
  /-- A handler that removes an expired entry, with the index as it was when it began. -/
  | get (c : ι) (cache : DiskCache)
  | put (d : Nat)

/-! ## The state -/

/-- The cache of `world` is the memory tier. -/
structure Assembly (ι : Type) where
  world : World ι
  disk : Cache.Shared
  holder : Option (Holder ι)
  lookups : ι → Option Lookup
  stores : Nat → Option Storing

namespace Assembly

/-- All clients have sent their requests, and the directory of the cache is empty. -/
def init (E : Env ι) (maxSize : Nat) : Assembly ι where
  world := .init E
  disk := .init maxSize
  holder := none
  lookups := fun _ => none
  stores := fun _ => none

def setMemory (l : Assembly ι) (key : CacheKey) (found : Option CacheEntry) : Assembly ι :=
  { l with
    world :=
      { l.world with
        shared :=
          { l.world.shared with cache := Function.update l.world.shared.cache key found } } }

def setStore (l : Assembly ι) (d : Nat) (storing : Option Storing) : Assembly ι :=
  { l with stores := Function.update l.stores d storing }

/-- The task begins to store an entry. -/
def beginStore (l : Assembly ι) (d : Nat) (key : CacheKey) (entry : CacheEntry) : Assembly ι :=
  { l with
    world :=
      { l.world with
        shared := { l.world.shared with written := l.world.shared.written ++ [(key, entry)] } }
    stores := Function.update l.stores d (some ⟨entry, .first entry⟩) }

def setTask (l : Assembly ι) (d : Nat) (t : Task ι) : Assembly ι :=
  { l with world := l.world.setTask d t }

end Assembly

/-- The steps of the system in which the cache is one. -/
def Action.UsesCache : Action ι → Prop
  | .store _ _ | .storeFailed _ | .evict _ | .restore _ _ => True
  | _ => False

/-- Nobody who moves is in the cache, or comes to it. -/
def Assembly.Outside (l : Assembly ι) : WorldAction ι → Prop
  | .call c | .close c => ∀ key next, l.world.threads c ≠ .running (.call (.cacheGet key) next)
  | .move a => ¬ a.UsesCache ∧ ∀ d, a.task = some d → l.stores d = none
  | _ => True

/-! ## Steps -/

inductive AssemblyAction (ι : Type)
  | outside (a : WorldAction ι)
  | lookup (c : ι)
  | memoryGet (c : ι) (time : Nat)
  | memoryRemove (c : ι)
  | diskGet (c : ι) (id : Nat)
  /-- A get of the disk takes one step. -/
  | read (id : Nat)
  | answer (c : ι) (time : Nat)
  | promote (c : ι)
  | diskRemove (c : ι)
  | removed (c : ι)
  | resume (c : ι)
  | drop (c : ι)
  | store (d now : Nat)
  | diskPut (d : Nat)
  /-- Whoever holds `write_mutex` takes one step. -/
  | write
  | written (d : Nat)
  | memoryPut (d : Nat)
  | stored (d : Nat)
  /-- The memory tier drops an entry of its own accord. -/
  | evict (key : CacheKey)

section Steps

variable [DecidableEq ι]

def Assembly.setLookup (l : Assembly ι) (c : ι) (lookup : Option Lookup) : Assembly ι :=
  { l with lookups := Function.update l.lookups c lookup }

/-- The handler goes on, or is gone, and its `cache.get` with it. -/
def Assembly.leaveGet (l : Assembly ι) (c : ι) (th : Thread) : Assembly ι :=
  { l with
    world := l.world.setThread c th
    lookups := Function.update l.lookups c none }

inductive AssemblyStep (S : Serde) (E : Env ι) :
    Assembly ι → AssemblyAction ι → Assembly ι → Prop
  | outside {l : Assembly ι} {a : WorldAction ι} {w' : World ι} :
      l.Outside a → WorldStep E l.world a w' →
      AssemblyStep S E l (.outside a) { l with world := w' }
  -- `TieredCache::get`
  | lookup {l : Assembly ι} {c : ι} {key : CacheKey}
      {next : Outcome (Option CacheEntry) → HandlerProg (Outcome ClientResponse)} :
      l.world.threads c = .running (.call (.cacheGet key) next) → l.lookups c = none →
      AssemblyStep S E l (.lookup c) (l.setLookup c (some ⟨key, .arrived⟩))
  | memoryGet {l : Assembly ι} {c : ι} {time : Nat} {key : CacheKey} :
      l.lookups c = some ⟨key, .arrived⟩ →
      AssemblyStep S E l (.memoryGet c time)
        (l.setLookup c (some ⟨key, .afterMemory (l.world.shared.cache key) time⟩))
  | memoryRemove {l : Assembly ι} {c : ι} {key : CacheKey} :
      l.lookups c = some ⟨key, .expiredMemory⟩ →
      AssemblyStep S E l (.memoryRemove c)
        ((l.setMemory key none).setLookup c (some ⟨key, .missed⟩))
  | diskGet {l : Assembly ι} {c : ι} {id : Nat} {key : CacheKey} {disk : Cache.Shared} :
      l.lookups c = some ⟨key, .missed⟩ → SharedStep S l.disk (.get id key) disk →
      AssemblyStep S E l (.diskGet c id)
        ({ l with disk := disk }.setLookup c (some ⟨key, .reading id⟩))
  | read {l : Assembly ι} {id : Nat} {disk : Cache.Shared} :
      SharedStep S l.disk (.read id) disk → AssemblyStep S E l (.read id) { l with disk := disk }
  | answer {l : Assembly ι} {c : ι} {time id : Nat} {key : CacheKey}
      {r : Outcome (Option CacheEntry)} {disk : Cache.Shared} :
      l.lookups c = some ⟨key, .reading id⟩ → l.disk.gets id = some ⟨key, .ret r⟩ →
      SharedStep S l.disk (.answer id) disk →
      AssemblyStep S E l (.answer c time)
        ({ l with disk := disk }.setLookup c (some ⟨key, .afterDisk r time⟩))
  | promote {l : Assembly ι} {c : ι} {key : CacheKey} {entry : CacheEntry} :
      l.lookups c = some ⟨key, .promoting entry⟩ →
      AssemblyStep S E l (.promote c)
        ((l.setMemory key (some entry)).setLookup c (some ⟨key, .returned (.ok (some entry))⟩))
  | diskRemove {l : Assembly ι} {c : ι} {key : CacheKey} {cache : DiskCache}
      {disk : Cache.Shared} :
      l.lookups c = some ⟨key, .expiredDisk⟩ → l.holder = none → l.disk.writer = .idle cache →
      SharedStep S l.disk (.remove key) disk →
      AssemblyStep S E l (.diskRemove c)
        { l with disk := disk, holder := some (.get c cache) }
  -- the outcome of the removal is not looked at
  | removed {l : Assembly ι} {c : ι} {key : CacheKey} {cache : DiskCache}
      {disk : Cache.Shared} :
      l.lookups c = some ⟨key, .expiredDisk⟩ → l.holder = some (.get c cache) →
      SharedStep S l.disk .done disk →
      AssemblyStep S E l (.removed c)
        ({ l with disk := disk, holder := none }.setLookup c (some ⟨key, .returned (.ok none)⟩))
  | resume {l : Assembly ι} {c : ι} {key : CacheKey} {r : Outcome (Option CacheEntry)}
      {next : Outcome (Option CacheEntry) → HandlerProg (Outcome ClientResponse)} :
      l.world.threads c = .running (.call (.cacheGet key) next) →
      l.lookups c = some ⟨key, .returned r⟩ →
      AssemblyStep S E l (.resume c) (l.leaveGet c (.running (next r)))
  -- a handler may be dropped wherever it waits; what it has begun to remove stays as it is
  | drop {l : Assembly ι} {c : ι} {key : CacheKey}
      {next : Outcome (Option CacheEntry) → HandlerProg (Outcome ClientResponse)} :
      l.world.threads c = .running (.call (.cacheGet key) next) →
      (∀ key id, l.lookups c ≠ some ⟨key, .reading id⟩) →
      (∀ cache, l.holder ≠ some (.get c cache)) →
      AssemblyStep S E l (.drop c) (l.leaveGet c .closed)
  | dropReading {l : Assembly ι} {c : ι} {id : Nat} {key key' : CacheKey}
      {next : Outcome (Option CacheEntry) → HandlerProg (Outcome ClientResponse)} :
      l.world.threads c = .running (.call (.cacheGet key) next) →
      l.lookups c = some ⟨key', .reading id⟩ →
      AssemblyStep S E l (.drop c) ({ l with disk := l.disk.setGet id none }.leaveGet c .closed)
  | dropRemoving {l : Assembly ι} {c : ι} {key : CacheKey} {cache : DiskCache}
      {next : Outcome (Option CacheEntry) → HandlerProg (Outcome ClientResponse)} :
      l.world.threads c = .running (.call (.cacheGet key) next) →
      l.holder = some (.get c cache) →
      AssemblyStep S E l (.drop c)
        ({ l with
            disk := { l.disk with writer := .idle cache }
            holder := none }.leaveGet c .closed)
  -- `TieredCache::put`, and what stands before it
  | store {l : Assembly ι} {d now : Nat} {t : Task ι} {entry : CacheEntry}
      (h : t.cacheBuf.length < 2 ^ 63) :
      l.world.shared.tasks d = some t → t.phase = .received → l.stores d = none →
      State.stored E t now h = some entry →
      AssemblyStep S E l (.store d now) (l.beginStore d t.key entry)
  | storeNothing {l : Assembly ι} {d now : Nat} {t : Task ι} (h : t.cacheBuf.length < 2 ^ 63) :
      l.world.shared.tasks d = some t → t.phase = .received → l.stores d = none →
      State.stored E t now h = none →
      AssemblyStep S E l (.store d now) (l.setTask d { t with phase := .succeeded })
  | diskPut {l : Assembly ι} {d : Nat} {t : Task ι} {entry : CacheEntry} {disk : Cache.Shared} :
      l.world.shared.tasks d = some t → l.stores d = some ⟨entry, .disk⟩ → l.holder = none →
      SharedStep S l.disk (.put t.key entry) disk →
      AssemblyStep S E l (.diskPut d) { l with disk := disk, holder := some (.put d) }
  | write {l : Assembly ι} {disk : Cache.Shared} :
      SharedStep S l.disk .write disk → AssemblyStep S E l .write { l with disk := disk }
  | written {l : Assembly ι} {d : Nat} {entry : CacheEntry} {r : Outcome Unit}
      {cache : DiskCache} {disk : Cache.Shared} :
      l.stores d = some ⟨entry, .disk⟩ → l.holder = some (.put d) →
      l.disk.writer = .busy (.ret (r, cache)) → SharedStep S l.disk .done disk →
      AssemblyStep S E l (.written d)
        ({ l with disk := disk, holder := none }.setStore d (some ⟨entry, .afterDisk r⟩))
  | memoryPut {l : Assembly ι} {d : Nat} {t : Task ι} {entry : CacheEntry} :
      l.world.shared.tasks d = some t → l.stores d = some ⟨entry, .memory⟩ →
      AssemblyStep S E l (.memoryPut d)
        ((l.setMemory t.key (some entry)).setStore d (some ⟨entry, .returned (.ok ())⟩))
  | stored {l : Assembly ι} {d : Nat} {t : Task ι} {entry : CacheEntry} {r : Outcome Unit} :
      l.world.shared.tasks d = some t → l.stores d = some ⟨entry, .returned r⟩ →
      AssemblyStep S E l (.stored d)
        ((l.setTask d { t with phase := phaseAfterPut r }).setStore d none)
  | evict {l : Assembly ι} {key : CacheKey} :
      AssemblyStep S E l (.evict key) (l.setMemory key none)

end Steps

/-- The writer of the disk and the gets of the disk keep apart. -/
def Assembly.Apart (S : Serde) (l : Assembly ι) : AssemblyAction ι → Prop
  | .write => Cache.Apart S l.disk .write
  | .read id => Cache.Apart S l.disk (.read id)
  | _ => True

end Inflight
end Squiddish
