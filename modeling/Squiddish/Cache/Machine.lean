import Squiddish.Lib.Runs
import Squiddish.Cache.Tiered

/-!
# Machine — one process and its directory, with faults at every step

The calls of one process, one after another, step by step.  The system may refuse any step, the
process may stop between any two, and it may be started again on the directory it left behind.

A fault is harmless unless it strikes a put while the data file of its key is in the directory and
the put still has to write to the two files: `Exposed`.
-/

namespace Squiddish
namespace Cache

open Lib

/-! ## Calls -/

inductive Call
  | start (maxSize : Nat) (walk : List Path)
  | put (key : CacheKey) (entry : CacheEntry)
  | get (key : CacheKey) (now later : Nat)
  | diskPut (key : CacheKey) (entry : CacheEntry)
  | diskRemove (key : CacheKey)
  deriving DecidableEq, Repr

inductive Reply
  | done (r : Outcome Unit)
  | found (r : Outcome (Option CacheEntry))
  deriving DecidableEq, Repr

/-- What a call works on: the cache of a running process. -/
def Call.run (S : Serde) (cache : TieredCache) :
    Call → DiskProg (Reply × Option TieredCache)
  | .start maxSize walk =>
      DiskCache.new maxSize walk >>= fun r =>
        match r with
        | .error e => .ret (.done (.error e), none)
        | .ok disk => .ret (.done (.ok ()), some (.ofDisk disk))
  | .put key entry => cache.put S key entry >>= fun r => .ret (.done r.1, some r.2)
  | .get key now later => cache.get S key now later >>= fun r => .ret (.found r.1, some r.2)
  | .diskPut key entry =>
      DiskCache.put S key entry cache.disk >>= fun r =>
        .ret (.done r.1, some { cache with disk := r.2 })
  | .diskRemove key =>
      DiskCache.remove key cache.disk >>= fun r =>
        .ret (.done r.1, some { cache with disk := r.2 })

/-- What a call is to put into the cache. -/
def Call.entryPut : Call → Option (CacheKey × CacheEntry)
  | .put key entry => some (key, entry)
  | .diskPut key entry => some (key, entry)
  | .start _ _ => none
  | .get _ _ _ => none
  | .diskRemove _ => none

/-! ## The process -/

inductive Process
  | stopped
  | idle (cache : TieredCache)
  | running (call : Call) (rest : DiskProg (Reply × Option TieredCache)) (faulted : Bool)

/-- The directory, the process, and all that was ever passed to a put. -/
structure Machine where
  files : FileStore Path
  process : Process
  puts : List (CacheKey × CacheEntry)

inductive Event
  | start (maxSize : Nat) (walk : List Path)
  | call (call : Call)
  | perform (now : Nat)
  | refuse (e : IoError)
  | finish
  | stop
  | drop (key : CacheKey)

def Process.ofCache : Option TieredCache → Process
  | none => .stopped
  | some cache => .idle cache

inductive MachineStep (S : Serde) : Machine → Event → Machine → Prop
  | start {s : Machine} {maxSize : Nat} {walk : List Path} :
      s.process = .stopped → walk.Nodup → (∀ p ∈ walk, p ∈ s.files.names) →
      MachineStep S s (.start maxSize walk)
        { s with
          process := .running (.start maxSize walk)
            ((Call.start maxSize walk).run S (.ofDisk ⟨maxSize, 0, []⟩)) false }
  | call {s : Machine} {cache : TieredCache} {call : Call} :
      s.process = .idle cache → (∀ maxSize walk, call ≠ .start maxSize walk) →
      MachineStep S s (.call call)
        { s with
          process := .running call (call.run S cache) false
          puts := s.puts ++ call.entryPut.toList }
  | perform {s : Machine} {call : Call} {op : FileOp Path}
      {next : op.Resp → DiskProg (Reply × Option TieredCache)} {faulted : Bool}
      {r : op.Resp} {files : FileStore Path} {now : Nat} :
      s.process = .running call (.call op next) faulted →
      op.apply (s.files.setClock now) = (r, files) →
      MachineStep S s (.perform now)
        { s with files := files, process := .running call (next r) faulted }
  -- the call goes on with the error, and what it has done so far stays
  | refuse {s : Machine} {call : Call} {op : FileOp Path}
      {next : op.Resp → DiskProg (Reply × Option TieredCache)} {faulted : Bool} {e : IoError} :
      s.process = .running call (.call op next) faulted →
      MachineStep S s (.refuse e) { s with process := .running call (next (.error e)) true }
  | finish {s : Machine} {call : Call} {reply : Reply} {cache : Option TieredCache}
      {faulted : Bool} :
      s.process = .running call (.ret (reply, cache)) faulted →
      MachineStep S s .finish { s with process := .ofCache cache }
  | stop {s : Machine} : MachineStep S s .stop { s with process := .stopped }
  | drop {s : Machine} {cache : TieredCache} {key : CacheKey} :
      s.process = .idle cache →
      MachineStep S s (.drop key) { s with process := .idle (cache.forget key) }

/-- An empty directory and no process yet. -/
def Machine.init (now : Nat) : Machine where
  files := FileStore.empty now
  process := .stopped
  puts := []

/-! ## The property and the condition -/

/-- The entry was passed to a put of the key.  Keys are told apart by their hashes. -/
def WasPut (puts : List (CacheKey × CacheEntry)) (key : CacheKey) (entry : CacheEntry) : Prop :=
  ∃ key', (key', entry) ∈ puts ∧ key'.hash = key.hash

/-- A get that is about to return has found nothing or an entry that was put, and it fails only
when one of its own steps was refused. -/
def Genuine (s : Machine) : Prop :=
  ∀ key now later rest faulted r cache,
    s.process = .running (.get key now later) rest faulted → rest = .ret (.found r, cache) →
      (∀ entry, r = .ok (some entry) → WasPut s.puts key entry) ∧
        (faulted = false → ∃ found, r = .ok found)

/-- The data file of the key is in the directory, and the step to come writes a byte, has the
metadata flushed or creates the data file. -/
def Exposed (key : CacheKey) (op : FileOp Path) (s : FileStore Path) : Prop :=
  (s.dir key.dataPath).isSome = true ∧
    match op with
    | .write _ _ => True
    | .flush f => s.dir key.metaPath = some f
    | .create p => p = key.dataPath
    | _ => False

/-- No fault strikes a put that is exposed. -/
def Harmless (s : Machine) : Prop :=
  ∀ call rest faulted key entry op, s.process = .running call rest faulted →
    call.entryPut = some (key, entry) → rest.pending = some op → ¬ Exposed key op s.files

/-- Steps are refused and the process stops only where this is harmless. -/
def FaultsHarmless (s : Machine) : Event → Prop
  | .refuse _ => Harmless s
  | .stop => Harmless s
  | _ => True

end Cache
end Squiddish
