import Squiddish.Cache.Machine

/-!
# Shared — gets beside the one writer

Puts and removes hold `write_mutex`, so that one of them runs at a time; gets take no lock.  A step
is one file operation, of the writer or of one of the gets.

Gets and writer are `Apart` when no put creates its data file under a get that has opened earlier
metadata, and no get reads a file that is still written to.
-/

namespace Squiddish
namespace Cache

open Lib

/-! ## The writer and the gets -/

/-- The holder of `write_mutex`, if there is one. -/
inductive Writer
  | idle (cache : DiskCache)
  | busy (rest : DiskProg (Outcome Unit × DiskCache))

/-- The operation the writer is about to call. -/
def Writer.pending : Writer → Option (FileOp Path)
  | .idle _ => none
  | .busy rest => rest.pending

structure Reader where
  key : CacheKey
  rest : DiskProg (Outcome (Option CacheEntry))

structure Shared where
  files : FileStore Path
  writer : Writer
  gets : Nat → Option Reader
  puts : List (CacheKey × CacheEntry)

inductive SharedEvent
  | put (key : CacheKey) (entry : CacheEntry)
  | remove (key : CacheKey)
  | write
  | done
  | get (id : Nat) (key : CacheKey)
  | read (id : Nat)
  | answer (id : Nat)
  deriving DecidableEq, Repr

def Shared.setGet (s : Shared) (id : Nat) (reader : Option Reader) : Shared :=
  { s with gets := Function.update s.gets id reader }

inductive SharedStep (S : Serde) : Shared → SharedEvent → Shared → Prop
  | put {s : Shared} {cache : DiskCache} {key : CacheKey} {entry : CacheEntry} :
      s.writer = .idle cache →
      SharedStep S s (.put key entry)
        { s with
          writer := .busy (DiskCache.put S key entry cache)
          puts := s.puts ++ [(key, entry)] }
  | remove {s : Shared} {cache : DiskCache} {key : CacheKey} :
      s.writer = .idle cache →
      SharedStep S s (.remove key) { s with writer := .busy (DiskCache.remove key cache) }
  | write {s : Shared} {rest rest' : DiskProg (Outcome Unit × DiskCache)}
      {files : FileStore Path} :
      s.writer = .busy rest →
      Prog.Step (Prog.Does FileOp.apply) (rest, s.files) (rest', files) →
      SharedStep S s .write { s with files := files, writer := .busy rest' }
  | done {s : Shared} {r : Outcome Unit} {cache : DiskCache} :
      s.writer = .busy (.ret (r, cache)) →
      SharedStep S s .done { s with writer := .idle cache }
  | get {s : Shared} {id : Nat} {key : CacheKey} :
      s.gets id = none →
      SharedStep S s (.get id key) (s.setGet id (some ⟨key, DiskCache.get S key⟩))
  | read {s : Shared} {id : Nat} {key : CacheKey}
      {rest rest' : DiskProg (Outcome (Option CacheEntry))} {files : FileStore Path} :
      s.gets id = some ⟨key, rest⟩ →
      Prog.Step (Prog.Does FileOp.apply) (rest, s.files) (rest', files) →
      SharedStep S s (.read id) ({ s with files := files }.setGet id (some ⟨key, rest'⟩))
  | answer {s : Shared} {id : Nat} {key : CacheKey} {r : Outcome (Option CacheEntry)} :
      s.gets id = some ⟨key, .ret r⟩ →
      SharedStep S s (.answer id) (s.setGet id none)

/-- A cache of this size on an empty directory. -/
def Shared.init (maxSize : Nat) : Shared where
  files := FileStore.empty 0
  writer := .idle { maxSize := maxSize, currentSize := 0, evictionOrder := [] }
  gets := fun _ => none
  puts := []

/-! ## The property and the condition -/

/-- A get that is about to return has found nothing or an entry that was put as a whole. -/
def Untorn (s : Shared) : Prop :=
  ∀ id key r, s.gets id = some ⟨key, .ret r⟩ →
    r = .ok none ∨ ∃ entry, r = .ok (some entry) ∧ WasPut s.puts key entry

/-- The writer creates a data file only while every get of its key that stands between its two
opens has the metadata file the directory leads to, and no get reads a file the writer is about to
write to. -/
def Apart (S : Serde) (s : Shared) : SharedEvent → Prop
  | .write => ∀ id key m, s.gets id = some ⟨key, openData S key m⟩ →
      s.writer.pending = some (.create key.dataPath) → s.files.dir key.metaPath = some m
  | .read id => ∀ reader f b, s.gets id = some reader →
      reader.rest.pending = some (.readToEnd f) → s.writer.pending ≠ some (.write f b)
  | _ => True

end Cache
end Squiddish
