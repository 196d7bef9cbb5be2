import Mathlib.Algebra.Order.BigOperators.Group.Finset
import Mathlib.Data.List.Dedup
import Squiddish.Lib.Runs
import Squiddish.Cache.Balance
import Squiddish.Cache.Example

/-!
# Accounting — the disk cache counts what its directory holds, in the order of the last writes

Opening the cache on a directory of complete entries makes counter and order right, and they stay
right over every run of `put`, `get` and `remove` in which no file-system step fails.
-/

namespace Squiddish
namespace Cache

open Lib

/-! ## Opening the cache -/

def isMetaFile (path : Path) : Bool :=
  match path.getLast? with
  | some name => extension name == some metaExt
  | none => false

/-- What the walk records of one file. -/
def indexed (s : FileStore Path) (path : Path) : Option IndexedFile :=
  match path.getLast? with
  | none => none
  | some name =>
      if extension name = some metaExt then
        (s.dir path).map fun f =>
          { hashHex := fileStem name
            size := (s.content f).length + s.size (withExtension path dataExt)
            modified := s.modified f }
      else
        none

theorem perform_indexFiles (s : FileStore Path) (walk : List Path) (files : List IndexedFile)
    (totalSize : Nat) :
    perform (indexFiles walk files totalSize) s =
      ((files ++ walk.filterMap (indexed s),
        totalSize + ((walk.filterMap (indexed s)).map IndexedFile.size).sum), s) := by
  induction walk generalizing files totalSize with
  | nil =>
      simp [indexFiles]
  | cons path walk ih =>
      cases hname : path.getLast? with
      | none =>
          have hskip : indexed s path = none := by
            simp [indexed, hname]
          simpa [indexFiles, hname, hskip] using ih files totalSize
      | some name =>
          by_cases hext : extension name = some metaExt
          · cases hdir : s.dir path with
            | none =>
                have hskip : indexed s path = none := by
                  simp [indexed, hname, hdir]
                simpa [indexFiles, hname, hext, hdir, hskip, FileOp.apply] using
                  ih files totalSize
            | some f =>
                have hfile : indexed s path = some
                    { hashHex := fileStem name
                      size := (s.content f).length + s.size (withExtension path dataExt)
                      modified := s.modified f } := by
                  simp [indexed, hname, hext, hdir]
                simp [indexFiles, hname, hext, hdir, hfile, FileOp.apply, ih, Nat.add_assoc]
          · have hskip : indexed s path = none := by
              simp [indexed, hname, hext]
            simpa [indexFiles, hname, hext, hskip] using ih files totalSize

theorem withExtension_metaPath (key : CacheKey) :
    withExtension key.metaPath dataExt = key.dataPath := by
  rw [CacheKey.metaPath_eq, CacheKey.dataPath_eq]
  simp [entryPath, withExtension, fileStem_entry key dot_notMem_metaExt]

theorem indexed_metaPath {s : FileStore Path} {key : CacheKey} {f : Nat}
    (h : s.dir key.metaPath = some f) :
    indexed s key.metaPath = some
      { hashHex := key.hashHex
        size := s.size key.metaPath + s.size key.dataPath
        modified := s.modifiedAt key.metaPath } := by
  have hname : key.metaPath.getLast? = some (key.hashHex ++ '.' :: metaExt) := by
    simp [CacheKey.metaPath_eq, entryPath]
  have hsize : s.size key.metaPath = (s.content f).length :=
    FileStore.size_of_file (FileStore.file_of_dir h)
  simp [indexed, hname, extension_entry key dot_notMem_metaExt,
    fileStem_entry key dot_notMem_metaExt, h, hsize, withExtension_metaPath,
    FileStore.modifiedAt]

theorem isMetaFile_metaPath (key : CacheKey) : isMetaFile key.metaPath = true := by
  simp [CacheKey.metaPath_eq, entryPath, isMetaFile, extension_entry key dot_notMem_metaExt]

theorem isMetaFile_dataPath (key : CacheKey) : isMetaFile key.dataPath = false := by
  simp [CacheKey.dataPath_eq, entryPath, isMetaFile, extension_entry key dot_notMem_dataExt,
    metaExt_ne_dataExt.symm]

theorem indexed_dataPath (s : FileStore Path) (key : CacheKey) :
    indexed s key.dataPath = none := by
  have hname : key.dataPath.getLast? = some (key.hashHex ++ '.' :: dataExt) := by
    simp [CacheKey.dataPath_eq, entryPath]
  simp [indexed, hname, extension_entry key dot_notMem_dataExt, metaExt_ne_dataExt.symm]

/-- What the walk adds up. -/
def indexedBytes (s : FileStore Path) : Nat :=
  ∑ p ∈ s.names, ((indexed s p).map IndexedFile.size).getD 0

theorem mem_names_of_size {s : FileStore Path} {p : Path} (hsize : s.size p ≠ 0) :
    p ∈ s.names := by
  rw [FileStore.mem_names_iff_file]
  cases hp : s.file p with
  | none =>
      exact absurd (FileStore.size_of_absent hp) hsize
  | some bytes =>
      rfl

section Walk

variable {s : FileStore Path} (h : Named s)

include h

/-- The walk records the metadata file of each entry, with the sizes of both. -/
theorem indexed_eq_some {path : Path} {file : IndexedFile} (hfile : indexed s path = some file) :
    ∃ key : CacheKey, path = key.metaPath ∧ (s.file key.metaPath).isSome = true ∧
      file = { hashHex := key.hashHex
               size := s.size key.metaPath + s.size key.dataPath
               modified := s.modifiedAt key.metaPath } := by
  cases hdir : s.dir path with
  | none =>
      cases hname : path.getLast? with
      | none =>
          simp [indexed, hname] at hfile
      | some name =>
          simp [indexed, hname, hdir] at hfile
  | some f =>
      rcases h path _ (FileStore.file_of_dir hdir) with ⟨key, rfl | rfl⟩
      · rw [indexed_metaPath hdir] at hfile
        refine ⟨key, rfl, ?_, (Option.some.inj hfile).symm⟩
        simp [FileStore.file_of_dir hdir]
      · rw [indexed_dataPath] at hfile
        simp at hfile

theorem nodup_indexed {walk : List Path} (hwalk : walk.Nodup) :
    ((walk.filterMap (indexed s)).map IndexedFile.hashHex).Nodup := by
  rw [List.map_filterMap]
  refine hwalk.filterMap ?_
  intro p q hash hp hq
  rcases Option.map_eq_some_iff.1 hp with ⟨x, hx, hxh⟩
  rcases Option.map_eq_some_iff.1 hq with ⟨y, hy, hyh⟩
  rcases indexed_eq_some h hx with ⟨key, rfl, _, rfl⟩
  rcases indexed_eq_some h hy with ⟨key', rfl, _, rfl⟩
  exact CacheKey.metaPath_inj.2 (hxh.trans hyh.symm)

theorem mem_indexed_iff {walk : List Path} (hwalk : ∀ p, p ∈ walk ↔ p ∈ s.names) (hashHex : Str) :
    hashHex ∈ (walk.filterMap (indexed s)).map IndexedFile.hashHex ↔ Stored s hashHex := by
  constructor
  · intro hmem
    rcases List.mem_map.1 hmem with ⟨file, hfile, rfl⟩
    rcases List.mem_filterMap.1 hfile with ⟨path, _, hpath⟩
    rcases indexed_eq_some h hpath with ⟨key, _, hsome, rfl⟩
    exact ⟨key, rfl, hsome⟩
  · rintro ⟨key, rfl, hsome⟩
    rcases Option.isSome_iff_exists.1 hsome with ⟨bytes, hbytes⟩
    rcases Option.map_eq_some_iff.1 hbytes with ⟨f, hf, _⟩
    refine List.mem_map.2 ⟨_, List.mem_filterMap.2 ⟨key.metaPath, ?_, indexed_metaPath hf⟩, rfl⟩
    rw [hwalk, FileStore.mem_names_iff_file]
    exact hsome

theorem mem_names_pair {p : Path} (hp : p ∈ s.names) :
    ∃ key : CacheKey, p = key.metaPath ∨ p = key.dataPath := by
  rw [FileStore.mem_names_iff_file] at hp
  rcases Option.isSome_iff_exists.1 hp with ⟨bytes, hbytes⟩
  exact h p bytes hbytes

theorem indexed_size_of_meta {p : Path} (hp : p ∈ s.names) (hmeta : isMetaFile p = true) :
    ((indexed s p).map IndexedFile.size).getD 0 =
      s.size p + s.size (withExtension p dataExt) := by
  rcases mem_names_pair h hp with ⟨key, rfl | rfl⟩
  · rcases Option.isSome_iff_exists.1 ((s.mem_names _).1 hp) with ⟨f, hf⟩
    simp [indexed_metaPath hf, withExtension_metaPath]
  · simp [isMetaFile_dataPath] at hmeta

theorem indexed_size_of_data {p : Path} (hp : p ∈ s.names) (hmeta : ¬ isMetaFile p = true) :
    ((indexed s p).map IndexedFile.size).getD 0 = 0 := by
  rcases mem_names_pair h hp with ⟨key, rfl | rfl⟩
  · simp [isMetaFile_metaPath] at hmeta
  · simp [indexed_dataPath]

theorem cacheBytes_eq_sum : cacheBytes s = ∑ p ∈ s.names, s.size p := by
  refine Finset.sum_congr rfl ?_
  intro p hp
  rcases mem_names_pair h hp with ⟨key, rfl | rfl⟩
  · simp
  · simp

/-- Different metadata files have different data files. -/
theorem withExtension_injOn :
    Set.InjOn (fun p => withExtension p dataExt)
      (s.names.filter (fun p => isMetaFile p = true) : Set Path) := by
  intro p hp q hq heq
  rcases Finset.mem_filter.1 hp with ⟨hnames, hmeta⟩
  rcases Finset.mem_filter.1 hq with ⟨hnames', hmeta'⟩
  -- both are metadata files of keys, and their data files tell the keys
  rcases mem_names_pair h hnames with ⟨key, rfl | rfl⟩
  · rcases mem_names_pair h hnames' with ⟨key', rfl | rfl⟩
    · have hdata : key.dataPath = key'.dataPath := by
        simpa [withExtension_metaPath] using heq
      exact CacheKey.metaPath_inj.2 (CacheKey.dataPath_inj.1 hdata)
    · simp [isMetaFile_dataPath] at hmeta'
  · simp [isMetaFile_dataPath] at hmeta

/-- These are the metadata files and the data that belongs to them. -/
theorem indexedBytes_eq_sum :
    indexedBytes s = ∑ p ∈ s.names.filter (fun p => isMetaFile p = true), s.size p +
      ∑ p ∈ s.names.filter (fun p => isMetaFile p = true), s.size (withExtension p dataExt) := by
  have hmetas : ∀ p ∈ s.names.filter (fun p => isMetaFile p = true),
      ((indexed s p).map IndexedFile.size).getD 0 =
        s.size p + s.size (withExtension p dataExt) := by
    intro p hp
    exact indexed_size_of_meta h (Finset.mem_filter.1 hp).1 (Finset.mem_filter.1 hp).2
  have hdatas : ∀ p ∈ s.names.filter (fun p => ¬ isMetaFile p = true),
      ((indexed s p).map IndexedFile.size).getD 0 = 0 := by
    intro p hp
    exact indexed_size_of_data h (Finset.mem_filter.1 hp).1 (Finset.mem_filter.1 hp).2
  calc
    indexedBytes s =
        ∑ p ∈ s.names.filter (fun p => isMetaFile p = true),
          ((indexed s p).map IndexedFile.size).getD 0 +
        ∑ p ∈ s.names.filter (fun p => ¬ isMetaFile p = true),
          ((indexed s p).map IndexedFile.size).getD 0 :=
      (Finset.sum_filter_add_sum_filter_not _ _ _).symm
    _ = ∑ p ∈ s.names.filter (fun p => isMetaFile p = true),
          (s.size p + s.size (withExtension p dataExt)) + 0 := by
      rw [Finset.sum_congr rfl hmetas, Finset.sum_eq_zero hdatas]
    _ = ∑ p ∈ s.names.filter (fun p => isMetaFile p = true), s.size p +
        ∑ p ∈ s.names.filter (fun p => isMetaFile p = true),
          s.size (withExtension p dataExt) := by
      rw [add_zero, Finset.sum_add_distrib]

theorem cacheBytes_eq_add :
    cacheBytes s = ∑ p ∈ s.names.filter (fun p => isMetaFile p = true), s.size p +
      ∑ p ∈ s.names.filter (fun p => ¬ isMetaFile p = true), s.size p := by
  rw [Finset.sum_filter_add_sum_filter_not, cacheBytes_eq_sum h]

/-- The data that has metadata is some of the data. -/
theorem sum_data_of_meta_le {names : Finset Path}
    (hnames : ∀ key : CacheKey, (s.file key.metaPath).isSome = true → s.size key.dataPath ≠ 0 →
      key.dataPath ∈ names) :
    ∑ p ∈ s.names.filter (fun p => isMetaFile p = true), s.size (withExtension p dataExt) ≤
      ∑ p ∈ names, s.size p := by
  rw [← Finset.sum_image (f := s.size) (withExtension_injOn h)]
  refine Finset.sum_le_sum_of_ne_zero ?_
  intro q hq hsize
  rcases Finset.mem_image.1 hq with ⟨p, hp, rfl⟩
  rcases Finset.mem_filter.1 hp with ⟨hp, hmeta⟩
  rcases mem_names_pair h hp with ⟨key, rfl | rfl⟩
  · rw [withExtension_metaPath] at hsize ⊢
    exact hnames key ((FileStore.mem_names_iff_file).1 hp) hsize
  · simp [isMetaFile_dataPath] at hmeta

/-- All data belongs to metadata where there is no orphan. -/
theorem le_sum_data_of_meta (hindexable : Indexable s) :
    ∑ p ∈ s.names.filter (fun p => ¬ isMetaFile p = true), s.size p ≤
      ∑ p ∈ s.names.filter (fun p => isMetaFile p = true), s.size (withExtension p dataExt) := by
  rw [← Finset.sum_image (f := s.size) (withExtension_injOn h)]
  refine Finset.sum_le_sum_of_ne_zero ?_
  intro p hp hsize
  rcases Finset.mem_filter.1 hp with ⟨hp, hmeta⟩
  rcases mem_names_pair h hp with ⟨key, rfl | rfl⟩
  · simp [isMetaFile_metaPath] at hmeta
  · have hfile : key.metaPath ∈ s.names := by
      rw [FileStore.mem_names_iff_file]
      cases hfile : s.file key.metaPath with
      | none =>
          exact absurd (hindexable.orphan key hfile) hsize
      | some bytes =>
          rfl
    exact Finset.mem_image.2 ⟨key.metaPath,
      Finset.mem_filter.2 ⟨hfile, isMetaFile_metaPath key⟩, withExtension_metaPath key⟩

theorem indexedBytes_eq (hindexable : Indexable s) : indexedBytes s = cacheBytes s := by
  have hle : ∑ p ∈ s.names.filter (fun p => isMetaFile p = true),
      s.size (withExtension p dataExt) ≤
        ∑ p ∈ s.names.filter (fun p => ¬ isMetaFile p = true), s.size p := by
    refine sum_data_of_meta_le h ?_
    intro key _ hsize
    exact Finset.mem_filter.2 ⟨mem_names_of_size hsize, by simp [isMetaFile_dataPath]⟩
  rw [indexedBytes_eq_sum h, cacheBytes_eq_add h,
    Nat.le_antisymm hle (le_sum_data_of_meta h hindexable)]

/-- Data without metadata is not counted. -/
theorem indexedBytes_lt {key : CacheKey} (hmeta : s.file key.metaPath = none)
    (hdata : 0 < s.size key.dataPath) : indexedBytes s < cacheBytes s := by
  have hmem : key.dataPath ∈ s.names.filter (fun p => ¬ isMetaFile p = true) :=
    Finset.mem_filter.2 ⟨mem_names_of_size (Nat.ne_of_gt hdata), by simp [isMetaFile_dataPath]⟩
  have hle : ∑ p ∈ s.names.filter (fun p => isMetaFile p = true),
      s.size (withExtension p dataExt) ≤
        ∑ p ∈ (s.names.filter (fun p => ¬ isMetaFile p = true)).erase key.dataPath, s.size p := by
    refine sum_data_of_meta_le h ?_
    intro key' hfile hsize
    -- the data file in question has no metadata, so it is none of these
    refine Finset.mem_erase.2 ⟨?_, Finset.mem_filter.2 ⟨mem_names_of_size hsize, by
      simp [isMetaFile_dataPath]⟩⟩
    intro heq
    rw [CacheKey.metaPath_inj.2 (CacheKey.dataPath_inj.1 heq), hmeta] at hfile
    cases hfile
  -- so it is missing from the sum
  have herase := Finset.add_sum_erase _ s.size hmem
  rw [indexedBytes_eq_sum h, cacheBytes_eq_add h]
  omega

end Walk

theorem sum_filterMap {α β : Type} (f : α → Option β) (g : β → Nat) (l : List α) :
    ((l.filterMap f).map g).sum = (l.map (fun a => ((f a).map g).getD 0)).sum := by
  induction l with
  | nil =>
      rfl
  | cons a l ih =>
      cases hfa : f a with
      | none =>
          simpa [hfa] using ih
      | some b =>
          simpa [hfa] using ih

/-- The stored hashes, those whose metadata was written first at the front. -/
def OldestFirst (s : FileStore Path) (order : List Str) : Prop :=
  order.Pairwise (fun a b =>
    s.modifiedAt (entryPath a metaExt) ≤ s.modifiedAt (entryPath b metaExt))

/-- What opening the cache makes of any directory with files of entries. -/
theorem new_named {s : FileStore Path} (h : Named s) {walk : List Path}
    (hwalk : walk.Perm s.names.toList) :
    ∃ order : List Str, order.Nodup ∧ (∀ hashHex, hashHex ∈ order ↔ Stored s hashHex) ∧
      OldestFirst s order ∧ ∀ maxSize, perform (DiskCache.new maxSize walk) s =
        (.ok { maxSize := maxSize, currentSize := indexedBytes s, evictionOrder := order }, s) := by
  have hmem : ∀ p, p ∈ walk ↔ p ∈ s.names := by
    intro p
    rw [hwalk.mem_iff, Finset.mem_toList]
  have hnodup : walk.Nodup := hwalk.nodup_iff.2 s.names.nodup_toList
  let files := walk.filterMap (indexed s)
  let le : IndexedFile → IndexedFile → Bool := fun a b => decide (a.modified ≤ b.modified)
  have hperm : ((files.mergeSort le).map IndexedFile.hashHex).Perm
      (files.map IndexedFile.hashHex) :=
    (List.mergeSort_perm files le).map _
  -- the walk adds up what it records, in whatever order it goes
  have htotal : (files.map IndexedFile.size).sum = indexedBytes s := by
    calc
      (files.map IndexedFile.size).sum =
          (walk.map (fun p => ((indexed s p).map IndexedFile.size).getD 0)).sum :=
        sum_filterMap _ _ _
      _ = (s.names.toList.map (fun p => ((indexed s p).map IndexedFile.size).getD 0)).sum :=
        (hwalk.map _).sum_eq
      _ = indexedBytes s := by
        rw [Finset.sum_map_toList, indexedBytes]
  refine ⟨(files.mergeSort le).map IndexedFile.hashHex, ?_, ?_, ?_, ?_⟩
  · exact hperm.nodup_iff.2 (nodup_indexed h hnodup)
  · intro hashHex
    rw [hperm.mem_iff]
    exact mem_indexed_iff h hmem hashHex
  · have hsorted : (files.mergeSort le).Pairwise (fun a b => le a b = true) :=
      List.pairwise_mergeSort
        (fun a b c hab hbc => by simp only [le, decide_eq_true_eq] at *; omega)
        (fun a b => by simp only [le, Bool.or_eq_true, decide_eq_true_eq]; omega) files
    refine List.pairwise_map.2 (hsorted.imp_of_mem ?_)
    intro a b ha hb hab
    -- a recorded file has the time of the metadata file of its hash
    have hmodified : ∀ file ∈ files.mergeSort le,
        s.modifiedAt (entryPath file.hashHex metaExt) = file.modified := by
      intro file hfile
      rcases List.mem_filterMap.1 ((List.mergeSort_perm files le).mem_iff.1 hfile) with
        ⟨path, _, hpath⟩
      rcases indexed_eq_some h hpath with ⟨key, _, _, rfl⟩
      simp [CacheKey.metaPath_eq]
    rw [hmodified a ha, hmodified b hb]
    simpa [le] using hab
  · intro maxSize
    simp [DiskCache.new, rebuildIndex, FileOp.apply, perform_indexFiles, files, le, ← htotal]

/-- Opening the cache on what can be indexed makes counter and order right. -/
theorem new_counted {s : FileStore Path} (h : Named s) (hindexable : Indexable s)
    {walk : List Path} (hwalk : walk.Perm s.names.toList) (maxSize : Nat) :
    ∃ cache, perform (DiskCache.new maxSize walk) s = (.ok cache, s) ∧ Counted s cache ∧
      cache.maxSize = maxSize ∧ OldestFirst s cache.evictionOrder := by
  rcases new_named h hwalk with ⟨order, hnodup, hstored, holdest, hnew⟩
  exact ⟨_, hnew maxSize, ⟨⟨h, hindexable, hnodup, hstored⟩, indexedBytes_eq h hindexable⟩, rfl,
    holdest⟩

/-- Opening the cache on complete entries that fit. -/
theorem new_spec {s : FileStore Path} (h : CompleteEntries s) {walk : List Path}
    (hwalk : walk.Perm s.names.toList) {maxSize : Nat} (hsize : cacheBytes s ≤ maxSize) :
    ∃ cache, perform (DiskCache.new maxSize walk) s = (.ok cache, s) ∧ Balanced s cache ∧
      cache.maxSize = maxSize ∧ OldestFirst s cache.evictionOrder := by
  rcases new_counted h.named h.indexable hwalk maxSize with ⟨cache, hnew, hcounted, hmax, holdest⟩
  have hbound : cache.currentSize ≤ cache.maxSize := by
    rwa [hcounted.size, hmax]
  exact ⟨cache, hnew, .of_counted hcounted h hbound, hmax, holdest⟩

/-! ## Runs -/

/-- The operations on an open cache. -/
inductive DiskOp
  | put (key : CacheKey) (entry : CacheEntry)
  | get (key : CacheKey)
  | remove (key : CacheKey)
  deriving DecidableEq, Repr

/-- An open cache and its directory. -/
structure OpenCache where
  files : FileStore Path
  cache : DiskCache

def DiskOp.run (S : Serde) (cache : DiskCache) : DiskOp → DiskProg DiskCache
  | .put key entry => DiskCache.put S key entry cache >>= fun r => .ret r.2
  | .get key => DiskCache.get S key >>= fun _ => .ret cache
  | .remove key => DiskCache.remove key cache >>= fun r => .ret r.2

/-- An operation is performed, at any time of day. -/
def DiskStep (S : Serde) (s : OpenCache) (op : DiskOp) (t : OpenCache) : Prop :=
  ∃ now, perform (op.run S s.cache) (s.files.setClock now) = (t.cache, t.files)

/-- The hashes that the operations write, in order. -/
def writesOf (S : Serde) (maxSize : Nat) (ops : List DiskOp) : List Str :=
  ops.flatMap fun op =>
    match op with
    | .put key entry => if fits S maxSize entry then [key.hashHex] else []
    | .get _ => []
    | .remove _ => []

/-- The counter is the length of the files and within the limit, and the order names each stored
hash once and no other, in the order of the last writes. -/
structure Accounted (s : OpenCache) (writes : List Str) : Prop where
  size : s.cache.currentSize = cacheBytes s.files
  nodup : s.cache.evictionOrder.Nodup
  stored : ∀ hashHex, hashHex ∈ s.cache.evictionOrder ↔ Stored s.files hashHex
  lastWrites : s.cache.evictionOrder.Sublist writes.dedup
  bound : s.cache.currentSize ≤ s.cache.maxSize

theorem dedup_concat {α : Type} [DecidableEq α] (l : List α) (a : α) :
    (l ++ [a]).dedup = l.dedup.filter (fun b => b ≠ a) ++ [a] := by
  induction l with
  | nil =>
      simp
  | cons b l ih =>
      by_cases hba : b = a
      · subst hba
        by_cases hb : b ∈ l
        · simpa [List.dedup_cons, hb] using ih
        · simpa [List.dedup_cons, hb] using ih
      · by_cases hb : b ∈ l
        · simpa [List.dedup_cons, hb] using ih
        · simpa [List.dedup_cons, hb, hba] using ih

theorem Balanced.setClock {s : FileStore Path} {cache : DiskCache} (h : Balanced s cache)
    (now : Nat) : Balanced (s.setClock now) cache where
  tracked :=
    { complete :=
        { named := h.tracked.complete.named
          complete := h.tracked.complete.complete }
      nodup := h.tracked.nodup
      stored := h.tracked.stored }
  size := h.size
  bound := h.bound

/-- What one operation keeps. -/
theorem DiskStep.balanced {S : Serde} (hS : S.NonEmpty) {s t : OpenCache} {op : DiskOp}
    {writes : List Str} (hstep : DiskStep S s op t) (h : Balanced s.files s.cache)
    (hwrites : s.cache.evictionOrder.Sublist writes.dedup) :
    Balanced t.files t.cache ∧ t.cache.maxSize = s.cache.maxSize ∧
      t.cache.evictionOrder.Sublist (writes ++ writesOf S s.cache.maxSize [op]).dedup := by
  rcases hstep with ⟨now, hexec⟩
  have hclock := h.setClock now
  cases op with
  | put key entry =>
      rcases put_spec hS hclock key entry with ⟨r, cache, files, hput, hbalanced, hmax, hsub, -⟩
      have heq : (cache, files) = (t.cache, t.files) := by
        simpa [DiskOp.run, hput] using hexec
      cases heq
      refine ⟨hbalanced, hmax, hsub.trans ?_⟩
      -- a put that is written moves its hash to the end
      by_cases hfits : fits S s.cache.maxSize entry = true
      · simp only [hfits, if_true, writesOf, List.flatMap_cons, List.flatMap_nil,
          List.append_nil, dedup_concat]
        exact (hwrites.filter _).append (List.Sublist.refl _)
      · simpa [hfits, writesOf] using hwrites
  | get key =>
      have heq : (s.cache, s.files.setClock now) = (t.cache, t.files) := by
        simpa [DiskOp.run, perform_get_store] using hexec
      have hcache : s.cache = t.cache := congrArg Prod.fst heq
      have hfiles : s.files.setClock now = t.files := congrArg Prod.snd heq
      rw [← hcache, ← hfiles]
      exact ⟨hclock, rfl, by simpa [writesOf] using hwrites⟩
  | remove key =>
      rcases remove_spec hclock key with ⟨cache, files, hremove, hbalanced, hmax, hsub⟩
      have heq : (cache, files) = (t.cache, t.files) := by
        have hremove' : Prog.exec FileOp.apply (DiskCache.remove key s.cache)
            (s.files.setClock now) = ((.ok (), cache), files) := hremove
        rw [DiskOp.run, perform, Prog.exec_bind, hremove'] at hexec
        exact hexec
      cases heq
      exact ⟨hbalanced, hmax, by simpa [writesOf] using hsub.trans hwrites⟩

/-- From a directory of complete entries that fit, over every run of the opened cache, counter
and order say what the directory holds. -/
theorem accounted_run {S : Serde} (hS : S.NonEmpty) {s : FileStore Path}
    (hs : CompleteEntries s) {walk : List Path} (hwalk : walk.Perm s.names.toList)
    {maxSize : Nat} (hsize : cacheBytes s ≤ maxSize) :
    ∃ cache, perform (DiskCache.new maxSize walk) s = (.ok cache, s) ∧
      OldestFirst s cache.evictionOrder ∧
      ∀ ops t, Run (DiskStep S) { files := s, cache := cache } ops t →
        Accounted t (cache.evictionOrder ++ writesOf S maxSize ops) := by
  rcases new_spec hs hwalk hsize with ⟨cache, hnew, hbalanced, hmax, holdest⟩
  refine ⟨cache, hnew, holdest, ?_⟩
  intro ops t hrun
  have hinv := hrun.history
    (I := fun ops t => Balanced t.files t.cache ∧ t.cache.maxSize = maxSize ∧
      t.cache.evictionOrder.Sublist (cache.evictionOrder ++ writesOf S maxSize ops).dedup)
    (b := []) ?_ ?_
  · rcases hinv with ⟨hbal, _, hlast⟩
    exact
      { size := hbal.size
        nodup := hbal.tracked.nodup
        stored := hbal.tracked.stored
        lastWrites := by simpa using hlast
        bound := hbal.bound }
  · rintro ops' u op v ⟨hbal, humax, hlast⟩ hstep
    rcases hstep.balanced hS hbal hlast with ⟨hbal', hvmax, hlast'⟩
    refine ⟨hbal', hvmax.trans humax, ?_⟩
    simpa [writesOf, humax] using hlast'
  · refine ⟨hbalanced, hmax, ?_⟩
    simp [writesOf, List.Nodup.dedup hbalanced.tracked.nodup]

/-! ## A directory with one entry -/

theorem CompleteEntries.empty (now : Nat) : CompleteEntries (FileStore.empty now) where
  named := by
    intro p bytes hp
    simp [FileStore.file, FileStore.empty] at hp
  complete := fun _ => .inl rfl

/-- The directory a run left behind that wrote one entry. -/
def exampleFiles : FileStore Path :=
  saveEntry exampleKey (exampleText shortEntry.metadata) shortEntry.data (FileStore.empty 0)

theorem cacheBytes_exampleFiles : cacheBytes exampleFiles ≤ 1024 := by
  have hbytes := cacheBytes_saveEntry (s := FileStore.empty 0) exampleKey
    (exampleText shortEntry.metadata) shortEntry.data rfl
  have hempty : cacheBytes (FileStore.empty 0) = 0 := rfl
  have hlen := length_exampleText_short
  have hdata : shortEntry.data.length = 2 := rfl
  rw [exampleFiles]
  omega

theorem accounted_run_reopened :
    ∃ cache, perform (DiskCache.new 1024 exampleFiles.names.toList) exampleFiles =
        (.ok cache, exampleFiles) ∧
      OldestFirst exampleFiles cache.evictionOrder ∧
      ∀ ops t, Run (DiskStep exampleSerde) { files := exampleFiles, cache := cache } ops t →
        Accounted t (cache.evictionOrder ++ writesOf exampleSerde 1024 ops) :=
  accounted_run exampleSerde_nonEmpty
    ((CompleteEntries.empty 0).saveEntry (exampleText_ne_nil _) _)
    (List.Perm.refl _) cacheBytes_exampleFiles

end Cache
end Squiddish
