import Mathlib.Data.List.Nodup
import Squiddish.Lib.Listing
import Squiddish.Lib.Runs
import Squiddish.Lib.Utf8
import Squiddish.Cache.Effects

/-!
# Trees — what is counted in a directory of any contents, and what an eviction finds of it

`rebuild_index` walks through whatever lies below the cache directory.  Names are bytes there, and
need not be text; there are directories, and names that the cache would never give a file.
Evictions go the other way, from the stem of a name to the paths of an entry.
-/

namespace Squiddish
namespace Cache

open Lib

/-! ## Names as bytes -/

/-- A path below the cache directory as the system has it. -/
abbrev OsPath := List Bytes

/-- The byte of a dot. -/
def dotByte : UInt8 := 46

/-- `file_stem`. -/
def osFileStem (name : Bytes) : Bytes :=
  match rsplitOnce dotByte name with
  | some (b :: stem, _) => b :: stem
  | _ => name

/-- `extension`. -/
def osExtension (name : Bytes) : Option Bytes :=
  match rsplitOnce dotByte name with
  | some (_ :: _, ext) => some ext
  | _ => none

/-- `with_extension`. -/
def osWithExtension (path : OsPath) (ext : Str) : OsPath :=
  match path.getLast? with
  | some name => path.dropLast ++ [osFileStem name ++ dotByte :: utf8Bytes ext]
  | none => path

/-- A name with the extension `meta`. -/
def isMetaName (name : Bytes) : Bool :=
  decide ((osExtension name).bind utf8Text = some metaExt)

theorem osExtension_append {stem ext : Bytes} {b : UInt8} (hext : dotByte ∉ ext) :
    osExtension ((b :: stem) ++ dotByte :: ext) = some ext := by
  have hsplit : rsplitOnce dotByte ((b :: stem) ++ dotByte :: ext) = some (b :: stem, ext) :=
    rsplitOnce_eq_some.2 ⟨rfl, hext⟩
  simp only [osExtension, hsplit]

/-- A name with an extension is its stem, a dot and the extension. -/
theorem eq_append_of_osExtension {name ext : Bytes} (h : osExtension name = some ext) :
    ∃ b stem, name = (b :: stem) ++ dotByte :: ext ∧ osFileStem name = b :: stem := by
  unfold osExtension at h
  split at h
  · rename_i b stem ext' hsplit
    have hext : ext' = ext := Option.some.inj h
    subst hext
    refine ⟨b, stem, (rsplitOnce_eq_some.1 hsplit).1, ?_⟩
    simp only [osFileStem, hsplit]
  · cases h

theorem isMetaName_iff {name : Bytes} :
    isMetaName name = true ↔ osExtension name = some (utf8Bytes metaExt) := by
  rw [isMetaName, decide_eq_true_eq, Option.bind_eq_some_iff]
  constructor
  · rintro ⟨ext, hext, htext⟩
    rw [hext, utf8Text_eq_some.1 htext]
  · intro h
    exact ⟨_, h, utf8Text_utf8Bytes _⟩

theorem dotByte_notMem_ext : dotByte ∉ utf8Bytes metaExt ∧ dotByte ∉ utf8Bytes dataExt := by
  decide +kernel

theorem utf8Bytes_metaExt_ne : utf8Bytes metaExt ≠ utf8Bytes dataExt :=
  fun h => metaExt_ne_dataExt (utf8Bytes_injective h)

theorem osWithExtension_append (dir : OsPath) (name : Bytes) (ext : Str) :
    osWithExtension (dir ++ [name]) ext = dir ++ [osFileStem name ++ dotByte :: utf8Bytes ext] := by
  simp [osWithExtension]

/-! ## The index -/

/-- The loop of `rebuild_index` over the files that the walk meets.  A stem that is no text is
counted and not listed. -/
def osIndexFiles :
    List OsPath → List IndexedFile → Nat → FileProg OsPath (List IndexedFile × Nat)
  | [], files, totalSize => .ret (files, totalSize)
  | path :: walk, files, totalSize =>
      match path.getLast? with
      | none => osIndexFiles walk files totalSize
      | some name =>
          if isMetaName name then
            .call (.metadata path) fun r =>
              match r with
              | .error _ => osIndexFiles walk files totalSize
              | .ok metadata =>
                  FileProg.fileSize (osWithExtension path dataExt) >>= fun dataSize =>
                    osIndexFiles walk
                      (files ++ ((utf8Text (osFileStem name)).map (fun hashHex =>
                        { hashHex := hashHex
                          size := metadata.len + dataSize
                          modified := metadata.modified })).toList)
                      (totalSize + (metadata.len + dataSize))
          else
            osIndexFiles walk files totalSize

/-- `rebuild_index`. -/
def osRebuildIndex (walk : List OsPath) (cache : DiskCache) : FileProg OsPath DiskCache :=
  osIndexFiles walk [] 0 >>= fun r =>
    .ret { cache with
      currentSize := r.2
      evictionOrder :=
        (r.1.mergeSort (fun a b => decide (a.modified ≤ b.modified))).map IndexedFile.hashHex }

/-! ## Trees -/

/-- What lies below the cache directory when the cache is opened. -/
structure Tree where
  /-- What the directories list.  One that cannot be read lists nothing. -/
  listing : Listing Bytes
  files : FileStore OsPath
  /-- The directories, with what the system tells of them. -/
  dirs : OsPath → Option FileMetadata
  /-- Where the system finds what a path of the cache names: `..` and links may lead anywhere. -/
  locate : Path → Option OsPath
  distinct : listing.Distinct
  apart : ∀ p, (files.dir p).isSome = true → dirs p = none

def isADirectoryError : IoError :=
  { notFound := false, text := "Is a directory (os error 21)".toList }

namespace Tree

variable (tree : Tree)

/-- The files in the order of the walk. -/
def walk : List OsPath :=
  Listing.walk [([], tree.listing)]

/-- What `fs::metadata` tells. -/
def stat (s : FileStore OsPath) (p : OsPath) : Option FileMetadata :=
  match tree.dirs p with
  | some metadata => some metadata
  | none => (s.dir p).map (fun f => { len := (s.content f).length, modified := s.modified f })

def length (s : FileStore OsPath) (p : OsPath) : Nat :=
  ((tree.stat s p).map FileMetadata.len).getD 0

/-- What an operation does.  Directories are neither written nor removed as files. -/
def osApply : (op : FileOp OsPath) → FileStore OsPath → op.Resp × FileStore OsPath
  | .metadata p, s =>
      match tree.stat s p with
      | some metadata => (.ok metadata, s)
      | none => (.error FileOp.notFoundError, s)
  | .removeFile p, s =>
      match tree.dirs p with
      | some _ => (.error isADirectoryError, s)
      | none => FileOp.apply (.removeFile p) s
  | .create p, s =>
      match tree.dirs p with
      | some _ => (.error isADirectoryError, s)
      | none => FileOp.apply (.create p) s
  | op, s => FileOp.apply op s

/-- The same for the paths that the cache makes of hashes. -/
def apply : (op : FileOp Path) → FileStore OsPath → op.Resp × FileStore OsPath
  | .createDirAll p, s =>
      match tree.locate p with
      | some q => tree.osApply (.createDirAll q) s
      | none => (.error FileOp.notFoundError, s)
  | .create p, s =>
      match tree.locate p with
      | some q => tree.osApply (.create q) s
      | none => (.error FileOp.notFoundError, s)
  | .openFile p, s =>
      match tree.locate p with
      | some q => tree.osApply (.openFile q) s
      | none => (.error FileOp.notFoundError, s)
  | .metadata p, s =>
      match tree.locate p with
      | some q => tree.osApply (.metadata q) s
      | none => (.error FileOp.notFoundError, s)
  | .removeFile p, s =>
      match tree.locate p with
      | some q => tree.osApply (.removeFile q) s
      | none => (.error FileOp.notFoundError, s)
  | .write f b, s => tree.osApply (.write f b) s
  | .flush f, s => tree.osApply (.flush f) s
  | .readToEnd f, s => tree.osApply (.readToEnd f) s

/-- The cache after `rebuild_index`. -/
def rebuilt (maxSize : Nat) : DiskCache :=
  ((osRebuildIndex tree.walk { maxSize := maxSize, currentSize := 0, evictionOrder := [] }).exec
    tree.osApply tree.files).1

/-! ## What is counted -/

/-- A `.meta` file of the walk that can be looked at. -/
def isMeta (path : OsPath) : Bool :=
  match path.getLast? with
  | some name => isMetaName name && (tree.stat tree.files path).isSome
  | none => false

def metaFiles : List OsPath :=
  tree.walk.filter tree.isMeta

/-- The paths whose lengths are added up. -/
def counted : List OsPath :=
  tree.metaFiles.flatMap (fun path => [path, osWithExtension path dataExt])

/-- The stem of a path, when it is text. -/
def stem (path : OsPath) : Option Str :=
  path.getLast?.bind (fun name => utf8Text (osFileStem name))

/-- The stems that are put into the order. -/
def stems : List Str :=
  tree.metaFiles.filterMap stem

/-- What one path of the walk adds to the index. -/
def indexed (path : OsPath) : List IndexedFile :=
  match tree.isMeta path, tree.stat tree.files path, stem path with
  | true, some metadata, some hashHex =>
      [{ hashHex := hashHex
         size := metadata.len + tree.length tree.files (osWithExtension path dataExt)
         modified := metadata.modified }]
  | _, _, _ => []

/-- What it adds to the counter. -/
def weight (path : OsPath) : Nat :=
  if tree.isMeta path then
    tree.length tree.files path + tree.length tree.files (osWithExtension path dataExt)
  else 0

variable {tree}

theorem exec_fileSize_os (p : OsPath) (s : FileStore OsPath) :
    (FileProg.fileSize p).exec tree.osApply s = (tree.length s p, s) := by
  cases hstat : tree.stat s p with
  | none =>
      simp [FileProg.fileSize, osApply, length, hstat]
  | some metadata =>
      simp [FileProg.fileSize, osApply, length, hstat]

theorem exec_osIndexFiles (walk : List OsPath) (files : List IndexedFile) (totalSize : Nat) :
    (osIndexFiles walk files totalSize).exec tree.osApply tree.files =
      ((files ++ walk.flatMap tree.indexed, totalSize + (walk.map tree.weight).sum),
        tree.files) := by
  induction walk generalizing files totalSize with
  | nil =>
      simp [osIndexFiles]
  | cons path walk ih =>
      cases hname : path.getLast? with
      | none =>
          have hmeta : tree.isMeta path = false := by
            simp [isMeta, hname]
          simp [osIndexFiles, hname, ih, indexed, weight, hmeta]
      | some name =>
          by_cases hext : isMetaName name = true
          · cases hstat : tree.stat tree.files path with
            | none =>
                have hmeta : tree.isMeta path = false := by
                  simp [isMeta, hname, hstat]
                simp [osIndexFiles, hname, hext, osApply, hstat, ih, indexed, weight, hmeta]
            | some metadata =>
                have hmeta : tree.isMeta path = true := by
                  simp [isMeta, hname, hext, hstat]
                have hlen : tree.length tree.files path = metadata.len := by
                  simp [length, hstat]
                have hstem : stem path = utf8Text (osFileStem name) := by
                  simp [stem, hname]
                -- a stem that is no text adds to the counter only
                cases htext : utf8Text (osFileStem name) with
                | none =>
                    simp [osIndexFiles, hname, hext, osApply, hstat, ih, indexed, weight, hmeta,
                      hlen, hstem, htext, exec_fileSize_os, Nat.add_assoc]
                | some hashHex =>
                    simp [osIndexFiles, hname, hext, osApply, hstat, ih, indexed, weight, hmeta,
                      hlen, hstem, htext, exec_fileSize_os, Nat.add_assoc]
          · have hmeta : tree.isMeta path = false := by
              simp [isMeta, hname, hext]
            simp [osIndexFiles, hname, hext, ih, indexed, weight, hmeta]

theorem sum_weight (walk : List OsPath) :
    (walk.map tree.weight).sum =
      (((walk.filter tree.isMeta).flatMap (fun path => [path, osWithExtension path dataExt])).map
        (tree.length tree.files)).sum := by
  induction walk with
  | nil =>
      rfl
  | cons path walk ih =>
      cases hmeta : tree.isMeta path with
      | false =>
          simp [weight, hmeta, ih]
      | true =>
          simp [weight, hmeta, ih, Nat.add_assoc]

/-- The counter is the length of what is counted. -/
theorem currentSize_rebuilt (maxSize : Nat) :
    (tree.rebuilt maxSize).currentSize = (tree.counted.map (tree.length tree.files)).sum := by
  have hcounter : (tree.rebuilt maxSize).currentSize = (tree.walk.map tree.weight).sum := by
    simp [rebuilt, osRebuildIndex, exec_osIndexFiles]
  calc
    (tree.rebuilt maxSize).currentSize = (tree.walk.map tree.weight).sum := hcounter
    _ = (tree.counted.map (tree.length tree.files)).sum := sum_weight tree.walk

/-! ## Nothing is counted twice -/

theorem exists_of_isMeta {path : OsPath} (h : tree.isMeta path = true) :
    ∃ dir b stem, path = dir ++ [(b :: stem) ++ dotByte :: utf8Bytes metaExt] ∧
      osWithExtension path dataExt = dir ++ [(b :: stem) ++ dotByte :: utf8Bytes dataExt] := by
  unfold isMeta at h
  split at h
  · rename_i name hlast
    have hname := isMetaName_iff.1 (Bool.and_eq_true_iff.1 h).1
    rcases eq_append_of_osExtension hname with ⟨b, stem, hsplit, hstem⟩
    have hpath : path.dropLast ++ [name] = path :=
      List.dropLast_append_getLast? name (by rw [hlast]; rfl)
    refine ⟨path.dropLast, b, stem, by rw [← hsplit, hpath], ?_⟩
    rw [← hpath, osWithExtension_append, hstem, hpath]
  · cases h

/-- No data path is the path of a `.meta` file. -/
theorem data_ne_meta {path other : OsPath} (hpath : tree.isMeta path = true)
    (hother : tree.isMeta other = true) : osWithExtension path dataExt ≠ other := by
  rcases exists_of_isMeta hpath with ⟨dir, b, stem, -, hdata⟩
  rcases exists_of_isMeta hother with ⟨dir', b', stem', hmeta, -⟩
  rw [hdata, hmeta]
  intro heq
  have hname := (List.append_inj' heq rfl).2
  have hext := congrArg osExtension (List.cons.inj hname).1
  rw [osExtension_append dotByte_notMem_ext.1, osExtension_append dotByte_notMem_ext.2] at hext
  exact utf8Bytes_metaExt_ne (Option.some.inj hext).symm

theorem data_injective {path other : OsPath} (hpath : tree.isMeta path = true)
    (hother : tree.isMeta other = true)
    (heq : osWithExtension path dataExt = osWithExtension other dataExt) : path = other := by
  rcases exists_of_isMeta hpath with ⟨dir, b, stem, hmeta, hdata⟩
  rcases exists_of_isMeta hother with ⟨dir', b', stem', hmeta', hdata'⟩
  rw [hdata, hdata'] at heq
  rcases List.append_inj' heq rfl with ⟨hdir, hname⟩
  have hstem := (List.append_inj' (List.cons.inj hname).1 rfl).1
  rw [hmeta, hmeta', hdir, hstem]

/-- The `.meta` files are those of the whole tree. -/
theorem mem_metaFiles {path : OsPath} :
    path ∈ tree.metaFiles ↔ path ∈ tree.listing.paths [] ∧ tree.isMeta path = true := by
  rw [metaFiles, List.mem_filter, walk, Listing.mem_walk]

variable (tree) in
theorem counted_nodup : tree.counted.Nodup := by
  have hwalk : tree.metaFiles.Nodup := (Listing.walk_nodup tree.distinct []).filter _
  have hmeta : ∀ path ∈ tree.metaFiles, tree.isMeta path = true :=
    fun path hpath => (mem_metaFiles.1 hpath).2
  refine List.nodup_flatMap.2 ⟨?_, ?_⟩
  · intro path hpath
    have hne := data_ne_meta (hmeta path hpath) (hmeta path hpath)
    simpa using Ne.symm hne
  · refine hwalk.imp_of_mem ?_
    intro path other hpath hother hne p hp hp'
    simp only [List.mem_cons, List.not_mem_nil, or_false] at hp hp'
    rcases hp with rfl | rfl
    · rcases hp' with rfl | hdata
      · exact hne rfl
      · exact data_ne_meta (hmeta other hother) (hmeta p hpath) hdata.symm
    · rcases hp' with hdata | hdata
      · exact data_ne_meta (hmeta path hpath) (hmeta other hother) hdata
      · exact hne (data_injective (hmeta path hpath) (hmeta other hother) hdata)

/-! ## What the index holds -/

theorem hashHex_of_mem_indexed {path : OsPath} {file : IndexedFile}
    (h : file ∈ tree.indexed path) : tree.isMeta path = true ∧ stem path = some file.hashHex := by
  unfold indexed at h
  split at h
  · rename_i hmeta _ hstem
    rw [List.mem_singleton] at h
    subst h
    exact ⟨hmeta, hstem⟩
  · cases h

theorem exists_mem_indexed {path : OsPath} {hashHex : Str} (hmeta : tree.isMeta path = true)
    (hstem : stem path = some hashHex) : ∃ file ∈ tree.indexed path, file.hashHex = hashHex := by
  have hstat : (tree.stat tree.files path).isSome = true := by
    unfold isMeta at hmeta
    split at hmeta
    · exact (Bool.and_eq_true_iff.1 hmeta).2
    · cases hmeta
  rcases Option.isSome_iff_exists.1 hstat with ⟨metadata, hmetadata⟩
  simp [indexed, hmeta, hstem, hmetadata]

/-- The order lists the stems that are text. -/
theorem mem_order_rebuilt {maxSize : Nat} {hashHex : Str} :
    hashHex ∈ (tree.rebuilt maxSize).evictionOrder ↔ hashHex ∈ tree.stems := by
  have horder : hashHex ∈ (tree.rebuilt maxSize).evictionOrder ↔
      ∃ file ∈ tree.walk.flatMap tree.indexed, file.hashHex = hashHex := by
    simp [rebuilt, osRebuildIndex, exec_osIndexFiles]
  rw [horder]
  constructor
  · rintro ⟨file, hfile, rfl⟩
    rcases List.mem_flatMap.1 hfile with ⟨path, hpath, hindexed⟩
    rcases hashHex_of_mem_indexed hindexed with ⟨hmeta, hstem⟩
    exact List.mem_filterMap.2 ⟨path, List.mem_filter.2 ⟨hpath, hmeta⟩, hstem⟩
  · intro h
    rcases List.mem_filterMap.1 h with ⟨path, hpath, hstem⟩
    rcases List.mem_filter.1 hpath with ⟨hwalk, hmeta⟩
    rcases exists_mem_indexed hmeta hstem with ⟨file, hfile, hhash⟩
    exact ⟨file, List.mem_flatMap.2 ⟨path, hwalk, hfile⟩, hhash⟩

/-! ## Paths of the cache -/

variable (tree) in
/-- The length that is measured under a path of the cache. -/
def lengthAt (s : FileStore OsPath) (p : Path) : Nat :=
  match tree.locate p with
  | some q => tree.length s q
  | none => 0

theorem exec_fileSize (p : Path) (s : FileStore OsPath) :
    (FileProg.fileSize p).exec tree.apply s = (tree.lengthAt s p, s) := by
  cases hlocate : tree.locate p with
  | none =>
      simp [FileProg.fileSize, apply, lengthAt, hlocate]
  | some q =>
      cases hstat : tree.stat s q with
      | none =>
          simp [FileProg.fileSize, apply, osApply, lengthAt, length, hlocate, hstat]
      | some metadata =>
          simp [FileProg.fileSize, apply, osApply, lengthAt, length, hlocate, hstat]

/-! ## Names that are text -/

/-- The bytes of a path whose names are text. -/
def encode (path : Path) : OsPath :=
  path.map utf8Bytes

theorem dotByte_eq : dotByte = UInt8.ofNat '.'.toNat :=
  rfl

theorem rsplitOnce_dotByte (name : Str) :
    rsplitOnce dotByte (utf8Bytes name) =
      (rsplitOnce '.' name).map (fun p => (utf8Bytes p.1, utf8Bytes p.2)) := by
  rw [dotByte_eq, rsplitOnce_utf8Bytes (by decide)]

theorem exists_utf8Bytes_cons (c : Char) (s : Str) : ∃ b rest, utf8Bytes (c :: s) = b :: rest := by
  refine List.exists_cons_of_ne_nil ?_
  intro hnil
  exact String.utf8EncodeChar_ne_nil (List.append_eq_nil_iff.1 hnil).1

theorem osFileStem_utf8Bytes (name : Str) :
    osFileStem (utf8Bytes name) = utf8Bytes (fileStem name) := by
  unfold osFileStem fileStem
  rw [rsplitOnce_dotByte]
  cases rsplitOnce '.' name with
  | none =>
      rfl
  | some p =>
      rcases p with ⟨_ | ⟨c, stem⟩, ext⟩
      · rfl
      · rcases exists_utf8Bytes_cons c stem with ⟨b, rest, hbytes⟩
        simp [hbytes]

theorem osExtension_utf8Bytes (name : Str) :
    osExtension (utf8Bytes name) = (extension name).map utf8Bytes := by
  unfold osExtension extension
  rw [rsplitOnce_dotByte]
  cases rsplitOnce '.' name with
  | none =>
      rfl
  | some p =>
      rcases p with ⟨_ | ⟨c, stem⟩, ext⟩
      · rfl
      · rcases exists_utf8Bytes_cons c stem with ⟨b, rest, hbytes⟩
        simp [hbytes]

theorem isMetaName_utf8Bytes (name : Str) :
    isMetaName (utf8Bytes name) = true ↔ extension name = some metaExt := by
  rw [isMetaName_iff, osExtension_utf8Bytes]
  cases extension name with
  | none =>
      simp
  | some ext =>
      simp [utf8Bytes_injective.eq_iff]

theorem osWithExtension_encode (path : Path) {ext : Str} :
    osWithExtension (encode path) ext = encode (withExtension path ext) := by
  rcases List.eq_nil_or_concat path with rfl | ⟨dir, name, rfl⟩
  · rfl
  · have hdot : utf8Bytes ('.' :: ext) = dotByte :: utf8Bytes ext :=
      utf8Bytes_cons (by decide) ext
    simp [encode, osWithExtension_append, osFileStem_utf8Bytes, withExtension, hdot]

theorem getLast?_encode (path : Path) : (encode path).getLast? = path.getLast?.map utf8Bytes := by
  simp [encode]

/-- Where all names are text and lead to themselves, the index is the one of `indexFiles`. -/
theorem exec_indexFiles (hlocate : ∀ path, tree.locate path = some (encode path))
    (walk : List Path) (files : List IndexedFile) (totalSize : Nat) (s : FileStore OsPath) :
    (indexFiles walk files totalSize).exec tree.apply s =
      (osIndexFiles (walk.map encode) files totalSize).exec tree.osApply s := by
  induction walk generalizing files totalSize with
  | nil =>
      rfl
  | cons path walk ih =>
      have hlast := getLast?_encode path
      cases hname : path.getLast? with
      | none =>
          rw [hname] at hlast
          simpa [indexFiles, osIndexFiles, hname, hlast] using ih files totalSize
      | some name =>
          rw [hname] at hlast
          by_cases hext : extension name = some metaExt
          · have hmeta : isMetaName (utf8Bytes name) = true := (isMetaName_utf8Bytes name).2 hext
            have hsize : tree.lengthAt s (withExtension path dataExt) =
                tree.length s (encode (withExtension path dataExt)) := by
              rw [lengthAt, hlocate]
            cases hstat : tree.stat s (encode path) with
            | none =>
                simpa [indexFiles, osIndexFiles, hname, hlast, hext, hmeta, apply, osApply, hlocate,
                  hstat] using ih files totalSize
            | some metadata =>
                simp [indexFiles, osIndexFiles, hname, hlast, hext, hmeta, apply, osApply, hlocate,
                  hstat, exec_fileSize, hsize, exec_fileSize_os, osWithExtension_encode,
                  osFileStem_utf8Bytes, utf8Text_utf8Bytes, ih]
          · have hmeta : isMetaName (utf8Bytes name) = false := by
              rw [Bool.eq_false_iff]
              exact fun h => hext ((isMetaName_utf8Bytes name).1 h)
            simpa [indexFiles, osIndexFiles, hname, hlast, hext, hmeta] using ih files totalSize

end Tree

end Cache
end Squiddish
