import Squiddish.Cache.Entry

/-!
# Paths — where the files of an entry stand

Paths below the cache directory, as lists of names.  An entry has the two files
`XX/YY/hash.meta` and `XX/YY/hash.data`, where `XX` and `YY` are the first two bytes of its hash.
-/

namespace Squiddish
namespace Cache

open Lib

abbrev Path := List Str

/-! ## Names of files -/

/-- `file_stem`: the name up to its last dot, unless the name begins with it. -/
def fileStem (name : Str) : Str :=
  match rsplitOnce '.' name with
  | some (c :: stem, _) => c :: stem
  | _ => name

/-- `extension`: the part of the name that `file_stem` leaves out. -/
def extension (name : Str) : Option Str :=
  match rsplitOnce '.' name with
  | some (_ :: _, ext) => some ext
  | _ => none

/-- `with_extension`. -/
def withExtension (path : Path) (ext : Str) : Path :=
  match path.getLast? with
  | some name => path.dropLast ++ [fileStem name ++ '.' :: ext]
  | none => path

def metaExt : Str := ['m', 'e', 't', 'a']

def dataExt : Str := ['d', 'a', 't', 'a']

theorem metaExt_ne_dataExt : metaExt ≠ dataExt := by
  decide

theorem length_metaExt : metaExt.length = dataExt.length :=
  rfl

/-! ## Paths of entries -/

/-- The first `n` bytes.  There is no result when `n` is not at a character boundary. -/
def takeBytes : Nat → Str → Option Str
  | 0, _ => some []
  | _ + 1, [] => none
  | n + 1, c :: s =>
      if c.utf8Size ≤ n + 1 then (takeBytes (n + 1 - c.utf8Size) s).map (c :: ·) else none

/-- `&s[from..to]`, which panics outside the string and inside a character. -/
def sliceBytes (start stop : Nat) (s : Str) : Option Str :=
  (dropBytes start s).bind (takeBytes (stop - start))

/-- `file_path_from_hash`, which panics when a slice does. -/
def filePathFromHash (hashHex : Str) : Option Path :=
  match sliceBytes 0 2 hashHex, sliceBytes 2 4 hashHex with
  | some shard, some subshard => some [shard, subshard, hashHex]
  | _, _ => none

/-- `file_path`: the same, for a hash of 64 digits. -/
def CacheKey.filePath (key : CacheKey) : Path :=
  [key.hashHex.take 2, (key.hashHex.drop 2).take 2, key.hashHex]

def CacheKey.metaPath (key : CacheKey) : Path :=
  withExtension key.filePath metaExt

def CacheKey.dataPath (key : CacheKey) : Path :=
  withExtension key.filePath dataExt

/-! ## Hexadecimal digits -/

def hexDigits : Str := "0123456789abcdef".toList

theorem hexDigit_injective {m n : Nat} (hm : m < 16) (hn : n < 16)
    (h : hexDigit m = hexDigit n) : m = n := by
  have hall : ∀ a b : Fin 16, hexDigit a = hexDigit b → a = b := by
    decide
  exact congrArg Fin.val (hall ⟨m, hm⟩ ⟨n, hn⟩ h)

theorem hexByte_injective {a b : UInt8} (h : hexByte a = hexByte b) : a = b := by
  have ha := a.toNat_lt
  have hb := b.toNat_lt
  have hdigits : hexDigit (a.toNat / 16) = hexDigit (b.toNat / 16) ∧
      hexDigit (a.toNat % 16) = hexDigit (b.toNat % 16) := by
    simpa [hexByte] using h
  have hhigh := hexDigit_injective (by omega) (by omega) hdigits.1
  have hlow := hexDigit_injective (by omega) (by omega) hdigits.2
  exact UInt8.toNat_inj.1 (by omega)

theorem flatMap_hexByte_injective {as bs : List UInt8}
    (h : as.flatMap hexByte = bs.flatMap hexByte) : as = bs := by
  induction as generalizing bs with
  | nil =>
      cases bs with
      | nil =>
          rfl
      | cons b bs =>
          simp [hexByte] at h
  | cons a as ih =>
      cases bs with
      | nil =>
          simp [hexByte] at h
      | cons b bs =>
          have hparts : hexByte a ++ as.flatMap hexByte = hexByte b ++ bs.flatMap hexByte := by
            simpa using h
          have hsplit := List.append_inj hparts rfl
          rw [hexByte_injective hsplit.1, ih hsplit.2]

/-- Keys with the same hexadecimal hash have the same hash. -/
theorem CacheKey.hash_of_hashHex {key key' : CacheKey} (h : key.hashHex = key'.hashHex) :
    key.hash = key'.hash :=
  Vector.toList_inj.1 (flatMap_hexByte_injective h)

theorem mem_hexDigits_of_mem_hashHex {key : CacheKey} {c : Char} (h : c ∈ key.hashHex) :
    c ∈ hexDigits := by
  have hdigit : ∀ m : Fin 16, hexDigit m ∈ hexDigits := by
    decide
  rcases List.mem_flatMap.1 h with ⟨b, _, hc⟩
  have hb := b.toNat_lt
  have hor : c = hexDigit (b.toNat / 16) ∨ c = hexDigit (b.toNat % 16) := by
    simpa [hexByte] using hc
  rcases hor with rfl | rfl
  · exact hdigit ⟨b.toNat / 16, by omega⟩
  · exact hdigit ⟨b.toNat % 16, by omega⟩

theorem dot_notMem_hashHex (key : CacheKey) : '.' ∉ key.hashHex := by
  intro h
  have hdot : '.' ∉ hexDigits := by
    decide
  exact hdot (mem_hexDigits_of_mem_hashHex h)

theorem utf8Size_of_mem_hashHex {key : CacheKey} {c : Char} (h : c ∈ key.hashHex) :
    c.utf8Size = 1 := by
  have hall : hexDigits.all (fun c => c.utf8Size == 1) = true := by
    decide +kernel
  simpa using List.all_eq_true.1 hall c (mem_hexDigits_of_mem_hashHex h)

theorem length_hashHex (key : CacheKey) : key.hashHex.length = 64 := by
  have hbyte : ∀ b : UInt8, (hexByte b).length = 2 := fun _ => rfl
  simp [CacheKey.hashHex, List.length_flatMap, hbyte]

/-! ## Slices of text with one byte for each character -/

theorem takeBytes_eq_take {n : Nat} {s : Str} (hs : ∀ c ∈ s, c.utf8Size = 1) (hn : n ≤ s.length) :
    takeBytes n s = some (s.take n) := by
  induction s generalizing n with
  | nil =>
      have hzero : n = 0 := by
        simpa using hn
      simp [hzero, takeBytes]
  | cons c s ih =>
      cases n with
      | zero =>
          rfl
      | succ n =>
          have hc : c.utf8Size = 1 := hs c (by simp)
          have hrest := ih (fun d hd => hs d (by simp [hd])) (by simpa using hn)
          simp [takeBytes, hc, hrest]

theorem dropBytes_eq_drop {n : Nat} {s : Str} (hs : ∀ c ∈ s, c.utf8Size = 1) (hn : n ≤ s.length) :
    dropBytes n s = some (s.drop n) := by
  induction s generalizing n with
  | nil =>
      have hzero : n = 0 := by
        simpa using hn
      simp [hzero, dropBytes]
  | cons c s ih =>
      cases n with
      | zero =>
          rfl
      | succ n =>
          have hc : c.utf8Size = 1 := hs c (by simp)
          have hrest := ih (fun d hd => hs d (by simp [hd])) (by simpa using hn)
          simp [dropBytes, hc, hrest]

/-- `file_path_from_hash` does not panic on the hash of a key. -/
theorem filePathFromHash_hashHex (key : CacheKey) :
    filePathFromHash key.hashHex = some key.filePath := by
  have hsize : ∀ c ∈ key.hashHex, c.utf8Size = 1 := fun c hc => utf8Size_of_mem_hashHex hc
  have hdropped : ∀ c ∈ key.hashHex.drop 2, c.utf8Size = 1 :=
    fun c hc => hsize c (List.mem_of_mem_drop hc)
  have hlen := length_hashHex key
  have hshard : sliceBytes 0 2 key.hashHex = some (key.hashHex.take 2) := by
    simpa [sliceBytes, dropBytes] using takeBytes_eq_take hsize (by omega)
  have hsubshard : sliceBytes 2 4 key.hashHex = some ((key.hashHex.drop 2).take 2) := by
    have hdrop := dropBytes_eq_drop (n := 2) hsize (by omega)
    simpa [sliceBytes, hdrop] using takeBytes_eq_take hdropped (by simp [hlen])
  simp [filePathFromHash, hshard, hsubshard, CacheKey.filePath]

/-! ## The files of different entries -/

theorem fileStem_of_dot_notMem {name : Str} (h : '.' ∉ name) : fileStem name = name := by
  simp [fileStem, rsplitOnce_eq_none.2 h]

theorem hashHex_ne_nil (key : CacheKey) : key.hashHex ≠ [] := by
  intro h
  have hlen := length_hashHex key
  simp [h] at hlen

/-- The name of a file of an entry is cut at the last dot. -/
theorem rsplitOnce_entry (key : CacheKey) {ext : Str} (hext : '.' ∉ ext) :
    ∃ c hex, key.hashHex = c :: hex ∧
      rsplitOnce '.' (c :: (hex ++ '.' :: ext)) = some (c :: hex, ext) := by
  cases hhex : key.hashHex with
  | nil =>
      exact absurd hhex (hashHex_ne_nil key)
  | cons c hex =>
      exact ⟨c, hex, rfl, rsplitOnce_eq_some.2 ⟨rfl, hext⟩⟩

theorem extension_entry (key : CacheKey) {ext : Str} (hext : '.' ∉ ext) :
    extension (key.hashHex ++ '.' :: ext) = some ext := by
  obtain ⟨c, hex, hhex, hsplit⟩ := rsplitOnce_entry key hext
  simp [hhex, extension, hsplit]

theorem fileStem_entry (key : CacheKey) {ext : Str} (hext : '.' ∉ ext) :
    fileStem (key.hashHex ++ '.' :: ext) = key.hashHex := by
  obtain ⟨c, hex, hhex, hsplit⟩ := rsplitOnce_entry key hext
  simp [hhex, fileStem, hsplit]

theorem dot_notMem_metaExt : '.' ∉ metaExt := by
  decide

theorem dot_notMem_dataExt : '.' ∉ dataExt := by
  decide

/-- The path of the file with this extension. -/
def entryPath (hashHex ext : Str) : Path :=
  [hashHex.take 2, (hashHex.drop 2).take 2, hashHex ++ '.' :: ext]

theorem entryPath_inj {hashHex hashHex' ext ext' : Str} (hlen : ext.length = ext'.length)
    (h : entryPath hashHex ext = entryPath hashHex' ext') : hashHex = hashHex' ∧ ext = ext' := by
  have hname : hashHex ++ '.' :: ext = hashHex' ++ '.' :: ext' :=
    (List.cons.inj (List.cons.inj (List.cons.inj h).2).2).1
  have hsplit := List.append_inj' hname (by simp [hlen])
  exact ⟨hsplit.1, (List.cons.inj hsplit.2).2⟩

namespace CacheKey

variable (key key' : CacheKey)

theorem metaPath_eq : key.metaPath = entryPath key.hashHex metaExt := by
  simp [metaPath, filePath, withExtension, entryPath,
    fileStem_of_dot_notMem (dot_notMem_hashHex key)]

theorem dataPath_eq : key.dataPath = entryPath key.hashHex dataExt := by
  simp [dataPath, filePath, withExtension, entryPath,
    fileStem_of_dot_notMem (dot_notMem_hashHex key)]

variable {key key'}

theorem metaPath_inj : key.metaPath = key'.metaPath ↔ key.hashHex = key'.hashHex := by
  rw [metaPath_eq, metaPath_eq]
  exact ⟨fun h => (entryPath_inj rfl h).1, fun h => by rw [h]⟩

theorem dataPath_inj : key.dataPath = key'.dataPath ↔ key.hashHex = key'.hashHex := by
  rw [dataPath_eq, dataPath_eq]
  exact ⟨fun h => (entryPath_inj rfl h).1, fun h => by rw [h]⟩

theorem metaPath_ne_dataPath : key.metaPath ≠ key'.dataPath := by
  rw [metaPath_eq, dataPath_eq]
  intro h
  exact metaExt_ne_dataExt (entryPath_inj length_metaExt h).2

end CacheKey

/-! ## The two files of any path -/

theorem withExtension_eq_entryPath {base : Path} {hashHex ext ext' : Str}
    (hlen : ext.length = ext'.length) (h : withExtension base ext = entryPath hashHex ext') :
    ext = ext' ∧ ∀ other, withExtension base other = entryPath hashHex other := by
  cases hlast : base.getLast? with
  | none =>
      have hnil : base = [] := by
        simpa using hlast
      simp [hnil, withExtension, entryPath] at h
  | some name =>
      have hparts : base.dropLast ++ [fileStem name ++ '.' :: ext] =
          [hashHex.take 2, (hashHex.drop 2).take 2] ++ [hashHex ++ '.' :: ext'] := by
        simpa [withExtension, hlast, entryPath] using h
      have hsplit := List.append_inj' hparts rfl
      have hname : fileStem name ++ '.' :: ext = hashHex ++ '.' :: ext' :=
        (List.cons.inj hsplit.2).1
      have hstem := List.append_inj' hname (by simp [hlen])
      refine ⟨(List.cons.inj hstem.2).2, ?_⟩
      intro other
      simp [withExtension, hlast, entryPath, hsplit.1, hstem.1]

/-- A path never names the data file of an entry by the extension of its metadata. -/
theorem withExtension_meta_ne (base : Path) (key : CacheKey) :
    withExtension base metaExt ≠ key.dataPath := by
  rw [CacheKey.dataPath_eq]
  intro h
  exact metaExt_ne_dataExt (withExtension_eq_entryPath length_metaExt h).1

theorem withExtension_data_ne (base : Path) (key : CacheKey) :
    withExtension base dataExt ≠ key.metaPath := by
  rw [CacheKey.metaPath_eq]
  intro h
  exact metaExt_ne_dataExt (withExtension_eq_entryPath length_metaExt.symm h).1.symm

/-- A path names the data file of an entry exactly when it names its metadata file. -/
theorem withExtension_pair (base : Path) (key : CacheKey) :
    withExtension base metaExt = key.metaPath ↔ withExtension base dataExt = key.dataPath := by
  rw [CacheKey.metaPath_eq, CacheKey.dataPath_eq]
  exact ⟨fun h => (withExtension_eq_entryPath rfl h).2 _,
    fun h => (withExtension_eq_entryPath rfl h).2 _⟩

end Cache
end Squiddish
