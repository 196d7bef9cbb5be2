import Squiddish.Cache.Balance

/-!
# Example — a key, its hash, two entries and a serialiser for concrete runs
-/

namespace Squiddish
namespace Cache

open Lib

/-- The key of `GET http://example.com/`, by its SHA-256 hash. -/
def exampleKey : CacheKey where
  hash :=
    #v[94, 88, 29, 103, 48, 92, 149, 255, 32, 165, 84, 59, 3, 153, 140, 8,
      190, 246, 221, 222, 116, 155, 240, 194, 184, 23, 81, 162, 232, 44, 102, 249]
  uri := "http://example.com/".toList

/-- SHA-256 on the bytes of this key, and on those of the same page in an encoding. -/
def exampleSha256 (bytes : Bytes) : Vector UInt8 32 :=
  let encoded (encoding : Str) : Bytes :=
    keyBytes "GET".toList exampleKey.uri [("accept-encoding".toList, encoding)]
  if bytes = encoded "gzip".toList then
    #v[249, 173, 207, 3, 96, 153, 158, 152, 36, 25, 85, 30, 122, 19, 220, 247,
      106, 217, 20, 210, 161, 113, 112, 245, 49, 104, 234, 95, 148, 127, 128, 53]
  else if bytes = encoded "br".toList then
    #v[249, 207, 125, 61, 233, 110, 212, 136, 241, 186, 53, 166, 165, 247, 205, 252,
      53, 218, 150, 88, 230, 73, 185, 32, 138, 239, 95, 33, 34, 188, 245, 218]
  else
    exampleKey.hash

def decimal (n : Nat) : Str :=
  Nat.toDigits 10 n

/-- The JSON text of metadata without headers, which begins with an opening brace. -/
def exampleText (metadata : DiskCacheMetadata) : Bytes :=
  123 :: utf8Encode ("\"headers\":[],\"status\":".toList ++ decimal metadata.status ++
    ",\"timestamp\":\x7b\"secs_since_epoch\":".toList ++ decimal (metadata.timestamp / 10 ^ 9) ++
    ",\"nanos_since_epoch\":".toList ++ decimal (metadata.timestamp % 10 ^ 9) ++
    "\x7d,\"ttl_seconds\":".toList ++ decimal metadata.ttlSeconds ++
    ",\"data_size\":".toList ++ decimal metadata.dataSize ++ "\x7d".toList)

theorem exampleText_ne_nil (metadata : DiskCacheMetadata) : exampleText metadata ≠ [] :=
  List.cons_ne_nil _ _

/-! ## Serialisers -/

section Samples

variable (text : DiskCacheMetadata → Bytes) (samples : List DiskCacheMetadata)

def sampleError : Str :=
  "expected value at line 1 column 1".toList

/-- A serialiser on these metadata, whose texts are known. -/
def sampleSerde : Serde where
  toVec metadata :=
    if metadata ∈ samples then .ok (text metadata) else .error sampleError
  fromSlice bytes :=
    match samples.find? (fun metadata => text metadata == bytes) with
    | some metadata => .ok metadata
    | none => .error sampleError

variable {text samples}

theorem sampleSerde_toVec {metadata : DiskCacheMetadata} (h : metadata ∈ samples) :
    (sampleSerde text samples).toVec metadata = .ok (text metadata) := by
  simp [sampleSerde, h]

theorem of_sampleSerde_toVec {metadata : DiskCacheMetadata} {bytes : Bytes}
    (h : (sampleSerde text samples).toVec metadata = .ok bytes) :
    metadata ∈ samples ∧ text metadata = bytes := by
  by_cases hmem : metadata ∈ samples
  · exact ⟨hmem, by simpa [sampleSerde, hmem] using h⟩
  · simp [sampleSerde, hmem] at h

theorem sampleSerde_nonEmpty (htext : ∀ metadata, text metadata ≠ []) :
    (sampleSerde text samples).NonEmpty := by
  intro metadata bytes h
  rw [← (of_sampleSerde_toVec h).2]
  exact htext metadata

/-- Samples with different texts are told apart. -/
theorem sampleSerde_roundTrip
    (hinj : ∀ a ∈ samples, ∀ b ∈ samples, text a = text b → a = b) :
    (sampleSerde text samples).RoundTrip := by
  intro metadata bytes h
  rcases of_sampleSerde_toVec h with ⟨hmem, rfl⟩
  cases hfind : samples.find? (fun m => text m == text metadata) with
  | none =>
      have hnot := List.find?_eq_none.1 hfind metadata hmem
      simp at hnot
  | some found =>
      have heq : text found = text metadata := by
        simpa using List.find?_some hfind
      have hfound : found = metadata :=
        hinj found (List.mem_of_find?_eq_some hfind) metadata hmem heq
      simp [sampleSerde, hfind, hfound]

end Samples

/-! ## Entries -/

/-- An entry of the key that lives for a minute. -/
def shortEntry : CacheEntry where
  data := [104, 105]
  headers := []
  status := 200
  timestamp := 0
  ttlSeconds := 60
  data_lt := by decide

/-- A later one that lives for an hour. -/
def longEntry : CacheEntry where
  data := [111, 107]
  headers := []
  status := 200
  timestamp := 10 ^ 9
  ttlSeconds := 3600
  data_lt := by decide

/-- `serde_json` on the metadata of the two entries. -/
def exampleSerde : Serde :=
  sampleSerde exampleText [shortEntry.metadata, longEntry.metadata]

theorem exampleSerde_nonEmpty : exampleSerde.NonEmpty :=
  sampleSerde_nonEmpty exampleText_ne_nil

theorem exampleSerde_roundTrip : exampleSerde.RoundTrip := by
  refine sampleSerde_roundTrip ?_
  decide +kernel

theorem exampleSerde_short :
    exampleSerde.toVec shortEntry.metadata = .ok (exampleText shortEntry.metadata) :=
  sampleSerde_toVec (by simp)

theorem exampleSerde_long :
    exampleSerde.toVec longEntry.metadata = .ok (exampleText longEntry.metadata) :=
  sampleSerde_toVec (by simp)

theorem length_exampleText_short : (exampleText shortEntry.metadata).length ≤ 200 := by
  decide +kernel

theorem length_exampleText_long : (exampleText longEntry.metadata).length ≤ 200 := by
  decide +kernel

end Cache
end Squiddish
