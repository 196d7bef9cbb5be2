import Mathlib.Algebra.GroupWithZero.Nat
import Mathlib.Data.List.Basic
import Squiddish.Http

/-!
# Entry — cache keys and cache entries

`cache/key.rs` and the entry type of `cache/mod.rs`.  The hash function is a parameter; times
are nanoseconds since the epoch.
-/

namespace Squiddish
namespace Cache

open Lib

/-! ## Keys -/

structure CacheKey where
  hash : Vector UInt8 32
  uri : Str
  deriving DecidableEq, Repr

def utf8Encode (s : Str) : Bytes :=
  s.flatMap String.utf8EncodeChar

/-- The text of a header value is encoded as the value, which holds no zero byte. -/
theorem utf8Encode_of_toStr {v : HeaderValue} {s : Str} (h : v.toStr = some s) :
    utf8Encode s = v ∧ 0 ∉ v := by
  rcases HeaderValue.toStr_eq_some h with ⟨hall, rfl⟩
  constructor
  · have hchar : ∀ b ∈ v, String.utf8EncodeChar (Char.ofNat b.toNat) = [b] := by
      intro b hb
      rcases toNat_ofNat_textByte (hall b hb) with ⟨hnat, hlt, -⟩
      have hsize : (Char.ofNat b.toNat).utf8Size = 1 := by
        have hval : (Char.ofNat b.toNat).val.toNat < 128 := hnat.trans_lt hlt
        rw [Char.utf8Size_eq_one_iff, UInt32.le_iff_toNat_le]
        exact Nat.le_of_lt_succ hval
      calc
        String.utf8EncodeChar (Char.ofNat b.toNat) = [(Char.ofNat b.toNat).toNat.toUInt8] :=
              String.utf8EncodeChar_eq_singleton hsize
        _ = [b] := by simp [hnat]
    rw [utf8Encode, List.flatMap_map]
    refine (List.flatMap_congr hchar).trans ?_
    simp
  · intro hzero
    exact (toNat_ofNat_textByte (hall 0 hzero)).2.2 rfl

/-- The bytes `CacheKey::new` feeds to the hash function. -/
def keyBytes (method uri : Str) (varyHeaders : List (Str × Str)) : Bytes :=
  utf8Encode method ++ 0 :: utf8Encode uri ++
    varyHeaders.flatMap (fun p => 0 :: utf8Encode p.1 ++ utf8Encode [':'] ++ utf8Encode p.2)

/-- `CacheKey::new`. -/
def CacheKey.new (sha256 : Bytes → Vector UInt8 32) (method uri : Str)
    (varyHeaders : List (Str × Str)) : CacheKey :=
  { hash := sha256 (keyBytes method uri varyHeaders), uri := uri }

def hexDigit (n : Nat) : Char :=
  if n < 10 then Char.ofNat (48 + n) else Char.ofNat (87 + n)

def hexByte (b : UInt8) : Str :=
  [hexDigit (b.toNat / 16), hexDigit (b.toNat % 16)]

/-- `hash_hex`: two lower-case digits for each byte. -/
def CacheKey.hashHex (key : CacheKey) : Str :=
  key.hash.toList.flatMap hexByte

/-! ## Entries -/

structure CacheEntry where
  data : Bytes
  headers : List (Str × Str)
  status : Nat
  timestamp : Nat
  ttlSeconds : Nat
  /-- No buffer is longer than `isize::MAX` bytes. -/
  data_lt : data.length < 2 ^ 63
  deriving DecidableEq, Repr

/-- The whole seconds from `start` to `now`; there is no answer when the clock went back. -/
def elapsedSecs (start now : Nat) : Option Nat :=
  if start ≤ now then some ((now - start) / 10 ^ 9) else none

/-- `is_expired` at the time `now`. -/
def CacheEntry.isExpired (entry : CacheEntry) (now : Nat) : Bool :=
  match elapsedSecs entry.timestamp now with
  | some elapsed => elapsed > entry.ttlSeconds
  | none => true

/-- `size`: the data, every header with two string headers, and a fixed overhead. -/
def CacheEntry.size (entry : CacheEntry) : Nat :=
  entry.data.length +
    (entry.headers.map (fun p => utf8Len p.1 + utf8Len p.2 + 48)).sum + 64

end Cache
end Squiddish
