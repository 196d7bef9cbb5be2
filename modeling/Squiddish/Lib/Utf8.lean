import Squiddish.Lib.Text

/-!
# Utf8 — texts as bytes

A text has one encoding, and bytes are the encoding of one text at most.
-/

namespace Squiddish
namespace Lib

def utf8Bytes (s : Str) : List UInt8 :=
  s.flatMap String.utf8EncodeChar

/-- The text of these bytes; there is none when they are not UTF-8. -/
def utf8Text (b : List UInt8) : Option Str :=
  b.toByteArray.utf8Decode?.map Array.toList

@[simp] theorem utf8Bytes_append (s t : Str) : utf8Bytes (s ++ t) = utf8Bytes s ++ utf8Bytes t :=
  List.flatMap_append

theorem toByteArray_utf8Bytes (s : Str) : (utf8Bytes s).toByteArray = s.utf8Encode := by
  rfl

theorem utf8Text_utf8Bytes (s : Str) : utf8Text (utf8Bytes s) = some s := by
  rw [utf8Text, toByteArray_utf8Bytes, List.utf8Decode?_utf8Encode]
  rfl

theorem utf8Bytes_injective : Function.Injective utf8Bytes := by
  intro s t h
  have htext := congrArg utf8Text h
  rw [utf8Text_utf8Bytes, utf8Text_utf8Bytes] at htext
  exact Option.some.inj htext

theorem utf8Text_eq_some {b : List UInt8} {s : Str} : utf8Text b = some s ↔ utf8Bytes s = b := by
  constructor
  · intro h
    rcases Option.map_eq_some_iff.1 h with ⟨a, ha, rfl⟩
    have hsome : b.toByteArray.utf8Decode?.isSome = true := by
      simp [ha]
    have hencode := ByteArray.utf8Encode_get_utf8Decode? (b := b.toByteArray) (h := hsome)
    simp only [ha, Option.get_some, ← toByteArray_utf8Bytes] at hencode
    exact List.toByteArray_inj.1 hencode
  · rintro rfl
    exact utf8Text_utf8Bytes s

/-! ## Bytes below 128 -/

section Ascii

variable {d : Char}

/-- The byte of a character below 128 stands for that character only. -/
theorem mem_utf8EncodeChar_iff (hd : d.toNat < 128) {c : Char} :
    UInt8.ofNat d.toNat ∈ String.utf8EncodeChar c ↔ c = d := by
  have hc : c.val.toNat = c.toNat := rfl
  rw [← Char.toNat_inj]
  -- the bytes of a longer encoding are 128 and more
  simp only [String.utf8EncodeChar]
  split_ifs <;>
    simp only [List.mem_cons, List.not_mem_nil, or_false, ← UInt8.toNat_inj, UInt8.toNat_ofNat'] <;>
    omega

theorem utf8Bytes_cons (hd : d.toNat < 128) (s : Str) :
    utf8Bytes (d :: s) = UInt8.ofNat d.toNat :: utf8Bytes s := by
  have hone : String.utf8EncodeChar d = [UInt8.ofNat d.toNat] := by
    simp only [String.utf8EncodeChar]
    exact if_pos (Nat.le_of_lt_succ hd)
  rw [utf8Bytes, List.flatMap_cons, hone]
  rfl

theorem mem_utf8Bytes_iff (hd : d.toNat < 128) {s : Str} :
    UInt8.ofNat d.toNat ∈ utf8Bytes s ↔ d ∈ s := by
  rw [utf8Bytes, List.mem_flatMap]
  constructor
  · rintro ⟨c, hc, hmem⟩
    rwa [← (mem_utf8EncodeChar_iff hd).1 hmem]
  · intro h
    exact ⟨d, h, (mem_utf8EncodeChar_iff hd).2 rfl⟩

/-- Splitting at such a character is splitting at its byte. -/
theorem rsplitOnce_utf8Bytes (hd : d.toNat < 128) (s : Str) :
    rsplitOnce (UInt8.ofNat d.toNat) (utf8Bytes s) =
      (rsplitOnce d s).map (fun p => (utf8Bytes p.1, utf8Bytes p.2)) := by
  cases hsplit : rsplitOnce d s with
  | none =>
      have hnot : UInt8.ofNat d.toNat ∉ utf8Bytes s :=
        fun hmem => rsplitOnce_eq_none.1 hsplit ((mem_utf8Bytes_iff hd).1 hmem)
      rw [rsplitOnce_eq_none.2 hnot]
      rfl
  | some p =>
      rcases rsplitOnce_eq_some.1 hsplit with ⟨hs, hnot⟩
      refine rsplitOnce_eq_some.2 ⟨?_, fun hmem => hnot ((mem_utf8Bytes_iff hd).1 hmem)⟩
      rw [hs, utf8Bytes_append, utf8Bytes_cons hd]

end Ascii

end Lib
end Squiddish
