import Mathlib.Data.Fin.Basic
import Squiddish.Lib.Text

/-!
# Http — headers, URIs and messages

The part of the `http` crate the proxy works with.  Header names are lower case, header values
are arbitrary bytes, and a name may occur several times.
-/

namespace Squiddish

open Lib

abbrev Bytes := List UInt8

/-! ## Headers -/

abbrev HeaderValue := Bytes

/-- The values of one name keep their order; the order among different names means nothing. -/
abbrev HeaderMap := List (Str × HeaderValue)

/-- `HeaderValue::to_str`: there is a text only when every byte is visible ASCII or a tab. -/
def HeaderValue.toStr (v : HeaderValue) : Option Str :=
  if v.all (fun b => (32 ≤ b && b < 127) || b == 9) then
    some (v.map (fun b => Char.ofNat b.toNat))
  else
    none

/-- The value of an ASCII text. -/
def HeaderValue.ofText (s : Str) : HeaderValue :=
  s.map (fun c => c.toNat.toUInt8)

theorem toNat_ofNat_ascii : ∀ n : Fin 128, (Char.ofNat n.val).toNat = n.val := by
  decide

/-- A byte that may stand in a text is the character with its number, and never 0. -/
theorem toNat_ofNat_textByte {b : UInt8} (h : ((32 ≤ b && b < 127) || b == 9) = true) :
    (Char.ofNat b.toNat).toNat = b.toNat ∧ b.toNat < 128 ∧ b ≠ 0 := by
  have hcases : (32 ≤ b.toNat ∧ b.toNat < 127) ∨ b.toNat = 9 := by
    simpa [UInt8.le_iff_toNat_le, UInt8.lt_iff_toNat_lt, ← UInt8.toNat_inj] using h
  have hlt : b.toNat < 128 := by
    omega
  refine ⟨toNat_ofNat_ascii ⟨b.toNat, hlt⟩, hlt, ?_⟩
  rintro rfl
  simp at hcases

namespace HeaderValue

theorem toStr_eq_some {v : HeaderValue} {s : Str} (h : v.toStr = some s) :
    (∀ b ∈ v, ((32 ≤ b && b < 127) || b == 9) = true) ∧
      s = v.map (fun b => Char.ofNat b.toNat) := by
  unfold toStr at h
  split at h
  · rename_i hall
    exact ⟨List.all_eq_true.1 hall, (Option.some.inj h).symm⟩
  · cases h

/-- A value without a text is not empty. -/
theorem ne_nil_of_toStr_eq_none {v : HeaderValue} (h : v.toStr = none) : v ≠ [] := by
  rintro rfl
  cases h

end HeaderValue

namespace HeaderMap

def getAll (h : HeaderMap) (name : Str) : List HeaderValue :=
  (h.filter (fun p => p.1 = name)).map Prod.snd

def get (h : HeaderMap) (name : Str) : Option HeaderValue :=
  (h.getAll name).head?

def append (h : HeaderMap) (name : Str) (v : HeaderValue) : HeaderMap :=
  h ++ [(name, v)]

/-- Remove every value of a name. -/
def remove (h : HeaderMap) (name : Str) : HeaderMap :=
  h.filter (fun p => p.1 ≠ name)

/-- The comma-separated items of all lines of a name, for the lines that are text. -/
def items (h : HeaderMap) (name : Str) : List Str :=
  ((h.getAll name).filterMap HeaderValue.toStr).flatMap (fun s => s.splitOn ',')

end HeaderMap

/-! ## Authorities and URIs -/

/-- `Authority::host`: what follows the last `@`, up to and including `]` when it starts with
`[`, else up to the first `:`. -/
def authorityHost (authority : Str) : Str :=
  match afterLast '@' authority with
  | '[' :: rest => '[' :: (beforeFirst ']' rest ++ (if ']' ∈ rest then [']'] else []))
  | hostPort => beforeFirst ':' hostPort

structure Uri where
  scheme : Option Str
  authority : Option Str
  /-- The text `Uri::to_string` gives. -/
  text : Str
  deriving DecidableEq, Repr

/-- `Uri::host`. -/
def Uri.host (uri : Uri) : Option Str :=
  uri.authority.map authorityHost

/-! ## Messages -/

structure Request where
  method : Str
  uri : Uri
  headers : HeaderMap
  deriving DecidableEq, Repr

structure Response where
  status : Nat
  headers : HeaderMap
  deriving DecidableEq, Repr

end Squiddish
