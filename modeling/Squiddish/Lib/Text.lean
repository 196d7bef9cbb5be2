import Mathlib.Algebra.GroupWithZero.Nat
import Mathlib.Data.Char
import Mathlib.Data.List.Infix

/-!
# Text — string functions on lists of characters

Searching and splitting as the standard library of the source language defines them, for text
given as its list of characters.  Splitting functions are stated for lists over any type:

* `splitOnce c s`  : the parts before and after the *first* `c`;
* `rsplitOnce c s` : the parts before and after the *last* `c`.
-/

namespace Squiddish
namespace Lib

/-- A string as its characters. -/
abbrev Str := List Char

/-- What is checked of each character of a text holds of each. -/
theorem forall_mem_of_all {α : Type} {P : α → Prop} [DecidablePred P] {l : List α}
    (h : l.all (fun a => P a) = true) : ∀ a ∈ l, P a := by
  simpa using h

/-! ## Splitting at one separator -/

section Split

variable {α : Type*} [DecidableEq α]

def splitOnce (c : α) : List α → Option (List α × List α)
  | [] => none
  | x :: xs =>
      if x = c then some ([], xs)
      else (splitOnce c xs).map (fun p => (x :: p.1, p.2))

def rsplitOnce (c : α) (s : List α) : Option (List α × List α) :=
  (splitOnce c s.reverse).map (fun p => (p.2.reverse, p.1.reverse))

/-- The part after the last `c`, or everything when there is none. -/
def afterLast (c : α) (s : List α) : List α :=
  match rsplitOnce c s with
  | some (_, t) => t
  | none => s

/-- The part before the first `c`, or everything when there is none. -/
def beforeFirst (c : α) (s : List α) : List α :=
  match splitOnce c s with
  | some (t, _) => t
  | none => s

theorem splitOnce_eq_none {c : α} {s : List α} : splitOnce c s = none ↔ c ∉ s := by
  induction s with
  | nil =>
      simp [splitOnce]
  | cons x xs ih =>
      by_cases hx : x = c
      · simp [splitOnce, hx]
      · have hcx : ¬ c = x := fun h => hx h.symm
        simp [splitOnce, hx, hcx, ih]

theorem splitOnce_append {c : α} {a b : List α} (ha : c ∉ a) :
    splitOnce c (a ++ c :: b) = some (a, b) := by
  induction a with
  | nil =>
      simp [splitOnce]
  | cons x xs ih =>
      have hx : ¬ x = c := fun h => ha (by simp [h])
      have hxs : c ∉ xs := fun h => ha (by simp [h])
      simp [splitOnce, hx, ih hxs]

theorem splitOnce_eq_some {c : α} {s a b : List α} :
    splitOnce c s = some (a, b) ↔ s = a ++ c :: b ∧ c ∉ a := by
  constructor
  · intro h
    induction s generalizing a with
    | nil =>
        simp [splitOnce] at h
    | cons x xs ih =>
        by_cases hx : x = c
        · have hab : [] = a ∧ xs = b := by
            simpa [splitOnce, hx] using h
          rcases hab with ⟨rfl, rfl⟩
          simp [hx]
        · cases hrec : splitOnce c xs with
          | none =>
              simp [splitOnce, hx, hrec] at h
          | some p =>
              rcases p with ⟨p₁, p₂⟩
              have hab : x :: p₁ = a ∧ p₂ = b := by
                simpa [splitOnce, hx, hrec] using h
              rcases hab with ⟨rfl, rfl⟩
              have hxs := ih hrec
              have hcx : ¬ c = x := fun h => hx h.symm
              exact ⟨by simp [hxs.1], by simp [hxs.2, hcx]⟩
  · rintro ⟨rfl, ha⟩
    exact splitOnce_append ha

theorem rsplitOnce_eq_none {c : α} {s : List α} : rsplitOnce c s = none ↔ c ∉ s := by
  simp [rsplitOnce, splitOnce_eq_none]

theorem rsplitOnce_eq_some {c : α} {s a b : List α} :
    rsplitOnce c s = some (a, b) ↔ s = a ++ c :: b ∧ c ∉ b := by
  -- from the right is from the left, read backwards
  have hrev : rsplitOnce c s = some (a, b) ↔
      splitOnce c s.reverse = some (b.reverse, a.reverse) := by
    cases hs : splitOnce c s.reverse with
    | none =>
        simp [rsplitOnce, hs]
    | some p =>
        rcases p with ⟨p₁, p₂⟩
        simp only [rsplitOnce, hs, Option.map_some, Option.some.injEq, Prod.mk.injEq,
          List.reverse_eq_iff]
        exact And.comm
  rw [hrev, splitOnce_eq_some]
  constructor
  · rintro ⟨hs, hb⟩
    refine ⟨?_, by simpa using hb⟩
    simpa using congrArg List.reverse hs
  · rintro ⟨rfl, hb⟩
    simp [hb]

theorem afterLast_of_notMem {c : α} {s : List α} (h : c ∉ s) : afterLast c s = s := by
  simp [afterLast, rsplitOnce_eq_none.2 h]

theorem notMem_afterLast (c : α) (s : List α) : c ∉ afterLast c s := by
  cases hs : rsplitOnce c s with
  | none =>
      simpa [afterLast, hs] using rsplitOnce_eq_none.1 hs
  | some p =>
      simpa [afterLast, hs] using (rsplitOnce_eq_some.1 hs).2

theorem beforeFirst_of_notMem {c : α} {s : List α} (h : c ∉ s) : beforeFirst c s = s := by
  simp [beforeFirst, splitOnce_eq_none.2 h]

theorem beforeFirst_append {c : α} {a : List α} (ha : c ∉ a) (b : List α) :
    beforeFirst c (a ++ c :: b) = a := by
  simp [beforeFirst, splitOnce_append ha]

theorem beforeFirst_isPrefix (c : α) (s : List α) : beforeFirst c s <+: s := by
  cases hs : splitOnce c s with
  | none =>
      simp [beforeFirst, hs]
  | some p =>
      have heq := (splitOnce_eq_some.1 hs).1
      have hfirst : beforeFirst c s = p.1 := by
        simp [beforeFirst, hs]
      rw [hfirst, heq]
      exact List.prefix_append p.1 _

theorem beforeFirst_subset (c : α) (s : List α) : beforeFirst c s ⊆ s :=
  (beforeFirst_isPrefix c s).subset

theorem notMem_beforeFirst (c : α) (s : List α) : c ∉ beforeFirst c s := by
  cases hs : splitOnce c s with
  | none =>
      simpa [beforeFirst, hs] using splitOnce_eq_none.1 hs
  | some p =>
      simpa [beforeFirst, hs] using (splitOnce_eq_some.1 hs).2

/-- A part without separators is what stands before the separated parts that follow it. -/
theorem beforeFirst_append_flatMap {c : α} {x : List α} (hx : c ∉ x) (xs : List (List α)) :
    beforeFirst c (x ++ xs.flatMap (fun y => c :: y)) = x := by
  cases xs with
  | nil =>
      simpa using beforeFirst_of_notMem hx
  | cons y ys =>
      simpa using beforeFirst_append hx (y ++ ys.flatMap (fun y => c :: y))

/-- Parts without separators can be told apart when a separator stands before each. -/
theorem eq_of_flatMap_cons_eq {c : α} {xs ys : List (List α)} (hxs : ∀ x ∈ xs, c ∉ x)
    (hys : ∀ y ∈ ys, c ∉ y)
    (h : xs.flatMap (fun x => c :: x) = ys.flatMap (fun y => c :: y)) : xs = ys := by
  induction xs generalizing ys with
  | nil =>
      cases ys with
      | nil =>
          rfl
      | cons y ys =>
          simp at h
  | cons x xs ih =>
      cases ys with
      | nil =>
          simp at h
      | cons y ys =>
          have hrest : x ++ xs.flatMap (fun x => c :: x) = y ++ ys.flatMap (fun y => c :: y) := by
            simpa using h
          -- the first part ends at the first separator
          have hxy : x = y := by
            calc
              x = beforeFirst c (x ++ xs.flatMap (fun x => c :: x)) :=
                    (beforeFirst_append_flatMap (hxs x List.mem_cons_self) xs).symm
              _ = beforeFirst c (y ++ ys.flatMap (fun y => c :: y)) := by rw [hrest]
              _ = y := beforeFirst_append_flatMap (hys y List.mem_cons_self) ys
          subst hxy
          rw [ih (fun z hz => hxs z (List.mem_cons_of_mem _ hz))
            (fun z hz => hys z (List.mem_cons_of_mem _ hz)) (List.append_cancel_left hrest)]

end Split

/-! ## ASCII case and white space -/

def toAsciiLowercase (s : Str) : Str :=
  s.map Char.toLower

def eqIgnoreAsciiCase (s t : Str) : Bool :=
  toAsciiLowercase s == toAsciiLowercase t

/-- Remove white space at both ends. -/
def trim (s : Str) : Str :=
  ((s.dropWhile Char.isWhitespace).reverse.dropWhile Char.isWhitespace).reverse

theorem mem_dropWhile_iff {α : Type*} {p : α → Bool} {x : α} {s : List α} (hx : p x = false) :
    x ∈ s.dropWhile p ↔ x ∈ s := by
  induction s with
  | nil =>
      rfl
  | cons a s ih =>
      cases ha : p a with
      | false =>
          simp [ha]
      | true =>
          have hne : x ≠ a := by
            rintro rfl
            simp [hx] at ha
          simp [ha, ih, hne]

/-- Only white space is removed. -/
theorem mem_trim_iff {c : Char} {s : Str} (hc : c.isWhitespace = false) : c ∈ trim s ↔ c ∈ s := by
  rw [trim, List.mem_reverse, mem_dropWhile_iff hc, List.mem_reverse, mem_dropWhile_iff hc]

/-! ## Prefixes, suffixes and infixes -/

def stripPrefix (p s : Str) : Option Str :=
  if p <+: s then some (s.drop p.length) else none

def contains (s p : Str) : Bool :=
  decide (p <:+: s)

def endsWith (s p : Str) : Bool :=
  decide (p <:+ s)

/-! ## Byte lengths -/

/-- Number of bytes of the UTF-8 encoding. -/
def utf8Len (s : Str) : Nat :=
  (s.map Char.utf8Size).sum

/-- Drop the first `n` bytes.  There is no result when `n` is not at a character boundary. -/
def dropBytes : Nat → Str → Option Str
  | 0, s => some s
  | _ + 1, [] => none
  | n + 1, c :: s =>
      if c.utf8Size ≤ n + 1 then dropBytes (n + 1 - c.utf8Size) s else none

/-! ## Numbers -/

/-- Value of a run of decimal digits, most significant first. -/
def digitsValue (s : Str) : Nat :=
  s.foldl (fun n c => 10 * n + (c.toNat - '0'.toNat)) 0

/-- Parse an unsigned number of `bits` bits: an optional `+`, then at least one decimal digit,
and a value that fits. -/
def parseUnsigned (bits : Nat) (s : Str) : Option Nat :=
  let digits := match s with
    | '+' :: t => t
    | t => t
  if digits ≠ [] ∧ digits.all Char.isDigit = true ∧ digitsValue digits < 2 ^ bits then
    some (digitsValue digits)
  else
    none

/-- The text of a number holds digits and `+` only. -/
theorem mem_of_parseUnsigned {bits n : Nat} {s : Str} (h : parseUnsigned bits s = some n)
    {c : Char} (hc : c ∈ s) : c = '+' ∨ c.isDigit = true := by
  unfold parseUnsigned at h
  split at h
  · rename_i t
    by_cases hd : t ≠ [] ∧ t.all Char.isDigit = true ∧ digitsValue t < 2 ^ bits
    · rcases List.mem_cons.1 hc with hplus | ht
      · exact Or.inl hplus
      · exact Or.inr (List.all_eq_true.1 hd.2.1 c ht)
    · simp only [if_neg hd, reduceCtorEq] at h
  · by_cases hd : s ≠ [] ∧ s.all Char.isDigit = true ∧ digitsValue s < 2 ^ bits
    · exact Or.inr (List.all_eq_true.1 hd.2.1 c hc)
    · simp only [if_neg hd, reduceCtorEq] at h

/-- A number that was parsed fits. -/
theorem lt_of_parseUnsigned {bits n : Nat} {s : Str} (h : parseUnsigned bits s = some n) :
    n < 2 ^ bits := by
  unfold parseUnsigned at h
  split at h
  · rename_i t
    by_cases hd : t ≠ [] ∧ t.all Char.isDigit = true ∧ digitsValue t < 2 ^ bits
    · simp only [if_pos hd, Option.some.injEq] at h
      exact h ▸ hd.2.2
    · simp only [if_neg hd, reduceCtorEq] at h
  · by_cases hd : s ≠ [] ∧ s.all Char.isDigit = true ∧ digitsValue s < 2 ^ bits
    · simp only [if_pos hd, Option.some.injEq] at h
      exact h ▸ hd.2.2
    · simp only [if_neg hd, reduceCtorEq] at h

end Lib
end Squiddish
