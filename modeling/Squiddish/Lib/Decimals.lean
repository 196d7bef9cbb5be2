import Squiddish.Lib.Floats
import Squiddish.Lib.Text
import Squiddish.Lib.Trim

/-!
# Decimals — the texts of floating-point numbers

`DecimalText s d` is the grammar: a sign, digits with a point somewhere, and an exponent.
`parseDecimal` follows it (`parseDecimal_eq_some`), so a text is one decimal at most.  `parseFloat`
adds the names of what is no decimal and takes the nearest value of a format.
-/

namespace Squiddish
namespace Lib

/-- A decimal as it is written: digits, and where the point stands. -/
structure Decimal where
  negative : Bool
  digits : ℕ
  exponent : ℤ
  deriving DecidableEq, Repr

namespace Decimal

def magnitude (d : Decimal) : ℚ :=
  d.digits * 10 ^ d.exponent

def value (d : Decimal) : ℚ :=
  if d.negative then -d.magnitude else d.magnitude

theorem magnitude_nonneg (d : Decimal) : 0 ≤ d.magnitude :=
  mul_nonneg (Nat.cast_nonneg _) (zpow_nonneg (by norm_num) _)

end Decimal

/-! ## The grammar -/

inductive SignText : Str → Bool → Prop
  | absent : SignText [] false
  | plus : SignText ['+'] false
  | minus : SignText ['-'] true

inductive FractionText : Str → Str → Prop
  | absent : FractionText [] []
  | point {digits : Str} (hdigits : ∀ c ∈ digits, c.isDigit = true) :
      FractionText ('.' :: digits) digits

inductive ExponentText : Str → ℤ → Prop
  | absent : ExponentText [] 0
  | given {mark : Char} {sign digits : Str} {negative : Bool} (hmark : mark = 'e' ∨ mark = 'E')
      (hsign : SignText sign negative) (hdigits : ∀ c ∈ digits, c.isDigit = true)
      (hne : digits ≠ []) :
      ExponentText (mark :: (sign ++ digits))
        (if negative then -(digitsValue digits : ℤ) else digitsValue digits)

inductive DecimalText : Str → Decimal → Prop
  | parts {sign whole point fraction mark : Str} {negative : Bool} {exponent : ℤ}
      (hsign : SignText sign negative) (hwhole : ∀ c ∈ whole, c.isDigit = true)
      (hpoint : FractionText point fraction) (hne : whole ++ fraction ≠ [])
      (hexponent : ExponentText mark exponent) :
      DecimalText (sign ++ (whole ++ (point ++ mark)))
        { negative := negative
          digits := digitsValue (whole ++ fraction)
          exponent := exponent - fraction.length }

/-! ## The parser -/

def scanSign : Str → Bool × Str
  | '-' :: s => (true, s)
  | '+' :: s => (false, s)
  | s => (false, s)

/-- The digits behind a point, if there is one. -/
def scanFraction : Str → Str × Str
  | '.' :: s => (s.takeWhile Char.isDigit, s.dropWhile Char.isDigit)
  | s => ([], s)

/-- The exponent, which ends the text. -/
def scanExponent : Str → Option ℤ
  | [] => some 0
  | mark :: s =>
      let (negative, digits) := scanSign s
      if (mark = 'e' ∨ mark = 'E') ∧ digits ≠ [] ∧ digits.all Char.isDigit = true then
        some (if negative then -(digitsValue digits : ℤ) else digitsValue digits)
      else
        none

def parseDecimal (s : Str) : Option Decimal :=
  let (negative, s) := scanSign s
  let whole := s.takeWhile Char.isDigit
  let (fraction, s) := scanFraction (s.dropWhile Char.isDigit)
  if whole ++ fraction = [] then
    none
  else
    (scanExponent s).map fun exponent =>
      { negative := negative
        digits := digitsValue (whole ++ fraction)
        exponent := exponent - fraction.length }

/-- `f64::from_str` for a format: what is no decimal may be one of three names. -/
def parseFloat (F : Format) (s : Str) : Option F.Value :=
  match parseDecimal s with
  | some d => some (.nearest F d.negative d.magnitude d.magnitude_nonneg)
  | none =>
      let (negative, name) := scanSign s
      if eqIgnoreAsciiCase name "inf".toList || eqIgnoreAsciiCase name "infinity".toList then
        some (.infinite negative)
      else if eqIgnoreAsciiCase name "nan".toList then
        some .nan
      else
        none

/-! ## What is parsed is in the grammar -/

theorem scanSign_spec (s : Str) :
    ∃ sign, s = sign ++ (scanSign s).2 ∧ SignText sign (scanSign s).1 := by
  unfold scanSign
  split
  · exact ⟨['-'], rfl, .minus⟩
  · exact ⟨['+'], rfl, .plus⟩
  · exact ⟨[], rfl, .absent⟩

theorem scanFraction_spec (s : Str) :
    ∃ point, s = point ++ (scanFraction s).2 ∧ FractionText point (scanFraction s).1 := by
  unfold scanFraction
  split
  · rename_i t
    refine ⟨'.' :: t.takeWhile Char.isDigit, ?_, .point fun c hc => List.mem_takeWhile_imp hc⟩
    rw [List.cons_append, List.takeWhile_append_dropWhile]
  · exact ⟨[], rfl, .absent⟩

theorem exponentText_of_scanExponent {s : Str} {e : ℤ} (h : scanExponent s = some e) :
    ExponentText s e := by
  cases s with
  | nil =>
      rw [← Option.some.inj h]
      exact .absent
  | cons mark s =>
      rcases scanSign_spec s with ⟨sign, hs, hsign⟩
      by_cases hd : (mark = 'e' ∨ mark = 'E') ∧ (scanSign s).2 ≠ [] ∧
          (scanSign s).2.all Char.isDigit = true
      · simp only [scanExponent, if_pos hd, Option.some.injEq] at h
        have htext := ExponentText.given hd.1 hsign (List.all_eq_true.1 hd.2.2) hd.2.1
        rwa [← hs, h] at htext
      · simp only [scanExponent, if_neg hd, reduceCtorEq] at h

theorem decimalText_of_parseDecimal {s : Str} {d : Decimal} (h : parseDecimal s = some d) :
    DecimalText s d := by
  rcases scanSign_spec s with ⟨sign, hs, hsign⟩
  rcases scanFraction_spec ((scanSign s).2.dropWhile Char.isDigit) with ⟨point, hpoint, hfraction⟩
  by_cases hne : (scanSign s).2.takeWhile Char.isDigit ++
      (scanFraction ((scanSign s).2.dropWhile Char.isDigit)).1 = []
  · simp only [parseDecimal, if_pos hne, reduceCtorEq] at h
  · simp only [parseDecimal, if_neg hne] at h
    rcases Option.map_eq_some_iff.1 h with ⟨e, he, hd⟩
    have htext := DecimalText.parts hsign (fun c hc => List.mem_takeWhile_imp hc) hfraction hne
      (exponentText_of_scanExponent he)
    rwa [← hpoint, List.takeWhile_append_dropWhile, ← hs, hd] at htext

/-! ## What is in the grammar is parsed -/

/-- The text does not begin with a digit. -/
def StopsDigits (s : Str) : Prop :=
  ∀ c t, s = c :: t → c.isDigit = false

theorem dropWhile_digits {a b : Str} (ha : ∀ c ∈ a, c.isDigit = true) (hb : StopsDigits b) :
    (a ++ b).dropWhile Char.isDigit = b := by
  rw [List.dropWhile_append_of_pos ha]
  cases b with
  | nil =>
      rfl
  | cons c t =>
      rw [List.dropWhile_cons, hb c t rfl]
      rfl

theorem takeWhile_digits {a b : Str} (ha : ∀ c ∈ a, c.isDigit = true) (hb : StopsDigits b) :
    (a ++ b).takeWhile Char.isDigit = a := by
  have hsplit : (a ++ b).takeWhile Char.isDigit ++ b = a ++ b := by
    calc
      (a ++ b).takeWhile Char.isDigit ++ b =
          (a ++ b).takeWhile Char.isDigit ++ (a ++ b).dropWhile Char.isDigit := by
            rw [dropWhile_digits ha hb]
      _ = a ++ b := List.takeWhile_append_dropWhile
  exact List.append_cancel_right hsplit

theorem ExponentText.stopsDigits {s : Str} {e : ℤ} (h : ExponentText s e) : StopsDigits s := by
  intro c t hs
  cases h with
  | absent =>
      cases hs
  | given hmark hsign hdigits hne =>
      rw [← (List.cons.inj hs).1]
      rcases hmark with rfl | rfl <;> decide

theorem FractionText.stopsDigits {point fraction mark : Str} {e : ℤ}
    (h : FractionText point fraction) (hmark : ExponentText mark e) :
    StopsDigits (point ++ mark) := by
  cases h with
  | absent =>
      exact hmark.stopsDigits
  | point hdigits =>
      intro c t hs
      rw [← (List.cons.inj hs).1]
      decide

/-- Behind the sign stands neither of the signs. -/
theorem scanSign_append {sign s : Str} {negative : Bool} (h : SignText sign negative)
    (hs : ∀ c t, s = c :: t → c ≠ '+' ∧ c ≠ '-') : scanSign (sign ++ s) = (negative, s) := by
  cases h with
  | absent =>
      cases s with
      | nil =>
          rfl
      | cons c t =>
          rcases hs c t rfl with ⟨hplus, hminus⟩
          simp [scanSign, hplus, hminus]
  | plus =>
      rfl
  | minus =>
      rfl

theorem ne_sign_of_isDigit {c : Char} (h : c.isDigit = true) : c ≠ '+' ∧ c ≠ '-' := by
  constructor
  · rintro rfl
    revert h
    decide
  · rintro rfl
    revert h
    decide

theorem scanExponent_of_exponentText {s : Str} {e : ℤ} (h : ExponentText s e) :
    scanExponent s = some e := by
  cases h with
  | absent =>
      rfl
  | given hmark hsign hdigits hne =>
      rename_i mark sign digits negative
      have hscan : scanSign (sign ++ digits) = (negative, digits) :=
        scanSign_append hsign fun c t hs =>
          ne_sign_of_isDigit (hdigits c (hs ▸ List.mem_cons_self))
      have hd : (mark = 'e' ∨ mark = 'E') ∧ digits ≠ [] ∧ digits.all Char.isDigit = true :=
        ⟨hmark, hne, List.all_eq_true.2 hdigits⟩
      simp only [scanExponent, hscan, if_pos hd]

theorem scanFraction_append {point fraction mark : Str} {e : ℤ} (h : FractionText point fraction)
    (hmark : ExponentText mark e) : scanFraction (point ++ mark) = (fraction, mark) := by
  cases h with
  | absent =>
      cases hmark with
      | absent =>
          rfl
      | given hmark hsign hdigits hne =>
          rcases hmark with rfl | rfl <;> rfl
  | point hdigits =>
      simp only [scanFraction, List.cons_append, takeWhile_digits hdigits hmark.stopsDigits,
        dropWhile_digits hdigits hmark.stopsDigits]

/-- A number without its sign begins with a digit or the point. -/
theorem head_unsigned {whole point fraction mark : Str} (hwhole : ∀ c ∈ whole, c.isDigit = true)
    (hpoint : FractionText point fraction) (hne : whole ++ fraction ≠ []) :
    ∀ c t, whole ++ (point ++ mark) = c :: t → c ≠ '+' ∧ c ≠ '-' := by
  intro c t hs
  cases whole with
  | cons d whole =>
      rw [← (List.cons.inj hs).1]
      exact ne_sign_of_isDigit (hwhole d List.mem_cons_self)
  | nil =>
      cases hpoint with
      | absent =>
          exact absurd rfl hne
      | point hdigits =>
          rw [← (List.cons.inj hs).1]
          decide

theorem parseDecimal_of_decimalText {s : Str} {d : Decimal} (h : DecimalText s d) :
    parseDecimal s = some d := by
  rcases h with ⟨hsign, hwhole, hpoint, hne, hexponent⟩
  have hstops := hpoint.stopsDigits hexponent
  simp only [parseDecimal, scanSign_append hsign (head_unsigned hwhole hpoint hne),
    takeWhile_digits hwhole hstops, dropWhile_digits hwhole hstops,
    scanFraction_append hpoint hexponent, if_neg hne, scanExponent_of_exponentText hexponent,
    Option.map_some]

theorem parseDecimal_eq_some {s : Str} {d : Decimal} : parseDecimal s = some d ↔ DecimalText s d :=
  ⟨decimalText_of_parseDecimal, parseDecimal_of_decimalText⟩

/-- A text is read in one way only. -/
theorem DecimalText.unique {s : Str} {d d' : Decimal} (h : DecimalText s d)
    (h' : DecimalText s d') : d = d' := by
  have hparse := parseDecimal_of_decimalText h
  rw [parseDecimal_of_decimalText h'] at hparse
  exact (Option.some.inj hparse).symm

/-! ## The characters of a decimal -/

def isDecimalChar (c : Char) : Bool :=
  c.isDigit || c == '.' || c == '+' || c == '-' || c == 'e' || c == 'E'

theorem SignText.forall_mem {s : Str} {negative : Bool} (h : SignText s negative) :
    ∀ c ∈ s, isDecimalChar c = true := by
  cases h <;> exact forall_mem_of_all (by decide)

theorem isDecimalChar_of_isDigit {c : Char} (h : c.isDigit = true) : isDecimalChar c = true := by
  simp [isDecimalChar, h]

theorem FractionText.forall_mem {s fraction : Str} (h : FractionText s fraction) :
    ∀ c ∈ s, isDecimalChar c = true := by
  cases h with
  | absent =>
      intro c hc
      cases hc
  | point hdigits =>
      intro c hc
      rcases List.mem_cons.1 hc with rfl | hmem
      · decide
      · exact isDecimalChar_of_isDigit (hdigits c hmem)

theorem ExponentText.forall_mem {s : Str} {e : ℤ} (h : ExponentText s e) :
    ∀ c ∈ s, isDecimalChar c = true := by
  cases h with
  | absent =>
      intro c hc
      cases hc
  | given hmark hsign hdigits hne =>
      intro c hc
      rcases List.mem_cons.1 hc with rfl | hmem
      · rcases hmark with rfl | rfl <;> decide
      · rcases List.mem_append.1 hmem with hmem | hmem
        · exact hsign.forall_mem c hmem
        · exact isDecimalChar_of_isDigit (hdigits c hmem)

theorem DecimalText.forall_mem {s : Str} {d : Decimal} (h : DecimalText s d) :
    ∀ c ∈ s, isDecimalChar c = true := by
  rcases h with ⟨hsign, hwhole, hpoint, -, hexponent⟩
  intro c hc
  rcases List.mem_append.1 hc with hmem | hmem
  · exact hsign.forall_mem c hmem
  rcases List.mem_append.1 hmem with hmem | hmem
  · exact isDecimalChar_of_isDigit (hwhole c hmem)
  rcases List.mem_append.1 hmem with hmem | hmem
  · exact hpoint.forall_mem c hmem
  · exact hexponent.forall_mem c hmem

end Lib
end Squiddish
