import Squiddish.Settings
import Squiddish.Lib.Decimals

/-!
# Sizes — how many bytes a text says

`parse_size` of `config.rs`, with double precision as it is: the decimal is rounded, multiplied by
the bytes of its unit and cut off to a `u64`.

`SaysSize U s x` is what the text says, as an exact number.  `readsSize` compares the two: up to
`2 ^ 53` bytes no whole number lies between them, and no larger size is far off.
-/

namespace Squiddish

open Lib Lib.Format

/-! ## The code -/

/-- `str::to_uppercase`, which like `Lowercase` follows large tables outside ASCII. -/
structure Uppercase where
  upper : Str → Str
  ofAscii : ∀ s, IsAscii s → upper s = s.map Char.toUpper
  startsWord : ∀ c s, isWhiteSpace c = false →
    ∃ d t, upper (c :: s) = d :: t ∧ isWhiteSpace d = false

theorem isWhiteSpace_toUpper {c : Char} (h : isWhiteSpace c = false) :
    isWhiteSpace c.toUpper = false := by
  by_cases hc : 97 ≤ c.toNat ∧ c.toNat ≤ 122
  · have hnat : c.toUpper.toNat = c.toNat - 32 := by
      rw [toNat_toUpper, if_pos hc]
    simp only [isWhiteSpace, hnat, Bool.or_eq_false_iff, Bool.and_eq_false_iff,
      decide_eq_false_iff_not, beq_eq_false_iff_ne]
    omega
  · have hsame : c.toUpper = c := by
      rw [← Char.toNat_inj, toNat_toUpper, if_neg hc]
    rwa [hsame]

/-- Upper case for ASCII letters alone. -/
def Uppercase.ascii : Uppercase where
  upper := fun s => s.map Char.toUpper
  ofAscii := fun _ _ => rfl
  startsWord := fun c s h => ⟨c.toUpper, s.map Char.toUpper, rfl, isWhiteSpace_toUpper h⟩

/-- `str::strip_suffix` for a text. -/
def stripSuffixStr (u s : Str) : Option Str :=
  if u <:+ s then some (s.take (s.length - u.length)) else none

/-- The units and their bytes, in the order in which they are tried. -/
def sizeUnits : List (Str × ℕ) :=
  [("TB".toList, 1024 * 1024 * 1024 * 1024), ("GB".toList, 1024 * 1024 * 1024),
    ("MB".toList, 1024 * 1024), ("KB".toList, 1024), ("B".toList, 1)]

/-- `parse_size`. -/
def parseSize (U : Uppercase) (s : Str) : Option ℕ :=
  let s := U.upper (trimBy isWhiteSpace s)
  match parseUnsigned 64 s with
  | some num => some num
  | none =>
      match sizeUnits.findSome? (fun u => (stripSuffixStr u.1 s).map (fun n => (n, u.2))) with
      | some (numStr, unit) =>
          match parseFloat binary64 (trimBy isWhiteSpace numStr) with
          | some num =>
              if num.isNonneg && num.isFinite then
                some ((num.mul (.ofNat binary64 unit)).toUnsigned 64)
              else
                none
          | none => none
      | none => none

/-! ## What a text says -/

/-- The text is a number of bytes, or a decimal, white space and a unit. -/
inductive SaysSize (U : Uppercase) (s : Str) : ℚ → Prop
  | plain {n : ℕ} (hs : parseUnsigned 64 (U.upper (trimBy isWhiteSpace s)) = some n) :
      SaysSize U s n
  | unit {num blank unit : Str} {d : Decimal} {size : ℕ}
      (hs : U.upper (trimBy isWhiteSpace s) = num ++ blank ++ unit) (hnum : DecimalText num d)
      (hblank : ∀ c ∈ blank, isWhiteSpace c = true) (hunit : (unit, size) ∈ sizeUnits) :
      SaysSize U s (d.value * size)

/-- As near as double precision and whole bytes come. -/
structure Near (x : ℚ) (v : ℕ) : Prop where
  whole : x ≤ 2 ^ 53 → ⌊x⌋ ≤ (v : ℤ) ∧ (v : ℤ) ≤ ⌈x⌉
  close : 2 ^ 53 ≤ x → x < 2 ^ 64 → |(v : ℚ) - x| ≤ x / 2 ^ 53 + 1
  large : 2 ^ 64 ≤ x → v = 2 ^ 64 - 1

theorem sizeUnits_two_pow {unit : Str} {size : ℕ} (h : (unit, size) ∈ sizeUnits) :
    ∃ k ≤ 40, size = 2 ^ k := by
  simp only [sizeUnits, List.mem_cons, Prod.mk.injEq, List.not_mem_nil, or_false] at h
  rcases h with ⟨-, rfl⟩ | ⟨-, rfl⟩ | ⟨-, rfl⟩ | ⟨-, rfl⟩ | ⟨-, rfl⟩
  · exact ⟨40, by omega, by norm_num⟩
  · exact ⟨30, by omega, by norm_num⟩
  · exact ⟨20, by omega, by norm_num⟩
  · exact ⟨10, by omega, by norm_num⟩
  · exact ⟨0, by omega, by norm_num⟩

/-! ## Which unit is found -/

theorem stripSuffixStr_eq_some {u s t : Str} : stripSuffixStr u s = some t ↔ s = t ++ u := by
  unfold stripSuffixStr
  constructor
  · intro h
    split at h
    · rename_i hsuffix
      rcases hsuffix with ⟨a, rfl⟩
      rw [← Option.some.inj h]
      simp
    · cases h
  · rintro rfl
    simp

theorem exists_of_findSome_sizeUnits {s num : Str} {size : ℕ}
    (h : sizeUnits.findSome? (fun u => (stripSuffixStr u.1 s).map (fun n => (n, u.2))) =
      some (num, size)) : ∃ unit, s = num ++ unit ∧ (unit, size) ∈ sizeUnits := by
  rcases List.exists_of_findSome?_eq_some h with ⟨u, hu, hstrip⟩
  rcases Option.map_eq_some_iff.1 hstrip with ⟨t, ht, hpair⟩
  rcases Prod.mk.inj hpair with ⟨rfl, rfl⟩
  exact ⟨u.1, stripSuffixStr_eq_some.1 ht, hu⟩

/-- The characters that may stand before a unit. -/
def BeforeUnit (s : Str) : Prop :=
  ∀ c ∈ s, isDecimalChar c = true ∨ isWhiteSpace c = true

/-- A unit is not the end of another one. -/
theorem stripSuffixStr_letter {s : Str} {c : Char} (h : BeforeUnit s)
    (hc : isDecimalChar c = false ∧ isWhiteSpace c = false) :
    stripSuffixStr [c, 'B'] (s ++ ['B']) = none := by
  cases hstrip : stripSuffixStr [c, 'B'] (s ++ ['B']) with
  | none =>
      rfl
  | some t =>
      have hs : s ++ ['B'] = (t ++ [c]) ++ ['B'] := by
        rw [stripSuffixStr_eq_some.1 hstrip]
        simp
      have hmem : c ∈ s := by
        rw [List.append_cancel_right hs]
        exact List.mem_append_right t (List.mem_singleton_self c)
      rcases h c hmem with hdecimal | hwhite
      · rw [hc.1] at hdecimal
        cases hdecimal
      · rw [hc.2] at hwhite
        cases hwhite

theorem stripSuffixStr_ne {s u u' : Str} (hlen : u.length = u'.length) (hne : u ≠ u') :
    stripSuffixStr u (s ++ u') = none := by
  cases hstrip : stripSuffixStr u (s ++ u') with
  | none =>
      rfl
  | some t =>
      have hs := stripSuffixStr_eq_some.1 hstrip
      exact absurd (List.append_inj_right' hs hlen.symm).symm hne

/-- No unit hides one that is tried later. -/
theorem findSome_of_pairwise {s unit : Str} {size : ℕ} {l : List (Str × ℕ)}
    (hl : l.Pairwise fun u u' => stripSuffixStr u.1 (s ++ u'.1) = none)
    (hunit : (unit, size) ∈ l) :
    l.findSome? (fun u => (stripSuffixStr u.1 (s ++ unit)).map (fun n => (n, u.2))) =
      some (s, size) := by
  induction l with
  | nil =>
      cases hunit
  | cons u l ih =>
      rcases List.pairwise_cons.1 hl with ⟨hfirst, hrest⟩
      rcases List.mem_cons.1 hunit with rfl | hmem
      · have hself : stripSuffixStr unit (s ++ unit) = some s := stripSuffixStr_eq_some.2 rfl
        simp only [List.findSome?_cons, hself, Option.map_some]
      · have hnone : stripSuffixStr u.1 (s ++ unit) = none := hfirst _ hmem
        simp only [List.findSome?_cons, hnone, Option.map_none, ih hrest hmem]

theorem pairwise_sizeUnits {s : Str} (h : BeforeUnit s) :
    sizeUnits.Pairwise fun u u' => stripSuffixStr u.1 (s ++ u'.1) = none := by
  have htwo {u u' : Str} (hu : u.length = 2) (hu' : u'.length = 2) (hne : u ≠ u') :
      stripSuffixStr u (s ++ u') = none := stripSuffixStr_ne (hu.trans hu'.symm) hne
  simp only [sizeUnits, List.pairwise_cons, List.mem_cons, forall_eq_or_imp, List.not_mem_nil,
    IsEmpty.forall_iff, implies_true, List.Pairwise.nil, and_true]
  refine ⟨⟨?_, ?_, ?_, ?_⟩, ⟨?_, ?_, ?_⟩, ⟨?_, ?_⟩, ?_⟩
  -- the last unit of each row is the one letter, and all others have two
  · exact htwo rfl rfl (by decide)
  · exact htwo rfl rfl (by decide)
  · exact htwo rfl rfl (by decide)
  · exact stripSuffixStr_letter h (by decide)
  · exact htwo rfl rfl (by decide)
  · exact htwo rfl rfl (by decide)
  · exact stripSuffixStr_letter h (by decide)
  · exact htwo rfl rfl (by decide)
  · exact stripSuffixStr_letter h (by decide)
  · exact stripSuffixStr_letter h (by decide)

/-! ## What the code makes of it -/

/-- The arithmetic of `parse_size` behind the texts. -/
def bytesOf (num : binary64.Value) (size : ℕ) : Option ℕ :=
  if num.isNonneg && num.isFinite then
    some ((num.mul (.ofNat binary64 size)).toUnsigned 64)
  else
    none

theorem isWhiteSpace_of_isDecimalChar {c : Char} (h : isDecimalChar c = true) :
    isWhiteSpace c = false := by
  simp only [isDecimalChar, Bool.or_eq_true, beq_iff_eq] at h
  rcases h with ((((hdigit | rfl) | rfl) | rfl) | rfl) | rfl
  · exact isWhiteSpace_of_number (Or.inr hdigit)
  · decide
  · decide
  · decide
  · decide
  · decide

theorem trimBy_decimal {num blank : Str} {d : Decimal} (hnum : DecimalText num d)
    (hblank : ∀ c ∈ blank, isWhiteSpace c = true) : trimBy isWhiteSpace (num ++ blank) = num :=
  trimBy_append_eq_self (fun c hc => isWhiteSpace_of_isDecimalChar (hnum.forall_mem c hc)) hblank

/-- A number does not end with a unit. -/
theorem parseUnsigned_of_sizeUnit {s unit : Str} {size : ℕ} (h : (unit, size) ∈ sizeUnits) :
    parseUnsigned 64 (s ++ unit) = none := by
  have hletter : ∀ u ∈ sizeUnits, 'B' ∈ u.1 := forall_mem_of_all (by decide)
  cases hparse : parseUnsigned 64 (s ++ unit) with
  | none =>
      rfl
  | some n =>
      have hmem : 'B' ∈ s ++ unit := List.mem_append_right s (hletter _ h)
      exact absurd (mem_of_parseUnsigned hparse hmem) (by decide)

section Reading

variable {U : Uppercase} {s num blank unit : Str} {d : Decimal} {size : ℕ}

theorem parseSize_unit (hs : U.upper (trimBy isWhiteSpace s) = num ++ blank ++ unit)
    (hnum : DecimalText num d) (hblank : ∀ c ∈ blank, isWhiteSpace c = true)
    (hunit : (unit, size) ∈ sizeUnits) :
    parseSize U s =
      bytesOf (.nearest binary64 d.negative d.magnitude d.magnitude_nonneg) size := by
  have hbefore : BeforeUnit (num ++ blank) := by
    intro c hc
    rcases List.mem_append.1 hc with hmem | hmem
    · exact Or.inl (hnum.forall_mem c hmem)
    · exact Or.inr (hblank c hmem)
  simp only [parseSize, hs, parseUnsigned_of_sizeUnit hunit,
    findSome_of_pairwise (pairwise_sizeUnits hbefore) hunit, trimBy_decimal hnum hblank, parseFloat,
    parseDecimal_of_decimalText hnum, bytesOf]

theorem Uppercase.head_trimmed (U : Uppercase) {s t : Str} {c : Char}
    (h : U.upper (trimBy isWhiteSpace s) = c :: t) : isWhiteSpace c = false :=
  Squiddish.head_trimmed (U.ofAscii [] fun _ hd => by cases hd) U.startsWord h

/-- Infinities and what is no number are refused. -/
theorem exists_decimal_of_bytesOf {text : Str} {value : binary64.Value} {v : ℕ}
    (htext : parseFloat binary64 text = some value) (hbytes : bytesOf value size = some v) :
    ∃ d, DecimalText text d := by
  cases hparse : parseDecimal text with
  | some d =>
      exact ⟨d, decimalText_of_parseDecimal hparse⟩
  | none =>
      have hnone : ∀ negative, bytesOf (.infinite negative : binary64.Value) size = none :=
        fun negative => by simp [bytesOf, Value.isFinite]
      simp only [parseFloat, hparse] at htext
      split at htext
      · rw [← Option.some.inj htext, hnone] at hbytes
        cases hbytes
      · split at htext
        · rw [← Option.some.inj htext] at hbytes
          simp [bytesOf, Value.isFinite] at hbytes
        · cases htext

/-- What is read has been said. -/
theorem exists_saysSize {v : ℕ} (h : parseSize U s = some v) : ∃ x, SaysSize U s x := by
  unfold parseSize at h
  cases hnum : parseUnsigned 64 (U.upper (trimBy isWhiteSpace s)) with
  | some n =>
      exact ⟨n, .plain hnum⟩
  | none =>
      simp only [hnum] at h
      split at h
      · rename_i numStr size hunit
        rcases exists_of_findSome_sizeUnits hunit with ⟨unit, hs, hmem⟩
        -- the text was trimmed, so all white space stands before the unit
        rcases exists_eq_trimBy_append (fun _ _ hc => U.head_trimmed (hs.trans hc)) with
          ⟨b, hparts, hb⟩
        split at h
        · rename_i value hvalue
          rcases exists_decimal_of_bytesOf hvalue h with ⟨d, hd⟩
          exact ⟨_, .unit (hs.trans (by rw [← hparts])) hd hb hmem⟩
        · cases h
      · cases h

end Reading

/-! ## Rounding -/

section Rounding

variable {m : ℚ} {k : ℕ}

theorem binary64_div_two_pow {n : ℕ} (hn : n ≤ 2 ^ 53) (hk : k ≤ 40) :
    binary64.Representable ((n : ℚ) / 2 ^ k) :=
  .div_two_pow hn (by simp only [binary64]; omega)

/-- A whole number of bytes below is not crossed. -/
theorem floor_le_round (hm : 0 ≤ m) (hk : k ≤ 40) (hle : m * 2 ^ k ≤ 2 ^ 53) :
    ⌊m * 2 ^ k⌋₊ ≤ ⌊binary64.round m * 2 ^ k⌋₊ := by
  have hpos : (0 : ℚ) < 2 ^ k := by
    positivity
  have hn : ⌊m * 2 ^ k⌋₊ ≤ 2 ^ 53 := Nat.floor_le_of_le (by exact_mod_cast hle)
  have hbelow : (⌊m * 2 ^ k⌋₊ : ℚ) / 2 ^ k ≤ m :=
    (div_le_iff₀ hpos).2 (Nat.floor_le (by positivity))
  exact Nat.le_floor ((div_le_iff₀ hpos).1 (le_round hbelow (binary64_div_two_pow hn hk)))

/-- Nor is one above. -/
theorem round_le_ceil (hm : 0 ≤ m) (hk : k ≤ 40) (hle : m * 2 ^ k ≤ 2 ^ 53) :
    ⌊binary64.round m * 2 ^ k⌋₊ ≤ ⌈m * 2 ^ k⌉₊ := by
  have hpos : (0 : ℚ) < 2 ^ k := by
    positivity
  have hn : ⌈m * 2 ^ k⌉₊ ≤ 2 ^ 53 := Nat.ceil_le.2 (by exact_mod_cast hle)
  have habove : m ≤ (⌈m * 2 ^ k⌉₊ : ℚ) / 2 ^ k := (le_div_iff₀ hpos).2 (Nat.le_ceil _)
  have hround := round_le hm habove (binary64_div_two_pow hn hk)
  exact Nat.floor_le_of_le ((le_div_iff₀ hpos).1 hround)

/-- The relative error of double precision. -/
theorem abs_round_mul_sub_le (hm : 1 ≤ m) (k : ℕ) :
    |binary64.round m * 2 ^ k - m * 2 ^ k| ≤ m * 2 ^ k / 2 ^ 53 := by
  have herror := abs_round_sub_le_of_exponent (zero_lt_one.trans_le hm)
    (minExp_lt_exponent (F := binary64) hm (by decide))
  calc
    |binary64.round m * 2 ^ k - m * 2 ^ k| = |binary64.round m - m| * 2 ^ k := by
          rw [← sub_mul, abs_mul, abs_of_pos (by positivity : (0 : ℚ) < 2 ^ k)]
    _ ≤ m / 2 ^ 53 * 2 ^ k := mul_le_mul_of_nonneg_right herror (by positivity)
    _ = m * 2 ^ k / 2 ^ 53 := by ring

theorem near_of_round (hm : 0 ≤ m) (hk : k ≤ 40) :
    Near (m * 2 ^ k) (min ⌊binary64.round m * 2 ^ k⌋₊ (2 ^ 64 - 1)) := by
  have hpos : (0 : ℚ) < 2 ^ k := by
    positivity
  have hx : 0 ≤ m * 2 ^ k := by
    positivity
  refine ⟨fun hle => ?_, fun hlow hhigh => ?_, fun hlarge => ?_⟩
  · have hfloor := floor_le_round hm hk hle
    have hceil := round_le_ceil hm hk hle
    have hmax : ⌈m * 2 ^ k⌉₊ ≤ 2 ^ 53 := Nat.ceil_le.2 (by exact_mod_cast hle)
    rw [← Int.natCast_floor_eq_floor hx, ← Int.natCast_ceil_eq_ceil hx]
    omega
  · have hone : 1 ≤ m := by
      by_contra hlt
      have hsmall : m * 2 ^ k ≤ 1 * 2 ^ 40 :=
        mul_le_mul (not_le.1 hlt).le (pow_le_pow_right₀ one_le_two hk) hpos.le zero_le_one
      linarith
    have herror := abs_le.1 (abs_round_mul_sub_le hone k)
    have hround : 0 ≤ binary64.round m * 2 ^ k :=
      mul_nonneg (representable_round hm).nonneg hpos.le
    have hle := Nat.floor_le hround
    have hlt := Nat.lt_floor_add_one (binary64.round m * 2 ^ k)
    rw [abs_le]
    rcases le_total ⌊binary64.round m * 2 ^ k⌋₊ (2 ^ 64 - 1) with hcut | hcut
    · rw [min_eq_left hcut]
      constructor <;> linarith
    -- what is cut off is between the last `u64` and the number
    · have hcut' : ((2 ^ 64 - 1 : ℕ) : ℚ) ≤ ⌊binary64.round m * 2 ^ k⌋₊ := by
        exact_mod_cast hcut
      rw [min_eq_right hcut]
      push_cast at hcut' ⊢
      constructor <;> linarith
  · have hbelow : (2 : ℚ) ^ (64 - k) ≤ m := by
      rw [← mul_le_mul_iff_left₀ hpos, ← pow_add, Nat.sub_add_cancel (by omega)]
      exact hlarge
    have hpower : binary64.Representable ((2 : ℚ) ^ (64 - k)) :=
      ⟨1, (64 - k : ℕ), by decide, by simp only [binary64]; omega, by rw [zpow_natCast]; simp⟩
    have hround : (2 : ℚ) ^ 64 ≤ binary64.round m * 2 ^ k := by
      calc
        (2 : ℚ) ^ 64 = 2 ^ (64 - k) * 2 ^ k := by rw [← pow_add, Nat.sub_add_cancel (by omega)]
        _ ≤ binary64.round m * 2 ^ k :=
              mul_le_mul_of_nonneg_right (le_round hbelow hpower) hpos.le
    have hfloor : 2 ^ 64 ≤ ⌊binary64.round m * 2 ^ k⌋₊ := Nat.le_floor (by exact_mod_cast hround)
    omega

/-- A negative number that is read has been rounded to zero. -/
theorem near_of_round_eq_zero (hm : 0 ≤ m) (hk : k ≤ 40) (hround : binary64.round m = 0) :
    Near (-m * 2 ^ k) 0 := by
  have hpos : (0 : ℚ) < 2 ^ k := by
    positivity
  have hnonpos : -m * 2 ^ k ≤ 0 := by
    have hx : 0 ≤ m * 2 ^ k := by
      positivity
    linarith
  have hsmall : m * 2 ^ k < 1 := by
    by_contra hge
    have hbelow : ((1 : ℕ) : ℚ) / 2 ^ k ≤ m := by
      rw [div_le_iff₀ hpos]
      simpa using hge
    have hle := le_round hbelow (binary64_div_two_pow (by decide) hk)
    rw [hround, div_le_iff₀ hpos] at hle
    norm_num at hle
  refine ⟨fun _ => ⟨Int.floor_nonpos hnonpos, ?_⟩, fun hlow _ => ?_, fun hlarge => ?_⟩
  · have hneg : ((-1 : ℤ) : ℚ) < -m * 2 ^ k := by
      push_cast
      linarith
    have hceil := Int.lt_ceil.2 hneg
    push_cast
    omega
  · linarith
  · linarith

/-- What the arithmetic comes to. -/
theorem bytesOf_nearest (negative : Bool) (hm : 0 ≤ m) (hk : k ≤ 40) :
    bytesOf (.nearest binary64 negative m hm) (2 ^ k) =
      if binary64.round m < 2 ^ 1024 ∧ (negative = false ∨ binary64.round m = 0) then
        some (if negative then 0 else min ⌊binary64.round m * 2 ^ k⌋₊ (2 ^ 64 - 1))
      else
        none := by
  have hlimit : k < binary64.limit := by
    simp only [binary64]
    omega
  have hmul := @Value.toUnsigned_mul_two_pow binary64 64 k (by decide) hlimit (by decide) negative
  by_cases hlt : binary64.round m < 2 ^ binary64.limit
  · have hlt' : binary64.round m < 2 ^ 1024 := hlt
    cases negative with
    | false =>
        simp [bytesOf, Value.nearest_eq_finite hlt, Value.isNonneg, Value.isFinite, hmul, hlt']
    | true =>
        by_cases hzero : binary64.round m = 0 <;>
          simp [bytesOf, Value.nearest_eq_finite hlt, Value.isNonneg, Value.isFinite, hmul, hzero]
  · have hlt' : ¬ binary64.round m < 2 ^ 1024 := hlt
    simp [bytesOf, Value.nearest_eq_infinite hlt, Value.isFinite, hlt']

end Rounding

/-! ## What is read -/

section Read

variable {U : Uppercase} {s : Str} {x : ℚ} {v : ℕ} {d : Decimal} {size : ℕ}

theorem near_natCast {n : ℕ} (hn : n < 2 ^ 64) : Near n n where
  whole := fun _ => by simp
  close := fun _ _ => by
    rw [sub_self, abs_zero]
    positivity
  large := fun hlarge => by
    have hle : 2 ^ 64 ≤ n := by
      exact_mod_cast hlarge
    omega

theorem near_of_bytesOf {k : ℕ} (hk : k ≤ 40)
    (h : bytesOf (.nearest binary64 d.negative d.magnitude d.magnitude_nonneg) (2 ^ k) = some v) :
    Near (d.value * 2 ^ k) v := by
  rw [bytesOf_nearest _ _ hk] at h
  split at h
  · rename_i hread
    rw [← Option.some.inj h, Decimal.value]
    cases hsign : d.negative with
    | false =>
        exact near_of_round d.magnitude_nonneg hk
    | true =>
        have hzero : binary64.round d.magnitude = 0 :=
          hread.2.resolve_left (by simp [hsign])
        exact near_of_round_eq_zero d.magnitude_nonneg hk hzero
  · cases h

theorem bytesOf_ne_none {k : ℕ} (hk : k ≤ 40) (hx : 0 ≤ d.value * 2 ^ k)
    (hlt : d.value * 2 ^ k < 2 ^ 1023) :
    bytesOf (.nearest binary64 d.negative d.magnitude d.magnitude_nonneg) (2 ^ k) ≠ none := by
  have hpos : (1 : ℚ) ≤ 2 ^ k := one_le_pow₀ one_le_two
  have hvalue : 0 ≤ d.value := by
    by_contra hneg
    exact absurd hx (not_le.2 (mul_neg_of_neg_of_pos (not_le.1 hneg) (zero_lt_one.trans_le hpos)))
  have hmagnitude : d.magnitude = d.value ∧ (d.negative = false ∨ d.magnitude = 0) := by
    have hnonneg := d.magnitude_nonneg
    unfold Decimal.value at hvalue ⊢
    cases hsign : d.negative with
    | false =>
        exact ⟨rfl, Or.inl rfl⟩
    | true =>
        have hzero : d.magnitude = 0 := by
          simp only [hsign, if_true] at hvalue
          linarith
        exact ⟨by simp [hzero], Or.inr hzero⟩
  have hpower : binary64.Representable ((2 : ℚ) ^ 1023) :=
    ⟨1, (1023 : ℕ), by decide, by decide, by rw [zpow_natCast]; simp⟩
  have hle : d.magnitude ≤ 2 ^ 1023 := by
    rw [hmagnitude.1]
    exact (le_mul_of_one_le_right hvalue hpos).trans hlt.le
  have hfinite : binary64.round d.magnitude < 2 ^ 1024 :=
    (round_le d.magnitude_nonneg hle hpower).trans_lt (pow_lt_pow_right₀ one_lt_two (by omega))
  have hsign : d.negative = false ∨ binary64.round d.magnitude = 0 := by
    refine hmagnitude.2.imp_right fun hzero => ?_
    rw [hzero, round_of_representable (.zero binary64)]
  rw [bytesOf_nearest _ _ hk, if_pos ⟨hfinite, hsign⟩]
  exact Option.some_ne_none _

variable (U s) in
/-- Whatever is read has been said and is near what was said, whole numbers of bytes are read as
they are, and what is said is read unless it is negative or out of reach of double precision. -/
structure ReadsSize : Prop where
  said : ∀ v, parseSize U s = some v → ∃ x, SaysSize U s x
  near : ∀ x v, SaysSize U s x → parseSize U s = some v → Near x v
  exact : ∀ n : ℕ, n ≤ 2 ^ 53 → SaysSize U s n → parseSize U s = some n
  accepted : ∀ x, SaysSize U s x → 0 ≤ x → x < 2 ^ 1023 → parseSize U s ≠ none

theorem near_of_saysSize (hstated : SaysSize U s x) (h : parseSize U s = some v) : Near x v := by
  cases hstated with
  | @plain n hnum =>
      have hv : n = v := by
        simpa [parseSize, hnum] using h
      rw [← hv]
      exact near_natCast (lt_of_parseUnsigned hnum)
  | unit hs hnum hblank hunit =>
      rcases sizeUnits_two_pow hunit with ⟨k, hk, rfl⟩
      rw [parseSize_unit hs hnum hblank hunit] at h
      push_cast
      exact near_of_bytesOf hk h

theorem ne_none_of_saysSize (hstated : SaysSize U s x) (hx : 0 ≤ x) (hlt : x < 2 ^ 1023) :
    parseSize U s ≠ none := by
  cases hstated with
  | plain hnum =>
      simp [parseSize, hnum]
  | unit hs hnum hblank hunit =>
      rcases sizeUnits_two_pow hunit with ⟨k, hk, rfl⟩
      rw [parseSize_unit hs hnum hblank hunit]
      push_cast at hx hlt
      exact bytesOf_ne_none hk hx hlt

/-- A whole number of bytes is not rounded. -/
theorem parseSize_of_saysSize {n : ℕ} (hstated : SaysSize U s n) (hn : n ≤ 2 ^ 53) :
    parseSize U s = some n := by
  have hle : (n : ℚ) ≤ 2 ^ 53 := by
    exact_mod_cast hn
  have hlt : (n : ℚ) < 2 ^ 1023 := hle.trans_lt (pow_lt_pow_right₀ one_lt_two (by omega))
  rcases Option.ne_none_iff_exists'.1 (ne_none_of_saysSize hstated n.cast_nonneg hlt) with ⟨v, hv⟩
  have hwhole := (near_of_saysSize hstated hv).whole hle
  rw [Int.floor_natCast, Int.ceil_natCast] at hwhole
  rw [hv]
  congr 1
  omega

/-- `parse_size` reads what a text says. -/
theorem readsSize (U : Uppercase) (s : Str) : ReadsSize U s where
  said := fun _ h => exists_saysSize h
  near := fun _ _ hstated h => near_of_saysSize hstated h
  exact := fun _ hn hstated => parseSize_of_saysSize hstated hn
  accepted := fun _ hstated hx hlt => ne_none_of_saysSize hstated hx hlt

end Read

/-! ## The sizes of the configuration -/

/-- The variables that hold sizes, and what they are for. -/
def sizeSettings : List (Str × (Config → ℕ)) :=
  [("SQUIDDISH_MEMORY_SIZE".toList, fun c => c.cache.memorySize),
    ("SQUIDDISH_DISK_SIZE".toList, fun c => c.cache.diskSize),
    ("SQUIDDISH_MAX_BODY_SIZE".toList, fun c => c.security.maxBodySize)]

/-- The sizes are read by `parse_size`. -/
def withSizes {Addr : Type} (P : Parsers Addr) (U : Uppercase) : Parsers Addr :=
  { P with parseSize := parseSize U }

/-- A size is what its variable says, or the default when the variable is not there. -/
structure SizeSet (U : Uppercase) (getVar : Str → Option Str) (name : Str) (default size : ℕ) :
    Prop where
  positive : 0 < size
  absent : getVar name = none → size = default
  said : ∀ text, getVar name = some text → ∃ x, SaysSize U text x
  near : ∀ text x, getVar name = some text → SaysSize U text x → Near x size

section FromVars

variable {Addr α : Type} {get : Settings Addr → ℕ}
  {steps : List (Setting Addr)} {s t : Settings Addr}

/-- The line has nothing to do with the value. -/
def Keeps (get : Settings Addr → ℕ) (step : Setting Addr) : Prop :=
  ∀ s t, step s = .ok t → get t = get s

theorem keeps_readVar {getVar : Str → Option Str} {name : Str} {parse : Str → Except Str α}
    {set : α → Settings Addr → Settings Addr} (hset : ∀ a s, get (set a s) = get s) :
    Keeps get (readVar getVar name parse set) := by
  intro s t h
  unfold readVar at h
  split at h
  · rw [← Except.ok.inj h]
  · split at h
    · rw [← Except.ok.inj h]
      exact hset _ s
    · cases h

theorem requirePositive_eq_ok {name : Str} {value : Config → ℕ} :
    (requirePositive name value : Setting Addr) s = .ok t ↔ t = s ∧ 0 < value s.config := by
  unfold requirePositive
  split
  · rename_i hzero
    simp [hzero]
  · rename_i hpos
    simp [Nat.pos_of_ne_zero hpos, eq_comm]

theorem keeps_requirePositive {name : Str} {value : Config → ℕ} :
    Keeps get (requirePositive name value) := by
  intro s t h
  rw [(requirePositive_eq_ok.1 h).1]

/-- A line that sets a value sets it once and for all, when no other line does. -/
theorem get_of_foldlM {line : Setting Addr} {f : ℕ → ℕ} (hf : ∀ n, f (f n) = f n)
    (hline : ∀ s t, line s = .ok t → get t = f (get s))
    (hothers : ∀ step ∈ steps, step = line ∨ Keeps get step)
    (h : steps.foldlM (fun s setting => setting s) s = .ok t) :
    (get t = get s ∨ get t = f (get s)) ∧ (line ∈ steps → get t = f (get s)) := by
  induction steps generalizing s with
  | nil =>
      have hsame : s = t := Except.ok.inj h
      exact ⟨Or.inl (by rw [hsame]), fun hmem => by cases hmem⟩
  | cons first steps ih =>
      rw [List.foldlM_cons] at h
      cases hfirst : first s with
      | error e =>
          rw [hfirst] at h
          cases h
      | ok u =>
          rw [hfirst] at h
          have hrest := ih (fun step hmem => hothers step (List.mem_cons_of_mem _ hmem)) h
          by_cases hset : first = line
          · rw [hset] at hfirst
            have hall : get t = f (get s) := by
              rcases hrest.1 with heq | heq
              · rw [heq, hline s u hfirst]
              · rw [heq, hline s u hfirst, hf]
            exact ⟨Or.inr hall, fun _ => hall⟩
          · have hkeeps := (hothers first List.mem_cons_self).resolve_left hset
            rw [hkeeps s u hfirst] at hrest
            refine ⟨hrest.1, fun hmem => hrest.2 ?_⟩
            exact (List.mem_cons.1 hmem).resolve_left (Ne.symm hset)

/-- Lines that only check leave everything as it is, and have all been passed. -/
theorem of_foldlM_checks (hchecks : ∀ step ∈ steps, ∀ s t, step s = .ok t → t = s)
    (h : steps.foldlM (fun s setting => setting s) s = .ok t) :
    t = s ∧ ∀ step ∈ steps, step s = .ok s := by
  induction steps with
  | nil =>
      exact ⟨(Except.ok.inj h).symm, fun step hmem => by cases hmem⟩
  | cons first steps ih =>
      rw [List.foldlM_cons] at h
      cases hfirst : first s with
      | error e =>
          rw [hfirst] at h
          cases h
      | ok u =>
          rw [hfirst] at h
          have hsame := hchecks first List.mem_cons_self s u hfirst
          subst hsame
          rcases ih (fun step hmem => hchecks step (List.mem_cons_of_mem _ hmem)) h with
            ⟨rfl, hall⟩
          refine ⟨rfl, fun step hmem => ?_⟩
          rcases List.mem_cons.1 hmem with rfl | hrest
          · exact hfirst
          · exact hall step hrest

variable (P : Parsers Addr) (U : Uppercase) (getVar : Str → Option Str)

/-- The line of `from_vars` that sets a size, among lines that leave it alone. -/
structure IsSizeLine (name : Str) (value : Config → ℕ)
    (set : ℕ → Settings Addr → Settings Addr) : Prop where
  mem : readSize (withSizes P U) getVar name set ∈ settings (withSizes P U) getVar
  others : ∀ step ∈ settings (withSizes P U) getVar,
    step = readSize (withSizes P U) getVar name set ∨ Keeps (fun s => value s.config) step
  sets : ∀ n s, value (set n s).config = n
  checked : requirePositive name value ∈ (settings (withSizes P U) getVar).drop 15

theorem exists_sizeLine {p : Str × (Config → ℕ)} (hp : p ∈ sizeSettings) :
    ∃ set, IsSizeLine P U getVar p.1 p.2 set := by
  simp only [sizeSettings, List.mem_cons, List.not_mem_nil, or_false] at hp
  rcases hp with rfl | rfl | rfl
  on_goal 1 => refine ⟨onCache fun v c => { c with memorySize := v }, ?_⟩
  on_goal 2 => refine ⟨onCache fun v c => { c with diskSize := v }, ?_⟩
  on_goal 3 => refine ⟨onSecurity fun v c => { c with maxBodySize := v }, ?_⟩
  all_goals
    refine ⟨by simp [settings], ?_, fun _ _ => rfl, by simp [settings]⟩
    simp only [settings, List.forall_mem_cons]
    -- all lines but one leave the size alone
    and_intros <;> first
      | exact Or.inr (keeps_readVar fun _ _ => rfl)
      | exact Or.inr keeps_requirePositive
      | exact Or.inl rfl
      | simp

variable {P U getVar}

/-- The checks at the end of `from_vars` have been passed. -/
theorem positive_of_fromVars (h : fromVars (withSizes P U) getVar = .ok s) {name : Str}
    {value : Config → ℕ}
    (hcheck : requirePositive name value ∈ (settings (withSizes P U) getVar).drop 15) :
    0 < value s.config := by
  have hall : ∀ step ∈ (settings (withSizes P U) getVar).drop 15, ∀ s t, step s = .ok t →
      t = s := by
    simp only [settings, List.drop_succ_cons, List.drop_zero, List.forall_mem_cons]
    and_intros <;> first
      | exact fun s t hok => (requirePositive_eq_ok.1 hok).1
      | simp
  rw [fromVars, ← List.take_append_drop 15 (settings (withSizes P U) getVar),
    List.foldlM_append] at h
  revert h
  cases ((settings (withSizes P U) getVar).take 15).foldlM (fun s setting => setting s) _ with
  | error e =>
      intro h
      cases h
  | ok u =>
      intro h
      rcases of_foldlM_checks hall h with ⟨rfl, hpassed⟩
      exact (requirePositive_eq_ok.1 (hpassed _ hcheck)).2

/-- The size after the line has been read. -/
def sizeOr (U : Uppercase) (text : Option Str) (n : ℕ) : ℕ :=
  (text.bind (parseSize U)).getD n

theorem readSize_eq_ok {name : Str} {set : ℕ → Settings Addr → Settings Addr}
    (h : readSize (withSizes P U) getVar name set s = .ok t) {value : Config → ℕ}
    (hset : ∀ n s, value (set n s).config = n) :
    value t.config = sizeOr U (getVar name) (value s.config) := by
  unfold readSize readVar at h
  cases htext : getVar name with
  | none =>
      simp only [htext] at h
      rw [← Except.ok.inj h]
      rfl
  | some text =>
      cases hsize : parseSize U text with
      | none =>
          simp [htext, withSizes, hsize] at h
      | some n =>
          have ht : set n s = t := by
            simpa [htext, withSizes, hsize] using h
          simp [← ht, hset, sizeOr, hsize]

/-- The proxy does not start on a text that says no size. -/
theorem parseSize_ne_none_of_fromVars (h : fromVars (withSizes P U) getVar = .ok s) {name : Str}
    {set : ℕ → Settings Addr → Settings Addr}
    (hmem : readSize (withSizes P U) getVar name set ∈ settings (withSizes P U) getVar)
    {text : Str} (htext : getVar name = some text) : parseSize U text ≠ none := by
  intro hnone
  have hrefused : ∀ u, ∃ e, readSize (withSizes P U) getVar name set u = .error e := by
    intro u
    simp [readSize, readVar, htext, withSizes, hnone]
  rcases foldlM_error hmem hrefused _ with ⟨e, he⟩
  rw [fromVars, he] at h
  cases h

/-- Every size of a proxy that starts is positive, and is what its variable says. -/
theorem sizes_of_fromVars (h : fromVars (withSizes P U) getVar = .ok s) :
    ∀ p ∈ sizeSettings, SizeSet U getVar p.1 (p.2 Config.default) (p.2 s.config) := by
  intro p hp
  rcases exists_sizeLine P U getVar hp with ⟨set, hline⟩
  have hidem : ∀ n, sizeOr U (getVar p.1) (sizeOr U (getVar p.1) n) = sizeOr U (getVar p.1) n := by
    intro n
    unfold sizeOr
    cases (getVar p.1).bind (parseSize U) <;> rfl
  have hvalue : p.2 s.config = sizeOr U (getVar p.1) (p.2 Config.default) :=
    (get_of_foldlM hidem (fun _ _ hok => readSize_eq_ok hok hline.sets) hline.others h).2 hline.mem
  have hread : ∀ text, getVar p.1 = some text → parseSize U text = some (p.2 s.config) := by
    intro text htext
    have hne := parseSize_ne_none_of_fromVars h hline.mem htext
    rcases Option.ne_none_iff_exists'.1 hne with ⟨n, hn⟩
    rw [hvalue, htext, sizeOr, Option.bind_some, hn, Option.getD_some]
  refine ⟨positive_of_fromVars h hline.checked, fun hnone => ?_, fun text htext => ?_,
    fun text x htext hstated => ?_⟩
  · rw [hvalue, hnone]
    rfl
  · exact (readsSize U text).said _ (hread text htext)
  · exact (readsSize U text).near x _ hstated (hread text htext)

end FromVars

/-- Variables that set one size. -/
def kilobyteVars (name : Str) : Option Str :=
  if name = "SQUIDDISH_MEMORY_SIZE".toList then some "1.5 kb".toList else none

theorem sizes_of_fromVars_kilobytes :
    ∃ s, fromVars (withSizes asciiParsers .ascii) kilobyteVars = .ok s ∧
      s.config.cache.memorySize = 1536 ∧
      ∀ p ∈ sizeSettings, SizeSet .ascii kilobyteVars p.1 (p.2 Config.default) (p.2 s.config) := by
  have hread : (fromVars (withSizes asciiParsers .ascii) kilobyteVars).toOption.map
      (fun s => s.config.cache.memorySize) = some 1536 := by
    decide +kernel
  cases hok : fromVars (withSizes asciiParsers .ascii) kilobyteVars with
  | error e =>
      rw [hok] at hread
      cases hread
  | ok s =>
      rw [hok] at hread
      exact ⟨s, rfl, Option.some.inj hread, sizes_of_fromVars hok⟩

end Squiddish
