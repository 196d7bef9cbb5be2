import Mathlib.Algebra.Order.Archimedean.Basic
import Mathlib.Algebra.Order.Floor.Ring
import Mathlib.Data.Int.Log
import Mathlib.Data.Rat.Floor
import Mathlib.Tactic.FieldSimp
import Mathlib.Tactic.Linarith
import Mathlib.Tactic.Positivity

/-!
# Floats — binary floating-point numbers and rounding to the nearest

A format has a precision and a smallest exponent; its numbers are `m * 2 ^ e` with a mantissa of that
precision.  Over any ordered field with a floor this file supplies

* `roundEven` : the nearest integer, and of two the even one;
* `Format.round` : the nearest number of the format, for numbers that are not negative;
* the rules by which rounding is reasoned about: it is monotone, it fixes the numbers of the format,
  and so it does not cross any of them (`round_le`, `le_round`).

Signs, infinities and what is no number are added in `Format.Value`, whose finite values carry the
proof that they belong to the format.
-/

namespace Squiddish
namespace Lib

variable {K : Type*} [Field K]

/-! ## The nearest integer -/

section RoundEven

variable [LinearOrder K] [FloorRing K]

/-- The nearest integer; halfway between two, the even one. -/
def roundEven (x : K) : ℤ :=
  if Int.fract x < 1 / 2 then ⌊x⌋
  else if 1 / 2 < Int.fract x then ⌊x⌋ + 1
  else if ⌊x⌋ % 2 = 0 then ⌊x⌋ else ⌊x⌋ + 1

theorem floor_le_roundEven (x : K) : ⌊x⌋ ≤ roundEven x := by
  unfold roundEven
  split_ifs <;> omega

theorem roundEven_le_floor_add_one (x : K) : roundEven x ≤ ⌊x⌋ + 1 := by
  unfold roundEven
  split_ifs <;> omega

variable [IsStrictOrderedRing K]

@[simp] theorem roundEven_intCast (n : ℤ) : roundEven (n : K) = n := by
  have hlt : Int.fract (n : K) < 1 / 2 := by
    rw [Int.fract_intCast]
    norm_num
  rw [roundEven, if_pos hlt, Int.floor_intCast]

theorem roundEven_mono {x y : K} (h : x ≤ y) : roundEven x ≤ roundEven y := by
  rcases (Int.floor_le_floor h).eq_or_lt with hfloor | hfloor
  · -- between the same two integers the fractions decide
    have hfract : Int.fract x ≤ Int.fract y := by
      rw [Int.fract, Int.fract, hfloor]
      linarith
    by_cases hx : Int.fract x < 1 / 2
    · calc
        roundEven x = ⌊x⌋ := by rw [roundEven, if_pos hx]
        _ = ⌊y⌋ := hfloor
        _ ≤ roundEven y := floor_le_roundEven y
    · have hy : ¬ Int.fract y < 1 / 2 := fun hlt => hx (hfract.trans_lt hlt)
      unfold roundEven
      rw [if_neg hx, if_neg hy, hfloor]
      split_ifs with h₁ h₂ <;> first | omega | exact absurd (h₁.trans_le hfract) h₂
  · calc
      roundEven x ≤ ⌊x⌋ + 1 := roundEven_le_floor_add_one x
      _ ≤ ⌊y⌋ := hfloor
      _ ≤ roundEven y := floor_le_roundEven y

/-- No integer is nearer than one half. -/
theorem abs_roundEven_sub_le (x : K) : |(roundEven x : K) - x| ≤ 1 / 2 := by
  have hfract := Int.floor_add_fract x
  have hnonneg := Int.fract_nonneg x
  have hlt := Int.fract_lt_one x
  rw [abs_le]
  unfold roundEven
  split_ifs with h₁ h₂ <;> push_cast <;> constructor <;> linarith

end RoundEven

/-! ## Formats -/

structure Format where
  precision : ℕ
  /-- The exponent of the smallest positive number. -/
  minExp : ℤ
  /-- What is rounded to `2 ^ limit` or more is infinite. -/
  limit : ℕ
  precision_pos : 0 < precision

namespace Format

variable (F : Format)

/-- A number of the format that is not negative, however large. -/
def Representable (x : K) : Prop :=
  ∃ (m : ℕ) (e : ℤ), m < 2 ^ F.precision ∧ F.minExp ≤ e ∧ x = m * 2 ^ e

theorem Representable.zero : F.Representable (0 : K) :=
  ⟨0, F.minExp, by positivity, le_refl _, by simp⟩

variable {F} in
/-- A larger exponent is as good as a smaller one. -/
theorem Representable.mul_two_pow [NeZero (2 : K)] {x : K} (h : F.Representable x) (k : ℕ) :
    F.Representable (x * 2 ^ k) := by
  rcases h with ⟨m, e, hm, he, rfl⟩
  refine ⟨m, e + k, hm, by omega, ?_⟩
  rw [zpow_add₀ two_ne_zero, zpow_natCast, mul_assoc]

variable {F} in
/-- Fractions whose numerator is not too long. -/
theorem Representable.div_two_pow [NeZero (2 : K)] {n : ℕ} (hn : n ≤ 2 ^ F.precision) {k : ℕ}
    (hk : F.minExp ≤ -(k : ℤ)) : F.Representable ((n : K) / 2 ^ k) := by
  rcases hn.eq_or_lt with rfl | hlt
  · -- a power of two has a shorter mantissa
    refine ⟨1, F.precision - k, Nat.one_lt_two_pow F.precision_pos.ne', by omega, ?_⟩
    rw [zpow_sub₀ two_ne_zero, zpow_natCast, zpow_natCast]
    push_cast
    ring
  · refine ⟨n, -k, hlt, hk, ?_⟩
    rw [zpow_neg, zpow_natCast, div_eq_mul_inv]

variable [LinearOrder K] [FloorRing K]

/-- The exponent of the last binary digit that is kept. -/
def exponent (x : K) : ℤ :=
  max F.minExp (Int.log 2 x + 1 - F.precision)

/-- The nearest number of the format. -/
def round (x : K) : K :=
  roundEven (x / 2 ^ F.exponent x) * 2 ^ F.exponent x

variable {F} {x y : K}

/-- Numbers that are not small use all digits. -/
theorem minExp_lt_exponent (hx : 1 ≤ x) (hmin : F.minExp < 1 - F.precision) :
    F.minExp < F.exponent x := by
  have hlog : 0 ≤ Int.log 2 x := by
    rw [Int.log_of_one_le_right 2 hx]
    exact Int.natCast_nonneg _
  exact lt_max_of_lt_right (by omega)

variable [IsStrictOrderedRing K]

theorem two_zpow_pos (e : ℤ) : (0 : K) < 2 ^ e :=
  zpow_pos two_pos e

theorem Representable.nonneg (h : F.Representable x) : 0 ≤ x := by
  rcases h with ⟨m, e, -, -, rfl⟩
  exact mul_nonneg (Nat.cast_nonneg m) (two_zpow_pos e).le

theorem exponent_mono (hx : 0 < x) (h : x ≤ y) : F.exponent x ≤ F.exponent y := by
  have hlog := Int.log_mono_right (b := 2) hx h
  exact max_le_max_left _ (by omega)

theorem lt_two_zpow_exponent (x : K) : x < 2 ^ (F.exponent x + F.precision) := by
  have hle : Int.log 2 x + 1 ≤ F.exponent x + F.precision := by
    have hmax : Int.log 2 x + 1 - F.precision ≤ F.exponent x := le_max_right _ _
    omega
  calc
    x < ((2 : ℕ) : K) ^ (Int.log 2 x + 1) := Int.lt_zpow_succ_log_self one_lt_two x
    _ = 2 ^ (Int.log 2 x + 1) := by norm_num
    _ ≤ 2 ^ (F.exponent x + F.precision) := zpow_le_zpow_right₀ one_le_two hle

/-- Above the smallest exponent all digits are used. -/
theorem two_zpow_le_of_exponent (hx : 0 < x) (h : F.minExp < F.exponent x) :
    2 ^ (F.exponent x + F.precision - 1) ≤ x := by
  have heq : F.exponent x = Int.log 2 x + 1 - F.precision := by
    rcases max_choice F.minExp (Int.log 2 x + 1 - F.precision) with hmin | hlog
    · exact absurd hmin h.ne'
    · exact hlog
  have hexp : F.exponent x + F.precision - 1 = Int.log 2 x := by
    omega
  have hself : ((2 : ℕ) : K) ^ Int.log 2 x ≤ x := Int.zpow_log_le_self one_lt_two hx
  rw [hexp]
  simpa using hself

theorem scaled_lt (x : K) : x / 2 ^ F.exponent x < 2 ^ F.precision := by
  rw [div_lt_iff₀ (two_zpow_pos _), ← zpow_natCast, ← zpow_add₀ two_ne_zero, add_comm]
  exact lt_two_zpow_exponent x

theorem roundEven_scaled_nonneg (hx : 0 ≤ x) : 0 ≤ roundEven (x / 2 ^ F.exponent x) := by
  have hmono := roundEven_mono (div_nonneg hx (two_zpow_pos (F.exponent x)).le)
  have hzero : roundEven (0 : K) = 0 := by
    exact_mod_cast roundEven_intCast (K := K) 0
  rwa [hzero] at hmono

theorem roundEven_scaled_le (x : K) : roundEven (x / 2 ^ F.exponent x) ≤ 2 ^ F.precision := by
  have hmono := roundEven_mono (scaled_lt (F := F) x).le
  have hpow : roundEven ((2 : K) ^ F.precision) = 2 ^ F.precision := by
    exact_mod_cast roundEven_intCast (K := K) (2 ^ F.precision)
  rwa [hpow] at hmono

/-- What is rounded is in the format. -/
theorem representable_round (hx : 0 ≤ x) : F.Representable (F.round x) := by
  have hnonneg := roundEven_scaled_nonneg (F := F) hx
  have hle := roundEven_scaled_le (F := F) x
  have hmin : F.minExp ≤ F.exponent x := le_max_left _ _
  rcases Int.eq_ofNat_of_zero_le hnonneg with ⟨n, hn⟩
  rw [round, hn]
  rw [hn] at hle
  have hle' : n ≤ 2 ^ F.precision := by
    exact_mod_cast hle
  rcases hle'.eq_or_lt with rfl | hlt
  -- the mantissa has become a power of two
  · refine ⟨1, F.exponent x + F.precision, Nat.one_lt_two_pow F.precision_pos.ne', by omega, ?_⟩
    rw [zpow_add₀ two_ne_zero, zpow_natCast]
    push_cast
    ring
  · exact ⟨n, F.exponent x, hlt, hmin, by push_cast; rfl⟩

/-- The numbers of the format are left alone. -/
theorem round_of_representable (h : F.Representable x) : F.round x = x := by
  rcases h.nonneg.eq_or_lt with rfl | hpos
  · have hzero : roundEven ((0 : K) / 2 ^ F.exponent (0 : K)) = 0 := by
      rw [zero_div]
      exact_mod_cast roundEven_intCast (K := K) 0
    rw [round, hzero]
    simp
  · rcases h with ⟨m, e, hm, he, rfl⟩
    have hlog : Int.log 2 ((m : K) * 2 ^ e) < F.precision + e := by
      refine (Int.lt_zpow_iff_log_lt one_lt_two hpos).1 ?_
      rw [zpow_add₀ (by norm_num), zpow_natCast]
      push_cast
      have hcast : (m : K) < 2 ^ F.precision := by
        exact_mod_cast hm
      exact mul_lt_mul_of_pos_right hcast (two_zpow_pos e)
    have hexp : F.exponent ((m : K) * 2 ^ e) ≤ e := max_le he (by omega)
    -- the mantissa is an integer at the smaller exponent as well
    rcases Int.eq_ofNat_of_zero_le (sub_nonneg.2 hexp) with ⟨k, hk⟩
    have hscaled : (m : K) * 2 ^ e / 2 ^ F.exponent ((m : K) * 2 ^ e) = ((m * 2 ^ k : ℤ) : K) := by
      rw [mul_div_assoc, ← zpow_sub₀ two_ne_zero, hk]
      push_cast
      rw [zpow_natCast]
    rw [round, hscaled, roundEven_intCast, ← hscaled, div_mul_cancel₀ _ (two_zpow_pos _).ne']

theorem round_mono (hx : 0 ≤ x) (h : x ≤ y) : F.round x ≤ F.round y := by
  rcases hx.eq_or_lt with rfl | hpos
  · rw [round_of_representable (Representable.zero F)]
    exact (representable_round h).nonneg
  · rcases (exponent_mono (F := F) hpos h).eq_or_lt with hexp | hexp
    · rw [round, round, hexp]
      refine mul_le_mul_of_nonneg_right ?_ (two_zpow_pos _).le
      have hscaled : x / 2 ^ F.exponent y ≤ y / 2 ^ F.exponent y :=
        div_le_div_of_nonneg_right h (two_zpow_pos _).le
      exact_mod_cast roundEven_mono hscaled
    -- a power of two stands between the two
    · have hpow := two_zpow_le_of_exponent (F := F) (hpos.trans_le h)
        ((le_max_left _ _).trans_lt hexp)
      have hupper : F.round x ≤ 2 ^ (F.exponent x + F.precision) := by
        rw [round, add_comm, zpow_add₀ two_ne_zero, zpow_natCast]
        refine mul_le_mul_of_nonneg_right ?_ (two_zpow_pos _).le
        exact_mod_cast roundEven_scaled_le (F := F) x
      have hlower : 2 ^ (F.exponent y + F.precision - 1) ≤ F.round y := by
        have hsplit : F.exponent y + F.precision - 1 = (F.precision - 1 : ℕ) + F.exponent y := by
          have hprecision := F.precision_pos
          omega
        rw [hsplit, zpow_add₀ two_ne_zero, zpow_natCast] at hpow ⊢
        rw [round]
        refine mul_le_mul_of_nonneg_right ?_ (two_zpow_pos _).le
        have hscaled := roundEven_mono ((le_div_iff₀ (two_zpow_pos _)).2 hpow)
        have hint : roundEven ((2 : K) ^ (F.precision - 1)) = 2 ^ (F.precision - 1) := by
          exact_mod_cast roundEven_intCast (K := K) (2 ^ (F.precision - 1))
        rw [hint] at hscaled
        exact_mod_cast hscaled
      calc
        F.round x ≤ 2 ^ (F.exponent x + F.precision) := hupper
        _ ≤ 2 ^ (F.exponent y + F.precision - 1) := zpow_le_zpow_right₀ one_le_two (by omega)
        _ ≤ F.round y := hlower

/-- Rounding does not cross a number of the format. -/
theorem round_le (hx : 0 ≤ x) (h : x ≤ y) (hy : F.Representable y) : F.round x ≤ y := by
  have hmono := round_mono (F := F) hx h
  rwa [round_of_representable hy] at hmono

theorem le_round (h : y ≤ x) (hy : F.Representable y) : y ≤ F.round x := by
  have hmono := round_mono (F := F) hy.nonneg h
  rwa [round_of_representable hy] at hmono

/-- Half a unit in the last place. -/
theorem abs_round_sub_le (x : K) : |F.round x - x| ≤ 2 ^ F.exponent x / 2 := by
  have hpos := two_zpow_pos (K := K) (F.exponent x)
  have hdiff : F.round x - x =
      ((roundEven (x / 2 ^ F.exponent x) : K) - x / 2 ^ F.exponent x) * 2 ^ F.exponent x := by
    rw [round, sub_mul, div_mul_cancel₀ _ hpos.ne']
  rw [hdiff, abs_mul, abs_of_pos hpos]
  calc
    |(roundEven (x / 2 ^ F.exponent x) : K) - x / 2 ^ F.exponent x| * 2 ^ F.exponent x ≤
        1 / 2 * 2 ^ F.exponent x :=
          mul_le_mul_of_nonneg_right (abs_roundEven_sub_le _) hpos.le
    _ = 2 ^ F.exponent x / 2 := by ring

/-- Where all digits are used, the error is small beside the number. -/
theorem abs_round_sub_le_of_exponent (hx : 0 < x) (h : F.minExp < F.exponent x) :
    |F.round x - x| ≤ x / 2 ^ F.precision := by
  have hself := two_zpow_le_of_exponent hx h
  rw [zpow_sub_one₀ two_ne_zero, zpow_add₀ two_ne_zero, zpow_natCast] at hself
  calc
    |F.round x - x| ≤ 2 ^ F.exponent x / 2 := abs_round_sub_le x
    _ = 2 ^ F.exponent x * 2 ^ F.precision * 2⁻¹ / 2 ^ F.precision := by field_simp
    _ ≤ x / 2 ^ F.precision := div_le_div_of_nonneg_right hself (by positivity)

/-! ### Values -/

/-- A finite number of the format without its sign. -/
structure Magnitude (F : Format) where
  value : ℚ
  representable : F.Representable value
  lt_limit : value < 2 ^ F.limit

inductive Value (F : Format)
  | finite (negative : Bool) (magnitude : F.Magnitude)
  | infinite (negative : Bool)
  | nan

namespace Value

/-- The value nearest to a number with this sign. -/
def nearest (F : Format) (negative : Bool) (x : ℚ) (hx : 0 ≤ x) : F.Value :=
  if h : F.round x < 2 ^ F.limit then .finite negative ⟨F.round x, representable_round hx, h⟩
  else .infinite negative

def ofNat (F : Format) (n : ℕ) : F.Value :=
  nearest F false n n.cast_nonneg

def mul : F.Value → F.Value → F.Value
  | .finite s x, .finite t y =>
      nearest F (s ^^ t) (x.value * y.value)
        (mul_nonneg x.representable.nonneg y.representable.nonneg)
  | .infinite s, .finite t y | .finite t y, .infinite s =>
      if y.value = 0 then .nan else .infinite (s ^^ t)
  | .infinite s, .infinite t => .infinite (s ^^ t)
  | .nan, _ | _, .nan => .nan

/-- The comparison with zero, which has two signs. -/
def isNonneg : F.Value → Bool
  | .finite negative x => !negative || x.value = 0
  | .infinite negative => !negative
  | .nan => false

def isFinite : F.Value → Bool
  | .finite _ _ => true
  | _ => false

/-- The conversion to an unsigned integer: truncated, and cut off at both ends. -/
def toUnsigned (bits : ℕ) : F.Value → ℕ
  | .finite negative x => if negative then 0 else min ⌊x.value⌋₊ (2 ^ bits - 1)
  | .infinite negative => if negative then 0 else 2 ^ bits - 1
  | .nan => 0

theorem nearest_eq_finite {negative : Bool} {x : ℚ} {hx : 0 ≤ x} (h : F.round x < 2 ^ F.limit) :
    nearest F negative x hx = .finite negative ⟨F.round x, representable_round hx, h⟩ :=
  dif_pos h

theorem nearest_eq_infinite {negative : Bool} {x : ℚ} {hx : 0 ≤ x}
    (h : ¬ F.round x < 2 ^ F.limit) : nearest F negative x hx = .infinite negative :=
  dif_neg h

/-- A power of two is a number of the format. -/
theorem ofNat_two_pow {k : ℕ} (hmin : F.minExp ≤ 0) (hk : k < F.limit) :
    ∃ x : F.Magnitude, x.value = 2 ^ k ∧ ofNat F (2 ^ k) = .finite false x := by
  have hrepresentable : F.Representable (((2 ^ k : ℕ) : ℕ) : ℚ) :=
    ⟨1, k, Nat.one_lt_two_pow F.precision_pos.ne', by omega, by push_cast; simp⟩
  have hround : F.round (((2 ^ k : ℕ) : ℕ) : ℚ) = 2 ^ k := by
    rw [round_of_representable hrepresentable]
    push_cast
    rfl
  have hlt : F.round (((2 ^ k : ℕ) : ℕ) : ℚ) < 2 ^ F.limit := by
    rw [hround]
    exact pow_lt_pow_right₀ one_lt_two hk
  exact ⟨_, hround, nearest_eq_finite hlt⟩

/-- The product with a power of two is exact, whatever is made of it as an unsigned integer. -/
theorem toUnsigned_mul_two_pow {bits k : ℕ} (hmin : F.minExp ≤ 0) (hk : k < F.limit)
    (hbits : bits ≤ F.limit) (negative : Bool) (x : F.Magnitude) :
    toUnsigned bits (mul (.finite negative x) (ofNat F (2 ^ k))) =
      if negative then 0 else min ⌊x.value * 2 ^ k⌋₊ (2 ^ bits - 1) := by
  rcases ofNat_two_pow hmin hk with ⟨y, hy, hof⟩
  have hround : F.round (x.value * y.value) = x.value * 2 ^ k := by
    rw [hy]
    exact round_of_representable (x.representable.mul_two_pow k)
  have hsign : (negative ^^ false) = negative := Bool.xor_false negative
  rw [hof, mul]
  by_cases hlt : F.round (x.value * y.value) < 2 ^ F.limit
  · rw [nearest_eq_finite hlt, hsign, toUnsigned]
    simp only [hround]
  -- what is infinite is no unsigned integer any more
  · rw [nearest_eq_infinite hlt, hsign, toUnsigned]
    have hlarge : 2 ^ bits - 1 ≤ ⌊x.value * 2 ^ k⌋₊ := by
      refine Nat.le_floor ?_
      rw [hround, not_lt] at hlt
      have hle : 2 ^ bits - 1 ≤ 2 ^ F.limit :=
        (Nat.sub_le _ _).trans (Nat.pow_le_pow_right two_pos hbits)
      have hcast : ((2 ^ bits - 1 : ℕ) : ℚ) ≤ 2 ^ F.limit := by
        exact_mod_cast hle
      exact hcast.trans hlt
    rw [min_eq_right hlarge]

end Value

/-- Double precision. -/
def binary64 : Format where
  precision := 53
  minExp := -1074
  limit := 1024
  precision_pos := by decide

end Format

end Lib
end Squiddish
