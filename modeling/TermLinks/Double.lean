import Mathlib.Algebra.Order.Floor.Ring
import Mathlib.Data.Int.Log
import Mathlib.Data.Rat.Floor
import TermLinks.JsonRender

namespace TermLinks

/-- A JavaScript number by its value; both zeros are one. -/
inductive Double
  | nan
  | infinite (negative : Bool)
  | finite (value : ℚ)
deriving DecidableEq

/-- The nearest integer, of two the even one. -/
def roundEven (q : ℚ) : ℤ :=
  if q - ⌊q⌋ < 1 / 2 then ⌊q⌋
  else if 1 / 2 < q - ⌊q⌋ then ⌊q⌋ + 1
  else if ⌊q⌋ % 2 = 0 then ⌊q⌋ else ⌊q⌋ + 1

/-- The distance of the doubles around a value: 53 digits, and no exponent below that of the subnormals. -/
def ulp (q : ℚ) : ℚ := 2 ^ max (Int.log 2 |q| - 52) (-1074)

namespace Double

def ofRat (q : ℚ) : Double :=
  if |(roundEven (q / ulp q) : ℚ) * ulp q| < 2 ^ 1024 then .finite (roundEven (q / ulp q) * ulp q)
  else .infinite (q < 0)

/-- The integer of `Number.isSafeInteger`. -/
def safeInteger : Double → Option ℤ
  | .finite value => if value.den = 1 ∧ |value.num| ≤ 2 ^ 53 - 1 then some value.num else none
  | .nan | .infinite _ => none

/-- The `+` of JavaScript. -/
def add : Double → Double → Double
  | .finite a, .finite b => .ofRat (a + b)
  | .infinite a, .infinite b => if a = b then .infinite a else .nan
  | .infinite a, .finite _ => .infinite a
  | .finite _, .infinite b => .infinite b
  | .nan, _ | _, .nan => .nan

/-- The `===` of JavaScript. -/
def strictEquals (a b : Double) : Bool := a ≠ .nan && a = b

end Double

/-- The value of a literal. -/
def Json.Number.toRat (n : Json.Number) : ℚ :=
  (if n.negative then -1 else 1) *
    (Json.ofDigits n.fraction + n.whole * 10 ^ n.fraction.length : ℕ) *
    10 ^ (n.exponent.getD 0 - n.fraction.length)

/-- What `JSON.parse` makes of a literal. -/
def Json.Number.toDouble (n : Json.Number) : Double := .ofRat n.toRat

theorem roundEven_int (n : ℤ) : roundEven n = n := by
  have below : (n : ℚ) - ⌊(n : ℚ)⌋ < 1 / 2 := by
    rw [Int.floor_intCast]
    norm_num
  rw [roundEven, if_pos below, Int.floor_intCast]

theorem ulp_pos (q : ℚ) : 0 < ulp q := zpow_pos (by norm_num) _

/-- Doubles around a small integer are as dense as the integers. -/
theorem exists_ulp_eq {n : ℤ} (h : |n| < 2 ^ 53) : ∃ k : ℕ, ulp n = (2 ^ k)⁻¹ := by
  have small : Int.log 2 |(n : ℚ)| - 52 ≤ 0 := by
    by_cases zero : n = 0
    · rw [zero, Int.cast_zero, abs_zero, Int.log_of_right_le_zero _ le_rfl]
      omega
    · have positive : 0 < |(n : ℚ)| := abs_pos.mpr (by exact_mod_cast zero)
      have bound : |(n : ℚ)| < ((2 : ℕ) : ℚ) ^ (53 : ℤ) := by
        have cast : ((|n| : ℤ) : ℚ) < ((2 ^ 53 : ℤ) : ℚ) := by exact_mod_cast h
        rw [← Int.cast_abs]
        refine lt_of_lt_of_eq cast ?_
        norm_num
      have log := (Int.lt_zpow_iff_log_lt (by norm_num) positive).mp bound
      omega
  obtain ⟨k, hk⟩ := Int.eq_ofNat_of_zero_le (a := -max (Int.log 2 |(n : ℚ)| - 52) (-1074)) (by omega)
  refine ⟨k, ?_⟩
  have exponent : max (Int.log 2 |(n : ℚ)| - 52) (-1074) = -(k : ℤ) := by omega
  rw [ulp, exponent, zpow_neg, zpow_natCast]

/-- Integers of up to 53 digits are doubles. -/
theorem Double.ofRat_int {n : ℤ} (h : |n| < 2 ^ 53) : Double.ofRat n = .finite n := by
  obtain ⟨k, hk⟩ := exists_ulp_eq h
  have scaled : (n : ℚ) / ulp n = ((n * 2 ^ k : ℤ) : ℚ) := by
    rw [hk, div_inv_eq_mul]
    push_cast
    ring
  have rounded : (roundEven ((n : ℚ) / ulp n) : ℚ) * ulp n = n := by
    rw [scaled, roundEven_int, ← scaled, div_mul_cancel₀ _ (ulp_pos n).ne']
  have bound : |(n : ℚ)| < 2 ^ 1024 := by
    have cast : ((|n| : ℤ) : ℚ) < 2 ^ 53 := by exact_mod_cast h
    have wide : (2 : ℚ) ^ 53 < 2 ^ 1024 := pow_lt_pow_right₀ (by norm_num) (by norm_num)
    rw [← Int.cast_abs]
    exact cast.trans wide
  rw [Double.ofRat, rounded, if_pos bound]

theorem toRat_ofInt (n : ℤ) : (Json.ofInt n).toRat = n := by
  simp only [Json.Number.toRat, Json.ofInt, Json.ofDigits, List.reverse_nil, List.map_nil, Nat.ofDigits_nil,
    List.length_nil, pow_zero, mul_one, zero_add, Option.getD_none, Nat.cast_zero, sub_zero, zpow_zero,
    decide_eq_true_eq]
  split
  next negative =>
    have value : (n.natAbs : ℤ) = -n := by omega
    have cast : ((n.natAbs : ℤ) : ℚ) = ((-n : ℤ) : ℚ) := congrArg _ value
    rw [Int.cast_natCast, Int.cast_neg] at cast
    rw [cast]
    ring
  next positive =>
    have value : (n.natAbs : ℤ) = n := by omega
    have cast : ((n.natAbs : ℤ) : ℚ) = ((n : ℤ) : ℚ) := congrArg _ value
    simpa using cast

/-- A written integer is read back exactly while it is safe. -/
theorem toDouble_ofInt {n : ℤ} (h : |n| < 2 ^ 53) : (Json.ofInt n).toDouble = .finite n := by
  rw [Json.Number.toDouble, toRat_ofInt, Double.ofRat_int h]

theorem safeInteger_eq_some {x : Double} {n : ℤ} :
    x.safeInteger = some n ↔ x = .finite n ∧ |n| ≤ 2 ^ 53 - 1 := by
  cases x with
  | nan => simp [Double.safeInteger]
  | infinite negative => simp [Double.safeInteger]
  | finite value =>
    simp only [Double.safeInteger, Double.finite.injEq]
    constructor
    · intro h
      split at h
      next safe =>
        cases h
        refine ⟨?_, safe.2⟩
        exact (Rat.coe_int_num_of_den_eq_one safe.1).symm
      next => cases h
    · rintro ⟨rfl, safe⟩
      rw [if_pos ⟨Rat.den_intCast n, by rwa [Rat.num_intCast]⟩, Rat.num_intCast]

theorem Double.ofRat_ne_nan (q : ℚ) : Double.ofRat q ≠ .nan := by
  unfold Double.ofRat
  split <;> exact nofun

theorem Double.add_finite_ne_nan {x : Double} (h : x ≠ .nan) (q : ℚ) : x.add (.finite q) ≠ .nan := by
  cases x with
  | nan => exact absurd rfl h
  | infinite negative => exact nofun
  | finite value => exact Double.ofRat_ne_nan _

theorem Double.strictEquals_iff {a b : Double} : a.strictEquals b = true ↔ a ≠ .nan ∧ a = b := by
  simp [Double.strictEquals]

example : Json.Number.toDouble ⟨false, 2, [0, 9, 7, 1, 5, 2], some 6⟩ = .finite 2097152 := by decide +kernel

end TermLinks
