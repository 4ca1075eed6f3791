import Mathlib.Data.Int.Log
import Mathlib.Data.Rat.Floor
import Mathlib.Algebra.Order.Round
import Mathlib.Tactic

/-!
# Double precision

The binary64 numbers of IEEE 754, by their values.  A rational is rounded to the nearest number
with 53 bits, and to the even one of two.  The operations are the exact ones, rounded once.  The two
zeros are one here: none of the operations tells them apart.
-/

namespace Yew

/-- A binary64 number. -/
inductive Binary64 where
  | nan
  | inf (neg : Bool)
  | fin (q : ℚ)
deriving DecidableEq

namespace Binary64

/-! ## Rounding -/

/-- The nearest integer, and the even one of two. -/
def roundEven (q : ℚ) : ℤ :=
  if q - ⌊q⌋ < 1 / 2 ∨ (q - ⌊q⌋ = 1 / 2 ∧ 2 ∣ ⌊q⌋) then ⌊q⌋ else ⌊q⌋ + 1

/-- The exponent of the last bit: there are 53 of them, or fewer near zero. -/
def lastBit (q : ℚ) : ℤ := max (Int.log 2 |q| - 52) (-1074)

/-- The nearest number, as if there were no largest one. -/
def nearest (q : ℚ) : ℚ := roundEven (q / 2 ^ lastBit q) * 2 ^ lastBit q

/-- A rational, rounded. -/
def ofRat (q : ℚ) : Binary64 := if 2 ^ 1024 ≤ |nearest q| then .inf (q < 0) else .fin (nearest q)

theorem abs_roundEven_sub_le (q : ℚ) : |roundEven q - q| ≤ 1 / 2 := by
  have hlo := Int.floor_le q
  have hhi := Int.lt_floor_add_one q
  rw [roundEven, abs_le]
  split
  · rename_i h
    rcases h with h | ⟨h, -⟩
    · constructor <;> linarith
    · constructor <;> linarith
  · rename_i h
    have hhalf : ¬ q - ⌊q⌋ < 1 / 2 := fun hlt ↦ h (.inl hlt)
    push_cast
    constructor <;> linarith

theorem nearest_zero : nearest 0 = 0 := by
  have hround : roundEven 0 = 0 := by decide +kernel
  rw [nearest, zero_div, hround, Int.cast_zero, zero_mul]

/-- Away from zero the error is half of the last of 53 bits. -/
theorem abs_nearest_sub_le {q : ℚ} (hq : 2 ^ (-1022 : ℤ) ≤ |q|) :
    |nearest q - q| ≤ |q| * 2 ^ (-53 : ℤ) := by
  have hpos : 0 < |q| := lt_of_lt_of_le (by positivity) hq
  have hlog : (2 : ℚ) ^ Int.log 2 |q| ≤ |q| := by
    have := Int.zpow_log_le_self (b := 2) Nat.one_lt_two hpos
    exact_mod_cast this
  have hmin : -1022 ≤ Int.log 2 |q| := by
    have := Int.log_mono_right (b := 2) (by positivity) hq
    rwa [show (2 : ℚ) = ((2 : ℕ) : ℚ) by norm_num, Int.log_zpow Nat.one_lt_two] at this
  have hlast : lastBit q = Int.log 2 |q| - 52 := max_eq_left (by omega)
  have hbit : (0 : ℚ) < 2 ^ lastBit q := by positivity
  calc |nearest q - q|
      = |roundEven (q / 2 ^ lastBit q) - q / 2 ^ lastBit q| * 2 ^ lastBit q := by
        rw [← abs_of_pos hbit, ← abs_mul, abs_of_pos hbit, sub_mul, div_mul_cancel₀ _ hbit.ne']
        rfl
    _ ≤ 1 / 2 * 2 ^ lastBit q := by
        gcongr
        exact abs_roundEven_sub_le _
    _ = 2 ^ Int.log 2 |q| * 2 ^ (-53 : ℤ) := by
        rw [hlast, show (1 / 2 : ℚ) = 2 ^ (-1 : ℤ) by norm_num, ← zpow_add₀ two_ne_zero,
          ← zpow_add₀ two_ne_zero]
        congr 1
        ring
    _ ≤ |q| * 2 ^ (-53 : ℤ) := by gcongr

/-- A positive number is too large, or becomes a number that is off by half of the last of 53
bits. -/
theorem ofRat_of_pos {q : ℚ} (hq : 2 ^ (-1022 : ℤ) ≤ q) :
    ofRat q = .inf false ∨ ∃ r, ofRat q = .fin r ∧ |r - q| ≤ q * 2 ^ (-53 : ℤ) := by
  have hpos : 0 < q := lt_of_lt_of_le (by positivity) hq
  have herr := abs_nearest_sub_le (hq.trans (le_abs_self q))
  rw [abs_of_pos hpos] at herr
  rw [ofRat]
  split
  · rw [decide_eq_false (not_lt.mpr hpos.le)]
    exact .inl rfl
  · exact .inr ⟨nearest q, rfl, herr⟩

theorem ofRat_zero : ofRat 0 = .fin 0 := by
  rw [ofRat, nearest_zero]
  norm_num

/-! ## Operations -/

/-- The product with a positive number. -/
def mulPos (c : ℚ) : Binary64 → Binary64
  | nan => nan
  | inf s => inf s
  | fin q => ofRat (q * c)

/-- The quotient by a positive number. -/
def divPos (c : ℚ) : Binary64 → Binary64
  | nan => nan
  | inf s => inf s
  | fin q => ofRat (q / c)

/-- The difference. -/
def sub : Binary64 → Binary64 → Binary64
  | nan, _ => nan
  | _, nan => nan
  | inf s, inf t => if s = t then nan else inf s
  | inf s, fin _ => inf s
  | fin _, inf s => inf !s
  | fin p, fin q => ofRat (p - q)

/-- The absolute value. -/
def abs : Binary64 → Binary64
  | nan => nan
  | inf _ => inf false
  | fin q => fin |q|

/-- The nearest integer, and the one away from zero of two. -/
def roundAway (q : ℚ) : ℤ := if 0 ≤ q then ⌊q + 1 / 2⌋ else ⌈q - 1 / 2⌉

/-- `f64::round`. -/
def round : Binary64 → Binary64
  | nan => nan
  | inf s => inf s
  | fin q => fin (roundAway q)

/-- Whether one is greater than the other.  Nothing is greater or less than no number. -/
def gt : Binary64 → Binary64 → Bool
  | nan, _ => false
  | _, nan => false
  | inf s, inf t => !s && t
  | inf s, fin _ => !s
  | fin _, inf t => t
  | fin p, fin q => q < p

/-- `as i64`: towards zero, and to the nearest end of the range outside of it. -/
def toI64 : Binary64 → ℤ
  | nan => 0
  | inf s => if s then -2 ^ 63 else 2 ^ 63 - 1
  | fin q => max (-2 ^ 63) (min (2 ^ 63 - 1) (if 0 ≤ q then ⌊q⌋ else ⌈q⌉))

/-- A number less than a half away from an integer is rounded to it. -/
theorem roundAway_eq {q : ℚ} {n : ℤ} (h : |q - n| < 1 / 2) : roundAway q = n := by
  obtain ⟨hlo, hhi⟩ := abs_lt.mp h
  rw [roundAway]
  split
  · refine Int.floor_eq_iff.mpr ⟨?_, ?_⟩ <;> linarith
  · refine Int.ceil_eq_iff.mpr ⟨?_, ?_⟩ <;> linarith

theorem lt_of_roundAway_le {q : ℚ} {n : ℤ} (h : roundAway q ≤ n) : q < n + 1 := by
  have hn : (roundAway q : ℚ) ≤ n := by exact_mod_cast h
  rw [roundAway] at hn
  split at hn
  · have := Int.lt_floor_add_one (q + 1 / 2)
    linarith
  · have := Int.le_ceil (q - 1 / 2)
    linarith

theorem toI64_intCast {n : ℤ} (hlo : -2 ^ 63 ≤ n) (hhi : n ≤ 2 ^ 63 - 1) :
    toI64 (fin n) = n := by
  have htrunc : (if (0 : ℚ) ≤ n then ⌊(n : ℚ)⌋ else ⌈(n : ℚ)⌉) = n := by
    rw [Int.floor_intCast, Int.ceil_intCast, ite_self]
  rw [toI64, htrunc, min_eq_right hhi, max_eq_right hlo]

end Binary64

end Yew
