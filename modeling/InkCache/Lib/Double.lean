import Mathlib

/-!
# Doubles

The doubles as exact numbers: a finite double is a rational, and an operation rounds its exact
result to the nearest number of 53 bits whose last bit is worth at least `2 ^ -1074`, a half to the
even one, and to an infinity from `2 ^ 1024` on. The two zeros are one here. Whole numbers below
`2 ^ 53` are exact (`ofRat_natCast`), and rounding takes off no more than one part in `2 ^ 53`
(`le_of_ofRat_eq`).
-/

namespace Lib

inductive Double where
  | finite (q : ℚ)
  | infinity (negative : Bool)
  | nan
  deriving DecidableEq

/-- The nearest whole number, or the even one of two. -/
def roundHalfEven (x : ℚ) : ℤ :=
  if Int.fract x < 1 / 2 ∨ Int.fract x = 1 / 2 ∧ ⌊x⌋ % 2 = 0 then ⌊x⌋ else ⌊x⌋ + 1

/-- The last bit of the doubles near `q` is worth `2 ^ lastBit q`. -/
def lastBit (q : ℚ) : ℤ := max (Int.log 2 |q| - 52) (-1074)

/-- The nearest number that has the bits of a double. -/
def nearest (q : ℚ) : ℚ := roundHalfEven (q / 2 ^ lastBit q) * 2 ^ lastBit q

namespace Double

def ofRat (q : ℚ) : Double :=
  if |nearest q| < 2 ^ 1024 then finite (nearest q) else infinity (nearest q < 0)

def neg : Double → Double
  | finite q => finite (-q)
  | infinity negative => infinity !negative
  | nan => nan

def mul : Double → Double → Double
  | nan, _ | _, nan => nan
  | finite a, finite b => ofRat (a * b)
  | infinity s, infinity t => infinity (s ^^ t)
  | infinity s, finite a | finite a, infinity s => if a = 0 then nan else infinity (s ^^ a < 0)

/-- `Number.isInteger` -/
def isInteger : Double → Bool
  | finite q => q.isInt
  | _ => false

/-- `a <= b` -/
def le : Double → Double → Bool
  | nan, _ | _, nan => false
  | finite a, finite b => a ≤ b
  | infinity s, infinity t => s || !t
  | infinity s, finite _ => s
  | finite _, infinity t => !t

end Double

/-! ## Rounding -/

variable {q x : ℚ}

theorem roundHalfEven_intCast (n : ℤ) : roundHalfEven n = n := by
  simp [roundHalfEven]

theorem sub_half_le_roundHalfEven (x : ℚ) : x - 1 / 2 ≤ roundHalfEven x := by
  have hfract : x = ⌊x⌋ + Int.fract x := (Int.floor_add_fract x).symm
  have hlt := Int.fract_lt_one x
  rw [roundHalfEven]
  split_ifs with h
  · rcases h with h | ⟨h, -⟩ <;> linarith
  · push_cast
    linarith

/-- Whole numbers of at most 53 bits are left as they are. -/
theorem nearest_natCast {n : ℕ} (h : n < 2 ^ 53) : nearest n = n := by
  have hlog : Nat.log 2 n ≤ 52 := Nat.lt_succ_iff.1 (Nat.log_lt_of_lt_pow' (by norm_num) h)
  have hbit : lastBit n ≤ 0 := by
    rw [lastBit, Nat.abs_cast, Int.log_natCast]
    omega
  obtain ⟨k, hk⟩ := Int.eq_ofNat_of_zero_le (neg_nonneg.2 hbit)
  have hscaled : (n : ℚ) / 2 ^ lastBit n = ((n * 2 ^ k : ℤ) : ℚ) := by
    rw [div_eq_mul_inv, ← zpow_neg, hk]
    push_cast
    rw [zpow_natCast]
  rw [nearest, hscaled, roundHalfEven_intCast, ← hscaled]
  exact div_mul_cancel₀ _ (zpow_ne_zero _ two_ne_zero)

/-- Rounding takes off no more than half of the last bit. -/
theorem le_nearest (h : 1 ≤ q) : q - q / 2 ^ 53 ≤ nearest q := by
  have hpos : 0 < q := zero_lt_one.trans_le h
  have hlog : 0 ≤ Int.log 2 q := by
    rw [← Int.zpow_le_iff_le_log one_lt_two hpos]
    simpa using h
  have hbit : lastBit q = Int.log 2 q - 52 := by
    rw [lastBit, abs_of_pos hpos]
    omega
  have hu : (2 : ℚ) ^ lastBit q ≤ q / 2 ^ 52 := by
    have := Int.zpow_log_le_self (b := 2) one_lt_two hpos
    rw [hbit, zpow_sub₀ two_ne_zero]
    exact div_le_div_of_nonneg_right (by exact_mod_cast this) (by positivity)
  have hupos : (0 : ℚ) < 2 ^ lastBit q := zpow_pos two_pos _
  have hround := mul_le_mul_of_nonneg_right (sub_half_le_roundHalfEven (q / 2 ^ lastBit q))
    hupos.le
  rw [sub_mul, div_mul_cancel₀ _ hupos.ne'] at hround
  rw [nearest]
  linarith

namespace Double

theorem ofRat_natCast {n : ℕ} (h : n < 2 ^ 53) : ofRat n = finite n := by
  have hlt : |(n : ℚ)| < 2 ^ 1024 := by
    rw [Nat.abs_cast]
    exact_mod_cast h.trans (Nat.pow_lt_pow_right one_lt_two (by norm_num))
  rw [ofRat, nearest_natCast h, if_pos hlt]

theorem le_of_ofRat_eq (h : 1 ≤ q) (hx : ofRat q = finite x) : q - q / 2 ^ 53 ≤ x := by
  rw [ofRat] at hx
  split_ifs at hx
  cases hx
  exact le_nearest h

end Double

end Lib
