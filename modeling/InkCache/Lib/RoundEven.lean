import Mathlib

/-!
# Whole numbers of so many bits

A natural number has `p` bits if those after its `p` leading ones are zero. `roundEven p` rounds to
such a number, halves to the one whose last bit is zero. From `2 ^ p` on the successor of such a
number is a half, and from `2 ^ (p + 1)` on it is less than that (`roundEven_succ`).
-/

namespace Lib

variable {p n m x : ℕ}

/-- The unit of the last of the leading bits. -/
def ulp (p n : ℕ) : ℕ := 2 ^ (Nat.log2 n + 1 - p)

/-- The bits after the leading ones are zero. -/
def Representable (p n : ℕ) : Prop := ulp p n ∣ n

instance : Decidable (Representable p n) := inferInstanceAs (Decidable (_ ∣ _))

def roundEven (p n : ℕ) : ℕ :=
  let q := n / ulp p n
  let r := n % ulp p n
  if 2 * r < ulp p n ∨ 2 * r = ulp p n ∧ q % 2 = 0 then q * ulp p n else (q + 1) * ulp p n

theorem ulp_pos : 0 < ulp p n := Nat.two_pow_pos _

theorem div_ulp_lt (p n : ℕ) : n / ulp p n < 2 ^ p := by
  rw [Nat.div_lt_iff_lt_mul ulp_pos, ulp, ← pow_add]
  exact Nat.lt_log2_self.trans_le (Nat.pow_le_pow_right two_pos (by omega))

/-- Up to `p` bits and zeros after them. -/
theorem representable_mul (hp : 0 < p) (hm : m ≤ 2 ^ p) (e : ℕ) : Representable p (m * 2 ^ e) := by
  unfold Representable
  rcases Nat.eq_zero_or_pos m with rfl | hpos
  · rw [zero_mul]
    exact dvd_zero _
  have hne : m * 2 ^ e ≠ 0 := (Nat.mul_pos hpos (Nat.two_pow_pos e)).ne'
  rcases hm.lt_or_eq with hlt | rfl
  · refine dvd_mul_of_dvd_right (pow_dvd_pow 2 ?_) m
    have hlog : Nat.log2 (m * 2 ^ e) < p + e := by
      rw [Nat.log2_lt hne, pow_add]
      exact Nat.mul_lt_mul_of_pos_right hlt (Nat.two_pow_pos e)
    omega
  · rw [ulp, ← pow_add, Nat.log2_two_pow]
    exact pow_dvd_pow 2 (by omega)

theorem representable_roundEven (hp : 0 < p) (n : ℕ) : Representable p (roundEven p n) := by
  have hq := div_ulp_lt p n
  unfold roundEven
  dsimp only
  split_ifs
  · exact representable_mul hp hq.le _
  · exact representable_mul hp hq _

theorem roundEven_of_representable (h : Representable p n) : roundEven p n = n := by
  rw [roundEven, Nat.mod_eq_zero_of_dvd h, if_pos (.inl ulp_pos)]
  exact Nat.div_mul_cancel h

theorem roundEven_succ_of_lt (hp : 0 < p) (hx : x < 2 ^ p) : roundEven p (x + 1) = x + 1 := by
  have h := representable_mul hp hx 0
  rw [pow_zero, mul_one] at h
  exact roundEven_of_representable h

/-- The unit is at least two, so the successor has the same. -/
theorem ulp_succ (h : Representable p x) (hx : 2 ^ p ≤ x) :
    2 ∣ ulp p x ∧ ulp p (x + 1) = ulp p x := by
  have hne : x ≠ 0 := (Nat.two_pow_pos p |>.trans_le hx).ne'
  have hlog : p ≤ Nat.log2 x := (Nat.le_log2 hne).2 hx
  have htwo : 2 ∣ ulp p x := dvd_pow_self 2 (by omega)
  have heven : x % 2 = 0 := Nat.mod_eq_zero_of_dvd (htwo.trans h)
  refine ⟨htwo, ?_⟩
  have hsucc : Nat.log2 (x + 1) = Nat.log2 x := by
    rw [Nat.log2_eq_iff (Nat.succ_ne_zero x)]
    have hle := Nat.log2_self_le hne
    have hlt := Nat.lt_log2_self (n := x)
    rw [pow_succ] at hlt ⊢
    omega
  rw [ulp, hsucc, ulp]

/-- The number of bits past which the unit is four or more. -/
theorem ulp_eq_two_iff (hx : 2 ^ p ≤ x) : ulp p x = 2 ↔ x < 2 ^ (p + 1) := by
  have hne : x ≠ 0 := (Nat.two_pow_pos p |>.trans_le hx).ne'
  have hlog : p ≤ Nat.log2 x := (Nat.le_log2 hne).2 hx
  rw [← Nat.log2_lt hne, ulp]
  constructor
  · intro h
    have := Nat.pow_right_injective le_rfl (h.trans (pow_one 2).symm)
    omega
  · intro h
    rw [show Nat.log2 x + 1 - p = 1 by omega, pow_one]

theorem roundEven_succ (h : Representable p x) (hx : 2 ^ p ≤ x) :
    roundEven p (x + 1) = if x < 2 ^ (p + 1) ∧ x % 4 = 2 then x + 2 else x := by
  obtain ⟨htwo, hulp⟩ := ulp_succ h hx
  have hle : 2 ≤ ulp p x := Nat.le_of_dvd ulp_pos htwo
  have hmod : (x + 1) % ulp p x = 1 := by
    rw [Nat.add_mod, Nat.mod_eq_zero_of_dvd h, zero_add, Nat.mod_mod]
    exact Nat.mod_eq_of_lt hle
  have hdiv : (x + 1) / ulp p x = x / ulp p x := by
    refine Nat.succ_div_of_not_dvd fun hdvd => ?_
    rw [Nat.mod_eq_zero_of_dvd hdvd] at hmod
    exact absurd hmod zero_ne_one
  have hcancel : x / ulp p x * ulp p x = x := Nat.div_mul_cancel h
  rw [roundEven, hulp, hmod, hdiv]
  by_cases hsmall : x < 2 ^ (p + 1)
  · -- the successor is a half
    rw [(ulp_eq_two_iff hx).2 hsmall] at hcancel ⊢
    split_ifs
    · omega
    · omega
    · omega
    · omega
  · have hlt : 2 < ulp p x :=
      lt_of_le_of_ne hle fun heq => hsmall ((ulp_eq_two_iff hx).1 heq.symm)
    rw [if_pos (.inl (by omega)), if_neg fun hand => hsmall hand.1, hcancel]

/-- Where adding one makes a number greater. -/
theorem lt_roundEven_succ_iff (hp : 0 < p) (h : Representable p x) :
    x < roundEven p (x + 1) ↔ x < 2 ^ p ∨ x < 2 ^ (p + 1) ∧ x % 4 = 2 := by
  rcases lt_or_ge x (2 ^ p) with hlt | hge
  · rw [roundEven_succ_of_lt hp hlt]
    exact ⟨fun _ => .inl hlt, fun _ => Nat.lt_succ_self x⟩
  · rw [roundEven_succ h hge]
    split_ifs with hhalf
    · exact ⟨fun _ => .inr hhalf, fun _ => by omega⟩
    · exact ⟨fun hlt => absurd hlt (lt_irrefl x), fun hor =>
        absurd (hor.resolve_left (not_lt.2 hge)) hhalf⟩

end Lib
