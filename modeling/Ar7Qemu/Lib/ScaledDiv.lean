import Mathlib.Algebra.Order.Floor.Div
import Mathlib.Data.Nat.Size
import Mathlib.Tactic.Ring

/-! Division by a fixed-point number in words of a limited width: both operands are scaled as far as they
fit, and the divisor is rounded up to a whole number. The quotient is never too large, and it is monotone
in the dividend but for the numbers at which the scale changes. -/

namespace Ar7Qemu.Lib.ScaledDiv

/-- How far a dividend is scaled in words of `w` bits, and at most by `c`. -/
def scale (w c r : ℕ) : ℕ := min (w - r.size) c

/-- A divisor of `f` fractional bits, scaled and rounded up. -/
def divisor (f q s : ℕ) : ℕ := (q * 2 ^ s) ⌈/⌉ 2 ^ f

def quotient (w f q c r : ℕ) : ℕ := r * 2 ^ scale w c r / divisor f q (scale w c r)

/-- The dividends at which the scale changes from `s + 1` to `s`: no quotient that the finer scale gives
to the dividend before is lost by rounding at the coarser one. -/
def Coarse (w f q s : ℕ) : Prop :=
  ∀ m, m * divisor f q (s + 1) ≤ (2 ^ (w - 1 - s) - 1) * 2 ^ (s + 1) → m * divisor f q s ≤ 2 ^ (w - 1)

variable {w f q c r R s : ℕ}

/-! ### Quotients -/

theorem divisor_le_iff {n : ℕ} : divisor f q s ≤ n ↔ q * 2 ^ s ≤ 2 ^ f * n := ceilDiv_le_iff_le_mul (Nat.two_pow_pos f)

theorem divisor_pos (hq : 0 < q) : 0 < divisor f q s := by
  by_contra h
  have hle := divisor_le_iff.1 (Nat.le_of_not_lt h)
  have hpos := Nat.mul_pos hq (Nat.two_pow_pos s)
  rw [Nat.mul_zero] at hle
  exact absurd hle (Nat.not_le_of_gt hpos)

theorem le_quotient_iff (hq : 0 < q) {m : ℕ} :
    m ≤ quotient w f q c r ↔ m * divisor f q (scale w c r) ≤ r * 2 ^ scale w c r :=
  Nat.le_div_iff_mul_le (divisor_pos hq)

/-- Rounding the divisor up rounds the quotient down. -/
theorem quotient_mul_le (hq : 0 < q) : quotient w f q c r * q ≤ r * 2 ^ f := by
  have hle := (le_quotient_iff hq).1 (le_refl (quotient w f q c r))
  have hround := divisor_le_iff.1 (le_refl (divisor f q (scale w c r)))
  refine Nat.le_of_mul_le_mul_right ?_ (Nat.two_pow_pos (scale w c r))
  calc quotient w f q c r * q * 2 ^ scale w c r = quotient w f q c r * (q * 2 ^ scale w c r) := Nat.mul_assoc _ _ _
    _ ≤ quotient w f q c r * (2 ^ f * divisor f q (scale w c r)) := Nat.mul_le_mul_left _ hround
    _ = quotient w f q c r * divisor f q (scale w c r) * 2 ^ f := by ring
    _ ≤ r * 2 ^ scale w c r * 2 ^ f := Nat.mul_le_mul_right _ hle
    _ = r * 2 ^ f * 2 ^ scale w c r := by ring

/-- Whether the quotient is zero does not depend on the scale. -/
theorem quotient_pos_iff (hq : 0 < q) : 0 < quotient w f q c r ↔ q ≤ r * 2 ^ f := by
  have hswap : 2 ^ f * (r * 2 ^ scale w c r) = r * 2 ^ f * 2 ^ scale w c r := by ring
  rw [← Nat.succ_le_iff, le_quotient_iff hq, Nat.one_mul, divisor_le_iff, hswap]
  exact Nat.mul_le_mul_right_iff (Nat.two_pow_pos _)

/-! ### Scales -/

theorem size_pred_two_pow (k : ℕ) : (2 ^ k - 1).size = k := by
  have hpos := Nat.two_pow_pos k
  refine Nat.le_antisymm (Nat.size_le.2 (Nat.sub_lt hpos Nat.one_pos)) ?_
  cases k with
  | zero => exact Nat.zero_le _
  | succ k =>
    have hhalf := Nat.two_pow_pos k
    refine Nat.lt_size.2 ?_
    rw [Nat.pow_succ]
    omega

/-- A dividend and the next one are scaled alike, or the scale changes by one between them. -/
theorem scale_succ (hr : r + 1 ≤ 2 ^ (w - 1)) : scale w c (r + 1) = scale w c r ∨
    ∃ s < c, s < w ∧ r + 1 = 2 ^ (w - 1 - s) ∧ scale w c r = s + 1 ∧ scale w c (r + 1) = s := by
  have hlt := Nat.lt_size_self r
  rcases Nat.eq_or_lt_of_le (Nat.succ_le_of_lt hlt) with heq | hlt
  · have hpow : r + 1 = 2 ^ r.size := heq
    have hsize : (r + 1).size = r.size + 1 := by
      conv_lhs => rw [hpow]
      exact Nat.size_pow
    have hle : r.size ≤ w - 1 := (Nat.pow_le_pow_iff_right Nat.one_lt_two).1 (hpow ▸ hr)
    unfold scale
    rw [hsize]
    by_cases hsame : c ≤ w - 1 - r.size ∨ w = 0
    · left
      omega
    · refine .inr ⟨w - 1 - r.size, by omega, by omega, ?_, by omega, by omega⟩
      rw [show w - 1 - (w - 1 - r.size) = r.size by omega]
      exact hpow
  · left
    have hsize : (r + 1).size = r.size := Nat.le_antisymm (Nat.size_le.2 hlt) (Nat.size_le_size (Nat.le_succ r))
    rw [scale, hsize, scale]

/-! ### Monotonicity -/

/-- The quotient grows to the next dividend, unless the scale changes. -/
theorem quotient_le_succ (hq : 0 < q) (hr : r + 1 ≤ 2 ^ (w - 1))
    (hcoarse : ∀ s < c, s < w → r + 1 = 2 ^ (w - 1 - s) → Coarse w f q s) : quotient w f q c r ≤ quotient w f q c (r + 1) := by
  have hself := (le_quotient_iff hq).1 (le_refl (quotient w f q c r))
  rw [le_quotient_iff hq]
  rcases scale_succ hr with heq | ⟨s, hsc, hsw, hpow, hscale, hscale'⟩
  · rw [heq]
    exact hself.trans (Nat.mul_le_mul_right _ (Nat.le_succ r))
  · rw [hscale] at hself
    have hprev : r = 2 ^ (w - 1 - s) - 1 := by omega
    rw [hscale', hpow, ← Nat.pow_add, show w - 1 - s + s = w - 1 by omega]
    refine hcoarse s hsc hsw hpow _ ?_
    rw [← hprev]
    exact hself

/-- The quotient is monotone up to a dividend just where no change of the scale below it loses one. -/
theorem quotient_mono_iff (hq : 0 < q) (hR : R ≤ 2 ^ (w - 1)) :
    (∀ r r', r ≤ r' → r' ≤ R → quotient w f q c r ≤ quotient w f q c r') ↔
      ∀ s < c, s < w → 2 ^ (w - 1 - s) ≤ R → Coarse w f q s := by
  constructor
  · intro h s hsc hsw hle m hm
    have hmono := h (2 ^ (w - 1 - s) - 1) (2 ^ (w - 1 - s)) (Nat.sub_le _ _) hle
    have hscale : scale w c (2 ^ (w - 1 - s) - 1) = s + 1 := by
      rw [scale, size_pred_two_pow]
      omega
    have hscale' : scale w c (2 ^ (w - 1 - s)) = s := by
      rw [scale, Nat.size_pow]
      omega
    have hm' : m ≤ quotient w f q c (2 ^ (w - 1 - s) - 1) := by
      rw [le_quotient_iff hq, hscale]
      exact hm
    have hlast := (le_quotient_iff hq).1 (hm'.trans hmono)
    rw [hscale', ← Nat.pow_add, show w - 1 - s + s = w - 1 by omega] at hlast
    exact hlast
  · intro h r r' hle hR'
    induction r', hle using Nat.le_induction with
    | base => exact le_rfl
    | succ r' hle ih =>
      refine (ih ((Nat.le_succ r').trans hR')).trans (quotient_le_succ hq (hR'.trans hR) fun s hsc hsw hpow => ?_)
      exact h s hsc hsw (hpow ▸ hR')

end Ar7Qemu.Lib.ScaledDiv
