import Ar7Qemu.Lib.Wide
import Mathlib.Tactic.Ring

/-! The 128-bit multiplication helpers of the hosts that have no such instruction. A product is the
sum of four products of 32-bit halves, each added in its place with its carry. The signed product
multiplies the magnitudes and negates the 128-bit result when the signs differ. Both are the exact
product, for the most negative operands too. -/

namespace Ar7Qemu.Exec.HostUtils

open Ar7Qemu.Lib

/-- `add128`: `*plow += a`, the carry and `b` into `*phigh`. -/
def add128 (r : Wide 64) (a b : BitVec 64) : Wide 64 :=
  let low := r.low + a
  let high := if low < a then r.high + 1 else r.high
  ⟨low, high + b⟩

def neg128 (r : Wide 64) : Wide 64 := add128 ⟨~~~r.low, ~~~r.high⟩ 1 0

/-- The conversion to `uint32_t` and back. -/
def uint32 (a : BitVec 64) : BitVec 64 := (a.setWidth 32).setWidth 64

def mul64 (a b : BitVec 64) : Wide 64 :=
  let a0 := uint32 a
  let a1 := uint32 (a >>> 32)
  let b0 := uint32 b
  let b1 := uint32 (b >>> 32)
  let v := a0 * b0
  let r : Wide 64 := ⟨v, 0⟩
  let v := a0 * b1
  let r := add128 r (v <<< 32) (v >>> 32)
  let v := a1 * b0
  let r := add128 r (v <<< 32) (v >>> 32)
  let v := a1 * b1
  { r with high := r.high + v }

def mulu64 (a b : BitVec 64) : Wide 64 := mul64 a b

/-- `muls64`. The negation of the most negative operand wraps round to itself. -/
def muls64 (a b : BitVec 64) : Wide 64 :=
  let sa := a.slt 0#64
  let a := if sa then -a else a
  let sb := b.slt 0#64
  let b := if sb then -b else b
  let r := mul64 a b
  if sa ^^ sb then neg128 r else r

/-! ### The sum and the complement -/

theorem bits_add128 (r : Wide 64) (a b : BitVec 64) : (add128 r a b).bits = r.bits + (b ++ a) :=
  r.bits_carry a b

theorem bits_neg128 (r : Wide 64) : (neg128 r).bits = -r.bits := by
  rw [neg128, bits_add128]
  exact r.bits_complement

/-! ### The partial products -/

theorem toNat_low (a : BitVec 64) : (uint32 a).toNat = a.toNat % 2 ^ 32 := by
  rw [uint32, BitVec.toNat_setWidth, BitVec.toNat_setWidth]
  omega

theorem toNat_high (a : BitVec 64) : (uint32 (a >>> 32)).toNat = a.toNat / 2 ^ 32 := by
  have ha := a.isLt
  rw [toNat_low, BitVec.toNat_ushiftRight, Nat.shiftRight_eq_div_pow]
  omega

theorem toNat_mul_halves {x y : BitVec 64} (hx : x.toNat < 2 ^ 32) (hy : y.toNat < 2 ^ 32) :
    (x * y).toNat = x.toNat * y.toNat := by
  have h : x.toNat * y.toNat < 2 ^ 32 * 2 ^ 32 := Nat.mul_lt_mul'' hx hy
  rw [BitVec.toNat_mul, Nat.mod_eq_of_lt (by omega)]

theorem toNat_middle (v : BitVec 64) : ((v >>> 32) ++ (v <<< 32)).toNat = v.toNat * 2 ^ 32 := by
  have hv := v.isLt
  rw [show ((v >>> 32) ++ (v <<< 32)).toNat = _ from Wide.toNat_bits ⟨v <<< 32, v >>> 32⟩]
  simp only [BitVec.toNat_ushiftRight, BitVec.toNat_shiftLeft, Nat.shiftRight_eq_div_pow, Nat.shiftLeft_eq]
  omega

theorem bits_mul64 (a b : BitVec 64) :
    (mul64 a b).bits =
      (0#64 ++ uint32 a * uint32 b) +
        ((uint32 a * uint32 (b >>> 32)) >>> 32 ++ (uint32 a * uint32 (b >>> 32)) <<< 32) +
        ((uint32 (a >>> 32) * uint32 b) >>> 32 ++ (uint32 (a >>> 32) * uint32 b) <<< 32) +
        (uint32 (a >>> 32) * uint32 (b >>> 32) ++ 0#64) := by
  have hadd : ∀ (r : Wide 64) (v : BitVec 64), (Wide.mk r.low (r.high + v)).bits = r.bits + (v ++ 0#64) := by
    intro r v
    rw [← bits_add128]
    simp [add128]
  refine (hadd _ _).trans ?_
  rw [bits_add128, bits_add128]
  rfl

/-- The product is exact. -/
theorem toNat_mul64 (a b : BitVec 64) : (mul64 a b).bits.toNat = a.toNat * b.toNat := by
  have ha := a.isLt
  have hb := b.isLt
  have hal : (uint32 a).toNat < 2 ^ 32 := by rw [toNat_low]; omega
  have hbl : (uint32 b).toNat < 2 ^ 32 := by rw [toNat_low]; omega
  have hah : (uint32 (a >>> 32)).toNat < 2 ^ 32 := by rw [toNat_high]; omega
  have hbh : (uint32 (b >>> 32)).toNat < 2 ^ 32 := by rw [toNat_high]; omega
  have hzero : ∀ v : BitVec 64, (0#64 ++ v).toNat = v.toNat := by
    intro v
    simpa [Wide.bits] using Wide.toNat_bits ⟨v, 0⟩
  have htop : ∀ v : BitVec 64, (v ++ 0#64).toNat = v.toNat * 2 ^ 64 := by
    intro v
    simpa [Wide.bits] using Wide.toNat_bits ⟨0, v⟩
  have hsum : a.toNat * b.toNat =
      (a.toNat % 2 ^ 32) * (b.toNat % 2 ^ 32) + (a.toNat % 2 ^ 32) * (b.toNat / 2 ^ 32) * 2 ^ 32 +
        (a.toNat / 2 ^ 32) * (b.toNat % 2 ^ 32) * 2 ^ 32 + (a.toNat / 2 ^ 32) * (b.toNat / 2 ^ 32) * 2 ^ 64 := by
    conv_lhs => rw [← Nat.div_add_mod a.toNat (2 ^ 32), ← Nat.div_add_mod b.toNat (2 ^ 32)]
    ring
  have hlt : a.toNat * b.toNat < 2 ^ 64 * 2 ^ 64 := Nat.mul_lt_mul'' ha hb
  rw [bits_mul64]
  simp only [BitVec.toNat_add, hzero, htop, toNat_middle, toNat_mul_halves hal hbl, toNat_mul_halves hal hbh,
    toNat_mul_halves hah hbl, toNat_mul_halves hah hbh]
  simp only [toNat_high]
  simp only [toNat_low]
  rw [Nat.mod_add_mod, Nat.add_assoc, Nat.mod_add_mod, ← Nat.add_assoc, ← hsum, Nat.mod_eq_of_lt (by omega)]

/-! ### Signed products -/

theorem toNat_magnitude (a : BitVec 64) : (if a.slt 0#64 then -a else a).toNat = a.toInt.natAbs := by
  have ha := a.isLt
  rw [BitVec.slt_eq_decide, BitVec.toInt_zero]
  by_cases h : a.toInt < 0
  · rw [if_pos (decide_eq_true h), BitVec.toNat_neg]
    rw [BitVec.toInt_eq_toNat_cond] at h ⊢
    split at h <;> split <;> omega
  · rw [if_neg (by simpa using h)]
    rw [BitVec.toInt_eq_toNat_cond] at h ⊢
    split at h <;> split <;> omega

theorem toInt_muls64 (a b : BitVec 64) : (muls64 a b).bits.toInt = a.toInt * b.toInt := by
  have hbound : (a.toInt * b.toInt).natAbs ≤ 2 ^ 63 * 2 ^ 63 := by
    have hla := BitVec.le_toInt a
    have hua := BitVec.toInt_lt (x := a)
    have hlb := BitVec.le_toInt b
    have hub := BitVec.toInt_lt (x := b)
    rw [Int.natAbs_mul]
    exact Nat.mul_le_mul (by omega) (by omega)
  generalize hr : mul64 (if a.slt 0#64 then -a else a) (if b.slt 0#64 then -b else b) = r
  -- The product of the magnitudes stays below half the range, so it is its own signed value.
  have hprod : r.bits.toInt = (a.toInt * b.toInt).natAbs := by
    rw [← hr, BitVec.toInt_eq_toNat_cond, toNat_mul64, toNat_magnitude, toNat_magnitude, ← Int.natAbs_mul]
    rw [if_pos (by omega)]
  have hneg : (neg128 r).bits.toInt = -(a.toInt * b.toInt).natAbs := by
    have hmin : r.bits ≠ BitVec.intMin (64 + 64) := by
      intro h
      rw [h, BitVec.toInt_intMin] at hprod
      omega
    rw [bits_neg128, BitVec.toInt_neg_of_ne_intMin hmin, hprod]
  have hmuls : muls64 a b = if (a.slt 0#64 ^^ b.slt 0#64) then neg128 r else r := by
    rw [muls64, ← hr]
  rw [hmuls, BitVec.slt_eq_decide, BitVec.slt_eq_decide, BitVec.toInt_zero]
  by_cases ha : a.toInt < 0 <;> by_cases hb : b.toInt < 0 <;> simp [ha, hb]
  · rw [hprod, Int.natAbs_of_nonneg (Int.mul_nonneg_of_nonpos_of_nonpos (by omega) (by omega))]
  · rw [hneg, Int.ofNat_natAbs_of_nonpos (Int.mul_nonpos_of_nonpos_of_nonneg (by omega) (by omega)), Int.neg_neg]
  · rw [hneg, Int.ofNat_natAbs_of_nonpos (Int.mul_nonpos_of_nonneg_of_nonpos (by omega) (by omega)), Int.neg_neg]
  · rw [hprod, Int.natAbs_of_nonneg (Int.mul_nonneg (by omega) (by omega))]

/-- `mulu64` is the exact unsigned product in two words, and `muls64` the exact signed product in
two's complement, for all operands. -/
theorem mulu64_muls64_exact (a b : BitVec 64) :
    (mulu64 a b).high.toNat * 2 ^ 64 + (mulu64 a b).low.toNat = a.toNat * b.toNat ∧
      (muls64 a b).bits.toInt = a.toInt * b.toInt := by
  constructor
  · rw [← Wide.toNat_bits]
    exact toNat_mul64 a b
  · exact toInt_muls64 a b

end Ar7Qemu.Exec.HostUtils
