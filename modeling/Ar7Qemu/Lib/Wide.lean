import Mathlib.Algebra.Order.Ring.Nat
import Mathlib.Tactic.Common

/-! Double words: a number of `2w` bits held in two words of `w` bits. A double word is described by
its bits. Addition carries when the low sum has wrapped round, negation adds one to the complement,
and a number below half the range is also its own signed value. -/

namespace Ar7Qemu.Lib

/-- A number of `2w` bits in two words. -/
structure Wide (w : ℕ) where
  low : BitVec w
  high : BitVec w
  deriving DecidableEq

namespace Wide

variable {w : ℕ}

def bits (r : Wide w) : BitVec (w + w) := r.high ++ r.low

theorem toNat_bits (r : Wide w) : r.bits.toNat = r.high.toNat * 2 ^ w + r.low.toNat := by
  rw [bits, BitVec.toNat_append, ← Nat.shiftLeft_add_eq_or_of_lt r.low.isLt, Nat.shiftLeft_eq]

/-- A sum has wrapped round if and only if it is below its second operand. -/
theorem add_lt_iff (l a : BitVec w) : l + a < a ↔ 2 ^ w ≤ l.toNat + a.toNat := by
  have hl : l.toNat < 2 ^ w := l.isLt
  have ha : a.toNat < 2 ^ w := a.isLt
  rw [BitVec.lt_def, BitVec.toNat_add]
  by_cases h : l.toNat + a.toNat < 2 ^ w
  · rw [Nat.mod_eq_of_lt h]
    omega
  · rw [Nat.mod_eq_sub_mod (by omega), Nat.mod_eq_of_lt (by omega)]
    omega

private theorem mod_sq {N y : ℕ} (x : ℕ) (hy : y < N) : (x * N + y) % (N * N) = x % N * N + y := by
  have hmod : (x * N + y) % N = y := by rw [Nat.add_comm, Nat.add_mul_mod_self_right, Nat.mod_eq_of_lt hy]
  have hdiv : (x * N + y) / N = x := by
    rw [Nat.add_comm, Nat.add_mul_div_right y x (by omega), Nat.div_eq_of_lt hy, Nat.zero_add]
  rw [Nat.mod_mul, hmod, hdiv, Nat.mul_comm N, Nat.add_comm]

/-- The carry of the low words makes the sum of the words the sum of the numbers. -/
theorem bits_carry (r : Wide w) (a b : BitVec w) :
    (Wide.mk (r.low + a) ((if r.low + a < a then r.high + 1 else r.high) + b)).bits = r.bits + (b ++ a) := by
  have hl : r.low.toNat < 2 ^ w := r.low.isLt
  have ha : a.toNat < 2 ^ w := a.isLt
  have hba : (b ++ a).toNat = b.toNat * 2 ^ w + a.toNat := toNat_bits ⟨a, b⟩
  apply BitVec.eq_of_toNat_eq
  rw [toNat_bits, BitVec.toNat_add r.bits, toNat_bits, hba, Nat.pow_add]
  by_cases h : r.low + a < a
  · have hwrap : 2 ^ w ≤ r.low.toNat + a.toNat := (add_lt_iff r.low a).1 h
    have hlow : (r.low + a).toNat = r.low.toNat + a.toNat - 2 ^ w := by
      rw [BitVec.toNat_add, Nat.mod_eq_sub_mod hwrap, Nat.mod_eq_of_lt (by omega)]
    have hhigh : (r.high + 1 + b).toNat = (r.high.toNat + b.toNat + 1) % 2 ^ w := by
      simp [BitVec.toNat_add, add_right_comm]
    have hsum : r.high.toNat * 2 ^ w + r.low.toNat + (b.toNat * 2 ^ w + a.toNat) =
        (r.high.toNat + b.toNat + 1) * 2 ^ w + (r.low.toNat + a.toNat - 2 ^ w) := by
      rw [Nat.add_mul, Nat.add_mul]
      omega
    simp only [if_pos h]
    rw [hlow, hhigh, hsum, mod_sq _ (by omega)]
  · have hfit : r.low.toNat + a.toNat < 2 ^ w := Nat.lt_of_not_le fun hle => h ((add_lt_iff r.low a).2 hle)
    have hlow : (r.low + a).toNat = r.low.toNat + a.toNat := by
      rw [BitVec.toNat_add, Nat.mod_eq_of_lt hfit]
    have hsum : r.high.toNat * 2 ^ w + r.low.toNat + (b.toNat * 2 ^ w + a.toNat) =
        (r.high.toNat + b.toNat) * 2 ^ w + (r.low.toNat + a.toNat) := by
      rw [Nat.add_mul]
      omega
    simp only [if_neg h]
    rw [hlow, BitVec.toNat_add, hsum, mod_sq _ hfit]

/-- The complement of the words plus one is the negated number. -/
theorem bits_complement (r : Wide w) : (Wide.mk (~~~r.low) (~~~r.high)).bits + (0#w ++ 1#w) = -r.bits := by
  have hnot : (Wide.mk (~~~r.low) (~~~r.high)).bits = ~~~r.bits := by
    rw [bits, bits, BitVec.not_append]
  have hone : (0#w ++ 1#w : BitVec (w + w)) = 1#(w + w) := by
    apply BitVec.eq_of_toNat_eq
    rcases Nat.eq_zero_or_pos w with rfl | hw
    · rfl
    · have h1 : (1#w).toNat = 1 := BitVec.toNat_one hw
      have h2 : (1#(w + w)).toNat = 1 := BitVec.toNat_one (by omega)
      rw [show (0#w ++ 1#w).toNat = _ from toNat_bits ⟨1#w, 0#w⟩, h2]
      simp [h1]
  rw [hnot, hone, BitVec.neg_eq_not_add]

end Wide

end Ar7Qemu.Lib
