import Mathlib.Algebra.Order.Ring.Nat
import Mathlib.Tactic.Ring
import Mathlib.Tactic.Linarith

/-! Byte-addressed stores with fixed-width big-endian words. A store is a total
function from addresses to bytes. A block write replaces an interval of
addresses, and a table write stores consecutive words of one width. Proved: a
word read after a table write at its own slot is the stored value, and a word
whose bytes lie outside a written interval is unchanged. -/

namespace Ar7Qemu.Lib

/-- A byte buffer, addressed from its first byte. -/
abbrev Bytes := ℕ → UInt8

namespace Bytes

/-- The buffer seen from `k` bytes further on. -/
def drop (k : ℕ) (b : Bytes) : Bytes := fun i => b (k + i)

/-- Byte `i` of the `w`-byte big-endian representation of `v`. -/
def beByte (w v i : ℕ) : UInt8 := UInt8.ofNat (v / 256 ^ (w - 1 - i))

/-- Big-endian value of the first `w` bytes. -/
def beVal (b : Bytes) : ℕ → ℕ
  | 0 => 0
  | w + 1 => beVal b w * 256 + (b w).toNat

/-- The `w`-byte big-endian word at `off`. -/
def word (b : Bytes) (w off : ℕ) : ℕ := beVal (b.drop off) w

/-- Replace the `n` bytes from `off` on by the first `n` bytes of `d`. -/
def write (b : Bytes) (off n : ℕ) (d : Bytes) : Bytes :=
  fun k => if off ≤ k ∧ k < off + n then d (k - off) else b k

/-- The bytes of a table of `w`-byte big-endian words. -/
def table (w : ℕ) (t : ℕ → ℕ) : Bytes := fun k => beByte w (t (k / w)) (k % w)

theorem beVal_congr {b c : Bytes} {w : ℕ} (h : ∀ i < w, b i = c i) : beVal b w = beVal c w := by
  induction w with
  | zero => rfl
  | succ w ih => simp only [beVal, ih (fun i hi => h i (by omega)), h w (by omega)]

theorem beVal_lt (b : Bytes) (w : ℕ) : beVal b w < 256 ^ w := by
  induction w with
  | zero => simp [beVal]
  | succ w ih =>
    have := (b w).toNat_lt
    simp only [beVal, pow_succ]
    omega

theorem word_lt (b : Bytes) (w off : ℕ) : b.word w off < 256 ^ w := beVal_lt _ _

/-- The first `n` bytes of the representation give the value without its low
bytes, cut to `n` bytes. -/
theorem beVal_beByte_take (w v n : ℕ) (hn : n ≤ w) :
    beVal (beByte w v) n = v / 256 ^ (w - n) % 256 ^ n := by
  induction n with
  | zero => simp [beVal, Nat.mod_one]
  | succ n ih =>
    have hb : (beByte w v n).toNat = v / 256 ^ (w - (n + 1)) % 256 := by
      simp [beByte, show w - 1 - n = w - (n + 1) by omega]
    rw [beVal, ih (by omega), hb, show w - n = w - (n + 1) + 1 by omega, pow_succ,
      ← Nat.div_div_eq_div_mul, pow_succ, Nat.mul_comm (256 ^ n) 256, Nat.mod_mul]
    ring

/-- A word keeps its value modulo its width. -/
theorem beVal_beByte_mod (w v : ℕ) : beVal (beByte w v) w = v % 256 ^ w := by
  simp [beVal_beByte_take w v w le_rfl]

theorem beVal_beByte {w v : ℕ} (hv : v < 256 ^ w) : beVal (beByte w v) w = v := by
  rw [beVal_beByte_mod, Nat.mod_eq_of_lt hv]

@[simp] theorem drop_apply (b : Bytes) (k i : ℕ) : b.drop k i = b (k + i) := rfl

theorem drop_drop (b : Bytes) (j k : ℕ) : (b.drop j).drop k = b.drop (j + k) := by
  funext i; simp [Nat.add_assoc]

theorem write_apply_of_mem {b d : Bytes} {off n k : ℕ} (h : k < n) :
    b.write off n d (off + k) = d k := by
  simp [write, h]

theorem write_apply_of_lt {b d : Bytes} {off n k : ℕ} (h : k < off) : b.write off n d k = b k := by
  simp [write]; omega

theorem write_apply_of_ge {b d : Bytes} {off n k : ℕ} (h : off + n ≤ k) :
    b.write off n d k = b k := by
  simp [write]; omega

theorem write_apply_of_not_mem {b d : Bytes} {off n k : ℕ} (h : k < off ∨ off + n ≤ k) :
    b.write off n d k = b k := h.elim write_apply_of_lt write_apply_of_ge

theorem write_congr {b c d : Bytes} {off n : ℕ} (h : ∀ i < n, c i = d i) : b.write off n c = b.write off n d := by
  funext k
  by_cases hk : off ≤ k ∧ k < off + n
  · rw [write, write, if_pos hk, if_pos hk, h _ (by omega)]
  · rw [write, write, if_neg hk, if_neg hk]

theorem write_zero (b d : Bytes) (off : ℕ) : b.write off 0 d = b := by
  funext k
  exact write_apply_of_not_mem (by omega)

theorem word_congr {b c : Bytes} {w off : ℕ} (h : ∀ i < w, b (off + i) = c (off + i)) :
    b.word w off = c.word w off := beVal_congr h

theorem word_zero (w off : ℕ) : word (fun _ => 0) w off = 0 := by
  rw [word]
  induction w with
  | zero => rfl
  | succ w ih => rw [beVal, ih]; rfl

/-- A word outside the written interval keeps its value. -/
theorem word_write_of_disjoint {b d : Bytes} {off n w p : ℕ} (h : p + w ≤ off ∨ off + n ≤ p) :
    (b.write off n d).word w p = b.word w p :=
  word_congr fun _ hi => write_apply_of_not_mem (by omega)

/-- A word of a freshly written table is the table's entry. -/
theorem word_write_table {b : Bytes} {w off n j : ℕ} {t : ℕ → ℕ} (hj : j < n)
    (ht : t j < 256 ^ w) : (b.write off (w * n) (table w t)).word w (off + w * j) = t j := by
  rw [← beVal_beByte ht]
  refine beVal_congr fun i hi => ?_
  have hw : w * (j + 1) ≤ w * n := Nat.mul_le_mul_left w hj
  have hk : w * j + i < w * n := by rw [Nat.mul_succ] at hw; omega
  rw [drop_apply, Nat.add_assoc, write_apply_of_mem hk, table,
    Nat.mul_add_div (by omega), Nat.div_eq_of_lt hi, Nat.mul_add_mod, Nat.mod_eq_of_lt hi,
    Nat.add_zero]

/-- A single word write, seen at its own place. -/
theorem word_write_self {b : Bytes} {w off v : ℕ} (hv : v < 256 ^ w) :
    (b.write off w (beByte w v)).word w off = v := by
  rw [← beVal_beByte hv]
  refine beVal_congr fun i hi => ?_
  rw [drop_apply, write_apply_of_mem hi, beVal_beByte hv]

end Bytes

/-- Distinct multiples of `n` are at least `n` apart. -/
theorem dvd_apart {n a b : ℕ} (ha : n ∣ a) (hb : n ∣ b) (hab : a ≠ b) : a + n ≤ b ∨ b + n ≤ a := by
  obtain ⟨x, rfl⟩ := ha
  obtain ⟨y, rfl⟩ := hb
  rcases Nat.lt_or_gt_of_ne fun h : x = y => hab (by rw [h]) with h | h
  · have := Nat.mul_le_mul_left n h
    rw [Nat.mul_succ] at this
    exact .inl this
  · have := Nat.mul_le_mul_left n h
    rw [Nat.mul_succ] at this
    exact .inr this

end Ar7Qemu.Lib
