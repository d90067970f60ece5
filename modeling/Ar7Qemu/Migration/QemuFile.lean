import Mathlib.Algebra.Order.Ring.Nat
import Mathlib.Tactic.Common

/-! The byte stream of `QEMUFile`: the big-endian words that `savevm.c` writes and
reads. A reader past the end of the stream gets zero bytes. -/

namespace Ar7Qemu.Migration

abbrev Stream := List UInt8

def einval : ℤ := 22

/-- `qemu_put_byte`. -/
def putByte (v : ℕ) : Stream := [UInt8.ofNat v]

/-- `qemu_put_be32`. -/
def putBe32 (v : ℕ) : Stream := putByte (v >>> 24) ++ putByte (v >>> 16) ++ putByte (v >>> 8) ++ putByte v

/-- `qemu_put_be64`. -/
def putBe64 (v : ℕ) : Stream := putBe32 (v >>> 32) ++ putBe32 v

/-- `qemu_get_byte`. -/
def getByte : Stream → UInt8 × Stream
  | [] => (0, [])
  | b :: f => (b, f)

/-- `qemu_get_be32`. The shifted bytes do not overlap, so their disjunction is a sum. -/
def getBe32 (f : Stream) : ℕ × Stream :=
  let (a, f) := getByte f
  let (b, f) := getByte f
  let (c, f) := getByte f
  let (d, f) := getByte f
  (a.toNat <<< 24 + b.toNat <<< 16 + c.toNat <<< 8 + d.toNat, f)

/-- `qemu_get_be64`. -/
def getBe64 (f : Stream) : ℕ × Stream :=
  let (a, f) := getBe32 f
  let (b, f) := getBe32 f
  (a <<< 32 + b, f)

/-- `qemu_get_buffer`: the bytes there are, at most `n`. -/
def getBuffer (n : ℕ) (f : Stream) : Stream × Stream := (f.take n, f.drop n)

theorem getByte_putByte (v : ℕ) (f : Stream) : getByte (putByte v ++ f) = (UInt8.ofNat v, f) := rfl

theorem getBe32_putBe32 (v : ℕ) (f : Stream) : getBe32 (putBe32 v ++ f) = (v % 2 ^ 32, f) := by
  simp only [putBe32, putByte, List.cons_append, List.nil_append, getBe32, getByte,
    UInt8.toNat_ofNat', Nat.shiftLeft_eq, Nat.shiftRight_eq_div_pow, Prod.mk.injEq, and_true]
  omega

theorem getBe64_putBe64 (v : ℕ) (f : Stream) : getBe64 (putBe64 v ++ f) = (v % 2 ^ 64, f) := by
  simp only [putBe64, List.append_assoc, getBe64, getBe32_putBe32, Nat.shiftLeft_eq,
    Nat.shiftRight_eq_div_pow, Prod.mk.injEq, and_true]
  omega

theorem getBuffer_append {n : ℕ} {b : Stream} (h : b.length = n) (f : Stream) :
    getBuffer n (b ++ f) = (b, f) := by
  rw [getBuffer, List.take_left' h, List.drop_left' h]

end Ar7Qemu.Migration
