import Ar7Qemu.Lib.ByteStore

/-! Arrays of bytes whose bits are cleared in place and whose blocks are set, with a backing device
to which whole units are written back. Proved: a device that agrees with the array agrees with it
again once the units around a change were written back, and these units lie in an array of whole
units. -/

namespace Ar7Qemu.Lib

/-- The widths of an access. -/
inductive Width
  | b
  | w
  | l

def Width.bytes : Width → ℕ
  | .b => 1
  | .w => 2
  | .l => 4

namespace Bytes

/-- The bytes of a value of `w` bytes. -/
def ofValue (big : Bool) (w v : ℕ) : Bytes := fun i => if big then beByte w v i else UInt8.ofNat (v / 256 ^ i)

/-- The value of the first `w` bytes. -/
def value (big : Bool) (w : ℕ) (b : Bytes) : ℕ := if big then beVal b w else beVal (fun i => b (w - 1 - i)) w

/-- Clear the bits of the `n` bytes from `off` on that are clear in `d`. -/
def clear (b : Bytes) (off n : ℕ) (d : Bytes) : Bytes :=
  fun k => if off ≤ k ∧ k < off + n then b k &&& d (k - off) else b k

/-- Set the `n` bytes from `off` on. -/
def fill (b : Bytes) (off n : ℕ) (v : UInt8) : Bytes := b.write off n fun _ => v

/-- Write the units of `u` bytes that hold the `n` bytes from `off` on back to `disk`. -/
def writeBack (u : ℕ) (disk b : Bytes) (off n : ℕ) : Bytes :=
  disk.write (off / u * u) (((off + n + (u - 1)) / u - off / u) * u) (b.drop (off / u * u))

/-- The device holds what the first `len` bytes of the array hold. -/
def Mirrors (disk b : Bytes) (len : ℕ) : Prop := ∀ k < len, disk k = b k

/-- The arrays agree apart from `n` bytes from `off` on. -/
def SameOutside (b c : Bytes) (off n : ℕ) : Prop := ∀ k, k < off ∨ off + n ≤ k → b k = c k

variable {b c d disk : Bytes} {off n u len : ℕ}

theorem sameOutside_clear (b d : Bytes) (off n : ℕ) : SameOutside (b.clear off n d) b off n := by
  intro k hk
  apply if_neg
  omega

theorem sameOutside_fill (b : Bytes) (off n : ℕ) (v : UInt8) : SameOutside (b.fill off n v) b off n := by
  intro k hk
  exact write_apply_of_not_mem hk

/-- A unit that is written back ends behind the last byte of the change. -/
theorem le_unit_end (hu : 0 < u) (off n : ℕ) : off + n ≤ (off + n + (u - 1)) / u * u := by
  have hdiv := Nat.div_add_mod (off + n + (u - 1)) u
  have hmod := Nat.mod_lt (off + n + (u - 1)) hu
  rw [Nat.mul_comm] at hdiv
  omega

theorem unit_end_le (hu : 0 < u) (hlen : u ∣ len) (hend : off + n ≤ len) : (off + n + (u - 1)) / u * u ≤ len := by
  obtain ⟨m, rfl⟩ := hlen
  have hlt : (off + n + (u - 1)) / u < m + 1 := by
    rw [Nat.div_lt_iff_lt_mul hu, Nat.add_mul, Nat.one_mul, Nat.mul_comm m u]
    omega
  calc (off + n + (u - 1)) / u * u ≤ m * u := Nat.mul_le_mul_right u (by omega)
    _ = u * m := Nat.mul_comm m u

/-- What is written back after a change restores the agreement. -/
theorem Mirrors.writeBack (h : Mirrors disk b len) (hu : 0 < u) (hsame : SameOutside c b off n) :
    Mirrors (writeBack u disk c off n) c len := by
  intro k hk
  unfold Bytes.writeBack
  by_cases hin : off / u * u ≤ k ∧ k < off / u * u + ((off + n + (u - 1)) / u - off / u) * u
  · obtain ⟨j, rfl⟩ := Nat.exists_eq_add_of_le hin.1
    rw [write_apply_of_mem (by omega)]
    rfl
  · rw [write_apply_of_not_mem (by omega), h k hk, hsame k]
    have hstart := Nat.div_mul_le_self off u
    have hend := le_unit_end hu off n
    have hle : off / u ≤ (off + n + (u - 1)) / u := Nat.div_le_div_right (by omega)
    have hlen : off / u * u + ((off + n + (u - 1)) / u - off / u) * u = (off + n + (u - 1)) / u * u := by
      rw [← Nat.add_mul, Nat.add_sub_cancel' hle]
    omega

end Bytes

end Ar7Qemu.Lib
