import Ar7Qemu.Lib.ByteList

/-! Hexadecimal text and the packets of the GDB remote protocol. A byte that is no hexadecimal digit
counts as zero. -/

namespace Ar7Qemu.Gdb

open Lib

def maxPacketLength : ℕ := 4096

/-- `'$'`. -/
def dollar : UInt8 := 0x24

/-- `'#'`. -/
def hash : UInt8 := 0x23

/-- `'+'`. -/
def plus : UInt8 := 0x2b

/-- `'-'`. -/
def minus : UInt8 := 0x2d

def fromhex (v : UInt8) : ℕ :=
  if 0x30 ≤ v.toNat ∧ v.toNat ≤ 0x39 then v.toNat - 0x30
  else if 0x41 ≤ v.toNat ∧ v.toNat ≤ 0x46 then v.toNat - 0x41 + 10
  else if 0x61 ≤ v.toNat ∧ v.toNat ≤ 0x66 then v.toNat - 0x61 + 10
  else 0

def tohex (v : ℕ) : UInt8 := if v < 10 then UInt8.ofNat (v + 0x30) else UInt8.ofNat (v - 10 + 0x61)

/-- The sum of some bytes, of which the lowest eight bits are looked at. -/
def csum (buf : List UInt8) : ℕ := (buf.map UInt8.toNat).sum

/-- The bytes that `put_packet_binary` builds in `last_packet`. -/
def packetBytes (buf : List UInt8) : List UInt8 :=
  dollar :: (buf ++ [hash, tohex (csum buf >>> 4 &&& 0xf), tohex (csum buf &&& 0xf)])

theorem fromhex_lt (v : UInt8) : fromhex v < 16 := by
  unfold fromhex
  split_ifs <;> omega

theorem fromhex_tohex {v : ℕ} (hv : v < 16) : fromhex (tohex v) = v := by
  have hall : ∀ v < 16, fromhex (tohex v) = v := by decide
  exact hall v hv

theorem checksum_digits (n : ℕ) :
    (fromhex (tohex (n >>> 4 &&& 0xf)) <<< 4) ||| fromhex (tohex (n &&& 0xf)) = n &&& 0xff := by
  have hmask : ∀ m : ℕ, m &&& 0xf = m % 16 := fun m => Nat.and_two_pow_sub_one_eq_mod m 4
  have hlow : n &&& 0xff = n % 256 := Nat.and_two_pow_sub_one_eq_mod n 8
  rw [hmask, hmask, hlow, fromhex_tohex (Nat.mod_lt _ (by decide)), fromhex_tohex (Nat.mod_lt _ (by decide)),
    Nat.shiftLeft_eq, Nat.shiftRight_eq_div_pow, Nat.mul_comm, ← Nat.two_pow_add_eq_or_of_lt (by omega)]
  omega

end Ar7Qemu.Gdb
