import Mathlib.Data.BitVec
import Mathlib.Data.List.GetD
import Mathlib.Tactic.Common

/-! Guest physical memory as a device sees it: bytes at 32-bit addresses, and words of two and four
bytes at any address, little-endian or in the byte order of the target. -/

namespace Ar7Qemu.Lib

abbrev GuestMem := BitVec 32 → BitVec 8

namespace GuestMem

/-- `cpu_physical_memory_read`. -/
def read (m : GuestMem) (a : BitVec 32) (n : ℕ) : List (BitVec 8) :=
  (List.range n).map fun i => m (a + BitVec.ofNat 32 i)

/-- `cpu_physical_memory_write`. -/
def write (m : GuestMem) (a : BitVec 32) (bs : List (BitVec 8)) : GuestMem :=
  fun x => bs.getD (x - a).toNat (m x)

def le16 (m : GuestMem) (a : BitVec 32) : BitVec 16 := m (a + 1) ++ m a

def le32 (m : GuestMem) (a : BitVec 32) : BitVec 32 := m (a + 3) ++ m (a + 2) ++ m (a + 1) ++ m a

def bytes32 (v : BitVec 32) : List (BitVec 8) :=
  [v.extractLsb' 0 8, v.extractLsb' 8 8, v.extractLsb' 16 8, v.extractLsb' 24 8]

def bytes16 (v : BitVec 16) : List (BitVec 8) := [v.extractLsb' 0 8, v.extractLsb' 8 8]

def putLe16 (m : GuestMem) (a : BitVec 32) (v : BitVec 16) : GuestMem := m.write a (bytes16 v)

def putLe32 (m : GuestMem) (a v : BitVec 32) : GuestMem := m.write a (bytes32 v)

/-- `ldl_phys`, which reads in the byte order of the target. -/
def ldl (bigEndian : Bool) (m : GuestMem) (a : BitVec 32) : BitVec 32 :=
  if bigEndian then m a ++ m (a + 1) ++ m (a + 2) ++ m (a + 3) else m.le32 a

/-- `stl_phys`. -/
def stl (bigEndian : Bool) (m : GuestMem) (a v : BitVec 32) : GuestMem :=
  m.write a (if bigEndian then (bytes32 v).reverse else bytes32 v)

@[simp]
theorem length_read (m : GuestMem) (a : BitVec 32) (n : ℕ) : (m.read a n).length = n := by
  simp [read]

/-- A write changes nothing behind it. -/
theorem write_of_le {m : GuestMem} {a x : BitVec 32} {bs : List (BitVec 8)} (h : bs.length ≤ (x - a).toNat) :
    m.write a bs x = m x := by
  rw [write, List.getD_eq_default _ _ h]

theorem write_offset {m : GuestMem} {a : BitVec 32} {bs : List (BitVec 8)} {i : ℕ} (h : i < bs.length)
    (hlen : bs.length ≤ 2 ^ 32) : m.write a bs (a + BitVec.ofNat 32 i) = bs[i] := by
  have hi : (a + BitVec.ofNat 32 i - a).toNat = i := by
    rw [add_sub_cancel_left, BitVec.toNat_ofNat, Nat.mod_eq_of_lt (by omega)]
  rw [write, hi, List.getD_eq_getElem _ _ h]

/-- What is written is read back. -/
theorem read_write (m : GuestMem) (a : BitVec 32) {bs : List (BitVec 8)} (hlen : bs.length ≤ 2 ^ 32) :
    (m.write a bs).read a bs.length = bs := by
  apply List.ext_getElem
  · rw [length_read]
  · intro i hi hi'
    simp only [read, List.getElem_map, List.getElem_range]
    exact write_offset hi' hlen

theorem append_bytes16 (v : BitVec 16) : v.extractLsb' 8 8 ++ v.extractLsb' 0 8 = v := by
  apply BitVec.eq_of_getLsbD_eq
  intro i hi
  rw [BitVec.getLsbD_append, BitVec.getLsbD_extractLsb', BitVec.getLsbD_extractLsb']
  split_ifs with h
  · simp [h]
  · simp [show i - 8 < 8 by omega, show 8 + (i - 8) = i by omega]

theorem le16_putLe16 (m : GuestMem) (a : BitVec 32) (v : BitVec 16) : (m.putLe16 a v).le16 a = v := by
  have h₀ : m.write a (bytes16 v) (a + BitVec.ofNat 32 0) = v.extractLsb' 0 8 :=
    write_offset (by simp [bytes16]) (by simp [bytes16])
  have h₁ : m.write a (bytes16 v) (a + BitVec.ofNat 32 1) = v.extractLsb' 8 8 :=
    write_offset (by simp [bytes16]) (by simp [bytes16])
  rw [show BitVec.ofNat 32 0 = 0 from rfl, add_zero] at h₀
  rw [le16, putLe16, h₀]
  exact (congrArg (· ++ _) h₁).trans (append_bytes16 v)

theorem append_bytes32 (v : BitVec 32) :
    v.extractLsb' 24 8 ++ v.extractLsb' 16 8 ++ v.extractLsb' 8 8 ++ v.extractLsb' 0 8 = v := by
  apply BitVec.eq_of_getLsbD_eq
  intro i hi
  simp only [BitVec.getLsbD_append, BitVec.getLsbD_extractLsb']
  by_cases h₁ : i < 8
  · simp [h₁]
  by_cases h₂ : i - 8 < 8
  · simp [h₁, h₂, show 8 + (i - 8) = i by omega]
  by_cases h₃ : i - 8 - 8 < 8
  · simp [h₁, h₂, h₃, show 16 + (i - 8 - 8) = i by omega]
  · simp [h₁, h₂, h₃, show i - 8 - 8 - 8 < 8 by omega, show 24 + (i - 8 - 8 - 8) = i by omega]

theorem le32_write (m : GuestMem) (a : BitVec 32) (b₀ b₁ b₂ b₃ : BitVec 8) :
    (m.write a [b₀, b₁, b₂, b₃]).le32 a = b₃ ++ b₂ ++ b₁ ++ b₀ := by
  have hbyte : ∀ i (h : i < 4), m.write a [b₀, b₁, b₂, b₃] (a + BitVec.ofNat 32 i) = [b₀, b₁, b₂, b₃][i] :=
    fun i h => write_offset h (by simp)
  have h₀ := hbyte 0 (by decide)
  rw [show BitVec.ofNat 32 0 = 0 from rfl, add_zero] at h₀
  rw [le32, h₀]
  exact congrArg₂ (· ++ · ++ _) (congrArg₂ (· ++ ·) (hbyte 3 (by decide)) (hbyte 2 (by decide))) (hbyte 1 (by decide))

theorem le32_putLe32 (m : GuestMem) (a v : BitVec 32) : (m.putLe32 a v).le32 a = v :=
  (le32_write m a _ _ _ _).trans (append_bytes32 v)

/-- A word stored by a big-endian target has its bytes in the other order for a little-endian reader. -/
theorem le32_stl (bigEndian : Bool) (m : GuestMem) (a v : BitVec 32) : (m.stl bigEndian a v).le32 a =
    if bigEndian then v.extractLsb' 0 8 ++ v.extractLsb' 8 8 ++ v.extractLsb' 16 8 ++ v.extractLsb' 24 8 else v := by
  cases bigEndian with
  | false => exact le32_putLe32 m a v
  | true => exact le32_write m a _ _ _ _

end GuestMem

end Ar7Qemu.Lib
