import Mathlib.Logic.Function.Basic
import Mathlib.Data.BitVec
import Mathlib.Tactic.Common

/-! Register blocks of the AR7 and the bits of their words. -/

namespace Ar7Qemu.Ar7

abbrev Word := BitVec 32

/-- A register block. The source keeps it as bytes and reads and writes little-endian
words at offsets that are multiples of four, so a block is the word at each offset. -/
abbrev Regs := ℕ → Word

/-- `BIT` of the source. -/
def bit (n : ℕ) : Word := BitVec.twoPow 32 n

def regRead (reg : Regs) (addr : ℕ) : Word := reg addr

def regWrite (reg : Regs) (addr : ℕ) (value : Word) : Regs := Function.update reg addr value

def regClear (reg : Regs) (addr : ℕ) (value : Word) : Regs :=
  Function.update reg addr (reg addr &&& ~~~value)

def regSet (reg : Regs) (addr : ℕ) (value : Word) : Regs :=
  Function.update reg addr (reg addr ||| value)

variable (reg : Regs) (addr a : ℕ) (value : Word)

@[simp]
theorem regRead_regWrite : regRead (regWrite reg addr value) a = if a = addr then value else regRead reg a := by
  by_cases h : a = addr
  · subst h
    simp [regRead, regWrite]
  · simp [regRead, regWrite, h]

@[simp]
theorem regRead_regClear : regRead (regClear reg addr value) a =
    if a = addr then regRead reg a &&& ~~~value else regRead reg a := by
  by_cases h : a = addr
  · subst h
    simp [regRead, regClear]
  · simp [regRead, regClear, h]

@[simp]
theorem regRead_regSet : regRead (regSet reg addr value) a =
    if a = addr then regRead reg a ||| value else regRead reg a := by
  by_cases h : a = addr
  · subst h
    simp [regRead, regSet]
  · simp [regRead, regSet, h]

/-! ### Bits of a word -/

theorem getLsbD_bit {i n : ℕ} (h : i < 32) : (bit n).getLsbD i = decide (i = n) := by
  rw [bit, BitVec.getLsbD_twoPow]
  by_cases hin : i = n
  · subst hin
    simp [h]
  · simp [hin, Ne.symm hin]

theorem ne_zero_iff {w : ℕ} (x : BitVec w) : x ≠ 0 ↔ ∃ i < w, x.getLsbD i = true := by
  constructor
  · intro h
    by_contra hn
    refine h (BitVec.eq_of_getLsbD_eq fun i hi => ?_)
    cases hx : x.getLsbD i with
    | true => exact absurd ⟨i, hi, hx⟩ hn
    | false => simp
  · rintro ⟨i, _, hx⟩ rfl
    simp at hx

theorem and_bit_ne_zero_iff (x : Word) {n : ℕ} (h : n < 32) : x &&& bit n ≠ 0 ↔ x.getLsbD n = true := by
  rw [ne_zero_iff]
  constructor
  · rintro ⟨i, hi, hx⟩
    rw [BitVec.getLsbD_and, getLsbD_bit hi, Bool.and_eq_true, decide_eq_true_eq] at hx
    rw [← hx.2]
    exact hx.1
  · intro hx
    refine ⟨n, h, ?_⟩
    rw [BitVec.getLsbD_and, getLsbD_bit h, hx]
    simp

end Ar7Qemu.Ar7
