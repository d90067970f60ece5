import Mathlib.Algebra.Order.Ring.Nat
import Mathlib.Tactic.Common

/-! Words as bit vectors made of bytes: the bytes of a word, loads and stores of a memory in either
byte order, and the byte swap. A word is described by its bits. -/

namespace Ar7Qemu.Lib.WordBytes

/-- The word of `n` bytes, the least significant one first. -/
def ofBytes : (n : ℕ) → (ℕ → BitVec 8) → BitVec (8 * n)
  | 0, _ => 0#0
  | n + 1, b => ofBytes n (fun i => b (i + 1)) ++ b 0

/-- Byte `i` of a word. -/
def byte {w : ℕ} (v : BitVec w) (i : ℕ) : BitVec 8 := v.extractLsb' (8 * i) 8

/-- Where byte `i` of `n` bytes stands in memory. -/
def place (bigEndian : Bool) (n i : ℕ) : ℕ := if bigEndian then n - 1 - i else i

/-- The word with its bytes in the opposite order. -/
def bswap (n : ℕ) (v : BitVec (8 * n)) : BitVec (8 * n) := ofBytes n fun i => byte v (n - 1 - i)

/-- A memory with addresses of `w` bits. -/
abbrev Memory (w : ℕ) := BitVec w → BitVec 8

namespace Memory

variable {w : ℕ}

def load (m : Memory w) (bigEndian : Bool) (n : ℕ) (a : BitVec w) : BitVec (8 * n) :=
  ofBytes n fun i => m (a + BitVec.ofNat w (place bigEndian n i))

def store (m : Memory w) (bigEndian : Bool) (n : ℕ) (a : BitVec w) (v : BitVec (8 * n)) : Memory w := fun x =>
  if (x - a).toNat < n then byte v (place bigEndian n (x - a).toNat) else m x

end Memory

theorem getLsbD_ofBytes (n : ℕ) (b : ℕ → BitVec 8) (i : ℕ) :
    (ofBytes n b).getLsbD i = (decide (i < 8 * n) && (b (i / 8)).getLsbD (i % 8)) := by
  induction n generalizing b i with
  | zero => simp [ofBytes]
  | succ n ih =>
    rw [ofBytes, BitVec.getLsbD_append]
    split_ifs with hi
    · simp [Nat.div_eq_of_lt hi, Nat.mod_eq_of_lt hi, show i < 8 * (n + 1) by omega]
    · rw [ih, show (i - 8) / 8 + 1 = i / 8 by omega, show (i - 8) % 8 = i % 8 by omega]
      simp only [show i - 8 < 8 * n ↔ i < 8 * (n + 1) by omega]

theorem getLsbD_byte {w : ℕ} (v : BitVec w) (i j : ℕ) : (byte v i).getLsbD j = (decide (j < 8) && v.getLsbD (8 * i + j)) := by
  rw [byte, BitVec.getLsbD_extractLsb']

theorem getLsbD_bswap (n : ℕ) (v : BitVec (8 * n)) (i : ℕ) :
    (bswap n v).getLsbD i = (decide (i < 8 * n) && v.getLsbD (8 * (n - 1 - i / 8) + i % 8)) := by
  rw [bswap, getLsbD_ofBytes, getLsbD_byte]
  simp [Nat.mod_lt]

theorem getLsbD_load {w : ℕ} (m : Memory w) (bigEndian : Bool) (n : ℕ) (a : BitVec w) (i : ℕ) :
    (m.load bigEndian n a).getLsbD i =
      (decide (i < 8 * n) && (m (a + BitVec.ofNat w (place bigEndian n (i / 8)))).getLsbD (i % 8)) := by
  rw [Memory.load, getLsbD_ofBytes]

theorem eq_of_byte_eq (n : ℕ) (u v : BitVec (8 * n)) (h : ∀ i < n, byte u i = byte v i) : u = v := by
  apply BitVec.eq_of_getLsbD_eq
  intro i hi
  have hb := congrArg (fun b : BitVec 8 => b.getLsbD (i % 8)) (h (i / 8) (by omega))
  simpa only [getLsbD_byte, Nat.mod_lt i (show 0 < 8 by omega), decide_true, Bool.true_and,
    show 8 * (i / 8) + i % 8 = i by omega] using hb

theorem byte_ofBytes (n : ℕ) (b : ℕ → BitVec 8) {i : ℕ} (hi : i < n) : byte (ofBytes n b) i = b i := by
  apply BitVec.eq_of_getLsbD_eq
  intro j hj
  rw [getLsbD_byte, getLsbD_ofBytes, show (8 * i + j) / 8 = i by omega, show (8 * i + j) % 8 = j by omega]
  simp [hj, show 8 * i + j < 8 * n by omega]

theorem byte_load {w : ℕ} (m : Memory w) (bigEndian : Bool) (n : ℕ) (a : BitVec w) (i : ℕ) (hi : i < n) :
    byte (m.load bigEndian n a) i = m (a + BitVec.ofNat w (place bigEndian n i)) := byte_ofBytes n _ hi

theorem byte_or {w : ℕ} (u v : BitVec w) (i : ℕ) : byte (u ||| v) i = byte u i ||| byte v i := by
  apply BitVec.eq_of_getLsbD_eq
  intro j hj
  simp only [getLsbD_byte, BitVec.getLsbD_or, hj, decide_true, Bool.true_and]

theorem byte_zero (b : BitVec 8) : byte b 0 = b := by
  apply BitVec.eq_of_getLsbD_eq
  intro j hj
  rw [getLsbD_byte, decide_eq_true hj, Bool.true_and, Nat.mul_zero, Nat.zero_add]

/-- A word has no bytes past its end. -/
theorem byte_of_le {w : ℕ} (v : BitVec w) {i : ℕ} (hi : w ≤ 8 * i) : byte v i = 0 := by
  apply BitVec.eq_of_getLsbD_eq
  intro j hj
  rw [getLsbD_byte, BitVec.getLsbD_of_ge v _ (by omega), Bool.and_false]
  exact BitVec.getLsbD_zero.symm

theorem byte_setWidth {w : ℕ} (v : BitVec w) {u i : ℕ} (hi : 8 * i + 8 ≤ u) : byte (v.setWidth u) i = byte v i := by
  apply BitVec.eq_of_getLsbD_eq
  intro j hj
  rw [getLsbD_byte, getLsbD_byte, BitVec.getLsbD_setWidth, decide_eq_true (show 8 * i + j < u by omega), Bool.true_and]

theorem byte_ushiftRight {w : ℕ} (v : BitVec w) (k i : ℕ) : byte (v >>> (8 * k)) i = byte v (k + i) := by
  apply BitVec.eq_of_getLsbD_eq
  intro j _
  rw [getLsbD_byte, getLsbD_byte, BitVec.getLsbD_ushiftRight, ← Nat.add_assoc, ← Nat.mul_add]

theorem byte_shiftLeft_of_lt {w : ℕ} (v : BitVec w) {k i : ℕ} (hi : i < k) : byte (v <<< (8 * k)) i = 0 := by
  apply BitVec.eq_of_getLsbD_eq
  intro j hj
  rw [getLsbD_byte, BitVec.getLsbD_shiftLeft, decide_eq_true (show 8 * i + j < 8 * k by omega)]
  simp

theorem byte_shiftLeft_add {w : ℕ} (v : BitVec w) {k i : ℕ} (hi : 8 * (k + i) + 8 ≤ w) :
    byte (v <<< (8 * k)) (k + i) = byte v i := by
  apply BitVec.eq_of_getLsbD_eq
  intro j hj
  rw [getLsbD_byte, getLsbD_byte, BitVec.getLsbD_shiftLeft, decide_eq_true (show 8 * (k + i) + j < w by omega),
    decide_eq_false (show ¬ 8 * (k + i) + j < 8 * k by omega), show 8 * (k + i) + j - 8 * k = 8 * i + j by omega]
  simp

theorem place_lt (bigEndian : Bool) {n i : ℕ} (hi : i < n) : place bigEndian n i < n := by
  rw [place]
  split <;> omega

theorem place_place (bigEndian : Bool) {n i : ℕ} (hi : i < n) : place bigEndian n (place bigEndian n i) = i := by
  cases bigEndian
  · rfl
  · simp only [place, if_true]
    omega

/-- A store of the bytes that stand in a buffer copies the buffer. -/
theorem store_ofBytes {w : ℕ} (m : Memory w) (bigEndian : Bool) (n : ℕ) (a : BitVec w) (buf : ℕ → BitVec 8) (x : BitVec w) :
    m.store bigEndian n a (ofBytes n fun i => buf (place bigEndian n i)) x =
      if (x - a).toNat < n then buf (x - a).toNat else m x := by
  rw [Memory.store]
  split
  · rename_i hx
    rw [byte_ofBytes n _ (place_lt bigEndian hx), place_place bigEndian hx]
  · rfl

/-! ### Bytes written one after another -/

/-- The bytes after the writes of a list, the first one first. -/
def patch {α : Type*} [DecidableEq α] (f : α → BitVec 8) (writes : List (α × BitVec 8)) : α → BitVec 8 :=
  writes.foldl (fun f p => Function.update f p.1 p.2) f

theorem patch_append {α : Type*} [DecidableEq α] (f : α → BitVec 8) (ps qs : List (α × BitVec 8)) :
    patch f (ps ++ qs) = patch (patch f ps) qs := by
  rw [patch, List.foldl_append]
  rfl

theorem patch_congr {α : Type*} [DecidableEq α] {f g : α → BitVec 8} (ps : List (α × BitVec 8)) {x : α} (h : f x = g x) :
    patch f ps x = patch g ps x := by
  induction ps generalizing f g with
  | nil => exact h
  | cons p ps ih =>
    have hstep : Function.update f p.1 p.2 x = Function.update g p.1 p.2 x := by
      by_cases hx : x = p.1
      · rw [hx, Function.update_self, Function.update_self]
      · rw [Function.update_of_ne hx, Function.update_of_ne hx, h]
    exact ih hstep

/-- Writes that all agree with `g` leave `g` where they wrote and the old bytes elsewhere, whatever their order. -/
theorem patch_eq {α : Type*} [DecidableEq α] (f g : α → BitVec 8) (ps : List (α × BitVec 8))
    (h : ∀ p ∈ ps, p.2 = g p.1) (x : α) : patch f ps x = if x ∈ ps.map Prod.fst then g x else f x := by
  induction ps generalizing f with
  | nil => simp [patch]
  | cons p ps ih =>
    have hp := h p (by simp)
    have hstep : patch f (p :: ps) x = patch (Function.update f p.1 p.2) ps x := rfl
    rw [hstep, ih _ fun q hq => h q (by simp [hq])]
    by_cases hm : x ∈ ps.map Prod.fst
    · simp only [hm, List.map_cons, List.mem_cons, or_true, if_true]
    · by_cases hx : x = p.1
      · subst hx
        simp [hm, hp]
      · simp [hm, hx]

end Ar7Qemu.Lib.WordBytes
