import Ar7Qemu.Lib.WordBytes
import Mathlib.Tactic.IntervalCases

/-! The unaligned loads and stores of target-mips/op_helper.c. Each helper moves the bytes between its
address and one end of the aligned word that holds it, byte by byte and in the direction of the guest's
byte order. A pair of them on the two ends of a word moves the whole word. -/

namespace Ar7Qemu.Mips.Unaligned

open Lib.WordBytes

/-! ### The helpers -/

/-- The modes among which `mem_idx` selects. -/
inductive Mode
  | kernel
  | super
  | user
  deriving DecidableEq, Repr

/-- The byte access of the mode that `mem_idx` names. -/
def access {α : Type} (fns : Mode → α) (memIdx : ℤ) : α :=
  if memIdx = 0 then fns .kernel else if memIdx = 1 then fns .super else fns .user

variable {w : ℕ} {m : Type → Type} [Monad m]

def getLmask (bigEndian : Bool) (v : BitVec w) : BitVec w := if bigEndian then v &&& 3 else (v &&& 3) ^^^ 3

def getLmask64 (bigEndian : Bool) (v : BitVec w) : BitVec w := if bigEndian then v &&& 7 else (v &&& 7) ^^^ 7

def getOffset (bigEndian : Bool) (addr : BitVec w) (offset : ℤ) : BitVec w :=
  if bigEndian then addr + BitVec.ofInt w offset else addr - BitVec.ofInt w offset

/-- The test on the lane mask under which a byte is moved. -/
inductive Test
  | always
  | le (k : ℕ)
  | ge (k : ℕ)
  | eq (k : ℕ)
  deriving DecidableEq, Repr

def Test.holds : Test → ℕ → Bool
  | always, _ => true
  | le k, l => decide (l ≤ k)
  | ge k, l => decide (k ≤ l)
  | eq k, l => decide (l = k)

/-- One byte of a store: its test, its offset and its place in the register. -/
structure Step where
  test : Test
  offset : ℤ
  shift : ℕ
  deriving DecidableEq, Repr

/-- One byte of a load, with the part of the register that is kept. -/
structure LoadStep extends Step where
  mask : ℕ
  deriving DecidableEq, Repr

def loadPart (bigEndian : Bool) (lmask : BitVec w → BitVec w) (steps : List LoadStep)
    (ldfun : BitVec w → m (BitVec 8)) (arg1 arg2 : BitVec w) : m (BitVec w) :=
  steps.foldlM (fun arg1 s =>
    if s.test.holds (lmask arg2).toNat then do
      let tmp ← ldfun (getOffset bigEndian arg2 s.offset)
      pure ((arg1 &&& BitVec.ofNat w s.mask) ||| (tmp.setWidth w <<< s.shift))
    else pure arg1) arg1

def storePart (bigEndian : Bool) (lmask : BitVec w → BitVec w) (steps : List Step)
    (stfun : BitVec w → BitVec 8 → m Unit) (arg1 arg2 : BitVec w) : m Unit :=
  steps.forM fun s =>
    if s.test.holds (lmask arg2).toNat then
      stfun (getOffset bigEndian arg2 s.offset) ((arg1 >>> s.shift).setWidth 8)
    else pure ()

def lwlSteps : List LoadStep :=
  [⟨⟨.always, 0, 24⟩, 0x00FFFFFF⟩, ⟨⟨.le 2, 1, 16⟩, 0xFF00FFFF⟩, ⟨⟨.le 1, 2, 8⟩, 0xFFFF00FF⟩, ⟨⟨.eq 0, 3, 0⟩, 0xFFFFFF00⟩]

def lwrSteps : List LoadStep :=
  [⟨⟨.always, 0, 0⟩, 0xFFFFFF00⟩, ⟨⟨.ge 1, -1, 8⟩, 0xFFFF00FF⟩, ⟨⟨.ge 2, -2, 16⟩, 0xFF00FFFF⟩, ⟨⟨.eq 3, -3, 24⟩, 0x00FFFFFF⟩]

def swlSteps : List Step := [⟨.always, 0, 24⟩, ⟨.le 2, 1, 16⟩, ⟨.le 1, 2, 8⟩, ⟨.eq 0, 3, 0⟩]

def swrSteps : List Step := [⟨.always, 0, 0⟩, ⟨.ge 1, -1, 8⟩, ⟨.ge 2, -2, 16⟩, ⟨.eq 3, -3, 24⟩]

def ldlSteps : List LoadStep :=
  [⟨⟨.always, 0, 56⟩, 0x00FFFFFFFFFFFFFF⟩, ⟨⟨.le 6, 1, 48⟩, 0xFF00FFFFFFFFFFFF⟩,
    ⟨⟨.le 5, 2, 40⟩, 0xFFFF00FFFFFFFFFF⟩, ⟨⟨.le 4, 3, 32⟩, 0xFFFFFF00FFFFFFFF⟩,
    ⟨⟨.le 3, 4, 24⟩, 0xFFFFFFFF00FFFFFF⟩, ⟨⟨.le 2, 5, 16⟩, 0xFFFFFFFFFF00FFFF⟩,
    ⟨⟨.le 1, 6, 8⟩, 0xFFFFFFFFFFFF00FF⟩, ⟨⟨.eq 0, 7, 0⟩, 0xFFFFFFFFFFFFFF00⟩]

def ldrSteps : List LoadStep :=
  [⟨⟨.always, 0, 0⟩, 0xFFFFFFFFFFFFFF00⟩, ⟨⟨.ge 1, -1, 8⟩, 0xFFFFFFFFFFFF00FF⟩,
    ⟨⟨.ge 2, -2, 16⟩, 0xFFFFFFFFFF00FFFF⟩, ⟨⟨.ge 3, -3, 24⟩, 0xFFFFFFFF00FFFFFF⟩,
    ⟨⟨.ge 4, -4, 32⟩, 0xFFFFFF00FFFFFFFF⟩, ⟨⟨.ge 5, -5, 40⟩, 0xFFFF00FFFFFFFFFF⟩,
    ⟨⟨.ge 6, -6, 48⟩, 0xFF00FFFFFFFFFFFF⟩, ⟨⟨.eq 7, -7, 56⟩, 0x00FFFFFFFFFFFFFF⟩]

def sdlSteps : List Step :=
  [⟨.always, 0, 56⟩, ⟨.le 6, 1, 48⟩, ⟨.le 5, 2, 40⟩, ⟨.le 4, 3, 32⟩, ⟨.le 3, 4, 24⟩, ⟨.le 2, 5, 16⟩,
    ⟨.le 1, 6, 8⟩, ⟨.le 0, 7, 0⟩]

def sdrSteps : List Step :=
  [⟨.always, 0, 0⟩, ⟨.ge 1, -1, 8⟩, ⟨.ge 2, -2, 16⟩, ⟨.ge 3, -3, 24⟩, ⟨.ge 4, -4, 32⟩, ⟨.ge 5, -5, 40⟩,
    ⟨.ge 6, -6, 48⟩, ⟨.eq 7, -7, 56⟩]

/-- The value returned by a load of a word: `(int32_t)arg1`. -/
def int32 (arg1 : BitVec w) : BitVec w := (arg1.setWidth 32).signExtend w

def helperLwl (bigEndian : Bool) (ldub : Mode → BitVec w → m (BitVec 8)) (arg1 arg2 : BitVec w) (memIdx : ℤ) : m (BitVec w) := do
  let arg1 ← loadPart bigEndian (getLmask bigEndian) lwlSteps (access ldub memIdx) arg1 arg2
  return int32 arg1

def helperLwr (bigEndian : Bool) (ldub : Mode → BitVec w → m (BitVec 8)) (arg1 arg2 : BitVec w) (memIdx : ℤ) : m (BitVec w) := do
  let arg1 ← loadPart bigEndian (getLmask bigEndian) lwrSteps (access ldub memIdx) arg1 arg2
  return int32 arg1

def helperSwl (bigEndian : Bool) (stb : Mode → BitVec w → BitVec 8 → m Unit) (arg1 arg2 : BitVec w) (memIdx : ℤ) : m Unit :=
  storePart bigEndian (getLmask bigEndian) swlSteps (access stb memIdx) arg1 arg2

def helperSwr (bigEndian : Bool) (stb : Mode → BitVec w → BitVec 8 → m Unit) (arg1 arg2 : BitVec w) (memIdx : ℤ) : m Unit :=
  storePart bigEndian (getLmask bigEndian) swrSteps (access stb memIdx) arg1 arg2

def helperLdl (bigEndian : Bool) (ldub : Mode → BitVec 64 → m (BitVec 8)) (arg1 arg2 : BitVec 64) (memIdx : ℤ) : m (BitVec 64) :=
  loadPart bigEndian (getLmask64 bigEndian) ldlSteps (access ldub memIdx) arg1 arg2

def helperLdr (bigEndian : Bool) (ldub : Mode → BitVec 64 → m (BitVec 8)) (arg1 arg2 : BitVec 64) (memIdx : ℤ) : m (BitVec 64) :=
  loadPart bigEndian (getLmask64 bigEndian) ldrSteps (access ldub memIdx) arg1 arg2

def helperSdl (bigEndian : Bool) (stb : Mode → BitVec 64 → BitVec 8 → m Unit) (arg1 arg2 : BitVec 64) (memIdx : ℤ) : m Unit :=
  storePart bigEndian (getLmask64 bigEndian) sdlSteps (access stb memIdx) arg1 arg2

def helperSdr (bigEndian : Bool) (stb : Mode → BitVec 64 → BitVec 8 → m Unit) (arg1 arg2 : BitVec 64) (memIdx : ℤ) : m Unit :=
  storePart bigEndian (getLmask64 bigEndian) sdrSteps (access stb memIdx) arg1 arg2

/-! ### Tables of byte steps -/

/-- A table for words of `n` bytes that works towards the most significant end (`left`) or the least
significant one: the byte in lane `j` stands `n - 1 - j` bytes after, or `j` bytes before, the address. -/
structure Table (n : ℕ) (left : Bool) (steps : List Step) : Prop where
  lane : ∀ s ∈ steps, s.shift / 8 < n ∧ s.shift % 8 = 0
  offset : ∀ s ∈ steps, s.offset = if left then (n : ℤ) - 1 - (s.shift / 8 : ℕ) else -((s.shift / 8 : ℕ) : ℤ)
  test : ∀ s ∈ steps, ∀ l < n, s.test.holds l = if left then decide (l ≤ s.shift / 8) else decide (s.shift / 8 ≤ l)
  covers : ∀ j < n, ∃ s ∈ steps, s.shift / 8 = j

/-- Every mask of a table clears the lane of its step and keeps the other lanes of the word. -/
def Masked (n : ℕ) (steps : List LoadStep) : Prop :=
  ∀ s ∈ steps, ∀ i < 8 * n, s.mask.testBit i = decide (i / 8 ≠ s.shift / 8)

theorem swlSteps_table : Table 4 true swlSteps := ⟨by decide, by decide, by decide, by decide⟩

theorem swrSteps_table : Table 4 false swrSteps := ⟨by decide, by decide, by decide, by decide⟩

theorem sdlSteps_table : Table 8 true sdlSteps := ⟨by decide, by decide, by decide, by decide⟩

theorem sdrSteps_table : Table 8 false sdrSteps := ⟨by decide, by decide, by decide, by decide⟩

theorem lwlSteps_table : Table 4 true (lwlSteps.map LoadStep.toStep) := swlSteps_table

theorem lwrSteps_table : Table 4 false (lwrSteps.map LoadStep.toStep) := swrSteps_table

theorem ldlSteps_table : Table 8 true (ldlSteps.map LoadStep.toStep) := ⟨by decide, by decide, by decide, by decide⟩

theorem ldrSteps_table : Table 8 false (ldrSteps.map LoadStep.toStep) := sdrSteps_table

theorem lwlSteps_masked : Masked 4 lwlSteps := by unfold Masked; decide

theorem lwrSteps_masked : Masked 4 lwrSteps := by unfold Masked; decide

theorem ldlSteps_masked : Masked 8 ldlSteps := by unfold Masked; decide

theorem ldrSteps_masked : Masked 8 ldrSteps := by unfold Masked; decide

/-! ### Addresses -/

/-- The number of the lane that the address itself belongs to. -/
def pos (bigEndian : Bool) (n : ℕ) (p : BitVec w) : ℕ := if bigEndian then p.toNat % n else n - 1 - p.toNat % n

theorem pos_lt (bigEndian : Bool) {n : ℕ} (hn : 0 < n) (p : BitVec w) : pos bigEndian n p < n := by
  have := Nat.mod_lt p.toNat hn
  rw [pos]
  split_ifs <;> omega

theorem toNat_ones {k : ℕ} (hk : k ≤ w) : (BitVec.ofNat w (2 ^ k - 1)).toNat = 2 ^ k - 1 := by
  have hpow : 2 ^ k ≤ 2 ^ w := Nat.pow_le_pow_right (by decide) hk
  have hpos : 0 < 2 ^ k := Nat.two_pow_pos k
  rw [BitVec.toNat_ofNat, Nat.mod_eq_of_lt (by omega)]

theorem toNat_and_ones {k : ℕ} (hk : k ≤ w) (v : BitVec w) : (v &&& BitVec.ofNat w (2 ^ k - 1)).toNat = v.toNat % 2 ^ k := by
  rw [BitVec.toNat_and, toNat_ones hk, Nat.and_two_pow_sub_one_eq_mod]

theorem toNat_xor_ones {k : ℕ} (hk : k ≤ w) (hxor : ∀ x < 2 ^ k, x ^^^ (2 ^ k - 1) = 2 ^ k - 1 - x) (v : BitVec w) :
    ((v &&& BitVec.ofNat w (2 ^ k - 1)) ^^^ BitVec.ofNat w (2 ^ k - 1)).toNat = 2 ^ k - 1 - v.toNat % 2 ^ k := by
  rw [BitVec.toNat_xor, toNat_and_ones hk, toNat_ones hk, hxor _ (Nat.mod_lt _ (Nat.two_pow_pos k))]

theorem toNat_getLmask (bigEndian : Bool) (hw : 2 ≤ w) (p : BitVec w) : (getLmask bigEndian p).toNat = pos bigEndian 4 p := by
  rw [getLmask, pos]
  split_ifs
  · exact toNat_and_ones hw p
  · exact toNat_xor_ones hw (by decide) p

theorem toNat_getLmask64 (bigEndian : Bool) (hw : 3 ≤ w) (p : BitVec w) : (getLmask64 bigEndian p).toNat = pos bigEndian 8 p := by
  rw [getLmask64, pos]
  split_ifs
  · exact toNat_and_ones hw p
  · exact toNat_xor_ones hw (by decide) p

/-- The address that a helper working to the left or to the right gets for the `n` bytes at `a`: the
byte with the most significant, or the least significant, part of the word. -/
def wordEnd (bigEndian left : Bool) (n : ℕ) (a : BitVec w) : BitVec w :=
  if left = bigEndian then a else a + BitVec.ofNat w (n - 1)

theorem ofInt_sub_natCast (a : BitVec w) {i k : ℕ} (h : k ≤ i) :
    a + BitVec.ofNat w i + BitVec.ofInt w (-(k : ℤ)) = a + BitVec.ofNat w (i - k) := by
  rw [BitVec.add_assoc, ← BitVec.ofInt_natCast w i, ← BitVec.ofInt_add, ← BitVec.ofInt_natCast w (i - k), Nat.cast_sub h]
  rfl

variable (bigEndian : Bool) {n : ℕ}

theorem getOffset_wordEnd (left : Bool) (a : BitVec w) {j : ℕ} (hj : j < n) :
    getOffset bigEndian (wordEnd bigEndian left n a) (if left then (n : ℤ) - 1 - (j : ℕ) else -((j : ℕ) : ℤ)) =
      a + BitVec.ofNat w (place bigEndian n j) := by
  have hcast : (n : ℤ) - 1 - (j : ℕ) = ((n - 1 - j : ℕ) : ℤ) := by omega
  rw [hcast]
  cases bigEndian <;> cases left
  · simp [getOffset, wordEnd, place, BitVec.ofInt_neg, BitVec.ofInt_natCast]
  · simp only [getOffset, wordEnd, place, BitVec.sub_eq_add_neg, ← BitVec.ofInt_neg, reduceIte, Bool.false_eq_true,
      Bool.true_eq_false]
    rw [ofInt_sub_natCast a (by omega), show n - 1 - (n - 1 - j) = j by omega]
  · simp only [getOffset, wordEnd, place, reduceIte, Bool.false_eq_true]
    rw [ofInt_sub_natCast a (by omega)]
  · simp [getOffset, wordEnd, place, BitVec.ofInt_natCast]

theorem add_div (hd : n ∣ 2 ^ w) (p : BitVec w) {k : ℕ} (hk : p.toNat % n + k < n) :
    (p + BitVec.ofNat w k).toNat / n = p.toNat / n := by
  obtain ⟨c, hc⟩ := hd
  have hp := p.isLt
  have hlt : p.toNat / n < c := Nat.div_lt_of_lt_mul (hc ▸ hp)
  have hsplit := Nat.div_add_mod p.toNat n
  have hsucc : n * (p.toNat / n + 1) ≤ n * c := Nat.mul_le_mul_left n hlt
  rw [Nat.mul_add] at hsucc
  have hsum : (p + BitVec.ofNat w k).toNat = n * (p.toNat / n) + (p.toNat % n + k) := by
    rw [BitVec.toNat_add, BitVec.toNat_ofNat, Nat.add_mod_mod, Nat.mod_eq_of_lt (by omega)]
    omega
  rw [hsum, Nat.mul_add_div (by omega), Nat.div_eq_of_lt hk, Nat.add_zero]

theorem sub_div (p : BitVec w) {k : ℕ} (hk : k ≤ p.toNat % n) (hn : 0 < n) :
    (p - BitVec.ofNat w k).toNat / n = p.toNat / n := by
  have hp := p.isLt
  have hmod := Nat.mod_lt p.toNat hn
  have hsplit := Nat.div_add_mod p.toNat n
  have hkw : k < 2 ^ w := by omega
  have hdiff : (p - BitVec.ofNat w k).toNat = n * (p.toNat / n) + (p.toNat % n - k) := by
    rw [BitVec.toNat_sub_of_le (by rw [BitVec.le_def, BitVec.toNat_ofNat, Nat.mod_eq_of_lt hkw]; omega), BitVec.toNat_ofNat,
      Nat.mod_eq_of_lt hkw]
    omega
  rw [hdiff, Nat.mul_add_div hn, Nat.div_eq_of_lt (show p.toNat % n - k < n by omega), Nat.add_zero]

theorem getOffset_div (left : Bool) (hd : n ∣ 2 ^ w) (p : BitVec w) {j : ℕ} (hj : j < n)
    (ht : if left then pos bigEndian n p ≤ j else j ≤ pos bigEndian n p) :
    (getOffset bigEndian p (if left then (n : ℤ) - 1 - (j : ℕ) else -((j : ℕ) : ℤ))).toNat / n = p.toNat / n := by
  have hcast : (n : ℤ) - 1 - (j : ℕ) = ((n - 1 - j : ℕ) : ℤ) := by omega
  have hmod := Nat.mod_lt p.toNat (show 0 < n by omega)
  rw [hcast]
  cases bigEndian <;> cases left <;>
    simp only [pos, getOffset, reduceIte, Bool.false_eq_true, BitVec.ofInt_neg, BitVec.ofInt_natCast, BitVec.sub_neg,
      ← BitVec.sub_eq_add_neg] at ht ⊢
  · exact add_div hd p (by omega)
  · exact sub_div p (by omega) (by omega)
  · exact sub_div p (by omega) (by omega)
  · exact add_div hd p (by omega)

theorem pos_wordEnd (hd : n ∣ 2 ^ w) (hn : 0 < n) (a : BitVec w) :
    pos bigEndian n (wordEnd bigEndian true n a) ≤ pos bigEndian n (wordEnd bigEndian false n a) + 1 := by
  have hmod := Nat.mod_lt a.toNat hn
  have hlast : (a + BitVec.ofNat w (n - 1)).toNat % n = (a.toNat % n + (n - 1)) % n := by
    rw [BitVec.toNat_add, BitVec.toNat_ofNat, Nat.add_mod_mod, Nat.mod_mod_of_dvd _ hd, Nat.mod_add_mod]
  have hstep : (a.toNat % n + (n - 1)) % n = if a.toNat % n = 0 then n - 1 else a.toNat % n - 1 := by
    split_ifs with h
    · rw [h, Nat.zero_add, Nat.mod_eq_of_lt (by omega)]
    · rw [Nat.mod_eq_sub_mod (by omega), Nat.mod_eq_of_lt (by omega)]
      omega
  cases bigEndian <;> simp only [pos, wordEnd, reduceIte, Bool.false_eq_true, Bool.true_eq_false, hlast, hstep] <;>
    split_ifs <;> omega

/-! ### The steps of a table -/

def taken (bigEndian : Bool) (n : ℕ) (p : BitVec w) (steps : List Step) : List Step :=
  steps.filter fun s => s.test.holds (pos bigEndian n p)

def laneWrites (bigEndian : Bool) (n : ℕ) (p : BitVec w) (mem : Memory w) (steps : List Step) : List (ℕ × BitVec 8) :=
  (taken bigEndian n p steps).map fun s => (s.shift / 8, mem (getOffset bigEndian p s.offset))

def memWrites (bigEndian : Bool) (n : ℕ) (p arg1 : BitVec w) (steps : List Step) : List (BitVec w × BitVec 8) :=
  (taken bigEndian n p steps).map fun s => (getOffset bigEndian p s.offset, byte arg1 (s.shift / 8))

section Steps

variable {bigEndian} {left : Bool} {steps : List Step} (ht : Table n left steps)
include ht

theorem Table.mem_taken {p : BitVec w} {s : Step} (hs : s ∈ taken bigEndian n p steps) :
    s ∈ steps ∧ if left then pos bigEndian n p ≤ s.shift / 8 else s.shift / 8 ≤ pos bigEndian n p := by
  obtain ⟨hs, htest⟩ := List.mem_filter.mp hs
  rw [ht.test s hs _ (pos_lt bigEndian (by have := ht.lane s hs; omega) p)] at htest
  refine ⟨hs, ?_⟩
  cases left <;> simpa using htest

theorem Table.exists_taken {p : BitVec w} {j : ℕ} (hj : j < n) (h : if left then pos bigEndian n p ≤ j else j ≤ pos bigEndian n p) :
    ∃ s ∈ taken bigEndian n p steps, s.shift / 8 = j := by
  obtain ⟨s, hs, rfl⟩ := ht.covers j hj
  refine ⟨s, List.mem_filter.mpr ⟨hs, ?_⟩, rfl⟩
  rw [ht.test s hs _ (pos_lt bigEndian (by omega) p)]
  cases left <;> simpa using h

theorem Table.getOffset_wordEnd {a p : BitVec w} {s : Step} (hp : p = wordEnd bigEndian left n a)
    (hs : s ∈ taken bigEndian n p steps) :
    getOffset bigEndian p s.offset = a + BitVec.ofNat w (place bigEndian n (s.shift / 8)) := by
  obtain ⟨hs, -⟩ := ht.mem_taken hs
  rw [ht.offset s hs, hp]
  exact Unaligned.getOffset_wordEnd bigEndian left a (ht.lane s hs).1

theorem Table.getOffset_div (hd : n ∣ 2 ^ w) {p : BitVec w} {s : Step} (hs : s ∈ taken bigEndian n p steps) :
    (getOffset bigEndian p s.offset).toNat / n = p.toNat / n := by
  obtain ⟨hs, hpos⟩ := ht.mem_taken hs
  rw [ht.offset s hs]
  exact Unaligned.getOffset_div bigEndian left hd p (ht.lane s hs).1 hpos

theorem Table.laneWrites_eq {a p : BitVec w} (hp : p = wordEnd bigEndian left n a) (mem : Memory w) :
    ∀ q ∈ laneWrites bigEndian n p mem steps, q.2 = byte (mem.load bigEndian n a) q.1 := by
  intro q hq
  obtain ⟨s, hs, rfl⟩ := List.mem_map.mp hq
  rw [byte_load _ _ _ _ _ (ht.lane s (ht.mem_taken hs).1).1, ht.getOffset_wordEnd hp hs]

end Steps

theorem mem_lanes {left right : List Step} (hl : Table n true left) (hr : Table n false right) (hd : n ∣ 2 ^ w)
    (a : BitVec w) {j : ℕ} (hj : j < n) :
    (∃ s ∈ taken bigEndian n (wordEnd bigEndian true n a) left, s.shift / 8 = j) ∨
      ∃ s ∈ taken bigEndian n (wordEnd bigEndian false n a) right, s.shift / 8 = j := by
  have hpos := pos_wordEnd bigEndian hd (by omega) a
  by_cases h : pos bigEndian n (wordEnd bigEndian true n a) ≤ j
  · exact Or.inl (hl.exists_taken hj (by simpa using h))
  · exact Or.inr (hr.exists_taken hj (by simp; omega))

/-! ### Loads -/

theorem byte_loadStep {steps : List LoadStep} (ht : ∀ s ∈ steps, s.shift / 8 < n ∧ s.shift % 8 = 0) (hm : Masked n steps)
    (hw : 8 * n ≤ w) {s : LoadStep} (hs : s ∈ steps) (arg1 : BitVec w) (tmp : BitVec 8) {j : ℕ} (hj : j < n) :
    byte ((arg1 &&& BitVec.ofNat w s.mask) ||| (tmp.setWidth w <<< s.shift)) j =
      Function.update (byte arg1) (s.shift / 8) tmp j := by
  have hlane := ht s hs
  apply BitVec.eq_of_getLsbD_eq
  intro i hi
  have hmask := hm s hs (8 * j + i) (by omega)
  rw [getLsbD_byte, BitVec.getLsbD_or, BitVec.getLsbD_and, BitVec.getLsbD_ofNat, hmask, BitVec.getLsbD_shiftLeft,
    BitVec.getLsbD_setWidth, show (8 * j + i) / 8 = j by omega]
  by_cases h : j = s.shift / 8
  · subst h
    simp [hi, show 8 * (s.shift / 8) + i - s.shift = i by omega, show 8 * (s.shift / 8) + i < w by omega,
      show ¬8 * (s.shift / 8) + i < s.shift by omega, show i < w by omega]
  · have hout : (8 * j + i < s.shift) ∨ 8 ≤ 8 * j + i - s.shift := by omega
    rw [Function.update_of_ne h, getLsbD_byte]
    rcases hout with hout | hout
    · simp [hi, h, hout, show 8 * j + i < w by omega]
    · simp [hi, h, BitVec.getLsbD_of_ge tmp _ hout, show 8 * j + i < w by omega]

/-- The lanes of the register after the steps of a load. -/
theorem loadPart_run {σ : Type} {lmask : BitVec w → BitVec w} {ldfun : BitVec w → StateM σ (BitVec 8)} {mem : Memory w}
    {st : σ} {p : BitVec w} (hl : (lmask p).toNat = pos bigEndian n p) (hld : ∀ x, (ldfun x).run st = pure (mem x, st)) (hw : 8 * n ≤ w)
    (steps : List LoadStep) (ht : ∀ s ∈ steps, s.shift / 8 < n ∧ s.shift % 8 = 0) (hm : Masked n steps) (arg1 : BitVec w) :
    ∃ r, (loadPart bigEndian lmask steps ldfun arg1 p).run st = pure (r, st) ∧
      ∀ j < n, byte r j = patch (byte arg1) (laneWrites bigEndian n p mem (steps.map LoadStep.toStep)) j := by
  induction steps generalizing arg1 with
  | nil => exact ⟨arg1, rfl, fun j _ => rfl⟩
  | cons s steps ih =>
    have hm' : Masked n steps := fun q hq => hm q (List.mem_cons_of_mem s hq)
    have ih := ih (fun q hq => ht q (List.mem_cons_of_mem s hq)) hm'
    simp only [loadPart, List.foldlM_cons, hl]
    by_cases hs : s.test.holds (pos bigEndian n p) = true
    · obtain ⟨r, hr, hb⟩ := ih ((arg1 &&& BitVec.ofNat w s.mask) ||| ((mem (getOffset bigEndian p s.offset)).setWidth w <<< s.shift))
      refine ⟨r, ?_, fun j hj => (hb j hj).trans ?_⟩
      · simpa [hs, hld, loadPart, hl] using hr
      · have hfirst := byte_loadStep ht hm hw (List.mem_cons_self) arg1 (mem (getOffset bigEndian p s.offset)) hj
        rw [patch_congr _ hfirst]
        simp [laneWrites, taken, hs, patch]
    · obtain ⟨r, hr, hb⟩ := ih arg1
      refine ⟨r, ?_, fun j hj => (hb j hj).trans ?_⟩
      · simpa [hs, loadPart, hl] using hr
      · simp [laneWrites, taken, hs]

/-- Two loads on the two ends of a word, `left` telling which one comes first, leave the word in the
lanes of the register. -/
theorem loadPart_pair {σ : Type} {lmask : BitVec w → BitVec w} {ldfun : BitVec w → StateM σ (BitVec 8)} {mem : Memory w}
    {st : σ} (hl : ∀ p, (lmask p).toNat = pos bigEndian n p) (hld : ∀ x, (ldfun x).run st = pure (mem x, st)) (hw : 8 * n ≤ w)
    (hd : n ∣ 2 ^ w) {steps : Bool → List LoadStep} (ht : ∀ e, Table n e ((steps e).map LoadStep.toStep))
    (hm : ∀ e, Masked n (steps e)) {cast : BitVec w → BitVec w} (hc : ∀ r, ∀ j < n, byte (cast r) j = byte r j)
    (left : Bool) (a arg1 : BitVec w) :
    ∃ r, (do
        let r ← loadPart bigEndian lmask (steps left) ldfun arg1 (wordEnd bigEndian left n a)
        loadPart bigEndian lmask (steps !left) ldfun (cast r) (wordEnd bigEndian (!left) n a)).run st = pure (r, st) ∧
      ∀ j < n, byte r j = byte (mem.load bigEndian n a) j := by
  have hlane : ∀ e, ∀ s ∈ steps e, s.shift / 8 < n ∧ s.shift % 8 = 0 :=
    fun e s hs => (ht e).lane s.toStep (List.mem_map_of_mem hs)
  obtain ⟨r, hr, hbr⟩ := loadPart_run bigEndian (hl _) hld hw (steps left) (hlane left) (hm left) arg1
  obtain ⟨q, hq, hbq⟩ := loadPart_run bigEndian (hl _) hld hw (steps !left) (hlane !left) (hm !left) (cast r)
  refine ⟨q, ?_, fun j hj => ?_⟩
  · rw [StateT.run_bind, hr, pure_bind]
    exact hq
  rw [hbq j hj, patch_congr _ ((hc r j hj).trans (hbr j hj)), ← patch_append,
    patch_eq _ (byte (mem.load bigEndian n a)) _ fun p hp => ?_, if_pos ?_]
  · have hmem := mem_lanes bigEndian (ht true) (ht false) hd a hj
    simp only [List.map_append, laneWrites, List.map_map, List.mem_append, List.mem_map, Function.comp]
    cases left
    · exact hmem.symm
    · exact hmem
  · rcases List.mem_append.mp hp with hp | hp
    · exact (ht left).laneWrites_eq rfl mem p hp
    · exact (ht !left).laneWrites_eq rfl mem p hp

/-! ### Stores -/

/-- Memory in the view of a mode after the steps of a store. -/
theorem storePart_run {σ : Type} {lmask : BitVec w → BitVec w} {stfun : BitVec w → BitVec 8 → StateM σ Unit}
    {view : σ → Memory w} {p : BitVec w} (hl : (lmask p).toNat = pos bigEndian n p)
    (hst : ∀ x v st, view ((stfun x v).run st).2 = Function.update (view st) x v) (steps : List Step)
    (ht : ∀ s ∈ steps, s.shift / 8 < n ∧ s.shift % 8 = 0) (arg1 : BitVec w) (st : σ) :
    view ((storePart bigEndian lmask steps stfun arg1 p).run st).2 = patch (view st) (memWrites bigEndian n p arg1 steps) := by
  induction steps generalizing st with
  | nil => rfl
  | cons s steps ih =>
    have ih := ih fun q hq => ht q (List.mem_cons_of_mem s hq)
    have hbyte : (arg1 >>> s.shift).setWidth 8 = byte arg1 (s.shift / 8) := by
      have hs := (ht s List.mem_cons_self).2
      apply BitVec.eq_of_getLsbD_eq
      intro i hi
      rw [getLsbD_byte]
      simp [hi, show 8 * (s.shift / 8) = s.shift by omega]
    have hcons : storePart bigEndian lmask (s :: steps) stfun arg1 p =
        (if s.test.holds (lmask p).toNat then stfun (getOffset bigEndian p s.offset) ((arg1 >>> s.shift).setWidth 8) else pure ()) >>=
          fun _ => storePart bigEndian lmask steps stfun arg1 p := rfl
    by_cases hs : s.test.holds (pos bigEndian n p) = true
    · have hrun : (storePart bigEndian lmask (s :: steps) stfun arg1 p).run st =
          (storePart bigEndian lmask steps stfun arg1 p).run
            ((stfun (getOffset bigEndian p s.offset) (byte arg1 (s.shift / 8))).run st).2 := by
        rw [hcons, hl, if_pos hs, hbyte]
        rfl
      rw [hrun, ih, hst]
      simp [memWrites, taken, hs, patch]
    · have hrun : (storePart bigEndian lmask (s :: steps) stfun arg1 p).run st =
          (storePart bigEndian lmask steps stfun arg1 p).run st := by
        rw [hcons, hl, if_neg hs]
        rfl
      rw [hrun, ih]
      simp [memWrites, taken, hs]

theorem byte_setWidth (v : BitVec w) {j : ℕ} (hj : j < n) : byte (v.setWidth (8 * n)) j = byte v j := by
  apply BitVec.eq_of_getLsbD_eq
  intro i hi
  rw [getLsbD_byte, getLsbD_byte, BitVec.getLsbD_setWidth]
  simp [show 8 * j + i < 8 * n by omega]

theorem place_lt {j : ℕ} (hj : j < n) : place bigEndian n j < n := by
  rw [place]
  split_ifs <;> omega

theorem place_place {j : ℕ} (hj : j < n) : place bigEndian n (place bigEndian n j) = j := by
  rw [place, place]
  split_ifs <;> omega

theorem toNat_add_sub (a : BitVec w) {k : ℕ} (hk : k < 2 ^ w) : (a + BitVec.ofNat w k - a).toNat = k := by
  rw [BitVec.add_comm, BitVec.add_sub_cancel, BitVec.toNat_ofNat, Nat.mod_eq_of_lt hk]

theorem Table.memWrites_eq {left : Bool} {steps : List Step} (ht : Table n left steps) (hw : n ≤ 2 ^ w) {a p : BitVec w}
    (hp : p = wordEnd bigEndian left n a) (arg1 : BitVec w) :
    ∀ q ∈ memWrites bigEndian n p arg1 steps, q.2 = byte arg1 (place bigEndian n (q.1 - a).toNat) := by
  intro q hq
  obtain ⟨s, hs, rfl⟩ := List.mem_map.mp hq
  have hlane := (ht.lane s (ht.mem_taken hs).1).1
  have hlt := place_lt bigEndian hlane
  simp only [ht.getOffset_wordEnd hp hs, toNat_add_sub a (lt_of_lt_of_le hlt hw), place_place bigEndian hlane]

/-- The stores on the two ends write the bytes of the word and no others. -/
theorem mem_written {steps : Bool → List Step} (ht : ∀ e, Table n e (steps e)) (hd : n ∣ 2 ^ w) (left : Bool)
    (a arg1 x : BitVec w) :
    x ∈ (memWrites bigEndian n (wordEnd bigEndian left n a) arg1 (steps left) ++
      memWrites bigEndian n (wordEnd bigEndian (!left) n a) arg1 (steps !left)).map Prod.fst ↔ (x - a).toNat < n := by
  have hw : n ≤ 2 ^ w := Nat.le_of_dvd (Nat.two_pow_pos w) hd
  have haddr : ∀ e, ∀ y ∈ (memWrites bigEndian n (wordEnd bigEndian e n a) arg1 (steps e)).map Prod.fst, (y - a).toNat < n := by
    intro e y hy
    simp only [memWrites, List.map_map, List.mem_map, Function.comp] at hy
    obtain ⟨s, hs, rfl⟩ := hy
    have hlt := place_lt bigEndian ((ht e).lane s ((ht e).mem_taken hs).1).1
    rw [(ht e).getOffset_wordEnd rfl hs, toNat_add_sub a (lt_of_lt_of_le hlt hw)]
    exact hlt
  have hcover : ∀ e, (∃ s ∈ taken bigEndian n (wordEnd bigEndian e n a) (steps e), s.shift / 8 = place bigEndian n (x - a).toNat) →
      (x - a).toNat < n → x ∈ (memWrites bigEndian n (wordEnd bigEndian e n a) arg1 (steps e)).map Prod.fst := by
    intro e h hx
    obtain ⟨s, hs, hlane⟩ := h
    simp only [memWrites, List.map_map, List.mem_map, Function.comp]
    refine ⟨s, hs, ?_⟩
    rw [(ht e).getOffset_wordEnd rfl hs, hlane, place_place bigEndian hx, BitVec.ofNat_toNat, BitVec.setWidth_eq,
      BitVec.add_comm, BitVec.sub_add_cancel]
  rw [List.map_append, List.mem_append]
  constructor
  · rintro (h | h)
    · exact haddr _ x h
    · exact haddr _ x h
  · intro hx
    have hlanes := mem_lanes bigEndian (ht true) (ht false) hd a (place_lt bigEndian hx)
    cases left
    · exact hlanes.symm.imp (fun h => hcover false h hx) fun h => hcover true h hx
    · exact hlanes.imp (fun h => hcover true h hx) fun h => hcover false h hx

/-- Two stores on the two ends of a word, `left` telling which one comes first, store the word. -/
theorem storePart_pair {σ : Type} {lmask : BitVec w → BitVec w} {stfun : BitVec w → BitVec 8 → StateM σ Unit}
    {view : σ → Memory w} (hl : ∀ p, (lmask p).toNat = pos bigEndian n p)
    (hst : ∀ x v st, view ((stfun x v).run st).2 = Function.update (view st) x v) (hd : n ∣ 2 ^ w)
    {steps : Bool → List Step} (ht : ∀ e, Table n e (steps e)) (left : Bool) (a arg1 : BitVec w) (st : σ) :
    view ((do
        storePart bigEndian lmask (steps left) stfun arg1 (wordEnd bigEndian left n a)
        storePart bigEndian lmask (steps !left) stfun arg1 (wordEnd bigEndian (!left) n a)).run st).2 =
      (view st).store bigEndian n a (arg1.setWidth (8 * n)) := by
  have hw : n ≤ 2 ^ w := Nat.le_of_dvd (Nat.two_pow_pos w) hd
  have hpatch : view ((do
        storePart bigEndian lmask (steps left) stfun arg1 (wordEnd bigEndian left n a)
        storePart bigEndian lmask (steps !left) stfun arg1 (wordEnd bigEndian (!left) n a)).run st).2 =
      patch (view st) (memWrites bigEndian n (wordEnd bigEndian left n a) arg1 (steps left) ++
        memWrites bigEndian n (wordEnd bigEndian (!left) n a) arg1 (steps !left)) := by
    rw [patch_append, ← storePart_run bigEndian (hl _) hst (steps left) (ht left).lane arg1 st]
    exact storePart_run bigEndian (hl _) hst (steps !left) (ht !left).lane arg1 _
  rw [hpatch]
  funext x
  rw [patch_eq _ (fun y => byte arg1 (place bigEndian n (y - a).toNat)) _ fun p hp => ?_, Memory.store]
  · simp only [mem_written bigEndian ht hd left a arg1 x]
    split_ifs with hx
    · exact (byte_setWidth arg1 (place_lt bigEndian hx)).symm
    · rfl
  · rcases List.mem_append.mp hp with hp | hp
    · exact (ht left).memWrites_eq bigEndian hw rfl arg1 p hp
    · exact (ht !left).memWrites_eq bigEndian hw rfl arg1 p hp

/-! ### What a single helper touches -/

/-- Whatever the byte accesses do, `helper` at an address depends on those in the aligned `n` bytes of the
address only. -/
def Within {β γ : Type} (n : ℕ) (helper : (Mode → BitVec w → β) → BitVec w → γ) : Prop :=
  ∀ (f g : Mode → BitVec w → β) (p : BitVec w), (∀ k x, x.toNat / n = p.toNat / n → f k x = g k x) → helper f p = helper g p

theorem access_congr {β : Type} {f g : Mode → BitVec w → β} {x : BitVec w} (memIdx : ℤ) (h : ∀ k, f k x = g k x) :
    access f memIdx x = access g memIdx x := by
  simp only [access]
  split_ifs <;> exact h _

section Within

variable {bigEndian} {lmask : BitVec w → BitVec w} (hl : ∀ p, (lmask p).toNat = pos bigEndian n p) (hd : n ∣ 2 ^ w) {left : Bool}
include hl hd

theorem loadPart_within {steps : List LoadStep} (ht : Table n left (steps.map LoadStep.toStep)) (arg1 : BitVec w) (memIdx : ℤ) :
    Within n fun (ldub : Mode → BitVec w → m (BitVec 8)) p => loadPart bigEndian lmask steps (access ldub memIdx) arg1 p := by
  intro f g p h
  have hstep : ∀ s ∈ steps, s.test.holds (pos bigEndian n p) = true →
      access f memIdx (getOffset bigEndian p s.offset) = access g memIdx (getOffset bigEndian p s.offset) := by
    intro s hs htest
    have hs : s.toStep ∈ taken bigEndian n p (steps.map LoadStep.toStep) := List.mem_filter.mpr ⟨List.mem_map_of_mem hs, htest⟩
    exact access_congr memIdx fun k => h k _ (ht.getOffset_div hd hs)
  simp only [loadPart, hl]
  clear ht
  induction steps generalizing arg1 with
  | nil => rfl
  | cons s steps ih =>
    have ih := fun arg1 => ih arg1 fun q hq => hstep q (List.mem_cons_of_mem s hq)
    simp only [List.foldlM_cons, ih]
    by_cases hs : s.test.holds (pos bigEndian n p) = true
    · simp only [hs, if_true, hstep s List.mem_cons_self hs]
    · simp only [if_neg hs]

theorem storePart_within {steps : List Step} (ht : Table n left steps) (arg1 : BitVec w) (memIdx : ℤ) :
    Within n fun (stb : Mode → BitVec w → BitVec 8 → m Unit) p => storePart bigEndian lmask steps (access stb memIdx) arg1 p := by
  intro f g p h
  have hstep : ∀ s ∈ steps, s.test.holds (pos bigEndian n p) = true →
      access f memIdx (getOffset bigEndian p s.offset) = access g memIdx (getOffset bigEndian p s.offset) := by
    intro s hs htest
    have hs : s ∈ taken bigEndian n p steps := List.mem_filter.mpr ⟨hs, htest⟩
    exact access_congr memIdx fun k => h k _ (ht.getOffset_div hd hs)
  simp only [storePart, hl]
  clear ht
  induction steps with
  | nil => rfl
  | cons s steps ih =>
    have ih := ih fun q hq => hstep q (List.mem_cons_of_mem s hq)
    simp only [List.forM, ih]
    by_cases hs : s.test.holds (pos bigEndian n p) = true
    · simp only [hs, if_true, hstep s List.mem_cons_self hs]
    · simp only [if_neg hs]

end Within

/-! ### The pairs -/

/-- The widths of `target_ulong`. -/
inductive Target
  | mips32
  | mips64
  deriving DecidableEq, Repr

def Target.bits : Target → ℕ
  | mips32 => 32
  | mips64 => 64

theorem Target.le_bits (t : Target) : 32 ≤ t.bits := by
  cases t <;> decide

theorem Target.dvd_two_pow (t : Target) : 4 ∣ 2 ^ t.bits := by
  cases t <;> decide

/-- A machine whose state holds, for every mode, the memory that the byte accesses of the mode reach. What
a store of one mode does to the memory of another is left open. -/
structure Space (σ : Type) (w : ℕ) where
  view : Mode → σ → Memory w
  write : Mode → BitVec w → BitVec 8 → σ → σ
  view_write : ∀ k x v st, view k (write k x v st) = Function.update (view k st) x v

namespace Space

variable {σ : Type} (sp : Space σ w)

def ldub (k : Mode) (x : BitVec w) : StateM σ (BitVec 8) := do return sp.view k (← get) x

def stb (k : Mode) (x : BitVec w) (v : BitVec 8) : StateM σ Unit := modify (sp.write k x v)

/-- The memory reached with `mem_idx`. -/
def mem (memIdx : ℤ) : σ → Memory w := access sp.view memIdx

theorem run_ldub (memIdx : ℤ) (st : σ) (x : BitVec w) : (access sp.ldub memIdx x).run st = pure (sp.mem memIdx st x, st) := by
  rw [mem, access, access]
  split_ifs <;> rfl

theorem mem_stb (memIdx : ℤ) (x : BitVec w) (v : BitVec 8) (st : σ) :
    sp.mem memIdx ((access sp.stb memIdx x v).run st).2 = Function.update (sp.mem memIdx st) x v := by
  rw [mem, access, access]
  split_ifs <;> exact sp.view_write _ x v st

end Space

/-- The loads on the two ends of the `n` bytes at any address give `word` of them, in either order and
whatever the register held, and leave the state as it was. -/
def LoadPair {σ : Type} (bigEndian : Bool) (n : ℕ) (mem : σ → Memory w) (word : BitVec (8 * n) → BitVec w)
    (left right : BitVec w → BitVec w → StateM σ (BitVec w)) : Prop :=
  ∀ (a arg1 : BitVec w) (st : σ),
    (left arg1 (wordEnd bigEndian true n a) >>= fun r => right r (wordEnd bigEndian false n a)).run st =
        pure (word ((mem st).load bigEndian n a), st) ∧
      (right arg1 (wordEnd bigEndian false n a) >>= fun r => left r (wordEnd bigEndian true n a)).run st =
        pure (word ((mem st).load bigEndian n a), st)

/-- The stores on the two ends of the `n` bytes at any address write these bytes with the low part of the
register, in either order, and no other byte. -/
def StorePair {σ : Type} (bigEndian : Bool) (n : ℕ) (mem : σ → Memory w) (left right : BitVec w → BitVec w → StateM σ Unit) : Prop :=
  ∀ (a arg1 : BitVec w) (st : σ),
    mem ((left arg1 (wordEnd bigEndian true n a) >>= fun _ => right arg1 (wordEnd bigEndian false n a)).run st).2 =
        (mem st).store bigEndian n a (arg1.setWidth (8 * n)) ∧
      mem ((right arg1 (wordEnd bigEndian false n a) >>= fun _ => left arg1 (wordEnd bigEndian true n a)).run st).2 =
        (mem st).store bigEndian n a (arg1.setWidth (8 * n))

theorem byte_int32 (hw : 32 ≤ w) (r : BitVec w) : ∀ j < 4, byte (int32 r) j = byte r j := by
  intro j hj
  apply BitVec.eq_of_getLsbD_eq
  intro i hi
  rw [getLsbD_byte, getLsbD_byte, int32, BitVec.getLsbD_signExtend, BitVec.getLsbD_setWidth]
  simp [show 8 * j + i < 32 by omega, show 8 * j + i < w by omega]

theorem setWidth_eq_of_byte {r : BitVec w} {v : BitVec (8 * n)} (h : ∀ j < n, byte r j = byte v j) : r.setWidth (8 * n) = v :=
  eq_of_byte_eq n _ v fun j hj => (byte_setWidth r hj).trans (h j hj)

section Pairs

variable {σ : Type}

theorem helperLwl_helperLwr (t : Target) (sp : Space σ t.bits) (memIdx : ℤ) :
    LoadPair bigEndian 4 (sp.mem memIdx) (BitVec.signExtend t.bits) (fun r p => helperLwl bigEndian sp.ldub r p memIdx)
      fun r p => helperLwr bigEndian sp.ldub r p memIdx := by
  have ht : ∀ e, Table 4 e ((cond e lwlSteps lwrSteps).map LoadStep.toStep) := fun e => by
    cases e
    · exact lwrSteps_table
    · exact lwlSteps_table
  have hm : ∀ e, Masked 4 (cond e lwlSteps lwrSteps) := fun e => by
    cases e
    · exact lwrSteps_masked
    · exact lwlSteps_masked
  have hpair := fun st => loadPart_pair bigEndian (toNat_getLmask bigEndian (by have := t.le_bits; omega))
    (sp.run_ldub memIdx st) t.le_bits t.dvd_two_pow ht hm (byte_int32 t.le_bits)
  intro a arg1 st
  have hword : ∀ {r : BitVec t.bits}, (∀ j < 4, byte r j = byte ((sp.mem memIdx st).load bigEndian 4 a) j) →
      int32 r = ((sp.mem memIdx st).load bigEndian 4 a).signExtend t.bits :=
    fun h => congrArg (BitVec.signExtend t.bits) (setWidth_eq_of_byte h)
  constructor
  · obtain ⟨r, hr, hb⟩ := hpair st true a arg1
    have hrun := congrArg (fun x => x >>= fun q => pure (int32 q.1, q.2)) hr
    rw [← hword hb]
    simpa [helperLwl, helperLwr] using hrun
  · obtain ⟨r, hr, hb⟩ := hpair st false a arg1
    have hrun := congrArg (fun x => x >>= fun q => pure (int32 q.1, q.2)) hr
    rw [← hword hb]
    simpa [helperLwl, helperLwr] using hrun

theorem helperLdl_helperLdr (sp : Space σ 64) (memIdx : ℤ) :
    LoadPair bigEndian 8 (sp.mem memIdx) id (fun r p => helperLdl bigEndian sp.ldub r p memIdx)
      fun r p => helperLdr bigEndian sp.ldub r p memIdx := by
  have ht : ∀ e, Table 8 e ((cond e ldlSteps ldrSteps).map LoadStep.toStep) := fun e => by
    cases e
    · exact ldrSteps_table
    · exact ldlSteps_table
  have hm : ∀ e, Masked 8 (cond e ldlSteps ldrSteps) := fun e => by
    cases e
    · exact ldrSteps_masked
    · exact ldlSteps_masked
  have hpair := fun st => loadPart_pair bigEndian (toNat_getLmask64 bigEndian (by decide))
    (sp.run_ldub memIdx st) (by decide) (by decide) ht hm (fun (r : BitVec 64) j _ => rfl)
  intro a arg1 st
  have hword : ∀ {r : BitVec 64}, (∀ j < 8, byte r j = byte ((sp.mem memIdx st).load bigEndian 8 a) j) →
      r = (sp.mem memIdx st).load bigEndian 8 a := fun h => eq_of_byte_eq 8 _ _ h
  constructor
  · obtain ⟨r, hr, hb⟩ := hpair st true a arg1
    rw [id, ← hword hb]
    exact hr
  · obtain ⟨r, hr, hb⟩ := hpair st false a arg1
    rw [id, ← hword hb]
    exact hr

theorem helperSwl_helperSwr (t : Target) (sp : Space σ t.bits) (memIdx : ℤ) :
    StorePair bigEndian 4 (sp.mem memIdx) (fun r p => helperSwl bigEndian sp.stb r p memIdx)
      fun r p => helperSwr bigEndian sp.stb r p memIdx := by
  have ht : ∀ e, Table 4 e (cond e swlSteps swrSteps) := fun e => by
    cases e
    · exact swrSteps_table
    · exact swlSteps_table
  have hpair := storePart_pair bigEndian (toNat_getLmask bigEndian (by have := t.le_bits; omega)) (sp.mem_stb memIdx)
    t.dvd_two_pow ht
  exact fun a arg1 st => ⟨hpair true a arg1 st, hpair false a arg1 st⟩

theorem helperSdl_helperSdr (sp : Space σ 64) (memIdx : ℤ) :
    StorePair bigEndian 8 (sp.mem memIdx) (fun r p => helperSdl bigEndian sp.stb r p memIdx)
      fun r p => helperSdr bigEndian sp.stb r p memIdx := by
  have ht : ∀ e, Table 8 e (cond e sdlSteps sdrSteps) := fun e => by
    cases e
    · exact sdrSteps_table
    · exact sdlSteps_table
  have hpair := storePart_pair bigEndian (toNat_getLmask64 bigEndian (by decide)) (sp.mem_stb memIdx) (by decide) ht
  exact fun a arg1 st => ⟨hpair true a arg1 st, hpair false a arg1 st⟩

end Pairs

/-- In either byte order the helpers on the two ends of a word or a doubleword load or store it whole, and
each of them touches only the aligned word or doubleword of its own address. -/
theorem unaligned_pairs (memIdx : ℤ) :
    (∀ (σ : Type) (t : Target) (sp : Space σ t.bits),
      LoadPair bigEndian 4 (sp.mem memIdx) (BitVec.signExtend t.bits) (fun r p => helperLwl bigEndian sp.ldub r p memIdx)
          (fun r p => helperLwr bigEndian sp.ldub r p memIdx) ∧
        StorePair bigEndian 4 (sp.mem memIdx) (fun r p => helperSwl bigEndian sp.stb r p memIdx)
          fun r p => helperSwr bigEndian sp.stb r p memIdx) ∧
    (∀ (σ : Type) (sp : Space σ 64),
      LoadPair bigEndian 8 (sp.mem memIdx) id (fun r p => helperLdl bigEndian sp.ldub r p memIdx)
          (fun r p => helperLdr bigEndian sp.ldub r p memIdx) ∧
        StorePair bigEndian 8 (sp.mem memIdx) (fun r p => helperSdl bigEndian sp.stb r p memIdx)
          fun r p => helperSdr bigEndian sp.stb r p memIdx) ∧
    (∀ (m : Type → Type) [Monad m] (t : Target) (arg1 : BitVec t.bits),
      (Within 4 fun (ldub : Mode → BitVec t.bits → m (BitVec 8)) p => helperLwl bigEndian ldub arg1 p memIdx) ∧
        (Within 4 fun (ldub : Mode → BitVec t.bits → m (BitVec 8)) p => helperLwr bigEndian ldub arg1 p memIdx) ∧
        (Within 4 fun (stb : Mode → BitVec t.bits → BitVec 8 → m Unit) p => helperSwl bigEndian stb arg1 p memIdx) ∧
        Within 4 fun (stb : Mode → BitVec t.bits → BitVec 8 → m Unit) p => helperSwr bigEndian stb arg1 p memIdx) ∧
    ∀ (m : Type → Type) [Monad m] (arg1 : BitVec 64),
      (Within 8 fun (ldub : Mode → BitVec 64 → m (BitVec 8)) p => helperLdl bigEndian ldub arg1 p memIdx) ∧
        (Within 8 fun (ldub : Mode → BitVec 64 → m (BitVec 8)) p => helperLdr bigEndian ldub arg1 p memIdx) ∧
        (Within 8 fun (stb : Mode → BitVec 64 → BitVec 8 → m Unit) p => helperSdl bigEndian stb arg1 p memIdx) ∧
        Within 8 fun (stb : Mode → BitVec 64 → BitVec 8 → m Unit) p => helperSdr bigEndian stb arg1 p memIdx := by
  refine ⟨fun σ t sp => ⟨helperLwl_helperLwr bigEndian t sp memIdx, helperSwl_helperSwr bigEndian t sp memIdx⟩,
    fun σ sp => ⟨helperLdl_helperLdr bigEndian sp memIdx, helperSdl_helperSdr bigEndian sp memIdx⟩, ?_, ?_⟩
  · intro m _ t arg1
    have hl := toNat_getLmask (w := t.bits) bigEndian (by have := t.le_bits; omega)
    refine ⟨fun f g p h => ?_, fun f g p h => ?_, storePart_within hl t.dvd_two_pow swlSteps_table arg1 memIdx,
      storePart_within hl t.dvd_two_pow swrSteps_table arg1 memIdx⟩
    · exact congrArg (fun x : m _ => do return int32 (← x))
        (loadPart_within hl t.dvd_two_pow lwlSteps_table arg1 memIdx f g p h)
    · exact congrArg (fun x : m _ => do return int32 (← x))
        (loadPart_within hl t.dvd_two_pow lwrSteps_table arg1 memIdx f g p h)
  · intro m _ arg1
    have hl := toNat_getLmask64 (w := 64) bigEndian (by decide)
    exact ⟨loadPart_within hl (by decide) ldlSteps_table arg1 memIdx, loadPart_within hl (by decide) ldrSteps_table arg1 memIdx,
      storePart_within hl (by decide) sdlSteps_table arg1 memIdx, storePart_within hl (by decide) sdrSteps_table arg1 memIdx⟩

example : Id.run (do
      let r ← helperLwl true (fun _ x => pure (x.setWidth 8)) (0xffffffff : BitVec 32) 0x82 0
      helperLwr true (fun _ x => pure (x.setWidth 8)) r 0x85 0) = (0x82838485 : BitVec 32) := by
  decide

end Ar7Qemu.Mips.Unaligned
