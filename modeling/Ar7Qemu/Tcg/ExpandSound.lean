import Ar7Qemu.Tcg.Expand
import Mathlib.Tactic.IntervalCases

/-! The expansions of 64-bit operations on a 32-bit host against the operations themselves. Each
generator sets one temporary and keeps the others that are in use; an expansion sets the two halves
of its destination, one after the other, and what the second is computed from decides. -/

namespace Ar7Qemu.Tcg.Expand

open Lib.WordBytes

/-! ### Halves -/

section Halves

theorem getLsbD_lo (v : BitVec 64) (i : ℕ) : (lo v).getLsbD i = (decide (i < 32) && v.getLsbD i) :=
  BitVec.getLsbD_setWidth ..

theorem getLsbD_hi (v : BitVec 64) (i : ℕ) : (hi v).getLsbD i = (decide (i < 32) && v.getLsbD (32 + i)) :=
  BitVec.getLsbD_extractLsb' ..

theorem getLsbD_wide (a b : BitVec 32) (i : ℕ) :
    BitVec.getLsbD (w := 64) (a ++ b) i = if i < 32 then b.getLsbD i else a.getLsbD (i - 32) :=
  BitVec.getLsbD_append

theorem lo_append (a b : BitVec 32) : lo (a ++ b) = b := by
  apply BitVec.eq_of_getLsbD_eq
  intro i hi
  rw [getLsbD_lo, getLsbD_wide, if_pos hi]
  simp [hi]

theorem hi_append (a b : BitVec 32) : hi (a ++ b) = a := by
  apply BitVec.eq_of_getLsbD_eq
  intro i hi
  rw [getLsbD_hi, getLsbD_wide, if_neg (by omega), Nat.add_sub_cancel_left]
  simp [hi]

theorem lo_setWidth {n : ℕ} (x : BitVec n) : lo (x.setWidth 64) = x.setWidth 32 := by
  apply BitVec.eq_of_getLsbD_eq
  intro i hi
  rw [getLsbD_lo, BitVec.getLsbD_setWidth, BitVec.getLsbD_setWidth]
  simp [hi, show i < 64 by omega]

theorem hi_setWidth {n : ℕ} (hn : n ≤ 32) (x : BitVec n) : hi (x.setWidth 64) = 0#32 := by
  apply BitVec.eq_of_getLsbD_eq
  intro i hi
  rw [getLsbD_hi, BitVec.getLsbD_setWidth, BitVec.getLsbD_of_ge x _ (by omega)]
  simp

theorem lo_signExtend {n : ℕ} (x : BitVec n) : lo (x.signExtend 64) = x.signExtend 32 := by
  apply BitVec.eq_of_getLsbD_eq
  intro i hi
  rw [getLsbD_lo, BitVec.getLsbD_signExtend, BitVec.getLsbD_signExtend]
  simp [hi, show i < 64 by omega]

theorem getLsbD_sign (x : BitVec 32) {i : ℕ} (hi : i < 32) : (x.sshiftRight 31).getLsbD i = x.msb := by
  rw [BitVec.getLsbD_sshiftRight]
  by_cases h0 : i = 0
  · subst h0
    simp [BitVec.msb_eq_getLsbD_last]
  · simp [show ¬31 + i < 32 by omega, show ¬32 ≤ i by omega]

theorem sign_eq_iff (x y : BitVec 32) : x.sshiftRight 31 = y.sshiftRight 31 ↔ x.msb = y.msb := by
  constructor
  · intro heq
    rw [← getLsbD_sign x (i := 0) (by decide), heq, getLsbD_sign y (by decide)]
  · intro heq
    apply BitVec.eq_of_getLsbD_eq
    intro i hi
    rw [getLsbD_sign x hi, getLsbD_sign y hi, heq]

theorem msb_signExtend {n : ℕ} (h0 : 0 < n) (hn : n ≤ 32) (x : BitVec n) : (x.signExtend 32).msb = x.msb := by
  rw [BitVec.msb_eq_getLsbD_last, BitVec.getLsbD_signExtend]
  by_cases hlt : 32 - 1 < n
  · obtain rfl : n = 32 := by omega
    simp [BitVec.msb_eq_getLsbD_last]
  · simp [hlt]

theorem hi_signExtend {n : ℕ} (h0 : 0 < n) (hn : n ≤ 32) (x : BitVec n) :
    hi (x.signExtend 64) = (x.signExtend 32).sshiftRight 31 := by
  apply BitVec.eq_of_getLsbD_eq
  intro i hi
  rw [getLsbD_hi, BitVec.getLsbD_signExtend, getLsbD_sign _ hi, msb_signExtend h0 hn, if_neg (by omega)]
  simp [hi, show 32 + i < 64 by omega]

theorem lo_load (m : Memory 32) (bigEndian : Bool) (a : BitVec 32) :
    lo (m.load bigEndian 8 a) = m.load bigEndian 4 (if bigEndian then a + 4#32 else a) := by
  apply BitVec.eq_of_getLsbD_eq
  intro i hi
  rw [getLsbD_lo, getLsbD_load, getLsbD_load]
  have haddr : a + BitVec.ofNat 32 (place bigEndian 8 (i / 8)) =
      (if bigEndian then a + 4#32 else a) + BitVec.ofNat 32 (place bigEndian 4 (i / 8)) := by
    cases bigEndian with
    | false => rfl
    | true =>
      apply BitVec.eq_of_toNat_eq
      simp [place]
      omega
  simp [haddr, hi, show i < 64 by omega]

theorem hi_load (m : Memory 32) (bigEndian : Bool) (a : BitVec 32) :
    hi (m.load bigEndian 8 a) = m.load bigEndian 4 (if bigEndian then a else a + 4#32) := by
  apply BitVec.eq_of_getLsbD_eq
  intro i hi
  rw [getLsbD_hi, getLsbD_load, getLsbD_load]
  have haddr : a + BitVec.ofNat 32 (place bigEndian 8 ((32 + i) / 8)) =
      (if bigEndian then a else a + 4#32) + BitVec.ofNat 32 (place bigEndian 4 (i / 8)) := by
    cases bigEndian with
    | false =>
      apply BitVec.eq_of_toNat_eq
      simp [place]
      omega
    | true =>
      apply BitVec.eq_of_toNat_eq
      simp [place]
      omega
  simp [haddr, hi, show 32 + i < 64 by omega, show (32 + i) % 8 = i % 8 by omega]

theorem lo_bswap (a b : BitVec 32) : lo (bswap 8 (a ++ b)) = bswap 4 a := by
  apply BitVec.eq_of_getLsbD_eq
  intro i hi
  rw [getLsbD_lo, getLsbD_bswap, getLsbD_bswap, getLsbD_wide, if_neg (by omega)]
  simp [hi, show i < 64 by omega, show 8 * (8 - 1 - i / 8) + i % 8 - 32 = 8 * (4 - 1 - i / 8) + i % 8 by omega]

theorem hi_bswap (a b : BitVec 32) : hi (bswap 8 (a ++ b)) = bswap 4 b := by
  apply BitVec.eq_of_getLsbD_eq
  intro i hi
  rw [getLsbD_hi, getLsbD_bswap, getLsbD_bswap, getLsbD_wide, if_pos (by omega)]
  simp [hi, show 32 + i < 64 by omega,
    show 8 * (8 - 1 - (32 + i) / 8) + (32 + i) % 8 = 8 * (4 - 1 - i / 8) + i % 8 by omega]

end Halves

/-! ### Words -/

section Words

theorem sshiftRight_shiftLeft {w n : ℕ} (h0 : 0 < n) (hn : n ≤ w) (x : BitVec w) :
    (x <<< (w - n)).sshiftRight (w - n) = (x.setWidth n).signExtend w := by
  apply BitVec.eq_of_getLsbD_eq
  intro i hi
  have hmsb : (x <<< (w - n)).msb = (x.setWidth n).msb := by
    rw [BitVec.msb_eq_getLsbD_last, BitVec.msb_eq_getLsbD_last, BitVec.getLsbD_shiftLeft, BitVec.getLsbD_setWidth]
    simp [show ¬w - 1 < w - n by omega, show w - 1 - (w - n) = n - 1 by omega, show n - 1 < n by omega,
      show w - 1 < w by omega]
  rw [BitVec.getLsbD_sshiftRight, BitVec.getLsbD_signExtend, hmsb]
  by_cases hlt : i < n
  · rw [if_pos hlt, if_pos (by omega), BitVec.getLsbD_shiftLeft, BitVec.getLsbD_setWidth]
    simp [hlt, hi, show ¬w ≤ i by omega, show w - n + i < w by omega]
  · rw [if_neg hlt, if_neg (by omega)]
    simp [hi, show ¬w ≤ i by omega]

theorem and_mask {n : ℕ} (hn : n ≤ 32) (x : BitVec 32) : x &&& BitVec.ofNat 32 (2 ^ n - 1) = (x.setWidth n).setWidth 32 := by
  apply BitVec.eq_of_toNat_eq
  have hle : 2 ^ n ≤ 2 ^ 32 := Nat.pow_le_pow_right (by decide) hn
  have hpos := Nat.two_pow_pos n
  have hlt := Nat.mod_lt x.toNat hpos
  rw [BitVec.toNat_and, BitVec.toNat_ofNat, Nat.mod_eq_of_lt (by omega), Nat.and_two_pow_sub_one_eq_mod,
    BitVec.toNat_setWidth, BitVec.toNat_setWidth]
  exact (Nat.mod_eq_of_lt (by omega)).symm

theorem bswap_four (x : BitVec 32) :
    (x <<< 24 ||| (x &&& 0x0000ff00#32) <<< 8 ||| x >>> 8 &&& 0x0000ff00#32) ||| x >>> 24 = bswap 4 x := by
  apply BitVec.eq_of_getLsbD_eq
  intro i hi
  rw [getLsbD_bswap]
  simp only [BitVec.getLsbD_or, BitVec.getLsbD_and, BitVec.getLsbD_shiftLeft, BitVec.getLsbD_ushiftRight]
  interval_cases i <;> simp

/-- The swap of the two low bytes by shifts and masks. -/
theorem bswap_two {x : BitVec 32} (hx : x.extractLsb' 16 16 = 0#16) :
    x >>> 8 ||| (x &&& 0xff#32) <<< 8 = (bswap 2 (x.setWidth 16)).setWidth 32 := by
  have hzero : ∀ j, 16 ≤ j → x.getLsbD j = false := by
    intro j hj
    have hbit := congrArg (fun y => BitVec.getLsbD y (j - 16)) hx
    by_cases hlt : j < 32
    · simpa [show j - 16 < 16 by omega, show 16 + (j - 16) = j by omega] using hbit
    · exact BitVec.getLsbD_of_ge x j (by omega)
  apply BitVec.eq_of_getLsbD_eq
  intro i hi
  rw [BitVec.getLsbD_setWidth, getLsbD_bswap]
  simp only [BitVec.getLsbD_or, BitVec.getLsbD_and, BitVec.getLsbD_shiftLeft, BitVec.getLsbD_ushiftRight,
    BitVec.getLsbD_setWidth]
  have hmask : ∀ j < 32, (0xff#32).getLsbD j = decide (j < 8) := by decide
  by_cases h8 : i < 8
  · simp [hi, h8, Nat.div_eq_of_lt h8, Nat.mod_eq_of_lt h8, show i < 16 by omega, show 8 + i < 16 by omega]
  · rw [hzero (8 + i) (by omega), hmask (i - 8) (by omega)]
    by_cases h16 : i < 16
    · simp [hi, h8, h16, show i - 8 < 8 by omega, show i / 8 = 1 by omega, show i % 8 = i - 8 by omega,
        show i - 8 < 16 by omega]
    · simp [h16, show ¬i - 8 < 8 by omega]

end Words

/-! ### The generators -/

/-- A temporary that is a variable or one of the `k` scratch temporaries in use. -/
def Old (k : ℕ) : Temp → Prop
  | .scratch n => n < k
  | _ => True

/-- `ret` was set to `v`, and nothing else in use has changed. -/
structure Sets (k : ℕ) (σ σ' : State) (ret : Temp) (v : BitVec 32) : Prop where
  mem : σ'.mem = σ.mem
  self : σ'.vals ret = v
  others : ∀ t, Old k t → t ≠ ret → σ'.vals t = σ.vals t

section Generators

variable {h : Host} {k : ℕ} {σ σ₁ σ₂ : State} {ret arg : Temp} {v w : BitVec 32}

theorem run_append (p q : List Op) : run h (p ++ q) σ = run h q (run h p σ) := List.foldl_append

theorem Old.succ {t : Temp} (ht : Old k t) : Old (k + 1) t := by
  cases t with
  | scratch n => exact Nat.lt_succ_of_lt ht
  | _ => trivial

theorem Old.ne_scratch {t : Temp} (ht : Old k t) : t ≠ .scratch k := by
  rintro rfl
  exact Nat.lt_irrefl k ht

theorem sets_set (k : ℕ) (σ : State) (ret : Temp) (v : BitVec 32) : Sets k σ (σ.set ret v) ret v :=
  ⟨rfl, Function.update_self .., fun _ _ hne => Function.update_of_ne hne ..⟩

theorem Sets.trans (h₁ : Sets k σ σ₁ ret v) (h₂ : Sets k σ₁ σ₂ ret w) : Sets k σ σ₂ ret w :=
  ⟨h₂.mem.trans h₁.mem, h₂.self, fun t ht hne => (h₂.others t ht hne).trans (h₁.others t ht hne)⟩

theorem Sets.behind_scratch (h₁ : Sets (k + 1) σ σ₁ (.scratch k) v) (h₂ : Sets (k + 1) σ₁ σ₂ ret w) : Sets k σ σ₂ ret w :=
  ⟨h₂.mem.trans h₁.mem, h₂.self, fun t ht hne =>
    (h₂.others t ht.succ hne).trans (h₁.others t ht.succ ht.ne_scratch)⟩

theorem sets_mov (k : ℕ) (σ : State) (ret arg : Temp) : Sets k σ (run h (tcgGenMovI32 ret arg) σ) ret (σ.vals arg) := by
  unfold tcgGenMovI32
  split_ifs with hne
  · exact sets_set k σ ret _
  · rw [not_not] at hne
    exact ⟨rfl, by rw [hne]; rfl, fun _ _ _ => rfl⟩

theorem sets_movi (k : ℕ) (σ : State) (ret : Temp) (v : BitVec 32) : Sets k σ (run h (tcgGenMoviI32 ret v) σ) ret v :=
  sets_set k σ ret v

theorem sets_idem {f : BinOp} (hf : ∀ a, f.eval a a = a) (k : ℕ) (σ : State) (ret arg1 arg2 : Temp) :
    Sets k σ (run h (tcgGenIdemI32 f ret arg1 arg2) σ) ret (f.eval (σ.vals arg1) (σ.vals arg2)) := by
  unfold tcgGenIdemI32
  split_ifs with heq
  · rw [← heq, hf]
    exact sets_mov k σ ret arg1
  · exact sets_set k σ ret _

theorem sets_and (k : ℕ) (σ : State) (ret arg1 arg2 : Temp) :
    Sets k σ (run h (tcgGenAndI32 ret arg1 arg2) σ) ret (σ.vals arg1 &&& σ.vals arg2) :=
  sets_idem (fun _ => BitVec.and_self) k σ ret arg1 arg2

theorem sets_or (k : ℕ) (σ : State) (ret arg1 arg2 : Temp) :
    Sets k σ (run h (tcgGenOrI32 ret arg1 arg2) σ) ret (σ.vals arg1 ||| σ.vals arg2) :=
  sets_idem (fun _ => BitVec.or_self) k σ ret arg1 arg2

theorem sets_xor (k : ℕ) (σ : State) (ret arg1 arg2 : Temp) :
    Sets k σ (run h (tcgGenXorI32 ret arg1 arg2) σ) ret (σ.vals arg1 ^^^ σ.vals arg2) := by
  unfold tcgGenXorI32
  split_ifs with heq
  · rw [← heq, BitVec.xor_self]
    exact sets_movi k σ ret _
  · exact sets_set k σ ret _

theorem sets_const {f : BitVec 32 → BitVec 32 → BitVec 32} {p : List Op} (harg : Old k arg) (v : BitVec 32)
    (hp : ∀ τ, Sets (k + 1) τ (run h p τ) ret (f (τ.vals arg) (τ.vals (.scratch k)))) (σ : State) :
    Sets k σ (run h (tcgConstI32 k v ++ p) σ) ret (f (σ.vals arg) v) := by
  have hconst := sets_movi (h := h) (k + 1) σ (.scratch k) v
  have hset := hp (run h (tcgConstI32 k v) σ)
  have harg' : (run h (tcgConstI32 k v) σ).vals arg = σ.vals arg := hconst.others arg harg.succ harg.ne_scratch
  have hv : (run h (tcgConstI32 k v) σ).vals (.scratch k) = v := hconst.self
  rw [harg', hv] at hset
  rw [run_append]
  exact hconst.behind_scratch hset

theorem sets_andi (harg : Old k arg) (σ : State) (ret : Temp) (v : BitVec 32) :
    Sets k σ (run h (tcgGenAndiI32 k ret arg v) σ) ret (σ.vals arg &&& v) := by
  unfold tcgGenAndiI32
  split_ifs with h0 h1
  · rw [h0, BitVec.and_zero]
    exact sets_movi k σ ret _
  · have hones : 0xffffffff#32 = BitVec.allOnes 32 := rfl
    rw [h1, hones, BitVec.and_allOnes]
    exact sets_mov k σ ret arg
  · exact sets_const harg v (fun τ => sets_and (k + 1) τ ret arg _) σ

theorem sets_ori (harg : Old k arg) (σ : State) (ret : Temp) (v : BitVec 32) :
    Sets k σ (run h (tcgGenOriI32 k ret arg v) σ) ret (σ.vals arg ||| v) := by
  unfold tcgGenOriI32
  split_ifs with h1 h0
  · have hones : 0xffffffff#32 = BitVec.allOnes 32 := rfl
    rw [h1, hones, BitVec.or_allOnes]
    exact sets_movi k σ ret _
  · rw [h0, BitVec.or_zero]
    exact sets_mov k σ ret arg
  · exact sets_const harg v (fun τ => sets_or (k + 1) τ ret arg _) σ

theorem sets_xori (harg : Old k arg) (σ : State) (ret : Temp) (v : BitVec 32) :
    Sets k σ (run h (tcgGenXoriI32 k ret arg v) σ) ret (σ.vals arg ^^^ v) := by
  unfold tcgGenXoriI32
  split_ifs with h0
  · rw [h0, BitVec.xor_zero]
    exact sets_mov k σ ret arg
  · exact sets_const harg v (fun τ => sets_xor (k + 1) τ ret arg _) σ

theorem sets_shifti {f : BinOp} (hf : ∀ a, f.eval a 0#32 = a) (harg : Old k arg) (σ : State) (ret : Temp) (v : BitVec 32) :
    Sets k σ (run h (tcgGenShiftiI32 k f ret arg v) σ) ret (f.eval (σ.vals arg) v) := by
  unfold tcgGenShiftiI32
  split_ifs with h0
  · rw [h0, hf]
    exact sets_mov k σ ret arg
  · exact sets_const (p := [.bin f ret arg (.scratch k)]) harg v (fun τ => sets_set (k + 1) τ ret _) σ

theorem sets_shli (harg : Old k arg) (σ : State) (ret : Temp) (v : BitVec 32) :
    Sets k σ (run h (tcgGenShliI32 k ret arg v) σ) ret (σ.vals arg <<< v.toNat) :=
  sets_shifti (f := .shl) (fun _ => BitVec.shiftLeft_zero _) harg σ ret v

theorem sets_shri (harg : Old k arg) (σ : State) (ret : Temp) (v : BitVec 32) :
    Sets k σ (run h (tcgGenShriI32 k ret arg v) σ) ret (σ.vals arg >>> v.toNat) :=
  sets_shifti (f := .shr) (fun _ => BitVec.ushiftRight_zero _) harg σ ret v

theorem sets_sari (harg : Old k arg) (σ : State) (ret : Temp) (v : BitVec 32) :
    Sets k σ (run h (tcgGenSariI32 k ret arg v) σ) ret ((σ.vals arg).sshiftRight v.toNat) :=
  sets_shifti (f := .sar) (fun _ => BitVec.sshiftRight_zero) harg σ ret v

theorem sets_ext8s (harg : Old k arg) (hret : Old k ret) (σ : State) :
    Sets k σ (run h (tcgGenExt8sI32 k h ret arg) σ) ret (((σ.vals arg).setWidth 8).signExtend 32) := by
  unfold tcgGenExt8sI32
  split_ifs with hhas
  · exact sets_set k σ ret _
  · have hshl := sets_shli (h := h) harg σ ret 24#32
    have hsar := sets_sari (h := h) hret (run h (tcgGenShliI32 k ret arg 24#32) σ) ret 24#32
    rw [hshl.self] at hsar
    rw [run_append, ← sshiftRight_shiftLeft (n := 8) (by decide) (by decide)]
    exact hshl.trans hsar

theorem sets_ext16s (harg : Old k arg) (hret : Old k ret) (σ : State) :
    Sets k σ (run h (tcgGenExt16sI32 k h ret arg) σ) ret (((σ.vals arg).setWidth 16).signExtend 32) := by
  unfold tcgGenExt16sI32
  split_ifs with hhas
  · exact sets_set k σ ret _
  · have hshl := sets_shli (h := h) harg σ ret 16#32
    have hsar := sets_sari (h := h) hret (run h (tcgGenShliI32 k ret arg 16#32) σ) ret 16#32
    rw [hshl.self] at hsar
    rw [run_append, ← sshiftRight_shiftLeft (n := 16) (by decide) (by decide)]
    exact hshl.trans hsar

theorem sets_ext8u (harg : Old k arg) (σ : State) (ret : Temp) :
    Sets k σ (run h (tcgGenExt8uI32 k ret arg) σ) ret (((σ.vals arg).setWidth 8).setWidth 32) := by
  rw [← and_mask (n := 8) (by decide)]
  exact sets_andi harg σ ret _

theorem sets_ext16u (harg : Old k arg) (σ : State) (ret : Temp) :
    Sets k σ (run h (tcgGenExt16uI32 k ret arg) σ) ret (((σ.vals arg).setWidth 16).setWidth 32) := by
  rw [← and_mask (n := 16) (by decide)]
  exact sets_andi harg σ ret _

theorem sets_bswap16 (harg : Old k arg) (hret : Old k ret) (σ : State) (hzero : (σ.vals arg).extractLsb' 16 16 = 0#16) :
    Sets k σ (run h (tcgGenBswap16I32 k h ret arg) σ) ret ((bswap 2 ((σ.vals arg).setWidth 16)).setWidth 32) := by
  unfold tcgGenBswap16I32
  split_ifs with hhas
  · have hswap : swap16 h (σ.vals arg) = (bswap 2 ((σ.vals arg).setWidth 16)).setWidth 32 := if_pos hzero
    rw [← hswap]
    exact sets_set k σ ret _
  · have ht0 : Old (k + 1) (.scratch k) := Nat.lt_succ_self k
    dsimp only
    rw [run_append, run_append, run_append]
    have hext := sets_andi (h := h) harg.succ σ (.scratch k) 0xff#32
    generalize hσ₁ : run h (tcgGenExt8uI32 (k + 1) (.scratch k) arg) σ = σ₁
    have hext : Sets (k + 1) σ σ₁ (.scratch k) (σ.vals arg &&& 0xff#32) := hσ₁ ▸ hext
    have hshl := sets_shli (h := h) ht0 σ₁ (.scratch k) 8#32
    rw [hext.self] at hshl
    generalize run h (tcgGenShliI32 (k + 1) (.scratch k) (.scratch k) 8#32) σ₁ = σ₂ at hshl ⊢
    have hfirst := hext.trans hshl
    have hshr := sets_shri (h := h) harg.succ σ₂ ret 8#32
    rw [hfirst.others arg harg.succ harg.ne_scratch] at hshr
    generalize run h (tcgGenShriI32 (k + 1) ret arg 8#32) σ₂ = σ₃ at hshr ⊢
    have hor := sets_or (h := h) (k + 1) σ₃ ret ret (.scratch k)
    rw [hshr.self, hshr.others _ ht0 hret.ne_scratch.symm, hfirst.self] at hor
    rw [← bswap_two hzero]
    exact hfirst.behind_scratch (hshr.trans hor)

/-- Two scratch temporaries hold `a` and `b`, and nothing in use before them has changed. -/
structure Holds (k : ℕ) (σ σ' : State) (a b : BitVec 32) : Prop where
  mem : σ'.mem = σ.mem
  first : σ'.vals (.scratch k) = a
  second : σ'.vals (.scratch (k + 1)) = b
  others : ∀ t, Old k t → σ'.vals t = σ.vals t

section Scratch

variable {a b : BitVec 32} (hold : Holds k σ σ₁ a b)

include hold

theorem Holds.set_first (hset : Sets (k + 2) σ₁ σ₂ (.scratch k) v) : Holds k σ σ₂ v b := by
  refine ⟨hset.mem.trans hold.mem, hset.self, ?_, fun t ht => ?_⟩
  · rw [hset.others (.scratch (k + 1)) (Nat.lt_succ_self (k + 1)) (by simp), hold.second]
  · rw [hset.others t ht.succ.succ ht.ne_scratch, hold.others t ht]

theorem Holds.set_second (hset : Sets (k + 2) σ₁ σ₂ (.scratch (k + 1)) v) : Holds k σ σ₂ a v := by
  refine ⟨hset.mem.trans hold.mem, ?_, hset.self, fun t ht => ?_⟩
  · rw [hset.others (.scratch k) (Nat.lt_add_of_pos_right (by decide)) (by simp), hold.first]
  · rw [hset.others t ht.succ.succ ht.succ.ne_scratch, hold.others t ht]

theorem Holds.sets (hset : Sets (k + 2) σ₁ σ₂ ret v) : Sets k σ σ₂ ret v :=
  ⟨hset.mem.trans hold.mem, hset.self, fun t ht hne =>
    (hset.others t ht.succ.succ hne).trans (hold.others t ht)⟩

end Scratch

theorem sets_bswap32 (harg : Old k arg) (σ : State) (ret : Temp) :
    Sets k σ (run h (tcgGenBswap32I32 k h ret arg) σ) ret (bswap 4 (σ.vals arg)) := by
  unfold tcgGenBswap32I32
  split_ifs with hhas
  · exact sets_set k σ ret _
  · have harg' : Old (k + 2) arg := harg.succ.succ
    have ht1 : Old (k + 2) (.scratch (k + 1)) := Nat.lt_succ_self (k + 1)
    dsimp only
    simp only [run_append]
    have h₀ : Holds k σ σ (σ.vals (.scratch k)) (σ.vals (.scratch (k + 1))) := ⟨rfl, rfl, rfl, fun _ _ => rfl⟩
    have h₁ := h₀.set_first (sets_shli (h := h) harg' σ _ 24#32)
    generalize run h (tcgGenShliI32 (k + 2) (.scratch k) arg 24#32) σ = σ₁ at h₁ ⊢
    have h₂ := h₁.set_second (sets_andi (h := h) harg' σ₁ _ 0x0000ff00#32)
    generalize run h (tcgGenAndiI32 (k + 2) (.scratch (k + 1)) arg 0x0000ff00#32) σ₁ = σ₂ at h₂ ⊢
    have h₃ := h₂.set_second (sets_shli (h := h) ht1 σ₂ _ 8#32)
    generalize run h (tcgGenShliI32 (k + 2) (.scratch (k + 1)) (.scratch (k + 1)) 8#32) σ₂ = σ₃ at h₃ ⊢
    have h₄ := h₃.set_first (sets_or (h := h) (k + 2) σ₃ _ (.scratch k) (.scratch (k + 1)))
    generalize run h (tcgGenOrI32 (.scratch k) (.scratch k) (.scratch (k + 1))) σ₃ = σ₄ at h₄ ⊢
    have h₅ := h₄.set_second (sets_shri (h := h) harg' σ₄ _ 8#32)
    generalize run h (tcgGenShriI32 (k + 2) (.scratch (k + 1)) arg 8#32) σ₄ = σ₅ at h₅ ⊢
    have h₆ := h₅.set_second (sets_andi (h := h) ht1 σ₅ _ 0x0000ff00#32)
    generalize run h (tcgGenAndiI32 (k + 2) (.scratch (k + 1)) (.scratch (k + 1)) 0x0000ff00#32) σ₅ = σ₆ at h₆ ⊢
    have h₇ := h₆.set_first (sets_or (h := h) (k + 2) σ₆ _ (.scratch k) (.scratch (k + 1)))
    generalize run h (tcgGenOrI32 (.scratch k) (.scratch k) (.scratch (k + 1))) σ₆ = σ₇ at h₇ ⊢
    have h₈ := h₇.set_second (sets_shri (h := h) harg' σ₇ _ 24#32)
    generalize run h (tcgGenShriI32 (k + 2) (.scratch (k + 1)) arg 24#32) σ₇ = σ₈ at h₈ ⊢
    have h₉ := h₈.sets (sets_or (h := h) (k + 2) σ₈ ret (.scratch k) (.scratch (k + 1)))
    rw [h₈.first, h₈.second, h₆.first, h₆.second, h₅.second, h₃.first, h₃.second, h₂.second,
      h₁.others arg harg, h₄.others arg harg, h₇.others arg harg] at h₉
    rw [← bswap_four]
    exact h₉

end Generators

/-! ### The two halves -/

/-- The halves of `r` were set to `v` and `w`, and nothing else in use has changed. -/
structure SetsPair (k : ℕ) (σ σ' : State) (r : ℕ) (v w : BitVec 32) : Prop where
  mem : σ'.mem = σ.mem
  low : σ'.vals (.low r) = v
  high : σ'.vals (.high r) = w
  others : ∀ t, Old k t → t ≠ .low r → t ≠ .high r → σ'.vals t = σ.vals t

/-- What an expansion leaves is what the operation itself does. -/
def Right (h : Host) (k : ℕ) (σ : State) (op : Op64) : Prop :=
  (run h (op.gen h k) σ).mem = ((op.effect h σ).apply σ).mem ∧
    ∀ t, Old k t → (run h (op.gen h k) σ).vals t = ((op.effect h σ).apply σ).vals t

section Pairs

variable {h : Host} {k : ℕ} {σ σ₁ σ₂ : State} {r : ℕ} {v w : BitVec 32}

theorem Sets.low_high (hlow : Sets k σ σ₁ (.low r) v) (hhigh : Sets k σ₁ σ₂ (.high r) w) : SetsPair k σ σ₂ r v w := by
  refine ⟨hhigh.mem.trans hlow.mem, ?_, hhigh.self, fun t ht hne hne' => ?_⟩
  · rw [hhigh.others (.low r) trivial (by simp), hlow.self]
  · rw [hhigh.others t ht hne', hlow.others t ht hne]

theorem Sets.high_low (hhigh : Sets k σ σ₁ (.high r) w) (hlow : Sets k σ₁ σ₂ (.low r) v) : SetsPair k σ σ₂ r v w := by
  refine ⟨hlow.mem.trans hhigh.mem, hlow.self, ?_, fun t ht hne hne' => ?_⟩
  · rw [hlow.others (.high r) trivial (by simp), hhigh.self]
  · rw [hlow.others t ht hne, hhigh.others t ht hne']

/-- An operation with a 64-bit result is right when both halves are. -/
theorem SetsPair.right_iff {op : Op64} {u : BitVec 64} (hpair : SetsPair k σ (run h (op.gen h k) σ) r v w)
    (heffect : op.effect h σ = .wide r u) : Right h k σ op ↔ v = lo u ∧ w = hi u := by
  unfold Right
  rw [heffect]
  constructor
  · rintro ⟨-, hvals⟩
    have hlow := hvals (.low r) trivial
    have hhigh := hvals (.high r) trivial
    rw [hpair.low] at hlow
    rw [hpair.high] at hhigh
    exact ⟨by simpa [Effect.apply, State.set] using hlow, by simpa [Effect.apply, State.set] using hhigh⟩
  · rintro ⟨rfl, rfl⟩
    refine ⟨hpair.mem, fun t ht => ?_⟩
    by_cases hlow : t = .low r
    · subst hlow
      rw [hpair.low]
      simp [Effect.apply, State.set]
    · by_cases hhigh : t = .high r
      · subst hhigh
        rw [hpair.high]
        simp [Effect.apply, State.set]
      · rw [hpair.others t ht hlow hhigh]
        simp [Effect.apply, State.set, hlow, hhigh]

theorem right_zero {op : Op64} {p : List Op} {n : ℕ} (hn : n ≤ 32) (x : BitVec n)
    (hgen : op.gen h k = p ++ tcgGenMoviI32 (.high r) 0#32) (hlow : Sets k σ (run h p σ) (.low r) (x.setWidth 32))
    (heffect : op.effect h σ = .wide r (x.setWidth 64)) : Right h k σ op := by
  have hpair := hlow.low_high (sets_movi (h := h) k (run h p σ) (.high r) 0#32)
  rw [← run_append, ← hgen] at hpair
  exact (hpair.right_iff heffect).2 ⟨(lo_setWidth x).symm, (hi_setWidth hn x).symm⟩

theorem right_sign {op : Op64} {p : List Op} {n : ℕ} (h0 : 0 < n) (hn : n ≤ 32) (x : BitVec n)
    (hgen : op.gen h k = p ++ tcgGenSariI32 k (.high r) (.low r) 31#32)
    (hlow : Sets k σ (run h p σ) (.low r) (x.signExtend 32)) (heffect : op.effect h σ = .wide r (x.signExtend 64)) :
    Right h k σ op := by
  have hsar := sets_sari (h := h) (show Old k (.low r) from trivial) (run h p σ) (.high r) 31#32
  rw [hlow.self] at hsar
  have hpair := hlow.low_high hsar
  rw [← run_append, ← hgen] at hpair
  exact (hpair.right_iff heffect).2 ⟨(lo_signExtend x).symm, (hi_signExtend h0 hn x).symm⟩

theorem wide_setWidth {n : ℕ} (hn : n ≤ 32) (x : ℕ) : (σ.wide x).setWidth n = (σ.vals (.low x)).setWidth n := by
  apply BitVec.eq_of_getLsbD_eq
  intro i hi
  rw [BitVec.getLsbD_setWidth, BitVec.getLsbD_setWidth, State.wide, getLsbD_wide, if_pos (by omega)]

end Pairs

/-! ### Stores -/

section Stores

variable {h : Host} {k : ℕ} {σ : State}

theorem byte_wide (a b : BitVec 32) (j : ℕ) :
    byte (w := 64) (a ++ b) j = if j < 4 then byte b j else byte a (j - 4) := by
  apply BitVec.eq_of_getLsbD_eq
  intro i hi
  rw [getLsbD_byte, getLsbD_wide]
  by_cases hj : j < 4
  · rw [if_pos hj, if_pos (by omega), getLsbD_byte]
  · rw [if_neg hj, if_neg (by omega), getLsbD_byte, show 8 * j + i - 32 = 8 * (j - 4) + i by omega]

theorem store_eight (m : Memory 32) (bigEndian : Bool) (p : BitVec 32) (a b : BitVec 32) :
    m.store bigEndian 8 p (a ++ b) =
      Memory.store (m.store bigEndian 4 p (if bigEndian then a else b)) bigEndian 4 (p + 4#32) (if bigEndian then b else a) := by
  funext x
  have hlt := (x - p).isLt
  have hnext : (x - (p + 4#32)).toNat = ((x - p).toNat + 2 ^ 32 - 4) % 2 ^ 32 := by
    rw [← BitVec.sub_sub, BitVec.toNat_sub]
    simp only [BitVec.toNat_ofNat]
    omega
  unfold Memory.store
  rw [hnext]
  generalize (x - p).toNat = i at hlt ⊢
  by_cases h4 : i < 4
  · rw [if_pos (by omega), if_neg (by omega), if_pos h4, byte_wide]
    cases bigEndian with
    | false => simp [place, h4]
    | true => simp [place, show ¬7 - i < 4 by omega, show 7 - i - 4 = 3 - i by omega]
  · by_cases h8 : i < 8
    · rw [if_pos h8, if_pos (by omega), byte_wide, show (i + 2 ^ 32 - 4) % 2 ^ 32 = i - 4 by omega]
      cases bigEndian with
      | false => simp [place, h4]
      | true => simp [place, show 7 - i < 4 by omega, show 3 - (i - 4) = 7 - i by omega]
    · rw [if_neg h8, if_neg (by omega), if_neg h4]

theorem right_store {op : Op64} {m : Memory 32} (hrun : run h (op.gen h k) σ = { σ with mem := m })
    (heffect : op.effect h σ = .mem m) : Right h k σ op := by
  unfold Right
  rw [hrun, heffect]
  exact ⟨rfl, fun _ _ => rfl⟩

theorem right_st8 (arg ptr : ℕ) (offset : BitVec 32) : Right h k σ (.st8 arg ptr offset) := by
  refine right_store rfl ?_
  unfold Op64.effect
  dsimp only
  rw [wide_setWidth (by decide)]

theorem right_st16 (arg ptr : ℕ) (offset : BitVec 32) : Right h k σ (.st16 arg ptr offset) := by
  refine right_store rfl ?_
  unfold Op64.effect
  dsimp only
  rw [wide_setWidth (by decide)]

theorem right_st32 (arg ptr : ℕ) (offset : BitVec 32) : Right h k σ (.st32 arg ptr offset) := by
  refine right_store rfl ?_
  unfold Op64.effect
  dsimp only
  rw [wide_setWidth (by decide), BitVec.setWidth_eq]

theorem right_st (arg ptr : ℕ) (offset : BitVec 32) : Right h k σ (.st arg ptr offset) := by
  have hstore := store_eight σ.mem h.wordsBigendian (σ.vals (.i32 ptr) + offset) (σ.vals (.high arg)) (σ.vals (.low arg))
  refine right_store (m := σ.mem.store h.wordsBigendian 8 (σ.vals (.i32 ptr) + offset) (σ.wide arg)) ?_ rfl
  unfold State.wide Op64.gen
  rw [hstore]
  cases hend : h.wordsBigendian with
  | false => simp [run, Op.exec, hend, BitVec.add_assoc]
  | true => simp [run, Op.exec, hend, BitVec.add_assoc]

end Stores

/-! ### The operations -/

section Ops

variable (h : Host) (k : ℕ) (σ : State)

theorem right_pair {op : Op64} {p q : List Op} {r : ℕ} {v w : BitVec 32} {u : BitVec 64} (hgen : op.gen h k = p ++ q)
    (hlow : Sets k σ (run h p σ) (.low r) v) (hhigh : Sets k (run h p σ) (run h q (run h p σ)) (.high r) w)
    (heffect : op.effect h σ = .wide r u) : Right h k σ op ↔ v = lo u ∧ w = hi u := by
  have hpair := hlow.low_high hhigh
  rw [← run_append, ← hgen] at hpair
  exact hpair.right_iff heffect

theorem right_mov (ret arg : ℕ) : Right h k σ (.mov ret arg) := by
  by_cases heq : ret = arg
  · subst heq
    have hgen : (Op64.mov ret ret).gen h k = [] := if_neg (not_not.2 rfl)
    have hpair : SetsPair k σ (run h ((Op64.mov ret ret).gen h k) σ) ret (σ.vals (.low ret)) (σ.vals (.high ret)) := by
      rw [hgen]
      exact ⟨rfl, rfl, rfl, fun _ _ _ _ => rfl⟩
    exact (hpair.right_iff rfl).2 ⟨(lo_append _ _).symm, (hi_append _ _).symm⟩
  · have hlow := sets_mov (h := h) k σ (.low ret) (.low arg)
    have hhigh := sets_mov (h := h) k (run h (tcgGenMovI32 (.low ret) (.low arg)) σ) (.high ret) (.high arg)
    rw [hlow.others (.high arg) trivial (by simp)] at hhigh
    have hgen : (Op64.mov ret arg).gen h k =
        tcgGenMovI32 (.low ret) (.low arg) ++ tcgGenMovI32 (.high ret) (.high arg) := if_pos heq
    exact (right_pair h k σ hgen hlow hhigh rfl).2 ⟨(lo_append _ _).symm, (hi_append _ _).symm⟩

theorem right_movi (ret : ℕ) (v : BitVec 64) : Right h k σ (.movi ret v) :=
  (right_pair h k σ rfl (sets_movi k σ _ _) (sets_movi k _ _ _) rfl).2 ⟨rfl, rfl⟩

theorem right_ld (ret ptr : ℕ) (offset : BitVec 32) : Right h k σ (.ld ret ptr offset) := by
  have hgen : SetsPair k σ (run h ((Op64.ld ret ptr offset).gen h k) σ) ret
      (lo (σ.mem.load h.wordsBigendian 8 (σ.vals (.i32 ptr) + offset)))
      (hi (σ.mem.load h.wordsBigendian 8 (σ.vals (.i32 ptr) + offset))) := by
    rw [lo_load, hi_load]
    unfold Op64.gen
    cases hend : h.wordsBigendian with
    | false =>
      refine (sets_set k σ (.low ret) _).low_high ?_
      have hset := sets_set k (σ.set (.low ret) (σ.mem.load false 4 (σ.vals (.i32 ptr) + offset))) (.high ret)
        (σ.mem.load false 4 (σ.vals (.i32 ptr) + offset + 4#32))
      simpa [run, Op.exec, hend, State.set, BitVec.add_assoc] using hset
    | true =>
      refine (sets_set k σ (.high ret) _).high_low ?_
      have hset := sets_set k (σ.set (.high ret) (σ.mem.load true 4 (σ.vals (.i32 ptr) + offset))) (.low ret)
        (σ.mem.load true 4 (σ.vals (.i32 ptr) + offset + 4#32))
      simpa [run, Op.exec, hend, State.set, BitVec.add_assoc] using hset
  exact (hgen.right_iff rfl).2 ⟨rfl, rfl⟩

theorem right_ld32u (ret ptr : ℕ) (offset : BitVec 32) : Right h k σ (.ld32u ret ptr offset) := by
  have hlow := sets_set k σ (.low ret) (σ.mem.load h.wordsBigendian 4 (σ.vals (.i32 ptr) + offset))
  have hwidth : (σ.mem.load h.wordsBigendian 4 (σ.vals (.i32 ptr) + offset)).setWidth 32 =
      σ.mem.load h.wordsBigendian 4 (σ.vals (.i32 ptr) + offset) := BitVec.setWidth_eq _
  refine right_zero (by decide) (σ.mem.load h.wordsBigendian 4 (σ.vals (.i32 ptr) + offset)) rfl ?_ rfl
  rw [hwidth]
  exact hlow

theorem right_ld32s (ret ptr : ℕ) (offset : BitVec 32) : Right h k σ (.ld32s ret ptr offset) := by
  have hlow := sets_set k σ (.low ret) (σ.mem.load h.wordsBigendian 4 (σ.vals (.i32 ptr) + offset))
  have hwidth : (σ.mem.load h.wordsBigendian 4 (σ.vals (.i32 ptr) + offset)).signExtend 32 =
      σ.mem.load h.wordsBigendian 4 (σ.vals (.i32 ptr) + offset) := BitVec.signExtend_eq _
  refine right_sign (by decide) (by decide) (σ.mem.load h.wordsBigendian 4 (σ.vals (.i32 ptr) + offset)) rfl ?_ rfl
  rw [hwidth]
  exact hlow

theorem halves_and (u v : BitVec 64) : lo u &&& lo v = lo (u &&& v) ∧ hi u &&& hi v = hi (u &&& v) :=
  ⟨BitVec.setWidth_and.symm, BitVec.extractLsb'_and.symm⟩

theorem halves_or (u v : BitVec 64) : lo u ||| lo v = lo (u ||| v) ∧ hi u ||| hi v = hi (u ||| v) :=
  ⟨BitVec.setWidth_or.symm, BitVec.extractLsb'_or.symm⟩

theorem halves_xor (u v : BitVec 64) : lo u ^^^ lo v = lo (u ^^^ v) ∧ hi u ^^^ hi v = hi (u ^^^ v) :=
  ⟨BitVec.setWidth_xor.symm, BitVec.extractLsb'_xor.symm⟩

theorem lo_wide (x : ℕ) : lo (σ.wide x) = σ.vals (.low x) := lo_append _ _

theorem hi_wide (x : ℕ) : hi (σ.wide x) = σ.vals (.high x) := hi_append _ _

theorem Sets.high_eq {k : ℕ} {σ σ₁ : State} {r : ℕ} {v : BitVec 32} (hlow : Sets k σ σ₁ (.low r) v) (x : ℕ) :
    σ₁.vals (.high x) = hi (σ.wide x) := by
  rw [hlow.others (.high x) trivial (by simp), hi_wide]

theorem right_and (ret arg1 arg2 : ℕ) : Right h k σ (.and ret arg1 arg2) := by
  have hlow := sets_and (h := h) k σ (.low ret) (.low arg1) (.low arg2)
  have hhigh := sets_and (h := h) k (run h (tcgGenAndI32 (.low ret) (.low arg1) (.low arg2)) σ) (.high ret) (.high arg1) (.high arg2)
  rw [hlow.high_eq, hlow.high_eq] at hhigh
  rw [← lo_wide, ← lo_wide] at hlow
  exact (right_pair h k σ rfl hlow hhigh rfl).2 (halves_and _ _)

theorem right_or (ret arg1 arg2 : ℕ) : Right h k σ (.or ret arg1 arg2) := by
  have hlow := sets_or (h := h) k σ (.low ret) (.low arg1) (.low arg2)
  have hhigh := sets_or (h := h) k (run h (tcgGenOrI32 (.low ret) (.low arg1) (.low arg2)) σ) (.high ret) (.high arg1) (.high arg2)
  rw [hlow.high_eq, hlow.high_eq] at hhigh
  rw [← lo_wide, ← lo_wide] at hlow
  exact (right_pair h k σ rfl hlow hhigh rfl).2 (halves_or _ _)

theorem right_xor (ret arg1 arg2 : ℕ) : Right h k σ (.xor ret arg1 arg2) := by
  have hlow := sets_xor (h := h) k σ (.low ret) (.low arg1) (.low arg2)
  have hhigh := sets_xor (h := h) k (run h (tcgGenXorI32 (.low ret) (.low arg1) (.low arg2)) σ) (.high ret) (.high arg1) (.high arg2)
  rw [hlow.high_eq, hlow.high_eq] at hhigh
  rw [← lo_wide, ← lo_wide] at hlow
  exact (right_pair h k σ rfl hlow hhigh rfl).2 (halves_xor _ _)

theorem right_andi (ret arg1 : ℕ) (v : BitVec 64) : Right h k σ (.andi ret arg1 v) := by
  have hlow := sets_andi (h := h) (show Old k (.low arg1) from trivial) σ (.low ret) (lo v)
  have hhigh := sets_andi (h := h) (show Old k (.high arg1) from trivial)
    (run h (tcgGenAndiI32 k (.low ret) (.low arg1) (lo v)) σ) (.high ret) (hi v)
  rw [hlow.high_eq] at hhigh
  rw [← lo_wide] at hlow
  exact (right_pair h k σ rfl hlow hhigh rfl).2 (halves_and _ _)

theorem right_ori (ret arg1 : ℕ) (v : BitVec 64) : Right h k σ (.ori ret arg1 v) := by
  have hlow := sets_ori (h := h) (show Old k (.low arg1) from trivial) σ (.low ret) (lo v)
  have hhigh := sets_ori (h := h) (show Old k (.high arg1) from trivial)
    (run h (tcgGenOriI32 k (.low ret) (.low arg1) (lo v)) σ) (.high ret) (hi v)
  rw [hlow.high_eq] at hhigh
  rw [← lo_wide] at hlow
  exact (right_pair h k σ rfl hlow hhigh rfl).2 (halves_or _ _)

theorem right_xori (ret arg1 : ℕ) (v : BitVec 64) : Right h k σ (.xori ret arg1 v) := by
  have hlow := sets_xori (h := h) (show Old k (.low arg1) from trivial) σ (.low ret) (lo v)
  have hhigh := sets_xori (h := h) (show Old k (.high arg1) from trivial)
    (run h (tcgGenXoriI32 k (.low ret) (.low arg1) (lo v)) σ) (.high ret) (hi v)
  rw [hlow.high_eq] at hhigh
  rw [← lo_wide] at hlow
  exact (right_pair h k σ rfl hlow hhigh rfl).2 (halves_xor _ _)

theorem right_ext8s (ret arg : ℕ) : Right h k σ (.ext8s ret arg) := by
  have hlow := sets_ext8s (h := h) (show Old k (.low arg) from trivial) (show Old k (.low ret) from trivial) σ
  rw [← wide_setWidth (by decide)] at hlow
  exact right_sign (by decide) (by decide) _ rfl hlow rfl

theorem right_ext16s (ret arg : ℕ) : Right h k σ (.ext16s ret arg) := by
  have hlow := sets_ext16s (h := h) (show Old k (.low arg) from trivial) (show Old k (.low ret) from trivial) σ
  rw [← wide_setWidth (by decide)] at hlow
  exact right_sign (by decide) (by decide) _ rfl hlow rfl

theorem right_ext8u (ret arg : ℕ) : Right h k σ (.ext8u ret arg) := by
  have hlow := sets_ext8u (h := h) (show Old k (.low arg) from trivial) σ (.low ret)
  rw [← wide_setWidth (by decide)] at hlow
  exact right_zero (by decide) _ rfl hlow rfl

theorem right_ext16u (ret arg : ℕ) : Right h k σ (.ext16u ret arg) := by
  have hlow := sets_ext16u (h := h) (show Old k (.low arg) from trivial) σ (.low ret)
  rw [← wide_setWidth (by decide)] at hlow
  exact right_zero (by decide) _ rfl hlow rfl

theorem right_ext32s (ret arg : ℕ) : Right h k σ (.ext32s ret arg) := by
  have hlow := sets_mov (h := h) k σ (.low ret) (.low arg)
  rw [← lo_wide, ← BitVec.signExtend_eq (lo (σ.wide arg))] at hlow
  exact right_sign (by decide) (by decide) _ rfl hlow rfl

theorem right_ext32u (ret arg : ℕ) : Right h k σ (.ext32u ret arg) := by
  have hlow := sets_mov (h := h) k σ (.low ret) (.low arg)
  rw [← lo_wide, ← BitVec.setWidth_eq (lo (σ.wide arg))] at hlow
  exact right_zero (by decide) _ rfl hlow rfl

theorem right_extI32 (ret arg : ℕ) : Right h k σ (.extI32 ret arg) := by
  have hlow := sets_mov (h := h) k σ (.low ret) (.i32 arg)
  rw [← BitVec.signExtend_eq (σ.vals (.i32 arg))] at hlow
  exact right_sign (by decide) (by decide) _ rfl hlow rfl

theorem right_extuI32 (ret arg : ℕ) : Right h k σ (.extuI32 ret arg) := by
  have hlow := sets_mov (h := h) k σ (.low ret) (.i32 arg)
  rw [← BitVec.setWidth_eq (σ.vals (.i32 arg))] at hlow
  exact right_zero (by decide) _ rfl hlow rfl

theorem right_truncI32 (ret arg : ℕ) : Right h k σ (.truncI32 ret arg) := by
  have hset := sets_mov (h := h) k σ (.i32 ret) (.low arg)
  rw [← lo_wide] at hset
  have heffect : ((Op64.truncI32 ret arg).effect h σ).apply σ = σ.set (.i32 ret) (lo (σ.wide arg)) := rfl
  have hright := sets_set k σ (.i32 ret) (lo (σ.wide arg))
  unfold Right
  rw [heffect]
  refine ⟨hset.mem.trans hright.mem.symm, fun t ht => ?_⟩
  by_cases heq : t = .i32 ret
  · subst heq
    exact hset.self.trans hright.self.symm
  · exact (hset.others t ht heq).trans (hright.others t ht heq).symm

theorem right_bswap16 (ret arg : ℕ) (hzero : (σ.wide arg).extractLsb' 16 48 = 0#48) : Right h k σ (.bswap16 ret arg) := by
  have hbits : ∀ j, 16 ≤ j → (σ.wide arg).getLsbD j = false := by
    intro j hj
    have hbit := congrArg (fun y => BitVec.getLsbD y (j - 16)) hzero
    by_cases hlt : j < 64
    · simpa [show j - 16 < 48 by omega, show 16 + (j - 16) = j by omega] using hbit
    · exact BitVec.getLsbD_of_ge _ j (by omega)
  have hlow : (σ.vals (.low arg)).extractLsb' 16 16 = 0#16 := by
    apply BitVec.eq_of_getLsbD_eq
    intro i hi
    have hbit := hbits (16 + i) (by omega)
    rw [State.wide, getLsbD_wide, if_pos (by omega)] at hbit
    rw [BitVec.getLsbD_extractLsb', hbit]
    simp
  have hhigh : σ.vals (.high arg) = 0#32 := by
    apply BitVec.eq_of_getLsbD_eq
    intro i hi
    have hbit := hbits (32 + i) (by omega)
    rw [State.wide, getLsbD_wide, if_neg (by omega), Nat.add_sub_cancel_left] at hbit
    rw [hbit]
    simp
  have hmov := sets_mov (h := h) k σ (.high ret) (.high arg)
  have hsame := hmov.others (.low arg) trivial (by simp)
  have hswap := sets_bswap16 (h := h) (show Old k (.low arg) from trivial) (show Old k (.low ret) from trivial)
    (run h (tcgGenMovI32 (.high ret) (.high arg)) σ) (by rw [hsame]; exact hlow)
  rw [hsame, ← wide_setWidth (by decide)] at hswap
  have hpair := hmov.high_low hswap
  rw [← run_append] at hpair
  refine (hpair.right_iff rfl : Right h k σ (.bswap16 ret arg) ↔ _).2 ⟨(lo_setWidth _).symm, ?_⟩
  rw [hhigh, hi_setWidth (by decide)]

theorem right_bswap32 (ret arg : ℕ) (hzero : (σ.wide arg).extractLsb' 32 32 = 0#32) : Right h k σ (.bswap32 ret arg) := by
  have hmov := sets_mov (h := h) k σ (.high ret) (.high arg)
  have hswap := sets_bswap32 (h := h) (show Old k (.low arg) from trivial)
    (run h (tcgGenMovI32 (.high ret) (.high arg)) σ) (.low ret)
  rw [hmov.others (.low arg) trivial (by simp), ← lo_wide] at hswap
  have hpair := hmov.high_low hswap
  rw [← run_append] at hpair
  refine (hpair.right_iff rfl : Right h k σ (.bswap32 ret arg) ↔ _).2 ⟨?_, ?_⟩
  · rw [lo_setWidth, BitVec.setWidth_eq]
    rfl
  · rw [hi_setWidth (by decide), ← hi_wide]
    exact hzero

theorem right_bswap64 (ret arg : ℕ) : Right h k σ (.bswap64 ret arg) := by
  have h₀ : Holds k σ σ (σ.vals (.scratch k)) (σ.vals (.scratch (k + 1))) := ⟨rfl, rfl, rfl, fun _ _ => rfl⟩
  have h₁ := h₀.set_first (sets_bswap32 (h := h) (show Old (k + 2) (.low arg) from trivial) σ _)
  generalize hσ₁ : run h (tcgGenBswap32I32 (k + 2) h (.scratch k) (.low arg)) σ = σ₁ at h₁
  have h₂ := h₁.set_second (sets_bswap32 (h := h) (show Old (k + 2) (.high arg) from trivial) σ₁ _)
  generalize hσ₂ : run h (tcgGenBswap32I32 (k + 2) h (.scratch (k + 1)) (.high arg)) σ₁ = σ₂ at h₂
  have hlow := sets_mov (h := h) (k + 2) σ₂ (.low ret) (.scratch (k + 1))
  have hhigh := sets_mov (h := h) (k + 2) (run h (tcgGenMovI32 (.low ret) (.scratch (k + 1))) σ₂) (.high ret) (.scratch k)
  rw [hlow.others (.scratch k) (Nat.lt_add_of_pos_right (by decide)) (by simp), h₂.first] at hhigh
  rw [h₂.second, h₁.others (.high arg) trivial] at hlow
  have hpair := hlow.low_high hhigh
  have hrun : run h ((Op64.bswap64 ret arg).gen h k) σ =
      run h (tcgGenMovI32 (.high ret) (.scratch k)) (run h (tcgGenMovI32 (.low ret) (.scratch (k + 1))) σ₂) := by
    rw [← hσ₂, ← hσ₁, ← run_append, ← run_append, ← run_append, ← List.append_assoc, ← List.append_assoc]
    rfl
  have hpair' : SetsPair k σ (run h ((Op64.bswap64 ret arg).gen h k) σ) ret (bswap 4 (σ.vals (.high arg)))
      (bswap 4 (σ.vals (.low arg))) := by
    rw [hrun]
    exact ⟨hpair.mem.trans h₂.mem, hpair.low, hpair.high, fun t ht hne hne' =>
      (hpair.others t ht.succ.succ hne hne').trans (h₂.others t ht)⟩
  exact (hpair'.right_iff rfl).2 ⟨(lo_bswap _ _).symm, (hi_bswap _ _).symm⟩

theorem right_concatI32 (dest low high : ℕ) : Right h k σ (.concatI32 dest low high) := by
  have hlow := sets_mov (h := h) k σ (.low dest) (.i32 low)
  have hhigh := sets_mov (h := h) k (run h (tcgGenMovI32 (.low dest) (.i32 low)) σ) (.high dest) (.i32 high)
  rw [hlow.others (.i32 high) trivial (by simp)] at hhigh
  exact (right_pair h k σ rfl hlow hhigh rfl).2 ⟨(lo_append _ _).symm, (hi_append _ _).symm⟩

/-- The high half comes from a low half that is overwritten before where the destination is the
third operand. -/
theorem right_concat32_iff (dest low high : ℕ) : Right h k σ (.concat32 dest low high) ↔
    (dest = high → σ.vals (.low low) = σ.vals (.low high)) := by
  have hlow := sets_mov (h := h) k σ (.low dest) (.low low)
  have hhigh := sets_mov (h := h) k (run h (tcgGenMovI32 (.low dest) (.low low)) σ) (.high dest) (.low high)
  have hwide : ∀ x, (σ.wide x).setWidth 32 = σ.vals (.low x) := fun x => lo_wide σ x
  refine (right_pair h k σ rfl hlow hhigh rfl).trans ?_
  rw [hwide, hwide, lo_append, hi_append]
  by_cases heq : dest = high
  · subst heq
    rw [hlow.self]
    simp
  · rw [hlow.others (.low high) trivial (by simpa using Ne.symm heq)]
    simp [heq]

theorem right_ld8s_iff (ret ptr : ℕ) (offset : BitVec 32) : Right h k σ (.ld8s ret ptr offset) ↔
    (σ.vals (.high ret)).msb = (σ.mem.load h.wordsBigendian 1 (σ.vals (.i32 ptr) + offset)).msb := by
  have hlow := sets_set k σ (.low ret) ((σ.mem.load h.wordsBigendian 1 (σ.vals (.i32 ptr) + offset)).signExtend 32)
  have hhigh := sets_sari (h := h) (show Old k (.high ret) from trivial)
    (run h [.ld8s (.low ret) (.i32 ptr) offset] σ) (.high ret) 31#32
  have hkept : (run h [.ld8s (.low ret) (.i32 ptr) offset] σ).vals (.high ret) = σ.vals (.high ret) :=
    hlow.others (.high ret) trivial (by simp)
  rw [hkept] at hhigh
  refine (right_pair h k σ rfl hlow hhigh rfl : Right h k σ (.ld8s ret ptr offset) ↔ _).trans ?_
  rw [lo_signExtend, hi_signExtend (by decide) (by decide), ← msb_signExtend (n := 8) (by decide) (by decide), ← sign_eq_iff]
  exact and_iff_right rfl

end Ops

/-- No half is computed from one that is lost: a signed byte is not loaded over a high half of the
other sign, and the destination of a concatenation is not its high operand, or both low halves
agree. -/
def HalvesKept (h : Host) (σ : State) : Op64 → Prop
  | .ld8s ret ptr offset =>
    (σ.vals (.high ret)).msb = (σ.mem.load h.wordsBigendian 1 (σ.vals (.i32 ptr) + offset)).msb
  | .concat32 dest low high => dest = high → σ.vals (.low low) = σ.vals (.low high)
  | _ => True

/-- On a 32-bit host the expansion of a 64-bit operation does what the operation does, for all
operands and every aliasing, exactly where no half is lost. -/
theorem tcg_wide_op_iff (h : Host) (k : ℕ) (σ : State) (op : Op64) (hassumes : op.Assumes σ) :
    Right h k σ op ↔ HalvesKept h σ op := by
  cases op with
  | ld8s ret ptr offset => exact right_ld8s_iff h k σ ret ptr offset
  | concat32 dest low high => exact right_concat32_iff h k σ dest low high
  | mov ret arg => exact iff_of_true (right_mov h k σ ret arg) trivial
  | movi ret arg => exact iff_of_true (right_movi h k σ ret arg) trivial
  | ld8u ret ptr offset => exact iff_of_true (right_zero (by decide) _ rfl (sets_set k σ _ _) rfl) trivial
  | ld16u ret ptr offset => exact iff_of_true (right_zero (by decide) _ rfl (sets_set k σ _ _) rfl) trivial
  | ld16s ret ptr offset => exact iff_of_true (right_sign (by decide) (by decide) _ rfl (sets_set k σ _ _) rfl) trivial
  | ld32u ret ptr offset => exact iff_of_true (right_ld32u h k σ ret ptr offset) trivial
  | ld32s ret ptr offset => exact iff_of_true (right_ld32s h k σ ret ptr offset) trivial
  | ld ret ptr offset => exact iff_of_true (right_ld h k σ ret ptr offset) trivial
  | st8 arg ptr offset => exact iff_of_true (right_st8 arg ptr offset) trivial
  | st16 arg ptr offset => exact iff_of_true (right_st16 arg ptr offset) trivial
  | st32 arg ptr offset => exact iff_of_true (right_st32 arg ptr offset) trivial
  | st arg ptr offset => exact iff_of_true (right_st arg ptr offset) trivial
  | and ret arg1 arg2 => exact iff_of_true (right_and h k σ ret arg1 arg2) trivial
  | andi ret arg1 arg2 => exact iff_of_true (right_andi h k σ ret arg1 arg2) trivial
  | or ret arg1 arg2 => exact iff_of_true (right_or h k σ ret arg1 arg2) trivial
  | ori ret arg1 arg2 => exact iff_of_true (right_ori h k σ ret arg1 arg2) trivial
  | xor ret arg1 arg2 => exact iff_of_true (right_xor h k σ ret arg1 arg2) trivial
  | xori ret arg1 arg2 => exact iff_of_true (right_xori h k σ ret arg1 arg2) trivial
  | ext8s ret arg => exact iff_of_true (right_ext8s h k σ ret arg) trivial
  | ext16s ret arg => exact iff_of_true (right_ext16s h k σ ret arg) trivial
  | ext32s ret arg => exact iff_of_true (right_ext32s h k σ ret arg) trivial
  | ext8u ret arg => exact iff_of_true (right_ext8u h k σ ret arg) trivial
  | ext16u ret arg => exact iff_of_true (right_ext16u h k σ ret arg) trivial
  | ext32u ret arg => exact iff_of_true (right_ext32u h k σ ret arg) trivial
  | truncI32 ret arg => exact iff_of_true (right_truncI32 h k σ ret arg) trivial
  | extuI32 ret arg => exact iff_of_true (right_extuI32 h k σ ret arg) trivial
  | extI32 ret arg => exact iff_of_true (right_extI32 h k σ ret arg) trivial
  | bswap16 ret arg => exact iff_of_true (right_bswap16 h k σ ret arg hassumes) trivial
  | bswap32 ret arg => exact iff_of_true (right_bswap32 h k σ ret arg hassumes) trivial
  | bswap64 ret arg => exact iff_of_true (right_bswap64 h k σ ret arg) trivial
  | concatI32 dest low high => exact iff_of_true (right_concatI32 h k σ dest low high) trivial

/-- A little-endian host with all the optional operations. -/
def i386 : Host := ⟨false, true, true, true, true, id⟩

/-- Every byte of memory is `0x80`, and the first temporaries have values. -/
def filledState : State where
  vals
    | .low 0 => 0x9abcdef0#32
    | .high 0 => 0x12345678#32
    | .low 1 | .i32 1 => 0x1234#32
    | _ => 0#32
  mem _ := 0x80#8

theorem bswap16_low_bytes : Right i386 0 filledState (.bswap16 0 1) :=
  (tcg_wide_op_iff i386 0 filledState (.bswap16 0 1) (show (filledState.wide 1).extractLsb' 16 48 = 0#48 by decide)).2 trivial

/-- A negative byte is loaded with a high half of zeroes. -/
theorem ld8s_high_lost : ¬Right i386 0 filledState (.ld8s 0 0 0#32) := by
  intro hright
  have hsign := (right_ld8s_iff i386 0 filledState 0 0 0#32).1 hright
  exact absurd hsign (by decide)

end Ar7Qemu.Tcg.Expand
