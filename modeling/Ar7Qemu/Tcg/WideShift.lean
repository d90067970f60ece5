import Ar7Qemu.Lib.Temporaries
import Ar7Qemu.Tcg.ExpandSound
import Mathlib.Tactic.Ring

/-! Shifts by a constant and the multiplication of 64-bit values on a 32-bit host. Both put the
result together from the halves of the operands, with shifts that must stay below 32. -/

namespace Ar7Qemu.Tcg.Expand

open Lib

/-! ### Variables of 32 and of 64 bits -/

/-- The operations whose second operand must be less than 32. -/
def BinOp.Bounded : BinOp → Prop
  | .shl | .shr | .sar | .rotl | .rotr => True
  | _ => False

/-- A shift by the size of the operand, or more, is not defined. -/
def Op.Defined (σ : State) : Op → Prop
  | .bin f _ _ arg2 => f.Bounded → (σ.vals arg2).toNat < 32
  | .call64 _ _ _ _ _ arg2Low arg2High => (σ.vals arg2High ++ σ.vals arg2Low).toNat < 64
  | _ => True

/-- The operations with the 32-bit variables. -/
def machine32 (h : Host) : Machine Op State Temp (BitVec 32) (Lib.WordBytes.Memory 32) Temp 32 where
  exec := Op.exec h
  Defined := Op.Defined
  content := State.vals
  rest := State.mem
  cells t := {t}
  val := State.vals
  Used := Old
  temp := .scratch
  val_congr _ _ v hcells := hcells v rfl
  apart _ _ _ hv hv' := hv.symm.trans hv'
  used_succ _ _ ht := ht.succ
  used_temp k c hc := by
    obtain rfl := hc
    exact Nat.lt_succ_self k
  unused_temp k c hc := by
    obtain rfl := hc
    exact Nat.lt_irrefl k
  cells_temp _ := ⟨_, rfl⟩

/-- The 64-bit variables: those of the generated code, and temporaries, which are two scratch
temporaries in a row. -/
inductive Wide where
  | var (n : ℕ)
  | scratch (n : ℕ)
  deriving DecidableEq

/-- `TCGV_LOW`. -/
def Wide.low : Wide → Temp
  | .var n => .low n
  | .scratch n => .scratch (2 * n)

/-- `TCGV_HIGH`. -/
def Wide.high : Wide → Temp
  | .var n => .high n
  | .scratch n => .scratch (2 * n + 1)

@[simp] theorem Wide.low_scratch (n : ℕ) : (Wide.scratch n).low = .scratch (2 * n) := rfl

@[simp] theorem Wide.high_scratch (n : ℕ) : (Wide.scratch n).high = .scratch (2 * n + 1) := rfl

theorem Wide.low_injective : Function.Injective Wide.low := by
  rintro (m | m) (n | n) heq
  · exact congrArg Wide.var (Temp.low.inj heq)
  · cases heq
  · cases heq
  · have := Temp.scratch.inj heq
    exact congrArg Wide.scratch (by omega)

theorem Wide.high_injective : Function.Injective Wide.high := by
  rintro (m | m) (n | n) heq
  · exact congrArg Wide.var (Temp.high.inj heq)
  · cases heq
  · cases heq
  · have := Temp.scratch.inj heq
    exact congrArg Wide.scratch (by omega)

theorem Wide.low_ne_high (x y : Wide) : x.low ≠ y.high := by
  intro heq
  cases x with
  | var m =>
    cases y with
    | var n => cases heq
    | scratch n => cases heq
  | scratch m =>
    cases y with
    | var n => cases heq
    | scratch n =>
      have := Temp.scratch.inj heq
      omega

/-- The operations with the 64-bit variables. -/
def machinePair (h : Host) : Machine Op State Temp (BitVec 32) (Lib.WordBytes.Memory 32) Wide 64 where
  exec := Op.exec h
  Defined := Op.Defined
  content := State.vals
  rest := State.mem
  cells x := {x.low, x.high}
  val σ x := σ.vals x.high ++ σ.vals x.low
  Used k := Old (2 * k)
  temp := .scratch
  val_congr σ σ' x hcells := by
    rw [hcells x.high (Set.mem_insert_of_mem _ rfl), hcells x.low (Set.mem_insert _ _)]
  apart x y c hx hy := by
    rcases hx with rfl | rfl
    · rcases hy with heq | heq
      · exact Wide.low_injective heq
      · exact absurd heq (Wide.low_ne_high x y)
    · rcases hy with heq | heq
      · exact absurd heq.symm (Wide.low_ne_high y x)
      · exact Wide.high_injective heq
  used_succ _ _ ht := ht.succ.succ
  used_temp k c hc := by
    rcases hc with rfl | rfl
    · exact Nat.lt_add_of_pos_right (by decide)
    · exact Nat.lt_succ_self (2 * k + 1)
  unused_temp k c hc := by
    rcases hc with rfl | rfl
    · exact Nat.lt_irrefl (2 * k)
    · exact Nat.not_lt.2 (Nat.le_succ (2 * k))
  cells_temp _ := ⟨_, Set.mem_insert _ _⟩

/-! ### The generators of 32-bit operations, with what they execute -/

section Gen32

variable {h : Host} {k : ℕ} {σ : State} {ret arg : Temp} {v : BitVec 32} {p : List Op}

theorem Sets.computes (hsets : Sets k σ (run h p σ) ret v) (hsafe : (machine32 h).Safe p σ) :
    (machine32 h).Computes k p σ ret v :=
  ⟨hsafe, hsets.self, hsets.mem, fun c hc hne => hsets.others c hc fun heq => hne ret rfl heq⟩

theorem inUse32 {t : Temp} (ht : Old k t) : (machine32 h).InUse k t := by
  rintro c rfl
  exact ht

theorem vals_kept {t : Temp} (hset : (machine32 h).Computes k p σ ret v) (ht : Old k t) (hne : t ≠ ret) :
    (run h p σ).vals t = σ.vals t := hset.others (inUse32 ht) hne

theorem computes_mov (k : ℕ) (σ : State) (ret arg : Temp) :
    (machine32 h).Computes k (tcgGenMovI32 ret arg) σ ret (σ.vals arg) := by
  refine (sets_mov k σ ret arg).computes ?_
  unfold tcgGenMovI32
  split_ifs
  · exact ⟨trivial, trivial⟩
  · trivial

theorem computes_movi (k : ℕ) (σ : State) (ret : Temp) (v : BitVec 32) :
    (machine32 h).Computes k (tcgGenMoviI32 ret v) σ ret v :=
  (sets_movi k σ ret v).computes ⟨trivial, trivial⟩

theorem computes_or (k : ℕ) (σ : State) (ret arg1 arg2 : Temp) :
    (machine32 h).Computes k (tcgGenOrI32 ret arg1 arg2) σ ret (σ.vals arg1 ||| σ.vals arg2) := by
  refine (sets_or k σ ret arg1 arg2).computes ?_
  unfold tcgGenOrI32 tcgGenIdemI32
  split_ifs
  · exact (computes_mov k σ ret arg1).safe
  · exact ⟨False.elim, trivial⟩

theorem safe_shifti (f : BinOp) (hv : v.toNat < 32) : (machine32 h).Safe (tcgGenShiftiI32 k f ret arg v) σ := by
  unfold tcgGenShiftiI32
  split_ifs
  · exact (computes_mov k σ ret arg).safe
  · refine Machine.safe_append.2 ⟨⟨trivial, trivial⟩, fun _ => ?_, trivial⟩
    have hconst : ((machine32 h).run (tcgConstI32 k v) σ).vals (.scratch k) = v :=
      (sets_movi (h := h) (k + 1) σ (.scratch k) v).self
    exact lt_of_eq_of_lt (congrArg BitVec.toNat hconst) hv

theorem computes_shli (harg : Old k arg) (σ : State) (ret : Temp) (hv : v.toNat < 32) :
    (machine32 h).Computes k (tcgGenShliI32 k ret arg v) σ ret (σ.vals arg <<< v.toNat) :=
  (sets_shli harg σ ret v).computes (safe_shifti _ hv)

theorem computes_shri (harg : Old k arg) (σ : State) (ret : Temp) (hv : v.toNat < 32) :
    (machine32 h).Computes k (tcgGenShriI32 k ret arg v) σ ret (σ.vals arg >>> v.toNat) :=
  (sets_shri harg σ ret v).computes (safe_shifti _ hv)

theorem computes_sari (harg : Old k arg) (σ : State) (ret : Temp) (hv : v.toNat < 32) :
    (machine32 h).Computes k (tcgGenSariI32 k ret arg v) σ ret ((σ.vals arg).sshiftRight v.toNat) :=
  (sets_sari harg σ ret v).computes (safe_shifti _ hv)

theorem computes_op {op : Op} (hdefined : op.Defined σ) (hexec : op.exec h σ = σ.set ret v) :
    (machine32 h).Computes k [op] σ ret v := by
  have hsets := sets_set k σ ret v
  rw [← hexec] at hsets
  exact hsets.computes ⟨hdefined, trivial⟩

end Gen32

/-! ### Both halves -/

section Halves

variable {h : Host} {k : ℕ} {σ σ' : State} {ret : Wide} {u v : BitVec 32} {p q : List Op}

theorem Wide.old_low {x : Wide} (hx : (machinePair h).InUse k x) : Old (2 * k) x.low := hx _ (Set.mem_insert _ _)

theorem Wide.old_high {x : Wide} (hx : (machinePair h).InUse k x) : Old (2 * k) x.high :=
  hx _ (Set.mem_insert_of_mem _ rfl)

theorem keeps_pair (hkeeps : (machine32 h).Keeps (2 * k) {ret.low, ret.high} σ σ') :
    (machinePair h).Keeps k {ret} σ σ' := by
  refine ⟨hkeeps.rest, fun c hc hne => hkeeps.content c hc ?_⟩
  rintro t ht rfl
  exact hne ret rfl ht

theorem safe_pair : (machinePair h).Safe p σ ↔ (machine32 h).Safe p σ := by
  induction p generalizing σ with
  | nil => exact Iff.rfl
  | cons op p ih => exact and_congr_right fun _ => ih

theorem computes_low_high (hret : (machinePair h).InUse k ret) (hlow : (machine32 h).Computes (2 * k) p σ ret.low v)
    (hhigh : (machine32 h).Computes (2 * k) q (run h p σ) ret.high u) :
    (machinePair h).Computes k (p ++ q) σ ret (u ++ v) := by
  refine ⟨safe_pair.2 (Machine.safe_append.2 ⟨hlow.safe, hhigh.safe⟩), ?_, ?_⟩
  · rw [Machine.run_append]
    have hkept := hhigh.others (inUse32 (Wide.old_low hret)) (Wide.low_ne_high ret ret)
    exact congrArg₂ (fun a b : BitVec 32 => a ++ b) hhigh.self (hkept.trans hlow.self)
  · rw [Machine.run_append]
    exact keeps_pair ((hlow.keeps.mono (by simp)).trans (hhigh.keeps.mono (by simp)))

theorem computes_high_low (hret : (machinePair h).InUse k ret) (hhigh : (machine32 h).Computes (2 * k) p σ ret.high u)
    (hlow : (machine32 h).Computes (2 * k) q (run h p σ) ret.low v) :
    (machinePair h).Computes k (p ++ q) σ ret (u ++ v) := by
  refine ⟨safe_pair.2 (Machine.safe_append.2 ⟨hhigh.safe, hlow.safe⟩), ?_, ?_⟩
  · rw [Machine.run_append]
    have hkept := hlow.others (inUse32 (Wide.old_high hret)) (Wide.low_ne_high ret ret).symm
    exact congrArg₂ (fun a b : BitVec 32 => a ++ b) (hkept.trans hhigh.self) hlow.self
  · rw [Machine.run_append]
    exact keeps_pair ((hhigh.keeps.mono (by simp)).trans (hlow.keeps.mono (by simp)))

/-- Two temporaries take what one half of the operand gives to both halves of the result; then the
other half is computed and put together, and the first one moved to its place. -/
theorem computes_two_halves {x y dy : Temp} {f g m : BitVec 32 → BitVec 32} {p₀ p₁ p₂ : List Op}
    (hx : Old (2 * k) x) (hy : Old (2 * k) y) (hdy : Old (2 * k) dy)
    (hp₀ : ∀ τ, (machine32 h).Computes (2 * k + 2) p₀ τ (.scratch (2 * k)) (g (τ.vals x)))
    (hp₁ : ∀ τ, (machine32 h).Computes (2 * k + 2) p₁ τ (.scratch (2 * k + 1)) (f (τ.vals x)))
    (hp₂ : ∀ τ, (machine32 h).Computes (2 * k + 2) p₂ τ dy (m (τ.vals y))) (σ : State) (dx : Temp) :
    (machine32 h).Computes (2 * k) (p₀ ++ p₁ ++ p₂ ++ tcgGenOrI32 dy dy (.scratch (2 * k))) σ dy
        (m (σ.vals y) ||| g (σ.vals x)) ∧
      (machine32 h).Computes (2 * k) (tcgGenMovI32 dx (.scratch (2 * k + 1)))
        (run h (p₀ ++ p₁ ++ p₂ ++ tcgGenOrI32 dy dy (.scratch (2 * k))) σ) dx (f (σ.vals x)) := by
  have hfirst : Old (2 * k + 2) (.scratch (2 * k)) := Nat.lt_add_of_pos_right (by decide)
  have hsecond : Old (2 * k + 2) (.scratch (2 * k + 1)) := Nat.lt_succ_self (2 * k + 1)
  have hne : Temp.scratch (2 * k) ≠ dy := hdy.ne_scratch.symm
  have hne' : Temp.scratch (2 * k + 1) ≠ dy := hdy.succ.ne_scratch.symm
  have hx₀ : (run h p₀ σ).vals x = σ.vals x := vals_kept (hp₀ σ) hx.succ.succ hx.ne_scratch
  have hold : (machine32 h).Holds (2 * k) (p₀ ++ p₁) σ (g (σ.vals x)) (f (σ.vals x)) := by
    have hset := hp₁ (run h p₀ σ)
    rw [hx₀] at hset
    exact ((Machine.holds_nil (machine32 h) (2 * k) σ).set_first (hp₀ σ)).set_second hset
  have hset := hp₂ (run h (p₀ ++ p₁) σ)
  have hy₁ : (run h (p₀ ++ p₁) σ).vals y = σ.vals y := hold.val (inUse32 hy)
  rw [hy₁] at hset
  have hhalf := hold.computes hset
  have hself : (run h (p₀ ++ p₁ ++ p₂) σ).vals dy = m (σ.vals y) := hhalf.self
  have ha : (run h (p₀ ++ p₁ ++ p₂) σ).vals (.scratch (2 * k)) = g (σ.vals x) := by
    rw [run_append, vals_kept hset hfirst hne]
    exact hold.first
  have hb : (run h (p₀ ++ p₁ ++ p₂) σ).vals (.scratch (2 * k + 1)) = f (σ.vals x) := by
    rw [run_append, vals_kept hset hsecond hne']
    exact hold.second
  have hor : ∀ n, (machine32 h).Computes n (tcgGenOrI32 dy dy (.scratch (2 * k))) (run h (p₀ ++ p₁ ++ p₂) σ) dy
      (m (σ.vals y) ||| g (σ.vals x)) := by
    intro n
    have hor := computes_or (h := h) n (run h (p₀ ++ p₁ ++ p₂) σ) dy dy (.scratch (2 * k))
    rwa [hself, ha] at hor
  refine ⟨hhalf.trans (hor (2 * k)), ?_⟩
  have hmov := computes_mov (h := h) (2 * k) (run h (p₀ ++ p₁ ++ p₂ ++ tcgGenOrI32 dy dy (.scratch (2 * k))) σ) dx
    (.scratch (2 * k + 1))
  rwa [run_append (p₀ ++ p₁ ++ p₂), vals_kept (hor (2 * k + 2)) hsecond hne', hb, ← run_append] at hmov

end Halves

/-! ### The shifts by a constant -/

section Shift

variable (k : ℕ)

def tcgGenShiftiI64 (ret arg1 : Wide) (c : ℕ) (right arith : Bool) : List Op :=
  if c = 0 then tcgGenMovI32 ret.low arg1.low ++ tcgGenMovI32 ret.high arg1.high
  else if 32 ≤ c then
    if right then
      if arith then
        tcgGenSariI32 (2 * k) ret.low arg1.high (BitVec.ofNat 32 (c - 32)) ++
          tcgGenSariI32 (2 * k) ret.high arg1.high 31#32
      else
        tcgGenShriI32 (2 * k) ret.low arg1.high (BitVec.ofNat 32 (c - 32)) ++ tcgGenMoviI32 ret.high 0#32
    else tcgGenShliI32 (2 * k) ret.high arg1.low (BitVec.ofNat 32 (c - 32)) ++ tcgGenMoviI32 ret.low 0#32
  else
    let t0 := Temp.scratch (2 * k)
    let t1 := Temp.scratch (2 * k + 1)
    if right then
      tcgGenShliI32 (2 * k + 2) t0 arg1.high (BitVec.ofNat 32 (32 - c)) ++
        (if arith then tcgGenSariI32 (2 * k + 2) t1 arg1.high (BitVec.ofNat 32 c)
        else tcgGenShriI32 (2 * k + 2) t1 arg1.high (BitVec.ofNat 32 c)) ++
        tcgGenShriI32 (2 * k + 2) ret.low arg1.low (BitVec.ofNat 32 c) ++ tcgGenOrI32 ret.low ret.low t0 ++
        tcgGenMovI32 ret.high t1
    else
      tcgGenShriI32 (2 * k + 2) t0 arg1.low (BitVec.ofNat 32 (32 - c)) ++
        tcgGenShliI32 (2 * k + 2) t1 arg1.low (BitVec.ofNat 32 c) ++
        tcgGenShliI32 (2 * k + 2) ret.high arg1.high (BitVec.ofNat 32 c) ++ tcgGenOrI32 ret.high ret.high t0 ++
        tcgGenMovI32 ret.low t1

def tcgGenShliI64 (ret arg1 : Wide) (arg2 : ℕ) : List Op := tcgGenShiftiI64 k ret arg1 arg2 false false

def tcgGenShriI64 (ret arg1 : Wide) (arg2 : ℕ) : List Op := tcgGenShiftiI64 k ret arg1 arg2 true false

def tcgGenSariI64 (ret arg1 : Wide) (arg2 : ℕ) : List Op := tcgGenShiftiI64 k ret arg1 arg2 true true

end Shift

def shift64 (right arith : Bool) (x : BitVec 64) (c : ℕ) : BitVec 64 :=
  if right then if arith then x.sshiftRight c else x >>> c else x <<< c

/-! ### The halves of a shifted value -/

section ShiftedHalves

theorem lo_shiftLeft (x : BitVec 64) (c : ℕ) : lo (x <<< c) = lo x <<< c := by
  apply BitVec.eq_of_getLsbD_eq
  intro i hi
  simp only [getLsbD_lo, BitVec.getLsbD_shiftLeft]
  simp [hi, show i < 64 by omega, show i - c < 32 by omega]

theorem hi_shiftLeft (x : BitVec 64) {c : ℕ} (hc : c < 32) : hi (x <<< c) = hi x <<< c ||| lo x >>> (32 - c) := by
  apply BitVec.eq_of_getLsbD_eq
  intro i hi
  simp only [getLsbD_hi, getLsbD_lo, BitVec.getLsbD_shiftLeft, BitVec.getLsbD_or, BitVec.getLsbD_ushiftRight]
  by_cases hic : i < c
  · simp [hi, hic, show 32 + i < 64 by omega, show ¬32 + i < c by omega, show 32 - c + i < 32 by omega,
      show 32 + i - c = 32 - c + i by omega]
  · simp [hi, hic, show 32 + i < 64 by omega, show ¬32 + i < c by omega, show ¬32 - c + i < 32 by omega,
      show i - c < 32 by omega, show 32 + i - c = 32 + (i - c) by omega]

theorem hi_shiftLeft_wide (x : BitVec 64) {c : ℕ} (hc : 32 ≤ c) : hi (x <<< c) = lo x <<< (c - 32) := by
  apply BitVec.eq_of_getLsbD_eq
  intro i hi
  simp only [getLsbD_hi, getLsbD_lo, BitVec.getLsbD_shiftLeft]
  by_cases hic : i < c - 32
  · simp [hi, hic, show 32 + i < c by omega]
  · simp [hi, hic, show 32 + i < 64 by omega, show ¬32 + i < c by omega, show i - (c - 32) < 32 by omega,
      show 32 + i - c = i - (c - 32) by omega]

theorem lo_shiftLeft_wide (x : BitVec 64) {c : ℕ} (hc : 32 ≤ c) : lo (x <<< c) = 0#32 := by
  apply BitVec.eq_of_getLsbD_eq
  intro i hi
  simp [getLsbD_lo, show i < c by omega]

theorem lo_ushiftRight (x : BitVec 64) {c : ℕ} (hc : c < 32) : lo (x >>> c) = lo x >>> c ||| hi x <<< (32 - c) := by
  apply BitVec.eq_of_getLsbD_eq
  intro i hi
  simp only [getLsbD_hi, getLsbD_lo, BitVec.getLsbD_shiftLeft, BitVec.getLsbD_or, BitVec.getLsbD_ushiftRight]
  by_cases hic : c + i < 32
  · simp [hi, hic, show i < 32 - c by omega]
  · simp [hi, hic, show ¬i < 32 - c by omega, show i - (32 - c) < 32 by omega,
      show 32 + (i - (32 - c)) = c + i by omega]

theorem hi_ushiftRight (x : BitVec 64) (c : ℕ) : hi (x >>> c) = hi x >>> c := by
  apply BitVec.eq_of_getLsbD_eq
  intro i hi
  simp only [getLsbD_hi, BitVec.getLsbD_ushiftRight]
  by_cases hic : c + i < 32
  · simp [hi, hic, show c + (32 + i) = 32 + (c + i) by omega]
  · simp [hic, BitVec.getLsbD_of_ge x (c + (32 + i)) (by omega)]

theorem lo_ushiftRight_wide (x : BitVec 64) {c : ℕ} (hc : 32 ≤ c) : lo (x >>> c) = hi x >>> (c - 32) := by
  apply BitVec.eq_of_getLsbD_eq
  intro i hi
  simp only [getLsbD_hi, getLsbD_lo, BitVec.getLsbD_ushiftRight]
  by_cases hic : c - 32 + i < 32
  · simp [hi, hic, show 32 + (c - 32 + i) = c + i by omega]
  · simp [hic, BitVec.getLsbD_of_ge x (c + i) (by omega)]

theorem msb_hi (x : BitVec 64) : (hi x).msb = x.msb := by
  rw [BitVec.msb_eq_getLsbD_last, BitVec.msb_eq_getLsbD_last, getLsbD_hi]
  simp

theorem lo_sshiftRight (x : BitVec 64) {c : ℕ} (hc : c < 32) :
    lo (x.sshiftRight c) = lo x >>> c ||| hi x <<< (32 - c) := by
  rw [← lo_ushiftRight x hc]
  apply BitVec.eq_of_getLsbD_eq
  intro i hi
  simp [getLsbD_lo, BitVec.getLsbD_sshiftRight, show c + i < 64 by omega, show ¬64 ≤ i by omega]

theorem hi_sshiftRight (x : BitVec 64) (c : ℕ) : hi (x.sshiftRight c) = (hi x).sshiftRight c := by
  apply BitVec.eq_of_getLsbD_eq
  intro i hi
  simp only [getLsbD_hi, BitVec.getLsbD_sshiftRight, msb_hi]
  by_cases hic : c + i < 32
  · simp [hi, hic, show c + (32 + i) = 32 + (c + i) by omega, show 32 + (c + i) < 64 by omega,
      show ¬64 ≤ 32 + i by omega, show ¬32 ≤ i by omega]
  · simp [hi, hic, show ¬c + (32 + i) < 64 by omega, show ¬64 ≤ 32 + i by omega, show ¬32 ≤ i by omega]

theorem lo_sshiftRight_wide (x : BitVec 64) {c : ℕ} (hc : 32 ≤ c) : lo (x.sshiftRight c) = (hi x).sshiftRight (c - 32) := by
  apply BitVec.eq_of_getLsbD_eq
  intro i hi
  simp only [getLsbD_hi, getLsbD_lo, BitVec.getLsbD_sshiftRight, msb_hi]
  by_cases hic : c - 32 + i < 32
  · simp [hi, hic, show c + i < 64 by omega, show 32 + (c - 32 + i) = c + i by omega, show ¬64 ≤ i by omega,
      show ¬32 ≤ i by omega]
  · simp [hi, hic, show ¬c + i < 64 by omega, show ¬64 ≤ i by omega, show ¬32 ≤ i by omega]

theorem sshiftRight_ge (x : BitVec 32) {c : ℕ} (hc : 31 ≤ c) : x.sshiftRight c = x.sshiftRight 31 := by
  apply BitVec.eq_of_getLsbD_eq
  intro i hi
  rw [getLsbD_sign x hi, BitVec.getLsbD_sshiftRight]
  by_cases h0 : c + i < 32
  · obtain rfl : i = 0 := by omega
    obtain rfl : c = 31 := by omega
    simp [BitVec.msb_eq_getLsbD_last]
  · simp [h0, show ¬32 ≤ i by omega]

end ShiftedHalves

/-! ### The shifts are right -/

section ShiftSound

variable {h : Host} {k : ℕ} {ret arg1 : Wide} {c : ℕ}

theorem toNat_count (hc : c < 2 ^ 32) : (BitVec.ofNat 32 c).toNat = c := by
  rw [BitVec.toNat_ofNat, Nat.mod_eq_of_lt hc]

theorem wide_eq {x : BitVec 64} {u v : BitVec 32} (hu : hi x = u) (hv : lo x = v) : u ++ v = x := by
  apply BitVec.eq_of_getLsbD_eq
  intro i hi
  rw [getLsbD_wide]
  split_ifs with hlt
  · rw [← hv, getLsbD_lo]
    simp [hlt]
  · rw [← hu, getLsbD_hi, show 32 + (i - 32) = i by omega]
    simp [show i - 32 < 32 by omega]

theorem hi_val (σ : State) (x : Wide) : hi ((machinePair h).val σ x) = σ.vals x.high := hi_append _ _

theorem lo_val (σ : State) (x : Wide) : lo ((machinePair h).val σ x) = σ.vals x.low := lo_append _ _

theorem computes_mov_pair (hret : (machinePair h).InUse k ret) (harg : (machinePair h).InUse k arg1) (σ : State) :
    (machinePair h).Computes k (tcgGenMovI32 ret.low arg1.low ++ tcgGenMovI32 ret.high arg1.high) σ ret
      ((machinePair h).val σ arg1) := by
  have hlow := computes_mov (h := h) (2 * k) σ ret.low arg1.low
  have hhigh := computes_mov (h := h) (2 * k) (run h (tcgGenMovI32 ret.low arg1.low) σ) ret.high arg1.high
  rw [vals_kept hlow (Wide.old_high harg) (Wide.low_ne_high ret arg1).symm] at hhigh
  exact computes_low_high hret hlow hhigh

theorem computes_right_far {v : BitVec 32} {p : List Op} (hret : (machinePair h).InUse k ret)
    (harg : (machinePair h).InUse k arg1) (σ : State) (hlow : (machine32 h).Computes (2 * k) p σ ret.low v) :
    (machinePair h).Computes k (p ++ tcgGenSariI32 (2 * k) ret.high arg1.high 31#32) σ ret
      ((σ.vals arg1.high).sshiftRight 31 ++ v) := by
  have hhigh := computes_sari (h := h) (v := 31#32) (Wide.old_high harg) (run h p σ) ret.high (by decide)
  rw [vals_kept hlow (Wide.old_high harg) (Wide.low_ne_high ret arg1).symm] at hhigh
  exact computes_low_high hret hlow hhigh

theorem computes_count_shli {x t : Temp} {n : ℕ} (hx : Old k x) (hn : n < 32) (τ : State) :
    (machine32 h).Computes k (tcgGenShliI32 k t x (BitVec.ofNat 32 n)) τ t (τ.vals x <<< n) := by
  have hcount := toNat_count (c := n) (by omega)
  have hset := computes_shli (h := h) (v := BitVec.ofNat 32 n) hx τ t (by omega)
  rwa [hcount] at hset

theorem computes_count_shri {x t : Temp} {n : ℕ} (hx : Old k x) (hn : n < 32) (τ : State) :
    (machine32 h).Computes k (tcgGenShriI32 k t x (BitVec.ofNat 32 n)) τ t (τ.vals x >>> n) := by
  have hcount := toNat_count (c := n) (by omega)
  have hset := computes_shri (h := h) (v := BitVec.ofNat 32 n) hx τ t (by omega)
  rwa [hcount] at hset

theorem computes_count_sari {x t : Temp} {n : ℕ} (hx : Old k x) (hn : n < 32) (τ : State) :
    (machine32 h).Computes k (tcgGenSariI32 k t x (BitVec.ofNat 32 n)) τ t ((τ.vals x).sshiftRight n) := by
  have hcount := toNat_count (c := n) (by omega)
  have hset := computes_sari (h := h) (v := BitVec.ofNat 32 n) hx τ t (by omega)
  rwa [hcount] at hset

theorem computes_shifti (hret : (machinePair h).InUse k ret) (harg : (machinePair h).InUse k arg1) (σ : State)
    (hc : c < 64) (right arith : Bool) :
    (machinePair h).Computes k (tcgGenShiftiI64 k ret arg1 c right arith) σ ret
      (shift64 right arith ((machinePair h).val σ arg1) c) := by
  have hlow := Wide.old_low harg
  have hhigh := Wide.old_high harg
  have hrlow := Wide.old_low hret
  have hrhigh := Wide.old_high hret
  unfold tcgGenShiftiI64
  by_cases h0 : c = 0
  · subst h0
    have hzero : shift64 right arith ((machinePair h).val σ arg1) 0 = (machinePair h).val σ arg1 := by
      unfold shift64
      split_ifs <;> simp
    rw [hzero, if_pos rfl]
    exact computes_mov_pair hret harg σ
  rw [if_neg h0]
  by_cases h32 : 32 ≤ c
  · rw [if_pos h32]
    cases right with
    | false =>
      have hset := computes_count_shli (h := h) (t := ret.high) (n := c - 32) hlow (by omega) σ
      have hval := wide_eq (hi_shiftLeft_wide ((machinePair h).val σ arg1) h32) (lo_shiftLeft_wide _ h32)
      rw [lo_val] at hval
      have hboth := computes_high_low hret hset (computes_movi (2 * k) _ ret.low 0#32)
      rw [hval] at hboth
      exact hboth
    | true =>
      cases arith with
      | false =>
        have hset := computes_count_shri (h := h) (t := ret.low) (n := c - 32) hhigh (by omega) σ
        have hzero : hi ((machinePair h).val σ arg1 >>> c) = 0#32 := by
          rw [hi_ushiftRight, BitVec.ushiftRight_eq_zero h32]
        have hval := wide_eq hzero (lo_ushiftRight_wide _ h32)
        rw [hi_val] at hval
        have hboth := computes_low_high hret hset (computes_movi (2 * k) _ ret.high 0#32)
        rw [hval] at hboth
        exact hboth
      | true =>
        have hset := computes_count_sari (h := h) (t := ret.low) (n := c - 32) hhigh (by omega) σ
        have hsign : hi (((machinePair h).val σ arg1).sshiftRight c) = (σ.vals arg1.high).sshiftRight 31 := by
          rw [hi_sshiftRight, hi_val, sshiftRight_ge _ (by omega)]
        have hval := wide_eq hsign (lo_sshiftRight_wide _ h32)
        rw [hi_val] at hval
        have hboth := computes_right_far hret harg σ hset
        rw [hval] at hboth
        exact hboth
  · rw [if_neg h32]
    have hlt : c < 32 := by omega
    dsimp only
    cases right with
    | false =>
      have hparts := computes_two_halves (h := h) (f := fun x => x <<< c) (g := fun x => x >>> (32 - c))
        (m := fun x => x <<< c) hlow hhigh hrhigh
        (fun τ => computes_count_shri hlow.succ.succ (show 32 - c < 32 by omega) τ)
        (fun τ => computes_count_shli hlow.succ.succ hlt τ) (fun τ => computes_count_shli hhigh.succ.succ hlt τ) σ ret.low
      have hval := wide_eq (hi_shiftLeft ((machinePair h).val σ arg1) hlt) (lo_shiftLeft _ c)
      rw [hi_val, lo_val] at hval
      have hboth := computes_high_low hret hparts.1 hparts.2
      rw [hval] at hboth
      exact hboth
    | true =>
      cases arith with
      | false =>
        have hparts := computes_two_halves (h := h) (f := fun x => x >>> c) (g := fun x => x <<< (32 - c))
          (m := fun x => x >>> c) hhigh hlow hrlow
          (fun τ => computes_count_shli hhigh.succ.succ (show 32 - c < 32 by omega) τ)
          (fun τ => computes_count_shri hhigh.succ.succ hlt τ) (fun τ => computes_count_shri hlow.succ.succ hlt τ) σ ret.high
        have hval := wide_eq (hi_ushiftRight ((machinePair h).val σ arg1) c) (lo_ushiftRight _ hlt)
        rw [hi_val, lo_val] at hval
        have hboth := computes_low_high hret hparts.1 hparts.2
        rw [hval] at hboth
        exact hboth
      | true =>
        have hparts := computes_two_halves (h := h) (f := fun x => x.sshiftRight c)
          (g := fun x => x <<< (32 - c)) (m := fun x => x >>> c) hhigh hlow hrlow
          (fun τ => computes_count_shli hhigh.succ.succ (show 32 - c < 32 by omega) τ)
          (fun τ => computes_count_sari hhigh.succ.succ hlt τ) (fun τ => computes_count_shri hlow.succ.succ hlt τ) σ ret.high
        have hval := wide_eq (hi_sshiftRight ((machinePair h).val σ arg1) c) (lo_sshiftRight _ hlt)
        rw [hi_val, lo_val] at hval
        have hboth := computes_low_high hret hparts.1 hparts.2
        rw [hval] at hboth
        exact hboth

end ShiftSound

/-! ### The halves of a product -/

section ProductHalves

theorem toNat_wide (x : BitVec 64) : x.toNat = (hi x).toNat * 2 ^ 32 + (lo x).toNat := by
  have := x.isLt
  simp only [hi, lo, BitVec.extractLsb'_toNat, BitVec.toNat_setWidth]
  omega

theorem lo_mul (x y : BitVec 64) : lo (x * y) = lo ((lo x).setWidth 64 * (lo y).setWidth 64) := by
  apply BitVec.eq_of_toNat_eq
  simp only [lo, BitVec.toNat_setWidth, BitVec.toNat_mul]
  simp [Nat.mul_mod]

theorem toNat_hi (x : BitVec 64) : (hi x).toNat = x.toNat / 2 ^ 32 := by
  have := x.isLt
  simp only [hi, BitVec.extractLsb'_toNat]
  omega

theorem mul_div_mod (a b c d : ℕ) :
    (a * 2 ^ 32 + b) * (c * 2 ^ 32 + d) / 2 ^ 32 % 2 ^ 32 = (b * d / 2 ^ 32 + b * c + a * d) % 2 ^ 32 := by
  have hsplit : (a * 2 ^ 32 + b) * (c * 2 ^ 32 + d) = b * d + 2 ^ 32 * (b * c + a * d + 2 ^ 32 * (a * c)) := by ring
  rw [hsplit, Nat.add_mul_div_left _ _ (by decide), ← Nat.add_assoc, Nat.add_mul_mod_self_left, Nat.add_assoc]

theorem hi_mul (x y : BitVec 64) :
    hi (x * y) = hi ((lo x).setWidth 64 * (lo y).setWidth 64) + lo x * hi y + hi x * lo y := by
  have hwidth : ∀ z : BitVec 32, (z.setWidth 64).toNat = z.toNat := fun z => by
    have := z.isLt
    rw [BitVec.toNat_setWidth, Nat.mod_eq_of_lt (by omega)]
  have hmod : ∀ n : ℕ, n % 2 ^ 64 / 2 ^ 32 = n / 2 ^ 32 % 2 ^ 32 := fun n => by omega
  apply BitVec.eq_of_toNat_eq
  rw [toNat_hi, BitVec.toNat_mul, hmod, toNat_wide x, toNat_wide y, mul_div_mod]
  simp only [BitVec.toNat_add, BitVec.toNat_mul, toNat_hi ((lo x).setWidth 64 * _), hwidth, hmod]
  simp

end ProductHalves

/-! ### The multiplication -/

def tcgGenMovI64 (ret arg : Wide) : List Op :=
  if ret ≠ arg then tcgGenMovI32 ret.low arg.low ++ tcgGenMovI32 ret.high arg.high else []

/-- What `tcg_gen_mul_i64` computes in its temporary. -/
def mulOps (k : ℕ) (arg1 arg2 : Wide) : List Op :=
  let t0 := Wide.scratch k
  let t1 := Temp.scratch (2 * k + 2)
  [.mulu2 t0.low t0.high arg1.low arg2.low, .bin .mul t1 arg1.low arg2.high, .bin .add t0.high t0.high t1,
    .bin .mul t1 arg1.high arg2.low, .bin .add t0.high t0.high t1]

def tcgGenMulI64 (k : ℕ) (ret arg1 arg2 : Wide) : List Op := mulOps k arg1 arg2 ++ tcgGenMovI64 ret (.scratch k)

section Mul

variable {h : Host} {k : ℕ} {ret arg1 arg2 : Wide}

theorem computes_movI64 (hret : (machinePair h).InUse k ret) (harg : (machinePair h).InUse k arg1) (σ : State) :
    (machinePair h).Computes k (tcgGenMovI64 ret arg1) σ ret ((machinePair h).val σ arg1) := by
  unfold tcgGenMovI64
  split_ifs with hne
  · exact computes_mov_pair hret harg σ
  · rw [not_not] at hne
    exact ⟨trivial, by rw [hne]; rfl, Machine.Keeps.refl _ _ _ _⟩

theorem Old.ne_temps {t : Temp} (ht : Old (2 * k) t) :
    t ≠ .scratch (2 * k) ∧ t ≠ .scratch (2 * k + 1) ∧ t ≠ .scratch (2 * k + 2) :=
  ⟨ht.ne_scratch, ht.succ.ne_scratch, ht.succ.succ.ne_scratch⟩

theorem computes_mulOps (h₁ : (machinePair h).InUse k arg1) (h₂ : (machinePair h).InUse k arg2) (σ : State) :
    (machinePair h).Computes (k + 1) (mulOps k arg1 arg2) σ (.scratch k)
      ((machinePair h).val σ arg1 * (machinePair h).val σ arg2) := by
  obtain ⟨hl₁, hl₁', hl₁''⟩ := (Wide.old_low h₁).ne_temps
  obtain ⟨hh₁, hh₁', hh₁''⟩ := (Wide.old_high h₁).ne_temps
  obtain ⟨hl₂, hl₂', hl₂''⟩ := (Wide.old_low h₂).ne_temps
  obtain ⟨hh₂, hh₂', hh₂''⟩ := (Wide.old_high h₂).ne_temps
  have hlow : (run h (mulOps k arg1 arg2) σ).vals (.scratch (2 * k)) =
      lo ((σ.vals arg1.low).setWidth 64 * (σ.vals arg2.low).setWidth 64) := by
    simp [run, mulOps, Op.exec, State.set, State.setPair, lo]
  have hhigh : (run h (mulOps k arg1 arg2) σ).vals (.scratch (2 * k + 1)) =
      hi ((σ.vals arg1.low).setWidth 64 * (σ.vals arg2.low).setWidth 64) + σ.vals arg1.low * σ.vals arg2.high +
        σ.vals arg1.high * σ.vals arg2.low := by
    simp [run, mulOps, Op.exec, State.set, State.setPair, hi, BinOp.eval, hl₁, hl₁', hh₁, hh₁', hh₁'', hl₂, hl₂',
      hl₂'', hh₂, hh₂']
  refine ⟨?_, ?_, rfl, fun c hc hne => ?_⟩
  · simp [mulOps, Machine.Safe, machinePair, Op.Defined, BinOp.Bounded]
  · refine (congrArg₂ (fun a b : BitVec 32 => a ++ b) hhigh hlow).trans (wide_eq ?_ ?_)
    · rw [hi_mul, hi_val, lo_val, hi_val, lo_val]
    · rw [lo_mul, lo_val, lo_val]
  · have hcells : c ≠ .scratch (2 * k) ∧ c ≠ .scratch (2 * k + 1) := by
      simpa [machinePair] using hne
    have hthird : c ≠ .scratch (2 * k + 2) := Old.ne_scratch (k := 2 * (k + 1)) hc
    change (run h (mulOps k arg1 arg2) σ).vals c = σ.vals c
    simp [run, mulOps, Op.exec, State.set, State.setPair, hcells.1, hcells.2, hthird]

theorem computes_mulI64 (hret : (machinePair h).InUse k ret) (h₁ : (machinePair h).InUse k arg1)
    (h₂ : (machinePair h).InUse k arg2) (σ : State) :
    (machinePair h).Computes k (tcgGenMulI64 k ret arg1 arg2) σ ret
      ((machinePair h).val σ arg1 * (machinePair h).val σ arg2) := by
  have hops := computes_mulOps h₁ h₂ σ
  have hmov := computes_movI64 hret.succ (Machine.inUse_temp (machinePair h) k) (run h (mulOps k arg1 arg2) σ)
  have hself : (machinePair h).val (run h (mulOps k arg1 arg2) σ) (.scratch k) =
      (machinePair h).val σ arg1 * (machinePair h).val σ arg2 := hops.self
  have hmov' : (machinePair h).Computes (k + 1) (tcgGenMovI64 ret (.scratch k)) (run h (mulOps k arg1 arg2) σ) ret
      ((machinePair h).val σ arg1 * (machinePair h).val σ arg2) := by
    rw [← hself]
    exact hmov
  exact hops.behind hmov'

end Mul

/-- On a 32-bit host, for all variables in use and every aliasing, a shift by a constant below 64
and the multiplication leave the 64-bit result in the destination and change nothing else in use,
and every shift they execute is by less than 32. -/
theorem tcg_shifti_mul (h : Host) (k : ℕ) (σ : State) (ret arg1 arg2 : Wide)
    (hret : (machinePair h).InUse k ret) (h₁ : (machinePair h).InUse k arg1) (h₂ : (machinePair h).InUse k arg2) :
    (∀ c < 64, ∀ right arith, (machinePair h).Computes k (tcgGenShiftiI64 k ret arg1 c right arith) σ ret
        (shift64 right arith ((machinePair h).val σ arg1) c)) ∧
      (∀ c < 64, (machinePair h).Computes k (tcgGenShliI64 k ret arg1 c) σ ret ((machinePair h).val σ arg1 <<< c) ∧
        (machinePair h).Computes k (tcgGenShriI64 k ret arg1 c) σ ret ((machinePair h).val σ arg1 >>> c) ∧
        (machinePair h).Computes k (tcgGenSariI64 k ret arg1 c) σ ret
          (((machinePair h).val σ arg1).sshiftRight c)) ∧
      (machinePair h).Computes k (tcgGenMulI64 k ret arg1 arg2) σ ret
        ((machinePair h).val σ arg1 * (machinePair h).val σ arg2) := by
  refine ⟨fun c hc right arith => computes_shifti hret h₁ σ hc right arith, fun c hc => ⟨?_, ?_, ?_⟩,
    computes_mulI64 hret h₁ h₂ σ⟩
  · exact computes_shifti hret h₁ σ hc false false
  · exact computes_shifti hret h₁ σ hc true false
  · exact computes_shifti hret h₁ σ hc true true

theorem inUse_var (h : Host) (k n : ℕ) : (machinePair h).InUse k (.var n) := by
  rintro c (rfl | rfl)
  · trivial
  · trivial

theorem shli_by_four : (machinePair i386).Computes 0 (tcgGenShliI64 0 (.var 0) (.var 0) 4) filledState (.var 0)
    0x23456789abcdef00#64 := by
  have hshift := ((tcg_shifti_mul i386 0 filledState (.var 0) (.var 0) (.var 1) (inUse_var _ _ _) (inUse_var _ _ _)
    (inUse_var _ _ _)).2.1 4 (by decide)).1
  have hval : (machinePair i386).val filledState (.var 0) <<< 4 = 0x23456789abcdef00#64 := by decide
  rwa [hval] at hshift

end Ar7Qemu.Tcg.Expand
