import Ar7Qemu.Tcg.Optional
import Mathlib.Tactic.IntervalCases

/-! The generators of the optional operations against the operations. What the generators of a width
do is said once, for all three kinds of variables; the rest follows each expansion. -/

namespace Ar7Qemu.Tcg

open Lib Lib.WordBytes

/-! ### The operations under a renaming -/

namespace OptOp

variable {V W : Type} {w : ℕ} (f : V → W)

theorem conversion_map (op : OptOp V) : (op.map f).Conversion ↔ op.Conversion := by cases op <;> rfl

theorem ret_map (op : OptOp V) : (op.map f).ret = f op.ret := by cases op <;> rfl

theorem vars_map (op : OptOp V) : (op.map f).vars = op.vars.map f := by cases op <;> rfl

theorem eval_map (val : W → BitVec w) (op : OptOp V) : (op.map f).eval val = op.eval fun v => val (f v) := by
  cases op <;> rfl

theorem assumes_map (val : W → BitVec w) (op : OptOp V) : (op.map f).Assumes val ↔ op.Assumes fun v => val (f v) := by
  cases op <;> rfl

theorem map_ne_rotr {f : V → W} {op : OptOp V} (hne : ∀ ret arg1 arg2, op ≠ .rotr ret arg1 arg2) (ret arg1 arg2 : W) :
    op.map f ≠ .rotr ret arg1 arg2 := by
  cases op with
  | rotr ret arg1 arg2 => exact absurd rfl (hne ret arg1 arg2)
  | _ => exact nofun

end OptOp

/-! ### All widths -/

theorem rotateLeft_eq_iff {w n : ℕ} {x y : BitVec w} (hn : n < w) : x.rotateLeft n = y ↔ x = y.rotateRight n := by
  constructor
  · rintro rfl
    apply BitVec.eq_of_getLsbD_eq
    intro i hi
    rw [BitVec.getLsbD_rotateRight_of_lt hn, BitVec.getLsbD_rotateLeft_of_le hn]
    by_cases hlt : i < w - n
    · simp [hlt, show ¬n + i < n by omega, show n + i < w by omega]
    · rw [BitVec.getLsbD_rotateLeft_of_le hn]
      simp [hlt, hi, show i - (w - n) < n by omega, show w - n + (i - (w - n)) = i by omega]
  · rintro rfl
    apply BitVec.eq_of_getLsbD_eq
    intro i hi
    rw [BitVec.getLsbD_rotateLeft_of_le hn, BitVec.getLsbD_rotateRight_of_lt hn, BitVec.getLsbD_rotateRight_of_lt hn]
    by_cases hlt : i < n
    · simp [hlt, show ¬w - n + i < w - n by omega, show w - n + i < w by omega]
    · simp [hlt, hi, show i - n < w - n by omega, show n + (i - n) = i by omega]

section Generic

variable {Op S Cell C R V : Type} {w : ℕ}

/-- The generators of one width do what they are named for, on the variables that are ready. -/
structure Prims.Lawful (P : Prims Op V w) (M : Machine Op S Cell C R V w) (Ready : ℕ → V → Prop) : Prop where
  temp : P.temp = M.temp
  inUse : ∀ {k v}, Ready k v → M.InUse k v
  succ : ∀ {k v}, Ready k v → Ready (k + 1) v
  ready_temp : ∀ k, Ready (k + 1) (M.temp k)
  mov : ∀ {k ret arg}, Ready k ret → Ready k arg → ∀ σ, M.Computes k (P.mov ret arg) σ ret (M.val σ arg)
  movi : ∀ {k ret}, Ready k ret → ∀ v σ, M.Computes k (P.movi ret v) σ ret v
  and : ∀ {k ret arg1 arg2}, Ready k ret → Ready k arg1 → Ready k arg2 → ∀ σ,
    M.Computes k (P.and ret arg1 arg2) σ ret (M.val σ arg1 &&& M.val σ arg2)
  or : ∀ {k ret arg1 arg2}, Ready k ret → Ready k arg1 → Ready k arg2 → ∀ σ,
    M.Computes k (P.or ret arg1 arg2) σ ret (M.val σ arg1 ||| M.val σ arg2)
  xor : ∀ {k ret arg1 arg2}, Ready k ret → Ready k arg1 → Ready k arg2 → ∀ σ,
    M.Computes k (P.xor ret arg1 arg2) σ ret (M.val σ arg1 ^^^ M.val σ arg2)
  sub : ∀ {k ret arg1 arg2}, Ready k ret → Ready k arg1 → Ready k arg2 → ∀ σ,
    M.Computes k (P.sub ret arg1 arg2) σ ret (M.val σ arg1 - M.val σ arg2)
  shl : ∀ {k ret arg1 arg2}, Ready k ret → Ready k arg1 → Ready k arg2 → ∀ σ, (M.val σ arg2).toNat < w →
    M.Computes k (P.shl ret arg1 arg2) σ ret (M.val σ arg1 <<< (M.val σ arg2).toNat)
  shr : ∀ {k ret arg1 arg2}, Ready k ret → Ready k arg1 → Ready k arg2 → ∀ σ, (M.val σ arg2).toNat < w →
    M.Computes k (P.shr ret arg1 arg2) σ ret (M.val σ arg1 >>> (M.val σ arg2).toNat)
  xori : ∀ {k ret arg}, Ready k ret → Ready k arg → ∀ v σ,
    M.Computes k (P.xori k ret arg v) σ ret (M.val σ arg ^^^ v)
  shli : ∀ {k ret arg}, Ready k ret → Ready k arg → ∀ n < w, ∀ σ,
    M.Computes k (P.shli k ret arg n) σ ret (M.val σ arg <<< n)
  shri : ∀ {k ret arg}, Ready k ret → Ready k arg → ∀ n < w, ∀ σ,
    M.Computes k (P.shri k ret arg n) σ ret (M.val σ arg >>> n)
  hasNeg : ∀ op ∈ P.hasNeg, ∀ {k ret arg}, Ready k ret → Ready k arg → ∀ σ,
    M.Computes k [op ret arg] σ ret (-M.val σ arg)
  hasNot : ∀ op ∈ P.hasNot, ∀ {k ret arg}, Ready k ret → Ready k arg → ∀ σ,
    M.Computes k [op ret arg] σ ret (~~~M.val σ arg)
  hasRotl : ∀ op ∈ P.hasRotl, ∀ {k ret arg1 arg2}, Ready k ret → Ready k arg1 → Ready k arg2 → ∀ σ,
    (M.val σ arg2).toNat < w → M.Computes k [op ret arg1 arg2] σ ret ((M.val σ arg1).rotateLeft (M.val σ arg2).toNat)
  hasRotr : ∀ op ∈ P.hasRotr, ∀ {k ret arg1 arg2}, Ready k ret → Ready k arg1 → Ready k arg2 → ∀ σ,
    (M.val σ arg2).toNat < w → M.Computes k [op ret arg1 arg2] σ ret ((M.val σ arg1).rotateRight (M.val σ arg2).toNat)

namespace Prims.Lawful

theorem toNat_sub_count {y : BitVec w} (hpos : 0 < y.toNat) (hlt : y.toNat < w) :
    (BitVec.ofNat w w - y).toNat = w - y.toNat := by
  have hw : w < 2 ^ w := Nat.lt_two_pow_self
  rw [BitVec.toNat_sub, BitVec.toNat_ofNat, Nat.mod_eq_of_lt hw,
    show 2 ^ w - y.toNat + w = w - y.toNat + 2 ^ w by omega, Nat.add_mod_right, Nat.mod_eq_of_lt (by omega)]

variable {P : Prims Op V w} {M : Machine Op S Cell C R V w} {Ready : ℕ → V → Prop} (law : P.Lawful M Ready)
  {k : ℕ} {ret arg arg1 arg2 : V} (hret : Ready k ret) (harg : Ready k arg) (h₁ : Ready k arg1) (h₂ : Ready k arg2)
  (σ : S)

include law

section
include hret harg

theorem computes_subfi (v : BitVec w) : M.Computes k (P.tcgGenSubfi k ret v arg) σ ret (v - M.val σ arg) := by
  unfold tcgGenSubfi
  rw [law.temp]
  exact Machine.Computes.behind_use (f := fun a t => t - a) (law.inUse harg) (law.movi (law.ready_temp k) v σ)
    (law.sub (law.succ hret) (law.ready_temp k) (law.succ harg))

theorem computes_neg : M.Computes k (P.tcgGenNeg k ret arg) σ ret (-M.val σ arg) := by
  unfold tcgGenNeg
  cases hhas : P.hasNeg with
  | some op => exact law.hasNeg op hhas hret harg σ
  | none =>
    have hsub := law.computes_subfi hret harg σ 0#w
    rw [BitVec.zero_sub] at hsub
    exact hsub

theorem computes_not : M.Computes k (P.tcgGenNot k ret arg) σ ret (~~~M.val σ arg) := by
  unfold tcgGenNot
  cases hhas : P.hasNot with
  | some op => exact law.hasNot op hhas hret harg σ
  | none =>
    have hones : M.val σ arg ^^^ -1#w = ~~~M.val σ arg := by rw [BitVec.neg_one_eq_allOnes, BitVec.xor_allOnes]
    rw [← hones]
    exact law.xori hret harg (-1#w) σ

end

section
include hret h₁ h₂

theorem computes_andc : M.Computes k (P.tcgGenAndc k ret arg1 arg2) σ ret (M.val σ arg1 &&& ~~~M.val σ arg2) := by
  unfold tcgGenAndc
  rw [law.temp]
  exact Machine.Computes.behind_use (f := fun a t => a &&& t) (law.inUse h₁)
    (law.computes_not (law.ready_temp k) (law.succ h₂) σ) (law.and (law.succ hret) (law.succ h₁) (law.ready_temp k))

theorem computes_orc : M.Computes k (P.tcgGenOrc k ret arg1 arg2) σ ret (M.val σ arg1 ||| ~~~M.val σ arg2) := by
  unfold tcgGenOrc
  rw [law.temp]
  exact Machine.Computes.behind_use (f := fun a t => a ||| t) (law.inUse h₁)
    (law.computes_not (law.ready_temp k) (law.succ h₂) σ) (law.or (law.succ hret) (law.succ h₁) (law.ready_temp k))

theorem computes_eqv : M.Computes k (P.tcgGenEqv k ret arg1 arg2) σ ret (~~~(M.val σ arg1 ^^^ M.val σ arg2)) :=
  (law.xor hret h₁ h₂ σ).update (law.computes_not hret hret)

theorem computes_nand : M.Computes k (P.tcgGenNand k ret arg1 arg2) σ ret (~~~(M.val σ arg1 &&& M.val σ arg2)) :=
  (law.and hret h₁ h₂ σ).update (law.computes_not hret hret)

theorem computes_nor : M.Computes k (P.tcgGenNor k ret arg1 arg2) σ ret (~~~(M.val σ arg1 ||| M.val σ arg2)) :=
  (law.or hret h₁ h₂ σ).update (law.computes_not hret hret)

/-- A shift by the count, and a shift by the rest of the width. -/
theorem computes_rot {shift₁ shift₂ : V → V → V → List Op} (f₁ f₂ : BitVec w → ℕ → BitVec w)
    (hf₁ : ∀ {k ret arg1 arg2}, Ready k ret → Ready k arg1 → Ready k arg2 → ∀ σ, (M.val σ arg2).toNat < w →
      M.Computes k (shift₁ ret arg1 arg2) σ ret (f₁ (M.val σ arg1) (M.val σ arg2).toNat))
    (hf₂ : ∀ {k ret arg1 arg2}, Ready k ret → Ready k arg1 → Ready k arg2 → ∀ σ, (M.val σ arg2).toNat < w →
      M.Computes k (shift₂ ret arg1 arg2) σ ret (f₂ (M.val σ arg1) (M.val σ arg2).toNat))
    (hpos : 0 < (M.val σ arg2).toNat) (hlt : (M.val σ arg2).toNat < w) :
    M.Computes k (shift₁ (M.temp k) arg1 arg2 ++ P.tcgGenSubfi (k + 2) (M.temp (k + 1)) (BitVec.ofNat w w) arg2 ++
        shift₂ (M.temp (k + 1)) arg1 (M.temp (k + 1)) ++ P.or ret (M.temp k) (M.temp (k + 1))) σ ret
      (f₁ (M.val σ arg1) (M.val σ arg2).toNat ||| f₂ (M.val σ arg1) (w - (M.val σ arg2).toNat)) := by
  have ht0 : Ready (k + 2) (M.temp k) := law.succ (law.ready_temp k)
  have ht1 : Ready (k + 2) (M.temp (k + 1)) := law.ready_temp (k + 1)
  have h₁' : Ready (k + 2) arg1 := law.succ (law.succ h₁)
  have h₂' : Ready (k + 2) arg2 := law.succ (law.succ h₂)
  have hold₀ := (Machine.holds_nil M k σ).set_first (hf₁ ht0 h₁' h₂' σ hlt)
  rw [List.nil_append] at hold₀
  have hold₁ := hold₀.set_second (law.computes_subfi ht1 h₂' _ (BitVec.ofNat w w))
  rw [hold₀.val (law.inUse h₂)] at hold₁
  have hcount := toNat_sub_count hpos hlt
  have hshift := hf₂ ht1 h₁' ht1 (M.run (shift₁ (M.temp k) arg1 arg2 ++
    P.tcgGenSubfi (k + 2) (M.temp (k + 1)) (BitVec.ofNat w w) arg2) σ) (by rw [hold₁.second, hcount]; omega)
  rw [hold₁.second, hcount, hold₁.val (law.inUse h₁)] at hshift
  have hold₂ := hold₁.set_second hshift
  have hor := law.or (law.succ (law.succ hret)) ht0 ht1 (M.run (shift₁ (M.temp k) arg1 arg2 ++
    P.tcgGenSubfi (k + 2) (M.temp (k + 1)) (BitVec.ofNat w w) arg2 ++
    shift₂ (M.temp (k + 1)) arg1 (M.temp (k + 1))) σ)
  rw [hold₂.first, hold₂.second] at hor
  exact hold₂.computes hor

theorem computes_rotl (hpos : 0 < (M.val σ arg2).toNat) (hlt : (M.val σ arg2).toNat < w) :
    M.Computes k (P.tcgGenRotl k ret arg1 arg2) σ ret ((M.val σ arg1).rotateLeft (M.val σ arg2).toNat) := by
  unfold tcgGenRotl
  cases hhas : P.hasRotl with
  | some op => exact law.hasRotl op hhas hret h₁ h₂ σ hlt
  | none =>
    have hrot := law.computes_rot hret h₁ h₂ σ (fun x n => x <<< n) (fun x n => x >>> n) law.shl law.shr hpos hlt
    rw [BitVec.rotateLeft_def, Nat.mod_eq_of_lt hlt]
    rw [law.temp]
    exact hrot

theorem computes_rotrI32 (hpos : 0 < (M.val σ arg2).toNat) (hlt : (M.val σ arg2).toNat < w) :
    M.Computes k (P.tcgGenRotrI32 k ret arg1 arg2) σ ret ((M.val σ arg1).rotateRight (M.val σ arg2).toNat) := by
  unfold tcgGenRotrI32
  cases hhas : P.hasRotr with
  | some op => exact law.hasRotr op hhas hret h₁ h₂ σ hlt
  | none =>
    have hrot := law.computes_rot hret h₁ h₂ σ (fun x n => x >>> n) (fun x n => x <<< n) law.shr law.shl hpos hlt
    rw [BitVec.rotateRight_def, Nat.mod_eq_of_lt hlt]
    rw [law.temp]
    exact hrot

theorem computes_rotrI64_has {op : V → V → V → Op} (hhas : P.hasRotr = some op) (hlt : (M.val σ arg2).toNat < w) :
    M.Computes k (P.tcgGenRotrI64 k ret arg1 arg2) σ ret ((M.val σ arg1).rotateRight (M.val σ arg2).toNat) := by
  unfold tcgGenRotrI64
  rw [hhas]
  exact law.hasRotr op hhas hret h₁ h₂ σ hlt

theorem computes_rotrI64 (hhas : P.hasRotr = none) (hpos : 0 < (M.val σ arg2).toNat) (hlt : (M.val σ arg2).toNat < w) :
    M.Computes k (P.tcgGenRotrI64 k ret arg1 arg2) σ ret
      (M.val σ arg1 <<< (M.val σ arg2).toNat ||| M.val σ arg1 <<< (w - (M.val σ arg2).toNat)) := by
  unfold tcgGenRotrI64
  rw [hhas, law.temp]
  exact law.computes_rot hret h₁ h₂ σ (fun x n => x <<< n) (fun x n => x <<< n) law.shl law.shl hpos hlt

end

section
include hret h₁

theorem computes_rotli {n : ℕ} (hpos : 0 < n) (hlt : n < w) :
    M.Computes k (P.tcgGenRotli k ret arg1 n) σ ret ((M.val σ arg1).rotateLeft n) := by
  unfold tcgGenRotli
  rw [if_neg (by omega)]
  cases hhas : P.hasRotl with
  | some op =>
    have hn : (BitVec.ofNat w n).toNat = n := by
      rw [BitVec.toNat_ofNat, Nat.mod_eq_of_lt (lt_trans hlt Nat.lt_two_pow_self)]
    have hconst := law.movi (law.ready_temp k) (BitVec.ofNat w n) σ
    have hrot := law.hasRotl op hhas (law.succ hret) (law.succ h₁) (law.ready_temp k)
      (M.run (P.movi (M.temp k) (BitVec.ofNat w n)) σ) (by rw [hconst.self, hn]; exact hlt)
    rw [hconst.self, hn, hconst.others (law.inUse (law.succ h₁)) (law.inUse h₁).ne_temp] at hrot
    rw [law.temp]
    exact hconst.behind hrot
  | none =>
    have ht0 : Ready (k + 2) (M.temp k) := law.succ (law.ready_temp k)
    have ht1 : Ready (k + 2) (M.temp (k + 1)) := law.ready_temp (k + 1)
    have h₁' : Ready (k + 2) arg1 := law.succ (law.succ h₁)
    have hold₀ := (Machine.holds_nil M k σ).set_first (law.shli ht0 h₁' n hlt σ)
    rw [List.nil_append] at hold₀
    have hold₁ := hold₀.set_second (law.shri ht1 h₁' (w - n) (by omega) _)
    rw [hold₀.val (law.inUse h₁)] at hold₁
    have hor := law.or (law.succ (law.succ hret)) ht0 ht1
      (M.run (P.shli (k + 2) (M.temp k) arg1 n ++ P.shri (k + 2) (M.temp (k + 1)) arg1 (w - n)) σ)
    rw [hold₁.first, hold₁.second] at hor
    rw [BitVec.rotateLeft_def, Nat.mod_eq_of_lt hlt, law.temp]
    exact hold₁.computes hor

theorem computes_rotri {n : ℕ} (hpos : 0 < n) (hlt : n < w) :
    M.Computes k (P.tcgGenRotri k ret arg1 n) σ ret ((M.val σ arg1).rotateRight n) := by
  have hrot := law.computes_rotli hret h₁ σ (n := w - n) (by omega) (by omega)
  have heq : (M.val σ arg1).rotateLeft (w - n) = (M.val σ arg1).rotateRight n := by
    rw [BitVec.rotateLeft_def, BitVec.rotateRight_def, Nat.mod_eq_of_lt hlt, Nat.mod_eq_of_lt (by omega),
      show w - (w - n) = n by omega, BitVec.or_comm]
  unfold tcgGenRotri
  rw [if_neg (by omega), ← heq]
  exact hrot

end

/-- The operations of every width, with the rotation to the right as it is for that width. -/
theorem computes_gen (op : OptOp V) (rotr : V → V → V → List Op) (hop : ¬op.Conversion)
    (hrotr : ∀ ret arg1 arg2, op = .rotr ret arg1 arg2 →
      M.Computes k (rotr ret arg1 arg2) σ ret ((M.val σ arg1).rotateRight (M.val σ arg2).toNat))
    (hready : ∀ v ∈ op.vars, Ready k v) (hassumes : op.Assumes (M.val σ)) :
    M.Computes k (op.gen P rotr k) σ op.ret (op.eval (M.val σ)) := by
  cases op with
  | neg ret arg => exact law.computes_neg (hready ret (by simp [OptOp.vars])) (hready arg (by simp [OptOp.vars])) σ
  | not ret arg => exact law.computes_not (hready ret (by simp [OptOp.vars])) (hready arg (by simp [OptOp.vars])) σ
  | andc ret arg1 arg2 =>
    exact law.computes_andc (hready ret (by simp [OptOp.vars])) (hready arg1 (by simp [OptOp.vars]))
      (hready arg2 (by simp [OptOp.vars])) σ
  | eqv ret arg1 arg2 =>
    exact law.computes_eqv (hready ret (by simp [OptOp.vars])) (hready arg1 (by simp [OptOp.vars]))
      (hready arg2 (by simp [OptOp.vars])) σ
  | nand ret arg1 arg2 =>
    exact law.computes_nand (hready ret (by simp [OptOp.vars])) (hready arg1 (by simp [OptOp.vars]))
      (hready arg2 (by simp [OptOp.vars])) σ
  | nor ret arg1 arg2 =>
    exact law.computes_nor (hready ret (by simp [OptOp.vars])) (hready arg1 (by simp [OptOp.vars]))
      (hready arg2 (by simp [OptOp.vars])) σ
  | orc ret arg1 arg2 =>
    exact law.computes_orc (hready ret (by simp [OptOp.vars])) (hready arg1 (by simp [OptOp.vars]))
      (hready arg2 (by simp [OptOp.vars])) σ
  | rotl ret arg1 arg2 =>
    exact law.computes_rotl (hready ret (by simp [OptOp.vars])) (hready arg1 (by simp [OptOp.vars]))
      (hready arg2 (by simp [OptOp.vars])) σ hassumes.1 hassumes.2
  | rotr ret arg1 arg2 => exact hrotr ret arg1 arg2 rfl
  | rotli ret arg1 n =>
    exact law.computes_rotli (hready ret (by simp [OptOp.vars])) (hready arg1 (by simp [OptOp.vars])) σ hassumes.1 hassumes.2
  | rotri ret arg1 n =>
    exact law.computes_rotri (hready ret (by simp [OptOp.vars])) (hready arg1 (by simp [OptOp.vars])) σ hassumes.1 hassumes.2
  | ext8s | ext16s | ext32s | bswap16 | bswap32 | bswap64 => exact absurd trivial hop

section
include hret h₂

theorem restores_iff {p : List Op} {x y : BitVec w} (hp : M.Computes k p σ ret x) (hne : arg2 ≠ ret)
    (hpos : 0 < (M.val σ arg2).toNat) (hlt : (M.val σ arg2).toNat < w) :
    M.Computes k (p ++ P.tcgGenRotl k ret ret arg2) σ ret y ↔ x = y.rotateRight (M.val σ arg2).toNat := by
  have hkept := hp.others (law.inUse h₂) hne
  have hrot := law.computes_rotl hret hret h₂ (M.run p σ) (by rw [hkept]; exact hpos) (by rw [hkept]; exact hlt)
  rw [hp.self, hkept] at hrot
  have hboth := hp.trans hrot
  rw [← rotateLeft_eq_iff hlt]
  exact ⟨fun hy => hboth.unique hy, fun heq => heq ▸ hboth⟩

end

include hret h₁ in
theorem restores_immediate {n : ℕ} (hpos : 0 < n) (hlt : n < w) :
    M.Computes k (P.tcgGenRotri k ret arg1 n ++ P.tcgGenRotli k ret ret n) σ ret (M.val σ arg1) := by
  have hboth := (law.computes_rotri hret h₁ σ hpos hlt).update (f := fun x => x.rotateLeft n)
    fun τ => law.computes_rotli hret hret τ hpos hlt
  rwa [(rotateLeft_eq_iff hlt).2 rfl] at hboth

end Prims.Lawful

end Generic

/-! ### Where the rotation to the right of 64 bits is right -/

/-- At every bit that the part that is wrapped around leaves clear, the bit `n` places above and the
bit `n` places below are the same. -/
def ShiftsAgree (x : BitVec 64) (n : ℕ) : Prop :=
  ∀ i < 64, (64 - n ≤ i → x.getLsbD (i - (64 - n)) = false) → x.getLsbD (n + i) = (decide (n ≤ i) && x.getLsbD (i - n))

instance (x : BitVec 64) (n : ℕ) : Decidable (ShiftsAgree x n) := by
  unfold ShiftsAgree
  infer_instance

theorem shifts_eq_rotateRight_iff (x : BitVec 64) {n : ℕ} (hn : n < 64) :
    x <<< n ||| x <<< (64 - n) = x.rotateRight n ↔ ShiftsAgree x n := by
  have hbit : ∀ i < 64, ((x <<< n ||| x <<< (64 - n)).getLsbD i = (x.rotateRight n).getLsbD i ↔
      ((64 - n ≤ i → x.getLsbD (i - (64 - n)) = false) → x.getLsbD (n + i) = (decide (n ≤ i) && x.getLsbD (i - n)))) := by
    intro i hi
    rw [BitVec.rotateRight_def, Nat.mod_eq_of_lt hn, BitVec.getLsbD_or, BitVec.getLsbD_or, BitVec.getLsbD_shiftLeft,
      BitVec.getLsbD_shiftLeft, BitVec.getLsbD_ushiftRight, decide_eq_true hi]
    have hnext : (!decide (i < n)) = decide (n ≤ i) := by rw [← decide_not, decide_eq_decide, not_lt]
    rw [hnext, Bool.true_and, Bool.true_and]
    by_cases hwrap : 64 - n ≤ i
    · rw [decide_eq_false (not_lt.2 hwrap), Bool.not_false, Bool.true_and]
      cases x.getLsbD (i - (64 - n)) with
      | false =>
        rw [Bool.or_false, Bool.or_false]
        exact ⟨fun heq _ => heq.symm, fun heq => (heq fun _ => rfl).symm⟩
      | true =>
        rw [Bool.or_true, Bool.or_true]
        exact ⟨fun _ hclear => absurd (hclear hwrap) (by decide), fun _ => rfl⟩
    · rw [decide_eq_true (not_le.1 hwrap), Bool.not_true, Bool.false_and, Bool.or_false, Bool.or_false]
      exact ⟨fun heq _ => heq.symm, fun heq => (heq fun hge => absurd hge hwrap).symm⟩
  constructor
  · intro heq i hi
    exact (hbit i hi).1 (by rw [heq])
  · intro hagree
    apply BitVec.eq_of_getLsbD_eq
    intro i hi
    exact (hbit i hi).2 (hagree i hi)

/-! ### Variables of 32 bits -/

namespace Expand

section Words32

variable {h : Host} {has : Has32} {k : ℕ} {ret arg arg1 arg2 : Temp}

theorem old32 {t : Temp} (ht : (machine32 h).InUse k t) : Old k t := ht t rfl

theorem computes_and (k : ℕ) (σ : State) (ret arg1 arg2 : Temp) :
    (machine32 h).Computes k (tcgGenAndI32 ret arg1 arg2) σ ret (σ.vals arg1 &&& σ.vals arg2) := by
  refine (sets_and k σ ret arg1 arg2).computes ?_
  unfold tcgGenAndI32 tcgGenIdemI32
  split_ifs
  · exact (computes_mov k σ ret arg1).safe
  · exact ⟨False.elim, trivial⟩

theorem computes_xor (k : ℕ) (σ : State) (ret arg1 arg2 : Temp) :
    (machine32 h).Computes k (tcgGenXorI32 ret arg1 arg2) σ ret (σ.vals arg1 ^^^ σ.vals arg2) := by
  refine (sets_xor k σ ret arg1 arg2).computes ?_
  unfold tcgGenXorI32
  split_ifs
  · exact (computes_movi k σ ret 0#32).safe
  · exact ⟨False.elim, trivial⟩

theorem safe_andi (σ : State) (v : BitVec 32) : (machine32 h).Safe (tcgGenAndiI32 k ret arg v) σ := by
  unfold tcgGenAndiI32
  split_ifs
  · exact (computes_movi k σ ret 0#32).safe
  · exact (computes_mov k σ ret arg).safe
  · exact Machine.safe_append.2 ⟨(computes_movi k σ (.scratch k) v).safe, (computes_and k _ ret arg (.scratch k)).safe⟩

theorem computes_xori (harg : Old k arg) (σ : State) (ret : Temp) (v : BitVec 32) :
    (machine32 h).Computes k (tcgGenXoriI32 k ret arg v) σ ret (σ.vals arg ^^^ v) := by
  refine (sets_xori harg σ ret v).computes ?_
  unfold tcgGenXoriI32
  split_ifs
  · exact (computes_mov k σ ret arg).safe
  · exact Machine.safe_append.2 ⟨(computes_movi k σ (.scratch k) v).safe, (computes_xor k _ ret arg (.scratch k)).safe⟩

theorem lawful32 (h : Host) (has : Has32) : (prims32 has).Lawful (machine32 h) (machine32 h).InUse where
  temp := rfl
  inUse := id
  succ := Machine.InUse.succ
  ready_temp := Machine.inUse_temp (machine32 h)
  mov _ _ σ := computes_mov _ σ _ _
  movi _ v σ := computes_movi _ σ _ v
  and _ _ _ σ := computes_and _ σ _ _ _
  or _ _ _ σ := computes_or _ σ _ _ _
  xor _ _ _ σ := computes_xor _ σ _ _ _
  sub _ _ _ _ := computes_op False.elim rfl
  shl _ _ _ _ hlt := computes_op (fun _ => hlt) rfl
  shr _ _ _ _ hlt := computes_op (fun _ => hlt) rfl
  xori _ harg v σ := computes_xori (old32 harg) σ _ v
  shli _ harg _ hn σ := computes_count_shli (old32 harg) hn σ
  shri _ harg _ hn σ := computes_count_shri (old32 harg) hn σ
  hasNeg op hop := by
    cases hneg : has.neg with
    | false => simp [prims32, hneg] at hop
    | true =>
      obtain rfl : Op.neg = op := by simpa [prims32, hneg] using hop
      exact fun _ _ _ => computes_op trivial rfl
  hasNot op hop := by
    cases hnot : has.not with
    | false => simp [prims32, hnot] at hop
    | true =>
      obtain rfl : Op.not = op := by simpa [prims32, hnot] using hop
      exact fun _ _ _ => computes_op trivial rfl
  hasRotl op hop := by
    cases hrot : has.rot with
    | false => simp [prims32, hrot] at hop
    | true =>
      obtain rfl : Op.bin .rotl = op := by simpa [prims32, hrot] using hop
      exact fun _ _ _ _ hlt => computes_op (fun _ => hlt) rfl
  hasRotr op hop := by
    cases hrot : has.rot with
    | false => simp [prims32, hrot] at hop
    | true =>
      obtain rfl : Op.bin .rotr = op := by simpa [prims32, hrot] using hop
      exact fun _ _ _ _ hlt => computes_op (fun _ => hlt) rfl

/-! The conversions -/

theorem safe_ext8s (σ : State) : (machine32 h).Safe (tcgGenExt8sI32 k h ret arg) σ := by
  unfold tcgGenExt8sI32
  split_ifs
  · exact ⟨trivial, trivial⟩
  · exact Machine.safe_append.2 ⟨safe_shifti _ (by decide), safe_shifti _ (by decide)⟩

theorem safe_ext16s (σ : State) : (machine32 h).Safe (tcgGenExt16sI32 k h ret arg) σ := by
  unfold tcgGenExt16sI32
  split_ifs
  · exact ⟨trivial, trivial⟩
  · exact Machine.safe_append.2 ⟨safe_shifti _ (by decide), safe_shifti _ (by decide)⟩

theorem safe_or (σ : State) : (machine32 h).Safe (tcgGenOrI32 ret arg1 arg2) σ := (computes_or 0 σ ret arg1 arg2).safe

theorem safe_bswap16 (σ : State) : (machine32 h).Safe (tcgGenBswap16I32 k h ret arg) σ := by
  unfold tcgGenBswap16I32
  split_ifs
  · exact ⟨trivial, trivial⟩
  · simp only [Machine.safe_append]
    exact ⟨⟨⟨safe_andi _ _, safe_shifti _ (by decide)⟩, safe_shifti _ (by decide)⟩, safe_or _⟩

theorem safe_bswap32 (σ : State) : (machine32 h).Safe (tcgGenBswap32I32 k h ret arg) σ := by
  unfold tcgGenBswap32I32
  split_ifs
  · exact ⟨trivial, trivial⟩
  · simp only [Machine.safe_append]
    exact ⟨⟨⟨⟨⟨⟨⟨⟨safe_shifti _ (by decide), safe_andi _ _⟩, safe_shifti _ (by decide)⟩, safe_or _⟩,
      safe_shifti _ (by decide)⟩, safe_andi _ _⟩, safe_or _⟩, safe_shifti _ (by decide)⟩, safe_or _⟩

theorem high_zero {x : BitVec 32} (hx : x.toNat < 2 ^ 16) : x.extractLsb' 16 16 = 0#16 := by
  apply BitVec.eq_of_toNat_eq
  rw [BitVec.extractLsb'_toNat, Nat.shiftRight_eq_div_pow, Nat.div_eq_of_lt hx]
  rfl

end Words32

/-- Every optional operation on 32-bit variables is computed, whether the host has it or not. -/
theorem computes_genI32 (h : Host) (has : Has32) (k : ℕ) (σ : State) (op : OptOp Temp)
    (huse : ∀ v ∈ op.vars, (machine32 h).InUse k v) (hassumes : op.Assumes σ.vals) :
    (machine32 h).Computes k (genI32 h has k op) σ op.ret (op.eval σ.vals) := by
  have hgen : ¬op.Conversion → (machine32 h).Computes k (op.gen (prims32 has) ((prims32 has).tcgGenRotrI32 k) k) σ op.ret
      (op.eval σ.vals) := by
    intro hop
    refine (lawful32 h has).computes_gen σ op _ hop ?_ huse hassumes
    rintro ret arg1 arg2 rfl
    exact (lawful32 h has).computes_rotrI32 (huse ret (by simp [OptOp.vars])) (huse arg1 (by simp [OptOp.vars]))
      (huse arg2 (by simp [OptOp.vars])) σ hassumes.1 hassumes.2
  cases op with
  | ext8s ret arg =>
    exact (sets_ext8s (old32 (huse arg (by simp [OptOp.vars]))) (old32 (huse ret (by simp [OptOp.vars]))) σ).computes
      (safe_ext8s σ)
  | ext16s ret arg =>
    exact (sets_ext16s (old32 (huse arg (by simp [OptOp.vars]))) (old32 (huse ret (by simp [OptOp.vars]))) σ).computes
      (safe_ext16s σ)
  | bswap16 ret arg =>
    exact (sets_bswap16 (old32 (huse arg (by simp [OptOp.vars]))) (old32 (huse ret (by simp [OptOp.vars]))) σ
      (high_zero hassumes)).computes (safe_bswap16 σ)
  | bswap32 ret arg =>
    have hset := sets_bswap32 (h := h) (old32 (huse arg (by simp [OptOp.vars]))) σ ret
    have heval : (OptOp.bswap32 ret arg).eval σ.vals = bswap 4 (σ.vals arg) := by
      rw [OptOp.eval, BitVec.setWidth_eq]
      exact congrArg (bswap 4) (BitVec.setWidth_eq _)
    rw [heval]
    exact hset.computes (safe_bswap32 σ)
  | ext32s ret arg => exact absurd (show 32 = 64 from hassumes) (by decide)
  | bswap64 ret arg => exact absurd (show 32 = 64 from hassumes) (by decide)
  | _ => exact hgen id

/-! ### Variables of 64 bits on a 32-bit host -/

section Pairs64

variable {h : Host} {k : ℕ} {ret arg arg1 arg2 : Wide}

theorem computes_halves {f : Temp → Temp → Temp → List Op} {g : BitVec 32 → BitVec 32 → BitVec 32}
    (hf : ∀ k σ ret arg1 arg2, (machine32 h).Computes k (f ret arg1 arg2) σ ret (g (σ.vals arg1) (σ.vals arg2)))
    (hret : (machinePair h).InUse k ret) (h₁ : (machinePair h).InUse k arg1) (h₂ : (machinePair h).InUse k arg2)
    (σ : State) : (machinePair h).Computes k (halves f ret arg1 arg2) σ ret
      (g (σ.vals arg1.high) (σ.vals arg2.high) ++ g (σ.vals arg1.low) (σ.vals arg2.low)) := by
  have hlow := hf (2 * k) σ ret.low arg1.low arg2.low
  have hhigh := hf (2 * k) (run h (f ret.low arg1.low arg2.low) σ) ret.high arg1.high arg2.high
  rw [vals_kept hlow (Wide.old_high h₁) (Wide.low_ne_high ret arg1).symm,
    vals_kept hlow (Wide.old_high h₂) (Wide.low_ne_high ret arg2).symm] at hhigh
  exact computes_low_high hret hlow hhigh

theorem computes_op_pair {op : Op} {v : BitVec 64} {σ : State} (hdefined : op.Defined σ)
    (hexec : op.exec h σ = σ.setPair ret.low ret.high v) : (machinePair h).Computes k [op] σ ret v := by
  have hrun : (machinePair h).run [op] σ = σ.setPair ret.low ret.high v := hexec
  refine ⟨⟨hdefined, trivial⟩, ?_, ?_⟩
  · rw [hrun]
    refine wide_eq ?_ ?_
    · simp [State.setPair, State.set, hi]
    · simp [State.setPair, State.set, lo, Wide.low_ne_high]
  · rw [hrun]
    refine ⟨rfl, fun c _ hne => ?_⟩
    have hcells : c ≠ ret.low ∧ c ≠ ret.high := by simpa [machinePair] using hne
    change (σ.setPair ret.low ret.high v).vals c = σ.vals c
    simp [State.setPair, State.set, hcells.1, hcells.2]

theorem computes_xori_pair (hret : (machinePair h).InUse k ret) (harg : (machinePair h).InUse k arg) (v : BitVec 64)
    (σ : State) :
    (machinePair h).Computes k (halvesImm (tcgGenXoriI32 (2 * k)) ret arg v) σ ret ((machinePair h).val σ arg ^^^ v) := by
  have hlow := computes_xori (h := h) (Wide.old_low harg) σ ret.low (lo v)
  have hhigh := computes_xori (h := h) (Wide.old_high harg) (run h (tcgGenXoriI32 (2 * k) ret.low arg.low (lo v)) σ)
    ret.high (hi v)
  rw [vals_kept hlow (Wide.old_high harg) (Wide.low_ne_high ret arg).symm] at hhigh
  have hboth := computes_low_high hret hlow hhigh
  have hxor := halves_xor ((machinePair h).val σ arg) v
  rw [lo_val, hi_val] at hxor
  rwa [wide_eq hxor.2.symm hxor.1.symm] at hboth

theorem lawfulPair (h : Host) : primsPair.Lawful (machinePair h) (machinePair h).InUse where
  temp := rfl
  inUse := id
  succ := Machine.InUse.succ
  ready_temp := Machine.inUse_temp (machinePair h)
  mov hret harg σ := computes_movI64 hret harg σ
  movi {k ret} hret v σ := by
    have hboth := computes_low_high hret (computes_movi (2 * k) σ ret.low (lo v))
      (computes_movi (2 * k) (run h (tcgGenMoviI32 ret.low (lo v)) σ) ret.high (hi v))
    rwa [wide_eq rfl rfl] at hboth
  and {k ret arg1 arg2} hret h₁ h₂ σ := by
    have hboth := computes_halves (computes_and (h := h)) hret h₁ h₂ σ
    have hand := halves_and ((machinePair h).val σ arg1) ((machinePair h).val σ arg2)
    rw [lo_val, lo_val, hi_val, hi_val] at hand
    rwa [wide_eq hand.2.symm hand.1.symm] at hboth
  or {k ret arg1 arg2} hret h₁ h₂ σ := by
    have hboth := computes_halves (computes_or (h := h)) hret h₁ h₂ σ
    have hor := halves_or ((machinePair h).val σ arg1) ((machinePair h).val σ arg2)
    rw [lo_val, lo_val, hi_val, hi_val] at hor
    rwa [wide_eq hor.2.symm hor.1.symm] at hboth
  xor {k ret arg1 arg2} hret h₁ h₂ σ := by
    have hboth := computes_halves (computes_xor (h := h)) hret h₁ h₂ σ
    have hxor := halves_xor ((machinePair h).val σ arg1) ((machinePair h).val σ arg2)
    rw [lo_val, lo_val, hi_val, hi_val] at hxor
    rwa [wide_eq hxor.2.symm hxor.1.symm] at hboth
  sub _ _ _ _ := computes_op_pair trivial rfl
  shl _ _ _ _ hlt := computes_op_pair hlt rfl
  shr _ _ _ _ hlt := computes_op_pair hlt rfl
  xori hret harg v σ := computes_xori_pair hret harg v σ
  shli hret harg _ hn σ := computes_shifti hret harg σ hn false false
  shri hret harg _ hn σ := computes_shifti hret harg σ hn true false
  hasNeg op hop := by cases hop
  hasNot op hop := by cases hop
  hasRotl op hop := by cases hop
  hasRotr op hop := by cases hop

/-! The conversions -/

theorem Right.computes {op : Op64} {r : ℕ} {u : BitVec 64} {σ : State} (hright : Right h (2 * k) σ op)
    (heffect : op.effect h σ = .wide r u) (hsafe : (machine32 h).Safe (op.gen h (2 * k)) σ) :
    (machinePair h).Computes k (op.gen h (2 * k)) σ (.var r) u := by
  obtain ⟨hmem, hvals⟩ := hright
  rw [heffect] at hmem hvals
  refine ⟨safe_pair.2 hsafe, ?_, hmem, fun c hc hne => ?_⟩
  · have hlow := hvals (.low r) trivial
    have hhigh := hvals (.high r) trivial
    refine (congrArg₂ (fun a b : BitVec 32 => a ++ b) hhigh hlow).trans (wide_eq ?_ ?_)
    · simp [Effect.apply, State.set]
    · simp [Effect.apply, State.set]
  · have hcells : c ≠ .low r ∧ c ≠ .high r := by simpa [machinePair, Wide.low, Wide.high] using hne
    refine (hvals c hc).trans ?_
    change ((Effect.wide r u).apply σ).vals c = σ.vals c
    simp [Effect.apply, State.set, hcells.1, hcells.2]

theorem safe_mov (σ : State) (ret arg : Temp) : (machine32 h).Safe (tcgGenMovI32 ret arg) σ :=
  (computes_mov 0 σ ret arg).safe

theorem computes_conversion (σ : State) (op : OptOp ℕ) (hop : op.Conversion)
    (hassumes : op.Assumes fun n => (machinePair h).val σ (.var n)) :
    (machinePair h).Computes k (genPair h k op) σ (.var op.ret) (op.eval fun n => (machinePair h).val σ (.var n)) := by
  cases op with
  | ext8s ret arg =>
    exact (right_ext8s h (2 * k) σ ret arg).computes rfl
      (Machine.safe_append.2 ⟨safe_ext8s σ, safe_shifti _ (by decide)⟩)
  | ext16s ret arg =>
    exact (right_ext16s h (2 * k) σ ret arg).computes rfl
      (Machine.safe_append.2 ⟨safe_ext16s σ, safe_shifti _ (by decide)⟩)
  | ext32s ret arg =>
    exact (right_ext32s h (2 * k) σ ret arg).computes rfl
      (Machine.safe_append.2 ⟨safe_mov σ _ _, safe_shifti _ (by decide)⟩)
  | bswap16 ret arg =>
    refine (right_bswap16 h (2 * k) σ ret arg ?_).computes rfl
      (Machine.safe_append.2 ⟨safe_mov σ _ _, safe_bswap16 _⟩)
    have hlt : (σ.wide arg).toNat < 2 ^ 16 := hassumes
    apply BitVec.eq_of_toNat_eq
    rw [BitVec.extractLsb'_toNat, Nat.shiftRight_eq_div_pow, Nat.div_eq_of_lt hlt]
    rfl
  | bswap32 ret arg =>
    refine (right_bswap32 h (2 * k) σ ret arg ?_).computes rfl
      (Machine.safe_append.2 ⟨safe_mov σ _ _, safe_bswap32 _⟩)
    have hlt : (σ.wide arg).toNat < 2 ^ 32 := hassumes
    apply BitVec.eq_of_toNat_eq
    rw [BitVec.extractLsb'_toNat, Nat.shiftRight_eq_div_pow, Nat.div_eq_of_lt hlt]
    rfl
  | bswap64 ret arg =>
    have heval : (OptOp.bswap64 ret arg).eval (fun n => (machinePair h).val σ (.var n)) = bswap 8 (σ.wide arg) := by
      rw [OptOp.eval, BitVec.setWidth_eq]
      exact congrArg (bswap 8) (BitVec.setWidth_eq _)
    rw [heval]
    refine (right_bswap64 h (2 * k) σ ret arg).computes rfl ?_
    exact Machine.safe_append.2 ⟨Machine.safe_append.2 ⟨Machine.safe_append.2 ⟨safe_bswap32 _, safe_bswap32 _⟩,
      safe_mov _ _ _⟩, safe_mov _ _ _⟩
  | _ => exact absurd hop id

end Pairs64

/-- The operand of a rotation to the right is not damaged by the wrong shift. -/
def RotrKept (val : ℕ → BitVec 64) : OptOp ℕ → Prop
  | .rotr _ arg1 arg2 => ShiftsAgree (val arg1) (val arg2).toNat
  | _ => True

theorem rotrKept_of_ne {val : ℕ → BitVec 64} (op : OptOp ℕ) (hne : ∀ ret arg1 arg2, op ≠ .rotr ret arg1 arg2) :
    RotrKept val op := by
  cases op with
  | rotr ret arg1 arg2 => exact absurd rfl (hne ret arg1 arg2)
  | _ => trivial

theorem genPair_eq {h : Host} {k : ℕ} {op : OptOp ℕ} (hop : ¬op.Conversion) :
    genPair h k op = (op.map Wide.var).gen primsPair (primsPair.tcgGenRotrI64 k) k := by
  cases op with
  | ext8s | ext16s | ext32s | bswap16 | bswap32 | bswap64 => exact absurd trivial hop
  | _ => rfl

theorem computes_genPair_iff (h : Host) (k : ℕ) (σ : State) (op : OptOp ℕ)
    (hassumes : op.Assumes fun n => (machinePair h).val σ (.var n)) :
    (machinePair h).Computes k (genPair h k op) σ (.var op.ret) (op.eval fun n => (machinePair h).val σ (.var n)) ↔
      RotrKept (fun n => (machinePair h).val σ (.var n)) op := by
  have hvar : ∀ n, (machinePair h).InUse k (.var n) := inUse_var h k
  by_cases hop : op.Conversion
  · exact iff_of_true (computes_conversion σ op hop hassumes) (rotrKept_of_ne op fun _ _ _ heq => by rw [heq] at hop; exact hop)
  rw [genPair_eq hop]
  by_cases hrot : ∃ ret arg1 arg2, op = .rotr ret arg1 arg2
  · obtain ⟨ret, arg1, arg2, rfl⟩ := hrot
    have hrot := (lawfulPair h).computes_rotrI64 (hvar ret) (hvar arg1) (hvar arg2) σ rfl hassumes.1 hassumes.2
    refine Iff.trans ⟨fun hright => hrot.unique hright, fun heq => ?_⟩ (shifts_eq_rotateRight_iff _ hassumes.2)
    have hright := hrot
    rw [heq] at hright
    exact hright
  · have hne : ∀ ret arg1 arg2, op ≠ .rotr ret arg1 arg2 := fun ret arg1 arg2 heq => hrot ⟨ret, arg1, arg2, heq⟩
    refine iff_of_true ?_ (rotrKept_of_ne op hne)
    have hgen := (lawfulPair h).computes_gen (k := k) σ (op.map Wide.var) (primsPair.tcgGenRotrI64 k)
      (by rwa [OptOp.conversion_map]) (fun _ _ _ heq => absurd heq (OptOp.map_ne_rotr hne _ _ _)) ?_
      (by rwa [OptOp.assumes_map])
    · rwa [OptOp.ret_map, OptOp.eval_map] at hgen
    · rw [OptOp.vars_map]
      intro v hv
      obtain ⟨n, -, rfl⟩ := List.mem_map.1 hv
      exact hvar n

end Expand

/-! ### Variables of 64 bits on a 64-bit host -/

namespace Native

open Expand (BinOp)

/-- A variable, or one of the temporaries in use. -/
def Old (k : ℕ) : Temp → Prop
  | .var _ => True
  | .scratch n | .narrow n => n < k

/-- The operations with all variables; the temporaries are of the 64-bit type, or of the other. -/
def machineOf (temp : ℕ → Temp) (htemp : ∀ k, Old (k + 1) (temp k) ∧ ¬Old k (temp k)) (h : Host) :
    Machine Op State Temp (BitVec 64) Unit Temp 64 where
  exec := Op.exec h
  Defined := Op.Defined
  content σ := σ
  rest _ := ()
  cells t := {t}
  val σ := σ
  Used := Old
  temp := temp
  val_congr _ _ v hcells := hcells v rfl
  apart _ _ _ hv hv' := hv.symm.trans hv'
  used_succ k c hc := by
    cases c with
    | var n => trivial
    | scratch n => exact Nat.lt_succ_of_lt hc
    | narrow n => exact Nat.lt_succ_of_lt hc
  used_temp k c hc := by
    obtain rfl := hc
    exact (htemp k).1
  unused_temp k c hc := by
    obtain rfl := hc
    exact (htemp k).2
  cells_temp _ := ⟨_, rfl⟩

/-- With the temporaries of the 64-bit type. -/
def machine64 : Host → Machine Op State Temp (BitVec 64) Unit Temp 64 :=
  machineOf .scratch fun k => ⟨Nat.lt_succ_self k, Nat.lt_irrefl k⟩

/-- With the temporaries of the 32-bit type. -/
def machineNarrow : Host → Machine Op State Temp (BitVec 64) Unit Temp 64 :=
  machineOf .narrow fun k => ⟨Nat.lt_succ_self k, Nat.lt_irrefl k⟩

section Machines

variable {h : Host} {k : ℕ} {σ : State} {ret arg : Temp} {p : List Op} {v : BitVec 64}

theorem computes_machineOf (temp : ℕ → Temp) (htemp : ∀ k, Old (k + 1) (temp k) ∧ ¬Old k (temp k)) {temp' : ℕ → Temp}
    {htemp' : ∀ k, Old (k + 1) (temp' k) ∧ ¬Old k (temp' k)} (hcode : (machineOf temp' htemp' h).Computes k p σ ret v) :
    (machineOf temp htemp h).Computes k p σ ret v := by
  have hsafe : ∀ q τ, (machineOf temp' htemp' h).Safe q τ → (machineOf temp htemp h).Safe q τ := by
    intro q
    induction q with
    | nil => exact fun _ _ => trivial
    | cons op q ih => exact fun τ hq => ⟨hq.1, ih _ hq.2⟩
  exact ⟨hsafe p σ hcode.safe, hcode.self, rfl, hcode.keeps.content⟩

theorem inUse64 {t : Temp} (ht : Old k t) : (machine64 h).InUse k t := by
  rintro c rfl
  exact ht

theorem computes_op (op : Op) (hdefined : op.Defined σ) :
    (machine64 h).Computes k [op] σ op.ret (h.held op.ret (op.value h σ)) := by
  refine ⟨⟨hdefined, trivial⟩, Function.update_self .., rfl, fun c _ hne => ?_⟩
  exact Function.update_of_ne (hne op.ret rfl) ..

theorem computes_mov (hret : h.held ret (σ arg) = σ arg) : (machine64 h).Computes k (tcgGenMovI64 ret arg) σ ret (σ arg) := by
  unfold tcgGenMovI64
  split_ifs with hne
  · have hop := computes_op (h := h) (k := k) (.mov ret arg) (σ := σ) trivial
    rw [← hret]
    exact hop
  · rw [not_not] at hne
    exact ⟨trivial, by rw [hne]; rfl, Machine.Keeps.refl _ _ _ _⟩

theorem computes_movi (k : ℕ) (σ : State) (ret : Temp) (v : BitVec 64) :
    (machine64 h).Computes k (tcgGenMoviI64 ret v) σ ret (h.held ret v) := computes_op (.movi ret v) trivial

/-- A variable of the 64-bit type. -/
def Full : Temp → Prop
  | .narrow _ => False
  | _ => True

theorem held_of_full (hfull : Full ret) (v : BitVec 64) : h.held ret v = v := by
  cases ret with
  | narrow n => exact absurd hfull id
  | _ => rfl

theorem computes_full (hfull : Full ret) (hcode : (machine64 h).Computes k p σ ret (h.held ret v)) :
    (machine64 h).Computes k p σ ret v := by rwa [held_of_full hfull] at hcode

theorem computes_idem {f : BinOp} (hf : ¬f.Bounded) (hself : ∀ a, evalBin f a a = a) (hfull : Full ret) (arg1 arg2 : Temp)
    (σ : State) :
    (machine64 h).Computes k (tcgGenIdemI64 f ret arg1 arg2) σ ret (evalBin f (σ arg1) (σ arg2)) := by
  unfold tcgGenIdemI64
  split_ifs with heq
  · rw [← heq, hself]
    exact computes_mov (held_of_full hfull _)
  · exact computes_full hfull (computes_op (.bin f ret arg1 arg2) fun hb => absurd hb hf)

theorem computes_idem_ne {f : BinOp} (hf : ¬f.Bounded) (ret : Temp) {arg1 arg2 : Temp} (hne : arg1 ≠ arg2) (σ : State) :
    (machine64 h).Computes k (tcgGenIdemI64 f ret arg1 arg2) σ ret (h.held ret (evalBin f (σ arg1) (σ arg2))) := by
  unfold tcgGenIdemI64
  rw [if_neg hne]
  exact computes_op (.bin f ret arg1 arg2) fun hb => absurd hb hf

theorem Old.ne_scratch {t : Temp} (ht : Old k t) : t ≠ .scratch k := by
  rintro rfl
  exact Nat.lt_irrefl k ht

theorem computes_andi (harg : Old k arg) (ret : Temp) (v : BitVec 64) (σ : State) :
    (machine64 h).Computes k (tcgGenAndiI64 k ret arg v) σ ret (h.held ret (σ arg &&& v)) :=
  Machine.Computes.behind_use (f := fun a t => h.held ret (a &&& t)) (inUse64 harg) (computes_movi (k + 1) σ (.scratch k) v)
    (computes_idem_ne id ret harg.ne_scratch)

theorem computes_xori (harg : Old k arg) (ret : Temp) (v : BitVec 64) (σ : State) :
    (machine64 h).Computes k (tcgGenXoriI64 k ret arg v) σ ret (h.held ret (σ arg ^^^ v)) := by
  refine Machine.Computes.behind_use (f := fun a t => h.held ret (a ^^^ t)) (inUse64 harg)
    (computes_movi (k + 1) σ (.scratch k) v) fun τ => ?_
  unfold tcgGenXorI64
  rw [if_neg harg.ne_scratch]
  exact computes_op (.bin .xor ret arg (.scratch k)) False.elim

theorem computes_shift {f : BinOp} {n : ℕ} (hpos : n ≠ 0) (hn : n < 64) (harg : Old k arg) (ret : Temp) (σ : State) :
    (machine64 h).Computes k (tcgGenShiftiI64 k f ret arg n) σ ret (h.held ret (evalBin f (σ arg) (BitVec.ofNat 64 n))) := by
  unfold tcgGenShiftiI64
  rw [if_neg hpos]
  have hcount : (BitVec.ofNat 64 n).toNat < 64 := by
    rw [BitVec.toNat_ofNat, Nat.mod_eq_of_lt (by omega)]
    exact hn
  have hconst := computes_movi (h := h) (k + 1) σ (.scratch k) (BitVec.ofNat 64 n)
  have hself : (machine64 h).run (tcgGenMoviI64 (.scratch k) (BitVec.ofNat 64 n)) σ (.scratch k) = BitVec.ofNat 64 n :=
    hconst.self
  have hkept : (machine64 h).run (tcgGenMoviI64 (.scratch k) (BitVec.ofNat 64 n)) σ arg = σ arg :=
    hconst.others (inUse64 harg).succ harg.ne_scratch
  have hop := computes_op (h := h) (k := k + 1) (σ := (machine64 h).run (tcgGenMoviI64 (.scratch k) (BitVec.ofNat 64 n)) σ)
    (.bin f ret arg (.scratch k)) fun _ => by rw [hself]; exact hcount
  simp only [Op.ret, Op.value, hself, hkept] at hop
  exact hconst.behind hop

theorem toNat_count {n : ℕ} (hn : n < 64) : (BitVec.ofNat 64 n).toNat = n := by
  rw [BitVec.toNat_ofNat, Nat.mod_eq_of_lt (by omega)]

theorem computes_shli {n : ℕ} (hpos : n ≠ 0) (hn : n < 64) (harg : Old k arg) (ret : Temp) (σ : State) :
    (machine64 h).Computes k (tcgGenShliI64 k ret arg n) σ ret (h.held ret (σ arg <<< n)) := by
  have hshift := computes_shift (h := h) (f := .shl) hpos hn harg ret σ
  rwa [evalBin, toNat_count hn] at hshift

theorem computes_shri {n : ℕ} (hpos : n ≠ 0) (hn : n < 64) (harg : Old k arg) (ret : Temp) (σ : State) :
    (machine64 h).Computes k (tcgGenShriI64 k ret arg n) σ ret (h.held ret (σ arg >>> n)) := by
  have hshift := computes_shift (h := h) (f := .shr) hpos hn harg ret σ
  rwa [evalBin, toNat_count hn] at hshift

theorem computes_sari {n : ℕ} (hpos : n ≠ 0) (hn : n < 64) (harg : Old k arg) (ret : Temp) (σ : State) :
    (machine64 h).Computes k (tcgGenSariI64 k ret arg n) σ ret (h.held ret ((σ arg).sshiftRight n)) := by
  have hshift := computes_shift (h := h) (f := .sar) hpos hn harg ret σ
  rwa [evalBin, toNat_count hn] at hshift

/-- In use, and of the 64-bit type. -/
def Ready (k : ℕ) (t : Temp) : Prop := Old k t ∧ Full t

theorem lawful64 (h : Host) : (prims64 h).Lawful (machine64 h) Ready where
  temp := rfl
  inUse ht := inUse64 ht.1
  succ ht := ⟨(machine64 h).used_succ _ _ ht.1, ht.2⟩
  ready_temp k := ⟨Nat.lt_succ_self k, trivial⟩
  mov hret _ _ := computes_mov (held_of_full hret.2 _)
  movi hret v σ := computes_full hret.2 (computes_movi _ σ _ v)
  and hret _ _ σ := computes_idem (f := .and) id (fun _ => BitVec.and_self) hret.2 _ _ σ
  or hret _ _ σ := computes_idem (f := .or) id (fun _ => BitVec.or_self) hret.2 _ _ σ
  xor {k ret arg1 arg2} hret _ _ σ := by
    change (machine64 h).Computes k (tcgGenXorI64 ret arg1 arg2) σ ret (σ arg1 ^^^ σ arg2)
    unfold tcgGenXorI64
    split_ifs with heq
    · rw [← heq, BitVec.xor_self]
      exact computes_full hret.2 (computes_movi k σ ret 0#64)
    · exact computes_full hret.2 (computes_op (.bin .xor ret arg1 arg2) False.elim)
  sub {_ ret arg1 arg2} hret _ _ _ := computes_full hret.2 (computes_op (.bin .sub ret arg1 arg2) False.elim)
  shl {_ ret arg1 arg2} hret _ _ _ hlt := computes_full hret.2 (computes_op (.bin .shl ret arg1 arg2) fun _ => hlt)
  shr {_ ret arg1 arg2} hret _ _ _ hlt := computes_full hret.2 (computes_op (.bin .shr ret arg1 arg2) fun _ => hlt)
  xori hret harg v σ := computes_full hret.2 (computes_xori harg.1 _ v σ)
  shli {k ret arg} hret harg n hn σ := by
    by_cases h0 : n = 0
    · subst h0
      rw [BitVec.shiftLeft_zero]
      exact computes_mov (held_of_full hret.2 _)
    · exact computes_full hret.2 (computes_shli h0 hn harg.1 ret σ)
  shri {k ret arg} hret harg n hn σ := by
    by_cases h0 : n = 0
    · subst h0
      rw [BitVec.ushiftRight_zero]
      exact computes_mov (held_of_full hret.2 _)
    · exact computes_full hret.2 (computes_shri h0 hn harg.1 ret σ)
  hasNeg op hop := by
    cases hneg : h.hasNeg with
    | false => simp [prims64, hneg] at hop
    | true =>
      obtain rfl : Op.neg = op := by simpa [prims64, hneg] using hop
      exact fun {_ ret arg} hret _ _ => computes_full hret.2 (computes_op (.neg ret arg) trivial)
  hasNot op hop := by
    cases hnot : h.hasNot with
    | false => simp [prims64, hnot] at hop
    | true =>
      obtain rfl : Op.not = op := by simpa [prims64, hnot] using hop
      exact fun {_ ret arg} hret _ _ => computes_full hret.2 (computes_op (.not ret arg) trivial)
  hasRotl op hop := by
    cases hrot : h.hasRot with
    | false => simp [prims64, hrot] at hop
    | true =>
      obtain rfl : Op.bin .rotl = op := by simpa [prims64, hrot] using hop
      exact fun {_ ret arg1 arg2} hret _ _ _ hlt =>
        computes_full hret.2 (computes_op (.bin .rotl ret arg1 arg2) fun _ => hlt)
  hasRotr op hop := by
    cases hrot : h.hasRot with
    | false => simp [prims64, hrot] at hop
    | true =>
      obtain rfl : Op.bin .rotr = op := by simpa [prims64, hrot] using hop
      exact fun {_ ret arg1 arg2} hret _ _ _ hlt =>
        computes_full hret.2 (computes_op (.bin .rotr ret arg1 arg2) fun _ => hlt)

end Machines

/-! ### Bytes put together by shifts and masks -/

section Bytes

theorem exists_setWidth {x : BitVec 64} {n : ℕ} (hx : x.toNat < 2 ^ n) : ∃ y : BitVec n, x = y.setWidth 64 := by
  refine ⟨x.setWidth n, BitVec.eq_of_toNat_eq ?_⟩
  rw [BitVec.toNat_setWidth, BitVec.toNat_setWidth, Nat.mod_eq_of_lt hx, Nat.mod_eq_of_lt x.isLt]

theorem bswap_two {x : BitVec 64} (hx : x.toNat < 2 ^ 16) :
    x >>> 8 ||| (x &&& 0xff#64) <<< 8 = (bswap 2 (x.setWidth 16)).setWidth 64 := by
  obtain ⟨y, rfl⟩ := exists_setWidth hx
  apply BitVec.eq_of_getLsbD_eq
  intro i hi
  rw [BitVec.getLsbD_setWidth, getLsbD_bswap]
  simp only [BitVec.getLsbD_or, BitVec.getLsbD_and, BitVec.getLsbD_shiftLeft, BitVec.getLsbD_ushiftRight,
    BitVec.getLsbD_setWidth]
  interval_cases i <;> simp

theorem bswap_four {x : BitVec 64} (hx : x.toNat < 2 ^ 32) :
    (x <<< 24 &&& 0xffffffff#64 ||| (x &&& 0x0000ff00#64) <<< 8 ||| x >>> 8 &&& 0x0000ff00#64) ||| x >>> 24 =
      (bswap 4 (x.setWidth 32)).setWidth 64 := by
  obtain ⟨y, rfl⟩ := exists_setWidth hx
  apply BitVec.eq_of_getLsbD_eq
  intro i hi
  rw [BitVec.getLsbD_setWidth, getLsbD_bswap]
  simp only [BitVec.getLsbD_or, BitVec.getLsbD_and, BitVec.getLsbD_shiftLeft, BitVec.getLsbD_ushiftRight,
    BitVec.getLsbD_setWidth]
  interval_cases i <;> simp

/-- The bytes that are put together. -/
def gather (cut : BitVec 64 → BitVec 64) (x : BitVec 64) : BitVec 64 :=
  cut (cut (cut (cut (cut (cut (cut (x <<< 56) ||| cut (cut (x &&& 0xff00#64) <<< 40)) ||| cut (cut (x &&& 0xff0000#64) <<< 24)) |||
    cut (cut (x &&& 0xff000000#64) <<< 8)) ||| cut (cut (x >>> 8) &&& 0xff000000#64)) ||| cut (cut (x >>> 24) &&& 0xff0000#64)) |||
    cut (cut (x >>> 40) &&& 0xff00#64)) ||| cut (x >>> 56)

theorem gather_id (x : BitVec 64) : gather id x = bswap 8 x := by
  apply BitVec.eq_of_getLsbD_eq
  intro i hi
  rw [getLsbD_bswap]
  simp only [gather, id, BitVec.getLsbD_or, BitVec.getLsbD_and, BitVec.getLsbD_shiftLeft, BitVec.getLsbD_ushiftRight]
  interval_cases i <;> simp

/-- What is left in 32 bits. -/
def cut (x : BitVec 64) : BitVec 64 := (x.setWidth 32).setWidth 64

theorem getLsbD_cut (x : BitVec 64) (i : ℕ) : (cut x).getLsbD i = (decide (i < 32) && x.getLsbD i) := by
  rw [cut, BitVec.getLsbD_setWidth, BitVec.getLsbD_setWidth]
  by_cases hi : i < 32
  · simp [hi, show i < 64 by omega]
  · simp [hi]

theorem cut_or (x y : BitVec 64) : cut (x ||| y) = cut x ||| cut y := by
  rw [cut, BitVec.setWidth_or, BitVec.setWidth_or]
  rfl

/-- Only the low bits are left. -/
theorem cut_congr {x y : BitVec 64} (h : ∀ i < 32, x.getLsbD i = y.getLsbD i) : cut x = cut y := by
  apply BitVec.eq_of_getLsbD_eq
  intro i _
  rw [getLsbD_cut, getLsbD_cut]
  by_cases hi : i < 32
  · rw [h i hi]
  · simp [hi]

theorem cut_cut (x : BitVec 64) : cut (cut x) = cut x := cut_congr fun i hi => by simp [getLsbD_cut, hi]

theorem cut_and (x y : BitVec 64) : cut (cut x &&& y) = cut (x &&& y) := cut_congr fun i hi => by simp [getLsbD_cut, hi]

theorem cut_shiftLeft (x : BitVec 64) (n : ℕ) : cut (cut x <<< n) = cut (x <<< n) :=
  cut_congr fun i hi => by simp [getLsbD_cut, show i - n < 32 by omega]

theorem gather_cut (x : BitVec 64) : gather cut x = cut (bswap 8 x) := by
  rw [← gather_id]
  simp only [gather, id, cut_or, cut_cut, cut_and, cut_shiftLeft]

end Bytes

section Conversions

variable {h : Host} {k : ℕ} {σ : State} {ret arg : Temp} {p : List Op} {a b : BitVec 64}

theorem computes_exts {has : Bool} {n : ℕ} (h0 : 0 < n) (hn : n < 64) (hret : Ready k ret) (harg : Ready k arg) (σ : State) :
    (machine64 h).Computes k (tcgGenExtsI64 k has (64 - n) ret arg) σ ret (((σ arg).setWidth n).signExtend 64) := by
  unfold tcgGenExtsI64
  split_ifs with hhas
  · have hop := computes_full hret.2 (computes_op (h := h) (k := k) (σ := σ) (.ext (64 - (64 - n)) ret arg) trivial)
    rw [Op.value, show 64 - (64 - n) = n by omega] at hop
    rw [show 64 - (64 - n) = n by omega]
    exact hop
  · rw [← Expand.sshiftRight_shiftLeft h0 (by omega)]
    exact (computes_full hret.2 (computes_shli (by omega) (by omega) harg.1 ret σ)).update (f := fun x => x.sshiftRight (64 - n))
      fun τ => computes_full hret.2 (computes_sari (by omega) (by omega) hret.1 ret τ)

theorem computes_bswap16 (hret : Ready k ret) (harg : Ready k arg) (σ : State) (hlt : (σ arg).toNat < 2 ^ 16) :
    (machine64 h).Computes k (tcgGenBswap16I64 k h ret arg) σ ret ((bswap 2 ((σ arg).setWidth 16)).setWidth 64) := by
  unfold tcgGenBswap16I64
  split_ifs with hhas
  · have hop := computes_full hret.2 (computes_op (h := h) (k := k) (σ := σ) (.bswap16 ret arg) trivial)
    rwa [Op.value, if_pos hlt] at hop
  · have ht0 : Ready (k + 1) (.scratch k) := (lawful64 h).ready_temp k
    have harg' : Ready (k + 1) arg := (lawful64 h).succ harg
    have hret' : Ready (k + 1) ret := (lawful64 h).succ hret
    have hfirst : (machine64 h).Computes (k + 1) (tcgGenExt8uI64 (k + 1) (.scratch k) arg ++
        tcgGenShliI64 (k + 1) (.scratch k) (.scratch k) 8) σ (.scratch k) ((σ arg &&& 0xff#64) <<< 8) :=
      (computes_andi harg'.1 (.scratch k) 0xff#64 σ).update (f := fun x => x <<< 8)
        fun τ => computes_shli (by decide) (by decide) ht0.1 (.scratch k) τ
    have hself := hfirst.self
    have hkept := hfirst.others (inUse64 harg'.1) harg.1.ne_scratch
    dsimp only
    rw [List.append_assoc _ (tcgGenShriI64 (k + 1) ret arg 8), ← bswap_two hlt]
    refine hfirst.behind ?_
    generalize (machine64 h).run (tcgGenExt8uI64 (k + 1) (.scratch k) arg ++
      tcgGenShliI64 (k + 1) (.scratch k) (.scratch k) 8) σ = σ₁ at hself hkept ⊢
    have hshr := computes_full hret.2 (computes_shri (h := h) (n := 8) (by decide) (by decide) harg'.1 ret σ₁)
    have hor := (lawful64 h).or hret' hret' ht0 ((machine64 h).run (tcgGenShriI64 (k + 1) ret arg 8) σ₁)
    rw [hshr.self, hshr.others (inUse64 ht0.1) hret.1.ne_scratch.symm, hself] at hor
    have hvalue : σ₁ arg = σ arg := hkept
    rw [hvalue] at hor
    exact hshr.trans hor

section Temps

variable {temp : ℕ → Temp} {htemp : ∀ k, Old (k + 1) (temp k) ∧ ¬Old k (temp k)}
  (hold : (machineOf temp htemp h).Holds k p σ a b) (harg : Old k arg)

include hold

theorem hold_or : (machineOf temp htemp h).Holds k (p ++ tcgGenOrI64 (temp k) (temp k) (temp (k + 1))) σ
    (h.held (temp k) (a ||| b)) b := by
  have hne : temp k ≠ temp (k + 1) := Machine.temp_ne_succ (machineOf temp htemp h) k
  have hor := computes_machineOf temp htemp (computes_idem_ne (f := .or) (h := h) (k := k + 2) id (temp k) hne
    ((machineOf temp htemp h).run p σ))
  have hfirst : (machineOf temp htemp h).run p σ (temp k) = a := hold.first
  have hsecond : (machineOf temp htemp h).run p σ (temp (k + 1)) = b := hold.second
  rw [hfirst, hsecond] at hor
  exact hold.set_first hor

include harg

/-- A byte is moved up and added. -/
theorem hold_up (m : BitVec 64) {c : ℕ} (hpos : c ≠ 0) (hc : c < 64) : ∃ b', (machineOf temp htemp h).Holds k
    (p ++ tcgGenAndiI64 (k + 2) (temp (k + 1)) arg m ++ tcgGenShliI64 (k + 2) (temp (k + 1)) (temp (k + 1)) c ++
      tcgGenOrI64 (temp k) (temp k) (temp (k + 1))) σ
    (h.held (temp k) (a ||| h.held (temp (k + 1)) (h.held (temp (k + 1)) (σ arg &&& m) <<< c))) b' := by
  have harg' : Old (k + 2) arg := (machine64 h).used_succ _ _ ((machine64 h).used_succ _ _ harg)
  have hkept : (machineOf temp htemp h).run p σ arg = σ arg := hold.val (by rintro c rfl; exact harg)
  have hand := computes_machineOf temp htemp (computes_andi (h := h) harg' (temp (k + 1)) m
    ((machineOf temp htemp h).run p σ))
  rw [hkept] at hand
  have hold₁ := hold.set_second hand
  have hshl := computes_machineOf temp htemp (computes_shli (h := h) hpos hc (htemp (k + 1)).1 (temp (k + 1))
    ((machineOf temp htemp h).run (p ++ tcgGenAndiI64 (k + 2) (temp (k + 1)) arg m) σ))
  have hsecond : (machineOf temp htemp h).run (p ++ tcgGenAndiI64 (k + 2) (temp (k + 1)) arg m) σ (temp (k + 1)) = _ :=
    hold₁.second
  rw [hsecond] at hshl
  exact ⟨_, hold_or (hold₁.set_second hshl)⟩

/-- A byte is moved down and added. -/
theorem hold_down (m : BitVec 64) {c : ℕ} (hpos : c ≠ 0) (hc : c < 64) : ∃ b', (machineOf temp htemp h).Holds k
    (p ++ tcgGenShriI64 (k + 2) (temp (k + 1)) arg c ++ tcgGenAndiI64 (k + 2) (temp (k + 1)) (temp (k + 1)) m ++
      tcgGenOrI64 (temp k) (temp k) (temp (k + 1))) σ
    (h.held (temp k) (a ||| h.held (temp (k + 1)) (h.held (temp (k + 1)) (σ arg >>> c) &&& m))) b' := by
  have harg' : Old (k + 2) arg := (machine64 h).used_succ _ _ ((machine64 h).used_succ _ _ harg)
  have hkept : (machineOf temp htemp h).run p σ arg = σ arg := hold.val (by rintro c rfl; exact harg)
  have hshr := computes_machineOf temp htemp (computes_shri (h := h) hpos hc harg' (temp (k + 1))
    ((machineOf temp htemp h).run p σ))
  rw [hkept] at hshr
  have hold₁ := hold.set_second hshr
  have hand := computes_machineOf temp htemp (computes_andi (h := h) (htemp (k + 1)).1 (temp (k + 1)) m
    ((machineOf temp htemp h).run (p ++ tcgGenShriI64 (k + 2) (temp (k + 1)) arg c) σ))
  have hsecond : (machineOf temp htemp h).run (p ++ tcgGenShriI64 (k + 2) (temp (k + 1)) arg c) σ (temp (k + 1)) = _ :=
    hold₁.second
  rw [hsecond] at hand
  exact ⟨_, hold_or (hold₁.set_second hand)⟩

/-- The last byte is moved down, and all are put together in the destination. -/
theorem computes_last (hret : Full ret) {c : ℕ} (hpos : c ≠ 0) (hc : c < 64) : (machineOf temp htemp h).Computes k
    (p ++ tcgGenShriI64 (k + 2) (temp (k + 1)) arg c ++ tcgGenOrI64 ret (temp k) (temp (k + 1))) σ ret
    (a ||| h.held (temp (k + 1)) (σ arg >>> c)) := by
  have harg' : Old (k + 2) arg := (machine64 h).used_succ _ _ ((machine64 h).used_succ _ _ harg)
  have hkept : (machineOf temp htemp h).run p σ arg = σ arg := hold.val (by rintro c rfl; exact harg)
  have hshr := computes_machineOf temp htemp (computes_shri (h := h) hpos hc harg' (temp (k + 1))
    ((machineOf temp htemp h).run p σ))
  rw [hkept] at hshr
  have hold₁ := hold.set_second hshr
  have hor := computes_machineOf temp htemp (computes_idem (h := h) (k := k + 2) (f := .or) id (fun _ => BitVec.or_self)
    hret (temp k) (temp (k + 1)) ((machineOf temp htemp h).run (p ++ tcgGenShriI64 (k + 2) (temp (k + 1)) arg c) σ))
  have hfirst : (machineOf temp htemp h).run (p ++ tcgGenShriI64 (k + 2) (temp (k + 1)) arg c) σ (temp k) = a := hold₁.first
  have hsecond : (machineOf temp htemp h).run (p ++ tcgGenShriI64 (k + 2) (temp (k + 1)) arg c) σ (temp (k + 1)) = _ :=
    hold₁.second
  rw [hfirst, hsecond] at hor
  exact hold₁.computes hor

end Temps

theorem computes_bswap32 (hret : Ready k ret) (harg : Ready k arg) (σ : State) (hlt : (σ arg).toNat < 2 ^ 32) :
    (machine64 h).Computes k (tcgGenBswap32I64 k h ret arg) σ ret ((bswap 4 ((σ arg).setWidth 32)).setWidth 64) := by
  unfold tcgGenBswap32I64
  split_ifs with hhas
  · have hop := computes_full hret.2 (computes_op (h := h) (k := k) (σ := σ) (.bswap32 ret arg) trivial)
    rwa [Op.value, if_pos hlt] at hop
  · have harg' : Ready (k + 2) arg := (lawful64 h).succ ((lawful64 h).succ harg)
    have ht0 : Ready (k + 2) (.scratch k) := (lawful64 h).succ ((lawful64 h).ready_temp k)
    have hshl := computes_shli (h := h) (n := 24) (by decide) (by decide) harg'.1 (.scratch k) σ
    have hext := hshl.update (f := fun x => x &&& 0xffffffff#64) fun τ => computes_andi ht0.1 (.scratch k) 0xffffffff#64 τ
    have hold := (Machine.holds_nil (machine64 h) k σ).set_first hext
    obtain ⟨b₁, hold₁⟩ := hold_up hold harg.1 0x0000ff00#64 (c := 8) (by decide) (by decide)
    obtain ⟨b₂, hold₂⟩ := hold_down hold₁ harg.1 0x0000ff00#64 (c := 8) (by decide) (by decide)
    rw [← bswap_four hlt]
    exact computes_last hold₂ harg.1 hret.2 (by decide) (by decide)

theorem computes_bswap64 (hhas : h.hasBswap64 = false) (hret : Ready k ret) (harg : Ready k arg) (σ : State) :
    (machineNarrow h).Computes k (tcgGenBswap64I64 k h ret arg) σ ret (gather (h.held (.narrow k)) (σ arg)) := by
  unfold tcgGenBswap64I64
  rw [hhas, if_neg (by decide)]
  have harg' : Ready (k + 2) arg := (lawful64 h).succ ((lawful64 h).succ harg)
  have hshl := computes_machineOf .narrow (fun k => ⟨Nat.lt_succ_self k, Nat.lt_irrefl k⟩)
    (computes_shli (h := h) (n := 56) (by decide) (by decide) harg'.1 (.narrow k) σ)
  have hold := (Machine.holds_nil (machineNarrow h) k σ).set_first hshl
  obtain ⟨b₁, hold₁⟩ := hold_up hold harg.1 0x0000ff00#64 (c := 40) (by decide) (by decide)
  obtain ⟨b₂, hold₂⟩ := hold_up hold₁ harg.1 0x00ff0000#64 (c := 24) (by decide) (by decide)
  obtain ⟨b₃, hold₃⟩ := hold_up hold₂ harg.1 0xff000000#64 (c := 8) (by decide) (by decide)
  obtain ⟨b₄, hold₄⟩ := hold_down hold₃ harg.1 0xff000000#64 (c := 8) (by decide) (by decide)
  obtain ⟨b₅, hold₅⟩ := hold_down hold₄ harg.1 0x00ff0000#64 (c := 24) (by decide) (by decide)
  obtain ⟨b₆, hold₆⟩ := hold_down hold₅ harg.1 0x0000ff00#64 (c := 40) (by decide) (by decide)
  exact computes_last hold₆ harg.1 hret.2 (by decide) (by decide)

/-- Where the temporaries are spilled, only the low half is put together. -/
theorem gather_held_iff (h : Host) (k : ℕ) (x : BitVec 64) :
    gather (h.held (.narrow k)) x = bswap 8 x ↔ h.spills = false ∨ x.setWidth 32 = 0#32 := by
  cases hspills : h.spills with
  | false =>
    have hheld : h.held (.narrow k) = id := by
      funext v
      simp [Host.held, hspills]
    rw [hheld, gather_id]
    simp
  | true =>
    have hheld : h.held (.narrow k) = cut := by
      funext v
      simp [Host.held, hspills, cut]
    rw [hheld, gather_cut]
    simp only [Bool.true_eq_false, false_or]
    constructor
    · intro heq
      apply BitVec.eq_of_getLsbD_eq
      intro i hi
      have hbit := congrArg (fun y => y.getLsbD (8 * (7 - i / 8) + i % 8)) heq
      simp only [getLsbD_cut, getLsbD_bswap] at hbit
      rw [decide_eq_false (by omega), decide_eq_true (by omega), show 8 * (8 - 1 - (8 * (7 - i / 8) + i % 8) / 8) +
        (8 * (7 - i / 8) + i % 8) % 8 = i by omega] at hbit
      rw [BitVec.getLsbD_setWidth]
      simpa [hi] using hbit
    · intro heq
      apply BitVec.eq_of_getLsbD_eq
      intro i hi
      rw [getLsbD_cut]
      by_cases hlt : i < 32
      · simp [hlt]
      · have hbit := congrArg (fun y => y.getLsbD (8 * (8 - 1 - i / 8) + i % 8)) heq
        simp only [BitVec.getLsbD_setWidth] at hbit
        rw [decide_eq_true (by omega)] at hbit
        rw [getLsbD_bswap]
        simpa [hlt, hi] using hbit

end Conversions

/-- The host has the operation, or what its expansion does wrong does not show: the wrong shift of a
rotation to the right, and the temporaries of 32 bits of a byte swap. -/
def Kept (h : Host) (σ : State) : OptOp Temp → Prop
  | .rotr _ arg1 arg2 => h.hasRot = true ∨ ShiftsAgree (σ arg1) (σ arg2).toNat
  | .bswap64 _ arg => h.hasBswap64 = true ∨ h.spills = false ∨ (σ arg).setWidth 32 = 0#32
  | _ => True

theorem hasRotr_eq (h : Host) : (prims64 h).hasRotr = if h.hasRot then some (.bin .rotr) else none := rfl

theorem exists_computes_rotr (h : Host) (k : ℕ) (σ : State) {ret arg1 arg2 : Temp} (hret : Ready k ret)
    (h₁ : Ready k arg1) (h₂ : Ready k arg2) (hassumes : (OptOp.rotr ret arg1 arg2).Assumes σ) :
    ∃ x, (machine64 h).Computes k (genI64 h k (.rotr ret arg1 arg2)) σ ret x ∧
      (x = (σ arg1).rotateRight (σ arg2).toNat ↔ Kept h σ (.rotr ret arg1 arg2)) := by
  cases hrot : h.hasRot with
  | true =>
    have hsome : (prims64 h).hasRotr = some (.bin .rotr) := by rw [hasRotr_eq, hrot, if_pos rfl]
    exact ⟨_, (lawful64 h).computes_rotrI64_has hret h₁ h₂ σ hsome hassumes.2, iff_of_true rfl (.inl hrot)⟩
  | false =>
    have hnone : (prims64 h).hasRotr = none := by rw [hasRotr_eq, hrot, if_neg (by decide)]
    refine ⟨_, (lawful64 h).computes_rotrI64 hret h₁ h₂ σ hnone hassumes.1 hassumes.2, ?_⟩
    refine (shifts_eq_rotateRight_iff (σ arg1) hassumes.2).trans ⟨.inr, ?_⟩
    rintro (hhas | hkept)
    · exact absurd (hrot.symm.trans hhas) (by decide)
    · exact hkept

theorem computes_bswap64_iff (h : Host) (k : ℕ) (σ : State) {ret arg : Temp} (hret : Ready k ret) (harg : Ready k arg) :
    (machine64 h).Computes k (genI64 h k (.bswap64 ret arg)) σ ret (bswap 8 (σ arg)) ↔ Kept h σ (.bswap64 ret arg) := by
  cases hhas : h.hasBswap64 with
  | true =>
    have hop := computes_full hret.2 (computes_op (h := h) (k := k) (σ := σ) (.bswap64 ret arg) trivial)
    refine iff_of_true ?_ (.inl hhas)
    rw [genI64, tcgGenBswap64I64, hhas, if_pos rfl]
    exact hop
  | false =>
    have hcode : (machine64 h).Computes k (genI64 h k (.bswap64 ret arg)) σ ret (gather (h.held (.narrow k)) (σ arg)) :=
      computes_machineOf _ _ (computes_bswap64 hhas hret harg σ)
    have hgather := gather_held_iff h k (σ arg)
    constructor
    · intro hright
      exact .inr (hgather.1 (hcode.unique hright))
    · rintro (hhas' | hkept)
      · exact absurd (hhas.symm.trans hhas') (by decide)
      · rw [← hgather.2 hkept]
        exact hcode

theorem computes_genI64_iff (h : Host) (k : ℕ) (σ : State) (op : OptOp Temp) (hready : ∀ v ∈ op.vars, Ready k v)
    (hassumes : op.Assumes σ) :
    (machine64 h).Computes k (genI64 h k op) σ op.ret (op.eval σ) ↔ Kept h σ op := by
  have hgen : ¬op.Conversion → (∀ ret arg1 arg2, op ≠ .rotr ret arg1 arg2) →
      (machine64 h).Computes k (op.gen (prims64 h) ((prims64 h).tcgGenRotrI64 k) k) σ op.ret (op.eval σ) :=
    fun hop hne => (lawful64 h).computes_gen σ op _ hop (fun _ _ _ heq => absurd heq (hne _ _ _)) hready hassumes
  cases op with
  | rotr ret arg1 arg2 =>
    obtain ⟨x, hcode, hx⟩ := exists_computes_rotr h k σ (hready ret (by simp [OptOp.vars]))
      (hready arg1 (by simp [OptOp.vars])) (hready arg2 (by simp [OptOp.vars])) hassumes
    exact Iff.trans ⟨fun hright => hcode.unique hright, fun heq => heq ▸ hcode⟩ hx
  | bswap64 ret arg =>
    have heval : (OptOp.bswap64 ret arg).eval σ = bswap 8 (σ arg) := by
      rw [OptOp.eval, BitVec.setWidth_eq]
      exact congrArg (bswap 8) (BitVec.setWidth_eq _)
    rw [heval]
    exact computes_bswap64_iff h k σ (hready ret (by simp [OptOp.vars])) (hready arg (by simp [OptOp.vars]))
  | ext8s ret arg =>
    exact iff_of_true (computes_exts (n := 8) (by decide) (by decide) (hready ret (by simp [OptOp.vars]))
      (hready arg (by simp [OptOp.vars])) σ) trivial
  | ext16s ret arg =>
    exact iff_of_true (computes_exts (n := 16) (by decide) (by decide) (hready ret (by simp [OptOp.vars]))
      (hready arg (by simp [OptOp.vars])) σ) trivial
  | ext32s ret arg =>
    exact iff_of_true (computes_exts (n := 32) (by decide) (by decide) (hready ret (by simp [OptOp.vars]))
      (hready arg (by simp [OptOp.vars])) σ) trivial
  | bswap16 ret arg =>
    exact iff_of_true (computes_bswap16 (hready ret (by simp [OptOp.vars])) (hready arg (by simp [OptOp.vars])) σ
      hassumes) trivial
  | bswap32 ret arg =>
    exact iff_of_true (computes_bswap32 (hready ret (by simp [OptOp.vars])) (hready arg (by simp [OptOp.vars])) σ
      hassumes) trivial
  | _ => exact iff_of_true (hgen id nofun) trivial

end Native

/-! ### All expansions -/

open Expand in
/-- The operations on 32-bit variables are computed by what is emitted for them, for all operands
that are allowed and every aliasing; those on 64-bit variables, on a host of either size, exactly
where the rotation to the right and the byte swap are not damaged by their expansions. A rotation to
the left by the same count restores what a rotation to the right has rotated, on 64-bit variables
under the same condition. -/
theorem tcg_optional_ops (k : ℕ) :
    (∀ (h : Expand.Host) (has : Has32) (σ : Expand.State),
      (∀ op : OptOp Expand.Temp, (∀ v ∈ op.vars, (machine32 h).InUse k v) → op.Assumes σ.vals →
        (machine32 h).Computes k (genI32 h has k op) σ op.ret (op.eval σ.vals)) ∧
      (∀ ret arg1 arg2, (machine32 h).InUse k ret → (machine32 h).InUse k arg1 → (machine32 h).InUse k arg2 →
        arg2 ≠ ret → (OptOp.rotr ret arg1 arg2).Assumes σ.vals →
        (machine32 h).Computes k (genI32 h has k (.rotr ret arg1 arg2) ++ genI32 h has k (.rotl ret ret arg2)) σ ret
          (σ.vals arg1)) ∧
      ∀ ret arg1 n, (machine32 h).InUse k ret → (machine32 h).InUse k arg1 → 0 < n → n < 32 →
        (machine32 h).Computes k (genI32 h has k (.rotri ret arg1 n) ++ genI32 h has k (.rotli ret ret n)) σ ret
          (σ.vals arg1)) ∧
      (∀ (h : Expand.Host) (σ : Expand.State),
        (∀ op : OptOp ℕ, (op.Assumes fun n => (machinePair h).val σ (.var n)) →
          ((machinePair h).Computes k (genPair h k op) σ (.var op.ret)
              (op.eval fun n => (machinePair h).val σ (.var n)) ↔
            RotrKept (fun n => (machinePair h).val σ (.var n)) op)) ∧
        (∀ ret arg1 arg2, arg2 ≠ ret →
          ((OptOp.rotr ret arg1 arg2).Assumes fun n => (machinePair h).val σ (.var n)) →
          ((machinePair h).Computes k (genPair h k (.rotr ret arg1 arg2) ++ genPair h k (.rotl ret ret arg2)) σ (.var ret)
              ((machinePair h).val σ (.var arg1)) ↔
            RotrKept (fun n => (machinePair h).val σ (.var n)) (.rotr ret arg1 arg2))) ∧
        ∀ ret arg1 n, 0 < n → n < 64 →
          (machinePair h).Computes k (genPair h k (.rotri ret arg1 n) ++ genPair h k (.rotli ret ret n)) σ (.var ret)
            ((machinePair h).val σ (.var arg1))) ∧
      ∀ (h : Native.Host) (σ : Native.State),
        (∀ op : OptOp Native.Temp, (∀ v ∈ op.vars, Native.Ready k v) → op.Assumes σ →
          ((Native.machine64 h).Computes k (Native.genI64 h k op) σ op.ret (op.eval σ) ↔ Native.Kept h σ op)) ∧
        (∀ ret arg1 arg2, Native.Ready k ret → Native.Ready k arg1 → Native.Ready k arg2 → arg2 ≠ ret →
          (OptOp.rotr ret arg1 arg2).Assumes σ →
          ((Native.machine64 h).Computes k
              (Native.genI64 h k (.rotr ret arg1 arg2) ++ Native.genI64 h k (.rotl ret ret arg2)) σ ret (σ arg1) ↔
            Native.Kept h σ (.rotr ret arg1 arg2))) ∧
        ∀ ret arg1 n, Native.Ready k ret → Native.Ready k arg1 → 0 < n → n < 64 →
          (Native.machine64 h).Computes k
            (Native.genI64 h k (.rotri ret arg1 n) ++ Native.genI64 h k (.rotli ret ret n)) σ ret (σ arg1) := by
  refine ⟨fun h has σ => ⟨computes_genI32 h has k σ, ?_, ?_⟩, fun h σ => ⟨computes_genPair_iff h k σ, ?_, ?_⟩,
    fun h σ => ⟨Native.computes_genI64_iff h k σ, ?_, ?_⟩⟩
  · intro ret arg1 arg2 hret h₁ h₂ hne hassumes
    have hrotr := (lawful32 h has).computes_rotrI32 hret h₁ h₂ σ hassumes.1 hassumes.2
    exact ((lawful32 h has).restores_iff hret h₂ σ hrotr hne hassumes.1 hassumes.2).2 rfl
  · exact fun ret arg1 n hret h₁ hpos hlt => (lawful32 h has).restores_immediate hret h₁ σ hpos hlt
  · intro ret arg1 arg2 hne hassumes
    have hrotr := (lawfulPair h).computes_rotrI64 (inUse_var h k ret) (inUse_var h k arg1) (inUse_var h k arg2) σ rfl
      hassumes.1 hassumes.2
    have hrestores := (lawfulPair h).restores_iff (y := (machinePair h).val σ (.var arg1)) (inUse_var h k ret) (inUse_var h k arg2) σ hrotr
      (fun heq => hne (Wide.var.inj heq)) hassumes.1 hassumes.2
    exact hrestores.trans (shifts_eq_rotateRight_iff _ hassumes.2)
  · exact fun ret arg1 n hpos hlt => (lawfulPair h).restores_immediate (inUse_var h k ret) (inUse_var h k arg1) σ hpos hlt
  · intro ret arg1 arg2 hret h₁ h₂ hne hassumes
    obtain ⟨x, hcode, hx⟩ := Native.exists_computes_rotr h k σ hret h₁ h₂ hassumes
    exact ((Native.lawful64 h).restores_iff hret h₂ σ hcode hne hassumes.1 hassumes.2).trans hx
  · exact fun ret arg1 n hret h₁ hpos hlt => (Native.lawful64 h).restores_immediate hret h₁ σ hpos hlt

theorem bswap16_without : (Expand.machine32 Expand.i386).Computes 0
    (Expand.genI32 Expand.i386 ⟨false, false, false⟩ 0 (.bswap16 (.i32 0) (.i32 1))) Expand.filledState (.i32 0) 0x3412#32 := by
  have hcode := ((tcg_optional_ops 0).1 Expand.i386 ⟨false, false, false⟩ Expand.filledState).1 (.bswap16 (.i32 0) (.i32 1))
    (fun v hv => ?_) (show (Expand.filledState.vals (.i32 1)).toNat < 2 ^ 16 by decide)
  · have hval : (OptOp.bswap16 (Expand.Temp.i32 0) (.i32 1)).eval Expand.filledState.vals = 0x3412#32 := by decide
    rwa [hval] at hcode
  · obtain rfl | rfl : v = .i32 0 ∨ v = .i32 1 := by simpa [OptOp.vars] using hv
    · exact Expand.inUse32 trivial
    · exact Expand.inUse32 trivial

/-- A 64-bit host without the optional operations. -/
def sparc64 : Native.Host := ⟨false, false, false, false, false, false, false, false, false, id, false⟩

/-- The bit that should come to the top is rotated away. -/
theorem rotr_i64_wrong : ¬(Native.machine64 sparc64).Computes 0 (Native.genI64 sparc64 0 (.rotr (.var 0) (.var 1) (.var 2)))
    (fun t => if t = .var 1 then 2#64 else 1#64) (.var 0) ((2#64).rotateRight 1) := by
  intro hcode
  exact absurd hcode.self (by decide)

end Ar7Qemu.Tcg
