import Mathlib.Data.Set.Insert

/-! Straight-line code over variables and temporaries. A variable lives in one or more cells of the
state and no two variables share a cell; code computes a value into a variable when it changes
nothing else that is in use. The rules follow code that takes one temporary, or two. -/

namespace Ar7Qemu.Lib

/-- Operations on a state with variables of `w` bits. With `k` temporaries taken `Used k` are the
cells in use, and `temp k` is the next temporary. `Defined` is when an operation may be executed. -/
structure Machine (Op S Cell C R V : Type) (w : ℕ) where
  exec : S → Op → S
  Defined : S → Op → Prop
  content : S → Cell → C
  rest : S → R
  cells : V → Set Cell
  val : S → V → BitVec w
  Used : ℕ → Cell → Prop
  temp : ℕ → V
  val_congr : ∀ σ σ' v, (∀ c ∈ cells v, content σ' c = content σ c) → val σ' v = val σ v
  apart : ∀ v v' c, c ∈ cells v → c ∈ cells v' → v = v'
  used_succ : ∀ k c, Used k c → Used (k + 1) c
  used_temp : ∀ k c, c ∈ cells (temp k) → Used (k + 1) c
  unused_temp : ∀ k c, c ∈ cells (temp k) → ¬Used k c
  cells_temp : ∀ k, (cells (temp k)).Nonempty

namespace Machine

variable {Op S Cell C R V : Type} {w : ℕ} (M : Machine Op S Cell C R V w)

def run (p : List Op) (σ : S) : S := p.foldl M.exec σ

/-- Every operation of the code may be executed when its turn comes. -/
def Safe : List Op → S → Prop
  | [], _ => True
  | op :: p, σ => M.Defined σ op ∧ Safe p (M.exec σ op)

def InUse (k : ℕ) (v : V) : Prop := ∀ c ∈ M.cells v, M.Used k c

/-- Nothing in use has changed but the variables of `X`. -/
structure Keeps (k : ℕ) (X : Set V) (σ σ' : S) : Prop where
  rest : M.rest σ' = M.rest σ
  content : ∀ c, M.Used k c → (∀ v ∈ X, c ∉ M.cells v) → M.content σ' c = M.content σ c

/-- The code sets `ret` to `v`, and nothing else in use has changed. -/
structure Computes (k : ℕ) (p : List Op) (σ : S) (ret : V) (v : BitVec w) : Prop where
  safe : M.Safe p σ
  self : M.val (M.run p σ) ret = v
  keeps : M.Keeps k {ret} σ (M.run p σ)

/-- The code leaves `a` and `b` in the next two temporaries, and nothing in use has changed. -/
structure Holds (k : ℕ) (p : List Op) (σ : S) (a b : BitVec w) : Prop where
  safe : M.Safe p σ
  first : M.val (M.run p σ) (M.temp k) = a
  second : M.val (M.run p σ) (M.temp (k + 1)) = b
  keeps : M.Keeps k ∅ σ (M.run p σ)

variable {M} {k : ℕ} {p q : List Op} {σ σ₁ σ₂ : S} {ret : V} {u v a b : BitVec w} {X : Set V}

theorem run_append : M.run (p ++ q) σ = M.run q (M.run p σ) := List.foldl_append

theorem safe_append : M.Safe (p ++ q) σ ↔ M.Safe p σ ∧ M.Safe q (M.run p σ) := by
  induction p generalizing σ with
  | nil => simp [Safe, run]
  | cons op p ih =>
    rw [List.cons_append, Safe, Safe, ih, and_assoc]
    rfl

/-! ### What is in use -/

theorem InUse.succ {t : V} (ht : M.InUse k t) : M.InUse (k + 1) t := fun c hc => M.used_succ k c (ht c hc)

theorem inUse_temp (M : Machine Op S Cell C R V w) (k : ℕ) : M.InUse (k + 1) (M.temp k) := M.used_temp k

theorem InUse.ne_temp {t : V} (ht : M.InUse k t) : t ≠ M.temp k := by
  rintro rfl
  obtain ⟨c, hc⟩ := M.cells_temp k
  exact M.unused_temp k c hc (ht c hc)

theorem temp_ne_succ (M : Machine Op S Cell C R V w) (k : ℕ) : M.temp k ≠ M.temp (k + 1) :=
  (inUse_temp M k).ne_temp

theorem Keeps.refl (M : Machine Op S Cell C R V w) (k : ℕ) (X : Set V) (σ : S) : M.Keeps k X σ σ :=
  ⟨rfl, fun _ _ _ => rfl⟩

theorem Keeps.trans (h₁ : M.Keeps k X σ σ₁) (h₂ : M.Keeps k X σ₁ σ₂) : M.Keeps k X σ σ₂ :=
  ⟨h₂.rest.trans h₁.rest, fun c hc hX => (h₂.content c hc hX).trans (h₁.content c hc hX)⟩

theorem Keeps.mono {Y : Set V} (h : M.Keeps k X σ σ₁) (hXY : X ⊆ Y) : M.Keeps k Y σ σ₁ :=
  ⟨h.rest, fun c hc hY => h.content c hc fun v hv => hY v (hXY hv)⟩

/-- A temporary that is not in use may change. -/
theorem Keeps.drop (h : M.Keeps (k + 1) (insert (M.temp k) X) σ σ₁) : M.Keeps k X σ σ₁ := by
  refine ⟨h.rest, fun c hc hX => h.content c (M.used_succ k c hc) ?_⟩
  rintro v (rfl | hv)
  · exact fun hmem => M.unused_temp k c hmem hc
  · exact hX v hv

theorem Keeps.val {t : V} (h : M.Keeps k X σ σ₁) (ht : M.InUse k t) (hX : t ∉ X) : M.val σ₁ t = M.val σ t := by
  apply M.val_congr
  intro c hc
  refine h.content c (ht c hc) fun v hv hmem => hX ?_
  rwa [M.apart t v c hc hmem]

/-! ### One destination -/

theorem Computes.others {t : V} (h : M.Computes k p σ ret v) (ht : M.InUse k t) (hne : t ≠ ret) :
    M.val (M.run p σ) t = M.val σ t := h.keeps.val ht hne

/-- The destination is set again. -/
theorem Computes.trans (h₁ : M.Computes k p σ ret u) (h₂ : M.Computes k q (M.run p σ) ret v) :
    M.Computes k (p ++ q) σ ret v := by
  refine ⟨safe_append.2 ⟨h₁.safe, h₂.safe⟩, ?_, ?_⟩
  · rw [run_append, h₂.self]
  · rw [run_append]
    exact h₁.keeps.trans h₂.keeps

/-- The destination is set again, from its value. -/
theorem Computes.update {f : BitVec w → BitVec w} (h₁ : M.Computes k p σ ret u)
    (h₂ : ∀ τ, M.Computes k q τ ret (f (M.val τ ret))) : M.Computes k (p ++ q) σ ret (f u) := by
  have hset := h₂ (M.run p σ)
  rw [h₁.self] at hset
  exact h₁.trans hset

/-- Code cannot compute two values. -/
theorem Computes.unique (h₁ : M.Computes k p σ ret u) (h₂ : M.Computes k p σ ret v) : u = v :=
  h₁.self.symm.trans h₂.self

/-- A temporary was set before. -/
theorem Computes.behind (h₁ : M.Computes (k + 1) p σ (M.temp k) u)
    (h₂ : M.Computes (k + 1) q (M.run p σ) ret v) : M.Computes k (p ++ q) σ ret v := by
  refine ⟨safe_append.2 ⟨h₁.safe, h₂.safe⟩, ?_, ?_⟩
  · rw [run_append, h₂.self]
  · rw [run_append]
    have hfirst : M.Keeps (k + 1) {M.temp k, ret} σ (M.run p σ) := h₁.keeps.mono (by simp)
    exact (hfirst.trans (h₂.keeps.mono (by simp))).drop

/-- A temporary was set before, and is used with a variable. -/
theorem Computes.behind_use {f : BitVec w → BitVec w → BitVec w} {arg : V} (harg : M.InUse k arg)
    (h₁ : M.Computes (k + 1) p σ (M.temp k) u)
    (h₂ : ∀ τ, M.Computes (k + 1) q τ ret (f (M.val τ arg) (M.val τ (M.temp k)))) :
    M.Computes k (p ++ q) σ ret (f (M.val σ arg) u) := by
  have hset := h₂ (M.run p σ)
  rw [h₁.self, h₁.others harg.succ harg.ne_temp] at hset
  exact h₁.behind hset

/-! ### Two temporaries -/

theorem holds_nil (M : Machine Op S Cell C R V w) (k : ℕ) (σ : S) :
    M.Holds k [] σ (M.val σ (M.temp k)) (M.val σ (M.temp (k + 1))) := ⟨trivial, rfl, rfl, Keeps.refl M k ∅ σ⟩

section Scratch

variable (hold : M.Holds k p σ a b)

include hold

theorem Holds.val {t : V} (ht : M.InUse k t) : M.val (M.run p σ) t = M.val σ t :=
  hold.keeps.val ht (Set.notMem_empty t)

/-- What was computed behind the temporaries keeps what it kept of them. -/
theorem Holds.keeps_run (hq : M.Keeps (k + 2) {M.temp k, M.temp (k + 1)} (M.run p σ) (M.run q (M.run p σ))) :
    M.Keeps k ∅ σ (M.run (p ++ q) σ) := by
  have hboth : M.Keeps (k + 1) {M.temp k} (M.run p σ) (M.run q (M.run p σ)) := by
    apply Keeps.drop
    rwa [Set.pair_comm]
  have hdrop : M.Keeps (k + 1) (insert (M.temp k) ∅) (M.run p σ) (M.run q (M.run p σ)) := hboth.mono (by simp)
  rw [run_append]
  exact hold.keeps.trans hdrop.drop

theorem Holds.set_first (hset : M.Computes (k + 2) q (M.run p σ) (M.temp k) v) : M.Holds k (p ++ q) σ v b := by
  refine ⟨safe_append.2 ⟨hold.safe, hset.safe⟩, ?_, ?_, hold.keeps_run (hset.keeps.mono (by simp))⟩
  · rw [run_append, hset.self]
  · rw [run_append, hset.others (inUse_temp M (k + 1)) (temp_ne_succ M k).symm, hold.second]

theorem Holds.set_second (hset : M.Computes (k + 2) q (M.run p σ) (M.temp (k + 1)) v) : M.Holds k (p ++ q) σ a v := by
  refine ⟨safe_append.2 ⟨hold.safe, hset.safe⟩, ?_, ?_, hold.keeps_run (hset.keeps.mono (by simp))⟩
  · rw [run_append, hset.others (inUse_temp M k).succ (temp_ne_succ M k), hold.first]
  · rw [run_append, hset.self]

/-- The result is computed behind the temporaries. -/
theorem Holds.computes (hset : M.Computes (k + 2) q (M.run p σ) ret v) : M.Computes k (p ++ q) σ ret v := by
  have hwide : M.Keeps (k + 2) {M.temp (k + 1), M.temp k, ret} (M.run p σ) (M.run q (M.run p σ)) :=
    hset.keeps.mono (by simp)
  refine ⟨safe_append.2 ⟨hold.safe, hset.safe⟩, ?_, ?_⟩
  · rw [run_append, hset.self]
  · rw [run_append]
    exact (hold.keeps.mono (Set.empty_subset _)).trans hwide.drop.drop

end Scratch

end Machine

end Ar7Qemu.Lib
