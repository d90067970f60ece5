import Mathlib.Order.Defs.Unbundled

/-! Frame conditions on stateful computations: a preorder that relates the state
after a computation to the state before. Such a condition holds of a sequence when
it holds of the parts. -/

namespace Ar7Qemu.Lib

variable {σ α β : Type} {R : σ → σ → Prop}

/-- The state after `x` is related by `R` to the state before. -/
def Keeps (R : σ → σ → Prop) (x : StateM σ α) : Prop := ∀ s, R s (x s).2

theorem keeps_pure [Std.Refl R] (a : α) : Keeps R (pure a : StateM σ α) := fun s => Std.Refl.refl s

theorem keeps_get [Std.Refl R] : Keeps R (get : StateM σ σ) := fun s => Std.Refl.refl s

theorem keeps_modify {f : σ → σ} (h : ∀ s, R s (f s)) : Keeps R (modify f : StateM σ PUnit) :=
  fun s => h s

theorem Keeps.mono {R' : σ → σ → Prop} {x : StateM σ α} (hx : Keeps R x)
    (h : ∀ s s', R s s' → R' s s') : Keeps R' x := fun s => h _ _ (hx s)

theorem Keeps.bind [IsTrans σ R] {x : StateM σ α} {f : α → StateM σ β} (hx : Keeps R x)
    (hf : ∀ a, Keeps R (f a)) : Keeps R (x >>= f) :=
  fun s => IsTrans.trans _ _ _ (hx s) (hf (x s).1 (x s).2)

/-- A computation that can fail is followed by what is done in each case. -/
theorem Keeps.bind_except [IsTrans σ R] {ε : Type} {x : StateM σ (Except ε α)}
    {f : Except ε α → StateM σ β} (hx : Keeps R x) (herror : ∀ e, Keeps R (f (.error e)))
    (hok : ∀ a, Keeps R (f (.ok a))) : Keeps R (x >>= f) := by
  refine hx.bind ?_
  rintro (e | a)
  · exact herror e
  · exact hok a

/-- A state that is set is one that depends on the state before. -/
theorem keeps_get_set [IsTrans σ R] {f : σ → σ} {k : σ → PUnit → StateM σ β} (hf : ∀ s, R s (f s))
    (hk : ∀ s u, Keeps R (k s u)) :
    Keeps R (do let s ← get; let u ← set (f s); k s u : StateM σ β) :=
  fun s => IsTrans.trans _ _ _ (hf s) (hk s ⟨⟩ (f s))

theorem Keeps.ite {p : Prop} [Decidable p] {x y : StateM σ α} (hx : Keeps R x) (hy : Keeps R y) :
    Keeps R (if p then x else y) := by
  split
  · exact hx
  · exact hy

end Ar7Qemu.Lib
