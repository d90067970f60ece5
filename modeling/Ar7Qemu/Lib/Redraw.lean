import Mathlib.Dynamics.PeriodicPts.Lemmas

/-! A generator that is stepped until what is read from it differs from a given value. Whether the
loop ends is a question about the orbit of the generator, and an injective generator of finitely
many states comes back to every state of its orbit. -/

namespace Ar7Qemu.Lib

variable {α β : Type*} [DecidableEq β] {f : α → α} {g : α → β} {avoid : β}

/-- The generator after at most so many steps, when `g` of it is not `avoid`. -/
def redraw (f : α → α) (g : α → β) (avoid : β) : ℕ → α → Option α
  | 0, _ => none
  | n + 1, x => if g (f x) = avoid then redraw f g avoid n (f x) else some (f x)

theorem redraw_eq_some {n : ℕ} {x y : α} (h : redraw f g avoid n x = some y) :
    (∃ k, y = f^[k + 1] x) ∧ g y ≠ avoid := by
  induction n generalizing x with
  | zero => cases h
  | succ n ih =>
    rw [redraw] at h
    split_ifs at h with heq
    · obtain ⟨⟨k, hk⟩, hne⟩ := ih h
      exact ⟨⟨k + 1, hk⟩, hne⟩
    · obtain rfl := Option.some.inj h
      exact ⟨⟨0, rfl⟩, heq⟩

/-- The loop ends exactly when some later state gives another value. -/
theorem exists_redraw_iff {x : α} : (∃ n y, redraw f g avoid n x = some y) ↔ ∃ k, g (f^[k + 1] x) ≠ avoid := by
  constructor
  · rintro ⟨n, y, h⟩
    obtain ⟨⟨k, rfl⟩, hne⟩ := redraw_eq_some h
    exact ⟨k, hne⟩
  · rintro ⟨k, hne⟩
    induction k generalizing x with
    | zero => exact ⟨1, f x, if_neg hne⟩
    | succ k ih =>
      by_cases heq : g (f x) = avoid
      · obtain ⟨n, y, h⟩ := ih (x := f x) hne
        exact ⟨n + 1, y, (if_pos heq).trans h⟩
      · exact ⟨1, f x, if_neg heq⟩

/-- An injective generator of finitely many states comes back. -/
theorem exists_iterate_back [Finite α] (hf : Function.Injective f) (x : α) (n : ℕ) : ∃ k, f^[k + 1] (f^[n] x) = x := by
  obtain ⟨p, hp, hperiod⟩ := hf.mem_periodicPts x
  have hle : n + 1 ≤ p * (n + 1) := Nat.le_mul_of_pos_left (n + 1) hp
  refine ⟨p * (n + 1) - n - 1, ?_⟩
  rw [← Function.iterate_add_apply, show p * (n + 1) - n - 1 + 1 + n = p * (n + 1) by omega]
  exact hperiod.mul_const (n + 1)

end Ar7Qemu.Lib
