import Mathlib.Data.List.Basic

/-! Systems that answer each of their inputs, and when two of them answer alike. -/

namespace Ar7Qemu.Lib

variable {σ τ ε ρ : Type} {step : σ → ε → σ × ρ} {step' : τ → ε → τ × ρ}

/-- The answers of a system to a list of inputs. -/
def results (step : σ → ε → σ × ρ) : σ → List ε → List ρ
  | _, [] => []
  | s, e :: es => (step s e).2 :: results step (step s e).1 es

/-- Two systems answer alike when a relation of their states makes every answer the same and is kept. -/
theorem results_eq {R : σ → τ → Prop} {P : ε → Prop}
    (h : ∀ s t e, P e → R s t → (step s e).2 = (step' t e).2 ∧ R (step s e).1 (step' t e).1)
    {s : σ} {t : τ} (hst : R s t) {es : List ε} (hes : ∀ e ∈ es, P e) : results step s es = results step' t es := by
  induction es generalizing s t with
  | nil => rfl
  | cons e es ih =>
    obtain ⟨hanswer, hnext⟩ := h s t e (hes e (.head _)) hst
    rw [results, results, hanswer, ih hnext fun e he => hes e (.tail _ he)]

/-- A system answers by a function of the inputs when a condition on its states makes every answer so and is kept. -/
theorem results_eq_map {f : ε → ρ} {R : σ → Prop} {P : ε → Prop}
    (h : ∀ s e, P e → R s → (step s e).2 = f e ∧ R (step s e).1) {s : σ} (hs : R s) {es : List ε}
    (hes : ∀ e ∈ es, P e) : results step s es = es.map f := by
  induction es generalizing s with
  | nil => rfl
  | cons e es ih =>
    obtain ⟨hanswer, hnext⟩ := h s e (hes e (.head _)) hs
    rw [results, List.map_cons, hanswer, ih hnext fun e he => hes e (.tail _ he)]

end Ar7Qemu.Lib
