import Mathlib.Tactic.Common

/-! Runs of a deterministic machine: the states a list of actions passes through,
and the two induction rules for invariants of whole runs. -/

namespace Ar7Qemu.Lib

variable {σ α : Type*} (step : σ → α → σ)

def states : σ → List α → List σ
  | s, [] => [s]
  | s, a :: as => s :: states (step s a) as

/-- Every action of a run meets `ok` in the state it is taken from. -/
def Meets (ok : σ → α → Prop) : σ → List α → Prop
  | _, [] => True
  | s, a :: as => ok s a ∧ Meets ok (step s a) as

instance decidableMeets (ok : σ → α → Prop) [∀ s a, Decidable (ok s a)] :
    ∀ s as, Decidable (Meets step ok s as)
  | _, [] => instDecidableTrue
  | s, a :: as => @instDecidableAnd _ _ _ (decidableMeets ok (step s a) as)

variable {step} {P : σ → Prop} {ok : σ → α → Prop}

theorem mem_states_self (s : σ) (as : List α) : s ∈ states step s as := by
  cases as <;> simp [states]

theorem foldl_mem_states : ∀ (as : List α) (s : σ), as.foldl step s ∈ states step s as
  | [], _ => List.mem_singleton.2 rfl
  | a :: as, s => List.mem_cons_of_mem _ (foldl_mem_states as (step s a))

/-- What a step that meets its condition keeps, a run of such steps keeps. -/
theorem states_invariant (keep : ∀ s a, P s → ok s a → P (step s a)) :
    ∀ (as : List α) (s : σ), P s → Meets step ok s as → ∀ t ∈ states step s as, P t
  | [], s, hs, _, t, ht => by
    rw [states, List.mem_singleton] at ht
    exact ht ▸ hs
  | a :: as, s, hs, hok, t, ht => by
    rcases List.mem_cons.1 ht with rfl | ht
    · exact hs
    · exact states_invariant keep as _ (keep s a hs hok.1) hok.2 t ht

theorem Meets.mono {ok' : σ → α → Prop} (h : ∀ s a, ok s a → ok' s a) :
    ∀ {as : List α} {s : σ}, Meets step ok s as → Meets step ok' s as
  | [], _, _ => trivial
  | _ :: _, _, hok => ⟨h _ _ hok.1, hok.2.mono h⟩

/-- Conditions that agree where `P` holds are met by the same runs. -/
theorem meets_congr {ok' : σ → α → Prop} (keep : ∀ s a, P s → P (step s a)) (h : ∀ s a, P s → (ok s a ↔ ok' s a))
    (as : List α) (s : σ) (hs : P s) : Meets step ok s as ↔ Meets step ok' s as := by
  induction as generalizing s with
  | nil => exact Iff.rfl
  | cons a as ih => exact and_congr (h s a hs) (ih _ (keep s a hs))

/-- The second part of a run meets its condition from where the first part ends. -/
theorem meets_append {as bs : List α} : ∀ {s : σ}, Meets step ok s (as ++ bs) ↔
    Meets step ok s as ∧ Meets step ok (as.foldl step s) bs := by
  induction as with
  | nil => simp [Meets]
  | cons a as ih => simp [Meets, ih, and_assoc]

/-- What every step keeps holds at the end of a run. -/
theorem foldl_invariant (keep : ∀ s a, P s → P (step s a)) :
    ∀ (as : List α) (s : σ), P s → P (as.foldl step s)
  | [], _, hs => hs
  | a :: as, s, hs => foldl_invariant keep as (step s a) (keep s a hs)

/-- What every step that does not fail keeps holds at the end of a run that does not fail. -/
theorem foldlM_invariant {step : σ → α → Option σ} (keep : ∀ s a s', P s → step s a = some s' → P s') :
    ∀ (as : List α) (s s' : σ), P s → as.foldlM step s = some s' → P s'
  | [], s, s', hs, h => by
    rw [List.foldlM_nil] at h
    cases h
    exact hs
  | a :: as, s, s', hs, h => by
    rw [List.foldlM_cons] at h
    obtain ⟨s₁, h₁, h₂⟩ := Option.bind_eq_some_iff.1 h
    exact foldlM_invariant keep as s₁ s' (keep s a s₁ hs h₁) h₂

/-- Every action of a run of a machine that may fail meets `ok` in the state it is taken from. -/
def MeetsM (step : σ → α → Option σ) (ok : σ → α → Prop) : σ → List α → Prop
  | _, [] => True
  | s, a :: as => ok s a ∧ ∀ s', step s a = some s' → MeetsM step ok s' as

theorem meetsM_cons_none {step : σ → α → Option σ} {s : σ} {a : α} {as : List α} (h : step s a = none) :
    ok s a ↔ MeetsM step ok s (a :: as) := by
  constructor
  · intro hok
    refine ⟨hok, fun s' hs' => ?_⟩
    rw [h] at hs'
    cases hs'
  · exact And.left

theorem meetsM_cons_some {step : σ → α → Option σ} {s s₁ : σ} {a : α} {as : List α} (h : step s a = some s₁) :
    (ok s a ∧ MeetsM step ok s₁ as) ↔ MeetsM step ok s (a :: as) := by
  constructor
  · rintro ⟨hok, hrest⟩
    refine ⟨hok, fun s' hs' => ?_⟩
    rw [h] at hs'
    cases hs'
    exact hrest
  · exact fun hm => ⟨hm.1, hm.2 s₁ h⟩

/-- The second part of such a run meets its condition from where the first part ends. -/
theorem meetsM_append {step : σ → α → Option σ} {as bs : List α} : ∀ {s : σ}, MeetsM step ok s (as ++ bs) →
    MeetsM step ok s as ∧ ∀ t, as.foldlM step s = some t → MeetsM step ok t bs := by
  induction as with
  | nil =>
    intro s h
    refine ⟨trivial, fun t ht => ?_⟩
    cases ht
    exact h
  | cons a as ih =>
    intro s h
    refine ⟨⟨h.1, fun s' hs' => (ih (h.2 s' hs')).1⟩, fun t ht => ?_⟩
    rw [List.foldlM_cons] at ht
    obtain ⟨s₁, h₁, h₂⟩ := Option.bind_eq_some_iff.1 ht
    exact (ih (h.2 s₁ h₁)).2 t h₂

instance decidableMeetsM (step : σ → α → Option σ) (ok : σ → α → Prop) [∀ s a, Decidable (ok s a)] :
    ∀ s as, Decidable (MeetsM step ok s as)
  | _, [] => instDecidableTrue
  | s, a :: as =>
    match h : step s a with
    | none => decidable_of_iff (ok s a) (meetsM_cons_none h)
    | some s₁ =>
      @decidable_of_iff _ (ok s a ∧ MeetsM step ok s₁ as) (meetsM_cons_some h)
        (@instDecidableAnd _ _ _ (decidableMeetsM step ok s₁ as))

/-- Actions that meet `ok` in every state. -/
theorem meetsM_of_forall {step : σ → α → Option σ} : ∀ {as : List α}, (∀ a ∈ as, ∀ s, ok s a) →
    ∀ s, MeetsM step ok s as
  | [], _, _ => trivial
  | a :: _, h, s => ⟨h a List.mem_cons_self s, fun s' _ =>
      meetsM_of_forall (fun b hb => h b (List.mem_cons_of_mem _ hb)) s'⟩

/-- When an action that meets its condition does not fail and keeps `P`, no run of such
actions fails, and all its states meet `P`. -/
theorem foldlM_take_total {step : σ → α → Option σ} (keep : ∀ s a, P s → ok s a → ∃ s', step s a = some s' ∧ P s') :
    ∀ (as : List α) (s : σ), P s → MeetsM step ok s as → ∀ n, ∃ s', (as.take n).foldlM step s = some s' ∧ P s'
  | _, s, hs, _, 0 => ⟨s, rfl, hs⟩
  | [], s, hs, _, _ + 1 => ⟨s, rfl, hs⟩
  | a :: as, s, hs, hok, n + 1 => by
    obtain ⟨s₁, h₁, hs₁⟩ := keep s a hs hok.1
    obtain ⟨s₂, h₂, hs₂⟩ := foldlM_take_total keep as s₁ hs₁ (hok.2 s₁ h₁) n
    refine ⟨s₂, ?_, hs₂⟩
    rw [List.take_succ_cons, List.foldlM_cons, h₁]
    exact h₂

/-- When an action that meets its condition keeps `P`, the states that a run of such actions
gets to meet `P`. -/
theorem foldlM_take_invariant {step : σ → α → Option σ}
    (keep : ∀ s a s', P s → ok s a → step s a = some s' → P s') :
    ∀ (as : List α) (s : σ), P s → MeetsM step ok s as → ∀ n s', (as.take n).foldlM step s = some s' → P s'
  | _, s, hs, _, 0, s', h => by
    cases h
    exact hs
  | [], s, hs, _, _ + 1, s', h => by
    cases h
    exact hs
  | a :: as, s, hs, hok, n + 1, s', h => by
    rw [List.take_succ_cons, List.foldlM_cons] at h
    obtain ⟨s₁, h₁, h₂⟩ := Option.bind_eq_some_iff.1 h
    exact foldlM_take_invariant keep as s₁ (keep s a s₁ hs hok.1 h₁) (hok.2 s₁ h₁) n s' h₂

/-- When a step keeps `P` exactly under its condition, so does a run. -/
theorem states_iff_meets (keep : ∀ s a, P s → (P (step s a) ↔ ok s a)) :
    ∀ (as : List α) (s : σ), P s → ((∀ t ∈ states step s as, P t) ↔ Meets step ok s as)
  | [], s, hs => by simpa [states, Meets] using hs
  | a :: as, s, hs => by
    constructor
    · intro h
      have hstep : P (step s a) := h _ (List.mem_cons_of_mem _ (mem_states_self _ _))
      refine ⟨(keep s a hs).1 hstep, (states_iff_meets keep as _ hstep).1 ?_⟩
      intro t ht
      exact h t (List.mem_cons_of_mem _ ht)
    · rintro ⟨hok, hrest⟩ t ht
      have hstep : P (step s a) := (keep s a hs).2 hok
      rcases List.mem_cons.1 ht with rfl | ht
      · exact hs
      · exact (states_iff_meets keep as _ hstep).2 hrest t ht

/-- When a step that meets its condition keeps `P`, which implies `Q`, and one that does not
loses `Q`, a run keeps `Q` exactly when its steps meet their condition. -/
theorem states_iff_meets_of {Q : σ → Prop} (himp : ∀ s, P s → Q s) (keep : ∀ s a, P s → ok s a → P (step s a))
    (lose : ∀ s a, P s → Q (step s a) → ok s a) (as : List α) (s : σ) (hs : P s) :
    (∀ t ∈ states step s as, Q t) ↔ Meets step ok s as := by
  refine ⟨fun h => ?_, fun hok t ht => himp t (states_invariant keep as s hs hok t ht)⟩
  induction as generalizing s with
  | nil => trivial
  | cons a as ih =>
    have hok : ok s a := lose s a hs (h _ (List.mem_cons_of_mem _ (mem_states_self _ _)))
    exact ⟨hok, ih _ (keep s a hs hok) fun t ht => h t (List.mem_cons_of_mem _ ht)⟩

/-- Every action of a run that does not fail meets `ok` in the state it is taken from. -/
def MeetsDone (step : σ → α → Option σ) (ok : σ → α → Prop) : σ → List α → Prop
  | _, [] => True
  | s, a :: as => ∀ s', step s a = some s' → ok s a ∧ MeetsDone step ok s' as

/-- Among runs whose states all meet `R`: when a step that meets its condition keeps `P`, which
implies `Q`, and one that does not loses `Q`, the states that a run gets to meet `Q` exactly when
its steps meet their condition. -/
theorem foldlM_take_iff_meetsDone_within {step : σ → α → Option σ} {Q R : σ → Prop} (himp : ∀ s, P s → Q s)
    (keep : ∀ s a s', P s → step s a = some s' → R s' → ok s a → P s')
    (lose : ∀ s a s', P s → step s a = some s' → R s' → Q s' → ok s a) :
    ∀ (as : List α) (s : σ), P s → (∀ n s', (as.take n).foldlM step s = some s' → R s') →
      ((∀ n s', (as.take n).foldlM step s = some s' → Q s') ↔ MeetsDone step ok s as)
  | [], s, hs, _ => by
    refine ⟨fun _ => trivial, fun _ n s' h => ?_⟩
    rw [List.take_nil] at h
    cases h
    exact himp s hs
  | a :: as, s, hs, hR => by
    have hcons : ∀ n s₁, step s a = some s₁ →
        ((a :: as).take (n + 1)).foldlM step s = (as.take n).foldlM step s₁ := by
      intro n s₁ h₁
      rw [List.take_succ_cons, List.foldlM_cons, h₁]
      rfl
    have hR₁ : ∀ s₁, step s a = some s₁ → R s₁ := fun s₁ h₁ => hR 1 s₁ (hcons 0 s₁ h₁)
    have hrest : ∀ s₁, step s a = some s₁ → ∀ n s', (as.take n).foldlM step s₁ = some s' → R s' :=
      fun s₁ h₁ n s' hn => hR (n + 1) s' ((hcons n s₁ h₁).trans hn)
    constructor
    · intro h s₁ h₁
      have hok : ok s a := lose s a s₁ hs h₁ (hR₁ s₁ h₁) (h 1 s₁ (hcons 0 s₁ h₁))
      have hP : P s₁ := keep s a s₁ hs h₁ (hR₁ s₁ h₁) hok
      refine ⟨hok, (foldlM_take_iff_meetsDone_within himp keep lose as s₁ hP (hrest s₁ h₁)).1 fun n s' hn => ?_⟩
      exact h (n + 1) s' ((hcons n s₁ h₁).trans hn)
    · intro h n s' hn
      cases n with
      | zero =>
        cases hn
        exact himp s hs
      | succ n =>
        cases h₁ : step s a with
        | none =>
          rw [List.take_succ_cons, List.foldlM_cons, h₁] at hn
          cases hn
        | some s₁ =>
          have hP : P s₁ := keep s a s₁ hs h₁ (hR₁ s₁ h₁) (h s₁ h₁).1
          rw [hcons n s₁ h₁] at hn
          exact (foldlM_take_iff_meetsDone_within himp keep lose as s₁ hP (hrest s₁ h₁)).2 (h s₁ h₁).2 n s' hn

/-- When a step that meets its condition keeps `P`, which implies `Q`, and one that does not
loses `Q`, the states that a run gets to meet `Q` exactly when its steps meet their condition. -/
theorem foldlM_take_iff_meetsDone_of {step : σ → α → Option σ} {Q : σ → Prop} (himp : ∀ s, P s → Q s)
    (keep : ∀ s a s', P s → step s a = some s' → ok s a → P s')
    (lose : ∀ s a s', P s → step s a = some s' → Q s' → ok s a) (as : List α) (s : σ) (hs : P s) :
    (∀ n s', (as.take n).foldlM step s = some s' → Q s') ↔ MeetsDone step ok s as :=
  foldlM_take_iff_meetsDone_within (R := fun _ => True) himp (fun s a s' hs h _ => keep s a s' hs h)
    (fun s a s' hs h _ => lose s a s' hs h) as s hs fun _ _ _ => trivial

/-- When a step that does not fail keeps `P` exactly under its condition, so does a run. -/
theorem foldlM_take_iff_meetsDone {step : σ → α → Option σ}
    (keep : ∀ s a s', P s → step s a = some s' → (P s' ↔ ok s a)) (as : List α) (s : σ) (hs : P s) :
    (∀ n s', (as.take n).foldlM step s = some s' → P s') ↔ MeetsDone step ok s as :=
  foldlM_take_iff_meetsDone_of (fun _ h => h) (fun s a s' hs h => (keep s a s' hs h).2)
    (fun s a s' hs h => (keep s a s' hs h).1) as s hs

/-! ### Machines whose step is a relation -/

section Relation

variable {Step : σ → α → σ → Prop}

/-- The state is one that the actions lead to. -/
def Reaches (Step : σ → α → σ → Prop) : σ → List α → σ → Prop
  | s, [], s' => s' = s
  | s, a :: as, s' => ∃ s₁, Step s a s₁ ∧ Reaches Step s₁ as s'

/-- Every action of a run meets `ok` in the states that the actions before it lead to. -/
def MeetsRel (Step : σ → α → σ → Prop) (ok : σ → α → Prop) : σ → List α → Prop
  | _, [] => True
  | s, a :: as => ok s a ∧ ∀ s', Step s a s' → MeetsRel Step ok s' as

/-- What every step keeps holds of all states that actions lead to. -/
theorem reaches_invariant (keep : ∀ s a s', P s → Step s a s' → P s') (as : List α) :
    ∀ (s s' : σ), P s → Reaches Step s as s' → P s' := by
  induction as with
  | nil =>
    rintro s s' hs rfl
    exact hs
  | cons a as ih =>
    rintro s s' hs ⟨s₁, h₁, hrest⟩
    exact ih s₁ s' (keep s a s₁ hs h₁) hrest

/-- Conditions that agree where `P` holds are met by the same runs, when the steps that meet them
keep `P`. -/
theorem meetsRel_congr {ok' : σ → α → Prop} (keep : ∀ s a s', P s → ok s a → Step s a s' → P s')
    (h : ∀ s a, P s → (ok s a ↔ ok' s a)) (as : List α) :
    ∀ s, P s → (MeetsRel Step ok s as ↔ MeetsRel Step ok' s as) := by
  induction as with
  | nil => exact fun _ _ => Iff.rfl
  | cons a as ih =>
    intro s hs
    constructor
    · rintro ⟨hok, hrest⟩
      exact ⟨(h s a hs).1 hok, fun s' hs' => (ih s' (keep s a s' hs hok hs')).1 (hrest s' hs')⟩
    · rintro ⟨hok', hrest⟩
      have hok : ok s a := (h s a hs).2 hok'
      exact ⟨hok, fun s' hs' => (ih s' (keep s a s' hs hok hs')).2 (hrest s' hs')⟩

end Relation

end Ar7Qemu.Lib
