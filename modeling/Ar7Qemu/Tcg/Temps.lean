import Ar7Qemu.Lib.Chain
import Ar7Qemu.Lib.Run
import Ar7Qemu.Tcg.Op
import Mathlib.Data.Set.Lattice
import Mathlib.Order.CompletePartialOrder

/-! The temporaries of `tcg.c`. A temporary takes the next entries of the table, two of them for 64
bits on a 32-bit host, or an entry that was freed: freed temporaries are threaded through the table,
in one list for each type and locality. No two temporaries that are in use share an entry, and every
list holds the freed temporaries of its kind. -/

namespace Ar7Qemu.Tcg.Temps

open Lib

def tcgMaxTemps : ℕ := 512

/-- `TCGTemp`, as far as the allocation reads it. -/
structure TCGTemp where
  baseType : TCGType
  type : TCGType
  tempLocal : Bool
  tempAllocated : Bool
  nextFreeTemp : Option ℕ

/-- The index of a list of free temporaries: a type, and whether the temporaries are local. -/
abbrev Kind := TCGType × Bool

/-- `TCGContext`. On a 32-bit host `hostBits32` is set. -/
structure Context where
  hostBits32 : Bool
  temps : ℕ → TCGTemp
  nbGlobals : ℕ
  nbTemps : ℕ
  firstFreeTemp : Kind → Option ℕ

namespace Context

variable (s : Context)

def hostType (type : TCGType) : TCGType := if s.hostBits32 ∧ type = .i64 then .i32 else type

def width (type : TCGType) : ℕ := if s.hostBits32 ∧ type = .i64 then 2 else 1

def tcgFuncStart : Context := { s with nbTemps := s.nbGlobals, firstFreeTemp := fun _ => none }

def entry (i : ℕ) (baseType type : TCGType) (tempLocal : Bool) : ℕ → TCGTemp :=
  Function.update s.temps i
    { s.temps i with baseType := baseType, type := type, tempLocal := tempLocal, tempAllocated := true }

/-- `tcg_temp_new_internal`. It fails when the table is full, and when the temporary that it reuses is
not of the right locality. -/
def tcgTempNewInternal (type : TCGType) (tempLocal : Bool) : Option (ℕ × Context) :=
  match s.firstFreeTemp (type, tempLocal) with
  | some idx =>
    if (s.temps idx).tempLocal = tempLocal then
      some (idx, { s with
        temps := Function.update s.temps idx { s.temps idx with tempAllocated := true }
        firstFreeTemp := Function.update s.firstFreeTemp (type, tempLocal) (s.temps idx).nextFreeTemp })
    else none
  | none =>
    let idx := s.nbTemps
    if s.hostBits32 ∧ type = .i64 then
      if tcgMaxTemps < s.nbTemps + 2 then none
      else
        let s := { s with temps := s.entry idx type .i32 tempLocal }
        some (idx, { s with temps := s.entry (idx + 1) .i32 .i32 tempLocal, nbTemps := s.nbTemps + 2 })
    else if tcgMaxTemps < s.nbTemps + 1 then none
    else some (idx, { s with temps := s.entry idx type type tempLocal, nbTemps := s.nbTemps + 1 })

/-- `tcg_temp_free_internal`. It fails when the index is not that of a temporary, or the temporary is
not allocated. -/
def tcgTempFreeInternal (idx : ℕ) : Option Context :=
  if s.nbGlobals ≤ idx ∧ idx < s.nbTemps ∧ (s.temps idx).tempAllocated = true then
    let ts := s.temps idx
    let k := (ts.baseType, ts.tempLocal)
    some { s with
      temps := Function.update s.temps idx { ts with tempAllocated := false, nextFreeTemp := s.firstFreeTemp k }
      firstFreeTemp := Function.update s.firstFreeTemp k (some idx) }
  else none

end Context

/-! ### What has been handed out -/

/-- The context, with the kind of each temporary that was handed out and whether it is in use. -/
structure State where
  ctx : Context
  kind : ℕ → Option Kind
  live : ℕ → Bool

inductive Op
  | new (type : TCGType) (tempLocal : Bool)
  | free (idx : ℕ)

namespace State

/-- The table between `tcg_func_start` and the first temporary. -/
def start (s : Context) : State := ⟨s.tcgFuncStart, fun _ => none, fun _ => false⟩

variable (s : State)

/-- A temporary is freed while it is in use. -/
def step : Op → Option State
  | .new type tempLocal =>
    (s.ctx.tcgTempNewInternal type tempLocal).map fun (idx, ctx) =>
      ⟨ctx, Function.update s.kind idx (some (type, tempLocal)), Function.update s.live idx true⟩
  | .free idx =>
    if s.live idx then
      (s.ctx.tcgTempFreeInternal idx).map fun ctx => ⟨ctx, s.kind, Function.update s.live idx false⟩
    else none

/-- The entries of a temporary of a kind. -/
def slots (idx : ℕ) (k : Kind) : Set ℕ := {i | idx ≤ i ∧ i < idx + s.ctx.width k.1}

def freed (idx : ℕ) : Option Kind := if s.live idx then none else s.kind idx

/-- The temporaries in use are apart from each other and from the globals, each is of the type and
locality that was asked for, and each list of free temporaries ends and holds the freed ones of its
kind, each once. Only a full table makes an allocation fail, and no temporary in use fails to be
freed. -/
structure Right : Prop where
  apart : ∀ i j k k', s.kind i = some k → s.live i = true → s.kind j = some k' → s.live j = true → i ≠ j →
    Disjoint (s.slots i k) (s.slots j k')
  inTable : ∀ i k, s.kind i = some k → s.live i = true →
    ∀ x ∈ s.slots i k, s.ctx.nbGlobals ≤ x ∧ x < s.ctx.nbTemps ∧ x < tcgMaxTemps
  asked : ∀ i k, s.kind i = some k → s.live i = true →
    (s.ctx.temps i).baseType = k.1 ∧ (s.ctx.temps i).type = s.ctx.hostType k.1 ∧ (s.ctx.temps i).tempLocal = k.2 ∧
      (s.ctx.temps i).tempAllocated = true
  handed : ∀ i, s.live i = true → s.kind i ≠ none
  free : ∃ lists, Chains (fun i => (s.ctx.temps i).nextFreeTemp) s.ctx.firstFreeTemp s.freed lists
  full : ∀ type tempLocal, s.step (.new type tempLocal) = none →
    tcgMaxTemps < s.ctx.nbTemps + s.ctx.width type
  frees : ∀ i, s.live i = true → s.step (.free i) ≠ none

/-! ### Invariant -/

/-- The temporaries that were handed out, in use or freed, stand apart in the table between the globals
and its end. -/
structure Inv : Prop where
  handed : ∀ i, s.live i = true → s.kind i ≠ none
  placed : ∀ i k, s.kind i = some k →
    s.ctx.nbGlobals ≤ i ∧ i + s.ctx.width k.1 ≤ s.ctx.nbTemps ∧ s.ctx.nbTemps ≤ tcgMaxTemps
  apart : ∀ i j k k', s.kind i = some k → s.kind j = some k' → i < j → i + s.ctx.width k.1 ≤ j
  entry : ∀ i k, s.kind i = some k →
    (s.ctx.temps i).baseType = k.1 ∧ (s.ctx.temps i).type = s.ctx.hostType k.1 ∧ (s.ctx.temps i).tempLocal = k.2
  allocated : ∀ i, s.live i = true → (s.ctx.temps i).tempAllocated = true
  free : ∃ lists, Chains (fun i => (s.ctx.temps i).nextFreeTemp) s.ctx.firstFreeTemp s.freed lists
  globals_le : s.ctx.nbGlobals ≤ s.ctx.nbTemps

theorem width_pos (s : Context) (type : TCGType) : 0 < s.width type := by
  unfold Context.width
  split_ifs <;> decide

theorem inv_start (s : Context) : (start s).Inv where
  handed := nofun
  placed := nofun
  apart := nofun
  entry := nofun
  allocated := nofun
  free := ⟨fun _ => [], fun _ => rfl, fun _ => List.nodup_nil, fun _ _ => by simp [freed, start]⟩
  globals_le := le_rfl

variable {s}

theorem freed_eq_some {i : ℕ} {k : Kind} (h : s.freed i = some k) : s.live i = false ∧ s.kind i = some k := by
  unfold freed at h
  cases hlive : s.live i with
  | true =>
    rw [hlive] at h
    exact absurd h (by simp)
  | false =>
    rw [hlive] at h
    exact ⟨rfl, h⟩

theorem freed_of_live {i : ℕ} (h : s.live i = true) : s.freed i = none := if_pos h

theorem freed_of_not_live {i : ℕ} (h : s.live i = false) : s.freed i = s.kind i := if_neg (Bool.eq_false_iff.1 h)

theorem freed_congr {t : State} {i : ℕ} (hlive : t.live i = s.live i) (hkind : t.kind i = s.kind i) :
    t.freed i = s.freed i := by
  unfold freed
  rw [hlive, hkind]

theorem Inv.kind_nbTemps (h : s.Inv) {i : ℕ} (hi : s.ctx.nbTemps ≤ i) : s.kind i = none := by
  cases hk : s.kind i with
  | none => rfl
  | some k =>
    have hplaced := h.placed i k hk
    have hpos := width_pos s.ctx k.1
    omega

/-! ### Allocation -/

theorem reuse_eq (h : s.Inv) {type : TCGType} {tempLocal : Bool} {idx : ℕ}
    (hhead : s.ctx.firstFreeTemp (type, tempLocal) = some idx) :
    (s.kind idx = some (type, tempLocal) ∧ s.live idx = false) ∧
      s.ctx.tcgTempNewInternal type tempLocal = some (idx, { s.ctx with
        temps := Function.update s.ctx.temps idx { s.ctx.temps idx with tempAllocated := true }
        firstFreeTemp :=
          Function.update s.ctx.firstFreeTemp (type, tempLocal) (s.ctx.temps idx).nextFreeTemp }) := by
  obtain ⟨lists, hchains⟩ := h.free
  obtain ⟨hlive, hkind⟩ := freed_eq_some (hchains.key_head hhead)
  refine ⟨⟨hkind, hlive⟩, ?_⟩
  unfold Context.tcgTempNewInternal
  rw [hhead]
  exact if_pos (h.entry idx _ hkind).2.2

theorem inv_reuse (h : s.Inv) {type : TCGType} {tempLocal : Bool} {idx : ℕ}
    (hhead : s.ctx.firstFreeTemp (type, tempLocal) = some idx) {t : State}
    (hstep : s.step (.new type tempLocal) = some t) : t.Inv := by
  obtain ⟨⟨hkind, hlive⟩, hnew⟩ := reuse_eq h hhead
  obtain ⟨lists, hchains⟩ := h.free
  have hsame : Function.update s.kind idx (some (type, tempLocal)) = s.kind := by
    rw [← hkind]
    exact Function.update_eq_self idx s.kind
  dsimp only [step] at hstep
  rw [hnew, Option.map_some, hsame] at hstep
  cases hstep
  have hfield : ∀ {β : Type} (f : TCGTemp → β), (∀ ts : TCGTemp, f { ts with tempAllocated := true } = f ts) → ∀ i,
      f (Function.update s.ctx.temps idx { s.ctx.temps idx with tempAllocated := true } i) = f (s.ctx.temps i) := by
    intro β f hf i
    by_cases hi : i = idx
    · subst hi
      rw [Function.update_self]
      exact hf _
    · rw [Function.update_of_ne hi]
  refine ⟨fun i hi => ?_, h.placed, h.apart, fun i k hk => ?_, fun i hi => ?_, ?_, h.globals_le⟩
  · by_cases hidx : i = idx
    · rw [hidx]
      exact ne_of_eq_of_ne hkind nofun
    · exact h.handed i ((Function.update_of_ne hidx _ _).symm.trans hi)
  · dsimp only
    rw [hfield TCGTemp.baseType fun _ => rfl, hfield TCGTemp.type fun _ => rfl, hfield TCGTemp.tempLocal fun _ => rfl]
    exact h.entry i k hk
  · dsimp only
    by_cases hidx : i = idx
    · rw [hidx, Function.update_self]
    · rw [Function.update_of_ne hidx]
      exact h.allocated i ((Function.update_of_ne hidx _ _).symm.trans hi)
  · have hnext : (fun i => (Function.update s.ctx.temps idx { s.ctx.temps idx with tempAllocated := true } i).nextFreeTemp) =
        fun i => (s.ctx.temps i).nextFreeTemp := funext (hfield TCGTemp.nextFreeTemp fun _ => rfl)
    have hfreed : freed ⟨s.ctx, s.kind, Function.update s.live idx true⟩ = Function.update s.freed idx none := by
      funext i
      by_cases hi : i = idx
      · rw [hi, Function.update_self]
        exact freed_of_live (Function.update_self _ _ _)
      · rw [Function.update_of_ne hi]
        exact freed_congr (Function.update_of_ne hi _ _) rfl
    have hpop := hchains.pop hhead
    rw [← hfreed] at hpop
    refine ⟨Function.update lists (type, tempLocal) ((lists (type, tempLocal)).eraseP (· == idx)), ?_⟩
    dsimp only
    rw [hnext]
    exact hpop

/-- The table with the entries of a new temporary at its end. -/
structure Grown (s s' : Context) (type : TCGType) (tempLocal : Bool) : Prop where
  host : s'.hostBits32 = s.hostBits32
  globals : s'.nbGlobals = s.nbGlobals
  size : s'.nbTemps = s.nbTemps + s.width type
  heads : s'.firstFreeTemp = s.firstFreeTemp
  next : ∀ i, (s'.temps i).nextFreeTemp = (s.temps i).nextFreeTemp
  old : ∀ i < s.nbTemps, s'.temps i = s.temps i
  new : (s'.temps s.nbTemps).baseType = type ∧ (s'.temps s.nbTemps).type = s.hostType type ∧
    (s'.temps s.nbTemps).tempLocal = tempLocal ∧ (s'.temps s.nbTemps).tempAllocated = true

theorem next_entry (s : Context) (n : ℕ) (baseType type : TCGType) (tempLocal : Bool) (i : ℕ) :
    (s.entry n baseType type tempLocal i).nextFreeTemp = (s.temps i).nextFreeTemp := by
  unfold Context.entry
  by_cases hi : i = n
  · subst hi
    rw [Function.update_self]
  · rw [Function.update_of_ne hi]

theorem fresh_spec {s : Context} {type : TCGType} {tempLocal : Bool} (hhead : s.firstFreeTemp (type, tempLocal) = none) :
    (tcgMaxTemps < s.nbTemps + s.width type ∧ s.tcgTempNewInternal type tempLocal = none) ∨
      s.nbTemps + s.width type ≤ tcgMaxTemps ∧
        ∃ s', s.tcgTempNewInternal type tempLocal = some (s.nbTemps, s') ∧ Grown s s' type tempLocal := by
  unfold Context.tcgTempNewInternal
  rw [hhead]
  dsimp only
  by_cases hwide : s.hostBits32 ∧ type = .i64
  · have hwidth : s.width type = 2 := if_pos hwide
    have hhost : s.hostType type = .i32 := if_pos hwide
    rw [if_pos hwide, hwidth]
    by_cases hfull : tcgMaxTemps < s.nbTemps + 2
    · exact .inl ⟨hfull, if_pos hfull⟩
    · refine .inr ⟨not_lt.1 hfull, _, if_neg hfull, ⟨rfl, rfl, by rw [hwidth], rfl, fun i => ?_, fun i hi => ?_, ?_⟩⟩
      · exact (next_entry _ _ _ _ _ i).trans (next_entry _ _ _ _ _ i)
      · have hne : i ≠ s.nbTemps + 1 := by omega
        exact (Function.update_of_ne hne _ _).trans (Function.update_of_ne (Nat.ne_of_lt hi) _ _)
      · have hne : s.nbTemps ≠ s.nbTemps + 1 := Nat.ne_of_lt (Nat.lt_succ_self _)
        dsimp only
        rw [hhost, Context.entry, Function.update_of_ne hne]
        dsimp only
        rw [Context.entry, Function.update_self]
        exact ⟨rfl, rfl, rfl, rfl⟩
  · have hwidth : s.width type = 1 := if_neg hwide
    have hhost : s.hostType type = type := if_neg hwide
    rw [if_neg hwide, hwidth]
    by_cases hfull : tcgMaxTemps < s.nbTemps + 1
    · exact .inl ⟨hfull, if_pos hfull⟩
    · refine .inr ⟨not_lt.1 hfull, _, if_neg hfull, ⟨rfl, rfl, by rw [hwidth], rfl, fun i => ?_, fun i hi => ?_, ?_⟩⟩
      · exact next_entry _ _ _ _ _ i
      · exact Function.update_of_ne (Nat.ne_of_lt hi) _ _
      · dsimp only
        rw [hhost, Context.entry, Function.update_self]
        exact ⟨rfl, rfl, rfl, rfl⟩

theorem width_of_grown {s s' : Context} {type : TCGType} {tempLocal : Bool} (h : Grown s s' type tempLocal) (type' : TCGType) :
    s'.width type' = s.width type' := by
  unfold Context.width
  rw [h.host]

theorem hostType_of_grown {s s' : Context} {type : TCGType} {tempLocal : Bool} (h : Grown s s' type tempLocal)
    (type' : TCGType) : s'.hostType type' = s.hostType type' := by
  unfold Context.hostType
  rw [h.host]

theorem inv_fresh (h : s.Inv) {type : TCGType} {tempLocal : Bool} {ctx : Context} (hg : Grown s.ctx ctx type tempLocal)
    (hle : s.ctx.nbTemps + s.ctx.width type ≤ tcgMaxTemps) :
    Inv ⟨ctx, Function.update s.kind s.ctx.nbTemps (some (type, tempLocal)), Function.update s.live s.ctx.nbTemps true⟩ := by
  have hnone : s.kind s.ctx.nbTemps = none := h.kind_nbTemps le_rfl
  -- a temporary is the new one, or an old one below it
  have hkind : ∀ i k, Function.update s.kind s.ctx.nbTemps (some (type, tempLocal)) i = some k →
      i = s.ctx.nbTemps ∧ k = (type, tempLocal) ∨ i + s.ctx.width k.1 ≤ s.ctx.nbTemps ∧ s.kind i = some k := by
    intro i k hk
    by_cases hi : i = s.ctx.nbTemps
    · rw [hi, Function.update_self] at hk
      exact .inl ⟨hi, (Option.some.inj hk).symm⟩
    · rw [Function.update_of_ne hi] at hk
      exact .inr ⟨(h.placed i k hk).2.1, hk⟩
  have hlive : ∀ i, Function.update s.live s.ctx.nbTemps true i = true → i = s.ctx.nbTemps ∨ s.live i = true := by
    intro i hi
    by_cases hidx : i = s.ctx.nbTemps
    · exact .inl hidx
    · exact .inr ((Function.update_of_ne hidx _ _).symm.trans hi)
  constructor
  · intro i hi
    dsimp only at hi ⊢
    by_cases hidx : i = s.ctx.nbTemps
    · rw [hidx, Function.update_self]
      exact nofun
    · rw [Function.update_of_ne hidx]
      exact h.handed i ((hlive i hi).resolve_left hidx)
  · intro i k hk
    dsimp only
    rw [hg.globals, hg.size, width_of_grown hg]
    rcases hkind i k hk with ⟨rfl, rfl⟩ | ⟨hbelow, hold⟩
    · exact ⟨h.globals_le, le_rfl, hle⟩
    · exact ⟨(h.placed i k hold).1, hbelow.trans (Nat.le_add_right _ _), hle⟩
  · intro i j k k' hk hk' hlt
    dsimp only
    rw [width_of_grown hg]
    rcases hkind i k hk with ⟨rfl, rfl⟩ | ⟨hbelow, hold⟩
    · rcases hkind j k' hk' with ⟨rfl, rfl⟩ | ⟨hbelow', hold'⟩
      · exact absurd hlt (lt_irrefl _)
      · omega
    · rcases hkind j k' hk' with ⟨rfl, rfl⟩ | ⟨hbelow', hold'⟩
      · exact hbelow
      · exact h.apart i j k k' hold hold' hlt
  · intro i k hk
    dsimp only
    rw [hostType_of_grown hg]
    rcases hkind i k hk with ⟨rfl, rfl⟩ | ⟨hbelow, hold⟩
    · exact ⟨hg.new.1, hg.new.2.1, hg.new.2.2.1⟩
    · have hpos := width_pos s.ctx k.1
      rw [hg.old i (by omega)]
      exact h.entry i k hold
  · intro i hi
    rcases hlive i hi with rfl | hold
    · exact hg.new.2.2.2
    · obtain ⟨k, hk⟩ := Option.ne_none_iff_exists'.1 (h.handed i hold)
      have hplaced := h.placed i k hk
      have hpos := width_pos s.ctx k.1
      dsimp only
      rw [hg.old i (by omega)]
      exact h.allocated i hold
  · obtain ⟨lists, hchains⟩ := h.free
    have hfreed : freed ⟨ctx, Function.update s.kind s.ctx.nbTemps (some (type, tempLocal)),
        Function.update s.live s.ctx.nbTemps true⟩ = s.freed := by
      funext i
      by_cases hi : i = s.ctx.nbTemps
      · have hnew : s.freed s.ctx.nbTemps = none := by
          unfold freed
          rw [hnone, ite_self]
        rw [hi, hnew]
        exact freed_of_live (Function.update_self _ _ _)
      · exact freed_congr (Function.update_of_ne hi _ _) (Function.update_of_ne hi _ _)
    refine ⟨lists, ?_⟩
    dsimp only
    rw [hfreed, hg.heads, funext hg.next]
    exact hchains
  · dsimp only
    rw [hg.globals, hg.size]
    exact h.globals_le.trans (Nat.le_add_right _ _)

/-! ### Freeing -/

theorem free_eq (h : s.Inv) {idx : ℕ} {k : Kind} (hlive : s.live idx = true) (hkind : s.kind idx = some k) :
    s.ctx.tcgTempFreeInternal idx = some { s.ctx with
      temps := Function.update s.ctx.temps idx
        { s.ctx.temps idx with tempAllocated := false, nextFreeTemp := s.ctx.firstFreeTemp k }
      firstFreeTemp := Function.update s.ctx.firstFreeTemp k (some idx) } := by
  obtain ⟨hglobals, hle, -⟩ := h.placed idx k hkind
  obtain ⟨hbase, -, hlocal⟩ := h.entry idx k hkind
  have hpos := width_pos s.ctx k.1
  unfold Context.tcgTempFreeInternal
  rw [if_pos ⟨hglobals, by omega, h.allocated idx hlive⟩]
  dsimp only
  rw [hbase, hlocal]

theorem inv_free (h : s.Inv) {idx : ℕ} {t : State} (hstep : s.step (.free idx) = some t) : t.Inv := by
  dsimp only [step] at hstep
  by_cases hlive : s.live idx = true
  · obtain ⟨k, hkind⟩ := Option.ne_none_iff_exists'.1 (h.handed idx hlive)
    rw [if_pos hlive, free_eq h hlive hkind, Option.map_some] at hstep
    cases hstep
    have hstill : ∀ i, Function.update s.live idx false i = true → i ≠ idx ∧ s.live i = true := by
      intro i hi
      have hne : i ≠ idx := by
        rintro rfl
        rw [Function.update_self] at hi
        exact absurd hi (by decide)
      exact ⟨hne, (Function.update_of_ne hne _ _).symm.trans hi⟩
    refine ⟨fun i hi => h.handed i (hstill i hi).2, h.placed, h.apart, fun i k' hk' => ?_, fun i hi => ?_, ?_, h.globals_le⟩
    · dsimp only
      by_cases hi : i = idx
      · subst hi
        rw [Function.update_self]
        exact h.entry i k' hk'
      · rw [Function.update_of_ne hi]
        exact h.entry i k' hk'
    · obtain ⟨hne, hold⟩ := hstill i hi
      dsimp only
      rw [Function.update_of_ne hne]
      exact h.allocated i hold
    · obtain ⟨lists, hchains⟩ := h.free
      have hpush := hchains.push (freed_of_live hlive) k
      have hnext : (fun i => (Function.update s.ctx.temps idx
          { s.ctx.temps idx with tempAllocated := false, nextFreeTemp := s.ctx.firstFreeTemp k } i).nextFreeTemp) =
            Function.update (fun i => (s.ctx.temps i).nextFreeTemp) idx (s.ctx.firstFreeTemp k) := by
        funext i
        by_cases hi : i = idx
        · rw [hi, Function.update_self, Function.update_self]
        · rw [Function.update_of_ne hi, Function.update_of_ne hi]
      have hfreed : freed ⟨s.ctx, s.kind, Function.update s.live idx false⟩ = Function.update s.freed idx (some k) := by
        funext i
        by_cases hi : i = idx
        · rw [hi, Function.update_self, ← hkind]
          exact freed_of_not_live (Function.update_self _ _ _)
        · rw [Function.update_of_ne hi]
          exact freed_congr (Function.update_of_ne hi _ _) rfl
      rw [← hfreed, ← hnext] at hpush
      exact ⟨_, hpush⟩
  · rw [if_neg hlive] at hstep
    exact absurd hstep nofun

theorem inv_step (h : s.Inv) {op : Op} {t : State} (hstep : s.step op = some t) : t.Inv := by
  cases op with
  | new type tempLocal =>
    cases hhead : s.ctx.firstFreeTemp (type, tempLocal) with
    | some idx => exact inv_reuse h hhead hstep
    | none =>
      dsimp only [step] at hstep
      rcases fresh_spec hhead with ⟨-, hnew⟩ | ⟨hle, ctx, hnew, hgrown⟩
      · rw [hnew] at hstep
        exact absurd hstep nofun
      · rw [hnew] at hstep
        cases hstep
        exact inv_fresh h hgrown hle
  | free idx => exact inv_free h hstep

theorem Inv.right (h : s.Inv) : s.Right where
  apart := by
    intro i j k k' hk _ hk' _ hne
    rw [Set.disjoint_left]
    rintro x ⟨hi, hi'⟩ ⟨hj, hj'⟩
    rcases Nat.lt_or_gt_of_ne hne with hlt | hlt
    · have hij := h.apart i j k k' hk hk' hlt
      omega
    · have hji := h.apart j i k' k hk' hk hlt
      omega
  inTable := by
    rintro i k hk - x ⟨hi, hi'⟩
    obtain ⟨hglobals, hle, hmax⟩ := h.placed i k hk
    exact ⟨by omega, by omega, by omega⟩
  asked := fun i k hk hlive => ⟨(h.entry i k hk).1, (h.entry i k hk).2.1, (h.entry i k hk).2.2, h.allocated i hlive⟩
  handed := h.handed
  free := h.free
  full := by
    intro type tempLocal hnone
    dsimp only [step] at hnone
    rw [Option.map_eq_none_iff] at hnone
    cases hhead : s.ctx.firstFreeTemp (type, tempLocal) with
    | some idx =>
      rw [(reuse_eq h hhead).2] at hnone
      exact absurd hnone nofun
    | none =>
      rcases fresh_spec hhead with ⟨hlt, -⟩ | ⟨-, ctx, hnew, -⟩
      · exact hlt
      · rw [hnew] at hnone
        exact absurd hnone nofun
  frees := by
    intro i hlive
    obtain ⟨k, hkind⟩ := Option.ne_none_iff_exists'.1 (h.handed i hlive)
    dsimp only [step]
    rw [if_pos hlive, free_eq h hlive hkind]
    exact nofun

end State

end Ar7Qemu.Tcg.Temps
