import Ar7Qemu.Lib.Chain
import Mathlib.Algebra.Order.Ring.Nat
import Mathlib.Data.List.TakeWhile

/-! The timer lists of vl.c. A clock keeps its armed timers in a linked list. Callbacks run in
the middle of a run over the list, and they may arm and delete every timer, the one that
fires too. The log is not part of the program: it is the history from which it is read which
timers are pending. -/

namespace Ar7Qemu.Vl.Timers

open Ar7Qemu.Lib

inductive ClockType where
  | realtime
  | virtual
  deriving DecidableEq

/-- The fields of the timers, and the two list heads. -/
structure State (Timer : Type) where
  clock : Timer → ClockType
  next : Timer → Option Timer
  expireTime : Timer → ℤ
  activeTimers : ClockType → Option Timer

variable {Timer : Type} [DecidableEq Timer]

/-- A store through `pt`, which is the `next` field of a timer or the head of a list. -/
def State.store (σ : State Timer) (c : ClockType) (pt v : Option Timer) : State Timer :=
  match pt with
  | none => { σ with activeTimers := Function.update σ.activeTimers c v }
  | some t => { σ with next := Function.update σ.next t v }

def qemuDelTimer (fuel : ℕ) (ts : Timer) (σ : State Timer) : Option (State Timer) := do
  let (pt, t) ← findPlace σ.next (· == ts) fuel none (σ.activeTimers (σ.clock ts))
  match t with
  | none => return σ
  | some t => return σ.store (σ.clock ts) pt (σ.next t)

def qemuTimerExpired (σ : State Timer) (timerHead : Option Timer) (currentTime : ℤ) : Bool :=
  match timerHead with
  | none => false
  | some t => decide (σ.expireTime t ≤ currentTime)

def qemuModTimer (fuel : ℕ) (ts : Timer) (expireTime : ℤ) (σ : State Timer) : Option (State Timer) := do
  let σ ← qemuDelTimer fuel ts σ
  let (pt, t) ← findPlace σ.next (fun t => !qemuTimerExpired σ (some t) expireTime) fuel none
    (σ.activeTimers (σ.clock ts))
  let σ := { σ with
    expireTime := Function.update σ.expireTime ts expireTime
    next := Function.update σ.next ts t }
  return σ.store (σ.clock ts) pt (some ts)

def qemuTimerPending (fuel : ℕ) (ts : Timer) (σ : State Timer) : Option Bool := do
  let (_, t) ← findPlace σ.next (· == ts) fuel none (σ.activeTimers (σ.clock ts))
  return t.isSome

/-- One turn of the loop of `qemu_run_timers`, up to the call of the callback: the timer that
fires, or nothing at the end of the loop. -/
def runTimersTurn (c : ClockType) (currentTime : ℤ) (σ : State Timer) : Option Timer × State Timer :=
  match σ.activeTimers c with
  | none => (none, σ)
  | some ts =>
    if qemuTimerExpired σ (some ts) currentTime then
      (some ts, { σ with
        activeTimers := Function.update σ.activeTimers c (σ.next ts)
        next := Function.update σ.next ts none })
    else (none, σ)

/-! ### Programs -/

/-- What the program does: calls of the functions above, from a callback or not, and the turns
of a run over a list. -/
inductive Event (Timer : Type) where
  | mod (ts : Timer) (expireTime : ℤ)
  | del (ts : Timer)
  | run (c : ClockType) (currentTime : ℤ)
  | turn

/-- The history, latest entry first. -/
inductive Entry (Timer : Type) where
  | armed (ts : Timer) (expireTime : ℤ)
  | deleted (ts : Timer)
  | started (c : ClockType) (currentTime : ℤ)
  | fired (ts : Timer) (c : ClockType) (currentTime : ℤ)
  | finished (c : ClockType) (currentTime : ℤ)

structure Machine (Timer : Type) where
  timers : State Timer
  running : Option (ClockType × ℤ)
  log : List (Entry Timer)

def start (clock : Timer → ClockType) : Machine Timer where
  timers := { clock, next := fun _ => none, expireTime := fun _ => 0, activeTimers := fun _ => none }
  running := none
  log := []

/-- The turns of a run stand between its start and its end, and runs are not nested. -/
def Machine.Enabled (m : Machine Timer) : Event Timer → Prop
  | .mod _ _ => True
  | .del _ => True
  | .run _ _ => m.running = none
  | .turn => m.running ≠ none

def Machine.turn (m : Machine Timer) : Option (Machine Timer) :=
  match m.running with
  | none => none
  | some (c, currentTime) =>
    match runTimersTurn c currentTime m.timers with
    | (some ts, σ) => some { m with timers := σ, log := .fired ts c currentTime :: m.log }
    | (none, σ) => some { timers := σ, running := none, log := .finished c currentTime :: m.log }

def step (fuel : ℕ) (m : Machine Timer) : Event Timer → Option (Machine Timer)
  | .mod ts expireTime => do
    let σ ← qemuModTimer fuel ts expireTime m.timers
    return { m with timers := σ, log := .armed ts expireTime :: m.log }
  | .del ts => do
    let σ ← qemuDelTimer fuel ts m.timers
    return { m with timers := σ, log := .deleted ts :: m.log }
  | .run c currentTime =>
    if m.running = none then
      some { m with running := some (c, currentTime), log := .started c currentTime :: m.log }
    else none
  | .turn => m.turn

/-! ### The meaning of the history -/

/-- A timer is pending when its last operation was to arm it and it has not fired since. The
value is the time it was armed for and the place of the arming in the history. -/
def pending : List (Entry Timer) → Timer → Option (ℤ × ℕ)
  | [], _ => none
  | .armed ts expireTime :: log, t => if t = ts then some (expireTime, log.length) else pending log t
  | .deleted ts :: log, t => if t = ts then none else pending log t
  | .fired ts _ _ :: log, t => if t = ts then none else pending log t
  | .started _ _ :: log, t => pending log t
  | .finished _ _ :: log, t => pending log t

def currentRun : List (Entry Timer) → Option (ClockType × ℤ)
  | [] => none
  | .started c currentTime :: _ => some (c, currentTime)
  | .finished _ _ :: _ => none
  | .armed _ _ :: log => currentRun log
  | .deleted _ :: log => currentRun log
  | .fired _ _ _ :: log => currentRun log

/-- A pending timer is to fire before another one: it is armed for an earlier time, or for
the same time and was armed first. -/
def Before (P : Timer → Option (ℤ × ℕ)) (a b : Timer) : Prop :=
  ∀ t n t' n', P a = some (t, n) → P b = some (t', n') → t < t' ∨ t = t' ∧ n < n'

/-- In a run at `T` a timer fires when it is pending, for a time no later than `T`, and is to
fire before the other timers of its clock. A run ends when the timers that are pending are all
for a time after `T`. -/
def LogOk (clock : Timer → ClockType) : List (Entry Timer) → Prop
  | [] => True
  | .armed _ _ :: log => LogOk clock log
  | .deleted _ :: log => LogOk clock log
  | .started _ _ :: log => LogOk clock log ∧ currentRun log = none
  | .fired ts c currentTime :: log =>
    LogOk clock log ∧ currentRun log = some (c, currentTime) ∧ clock ts = c ∧
      (∃ t n, pending log ts = some (t, n) ∧ t ≤ currentTime) ∧
      ∀ b, clock b = c → b ≠ ts → Before (pending log) ts b
  | .finished c currentTime :: log =>
    LogOk clock log ∧ currentRun log = some (c, currentTime) ∧
      ∀ b, clock b = c → ∀ t n, pending log b = some (t, n) → currentTime < t

theorem pending_armed (log : List (Entry Timer)) (ts : Timer) (expireTime : ℤ) :
    pending (.armed ts expireTime :: log) = Function.update (pending log) ts (some (expireTime, log.length)) := by
  funext t
  simp [pending, Function.update_apply]

theorem pending_deleted (log : List (Entry Timer)) (ts : Timer) :
    pending (.deleted ts :: log) = Function.update (pending log) ts none := by
  funext t
  simp [pending, Function.update_apply]

theorem pending_fired (log : List (Entry Timer)) (ts : Timer) (c : ClockType) (currentTime : ℤ) :
    pending (.fired ts c currentTime :: log) = Function.update (pending log) ts none := by
  funext t
  simp [pending, Function.update_apply]

/-- An arming stands before the end of the history. -/
theorem pending_lt {log : List (Entry Timer)} {ts : Timer} {t : ℤ} {n : ℕ} (h : pending log ts = some (t, n)) :
    n < log.length := by
  induction log with
  | nil => simp [pending] at h
  | cons e log ih =>
    rw [List.length_cons]
    cases e with
    | armed a expireTime =>
      rw [pending] at h
      split at h
      · rw [Option.some.injEq, Prod.mk.injEq] at h
        omega
      · exact Nat.lt_succ_of_lt (ih h)
    | deleted a =>
      rw [pending] at h
      split at h
      · exact absurd h (by simp)
      · exact Nat.lt_succ_of_lt (ih h)
    | fired a c currentTime =>
      rw [pending] at h
      split at h
      · exact absurd h (by simp)
      · exact Nat.lt_succ_of_lt (ih h)
    | started c currentTime => exact Nat.lt_succ_of_lt (ih h)
    | finished c currentTime => exact Nat.lt_succ_of_lt (ih h)

/-! ### The lists -/

/-- The list of a clock holds the pending timers of the clock, in the order in which they are
to fire. -/
structure Lists (σ : State Timer) (P : Timer → Option (ℤ × ℕ)) (L : ClockType → List Timer) : Prop where
  seg : ∀ c, Seg σ.next (σ.activeTimers c) (L c) none
  nodup : ∀ c, (L c).Nodup
  mem : ∀ c ts, ts ∈ L c ↔ σ.clock ts = c ∧ (P ts).isSome
  expire : ∀ ts t n, P ts = some (t, n) → σ.expireTime ts = t
  sorted : ∀ c, (L c).Pairwise (Before P)

section Store

variable {σ : State Timer} {P : Timer → Option (ℤ × ℕ)} {L : ClockType → List Timer}

@[simp]
theorem store_clock (σ : State Timer) (c : ClockType) (pt v : Option Timer) : (σ.store c pt v).clock = σ.clock := by
  cases pt <;> rfl

@[simp]
theorem store_expireTime (σ : State Timer) (c : ClockType) (pt v : Option Timer) :
    (σ.store c pt v).expireTime = σ.expireTime := by
  cases pt <;> rfl

/-- A store at a place of a list replaces the rest of the list. -/
theorem store_seg {c : ClockType} {l₁ l₂ l₃ : List Timer} {q : Option Timer}
    (hseg : ∀ c, Seg σ.next (σ.activeTimers c) (L c) none) (hL : L c = l₁ ++ l₂) (hq : Seg σ.next q l₃ none)
    (hnodup : l₁.Nodup) (hdisjoint : l₁.Disjoint l₃) (hother : ∀ c' ≠ c, l₁.Disjoint (L c')) (c' : ClockType) :
    Seg (σ.store c l₁.getLast? q).next ((σ.store c l₁.getLast? q).activeTimers c')
      (Function.update L c (l₁ ++ l₃) c') none := by
  have hc := hseg c
  rw [hL] at hc
  obtain ⟨hhead, hnext⟩ := hc.splice hq hnodup hdisjoint
  cases hlast : l₁.getLast? with
  | none =>
    have hnil : l₁ = [] := List.getLast?_eq_none_iff.1 hlast
    by_cases hcc : c' = c
    · subst hcc
      simp only [State.store, Function.update_self]
      exact hhead hnil
    · simp only [State.store, Function.update_of_ne hcc]
      exact hseg c'
  | some b =>
    have hb : b ∈ l₁ := List.mem_of_getLast? hlast
    by_cases hcc : c' = c
    · subst hcc
      simp only [State.store, Function.update_self]
      exact hnext b hlast
    · simp only [State.store, Function.update_of_ne hcc]
      exact (hseg c').update (fun hmem => hother c' hcc hb hmem) q

omit [DecidableEq Timer] in
theorem Lists.disjoint (h : Lists σ P L) {c c' : ClockType} (hc : c' ≠ c) : (L c).Disjoint (L c') := by
  intro a ha ha'
  exact hc (((h.mem c' a).1 ha').1.symm.trans ((h.mem c a).1 ha).1)

omit [DecidableEq Timer] in
theorem Before.congr {P P' : Timer → Option (ℤ × ℕ)} {a b : Timer} (h : Before P a b) (ha : P' a = P a)
    (hb : P' b = P b) : Before P' a b := by
  intro t n t' n' hat hbt
  exact h t n t' n' (ha ▸ hat) (hb ▸ hbt)

theorem Lists.sorted_update (h : Lists σ P L) {ts : Timer} {l : List Timer} {c : ClockType} (hl : l.Sublist (L c))
    (hts : ts ∉ l) (v : Option (ℤ × ℕ)) : l.Pairwise (Before (Function.update P ts v)) := by
  refine List.Pairwise.imp_of_mem (fun {a b} ha hb hab => ?_) ((h.sorted c).sublist hl)
  have hne : ∀ x ∈ l, x ≠ ts := by
    rintro x hx rfl
    exact hts hx
  exact hab.congr (Function.update_of_ne (hne a ha) _ _) (Function.update_of_ne (hne b hb) _ _)

theorem Lists.mem_erase (h : Lists σ P L) (ts : Timer) (c : ClockType) (a : Timer) :
    a ∈ (L c).erase ts ↔ σ.clock a = c ∧ (Function.update P ts none a).isSome := by
  rw [(h.nodup c).mem_erase_iff, h.mem]
  by_cases ha : a = ts
  · simp [ha]
  · simp [ha]

theorem Lists.expire_erase (h : Lists σ P L) {ts a : Timer} {t : ℤ} {n : ℕ}
    (ha : Function.update P ts none a = some (t, n)) : σ.expireTime a = t := by
  by_cases hne : a = ts
  · simp [hne] at ha
  · rw [Function.update_of_ne hne] at ha
    exact h.expire a t n ha

theorem Lists.split (h : Lists σ P L) {ts : Timer} {c : ClockType} (hts : ts ∈ L c) :
    ∃ l₁ l₂, L c = l₁ ++ ts :: l₂ ∧ ts ∉ l₁ ∧ ts ∉ l₂ ∧ l₁.Nodup ∧ l₁.Disjoint l₂ ∧ (L c).erase ts = l₁ ++ l₂ := by
  obtain ⟨l₁, l₂, hL⟩ := List.append_of_mem hts
  have hnodup := h.nodup c
  rw [hL] at hnodup
  have hdisjoint := List.disjoint_of_nodup_append hnodup
  have hts₁ : ts ∉ l₁ := fun hmem => hdisjoint hmem List.mem_cons_self
  refine ⟨l₁, l₂, hL, hts₁, ?_, (List.nodup_append.1 hnodup).1, fun a ha hb => ?_, ?_⟩
  · exact (List.nodup_cons.1 (List.nodup_append.1 hnodup).2.1).1
  · exact hdisjoint ha (List.mem_cons_of_mem ts hb)
  · rw [hL, List.erase_append_right _ hts₁, List.erase_cons_head]

/-- A timer is deleted: its list loses it, and no other list changes. -/
theorem qemuDelTimer_keeps (h : Lists σ P L) {ts : Timer} {fuel : ℕ} (hfuel : (L (σ.clock ts)).length < fuel) :
    ∃ σ', qemuDelTimer fuel ts σ = some σ' ∧ σ'.clock = σ.clock ∧
      Lists σ' (Function.update P ts none) (fun c => (L c).erase ts) := by
  have hplace := findPlace_seg (· == ts) none (h.seg (σ.clock ts)) hfuel
  have herase : ∀ c ≠ σ.clock ts, (L c).erase ts = L c := fun c hc =>
    List.erase_of_not_mem fun hmem => hc ((h.mem c ts).1 hmem).1.symm
  have hnodup : ∀ c, ((L c).erase ts).Nodup := fun c => (h.nodup c).erase ts
  have hsorted : ∀ c, ((L c).erase ts).Pairwise (Before (Function.update P ts none)) := fun c =>
    h.sorted_update List.erase_sublist (h.nodup c).not_mem_erase none
  by_cases hts : ts ∈ L (σ.clock ts)
  · obtain ⟨l₁, l₂, hL, hts₁, hts₂, hnodup₁, hdisjoint, heq⟩ := h.split hts
    have hpass : ∀ a ∈ l₁, (!(a == ts)) = true := by
      intro a ha
      simpa using fun heq : a = ts => hts₁ (heq ▸ ha)
    have hseg := h.seg (σ.clock ts)
    rw [hL] at hseg
    obtain ⟨q, -, -, htail⟩ := seg_append.1 hseg
    rw [hL, List.takeWhile_append_of_pos hpass, List.dropWhile_append_of_pos hpass] at hplace
    simp only [List.takeWhile_cons, List.dropWhile_cons, beq_self_eq_true, Bool.not_true, Bool.false_eq_true,
      if_false, List.append_nil, List.head?_cons, Option.or_none] at hplace
    refine ⟨σ.store (σ.clock ts) l₁.getLast? (σ.next ts), ?_, store_clock _ _ _ _, fun c => ?_, hnodup, ?_, ?_, hsorted⟩
    · rw [qemuDelTimer, hplace]
      rfl
    · have hother : ∀ c' ≠ σ.clock ts, l₁.Disjoint (L c') := fun c' hc a ha ha' =>
        h.disjoint hc (by simp [hL, ha]) ha'
      have hstore := store_seg h.seg hL htail hnodup₁ hdisjoint hother c
      by_cases hc : c = σ.clock ts
      · subst hc
        rw [Function.update_self, ← heq] at hstore
        exact hstore
      · rw [Function.update_of_ne hc] at hstore
        rw [herase c hc]
        exact hstore
    · rw [store_clock]
      exact h.mem_erase ts
    · rw [store_expireTime]
      exact fun a t n ha => h.expire_erase ha
  · have hpass : ∀ a ∈ L (σ.clock ts), (!(a == ts)) = true := by
      intro a ha
      simpa using fun heq : a = ts => hts (heq ▸ ha)
    rw [List.takeWhile_eq_self_iff.2 hpass, List.dropWhile_eq_nil_iff.2 hpass] at hplace
    refine ⟨σ, ?_, rfl, fun c => ?_, hnodup, h.mem_erase ts, fun a t n ha => h.expire_erase ha, hsorted⟩
    · rw [qemuDelTimer, hplace]
      rfl
    · by_cases hc : c = σ.clock ts
      · subst hc
        rw [List.erase_of_not_mem hts]
        exact h.seg _
      · rw [herase c hc]
        exact h.seg c

theorem Lists.timerPending (h : Lists σ P L) (ts : Timer) {fuel : ℕ} (hfuel : (L (σ.clock ts)).length < fuel) :
    qemuTimerPending fuel ts σ = some (P ts).isSome := by
  have hwalk := findPlace_seg (· == ts) none (h.seg (σ.clock ts)) hfuel
  have hmem := h.mem (σ.clock ts) ts
  rw [qemuTimerPending, hwalk]
  refine congrArg some ?_
  rw [Bool.eq_iff_iff]
  constructor
  · intro hsome
    cases hdrop : (L (σ.clock ts)).dropWhile (fun a => !(a == ts)) with
    | nil => simp [hdrop] at hsome
    | cons a l =>
      have hhead := List.head?_dropWhile_not (fun a => !(a == ts)) (L (σ.clock ts))
      rw [hdrop] at hhead
      obtain rfl : a = ts := by simpa using hhead
      have hin : a ∈ L (σ.clock a) := (List.dropWhile_sublist _).subset (hdrop ▸ List.mem_cons_self)
      exact (hmem.1 hin).2
  · intro hsome
    have hin := hmem.2 ⟨rfl, hsome⟩
    rw [Option.isSome_iff_ne_none]
    intro hnone
    rw [List.head?_eq_none_iff, List.dropWhile_eq_nil_iff] at hnone
    simpa using hnone ts hin

def placeIn (σ : State Timer) (expireTime : ℤ) (l : List Timer) : List Timer × List Timer :=
  (l.takeWhile fun t => qemuTimerExpired σ (some t) expireTime, l.dropWhile fun t => qemuTimerExpired σ (some t) expireTime)

omit [DecidableEq Timer] in
theorem placeIn_append (σ : State Timer) (expireTime : ℤ) (l : List Timer) :
    (placeIn σ expireTime l).1 ++ (placeIn σ expireTime l).2 = l :=
  List.takeWhile_append_dropWhile

omit [DecidableEq Timer] in
/-- The timers before the place expire no later, and the timers after it expire later. -/
theorem Lists.placeIn (h : Lists σ P L) (expireTime : ℤ) (c : ClockType) :
    (∀ a ∈ (placeIn σ expireTime (L c)).1, σ.expireTime a ≤ expireTime) ∧
      ∀ a ∈ (placeIn σ expireTime (L c)).2, expireTime < σ.expireTime a := by
  refine ⟨fun a ha => ?_, fun a ha => ?_⟩
  · simpa [qemuTimerExpired] using List.mem_takeWhile_imp ha
  · cases hdrop : (Timers.placeIn σ expireTime (L c)).2 with
    | nil => simp [hdrop] at ha
    | cons b l =>
      have hb : expireTime < σ.expireTime b := by
        have hhead := List.head?_dropWhile_not (fun t => qemuTimerExpired σ (some t) expireTime) (L c)
        rw [show (L c).dropWhile _ = b :: l from hdrop] at hhead
        simpa [qemuTimerExpired] using hhead
      have hsub : (b :: l).Sublist (L c) := hdrop ▸ List.dropWhile_sublist _
      have hsorted := (h.sorted c).sublist hsub
      rw [hdrop] at ha
      rcases List.mem_cons.1 ha with rfl | ha'
      · exact hb
      · obtain ⟨⟨t, n⟩, hpb⟩ := Option.isSome_iff_exists.1 ((h.mem c b).1 (hsub.subset List.mem_cons_self)).2
        obtain ⟨⟨t', n'⟩, hpa⟩ := Option.isSome_iff_exists.1 ((h.mem c a).1 (hsub.subset ha)).2
        have hba := (List.pairwise_cons.1 hsorted).1 a ha' t n t' n' hpb hpa
        rw [h.expire b t n hpb] at hb
        rw [h.expire a t' n' hpa]
        omega

/-- The timers of a list keep the order with a new one among them. -/
theorem Lists.sorted_insert (h : Lists σ P L) {ts : Timer} {c : ClockType} (hts : ts ∉ L c) (expireTime : ℤ) {n : ℕ}
    (hn : ∀ a t m, P a = some (t, m) → m < n) :
    ((Timers.placeIn σ expireTime (L c)).1 ++ ts :: (Timers.placeIn σ expireTime (L c)).2).Pairwise
      (Before (Function.update P ts (some (expireTime, n)))) := by
  obtain ⟨hbefore, hafter⟩ := h.placeIn expireTime c
  have hall := h.sorted_update (List.Sublist.refl (L c)) hts (some (expireTime, n))
  rw [← placeIn_append σ expireTime (L c)] at hall hts
  obtain ⟨h₁, h₂, hcross⟩ := List.pairwise_append.1 hall
  have hself : Function.update P ts (some (expireTime, n)) ts = some (expireTime, n) := Function.update_self _ _ _
  refine List.pairwise_append.2 ⟨h₁, List.pairwise_cons.2 ⟨fun b hb => ?_, h₂⟩, fun a ha b hb => ?_⟩
  · have hne : b ≠ ts := by
      rintro rfl
      exact hts (List.mem_append_right _ hb)
    intro t m t' m' ht ht'
    rw [hself, Option.some.injEq, Prod.mk.injEq] at ht
    rw [Function.update_of_ne hne] at ht'
    have hlt := hafter b hb
    rw [h.expire b t' m' ht'] at hlt
    omega
  · rcases List.mem_cons.1 hb with rfl | hb
    · have hne : a ≠ b := by
        rintro rfl
        exact hts (List.mem_append_left _ ha)
      intro t m t' m' ht ht'
      rw [hself, Option.some.injEq, Prod.mk.injEq] at ht'
      rw [Function.update_of_ne hne] at ht
      have hle := hbefore a ha
      rw [h.expire a t m ht] at hle
      have hlt := hn a t m ht
      omega
    · exact hcross a ha b hb

/-- A timer that is not armed goes into the list of its clock. -/
theorem Lists.insert (h : Lists σ P L) {ts : Timer} (hts : P ts = none) {expireTime : ℤ} {n : ℕ}
    (hn : ∀ a t m, P a = some (t, m) → m < n) (l₁ l₂ : List Timer)
    (hplace : Timers.placeIn σ expireTime (L (σ.clock ts)) = (l₁, l₂)) {σ' : State Timer}
    (hσ' : σ' = State.store { σ with
      expireTime := Function.update σ.expireTime ts expireTime
      next := Function.update σ.next ts l₂.head? } (σ.clock ts) l₁.getLast? (some ts)) :
    Lists σ' (Function.update P ts (some (expireTime, n))) (Function.update L (σ.clock ts) (l₁ ++ ts :: l₂)) := by
  have hout : ∀ c, ts ∉ L c := fun c hmem => by
    have hsome := ((h.mem c ts).1 hmem).2
    rw [hts] at hsome
    exact absurd hsome (by simp)
  have hL : L (σ.clock ts) = l₁ ++ l₂ := by
    rw [← placeIn_append σ expireTime (L (σ.clock ts)), hplace]
  have hnodup := h.nodup (σ.clock ts)
  have hts' := hout (σ.clock ts)
  rw [hL] at hnodup hts'
  have hdisjoint := List.disjoint_of_nodup_append hnodup
  subst hσ'
  refine ⟨?_, fun c => ?_, fun c a => ?_, fun a t m ha => ?_, fun c => ?_⟩
  · refine store_seg (fun c => (h.seg c).update (hout c) _) hL ⟨rfl, ?_⟩ (List.nodup_append.1 hnodup).1 ?_ ?_
    · have hseg := h.seg (σ.clock ts)
      rw [hL] at hseg
      obtain ⟨q, -, htail⟩ := seg_append.1 hseg
      dsimp only
      rw [Function.update_self, ← htail.head?_eq]
      exact htail.update (fun hmem => hts' (List.mem_append_right _ hmem)) _
    · intro a ha hb
      rcases List.mem_cons.1 hb with rfl | hb
      · exact hts' (List.mem_append_left _ ha)
      · exact hdisjoint ha hb
    · intro c hc a ha hb
      exact h.disjoint hc (by simp [hL, ha]) hb
  · by_cases hc : c = σ.clock ts
    · subst hc
      rw [Function.update_self, List.nodup_middle]
      exact List.nodup_cons.2 ⟨hts', hnodup⟩
    · rw [Function.update_of_ne hc]
      exact h.nodup c
  · rw [store_clock]
    have hmem := h.mem c a
    by_cases ha : a = ts
    · subst ha
      by_cases hc : c = σ.clock a
      · subst hc
        simp
      · simp [hc, hout, Ne.symm hc]
    · rw [Function.update_of_ne ha, ← hmem]
      by_cases hc : c = σ.clock ts
      · subst hc
        simp [hL, ha]
      · rw [Function.update_of_ne hc]
  · rw [store_expireTime]
    by_cases hne : a = ts
    · subst hne
      rw [Function.update_self, Option.some.injEq, Prod.mk.injEq] at ha
      exact (Function.update_self _ _ _).trans ha.1
    · rw [Function.update_of_ne hne] at ha
      exact (Function.update_of_ne hne _ _).trans (h.expire a t m ha)
  · by_cases hc : c = σ.clock ts
    · subst hc
      have hsorted := h.sorted_insert (hout (σ.clock ts)) expireTime hn
      rw [hplace] at hsorted
      rw [Function.update_self]
      exact hsorted
    · rw [Function.update_of_ne hc]
      exact h.sorted_update (List.Sublist.refl _) (hout c) _

/-- A timer is armed: it leaves the place it had and takes the one of its new time. -/
theorem qemuModTimer_keeps (h : Lists σ P L) {ts : Timer} (expireTime : ℤ) {n fuel : ℕ}
    (hn : ∀ a t m, P a = some (t, m) → m < n) (hfuel : (L (σ.clock ts)).length < fuel) :
    ∃ σ' L', qemuModTimer fuel ts expireTime σ = some σ' ∧ σ'.clock = σ.clock ∧
      Lists σ' (Function.update P ts (some (expireTime, n))) L' ∧ ∀ c, (L' c).length ≤ (L c).length + 1 := by
  obtain ⟨σ₁, hdel, hclock, h₁⟩ := qemuDelTimer_keeps h hfuel
  obtain ⟨⟨l₁, l₂⟩, hplace⟩ : ∃ q, placeIn σ₁ expireTime ((L (σ₁.clock ts)).erase ts) = q := ⟨_, rfl⟩
  have hfuel₁ : ((L (σ₁.clock ts)).erase ts).length < fuel := by
    rw [hclock]
    exact lt_of_le_of_lt List.length_erase_le hfuel
  have hwalk := findPlace_seg (fun t => !qemuTimerExpired σ₁ (some t) expireTime) none (h₁.seg (σ₁.clock ts)) hfuel₁
  simp only [Bool.not_not, Option.or_none] at hwalk
  have hl₁ : ((L (σ₁.clock ts)).erase ts).takeWhile (fun t => qemuTimerExpired σ₁ (some t) expireTime) = l₁ :=
    congrArg Prod.fst hplace
  have hl₂ : ((L (σ₁.clock ts)).erase ts).dropWhile (fun t => qemuTimerExpired σ₁ (some t) expireTime) = l₂ :=
    congrArg Prod.snd hplace
  rw [hl₁, hl₂] at hwalk
  have hn₁ : ∀ a t m, Function.update P ts none a = some (t, m) → m < n := by
    intro a t m ha
    by_cases hne : a = ts
    · simp [hne] at ha
    · rw [Function.update_of_ne hne] at ha
      exact hn a t m ha
  have hinsert := h₁.insert (Function.update_self _ _ _) hn₁ l₁ l₂ hplace rfl
  rw [Function.update_idem] at hinsert
  refine ⟨_, _, ?_, ?_, hinsert, fun c => ?_⟩
  · rw [qemuModTimer, hdel]
    show Option.bind (findPlace _ _ _ _ _) _ = _
    rw [hwalk]
    rfl
  · rw [store_clock]
    exact hclock
  · by_cases hc : c = σ₁.clock ts
    · subst hc
      have hlen : l₁.length + l₂.length = ((L (σ₁.clock ts)).erase ts).length := by
        rw [← placeIn_append σ₁ expireTime ((L (σ₁.clock ts)).erase ts), hplace, List.length_append]
      have hle : ((L (σ₁.clock ts)).erase ts).length ≤ (L (σ₁.clock ts)).length := List.length_erase_le
      rw [Function.update_self, List.length_append, List.length_cons]
      omega
    · rw [Function.update_of_ne hc]
      exact Nat.le_succ_of_le List.length_erase_le

/-- The loop ends when no timer of the list is due. -/
theorem Lists.turn_end (h : Lists σ P L) {c : ClockType} {currentTime : ℤ}
    (hturn : (runTimersTurn c currentTime σ).1 = none) :
    (runTimersTurn c currentTime σ).2 = σ ∧
      ∀ b, σ.clock b = c → ∀ t n, P b = some (t, n) → currentTime < t := by
  have hseg := h.seg c
  cases hL : L c with
  | nil =>
    rw [hL] at hseg
    have hhead : σ.activeTimers c = none := hseg
    refine ⟨by rw [runTimersTurn, hhead], fun b hb t n hpb => ?_⟩
    have hmem : b ∈ L c := (h.mem c b).2 ⟨hb, by simp [hpb]⟩
    simp [hL] at hmem
  | cons ts l =>
    rw [hL] at hseg
    have hhead : σ.activeTimers c = some ts := hseg.1
    rw [runTimersTurn, hhead] at hturn ⊢
    dsimp only at hturn ⊢
    split at hturn
    · exact absurd hturn (by simp)
    · rename_i hexpired
      refine ⟨by rw [if_neg hexpired], fun b hb t n hpb => ?_⟩
      have hts : currentTime < σ.expireTime ts := by simpa [qemuTimerExpired] using hexpired
      have hmem : b ∈ L c := (h.mem c b).2 ⟨hb, by simp [hpb]⟩
      have hsorted := h.sorted c
      rw [hL] at hmem hsorted
      obtain ⟨⟨t', n'⟩, hpts⟩ := Option.isSome_iff_exists.1 ((h.mem c ts).1 (by simp [hL])).2
      rw [h.expire ts t' n' hpts] at hts
      rcases List.mem_cons.1 hmem with rfl | hmem
      · rw [hpts, Option.some.injEq, Prod.mk.injEq] at hpb
        omega
      · have hbefore := (List.pairwise_cons.1 hsorted).1 b hmem t' n' t n hpts hpb
        omega

/-- The timer that fires is due and is the first of its list, which it leaves before its
callback runs. -/
theorem Lists.turn_fire (h : Lists σ P L) {c : ClockType} {currentTime : ℤ} {ts : Timer}
    (hturn : (runTimersTurn c currentTime σ).1 = some ts) :
    σ.clock ts = c ∧ (∃ t n, P ts = some (t, n) ∧ t ≤ currentTime) ∧
      (∀ b, σ.clock b = c → b ≠ ts → Before P ts b) ∧ (runTimersTurn c currentTime σ).2.clock = σ.clock ∧
      Lists (runTimersTurn c currentTime σ).2 (Function.update P ts none) (Function.update L c (L c).tail) := by
  have hseg := h.seg c
  cases hL : L c with
  | nil =>
    rw [hL] at hseg
    rw [runTimersTurn, show σ.activeTimers c = none from hseg] at hturn
    exact absurd hturn (by simp)
  | cons ts' l =>
    rw [hL] at hseg
    have hhead : σ.activeTimers c = some ts' := hseg.1
    rw [runTimersTurn, hhead] at hturn ⊢
    dsimp only at hturn ⊢
    split at hturn
    case isFalse => exact absurd hturn (by simp)
    case isTrue hexpired =>
      rw [Option.some.injEq] at hturn
      subst hturn
      rw [if_pos hexpired]
      have hdue : σ.expireTime ts' ≤ currentTime := by simpa [qemuTimerExpired] using hexpired
      have hts : ts' ∈ L c := by simp [hL]
      obtain ⟨hclock, hsome⟩ := (h.mem c ts').1 hts
      obtain ⟨⟨t, n⟩, hpts⟩ := Option.isSome_iff_exists.1 hsome
      rw [h.expire ts' t n hpts] at hdue
      have hnodup := h.nodup c
      have hsorted := h.sorted c
      rw [hL] at hnodup hsorted
      obtain ⟨hout, hnodup⟩ := List.nodup_cons.1 hnodup
      have hother : ∀ c' ≠ c, ts' ∉ L c' := fun c' hc hmem => h.disjoint hc hts hmem
      have hlists : ∀ c', Function.update L c l c' = (L c').erase ts' := by
        intro c'
        by_cases hc : c' = c
        · subst hc
          rw [Function.update_self, hL, List.erase_cons_head]
        · rw [Function.update_of_ne hc, List.erase_of_not_mem (hother c' hc)]
      refine ⟨hclock, ⟨t, n, hpts, hdue⟩, fun b hb hne => ?_, rfl, ⟨fun c' => ?_, fun c' => ?_, fun c' a => ?_,
        fun a t n ha => h.expire_erase ha, fun c' => ?_⟩⟩
      · intro t n t' n' hp hp'
        have hmem : b ∈ L c := (h.mem c b).2 ⟨hb, by simp [hp']⟩
        rw [hL] at hmem
        exact (List.pairwise_cons.1 hsorted).1 b ((List.mem_cons.1 hmem).resolve_left hne) t n t' n' hp hp'
      · dsimp only
        by_cases hc : c' = c
        · subst hc
          rw [Function.update_self, Function.update_self]
          exact hseg.2.update hout none
        · rw [Function.update_of_ne hc, Function.update_of_ne hc]
          exact (h.seg c').update (hother c' hc) none
      · rw [List.tail_cons, hlists]
        exact (h.nodup c').erase ts'
      · rw [List.tail_cons, hlists]
        exact h.mem_erase ts' c' a
      · rw [List.tail_cons, hlists]
        exact h.sorted_update List.erase_sublist (h.nodup c').not_mem_erase none

end Store

/-! ### Runs of the program -/

/-- The lists agree with the history, and the history is in order. -/
structure Inv (clock : Timer → ClockType) (m : Machine Timer) (L : ClockType → List Timer) : Prop where
  clocks : m.timers.clock = clock
  lists : Lists m.timers (pending m.log) L
  length : ∀ c, (L c).length ≤ m.log.length
  running : m.running = currentRun m.log
  ok : LogOk clock m.log

theorem start_inv (clock : Timer → ClockType) : Inv clock (start clock) fun _ => [] where
  clocks := rfl
  lists := {
    seg := fun _ => rfl
    nodup := fun _ => List.nodup_nil
    mem := fun _ _ => by simp [start, pending]
    expire := fun _ _ _ h => by simp [start, pending] at h
    sorted := fun _ => List.Pairwise.nil }
  length := fun _ => Nat.le_refl _
  running := rfl
  ok := trivial

/-- A step that is enabled is taken and adds one entry to the history. -/
theorem step_inv {clock : Timer → ClockType} {m : Machine Timer} {L : ClockType → List Timer} (h : Inv clock m L)
    {fuel : ℕ} (hfuel : m.log.length < fuel) {ev : Event Timer} (hev : m.Enabled ev) :
    ∃ m' L', step fuel m ev = some m' ∧ Inv clock m' L' ∧ m'.log.length = m.log.length + 1 := by
  have hlen : ∀ c, (L c).length < fuel := fun c => lt_of_le_of_lt (h.length c) hfuel
  cases ev with
  | mod ts expireTime =>
    obtain ⟨σ', L', hmod, hclock, hlists, hle⟩ :=
      qemuModTimer_keeps h.lists expireTime (fun _ _ _ => pending_lt) (hlen _)
    refine ⟨{ m with timers := σ', log := .armed ts expireTime :: m.log }, L', by rw [step, hmod]; rfl,
      ⟨hclock.trans h.clocks, ?_, fun c => ?_, h.running, h.ok⟩, rfl⟩
    · rw [pending_armed]
      exact hlists
    · exact (hle c).trans (Nat.succ_le_succ (h.length c))
  | del ts =>
    obtain ⟨σ', hdel, hclock, hlists⟩ := qemuDelTimer_keeps h.lists (hlen _)
    refine ⟨{ m with timers := σ', log := .deleted ts :: m.log }, fun c => (L c).erase ts, by rw [step, hdel]; rfl,
      ⟨hclock.trans h.clocks, ?_, fun c => ?_, h.running, h.ok⟩, rfl⟩
    · rw [pending_deleted]
      exact hlists
    · exact List.length_erase_le.trans (Nat.le_succ_of_le (h.length c))
  | run c currentTime =>
    refine ⟨{ m with running := some (c, currentTime), log := .started c currentTime :: m.log }, L,
      by rw [step, if_pos (show m.running = none from hev)], ⟨h.clocks, h.lists, fun c => Nat.le_succ_of_le (h.length c), rfl, ?_⟩, rfl⟩
    exact ⟨h.ok, h.running.symm.trans hev⟩
  | turn =>
    obtain ⟨⟨c, currentTime⟩, hrunning⟩ := Option.ne_none_iff_exists'.1 hev
    have hcurrent : currentRun m.log = some (c, currentTime) := h.running.symm.trans hrunning
    cases hturn : runTimersTurn c currentTime m.timers with
    | mk ts σ =>
      cases ts with
      | none =>
        have hend : (runTimersTurn c currentTime m.timers).1 = none := by rw [hturn]
        obtain ⟨hsame, hdue⟩ := h.lists.turn_end hend
        rw [hturn] at hsame
        dsimp only at hsame
        refine ⟨{ timers := σ, running := none, log := .finished c currentTime :: m.log }, L,
          by rw [step, Machine.turn, hrunning]; dsimp only; rw [hturn], ⟨?_, ?_, ?_, rfl, ?_⟩, rfl⟩
        · exact (congrArg State.clock hsame).trans h.clocks
        · rw [hsame]
          exact h.lists
        · exact fun c => Nat.le_succ_of_le (h.length c)
        · rw [h.clocks] at hdue
          exact ⟨h.ok, hcurrent, hdue⟩
      | some ts =>
        obtain ⟨hc, hpending, hfirst, hclock, hlists⟩ := h.lists.turn_fire (congrArg Prod.fst hturn)
        rw [hturn] at hclock hlists
        dsimp only at hclock hlists
        refine ⟨{ m with timers := σ, log := .fired ts c currentTime :: m.log }, Function.update L c (L c).tail,
          by rw [step, Machine.turn, hrunning]; dsimp only; rw [hturn], ⟨?_, ?_, ?_, ?_, ?_⟩, rfl⟩
        · exact hclock.trans h.clocks
        · rw [pending_fired]
          exact hlists
        · intro c'
          by_cases hcc : c' = c
          · subst hcc
            rw [Function.update_self, List.length_tail, List.length_cons]
            have hle := h.length c'
            omega
          · rw [Function.update_of_ne hcc]
            exact Nat.le_succ_of_le (h.length c')
        · exact h.running
        · rw [h.clocks] at hc hfirst
          exact ⟨h.ok, hcurrent, hc, hpending, hfirst⟩

omit [DecidableEq Timer] in
theorem Before.le {P : Timer → Option (ℤ × ℕ)} {σ : State Timer} {a b : Timer} (h : Before P a b)
    (hexpire : ∀ ts t n, P ts = some (t, n) → σ.expireTime ts = t) (ha : (P a).isSome) (hb : (P b).isSome) :
    σ.expireTime a ≤ σ.expireTime b := by
  obtain ⟨⟨t, n⟩, hpa⟩ := Option.isSome_iff_exists.1 ha
  obtain ⟨⟨t', n'⟩, hpb⟩ := Option.isSome_iff_exists.1 hb
  have hab := h t n t' n' hpa hpb
  rw [hexpire a t n hpa, hexpire b t' n' hpb]
  omega

theorem Inv.timerPending {clock : Timer → ClockType} {m : Machine Timer} {L : ClockType → List Timer}
    (h : Inv clock m L) {fuel : ℕ} (hfuel : m.log.length < fuel) (ts : Timer) :
    qemuTimerPending fuel ts m.timers = some (pending m.log ts).isSome :=
  h.lists.timerPending ts (lt_of_le_of_lt (h.length _) hfuel)

theorem enabled_of_step {fuel : ℕ} {m m' : Machine Timer} {ev : Event Timer} (h : step fuel m ev = some m') :
    m.Enabled ev := by
  cases ev with
  | mod ts expireTime => trivial
  | del ts => trivial
  | run c currentTime =>
    rw [step] at h
    split at h
    · assumption
    · exact absurd h (by simp)
  | turn =>
    intro hnone
    rw [step, Machine.turn, hnone] at h
    exact absurd h (by simp)

theorem run_inv {clock : Timer → ClockType} {fuel : ℕ} : ∀ (evs : List (Event Timer)) {m m' : Machine Timer}
    {L : ClockType → List Timer}, Inv clock m L → m.log.length + evs.length ≤ fuel →
    evs.foldlM (step fuel) m = some m' →
    (∃ L', Inv clock m' L') ∧ m'.log.length = m.log.length + evs.length
  | [], m, m', L, h, _, hrun => by
    rw [List.foldlM_nil] at hrun
    obtain rfl := Option.some.inj hrun
    exact ⟨⟨L, h⟩, rfl⟩
  | ev :: evs, m, m', L, h, hfuel, hrun => by
    rw [List.foldlM_cons] at hrun
    obtain ⟨m₁, hstep, hrun⟩ := Option.bind_eq_some_iff.1 hrun
    rw [List.length_cons] at hfuel ⊢
    obtain ⟨m₂, L', hstep', h', hlog⟩ := step_inv h (show m.log.length < fuel by omega) (enabled_of_step hstep)
    rw [hstep, Option.some.injEq] at hstep'
    subst hstep'
    obtain ⟨hinv, hlen⟩ := run_inv evs h' (by omega) hrun
    exact ⟨hinv, by omega⟩

/-- The timers that have fired, each with the arming that it fired for. -/
def firings : List (Entry Timer) → List (Timer × Option (ℤ × ℕ))
  | [] => []
  | .fired ts _ _ :: log => (ts, pending log ts) :: firings log
  | .armed _ _ :: log => firings log
  | .deleted _ :: log => firings log
  | .started _ _ :: log => firings log
  | .finished _ _ :: log => firings log

/-- A timer that is pending was armed after the armings that it has fired for. -/
theorem firings_lt {clock : Timer → ClockType} {log : List (Entry Timer)} (h : LogOk clock log) :
    ∀ q ∈ firings log, ∃ t n, q.2 = some (t, n) ∧ n < log.length ∧
      ∀ t' n', pending log q.1 = some (t', n') → n < n' := by
  induction log with
  | nil => simp [firings]
  | cons e log ih =>
    intro q hq
    cases e with
    | armed ts expireTime =>
      obtain ⟨t, n, hval, hlt, hlater⟩ := ih h q hq
      refine ⟨t, n, hval, Nat.lt_succ_of_lt hlt, fun t' n' hp => ?_⟩
      rw [pending] at hp
      split at hp
      · rw [Option.some.injEq, Prod.mk.injEq] at hp
        omega
      · exact hlater t' n' hp
    | deleted ts =>
      obtain ⟨t, n, hval, hlt, hlater⟩ := ih h q hq
      refine ⟨t, n, hval, Nat.lt_succ_of_lt hlt, fun t' n' hp => ?_⟩
      rw [pending] at hp
      split at hp
      · exact absurd hp (by simp)
      · exact hlater t' n' hp
    | started c currentTime =>
      obtain ⟨t, n, hval, hlt, hlater⟩ := ih h.1 q hq
      exact ⟨t, n, hval, Nat.lt_succ_of_lt hlt, hlater⟩
    | finished c currentTime =>
      obtain ⟨t, n, hval, hlt, hlater⟩ := ih h.1 q hq
      exact ⟨t, n, hval, Nat.lt_succ_of_lt hlt, hlater⟩
    | fired ts c currentTime =>
      rw [firings] at hq
      rcases List.mem_cons.1 hq with rfl | hq
      · obtain ⟨t, n, hp, -⟩ := h.2.2.2.1
        exact ⟨t, n, hp, Nat.lt_succ_of_lt (pending_lt hp), fun t' n' hp' => absurd hp' (by simp [pending])⟩
      · obtain ⟨t, n, hval, hlt, hlater⟩ := ih h.1 q hq
        refine ⟨t, n, hval, Nat.lt_succ_of_lt hlt, fun t' n' hp => ?_⟩
        rw [pending] at hp
        split at hp
        · exact absurd hp (by simp)
        · exact hlater t' n' hp

theorem firings_nodup {clock : Timer → ClockType} {log : List (Entry Timer)} (h : LogOk clock log) :
    (firings log).Nodup := by
  induction log with
  | nil => exact List.nodup_nil
  | cons e log ih =>
    cases e with
    | armed ts expireTime => exact ih h
    | deleted ts => exact ih h
    | started c currentTime => exact ih h.1
    | finished c currentTime => exact ih h.1
    | fired ts c currentTime =>
      refine List.nodup_cons.2 ⟨fun hmem => ?_, ih h.1⟩
      obtain ⟨t, n, hval, -, hlater⟩ := firings_lt h.1 _ hmem
      exact absurd (hlater t n hval) (Nat.lt_irrefl n)

/-- What holds of the lists and of the history. -/
structure Correct (fuel : ℕ) (clock : Timer → ClockType) (m : Machine Timer) : Prop where
  list : ∀ c, ∃ l, Seg m.timers.next (m.timers.activeTimers c) l none ∧
    l.Pairwise (fun a b => m.timers.expireTime a ≤ m.timers.expireTime b) ∧ l.Nodup ∧
    ∀ ts, ts ∈ l ↔ clock ts = c ∧ (pending m.log ts).isSome
  answer : ∀ ts, qemuTimerPending fuel ts m.timers = some (pending m.log ts).isSome
  armed : ∀ ts t n, pending m.log ts = some (t, n) → m.timers.expireTime ts = t
  history : LogOk clock m.log
  once : (firings m.log).Nodup

theorem Inv.correct {clock : Timer → ClockType} {m : Machine Timer} {L : ClockType → List Timer} (h : Inv clock m L)
    {fuel : ℕ} (hfuel : m.log.length < fuel) : Correct fuel clock m where
  list := fun c => by
    refine ⟨L c, h.lists.seg c, (h.lists.sorted c).imp_of_mem fun {a b} ha hb hab => ?_, h.lists.nodup c, fun ts => ?_⟩
    · exact hab.le h.lists.expire ((h.lists.mem c a).1 ha).2 ((h.lists.mem c b).1 hb).2
    · rw [h.lists.mem, h.clocks]
  answer := h.timerPending hfuel
  armed := h.lists.expire
  history := h.ok
  once := firings_nodup h.ok

/-- In every program the lists are sorted and hold the pending timers once each. A run at a
time fires the timers that are due, each once for an arming, in the order of the times and, for
one time, of the armings. No walk over a list fails. -/
theorem timers_run {fuel : ℕ} {clock : Timer → ClockType} {evs : List (Event Timer)} {m : Machine Timer}
    (hfuel : evs.length < fuel) (hrun : evs.foldlM (step fuel) (start clock) = some m) :
    Correct fuel clock m ∧ ∀ ev, m.Enabled ev → ∃ m', step fuel m ev = some m' := by
  obtain ⟨⟨L, h⟩, hlen⟩ := run_inv evs (start_inv clock) (by simpa [start] using hfuel.le) hrun
  have hlog : m.log.length < fuel := by simpa [hlen, start] using hfuel
  refine ⟨h.correct hlog, fun ev hev => ?_⟩
  obtain ⟨m', -, hstep, -⟩ := step_inv h hlog hev
  exact ⟨m', hstep⟩

/-- The callback of the first timer arms it again for the time at which the second fires. -/
theorem timers_run_rearmed :
    ∃ m, [Event.mod true 5, .mod false 5, .run .virtual 7, .turn, .mod true 5, .turn, .del true, .turn].foldlM
        (step 9) (start fun _ : Bool => .virtual) = some m ∧ Correct 9 (fun _ => .virtual) m := by
  obtain ⟨m, hrun⟩ := Option.isSome_iff_exists.1 (show ([Event.mod true 5, .mod false 5, .run .virtual 7, .turn,
    .mod true 5, .turn, .del true, .turn].foldlM (step 9) (start fun _ : Bool => .virtual)).isSome from rfl)
  exact ⟨m, hrun, (timers_run (by decide) hrun).1⟩

end Ar7Qemu.Vl.Timers
