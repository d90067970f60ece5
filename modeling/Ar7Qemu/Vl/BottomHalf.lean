import Ar7Qemu.Lib.Chain
import Mathlib.Algebra.Order.Ring.Nat

/-! The bottom halves of vl.c. A poll walks over the list and calls the callbacks, and a
callback may poll again, as `qemu_aio_wait` does. A poll ends with a sweep that frees the
bottom halves that have been deleted. The notification of the main loop is left out. -/

namespace Ar7Qemu.Vl.BottomHalf

open Ar7Qemu.Lib

/-- The memory of a bottom half. -/
inductive Storage where
  | fresh
  | live
  | freed
  deriving DecidableEq

structure State (Bh : Type) where
  firstBh : Option Bh
  next : Bh → Option Bh
  scheduled : Bh → Bool
  idle : Bh → Bool
  deleted : Bh → Bool
  storage : Bh → Storage

variable {Bh : Type} [DecidableEq Bh]

def qemuBhNew (bh : Bh) (σ : State Bh) : State Bh where
  firstBh := some bh
  next := Function.update σ.next bh σ.firstBh
  scheduled := Function.update σ.scheduled bh false
  idle := Function.update σ.idle bh false
  deleted := Function.update σ.deleted bh false
  storage := Function.update σ.storage bh .live

def qemuBhScheduleIdle (bh : Bh) (σ : State Bh) : State Bh :=
  if σ.scheduled bh then σ
  else { σ with scheduled := Function.update σ.scheduled bh true, idle := Function.update σ.idle bh true }

def qemuBhSchedule (bh : Bh) (σ : State Bh) : State Bh :=
  if σ.scheduled bh then σ
  else { σ with scheduled := Function.update σ.scheduled bh true, idle := Function.update σ.idle bh false }

def qemuBhCancel (bh : Bh) (σ : State Bh) : State Bh :=
  { σ with scheduled := Function.update σ.scheduled bh false }

def qemuBhDelete (bh : Bh) (σ : State Bh) : State Bh :=
  { σ with scheduled := Function.update σ.scheduled bh false, deleted := Function.update σ.deleted bh true }

/-- A call of `qemu_bh_poll` in progress: the variables of its loop, and whether the callback
of `bh` is running. -/
structure Poll (Bh : Type) where
  bh : Option Bh
  calling : Bool
  ret : Bool

/-- One turn of the loop, up to the call of the callback. -/
def pollTurn (bh : Bh) (ret : Bool) (σ : State Bh) : Poll Bh × State Bh :=
  if !σ.deleted bh && σ.scheduled bh then
    ({ bh := some bh, calling := true, ret := ret || !σ.idle bh },
      { σ with scheduled := Function.update σ.scheduled bh false, idle := Function.update σ.idle bh false })
  else ({ bh := σ.next bh, calling := false, ret }, σ)

/-- The pointer at `bhp`, which is the `next` field of a bottom half or the head of the list. -/
def State.load (σ : State Bh) (bhp : Option Bh) : Option Bh :=
  match bhp with
  | none => σ.firstBh
  | some bh => σ.next bh

def State.store (σ : State Bh) (bhp v : Option Bh) : State Bh :=
  match bhp with
  | none => { σ with firstBh := v }
  | some bh => { σ with next := Function.update σ.next bh v }

def qemuFree (bh : Bh) (σ : State Bh) : State Bh :=
  { σ with storage := Function.update σ.storage bh .freed }

/-- The second loop of `qemu_bh_poll`. -/
def removeDeleted : ℕ → Option Bh → State Bh → Option (State Bh)
  | 0, _, _ => none
  | fuel + 1, bhp, σ =>
    match σ.load bhp with
    | none => some σ
    | some bh =>
      if σ.deleted bh then removeDeleted fuel bhp (qemuFree bh (σ.store bhp (σ.next bh)))
      else removeDeleted fuel (some bh) σ

/-! ### Programs -/

/-- What the program does: the calls, the turns of the innermost poll and the returns from the
callback that it has called. The last turn of a poll is its sweep. -/
inductive Event (Bh : Type) where
  | new (bh : Bh)
  | schedule (bh : Bh)
  | scheduleIdle (bh : Bh)
  | cancel (bh : Bh)
  | delete (bh : Bh)
  | poll
  | turn
  | back

/-- The history, latest entry first. A turn of a poll visits a bottom half, and runs it or not. -/
inductive Entry (Bh : Type) where
  | created (bh : Bh)
  | scheduled (bh : Bh)
  | cancelled (bh : Bh)
  | deleted (bh : Bh)
  | started
  | visited (bh : Bh) (ran : Bool)
  | finished (ret : Bool)

/-- The polls in progress stand with the innermost one first. -/
structure Machine (Bh : Type) where
  bhs : State Bh
  polls : List (Poll Bh)
  log : List (Entry Bh)

def start : Machine Bh where
  bhs := {
    firstBh := none
    next := fun _ => none
    scheduled := fun _ => false
    idle := fun _ => false
    deleted := fun _ => false
    storage := fun _ => .fresh }
  polls := []
  log := []

def Machine.running (m : Machine Bh) : Bool :=
  match m.polls with
  | [] => true
  | f :: _ => f.calling

/-- The program calls with bottom halves that have not been freed, and memory that has been
freed is a new bottom half when it comes back from the allocator. -/
def Machine.enabled (m : Machine Bh) : Event Bh → Bool
  | .new bh => m.running && decide (m.bhs.storage bh = .fresh)
  | .schedule bh => m.running && decide (m.bhs.storage bh = .live)
  | .scheduleIdle bh => m.running && decide (m.bhs.storage bh = .live)
  | .cancel bh => m.running && decide (m.bhs.storage bh = .live)
  | .delete bh => m.running && decide (m.bhs.storage bh = .live)
  | .poll => m.running
  | .turn => !m.running
  | .back => m.running && !m.polls.isEmpty

def Machine.turn (fuel : ℕ) (m : Machine Bh) : Option (Machine Bh) :=
  match m.polls with
  | [] => none
  | f :: polls =>
    match f.bh with
    | some bh =>
      let (f', σ) := pollTurn bh f.ret m.bhs
      some { bhs := σ, polls := f' :: polls, log := .visited bh f'.calling :: m.log }
    | none => do
      let σ ← removeDeleted fuel none m.bhs
      return { bhs := σ, polls, log := .finished f.ret :: m.log }

/-- The loop goes on at `bh->next`. -/
def Machine.back (m : Machine Bh) : Option (Machine Bh) :=
  match m.polls with
  | [] => none
  | f :: polls => f.bh.map fun bh => { m with polls := { f with bh := m.bhs.next bh, calling := false } :: polls }

def Machine.act (fuel : ℕ) (m : Machine Bh) : Event Bh → Option (Machine Bh)
  | .new bh => some { m with bhs := qemuBhNew bh m.bhs, log := .created bh :: m.log }
  | .schedule bh => some { m with bhs := qemuBhSchedule bh m.bhs, log := .scheduled bh :: m.log }
  | .scheduleIdle bh => some { m with bhs := qemuBhScheduleIdle bh m.bhs, log := .scheduled bh :: m.log }
  | .cancel bh => some { m with bhs := qemuBhCancel bh m.bhs, log := .cancelled bh :: m.log }
  | .delete bh => some { m with bhs := qemuBhDelete bh m.bhs, log := .deleted bh :: m.log }
  | .poll => some { m with
      polls := { bh := m.bhs.firstBh, calling := false, ret := false } :: m.polls
      log := .started :: m.log }
  | .turn => m.turn fuel
  | .back => m.back

def step (fuel : ℕ) (m : Machine Bh) (ev : Event Bh) : Option (Machine Bh) :=
  if m.enabled ev then m.act fuel ev else none

/-- No poll in progress stands on a bottom half that has been freed. -/
def Machine.Standing (m : Machine Bh) : Prop :=
  ∀ f ∈ m.polls, ∀ bh, f.bh = some bh → m.bhs.storage bh = .live

/-- The step is not the sweep of a nested poll while an outer poll stands on a bottom half that
has been deleted. -/
def Machine.Clear (m : Machine Bh) : Event Bh → Prop
  | .turn => (∀ f ∈ m.polls.head?, f.bh = none) → ∀ f ∈ m.polls.tail, ∀ bh, f.bh = some bh → m.bhs.deleted bh = false
  | _ => True

def ClearRun (fuel : ℕ) : Machine Bh → List (Event Bh) → Prop
  | _, [] => True
  | m, ev :: evs => m.Clear ev ∧ ∀ m', step fuel m ev = some m' → ClearRun fuel m' evs

/-! ### The meaning of the history -/

def isDeleted : List (Entry Bh) → Bh → Bool
  | [], _ => false
  | .deleted bh :: log, c => if c = bh then true else isDeleted log c
  | .created _ :: log, c => isDeleted log c
  | .scheduled _ :: log, c => isDeleted log c
  | .cancelled _ :: log, c => isDeleted log c
  | .started :: log, c => isDeleted log c
  | .visited _ _ :: log, c => isDeleted log c
  | .finished _ :: log, c => isDeleted log c

/-- A bottom half has been scheduled, and since then it has not been visited, cancelled or
deleted. -/
def pending : List (Entry Bh) → Bh → Bool
  | [], _ => false
  | .scheduled bh :: log, c => if c = bh then !isDeleted log bh else pending log c
  | .cancelled bh :: log, c => if c = bh then false else pending log c
  | .deleted bh :: log, c => if c = bh then false else pending log c
  | .visited bh _ :: log, c => if c = bh then false else pending log c
  | .created _ :: log, c => pending log c
  | .started :: log, c => pending log c
  | .finished _ :: log, c => pending log c

/-- The places at which the polls in progress have started, innermost first. -/
def openPolls : List (Entry Bh) → List ℕ
  | [] => []
  | .started :: log => log.length :: openPolls log
  | .finished _ :: log => (openPolls log).tail
  | .created _ :: log => openPolls log
  | .scheduled _ :: log => openPolls log
  | .cancelled _ :: log => openPolls log
  | .deleted _ :: log => openPolls log
  | .visited _ _ :: log => openPolls log

/-- The bottom half was created before place `p` of the history. -/
def CreatedBefore (p : ℕ) (c : Bh) : List (Entry Bh) → Prop
  | [] => False
  | .created bh :: log => bh = c ∧ log.length < p ∨ CreatedBefore p c log
  | _ :: log => CreatedBefore p c log

/-- The bottom half has been visited since place `p` of the history. -/
def VisitedSince (p : ℕ) (c : Bh) : List (Entry Bh) → Prop
  | [] => False
  | .visited bh _ :: log => bh = c ∧ p ≤ log.length ∨ VisitedSince p c log
  | _ :: log => VisitedSince p c log

/-- A visit runs a bottom half exactly when it is pending, and never after its deletion. A poll
ends when the bottom halves that were there at its start and are not deleted have all been
visited. -/
def LogOk : List (Entry Bh) → Prop
  | [] => True
  | .visited bh ran :: log => LogOk log ∧ ran = pending log bh ∧ (ran = true → isDeleted log bh = false)
  | .finished _ :: log =>
    LogOk log ∧ ∃ p, (openPolls log).head? = some p ∧
      ∀ c, CreatedBefore p c log → isDeleted log c = false → VisitedSince p c log
  | _ :: log => LogOk log

theorem isDeleted_of_pending {log : List (Entry Bh)} {bh : Bh} (h : pending log bh = true) : isDeleted log bh = false := by
  induction log with
  | nil => rfl
  | cons e log ih =>
    cases e with
    | scheduled b =>
      rw [pending] at h
      split at h
      · rename_i heq
        subst heq
        simpa [isDeleted] using h
      · exact ih h
    | cancelled b =>
      rw [pending] at h
      split at h
      · exact absurd h (by simp)
      · exact ih h
    | visited b ran =>
      rw [pending] at h
      split at h
      · exact absurd h (by simp)
      · exact ih h
    | deleted b =>
      rw [pending] at h
      split at h
      · exact absurd h (by simp)
      · rename_i hne
        rw [isDeleted, if_neg hne]
        exact ih h
    | created b => exact ih h
    | started => exact ih h
    | finished ret => exact ih h

omit [DecidableEq Bh] in
theorem createdBefore_cons {p : ℕ} {c : Bh} {log : List (Entry Bh)} (e : Entry Bh) (hp : p ≤ log.length) :
    CreatedBefore p c (e :: log) ↔ CreatedBefore p c log := by
  cases e with
  | created b => exact or_iff_right fun h => absurd h.2 (Nat.not_lt.2 hp)
  | _ => exact Iff.rfl

omit [DecidableEq Bh] in
theorem VisitedSince.cons {p : ℕ} {c : Bh} {log : List (Entry Bh)} (h : VisitedSince p c log) (e : Entry Bh) :
    VisitedSince p c (e :: log) := by
  cases e with
  | visited b ran => exact .inr h
  | _ => exact h

/-! ### The list -/

section List

variable {σ : State Bh} {L l₁ l₂ : List Bh}

omit [DecidableEq Bh] in
theorem load_place (h : Seg σ.next σ.firstBh (l₁ ++ l₂) none) : σ.load l₁.getLast? = l₂.head? := by
  rcases List.eq_nil_or_concat l₁ with rfl | ⟨l, b, rfl⟩
  · exact h.head?_eq
  · rw [List.concat_eq_append] at *
    rw [List.append_assoc, List.singleton_append] at h
    rw [List.getLast?_append, List.getLast?_singleton, Option.some_or]
    exact h.next_eq_head?

theorem store_place {b : Bh} (h : Seg σ.next σ.firstBh (l₁ ++ b :: l₂) none) (hnodup : (l₁ ++ b :: l₂).Nodup) :
    Seg (σ.store l₁.getLast? (σ.next b)).next (σ.store l₁.getLast? (σ.next b)).firstBh (l₁ ++ l₂) none := by
  obtain ⟨q, -, -, htail⟩ := seg_append.1 h
  have hdisjoint := List.disjoint_of_nodup_append hnodup
  obtain ⟨hhead, hnext⟩ := h.splice htail (List.nodup_append.1 hnodup).1 fun a ha hb =>
    hdisjoint ha (List.mem_cons_of_mem b hb)
  cases hlast : l₁.getLast? with
  | none => exact hhead (List.getLast?_eq_none_iff.1 hlast)
  | some a => exact hnext a hlast

/-- The sweep takes the deleted bottom halves out of the list and frees them. -/
theorem removeDeleted_spec : ∀ (l₁ l₂ : List Bh) {fuel : ℕ} {σ : State Bh},
    Seg σ.next σ.firstBh (l₁ ++ l₂) none → (l₁ ++ l₂).Nodup → l₂.length < fuel →
    ∃ σ', removeDeleted fuel l₁.getLast? σ = some σ' ∧
      Seg σ'.next σ'.firstBh (l₁ ++ l₂.filter (!σ.deleted ·)) none ∧ σ'.deleted = σ.deleted ∧
      σ'.scheduled = σ.scheduled ∧
      ∀ c, σ'.storage c = if c ∈ l₂ ∧ σ.deleted c = true then .freed else σ.storage c
  | l₁, [], fuel + 1, σ, hseg, _, _ => by
    refine ⟨σ, ?_, hseg, rfl, rfl, fun c => by simp⟩
    rw [removeDeleted, load_place hseg]
    rfl
  | l₁, b :: l₂, fuel + 1, σ, hseg, hnodup, hfuel => by
    have hload := load_place hseg
    rw [removeDeleted, hload]
    dsimp only [List.head?_cons]
    cases hdel : σ.deleted b with
    | true =>
      have hnodup' : (l₁ ++ l₂).Nodup := (List.nodup_cons.1 (List.nodup_middle.1 hnodup)).2
      have hb : b ∉ l₂ := (List.nodup_cons.1 (List.nodup_append.1 hnodup).2.1).1
      have hsame : (qemuFree b (σ.store l₁.getLast? (σ.next b))).deleted = σ.deleted ∧
          (qemuFree b (σ.store l₁.getLast? (σ.next b))).scheduled = σ.scheduled ∧
          (qemuFree b (σ.store l₁.getLast? (σ.next b))).storage = Function.update σ.storage b .freed := by
        cases l₁.getLast? <;> exact ⟨rfl, rfl, rfl⟩
      have hstore : Seg (qemuFree b (σ.store l₁.getLast? (σ.next b))).next
          (qemuFree b (σ.store l₁.getLast? (σ.next b))).firstBh (l₁ ++ l₂) none := store_place hseg hnodup
      obtain ⟨σ', hrun, hseg', hdel', hsched', hstorage⟩ :=
        removeDeleted_spec l₁ l₂ hstore hnodup' (Nat.lt_of_succ_lt_succ hfuel)
      rw [hsame.1] at hseg' hdel' hstorage
      rw [hsame.2.2] at hstorage
      refine ⟨σ', by rw [if_pos rfl, hrun], ?_, hdel', hsched'.trans hsame.2.1, fun c => ?_⟩
      · rw [List.filter_cons_of_neg (by simp [hdel])]
        exact hseg'
      · rw [hstorage]
        by_cases hc : c = b
        · subst hc
          simp [hb, hdel]
        · simp [hc]
    | false =>
      have hstep : (l₁ ++ [b]).getLast? = some b := by simp
      have hassoc : l₁ ++ b :: l₂ = (l₁ ++ [b]) ++ l₂ := by simp
      rw [hassoc] at hseg hnodup
      obtain ⟨σ', hrun, hseg', hdel', hsched', hstorage⟩ :=
        removeDeleted_spec (l₁ ++ [b]) l₂ hseg hnodup (Nat.lt_of_succ_lt_succ hfuel)
      rw [hstep] at hrun
      refine ⟨σ', by rw [if_neg (by simp), hrun], ?_, hdel', hsched', fun c => ?_⟩
      · rw [List.filter_cons_of_pos (by simp [hdel])]
        simpa using hseg'
      · rw [hstorage]
        by_cases hc : c = b
        · subst hc
          simp [hdel]
        · simp [hc]

end List

/-! ### The invariant -/

/-- A poll in progress has visited the bottom halves up to its place in the list, except the
ones that were created after its start. -/
def PollOk (log : List (Entry Bh)) (L : List Bh) (f : Poll Bh) (p : ℕ) : Prop :=
  p < log.length ∧ ∃ l₁ l₂, L = l₁ ++ l₂ ∧ (f.calling = true → f.bh ≠ none ∧ f.bh = l₁.getLast?) ∧
    (f.calling = false → f.bh = l₂.head?) ∧ ∀ c ∈ l₁, CreatedBefore p c log → VisitedSince p c log

structure Inv (m : Machine Bh) (L : List Bh) : Prop where
  seg : Seg m.bhs.next m.bhs.firstBh L none
  nodup : L.Nodup
  mem : ∀ bh, bh ∈ L ↔ m.bhs.storage bh = .live
  deleted : ∀ bh ∈ L, m.bhs.deleted bh = isDeleted m.log bh
  due : ∀ bh ∈ L, (!m.bhs.deleted bh && m.bhs.scheduled bh) = pending m.log bh
  freed : ∀ bh, m.bhs.storage bh = .freed → isDeleted m.log bh = true
  fresh : ∀ bh, m.bhs.storage bh = .fresh →
    (∀ p, ¬ CreatedBefore p bh m.log) ∧ isDeleted m.log bh = false ∧ pending m.log bh = false
  length : L.length ≤ m.log.length
  polls : List.Forall₂ (PollOk m.log L) m.polls (openPolls m.log)
  calling : ∀ f ∈ m.polls.tail, f.calling = true
  ok : LogOk m.log

section Inv

variable {m : Machine Bh} {L : List Bh}

omit [DecidableEq Bh] in
theorem PollOk.cons {log : List (Entry Bh)} {f : Poll Bh} {p : ℕ} (h : PollOk log L f p) (e : Entry Bh) :
    PollOk (e :: log) L f p := by
  obtain ⟨hp, l₁, l₂, hL, hcalling, hnext, hvisited⟩ := h
  refine ⟨Nat.lt_succ_of_lt hp, l₁, l₂, hL, hcalling, hnext, fun c hc hcreated => ?_⟩
  exact (hvisited c hc ((createdBefore_cons e hp.le).1 hcreated)).cons e

theorem start_inv : Inv (start : Machine Bh) [] where
  seg := rfl
  nodup := List.nodup_nil
  mem := fun _ => by simp [start]
  deleted := fun _ h => absurd h List.not_mem_nil
  due := fun _ h => absurd h List.not_mem_nil
  freed := fun _ h => absurd h (by simp [start])
  fresh := fun _ _ => ⟨fun _ h => h, rfl, rfl⟩
  length := Nat.le_refl _
  polls := .nil
  calling := fun _ h => absurd h List.not_mem_nil
  ok := trivial

theorem Inv.standing (h : Inv m L) : m.Standing := by
  intro f hf bh hbh
  obtain ⟨p, -, -, l₁, l₂, hL, hcalling, hnext, -⟩ : ∃ p ∈ openPolls m.log, PollOk m.log L f p := by
    obtain ⟨i, hi, rfl⟩ := List.getElem_of_mem hf
    exact ⟨_, List.getElem_mem (h.polls.length_eq ▸ hi), (List.forall₂_iff_get.1 h.polls).2 i hi _⟩
  rw [← h.mem, hL, List.mem_append]
  cases hf : f.calling with
  | true => exact .inl (List.mem_of_getLast? ((hcalling hf).2.symm.trans hbh))
  | false => exact .inr (List.mem_of_mem_head? ((hnext hf).symm.trans hbh))

theorem Inv.calling_of_running (h : Inv m L) (hrunning : m.running = true) : ∀ f ∈ m.polls, f.calling = true := by
  intro f hf
  cases hpolls : m.polls with
  | nil => simp [hpolls] at hf
  | cons g polls =>
    rw [Machine.running, hpolls] at hrunning
    have hcalling := h.calling
    rw [hpolls] at hf hcalling
    rcases List.mem_cons.1 hf with rfl | hf
    · exact hrunning
    · exact hcalling f hf

theorem Inv.polls_cons (h : Inv m L) (e : Entry Bh) : List.Forall₂ (PollOk (e :: m.log) L) m.polls (openPolls m.log) :=
  h.polls.imp fun _ _ hpoll => hpoll.cons e

/-- A step that keeps the list. -/
theorem Inv.entry (h : Inv m L) {e : Entry Bh} {σ : State Bh} {polls : List (Poll Bh)} (hnext : σ.next = m.bhs.next)
    (hfirst : σ.firstBh = m.bhs.firstBh) (hstorage : σ.storage = m.bhs.storage)
    (hcreated : ∀ p c, CreatedBefore p c (e :: m.log) → CreatedBefore p c m.log)
    (hother : ∀ c ∉ L, isDeleted (e :: m.log) c = isDeleted m.log c ∧ pending (e :: m.log) c = pending m.log c)
    (hlist : ∀ c ∈ L, σ.deleted c = isDeleted (e :: m.log) c ∧
      (!σ.deleted c && σ.scheduled c) = pending (e :: m.log) c)
    (hpolls : List.Forall₂ (PollOk (e :: m.log) L) polls (openPolls (e :: m.log)))
    (hcalling : ∀ f ∈ polls.tail, f.calling = true) (hok : LogOk (e :: m.log)) :
    Inv { bhs := σ, polls, log := e :: m.log } L where
  seg := by
    rw [hnext, hfirst]
    exact h.seg
  nodup := h.nodup
  mem := by
    rw [hstorage]
    exact h.mem
  deleted := fun c hc => (hlist c hc).1
  due := fun c hc => (hlist c hc).2
  freed := fun c hc => by
    rw [hstorage] at hc
    have hout : c ∉ L := fun hmem => by simp [(h.mem c).1 hmem] at hc
    rw [(hother c hout).1]
    exact h.freed c hc
  fresh := fun c hc => by
    rw [hstorage] at hc
    have hout : c ∉ L := fun hmem => by simp [(h.mem c).1 hmem] at hc
    obtain ⟨hnot, hdel, hpending⟩ := h.fresh c hc
    rw [(hother c hout).1, (hother c hout).2]
    exact ⟨fun p hp => hnot p (hcreated p c hp), hdel, hpending⟩
  length := Nat.le_succ_of_le h.length
  polls := hpolls
  calling := hcalling
  ok := hok

/-- A call with a bottom half of the list. -/
theorem Inv.call (h : Inv m L) {bh : Bh} (hbh : m.bhs.storage bh = .live) {e : Entry Bh} {σ : State Bh}
    (he : e = .scheduled bh ∨ e = .cancelled bh ∨ e = .deleted bh) (hnext : σ.next = m.bhs.next)
    (hfirst : σ.firstBh = m.bhs.firstBh) (hstorage : σ.storage = m.bhs.storage)
    (hsame : ∀ c ≠ bh, σ.deleted c = m.bhs.deleted c ∧ σ.scheduled c = m.bhs.scheduled c)
    (hself : σ.deleted bh = isDeleted (e :: m.log) bh ∧ (!σ.deleted bh && σ.scheduled bh) = pending (e :: m.log) bh) :
    Inv { m with bhs := σ, log := e :: m.log } L := by
  have hbhL : bh ∈ L := (h.mem bh).2 hbh
  have hother : ∀ c ≠ bh, isDeleted (e :: m.log) c = isDeleted m.log c ∧ pending (e :: m.log) c = pending m.log c := by
    rintro c hc
    rcases he with rfl | rfl | rfl <;> simp [isDeleted, pending, hc]
  refine h.entry hnext hfirst hstorage ?_ (fun c hc => hother c fun heq => hc (heq ▸ hbhL)) (fun c hc => ?_) ?_ h.calling ?_
  · rcases he with rfl | rfl | rfl <;> exact fun _ _ hp => hp
  · by_cases hcb : c = bh
    · subst hcb
      exact hself
    · rw [(hother c hcb).1, (hother c hcb).2, (hsame c hcb).1, (hsame c hcb).2]
      exact ⟨h.deleted c hc, h.due c hc⟩
  · have hpolls := h.polls_cons e
    rcases he with rfl | rfl | rfl <;> exact hpolls
  · rcases he with rfl | rfl | rfl <;> exact h.ok

/-- After a schedule call, idle or not, a bottom half that is not deleted is pending. -/
theorem Inv.schedule (h : Inv m L) {bh : Bh} (hbh : m.bhs.storage bh = .live) {σ : State Bh} (idle : Bool)
    (hσ : σ = if m.bhs.scheduled bh then m.bhs
      else { m.bhs with
        scheduled := Function.update m.bhs.scheduled bh true
        idle := Function.update m.bhs.idle bh idle }) :
    Inv { m with bhs := σ, log := .scheduled bh :: m.log } L := by
  have hdel := h.deleted bh ((h.mem bh).2 hbh)
  cases hsched : m.bhs.scheduled bh with
  | true =>
    rw [if_pos hsched] at hσ
    subst hσ
    refine h.call hbh (.inl rfl) rfl rfl rfl (fun _ _ => ⟨rfl, rfl⟩) ⟨hdel, ?_⟩
    simp [pending, hsched, hdel]
  | false =>
    rw [if_neg (by simp [hsched])] at hσ
    subst hσ
    refine h.call hbh (.inl rfl) rfl rfl rfl (fun c hc => ⟨rfl, Function.update_of_ne hc _ _⟩) ⟨hdel, ?_⟩
    simp [pending, hdel]

theorem Inv.cancel (h : Inv m L) {bh : Bh} (hbh : m.bhs.storage bh = .live) :
    Inv { m with bhs := qemuBhCancel bh m.bhs, log := .cancelled bh :: m.log } L := by
  have hdel := h.deleted bh ((h.mem bh).2 hbh)
  refine h.call hbh (.inr (.inl rfl)) rfl rfl rfl (fun c hc => ⟨rfl, Function.update_of_ne hc _ _⟩) ⟨hdel, ?_⟩
  simp [pending, qemuBhCancel]

theorem Inv.delete (h : Inv m L) {bh : Bh} (hbh : m.bhs.storage bh = .live) :
    Inv { m with bhs := qemuBhDelete bh m.bhs, log := .deleted bh :: m.log } L := by
  refine h.call hbh (.inr (.inr rfl)) rfl rfl rfl
    (fun c hc => ⟨Function.update_of_ne hc _ _, Function.update_of_ne hc _ _⟩) ⟨?_, ?_⟩
  · simp [isDeleted, qemuBhDelete]
  · simp [pending, qemuBhDelete]

/-- A new bottom half goes to the head of the list, before the places of the polls. -/
theorem Inv.new (h : Inv m L) (hrunning : m.running = true) {bh : Bh} (hbh : m.bhs.storage bh = .fresh) :
    Inv { m with bhs := qemuBhNew bh m.bhs, log := .created bh :: m.log } (bh :: L) := by
  have hout : bh ∉ L := fun hmem => by simp [(h.mem bh).1 hmem] at hbh
  have hne : ∀ c ∈ L, c ≠ bh := fun c hc heq => hout (heq ▸ hc)
  obtain ⟨hnot, hdel, hpending⟩ := h.fresh bh hbh
  refine ⟨⟨rfl, ?_⟩, List.nodup_cons.2 ⟨hout, h.nodup⟩, fun c => ?_, fun c hc => ?_, fun c hc => ?_, fun c hc => ?_,
    fun c hc => ?_, Nat.succ_le_succ h.length, ?_, h.calling, h.ok⟩
  · dsimp only [qemuBhNew]
    rw [Function.update_self]
    exact h.seg.update hout _
  · by_cases hc : c = bh
    · simp [qemuBhNew, hc]
    · simp [qemuBhNew, hc, h.mem]
  · by_cases hcb : c = bh
    · simp [qemuBhNew, hcb, isDeleted, hdel]
    · simpa [qemuBhNew, hcb, isDeleted] using h.deleted c ((List.mem_cons.1 hc).resolve_left hcb)
  · by_cases hcb : c = bh
    · simp [qemuBhNew, hcb, pending, hpending]
    · simpa [qemuBhNew, hcb, pending] using h.due c ((List.mem_cons.1 hc).resolve_left hcb)
  · have hcb : c ≠ bh := by
      rintro rfl
      simp [qemuBhNew] at hc
    exact h.freed c (by simpa [qemuBhNew, hcb] using hc)
  · have hcb : c ≠ bh := by
      rintro rfl
      simp [qemuBhNew] at hc
    obtain ⟨hnot', hrest⟩ := h.fresh c (by simpa [qemuBhNew, hcb] using hc)
    exact ⟨fun p hp => hp.elim (fun heq => hcb heq.1.symm) (hnot' p), hrest⟩
  · have hcalling := h.calling_of_running hrunning
    refine List.forall₂_iff_get.2 ⟨h.polls.length_eq, fun i hi hi' => ?_⟩
    obtain ⟨hp, l₁, l₂, hL, hcall, hnext, hvisited⟩ := (List.forall₂_iff_get.1 h.polls).2 i hi hi'
    obtain ⟨hsome, hlast⟩ := hcall (hcalling _ (List.get_mem _ _))
    refine ⟨Nat.lt_succ_of_lt hp, bh :: l₁, l₂, by rw [hL, List.cons_append], fun _ => ⟨hsome, ?_⟩, fun hf => ?_,
      fun c hc hcreated => ?_⟩
    · rw [List.getLast?_cons, hlast]
      obtain ⟨a, ha⟩ := Option.ne_none_iff_exists'.1 (hlast ▸ hsome)
      rw [ha, Option.getD_some]
    · rw [hcalling _ (List.get_mem _ _)] at hf
      exact absurd hf (by simp)
    · have hbefore : CreatedBefore _ c m.log := (createdBefore_cons (.created bh) hp.le).1 hcreated
      rcases List.mem_cons.1 hc with rfl | hc
      · exact absurd hbefore (hnot _)
      · exact (hvisited c hc hbefore).cons _

theorem Inv.poll (h : Inv m L) (hrunning : m.running = true) :
    Inv { m with
      polls := { bh := m.bhs.firstBh, calling := false, ret := false } :: m.polls
      log := .started :: m.log } L := by
  refine h.entry rfl rfl rfl (fun _ _ hp => hp) (fun _ _ => ⟨rfl, rfl⟩) (fun c hc => ⟨h.deleted c hc, h.due c hc⟩) ?_
    (h.calling_of_running hrunning) h.ok
  refine .cons ⟨Nat.lt_succ_self _, [], L, rfl, ?_, fun _ => h.seg.head?_eq, ?_⟩ (h.polls_cons _)
  · exact fun hcalling => absurd hcalling (by simp)
  · exact fun _ hc => absurd hc List.not_mem_nil

theorem Inv.innermost (h : Inv m L) {f : Poll Bh} {polls : List (Poll Bh)} (hpolls : m.polls = f :: polls) :
    ∃ p ps, openPolls m.log = p :: ps ∧ PollOk m.log L f p ∧ List.Forall₂ (PollOk m.log L) polls ps := by
  have hall := h.polls
  rw [hpolls] at hall
  obtain ⟨p, ps, hf, hrest, hopen⟩ := List.forall₂_cons_left_iff.1 hall
  exact ⟨p, ps, hopen, hf, hrest⟩

/-- A turn of a poll runs a bottom half when it is pending, and goes on after it if not. -/
theorem Inv.visit (h : Inv m L) {f : Poll Bh} {polls : List (Poll Bh)} (hpolls : m.polls = f :: polls)
    (hcalling : f.calling = false) {bh : Bh} (hbh : f.bh = some bh) :
    Inv {
      bhs := (pollTurn bh f.ret m.bhs).2
      polls := (pollTurn bh f.ret m.bhs).1 :: polls
      log := .visited bh (pollTurn bh f.ret m.bhs).1.calling :: m.log } L := by
  obtain ⟨p, ps, hopen, ⟨hp, l₁, l₂, hL, -, hnext, hvisited⟩, hrest⟩ := h.innermost hpolls
  obtain ⟨l, rfl⟩ : ∃ l, l₂ = bh :: l := by
    have hhead : l₂.head? = some bh := (hnext hcalling).symm.trans hbh
    cases l₂ with
    | nil => simp at hhead
    | cons b l =>
      rw [List.head?_cons, Option.some.injEq] at hhead
      exact ⟨l, by rw [hhead]⟩
  have hbhL : bh ∈ L := by simp [hL]
  have hdue := h.due bh hbhL
  have hrun : (pollTurn bh f.ret m.bhs).1.calling = pending m.log bh := by
    rw [pollTurn, ← hdue]
    split
    · rename_i hd
      exact hd.symm
    · rename_i hd
      exact (Bool.eq_false_iff.2 hd).symm
  have hdel : (pollTurn bh f.ret m.bhs).2.deleted = m.bhs.deleted := by
    rw [pollTurn]
    split <;> rfl
  have htail : ∀ g ∈ polls, g.calling = true := fun g hg => h.calling g (by rwa [hpolls])
  have hnot : ∀ c ≠ bh, (pollTurn bh f.ret m.bhs).2.scheduled c = m.bhs.scheduled c := fun c hc => by
    rw [pollTurn]
    split
    · exact Function.update_of_ne hc _ _
    · rfl
  have hself : (!m.bhs.deleted bh && (pollTurn bh f.ret m.bhs).2.scheduled bh) = false := by
    rw [pollTurn]
    split
    · simp
    · rename_i hd
      exact Bool.eq_false_iff.2 hd
  have hseen : ∀ c ∈ l₁ ++ [bh], ∀ ran, CreatedBefore p c (.visited bh ran :: m.log) →
      VisitedSince p c (.visited bh ran :: m.log) := by
    intro c hc ran hcreated
    rcases List.mem_append.1 hc with hc | hc
    · exact (hvisited c hc hcreated).cons _
    · obtain rfl := List.mem_singleton.1 hc
      exact .inl ⟨rfl, hp.le⟩
  refine h.entry ?_ ?_ ?_ (fun _ _ hc => hc) (fun c hc => ⟨rfl, if_neg fun heq : c = bh => hc (heq ▸ hbhL)⟩) (fun c hc => ?_) ?_
    htail ⟨h.ok, hrun, fun hran => isDeleted_of_pending (hrun ▸ hran)⟩
  · rw [pollTurn]
    split <;> rfl
  · rw [pollTurn]
    split <;> rfl
  · rw [pollTurn]
    split <;> rfl
  · rw [hdel]
    refine ⟨h.deleted c hc, ?_⟩
    by_cases hcb : c = bh
    · subst hcb
      rw [pending, if_pos rfl]
      exact hself
    · rw [pending, if_neg hcb, hnot c hcb]
      exact h.due c hc
  · show List.Forall₂ _ _ (openPolls m.log)
    rw [hopen]
    refine .cons ⟨Nat.lt_succ_of_lt hp, l₁ ++ [bh], l, by simp [hL], ?_, ?_, fun c hc => hseen c hc _⟩
      (hrest.imp fun _ _ hpoll => hpoll.cons _)
    · intro hcall
      rw [pollTurn] at hcall ⊢
      split
      · simp
      · rename_i hd
        rw [if_neg hd] at hcall
        exact absurd hcall (by simp)
    · intro hcall
      rw [pollTurn] at hcall ⊢
      split
      · rename_i hd
        rw [if_pos hd] at hcall
        exact absurd hcall (by simp)
      · have hseg := h.seg
        rw [hL] at hseg
        exact hseg.next_eq_head?

/-- The loop goes on after the bottom half whose callback has returned. -/
theorem Inv.back (h : Inv m L) {f : Poll Bh} {polls : List (Poll Bh)} (hpolls : m.polls = f :: polls)
    (hcalling : f.calling = true) :
    ∃ bh, f.bh = some bh ∧
      Inv { m with polls := { f with bh := m.bhs.next bh, calling := false } :: polls } L := by
  obtain ⟨p, ps, hopen, ⟨hp, l₁, l₂, hL, hcall, -, hvisited⟩, hrest⟩ := h.innermost hpolls
  obtain ⟨hsome, hlast⟩ := hcall hcalling
  obtain ⟨bh, hbh⟩ := Option.ne_none_iff_exists'.1 hsome
  refine ⟨bh, hbh, { h with polls := ?_, calling := ?_ }⟩
  · show List.Forall₂ _ _ (openPolls m.log)
    rw [hopen]
    refine .cons ⟨hp, l₁, l₂, hL, fun hc => absurd hc (by simp), fun _ => ?_, hvisited⟩ hrest
    rcases List.eq_nil_or_concat l₁ with rfl | ⟨l, b, rfl⟩
    · rw [hlast] at hsome
      exact absurd rfl hsome
    · rw [List.concat_eq_append] at hL hlast
      rw [hbh, List.getLast?_append, List.getLast?_singleton, Option.some_or, Option.some.injEq] at hlast
      have hseg := h.seg
      rw [hL, List.append_assoc, List.singleton_append] at hseg
      rw [hlast]
      exact hseg.next_eq_head?
  · exact fun g hg => h.calling g (by rwa [hpolls])

theorem Inv.finish (h : Inv m L) {f : Poll Bh} {polls : List (Poll Bh)} (hpolls : m.polls = f :: polls)
    (hcalling : f.calling = false) (hbh : f.bh = none) : LogOk (.finished f.ret :: m.log) := by
  obtain ⟨p, ps, hopen, ⟨hp, l₁, l₂, hL, -, hnext, hvisited⟩, hrest⟩ := h.innermost hpolls
  have hnil : l₂ = [] := List.head?_eq_none_iff.1 ((hnext hcalling).symm.trans hbh)
  subst hnil
  rw [List.append_nil] at hL
  refine ⟨h.ok, p, by rw [hopen]; rfl, fun c hcreated hdel => hvisited c ?_ hcreated⟩
  rw [← hL, h.mem]
  cases hs : m.bhs.storage c with
  | live => rfl
  | fresh => exact absurd hcreated ((h.fresh c hs).1 p)
  | freed => exact absurd (h.freed c hs) (by simp [hdel])

/-- The sweep at the end of a poll. The places of the outer polls stay in the list when the
bottom halves that they stand on are not deleted. -/
theorem Inv.sweep (h : Inv m L) {f : Poll Bh} {polls : List (Poll Bh)} (hpolls : m.polls = f :: polls)
    (hcalling : f.calling = false) (hbh : f.bh = none) {fuel : ℕ} (hfuel : m.log.length < fuel) :
    ∃ σ, removeDeleted fuel none m.bhs = some σ ∧
      (∀ c, m.bhs.storage c = .live → (σ.storage c = .live ↔ m.bhs.deleted c = false)) ∧
      ((∀ g ∈ polls, ∀ c, g.bh = some c → m.bhs.deleted c = false) →
        Inv { bhs := σ, polls, log := .finished f.ret :: m.log } (L.filter (!m.bhs.deleted ·))) := by
  obtain ⟨p, ps, hopen, -, hrest⟩ := h.innermost hpolls
  obtain ⟨σ, hrun, hseg, hdel, hsched, hstorage⟩ :=
    removeDeleted_spec [] L h.seg h.nodup (lt_of_le_of_lt h.length hfuel)
  have hlive : ∀ c, m.bhs.storage c = .live → (σ.storage c = .live ↔ m.bhs.deleted c = false) := by
    intro c hc
    rw [hstorage]
    cases hd : m.bhs.deleted c with
    | true => simp [(h.mem c).2 hc]
    | false => simp [hc]
  refine ⟨σ, hrun, hlive, fun hclear => ?_⟩
  have hmem : ∀ c, c ∈ L.filter (!m.bhs.deleted ·) ↔ σ.storage c = .live := by
    intro c
    rw [List.mem_filter, h.mem, Bool.not_eq_true']
    constructor
    · exact fun hc => (hlive c hc.1).2 hc.2
    · intro hc
      have hold : m.bhs.storage c = .live := by
        rw [hstorage] at hc
        split at hc
        · exact absurd hc (by simp)
        · exact hc
      exact ⟨hold, (hlive c hold).1 hc⟩
  refine ⟨hseg, h.nodup.filter _, hmem, fun c hc => ?_, fun c hc => ?_, fun c hc => ?_, fun c hc => ?_, ?_, ?_, ?_,
    h.finish hpolls hcalling hbh⟩
  · rw [hdel]
    exact h.deleted c (List.mem_of_mem_filter hc)
  · rw [hdel, hsched]
    exact h.due c (List.mem_of_mem_filter hc)
  · rw [hstorage] at hc
    split at hc
    · rename_i hd
      exact (h.deleted c hd.1).symm.trans hd.2
    · exact h.freed c hc
  · rw [hstorage] at hc
    split at hc
    · exact absurd hc (by simp)
    · exact h.fresh c hc
  · exact (List.length_filter_le _ _).trans (Nat.le_succ_of_le h.length)
  · show List.Forall₂ _ _ (openPolls m.log).tail
    rw [hopen]
    refine (List.forall₂_iff_get.2 ⟨hrest.length_eq, fun i hi hi' => ?_⟩)
    obtain ⟨hp', l₁, l₂, hL, hcall, -, hvisited⟩ := (List.forall₂_iff_get.1 hrest).2 i hi hi'
    have hg : polls.get ⟨i, hi⟩ ∈ polls := List.get_mem _ _
    have hgc : (polls.get ⟨i, hi⟩).calling = true := h.calling _ (by rw [hpolls]; exact hg)
    obtain ⟨hsome, hlast⟩ := hcall hgc
    refine ⟨Nat.lt_succ_of_lt hp', l₁.filter (!m.bhs.deleted ·), l₂.filter (!m.bhs.deleted ·),
      by rw [hL, List.filter_append], fun _ => ⟨hsome, ?_⟩, fun hc => ?_, fun c hc hcreated => ?_⟩
    · rcases List.eq_nil_or_concat l₁ with rfl | ⟨l, b, rfl⟩
      · rw [hlast] at hsome
        exact absurd rfl hsome
      · rw [List.concat_eq_append, List.getLast?_append, List.getLast?_singleton, Option.some_or] at hlast
        rw [List.concat_eq_append, List.filter_append, hlast, List.filter_cons_of_pos (by simp [hclear _ hg b hlast])]
        simp
    · rw [hgc] at hc
      exact absurd hc (by simp)
    · have hbefore : CreatedBefore _ c m.log := hcreated
      exact (hvisited c (List.mem_of_mem_filter hc) hbefore).cons _
  · exact fun g hg => h.calling g (by rw [hpolls]; exact List.mem_of_mem_tail hg)

end Inv

/-! ### Runs of the program -/

section Runs

variable {m : Machine Bh} {L : List Bh} {fuel : ℕ}

/-- An enabled step is taken. It keeps the invariant when it is clear, and when it is not, a
poll stands on a bottom half that has been freed. -/
theorem step_inv (h : Inv m L) (hfuel : m.log.length < fuel) {ev : Event Bh} (hev : m.enabled ev = true) :
    ∃ m', step fuel m ev = some m' ∧ m'.log.length ≤ m.log.length + 1 ∧ (m.Clear ev → ∃ L', Inv m' L') ∧
      (m.Clear ev ↔ m'.Standing) := by
  have hkeep : ∀ {m' : Machine Bh} {L' : List Bh}, m.act fuel ev = some m' → Inv m' L' →
      m'.log.length ≤ m.log.length + 1 → m.Clear ev → ∃ m', step fuel m ev = some m' ∧
        m'.log.length ≤ m.log.length + 1 ∧ (m.Clear ev → ∃ L', Inv m' L') ∧ (m.Clear ev ↔ m'.Standing) :=
    fun hact hinv hlen hclear =>
      ⟨_, by rw [step, if_pos hev, hact], hlen, fun _ => ⟨_, hinv⟩, iff_of_true hclear hinv.standing⟩
  have hlive : ∀ {bh : Bh}, (m.running && decide (m.bhs.storage bh = .live)) = true → m.bhs.storage bh = .live :=
    fun hen => of_decide_eq_true (Bool.and_eq_true_iff.1 hen).2
  cases ev with
  | new bh =>
    obtain ⟨hrunning, hfresh⟩ := Bool.and_eq_true_iff.1 hev
    exact hkeep rfl (h.new hrunning (of_decide_eq_true hfresh)) (Nat.le_refl _) trivial
  | schedule bh => exact hkeep rfl (h.schedule (hlive hev) false rfl) (Nat.le_refl _) trivial
  | scheduleIdle bh => exact hkeep rfl (h.schedule (hlive hev) true rfl) (Nat.le_refl _) trivial
  | cancel bh => exact hkeep rfl (h.cancel (hlive hev)) (Nat.le_refl _) trivial
  | delete bh => exact hkeep rfl (h.delete (hlive hev)) (Nat.le_refl _) trivial
  | poll => exact hkeep rfl (h.poll hev) (Nat.le_refl _) trivial
  | back =>
    obtain ⟨hrunning, hsome⟩ := Bool.and_eq_true_iff.1 hev
    cases hpolls : m.polls with
    | nil => simp [hpolls] at hsome
    | cons f polls =>
      obtain ⟨bh, hbh, hinv⟩ := h.back hpolls (h.calling_of_running hrunning f (by simp [hpolls]))
      refine hkeep ?_ hinv (Nat.le_succ _) trivial
      rw [Machine.act, Machine.back, hpolls]
      dsimp only
      rw [hbh, Option.map_some]
  | turn =>
    have hrunning : m.running = false := by simpa [Machine.enabled] using hev
    cases hpolls : m.polls with
    | nil => simp [Machine.running, hpolls] at hrunning
    | cons f polls =>
      have hcalling : f.calling = false := by simpa [Machine.running, hpolls] using hrunning
      cases hbh : f.bh with
      | some bh =>
        refine hkeep ?_ (h.visit hpolls hcalling hbh) (Nat.le_refl _) ?_
        · rw [Machine.act, Machine.turn, hpolls]
          dsimp only
          rw [hbh]
        · intro hend
          have hnone := hend f (by simp [hpolls])
          simp [hbh] at hnone
      | none =>
        obtain ⟨σ, hrun, hstorage, hinv⟩ := h.sweep hpolls hcalling hbh hfuel
        have hclear : m.Clear .turn ↔ ∀ g ∈ polls, ∀ c, g.bh = some c → m.bhs.deleted c = false := by
          simp [Machine.Clear, hpolls, hbh]
        refine ⟨{ bhs := σ, polls, log := .finished f.ret :: m.log }, ?_, Nat.le_refl _, fun hc => ?_, ?_⟩
        · rw [step, if_pos hev, Machine.act, Machine.turn, hpolls]
          dsimp only
          rw [hbh]
          dsimp only
          rw [hrun]
          rfl
        · exact ⟨_, hinv (hclear.1 hc)⟩
        · rw [hclear]
          refine forall₂_congr fun g hg => forall₂_congr fun c hc => ?_
          exact (hstorage c (h.standing g (by simp [hpolls, hg]) c hc)).symm

theorem enabled_of_step {m' : Machine Bh} {ev : Event Bh} (h : step fuel m ev = some m') : m.enabled ev = true := by
  rw [step] at h
  split at h
  · assumption
  · exact absurd h (by simp)

theorem run_inv : ∀ (evs : List (Event Bh)) {m m' : Machine Bh} {L : List Bh}, Inv m L →
    m.log.length + evs.length ≤ fuel → ClearRun fuel m evs → evs.foldlM (step fuel) m = some m' →
    (∃ L', Inv m' L') ∧ m'.log.length ≤ m.log.length + evs.length
  | [], m, m', L, h, _, _, hrun => by
    rw [List.foldlM_nil] at hrun
    obtain rfl := Option.some.inj hrun
    exact ⟨⟨L, h⟩, Nat.le_refl _⟩
  | ev :: evs, m, m', L, h, hfuel, hclear, hrun => by
    rw [List.foldlM_cons] at hrun
    obtain ⟨m₁, hstep, hrun⟩ := Option.bind_eq_some_iff.1 hrun
    rw [List.length_cons] at hfuel ⊢
    obtain ⟨m₂, hstep', hlog, hinv, -⟩ := step_inv h (show m.log.length < fuel by omega) (enabled_of_step hstep)
    rw [hstep, Option.some.injEq] at hstep'
    subst hstep'
    obtain ⟨L', h'⟩ := hinv hclear.1
    obtain ⟨hend, hlen⟩ := run_inv evs h' (by omega) (hclear.2 m₁ hstep) hrun
    exact ⟨hend, by omega⟩

/-- What holds of the polls in progress and of the history. -/
structure Correct (m : Machine Bh) : Prop where
  standing : m.Standing
  due : ∀ bh, m.bhs.storage bh = .live → (!m.bhs.deleted bh && m.bhs.scheduled bh) = pending m.log bh
  history : LogOk m.log

/-- In a run in which no nested poll sweeps while an outer poll stands on a deleted bottom
half, no poll stands on freed memory, what is pending runs once at its next visit, nothing runs
after its deletion, and each poll visits the whole list. The first sweep that is not clear
leaves a poll on freed memory. -/
theorem bottomHalves_run {evs : List (Event Bh)} (hfuel : evs.length < fuel) (hclear : ClearRun fuel start evs)
    (hrun : evs.foldlM (step fuel) start = some m) :
    Correct m ∧ ∀ ev, m.enabled ev = true → ∃ m', step fuel m ev = some m' ∧ (m.Clear ev ↔ m'.Standing) := by
  obtain ⟨⟨L, h⟩, hlen⟩ := run_inv evs start_inv (by simpa [start] using hfuel.le) hclear hrun
  have hlog : m.log.length < fuel := lt_of_le_of_lt (by simpa [start] using hlen) hfuel
  refine ⟨⟨h.standing, fun bh hbh => h.due bh ((h.mem bh).2 hbh), h.ok⟩, fun ev hev => ?_⟩
  obtain ⟨m', hstep, -, -, hiff⟩ := step_inv h hlog hev
  exact ⟨m', hstep, hiff⟩

end Runs

/-- The callback of the second bottom half schedules the first one and polls. -/
theorem bottomHalves_run_nested :
    ∃ m, [Event.new true, .new false, .schedule false, .poll, .turn, .schedule true, .poll, .turn, .turn].foldlM
        (step 10) (start : Machine Bool) = some m ∧ Correct m := by
  obtain ⟨m, hrun⟩ := Option.isSome_iff_exists.1 (show ([Event.new true, .new false, .schedule false, .poll, .turn,
    .schedule true, .poll, .turn, .turn].foldlM (step 10) (start : Machine Bool)).isSome from rfl)
  refine ⟨m, hrun, (bottomHalves_run (by decide) ?_ hrun).1⟩
  simp [ClearRun, Machine.Clear, step, Machine.enabled, Machine.running, Machine.act, Machine.turn, start, qemuBhNew,
    qemuBhSchedule, pollTurn]

/-- A callback deletes its own bottom half and polls. The nested poll frees the bottom half, and
then the outer poll follows its next pointer. -/
theorem nested_poll_frees :
    ∃ m m' f, [Event.new (), .schedule (), .poll, .turn, .delete (), .poll, .turn, .turn].foldlM
        (step 9) (start : Machine Unit) = some m ∧ m.polls = [f] ∧ f.bh = some () ∧ f.calling = true ∧
      m.bhs.storage () = .freed ∧ step 9 m .back = some m' :=
  ⟨_, _, _, rfl, rfl, rfl, rfl, rfl, rfl⟩

end Ar7Qemu.Vl.BottomHalf
