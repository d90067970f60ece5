import Ar7Qemu.Lib.Run
import Mathlib.Algebra.Order.Group.Int

/-! The guest cycle counter: the counter of the host, an offset, and the last value that was
read. `cpu_get_ticks` evens out a host counter that goes back between two reads; the start of
the counter is not a read. Instruction counting is off. -/

namespace Ar7Qemu.Vl.Ticks

open Lib

structure State where
  cpuTicksPrev : ℤ
  cpuTicksOffset : ℤ
  cpuClockOffset : ℤ
  cpuTicksEnabled : Bool

namespace State

variable (s : State)

/-- `cpu_get_ticks`, where `real` is what `cpu_get_real_ticks` returns. -/
def cpuGetTicks (real : ℤ) : ℤ × State :=
  if !s.cpuTicksEnabled then (s.cpuTicksOffset, s)
  else
    let offset := if s.cpuTicksPrev > real then s.cpuTicksOffset + (s.cpuTicksPrev - real) else s.cpuTicksOffset
    (real + offset, { s with cpuTicksOffset := offset, cpuTicksPrev := real })

/-- `cpu_get_clock`, where `clock` is what `get_clock` returns. -/
def cpuGetClock (clock : ℤ) : ℤ := if !s.cpuTicksEnabled then s.cpuClockOffset else clock + s.cpuClockOffset

def cpuEnableTicks (real clock : ℤ) : State :=
  if !s.cpuTicksEnabled then
    { s with
      cpuTicksOffset := s.cpuTicksOffset - real
      cpuClockOffset := s.cpuClockOffset - clock
      cpuTicksEnabled := true }
  else s

def cpuDisableTicks (real clock : ℤ) : State :=
  if s.cpuTicksEnabled then
    let (ticks, s) := s.cpuGetTicks real
    { s with cpuTicksOffset := ticks, cpuClockOffset := s.cpuGetClock clock, cpuTicksEnabled := false }
  else s

end State

inductive Op where
  | get (real : ℤ)
  | enable (real clock : ℤ)
  | disable (real clock : ℤ)

/-- The state with what was read. -/
structure Machine where
  state : State
  /-- The host counter at the start of the counter, until it is read for the first time. -/
  since : Option ℤ
  /-- The values that `cpu_get_ticks` has returned, the last one first. -/
  reads : List ℤ

/-- What `cpu_get_ticks` returns. -/
def Machine.counter (m : Machine) (real : ℤ) : ℤ := (m.state.cpuGetTicks real).1

def step (m : Machine) : Op → Machine
  | .get real => ⟨(m.state.cpuGetTicks real).2, none, m.counter real :: m.reads⟩
  | .enable real clock =>
    ⟨m.state.cpuEnableTicks real clock, if m.state.cpuTicksEnabled then m.since else some real, m.reads⟩
  | .disable real clock =>
    ⟨m.state.cpuDisableTicks real clock, none, if m.state.cpuTicksEnabled then m.counter real :: m.reads else m.reads⟩

/-- A counter that is stopped at 0. -/
def Machine.init : Machine := ⟨⟨0, 0, 0, false⟩, none, []⟩

/-- The host counter, or its value at the last read, is not below that of the start. -/
def ReadOk (m : Machine) (real : ℤ) : Prop := ∀ h ∈ m.since, h ≤ max real m.state.cpuTicksPrev

/-- The host counter does not go back from the last read to a start, and from a start to the
first read after it. -/
def Ok (m : Machine) : Op → Prop
  | .get real => ReadOk m real
  | .enable real _ => m.state.cpuTicksEnabled = false → m.state.cpuTicksPrev ≤ real
  | .disable real _ => m.state.cpuTicksEnabled = true → ReadOk m real

/-! ### One step -/

section Step

variable {m : Machine} {real clock : ℤ}

theorem counter_of_enabled (h : m.state.cpuTicksEnabled = true) :
    m.counter real = max real m.state.cpuTicksPrev + m.state.cpuTicksOffset := by
  simp only [Machine.counter, State.cpuGetTicks, h, Bool.not_true, Bool.false_eq_true, if_false]
  split
  · rename_i hback
    rw [max_eq_right (le_of_lt hback)]
    omega
  · rename_i hback
    rw [max_eq_left (not_lt.1 hback)]

theorem counter_of_disabled (h : m.state.cpuTicksEnabled = false) : m.counter real = m.state.cpuTicksOffset := by
  simp [Machine.counter, State.cpuGetTicks, h]

/-- What the next read is at least. -/
def Machine.floor (m : Machine) : ℤ :=
  if m.state.cpuTicksEnabled then m.since.getD m.state.cpuTicksPrev + m.state.cpuTicksOffset else m.state.cpuTicksOffset

theorem floor_le_counter (hok : ReadOk m real) : m.floor ≤ m.counter real := by
  rw [Machine.floor]
  split
  · rename_i henabled
    rw [counter_of_enabled henabled]
    refine Int.add_le_add_right ?_ _
    cases hsince : m.since with
    | none => exact le_max_right _ _
    | some h => exact hok h hsince
  · rename_i hdisabled
    rw [counter_of_disabled (by simpa using hdisabled)]

/-- What holds in every state. -/
structure Inv (m : Machine) : Prop where
  sorted : m.reads.Pairwise (· ≥ ·)
  floor : ∀ v ∈ m.reads, v ≤ m.floor

theorem Inv.cons (h : Inv m) (hok : ReadOk m real) : (m.counter real :: m.reads).Pairwise (· ≥ ·) :=
  List.pairwise_cons.2 ⟨fun v hv => (h.floor v hv).trans (floor_le_counter hok), h.sorted⟩

theorem Inv.mem_cons (h : Inv m) (hok : ReadOk m real) {v : ℤ} (hv : v ∈ m.counter real :: m.reads) :
    v ≤ m.counter real := by
  rcases List.mem_cons.1 hv with rfl | hv
  · exact le_rfl
  · exact (h.floor v hv).trans (floor_le_counter hok)

theorem floor_get : (step m (.get real)).floor = m.counter real := by
  cases h : m.state.cpuTicksEnabled
  · simp [step, Machine.floor, Machine.counter, State.cpuGetTicks, h]
  · simp [step, Machine.floor, Machine.counter, State.cpuGetTicks, h]

theorem floor_enable (h : m.state.cpuTicksEnabled = false) : (step m (.enable real clock)).floor = m.floor := by
  simp [step, Machine.floor, State.cpuEnableTicks, h]

theorem floor_disable (h : m.state.cpuTicksEnabled = true) : (step m (.disable real clock)).floor = m.counter real := by
  simp [step, Machine.floor, Machine.counter, State.cpuDisableTicks, State.cpuGetTicks, h]

theorem step_enable (h : m.state.cpuTicksEnabled = true) : step m (.enable real clock) = m := by
  simp [step, State.cpuEnableTicks, h]

theorem Inv.step (h : Inv m) (op : Op) (hok : Ok m op) : Inv (step m op) := by
  cases op with
  | get real => exact ⟨h.cons hok, fun v hv => floor_get.symm ▸ h.mem_cons hok hv⟩
  | enable real clock =>
    cases henabled : m.state.cpuTicksEnabled with
    | true =>
      rw [step_enable henabled]
      exact h
    | false => exact ⟨h.sorted, fun v hv => (floor_enable henabled).symm ▸ h.floor v hv⟩
  | disable real clock =>
    cases henabled : m.state.cpuTicksEnabled with
    | true =>
      have hreads : (Ticks.step m (.disable real clock)).reads = m.counter real :: m.reads := by
        simp [Ticks.step, henabled]
      refine ⟨?_, fun v hv => ?_⟩
      · rw [hreads]
        exact h.cons (hok henabled)
      · rw [hreads] at hv
        rw [floor_disable henabled]
        exact h.mem_cons (hok henabled) hv
    | false =>
      have hsame : (Ticks.step m (.disable real clock)).state = m.state ∧ (Ticks.step m (.disable real clock)).reads = m.reads := by
        simp [Ticks.step, State.cpuDisableTicks, henabled]
      refine ⟨?_, fun v hv => ?_⟩
      · rw [hsame.2]
        exact h.sorted
      · rw [hsame.2] at hv
        rw [Machine.floor, hsame.1, if_neg (by simp [henabled])]
        have hv := h.floor v hv
        rwa [Machine.floor, if_neg (by simp [henabled])] at hv

theorem counter_enable (h : m.state.cpuTicksEnabled = false) (hok : m.state.cpuTicksPrev ≤ real) :
    (step m (.enable real clock)).counter real = m.counter real := by
  rw [counter_of_disabled h, counter_of_enabled (by simp [step, State.cpuEnableTicks, h])]
  simp only [step, State.cpuEnableTicks, h, Bool.not_false, if_true]
  rw [max_eq_left hok]
  omega

end Step

/-! ### While the counter is stopped -/

section Stopped

def Stopped (v : ℤ) (m : Machine) : Prop := m.state.cpuTicksEnabled = false ∧ m.state.cpuTicksOffset = v

theorem stopped_disable {m : Machine} (h : m.state.cpuTicksEnabled = true) (real clock : ℤ) :
    Stopped (m.counter real) (step m (.disable real clock)) := by
  simp [Stopped, step, Machine.counter, State.cpuDisableTicks, State.cpuGetTicks, h]

theorem Stopped.step {v : ℤ} {m : Machine} (h : Stopped v m) {op : Op} (hop : ∀ real clock, op ≠ .enable real clock) :
    Stopped v (step m op) := by
  cases op with
  | get real => simpa [Stopped, Ticks.step, State.cpuGetTicks, h.1] using h.2
  | enable real clock => exact absurd rfl (hop real clock)
  | disable real clock => simpa [Stopped, Ticks.step, State.cpuDisableTicks, h.1] using h.2

theorem Stopped.run {v : ℤ} (ops : List Op) (hops : ∀ op ∈ ops, ∀ real clock, op ≠ .enable real clock) :
    ∀ {m : Machine}, Stopped v m → Stopped v (ops.foldl Ticks.step m) := by
  induction ops with
  | nil => exact fun h => h
  | cons op ops ih =>
    intro m h
    exact ih (fun op' hop' => hops op' (List.mem_cons_of_mem op hop')) (h.step (hops op List.mem_cons_self))

end Stopped

/-! ### Runs -/

theorem inv_init : Inv Machine.init := ⟨List.Pairwise.nil, fun _ hv => absurd hv List.not_mem_nil⟩

def run (ops : List Op) : Machine := ops.foldl step Machine.init

theorem run_append (ops ops' : List Op) : run (ops ++ ops') = ops'.foldl step (run ops) := List.foldl_append

/-- In every run where the host counter does not go back around a start, the values that are read do not decrease,
and from a stop to the next start the counter stays where it was. -/
theorem ticks_never_back (ops : List Op) (hok : Meets step Ok Machine.init ops) :
    (∀ m ∈ states step Machine.init ops, m.reads.Pairwise (· ≥ ·)) ∧
      ∀ pre real clock mid post, ops = pre ++ .disable real clock :: (mid ++ post) →
        (run pre).state.cpuTicksEnabled = true → (∀ op ∈ mid, ∀ r c, op ≠ .enable r c) →
        (∀ r, (run (pre ++ .disable real clock :: mid)).counter r =
            (run pre).counter real) ∧
          ∀ r c rest, post = .enable r c :: rest →
            (run (pre ++ .disable real clock :: (mid ++ [.enable r c]))).counter r =
              (run pre).counter real := by
  refine ⟨fun m hm => ?_, fun pre real clock mid post hops henabled hmid => ?_⟩
  · exact (states_invariant (fun _ op h hop => h.step op hop) ops _ inv_init hok m hm).sorted
  have hstopped : Stopped ((run pre).counter real)
      (run (pre ++ .disable real clock :: mid)) := by
    rw [run_append, List.foldl_cons]
    exact Stopped.run mid hmid (stopped_disable henabled real clock)
  have hcounter : ∀ r, (run (pre ++ .disable real clock :: mid)).counter r =
      (run pre).counter real := fun r => by
    rw [counter_of_disabled hstopped.1, hstopped.2]
  refine ⟨hcounter, fun r c rest hpost => ?_⟩
  have hstart : Ok (run (pre ++ .disable real clock :: mid)) (.enable r c) := by
    rw [hops, hpost, ← List.cons_append, ← List.append_assoc, meets_append] at hok
    exact hok.2.1
  rw [← List.cons_append, ← List.append_assoc, run_append, List.foldl_cons, List.foldl_nil]
  exact (counter_enable hstopped.1 (hstart hstopped.1)).trans (hcounter r)

/-- A start at 100, a jump back after a read, a stop, and a start where the host counter has gone on. -/
def goodRun : List Op := [.enable 100 0, .get 150, .get 120, .disable 130 1, .enable 300 2, .get 310]

theorem ticks_never_back_goodRun : (run goodRun).reads = [70, 60, 50, 50] ∧
    (run goodRun).reads.Pairwise (· ≥ ·) := by
  refine ⟨rfl, (ticks_never_back goodRun ?_).1 _ (foldl_mem_states goodRun _)⟩
  simp [goodRun, Meets, Ok, ReadOk, step, Machine.init, State.cpuEnableTicks, State.cpuGetTicks, State.cpuDisableTicks]

/-- A host counter that goes back after a start takes the guest counter back, and one that goes back while it is
stopped lets it go on. -/
theorem start_not_read :
    (run [.get 0, .enable 1000 0, .get 500]).reads = [-500, 0] ∧
      (run [.enable 0 0, .disable 150 0]).counter 0 = 150 ∧
      (run [.enable 0 0, .disable 150 0, .enable 50 0]).counter 50 = 250 := ⟨rfl, rfl, rfl⟩

end Ar7Qemu.Vl.Ticks
