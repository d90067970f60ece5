import Ar7Qemu.Ar7.Watchdog
import Ar7Qemu.Vl.Timers
import Mathlib.Data.Fintype.Card

/-! The two timers of the AR7. A write to the control register arms the timer for its period
from now, and the callback of a cyclic timer arms it again from inside the run over the timer
list. The period is a product of the prescale field and the loaded value. Either may be zero, and
then the timer is due again at once. -/

namespace Ar7Qemu.Ar7

open Ar7Qemu.Lib Ar7Qemu.Vl.Timers

namespace Timer

/-! ### The registers -/

def timerControl : ℕ := 0
def timerLoad : ℕ := 4

def timerControlGo : Word := bit 0
def timerControlMode : Word := bit 1

/-- `BITS(5, 2)`. -/
def timerControlPrescale : Word := 0x3c

def timerControlPrescaleEnable : Word := bit 15

/-- `ar7_timer_t`, with the level of its interrupt line. -/
structure Ar7Timer where
  base : Regs
  interrupt : Bool
  cyclic : Bool
  time : BitVec 64
  prescale : BitVec 16

/-- A call of `qemu_mod_timer`: the virtual time, the registers of the timer and the expiry time. -/
structure Arming where
  now : VmTime
  base : Regs
  expire : BitVec 64

/-- The timers, the timer list, and the history of the armings of each timer, latest first. -/
structure Board where
  timer : Fin 2 → Ar7Timer
  list : State (Fin 2)
  armed : Fin 2 → List Arming

/-- Enough for a walk over the timer list, which holds each timer once. -/
def walk : ℕ := 3

/-! ### The functions -/

/-- The argument of `qemu_mod_timer` is the period from now. -/
def modTimer (now : VmTime) (i : Fin 2) (b : Board) : Option Board := do
  let t := b.timer i
  let expire := expiry now (t.prescale.setWidth 64 * t.time)
  let list ← qemuModTimer walk i expire.toInt b.list
  return { b with list, armed := Function.update b.armed i (⟨now, t.base, expire⟩ :: b.armed i) }

def delTimer (i : Fin 2) (b : Board) : Option Board := do
  let list ← qemuDelTimer walk i b.list
  return { b with list }

def Board.set (b : Board) (i : Fin 2) (t : Ar7Timer) : Board :=
  { b with timer := Function.update b.timer i t }

def timerCb (now : VmTime) (i : Fin 2) (b : Board) : Option Board :=
  let b := b.set i { b.timer i with interrupt := true }
  if (b.timer i).cyclic then modTimer now i b else some b

/-- The prescale divisor of a value of the control register. -/
def prescaleOf (val : Word) : BitVec 16 :=
  if val &&& timerControlPrescaleEnable ≠ 0 then ((val &&& timerControlPrescale) >>> 2).setWidth 16 else 1

def ar7TimerWrite (i : Fin 2) (now : VmTime) (addr : ℕ) (val : Word) (b : Board) : Option Board :=
  let b := b.set i { b.timer i with base := regWrite (b.timer i).base addr val }
  if addr = timerControl then
    let b := b.set i { b.timer i with
      cyclic := decide (val &&& timerControlMode ≠ 0)
      prescale := prescaleOf val }
    if val &&& timerControlGo ≠ 0 then modTimer now i b else delTimer i b
  else if addr = timerLoad then
    some (b.set i { b.timer i with time := val.setWidth 64 * BitVec.ofInt 64 ticksPerIoClock })
  else some b

/-- `qemu_run_timers` at a fixed time, with at most this many turns of its loop. -/
def runTimers : ℕ → VmTime → Board → Option Board
  | 0, _, _ => none
  | n + 1, now, b =>
    match runTimersTurn .virtual now.val b.list with
    | (none, list) => some { b with list }
    | (some i, list) => (timerCb now i { b with list }).bind (runTimers n now)

/-! ### Runs -/

/-- What the guest and the main loop do. -/
inductive Action where
  | write (i : Fin 2) (now : VmTime) (addr : ℕ) (val : Word)
  | run (now : VmTime)

/-- A run of the timers leads to a board when it ends. -/
def Step (b : Board) : Action → Board → Prop
  | .write i now addr val, b' => ar7TimerWrite i now addr val b = some b'
  | .run now, b' => ∃ n, runTimers n now b = some b'

def Board.zeroed : Board where
  timer := fun _ => ⟨fun _ => 0, false, false, 0, 0⟩
  list := (start fun _ => .virtual).timers
  armed := fun _ => []

/-- `prescale * load` ticks of the IO clock, as the registers stand. -/
def period (base : Regs) : ℕ :=
  (prescaleOf (base timerControl)).toNat * (base timerLoad).toNat * ticksPerIoClock.toNat

/-- One period from now. -/
def due (now : VmTime) (base : Regs) : BitVec 64 := expiry now (BitVec.ofNat 64 (period base))

/-- Every arming was for the period of the registers as they stood. -/
def ArmedForPeriod (b : Board) : Prop := ∀ i, ∀ q ∈ b.armed i, q.expire = due q.now q.base

/-- Every arming was for a time strictly later than its virtual time. -/
def ArmedLater (b : Board) : Prop := ∀ i, ∀ q ∈ b.armed i, (q.now.val : ℤ) < q.expire.toInt

/-- The action ends, and what it arms is armed for later. -/
def Progresses (b : Board) (a : Action) : Prop := (∃ b', Step b a b') ∧ ∀ b', Step b a b' → ArmedLater b'

/-- The period of the registers is not zero, and it ends before the clock does. -/
def Ahead (now : VmTime) (base : Regs) : Prop := 0 < period base ∧ now.val + period base < 2 ^ 63

/-- The timer is armed. -/
def Board.Pending (b : Board) (i : Fin 2) : Prop := qemuTimerPending walk i b.list = some true

/-- A write that starts a timer finds a period ahead of it, and so does each cyclic timer that a run
finds due. -/
def PeriodAhead (b : Board) : Action → Prop
  | .write i now addr val =>
    addr = timerControl → val &&& timerControlGo ≠ 0 → Ahead now (regWrite (b.timer i).base addr val)
  | .run now => ∀ i, b.Pending i → b.list.expireTime i ≤ now.val → (b.timer i).cyclic → Ahead now (b.timer i).base

/-- A timer that is armed expires one period of the present registers after it was armed. -/
def RunsForPeriod (b : Board) : Prop :=
  ∀ i, b.Pending i → ∀ q, (b.armed i).head? = some q → b.list.expireTime i = (due q.now (b.timer i).base).toInt

/-- The action leaves every armed timer with the period of the registers. -/
def KeepsPeriod (b : Board) (a : Action) : Prop := ∀ b', Step b a b' → RunsForPeriod b'

/-- No armed timer is loaded with another value, unless its prescale divisor is zero. -/
def NotReloaded (b : Board) : Action → Prop
  | .write i _ addr val => addr = timerLoad → b.Pending i →
    prescaleOf ((b.timer i).base timerControl) = 0 ∨ val = (b.timer i).base timerLoad
  | .run _ => True

/-! ### The period -/

theorem now_lt_expiry_iff (now : VmTime) (t : BitVec 64) :
    (now.val : ℤ) < (expiry now t).toInt ↔ 0 < t.toNat ∧ now.val + t.toNat < 2 ^ 63 := by
  have hnow := now.2
  have ht := t.isLt
  have hsum : (expiry now t).toNat = (now.val + t.toNat) % 2 ^ 64 := by
    rw [expiry, BitVec.toNat_add, BitVec.toNat_ofNat, Nat.mod_add_mod]
  rw [BitVec.toInt_eq_toNat_cond, hsum]
  split_ifs <;> omega

theorem expiry_injective {now : VmTime} {t t' : BitVec 64} (h : expiry now t = expiry now t') : t = t' :=
  add_left_cancel h

theorem ticks_toNat : ticksPerIoClock.toNat = 16 := rfl

theorem ticks_ofInt : BitVec.ofInt 64 ticksPerIoClock = 16 := rfl

theorem period_lt (base : Regs) : period base < 2 ^ 64 := by
  have hprescale := (prescaleOf (base timerControl)).isLt
  have hload := (base timerLoad).isLt
  have hmul : (prescaleOf (base timerControl)).toNat * (base timerLoad).toNat ≤ 2 ^ 16 * 2 ^ 32 :=
    Nat.mul_le_mul hprescale.le hload.le
  rw [period, ticks_toNat]
  omega

theorem toNat_period (base : Regs) : (BitVec.ofNat 64 (period base)).toNat = period base := by
  rw [BitVec.toNat_ofNat, Nat.mod_eq_of_lt (period_lt base)]

theorem product_eq (base : Regs) :
    (prescaleOf (base timerControl)).setWidth 64 * ((base timerLoad).setWidth 64 * BitVec.ofInt 64 ticksPerIoClock) =
      BitVec.ofNat 64 (period base) := by
  apply BitVec.eq_of_toNat_eq
  rw [toNat_period, ticks_ofInt, BitVec.toNat_mul, BitVec.toNat_mul, BitVec.toNat_setWidth_of_le (by decide),
    BitVec.toNat_setWidth_of_le (by decide), Nat.mul_mod_mod, ← Nat.mul_assoc]
  exact Nat.mod_eq_of_lt (period_lt base)

theorem later_iff (now : VmTime) (base : Regs) : (now.val : ℤ) < (due now base).toInt ↔ Ahead now base := by
  rw [due, now_lt_expiry_iff, toNat_period]
  rfl

theorem period_eq_iff (now : VmTime) (base base' : Regs) :
    (due now base).toInt = (due now base').toInt ↔ period base = period base' := by
  constructor
  · intro h
    have hnat := congrArg BitVec.toNat (expiry_injective (BitVec.eq_of_toInt_eq h))
    rwa [toNat_period, toNat_period] at hnat
  · exact fun h => by rw [due, due, h]

/-! ### What each function keeps -/

/-- The timer list holds the pending timers. What is computed at a write agrees with the registers,
and a pending timer was armed last for the time that it is pending for. -/
structure Inv (b : Board) (P : Fin 2 → Option (ℤ × ℕ)) : Prop where
  lists : ∃ L, Lists b.list P L
  clock : ∀ i, b.list.clock i = .virtual
  before : ∃ N, ∀ i t n, P i = some (t, n) → n < N
  time : ∀ i, (b.timer i).time = ((b.timer i).base timerLoad).setWidth 64 * BitVec.ofInt 64 ticksPerIoClock
  prescale : ∀ i, (P i).isSome → (b.timer i).prescale = prescaleOf ((b.timer i).base timerControl)
  shot : ∀ i t n, P i = some (t, n) → ∃ q, (b.armed i).head? = some q ∧ t = q.expire.toInt
  right : ArmedForPeriod b

variable {b : Board} {P : Fin 2 → Option (ℤ × ℕ)} {now : VmTime} {i : Fin 2}

theorem zeroed_inv : Inv Board.zeroed fun _ => none where
  lists := ⟨fun _ => [], (start_inv fun _ => .virtual).lists⟩
  clock := fun _ => rfl
  before := ⟨0, fun _ _ _ h => by cases h⟩
  time := fun _ => rfl
  prescale := fun _ h => by cases h
  shot := fun _ _ _ h => by cases h
  right := fun _ _ h => by cases h

theorem length_lt_walk {L : ClockType → List (Fin 2)} (h : Lists b.list P L) (c : ClockType) : (L c).length < walk :=
  Nat.lt_succ_of_le ((h.nodup c).length_le_card)

theorem Inv.pending (h : Inv b P) (i : Fin 2) : b.Pending i ↔ (P i).isSome := by
  obtain ⟨L, hL⟩ := h.lists
  rw [Board.Pending, hL.timerPending i (length_lt_walk hL _), Option.some.injEq]

theorem Inv.expireTime (h : Inv b P) {t : ℤ} {n : ℕ} (hi : P i = some (t, n)) : b.list.expireTime i = t := by
  obtain ⟨L, hL⟩ := h.lists
  exact hL.expire i t n hi

/-- The fields of a timer change. -/
theorem Inv.set (h : Inv b P) {t : Ar7Timer} (htime : t.time = (t.base timerLoad).setWidth 64 * BitVec.ofInt 64 ticksPerIoClock)
    (hprescale : (P i).isSome → t.prescale = prescaleOf (t.base timerControl)) : Inv (b.set i t) P where
  lists := h.lists
  clock := h.clock
  before := h.before
  time := fun j => by
    by_cases hj : j = i
    · subst hj
      simpa [Board.set] using htime
    · simpa [Board.set, hj] using h.time j
  prescale := fun j hsome => by
    by_cases hj : j = i
    · subst hj
      simpa [Board.set] using hprescale hsome
    · simpa [Board.set, hj] using h.prescale j hsome
  shot := h.shot
  right := h.right

variable (now) in
/-- A timer whose divisor is the one of its control register is armed for its period. -/
theorem Inv.modTimer (h : Inv b P) (hprescale : (b.timer i).prescale = prescaleOf ((b.timer i).base timerControl)) :
    ∃ b' N, modTimer now i b = some b' ∧ b'.timer = b.timer ∧
      b'.armed = Function.update b.armed i
        (⟨now, (b.timer i).base, due now (b.timer i).base⟩ :: b.armed i) ∧
      Inv b' (Function.update P i (some ((due now (b.timer i).base).toInt, N))) := by
  obtain ⟨L, hL⟩ := h.lists
  obtain ⟨N, hN⟩ := h.before
  have hdue : expiry now ((b.timer i).prescale.setWidth 64 * (b.timer i).time) = due now (b.timer i).base := by
    rw [hprescale, h.time, product_eq, due]
  obtain ⟨list, L', hmod, hclock, hlists, -⟩ :=
    qemuModTimer_keeps hL (due now (b.timer i).base).toInt hN (length_lt_walk hL _)
  refine ⟨{ b with
      list
      armed := Function.update b.armed i (⟨now, (b.timer i).base, due now (b.timer i).base⟩ :: b.armed i) },
    N, ?_, rfl, rfl, ?_⟩
  · rw [Timer.modTimer, hdue, hmod]
    rfl
  · refine ⟨⟨L', hlists⟩, fun j => (congrFun hclock j).trans (h.clock j), ⟨N + 1, fun j t n hj => ?_⟩, h.time,
      fun j hj => ?_, fun j t n hj => ?_, fun j q hq => ?_⟩
    · by_cases hji : j = i
      · subst hji
        rw [Function.update_self, Option.some.injEq, Prod.mk.injEq] at hj
        omega
      · rw [Function.update_of_ne hji] at hj
        exact Nat.lt_succ_of_lt (hN j t n hj)
    · by_cases hji : j = i
      · subst hji
        exact hprescale
      · rw [Function.update_of_ne hji] at hj
        exact h.prescale j hj
    · by_cases hji : j = i
      · subst hji
        rw [Function.update_self, Option.some.injEq, Prod.mk.injEq] at hj
        refine ⟨⟨now, (b.timer j).base, due now (b.timer j).base⟩, ?_, hj.1.symm⟩
        simp
      · rw [Function.update_of_ne hji] at hj
        simpa [hji] using h.shot j t n hj
    · dsimp only at hq
      by_cases hji : j = i
      · subst hji
        rw [Function.update_self] at hq
        rcases List.mem_cons.1 hq with rfl | hq
        · rfl
        · exact h.right j q hq
      · rw [Function.update_of_ne hji] at hq
        exact h.right j q hq

theorem Inv.disarm (h : Inv b P) {list : State (Fin 2)} {L : ClockType → List (Fin 2)} (hclock : list.clock = b.list.clock)
    (hL : Lists list (Function.update P i none) L) : Inv { b with list } (Function.update P i none) := by
  have hsub : ∀ j v, Function.update P i none j = some v → P j = some v := by
    intro j v hj
    by_cases hji : j = i
    · rw [hji, Function.update_self] at hj
      cases hj
    · rwa [Function.update_of_ne hji] at hj
  obtain ⟨N, hN⟩ := h.before
  refine ⟨⟨L, hL⟩, fun j => (congrFun hclock j).trans (h.clock j), ⟨N, fun j t n hj => hN j t n (hsub j _ hj)⟩, h.time,
    fun j hj => ?_, fun j t n hj => h.shot j t n (hsub j _ hj), h.right⟩
  obtain ⟨v, hv⟩ := Option.isSome_iff_exists.1 hj
  exact h.prescale j (by rw [hsub j v hv]; rfl)

theorem Inv.delTimer (h : Inv b P) (i : Fin 2) : ∃ b', delTimer i b = some b' ∧ b'.timer = b.timer ∧ b'.armed = b.armed ∧
    Inv b' (Function.update P i none) := by
  obtain ⟨L, hL⟩ := h.lists
  obtain ⟨list, hdel, hclock, hlists⟩ := qemuDelTimer_keeps hL (length_lt_walk hL (b.list.clock i))
  exact ⟨{ b with list }, by rw [Timer.delTimer, hdel]; rfl, rfl, rfl, h.disarm hclock hlists⟩

/-! ### A write -/

section Write

variable (now) (val : Word)

def stored (i : Fin 2) (addr : ℕ) (val : Word) (b : Board) : Ar7Timer :=
  { b.timer i with base := regWrite (b.timer i).base addr val }

def controlled (i : Fin 2) (val : Word) (b : Board) : Ar7Timer :=
  { stored i timerControl val b with
    cyclic := decide (val &&& timerControlMode ≠ 0)
    prescale := prescaleOf val }

theorem set_set (b : Board) (i : Fin 2) (t t' : Ar7Timer) : (b.set i t).set i t' = b.set i t' := by
  simp [Board.set]

@[simp] theorem set_timer_self (b : Board) (i : Fin 2) (t : Ar7Timer) : (b.set i t).timer i = t :=
  Function.update_self _ _ _

theorem set_timer_of_ne (b : Board) {i j : Fin 2} (h : j ≠ i) (t : Ar7Timer) : (b.set i t).timer j = b.timer j :=
  Function.update_of_ne h _ _

theorem write_control : ar7TimerWrite i now timerControl val b =
    if val &&& timerControlGo ≠ 0 then modTimer now i (b.set i (controlled i val b))
    else delTimer i (b.set i (controlled i val b)) := by
  rw [ar7TimerWrite]
  dsimp only
  rw [if_pos rfl, set_set, set_timer_self]
  rfl

theorem write_load : ar7TimerWrite i now timerLoad val b =
    some (b.set i { stored i timerLoad val b with time := val.setWidth 64 * BitVec.ofInt 64 ticksPerIoClock }) := by
  rw [ar7TimerWrite]
  dsimp only
  rw [if_neg (by decide), if_pos rfl, set_set, set_timer_self]
  rfl

theorem write_other {addr : ℕ} (hcontrol : addr ≠ timerControl) (hload : addr ≠ timerLoad) :
    ar7TimerWrite i now addr val b = some (b.set i (stored i addr val b)) := by
  rw [ar7TimerWrite]
  dsimp only
  rw [if_neg hcontrol, if_neg hload]
  rfl

theorem Inv.controlled (h : Inv b P) : Inv (b.set i (controlled i val b)) P := by
  refine h.set ?_ fun _ => ?_
  · exact h.time i
  · rfl

theorem Inv.loaded (h : Inv b P) : Inv (b.set i { stored i timerLoad val b with
    time := val.setWidth 64 * BitVec.ofInt 64 ticksPerIoClock }) P := by
  refine h.set ?_ fun hsome => ?_
  · rfl
  · exact h.prescale i hsome

theorem Inv.stored (h : Inv b P) {addr : ℕ} (hcontrol : addr ≠ timerControl) (hload : addr ≠ timerLoad) :
    Inv (b.set i (stored i addr val b)) P := by
  refine h.set ?_ fun hsome => ?_
  · show (b.timer i).time = (regWrite (b.timer i).base addr val timerLoad).setWidth 64 * _
    rw [regWrite, Function.update_of_ne hload.symm]
    exact h.time i
  · show (b.timer i).prescale = prescaleOf (regWrite (b.timer i).base addr val timerControl)
    rw [regWrite, Function.update_of_ne hcontrol.symm]
    exact h.prescale i hsome

theorem Inv.go (h : Inv b P) (hgo : val &&& timerControlGo ≠ 0) : ∃ b' N,
    ar7TimerWrite i now timerControl val b = some b' ∧ b'.timer = Function.update b.timer i (Timer.controlled i val b) ∧
      b'.armed = Function.update b.armed i (⟨now, regWrite (b.timer i).base timerControl val,
        due now (regWrite (b.timer i).base timerControl val)⟩ :: b.armed i) ∧
      Inv b' (Function.update P i (some ((due now (regWrite (b.timer i).base timerControl val)).toInt, N))) := by
  have hset := (h.controlled val (i := i)).modTimer now (i := i) (by rw [set_timer_self]; rfl)
  rw [set_timer_self] at hset
  rw [write_control, if_pos hgo]
  exact hset

theorem Inv.stop (h : Inv b P) (hgo : ¬ val &&& timerControlGo ≠ 0) : ∃ b',
    ar7TimerWrite i now timerControl val b = some b' ∧ b'.timer = Function.update b.timer i (Timer.controlled i val b) ∧
      b'.armed = b.armed ∧ Inv b' (Function.update P i none) := by
  rw [write_control, if_neg hgo]
  exact (h.controlled val (i := i)).delTimer i

end Write

/-! ### A turn of a run -/

/-- What a turn that fires a timer does: the timer is armed again when it is cyclic. -/
structure Fired (now : VmTime) (i : Fin 2) (b : Board) (P : Fin 2 → Option (ℤ × ℕ)) (b' : Board)
    (P' : Fin 2 → Option (ℤ × ℕ)) : Prop where
  due : ∃ t n, P i = some (t, n) ∧ t ≤ now.val
  base : ∀ j, (b'.timer j).base = (b.timer j).base
  cyclic : ∀ j, (b'.timer j).cyclic = (b.timer j).cyclic
  rest : ∀ j ≠ i, P' j = P j ∧ b'.armed j = b.armed j
  again : (b.timer i).cyclic = true →
    (∃ N, P' i = some ((Timer.due now (b.timer i).base).toInt, N)) ∧
      b'.armed i = ⟨now, (b.timer i).base, Timer.due now (b.timer i).base⟩ :: b.armed i
  once : (b.timer i).cyclic = false → P' i = none ∧ b'.armed i = b.armed i
  inv : Inv b' P'

def raised (i : Fin 2) (b : Board) : Ar7Timer := { b.timer i with interrupt := true }

theorem timerCb_eq (now : VmTime) (i : Fin 2) (b : Board) : timerCb now i b =
    if (b.timer i).cyclic then modTimer now i (b.set i (raised i b)) else some (b.set i (raised i b)) := by
  rw [timerCb]
  dsimp only
  rw [set_timer_self]
  rfl

theorem base_raised (b : Board) (i j : Fin 2) : ((b.set i (raised i b)).timer j).base = (b.timer j).base := by
  by_cases hj : j = i
  · rw [hj, set_timer_self, raised]
  · rw [set_timer_of_ne _ hj]

theorem cyclic_raised (b : Board) (i j : Fin 2) : ((b.set i (raised i b)).timer j).cyclic = (b.timer j).cyclic := by
  by_cases hj : j = i
  · rw [hj, set_timer_self, raised]
  · rw [set_timer_of_ne _ hj]

theorem timerCb_fired (h : Inv b P) {list : State (Fin 2)} (hdue : ∃ t n, P i = some (t, n) ∧ t ≤ now.val)
    (hfired : Inv { b with list } (Function.update P i none)) :
    ∃ b' P', timerCb now i { b with list } = some b' ∧ Fired now i b P b' P' := by
  obtain ⟨t, n, hP, -⟩ := id hdue
  have hprescale := h.prescale i (by rw [hP]; rfl)
  have hraised : Inv (Board.set { b with list } i (raised i { b with list })) (Function.update P i none) :=
    hfired.set (h.time i) fun _ => hprescale
  rw [timerCb_eq]
  by_cases hc : (b.timer i).cyclic = true
  · obtain ⟨b', N, hmod, htimer, harmed, hinv⟩ := hraised.modTimer now (i := i)
      (by rw [set_timer_self]; exact hprescale)
    rw [base_raised] at harmed hinv
    rw [Function.update_idem] at hinv
    refine ⟨b', _, by rw [if_pos hc, hmod], hdue, fun j => by rw [htimer, base_raised],
      fun j => by rw [htimer, cyclic_raised], fun j hj => ⟨Function.update_of_ne hj _ _, ?_⟩,
      fun _ => ⟨⟨N, Function.update_self _ _ _⟩, ?_⟩, fun hf => ?_, hinv⟩
    · rw [harmed, Function.update_of_ne hj]
      rfl
    · rw [harmed, Function.update_self]
      rfl
    · rw [hc] at hf
      cases hf
  · exact ⟨_, _, by rw [if_neg hc], hdue, base_raised { b with list } i, cyclic_raised { b with list } i,
      fun j hj => ⟨Function.update_of_ne hj _ _, rfl⟩, fun ht => absurd ht hc,
      fun _ => ⟨Function.update_self _ _ _, rfl⟩, hraised⟩

/-- A turn fires a timer, or it ends the run because no timer is due. -/
theorem turn_cases (h : Inv b P) (now : VmTime) :
    ((∀ n, runTimers (n + 1) now b = some b) ∧ ∀ i t n, P i = some (t, n) → now.val < t) ∨
      ∃ i b' P', (∀ n, runTimers (n + 1) now b = runTimers n now b') ∧ Fired now i b P b' P' := by
  obtain ⟨L, hL⟩ := h.lists
  cases hturn : runTimersTurn .virtual now.val b.list with
  | mk fired list =>
    cases fired with
    | none =>
      obtain ⟨hsame, hdue⟩ := hL.turn_end (congrArg Prod.fst hturn)
      rw [hturn] at hsame
      dsimp only at hsame
      refine Or.inl ⟨fun n => ?_, fun i t n hi => hdue i (h.clock i) t n hi⟩
      rw [runTimers, hturn, hsame]
    | some i =>
      obtain ⟨-, hdue, -, hclock, hlists⟩ := hL.turn_fire (congrArg Prod.fst hturn)
      rw [hturn] at hclock hlists
      obtain ⟨b', P', hcb, hfired⟩ := timerCb_fired h hdue (h.disarm hclock hlists)
      refine Or.inr ⟨i, b', P', fun n => ?_, hfired⟩
      rw [runTimers, hturn]
      dsimp only
      rw [hcb]
      rfl

/-! ### A run -/

/-- What every turn that fires a timer keeps holds at the end of the run, where no timer is due. -/
theorem run_invariant {Q : Board → (Fin 2 → Option (ℤ × ℕ)) → Prop}
    (keep : ∀ {b P i b' P'}, Inv b P → Q b P → Fired now i b P b' P' → Q b' P') {b' : Board} (n : ℕ) :
    ∀ {b P}, Inv b P → Q b P → runTimers n now b = some b' →
      ∃ P', Inv b' P' ∧ Q b' P' ∧ ∀ i t n, P' i = some (t, n) → now.val < t := by
  induction n with
  | zero =>
    intro b P _ _ hrun
    cases hrun
  | succ n ih =>
    intro b P h hQ hrun
    rcases turn_cases h now with ⟨hend, hdue⟩ | ⟨i, b₁, P₁, hturn, hfired⟩
    · rw [hend] at hrun
      cases hrun
      exact ⟨P, h, hQ, hdue⟩
    · rw [hturn] at hrun
      exact ih hfired.inv (keep h hQ hfired) hrun

/-- Each cyclic timer that is due has a period ahead of it. -/
def DueAhead (now : VmTime) (b : Board) (P : Fin 2 → Option (ℤ × ℕ)) : Prop :=
  ∀ i t n, P i = some (t, n) → t ≤ now.val → (b.timer i).cyclic = true → Ahead now (b.timer i).base

theorem DueAhead.not_due {b' : Board} {P' : Fin 2 → Option (ℤ × ℕ)} (h : DueAhead now b P)
    (hfired : Fired now i b P b' P') (t : ℤ) (n : ℕ) (hi : P' i = some (t, n)) : now.val < t := by
  obtain ⟨t₀, n₀, hP, hle⟩ := hfired.due
  cases hc : (b.timer i).cyclic with
  | true =>
    obtain ⟨⟨N, hN⟩, -⟩ := hfired.again hc
    rw [hN, Option.some.injEq, Prod.mk.injEq] at hi
    rw [← hi.1]
    exact (later_iff now _).2 (h i t₀ n₀ hP hle hc)
  | false =>
    rw [(hfired.once hc).1] at hi
    cases hi

theorem DueAhead.fired {b' : Board} {P' : Fin 2 → Option (ℤ × ℕ)} (h : DueAhead now b P)
    (hfired : Fired now i b P b' P') : DueAhead now b' P' := by
  intro j t n hj hle hc
  by_cases hji : j = i
  · subst hji
    have hlt := h.not_due hfired t n hj
    omega
  · rw [(hfired.rest j hji).1] at hj
    rw [hfired.cyclic] at hc
    rw [hfired.base]
    exact h j t n hj hle hc

open Classical in
noncomputable def dueSet (now : VmTime) (P : Fin 2 → Option (ℤ × ℕ)) : Finset (Fin 2) :=
  Finset.univ.filter fun i => ∃ t n, P i = some (t, n) ∧ t ≤ now.val

theorem mem_dueSet (j : Fin 2) : j ∈ dueSet now P ↔ ∃ t n, P j = some (t, n) ∧ t ≤ now.val := by
  simp [dueSet]

theorem dueSet_ssubset {b' : Board} {P' : Fin 2 → Option (ℤ × ℕ)} (h : DueAhead now b P)
    (hfired : Fired now i b P b' P') : dueSet now P' ⊂ dueSet now P := by
  refine (Finset.ssubset_iff_of_subset fun j hj => ?_).2 ⟨i, (mem_dueSet i).2 hfired.due, fun hi => ?_⟩
  · obtain ⟨t, n, hP, hle⟩ := (mem_dueSet j).1 hj
    by_cases hji : j = i
    · exact hji ▸ (mem_dueSet i).2 hfired.due
    · rw [(hfired.rest j hji).1] at hP
      exact (mem_dueSet j).2 ⟨t, n, hP, hle⟩
  · obtain ⟨t, n, hP, hle⟩ := (mem_dueSet i).1 hi
    have hlt := h.not_due hfired t n hP
    omega

theorem run_ends (h : Inv b P) (hahead : DueAhead now b P) : ∃ n b', runTimers n now b = some b' := by
  induction hk : (dueSet now P).card using Nat.strong_induction_on generalizing b P with
  | _ k ih =>
    rcases turn_cases h now with ⟨hend, -⟩ | ⟨i, b₁, P₁, hturn, hfired⟩
    · exact ⟨1, b, hend 0⟩
    · obtain ⟨n, b', hrun⟩ := ih _ (hk ▸ Finset.card_lt_card (dueSet_ssubset hahead hfired)) hfired.inv
        (hahead.fired hfired) rfl
      exact ⟨n + 1, b', (hturn n).trans hrun⟩

/-- And then everything that it arms is armed for later. -/
theorem run_later (h : Inv b P) (hahead : DueAhead now b P) (hlater : ArmedLater b) {n : ℕ} {b' : Board}
    (hrun : runTimers n now b = some b') : ArmedLater b' := by
  obtain ⟨-, -, ⟨-, hlater'⟩, -⟩ := run_invariant (Q := fun b P => DueAhead now b P ∧ ArmedLater b)
    (fun {b P i b' P'} _ hQ hfired => by
      refine ⟨hQ.1.fired hfired, fun j q hq => ?_⟩
      by_cases hji : j = i
      · subst hji
        cases hc : (b.timer j).cyclic with
        | true =>
          obtain ⟨t, n, hP, hle⟩ := hfired.due
          rw [(hfired.again hc).2] at hq
          rcases List.mem_cons.1 hq with rfl | hq
          · exact (later_iff now _).2 (hQ.1 j t n hP hle hc)
          · exact hQ.2 j q hq
        | false =>
          rw [(hfired.once hc).2] at hq
          exact hQ.2 j q hq
      · rw [(hfired.rest j hji).2] at hq
        exact hQ.2 j q hq) n h ⟨hahead, hlater⟩ hrun
  exact hlater'

/-- A run that ends has armed each cyclic timer that it found due. -/
theorem run_armed (h : Inv b P) {n m : ℕ} {t : ℤ} {b' : Board} (hrun : runTimers n now b = some b')
    (hi : P i = some (t, m)) (hle : t ≤ now.val) (hc : (b.timer i).cyclic = true) :
    ∃ q ∈ b'.armed i, q.now = now ∧ q.expire = due now (b.timer i).base := by
  obtain ⟨P', -, ⟨-, -, hfinal⟩, hnone⟩ := run_invariant
    (Q := fun b₁ P₁ => (∀ j, (b₁.timer j).base = (b.timer j).base) ∧ (∀ j, (b₁.timer j).cyclic = (b.timer j).cyclic) ∧
      (P₁ i = P i ∨ ∃ q ∈ b₁.armed i, q.now = now ∧ q.expire = due now (b.timer i).base))
    (fun {b₁ P₁ j b₂ P₂} _ hQ hfired => by
      obtain ⟨hbase, hcyclic, hor⟩ := hQ
      refine ⟨fun j => (hfired.base j).trans (hbase j), fun j => (hfired.cyclic j).trans (hcyclic j), ?_⟩
      by_cases hij : i = j
      · subst hij
        refine Or.inr ⟨⟨now, (b₁.timer i).base, due now (b₁.timer i).base⟩, ?_, rfl, ?_⟩
        · rw [(hfired.again ((hcyclic i).trans hc)).2]
          exact List.mem_cons_self
        · exact congrArg (due now) (hbase i)
      · rw [(hfired.rest i hij).1, (hfired.rest i hij).2]
        exact hor) n h ⟨fun _ => rfl, fun _ => rfl, Or.inl rfl⟩ hrun
  rcases hfinal with hsame | hq
  · have hlt := hnone i t m (hsame.trans hi)
    omega
  · exact hq

/-- A run never ends when it finds a cyclic timer due that has no period ahead of it. -/
theorem run_never_ends (h : Inv b P) {m : ℕ} {t : ℤ} (hi : P i = some (t, m)) (hle : t ≤ now.val)
    (hc : (b.timer i).cyclic = true) (hstuck : ¬ Ahead now (b.timer i).base) (n : ℕ) : runTimers n now b = none := by
  rw [Option.eq_none_iff_forall_ne_some]
  intro b' hrun
  obtain ⟨P', -, ⟨-, -, t', m', hi', hle'⟩, hnone⟩ := run_invariant
    (Q := fun b₁ P₁ => (∀ j, (b₁.timer j).base = (b.timer j).base) ∧ (∀ j, (b₁.timer j).cyclic = (b.timer j).cyclic) ∧
      ∃ t m, P₁ i = some (t, m) ∧ t ≤ now.val)
    (fun {b₁ P₁ j b₂ P₂} _ hQ hfired => by
      obtain ⟨hbase, hcyclic, hdue⟩ := hQ
      refine ⟨fun j => (hfired.base j).trans (hbase j), fun j => (hfired.cyclic j).trans (hcyclic j), ?_⟩
      by_cases hij : i = j
      · subst hij
        obtain ⟨⟨N, hN⟩, -⟩ := hfired.again ((hcyclic i).trans hc)
        refine ⟨_, N, hN, ?_⟩
        rw [hbase, ← not_lt, later_iff]
        exact hstuck
      · rw [(hfired.rest i hij).1]
        exact hdue) n h ⟨fun _ => rfl, fun _ => rfl, t, m, hi, hle⟩ hrun
  have hlt := hnone i t' m' hi'
  omega

/-! ### Programs of writes and runs -/

theorem step_inv {a : Action} {b' : Board} (h : Inv b P) (hstep : Step b a b') : ∃ P', Inv b' P' := by
  cases a with
  | write i now addr val =>
    have hw : ar7TimerWrite i now addr val b = some b' := hstep
    by_cases hcontrol : addr = timerControl
    · subst hcontrol
      by_cases hgo : val &&& timerControlGo ≠ 0
      · obtain ⟨b₁, N, h₁, -, -, hinv⟩ := h.go now val hgo (i := i)
        cases h₁.symm.trans hw
        exact ⟨_, hinv⟩
      · obtain ⟨b₁, h₁, -, -, hinv⟩ := h.stop now val hgo (i := i)
        cases h₁.symm.trans hw
        exact ⟨_, hinv⟩
    · by_cases hload : addr = timerLoad
      · subst hload
        cases (write_load now val).symm.trans hw
        exact ⟨P, h.loaded val⟩
      · cases (write_other now val hcontrol hload).symm.trans hw
        exact ⟨P, h.stored val hcontrol hload⟩
  | run now =>
    obtain ⟨n, hrun⟩ := hstep
    obtain ⟨P', hinv, -⟩ := run_invariant (Q := fun _ _ => True) (fun _ _ _ => trivial) n h trivial hrun
    exact ⟨P', hinv⟩

theorem dueAhead_iff (h : Inv b P) (now : VmTime) : DueAhead now b P ↔ PeriodAhead b (.run now) := by
  constructor
  · intro hahead i hpending hle hc
    obtain ⟨⟨t, n⟩, hP⟩ := Option.isSome_iff_exists.1 ((h.pending i).1 hpending)
    rw [h.expireTime hP] at hle
    exact hahead i t n hP hle hc
  · intro hahead i t n hP hle hc
    refine hahead i ((h.pending i).2 (by rw [hP]; rfl)) ?_ hc
    rwa [h.expireTime hP]

theorem progresses_iff (h : Inv b P) (hlater : ArmedLater b) (a : Action) : Progresses b a ↔ PeriodAhead b a := by
  cases a with
  | write i now addr val =>
    by_cases hcontrol : addr = timerControl
    · subst hcontrol
      by_cases hgo : val &&& timerControlGo ≠ 0
      · obtain ⟨b', N, hw, -, harmed, -⟩ := h.go now val hgo (i := i)
        constructor
        · rintro ⟨-, hright⟩ - -
          have hq := hright b' hw i _ (by rw [harmed, Function.update_self]; exact List.mem_cons_self)
          exact (later_iff now _).1 hq
        · intro hahead
          refine ⟨⟨b', hw⟩, fun b₁ h₁ j q hq => ?_⟩
          cases hw.symm.trans h₁
          rw [harmed] at hq
          by_cases hji : j = i
          · subst hji
            rw [Function.update_self] at hq
            rcases List.mem_cons.1 hq with rfl | hq
            · exact (later_iff now _).2 (hahead rfl hgo)
            · exact hlater j q hq
          · rw [Function.update_of_ne hji] at hq
            exact hlater j q hq
      · obtain ⟨b', hw, -, harmed, -⟩ := h.stop now val hgo (i := i)
        refine iff_of_true ⟨⟨b', hw⟩, fun b₁ h₁ j q hq => ?_⟩ fun _ h => absurd h hgo
        cases hw.symm.trans h₁
        rw [harmed] at hq
        exact hlater j q hq
    · refine iff_of_true ?_ fun h => absurd h hcontrol
      by_cases hload : addr = timerLoad
      · subst hload
        refine ⟨⟨_, write_load now val⟩, fun b₁ h₁ => ?_⟩
        cases (write_load now val).symm.trans h₁
        exact hlater
      · refine ⟨⟨_, write_other now val hcontrol hload⟩, fun b₁ h₁ => ?_⟩
        cases (write_other now val hcontrol hload).symm.trans h₁
        exact hlater
  | run now =>
    rw [← dueAhead_iff h now]
    constructor
    · rintro ⟨⟨b', n, hrun⟩, hright⟩ i t m hP hle hc
      obtain ⟨q, hq, hnow, hexpire⟩ := run_armed h hrun hP hle hc
      have hlt := hright b' ⟨n, hrun⟩ i q hq
      rw [hnow, hexpire] at hlt
      exact (later_iff now _).1 hlt
    · intro hahead
      obtain ⟨n, b', hrun⟩ := run_ends h hahead
      refine ⟨⟨b', n, hrun⟩, ?_⟩
      rintro b₁ ⟨n₁, h₁⟩
      exact run_later h hahead hlater h₁

/-- The last arming of each pending timer was for the period of the present registers. -/
def SamePeriod (b : Board) (P : Fin 2 → Option (ℤ × ℕ)) : Prop :=
  ∀ i, (P i).isSome → ∀ q, (b.armed i).head? = some q → period q.base = period (b.timer i).base

theorem runsForPeriod_iff (h : Inv b P) : RunsForPeriod b ↔ SamePeriod b P := by
  have hshot : ∀ i t n, P i = some (t, n) → ∀ q, (b.armed i).head? = some q →
      (b.list.expireTime i = (due q.now (b.timer i).base).toInt ↔ period q.base = period (b.timer i).base) := by
    intro i t n hP q hq
    obtain ⟨q', hq', ht⟩ := h.shot i t n hP
    cases hq.symm.trans hq'
    rw [h.expireTime hP, ht, h.right i q (List.mem_of_head? hq), period_eq_iff]
  constructor
  · intro hruns i hsome q hq
    obtain ⟨⟨t, n⟩, hP⟩ := Option.isSome_iff_exists.1 hsome
    exact (hshot i t n hP q hq).1 (hruns i ((h.pending i).2 hsome) q hq)
  · intro hsame i hpending q hq
    have hsome := (h.pending i).1 hpending
    obtain ⟨⟨t, n⟩, hP⟩ := Option.isSome_iff_exists.1 hsome
    exact (hshot i t n hP q hq).2 (hsame i hsome q hq)

theorem run_samePeriod (h : Inv b P) (hsame : SamePeriod b P) {n : ℕ} {b' : Board} (hrun : runTimers n now b = some b') :
    RunsForPeriod b' := by
  obtain ⟨P', hinv, hsame', -⟩ := run_invariant (Q := SamePeriod)
    (fun {b P i b' P'} _ hQ hfired j hsome q hq => by
      rw [hfired.base]
      by_cases hji : j = i
      · subst hji
        cases hc : (b.timer j).cyclic with
        | true =>
          rw [(hfired.again hc).2] at hq
          cases hq
          rfl
        | false =>
          rw [(hfired.once hc).1] at hsome
          cases hsome
      · rw [(hfired.rest j hji).1] at hsome
        rw [(hfired.rest j hji).2] at hq
        exact hQ j hsome q hq) n h hsame hrun
  exact (runsForPeriod_iff hinv).2 hsame'

theorem period_regWrite_of_ne (base : Regs) (val : Word) {addr : ℕ} (hcontrol : addr ≠ timerControl)
    (hload : addr ≠ timerLoad) : period (regWrite base addr val) = period base := by
  rw [period, period, regWrite, Function.update_of_ne hcontrol.symm, Function.update_of_ne hload.symm]

theorem period_load_iff (base : Regs) (val : Word) : period base = period (regWrite base timerLoad val) ↔
    prescaleOf (base timerControl) = 0 ∨ val = base timerLoad := by
  have hother : timerControl ≠ timerLoad := by decide
  rw [period, period, regWrite, Function.update_self, Function.update_of_ne hother, ticks_toNat,
    Nat.mul_left_inj (by decide), mul_eq_mul_left_iff, BitVec.toNat_inj, or_comm, eq_comm (a := base timerLoad)]
  refine or_congr_left ?_
  rw [← BitVec.toNat_inj]
  rfl

/-- A write to the registers of one timer keeps the periods exactly when it keeps the one of this
timer. -/
theorem samePeriod_set (h : SamePeriod b P) (hinv : Inv b P) (t : Ar7Timer) : SamePeriod (b.set i t) P ↔
    (b.Pending i → period (b.timer i).base = period t.base) := by
  constructor
  · intro hset hpending
    have hsome := (hinv.pending i).1 hpending
    obtain ⟨⟨t', n⟩, hP⟩ := Option.isSome_iff_exists.1 hsome
    obtain ⟨q, hq, -⟩ := hinv.shot i t' n hP
    have hnew := hset i hsome q hq
    rw [set_timer_self] at hnew
    rw [← h i hsome q hq, hnew]
  · intro hperiod j hsome q hq
    rw [h j hsome q hq]
    by_cases hji : j = i
    · subst hji
      rw [set_timer_self]
      exact hperiod ((hinv.pending j).2 hsome)
    · rw [set_timer_of_ne b hji]

theorem keepsPeriod_iff (h : Inv b P) (hruns : RunsForPeriod b) (a : Action) : KeepsPeriod b a ↔ NotReloaded b a := by
  have hsame := (runsForPeriod_iff h).1 hruns
  cases a with
  | write i now addr val =>
    by_cases hcontrol : addr = timerControl
    · subst hcontrol
      refine iff_of_true (fun b₁ h₁ => ?_) fun h => absurd h (by decide)
      by_cases hgo : val &&& timerControlGo ≠ 0
      · obtain ⟨b', N, hw, htimer, harmed, hinv⟩ := h.go now val hgo (i := i)
        cases hw.symm.trans h₁
        refine (runsForPeriod_iff hinv).2 fun j hsome q hq => ?_
        rw [htimer]
        rw [harmed] at hq
        by_cases hji : j = i
        · subst hji
          rw [Function.update_self] at hq ⊢
          cases hq
          rfl
        · rw [Function.update_of_ne hji] at hq hsome ⊢
          exact hsame j hsome q hq
      · obtain ⟨b', hw, htimer, harmed, hinv⟩ := h.stop now val hgo (i := i)
        cases hw.symm.trans h₁
        refine (runsForPeriod_iff hinv).2 fun j hsome q hq => ?_
        rw [htimer]
        rw [harmed] at hq
        by_cases hji : j = i
        · rw [hji, Function.update_self] at hsome
          cases hsome
        · rw [Function.update_of_ne hji] at hsome ⊢
          exact hsame j hsome q hq
    · by_cases hload : addr = timerLoad
      · subst hload
        have hkeeps : KeepsPeriod b (.write i now timerLoad val) ↔ RunsForPeriod (b.set i
            { stored i timerLoad val b with time := val.setWidth 64 * BitVec.ofInt 64 ticksPerIoClock }) := by
          refine ⟨fun hk => hk _ (write_load now val), fun hr b₁ h₁ => ?_⟩
          cases (write_load now val).symm.trans h₁
          exact hr
        rw [hkeeps, runsForPeriod_iff (h.loaded val), samePeriod_set hsame h, NotReloaded, ← period_load_iff]
        exact ⟨fun hp _ => hp, fun hp => hp rfl⟩
      · refine iff_of_true (fun b₁ h₁ => ?_) fun h => absurd h hload
        cases (write_other now val hcontrol hload).symm.trans h₁
        refine (runsForPeriod_iff (h.stored val hcontrol hload)).2 ((samePeriod_set hsame h _).2 fun _ => ?_)
        exact (period_regWrite_of_ne _ val hcontrol hload).symm
  | run now =>
    refine iff_of_true ?_ trivial
    rintro b₁ ⟨n, hrun⟩
    exact run_samePeriod h hsame hrun

/-- In every program each arming is for the period of the registers as they stand. All of them are
for later, and every run of the timers ends, exactly when each start and each cyclic timer that is
due has a period ahead of it. And an armed timer has the period of the present registers in
every state exactly when no armed timer is loaded with another value. -/
theorem timers_progress (as : List Action) :
    (∀ b, Reaches Step Board.zeroed as b → ArmedForPeriod b) ∧
      (MeetsRel Step Progresses Board.zeroed as ↔ MeetsRel Step PeriodAhead Board.zeroed as) ∧
      (MeetsRel Step KeepsPeriod Board.zeroed as ↔ MeetsRel Step NotReloaded Board.zeroed as) := by
  refine ⟨fun b hb => ?_, ?_, ?_⟩
  · obtain ⟨P, hP⟩ := reaches_invariant (P := fun b => ∃ P, Inv b P) (fun _ _ _ h hstep => step_inv h.choose_spec hstep)
      as _ b ⟨_, zeroed_inv⟩ hb
    exact hP.right
  · refine meetsRel_congr (P := fun b => (∃ P, Inv b P) ∧ ArmedLater b) ?_ ?_ as _ ⟨⟨_, zeroed_inv⟩, fun _ _ h => by cases h⟩
    · rintro b a b' ⟨⟨P, h⟩, -⟩ hok hstep
      exact ⟨step_inv h hstep, hok.2 b' hstep⟩
    · rintro b a ⟨⟨P, h⟩, hlater⟩
      exact progresses_iff h hlater a
  · refine meetsRel_congr (P := fun b => (∃ P, Inv b P) ∧ RunsForPeriod b) ?_ ?_ as _ ⟨⟨_, zeroed_inv⟩, ?_⟩
    · rintro b a b' ⟨⟨P, h⟩, -⟩ hok hstep
      exact ⟨step_inv h hstep, hok b' hstep⟩
    · rintro b a ⟨⟨P, h⟩, hruns⟩
      exact keepsPeriod_iff h hruns a
    · exact (runsForPeriod_iff zeroed_inv).2 fun _ hsome => by cases hsome

/-- A cyclic timer is started before it is loaded. It expires at once, and the run that finds it due
never ends. -/
theorem started_without_load : (¬ ∀ as : List Action, MeetsRel Step Progresses Board.zeroed as) ∧
    ∃ b, Reaches Step Board.zeroed [.write 0 ⟨0, zero_lt_two_pow_63⟩ timerControl 3] b ∧
      ∀ n, runTimers n ⟨0, zero_lt_two_pow_63⟩ b = none := by
  have hgo : (3 : Word) &&& timerControlGo ≠ 0 := by decide
  have hstuck : ¬ Ahead ⟨0, zero_lt_two_pow_63⟩ (regWrite (fun _ => 0) timerControl 3) :=
    fun hahead => absurd hahead.1 (by decide)
  refine ⟨fun h => hstuck ?_, ?_⟩
  · have hprogress := (h [.write 0 ⟨0, zero_lt_two_pow_63⟩ timerControl 3]).1
    exact (progresses_iff zeroed_inv (fun _ _ h => by cases h) _).1 hprogress rfl hgo
  · obtain ⟨b, N, hw, htimer, -, hinv⟩ := zeroed_inv.go ⟨0, zero_lt_two_pow_63⟩ 3 hgo (i := 0)
    have hself : b.timer 0 = controlled 0 3 Board.zeroed := by rw [htimer, Function.update_self]
    refine ⟨b, ⟨b, hw, rfl⟩, run_never_ends hinv (Function.update_self _ _ _) ?_ ?_ ?_⟩
    · rw [← not_lt, later_iff]
      exact hstuck
    · rw [hself]
      decide
    · rw [hself]
      exact hstuck

end Timer

end Ar7Qemu.Ar7
