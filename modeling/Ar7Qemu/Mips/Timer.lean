import Ar7Qemu.Mips.Interrupts
import Mathlib.Tactic.Ring

/-! The Count and Compare registers and the timer interrupt of hw/mips_timer.c. While the counter runs,
`CP0_Count` holds the offset between Count and the virtual clock; while it is stopped by `Cause.DC`, it
holds Count itself. Count counts the ticks of the running intervals whatever happens in between. -/

namespace Ar7Qemu.Mips

/-! ### The virtual clock -/

/-- `muldiv64` with the 32 bit halves of its first argument. -/
def muldiv64 (a b c : ℕ) : ℕ :=
  let low := a % 2 ^ 32
  let high := a / 2 ^ 32 % 2 ^ 32
  let rl := low * b % 2 ^ 64
  let rh := (high * b % 2 ^ 64 + rl / 2 ^ 32) % 2 ^ 64
  let resHigh := rh / c % 2 ^ 32
  let resLow := ((rh % c * 2 ^ 32 % 2 ^ 64 + rl % 2 ^ 32) % 2 ^ 64) / c % 2 ^ 32
  resHigh * 2 ^ 32 + resLow

theorem two_digit_div {B rh r c : ℕ} (hr : r < B) (hc : 0 < c) : (rh * B + r) / c % (B * B) = rh / c % B * B + (rh % c * B + r) / c := by
  have hsplit : rh * B + r = c * (rh / c * B) + (rh % c * B + r) := by
    have h := Nat.div_add_mod rh c
    calc rh * B + r = (c * (rh / c) + rh % c) * B + r := by rw [h]
      _ = c * (rh / c * B) + (rh % c * B + r) := by ring
  have hlow : (rh % c * B + r) / c < B := by
    rw [Nat.div_lt_iff_lt_mul hc]
    have hm : rh % c + 1 ≤ c := Nat.mod_lt rh hc
    have hmul := Nat.mul_le_mul_right B hm
    rw [Nat.add_mul, Nat.one_mul] at hmul
    rw [Nat.mul_comm B c]
    omega
  rw [hsplit, Nat.mul_add_div hc, Nat.mul_comm (rh / c) B, Nat.mod_mul, Nat.mul_add_mod, Nat.mod_eq_of_lt hlow,
    Nat.mul_add_div (by omega), Nat.div_eq_of_lt hlow, Nat.add_zero, Nat.add_comm, Nat.mul_comm B]

/-- The product with the low half of `a`, before it is cut to 64 bits. -/
def lowProduct (a b : ℕ) : ℕ := a % 2 ^ 32 * b

/-- `rh` of `muldiv64`, before it is cut to 64 bits. -/
def highSum (a b : ℕ) : ℕ := a / 2 ^ 32 * b + lowProduct a b / 2 ^ 32

theorem mul_eq_highSum (a b : ℕ) : a * b = highSum a b * 2 ^ 32 + lowProduct a b % 2 ^ 32 := by
  have ha := Nat.div_add_mod a (2 ^ 32)
  have hr := Nat.div_add_mod (lowProduct a b) (2 ^ 32)
  calc a * b = (2 ^ 32 * (a / 2 ^ 32) + a % 2 ^ 32) * b := by rw [ha]
    _ = a / 2 ^ 32 * b * 2 ^ 32 + lowProduct a b := by rw [lowProduct]; ring
    _ = a / 2 ^ 32 * b * 2 ^ 32 + (2 ^ 32 * (lowProduct a b / 2 ^ 32) + lowProduct a b % 2 ^ 32) := by rw [hr]
    _ = highSum a b * 2 ^ 32 + lowProduct a b % 2 ^ 32 := by rw [highSum]; ring

theorem muldiv64_eq {a b c : ℕ} (ha : a < 2 ^ 64) (hb : b < 2 ^ 32) (hc : c < 2 ^ 32) (hpos : 0 < c) :
    muldiv64 a b c = a * b / c % 2 ^ 64 := by
  have hhigh : a / 2 ^ 32 < 2 ^ 32 := by omega
  have hlow : a % 2 ^ 32 < 2 ^ 32 := by omega
  have hmul : ∀ x < 2 ^ 32, x * b ≤ (2 ^ 32 - 1) * (2 ^ 32 - 1) := fun x hx => Nat.mul_le_mul (by omega) (by omega)
  have hl := hmul _ hlow
  have hh := hmul _ hhigh
  have hm : a / 2 ^ 32 % 2 ^ 32 = a / 2 ^ 32 := Nat.mod_eq_of_lt hhigh
  have hab : a * b = (a / 2 ^ 32 * b + a % 2 ^ 32 * b / 2 ^ 32) * 2 ^ 32 + a % 2 ^ 32 * b % 2 ^ 32 := mul_eq_highSum a b
  have hpow : (2 : ℕ) ^ 64 = 2 ^ 32 * 2 ^ 32 := by norm_num
  rw [hab, hpow, two_digit_div (by omega) hpos]
  generalize hrl : a % 2 ^ 32 * b = rl at hl ⊢
  generalize hrh : a / 2 ^ 32 * b = rh at hh ⊢
  have hq : (rh + rl / 2 ^ 32) % c < c := Nat.mod_lt _ hpos
  have hd : ((rh + rl / 2 ^ 32) % c * 2 ^ 32 + rl % 2 ^ 32) / c < 2 ^ 32 := by
    rw [Nat.div_lt_iff_lt_mul hpos]
    omega
  have hrl64 : rl % 2 ^ 64 = rl := Nat.mod_eq_of_lt (by omega)
  have hrh64 : rh % 2 ^ 64 = rh := Nat.mod_eq_of_lt (by omega)
  have hsum : (rh + rl / 2 ^ 32) % 2 ^ 64 = rh + rl / 2 ^ 32 := Nat.mod_eq_of_lt (by omega)
  simp only [muldiv64, hm, hrl, hrh, hrl64, hrh64, hsum]
  rw [Nat.mod_eq_of_lt (show (rh + rl / 2 ^ 32) % c * 2 ^ 32 < 2 ^ 64 by omega),
    Nat.mod_eq_of_lt (show (rh + rl / 2 ^ 32) % c * 2 ^ 32 + rl % 2 ^ 32 < 2 ^ 64 by omega), Nat.mod_eq_of_lt hd]

/-- `muldiv64` is exact where the quotient has 64 bits, and none of its steps is cut. -/
theorem muldiv64_exact {a b c : ℕ} (ha : a < 2 ^ 64) (hb : b < 2 ^ 32) (hc : c < 2 ^ 32) (hpos : c ≠ 0)
    (hq : a * b / c < 2 ^ 64) :
    muldiv64 a b c = a * b / c ∧ lowProduct a b < 2 ^ 64 ∧ a / 2 ^ 32 * b < 2 ^ 64 ∧ highSum a b < 2 ^ 64 ∧
      highSum a b / c < 2 ^ 32 ∧ highSum a b % c * 2 ^ 32 < 2 ^ 64 ∧
      highSum a b % c * 2 ^ 32 + lowProduct a b % 2 ^ 32 < 2 ^ 64 ∧
      (highSum a b % c * 2 ^ 32 + lowProduct a b % 2 ^ 32) / c < 2 ^ 32 := by
  have hc0 : 0 < c := Nat.pos_of_ne_zero hpos
  have hmul : ∀ x < 2 ^ 32, x * b ≤ (2 ^ 32 - 1) * (2 ^ 32 - 1) := fun x hx => Nat.mul_le_mul (by omega) (by omega)
  have hlow : lowProduct a b ≤ (2 ^ 32 - 1) * (2 ^ 32 - 1) := hmul _ (Nat.mod_lt _ (by decide))
  have hhigh := hmul (a / 2 ^ 32) (by omega)
  have hrem : highSum a b % c < c := Nat.mod_lt _ hc0
  have hsum : highSum a b < 2 ^ 64 := by
    rw [highSum]
    omega
  have hquot : highSum a b / c * 2 ^ 32 ≤ a * b / c := by
    rw [Nat.le_div_iff_mul_le hc0, mul_eq_highSum a b]
    calc highSum a b / c * 2 ^ 32 * c = highSum a b / c * c * 2 ^ 32 := by ring
      _ ≤ highSum a b * 2 ^ 32 := Nat.mul_le_mul_right _ (Nat.div_mul_le_self _ _)
      _ ≤ highSum a b * 2 ^ 32 + lowProduct a b % 2 ^ 32 := Nat.le_add_right _ _
  refine ⟨?_, by omega, by omega, hsum, by omega, by omega, by omega, ?_⟩
  · rw [muldiv64_eq ha hb hc hc0, Nat.mod_eq_of_lt hq]
  · rw [Nat.div_lt_iff_lt_mul hc0]
    omega

theorem muldiv64_exact_max : muldiv64 (2 ^ 64 - 1) (2 ^ 32 - 2) (2 ^ 32 - 1) = (2 ^ 64 - 1) * (2 ^ 32 - 2) / (2 ^ 32 - 1) :=
  (muldiv64_exact (by decide) (by decide) (by decide) (by decide) (by decide)).1

def timerFreq : ℕ := 10 * 1000 * 1000

/-- `ticks_per_sec`, as `muldiv64` gets it. -/
structure Clock where
  ticksPerSec : ℕ
  pos : 0 < ticksPerSec
  lt : ticksPerSec < 2 ^ 32

/-- The values of the virtual clock. -/
abbrev Time := { t : ℕ // t < 2 ^ 63 }

/-- `(uint32_t)muldiv64(qemu_get_clock(vm_clock), TIMER_FREQ, ticks_per_sec)` at a time. -/
def Clock.ticks (c : Clock) (t : Time) : Word := BitVec.ofNat 32 (muldiv64 t.val timerFreq c.ticksPerSec)

/-! ### The timer -/

def caTI : ℕ := 30
def intctlIPTI : ℕ := 29

/-- The registers of the timer, its host timer and the level of its interrupt input. -/
structure TimerState where
  cpu : CPUState
  cp0Count : Word
  cp0Compare : Word
  cp0IntCtl : Word
  /-- The virtual clock. -/
  now : Time
  /-- The expire time of `env->timer` while it is active. -/
  timer : Option ℤ
  /-- `cpu_mips_timer_triggered`. -/
  triggered : Bool
  /-- The level that the timer drives on `env->irq[IPTI]`. -/
  line : Bool

namespace TimerState

variable (c : Clock)

def isR2 (s : TimerState) : Bool := s.cpu.insnFlags.getLsbD isaMips32R2

/-- `cpu_mips_timer_disabled`. -/
def disabled (s : TimerState) : Bool := s.cpu.cp0Cause.getLsbD caDC

/-- `qemu_irq_raise` and `qemu_irq_lower` on the timer's input. -/
def setIrq (level : Bool) (s : TimerState) : TimerState :=
  { s with line := level, cpu := cpuMipsIrqRequest (s.cp0IntCtl >>> intctlIPTI &&& 7).toNat level s.cpu }

def setTI (level : Bool) (s : TimerState) : TimerState :=
  if s.isR2 then
    { s with cpu := { s.cpu with
      cp0Cause := if level then s.cpu.cp0Cause ||| bit caTI else s.cpu.cp0Cause &&& ~~~bit caTI } }
  else s

def setCount (count : Word) (s : TimerState) : TimerState := { s with cp0Count := count }

def setTriggered (triggered : Bool) (s : TimerState) : TimerState := { s with triggered := triggered }

/-- `cpu_mips_timer_update`. -/
def timerUpdate (s : TimerState) : TimerState :=
  let wait : Word := s.cp0Compare - s.cp0Count - c.ticks s.now
  let next : BitVec 64 := BitVec.ofNat 64 (s.now.val + muldiv64 wait.toNat c.ticksPerSec timerFreq)
  { s with timer := some next.toInt }

/-- `mips_timer_cb`. -/
def timerCb (s : TimerState) : TimerState :=
  if s.disabled then s
  else
    let s := timerUpdate c (s.setCount (s.cp0Count + 1))
    let s := s.setCount (s.cp0Count - 1)
    setTriggered true (setIrq true (setTI true s))

/-- `cpu_mips_get_count`. -/
def getCount (s : TimerState) : Word × TimerState :=
  if s.disabled then (s.cp0Count, s)
  else
    let value := s.cp0Count + c.ticks s.now
    let delta := (value - s.cp0Compare).toInt
    if 0 < delta ∧ s.triggered = false then (value, timerCb c s) else (value, s)

/-- `cpu_mips_store_count`. -/
def storeCount (count : Word) (s : TimerState) : TimerState :=
  if s.disabled then s.setCount count
  else setTriggered true (timerUpdate c (s.setCount (count - c.ticks s.now)))

/-- `cpu_mips_store_compare`. -/
def storeCompare (value : Word) (s : TimerState) : TimerState :=
  let s := { s with cp0Compare := value }
  let s := if s.disabled then s else timerUpdate c s
  setTriggered false (setIrq false (setTI false s))

/-- `cpu_mips_start_count`. -/
def startCount (s : TimerState) : TimerState := storeCount c s.cp0Count s

/-- `cpu_mips_stop_count`. -/
def stopCount (s : TimerState) : TimerState := s.setCount (s.cp0Count + c.ticks s.now)

/-- `helper_mtc0_cause`, with what it does to the counter. -/
def mtc0Cause (arg1 : Word) (s : TimerState) : TimerState :=
  let old := s.disabled
  let s := { s with cpu := helperMtc0Cause arg1 s.cpu }
  if old ≠ s.disabled then
    if s.disabled then stopCount c s else startCount c s
  else s

def Due (s : TimerState) : Prop := ∃ e, s.timer = some e ∧ e ≤ s.now.val

instance (s : TimerState) : Decidable s.Due :=
  decidable_of_iff ((s.timer.map fun e : ℤ => decide (e ≤ (s.now.val : ℤ))) = some true) (by
    rw [Due]
    cases s.timer <;> simp)

/-- One turn of `qemu_run_timers`: a due timer is removed before its callback runs. -/
def runTimer (s : TimerState) : TimerState := if s.Due then timerCb c { s with timer := none } else s

/-- `cpu_mips_clock_init`. -/
def clockInit (s : TimerState) : TimerState := storeCount c 1 { s with timer := none, cp0Compare := 0 }

/-- What the guest and the main loop do. -/
inductive Op
  | advance (t : Time)
  | readCount
  | writeCount (value : Word)
  | writeCompare (value : Word)
  | writeCause (arg1 : Word)
  | runTimer

def Allowed (s : TimerState) : Op → Prop
  | .advance t => s.now.val ≤ t.val
  | _ => True

def step (s : TimerState) : Op → TimerState
  | .advance t => { s with now := t }
  | .readCount => (getCount c s).2
  | .writeCount v => storeCount c v s
  | .writeCompare v => storeCompare c v s
  | .writeCause arg1 => mtc0Cause c arg1 s
  | .runTimer => runTimer c s

/-! ### What the operations leave alone -/

theorem getLsbD_or_bit (v : Word) {j k : ℕ} (h : k ≠ j) : (v ||| bit j).getLsbD k = v.getLsbD k := by
  rw [BitVec.getLsbD_or, bit, BitVec.getLsbD_twoPow]
  simp [h.symm]

theorem getLsbD_and_not_bit (v : Word) {j k : ℕ} (h : k ≠ j) : (v &&& ~~~bit j).getLsbD k = v.getLsbD k := by
  rw [BitVec.getLsbD_and, BitVec.getLsbD_not, bit, BitVec.getLsbD_twoPow]
  by_cases hk : k < 32
  · simp [h.symm, hk]
  · simp [BitVec.getLsbD_of_ge v k (by omega)]

theorem updateIrq_cp0Cause (env : CPUState) : (cpuMipsUpdateIrq env).cp0Cause = env.cp0Cause := by
  rw [cpuMipsUpdateIrq]
  split_ifs <;> rfl

theorem updateIrq_insnFlags (env : CPUState) : (cpuMipsUpdateIrq env).insnFlags = env.insnFlags := by
  rw [cpuMipsUpdateIrq]
  split_ifs <;> rfl

theorem getLsbD_irqRequest (n : ℕ) (level : Bool) (env : CPUState) {k : ℕ} (hn : n < 8) (hk : 16 ≤ k) :
    (cpuMipsIrqRequest n level env).cp0Cause.getLsbD k = env.cp0Cause.getLsbD k := by
  have hne : k ≠ (n : ℤ).toNat + caIP := by
    rw [caIP]
    omega
  rw [cpuMipsIrqRequest, if_neg (by omega), updateIrq_cp0Cause]
  cases level
  · exact getLsbD_and_not_bit _ hne
  · exact getLsbD_or_bit _ hne

theorem irqRequest_insnFlags (n : ℤ) (level : Bool) (env : CPUState) :
    (cpuMipsIrqRequest n level env).insnFlags = env.insnFlags := by
  rw [cpuMipsIrqRequest]
  by_cases h : n < 0 ∨ 7 < n
  · rw [if_pos h]
  · rw [if_neg h, updateIrq_insnFlags]

@[simp] theorem setCount_cp0Count (x : Word) (s : TimerState) : (s.setCount x).cp0Count = x := rfl

@[simp] theorem setCount_timer (x : Word) (s : TimerState) : (s.setCount x).timer = s.timer := rfl

@[simp] theorem setCount_now (x : Word) (s : TimerState) : (s.setCount x).now = s.now := rfl

@[simp] theorem setCount_line (x : Word) (s : TimerState) : (s.setCount x).line = s.line := rfl

@[simp] theorem setCount_cp0Compare (x : Word) (s : TimerState) : (s.setCount x).cp0Compare = s.cp0Compare := rfl

@[simp] theorem setCount_cpu (x : Word) (s : TimerState) : (s.setCount x).cpu = s.cpu := rfl

@[simp] theorem setCount_disabled (x : Word) (s : TimerState) : (s.setCount x).disabled = s.disabled := rfl

@[simp] theorem setCount_isR2 (x : Word) (s : TimerState) : (s.setCount x).isR2 = s.isR2 := rfl

@[simp] theorem setTriggered_cp0Count (b : Bool) (s : TimerState) : (s.setTriggered b).cp0Count = s.cp0Count := rfl

@[simp] theorem setTriggered_timer (b : Bool) (s : TimerState) : (s.setTriggered b).timer = s.timer := rfl

@[simp] theorem setTriggered_now (b : Bool) (s : TimerState) : (s.setTriggered b).now = s.now := rfl

@[simp] theorem setTriggered_line (b : Bool) (s : TimerState) : (s.setTriggered b).line = s.line := rfl

@[simp] theorem setTriggered_cp0Compare (b : Bool) (s : TimerState) : (s.setTriggered b).cp0Compare = s.cp0Compare := rfl

@[simp] theorem setTriggered_cpu (b : Bool) (s : TimerState) : (s.setTriggered b).cpu = s.cpu := rfl

@[simp] theorem setTriggered_disabled (b : Bool) (s : TimerState) : (s.setTriggered b).disabled = s.disabled := rfl

@[simp] theorem setTriggered_isR2 (b : Bool) (s : TimerState) : (s.setTriggered b).isR2 = s.isR2 := rfl

@[simp] theorem timerUpdate_cp0Count (s : TimerState) : (timerUpdate c s).cp0Count = s.cp0Count := rfl

@[simp] theorem timerUpdate_cp0Compare (s : TimerState) : (timerUpdate c s).cp0Compare = s.cp0Compare := rfl

@[simp] theorem timerUpdate_now (s : TimerState) : (timerUpdate c s).now = s.now := rfl

@[simp] theorem timerUpdate_line (s : TimerState) : (timerUpdate c s).line = s.line := rfl

@[simp] theorem timerUpdate_cpu (s : TimerState) : (timerUpdate c s).cpu = s.cpu := rfl

@[simp] theorem timerUpdate_disabled (s : TimerState) : (timerUpdate c s).disabled = s.disabled := rfl

@[simp] theorem timerUpdate_isR2 (s : TimerState) : (timerUpdate c s).isR2 = s.isR2 := rfl

@[simp] theorem setIrq_cp0Count (level : Bool) (s : TimerState) : (setIrq level s).cp0Count = s.cp0Count := rfl

@[simp] theorem setIrq_cp0Compare (level : Bool) (s : TimerState) : (setIrq level s).cp0Compare = s.cp0Compare := rfl

@[simp] theorem setIrq_now (level : Bool) (s : TimerState) : (setIrq level s).now = s.now := rfl

@[simp] theorem setIrq_timer (level : Bool) (s : TimerState) : (setIrq level s).timer = s.timer := rfl

@[simp] theorem setIrq_line (level : Bool) (s : TimerState) : (setIrq level s).line = level := rfl

theorem irq_lt (v : Word) : (v &&& 7).toNat < 8 := by
  rw [BitVec.toNat_and]
  exact Nat.lt_of_le_of_lt Nat.and_le_right (by decide)

theorem getLsbD_setIrq (level : Bool) (s : TimerState) {k : ℕ} (hk : 16 ≤ k) :
    (setIrq level s).cpu.cp0Cause.getLsbD k = s.cpu.cp0Cause.getLsbD k :=
  getLsbD_irqRequest _ level s.cpu (irq_lt _) hk

@[simp] theorem setIrq_disabled (level : Bool) (s : TimerState) : (setIrq level s).disabled = s.disabled :=
  getLsbD_setIrq level s (by decide)

@[simp] theorem setIrq_isR2 (level : Bool) (s : TimerState) : (setIrq level s).isR2 = s.isR2 := by
  rw [isR2, setIrq, irqRequest_insnFlags, isR2]

@[simp] theorem setTI_cp0Count (level : Bool) (s : TimerState) : (setTI level s).cp0Count = s.cp0Count := by
  rw [setTI]
  split_ifs <;> rfl

@[simp] theorem setTI_cp0Compare (level : Bool) (s : TimerState) : (setTI level s).cp0Compare = s.cp0Compare := by
  rw [setTI]
  split_ifs <;> rfl

@[simp] theorem setTI_now (level : Bool) (s : TimerState) : (setTI level s).now = s.now := by
  rw [setTI]
  split_ifs <;> rfl

@[simp] theorem setTI_timer (level : Bool) (s : TimerState) : (setTI level s).timer = s.timer := by
  rw [setTI]
  split_ifs <;> rfl

@[simp] theorem setTI_line (level : Bool) (s : TimerState) : (setTI level s).line = s.line := by
  rw [setTI]
  split_ifs <;> rfl

theorem getLsbD_setTI (level : Bool) (s : TimerState) (k : ℕ) :
    (setTI level s).cpu.cp0Cause.getLsbD k = if s.isR2 ∧ k = caTI then level else s.cpu.cp0Cause.getLsbD k := by
  rw [setTI]
  cases hr : s.isR2
  · simp
  · by_cases hk : k = caTI
    · subst hk
      cases level <;> simp [bit, caTI]
    · cases level
      · simpa [hk] using getLsbD_and_not_bit s.cpu.cp0Cause hk
      · simpa [hk] using getLsbD_or_bit s.cpu.cp0Cause hk

@[simp] theorem setTI_disabled (level : Bool) (s : TimerState) : (setTI level s).disabled = s.disabled := by
  rw [disabled, getLsbD_setTI, if_neg (by simp [caDC, caTI]), disabled]

@[simp] theorem setTI_isR2 (level : Bool) (s : TimerState) : (setTI level s).isR2 = s.isR2 := by
  rw [isR2, setTI, isR2]
  split_ifs <;> rfl

/-- The parts of the state that Count is read from. -/
structure SameCount (s s' : TimerState) : Prop where
  count : s'.cp0Count = s.cp0Count
  disabled : s'.disabled = s.disabled
  now : s'.now = s.now
  isR2 : s'.isR2 = s.isR2

theorem SameCount.refl (s : TimerState) : SameCount s s := ⟨rfl, rfl, rfl, rfl⟩

theorem SameCount.signal {s s' : TimerState} (h : SameCount s s') (level t : Bool) :
    SameCount s (setTriggered t (setIrq level (setTI level s'))) := by
  refine ⟨?_, ?_, ?_, ?_⟩
  · exact (setTI_cp0Count level s').trans h.count
  · exact (setIrq_disabled level _).trans ((setTI_disabled level s').trans h.disabled)
  · exact (setTI_now level s').trans h.now
  · exact (setIrq_isR2 level _).trans ((setTI_isR2 level s').trans h.isR2)

theorem sameCount_timerCb (s : TimerState) : SameCount s (timerCb c s) := by
  rw [timerCb]
  by_cases hd : s.disabled = true
  · rw [if_pos hd]
    exact SameCount.refl s
  · rw [if_neg hd]
    refine SameCount.signal ⟨?_, ?_, ?_, ?_⟩ true true
    · change s.cp0Count + 1 - 1 = s.cp0Count
      rw [BitVec.add_sub_cancel]
    · rfl
    · rfl
    · rfl

theorem sameCount_getCount (s : TimerState) : SameCount s (getCount c s).2 := by
  simp only [getCount]
  split_ifs
  · exact SameCount.refl s
  · exact sameCount_timerCb c s
  · exact SameCount.refl s

theorem sameCount_runTimer (s : TimerState) : SameCount s (runTimer c s) := by
  rw [runTimer]
  split_ifs
  · have h := sameCount_timerCb c { s with timer := none }
    exact ⟨h.count, h.disabled, h.now, h.isR2⟩
  · exact SameCount.refl s

theorem sameCount_storeCompare (v : Word) (s : TimerState) : SameCount s (storeCompare c v s) := by
  rw [storeCompare]
  refine SameCount.signal ?_ false false
  by_cases hd : s.disabled = true
  · exact (if_pos hd).symm ▸ ⟨rfl, rfl, rfl, rfl⟩
  · exact (if_neg hd).symm ▸ ⟨rfl, rfl, rfl, rfl⟩

/-! ### Count -/

/-- The ticks of the virtual clock up to a time. -/
def tickCount (t : Time) : ℕ := t.val * timerFreq / c.ticksPerSec

theorem ticks_eq (t : Time) : c.ticks t = BitVec.ofNat 32 (tickCount c t) := by
  have ht := t.property
  rw [Clock.ticks, muldiv64_eq (by omega) (by decide) c.lt c.pos, tickCount]
  apply BitVec.eq_of_toNat_eq
  rw [BitVec.toNat_ofNat, BitVec.toNat_ofNat, Nat.mod_mod_of_dvd _ (by decide)]

theorem tickCount_mono {t u : Time} (h : t.val ≤ u.val) : tickCount c t ≤ tickCount c u :=
  Nat.div_le_div_right (Nat.mul_le_mul_right _ h)

/-- What Count is to be: the value last written, the ticks of the running intervals that have ended since
and the begin of the interval in progress. -/
structure Ideal where
  written : Word
  elapsed : ℕ
  since : Option Time

namespace Ideal

def running (i : Ideal) (now : Time) : ℕ := i.since.elim 0 fun t => tickCount c now - tickCount c t

def value (i : Ideal) (now : Time) : Word := i.written + BitVec.ofNat 32 (i.elapsed + i.running c now)

/-- A write of Count starts anew; on release 2 a write of Cause ends or begins a running interval. -/
def step (isR2 : Bool) (now : Time) (i : Ideal) : Op → Ideal
  | .writeCount v => ⟨v, 0, i.since.map fun _ => now⟩
  | .writeCause arg1 =>
    if isR2 = true ∧ i.since.isNone = false ∧ arg1.getLsbD caDC = true then ⟨i.written, i.elapsed + i.running c now, none⟩
    else if isR2 = true ∧ i.since.isNone = true ∧ arg1.getLsbD caDC = false then { i with since := some now }
    else i
  | _ => i

end Ideal

/-- The states after a write of Count, with what Count is to be there. -/
inductive History : TimerState → Ideal → Prop
  | write (v : Word) (s : TimerState) : History (storeCount c v s) ⟨v, 0, if s.disabled then none else some s.now⟩
  | step {s : TimerState} {i : Ideal} (op : Op) (h : History s i) (ha : s.Allowed op) :
    History (s.step c op) (i.step c s.isR2 s.now op)

/-- `CP0_Count` is the value, less the ticks up to the begin of the interval in progress. -/
structure Agree (s : TimerState) (i : Ideal) : Prop where
  disabled : s.disabled = i.since.isNone
  before : ∀ t ∈ i.since, t.val ≤ s.now.val
  count : s.cp0Count = i.written + BitVec.ofNat 32 i.elapsed - i.since.elim 0 c.ticks

theorem Agree.same {s s' : TimerState} {i : Ideal} (h : Agree c s i) (hs : SameCount s s') : Agree c s' i :=
  ⟨hs.disabled.trans h.disabled, hs.now ▸ h.before, hs.count.trans h.count⟩

theorem Agree.running_eq {s : TimerState} {i : Ideal} (h : Agree c s i) (hd : s.disabled = false) :
    s.cp0Count + c.ticks s.now = i.value c s.now := by
  have hnone := hd.symm.trans h.disabled
  obtain ⟨t, ht⟩ : ∃ t, i.since = some t := Option.isSome_iff_exists.mp (by simpa using hnone)
  have hle := tickCount_mono c (h.before t (by simp [ht]))
  have hsub : BitVec.ofNat 32 (tickCount c s.now - tickCount c t) = c.ticks s.now - c.ticks t := by
    obtain ⟨d, hd⟩ := Nat.exists_eq_add_of_le hle
    rw [ticks_eq, ticks_eq, hd, Nat.add_sub_cancel_left, BitVec.ofNat_add, BitVec.add_comm, BitVec.add_sub_cancel]
  rw [h.count, Ideal.value, Ideal.running, ht, Option.elim_some, Option.elim_some, BitVec.ofNat_add, hsub]
  grind

theorem Agree.stopped_eq {s : TimerState} {i : Ideal} (h : Agree c s i) (hd : s.disabled = true) (now : Time) :
    s.cp0Count = i.value c now := by
  have hnone : i.since = none := Option.isNone_iff_eq_none.mp (hd.symm.trans h.disabled).symm
  rw [h.count, Ideal.value, Ideal.running, hnone, Option.elim_none, Option.elim_none, Nat.add_zero]
  exact BitVec.sub_zero _

theorem getCount_eq {s : TimerState} {i : Ideal} (h : Agree c s i) : (getCount c s).1 = i.value c s.now := by
  by_cases hd : s.disabled = true
  · rw [getCount, if_pos hd]
    exact h.stopped_eq c hd s.now
  · have hr := h.running_eq c (by simpa using hd)
    simp only [getCount, if_neg hd]
    split_ifs <;> exact hr

theorem storeCount_disabled (v : Word) (s : TimerState) : (storeCount c v s).disabled = s.disabled := by
  rw [storeCount]
  split_ifs
  · rw [setCount_disabled]
  · rw [setTriggered_disabled, timerUpdate_disabled, setCount_disabled]

theorem storeCount_now (v : Word) (s : TimerState) : (storeCount c v s).now = s.now := by
  rw [storeCount]
  split_ifs
  · rw [setCount_now]
  · rw [setTriggered_now, timerUpdate_now, setCount_now]

theorem storeCount_cp0Count (v : Word) (s : TimerState) :
    (storeCount c v s).cp0Count = v - if s.disabled then 0 else c.ticks s.now := by
  rw [storeCount]
  split_ifs
  · exact (BitVec.sub_zero v).symm
  · rfl

theorem agree_storeCount (v : Word) (s : TimerState) : Agree c (storeCount c v s) ⟨v, 0, if s.disabled then none else some s.now⟩ := by
  refine ⟨?_, ?_, ?_⟩
  · rw [storeCount_disabled]
    cases s.disabled <;> rfl
  · rw [storeCount_now]
    cases s.disabled <;> simp
  · rw [storeCount_cp0Count, show BitVec.ofNat 32 0 = 0#32 from rfl, BitVec.add_zero]
    cases s.disabled <;> rfl

theorem helperMtc0Cause_cp0Cause (arg1 : Word) (env : CPUState) :
    (helperMtc0Cause arg1 env).cp0Cause =
      (env.cp0Cause &&& ~~~(if env.insnFlags.getLsbD isaMips32R2 then 0x00c00300 ||| bit caDC ||| bit caPCI else 0x00c00300)) |||
        (arg1 &&& (if env.insnFlags.getLsbD isaMips32R2 then 0x00c00300 ||| bit caDC ||| bit caPCI else 0x00c00300)) := by
  have hirq : ∀ (p : Prop) [Decidable p] (env : CPUState),
      (if p then cpuMipsUpdateIrq env else env).cp0Cause = env.cp0Cause := by
    intro p _ env
    split_ifs
    · exact updateIrq_cp0Cause env
    · rfl
  rw [helperMtc0Cause, hirq]

theorem disabled_mtc0Cause (arg1 : Word) (s : TimerState) :
    (helperMtc0Cause arg1 s.cpu).cp0Cause.getLsbD caDC = if s.isR2 then arg1.getLsbD caDC else s.disabled := by
  rw [helperMtc0Cause_cp0Cause, isR2, disabled]
  cases s.cpu.insnFlags.getLsbD isaMips32R2 <;> simp [caDC, caPCI, bit]

theorem agree_mtc0Cause {s : TimerState} {i : Ideal} (h : Agree c s i) (arg1 : Word) :
    Agree c (mtc0Cause c arg1 s) (i.step c s.isR2 s.now (.writeCause arg1)) := by
  have hdis := disabled_mtc0Cause arg1 s
  have hold := h.disabled
  simp only [mtc0Cause, Ideal.step]
  generalize hs' : ({ s with cpu := helperMtc0Cause arg1 s.cpu } : TimerState) = s'
  have hd' : s'.disabled = if s.isR2 then arg1.getLsbD caDC else s.disabled := by
    rw [← hs']
    exact hdis
  have hcount : s'.cp0Count = s.cp0Count := by rw [← hs']
  have hnow : s'.now = s.now := by rw [← hs']
  by_cases hne : s.disabled ≠ s'.disabled
  · have hr2 : s.isR2 = true := by
      by_contra hr
      exact hne (by rw [hd', if_neg hr])
    rw [hr2, if_pos rfl] at hd'
    rw [if_pos hne]
    cases hold' : s.disabled
    · have hnew : arg1.getLsbD caDC = true := by
        rw [← hd']
        simpa [hold'] using hne.symm
      rw [if_pos (hd'.trans hnew), if_pos ⟨hr2, (hold.symm.trans hold'), hnew⟩]
      refine ⟨?_, by simp, ?_⟩
      · exact (setCount_disabled _ s').trans (hd'.trans hnew)
      · have hval : (stopCount c s').cp0Count = s'.cp0Count + c.ticks s'.now := rfl
        rw [hval, hcount, hnow, h.running_eq c hold', Ideal.value]
        exact (BitVec.sub_zero _).symm
    · have hnew : arg1.getLsbD caDC = false := by
        rw [← hd']
        simpa [hold'] using hne.symm
      have hnone : i.since = none := Option.isNone_iff_eq_none.mp (hold.symm.trans hold')
      rw [if_neg (by rw [hd', hnew]; decide), if_neg (by simp [hnew]), if_pos ⟨hr2, (hold.symm.trans hold'), hnew⟩]
      have hstart := agree_storeCount c s'.cp0Count s'
      refine ⟨?_, ?_, ?_⟩
      · exact (storeCount_disabled c _ s').trans (hd'.trans hnew)
      · intro t ht
        rw [← Option.some.inj ht]
        exact le_of_eq (congrArg Subtype.val ((storeCount_now c _ s').trans hnow).symm)
      · have hval := storeCount_cp0Count c s'.cp0Count s'
        rw [if_neg (by rw [hd', hnew]; decide)] at hval
        refine hval.trans ?_
        rw [hcount, hnow, h.count, hnone]
        exact congrArg (· - c.ticks s.now) (BitVec.sub_zero _)
  · have hsame : s'.disabled = s.disabled := (not_not.mp hne).symm
    have hstep : s.isR2 = true → arg1.getLsbD caDC = i.since.isNone := by
      intro hr
      rw [hr, if_pos rfl] at hd'
      exact hd'.symm.trans (hsame.trans hold)
    rw [if_neg hne, if_neg fun hc => ?_, if_neg fun hc => ?_]
    · exact ⟨hsame.trans hold, hnow ▸ h.before, hcount.trans h.count⟩
    · have := hstep hc.1
      rw [hc.2.1, hc.2.2] at this
      exact Bool.noConfusion this
    · have := hstep hc.1
      rw [hc.2.1, hc.2.2] at this
      exact Bool.noConfusion this

theorem agree_step {s : TimerState} {i : Ideal} (h : Agree c s i) (op : Op) (ha : s.Allowed op) :
    Agree c (s.step c op) (i.step c s.isR2 s.now op) := by
  cases op with
  | advance t => exact ⟨h.disabled, fun u hu => le_trans (h.before u hu) ha, h.count⟩
  | readCount => exact h.same c (sameCount_getCount c s)
  | writeCount v =>
    have hw := agree_storeCount c v s
    have hsince : (if s.disabled then none else some s.now) = i.since.map fun _ => s.now := by
      rw [h.disabled]
      cases i.since <;> rfl
    rw [hsince] at hw
    exact hw
  | writeCompare v => exact h.same c (sameCount_storeCompare c v s)
  | writeCause arg1 => exact agree_mtc0Cause c h arg1
  | runTimer => exact h.same c (sameCount_runTimer c s)

theorem History.agree {s : TimerState} {i : Ideal} (h : History c s i) : Agree c s i := by
  induction h with
  | write v s => exact agree_storeCount c v s
  | step op _ ha ih => exact agree_step c ih op ha

theorem getCount_same {s s' : TimerState} (h : SameCount s s') : (getCount c s').1 = (getCount c s).1 := by
  have hval : ∀ u : TimerState, (getCount c u).1 = if u.disabled then u.cp0Count else u.cp0Count + c.ticks u.now := by
    intro u
    simp only [getCount]
    split_ifs <;> rfl
  rw [hval, hval, h.count, h.disabled, h.now]

/-- A read of Count gives the value last written and the ticks of the running intervals since; reads,
writes of Compare and the callback do not change it. -/
theorem count_continuous {s : TimerState} {i : Ideal} (h : History c s i) :
    (getCount c s).1 = i.value c s.now ∧ (getCount c (getCount c s).2).1 = (getCount c s).1 ∧
      (∀ v, (getCount c (storeCompare c v s)).1 = (getCount c s).1) ∧ (getCount c (timerCb c s)).1 = (getCount c s).1 :=
  ⟨getCount_eq c (h.agree c), getCount_same c (sameCount_getCount c s), fun v => getCount_same c (sameCount_storeCompare c v s),
    getCount_same c (sameCount_timerCb c s)⟩

/-- `QEMU_TIMER_BASE`. -/
def timerBase : Clock := ⟨1000000000, by decide, by decide⟩

theorem zero_lt_two_pow_63 : 0 < 2 ^ 63 := by decide

def atPowerOn : TimerState := ⟨powerOn, 0, 0, 0xe0000000, ⟨0, zero_lt_two_pow_63⟩, none, false, false⟩

theorem count_after_two_ticks :
    (getCount timerBase ((storeCount timerBase 5 atPowerOn).step timerBase (.advance ⟨250, by decide⟩))).1 = 7 :=
  (count_continuous timerBase (.step (.advance ⟨250, by decide⟩) (.write 5 atPowerOn) (Nat.zero_le 250))).1.trans (by decide +kernel)

end TimerState

end Ar7Qemu.Mips
