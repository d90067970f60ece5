import Ar7Qemu.Lib.Run
import Ar7Qemu.Mips.Cpu

/-! Delivery of interrupts. `interrupt_request` caches whether an enabled interrupt is
pending, and `cpu_mips_update_irq` recomputes the cache. The operations that call it
keep the cache right; the theorem at the end says what the others need. -/

namespace Ar7Qemu.Mips

open Lib

/-- What happens to the CPU between two translation blocks. -/
inductive Event where
  | irqRequest (irq : ℤ) (level : Bool)
  | mtc0Status (arg1 : Word)
  | mttc0Status (arg1 : Word)
  | mtc0Cause (arg1 : Word)
  | di
  | ei
  | exception (e : Excp)
  | eret
  | deret
  deriving DecidableEq

def handle (env : CPUState) : Event → CPUState
  | .irqRequest irq level => cpuMipsIrqRequest irq level env
  | .mtc0Status arg1 => helperMtc0Status arg1 env
  | .mttc0Status arg1 => helperMttc0Status arg1 env
  | .mtc0Cause arg1 => helperMtc0Cause arg1 env
  | .di => helperDi env
  | .ei => helperEi env
  | .exception e => doInterrupt e env
  | .eret => helperEret env
  | .deret => helperDeret env

/-- An enabled pending interrupt has its request flag set. -/
def Raised (env : CPUState) : Prop :=
  env.enabled = true → env.pending ≠ 0 → env.hard = true

/-- An enabled pending interrupt is requested, and `cpu_exec` takes it before the
next translation block. -/
def Delivered (env : CPUState) : Prop :=
  env.enabled = true → env.pending ≠ 0 →
    env.hard = true ∧
      cpuExecInterrupt env = some (doInterrupt .extInterrupt { env with errorCode := 0 })

theorem delivered_iff_raised (env : CPUState) : Delivered env ↔ Raised env := by
  constructor
  · intro h he hp
    exact (h he hp).1
  · intro h he hp
    have hh := h he hp
    refine ⟨hh, if_pos ?_⟩
    rw [hh, he, decide_eq_true hp]
    rfl

/-! ### Operations that recompute the flag -/

theorem hard_cpuInterrupt (env : CPUState) : (cpuInterrupt cpuInterruptHard env).hard = true := by
  refine decide_eq_true fun h => ?_
  have := congrArg (BitVec.getLsbD · 1) h
  simp [cpuInterrupt, cpuInterruptHard] at this

theorem raised_cpuMipsUpdateIrq (env : CPUState) : Raised (cpuMipsUpdateIrq env) := by
  intro he hp
  rw [cpuMipsUpdateIrq] at he hp ⊢
  split at he
  · rename_i hen
    rw [if_pos hen] at hp ⊢
    split
    · exact hard_cpuInterrupt env
    · rename_i hn
      by_cases hh : env.hard = true
      · exact hh
      · rw [if_neg hn] at hp
        rw [decide_eq_true hp, Bool.true_and, Bool.not_eq_true', Bool.not_eq_false] at hn
        exact hn
  · rename_i hen
    exact absurd he hen

theorem raised_cpuMipsIrqRequest (irq : ℤ) (level : Bool) {env : CPUState} (h : Raised env) :
    Raised (cpuMipsIrqRequest irq level env) := by
  rw [cpuMipsIrqRequest]
  split
  · exact h
  · exact raised_cpuMipsUpdateIrq _

/-- A write of Cause without interrupt bits only withdraws interrupts. -/
theorem raised_helperMtc0Cause (arg1 : Word) {env : CPUState} (h : Raised env) :
    Raised (helperMtc0Cause arg1 env) := by
  rw [helperMtc0Cause]
  split
  · exact raised_cpuMipsUpdateIrq _
  · rename_i hip
    intro he hp
    refine h he fun hz => hp ?_
    generalize (if env.insnFlags.getLsbD isaMips32R2 = true then _ else _ : Word) = mask at hp ⊢
    simp only [CPUState.pending, ne_eq, Decidable.not_not] at hip hz ⊢
    ext i hi
    have ha := congrArg (BitVec.getLsbD · i) hip
    have hq := congrArg (BitVec.getLsbD · i) hz
    simp only [BitVec.getLsbD_and] at ha hq
    simp only [← BitVec.getLsbD_eq_getElem, BitVec.getLsbD_and, BitVec.getLsbD_or, BitVec.getLsbD_not]
    grind

/-! ### Exception entry

Every exception leaves the CPU at exception level, at error level or in debug
mode. -/

theorem getLsbD_or_bit (w : Word) {n : ℕ} (hn : n < 32) : (w ||| bit n).getLsbD n = true := by
  simp [bit, hn]

theorem enabled_eq_false_of_exl {env : CPUState} (h : env.cp0Status.getLsbD stEXL = true) :
    env.enabled = false := by
  simp [CPUState.enabled, h]

theorem enabled_eq_false_of_erl {env : CPUState} (h : env.cp0Status.getLsbD stERL = true) :
    env.enabled = false := by
  simp [CPUState.enabled, h]

theorem enabled_setEPC (cause offset : Word) (env : CPUState) :
    (setEPC cause offset env).enabled = false := by
  apply enabled_eq_false_of_exl
  rw [setEPC]
  dsimp only
  split
  · assumption
  · exact getLsbD_or_bit _ (by decide)

theorem enabled_setErrorEPC (kind : ℕ) (env : CPUState) : (setErrorEPC kind env).enabled = false := by
  apply enabled_eq_false_of_erl
  simp [setErrorEPC, bit, stERL]

theorem enabled_enterDebugMode (env : CPUState) : (enterDebugMode env).enabled = false := by
  have hdm : (enterDebugMode env).hflags &&& hflagDM ≠ 0 := by
    intro h
    have := congrArg (BitVec.getLsbD · 2) h
    simp [enterDebugMode, hflagDM, hflag64, hflagCP0, hflagKSU] at this
  rw [CPUState.enabled, decide_eq_false hdm, Bool.and_false]

theorem enabled_cpuReset (env : CPUState) : (cpuReset env).enabled = false := by
  apply enabled_eq_false_of_erl
  change (bit stBEV ||| bit stERL).getLsbD stERL = true
  decide

theorem enabled_doInterrupt (e : Excp) (env : CPUState) : (doInterrupt e env).enabled = false := by
  rw [doInterrupt]
  generalize (if e = .extInterrupt ∧ env.hflags &&& hflagDM ≠ 0 then Excp.dint else e) = e'
  cases e'
  case dss | dint | dib | dbp | ddbs | ddbl => exact enabled_enterDebugMode _
  case reset => exact enabled_cpuReset env
  case sreset | nmi => exact enabled_setErrorEPC _ _
  all_goals exact enabled_setEPC _ _ _

theorem raised_of_not_enabled {env : CPUState} (h : env.enabled = false) : Raised env := by
  intro he
  rw [h] at he
  exact absurd he (by decide)

/-! ### Operations that leave the flag alone -/

/-- The debug mode bit of `hflags`. -/
def CPUState.debugMode (env : CPUState) : Bool := env.hflags.getLsbD 2

theorem hflagDM_eq : hflagDM = BitVec.twoPow 32 2 := rfl

theorem and_hflagDM_eq_zero (h : Word) : h &&& hflagDM = 0 ↔ h.getLsbD 2 = false := by
  rw [hflagDM_eq, BitVec.and_twoPow]
  split
  · rename_i hb
    rw [hb]
    decide
  · rename_i hb
    simpa using hb

theorem enabled_eq (env : CPUState) :
    env.enabled = (env.cp0Status.getLsbD stIE && !env.cp0Status.getLsbD stEXL &&
      !env.cp0Status.getLsbD stERL && !env.debugMode) := by
  simp only [CPUState.enabled, CPUState.debugMode, and_hflagDM_eq_zero]
  cases env.hflags.getLsbD 2 <;> rfl

theorem getLsbD_ite_or (c : Prop) [Decidable c] (h m : Word) {i : ℕ} (hm : m.getLsbD i = false) :
    (if c then h ||| m else h).getLsbD i = h.getLsbD i := by
  split
  · rw [BitVec.getLsbD_or, hm, Bool.or_false]
  · rfl

theorem debugMode_computeHflags (env : CPUState) : (computeHflags env).debugMode = env.debugMode := by
  unfold computeHflags CPUState.debugMode
  extract_lets h0 h1 h2 h3 h4 h5
  have e0 : h0.getLsbD 2 = env.hflags.getLsbD 2 := by
    rw [BitVec.getLsbD_and, show (~~~(_ : Word)).getLsbD 2 = true from rfl, Bool.and_true]
  have e1 : h1.getLsbD 2 = h0.getLsbD 2 :=
    getLsbD_ite_or _ _ _ (by rw [BitVec.getLsbD_and, show hflagKSU.getLsbD 2 = false from rfl, Bool.and_false])
  have e2 : h2.getLsbD 2 = h1.getLsbD 2 := getLsbD_ite_or _ _ _ rfl
  have e3 : h3.getLsbD 2 = h2.getLsbD 2 := getLsbD_ite_or _ _ _ rfl
  have e4 : h4.getLsbD 2 = h3.getLsbD 2 := getLsbD_ite_or _ _ _ rfl
  have e5 : h5.getLsbD 2 = h4.getLsbD 2 := by
    unfold h5
    split
    · exact getLsbD_ite_or _ _ _ rfl
    · split
      · exact getLsbD_ite_or _ _ _ rfl
      · split
        · exact getLsbD_ite_or _ _ _ rfl
        · rfl
  show h5.getLsbD 2 = _
  rw [e5, e4, e3, e2, e1, e0]

theorem raised_iff (env : CPUState) :
    Raised env ↔ (env.hard = true ∨ env.pending = 0 ∨ env.cp0Status.getLsbD stIE = false ∨
      env.cp0Status.getLsbD stEXL = true ∨ env.cp0Status.getLsbD stERL = true ∨
      env.debugMode = true) := by
  rw [Raised, enabled_eq]
  by_cases hp : env.pending = 0
  · simp only [hp, ne_eq, not_true_eq_false, false_implies, implies_true, true_or, or_true]
  · simp only [hp, ne_eq, not_false_eq_true, true_implies, false_or]
    cases env.cp0Status.getLsbD stIE <;> cases env.cp0Status.getLsbD stEXL <;>
      cases env.cp0Status.getLsbD stERL <;> cases env.debugMode <;> simp

theorem raised_helperDeret {env : CPUState} (h : Raised env) : Raised (helperDeret env) := by
  have hdm : (helperDeret env).debugMode = env.debugMode := by
    show (computeHflags _).debugMode = _
    rw [debugMode_computeHflags]
    show (env.hflags &&& hflagDM).getLsbD 2 = env.hflags.getLsbD 2
    rw [BitVec.getLsbD_and, show hflagDM.getLsbD 2 = true from rfl, Bool.and_true]
  rw [raised_iff, hdm]
  exact (raised_iff env).1 h

theorem pending_clear_bit (status cause : Word) {n : ℕ} (hn : n < 8) :
    (status &&& ~~~bit n) &&& cause &&& caIPMask = status &&& cause &&& caIPMask := by
  have hmask : ∀ k < 8, ~~~bit k &&& caIPMask = caIPMask := by decide
  calc (status &&& ~~~bit n) &&& cause &&& caIPMask
      = status &&& cause &&& (~~~bit n &&& caIPMask) := by ac_rfl
    _ = status &&& cause &&& caIPMask := by rw [hmask n hn]

/-- The interrupts stay blocked after `eret`. -/
def CPUState.eretBlocked (env : CPUState) : Bool :=
  !env.cp0Status.getLsbD stIE || (env.cp0Status.getLsbD stERL && env.cp0Status.getLsbD stEXL) ||
    env.debugMode

theorem getLsbD_clear_bit (w : Word) {n m : ℕ} (hm : m < 32) :
    (w &&& ~~~bit n).getLsbD m = (w.getLsbD m && decide (m ≠ n)) := by
  by_cases h : n = m
  · simp [bit, h, hm]
  · simp [bit, hm, Ne.symm h]

theorem helperEret_of_erl {env : CPUState} (h : env.cp0Status.getLsbD stERL = true) :
    (helperEret env).cp0Status = env.cp0Status &&& ~~~bit stERL := by
  unfold helperEret
  rw [if_pos h]
  rfl

theorem helperEret_of_not_erl {env : CPUState} (h : env.cp0Status.getLsbD stERL = false) :
    (helperEret env).cp0Status = env.cp0Status &&& ~~~bit stEXL := by
  unfold helperEret
  rw [if_neg (by simp [h])]
  rfl

theorem helperEret_debugMode (env : CPUState) : (helperEret env).debugMode = env.debugMode := by
  unfold helperEret
  show (computeHflags _).debugMode = _
  rw [debugMode_computeHflags]
  split <;> rfl

theorem helperEret_cp0Cause (env : CPUState) : (helperEret env).cp0Cause = env.cp0Cause := by
  unfold helperEret
  split <;> rfl

theorem helperEret_hard (env : CPUState) : (helperEret env).hard = env.hard := by
  unfold helperEret
  split <;> rfl

theorem raised_helperEret (env : CPUState) :
    Raised (helperEret env) ↔ (env.hard = true ∨ env.pending = 0 ∨ env.eretBlocked = true) := by
  rw [raised_iff, helperEret_hard, helperEret_debugMode, CPUState.eretBlocked, CPUState.pending,
    helperEret_cp0Cause]
  cases herl : env.cp0Status.getLsbD stERL with
  | true =>
    rw [helperEret_of_erl herl, pending_clear_bit _ _ (by decide), getLsbD_clear_bit _ (by decide),
      getLsbD_clear_bit _ (by decide), getLsbD_clear_bit _ (by decide), herl]
    simp only [stIE, stEXL, stERL]
    cases env.cp0Status.getLsbD 0 <;> cases env.cp0Status.getLsbD 1 <;> cases env.debugMode <;>
      simp [CPUState.pending]
  | false =>
    rw [helperEret_of_not_erl herl, pending_clear_bit _ _ (by decide), getLsbD_clear_bit _ (by decide),
      getLsbD_clear_bit _ (by decide), getLsbD_clear_bit _ (by decide), herl]
    simp only [stIE, stEXL, stERL]
    cases env.cp0Status.getLsbD 0 <;> cases env.cp0Status.getLsbD 1 <;> cases env.debugMode <;>
      simp [CPUState.pending]

/-- The interrupts stay blocked when `mttc0` has written `arg1` to Status. -/
def CPUState.statusBlocked (env : CPUState) (arg1 : Word) : Bool :=
  !arg1.getLsbD stIE || arg1.getLsbD stEXL || arg1.getLsbD stERL || env.debugMode

theorem helperMttc0Status_cp0Status (arg1 : Word) (env : CPUState) :
    (helperMttc0Status arg1 env).cp0Status = arg1 &&& ~~~0xf1000018 := by
  unfold helperMttc0Status
  dsimp only
  split <;> rfl

theorem helperMttc0Status_cp0Cause (arg1 : Word) (env : CPUState) :
    (helperMttc0Status arg1 env).cp0Cause = env.cp0Cause := by
  unfold helperMttc0Status
  dsimp only
  split <;> rfl

theorem helperMttc0Status_hard (arg1 : Word) (env : CPUState) :
    (helperMttc0Status arg1 env).hard = env.hard := by
  unfold helperMttc0Status
  dsimp only
  split <;> rfl

theorem helperMttc0Status_debugMode (arg1 : Word) (env : CPUState) :
    (helperMttc0Status arg1 env).debugMode = env.debugMode := by
  unfold helperMttc0Status
  dsimp only
  split <;> rfl

theorem raised_helperMttc0Status (arg1 : Word) (env : CPUState) :
    Raised (helperMttc0Status arg1 env) ↔
      (env.hard = true ∨ arg1 &&& env.cp0Cause &&& caIPMask = 0 ∨ env.statusBlocked arg1 = true) := by
  have hmask : (~~~0xf1000018 : Word) &&& caIPMask = caIPMask := by decide
  have hp : (arg1 &&& ~~~0xf1000018) &&& env.cp0Cause &&& caIPMask =
      arg1 &&& env.cp0Cause &&& caIPMask := by
    calc (arg1 &&& ~~~0xf1000018) &&& env.cp0Cause &&& caIPMask
        = arg1 &&& env.cp0Cause &&& (~~~0xf1000018 &&& caIPMask) := by ac_rfl
      _ = arg1 &&& env.cp0Cause &&& caIPMask := by rw [hmask]
  rw [raised_iff, helperMttc0Status_hard, helperMttc0Status_debugMode, CPUState.pending,
    helperMttc0Status_cp0Cause, helperMttc0Status_cp0Status, hp, CPUState.statusBlocked]
  simp [stIE, stEXL, stERL, or_assoc]

/-! ### Runs -/

/-- What an event needs so that no interrupt is lost: where the flag is left alone, it
is set already, or nothing is pending, or interrupts stay blocked. -/
def Keeps (env : CPUState) : Event → Prop
  | .eret => env.hard = true ∨ env.pending = 0 ∨ env.eretBlocked = true
  | .mttc0Status arg1 =>
    env.hard = true ∨ arg1 &&& env.cp0Cause &&& caIPMask = 0 ∨ env.statusBlocked arg1 = true
  | _ => True

theorem raised_handle {env : CPUState} (h : Raised env) (e : Event) :
    Raised (handle env e) ↔ Keeps env e := by
  cases e with
  | irqRequest irq level => exact iff_of_true (raised_cpuMipsIrqRequest irq level h) trivial
  | mtc0Status arg1 => exact iff_of_true (raised_cpuMipsUpdateIrq _) trivial
  | mttc0Status arg1 => exact raised_helperMttc0Status arg1 env
  | mtc0Cause arg1 => exact iff_of_true (raised_helperMtc0Cause arg1 h) trivial
  | di => exact iff_of_true (raised_cpuMipsUpdateIrq _) trivial
  | ei => exact iff_of_true (raised_cpuMipsUpdateIrq _) trivial
  | exception e => exact iff_of_true (raised_of_not_enabled (enabled_doInterrupt e env)) trivial
  | eret => exact raised_helperEret env
  | deret => exact iff_of_true (raised_helperDeret h) trivial

/-- After a reset, every enabled pending interrupt of a run is delivered exactly when
each `eret` and each `mttc0` to Status of the run finds the request flag set, no
interrupt pending or interrupts blocked afterwards. -/
theorem interrupts_delivered_iff (env : CPUState) (events : List Event) :
    (∀ t ∈ states handle (cpuReset env) events, Delivered t) ↔
      Meets handle Keeps (cpuReset env) events := by
  simp only [delivered_iff_raised]
  exact states_iff_meets (P := Raised) (fun _ e h => raised_handle h e) events _
    (raised_of_not_enabled (enabled_cpuReset env))

/-- A 4KEc after power on. -/
def powerOn : CPUState :=
  cpuReset ⟨0, 0, 0, 0, 0, 0, 0, 0, 0, 0, 0x1278ff17, 0, 0, 0, fun _ => 0, 0, bit isaMips32, 0, 0, 0⟩

/-- Input 3 rises while the handler of input 2 runs, and the handler returns. -/
def nested : List Event :=
  [.mtc0Status 0xff01, .irqRequest 2 true, .exception .extInterrupt, .irqRequest 3 true, .eret]

/-- The second interrupt is enabled and pending and is not requested. -/
theorem nested_interrupt_lost :
    ¬ ∀ t ∈ states handle powerOn nested, Delivered t := by
  intro h
  have hlast : Delivered (nested.foldl handle powerOn) := h _ (foldl_mem_states nested powerOn)
  have henabled : (nested.foldl handle powerOn).enabled = true := by decide +kernel
  have hpending : (nested.foldl handle powerOn).pending ≠ 0 := by decide +kernel
  have hhard : (nested.foldl handle powerOn).hard = false := by decide +kernel
  rw [Delivered, hhard] at hlast
  exact absurd (hlast henabled hpending).1 (by decide)

end Ar7Qemu.Mips
