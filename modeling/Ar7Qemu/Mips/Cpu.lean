import Mathlib.Algebra.Order.Ring.Nat
import Mathlib.Tactic.Common

/-! Interrupt and exception handling of the MIPS32 CPU: the coprocessor 0
registers involved, the request flag that `cpu_exec` looks at, exception entry and
the helpers that the translated code calls for `di`, `ei`, `eret`, `deret` and
moves to Status and Cause. The count and compare timer is a device here: it reaches
the CPU through an interrupt input. -/

namespace Ar7Qemu.Mips

abbrev Word := BitVec 32

/-- `1 << n`. -/
def bit (n : ℕ) : Word := BitVec.twoPow 32 n

def stCU0 : ℕ := 28
def stCU1 : ℕ := 29
def stCU3 : ℕ := 31
def stFR : ℕ := 26
def stMX : ℕ := 24
def stBEV : ℕ := 22
def stSR : ℕ := 20
def stNMI : ℕ := 19
def stKSU : ℕ := 3
def stERL : ℕ := 2
def stEXL : ℕ := 1
def stIE : ℕ := 0
def caBD : ℕ := 31
def caCE : ℕ := 28
def caDC : ℕ := 27
def caPCI : ℕ := 26
def caIV : ℕ := 23
def caIP : ℕ := 8
def caEC : ℕ := 2
def caIPMask : Word := 0x0000ff00
def hflagKSU : Word := 0x0003
def hflagDM : Word := 0x0004
def hflag64 : Word := 0x0008
def hflagCP0 : Word := 0x0010
def hflagFPU : Word := 0x0020
def hflagF64 : Word := 0x0040
def hflagCOP1X : Word := 0x0080
def hflagUX : Word := 0x0200
def hflagBMask : Word := 0x1c00
def tcstTCU0 : ℕ := 28
def tcstTMX : ℕ := 27
def tcstTKSU : ℕ := 11
def fcr0F64 : ℕ := 22
def isaMips4 : ℕ := 3
def isaMips32 : ℕ := 5
def isaMips32R2 : ℕ := 6
def cpuInterruptHard : Word := 0x02

/-- The part of `CPUMIPSState` that interrupt handling reads and writes. -/
structure CPUState where
  pc : Word
  cp0Status : Word
  cp0Cause : Word
  cp0EPC : Word
  cp0ErrorEPC : Word
  cp0DEPC : Word
  cp0EBase : Word
  cp0Debug : Word
  cp0LLAddr : Word
  cp0BadVAddr : Word
  cp0StatusRwBitmask : Word
  cp0VPEControl : Word
  currentTc : Word
  /-- `active_tc.CP0_TCStatus`. -/
  tcStatus : Word
  /-- `tcs[i].CP0_TCStatus`. -/
  tcs : Word → Word
  fcr0 : Word
  insnFlags : Word
  hflags : Word
  errorCode : Word
  interruptRequest : Word

/-- `compute_hflags`, without the 64-bit targets. -/
def computeHflags (env : CPUState) : CPUState :=
  let h := env.hflags &&& ~~~(hflagCOP1X ||| hflag64 ||| hflagCP0 ||| hflagF64 ||| hflagFPU |||
    hflagKSU ||| hflagUX)
  let h := if !env.cp0Status.getLsbD stEXL && !env.cp0Status.getLsbD stERL && (h &&& hflagDM = 0)
    then h ||| (env.cp0Status >>> stKSU &&& hflagKSU) else h
  let h := if env.cp0Status.getLsbD stCU0 || (h &&& hflagKSU = 0) then h ||| hflagCP0 else h
  let h := if env.cp0Status.getLsbD stCU1 then h ||| hflagFPU else h
  let h := if env.cp0Status.getLsbD stFR then h ||| hflagF64 else h
  let h :=
    if env.insnFlags.getLsbD isaMips32R2 then
      if env.fcr0.getLsbD fcr0F64 then h ||| hflagCOP1X else h
    else if env.insnFlags.getLsbD isaMips32 then
      if h &&& hflag64 ≠ 0 then h ||| hflagCOP1X else h
    else if env.insnFlags.getLsbD isaMips4 then
      if env.cp0Status.getLsbD stCU3 then h ||| hflagCOP1X else h
    else h
  { env with hflags := h }

def CPUState.enabled (env : CPUState) : Bool :=
  env.cp0Status.getLsbD stIE && !env.cp0Status.getLsbD stEXL && !env.cp0Status.getLsbD stERL &&
    (env.hflags &&& hflagDM = 0)

/-- `CP0_Status & CP0_Cause & CP0Ca_IP_mask`. -/
def CPUState.pending (env : CPUState) : Word := env.cp0Status &&& env.cp0Cause &&& caIPMask

/-- `interrupt_request & CPU_INTERRUPT_HARD`. -/
def CPUState.hard (env : CPUState) : Bool := env.interruptRequest &&& cpuInterruptHard ≠ 0

def cpuInterrupt (mask : Word) (env : CPUState) : CPUState :=
  { env with interruptRequest := env.interruptRequest ||| mask }

def cpuResetInterrupt (mask : Word) (env : CPUState) : CPUState :=
  { env with interruptRequest := env.interruptRequest &&& ~~~mask }

def cpuMipsUpdateIrq (env : CPUState) : CPUState :=
  if env.enabled then
    if env.pending ≠ 0 && !env.hard then cpuInterrupt cpuInterruptHard env else env
  else cpuResetInterrupt cpuInterruptHard env

def cpuMipsIrqRequest (irq : ℤ) (level : Bool) (env : CPUState) : CPUState :=
  if irq < 0 ∨ 7 < irq then env
  else cpuMipsUpdateIrq { env with
    cp0Cause := if level then env.cp0Cause ||| bit (irq.toNat + caIP)
      else env.cp0Cause &&& ~~~bit (irq.toNat + caIP) }

/-- The exceptions that `do_interrupt` knows. Any other number ends the emulator. -/
inductive Excp where
  | reset | sreset | dss | dint | ddbl | ddbs | nmi | mcheck | extInterrupt | dib | adel | ades | ibe
  | dbp | syscall | break | cpu | ri | overflow | trap | fpe | dwatch | ltlbl | tlbl | tlbs | dbe
  | thread | mdmx | c2e | cache
  deriving DecidableEq

/-- `cpu_reset`, as far as it concerns these registers. -/
def cpuReset (env : CPUState) : CPUState :=
  { env with
    pc := 0xbfc00000
    cp0Status := bit stBEV ||| bit stERL
    cp0Cause := 0
    cp0EPC := 0
    cp0ErrorEPC := 0
    cp0DEPC := 0
    cp0EBase := 0x80000000
    cp0Debug := bit 25 ||| bit 15
    cp0LLAddr := 0
    cp0BadVAddr := 0
    cp0VPEControl := 0
    currentTc := 0
    tcStatus := 0
    tcs := fun _ => 0
    hflags := hflagCP0
    errorCode := 0
    interruptRequest := 0 }

/-- `pc`, or the branch before it when the exception was raised in a delay slot. -/
def CPUState.returnPc (env : CPUState) : Word :=
  if env.hflags &&& hflagBMask ≠ 0 then env.pc - 4 else env.pc

/-- The label `enter_debug_mode`, after `DEPC` is set. -/
def enterDebugMode (env : CPUState) : CPUState :=
  { env with
    hflags := (env.hflags ||| (hflagDM ||| hflag64 ||| hflagCP0)) &&& ~~~hflagKSU
    cp0Cause := if env.cp0Status.getLsbD stEXL then env.cp0Cause else env.cp0Cause &&& ~~~bit caBD
    pc := 0xbfc00480 }

/-- The label `set_DEPC`, with the cause bit of `CP0_Debug`. -/
def setDEPC (cause : ℕ) (env : CPUState) : CPUState :=
  enterDebugMode { env with
    cp0Debug := env.cp0Debug ||| bit cause
    cp0DEPC := env.returnPc
    hflags := if env.hflags &&& hflagBMask ≠ 0 then env.hflags &&& ~~~hflagBMask else env.hflags }

/-- The label `set_error_EPC`, with the bit of Status that names the kind. -/
def setErrorEPC (kind : ℕ) (env : CPUState) : CPUState :=
  let h := if env.hflags &&& hflagBMask ≠ 0 then env.hflags &&& ~~~hflagBMask else env.hflags
  { env with
    cp0ErrorEPC := env.returnPc
    cp0Status := env.cp0Status ||| bit kind ||| (bit stERL ||| bit stBEV)
    hflags := (h ||| (hflag64 ||| hflagCP0)) &&& ~~~hflagKSU
    cp0Cause := if env.cp0Status.getLsbD stEXL then env.cp0Cause else env.cp0Cause &&& ~~~bit caBD
    pc := 0xbfc00000 }

/-- The label `set_EPC`, with the exception code and the vector offset. -/
def setEPC (cause offset : Word) (env : CPUState) : CPUState :=
  let entered : CPUState :=
    if env.cp0Status.getLsbD stEXL then env
    else { env with
      cp0EPC := env.returnPc
      cp0Cause := if env.hflags &&& hflagBMask ≠ 0 then env.cp0Cause ||| bit caBD
        else env.cp0Cause &&& ~~~bit caBD
      cp0Status := env.cp0Status ||| bit stEXL
      hflags := (env.hflags ||| (hflag64 ||| hflagCP0)) &&& ~~~hflagKSU }
  { entered with
    hflags := entered.hflags &&& ~~~hflagBMask
    pc := (if entered.cp0Status.getLsbD stBEV then 0xbfc00200 else entered.cp0EBase &&& ~~~0x3ff) + offset
    cp0Cause := (entered.cp0Cause &&& ~~~((0x1f : Word) <<< caEC)) ||| (cause <<< caEC) }

/-- The vector offset of a TLB exception: a refill outside exception level has its
own vector. -/
def tlbOffset (env : CPUState) : Word :=
  if env.errorCode = 1 ∧ env.cp0Status.getLsbD stEXL = false then 0 else 0x180

def doInterrupt (e : Excp) (env : CPUState) : CPUState :=
  match if e = .extInterrupt ∧ env.hflags &&& hflagDM ≠ 0 then .dint else e with
  | .dss => enterDebugMode { env with cp0Debug := env.cp0Debug ||| bit 0, cp0DEPC := env.pc }
  | .dint => setDEPC 5 env
  | .dib => setDEPC 4 env
  | .dbp => setDEPC 1 env
  | .ddbs => setDEPC 3 env
  | .ddbl => setDEPC 2 env
  | .reset => cpuReset env
  | .sreset => setErrorEPC stSR env
  | .nmi => setErrorEPC stNMI env
  | .extInterrupt => setEPC 0 (if env.cp0Cause.getLsbD caIV then 0x200 else 0x180) env
  | .ltlbl => setEPC 1 0x180 env
  | .tlbl => setEPC 2 (tlbOffset env) env
  | .tlbs => setEPC 3 (tlbOffset env) env
  | .adel => setEPC 4 0x180 env
  | .ades => setEPC 5 0x180 env
  | .ibe => setEPC 6 0x180 env
  | .dbe => setEPC 7 0x180 env
  | .syscall => setEPC 8 0x180 env
  | .break => setEPC 9 0x180 env
  | .ri => setEPC 10 0x180 env
  | .cpu => setEPC 11 0x180 { env with
      cp0Cause := (env.cp0Cause &&& ~~~((0x3 : Word) <<< caCE)) ||| (env.errorCode <<< caCE) }
  | .overflow => setEPC 12 0x180 env
  | .trap => setEPC 13 0x180 env
  | .fpe => setEPC 15 0x180 env
  | .c2e => setEPC 18 0x180 env
  | .mdmx => setEPC 22 0x180 env
  | .dwatch => setEPC 23 0x180 env
  | .mcheck => setEPC 24 0x180 env
  | .thread => setEPC 25 0x180 env
  | .cache => setEPC 30 (if env.cp0Status.getLsbD stBEV then 0x100 else 0x20000100) env

def helperDi (env : CPUState) : CPUState :=
  cpuMipsUpdateIrq { env with cp0Status := env.cp0Status &&& ~~~bit stIE }

def helperEi (env : CPUState) : CPUState :=
  cpuMipsUpdateIrq { env with cp0Status := env.cp0Status ||| bit stIE }

def helperEret (env : CPUState) : CPUState :=
  let env := if env.cp0Status.getLsbD stERL
    then { env with pc := env.cp0ErrorEPC, cp0Status := env.cp0Status &&& ~~~bit stERL }
    else { env with pc := env.cp0EPC, cp0Status := env.cp0Status &&& ~~~bit stEXL }
  { computeHflags env with cp0LLAddr := 1 }

/-- `helper_deret`. It keeps the debug flag and clears the others. -/
def helperDeret (env : CPUState) : CPUState :=
  { computeHflags { env with pc := env.cp0DEPC, hflags := env.hflags &&& hflagDM } with cp0LLAddr := 1 }

def helperMtc0Status (arg1 : Word) (env : CPUState) : CPUState :=
  let mask := env.cp0StatusRwBitmask
  cpuMipsUpdateIrq (computeHflags { env with
    cp0Status := (env.cp0Status &&& ~~~mask) ||| (arg1 &&& mask) })

def helperMttc0Status (arg1 : Word) (env : CPUState) : CPUState :=
  let otherTc := env.cp0VPEControl &&& 0xff
  let t := env.tcs otherTc
  let t := (t &&& ~~~((0xf : Word) <<< tcstTCU0)) ||| (arg1 &&& ((0xf : Word) <<< stCU0))
  let t := (t &&& ~~~bit tcstTMX) ||| ((arg1 &&& bit stMX) <<< (tcstTMX - stMX))
  let t := (t &&& ~~~((0x3 : Word) <<< tcstTKSU)) ||| ((arg1 &&& ((0x3 : Word) <<< stKSU)) <<< (tcstTKSU - stKSU))
  let env := { env with cp0Status := arg1 &&& ~~~0xf1000018 }
  if otherTc = env.currentTc then { env with tcStatus := t }
  else { env with tcs := Function.update env.tcs otherTc t }

/-- `helper_mtc0_cause`. Stopping and starting the counter does not touch these
registers. -/
def helperMtc0Cause (arg1 : Word) (env : CPUState) : CPUState :=
  let mask : Word := if env.insnFlags.getLsbD isaMips32R2 then 0x00c00300 ||| bit caDC ||| bit caPCI
    else 0x00c00300
  let env := { env with cp0Cause := (env.cp0Cause &&& ~~~mask) ||| (arg1 &&& mask) }
  -- software interrupts are handled as hardware ones
  if arg1 &&& caIPMask ≠ 0 then cpuMipsUpdateIrq env else env

/-- The interrupt check of `cpu_exec` before a translation block. -/
def cpuExecInterrupt (env : CPUState) : Option CPUState :=
  if env.hard && (env.pending ≠ 0) && env.enabled then
    some (doInterrupt .extInterrupt { env with errorCode := 0 })
  else none

end Ar7Qemu.Mips
