import Mathlib.Algebra.Order.Ring.Nat
import Mathlib.Tactic.Common

/-! The operations of TCG as `tcg-opc.h` defines them, and op streams. An operation
stands in `gen_opc_buf`, its parameters stand in `gen_opparam_buf`; here each operation
carries its own parameters. -/

namespace Ar7Qemu.Tcg

/-- The sizes that the op table depends on. -/
structure Config where
  /-- `TCG_TARGET_REG_BITS == 32`. -/
  regBits32 : Bool
  /-- `TARGET_LONG_BITS == 64`. -/
  longBits64 : Bool

inductive TCGType where
  | i32
  | i64
  deriving DecidableEq

inductive Opc where
  | opEnd | nop | nop1 | nop2 | nop3 | nopn | discard | setLabel | call | jmp | br
  | mov (t : TCGType) | movi (t : TCGType)
  | ld8u (t : TCGType) | ld8s (t : TCGType) | ld16u (t : TCGType) | ld16s (t : TCGType)
  | ld32u | ld32s | ld (t : TCGType)
  | st8 (t : TCGType) | st16 (t : TCGType) | st32 | st (t : TCGType)
  | add (t : TCGType) | sub (t : TCGType) | mul (t : TCGType)
  | div (t : TCGType) | divu (t : TCGType) | rem (t : TCGType) | remu (t : TCGType)
  | div2 (t : TCGType) | divu2 (t : TCGType)
  | and (t : TCGType) | or (t : TCGType) | xor (t : TCGType)
  | shl (t : TCGType) | shr (t : TCGType) | sar (t : TCGType) | rotl (t : TCGType) | rotr (t : TCGType)
  | brcond (t : TCGType) | add2 | sub2 | brcond2 | mulu2
  | ext8s (t : TCGType) | ext16s (t : TCGType) | ext32s
  | bswap16 (t : TCGType) | bswap32 (t : TCGType) | bswap64 | not (t : TCGType) | neg (t : TCGType)
  | debugInsnStart | exitTb | gotoTb
  | qemuLd8u | qemuLd8s | qemuLd16u | qemuLd16s | qemuLd32u | qemuLd32s | qemuLd64
  | qemuSt8 | qemuSt16 | qemuSt32 | qemuSt64
  deriving DecidableEq

/-- `TCGOpDef`: the numbers of output, input and constant parameters, and the flags. -/
structure TCGOpDef where
  nbOargs : ℕ
  nbIargs : ℕ
  nbCargs : ℕ
  callClobber : Bool
  sideEffects : Bool
  bbEnd : Bool

def TCGOpDef.nbArgs (d : TCGOpDef) : ℕ := d.nbOargs + d.nbIargs + d.nbCargs

/-- An operation that only computes its outputs. -/
def plain (o i c : ℕ) : TCGOpDef := ⟨o, i, c, false, false, false⟩

/-- `TCG_OPF_SIDE_EFFECTS`. -/
def effect (o i c : ℕ) : TCGOpDef := ⟨o, i, c, false, true, false⟩

/-- `TCG_OPF_BB_END | TCG_OPF_SIDE_EFFECTS`. -/
def ends (o i c : ℕ) : TCGOpDef := ⟨o, i, c, false, true, true⟩

/-- `TCG_OPF_CALL_CLOBBER | TCG_OPF_SIDE_EFFECTS`. -/
def clobbers (o i c : ℕ) : TCGOpDef := ⟨o, i, c, true, true, false⟩

/-- The number of parameters that hold a guest address. -/
def Config.addrArgs (c : Config) : ℕ := if c.regBits32 && c.longBits64 then 2 else 1

/-- The number of parameters that hold a 64-bit value. -/
def Config.wideArgs (c : Config) : ℕ := if c.regBits32 then 2 else 1

/-- The table of `tcg-opc.h`. -/
def tcgOpDefs (c : Config) : Opc → TCGOpDef
  | .opEnd | .nop => plain 0 0 0
  | .nop1 | .nopn => plain 0 0 1
  | .nop2 => plain 0 0 2
  | .nop3 => plain 0 0 3
  | .discard => plain 1 0 0
  | .setLabel => plain 0 0 1
  | .call => effect 0 1 2
  | .jmp => ends 0 1 0
  | .br => ends 0 0 1
  | .mov _ => plain 1 1 0
  | .movi _ => plain 1 0 1
  | .ld8u _ | .ld8s _ | .ld16u _ | .ld16s _ | .ld32u | .ld32s | .ld _ => plain 1 1 1
  | .st8 _ | .st16 _ | .st32 | .st _ => effect 0 2 1
  | .add _ | .sub _ | .mul _ | .div _ | .divu _ | .rem _ | .remu _ | .and _ | .or _ | .xor _ | .shl _
  | .shr _ | .sar _ | .rotl _ | .rotr _ => plain 1 2 0
  | .div2 _ | .divu2 _ => plain 2 3 0
  | .brcond _ => ends 0 2 2
  | .add2 | .sub2 => plain 2 4 0
  | .brcond2 => ends 0 4 2
  | .mulu2 => plain 2 2 0
  | .ext8s _ | .ext16s _ | .ext32s | .bswap16 _ | .bswap32 _ | .bswap64 | .not _ | .neg _ => plain 1 1 0
  | .debugInsnStart => plain 0 0 c.addrArgs
  | .exitTb | .gotoTb => ends 0 0 1
  | .qemuLd8u | .qemuLd8s | .qemuLd16u | .qemuLd16s | .qemuLd32u | .qemuLd32s =>
    clobbers 1 c.addrArgs 1
  | .qemuLd64 => clobbers c.wideArgs c.addrArgs 1
  | .qemuSt8 | .qemuSt16 | .qemuSt32 => clobbers 0 (c.addrArgs + 1) 1
  | .qemuSt64 => clobbers 0 (c.addrArgs + c.wideArgs) 1

/-- `TCG_CALL_DUMMY_ARG`. -/
def Config.dummyArg (c : Config) : ℕ := if c.regBits32 then 2 ^ 32 - 1 else 2 ^ 64 - 1

def tcgCallPure : ℕ := 0x0010
def tcgCallConst : ℕ := 0x0020

/-- An operation with its parameters. -/
structure Instr where
  opc : Opc
  args : List ℕ
  deriving DecidableEq

/-- The variables of a translation block: globals come first. -/
structure TCGContext where
  nbGlobals : ℕ
  nbTemps : ℕ
  /-- `temps[i].temp_local`. -/
  tempLocal : ℕ → Bool

/-- A variable that is kept across basic blocks. -/
def TCGContext.keeps (s : TCGContext) (x : ℕ) : Bool := x < s.nbGlobals || s.tempLocal x

namespace Instr

/-- The numbers of outputs and inputs of a call, in its first parameter. -/
def callOargs (ins : Instr) : ℕ := ins.args.headD 0 >>> 16

def callIargs (ins : Instr) : ℕ := ins.args.headD 0 &&& 0xffff

def callFlags (ins : Instr) : ℕ := ins.args.getD (1 + ins.callOargs + ins.callIargs) 0

def isPure (ins : Instr) : Bool := ins.callFlags &&& tcgCallPure ≠ 0

def isConst (ins : Instr) : Bool := ins.callFlags &&& tcgCallConst ≠ 0

def outputs (c : Config) (ins : Instr) : List ℕ :=
  match ins.opc with
  | .call => (ins.args.drop 1).take ins.callOargs
  | .discard | .nopn => []
  | opc => ins.args.take (tcgOpDefs c opc).nbOargs

/-- The input parameters, dummy ones included. -/
def inputs (c : Config) (ins : Instr) : List ℕ :=
  match ins.opc with
  | .call => (ins.args.drop (1 + ins.callOargs)).take ins.callIargs
  | opc => (ins.args.drop (tcgOpDefs c opc).nbOargs).take (tcgOpDefs c opc).nbIargs

def constants (c : Config) (ins : Instr) : List ℕ :=
  match ins.opc with
  | .call => [ins.callFlags]
  | opc => ins.args.drop ((tcgOpDefs c opc).nbOargs + (tcgOpDefs c opc).nbIargs)

/-- The variables that an operation reads. Only a call has dummy parameters. -/
def uses (c : Config) (ins : Instr) : List ℕ :=
  match ins.opc with
  | .call => (ins.inputs c).filter (· ≠ c.dummyArg)
  | _ => ins.inputs c

/-- The parameters are laid out as the op table says. A call and a `nopn` have their number
of parameters at the end, where the backward pass finds it. -/
def Sized (c : Config) (ins : Instr) : Prop :=
  match ins.opc with
  | .call => ins.args.length = ins.callOargs + ins.callIargs + 3 ∧
      ins.args.getLast? = some ins.args.length
  | .nopn => ins.args.getLast? = some ins.args.length
  | opc => ins.args.length = (tcgOpDefs c opc).nbArgs

end Instr

end Ar7Qemu.Tcg
