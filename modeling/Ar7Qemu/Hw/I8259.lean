import Mathlib.Algebra.Order.Ring.Nat
import Mathlib.Data.BitVec
import Mathlib.Tactic.Common

/-! The two cascaded interrupt controllers of `i8259.c`, on a target where `pic_update_irq` drives
the line both ways. Beside the controllers the system holds the levels of the sixteen inputs and
the edges that have not been acknowledged. -/

namespace Ar7Qemu.I8259

abbrev Byte := BitVec 8

/-- `PicState`, less the ELCR mask, which is fixed for each of the two. -/
structure PicState where
  lastIrr : Byte
  irr : Byte
  imr : Byte
  isr : Byte
  priorityAdd : ℕ
  irqBase : Byte
  readRegSelect : Bool
  poll : Bool
  specialMask : Bool
  initState : Fin 4
  autoEoi : Bool
  rotateOnAutoEoi : Bool
  specialFullyNestedMode : Bool
  init4 : Bool
  singleMode : Bool
  elcr : Byte

inductive Chip where
  | master | slave
  deriving DecidableEq

def Chip.elcrMask : Chip → Byte
  | .master => 0xf8
  | .slave => 0xde

/-- `PicState2`, with the level of the line to the processor. -/
structure PicState2 where
  master : PicState
  slave : PicState
  parentIrq : Bool

def PicState2.pic (s : PicState2) : Chip → PicState
  | .master => s.master
  | .slave => s.slave

def PicState2.set (s : PicState2) : Chip → PicState → PicState2
  | .master, p => { s with master := p }
  | .slave, p => { s with slave := p }

def setBit (b : Byte) (i : ℕ) : Byte := b ||| BitVec.twoPow 8 i

def clearBit (b : Byte) (i : ℕ) : Byte := b &&& ~~~BitVec.twoPow 8 i

def picSetIrq1 (s : PicState) (irq : ℕ) (level : Bool) : PicState :=
  if s.elcr.getLsbD irq then
    if level then { s with irr := setBit s.irr irq, lastIrr := setBit s.lastIrr irq }
    else { s with irr := clearBit s.irr irq, lastIrr := clearBit s.lastIrr irq }
  else if level then
    { s with irr := if s.lastIrr.getLsbD irq then s.irr else setBit s.irr irq
             lastIrr := setBit s.lastIrr irq }
  else { s with lastIrr := clearBit s.lastIrr irq }

/-- `get_priority`: 8 when the mask is empty. -/
def getPriority (s : PicState) (mask : Byte) : ℕ :=
  ((List.range 8).find? fun p => mask.getLsbD ((p + s.priorityAdd) % 8)).getD 8

def picGetIrq (chip : Chip) (s : PicState) : Option ℕ :=
  let priority := getPriority s (s.irr &&& ~~~s.imr)
  if priority = 8 then none
  else
    let mask := s.isr
    let mask := if s.specialMask then mask &&& ~~~s.imr else mask
    let mask := if s.specialFullyNestedMode && chip = .master then clearBit mask 2 else mask
    if priority < getPriority s mask then some ((priority + s.priorityAdd) % 8) else none

def PicState2.getIrq (s : PicState2) (chip : Chip) : Option ℕ := picGetIrq chip (s.pic chip)

/-- The slave asks for the master's attention with an edge on its input 2. -/
def signalMaster (s : PicState2) : PicState2 :=
  if (s.getIrq .slave).isSome then
    { s with master := picSetIrq1 (picSetIrq1 s.master 2 true) 2 false }
  else s

def picUpdateIrq (s : PicState2) : PicState2 :=
  let s := signalMaster s
  { s with parentIrq := (s.getIrq .master).isSome }

def chipOf (irq : Fin 16) : Chip := if irq.val / 8 = 0 then .master else .slave

def i8259SetIrq (s : PicState2) (irq : Fin 16) (level : Bool) : PicState2 :=
  picUpdateIrq (s.set (chipOf irq) (picSetIrq1 (s.pic (chipOf irq)) (irq.val % 8) level))

def picIntack (s : PicState) (irq : ℕ) : PicState :=
  let s := if s.autoEoi then
      if s.rotateOnAutoEoi then { s with priorityAdd := (irq + 1) % 8 } else s
    else { s with isr := setBit s.isr irq }
  if s.elcr.getLsbD irq then s else { s with irr := clearBit s.irr irq }

/-- What `pic_read_irq` acknowledges: an interrupt of the master, and for its input 2 one of the
slave. -/
def acknowledged (s : PicState2) : Option ℕ × Option ℕ :=
  match s.getIrq .master with
  | none => (none, none)
  | some irq => (some irq, if irq = 2 then s.getIrq .slave else none)

def intackOpt (s : PicState) : Option ℕ → PicState
  | none => s
  | some irq => picIntack s irq

/-- The registers of `pic_read_irq` before it re-evaluates the line. -/
def intackBoth (s : PicState2) : PicState2 :=
  { s with master := intackOpt s.master (acknowledged s).1, slave := intackOpt s.slave (acknowledged s).2 }

/-- `pic_read_irq`, with the vector it returns. -/
def picReadIrq (s : PicState2) : ℕ × PicState2 :=
  let intno := match acknowledged s with
    | (none, _) => s.master.irqBase.toNat + 7
    | (some irq, slaveIrq) => if irq = 2 then s.slave.irqBase.toNat + slaveIrq.getD 7 else s.master.irqBase.toNat + irq
  (intno, picUpdateIrq (intackBoth s))

/-- `pic_reset`. The ELCR is not reset. -/
def picReset (s : PicState) : PicState :=
  ⟨0, 0, 0, 0, 0, 0, false, false, false, 0, false, false, false, false, false, s.elcr⟩

/-- The first initialisation word. -/
def icw1 (val : Byte) (s : PicState) : PicState :=
  { picReset s with initState := 1, init4 := val.getLsbD 0, singleMode := val.getLsbD 1 }

/-- The third operation word. -/
def ocw3 (val : Byte) (s : PicState) : PicState :=
  let s := if val.getLsbD 2 then { s with poll := true } else s
  let s := if val.getLsbD 1 then { s with readRegSelect := val.getLsbD 0 } else s
  if val.getLsbD 6 then { s with specialMask := val.getLsbD 5 } else s

/-- The second operation word, and whether the line is re-evaluated. -/
def ocw2 (val : Byte) (s : PicState) : PicState × Bool :=
  let cmd := val.toNat / 32
  let eoi := fun irq rotate (s : PicState) =>
    let s := { s with isr := clearBit s.isr irq }
    if rotate then { s with priorityAdd := (irq + 1) % 8 } else s
  if cmd = 0 ∨ cmd = 4 then ({ s with rotateOnAutoEoi := decide (cmd = 4) }, false)
  else if cmd = 1 ∨ cmd = 5 then
    let priority := getPriority s s.isr
    if priority = 8 then (s, false) else (eoi ((priority + s.priorityAdd) % 8) (decide (cmd = 5)) s, true)
  else if cmd = 3 then (eoi (val.toNat % 8) false s, true)
  else if cmd = 6 then ({ s with priorityAdd := (val.toNat + 1) % 8 }, true)
  else if cmd = 7 then (eoi (val.toNat % 8) true s, true)
  else (s, false)

/-- A write to the second port: the mask, or the next initialisation word. -/
def dataWrite (val : Byte) (s : PicState) : PicState × Bool :=
  match s.initState with
  | 0 => ({ s with imr := val }, true)
  | 1 => ({ s with irqBase := val &&& 0xf8, initState := if s.singleMode then (if s.init4 then 3 else 0) else 2 }, false)
  | 2 => ({ s with initState := if s.init4 then 3 else 0 }, false)
  | 3 => ({ s with specialFullyNestedMode := val.getLsbD 4, autoEoi := val.getLsbD 1, initState := 0 }, false)

/-- The registers after a write, and the line re-evaluated where the write asks for it. -/
def written (s : PicState2) (chip : Chip) (r : PicState × Bool) : PicState2 :=
  if r.2 then picUpdateIrq (s.set chip r.1) else s.set chip r.1

/-- `pic_ioport_write` to the first or the second (`data`) port. The emulator gives up on level
sensitive mode. -/
def picIoportWrite (s : PicState2) (chip : Chip) (data : Bool) (val : Byte) : Option PicState2 :=
  if data then some (written s chip (dataWrite val (s.pic chip)))
  else if val.getLsbD 4 then
    if val.getLsbD 3 then none
    else some { s.set chip (icw1 val (s.pic chip)) with parentIrq := false }
  else if val.getLsbD 3 then some (s.set chip (ocw3 val (s.pic chip)))
  else some (written s chip (ocw2 val (s.pic chip)))

/-- The registers of `pic_poll_read` after it has taken interrupt `irq` of a chip. -/
def pollAck (s : PicState2) (chip : Chip) (irq : ℕ) : PicState2 :=
  let s := match chip with
    | .master => s
    | .slave => { s with master := { s.master with isr := clearBit s.master.isr 2, irr := clearBit s.master.irr 2 } }
  s.set chip { s.pic chip with irr := clearBit (s.pic chip).irr irq, isr := clearBit (s.pic chip).isr irq }

def picPollRead (s : PicState2) (chip : Chip) : ℕ × PicState2 :=
  match s.getIrq chip with
  | none => (7, picUpdateIrq s)
  | some irq =>
    let t := pollAck s chip irq
    (irq, if chip = .slave ∨ irq ≠ 2 then picUpdateIrq t else t)

def clearPoll (s : PicState2) (chip : Chip) : PicState2 := s.set chip { s.pic chip with poll := false }

def picIoportRead (s : PicState2) (chip : Chip) (data : Bool) : ℕ × PicState2 :=
  if (s.pic chip).poll then
    let (ret, t) := picPollRead s chip
    (ret, clearPoll t chip)
  else if data then ((s.pic chip).imr.toNat, s)
  else if (s.pic chip).readRegSelect then ((s.pic chip).isr.toNat, s)
  else ((s.pic chip).irr.toNat, s)

def picIntackRead (s : PicState2) : ℕ × PicState2 :=
  let (ret, t) := picPollRead s .master
  let (ret, t) := if ret = 2 then
      let (ret, t) := picPollRead t .slave
      (ret + 8, t)
    else (ret, t)
  (ret, { t with master := { t.master with readRegSelect := true } })

def elcrIoportWrite (s : PicState2) (chip : Chip) (val : Byte) : PicState2 :=
  s.set chip { s.pic chip with elcr := val &&& chip.elcrMask }

/-! ### The system -/

/-- The controllers, the levels of the inputs, and the inputs whose last edge has not been
acknowledged. -/
structure Sys where
  pics : PicState2
  level : Chip → Byte
  owed : Chip → Byte

def PicState.init : PicState := ⟨0, 0, 0, 0, 0, 0, false, false, false, 0, false, false, false, false, false, 0⟩

/-- The state after `i8259_init`. -/
def Sys.init : Sys := ⟨⟨.init, .init, false⟩, fun _ => 0, fun _ => 0⟩

inductive Op where
  | setIrq (irq : Fin 16) (level : Bool)
  | write (chip : Chip) (data : Bool) (val : Byte)
  | read (chip : Chip) (data : Bool)
  | elcrWrite (chip : Chip) (val : Byte)
  | readIrq
  | intackRead

/-- A chip's edges after some interrupt of it has been acknowledged. -/
def settle (owed : Chip → Byte) (chip : Chip) : Option ℕ → Chip → Byte
  | none => owed
  | some irq => Function.update owed chip (clearBit (owed chip) irq)

/-- The edges that an operation leaves to be acknowledged. -/
def owedAfter (s : Sys) : Op → Chip → Byte
  | .setIrq irq level =>
    if level ∧ (s.level (chipOf irq)).getLsbD (irq.val % 8) = false ∧
        (s.pics.pic (chipOf irq)).elcr.getLsbD (irq.val % 8) = false then
      Function.update s.owed (chipOf irq) (setBit (s.owed (chipOf irq)) (irq.val % 8))
    else s.owed
  | .write chip data val => if data = false ∧ val.getLsbD 4 then Function.update s.owed chip 0 else s.owed
  | .read chip _ => if (s.pics.pic chip).poll then settle s.owed chip (s.pics.getIrq chip) else s.owed
  | .elcrWrite _ _ => s.owed
  | .readIrq => settle (settle s.owed .master (acknowledged s.pics).1) .slave (acknowledged s.pics).2
  | .intackRead =>
    let owed := settle s.owed .master (s.pics.getIrq .master)
    if (picPollRead s.pics .master).1 = 2 then settle owed .slave ((picPollRead s.pics .master).2.getIrq .slave) else owed

def levelAfter (s : Sys) : Op → Chip → Byte
  | .setIrq irq level =>
    Function.update s.level (chipOf irq)
      (if level then setBit (s.level (chipOf irq)) (irq.val % 8) else clearBit (s.level (chipOf irq)) (irq.val % 8))
  | _ => s.level

def picsAfter (s : PicState2) : Op → Option PicState2
  | .setIrq irq level => some (i8259SetIrq s irq level)
  | .write chip data val => picIoportWrite s chip data val
  | .read chip data => some (picIoportRead s chip data).2
  | .elcrWrite chip val => some (elcrIoportWrite s chip val)
  | .readIrq => some (picReadIrq s).2
  | .intackRead => some (picIntackRead s).2

def Sys.step (s : Sys) (op : Op) : Option Sys :=
  (picsAfter s.pics op).map fun t => ⟨t, levelAfter s op, owedAfter s op⟩

end Ar7Qemu.I8259
