import Ar7Qemu.Ar7.Reg
import Ar7Qemu.Lib.FlashArray
import Ar7Qemu.Lib.WordBytes

/-! The I/O map of the AR7 for a little-endian guest: the chain of range tests, the blocks that are
registers, and the accesses of each width. The blocks that have a device behind them are left to the
board. -/

namespace Ar7Qemu.Ar7

open Lib

/-! ### Blocks -/

/-- The blocks of the I/O map. -/
inductive Block where
  | adsl | bbif | atmsar | usbslave | vlynq1region0 | vlynq1region1 | cpmac0 | emif | gpio | clockControl | watchdog
  | timer0 | timer1 | uart0 | uart1 | usb | resetControl | dcl | vlynq0 | vlynq1 | mdio | wdt | intc | cpmac1
  deriving DecidableEq

namespace Block

def base : Block → ℕ
  | adsl => 0x01000000
  | bbif => 0x02000000
  | atmsar => 0x03000000
  | usbslave => 0x03400000
  | vlynq1region0 => 0x0c000000
  | vlynq1region1 => 0x0c022000
  | cpmac0 => 0x08610000
  | emif => 0x08610800
  | gpio => 0x08610900
  | clockControl => 0x08610a00
  | watchdog => 0x08610b00
  | timer0 => 0x08610c00
  | timer1 => 0x08610d00
  | uart0 => 0x08610e00
  | uart1 => 0x08610f00
  | usb => 0x08611200
  | resetControl => 0x08611600
  | dcl => 0x08611a00
  | vlynq0 => 0x08611800
  | vlynq1 => 0x08611c00
  | mdio => 0x08611e00
  | wdt => 0x08611f00
  | intc => 0x08612400
  | cpmac1 => 0x08612800

/-- The size of the member of `ar7_register_t`. -/
def size : Block → ℕ
  | adsl => 4 * 0x8000
  | bbif => 4 * 3
  | atmsar => 4 * 0x2400
  | usbslave => 4 * 0x800
  | vlynq1region0 => 8 * 1024
  | vlynq1region1 => 128 * 1024
  | cpmac0 | cpmac1 => 0x800
  | emif | clockControl | vlynq0 | vlynq1 => 0x100
  | gpio => 32
  | watchdog => 4 * 0x20
  | timer0 | timer1 => 16
  | uart0 | uart1 | wdt => 4 * 8
  | usb => 4 * 20
  | resetControl => 4 * 3
  | dcl => 20
  | mdio => 0x90
  | intc => 0x300

/-- The blocks in the order in which an address is compared with them. -/
def chain : List Block :=
  [adsl, bbif, atmsar, usbslave, vlynq1region0, vlynq1region1, cpmac0, emif, gpio, clockControl, watchdog, timer0, timer1,
    uart0, uart1, usb, resetControl, dcl, vlynq0, vlynq1, mdio, wdt, intc, cpmac1]

end Block

/-- `INRANGE` of the source, which leaves out the last byte. -/
def InRange (base size addr : ℕ) : Prop := base ≤ addr ∧ addr < base + size - 1

instance (base size addr : ℕ) : Decidable (InRange base size addr) := instDecidableAnd

def Block.Covers (b : Block) (addr : ℕ) : Prop := InRange b.base b.size addr

instance (b : Block) : DecidablePred b.Covers := fun _ => instDecidableAnd

/-- The block that an address is in. -/
def locate (addr : ℕ) : Option Block := Block.chain.find? fun b => decide (b.Covers addr)

/-- What the board adds: the index of the VLYNQ with the TNETW1130, and the devices with their own
state, which get the offset in their block. An access fails when an assertion does. -/
structure Board (ρ : Type*) where
  vlynqTnetw1130 : ℕ
  devRead : Block → ℕ → ρ → Option (Word × ρ)
  devWrite : Block → ℕ → Word → ρ → Option ρ
  displayWrite : ℕ → Word → ρ → Option ρ

/-- The registers of the blocks, whether a reset has been requested, and the devices. The source keeps some
blocks as words, and their elements are the words at the multiples of four as well. -/
structure Io (ρ : Type*) where
  regs : Block → Regs
  resetRequested : Bool
  devices : ρ

def Io.setRegs {ρ : Type*} (s : Io ρ) (b : Block) (reg : Regs) : Io ρ := { s with regs := Function.update s.regs b reg }

section Accesses

variable {ρ : Type*} (bd : Board ρ) (s : Io ρ)

/-! ### Registers -/

def emifRev : ℕ := 0x00
def dclBootConfig : ℕ := 0x00
def vlynqRevid : ℕ := 0x00
def vlynqCtrl : ℕ := 0x04
def vlynqStat : ℕ := 0x08
def vlynqIntstatclr : ℕ := 0x10
def vlynqRstat : ℕ := 0x88
def vlynqRchipver : ℕ := 0xc0
def displayBase : ℕ := 0x1f000000

def ar7EmifWrite (offset : ℕ) (value : Word) : Io ρ :=
  if offset = emifRev then s else s.setRegs .emif (regWrite (s.regs .emif) offset value)

/-- The configuration is stored before the assertion that it is not written. -/
def ar7DclWrite (offset : ℕ) (val : Word) : Option (Io ρ) :=
  if offset = dclBootConfig then none else some (s.setRegs .dcl (regWrite (s.regs .dcl) offset val))

def ar7ResetWrite (offset : ℕ) : Io ρ := if offset = 4 then { s with resetRequested := true } else s

def ar7VlynqRead (b : Block) (vlynqIndex offset : ℕ) : Word × Io ρ :=
  let val := regRead (s.regs b) offset
  if offset = vlynqRevid then (0x00010206, s)
  else if offset = vlynqIntstatclr then (val, s.setRegs b (regWrite (s.regs b) offset 0))
  else if offset = vlynqRchipver ∧ vlynqIndex = bd.vlynqTnetw1130 then (0x00000009, s)
  else (val, s)

/-- A write to the control register sets up the link, or takes it down. -/
def ar7VlynqWrite (b : Block) (vlynqIndex offset : ℕ) (val : Word) : Io ρ :=
  let vlynq := s.regs b
  let vlynq := if offset = vlynqCtrl ∧ vlynqIndex = bd.vlynqTnetw1130 then
      if val &&& bit 0 = 0 then regSet (regSet vlynq vlynqStat (bit 0)) vlynqRstat (bit 0)
      else regClear (regClear vlynq vlynqStat (bit 0)) vlynqRstat (bit 0)
    else vlynq
  s.setRegs b (regWrite vlynq offset val)

/-! ### Words -/

def blockRead (b : Block) (offset : ℕ) : Option (Word × Io ρ) :=
  match b with
  | .adsl | .bbif | .usbslave | .vlynq1region0 | .vlynq1region1 | .emif | .gpio | .usb | .resetControl | .dcl | .wdt =>
    some (regRead (s.regs b) offset, s)
  | .atmsar =>
    let val := regRead (s.regs b) offset
    some (if val = 0 ∧ offset = 0x90 then 0x80000000 else val, s)
  | .vlynq0 => some (ar7VlynqRead bd s b 0 offset)
  | .vlynq1 => some (ar7VlynqRead bd s b 1 offset)
  | b => (bd.devRead b offset s.devices).map fun r => (r.1, { s with devices := r.2 })

def blockWrite (b : Block) (offset : ℕ) (val : Word) : Option (Io ρ) :=
  match b with
  | .adsl | .bbif | .atmsar | .vlynq1region0 | .vlynq1region1 | .gpio | .usb | .wdt =>
    some (s.setRegs b (regWrite (s.regs b) offset val))
  | .usbslave => some (s.setRegs b (regWrite (s.regs b) offset 0xffffffff))
  | .emif => some (ar7EmifWrite s offset val)
  | .resetControl => some (ar7ResetWrite (s.setRegs b (regWrite (s.regs b) offset val)) offset)
  | .dcl => ar7DclWrite s offset val
  | .vlynq0 => some (ar7VlynqWrite bd s b 0 offset val)
  | .vlynq1 => some (ar7VlynqWrite bd s b 1 offset val)
  | b => (bd.devWrite b offset val s.devices).map fun r => { s with devices := r }

def ar7IoMemread (addr : ℕ) : Option (Word × Io ρ) :=
  if addr % 4 ≠ 0 then none
  else
    match locate addr with
    | some b => blockRead bd s b (addr - b.base)
    | none => some (0xffffffff, s)

def ar7IoMemwrite (addr : ℕ) (val : Word) : Option (Io ρ) :=
  if addr % 4 ≠ 0 then none
  else
    match locate addr with
    | some b => blockWrite bd s b (addr - b.base) val
    | none =>
      if displayBase + 0x408 ≤ addr ∧ addr < displayBase + 0x453 then
        (bd.displayWrite (addr - displayBase) val s.devices).map fun r => { s with devices := r }
      else some s

/-! ### Bytes and half words -/

def wordAddr (addr : ℕ) : ℕ := addr / 4 * 4

/-- The bytes that are written into the old word. -/
def Merged (addr : ℕ) : Prop := InRange (Block.vlynq0.base + vlynqCtrl) 4 addr ∨ Block.gpio.Covers addr

instance : DecidablePred Merged := fun _ => instDecidableOr

/-- The branches of the source for the other bytes all write the value to the word. -/
def ioWriteb (addr : ℕ) (value : Word) : Option (Io ρ) :=
  if Merged addr then do
    let (oldvalue, s) ← ar7IoMemread bd s (wordAddr addr)
    let oldvalue := oldvalue &&& ~~~(0xff#32 <<< (8 * (addr % 4)))
    ar7IoMemwrite bd s (wordAddr addr) (oldvalue + (value &&& 0xff#32) <<< (8 * (addr % 4)))
  else ar7IoMemwrite bd s (wordAddr addr) value

def ioReadb (addr : ℕ) : Option (Word × Io ρ) := do
  let (value, s) ← ar7IoMemread bd s (wordAddr addr)
  if Block.bbif.Covers addr ∨ Block.gpio.Covers addr then some (value >>> (8 * (addr % 4)) &&& 0xff#32, s)
  else if Block.clockControl.Covers addr then do
    let (value, s) ← blockRead bd s .clockControl (wordAddr addr - Block.clockControl.base)
    some (value >>> (8 * (addr % 4)) &&& 0xff#32, s)
  else some (value &&& 0xff#32, s)

def ioWritew (addr : ℕ) (value : Word) : Option (Io ρ) :=
  if addr % 4 = 0 then ar7IoMemwrite bd s addr value
  else if addr % 4 = 2 then ar7IoMemwrite bd s (addr - 2) (value <<< 16)
  else none

def ioReadw (addr : ℕ) : Option (Word × Io ρ) := do
  let (value, s) ← ar7IoMemread bd s (wordAddr addr)
  if addr % 4 = 0 then some (value &&& 0xffff#32, s)
  else if addr % 4 = 2 then some (value >>> 16, s)
  else none

/-- `io_readb`, `io_readw` or `io_readl`. -/
def ioRead (width : Width) (addr : ℕ) : Option (Word × Io ρ) :=
  match width with
  | .b => ioReadb bd s addr
  | .w => ioReadw bd s addr
  | .l => ar7IoMemread bd s addr

/-- `io_writeb`, `io_writew` or `io_writel`. -/
def ioWrite (width : Width) (addr : ℕ) (value : Word) : Option (Io ρ) :=
  match width with
  | .b => ioWriteb bd s addr value
  | .w => ioWritew bd s addr value
  | .l => ar7IoMemwrite bd s addr value

end Accesses

/-! ### Blocks do not overlap -/

theorem mem_chain (b : Block) : b ∈ Block.chain := by cases b <;> decide

theorem disjoint_blocks (b c : Block) : b = c ∨ b.base + b.size ≤ c.base ∨ c.base + c.size ≤ b.base := by
  cases b <;> cases c <;> decide

theorem aligned_block (b : Block) : b.base % 4 = 0 ∧ b.size % 4 = 0 := by cases b <;> decide

theorem locate_eq {b : Block} {addr : ℕ} (h : b.Covers addr) : locate addr = some b := by
  cases hfind : locate addr with
  | none => exact absurd (decide_eq_true h) (List.find?_eq_none.1 hfind b (mem_chain b))
  | some c =>
    have hc : c.Covers addr := of_decide_eq_true (List.find?_some (p := fun b => decide (Block.Covers b addr)) hfind)
    rcases disjoint_blocks b c with rfl | hbc | hcb
    · rfl
    · exact absurd (hbc.trans hc.1) (by have := h.2; omega)
    · exact absurd (hcb.trans h.1) (by have := hc.2; omega)

theorem locate_wordAddr {b : Block} {addr : ℕ} (hbase : b.base ≤ addr) (hsize : addr < b.base + b.size) :
    locate (wordAddr addr) = some b := by
  obtain ⟨h₁, h₂⟩ := aligned_block b
  refine locate_eq ⟨?_, ?_⟩
  · unfold wordAddr
    omega
  · unfold wordAddr
    omega

end Ar7Qemu.Ar7
