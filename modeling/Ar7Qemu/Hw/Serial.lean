import Ar7Qemu.Lib.RingFifo
import Mathlib.Data.BitVec

/-! The UART of `serial.c`. The guest writes and reads its registers, the character backend gives
it bytes and breaks and takes bytes or refuses them, and timers call it back. Times are left out:
a timer is armed or not. Beside the device the system holds the bytes that are due to the guest and
to the backend. -/

namespace Ar7Qemu.Serial

open Lib

abbrev Byte := BitVec 8

def uartFifoLength : ℕ := 16

def maxXmitRetry : ℤ := 4

/-- `SerialFIFO`, less the trigger level. -/
abbrev SerialFifo := RingFifo Byte

def fifoClear : SerialFifo := ⟨fun _ => 0, 0, 0, 0⟩

/-- `fifo_put`. The count is a byte. -/
def fifoPut (f : SerialFifo) (chr : Byte) : SerialFifo :=
  { f.put uartFifoLength chr with count := (f.count + 1) % 256 }

def fifoGet (f : SerialFifo) : Byte × SerialFifo :=
  if f.count = 0 then (0, f) else (f.data f.tail, f.drop uartFifoLength)

/-- The bits of the line status register that are ever set. -/
structure Lsr where
  temt : Bool
  thre : Bool
  bi : Bool
  dr : Bool

def Lsr.toByte (l : Lsr) : Byte :=
  (if l.temt then 0x40 else 0) ||| (if l.thre then 0x20 else 0) ||| (if l.bi then 0x10 else 0) |||
    (if l.dr then 0x01 else 0)

structure SerialState where
  divider : BitVec 16
  rbr : Byte
  thr : Byte
  tsr : Byte
  ier : Byte
  iir : Byte
  lcr : Byte
  mcr : Byte
  lsr : Lsr
  msr : Byte
  scr : Byte
  fcr : Byte
  thrIpending : Bool
  irq : Bool
  lastBreakEnable : Bool
  tsrRetry : ℤ
  recvFifo : SerialFifo
  recvItl : ℕ
  xmitFifo : SerialFifo
  timeoutIpending : Bool
  transmitTimer : Bool
  pollMsl : ℤ

/-- `UART_FCR_FE`. -/
def SerialState.fifos (s : SerialState) : Bool := s.fcr.getLsbD 0

/-- `UART_MCR_LOOP`. -/
def SerialState.loop (s : SerialState) : Bool := s.mcr.getLsbD 4

/-- `UART_LCR_DLAB`. -/
def SerialState.dlab (s : SerialState) : Bool := s.lcr.getLsbD 7

def serialUpdateIrq (s : SerialState) : SerialState :=
  let tmpIir : Byte :=
    if s.ier.getLsbD 2 && s.lsr.bi then 0x06
    else if s.ier.getLsbD 0 && s.timeoutIpending then 0x0c
    else if s.ier.getLsbD 0 && s.lsr.dr then
      if !s.fifos then 0x04 else if s.recvItl ≤ s.recvFifo.count then 0x04 else 0x01
    else if s.ier.getLsbD 1 && s.thrIpending then 0x02
    else if s.ier.getLsbD 3 && decide (s.msr &&& 0x0f#8 ≠ 0) then 0x00
    else 0x01
  { s with iir := tmpIir ||| (s.iir &&& 0xf0#8), irq := decide (tmpIir ≠ 0x01) }

/-- The modem lines that the backend reports. -/
structure Tiocm where
  cts : Bool
  dsr : Bool
  car : Bool
  ri : Bool

/-- `serial_update_msl`; a backend that is no serial port reports nothing. -/
def serialUpdateMsl (tiocm : Option Tiocm) (s : SerialState) : SerialState :=
  match tiocm with
  | none => { s with pollMsl := -1 }
  | some t =>
    let omsr := s.msr
    let put := fun (msr : Byte) (on : Bool) (bit : Byte) => if on then msr ||| bit else msr &&& ~~~bit
    let msr := put (put (put (put omsr t.cts 0x10) t.dsr 0x20) t.car 0x80) t.ri 0x40
    if msr ≠ omsr then
      let msr := msr ||| ((msr >>> 4) ^^^ (omsr >>> 4))
      let msr := if msr.getLsbD 2 && !omsr.getLsbD 6 then msr &&& ~~~0x04#8 else msr
      serialUpdateIrq { s with msr := msr }
    else { s with msr := msr }

def serialReceive1 (buf : List Byte) (s : SerialState) : SerialState :=
  serialUpdateIrq
    (if s.fifos then { s with recvFifo := buf.foldl fifoPut s.recvFifo, lsr := { s.lsr with dr := true } }
     else { s with rbr := buf.headD 0, lsr := { s.lsr with dr := true } })

/-- The byte to send is taken from the queue or the holding register, unless the last one is tried
again. -/
def loadTsr (s : SerialState) : SerialState :=
  if s.tsrRetry ≤ 0 then
    if s.fifos then
      let (c, f) := fifoGet s.xmitFifo
      { s with tsr := c, xmitFifo := f, lsr := { s.lsr with thre := s.lsr.thre || decide (f.count = 0) } }
    else { s with tsr := s.thr, lsr := { s.lsr with thre := true } }
  else s

/-- The end of `serial_xmit`, where the byte is not tried again. -/
def xmitDone (s : SerialState) : SerialState :=
  if s.lsr.thre then serialUpdateIrq { s with lsr := { s.lsr with temt := true }, thrIpending := true }
  else { s with transmitTimer := true }

/-- `serial_xmit`, where the backend takes the byte or refuses it. -/
def serialXmit (accepted : Bool) (s : SerialState) : SerialState :=
  let s := loadTsr s
  if s.loop then xmitDone (serialReceive1 [s.tsr] s)
  else if accepted then xmitDone { s with tsrRetry := 0 }
  else if 0 < s.tsrRetry ∧ s.tsrRetry ≤ maxXmitRetry then
    { s with tsrRetry := s.tsrRetry + 1, transmitTimer := true }
  else if s.pollMsl < 0 then xmitDone { s with tsrRetry := -1 }
  else xmitDone s

/-- A write of the transmit holding register, before the byte is sent. -/
def putThr (val : Byte) (s : SerialState) : SerialState :=
  let s := { s with thr := val }
  if s.fifos then
    serialUpdateIrq { s with xmitFifo := fifoPut s.xmitFifo val, thrIpending := false
                             lsr := { s.lsr with temt := false, thre := false } }
  else serialUpdateIrq { s with thrIpending := false, lsr := { s.lsr with thre := false } }

/-- What a write to the FIFO control register resets: the two queues are flushed when they are
switched on or off. -/
def fcrVal (val : Byte) (s : SerialState) : Byte := if (val ^^^ s.fcr).getLsbD 0 then val ||| 0x06 else val

def recvItlOf (val : Byte) : ℕ :=
  if val &&& 0xc0#8 = 0x00 then 1 else if val &&& 0xc0#8 = 0x40 then 4 else if val &&& 0xc0#8 = 0x80 then 8 else 14

def writeFcr (val : Byte) (s : SerialState) : SerialState :=
  if s.fcr = val then s
  else
    let val := fcrVal val s
    let s := if val.getLsbD 1 then { s with timeoutIpending := false, recvFifo := fifoClear } else s
    let s := if val.getLsbD 2 then { s with xmitFifo := fifoClear } else s
    let s := if val.getLsbD 0 then { s with iir := s.iir ||| 0xc0#8, recvItl := recvItlOf val }
      else { s with iir := s.iir &&& ~~~0xc0#8 }
    serialUpdateIrq { s with fcr := val &&& 0xc9#8 }

def writeIer (val : Byte) (tiocm : Option Tiocm) (s : SerialState) : SerialState :=
  let s := { s with ier := val &&& 0x0f#8 }
  let s := if 0 ≤ s.pollMsl then
      if s.ier.getLsbD 3 then serialUpdateMsl tiocm { s with pollMsl := 1 } else { s with pollMsl := 0 }
    else s
  if s.lsr.thre then serialUpdateIrq { s with thrIpending := true } else s

/-- The register that an address names. -/
inductive Reg
  | data
  | ier
  | fcr
  | lcr
  | mcr
  | lsr
  | msr
  | scr

/-- Addresses from 8 on name the first register. -/
def regOf (addr : ℕ) : Reg :=
  match addr with
  | 1 => .ier
  | 2 => .fcr
  | 3 => .lcr
  | 4 => .mcr
  | 5 => .lsr
  | 6 => .msr
  | 7 => .scr
  | _ => .data

/-- `serial_ioport_write`; `accepted` is the backend's answer to a byte and `tiocm` to a question
for the modem lines. -/
def serialIoportWrite (addr : ℕ) (val : Byte) (accepted : Bool) (tiocm : Option Tiocm) (s : SerialState) : SerialState :=
  match regOf addr with
  | .data =>
    if s.dlab then { s with divider := (s.divider &&& 0xff00#16) ||| val.setWidth 16 }
    else serialXmit accepted (putThr val s)
  | .ier =>
    if s.dlab then { s with divider := (s.divider &&& 0x00ff#16) ||| (val.setWidth 16 <<< 8) }
    else writeIer val tiocm s
  | .fcr => writeFcr val s
  | .lcr => { s with lcr := val, lastBreakEnable := val.getLsbD 6 }
  | .mcr => { s with mcr := val &&& 0x1f#8 }
  | .lsr => s
  | .msr => s
  | .scr => { s with scr := val }

def readRbr (s : SerialState) : Byte × SerialState :=
  if s.fifos then
    let (c, f) := fifoGet s.recvFifo
    let s := { s with recvFifo := f, timeoutIpending := false }
    (c, serialUpdateIrq (if f.count = 0 then { s with lsr := { s.lsr with dr := false, bi := false } } else s))
  else (s.rbr, serialUpdateIrq { s with lsr := { s.lsr with dr := false, bi := false } })

def readMsr (tiocm : Option Tiocm) (s : SerialState) : Byte × SerialState :=
  if s.loop then (((s.mcr &&& 0x0c#8) <<< 4) ||| ((s.mcr &&& 0x02#8) <<< 3) ||| ((s.mcr &&& 0x01#8) <<< 5), s)
  else
    let s := if 0 ≤ s.pollMsl then serialUpdateMsl tiocm s else s
    (s.msr, if s.msr &&& 0x0f#8 ≠ 0 then serialUpdateIrq { s with msr := s.msr &&& 0xf0#8 } else s)

def serialIoportRead (addr : ℕ) (tiocm : Option Tiocm) (s : SerialState) : Byte × SerialState :=
  match regOf addr with
  | .data => if s.dlab then (s.divider.setWidth 8, s) else readRbr s
  | .ier => if s.dlab then ((s.divider >>> 8).setWidth 8, s) else (s.ier, s)
  | .fcr => (s.iir, serialUpdateIrq { s with thrIpending := false })
  | .lcr => (s.lcr, s)
  | .mcr => (s.mcr, s)
  | .lsr => (s.lsr.toByte, if s.lsr.bi then serialUpdateIrq { s with lsr := { s.lsr with bi := false } } else s)
  | .msr => readMsr tiocm s
  | .scr => (s.scr, s)

def serialCanReceive (s : SerialState) : ℕ :=
  if s.fifos then
    if s.recvFifo.count < uartFifoLength then
      if s.recvFifo.count ≤ s.recvItl then s.recvItl - s.recvFifo.count else 1
    else 0
  else if s.lsr.dr then 0 else 1

def serialReceiveBreak (s : SerialState) : SerialState :=
  serialUpdateIrq { s with rbr := 0, lsr := { s.lsr with bi := true, dr := true } }

def fifoTimeoutInt (s : SerialState) : SerialState :=
  if s.recvFifo.count ≠ 0 then serialUpdateIrq { s with timeoutIpending := true } else s

/-- `serial_reset`, on a device that was cleared when it was allocated. -/
def SerialState.init : SerialState where
  divider := 0x0c
  rbr := 0
  thr := 0
  tsr := 0
  ier := 0
  iir := 0x01
  lcr := 0
  mcr := 0x08
  lsr := ⟨true, true, false, false⟩
  msr := 0xb0
  scr := 0
  fcr := 0
  thrIpending := false
  irq := false
  lastBreakEnable := false
  tsrRetry := 0
  recvFifo := fifoClear
  recvItl := 0
  xmitFifo := fifoClear
  timeoutIpending := false
  transmitTimer := false
  pollMsl := 0

/-! ### The data that is due -/

/-- What a UART owes to its two sides, apart from how it holds it. -/
structure Ledger where
  /-- The bytes received or looped back that were neither read nor discarded. -/
  unread : List Byte
  /-- A break came and the guest has not read it. -/
  brk : Bool
  /-- What the guest read with data ready, and what it had to read. -/
  got : List Byte
  due : List Byte
  /-- What the backend took, and what the guest wrote for it. -/
  sent : List Byte
  owed : List Byte
  /-- How often in a row the backend refused the byte in hand. -/
  refusals : ℕ

/-- The byte of the transmitter is looped back, taken or refused; one that was refused too often is
given up. `d` is the device before it sends. -/
def Ledger.tried (l : Ledger) (d : SerialState) (accepted : Bool) : Ledger :=
  let c := (loadTsr d).tsr
  if d.loop then { l with unread := l.unread ++ [c] }
  else if accepted then { l with sent := l.sent ++ [c], refusals := 0 }
  else
    let refusals := if d.tsrRetry ≤ 0 then 1 else l.refusals + 1
    { l with refusals := refusals
             owed := if maxXmitRetry < refusals then l.owed.eraseIdx l.sent.length else l.owed }

/-- The guest resets a receive queue that is in use before or after. -/
def discards (val : Byte) (d : SerialState) : Prop :=
  d.fcr ≠ val ∧ (fcrVal val d).getLsbD 1 = true ∧ (d.fifos = true ∨ (fcrVal val d).getLsbD 0 = true)

instance (val : Byte) (d : SerialState) : Decidable (discards val d) :=
  inferInstanceAs (Decidable (_ ∧ _ ∧ _))

def Ledger.written (l : Ledger) (d : SerialState) (addr : ℕ) (val : Byte) (accepted : Bool) : Ledger :=
  match regOf addr with
  | .data =>
    if d.dlab then l
    else Ledger.tried { l with owed := if d.loop then l.owed else l.owed ++ [val] } (putThr val d) accepted
  | .fcr => if discards val d then { l with unread := [] } else l
  | _ => l

def Ledger.read (l : Ledger) (d : SerialState) (addr : ℕ) (ret : Byte) : Ledger :=
  match regOf addr with
  | .data =>
    if d.dlab then l
    else { l with unread := l.unread.tail, brk := l.brk && !l.unread.tail.isEmpty
                  got := if d.lsr.dr then l.got ++ [ret] else l.got
                  due := if d.lsr.dr then l.due ++ [l.unread.headD 0] else l.due }
  | _ => l

structure Sys where
  dev : SerialState
  led : Ledger

def Sys.init : Sys := ⟨.init, ⟨[], false, [], [], [], [], 0⟩⟩

inductive Op
  | write (addr : ℕ) (val : Byte) (accepted : Bool) (tiocm : Option Tiocm)
  | read (addr : ℕ) (tiocm : Option Tiocm)
  | receive (buf : List Byte)
  | receiveBreak
  | transmitTimer (accepted : Bool)
  | fifoTimeout
  | modemPoll (tiocm : Option Tiocm)

/-- The backend gives at least one byte and at most as many as the device can receive, and the
transmitter is called back when it asked for it. -/
def Sys.step (s : Sys) : Op → Option Sys
  | .write addr val accepted tiocm =>
    some ⟨serialIoportWrite addr val accepted tiocm s.dev, s.led.written s.dev addr val accepted⟩
  | .read addr tiocm =>
    let (ret, d) := serialIoportRead addr tiocm s.dev
    some ⟨d, s.led.read s.dev addr ret⟩
  | .receive buf =>
    if buf ≠ [] ∧ buf.length ≤ serialCanReceive s.dev then
      some ⟨serialReceive1 buf s.dev, { s.led with unread := s.led.unread ++ buf }⟩
    else none
  | .receiveBreak => some ⟨serialReceiveBreak s.dev, { s.led with brk := true }⟩
  | .transmitTimer accepted =>
    if s.dev.transmitTimer then
      let d := { s.dev with transmitTimer := false }
      some ⟨serialXmit accepted d, s.led.tried d accepted⟩
    else none
  | .fifoTimeout => some ⟨fifoTimeoutInt s.dev, s.led⟩
  | .modemPoll tiocm => some ⟨serialUpdateMsl tiocm s.dev, s.led⟩

/-- The bytes for the backend that the device still holds. -/
def SerialState.inTransit (d : SerialState) : List Byte :=
  (if 0 < d.tsrRetry then [d.tsr] else []) ++
    (if d.fifos then d.xmitFifo.contents uartFifoLength else if d.lsr.thre then [] else [d.thr])

/-- No data is lost and none is invented. -/
structure Right (s : Sys) : Prop where
  recv_le : s.dev.recvFifo.count ≤ uartFifoLength
  xmit_le : s.dev.xmitFifo.count ≤ uartFifoLength
  queue : s.dev.fifos = true → s.dev.recvFifo.contents uartFifoLength = s.led.unread
  holding : s.dev.fifos = false → s.dev.recvFifo.count = 0 ∧ (s.led.unread = [] ∨ s.led.unread = [s.dev.rbr])
  ready : s.dev.lsr.dr = true ↔ s.led.unread ≠ [] ∨ s.led.brk = true
  reads : s.led.got = s.led.due
  writes : s.led.sent ++ s.dev.inTransit = s.led.owed

/-- A byte that is looped back finds room and one that is sent is taken; a reset finds no unread
byte, or a break beside it; and a break finds no other byte in the holding register, and is read
from one that holds a null. -/
def OpSafe (s : Sys) : Op → Prop
  | .write addr val accepted _ =>
    match regOf addr with
    | .data => s.dev.dlab = false →
      if s.dev.loop then if s.dev.fifos then s.dev.recvFifo.count < uartFifoLength else s.led.unread = []
      else accepted = true
    | .fcr => discards val s.dev → s.led.unread = [] ∨ s.led.brk = true
    | _ => True
  | .read addr _ =>
    match regOf addr with
    | .data => s.dev.dlab = false → s.dev.fifos = false → s.led.brk = true → s.led.unread = [] → s.dev.rbr = 0
    | _ => True
  | .receiveBreak => s.dev.fifos = true ∨ s.led.unread = [] ∨ s.led.unread = [0]
  | _ => True

end Ar7Qemu.Serial
