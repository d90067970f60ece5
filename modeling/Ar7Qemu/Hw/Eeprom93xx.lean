import Mathlib.Data.BitVec
import Mathlib.Tactic.Common
import Mathlib.Tactic.Ring

/-! The Microwire EEPROM. A chip select cycle clocks a command in, bit by bit: a start bit,
two bits of opcode, the address and for some commands 16 bits of data. The end of the cycle
carries it out. -/

namespace Ar7Qemu.Hw

/-- The state of an EEPROM. Words from `size` on are memory behind the array. -/
structure Eeprom where
  tick : ℕ
  address : ℕ
  command : ℕ
  writeable : Bool
  eecs : Bool
  eesk : Bool
  eedo : Bool
  addrbits : ℕ
  size : ℕ
  data : BitVec 16
  contents : ℕ → BitVec 16

namespace Eeprom

/-- The end of a chip select cycle, which triggers write and erase. -/
def endCycle (e : Eeprom) : Eeprom :=
  if e.writeable then
    let subcommand := e.address >>> (e.addrbits - 2) % 256
    if e.command = 0 ∧ subcommand = 2 then
      { e with address := e.size % 256, contents := fun a => if a < e.size then 0xffff else e.contents a }
    else if e.command = 3 then
      { e with contents := Function.update e.contents e.address 0xffff }
    else if 2 + 2 + e.addrbits + 16 ≤ e.tick then
      if e.command = 1 then
        { e with contents := Function.update e.contents e.address (e.contents e.address &&& e.data) }
      else if e.command = 0 ∧ subcommand = 1 then
        { e with
          address := e.size % 256
          contents := fun a => if a < e.size then e.contents a &&& e.data else e.contents a }
      else e
    else e
  else e

def gotAddress (e : Eeprom) (address : ℕ) : Eeprom :=
  let eedo := if e.command = 2 then false else e.eedo
  let address := address % e.size
  if e.command = 0 then
    -- the code of the command is in the upper two bits of the address
    { e with
      address := address % 256
      eedo := eedo
      writeable :=
        if address >>> (e.addrbits - 2) = 0 then false
        else if address >>> (e.addrbits - 2) = 3 then true
        else e.writeable }
  else
    { e with address := address % 256, eedo := eedo, data := e.contents address }

/-- The raising edge of the clock shifts a bit in. -/
def shiftIn (e : Eeprom) (eedi : Bool) : Eeprom :=
  if e.tick = 0 then
    if eedi then { e with tick := e.tick + 1 } else e
  else if e.tick < 1 + 2 then
    { e with tick := e.tick + 1, command := (2 * e.command + eedi.toNat) % 256 }
  else if e.tick < 1 + 2 + e.addrbits then
    let address := (2 * e.address + eedi.toNat) % 65536
    let e := { e with tick := e.tick + 1 }
    if e.tick = 1 + 2 + e.addrbits then gotAddress e address else { e with address := address % 256 }
  else if e.tick < 1 + 2 + e.addrbits + 16 then
    { e with
      tick := e.tick + 1
      eedo := if e.command = 2 then e.data.getLsbD 15 else e.eedo
      data := e.data <<< 1 + BitVec.ofNat 16 eedi.toNat }
  else e

end Eeprom

/-- The levels of the three input pins. -/
structure Pins where
  eecs : Bool
  eesk : Bool
  eedi : Bool
  deriving DecidableEq

def eeprom93xxWrite (e : Eeprom) (p : Pins) : Eeprom :=
  let e' :=
    if !e.eecs && p.eecs then { e with tick := 0, command := 0, address := 0 }
    else if e.eecs && !p.eecs then { e.endCycle with eedo := true }
    else if p.eecs && !e.eesk && p.eesk then e.shiftIn p.eedi
    else e
  { e' with eecs := p.eecs, eesk := p.eesk }

/-- The level of pin DO. -/
def eeprom93xxRead (e : Eeprom) : Bool := e.eedo

def addrbitsOf : ℕ → Option ℕ
  | 16 => some 6
  | 64 => some 6
  | 128 => some 8
  | 256 => some 8
  | _ => none

def eeprom93xxNew (nwords : ℕ) : Option Eeprom :=
  (addrbitsOf nwords).map fun addrbits => ⟨0, 0, 0, false, false, false, true, addrbits, nwords, 0, fun _ => 0⟩

/-! ### Commands -/

/-- The lowest `n` bits of `v`, the highest first. -/
def bitsOf : ℕ → ℕ → List Bool
  | 0, _ => []
  | n + 1, v => v.testBit n :: bitsOf n v

/-- The commands of the protocol. The extended ones have bits of the address to spare, and
the bits clocked in during a read are ignored. -/
inductive EepromCmd where
  | read (a : ℕ) (fill : ℕ)
  | write (a : ℕ) (d : BitVec 16)
  | erase (a : ℕ)
  | ewds (x : ℕ)
  | wral (x : ℕ) (d : BitVec 16)
  | eral (x : ℕ)
  | ewen (x : ℕ)

/-- Opcode, address field and data of a command, after its start bit. -/
def EepromCmd.encode (addrbits : ℕ) : EepromCmd → List Bool
  | .read a fill => [true, false] ++ bitsOf addrbits a ++ bitsOf 16 fill
  | .write a d => [false, true] ++ bitsOf addrbits a ++ bitsOf 16 d.toNat
  | .erase a => [true, true] ++ bitsOf addrbits a
  | .ewds x => [false, false] ++ ([false, false] ++ bitsOf (addrbits - 2) x)
  | .wral x d => [false, false] ++ ([false, true] ++ bitsOf (addrbits - 2) x) ++ bitsOf 16 d.toNat
  | .eral x => [false, false] ++ ([true, false] ++ bitsOf (addrbits - 2) x)
  | .ewen x => [false, false] ++ ([true, true] ++ bitsOf (addrbits - 2) x)

/-- The bits that pin DI has at the raising edges of the clock, while the chip is selected. -/
def clocked : Bool → List (Bool × Bool) → List Bool
  | _, [] => []
  | eesk, (sk, di) :: ps => if !eesk && sk then di :: clocked sk ps else clocked sk ps

/-- The pins while the chip is selected, from clock and data. -/
def selected (ps : List (Bool × Bool)) : List Pins := ps.map fun p => ⟨true, p.1, p.2⟩

/-- A chip select cycle: the chip is selected, clock and data change, the chip is released. -/
structure Cycle where
  first : Bool × Bool
  body : List (Bool × Bool)
  last : Bool × Bool

def Cycle.opening (c : Cycle) (e : Eeprom) : Eeprom := eeprom93xxWrite e ⟨true, c.first.1, c.first.2⟩

def Cycle.run (c : Cycle) (e : Eeprom) : Eeprom :=
  eeprom93xxWrite ((selected c.body).foldl eeprom93xxWrite (c.opening e)) ⟨false, c.last.1, c.last.2⟩

/-- The cycle clocks a complete command in, after any number of leading zeros. -/
def Cycle.Clocks (c : Cycle) (addrbits zeros : ℕ) (cmd : EepromCmd) : Prop :=
  clocked c.first.1 c.body = List.replicate zeros false ++ true :: cmd.encode addrbits

end Ar7Qemu.Hw
