import Ar7Qemu.Lib.Run
import Ar7Qemu.Ar7.Reg
import Mathlib.Tactic.FinCases

/-! The interrupt controller of the AR7. It drives line 2 of the CPU from the status and
enable registers and leaves the number of a channel in the priority index register. The
line is always right. The index is not: it is taken from the clear register, and only on
some paths, so the theorem at the end says which steps leave it right. -/

namespace Ar7Qemu.Ar7

open Lib

/-! ### The controller -/

def intcSr1 : ℕ := 0x00
def intcSr2 : ℕ := 0x04
def intcCr1 : ℕ := 0x10
def intcCr2 : ℕ := 0x14
def intcEsr1 : ℕ := 0x20
def intcEsr2 : ℕ := 0x24
def intcEcr1 : ℕ := 0x30
def intcEcr2 : ℕ := 0x34
def intcPiir : ℕ := 0x40
def intcExsr : ℕ := 0x80
def intcExcr : ℕ := 0x88
def intcExiesr : ℕ := 0x90
def intcExiecr : ℕ := 0x98

def numPrimaryIrqs : ℕ := 40

/-- The registers, the private latch `intset` and the level of `env->irq[2]`. -/
structure Intc where
  intc : Regs
  intset : Bool
  irq2 : Bool

/-- The controller at power on. -/
def Intc.init : Intc := ⟨fun _ => 0, false, false⟩

/-- What the source writes to `INTC_PIIR` for a channel. -/
def piirValue (channel : ℕ) : Word := (BitVec.ofNat 32 channel <<< 16) ||| BitVec.ofNat 32 channel

/-- The channel at which the search of `ar7_update_interrupt` breaks. -/
def clearChannel (intc : Regs) : Option ℕ :=
  (List.range numPrimaryIrqs).find? fun channel =>
    regRead intc (intcCr1 + 4 * (channel / 32)) &&& bit (channel % 32) != 0

def ar7UpdateInterrupt (s : Intc) : Intc :=
  let maskedInt1 := regRead s.intc intcEsr1 &&& regRead s.intc intcSr1
  let maskedInt2 := regRead s.intc intcEsr2 &&& regRead s.intc intcSr2
  if maskedInt1 ≠ 0 ∨ maskedInt2 ≠ 0 then
    if !s.intset then
      { s with intset := true, irq2 := true }
    else
      match clearChannel s.intc with
      | some channel => { s with intc := regWrite s.intc intcPiir (piirValue channel) }
      | none => { s with intc := regWrite s.intc intcPiir 0 }
  else if s.intset then
    { s with intset := false, irq2 := false }
  else
    s

def ar7PrimaryIrq (channel : ℕ) (level : ℤ) (s : Intc) : Intc :=
  let cindex := channel / 32
  let offset := channel % 32
  if level ≠ 0 then
    let intmask := regRead s.intc (intcEsr1 + 4 * cindex)
    let s := if intmask &&& bit offset ≠ 0 then
        { s with intc := regWrite s.intc intcPiir (piirValue channel), irq2 := true }
      else s
    let intc := regSet s.intc (intcSr1 + 4 * cindex) (bit offset)
    ar7UpdateInterrupt { s with intc := regSet intc (intcCr1 + 4 * cindex) (bit offset) }
  else
    ar7UpdateInterrupt { s with intc := regClear s.intc (intcSr1 + 4 * cindex) (bit offset) }

/-- A write of the guest. The last branch ends in the assertion of `reg_write`. -/
def ar7IntcWrite (offset : ℕ) (val : Word) (s : Intc) : Option Intc :=
  if offset = intcSr1 ∨ offset = intcSr2 then
    some (ar7UpdateInterrupt { s with intc := regSet s.intc offset val })
  else if offset = intcCr1 ∨ offset = intcCr2 then
    let offset := offset - intcCr1
    let intc := regClear s.intc (intcSr1 + offset) val
    some (ar7UpdateInterrupt { s with intc := regClear intc (intcCr1 + offset) val })
  else if offset = intcEsr1 ∨ offset = intcEsr2 then
    some (ar7UpdateInterrupt { s with intc := regSet s.intc offset val })
  else if offset = intcEcr1 ∨ offset = intcEcr2 then
    let offset := offset + intcEsr1 - intcEcr1
    some (ar7UpdateInterrupt { s with intc := regClear s.intc offset val })
  else if offset = intcExsr then
    some { s with intc := regSet s.intc intcExsr val }
  else if offset = intcExcr then
    some (ar7UpdateInterrupt { s with intc := regClear s.intc intcExsr val })
  else if offset = intcExiesr then
    some (ar7UpdateInterrupt { s with intc := regSet s.intc intcExiesr val })
  else if offset = intcExiecr then
    some (ar7UpdateInterrupt { s with intc := regClear s.intc intcExiesr val })
  else if offset % 4 = 0 then
    some { s with intc := regWrite s.intc offset val }
  else
    none

/-! ### Runs -/

/-- The registers the guest drives interrupts with: set, clear, enable and disable, each for
channels 0 to 31 and for channels 32 on. -/
inductive IntcReg where
  | sr (i : Fin 2)
  | cr (i : Fin 2)
  | esr (i : Fin 2)
  | ecr (i : Fin 2)
  deriving DecidableEq

def IntcReg.offset : IntcReg → ℕ
  | .sr i => intcSr1 + 4 * i
  | .cr i => intcCr1 + 4 * i
  | .esr i => intcEsr1 + 4 * i
  | .ecr i => intcEcr1 + 4 * i

inductive IntcEvent where
  | irq (channel : Fin numPrimaryIrqs) (level : ℤ)
  | write (r : IntcReg) (val : Word)

def Intc.handle (s : Intc) : IntcEvent → Option Intc
  | .irq channel level => some (ar7PrimaryIrq channel level s)
  | .write r val => ar7IntcWrite r.offset val s

/-- The bit of channel `c` in the pair of registers that starts at `base`. -/
def channelBit (base : ℕ) (intc : Regs) (c : ℕ) : Bool :=
  (regRead intc (base + 4 * (c / 32))).getLsbD (c % 32)

def Pending (intc : Regs) (c : ℕ) : Prop := channelBit intcSr1 intc c = true

def Enabled (intc : Regs) (c : ℕ) : Prop := channelBit intcEsr1 intc c = true

/-- Line 2 is high when an enabled interrupt is pending. -/
def Intc.LineRight (s : Intc) : Prop :=
  s.irq2 = true ↔ regRead s.intc intcEsr1 &&& regRead s.intc intcSr1 ≠ 0 ∨
    regRead s.intc intcEsr2 &&& regRead s.intc intcSr2 ≠ 0

/-- While line 2 is high, the priority index names a channel that is pending and enabled. -/
def Intc.IndexRight (s : Intc) : Prop :=
  s.irq2 = true → ∃ c < numPrimaryIrqs, regRead s.intc intcPiir = piirValue c ∧ Pending s.intc c ∧ Enabled s.intc c

/-! ### What a step leaves -/

/-- Whether bit `i` of `val` stands for channel `c`. -/
def selects (i : Fin 2) (val : Word) (c : ℕ) : Bool := decide (c / 32 = i) && val.getLsbD (c % 32)

/-- Whether channel `c` will be pending, from the registers before the event. -/
def IntcEvent.pends (intc : Regs) (c : ℕ) : IntcEvent → Bool
  | .irq channel level =>
    if level ≠ 0 then channelBit intcSr1 intc c || decide (c = channel)
    else channelBit intcSr1 intc c && !decide (c = channel)
  | .write (.sr i) val => channelBit intcSr1 intc c || selects i val c
  | .write (.cr i) val => channelBit intcSr1 intc c && !selects i val c
  | .write _ _ => channelBit intcSr1 intc c

/-- Whether channel `c` will be enabled. -/
def IntcEvent.enables (intc : Regs) (c : ℕ) : IntcEvent → Bool
  | .write (.esr i) val => channelBit intcEsr1 intc c || selects i val c
  | .write (.ecr i) val => channelBit intcEsr1 intc c && !selects i val c
  | _ => channelBit intcEsr1 intc c

/-- Whether the bit of channel `c` in the clear register will be set. -/
def IntcEvent.clears (intc : Regs) (c : ℕ) : IntcEvent → Bool
  | .irq channel level =>
    if level ≠ 0 then channelBit intcCr1 intc c || decide (c = channel) else channelBit intcCr1 intc c
  | .write (.cr i) val => channelBit intcCr1 intc c && !selects i val c
  | .write _ _ => channelBit intcCr1 intc c

/-- Channel `c` will be pending and enabled. -/
def IntcEvent.Actives (e : IntcEvent) (intc : Regs) (c : ℕ) : Prop :=
  e.pends intc c = true ∧ e.enables intc c = true

def IntcEvent.RaisesEnabled (intc : Regs) : IntcEvent → Prop
  | .irq channel level => level ≠ 0 ∧ Enabled intc channel
  | .write _ _ => False

/-- The steps that leave the priority index right. Nothing will be pending and enabled; or
the line is low and either an enabled channel is raised or the channel that earlier steps
left in the register will be pending and enabled; or the line is high and the first
channel in the clear register (channel 0 when there is none) will be pending and enabled. -/
def IndexSafe (s : Intc) (e : IntcEvent) : Prop :=
  (∀ c < 64, ¬ e.Actives s.intc c) ∨
  (s.irq2 = false ∧ (e.RaisesEnabled s.intc ∨
    ∃ c < numPrimaryIrqs, regRead s.intc intcPiir = piirValue c ∧ e.Actives s.intc c)) ∨
  (s.irq2 = true ∧
    e.Actives s.intc (((List.range numPrimaryIrqs).find? fun c => e.clears s.intc c).getD 0))

/-! ### Bits of the channels -/

section ChannelBits

variable {base base' : ℕ} (hb : base = base' ∨ base + 8 ≤ base' ∨ base' + 8 ≤ base)
  (intc : Regs) (val : Word) {i c : ℕ} (hi : i < 2) (hc : c < 64)
include hb hi hc

theorem channelBit_regSet : channelBit base (regSet intc (base' + 4 * i) val) c =
    (channelBit base intc c || (decide (base = base' ∧ c / 32 = i) && val.getLsbD (c % 32))) := by
  have haddr : base + 4 * (c / 32) = base' + 4 * i ↔ base = base' ∧ c / 32 = i := by omega
  simp only [channelBit, regRead_regSet, haddr]
  by_cases h : base = base' ∧ c / 32 = i
  · simp [h]
  · simp [h]

theorem channelBit_regClear : channelBit base (regClear intc (base' + 4 * i) val) c =
    (channelBit base intc c && !(decide (base = base' ∧ c / 32 = i) && val.getLsbD (c % 32))) := by
  have haddr : base + 4 * (c / 32) = base' + 4 * i ↔ base = base' ∧ c / 32 = i := by omega
  have hlt : c % 32 < 32 := Nat.mod_lt _ (by decide)
  simp only [channelBit, regRead_regClear, haddr]
  by_cases h : base = base' ∧ c / 32 = i
  · simp [h, hlt]
  · simp [h]

end ChannelBits

theorem channelBit_writePiir {base : ℕ} (hb : base + 8 ≤ intcPiir) (intc : Regs) (val : Word) {c : ℕ} (hc : c < 64) :
    channelBit base (regWrite intc intcPiir val) c = channelBit base intc c := by
  have haddr : base + 4 * (c / 32) ≠ intcPiir := by omega
  simp only [channelBit, regRead_regWrite, if_neg haddr]

theorem getLsbD_bit_channel {c channel : ℕ} :
    (decide (c / 32 = channel / 32) && (bit (channel % 32)).getLsbD (c % 32)) = decide (c = channel) := by
  rw [getLsbD_bit (Nat.mod_lt _ (by decide)), ← Bool.decide_and]
  exact decide_eq_decide.2 (by omega)

theorem enabled_iff (intc : Regs) (channel : ℕ) :
    regRead intc (intcEsr1 + 4 * (channel / 32)) &&& bit (channel % 32) ≠ 0 ↔ Enabled intc channel :=
  and_bit_ne_zero_iff _ (Nat.mod_lt _ (by decide))

/-- The masked status of both words, channel by channel. -/
theorem masked_iff (intc : Regs) :
    (regRead intc intcEsr1 &&& regRead intc intcSr1 ≠ 0 ∨ regRead intc intcEsr2 &&& regRead intc intcSr2 ≠ 0) ↔
      ∃ c < 64, Pending intc c ∧ Enabled intc c := by
  rw [ne_zero_iff, ne_zero_iff]
  simp only [BitVec.getLsbD_and, Bool.and_eq_true]
  constructor
  · rintro (⟨i, hi, he, hs⟩ | ⟨i, hi, he, hs⟩)
    · refine ⟨i, by omega, ?_⟩
      simp only [Pending, Enabled, channelBit, Nat.div_eq_of_lt hi, Nat.mod_eq_of_lt hi]
      exact ⟨hs, he⟩
    · refine ⟨32 + i, by omega, ?_⟩
      have hdiv : (32 + i) / 32 = 1 := by omega
      simp only [Pending, Enabled, channelBit, hdiv, Nat.add_mod_left, Nat.mod_eq_of_lt hi]
      exact ⟨hs, he⟩
  · rintro ⟨c, hc, hp, he⟩
    have hlt : c % 32 < 32 := Nat.mod_lt _ (by decide)
    rcases (by omega : c / 32 = 0 ∨ c / 32 = 1) with h | h <;>
      rw [Pending, channelBit, h] at hp <;>
      rw [Enabled, channelBit, h] at he
    · exact .inl ⟨c % 32, hlt, he, hp⟩
    · exact .inr ⟨c % 32, hlt, he, hp⟩

theorem clearChannel_eq (intc : Regs) :
    clearChannel intc = (List.range numPrimaryIrqs).find? fun c => channelBit intcCr1 intc c := by
  refine congrArg (fun p => List.find? p _) (funext fun c => ?_)
  rw [Bool.eq_iff_iff, bne_iff_ne]
  exact and_bit_ne_zero_iff _ (Nat.mod_lt _ (by decide))

theorem piirValue_mod : ∀ c < numPrimaryIrqs, (piirValue c).toNat % 65536 = c := by decide

theorem piirValue_injective {c d : ℕ} (hc : c < numPrimaryIrqs) (hd : d < numPrimaryIrqs)
    (h : piirValue c = piirValue d) : c = d := by
  rw [← piirValue_mod c hc, ← piirValue_mod d hd, h]

/-! ### One step -/

/-- What an event hands to `ar7_update_interrupt`: the status, enable and clear bits it
announces, and the index register of an enabled channel it raises. -/
structure Latched (s : Intc) (e : IntcEvent) (t : Intc) : Prop where
  intset : t.intset = s.intset
  pends : ∀ c < 64, channelBit intcSr1 t.intc c = e.pends s.intc c
  enables : ∀ c < 64, channelBit intcEsr1 t.intc c = e.enables s.intc c
  clears : ∀ c < 64, channelBit intcCr1 t.intc c = e.clears s.intc c
  raises : e.RaisesEnabled s.intc → ∃ c < numPrimaryIrqs,
    t.irq2 = true ∧ regRead t.intc intcPiir = piirValue c ∧ e.Actives s.intc c
  keeps : ¬ e.RaisesEnabled s.intc → t.irq2 = s.irq2 ∧ regRead t.intc intcPiir = regRead s.intc intcPiir

/-- The index register and the line as `ar7_primary_irq` sets them for an enabled channel. -/
def raisePiir (s : Intc) (channel : ℕ) : Intc :=
  if regRead s.intc (intcEsr1 + 4 * (channel / 32)) &&& bit (channel % 32) ≠ 0 then
    { s with intc := regWrite s.intc intcPiir (piirValue channel), irq2 := true }
  else s

theorem channelBit_raisePiir (s : Intc) (channel : ℕ) {base c : ℕ} (hb : base + 8 ≤ intcPiir) (hc : c < 64) :
    channelBit base (raisePiir s channel).intc c = channelBit base s.intc c := by
  unfold raisePiir
  split_ifs
  · exact channelBit_writePiir hb _ _ hc
  · rfl

theorem intset_raisePiir (s : Intc) (channel : ℕ) : (raisePiir s channel).intset = s.intset := by
  unfold raisePiir
  split_ifs <;> rfl

theorem latched_raise (s : Intc) (channel : Fin numPrimaryIrqs) {level : ℤ} (hl : level ≠ 0) :
    Latched s (.irq channel level)
      { raisePiir s channel with
        intc := regSet (regSet (raisePiir s channel).intc (intcSr1 + 4 * (channel / 32)) (bit (channel % 32)))
          (intcCr1 + 4 * (channel / 32)) (bit (channel % 32)) } := by
  have hchan : (channel : ℕ) < 40 := channel.isLt
  have hi : (channel : ℕ) / 32 < 2 := by omega
  have hpends : ∀ c, c = (channel : ℕ) → IntcEvent.pends s.intc c (.irq channel level) = true := by
    rintro c rfl
    simp [IntcEvent.pends, hl]
  have hpiir : ∀ u : Intc, regRead (regSet (regSet u.intc (intcSr1 + 4 * (channel / 32)) (bit (channel % 32)))
      (intcCr1 + 4 * (channel / 32)) (bit (channel % 32))) intcPiir = regRead u.intc intcPiir := by
    intro u
    have h₁ : intcPiir ≠ intcCr1 + 4 * (channel / 32) := by simp only [intcPiir, intcCr1]; omega
    have h₂ : intcPiir ≠ intcSr1 + 4 * (channel / 32) := by simp only [intcPiir, intcSr1]; omega
    simp only [regRead_regSet, if_neg h₁, if_neg h₂]
  refine ⟨intset_raisePiir s channel, fun c hc => ?_, fun c hc => ?_, fun c hc => ?_, fun h => ?_, fun h => ?_⟩
  · rw [channelBit_regSet (by decide) _ _ hi hc, channelBit_regSet (by decide) _ _ hi hc,
      channelBit_raisePiir _ _ (by decide) hc]
    simp [IntcEvent.pends, hl, intcSr1, intcCr1, getLsbD_bit_channel]
  · rw [channelBit_regSet (by decide) _ _ hi hc, channelBit_regSet (by decide) _ _ hi hc,
      channelBit_raisePiir _ _ (by decide) hc]
    simp [IntcEvent.enables, intcSr1, intcCr1, intcEsr1]
  · rw [channelBit_regSet (by decide) _ _ hi hc, channelBit_regSet (by decide) _ _ hi hc,
      channelBit_raisePiir _ _ (by decide) hc]
    simp [IntcEvent.clears, hl, intcSr1, intcCr1, getLsbD_bit_channel]
  · have hr : raisePiir s channel = { s with intc := regWrite s.intc intcPiir (piirValue channel), irq2 := true } :=
      if_pos ((enabled_iff _ _).2 h.2)
    refine ⟨channel, hchan, ?_, ?_, hpends _ rfl, h.2⟩
    · rw [hr]
    · rw [hpiir, hr]
      simp
  · have hr : raisePiir s channel = s := if_neg fun hn => h ⟨hl, (enabled_iff _ _).1 hn⟩
    refine ⟨?_, ?_⟩
    · rw [hr]
    · rw [hpiir, hr]

theorem latched_lower (s : Intc) (channel : Fin numPrimaryIrqs) {level : ℤ} (hl : ¬ level ≠ 0) :
    Latched s (.irq channel level)
      { s with intc := regClear s.intc (intcSr1 + 4 * (channel / 32)) (bit (channel % 32)) } := by
  have hchan : (channel : ℕ) < 40 := channel.isLt
  have hi : (channel : ℕ) / 32 < 2 := by omega
  refine ⟨rfl, fun c hc => ?_, fun c hc => ?_, fun c hc => ?_, fun h => absurd h.1 hl, fun _ => ⟨rfl, ?_⟩⟩
  · rw [channelBit_regClear (by decide) _ _ hi hc]
    simp [IntcEvent.pends, hl, getLsbD_bit_channel]
  · rw [channelBit_regClear (by decide) _ _ hi hc]
    simp [IntcEvent.enables, intcSr1, intcEsr1]
  · rw [channelBit_regClear (by decide) _ _ hi hc]
    simp [IntcEvent.clears, hl, intcSr1, intcCr1]
  · have h₂ : intcPiir ≠ intcSr1 + 4 * (channel / 32) := by simp only [intcPiir, intcSr1]; omega
    simp only [regRead_regClear, if_neg h₂]

theorem latched_set (s : Intc) (i : Fin 2) (val : Word) :
    Latched s (.write (.sr i) val) { s with intc := regSet s.intc (intcSr1 + 4 * i) val } := by
  refine ⟨rfl, fun c hc => ?_, fun c hc => ?_, fun c hc => ?_, False.elim, fun _ => ⟨rfl, ?_⟩⟩
  · rw [channelBit_regSet (by decide) _ _ i.isLt hc]
    simp [IntcEvent.pends, selects]
  · rw [channelBit_regSet (by decide) _ _ i.isLt hc]
    simp [IntcEvent.enables, intcSr1, intcEsr1]
  · rw [channelBit_regSet (by decide) _ _ i.isLt hc]
    simp [IntcEvent.clears, intcSr1, intcCr1]
  · have h₂ : intcPiir ≠ intcSr1 + 4 * i := by simp only [intcPiir, intcSr1]; omega
    simp only [regRead_regSet, if_neg h₂]

theorem latched_clear (s : Intc) (i : Fin 2) (val : Word) :
    Latched s (.write (.cr i) val)
      { s with intc := regClear (regClear s.intc (intcSr1 + 4 * i) val) (intcCr1 + 4 * i) val } := by
  refine ⟨rfl, fun c hc => ?_, fun c hc => ?_, fun c hc => ?_, False.elim, fun _ => ⟨rfl, ?_⟩⟩
  · rw [channelBit_regClear (by decide) _ _ i.isLt hc, channelBit_regClear (by decide) _ _ i.isLt hc]
    simp [IntcEvent.pends, selects, intcSr1, intcCr1]
  · rw [channelBit_regClear (by decide) _ _ i.isLt hc, channelBit_regClear (by decide) _ _ i.isLt hc]
    simp [IntcEvent.enables, intcSr1, intcCr1, intcEsr1]
  · rw [channelBit_regClear (by decide) _ _ i.isLt hc, channelBit_regClear (by decide) _ _ i.isLt hc]
    simp [IntcEvent.clears, selects, intcSr1, intcCr1]
  · have h₁ : intcPiir ≠ intcCr1 + 4 * i := by simp only [intcPiir, intcCr1]; omega
    have h₂ : intcPiir ≠ intcSr1 + 4 * i := by simp only [intcPiir, intcSr1]; omega
    simp only [regRead_regClear, if_neg h₁, if_neg h₂]

theorem latched_enable (s : Intc) (i : Fin 2) (val : Word) :
    Latched s (.write (.esr i) val) { s with intc := regSet s.intc (intcEsr1 + 4 * i) val } := by
  refine ⟨rfl, fun c hc => ?_, fun c hc => ?_, fun c hc => ?_, False.elim, fun _ => ⟨rfl, ?_⟩⟩
  · rw [channelBit_regSet (by decide) _ _ i.isLt hc]
    simp [IntcEvent.pends, intcSr1, intcEsr1]
  · rw [channelBit_regSet (by decide) _ _ i.isLt hc]
    simp [IntcEvent.enables, selects]
  · rw [channelBit_regSet (by decide) _ _ i.isLt hc]
    simp [IntcEvent.clears, intcEsr1, intcCr1]
  · have h₂ : intcPiir ≠ intcEsr1 + 4 * i := by simp only [intcPiir, intcEsr1]; omega
    simp only [regRead_regSet, if_neg h₂]

theorem latched_disable (s : Intc) (i : Fin 2) (val : Word) :
    Latched s (.write (.ecr i) val) { s with intc := regClear s.intc (intcEsr1 + 4 * i) val } := by
  refine ⟨rfl, fun c hc => ?_, fun c hc => ?_, fun c hc => ?_, False.elim, fun _ => ⟨rfl, ?_⟩⟩
  · rw [channelBit_regClear (by decide) _ _ i.isLt hc]
    simp [IntcEvent.pends, intcSr1, intcEsr1]
  · rw [channelBit_regClear (by decide) _ _ i.isLt hc]
    simp [IntcEvent.enables, selects]
  · rw [channelBit_regClear (by decide) _ _ i.isLt hc]
    simp [IntcEvent.clears, intcEsr1, intcCr1]
  · have h₂ : intcPiir ≠ intcEsr1 + 4 * i := by simp only [intcPiir, intcEsr1]; omega
    simp only [regRead_regClear, if_neg h₂]

/-- Every event ends in `ar7_update_interrupt` with its bits latched. -/
theorem handle_latched (s : Intc) (e : IntcEvent) :
    ∃ t, s.handle e = some (ar7UpdateInterrupt t) ∧ Latched s e t := by
  cases e with
  | irq channel level =>
    by_cases hl : level ≠ 0
    · refine ⟨_, ?_, latched_raise s channel hl⟩
      rw [Intc.handle, ar7PrimaryIrq, if_pos hl]
      rfl
    · refine ⟨_, ?_, latched_lower s channel hl⟩
      rw [Intc.handle, ar7PrimaryIrq, if_neg hl]
  | write r val =>
    cases r with
    | sr i => exact ⟨_, by fin_cases i <;> rfl, latched_set s i val⟩
    | cr i => exact ⟨_, by fin_cases i <;> rfl, latched_clear s i val⟩
    | esr i => exact ⟨_, by fin_cases i <;> rfl, latched_enable s i val⟩
    | ecr i => exact ⟨_, by fin_cases i <;> rfl, latched_disable s i val⟩

/-! ### Every run -/

theorem find?_eq_of_eqOn {p q : ℕ → Bool} : ∀ {l : List ℕ}, (∀ c ∈ l, p c = q c) → l.find? p = l.find? q
  | [], _ => rfl
  | c :: l, h => by
    rw [List.find?_cons, List.find?_cons, h c List.mem_cons_self,
      find?_eq_of_eqOn fun d hd => h d (List.mem_cons_of_mem _ hd)]

/-- The latch follows the line, the line follows the masked status, and the index register
holds some channel. This much holds whatever the guest does. -/
structure Intc.Inv (s : Intc) : Prop where
  latch : s.intset = s.irq2
  line : s.LineRight
  index : ∃ c < numPrimaryIrqs, regRead s.intc intcPiir = piirValue c

theorem inv_init : Intc.init.Inv :=
  ⟨rfl, by simp [Intc.LineRight, Intc.init, regRead], 0, by decide, rfl⟩

section Step

variable {s t : Intc} {e : IntcEvent} (hl : Latched s e t)
include hl

theorem Latched.active_iff {c : ℕ} (hc : c < 64) : Pending t.intc c ∧ Enabled t.intc c ↔ e.Actives s.intc c := by
  rw [Pending, Enabled, hl.pends c hc, hl.enables c hc]
  rfl

theorem Latched.masked_iff :
    (regRead t.intc intcEsr1 &&& regRead t.intc intcSr1 ≠ 0 ∨ regRead t.intc intcEsr2 &&& regRead t.intc intcSr2 ≠ 0) ↔
      ∃ c < 64, e.Actives s.intc c := by
  rw [Ar7.masked_iff]
  exact exists_congr fun c => and_congr_right fun hc => hl.active_iff hc

theorem Latched.clearChannel_eq :
    clearChannel t.intc = (List.range numPrimaryIrqs).find? fun c => e.clears s.intc c := by
  rw [Ar7.clearChannel_eq]
  refine find?_eq_of_eqOn fun c hc => ?_
  exact hl.clears c (Nat.lt_trans (List.mem_range.1 hc) (by decide))

theorem Latched.update_high (hset : t.intset = true) (ha : ∃ c < 64, e.Actives s.intc c) :
    ar7UpdateInterrupt t = { t with intc := regWrite t.intc intcPiir (piirValue
      (((List.range numPrimaryIrqs).find? fun c => e.clears s.intc c).getD 0)) } := by
  have hset' : ¬ (!t.intset) = true := by rw [hset]; decide
  rw [ar7UpdateInterrupt, if_pos (hl.masked_iff.2 ha), if_neg hset', hl.clearChannel_eq]
  cases (List.range numPrimaryIrqs).find? fun c => e.clears s.intc c with
  | none => rfl
  | some channel => rfl

end Step

theorem active_writePiir (intc : Regs) (val : Word) {c : ℕ} (hc : c < 64) :
    Pending (regWrite intc intcPiir val) c ∧ Enabled (regWrite intc intcPiir val) c ↔
      Pending intc c ∧ Enabled intc c := by
  rw [Pending, Enabled, channelBit_writePiir (by decide) _ _ hc, channelBit_writePiir (by decide) _ _ hc]
  rfl

theorem lineRight_iff (s : Intc) : s.LineRight ↔ (s.irq2 = true ↔ ∃ c < 64, Pending s.intc c ∧ Enabled s.intc c) := by
  rw [Intc.LineRight, masked_iff]

theorem find_getD_lt (p : ℕ → Bool) : ((List.range numPrimaryIrqs).find? p).getD 0 < numPrimaryIrqs := by
  cases h : (List.range numPrimaryIrqs).find? p with
  | none => decide
  | some c => exact List.mem_range.1 (List.mem_of_find?_eq_some h)

theorem step_quiet {s t : Intc} {e : IntcEvent} (hs : s.Inv) (hl : Latched s e t)
    (hq : ∀ c < 64, ¬ e.Actives s.intc c) : (ar7UpdateInterrupt t).Inv ∧ (ar7UpdateInterrupt t).irq2 = false := by
  have hmask := hl.masked_iff.not.2 fun ⟨c, hc, ha⟩ => hq c hc ha
  have hraise : ¬ e.RaisesEnabled s.intc := fun h => by
    obtain ⟨c, hc, _, _, ha⟩ := hl.raises h
    exact hq c (Nat.lt_trans hc (by decide)) ha
  obtain ⟨hirq, hpiir⟩ := hl.keeps hraise
  have hirq' : (ar7UpdateInterrupt t).irq2 = false ∧ (ar7UpdateInterrupt t).intset = false ∧
      (ar7UpdateInterrupt t).intc = t.intc := by
    rw [ar7UpdateInterrupt, if_neg hmask]
    split_ifs with h
    · exact ⟨rfl, rfl, rfl⟩
    · have hset : t.intset = false := by simpa using h
      refine ⟨?_, hset, rfl⟩
      rw [hirq, ← hs.latch, ← hl.intset, hset]
  refine ⟨⟨?_, ?_, ?_⟩, hirq'.1⟩
  · rw [hirq'.1, hirq'.2.1]
  · rw [Intc.LineRight, hirq'.1, hirq'.2.2]
    exact ⟨fun h => by simp at h, fun h => absurd h hmask⟩
  · rw [hirq'.2.2, hpiir]
    exact hs.index

theorem step_rising {s t : Intc} {e : IntcEvent} (hs : s.Inv) (hl : Latched s e t)
    (ha : ∃ c < 64, e.Actives s.intc c) (hlow : s.irq2 = false) :
    (ar7UpdateInterrupt t).Inv ∧ ((ar7UpdateInterrupt t).IndexRight ↔ e.RaisesEnabled s.intc ∨
      ∃ c < numPrimaryIrqs, regRead s.intc intcPiir = piirValue c ∧ e.Actives s.intc c) := by
  have hset : (!t.intset) = true := by rw [hl.intset, hs.latch, hlow]; rfl
  have hu : ar7UpdateInterrupt t = { t with intset := true, irq2 := true } := by
    rw [ar7UpdateInterrupt, if_pos (hl.masked_iff.2 ha), if_pos hset]
  have hright : (ar7UpdateInterrupt t).IndexRight ↔
      ∃ c < numPrimaryIrqs, regRead t.intc intcPiir = piirValue c ∧ e.Actives s.intc c := by
    rw [hu]
    refine (imp_iff_right rfl).trans (exists_congr fun c => and_congr_right fun hc => ?_)
    rw [hl.active_iff (Nat.lt_trans hc (by decide))]
  have hline : (ar7UpdateInterrupt t).LineRight := by
    rw [hu]
    exact ⟨fun _ => hl.masked_iff.2 ha, fun _ => rfl⟩
  by_cases hr : e.RaisesEnabled s.intc
  · obtain ⟨c, hc, _, hpiir, hact⟩ := hl.raises hr
    refine ⟨⟨by rw [hu], hline, c, hc, by rw [hu]; exact hpiir⟩, ?_⟩
    exact ⟨fun _ => .inl hr, fun _ => hright.2 ⟨c, hc, hpiir, hact⟩⟩
  · obtain ⟨_, hpiir⟩ := hl.keeps hr
    refine ⟨⟨by rw [hu], hline, ?_⟩, ?_⟩
    · rw [hu, hpiir]
      exact hs.index
    · rw [hright, hpiir]
      exact (or_iff_right hr).symm

theorem step_high {s t : Intc} {e : IntcEvent} (hs : s.Inv) (hl : Latched s e t)
    (ha : ∃ c < 64, e.Actives s.intc c) (hhigh : s.irq2 = true) :
    (ar7UpdateInterrupt t).Inv ∧ ((ar7UpdateInterrupt t).IndexRight ↔
      e.Actives s.intc (((List.range numPrimaryIrqs).find? fun c => e.clears s.intc c).getD 0)) := by
  have hset : t.intset = true := by rw [hl.intset, hs.latch, hhigh]
  have hirq : t.irq2 = true := by
    by_cases hr : e.RaisesEnabled s.intc
    · obtain ⟨_, _, h, _⟩ := hl.raises hr
      exact h
    · rw [(hl.keeps hr).1, hhigh]
  have hk := find_getD_lt fun c => e.clears s.intc c
  rw [hl.update_high hset ha]
  set k := ((List.range numPrimaryIrqs).find? fun c => e.clears s.intc c).getD 0
  have hpiir : regRead (regWrite t.intc intcPiir (piirValue k)) intcPiir = piirValue k := by simp
  have hact : ∀ c < 64, Pending (regWrite t.intc intcPiir (piirValue k)) c ∧
      Enabled (regWrite t.intc intcPiir (piirValue k)) c ↔ e.Actives s.intc c :=
    fun c hc => (active_writePiir _ _ hc).trans (hl.active_iff hc)
  have hk64 : k < 64 := Nat.lt_trans hk (by decide)
  refine ⟨⟨by rw [hset, hirq], ?_, k, hk, hpiir⟩, ?_, ?_⟩
  · rw [lineRight_iff]
    refine ⟨fun _ => ?_, fun _ => hirq⟩
    obtain ⟨c, hc, hca⟩ := ha
    exact ⟨c, hc, (hact c hc).2 hca⟩
  · intro h
    obtain ⟨c, hc, hpc, hca⟩ := h hirq
    have hck : c = k := piirValue_injective hc hk (hpc.symm.trans hpiir)
    rw [hck] at hca
    exact (hact k hk64).1 hca
  · intro h _
    exact ⟨k, hk, hpiir, (hact k hk64).2 h⟩

theorem step_indexRight (s s' : Intc) (e : IntcEvent) (hs : s.Inv) (hstep : s.handle e = some s') :
    s'.Inv ∧ (s'.IndexRight ↔ IndexSafe s e) := by
  obtain ⟨t, ht, hl⟩ := handle_latched s e
  rw [ht, Option.some.injEq] at hstep
  subst hstep
  by_cases ha : ∃ c < 64, e.Actives s.intc c
  · have hq : ¬ ∀ c < 64, ¬ e.Actives s.intc c := fun h => by
      obtain ⟨c, hc, hca⟩ := ha
      exact h c hc hca
    cases hirq : s.irq2 with
    | false =>
      obtain ⟨hinv, hright⟩ := step_rising hs hl ha hirq
      refine ⟨hinv, hright.trans ?_⟩
      simp [IndexSafe, hq, hirq]
    | true =>
      obtain ⟨hinv, hright⟩ := step_high hs hl ha hirq
      refine ⟨hinv, hright.trans ?_⟩
      simp [IndexSafe, hq, hirq]
  · have hq : ∀ c < 64, ¬ e.Actives s.intc c := fun c hc hca => ha ⟨c, hc, hca⟩
    obtain ⟨hinv, hlow⟩ := step_quiet hs hl hq
    refine ⟨hinv, fun _ => .inl hq, fun _ h => ?_⟩
    rw [hlow] at h
    cases h

/-- The line follows the masked status in every state. The priority index names a pending
and enabled channel in every state of a run exactly when every step of it is safe. -/
theorem intc_consistent_iff (es : List IntcEvent) :
    (∀ n s, (es.take n).foldlM Intc.handle Intc.init = some s → s.LineRight ∧ s.IndexRight) ↔
      MeetsDone Intc.handle IndexSafe Intc.init es := by
  have hinit : Intc.init.Inv ∧ Intc.init.IndexRight := ⟨inv_init, fun h => by cases h⟩
  have hinv : ∀ n s, (es.take n).foldlM Intc.handle Intc.init = some s → s.Inv := fun n s h =>
    foldlM_invariant (fun s e s' hs hstep => (step_indexRight s s' e hs hstep).1) _ _ _ inv_init h
  rw [← foldlM_take_iff_meetsDone (P := fun s => s.Inv ∧ s.IndexRight) (fun s e s' hs hstep => ?_) es _ hinit]
  · refine forall_congr' fun n => forall_congr' fun s => imp_congr_right fun h => ?_
    exact ⟨fun hc => ⟨hinv n s h, hc.2⟩, fun hc => ⟨hc.1.line, hc.2⟩⟩
  · obtain ⟨h₁, h₂⟩ := step_indexRight s s' e hs.1 hstep
    exact (and_iff_right h₁).trans h₂

/-- A channel that was raised while it was disabled: enabling it raises the line and leaves
channel 0 in the index register. -/
theorem intc_enable_stale_index :
    ¬ ∀ n s, ([IntcEvent.irq ⟨7, by decide⟩ 1, .write (.esr 0) 0x80].take n).foldlM Intc.handle Intc.init = some s →
      s.LineRight ∧ s.IndexRight := by
  intro h
  obtain ⟨_, hi⟩ := h 2 _ rfl
  obtain ⟨c, hc, hpiir, hp, _⟩ := hi (by decide)
  have h0 : c = 0 := piirValue_injective hc (by decide) (hpiir.symm.trans (by decide))
  rw [h0] at hp
  exact absurd hp (by unfold Pending; decide)

end Ar7Qemu.Ar7
