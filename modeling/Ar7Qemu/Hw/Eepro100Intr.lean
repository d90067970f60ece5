import Ar7Qemu.Lib.Run
import Ar7Qemu.Hw.Eepro100

/-! When the interrupt line and the state fields of the EEPRO100 match its registers. The
interrupt function computes all of them anew, and the commands and receptions go through it.
The other paths to the registers do not: a store to a status, acknowledge or mask byte that
has no handler, an acknowledgement that looks only at whether any bit is left, an MDI command
that sets its status bit without the interrupt, and the resets. -/

namespace Ar7Qemu.Hw.Eepro100

open Lib

/-- Interrupts are not masked, and some status bit is set that its own mask bit does not
disable; the lower four have no mask bit. -/
def LineDue (ack intmask : Byte) : Prop := intmask &&& 1#8 = 0#8 ∧ ack &&& (~~~intmask ||| 0x0f#8) ≠ 0#8

instance (ack intmask : Byte) : Decidable (LineDue ack intmask) := instDecidableAnd

/-- The interrupt line, the status byte and the state fields match the registers. -/
structure Right (s : Nic) : Prop where
  line : s.irq = true ↔ LineDue (s.mem scbAck) (s.mem scbIntmask)
  stat : s.scbStat = s.mem scbAck
  cu : s.mem scbStatus >>> 6 = s.cuState.code
  ru : (s.mem scbStatus >>> 2) &&& 0x0f#8 = s.ruState.code

/-- The bits of the state fields are the same in two status bytes. -/
def StatusKept (b b' : Byte) : Prop := b' &&& 0xfc#8 = b &&& 0xfc#8

/-- A store to the register file leaves the state fields, the acknowledge byte and what is
due on the line as they are. -/
def FieldsKept (mem mem' : ℕ → Byte) : Prop :=
  StatusKept (mem scbStatus) (mem' scbStatus) ∧ mem' scbAck = mem scbAck ∧
    (LineDue (mem' scbAck) (mem' scbIntmask) ↔ LineDue (mem scbAck) (mem scbIntmask))

/-- An acknowledgement on a raised line clears every status bit or leaves one that is due. -/
def AckSafe (s : Nic) (val : Byte) : Prop :=
  s.irq = true → s.scbStat &&& ~~~val = 0 ∨ LineDue (s.scbStat &&& ~~~val) (s.mem scbIntmask)

/-- A reset finds no status bit set and both units idle. -/
def PortSafe (s : Nic) (val : Word) : Prop :=
  (val &&& 3).toNat = 0 ∨ (val &&& 3).toNat = 2 → s.scbStat = 0 ∧ s.cuState = .idle ∧ s.ruState = .idle

/-- An MDI command that is carried out asks for its interrupt or finds its status bit set. -/
def MdiSafe (s : Nic) (val : Word) : Prop :=
  mdiSupported val → mdiRaiseint val = true ∨ s.mem scbAck ||| 0x08 = s.mem scbAck

/-- The writes of each width that keep the line and the fields right; the value is the one
that is stored. -/
def Write1Safe (s : Nic) (addr : ℕ) (val : Byte) : Prop :=
  if addr = scbAck then AckSafe s val
  else if addr = scbCmd ∨ addr = scbIntmask then True
  else FieldsKept s.mem (storeReg s addr [val]).mem

def Write2Safe (s : Nic) (addr : ℕ) (val : BitVec 16) : Prop :=
  if addr = scbStatus then
    StatusKept (s.mem scbStatus) (val.extractLsb' 0 8) ∧ AckSafe s (val.extractLsb' 8 8)
  else if addr = scbCmd then True
  else FieldsKept s.mem (storeReg s addr (GuestMem.bytes16 val)).mem

def Write4Safe (s : Nic) (addr : ℕ) (val : Word) : Prop :=
  if addr = scbPort then PortSafe s val
  else if addr = scbCtrlMDI then MdiSafe s val
  else FieldsKept s.mem (storeReg s addr (GuestMem.bytes32 val)).mem

/-- The events that keep the line and the fields right. -/
def Safe (s : Nic) : Event → Prop
  | .write1 addr val => Write1Safe s addr val
  | .write2 addr val => Write2Safe s addr (if s.bigEndian then bswap16 val else val)
  | .write4 addr val => Write4Safe s addr (if s.bigEndian then bswap32 val else val)
  | _ => True

/-! ### Bits -/

theorem intmask_bit (m : Byte) : ~~~m &&& 1 ≠ 0 ↔ m &&& 1 = 0 := by
  revert m
  decide

theorem lineDue_zero (m : Byte) : ¬ LineDue 0 m := by
  intro h
  exact h.2 BitVec.zero_and

theorem LineDue.of_and {a b m : Byte} (h : LineDue (a &&& b) m) : LineDue a m := by
  refine ⟨h.1, fun h0 => h.2 ?_⟩
  rw [BitVec.and_comm a b, BitVec.and_assoc, h0, BitVec.and_zero]

theorem statusKept_iff (b b' : Byte) :
    StatusKept b b' ↔ b' >>> 6 = b >>> 6 ∧ (b' >>> 2) &&& 0x0f#8 = (b >>> 2) &&& 0x0f#8 := by
  have hfield : ∀ b : Byte, b &&& 0xfc#8 = ((b >>> 6) <<< 6) ||| (((b >>> 2) &&& 0x0f#8) <<< 2) := by decide
  have hcu : ∀ b : Byte, b >>> 6 = (b &&& 0xfc#8) >>> 6 := by decide
  have hru : ∀ b : Byte, (b >>> 2) &&& 0x0f#8 = ((b &&& 0xfc#8) >>> 2) &&& 0x0f#8 := by decide
  constructor
  · intro h
    exact ⟨by rw [hcu b', hcu b, h], by rw [hru b', hru b, h]⟩
  · rintro ⟨h₁, h₂⟩
    rw [StatusKept, hfield b', hfield b, h₁, h₂]

theorem cuField_set (st : CuState) (b : Byte) : ((b &&& 0x3f#8) + st.code <<< 6) >>> 6 = st.code ∧
    ((((b &&& 0x3f#8) + st.code <<< 6) >>> 2) &&& 0x0f#8) = ((b >>> 2) &&& 0x0f#8) := by
  cases st <;> revert b <;> decide

theorem ruField_set (st : RuState) (b : Byte) : ((b &&& 0xc3#8) + st.code <<< 2) >>> 6 = b >>> 6 ∧
    ((((b &&& 0xc3#8) + st.code <<< 2) >>> 2) &&& 0x0f#8) = st.code := by
  cases st <;> revert b <;> decide

/-! ### What the operations keep -/

/-- What the line and the fields depend on. -/
structure Signals where
  status : Byte
  ack : Byte
  intmask : Byte
  scbStat : Byte
  intStat : Bool
  irq : Bool
  cuState : CuState
  ruState : RuState

def signals (s : Nic) : Signals :=
  ⟨s.mem scbStatus, s.mem scbAck, s.mem scbIntmask, s.scbStat, s.intStat, s.irq, s.cuState, s.ruState⟩

/-- The state fields match, and the latch has the level of the line. -/
structure FieldsRight (s : Nic) : Prop where
  latch : s.intStat = s.irq
  cu : s.mem scbStatus >>> 6 = s.cuState.code
  ru : (s.mem scbStatus >>> 2) &&& 0x0f#8 = s.ruState.code

/-- Everything matches, and the latch has the level of the line. -/
structure Inv (s : Nic) : Prop where
  right : Right s
  latch : s.intStat = s.irq

theorem Inv.fields {s : Nic} (h : Inv s) : FieldsRight s := ⟨h.latch, h.right.cu, h.right.ru⟩

/-- A property that the steps of commands and receptions keep. -/
structure Kept (P : Nic → Prop) : Prop where
  congr : ∀ s t, signals t = signals s → P s → P t
  interrupt : ∀ s status, P s → P (eepro100Interrupt s status)
  cu : ∀ s st, P s → P (setCuState s st)
  ru : ∀ s st, P s → P (setRuState s st)

theorem interrupt_mem (s : Nic) (status : Byte) :
    (eepro100Interrupt s status).mem = Function.update s.mem scbAck (s.mem scbAck ||| status) := by
  unfold eepro100Interrupt enableInterrupt disableInterrupt
  dsimp only
  split_ifs <;> rfl

theorem interrupt_states (s : Nic) (status : Byte) : (eepro100Interrupt s status).cuState = s.cuState ∧
    (eepro100Interrupt s status).ruState = s.ruState ∧
    (eepro100Interrupt s status).scbStat = s.mem scbAck ||| status := by
  unfold eepro100Interrupt enableInterrupt disableInterrupt
  dsimp only
  split_ifs <;> exact ⟨rfl, rfl, rfl⟩

theorem interrupt_irq (s : Nic) (status : Byte) (hl : s.intStat = s.irq) :
    (eepro100Interrupt s status).irq = decide (LineDue (s.mem scbAck ||| status) (s.mem scbIntmask)) ∧
      (eepro100Interrupt s status).intStat = (eepro100Interrupt s status).irq := by
  have hdue : ((s.mem scbAck ||| status) &&& (~~~s.mem scbIntmask ||| 0x0f) ≠ 0 ∧ ~~~s.mem scbIntmask &&& 1 ≠ 0) ↔
      LineDue (s.mem scbAck ||| status) (s.mem scbIntmask) := by
    rw [intmask_bit, and_comm]
    rfl
  unfold eepro100Interrupt enableInterrupt disableInterrupt
  dsimp only
  by_cases h : LineDue (s.mem scbAck ||| status) (s.mem scbIntmask)
  · rw [if_pos (hdue.2 h), decide_eq_true h]
    split_ifs with hi
    · exact ⟨hl ▸ hi, hl⟩
    · exact ⟨rfl, rfl⟩
  · rw [if_neg (fun h' => h (hdue.1 h')), decide_eq_false h]
    split_ifs with hi
    · exact ⟨rfl, rfl⟩
    · exact ⟨by rw [← hl]; simpa using hi, hl⟩

theorem FieldsRight.interrupt {s : Nic} (h : FieldsRight s) (status : Byte) : Inv (eepro100Interrupt s status) := by
  obtain ⟨hcu, hru, hstat⟩ := interrupt_states s status
  obtain ⟨hirq, hlatch⟩ := interrupt_irq s status h.latch
  have hmem := interrupt_mem s status
  have hack : (eepro100Interrupt s status).mem scbAck = s.mem scbAck ||| status := by
    rw [hmem, Function.update_self]
  have hstatus : (eepro100Interrupt s status).mem scbStatus = s.mem scbStatus := by
    rw [hmem, Function.update_of_ne (by decide)]
  have hmask : (eepro100Interrupt s status).mem scbIntmask = s.mem scbIntmask := by
    rw [hmem, Function.update_of_ne (by decide)]
  refine ⟨⟨?_, ?_, ?_, ?_⟩, hlatch⟩
  · rw [hirq, hack, hmask, decide_eq_true_iff]
  · rw [hstat, hack]
  · rw [hstatus, hcu, h.cu]
  · rw [hstatus, hru, h.ru]

theorem FieldsRight.congr {s t : Nic} (hst : signals t = signals s) (h : FieldsRight s) : FieldsRight t := by
  have hstatus : t.mem scbStatus = s.mem scbStatus := congrArg Signals.status hst
  refine ⟨?_, ?_, ?_⟩
  · exact (congrArg Signals.intStat hst).trans (h.latch.trans (congrArg Signals.irq hst).symm)
  · rw [hstatus, h.cu]
    exact congrArg (fun x => x.cuState.code) hst.symm
  · rw [hstatus, h.ru]
    exact congrArg (fun x => x.ruState.code) hst.symm

theorem FieldsRight.setCuState {s : Nic} (h : FieldsRight s) (st : CuState) : FieldsRight (setCuState s st) := by
  obtain ⟨hcu, hru⟩ := cuField_set st (s.mem scbStatus)
  refine ⟨h.latch, ?_, ?_⟩
  · simpa only [Eepro100.setCuState, Function.update_self] using hcu
  · simpa only [Eepro100.setCuState, Function.update_self] using hru.trans h.ru

theorem FieldsRight.setRuState {s : Nic} (h : FieldsRight s) (st : RuState) : FieldsRight (setRuState s st) := by
  obtain ⟨hcu, hru⟩ := ruField_set st (s.mem scbStatus)
  refine ⟨h.latch, ?_, ?_⟩
  · simpa only [Eepro100.setRuState, Function.update_self] using hcu.trans h.cu
  · simpa only [Eepro100.setRuState, Function.update_self] using hru

theorem kept_fields : Kept FieldsRight where
  congr _ _ := FieldsRight.congr
  interrupt _ status h := (h.interrupt status).fields
  cu _ st h := h.setCuState st
  ru _ st h := h.setRuState st

theorem Inv.of_fields {s t : Nic} (h : Inv s) (hf : FieldsRight t) (hack : t.mem scbAck = s.mem scbAck)
    (hmask : t.mem scbIntmask = s.mem scbIntmask) (hstat : t.scbStat = s.scbStat) (hirq : t.irq = s.irq) : Inv t := by
  refine ⟨⟨?_, ?_, hf.cu, hf.ru⟩, hf.latch⟩
  · rw [hirq, hack, hmask, h.right.line]
  · rw [hstat, hack, h.right.stat]

theorem Inv.congr {s t : Nic} (h : Inv s) (hst : signals t = signals s) : Inv t :=
  h.of_fields (h.fields.congr hst) (congrArg Signals.ack hst) (congrArg Signals.intmask hst)
    (congrArg Signals.scbStat hst) (congrArg Signals.irq hst)

theorem kept_inv : Kept Inv where
  congr _ _ hst h := h.congr hst
  interrupt _ status h := h.fields.interrupt status
  cu _ st h := h.of_fields (h.fields.setCuState st) rfl rfl rfl rfl
  ru _ st h := h.of_fields (h.fields.setRuState st) rfl rfl rfl rfl

/-! ### Commands and receptions -/

theorem signals_txCommand {fuel : ℕ} {s t : Nic} (h : txCommand fuel s = .ok t) : signals t = signals s := by
  obtain ⟨frame, -, h⟩ := bind_ok h
  split_ifs at h
  cases h
  rfl

theorem signals_setMulticastList {s t : Nic} (h : setMulticastList s = .ok t) : signals t = signals s := by
  obtain ⟨mult, -, h⟩ := bind_ok h
  cases h
  rfl

theorem signals_runCommand {fuel : ℕ} {s t : Nic} (h : runCommand fuel s = .ok t) : signals t = signals s := by
  unfold runCommand at h
  split at h
  · cases h
    rfl
  · cases h
    rfl
  · exact signals_setMulticastList h
  · exact signals_txCommand h
  · cases h
    rfl

section Kept

variable {P : Nic → Prop} (hP : Kept P)

include hP

theorem Kept.completeBlock {s : Nic} (h : P s) : P (completeBlock s) := by
  have h' : P { s with guest := s.guest.putLe16 s.cbAddress (s.tx.status ||| statusC ||| statusOk) } :=
    hP.congr s _ rfl h
  unfold Eepro100.completeBlock
  dsimp only
  split_ifs
  · exact hP.interrupt _ _ h'
  · exact h'

theorem Kept.actionCommand {fuel : ℕ} : ∀ {n : ℕ} {s t : Nic}, P s → actionCommand fuel n s = .ok t → P t
  | 0, _, _, _, h => by cases h
  | n + 1, s, t, hs, h => by
    obtain ⟨s₁, h₁, h⟩ := bind_ok h
    have hs₁ : P (Eepro100.completeBlock s₁) :=
      hP.completeBlock (hP.congr _ _ (signals_runCommand h₁) (hP.congr s _ rfl hs))
    dsimp only at h
    split_ifs at h
    · cases h
      exact hP.interrupt _ _ (hP.cu _ _ hs₁)
    · cases h
      exact hP.interrupt _ _ (hP.cu _ _ hs₁)
    · exact Kept.actionCommand hs₁ h

theorem Kept.cuCommand {fuel : ℕ} {s t : Nic} {val : Byte} (hs : P s) (h : eepro100CuCommand fuel s val = .ok t) :
    P t := by
  have hresume : P (if s.cuState ≠ .suspended then setCuState s .suspended else s) := by
    split_ifs
    · exact hP.cu _ _ hs
    · exact hs
  unfold eepro100CuCommand at h
  dsimp only at h
  generalize (if s.cuState ≠ .suspended then setCuState s .suspended else s) = s₁ at h hresume
  split_ifs at h
  · refine hP.actionCommand (hP.congr (setCuState s .active) _ ?_ (hP.cu s .active hs)) h
    rfl
  · exact hP.actionCommand (hP.cu _ _ hresume) h
  · cases h
    exact hresume
  all_goals
    cases h
    exact hP.congr s _ rfl hs

theorem Kept.ruCommand {s : Nic} {val : Byte} (hs : P s) : P (eepro100RuCommand s val) := by
  unfold eepro100RuCommand
  split_ifs
  · exact hP.congr (setRuState s .ready) _ rfl (hP.ru s .ready hs)
  · exact hP.ru s .ready hs
  · exact hP.congr s _ rfl hs
  · exact hs

theorem Kept.writeCommand {fuel : ℕ} {s t : Nic} {val : Byte} (hs : P s)
    (h : eepro100WriteCommand fuel s val = .ok t) : P t := by
  obtain ⟨s₁, h₁, h⟩ := bind_ok h
  cases h
  exact hP.congr s₁ _ rfl (hP.cuCommand (hP.ruCommand hs) h₁)

theorem Kept.endReceive {s : Nic} {rfdCommand : BitVec 16} (hs : P s) : P (endReceive s rfdCommand) := by
  unfold Eepro100.endReceive
  dsimp only
  split_ifs
  · exact hP.ru _ _ (hP.ru _ _ hs)
  · exact hP.ru _ _ hs
  · exact hP.ru _ _ hs
  · exact hs

theorem Kept.acceptFrame {s : Nic} {rfdStatus : BitVec 16} {buf : List Byte} (hs : P s) :
    P (acceptFrame s rfdStatus buf) := by
  unfold Eepro100.acceptFrame
  refine hP.endReceive (hP.congr (eepro100FrInterrupt { s with
    guest := storeFrame s (if buf.length < 64 then rfdStatus ||| 0x0080 else rfdStatus) buf
    statistics := { s.statistics with rxGoodFrames := s.statistics.rxGoodFrames + 1 } }) _ rfl ?_)
  exact hP.interrupt _ _ (hP.congr s _ rfl hs)

theorem Kept.nicReceive {s t : Nic} {buf : List Byte} (hs : P s) (h : nicReceive s buf = .ok t) : P t := by
  have hfilter : signals (receiveFilter s buf).1 = signals s := by
    rcases receiveFilter_state s buf with heq | heq <;> rw [heq]
    rfl
  have hs₁ : P (receiveFilter s buf).1 := hP.congr s _ hfilter hs
  unfold Eepro100.nicReceive at h
  split_ifs at h
  dsimp only at h
  split at h
  · cases h
    exact hs₁
  · split_ifs at h
    · cases h
      exact hP.congr (receiveFilter s buf).1 _ rfl hs₁
    · cases h
      exact hP.acceptFrame hs₁

end Kept

/-! ### Register writes -/

/-- A store that changes nothing but the register file. -/
theorem right_iff_fieldsKept {s t : Nic} (h : Inv s) (hstat : t.scbStat = s.scbStat) (hirq : t.irq = s.irq)
    (hcu : t.cuState = s.cuState) (hru : t.ruState = s.ruState) : Right t ↔ FieldsKept s.mem t.mem := by
  constructor
  · intro ht
    refine ⟨(statusKept_iff _ _).2 ⟨?_, ?_⟩, ?_, ?_⟩
    · rw [ht.cu, hcu, h.right.cu]
    · rw [ht.ru, hru, h.right.ru]
    · rw [← ht.stat, hstat, h.right.stat]
    · rw [← ht.line, hirq, h.right.line]
  · rintro ⟨hstatus, hack, hline⟩
    obtain ⟨h₆, h₂⟩ := (statusKept_iff _ _).1 hstatus
    refine ⟨?_, ?_, ?_, ?_⟩
    · rw [hirq, h.right.line, hline]
    · rw [hstat, hack, h.right.stat]
    · rw [h₆, hcu, h.right.cu]
    · rw [h₂, hru, h.right.ru]

theorem acknowledge_mem (u : Nic) :
    (eepro100Acknowledge u).mem = Function.update u.mem scbAck (u.scbStat &&& ~~~u.mem scbAck) := by
  unfold eepro100Acknowledge disableInterrupt
  dsimp only
  split_ifs <;> rfl

theorem acknowledge_states (u : Nic) : (eepro100Acknowledge u).cuState = u.cuState ∧
    (eepro100Acknowledge u).ruState = u.ruState ∧
    (eepro100Acknowledge u).scbStat = u.scbStat &&& ~~~u.mem scbAck := by
  unfold eepro100Acknowledge disableInterrupt
  dsimp only
  split_ifs <;> exact ⟨rfl, rfl, rfl⟩

theorem acknowledge_irq (u : Nic) (hl : u.intStat = u.irq) :
    ((eepro100Acknowledge u).irq = true ↔ u.irq = true ∧ u.scbStat &&& ~~~u.mem scbAck ≠ 0) ∧
      (eepro100Acknowledge u).intStat = (eepro100Acknowledge u).irq := by
  unfold eepro100Acknowledge disableInterrupt
  dsimp only
  split_ifs with h₀ hi
  · exact ⟨by simp [h₀], rfl⟩
  · exact ⟨by simp [h₀, ← hl, hi], hl⟩
  · exact ⟨⟨fun hi => ⟨hi, h₀⟩, fun hi => hi.1⟩, hl⟩

/-- An acknowledgement after a store to the status and acknowledge bytes. -/
theorem right_acknowledge {s u : Nic} (h : Inv s) (hstat : u.scbStat = s.scbStat) (hlatch : u.intStat = s.intStat)
    (hirq : u.irq = s.irq) (hcu : u.cuState = s.cuState) (hru : u.ruState = s.ruState)
    (hmask : u.mem scbIntmask = s.mem scbIntmask) :
    (Right (eepro100Acknowledge u) ↔ StatusKept (s.mem scbStatus) (u.mem scbStatus) ∧ AckSafe s (u.mem scbAck)) ∧
      (eepro100Acknowledge u).intStat = (eepro100Acknowledge u).irq := by
  have hl : u.intStat = u.irq := by rw [hlatch, hirq, h.latch]
  obtain ⟨hi, hl'⟩ := acknowledge_irq u hl
  obtain ⟨hcu', hru', hstat'⟩ := acknowledge_states u
  have hmem := acknowledge_mem u
  have hack : (eepro100Acknowledge u).mem scbAck = u.scbStat &&& ~~~u.mem scbAck := by
    rw [hmem, Function.update_self]
  have hstatus : (eepro100Acknowledge u).mem scbStatus = u.mem scbStatus := by
    rw [hmem, Function.update_of_ne (by decide)]
  have hmask' : (eepro100Acknowledge u).mem scbIntmask = s.mem scbIntmask := by
    rw [hmem, Function.update_of_ne (by decide), hmask]
  -- what is due after the acknowledgement was due before it
  have hbefore : LineDue (s.scbStat &&& ~~~u.mem scbAck) (s.mem scbIntmask) → s.irq = true := by
    intro hdue
    rw [h.right.line, ← h.right.stat]
    exact hdue.of_and
  refine ⟨⟨fun ht => ⟨(statusKept_iff _ _).2 ⟨?_, ?_⟩, ?_⟩, fun ⟨hkept, hsafe⟩ => ?_⟩, hl'⟩
  · rw [← hstatus, ht.cu, hcu', hcu, h.right.cu]
  · rw [← hstatus, ht.ru, hru', hru, h.right.ru]
  · intro hraised
    by_cases h₀ : s.scbStat &&& ~~~u.mem scbAck = 0
    · exact .inl h₀
    · have hline := ht.line.1 (hi.2 ⟨hirq.trans hraised, hstat ▸ h₀⟩)
      rw [hack, hmask', hstat] at hline
      exact .inr hline
  · obtain ⟨h₆, h₂⟩ := (statusKept_iff _ _).1 hkept
    refine ⟨?_, by rw [hstat', hack], ?_, ?_⟩
    · rw [hi, hack, hmask', hstat, hirq]
      constructor
      · rintro ⟨hraised, hne⟩
        exact (hsafe hraised).resolve_left hne
      · intro hdue
        refine ⟨hbefore hdue, fun h₀ => ?_⟩
        rw [h₀] at hdue
        exact lineDue_zero _ hdue
    · rw [hstatus, h₆, hcu', hcu, h.right.cu]
    · rw [hstatus, h₂, hru', hru, h.right.ru]

theorem write1_intmask {fuel : ℕ} {s t : Nic} {val : Byte} (h : FieldsRight s)
    (hw : eepro100Write1 fuel s scbIntmask val = .ok t) : Inv t := by
  have hstore : FieldsRight (storeReg s scbIntmask [val]) := ⟨h.latch, h.cu, h.ru⟩
  have ht : t = eepro100Interrupt (if val.getLsbD 1 then eepro100SwiInterrupt (storeReg s scbIntmask [val])
      else storeReg s scbIntmask [val]) 0 := by
    cases hw
    rfl
  rw [ht]
  split_ifs
  · exact ((hstore.interrupt _).fields).interrupt 0
  · exact hstore.interrupt 0

theorem step_write1 {fuel : ℕ} {s t : Nic} {addr : ℕ} {val : Byte} (h : Inv s)
    (hw : eepro100Write1 fuel s addr val = .ok t) :
    (Right t ↔ Write1Safe s addr val) ∧ t.intStat = t.irq := by
  unfold Write1Safe
  by_cases h₁ : addr = scbAck
  · subst h₁
    rw [if_pos rfl]
    cases hw
    obtain ⟨hr, hl⟩ := right_acknowledge (u := storeReg s scbAck [val]) h rfl rfl rfl rfl rfl rfl
    exact ⟨hr.trans ⟨fun h => h.2, fun h => ⟨rfl, h⟩⟩, hl⟩
  rw [if_neg h₁]
  by_cases h₂ : addr = scbCmd
  · subst h₂
    have ht : Inv t := kept_inv.writeCommand (h.congr (t := storeReg s scbCmd [val]) rfl) hw
    exact ⟨by simp [ht.right], ht.latch⟩
  by_cases h₃ : addr = scbIntmask
  · subst h₃
    have ht : Inv t := write1_intmask h.fields hw
    exact ⟨by simp [ht.right], ht.latch⟩
  rw [if_neg (by simp [h₂, h₃])]
  unfold eepro100Write1 at hw
  dsimp only at hw
  rw [if_neg h₁, if_neg h₂, if_neg h₃] at hw
  split_ifs at hw <;> cases hw
  · exact ⟨right_iff_fieldsKept h rfl rfl rfl rfl, h.latch⟩
  · exact ⟨right_iff_fieldsKept h rfl rfl rfl rfl, h.latch⟩

theorem step_write2 {fuel : ℕ} {s t : Nic} {addr : ℕ} {val : BitVec 16} (h : Inv s)
    (hw : eepro100Write2 fuel s addr val = .ok t) :
    (Right t ↔ Write2Safe s addr (if s.bigEndian then bswap16 val else val)) ∧ t.intStat = t.irq := by
  unfold eepro100Write2 at hw
  dsimp only at hw
  generalize (if s.bigEndian then bswap16 val else val) = v at hw ⊢
  unfold Write2Safe
  by_cases h₀ : addr = scbStatus
  · subst h₀
    rw [if_pos rfl] at hw ⊢
    cases hw
    exact right_acknowledge (u := storeReg s scbStatus (GuestMem.bytes16 v)) h rfl rfl rfl rfl rfl rfl
  rw [if_neg h₀] at hw ⊢
  by_cases h₂ : addr = scbCmd
  · subst h₂
    rw [if_pos rfl] at hw
    obtain ⟨s₁, h₁, hw⟩ := bind_ok hw
    have hstore : FieldsRight (storeReg s scbCmd (GuestMem.bytes16 v)) := ⟨h.latch, h.right.cu, h.right.ru⟩
    have ht : Inv t := write1_intmask (kept_fields.writeCommand hstore h₁) hw
    exact ⟨by simp [ht.right], ht.latch⟩
  rw [if_neg h₂] at hw ⊢
  split_ifs at hw <;> cases hw
  · exact ⟨right_iff_fieldsKept h rfl rfl rfl rfl, h.latch⟩
  · exact ⟨right_iff_fieldsKept h rfl rfl rfl rfl, h.latch⟩

theorem cuCode_eq_zero {st : CuState} : st.code = 0 ↔ st = .idle := by
  cases st <;> decide

theorem ruCode_eq_zero {st : RuState} : st.code = 0 ↔ st = .idle := by
  cases st <;> decide

/-- A reset clears the register file and nothing else of what the line depends on. -/
theorem right_reset {s t : Nic} (h : Inv s) (hstat : t.scbStat = s.scbStat) (hirq : t.irq = s.irq)
    (hcu : t.cuState = s.cuState) (hru : t.ruState = s.ruState) (hstatus : t.mem scbStatus = 0)
    (hack : t.mem scbAck = 0) :
    Right t ↔ s.scbStat = 0 ∧ s.cuState = .idle ∧ s.ruState = .idle := by
  constructor
  · intro ht
    refine ⟨?_, cuCode_eq_zero.1 ?_, ruCode_eq_zero.1 ?_⟩
    · rw [← hstat, ht.stat, hack]
    · rw [← hcu, ← ht.cu, hstatus]
      rfl
    · rw [← hru, ← ht.ru, hstatus]
      rfl
  · rintro ⟨hs, hc, hr⟩
    refine ⟨?_, ?_, ?_, ?_⟩
    · rw [hirq, h.right.line, hack, ← h.right.stat, hs]
      exact ⟨fun h => absurd h (lineDue_zero _), fun h => absurd h (lineDue_zero _)⟩
    · rw [hstat, hack, hs]
    · rw [hstatus, hcu, hc]
      rfl
    · rw [hstatus, hru, hr]
      rfl

theorem step_port {s : Nic} {val : Word} (h : Inv s) :
    (Right (eepro100WritePort s val) ↔ PortSafe s val) ∧
      (eepro100WritePort s val).intStat = (eepro100WritePort s val).irq := by
  unfold eepro100WritePort PortSafe
  split
  · rename_i h₀
    refine ⟨(right_reset (t := nicReset s) h rfl rfl rfl rfl rfl rfl).trans ?_, h.latch⟩
    exact ⟨fun hz _ => hz, fun hz => hz (.inl h₀)⟩
  · rename_i h₁
    refine ⟨⟨fun _ h' => by omega, fun _ => (right_iff_fieldsKept h ?_ ?_ ?_ ?_).2 ⟨rfl, rfl, Iff.rfl⟩⟩, h.latch⟩
    all_goals rfl
  · rename_i h₂
    refine ⟨(right_reset (t := nicSelectiveReset s) h rfl rfl rfl rfl rfl rfl).trans ?_, h.latch⟩
    exact ⟨fun hz _ => hz, fun hz => hz (.inr h₂)⟩
  · rename_i h₀ h₁ h₂
    exact ⟨⟨fun _ h' => (h'.elim h₀ h₂).elim, fun _ => h.right⟩, h.latch⟩

theorem signals_mdiResult (s : Nic) (val : Word) (data : BitVec 16) : signals (mdiResult s val data) = signals s := rfl

theorem step_mdi {s : Nic} {val : Word} (h : Inv s) :
    (Right (eepro100WriteMdi s val) ↔ MdiSafe s val) ∧
      (eepro100WriteMdi s val).intStat = (eepro100WriteMdi s val).irq := by
  unfold eepro100WriteMdi MdiSafe
  by_cases hsup : mdiSupported val
  · rw [if_pos hsup]
    dsimp only
    generalize mdiAccess s.mdimem val = mdimem
    split_ifs with hint
    · have hfields : FieldsRight { s with
          mdimem := mdimem, mem := Function.update s.mem scbAck (s.mem scbAck ||| 0x08) } :=
        ⟨h.latch, h.right.cu, h.right.ru⟩
      have ht := (hfields.interrupt 0x08).congr
        (signals_mdiResult _ (val ||| 1#32 <<< 28) (mdimem (mdiReg val)))
      exact ⟨⟨fun _ _ => .inl hint, fun _ => ht.right⟩, ht.latch⟩
    · have hack : (mdiResult { s with
          mdimem := mdimem, mem := Function.update s.mem scbAck (s.mem scbAck ||| 0x08) }
          (val ||| 1#32 <<< 28) (mdimem (mdiReg val))).mem scbAck = s.mem scbAck ||| 0x08 := rfl
      refine ⟨(right_iff_fieldsKept h ?_ ?_ ?_ ?_).trans ⟨?_, ?_⟩, h.latch⟩
      · rfl
      · rfl
      · rfl
      · rfl
      · rintro ⟨-, hkept, -⟩ -
        exact .inr (hack.symm.trans hkept)
      · intro hsafe
        have hset := (hsafe hsup).resolve_left hint
        refine ⟨rfl, hack.trans hset, ?_⟩
        rw [hack, hset]
        rfl
  · rw [if_neg hsup]
    have ht := h.congr (signals_mdiResult s val 0)
    exact ⟨⟨fun _ h' => absurd h' hsup, fun _ => ht.right⟩, ht.latch⟩

theorem step_write4 {s : Nic} {addr : ℕ} {val : Word} (h : Inv s) :
    (Right (eepro100Write4 s addr val) ↔ Write4Safe s addr (if s.bigEndian then bswap32 val else val)) ∧
      (eepro100Write4 s addr val).intStat = (eepro100Write4 s addr val).irq := by
  unfold eepro100Write4
  dsimp only
  generalize (if s.bigEndian then bswap32 val else val) = v
  unfold Write4Safe
  by_cases h₄ : addr = scbPointer
  · subst h₄
    exact ⟨right_iff_fieldsKept h rfl rfl rfl rfl, h.latch⟩
  rw [if_neg h₄]
  by_cases h₈ : addr = scbPort
  · subst h₈
    rw [if_pos rfl, if_pos rfl]
    exact step_port (h.congr rfl)
  rw [if_neg h₈, if_neg h₈]
  by_cases h₁₂ : addr = scbFlash
  · subst h₁₂
    exact ⟨right_iff_fieldsKept h rfl rfl rfl rfl, h.latch⟩
  rw [if_neg h₁₂]
  by_cases h₁₆ : addr = scbCtrlMDI
  · subst h₁₆
    rw [if_pos rfl, if_pos rfl]
    exact step_mdi (h.congr rfl)
  rw [if_neg h₁₆, if_neg h₁₆]
  exact ⟨right_iff_fieldsKept h rfl rfl rfl rfl, h.latch⟩

/-- An event keeps line and fields right exactly when it is safe. -/
theorem step_right {fuel : ℕ} {s t : Nic} {e : Event} (h : Inv s) (hstep : handle fuel s e = .ok t) :
    (Right t ↔ Safe s e) ∧ t.intStat = t.irq := by
  have hkeep : ∀ {u : Nic}, Inv u → (Right u ↔ True) ∧ u.intStat = u.irq := fun hu => ⟨by simp [hu.right], hu.latch⟩
  cases e with
  | read1 addr | read2 addr | read4 addr =>
    cases hstep
    exact hkeep h
  | write1 addr val => exact step_write1 h hstep
  | write2 addr val => exact step_write2 h hstep
  | write4 addr val =>
    cases hstep
    exact step_write4 h
  | receive buf => exact hkeep (kept_inv.nicReceive h hstep)
  | memory guest =>
    cases hstep
    exact hkeep (h.congr (t := { s with guest := guest }) rfl)

/-! ### Runs -/

/-- The card after an event; a failed assertion, or a loop longer than the fuel, ends the run. -/
def step (fuel : ℕ) (s : Nic) (e : Event) : Option Nic := (handle fuel s e).toOption

theorem inv_zeroed {device : Device} {vendorId deviceId : BitVec 16} {macaddr : List Byte} {eeprom : Eeprom}
    {guest : GuestMem} {bigEndian : Bool} :
    Inv (nicReset (zeroed device vendorId deviceId macaddr eeprom guest bigEndian)) := by
  refine ⟨⟨⟨nofun, fun h => absurd h (lineDue_zero _)⟩, rfl, ?_, ?_⟩, rfl⟩
  · show 0#8 >>> 6 = 0
    decide
  · show ((0#8 >>> 2) &&& 0x0f#8) = 0
    decide

/-- From the reset on, the line and the state fields match the registers in every state of a
run exactly when every event that completes is a safe one. -/
theorem eepro100_interrupt_iff (fuel : ℕ) (device : Device) (vendorId deviceId : BitVec 16) (macaddr : List Byte)
    (eeprom : Eeprom) (guest : GuestMem) (bigEndian : Bool) (es : List Event) :
    (∀ n s, (es.take n).foldlM (step fuel)
        (nicReset (zeroed device vendorId deviceId macaddr eeprom guest bigEndian)) = some s → Right s) ↔
      MeetsDone (step fuel) Safe (nicReset (zeroed device vendorId deviceId macaddr eeprom guest bigEndian)) es := by
  refine foldlM_take_iff_meetsDone_of (P := Inv) (fun s h => h.right) ?_ ?_ es _ inv_zeroed
  · intro s e t hs hstep hsafe
    have hstep' : handle fuel s e = .ok t := by
      cases hh : handle fuel s e <;> simp_all [step, Except.toOption]
    obtain ⟨hr, hl⟩ := step_right hs hstep'
    exact ⟨hr.2 hsafe, hl⟩
  · intro s e t hs hstep hr
    have hstep' : handle fuel s e = .ok t := by
      cases hh : handle fuel s e <;> simp_all [step, Except.toOption]
    exact (step_right hs hstep').1.1 hr

def resetNic : Nic :=
  nicReset (zeroed .i82551 0x8086 0x1209 (List.replicate 6 0) ⟨0, 0, 0, false, false, false, false, 6, 64, 0, fun _ => 0⟩
    (fun _ => 0) false)

/-- Reading phy register 1 without an interrupt sets the status bit in the acknowledge byte
only. -/
theorem eepro100_mdi_status_lost : ¬ ∀ (fuel : ℕ) (es : List Event) (n : ℕ) (s : Nic),
    (es.take n).foldlM (step fuel) resetNic = some s → Right s := by
  intro h
  have hright := h 0 [.write4 scbCtrlMDI 0x08210000] 1 _ rfl
  exact absurd hright.stat (by decide)

end Ar7Qemu.Hw.Eepro100
