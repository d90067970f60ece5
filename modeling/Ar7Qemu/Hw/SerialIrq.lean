import Ar7Qemu.Hw.SerialSound

/-! What the UART of `serial.c` tells the guest about interrupts: the interrupt line, and the cause
that the interrupt identification register names. Every operation that changes an input of
`serial_update_irq` calls it, so the register is never out of date. It is wrong where the chain of
causes stops at received data below the trigger level, and a read of the register takes an event of
the transmitter back that it has not reported. -/

namespace Ar7Qemu.Serial

open Lib

/-- The device, and whether an event of the transmitter is due: it has become empty, or was found
empty when interrupts were enabled, and since then the event was not reported and no byte written. -/
structure IrqSys where
  dev : SerialState
  txEmpty : Bool

namespace IrqSys

def init : IrqSys := ⟨.init, false⟩

variable (s : IrqSys)

def causeOf (iir : Byte) : Byte := iir &&& 0x0f#8

/-- The event after a write; a byte that is sent within the write empties the transmitter again. -/
def written (addr : ℕ) (d : SerialState) : Bool :=
  match regOf addr with
  | .data => if s.dev.dlab then s.txEmpty else d.lsr.thre
  | .ier => if s.dev.dlab then s.txEmpty else s.txEmpty || s.dev.lsr.thre
  | _ => s.txEmpty

def read (addr : ℕ) (ret : Byte) : Bool :=
  match regOf addr with
  | .fcr => s.txEmpty && decide (causeOf ret ≠ 0x02)
  | _ => s.txEmpty

/-- The operations of `Sys.step`. -/
def step : Op → Option IrqSys
  | .write addr val accepted tiocm =>
    let d := serialIoportWrite addr val accepted tiocm s.dev
    some ⟨d, s.written addr d⟩
  | .read addr tiocm =>
    let (ret, d) := serialIoportRead addr tiocm s.dev
    some ⟨d, s.read addr ret⟩
  | .receive buf =>
    if buf ≠ [] ∧ buf.length ≤ serialCanReceive s.dev then some ⟨serialReceive1 buf s.dev, s.txEmpty⟩ else none
  | .receiveBreak => some ⟨serialReceiveBreak s.dev, s.txEmpty⟩
  | .transmitTimer accepted =>
    if s.dev.transmitTimer then
      let d := serialXmit accepted { s.dev with transmitTimer := false }
      some ⟨d, s.txEmpty || d.lsr.thre⟩
    else none
  | .fifoTimeout => some ⟨fifoTimeoutInt s.dev, s.txEmpty⟩
  | .modemPoll tiocm => some ⟨serialUpdateMsl tiocm s.dev, s.txEmpty⟩

/-! ### Causes -/

/-- A line status interrupt is enabled and pending. -/
def Line (d : SerialState) : Prop := d.ier.getLsbD 2 = true ∧ d.lsr.bi = true

/-- Received data is at the trigger level; without the queues a byte is enough. -/
def AtLevel (d : SerialState) : Prop := d.lsr.dr = true ∧ (d.fifos = true → d.recvItl ≤ d.recvFifo.count)

def Receive (d : SerialState) : Prop := d.ier.getLsbD 0 = true ∧ (d.timeoutIpending = true ∨ AtLevel d)

def Transmit : Prop := s.dev.ier.getLsbD 1 = true ∧ s.txEmpty = true

/-- A modem status interrupt is enabled and pending. -/
def Modem (d : SerialState) : Prop := d.ier.getLsbD 3 = true ∧ d.msr &&& 0x0f#8 ≠ 0

instance (d : SerialState) : Decidable (Line d) := inferInstanceAs (Decidable (_ ∧ _))
instance (d : SerialState) : Decidable (AtLevel d) := inferInstanceAs (Decidable (_ ∧ _))
instance (d : SerialState) : Decidable (Receive d) := inferInstanceAs (Decidable (_ ∧ _))
instance : Decidable s.Transmit := inferInstanceAs (Decidable (_ ∧ _))
instance (d : SerialState) : Decidable (Modem d) := inferInstanceAs (Decidable (_ ∧ _))

/-- The register names the cause of the highest priority. -/
def Named (iir : Byte) : Prop :=
  if Line s.dev then causeOf iir = 0x06
  else if Receive s.dev then causeOf iir = 0x0c ∧ s.dev.timeoutIpending = true ∨ causeOf iir = 0x04 ∧ AtLevel s.dev
  else if s.Transmit then causeOf iir = 0x02
  else if Modem s.dev then causeOf iir = 0x00
  else causeOf iir = 0x01

instance (iir : Byte) : Decidable (s.Named iir) := by
  unfold Named
  infer_instance

/-- The line and the register are right, and the device has not forgotten the transmitter. -/
structure Right : Prop where
  line : s.dev.irq = true ↔ s.dev.iir.getLsbD 0 = false
  named : s.Named s.dev.iir
  event : s.txEmpty = true → s.dev.thrIpending = true

/-- `serial_update_irq` stops at received data below the trigger level, and a transmitter or modem
status interrupt is enabled and pending. -/
def Masked (d : SerialState) : Prop :=
  (¬ Line d ∧ d.ier.getLsbD 0 = true ∧ d.timeoutIpending = false ∧ d.lsr.dr = true ∧ ¬ AtLevel d) ∧
    (d.ier.getLsbD 1 = true ∧ d.thrIpending = true ∨ Modem d)

/-- The event is left to be reported: the register is read with no event due, or with the event in
it. -/
def ReadSafe : Op → Prop
  | .read addr _ => regOf addr = .fcr → s.txEmpty = true → causeOf s.dev.iir = 0x02
  | _ => True

/-- The operation leaves no lower cause masked, and the event to be reported. -/
def OpSafe (op : Op) : Prop := (∀ t, s.step op = some t → ¬ Masked t.dev) ∧ s.ReadSafe op

/-! ### `serial_update_irq` -/

/-- What `serial_update_irq` puts into the register. -/
def cause (d : SerialState) : Byte :=
  if d.ier.getLsbD 2 && d.lsr.bi then 0x06
  else if d.ier.getLsbD 0 && d.timeoutIpending then 0x0c
  else if d.ier.getLsbD 0 && d.lsr.dr then
    if !d.fifos then 0x04 else if d.recvItl ≤ d.recvFifo.count then 0x04 else 0x01
  else if d.ier.getLsbD 1 && d.thrIpending then 0x02
  else if d.ier.getLsbD 3 && decide (d.msr &&& 0x0f#8 ≠ 0) then 0x00
  else 0x01

/-- The register and the line are up to date. -/
def Fresh (d : SerialState) : Prop := causeOf d.iir = cause d ∧ d.irq = decide (cause d ≠ 0x01)

theorem causeOf_or {c : Byte} (hc : c &&& 0x0f#8 = c) (iir : Byte) : causeOf (c ||| (iir &&& 0xf0#8)) = c := by
  unfold causeOf
  rw [BitVec.and_or_distrib_right, hc, BitVec.and_assoc]
  simp

theorem cause_low (d : SerialState) : cause d &&& 0x0f#8 = cause d := by
  unfold cause
  split_ifs <;> rfl

theorem fresh_update (d : SerialState) : Fresh (serialUpdateIrq d) := ⟨causeOf_or (cause_low d) d.iir, rfl⟩

theorem Fresh.of_eq {d d' : SerialState} (h : Fresh d) (hcause : cause d' = cause d) (hiir : d'.iir = d.iir)
    (hirq : d'.irq = d.irq) : Fresh d' := by
  unfold Fresh
  rw [hcause, hiir, hirq]
  exact h

theorem bit_causeOf (iir : Byte) : iir.getLsbD 0 = (causeOf iir).getLsbD 0 := by
  unfold causeOf
  simp

theorem bit_cause (d : SerialState) : (cause d).getLsbD 0 = false ↔ cause d ≠ 0x01 := by
  unfold cause
  split_ifs <;> decide

theorem line_right {d : SerialState} (h : Fresh d) : d.irq = true ↔ d.iir.getLsbD 0 = false := by
  rw [h.2, bit_causeOf, h.1, bit_cause, decide_eq_true_iff]

theorem cause_eq (d : SerialState) : cause d =
    if Line d then 0x06
    else if d.ier.getLsbD 0 = true ∧ d.timeoutIpending = true then 0x0c
    else if d.ier.getLsbD 0 = true ∧ d.lsr.dr = true then if AtLevel d then 0x04 else 0x01
    else if d.ier.getLsbD 1 = true ∧ d.thrIpending = true then 0x02
    else if Modem d then 0x00
    else 0x01 := by
  unfold cause Line Modem
  simp only [Bool.and_eq_true, decide_eq_true_eq]
  by_cases hdr : d.ier.getLsbD 0 = true ∧ d.lsr.dr = true
  · have hlevel : AtLevel d ↔ (d.fifos = true → d.recvItl ≤ d.recvFifo.count) := and_iff_right hdr.2
    rw [if_pos hdr, if_pos hdr]
    cases hf : d.fifos <;> simp [hlevel, hf]
  · rw [if_neg hdr, if_neg hdr]
    rfl

/-- The register names the right cause unless `serial_update_irq` stops too early. -/
theorem named_iff {s : IrqSys} (h : Fresh s.dev) (htx : s.txEmpty = s.dev.thrIpending) :
    s.Named s.dev.iir ↔ ¬ Masked s.dev := by
  have htransmit : s.Transmit ↔ s.dev.ier.getLsbD 1 = true ∧ s.dev.thrIpending = true := by
    unfold Transmit
    rw [htx]
  unfold Named
  rw [h.1, cause_eq]
  by_cases hline : Line s.dev
  · rw [if_pos hline, if_pos hline]
    exact iff_of_true rfl fun hmask => hmask.1.1 hline
  rw [if_neg hline, if_neg hline]
  by_cases htimeout : s.dev.ier.getLsbD 0 = true ∧ s.dev.timeoutIpending = true
  · rw [if_pos htimeout, if_pos (show Receive s.dev from ⟨htimeout.1, .inl htimeout.2⟩)]
    refine iff_of_true (.inl ⟨rfl, htimeout.2⟩) fun hmask => ?_
    exact absurd (hmask.1.2.2.1.symm.trans htimeout.2) (by decide)
  rw [if_neg htimeout]
  by_cases hdata : s.dev.ier.getLsbD 0 = true ∧ s.dev.lsr.dr = true
  · rw [if_pos hdata]
    by_cases hlevel : AtLevel s.dev
    · rw [if_pos hlevel, if_pos (show Receive s.dev from ⟨hdata.1, .inr hlevel⟩)]
      exact iff_of_true (.inr ⟨rfl, hlevel⟩) fun hmask => hmask.1.2.2.2.2 hlevel
    · have hreceive : ¬ Receive s.dev := fun hr => hr.2.elim (fun ht => htimeout ⟨hdata.1, ht⟩) hlevel
      have hquiet : s.dev.timeoutIpending = false := Bool.eq_false_iff.2 fun ht => htimeout ⟨hdata.1, ht⟩
      have hmask : Masked s.dev ↔ s.Transmit ∨ Modem s.dev := by
        rw [htransmit]
        exact and_iff_right ⟨hline, hdata.1, hquiet, hdata.2, hlevel⟩
      rw [if_neg hlevel, if_neg hreceive, hmask]
      by_cases ht : s.Transmit
      · rw [if_pos ht]
        exact iff_of_false (by decide) (not_not.2 (.inl ht))
      · rw [if_neg ht]
        by_cases hm : Modem s.dev
        · rw [if_pos hm]
          exact iff_of_false (by decide) (not_not.2 (.inr hm))
        · rw [if_neg hm]
          exact iff_of_true rfl (not_or.2 ⟨ht, hm⟩)
  · have hreceive : ¬ Receive s.dev := fun hr => hr.2.elim (fun ht => htimeout ⟨hr.1, ht⟩) fun hl => hdata ⟨hr.1, hl.1⟩
    have hmask : ¬ Masked s.dev := fun hmask => hdata ⟨hmask.1.2.1, hmask.1.2.2.2.1⟩
    rw [if_neg hdata, if_neg hreceive]
    refine iff_of_true ?_ hmask
    by_cases ht : s.Transmit
    · rw [if_pos ht, if_pos (htransmit.1 ht)]
    · rw [if_neg ht, if_neg fun hp => ht (htransmit.2 hp)]
      split_ifs <;> rfl

/-! ### Operations -/

theorem sender_of_view {d d' : SerialState} (h : Sender d) (heq : d'.view = d.view) : Sender d' := by
  injection heq with _ _ _ h₄ _ _ _ _ h₉ h₁₀ h₁₁
  exact ⟨h₄ ▸ h.xmit, h₄ ▸ h.xmit_count, h₉ ▸ h.thre, h₁₀ ▸ h.retry, h₁₁ ▸ h.timer⟩

/-- The register and the line are up to date, and the transmitter is empty. -/
structure Settled (d : SerialState) : Prop where
  fresh : Fresh d
  sender : Sender d

theorem settled_update {d : SerialState} (h : Sender d) : Settled (serialUpdateIrq d) :=
  ⟨fresh_update d, sender_of_view h (view_serialUpdateIrq d)⟩

/-- A byte that is written is sent at once, and the transmitter is empty again. -/
theorem settled_write {d : SerialState} (h : Sender d) (val : Byte) (accepted : Bool) :
    Settled (serialXmit accepted (putThr val d)) ∧ (serialXmit accepted (putThr val d)).thrIpending = true := by
  obtain ⟨f, retry, hf, hcount, hretry, hview⟩ := serialXmit_putThr h val accepted
  have hsender : Sender (serialXmit accepted (putThr val d)) := by
    have hsent : Sender (sentWith d val f retry) := ⟨hf, hcount, rfl, hretry, h.timer⟩
    split_ifs at hview
    · refine sender_of_view ?_ hview
      unfold serialReceive1
      split_ifs <;> exact ⟨hf, hcount, rfl, hretry, h.timer⟩
    · exact sender_of_view hsent hview
  obtain ⟨g, -, -, hload⟩ := loadTsr_putThr h val
  have hthre : (loadTsr (putThr val d)).lsr.thre = true := congrArg View.thre hload
  have hretry' : (loadTsr (putThr val d)).tsrRetry = d.tsrRetry := congrArg View.tsrRetry hload
  have hle : ¬ (0 < (loadTsr (putThr val d)).tsrRetry ∧ (loadTsr (putThr val d)).tsrRetry ≤ maxXmitRetry) := by
    rw [hretry']
    exact fun hlt => absurd hlt.1 (not_lt.2 h.retry)
  have hdone : ∀ t : SerialState, t.lsr.thre = true → Fresh (xmitDone t) ∧ (xmitDone t).thrIpending = true := by
    intro t ht
    unfold xmitDone
    rw [if_pos ht]
    exact ⟨fresh_update _, rfl⟩
  have hend : Fresh (serialXmit accepted (putThr val d)) ∧ (serialXmit accepted (putThr val d)).thrIpending = true := by
    unfold serialXmit
    dsimp only
    rw [if_neg hle]
    split_ifs
    · refine hdone _ ?_
      unfold serialReceive1
      split_ifs <;> exact hthre
    all_goals exact hdone _ hthre
  exact ⟨⟨hend.1, hsender⟩, hend.2⟩

theorem serialUpdateMsl_cases (tiocm : Option Tiocm) (d : SerialState) :
    serialUpdateMsl tiocm d = { d with pollMsl := -1 } ∨ (∃ msr, serialUpdateMsl tiocm d = serialUpdateIrq { d with msr := msr }) ∨
      serialUpdateMsl tiocm d = d := by
  have hset : ∀ msr msr' : Byte, ∀ d' : SerialState,
      (if msr ≠ d.msr then serialUpdateIrq { d with msr := msr' } else { d with msr := msr }) = d' →
        (∃ msr, d' = serialUpdateIrq { d with msr := msr }) ∨ d' = d := by
    rintro msr msr' d' rfl
    by_cases hne : msr ≠ d.msr
    · rw [if_pos hne]
      exact .inl ⟨msr', rfl⟩
    · rw [if_neg hne, not_not.1 hne]
      exact .inr rfl
  cases tiocm with
  | none => exact .inl rfl
  | some t => exact .inr (hset _ _ _ rfl)

theorem settled_updateMsl {d : SerialState} (h : Settled d) (tiocm : Option Tiocm) :
    Settled (serialUpdateMsl tiocm d) ∧ (serialUpdateMsl tiocm d).thrIpending = d.thrIpending := by
  have hsender := sender_of_view h.sender (view_serialUpdateMsl tiocm d)
  rcases serialUpdateMsl_cases tiocm d with heq | ⟨msr, heq⟩ | heq
  · rw [heq] at hsender ⊢
    exact ⟨⟨h.fresh.of_eq rfl rfl rfl, hsender⟩, rfl⟩
  · rw [heq] at hsender ⊢
    exact ⟨⟨fresh_update _, hsender⟩, rfl⟩
  · rw [heq]
    exact ⟨h, rfl⟩

theorem settled_writeIer {d : SerialState} (h : Settled d) (val : Byte) (tiocm : Option Tiocm) :
    Settled (writeIer val tiocm d) ∧ (writeIer val tiocm d).thrIpending = true := by
  have hview := view_writeIer val tiocm d
  have hmsl : (serialUpdateMsl tiocm { d with ier := val &&& 0x0f#8, pollMsl := 1 }).lsr.thre = true :=
    (congrArg View.thre (view_serialUpdateMsl tiocm { d with ier := val &&& 0x0f#8, pollMsl := 1 })).trans h.sender.thre
  have hend : Fresh (writeIer val tiocm d) ∧ (writeIer val tiocm d).thrIpending = true := by
    unfold writeIer
    extract_lets d₁ d₂
    have hthre₂ : d₂.lsr.thre = true := by
      show (if 0 ≤ d₁.pollMsl then
        if d₁.ier.getLsbD 3 then serialUpdateMsl tiocm { d₁ with pollMsl := 1 } else { d₁ with pollMsl := 0 }
        else d₁).lsr.thre = true
      split_ifs
      · exact hmsl
      · exact h.sender.thre
      · exact h.sender.thre
    rw [if_pos hthre₂]
    exact ⟨fresh_update _, rfl⟩
  exact ⟨⟨hend.1, sender_of_view h.sender hview⟩, hend.2⟩

theorem settled_writeFcr {d : SerialState} (h : Settled d) (val : Byte) :
    Settled (writeFcr val d) ∧ (writeFcr val d).thrIpending = d.thrIpending := by
  by_cases heq : d.fcr = val
  · have hsame : writeFcr val d = d := if_pos heq
    rw [hsame]
    exact ⟨h, rfl⟩
  · have hsender : Sender (resetWith val d) := by
      refine ⟨?_, ?_, h.sender.thre, h.sender.retry, h.sender.timer⟩ <;> dsimp only [resetWith] <;> split_ifs
      · exact valid_fifoClear
      · exact h.sender.xmit
      · rfl
      · exact h.sender.xmit_count
    refine ⟨⟨?_, sender_of_view hsender (view_writeFcr heq)⟩, ?_⟩
    · unfold writeFcr
      rw [if_neg heq]
      exact fresh_update _
    · unfold writeFcr
      rw [if_neg heq]
      dsimp only
      split_ifs <;> rfl

/-- What a write makes of the transmitter's event. -/
theorem settled_ioportWrite {s : IrqSys} (h : Settled s.dev) (htx : s.txEmpty = s.dev.thrIpending) (addr : ℕ) (val : Byte)
    (accepted : Bool) (tiocm : Option Tiocm) :
    Settled (serialIoportWrite addr val accepted tiocm s.dev) ∧
      s.written addr (serialIoportWrite addr val accepted tiocm s.dev) =
        (serialIoportWrite addr val accepted tiocm s.dev).thrIpending := by
  have hkeep : ∀ d : SerialState, d.view = s.dev.view → cause d = cause s.dev → d.iir = s.dev.iir → d.irq = s.dev.irq →
      Settled d := fun d hview hcause hiir hirq => ⟨h.fresh.of_eq hcause hiir hirq, sender_of_view h.sender hview⟩
  unfold serialIoportWrite written
  cases regOf addr with
  | data =>
    by_cases hdlab : s.dev.dlab = true
    · simp only [hdlab, if_true]
      exact ⟨hkeep _ rfl rfl rfl rfl, htx⟩
    · have hsent := settled_write h.sender val accepted
      simp only [hdlab, Bool.false_eq_true, if_false]
      exact ⟨hsent.1, by rw [hsent.1.sender.thre, hsent.2]⟩
  | ier =>
    by_cases hdlab : s.dev.dlab = true
    · simp only [hdlab, if_true]
      exact ⟨hkeep _ rfl rfl rfl rfl, htx⟩
    · have hier := settled_writeIer h val tiocm
      simp only [hdlab, Bool.false_eq_true, if_false]
      exact ⟨hier.1, by rw [h.sender.thre, hier.2, Bool.or_true]⟩
  | fcr =>
    have hfcr := settled_writeFcr h val
    exact ⟨hfcr.1, by rw [hfcr.2, htx]⟩
  | lcr => exact ⟨hkeep _ rfl rfl rfl rfl, htx⟩
  | mcr => exact ⟨hkeep _ rfl rfl rfl rfl, htx⟩
  | lsr => exact ⟨h, htx⟩
  | msr => exact ⟨h, htx⟩
  | scr => exact ⟨hkeep _ rfl rfl rfl rfl, htx⟩

theorem settled_readRbr {d : SerialState} (h : Settled d) :
    Settled (readRbr d).2 ∧ (readRbr d).2.thrIpending = d.thrIpending := by
  have hsender : Sender (readRbr d).2 := by
    unfold readRbr
    dsimp only
    split_ifs <;>
      exact ⟨h.sender.xmit, h.sender.xmit_count, h.sender.thre, h.sender.retry, h.sender.timer⟩
  refine ⟨⟨?_, hsender⟩, ?_⟩
  all_goals
    unfold readRbr
    dsimp only
    split_ifs
  all_goals first | exact fresh_update _ | rfl

theorem settled_readMsr {d : SerialState} (h : Settled d) (tiocm : Option Tiocm) :
    Settled (readMsr tiocm d).2 ∧ (readMsr tiocm d).2.thrIpending = d.thrIpending := by
  have hmsl := settled_updateMsl h tiocm
  have hdelta : ∀ d' : SerialState, Settled d' ∧ d'.thrIpending = d.thrIpending →
      Settled (if d'.msr &&& 0x0f#8 ≠ 0 then serialUpdateIrq { d' with msr := d'.msr &&& 0xf0#8 } else d') ∧
        (if d'.msr &&& 0x0f#8 ≠ 0 then serialUpdateIrq { d' with msr := d'.msr &&& 0xf0#8 } else d').thrIpending =
          d.thrIpending := by
    intro d' hd'
    split_ifs
    · exact ⟨settled_update (sender_of_view hd'.1.sender rfl), hd'.2⟩
    · exact hd'
  unfold readMsr
  by_cases hloop : d.loop = true
  · rw [if_pos hloop]
    exact ⟨h, rfl⟩
  · rw [if_neg hloop]
    refine hdelta (if 0 ≤ d.pollMsl then serialUpdateMsl tiocm d else d) ?_
    split_ifs
    · exact hmsl
    · exact ⟨h, rfl⟩

/-- A read of another register leaves the event alone. -/
theorem settled_readOther {d : SerialState} (h : Settled d) {addr : ℕ} (hreg : regOf addr ≠ .fcr) (tiocm : Option Tiocm) :
    Settled (serialIoportRead addr tiocm d).2 ∧ (serialIoportRead addr tiocm d).2.thrIpending = d.thrIpending := by
  unfold serialIoportRead
  cases hcase : regOf addr with
  | data =>
    dsimp only
    split_ifs
    · exact ⟨h, rfl⟩
    · exact settled_readRbr h
  | ier =>
    dsimp only
    split_ifs <;> exact ⟨h, rfl⟩
  | fcr => exact absurd hcase hreg
  | lcr => exact ⟨h, rfl⟩
  | mcr => exact ⟨h, rfl⟩
  | lsr =>
    dsimp only
    split_ifs
    · exact ⟨settled_update (sender_of_view h.sender rfl), rfl⟩
    · exact ⟨h, rfl⟩
  | msr => exact settled_readMsr h tiocm
  | scr => exact ⟨h, rfl⟩

/-- What a read makes of the transmitter's event. -/
theorem settled_ioportRead {s : IrqSys} (h : Settled s.dev) (htx : s.txEmpty = s.dev.thrIpending) (addr : ℕ)
    (tiocm : Option Tiocm) :
    Settled (serialIoportRead addr tiocm s.dev).2 ∧
      ((s.read addr (serialIoportRead addr tiocm s.dev).1 = true → (serialIoportRead addr tiocm s.dev).2.thrIpending = true) ↔
        s.ReadSafe (.read addr tiocm)) ∧
      (s.ReadSafe (.read addr tiocm) →
        s.read addr (serialIoportRead addr tiocm s.dev).1 = (serialIoportRead addr tiocm s.dev).2.thrIpending) := by
  by_cases hreg : regOf addr = .fcr
  · have hstate : serialIoportRead addr tiocm s.dev = (s.dev.iir, serialUpdateIrq { s.dev with thrIpending := false }) := by
      unfold serialIoportRead
      rw [hreg]
    have hread : s.read addr s.dev.iir = (s.txEmpty && decide (causeOf s.dev.iir ≠ 0x02)) := by
      unfold read
      rw [hreg]
    have hsafe : s.ReadSafe (.read addr tiocm) ↔ (s.txEmpty = true → causeOf s.dev.iir = 0x02) := forall_prop_of_true hreg
    rw [hstate, hsafe]
    refine ⟨settled_update (sender_of_view h.sender rfl), ?_, ?_⟩
    · show (s.read addr s.dev.iir = true → false = true) ↔ _
      rw [hread]
      cases s.txEmpty <;> simp
    · intro hevent
      show s.read addr s.dev.iir = false
      rw [hread]
      cases htrue : s.txEmpty
      · rfl
      · simp [hevent htrue]
  · obtain ⟨hsettled, hthr⟩ := settled_readOther h hreg tiocm
    have hread : s.read addr (serialIoportRead addr tiocm s.dev).1 = s.txEmpty := by
      unfold read
      split
      · exact absurd ‹_› hreg
      · rfl
    have heq : s.read addr (serialIoportRead addr tiocm s.dev).1 = (serialIoportRead addr tiocm s.dev).2.thrIpending := by
      rw [hread, hthr, htx]
    exact ⟨hsettled, iff_of_true (fun ht => heq ▸ ht) fun hfcr => absurd hfcr hreg, fun _ => heq⟩

/-- Between two operations the register and the line are up to date, and the device has not forgotten
the transmitter. -/
structure Inv (s : IrqSys) : Prop where
  settled : Settled s.dev
  event : s.txEmpty = s.dev.thrIpending

/-- One operation keeps everything up to date, and the event exactly when it meets its condition. -/
theorem inv_step {s t : IrqSys} {op : Op} (h : Inv s) (hstep : s.step op = some t) :
    Settled t.dev ∧ ((t.txEmpty = true → t.dev.thrIpending = true) ↔ s.ReadSafe op) ∧ (s.ReadSafe op → Inv t) := by
  have hkeep : ∀ u : IrqSys, Settled u.dev ∧ u.txEmpty = u.dev.thrIpending → s.ReadSafe op →
      Settled u.dev ∧ ((u.txEmpty = true → u.dev.thrIpending = true) ↔ s.ReadSafe op) ∧ (s.ReadSafe op → Inv u) :=
    fun u hu hsafe => ⟨hu.1, iff_of_true (fun ht => hu.2 ▸ ht) hsafe, fun _ => ⟨hu.1, hu.2⟩⟩
  cases op with
  | write addr val accepted tiocm =>
    cases hstep
    exact hkeep _ (settled_ioportWrite h.settled h.event addr val accepted tiocm) trivial
  | read addr tiocm =>
    cases hstep
    obtain ⟨hsettled, hiff, hevent⟩ := settled_ioportRead h.settled h.event addr tiocm
    exact ⟨hsettled, hiff, fun hsafe => ⟨hsettled, hevent hsafe⟩⟩
  | receive buf =>
    dsimp only [step] at hstep
    split_ifs at hstep
    cases hstep
    refine hkeep _ ⟨⟨?_, ?_⟩, ?_⟩ trivial
    · exact fresh_update _
    · have hs := h.settled.sender
      dsimp only
      unfold serialReceive1
      split_ifs <;> exact ⟨hs.xmit, hs.xmit_count, hs.thre, hs.retry, hs.timer⟩
    · refine h.event.trans ?_
      dsimp only
      unfold serialReceive1
      split_ifs <;> rfl
  | receiveBreak =>
    cases hstep
    have hs := h.settled.sender
    exact hkeep _ ⟨⟨fresh_update _, ⟨hs.xmit, hs.xmit_count, hs.thre, hs.retry, hs.timer⟩⟩, h.event⟩ trivial
  | transmitTimer accepted =>
    dsimp only [step] at hstep
    rw [h.settled.sender.timer] at hstep
    cases hstep
  | fifoTimeout =>
    cases hstep
    refine hkeep _ ⟨⟨?_, sender_of_view h.settled.sender (view_fifoTimeoutInt s.dev)⟩, h.event.trans ?_⟩ trivial
    · dsimp only
      unfold fifoTimeoutInt
      split_ifs
      · exact fresh_update _
      · exact h.settled.fresh
    · dsimp only
      unfold fifoTimeoutInt
      split_ifs <;> rfl
  | modemPoll tiocm =>
    cases hstep
    have hmsl := settled_updateMsl h.settled tiocm
    exact hkeep _ ⟨hmsl.1, h.event.trans hmsl.2.symm⟩ trivial

theorem right_iff {s : IrqSys} (hfresh : Fresh s.dev) (hevent : s.txEmpty = s.dev.thrIpending) :
    Right s ↔ ¬ Masked s.dev := by
  constructor
  · exact fun h => (named_iff hfresh hevent).1 h.named
  · exact fun h => ⟨line_right hfresh, (named_iff hfresh hevent).2 h, fun ht => hevent ▸ ht⟩

theorem inv_init : Inv IrqSys.init := by
  refine ⟨⟨⟨by decide, by decide⟩, ?_⟩, rfl⟩
  exact ⟨valid_fifoClear, rfl, rfl, by decide, rfl⟩

/-- The interrupt line and the identification register are right in every state of a run, and no event
of the transmitter is lost, exactly when no operation lets `serial_update_irq` stop at received data
below the trigger level with another cause pending, and none reads the register while it hides the
event. -/
theorem serial_interrupt_iff (ops : List Op) :
    (∀ n s, (ops.take n).foldlM IrqSys.step IrqSys.init = some s → Right s) ↔
      MeetsDone IrqSys.step OpSafe IrqSys.init ops := by
  refine foldlM_take_iff_meetsDone_of (P := fun s => Inv s ∧ ¬ Masked s.dev) ?_ ?_ ?_ ops _ ?_
  · exact fun s h => (right_iff h.1.settled.fresh h.1.event).2 h.2
  · intro s op t hs hstep hsafe
    exact ⟨(inv_step hs.1 hstep).2.2 hsafe.2, hsafe.1 t hstep⟩
  · intro s op t hs hstep hright
    obtain ⟨hsettled, hiff, hinv⟩ := inv_step hs.1 hstep
    have hread : s.ReadSafe op := hiff.1 hright.event
    refine ⟨fun u hu => ?_, hread⟩
    cases hstep.symm.trans hu
    exact (right_iff hsettled.fresh (hinv hread).event).1 hright
  · exact ⟨inv_init, fun hmask => absurd hmask.1.2.1 (by decide)⟩

/-- The guest sets up the queue with a trigger level of four bytes and enables the receive and transmit
interrupts; a byte that arrives hides that the transmitter is empty. -/
theorem serial_transmit_hidden : ¬ ∀ (ops : List Op) (n : ℕ) (s : IrqSys),
    (ops.take n).foldlM IrqSys.step IrqSys.init = some s → Right s := by
  intro h
  have hnamed := (h [.write 2 0x41 true none, .write 1 0x03 true none, .receive [0x61]] 3 _ rfl).named
  revert hnamed
  decide

end IrqSys

end Ar7Qemu.Serial
