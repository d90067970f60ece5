import Ar7Qemu.Hw.SerialIrq

/-! Saving and loading the UART of `serial.c`. The FIFO control register is loaded by a write of the
guest's kind to address 2, which the device decodes with its own base address and register shift: it
reaches the register in an instance at address 0 without a shift, and some other register elsewhere.
Where it does reach it, the interrupt that a transmitter event raises is not restored, nor any
interrupt when the register is 0. -/

namespace Ar7Qemu.Serial

open Lib

def serialSave (d : SerialState) : List Byte :=
  [(d.divider >>> 8).setWidth 8, d.divider.setWidth 8, d.rbr, d.ier, d.iir, d.lcr, d.mcr, d.lsr.toByte, d.msr, d.scr, d.fcr]

def Lsr.ofByte (b : Byte) : Lsr := ⟨b.getLsbD 6, b.getLsbD 5, b.getLsbD 4, b.getLsbD 0⟩

/-- The address that `serial_ioport_write` decodes; `base` and `itShift` are those of the instance, and
addresses have 32 bits. -/
def decode (base : BitVec 64) (itShift : Fin 32) (addr : BitVec 32) : ℕ :=
  ((addr - base.setWidth 32) >>> itShift.val).toNat

def offered (addr : ℕ) (val : Byte) (d : SerialState) : List Byte :=
  match regOf addr with
  | .data => if d.dlab then [] else if (loadTsr (putThr val d)).loop then [] else [(loadTsr (putThr val d)).tsr]
  | _ => []

/-- The registers that `serial_load` reads, from a file that has them all. -/
def loadRegs (f : List Byte) (d : SerialState) : SerialState :=
  { d with
    divider := (f.getD 0 0).setWidth 16 <<< 8 ||| (f.getD 1 0).setWidth 16
    rbr := f.getD 2 0
    ier := f.getD 3 0
    iir := f.getD 4 0
    lcr := f.getD 5 0
    mcr := f.getD 6 0
    lsr := .ofByte (f.getD 7 0)
    msr := f.getD 8 0
    scr := f.getD 9 0 }

/-- `serial_load` of a file of version 3: the bytes that are offered to the backend, and the device. -/
def serialLoad (base : BitVec 64) (itShift : Fin 32) (f : List Byte) (accepted : Bool) (tiocm : Option Tiocm) (d : SerialState) :
    List Byte × SerialState :=
  let d := loadRegs f d
  let fcr := f.getD 10 0
  -- initialize fcr via setter to perform essential side-effects
  (offered (decode base itShift 2) fcr d, serialIoportWrite (decode base itShift 2) fcr accepted tiocm d)

/-- All that the guest reads is as it was, the FIFO control register with its effects, and the
interrupt line. -/
structure Restored (d d' : SerialState) : Prop where
  divider : d'.divider = d.divider
  rbr : d'.rbr = d.rbr
  ier : d'.ier = d.ier
  iir : d'.iir = d.iir
  lcr : d'.lcr = d.lcr
  mcr : d'.mcr = d.mcr
  lsr : d'.lsr = d.lsr
  msr : d'.msr = d.msr
  scr : d'.scr = d.scr
  fcr : d'.fcr = d.fcr
  itl : d.fifos = true → d'.recvItl = d.recvItl
  irq : d'.irq = d.irq

/-- What is saved is restored by a new device of the same configuration, and nothing is sent. -/
def Transparent (base : BitVec 64) (itShift : Fin 32) (accepted : Bool) (tiocm : Option Tiocm) (d : SerialState) : Prop :=
  (serialLoad base itShift (serialSave d) accepted tiocm .init).1 = [] ∧
    Restored d (serialLoad base itShift (serialSave d) accepted tiocm .init).2

/-- The register that the control value is written to is the FIFO control register, and no interrupt is
raised or, with a control value that is not 0, none by the transmitter; or it is another register, the
control value is 0, and nothing is lost by writing 0 there. -/
def LoadSafe (d : SerialState) : Reg → Prop
  | .fcr => if d.fcr = 0 then d.irq = false else IrqSys.causeOf d.iir ≠ 0x02
  | .data => d.fcr = 0 ∧
      if d.dlab then d.divider &&& 0x00ff#16 = 0 ∧ d.irq = false
      else d.loop = true ∧ d.rbr = 0 ∧ d.lsr.dr = true ∧
        (IrqSys.Line d ∨ d.ier.getLsbD 0 = true ∨ d.ier.getLsbD 1 = false ∨ d.thrIpending = true)
  | .ier => d.fcr = 0 ∧ if d.dlab then d.divider &&& 0xff00#16 = 0 ∧ d.irq = false else d.ier = 0
  | .lcr => d.fcr = 0 ∧ d.lcr = 0 ∧ d.irq = false
  | .mcr => d.fcr = 0 ∧ d.mcr = 0 ∧ d.irq = false
  | .lsr => d.fcr = 0 ∧ d.irq = false
  | .msr => d.fcr = 0 ∧ d.irq = false
  | .scr => d.fcr = 0 ∧ d.scr = 0 ∧ d.irq = false

/-! ### The registers between two operations -/

/-- What the FIFO control register has to do with the rest of the device. -/
structure Configured (d : SerialState) : Prop where
  temt : d.lsr.temt = true
  fcr : d.fcr &&& 0xc9#8 = d.fcr
  itl : d.fifos = true → d.recvItl = recvItlOf d.fcr
  iir : d.iir &&& 0xf0#8 = if d.fifos then 0xc0 else 0

/-- The part of the device that this is about. -/
def conf (d : SerialState) : Bool × Byte × ℕ × Byte := (d.lsr.temt, d.fcr, d.recvItl, d.iir &&& 0xf0#8)

theorem Configured.of_conf {d d' : SerialState} (h : Configured d) (heq : conf d' = conf d) : Configured d' := by
  simp only [conf, Prod.mk.injEq] at heq
  obtain ⟨htemt, hfcr, hitl, hiir⟩ := heq
  have hfifos : d'.fifos = d.fifos := by rw [SerialState.fifos, hfcr, SerialState.fifos]
  refine ⟨htemt.trans h.temt, ?_, ?_, ?_⟩
  · rw [hfcr]
    exact h.fcr
  · rw [hfifos, hitl, hfcr]
    exact h.itl
  · rw [hiir, hfifos]
    exact h.iir

theorem conf_update (d : SerialState) : conf (serialUpdateIrq d) = conf d := by
  have hiir : (serialUpdateIrq d).iir = IrqSys.cause d ||| (d.iir &&& 0xf0#8) := rfl
  have hlow := IrqSys.cause_low d
  have hhigh : IrqSys.cause d &&& 0xf0#8 = 0 := by
    rw [← hlow, BitVec.and_assoc]
    exact BitVec.and_zero
  unfold conf
  rw [hiir, BitVec.and_or_distrib_right, hhigh, BitVec.and_assoc]
  simp
  exact ⟨rfl, rfl, rfl⟩

theorem conf_updateMsl (tiocm : Option Tiocm) (d : SerialState) : conf (serialUpdateMsl tiocm d) = conf d := by
  rcases IrqSys.serialUpdateMsl_cases tiocm d with heq | ⟨msr, heq⟩ | heq
  · rw [heq]
    rfl
  · rw [heq]
    exact conf_update _
  · rw [heq]

theorem conf_receive1 (buf : List Byte) (d : SerialState) : conf (serialReceive1 buf d) = conf d := by
  unfold serialReceive1
  rw [conf_update]
  split_ifs <;> rfl

theorem conf_writeIer (val : Byte) (tiocm : Option Tiocm) (d : SerialState) : conf (writeIer val tiocm d) = conf d := by
  unfold writeIer
  extract_lets d₁ d₂
  have hmsl : conf d₂ = conf d := by
    show conf (if 0 ≤ d₁.pollMsl then
      if d₁.ier.getLsbD 3 then serialUpdateMsl tiocm { d₁ with pollMsl := 1 } else { d₁ with pollMsl := 0 }
      else d₁) = conf d
    split_ifs
    · exact conf_updateMsl tiocm _
    · rfl
    · rfl
  split_ifs
  · rw [conf_update]
    exact hmsl
  · exact hmsl

theorem conf_ioportRead (addr : ℕ) (tiocm : Option Tiocm) (d : SerialState) :
    conf (serialIoportRead addr tiocm d).2 = conf d := by
  unfold serialIoportRead
  cases regOf addr with
  | data =>
    dsimp only
    split_ifs
    · rfl
    · unfold readRbr
      dsimp only
      split_ifs <;> exact conf_update _
  | ier =>
    dsimp only
    split_ifs <;> rfl
  | fcr => exact conf_update _
  | lcr => rfl
  | mcr => rfl
  | lsr =>
    dsimp only
    split_ifs
    · exact conf_update _
    · rfl
  | msr =>
    show conf (readMsr tiocm d).2 = conf d
    have hdelta : ∀ d' : SerialState, conf d' = conf d →
        conf (if d'.msr &&& 0x0f#8 ≠ 0 then serialUpdateIrq { d' with msr := d'.msr &&& 0xf0#8 } else d') = conf d := by
      intro d' heq
      split_ifs
      · rw [conf_update]
        exact heq
      · exact heq
    unfold readMsr
    by_cases hloop : d.loop = true
    · rw [if_pos hloop]
    · rw [if_neg hloop]
      refine hdelta (if 0 ≤ d.pollMsl then serialUpdateMsl tiocm d else d) ?_
      split_ifs
      · exact conf_updateMsl tiocm d
      · rfl
  | scr => rfl

theorem conf_snd_update (d : SerialState) : (conf (serialUpdateIrq d)).2 = (conf d).2 := congrArg Prod.snd (conf_update d)

/-- Sending a byte leaves the transmitter empty. -/
theorem configured_write {d : SerialState} (h : Configured d) (hs : Sender d) (val : Byte) (accepted : Bool) :
    Configured (serialXmit accepted (putThr val d)) := by
  have hdone : ∀ t : SerialState, (conf t).2 = (conf d).2 → t.lsr.thre = true → Configured (xmitDone t) := by
    intro t ht hthre
    unfold xmitDone
    rw [if_pos hthre]
    refine h.of_conf ?_
    rw [conf_update]
    exact Prod.ext h.temt.symm ht
  obtain ⟨f, -, -, hload⟩ := loadTsr_putThr hs val
  have hthre : (loadTsr (putThr val d)).lsr.thre = true := congrArg View.thre hload
  have hretry : (loadTsr (putThr val d)).tsrRetry = d.tsrRetry := congrArg View.tsrRetry hload
  have hle : ¬ (0 < (loadTsr (putThr val d)).tsrRetry ∧ (loadTsr (putThr val d)).tsrRetry ≤ maxXmitRetry) := by
    rw [hretry]
    exact fun hlt => absurd hlt.1 (not_lt.2 hs.retry)
  have hput : (conf (putThr val d)).2 = (conf d).2 := by
    unfold putThr
    dsimp only
    split_ifs <;> exact conf_snd_update _
  have hsame : (conf (loadTsr (putThr val d))).2 = (conf d).2 := by
    rw [← hput]
    unfold loadTsr
    split_ifs <;> rfl
  unfold serialXmit
  dsimp only
  rw [if_neg hle]
  split_ifs
  · refine hdone _ ((congrArg Prod.snd (conf_receive1 _ _)).trans hsame) ?_
    unfold serialReceive1
    split_ifs <;> exact hthre
  all_goals exact hdone _ hsame hthre

theorem recvItlOf_fcr (val : Byte) : recvItlOf (val &&& 0xc9#8) = recvItlOf val := by
  have hmask : val &&& 0xc9#8 &&& 0xc0#8 = val &&& 0xc0#8 := by
    rw [BitVec.and_assoc]
    rfl
  unfold recvItlOf
  rw [hmask]

/-- A write to the FIFO control register. -/
theorem configured_writeFcr {d : SerialState} (h : Configured d) (val : Byte) : Configured (writeFcr val d) := by
  by_cases heq : d.fcr = val
  · have hsame : writeFcr val d = d := if_pos heq
    rw [hsame]
    exact h
  · have hmask : ∀ v : Byte, v &&& 0xc9#8 &&& 0xc9#8 = v &&& 0xc9#8 := by
      intro v
      rw [BitVec.and_assoc]
      rfl
    have hbit : ∀ v : Byte, (v &&& 0xc9#8).getLsbD 0 = v.getLsbD 0 := by
      intro v
      simp
    have hon : (d.iir ||| 0xc0#8) &&& 0xf0#8 = 0xc0 := by
      rw [BitVec.and_or_distrib_right, h.iir]
      split_ifs <;> rfl
    have hoff : d.iir &&& ~~~0xc0#8 &&& 0xf0#8 = 0 := by
      rw [BitVec.and_assoc, BitVec.and_comm (~~~0xc0#8), ← BitVec.and_assoc, h.iir]
      split_ifs <;> rfl
    have hset : ∀ (e : SerialState) (v : Byte), e.lsr.temt = true → e.fcr = v &&& 0xc9#8 →
        (v.getLsbD 0 = true → e.recvItl = recvItlOf v) →
        (e.iir &&& 0xf0#8 = if v.getLsbD 0 then 0xc0 else 0) → Configured (serialUpdateIrq e) := by
      intro e v htemt hfcr hitl hiir
      have hfifos : e.fifos = v.getLsbD 0 := by rw [SerialState.fifos, hfcr, hbit]
      refine Configured.of_conf ⟨htemt, ?_, ?_, ?_⟩ (conf_update e)
      · rw [hfcr, hmask]
      · rw [hfifos, hfcr, recvItlOf_fcr]
        exact hitl
      · rw [hfifos]
        exact hiir
    unfold writeFcr
    rw [if_neg heq]
    dsimp only
    by_cases hfe : (fcrVal val d).getLsbD 0 = true
    · rw [if_pos hfe]
      refine hset _ (fcrVal val d) ?_ rfl (fun _ => rfl) ?_
      · split_ifs <;> exact h.temt
      · rw [if_pos hfe]
        split_ifs <;> exact hon
    · rw [if_neg hfe]
      refine hset _ (fcrVal val d) ?_ rfl (fun hfe' => absurd hfe' hfe) ?_
      · split_ifs <;> exact h.temt
      · rw [if_neg hfe]
        split_ifs <;> exact hoff

theorem configured_step {s t : IrqSys} {op : Op} (h : Configured s.dev) (hs : IrqSys.Settled s.dev)
    (hstep : s.step op = some t) : Configured t.dev := by
  cases op with
  | write addr val accepted tiocm =>
    cases hstep
    show Configured (serialIoportWrite addr val accepted tiocm s.dev)
    unfold serialIoportWrite
    cases regOf addr with
    | data =>
      dsimp only
      split_ifs
      · exact h.of_conf rfl
      · exact configured_write h hs.sender val accepted
    | ier =>
      dsimp only
      split_ifs
      · exact h.of_conf rfl
      · exact h.of_conf (conf_writeIer val tiocm s.dev)
    | fcr => exact configured_writeFcr h val
    | lcr => exact h.of_conf rfl
    | mcr => exact h.of_conf rfl
    | lsr => exact h
    | msr => exact h
    | scr => exact h.of_conf rfl
  | read addr tiocm =>
    cases hstep
    exact h.of_conf (conf_ioportRead addr tiocm s.dev)
  | receive buf =>
    dsimp only [IrqSys.step] at hstep
    split_ifs at hstep
    cases hstep
    exact h.of_conf (conf_receive1 buf s.dev)
  | receiveBreak =>
    cases hstep
    exact h.of_conf (conf_update _)
  | transmitTimer accepted =>
    dsimp only [IrqSys.step] at hstep
    rw [hs.sender.timer] at hstep
    cases hstep
  | fifoTimeout =>
    cases hstep
    refine h.of_conf ?_
    show conf (fifoTimeoutInt s.dev) = conf s.dev
    unfold fifoTimeoutInt
    split_ifs
    · exact conf_update _
    · rfl
  | modemPoll tiocm =>
    cases hstep
    exact h.of_conf (conf_updateMsl tiocm s.dev)

/-- The device does not depend on the event that is kept beside it. -/
theorem step_dev {s t : IrqSys} {op : Op} (hstep : s.step op = some t) (txEmpty : Bool) :
    ∃ u, (IrqSys.mk s.dev txEmpty).step op = some u ∧ u.dev = t.dev := by
  cases op with
  | write addr val accepted tiocm =>
    cases hstep
    exact ⟨_, rfl, rfl⟩
  | read addr tiocm =>
    cases hstep
    exact ⟨_, rfl, rfl⟩
  | receive buf =>
    dsimp only [IrqSys.step] at hstep ⊢
    split_ifs at hstep ⊢
    cases hstep
    exact ⟨_, rfl, rfl⟩
  | receiveBreak =>
    cases hstep
    exact ⟨_, rfl, rfl⟩
  | transmitTimer accepted =>
    dsimp only [IrqSys.step] at hstep ⊢
    split_ifs at hstep ⊢
    cases hstep
    exact ⟨_, rfl, rfl⟩
  | fifoTimeout =>
    cases hstep
    exact ⟨_, rfl, rfl⟩
  | modemPoll tiocm =>
    cases hstep
    exact ⟨_, rfl, rfl⟩

theorem reached {ops : List Op} {s : IrqSys} (hrun : ops.foldlM IrqSys.step IrqSys.init = some s) :
    IrqSys.Settled s.dev ∧ Configured s.dev := by
  refine foldlM_invariant (P := fun s : IrqSys => IrqSys.Settled s.dev ∧ Configured s.dev) ?_ ops _ _ ?_ hrun
  · intro s op t hs hstep
    obtain ⟨u, hu, heq⟩ := step_dev hstep s.dev.thrIpending
    refine ⟨?_, configured_step hs.2 hs.1 hstep⟩
    rw [← heq]
    exact (IrqSys.inv_step (s := ⟨s.dev, s.dev.thrIpending⟩) ⟨hs.1, rfl⟩ hu).1
  · exact ⟨IrqSys.inv_init.settled, rfl, rfl, fun h => absurd h (by decide), rfl⟩

/-! ### Loading -/

/-- A new device with the registers of another. -/
def loaded (d : SerialState) : SerialState :=
  { SerialState.init with
    divider := d.divider, rbr := d.rbr, ier := d.ier, iir := d.iir, lcr := d.lcr, mcr := d.mcr, lsr := d.lsr
    msr := d.msr, scr := d.scr }

theorem ofByte_toByte (l : Lsr) : Lsr.ofByte l.toByte = l := by
  obtain ⟨temt, thre, bi, dr⟩ := l
  cases temt <;> cases thre <;> cases bi <;> cases dr <;> rfl

theorem join_bytes (x : BitVec 16) :
    ((x >>> 8).setWidth 8).setWidth 16 <<< 8 ||| (x.setWidth 8).setWidth 16 = x := by
  apply BitVec.eq_of_getLsbD_eq
  intro i hi
  by_cases h : i < 8
  · simp [h, hi]
  · have heq : 8 + (i - 8) = i := by omega
    have hlt : i - 8 < 8 := by omega
    simp [h, hi, heq, hlt]

theorem loadRegs_save (d : SerialState) : loadRegs (serialSave d) .init = loaded d := by
  have hdivider := join_bytes d.divider
  have hlsr := ofByte_toByte d.lsr
  unfold loadRegs serialSave loaded
  simp only [List.getD_cons_zero, List.getD_cons_succ, hdivider, hlsr]

theorem fifos_of_fcr {d : SerialState} (h : d.fcr = 0) : d.fifos = false := by
  rw [SerialState.fifos, h]
  rfl

theorem restored_loaded (d : SerialState) : Restored d (loaded d) ↔ d.fcr = 0 ∧ d.irq = false := by
  constructor
  · exact fun h => ⟨h.fcr.symm, h.irq.symm⟩
  · rintro ⟨hfcr, hirq⟩
    refine ⟨rfl, rfl, rfl, rfl, rfl, rfl, rfl, rfl, rfl, hfcr.symm, fun hf => ?_, hirq.symm⟩
    rw [fifos_of_fcr hfcr] at hf
    exact absurd hf (by decide)

theorem restored_fields {d d' : SerialState} (h : Restored d (loaded d)) (hdivider : d'.divider = d.divider)
    (hregs : (d'.rbr, d'.ier, d'.iir, d'.lcr, d'.mcr, d'.lsr, d'.msr, d'.scr, d'.fcr, d'.recvItl, d'.irq) =
      (d.rbr, d.ier, d.iir, d.lcr, d.mcr, d.lsr, d.msr, d.scr, (0 : Byte), (0 : ℕ), false)) : Restored d d' := by
  simp only [Prod.mk.injEq] at hregs
  obtain ⟨h₁, h₂, h₃, h₄, h₅, h₆, h₇, h₈, h₉, h₁₀, h₁₁⟩ := hregs
  exact ⟨hdivider, h₁, h₂, h₃, h₄, h₅, h₆, h₇, h₈, h₉.trans h.fcr, fun hf => h₁₀.trans (h.itl hf), h₁₁.trans h.irq⟩

/-- The write reaches another register than the one for the control value, and is not sent. -/
theorem restored_other {d : SerialState} {addr : ℕ} (accepted : Bool) (tiocm : Option Tiocm)
    (hreg : regOf addr ≠ .fcr) (hdata : regOf addr = .data ∨ regOf addr = .ier → d.dlab = true) :
    Restored d (serialIoportWrite addr d.fcr accepted tiocm (loaded d)) ↔ LoadSafe d (regOf addr) := by
  have hloaded := restored_loaded d
  have hdlab : (loaded d).dlab = d.dlab := rfl
  unfold serialIoportWrite LoadSafe
  cases hcase : regOf addr with
  | data =>
    have hlow : ∀ x : BitVec 16, (x &&& 0xff00#16) ||| (0 : Byte).setWidth 16 = x ↔ x &&& 0x00ff#16 = 0 := by
      intro x
      constructor
      · intro h
        rw [← h]
        simp [BitVec.and_assoc]
      · intro h
        have hsplit : x &&& 0xff00#16 ||| x &&& 0x00ff#16 = x := by
          rw [← BitVec.and_or_distrib_left]
          exact BitVec.and_allOnes
        rw [h] at hsplit
        exact hsplit
    dsimp only
    rw [hdlab, hdata (.inl hcase), if_pos rfl, if_pos rfl]
    constructor
    · intro h
      have hfcr : d.fcr = 0 := h.fcr.symm
      have hdivider := h.divider
      rw [hfcr] at hdivider
      exact ⟨hfcr, (hlow d.divider).1 hdivider, h.irq.symm⟩
    · rintro ⟨hfcr, hdivider, hirq⟩
      rw [hfcr]
      exact restored_fields (hloaded.2 ⟨hfcr, hirq⟩) ((hlow d.divider).2 hdivider) rfl
  | ier =>
    have hhigh : ∀ x : BitVec 16, (x &&& 0x00ff#16) ||| ((0 : Byte).setWidth 16 <<< 8) = x ↔ x &&& 0xff00#16 = 0 := by
      intro x
      constructor
      · intro h
        rw [← h]
        simp [BitVec.and_assoc]
      · intro h
        have hsplit : x &&& 0x00ff#16 ||| x &&& 0xff00#16 = x := by
          rw [← BitVec.and_or_distrib_left]
          exact BitVec.and_allOnes
        rw [h] at hsplit
        exact hsplit
    dsimp only
    rw [hdlab, hdata (.inr hcase), if_pos rfl, if_pos rfl]
    constructor
    · intro h
      have hfcr : d.fcr = 0 := h.fcr.symm
      have hdivider := h.divider
      rw [hfcr] at hdivider
      exact ⟨hfcr, (hhigh d.divider).1 hdivider, h.irq.symm⟩
    · rintro ⟨hfcr, hdivider, hirq⟩
      rw [hfcr]
      exact restored_fields (hloaded.2 ⟨hfcr, hirq⟩) ((hhigh d.divider).2 hdivider) rfl
  | fcr => exact absurd hcase hreg
  | lcr =>
    constructor
    · intro h
      have hfcr : d.fcr = 0 := h.fcr.symm
      exact ⟨hfcr, h.lcr.symm.trans hfcr, h.irq.symm⟩
    · rintro ⟨hfcr, hlcr, hirq⟩
      refine restored_fields (hloaded.2 ⟨hfcr, hirq⟩) rfl ?_
      rw [hlcr, hfcr]
      rfl
  | mcr =>
    constructor
    · intro h
      have hfcr : d.fcr = 0 := h.fcr.symm
      have hmcr : d.fcr &&& 0x1f#8 = d.mcr := h.mcr
      rw [hfcr] at hmcr
      exact ⟨hfcr, hmcr.symm, h.irq.symm⟩
    · rintro ⟨hfcr, hmcr, hirq⟩
      refine restored_fields (hloaded.2 ⟨hfcr, hirq⟩) rfl ?_
      rw [hmcr, hfcr]
      rfl
  | lsr => exact hloaded
  | msr => exact hloaded
  | scr =>
    constructor
    · intro h
      have hfcr : d.fcr = 0 := h.fcr.symm
      exact ⟨hfcr, h.scr.symm.trans hfcr, h.irq.symm⟩
    · rintro ⟨hfcr, hscr, hirq⟩
      refine restored_fields (hloaded.2 ⟨hfcr, hirq⟩) rfl ?_
      rw [hscr, hfcr]
      rfl

/-- The cause without the transmitter's event, time-outs and received data. -/
theorem cause_eq_iff {d d' : SerialState} (hline : IrqSys.Line d' ↔ IrqSys.Line d) (hier : d'.ier = d.ier)
    (htimeout : d.timeoutIpending = false) (htimeout' : d'.timeoutIpending = false) (hdr : d'.lsr.dr = d.lsr.dr)
    (hlevel : IrqSys.AtLevel d' ↔ IrqSys.AtLevel d) (hmsr : d'.msr = d.msr) (hthr : d'.thrIpending = false) :
    IrqSys.cause d' = IrqSys.cause d ↔ IrqSys.cause d ≠ 0x02 := by
  have hmodem : IrqSys.Modem d' ↔ IrqSys.Modem d := by
    unfold IrqSys.Modem
    rw [hier, hmsr]
  rw [IrqSys.cause_eq d, IrqSys.cause_eq d', hier, htimeout, htimeout', hdr, hthr]
  simp only [hline, hlevel, hmodem, Bool.false_eq_true, and_false, if_false]
  by_cases h₁ : IrqSys.Line d
  · simp [h₁]
  by_cases h₂ : d.ier.getLsbD 0 = true ∧ d.lsr.dr = true
  · simp only [if_neg h₁, if_pos h₂]
    split_ifs <;> decide
  by_cases h₃ : d.ier.getLsbD 1 = true ∧ d.thrIpending = true
  · simp only [if_neg h₁, if_neg h₂, if_pos h₃]
    split_ifs <;> decide
  · simp only [if_neg h₁, if_neg h₂, if_neg h₃]
    split_ifs <;> decide

/-- The register and the line after an update that keeps the upper half of the register. -/
theorem update_restored_iff {d e : SerialState} (hfresh : IrqSys.Fresh d) (hiir : e.iir &&& 0xf0#8 = d.iir &&& 0xf0#8) :
    (serialUpdateIrq e).iir = d.iir ∧ (serialUpdateIrq e).irq = d.irq ↔ IrqSys.cause e = IrqSys.cause d := by
  have hjoin : d.iir = IrqSys.cause d ||| (d.iir &&& 0xf0#8) := by
    rw [← hfresh.1, IrqSys.causeOf, ← BitVec.and_or_distrib_left]
    exact BitVec.and_allOnes.symm
  have hafter : (serialUpdateIrq e).iir = IrqSys.cause e ||| (d.iir &&& 0xf0#8) := by
    rw [← hiir]
    rfl
  constructor
  · rintro ⟨h, -⟩
    rw [← hfresh.1, ← h, hafter]
    exact (IrqSys.causeOf_or (IrqSys.cause_low e) d.iir).symm
  · intro h
    refine ⟨?_, ?_⟩
    · rw [hafter, h]
      exact hjoin.symm
    · rw [hfresh.2, ← h]
      rfl

/-- The registers are loaded and the control value is set, without an event of the transmitter. -/
structure Reloaded (d e : SerialState) : Prop where
  regs : (e.divider, e.rbr, e.ier, e.lcr, e.mcr, e.lsr, e.msr, e.scr, e.fcr) =
    (d.divider, d.rbr, d.ier, d.lcr, d.mcr, d.lsr, d.msr, d.scr, d.fcr)
  itl : d.fifos = true → e.recvItl = d.recvItl
  iir : e.iir &&& 0xf0#8 = d.iir &&& 0xf0#8
  recv : e.recvFifo.count = 0
  timeout : e.timeoutIpending = false
  thr : e.thrIpending = false

theorem restored_of_reloaded {d e : SerialState} (h : Reloaded d e) (hfresh : IrqSys.Fresh d)
    (hrecv : d.recvFifo.count = 0) (htimeout : d.timeoutIpending = false) :
    Restored d (serialUpdateIrq e) ↔ IrqSys.causeOf d.iir ≠ 0x02 := by
  have hregs := h.regs
  simp only [Prod.mk.injEq] at hregs
  obtain ⟨hdivider, hrbr, hier, hlcr, hmcr, hlsr, hmsr, hscr, hfcr⟩ := hregs
  have hfifos : e.fifos = d.fifos := by rw [SerialState.fifos, hfcr, SerialState.fifos]
  have hline : IrqSys.Line e ↔ IrqSys.Line d := by
    unfold IrqSys.Line
    rw [hier, hlsr]
  have hlevel : IrqSys.AtLevel e ↔ IrqSys.AtLevel d := by
    unfold IrqSys.AtLevel
    rw [hlsr, hfifos, h.recv, hrecv]
    exact and_congr_right fun _ => forall_congr' fun hf => by rw [h.itl hf]
  rw [hfresh.1, ← cause_eq_iff hline hier htimeout h.timeout (congrArg Lsr.dr hlsr) hlevel hmsr h.thr,
    ← update_restored_iff hfresh h.iir]
  constructor
  · exact fun hr => ⟨hr.iir, hr.irq⟩
  · rintro ⟨hiir, hirq⟩
    exact ⟨hdivider, hrbr, hier, hiir, hlcr, hmcr, hlsr, hmsr, hscr, hfcr, h.itl, hirq⟩

/-- The write reaches the FIFO control register. -/
theorem restored_fcr {d : SerialState} (hc : Configured d) (hfresh : IrqSys.Fresh d) (hrecv : d.recvFifo.count = 0)
    (htimeout : d.timeoutIpending = false) :
    Restored d (writeFcr d.fcr (loaded d)) ↔ LoadSafe d .fcr := by
  have hsafe : LoadSafe d .fcr ↔ if d.fcr = 0 then d.irq = false else IrqSys.causeOf d.iir ≠ 0x02 := Iff.rfl
  rw [hsafe]
  by_cases hzero : d.fcr = 0
  · have hsame : writeFcr d.fcr (loaded d) = loaded d := if_pos hzero.symm
    rw [if_pos hzero, hsame, restored_loaded]
    exact and_iff_right hzero
  · have hne : ¬ (loaded d).fcr = d.fcr := fun h => hzero h.symm
    -- the bits that flush the queues are not kept
    obtain ⟨hkeep, hfe⟩ : fcrVal d.fcr (loaded d) &&& 0xc9#8 = d.fcr ∧ (fcrVal d.fcr (loaded d)).getLsbD 0 = d.fifos := by
      have hflush : (d.fcr ||| 0x06#8) &&& 0xc9#8 = d.fcr := by
        rw [BitVec.and_or_distrib_right, hc.fcr]
        exact BitVec.or_zero
      unfold fcrVal
      split_ifs
      · refine ⟨hflush, ?_⟩
        rw [BitVec.getLsbD_or]
        exact Bool.or_false _
      · exact ⟨hc.fcr, rfl⟩
    have hitl : d.fifos = true → recvItlOf (fcrVal d.fcr (loaded d)) = d.recvItl := by
      intro hf
      rw [← recvItlOf_fcr, hkeep, hc.itl hf]
    rw [if_neg hzero, ← restored_of_reloaded ?_ hfresh hrecv htimeout]
    · unfold writeFcr
      rw [if_neg hne]
    · rw [hfe]
      by_cases hf : d.fifos = true
      · have hiir : (d.iir ||| 0xc0#8) &&& 0xf0#8 = d.iir &&& 0xf0#8 := by
          rw [BitVec.and_or_distrib_right, hc.iir, if_pos hf]
          rfl
        rw [if_pos hf]
        refine ⟨?_, fun _ => hitl hf, ?_, ?_, ?_, ?_⟩
        all_goals split_ifs
        all_goals first | rfl | exact hiir | simp only [hkeep]; rfl
      · have hiir : d.iir &&& ~~~0xc0#8 &&& 0xf0#8 = d.iir &&& 0xf0#8 := by
          rw [BitVec.and_assoc, BitVec.and_comm (~~~0xc0#8), ← BitVec.and_assoc, hc.iir, if_neg hf]
          rfl
        rw [if_neg hf]
        refine ⟨?_, fun hf' => absurd hf' hf, ?_, ?_, ?_, ?_⟩
        all_goals split_ifs
        all_goals first | rfl | exact hiir | simp only [hkeep]; rfl

/-- The write reaches the interrupt enable register. -/
theorem restored_ier {d : SerialState} (tiocm : Option Tiocm) (hs : IrqSys.Settled d) :
    Restored d (writeIer d.fcr tiocm (loaded d)) ↔ d.fcr = 0 ∧ d.ier = 0 := by
  have hfcr : (writeIer d.fcr tiocm (loaded d)).fcr = 0 :=
    congrArg (fun c => c.2.1) (conf_writeIer d.fcr tiocm (loaded d))
  have hnone : ∀ d' : SerialState, d'.ier = 0 → IrqSys.cause d' = 0x01 := by
    intro d' h
    rw [IrqSys.cause, h]
    rfl
  have hafter : writeIer 0 tiocm (loaded d) = serialUpdateIrq { loaded d with ier := 0, thrIpending := true } := by
    have hoff : ¬ (0 &&& 0x0f#8 : Byte).getLsbD 3 = true := by decide
    unfold writeIer
    extract_lets e₁ e₂
    have heq : e₂ = { loaded d with ier := 0 } := (if_pos (le_refl (0 : ℤ))).trans (if_neg hoff)
    rw [heq]
    exact if_pos hs.sender.thre
  constructor
  · intro h
    have hzero : d.fcr = 0 := h.fcr.symm.trans hfcr
    rw [hzero, hafter] at h
    exact ⟨hzero, h.ier.symm⟩
  · rintro ⟨hzero, hier⟩
    rw [hzero, hafter]
    obtain ⟨hiir, hirq⟩ := (update_restored_iff (e := { loaded d with ier := 0, thrIpending := true }) hs.fresh rfl).2
      ((hnone _ rfl).trans (hnone d hier).symm)
    refine ⟨rfl, rfl, hier.symm, hiir, rfl, rfl, rfl, rfl, rfl, hzero.symm, fun hf => ?_, hirq⟩
    rw [fifos_of_fcr hzero] at hf
    exact absurd hf (by decide)

/-- The device after the control value was looped back as a byte, before the last update. -/
def loopedBack (v : Byte) (d : SerialState) : SerialState :=
  let p := serialUpdateIrq { loaded d with thr := v, lsr := { d.lsr with thre := false } }
  let r := serialUpdateIrq { p with tsr := v, rbr := v, lsr := ⟨d.lsr.temt, true, d.lsr.bi, true⟩ }
  { r with lsr := ⟨true, true, d.lsr.bi, true⟩, thrIpending := true }

theorem loopBack (accepted : Bool) (v : Byte) {d : SerialState} (hloop : d.loop = true) :
    serialXmit accepted (putThr v (loaded d)) = serialUpdateIrq (loopedBack v d) := by
  have hl : (loadTsr (putThr v (loaded d))).loop = true := by
    rw [loop_loadTsr, loop_putThr]
    exact hloop
  have hplain : ∀ e : SerialState, e.fcr = 0 → ¬ e.fifos = true := fun e he => Bool.eq_false_iff.1 (fifos_of_fcr he)
  have hput : putThr v (loaded d) = serialUpdateIrq { loaded d with thr := v, lsr := { d.lsr with thre := false } } :=
    if_neg (hplain _ rfl)
  have hload : ∀ e : SerialState, e.tsrRetry = 0 → e.fcr = 0 →
      loadTsr e = { e with tsr := e.thr, lsr := { e.lsr with thre := true } } := by
    intro e hretry hfcr
    unfold loadTsr
    rw [if_pos hretry.le, if_neg (hplain e hfcr)]
  have hreceive : ∀ e : SerialState, e.fcr = 0 →
      serialReceive1 [v] e = serialUpdateIrq { e with rbr := v, lsr := { e.lsr with dr := true } } := by
    intro e hfcr
    unfold serialReceive1
    rw [if_neg (hplain e hfcr)]
    rfl
  unfold serialXmit
  dsimp only
  rw [if_pos hl, hput, hload _ rfl rfl]
  refine (congrArg xmitDone (hreceive _ rfl)).trans ?_
  exact if_pos rfl

theorem loopedBack_iir (v : Byte) (d : SerialState) : (loopedBack v d).iir &&& 0xf0#8 = d.iir &&& 0xf0#8 := by
  have hkeep : ∀ e : SerialState, (serialUpdateIrq e).iir &&& 0xf0#8 = e.iir &&& 0xf0#8 :=
    fun e => congrArg (fun c => c.2.2.2) (conf_update e)
  unfold loopedBack
  dsimp only
  rw [hkeep]
  exact hkeep _

theorem cause_loopedBack (v : Byte) {d : SerialState} (hf : d.fifos = false) (htimeout : d.timeoutIpending = false)
    (hdr : d.lsr.dr = true) :
    IrqSys.cause (loopedBack v d) = IrqSys.cause d ↔
      IrqSys.Line d ∨ d.ier.getLsbD 0 = true ∨ d.ier.getLsbD 1 = false ∨ d.thrIpending = true := by
  have hlevel : IrqSys.AtLevel d := ⟨hdr, fun h => absurd (hf.symm.trans h) (by decide)⟩
  have hf' : (loopedBack v d).fifos = false := fifos_of_fcr rfl
  have hlevel' : IrqSys.AtLevel (loopedBack v d) := ⟨rfl, fun h => absurd (hf'.symm.trans h) (by decide)⟩
  have hline : IrqSys.Line (loopedBack v d) ↔ IrqSys.Line d := Iff.rfl
  have hmodem : IrqSys.Modem (loopedBack v d) ↔ IrqSys.Modem d := Iff.rfl
  have hier : (loopedBack v d).ier = d.ier := rfl
  have htimeout' : (loopedBack v d).timeoutIpending = false := rfl
  have hdr' : (loopedBack v d).lsr.dr = true := rfl
  have hthr : (loopedBack v d).thrIpending = true := rfl
  rw [IrqSys.cause_eq, IrqSys.cause_eq d]
  simp only [hline, hmodem, hier, htimeout, htimeout', hdr, hdr', hthr, hlevel, hlevel', Bool.false_eq_true, and_false,
    and_true, if_false, if_true]
  by_cases h₁ : IrqSys.Line d
  · rw [if_pos h₁, if_pos h₁]
    exact iff_of_true rfl (.inl h₁)
  by_cases h₂ : d.ier.getLsbD 0 = true
  · rw [if_neg h₁, if_pos h₂, if_neg h₁, if_pos h₂]
    exact iff_of_true rfl (.inr (.inl h₂))
  rw [if_neg h₁, if_neg h₂, if_neg h₁, if_neg h₂]
  by_cases h₃ : d.ier.getLsbD 1 = true
  · rw [if_pos h₃]
    by_cases h₄ : d.thrIpending = true
    · rw [if_pos ⟨h₃, h₄⟩]
      exact iff_of_true rfl (.inr (.inr (.inr h₄)))
    · have hnone : ¬ (d.ier.getLsbD 1 = true ∧ d.thrIpending = true) := fun h => h₄ h.2
      rw [if_neg hnone]
      refine iff_of_false ?_ ?_
      · split_ifs <;> decide
      · rintro (h | h | h | h)
        · exact h₁ h
        · exact h₂ h
        · exact absurd (h₃.symm.trans h) (by decide)
        · exact h₄ h
  · have hnone : ¬ (d.ier.getLsbD 1 = true ∧ d.thrIpending = true) := fun h => h₃ h.1
    rw [if_neg h₃, if_neg hnone]
    exact iff_of_true rfl (.inr (.inr (.inl (Bool.eq_false_iff.2 h₃))))

/-- The write reaches the transmit holding register. -/
theorem restored_data {d : SerialState} (accepted : Bool) (hs : IrqSys.Settled d) (hc : Configured d) (hloop : d.loop = true)
    (htimeout : d.timeoutIpending = false) :
    Restored d (serialXmit accepted (putThr d.fcr (loaded d))) ↔
      d.fcr = 0 ∧ d.rbr = 0 ∧ d.lsr.dr = true ∧
        (IrqSys.Line d ∨ d.ier.getLsbD 0 = true ∨ d.ier.getLsbD 1 = false ∨ d.thrIpending = true) := by
  have hupdate := update_restored_iff hs.fresh (loopedBack_iir d.fcr d)
  rw [loopBack accepted d.fcr hloop]
  constructor
  · intro h
    have hzero : d.fcr = 0 := h.fcr.symm
    have hrbr : d.rbr = 0 := h.rbr.symm.trans hzero
    have hdr : d.lsr.dr = true := (congrArg Lsr.dr h.lsr).symm
    exact ⟨hzero, hrbr, hdr, (cause_loopedBack d.fcr (fifos_of_fcr hzero) htimeout hdr).1 (hupdate.1 ⟨h.iir, h.irq⟩)⟩
  · rintro ⟨hzero, hrbr, hdr, hcause⟩
    have hf := fifos_of_fcr hzero
    have hlsr : d.lsr = ⟨true, true, d.lsr.bi, true⟩ := by
      have htemt := hc.temt
      have hthre := hs.sender.thre
      generalize d.lsr = l at htemt hthre hdr ⊢
      cases l
      simp only at htemt hthre hdr ⊢
      rw [htemt, hthre, hdr]
    obtain ⟨hiir, hirq⟩ := hupdate.2 ((cause_loopedBack d.fcr hf htimeout hdr).2 hcause)
    refine ⟨rfl, hzero.trans hrbr.symm, rfl, hiir, rfl, rfl, hlsr.symm, rfl, rfl, hzero.symm, fun hf' => ?_, hirq⟩
    exact absurd (hf.symm.trans hf') (by decide)

/-! ### Transparency -/

theorem offered_nil_iff (addr : ℕ) (val : Byte) (d : SerialState) :
    offered addr val d = [] ↔ (regOf addr = .data → d.dlab = false → d.loop = true) := by
  have hloop : (loadTsr (putThr val d)).loop = d.loop := by rw [loop_loadTsr, loop_putThr]
  unfold offered
  cases regOf addr with
  | data =>
    rw [hloop]
    dsimp only
    split_ifs with hdlab hl
    · exact iff_of_true rfl fun _ h => absurd (hdlab.symm.trans h) (by decide)
    · exact iff_of_true rfl fun _ _ => hl
    · exact iff_of_false (by simp) fun h => hl (h rfl (Bool.eq_false_iff.2 hdlab))
  | _ => exact iff_of_true rfl nofun

/-- In every state between two operations in which the receive queue is empty and no time-out is
pending, saving and loading is transparent just where nothing is lost by the write to address 2. -/
theorem serial_load_transparent_iff (base : BitVec 64) (itShift : Fin 32) (accepted : Bool) (tiocm : Option Tiocm)
    {ops : List Op} {s : IrqSys} (hrun : ops.foldlM IrqSys.step IrqSys.init = some s)
    (hrecv : s.dev.recvFifo.count = 0) (htimeout : s.dev.timeoutIpending = false) :
    Transparent base itShift accepted tiocm s.dev ↔ LoadSafe s.dev (regOf (decode base itShift 2)) := by
  obtain ⟨hs, hc⟩ := reached hrun
  have hload : serialLoad base itShift (serialSave s.dev) accepted tiocm .init =
      (offered (decode base itShift 2) s.dev.fcr (loaded s.dev),
        serialIoportWrite (decode base itShift 2) s.dev.fcr accepted tiocm (loaded s.dev)) := by
    unfold serialLoad
    rw [loadRegs_save]
    rfl
  unfold Transparent
  rw [hload, offered_nil_iff]
  generalize decode base itShift 2 = addr
  have hdlab : (loaded s.dev).dlab = s.dev.dlab := rfl
  have hother : regOf addr ≠ .fcr → (regOf addr = .data ∨ regOf addr = .ier → s.dev.dlab = true) →
      ((regOf addr = .data → s.dev.dlab = false → s.dev.loop = true) ∧
        Restored s.dev (serialIoportWrite addr s.dev.fcr accepted tiocm (loaded s.dev)) ↔ LoadSafe s.dev (regOf addr)) := by
    intro hreg hdata
    rw [← restored_other accepted tiocm hreg hdata]
    refine and_iff_right fun h hoff => ?_
    exact absurd ((hdata (.inl h)).symm.trans hoff) (by decide)
  cases hreg : regOf addr with
  | data =>
    by_cases hon : s.dev.dlab = true
    · rw [hreg] at hother
      exact hother nofun fun _ => hon
    · have hoff : s.dev.dlab = false := Bool.eq_false_iff.2 hon
      have hwrite : serialIoportWrite addr s.dev.fcr accepted tiocm (loaded s.dev) =
          serialXmit accepted (putThr s.dev.fcr (loaded s.dev)) := by
        unfold serialIoportWrite
        rw [hreg, hdlab, hoff]
        rfl
      have hsafe : LoadSafe s.dev .data ↔ s.dev.fcr = 0 ∧ s.dev.loop = true ∧ s.dev.rbr = 0 ∧ s.dev.lsr.dr = true ∧
          (IrqSys.Line s.dev ∨ s.dev.ier.getLsbD 0 = true ∨ s.dev.ier.getLsbD 1 = false ∨ s.dev.thrIpending = true) := by
        unfold LoadSafe
        rw [hoff]
        rfl
      have hloop : (Reg.data = .data → (loaded s.dev).dlab = false → (loaded s.dev).loop = true) ↔ s.dev.loop = true :=
        ⟨fun h => h rfl hoff, fun h _ _ => h⟩
      rw [hwrite, hsafe, hloop]
      constructor
      · rintro ⟨hl, h⟩
        obtain ⟨hfcr, hrest⟩ := (restored_data accepted hs hc hl htimeout).1 h
        exact ⟨hfcr, hl, hrest⟩
      · rintro ⟨hfcr, hl, hrest⟩
        exact ⟨hl, (restored_data accepted hs hc hl htimeout).2 ⟨hfcr, hrest⟩⟩
  | ier =>
    by_cases hon : s.dev.dlab = true
    · rw [hreg] at hother
      exact hother nofun fun _ => hon
    · have hoff : s.dev.dlab = false := Bool.eq_false_iff.2 hon
      have hwrite : serialIoportWrite addr s.dev.fcr accepted tiocm (loaded s.dev) = writeIer s.dev.fcr tiocm (loaded s.dev) := by
        unfold serialIoportWrite
        rw [hreg, hdlab, hoff]
        rfl
      have hsafe : LoadSafe s.dev .ier ↔ s.dev.fcr = 0 ∧ s.dev.ier = 0 := by
        unfold LoadSafe
        rw [hoff]
        rfl
      rw [hwrite, hsafe, restored_ier tiocm hs]
      exact and_iff_right nofun
  | fcr =>
    have hwrite : serialIoportWrite addr s.dev.fcr accepted tiocm (loaded s.dev) = writeFcr s.dev.fcr (loaded s.dev) := by
      unfold serialIoportWrite
      rw [hreg]
    rw [hwrite, restored_fcr hc hs.fresh hrecv htimeout]
    exact and_iff_right nofun
  | _ =>
    rw [hreg] at hother
    exact hother nofun nofun

/-- A divisor, a scratch byte and the FIFOs were set in a device at address 0, which loads them. -/
theorem serial_load_transparent_written : ∃ s, List.foldlM IrqSys.step IrqSys.init
      [.write 3 0x83 true none, .write 0 12 true none, .write 3 3 true none, .write 7 0x5a true none, .write 2 0xc1 true none] =
      some s ∧ (s.dev.divider = 12 ∧ s.dev.scr = 0x5a ∧ s.dev.fcr = 0xc1) ∧ Transparent 0 0 true none s.dev := by
  have hrun : ∃ s, List.foldlM IrqSys.step IrqSys.init
      [.write 3 0x83 true none, .write 0 12 true none, .write 3 3 true none, .write 7 0x5a true none, .write 2 0xc1 true none] =
      some s ∧ (s.dev.divider = 12 ∧ s.dev.scr = 0x5a ∧ s.dev.fcr = 0xc1) ∧
      s.dev.recvFifo.count = 0 ∧ s.dev.timeoutIpending = false ∧ IrqSys.causeOf s.dev.iir ≠ 0x02 :=
    ⟨_, rfl, ⟨rfl, rfl, rfl⟩, rfl, rfl, by decide⟩
  obtain ⟨s, hs, hregs, hrecv, htimeout, hcause⟩ := hrun
  refine ⟨s, hs, hregs, (serial_load_transparent_iff 0 0 true none hs hrecv htimeout).2 ?_⟩
  have hreg : regOf (decode 0 0 2) = .fcr := rfl
  rw [hreg, LoadSafe, hregs.2.2]
  exact hcause

/-- A port at 0x3f8: the FIFO control value is loaded into the transmit holding register, and sent. -/
theorem serial_load_sends : ¬ ∀ (base : BitVec 64) (itShift : Fin 32) (accepted : Bool) (tiocm : Option Tiocm) (ops : List Op)
    (s : IrqSys), ops.foldlM IrqSys.step IrqSys.init = some s → s.dev.recvFifo.count = 0 → s.dev.xmitFifo.count = 0 →
      s.dev.timeoutIpending = false → Transparent base itShift accepted tiocm s.dev := by
  intro h
  obtain ⟨hsent, -⟩ := h 0x3f8 0 true none [.write 2 0xc1 true none] ⟨writeFcr 0xc1 .init, false⟩ rfl rfl rfl rfl
  exact absurd hsent (by decide)

end Ar7Qemu.Serial
