import Ar7Qemu.Hw.I8259
import Ar7Qemu.Lib.Run

/-! The line to the processor follows the master, the master knows of the slave's interrupts, and
edges stay until they are acknowledged, exactly as long as the operations of a run meet conditions
that the commands which do not re-evaluate the line make necessary. -/

namespace Ar7Qemu.I8259

open Lib

/-! ### The property and the condition -/

/-- The edges that are owed stand in the request registers. -/
def Edges (s : PicState2) (owed : Chip → Byte) : Prop :=
  ∀ c i, (owed c).getLsbD i = true → (s.pic c).irr.getLsbD i = true

/-- Input 2 of the master is requested or in service. -/
def Signalled (s : PicState2) : Prop := s.master.irr.getLsbD 2 = true ∨ s.master.isr.getLsbD 2 = true

structure Right (s : Sys) : Prop where
  line : s.pics.parentIrq = (s.pics.getIrq .master).isSome
  cascade : (s.pics.getIrq .slave).isSome → Signalled s.pics
  edges : Edges s.pics s.owed

/-- When the line is re-evaluated with an interrupt of the slave to deliver, input 2 of the master
is requested or in service already, or is not held high. -/
def Cascade (s : PicState2) : Prop :=
  (s.getIrq .slave).isSome → Signalled s ∨ s.master.lastIrr.getLsbD 2 = false

/-- A chip's registers may become `p` without a look at the line: the master has an interrupt to
deliver if it had one, and the slave has none that the master does not know of. -/
def ModeSafe (s : PicState2) (p : PicState) : Chip → Prop
  | .master => (picGetIrq .master p).isSome = (s.getIrq .master).isSome
  | .slave => (picGetIrq .slave p).isSome → Signalled s

def WriteSafe (s : PicState2) (chip : Chip) (r : PicState × Bool) : Prop :=
  if r.2 then Cascade (s.set chip r.1) else ModeSafe s r.1 chip

def Chip.other : Chip → Chip
  | .master => .slave
  | .slave => .master

/-- A poll finds nothing, or takes an interrupt. One of input 2 of the master is taken without a
look at the line; one of the slave takes the request on input 2 of the master away, and only a
further interrupt of the slave brings it back. -/
def PollSafe (s : Sys) (chip : Chip) : Prop :=
  match chip, s.pics.getIrq chip with
  | _, none => Cascade s.pics
  | .master, some irq =>
    if irq = 2 then ((pollAck s.pics .master 2).getIrq .master).isSome ∧ (s.pics.getIrq .slave).isSome = false
    else Cascade (pollAck s.pics .master irq)
  | .slave, some irq =>
    ((s.owed .master).getLsbD 2 = true → ((pollAck s.pics .slave irq).getIrq .slave).isSome) ∧
      Cascade (pollAck s.pics .slave irq)

def OpSafe (s : Sys) : Op → Prop
  | .setIrq irq level =>
    (level = false → (s.pics.pic (chipOf irq)).elcr.getLsbD (irq.val % 8) = true →
      (s.owed (chipOf irq)).getLsbD (irq.val % 8) = false) ∧
    Cascade (s.pics.set (chipOf irq) (picSetIrq1 (s.pics.pic (chipOf irq)) (irq.val % 8) level))
  | .write chip data val =>
    if data then WriteSafe s.pics chip (dataWrite val (s.pics.pic chip))
    else if val.getLsbD 4 then (s.pics.getIrq chip.other).isSome = false
    else if val.getLsbD 3 then ModeSafe s.pics (ocw3 val (s.pics.pic chip)) chip
    else WriteSafe s.pics chip (ocw2 val (s.pics.pic chip))
  | .read chip _ => (s.pics.pic chip).poll = true → PollSafe s chip
  | .elcrWrite _ _ => True
  | .readIrq => Cascade (intackBoth s.pics)
  | .intackRead =>
    match s.pics.getIrq .master, s.pics.getIrq .slave with
    | none, _ => Cascade s.pics
    | some irq, slaveIrq =>
      if irq = 2 then ∀ irq2 ∈ slaveIrq, Cascade (pollAck (pollAck s.pics .master 2) .slave irq2)
      else Cascade (pollAck s.pics .master irq)

/-! ### Bits -/

theorem getLsbD_setBit (b : Byte) {i : ℕ} (hi : i < 8) (j : ℕ) :
    (setBit b i).getLsbD j = (b.getLsbD j || decide (i = j)) := by
  simp [setBit, BitVec.getLsbD_twoPow, hi]

theorem getLsbD_clearBit (b : Byte) (i j : ℕ) : (clearBit b i).getLsbD j = (b.getLsbD j && !decide (i = j)) := by
  by_cases hj : j < 8
  · simp only [clearBit, BitVec.getLsbD_and, BitVec.getLsbD_not, BitVec.getLsbD_twoPow, hj, decide_true, Bool.true_and]
    by_cases hij : i = j
    · simp [hij, hj]
    · simp [hij]
  · have hb : b.getLsbD j = false := BitVec.getLsbD_of_ge b j (by omega)
    simp [clearBit, hb]

/-! ### Frames -/

/-- The trigger modes of a chip are the same and it remembers no level more than before. -/
structure Frame (p q : PicState) : Prop where
  elcr : q.elcr = p.elcr
  last : ∀ i, q.lastIrr.getLsbD i = true → p.lastIrr.getLsbD i = true

theorem Frame.refl (p : PicState) : Frame p p := ⟨rfl, fun _ h => h⟩

theorem Frame.trans {p q r : PicState} (h : Frame p q) (h' : Frame q r) : Frame p r :=
  ⟨h'.elcr.trans h.elcr, fun i hi => h.last i (h'.last i hi)⟩

/-- Both chips of the pair keep their frame. -/
def Frames (s t : PicState2) : Prop := ∀ c, Frame (s.pic c) (t.pic c)

theorem Frames.trans {s t u : PicState2} (h : Frames s t) (h' : Frames t u) : Frames s u :=
  fun c => (h c).trans (h' c)

theorem frames_set {s : PicState2} {chip : Chip} {p : PicState} (h : Frame (s.pic chip) p) : Frames s (s.set chip p) := by
  intro c
  cases chip <;> cases c <;> first | exact h | exact Frame.refl _

theorem pulse_eq {p : PicState} (h : p.elcr.getLsbD 2 = false) : picSetIrq1 (picSetIrq1 p 2 true) 2 false =
    { p with irr := if p.lastIrr.getLsbD 2 then p.irr else setBit p.irr 2
             lastIrr := clearBit (setBit p.lastIrr 2) 2 } := by
  simp only [picSetIrq1, h, Bool.false_eq_true, if_false, if_true]

theorem pulse_irr {p : PicState} (h : p.elcr.getLsbD 2 = false) (i : ℕ) :
    (picSetIrq1 (picSetIrq1 p 2 true) 2 false).irr.getLsbD i =
      (p.irr.getLsbD i || (decide (2 = i) && !p.lastIrr.getLsbD 2)) := by
  rw [pulse_eq h]
  cases hlast : p.lastIrr.getLsbD 2 with
  | true => simp
  | false => simp [getLsbD_setBit]

theorem pulse_frame {p : PicState} (h : p.elcr.getLsbD 2 = false) :
    Frame p (picSetIrq1 (picSetIrq1 p 2 true) 2 false) := by
  rw [pulse_eq h]
  refine ⟨rfl, fun i hi => ?_⟩
  simp only [getLsbD_clearBit, getLsbD_setBit _ (by decide : 2 < 8), Bool.and_eq_true, Bool.or_eq_true,
    decide_eq_true_eq, Bool.not_eq_true', decide_eq_false_iff_not] at hi
  exact hi.1.resolve_right hi.2

/-! ### The re-evaluation of the line -/

theorem getIrq_slave_picUpdateIrq (s : PicState2) : (picUpdateIrq s).getIrq .slave = s.getIrq .slave := by
  unfold picUpdateIrq signalMaster
  split_ifs <;> rfl

section
variable {s : PicState2} (h : s.master.elcr.getLsbD 2 = false)
include h

theorem frames_picUpdateIrq : Frames s (picUpdateIrq s) := by
  intro c
  unfold picUpdateIrq signalMaster
  split_ifs
  · cases c
    · exact pulse_frame h
    · exact Frame.refl _
  · cases c <;> exact Frame.refl _

theorem irr_picUpdateIrq (c : Chip) (i : ℕ) : ((picUpdateIrq s).pic c).irr.getLsbD i =
    ((s.pic c).irr.getLsbD i ||
      (decide (c = .master ∧ (s.getIrq .slave).isSome ∧ 2 = i) && !s.master.lastIrr.getLsbD 2)) := by
  unfold picUpdateIrq signalMaster
  by_cases hslave : (s.getIrq .slave).isSome = true
  · rw [if_pos hslave]
    cases c with
    | master =>
      show (picSetIrq1 (picSetIrq1 s.master 2 true) 2 false).irr.getLsbD i = _
      rw [pulse_irr h]
      simp [hslave, PicState2.pic]
    | slave => simp [PicState2.pic]
  · rw [if_neg hslave]
    cases c <;> simp [PicState2.pic, hslave]

theorem isr_picUpdateIrq : (picUpdateIrq s).master.isr = s.master.isr := by
  unfold picUpdateIrq signalMaster
  split_ifs
  · show (picSetIrq1 (picSetIrq1 s.master 2 true) 2 false).isr = s.master.isr
    rw [pulse_eq h]
  · rfl

/-- After the line has been re-evaluated the pair is right exactly when the slave could make itself
heard and the edges stand in the request registers. -/
theorem right_picUpdateIrq (level owed : Chip → Byte) :
    Right ⟨picUpdateIrq s, level, owed⟩ ↔ Cascade s ∧ Edges (picUpdateIrq s) owed := by
  have hsignalled : ((picUpdateIrq s).getIrq .slave).isSome → (Signalled (picUpdateIrq s) ↔
      Signalled s ∨ s.master.lastIrr.getLsbD 2 = false) := by
    intro hslave
    rw [getIrq_slave_picUpdateIrq] at hslave
    have hirr := irr_picUpdateIrq h .master 2
    simp only [hslave, and_self, decide_true, Bool.true_and] at hirr
    unfold Signalled
    rw [isr_picUpdateIrq h]
    show ((picUpdateIrq s).pic .master).irr.getLsbD 2 = true ∨ _ ↔ _
    rw [hirr]
    simp only [Bool.or_eq_true, Bool.not_eq_true']
    exact ⟨by tauto, by tauto⟩
  constructor
  · intro hr
    refine ⟨fun hslave => ?_, hr.edges⟩
    rw [← getIrq_slave_picUpdateIrq] at hslave
    exact (hsignalled hslave).1 (hr.cascade hslave)
  · rintro ⟨hc, he⟩
    refine ⟨rfl, fun hslave => (hsignalled hslave).2 (hc ?_), he⟩
    rwa [← getIrq_slave_picUpdateIrq]

theorem right_picUpdateIrq_of_edges {level owed : Chip → Byte} (he : Edges s owed) :
    Right ⟨picUpdateIrq s, level, owed⟩ ↔ Cascade s := by
  rw [right_picUpdateIrq h]
  refine and_iff_left fun c i hi => ?_
  rw [irr_picUpdateIrq h, he c i hi, Bool.true_or]

end

/-! ### Edges -/

theorem edges_settle {s : PicState2} {owed : Chip → Byte} {chip : Chip} {irq : ℕ} {p : PicState} (he : Edges s owed)
    (hp : ∀ i, i ≠ irq → (s.pic chip).irr.getLsbD i = true → p.irr.getLsbD i = true) :
    Edges (s.set chip p) (settle owed chip (some irq)) := by
  intro c i hi
  dsimp only [settle] at hi
  by_cases hc : c = chip
  · subst hc
    rw [Function.update_self, getLsbD_clearBit] at hi
    simp only [Bool.and_eq_true, Bool.not_eq_true', decide_eq_false_iff_not] at hi
    have hirr := hp i (Ne.symm hi.2) (he c i hi.1)
    cases c <;> exact hirr
  · rw [Function.update_of_ne hc] at hi
    have hirr := he c i hi
    cases c <;> cases chip <;> first | exact absurd rfl hc | exact hirr

theorem edges_set {s : PicState2} {owed : Chip → Byte} {chip : Chip} {p : PicState} (he : Edges s owed)
    (hp : p.irr = (s.pic chip).irr) : Edges (s.set chip p) owed := by
  intro c i hi
  have hirr := he c i hi
  cases c <;> cases chip <;> first | exact hirr | exact hp ▸ hirr

/-! ### Modes -/

/-- A chip's registers changed with no look at the line. -/
theorem right_set {s : Sys} (h : Right s) {chip : Chip} {p : PicState} (hirr : p.irr = (s.pics.pic chip).irr)
    (hisr : p.isr = (s.pics.pic chip).isr) (level : Chip → Byte) :
    Right ⟨s.pics.set chip p, level, s.owed⟩ ↔ ModeSafe s.pics p chip := by
  have he := edges_set h.edges hirr
  cases chip with
  | master =>
    have hsig : Signalled (s.pics.set .master p) ↔ Signalled s.pics := by
      unfold Signalled
      show p.irr.getLsbD 2 = true ∨ p.isr.getLsbD 2 = true ↔ _
      rw [hirr, hisr]
      rfl
    constructor
    · intro hr
      exact hr.line.symm.trans h.line
    · intro hm
      exact ⟨h.line.trans hm.symm, fun hs => hsig.2 (h.cascade hs), he⟩
  | slave =>
    constructor
    · exact fun hr => hr.cascade
    · exact fun hm => ⟨h.line, hm, he⟩

/-- A write of registers that keeps the requests, with the line re-evaluated or not. -/
theorem right_written {s : Sys} (h : Right s) (helcr : s.pics.master.elcr.getLsbD 2 = false) {chip : Chip}
    {r : PicState × Bool} (hirr : r.1.irr = (s.pics.pic chip).irr) (hframe : Frame (s.pics.pic chip) r.1)
    (hisr : r.2 = false → r.1.isr = (s.pics.pic chip).isr) (level : Chip → Byte) :
    Right ⟨written s.pics chip r, level, s.owed⟩ ↔ WriteSafe s.pics chip r := by
  unfold written WriteSafe
  cases hr : r.2 with
  | true =>
    simp only [if_true]
    apply right_picUpdateIrq_of_edges
    · have hsame := (frames_set hframe .master).elcr
      rw [show (s.pics.set chip r.1).master = (s.pics.set chip r.1).pic .master from rfl, hsame]
      exact helcr
    · exact edges_set h.edges hirr
  | false =>
    simp only [Bool.false_eq_true, if_false]
    exact right_set h hirr (hisr hr) level

theorem ocw3_spec (val : Byte) (p : PicState) :
    (ocw3 val p).irr = p.irr ∧ (ocw3 val p).isr = p.isr ∧ Frame p (ocw3 val p) := by
  unfold ocw3
  dsimp only
  split_ifs <;> exact ⟨rfl, rfl, rfl, fun _ h => h⟩

theorem ocw2_spec (val : Byte) (p : PicState) : (ocw2 val p).1.irr = p.irr ∧ Frame p (ocw2 val p).1 ∧
    ((ocw2 val p).2 = false → (ocw2 val p).1.isr = p.isr) := by
  unfold ocw2
  dsimp only
  split_ifs <;> first
    | exact ⟨rfl, ⟨rfl, fun _ h => h⟩, fun _ => rfl⟩
    | exact ⟨rfl, ⟨rfl, fun _ h => h⟩, fun h => nomatch h⟩

theorem dataWrite_spec (val : Byte) (p : PicState) : (dataWrite val p).1.irr = p.irr ∧ Frame p (dataWrite val p).1 ∧
    (dataWrite val p).1.isr = p.isr := by
  unfold dataWrite
  split <;> exact ⟨rfl, ⟨rfl, fun _ h => h⟩, rfl⟩

/-! ### Initialisation -/

theorem picGetIrq_of_irr_zero {chip : Chip} {p : PicState} (h : p.irr = 0) : picGetIrq chip p = none := by
  have hnone : getPriority p (p.irr &&& ~~~p.imr) = 8 := by
    have hmask : p.irr &&& ~~~p.imr = 0 := by simp [h]
    rw [getPriority, hmask]
    simp only [BitVec.ofNat_eq_ofNat, BitVec.getLsbD_zero]
    rfl
  unfold picGetIrq
  rw [if_pos hnone]

theorem icw1_irr (val : Byte) (p : PicState) : (icw1 val p).irr = 0 := rfl

theorem frame_icw1 (val : Byte) (p : PicState) : Frame p (icw1 val p) :=
  ⟨rfl, fun i hi => absurd hi (by simp [icw1, picReset])⟩

/-- Initialisation lowers the line and forgets the chip's interrupts: the other chip must have none
to deliver. -/
theorem right_icw1 {s : Sys} (h : Right s) (chip : Chip) (val : Byte) (level : Chip → Byte) :
    Right ⟨{ s.pics.set chip (icw1 val (s.pics.pic chip)) with parentIrq := false }, level,
      Function.update s.owed chip 0⟩ ↔ (s.pics.getIrq chip.other).isSome = false := by
  have he : Edges { s.pics.set chip (icw1 val (s.pics.pic chip)) with parentIrq := false }
      (Function.update s.owed chip 0) := by
    intro c i hi
    by_cases hc : c = chip
    · rw [hc, Function.update_self] at hi
      simp at hi
    · rw [Function.update_of_ne hc] at hi
      have hirr := h.edges c i hi
      cases c <;> cases chip <;> first | exact absurd rfl hc | exact hirr
  cases chip with
  | master =>
    have hnone : picGetIrq .master (icw1 val s.pics.master) = none := picGetIrq_of_irr_zero (icw1_irr val _)
    have hquiet : ¬ Signalled { s.pics.set .master (icw1 val s.pics.master) with parentIrq := false } := by
      simp [Signalled, PicState2.set, icw1, picReset]
    constructor
    · intro hr
      by_contra hslave
      exact hquiet (hr.cascade (eq_true_of_ne_false hslave))
    · intro hslave
      refine ⟨?_, fun hs => ?_, he⟩
      · show false = (picGetIrq .master (icw1 val s.pics.master)).isSome
        rw [hnone]
        rfl
      · exact absurd (hs.symm.trans hslave) (by decide)
  | slave =>
    have hnone : picGetIrq .slave (icw1 val s.pics.slave) = none := picGetIrq_of_irr_zero (icw1_irr val _)
    constructor
    · exact fun hr => hr.line.symm
    · intro hmaster
      refine ⟨hmaster.symm, fun hs => ?_, he⟩
      have hsome : (picGetIrq .slave (icw1 val s.pics.slave)).isSome = true := hs
      rw [hnone] at hsome
      exact absurd hsome (by decide)

/-! ### Polls -/

theorem right_clearPoll {t : PicState2} {level owed : Chip → Byte} (chip : Chip) :
    Right ⟨clearPoll t chip, level, owed⟩ ↔ Right ⟨t, level, owed⟩ := by
  have hirr : ∀ c, ((clearPoll t chip).pic c).irr = (t.pic c).irr := by
    intro c
    cases c <;> cases chip <;> rfl
  have hedges : Edges (clearPoll t chip) owed ↔ Edges t owed := by
    unfold Edges
    simp only [hirr]
  cases chip with
  | master => exact ⟨fun h => ⟨h.line, h.cascade, hedges.1 h.edges⟩, fun h => ⟨h.line, h.cascade, hedges.2 h.edges⟩⟩
  | slave => exact ⟨fun h => ⟨h.line, h.cascade, hedges.1 h.edges⟩, fun h => ⟨h.line, h.cascade, hedges.2 h.edges⟩⟩

theorem frames_pollAck (s : PicState2) (chip : Chip) (irq : ℕ) : Frames s (pollAck s chip irq) := by
  intro c
  cases chip <;> cases c <;> exact ⟨rfl, fun _ h => h⟩

theorem edges_pollAck_master {s : PicState2} {owed : Chip → Byte} (he : Edges s owed) (irq : ℕ) :
    Edges (pollAck s .master irq) (settle owed .master (some irq)) := by
  apply edges_settle he
  intro i hi hirr
  rw [getLsbD_clearBit, hirr]
  simpa using Ne.symm hi

theorem settle_slave_master (owed : Chip → Byte) (irq : ℕ) : settle owed .slave (some irq) .master = owed .master := by
  dsimp only [settle]
  rw [Function.update_of_ne (by decide)]

/-- The edges that stand after a poll of the slave are all but one on the master's input 2. -/
theorem irr_pollAck_slave {s : PicState2} {owed : Chip → Byte} (he : Edges s owed) (irq : ℕ) {c : Chip} {i : ℕ}
    (hi : (settle owed .slave (some irq) c).getLsbD i = true) (hne : c = .master → 2 ≠ i) :
    ((pollAck s .slave irq).pic c).irr.getLsbD i = true := by
  cases c with
  | slave =>
    dsimp only [settle] at hi
    rw [Function.update_self, getLsbD_clearBit] at hi
    simp only [Bool.and_eq_true, Bool.not_eq_true', decide_eq_false_iff_not] at hi
    have hirr : s.slave.irr.getLsbD i = true := he .slave i hi.1
    show (clearBit s.slave.irr irq).getLsbD i = true
    rw [getLsbD_clearBit, hirr]
    simpa using hi.2
  | master =>
    rw [settle_slave_master] at hi
    have hirr : s.master.irr.getLsbD i = true := he .master i hi
    show (clearBit s.master.irr 2).getLsbD i = true
    rw [getLsbD_clearBit, hirr]
    simpa using hne rfl

theorem right_pollAck_slave {s : PicState2} {owed level : Chip → Byte} (helcr : s.master.elcr.getLsbD 2 = false)
    (he : Edges s owed) (irq : ℕ) :
    Right ⟨picUpdateIrq (pollAck s .slave irq), level, settle owed .slave (some irq)⟩ ↔
      ((owed .master).getLsbD 2 = true → ((pollAck s .slave irq).getIrq .slave).isSome) ∧
        Cascade (pollAck s .slave irq) := by
  obtain ⟨t, ht⟩ : ∃ t, t = pollAck s .slave irq := ⟨_, rfl⟩
  have helcr' : t.master.elcr.getLsbD 2 = false := by rw [ht]; exact helcr
  have hbit : t.master.irr.getLsbD 2 = false := by
    rw [ht]
    show (clearBit s.master.irr 2).getLsbD 2 = false
    rw [getLsbD_clearBit]
    simp
  have hbit' : t.master.isr.getLsbD 2 = false := by
    rw [ht]
    show (clearBit s.master.isr 2).getLsbD 2 = false
    rw [getLsbD_clearBit]
    simp
  rw [← ht, right_picUpdateIrq helcr']
  constructor
  · rintro ⟨hc, hall⟩
    refine ⟨fun htwo => ?_, hc⟩
    have hirr := hall .master 2 (by rw [settle_slave_master]; exact htwo)
    rw [irr_picUpdateIrq helcr'] at hirr
    rw [show (t.pic .master).irr.getLsbD 2 = false from hbit] at hirr
    simp only [Bool.false_or, Bool.and_eq_true, decide_eq_true_eq] at hirr
    exact hirr.1.2.1
  · rintro ⟨htwo, hc⟩
    refine ⟨hc, fun c i hi => ?_⟩
    rw [irr_picUpdateIrq helcr']
    by_cases hne : c = .master → 2 ≠ i
    · rw [ht, irr_pollAck_slave he irq hi hne, Bool.true_or]
    · simp only [not_forall, not_not] at hne
      obtain ⟨rfl, rfl⟩ := hne
      rw [settle_slave_master] at hi
      have hslave := htwo hi
      have hlast := hc hslave
      unfold Signalled at hlast
      simp only [hbit, hbit', Bool.false_eq_true, false_or] at hlast
      rw [hlast]
      simp [hslave]

/-! ### Acknowledge cycles -/

theorem intackOpt_irr {p : PicState} {irq : Option ℕ} {i : ℕ} (hi : ∀ n ∈ irq, i ≠ n) (h : p.irr.getLsbD i = true) :
    (intackOpt p irq).irr.getLsbD i = true := by
  cases irq with
  | none => exact h
  | some n =>
    have hne : n ≠ i := (hi n rfl).symm
    unfold intackOpt picIntack
    dsimp only
    split_ifs <;> first
      | exact h
      | (show (clearBit p.irr n).getLsbD i = true
         rw [getLsbD_clearBit, h]
         simpa using hne)

theorem frame_intackOpt (p : PicState) (irq : Option ℕ) : Frame p (intackOpt p irq) := by
  cases irq with
  | none => exact Frame.refl p
  | some n =>
    unfold intackOpt picIntack
    dsimp only
    split_ifs <;> exact ⟨rfl, fun _ h => h⟩

theorem settle_getLsbD {owed : Chip → Byte} {chip c : Chip} {irq : Option ℕ} {i : ℕ}
    (h : (settle owed chip irq c).getLsbD i = true) : (owed c).getLsbD i = true ∧ (c = chip → ∀ n ∈ irq, i ≠ n) := by
  cases irq with
  | none => exact ⟨h, fun _ n hn => nomatch hn⟩
  | some n =>
    dsimp only [settle] at h
    by_cases hc : c = chip
    · subst hc
      rw [Function.update_self, getLsbD_clearBit] at h
      simp only [Bool.and_eq_true, Bool.not_eq_true', decide_eq_false_iff_not] at h
      refine ⟨h.1, fun _ m hm => ?_⟩
      cases hm
      exact Ne.symm h.2
    · rw [Function.update_of_ne hc] at h
      exact ⟨h, fun heq => absurd heq hc⟩

theorem frames_intackBoth (s : PicState2) : Frames s (intackBoth s) := by
  intro c
  cases c <;> exact frame_intackOpt _ _

theorem edges_intackBoth {s : PicState2} {owed : Chip → Byte} (he : Edges s owed) :
    Edges (intackBoth s) (settle (settle owed .master (acknowledged s).1) .slave (acknowledged s).2) := by
  intro c i hi
  obtain ⟨hi, hslave⟩ := settle_getLsbD hi
  obtain ⟨hi, hmaster⟩ := settle_getLsbD hi
  have hirr := he c i hi
  cases c with
  | master => exact intackOpt_irr (hmaster rfl) hirr
  | slave => exact intackOpt_irr (hslave rfl) hirr

/-! ### Inputs -/

theorem frame_elcr_picSetIrq1 (p : PicState) (irq : ℕ) (level : Bool) : (picSetIrq1 p irq level).elcr = p.elcr := by
  unfold picSetIrq1
  split_ifs <;> rfl

theorem picSetIrq1_irr_of_ne {p : PicState} {irq i : ℕ} (hirq : irq < 8) (level : Bool) (hne : irq ≠ i) :
    (picSetIrq1 p irq level).irr.getLsbD i = p.irr.getLsbD i := by
  unfold picSetIrq1
  split_ifs <;> simp [getLsbD_setBit, getLsbD_clearBit, hirq, hne]

theorem picSetIrq1_irr_self {p : PicState} {irq : ℕ} (hirq : irq < 8) (level : Bool) :
    (picSetIrq1 p irq level).irr.getLsbD irq = true ↔
      if level then p.irr.getLsbD irq = true ∨ p.elcr.getLsbD irq = true ∨ p.lastIrr.getLsbD irq = false
      else p.irr.getLsbD irq = true ∧ p.elcr.getLsbD irq = false := by
  unfold picSetIrq1
  cases he : p.elcr.getLsbD irq <;> cases level <;> cases hl : p.lastIrr.getLsbD irq <;>
    simp [-BitVec.getLsbD_eq_getElem, getLsbD_setBit, getLsbD_clearBit, hirq]

theorem picSetIrq1_last {p : PicState} {irq i : ℕ} (hirq : irq < 8) (level : Bool) {b : Byte}
    (h : ∀ i, p.lastIrr.getLsbD i = true → b.getLsbD i = true)
    (hi : (picSetIrq1 p irq level).lastIrr.getLsbD i = true) :
    (if level then setBit b irq else clearBit b irq).getLsbD i = true := by
  have hb := h i
  unfold picSetIrq1 at hi
  cases level with
  | true =>
    simp only [if_true] at hi ⊢
    rw [getLsbD_setBit b hirq]
    by_cases hne : irq = i
    · simp [hne]
    · have hold : p.lastIrr.getLsbD i = true := by
        split_ifs at hi <;> simpa [getLsbD_setBit, hirq, hne] using hi
      rw [hb hold, Bool.true_or]
  | false =>
    simp only [Bool.false_eq_true, if_false] at hi ⊢
    rw [getLsbD_clearBit]
    have hold : p.lastIrr.getLsbD i = true ∧ irq ≠ i := by
      split_ifs at hi <;> simpa [getLsbD_clearBit] using hi
    rw [hb hold.1]
    simpa using hold.2

/-- The master's input 2 is edge triggered, and no chip remembers a level that its input has not. -/
structure Aux (s : Sys) : Prop where
  elcr : s.pics.master.elcr.getLsbD 2 = false
  last : ∀ c i, (s.pics.pic c).lastIrr.getLsbD i = true → (s.level c).getLsbD i = true

theorem elcr_of_frames {s t : PicState2} (hf : Frames s t) (h : s.master.elcr.getLsbD 2 = false) :
    t.master.elcr.getLsbD 2 = false := by
  have hsame : t.master.elcr = s.master.elcr := (hf .master).elcr
  rw [hsame]
  exact h

section
variable {s : Sys} (h : Right s) (ha : Aux s) (irq : Fin 16) (level : Bool)

/-- The pair after the input has changed and before the line is re-evaluated. -/
def afterInput (s : Sys) (irq : Fin 16) (level : Bool) : PicState2 :=
  s.pics.set (chipOf irq) (picSetIrq1 (s.pics.pic (chipOf irq)) (irq.val % 8) level)

theorem afterInput_self : (afterInput s irq level).pic (chipOf irq) =
    picSetIrq1 (s.pics.pic (chipOf irq)) (irq.val % 8) level := by
  unfold afterInput
  cases chipOf irq <;> rfl

theorem afterInput_of_ne {c : Chip} (hc : c ≠ chipOf irq) : (afterInput s irq level).pic c = s.pics.pic c := by
  unfold afterInput
  cases c <;> cases hchip : chipOf irq <;> first | exact absurd hchip.symm hc | rfl

theorem afterInput_elcr (c : Chip) : ((afterInput s irq level).pic c).elcr = (s.pics.pic c).elcr := by
  by_cases hc : c = chipOf irq
  · rw [hc, afterInput_self, frame_elcr_picSetIrq1]
  · rw [afterInput_of_ne irq level hc]

include h ha

/-- The edges stand when no level triggered input with an edge of its own has gone low. -/
theorem edges_afterInput (hlow : level = false → (s.pics.pic (chipOf irq)).elcr.getLsbD (irq.val % 8) = true →
      (s.owed (chipOf irq)).getLsbD (irq.val % 8) = false) :
    Edges (afterInput s irq level) (owedAfter s (.setIrq irq level)) := by
  have hirq : irq.val % 8 < 8 := Nat.mod_lt _ (by decide)
  intro c i hi
  by_cases hc : c = chipOf irq
  · subst hc
    rw [afterInput_self]
    by_cases hne : irq.val % 8 = i
    · subst hne
      rw [picSetIrq1_irr_self hirq]
      dsimp only [owedAfter] at hi
      cases level with
      | true =>
        rw [if_pos rfl]
        split_ifs at hi with hnew
        · exact Or.inr (Or.inr (by
            by_contra hlast
            have hlevel := ha.last _ _ (eq_true_of_ne_false hlast)
            rw [hnew.2.1] at hlevel
            exact absurd hlevel (by decide)))
        · exact Or.inl (h.edges _ _ hi)
      | false =>
        rw [if_neg (by decide)]
        rw [if_neg (by simp)] at hi
        refine ⟨h.edges _ _ hi, ?_⟩
        by_contra helcr
        exact absurd (hi.symm.trans (hlow rfl (eq_true_of_ne_false helcr))) (by decide)
    · rw [picSetIrq1_irr_of_ne hirq level hne]
      dsimp only [owedAfter] at hi
      split_ifs at hi
      · rw [Function.update_self, getLsbD_setBit _ hirq] at hi
        exact h.edges _ _ (by simpa [-BitVec.getLsbD_eq_getElem, hne] using hi)
      · exact h.edges _ _ hi
  · rw [afterInput_of_ne irq level hc]
    dsimp only [owedAfter] at hi
    split_ifs at hi
    · rw [Function.update_of_ne hc] at hi
      exact h.edges c i hi
    · exact h.edges c i hi

theorem right_setIrq (levels : Chip → Byte) :
    Right ⟨i8259SetIrq s.pics irq level, levels, owedAfter s (.setIrq irq level)⟩ ↔ OpSafe s (.setIrq irq level) := by
  have helcr : (afterInput s irq level).master.elcr.getLsbD 2 = false := by
    have hsame : (afterInput s irq level).master.elcr = s.pics.master.elcr := afterInput_elcr irq level .master
    rw [hsame]
    exact ha.elcr
  constructor
  · intro hr
    obtain ⟨hc, hedges⟩ := (right_picUpdateIrq helcr _ _).1 hr
    refine ⟨fun hl hlevel => ?_, hc⟩
    subst hl
    by_contra howed
    have hkept := hedges (chipOf irq) (irq.val % 8) (by
      dsimp only [owedAfter]
      rw [if_neg (by simp)]
      exact eq_true_of_ne_false howed)
    rw [irr_picUpdateIrq helcr, afterInput_self, Bool.or_eq_true, picSetIrq1_irr_self (Nat.mod_lt _ (by decide)),
      if_neg (by decide)] at hkept
    rcases hkept with ⟨-, hedge⟩ | htwo
    · exact absurd (hlevel.symm.trans hedge) (by decide)
    · simp only [Bool.and_eq_true, decide_eq_true_eq] at htwo
      obtain ⟨⟨hmaster, -, htwo⟩, -⟩ := htwo
      rw [hmaster, ← htwo] at hlevel
      exact absurd (hlevel.symm.trans ha.elcr) (by decide)
  · rintro ⟨hlow, hc⟩
    exact (right_picUpdateIrq_of_edges helcr (edges_afterInput h ha irq level hlow)).2 hc

end

/-! ### The other operations -/

section
variable {s : Sys} (h : Right s) (ha : Aux s)
include h ha

theorem right_write {chip : Chip} {data : Bool} {val : Byte} {t : PicState2} (levels : Chip → Byte)
    (hw : picIoportWrite s.pics chip data val = some t) :
    Right ⟨t, levels, owedAfter s (.write chip data val)⟩ ↔ OpSafe s (.write chip data val) := by
  dsimp only [owedAfter, OpSafe]
  unfold picIoportWrite at hw
  cases data with
  | true =>
    cases hw
    rw [if_neg (by simp), if_pos rfl]
    obtain ⟨hirr, hframe, hisr⟩ := dataWrite_spec val (s.pics.pic chip)
    exact right_written h ha.elcr hirr hframe (fun _ => hisr) levels
  | false =>
    simp only [Bool.false_eq_true, if_false, true_and] at hw ⊢
    by_cases hinit : val.getLsbD 4 = true
    · rw [if_pos hinit, if_pos hinit]
      rw [if_pos hinit] at hw
      split_ifs at hw
      cases hw
      exact right_icw1 h chip val levels
    · rw [if_neg hinit, if_neg hinit]
      rw [if_neg hinit] at hw
      by_cases hthree : val.getLsbD 3 = true
      · rw [if_pos hthree]
        rw [if_pos hthree] at hw
        cases hw
        obtain ⟨hirr, hisr, -⟩ := ocw3_spec val (s.pics.pic chip)
        exact right_set h hirr hisr levels
      · rw [if_neg hthree]
        rw [if_neg hthree] at hw
        cases hw
        obtain ⟨hirr, hframe, hisr⟩ := ocw2_spec val (s.pics.pic chip)
        exact right_written h ha.elcr hirr hframe hisr levels

theorem right_pollAck_master (irq : ℕ) (levels : Chip → Byte) :
    Right ⟨picUpdateIrq (pollAck s.pics .master irq), levels, settle s.owed .master (some irq)⟩ ↔
      Cascade (pollAck s.pics .master irq) :=
  right_picUpdateIrq_of_edges (elcr_of_frames (frames_pollAck s.pics .master irq) ha.elcr)
    (edges_pollAck_master h.edges irq)

omit ha in
/-- A poll of the master that takes input 2 leaves the line as it was. -/
theorem right_pollAck_two (hirq : s.pics.getIrq .master = some 2) (levels : Chip → Byte) :
    Right ⟨pollAck s.pics .master 2, levels, settle s.owed .master (some 2)⟩ ↔
      ((pollAck s.pics .master 2).getIrq .master).isSome ∧ (s.pics.getIrq .slave).isSome = false := by
  have hline : s.pics.parentIrq = true := by
    rw [h.line, hirq]
    rfl
  have hquiet : ¬ Signalled (pollAck s.pics .master 2) := by
    have hclear : ∀ b : Byte, (clearBit b 2).getLsbD 2 = false := by
      intro b
      rw [getLsbD_clearBit]
      simp
    unfold Signalled
    show ¬ ((clearBit s.pics.master.irr 2).getLsbD 2 = true ∨ (clearBit s.pics.master.isr 2).getLsbD 2 = true)
    rw [hclear, hclear]
    decide
  constructor
  · intro hr
    refine ⟨hr.line.symm.trans hline, ?_⟩
    by_contra hslave
    exact hquiet (hr.cascade (eq_true_of_ne_false hslave))
  · rintro ⟨hmaster, hslave⟩
    refine ⟨hline.trans hmaster.symm, fun hs => ?_, edges_pollAck_master h.edges 2⟩
    exact absurd (hs.symm.trans hslave) (by decide)

theorem right_picPollRead (chip : Chip) (levels : Chip → Byte) :
    Right ⟨(picPollRead s.pics chip).2, levels, settle s.owed chip (s.pics.getIrq chip)⟩ ↔ PollSafe s chip := by
  cases chip with
  | master =>
    unfold picPollRead PollSafe
    cases hirq : s.pics.getIrq .master with
    | none => exact right_picUpdateIrq_of_edges ha.elcr h.edges
    | some irq =>
      by_cases htwo : irq = 2
      · subst htwo
        simp only [reduceCtorEq, ne_eq, not_true_eq_false, or_self, if_false, if_true]
        exact right_pollAck_two h hirq levels
      · simp only [reduceCtorEq, ne_eq, htwo, not_false_eq_true, or_true, if_true, if_false]
        exact right_pollAck_master h ha irq levels
  | slave =>
    unfold picPollRead PollSafe
    cases hirq : s.pics.getIrq .slave with
    | none => exact right_picUpdateIrq_of_edges ha.elcr h.edges
    | some irq =>
      simp only [true_or, if_true]
      exact right_pollAck_slave ha.elcr h.edges irq

theorem right_read (chip : Chip) (data : Bool) (levels : Chip → Byte) :
    Right ⟨(picIoportRead s.pics chip data).2, levels, owedAfter s (.read chip data)⟩ ↔
      OpSafe s (.read chip data) := by
  dsimp only [owedAfter, OpSafe]
  unfold picIoportRead
  by_cases hpoll : (s.pics.pic chip).poll = true
  · rw [if_pos hpoll, if_pos hpoll]
    simp only [hpoll, true_imp_iff]
    rw [right_clearPoll, right_picPollRead h ha]
  · rw [if_neg hpoll, if_neg hpoll]
    refine iff_of_true ?_ fun hp => absurd hp hpoll
    split_ifs <;> exact ⟨h.line, h.cascade, h.edges⟩

theorem right_readIrq (levels : Chip → Byte) :
    Right ⟨(picReadIrq s.pics).2, levels, owedAfter s .readIrq⟩ ↔ OpSafe s .readIrq :=
  right_picUpdateIrq_of_edges (elcr_of_frames (frames_intackBoth s.pics) ha.elcr) (edges_intackBoth h.edges)

omit h ha in
theorem right_selectIsr {t : PicState2} {level owed : Chip → Byte} :
    Right ⟨{ t with master := { t.master with readRegSelect := true } }, level, owed⟩ ↔ Right ⟨t, level, owed⟩ := by
  have hedges : Edges { t with master := { t.master with readRegSelect := true } } owed ↔ Edges t owed := by
    have hirr : ∀ c, (PicState2.pic { t with master := { t.master with readRegSelect := true } } c).irr = (t.pic c).irr := by
      intro c
      cases c <;> rfl
    unfold Edges
    simp only [hirr]
  exact ⟨fun h => ⟨h.line, h.cascade, hedges.1 h.edges⟩, fun h => ⟨h.line, h.cascade, hedges.2 h.edges⟩⟩

/-- The master gives input 2 and the slave is polled in turn: the line is re-evaluated then. -/
theorem right_intack_two (levels : Chip → Byte) :
    Right ⟨(picPollRead (pollAck s.pics .master 2) .slave).2, levels,
      settle (settle s.owed .master (some 2)) .slave (s.pics.getIrq .slave)⟩ ↔
      ∀ irq2 ∈ s.pics.getIrq .slave, Cascade (pollAck (pollAck s.pics .master 2) .slave irq2) := by
  have helcr := elcr_of_frames (frames_pollAck s.pics .master 2) ha.elcr
  have he := edges_pollAck_master h.edges 2
  have hsame : (pollAck s.pics .master 2).getIrq .slave = s.pics.getIrq .slave := rfl
  unfold picPollRead
  rw [hsame]
  cases hslave : s.pics.getIrq .slave with
  | none =>
    refine iff_of_true ((right_picUpdateIrq_of_edges helcr he).2 fun hs => ?_) (by simp)
    rw [hsame, hslave] at hs
    exact absurd hs (by decide)
  | some irq2 =>
    simp only [true_or, if_true, Option.mem_def, Option.some.injEq, forall_eq']
    rw [right_pollAck_slave helcr he]
    refine and_iff_right fun htwo => ?_
    have hclear := (settle_getLsbD htwo).2 rfl 2 rfl
    exact absurd rfl hclear

theorem right_intackRead (levels : Chip → Byte) :
    Right ⟨(picIntackRead s.pics).2, levels, owedAfter s .intackRead⟩ ↔ OpSafe s .intackRead := by
  dsimp only [owedAfter, OpSafe]
  unfold picIntackRead
  dsimp only
  rw [right_selectIsr]
  cases hmaster : s.pics.getIrq .master with
  | none =>
    have hread : picPollRead s.pics .master = (7, picUpdateIrq s.pics) := by rw [picPollRead, hmaster]
    rw [hread]
    exact right_picUpdateIrq_of_edges ha.elcr h.edges
  | some irq =>
    by_cases htwo : irq = 2
    · subst htwo
      have hread : picPollRead s.pics .master = (2, pollAck s.pics .master 2) := by
        rw [picPollRead, hmaster]
        rfl
      rw [hread]
      exact right_intack_two h ha levels
    · have hread : picPollRead s.pics .master = (irq, picUpdateIrq (pollAck s.pics .master irq)) := by
        rw [picPollRead, hmaster]
        simp [htwo]
      rw [hread]
      simp only [htwo, if_false]
      exact right_pollAck_master h ha irq levels

end

/-! ### Runs -/

theorem frames_picPollRead {s : PicState2} (helcr : s.master.elcr.getLsbD 2 = false) (chip : Chip) :
    Frames s (picPollRead s chip).2 := by
  unfold picPollRead
  split
  · exact frames_picUpdateIrq helcr
  · rename_i irq hirq
    have hack := frames_pollAck s chip irq
    dsimp only
    split_ifs
    · exact hack.trans (frames_picUpdateIrq (elcr_of_frames hack helcr))
    · exact hack

theorem frames_written {s : PicState2} (helcr : s.master.elcr.getLsbD 2 = false) {chip : Chip} {r : PicState × Bool}
    (hr : Frame (s.pic chip) r.1) : Frames s (written s chip r) := by
  have hset := frames_set hr
  unfold written
  split_ifs
  · exact hset.trans (frames_picUpdateIrq (elcr_of_frames hset helcr))
  · exact hset

theorem Aux.frames {s : Sys} (ha : Aux s) {t : PicState2} {owed : Chip → Byte} (hf : Frames s.pics t) :
    Aux ⟨t, s.level, owed⟩ :=
  ⟨elcr_of_frames hf ha.elcr, fun c i hi => ha.last c i ((hf c).last i hi)⟩

theorem aux_setIrq {s : Sys} (ha : Aux s) (irq : Fin 16) (level : Bool) (owed : Chip → Byte) :
    Aux ⟨i8259SetIrq s.pics irq level, levelAfter s (.setIrq irq level), owed⟩ := by
  have helcr : (afterInput s irq level).master.elcr.getLsbD 2 = false := by
    have hsame : (afterInput s irq level).master.elcr = s.pics.master.elcr := afterInput_elcr irq level .master
    rw [hsame]
    exact ha.elcr
  have hframes := frames_picUpdateIrq helcr
  refine ⟨elcr_of_frames hframes helcr, fun c i hi => ?_⟩
  have hlast := (hframes c).last i hi
  dsimp only [levelAfter]
  by_cases hc : c = chipOf irq
  · subst hc
    rw [afterInput_self] at hlast
    rw [Function.update_self]
    exact picSetIrq1_last (Nat.mod_lt _ (by decide)) level (ha.last _) hlast
  · rw [afterInput_of_ne irq level hc] at hlast
    rw [Function.update_of_ne hc]
    exact ha.last c i hlast

theorem aux_step {s t : Sys} {op : Op} (ha : Aux s) (hstep : s.step op = some t) : Aux t := by
  obtain ⟨pics, hpics, rfl⟩ := Option.map_eq_some_iff.1 hstep
  cases op with
  | setIrq irq level =>
    cases hpics
    exact aux_setIrq ha irq level _
  | write chip data val =>
    apply ha.frames
    dsimp only [picsAfter] at hpics
    unfold picIoportWrite at hpics
    split_ifs at hpics <;> cases hpics
    · exact frames_written ha.elcr (dataWrite_spec val _).2.1
    · have hset := frames_set (frame_icw1 val (s.pics.pic chip))
      intro c
      cases c <;> exact hset _
    · exact frames_set (ocw3_spec val _).2.2
    · exact frames_written ha.elcr (ocw2_spec val _).2.1
  | read chip data =>
    apply ha.frames
    cases hpics
    have hpoll := frames_picPollRead ha.elcr chip
    have hsame : Frames s.pics s.pics := fun c => Frame.refl _
    unfold picIoportRead
    split_ifs
    · exact hpoll.trans (frames_set ⟨rfl, fun _ h => h⟩)
    · exact hsame
    · exact hsame
    · exact hsame
  | elcrWrite chip val =>
    cases hpics
    refine ⟨?_, fun c i hi => ha.last c i ?_⟩
    · cases chip with
      | master =>
        show (val &&& 0xf8).getLsbD 2 = false
        simp
      | slave => exact ha.elcr
    · cases c <;> cases chip <;> exact hi
  | readIrq =>
    apply ha.frames
    cases hpics
    have hack := frames_intackBoth s.pics
    exact hack.trans (frames_picUpdateIrq (elcr_of_frames hack ha.elcr))
  | intackRead =>
    apply ha.frames
    cases hpics
    have hpoll := frames_picPollRead ha.elcr .master
    have hslave := frames_picPollRead (elcr_of_frames hpoll ha.elcr) .slave
    have hselect : ∀ u : PicState2, Frames u { u with master := { u.master with readRegSelect := true } } :=
      fun u => @frames_set u .master _ ⟨rfl, fun _ h => h⟩
    unfold picIntackRead
    dsimp only
    split_ifs
    · exact (hpoll.trans hslave).trans (hselect _)
    · exact hpoll.trans (hselect _)

theorem right_elcrWrite {s : Sys} (h : Right s) (chip : Chip) (val : Byte) (levels : Chip → Byte) :
    Right ⟨elcrIoportWrite s.pics chip val, levels, s.owed⟩ := by
  have he : Edges (elcrIoportWrite s.pics chip val) s.owed := edges_set h.edges rfl
  cases chip with
  | master => exact ⟨h.line, h.cascade, he⟩
  | slave => exact ⟨h.line, h.cascade, he⟩

/-- One operation leaves the pair right exactly when it meets its condition. -/
theorem right_step {s t : Sys} {op : Op} (h : Right s) (ha : Aux s) (hstep : s.step op = some t) :
    Right t ↔ OpSafe s op := by
  obtain ⟨pics, hpics, rfl⟩ := Option.map_eq_some_iff.1 hstep
  cases op with
  | setIrq irq level =>
    cases hpics
    exact right_setIrq h ha irq level _
  | write chip data val => exact right_write h ha _ hpics
  | read chip data =>
    cases hpics
    exact right_read h ha chip data _
  | elcrWrite chip val =>
    cases hpics
    exact iff_of_true (right_elcrWrite h chip val _) trivial
  | readIrq =>
    cases hpics
    exact right_readIrq h ha _
  | intackRead =>
    cases hpics
    exact right_intackRead h ha _

/-- After every operation of a run the line follows the master, the master knows of the slave's
interrupts and the edges are kept, exactly when every operation meets its condition. -/
theorem i8259_output_iff (ops : List Op) :
    (∀ n s, (ops.take n).foldlM Sys.step Sys.init = some s → Right s) ↔
      MeetsDone Sys.step OpSafe Sys.init ops := by
  refine foldlM_take_iff_meetsDone_of (P := fun s => Right s ∧ Aux s) (fun s h => h.1) ?_ ?_ ops _ ?_
  · intro s op t hs hstep hsafe
    exact ⟨(right_step hs.1 hs.2 hstep).2 hsafe, aux_step hs.2 hstep⟩
  · intro s op t hs hstep hright
    exact (right_step hs.1 hs.2 hstep).1 hright
  · refine ⟨⟨by decide, fun hs => absurd hs (by decide), fun c i hi => ?_⟩, ⟨rfl, fun c i hi => ?_⟩⟩
    · simp [Sys.init] at hi
    · cases c <;> simp [Sys.init, PicState2.pic, PicState.init] at hi

/-- Input 3 is raised and the slave is initialised: the line is low with an interrupt to deliver. -/
theorem i8259_slave_init_lowers : ¬ ∀ (ops : List Op) (n : ℕ) (s : Sys),
    (ops.take n).foldlM Sys.step Sys.init = some s → Right s := by
  intro h
  have hline := (h [.setIrq 3 true, .write .slave false 0x11] 2 _ rfl).line
  revert hline
  decide

end Ar7Qemu.I8259
