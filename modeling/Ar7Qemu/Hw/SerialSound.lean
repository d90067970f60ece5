import Ar7Qemu.Lib.Run
import Ar7Qemu.Hw.Serial

/-! When the UART of `serial.c` neither loses nor invents data. A byte is always sent within the
write that brings it, so the transmitter is empty between two operations and its timer is never
armed; what can go wrong is on the way to the guest, and with the first refusal of the backend. -/

namespace Ar7Qemu.Serial

open Lib

/-- The part of the device that holds data. -/
structure View where
  fifos : Bool
  recvFifo : SerialFifo
  recvItl : ℕ
  xmitFifo : SerialFifo
  rbr : Byte
  thr : Byte
  tsr : Byte
  dr : Bool
  thre : Bool
  tsrRetry : ℤ
  transmitTimer : Bool

def SerialState.view (d : SerialState) : View :=
  ⟨d.fifos, d.recvFifo, d.recvItl, d.xmitFifo, d.rbr, d.thr, d.tsr, d.lsr.dr, d.lsr.thre, d.tsrRetry, d.transmitTimer⟩

/-- Between two operations the transmitter is empty. -/
structure Idle (d : SerialState) : Prop where
  recv : d.recvFifo.Valid uartFifoLength
  xmit : d.xmitFifo.Valid uartFifoLength
  xmit_count : d.xmitFifo.count = 0
  thre : d.lsr.thre = true
  retry : d.tsrRetry ≤ 0
  timer : d.transmitTimer = false
  itl : d.recvItl ≤ 14

theorem Idle.of_view {d d' : SerialState} (h : Idle d) (heq : d'.view = d.view) : Idle d' := by
  injection heq with _ h₂ h₃ h₄ _ _ _ _ h₉ h₁₀ h₁₁
  exact ⟨h₂ ▸ h.recv, h₄ ▸ h.xmit, h₄ ▸ h.xmit_count, h₉ ▸ h.thre, h₁₀ ▸ h.retry, h₁₁ ▸ h.timer, h₃ ▸ h.itl⟩

theorem inTransit_of_view {d d' : SerialState} (heq : d'.view = d.view) : d'.inTransit = d.inTransit := by
  injection heq with h₁ h₂ h₃ h₄ h₅ h₆ h₇ h₈ h₉ h₁₀ h₁₁
  unfold SerialState.inTransit
  rw [h₁, h₄, h₆, h₇, h₉, h₁₀]

theorem Right.of_view {d d' : SerialState} {l : Ledger} (h : Right ⟨d, l⟩) (heq : d'.view = d.view) : Right ⟨d', l⟩ := by
  have htransit := inTransit_of_view heq
  injection heq with h₁ h₂ _ h₄ h₅ _ _ h₈ _ _ _
  refine ⟨h₂ ▸ h.recv_le, h₄ ▸ h.xmit_le, ?_, ?_, h₈ ▸ h.ready, h.reads, htransit ▸ h.writes⟩
  · intro hf
    exact (congrArg (fun f : SerialFifo => f.contents uartFifoLength) h₂).trans (h.queue (h₁ ▸ hf))
  · intro hf
    show d'.recvFifo.count = 0 ∧ (l.unread = [] ∨ l.unread = [d'.rbr])
    rw [h₂, h₅]
    exact h.holding (h₁ ▸ hf)

theorem right_iff_of_view {d d' : SerialState} {l : Ledger} (heq : d'.view = d.view) : Right ⟨d', l⟩ ↔ Right ⟨d, l⟩ :=
  ⟨fun h => h.of_view heq.symm, fun h => h.of_view heq⟩

theorem Idle.inTransit_eq {d : SerialState} (h : Idle d) : d.inTransit = [] := by
  have hxmit : d.xmitFifo.contents uartFifoLength = [] := RingFifo.contents_eq_nil.2 h.xmit_count
  have hretry : ¬ 0 < d.tsrRetry := not_lt.2 h.retry
  simp [SerialState.inTransit, hretry, hxmit, h.thre]

/-! ### Operations that leave the data alone -/

theorem view_serialUpdateIrq (d : SerialState) : (serialUpdateIrq d).view = d.view := rfl

theorem view_serialUpdateMsl (tiocm : Option Tiocm) (d : SerialState) : (serialUpdateMsl tiocm d).view = d.view := by
  cases tiocm with
  | none => rfl
  | some t =>
    unfold serialUpdateMsl
    dsimp only
    rw [apply_ite SerialState.view]
    exact ite_self _

theorem view_writeIer (val : Byte) (tiocm : Option Tiocm) (d : SerialState) : (writeIer val tiocm d).view = d.view := by
  have hmsl := fun d' : SerialState => view_serialUpdateMsl tiocm d'
  unfold writeIer
  dsimp only
  split_ifs
  · exact hmsl _
  · exact hmsl _
  all_goals rfl

theorem view_readMsr (tiocm : Option Tiocm) (d : SerialState) : (readMsr tiocm d).2.view = d.view := by
  have hmsl := view_serialUpdateMsl tiocm d
  unfold readMsr
  split_ifs with hloop hpoll
  · rfl
  · dsimp only
    split_ifs <;> exact hmsl
  · dsimp only
    split_ifs <;> rfl

theorem view_fifoTimeoutInt (d : SerialState) : (fifoTimeoutInt d).view = d.view := by
  unfold fifoTimeoutInt
  split_ifs <;> rfl

/-- A write to a register that is neither a data register nor the FIFO control register. -/
theorem view_serialIoportWrite {addr : ℕ} (val : Byte) (accepted : Bool) (tiocm : Option Tiocm) (d : SerialState)
    (hdata : regOf addr = .data → d.dlab = true) (hfcr : regOf addr ≠ .fcr) :
    (serialIoportWrite addr val accepted tiocm d).view = d.view := by
  unfold serialIoportWrite
  cases hreg : regOf addr with
  | data =>
    dsimp only
    rw [if_pos (hdata hreg)]
    rfl
  | ier =>
    dsimp only
    split_ifs
    · rfl
    · exact view_writeIer val tiocm d
  | fcr => exact absurd hreg hfcr
  | lcr => rfl
  | mcr => rfl
  | lsr => rfl
  | msr => rfl
  | scr => rfl

theorem view_serialIoportRead {addr : ℕ} (tiocm : Option Tiocm) (d : SerialState)
    (hdata : regOf addr = .data → d.dlab = true) : (serialIoportRead addr tiocm d).2.view = d.view := by
  unfold serialIoportRead
  cases hreg : regOf addr with
  | data =>
    dsimp only
    rw [if_pos (hdata hreg)]
  | ier =>
    dsimp only
    split_ifs <;> rfl
  | fcr => rfl
  | lcr => rfl
  | mcr => rfl
  | lsr =>
    dsimp only
    split_ifs <;> rfl
  | msr => exact view_readMsr tiocm d
  | scr => rfl

/-! ### The queues -/

theorem fifoPut_of_lt {f : SerialFifo} (h : f.count < uartFifoLength) (c : Byte) : fifoPut f c = f.put uartFifoLength c := by
  have hcount : (f.count + 1) % 256 = f.count + 1 := Nat.mod_eq_of_lt (by unfold uartFifoLength at h; omega)
  unfold fifoPut
  rw [hcount]
  rfl

theorem valid_fifoClear : fifoClear.Valid uartFifoLength := ⟨by decide, by decide, rfl⟩

/-- Bytes that find room are queued in order. -/
theorem foldl_fifoPut (buf : List Byte) :
    ∀ {f : SerialFifo}, f.Valid uartFifoLength → f.count + buf.length ≤ uartFifoLength →
      (buf.foldl fifoPut f).Valid uartFifoLength ∧
        (buf.foldl fifoPut f).contents uartFifoLength = f.contents uartFifoLength ++ buf := by
  induction buf with
  | nil =>
    intro f hf _
    exact ⟨hf, (List.append_nil _).symm⟩
  | cons c buf ih =>
    intro f hf hroom
    rw [List.length_cons] at hroom
    have hlt : f.count < uartFifoLength := by omega
    have hroom' : (f.put uartFifoLength c).count + buf.length ≤ uartFifoLength := by
      show f.count + 1 + buf.length ≤ uartFifoLength
      omega
    obtain ⟨hvalid, hcontents⟩ := ih (hf.put hlt c) hroom'
    rw [List.foldl_cons, fifoPut_of_lt hlt]
    refine ⟨hvalid, ?_⟩
    rw [hcontents, RingFifo.contents_put hf hlt, List.append_assoc]
    rfl

theorem fifoGet_spec {f : SerialFifo} (hf : f.Valid uartFifoLength) :
    (fifoGet f).2.Valid uartFifoLength ∧ (fifoGet f).1 = (f.contents uartFifoLength).headD 0 ∧
      (fifoGet f).2.contents uartFifoLength = (f.contents uartFifoLength).tail := by
  by_cases hcount : f.count = 0
  · have hnil : f.contents uartFifoLength = [] := RingFifo.contents_eq_nil.2 hcount
    unfold fifoGet
    rw [if_pos hcount]
    dsimp only
    rw [hnil]
    exact ⟨hf, rfl, rfl⟩
  · unfold fifoGet
    rw [if_neg hcount, RingFifo.contents_drop hf hcount]
    exact ⟨hf.drop hcount, rfl, rfl⟩

/-! ### Sending -/

/-- The transmitter is empty. -/
structure Sender (d : SerialState) : Prop where
  xmit : d.xmitFifo.Valid uartFifoLength
  xmit_count : d.xmitFifo.count = 0
  thre : d.lsr.thre = true
  retry : d.tsrRetry ≤ 0
  timer : d.transmitTimer = false

theorem Idle.sender {d : SerialState} (h : Idle d) : Sender d := ⟨h.xmit, h.xmit_count, h.thre, h.retry, h.timer⟩

def sentWith (d : SerialState) (val : Byte) (f : SerialFifo) (retry : ℤ) : SerialState :=
  { d with thr := val, tsr := val, lsr := { d.lsr with thre := true }, xmitFifo := f, tsrRetry := retry }

theorem Idle.sentWith {d : SerialState} (h : Idle d) (val : Byte) {f : SerialFifo} (hf : f.Valid uartFifoLength)
    (hcount : f.count = 0) {retry : ℤ} (hretry : retry ≤ 0) : Idle (sentWith d val f retry) :=
  ⟨h.recv, hf, hcount, rfl, hretry, h.timer, h.itl⟩

theorem view_putThr (val : Byte) (d : SerialState) :
    (putThr val d).view =
      { d.view with thr := val, thre := false, xmitFifo := if d.fifos then fifoPut d.xmitFifo val else d.xmitFifo } := by
  unfold putThr
  cases hf : d.fifos <;> simp [SerialState.view, SerialState.fifos, serialUpdateIrq] at hf ⊢ <;> simp [hf]

theorem view_loadTsr {d : SerialState} (hretry : d.tsrRetry ≤ 0) :
    (loadTsr d).view =
      if d.fifos then { d.view with tsr := (fifoGet d.xmitFifo).1, xmitFifo := (fifoGet d.xmitFifo).2
                                    thre := d.lsr.thre || decide ((fifoGet d.xmitFifo).2.count = 0) }
      else { d.view with tsr := d.thr, thre := true } := by
  unfold loadTsr
  rw [if_pos hretry]
  split_ifs <;> rfl

/-- The byte that was written goes straight to the transmitter. -/
theorem loadTsr_putThr {d : SerialState} (h : Sender d) (val : Byte) :
    ∃ f : SerialFifo, f.Valid uartFifoLength ∧ f.count = 0 ∧
      (loadTsr (putThr val d)).view = (sentWith d val f d.tsrRetry).view := by
  have hview := view_putThr val d
  have hfifos : (putThr val d).fifos = d.fifos := congrArg View.fifos hview
  have hxmit := congrArg View.xmitFifo hview
  have hthr : (putThr val d).thr = val := congrArg View.thr hview
  have hthre : (putThr val d).lsr.thre = false := congrArg View.thre hview
  have hretry : (putThr val d).tsrRetry = d.tsrRetry := congrArg View.tsrRetry hview
  dsimp only [SerialState.view] at hxmit
  rw [view_loadTsr (hretry ▸ h.retry), hfifos, hxmit, hthr, hthre, hview]
  by_cases hf : d.fifos = true
  · have hlt : d.xmitFifo.count < uartFifoLength := by
      rw [h.xmit_count]
      decide
    have hcontents : (d.xmitFifo.put uartFifoLength val).contents uartFifoLength = [val] := by
      rw [RingFifo.contents_put h.xmit hlt, RingFifo.contents_eq_nil.2 h.xmit_count]
      rfl
    obtain ⟨hvalid, hbyte, hrest⟩ := fifoGet_spec (h.xmit.put hlt val)
    rw [hcontents] at hbyte hrest
    have hcount : (fifoGet (d.xmitFifo.put uartFifoLength val)).2.count = 0 := RingFifo.contents_eq_nil.1 hrest
    refine ⟨_, hvalid, hcount, ?_⟩
    rw [if_pos hf, if_pos hf, fifoPut_of_lt hlt, hbyte, decide_eq_true hcount]
    rfl
  · refine ⟨d.xmitFifo, h.xmit, h.xmit_count, ?_⟩
    rw [if_neg hf, if_neg hf]
    rfl

theorem loop_loadTsr (d : SerialState) : (loadTsr d).loop = d.loop := by
  unfold loadTsr
  split_ifs <;> rfl

theorem loop_putThr (val : Byte) (d : SerialState) : (putThr val d).loop = d.loop := by
  unfold putThr
  dsimp only
  split_ifs <;> rfl

theorem view_xmitDone {d : SerialState} (hthre : d.lsr.thre = true) : (xmitDone d).view = d.view := by
  unfold xmitDone
  rw [if_pos hthre]
  rfl

theorem view_serialReceive1 (buf : List Byte) (d : SerialState) :
    (serialReceive1 buf d).view =
      if d.fifos then { d.view with recvFifo := buf.foldl fifoPut d.recvFifo, dr := true }
      else { d.view with rbr := buf.headD 0, dr := true } := by
  unfold serialReceive1
  split_ifs <;> rfl

/-- What a write to the transmit register leaves: the byte is looped back, or the backend has
answered. -/
theorem serialXmit_putThr {d : SerialState} (h : Sender d) (val : Byte) (accepted : Bool) :
    ∃ (f : SerialFifo) (retry : ℤ), f.Valid uartFifoLength ∧ f.count = 0 ∧ retry ≤ 0 ∧
      (serialXmit accepted (putThr val d)).view =
        (if d.loop then serialReceive1 [val] (sentWith d val f retry) else sentWith d val f retry).view := by
  obtain ⟨f, hvalid, hcount, hload⟩ := loadTsr_putThr h val
  have hloop : (loadTsr (putThr val d)).loop = d.loop := by rw [loop_loadTsr, loop_putThr]
  have htsr : (loadTsr (putThr val d)).tsr = val := congrArg View.tsr hload
  have hthre : (loadTsr (putThr val d)).lsr.thre = true := congrArg View.thre hload
  have hretry : (loadTsr (putThr val d)).tsrRetry = d.tsrRetry := congrArg View.tsrRetry hload
  have hle : ¬ (0 < d.tsrRetry ∧ d.tsrRetry ≤ maxXmitRetry) := fun hlt => absurd hlt.1 (not_lt.2 h.retry)
  unfold serialXmit
  generalize loadTsr (putThr val d) = t at *
  have hset : ∀ retry, (xmitDone { t with tsrRetry := retry }).view = (sentWith d val f retry).view := by
    intro retry
    rw [view_xmitDone (show ({ t with tsrRetry := retry } : SerialState).lsr.thre = true from hthre)]
    show { t.view with tsrRetry := retry } = { (sentWith d val f d.tsrRetry).view with tsrRetry := retry }
    rw [hload]
  dsimp only
  rw [hloop, hretry, if_neg hle]
  by_cases hl : d.loop = true
  · refine ⟨f, d.tsrRetry, hvalid, hcount, h.retry, ?_⟩
    have hrecv : (serialReceive1 [val] t).view = (serialReceive1 [val] (sentWith d val f d.tsrRetry)).view := by
      rw [view_serialReceive1, view_serialReceive1, hload]
      rw [show t.fifos = (sentWith d val f d.tsrRetry).fifos from congrArg View.fifos hload,
        show t.recvFifo = (sentWith d val f d.tsrRetry).recvFifo from congrArg View.recvFifo hload]
    rw [if_pos hl, if_pos hl, htsr, ← hrecv]
    apply view_xmitDone
    have hkeep : (serialReceive1 [val] t).lsr.thre = t.lsr.thre := by
      unfold serialReceive1
      split_ifs <;> rfl
    rw [hkeep, hthre]
  · simp only [if_neg hl]
    split_ifs
    · exact ⟨f, 0, hvalid, hcount, le_refl _, hset 0⟩
    · exact ⟨f, -1, hvalid, hcount, by decide, hset (-1)⟩
    · exact ⟨f, d.tsrRetry, hvalid, hcount, h.retry, (view_xmitDone hthre).trans hload⟩

/-! ### Receiving -/

/-- What was received is queued where it finds room. -/
theorem right_receive {d : SerialState} {l : Ledger} (h : Right ⟨d, l⟩) (hi : Idle d) {buf : List Byte} (hbuf : buf ≠ [])
    (hroom : if d.fifos then d.recvFifo.count + buf.length ≤ uartFifoLength else l.unread = [] ∧ buf.length = 1) :
    Right ⟨serialReceive1 buf d, { l with unread := l.unread ++ buf }⟩ ∧ Idle (serialReceive1 buf d) := by
  have hview := view_serialReceive1 buf d
  have hne : l.unread ++ buf ≠ [] := by simp [hbuf]
  by_cases hf : d.fifos = true
  · rw [if_pos hf] at hview hroom
    obtain ⟨hvalid, hcontents⟩ := foldl_fifoPut buf hi.recv hroom
    have hview' : (serialReceive1 buf d).view =
        ({ d with recvFifo := buf.foldl fifoPut d.recvFifo, lsr := { d.lsr with dr := true } } : SerialState).view := hview
    refine ⟨Right.of_view ?_ hview', Idle.of_view ?_ hview'⟩
    · refine ⟨hvalid.count_le, h.xmit_le, ?_, ?_, iff_of_true rfl (.inl hne), h.reads, h.writes⟩
      · intro _
        rw [hcontents, h.queue hf]
      · intro hf'
        exact absurd (hf.symm.trans hf') (by decide)
    · exact ⟨hvalid, hi.xmit, hi.xmit_count, hi.thre, hi.retry, hi.timer, hi.itl⟩
  · rw [if_neg hf] at hview hroom
    have hview' : (serialReceive1 buf d).view =
        ({ d with rbr := buf.headD 0, lsr := { d.lsr with dr := true } } : SerialState).view := hview
    obtain ⟨hnil, hlen⟩ := hroom
    obtain ⟨c, rfl⟩ := List.length_eq_one_iff.1 hlen
    refine ⟨Right.of_view ?_ hview', Idle.of_view ?_ hview'⟩
    · refine ⟨h.recv_le, h.xmit_le, fun hf' => absurd hf' hf, ?_, iff_of_true rfl (.inl hne), h.reads, h.writes⟩
      intro hf'
      refine ⟨(h.holding hf').1, .inr ?_⟩
      rw [hnil]
      rfl
    · exact ⟨hi.recv, hi.xmit, hi.xmit_count, hi.thre, hi.retry, hi.timer, hi.itl⟩

theorem right_sentWith {d : SerialState} {l : Ledger} (h : Right ⟨d, l⟩) (hi : Idle d) (val : Byte) {f : SerialFifo}
    (hf : f.Valid uartFifoLength) (hcount : f.count = 0) {retry : ℤ} (hretry : retry ≤ 0) (sent owed : List Byte)
    (refusals : ℕ) :
    Right ⟨sentWith d val f retry, { l with sent := sent, owed := owed, refusals := refusals }⟩ ↔ sent = owed := by
  have htransit : (sentWith d val f retry).inTransit = [] := (hi.sentWith val hf hcount hretry).inTransit_eq
  constructor
  · intro h'
    have hwrites : sent ++ (sentWith d val f retry).inTransit = owed := h'.writes
    rwa [htransit, List.append_nil] at hwrites
  · intro heq
    refine ⟨h.recv_le, hf.count_le, h.queue, h.holding, h.ready, h.reads, ?_⟩
    show sent ++ (sentWith d val f retry).inTransit = owed
    rw [htransit, List.append_nil, heq]

theorem written_data {d : SerialState} (hi : Idle d) (l : Ledger) {addr : ℕ} (hreg : regOf addr = .data)
    (hdlab : d.dlab = false) (val : Byte) (accepted : Bool) :
    l.written d addr val accepted =
      if d.loop then { l with unread := l.unread ++ [val] }
      else if accepted then { l with sent := l.sent ++ [val], owed := l.owed ++ [val], refusals := 0 }
      else { l with owed := l.owed ++ [val], refusals := 1 } := by
  obtain ⟨f, -, -, hload⟩ := loadTsr_putThr hi.sender val
  have htsr : (loadTsr (putThr val d)).tsr = val := congrArg View.tsr hload
  have hretry : (putThr val d).tsrRetry = d.tsrRetry := congrArg View.tsrRetry (view_putThr val d)
  have hrefused : ¬ maxXmitRetry < 1 := by decide
  unfold Ledger.written Ledger.tried
  rw [hreg, htsr, loop_putThr, hretry, if_pos hi.retry, hdlab]
  by_cases hl : d.loop = true
  · simp [hl]
  · simp [hl, hrefused]

theorem write_data {d : SerialState} {addr : ℕ} (hreg : regOf addr = .data) (hdlab : d.dlab = false) (val : Byte)
    (accepted : Bool) (tiocm : Option Tiocm) :
    serialIoportWrite addr val accepted tiocm d = serialXmit accepted (putThr val d) := by
  unfold serialIoportWrite
  rw [hreg]
  dsimp only
  rw [hdlab]
  rfl

theorem right_loop {d : SerialState} {l : Ledger} (h : Right ⟨d, l⟩) (hi : Idle d) (val : Byte) :
    Right ⟨serialReceive1 [val] d, { l with unread := l.unread ++ [val] }⟩ ↔
      if d.fifos then d.recvFifo.count < uartFifoLength else l.unread = [] := by
  have hview := view_serialReceive1 [val] d
  by_cases hf : d.fifos = true
  · rw [if_pos hf] at hview ⊢
    constructor
    · intro h'
      have hle := h'.recv_le
      have hrecv : (serialReceive1 [val] d).recvFifo = fifoPut d.recvFifo val := congrArg View.recvFifo hview
      dsimp only at hle
      rw [hrecv] at hle
      have hle' : (d.recvFifo.count + 1) % 256 ≤ uartFifoLength := hle
      have hbound : d.recvFifo.count ≤ uartFifoLength := h.recv_le
      unfold uartFifoLength at *
      omega
    · intro hlt
      refine (right_receive h hi (List.cons_ne_nil _ _) ?_).1
      rw [if_pos hf]
      exact hlt
  · rw [if_neg hf] at hview ⊢
    constructor
    · intro h'
      have hfifos : (serialReceive1 [val] d).fifos = d.fifos := congrArg View.fifos hview
      rcases (h'.holding (hfifos.trans (Bool.eq_false_iff.2 hf))).2 with hnil | hone
      · simp at hnil
      · have hlen := congrArg List.length hone
        simpa using hlen
    · intro hnil
      refine (right_receive h hi (List.cons_ne_nil _ _) ?_).1
      rw [if_neg hf]
      exact ⟨hnil, rfl⟩

theorem idle_loop {d : SerialState} (hi : Idle d) (val : Byte) (hroom : d.fifos = true → d.recvFifo.count < uartFifoLength) :
    Idle (serialReceive1 [val] d) := by
  have hview := view_serialReceive1 [val] d
  by_cases hf : d.fifos = true
  · rw [if_pos hf] at hview
    have hview' : (serialReceive1 [val] d).view =
        ({ d with recvFifo := fifoPut d.recvFifo val, lsr := { d.lsr with dr := true } } : SerialState).view := hview
    refine Idle.of_view ?_ hview'
    rw [fifoPut_of_lt (hroom hf)]
    exact ⟨hi.recv.put (hroom hf) val, hi.xmit, hi.xmit_count, hi.thre, hi.retry, hi.timer, hi.itl⟩
  · rw [if_neg hf] at hview
    have hview' : (serialReceive1 [val] d).view =
        ({ d with rbr := val, lsr := { d.lsr with dr := true } } : SerialState).view := hview
    refine Idle.of_view ?_ hview'
    exact ⟨hi.recv, hi.xmit, hi.xmit_count, hi.thre, hi.retry, hi.timer, hi.itl⟩

theorem right_write_data {d : SerialState} {l : Ledger} (h : Right ⟨d, l⟩) (hi : Idle d) {addr : ℕ}
    (hreg : regOf addr = .data) (hdlab : d.dlab = false) (val : Byte) (accepted : Bool) (tiocm : Option Tiocm) :
    (Right ⟨serialIoportWrite addr val accepted tiocm d, l.written d addr val accepted⟩ ↔
      OpSafe ⟨d, l⟩ (.write addr val accepted tiocm)) ∧
    (OpSafe ⟨d, l⟩ (.write addr val accepted tiocm) → Idle (serialIoportWrite addr val accepted tiocm d)) := by
  obtain ⟨f, retry, hf, hcount, hretry, hview⟩ := serialXmit_putThr hi.sender val accepted
  have hidle : Idle (sentWith d val f retry) := hi.sentWith val hf hcount hretry
  have hsame := right_sentWith h hi val hf hcount hretry
  have hbooks : l.sent = l.owed := by
    have hwrites : l.sent ++ d.inTransit = l.owed := h.writes
    rwa [hi.inTransit_eq, List.append_nil] at hwrites
  have hsafe : OpSafe ⟨d, l⟩ (.write addr val accepted tiocm) ↔
      if d.loop then if d.fifos then d.recvFifo.count < uartFifoLength else l.unread = [] else accepted = true := by
    unfold OpSafe
    simp only [hreg, hdlab, true_imp_iff]
  rw [write_data hreg hdlab, written_data hi l hreg hdlab, right_iff_of_view hview, hsafe]
  by_cases hl : d.loop = true
  · rw [if_pos hl, if_pos hl, if_pos hl]
    rw [if_pos hl] at hview
    refine ⟨right_loop ((hsame l.sent l.owed l.refusals).2 hbooks) hidle val, fun hroom => ?_⟩
    refine Idle.of_view (idle_loop hidle val fun hfifos => ?_) hview
    have hfifos' : d.fifos = true := hfifos
    rwa [if_pos hfifos'] at hroom
  · rw [if_neg hl, if_neg hl, if_neg hl]
    rw [if_neg hl] at hview
    refine ⟨?_, fun _ => hidle.of_view hview⟩
    by_cases ha : accepted = true
    · rw [if_pos ha]
      exact iff_of_true ((hsame _ _ _).2 (by rw [hbooks])) ha
    · rw [if_neg ha]
      refine iff_of_false (fun h' => ?_) ha
      have heq := (hsame l.sent (l.owed ++ [val]) 1).1 h'
      rw [hbooks] at heq
      simpa using congrArg List.length heq

/-! ### Resets of the queues -/

theorem recvItlOf_le (val : Byte) : recvItlOf val ≤ 14 := by
  unfold recvItlOf
  split_ifs <;> decide

theorem fcrVal_of_keep {val : Byte} {d : SerialState} (h : (fcrVal val d).getLsbD 1 = false) :
    (fcrVal val d).getLsbD 0 = d.fifos := by
  unfold fcrVal SerialState.fifos at *
  split_ifs at h ⊢ with htoggle
  · simp at h
  · simpa using htoggle

def resetWith (val : Byte) (d : SerialState) : SerialState :=
  { d with
    fcr := fcrVal val d &&& 0xc9#8
    recvFifo := if (fcrVal val d).getLsbD 1 then fifoClear else d.recvFifo
    xmitFifo := if (fcrVal val d).getLsbD 2 then fifoClear else d.xmitFifo
    recvItl := if (fcrVal val d).getLsbD 0 then recvItlOf (fcrVal val d) else d.recvItl }

theorem fifos_resetWith (val : Byte) (d : SerialState) : (resetWith val d).fifos = (fcrVal val d).getLsbD 0 := by
  unfold resetWith SerialState.fifos
  simp

theorem view_writeFcr {val : Byte} {d : SerialState} (hne : d.fcr ≠ val) : (writeFcr val d).view = (resetWith val d).view := by
  unfold writeFcr resetWith
  rw [if_neg hne]
  dsimp only
  split_ifs <;> rfl

theorem idle_resetWith {d : SerialState} (hi : Idle d) (val : Byte) : Idle (resetWith val d) := by
  refine ⟨?_, ?_, ?_, hi.thre, hi.retry, hi.timer, ?_⟩ <;> dsimp only [resetWith] <;> split_ifs
  · exact valid_fifoClear
  · exact hi.recv
  · exact valid_fifoClear
  · exact hi.xmit
  · rfl
  · exact hi.xmit_count
  · exact recvItlOf_le _
  · exact hi.itl

theorem right_resetWith {d : SerialState} {l : Ledger} (h : Right ⟨d, l⟩) (hi : Idle d) {val : Byte} (hne : d.fcr ≠ val) :
    Right ⟨resetWith val d, if discards val d then { l with unread := [] } else l⟩ ↔
      (discards val d → l.unread = [] ∨ l.brk = true) := by
  have hidle := idle_resetWith hi val
  have hfifos := fifos_resetWith val d
  have hready : d.lsr.dr = true ↔ l.unread ≠ [] ∨ l.brk = true := h.ready
  have hwrites : l.sent ++ (resetWith val d).inTransit = l.owed := by
    rw [hidle.inTransit_eq, ← hi.inTransit_eq]
    exact h.writes
  by_cases hd : discards val d
  · have hrecv : (resetWith val d).recvFifo = fifoClear := if_pos hd.2.1
    rw [if_pos hd]
    constructor
    · intro h' _
      have hready' : d.lsr.dr = true ↔ ([] : List Byte) ≠ [] ∨ l.brk = true := h'.ready
      rw [or_iff_not_imp_left]
      intro hunread
      exact (hready'.1 (hready.2 (.inl hunread))).resolve_left fun hnil => hnil rfl
    · intro hsafe
      refine ⟨hidle.recv.count_le, hidle.xmit.count_le, fun _ => ?_, fun _ => ⟨?_, .inl rfl⟩, ?_, h.reads, hwrites⟩
      · rw [hrecv]
        rfl
      · rw [hrecv]
        rfl
      · show d.lsr.dr = true ↔ ([] : List Byte) ≠ [] ∨ l.brk = true
        rw [hready]
        constructor
        · rintro (hunread | hbrk)
          · exact .inr ((hsafe hd).resolve_left hunread)
          · exact .inr hbrk
        · rintro (hnil | hbrk)
          · exact absurd rfl hnil
          · exact .inr hbrk
  · rw [if_neg hd]
    refine iff_of_true ?_ fun hd' => absurd hd' hd
    by_cases hreset : (fcrVal val d).getLsbD 1 = true
    · -- both before and after the write the queues are off
      have hoff : d.fifos = false ∧ (fcrVal val d).getLsbD 0 = false := by
        constructor
        · exact Bool.eq_false_iff.2 fun hf => hd ⟨hne, hreset, .inl hf⟩
        · exact Bool.eq_false_iff.2 fun hf => hd ⟨hne, hreset, .inr hf⟩
      have hrecv : (resetWith val d).recvFifo = fifoClear := if_pos hreset
      refine ⟨hidle.recv.count_le, hidle.xmit.count_le, fun hf => ?_, fun _ => ⟨?_, (h.holding hoff.1).2⟩, hready,
        h.reads, hwrites⟩
      · exact absurd (hfifos.symm.trans hf) (by rw [hoff.2]; decide)
      · rw [hrecv]
        rfl
    · have hrecv : (resetWith val d).recvFifo = d.recvFifo := if_neg hreset
      have hsame : (resetWith val d).fifos = d.fifos := hfifos.trans (fcrVal_of_keep (Bool.eq_false_iff.2 hreset))
      refine ⟨hidle.recv.count_le, hidle.xmit.count_le, fun hf => ?_, fun hf => ?_, hready, h.reads, hwrites⟩
      · rw [hrecv]
        exact h.queue (hsame.symm.trans hf)
      · rw [hrecv]
        exact h.holding (hsame.symm.trans hf)

/-- A write to the FIFO control register. -/
theorem right_write_fcr {d : SerialState} {l : Ledger} (h : Right ⟨d, l⟩) (hi : Idle d) {addr : ℕ}
    (hreg : regOf addr = .fcr) (val : Byte) (accepted : Bool) (tiocm : Option Tiocm) :
    (Right ⟨serialIoportWrite addr val accepted tiocm d, l.written d addr val accepted⟩ ↔
      OpSafe ⟨d, l⟩ (.write addr val accepted tiocm)) ∧ Idle (serialIoportWrite addr val accepted tiocm d) := by
  have hwrite : serialIoportWrite addr val accepted tiocm d = writeFcr val d := by
    unfold serialIoportWrite
    rw [hreg]
  have hled : l.written d addr val accepted = if discards val d then { l with unread := [] } else l := by
    unfold Ledger.written
    rw [hreg]
  have hsafe : OpSafe ⟨d, l⟩ (.write addr val accepted tiocm) ↔ (discards val d → l.unread = [] ∨ l.brk = true) := by
    unfold OpSafe
    simp only [hreg]
  rw [hwrite, hled, hsafe]
  by_cases hne : d.fcr = val
  · have hkeep : ¬ discards val d := fun hd => hd.1 hne
    have hsame : writeFcr val d = d := if_pos hne
    rw [hsame, if_neg hkeep]
    exact ⟨iff_of_true h fun hd => absurd hd hkeep, hi⟩
  · have hview := view_writeFcr hne
    rw [right_iff_of_view hview]
    exact ⟨right_resetWith h hi hne, (idle_resetWith hi val).of_view hview⟩

/-! ### Reading -/

def readWith (d : SerialState) : SerialState :=
  if d.fifos then { d with recvFifo := (fifoGet d.recvFifo).2
                           lsr := { d.lsr with dr := d.lsr.dr && decide ((fifoGet d.recvFifo).2.count ≠ 0) } }
  else { d with lsr := { d.lsr with dr := false } }

theorem view_readRbr (d : SerialState) : (readRbr d).2.view = (readWith d).view := by
  unfold readRbr readWith
  split_ifs with hf
  · dsimp only
    split_ifs with hcount
    · simp [SerialState.view, SerialState.fifos, serialUpdateIrq, hcount]
    · simp [SerialState.view, SerialState.fifos, serialUpdateIrq, hcount]
  · rfl

theorem idle_readWith {d : SerialState} (hi : Idle d) : Idle (readWith d) := by
  unfold readWith
  split_ifs
  · have hcount : (fifoGet d.recvFifo).2.Valid uartFifoLength := (fifoGet_spec hi.recv).1
    exact ⟨hcount, hi.xmit, hi.xmit_count, hi.thre, hi.retry, hi.timer, hi.itl⟩
  · exact ⟨hi.recv, hi.xmit, hi.xmit_count, hi.thre, hi.retry, hi.timer, hi.itl⟩

/-- What the guest owns after it read the receive buffer and got `ret`. -/
def Ledger.taken (l : Ledger) (d : SerialState) (ret : Byte) : Ledger :=
  { l with unread := l.unread.tail, brk := l.brk && !l.unread.tail.isEmpty
           got := if d.lsr.dr then l.got ++ [ret] else l.got
           due := if d.lsr.dr then l.due ++ [l.unread.headD 0] else l.due }

theorem right_read_fifo {d : SerialState} {l : Ledger} (h : Right ⟨d, l⟩) (hi : Idle d) (hf : d.fifos = true) :
    Right ⟨readWith d, l.taken d (readRbr d).1⟩ := by
  have hidle := idle_readWith hi
  obtain ⟨hvalid, hbyte, hrest⟩ := fifoGet_spec hi.recv
  have hqueue : d.recvFifo.contents uartFifoLength = l.unread := h.queue hf
  have hready : d.lsr.dr = true ↔ l.unread ≠ [] ∨ l.brk = true := h.ready
  have hwrites : l.sent ++ (readWith d).inTransit = l.owed := by
    rw [hidle.inTransit_eq, ← hi.inTransit_eq]
    exact h.writes
  rw [hqueue] at hbyte hrest
  have hread : readWith d = { d with recvFifo := (fifoGet d.recvFifo).2
                                     lsr := { d.lsr with dr := d.lsr.dr && decide ((fifoGet d.recvFifo).2.count ≠ 0) } } :=
    if_pos hf
  have hret : (readRbr d).1 = l.unread.headD 0 := by
    unfold readRbr
    rw [if_pos hf]
    exact hbyte
  have hcount : (fifoGet d.recvFifo).2.count ≠ 0 ↔ l.unread.tail ≠ [] := by
    rw [← hrest, Ne, Ne, RingFifo.contents_eq_nil]
  refine ⟨hidle.recv.count_le, hidle.xmit.count_le, ?_, ?_, ?_, ?_, hwrites⟩
  · intro _
    rw [hread]
    exact hrest
  · intro hf'
    rw [hread] at hf'
    exact absurd (hf.symm.trans hf') (by decide)
  · rw [hread]
    show (d.lsr.dr && decide ((fifoGet d.recvFifo).2.count ≠ 0)) = true ↔
      l.unread.tail ≠ [] ∨ (l.brk && !l.unread.tail.isEmpty) = true
    rw [Bool.and_eq_true, decide_eq_true_iff, hcount, hready]
    cases l.unread with
    | nil => simp
    | cons c cs => simp
  · have hgot : l.got = l.due := h.reads
    show (if d.lsr.dr then l.got ++ [(readRbr d).1] else l.got) = if d.lsr.dr then l.due ++ [l.unread.headD 0] else l.due
    rw [hret, hgot]

theorem right_read_holding {d : SerialState} {l : Ledger} (h : Right ⟨d, l⟩) (hi : Idle d) (hf : d.fifos = false) :
    Right ⟨readWith d, l.taken d (readRbr d).1⟩ ↔ (l.brk = true → l.unread = [] → d.rbr = 0) := by
  have hidle := idle_readWith hi
  have hready : d.lsr.dr = true ↔ l.unread ≠ [] ∨ l.brk = true := h.ready
  have hgot : l.got = l.due := h.reads
  have hread : readWith d = { d with lsr := { d.lsr with dr := false } } := by
    unfold readWith
    rw [hf]
    rfl
  have hret : (readRbr d).1 = d.rbr := by
    unfold readRbr
    rw [hf]
    rfl
  have hreads : (l.taken d d.rbr).got = (l.taken d d.rbr).due ↔ (d.lsr.dr = true → d.rbr = l.unread.headD 0) := by
    show (if d.lsr.dr then l.got ++ [d.rbr] else l.got) = (if d.lsr.dr then l.due ++ [l.unread.headD 0] else l.due) ↔ _
    rw [hgot]
    cases d.lsr.dr <;> simp
  have hhead : (d.lsr.dr = true → d.rbr = l.unread.headD 0) ↔ (l.brk = true → l.unread = [] → d.rbr = 0) := by
    rw [hready]
    rcases (h.holding hf).2 with hnil | hone
    · have hnil' : l.unread = [] := hnil
      simp [hnil']
    · have hone' : l.unread = [d.rbr] := hone
      simp [hone']
  rw [hret, ← hhead, ← hreads]
  constructor
  · intro h'
    exact h'.reads
  · intro heq
    have htail : l.unread.tail = [] := by
      rcases (h.holding hf).2 with hnil | hone
      · exact (congrArg List.tail hnil).trans rfl
      · exact (congrArg List.tail hone).trans rfl
    have hwrites : l.sent ++ (readWith d).inTransit = l.owed := by
      rw [hidle.inTransit_eq, ← hi.inTransit_eq]
      exact h.writes
    refine ⟨hidle.recv.count_le, hidle.xmit.count_le, ?_, ?_, ?_, heq, hwrites⟩
    · intro hf'
      rw [hread] at hf'
      exact absurd (hf.symm.trans hf') (by decide)
    · intro _
      rw [hread]
      exact ⟨(h.holding hf).1, .inl htail⟩
    · rw [hread]
      show false = true ↔ l.unread.tail ≠ [] ∨ (l.brk && !l.unread.tail.isEmpty) = true
      rw [htail]
      simp

theorem right_read_data {d : SerialState} {l : Ledger} (h : Right ⟨d, l⟩) (hi : Idle d) {addr : ℕ}
    (hreg : regOf addr = .data) (hdlab : d.dlab = false) (tiocm : Option Tiocm) :
    (Right ⟨(serialIoportRead addr tiocm d).2, l.read d addr (serialIoportRead addr tiocm d).1⟩ ↔
      OpSafe ⟨d, l⟩ (.read addr tiocm)) ∧ Idle (serialIoportRead addr tiocm d).2 := by
  have hread : serialIoportRead addr tiocm d = readRbr d := by
    unfold serialIoportRead
    rw [hreg]
    dsimp only
    rw [hdlab]
    rfl
  have hled : ∀ ret, l.read d addr ret = l.taken d ret := by
    intro ret
    unfold Ledger.read
    rw [hreg]
    dsimp only
    rw [hdlab]
    rfl
  have hsafe : OpSafe ⟨d, l⟩ (.read addr tiocm) ↔
      (d.fifos = false → l.brk = true → l.unread = [] → d.rbr = 0) := by
    unfold OpSafe
    simp only [hreg, hdlab, true_imp_iff]
  have hview := view_readRbr d
  rw [hread, hled, right_iff_of_view hview, hsafe]
  refine ⟨?_, (idle_readWith hi).of_view hview⟩
  cases hf : d.fifos with
  | false =>
    rw [right_read_holding h hi hf]
    simp
  | true => exact iff_of_true (right_read_fifo h hi hf) (by simp)

/-! ### Runs -/

theorem right_write {d : SerialState} {l : Ledger} (h : Right ⟨d, l⟩) (hi : Idle d) (addr : ℕ) (val : Byte)
    (accepted : Bool) (tiocm : Option Tiocm) :
    (Right ⟨serialIoportWrite addr val accepted tiocm d, l.written d addr val accepted⟩ ↔
      OpSafe ⟨d, l⟩ (.write addr val accepted tiocm)) ∧
    (OpSafe ⟨d, l⟩ (.write addr val accepted tiocm) → Idle (serialIoportWrite addr val accepted tiocm d)) := by
  by_cases hfcr : regOf addr = .fcr
  · have hwrite := right_write_fcr h hi hfcr val accepted tiocm
    exact ⟨hwrite.1, fun _ => hwrite.2⟩
  · by_cases hdata : regOf addr = .data ∧ d.dlab = false
    · exact right_write_data h hi hdata.1 hdata.2 val accepted tiocm
    · have hdlab : regOf addr = .data → d.dlab = true := fun hreg =>
        Bool.not_eq_false _ ▸ fun hoff => hdata ⟨hreg, hoff⟩
      have hview := view_serialIoportWrite val accepted tiocm d hdlab hfcr
      have hled : l.written d addr val accepted = l := by
        unfold Ledger.written
        cases hreg : regOf addr <;> simp_all
      have hsafe : OpSafe ⟨d, l⟩ (.write addr val accepted tiocm) := by
        unfold OpSafe
        cases hreg : regOf addr <;> simp_all
      rw [hled]
      exact ⟨iff_of_true (h.of_view hview) hsafe, fun _ => hi.of_view hview⟩

theorem right_read {d : SerialState} {l : Ledger} (h : Right ⟨d, l⟩) (hi : Idle d) (addr : ℕ) (tiocm : Option Tiocm) :
    (Right ⟨(serialIoportRead addr tiocm d).2, l.read d addr (serialIoportRead addr tiocm d).1⟩ ↔
      OpSafe ⟨d, l⟩ (.read addr tiocm)) ∧ Idle (serialIoportRead addr tiocm d).2 := by
  by_cases hdata : regOf addr = .data ∧ d.dlab = false
  · exact right_read_data h hi hdata.1 hdata.2 tiocm
  · have hdlab : regOf addr = .data → d.dlab = true := fun hreg =>
      Bool.not_eq_false _ ▸ fun hoff => hdata ⟨hreg, hoff⟩
    have hview := view_serialIoportRead tiocm d hdlab
    have hled : ∀ ret, l.read d addr ret = l := by
      intro ret
      unfold Ledger.read
      cases hreg : regOf addr <;> simp_all
    have hsafe : OpSafe ⟨d, l⟩ (.read addr tiocm) := by
      unfold OpSafe
      cases hreg : regOf addr <;> simp_all
    rw [hled]
    exact ⟨iff_of_true (h.of_view hview) hsafe, hi.of_view hview⟩

/-- The backend never gives more than the queue has room for. -/
theorem room_of_canReceive {d : SerialState} {l : Ledger} (h : Right ⟨d, l⟩) (hi : Idle d) {buf : List Byte}
    (hbuf : buf ≠ []) (hlen : buf.length ≤ serialCanReceive d) :
    if d.fifos then d.recvFifo.count + buf.length ≤ uartFifoLength else l.unread = [] ∧ buf.length = 1 := by
  have hpos : 0 < buf.length := List.length_pos_iff.2 hbuf
  have hitl := hi.itl
  unfold serialCanReceive at hlen
  by_cases hf : d.fifos = true
  · rw [if_pos hf] at hlen ⊢
    unfold uartFifoLength at *
    split_ifs at hlen <;> omega
  · rw [if_neg hf] at hlen ⊢
    by_cases hdr : d.lsr.dr = true
    · rw [if_pos hdr] at hlen
      omega
    · rw [if_neg hdr] at hlen
      refine ⟨?_, by omega⟩
      by_contra hunread
      exact hdr (h.ready.2 (.inl hunread))

theorem right_receiveBreak {d : SerialState} {l : Ledger} (h : Right ⟨d, l⟩) :
    Right ⟨serialReceiveBreak d, { l with brk := true }⟩ ↔ OpSafe ⟨d, l⟩ .receiveBreak := by
  have hfifos : (serialReceiveBreak d).fifos = d.fifos := rfl
  show _ ↔ d.fifos = true ∨ l.unread = [] ∨ l.unread = [0]
  constructor
  · intro h'
    by_cases hf : d.fifos = true
    · exact .inl hf
    · exact .inr (h'.holding (hfifos.trans (Bool.eq_false_iff.2 hf))).2
  · intro hsafe
    refine ⟨h.recv_le, h.xmit_le, h.queue, ?_, iff_of_true rfl (.inr rfl), h.reads, h.writes⟩
    intro hf
    refine ⟨(h.holding hf).1, hsafe.resolve_left ?_⟩
    intro hf'
    exact absurd (hf.symm.trans hf') (by decide)

/-- One operation keeps the data exactly when it meets its condition. -/
theorem right_step {s t : Sys} {op : Op} (h : Right s) (hi : Idle s.dev) (hstep : s.step op = some t) :
    (Right t ↔ OpSafe s op) ∧ (OpSafe s op → Idle t.dev) := by
  cases op with
  | write addr val accepted tiocm =>
    cases hstep
    exact right_write h hi addr val accepted tiocm
  | read addr tiocm =>
    cases hstep
    have hread := right_read h hi addr tiocm
    exact ⟨hread.1, fun _ => hread.2⟩
  | receive buf =>
    dsimp only [Sys.step] at hstep
    split_ifs at hstep with hbuf
    cases hstep
    have hrecv := right_receive h hi hbuf.1 (room_of_canReceive h hi hbuf.1 hbuf.2)
    exact ⟨iff_of_true hrecv.1 trivial, fun _ => hrecv.2⟩
  | receiveBreak =>
    cases hstep
    refine ⟨right_receiveBreak h, fun _ => ?_⟩
    exact ⟨hi.recv, hi.xmit, hi.xmit_count, hi.thre, hi.retry, hi.timer, hi.itl⟩
  | transmitTimer accepted =>
    dsimp only [Sys.step] at hstep
    rw [hi.timer] at hstep
    cases hstep
  | fifoTimeout =>
    cases hstep
    have hview := view_fifoTimeoutInt s.dev
    exact ⟨iff_of_true (h.of_view hview) trivial, fun _ => hi.of_view hview⟩
  | modemPoll tiocm =>
    cases hstep
    have hview := view_serialUpdateMsl tiocm s.dev
    exact ⟨iff_of_true (h.of_view hview) trivial, fun _ => hi.of_view hview⟩

theorem right_init : Right Sys.init := by
  refine ⟨by decide, by decide, fun _ => rfl, fun _ => ⟨rfl, .inl rfl⟩, ?_, rfl, rfl⟩
  show false = true ↔ ([] : List Byte) ≠ [] ∨ false = true
  simp

theorem idle_init : Idle Sys.init.dev :=
  ⟨valid_fifoClear, valid_fifoClear, rfl, rfl, by decide, rfl, by decide⟩

/-- The UART loses and invents no data in a run exactly when every operation of it meets its
condition. -/
theorem serial_data_iff (ops : List Op) :
    (∀ n s, (ops.take n).foldlM Sys.step Sys.init = some s → Right s) ↔ MeetsDone Sys.step OpSafe Sys.init ops := by
  refine foldlM_take_iff_meetsDone_of (P := fun s => Right s ∧ Idle s.dev) (fun s h => h.1) ?_ ?_ ops _ ?_
  · intro s op t hs hstep hsafe
    have hright := right_step hs.1 hs.2 hstep
    exact ⟨hright.1.2 hsafe, hright.2 hsafe⟩
  · intro s op t hs hstep hright
    exact (right_step hs.1 hs.2 hstep).1.1 hright
  · exact ⟨right_init, idle_init⟩

/-- The guest writes a byte, the backend refuses it once, and the byte is neither sent nor held. -/
theorem serial_refused_byte_lost : ¬ ∀ (ops : List Op) (n : ℕ) (s : Sys),
    (ops.take n).foldlM Sys.step Sys.init = some s → Right s := by
  intro h
  have hwrites := (h [.write 0 0x41 false none] 1 _ rfl).writes
  revert hwrites
  decide

end Ar7Qemu.Serial
