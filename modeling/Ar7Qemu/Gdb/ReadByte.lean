import Ar7Qemu.Gdb.Packet
import Ar7Qemu.Lib.Run

/-! The byte automaton of the GDB stub. While the answer to a packet is not acknowledged, bytes up to
the next start of a packet are swallowed. Otherwise a packet is its start, a body without a `#`, the
`#` and two digits. What the automaton does is compared with the packets that a stream reads as from
left to right. -/

namespace Ar7Qemu.Gdb

open Lib

/-- `enum RSState`. -/
inductive RSState where
  | inactive
  | idle
  | getline
  | chksum1
  | chksum2
  | syscall
  deriving DecidableEq

/-- What the stub does for a byte: the answers to a checksum, the execution of a command, and the
packets that are sent, or sent again. -/
inductive Event where
  | ack
  | nack
  | exec (body : List UInt8)
  | packet (bytes : List UInt8)
  | retransmit (bytes : List UInt8)
  deriving DecidableEq

/-- The part of `GDBState` that the automaton uses, the bytes of `last_packet` that are waiting for an
acknowledgement, and what has been done. The rest of the machine is `world`. -/
structure GDBState (σ : Type*) where
  state : RSState
  lineBuf : Bytes
  lineBufIndex : ℕ
  lineCsum : ℕ
  lastPacket : List UInt8
  world : σ
  log : List Event

/-- The machine behind the stub: whether it runs, what stopping it does, and what a command does; each
of the two returns the packets that are put. -/
structure Machine (σ : Type*) where
  vmRunning : σ → Bool
  vmStop : σ → List (List UInt8) × σ
  handlePacket : List UInt8 → σ → List (List UInt8) × σ

section

variable {σ : Type*} (m : Machine σ)

def putPacketBinary (s : GDBState σ) (buf : List UInt8) : GDBState σ :=
  { s with lastPacket := packetBytes buf, log := s.log ++ [.packet (packetBytes buf)] }

/-- A store to `line_buf`; one outside is a fault. -/
def storeLine (s : GDBState σ) (v : UInt8) : Option (GDBState σ) :=
  if s.lineBufIndex < maxPacketLength then some { s with lineBuf := Function.update s.lineBuf s.lineBufIndex v }
  else none

/-- The `switch` of `gdb_read_byte`; a state that it does not know aborts. -/
def readLine (s : GDBState σ) (ch : UInt8) : Option (GDBState σ) :=
  match s.state with
  | .idle => some (if ch = dollar then { s with lineBufIndex := 0, state := .getline } else s)
  | .getline =>
    if ch = hash then some { s with state := .chksum1 }
    else if maxPacketLength - 1 ≤ s.lineBufIndex then some { s with state := .idle }
    else (storeLine s ch).map fun s => { s with lineBufIndex := s.lineBufIndex + 1 }
  | .chksum1 => (storeLine s 0).map fun s => { s with lineCsum := fromhex ch <<< 4, state := .chksum2 }
  | .chksum2 =>
    let s := { s with lineCsum := s.lineCsum ||| fromhex ch }
    let body := s.lineBuf.taken s.lineBufIndex
    if s.lineCsum ≠ csum body &&& 0xff then some { s with log := s.log ++ [.nack], state := .idle }
    else
      let (packets, world) := m.handlePacket body s.world
      some { packets.foldl putPacketBinary { s with log := s.log ++ [.ack, .exec body], world := world } with state := .idle }
  | .inactive => none
  | .syscall => none

/-- A byte that is not swallowed. A machine that runs is stopped by it. -/
def receive (s : GDBState σ) (ch : UInt8) : Option (GDBState σ) :=
  if m.vmRunning s.world then
    let (packets, world) := m.vmStop s.world
    some (packets.foldl putPacketBinary { s with world := world })
  else readLine m s ch

def gdbReadByte (s : GDBState σ) (ch : UInt8) : Option (GDBState σ) :=
  if s.lastPacket = [] then receive m s ch
  else
    let s := if ch = minus then { s with log := s.log ++ [.retransmit s.lastPacket] } else s
    let s := if ch = plus ∨ ch = dollar then { s with lastPacket := [] } else s
    if ch ≠ dollar then some s else receive m s ch

/-- The bytes of a stream one after the other. -/
def run (s : GDBState σ) (stream : List UInt8) : Option (GDBState σ) := stream.foldlM (gdbReadByte m) s

/-- The machine is stopped whenever a byte of the stream arrives. -/
def Stopped (s : GDBState σ) (stream : List UInt8) : Prop :=
  MeetsM (gdbReadByte m) (fun s _ => m.vmRunning s.world = false) s stream

end

/-! ### What a stream reads as -/

/-- A packet as it is received. -/
structure Frame where
  body : List UInt8
  digit1 : UInt8
  digit2 : UInt8
  deriving DecidableEq

/-- The digits are the sum of the body. -/
def Frame.Valid (f : Frame) : Prop := fromhex f.digit1 * 16 + fromhex f.digit2 = csum f.body % 256

instance (f : Frame) : Decidable f.Valid := inferInstanceAs (Decidable (_ = _))

/-- The packets of a stream, read from left to right. Outside of a packet all bytes up to the next `$`
are skipped. A body ends with the first `#`; one that is longer than the line is dropped with its
first byte too many. -/
inductive Reads : List UInt8 → List Frame → Prop
  | skip {junk : List UInt8} : dollar ∉ junk → Reads junk []
  | frame {junk body rest : List UInt8} {digit1 digit2 : UInt8} {frames : List Frame} :
    dollar ∉ junk → hash ∉ body → body.length < maxPacketLength → Reads rest frames →
      Reads (junk ++ dollar :: (body ++ hash :: digit1 :: digit2 :: rest)) (⟨body, digit1, digit2⟩ :: frames)
  | overlong {junk body rest : List UInt8} {frames : List Frame} :
    dollar ∉ junk → hash ∉ body → body.length = maxPacketLength → Reads rest frames →
      Reads (junk ++ dollar :: (body ++ rest)) frames
  | unfinished {junk body : List UInt8} : dollar ∉ junk → hash ∉ body → body.length < maxPacketLength →
      Reads (junk ++ dollar :: body) []
  | unchecked {junk body digits : List UInt8} : dollar ∉ junk → hash ∉ body → body.length < maxPacketLength →
      digits.length ≤ 1 → Reads (junk ++ dollar :: (body ++ hash :: digits)) []

theorem reads_overlong {junk rest : List UInt8} {frames : List Frame} (hjunk : dollar ∉ junk)
    (hbody : hash ∉ rest.take maxPacketLength) (hlen : maxPacketLength ≤ rest.length)
    (h : Reads (rest.drop maxPacketLength) frames) : Reads (junk ++ dollar :: rest) frames := by
  have hlong := Reads.overlong hjunk hbody (by rw [List.length_take]; omega) h
  rwa [List.take_append_drop] at hlong

/-- Each stream reads as some packets. -/
theorem exists_reads (stream : List UInt8) : ∃ frames, Reads stream frames := by
  induction hn : stream.length using Nat.strong_induction_on generalizing stream with
  | _ n ih =>
    by_cases hdollar : dollar ∈ stream
    · obtain ⟨junk, rest, rfl, hjunk⟩ := List.eq_append_cons_of_mem hdollar
      rw [List.length_append, List.length_cons] at hn
      have hlong : hash ∉ rest.take maxPacketLength → maxPacketLength ≤ rest.length →
          ∃ frames, Reads (junk ++ dollar :: rest) frames := by
        intro hbody hlen
        obtain ⟨frames, h⟩ := ih _ (by rw [List.length_drop]; omega) (rest.drop maxPacketLength) rfl
        exact ⟨frames, reads_overlong hjunk hbody hlen h⟩
      by_cases hhash : hash ∈ rest
      · obtain ⟨body, tail, rfl, hbody⟩ := List.eq_append_cons_of_mem hhash
        rw [List.length_append, List.length_cons] at hn
        rcases Nat.lt_or_ge body.length maxPacketLength with hlt | hge
        · match tail with
          | [] => exact ⟨[], .unchecked hjunk hbody hlt (Nat.zero_le 1)⟩
          | [digit] => exact ⟨[], .unchecked hjunk hbody hlt (Nat.le_refl 1)⟩
          | digit1 :: digit2 :: tail =>
            rw [List.length_cons, List.length_cons] at hn
            obtain ⟨frames, h⟩ := ih _ (by omega) tail rfl
            exact ⟨_, .frame hjunk hbody hlt h⟩
        · have htake : (body ++ hash :: tail).take maxPacketLength = body.take maxPacketLength :=
            List.take_append_of_le_length hge
          apply hlong
          · rw [htake]
            exact fun h => hbody (List.mem_of_mem_take h)
          · rw [List.length_append]
            omega
      · rcases Nat.lt_or_ge rest.length maxPacketLength with hlt | hge
        · exact ⟨[], .unfinished hjunk hhash hlt⟩
        · exact hlong (fun h => hhash (List.mem_of_mem_take h)) hge
    · exact ⟨[], .skip hdollar⟩

/-- A right packet is acknowledged and executed once, another one is refused. -/
def Frame.events (f : Frame) : List Event := if f.Valid then [.ack, .exec f.body] else [.nack]

/-- The events of the automaton, less the packets that are sent. -/
def Event.OfFrame : Event → Bool
  | .ack => true
  | .nack => true
  | .exec _ => true
  | .packet _ => false
  | .retransmit _ => false

/-! ### One byte -/

variable {σ : Type*} {m : Machine σ} {s t : GDBState σ}

def frameEvents (log : List Event) : List Event := log.filter Event.OfFrame

theorem frameEvents_append (log log' : List Event) : frameEvents (log ++ log') = frameEvents log ++ frameEvents log' :=
  List.filter_append ..

theorem foldl_putPacketBinary (packets : List (List UInt8)) (s : GDBState σ) :
    frameEvents (packets.foldl putPacketBinary s).log = frameEvents s.log ∧
      (packets.foldl putPacketBinary s).state = s.state ∧ (packets.foldl putPacketBinary s).lineBufIndex = s.lineBufIndex := by
  induction packets generalizing s with
  | nil => exact ⟨rfl, rfl, rfl⟩
  | cons p packets ih =>
    obtain ⟨hlog, hstate, hindex⟩ := ih (putPacketBinary s p)
    refine ⟨?_, hstate, hindex⟩
    rw [List.foldl_cons, hlog]
    show frameEvents (s.log ++ [.packet (packetBytes p)]) = frameEvents s.log
    rw [frameEvents_append]
    exact List.append_nil _

theorem receive_stopped (h : m.vmRunning s.world = false) (ch : UInt8) : receive m s ch = readLine m s ch := by
  rw [receive, h, if_neg Bool.false_ne_true]

/-- Outside of a packet a byte that starts none is swallowed. -/
theorem gdbReadByte_idle (hidle : s.state = .idle) (hstop : m.vmRunning s.world = false) {ch : UInt8} (hch : ch ≠ dollar) :
    ∃ t, gdbReadByte m s ch = some t ∧ t.state = .idle ∧ frameEvents t.log = frameEvents s.log := by
  unfold gdbReadByte
  by_cases hlast : s.lastPacket = []
  · refine ⟨s, ?_, hidle, rfl⟩
    rw [if_pos hlast, receive_stopped hstop, readLine, hidle]
    simp only [hch, if_false]
  · rw [if_neg hlast]
    dsimp only
    rw [if_pos hch]
    refine ⟨_, rfl, ?_, ?_⟩
    · split_ifs <;> exact hidle
    · have hlog : frameEvents (s.log ++ [.retransmit s.lastPacket]) = frameEvents s.log := by
        rw [frameEvents_append]
        exact List.append_nil _
      split_ifs <;> first | exact hlog | rfl

theorem gdbReadByte_dollar (hidle : s.state = .idle) (hstop : m.vmRunning s.world = false) :
    gdbReadByte m s dollar = some { s with lastPacket := [], lineBufIndex := 0, state := .getline } := by
  have hline : ∀ t : GDBState σ, t.state = .idle → readLine m t dollar = some { t with lineBufIndex := 0, state := .getline } := by
    intro t ht
    rw [readLine, ht]
    simp only [if_true]
  unfold gdbReadByte
  by_cases hlast : s.lastPacket = []
  · rw [if_pos hlast, receive_stopped hstop, hline s hidle, ← hlast]
  · have hminus : dollar ≠ minus := by decide
    rw [if_neg hlast]
    dsimp only
    rw [if_neg hminus, if_pos (Or.inr rfl), if_neg (not_not.2 rfl)]
    exact (receive_stopped (s := { s with lastPacket := [] }) hstop dollar).trans (hline _ hidle)

/-- The stub is in the body of a packet, of which `body` has arrived. -/
structure InLine (s : GDBState σ) (body : List UInt8) : Prop where
  state : s.state = .getline
  last : s.lastPacket = []
  index : s.lineBufIndex = body.length
  line : s.lineBuf.taken body.length = body

theorem gdbReadByte_line {body : List UInt8} (h : InLine s body) (hstop : m.vmRunning s.world = false) {ch : UInt8}
    (hch : ch ≠ hash) (hlen : body.length + 1 < maxPacketLength) :
    ∃ t, gdbReadByte m s ch = some t ∧ InLine t (body ++ [ch]) ∧ t.log = s.log ∧ t.world = s.world := by
  refine ⟨{ s with lineBuf := Function.update s.lineBuf s.lineBufIndex ch, lineBufIndex := s.lineBufIndex + 1 },
    ?_, ⟨h.state, h.last, ?_, ?_⟩, rfl, rfl⟩
  · rw [gdbReadByte, if_pos h.last, receive_stopped hstop, readLine, h.state]
    dsimp only
    rw [if_neg hch, if_neg (by rw [h.index]; omega), storeLine, if_pos (by rw [h.index]; omega)]
    rw [Option.map_some, h.state]
  · rw [List.length_append, List.length_singleton]
    exact congrArg (· + 1) h.index
  · rw [List.length_append, List.length_singleton, h.index, Bytes.taken_update_succ, h.line]

theorem gdbReadByte_overlong {body : List UInt8} (h : InLine s body) (hstop : m.vmRunning s.world = false) {ch : UInt8}
    (hch : ch ≠ hash) (hlen : maxPacketLength ≤ body.length + 1) :
    gdbReadByte m s ch = some { s with state := .idle } := by
  rw [gdbReadByte, if_pos h.last, receive_stopped hstop, readLine, h.state]
  dsimp only
  rw [if_neg hch, if_pos (by rw [h.index]; omega)]

theorem gdbReadByte_hash {body : List UInt8} (h : InLine s body) (hstop : m.vmRunning s.world = false) :
    gdbReadByte m s hash = some { s with state := .chksum1 } := by
  rw [gdbReadByte, if_pos h.last, receive_stopped hstop, readLine, h.state]
  dsimp only
  rw [if_pos rfl]

theorem gdbReadByte_digit1 {body : List UInt8} (h : InLine s body) (hstop : m.vmRunning s.world = false)
    (hlen : body.length < maxPacketLength) (ch : UInt8) :
    gdbReadByte m { s with state := .chksum1 } ch =
      some { s with lineBuf := Function.update s.lineBuf s.lineBufIndex 0, lineCsum := fromhex ch <<< 4, state := .chksum2 } := by
  rw [gdbReadByte, if_pos h.last, receive_stopped (s := { s with state := .chksum1 }) hstop, readLine]
  dsimp only
  rw [storeLine, if_pos (by rw [h.index]; exact hlen)]
  rfl

/-- The second digit: the packet is executed or refused. -/
theorem gdbReadByte_digit2 {body : List UInt8} (h : InLine s body) (hstop : m.vmRunning s.world = false) (d1 d2 : UInt8) :
    ∃ t, gdbReadByte m { s with lineBuf := Function.update s.lineBuf s.lineBufIndex 0, lineCsum := fromhex d1 <<< 4
                                state := .chksum2 } d2 = some t ∧ t.state = .idle ∧
      frameEvents t.log = frameEvents s.log ++ (Frame.mk body d1 d2).events := by
  have hbody : Bytes.taken (Function.update s.lineBuf s.lineBufIndex 0) s.lineBufIndex = body := by
    rw [Bytes.taken_update s.lineBuf (Nat.le_refl _), h.index, h.line]
  have hvalid : (fromhex d1 <<< 4 ||| fromhex d2) = csum body &&& 0xff ↔ (Frame.mk body d1 d2).Valid := by
    have hlow : csum body &&& 0xff = csum body % 256 := Nat.and_two_pow_sub_one_eq_mod _ 8
    rw [hlow, Nat.shiftLeft_eq, Nat.mul_comm, ← Nat.two_pow_add_eq_or_of_lt (fromhex_lt d2), Nat.mul_comm]
    rfl
  rw [gdbReadByte, if_pos h.last, receive_stopped (s := { s with
    lineBuf := Function.update s.lineBuf s.lineBufIndex 0, lineCsum := fromhex d1 <<< 4, state := .chksum2 }) hstop, readLine]
  dsimp only
  rw [hbody]
  unfold Frame.events
  by_cases hok : (Frame.mk body d1 d2).Valid
  · rw [if_neg (not_not.2 (hvalid.2 hok)), if_pos hok]
    refine ⟨_, rfl, rfl, ?_⟩
    dsimp only
    rw [(foldl_putPacketBinary _ _).1, frameEvents_append]
    rfl
  · rw [if_pos (mt hvalid.1 hok), if_neg hok]
    refine ⟨_, rfl, rfl, ?_⟩
    exact frameEvents_append _ _

/-! ### Streams -/

theorem run_cons {ch : UInt8} {stream : List UInt8} (h : gdbReadByte m s ch = some t) :
    run m s (ch :: stream) = run m t stream := by
  rw [run, List.foldlM_cons, h]
  rfl

theorem run_append {as bs : List UInt8} (h : run m s as = some t) : run m s (as ++ bs) = run m t bs := by
  rw [run, List.foldlM_append]
  exact (congrArg (· >>= fun t => bs.foldlM (gdbReadByte m) t) h).trans rfl

theorem Stopped.append {as bs : List UInt8} (h : Stopped m s (as ++ bs)) (hrun : run m s as = some t) : Stopped m t bs :=
  (meetsM_append h).2 t hrun

theorem run_skip {junk : List UInt8} (hidle : s.state = .idle) (hjunk : dollar ∉ junk) (hstop : Stopped m s junk) :
    ∃ t, run m s junk = some t ∧ t.state = .idle ∧ frameEvents t.log = frameEvents s.log := by
  induction junk generalizing s with
  | nil => exact ⟨s, rfl, hidle, rfl⟩
  | cons ch junk ih =>
    have hmem := not_or.1 (mt List.mem_cons.2 hjunk)
    obtain ⟨t, ht, htidle, htlog⟩ := gdbReadByte_idle hidle hstop.1 (Ne.symm hmem.1)
    obtain ⟨u, hu, huidle, hulog⟩ := ih htidle hmem.2 (hstop.2 t ht)
    exact ⟨u, (run_cons ht).trans hu, huidle, hulog.trans htlog⟩

theorem run_line {got body : List UInt8} (h : InLine s got) (hbody : hash ∉ body)
    (hlen : got.length + body.length < maxPacketLength) (hstop : Stopped m s body) :
    ∃ t, run m s body = some t ∧ InLine t (got ++ body) ∧ t.log = s.log := by
  induction body generalizing s got with
  | nil => exact ⟨s, rfl, by rwa [List.append_nil], rfl⟩
  | cons ch body ih =>
    have hmem := not_or.1 (mt List.mem_cons.2 hbody)
    rw [List.length_cons] at hlen
    obtain ⟨t, ht, htline, htlog, -⟩ := gdbReadByte_line h hstop.1 (Ne.symm hmem.1) (by omega)
    obtain ⟨u, hu, huline, hulog⟩ := ih htline hmem.2
      (by rw [List.length_append, List.length_singleton]; omega) (hstop.2 t ht)
    refine ⟨u, (run_cons ht).trans hu, ?_, hulog.trans htlog⟩
    rwa [List.append_assoc, List.singleton_append] at huline

theorem run_start {junk rest : List UInt8} (hidle : s.state = .idle) (hjunk : dollar ∉ junk)
    (hstop : Stopped m s (junk ++ dollar :: rest)) :
    ∃ t, run m s (junk ++ dollar :: rest) = run m t rest ∧ Stopped m t rest ∧ InLine t [] ∧
      frameEvents t.log = frameEvents s.log := by
  obtain ⟨t, ht, htidle, htlog⟩ := run_skip hidle hjunk (meetsM_append hstop).1
  have hdollar := hstop.append ht
  have hstart := gdbReadByte_dollar htidle hdollar.1
  refine ⟨_, (run_append ht).trans (run_cons hstart), hdollar.2 _ hstart, ⟨rfl, rfl, rfl, rfl⟩, htlog⟩

theorem run_body {body rest : List UInt8} (h : InLine s []) (hbody : hash ∉ body) (hlen : body.length < maxPacketLength)
    (hstop : Stopped m s (body ++ hash :: rest)) :
    ∃ t, InLine t body ∧ run m s (body ++ hash :: rest) = run m { t with state := .chksum1 } rest ∧
      Stopped m { t with state := .chksum1 } rest ∧ m.vmRunning t.world = false ∧ t.log = s.log := by
  obtain ⟨t, ht, htline, htlog⟩ := run_line h hbody (by rw [List.length_nil]; omega) (meetsM_append hstop).1
  rw [List.nil_append] at htline
  have hhash := hstop.append ht
  have hend := gdbReadByte_hash htline hhash.1
  exact ⟨t, htline, (run_append ht).trans (run_cons hend), hhash.2 _ hend, hhash.1, htlog⟩

/-- The automaton does for a stream what the packets that it reads as ask for. -/
theorem run_reads {stream : List UInt8} {frames : List Frame} (hreads : Reads stream frames) (hidle : s.state = .idle)
    (hstop : Stopped m s stream) :
    ∃ t, run m s stream = some t ∧ frameEvents t.log = frameEvents s.log ++ frames.flatMap Frame.events := by
  induction hreads generalizing s with
  | skip hjunk =>
    obtain ⟨t, ht, -, htlog⟩ := run_skip hidle hjunk hstop
    exact ⟨t, ht, htlog.trans (List.append_nil _).symm⟩
  | @frame junk body rest d1 d2 frames hjunk hbody hlen _ ih =>
    obtain ⟨t, ht, htstop, htline, htlog⟩ := run_start hidle hjunk hstop
    obtain ⟨u, huline, hu, hustop, hurun, hulog⟩ := run_body htline hbody hlen htstop
    have h1 := gdbReadByte_digit1 huline hurun hlen d1
    have hstop2 := hustop.2 _ h1
    obtain ⟨v, h2, hvidle, hvlog⟩ := gdbReadByte_digit2 huline hurun d1 d2
    obtain ⟨w, hw, hwlog⟩ := ih hvidle (hstop2.2 v h2)
    refine ⟨w, ?_, ?_⟩
    · rw [ht, hu, run_cons h1, run_cons h2, hw]
    · rw [hwlog, hvlog, hulog, htlog, List.flatMap_cons, List.append_assoc]
  | @overlong junk body rest frames hjunk hbody hlen _ ih =>
    obtain ⟨t, ht, htstop, htline, htlog⟩ := run_start hidle hjunk hstop
    obtain ⟨line, ch, rfl⟩ : ∃ line ch, body = line ++ [ch] := by
      rcases List.eq_nil_or_concat body with rfl | ⟨line, ch, rfl⟩
      · cases hlen
      · exact ⟨line, ch, List.concat_eq_append⟩
    rw [List.length_append, List.length_singleton] at hlen
    have hmem := fun h => hbody (List.mem_append.2 h)
    rw [List.append_assoc, List.singleton_append] at ht htstop
    obtain ⟨u, hu, huline, hulog⟩ := run_line htline (fun h => hmem (.inl h)) (by rw [List.length_nil]; omega)
      (meetsM_append htstop).1
    rw [List.nil_append] at huline
    have hustop := htstop.append hu
    have hch : ch ≠ hash := fun h => hmem (.inr (h ▸ List.mem_singleton.2 rfl))
    have hlong := gdbReadByte_overlong huline hustop.1 hch (by omega)
    obtain ⟨w, hw, hwlog⟩ := ih rfl (hustop.2 _ hlong)
    refine ⟨w, ?_, ?_⟩
    · rw [List.append_assoc, List.singleton_append, ht, run_append hu, run_cons hlong, hw]
    · rw [hwlog, hulog, htlog]
  | @unfinished junk body hjunk hbody hlen =>
    obtain ⟨t, ht, htstop, htline, htlog⟩ := run_start hidle hjunk hstop
    obtain ⟨u, hu, -, hulog⟩ := run_line htline hbody (by rw [List.length_nil]; omega) htstop
    refine ⟨u, ht.trans hu, ?_⟩
    rw [hulog, htlog]
    exact (List.append_nil _).symm
  | @unchecked junk body digits hjunk hbody hlen hdigits =>
    obtain ⟨t, ht, htstop, htline, htlog⟩ := run_start hidle hjunk hstop
    obtain ⟨u, huline, hu, hustop, hurun, hulog⟩ := run_body htline hbody hlen htstop
    have hlog : frameEvents u.log = frameEvents s.log ++ [] := by
      rw [hulog, htlog, List.append_nil]
    match digits with
    | [] => exact ⟨_, ht.trans hu, hlog⟩
    | [d1] => exact ⟨_, ht.trans (hu.trans (run_cons (gdbReadByte_digit1 huline hurun hlen d1))), hlog⟩
    | _ :: _ :: _ => exact absurd hdigits (by simp)

/-! ### The line -/

/-- The line is in bounds and the state is one that the automaton knows. -/
structure LineSafe (s : GDBState σ) : Prop where
  index : s.lineBufIndex < maxPacketLength
  active : s.state ≠ .inactive
  noCall : s.state ≠ .syscall

theorem LineSafe.storeLine (h : LineSafe s) (v : UInt8) :
    storeLine s v = some { s with lineBuf := Function.update s.lineBuf s.lineBufIndex v } := if_pos h.index

theorem LineSafe.readLine (h : LineSafe s) (ch : UInt8) : ∃ t, readLine m s ch = some t ∧ LineSafe t := by
  unfold Gdb.readLine
  have hindex := h.index
  cases hstate : s.state with
  | idle =>
    refine ⟨_, rfl, ?_⟩
    split_ifs
    · exact ⟨Nat.zero_lt_succ _, nofun, nofun⟩
    · exact h
  | getline =>
    dsimp only
    split_ifs with hhash hfull
    · exact ⟨_, rfl, hindex, nofun, nofun⟩
    · exact ⟨_, rfl, hindex, nofun, nofun⟩
    · rw [h.storeLine ch]
      refine ⟨_, rfl, ?_, h.active, h.noCall⟩
      show s.lineBufIndex + 1 < maxPacketLength
      omega
  | chksum1 =>
    dsimp only
    rw [h.storeLine 0]
    exact ⟨_, rfl, hindex, nofun, nofun⟩
  | chksum2 =>
    dsimp only
    split_ifs
    · exact ⟨_, rfl, hindex, nofun, nofun⟩
    · refine ⟨_, rfl, ?_, nofun, nofun⟩
      dsimp only
      rw [(foldl_putPacketBinary _ _).2.2]
      exact hindex
  | inactive => exact absurd hstate h.active
  | syscall => exact absurd hstate h.noCall

theorem LineSafe.gdbReadByte (h : LineSafe s) (hstop : m.vmRunning s.world = false) (ch : UInt8) :
    ∃ t, gdbReadByte m s ch = some t ∧ LineSafe t := by
  unfold Gdb.gdbReadByte
  by_cases hlast : s.lastPacket = []
  · rw [if_pos hlast, receive_stopped hstop]
    exact h.readLine ch
  · rw [if_neg hlast]
    dsimp only
    by_cases hch : ch = dollar
    · rw [if_neg (not_not.2 hch), receive_stopped (by split_ifs <;> exact hstop)]
      apply LineSafe.readLine
      split_ifs <;> exact ⟨h.index, h.active, h.noCall⟩
    · rw [if_pos hch]
      refine ⟨_, rfl, ?_⟩
      split_ifs <;> exact ⟨h.index, h.active, h.noCall⟩

/-! ### The packets that are built -/

theorem reads_packetBytes {buf : List UInt8} (hhash : hash ∉ buf) (hlen : buf.length < maxPacketLength) :
    Reads (packetBytes buf) [⟨buf, tohex (csum buf >>> 4 &&& 0xf), tohex (csum buf &&& 0xf)⟩] :=
  .frame List.not_mem_nil hhash hlen (.skip List.not_mem_nil)

theorem valid_packetBytes (buf : List UInt8) :
    (Frame.mk buf (tohex (csum buf >>> 4 &&& 0xf)) (tohex (csum buf &&& 0xf))).Valid := by
  have hdigits := checksum_digits (csum buf)
  have hlow : csum buf &&& 0xff = csum buf % 256 := Nat.and_two_pow_sub_one_eq_mod _ 8
  rw [hlow, Nat.shiftLeft_eq, Nat.mul_comm, ← Nat.two_pow_add_eq_or_of_lt (fromhex_lt _), Nat.mul_comm] at hdigits
  exact hdigits

/-- For every stream that arrives while the machine is stopped, whether a packet is waiting for its
acknowledgement or not, the packets that the stream reads as from left to right are acknowledged and
executed once, or refused; the index of the line stays below its size; and a packet that is built from
at most 4095 bytes without a `#` is accepted. -/
theorem framing_reads (m : Machine σ) (s : GDBState σ) (stream : List UInt8) (hidle : s.state = .idle)
    (hindex : s.lineBufIndex < maxPacketLength) (hstop : Stopped m s stream) :
    (∃ frames, Reads stream frames) ∧
      (∀ frames, Reads stream frames →
        ∃ t, run m s stream = some t ∧ frameEvents t.log = frameEvents s.log ++ frames.flatMap Frame.events) ∧
      (∀ n, ∃ t, run m s (stream.take n) = some t ∧ t.lineBufIndex < maxPacketLength) ∧
      ∀ buf, stream = packetBytes buf → hash ∉ buf → buf.length < maxPacketLength →
        ∃ t, run m s stream = some t ∧ frameEvents t.log = frameEvents s.log ++ [.ack, .exec buf] := by
  refine ⟨exists_reads stream, fun frames hreads => run_reads hreads hidle hstop, fun n => ?_, ?_⟩
  · have hsafe : LineSafe s := ⟨hindex, by rw [hidle]; nofun, by rw [hidle]; nofun⟩
    obtain ⟨t, ht, hts⟩ := foldlM_take_total (fun s ch h hrun => LineSafe.gdbReadByte h hrun ch) stream s hsafe hstop n
    exact ⟨t, ht, hts.index⟩
  · rintro buf rfl hhash hlen
    obtain ⟨t, ht, htlog⟩ := run_reads (reads_packetBytes hhash hlen) hidle hstop
    refine ⟨t, ht, ?_⟩
    rw [htlog, List.flatMap_singleton, Frame.events, if_pos (valid_packetBytes buf)]

/-- A machine that answers each command with `OK`. -/
def answering : Machine Unit := ⟨fun _ => false, fun _ => ([], ()), fun _ _ => ([[0x4f, 0x4b]], ())⟩

def GDBState.init : GDBState Unit := ⟨.idle, fun _ => 0, 0, 0, [], (), []⟩

/-- A command, a request to send its answer again, and the command once more. -/
theorem framing_reads_twice :
    ∃ t, run answering .init ([dollar, 0x67, hash, 0x36, 0x37, minus, plus, dollar, 0x67, hash, 0x36, 0x37]) = some t ∧
      frameEvents t.log = [.ack, .exec [0x67], .ack, .exec [0x67]] := by
  have hreads : Reads [dollar, 0x67, hash, 0x36, 0x37, minus, plus, dollar, 0x67, hash, 0x36, 0x37]
      [⟨[0x67], 0x36, 0x37⟩, ⟨[0x67], 0x36, 0x37⟩] :=
    @Reads.frame [] [0x67] _ _ _ _ (by decide) (by decide) (by decide)
      (@Reads.frame [minus, plus] [0x67] [] _ _ _ (by decide) (by decide) (by decide) (.skip (by decide)))
  exact (framing_reads answering .init _ rfl (by decide) (meetsM_of_forall (fun _ _ _ => rfl) _)).2.1 _ hreads

/-- The packet `$b#62` inside of the body of another one is not executed. -/
theorem framing_inner_packet :
    (Frame.mk [0x62] 0x36 0x32).Valid ∧
      ∃ t, run answering .init ([dollar, 0x61] ++ dollar :: ([0x62] ++ hash :: 0x36 :: 0x32 :: [])) = some t ∧
        frameEvents t.log = [.nack] :=
  ⟨by decide, _, rfl, rfl⟩

end Ar7Qemu.Gdb
