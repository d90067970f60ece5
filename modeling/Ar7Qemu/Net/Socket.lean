import Ar7Qemu.Lib.ByteList
import Ar7Qemu.Lib.Framing

/-! VLAN packets over a stream socket. A packet is sent behind its length in four bytes of network
order. The receiver resumes in the middle of a length or of a packet with whatever `recv` returns,
and puts the parts together in a buffer of 4096 bytes. It is compared with the decoder of such
frames: on each stream it has handed on the same packets, however the stream is cut, and it is
closed where the decoder is dead. -/

namespace Ar7Qemu.Net.Socket

open Lib

/-- `sizeof(s->buf)` and `sizeof(buf1)`. -/
def bufSize : ℕ := 4096

/-! ### Sending -/

/-- The bytes of `htonl`. -/
def htonl (size : ℕ) : List UInt8 := (List.range 4).map (Bytes.beByte 4 size)

/-- `net_socket_receive`: the bytes that go to the socket. -/
def netSocketReceive (buf : List UInt8) : List UInt8 := htonl buf.length ++ buf

/-! ### Receiving -/

/-- `state`. -/
inductive Phase where
  | length
  | data
  deriving DecidableEq

/-- `NetSocketState`, with whether the connection has been closed and the packets that have been
passed to `qemu_send_packet`. -/
structure NetSocketState where
  state : Phase
  index : BitVec 32
  packetLen : BitVec 32
  buf : Bytes
  closed : Bool
  sent : List (List UInt8)

def NetSocketState.init : NetSocketState := ⟨.length, 0, 0, fun _ => 0, false, []⟩

/-- A result of `recv`: an error, which may be `EWOULDBLOCK`, or at most as many bytes as asked for;
no byte is the end of the connection. -/
inductive Recv where
  | error (wouldBlock : Bool)
  | bytes (data : List UInt8) (le : data.length ≤ bufSize)

/-- `memcpy(s->buf + off, src, src.length)`; a byte outside the buffer is a fault. -/
def memcpy (s : NetSocketState) (off : ℕ) (src : List UInt8) : Option NetSocketState :=
  if off + src.length ≤ bufSize then some { s with buf := s.buf.write off src.length fun i => src.getD i 0 }
  else none

/-- One round of the loop on a part that is not empty: the state and what is left of the part. -/
def round (s : NetSocketState) (buf : List UInt8) : Option (NetSocketState × List UInt8) :=
  match s.state with
  | .length =>
    let l := min (4 - s.index).toNat buf.length
    (memcpy s s.index.toNat (buf.take l)).map fun s =>
      let s := { s with index := s.index + BitVec.ofNat 32 l }
      if s.index = 4 then
        ({ s with packetLen := BitVec.ofNat 32 (s.buf.word 4 0), index := 0, state := .data }, buf.drop l)
      else (s, buf.drop l)
  | .data =>
    let l := min (s.packetLen - s.index).toNat buf.length
    if (s.index + BitVec.ofNat 32 l).toNat ≤ bufSize then
      (memcpy s s.index.toNat (buf.take l)).map fun s =>
        let s := { s with index := s.index + BitVec.ofNat 32 l }
        if s.packetLen ≤ s.index then
          ({ s with sent := s.sent ++ [Bytes.taken s.buf s.packetLen.toNat], index := 0, state := .length }, buf.drop l)
        else (s, buf.drop l)
    -- the connection is terminated, and the rest of the part is not looked at
    else some ({ s with state := .length, closed := true }, [])

/-- How many rounds can follow that take nothing. -/
def rank (s : NetSocketState) : ℕ :=
  match s.state with
  | .length => if s.index = 4 then 2 else 0
  | .data => 1

theorem rank_le (s : NetSocketState) : rank s ≤ 2 := by
  unfold rank
  split
  · split <;> omega
  · omega

theorem memcpy_eq {s t : NetSocketState} {off : ℕ} {src : List UInt8} (h : memcpy s off src = some t) :
    off + src.length ≤ bufSize ∧ t = { s with buf := s.buf.write off src.length fun i => src.getD i 0 } := by
  unfold memcpy at h
  split at h
  next hle => exact ⟨hle, (Option.some.inj h).symm⟩
  · cases h

theorem min_sub_pos {a b : BitVec 32} {n : ℕ} (hn : 0 < n) (hne : b ≠ a) : 0 < min (a - b).toNat n := by
  have hdiff : (a - b).toNat ≠ 0 := by
    intro h0
    rw [BitVec.toNat_sub] at h0
    apply hne
    apply BitVec.eq_of_toNat_eq
    have ha := a.isLt
    have hb := b.isLt
    omega
  omega

theorem round_decreases {s t : NetSocketState} {buf rest : List UInt8} (hbuf : buf ≠ []) (h : round s buf = some (t, rest)) :
    3 * rest.length + rank t < 3 * buf.length + rank s := by
  have hlen : 0 < buf.length := List.length_pos_of_ne_nil hbuf
  have ht := rank_le t
  cases hs : s.state with
  | length =>
    simp only [round, hs, Option.map_eq_some_iff] at h
    obtain ⟨u, hu, hres⟩ := h
    obtain ⟨-, rfl⟩ := memcpy_eq hu
    by_cases h4 : s.index = 4
    · have hzero : min (4 - s.index).toNat buf.length = 0 := by
        rw [h4, BitVec.sub_self]
        exact Nat.zero_min _
      have hrank : rank s = 2 := by
        rw [rank, hs]
        exact if_pos h4
      rw [hzero, if_pos ((BitVec.add_zero _).trans h4)] at hres
      cases hres
      rw [hrank]
      exact Nat.lt_succ_self _
    · have hpos := min_sub_pos hlen h4
      have hrest : rest = buf.drop (min (4 - s.index).toNat buf.length) := by
        split at hres <;> exact (congrArg Prod.snd hres).symm
      rw [hrest, List.length_drop]
      omega
  | data =>
    have hrank : rank s = 1 := by rw [rank, hs]
    simp only [round, hs] at h
    split at h
    · rw [Option.map_eq_some_iff] at h
      obtain ⟨u, hu, hres⟩ := h
      obtain ⟨-, rfl⟩ := memcpy_eq hu
      by_cases heq : s.index = s.packetLen
      · have hzero : min (s.packetLen - s.index).toNat buf.length = 0 := by
          rw [heq, BitVec.sub_self]
          exact Nat.zero_min _
        have hend : s.packetLen ≤ s.index + BitVec.ofNat 32 0 := by
          rw [BitVec.add_zero, heq]
          exact BitVec.le_refl _
        rw [hzero, if_pos hend] at hres
        cases hres
        rw [hrank]
        exact Nat.lt_succ_self _
      · have hpos := min_sub_pos hlen heq
        have hrest : rest = buf.drop (min (s.packetLen - s.index).toNat buf.length) := by
          split at hres <;> exact (congrArg Prod.snd hres).symm
        rw [hrest, List.length_drop]
        omega
    · cases h
      rw [List.length_nil]
      omega

def loop (s : NetSocketState) (buf : List UInt8) : Option NetSocketState :=
  if _hbuf : buf = [] then some s
  else
    match _h : round s buf with
    | none => none
    | some (t, rest) => loop t rest
termination_by 3 * buf.length + rank s
decreasing_by exact round_decreases _hbuf _h

def netSocketSend (s : NetSocketState) : Recv → Option NetSocketState
  | .error wouldBlock => some (if wouldBlock then s else { s with closed := true })
  | .bytes data _ => if data = [] then some { s with closed := true } else loop s data

/-- The calls of the handler, which is gone once the connection is closed. -/
def run (s : NetSocketState) : List Recv → Option NetSocketState
  | [] => some s
  | r :: recvs => if s.closed then some s else (netSocketSend s r).bind fun s => run s recvs

theorem loop_nil (s : NetSocketState) : loop s [] = some s := by
  rw [loop, dif_pos rfl]

theorem loop_of_ne {s : NetSocketState} {buf : List UInt8} (hbuf : buf ≠ []) :
    loop s buf = (round s buf).bind fun r => loop r.1 r.2 := by
  rw [loop, dif_neg hbuf]
  split
  next h => rw [h, Option.bind_none]
  next h => rw [h, Option.bind_some]

/-! ### The decoder -/

/-- The frames on the socket: four bytes of length, at most 4096 of data. -/
def packets : Framing UInt8 := ⟨4, Nat.zero_lt_succ 3, fun hd => Bytes.word (fun i => hd.getD i 0) 4 0, bufSize⟩

/-- The receiver is where the decoder is. -/
def Holds (s : NetSocketState) : Framing.Decoder UInt8 → Prop
  | .header got => s.closed = false ∧ s.state = .length ∧ s.index.toNat = got.length ∧ got.length < 4 ∧
      Bytes.taken s.buf got.length = got
  | .body n got => s.closed = false ∧ s.state = .data ∧ s.packetLen.toNat = n ∧ s.index.toNat = got.length ∧
      got.length ≤ bufSize ∧ got.length ≤ n ∧ (got.length = n → n = 0) ∧ Bytes.taken s.buf got.length = got
  | .dead => s.closed = true

theorem holds_init : Holds .init (.header []) := ⟨rfl, rfl, rfl, Nat.zero_lt_succ 3, rfl⟩

theorem memcpy_ok (s : NetSocketState) {off : ℕ} {src : List UInt8} (h : off + src.length ≤ bufSize) :
    memcpy s off src = some { s with buf := s.buf.write off src.length fun i => src.getD i 0 } := if_pos h

theorem word_taken (buf : Bytes) : Bytes.word (fun i => (Bytes.taken buf 4).getD i 0) 4 0 = buf.word 4 0 := by
  apply Bytes.word_congr
  intro i hi
  rw [Nat.zero_add]
  simp [Bytes.taken, hi]

/-! ### One round -/

/-- A round takes a part of the bytes as the decoder does. -/
def RoundFollows (s : NetSocketState) (d : Framing.Decoder UInt8) (buf : List UInt8) : Prop :=
  ∃ t rest d' frames, round s buf = some (t, rest) ∧ Holds t d' ∧ (d' = .dead → rest = []) ∧
    t.sent = s.sent ++ frames ∧
      packets.feedAll d buf = ((packets.feedAll d' rest).1, frames ++ (packets.feedAll d' rest).2)

theorem follows_take {d d' : Framing.Decoder UInt8} {frames : List (List UInt8)} {buf : List UInt8} {l : ℕ}
    (h : packets.feedAll d (buf.take l) = (d', frames)) :
    packets.feedAll d buf =
      ((packets.feedAll d' (buf.drop l)).1, frames ++ (packets.feedAll d' (buf.drop l)).2) := by
  conv_lhs => rw [← List.take_append_drop l buf, Framing.feedAll_append, h]

theorem take_ne_nil {buf : List UInt8} {l : ℕ} (hl : 0 < l) (hbuf : buf ≠ []) : buf.take l ≠ [] := by
  rw [ne_eq, List.take_eq_nil_iff]
  rintro (h | h)
  · omega
  · exact hbuf h

theorem toNat_index {index : BitVec 32} {a l : ℕ} (hindex : index.toNat = a) (hlt : a + l < 2 ^ 32) :
    (index + BitVec.ofNat 32 l).toNat = a + l := by
  rw [BitVec.toNat_add, BitVec.toNat_ofNat, hindex, Nat.add_mod_mod, Nat.mod_eq_of_lt hlt]

theorem toNat_missing {a b : BitVec 32} (h : b.toNat ≤ a.toNat) : (a - b).toNat = a.toNat - b.toNat := by
  have ha := a.isLt
  rw [BitVec.toNat_sub]
  omega

theorem round_header {s : NetSocketState} {got buf : List UInt8} (h : Holds s (.header got)) (hbuf : buf ≠ []) :
    RoundFollows s (.header got) buf := by
  obtain ⟨hclosed, hstate, hindex, hgot, htaken⟩ := h
  have hlen : 0 < buf.length := List.length_pos_of_ne_nil hbuf
  have hmissing : (4 - s.index).toNat = 4 - got.length := by
    rw [toNat_missing (by rw [hindex]; exact Nat.le_of_lt hgot), hindex]
    rfl
  generalize hl : min (4 - got.length) buf.length = l
  have htake : (buf.take l).length = l := by
    rw [List.length_take]
    omega
  have hindex' : (s.index + BitVec.ofNat 32 l).toNat = got.length + l := toNat_index hindex (by omega)
  have hbuf' := @Bytes.taken_write _ _ (buf.take l) htaken
  rw [htake] at hbuf'
  have hround : round s buf = some
      (if s.index + BitVec.ofNat 32 l = 4 then
        ({ s with packetLen := BitVec.ofNat 32 ((s.buf.write got.length l fun i => (buf.take l).getD i 0).word 4 0)
                  index := 0, state := .data, buf := s.buf.write got.length l fun i => (buf.take l).getD i 0 }, buf.drop l)
      else ({ s with index := s.index + BitVec.ofNat 32 l
                     buf := s.buf.write got.length l fun i => (buf.take l).getD i 0 }, buf.drop l)) := by
    rw [round, hstate]
    simp only [hmissing, hl]
    rw [memcpy_ok s (by rw [hindex, htake]; show _ ≤ 4096; omega), Option.map_some, hindex, htake]
    simp only [hstate]
  by_cases h4 : got.length + l = 4
  · have heq : s.index + BitVec.ofNat 32 l = 4 := BitVec.eq_of_toNat_eq (hindex'.trans h4)
    rw [if_pos heq] at hround
    rw [h4] at hbuf'
    refine ⟨_, _, .body (packets.size (got ++ buf.take l)) [], [], hround, ?_, nofun, (List.append_nil _).symm, ?_⟩
    · refine ⟨hclosed, rfl, ?_, rfl, Nat.zero_le _, Nat.zero_le _, fun h => h.symm, rfl⟩
      rw [← hbuf']
      show (BitVec.ofNat 32 _).toNat = Bytes.word _ 4 0
      rw [word_taken, BitVec.toNat_ofNat]
      exact Nat.mod_eq_of_lt (Bytes.word_lt _ 4 0)
    · exact follows_take (Framing.feedAll_header_eq (take_ne_nil (by omega) hbuf) (by rw [htake]; exact h4))
  · have hne : s.index + BitVec.ofNat 32 l ≠ 4 := fun h => h4 (hindex'.symm.trans (congrArg BitVec.toNat h))
    rw [if_neg hne] at hround
    refine ⟨_, _, .header (got ++ buf.take l), [], hround, ?_, nofun, (List.append_nil _).symm, ?_⟩
    · refine ⟨hclosed, hstate, ?_, ?_, ?_⟩
      · rw [List.length_append, htake]
        exact hindex'
      · rw [List.length_append, htake]
        omega
      · rw [List.length_append, htake]
        exact hbuf'
    · exact follows_take (Framing.feedAll_header_lt (by rw [htake]; show _ < 4; omega))

theorem round_body {s : NetSocketState} {n : ℕ} {got buf : List UInt8} (h : Holds s (.body n got)) (hbuf : buf ≠ []) :
    RoundFollows s (.body n got) buf := by
  obtain ⟨hclosed, hstate, hn, hindex, hgot, hle, hempty, htaken⟩ := h
  have hlen : 0 < buf.length := List.length_pos_of_ne_nil hbuf
  have hn32 : n < 2 ^ 32 := hn ▸ s.packetLen.isLt
  have hmissing : (s.packetLen - s.index).toNat = n - got.length := by
    rw [toNat_missing (by rw [hindex, hn]; exact hle), hindex, hn]
  generalize hl : min (n - got.length) buf.length = l
  have htake : (buf.take l).length = l := by
    rw [List.length_take]
    omega
  have hindex' : (s.index + BitVec.ofNat 32 l).toNat = got.length + l := toNat_index hindex (by omega)
  by_cases hfit : got.length + l ≤ bufSize
  · have hbuf' := @Bytes.taken_write _ _ (buf.take l) htaken
    rw [htake] at hbuf'
    have hround : round s buf = some
        (if s.packetLen ≤ s.index + BitVec.ofNat 32 l then
          ({ s with sent := s.sent ++ [Bytes.taken (s.buf.write got.length l fun i => (buf.take l).getD i 0) s.packetLen.toNat]
                    index := 0, state := .length, buf := s.buf.write got.length l fun i => (buf.take l).getD i 0 },
            buf.drop l)
        else ({ s with index := s.index + BitVec.ofNat 32 l
                       buf := s.buf.write got.length l fun i => (buf.take l).getD i 0 }, buf.drop l)) := by
      rw [round, hstate]
      simp only [hmissing, hl]
      rw [if_pos (by rw [hindex']; exact hfit), memcpy_ok s (by rw [hindex, htake]; exact hfit), Option.map_some,
        hindex, htake]
      simp only [hstate]
    have hend : s.packetLen ≤ s.index + BitVec.ofNat 32 l ↔ got.length + l = n := by
      rw [BitVec.le_def, hindex', hn]
      omega
    by_cases hall : got.length + l = n
    · rw [if_pos (hend.2 hall), hn, ← hall, hbuf'] at hround
      refine ⟨_, _, .header [], [got ++ buf.take l], hround, ⟨hclosed, rfl, rfl, Nat.zero_lt_succ 3, rfl⟩, nofun, rfl, ?_⟩
      rcases Nat.eq_zero_or_pos l with rfl | hpos
      · -- an empty packet is passed on before a byte is taken
        have hzero : n = 0 := hempty (by omega)
        have hnil : got = [] := List.length_eq_zero_iff.1 (by omega)
        subst hzero hnil
        rw [List.drop_zero, Framing.feedAll_empty hbuf]
        rfl
      · exact follows_take (Framing.feedAll_body_eq (take_ne_nil hpos hbuf) (by rw [htake]; exact hall)
          (by rw [← hall]; exact hfit))
    · rw [if_neg (mt hend.1 hall)] at hround
      refine ⟨_, _, .body n (got ++ buf.take l), [], hround, ?_, nofun, (List.append_nil _).symm, ?_⟩
      · refine ⟨hclosed, hstate, hn, ?_, ?_⟩
        · rw [List.length_append, htake]
          exact hindex'
        · rw [List.length_append, htake]
          exact ⟨hfit, by omega, by omega, hbuf'⟩
      · exact follows_take (Framing.feedAll_body_lt (by rw [htake]; omega) (by rw [htake]; exact hfit))
  · have hround : round s buf = some ({ s with state := .length, closed := true }, []) := by
      rw [round, hstate]
      simp only [hmissing, hl]
      rw [if_neg (by rw [hindex']; exact hfit)]
    refine ⟨_, _, .dead, [], hround, rfl, fun _ => rfl, (List.append_nil _).symm, ?_⟩
    have hlimit : packets.limit = bufSize := rfl
    rw [Framing.feedAll_body_gt (by omega) hgot (by omega)]
    rfl

theorem round_follows {s : NetSocketState} {d : Framing.Decoder UInt8} {buf : List UInt8} (h : Holds s d) (hd : d ≠ .dead)
    (hbuf : buf ≠ []) : RoundFollows s d buf := by
  cases d with
  | header got => exact round_header h hbuf
  | body n got => exact round_body h hbuf
  | dead => exact absurd rfl hd

/-! ### Parts and runs -/

/-- A part is taken as by the decoder, without a fault. -/
theorem loop_spec {s : NetSocketState} {d : Framing.Decoder UInt8} {buf : List UInt8} (h : Holds s d)
    (hd : d = .dead → buf = []) :
    ∃ t, loop s buf = some t ∧ Holds t (packets.feedAll d buf).1 ∧ t.sent = s.sent ++ (packets.feedAll d buf).2 := by
  induction hm : 3 * buf.length + rank s using Nat.strong_induction_on generalizing s d buf with
  | _ m ih =>
    by_cases hbuf : buf = []
    · subst hbuf
      exact ⟨s, loop_nil s, h, (List.append_nil _).symm⟩
    · obtain ⟨t, rest, d', frames, hround, ht, hdead, hsent, hfeed⟩ := round_follows h (mt hd hbuf) hbuf
      obtain ⟨u, hu, hholds, husent⟩ := ih _ (hm ▸ round_decreases hbuf hround) ht hdead rfl
      refine ⟨u, ?_, ?_, ?_⟩
      · rw [loop_of_ne hbuf, hround]
        exact hu
      · rw [hfeed]
        exact hholds
      · rw [husent, hsent, hfeed, List.append_assoc]

/-- The result does not end the connection. -/
def Recv.Continues : Recv → Prop
  | .error wouldBlock => wouldBlock = true
  | .bytes data _ => data ≠ []

def arrived : List Recv → List UInt8
  | [] => []
  | .error wouldBlock :: recvs => if wouldBlock then arrived recvs else []
  | .bytes data _ :: recvs => if data = [] then [] else data ++ arrived recvs

/-- Every run passes on what the decoder does; it is closed where the decoder is dead, and only there
if the connection does not end. -/
theorem run_spec {s : NetSocketState} {d : Framing.Decoder UInt8} (h : Holds s d) (recvs : List Recv) :
    ∃ t, run s recvs = some t ∧ t.sent = s.sent ++ (packets.feedAll d (arrived recvs)).2 ∧
      ((packets.feedAll d (arrived recvs)).1 = .dead → t.closed = true) ∧
        ((∀ r ∈ recvs, r.Continues) → Holds t (packets.feedAll d (arrived recvs)).1) := by
  induction recvs generalizing s d with
  | nil => exact ⟨s, rfl, (List.append_nil _).symm, fun hdead => by rw [arrived, Framing.feedAll_nil] at hdead; subst hdead; exact h,
      fun _ => h⟩
  | cons r recvs ih =>
    by_cases hclosed : s.closed = true
    · have hdead : d = .dead := by
        cases d with
        | header got => exact absurd (h.1.symm.trans hclosed) Bool.false_ne_true
        | body n got => exact absurd (h.1.symm.trans hclosed) Bool.false_ne_true
        | dead => rfl
      subst hdead
      rw [Framing.feedAll_dead]
      exact ⟨s, by rw [run, if_pos hclosed], (List.append_nil _).symm, fun _ => hclosed, fun _ => h⟩
    · have hd : d ≠ .dead := by
        rintro rfl
        exact hclosed h
      have hend : ∃ t, run { s with closed := true } recvs = some t ∧ t.sent = s.sent ∧ t.closed = true := by
        cases recvs <;> exact ⟨{ s with closed := true }, rfl, rfl, rfl⟩
      cases r with
      | error wouldBlock =>
        cases wouldBlock with
        | false =>
          obtain ⟨t, ht, hsent, htc⟩ := hend
          refine ⟨t, ?_, hsent.trans (List.append_nil _).symm, fun _ => htc, fun hall => ?_⟩
          · rw [run, if_neg hclosed]
            exact ht
          · exact absurd (hall _ List.mem_cons_self) Bool.false_ne_true
        | true =>
          obtain ⟨t, ht, hsent, hdead, hholds⟩ := ih h
          refine ⟨t, ?_, hsent, hdead, fun hall => hholds fun r hr => hall r (List.mem_cons_of_mem _ hr)⟩
          rw [run, if_neg hclosed]
          exact ht
      | bytes data le =>
        by_cases hdata : data = []
        · obtain ⟨t, ht, hsent, htc⟩ := hend
          have harrived : arrived (.bytes data le :: recvs) = [] := if_pos hdata
          rw [harrived]
          refine ⟨t, ?_, hsent.trans (List.append_nil _).symm, fun _ => htc, fun hall => ?_⟩
          · rw [run, if_neg hclosed, netSocketSend, if_pos hdata]
            exact ht
          · exact absurd hdata (hall _ List.mem_cons_self)
        · obtain ⟨u, hu, hholds, husent⟩ := loop_spec h (fun hdead => absurd hdead hd : d = .dead → data = [])
          obtain ⟨t, ht, hsent, hdead, htholds⟩ := ih hholds
          have harrived : arrived (.bytes data le :: recvs) = data ++ arrived recvs := if_neg hdata
          rw [harrived, Framing.feedAll_append]
          refine ⟨t, ?_, ?_, hdead, fun hall => htholds fun r hr => hall r (List.mem_cons_of_mem _ hr)⟩
          · rw [run, if_neg hclosed, netSocketSend, if_neg hdata, hu]
            exact ht
          · rw [hsent, husent, List.append_assoc]

/-! ### Frames on the socket -/

theorem htonl_announces {n : ℕ} (hn : n < 2 ^ 32) : packets.Announces (htonl n) n := by
  refine ⟨rfl, ?_⟩
  have hword : Bytes.word (fun i => (htonl n).getD i 0) 4 0 = Bytes.beVal (Bytes.beByte 4 n) 4 := by
    apply Bytes.beVal_congr
    intro i hi
    rw [Bytes.drop_apply, Nat.zero_add]
    simp [htonl, hi]
  exact hword.trans (Bytes.beVal_beByte hn)

theorem feedAll_packets {frames : List (List UInt8)} (hframes : ∀ f ∈ frames, f.length ≤ bufSize) {rest : List UInt8}
    (hrest : (∀ f ∈ frames, f ≠ []) ∨ rest ≠ []) :
    packets.feedAll (.header []) (frames.flatMap netSocketReceive ++ rest) =
      ((packets.feedAll (.header []) rest).1, frames ++ (packets.feedAll (.header []) rest).2) := by
  refine @Framing.feedAll_frames _ packets (fun f => htonl f.length) _ (fun f hf => ?_) hframes _ hrest
  have hle : f.length ≤ 4096 := hframes f hf
  exact htonl_announces (by omega)

/-- Of a packet that is too large nothing is passed on, and its first byte above the limit is the end. -/
theorem feedAll_oversized {n : ℕ} (hn : bufSize < n) (hn32 : n < 2 ^ 32) (body : List UInt8) :
    (packets.feedAll (.header []) (htonl n ++ body)).2 = [] ∧
      (bufSize < body.length → (packets.feedAll (.header []) (htonl n ++ body)).1 = .dead) := by
  have hlimit : packets.limit = bufSize := rfl
  have hheader := @Framing.feedAll_header_eq _ packets [] _ (htonl_announces hn32).ne_nil
    (by rw [List.length_nil, Nat.zero_add]; exact (htonl_announces hn32).length)
  rw [List.nil_append, (htonl_announces hn32).size] at hheader
  rw [Framing.feedAll_append, hheader]
  rcases Nat.lt_or_ge bufSize body.length with hlt | hge
  · rw [Framing.feedAll_body_gt (by omega) (Nat.zero_le _) (by rw [List.length_nil]; omega)]
    exact ⟨rfl, fun _ => rfl⟩
  · rw [Framing.feedAll_body_lt (by rw [List.length_nil]; omega) (by rw [List.length_nil]; omega)]
    exact ⟨rfl, fun h => absurd h (by omega)⟩

/-- Packets of 1 to 4096 bytes that are sent arrive as they were sent, however the stream is cut and
with whatever `EWOULDBLOCK` in between. On any stream nothing is stored outside the buffer, and of a
packet that is too large nothing is passed on: the connection is closed as soon as more of it arrives
than the buffer holds. -/
theorem socket_round_trip :
    (∀ (frames : List (List UInt8)) (recvs : List Recv), (∀ f ∈ frames, 1 ≤ f.length ∧ f.length ≤ bufSize) →
        (∀ r ∈ recvs, r.Continues) → arrived recvs = frames.flatMap netSocketReceive →
        ∃ t, run .init recvs = some t ∧ t.sent = frames ∧ t.closed = false) ∧
      ∀ recvs : List Recv, ∃ t, run .init recvs = some t ∧
        ∀ (frames : List (List UInt8)) (n : ℕ) (body : List UInt8), (∀ f ∈ frames, f.length ≤ bufSize) →
          bufSize < n → n < 2 ^ 32 → arrived recvs = frames.flatMap netSocketReceive ++ (htonl n ++ body) →
          t.sent = frames ∧ (bufSize < body.length → t.closed = true) := by
  constructor
  · intro frames recvs hframes hrecvs hstream
    obtain ⟨t, ht, hsent, -, hholds⟩ := run_spec holds_init recvs
    have hne : ∀ f ∈ frames, f ≠ [] := fun f hf => List.ne_nil_of_length_pos (hframes f hf).1
    have hfeed := @feedAll_packets frames (fun f hf => (hframes f hf).2) [] (.inl hne)
    rw [List.append_nil, Framing.feedAll_nil, List.append_nil] at hfeed
    rw [hstream, hfeed] at hsent hholds
    exact ⟨t, ht, hsent, (hholds hrecvs).1⟩
  · intro recvs
    obtain ⟨t, ht, hsent, hdead, -⟩ := run_spec holds_init recvs
    refine ⟨t, ht, fun frames n body hframes hn hn32 hstream => ?_⟩
    have hrest : htonl n ++ body ≠ [] := fun hnil =>
      (htonl_announces hn32).ne_nil (List.append_eq_nil_iff.1 hnil).1
    obtain ⟨hnone, hend⟩ := feedAll_oversized hn hn32 body
    rw [hstream, feedAll_packets hframes (.inr hrest)] at hsent hdead
    rw [hnone, List.append_nil] at hsent
    exact ⟨hsent, fun hbody => hdead (hend hbody)⟩

/-- Two packets, cut in the middle of a length and of a packet. -/
theorem socket_round_trip_two :
    ∃ t, run .init [.bytes [0, 0] (by decide), .error true, .bytes [0, 2, 7] (by decide),
        .bytes [8, 0, 0, 0, 1, 9] (by decide)] = some t ∧ t.sent = [[7, 8], [9]] ∧ t.closed = false := by
  refine socket_round_trip.1 [[7, 8], [9]] _ (by decide) ?_ (by decide)
  simp [Recv.Continues]

end Ar7Qemu.Net.Socket
