import Mathlib.Algebra.Order.Ring.Nat
import Mathlib.Data.List.FinRange
import Mathlib.Data.List.Range
import Mathlib.Tactic.Common

/-! Packets on a VLAN. A client that is given a packet may send packets of its own from its
`fd_read` callback; these are parked until the outermost call drains them. The clients are
numbered as they stand on the list of the VLAN. -/

namespace Ar7Qemu.Net

/-- A packet, with the packets that each client sends from its callback when it is given this
one: the calls that come out of one call are a tree. -/
inductive Packet (n : ℕ) where
  | mk (data : List UInt8) (replies : Fin n → List (Packet n))

def Packet.replies {n : ℕ} : Packet n → Fin n → List (Packet n)
  | .mk _ replies => replies

/-- `VLANPacket`. The packets sent are counted, so that two with the same data are told apart. -/
structure VLANPacket (n : ℕ) where
  seq : ℕ
  sender : Fin n
  packet : Packet n

/-- `VLANState`, with a record of what clients whose link is up have sent and of what each client
has been given. -/
structure VLANState (n : ℕ) where
  sendQueue : List (VLANPacket n)
  delivering : Bool
  sent : List (VLANPacket n)
  received : List (Fin n × VLANPacket n)

def VLANState.init (n : ℕ) : VLANState n := ⟨[], false, [], []⟩

section
variable {n : ℕ} (linkDown : Fin n → Bool)

def qemuDeliverPacket (fdRead : Fin n → Packet n → VLANState n → VLANState n) (p : VLANPacket n)
    (s : VLANState n) : VLANState n :=
  (List.finRange n).foldl (fun s vc =>
    if vc ≠ p.sender ∧ linkDown vc = false then
      fdRead vc p.packet { s with received := s.received ++ [(vc, p)] }
    else s) s

/-- The loop of `qemu_send_packet` over the queue. What a delivery has put in front of the packet
is not on the list any more once the queue is set to the packet's `next`. -/
def drain (fdRead : Fin n → Packet n → VLANState n → VLANState n) : List (VLANPacket n) → VLANState n → VLANState n
  | [], s => s
  | packet :: next, s => drain fdRead next { qemuDeliverPacket linkDown fdRead packet s with sendQueue := next }

/-- `qemu_send_packet`, nested at most `fuel` deep. -/
def qemuSendPacket : ℕ → Fin n → Packet n → VLANState n → VLANState n
  | 0, _, _, s => s
  | fuel + 1, vc, p, s =>
    if linkDown vc then s
    else
      let packet : VLANPacket n := ⟨s.sent.length, vc, p⟩
      let s := { s with sent := s.sent ++ [packet] }
      if s.delivering then { s with sendQueue := packet :: s.sendQueue }
      else
        let fdRead := fun vc (p : Packet n) s => (p.replies vc).foldl (fun s q => qemuSendPacket fuel vc q s) s
        let s := qemuDeliverPacket linkDown fdRead packet { s with delivering := true }
        let s := drain linkDown fdRead s.sendQueue s
        { s with delivering := false }

/-! ### The property and the condition -/

def seqs (l : List (VLANPacket n)) (c : Fin n) : List ℕ := (l.filter fun p => p.sender = c).map VLANPacket.seq

def VLANState.gotFrom (s : VLANState n) (r c : Fin n) : List ℕ :=
  seqs ((s.received.filter fun d => d.1 = r).map Prod.snd) c

/-- Every other client whose link is up has been given what a client has sent, each packet once
and in order, nobody else has, and nothing is left to deliver. -/
structure Right (s : VLANState n) : Prop where
  exact : ∀ r c, s.gotFrom r c = if r ≠ c ∧ linkDown r = false then seqs s.sent c else []
  queue : s.sendQueue = []
  idle : s.delivering = false

/-- The clients that are given a packet of `c`. -/
def receivers (c : Fin n) : List (Fin n) := (List.finRange n).filter fun r => r ≠ c ∧ linkDown r = false

/-- Each client answers the packet with one packet at most, and nobody answers an answer. -/
def AtMostOneReply (c : Fin n) (p : Packet n) : Prop :=
  ∀ r ∈ receivers linkDown c, (p.replies r).length ≤ 1 ∧
    ∀ q ∈ p.replies r, ∀ r' ∈ receivers linkDown r, q.replies r' = []

/-! ### Sends from a callback -/

variable {linkDown} {s : VLANState n}

/-- The packets of a list of calls, counted from `k`. -/
def number : ℕ → List (Fin n × Packet n) → List (VLANPacket n)
  | _, [] => []
  | k, c :: cs => ⟨k, c.1, c.2⟩ :: number (k + 1) cs

@[simp] theorem length_number (k : ℕ) (cs : List (Fin n × Packet n)) : (number k cs).length = cs.length := by
  induction cs generalizing k with
  | nil => rfl
  | cons c cs ih => simp [number, ih]

theorem number_append (k : ℕ) (as bs : List (Fin n × Packet n)) :
    number k (as ++ bs) = number k as ++ number (k + as.length) bs := by
  induction as generalizing k with
  | nil => rfl
  | cons a as ih =>
    simp only [List.cons_append, number, ih, List.length_cons]
    rw [Nat.add_right_comm, Nat.add_assoc]

theorem map_number (k : ℕ) (cs : List (Fin n × Packet n)) :
    (number k cs).map (fun p => (p.sender, p.packet)) = cs := by
  induction cs generalizing k with
  | nil => rfl
  | cons c cs ih => simp [number, ih]

theorem map_sender_number (k : ℕ) (cs : List (Fin n × Packet n)) :
    (number k cs).map VLANPacket.sender = cs.map Prod.fst := by
  conv_rhs => rw [← map_number k cs]
  simp [Function.comp_def]

/-- The state after the calls of a callback. -/
def push (s : VLANState n) (cs : List (Fin n × Packet n)) : VLANState n :=
  { s with sendQueue := (number s.sent.length cs).reverse ++ s.sendQueue
           sent := s.sent ++ number s.sent.length cs }

theorem push_nil : push s [] = s := by
  simp [push, number]

theorem push_push (as bs : List (Fin n × Packet n)) : push (push s as) bs = push s (as ++ bs) := by
  simp [push, number_append]

theorem qemuSendPacket_nested (fuel : ℕ) {vc : Fin n} (p : Packet n) (hlink : linkDown vc = false)
    (hdel : s.delivering = true) : qemuSendPacket linkDown (fuel + 1) vc p s = push s [(vc, p)] := by
  simp [qemuSendPacket, hlink, hdel, push, number]

/-- The `fd_read` callback of the clients. -/
def fdRead (linkDown : Fin n → Bool) (fuel : ℕ) (vc : Fin n) (p : Packet n) (s : VLANState n) : VLANState n :=
  (p.replies vc).foldl (fun s q => qemuSendPacket linkDown fuel vc q s) s

theorem fdRead_eq (fuel : ℕ) {vc : Fin n} (p : Packet n) (hlink : linkDown vc = false)
    (hdel : s.delivering = true) :
    fdRead linkDown (fuel + 1) vc p s = push s ((p.replies vc).map (Prod.mk vc)) := by
  unfold fdRead
  generalize p.replies vc = qs
  induction qs generalizing s with
  | nil => rw [List.foldl_nil, List.map_nil, push_nil]
  | cons q qs ih =>
    rw [List.foldl_cons, qemuSendPacket_nested fuel q hlink hdel, ih (s := push s _) hdel, push_push]
    rfl

/-! ### Deliveries -/

/-- The calls that the clients make when they are given a packet. -/
def calls (linkDown : Fin n → Bool) (c : Fin n) (p : Packet n) : List (Fin n × Packet n) :=
  (receivers linkDown c).flatMap fun r => (p.replies r).map (Prod.mk r)

def deliveries (linkDown : Fin n → Bool) (p : VLANPacket n) : List (Fin n × VLANPacket n) :=
  (receivers linkDown p.sender).map fun r => (r, p)

theorem qemuDeliverPacket_eq (fuel : ℕ) (p : VLANPacket n) (hdel : s.delivering = true) :
    qemuDeliverPacket linkDown (fdRead linkDown (fuel + 1)) p s =
      { push s (calls linkDown p.sender p.packet) with
        received := s.received ++ deliveries linkDown p } := by
  unfold qemuDeliverPacket calls deliveries receivers
  induction List.finRange n generalizing s with
  | nil => simp [push_nil]
  | cons r rs ih =>
    by_cases hr : r ≠ p.sender ∧ linkDown r = false
    · rw [List.foldl_cons, if_pos hr, fdRead_eq (s := { s with received := s.received ++ [(r, p)] }) fuel _ hr.2 hdel,
        ih (s := push { s with received := s.received ++ [(r, p)] } _) hdel,
        List.filter_cons_of_pos (by simpa using hr)]
      simp [push, number_append]
    · rw [List.foldl_cons, if_neg hr, ih hdel, List.filter_cons_of_neg (by simpa using hr)]

/-- Draining delivers the parked packets from the last to the first. What is sent meanwhile is
sent and not delivered. -/
theorem drain_spec (fuel : ℕ) (l : List (VLANPacket n)) (hqueue : s.sendQueue = l) (hdel : s.delivering = true) :
    ∃ later : List (VLANPacket n),
      later.map VLANPacket.sender = (l.flatMap fun p => calls linkDown p.sender p.packet).map Prod.fst ∧
      drain linkDown (fdRead linkDown (fuel + 1)) l s =
        ⟨[], true, s.sent ++ later, s.received ++ l.flatMap (deliveries linkDown)⟩ := by
  induction l generalizing s with
  | nil =>
    cases s
    simp_all [drain]
  | cons p next ih =>
    obtain ⟨t, ht⟩ : ∃ t, t = { qemuDeliverPacket linkDown (fdRead linkDown (fuel + 1)) p s with sendQueue := next } :=
      ⟨_, rfl⟩
    have hdeliver : qemuDeliverPacket linkDown (fdRead linkDown (fuel + 1)) p s = _ := qemuDeliverPacket_eq fuel p hdel
    obtain ⟨later, hsenders, hdrain⟩ := ih (s := t) (by rw [ht]) (by rw [ht, hdeliver]; exact hdel)
    refine ⟨number s.sent.length (calls linkDown p.sender p.packet) ++ later, ?_, ?_⟩
    · rw [List.map_append, map_sender_number, hsenders, List.flatMap_cons, List.map_append]
    · rw [drain, ← ht, hdrain, ht, hdeliver]
      simp [push]

/-- The whole of an outermost call by a client whose link is up. -/
theorem qemuSendPacket_spec (fuel : ℕ) {c : Fin n} (p : Packet n) (hup : linkDown c = false) :
    ∃ later : List (VLANPacket n),
      later.map VLANPacket.sender =
        ((number 1 (calls linkDown c p)).reverse.flatMap fun q => calls linkDown q.sender q.packet).map Prod.fst ∧
      qemuSendPacket linkDown (fuel + 2) c p (VLANState.init n) =
        ⟨[], false, ⟨0, c, p⟩ :: number 1 (calls linkDown c p) ++ later,
          (⟨0, c, p⟩ :: (number 1 (calls linkDown c p)).reverse).flatMap (deliveries linkDown)⟩ := by
  have hdeliver : qemuDeliverPacket linkDown (fdRead linkDown (fuel + 1)) ⟨0, c, p⟩ ⟨[], true, [⟨0, c, p⟩], []⟩ = _ :=
    qemuDeliverPacket_eq fuel _ rfl
  obtain ⟨later, hsenders, hdrain⟩ := @drain_spec n linkDown _ fuel _ rfl
    (show (qemuDeliverPacket linkDown (fdRead linkDown (fuel + 1)) ⟨0, c, p⟩ ⟨[], true, [⟨0, c, p⟩], []⟩).delivering = true
      by rw [hdeliver]; rfl)
  refine ⟨later, ?_, ?_⟩
  · rw [hsenders, hdeliver]
    simp [push]
  · have hsend : qemuSendPacket linkDown (fuel + 2) c p (VLANState.init n) =
        { drain linkDown (fdRead linkDown (fuel + 1))
            (qemuDeliverPacket linkDown (fdRead linkDown (fuel + 1)) ⟨0, c, p⟩ ⟨[], true, [⟨0, c, p⟩], []⟩).sendQueue
            (qemuDeliverPacket linkDown (fdRead linkDown (fuel + 1)) ⟨0, c, p⟩ ⟨[], true, [⟨0, c, p⟩], []⟩) with
          delivering := false } := by
      rw [qemuSendPacket, if_neg (by simp [hup])]
      rfl
    rw [hsend, hdrain, hdeliver]
    simp [push]

/-! ### What a client has been given -/

theorem nodup_receivers (c : Fin n) : (receivers linkDown c).Nodup := (List.nodup_finRange n).filter _

theorem mem_receivers {r c : Fin n} : r ∈ receivers linkDown c ↔ r ≠ c ∧ linkDown r = false := by
  simp [receivers]

/-- What one client has in a list that goes through clients without repetition. -/
theorem filter_flatMap_mk {α : Type*} {rs : List (Fin n)} (h : rs.Nodup) (f : Fin n → List α) (c : Fin n) :
    ((rs.flatMap fun r => (f r).map (Prod.mk r)).filter fun d => d.1 = c).map Prod.snd =
      if c ∈ rs then f c else [] := by
  induction rs with
  | nil => rfl
  | cons r rs ih =>
    obtain ⟨hr, hrs⟩ := List.nodup_cons.1 h
    rw [List.flatMap_cons, List.filter_append, List.map_append, ih hrs]
    by_cases hc : c = r
    · subst hc
      have hall : ((f c).map (Prod.mk c)).filter (fun d => d.1 = c) = (f c).map (Prod.mk c) :=
        List.filter_eq_self.2 (by simp)
      simp [hall, hr]
    · have hnone : ((f r).map (Prod.mk r)).filter (fun d => d.1 = c) = [] :=
        List.filter_eq_nil_iff.2 (by simpa using fun _ _ => Ne.symm hc)
      simp [hnone, hc]

theorem filter_deliveries (p : VLANPacket n) (r : Fin n) :
    ((deliveries linkDown p).filter fun d => d.1 = r).map Prod.snd =
      if r ∈ receivers linkDown p.sender then [p] else [] := by
  have hmap : deliveries linkDown p = (receivers linkDown p.sender).flatMap fun r => [p].map (Prod.mk r) :=
    List.map_eq_flatMap
  rw [hmap]
  exact filter_flatMap_mk (nodup_receivers p.sender) (fun _ => [p]) r

theorem seqs_append (l l' : List (VLANPacket n)) (c : Fin n) : seqs (l ++ l') c = seqs l c ++ seqs l' c := by
  simp [seqs]

theorem seqs_reverse (l : List (VLANPacket n)) (c : Fin n) : seqs l.reverse c = (seqs l c).reverse := by
  simp [seqs]

theorem length_seqs (l : List (VLANPacket n)) (c : Fin n) :
    (seqs l c).length = ((l.map VLANPacket.sender).filter fun s => s = c).length := by
  simp [seqs, List.filter_map, Function.comp_def]

theorem seqs_deliveries (l : List (VLANPacket n)) (r c : Fin n) :
    seqs (((l.flatMap (deliveries linkDown)).filter fun d => d.1 = r).map Prod.snd) c =
      if r ≠ c ∧ linkDown r = false then seqs l c else [] := by
  induction l with
  | nil => simp [seqs]
  | cons p l ih =>
    rw [List.flatMap_cons, List.filter_append, List.map_append, filter_deliveries, seqs_append, ih]
    by_cases hp : p.sender = c
    · simp only [hp, mem_receivers]
      split_ifs with hr
      · simp [seqs, hp]
      · rfl
    · have hnone : seqs (if r ∈ receivers linkDown p.sender then [p] else []) c = [] := by
        split_ifs
        · simp [seqs, hp]
        · rfl
      have hskip : seqs (p :: l) c = seqs l c := by simp [seqs, hp]
      rw [hnone, hskip, List.nil_append]

theorem seqs_number_sorted (k : ℕ) (cs : List (Fin n × Packet n)) (c : Fin n) :
    (seqs (number k cs) c).Pairwise (· < ·) := by
  have hlt : ((number k cs).map VLANPacket.seq).Pairwise (· < ·) := by
    have hseq : (number k cs).map VLANPacket.seq = List.range' k cs.length := by
      induction cs generalizing k with
      | nil => rfl
      | cons d cs ih => simp [number, ih, List.range'_succ]
    rw [hseq]
    exact List.pairwise_lt_range'
  exact hlt.sublist (List.filter_sublist.map _)

theorem length_seqs_calls (k : ℕ) (c r : Fin n) (p : Packet n) :
    (seqs (number k (calls linkDown c p)) r).length = if r ∈ receivers linkDown c then (p.replies r).length else 0 := by
  have hnodup : (receivers linkDown c).Nodup := nodup_receivers c
  have h := congrArg List.length (filter_flatMap_mk hnodup p.replies r)
  rw [List.length_map] at h
  rw [length_seqs, map_sender_number, List.filter_map, List.length_map]
  refine Eq.trans ?_ (h.trans ?_)
  · rfl
  · split_ifs <;> rfl

theorem length_le_one_of_reverse {l : List ℕ} (hsorted : l.Pairwise (· < ·)) (hrev : l.reverse = l) : l.length ≤ 1 := by
  match l with
  | [] => simp
  | [_] => simp
  | a :: b :: l =>
    have hback := List.pairwise_reverse.1 (hrev.symm ▸ hsorted)
    have hab := List.rel_of_pairwise_cons hsorted (List.mem_cons_self)
    have hba := List.rel_of_pairwise_cons hback (List.mem_cons_self)
    omega

theorem reverse_of_length_le_one {l : List ℕ} (h : l.length ≤ 1) : l.reverse = l := by
  match l with
  | [] => rfl
  | [_] => rfl

/-! ### The outermost call -/

/-- Someone answers an answer: a packet is sent that is never delivered. -/
theorem exists_later {c r r' : Fin n} {p q : Packet n} {later : List (VLANPacket n)}
    (hlater : later.map VLANPacket.sender =
      ((number 1 (calls linkDown c p)).reverse.flatMap fun q => calls linkDown q.sender q.packet).map Prod.fst)
    (hr : r ∈ receivers linkDown c) (hq : q ∈ p.replies r) (hr' : r' ∈ receivers linkDown r) (hne : q.replies r' ≠ []) :
    0 < (seqs later r').length := by
  obtain ⟨x, hx⟩ := List.exists_mem_of_ne_nil _ hne
  have hcall : (r, q) ∈ calls linkDown c p := List.mem_flatMap.2 ⟨r, hr, List.mem_map_of_mem hq⟩
  rw [← map_number 1 (calls linkDown c p)] at hcall
  obtain ⟨y, hy, hyq⟩ := List.mem_map.1 hcall
  obtain ⟨rfl, rfl⟩ := Prod.mk.inj hyq
  have hmem : r' ∈ later.map VLANPacket.sender := by
    rw [hlater]
    apply List.mem_map.2 ⟨(r', x), _, rfl⟩
    apply List.mem_flatMap.2 ⟨y, List.mem_reverse.2 hy, _⟩
    exact List.mem_flatMap.2 ⟨r', hr', List.mem_map_of_mem hx⟩
  rw [length_seqs]
  exact List.length_pos_of_mem (List.mem_filter.2 ⟨hmem, by simp⟩)

theorem later_nil {c : Fin n} {p : Packet n} {later : List (VLANPacket n)}
    (hlater : later.map VLANPacket.sender =
      ((number 1 (calls linkDown c p)).reverse.flatMap fun q => calls linkDown q.sender q.packet).map Prod.fst)
    (h : AtMostOneReply linkDown c p) : later = [] := by
  have hnone : ((number 1 (calls linkDown c p)).reverse.flatMap fun q => calls linkDown q.sender q.packet) = [] := by
    apply List.flatMap_eq_nil_iff.2
    intro y hy
    have hcall : (y.sender, y.packet) ∈ calls linkDown c p := by
      rw [← map_number 1 (calls linkDown c p)]
      exact List.mem_map_of_mem (List.mem_reverse.1 hy)
    obtain ⟨r, hr, hyr⟩ := List.mem_flatMap.1 hcall
    obtain ⟨q, hq, hyq⟩ := List.mem_map.1 hyr
    obtain ⟨rfl, rfl⟩ := Prod.mk.inj hyq
    apply List.flatMap_eq_nil_iff.2
    intro r' hr'
    rw [(h _ hr).2 _ hq r' hr', List.map_nil]
  rw [hnone] at hlater
  exact List.map_eq_nil_iff.1 hlater

/-- After the outermost call, what counts is that the answers are the same read backwards and
that none has been lost. -/
theorem right_sent_iff {c : Fin n} {p : Packet n} {l later : List (VLANPacket n)} :
    Right linkDown ⟨[], false, ⟨0, c, p⟩ :: l ++ later, (⟨0, c, p⟩ :: l.reverse).flatMap (deliveries linkDown)⟩ ↔
      ∀ r d, r ≠ d ∧ linkDown r = false → (seqs l d).reverse = seqs l d ++ seqs later d := by
  have hsplit : ∀ d, seqs (⟨0, c, p⟩ :: l ++ later) d = seqs [⟨0, c, p⟩] d ++ (seqs l d ++ seqs later d) := by
    intro d
    rw [← seqs_append, ← seqs_append]
    rfl
  have hback : ∀ d, seqs (⟨0, c, p⟩ :: l.reverse) d = seqs [⟨0, c, p⟩] d ++ (seqs l d).reverse := by
    intro d
    rw [← seqs_reverse, ← seqs_append]
    rfl
  constructor
  · intro h r d hr
    have hexact := h.exact r d
    rw [VLANState.gotFrom, seqs_deliveries, if_pos hr, if_pos hr, hsplit, hback] at hexact
    exact List.append_cancel_left hexact
  · intro h
    refine ⟨fun r d => ?_, rfl, rfl⟩
    rw [VLANState.gotFrom, seqs_deliveries]
    by_cases hr : r ≠ d ∧ linkDown r = false
    · rw [if_pos hr, if_pos hr, hsplit, hback, h r d hr]
    · rw [if_neg hr, if_neg hr]

/-- An outermost call meets the contract of a VLAN exactly when the sender's link is down or no
client answers the packet with more than one packet and no answer is answered. -/
theorem vlan_delivery_iff (linkDown : Fin n → Bool) (fuel : ℕ) (c : Fin n) (p : Packet n) :
    Right linkDown (qemuSendPacket linkDown (fuel + 2) c p (VLANState.init n)) ↔
      linkDown c = true ∨ AtMostOneReply linkDown c p := by
  cases hup : linkDown c with
  | true =>
    have hsame : qemuSendPacket linkDown (fuel + 2) c p (VLANState.init n) = VLANState.init n := by
      rw [qemuSendPacket, if_pos hup]
    rw [hsame]
    exact iff_of_true ⟨by simp [VLANState.init, VLANState.gotFrom, seqs], rfl, rfl⟩ (Or.inl rfl)
  | false =>
    obtain ⟨later, hlater, hsend⟩ := qemuSendPacket_spec fuel p hup
    rw [hsend, right_sent_iff]
    simp only [Bool.false_eq_true, false_or]
    constructor
    · intro h r hr
      have hr' := mem_receivers.1 hr
      refine ⟨?_, fun q hq r' hr'' => ?_⟩
      · -- The sender is given the answers of `r` in the reverse order.
        have hrev := h c r ⟨hr'.1.symm, hup⟩
        have hlen := congrArg List.length hrev
        rw [List.length_reverse, List.length_append] at hlen
        have hnil : seqs later r = [] := List.eq_nil_of_length_eq_zero (by omega)
        rw [hnil, List.append_nil] at hrev
        have hone := length_le_one_of_reverse (seqs_number_sorted 1 _ r) hrev
        rwa [length_seqs_calls, if_pos hr] at hone
      · by_contra hne
        have hpos := exists_later hlater hr hq hr'' hne
        have hlen := congrArg List.length (h r r' ⟨(mem_receivers.1 hr'').1.symm, hr'.2⟩)
        rw [List.length_reverse, List.length_append] at hlen
        omega
    · intro h r d hr
      rw [later_nil hlater h]
      show _ = _ ++ []
      rw [List.append_nil]
      apply reverse_of_length_le_one
      rw [length_seqs_calls]
      split_ifs with hd
      · exact (h d hd).1
      · omega

end

/-- Two answers with no answers. -/
def twoReplies : Packet 2 :=
  .mk [0] fun r => if r = 1 then [.mk [1] fun _ => [], .mk [2] fun _ => []] else []

/-- Client 1 answers with two packets, and client 0 is given the second one first. -/
theorem vlan_replies_reordered : ¬ ∀ (n : ℕ) (linkDown : Fin n → Bool) (fuel : ℕ) (c : Fin n) (p : Packet n),
    Right linkDown (qemuSendPacket linkDown (fuel + 2) c p (VLANState.init n)) := by
  intro h
  have hexact := (h 2 (fun _ => false) 0 0 twoReplies).exact 0 1
  revert hexact
  decide

end Ar7Qemu.Net
