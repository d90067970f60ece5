import Ar7Qemu.Net.Vlan
import Mathlib.Data.List.TakeDrop

/-! A packet that is sent from several buffers. `qemu_sendv_packet` is a delivery of its own beside
that of `qemu_send_packet`: it checks the links itself, gathers the elements in a buffer of 4096
bytes for a client without `fd_readv`, and returns the largest of the lengths that the clients took.
It is compared with `qemu_send_packet` of the elements in one buffer. -/

namespace Ar7Qemu.Net

/-- An array of `struct iovec`: the bytes of each element. -/
abbrev Iov := List (List UInt8)

def calcIovLength (iov : Iov) : ℕ := iov.foldl (fun offset e => offset + e.length) 0

/-- The size of the buffer of `vc_sendv_compat`. -/
def compatSize : ℕ := 4096

/-- The buffer that `vc_sendv_compat` gathers, whose length is what it returns. -/
def vcSendvCompat (iov : Iov) : List UInt8 :=
  iov.foldl (fun buffer e => buffer ++ e.take (min (compatSize - buffer.length) e.length)) []

section

variable {n : ℕ} (linkDown : Fin n → Bool) (fdReadv : Fin n → Option (Iov → ℤ))

/-- One round of `qemu_sendv_packet`: who has been given what, and the largest length. Each client has
an `fd_read`, so the length that is set for a link that is down is set again. -/
def sendvRound (vc1 : Fin n) (iov : Iov) (s : List (Fin n × List UInt8) × ℤ) (vc : Fin n) :
    List (Fin n × List UInt8) × ℤ :=
  if vc = vc1 then s
  else
    match fdReadv vc with
    | some readv => (s.1 ++ [(vc, iov.flatten)], max s.2 (readv iov))
    | none => (s.1 ++ [(vc, vcSendvCompat iov)], max s.2 (vcSendvCompat iov).length)

/-- `qemu_sendv_packet`, with what the `fd_readv` callbacks return. -/
def qemuSendvPacket (vc1 : Fin n) (iov : Iov) : List (Fin n × List UInt8) × ℤ :=
  if linkDown vc1 then ([], calcIovLength iov)
  else (List.finRange n).foldl (sendvRound fdReadv vc1 iov) ([], 0)

/-- Who is given what of the packet by `qemu_send_packet`, whatever the clients send when they are
given it. -/
def flatDeliveries (fuel : ℕ) (vc1 : Fin n) (data : List UInt8) (replies : Fin n → List (Packet n)) :
    List (Fin n × List UInt8) :=
  ((qemuSendPacket linkDown (fuel + 2) vc1 (.mk data replies) (VLANState.init n)).received.filter
    fun d => d.2.seq = 0).map fun d => (d.1, data)

/-- The lengths that the other clients take are at most the length of the packet, and one takes all. -/
def TakesAll (vc1 : Fin n) (iov : Iov) : Prop :=
  (∀ vc ≠ vc1, ∀ readv, fdReadv vc = some readv → readv iov ≤ iov.flatten.length) ∧
    (iov.flatten.length = 0 ∨
      ∃ vc ≠ vc1, fdReadv vc = none ∨ ∃ readv, fdReadv vc = some readv ∧ readv iov = iov.flatten.length)

end

/-! ### The buffers -/

theorem calcIovLength_eq (iov : Iov) : calcIovLength iov = iov.flatten.length := by
  have hfold : ∀ k, iov.foldl (fun offset e => offset + e.length) k = k + iov.flatten.length := by
    induction iov with
    | nil => exact fun k => rfl
    | cons e iov ih =>
      intro k
      rw [List.foldl_cons, ih, List.flatten_cons, List.length_append, Nat.add_assoc]
  exact (hfold 0).trans (Nat.zero_add _)

theorem vcSendvCompat_eq (iov : Iov) : vcSendvCompat iov = iov.flatten.take compatSize := by
  have hfold : ∀ buffer : List UInt8,
      iov.foldl (fun buffer e => buffer ++ e.take (min (compatSize - buffer.length) e.length)) buffer =
        buffer ++ iov.flatten.take (compatSize - buffer.length) := by
    induction iov with
    | nil => simp
    | cons e iov ih =>
      intro buffer
      rw [List.foldl_cons, ih, List.flatten_cons, List.take_append, List.append_assoc, List.length_append,
        List.length_take, ← List.take_take, List.take_length]
      congr 3
      omega
  exact (hfold []).trans (by rw [List.nil_append, List.length_nil, Nat.sub_zero])

/-! ### The loop -/

variable {n : ℕ} {linkDown : Fin n → Bool} {fdReadv : Fin n → Option (Iov → ℤ)} {vc1 : Fin n} {iov : Iov}

def given (fdReadv : Fin n → Option (Iov → ℤ)) (iov : Iov) (vc : Fin n) : List UInt8 :=
  if (fdReadv vc).isSome then iov.flatten else iov.flatten.take compatSize

def takenBy (fdReadv : Fin n → Option (Iov → ℤ)) (iov : Iov) (vc : Fin n) : ℤ :=
  (fdReadv vc).elim (iov.flatten.take compatSize).length fun readv => readv iov

theorem foldl_sendvRound (vcs : List (Fin n)) (s : List (Fin n × List UInt8) × ℤ) :
    vcs.foldl (sendvRound fdReadv vc1 iov) s =
      (s.1 ++ (vcs.filter (· ≠ vc1)).map fun vc => (vc, given fdReadv iov vc),
        ((vcs.filter (· ≠ vc1)).map (takenBy fdReadv iov)).foldl max s.2) := by
  induction vcs generalizing s with
  | nil => simp
  | cons vc vcs ih =>
    rw [List.foldl_cons, ih]
    by_cases hvc : vc = vc1
    · rw [sendvRound, if_pos hvc, List.filter_cons_of_neg (by simpa using hvc)]
    · have hround : sendvRound fdReadv vc1 iov s vc =
          (s.1 ++ [(vc, given fdReadv iov vc)], max s.2 (takenBy fdReadv iov vc)) := by
        unfold sendvRound given takenBy
        rw [if_neg hvc, vcSendvCompat_eq]
        cases fdReadv vc <;> rfl
      rw [hround, List.filter_cons_of_pos (by simpa using hvc)]
      simp

theorem given_eq_iff (vc : Fin n) :
    given fdReadv iov vc = iov.flatten ↔ (fdReadv vc = none → iov.flatten.length ≤ compatSize) := by
  unfold given
  cases h : fdReadv vc with
  | none =>
    rw [if_neg (by simp), List.take_eq_self_iff]
    exact ⟨fun hle _ => hle, fun hle => hle rfl⟩
  | some readv => simp

theorem foldl_max_eq_iff {t : ℤ} (ht : 0 ≤ t) (l : List ℤ) :
    l.foldl max 0 = t ↔ (∀ x ∈ l, x ≤ t) ∧ (t = 0 ∨ t ∈ l) := by
  have hmax := @List.max?_eq_some_iff _ t _ _ (0 :: l) _ _
  rw [List.max?_cons', Option.some.injEq, List.mem_cons, List.forall_mem_cons] at hmax
  rw [hmax]
  constructor
  · intro ⟨hmem, hle⟩
    exact ⟨hle.2, hmem⟩
  · intro ⟨hle, hmem⟩
    exact ⟨hmem, ht, hle⟩

/-! ### The flat path -/

theorem le_seq_of_mem_number {k : ℕ} {cs : List (Fin n × Packet n)} {p : VLANPacket n} (h : p ∈ number k cs) : k ≤ p.seq := by
  induction cs generalizing k with
  | nil => cases h
  | cons c cs ih =>
    rcases List.mem_cons.1 h with rfl | htail
    · exact Nat.le_refl k
    · exact Nat.le_of_succ_le (ih htail)

/-- The packet itself is given to the other clients whose link is up. -/
theorem flatDeliveries_eq (fuel : ℕ) (vc1 : Fin n) (data : List UInt8) (replies : Fin n → List (Packet n)) :
    flatDeliveries linkDown fuel vc1 data replies =
      if linkDown vc1 then [] else (receivers linkDown vc1).map fun vc => (vc, data) := by
  unfold flatDeliveries
  cases hup : linkDown vc1 with
  | true =>
    rw [qemuSendPacket, if_pos hup]
    rfl
  | false =>
    obtain ⟨later, -, hsend⟩ := qemuSendPacket_spec fuel (.mk data replies) hup
    have hself : (deliveries linkDown ⟨0, vc1, .mk data replies⟩).filter (fun d => d.2.seq = 0) =
        deliveries linkDown ⟨0, vc1, .mk data replies⟩ := by
      apply List.filter_eq_self.2
      intro d hd
      obtain ⟨r, -, rfl⟩ := List.mem_map.1 hd
      exact decide_eq_true rfl
    have hothers : ((number 1 (calls linkDown vc1 (.mk data replies))).reverse.flatMap (deliveries linkDown)).filter
        (fun d => d.2.seq = 0) = [] := by
      apply List.filter_eq_nil_iff.2
      intro d hd hzero
      obtain ⟨p, hp, hdp⟩ := List.mem_flatMap.1 hd
      obtain ⟨r, -, rfl⟩ := List.mem_map.1 hdp
      have hseq := le_seq_of_mem_number (List.mem_reverse.1 hp)
      have hzero' : p.seq = 0 := of_decide_eq_true hzero
      omega
    rw [hsend, List.flatMap_cons, List.filter_append, hself, hothers, List.append_nil, deliveries, List.map_map]
    rfl

/-! ### The comparison -/

/-- Where nothing is cut off, the length that is returned is right if one client takes all. -/
theorem takesAll_iff (hfit : ∀ vc ≠ vc1, fdReadv vc = none → iov.flatten.length ≤ compatSize) :
    (((List.finRange n).filter (· ≠ vc1)).map (takenBy fdReadv iov)).foldl max 0 = iov.flatten.length ↔
      TakesAll fdReadv vc1 iov := by
  have hmem : ∀ vc, vc ∈ (List.finRange n).filter (· ≠ vc1) ↔ vc ≠ vc1 := by
    intro vc
    rw [List.mem_filter]
    simp
  have hnone : ∀ vc ≠ vc1, fdReadv vc = none → takenBy fdReadv iov vc = iov.flatten.length := by
    intro vc hvc hread
    rw [takenBy, hread, Option.elim_none, List.length_take, Nat.min_eq_right (hfit vc hvc hread)]
  have hsome : ∀ vc readv, fdReadv vc = some readv → takenBy fdReadv iov vc = readv iov := by
    intro vc readv hread
    rw [takenBy, hread, Option.elim_some]
  rw [foldl_max_eq_iff (Int.natCast_nonneg _)]
  constructor
  · intro ⟨hle, hall⟩
    constructor
    · intro vc hvc readv hread
      rw [← hsome vc readv hread]
      exact hle _ (List.mem_map_of_mem ((hmem vc).2 hvc))
    · rcases hall with hzero | hall
      · exact .inl (by omega)
      · obtain ⟨vc, hvc, heq⟩ := List.mem_map.1 hall
        refine .inr ⟨vc, (hmem vc).1 hvc, ?_⟩
        cases hread : fdReadv vc with
        | none => exact .inl rfl
        | some readv => exact .inr ⟨readv, rfl, (hsome vc readv hread).symm.trans heq⟩
  · intro ⟨hle, hall⟩
    constructor
    · intro x hx
      obtain ⟨vc, hvc, rfl⟩ := List.mem_map.1 hx
      cases hread : fdReadv vc with
      | none => exact (hnone vc ((hmem vc).1 hvc) hread).le
      | some readv => exact (hsome vc readv hread).trans_le (hle vc ((hmem vc).1 hvc) readv hread)
    · rcases hall with hzero | ⟨vc, hvc, hread | ⟨readv, hread, heq⟩⟩
      · exact .inl (by rw [hzero]; rfl)
      · exact .inr (List.mem_map.2 ⟨vc, (hmem vc).2 hvc, hnone vc hvc hread⟩)
      · exact .inr (List.mem_map.2 ⟨vc, (hmem vc).2 hvc, (hsome vc readv hread).trans heq⟩)

/-- `qemu_sendv_packet` gives each client what `qemu_send_packet` of the elements in one buffer does and
returns their length if and only if the link of the sender is down, or the links of all other clients
are up, each of them without `fd_readv` has the packet fit the buffer of 4096 bytes, and the largest
length that they take is the length of the packet. -/
theorem qemuSendvPacket_flat_iff (linkDown : Fin n → Bool) (fdReadv : Fin n → Option (Iov → ℤ)) (fuel : ℕ) (vc1 : Fin n)
    (iov : Iov) (replies : Fin n → List (Packet n)) :
    ((qemuSendvPacket linkDown fdReadv vc1 iov).1 = flatDeliveries linkDown fuel vc1 iov.flatten replies ∧
        (qemuSendvPacket linkDown fdReadv vc1 iov).2 = iov.flatten.length) ↔
      linkDown vc1 = true ∨
        (∀ vc ≠ vc1, linkDown vc = false ∧ (fdReadv vc = none → iov.flatten.length ≤ compatSize)) ∧
          TakesAll fdReadv vc1 iov := by
  rw [flatDeliveries_eq]
  unfold qemuSendvPacket
  cases hup : linkDown vc1 with
  | true => simp [calcIovLength_eq]
  | false =>
    simp only [Bool.false_eq_true, if_false, false_or]
    rw [foldl_sendvRound, List.nil_append]
    have hlog : ((List.finRange n).filter (· ≠ vc1)).map (fun vc => (vc, given fdReadv iov vc)) =
        (receivers linkDown vc1).map (fun vc => (vc, iov.flatten)) ↔
          ∀ vc ≠ vc1, linkDown vc = false ∧ (fdReadv vc = none → iov.flatten.length ≤ compatSize) := by
      constructor
      · intro h vc hvc
        have hmem : (vc, given fdReadv iov vc) ∈ (receivers linkDown vc1).map (fun vc => (vc, iov.flatten)) := by
          rw [← h]
          exact List.mem_map.2 ⟨vc, List.mem_filter.2 ⟨List.mem_finRange vc, by simpa using hvc⟩, rfl⟩
        obtain ⟨r, hr, heq⟩ := List.mem_map.1 hmem
        obtain ⟨rfl, hgiven⟩ := Prod.mk.inj heq
        exact ⟨(mem_receivers.1 hr).2, (given_eq_iff r).1 hgiven.symm⟩
      · intro h
        have hreceivers : (List.finRange n).filter (· ≠ vc1) = receivers linkDown vc1 := by
          apply List.filter_congr
          intro vc _
          by_cases hvc : vc = vc1
          · simp [hvc]
          · simp [hvc, (h vc hvc).1]
        rw [hreceivers]
        apply List.map_congr_left
        intro vc hvc
        rw [(given_eq_iff vc).2 (h vc (mem_receivers.1 hvc).1).2]
    rw [hlog]
    exact and_congr_right fun hall => takesAll_iff fun vc hvc => (hall vc hvc).2

/-- A client whose link is down is given the packet. -/
theorem qemuSendvPacket_link_down :
    (qemuSendvPacket (n := 2) (fun vc => vc = 1) (fun _ => none) 0 [[7]]).1 = [(1, [7])] ∧
      flatDeliveries (n := 2) (fun vc => vc = 1) 0 0 [7] (fun _ => []) = [] := by
  constructor
  · rfl
  · rw [flatDeliveries_eq]
    decide

end Ar7Qemu.Net
