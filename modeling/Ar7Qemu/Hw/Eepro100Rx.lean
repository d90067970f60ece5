import Ar7Qemu.Hw.Eepro100Tx

/-! Reception of a frame by the EEPRO100. The card takes a frame by its size and its destination,
and stores it behind the current receive frame descriptor. Frames that it takes without a
look at the destination, and frames that are longer than the descriptor announces, are left out here. -/

namespace Ar7Qemu.Hw.Eepro100

open Lib

/-! ### What the card is to receive -/

/-- The current receive frame descriptor. -/
def rfd (s : Nic) : Word := s.ruBase + s.ruOffset

/-- The size of the buffer behind the current descriptor. -/
def announced (s : Nic) : ℕ := (s.guest.le16 (rfd s + 14)).toNat

def broadcastMacaddr : List Byte := List.replicate 6 0xff

/-- The entry of an address in a multicast hash table is set. -/
def HashSet (mult : ℕ → Byte) (ep : List Byte) : Prop :=
  (mult (computeMcastIdx ep / 8)).getLsbD (computeMcastIdx ep % 8) = true

/-- A short frame that the configuration says is discarded. -/
def ShortDiscarded (s : Nic) (buf : List Byte) : Prop := buf.length < 64 ∧ (s.configuration 7).getLsbD 0 = true

/-- A long frame that the configuration does not allow. -/
def LongDiscarded (s : Nic) (buf : List Byte) : Prop :=
  maxEthFrameSize + 4 < buf.length ∧ (s.configuration 18).getLsbD 3 = false

def SizeAllowed (s : Nic) (buf : List Byte) : Prop := ¬ ShortDiscarded s buf ∧ ¬ LongDiscarded s buf

def Promiscuous (s : Nic) : Prop := (s.configuration 15).getLsbD 0 = true

def MulticastAll (s : Nic) : Prop := (s.configuration 21).getLsbD 3 = true

def IsMulticast (buf : List Byte) : Prop := (buf.getD 0 0).getLsbD 0 = true

/-- The destination is the station address, the broadcast address, a multicast address that the
table or the configuration allows, or the card is promiscuous. -/
def AddressAllowed (s : Nic) (buf : List Byte) : Prop :=
  destination buf = s.macaddr ∨ destination buf = broadcastMacaddr ∨
    IsMulticast buf ∧ (HashSet s.mult (destination buf) ∨ MulticastAll s) ∨ Promiscuous s

/-- The frame is behind the descriptor, whose status and count words tell of it, and the receive unit
has moved to the linked descriptor. Nothing else of the guest memory is written. -/
structure Stored (s : Nic) (buf : List Byte) (s' : Nic) : Prop where
  data : s'.guest.read (rfd s + 16) buf.length = buf
  count : s'.guest.le16 (rfd s + 12) = BitVec.ofNat 16 buf.length
  status : s'.guest.le16 (rfd s) &&& 0xa000 = 0xa000
  rest : ∀ x, 2 ≤ (x - rfd s).toNat → 2 ≤ (x - (rfd s + 12)).toNat → announced s ≤ (x - (rfd s + 16)).toNat →
    s'.guest x = s.guest x
  statistics : s'.statistics = { s.statistics with rxGoodFrames := s.statistics.rxGoodFrames + 1 }
  base : s'.ruBase = s.ruBase
  offset : s'.ruOffset = s.guest.le32 (rfd s + 4)

/-- A frame is stored when its size and its destination are allowed, and changes neither the guest
memory nor the receive unit when they are not. -/
def ReceivesAllowed (s : Nic) (buf : List Byte) : Prop :=
  ∃ s', nicReceive s buf = .ok s' ∧ (SizeAllowed s buf ∧ AddressAllowed s buf → Stored s buf s') ∧
    (¬ (SizeAllowed s buf ∧ AddressAllowed s buf) →
      s'.guest = s.guest ∧ s'.ruOffset = s.ruOffset ∧ s'.ruState = s.ruState ∧
        s'.statistics.rxGoodFrames = s.statistics.rxGoodFrames)

/-- The configuration does not ask for what the card refuses with an assertion: more than one
individual address, and the transfer of the frame check sequence. -/
def Supported (s : Nic) : Prop := (s.configuration 20).getLsbD 6 = false ∧ (s.configuration 18).getLsbD 2 = false

def CsmaDisabled (s : Nic) : Prop := (s.configuration 8).getLsbD 7 = true

/-- The frame is one for the card. -/
def Meant (s : Nic) (buf : List Byte) : Prop := ¬ CsmaDisabled s ∧ SizeAllowed s buf ∧ AddressAllowed s buf

/-- The card after a frame that it has no descriptor for. -/
def noResources (s : Nic) : Nic :=
  { s with statistics := { s.statistics with rxResourceErrors := s.statistics.rxResourceErrors + 1 } }

def multicastList (s : Nic) : List (List Byte) :=
  (List.range (((s.tx.tbdArrayAddr &&& 0x3fff).toNat + 5) / 6)).map fun i =>
    s.guest.read (s.cbAddress + 10 + BitVec.ofNat 32 (6 * i)) 6

/-! ### The filter -/

section Filter

variable (s : Nic) (buf : List Byte)

theorem and_twoPow_ne_zero_iff (x : Byte) {i : ℕ} (hi : i < 8) : x &&& BitVec.twoPow 8 i ≠ 0 ↔ x.getLsbD i = true := by
  rw [BitVec.and_twoPow]
  cases hx : x.getLsbD i with
  | true =>
    refine iff_of_true (fun h => ?_) rfl
    have hnat := congrArg BitVec.toNat h
    rw [if_pos rfl, BitVec.toNat_twoPow_of_lt hi] at hnat
    exact absurd hnat (Nat.two_pow_pos i).ne'
  | false => exact iff_of_false (fun h => h rfl) (by simp)

theorem csma_iff : s.configuration 8 &&& 0x80 ≠ 0 ↔ CsmaDisabled s := and_twoPow_ne_zero_iff _ (show 7 < 8 by decide)

theorem discardShort_iff : s.configuration 7 &&& 1 ≠ 0 ↔ (s.configuration 7).getLsbD 0 = true :=
  and_twoPow_ne_zero_iff _ (show 0 < 8 by decide)

theorem receiveLong_iff : s.configuration 18 &&& 8 = 0 ↔ (s.configuration 18).getLsbD 3 = false := by
  have h := and_twoPow_ne_zero_iff (s.configuration 18) (show 3 < 8 by decide)
  rw [← not_iff_not, Bool.not_eq_false]
  exact h

theorem multicastAll_iff : s.configuration 21 &&& 8 ≠ 0 ↔ MulticastAll s := and_twoPow_ne_zero_iff _ (show 3 < 8 by decide)

theorem promiscuous_iff : s.configuration 15 &&& 1 ≠ 0 ↔ Promiscuous s := and_twoPow_ne_zero_iff _ (show 0 < 8 by decide)

theorem isMulticast_iff : buf.getD 0 0 &&& 1 ≠ 0 ↔ IsMulticast buf := and_twoPow_ne_zero_iff _ (show 0 < 8 by decide)

theorem hashSet_iff (mult : ℕ → Byte) (ep : List Byte) :
    mult (computeMcastIdx ep / 8) &&& 1#8 <<< (computeMcastIdx ep % 8) ≠ 0 ↔ HashSet mult ep :=
  and_twoPow_ne_zero_iff _ (Nat.mod_lt _ (by decide))

/-- A frame that is not a short one to be discarded gets a status exactly when it is meant for the
card, and the filter changes nothing. -/
theorem receiveFilter_spec (hshort : ¬ ShortDiscarded s buf) :
    (Meant s buf ∧ ∃ status, receiveFilter s buf = (s, some status) ∧ status &&& 0xa000 = 0xa000) ∨
      (¬ Meant s buf ∧ receiveFilter s buf = (s, none)) := by
  have haddress : ∀ h : ¬ CsmaDisabled s ∧ SizeAllowed s buf, AddressAllowed s buf → Meant s buf :=
    fun h ha => ⟨h.1, h.2, ha⟩
  unfold receiveFilter
  by_cases hcsma : CsmaDisabled s
  · exact Or.inr ⟨fun h => h.1 hcsma, if_pos ((csma_iff s).2 hcsma)⟩
  rw [if_neg (mt (csma_iff s).1 hcsma), if_neg fun h => hshort ⟨h.1, (discardShort_iff s).1 h.2⟩]
  by_cases hlong : LongDiscarded s buf
  · exact Or.inr ⟨fun h => h.2.1.2 hlong, if_pos ⟨hlong.1, (receiveLong_iff s).2 hlong.2⟩⟩
  rw [if_neg fun h => hlong ⟨h.1, (receiveLong_iff s).1 h.2⟩]
  have hsize : ¬ CsmaDisabled s ∧ SizeAllowed s buf := ⟨hcsma, hshort, hlong⟩
  by_cases hmac : destination buf = s.macaddr
  · exact Or.inl ⟨haddress hsize (Or.inl hmac), _, if_pos hmac, by decide⟩
  rw [if_neg hmac]
  by_cases hbroadcast : destination buf = List.replicate 6 0xff
  · exact Or.inl ⟨haddress hsize (Or.inr (Or.inl hbroadcast)), _, if_pos hbroadcast, by decide⟩
  rw [if_neg hbroadcast]
  by_cases hmulticast : IsMulticast buf
  · rw [if_pos ((isMulticast_iff buf).2 hmulticast)]
    dsimp only
    by_cases hall : MulticastAll s
    · exact Or.inl ⟨haddress hsize (Or.inr (Or.inr (Or.inl ⟨hmulticast, Or.inr hall⟩))), _,
        if_pos ((multicastAll_iff s).2 hall), by decide⟩
    rw [if_neg (mt (multicastAll_iff s).1 hall)]
    by_cases hhash : HashSet s.mult (destination buf)
    · exact Or.inl ⟨haddress hsize (Or.inr (Or.inr (Or.inl ⟨hmulticast, Or.inl hhash⟩))), _,
        if_pos ((hashSet_iff _ _).2 hhash), by decide⟩
    rw [if_neg (mt (hashSet_iff _ _).1 hhash)]
    by_cases hprom : Promiscuous s
    · exact Or.inl ⟨haddress hsize (Or.inr (Or.inr (Or.inr hprom))), _, if_pos ((promiscuous_iff s).2 hprom), by decide⟩
    · refine Or.inr ⟨?_, if_neg (mt (promiscuous_iff s).1 hprom)⟩
      rintro ⟨-, -, h | h | ⟨-, h | h⟩ | h⟩
      · exact hmac h
      · exact hbroadcast h
      · exact hhash h
      · exact hall h
      · exact hprom h
  · rw [if_neg (mt (isMulticast_iff buf).1 hmulticast)]
    by_cases hprom : Promiscuous s
    · exact Or.inl ⟨haddress hsize (Or.inr (Or.inr (Or.inr hprom))), _, if_pos ((promiscuous_iff s).2 hprom), by decide⟩
    · refine Or.inr ⟨?_, if_neg (mt (promiscuous_iff s).1 hprom)⟩
      rintro ⟨-, -, h | h | ⟨h, -⟩ | h⟩
      · exact hmac h
      · exact hbroadcast h
      · exact hmulticast h
      · exact hprom h

end Filter

/-! ### The receive area -/

/-- What an interrupt and the end of a reception leave as it is. -/
structure RxKept (s t : Nic) : Prop where
  guest : t.guest = s.guest
  statistics : t.statistics = s.statistics
  base : t.ruBase = s.ruBase
  offset : t.ruOffset = s.ruOffset
  mult : t.mult = s.mult

theorem interrupt_kept (s : Nic) (status : Byte) : RxKept s (eepro100Interrupt s status) := by
  unfold eepro100Interrupt enableInterrupt disableInterrupt
  dsimp only
  split_ifs <;> exact ⟨rfl, rfl, rfl, rfl, rfl⟩

theorem endReceive_kept (s : Nic) (rfdCommand : BitVec 16) : RxKept s (endReceive s rfdCommand) := by
  unfold endReceive setRuState
  dsimp only
  split_ifs <;> exact ⟨rfl, rfl, rfl, rfl, rfl⟩

theorem toNat_place_sub (r i j : Word) : (r + i - (r + j)).toNat = (i - j).toNat := by
  rw [add_sub_add_left_eq_sub]

theorem le16_congr {m m' : GuestMem} {a : Word} (h₀ : m a = m' a) (h₁ : m (a + 1) = m' (a + 1)) : m.le16 a = m'.le16 a := by
  rw [GuestMem.le16, GuestMem.le16, h₀, h₁]

section Store

variable {s : Nic} {buf : List Byte} (rfdStatus : BitVec 16)

theorem announced_lt (s : Nic) : announced s < 2 ^ 16 := (s.guest.le16 _).isLt

theorem storeFrame_front (hlen : buf.length < 2 ^ 16) (i : Word) (hi : (i - 16).toNat ≥ 2 ^ 16) :
    storeFrame s rfdStatus buf (rfd s + i) =
      ((s.guest.putLe16 (rfd s) rfdStatus).putLe16 (rfd s + 12) (BitVec.ofNat 16 buf.length)) (rfd s + i) := by
  refine GuestMem.write_of_le ?_
  show buf.length ≤ (rfd s + i - (rfd s + 16)).toNat
  rw [toNat_place_sub]
  omega

theorem storeFrame_status (hlen : buf.length < 2 ^ 16) : (storeFrame s rfdStatus buf).le16 (rfd s) = rfdStatus := by
  have hcount : ∀ i : Word, 2 ≤ (i - 12).toNat → (i - 16).toNat ≥ 2 ^ 16 →
      storeFrame s rfdStatus buf (rfd s + i) = s.guest.putLe16 (rfd s) rfdStatus (rfd s + i) := by
    intro i hi hi'
    rw [storeFrame_front rfdStatus hlen i hi']
    refine GuestMem.write_of_le ?_
    rw [toNat_place_sub]
    exact hi
  have h₀ := hcount 0 (by decide) (by decide)
  rw [add_zero] at h₀
  rw [le16_congr h₀ (hcount 1 (by decide) (by decide)), GuestMem.le16_putLe16]

theorem storeFrame_count (hlen : buf.length < 2 ^ 16) :
    (storeFrame s rfdStatus buf).le16 (rfd s + 12) = BitVec.ofNat 16 buf.length := by
  have h₁ := storeFrame_front rfdStatus hlen (s := s) (12 + 1) (by decide)
  rw [← add_assoc] at h₁
  rw [le16_congr (storeFrame_front rfdStatus hlen 12 (by decide)) h₁, GuestMem.le16_putLe16]

theorem storeFrame_data (hlen : buf.length < 2 ^ 16) :
    (storeFrame s rfdStatus buf).read (rfd s + 16) buf.length = buf :=
  GuestMem.read_write _ _ (by omega)

theorem storeFrame_rest {x : Word} (hstatus : 2 ≤ (x - rfd s).toNat) (hcount : 2 ≤ (x - (rfd s + 12)).toNat)
    (hdata : buf.length ≤ (x - (rfd s + 16)).toNat) : storeFrame s rfdStatus buf x = s.guest x := by
  have h₁ : storeFrame s rfdStatus buf x =
      ((s.guest.putLe16 (rfd s) rfdStatus).putLe16 (rfd s + 12) (BitVec.ofNat 16 buf.length)) x :=
    GuestMem.write_of_le hdata
  have h₂ : ((s.guest.putLe16 (rfd s) rfdStatus).putLe16 (rfd s + 12) (BitVec.ofNat 16 buf.length)) x =
      s.guest.putLe16 (rfd s) rfdStatus x := GuestMem.write_of_le hcount
  have h₃ : s.guest.putLe16 (rfd s) rfdStatus x = s.guest x := GuestMem.write_of_le hstatus
  rw [h₁, h₂, h₃]

end Store

def finalStatus (rfdStatus : BitVec 16) (buf : List Byte) : BitVec 16 :=
  if buf.length < 64 then rfdStatus ||| 0x0080 else rfdStatus

theorem finalStatus_ok {rfdStatus : BitVec 16} (h : rfdStatus &&& 0xa000 = 0xa000) (buf : List Byte) :
    finalStatus rfdStatus buf &&& 0xa000 = 0xa000 := by
  unfold finalStatus
  split_ifs
  · apply BitVec.eq_of_getLsbD_eq
    intro i hi
    have hbit := congrArg (fun b : BitVec 16 => b.getLsbD i) h
    simp only [BitVec.getLsbD_and, BitVec.getLsbD_or] at hbit ⊢
    rw [Bool.and_or_distrib_right, hbit]
    exact Bool.or_eq_left_iff_imp.2 fun h => by simp_all
  · exact h

theorem acceptFrame_stored {s : Nic} {rfdStatus : BitVec 16} {buf : List Byte} (hstatus : rfdStatus &&& 0xa000 = 0xa000)
    (hfit : buf.length ≤ announced s) : Stored s buf (acceptFrame s rfdStatus buf) := by
  have hlen : buf.length < 2 ^ 16 := lt_of_le_of_lt hfit (announced_lt s)
  have hguest : ∀ s₁ : Nic, ∀ link c, RxKept { s₁ with ruOffset := link } (endReceive { s₁ with ruOffset := link } c) :=
    fun _ _ _ => endReceive_kept _ _
  have hkept := interrupt_kept { s with
    guest := storeFrame s (finalStatus rfdStatus buf) buf
    statistics := { s.statistics with rxGoodFrames := s.statistics.rxGoodFrames + 1 } } 0x40
  have hend := hguest (eepro100FrInterrupt { s with
    guest := storeFrame s (finalStatus rfdStatus buf) buf
    statistics := { s.statistics with rxGoodFrames := s.statistics.rxGoodFrames + 1 } })
    (s.guest.le32 (rfd s + 4)) (s.guest.le16 (rfd s + 2))
  have hmem : (acceptFrame s rfdStatus buf).guest = storeFrame s (finalStatus rfdStatus buf) buf :=
    hend.guest.trans hkept.guest
  refine ⟨?_, ?_, ?_, fun x h₁ h₂ h₃ => ?_, hend.statistics.trans hkept.statistics, hend.base.trans hkept.base, hend.offset⟩
  · rw [hmem]
    exact storeFrame_data _ hlen
  · rw [hmem]
    exact storeFrame_count _ hlen
  · rw [hmem, storeFrame_status _ hlen]
    exact finalStatus_ok hstatus buf
  · rw [hmem]
    exact storeFrame_rest _ h₁ h₂ (hfit.trans h₃)

/-! ### The multicast table -/

section Multicast

theorem hashSet_zero (ep : List Byte) : ¬ HashSet (fun _ => 0) ep := by
  simp [HashSet]

/-- An address that is entered is set, with the others of its place. -/
theorem hashSet_addMulticast {mult mult' : ℕ → Byte} {addr : List Byte}
    (h : addMulticast mult (computeMcastIdx addr) = .ok mult') (ep : List Byte) :
    HashSet mult' ep ↔ HashSet mult ep ∨ computeMcastIdx addr = computeMcastIdx ep := by
  rw [addMulticast, if_pos (computeMcastIdx_lt addr)] at h
  cases h
  unfold HashSet
  generalize computeMcastIdx addr = a
  generalize computeMcastIdx ep = e
  by_cases hdiv : e / 8 = a / 8
  · have hlt : e % 8 < 8 := Nat.mod_lt _ (by decide)
    have hlt' : a % 8 < 8 := Nat.mod_lt _ (by decide)
    have hbit : (1#8 <<< (a % 8)).getLsbD (e % 8) = decide (a % 8 = e % 8) := by
      rw [← BitVec.twoPow_eq, BitVec.getLsbD_twoPow]
      simp [hlt']
    rw [hdiv, Function.update_self, BitVec.getLsbD_or, hbit, Bool.or_eq_true, decide_eq_true_eq]
    refine or_congr_right ⟨fun h => ?_, fun h => by rw [h]⟩
    omega
  · rw [Function.update_of_ne hdiv]
    refine (or_iff_left fun h => hdiv ?_).symm
    rw [h]

theorem hashSet_foldlM (addrs : List (List Byte)) {mult mult' : ℕ → Byte}
    (h : addrs.foldlM (fun mult addr => addMulticast mult (computeMcastIdx addr)) mult = .ok mult') (ep : List Byte) :
    HashSet mult' ep ↔ HashSet mult ep ∨ ∃ addr ∈ addrs, computeMcastIdx addr = computeMcastIdx ep := by
  induction addrs generalizing mult with
  | nil =>
    cases h
    simp
  | cons addr addrs ih =>
    rw [List.foldlM_cons] at h
    obtain ⟨mult₁, h₁, hrest⟩ := bind_ok h
    rw [ih hrest, hashSet_addMulticast h₁]
    simp [or_assoc]

theorem setMulticastList_mult {s t : Nic} (h : setMulticastList s = .ok t) (ep : List Byte) :
    HashSet t.mult ep ↔ ∃ addr ∈ multicastList s, computeMcastIdx addr = computeMcastIdx ep := by
  unfold setMulticastList at h
  obtain ⟨mult, hfold, h⟩ := bind_ok h
  cases h
  have hmap : (multicastList s).foldlM (fun mult addr => addMulticast mult (computeMcastIdx addr)) (fun _ => 0) =
      .ok mult := by
    rw [multicastList, List.foldlM_map]
    exact hfold
  rw [hashSet_foldlM _ hmap]
  exact or_iff_right (hashSet_zero ep)

theorem runCommand_mult {fuel : ℕ} {s t : Nic} (h : runCommand fuel s = .ok t)
    (hcommand : (s.tx.command &&& commandCmd).toNat ≠ 3) : t.mult = s.mult := by
  unfold runCommand at h
  split at h
  · cases h
    rfl
  · cases h
    rfl
  · contradiction
  · unfold txCommand at h
    obtain ⟨frame, -, h⟩ := bind_ok h
    split_ifs at h
    cases h
    rfl
  · cases h
    rfl

def TableRight (s t : Nic) : Prop :=
  if (s.tx.command &&& commandCmd).toNat = 3 then
    ∀ ep, HashSet t.mult ep ↔ ∃ addr ∈ multicastList s, computeMcastIdx addr = computeMcastIdx ep
  else t.mult = s.mult

theorem runCommand_tableRight {fuel : ℕ} {s t : Nic} (h : runCommand fuel s = .ok t) : TableRight s t := by
  unfold TableRight
  split_ifs with hcommand
  · unfold runCommand at h
    rw [hcommand] at h
    exact setMulticastList_mult h
  · exact runCommand_mult h hcommand

end Multicast

/-! ### Reception -/

section Receive

variable {s : Nic} {buf : List Byte}

theorem supported_iff (s : Nic) :
    Supported s ↔ ¬ s.configuration 20 &&& 0x40 ≠ 0 ∧ ¬ s.configuration 18 &&& 4 ≠ 0 := by
  have h₂₀ := and_twoPow_ne_zero_iff (s.configuration 20) (show 6 < 8 by decide)
  have h₁₈ := and_twoPow_ne_zero_iff (s.configuration 18) (show 2 < 8 by decide)
  rw [Supported, ← Bool.not_eq_true, ← Bool.not_eq_true]
  exact and_congr (not_congr h₂₀.symm) (not_congr h₁₈.symm)

end Receive

/-- A card whose station address is zero, with an endless buffer behind its descriptor. -/
def card (configuration : ℕ → Byte) (ruState : RuState) : Nic :=
  { zeroed .i82551 0x8086 0x1209 (List.replicate 6 0) ⟨0, 0, 0, false, false, false, false, 6, 64, 0, fun _ => 0⟩
      (fun _ => 0xff) false with configuration, ruState }

end Ar7Qemu.Hw.Eepro100
