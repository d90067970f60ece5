import Ar7Qemu.Virtio.NetFilter

/-! The receive filter against the frames that the guest wants. What it wants is kept beside the card:
the lists of the last table command that succeeded, whether they fitted, and the VLANs that are
enabled. The filter keeps its promises as long as no command is refused after the table has been
cleared, no count wraps round, and the modes that stand in for a list that did not fit are not
switched off. -/

namespace Ar7Qemu.Virtio.NetFilter

open Lib

def addresses (sg : Buf) : List (List UInt8) :=
  (List.range (min (ldlLe sg.data) ((sg.len - 4) / ethAlen))).map fun k =>
    (sg.data.drop (4 + k * ethAlen)).taken ethAlen

/-- What the guest wants: the lists of its last table command, whether one was too long for the table,
and the VLANs that it has enabled. -/
structure Wanted where
  unicast : List (List UInt8)
  multicast : List (List UInt8)
  unicastSpilled : Bool
  multicastSpilled : Bool
  vlans : ℕ → Bool

def Wanted.init : Wanted := ⟨[], [], false, false, fun _ => false⟩

def Wanted.withLists (w : Wanted) (unicast multicast : Buf) : Wanted :=
  { w with unicast := addresses unicast, multicast := addresses multicast
           unicastSpilled := decide (macTableEntries < ldlLe unicast.data)
           multicastSpilled := decide (macTableEntries < ldlLe unicast.data + ldlLe multicast.data) }

def Wanted.after (w : Wanted) (elem : Elem) (status : ℕ) : Wanted :=
  let cls := (elem.out 0).data 0
  if status ≠ statusOk then w
  else if cls = 1 then w.withLists (elem.out 1) (elem.out 2)
  else if cls = 2 then
    { w with vlans := Function.update w.vlans (lduwLe (elem.out 1).data) (decide ((elem.out 0).data 1 = 0)) }
  else w

/-- The card and what the guest wants, after one command. -/
def step (s : Card × Wanted) (elem : Elem) : Option (Card × Wanted) :=
  (handleCtrl s.1 elem).map fun c => (c, if c.exited then s.2 else s.2.after elem c.status)

def IsMulticast (a : List UInt8) : Prop := a.getD 0 0 &&& 1 ≠ 0

/-- The frame is for the station, for all, or for an address of the lists, and its VLAN is enabled. -/
def Wants (mac : List UInt8) (w : Wanted) (frame : Bytes) : Prop :=
  (tagged frame = true → w.vlans (vidOf frame) = true) ∧
    (dest frame = mac ∨ dest frame = List.replicate 6 0xff ∨ dest frame ∈ w.unicast ∨ dest frame ∈ w.multicast)

/-! ### The condition -/

/-- Each address of the second list is a multicast one, in the first list, or that of the station. -/
def Covered (mac : List UInt8) (unicast multicast : List (List UInt8)) : Prop :=
  ∀ a ∈ multicast, IsMulticast a ∨ a ∈ unicast ∨ a = mac

/-- The table holds the first entries of a list and nothing else. -/
def TableIs (n : Filter) (sg : Buf) (entries : ℕ) : Prop :=
  n.inUse = entries ∧ n.macs = Bytes.write (fun _ => 0) 0 (listBytes entries) (sg.data.drop 4)

/-- The list lies in its buffer, as the card computes its length. -/
def FitsBuffer (sg : Buf) : Prop := 4 + listBytes (ldlLe sg.data) ≤ sg.len

instance (sg : Buf) : Decidable (FitsBuffer sg) := inferInstanceAs (Decidable (_ ≤ _))

/-- A table command is not refused after the table has been cleared, unless the table is already what
it leaves. The two counts do not wrap round. Where the second list does not fit the table, all its
addresses are covered without it, or all packets are taken. -/
structure TableSafe (mac : List UInt8) (n : Filter) (unicast multicast : Buf) : Prop where
  first : FitsBuffer unicast ∨ TableIs n unicast 0
  second : FitsBuffer unicast → ldlLe unicast.data ≤ macTableEntries →
    FitsBuffer multicast ∨ TableIs n unicast (ldlLe unicast.data)
  noWrap : FitsBuffer unicast → ldlLe unicast.data ≤ macTableEntries → FitsBuffer multicast →
    ldlLe unicast.data + ldlLe multicast.data < 2 ^ 32
  covered : FitsBuffer unicast → ldlLe unicast.data ≤ macTableEntries → FitsBuffer multicast →
    macTableEntries < ldlLe unicast.data + ldlLe multicast.data →
      n.promisc ≠ 0 ∨ Covered mac (addresses unicast) (addresses multicast)

/-- A mode that stands in for a list that did not fit is not switched off. -/
structure ModeSafe (mac : List UInt8) (n : Filter) (w : Wanted) (cmd on : UInt8) : Prop where
  promisc : cmd = 0 → on = 0 → w.unicastSpilled = false ∧
    (w.multicastSpilled = true → n.allmulti ≠ 0 ∧ Covered mac w.unicast w.multicast)
  allmulti : cmd = 1 → on = 0 → n.promisc ≠ 0 ∨ w.multicastSpilled = false

/-- What a command must not do. -/
def Kept (mac : List UInt8) (s : Card × Wanted) (elem : Elem) : Prop :=
  ((elem.out 0).data 0 = 0 → ModeSafe mac s.1.filter s.2 ((elem.out 0).data 1) ((elem.out 1).data 0)) ∧
    ((elem.out 0).data 0 = 1 → (elem.out 0).data 1 = 0 → elem.outSg.length = 3 → 4 ≤ (elem.out 1).len →
      4 ≤ (elem.out 2).len → TableSafe mac s.1.filter (elem.out 1) (elem.out 2))

/-! ### The invariant -/

def InTable (n : Filter) (a : List UInt8) : Prop := ∃ i < n.inUse, (n.macs.drop (i * ethAlen)).taken ethAlen = a

/-- The filter covers what is wanted. -/
structure Covers (mac : List UInt8) (n : Filter) (w : Wanted) : Prop where
  inUse : n.inUse ≤ macTableEntries
  unicastSpilled : w.unicastSpilled = true → n.promisc ≠ 0
  unicast : w.unicastSpilled = false → ∀ a ∈ w.unicast, InTable n a
  multicast : w.unicastSpilled = false → w.multicastSpilled = false → ∀ a ∈ w.multicast, InTable n a
  multicastSpilled : w.unicastSpilled = false → w.multicastSpilled = true →
    n.promisc ≠ 0 ∨ n.allmulti ≠ 0 ∧ Covered mac w.unicast w.multicast
  vlans : ∀ v < maxVlan, vlanEnabled n v = w.vlans v

variable {mac : List UInt8} {n : Filter} {w : Wanted} {frame : Bytes}

theorem covers_init (mac : List UInt8) : Covers mac .reset .init := by
  refine ⟨by decide, nofun, fun _ a ha => absurd ha List.not_mem_nil, fun _ _ a ha => absurd ha List.not_mem_nil, nofun,
    fun v _ => ?_⟩
  simp [vlanEnabled, Filter.reset, Wanted.init]

theorem receiveFilter_of_inTable (hpromisc : n.promisc = 0) (hvlan : ¬ (tagged frame = true ∧ ¬ vlanEnabled n (vidOf frame) = true))
    (h : InTable n (dest frame)) : receiveFilter n mac frame = true := by
  obtain ⟨i, hi, hentry⟩ := h
  have hany : ((List.range n.inUse).any fun i => dest frame = (n.macs.drop (i * ethAlen)).taken ethAlen) = true :=
    List.any_eq_true.2 ⟨i, List.mem_range.2 hi, decide_eq_true hentry.symm⟩
  unfold receiveFilter
  rw [if_neg (not_not.2 hpromisc), if_neg hvlan, hany]
  split_ifs <;> rfl

theorem Covers.accepts (h : Covers mac n w) (hframe : Wants mac w frame) : receiveFilter n mac frame = true := by
  by_cases hpromisc : n.promisc = 0
  · have hvid : vidOf frame < maxVlan := Nat.mod_lt _ (by decide)
    have hvlan : ¬ (tagged frame = true ∧ ¬ vlanEnabled n (vidOf frame) = true) := fun hdrop =>
      hdrop.2 ((h.vlans _ hvid).trans (hframe.1 hdrop.1))
    have huni : w.unicastSpilled = false := by
      by_contra hspill
      exact h.unicastSpilled (Bool.not_eq_false _ ▸ hspill) hpromisc
    have hstation : dest frame = mac → receiveFilter n mac frame = true := by
      intro hmac
      unfold receiveFilter
      rw [if_neg (not_not.2 hpromisc), if_neg hvlan]
      split_ifs <;> rfl
    rcases hframe.2 with hmac | hall | hlist | hlist
    · exact hstation hmac
    · unfold receiveFilter
      rw [if_neg (not_not.2 hpromisc), if_neg hvlan]
      split_ifs <;> rfl
    · exact receiveFilter_of_inTable hpromisc hvlan (h.unicast huni _ hlist)
    · cases hmulti : w.multicastSpilled with
      | false => exact receiveFilter_of_inTable hpromisc hvlan (h.multicast huni hmulti _ hlist)
      | true =>
        obtain ⟨hallmulti, hcovered⟩ := (h.multicastSpilled huni hmulti).resolve_left (not_not.2 hpromisc)
        rcases hcovered _ hlist with hbit | huniMem | hmac
        · have hfirst : frame 0 &&& 1 ≠ 0 := hbit
          unfold receiveFilter
          rw [if_neg (not_not.2 hpromisc), if_neg hvlan, if_pos ⟨hfirst, hallmulti⟩]
        · exact receiveFilter_of_inTable hpromisc hvlan (h.unicast huni _ huniMem)
        · exact hstation hmac
  · unfold receiveFilter
    rw [if_pos hpromisc]

/-! ### The table -/

theorem listBytes_eq {entries : ℕ} (h : entries ≤ macTableEntries) : listBytes entries = entries * ethAlen :=
  Nat.mod_eq_of_lt (Nat.lt_of_le_of_lt (Nat.mul_le_mul_right ethAlen h) (by decide))

theorem inTable_of_copied {sg : Buf} {base : ℕ} (hin : base + ldlLe sg.data ≤ n.inUse)
    (hmacs : ∀ k < ldlLe sg.data * ethAlen, n.macs (base * ethAlen + k) = sg.data (4 + k)) :
    ∀ a ∈ addresses sg, InTable n a := by
  intro a ha
  obtain ⟨k, hk, rfl⟩ := List.mem_map.1 ha
  have hlt : k < ldlLe sg.data := by
    have hmin := List.mem_range.1 hk
    omega
  refine ⟨base + k, by omega, Bytes.taken_congr fun i hi => ?_⟩
  have hi6 : i < 6 := hi
  have hk6 : k * 6 + i < ldlLe sg.data * 6 := by omega
  rw [Bytes.drop_apply, Bytes.drop_apply, Nat.add_mul, Nat.add_assoc, Nat.add_assoc]
  exact hmacs _ hk6

theorem copyMacs_ok {off len : ℕ} (h : off + len ≤ macTableEntries * ethAlen) (src : Bytes) :
    copyMacs n off len src = some { n with macs := n.macs.write off len src } := if_pos h

/-- The filter whose table holds the first entries of a list and nothing else. -/
def withTable (n : Filter) (sg : Buf) (entries : ℕ) : Filter :=
  { n with inUse := entries, macs := Bytes.write (fun _ => 0) 0 (listBytes entries) (sg.data.drop 4) }

theorem TableIs.withTable {sg : Buf} {entries : ℕ} (h : TableIs n sg entries) : withTable n sg entries = n := by
  rw [NetFilter.withTable, ← h.2, ← h.1]

theorem withTable_zero (n : Filter) (sg : Buf) : { n with inUse := 0, macs := fun _ => 0 } = withTable n sg 0 := by
  have hzero : listBytes 0 = 0 := rfl
  rw [withTable, hzero, Bytes.write_zero]

/-! ### One command -/

/-- A command leaves the filter when it is refused, and the promise when it is not. -/
def Keeps (mac : List UInt8) (n : Filter) (w' : Wanted) (n' : Filter) (status : ℕ) : Prop :=
  (status = statusOk ∧ Covers mac n' w') ∨ (status = statusErr ∧ n' = n)

theorem keeps_err {w' : Wanted} : Keeps mac n w' n statusErr := .inr ⟨rfl, rfl⟩

theorem handleRxMode_spec (h : Covers mac n w) {cmd : UInt8} {elem : Elem}
    (hsafe : ModeSafe mac n w cmd ((elem.out 1).data 0)) :
    handleRxMode n cmd elem = .exit ∨
      ∃ n' status, handleRxMode n cmd elem = .done n' status ∧ Keeps mac n w n' status := by
  unfold handleRxMode
  split
  · exact .inl rfl
  · right
    dsimp only
    split
    next hcmd =>
      refine ⟨_, _, rfl, .inl ⟨rfl, h.inUse, ?_, h.unicast, h.multicast, ?_, h.vlans⟩⟩
      · intro hspill hon
        have hzero : (elem.out 1).data 0 = 0 := UInt8.toNat_inj.1 hon
        exact Bool.noConfusion ((hsafe.promisc hcmd hzero).1.symm.trans hspill)
      · intro _ hspill
        by_cases hon : (elem.out 1).data 0 = 0
        · exact .inr ((hsafe.promisc hcmd hon).2 hspill)
        · exact .inl fun hzero => hon (UInt8.toNat_inj.1 hzero)
    next =>
      split
      next hcmd =>
        refine ⟨_, _, rfl, .inl ⟨rfl, h.inUse, h.unicastSpilled, h.unicast, h.multicast, ?_, h.vlans⟩⟩
        intro huni hspill
        by_cases hon : (elem.out 1).data 0 = 0
        · rcases hsafe.allmulti hcmd hon with hpromisc | hnone
          · exact .inl hpromisc
          · exact Bool.noConfusion (hnone.symm.trans hspill)
        · rcases h.multicastSpilled huni hspill with hpromisc | ⟨-, hcovered⟩
          · exact .inl hpromisc
          · exact .inr ⟨fun hzero => hon (UInt8.toNat_inj.1 hzero), hcovered⟩
      next => exact ⟨n, statusErr, rfl, keeps_err⟩

/-- A bit of a word of the VLAN table. -/
theorem and_bit_ne_zero_iff (x : BitVec 32) {i : ℕ} (hi : i < 32) : x &&& 1#32 <<< i ≠ 0 ↔ x.getLsbD i = true := by
  have hbit : ∀ k, (x &&& 1#32 <<< i).getLsbD k = (decide (k = i) && x.getLsbD i) := by
    intro k
    rw [BitVec.getLsbD_and, BitVec.getLsbD_shiftLeft, BitVec.getLsbD_one]
    by_cases hk : k = i
    · subst hk
      simp [hi]
    · simp [hk]
      omega
  constructor
  · intro h
    by_contra hx
    apply h
    apply BitVec.eq_of_getLsbD_eq
    intro k _
    rw [hbit, Bool.eq_false_iff.2 hx]
    simp
  · intro hx h
    have hi' := hbit i
    rw [h, hx] at hi'
    simp at hi'

theorem vlanEnabled_eq (n : Filter) (v : ℕ) : vlanEnabled n v = (n.vlans (v / 32)).getLsbD (v % 32) := by
  have hbit := and_bit_ne_zero_iff (n.vlans (v / 32)) (Nat.mod_lt v (show 0 < 32 by decide))
  exact Bool.eq_iff_iff.2 (decide_eq_true_iff.trans hbit)

theorem getLsbD_or_bit (x : BitVec 32) {i k : ℕ} (hk : k < 32) :
    (x ||| 1#32 <<< i).getLsbD k = (decide (k = i) || x.getLsbD k) := by
  rw [BitVec.getLsbD_or, BitVec.getLsbD_shiftLeft, BitVec.getLsbD_one]
  by_cases h : k = i
  · subst h
    simp [hk]
  · simp [h]
    omega

theorem getLsbD_andNot_bit (x : BitVec 32) {i k : ℕ} (hk : k < 32) :
    (x &&& ~~~(1#32 <<< i)).getLsbD k = (!decide (k = i) && x.getLsbD k) := by
  rw [BitVec.getLsbD_and, BitVec.getLsbD_not, BitVec.getLsbD_shiftLeft, BitVec.getLsbD_one]
  by_cases h : k = i
  · subst h
    simp [hk]
  · simp [h, hk]
    omega

theorem vlanEnabled_update (n : Filter) (vid : ℕ) (on : Bool) {word : BitVec 32}
    (hword : ∀ k < 32, word.getLsbD k = if k = vid % 32 then on else (n.vlans (vid / 32)).getLsbD k) (v : ℕ) :
    vlanEnabled { n with vlans := Function.update n.vlans (vid / 32) word } v =
      Function.update (vlanEnabled n) vid on v := by
  rw [vlanEnabled_eq]
  dsimp only
  by_cases hsame : v / 32 = vid / 32
  · rw [hsame, Function.update_self, hword _ (Nat.mod_lt _ (by decide))]
    by_cases hv : v = vid
    · subst hv
      rw [Function.update_self, if_pos rfl]
    · have hbit : v % 32 ≠ vid % 32 := by omega
      rw [if_neg hbit, Function.update_of_ne hv, vlanEnabled_eq, hsame]
  · have hv : v ≠ vid := fun h => hsame (h ▸ rfl)
    rw [Function.update_of_ne hsame, Function.update_of_ne hv, vlanEnabled_eq]

theorem covers_vlans (h : Covers mac n w) {vid : ℕ} (hvid : vid < maxVlan) (on : Bool) {word : BitVec 32}
    (hword : ∀ k < 32, word.getLsbD k = if k = vid % 32 then on else (n.vlans (vid / 32)).getLsbD k) :
    Covers mac { n with vlans := Function.update n.vlans (vid / 32) word }
      { w with vlans := Function.update w.vlans vid on } := by
  refine ⟨h.inUse, h.unicastSpilled, h.unicast, h.multicast, h.multicastSpilled, fun v hv => ?_⟩
  rw [vlanEnabled_update n vid on hword]
  dsimp only
  by_cases hvv : v = vid
  · subst hvv
    rw [Function.update_self, Function.update_self]
  · rw [Function.update_of_ne hvv, Function.update_of_ne hvv]
    exact h.vlans v hv

theorem handleVlanTable_spec (h : Covers mac n w) (cmd : UInt8) (elem : Elem) :
    ∃ n' status, handleVlanTable n cmd elem = .done n' status ∧
      Keeps mac n { w with vlans := Function.update w.vlans (lduwLe (elem.out 1).data) (decide (cmd = 0)) } n' status := by
  unfold handleVlanTable
  split
  · exact ⟨n, statusErr, rfl, keeps_err⟩
  · dsimp only
    split
    · exact ⟨n, statusErr, rfl, keeps_err⟩
    next hvid =>
      have hlt : lduwLe (elem.out 1).data < maxVlan := not_le.1 hvid
      split
      next hcmd =>
        refine ⟨_, _, rfl, .inl ⟨rfl, covers_vlans h hlt _ fun k hk => ?_⟩⟩
        rw [getLsbD_or_bit _ hk]
        by_cases hbit : k = lduwLe (elem.out 1).data % 32 <;> simp [hbit, hcmd]
      next hadd =>
        split
        next hcmd =>
          refine ⟨_, _, rfl, .inl ⟨rfl, covers_vlans h hlt _ fun k hk => ?_⟩⟩
          rw [getLsbD_andNot_bit _ hk]
          by_cases hbit : k = lduwLe (elem.out 1).data % 32 <;> simp [hbit, hadd]
        next => exact ⟨n, statusErr, rfl, keeps_err⟩

theorem covers_lists (h : Covers mac n w) {u m : Buf} {n' : Filter} (hvlans : n'.vlans = n.vlans)
    (hfit : ldlLe u.data + ldlLe m.data ≤ macTableEntries) (hinUse : n'.inUse = ldlLe u.data + ldlLe m.data)
    (hfirst : ∀ k < ldlLe u.data * ethAlen, n'.macs k = u.data (4 + k))
    (hsecond : ∀ k < ldlLe m.data * ethAlen, n'.macs (ldlLe u.data * ethAlen + k) = m.data (4 + k)) :
    Covers mac n' (w.withLists u m) := by
  have hnoSpill : decide (macTableEntries < ldlLe u.data + ldlLe m.data) = false := decide_eq_false (not_lt.2 hfit)
  refine ⟨hinUse ▸ hfit, ?_, fun _ => ?_, fun _ _ => ?_, fun _ hspill => ?_, fun v hv => ?_⟩
  · intro hspill
    have hlt : macTableEntries < ldlLe u.data := of_decide_eq_true hspill
    omega
  · apply @inTable_of_copied _ _ 0
    · omega
    · intro k hk
      rw [Nat.zero_mul, Nat.zero_add]
      exact hfirst k hk
  · exact inTable_of_copied (Nat.le_of_eq hinUse.symm) hsecond
  · exact Bool.noConfusion (hnoSpill.symm.trans hspill)
  · have hsame : vlanEnabled n' v = vlanEnabled n v := by rw [vlanEnabled, vlanEnabled, hvlans]
    exact hsame.trans (h.vlans v hv)

/-- The first list is in the table, and the second one is covered without it. -/
theorem covers_spilled (h : Covers mac n w) {u m : Buf} {n' : Filter} (hvlans : n'.vlans = n.vlans)
    (hfit : ldlLe u.data ≤ macTableEntries) (hspill : macTableEntries < ldlLe u.data + ldlLe m.data)
    (hinUse : n'.inUse = ldlLe u.data) (hfirst : ∀ k < ldlLe u.data * ethAlen, n'.macs k = u.data (4 + k))
    (hrest : n'.promisc ≠ 0 ∨ n'.allmulti ≠ 0 ∧ Covered mac (addresses u) (addresses m)) :
    Covers mac n' (w.withLists u m) := by
  have hspilled : decide (macTableEntries < ldlLe u.data + ldlLe m.data) = true := decide_eq_true hspill
  refine ⟨hinUse ▸ hfit, ?_, fun _ => ?_, fun _ hno => ?_, fun _ _ => hrest, fun v hv => ?_⟩
  · intro hfirstSpill
    exact absurd (of_decide_eq_true hfirstSpill) (not_lt.2 hfit)
  · apply @inTable_of_copied _ _ 0
    · omega
    · intro k hk
      rw [Nat.zero_mul, Nat.zero_add]
      exact hfirst k hk
  · exact Bool.noConfusion (hspilled.symm.trans hno)
  · have hsame : vlanEnabled n' v = vlanEnabled n v := by rw [vlanEnabled, vlanEnabled, hvlans]
    exact hsame.trans (h.vlans v hv)

theorem withTable_macs {u : Buf} {entries k : ℕ} (hle : entries ≤ macTableEntries) (hk : k < entries * ethAlen) :
    (withTable n u entries).macs k = u.data (4 + k) := by
  have hin : k < listBytes entries := by rwa [listBytes_eq hle]
  have hmem := @Bytes.write_apply_of_mem (fun _ => 0) (u.data.drop 4) 0 _ _ hin
  rw [Nat.zero_add] at hmem
  exact hmem

theorem handleMulticast_spec (h : Covers mac n w) {u m : Buf} (hsafe : TableSafe mac n u m) (hfit : FitsBuffer u)
    (hle : ldlLe u.data ≤ macTableEntries) :
    ∃ n' status, handleMulticast (withTable n u (ldlLe u.data)) m = .done n' status ∧
      Keeps mac n (w.withLists u m) n' status := by
  unfold handleMulticast
  dsimp only
  split
  next hlong =>
    have hsame := ((hsafe.second hfit hle).resolve_left (not_le.2 hlong)).withTable
    exact ⟨_, _, rfl, .inr ⟨rfl, hsame⟩⟩
  next hlong =>
    have hfitM : FitsBuffer m := not_lt.1 hlong
    split
    next hnone =>
      refine ⟨_, _, rfl, .inl ⟨rfl, ?_⟩⟩
      apply covers_lists h
      · rfl
      · omega
      · show ldlLe u.data = _
        omega
      · exact fun k hk => withTable_macs hle hk
      · intro k hk
        rw [hnone, Nat.zero_mul] at hk
        omega
    next =>
      have hsum : ((withTable n u (ldlLe u.data)).inUse + ldlLe m.data) % 2 ^ 32 = ldlLe u.data + ldlLe m.data :=
        Nat.mod_eq_of_lt (hsafe.noWrap hfit hle hfitM)
      rw [hsum]
      split
      next hroom =>
        have hbytes := listBytes_eq (show ldlLe m.data ≤ macTableEntries by omega)
        have hin : (withTable n u (ldlLe u.data)).inUse * ethAlen + listBytes (ldlLe m.data) ≤
            macTableEntries * ethAlen := by
          rw [hbytes, ← Nat.add_mul]
          exact Nat.mul_le_mul_right _ hroom
        rw [copyMacs_ok hin]
        refine ⟨_, _, rfl, .inl ⟨rfl, ?_⟩⟩
        apply covers_lists h
        · rfl
        · exact hroom
        · exact hsum
        · intro k hk
          exact (Bytes.write_apply_of_lt hk).trans (withTable_macs hle hk)
        · intro k hk
          exact Bytes.write_apply_of_mem (by rwa [hbytes])
      next hroom =>
        refine ⟨_, _, rfl, .inl ⟨rfl, ?_⟩⟩
        have hspill := not_le.1 hroom
        have hcases := hsafe.covered hfit hle hfitM hspill
        apply covers_spilled h
        · rfl
        · exact hle
        · exact hspill
        · rfl
        · intro k hk
          exact @withTable_macs n u _ _ hle hk
        · exact hcases.imp id fun hcovered => ⟨Nat.one_ne_zero, hcovered⟩

theorem handleMac_spec (h : Covers mac n w) {cmd : UInt8} {elem : Elem}
    (hsafe : cmd = 0 → elem.outSg.length = 3 → 4 ≤ (elem.out 1).len → 4 ≤ (elem.out 2).len →
      TableSafe mac n (elem.out 1) (elem.out 2)) :
    ∃ n' status, handleMac n cmd elem = .done n' status ∧
      Keeps mac n (w.withLists (elem.out 1) (elem.out 2)) n' status := by
  unfold handleMac
  split
  · exact ⟨n, statusErr, rfl, keeps_err⟩
  next hform =>
    obtain ⟨hcmd, hlen, hfst, hsnd⟩ : cmd = 0 ∧ elem.outSg.length = 3 ∧ 4 ≤ (elem.out 1).len ∧ 4 ≤ (elem.out 2).len := by
      simpa only [not_or, not_not, not_lt, ne_eq] using hform
    have hs := hsafe hcmd hlen hfst hsnd
    dsimp only
    split
    next hlong =>
      have hsame := (hs.first.resolve_left (not_le.2 hlong)).withTable
      exact ⟨_, _, rfl, .inr ⟨rfl, (withTable_zero n (elem.out 1)).trans hsame⟩⟩
    next hlong =>
      have hfit : FitsBuffer (elem.out 1) := not_lt.1 hlong
      split
      next hle =>
        have hin : 0 + listBytes (ldlLe (elem.out 1).data) ≤ macTableEntries * ethAlen := by
          rw [listBytes_eq hle, Nat.zero_add]
          exact Nat.mul_le_mul_right _ hle
        rw [copyMacs_ok hin]
        exact handleMulticast_spec h hs hfit hle
      next hle =>
        have hspill : decide (macTableEntries < ldlLe (elem.out 1).data) = true := decide_eq_true (not_le.1 hle)
        have hno : (w.withLists (elem.out 1) (elem.out 2)).unicastSpilled ≠ false := fun hf =>
          Bool.noConfusion (hspill.symm.trans hf)
        refine ⟨_, _, rfl, .inl ⟨rfl, ?_⟩⟩
        exact ⟨Nat.zero_le _, fun _ => Nat.one_ne_zero, fun hf => absurd hf hno, fun hf => absurd hf hno,
          fun hf => absurd hf hno, h.vlans⟩

/-! ### Runs of commands -/

theorem after_of_refused (w : Wanted) (elem : Elem) {status : ℕ} (h : status ≠ statusOk) : w.after elem status = w :=
  if_pos h

theorem covers_of_keeps (h : Covers mac n w) {elem : Elem} {w' : Wanted} {n' : Filter} {status : ℕ}
    (hkeeps : Keeps mac n w' n' status) (hafter : status = statusOk → w.after elem status = w') :
    Covers mac n' (w.after elem status) ∧ (status = statusErr → n' = n) := by
  rcases hkeeps with ⟨hok, hcovers⟩ | ⟨herr, rfl⟩
  · rw [hafter hok]
    refine ⟨hcovers, fun herr => ?_⟩
    exact absurd (hok.symm.trans herr) (by decide)
  · rw [after_of_refused w elem (by rw [herr]; decide)]
    exact ⟨h, fun _ => rfl⟩

theorem handleClass_spec {c : Card} (h : Covers mac c.filter w) {elem : Elem} (hkept : Kept mac (c, w) elem) :
    handleClass c elem = .exit ∨ ∃ n' status, handleClass c elem = .done n' status ∧
      Covers mac n' (w.after elem status) ∧ (status = statusErr → n' = c.filter) := by
  unfold handleClass
  dsimp only
  split
  next hcls =>
    rcases handleRxMode_spec h (hkept.1 hcls) with hexit | ⟨n', status, hdone, hkeeps⟩
    · exact .inl hexit
    · refine .inr ⟨n', status, hdone, covers_of_keeps h hkeeps fun hok => ?_⟩
      simp [Wanted.after, hok, hcls]
  next =>
    split
    next hcls =>
      obtain ⟨n', status, hdone, hkeeps⟩ := handleMac_spec h (hkept.2 hcls)
      refine .inr ⟨n', status, hdone, covers_of_keeps h hkeeps fun hok => ?_⟩
      simp [Wanted.after, hok, hcls]
    next =>
      split
      next hcls =>
        obtain ⟨n', status, hdone, hkeeps⟩ := handleVlanTable_spec h ((elem.out 0).data 1) elem
        refine .inr ⟨n', status, hdone, covers_of_keeps h hkeeps fun hok => ?_⟩
        simp [Wanted.after, hok, hcls]
      next hmac hvlan =>
        refine .inr ⟨c.filter, _, rfl, ?_, fun _ => rfl⟩
        have hsame : ∀ status, w.after elem status = w := by simp [Wanted.after, hmac, hvlan]
        rw [hsame]
        exact h

/-- A command that keeps to the condition is handled, keeps the promise, and when it is refused leaves
the filter. -/
theorem step_kept {s : Card × Wanted} {elem : Elem} (h : Covers mac s.1.filter s.2) (hkept : Kept mac s elem) :
    ∃ s', step s elem = some s' ∧ Covers mac s'.1.filter s'.2 ∧
      (s'.1.status = statusErr → s'.1.filter = s.1.filter) := by
  obtain ⟨c, w⟩ := s
  unfold step handleCtrl
  by_cases hexited : c.exited = true
  · rw [if_pos hexited]
    refine ⟨_, rfl, ?_, fun _ => rfl⟩
    dsimp only
    rw [if_pos hexited]
    exact h
  · rw [if_neg hexited]
    split
    · exact ⟨_, rfl, h, fun _ => rfl⟩
    · rcases handleClass_spec h hkept with hexit | ⟨n', status, hdone, hcovers, hsame⟩
      · dsimp only
        rw [hexit]
        exact ⟨_, rfl, h, fun _ => rfl⟩
      · dsimp only
        rw [hdone]
        refine ⟨_, rfl, ?_, hsame⟩
        dsimp only
        rw [if_neg hexited]
        exact hcovers

/-- In a run of commands that keep to the condition, each table that is left is small enough, each
frame that is wanted is accepted, and each command that is refused leaves the filter. -/
theorem filter_keepsWanted (mac : List UInt8) {cmds : List Elem} (h : MeetsM step (Kept mac) (.init, .init) cmds)
    (k : ℕ) :
    ∃ s, (cmds.take k).foldlM step (Card.init, Wanted.init) = some s ∧ s.1.filter.inUse ≤ macTableEntries ∧
      (∀ frame, Wants mac s.2 frame → receiveFilter s.1.filter mac frame = true) ∧
      ∀ elem, cmds[k]? = some elem →
        ∃ s', step s elem = some s' ∧ (s'.1.status = statusErr → s'.1.filter = s.1.filter) := by
  obtain ⟨s, hrun, hcovers⟩ := foldlM_take_total
    (fun s elem hs hok => (step_kept hs hok).imp fun _ hs' => ⟨hs'.1, hs'.2.1⟩) cmds _ (covers_init mac) h k
  refine ⟨s, hrun, hcovers.inUse, fun frame hframe => hcovers.accepts hframe, fun elem helem => ?_⟩
  have hsplit : cmds.take k ++ elem :: cmds.drop (k + 1) = cmds := by
    obtain ⟨hk, rfl⟩ := List.getElem?_eq_some_iff.1 helem
    rw [← List.drop_eq_getElem_cons hk, List.take_append_drop]
  rw [← hsplit] at h
  have hkept : Kept mac s elem := ((meetsM_append h).2 s hrun).1
  obtain ⟨s', hstep, -, hsame⟩ := step_kept hcovers hkept
  exact ⟨s', hstep, hsame⟩

/-! ### Examples -/

def bufOf (l : List UInt8) : Buf := ⟨l.length, fun k => l.getD k 0⟩

def command (cls cmd : UInt8) (data : List Buf) : Elem := ⟨bufOf [cls, cmd] :: data, [1], true⟩

def station : List UInt8 := [0x52, 0x54, 0, 0x12, 0x34, 0x56]

/-- The guest switches promiscuous mode off, sets a unicast and a multicast address, and enables a
VLAN. -/
def setup : List Elem :=
  [command 0 0 [bufOf [0]],
    command 1 0 [bufOf [1, 0, 0, 0, 2, 0, 0, 0, 0, 7], bufOf [1, 0, 0, 0, 0x33, 0x33, 0, 0, 0, 1]],
    command 2 0 [bufOf [5, 0]]]

theorem filter_keepsWanted_setup :
    ∃ s, (setup.take 3).foldlM step (Card.init, Wanted.init) = some s ∧ s.1.filter.inUse ≤ macTableEntries ∧
      (∀ frame, Wants station s.2 frame → receiveFilter s.1.filter station frame = true) ∧
      ∀ elem, setup[3]? = some elem →
        ∃ s', step s elem = some s' ∧ (s'.1.status = statusErr → s'.1.filter = s.1.filter) := by
  apply filter_keepsWanted station
  refine ⟨⟨fun _ => ⟨fun _ _ => ⟨rfl, nofun⟩, nofun⟩, nofun⟩, fun s _ => meetsM_of_forall (fun elem helem s => ?_) s⟩
  rcases List.mem_cons.1 helem with rfl | hlast
  · refine ⟨nofun, fun _ _ _ _ _ => ?_⟩
    exact ⟨.inl (by decide), fun _ _ => .inl (by decide), fun _ _ _ => by decide, fun _ _ _ hspill => absurd hspill (by decide)⟩
  · rw [List.mem_singleton.1 hlast]
    exact ⟨nofun, nofun⟩

instance (mac : List UInt8) (w : Wanted) (frame : Bytes) : Decidable (Wants mac w frame) :=
  inferInstanceAs (Decidable (_ ∧ _))

/-- The status, the size of the table, whether a frame is wanted, and whether it is accepted, after a
run of commands. -/
def outcome (cmds : List Elem) (frame : List UInt8) : Option (ℕ × ℕ × Bool × Bool) :=
  (cmds.foldlM step (Card.init, Wanted.init)).map fun s =>
    (s.1.status, s.1.filter.inUse, decide (Wants station s.2 (bufOf frame).data), receiveFilter s.1.filter station (bufOf frame).data)

/-- A table command whose list is longer than its buffer is refused and empties the table. When a list
that does not fit the table has been set, and promiscuous mode is switched off, its addresses are lost. -/
theorem outcome_dropped :
    outcome (setup ++ [command 1 0 [bufOf [2, 0, 0, 0], bufOf [0, 0, 0, 0]]]) [2, 0, 0, 0, 0, 7] =
        some (statusErr, 0, true, false) ∧
      outcome [command 1 0 [⟨202, Function.update (fun _ => 0) 0 33⟩, bufOf [0, 0, 0, 0]], command 0 0 [bufOf [0]]] [] =
        some (statusOk, 0, true, false) := by
  decide

end Ar7Qemu.Virtio.NetFilter
