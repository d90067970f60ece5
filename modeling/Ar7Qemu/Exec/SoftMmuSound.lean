import Ar7Qemu.Exec.CodeProtectSound
import Ar7Qemu.Exec.SoftMmu
import Mathlib.Data.Nat.ModEq

/-! The accesses through the soft TLB are those of their bytes: a load returns the bytes that stand
at its addresses, and a store changes exactly those, or none when `tlb_fill` raises an exception for
one of its pages. -/

namespace Ar7Qemu.Exec.SoftMmu

open CodeProtect (tlbInvalidMask tlbNotdirty codeDirtyFlag toNat_offset toNat_add_lt offset_add page_add_lt tlbIndex_page)
open CodeProtect.State (tlbIndex)
open Lib.WordBytes

variable {t : PhysTarget} {Mode G : Type}

/-! ### Addresses -/

section Addresses

variable {a : VirtAddr t} {s k : ℕ}

theorem toPhys_mod (a : VirtAddr t) : (toPhys a).toNat % t.pageSize = a.toNat % t.pageSize := by
  rw [toPhys, BitVec.toNat_setWidth, Nat.mod_mod_of_dvd]
  exact pageSize_dvd t.phys

theorem toPhys_add (hk : (offset a).toNat + k < t.pageSize) :
    toPhys (a + BitVec.ofNat _ k) = toPhys a + BitVec.ofNat _ k := by
  apply BitVec.eq_of_toNat_eq
  rw [toPhys, toPhys, BitVec.toNat_setWidth, toNat_add_lt hk, BitVec.toNat_add, BitVec.toNat_setWidth, BitVec.toNat_ofNat,
    Nat.add_mod]

theorem toNat_low (hs : s ≤ 3) (a : VirtAddr t) : (a &&& BitVec.ofNat _ (2 ^ s - 1)).toNat = a.toNat % 2 ^ s := by
  have hw : 3 < t.longBits := (show 3 < 6 by decide).trans_le (t.six_le.trans t.lt_longBits.le)
  have hlt : 2 ^ s - 1 < 2 ^ t.longBits :=
    (Nat.sub_le _ _).trans_lt (Nat.pow_lt_pow_right (by decide) (hs.trans_lt hw))
  rw [BitVec.toNat_and, BitVec.toNat_ofNat, Nat.mod_eq_of_lt hlt, Nat.and_two_pow_sub_one_eq_mod]

theorem base_add_low {w : ℕ} (a m : BitVec w) : (a &&& ~~~ m) + (a &&& m) = a := by
  have hdisjoint : (a &&& ~~~ m) &&& (a &&& m) = 0#_ := by
    apply BitVec.eq_of_getLsbD_eq
    intro i hi
    simp only [BitVec.getLsbD_and, BitVec.getLsbD_not, hi, decide_true, Bool.true_and, BitVec.getLsbD_zero]
    cases a.getLsbD i <;> cases m.getLsbD i <;> rfl
  rw [BitVec.add_eq_or_of_and_eq_zero _ _ hdisjoint]
  apply BitVec.eq_of_getLsbD_eq
  intro i hi
  simp only [BitVec.getLsbD_or, BitVec.getLsbD_and, BitVec.getLsbD_not, hi, decide_true, Bool.true_and]
  cases a.getLsbD i <;> cases m.getLsbD i <;> rfl

/-- An access of `2 ^ s` bytes is aligned. -/
def Aligned (s : ℕ) (a : VirtAddr t) : Prop := a &&& BitVec.ofNat _ (2 ^ s - 1) = 0

theorem aligned_iff (hs : s ≤ 3) : Aligned s a ↔ a.toNat % 2 ^ s = 0 := by
  rw [Aligned, ← BitVec.toNat_inj, toNat_low hs]
  rfl

theorem aligned_zero (a : VirtAddr t) : Aligned 0 a := (aligned_iff (by decide)).2 (Nat.mod_one _)

theorem aligned_base (s : ℕ) (a : VirtAddr t) : Aligned s (a &&& ~~~ BitVec.ofNat _ (2 ^ s - 1)) := by
  rw [Aligned, BitVec.and_assoc, BitVec.and_comm (~~~ _), BitVec.and_not_self]
  exact BitVec.and_zero

theorem two_pow_dvd (hs : s ≤ 3) (t : Target) : 2 ^ s ∣ t.pageSize :=
  Nat.pow_dvd_pow 2 (hs.trans ((show 3 ≤ 6 by decide).trans t.six_le))

theorem two_pow_lt_pageSize (hs : s ≤ 3) (t : Target) : 2 ^ s < t.pageSize :=
  Nat.pow_lt_pow_right (by decide) (hs.trans_lt ((show 3 < 6 by decide).trans_le t.six_le))

theorem Aligned.next (hs : s ≤ 3) (h : Aligned s a) : Aligned s (a + BitVec.ofNat _ (2 ^ s)) := by
  rw [aligned_iff hs] at *
  rw [BitVec.toNat_add, BitVec.toNat_ofNat, Nat.add_mod_mod,
    Nat.mod_mod_of_dvd _ ((two_pow_dvd hs t.toTarget).trans (pageSize_dvd _)), Nat.add_mod_right, h]

theorem Aligned.offset_add_le (hs : s ≤ 3) (h : Aligned s a) : (offset a).toNat + 2 ^ s ≤ t.pageSize := by
  obtain ⟨m, hm⟩ := two_pow_dvd hs t.toTarget
  have hlt := CodeProtect.offset_lt a
  have hmod : (offset a).toNat % 2 ^ s = 0 := by
    rw [toNat_offset, Nat.mod_mod_of_dvd _ (two_pow_dvd hs t.toTarget)]
    exact (aligned_iff hs).1 h
  obtain ⟨q, hq⟩ := Nat.dvd_of_mod_eq_zero hmod
  rw [hm, hq] at hlt
  rw [hm, hq, ← Nat.mul_succ]
  exact Nat.mul_le_mul_left _ (Nat.lt_of_mul_lt_mul_left hlt)

theorem tlbIndex_add (hk : (offset a).toNat + k < t.pageSize) : tlbIndex (a + BitVec.ofNat _ k) = tlbIndex a := by
  rw [← tlbIndex_page, page_add_lt hk, tlbIndex_page]

theorem tlbIndex_mod_two {t : Target} (a : Addr t) : tlbIndex a % 2 = a.toNat / t.pageSize % 2 := by
  rw [tlbIndex, show CodeProtect.cpuTlbSize - 1 = 2 ^ 8 - 1 from rfl, Nat.and_two_pow_sub_one_eq_mod,
    Nat.mod_mod_of_dvd _ (by decide), Nat.shiftRight_eq_div_pow]
  rfl

theorem tlbIndex_nextPage_ne {t : Target} (a : Addr t) : tlbIndex (nextPage a) ≠ tlbIndex a := by
  have hS : 0 < t.pageSize := Nat.two_pow_pos _
  have hpages : 2 ^ t.longBits = t.pageSize * 2 ^ (t.longBits - t.pageBits) := by
    rw [Target.pageSize, ← Nat.pow_add, Nat.add_sub_cancel' t.lt_longBits.le]
  have heven : 2 ∣ 2 ^ (t.longBits - t.pageBits) := dvd_pow_self 2 (Nat.sub_ne_zero_of_lt t.lt_longBits)
  have hnext : (nextPage a).toNat / t.pageSize = (a.toNat / t.pageSize + 1) % 2 ^ (t.longBits - t.pageBits) := by
    rw [nextPage, BitVec.toNat_add, toNat_page, BitVec.toNat_ofNat, Nat.add_mod_mod, hpages, ← Nat.succ_mul,
      Nat.mul_comm _ t.pageSize, Nat.mul_mod_mul_left, Nat.mul_div_cancel_left _ hS]
  intro h
  have hparity := congrArg (· % 2) h
  simp only [tlbIndex_mod_two, hnext, Nat.mod_mod_of_dvd _ heven] at hparity
  omega

theorem page_eq_of_tlbIndex {t : Target} {a : Addr t} {k : ℕ} (hk : k < t.pageSize)
    (h : tlbIndex (a + BitVec.ofNat _ k) = tlbIndex a) : page (a + BitVec.ofNat _ k) = page a := by
  rcases page_end a hk with hpage | hpage
  · exact hpage
  · rw [← tlbIndex_page, hpage] at h
    exact absurd h (tlbIndex_nextPage_ne a)

end Addresses

/-! ### Locations -/

/-- Where a byte of the guest stands. -/
inductive Loc (t : PhysTarget) where
  | ram (a : PhysAddr t)
  | io (index : ℕ) (a : PhysAddr t)
  deriving DecidableEq

namespace Loc

/-- The location `k` bytes further. -/
def add : Loc t → ℕ → Loc t
  | ram a, k => ram (a + BitVec.ofNat _ k)
  | io index a, k => io index (a + BitVec.ofNat _ k)

def offset : Loc t → ℕ
  | ram a => a.toNat % t.pageSize
  | io _ a => a.toNat % t.pageSize

end Loc

/-- The byte at a location. -/
def State.content (σ : State t Mode G) : Loc t → BitVec 8
  | .ram a => σ.ram a
  | .io index a => σ.ioMem index a

/-- Where an entry leads to. -/
def CPUTLBEntry.loc (e : CPUTLBEntry t) (acc : AccessType) (addr : VirtAddr t) : Loc t :=
  if offset (e.tlbAddr acc) = 0 then .ram (toPhys addr + e.addend)
  else if ioIndex e.iotlb = ioMemNotdirty then .ram (page e.iotlb + toPhys addr)
  else .io (ioIndex e.iotlb) (page e.iotlb + toPhys addr)

namespace State

variable (σ : State t Mode G)

/-- Where a byte of the guest stands, by the TLB. -/
def loc (acc : AccessType) (m : Mode) (addr : VirtAddr t) : Loc t := (σ.tlbTable m (tlbIndex addr)).loc acc addr

def byteAt (acc : AccessType) (m : Mode) (addr : VirtAddr t) : BitVec 8 := σ.content (σ.loc acc m addr)

/-- The page of an address is in the TLB. -/
def Hit (acc : AccessType) (m : Mode) (addr : VirtAddr t) : Prop := (σ.tlbTable m (tlbIndex addr)).Hit acc addr

end State

/-- An entry for RAM, for RAM that is not dirty, or for I/O without side effects. -/
structure EntryOk (e : CPUTLBEntry t) : Prop where
  aligned : page e.addend = e.addend
  /-- Reads of RAM are direct. -/
  read : ∀ acc a, acc ≠ .write → e.Hit acc a → offset (e.tlbAddr acc) ≠ 0 → ioIndex e.iotlb ≠ ioMemNotdirty
  /-- The handlers of RAM that is not dirty get its address. -/
  ram : ioIndex e.iotlb = ioMemNotdirty → page e.iotlb = e.addend
  notdirty : e.addrWrite = page e.addrWrite ||| tlbNotdirty → ioIndex e.iotlb = ioMemNotdirty

section Locations

variable {e : CPUTLBEntry t} {acc : AccessType} {a : VirtAddr t} {k : ℕ} {σ σ' : State t Mode G}

theorem loc_add (hk : (offset a).toNat + k < t.pageSize) : e.loc acc (a + BitVec.ofNat _ k) = (e.loc acc a).add k := by
  have hleft : toPhys a + BitVec.ofNat _ k + e.addend = toPhys a + e.addend + BitVec.ofNat _ k := by
    rw [BitVec.add_assoc, BitVec.add_comm (BitVec.ofNat _ k), ← BitVec.add_assoc]
  rw [CPUTLBEntry.loc, CPUTLBEntry.loc, toPhys_add hk]
  split_ifs
  · rw [Loc.add, hleft]
  · rw [Loc.add, BitVec.add_assoc]
  · rw [Loc.add, BitVec.add_assoc]

theorem loc_offset (h : page e.addend = e.addend) (acc : AccessType) (a : VirtAddr t) :
    (e.loc acc a).offset = (offset a).toNat := by
  have hdvd : t.pageSize ∣ 2 ^ t.phys.longBits := pageSize_dvd t.phys
  have hzero : ∀ {b : PhysAddr t}, page b = b → b.toNat % t.pageSize = 0 := fun hb =>
    Nat.mod_eq_zero_of_dvd (CodeProtect.page_eq_self_iff.1 hb)
  rw [toNat_offset, ← toPhys_mod, CPUTLBEntry.loc]
  split_ifs
  · rw [Loc.offset, BitVec.toNat_add, Nat.mod_mod_of_dvd _ hdvd, Nat.add_mod, hzero h, Nat.add_zero, Nat.mod_mod]
  · rw [Loc.offset, BitVec.toNat_add, Nat.mod_mod_of_dvd _ hdvd, Nat.add_mod, hzero (page_page _), Nat.zero_add, Nat.mod_mod]
  · rw [Loc.offset, BitVec.toNat_add, Nat.mod_mod_of_dvd _ hdvd, Nat.add_mod, hzero (page_page _), Nat.zero_add, Nat.mod_mod]

theorem offset_add_mod {t : Target} (a : Addr t) (k : ℕ) :
    (offset (a + BitVec.ofNat _ k)).toNat = ((offset a).toNat + k) % t.pageSize := by
  rw [toNat_offset, toNat_offset, BitVec.toNat_add, BitVec.toNat_ofNat, Nat.add_mod_mod, Nat.mod_mod_of_dvd _ (pageSize_dvd t),
    Nat.mod_add_mod]

theorem offset_add_inj {t : Target} {a : Addr t} {i j n : ℕ} (hn : n ≤ t.pageSize) (hi : i < n) (hj : j < n)
    (h : offset (a + BitVec.ofNat _ i) = offset (a + BitVec.ofNat _ j)) : i = j := by
  have h' := congrArg BitVec.toNat h
  rw [offset_add_mod, offset_add_mod] at h'
  have hmod : i % t.pageSize = j % t.pageSize := Nat.ModEq.add_left_cancel' _ h'
  rwa [Nat.mod_eq_of_lt (hi.trans_le hn), Nat.mod_eq_of_lt (hj.trans_le hn)] at hmod

end Locations

/-! ### Loads -/

section Loads

variable {e : CPUTLBEntry t} {acc : AccessType} {m : Mode} {a : VirtAddr t} {s k n : ℕ} {σ σ' : State t Mode G}
  {bigEndian : Bool}

theorem path_cases (hs : s ≤ 3) (e : CPUTLBEntry t) (acc : AccessType) (a : VirtAddr t) :
    (e.path acc a (2 ^ s) = .miss ∧ ¬e.Hit acc a) ∨
    (e.path acc a (2 ^ s) = .io ∧ e.Hit acc a ∧ offset (e.tlbAddr acc) ≠ 0 ∧ (offset a).toNat + 2 ^ s ≤ t.pageSize) ∨
    (e.path acc a (2 ^ s) = .direct ∧ e.Hit acc a ∧ offset (e.tlbAddr acc) = 0 ∧ (offset a).toNat + 2 ^ s ≤ t.pageSize) ∨
    (e.path acc a (2 ^ s) = .unaligned ∧ e.Hit acc a ∧ ¬Aligned s a) := by
  have hpos : 0 < 2 ^ s := Nat.two_pow_pos s
  rw [CPUTLBEntry.path]
  split_ifs with hhit hflags halign hcross
  · exact Or.inr (Or.inr (Or.inr ⟨rfl, hhit, halign⟩))
  · exact Or.inr (Or.inl ⟨rfl, hhit, hflags, Aligned.offset_add_le hs (not_not.1 halign)⟩)
  · refine Or.inr (Or.inr (Or.inr ⟨rfl, hhit, fun h => ?_⟩))
    have hle := h.offset_add_le hs
    omega
  · exact Or.inr (Or.inr (Or.inl ⟨rfl, hhit, not_not.1 hflags, by omega⟩))
  · exact Or.inl ⟨rfl, hhit⟩

theorem Aligned.path_ne (hs : s ≤ 3) (h : Aligned s a) : e.path acc a (2 ^ s) ≠ .unaligned := by
  intro hpath
  rcases path_cases hs e acc a with ⟨h', _⟩ | ⟨h', _⟩ | ⟨h', _⟩ | ⟨_, _, hunaligned⟩
  · exact nomatch hpath.symm.trans h'
  · exact nomatch hpath.symm.trans h'
  · exact nomatch hpath.symm.trans h'
  · exact hunaligned h

theorem aligned_of_io (h : e.path acc a (2 ^ s) = .io) : Aligned s a := by
  rw [CPUTLBEntry.path] at h
  split_ifs at h with hhit hflags halign
  exact not_not.1 halign

theorem Hit.of_page {e : CPUTLBEntry t} {b : VirtAddr t} (hpage : page b = page a) (h : e.Hit acc a) : e.Hit acc b := by
  rw [CPUTLBEntry.Hit, hpage]
  exact h

theorem byteAt_add (hk : (offset a).toNat + k < t.pageSize) :
    σ.byteAt acc m (a + BitVec.ofNat _ k) = σ.content (((σ.tlbTable m (tlbIndex a)).loc acc a).add k) := by
  rw [State.byteAt, State.loc, tlbIndex_add hk, loc_add hk]

theorem hit_of_page {b : VirtAddr t} (hpage : page b = page a) (h : σ.Hit acc m a) : σ.Hit acc m b := by
  rw [State.Hit, ← tlbIndex_page, hpage, tlbIndex_page]
  exact Hit.of_page hpage h

theorem hit_add (hk : (offset a).toNat + k < t.pageSize) (h : σ.Hit acc m a) : σ.Hit acc m (a + BitVec.ofNat _ k) := by
  exact hit_of_page (page_add_lt hk) h

theorem byte_halves (x y : BitVec (8 * 4)) {i : ℕ} (hi : i < 8) :
    byte (x.setWidth (8 * 2 ^ 3) ||| y.setWidth (8 * 2 ^ 3) <<< (8 * 4)) i = if i < 4 then byte x i else byte y (i - 4) := by
  rw [byte_or, byte_setWidth _ (by omega)]
  split_ifs with h
  · rw [byte_shiftLeft_of_lt _ h]
    exact BitVec.or_zero
  · obtain ⟨j, rfl⟩ := Nat.exists_eq_add_of_le (Nat.le_of_not_lt h)
    rw [byte_of_le x (by omega), byte_shiftLeft_add _ (by omega), byte_setWidth _ (by omega), Nat.add_sub_cancel_left]
    exact BitVec.zero_or

theorem byte_ioRead (hs : s ≤ 3) (σ : State t Mode G) (bigEndian : Bool) (p : PhysAddr t) (a : VirtAddr t) {i : ℕ}
    (hi : i < 2 ^ s) : byte (σ.ioRead bigEndian s p a) i =
      σ.ioMem (ioIndex p) (page p + toPhys a + BitVec.ofNat _ (place bigEndian (2 ^ s) i)) := by
  by_cases hsmall : s ≤ 2
  · rw [State.ioRead]
    simp only [if_pos hsmall]
    exact byte_load _ bigEndian _ _ i hi
  · obtain rfl : s = 3 := by omega
    have hfour : ∀ (x : PhysAddr t) (j : ℕ), x + 4 + BitVec.ofNat _ j = x + BitVec.ofNat _ (4 + j) := by
      intro x j
      rw [BitVec.ofNat_add, ← BitVec.add_assoc]
      rfl
    have hbytes : ∀ (x : PhysAddr t) (j : ℕ), j < 4 →
        byte (σ.ioMemRead bigEndian (ioIndex p) 4 x) j = σ.ioMem (ioIndex p) (x + BitVec.ofNat _ (place bigEndian 4 j)) :=
      fun x j hj => byte_load _ bigEndian 4 x j hj
    rw [State.ioRead]
    simp only [if_neg hsmall]
    cases bigEndian
    · rw [if_neg (by decide)]
      refine (byte_halves _ _ hi).trans ?_
      split_ifs with h
      · rw [hbytes _ _ h]
        rfl
      · rw [hbytes _ _ (by omega), hfour]
        simp only [place, Bool.false_eq_true, if_false, Nat.add_sub_cancel' (Nat.le_of_not_lt h)]
    · rw [if_pos rfl, BitVec.or_comm]
      refine (byte_halves _ _ hi).trans ?_
      split_ifs with h
      · rw [hbytes _ _ h, hfour]
        simp only [place, if_true, show 4 + (4 - 1 - i) = 2 ^ 3 - 1 - i by omega]
      · rw [hbytes _ _ (by omega)]
        simp only [place, if_true, show 4 - 1 - (i - 4) = 2 ^ 3 - 1 - i by omega]

/-- A value has the bytes at its addresses, whose pages are in the TLB. -/
structure Loaded (bigEndian : Bool) (acc : AccessType) (m : Mode) (a : VirtAddr t) (n : ℕ) (σ : State t Mode G)
    (v : BitVec (8 * n)) : Prop where
  hit : ∀ i < n, σ.Hit acc m (a + BitVec.ofNat _ i)
  value : v = ofBytes n fun i => σ.byteAt acc m (a + BitVec.ofNat _ (place bigEndian n i))

theorem Loaded.byte {v : BitVec (8 * n)} (h : Loaded bigEndian acc m a n σ v) {i : ℕ} (hi : i < n) :
    byte v i = σ.byteAt acc m (a + BitVec.ofNat _ (place bigEndian n i)) := by
  rw [h.value, byte_ofBytes n _ hi]

theorem loaded_of_bytes {v : BitVec (8 * n)} (hhit : ∀ i < n, σ.Hit acc m (a + BitVec.ofNat _ i))
    (hbytes : ∀ i < n, byte v i = σ.byteAt acc m (a + BitVec.ofNat _ (place bigEndian n i))) :
    Loaded bigEndian acc m a n σ v := by
  refine ⟨hhit, eq_of_byte_eq n _ _ fun i hi => ?_⟩
  rw [hbytes i hi, byte_ofBytes n _ hi]

theorem loaded_io (hs : s ≤ 3) (hok : EntryOk (σ.tlbTable m (tlbIndex a))) (hacc : acc ≠ .write) (hhit : σ.Hit acc m a)
    (hflags : offset ((σ.tlbTable m (tlbIndex a)).tlbAddr acc) ≠ 0) (hin : (offset a).toNat + 2 ^ s ≤ t.pageSize) :
    Loaded bigEndian acc m a (2 ^ s) σ (σ.ioRead bigEndian s (σ.tlbTable m (tlbIndex a)).iotlb a) := by
  apply loaded_of_bytes
  · exact fun i hi => hit_add (by omega) hhit
  · intro i hi
    have hplace := place_lt bigEndian hi
    rw [byte_ioRead hs _ _ _ _ hi, byteAt_add (by omega), CPUTLBEntry.loc, if_neg hflags,
      if_neg (hok.read acc a hacc hhit hflags)]
    rfl

theorem loaded_direct (hhit : σ.Hit acc m a) (hflags : offset ((σ.tlbTable m (tlbIndex a)).tlbAddr acc) = 0)
    (hin : (offset a).toNat + n ≤ t.pageSize) :
    Loaded bigEndian acc m a n σ (σ.ram.load bigEndian n (toPhys a + (σ.tlbTable m (tlbIndex a)).addend)) := by
  apply loaded_of_bytes
  · exact fun i hi => hit_add (by omega) hhit
  · intro i hi
    have hplace := place_lt bigEndian hi
    rw [byte_load _ _ _ _ _ hi, byteAt_add (by omega), CPUTLBEntry.loc, if_pos hflags]
    rfl

/-- The entries of a mode are of the kinds considered here. -/
def Valid (m : Mode) (σ : State t Mode G) : Prop := ∀ i, EntryOk (σ.tlbTable m i)

/-- The memory has not changed. -/
def SameContent (σ σ' : State t Mode G) : Prop := ∀ l, σ'.content l = σ.content l

/-- `tlb_fill` has installed the entry of a page, in the place of that of the same index. -/
structure Installed (acc : AccessType) (m : Mode) (a : VirtAddr t) (σ σ' : State t Mode G) : Prop where
  hit : σ'.Hit acc m a
  entryOk : EntryOk (σ'.tlbTable m (tlbIndex a))
  kept : ∀ i, i ≠ tlbIndex a → σ'.tlbTable m i = σ.tlbTable m i

/-- `tlb_fill` raises an exception or installs the entry of the page, and does nothing else to the
memory and to the entries of the mode. -/
structure LawfulFill (fill : TlbFill t Mode G) : Prop where
  content : ∀ acc m a σ, SameContent σ (fill acc m a σ).2
  installed : ∀ acc m a σ, (fill acc m a σ).1 = true → Installed acc m a σ (fill acc m a σ).2

/-- `tlb_fill` raises an exception for the last page of an access of `n` bytes, which is not in the
TLB. -/
def RaisedLast (fill : TlbFill t Mode G) (acc : AccessType) (m : Mode) (a : VirtAddr t) (n : ℕ) (σ σ' : State t Mode G) : Prop :=
  ∃ b, page b = page (a + BitVec.ofNat _ (n - 1)) ∧ ¬σ.Hit acc m b ∧ fill acc m b σ = (false, σ')

/-- `tlb_fill` raises an exception for the first page, or for the last one when the first is there. -/
def Raised (fill : TlbFill t Mode G) (acc : AccessType) (m : Mode) (a : VirtAddr t) (n : ℕ) (σ σ' : State t Mode G) : Prop :=
  σ.Hit acc m a ∧ RaisedLast fill acc m a n σ σ' ∨
  ¬σ.Hit acc m a ∧ (fill acc m a σ = (false, σ') ∨ ∃ σ₁, fill acc m a σ = (true, σ₁) ∧ RaisedLast fill acc m a n σ₁ σ')

theorem Installed.refl (hok : Valid m σ) (hhit : σ.Hit acc m a) : Installed acc m a σ σ :=
  ⟨hhit, hok _, fun _ _ => rfl⟩

theorem Installed.valid (h : Installed acc m a σ σ') (hok : Valid m σ) : Valid m σ' := by
  intro i
  by_cases hi : i = tlbIndex a
  · rw [hi]
    exact h.entryOk
  · rw [h.kept i hi]
    exact hok i

theorem Installed.byteAt (h : Installed acc m a σ σ') (hsame : SameContent σ σ') {b : VirtAddr t}
    (hb : tlbIndex b ≠ tlbIndex a) : σ'.byteAt acc m b = σ.byteAt acc m b := by
  rw [State.byteAt, State.loc, h.kept _ hb, hsame]
  rfl

theorem Installed.hit_other (h : Installed acc m a σ σ') {b : VirtAddr t} (hb : tlbIndex b ≠ tlbIndex a)
    (hhit : σ.Hit acc m b) : σ'.Hit acc m b := by
  rw [State.Hit, h.kept _ hb]
  exact hhit

theorem fill_cases {fill : TlbFill t Mode G} (hfill : LawfulFill fill) (acc : AccessType) (m : Mode) (a : VirtAddr t)
    (σ : State t Mode G) :
    (∃ σ', fill acc m a σ = (false, σ') ∧ SameContent σ σ') ∨
    ∃ σ', fill acc m a σ = (true, σ') ∧ SameContent σ σ' ∧ Installed acc m a σ σ' := by
  have hsame := hfill.content acc m a σ
  have hinst := hfill.installed acc m a σ
  rcases hfilled : fill acc m a σ with ⟨_ | _, σ'⟩
  · rw [hfilled] at hsame
    exact Or.inl ⟨σ', rfl, hsame⟩
  · rw [hfilled] at hsame hinst
    exact Or.inr ⟨σ', rfl, hsame, hinst rfl⟩

theorem RaisedLast.sameContent {fill : TlbFill t Mode G} (hfill : LawfulFill fill) (h : RaisedLast fill acc m a n σ σ') :
    SameContent σ σ' := by
  obtain ⟨b, -, -, hb⟩ := h
  have hsame := hfill.content acc m b σ
  rwa [hb] at hsame

section SlowLoad

variable {fill : TlbFill t Mode G} {fuel : ℕ}

theorem slowLd_hit (bigEndian : Bool) (fill : TlbFill t Mode G) (fuel : ℕ) (hacc : acc ≠ .write) (hs : s ≤ 3)
    (hok : Valid m σ) (hwhole : (σ.tlbTable m (tlbIndex a)).path acc a (2 ^ s) ≠ .unaligned) (hhit : σ.Hit acc m a) :
    ∃ v, slowLd bigEndian fill s acc m (fuel + 1) a σ = some (.done v, σ) ∧ Loaded bigEndian acc m a (2 ^ s) σ v := by
  rw [slowLd]
  rcases path_cases hs (σ.tlbTable m (tlbIndex a)) acc a with ⟨_, hmiss⟩ | ⟨hpath, _, hflags, hin⟩ |
    ⟨hpath, _, hflags, hin⟩ | ⟨hpath, _⟩
  · exact absurd hhit hmiss
  · simp only [hpath]
    exact ⟨_, rfl, loaded_io hs (hok _) hacc hhit hflags hin⟩
  · simp only [hpath]
    exact ⟨_, rfl, loaded_direct hhit hflags hin⟩
  · exact absurd hpath hwhole

theorem slowLd_miss (hmiss : ¬σ.Hit acc m a) :
    slowLd bigEndian fill s acc m (fuel + 1) a σ =
      afterFill (fill acc m a σ) fun σ => slowLd bigEndian fill s acc m fuel a σ := by
  have hpath : (σ.tlbTable m (tlbIndex a)).path acc a (2 ^ s) = .miss := if_neg hmiss
  rw [slowLd]
  simp only [hpath]

theorem slowLd_aligned (bigEndian : Bool) (hfill : LawfulFill fill) (hacc : acc ≠ .write) (hs : s ≤ 3) (hok : Valid m σ) (halign : Aligned s a)
    (fuel : ℕ) :
    (∃ σ', slowLd bigEndian fill s acc m (fuel + 2) a σ = some (.fault, σ') ∧ ¬σ.Hit acc m a ∧ fill acc m a σ = (false, σ')) ∨
    ∃ v σ', slowLd bigEndian fill s acc m (fuel + 2) a σ = some (.done v, σ') ∧ SameContent σ σ' ∧
      Installed acc m a σ σ' ∧ (σ.Hit acc m a → σ' = σ) ∧ Loaded bigEndian acc m a (2 ^ s) σ' v := by
  by_cases hhit : σ.Hit acc m a
  · obtain ⟨v, heq, hloaded⟩ := slowLd_hit bigEndian fill (fuel + 1) hacc hs hok (halign.path_ne hs) hhit
    exact Or.inr ⟨v, σ, heq, fun l => rfl, Installed.refl hok hhit, fun _ => rfl, hloaded⟩
  · rw [slowLd_miss hhit]
    rcases fill_cases hfill acc m a σ with ⟨σ', heq, hsame⟩ | ⟨σ', heq, hsame, hinst⟩
    · rw [heq]
      exact Or.inl ⟨σ', rfl, hhit, rfl⟩
    · obtain ⟨v, hld, hloaded⟩ := slowLd_hit bigEndian fill fuel hacc hs (hinst.valid hok) (halign.path_ne hs)
        hinst.hit
      rw [heq]
      exact Or.inr ⟨v, σ', hld, hsame, hinst, fun h => absurd h hhit, hloaded⟩

theorem byte_joinWords (bigEndian : Bool) {r : ℕ} (hpos : 0 < r) (hr : r < n) {x y : BitVec (8 * n)} {b : ℕ → BitVec 8}
    (hx : ∀ i < n, byte x i = b (place bigEndian n i)) (hy : ∀ i < n, byte y i = b (n + place bigEndian n i)) {i : ℕ}
    (hi : i < n) : byte (joinWords bigEndian (r * 8) x y) i = b (r + place bigEndian n i) := by
  rw [joinWords, Nat.mul_comm r, ← Nat.mul_sub]
  cases bigEndian
  · simp only [place, Bool.false_eq_true, if_false] at *
    rw [byte_or, byte_ushiftRight]
    by_cases h : i < n - r
    · rw [byte_shiftLeft_of_lt _ h, hx _ (by omega)]
      exact BitVec.or_zero
    · obtain ⟨j, rfl⟩ := Nat.exists_eq_add_of_le (Nat.le_of_not_lt h)
      rw [byte_of_le x (by omega), byte_shiftLeft_add _ (by omega), hy _ (by omega), show r + (n - r + j) = n + j by omega]
      exact BitVec.zero_or
  · simp only [place, if_true] at *
    rw [byte_or, byte_ushiftRight]
    by_cases h : i < r
    · rw [byte_shiftLeft_of_lt _ h, hy _ (by omega), show n + (n - 1 - (n - r + i)) = r + (n - 1 - i) by omega]
      exact BitVec.zero_or
    · obtain ⟨j, rfl⟩ := Nat.exists_eq_add_of_le (Nat.le_of_not_lt h)
      rw [byte_of_le y (by omega), byte_shiftLeft_add _ (by omega), hx _ (by omega),
        show n - 1 - j = r + (n - 1 - (r + j)) by omega]
      exact BitVec.or_zero

theorem base_add_toNat_low (s : ℕ) (a : VirtAddr t) :
    (a &&& ~~~ BitVec.ofNat _ (2 ^ s - 1)) + BitVec.ofNat _ (a &&& BitVec.ofNat _ (2 ^ s - 1)).toNat = a := by
  rw [BitVec.ofNat_toNat, BitVec.setWidth_eq, base_add_low]

/-- A load that is split into two aligned ones. -/
theorem slowLd_unaligned (hfill : LawfulFill fill) (hacc : acc ≠ .write) (hs : s ≤ 3) (hok : Valid m σ)
    (hpath : (σ.tlbTable m (tlbIndex a)).path acc a (2 ^ s) = .unaligned)
    (hhit : σ.Hit acc m a) (fuel : ℕ) :
    (∃ σ', slowLd bigEndian fill s acc m (fuel + 3) a σ = some (.fault, σ') ∧ RaisedLast fill acc m a (2 ^ s) σ σ') ∨
    ∃ v σ', slowLd bigEndian fill s acc m (fuel + 3) a σ = some (.done v, σ') ∧ SameContent σ σ' ∧ Valid m σ' ∧
      Loaded bigEndian acc m a (2 ^ s) σ' v := by
  rw [slowLd]
  simp only [hpath]
  have hsum := base_add_toNat_low s a
  have halign := aligned_base s a
  have hlow := toNat_low hs a
  have hr : (a &&& BitVec.ofNat _ (2 ^ s - 1)).toNat < 2 ^ s := by
    rw [hlow]
    exact Nat.mod_lt _ (Nat.two_pow_pos s)
  have hpos : 0 < (a &&& BitVec.ofNat _ (2 ^ s - 1)).toNat := by
    rw [hlow]
    exact Nat.pos_of_ne_zero fun h => ((aligned_iff hs).2 h).path_ne hs hpath
  generalize a &&& ~~~ BitVec.ofNat _ (2 ^ s - 1) = base at *
  generalize (a &&& BitVec.ofNat _ (2 ^ s - 1)).toNat = r at *
  have hin := halign.offset_add_le hs
  -- the access starts in the first word
  have hpage : page a = page base := by rw [← hsum, page_add_lt (by omega)]
  have hhit₁ : σ.Hit acc m base := hit_of_page hpage.symm hhit
  obtain ⟨x, hx, hloaded₁⟩ := slowLd_hit bigEndian fill (fuel + 1) hacc hs hok (halign.path_ne hs) hhit₁
  rw [hx, andThen]
  rcases slowLd_aligned bigEndian hfill hacc hs hok (halign.next hs) fuel with
    ⟨σ', hy, hmiss, hraised⟩ | ⟨y, σ', hy, hsame, hinst, hkeep, hloaded₂⟩
  · rw [hy]
    refine Or.inl ⟨σ', rfl, base + BitVec.ofNat _ (2 ^ s), ?_, hmiss, hraised⟩
    -- the access ends in the second word
    have hend : a + BitVec.ofNat _ (2 ^ s - 1) = base + BitVec.ofNat _ (2 ^ s) + BitVec.ofNat _ (r - 1) := by
      rw [← hsum, BitVec.add_assoc, BitVec.add_assoc, ← BitVec.ofNat_add, ← BitVec.ofNat_add,
        show r + (2 ^ s - 1) = 2 ^ s + (r - 1) by omega]
    have hin₂ := (halign.next hs).offset_add_le hs
    rw [hend, page_add_lt (by omega : (offset (base + BitVec.ofNat _ (2 ^ s))).toNat + (r - 1) < t.pageSize)]
  · rw [hy]
    refine Or.inr ⟨_, σ', rfl, hsame, hinst.valid hok, ?_⟩
    have hlt := two_pow_lt_pageSize hs t.toTarget
    -- the first word is where it was
    have hkept : ∀ k < 2 ^ s, σ'.byteAt acc m (base + BitVec.ofNat _ k) = σ.byteAt acc m (base + BitVec.ofNat _ k) ∧
        σ'.Hit acc m (base + BitVec.ofNat _ k) := by
      intro k hk
      have hhitk : σ.Hit acc m (base + BitVec.ofNat _ k) := hit_add (by omega) hhit₁
      by_cases hother : tlbIndex (base + BitVec.ofNat _ (2 ^ s)) = tlbIndex base
      · have hpage₂ := page_eq_of_tlbIndex hlt hother
        have hsame' : σ' = σ := hkeep (hit_of_page hpage₂ hhit₁)
        rw [hsame']
        exact ⟨rfl, hhitk⟩
      · have hne : tlbIndex (base + BitVec.ofNat _ k) ≠ tlbIndex (base + BitVec.ofNat _ (2 ^ s)) := by
          rw [tlbIndex_add (by omega)]
          exact fun h => hother h.symm
        exact ⟨hinst.byteAt hsame hne, hinst.hit_other hne hhitk⟩
    have hadd : ∀ i, a + BitVec.ofNat _ i = base + BitVec.ofNat _ (r + i) := by
      intro i
      rw [BitVec.ofNat_add, ← BitVec.add_assoc, hsum]
    have hadd₂ : ∀ i, base + BitVec.ofNat _ (2 ^ s) + BitVec.ofNat _ i = base + BitVec.ofNat _ (2 ^ s + i) := by
      intro i
      rw [BitVec.ofNat_add, ← BitVec.add_assoc]
    apply loaded_of_bytes
    · intro i hi
      rw [hadd]
      by_cases hfirst : r + i < 2 ^ s
      · exact (hkept _ hfirst).2
      · have h := hloaded₂.hit (r + i - 2 ^ s) (by omega)
        rwa [hadd₂, Nat.add_sub_cancel' (Nat.le_of_not_lt hfirst)] at h
    · intro i hi
      rw [hadd]
      apply byte_joinWords (b := fun k => σ'.byteAt acc m (base + BitVec.ofNat _ k)) bigEndian hpos hr _ _ hi
      · intro j hj
        rw [hloaded₁.byte hj, (hkept _ (place_lt bigEndian hj)).1]
      · intro j hj
        rw [hloaded₂.byte hj, hadd₂]

/-- A load by `__ld`, when its page is in the TLB. -/
theorem ld_found (bigEndian : Bool) (hfill : LawfulFill fill) (hacc : acc ≠ .write) (hs : s ≤ 3) (hok : Valid m σ) (hhit : σ.Hit acc m a)
    (fuel : ℕ) :
    (∃ σ', ld bigEndian false fill s acc m (fuel + 4) a σ = some (.fault, σ') ∧ RaisedLast fill acc m a (2 ^ s) σ σ') ∨
    ∃ v σ', ld bigEndian false fill s acc m (fuel + 4) a σ = some (.done v, σ') ∧ SameContent σ σ' ∧ Valid m σ' ∧
      Loaded bigEndian acc m a (2 ^ s) σ' v := by
  rw [ld]
  rcases path_cases hs (σ.tlbTable m (tlbIndex a)) acc a with ⟨_, hmiss⟩ | ⟨hpath, _, hflags, hin⟩ |
    ⟨hpath, _, hflags, hin⟩ | ⟨hpath, _⟩
  · exact absurd hhit hmiss
  · simp only [hpath]
    exact Or.inr ⟨_, _, rfl, fun l => rfl, hok, loaded_io hs (hok _) hacc hhit hflags hin⟩
  · simp only [hpath]
    exact Or.inr ⟨_, _, rfl, fun l => rfl, hok, loaded_direct hhit hflags hin⟩
  · simp only [hpath]
    exact slowLd_unaligned hfill hacc hs hok hpath hhit fuel

/-- Every load ends, with an exception that `tlb_fill` raises or with the bytes at its addresses. -/
theorem ld_loaded (bigEndian : Bool) (hfill : LawfulFill fill) (hacc : acc ≠ .write) (hs : s ≤ 3) (hok : Valid m σ)
    (a : VirtAddr t) (fuel : ℕ) :
    (∃ σ', ld bigEndian false fill s acc m (fuel + 5) a σ = some (.fault, σ') ∧ Raised fill acc m a (2 ^ s) σ σ' ∧
      SameContent σ σ') ∨
    ∃ v σ', ld bigEndian false fill s acc m (fuel + 5) a σ = some (.done v, σ') ∧ SameContent σ σ' ∧ Valid m σ' ∧
      Loaded bigEndian acc m a (2 ^ s) σ' v := by
  by_cases hhit : σ.Hit acc m a
  · rcases ld_found bigEndian hfill hacc hs hok hhit (fuel + 1) with ⟨σ', hld, hraised⟩ | hdone
    · exact Or.inl ⟨σ', hld, Or.inl ⟨hhit, hraised⟩, hraised.sameContent hfill⟩
    · exact Or.inr hdone
  · have hpath : (σ.tlbTable m (tlbIndex a)).path acc a (2 ^ s) = .miss := if_neg hhit
    rw [ld]
    simp only [hpath]
    rcases fill_cases hfill acc m a σ with ⟨σ₁, heq, hsame⟩ | ⟨σ₁, heq, hsame, hinst⟩
    · rw [heq]
      exact Or.inl ⟨σ₁, rfl, Or.inr ⟨hhit, Or.inl heq⟩, hsame⟩
    · rw [heq]
      rcases ld_found bigEndian hfill hacc hs (hinst.valid hok) hinst.hit fuel with
        ⟨σ', hld, hraised⟩ | ⟨v, σ', hld, hsame', hok', hloaded⟩
      · refine Or.inl ⟨σ', hld, Or.inr ⟨hhit, Or.inr ⟨σ₁, heq, hraised⟩⟩, fun l => ?_⟩
        exact (hraised.sameContent hfill l).trans (hsame l)
      · exact Or.inr ⟨v, σ', hld, fun l => (hsame' l).trans (hsame l), hok', hloaded⟩

/-- `ALIGNED_ONLY` makes no difference for an aligned access. -/
theorem ld_alignedOnly (bigEndian alignedOnly : Bool) (fill : TlbFill t Mode G) (hs : s ≤ 3)
    (halign : alignedOnly = true → Aligned s a) (fuel : ℕ) (σ : State t Mode G) :
    ld bigEndian alignedOnly fill s acc m fuel a σ = ld bigEndian false fill s acc m fuel a σ := by
  cases alignedOnly with
  | false => rfl
  | true =>
    have hpass : misaligned true (2 ^ s) a = false := bne_eq_false_iff_eq.2 (halign rfl)
    induction fuel generalizing σ with
    | zero => rfl
    | succ fuel ih =>
      rw [ld, ld, hpass]
      split
      · rfl
      · rename_i hpath
        exact absurd hpath ((halign rfl).path_ne hs)
      · rfl
      · exact congrArg (afterFill _) (funext ih)

theorem ld_misaligned (bigEndian : Bool) (fill : TlbFill t Mode G) (hunaligned : ¬Aligned s a) (fuel : ℕ) :
    ld bigEndian true fill s acc m (fuel + 1) a σ = some (.misaligned, σ) := by
  have hfail : misaligned true (2 ^ s) a = true := bne_iff_ne.2 hunaligned
  rw [ld, hfail]
  split
  · rename_i hpath
    exact absurd (aligned_of_io hpath) hunaligned
  · rfl
  · rfl
  · rfl

/-- A load of one byte whose page is in the TLB. -/
theorem ld_byte (bigEndian : Bool) (fill : TlbFill t Mode G) (hacc : acc ≠ .write) (hok : Valid m σ) (hhit : σ.Hit acc m a)
    (fuel : ℕ) : ld bigEndian false fill 0 acc m (fuel + 1) a σ = some (.done ((σ.byteAt acc m a).setWidth _), σ) := by
  have hvalue : ∀ {v : BitVec (8 * 2 ^ 0)}, Loaded bigEndian acc m a (2 ^ 0) σ v → v = (σ.byteAt acc m a).setWidth _ := by
    intro v h
    apply eq_of_byte_eq (2 ^ 0)
    intro i hi
    obtain rfl : i = 0 := by omega
    have hplace : place bigEndian (2 ^ 0) 0 = 0 := by cases bigEndian <;> rfl
    rw [h.byte hi, hplace, byte_setWidth _ (by omega), BitVec.add_zero, byte_zero]
  rw [ld]
  rcases path_cases (show 0 ≤ 3 by decide) (σ.tlbTable m (tlbIndex a)) acc a with ⟨_, hmiss⟩ | ⟨hpath, _, hflags, hin⟩ |
    ⟨hpath, _, hflags, hin⟩ | ⟨_, _, hunaligned⟩
  · exact absurd hhit hmiss
  · simp only [hpath]
    rw [hvalue (loaded_io (by decide) (hok _) hacc hhit hflags hin)]
  · simp only [hpath]
    rw [hvalue (loaded_direct hhit hflags hin)]
    rfl
  · exact absurd (aligned_zero a) hunaligned

end SlowLoad

end Loads

/-! ### Stores -/

section Stores

variable {m : Mode} {a : VirtAddr t} {s k n : ℕ} {σ σ' σ'' : State t Mode G} {bigEndian : Bool}

/-- The bytes at some locations have been written, and no others. -/
structure Written (P : ℕ → Prop) (dst : ℕ → Loc t) (b : ℕ → BitVec 8) (σ σ' : State t Mode G) : Prop where
  bytes : ∀ i, P i → σ'.content (dst i) = b i
  frame : ∀ l, (∀ i, P i → l ≠ dst i) → σ'.content l = σ.content l

theorem Written.union {P Q R : ℕ → Prop} {dst : ℕ → Loc t} {b : ℕ → BitVec 8} (h : Written P dst b σ σ')
    (h' : Written Q dst b σ' σ'') (hR : ∀ i, R i ↔ P i ∨ Q i) (hinj : ∀ i j, R i → R j → dst i = dst j → i = j) :
    Written R dst b σ σ'' := by
  constructor
  · intro i hi
    by_cases hQ : Q i
    · exact h'.bytes i hQ
    · have hP : P i := ((hR i).1 hi).resolve_right hQ
      rw [h'.frame _ fun j hj heq => hQ (hinj i j hi ((hR j).2 (Or.inr hj)) heq ▸ hj), h.bytes i hP]
  · intro l hl
    rw [h'.frame l fun i hi => hl i ((hR i).2 (Or.inr hi)), h.frame l fun i hi => hl i ((hR i).2 (Or.inl hi))]

theorem add_ofNat_inj {w : ℕ} {x : BitVec w} {i j : ℕ} (hn : n ≤ 2 ^ w) (hi : i < n) (hj : j < n)
    (h : x + BitVec.ofNat w i = x + BitVec.ofNat w j) : i = j := by
  have h' := congrArg BitVec.toNat ((BitVec.add_right_inj x).1 h)
  rwa [BitVec.toNat_ofNat, BitVec.toNat_ofNat, Nat.mod_eq_of_lt (hi.trans_le hn), Nat.mod_eq_of_lt (hj.trans_le hn)] at h'

theorem store_add {w : ℕ} (mem : Memory w) (bigEndian : Bool) (x : BitVec w) (v : BitVec (8 * n)) (hn : n ≤ 2 ^ w) {i : ℕ}
    (hi : i < n) : mem.store bigEndian n x v (x + BitVec.ofNat w i) = byte v (place bigEndian n i) := by
  have hdist : (x + BitVec.ofNat w i - x).toNat = i := by
    rw [BitVec.add_comm, BitVec.add_sub_cancel, BitVec.toNat_ofNat, Nat.mod_eq_of_lt (hi.trans_le hn)]
  rw [Memory.store, hdist, if_pos hi]

theorem store_of_ne {w : ℕ} (mem : Memory w) (bigEndian : Bool) (x : BitVec w) (v : BitVec (8 * n)) {y : BitVec w}
    (hy : ∀ i < n, y ≠ x + BitVec.ofNat w i) : mem.store bigEndian n x v y = mem y := by
  rw [Memory.store, if_neg]
  intro hlt
  apply hy _ hlt
  rw [BitVec.ofNat_toNat, BitVec.setWidth_eq, BitVec.add_comm, BitVec.sub_add_cancel]

def handlerLoc (index : ℕ) (p : PhysAddr t) : Loc t := if index = ioMemNotdirty then .ram p else .io index p

theorem handlerLoc_add (index : ℕ) (p : PhysAddr t) (k : ℕ) :
    handlerLoc index (p + BitVec.ofNat _ k) = (handlerLoc index p).add k := by
  rw [handlerLoc, handlerLoc]
  split_ifs <;> rfl

theorem size_le (hn : n ≤ 8) (t : PhysTarget) : n ≤ 2 ^ t.phys.longBits := by
  have h : 2 ^ 3 ≤ 2 ^ t.physBits := Nat.pow_le_pow_right (by decide)
    ((show 3 ≤ 6 by decide).trans (t.six_le.trans t.lt_physBits.le))
  exact hn.trans h

theorem written_ram (hn : n ≤ 8) (x : PhysAddr t) (v : BitVec (8 * n)) (hram : σ'.ram = σ.ram.store bigEndian n x v)
    (hio : σ'.ioMem = σ.ioMem) :
    Written (· < n) (fun i => (Loc.ram x).add i) (fun i => byte v (place bigEndian n i)) σ σ' := by
  constructor
  · intro i hi
    exact (congrFun hram _).trans (store_add _ bigEndian x v (size_le hn t) hi)
  · intro l hl
    cases l with
    | ram y => exact (congrFun hram y).trans (store_of_ne _ bigEndian x v fun i hi heq => hl i hi (congrArg Loc.ram heq))
    | io index y => exact congrFun (congrFun hio index) y

theorem written_io (hn : n ≤ 8) (index : ℕ) (x : PhysAddr t) (v : BitVec (8 * n)) (hram : σ'.ram = σ.ram)
    (hio : σ'.ioMem = Function.update σ.ioMem index ((σ.ioMem index).store bigEndian n x v)) :
    Written (· < n) (fun i => (Loc.io index x).add i) (fun i => byte v (place bigEndian n i)) σ σ' := by
  constructor
  · intro i hi
    refine (congrFun (congrFun hio index) _).trans ?_
    rw [Function.update_self]
    exact store_add _ bigEndian x v (size_le hn t) hi
  · intro l hl
    cases l with
    | ram y => exact congrFun hram y
    | io other y =>
      refine (congrFun (congrFun hio other) y).trans ?_
      by_cases hother : other = index
      · subst hother
        rw [Function.update_self]
        exact store_of_ne _ bigEndian x v fun i hi heq => hl i hi (congrArg (Loc.io other) heq)
      · rw [Function.update_of_ne hother]
        rfl

/-- The TLB has changed only in that the flag of pages that are not dirty may be gone. -/
structure Cleaned (m : Mode) (σ σ' : State t Mode G) : Prop where
  valid : Valid m σ'
  hit : ∀ i a, (σ.tlbTable m i).Hit .write a → (σ'.tlbTable m i).Hit .write a
  loc : ∀ i a, (σ'.tlbTable m i).loc .write a = (σ.tlbTable m i).loc .write a

theorem Cleaned.of_tlbTable (hok : Valid m σ) (h : σ'.tlbTable = σ.tlbTable) : Cleaned m σ σ' := by
  constructor
  · rw [Valid, h]
    exact hok
  · rw [h]
    exact fun _ _ hhit => hhit
  · rw [h]
    exact fun _ _ => rfl

theorem Cleaned.trans (h : Cleaned m σ σ') (h' : Cleaned m σ' σ'') : Cleaned m σ σ'' :=
  ⟨h'.valid, fun i a hhit => h'.hit i a (h.hit i a hhit), fun i a => (h'.loc i a).trans (h.loc i a)⟩

theorem page_and_hitMask {t : Target} (x : Addr t) : page x &&& (pageMask t ||| tlbInvalidMask) = page x := by
  apply BitVec.eq_of_getLsbD_eq
  intro i _
  rw [page, BitVec.getLsbD_and, BitVec.getLsbD_and, BitVec.getLsbD_or]
  cases (pageMask t).getLsbD i <;> simp

section SetDirty

variable {e : CPUTLBEntry t} {vaddr : VirtAddr t}

/-- The entry of a page that has been marked dirty leads to where it did. -/
theorem tlbSetDirty1_clean (hok : EntryOk e) (hv : page vaddr = vaddr) (heq : e.addrWrite = vaddr ||| tlbNotdirty) :
    EntryOk { e with addrWrite := vaddr } ∧ (∀ a, e.Hit .write a → ({ e with addrWrite := vaddr } : CPUTLBEntry t).Hit .write a) ∧
      ∀ a, ({ e with addrWrite := vaddr } : CPUTLBEntry t).loc .write a = e.loc .write a := by
  have hpage : page e.addrWrite = vaddr := by rw [heq, CodeProtect.page_or_notdirty, hv]
  have hindex : ioIndex e.iotlb = ioMemNotdirty := hok.notdirty (by rw [hpage, heq])
  refine ⟨⟨hok.aligned, ?_, hok.ram, fun _ => hindex⟩, ?_, ?_⟩
  · intro acc a hacc hhit hflags
    cases acc with
    | read => exact hok.read .read a hacc hhit hflags
    | write => exact absurd rfl hacc
    | code => exact hok.read .code a hacc hhit hflags
  · intro a hhit
    have ha : page a = vaddr := by
      rw [← page_page, hhit, CodeProtect.page_and_mask]
      exact hpage
    rw [CPUTLBEntry.Hit, ha, CPUTLBEntry.tlbAddr, ← hv, page_and_hitMask]
  · intro a
    have hflags : offset e.addrWrite ≠ 0 := by
      rw [heq]
      exact CodeProtect.offset_or_notdirty vaddr
    have hzero : offset vaddr = 0 := by
      rw [← hv]
      exact offset_page vaddr
    rw [CPUTLBEntry.loc, CPUTLBEntry.loc, CPUTLBEntry.tlbAddr, CPUTLBEntry.tlbAddr, if_pos hzero, if_neg hflags, if_pos hindex,
      hok.ram hindex, BitVec.add_comm]

end SetDirty

theorem cleaned_tlbSetDirty (hok : Valid m σ) (vaddr : VirtAddr t) : Cleaned m σ (σ.tlbSetDirty vaddr) := by
  have hentry : ∀ i, (σ.tlbSetDirty vaddr).tlbTable m i = σ.tlbTable m i ∨
      (σ.tlbTable m i).addrWrite = page vaddr ||| tlbNotdirty ∧
        (σ.tlbSetDirty vaddr).tlbTable m i = { σ.tlbTable m i with addrWrite := page vaddr } := by
    intro i
    simp only [State.tlbSetDirty, CPUTLBEntry.tlbSetDirty1]
    split_ifs with hi hflag
    · exact Or.inr ⟨hflag, rfl⟩
    · exact Or.inl rfl
    · exact Or.inl rfl
  constructor
  · intro i
    rcases hentry i with heq | ⟨hflag, heq⟩
    · rw [heq]
      exact hok i
    · rw [heq]
      exact (tlbSetDirty1_clean (hok i) (page_page vaddr) hflag).1
  · intro i a hhit
    rcases hentry i with heq | ⟨hflag, heq⟩
    · rw [heq]
      exact hhit
    · rw [heq]
      exact (tlbSetDirty1_clean (hok i) (page_page vaddr) hflag).2.1 a hhit
  · intro i a
    rcases hentry i with heq | ⟨hflag, heq⟩
    · rw [heq]
    · rw [heq]
      exact (tlbSetDirty1_clean (hok i) (page_page vaddr) hflag).2.2 a

theorem notdirtyMemWrite_spec (bigEndian : Bool) (tbInvalidate : TbInvalidate t G) (hok : Valid m σ) (vaddr : VirtAddr t) (x : PhysAddr t) (v : BitVec (8 * n)) :
    (σ.notdirtyMemWrite bigEndian tbInvalidate n vaddr x v).ram = σ.ram.store bigEndian n x v ∧
    (σ.notdirtyMemWrite bigEndian tbInvalidate n vaddr x v).ioMem = σ.ioMem ∧
    Cleaned m σ (σ.notdirtyMemWrite bigEndian tbInvalidate n vaddr x v) := by
  rw [State.notdirtyMemWrite]
  dsimp only
  split_ifs
  · refine ⟨rfl, rfl, Cleaned.trans (Cleaned.of_tlbTable hok ?_) (cleaned_tlbSetDirty ?_ vaddr)⟩
    · rfl
    · exact hok
  · exact ⟨rfl, rfl, Cleaned.of_tlbTable hok rfl⟩
  · refine ⟨rfl, rfl, Cleaned.trans (Cleaned.of_tlbTable hok ?_) (cleaned_tlbSetDirty ?_ vaddr)⟩
    · rfl
    · exact hok
  · exact ⟨rfl, rfl, Cleaned.of_tlbTable hok rfl⟩

theorem ioMemWrite_spec (bigEndian : Bool) (tbInvalidate : TbInvalidate t G) (hok : Valid m σ) (hn : n ≤ 8) (index : ℕ)
    (vaddr : VirtAddr t) (x : PhysAddr t) (v : BitVec (8 * n)) :
    Written (· < n) (fun i => (handlerLoc index x).add i) (fun i => byte v (place bigEndian n i)) σ
      (σ.ioMemWrite bigEndian tbInvalidate index n vaddr x v) ∧
    Cleaned m σ (σ.ioMemWrite bigEndian tbInvalidate index n vaddr x v) := by
  rw [State.ioMemWrite, handlerLoc]
  split_ifs with hindex
  · obtain ⟨hram, hio, hclean⟩ := notdirtyMemWrite_spec bigEndian tbInvalidate hok vaddr x v
    exact ⟨written_ram hn x v hram hio, hclean⟩
  · exact ⟨written_io hn index x v rfl rfl, Cleaned.of_tlbTable hok rfl⟩

theorem Loc.add_add (l : Loc t) (i j : ℕ) : (l.add i).add j = l.add (i + j) := by
  cases l <;> rw [Loc.add, Loc.add, Loc.add, BitVec.ofNat_add, BitVec.add_assoc]

theorem Loc.add_inj {l : Loc t} {i j : ℕ} (hn : n ≤ 8) (hi : i < n) (hj : j < n) (h : l.add i = l.add j) : i = j := by
  cases l with
  | ram x => exact add_ofNat_inj (size_le hn t) hi hj (Loc.ram.inj h)
  | io index x => exact add_ofNat_inj (size_le hn t) hi hj (Loc.io.inj h).2

theorem Written.congr {P Q : ℕ → Prop} {dst dst' : ℕ → Loc t} {b b' : ℕ → BitVec 8} (h : Written P dst b σ σ')
    (hP : ∀ i, P i ↔ Q i) (hdst : ∀ i, Q i → dst' i = dst i) (hb : ∀ i, Q i → b' i = b i) : Written Q dst' b' σ σ' := by
  constructor
  · intro i hi
    rw [hdst i hi, hb i hi]
    exact h.bytes i ((hP i).2 hi)
  · exact fun l hl => h.frame l fun i hi => hdst i ((hP i).1 hi) ▸ hl i ((hP i).1 hi)

theorem Written.shift {dst : ℕ → Loc t} {b : ℕ → BitVec 8} (h : Written (· < n) (fun i => dst (k + i)) (fun i => b (k + i)) σ σ') :
    Written (fun i => k ≤ i ∧ i < k + n) dst b σ σ' := by
  constructor
  · rintro i ⟨hk, hi⟩
    obtain ⟨j, rfl⟩ := Nat.exists_eq_add_of_le hk
    exact h.bytes j (Nat.lt_of_add_lt_add_left hi)
  · exact fun l hl => h.frame l fun i hi => hl (k + i) ⟨Nat.le_add_right k i, Nat.add_lt_add_left hi k⟩

/-- A store through the handlers of a page, whole or in two halves. -/
theorem ioWrite_spec (bigEndian : Bool) (tbInvalidate : TbInvalidate t G) (hok : Valid m σ) (hs : s ≤ 3) (p : PhysAddr t)
    (v : BitVec (8 * 2 ^ s)) (a : VirtAddr t) :
    Written (· < 2 ^ s) (fun i => (handlerLoc (ioIndex p) (page p + toPhys a)).add i)
      (fun i => byte v (place bigEndian (2 ^ s) i)) σ (σ.ioWrite bigEndian tbInvalidate s p v a) ∧
    Cleaned m σ (σ.ioWrite bigEndian tbInvalidate s p v a) := by
  have hsize : 2 ^ s ≤ 2 ^ 3 := Nat.pow_le_pow_right (by decide) hs
  by_cases hsmall : s ≤ 2
  · rw [State.ioWrite]
    simp only [if_pos hsmall]
    exact ioMemWrite_spec bigEndian tbInvalidate hok hsize _ a _ v
  · obtain rfl : s = 3 := by omega
    rw [State.ioWrite]
    simp only [if_neg hsmall]
    generalize hx : page p + toPhys a = x
    obtain ⟨hw₁, hc₁⟩ := ioMemWrite_spec bigEndian tbInvalidate hok (show 4 ≤ 8 by decide) (ioIndex p) a x
      ((if bigEndian = true then v >>> 32 else v).setWidth (8 * 4))
    obtain ⟨hw₂, hc₂⟩ := ioMemWrite_spec bigEndian tbInvalidate hc₁.valid (show 4 ≤ 8 by decide) (ioIndex p) a (x + 4)
      ((if bigEndian = true then v else v >>> 32).setWidth (8 * 4))
    refine ⟨?_, hc₁.trans hc₂⟩
    generalize State.ioMemWrite _ _ _ _ _ _ (x + 4) _ = σ₂ at *
    generalize State.ioMemWrite _ _ _ _ _ _ x _ = σ₁ at *
    have hfirst : Written (· < 4) (fun i => (handlerLoc (ioIndex p) x).add i) (fun i => byte v (place bigEndian (2 ^ 3) i)) σ σ₁ := by
      apply hw₁.congr (fun i => Iff.rfl) (fun i hi => rfl)
      intro i hi
      cases bigEndian
      · exact (byte_setWidth v (by simp only [place, Bool.false_eq_true, if_false]; omega)).symm
      · simp only [place, if_true]
        rw [byte_setWidth _ (by omega), show 32 = 8 * 4 from rfl, byte_ushiftRight, show 4 + (4 - 1 - i) = 2 ^ 3 - 1 - i by omega]
    have hsecond : Written (fun i => 4 ≤ i ∧ i < 4 + 4) (fun i => (handlerLoc (ioIndex p) x).add i)
        (fun i => byte v (place bigEndian (2 ^ 3) i)) σ₁ σ₂ := by
      apply Written.shift
      apply hw₂.congr (fun i => Iff.rfl)
      · intro i hi
        rw [show x + 4 = x + BitVec.ofNat _ 4 from rfl, handlerLoc_add, Loc.add_add]
      · intro i hi
        cases bigEndian
        · simp only [place, Bool.false_eq_true, if_false]
          rw [byte_setWidth _ (by omega), show 32 = 8 * 4 from rfl, byte_ushiftRight]
        · simp only [place, if_true]
          rw [byte_setWidth _ (by omega), show 2 ^ 3 - 1 - (4 + i) = 4 - 1 - i by omega]
    exact hfirst.union hsecond (fun i => by omega) fun i j hi hj heq => Loc.add_inj (show 2 ^ 3 ≤ 8 by decide) hi hj heq

/-- A value has been stored: its bytes are at the addresses, whose pages are in the TLB, and nothing
else has changed. -/
structure Stored (bigEndian : Bool) (m : Mode) (a : VirtAddr t) (n : ℕ) (v : BitVec (8 * n)) (σ σ' : State t Mode G) : Prop where
  hit : ∀ i < n, σ'.Hit .write m (a + BitVec.ofNat _ i)
  bytes : ∀ i < n, σ'.byteAt .write m (a + BitVec.ofNat _ i) = byte v (place bigEndian n i)
  frame : ∀ l, (∀ i < n, l ≠ σ'.loc .write m (a + BitVec.ofNat _ i)) → σ'.content l = σ.content l

/-- The bytes of a value have been written where the TLB says. -/
def Put (bigEndian : Bool) (m : Mode) (a : VirtAddr t) (n : ℕ) (v : BitVec (8 * n)) (σ σ' : State t Mode G) : Prop :=
  Written (· < n) (fun i => σ.loc .write m (a + BitVec.ofNat _ i)) (fun i => byte v (place bigEndian n i)) σ σ'

theorem Put.stored {v : BitVec (8 * n)} (h : Put bigEndian m a n v σ' σ'') (hclean : Cleaned m σ' σ'')
    (hsame : SameContent σ σ') (hhit : ∀ i < n, σ'.Hit .write m (a + BitVec.ofNat _ i)) : Stored bigEndian m a n v σ σ'' := by
  have hloc : ∀ b, σ''.loc .write m b = σ'.loc .write m b := fun b => hclean.loc _ b
  constructor
  · exact fun i hi => hclean.hit _ _ (hhit i hi)
  · intro i hi
    rw [State.byteAt, hloc]
    exact h.bytes i hi
  · intro l hl
    rw [h.frame l fun i hi => hloc _ ▸ hl i hi, hsame]

theorem put_io (hok : Valid m σ) (hs : s ≤ 3) (hflags : offset ((σ.tlbTable m (tlbIndex a)).tlbAddr .write) ≠ 0)
    (hin : (offset a).toNat + 2 ^ s ≤ t.pageSize) (tbInvalidate : TbInvalidate t G) (v : BitVec (8 * 2 ^ s)) :
    Put bigEndian m a (2 ^ s) v σ (σ.ioWrite bigEndian tbInvalidate s (σ.tlbTable m (tlbIndex a)).iotlb v a) := by
  apply (ioWrite_spec bigEndian tbInvalidate hok hs _ v a).1.congr (fun i => Iff.rfl)
  · intro i hi
    rw [State.loc, tlbIndex_add (by omega), loc_add (by omega), CPUTLBEntry.loc, if_neg hflags, handlerLoc]
  · exact fun i hi => rfl

theorem put_direct (hs : s ≤ 3) (hflags : offset ((σ.tlbTable m (tlbIndex a)).tlbAddr .write) = 0)
    (hin : (offset a).toNat + 2 ^ s ≤ t.pageSize) (v : BitVec (8 * 2 ^ s)) :
    Put bigEndian m a (2 ^ s) v σ
      { σ with ram := σ.ram.store bigEndian (2 ^ s) (toPhys a + (σ.tlbTable m (tlbIndex a)).addend) v } := by
  have hsize : 2 ^ s ≤ 2 ^ 3 := Nat.pow_le_pow_right (by decide) hs
  have hwritten : ∀ σ' : State t Mode G,
      σ'.ram = σ.ram.store bigEndian (2 ^ s) (toPhys a + (σ.tlbTable m (tlbIndex a)).addend) v → σ'.ioMem = σ.ioMem →
      Put bigEndian m a (2 ^ s) v σ σ' := by
    intro σ' hram hio
    apply (written_ram hsize _ v hram hio).congr (fun i => Iff.rfl)
    · intro i hi
      rw [State.loc, tlbIndex_add (by omega), loc_add (by omega), CPUTLBEntry.loc, if_pos hflags]
    · exact fun i hi => rfl
  exact hwritten _ rfl rfl

section SlowStore

variable {fill : TlbFill t Mode G} {tbInvalidate : TbInvalidate t G} {fuel : ℕ}

theorem slowSt_hit (bigEndian : Bool) (fill : TlbFill t Mode G) (tbInvalidate : TbInvalidate t G) (fuel : ℕ) (hs : s ≤ 3)
    (hok : Valid m σ) (hwhole : (σ.tlbTable m (tlbIndex a)).path .write a (2 ^ s) ≠ .unaligned) (hhit : σ.Hit .write m a)
    (v : BitVec (8 * 2 ^ s)) :
    ∃ σ', slowSt bigEndian fill tbInvalidate m (fuel + 1) s a v σ = some (.done (), σ') ∧
      Put bigEndian m a (2 ^ s) v σ σ' ∧ Cleaned m σ σ' := by
  rw [slowSt]
  rcases path_cases hs (σ.tlbTable m (tlbIndex a)) .write a with ⟨_, hmiss⟩ | ⟨hpath, _, hflags, hin⟩ |
    ⟨hpath, _, hflags, hin⟩ | ⟨hpath, _⟩
  · exact absurd hhit hmiss
  · simp only [hpath]
    exact ⟨_, rfl, put_io hok hs hflags hin tbInvalidate v, (ioWrite_spec bigEndian tbInvalidate hok hs _ v a).2⟩
  · simp only [hpath]
    exact ⟨_, rfl, put_direct hs hflags hin v, Cleaned.of_tlbTable hok rfl⟩
  · exact absurd hpath hwhole

theorem slowSt_miss (hmiss : ¬σ.Hit .write m a) (v : BitVec (8 * 2 ^ s)) :
    slowSt bigEndian fill tbInvalidate m (fuel + 1) s a v σ =
      afterFill (fill .write m a σ) fun σ => slowSt bigEndian fill tbInvalidate m fuel s a v σ := by
  have hpath : (σ.tlbTable m (tlbIndex a)).path .write a (2 ^ s) = .miss := if_neg hmiss
  rw [slowSt]
  simp only [hpath]

theorem page_first_or_last {t : Target} (a : Addr t) {i : ℕ} (hn : k < t.pageSize) (hi : i ≤ k) :
    page (a + BitVec.ofNat _ i) = page a ∨ page (a + BitVec.ofNat _ i) = page (a + BitVec.ofNat _ k) := by
  by_cases hfirst : (offset a).toNat + i < t.pageSize
  · exact Or.inl (page_add_lt hfirst)
  · have hlt := CodeProtect.offset_lt a
    obtain ⟨j, rfl⟩ := Nat.exists_eq_add_of_le hi
    have hoff : (offset (a + BitVec.ofNat _ i)).toNat = (offset a).toNat + i - t.pageSize := by
      rw [offset_add_mod, Nat.mod_eq_sub_mod (Nat.le_of_not_lt hfirst), Nat.mod_eq_of_lt (by omega)]
    rw [BitVec.ofNat_add, ← BitVec.add_assoc, page_add_lt (by omega : (offset (a + BitVec.ofNat _ i)).toNat + j < t.pageSize)]
    exact Or.inr rfl

theorem hit_all (hn : k < t.pageSize) (hfirst : σ.Hit .write m a) (hlast : σ.Hit .write m (a + BitVec.ofNat _ k)) {i : ℕ}
    (hi : i ≤ k) : σ.Hit .write m (a + BitVec.ofNat _ i) := by
  rcases page_first_or_last a hn hi with hpage | hpage
  · exact hit_of_page hpage hfirst
  · exact hit_of_page hpage hlast

theorem loc_inj (hok : Valid m σ) (hn : n ≤ t.pageSize) {i j : ℕ} (hi : i < n) (hj : j < n)
    (h : σ.loc .write m (a + BitVec.ofNat _ i) = σ.loc .write m (a + BitVec.ofNat _ j)) : i = j := by
  apply offset_add_inj (a := a) hn hi hj
  have hoff := congrArg Loc.offset h
  rw [State.loc, State.loc, loc_offset (hok _).aligned, loc_offset (hok _).aligned] at hoff
  exact BitVec.eq_of_toNat_eq hoff

/-- One byte of a store that is split, when its page is in the TLB. -/
theorem slowSt_byte (bigEndian : Bool) (fill : TlbFill t Mode G) (tbInvalidate : TbInvalidate t G) (fuel : ℕ)
    (hok : Valid m σ) (v : BitVec (8 * n)) {j : ℕ} (hj : j < n) (hhit : σ.Hit .write m (a + BitVec.ofNat _ j)) :
    ∃ σ', slowSt bigEndian fill tbInvalidate m (fuel + 1) 0 (a + BitVec.ofNat _ j)
        ((v >>> (if bigEndian then (n - 1) * 8 - j * 8 else j * 8)).setWidth _) σ = some (.done (), σ') ∧
      Written (· = j) (fun i => σ.loc .write m (a + BitVec.ofNat _ i)) (fun i => byte v (place bigEndian n i)) σ σ' ∧
      Cleaned m σ σ' := by
  obtain ⟨σ', hst, hput, hclean⟩ := slowSt_hit bigEndian fill tbInvalidate fuel (show 0 ≤ 3 by decide) hok
    ((aligned_zero _).path_ne (by decide)) hhit ((v >>> (if bigEndian then (n - 1) * 8 - j * 8 else j * 8)).setWidth _)
  refine ⟨σ', hst, ?_, hclean⟩
  have hshift : (if bigEndian then (n - 1) * 8 - j * 8 else j * 8) = 8 * place bigEndian n j := by
    rw [place]
    split <;> omega
  have hmoved : Written (fun i => j ≤ i ∧ i < j + 2 ^ 0) (fun i => σ.loc .write m (a + BitVec.ofNat _ i))
      (fun i => byte v (place bigEndian n i)) σ σ' := by
    apply Written.shift
    apply hput.congr (fun i => Iff.rfl)
    · intro i hi
      rw [BitVec.ofNat_add, ← BitVec.add_assoc]
    · intro i hi
      obtain rfl : i = 0 := by omega
      have hplace : place bigEndian (2 ^ 0) 0 = 0 := by cases bigEndian <;> rfl
      rw [hplace, hshift, byte_setWidth _ (by omega), byte_ushiftRight]
      rfl
  exact hmoved.congr (fun i => by omega) (fun i hi => rfl) fun i hi => rfl

theorem downLoop_written {body : ℕ → State t Mode G → Run t Mode G Unit} {P : State t Mode G → Prop} {dst : ℕ → Loc t}
    {b : ℕ → BitVec 8} (hinj : ∀ i j, i < n → j < n → dst i = dst j → i = j)
    (hbody : ∀ j < n, ∀ σ, P σ → ∃ σ', body j σ = some (.done (), σ') ∧ Written (· = j) dst b σ σ' ∧ P σ') :
    ∀ k ≤ n, ∀ σ, P σ → ∃ σ', downLoop body k σ = some (.done (), σ') ∧ Written (· < k) dst b σ σ' ∧ P σ' := by
  intro k hk
  induction k with
  | zero => exact fun σ hσ => ⟨σ, rfl, ⟨fun i hi => absurd hi (Nat.not_lt_zero i), fun l _ => rfl⟩, hσ⟩
  | succ k ih =>
    intro σ hσ
    obtain ⟨σ₁, hfirst, hw₁, hσ₁⟩ := hbody k hk σ hσ
    obtain ⟨σ₂, hrest, hw₂, hσ₂⟩ := ih (Nat.le_of_succ_le hk) σ₁ hσ₁
    refine ⟨σ₂, ?_, hw₁.union hw₂ (fun i => by omega) fun i j hi hj => hinj i j (by omega) (by omega), hσ₂⟩
    rw [downLoop, hfirst]
    exact hrest

theorem downLoop_put (bigEndian : Bool) (fill : TlbFill t Mode G) (tbInvalidate : TbInvalidate t G) (fuel : ℕ)
    (hok : Valid m σ) (hn : n ≤ t.pageSize) (hhit : ∀ i < n, σ.Hit .write m (a + BitVec.ofNat _ i)) (v : BitVec (8 * n)) :
    ∃ σ', downLoop (fun i σ => slowSt bigEndian fill tbInvalidate m (fuel + 1) 0 (a + BitVec.ofNat _ i)
        ((v >>> (if bigEndian then (n - 1) * 8 - i * 8 else i * 8)).setWidth _) σ) n σ = some (.done (), σ') ∧
      Put bigEndian m a n v σ σ' ∧ Cleaned m σ σ' := by
  refine downLoop_written (P := Cleaned m σ) (fun i j hi hj => loc_inj hok hn hi hj) ?_ n le_rfl σ (Cleaned.of_tlbTable hok rfl)
  intro j hj σ₁ hclean
  obtain ⟨σ₂, hst, hw, hclean'⟩ := slowSt_byte bigEndian fill tbInvalidate fuel hclean.valid v hj (hclean.hit _ _ (hhit j hj))
  exact ⟨σ₂, hst, hw.congr (fun i => Iff.rfl) (fun i _ => (hclean.loc _ _).symm) fun i _ => rfl, hclean.trans hclean'⟩

theorem slowSt_hit_fuel {fuel' : ℕ} (hs : s ≤ 3) (hwhole : (σ.tlbTable m (tlbIndex a)).path .write a (2 ^ s) ≠ .unaligned)
    (hhit : σ.Hit .write m a) (v : BitVec (8 * 2 ^ s)) :
    slowSt bigEndian fill tbInvalidate m (fuel + 1) s a v σ = slowSt bigEndian fill tbInvalidate m (fuel' + 1) s a v σ := by
  rw [slowSt, slowSt]
  rcases path_cases hs (σ.tlbTable m (tlbIndex a)) .write a with ⟨_, hmiss⟩ | ⟨hpath, _⟩ | ⟨hpath, _⟩ | ⟨hpath, _⟩
  · exact absurd hhit hmiss
  · simp only [hpath]
  · simp only [hpath]
  · exact absurd hpath hwhole

/-- A store that is split: the last byte is stored first, so that an exception of the second page
comes before any byte has changed. -/
theorem slowSt_unaligned (bigEndian : Bool) (hfill : LawfulFill fill) (tbInvalidate : TbInvalidate t G) (hs : s ≤ 3)
    (hok : Valid m σ) (hpath : (σ.tlbTable m (tlbIndex a)).path .write a (2 ^ s) = .unaligned) (hhit : σ.Hit .write m a)
    (v : BitVec (8 * 2 ^ s)) (fuel : ℕ) :
    (∃ σ', slowSt bigEndian fill tbInvalidate m (fuel + 3) s a v σ = some (.fault, σ') ∧
      RaisedLast fill .write m a (2 ^ s) σ σ') ∨
    ∃ σ', slowSt bigEndian fill tbInvalidate m (fuel + 3) s a v σ = some (.done (), σ') ∧
      Stored bigEndian m a (2 ^ s) v σ σ' := by
  have hlt := two_pow_lt_pageSize hs t.toTarget
  rw [slowSt]
  simp only [hpath]
  obtain ⟨k, hk⟩ : ∃ k, 2 ^ s = k + 1 := Nat.exists_eq_succ_of_ne_zero (Nat.two_pow_pos s).ne'
  have hfound : ∀ σ₁, SameContent σ σ₁ → Valid m σ₁ → σ₁.Hit .write m a → σ₁.Hit .write m (a + BitVec.ofNat _ k) →
      ∃ σ', downLoop (fun i σ => slowSt bigEndian fill tbInvalidate m (fuel + 2) 0 (a + BitVec.ofNat _ i)
          ((v >>> (if bigEndian then (2 ^ s - 1) * 8 - i * 8 else i * 8)).setWidth _) σ) (2 ^ s) σ₁ = some (.done (), σ') ∧
        Stored bigEndian m a (2 ^ s) v σ σ' := by
    intro σ₁ hsame hok₁ hfirst hlast
    have hall : ∀ i < 2 ^ s, σ₁.Hit .write m (a + BitVec.ofNat _ i) := fun i hi => hit_all (by omega) hfirst hlast (by omega)
    obtain ⟨σ', hloop, hput, hclean⟩ := downLoop_put bigEndian fill tbInvalidate (fuel + 1) hok₁ hlt.le hall v
    exact ⟨σ', hloop, hput.stored hclean hsame hall⟩
  by_cases hlast : σ.Hit .write m (a + BitVec.ofNat _ k)
  · exact Or.inr (hfound σ (fun l => rfl) hok hhit hlast)
  · have hloop : ∀ (body : ℕ → State t Mode G → Run t Mode G Unit) (τ : State t Mode G),
        downLoop body (2 ^ s) τ = andThen (body k τ) fun _ σ => downLoop body k σ := by
      intro body τ
      rw [hk]
      rfl
    rcases fill_cases hfill .write m (a + BitVec.ofNat _ k) σ with ⟨σ₁, heq, hsame⟩ | ⟨σ₁, heq, hsame, hinst⟩
    · rw [hloop, slowSt_miss hlast, heq]
      refine Or.inl ⟨σ₁, rfl, a + BitVec.ofNat _ k, ?_, hlast, heq⟩
      rw [hk, Nat.add_sub_cancel]
    · -- the first page has another entry
      have hother : tlbIndex a ≠ tlbIndex (a + BitVec.ofNat _ k) := fun h =>
        hlast (hit_of_page (page_eq_of_tlbIndex (by omega) h.symm) hhit)
      obtain ⟨σ', hrun, hres⟩ := hfound σ₁ hsame (hinst.valid hok) (hinst.hit_other hother hhit) hinst.hit
      refine Or.inr ⟨σ', ?_, hres⟩
      rw [hloop, slowSt_miss hlast, heq]
      rw [hloop] at hrun
      rw [← hrun]
      exact congrArg (fun x => andThen x _) (slowSt_hit_fuel (show 0 ≤ 3 by decide) ((aligned_zero _).path_ne (by decide)) hinst.hit _)

/-- A store by `__st`, when its page is in the TLB. -/
theorem st_found (bigEndian : Bool) (hfill : LawfulFill fill) (tbInvalidate : TbInvalidate t G) (hs : s ≤ 3)
    (hok : Valid m σ) (hhit : σ.Hit .write m a) (v : BitVec (8 * 2 ^ s)) (fuel : ℕ) :
    (∃ σ', st bigEndian false fill tbInvalidate m s (fuel + 4) a v σ = some (.fault, σ') ∧
      RaisedLast fill .write m a (2 ^ s) σ σ') ∨
    ∃ σ', st bigEndian false fill tbInvalidate m s (fuel + 4) a v σ = some (.done (), σ') ∧
      Stored bigEndian m a (2 ^ s) v σ σ' := by
  rw [st]
  rcases path_cases hs (σ.tlbTable m (tlbIndex a)) .write a with ⟨_, hmiss⟩ | ⟨hpath, _, hflags, hin⟩ |
    ⟨hpath, _, hflags, hin⟩ | ⟨hpath, _⟩
  · exact absurd hhit hmiss
  · simp only [hpath]
    refine Or.inr ⟨_, rfl, ?_⟩
    exact (put_io hok hs hflags hin tbInvalidate v).stored (ioWrite_spec bigEndian tbInvalidate hok hs _ v a).2 (fun l => rfl)
      fun i hi => hit_add (by omega) hhit
  · simp only [hpath]
    refine Or.inr ⟨_, rfl, ?_⟩
    exact (put_direct hs hflags hin v).stored (Cleaned.of_tlbTable hok rfl) (fun l => rfl)
      fun i hi => hit_add (by omega) hhit
  · simp only [hpath]
    exact slowSt_unaligned bigEndian hfill tbInvalidate hs hok hpath hhit v fuel

/-- Every store ends, with its bytes stored or with an exception that `tlb_fill` raises and nothing
changed. -/
theorem st_stored (bigEndian : Bool) (hfill : LawfulFill fill) (tbInvalidate : TbInvalidate t G) (hs : s ≤ 3)
    (hok : Valid m σ) (a : VirtAddr t) (v : BitVec (8 * 2 ^ s)) (fuel : ℕ) :
    (∃ σ', st bigEndian false fill tbInvalidate m s (fuel + 5) a v σ = some (.fault, σ') ∧
      Raised fill .write m a (2 ^ s) σ σ' ∧ SameContent σ σ') ∨
    ∃ σ', st bigEndian false fill tbInvalidate m s (fuel + 5) a v σ = some (.done (), σ') ∧
      Stored bigEndian m a (2 ^ s) v σ σ' := by
  by_cases hhit : σ.Hit .write m a
  · rcases st_found bigEndian hfill tbInvalidate hs hok hhit v (fuel + 1) with ⟨σ', hst, hraised⟩ | hdone
    · exact Or.inl ⟨σ', hst, Or.inl ⟨hhit, hraised⟩, hraised.sameContent hfill⟩
    · exact Or.inr hdone
  · have hpath : (σ.tlbTable m (tlbIndex a)).path .write a (2 ^ s) = .miss := if_neg hhit
    rw [st]
    simp only [hpath]
    rcases fill_cases hfill .write m a σ with ⟨σ₁, heq, hsame⟩ | ⟨σ₁, heq, hsame, hinst⟩
    · rw [heq]
      exact Or.inl ⟨σ₁, rfl, Or.inr ⟨hhit, Or.inl heq⟩, hsame⟩
    · rw [heq]
      rcases st_found bigEndian hfill tbInvalidate hs (hinst.valid hok) hinst.hit v fuel with
        ⟨σ', hst, hraised⟩ | ⟨σ', hst, hstored⟩
      · refine Or.inl ⟨σ', hst, Or.inr ⟨hhit, Or.inr ⟨σ₁, heq, hraised⟩⟩, fun l => ?_⟩
        exact (hraised.sameContent hfill l).trans (hsame l)
      · exact Or.inr ⟨σ', hst, hstored.hit, hstored.bytes, fun l hl => (hstored.frame l hl).trans (hsame l)⟩

theorem st_alignedOnly (bigEndian alignedOnly : Bool) (fill : TlbFill t Mode G) (tbInvalidate : TbInvalidate t G) (hs : s ≤ 3)
    (halign : alignedOnly = true → Aligned s a) (v : BitVec (8 * 2 ^ s)) (fuel : ℕ) (σ : State t Mode G) :
    st bigEndian alignedOnly fill tbInvalidate m s fuel a v σ = st bigEndian false fill tbInvalidate m s fuel a v σ := by
  cases alignedOnly with
  | false => rfl
  | true =>
    have hpass : misaligned true (2 ^ s) a = false := bne_eq_false_iff_eq.2 (halign rfl)
    induction fuel generalizing σ with
    | zero => rfl
    | succ fuel ih =>
      rw [st, st, hpass]
      split
      · rfl
      · rename_i hpath
        exact absurd hpath ((halign rfl).path_ne hs)
      · rfl
      · exact congrArg (afterFill _) (funext ih)

theorem st_misaligned (bigEndian : Bool) (fill : TlbFill t Mode G) (tbInvalidate : TbInvalidate t G) (hunaligned : ¬Aligned s a)
    (v : BitVec (8 * 2 ^ s)) (fuel : ℕ) (σ : State t Mode G) :
    st bigEndian true fill tbInvalidate m s (fuel + 1) a v σ = some (.misaligned, σ) := by
  have hfail : misaligned true (2 ^ s) a = true := bne_iff_ne.2 hunaligned
  rw [st, hfail]
  split
  · rename_i hpath
    exact absurd (aligned_of_io hpath) hunaligned
  · rfl
  · rfl
  · rfl

end SlowStore

end Stores

/-- Every load and every store ends, and it ends without its bytes only when `ALIGNED_ONLY` forbids
it or `tlb_fill` raises an exception for one of its pages, and then nothing has changed. A load
returns the bytes at its addresses, which are those that loads of single bytes return; a store
changes exactly the bytes at its addresses. -/
theorem softMmu_bytes (bigEndian alignedOnly : Bool) {fill : TlbFill t Mode G} (hfill : LawfulFill fill)
    (tbInvalidate : TbInvalidate t G) {s : ℕ} (hs : s ≤ 3) {m : Mode} {σ : State t Mode G} (hok : Valid m σ) (a : VirtAddr t)
    (v : BitVec (8 * 2 ^ s)) (fuel : ℕ) :
    (alignedOnly = true ∧ ¬Aligned s a →
      (∀ acc, ld bigEndian alignedOnly fill s acc m (fuel + 5) a σ = some (.misaligned, σ)) ∧
      st bigEndian alignedOnly fill tbInvalidate m s (fuel + 5) a v σ = some (.misaligned, σ)) ∧
    ((alignedOnly = true → Aligned s a) →
      (∀ acc, acc ≠ .write →
        (∃ σ', ld bigEndian alignedOnly fill s acc m (fuel + 5) a σ = some (.fault, σ') ∧
          Raised fill acc m a (2 ^ s) σ σ' ∧ SameContent σ σ') ∨
        ∃ u σ', ld bigEndian alignedOnly fill s acc m (fuel + 5) a σ = some (.done u, σ') ∧ SameContent σ σ' ∧
          Loaded bigEndian acc m a (2 ^ s) σ' u ∧
          ∀ i < 2 ^ s, ld bigEndian alignedOnly fill 0 acc m (fuel + 1) (a + BitVec.ofNat _ i) σ' =
            some (.done ((byte u (place bigEndian (2 ^ s) i)).setWidth _), σ')) ∧
      ((∃ σ', st bigEndian alignedOnly fill tbInvalidate m s (fuel + 5) a v σ = some (.fault, σ') ∧
          Raised fill .write m a (2 ^ s) σ σ' ∧ SameContent σ σ') ∨
        ∃ σ', st bigEndian alignedOnly fill tbInvalidate m s (fuel + 5) a v σ = some (.done (), σ') ∧
          Stored bigEndian m a (2 ^ s) v σ σ')) := by
  refine ⟨?_, fun halign => ⟨fun acc hacc => ?_, ?_⟩⟩
  · rintro ⟨rfl, hunaligned⟩
    exact ⟨fun acc => ld_misaligned bigEndian fill hunaligned _, st_misaligned bigEndian fill tbInvalidate hunaligned v _ σ⟩
  · rw [ld_alignedOnly bigEndian alignedOnly fill hs halign]
    rcases ld_loaded bigEndian hfill hacc hs hok a fuel with hfault | ⟨u, σ', hld, hsame, hok', hloaded⟩
    · exact Or.inl hfault
    · refine Or.inr ⟨u, σ', hld, hsame, hloaded, fun i hi => ?_⟩
      rw [ld_alignedOnly bigEndian alignedOnly fill (by decide) fun _ => aligned_zero _,
        ld_byte bigEndian fill hacc hok' (hloaded.hit i hi), hloaded.byte (place_lt bigEndian hi), place_place bigEndian hi]
  · rw [st_alignedOnly bigEndian alignedOnly fill tbInvalidate hs halign]
    exact st_stored bigEndian hfill tbInvalidate hs hok a v fuel

/-! ### A flat address space -/

/-- A guest with 32-bit addresses of both kinds. -/
def flat32 : PhysTarget := ⟨target32, 32, by decide⟩

/-- The entry of a page of RAM at the same address. -/
def flatEntry (a : VirtAddr flat32) : CPUTLBEntry flat32 := ⟨page a, page a, page a, 0, 0⟩

def flatFill : TlbFill flat32 Unit Unit := fun _ _ a σ =>
  (true, { σ with tlbTable := fun m => Function.update (σ.tlbTable m) (tlbIndex a) (flatEntry a) })

def emptyEntry : CPUTLBEntry flat32 := ⟨noPage, noPage, noPage, 0, 0⟩

/-- The TLB is empty. -/
def flatState : State flat32 Unit Unit where
  tlbTable := fun _ _ => emptyEntry
  ram := fun a => a.setWidth 8
  ioMem := fun _ _ => 0
  physRamDirty := fun _ => 0xff
  env := ()

theorem entryOk_flatEntry (a : VirtAddr flat32) : EntryOk (flatEntry a) where
  aligned := show page (0 : PhysAddr flat32) = 0 by decide
  read := fun acc b _ _ hflags => absurd (by cases acc <;> exact offset_page a) hflags
  ram := fun h => absurd (show ioIndex (0 : PhysAddr flat32) = ioMemNotdirty from h) (by decide)
  notdirty := fun h => by
    have hflag := CodeProtect.offset_or_notdirty (page (page a))
    rw [← show page a = page (page a) ||| tlbNotdirty from h] at hflag
    exact absurd (offset_page a) hflag

theorem lawful_flatFill : LawfulFill flatFill where
  content := fun acc m a σ l => by cases l <;> rfl
  installed := fun acc m a σ _ => by
    have hentry : (flatFill acc m a σ).2.tlbTable m (tlbIndex a) = flatEntry a := Function.update_self ..
    constructor
    · rw [State.Hit, hentry]
      cases acc <;> exact (page_and_hitMask a).symm
    · rw [hentry]
      exact entryOk_flatEntry a
    · exact fun i hi => Function.update_of_ne hi ..

theorem valid_flatState : Valid () flatState := fun _ =>
  show EntryOk emptyEntry from
    ⟨by decide, fun _ _ _ _ _ => by decide, fun h => absurd h (by decide), fun h => absurd h (by decide)⟩

/-- Accesses that wrap at the top of the address space. -/
theorem softMmu_bytes_wrap :
    (∀ acc, acc ≠ .write →
      (∃ σ', ld true false flatFill 2 acc () 5 0xfffffffe flatState = some (.fault, σ') ∧
        Raised flatFill acc () 0xfffffffe (2 ^ 2) flatState σ' ∧ SameContent flatState σ') ∨
      ∃ u σ', ld true false flatFill 2 acc () 5 0xfffffffe flatState = some (.done u, σ') ∧ SameContent flatState σ' ∧
        Loaded true acc () 0xfffffffe (2 ^ 2) σ' u ∧
        ∀ i < 2 ^ 2, ld true false flatFill 0 acc () 1 (0xfffffffe + BitVec.ofNat _ i) σ' =
          some (.done ((byte u (place true (2 ^ 2) i)).setWidth _), σ')) ∧
    ((∃ σ', st true false flatFill (fun _ _ _ dirty => ((), dirty)) () 2 5 0xfffffffe 0x11223344 flatState = some (.fault, σ') ∧
        Raised flatFill .write () 0xfffffffe (2 ^ 2) flatState σ' ∧ SameContent flatState σ') ∨
      ∃ σ', st true false flatFill (fun _ _ _ dirty => ((), dirty)) () 2 5 0xfffffffe 0x11223344 flatState = some (.done (), σ') ∧
        Stored true () 0xfffffffe (2 ^ 2) 0x11223344 flatState σ') :=
  (softMmu_bytes true false lawful_flatFill _ (by decide) valid_flatState 0xfffffffe 0x11223344 0).2 fun h => absurd h Bool.false_ne_true

end Ar7Qemu.Exec.SoftMmu
