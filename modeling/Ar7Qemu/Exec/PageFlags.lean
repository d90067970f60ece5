import Ar7Qemu.Exec.CodeProtectSound

/-! The check of guest buffers in user mode: `page_check_range`, with `page_unprotect` for a page
that was made read-only because of its translated code. The code that is invalidated and the
protection of host pages are left out. -/

namespace Ar7Qemu.Exec.PageFlags

open CodeProtect (l2Bits toNat_offset offset_lt toNat_add_lt page_add_lt)

variable {t : Target}

def pageRead : BitVec 32 := 0x0001
def pageWrite : BitVec 32 := 0x0002
def pageValid : BitVec 32 := 0x0008
def pageWriteOrg : BitVec 32 := 0x0010

/-- The flags of the page descriptors, and the host pages. -/
structure State (t : Target) where
  /-- `l1_map`. -/
  l1Map : ℕ → Option (ℕ → BitVec 32)
  /-- `qemu_host_page_bits`. -/
  hostPageBits : ℕ
  pageBits_le : t.pageBits ≤ hostPageBits
  /-- The descriptors of a host page are in one table. -/
  le_l2Bits : hostPageBits ≤ t.pageBits + l2Bits
  lt_longBits : hostPageBits < t.longBits

namespace State

variable (σ : State t)

def pageFind (index : ℕ) : Option (BitVec 32) := (σ.l1Map (index / 2 ^ l2Bits)).map (· (index % 2 ^ l2Bits))

def setFlags (index : ℕ) (flags : BitVec 32) : State t :=
  { σ with l1Map := fun i =>
      if i = index / 2 ^ l2Bits then (σ.l1Map i).map (Function.update · (index % 2 ^ l2Bits) flags) else σ.l1Map i }

/-- The loop of `page_unprotect` over the descriptors of a host page. -/
def protLoop (p : ℕ → BitVec 32) (hostEnd : Addr t) : ℕ → ℕ → Addr t → BitVec 32 → BitVec 32
  | 0, _, _, prot => prot
  | fuel + 1, i, addr, prot =>
    if addr < hostEnd then protLoop p hostEnd fuel (i + 1) (addr + BitVec.ofNat _ t.pageSize) (prot ||| p i) else prot

def hostStart (address : Addr t) : Addr t := address &&& ~~~ BitVec.ofNat _ (2 ^ σ.hostPageBits - 1)

/-- `host_end`, which is 0 for the last host page. -/
def hostEnd (address : Addr t) : Addr t := σ.hostStart address + BitVec.ofNat _ (2 ^ σ.hostPageBits)

/-- `page_unprotect`, with whether the fault has been handled. -/
def pageUnprotect (address : Addr t) : State t × Bool :=
  let pageIndex := (σ.hostStart address).toNat >>> t.pageBits
  match σ.l1Map (pageIndex / 2 ^ l2Bits) with
  | none => (σ, false)
  | some table =>
    let p1 := fun i => table (pageIndex % 2 ^ l2Bits + i)
    let prot := protLoop p1 (σ.hostEnd address) (2 ^ (σ.hostPageBits - t.pageBits)) 0 (σ.hostStart address) 0
    -- if the page was really writable, then we change its protection back to writable
    if prot &&& pageWriteOrg ≠ 0 then
      let pindex := (address - σ.hostStart address).toNat >>> t.pageBits
      if p1 pindex &&& pageWrite = 0 then (σ.setFlags (pageIndex + pindex) (p1 pindex ||| pageWrite), true)
      else (σ, false)
    else (σ, false)

/-- The loop of `page_check_range`. -/
def checkLoop (flags : BitVec 32) (stop : Addr t) : ℕ → Addr t → State t → Option (State t × ℤ)
  | 0, _, _ => none
  | fuel + 1, addr, σ =>
    if addr < stop then
      match σ.pageFind (addr.toNat >>> t.pageBits) with
      | none => some (σ, -1)
      | some p =>
        if p &&& pageValid = 0 then some (σ, -1)
        else if flags &&& pageRead ≠ 0 ∧ p &&& pageRead = 0 then some (σ, -1)
        else if flags &&& pageWrite ≠ 0 then
          if p &&& pageWriteOrg = 0 then some (σ, -1)
          -- unprotect the page if it was put read-only because it contains translated code
          else if p &&& pageWrite = 0 then
            match σ.pageUnprotect addr with
            | (σ, true) => some (σ, 0)
            | (σ, false) => some (σ, -1)
          else some (σ, 0)
        else checkLoop flags stop fuel (addr + BitVec.ofNat _ t.pageSize) σ
    else some (σ, 0)

def targetPageAlign (addr : Addr t) : Addr t := page (addr + BitVec.ofNat _ (t.pageSize - 1))

def pageCheckRange (start len : Addr t) (flags : BitVec 32) : Option (State t × ℤ) :=
  if start + len < start then some (σ, -1)
  else checkLoop flags (targetPageAlign (start + len)) (2 ^ t.longBits / t.pageSize + 1) (page start) σ

/-! ### The purpose of the check -/

/-- The page of an address is valid and allows the accesses. A page that was writable when it
was mapped is writable. -/
def Allows (flags : BitVec 32) (a : Addr t) : Prop :=
  ∃ p, σ.pageFind (a.toNat >>> t.pageBits) = some p ∧ p &&& pageValid ≠ 0 ∧
    (flags &&& pageRead ≠ 0 → p &&& pageRead ≠ 0) ∧ (flags &&& pageWrite ≠ 0 → p &&& pageWriteOrg ≠ 0)

/-- The range does not wrap around, and the pages of all its bytes allow the accesses. -/
def Accessible (start len : Addr t) (flags : BitVec 32) : Prop :=
  start.toNat + len.toNat < 2 ^ t.longBits ∧ ∀ k < len.toNat, σ.Allows flags (start + BitVec.ofNat _ k)

end State

/-! ### Host pages -/

section HostPages

variable {σ : State t} {a : Addr t} {p : BitVec 32}

theorem and_writeOrg (x : BitVec 32) : x &&& pageWriteOrg ≠ 0 ↔ x.getLsbD 4 = true := by
  have htwo : pageWriteOrg = BitVec.twoPow 32 4 := by decide
  have hne : BitVec.twoPow 32 4 ≠ 0 := by decide
  rw [htwo, BitVec.and_twoPow]
  cases x.getLsbD 4 with
  | false => simp
  | true => simpa using hne

/-- The flag of any page of the range is found. -/
theorem protLoop_writeOrg {tab : ℕ → BitVec 32} {hostEnd : Addr t} : ∀ {fuel i k : ℕ} {addr : Addr t} {prot : BitVec 32},
    k < fuel → addr.toNat + k * t.pageSize < hostEnd.toNat →
    (prot.getLsbD 4 = true ∨ (tab (i + k)).getLsbD 4 = true) →
    (State.protLoop tab hostEnd fuel i addr prot).getLsbD 4 = true
  | fuel + 1, i, 0, addr, prot, _, haddr, hflag => by
    rw [State.protLoop, if_pos (BitVec.lt_def.2 (by omega))]
    have hnow : (prot ||| tab i).getLsbD 4 = true := by
      rw [BitVec.getLsbD_or, Bool.or_eq_true]
      exact hflag
    cases fuel with
    | zero => exact hnow
    | succ fuel =>
      by_cases hnext : addr + BitVec.ofNat _ t.pageSize < hostEnd
      · exact protLoop_writeOrg (k := 0) (Nat.succ_pos _) (by simpa [BitVec.lt_def] using hnext) (.inl hnow)
      · rw [State.protLoop, if_neg hnext]
        exact hnow
  | fuel + 1, i, k + 1, addr, prot, hk, haddr, hflag => by
    have hend := hostEnd.isLt
    have hmul : (k + 1) * t.pageSize = t.pageSize + k * t.pageSize := by rw [Nat.succ_mul, Nat.add_comm]
    have hnext : (addr + BitVec.ofNat _ t.pageSize).toNat = addr.toNat + t.pageSize := by
      rw [BitVec.toNat_add, BitVec.toNat_ofNat, Nat.add_mod_mod, Nat.mod_eq_of_lt (by omega)]
    rw [State.protLoop, if_pos (BitVec.lt_def.2 (by omega))]
    refine protLoop_writeOrg (k := k) (by omega) (by rw [hnext]; omega) ?_
    rcases hflag with hprot | htab
    · exact .inl (by rw [BitVec.getLsbD_or, hprot, Bool.true_or])
    · exact .inr (by rwa [show i + 1 + k = i + (k + 1) by omega])

theorem toNat_hostStart (σ : State t) (a : Addr t) :
    (σ.hostStart a).toNat = a.toNat / 2 ^ σ.hostPageBits * 2 ^ σ.hostPageBits := by
  have hshift : σ.hostStart a = (a >>> σ.hostPageBits) <<< σ.hostPageBits := by
    apply BitVec.eq_of_getLsbD_eq
    intro i hi
    rw [State.hostStart, BitVec.getLsbD_and, BitVec.getLsbD_not, BitVec.getLsbD_ofNat, Nat.testBit_two_pow_sub_one,
      BitVec.getLsbD_shiftLeft, BitVec.getLsbD_ushiftRight]
    by_cases h : σ.hostPageBits ≤ i
    · simp [hi, Nat.not_lt.2 h, Nat.add_sub_cancel' h]
    · simp [hi, Nat.lt_of_not_le h]
  have hle : a.toNat / 2 ^ σ.hostPageBits * 2 ^ σ.hostPageBits < 2 ^ t.longBits :=
    (Nat.div_mul_le_self _ _).trans_lt a.isLt
  rw [hshift, BitVec.toNat_shiftLeft, BitVec.toNat_ushiftRight, Nat.shiftRight_eq_div_pow, Nat.shiftLeft_eq]
  exact Nat.mod_eq_of_lt hle

theorem hostPageSize_eq (σ : State t) : 2 ^ σ.hostPageBits = t.pageSize * 2 ^ (σ.hostPageBits - t.pageBits) := by
  rw [Target.pageSize, ← pow_add, Nat.add_sub_cancel' σ.pageBits_le]

theorem index_hostPage (σ : State t) (q : ℕ) :
    (q / 2 ^ (σ.hostPageBits - t.pageBits) * 2 ^ (σ.hostPageBits - t.pageBits)) / 2 ^ l2Bits = q / 2 ^ l2Bits ∧
      (q / 2 ^ (σ.hostPageBits - t.pageBits) * 2 ^ (σ.hostPageBits - t.pageBits)) % 2 ^ l2Bits +
        q % 2 ^ (σ.hostPageBits - t.pageBits) = q % 2 ^ l2Bits := by
  have hle : σ.hostPageBits - t.pageBits ≤ l2Bits := by
    have := σ.le_l2Bits
    omega
  obtain ⟨c, hc⟩ := Nat.pow_dvd_pow 2 hle
  have hn : 0 < 2 ^ (σ.hostPageBits - t.pageBits) := Nat.two_pow_pos _
  rw [hc]
  generalize 2 ^ (σ.hostPageBits - t.pageBits) = n at *
  have hquot : q / n * n / (n * c) = q / (n * c) := by
    rw [← Nat.div_div_eq_div_mul, Nat.mul_div_cancel _ hn, Nat.div_div_eq_div_mul]
  refine ⟨hquot, ?_⟩
  have h₁ := Nat.div_add_mod (q / n * n) (n * c)
  have h₂ := Nat.div_add_mod q (n * c)
  have h₃ := Nat.div_add_mod' q n
  rw [hquot] at h₁
  omega

/-- The host page of an address is the last one of the address space. -/
def LastHostPage (σ : State t) (a : Addr t) : Prop := σ.hostEnd a = 0

theorem hostStart_add_le (σ : State t) (a : Addr t) : (σ.hostStart a).toNat + 2 ^ σ.hostPageBits ≤ 2 ^ t.longBits := by
  obtain ⟨c, hc⟩ := Nat.pow_dvd_pow 2 σ.lt_longBits.le
  have hlt := a.isLt
  rw [hc] at hlt
  rw [toNat_hostStart, hc, ← Nat.succ_mul, Nat.mul_comm]
  exact Nat.mul_le_mul_left _ (Nat.div_lt_of_lt_mul hlt)

theorem hostEnd_eq_zero_iff (σ : State t) (a : Addr t) :
    σ.hostEnd a = 0 ↔ (σ.hostStart a).toNat + 2 ^ σ.hostPageBits = 2 ^ t.longBits := by
  have hle := hostStart_add_le σ a
  have hpos : 0 < 2 ^ σ.hostPageBits := Nat.two_pow_pos _
  rw [State.hostEnd, ← BitVec.toNat_inj, BitVec.toNat_add, BitVec.toNat_ofNat, Nat.add_mod_mod]
  constructor
  · intro hzero
    by_contra hne
    rw [Nat.mod_eq_of_lt (by omega)] at hzero
    simp at hzero
  · intro heq
    rw [heq, Nat.mod_self]
    rfl

theorem toNat_hostEnd (h : ¬ LastHostPage σ a) : (σ.hostEnd a).toNat = (σ.hostStart a).toNat + 2 ^ σ.hostPageBits := by
  have hle := hostStart_add_le σ a
  rw [LastHostPage, hostEnd_eq_zero_iff] at h
  rw [State.hostEnd, BitVec.toNat_add, BitVec.toNat_ofNat, Nat.add_mod_mod, Nat.mod_eq_of_lt (by omega)]

/-- `page_unprotect` makes a page writable again, though not on the last host page, whose end is 0. -/
theorem pageUnprotect_iff (ha : page a = a) (hp : σ.pageFind (a.toNat >>> t.pageBits) = some p)
    (horg : p &&& pageWriteOrg ≠ 0) (hwrite : p &&& pageWrite = 0) :
    (σ.pageUnprotect a).2 = true ↔ ¬ LastHostPage σ a := by
  have hS : 0 < t.pageSize := Nat.two_pow_pos _
  have hn : 0 < 2 ^ (σ.hostPageBits - t.pageBits) := Nat.two_pow_pos _
  set n := 2 ^ (σ.hostPageBits - t.pageBits) with hndef
  set q := a.toNat >>> t.pageBits with hqdef
  have hq : q = a.toNat / t.pageSize := Nat.shiftRight_eq_div_pow _ _
  have haq : a.toNat = q * t.pageSize := by
    rw [hq, Nat.div_mul_cancel (CodeProtect.page_eq_self_iff.1 ha)]
  have hstart : (σ.hostStart a).toNat = q / n * n * t.pageSize := by
    rw [toNat_hostStart, hostPageSize_eq, ← hndef, ← Nat.div_div_eq_div_mul, ← hq, Nat.mul_assoc, Nat.mul_comm n]
  have hindex : (σ.hostStart a).toNat >>> t.pageBits = q / n * n := by
    rw [hstart, Nat.shiftRight_eq_div_pow]
    exact Nat.mul_div_cancel _ hS
  have hpindex : (a - σ.hostStart a).toNat >>> t.pageBits = q % n := by
    have hsub : (a - σ.hostStart a).toNat = q % n * t.pageSize := by
      rw [BitVec.toNat_sub_of_le (BitVec.le_def.2 ?_), haq, hstart, ← Nat.sub_mul]
      · congr 1
        have := Nat.div_add_mod' q n
        omega
      · rw [haq, hstart]
        exact Nat.mul_le_mul_right _ (Nat.div_mul_le_self q n)
    rw [hsub, Nat.shiftRight_eq_div_pow]
    exact Nat.mul_div_cancel _ hS
  obtain ⟨hdiv, hmod⟩ := index_hostPage σ q
  rw [← hndef] at hdiv hmod
  obtain ⟨table, htable, hentry⟩ := Option.map_eq_some_iff.1 hp
  have hlast : LastHostPage σ a ↔ (σ.hostStart a).toNat + n * t.pageSize = 2 ^ t.longBits := by
    rw [LastHostPage, hostEnd_eq_zero_iff, hostPageSize_eq, ← hndef, Nat.mul_comm n]
  have hprot : (State.protLoop (fun i => table (q / n * n % 2 ^ l2Bits + i)) (σ.hostEnd a) n 0 (σ.hostStart a) 0) &&&
      pageWriteOrg ≠ 0 ↔ ¬ LastHostPage σ a := by
    rw [and_writeOrg]
    constructor
    · intro hbit hzero
      obtain ⟨k, hk⟩ : ∃ k, n = k + 1 := ⟨n - 1, by omega⟩
      rw [hk, State.protLoop, if_neg (by rw [show σ.hostEnd a = 0 from hzero, BitVec.lt_def]; simp)] at hbit
      exact absurd hbit (by simp)
    · intro hne
      have hmodlt : q % n * t.pageSize < n * t.pageSize := Nat.mul_lt_mul_of_pos_right (Nat.mod_lt q hn) hS
      refine protLoop_writeOrg (k := q % n) (Nat.mod_lt q hn) ?_ (.inr ?_)
      · rw [toNat_hostEnd fun hzero => hne hzero, hostPageSize_eq, ← hndef, Nat.mul_comm t.pageSize]
        omega
      · rw [Nat.zero_add, hmod, hentry]
        exact (and_writeOrg p).1 horg
  rw [State.pageUnprotect, ← hprot]
  simp only [hindex, hpindex, hdiv, htable, hmod, hentry, hwrite, ← hndef, if_true]
  split
  · rename_i hne
    exact ⟨fun _ => hne, fun _ => rfl⟩
  · rename_i hne
    exact ⟨fun h => absurd h (by simp), fun h => absurd h hne⟩

end HostPages

/-! ### The loop -/

section Loop

variable {σ : State t} {flags : BitVec 32} {a stop : Addr t}

/-- `page_unprotect` has to unprotect the page of an address before it is written to. -/
def WriteProtected (σ : State t) (a : Addr t) : Prop :=
  ∃ p, σ.pageFind (a.toNat >>> t.pageBits) = some p ∧ p &&& pageWrite = 0

/-- The checks of one page succeed. -/
def Admits (σ : State t) (flags : BitVec 32) (a : Addr t) : Prop :=
  σ.Allows flags a ∧ (flags &&& pageWrite ≠ 0 → WriteProtected σ a → ¬ LastHostPage σ a)

theorem index_page (a : Addr t) : (page a).toNat >>> t.pageBits = a.toNat >>> t.pageBits := by
  rw [toNat_page, Nat.shiftRight_eq_div_pow, Nat.shiftRight_eq_div_pow]
  exact Nat.mul_div_cancel _ (Nat.two_pow_pos _)

theorem allows_page (a : Addr t) : σ.Allows flags (page a) ↔ σ.Allows flags a := by
  rw [State.Allows, State.Allows, index_page]

theorem not_allows {p : BitVec 32} (hp : σ.pageFind (a.toNat >>> t.pageBits) = some p)
    (h : ¬ (p &&& pageValid ≠ 0 ∧ (flags &&& pageRead ≠ 0 → p &&& pageRead ≠ 0) ∧
      (flags &&& pageWrite ≠ 0 → p &&& pageWriteOrg ≠ 0))) : ¬ σ.Allows flags a := by
  rintro ⟨p', hp', hall⟩
  rw [hp] at hp'
  cases hp'
  exact h hall

theorem checkLoop_write (hwrite : flags &&& pageWrite ≠ 0) (ha : page a = a) (hlt : a < stop) (fuel : ℕ) :
    ∃ σ' r, State.checkLoop flags stop (fuel + 1) a σ = some (σ', r) ∧ (r = 0 ↔ Admits σ flags a) := by
  rw [State.checkLoop, if_pos hlt]
  cases hp : σ.pageFind (a.toNat >>> t.pageBits) with
  | none =>
    refine ⟨σ, -1, rfl, iff_of_false (by decide) ?_⟩
    rintro ⟨⟨p, hp', -⟩, -⟩
    rw [hp] at hp'
    cases hp'
  | some p =>
    dsimp only
    split
    · rename_i hvalid
      exact ⟨σ, -1, rfl, iff_of_false (by decide) fun h => not_allows hp (fun hall => hall.1 hvalid) h.1⟩
    · rename_i hvalid
      split
      · rename_i hread
        exact ⟨σ, -1, rfl, iff_of_false (by decide) fun h => not_allows hp (fun hall => hall.2.1 hread.1 hread.2) h.1⟩
      · rename_i hread
        split
        · rename_i horg
          exact ⟨σ, -1, rfl, iff_of_false (by decide) fun h =>
            not_allows hp (fun hall => hall.2.2 hwrite horg) h.1⟩
        · rename_i horg
          have hallows : σ.Allows flags a := ⟨p, hp, hvalid, fun h₁ h₂ => hread ⟨h₁, h₂⟩, fun _ => horg⟩
          split
          · rename_i hprotected
            have hunprotect := pageUnprotect_iff ha hp horg hprotected
            rcases hresult : σ.pageUnprotect a with ⟨τ, ok⟩
            rw [hresult] at hunprotect
            cases ok with
            | true => exact ⟨τ, 0, rfl, iff_of_true rfl ⟨hallows, fun _ _ => hunprotect.1 rfl⟩⟩
            | false =>
              refine ⟨τ, -1, rfl, iff_of_false (by decide) fun h => ?_⟩
              exact absurd (hunprotect.2 (h.2 hwrite ⟨p, hp, hprotected⟩)) (by simp)
          · rename_i hprotected
            refine ⟨σ, 0, rfl, iff_of_true rfl ⟨hallows, fun _ h => ?_⟩⟩
            obtain ⟨p', hp', hzero⟩ := h
            rw [hp] at hp'
            cases hp'
            exact absurd hzero hprotected

theorem next_page (ha : page a = a) (hstop : page stop = stop) (hlt : a < stop) :
    (a + BitVec.ofNat _ t.pageSize).toNat = a.toNat + t.pageSize ∧ a.toNat + t.pageSize ≤ stop.toNat := by
  obtain ⟨j, hj⟩ := CodeProtect.page_eq_self_iff.1 ha
  obtain ⟨k, hk⟩ := CodeProtect.page_eq_self_iff.1 hstop
  have hjk : j < k := by
    rw [BitVec.lt_def, hj, hk] at hlt
    exact Nat.lt_of_mul_lt_mul_left hlt
  have hle : a.toNat + t.pageSize ≤ stop.toNat := by
    rw [hj, hk, ← Nat.mul_succ]
    exact Nat.mul_le_mul_left _ hjk
  have hend := stop.isLt
  exact ⟨by rw [BitVec.toNat_add, BitVec.toNat_ofNat, Nat.add_mod_mod, Nat.mod_eq_of_lt (by omega)], hle⟩

theorem checkLoop_read (hwrite : flags &&& pageWrite = 0) (hstop : page stop = stop) : ∀ {fuel : ℕ} {a : Addr t},
    page a = a → (stop.toNat - a.toNat) / t.pageSize < fuel →
    ∃ σ' r, State.checkLoop flags stop fuel a σ = some (σ', r) ∧
      (r = 0 ↔ ∀ q : Addr t, page q = q → a ≤ q → q < stop → σ.Allows flags q)
  | fuel + 1, a, ha, hfuel => by
    rw [State.checkLoop]
    by_cases hlt : a < stop
    · rw [if_pos hlt]
      cases hp : σ.pageFind (a.toNat >>> t.pageBits) with
      | none =>
        refine ⟨σ, -1, rfl, iff_of_false (by decide) fun h => ?_⟩
        obtain ⟨p, hp', -⟩ := h a ha (BitVec.le_refl a) hlt
        rw [hp] at hp'
        cases hp'
      | some p =>
        dsimp only
        split
        · rename_i hvalid
          exact ⟨σ, -1, rfl, iff_of_false (by decide) fun h =>
            not_allows hp (fun hall => hall.1 hvalid) (h a ha (BitVec.le_refl a) hlt)⟩
        · rename_i hvalid
          split
          · rename_i hread
            exact ⟨σ, -1, rfl, iff_of_false (by decide) fun h =>
              not_allows hp (fun hall => hall.2.1 hread.1 hread.2) (h a ha (BitVec.le_refl a) hlt)⟩
          · rename_i hread
            have hallows : σ.Allows flags a :=
              ⟨p, hp, hvalid, fun h₁ h₂ => hread ⟨h₁, h₂⟩, fun h => absurd hwrite h⟩
            obtain ⟨hnext, hle⟩ := next_page ha hstop hlt
            have hfuel' : (stop.toNat - (a + BitVec.ofNat _ t.pageSize).toNat) / t.pageSize < fuel := by
              have hdiv : stop.toNat - a.toNat = stop.toNat - (a.toNat + t.pageSize) + t.pageSize := by omega
              have hS : 0 < t.pageSize := Nat.two_pow_pos _
              rw [hdiv, Nat.add_div_right _ hS] at hfuel
              rw [hnext]
              omega
            have hpage : page (a + BitVec.ofNat _ t.pageSize) = a + BitVec.ofNat _ t.pageSize := by
              rw [CodeProtect.page_eq_self_iff, hnext]
              exact Nat.dvd_add (CodeProtect.page_eq_self_iff.1 ha) (Nat.dvd_refl _)
            obtain ⟨σ', r, hloop, hr⟩ := checkLoop_read hwrite hstop hpage hfuel'
            refine ⟨σ', r, (if_neg (not_not.2 hwrite)).trans hloop, hr.trans ⟨fun h q hq hle' hlt' => ?_,
              fun h q hq hle' => h q hq ?_⟩⟩
            · by_cases heq : q = a
              · rwa [heq]
              · have hbefore : a < q := by
                  have hne : a.toNat ≠ q.toNat := fun hnat => heq (BitVec.eq_of_toNat_eq hnat.symm)
                  rw [BitVec.le_def] at hle'
                  rw [BitVec.lt_def]
                  omega
                refine h q hq ?_ hlt'
                rw [BitVec.le_def, hnext]
                exact (next_page ha hq hbefore).2
            · rw [BitVec.le_def, hnext] at hle'
              rw [BitVec.le_def]
              omega
    · rw [if_neg hlt]
      refine ⟨σ, 0, rfl, iff_of_true rfl fun q _ hle hq => ?_⟩
      rw [BitVec.le_def] at hle
      rw [BitVec.lt_def] at hq hlt
      omega

end Loop

/-! ### Ranges -/

section Ranges

variable {σ : State t} {flags : BitVec 32} {start len : Addr t}

theorem wraps_iff : start + len < start ↔ 2 ^ t.longBits ≤ start.toNat + len.toNat := by
  have hstart := start.isLt
  have hlen := len.isLt
  rw [BitVec.lt_def, BitVec.toNat_add]
  by_cases h : start.toNat + len.toNat < 2 ^ t.longBits
  · rw [Nat.mod_eq_of_lt h]
    omega
  · rw [Nat.mod_eq_sub_mod (Nat.le_of_not_lt h), Nat.mod_eq_of_lt (by omega)]
    omega

theorem toNat_targetPageAlign (a : Addr t) : (State.targetPageAlign a).toNat =
    if a.toNat + t.pageSize ≤ 2 ^ t.longBits then (a.toNat + t.pageSize - 1) / t.pageSize * t.pageSize else 0 := by
  have hS : 0 < t.pageSize := Nat.two_pow_pos _
  have ha := a.isLt
  have hle := Nat.le_of_dvd (Nat.two_pow_pos _) (pageSize_dvd t)
  rw [State.targetPageAlign, toNat_page, BitVec.toNat_add, BitVec.toNat_ofNat, Nat.add_mod_mod]
  split
  · rw [Nat.mod_eq_of_lt (by omega), Nat.add_sub_assoc hS]
  · rw [Nat.mod_eq_sub_mod (by omega), Nat.mod_eq_of_lt (by omega), Nat.div_eq_of_lt (by omega), Nat.zero_mul]

/-- The pages up to the end of a range that is not empty are those of its bytes. -/
theorem forall_pages_iff {P : Addr t → Prop} (hwrap : start.toNat + len.toNat < 2 ^ t.longBits) (hlen : len.toNat ≠ 0)
    {stop : Addr t} (hstop : stop.toNat = (start.toNat + len.toNat + t.pageSize - 1) / t.pageSize * t.pageSize) :
    (∀ q : Addr t, page q = q → page start ≤ q → q < stop → P q) ↔
      ∀ k < len.toNat, P (page (start + BitVec.ofNat _ k)) := by
  have hS : 0 < t.pageSize := Nat.two_pow_pos _
  have hsum : ∀ k < len.toNat, (start + BitVec.ofNat _ k).toNat = start.toNat + k := fun k hk => by
    rw [BitVec.toNat_add, BitVec.toNat_ofNat, Nat.add_mod_mod, Nat.mod_eq_of_lt (by omega)]
  constructor
  · intro h k hk
    refine h _ (page_page _) ?_ ?_
    · rw [BitVec.le_def, toNat_page, toNat_page, hsum k hk]
      exact Nat.mul_le_mul_right _ (Nat.div_le_div_right (Nat.le_add_right _ _))
    · rw [BitVec.lt_def, toNat_page, hsum k hk, hstop]
      refine Nat.mul_lt_mul_of_pos_right ?_ hS
      rw [Nat.lt_div_iff_mul_lt hS]
      have := Nat.div_mul_le_self (start.toNat + k) t.pageSize
      omega
  · intro h q hq hle hlt
    obtain ⟨j, hj⟩ := CodeProtect.page_eq_self_iff.1 hq
    rw [BitVec.lt_def, hstop, hj, Nat.mul_comm t.pageSize] at hlt
    have hjend : j * t.pageSize < start.toNat + len.toNat := by
      have hquot := Nat.lt_of_mul_lt_mul_right hlt
      rw [Nat.lt_div_iff_mul_lt hS] at hquot
      omega
    -- the first byte of the range, or the first byte of the page
    by_cases hbefore : q.toNat ≤ start.toNat
    · have hpage : page (start + BitVec.ofNat _ 0) = q := by
        rw [BitVec.add_zero, ← BitVec.toNat_inj]
        refine le_antisymm (BitVec.le_def.1 hle) ?_
        rw [toNat_page, hj, Nat.mul_comm t.pageSize]
        refine Nat.mul_le_mul_right _ ((Nat.le_div_iff_mul_le hS).2 ?_)
        rwa [hj, Nat.mul_comm] at hbefore
      rw [← hpage]
      exact h 0 (by omega)
    · have hk : q.toNat - start.toNat < len.toNat := by
        rw [hj, Nat.mul_comm]
        omega
      have hbyte : start + BitVec.ofNat _ (q.toNat - start.toNat) = q := by
        rw [← BitVec.toNat_inj, hsum _ hk]
        omega
      have hpage := h _ hk
      rwa [hbyte, hq] at hpage

/-- When the range ends within the page that it starts in, or where this page ends. -/
theorem forall_page_iff {P : Addr t → Prop} {stop : Addr t} (hstop : stop.toNat = (page start).toNat + t.pageSize) :
    (∀ q : Addr t, page q = q → page start ≤ q → q < stop → P q) ↔ P (page start) := by
  constructor
  · intro h
    refine h _ (page_page _) (BitVec.le_refl _) ?_
    rw [BitVec.lt_def, hstop]
    exact Nat.lt_add_of_pos_right (Nat.two_pow_pos _)
  · intro h q hq hle hlt
    have heq : q = page start := by
      by_contra hne
      have hbefore : page start < q := by
        have hnat : q.toNat ≠ (page start).toNat := fun hnat => hne (BitVec.eq_of_toNat_eq hnat)
        rw [BitVec.le_def] at hle
        rw [BitVec.lt_def]
        omega
      have hnext := (next_page (page_page start) hq hbefore).2
      rw [BitVec.lt_def] at hlt
      omega
    rwa [heq]

end Ranges

/-! ### The check -/

section Check

variable {σ : State t} {flags : BitVec 32} {start len : Addr t}

/-- The cases in which the check of a range that does not wrap around is right. -/
structure Checked (σ : State t) (start len : Addr t) (flags : BitVec 32) : Prop where
  /-- The end of a range that gets to the last page is rounded up to 0, and nothing is checked. -/
  rounded : 2 ^ t.longBits < start.toNat + len.toNat + t.pageSize →
    ∀ k < len.toNat, σ.Allows flags (start + BitVec.ofNat _ k)
  /-- Of an empty range the page is checked, unless it starts there. -/
  empty : start.toNat + len.toNat + t.pageSize ≤ 2 ^ t.longBits → len.toNat = 0 →
    offset start = 0 ∨ Admits σ flags (page start)
  /-- A check for writing looks at the first page only. -/
  first : start.toNat + len.toNat + t.pageSize ≤ 2 ^ t.longBits → len.toNat ≠ 0 → flags &&& pageWrite ≠ 0 →
    Admits σ flags (page start) → ∀ k < len.toNat, σ.Allows flags (start + BitVec.ofNat _ k)
  /-- A page on the last host page is not unprotected. -/
  last : start.toNat + len.toNat + t.pageSize ≤ 2 ^ t.longBits → len.toNat ≠ 0 → flags &&& pageWrite ≠ 0 →
    (∀ k < len.toNat, σ.Allows flags (start + BitVec.ofNat _ k)) →
    WriteProtected σ (page start) → ¬ LastHostPage σ (page start)

theorem checkLoop_spec (σ : State t) (flags : BitVec 32) {stop : Addr t} (hstop : page stop = stop) (hlt : page start < stop) :
    ∃ σ' r, State.checkLoop flags stop (2 ^ t.longBits / t.pageSize + 1) (page start) σ = some (σ', r) ∧
      (flags &&& pageWrite ≠ 0 → (r = 0 ↔ Admits σ flags (page start))) ∧
      (flags &&& pageWrite = 0 →
        (r = 0 ↔ ∀ q : Addr t, page q = q → page start ≤ q → q < stop → σ.Allows flags q)) := by
  by_cases hwrite : flags &&& pageWrite = 0
  · have hfuel : (stop.toNat - (page start).toNat) / t.pageSize < 2 ^ t.longBits / t.pageSize + 1 :=
      Nat.lt_succ_of_le (Nat.div_le_div_right ((Nat.sub_le _ _).trans stop.isLt.le))
    obtain ⟨σ', r, hloop, hr⟩ := checkLoop_read (σ := σ) hwrite hstop (page_page start) hfuel
    exact ⟨σ', r, hloop, fun h => absurd hwrite h, fun _ => hr⟩
  · obtain ⟨σ', r, hloop, hr⟩ := checkLoop_write (σ := σ) hwrite (page_page start) hlt _
    exact ⟨σ', r, hloop, fun _ => hr, fun h => absurd h hwrite⟩

theorem checkLoop_range (σ : State t) (flags : BitVec 32) (hround : start.toNat + len.toNat + t.pageSize ≤ 2 ^ t.longBits) :
    ∃ σ' r, State.checkLoop flags (State.targetPageAlign (start + len)) (2 ^ t.longBits / t.pageSize + 1) (page start) σ =
        some (σ', r) ∧
      (len.toNat = 0 → (r = 0 ↔ offset start = 0 ∨ Admits σ flags (page start))) ∧
      (len.toNat ≠ 0 → flags &&& pageWrite ≠ 0 → (r = 0 ↔ Admits σ flags (page start))) ∧
      (len.toNat ≠ 0 → flags &&& pageWrite = 0 →
        (r = 0 ↔ ∀ k < len.toNat, σ.Allows flags (start + BitVec.ofNat _ k))) := by
  have hS : 0 < t.pageSize := Nat.two_pow_pos _
  have hsum : start.toNat + len.toNat < 2 ^ t.longBits := by omega
  have hstop := toNat_targetPageAlign (start + len)
  rw [BitVec.toNat_add, Nat.mod_eq_of_lt hsum, if_pos hround] at hstop
  have hoffset : offset start = 0 ↔ start.toNat % t.pageSize = 0 := by
    rw [← toNat_offset, ← BitVec.toNat_inj]
    rfl
  have hmod := Nat.div_add_mod' start.toNat t.pageSize
  by_cases hempty : len.toNat = 0 ∧ offset start = 0
  · -- no page is checked
    have hend : (State.targetPageAlign (start + len)).toNat = (page start).toNat := by
      obtain ⟨j, hj⟩ := Nat.dvd_of_mod_eq_zero (hoffset.1 hempty.2)
      rw [hstop, toNat_page, hempty.1, Nat.add_zero, Nat.add_sub_assoc hS, hj, Nat.mul_add_div hS,
        Nat.div_eq_of_lt (Nat.sub_lt hS Nat.one_pos), Nat.add_zero, Nat.mul_div_cancel_left _ hS]
    rw [State.checkLoop, if_neg (by rw [BitVec.lt_def, hend]; omega)]
    exact ⟨σ, 0, rfl, fun _ => iff_of_true rfl (.inl hempty.2), fun h => absurd hempty.1 h, fun h => absurd hempty.1 h⟩
  · have hnext : (page start).toNat + t.pageSize ≤ (State.targetPageAlign (start + len)).toNat := by
      rw [hstop, toNat_page, ← Nat.succ_mul]
      refine Nat.mul_le_mul_right _ ((Nat.le_div_iff_mul_le hS).2 ?_)
      rw [Nat.succ_mul]
      by_contra hlt
      have hlen : len.toNat = 0 := by omega
      exact hempty ⟨hlen, hoffset.2 (by omega)⟩
    have hlt : page start < State.targetPageAlign (start + len) := by
      rw [BitVec.lt_def]
      omega
    have haligned : page (State.targetPageAlign (start + len)) = State.targetPageAlign (start + len) := page_page _
    obtain ⟨σ', r, hloop, hwrites, hreads⟩ := checkLoop_spec σ flags haligned hlt
    refine ⟨σ', r, hloop, fun hlen => ?_, fun _ => hwrites, fun hlen hwrite => ?_⟩
    · have hpage : r = 0 ↔ Admits σ flags (page start) := by
        by_cases hwrite : flags &&& pageWrite = 0
        · have hend : (State.targetPageAlign (start + len)).toNat = (page start).toNat + t.pageSize := by
            refine le_antisymm ?_ hnext
            rw [hstop, toNat_page, ← Nat.succ_mul]
            refine Nat.mul_le_mul_right _ (Nat.le_of_lt_succ ((Nat.div_lt_iff_lt_mul hS).2 ?_))
            have := Nat.mod_lt start.toNat hS
            rw [Nat.succ_mul, Nat.succ_mul]
            omega
          rw [hreads hwrite, forall_page_iff hend, Admits]
          exact (and_iff_left fun h => absurd hwrite h).symm
        · exact hwrites hwrite
      exact hpage.trans (or_iff_right fun hzero => hempty ⟨hlen, hzero⟩).symm
    · rw [hreads hwrite, forall_pages_iff hsum hlen hstop]
      exact forall₂_congr fun k _ => allows_page _

/-- The check of a guest buffer always ends. It returns 0 exactly for an accessible range, except
where the range does not wrap around and one of the four cases that go wrong is met. -/
theorem page_check_range_iff (σ : State t) (start len : Addr t) (flags : BitVec 32) :
    ∃ σ' r, σ.pageCheckRange start len flags = some (σ', r) ∧ ((r = 0 ↔ σ.Accessible start len flags) ↔
      (start.toNat + len.toNat < 2 ^ t.longBits → Checked σ start len flags)) := by
  rw [State.pageCheckRange]
  by_cases hwrap : start + len < start
  · rw [if_pos hwrap]
    have hle := wraps_iff.1 hwrap
    refine ⟨σ, -1, rfl, iff_of_true (iff_of_false (by decide) fun h => ?_) fun h => ?_⟩
    · exact absurd h.1 (Nat.not_lt.2 hle)
    · exact absurd h (Nat.not_lt.2 hle)
  · rw [if_neg hwrap]
    have hsum : start.toNat + len.toNat < 2 ^ t.longBits := Nat.lt_of_not_le fun h => hwrap (wraps_iff.2 h)
    have haccess : σ.Accessible start len flags ↔ ∀ k < len.toNat, σ.Allows flags (start + BitVec.ofNat _ k) :=
      and_iff_right hsum
    rw [imp_iff_right hsum, haccess]
    by_cases hround : start.toNat + len.toNat + t.pageSize ≤ 2 ^ t.longBits
    · obtain ⟨σ', r, hloop, hempty, hwrites, hreads⟩ := checkLoop_range σ flags hround
      refine ⟨σ', r, hloop, ?_⟩
      have hrounded : 2 ^ t.longBits < start.toNat + len.toNat + t.pageSize →
          ∀ k < len.toNat, σ.Allows flags (start + BitVec.ofNat _ k) := fun h => absurd hround (Nat.not_le.2 h)
      by_cases hlen : len.toNat = 0
      · have hall : ∀ k < len.toNat, σ.Allows flags (start + BitVec.ofNat _ k) := fun k hk => absurd hk (by omega)
        rw [hempty hlen, iff_true_right hall]
        exact ⟨fun h => ⟨hrounded, fun _ _ => h, fun _ h' => absurd hlen h', fun _ h' => absurd hlen h'⟩,
          fun h => h.empty hround hlen⟩
      · by_cases hwrite : flags &&& pageWrite = 0
        · refine iff_of_true (hreads hlen hwrite) ?_
          exact ⟨hrounded, fun _ h => absurd h hlen, fun _ _ h => absurd hwrite h, fun _ _ h => absurd hwrite h⟩
        · rw [hwrites hlen hwrite]
          constructor
          · intro h
            exact ⟨hrounded, fun _ h' => absurd h' hlen, fun _ _ _ => h.1, fun _ _ _ hall => (h.2 hall).2 hwrite⟩
          · intro h
            refine ⟨h.first hround hlen hwrite, fun hall => ⟨?_, fun _ => h.last hround hlen hwrite hall⟩⟩
            have hfirst := hall 0 (by omega)
            rwa [allows_page, ← BitVec.add_zero start]
    · have hstop := toNat_targetPageAlign (start + len)
      rw [BitVec.toNat_add, Nat.mod_eq_of_lt hsum, if_neg hround] at hstop
      rw [State.checkLoop, if_neg (by rw [BitVec.lt_def, hstop]; omega)]
      refine ⟨σ, 0, rfl, ?_⟩
      constructor
      · intro h
        exact ⟨fun _ => h.1 rfl, fun h' => absurd h' hround, fun h' => absurd h' hround, fun h' => absurd h' hround⟩
      · intro h
        exact ⟨fun _ => h.rounded (by omega), fun _ => rfl⟩

/-- A page for reading and writing at `0x1000`, and one for reading at `0x2000`. -/
def twoPages : State target32 where
  l1Map := fun i => if i = 0 then some fun j => if j = 1 then 0x1b else if j = 2 then 0x09 else 0 else none
  hostPageBits := 12
  pageBits_le := by decide
  le_l2Bits := by decide
  lt_longBits := by decide

/-- Both pages can be written to, says the check. -/
theorem page_check_range_writable : (twoPages.pageCheckRange 0x1000 0x2000 pageWrite).map Prod.snd = some 0 ∧
    ¬ twoPages.Accessible 0x1000 0x2000 pageWrite := by
  refine ⟨by decide, fun h => ?_⟩
  obtain ⟨p, hp, -, -, hwrite⟩ := h.2 0x1000 (by decide)
  cases hp
  exact absurd (hwrite (by decide)) (by decide)

end Check

end Ar7Qemu.Exec.PageFlags
