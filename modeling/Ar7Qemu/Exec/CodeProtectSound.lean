import Ar7Qemu.Exec.CodeProtect

/-! A page with translated code stays protected: its `CODE_DIRTY_FLAG` is clear, and no TLB
has an entry that lets it be written to directly. -/

namespace Ar7Qemu.Exec.CodeProtect

open Lib

variable {t : Target} {Cpu Mode : Type} {σ σ' : State t Cpu Mode} {e : CPUTLBEntry t}

/-! ### Addresses -/

section Addresses

theorem page_eq_self_iff {a : Addr t} : page a = a ↔ t.pageSize ∣ a.toNat := by
  rw [← BitVec.toNat_inj, toNat_page]
  exact ⟨fun h => ⟨_, by rw [Nat.mul_comm]; exact h.symm⟩, Nat.div_mul_cancel⟩

theorem page_add_eq_self {a b : Addr t} (ha : page a = a) (hb : page b = b) : page (a + b) = a + b := by
  rw [page_eq_self_iff] at *
  rw [BitVec.toNat_add, Nat.dvd_mod_iff (pageSize_dvd t)]
  exact Nat.dvd_add ha hb

theorem page_sub_eq_self {a b : Addr t} (ha : page a = a) (hb : page b = b) : page (a - b) = a - b := by
  rw [page_eq_self_iff] at *
  rw [BitVec.toNat_sub, Nat.dvd_mod_iff (pageSize_dvd t)]
  exact Nat.dvd_add (Nat.dvd_sub (pageSize_dvd t) hb) ha

theorem page_add_offset_self (a : Addr t) : page a + offset a = a := by
  have hdisjoint : page a &&& offset a = 0#_ := by
    apply BitVec.eq_of_getLsbD_eq
    intro i _
    rw [BitVec.getLsbD_and, getLsbD_offset, getLsbD_page, BitVec.getLsbD_zero]
    by_cases h : t.pageBits ≤ i
    · simp [Nat.not_lt.2 h]
    · simp [h]
  rw [BitVec.add_eq_or_of_and_eq_zero _ _ hdisjoint]
  apply BitVec.eq_of_getLsbD_eq
  intro i _
  rw [BitVec.getLsbD_or, getLsbD_offset, getLsbD_page]
  by_cases h : t.pageBits ≤ i
  · simp [h, Nat.not_lt.2 h]
  · simp [h, Nat.lt_of_not_le h]

theorem toNat_offset (a : Addr t) : (offset a).toNat = a.toNat % t.pageSize := by
  have hsum := congrArg BitVec.toNat (page_add_offset_self a)
  have hlt : (offset a).toNat < t.pageSize := by
    rw [offset, pageMask, BitVec.not_not, BitVec.toNat_and, BitVec.toNat_ofNat]
    have hS : 0 < t.pageSize := Nat.two_pow_pos _
    have hle := (Nat.and_le_right (n := a.toNat)).trans (Nat.mod_le (t.pageSize - 1) (2 ^ t.longBits))
    omega
  rw [BitVec.toNat_add, toNat_page] at hsum
  have hmod : (a.toNat / t.pageSize * t.pageSize + (offset a).toNat) % t.pageSize = a.toNat % t.pageSize := by
    rw [← Nat.mod_mod_of_dvd _ (pageSize_dvd t), hsum]
  rw [← hmod, Nat.mul_comm, Nat.mul_add_mod, Nat.mod_eq_of_lt hlt]

theorem offset_lt (a : Addr t) : (offset a).toNat < t.pageSize := by
  rw [toNat_offset]
  exact Nat.mod_lt _ (Nat.two_pow_pos _)

theorem toNat_add_lt {a : Addr t} {k : ℕ} (hk : (offset a).toNat + k < t.pageSize) :
    (a + BitVec.ofNat _ k).toNat = a.toNat + k := by
  obtain ⟨m, hm⟩ := pageSize_dvd t
  have hlt := a.isLt
  have hdiv := Nat.div_add_mod a.toNat t.pageSize
  have hquot : a.toNat / t.pageSize < m := Nat.div_lt_of_lt_mul (hm ▸ hlt)
  have hsum : a.toNat + k < 2 ^ t.longBits := calc
    a.toNat + k < t.pageSize * (a.toNat / t.pageSize) + t.pageSize := by
      rw [toNat_offset] at hk
      omega
    _ = t.pageSize * (a.toNat / t.pageSize + 1) := (Nat.mul_succ _ _).symm
    _ ≤ t.pageSize * m := Nat.mul_le_mul_left _ hquot
    _ = 2 ^ t.longBits := hm.symm
  rw [BitVec.toNat_add, BitVec.toNat_ofNat, Nat.add_mod_mod, Nat.mod_eq_of_lt hsum]

theorem offset_add {a : Addr t} {k : ℕ} (hk : (offset a).toNat + k < t.pageSize) :
    (offset (a + BitVec.ofNat _ k)).toNat = (offset a).toNat + k := by
  rw [toNat_offset, toNat_add_lt hk, Nat.add_mod, ← toNat_offset, Nat.mod_eq_of_lt (Nat.lt_of_le_of_lt (Nat.le_add_left k _) hk),
    Nat.mod_eq_of_lt hk]

theorem page_add_lt {a : Addr t} {k : ℕ} (hk : (offset a).toNat + k < t.pageSize) :
    page (a + BitVec.ofNat _ k) = page a := by
  have hS : 0 < t.pageSize := Nat.two_pow_pos _
  rw [← BitVec.toNat_inj, toNat_page, toNat_page, toNat_add_lt hk]
  have hdiv := Nat.div_add_mod a.toNat t.pageSize
  rw [toNat_offset] at hk
  rw [show a.toNat + k = t.pageSize * (a.toNat / t.pageSize) + (a.toNat % t.pageSize + k) by omega, Nat.mul_add_div hS,
    Nat.div_eq_of_lt hk, Nat.add_zero]

theorem toNat_add_offset (p : PhysPage t) (a : Addr t) : (p.addr + offset a).toNat = p.addr.toNat + (offset a).toNat := by
  have hzero : offset p.addr = 0#_ := by rw [← p.aligned, offset_page]
  have hoff := offset_lt a
  have h := toNat_add_lt (a := p.addr) (k := (offset a).toNat) (by rw [hzero]; simpa using hoff)
  rwa [BitVec.ofNat_toNat, BitVec.setWidth_eq] at h

theorem page_add {b : Addr t} (hb : page b = b) (a : Addr t) : page (a + b) = page a + b := by
  have hsum : a + b = page a + b + offset a := by
    conv_lhs => rw [← page_add_offset_self a]
    rw [BitVec.add_assoc, BitVec.add_assoc, BitVec.add_comm (offset a)]
  rw [hsum]
  exact page_add_offset (page_add_eq_self (page_page a) hb) a

theorem offset_ne_zero {a : Addr t} {i : ℕ} (hi : i < 6) (h : a.getLsbD i = true) : offset a ≠ 0 := by
  intro hzero
  have hbit : (offset a).getLsbD i = true := by
    rw [getLsbD_offset, h, decide_eq_true (hi.trans_le t.six_le), Bool.and_self]
  rw [hzero] at hbit
  exact absurd hbit (by simp)

theorem getLsbD_flag {i j : ℕ} (hi : i < 6) : (1#t.longBits <<< i).getLsbD j = decide (j = i) := by
  have hw := t.six_le.trans_lt t.lt_longBits
  rw [BitVec.getLsbD_shiftLeft, BitVec.getLsbD_one]
  by_cases h : j = i
  · subst h
    simp [hi.trans hw, (Nat.zero_lt_of_lt hw)]
  · by_cases hlt : j < i
    · simp [h, hlt]
    · have : ¬ j - i = 0 := by omega
      simp [h, this]

theorem offset_or_notdirty (a : Addr t) : offset (a ||| tlbNotdirty) ≠ 0 :=
  offset_ne_zero (i := 4) (by decide) (by rw [BitVec.getLsbD_or, tlbNotdirty, getLsbD_flag (by decide)]; simp)

/-- The bit of `TLB_MMIO`. -/
def mmioBit (a : Addr t) : Bool := a.getLsbD 5

@[simp] theorem mmioBit_or_mmio (a : Addr t) : mmioBit (a ||| tlbMmio) = true := by
  rw [mmioBit, BitVec.getLsbD_or, tlbMmio, getLsbD_flag (by decide)]
  simp

@[simp] theorem mmioBit_or_notdirty (a : Addr t) : mmioBit (a ||| tlbNotdirty) = mmioBit a := by
  rw [mmioBit, BitVec.getLsbD_or, tlbNotdirty, getLsbD_flag (by decide)]
  simp [mmioBit]

@[simp] theorem mmioBit_page (a : Addr t) : mmioBit (page a) = false := by
  have hlt : 5 < t.pageBits := t.six_le
  rw [mmioBit, getLsbD_page, decide_eq_false (Nat.not_le.2 hlt), Bool.and_false]

@[simp] theorem mmioBit_noPage : mmioBit (noPage : Addr t) = true := by
  have hw := t.six_le.trans_lt t.lt_longBits
  rw [mmioBit, noPage, BitVec.getLsbD_allOnes, decide_eq_true (by omega)]

theorem mmioBit_eq_false {a : Addr t} (h : offset a = 0) : mmioBit a = false := by
  by_contra hbit
  exact offset_ne_zero (i := 5) (by decide) (by simpa [mmioBit] using hbit) h

theorem page_or_notdirty (a : Addr t) : page (a ||| tlbNotdirty) = page a := by
  apply BitVec.eq_of_getLsbD_eq
  intro i _
  rw [getLsbD_page, getLsbD_page, BitVec.getLsbD_or, tlbNotdirty, getLsbD_flag (by decide)]
  have h6 := t.six_le
  by_cases h : t.pageBits ≤ i
  · have : i ≠ 4 := by omega
    simp [this]
  · simp [h]

theorem page_and_mask (a b : Addr t) : page (a &&& (pageMask t ||| b)) = page a := by
  apply BitVec.eq_of_getLsbD_eq
  intro i _
  rw [page, page, BitVec.getLsbD_and, BitVec.getLsbD_and, BitVec.getLsbD_and, BitVec.getLsbD_or]
  cases a.getLsbD i <;> cases (pageMask t).getLsbD i <;> simp

theorem tlbIndex_page (a : Addr t) : State.tlbIndex (page a) = State.tlbIndex a := by
  have hshift : (page a).toNat >>> t.pageBits = a.toNat >>> t.pageBits := by
    rw [toNat_page, Nat.shiftRight_eq_div_pow, Nat.shiftRight_eq_div_pow]
    exact Nat.mul_div_cancel _ (Nat.two_pow_pos _)
  rw [State.tlbIndex, hshift, State.tlbIndex]

end Addresses

/-! ### The invariant -/

/-- The entries for RAM, which may become direct, have the handler for pages that are not
dirty, at the address that they lead to. -/
structure EntryOk (e : CPUTLBEntry t) : Prop where
  aligned : page e.addend = e.addend
  base : ∀ b, e.iotlb = .notdirty b → b = e.addend
  ram : mmioBit e.addrWrite = false → e.iotlb = .notdirty e.addend

/-- Pages with translated code are protected. -/
structure Protected (σ : State t Cpu Mode) : Prop where
  code : ∀ p, σ.lists.firstTb p ≠ none → σ.physRamDirty p &&& codeDirtyFlag = 0
  /-- No entry is for writing directly to a page with code. -/
  direct : ∀ c m i, offset (σ.tlbTable c m i).addrWrite = 0 → σ.lists.firstTb (σ.tlbTable c m i).ramPage = none

/-- What holds in every state. -/
structure Inv (σ : State t Cpu Mode) : Prop extends Protected σ where
  desc : ∀ p, σ.lists.firstTb p ≠ none → σ.hasDesc p = true
  entries : ∀ c m i, EntryOk (σ.tlbTable c m i)

theorem inv_init (physOffset : Addr t → PhysOffset t) : Inv (State.init physOffset : State t Cpu Mode) := by
  refine ⟨⟨fun p h => absurd rfl h, fun c m i _ => rfl⟩, fun p h => absurd rfl h, fun c m i => ⟨?_, ?_, ?_⟩⟩
  · exact page_eq_self_iff.2 (by simp [State.init])
  · intro b hb
    exact absurd hb (by simp [State.init])
  · intro h
    exact absurd h (by simp [State.init])

/-! ### Writes -/

section Writes

variable {P : State t Cpu Mode → Prop}
  (hrange : ∀ {σ σ' : State t Cpu Mode} {start stop : ℕ} {isCpuWriteAccess : Bool}, P σ →
    σ.tbInvalidatePhysPageRange start stop isCpuWriteAccess = some σ' → P σ')

include hrange

/-- What the invalidation of a range keeps, a write to a page that is not dirty keeps. -/
theorem notdirtyInvalidate_keeps {a : Addr t} {len : ℕ} (hσ : P σ) (h : σ.notdirtyInvalidate a len = some σ') :
    P σ' := by
  rw [State.notdirtyInvalidate] at h
  split at h
  · rw [State.tbInvalidatePhysPageFast] at h
    dsimp only at h
    split at h
    · split at h
      · split at h
        · exact hrange hσ h
        · cases h
          exact hσ
      · exact hrange hσ h
    · cases h
      exact hσ
  · cases h
    exact hσ

variable (hdirty : ∀ {σ : State t Cpu Mode} (p : Addr t), P σ → P (σ.setDirtyFlags p))

include hdirty

theorem physRamWrite_keeps {a : Addr t} {len : ℕ} (hσ : P σ) (h : σ.physRamWrite a len = some σ') : P σ' := by
  rw [State.physRamWrite] at h
  split at h
  · obtain ⟨σ₁, h₁, rfl⟩ := Option.map_eq_some_iff.1 h
    exact hdirty _ (hrange hσ h₁)
  · cases h
    exact hσ

theorem physPageWrite_keeps {addr : Addr t} {len : ℕ} (hσ : P σ) (h : σ.physPageWrite addr len = some σ') : P σ' := by
  rw [State.physPageWrite] at h
  split at h
  · exact physRamWrite_keeps hrange hdirty hσ h
  · cases h
    exact hσ

theorem physWriteLoop_keeps : ∀ {fuel : ℕ} {addr : Addr t} {len : ℕ} {σ σ' : State t Cpu Mode}, P σ →
    State.physWriteLoop fuel addr len σ = some σ' → P σ'
  | 0, _, _, σ, σ', hσ, h => by
    cases h
    exact hσ
  | fuel + 1, addr, len, σ, σ', hσ, h => by
    rw [State.physWriteLoop] at h
    split at h
    · cases h
      exact hσ
    · obtain ⟨σ₁, h₁, h₂⟩ := Option.bind_eq_some_iff.1 h
      exact physWriteLoop_keeps (physPageWrite_keeps hrange hdirty hσ h₁) h₂

end Writes

/-! ### Less code -/

/-- No page gets code, and the flags of the pages that still have some stay clear. -/
structure Shrinks (σ σ' : State t Cpu Mode) : Prop where
  firstTb : ∀ p, σ.lists.firstTb p = none → σ'.lists.firstTb p = none
  hasDesc : σ'.hasDesc = σ.hasDesc
  code : ∀ p, σ'.lists.firstTb p ≠ none → σ.physRamDirty p &&& codeDirtyFlag = 0 →
    σ'.physRamDirty p &&& codeDirtyFlag = 0
  tlbTable : σ'.tlbTable = σ.tlbTable

section Shrinks

theorem Shrinks.refl (σ : State t Cpu Mode) : Shrinks σ σ := ⟨fun _ h => h, rfl, fun _ _ h => h, rfl⟩

theorem Shrinks.trans {σ'' : State t Cpu Mode} (h : Shrinks σ σ') (h' : Shrinks σ' σ'') : Shrinks σ σ'' where
  firstTb p hp := h'.firstTb p (h.firstTb p hp)
  hasDesc := h'.hasDesc.trans h.hasDesc
  code p hp hcode := h'.code p hp (h.code p (fun hnone => hp (h'.firstTb p hnone)) hcode)
  tlbTable := h'.tlbTable.trans h.tlbTable

theorem Shrinks.of_eq (hlists : σ'.lists.firstTb = σ.lists.firstTb) (hdesc : σ'.hasDesc = σ.hasDesc)
    (hdirty : σ'.physRamDirty = σ.physRamDirty) (htlb : σ'.tlbTable = σ.tlbTable) : Shrinks σ σ' where
  firstTb p hp := by rwa [hlists]
  hasDesc := hdesc
  code p _ hcode := by rwa [hdirty]
  tlbTable := htlb

theorem Inv.shrinks (h : Inv σ) (hs : Shrinks σ σ') : Inv σ' where
  code p hp := hs.code p hp (h.code p fun hnone => hp (hs.firstTb p hnone))
  direct c m i hdirect := by
    rw [hs.tlbTable] at hdirect ⊢
    exact hs.firstTb _ (h.direct c m i hdirect)
  desc p hp := by
    rw [hs.hasDesc]
    exact h.desc p fun hnone => hp (hs.firstTb p hnone)
  entries c m i := by
    rw [hs.tlbTable]
    exact h.entries c m i

theorem tbPageRemoveSet_firstTb {l l' : TbLists.State t} {q p : Addr t} {n : ℕ}
    (h : l.tbPageRemoveSet q n = some l') (hp : l.firstTb p = none) : l'.firstTb p = none := by
  rw [TbLists.State.tbPageRemoveSet] at h
  split at h
  · obtain ⟨⟨next, head⟩, hunlink, rfl⟩ := Option.map_eq_some_iff.1 h
    show Function.update l.firstTb q head p = none
    by_cases hpq : p = q
    · subst hpq
      rw [hp] at hunlink
      cases hfuel : l.fuel <;> simp [hfuel, unlink, findNode] at hunlink
    · rw [Function.update_of_ne hpq]
      exact hp
  · cases h
    exact hp

theorem resetJumps_firstTb : ∀ {fuel : ℕ} {cur : Option (ℕ × ℕ)} {l l' : TbLists.State t},
    TbLists.State.resetJumps fuel cur l = some l' → l'.firstTb = l.firstTb
  | fuel + 1, some (a, k), l, l', h => by
    rw [TbLists.State.resetJumps] at h
    split at h
    · cases h
      rfl
    · exact (resetJumps_firstTb h).trans rfl

theorem tbPhysInvalidate_firstTb {l l' : TbLists.State t} {n : ℕ} {p : Addr t} (h : l.tbPhysInvalidate n = some l')
    (hp : l.firstTb p = none) : l'.firstTb p = none := by
  simp only [TbLists.State.tbPhysInvalidate, Option.bind_eq_bind, Option.bind_eq_some_iff] at h
  obtain ⟨l₁, h₁, l₂, h₂, l₃, h₃, l₄, h₄, l₅, h₅, l₆, h₆, h₇⟩ := h
  obtain ⟨_, -, rfl⟩ := Option.map_eq_some_iff.1 h₁
  obtain ⟨_, -, rfl⟩ := Option.map_eq_some_iff.1 h₄
  obtain ⟨_, -, rfl⟩ := Option.map_eq_some_iff.1 h₅
  cases h₇
  have hremoved : l₃.firstTb p = none := tbPageRemoveSet_firstTb h₃ (tbPageRemoveSet_firstTb h₂ hp)
  show l₆.firstTb p = none
  rw [resetJumps_firstTb h₆]
  exact hremoved

theorem shrinks_invalidatePageBitmapSet (σ : State t Cpu Mode) (p : Addr t) :
    Shrinks σ (σ.invalidatePageBitmapSet p) := by
  rw [State.invalidatePageBitmapSet]
  split
  · exact .of_eq rfl rfl rfl rfl
  · exact .refl σ

theorem shrinks_tbPhysInvalidate {n : ℕ} (h : σ.tbPhysInvalidate n = some σ') : Shrinks σ σ' := by
  obtain ⟨lists, hlists, rfl⟩ := Option.map_eq_some_iff.1 h
  have hremoved : Shrinks σ { σ with lists := lists } :=
    ⟨fun p hp => tbPhysInvalidate_firstTb hlists hp, rfl, fun _ _ hcode => hcode, rfl⟩
  exact (hremoved.trans (shrinks_invalidatePageBitmapSet _ _)).trans (shrinks_invalidatePageBitmapSet _ _)

theorem shrinks_rangeLoop {start stop : ℕ} : ∀ {fuel : ℕ} {cur : Option (ℕ × ℕ)} {σ σ' : State t Cpu Mode},
    State.rangeLoop start stop fuel cur σ = some σ' → Shrinks σ σ'
  | fuel + 1, none, σ, σ', h => by
    cases h
    exact .refl _
  | fuel + 1, some (n, k), σ, σ', h => by
    rw [State.rangeLoop] at h
    split at h
    · obtain ⟨σ₁, h₁, h₂⟩ := Option.bind_eq_some_iff.1 h
      exact (shrinks_tbPhysInvalidate h₁).trans (shrinks_rangeLoop h₂)
    · exact shrinks_rangeLoop h

theorem shrinks_countWrite {p : Addr t} {isCpuWriteAccess : Bool} (h : σ.countWrite p isCpuWriteAccess = some σ') :
    Shrinks σ σ' := by
  rw [State.countWrite] at h
  split at h
  · dsimp only at h
    split at h
    · obtain ⟨tab, -, rfl⟩ := Option.map_eq_some_iff.1 h
      exact .of_eq rfl rfl rfl rfl
    · cases h
      exact .of_eq rfl rfl rfl rfl
  · cases h
    exact .refl σ

/-- The flag is set for a page without code only. -/
theorem shrinks_codeRemoved (σ : State t Cpu Mode) (p : Addr t) (isCpuWriteAccess : Bool) :
    Shrinks σ (σ.codeRemoved p isCpuWriteAccess) := by
  rw [State.codeRemoved]
  split
  · rename_i hnone
    dsimp only
    split
    · refine ⟨fun q hq => hq, rfl, fun q hq hcode => ?_, rfl⟩
      have hne : q ≠ p := by
        rintro rfl
        exact hq hnone
      show Function.update σ.physRamDirty p (σ.physRamDirty p ||| codeDirtyFlag) q &&& codeDirtyFlag = 0
      rw [Function.update_of_ne hne]
      exact hcode
    · exact .of_eq rfl rfl rfl rfl
  · exact .refl σ

theorem shrinks_range {start stop : ℕ} {isCpuWriteAccess : Bool}
    (h : σ.tbInvalidatePhysPageRange start stop isCpuWriteAccess = some σ') : Shrinks σ σ' := by
  rw [State.tbInvalidatePhysPageRange] at h
  split at h
  · obtain ⟨σ₁, h₁, h₂⟩ := Option.bind_eq_some_iff.1 h
    obtain ⟨σ₂, hloop, rfl⟩ := Option.map_eq_some_iff.1 h₂
    exact ((shrinks_countWrite h₁).trans (shrinks_rangeLoop hloop)).trans (shrinks_codeRemoved _ _ _)
  · cases h
    exact .refl σ

theorem code_or_not {flags : BitVec 8} (h : flags &&& codeDirtyFlag = 0) :
    (flags ||| ~~~ codeDirtyFlag) &&& codeDirtyFlag = 0 := by
  revert flags
  decide

theorem shrinks_setDirtyFlags (σ : State t Cpu Mode) (p : Addr t) : Shrinks σ (σ.setDirtyFlags p) := by
  refine ⟨fun q hq => hq, rfl, fun q _ hcode => ?_, rfl⟩
  show Function.update σ.physRamDirty p (σ.physRamDirty p ||| ~~~ codeDirtyFlag) q &&& codeDirtyFlag = 0
  by_cases hq : q = p
  · subst hq
    rw [Function.update_self]
    exact code_or_not hcode
  · rw [Function.update_of_ne hq]
    exact hcode

theorem shrinks_notdirtyInvalidate {a : Addr t} {len : ℕ} (h : σ.notdirtyInvalidate a len = some σ') :
    Shrinks σ σ' :=
  notdirtyInvalidate_keeps (P := Shrinks σ) (fun hs hr => hs.trans (shrinks_range hr)) (.refl σ) h

theorem shrinks_physWriteLoop {fuel : ℕ} {addr : Addr t} {len : ℕ}
    (h : State.physWriteLoop fuel addr len σ = some σ') : Shrinks σ σ' :=
  physWriteLoop_keeps (P := Shrinks σ) (fun hs hr => hs.trans (shrinks_range hr))
    (fun p hs => hs.trans (shrinks_setDirtyFlags _ p)) (.refl σ) h

theorem shrinks_tbFlush (σ : State t Cpu Mode) : Shrinks σ σ.tbFlush :=
  ⟨fun _ _ => rfl, rfl, fun _ hp => absurd rfl hp, rfl⟩

end Shrinks

/-! ### Operations on the TLBs -/

section Tlb

theorem Inv.of_tlbTable (h : Inv σ) (tlbTable : Cpu → Mode → ℕ → CPUTLBEntry t)
    (hentry : ∀ c m i, EntryOk (tlbTable c m i) ∧
      (offset (tlbTable c m i).addrWrite = 0 → σ.lists.firstTb (tlbTable c m i).ramPage = none)) :
    Inv { σ with tlbTable := tlbTable } :=
  ⟨⟨h.code, fun c m i => (hentry c m i).2⟩, h.desc, fun c m i => (hentry c m i).1⟩

theorem entryOk_flushed (h : EntryOk e) : EntryOk e.flushed :=
  ⟨h.aligned, h.base, fun hmmio => absurd hmmio (by simp [CPUTLBEntry.flushed])⟩

theorem offset_flushed (e : CPUTLBEntry t) : offset e.flushed.addrWrite ≠ 0 := fun h =>
  absurd (mmioBit_eq_false h) (by simp [CPUTLBEntry.flushed])

theorem entryOk_notdirty (h : EntryOk e) (hdirect : offset e.addrWrite = 0) (w : Addr t) :
    EntryOk { e with addrWrite := w ||| tlbNotdirty } :=
  ⟨h.aligned, h.base, fun _ => h.ram (mmioBit_eq_false hdirect)⟩

theorem entryOk_tlbResetDirtyRange (h : EntryOk e) (start length : ℕ) : EntryOk (e.tlbResetDirtyRange start length) := by
  rw [CPUTLBEntry.tlbResetDirtyRange]
  split
  · rename_i hrange
    exact entryOk_notdirty h hrange.1 _
  · exact h

theorem direct_tlbResetDirtyRange {start length : ℕ} (h : offset (e.tlbResetDirtyRange start length).addrWrite = 0) :
    e.tlbResetDirtyRange start length = e ∧ offset e.addrWrite = 0 ∧
      ¬ (start ≤ e.ramPage.toNat ∧ e.ramPage.toNat - start < length) := by
  rw [CPUTLBEntry.tlbResetDirtyRange] at h ⊢
  split at h
  · exact absurd h (offset_or_notdirty _)
  · rename_i hrange
    rw [if_neg hrange]
    exact ⟨rfl, h, fun hin => hrange ⟨h, hin⟩⟩

theorem and_code {flags : BitVec 8} (h : flags &&& codeDirtyFlag = 0) (mask : BitVec 8) :
    flags &&& mask &&& codeDirtyFlag = 0 := by
  rw [BitVec.and_assoc, BitVec.and_comm mask, ← BitVec.and_assoc, h]
  exact BitVec.zero_and

theorem Inv.resetDirty (h : Inv σ) (start stop : ℕ) (dirtyFlags : BitVec 8) :
    Inv (σ.cpuPhysicalMemoryResetDirty start stop dirtyFlags) := by
  refine ⟨⟨fun p hp => ?_, fun c m i hdirect => ?_⟩, h.desc, fun c m i => ?_⟩
  · show (if _ then _ else _) &&& codeDirtyFlag = 0
    split
    · exact and_code (h.code p hp) _
    · exact h.code p hp
  · obtain ⟨heq, hdirect, -⟩ := direct_tlbResetDirtyRange hdirect
    show σ.lists.firstTb ((σ.tlbTable c m i).tlbResetDirtyRange _ _).ramPage = none
    rw [heq]
    exact h.direct c m i hdirect
  · exact entryOk_tlbResetDirtyRange (h.entries c m i) _ _

variable [DecidableEq Cpu]

theorem Inv.updateDirty (h : Inv σ) (cpu : Cpu) : Inv (σ.cpuTlbUpdateDirty cpu) := by
  refine h.of_tlbTable _ fun c m i => ?_
  have hentry := h.entries c m i
  have hdirect := h.direct c m i
  split
  · rw [CPUTLBEntry.tlbUpdateDirty]
    split
    · rename_i hram
      exact ⟨entryOk_notdirty hentry hram.1 _, fun hoff => absurd hoff (offset_or_notdirty _)⟩
    · exact ⟨hentry, hdirect⟩
  · exact ⟨hentry, hdirect⟩

theorem Inv.tlbFlush (h : Inv σ) (cpu : Cpu) : Inv (σ.tlbFlush cpu) := by
  refine h.of_tlbTable _ fun c m i => ?_
  split
  · exact ⟨entryOk_flushed (h.entries c m i), fun hoff => absurd hoff (offset_flushed _)⟩
  · exact ⟨h.entries c m i, h.direct c m i⟩

theorem Inv.tlbFlushPage (h : Inv σ) (cpu : Cpu) (addr : Addr t) : Inv (σ.tlbFlushPage cpu addr) := by
  refine h.of_tlbTable _ fun c m i => ?_
  split
  · rw [CPUTLBEntry.tlbFlushEntry]
    split
    · exact ⟨entryOk_flushed (h.entries c m i), fun hoff => absurd hoff (offset_flushed _)⟩
    · exact ⟨h.entries c m i, h.direct c m i⟩
  · exact ⟨h.entries c m i, h.direct c m i⟩

end Tlb

/-! ### New code -/

section Link

variable {p : Addr t}

theorem mem_pageRange (hp : page p = p) (x : ℕ) :
    p.toNat / t.pageSize * t.pageSize ≤ x ∧
        x < (p.toNat + t.pageSize + t.pageSize - 1) / t.pageSize * t.pageSize ↔
      p.toNat ≤ x ∧ x < p.toNat + t.pageSize := by
  have hS : 0 < t.pageSize := Nat.two_pow_pos _
  obtain ⟨k, hk⟩ := page_eq_self_iff.1 hp
  have hstop : (p.toNat + t.pageSize + t.pageSize - 1) / t.pageSize = k + 1 := by
    rw [hk, show t.pageSize * k + t.pageSize + t.pageSize - 1 = t.pageSize * (k + 1) + (t.pageSize - 1) by
      rw [Nat.mul_succ]; omega, Nat.mul_add_div hS, Nat.div_eq_of_lt (by omega), Nat.add_zero]
  rw [hstop, Nat.div_mul_cancel ⟨k, hk⟩, hk, Nat.succ_mul, Nat.mul_comm k]

theorem and_not_code (flags : BitVec 8) : flags &&& ~~~ codeDirtyFlag &&& codeDirtyFlag = 0 := by
  revert flags
  decide

theorem Inv.tlbProtectCode {τ : State t Cpu Mode} (h : Inv σ) (hp : page p = p)
    (hfirst : ∀ q, q ≠ p → τ.lists.firstTb q = σ.lists.firstTb q)
    (hdesc : ∀ q, q = p ∨ σ.hasDesc q = true → τ.hasDesc q = true)
    (hdirty : τ.physRamDirty = σ.physRamDirty) (htlb : τ.tlbTable = σ.tlbTable) : Inv (τ.tlbProtectCode p) := by
  have hS : 0 < t.pageSize := Nat.two_pow_pos _
  refine ⟨⟨fun q hq => ?_, fun c m i hdirect => ?_⟩, fun q hq => ?_, fun c m i => ?_⟩
  · show (if _ then _ else _) &&& codeDirtyFlag = 0
    simp only [mem_pageRange hp, hdirty]
    by_cases hqp : q = p
    · subst hqp
      rw [if_pos ⟨le_rfl, by omega⟩]
      exact and_not_code _
    · have hcode := h.code q (by rw [← hfirst q hqp]; exact hq)
      split
      · exact and_code hcode _
      · exact hcode
  · obtain ⟨heq, hdirect, hrange⟩ := direct_tlbResetDirtyRange hdirect
    show τ.lists.firstTb ((τ.tlbTable c m i).tlbResetDirtyRange _ _).ramPage = none
    rw [heq]
    have hne : (τ.tlbTable c m i).ramPage ≠ p := by
      intro hpage
      have hin := (mem_pageRange hp p.toNat).2 ⟨le_rfl, by omega⟩
      exact hrange (by rw [hpage]; omega)
    rw [hfirst _ hne, htlb]
    rw [htlb] at hdirect
    exact h.direct c m i hdirect
  · by_cases hqp : q = p
    · exact hdesc q (.inl hqp)
    · exact hdesc q (.inr (h.desc q (by rw [← hfirst q hqp]; exact hq)))
  · refine entryOk_tlbResetDirtyRange ?_ _ _
    rw [htlb]
    exact h.entries c m i

theorem Inv.tbAllocPage (h : Inv σ) (hp : page p = p) (n k : ℕ) : Inv (σ.tbAllocPage n k p) := by
  have hfirst : ∀ q, q ≠ p → (σ.lists.tbAllocPage n k p).firstTb q = σ.lists.firstTb q := fun q hq =>
    Function.update_of_ne hq _ _
  have hdesc : ∀ q, q = p ∨ σ.hasDesc q = true → (σ.pageFindAlloc p).hasDesc q = true := by
    rintro q (rfl | hq)
    · simp [State.pageFindAlloc]
    · simp [State.pageFindAlloc, hq]
  rw [State.tbAllocPage]
  split
  · exact h.tlbProtectCode hp hfirst hdesc rfl rfl
  · -- the page has code already, and is protected
    rename_i hsome
    have hcode : ∀ q, (σ.lists.tbAllocPage n k p).firstTb q ≠ none → σ.lists.firstTb q ≠ none := by
      intro q hq
      by_cases hqp : q = p
      · rwa [hqp]
      · rwa [← hfirst q hqp]
    refine ⟨⟨fun q hq => h.code q (hcode q hq), fun c m i hdirect => ?_⟩, fun q hq => ?_, h.entries⟩
    · by_contra hne
      exact hcode _ hne (h.direct c m i hdirect)
    · exact hdesc q (.inr (h.desc q (hcode q hq)))

theorem Inv.mapLists {f : TbLists.State t → TbLists.State t} (h : Inv σ)
    (hf : (f σ.lists).firstTb = σ.lists.firstTb) : Inv (σ.mapLists f) := h.shrinks (.of_eq hf rfl rfl rfl)

theorem Inv.tbLinkPhys (h : Inv σ) (n : ℕ) {physPc physPage2 : Addr t}
    (hpage2 : physPage2 ≠ noPage → page physPage2 = physPage2) : Inv (σ.tbLinkPhys n physPc physPage2) := by
  rw [State.tbLinkPhys]
  refine Inv.mapLists ?_ rfl
  have hfirst := (h.mapLists (f := fun l => { l with
    physHashNext := Function.update l.physHashNext n (l.tbPhysHash (tbPhysHashFunc physPc))
    tbPhysHash := Function.update l.tbPhysHash (tbPhysHashFunc physPc) (some n) }) rfl).tbAllocPage
      (page_page physPc) n 0
  split
  · rename_i htwo
    exact hfirst.tbAllocPage (hpage2 htwo) n 1
  · exact hfirst.mapLists rfl

end Link

/-! ### New entries -/

section Fill

variable {vaddr paddr : Addr t} {prot : Prot} {watchpoints : List (Addr t)}

theorem code_ne_dirty {flags : BitVec 8} (h : flags &&& codeDirtyFlag = 0) : flags ≠ 0xff := by
  rintro rfl
  exact absurd h (by decide)

theorem Protected.firstTb_dirty (h : Protected σ) {p : Addr t} (hdirty : σ.physRamDirty p = 0xff) :
    σ.lists.firstTb p = none := by
  by_contra hne
  exact code_ne_dirty (h.code p hne) hdirty

theorem page_zero : page (0 : Addr t) = 0 := page_eq_self_iff.2 (by simp)

/-- An entry for writing has `TLB_MMIO`, or it is for RAM that is not watched. -/
theorem tlbEntry_addrWrite (pd : PhysOffset t) (dirty : Addr t → BitVec 8) (vaddr paddr : Addr t) (prot : Prot)
    (watchpoints : List (Addr t)) :
    mmioBit (tlbEntry pd dirty vaddr paddr prot watchpoints).addrWrite = true ∨
      ∃ p, pd = .ram p ∧ (tlbEntry pd dirty vaddr paddr prot watchpoints).iotlb = .notdirty (p.addr - vaddr) ∧
        (tlbEntry pd dirty vaddr paddr prot watchpoints).addrWrite =
          if dirty p.addr ≠ 0xff then vaddr ||| tlbNotdirty else vaddr := by
  by_cases hwrite : prot.write = true
  · by_cases hwatch : (watchpoints.any fun wp => vaddr = page wp) = true
    · left
      cases pd <;> simp only [tlbEntry, hwrite, hwatch, if_true, mmioBit_or_mmio]
      split <;> simp
    · cases pd with
      | ram p => exact .inr ⟨p, rfl, by simp [tlbEntry, hwatch], by simp [tlbEntry, hwatch, hwrite]⟩
      | rom p => simp [tlbEntry, hwrite]
      | romd p => simp [tlbEntry, hwrite]
      | io => simp [tlbEntry, hwrite, hwatch]
  · simp [tlbEntry, hwrite]

theorem entryOk_tlbEntry (pd : PhysOffset t) (dirty : Addr t → BitVec 8) (hv : page vaddr = vaddr) :
    EntryOk (tlbEntry pd dirty vaddr paddr prot watchpoints) := by
  refine ⟨?_, fun b hb => ?_, fun hmmio => ?_⟩
  · cases pd with
    | ram p => exact page_sub_eq_self p.aligned hv
    | rom p => exact page_sub_eq_self p.aligned hv
    | romd p => exact page_sub_eq_self p.aligned hv
    | io => exact page_sub_eq_self page_zero hv
  · simp only [tlbEntry] at hb
    split at hb
    · exact absurd hb (by simp)
    · cases pd with
      | ram p => exact (Iotlb.notdirty.inj hb).symm
      | rom p => exact absurd hb (by simp)
      | romd p => exact absurd hb (by simp)
      | io => exact absurd hb (by simp)
  · rcases tlbEntry_addrWrite pd dirty vaddr paddr prot watchpoints with htrue | ⟨p, rfl, hiotlb, -⟩
    · rw [hmmio] at htrue
      exact absurd htrue (by decide)
    · exact hiotlb

variable [DecidableEq Cpu] [DecidableEq Mode]

/-- A new entry is direct only for a page that is dirty. -/
theorem Inv.tlbSetPageExec (h : Inv σ) (cpu : Cpu) (hv : page vaddr = vaddr) (mmuIdx : Mode) :
    Inv (σ.tlbSetPageExec cpu vaddr paddr prot mmuIdx watchpoints) := by
  refine h.of_tlbTable _ fun c m i => ?_
  split
  · refine ⟨entryOk_tlbEntry _ _ hv, fun hoff => ?_⟩
    rcases tlbEntry_addrWrite (σ.physOffset (page paddr)) σ.physRamDirty vaddr paddr prot watchpoints with
      htrue | ⟨p, hpd, -, hwrite⟩
    · rw [mmioBit_eq_false hoff] at htrue
      exact absurd htrue (by decide)
    · rw [hwrite] at hoff
      split at hoff
      · exact absurd hoff (offset_or_notdirty _)
      · rename_i hdirty
        have hpage : (tlbEntry (σ.physOffset (page paddr)) σ.physRamDirty vaddr paddr prot watchpoints).ramPage =
            p.addr := by
          rw [CPUTLBEntry.ramPage, hwrite, if_neg hdirty, hv]
          simp only [tlbEntry, hpd]
          rw [BitVec.add_comm, BitVec.sub_add_cancel]
        rw [hpage]
        exact h.firstTb_dirty (not_not.1 hdirty)
  · exact ⟨h.entries c m i, h.direct c m i⟩

end Fill

/-! ### Stores -/

section Store

variable {cpu : Cpu} {vaddr a q : Addr t}

/-- The entries of a CPU that `tlb_set_dirty` makes direct lead to page `q` or to a page
without code. -/
def Unshared (σ : State t Cpu Mode) (cpu : Cpu) (vaddr q : Addr t) : Prop :=
  ∀ m, (σ.tlbTable cpu m (State.tlbIndex vaddr)).addrWrite = page vaddr ||| tlbNotdirty →
    (σ.tlbTable cpu m (State.tlbIndex vaddr)).ramPage = q ∨
      σ.lists.firstTb (σ.tlbTable cpu m (State.tlbIndex vaddr)).ramPage = none

theorem Unshared.shrinks (h : Unshared σ cpu vaddr q) (hs : Shrinks σ σ') : Unshared σ' cpu vaddr q := by
  intro m hm
  rw [hs.tlbTable] at hm ⊢
  exact (h m hm).imp_right (hs.firstTb _)

variable [DecidableEq Cpu]

theorem Inv.tlbSetDirty (h : Inv σ) (hun : Unshared σ cpu vaddr q) (hq : σ.lists.firstTb q = none) :
    Inv (σ.tlbSetDirty cpu vaddr) := by
  refine h.of_tlbTable _ fun c m i => ?_
  have hentry := h.entries c m i
  have hdirect := h.direct c m i
  split
  · rename_i hci
    obtain ⟨rfl, rfl⟩ := hci
    rw [CPUTLBEntry.tlbSetDirty1]
    split
    · rename_i hnotdirty
      refine ⟨⟨hentry.aligned, hentry.base, fun _ => hentry.ram ?_⟩, fun _ => ?_⟩
      · rw [hnotdirty, mmioBit_or_notdirty, mmioBit_page]
      · have hpage : page (page vaddr) = page (σ.tlbTable c m (State.tlbIndex (page vaddr))).addrWrite := by
          rw [hnotdirty, page_or_notdirty]
        show σ.lists.firstTb (page (page vaddr) + _) = none
        rw [hpage]
        rw [tlbIndex_page] at hnotdirty ⊢
        rcases hun m hnotdirty with hram | hnone
        · exact (congrArg _ hram).trans hq
        · exact hnone
    · exact ⟨hentry, hdirect⟩
  · exact ⟨hentry, hdirect⟩

theorem unshared_tlbSetDirty (σ : State t Cpu Mode) (cpu : Cpu) (vaddr q : Addr t) :
    Unshared (σ.tlbSetDirty cpu vaddr) cpu vaddr q := by
  intro m hm
  have hentry : (σ.tlbSetDirty cpu vaddr).tlbTable cpu m (State.tlbIndex vaddr) =
      (σ.tlbTable cpu m (State.tlbIndex vaddr)).tlbSetDirty1 (page vaddr) := by
    rw [← tlbIndex_page]
    exact if_pos ⟨rfl, rfl⟩
  rw [hentry, CPUTLBEntry.tlbSetDirty1] at hm
  split at hm
  · have hoff := congrArg offset hm
    exact absurd (hoff.symm.trans (offset_page vaddr)) (offset_or_notdirty _)
  · rename_i hne
    exact absurd hm hne

theorem Inv.notdirtyMemWrite {len : ℕ} (h : Inv σ) (hun : Unshared σ cpu vaddr (page a))
    (hwrite : σ.notdirtyMemWrite cpu vaddr a len = some σ') : Inv σ' ∧ Unshared σ' cpu vaddr (page a) := by
  obtain ⟨σ₁, h₁, rfl⟩ := Option.map_eq_some_iff.1 hwrite
  have hs := (shrinks_notdirtyInvalidate h₁).trans (shrinks_setDirtyFlags σ₁ (page a))
  have hinv := h.shrinks hs
  dsimp only
  split
  · rename_i hdirty
    exact ⟨hinv.tlbSetDirty (hun.shrinks hs) (hinv.firstTb_dirty hdirty), unshared_tlbSetDirty _ _ _ _⟩
  · exact ⟨hinv, hun.shrinks hs⟩

theorem page_add_four (ha : a.toNat % 8 = 0) : page (a + 4) = page a := by
  have hbits := t.six_le.trans_lt t.lt_longBits
  have hw : 2 ^ 3 ∣ 2 ^ t.longBits := Nat.pow_dvd_pow 2 (by omega)
  have hS : t.pageSize = 8 * 2 ^ (t.pageBits - 3) := by
    rw [Target.pageSize, show 8 = 2 ^ 3 by decide, ← pow_add]
    congr 1
    have := t.six_le
    omega
  have hlt := a.isLt
  have hfour : (4 : Addr t).toNat = 4 := by
    show 4 % 2 ^ t.longBits = 4
    exact Nat.mod_eq_of_lt ((by decide : 4 < 8).trans_le (Nat.le_of_dvd (Nat.two_pow_pos _) hw))
  rw [← BitVec.toNat_inj, toNat_page, toNat_page, BitVec.toNat_add, hfour, Nat.mod_eq_of_lt (by omega), hS,
    ← Nat.div_div_eq_div_mul, ← Nat.div_div_eq_div_mul, show (a.toNat + 4) / 8 = a.toNat / 8 by omega]

/-- What a store that goes to the notdirty handler has found in the TLB. -/
theorem access_notdirty {dataSize : ℕ} (h : EntryOk e) (hacc : access e vaddr dataSize = .notdirty a) :
    a = e.addend + vaddr ∧ vaddr.toNat % dataSize = 0 := by
  rw [access] at hacc
  split at hacc
  · split at hacc
    · split at hacc
      · exact absurd hacc (by simp)
      · rename_i hmod
        split at hacc
        · rename_i base hiotlb
          rw [h.base base hiotlb] at hacc
          exact ⟨(Access.notdirty.inj hacc).symm, not_not.1 hmod⟩
        · exact absurd hacc (by simp)
        · exact absurd hacc (by simp)
    · split at hacc <;> exact absurd hacc (by simp)
  · exact absurd hacc (by simp)

theorem access_direct {dataSize : ℕ} (hacc : access e vaddr dataSize = .direct a) :
    a = vaddr + e.addend ∧ offset e.addrWrite = 0 ∧ page e.addrWrite = page vaddr := by
  rw [access] at hacc
  split at hacc
  · rename_i hhit
    split at hacc
    · split at hacc
      · exact absurd hacc (by simp)
      · split at hacc <;> exact absurd hacc (by simp)
    · rename_i hoff
      split at hacc
      · exact absurd hacc (by simp)
      · refine ⟨(Access.direct.inj hacc).symm, not_not.1 hoff, ?_⟩
        rw [← page_and_mask e.addrWrite tlbInvalidMask, ← hhit, page_page]
  · exact absurd hacc (by simp)

theorem Inv.ioWrite_notdirty {shift : ℕ} (h : Inv σ) (hun : Unshared σ cpu vaddr (page a))
    (ha : 2 < shift → a.toNat % 8 = 0)
    (hwrite : σ.ioWrite (fun a len σ => σ.notdirtyMemWrite cpu vaddr a len) a shift = some σ') : Inv σ' := by
  rw [State.ioWrite] at hwrite
  split at hwrite
  · exact (h.notdirtyMemWrite hun hwrite).1
  · rename_i hshift
    obtain ⟨σ₁, h₁, h₂⟩ := Option.bind_eq_some_iff.1 hwrite
    obtain ⟨hinv, hun⟩ := h.notdirtyMemWrite hun h₁
    rw [← page_add_four (ha (Nat.lt_of_not_le hshift))] at hun
    exact (hinv.notdirtyMemWrite hun h₂).1

theorem add_mod_eight {shift : ℕ} (hp : page q = q) (ha : a.toNat % 2 ^ shift = 0) (hshift : 2 < shift) :
    (q + a).toNat % 8 = 0 := by
  have hbits := t.six_le.trans_lt t.lt_longBits
  have hw : 2 ^ 3 ∣ 2 ^ t.longBits := Nat.pow_dvd_pow 2 (by omega)
  have hS : 2 ^ 3 ∣ t.pageSize := Nat.pow_dvd_pow 2 (by have := t.six_le; omega)
  have hs : 2 ^ 3 ∣ 2 ^ shift := Nat.pow_dvd_pow 2 hshift
  rw [BitVec.toNat_add]
  refine Nat.mod_eq_zero_of_dvd ((Nat.dvd_mod_iff hw).2 (Nat.dvd_add ?_ ?_))
  · exact hS.trans (page_eq_self_iff.1 hp)
  · exact hs.trans (Nat.dvd_of_mod_eq_zero ha)

omit [DecidableEq Cpu] in
theorem ioWrite_keeps {P : State t Cpu Mode → Prop} {write : Addr t → ℕ → State t Cpu Mode → Option (State t Cpu Mode)}
    {shift : ℕ} (hwrite : ∀ {a len σ σ'}, P σ → write a len σ = some σ' → P σ') (hσ : P σ)
    (h : σ.ioWrite write a shift = some σ') : P σ' := by
  rw [State.ioWrite] at h
  split at h
  · exact hwrite hσ h
  · obtain ⟨σ₁, h₁, h₂⟩ := Option.bind_eq_some_iff.1 h
    exact hwrite (hwrite hσ h₁) h₂

omit [DecidableEq Cpu] in
theorem shrinks_ioWrite_watch {shift : ℕ}
    (h : σ.ioWrite (fun a len σ => σ.cpuPhysicalMemoryWrite a len) a shift = some σ') : Shrinks σ σ' :=
  ioWrite_keeps (P := Shrinks σ) (fun hs hw => hs.trans (shrinks_physWriteLoop hw)) (.refl σ) h

omit [DecidableEq Cpu] in
theorem Inv.unshared {m : Mode} {dataSize : ℕ} (h : Inv σ)
    (hacc : access (σ.tlbTable cpu m (State.tlbIndex vaddr)) vaddr dataSize = .notdirty a)
    (hother : ∀ m', m' ≠ m →
      (σ.tlbTable cpu m' (State.tlbIndex vaddr)).addrWrite = page vaddr ||| tlbNotdirty →
      (σ.tlbTable cpu m' (State.tlbIndex vaddr)).ramPage = page a ∨
        σ.lists.firstTb (σ.tlbTable cpu m' (State.tlbIndex vaddr)).ramPage = none) :
    Unshared σ cpu vaddr (page a) := by
  intro m' hm'
  by_cases hm : m' = m
  · subst hm
    have hentry := h.entries cpu m' (State.tlbIndex vaddr)
    left
    rw [(access_notdirty hentry hacc).1, BitVec.add_comm, page_add hentry.aligned, CPUTLBEntry.ramPage, hm',
      page_or_notdirty, page_page]
  · exact hother m' hm hm'

end Store

/-! ### The lists -/

section Lists

theorem tbLinkPhys_lists (σ : State t Cpu Mode) (n : ℕ) (physPc physPage2 : Addr t) :
    (σ.tbLinkPhys n physPc physPage2).lists = σ.lists.tbLinkPhys n physPc physPage2 := by
  have halloc : ∀ (σ : State t Cpu Mode) (k : ℕ) (p : Addr t),
      (σ.tbAllocPage n k p).lists = σ.lists.tbAllocPage n k p := by
    intro σ k p
    rw [State.tbAllocPage]
    split <;> rfl
  rw [State.tbLinkPhys, TbLists.State.tbLinkPhys]
  by_cases htwo : physPage2 ≠ noPage
  · simp only [if_pos htwo, State.mapLists, halloc]
  · simp only [if_neg htwo, State.mapLists, halloc]

theorem tbPhysInvalidate_lists (σ : State t Cpu Mode) (n : ℕ) :
    (σ.tbPhysInvalidate n).map State.lists = σ.lists.tbPhysInvalidate n := by
  have hbitmap : ∀ (σ : State t Cpu Mode) (p : Addr t), (σ.invalidatePageBitmapSet p).lists = σ.lists := by
    intro σ p
    rw [State.invalidatePageBitmapSet]
    split <;> rfl
  simp only [State.tbPhysInvalidate, Option.map_map, Function.comp_def, hbitmap, Option.map_id']

theorem rangeLoop_lists (start stop : ℕ) : ∀ (fuel : ℕ) (cur : Option (ℕ × ℕ)) (σ : State t Cpu Mode),
    (State.rangeLoop start stop fuel cur σ).map State.lists =
      TbLists.State.rangeLoop start stop fuel cur σ.lists
  | 0, _, _ => rfl
  | _ + 1, none, _ => rfl
  | fuel + 1, some (n, k), σ => by
    rw [State.rangeLoop, TbLists.State.rangeLoop]
    split
    · rw [← tbPhysInvalidate_lists, Option.map_bind, Option.bind_map]
      congr 1
      funext τ
      exact rangeLoop_lists start stop fuel _ τ
    · exact rangeLoop_lists start stop fuel _ σ

end Lists

/-! ### Runs -/

section Runs

variable [DecidableEq Cpu] [DecidableEq Mode]

/-- The case that goes wrong: a store to a page that is not dirty, while another MMU mode of
the CPU has the virtual page for another RAM page, which has code. -/
def Ok (σ : State t Cpu Mode) : Op t Cpu Mode → Prop
  | .store cpu mmuIdx addr shift => ∀ a,
      access (σ.tlbTable cpu mmuIdx (State.tlbIndex addr)) addr (2 ^ shift) = .notdirty a → ∀ m, m ≠ mmuIdx →
      (σ.tlbTable cpu m (State.tlbIndex addr)).addrWrite = page addr ||| tlbNotdirty →
      (σ.tlbTable cpu m (State.tlbIndex addr)).ramPage = page a ∨
        σ.lists.firstTb (σ.tlbTable cpu m (State.tlbIndex addr)).ramPage = none
  | _ => True

omit [DecidableEq Mode] in
theorem Inv.st {cpu : Cpu} {mmuIdx : Mode} {addr : Addr t} {shift : ℕ} (h : Inv σ)
    (hok : Ok σ (.store cpu mmuIdx addr shift)) (hst : σ.st cpu mmuIdx addr shift = some σ') : Inv σ' := by
  rw [State.st] at hst
  split at hst
  · rename_i a hacc
    have hentry := h.entries cpu mmuIdx (State.tlbIndex addr)
    obtain ⟨rfl, hmod⟩ := access_notdirty hentry hacc
    exact h.ioWrite_notdirty (h.unshared hacc (hok _ hacc)) (add_mod_eight hentry.aligned hmod) hst
  · exact h.shrinks (shrinks_ioWrite_watch hst)
  · cases hst
    exact h

/-- Every operation that does not meet the case that goes wrong keeps pages with code protected. -/
theorem inv_step (op : Op t Cpu Mode) (h : Inv σ) (hok : Ok σ op) (hstep : step σ op = some σ') : Inv σ' := by
  cases op with
  | alloc maxBlocks pc size bufferFull =>
    cases hstep
    refine h.mapLists ?_
    rw [TbLists.State.tbAlloc]
    split <;> rfl
  | linkPhys n page1 page2 =>
    cases hstep
    refine h.tbLinkPhys n fun hne => ?_
    cases page2 with
    | none => exact absurd rfl hne
    | some p => exact p.aligned
  | addJump n k next =>
    cases hstep
    refine h.mapLists ?_
    rw [TbLists.State.tbAddJump]
    split <;> rfl
  | free n =>
    cases hstep
    refine h.mapLists ?_
    rw [TbLists.State.tbFree]
    split <;> rfl
  | flush =>
    cases hstep
    exact h.shrinks (shrinks_tbFlush σ)
  | physInvalidate n => exact h.shrinks (shrinks_tbPhysInvalidate hstep)
  | invalidateRange start stop isCpuWriteAccess => exact h.shrinks (shrinks_range hstep)
  | resetDirty start stop dirtyFlags =>
    cases hstep
    exact h.resetDirty start stop dirtyFlags
  | updateDirty cpu =>
    cases hstep
    exact h.updateDirty cpu
  | tlbFlush cpu =>
    cases hstep
    exact h.tlbFlush cpu
  | tlbFlushPage cpu addr =>
    cases hstep
    exact h.tlbFlushPage cpu addr
  | setPage cpu vaddr paddr prot mmuIdx watchpoints =>
    cases hstep
    exact h.tlbSetPageExec cpu vaddr.aligned mmuIdx
  | physWrite addr len => exact h.shrinks (shrinks_physWriteLoop hstep)
  | store cpu mmuIdx addr shift => exact h.st hok hstep

/-- Every write to a page with code gets to the invalidation: a direct store does not go to
such a page, and the tests of the handlers and of a physical write are met. -/
structure Intercepted (σ : State t Cpu Mode) : Prop where
  store : ∀ cpu m addr dataSize a, access (σ.tlbTable cpu m (State.tlbIndex addr)) addr dataSize = .direct a →
    σ.lists.firstTb (page a) = none
  notdirty : ∀ a len, σ.lists.firstTb (page a) ≠ none →
    σ.hasDesc (page a) = true ∧ σ.notdirtyInvalidate a len = σ.tbInvalidatePhysPageFast a len
  physWrite : ∀ a len, σ.lists.firstTb (page a) ≠ none → σ.hasDesc (page a) = true ∧
    σ.physRamWrite a len =
      (σ.tbInvalidatePhysPageRange a.toNat (a.toNat + len) false).map (·.setDirtyFlags (page a))

omit [DecidableEq Cpu] [DecidableEq Mode] in
theorem Inv.intercepted (h : Inv σ) : Intercepted σ := by
  refine ⟨fun cpu m addr dataSize a hacc => ?_, fun a len hcode => ?_, fun a len hcode => ?_⟩
  · obtain ⟨rfl, hoff, hpage⟩ := access_direct hacc
    have hdirect := h.direct cpu m _ hoff
    rwa [CPUTLBEntry.ramPage, hpage, ← page_add (h.entries cpu m _).aligned] at hdirect
  · exact ⟨h.desc _ hcode, if_pos (h.code _ hcode)⟩
  · exact ⟨h.desc _ hcode, if_pos (code_ne_dirty (h.code _ hcode))⟩

/-- Self-modifying code is noticed: in every run without a store of the kind that goes wrong,
the pages with translated code are protected in every state, and every write to one of them
gets to the code that invalidates. -/
theorem code_protected (physOffset : Addr t → PhysOffset t) (ops : List (Op t Cpu Mode))
    (hok : MeetsM step Ok (State.init physOffset) ops) (n : ℕ) (σ : State t Cpu Mode)
    (hrun : (ops.take n).foldlM step (State.init physOffset) = some σ) : Protected σ ∧ Intercepted σ := by
  have hinv := foldlM_take_invariant (P := Inv) (fun _ op _ h hop hstep => inv_step op h hop hstep) ops _
    (inv_init physOffset) hok n σ hrun
  exact ⟨hinv.toProtected, hinv.intercepted⟩

/-- All of physical memory is RAM, at its own address. -/
def identity (p : Addr t) : PhysOffset t := .ram ⟨page p, page_page p⟩

def page1 : PhysPage target32 := ⟨0x1000, page_0x1000⟩
def page5 : PhysPage target32 := ⟨0x5000, page_0x5000⟩

/-- A kernel block at `0x80001000`, on RAM page `0x1000`, and a user block at virtual address
`0x1000`, on RAM page `0x5000`. MMU mode 2 has virtual page `0x1000` for writing. -/
def userCode : List (Op target32 Unit (Fin 3)) :=
  [.alloc 8 0x80001000 4 false, .linkPhys 0 page1 none, .alloc 8 0x1000 4 false, .linkPhys 1 page5 none,
    .setPage () page1 page5 ⟨true, true, true⟩ 2 []]

/-- The user code is written to in MMU mode 2. -/
def userStore : List (Op target32 Unit (Fin 3)) := userCode ++ [.store () 2 0x1000 2]

/-- The block that is written to is invalidated, and its page is no longer protected. -/
theorem code_protected_userStore : ∃ σ, userStore.foldlM step (State.init identity) = some σ ∧
    (Protected σ ∧ Intercepted σ) ∧ σ.lists.firstTb 0x5000 = none := by
  refine ⟨_, rfl, code_protected identity userStore ?_ 6 _ rfl, by rfl⟩
  refine ⟨trivial, fun σ₁ h₁ => ⟨trivial, fun σ₂ h₂ => ⟨trivial, fun σ₃ h₃ => ⟨trivial, fun σ₄ h₄ =>
    ⟨trivial, fun σ₅ h₅ => ⟨fun a _ m hm hwrite => ?_, fun _ _ => trivial⟩⟩⟩⟩⟩⟩
  cases h₁
  cases h₂
  cases h₃
  cases h₄
  cases h₅
  exact absurd hwrite (by revert hm; revert m; decide)

/-- In MMU mode 0 the same virtual page is RAM page `0x1000`, and the block there is
written to. -/
def kernelStore : List (Op target32 Unit (Fin 3)) :=
  userCode ++ [.setPage () page1 page1 ⟨true, true, true⟩ 0 [], .store () 0 0x1000 2]

/-- The kernel block is gone, and user stores to the user code are direct. -/
theorem kernelStore_unprotects : ∃ σ, kernelStore.foldlM step (State.init identity) = some σ ∧
    σ.lists.firstTb 0x5000 ≠ none ∧ ¬ Protected σ ∧
    access (σ.tlbTable () 2 (State.tlbIndex (t := target32) 0x1000)) 0x1000 4 = .direct 0x5000 := by
  refine ⟨_, rfl, by decide, fun h => ?_, by rfl⟩
  exact absurd (h.direct () 2 1 (by rfl)) (by decide)

end Runs

end Ar7Qemu.Exec.CodeProtect
