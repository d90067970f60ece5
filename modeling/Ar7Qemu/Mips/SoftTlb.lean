import Ar7Qemu.Mips.Mmu

/-! Pages of TLB entries, hits in the soft TLB, and what `r4k_invalidate_tlb` flushes. -/

namespace Ar7Qemu.Mips

/-! ### Addresses -/

section Addresses

theorem getLsbD_page (a : Word) (i : ℕ) : (page a).getLsbD i = (a.getLsbD i && decide (12 ≤ i)) := by
  by_cases hi : i < 32
  · have hmask : targetPageMask.getLsbD i = decide (12 ≤ i) := by
      revert i
      decide
    rw [page, BitVec.getLsbD_and, hmask]
  · rw [BitVec.getLsbD_of_ge _ _ (Nat.le_of_not_lt hi), BitVec.getLsbD_of_ge _ _ (Nat.le_of_not_lt hi),
      Bool.false_and]

theorem page_eq_of_getLsbD {a b : Word} (h : ∀ i, 12 ≤ i → a.getLsbD i = b.getLsbD i) : page a = page b := by
  apply BitVec.eq_of_getLsbD_eq
  intro i _
  rw [getLsbD_page, getLsbD_page]
  by_cases hi : 12 ≤ i
  · rw [h i hi]
  · simp [hi]

theorem toNat_page (a : Word) : (page a).toNat = a.toNat / 4096 * 4096 := by
  have hshift : page a = (a >>> 12) <<< 12 := by
    apply BitVec.eq_of_getLsbD_eq
    intro i hi
    rw [getLsbD_page, BitVec.getLsbD_shiftLeft, BitVec.getLsbD_ushiftRight]
    by_cases h : 12 ≤ i
    · simp [h, hi, Nat.not_lt.2 h, Nat.add_sub_cancel' h]
    · simp [h, Nat.lt_of_not_le h]
  have hlt := a.isLt
  rw [hshift, BitVec.toNat_shiftLeft, BitVec.toNat_ushiftRight, Nat.shiftRight_eq_div_pow, Nat.shiftLeft_eq]
  exact Nat.mod_eq_of_lt (by omega)

theorem page_ne_allOnes {v : Word} (hv : page v = v) : v ≠ BitVec.allOnes 32 := by
  rintro rfl
  exact absurd hv (by decide)

theorem segment_page (a : Word) : segment (page a) = segment a := by
  have h := toNat_page a
  have hle : ∀ b : Word, b.toNat % 4096 = 4095 → (page a ≤ b ↔ a ≤ b) := fun b hb => by
    rw [BitVec.le_def, BitVec.le_def]
    omega
  have hlt : ∀ b : Word, b.toNat % 4096 = 0 → (page a < b ↔ a < b) := fun b hb => by
    rw [BitVec.lt_def, BitVec.lt_def]
    omega
  simp only [segment, hle 0x7fffffff (by decide), hlt 0xa0000000 (by decide), hlt 0xc0000000 (by decide),
    hlt 0xe0000000 (by decide)]

theorem page_sub (a : Word) {b : Word} (hb : b.toNat % 4096 = 0) : page (a - b) = page a - b := by
  have ha := a.isLt
  rw [← BitVec.toNat_inj, toNat_page, BitVec.toNat_sub, BitVec.toNat_sub, toNat_page]
  omega

end Addresses

/-! ### Entries of the guest TLB -/

section Entries

variable {tlb tlb' : R4kTlb} {asid : BitVec 8} {address : Word}

theorem R4kTlb.getLsbD_mask (tlb : R4kTlb) {i : ℕ} (hi : i < 13) : tlb.mask.getLsbD i = true := by
  have hlow : (~~~(targetPageMask <<< 1)).getLsbD i = true := by
    revert i
    decide
  rw [R4kTlb.mask, BitVec.getLsbD_or, hlow, Bool.or_true]

theorem R4kTlb.and_not_mask_page (tlb : R4kTlb) (address : Word) :
    page address &&& ~~~tlb.mask = address &&& ~~~tlb.mask := by
  apply BitVec.eq_of_getLsbD_eq
  intro i hi
  rw [BitVec.getLsbD_and, BitVec.getLsbD_and, BitVec.getLsbD_not, getLsbD_page]
  by_cases h : 12 ≤ i
  · simp [h]
  · simp [tlb.getLsbD_mask (by omega : i < 13)]

@[simp] theorem R4kTlb.isMatch_page (tlb : R4kTlb) (asid : BitVec 8) (address : Word) :
    tlb.isMatch asid (page address) = tlb.isMatch asid address := by
  rw [R4kTlb.isMatch, R4kTlb.isMatch, tlb.and_not_mask_page]

@[simp] theorem R4kTlb.odd_page (tlb : R4kTlb) (address : Word) : tlb.odd (page address) = tlb.odd address := by
  have hbits : page address &&& tlb.mask &&& ~~~(tlb.mask >>> 1) = address &&& tlb.mask &&& ~~~(tlb.mask >>> 1) := by
    apply BitVec.eq_of_getLsbD_eq
    intro i hi
    simp only [BitVec.getLsbD_and, BitVec.getLsbD_not, BitVec.getLsbD_ushiftRight, getLsbD_page]
    by_cases h : 12 ≤ i
    · simp [h]
    · simp [tlb.getLsbD_mask (by omega : 1 + i < 13)]
  rw [R4kTlb.odd, R4kTlb.odd, hbits]

@[simp] theorem R4kTlb.valid_page (tlb : R4kTlb) (address : Word) : tlb.valid (page address) = tlb.valid address := by
  rw [R4kTlb.valid, R4kTlb.valid, tlb.odd_page]

@[simp] theorem R4kTlb.dirty_page (tlb : R4kTlb) (address : Word) : tlb.dirty (page address) = tlb.dirty address := by
  rw [R4kTlb.dirty, R4kTlb.dirty, tlb.odd_page]

@[simp] theorem R4kTlb.page_physical (tlb : R4kTlb) (address : Word) :
    page (tlb.physical (page address)) = page (tlb.physical address) := by
  refine page_eq_of_getLsbD fun i hi => ?_
  rw [R4kTlb.physical, R4kTlb.physical, tlb.odd_page, BitVec.getLsbD_or, BitVec.getLsbD_or, BitVec.getLsbD_and,
    BitVec.getLsbD_and, getLsbD_page]
  simp [hi]

theorem R4kTlb.overlaps_of_isMatch (h : tlb.isMatch asid address = true) (h' : tlb'.isMatch asid address = true) :
    tlb.Overlaps tlb' := by
  simp only [R4kTlb.isMatch, Bool.and_eq_true, Bool.or_eq_true, beq_iff_eq] at h h'
  constructor
  · rcases h.1 with hg | hasid
    · exact .inl hg
    · rcases h'.1 with hg | hasid'
      · exact .inr (.inl hg)
      · exact .inr (.inr (hasid.trans hasid'.symm))
  · have hboth : ∀ x : Word, x &&& ~~~(tlb.mask ||| tlb'.mask) = x &&& ~~~tlb.mask &&& ~~~tlb'.mask := fun x => by
      rw [BitVec.not_or, BitVec.and_assoc]
    rw [hboth, hboth, h.2, BitVec.and_assoc tlb'.vpn, BitVec.and_comm (~~~tlb.mask), ← BitVec.and_assoc, h'.2,
      BitVec.and_assoc, BitVec.and_comm (~~~tlb.mask), ← BitVec.and_assoc]

theorem R4kTlb.Overlaps.symm (h : tlb.Overlaps tlb') : tlb'.Overlaps tlb := by
  refine ⟨?_, ?_⟩
  · rcases h.1 with hg | hg | hasid
    · exact .inr (.inl hg)
    · exact .inl hg
    · exact .inr (.inr hasid.symm)
  · rw [BitVec.or_comm]
    exact h.2.symm

end Entries

/-! ### Hits in the soft TLB -/

inductive AccessKind where
  | read | write | code
  deriving DecidableEq

def SoftEntry.addr (e : SoftEntry) : AccessKind → Word
  | .read => e.addrRead
  | .write => e.addrWrite
  | .code => e.addrCode

/-- An access to page `v` finds a valid entry in the soft TLB of mode `m`. -/
def Hit (table : SoftTlb) (m : Word) (k : AccessKind) (v : Word) : Prop :=
  page v = v ∧ (table m (tlbIndex v)).addr k = v

section Hits

variable {table table' table'' : SoftTlb} {m v : Word} {k : AccessKind}

/-- Some entries have been flushed. -/
def Thins (table table' : SoftTlb) : Prop := ∀ m i, table' m i = table m i ∨ table' m i = (table m i).flushed

theorem Thins.refl (table : SoftTlb) : Thins table table := fun _ _ => .inl rfl

theorem Thins.trans (h : Thins table table') (h' : Thins table' table'') : Thins table table'' := by
  intro m i
  rcases h' m i with heq | hflushed
  · rw [heq]
    exact h m i
  · right
    rw [hflushed]
    rcases h m i with heq | hflushed
    · rw [heq]
    · rw [hflushed]
      rfl

theorem not_hit_flushed (hentry : table m (tlbIndex v) = (table' m (tlbIndex v)).flushed) : ¬ Hit table m k v := by
  intro ⟨hv, haddr⟩
  rw [hentry] at haddr
  refine page_ne_allOnes hv (haddr.symm.trans ?_)
  cases k <;> rfl

theorem Thins.hit (h : Thins table table') (hhit : Hit table' m k v) :
    Hit table m k v ∧ table' m (tlbIndex v) = table m (tlbIndex v) := by
  rcases h m (tlbIndex v) with heq | hflushed
  · refine ⟨⟨hhit.1, ?_⟩, heq⟩
    rw [← heq]
    exact hhit.2
  · exact absurd hhit (not_hit_flushed hflushed)

theorem not_hit_tlbFlush (table : SoftTlb) : ¬ Hit (tlbFlush table) m k v := by
  refine not_hit_flushed (?_ : _ = (table m (tlbIndex v)).flushed)
  rfl

theorem thins_tlbFlushPage (addr : Word) (table : SoftTlb) : Thins table (tlbFlushPage addr table) := by
  intro m i
  rw [tlbFlushPage]
  split
  · rw [SoftEntry.tlbFlushEntry]
    split
    · exact .inr rfl
    · exact .inl rfl
  · exact .inl rfl

theorem page_and_mask {v : Word} (hv : page v = v) : v &&& (targetPageMask ||| tlbInvalidMask) = v := by
  rw [← hv, page]
  apply BitVec.eq_of_getLsbD_eq
  intro i _
  simp only [BitVec.getLsbD_and, BitVec.getLsbD_or]
  cases v.getLsbD i <;> cases targetPageMask.getLsbD i <;> simp

theorem not_hit_tlbFlushPage (hv : page v = v) : ¬ Hit (tlbFlushPage v table) m k v := by
  intro hhit
  obtain ⟨hbefore, hsame⟩ := (thins_tlbFlushPage v table).hit hhit
  have hentry : tlbFlushPage v table m (tlbIndex v) = (table m (tlbIndex v)).flushed := by
    rw [tlbFlushPage, hv, if_pos rfl, SoftEntry.tlbFlushEntry]
    refine if_pos ?_
    have haddr := hbefore.2
    cases k with
    | read => exact .inl (by rw [show (table m (tlbIndex v)).addrRead = v from haddr, page_and_mask hv])
    | write => exact .inr (.inl (by rw [show (table m (tlbIndex v)).addrWrite = v from haddr, page_and_mask hv]))
    | code => exact .inr (.inr (by rw [show (table m (tlbIndex v)).addrCode = v from haddr, page_and_mask hv]))
  exact not_hit_flushed hentry hhit

theorem thins_flushWhile (test : Word → Bool) : ∀ (fuel : ℕ) (addr : Word) (table : SoftTlb),
    Thins table (flushWhile test fuel addr table)
  | 0, _, table => .refl table
  | fuel + 1, addr, table => by
    rw [flushWhile]
    split
    · exact (thins_tlbFlushPage addr table).trans (thins_flushWhile test fuel _ _)
    · exact .refl table

/-- The pages that a loop gets to are flushed. -/
theorem not_hit_flushWhile {test : Word → Bool} (hv : page v = v) : ∀ {fuel n : ℕ} {addr : Word} {table : SoftTlb},
    v = addr + BitVec.ofNat 32 (n * 4096) → (∀ n' ≤ n, test (addr + BitVec.ofNat 32 (n' * 4096)) = true) → n < fuel →
    ¬ Hit (flushWhile test fuel addr table) m k v
  | fuel + 1, 0, addr, table, heq, htest, _ => by
    have haddr : addr = v := by simpa using heq.symm
    have htest : test addr = true := by simpa using htest 0 le_rfl
    rw [flushWhile, if_pos htest, haddr]
    intro hhit
    exact not_hit_tlbFlushPage hv ((thins_flushWhile test fuel _ _).hit hhit).1
  | fuel + 1, n + 1, addr, table, heq, htest, hlt => by
    have hnext : ∀ i, addr + targetPageSize + BitVec.ofNat 32 (i * 4096) = addr + BitVec.ofNat 32 ((i + 1) * 4096) := by
      intro i
      rw [BitVec.add_assoc, Nat.succ_mul, Nat.add_comm (i * 4096), BitVec.ofNat_add]
      rfl
    have htest₀ : test addr = true := by simpa using htest 0 (Nat.zero_le _)
    rw [flushWhile, if_pos htest₀]
    refine not_hit_flushWhile hv (n := n) (by rw [hnext]; exact heq) (fun n' hn' => ?_) (Nat.lt_of_succ_lt_succ hlt)
    rw [hnext]
    exact htest (n' + 1) (Nat.succ_le_succ hn')

theorem thins_flushPages (tlb : R4kTlb) (table : SoftTlb) : Thins table (flushPages tlb table) := by
  rw [flushPages]
  have hfirst : Thins table (if tlb.v0 then flushWhile (fun addr => decide (addr < tlb.vpn &&& ~~~tlb.mask |||
      tlb.mask >>> 1)) (tlb.mask.toNat / 4096 + 1) (tlb.vpn &&& ~~~tlb.mask) table else table) := by
    split
    · exact thins_flushWhile _ _ _ _
    · exact .refl table
  split
  · exact hfirst.trans (thins_flushWhile _ _ _ _)
  · exact hfirst

end Hits

/-! ### Pages of an entry -/

/-- The mask is one of a pair of pages of 4 KB, or of larger ones. -/
def R4kTlb.Regular (tlb : R4kTlb) : Prop := ∃ n, 12 ≤ n ∧ n < 32 ∧ tlb.mask.toNat = 2 ^ (n + 1) - 1

section Pages

variable {tlb : R4kTlb} {n : ℕ} {table : SoftTlb} {m v : Word} {k : AccessKind} {asid : BitVec 8}

theorem getLsbD_mask (hmask : tlb.mask.toNat = 2 ^ (n + 1) - 1) (i : ℕ) : tlb.mask.getLsbD i = decide (i < n + 1) := by
  rw [← BitVec.testBit_toNat, hmask, Nat.testBit_two_pow_sub_one]

theorem toNat_and_not_mask (hmask : tlb.mask.toNat = 2 ^ (n + 1) - 1) (x : Word) :
    (x &&& ~~~tlb.mask).toNat = x.toNat / 2 ^ (n + 1) * 2 ^ (n + 1) := by
  have hshift : x &&& ~~~tlb.mask = (x >>> (n + 1)) <<< (n + 1) := by
    apply BitVec.eq_of_getLsbD_eq
    intro i hi
    rw [BitVec.getLsbD_and, BitVec.getLsbD_not, getLsbD_mask hmask, BitVec.getLsbD_shiftLeft,
      BitVec.getLsbD_ushiftRight]
    by_cases h : i < n + 1
    · simp [h]
    · simp [h, hi, Nat.add_sub_cancel' (Nat.le_of_not_lt h)]
  have hle : x.toNat / 2 ^ (n + 1) * 2 ^ (n + 1) < 2 ^ 32 := Nat.lt_of_le_of_lt (Nat.div_mul_le_self _ _) x.isLt
  rw [hshift, BitVec.toNat_shiftLeft, BitVec.toNat_ushiftRight, Nat.shiftRight_eq_div_pow, Nat.shiftLeft_eq]
  exact Nat.mod_eq_of_lt hle

theorem toNat_half (hmask : tlb.mask.toNat = 2 ^ (n + 1) - 1) : (tlb.mask >>> 1).toNat = 2 ^ n - 1 := by
  have hpos := Nat.two_pow_pos n
  rw [BitVec.toNat_ushiftRight, hmask, Nat.shiftRight_eq_div_pow, Nat.pow_succ]
  omega

/-- The second page of a pair is the upper half. -/
theorem odd_iff (hn : n < 32) (hmask : tlb.mask.toNat = 2 ^ (n + 1) - 1) (v : Word) :
    tlb.odd v = true ↔ 2 ^ n ≤ v.toNat % 2 ^ (n + 1) := by
  have hbits : v &&& tlb.mask &&& ~~~(tlb.mask >>> 1) = v &&& BitVec.twoPow 32 n := by
    apply BitVec.eq_of_getLsbD_eq
    intro i hi
    rw [BitVec.getLsbD_and, BitVec.getLsbD_and, BitVec.getLsbD_and, BitVec.getLsbD_not, BitVec.getLsbD_ushiftRight,
      getLsbD_mask hmask, getLsbD_mask hmask, BitVec.getLsbD_twoPow]
    by_cases h : i = n
    · subst h
      simp [hi, show ¬ 1 + i < i + 1 by omega]
    · by_cases hlt : i < n
      · simp [hi, show 1 + i < n + 1 by omega, Ne.symm h]
      · simp [show ¬ i < n + 1 by omega, Ne.symm h]
  have hpos := Nat.two_pow_pos n
  have hsplit := Nat.mod_pow_succ (b := 2) (k := n) (x := v.toNat)
  have hlow := Nat.mod_lt v.toNat hpos
  rw [R4kTlb.odd, hbits, BitVec.and_twoPow, decide_eq_true_eq, ← BitVec.testBit_toNat, Nat.testBit_eq_decide_div_mod_eq,
    hsplit]
  have htwo : BitVec.twoPow 32 n ≠ 0#32 := by
    intro hzero
    have := congrArg BitVec.toNat hzero
    rw [BitVec.toNat_twoPow_of_lt hn] at this
    exact absurd this (Nat.pos_iff_ne_zero.1 hpos)
  rcases Nat.mod_two_eq_zero_or_one (v.toNat / 2 ^ n) with hbit | hbit
  · simp only [hbit]
    simp
    omega
  · simp only [hbit]
    simp [htwo]

theorem toNat_match (hmask : tlb.mask.toNat = 2 ^ (n + 1) - 1) (hmatch : tlb.isMatch asid v = true) :
    v.toNat = (tlb.vpn &&& ~~~tlb.mask).toNat + v.toNat % 2 ^ (n + 1) := by
  rw [R4kTlb.isMatch, Bool.and_eq_true, beq_iff_eq] at hmatch
  rw [hmatch.2, toNat_and_not_mask hmask, Nat.mul_comm]
  exact (Nat.div_add_mod _ _).symm

theorem base_or (hmask : tlb.mask.toNat = 2 ^ (n + 1) - 1) {x : Word} (hx : x.toNat < 2 ^ (n + 1)) :
    (tlb.vpn &&& ~~~tlb.mask ||| x).toNat = (tlb.vpn &&& ~~~tlb.mask).toNat + x.toNat := by
  rw [BitVec.toNat_or, toNat_and_not_mask hmask, Nat.mul_comm]
  exact (Nat.two_pow_add_eq_or_of_lt hx _).symm

/-- A matching page that is valid is flushed: the loop of its half gets to it. -/
theorem not_hit_flushPages (hreg : tlb.Regular) (hv : page v = v) (hmatch : tlb.isMatch asid v = true)
    (hvalid : tlb.valid v = true) : ¬ Hit (flushPages tlb table) m k v := by
  obtain ⟨n, hn12, hn32, hmask⟩ := hreg
  have hpos := Nat.two_pow_pos n
  have hsucc : 2 ^ (n + 1) = 2 ^ n + 2 ^ n := by rw [Nat.pow_succ]; omega
  have hrest := Nat.mod_lt v.toNat (Nat.two_pow_pos (n + 1))
  have hplace := toNat_match hmask hmatch
  have hbase := (tlb.vpn &&& ~~~tlb.mask).isLt
  have hvlt := v.isLt
  obtain ⟨c, hc⟩ : 4096 ∣ 2 ^ n := Nat.pow_dvd_pow 2 hn12
  have hvpage : v.toNat % 4096 = 0 := by
    have := toNat_page v
    rw [hv] at this
    omega
  have hbasepage : (tlb.vpn &&& ~~~tlb.mask).toNat % 4096 = 0 := by
    rw [toNat_and_not_mask hmask, hsucc, hc, ← Nat.mul_add, Nat.mul_left_comm]
    exact Nat.mul_mod_right _ _
  set base := tlb.vpn &&& ~~~tlb.mask with hbasedef
  set r := v.toNat % 2 ^ (n + 1) with hr
  have hhalf := toNat_half hmask
  by_cases hodd : tlb.odd v = true
  · have hhigh := (odd_iff hn32 hmask v).1 hodd
    have hv1 : tlb.v1 = true := by simpa [R4kTlb.valid, hodd] using hvalid
    have hone : ((tlb.mask >>> 1) + 1).toNat = 2 ^ n := by
      have : 2 ^ n < 2 ^ 32 := Nat.pow_lt_pow_right (by decide) hn32
      rw [BitVec.toNat_add, hhalf]
      show (2 ^ n - 1 + 1) % 2 ^ 32 = 2 ^ n
      rw [Nat.sub_add_cancel hpos, Nat.mod_eq_of_lt this]
    have hstart : (base ||| (tlb.mask >>> 1) + 1).toNat = base.toNat + 2 ^ n := by
      rw [hbasedef, base_or hmask (by omega), hone]
    have hor : (tlb.mask >>> 1) + 1 ||| tlb.mask = tlb.mask := by
      have htwo : (tlb.mask >>> 1) + 1 = BitVec.twoPow 32 n := by
        rw [← BitVec.toNat_inj, hone, BitVec.toNat_twoPow_of_lt hn32]
      rw [htwo]
      apply BitVec.eq_of_getLsbD_eq
      intro i hi
      rw [BitVec.getLsbD_or, BitVec.getLsbD_twoPow, getLsbD_mask hmask]
      by_cases h : n = i
      · simp [h, hi]
      · simp [h]
    have hstop : (base ||| (tlb.mask >>> 1) + 1 ||| tlb.mask).toNat = base.toNat + (2 ^ (n + 1) - 1) := by
      rw [BitVec.or_assoc, hor, hbasedef, base_or hmask (by omega), hmask]
    rw [flushPages, if_pos hv1]
    refine not_hit_flushWhile hv (n := (r - 2 ^ n) / 4096) ?_ (fun n' hn' => ?_) ?_
    · rw [← BitVec.toNat_inj, BitVec.toNat_add, hstart, BitVec.toNat_ofNat]
      omega
    · rw [decide_eq_true_eq, BitVec.lt_def, hstop, BitVec.toNat_sub, BitVec.toNat_add, hstart, BitVec.toNat_ofNat]
      show (2 ^ 32 - 1 % 2 ^ 32 + (base.toNat + 2 ^ n + n' * 4096 % 2 ^ 32) % 2 ^ 32) % 2 ^ 32 < _
      omega
    · omega
  · have hlow : r < 2 ^ n := by
      rw [odd_iff hn32 hmask] at hodd
      omega
    have hv0 : tlb.v0 = true := by simpa [R4kTlb.valid, hodd] using hvalid
    have hstop : (base ||| tlb.mask >>> 1).toNat = base.toNat + (2 ^ n - 1) := by
      rw [hbasedef, base_or hmask (by omega), hhalf]
    have hfirst : ¬ Hit (flushWhile (fun addr => decide (addr < base ||| tlb.mask >>> 1))
        (tlb.mask.toNat / 4096 + 1) base table) m k v := by
      refine not_hit_flushWhile hv (n := r / 4096) ?_ (fun n' hn' => ?_) ?_
      · rw [← BitVec.toNat_inj, BitVec.toNat_add, BitVec.toNat_ofNat]
        omega
      · rw [decide_eq_true_eq, BitVec.lt_def, hstop, BitVec.toNat_add, BitVec.toNat_ofNat]
        omega
      · omega
    rw [flushPages, if_pos hv0]
    split
    · intro hhit
      exact hfirst ((thins_flushWhile _ _ _ _).hit hhit).1
    · exact hfirst

end Pages

end Ar7Qemu.Mips
