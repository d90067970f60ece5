import Mathlib.Data.Nat.Bitwise
import Mathlib.Tactic.Common

/-! Guest addresses and pages, translation blocks, and the hash functions of
`exec-all.h`. -/

namespace Ar7Qemu.Exec

/-- The sizes of a guest. -/
structure Target where
  /-- `TARGET_LONG_BITS`. -/
  longBits : ℕ
  /-- `TARGET_PAGE_BITS`. -/
  pageBits : ℕ
  /-- A page has at least `TB_JMP_PAGE_SIZE` bytes. -/
  six_le : 6 ≤ pageBits
  lt_longBits : pageBits < longBits

/-- Guests with 32-bit addresses and pages of 4 KB. -/
def target32 : Target := ⟨32, 12, by decide, by decide⟩

variable {t : Target}

/-- `target_ulong`. -/
abbrev Addr (t : Target) := BitVec t.longBits

/-- `TARGET_PAGE_SIZE`. -/
def Target.pageSize (t : Target) : ℕ := 2 ^ t.pageBits

/-- `TARGET_PAGE_MASK`. -/
def pageMask (t : Target) : Addr t := ~~~ BitVec.ofNat _ (t.pageSize - 1)

def page (a : Addr t) : Addr t := a &&& pageMask t

def offset (a : Addr t) : Addr t := a &&& ~~~ pageMask t

/-- `page + TARGET_PAGE_SIZE`. -/
def nextPage (a : Addr t) : Addr t := page a + BitVec.ofNat _ t.pageSize

/-- The address of a page. -/
structure PhysPage (t : Target) where
  addr : Addr t
  aligned : page addr = addr

theorem page_zero : page (0 : Addr target32) = 0 := rfl

theorem page_0x1000 : page (0x1000 : Addr target32) = 0x1000 := rfl

theorem page_0x5000 : page (0x5000 : Addr target32) = 0x5000 := rfl

/-- `-1` as a page. -/
def noPage : Addr t := BitVec.allOnes _

/-- `TranslationBlock`, without its links to other blocks. -/
structure TranslationBlock (t : Target) where
  pc : Addr t
  csBase : Addr t
  flags : BitVec 32
  /-- The size of the guest code. -/
  size : ℕ
  cflags : ℕ
  /-- Where the generated code starts, from `code_gen_buffer` on. -/
  tcPtr : ℕ
  /-- `page_addr[0]`. -/
  pageAddr0 : Addr t
  /-- `page_addr[1]`, `-1` when there is no second page. -/
  pageAddr1 : Addr t

def TranslationBlock.physPc (tb : TranslationBlock t) : Addr t := tb.pageAddr0 + offset tb.pc

/-- `virt_page2` of `tb_gen_code`: the page of the last byte. -/
def TranslationBlock.lastPage (tb : TranslationBlock t) : Addr t :=
  page (tb.pc + BitVec.ofNat _ (tb.size - 1))

/-! ### Hash functions -/

def tbJmpCacheBits : ℕ := 12
def tbJmpPageSize : ℕ := 2 ^ 6
def tbJmpAddrMask : ℕ := tbJmpPageSize - 1
def tbJmpPageMask : ℕ := 2 ^ tbJmpCacheBits - tbJmpPageSize

/-- The first step of both hash functions of the jump cache. -/
def tbJmpCacheTmp (pc : Addr t) : Addr t := pc ^^^ (pc >>> (t.pageBits - 6))

def tbJmpCacheHashPage (pc : Addr t) : ℕ :=
  ((tbJmpCacheTmp pc >>> (t.pageBits - 6)) &&& BitVec.ofNat _ tbJmpPageMask).toNat

def tbJmpCacheHashFunc (pc : Addr t) : ℕ :=
  (((tbJmpCacheTmp pc >>> (t.pageBits - 6)) &&& BitVec.ofNat _ tbJmpPageMask) |||
    (tbJmpCacheTmp pc &&& BitVec.ofNat _ tbJmpAddrMask)).toNat

def tbPhysHashFunc (pc : Addr t) : ℕ := pc.toNat &&& (2 ^ 15 - 1)

/-! ### Pages -/

section Pages

theorem getLsbD_page (a : Addr t) (i : ℕ) : (page a).getLsbD i = (a.getLsbD i && decide (t.pageBits ≤ i)) := by
  by_cases hi : i < t.longBits
  · simp only [page, pageMask, Target.pageSize, BitVec.getLsbD_and, BitVec.getLsbD_not, BitVec.getLsbD_ofNat,
      Nat.testBit_two_pow_sub_one, hi, decide_true, Bool.true_and]
    by_cases hp : t.pageBits ≤ i
    · simp [hp]
    · simp [hp, Nat.lt_of_not_le hp]
  · simp [BitVec.getLsbD_of_ge _ _ (Nat.le_of_not_lt hi)]

theorem getLsbD_offset (a : Addr t) (i : ℕ) :
    (offset a).getLsbD i = (a.getLsbD i && decide (i < t.pageBits)) := by
  by_cases hi : i < t.longBits
  · simp only [offset, pageMask, Target.pageSize, BitVec.not_not, BitVec.getLsbD_and, BitVec.getLsbD_ofNat,
      Nat.testBit_two_pow_sub_one, hi, decide_true, Bool.true_and]
  · simp [BitVec.getLsbD_of_ge _ _ (Nat.le_of_not_lt hi)]

@[simp] theorem page_page (a : Addr t) : page (page a) = page a := by
  apply BitVec.eq_of_getLsbD_eq
  intro i _
  rw [getLsbD_page, getLsbD_page, Bool.and_assoc, Bool.and_self]

theorem page_add_offset {p : Addr t} (hp : page p = p) (a : Addr t) : page (p + offset a) = p := by
  have hbit : ∀ i, p.getLsbD i = (p.getLsbD i && decide (t.pageBits ≤ i)) := by
    intro i
    conv_lhs => rw [← hp, getLsbD_page]
  have hdisjoint : p &&& offset a = 0#_ := by
    apply BitVec.eq_of_getLsbD_eq
    intro i _
    rw [BitVec.getLsbD_and, getLsbD_offset, hbit, BitVec.getLsbD_zero]
    by_cases h : t.pageBits ≤ i
    · simp [Nat.not_lt.2 h]
    · simp [h]
  rw [BitVec.add_eq_or_of_and_eq_zero _ _ hdisjoint]
  apply BitVec.eq_of_getLsbD_eq
  intro i _
  rw [getLsbD_page, BitVec.getLsbD_or, getLsbD_offset, hbit]
  by_cases h : t.pageBits ≤ i
  · simp [h, Nat.not_lt.2 h]
  · simp [h]

theorem toNat_page (a : Addr t) : (page a).toNat = a.toNat / t.pageSize * t.pageSize := by
  have hshift : page a = (a >>> t.pageBits) <<< t.pageBits := by
    apply BitVec.eq_of_getLsbD_eq
    intro i hi
    rw [getLsbD_page, BitVec.getLsbD_shiftLeft, BitVec.getLsbD_ushiftRight]
    by_cases h : t.pageBits ≤ i
    · simp [h, hi, Nat.not_lt.2 h, Nat.add_sub_cancel' h]
    · simp [h, Nat.lt_of_not_le h]
  have hle : a.toNat / t.pageSize * t.pageSize < 2 ^ t.longBits :=
    (Nat.div_mul_le_self _ _).trans_lt a.isLt
  rw [hshift, BitVec.toNat_shiftLeft, BitVec.toNat_ushiftRight, Nat.shiftRight_eq_div_pow, Nat.shiftLeft_eq]
  exact Nat.mod_eq_of_lt hle

theorem pageSize_dvd (t : Target) : t.pageSize ∣ 2 ^ t.longBits := Nat.pow_dvd_pow 2 t.lt_longBits.le

/-- A block of at most one page ends on its first page or on the next one, which for the last
page of the address space is page 0. -/
theorem page_end (a : Addr t) {n : ℕ} (hn : n < t.pageSize) :
    page (a + BitVec.ofNat _ n) = page a ∨ page (a + BitVec.ofNat _ n) = nextPage a := by
  obtain ⟨k, hk⟩ := pageSize_dvd t
  have hS : 0 < t.pageSize := Nat.two_pow_pos _
  have ha := a.isLt
  rw [← BitVec.toNat_inj, ← BitVec.toNat_inj, nextPage, BitVec.toNat_add, toNat_page, toNat_page,
    BitVec.toNat_add, BitVec.toNat_ofNat, BitVec.toNat_ofNat]
  have hn' : n % 2 ^ t.longBits = n :=
    Nat.mod_eq_of_lt (hn.trans (Nat.pow_lt_pow_right (by decide) t.lt_longBits))
  have hS' : t.pageSize % 2 ^ t.longBits = t.pageSize :=
    Nat.mod_eq_of_lt (Nat.pow_lt_pow_right (by decide) t.lt_longBits)
  rw [hn', hS']
  rw [hk] at ha ⊢
  generalize t.pageSize = S at *
  generalize a.toNat = x at *
  have hq : x / S < k := Nat.div_lt_of_lt_mul ha
  have hx := Nat.div_add_mod x S
  have hr := Nat.mod_lt x hS
  by_cases hsame : x % S + n < S
  · left
    have hlt : x + n < S * k := calc
      x + n < S * (x / S) + S := by omega
      _ = S * (x / S + 1) := (Nat.mul_succ _ _).symm
      _ ≤ S * k := Nat.mul_le_mul_left S hq
    rw [Nat.mod_eq_of_lt hlt, show x + n = S * (x / S) + (x % S + n) by omega, Nat.mul_add_div hS,
      Nat.div_eq_of_lt hsame, Nat.add_zero]
  · right
    have hrest : x % S + n - S < S := by omega
    have hdiv : (x + n) / S = x / S + 1 := by
      have hsum : x + n = S * (x / S + 1) + (x % S + n - S) := by
        rw [Nat.mul_succ]
        omega
      rw [hsum, Nat.mul_add_div hS, Nat.div_eq_of_lt hrest, Nat.add_zero]
    rw [Nat.mod_mul_right_div_self, hdiv, show x / S * S + S = S * (x / S + 1) by rw [Nat.mul_succ, Nat.mul_comm],
      Nat.mul_mod_mul_left, Nat.mul_comm]

@[simp] theorem page_nextPage (a : Addr t) : page (nextPage a) = nextPage a := by
  obtain ⟨k, hk⟩ := pageSize_dvd t
  have hS : 0 < t.pageSize := Nat.two_pow_pos _
  rw [← BitVec.toNat_inj, toNat_page, nextPage, BitVec.toNat_add, BitVec.toNat_ofNat, Nat.add_mod_mod, toNat_page, hk,
    ← Nat.succ_mul, Nat.mul_comm (a.toNat / t.pageSize).succ, Nat.mul_mod_mul_left, Nat.mul_div_cancel_left _ hS,
    Nat.mul_comm]

@[simp] theorem offset_page (a : Addr t) : offset (page a) = 0#_ := by
  apply BitVec.eq_of_getLsbD_eq
  intro i _
  rw [getLsbD_offset, getLsbD_page, BitVec.getLsbD_zero]
  by_cases h : t.pageBits ≤ i
  · simp [Nat.not_lt.2 h]
  · simp [h]

@[simp] theorem offset_nextPage (a : Addr t) : offset (nextPage a) = 0#_ := by
  rw [← page_nextPage, offset_page]

theorem page_ne_noPage {p : Addr t} (hp : page p = p) : p ≠ noPage := by
  rintro rfl
  have h6 := t.six_le
  have hw := t.lt_longBits
  have hzero : (page (noPage (t := t))).getLsbD 0 = false := by
    rw [getLsbD_page, decide_eq_false (by omega), Bool.and_false]
  rw [hp, noPage, BitVec.getLsbD_allOnes, decide_eq_true (by omega)] at hzero
  exact absurd hzero (by decide)

end Pages

/-! ### The jump cache -/

section JmpCache

theorem testBit_tbJmpPageMask {i : ℕ} (h : tbJmpPageMask.testBit i = true) : 6 ≤ i := by
  by_contra hi
  have : i = 0 ∨ i = 1 ∨ i = 2 ∨ i = 3 ∨ i = 4 ∨ i = 5 := by omega
  rcases this with rfl | rfl | rfl | rfl | rfl | rfl <;> exact absurd h (by decide)

theorem tbJmpCacheHashPage_page (a : Addr t) : tbJmpCacheHashPage (page a) = tbJmpCacheHashPage a := by
  have h6 := t.six_le
  apply congrArg BitVec.toNat
  apply BitVec.eq_of_getLsbD_eq
  intro i hi
  rw [BitVec.getLsbD_and, BitVec.getLsbD_and, BitVec.getLsbD_ofNat]
  by_cases hmask : tbJmpPageMask.testBit i = true
  · have hi6 := testBit_tbJmpPageMask hmask
    have h1 : t.pageBits ≤ t.pageBits - 6 + i := by omega
    have h2 : t.pageBits ≤ t.pageBits - 6 + (t.pageBits - 6 + i) := by omega
    simp only [tbJmpCacheTmp, BitVec.getLsbD_ushiftRight, BitVec.getLsbD_xor, getLsbD_page, h1, h2,
      decide_true, Bool.and_true]
  · simp [hmask]

theorem tbJmpCacheHashFunc_eq (a : Addr t) :
    ∃ low < tbJmpPageSize, tbJmpCacheHashFunc a = tbJmpCacheHashPage a + low := by
  have hdvd : 2 ^ 6 ∣ 2 ^ t.longBits := Nat.pow_dvd_pow 2 (t.six_le.trans t.lt_longBits.le)
  have hmul : tbJmpCacheHashPage a % 2 ^ 6 = 0 := by
    rw [tbJmpCacheHashPage, BitVec.toNat_and, BitVec.toNat_ofNat, Nat.and_mod_two_pow,
      Nat.mod_mod_of_dvd _ hdvd, show tbJmpPageMask % 2 ^ 6 = 0 by decide, Nat.and_zero]
  have hlow : (tbJmpCacheTmp a &&& BitVec.ofNat _ tbJmpAddrMask).toNat < 2 ^ 6 := by
    rw [BitVec.toNat_and, BitVec.toNat_ofNat]
    exact Nat.and_lt_two_pow _ ((Nat.mod_le _ _).trans_lt (by decide))
  refine ⟨_, hlow, ?_⟩
  have hquot := Nat.div_add_mod (tbJmpCacheHashPage a) (2 ^ 6)
  rw [hmul, Nat.add_zero] at hquot
  rw [tbJmpCacheHashFunc, BitVec.toNat_or, ← hquot, Nat.two_pow_add_eq_or_of_lt hlow, hquot]
  rfl

theorem tbJmpCacheHashPage_lt (a : Addr t) : tbJmpCacheHashPage a + tbJmpPageSize ≤ 2 ^ tbJmpCacheBits := by
  have hle : tbJmpCacheHashPage a ≤ tbJmpPageMask := by
    rw [tbJmpCacheHashPage, BitVec.toNat_and, BitVec.toNat_ofNat]
    exact Nat.and_le_right.trans (Nat.mod_le _ _)
  exact (Nat.add_le_add_right hle _).trans (by decide)

end JmpCache

end Ar7Qemu.Exec
