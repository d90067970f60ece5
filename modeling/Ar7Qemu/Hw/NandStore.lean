import Ar7Qemu.Hw.Nand
import Mathlib.Data.Nat.Bitwise

/-! The three layouts hold the same content. A program changes the bytes of one page, an erase those of one
block, and a load finds the bytes of one page; with the spare areas apart the program has to start before
the spare area, and the erase leaves the pages themselves as they are. -/

namespace Ar7Qemu.Nand

open Lib

variable {c : Config} {addr offset n : ℕ} {io : Bytes} {content : Content} {store : Store}

/-! ### Addresses -/

namespace PageSize

variable {g : PageSize}

theorem page_eq : g.page addr = addr / 2 ^ g.addrShift := Nat.shiftRight_eq_div_pow _ _

theorem column_eq : g.column addr = addr % 2 ^ g.addrShift := Nat.and_two_pow_sub_one_eq_mod _ _

theorem sector_start (h : g.column addr ≤ g.pageSize + g.oobSize) :
    g.sector addr * 0x200 + g.sectorOffset addr = g.page addr * g.pageSize ∧
      g.sectorOffset addr + g.pageSize ≤ g.pageSectors * 0x200 := by
  have hpage : g.page addr = _ := page_eq
  rw [column_eq] at h
  cases g with
  | p256 =>
    have hoff : p256.sectorOffset addr = addr / 2 ^ 8 % 2 * 2 ^ 8 := by
      show addr &&& 2 ^ 8 = _
      rw [Nat.and_two_pow, Nat.toNat_testBit]
    have hsector : p256.sector addr = addr / 2 ^ 9 := Nat.shiftRight_eq_div_pow _ _
    rw [hpage, hoff, hsector]
    simp only [addrShift, pageSize, pageShift, pageSectors]
    omega
  | p512 =>
    have hoff : p512.sectorOffset addr = 0 := Nat.and_zero addr
    have hsector : p512.sector addr = addr / 2 ^ 8 := Nat.shiftRight_eq_div_pow _ _
    rw [hpage, hoff, hsector]
    simp only [addrShift, pageSize, pageShift, pageSectors]
    omega
  | p2048 =>
    have hoff : p2048.sectorOffset addr = 0 := Nat.and_zero addr
    have hsector : p2048.sector addr = addr / 2 ^ 14 := Nat.shiftRight_eq_div_pow _ _
    rw [hpage, hoff, hsector]
    simp only [addrShift, pageSize, pageShift, pageSectors, oobSize, oobShift] at h ⊢
    omega

theorem sectorOffset_or {off : ℕ} (h : off < g.pageSize) : g.sectorOffset addr ||| off = g.sectorOffset addr + off := by
  cases g with
  | p256 =>
    have hoff : p256.sectorOffset addr = (addr.testBit 8).toNat <<< 8 := by
      show addr &&& 2 ^ 8 = _
      rw [Nat.and_two_pow, Nat.shiftLeft_eq]
    rw [hoff]
    exact (Nat.shiftLeft_add_eq_or_of_lt (show off < 2 ^ 8 from h) _).symm
  | p512 =>
    have hoff : p512.sectorOffset addr = 0 := Nat.and_zero addr
    rw [hoff, Nat.zero_or, Nat.zero_add]
  | p2048 =>
    have hoff : p2048.sectorOffset addr = 0 := Nat.and_zero addr
    rw [hoff, Nat.zero_or, Nat.zero_add]

theorem sectorOffset_or_pageSize : g.sectorOffset addr ||| g.pageSize ≤ (g.pageSectors + 2) * 0x200 := by
  cases g with
  | p256 =>
    have hoff : p256.sectorOffset addr < 2 ^ 9 := Nat.and_lt_two_pow _ (by decide)
    exact (Nat.or_lt_two_pow hoff (by decide)).le.trans (by decide)
  | p512 =>
    have hoff : p512.sectorOffset addr = 0 := Nat.and_zero addr
    rw [hoff, Nat.zero_or]
    decide
  | p2048 =>
    have hoff : p2048.sectorOffset addr = 0 := Nat.and_zero addr
    rw [hoff, Nat.zero_or]
    decide

theorem oob_eq : g.page addr <<< g.oobShift = g.page addr * g.oobSize := Nat.shiftLeft_eq _ _

end PageSize

theorem recordSize_le (c : Config) : c.recordSize ≤ 2112 := by
  unfold Config.recordSize
  cases c.pageSize <;> decide

theorem pageStart_eq (h : c.pageSize.page addr < c.pages) : c.pageSize.pageStart addr = c.pageSize.page addr * c.recordSize := by
  have hsize := c.size_lt
  have hrecord : c.recordSize ≤ 2 * c.pageSize.pageSize := by
    unfold Config.recordSize
    cases c.pageSize <;> decide
  have hlt : c.pageSize.page addr * c.recordSize < 2 ^ 32 :=
    calc c.pageSize.page addr * c.recordSize ≤ c.pages * (2 * c.pageSize.pageSize) := Nat.mul_le_mul h.le hrecord
      _ = 2 * (c.pages * c.pageSize.pageSize) := by ring
      _ < 2 ^ 32 := by omega
  exact Nat.mod_eq_of_lt hlt

/-! ### Writes -/

theorem write_record {b d : Bytes} {size q o : ℕ} (h : o + n ≤ size) {p k : ℕ} (hk : k < size) :
    b.write (q * size + o) n d (p * size + k) = if p = q ∧ o ≤ k ∧ k < o + n then d (k - o) else b (p * size + k) := by
  unfold Bytes.write
  by_cases hp : p = q
  · subst hp
    by_cases hin : o ≤ k ∧ k < o + n
    · rw [if_pos (by omega), if_pos ⟨rfl, hin⟩]
      congr 1
      omega
    · rw [if_neg (by omega), if_neg fun h => hin h.2]
  · rw [if_neg (show ¬ (p = q ∧ _) from fun h => hp h.1), if_neg]
    rintro ⟨hlow, hhigh⟩
    have hpq : p < q + 1 := Nat.lt_of_mul_lt_mul_right (show p * size < (q + 1) * size by rw [Nat.succ_mul]; omega)
    have hqp : q < p + 1 := Nat.lt_of_mul_lt_mul_right (show q * size < (p + 1) * size by rw [Nat.succ_mul]; omega)
    omega

theorem write_records {b : Bytes} {size q m : ℕ} {v : UInt8} {p k : ℕ} (hk : k < size) :
    b.write (q * size) (size * m) (fun _ => v) (p * size + k) = if q ≤ p ∧ p < q + m then v else b (p * size + k) := by
  have hsum : q * size + size * m = (q + m) * size := by ring
  unfold Bytes.write
  rw [hsum]
  by_cases hp : q ≤ p ∧ p < q + m
  · have hlow := Nat.mul_le_mul_right size hp.1
    have hhigh := Nat.mul_le_mul_right size (Nat.succ_le_of_lt hp.2)
    rw [Nat.succ_mul] at hhigh
    rw [if_pos hp, if_pos (by omega)]
  · rw [if_neg hp, if_neg]
    rintro ⟨hlow, hhigh⟩
    have hqp : q < p + 1 := Nat.lt_of_mul_lt_mul_right (show q * size < (p + 1) * size by rw [Nat.succ_mul]; omega)
    have hpm : p < q + m := Nat.lt_of_mul_lt_mul_right (show p * size < (q + m) * size by omega)
    exact hp ⟨by omega, hpm⟩

theorem write_sectors {b d : Bytes} {sector m o : ℕ} (h : o + n ≤ m * 0x200) :
    bdrvWrite b sector ((bdrvRead b sector).write o n d) m = b.write (sector * 0x200 + o) n d := by
  funext k
  unfold bdrvWrite bdrvRead Bytes.write Bytes.drop
  by_cases hin : sector * 0x200 + o ≤ k ∧ k < sector * 0x200 + o + n
  · have hsector : sector * 0x200 ≤ k ∧ k < sector * 0x200 + m * 0x200 := ⟨by omega, by omega⟩
    have hpart : o ≤ k - sector * 0x200 ∧ k - sector * 0x200 < o + n := ⟨by omega, by omega⟩
    rw [if_pos hsector, if_pos hpart, if_pos hin, Nat.sub_sub]
  · rw [if_neg hin]
    by_cases hsector : sector * 0x200 ≤ k ∧ k < sector * 0x200 + m * 0x200
    · rw [if_pos hsector, if_neg fun hpart => hin ⟨by omega, by omega⟩, Nat.add_sub_cancel' hsector.1]
    · rw [if_neg hsector]

theorem fill_append {b : Bytes} {o m : ℕ} {v : UInt8} :
    (b.write o n fun _ => v).write (o + n) m (fun _ => v) = b.write o (n + m) fun _ => v := by
  funext k
  unfold Bytes.write
  by_cases hin : o ≤ k ∧ k < o + (n + m)
  · rw [if_pos hin]
    by_cases hlast : o + n ≤ k
    · rw [if_pos ⟨hlast, by omega⟩]
    · rw [if_neg fun h => hlast h.1, if_pos (by omega)]
  · rw [if_neg hin, if_neg (by omega), if_neg (by omega)]

theorem eraseSectors_eq {b : Bytes} {sector : ℕ} (n : ℕ) :
    eraseSectors b sector n = b.write (sector * 0x200) (n * 0x200) fun _ => 0xff := by
  induction n generalizing b sector with
  | zero => rw [eraseSectors, Nat.zero_mul, Bytes.write_zero]
  | succ n ih =>
    have hsum : (n + 1) * 0x200 = 1 * 0x200 + n * 0x200 := by ring
    have hnext : (sector + 1) * 0x200 = sector * 0x200 + 1 * 0x200 := by ring
    rw [eraseSectors, ih, bdrvWrite, hnext, fill_append, hsum]

/-! ### Programs -/

variable (io) in
theorem program_ram {storage : Bytes} (h : (Store.ram storage).Holds c content) (hpage : c.pageSize.page addr < c.pages)
    (hinside : c.pageSize.column addr + offset + n ≤ c.recordSize) :
    ∃ storage', (Store.ram storage).program c addr offset n io = some (.ram storage') ∧
      (Store.ram storage').Holds c (content.program (c.pageSize.page addr) (c.pageSize.column addr + offset) n io) := by
  have hrecord := recordSize_le c
  have hend := Nat.mul_le_mul_right c.recordSize (Nat.succ_le_of_lt hpage)
  rw [Nat.succ_mul] at hend
  refine ⟨storage.write (c.pageSize.page addr * c.recordSize + (c.pageSize.column addr + offset)) n (io.drop 0), ?_,
    fun p hp k hk => ?_⟩
  · rw [Store.program, pageStart_eq hpage, memcpy, if_pos ⟨by omega, by unfold ioSize; omega⟩, Nat.add_assoc]
    rfl
  · rw [write_record (by omega) hk, h p hp k hk, Content.program, Bytes.drop, Nat.zero_add]

variable (io) in
theorem program_block {bdrv : Bytes} (h : (Store.block bdrv).Holds c content) (hpage : c.pageSize.page addr < c.pages)
    (hinside : c.pageSize.column addr + offset + n ≤ c.recordSize) :
    ∃ bdrv', (Store.block bdrv).program c addr offset n io = some (.block bdrv') ∧
      (Store.block bdrv').Holds c (content.program (c.pageSize.page addr) (c.pageSize.column addr + offset) n io) := by
  have hrecord := recordSize_le c
  have hbuf : c.recordSize + 0x200 ≤ (c.pageSize.pageSectors + 2) * 0x200 := by
    unfold Config.recordSize
    cases c.pageSize <;> decide
  have hstart := pageStart_eq hpage
  have hmod : (c.pageSize.pageStart addr + c.pageSize.column addr + offset) &&& 0x1ff =
      (c.pageSize.pageStart addr + c.pageSize.column addr + offset) % 512 := Nat.and_two_pow_sub_one_eq_mod _ 9
  refine ⟨bdrv.write (c.pageSize.page addr * c.recordSize + (c.pageSize.column addr + offset)) n (io.drop 0), ?_,
    fun p hp k hk => ?_⟩
  · have hsector : (c.pageSize.pageStart addr + c.pageSize.column addr + offset) >>> 9 * 0x200 +
        (c.pageSize.pageStart addr + c.pageSize.column addr + offset) % 512 =
          c.pageSize.page addr * c.recordSize + (c.pageSize.column addr + offset) := by
      rw [Nat.shiftRight_eq_div_pow, hstart]
      omega
    unfold Store.program memcpy
    dsimp only
    rw [hmod, if_pos ⟨by omega, by unfold ioSize; omega⟩]
    show some (Store.block _) = _
    rw [write_sectors (by omega), hsector]
  · rw [write_record (by omega) hk, h p hp k hk, Content.program, Bytes.drop, Nat.zero_add]

theorem write_page (bdrv d : Bytes) {off m : ℕ} (hcol : c.pageSize.column addr ≤ c.recordSize) (h : off + m ≤ c.pageSize.pageSize)
    (hm : off = c.pageSize.pageSize → m = 0) :
    bdrvWrite bdrv (c.pageSize.sector addr) ((bdrvRead bdrv (c.pageSize.sector addr)).write (c.pageSize.sectorOffset addr ||| off) m d)
      c.pageSize.pageSectors = bdrv.write (c.pageSize.page addr * c.pageSize.pageSize + off) m d := by
  obtain ⟨hstart, hfit⟩ := PageSize.sector_start hcol
  by_cases hoff : off = c.pageSize.pageSize
  · have hkeep : bdrvWrite bdrv (c.pageSize.sector addr) _ c.pageSize.pageSectors = _ :=
      write_sectors (b := bdrv) (d := d) (n := 0) (o := 0) (Nat.zero_le _)
    rw [Bytes.write_zero, Bytes.write_zero] at hkeep
    rw [hm hoff, Bytes.write_zero, Bytes.write_zero, hkeep]
  · rw [PageSize.sectorOffset_or (by omega), write_sectors (by omega), ← Nat.add_assoc, hstart]

variable (io) in
theorem program_split {bdrv storage : Bytes} (h : (Store.split bdrv storage).Holds c content)
    (hpage : c.pageSize.page addr < c.pages) (hinside : c.pageSize.column addr + offset + n ≤ c.recordSize)
    (hoff : c.pageSize.column addr + offset ≤ c.pageSize.pageSize) :
    ∃ bdrv' storage', (Store.split bdrv storage).program c addr offset n io = some (.split bdrv' storage') ∧
      (Store.split bdrv' storage').Holds c
        (content.program (c.pageSize.page addr) (c.pageSize.column addr + offset) n io) := by
  have hrecord : c.recordSize = c.pageSize.pageSize + c.pageSize.oobSize := rfl
  have hsmall := recordSize_le c
  obtain ⟨-, hfit⟩ := PageSize.sector_start (show c.pageSize.column addr ≤ c.pageSize.pageSize + c.pageSize.oobSize by omega)
  generalize hcol : c.pageSize.column addr + offset = off at hinside hoff
  have hleft : (c.pageSize.pageSize + 2 ^ 32 - off) % 2 ^ 32 = c.pageSize.pageSize - off := by omega
  have hor : c.pageSize.sectorOffset addr ||| off ≤ (c.pageSize.pageSectors + 2) * 0x200 - (c.pageSize.pageSize - off) := by
    rcases Nat.lt_or_eq_of_le hoff with hlt | rfl
    · rw [PageSize.sectorOffset_or hlt]
      omega
    · have hle : c.pageSize.sectorOffset addr ||| c.pageSize.pageSize ≤ _ := PageSize.sectorOffset_or_pageSize
      omega
  have hoob : c.pageSize.page addr <<< c.pageSize.oobShift = _ := PageSize.oob_eq
  have hend := Nat.mul_le_mul_right c.pageSize.oobSize (Nat.succ_le_of_lt hpage)
  rw [Nat.succ_mul] at hend
  have hpages := write_page bdrv (io.drop 0) (show c.pageSize.column addr ≤ c.recordSize by omega)
    (show off + min n (c.pageSize.pageSize - off) ≤ c.pageSize.pageSize by omega) (by omega)
  have hfirst : ∀ p < c.pages, ∀ k < c.pageSize.pageSize,
      bdrv.write (c.pageSize.page addr * c.pageSize.pageSize + off) (min n (c.pageSize.pageSize - off)) (io.drop 0)
        (p * c.pageSize.pageSize + k) = content.program (c.pageSize.page addr) off n io p k := by
    intro p hp k hk
    rw [write_record (by omega) hk, (h p hp).1 k hk, Content.program, Bytes.drop, Nat.zero_add]
    exact if_congr (and_congr_right fun _ => and_congr_right fun _ => by omega) rfl rfl
  refine ⟨_, if c.pageSize.pageSize < off + n then storage.write (c.pageSize.page addr * c.pageSize.oobSize)
    (min c.pageSize.oobSize (off + n - c.pageSize.pageSize)) (io.drop (c.pageSize.pageSize - off)) else storage, ?_,
    fun p hp => ⟨hfirst p hp, fun k hk => ?_⟩⟩
  · unfold Store.program memcpy
    dsimp only
    rw [hcol, hleft, hoob, if_pos (show _ ∧ _ from ⟨by omega, by unfold ioSize; omega⟩), Option.bind_eq_bind, Option.bind_some]
    by_cases hspare : c.pageSize.pageSize < off + n
    · rw [if_pos hspare, if_pos hspare, if_pos (show _ ∧ _ from ⟨by omega, by unfold ioSize; omega⟩)]
      show some (Store.split _ _) = _
      rw [hpages]
    · rw [if_neg hspare, if_neg hspare]
      show some (Store.split _ _) = _
      rw [hpages]
  · have hkeep := (h p hp).2 k hk
    unfold Content.program
    by_cases hspare : c.pageSize.pageSize < off + n
    · have hwrite := write_record (b := storage) (d := io.drop (c.pageSize.pageSize - off)) (q := c.pageSize.page addr) (o := 0)
        (n := min c.pageSize.oobSize (off + n - c.pageSize.pageSize)) (p := p) (by omega) hk
      rw [Nat.add_zero] at hwrite
      rw [if_pos hspare, hwrite, hkeep, Bytes.drop, show c.pageSize.pageSize - off + (k - 0) = c.pageSize.pageSize + k - off by omega]
      exact if_congr (and_congr_right fun _ => by omega) rfl rfl
    · rw [if_neg hspare, hkeep, if_neg (by omega)]

variable (io) in
theorem program_holds (h : store.Holds c content) (hpage : c.pageSize.page addr < c.pages)
    (hinside : c.pageSize.column addr + offset + n ≤ c.recordSize)
    (hsplit : store.isSplit = true → c.pageSize.column addr + offset ≤ c.pageSize.pageSize) :
    ∃ store', store.program c addr offset n io = some store' ∧ store'.isSplit = store.isSplit ∧
      store'.Holds c (content.program (c.pageSize.page addr) (c.pageSize.column addr + offset) n io) := by
  cases store with
  | ram storage =>
    obtain ⟨storage', hrun, hholds⟩ := program_ram io h hpage hinside
    exact ⟨_, hrun, rfl, hholds⟩
  | split bdrv storage =>
    obtain ⟨bdrv', storage', hrun, hholds⟩ := program_split io h hpage hinside (hsplit rfl)
    exact ⟨_, hrun, rfl, hholds⟩
  | block bdrv =>
    obtain ⟨bdrv', hrun, hholds⟩ := program_block io h hpage hinside
    exact ⟨_, hrun, rfl, hholds⟩

/-! ### Erases -/

theorem block_mem_iff {e q p : ℕ} (hq : 2 ^ e ∣ q) : p / 2 ^ e = q / 2 ^ e ↔ q ≤ p ∧ p < q + 2 ^ e := by
  obtain ⟨b, rfl⟩ := hq
  have hpos := Nat.two_pow_pos e
  rw [Nat.mul_div_cancel_left _ hpos, Nat.div_eq_iff hpos, Nat.mul_comm b]
  omega

theorem block_inside {e q pages : ℕ} (hpages : 2 ^ e ∣ pages) (hq : 2 ^ e ∣ q) (h : q < pages) : q + 2 ^ e ≤ pages := by
  obtain ⟨a, rfl⟩ := hpages
  obtain ⟨b, rfl⟩ := hq
  have hlt : b < a := Nat.lt_of_mul_lt_mul_left h
  exact Nat.mul_le_mul_left _ (Nat.succ_le_of_lt hlt)

theorem erase_apply {q p k : ℕ} (hq : 2 ^ c.eraseShift ∣ q) :
    content.erase c q p k = if q ≤ p ∧ p < q + 2 ^ c.eraseShift then 0xff else content p k :=
  if_congr (block_mem_iff hq) rfl rfl

section Erase

variable (hpage : c.pageSize.page addr < c.pages) (hblock : 2 ^ c.eraseShift ∣ c.pageSize.page addr)

include hpage hblock

theorem erase_ram {storage : Bytes} (h : (Store.ram storage).Holds c content) :
    ∃ storage', (Store.ram storage).erase c addr = some (.ram storage') ∧
      (Store.ram storage').Holds c (content.erase c (c.pageSize.page addr)) := by
  have hend := Nat.mul_le_mul_right c.recordSize (block_inside c.pages_dvd hblock hpage)
  rw [Nat.add_mul, Nat.mul_comm (2 ^ _)] at hend
  refine ⟨storage.write (c.pageSize.page addr * c.recordSize) (c.recordSize * 2 ^ c.eraseShift) fun _ => 0xff, ?_,
    fun p hp k hk => ?_⟩
  · rw [Store.erase, pageStart_eq hpage, Nat.shiftLeft_eq, memset, if_pos hend]
    rfl
  · rw [write_records hk, h p hp k hk, erase_apply hblock]

/-- The loop over the sectors of a block sets none of them. -/
theorem erase_split {bdrv storage : Bytes} (h : (Store.split bdrv storage).Holds c content)
    (haddr : 2 ^ (c.pageSize.addrShift + c.eraseShift) ∣ addr)
    (hff : ∀ p < c.pages, ∀ k < c.pageSize.pageSize, p / 2 ^ c.eraseShift = c.pageSize.page addr / 2 ^ c.eraseShift →
      content p k = 0xff) :
    ∃ storage', (Store.split bdrv storage).erase c addr = some (.split bdrv storage') ∧
      (Store.split bdrv storage').Holds c (content.erase c (c.pageSize.page addr)) := by
  have hnone : c.pageSize.sector (addr + (c.pageSize.addrShift + c.eraseShift)) - c.pageSize.sector addr = 0 := by
    have hge := c.erase_ge
    have hle := c.erase_le
    have hsmall : c.pageSize.addrShift + c.eraseShift < 2 ^ (9 + c.pageSize.addrShift - c.pageSize.pageShift) := by
      have hpow : 2 ^ 8 ≤ 2 ^ (9 + c.pageSize.addrShift - c.pageSize.pageShift) :=
        Nat.pow_le_pow_right Nat.two_pos (by cases c.pageSize <;> decide)
      have hshift : c.pageSize.addrShift ≤ 16 := by cases c.pageSize <;> decide
      omega
    have hdvd : 2 ^ (9 + c.pageSize.addrShift - c.pageSize.pageShift) ∣ addr := by
      refine (Nat.pow_dvd_pow 2 ?_).trans haddr
      have hshift : 8 ≤ c.pageSize.pageShift := by cases c.pageSize <;> decide
      omega
    obtain ⟨a, rfl⟩ := hdvd
    unfold PageSize.sector
    rw [Nat.shiftRight_eq_div_pow, Nat.shiftRight_eq_div_pow, Nat.mul_add_div (Nat.two_pow_pos _),
      Nat.mul_div_cancel_left _ (Nat.two_pow_pos _), Nat.div_eq_of_lt hsmall, Nat.add_zero, Nat.sub_self]
  have hend := Nat.mul_le_mul_right c.pageSize.oobSize (block_inside c.pages_dvd hblock hpage)
  rw [Nat.add_mul, Nat.mul_comm (2 ^ _)] at hend
  refine ⟨storage.write (c.pageSize.page addr * c.pageSize.oobSize) (c.pageSize.oobSize * 2 ^ c.eraseShift) fun _ => 0xff, ?_,
    fun p hp => ⟨fun k hk => ?_, fun k hk => ?_⟩⟩
  · unfold Store.erase
    dsimp only
    rw [PageSize.oob_eq, Nat.shiftLeft_eq, memset, if_pos hend, hnone]
    rfl
  · rw [(h p hp).1 k hk, Content.erase]
    split_ifs with hin
    · exact hff p hp k hk hin
    · rfl
  · rw [write_records hk, (h p hp).2 k hk, erase_apply hblock]

/-- The first and the last sector are changed in part. -/
theorem erase_block {bdrv : Bytes} (h : (Store.block bdrv).Holds c content) :
    ∃ bdrv', (Store.block bdrv).erase c addr = some (.block bdrv') ∧
      (Store.block bdrv').Holds c (content.erase c (c.pageSize.page addr)) := by
  have hlen : 1024 ≤ c.recordSize * 2 ^ c.eraseShift := by
    have hpow : 2 ^ 4 ≤ 2 ^ c.eraseShift := Nat.pow_le_pow_right Nat.two_pos c.erase_ge
    have hrecord : 64 ≤ c.recordSize := by
      unfold Config.recordSize
      cases c.pageSize <;> decide
    exact Nat.mul_le_mul hrecord hpow
  have hmod : ∀ x : ℕ, x &&& 0x1ff = x % 512 := fun x => Nat.and_two_pow_sub_one_eq_mod x 9
  refine ⟨bdrv.write (c.pageSize.page addr * c.recordSize) (c.recordSize * 2 ^ c.eraseShift) fun _ => 0xff, ?_,
    fun p hp k hk => ?_⟩
  · unfold Store.erase
    dsimp only
    rw [pageStart_eq hpage, Nat.shiftLeft_eq c.recordSize]
    generalize c.pageSize.page addr * c.recordSize = start
    generalize c.recordSize * 2 ^ c.eraseShift = len at hlen
    simp only [hmod, Nat.shiftRight_eq_div_pow, Nat.shiftLeft_eq, memset]
    rw [if_pos (by omega), Option.bind_eq_bind, Option.bind_some, if_pos (by omega)]
    show some (Store.block _) = _
    rw [write_sectors (by omega), eraseSectors_eq, write_sectors (by omega)]
    generalize hturns : (start + len - 512 - (start / 2 ^ 9 * 2 ^ 9 + 512) + 511) / 512 = turns
    have hfirst : start / 2 ^ 9 * 0x200 + start % 512 = start := by omega
    have hsectors : (start / 2 ^ 9 * 2 ^ 9 + 512) / 2 ^ 9 * 0x200 = start + (511 - start % 512 + 1) :=
      Nat.le_antisymm (by omega) (by omega)
    have hlast : (start / 2 ^ 9 * 2 ^ 9 + 512 + turns * 512) / 2 ^ 9 * 0x200 + 0 =
        start + (511 - start % 512 + 1 + turns * 0x200) := Nat.le_antisymm (by omega) (by omega)
    have hsum : 511 - start % 512 + 1 + turns * 0x200 + ((start + len - 512 - 1) % 512 + 1) = len :=
      Nat.le_antisymm (by omega) (by omega)
    rw [hfirst, hsectors, fill_append, hlast, fill_append, hsum]
  · rw [write_records hk, h p hp k hk, erase_apply hblock]

end Erase

theorem erase_holds (h : store.Holds c content) (hpage : c.pageSize.page addr < c.pages)
    (haddr : 2 ^ (c.pageSize.addrShift + c.eraseShift) ∣ addr)
    (hsplit : store.isSplit = true → ∀ p < c.pages, ∀ k < c.pageSize.pageSize,
      p / 2 ^ c.eraseShift = c.pageSize.page addr / 2 ^ c.eraseShift → content p k = 0xff) :
    ∃ store', store.erase c addr = some store' ∧ store'.isSplit = store.isSplit ∧
      store'.Holds c (content.erase c (c.pageSize.page addr)) := by
  have hblock : 2 ^ c.eraseShift ∣ c.pageSize.page addr := by
    obtain ⟨a, rfl⟩ := haddr
    rw [PageSize.page_eq, Nat.pow_add, Nat.mul_assoc, Nat.mul_div_cancel_left _ (Nat.two_pow_pos _)]
    exact Nat.dvd_mul_right _ _
  cases store with
  | ram storage =>
    obtain ⟨storage', hrun, hholds⟩ := erase_ram hpage hblock h
    exact ⟨_, hrun, rfl, hholds⟩
  | split bdrv storage =>
    obtain ⟨storage', hrun, hholds⟩ := erase_split hpage hblock h haddr (hsplit rfl)
    exact ⟨_, hrun, rfl, hholds⟩
  | block bdrv =>
    obtain ⟨bdrv', hrun, hholds⟩ := erase_block hpage hblock h
    exact ⟨_, hrun, rfl, hholds⟩

/-! ### Loads -/

variable (io) in
/-- A load finds the bytes of the page from an offset on, inside `io`. -/
theorem load_holds (h : store.Holds c content) (hpage : c.pageSize.page addr < c.pages)
    (hcol : c.pageSize.column addr ≤ c.recordSize) (hoff : offset ≤ c.recordSize) :
    ∃ io' ioaddr, store.load c addr offset io = some (io', ioaddr) ∧ ioaddr + (c.recordSize - offset) ≤ ioSize ∧
      ∀ k, offset + k < c.recordSize → io' (ioaddr + k) = content (c.pageSize.page addr) (offset + k) := by
  have hsmall := recordSize_le c
  have hrecord : c.recordSize = c.pageSize.pageSize + c.pageSize.oobSize := rfl
  have hbuf : c.recordSize + 0x200 ≤ (c.pageSize.pageSectors + 2) * 0x200 ∧ c.pageSize.pageSectors * 0x200 + 64 ≤ ioSize ∧
      c.pageSize.oobSize ≤ 64 := by
    unfold Config.recordSize
    cases c.pageSize <;> decide
  cases store with
  | ram storage =>
    have hend := Nat.mul_le_mul_right c.recordSize (Nat.succ_le_of_lt hpage)
    rw [Nat.succ_mul] at hend
    refine ⟨io.write 0 (c.recordSize - offset) (storage.drop (c.pageSize.page addr * c.recordSize + offset)), 0, ?_,
      by unfold ioSize; omega, fun k hk => ?_⟩
    · rw [Store.load, if_neg (Nat.not_lt_of_le hoff), memcpy, pageStart_eq hpage,
        if_pos (show _ ∧ _ from ⟨by unfold ioSize; omega, by omega⟩)]
      rfl
    · rw [Bytes.write_apply_of_mem (by omega), Bytes.drop, Nat.add_assoc]
      exact h _ hpage _ hk
  | block bdrv =>
    have hmod : c.pageSize.pageStart addr &&& 0x1ff = c.pageSize.pageStart addr % 512 := Nat.and_two_pow_sub_one_eq_mod _ 9
    refine ⟨_, _, rfl, by unfold ioSize; omega, fun k hk => ?_⟩
    have hbyte := h _ hpage _ hk
    rw [← pageStart_eq hpage] at hbyte
    rw [← hbyte, hmod]
    have hwrite : io.write 0 _ _ (0 + _) = _ := Bytes.write_apply_of_mem (d := bdrvRead bdrv (c.pageSize.pageStart addr >>> 9))
      (show c.pageSize.pageStart addr % 512 + offset + k < (c.pageSize.pageSectors + 2) * 0x200 by omega)
    rw [Nat.zero_add] at hwrite
    rw [hwrite, bdrvRead, Bytes.drop, Nat.shiftRight_eq_div_pow]
    congr 1
    have hdiv := Nat.div_add_mod (c.pageSize.pageStart addr) 512
    omega
  | split bdrv storage =>
    obtain ⟨hstart, hfit⟩ := PageSize.sector_start hcol
    have hend := Nat.mul_le_mul_right c.pageSize.oobSize (Nat.succ_le_of_lt hpage)
    rw [Nat.succ_mul] at hend
    refine ⟨(io.write 0 (c.pageSize.pageSectors * 0x200) (bdrvRead bdrv (c.pageSize.sector addr))).write
        (c.pageSize.sectorOffset addr + c.pageSize.pageSize) c.pageSize.oobSize
        (storage.drop (c.pageSize.page addr * c.pageSize.oobSize)), c.pageSize.sectorOffset addr + offset, ?_, by omega,
      fun k hk => ?_⟩
    · rw [Store.load, PageSize.oob_eq, memcpy, if_pos (show _ ∧ _ from ⟨by omega, by omega⟩)]
      rfl
    · by_cases hspare : c.pageSize.pageSize ≤ offset + k
      · have hin : c.pageSize.sectorOffset addr + offset + k =
            c.pageSize.sectorOffset addr + c.pageSize.pageSize + (offset + k - c.pageSize.pageSize) := by omega
        have hbyte := (h _ hpage).2 (offset + k - c.pageSize.pageSize) (by omega)
        rw [Nat.add_sub_cancel' hspare] at hbyte
        rw [hin, Bytes.write_apply_of_mem (by omega), Bytes.drop]
        exact hbyte
      · have hbyte := (h _ hpage).1 (offset + k) (by omega)
        have hwrite : io.write 0 _ _ (0 + _) = _ := Bytes.write_apply_of_mem (d := bdrvRead bdrv (c.pageSize.sector addr))
          (show c.pageSize.sectorOffset addr + offset + k < c.pageSize.pageSectors * 0x200 by omega)
        rw [Nat.zero_add] at hwrite
        rw [Bytes.write_apply_of_lt (by omega), hwrite, ← hbyte, bdrvRead, Bytes.drop, ← hstart, Nat.add_assoc,
          Nat.add_assoc]

end Ar7Qemu.Nand
