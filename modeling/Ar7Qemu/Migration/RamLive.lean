import Ar7Qemu.Migration.Ram

/-! Exactness of live RAM migration. At every moment the pages that are not marked dirty
are equal on both sides once the destination has loaded what was sent. The last stage
marks no page dirty, so then all pages are equal. -/

namespace Ar7Qemu.Migration

open Lib

section Pages

variable {s : Source} {p q : ℕ}

/-- Page `p` is not marked for migration. -/
def Clean (s : Source) (p : ℕ) : Prop := s.dirty p &&& migrationDirtyFlag = 0

theorem getDirty_eq_false (s : Source) (p : ℕ) :
    s.getDirty (targetPageSize * p) migrationDirtyFlag = false ↔ Clean s p := by
  rw [Source.getDirty, Nat.mul_div_cancel_left p (by decide), Clean]
  simp only [ne_eq, decide_not, Bool.not_eq_false', decide_eq_true_eq]

theorem getDirty_eq_true (s : Source) (p : ℕ) :
    s.getDirty (targetPageSize * p) migrationDirtyFlag = true ↔ ¬ Clean s p := by
  rw [← getDirty_eq_false, Bool.not_eq_false]

theorem clean_setDirty (s : Source) (addr p : ℕ) :
    Clean (s.setDirty addr) p ↔ p ≠ addr / targetPageSize ∧ Clean s p := by
  by_cases h : p = addr / targetPageSize
  · subst h
    simp only [Clean, Source.setDirty, Function.update_self, ne_eq, not_true_eq_false, false_and, iff_false]
    decide
  · simp only [Clean, Source.setDirty, Function.update_of_ne h, ne_eq, h, not_false_eq_true, true_and]

theorem clean_resetDirty (s : Source) (p q : ℕ) :
    Clean (s.resetDirty (targetPageSize * p) (targetPageSize * p + targetPageSize) migrationDirtyFlag) q ↔
      q = p ∨ Clean s q := by
  have hrange : (targetPageSize * p / targetPageSize ≤ q ∧
      q < (targetPageSize * p + targetPageSize + targetPageSize - 1) / targetPageSize) ↔ q = p := by
    simp only [targetPageSize]
    omega
  by_cases h : q = p
  · refine iff_of_true ?_ (.inl h)
    simp only [Clean, Source.resetDirty, if_pos (hrange.2 h)]
    rw [BitVec.and_assoc, show ~~~migrationDirtyFlag &&& migrationDirtyFlag = 0 by decide]
    exact BitVec.and_zero
  · simp only [Clean, Source.resetDirty, if_neg (mt hrange.1 h), h, false_or]

theorem clean_stores : ∀ (ws : List (ℕ × UInt8)) (s : Source), Clean (s.stores ws) p →
    Clean s p ∧ ∀ k < targetPageSize,
      (s.stores ws).ram (targetPageSize * p + k) = s.ram (targetPageSize * p + k)
  | [], _, h => ⟨h, fun _ _ => rfl⟩
  | w :: ws, s, h => by
    obtain ⟨hclean, hram⟩ := clean_stores ws (s.store w) h
    obtain ⟨hne, hs⟩ := (clean_setDirty _ _ _).1 hclean
    refine ⟨hs, fun k hk => (hram k hk).trans ?_⟩
    show Function.update s.ram w.1 w.2 (targetPageSize * p + k) = _
    apply Function.update_of_ne
    intro heq
    apply hne
    rw [← heq, Nat.mul_add_div (by decide), Nat.div_eq_of_lt hk, Nat.add_zero]

theorem currentAddr_stores : ∀ (ws : List (ℕ × UInt8)) (s : Source),
    (s.stores ws).currentAddr = s.currentAddr
  | [], _ => rfl
  | w :: ws, s => currentAddr_stores ws (s.store w)

end Pages

/-! ### Uniform pages -/

theorem word_bytes_inj {a b c d v : ℕ} (ha : a < 2 ^ 8) (hb : b < 2 ^ 8) (hc : c < 2 ^ 8) (hd : d < 2 ^ 8)
    (hv : v < 2 ^ 8) :
    a + b <<< 8 + c <<< 16 + d <<< 24 = v <<< 24 + v <<< 16 + v <<< 8 + v ↔
      a = v ∧ b = v ∧ c = v ∧ d = v := by
  simp only [Nat.shiftLeft_eq]
  constructor
  · intro h
    obtain rfl : a = v := by omega
    obtain rfl : b = a := by omega
    obtain rfl : c = b := by omega
    exact ⟨rfl, rfl, rfl, by omega⟩
  · rintro ⟨rfl, rfl, rfl, rfl⟩
    omega

theorem hostWord_eq_iff (page : Bytes) (i : ℕ) (ch : UInt8) :
    hostWord page i = ch.toNat <<< 24 + ch.toNat <<< 16 + ch.toNat <<< 8 + ch.toNat ↔
      page (4 * i) = ch ∧ page (4 * i + 1) = ch ∧ page (4 * i + 2) = ch ∧ page (4 * i + 3) = ch := by
  unfold hostWord
  refine (word_bytes_inj (page (4 * i)).toNat_lt (page (4 * i + 1)).toNat_lt
    (page (4 * i + 2)).toNat_lt (page (4 * i + 3)).toNat_lt ch.toNat_lt).trans ?_
  simp only [UInt8.toNat_inj]

theorem isDupPage_iff (page : Bytes) (ch : UInt8) :
    isDupPage page ch = true ↔ ∀ k < targetPageSize, page k = ch := by
  simp only [isDupPage, List.all_eq_true, List.mem_range, beq_iff_eq, hostWord_eq_iff]
  constructor
  · intro h k hk
    obtain ⟨h0, h1, h2, h3⟩ := h (k / 4) (by simp only [targetPageSize] at hk ⊢; omega)
    obtain hm | hm | hm | hm : k % 4 = 0 ∨ k % 4 = 1 ∨ k % 4 = 2 ∨ k % 4 = 3 := by omega
    · rwa [show 4 * (k / 4) = k by omega] at h0
    · rwa [show 4 * (k / 4) + 1 = k by omega] at h1
    · rwa [show 4 * (k / 4) + 2 = k by omega] at h2
    · rwa [show 4 * (k / 4) + 3 = k by omega] at h3
  · intro h i hi
    simp only [targetPageSize] at hi h
    exact ⟨h _ (by omega), h _ (by omega), h _ (by omega), h _ (by omega)⟩

/-! ### The cursor -/

section Cursor

variable {pages : ℕ} {s : Source}

def CursorOk (pages : ℕ) (s : Source) : Prop :=
  ∃ c, s.currentAddr = targetPageSize * c ∧ (c < pages ∨ pages = 0)

/-- The search goes round once: it finds a dirty page, or there is none from here on and
the cursor is back. -/
theorem findDirty_spec {c : ℕ} (hc : c < pages) (s : Source) : ∀ n k, n + k = pages →
    let r := findDirty (targetPageSize * pages) (targetPageSize * c) s (n + 1) (targetPageSize * k)
      (targetPageSize * ((c + k) % pages))
    (r.1 = true ∧ ∃ p < pages, r.2 = targetPageSize * p ∧ ¬ Clean s p) ∨
      (r.1 = false ∧ r.2 = targetPageSize * c ∧ ∀ j, k ≤ j → j < pages → Clean s ((c + j) % pages))
  | 0, k, h => by
    obtain rfl : k = pages := by omega
    rw [findDirty, if_neg (lt_irrefl _), Nat.add_mod_right, Nat.mod_eq_of_lt hc]
    exact .inr ⟨rfl, rfl, fun j hk hj => by omega⟩
  | n + 1, k, h => by
    have hk : targetPageSize * k < targetPageSize * pages := Nat.mul_lt_mul_of_pos_left (by omega) (by decide)
    have hp : (c + k) % pages < pages := Nat.mod_lt _ (by omega)
    rw [findDirty, if_pos hk]
    by_cases hd : s.getDirty (targetPageSize * ((c + k) % pages)) migrationDirtyFlag = true
    · rw [if_pos hd]
      exact .inl ⟨rfl, _, hp, rfl, (getDirty_eq_true s _).1 hd⟩
    · have hclean : Clean s ((c + k) % pages) := by
        rw [← getDirty_eq_false]
        simpa using hd
      have hnext : (targetPageSize * c + (targetPageSize * k + targetPageSize)) %
          (targetPageSize * pages) = targetPageSize * ((c + (k + 1)) % pages) := by
        rw [show targetPageSize * c + (targetPageSize * k + targetPageSize) =
          targetPageSize * (c + (k + 1)) by ring, Nat.mul_mod_mul_left]
      rw [if_neg hd, hnext, show targetPageSize * k + targetPageSize = targetPageSize * (k + 1) by ring]
      rcases findDirty_spec hc s n (k + 1) (by omega) with hfound | ⟨hnot, hcur, hrest⟩
      · exact .inl hfound
      · refine .inr ⟨hnot, hcur, fun j hkj hj => ?_⟩
        rcases Nat.eq_or_lt_of_le hkj with rfl | hlt
        · exact hclean
        · exact hrest j hlt hj

theorem exists_add_mod {c p n : ℕ} (hc : c < n) (hp : p < n) : ∃ j < n, (c + j) % n = p := by
  by_cases h : c ≤ p
  · exact ⟨p - c, by omega, by rw [Nat.add_sub_cancel' h, Nat.mod_eq_of_lt hp]⟩
  · refine ⟨p + n - c, by omega, ?_⟩
    rw [show c + (p + n - c) = p + n by omega, Nat.add_mod_right, Nat.mod_eq_of_lt hp]

/-- `ram_save_block` sends a dirty page, or there is none. -/
theorem ramSaveBlock_spec (hs : CursorOk pages s) (t : Turn) :
    (∃ p < pages, ¬ Clean s p ∧ ramSaveBlock (targetPageSize * pages) t s =
        (true, sendPage t { s with currentAddr := targetPageSize * p })) ∨
      (ramSaveBlock (targetPageSize * pages) t s = (false, [], s) ∧ ∀ p < pages, Clean s p) := by
  obtain ⟨c, hcur, hc⟩ := hs
  have hdiv : targetPageSize * pages / targetPageSize = pages := Nat.mul_div_cancel_left _ (by decide)
  rw [ramSaveBlock, hdiv, hcur]
  rcases hc with hc | rfl
  · have hspec := findDirty_spec hc s pages 0 rfl
    simp only [Nat.add_zero, Nat.mod_eq_of_lt hc, Nat.mul_zero] at hspec
    rcases hspec with ⟨hfound, p, hp, hcur', hdirty⟩ | ⟨hnot, hcur', hclean⟩
    · refine .inl ⟨p, hp, hdirty, ?_⟩
      simp only [hfound, hcur', if_pos]
    · refine .inr ⟨?_, fun p hp => ?_⟩
      · simp only [hnot, hcur', Bool.false_eq_true, if_false]
        rw [← hcur]
      · obtain ⟨j, hj, rfl⟩ := exists_add_mod hc hp
        exact hclean j (Nat.zero_le _) hj
  · refine .inr ⟨?_, fun p hp => absurd hp (Nat.not_lt_zero p)⟩
    simp [findDirty, ← hcur]

end Cursor

/-! ### Records -/

section Records

variable {pages p : ℕ} {dead : Loader} {n : ℕ} {ram : Bytes} {f : Stream}

theorem page_or_flag (p : ℕ) {flags : ℕ} (h : flags < targetPageSize) :
    targetPageSize * p ||| flags = targetPageSize * p + flags :=
  (Nat.two_pow_add_eq_or_of_lt (i := 12) h p).symm

theorem getBe64_record (hpages : pages < 2 ^ 52) (hp : p ≤ pages) {flags : ℕ} (h : flags < targetPageSize)
    (f : Stream) :
    getBe64 (putBe64 (targetPageSize * p ||| flags) ++ f) = (targetPageSize * p + flags, f) := by
  rw [page_or_flag p h, getBe64_putBe64, Nat.mod_eq_of_lt]
  simp only [targetPageSize] at h ⊢
  omega

theorem record_flags (p : ℕ) {flags : ℕ} (h : flags < targetPageSize) :
    (targetPageSize * p + flags) % targetPageSize = flags := by
  rw [Nat.mul_add_mod, Nat.mod_eq_of_lt h]

theorem ramLoadLoop_compress (hpages : pages < 2 ^ 52) (hp : p ≤ pages) (ch : UInt8) :
    ramLoadLoop (targetPageSize * pages) dead (n + 1) ram
      (putBe64 (targetPageSize * p ||| ramSaveFlagCompress) ++ putByte ch.toNat ++ f) =
    ramLoadLoop (targetPageSize * pages) dead n
      (ram.write (targetPageSize * p) targetPageSize fun _ => ch) f := by
  have hflag : ramSaveFlagCompress < targetPageSize := by decide
  rw [ramLoadLoop, List.append_assoc, getBe64_record hpages hp hflag]
  simp only [record_flags p hflag, Nat.add_sub_cancel]
  simp [ramSaveFlagCompress, ramSaveFlagMemSize, ramSaveFlagFull, ramSaveFlagEos, loadPage,
    getByte_putByte]

theorem ramLoadLoop_page (hpages : pages < 2 ^ 52) (hp : p ≤ pages) (page : Bytes) :
    ramLoadLoop (targetPageSize * pages) dead (n + 1) ram
      (putBe64 (targetPageSize * p ||| ramSaveFlagPage) ++ (List.range targetPageSize).map page ++ f) =
    ramLoadLoop (targetPageSize * pages) dead n
      (ram.write (targetPageSize * p) targetPageSize
        fun i => ((List.range targetPageSize).map page).getD i 0) f := by
  have hflag : ramSaveFlagPage < targetPageSize := by decide
  rw [ramLoadLoop, List.append_assoc, getBe64_record hpages hp hflag]
  simp only [record_flags p hflag, Nat.add_sub_cancel]
  have hbuf : getBuffer targetPageSize ((List.range targetPageSize).map page ++ f) =
      ((List.range targetPageSize).map page, f) := getBuffer_append (by simp) f
  have hload : loadPage ramSaveFlagPage (targetPageSize * p) ram
      ((List.range targetPageSize).map page ++ f) =
      (ram.write (targetPageSize * p) targetPageSize
        fun i => ((List.range targetPageSize).map page).getD i 0, f) := by
    rw [loadPage, if_neg (by decide), if_pos (by decide), hbuf]
    simp only [List.length_map, List.length_range]
  have hsize : ¬ (ramSaveFlagPage &&& ramSaveFlagMemSize ≠ 0 ∧ targetPageSize * p ≠ targetPageSize * pages) := by
    rintro ⟨h, -⟩
    exact absurd h (by decide)
  have hfull : ¬ (ramSaveFlagPage &&& ramSaveFlagFull ≠ 0) := by decide
  simp only [if_neg hsize, if_neg hfull, Int.lt_irrefl, if_false, hload]
  exact if_neg (by decide)

theorem ramLoadLoop_memSize (hpages : pages < 2 ^ 52) :
    ramLoadLoop (targetPageSize * pages) dead (n + 1) ram
      (putBe64 (targetPageSize * pages ||| ramSaveFlagMemSize) ++ f) =
    ramLoadLoop (targetPageSize * pages) dead n ram f := by
  have hflag : ramSaveFlagMemSize < targetPageSize := by decide
  rw [ramLoadLoop, getBe64_record hpages le_rfl hflag]
  simp only [record_flags pages hflag, Nat.add_sub_cancel]
  simp [ramSaveFlagCompress, ramSaveFlagMemSize, ramSaveFlagFull, ramSaveFlagEos, ramSaveFlagPage, loadPage]

theorem ramLoadLoop_eos (hpages : pages < 2 ^ 52) :
    ramLoadLoop (targetPageSize * pages) dead (n + 1) ram (putBe64 ramSaveFlagEos ++ f) =
      some (0, ram, f) := by
  have hflag : ramSaveFlagEos < targetPageSize := by decide
  have hword := getBe64_record hpages (Nat.zero_le _) hflag f
  rw [Nat.mul_zero, Nat.zero_or, Nat.zero_add] at hword
  rw [ramLoadLoop, hword]
  simp [ramSaveFlagCompress, ramSaveFlagMemSize, ramSaveFlagFull, ramSaveFlagEos, ramSaveFlagPage, loadPage,
    targetPageSize]

end Records

/-! ### Sending a page -/

section Synced

variable {pages : ℕ} {s : Source} {dest : Bytes} {dead : Loader}

/-- The destination agrees with the source on the pages that are not dirty. -/
def Synced (pages : ℕ) (s : Source) (dest : Bytes) : Prop :=
  ∀ p < pages, Clean s p → ∀ k < targetPageSize,
    dest (targetPageSize * p + k) = s.ram (targetPageSize * p + k)

theorem synced_stores (h : Synced pages s dest) (ws : List (ℕ × UInt8)) :
    Synced pages (s.stores ws) dest := by
  intro p hp hclean k hk
  obtain ⟨hs, hram⟩ := clean_stores ws s hclean
  rw [h p hp hs k hk, hram k hk]

/-- Loading `out` takes `k` records and turns the RAM `dest` into `dest'`. -/
def Carries (pages : ℕ) (dead : Loader) (out : Stream) (k : ℕ) (dest dest' : Bytes) : Prop :=
  k ≤ out.length ∧ ∀ n f, ramLoadLoop (targetPageSize * pages) dead (n + k) dest (out ++ f) =
    ramLoadLoop (targetPageSize * pages) dead n dest' f

theorem carries_nil : Carries pages dead [] 0 dest dest := ⟨le_rfl, fun _ _ => rfl⟩

theorem Carries.append {out out' : Stream} {k k' : ℕ} {dest' dest'' : Bytes}
    (h : Carries pages dead out k dest dest') (h' : Carries pages dead out' k' dest' dest'') :
    Carries pages dead (out ++ out') (k + k') dest dest'' := by
  refine ⟨by rw [List.length_append]; exact Nat.add_le_add h.1 h'.1, fun n f => ?_⟩
  rw [List.append_assoc, ← Nat.add_assoc, Nat.add_right_comm, h.2, h'.2]

def Source.tested (s : Source) (t : Turn) : Source :=
  (s.resetDirty s.currentAddr (s.currentAddr + targetPageSize) migrationDirtyFlag).stores t.afterClear

def Source.sent (s : Source) (t : Turn) : Source := (s.tested t).stores t.afterTest

theorem sendPage_snd (t : Turn) (s : Source) : (sendPage t s).2 = s.sent t := by
  simp only [sendPage]
  split <;> rfl

theorem sendPage_dup {t : Turn}
    (h : isDupPage ((s.tested t).ram.drop s.currentAddr) ((s.tested t).ram s.currentAddr) = true) :
    (sendPage t s).1 = putBe64 (s.currentAddr ||| ramSaveFlagCompress) ++
      putByte ((s.sent t).ram s.currentAddr).toNat := by
  simp only [sendPage]
  exact congrArg Prod.fst (if_pos h)

theorem sendPage_not_dup {t : Turn}
    (h : ¬ isDupPage ((s.tested t).ram.drop s.currentAddr) ((s.tested t).ram s.currentAddr) = true) :
    (sendPage t s).1 = putBe64 (s.currentAddr ||| ramSaveFlagPage) ++
      (List.range targetPageSize).map ((s.sent t).ram.drop s.currentAddr) := by
  simp only [sendPage]
  exact congrArg Prod.fst (if_neg h)

/-- What is sent of a page is its contents, unless it was stored to meanwhile. -/
theorem sendPage_carries (hpages : pages < 2 ^ 52) {p : ℕ} (hp : p < pages)
    (hcur : s.currentAddr = targetPageSize * p) (t : Turn) (dest : Bytes) :
    ∃ page : Bytes, Carries pages dead (sendPage t s).1 1 dest
        (dest.write (targetPageSize * p) targetPageSize page) ∧
      (Clean (s.sent t) p → ∀ k < targetPageSize, page k = (s.sent t).ram (targetPageSize * p + k)) := by
  by_cases hdup : isDupPage ((s.tested t).ram.drop s.currentAddr) ((s.tested t).ram s.currentAddr) = true
  · rw [sendPage_dup hdup, hcur]
    refine ⟨fun _ => (s.sent t).ram (targetPageSize * p), ⟨by simp [putByte], fun n f => ?_⟩,
      fun hclean k hk => ?_⟩
    · exact ramLoadLoop_compress hpages hp.le _
    · -- the page was not stored to after the test
      obtain ⟨-, hram⟩ := clean_stores t.afterTest (s.tested t) hclean
      rw [hcur, isDupPage_iff] at hdup
      have h0 : (s.sent t).ram (targetPageSize * p) = (s.tested t).ram (targetPageSize * p) :=
        hram 0 (by decide)
      have hk' : (s.sent t).ram (targetPageSize * p + k) = (s.tested t).ram (targetPageSize * p + k) :=
        hram k hk
      rw [h0, hk']
      exact (hdup k hk).symm
  · rw [sendPage_not_dup hdup, hcur]
    refine ⟨_, ⟨by simp [putBe64, putBe32, putByte], fun n f => ramLoadLoop_page hpages hp.le _⟩,
      fun _ k hk => ?_⟩
    rw [List.getD_eq_getElem?_getD, List.getElem?_map, List.getElem?_range hk]
    rfl

theorem sent_currentAddr (t : Turn) (s : Source) : (s.sent t).currentAddr = s.currentAddr := by
  rw [Source.sent, Source.tested, currentAddr_stores, currentAddr_stores]
  rfl

theorem clean_sent {p q : ℕ} (hcur : s.currentAddr = targetPageSize * p) (t : Turn)
    (hclean : Clean (s.sent t) q) :
    (q = p ∨ Clean s q) ∧ ∀ k < targetPageSize,
      (s.sent t).ram (targetPageSize * q + k) = s.ram (targetPageSize * q + k) := by
  obtain ⟨h2, hram2⟩ := clean_stores _ _ hclean
  obtain ⟨h1, hram1⟩ := clean_stores _ _ h2
  rw [hcur] at h1
  exact ⟨(clean_resetDirty s p q).1 h1, fun k hk => (hram2 k hk).trans (hram1 k hk)⟩

theorem sendPage_synced (hpages : pages < 2 ^ 52) {p : ℕ} (hp : p < pages)
    (hcur : s.currentAddr = targetPageSize * p) (t : Turn) (h : Synced pages s dest) :
    ∃ dest', Carries pages dead (sendPage t s).1 1 dest dest' ∧ Synced pages (s.sent t) dest' := by
  obtain ⟨page, hcarries, hpage⟩ := sendPage_carries hpages hp hcur t dest
  refine ⟨_, hcarries, fun q hq hclean k hk => ?_⟩
  by_cases hqp : q = p
  · subst hqp
    rw [Bytes.write_apply_of_mem hk]
    exact hpage hclean k hk
  · obtain ⟨hor, hram⟩ := clean_sent hcur t hclean
    have hout : targetPageSize * q + k < targetPageSize * p ∨
        targetPageSize * p + targetPageSize ≤ targetPageSize * q + k := by
      simp only [targetPageSize] at hk ⊢
      omega
    rw [Bytes.write_apply_of_not_mem hout, h q hq (hor.resolve_left hqp) k hk, hram k hk]

/-! ### Loops -/

/-- What a part of a stage does to the destination that loads it. -/
def Advances (pages : ℕ) (dead : Loader) (dest : Bytes) (r : Stream × Source) : Prop :=
  CursorOk pages r.2 ∧ ∃ k dest', Carries pages dead r.1 k dest dest' ∧ Synced pages r.2 dest'

theorem advances_nil (hs : CursorOk pages s) (h : Synced pages s dest) :
    Advances pages dead dest ([], s) :=
  ⟨hs, 0, dest, carries_nil, h⟩

theorem cursorOk_stores (h : CursorOk pages s) (ws : List (ℕ × UInt8)) : CursorOk pages (s.stores ws) := by
  rw [CursorOk, currentAddr_stores]
  exact h

theorem ramSaveBlock_advances (hpages : pages < 2 ^ 52) (hs : CursorOk pages s)
    (h : Synced pages s dest) (t : Turn) :
    Advances pages dead dest (ramSaveBlock (targetPageSize * pages) t s).2 := by
  rcases ramSaveBlock_spec hs t with ⟨p, hp, -, hsent⟩ | ⟨hnone, -⟩
  · rw [hsent, Advances, sendPage_snd]
    refine ⟨⟨p, ?_, .inl hp⟩, 1,
      sendPage_synced (s := { s with currentAddr := targetPageSize * p }) hpages hp rfl t h⟩
    rw [sent_currentAddr]
  · rw [hnone]
    exact advances_nil hs h

theorem saveLoop_advances (hpages : pages < 2 ^ 52) : ∀ (ts : List Turn) (s : Source) (dest : Bytes),
    CursorOk pages s → Synced pages s dest →
    Advances pages dead dest (saveLoop (targetPageSize * pages) ts s)
  | [], _, _, hs, h => advances_nil hs h
  | t :: ts, s, dest, hs, h => by
    obtain ⟨hcur, k, dest', hcarries, hsynced⟩ : Advances pages dead dest
        (ramSaveBlock (targetPageSize * pages) t (s.stores t.before)).2 :=
      ramSaveBlock_advances hpages (cursorOk_stores hs t.before) (synced_stores h t.before) t
    rw [saveLoop]
    generalize ramSaveBlock (targetPageSize * pages) t (s.stores t.before) = r at *
    obtain ⟨found, out, s'⟩ := r
    cases found with
    | false => exact ⟨hcur, k, dest', hcarries, hsynced⟩
    | true =>
      obtain ⟨hcur', k', dest'', hcarries', hsynced'⟩ := saveLoop_advances hpages ts s' dest' hcur hsynced
      exact ⟨hcur', k + k', dest'', hcarries.append hcarries', hsynced'⟩

theorem clean_sent_idle {p : ℕ} (hcur : s.currentAddr = targetPageSize * p) (q : ℕ) :
    Clean (s.sent .idle) q ↔ q = p ∨ Clean s q := by
  show Clean (s.resetDirty s.currentAddr (s.currentAddr + targetPageSize) migrationDirtyFlag) q ↔ _
  rw [hcur]
  exact clean_resetDirty s p q

theorem countP_lt {P Q : ℕ → Bool} {p : ℕ} : ∀ {l : List ℕ}, (∀ q ∈ l, P q = true → Q q = true) →
    p ∈ l → Q p = true → P p = false → l.countP P < l.countP Q
  | [], _, hp, _, _ => absurd hp (List.not_mem_nil)
  | q :: l, himp, hp, hQ, hP => by
    have htail : l.countP P ≤ l.countP Q :=
      List.countP_mono_left fun x hx => himp x (List.mem_cons_of_mem _ hx)
    rcases List.mem_cons.1 hp with rfl | hp
    · rw [List.countP_cons_of_neg (by simp [hP]), List.countP_cons_of_pos hQ]
      omega
    · have hlt := countP_lt (fun x hx => himp x (List.mem_cons_of_mem _ hx)) hp hQ hP
      have hhead := himp q List.mem_cons_self
      rw [List.countP_cons, List.countP_cons]
      split
      · rename_i h
        rw [if_pos (hhead h)]
        omega
      · omega

theorem ramSaveRemaining_eq (pages : ℕ) (s : Source) : ramSaveRemaining (targetPageSize * pages) s =
    (List.range pages).countP fun p => s.getDirty (targetPageSize * p) migrationDirtyFlag := by
  rw [ramSaveRemaining, Nat.mul_div_cancel_left _ (by decide)]
  simp only [Nat.mul_comm]

theorem ramSaveRemaining_sent {p : ℕ} (hp : p < pages) (hdirty : ¬ Clean s p)
    (hcur : s.currentAddr = targetPageSize * p) :
    ramSaveRemaining (targetPageSize * pages) (s.sent .idle) < ramSaveRemaining (targetPageSize * pages) s := by
  rw [ramSaveRemaining_eq, ramSaveRemaining_eq]
  apply countP_lt (p := p)
  · intro q _ hq
    rw [getDirty_eq_true, clean_sent_idle hcur] at hq
    rw [getDirty_eq_true]
    exact fun hc => hq (.inr hc)
  · exact List.mem_range.2 hp
  · exact (getDirty_eq_true s p).2 hdirty
  · exact (getDirty_eq_false _ p).2 ((clean_sent_idle hcur p).2 (.inl rfl))

/-- With the guest stopped the flush ends, leaves no page dirty and does not change RAM. -/
theorem flushLoop_advances (hpages : pages < 2 ^ 52) : ∀ (n : ℕ) (s : Source) (dest : Bytes),
    ramSaveRemaining (targetPageSize * pages) s < n → CursorOk pages s → Synced pages s dest →
    ∃ r, flushLoop (targetPageSize * pages) n s = some r ∧ Advances pages dead dest r ∧
      (∀ p < pages, Clean r.2 p) ∧ r.2.ram = s.ram
  | 0, _, _, hn, _, _ => absurd hn (Nat.not_lt_zero _)
  | n + 1, s, dest, hn, hs, h => by
    rcases ramSaveBlock_spec hs .idle with ⟨p, hp, hdirty, hsent⟩ | ⟨hnone, hclean⟩
    · obtain ⟨hcur, k, dest', hcarries, hsynced⟩ : Advances pages dead dest
          (ramSaveBlock (targetPageSize * pages) .idle s).2 := ramSaveBlock_advances hpages hs h .idle
      rw [hsent] at hcur hcarries hsynced
      rw [sendPage_snd] at hcur hsynced
      have hless : ramSaveRemaining (targetPageSize * pages)
          (({ s with currentAddr := targetPageSize * p } : Source).sent .idle) <
          ramSaveRemaining (targetPageSize * pages) s :=
        ramSaveRemaining_sent (s := { s with currentAddr := targetPageSize * p }) hp hdirty rfl
      obtain ⟨r, hr, ⟨hcur', k', dest'', hcarries', hsynced'⟩, hclean, hram⟩ :=
        flushLoop_advances hpages n _ dest' (by omega) hcur hsynced
      refine ⟨(_ ++ r.1, r.2), ?_, ⟨hcur', k + k', dest'', hcarries.append hcarries', hsynced'⟩, hclean, hram⟩
      rw [flushLoop, hsent]
      simp only [if_pos, sendPage_snd]
      rw [hr]
      rfl
    · refine ⟨([], s), ?_, advances_nil hs h, hclean, rfl⟩
      rw [flushLoop, hnone]
      rfl

theorem saveLoop_idle_ram : ∀ (n : ℕ) (s : Source), CursorOk pages s →
    (saveLoop (targetPageSize * pages) (List.replicate n .idle) s).2.ram = s.ram
  | 0, _, _ => rfl
  | n + 1, s, hs => by
    rw [List.replicate_succ, saveLoop]
    rcases ramSaveBlock_spec hs .idle with ⟨p, hp, -, hsent⟩ | ⟨hnone, -⟩
    · rw [show s.stores Turn.idle.before = s from rfl, hsent]
      have hcur : CursorOk pages (sendPage .idle { s with currentAddr := targetPageSize * p }).2 := by
        rw [sendPage_snd]
        exact ⟨p, sent_currentAddr _ _, .inl hp⟩
      have ih := saveLoop_idle_ram n _ hcur
      simp only [if_pos]
      rw [ih, sendPage_snd]
      rfl
    · rw [show s.stores Turn.idle.before = s from rfl, hnone]
      rfl

end Synced

/-! ### Stages -/

section Stages

variable {pages : ℕ} {s : Source} {dest : Bytes} {v1 dead : Loader}

theorem markDirty_spec : ∀ (l : List ℕ) (s : Source),
    let r := l.foldl (fun s p =>
      if s.getDirty (p * targetPageSize) migrationDirtyFlag then s
      else s.setDirty (p * targetPageSize)) s
    (∀ p, (p ∈ l ∨ ¬ Clean s p) → ¬ Clean r p) ∧ r.ram = s.ram ∧ r.currentAddr = s.currentAddr
  | [], s => ⟨fun p h => h.resolve_left List.not_mem_nil, rfl, rfl⟩
  | q :: l, s => by
    rw [List.foldl_cons]
    by_cases hq : s.getDirty (q * targetPageSize) migrationDirtyFlag = true
    · rw [if_pos hq]
      rw [Nat.mul_comm, getDirty_eq_true] at hq
      obtain ⟨hdirty, hram, hcur⟩ := markDirty_spec l s
      refine ⟨fun p hp => hdirty p ?_, hram, hcur⟩
      rcases hp with hp | hp
      · rcases List.mem_cons.1 hp with rfl | hp
        · exact .inr hq
        · exact .inl hp
      · exact .inr hp
    · rw [if_neg hq]
      obtain ⟨hdirty, hram, hcur⟩ := markDirty_spec l (s.setDirty (q * targetPageSize))
      refine ⟨fun p hp => hdirty p ?_, hram, hcur⟩
      rw [clean_setDirty, Nat.mul_div_cancel _ (by decide)]
      rcases hp with hp | hp
      · rcases List.mem_cons.1 hp with rfl | hp
        · exact .inr fun h => h.1 rfl
        · exact .inl hp
      · exact .inr fun h => hp h.2

/-- A section that ends in `RAM_SAVE_FLAG_EOS` is loaded as a whole. -/
theorem ramLoad_section (hpages : pages < 2 ^ 52) {out : Stream} {k : ℕ} {dest' : Bytes}
    (h : Carries pages dead out k dest dest') :
    ramLoad (targetPageSize * pages) v1 dead 3 dest (out ++ putBe64 ramSaveFlagEos) =
      some (0, dest', []) := by
  rw [ramLoad, if_neg (by decide), if_neg (by decide), if_neg (by decide)]
  have hfuel : (out ++ putBe64 ramSaveFlagEos).length + 1 =
      (out.length - k + (putBe64 ramSaveFlagEos).length + 1) + k := by
    have := h.1
    rw [List.length_append]
    omega
  have heos : ∀ n, ramLoadLoop (targetPageSize * pages) dead (n + 1) dest' (putBe64 ramSaveFlagEos) =
      some (0, dest', []) := by
    intro n
    rw [← List.append_nil (putBe64 _)]
    exact ramLoadLoop_eos hpages
  rw [hfuel, h.2, heos]

def Source.marked (s : Source) (pages stage : ℕ) : Source :=
  if stage = 1 then
    (List.range pages).foldl (fun s p =>
      if s.getDirty (p * targetPageSize) migrationDirtyFlag then s
      else s.setDirty (p * targetPageSize)) s
  else s

theorem marked_spec (hs : CursorOk pages s) {stage : ℕ} (h : stage = 1 ∨ Synced pages s dest) :
    CursorOk pages (s.marked pages stage) ∧ Synced pages (s.marked pages stage) dest ∧
      (s.marked pages stage).ram = s.ram := by
  by_cases h1 : stage = 1
  · obtain ⟨hdirty, hram, hcur⟩ := markDirty_spec (List.range pages) s
    rw [Source.marked, if_pos h1]
    refine ⟨?_, fun p hp hclean => absurd hclean (hdirty p (.inl (List.mem_range.2 hp))), hram⟩
    rw [CursorOk, hcur]
    exact hs
  · rw [Source.marked, if_neg h1]
    exact ⟨hs, h.resolve_left h1, rfl⟩

theorem carries_head (hpages : pages < 2 ^ 52) (stage : ℕ) (dest : Bytes) :
    ∃ k, Carries pages dead
      (if stage = 1 then putBe64 (targetPageSize * pages ||| ramSaveFlagMemSize) else []) k dest dest := by
  by_cases h1 : stage = 1
  · rw [if_pos h1]
    exact ⟨1, by simp [putBe64, putBe32, putByte], fun n f => ramLoadLoop_memSize hpages⟩
  · rw [if_neg h1]
    exact ⟨0, carries_nil⟩

theorem stage_end (hpages : pages < 2 ^ 52) (stage : ℕ) (hs : CursorOk pages s)
    (h : Synced pages s dest) :
    ∃ r, (if stage = 3 then flushLoop (targetPageSize * pages) (pages + 1) s else some ([], s)) = some r ∧
      Advances pages dead dest r ∧ (stage = 3 → ∀ p < pages, Clean r.2 p) ∧ r.2.ram = s.ram := by
  by_cases h3 : stage = 3
  · have hfew : ramSaveRemaining (targetPageSize * pages) s < pages + 1 := by
      rw [ramSaveRemaining_eq]
      have hle := List.countP_le_length (l := List.range pages)
        (p := fun p => s.getDirty (targetPageSize * p) migrationDirtyFlag)
      rw [List.length_range] at hle
      omega
    obtain ⟨r, hr, hadv, hclean, hram⟩ := flushLoop_advances hpages (pages + 1) s dest hfew hs h
    exact ⟨r, by rw [if_pos h3, hr], hadv, fun _ => hclean, hram⟩
  · exact ⟨([], s), if_neg h3, advances_nil hs h, fun h => absurd h h3, rfl⟩

/-- Every stage returns, its section is loaded with result 0, and the two sides stay in
step. -/
theorem ramSaveLive_spec (hpages : pages < 2 ^ 52) (stage : ℕ) (ts : List Turn) (hs : CursorOk pages s)
    (h : stage = 1 ∨ Synced pages s dest) :
    ∃ more out s', ramSaveLive (targetPageSize * pages) stage ts s = some (more, out, s') ∧
      CursorOk pages s' ∧ (stage = 3 → ∀ p < pages, Clean s' p) ∧
      (∀ n, ts = List.replicate n .idle → s'.ram = s.ram) ∧
      ∃ dest', ramLoad (targetPageSize * pages) v1 dead 3 dest out = some (0, dest', []) ∧
        Synced pages s' dest' := by
  obtain ⟨hcur, hsynced, hram⟩ := marked_spec hs h
  obtain ⟨k, hhead⟩ := carries_head hpages stage dest
  obtain ⟨hcur1, k1, dest1, hcarries1, hsynced1⟩ :=
    saveLoop_advances hpages ts (s.marked pages stage) dest hcur hsynced
  obtain ⟨r, hr, ⟨hcur2, k2, dest2, hcarries2, hsynced2⟩, hclean, hram2⟩ :=
    stage_end hpages stage hcur1 hsynced1
  have hlive : ramSaveLive (targetPageSize * pages) stage ts s = some
      (decide (stage = 2 ∧ ramSaveRemaining (targetPageSize * pages) r.2 < 10),
        (if stage = 1 then putBe64 (targetPageSize * pages ||| ramSaveFlagMemSize) else []) ++
          (saveLoop (targetPageSize * pages) ts (s.marked pages stage)).1 ++ r.1 ++
          putBe64 ramSaveFlagEos, r.2) := by
    have hdiv : targetPageSize * pages / targetPageSize = pages := Nat.mul_div_cancel_left _ (by decide)
    rw [ramSaveLive, hdiv]
    exact congrArg (Option.map _) hr
  refine ⟨_, _, _, hlive, hcur2, hclean, ?_, dest2,
    ramLoad_section hpages ((hhead.append hcarries1).append hcarries2), hsynced2⟩
  rintro n rfl
  rw [hram2, saveLoop_idle_ram n _ hcur, hram]

end Stages

/-! ### Whole migrations -/

/-- A call of `ram_save_live`, with the stores of the guest since the call before it. -/
structure Call where
  stores : List (ℕ × UInt8)
  stage : ℕ
  turns : List Turn

def saveAll (lastRamOffset : ℕ) : List Call → Source → Option (List Stream × Source)
  | [], s => some ([], s)
  | c :: cs, s =>
    match ramSaveLive lastRamOffset c.stage c.turns (s.stores c.stores) with
    | none => none
    | some (_, out, s) => (saveAll lastRamOffset cs s).map fun r => (out :: r.1, r.2)

/-- The destination loads the sections in order. Each must be read to its end and give 0. -/
def loadAll (lastRamOffset : ℕ) (v1 dead : Loader) : List Stream → Bytes → Option Bytes
  | [], ram => some ram
  | f :: fs, ram =>
    match ramLoad lastRamOffset v1 dead 3 ram f with
    | none => none
    | some (r, ram, rest) =>
      if r = 0 ∧ rest = [] then loadAll lastRamOffset v1 dead fs ram else none

section Whole

variable {pages : ℕ} {s : Source} {dest : Bytes} {v1 dead : Loader}

theorem loadAll_cons {f : Stream} {dest' : Bytes}
    (h : ramLoad (targetPageSize * pages) v1 dead 3 dest f = some (0, dest', [])) (fs : List Stream) :
    loadAll (targetPageSize * pages) v1 dead (f :: fs) dest =
      loadAll (targetPageSize * pages) v1 dead fs dest' := by
  rw [loadAll, h]
  exact if_pos ⟨rfl, rfl⟩

theorem saveAll_cons {c : Call} {more : Bool} {out : Stream} {s' : Source} {r : List Stream × Source}
    {cs : List Call}
    (h : ramSaveLive (targetPageSize * pages) c.stage c.turns (s.stores c.stores) = some (more, out, s'))
    (hr : saveAll (targetPageSize * pages) cs s' = some r) :
    saveAll (targetPageSize * pages) (c :: cs) s = some (out :: r.1, r.2) := by
  rw [saveAll, h]
  simp only [hr, Option.map_some]

theorem saveAll_spec (hpages : pages < 2 ^ 52) : ∀ (cs : List Call) (s : Source) (dest : Bytes),
    CursorOk pages s → Synced pages s dest →
    ∃ r, saveAll (targetPageSize * pages) cs s = some r ∧ CursorOk pages r.2 ∧
      ∃ dest', (∀ fs, loadAll (targetPageSize * pages) v1 dead (r.1 ++ fs) dest =
          loadAll (targetPageSize * pages) v1 dead fs dest') ∧ Synced pages r.2 dest'
  | [], s, dest, hs, h => ⟨([], s), rfl, hs, dest, fun _ => rfl, h⟩
  | c :: cs, s, dest, hs, h => by
    obtain ⟨more, out, s', hsave, hcur, -, -, dest', hload, hsynced⟩ :=
      ramSaveLive_spec hpages c.stage c.turns (cursorOk_stores hs c.stores)
        (.inr (synced_stores h c.stores))
    obtain ⟨r, hr, hcur', dest'', hload', hsynced'⟩ := saveAll_spec hpages cs s' dest' hcur hsynced
    refine ⟨_, saveAll_cons hsave hr, hcur', dest'', fun fs => ?_, hsynced'⟩
    rw [List.cons_append, loadAll_cons hload, hload']

/-- Live migration is exact. In a process that may have run other migrations before, stage
1, any number of stages 2 and stage 3 with the guest stopped all return; stage 3 leaves no
page marked for migration; and a destination of the same size that loads the sections has
the RAM of the source at stage 3, whatever it held before. -/
theorem ram_migration_exact (pages : Fin (2 ^ 52)) (ram : Bytes) (dirty : ℕ → BitVec 8)
    (earlier : List Call) (start : List Turn) (parts : List (List (ℕ × UInt8) × List Turn))
    (last : List (ℕ × UInt8)) (n : ℕ) (dest : Bytes) (v1 dead : Loader) :
    ∃ sent s0 sections s2 more final s3 dest',
      saveAll (targetPageSize * pages) earlier ⟨ram, dirty, 0⟩ = some (sent, s0) ∧
      saveAll (targetPageSize * pages) (⟨[], 1, start⟩ :: parts.map fun c => ⟨c.1, 2, c.2⟩) s0 =
        some (sections, s2) ∧
      ramSaveLive (targetPageSize * pages) 3 (List.replicate n .idle) (s2.stores last) =
        some (more, final, s3) ∧
      (∀ p < (pages : ℕ), s3.getDirty (targetPageSize * p) migrationDirtyFlag = false) ∧
      loadAll (targetPageSize * pages) v1 dead (sections ++ [final]) dest = some dest' ∧
      ∀ a < targetPageSize * pages, dest' a = (s2.stores last).ram a := by
  obtain ⟨pages, hpages⟩ := pages
  dsimp only
  have hcursor : CursorOk pages ⟨ram, dirty, 0⟩ := ⟨0, rfl, by omega⟩
  obtain ⟨⟨sent, s0⟩, hsent, hcur0, -⟩ : ∃ r, saveAll (targetPageSize * pages) earlier ⟨ram, dirty, 0⟩ =
      some r ∧ CursorOk pages r.2 ∧ ∃ dest', (∀ fs, loadAll (targetPageSize * pages) v1 dead (r.1 ++ fs) ram =
        loadAll (targetPageSize * pages) v1 dead fs dest') ∧ Synced pages r.2 dest' :=
    saveAll_spec hpages earlier _ ram hcursor fun _ _ _ _ _ => rfl
  obtain ⟨more1, out1, s1, hsave1, hcur1, -, -, dest1, hload1, hsynced1⟩ :=
    ramSaveLive_spec hpages 1 start (cursorOk_stores hcur0 []) (.inl rfl)
  obtain ⟨r, hr, hcur2, dest2, hload2, hsynced2⟩ :=
    saveAll_spec hpages (parts.map fun c => ⟨c.1, 2, c.2⟩) s1 dest1 hcur1 hsynced1
  obtain ⟨more, final, s3, hsave3, -, hclean, hram, dest3, hload3, hsynced3⟩ :=
    ramSaveLive_spec hpages 3 (List.replicate n .idle) (cursorOk_stores hcur2 last)
      (.inr (synced_stores hsynced2 last))
  refine ⟨sent, s0, out1 :: r.1, r.2, more, final, s3, dest3, hsent, saveAll_cons hsave1 hr, hsave3, ?_, ?_, ?_⟩
  · intro p hp
    exact (getDirty_eq_false s3 p).2 (hclean rfl p hp)
  · rw [List.cons_append, loadAll_cons hload1, hload2, loadAll_cons hload3]
    rfl
  · intro a ha
    have hpage : a / targetPageSize < pages := Nat.div_lt_of_lt_mul ha
    have := hsynced3 _ hpage (hclean rfl _ hpage) (a % targetPageSize) (Nat.mod_lt _ (by decide))
    rw [Nat.div_add_mod] at this
    rw [this, hram n rfl]

end Whole

end Ar7Qemu.Migration
