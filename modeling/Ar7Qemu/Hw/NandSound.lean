import Ar7Qemu.Hw.NandStore

/-! Every layout returns the bytes of the content itself. The chip and the content keep the same registers,
and the bytes from `ioaddr` on that are still to be read agree, wherever they are in `io`; the bytes of a
program are at its start. -/

namespace Ar7Qemu.Nand

open Lib

variable {c : Config} {split : Bool} {s : NandFlash Store} {a : NandFlash Content} {value : UInt8}

/-- The chip agrees with the content. -/
structure Agrees (c : Config) (split : Bool) (s : NandFlash Store) (a : NandFlash Content) : Prop where
  control : s.toControl = a.toControl
  holds : s.store.Holds c a.store
  layout : s.store.isSplit = split
  window : ∀ k : ℕ, k < s.iolen → s.io (s.ioaddr + k) = a.io (a.ioaddr + k)
  inside : 0 < s.iolen → s.ioaddr + s.iolen ≤ ioSize ∧ a.ioaddr + s.iolen ≤ ioSize

/-- The data of a program are at the start of `io`. -/
def Buffered (c : Config) (s : NandFlash Store) (a : NandFlash Content) : Prop :=
  Programming c s.toControl → s.ioaddr = 0 ∧ a.ioaddr = 0 ∧ 0 ≤ s.iolen

/-! ### Commands -/

theorem blkWrite_agrees (h : Agrees c split s a) (hbuf : s.ioaddr = 0 ∧ a.ioaddr = 0 ∧ 0 ≤ s.iolen)
    (hinside : c.pageSize.column s.addr + s.offset + s.iolen ≤ c.recordSize)
    (hsplit : split = true → c.pageSize.page s.addr < c.pages → c.pageSize.column s.addr + s.offset ≤ c.pageSize.pageSize) :
    ∃ s' a', blkWrite c s = some s' ∧ (plain c).blkWrite a = some a' ∧ Agrees c split s' a' ∧ s'.cmd = s.cmd ∧
      s'.cle = s.cle ∧ s'.ale = s.ale := by
  obtain ⟨ctl, store, io, p⟩ := s
  obtain ⟨ctl', content, io', p'⟩ := a
  obtain ⟨rfl, hholds, rfl, hwindow, hin⟩ := h
  obtain ⟨rfl, rfl, hpos⟩ := hbuf
  unfold blkWrite plain
  dsimp only at hpos hinside hsplit hwindow hin ⊢
  by_cases hpage : c.pages ≤ c.pageSize.page ctl.addr
  · rw [if_pos hpage, if_pos hpage]
    exact ⟨_, _, rfl, rfl, ⟨rfl, hholds, rfl, hwindow, hin⟩, rfl, rfl, rfl⟩
  · obtain ⟨n, hn⟩ := Int.eq_ofNat_of_zero_le hpos
    have hto : ctl.iolen.toNat = n := by
      rw [hn]
      rfl
    rw [hn] at hinside
    obtain ⟨store', hrun, hlayout, hholds'⟩ := program_holds io hholds (not_le.1 hpage)
      (show c.pageSize.column ctl.addr + ctl.offset + n ≤ c.recordSize by omega) fun hs => hsplit hs (not_le.1 hpage)
    rw [if_neg hpage, if_neg hpage, if_neg (not_lt.2 hpos), hto, hrun]
    refine ⟨_, _, rfl, rfl, ⟨rfl, ?_, hlayout, hwindow, hin⟩, rfl, rfl, rfl⟩
    have heq : content.program (c.pageSize.page ctl.addr) (c.pageSize.column ctl.addr + ctl.offset) n io =
        content.program (c.pageSize.page ctl.addr) (c.pageSize.column ctl.addr + ctl.offset) n io' := by
      funext q k
      unfold Content.program
      split_ifs with hk
      · have hbyte := hwindow (k - (c.pageSize.column ctl.addr + ctl.offset)) (by omega)
        rw [Nat.zero_add] at hbyte
        exact hbyte
      · rfl
    rw [← heq]
    exact hholds'

theorem blkErase_agrees (h : Agrees c split s a)
    (hsplit : split = true → ∀ p < c.pages, ∀ k < c.pageSize.pageSize,
      p / 2 ^ c.eraseShift = c.pageSize.page s.addr / 2 ^ c.eraseShift → a.store p k = 0xff) :
    ∃ s' a', blkErase c s = some s' ∧ (plain c).blkErase a = some a' ∧ Agrees c split s' a' ∧ s'.cmd = s.cmd ∧
      s'.cle = s.cle ∧ s'.ale = s.ale := by
  obtain ⟨ctl, store, io, p⟩ := s
  obtain ⟨ctl', content, io', p'⟩ := a
  obtain ⟨rfl, hholds, rfl, hwindow, hin⟩ := h
  unfold blkErase plain
  dsimp only at hsplit hwindow hin ⊢
  by_cases hpage : c.pages ≤ c.pageSize.page (c.blockAddr ctl.addr)
  · rw [if_pos hpage, if_pos hpage]
    exact ⟨_, _, rfl, rfl, ⟨rfl, hholds, rfl, hwindow, hin⟩, rfl, rfl, rfl⟩
  · have hblock : c.pageSize.page (c.blockAddr ctl.addr) / 2 ^ c.eraseShift = c.pageSize.page ctl.addr / 2 ^ c.eraseShift := by
      unfold Config.blockAddr
      rw [PageSize.page_eq, PageSize.page_eq, Nat.div_div_eq_div_mul, Nat.div_div_eq_div_mul, ← Nat.pow_add, Nat.shiftLeft_eq,
        Nat.mul_div_cancel _ (Nat.two_pow_pos _), Nat.shiftRight_eq_div_pow]
    have haddr : 2 ^ (c.pageSize.addrShift + c.eraseShift) ∣ c.blockAddr ctl.addr := by
      unfold Config.blockAddr
      rw [Nat.shiftLeft_eq]
      exact Nat.dvd_mul_left _ _
    obtain ⟨store', hrun, hlayout, hholds'⟩ := erase_holds hholds (not_le.1 hpage) haddr fun hs p hp k hk hpk =>
      hsplit hs p hp k hk (hpk.trans hblock)
    rw [if_neg hpage, if_neg hpage, hrun]
    refine ⟨_, _, rfl, rfl, ⟨rfl, ?_, hlayout, hwindow, hin⟩, rfl, rfl, rfl⟩
    unfold Content.erase at hholds' ⊢
    rw [hblock] at hholds'
    exact hholds'

/-- A load leaves the bytes of the page, and neither the pins nor the command change. -/
theorem blkLoad_agrees {offset : ℕ} (h : Agrees c split s a) (hpage : c.pageSize.page s.addr < c.pages)
    (hcol : c.pageSize.column s.addr ≤ c.recordSize) (hoff : offset ≤ c.recordSize) :
    ∃ io ioaddr, blkLoad c s s.addr offset = some { s with io, ioaddr, addr := nextAddr c s.addr } ∧
      (plain c).blkLoad a a.addr offset = some { a with
        io := fun k => a.store (c.pageSize.page s.addr) (offset + k), ioaddr := 0, addr := nextAddr c s.addr } ∧
      ioaddr + (c.recordSize - offset) ≤ ioSize ∧
      ∀ k, offset + k < c.recordSize → io (ioaddr + k) = a.store (c.pageSize.page s.addr) (offset + k) := by
  obtain ⟨ctl, store, io, p⟩ := s
  obtain ⟨ctl', content, io', p'⟩ := a
  obtain ⟨rfl, hholds, rfl, -, -⟩ := h
  obtain ⟨io₁, p₁, hrun, hin, hbytes⟩ := load_holds io hholds hpage hcol hoff
  refine ⟨io₁, p₁, ?_, ?_, hin, hbytes⟩
  · unfold blkLoad
    dsimp only at hpage ⊢
    rw [if_neg (not_le.2 hpage), hrun]
    rfl
  · unfold plain
    dsimp only at hpage ⊢
    rw [if_neg (not_le.2 hpage)]

/-- The chip is ready for its command. -/
structure Ready (c : Config) (split : Bool) (s : NandFlash Store) (a : NandFlash Content) : Prop where
  program : s.cmd = cmdPageProgram2 → s.wp = true → (s.ioaddr = 0 ∧ a.ioaddr = 0 ∧ 0 ≤ s.iolen) ∧
    c.pageSize.column s.addr + s.offset + s.iolen ≤ c.recordSize ∧
    (split = true → c.pageSize.page s.addr < c.pages → c.pageSize.column s.addr + s.offset ≤ c.pageSize.pageSize)
  read : c.samsungLp = true → s.cmd = cmdRandomRead2 ∨ s.cmd = cmdNoSerialRead2 →
    c.pageSize.page s.addr < c.pages ∧ c.pageSize.column s.addr ≤ c.recordSize ∧ c.pageSize.column s.addr + s.iolen ≤ c.recordSize
  erase : s.cmd = cmdBlockErase2 → s.wp = true → split = true → ∀ p < c.pages, ∀ k < c.pageSize.pageSize,
    p / 2 ^ c.eraseShift =
      c.pageSize.page (s.addr <<< (if c.samsungLp then 16 else 8) % 2 ^ 32) / 2 ^ c.eraseShift → a.store p k = 0xff

/-- A command leaves the chip and the content in agreement, and neither the pins nor, but for a reset, the
command change. -/
theorem nandCommand_agrees (h : Agrees c split s a) (hready : Ready c split s a) :
    ∃ s' a', nandCommand c (device c) s = some s' ∧ nandCommand c (plain c) a = some a' ∧ Agrees c split s' a' ∧
      (s'.cmd = s.cmd ∨ s'.cmd = cmdRead0) ∧ s'.cle = s.cle ∧ s'.ale = s.ale := by
  obtain ⟨ctl, store, io, p⟩ := s
  obtain ⟨ctl', content, io', p'⟩ := a
  obtain rfl : ctl = ctl' := h.control
  obtain ⟨-, hholds, hlayout, hwindow, hin⟩ := id h
  obtain ⟨hprogram, hread, herase⟩ := hready
  have hid : ∀ (d : Bytes) (n k : ℕ), (k : ℤ) < n → (io.write 0 n d) (0 + k) = (io'.write 0 n d) (0 + k) := by
    intro d n k hk
    rw [Bytes.write_apply_of_mem (by omega), Bytes.write_apply_of_mem (by omega)]
  have hsmall : ∀ n : ℤ, n ≤ ioSize → (0 : ℕ) + n ≤ ioSize ∧ (0 : ℕ) + n ≤ ioSize := fun n hn => by omega
  have hnone : ∀ k : ℕ, ¬ (k : ℤ) < 0 := fun k => by omega
  unfold nandCommand
  dsimp only at hprogram hread herase hwindow hin ⊢
  by_cases h0 : ctl.cmd = cmdRead0
  · rw [if_pos h0, if_pos h0]
    exact ⟨_, _, rfl, rfl, ⟨rfl, hholds, hlayout, fun k hk => absurd hk (hnone k), nofun⟩, .inl rfl, rfl, rfl⟩
  rw [if_neg h0, if_neg h0]
  by_cases hreadId : ctl.cmd = cmdReadId
  · rw [if_pos hreadId, if_pos hreadId]
    exact ⟨_, _, rfl, rfl, ⟨rfl, hholds, hlayout, hid (idBytes c) 4, fun _ => hsmall 4 (by decide)⟩, .inl rfl, rfl, rfl⟩
  rw [if_neg hreadId, if_neg hreadId]
  by_cases hrandom : ctl.cmd = cmdRandomRead2 ∨ ctl.cmd = cmdNoSerialRead2
  · rw [if_pos hrandom, if_pos hrandom]
    by_cases hlp : c.samsungLp = true
    · rw [if_pos hlp, if_pos hlp]
      obtain ⟨hpage, hcol, hlen⟩ := hread hlp hrandom
      obtain ⟨io₁, p₁, hrun, hrun', hfit, hbytes⟩ := blkLoad_agrees h hpage hcol hcol
      refine ⟨_, _, hrun, hrun', ⟨rfl, hholds, hlayout, fun k hk => ?_, fun _ => ?_⟩, .inl rfl, rfl, rfl⟩
      · dsimp only at hk ⊢
        rw [Nat.zero_add]
        exact hbytes k (by omega)
      · have hrecord := recordSize_le c
        unfold ioSize at hfit ⊢
        dsimp only at hcol hlen hfit ⊢
        omega
    · rw [if_neg hlp, if_neg hlp]
      exact ⟨_, _, rfl, rfl, h, .inl rfl, rfl, rfl⟩
  rw [if_neg hrandom, if_neg hrandom]
  by_cases hreset : ctl.cmd = cmdReset
  · rw [if_pos hreset, if_pos hreset]
    exact ⟨_, _, rfl, rfl, ⟨rfl, hholds, hlayout, fun k hk => absurd hk (hnone k), nofun⟩, .inr rfl, rfl, rfl⟩
  rw [if_neg hreset, if_neg hreset]
  by_cases hprogram1 : ctl.cmd = cmdPageProgram1
  · rw [if_pos hprogram1, if_pos hprogram1]
    exact ⟨_, _, rfl, rfl, ⟨rfl, hholds, hlayout, fun k hk => absurd hk (hnone k), nofun⟩, .inl rfl, rfl, rfl⟩
  rw [if_neg hprogram1, if_neg hprogram1]
  by_cases hprogram2 : ctl.cmd = cmdPageProgram2
  · rw [if_pos hprogram2, if_pos hprogram2]
    by_cases hwp : ctl.wp = true
    · rw [if_pos hwp, if_pos hwp]
      obtain ⟨hbuf, hinside, hsplit⟩ := hprogram hprogram2 hwp
      obtain ⟨s', a', hrun, hrun', hagrees, hcmd, hpins⟩ := blkWrite_agrees h hbuf hinside hsplit
      exact ⟨s', a', hrun, hrun', hagrees, .inl hcmd, hpins⟩
    · rw [if_neg hwp, if_neg hwp]
      exact ⟨_, _, rfl, rfl, h, .inl rfl, rfl, rfl⟩
  rw [if_neg hprogram2, if_neg hprogram2]
  by_cases herase2 : ctl.cmd = cmdBlockErase2
  · rw [if_pos herase2, if_pos herase2]
    by_cases hwp : ctl.wp = true
    · rw [if_pos hwp, if_pos hwp]
      obtain ⟨s', a', hrun, hrun', hagrees, hcmd, hpins⟩ := blkErase_agrees
        (s := ⟨{ ctl with addr := ctl.addr <<< (if c.samsungLp then 16 else 8) % 2 ^ 32 }, store, io, p⟩)
        (a := ⟨{ ctl with addr := ctl.addr <<< (if c.samsungLp then 16 else 8) % 2 ^ 32 }, content, io', p'⟩)
        ⟨rfl, hholds, hlayout, hwindow, hin⟩ (herase herase2 hwp)
      exact ⟨s', a', hrun, hrun', hagrees, .inl hcmd, hpins⟩
    · rw [if_neg hwp, if_neg hwp]
      exact ⟨_, _, rfl, rfl, ⟨rfl, hholds, hlayout, hwindow, hin⟩, .inl rfl, rfl, rfl⟩
  rw [if_neg herase2, if_neg herase2]
  by_cases hstatus : ctl.cmd = cmdReadStatus
  · rw [if_pos hstatus, if_pos hstatus]
    exact ⟨_, _, rfl, rfl, ⟨rfl, hholds, hlayout, hid (fun _ => ctl.status) 1, fun _ => hsmall 1 (by decide)⟩, .inl rfl, rfl, rfl⟩
  rw [if_neg hstatus, if_neg hstatus]
  exact ⟨_, _, rfl, rfl, h, .inl rfl, rfl, rfl⟩

theorem nandCommand_program1 {σ : Type} {b : Backend σ} {s : NandFlash σ} (h : s.cmd = cmdPageProgram1) :
    nandCommand c b s = some { s with ioaddr := 0, iolen := 0 } := by
  unfold nandCommand
  rw [h]
  rfl

theorem immediate_agrees (h : Agrees c split s a) (hready : Ready c split s a) :
    ∃ s' a', (if isImmediate s.cmd then nandCommand c (device c) s else some s) = some s' ∧
      (if isImmediate a.cmd then nandCommand c (plain c) a else some a) = some a' ∧ Agrees c split s' a' ∧
      (s'.cmd = s.cmd ∨ s'.cmd = cmdRead0) ∧ s'.cle = s.cle ∧ s'.ale = s.ale := by
  have hcmd : s.cmd = a.cmd := congrArg Control.cmd h.control
  by_cases himm : isImmediate s.cmd
  · rw [if_pos himm, if_pos (hcmd ▸ himm)]
    exact nandCommand_agrees h hready
  · rw [if_neg himm, if_neg (hcmd ▸ himm)]
    exact ⟨s, a, rfl, rfl, h, .inl rfl, rfl, rfl⟩

/-! ### Cycles -/

theorem pointer_eq {offset : ℕ} (h : (pointer c value offset).1 ≠ cmdRead0) : pointer c value offset = (value, offset) := by
  unfold pointer at h ⊢
  split_ifs at h ⊢ with hread0
  · exact absurd hread0 h
  · exact absurd rfl h
  · exact absurd rfl h
  · rfl

theorem cycles_pos (c : Config) : 0 < c.cycles := by
  unfold Config.cycles
  split_ifs <;> decide

theorem commandCycle_agrees (h : Agrees c split s a) (hbuf : Buffered c s a) (hce : ¬ s.ce = true ∧ s.cle = true)
    (hpermitted : Permitted c s.toControl (.setio value)) (hsplit : split = true → KeepsSplit c a (.setio value)) :
    ∃ s' a', commandCycle c (device c) value s = some s' ∧ commandCycle c (plain c) value a = some a' ∧
      Agrees c split s' a' ∧ ¬ Programming c s'.toControl ∧ s'.cle = s.cle ∧ s'.ale = s.ale := by
  obtain ⟨ctl, store, io, p⟩ := s
  obtain ⟨ctl', content, io', p'⟩ := a
  obtain rfl : ctl = ctl' := h.control
  obtain ⟨-, hholds, hlayout, hwindow, hin⟩ := h
  obtain ⟨hprogram, hread, -, -⟩ := hpermitted
  dsimp only at hwindow hin hce
  have hkeep : Agrees c split
      ⟨{ ctl with cmd := (pointer c value ctl.offset).1, offset := (pointer c value ctl.offset).2 }, store, io, p⟩
      ⟨{ ctl with cmd := (pointer c value ctl.offset).1, offset := (pointer c value ctl.offset).2 }, content, io', p'⟩ :=
    ⟨rfl, hholds, hlayout, hwindow, hin⟩
  -- where the command has an effect of its own it is the byte itself
  have hvalue : ∀ cmd, cmd ≠ cmdRead0 → (pointer c value ctl.offset).1 = cmd → value = cmd ∧ (pointer c value ctl.offset).2 = ctl.offset := by
    intro cmd hne heq
    have hself := pointer_eq (heq ▸ hne)
    rw [hself] at heq ⊢
    exact ⟨heq, rfl⟩
  obtain ⟨s', a', hrun, hrun', hagrees, -, hpins⟩ := immediate_agrees hkeep {
    program := fun hcmd hwp => by
      obtain ⟨hval, hoff⟩ := hvalue _ (by decide) hcmd
      obtain ⟨hprog, hlen⟩ := hprogram hce hval hwp
      dsimp only at hcmd hwp ⊢
      rw [hoff]
      exact ⟨hbuf hprog, hlen, fun hs => (hsplit hs hce hwp).1 hval⟩
    read := fun hlp hcmd => hread hce hlp
      (hcmd.imp (fun hcmd => (hvalue _ (by decide) hcmd).1) fun hcmd => (hvalue _ (by decide) hcmd).1)
    erase := fun hcmd hwp hs p hp k hk => (hsplit hs hce hwp).2 (hvalue _ (by decide) hcmd).1 p k hp hk }
  unfold commandCycle
  dsimp only at hrun hrun' ⊢
  rw [hrun, hrun']
  obtain ⟨ctl₁, store₁, io₁, p₁⟩ := s'
  obtain ⟨ctl₁', content₁, io₁', p₁'⟩ := a'
  obtain rfl : ctl₁ = ctl₁' := hagrees.control
  by_cases hrandom : ctl₁.cmd = cmdRandomRead2
  · refine ⟨_, _, rfl, rfl, ?_⟩
    dsimp only
    rw [if_neg (not_not.2 hrandom), if_neg (not_not.2 hrandom)]
    refine ⟨hagrees, fun hprog => ?_, hpins⟩
    exact absurd (hrandom.symm.trans hprog.1) (by decide)
  · refine ⟨_, _, rfl, rfl, ?_⟩
    dsimp only
    rw [if_pos hrandom, if_pos hrandom]
    obtain ⟨-, hholds, hlayout, hwindow, hin⟩ := hagrees
    exact ⟨⟨rfl, hholds, hlayout, hwindow, hin⟩, fun hprog => absurd hprog.2 (Nat.not_le_of_gt (cycles_pos c)), hpins⟩

variable (value) in
theorem addressCycle_agrees (h : Agrees c split s a) (hbuf : Buffered c s a) (hale : s.ale = true) :
    ∃ s' a', addressCycle c (device c) value s = some s' ∧ addressCycle c (plain c) value a = some a' ∧
      Agrees c split s' a' ∧ Buffered c s' a' ∧ s'.ale = true := by
  obtain ⟨ctl, store, io, p⟩ := s
  obtain ⟨ctl', content, io', p'⟩ := a
  obtain rfl : ctl = ctl' := h.control
  obtain ⟨-, hholds, hlayout, hwindow, hin⟩ := h
  unfold addressCycle
  dsimp only at hwindow hin hale ⊢
  rw [if_pos hale, if_pos hale]
  generalize (ctl.addr ||| value.toNat <<< (ctl.addrlen * 8)) % 2 ^ 32 = addr
  have hkeep : Agrees c split ⟨{ ctl with addr := addr, addrlen := ctl.addrlen + 1 }, store, io, p⟩
      ⟨{ ctl with addr := addr, addrlen := ctl.addrlen + 1 }, content, io', p'⟩ := ⟨rfl, hholds, hlayout, hwindow, hin⟩
  have hready : ∀ cmds : List UInt8, ctl.cmd ∈ cmds → cmdPageProgram2 ∉ cmds → cmdRandomRead2 ∉ cmds → cmdNoSerialRead2 ∉ cmds →
      cmdBlockErase2 ∉ cmds → Ready c split ⟨{ ctl with addr := addr, addrlen := ctl.addrlen + 1 }, store, io, p⟩
        ⟨{ ctl with addr := addr, addrlen := ctl.addrlen + 1 }, content, io', p'⟩ := by
    intro cmds hmem hprogram hrandom hserial herase
    exact ⟨fun heq => absurd (heq ▸ hmem) hprogram, fun _ heq => heq.elim (fun heq => absurd (heq ▸ hmem) hrandom)
      fun heq => absurd (heq ▸ hmem) hserial, fun heq => absurd (heq ▸ hmem) herase⟩
  have hother : ∀ {s' : NandFlash Store} {a' : NandFlash Content}, s'.cmd ≠ cmdPageProgram1 → Buffered c s' a' :=
    fun hne hprog => absurd hprog.1 hne
  by_cases hid : ctl.addrlen + 1 = 1 ∧ ctl.cmd = cmdReadId
  · rw [if_pos hid, if_pos hid]
    obtain ⟨s', a', hrun, hrun', hagrees, hcmd, -, hpin⟩ := nandCommand_agrees hkeep
      (hready [cmdReadId] (List.mem_singleton.2 hid.2) (by decide) (by decide) (by decide) (by decide))
    refine ⟨s', a', hrun, hrun', hagrees, hother ?_, hpin.trans hale⟩
    rcases hcmd with heq | heq
    · rw [heq]
      dsimp only
      rw [hid.2]
      decide
    · rw [heq]
      decide
  rw [if_neg hid, if_neg hid]
  by_cases hlast : ctl.addrlen + 1 = c.cycles ∧ (ctl.cmd = cmdRead0 ∨ ctl.cmd = cmdPageProgram1)
  · rw [if_pos hlast, if_pos hlast]
    rcases hlast.2 with hcmd | hcmd
    · obtain ⟨s', a', hrun, hrun', hagrees, hcmd', -, hpin⟩ := nandCommand_agrees hkeep
        (hready [cmdRead0] (List.mem_singleton.2 hcmd) (by decide) (by decide) (by decide) (by decide))
      refine ⟨s', a', hrun, hrun', hagrees, hother ?_, hpin.trans hale⟩
      have heq : s'.cmd = cmdRead0 := hcmd'.elim (fun heq => heq.trans hcmd) id
      rw [heq]
      decide
    · rw [nandCommand_program1 hcmd, nandCommand_program1 hcmd]
      exact ⟨_, _, rfl, rfl, ⟨rfl, hholds, hlayout, fun k hk => absurd hk (Int.not_lt.2 (Int.natCast_nonneg k)), nofun⟩,
        fun _ => ⟨rfl, rfl, le_rfl⟩, hale⟩
  rw [if_neg hlast, if_neg hlast]
  refine ⟨_, _, rfl, rfl, hkeep, fun hprog => hbuf ⟨hprog.1, ?_⟩, hale⟩
  have hne : ctl.addrlen + 1 ≠ c.cycles := fun heq => hlast ⟨heq, .inr hprog.1⟩
  exact Nat.le_of_lt_succ (lt_of_le_of_ne hprog.2 hne.symm)

theorem dataCycle_agrees (h : Agrees c split s a) (hbuf : Buffered c s a)
    (hdata : ¬ s.cle = true ∧ ¬ s.ale = true → (s.cmd = cmdPageProgram1 → Programming c s.toControl) ∧ s.cmd ≠ cmdCopybackPrg1) :
    ∃ s' a', dataCycle c value s = some s' ∧ dataCycle c value a = some a' ∧ Agrees c split s' a' ∧ Buffered c s' a' := by
  obtain ⟨ctl, store, io, p⟩ := s
  obtain ⟨ctl', content, io', p'⟩ := a
  obtain rfl : ctl = ctl' := h.control
  obtain ⟨-, hholds, hlayout, hwindow, hin⟩ := id h
  unfold dataCycle
  dsimp only at hwindow hin hdata ⊢
  by_cases hprogram : ¬ ctl.cle = true ∧ ¬ ctl.ale = true ∧ ctl.cmd = cmdPageProgram1
  · have hprog := (hdata ⟨hprogram.1, hprogram.2.1⟩).1 hprogram.2.2
    obtain ⟨hp, hp', hpos⟩ := hbuf hprog
    dsimp only at hp hp' hpos
    subst hp hp'
    rw [if_pos hprogram, if_pos hprogram]
    by_cases hroom : ctl.iolen < c.recordSize
    · rw [if_pos hroom, if_pos hroom, if_neg (not_lt.2 hpos), if_neg (not_lt.2 hpos)]
      have hrecord := recordSize_le c
      refine ⟨_, _, rfl, rfl, ⟨rfl, hholds, hlayout, fun k hk => ?_, fun _ => ?_⟩, fun _ => ⟨rfl, rfl, ?_⟩⟩
      · dsimp only at hk ⊢
        unfold Bytes.write
        by_cases hlast : ctl.iolen.toNat ≤ 0 + k ∧ 0 + k < ctl.iolen.toNat + 1
        · rw [if_pos hlast, if_pos hlast]
        · rw [if_neg hlast, if_neg hlast]
          exact hwindow k (by omega)
      · unfold ioSize
        dsimp only
        omega
      · dsimp only
        omega
    · rw [if_neg hroom, if_neg hroom]
      exact ⟨_, _, rfl, rfl, h, hbuf⟩
  · have hcopyback : ¬ (¬ ctl.cle = true ∧ ¬ ctl.ale = true ∧ ctl.cmd = cmdCopybackPrg1) :=
      fun hc => (hdata ⟨hc.1, hc.2.1⟩).2 hc.2.2
    rw [if_neg hprogram, if_neg hprogram, if_neg hcopyback, if_neg hcopyback]
    exact ⟨_, _, rfl, rfl, h, hbuf⟩

theorem addressData_agrees (h : Agrees c split s a) (hbuf : Buffered c s a)
    (hdata : ¬ s.cle = true ∧ ¬ s.ale = true → (s.cmd = cmdPageProgram1 → Programming c s.toControl) ∧ s.cmd ≠ cmdCopybackPrg1) :
    ∃ s' a', (addressCycle c (device c) value s).bind (dataCycle c value) = some s' ∧
      (addressCycle c (plain c) value a).bind (dataCycle c value) = some a' ∧ Agrees c split s' a' ∧ Buffered c s' a' := by
  by_cases hale : s.ale = true
  · obtain ⟨s₁, a₁, hrun, hrun', h₁, hbuf₁, hale₁⟩ := addressCycle_agrees value h hbuf hale
    rw [hrun, hrun', Option.bind_some, Option.bind_some]
    exact dataCycle_agrees h₁ hbuf₁ fun hpins => absurd hale₁ hpins.2
  · have hale' : ¬ a.ale = true := congrArg Control.ale h.control ▸ hale
    rw [addressCycle, if_neg hale, addressCycle, if_neg hale', Option.bind_some, Option.bind_some]
    exact dataCycle_agrees h hbuf hdata

theorem nandSetio_agrees (h : Agrees c split s a) (hbuf : Buffered c s a) (hpermitted : Permitted c s.toControl (.setio value))
    (hsplit : split = true → KeepsSplit c a (.setio value)) :
    ∃ s' a', nandSetio c (device c) value s = some s' ∧ nandSetio c (plain c) value a = some a' ∧
      Agrees c split s' a' ∧ Buffered c s' a' := by
  obtain ⟨ctl, store, io, p⟩ := s
  obtain ⟨ctl', content, io', p'⟩ := a
  obtain rfl : ctl = ctl' := h.control
  unfold nandSetio
  dsimp only
  by_cases hce : ¬ ctl.ce = true ∧ ctl.cle = true
  · rw [if_pos hce, if_pos hce]
    by_cases hlarge : c.samsungLp = true ∧ ctl.cmd = cmdRead0 ∧ value = cmdLpRead2
    · rw [if_pos hlarge, if_pos hlarge]
      exact ⟨_, _, rfl, rfl, h, hbuf⟩
    rw [if_neg hlarge, if_neg hlarge]
    by_cases hrandom : c.samsungLp = true ∧ value = cmdRandomRead1
    · rw [if_pos hrandom, if_pos hrandom]
      obtain ⟨-, hholds, hlayout, hwindow, hin⟩ := h
      exact ⟨_, _, rfl, rfl, ⟨rfl, hholds, hlayout, hwindow, hin⟩, fun hprog => absurd hprog.2 (Nat.not_le_of_gt (cycles_pos c))⟩
    rw [if_neg hrandom, if_neg hrandom]
    obtain ⟨s₁, a₁, hrun, hrun', h₁, hprog, hcle, -⟩ := commandCycle_agrees h hbuf hce hpermitted hsplit
    rw [hrun, hrun', Option.bind_some, Option.bind_some]
    exact addressData_agrees h₁ (fun hp => absurd hp hprog) fun hpins => absurd (hcle.trans hce.2) hpins.1
  · rw [if_neg hce, if_neg hce]
    exact addressData_agrees h hbuf hpermitted.2.2.2

theorem sequentialLoad_agrees (h : Agrees c split s a) (hbuf : Buffered c s a) (hpermitted : Permitted c s.toControl .getio) :
    ∃ s' a', sequentialLoad c (device c) s = some s' ∧ sequentialLoad c (plain c) a = some a' ∧ Agrees c split s' a' ∧
      Buffered c s' a' ∧ (Programming c s'.toControl → s'.ce = true ∨ s'.iolen ≤ 0) := by
  obtain ⟨ctl, store, io, p⟩ := s
  obtain ⟨ctl', content, io', p'⟩ := a
  obtain rfl : ctl = ctl' := h.control
  obtain ⟨hload, hidle⟩ := hpermitted
  obtain ⟨-, hholds, hlayout, hwindow, hin⟩ := id h
  unfold sequentialLoad
  dsimp only at hload hwindow hin ⊢
  by_cases hread : ctl.iolen = 0 ∧ ctl.cmd = cmdRead0
  · obtain ⟨hpage, hoff⟩ := hload hread
    have hrecord := recordSize_le c
    have hpart : c.recordSize = c.pageSize.pageSize + c.pageSize.oobSize := rfl
    have hagree : Agrees c split ⟨{ ctl with offset := 0 }, store, io, p⟩ ⟨{ ctl with offset := 0 }, content, io', p'⟩ :=
      ⟨rfl, hholds, hlayout, hwindow, hin⟩
    obtain ⟨io₁, p₁, hrun, hrun', hfit, hbytes⟩ := blkLoad_agrees hagree hpage
      (show c.pageSize.column ctl.addr ≤ c.recordSize by omega) hoff
    have hlen : ((if ctl.gnd = true then c.pageSize.pageSize else c.recordSize : ℕ) : ℤ) ≤ c.recordSize := by
      split_ifs <;> omega
    rw [if_pos hread, if_pos hread]
    show ∃ s' a', ((blkLoad c _ _ _).map _) = some s' ∧ (((plain c).blkLoad _ _ _).map _) = some a' ∧ _
    rw [hrun, hrun']
    refine ⟨_, _, rfl, rfl, ⟨rfl, hholds, hlayout, fun k hk => ?_, fun _ => ?_⟩, fun hprog => ?_, fun hprog => ?_⟩
    · dsimp only at hk ⊢
      rw [Nat.zero_add]
      exact hbytes k (by push_cast at hk; omega)
    · unfold ioSize at hfit ⊢
      dsimp only at hfit ⊢
      push_cast
      omega
    · exact absurd (hread.2.symm.trans hprog.1) (by decide)
    · exact absurd (hread.2.symm.trans hprog.1) (by decide)
  · rw [if_neg hread, if_neg hread]
    exact ⟨_, _, rfl, rfl, h, hbuf, hidle⟩

theorem nandGetio_agrees (h : Agrees c split s a) (hbuf : Buffered c s a) (hpermitted : Permitted c s.toControl .getio) :
    ∃ s' a' byte, nandGetio c (device c) s = some (s', byte) ∧ nandGetio c (plain c) a = some (a', byte) ∧
      Agrees c split s' a' ∧ Buffered c s' a' := by
  obtain ⟨s₁, a₁, hrun, hrun', h₁, hbuf₁, hidle⟩ := sequentialLoad_agrees h hbuf hpermitted
  unfold nandGetio
  rw [hrun, hrun', Option.bind_some, Option.bind_some]
  obtain ⟨ctl, store, io, p⟩ := s₁
  obtain ⟨ctl', content, io', p'⟩ := a₁
  obtain rfl : ctl = ctl' := h₁.control
  obtain ⟨-, hholds, hlayout, hwindow, hin⟩ := id h₁
  dsimp only at hidle hwindow hin ⊢
  by_cases hnone : ctl.ce = true ∨ ctl.iolen ≤ 0
  · rw [if_pos hnone, if_pos hnone]
    exact ⟨_, _, _, rfl, rfl, h₁, hbuf₁⟩
  · rw [if_neg hnone, if_neg hnone]
    have hpos : 0 < ctl.iolen := not_le.1 fun hle => hnone (.inr hle)
    obtain ⟨hin, hin'⟩ := hin hpos
    rw [if_neg (by omega), if_neg (by omega)]
    have hbyte := hwindow 0 hpos
    rw [Nat.add_zero, Nat.add_zero] at hbyte
    rw [hbyte]
    refine ⟨_, _, _, rfl, rfl, ⟨rfl, hholds, hlayout, fun k hk => ?_, fun _ => ?_⟩, fun hprog => absurd (hidle hprog) hnone⟩
    · have hnext := hwindow (k + 1) (by dsimp only at hk; push_cast; omega)
      dsimp only
      rw [Nat.add_right_comm p 1 k, Nat.add_right_comm p' 1 k]
      exact hnext
    · dsimp only
      push_cast
      omega

/-! ### Runs -/

/-- What a call of a run meets: it is part of a read, a program or an erase, and it is one that the layout
takes with the spare areas apart. -/
def CallMeets (c : Config) (split : Bool) (a : NandFlash Content × List UInt8) (call : Call) : Prop :=
  Permitted c a.1.toControl call ∧ (split = true → KeepsSplit c a.1 call)

theorem step_agrees (h : Agrees c split s a) (hbuf : Buffered c s a) {out : List UInt8} {call : Call}
    (hmeets : CallMeets c split (a, out) call) :
    ∃ s' a' out', step c (device c) (s, out) call = some (s', out') ∧ step c (plain c) (a, out) call = some (a', out') ∧
      Agrees c split s' a' ∧ Buffered c s' a' := by
  obtain ⟨hpermitted, hsplit⟩ := hmeets
  dsimp only at hpermitted hsplit
  rw [← h.control] at hpermitted
  cases call with
  | setpins cle ale ce wp gnd =>
    obtain ⟨ctl, store, io, p⟩ := s
    obtain ⟨ctl', content, io', p'⟩ := a
    obtain rfl : ctl = ctl' := h.control
    obtain ⟨-, hholds, hlayout, hwindow, hin⟩ := h
    exact ⟨_, _, _, rfl, rfl, ⟨rfl, hholds, hlayout, hwindow, hin⟩, hbuf⟩
  | setio value =>
    obtain ⟨s', a', hrun, hrun', h', hbuf'⟩ := nandSetio_agrees h hbuf hpermitted hsplit
    unfold step
    dsimp only
    rw [hrun, hrun']
    exact ⟨s', a', out, rfl, rfl, h', hbuf'⟩
  | getio =>
    obtain ⟨s', a', byte, hrun, hrun', h', hbuf'⟩ := nandGetio_agrees h hbuf hpermitted
    unfold step
    dsimp only
    rw [hrun, hrun']
    exact ⟨s', a', out ++ [byte], rfl, rfl, h', hbuf'⟩

theorem run_agrees (calls : List Call) (h : Agrees c split s a) (hbuf : Buffered c s a) {out : List UInt8}
    (hmeets : MeetsM (step c (plain c)) (CallMeets c split) (a, out) calls) :
    ∃ s' a' out', calls.foldlM (step c (device c)) (s, out) = some (s', out') ∧
      calls.foldlM (step c (plain c)) (a, out) = some (a', out') ∧ Agrees c split s' a' := by
  induction calls generalizing s a out with
  | nil => exact ⟨s, a, out, rfl, rfl, h⟩
  | cons call calls ih =>
    obtain ⟨hcall, hcalls⟩ := hmeets
    obtain ⟨s₁, a₁, out₁, hrun, hrun', h₁, hbuf₁⟩ := step_agrees h hbuf hcall
    obtain ⟨s', a', out', hfold, hfold', h'⟩ := ih h₁ hbuf₁ (hcalls _ hrun')
    refine ⟨s', a', out', ?_, ?_, h'⟩
    · rw [List.foldlM_cons, hrun]
      exact hfold
    · rw [List.foldlM_cons, hrun']
      exact hfold'

/-- Every layout that holds a content returns the bytes of the content in every run of reads, programs and
erases, and holds the content that they leave. -/
theorem nand_layout_agrees (c : Config) (store : Store) (content : Content) (hholds : store.Holds c content) (calls : List Call)
    (hmeets : MeetsM (step c (plain c)) (CallMeets c store.isSplit) (init content, []) calls) :
    ∃ s a out, calls.foldlM (step c (device c)) (init store, []) = some (s, out) ∧
      calls.foldlM (step c (plain c)) (init content, []) = some (a, out) ∧ s.store.Holds c a.store := by
  have hnone : ∀ k : ℕ, ¬ (k : ℤ) < 0 := fun k => by omega
  have hagree : Agrees c store.isSplit (init store) (init content) :=
    ⟨rfl, hholds, rfl, fun k hk => absurd hk (hnone k), nofun⟩
  obtain ⟨s, a, out, hrun, hrun', h⟩ := run_agrees calls hagree (fun _ => ⟨rfl, rfl, le_rfl⟩) hmeets
  exact ⟨s, a, out, hrun, hrun', h.holds⟩

instance (c : Config) (a : NandFlash Content × List UInt8) (call : Call) : Decidable (CallMeets c false a call) :=
  decidable_of_iff (Permitted c a.1.toControl call) ⟨fun h => ⟨h, nofun⟩, And.left⟩

def smallPages : Config := ⟨.p512, 5, 32768, 0xec, 0x73, by decide, by decide, by decide, by decide⟩

def commandCalls (cmd : UInt8) (addr : List UInt8) : List Call :=
  [.setpins true false false true false, .setio cmd, .setpins false true false true false] ++ addr.map .setio

/-- A program of the first page from its second half on, and a read of it. -/
def programCalls : List Call :=
  commandCalls 0x01 [] ++ commandCalls 0x80 [0, 0, 0] ++ [.setpins false false false true false, .setio 0x12, .setio 0x34] ++
    commandCalls 0x10 [] ++ commandCalls 0x01 [0, 0, 0] ++ [.setpins false false false true false, .getio, .getio]

theorem nand_layout_agrees_program : (Store.ram fun _ => 0xff).Holds smallPages (fun _ _ => 0xff) ∧
    ∃ s a out, programCalls.foldlM (step smallPages (device smallPages)) (init (.ram fun _ => 0xff), []) = some (s, out) ∧
      programCalls.foldlM (step smallPages (plain smallPages)) (init fun _ _ => 0xff, []) = some (a, out) ∧
      s.store.Holds smallPages a.store :=
  ⟨fun _ _ _ _ => rfl, nand_layout_agrees smallPages (.ram fun _ => 0xff) (fun _ _ => 0xff) (fun _ _ _ _ => rfl) programCalls
    (show MeetsM _ (CallMeets smallPages false) _ _ by decide +kernel)⟩

/-- An erase of the first block, and a read of its first byte. -/
def eraseCalls : List Call :=
  commandCalls 0x60 [0, 0] ++ commandCalls 0xd0 [] ++ commandCalls 0x00 [0, 0, 0] ++ [.setpins false false false true false, .getio]

/-- With the spare areas apart an erase leaves the pages as they are. -/
theorem nand_split_not_erased : ¬ ∀ (c : Config) (store : Store) (content : Content), store.Holds c content → ∀ calls : List Call,
    MeetsM (step c (plain c)) (fun a => Permitted c a.1.toControl) (init content, []) calls →
    ∃ s a out, calls.foldlM (step c (device c)) (init store, []) = some (s, out) ∧
      calls.foldlM (step c (plain c)) (init content, []) = some (a, out) := by
  intro h
  obtain ⟨s, a, out, hrun, hrun'⟩ := h smallPages (.split (fun _ => 0) fun _ => 0) (fun _ _ => 0)
    (fun _ _ => ⟨fun _ _ => rfl, fun _ _ => rfl⟩) eraseCalls (by decide +kernel)
  have hzero : (eraseCalls.foldlM (step smallPages (device smallPages)) (init (.split (fun _ => 0) fun _ => 0), [])).map (·.2) =
      some [0] := by decide +kernel
  have hff : (eraseCalls.foldlM (step smallPages (plain smallPages)) (init fun _ _ => 0, [])).map (·.2) = some [0xff] := by
    decide +kernel
  rw [hrun] at hzero
  rw [hrun'] at hff
  exact absurd (hzero.symm.trans hff) (by decide)

end Ar7Qemu.Nand
