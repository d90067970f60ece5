import Ar7Qemu.Lib.Run
import Ar7Qemu.Hw.PflashCfi01

/-! When the flash of `pflash_cfi01.c` keeps the Intel command protocol. The command register says
which write came last, so a change of the storage is the data of a program or the confirmation of an
erase; it is made at the offset that the guest addressed where the subtraction of the base changes
nothing. -/

namespace Ar7Qemu.PflashCfi01

open Lib

variable {c : Config} {s p : Pflash} {h : List Cycle} {k : Cycle}

/-! ### Offsets -/

theorem sub32_of_base_zero {a b : ℕ} (ha : a < 2 ^ 32) (hb : b % 2 ^ 32 = 0) : sub32 a b = a := by
  unfold sub32
  rw [hb, Nat.mod_eq_of_lt ha, Nat.sub_zero, Nat.add_mod_right, Nat.mod_eq_of_lt ha]

theorem offset_lt (a : Access c) : a.offset < 2 ^ 32 := by
  have hle : c.totalLen ≤ 2 ^ 26 := Nat.pow_le_pow_right (by decide) c.le_64_mib
  have hlt := a.inside
  omega

theorem unit_dvd_totalLen {n : ℕ} (hn : n ≤ 21) : 2 ^ n ∣ c.totalLen :=
  Nat.pow_dvd_pow 2 (hn.trans c.two_mib_le)

theorem access_le {a : Access c} (hal : a.width.bytes ∣ a.offset) : a.offset + a.width.bytes ≤ c.totalLen := by
  have hdvd : a.width.bytes ∣ c.totalLen := by
    cases a.width with
    | b => exact @unit_dvd_totalLen c 0 (by decide)
    | w => exact @unit_dvd_totalLen c 1 (by decide)
    | l => exact @unit_dvd_totalLen c 2 (by decide)
  obtain ⟨n, hn⟩ := hal
  obtain ⟨m, hm⟩ := hdvd
  have hlt := a.inside
  rw [hn, hm] at hlt ⊢
  calc a.width.bytes * n + a.width.bytes = a.width.bytes * (n + 1) := (Nat.mul_succ _ _).symm
    _ ≤ a.width.bytes * m := Nat.mul_le_mul_left _ (Nat.lt_of_mul_lt_mul_left hlt)

theorem sector_start (c : Config) (offset : ℕ) :
    offset - (offset &&& (c.sectorLen - 1)) = offset / c.sectorLen * c.sectorLen := by
  have hand : offset &&& (c.sectorLen - 1) = offset % c.sectorLen := Nat.and_two_pow_sub_one_eq_mod _ _
  have hdiv := Nat.div_add_mod offset c.sectorLen
  rw [hand, Nat.mul_comm]
  omega

theorem sector_le {offset : ℕ} (hlt : offset < c.totalLen) :
    offset / c.sectorLen * c.sectorLen + c.sectorLen ≤ c.totalLen := by
  have htotal : c.totalLen = c.nbBlocs * c.sectorLen := by
    unfold Config.totalLen Config.nbBlocs Config.sectorLen
    rw [← Nat.pow_add, Nat.sub_add_cancel c.sector_le]
  have hpos : 0 < c.sectorLen := Nat.two_pow_pos _
  rw [htotal] at hlt ⊢
  rw [← Nat.succ_mul]
  exact Nat.mul_le_mul_right _ ((Nat.div_lt_iff_lt_mul hpos).2 hlt)

/-! ### Writing back -/

/-- The block device agrees with the storage. -/
def Mirrored (c : Config) (p : Pflash) : Prop := ∀ disk, p.bs = some disk → Bytes.Mirrors disk p.storage c.totalLen

theorem pflashUpdate_spec {ok : Bool} {off n : ℕ} {storage : Bytes} (hm : Mirrored c s)
    (hok : s.bs ≠ none → ok = true) (hend : off + n ≤ c.totalLen) (hsame : Bytes.SameOutside storage s.storage off n) :
    ∃ bs, pflashUpdate c ok off n { s with storage := storage } = some { s with storage := storage, bs := bs } ∧
      ∀ disk, bs = some disk → Bytes.Mirrors disk storage c.totalLen := by
  unfold pflashUpdate
  dsimp only
  cases hbs : s.bs with
  | none => exact ⟨none, rfl, fun disk hdisk => by cases hdisk⟩
  | some disk =>
    dsimp only
    have hunits : 512 ∣ c.totalLen := @unit_dvd_totalLen c 9 (by decide)
    rw [if_pos (Bytes.unit_end_le (by decide) hunits hend), if_pos (hok (by rw [hbs]; exact Option.some_ne_none _))]
    refine ⟨_, rfl, fun disk' hdisk' => ?_⟩
    cases hdisk'
    exact (hm disk hbs).writeBack (by decide) hsame

/-! ### The write that came last -/

/-- What the command says of the writes. -/
structure Tracked (p : Pflash) (h : List Cycle) : Prop where
  known : p.cmd ∈ ([0x00, 0x01, 0x28, 0x40, 0x60, 0x70, 0x90, 0x98, 0xd0] : List UInt8)
  program : programPending h = true ↔ p.cmd = 0x40
  io : p.cmd = 0x40 → p.rom = false
  erase : p.rom = false → p.cmd = 0x28 → erasePending h = true

/-- What a write may leave. -/
structure Outcome (c : Config) (s p : Pflash) (h : List Cycle) : Prop where
  tracked : Tracked p h
  changes : p.storage = s.storage ∨ Programs c h s.storage p.storage ∨ Erases c h s.storage p.storage
  mirrored : Mirrored c p

theorem Outcome.quiet (hm : Mirrored c s) (ht : Tracked p h) (hst : p.storage = s.storage) (hbs : p.bs = s.bs) :
    Outcome c s p h := by
  refine ⟨ht, .inl hst, fun disk hdisk => ?_⟩
  rw [hst]
  exact hm disk (hbs.symm.trans hdisk)

theorem programPending_cons_eq_false (h₁ : k.cmd ≠ 0x10) (h₂ : k.cmd ≠ 0x40) : programPending (k :: h) = false := by
  simp [programPending, h₁, h₂]

theorem programPending_data (hp : programPending h = true) : programPending (k :: h) = false := by
  simp [programPending, hp]

theorem tracked_idle (cmd : UInt8) (hcmd : p.cmd = cmd) (hknown : cmd ∈ ([0x00, 0x01, 0x60, 0x70, 0x90, 0x98, 0xd0] : List UInt8))
    (hpending : programPending h = false) : Tracked p h := by
  have hne : cmd ≠ 0x40 ∧ cmd ≠ 0x28 ∧ cmd ∈ ([0x00, 0x01, 0x28, 0x40, 0x60, 0x70, 0x90, 0x98, 0xd0] : List UInt8) := by
    simp only [List.mem_cons, List.not_mem_nil, or_false] at hknown
    rcases hknown with rfl | rfl | rfl | rfl | rfl | rfl | rfl <;> decide
  refine ⟨hcmd ▸ hne.2.2, ?_, fun h40 => absurd (hcmd.symm.trans h40) hne.1, fun _ h28 => absurd (hcmd.symm.trans h28) hne.2.1⟩
  rw [hpending]
  exact iff_of_false (by decide) fun h40 => hne.1 (hcmd.symm.trans h40)

theorem tracked_program (hcmd : p.cmd = 0x40) (hrom : p.rom = false) (hpending : programPending h = true) : Tracked p h :=
  ⟨by rw [hcmd]; decide, iff_of_true hpending hcmd, fun _ => hrom, fun _ h28 => absurd (hcmd.symm.trans h28) (by decide)⟩

theorem tracked_erase (hcmd : p.cmd = 0x28) (hnone : programPending h = false) (hpending : erasePending h = true) :
    Tracked p h := by
  have hne : p.cmd ≠ 0x40 := by
    rw [hcmd]
    decide
  refine ⟨by rw [hcmd]; decide, ?_, fun h40 => absurd h40 hne, fun _ _ => hpending⟩
  rw [hnone]
  exact iff_of_false (by decide) hne

/-! ### One write -/

theorem outcome_writeData {a : Access c} {value : ℕ} {ok : Bool} (ht : Tracked s h) (hm : Mirrored c s)
    (hcmd : s.cmd = 0x40) (hend : a.offset + a.width.bytes ≤ c.totalLen) (hok : s.bs ≠ none → ok = true) :
    ∃ p, writeData c ok a.offset value a.width.bytes s = some p ∧
      Outcome c s p (⟨a.offset, a.width.bytes, value⟩ :: h) := by
  have hpending : programPending h = true := ht.program.2 hcmd
  unfold writeData
  rw [if_pos hend]
  obtain ⟨bs, hupdate, hmirror⟩ := pflashUpdate_spec hm hok hend
    (Bytes.sameOutside_clear s.storage (Bytes.ofValue c.bigEndian a.width.bytes value) _ _)
  rw [hupdate]
  refine ⟨_, rfl, tracked_idle 0x70 rfl (by decide) (programPending_data hpending), .inr (.inl ?_), hmirror⟩
  exact ⟨_, h, rfl, hpending, rfl⟩

theorem outcome_eraseSector {a : Access c} {value : ℕ} {ok : Bool} (ht : Tracked s h) (hm : Mirrored c s)
    (hrom : s.rom = false) (hcmd : s.cmd = 0x28) (hvalue : UInt8.ofNat value = 0xd0) (hok : s.bs ≠ none → ok = true) :
    ∃ p, eraseSector c ok a.offset s = some p ∧ Outcome c s p (⟨a.offset, a.width.bytes, value⟩ :: h) := by
  have hpending : erasePending h = true := ht.erase hrom hcmd
  have hprogram : programPending (⟨a.offset, a.width.bytes, value⟩ :: h) = false := by
    have hcmd' : (⟨a.offset, a.width.bytes, value⟩ : Cycle).cmd = 0xd0 := hvalue
    apply programPending_cons_eq_false
    · rw [hcmd']
      decide
    · rw [hcmd']
      decide
  unfold eraseSector
  dsimp only
  rw [sector_start, if_pos (sector_le a.inside)]
  obtain ⟨bs, hupdate, hmirror⟩ := pflashUpdate_spec hm hok (sector_le a.inside)
    (Bytes.sameOutside_fill s.storage (a.offset / c.sectorLen * c.sectorLen) c.sectorLen 0xff)
  rw [hupdate]
  refine ⟨_, rfl, tracked_idle 0x70 rfl (by decide) hprogram, .inr (.inr ?_), hmirror⟩
  exact ⟨_, h, rfl, hpending, hvalue, rfl⟩

theorem outcome_romCommand (ht : Tracked s h) (hm : Mirrored c s) (hrom : s.rom = true) (h₁ : k.cmd ≠ 0x10)
    (h₂ : k.cmd ≠ 0x40) : Outcome c s (romCommand k.cmd s) (k :: h) := by
  have hnone := @programPending_cons_eq_false h k h₁ h₂
  have hidle : s.cmd ≠ 0x40 := fun h40 => absurd ((ht.io h40).symm.trans hrom) (by decide)
  unfold romCommand
  split_ifs with herase hother
  · refine .quiet hm (tracked_erase rfl hnone ?_) rfl rfl
    have hprev : programPending h = false := Bool.eq_false_iff.2 fun hp => hidle (ht.program.1 hp)
    simp only [erasePending, hprev]
    rcases herase with hcmd | hcmd <;> rw [hcmd] <;> decide
  · refine .quiet hm (tracked_idle k.cmd rfl ?_ hnone) rfl rfl
    rcases hother with hcmd | hcmd | hcmd | hcmd <;> rw [hcmd] <;> decide
  · refine .quiet hm ⟨ht.known, ?_, ht.io, fun hio => absurd (hrom.symm.trans hio) (by decide)⟩ rfl rfl
    rw [hnone]
    exact iff_of_false (by decide) hidle

theorem writeOffset_eq {a : Access c} (hrom : s.rom = false) (hbase : c.base % 2 ^ 32 = 0) :
    writeOffset c a.offset s = a.offset := by
  unfold writeOffset
  rw [if_neg (Bool.eq_false_iff.1 hrom)]
  exact sub32_of_base_zero (offset_lt a) hbase

theorem pflashWrite_spec {a : Access c} {value : ℕ} {ok : Bool} {t : Sys} (ht : Tracked t.pfl t.cycles)
    (hm : Mirrored c t.pfl) (hsafe : OpSafe c t (.write a value ok)) :
    ∃ p, pflashWrite c ok a.offset value a.width.bytes t.pfl = some p ∧
      Outcome c t.pfl p (⟨a.offset, a.width.bytes, value⟩ :: t.cycles) := by
  obtain ⟨-, hbase, hprog, her⟩ := hsafe
  generalize hk : (⟨a.offset, a.width.bytes, value⟩ : Cycle) = k
  have hcmd : UInt8.ofNat value = k.cmd := by
    rw [← hk]
    rfl
  unfold pflashWrite
  dsimp only
  rw [hcmd]
  by_cases hdata : t.pfl.cmd = 0x40
  · obtain ⟨hend, hok⟩ := hprog hdata
    have hrom := ht.io hdata
    rw [if_pos hdata, writeOffset_eq hrom (hbase hrom), ← hk]
    exact outcome_writeData ht hm hdata hend hok
  rw [if_neg hdata]
  by_cases hreset : k.cmd = 0xff
  · have hnone := @programPending_cons_eq_false t.cycles k (by rw [hreset]; decide) (by rw [hreset]; decide)
    rw [if_pos hreset]
    exact ⟨_, rfl, .quiet hm (tracked_idle 0x00 rfl (by decide) hnone) rfl rfl⟩
  rw [if_neg hreset]
  by_cases hprogram : k.cmd = 0x10 ∨ k.cmd = 0x40
  · rw [if_pos hprogram]
    have hprev : programPending t.cycles = false := Bool.eq_false_iff.2 fun hp => hdata (ht.program.1 hp)
    have hpending : programPending (k :: t.cycles) = true := by
      simp only [programPending, hprev]
      rcases hprogram with hk' | hk' <;> rw [hk'] <;> decide
    exact ⟨_, rfl, .quiet hm (tracked_program rfl rfl hpending) rfl rfl⟩
  rw [if_neg hprogram]
  obtain ⟨h₁, h₂⟩ := not_or.1 hprogram
  have hnone := @programPending_cons_eq_false t.cycles k h₁ h₂
  have hreset : Outcome c t.pfl (resetFlash t.pfl) (k :: t.cycles) :=
    .quiet hm (tracked_idle 0x00 rfl (by decide) hnone) rfl rfl
  by_cases hclear : k.cmd = 0x50
  · rw [if_pos hclear]
    refine ⟨_, rfl, .quiet hm ⟨ht.known, ?_, fun h40 => absurd h40 hdata, fun hio => by cases hio⟩ rfl rfl⟩
    rw [hnone]
    exact iff_of_false (by decide) hdata
  rw [if_neg hclear]
  by_cases hrom : t.pfl.rom = true
  · rw [if_pos hrom]
    exact ⟨_, rfl, outcome_romCommand ht hm hrom h₁ h₂⟩
  rw [if_neg hrom]
  have hio := Bool.eq_false_iff.2 hrom
  by_cases hconfirm : t.pfl.cmd = 0x28 ∧ k.cmd = 0xd0
  · have hvalue := hcmd.trans hconfirm.2
    rw [if_pos hconfirm, writeOffset_eq hio (hbase hio), ← hk]
    exact outcome_eraseSector ht hm hio hconfirm.1 hvalue (her hio hconfirm.1 hvalue)
  rw [if_neg hconfirm]
  split_ifs with hlock hbit
  · refine ⟨_, rfl, .quiet hm (tracked_idle k.cmd rfl ?_ hnone) rfl rfl⟩
    rcases hbit with hk' | hk' <;> rw [hk'] <;> decide
  · exact ⟨_, rfl, hreset⟩
  · exact ⟨_, rfl, hreset⟩

/-! ### Reads -/

/-- A read of the guest gets the array where it is to get it, and leaves the storage. -/
theorem readOutcome_spec {a : Access c} {t : Sys} (ht : Tracked t.pfl t.cycles) (hsafe : OpSafe c t (.read a)) :
    ∃ ret p, readOutcome c a.offset a.width.bytes t.pfl = some (ret, p) ∧ Tracked p t.cycles ∧
      p.storage = t.pfl.storage ∧ p.bs = t.pfl.bs ∧
      (arrayMode t.pfl → ret = Bytes.value false a.width.bytes (t.pfl.storage.drop a.offset)) := by
  obtain ⟨hendian, hio⟩ := hsafe
  unfold readOutcome
  by_cases hrom : t.pfl.rom = true
  · rw [if_pos hrom, hendian (.inl hrom)]
    exact ⟨_, _, rfl, ht, rfl, rfl, fun _ => rfl⟩
  rw [if_neg hrom]
  obtain ⟨hbase, hal, hid⟩ := hio (Bool.eq_false_iff.2 hrom)
  have harray : ¬ arrayMode t.pfl ∨ t.pfl.cmd = 0x00 := by
    by_cases hzero : t.pfl.cmd = 0x00
    · exact .inr hzero
    · exact .inl fun hmode => hmode.elim hrom hzero
  have hdata : t.pfl.cmd = 0x00 ∨ t.pfl.cmd = 0x60 →
      pflashReadData c a.offset a.width.bytes t.pfl =
        some (Bytes.value c.bigEndian a.width.bytes (t.pfl.storage.drop a.offset)) := by
    intro hcmd
    exact if_pos ⟨hal hcmd, access_le (hal hcmd)⟩
  unfold pflashRead
  dsimp only
  rw [sub32_of_base_zero (offset_lt a) hbase]
  split_ifs with hzero hident hb₀ hb₁ hstatus hquery
  · rw [hdata (.inl hzero), hendian (.inr hzero)]
    exact ⟨_, _, rfl, ht, rfl, rfl, fun _ => rfl⟩
  · exact ⟨_, _, rfl, ht, rfl, rfl, fun hmode => absurd hmode (harray.resolve_right hzero)⟩
  · exact ⟨_, _, rfl, ht, rfl, rfl, fun hmode => absurd hmode (harray.resolve_right hzero)⟩
  · exact absurd (Nat.le_one_iff_eq_zero_or_eq_one.1 (hid hident)) (not_or.2 ⟨hb₀, hb₁⟩)
  · exact ⟨_, _, rfl, ht, rfl, rfl, fun hmode => absurd hmode (harray.resolve_right hzero)⟩
  · exact ⟨_, _, rfl, ht, rfl, rfl, fun hmode => absurd hmode (harray.resolve_right hzero)⟩
  · -- only the command of the lock bits is left
    have hlock : t.pfl.cmd = 0x60 := by
      have hknown := ht.known
      simp only [List.mem_cons, List.not_mem_nil, or_false] at hknown
      rcases hknown with hcmd | hcmd | hcmd | hcmd | hcmd | hcmd | hcmd | hcmd | hcmd
      · exact absurd hcmd hzero
      · exact absurd (by rw [hcmd]; decide) hstatus
      · exact absurd (by rw [hcmd]; decide) hstatus
      · exact absurd (by rw [hcmd]; decide) hstatus
      · exact hcmd
      · exact absurd (by rw [hcmd]; decide) hstatus
      · exact absurd hcmd hident
      · exact absurd hcmd hquery
      · exact absurd (by rw [hcmd]; decide) hstatus
    have hnone : programPending t.cycles = false := by
      apply Bool.eq_false_iff.2
      intro hp
      exact absurd (hlock.symm.trans (ht.program.1 hp)) (by decide)
    rw [hdata (.inr hlock)]
    exact ⟨_, _, rfl, tracked_idle 0x00 rfl (by decide) hnone, rfl, rfl,
      fun hmode => absurd hmode (harray.resolve_right hzero)⟩

/-! ### Runs -/

/-- An operation that meets its condition keeps the protocol. -/
theorem right_step {s : Sys} {op : Op c} (hr : Right c s) (ht : Tracked s.pfl s.cycles) (hsafe : OpSafe c s op) :
    Right c (s.step op) ∧ Tracked (s.step op).pfl (s.step op).cycles := by
  cases op with
  | read a =>
    obtain ⟨ret, p, hread, htp, hst, hbs, harray⟩ := readOutcome_spec ht hsafe
    have hstray : (s.stray || (!s.pfl.rom && decide (c.totalLen ≤ sub32 a.offset c.base))) = false := by
      rw [hr.offsets, Bool.false_or]
      by_cases hrom : s.pfl.rom = true
      · rw [hrom]
        rfl
      · rw [sub32_of_base_zero (offset_lt a) (hsafe.2 (Bool.eq_false_iff.2 hrom)).1,
          decide_eq_false (not_le.2 a.inside), Bool.and_false]
    dsimp only [Sys.step]
    rw [hread]
    refine ⟨⟨hr.inside, hstray, ?_, .inl hst, fun disk hdisk => ?_⟩, htp⟩
    · dsimp only
      split_ifs with hmode
      · exact harray hmode
      · rfl
    · show Bytes.Mirrors disk p.storage c.totalLen
      rw [hst]
      exact hr.mirrors disk (hbs.symm.trans hdisk)
  | write a value ok =>
    obtain ⟨p, hwrite, hout⟩ := pflashWrite_spec ht hr.mirrors hsafe
    have hoffset : writeOffset c a.offset s.pfl < c.totalLen := by
      by_cases hrom : s.pfl.rom = true
      · unfold writeOffset
        rw [if_pos hrom]
        exact hsafe.1 hrom
      · have hio := Bool.eq_false_iff.2 hrom
        rw [writeOffset_eq hio (hsafe.2.1 hio)]
        exact a.inside
    have hstray : (s.stray || decide (c.totalLen ≤ writeOffset c a.offset s.pfl)) = false := by
      rw [hr.offsets, decide_eq_false (not_le.2 hoffset)]
      rfl
    dsimp only [Sys.step]
    rw [hwrite]
    exact ⟨⟨hr.inside, hstray, hr.reads, hout.changes, hout.mirrored⟩, hout.tracked⟩
  | timer =>
    dsimp only [Sys.step]
    split_ifs
    · exact ⟨⟨hr.inside, hr.offsets, hr.reads, .inl rfl, hr.mirrors⟩, ht.known, ht.program, ht.io, ht.erase⟩
    · exact ⟨⟨hr.inside, hr.offsets, hr.reads, .inl rfl, hr.mirrors⟩, ht⟩

theorem right_init (c : Config) (ram : Bytes) {bs : Option Bytes} {ok : Bool} (hbs : bs ≠ none → ok = true) :
    Right c (Sys.init c ram bs ok) := by
  refine ⟨rfl, rfl, rfl, .inl rfl, fun disk hdisk => ?_⟩
  have hdisk' : bs = some disk := hdisk
  subst hdisk'
  obtain rfl := hbs (Option.some_ne_none _)
  have hunits : c.totalLen / 512 * 512 = c.totalLen := Nat.div_mul_cancel (@unit_dvd_totalLen c 9 (by decide))
  intro i hi
  show disk i = ram.write 0 (c.totalLen / 512 * 512) disk i
  have hwrite := @Bytes.write_apply_of_mem ram disk 0 (c.totalLen / 512 * 512) i (by omega)
  rw [Nat.zero_add] at hwrite
  exact hwrite.symm

/-- In every run whose operations meet their condition the storage changes only by a program and by
the erase of a sector, the array is read as it is stored, the block device holds the storage, and no
assertion fails. -/
theorem pflash_cfi01_protocol (c : Config) (ram : Bytes) (bs : Option Bytes) (ok : Bool) (hbs : bs ≠ none → ok = true)
    (ops : List (Op c)) (hok : Meets Sys.step (OpSafe c) (Sys.init c ram bs ok) ops) :
    ∀ s ∈ states Sys.step (Sys.init c ram bs ok) ops, Right c s := by
  have hinit : Tracked (Sys.init c ram bs ok).pfl (Sys.init c ram bs ok).cycles := tracked_idle 0x00 rfl (by decide) rfl
  have hinv := @states_invariant _ _ Sys.step (fun s => Right c s ∧ Tracked s.pfl s.cycles) (OpSafe c)
    (fun s op hs hsafe => right_step hs.1 hs.2 hsafe) ops (Sys.init c ram bs ok) ⟨right_init c ram hbs, hinit⟩ hok
  intro s hs
  exact (hinv s hs).1

/-- A flash of 2 MiB at `base`, with its storage where the low half of the host's address is 0. -/
def Config.flash2M (base : ℕ) : Config where
  base := base
  storageAddr := 0x7f0000000000
  sectorBits := 16
  totalBits := 21
  sector_le := by decide
  two_mib_le := by decide
  le_64_mib := by decide
  width := 2
  width_pos := by decide
  chip := .i28f160c3b
  bigEndian := false

theorem lt_flash2M (base : ℕ) : 0x20 < (Config.flash2M base).totalLen := by
  show 0x20 < 2 ^ 21
  decide

def byteAt20 (base : ℕ) : Access (.flash2M base) := ⟨.b, 0x20, lt_flash2M base⟩

def programByte (base : ℕ) : List (Op (.flash2M base)) :=
  [.write (byteAt20 base) 0x40 true, .write (byteAt20 base) 0x5a true, .read (byteAt20 base)]

theorem pflash_cfi01_programs :
    Meets Sys.step (OpSafe (.flash2M 0)) (Sys.init (.flash2M 0) (fun _ => 0) (some fun _ => 0xff) true) (programByte 0) ∧
      ∀ s ∈ states Sys.step (Sys.init (.flash2M 0) (fun _ => 0) (some fun _ => 0xff) true) (programByte 0),
        Right (.flash2M 0) s := by
  have hmeets : Meets Sys.step (OpSafe (.flash2M 0)) (Sys.init (.flash2M 0) (fun _ => 0) (some fun _ => 0xff) true)
      (programByte 0) := by
    refine ⟨?_, ?_, ?_, trivial⟩
    · refine ⟨fun _ => ?_, fun hio => ?_, fun hcmd => ?_, fun hio => ?_⟩
      · decide
      · cases hio
      · exact absurd hcmd (by decide)
      · cases hio
    · refine ⟨fun hrom => ?_, fun _ => rfl, fun _ => ⟨by decide, fun _ => rfl⟩, fun _ hcmd => ?_⟩
      · cases hrom
      · exact absurd hcmd (by decide)
    · refine ⟨fun _ => rfl, fun _ => ⟨rfl, fun hcmd => ?_, fun hcmd => ?_⟩⟩
      · exact absurd hcmd (by decide)
      · exact absurd hcmd (by decide)
  exact ⟨hmeets, pflash_cfi01_protocol _ _ _ _ (fun _ => rfl) _ hmeets⟩

/-- On a flash at `0x10000000` the data of the program is written outside the storage. -/
theorem pflash_cfi01_subtracts_base : ¬ ∀ (c : Config) (ram : Bytes) (bs : Option Bytes) (ok : Bool), (bs ≠ none → ok = true) →
    ∀ (ops : List (Op c)), ∀ s ∈ states Sys.step (Sys.init c ram bs ok) ops, Right c s := by
  intro h
  have hinside := (h (.flash2M 0x10000000) (fun _ => 0xff) none true (fun _ => rfl) (programByte 0x10000000) _ (foldl_mem_states _ _)).inside
  revert hinside
  decide

end Ar7Qemu.PflashCfi01
