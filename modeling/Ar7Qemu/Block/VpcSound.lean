import Ar7Qemu.Lib.Run
import Ar7Qemu.Block.VpcOpen

/-! Runs of the driver for VHD images. Whatever the host does to data and bitmaps, the blocks stay
apart and the guest reads what it wrote, as long as the host takes the footers and table entries of
new blocks. The footer itself is right exactly until the first block is allocated: the buffer that it
is rewritten from has lost its checksum. -/

namespace Ar7Qemu.Vpc

open Lib Block

variable {g : Geometry} {timestamp : ℕ} {s : VpcState} {n : ℕ}

/-! ### Requests of several sectors -/

/-- The host takes the footer and the table entry of every block that a write allocates. -/
def WriteSafe (s : VpcState) (n : ℕ) (buf : Bytes) : ℕ → Prop
  | 0 => True
  | nb + 1 =>
    AllocSafe s n ∧
      ((writeSector s n buf).1 = true → WriteSafe (writeSector s n buf).2 (n + 1) (buf.drop 512) nb)

/-- A write changes its own sectors only, and one that succeeds leaves its data there. -/
theorem vpcWrite_spec (nb : ℕ) : ∀ {s : VpcState} {n : ℕ} {buf : Bytes}, Inv g timestamp s → n + nb ≤ g.sectors →
    WriteSafe s n buf nb →
    Inv g timestamp (vpcWrite s n buf nb).2 ∧
      (∀ a < 512 * g.sectors, a / 512 < n ∨ n + nb ≤ a / 512 → guestByte (vpcWrite s n buf nb).2 a = guestByte s a) ∧
      ((vpcWrite s n buf nb).1 = true →
        ∀ k < 512 * nb, guestByte (vpcWrite s n buf nb).2 (512 * n + k) = buf k) := by
  induction nb with
  | zero =>
    intro s n buf h _ _
    exact ⟨h, fun _ _ _ => rfl, fun _ k hk => absurd hk (Nat.not_lt_zero k)⟩
  | succ nb ih =>
    intro s n buf h hn hsafe
    obtain ⟨hinv, hothers, hdata, -⟩ := writeSector_spec h (show n < g.sectors by omega) hsafe.1 buf
    have hrest := hsafe.2
    unfold vpcWrite
    generalize writeSector s n buf = r at hinv hothers hdata hrest
    obtain ⟨ok, t⟩ := r
    cases ok with
    | false =>
      refine ⟨hinv, fun a ha hout => hothers a ha (by omega), fun hok => absurd hok Bool.false_ne_true⟩
    | true =>
      obtain ⟨hinv', hothers', hdata'⟩ := ih hinv (show n + 1 + nb ≤ g.sectors by omega) (hrest rfl)
      refine ⟨hinv', fun a ha hout => ?_, fun hok k hk => ?_⟩
      · rw [hothers' a ha (by omega)]
        exact hothers a ha (by omega)
      · by_cases hfirst : k < 512
        · rw [hothers' _ (by omega) (by omega)]
          exact hdata rfl k hfirst
        · have hbyte := hdata' hok (k - 512) (by omega)
          rw [Bytes.drop_apply, show 512 * (n + 1) + (k - 512) = 512 * n + k by omega,
            show 512 + (k - 512) = k by omega] at hbyte
          exact hbyte

/-- The host's clock is all that a read changes. -/
def SameBut (s t : VpcState) : Prop := ∃ tick, t = { s with hd := { s.hd with tick := tick } }

theorem SameBut.guestByte {t : VpcState} (h : SameBut s t) (a : ℕ) : guestByte t a = guestByte s a := by
  obtain ⟨tick, rfl⟩ := h
  rfl

theorem SameBut.inv {t : VpcState} (h : SameBut s t) (hinv : Inv g timestamp s) : Inv g timestamp t := by
  obtain ⟨tick, rfl⟩ := h
  exact ⟨⟨hinv.fixed.bounded, hinv.fixed.maxTableEntries, hinv.fixed.batOffset, hinv.fixed.blockSize,
    hinv.fixed.bitmapSize, hinv.fixed.totalSectors, hinv.fixed.footerBuf⟩, hinv.table,
    hinv.disk.congr (fun _ _ => rfl) rfl rfl⟩

theorem SameBut.trans {t u : VpcState} (h : SameBut s t) (h' : SameBut t u) : SameBut s u := by
  obtain ⟨tick, rfl⟩ := h
  obtain ⟨tick', rfl⟩ := h'
  exact ⟨tick', rfl⟩

theorem readSector_spec (h : Inv g timestamp s) (hn : n < g.sectors) :
    SameBut s (readSector s n).2 ∧
      ((readSector s n).1.1 = true → ∀ k < 512, (readSector s n).1.2 k = guestByte s (512 * n + k)) := by
  unfold readSector getSectorOffset
  by_cases hun : Unallocated s n
  · have hnone := (h.fixed.unallocated_iff hn).1 hun
    rw [if_pos hun]
    refine ⟨⟨s.hd.tick, rfl⟩, fun _ k hk => ?_⟩
    unfold guestByte
    rw [show (512 * n + k) / 512 = n by omega, if_pos hnone]
  · have ha : s.pagetable (n / 4096) ≠ unused := fun heq => hun ((h.fixed.unallocated_iff hn).2 heq)
    obtain ⟨hst, hbuf⟩ := bdrvPread_spec s.hd (blockOffset s n) (show 0 < 512 by decide) (by decide) fun _ => 0
    rw [if_neg hun]
    dsimp only
    rw [if_neg Bool.false_ne_true]
    refine ⟨⟨s.hd.tick + 1, ?_⟩, fun hok k hk => ?_⟩
    · rw [hst]
    · unfold guestByte
      rw [show (512 * n + k) / 512 = n by omega, if_neg ha, byteAddr_sector _ _ hk, ← h.fixed.blockOffset_eq hn]
      exact hbuf hok k hk

/-- A read that succeeds returns the visible disk. -/
theorem vpcRead_spec (nb : ℕ) : ∀ {s : VpcState} {n : ℕ}, Inv g timestamp s → n + nb ≤ g.sectors →
    SameBut s (vpcRead s n nb).2 ∧
      ((vpcRead s n nb).1.1 = true → ∀ k < 512 * nb, (vpcRead s n nb).1.2 k = guestByte s (512 * n + k)) := by
  induction nb with
  | zero =>
    intro s n _ _
    exact ⟨⟨s.hd.tick, rfl⟩, fun _ k hk => absurd hk (Nat.not_lt_zero k)⟩
  | succ nb ih =>
    intro s n h hn
    obtain ⟨hsame, hdata⟩ := readSector_spec h (show n < g.sectors by omega)
    unfold vpcRead
    generalize readSector s n = r at hsame hdata
    obtain ⟨⟨ok, buf⟩, t⟩ := r
    cases ok with
    | false => exact ⟨hsame, fun hok => absurd hok Bool.false_ne_true⟩
    | true =>
      obtain ⟨hsame', hdata'⟩ := ih (hsame.inv h) (show n + 1 + nb ≤ g.sectors by omega)
      refine ⟨hsame.trans hsame', fun hok k hk => ?_⟩
      show (if k < 512 then buf k else (vpcRead t (n + 1) nb).1.2 (k - 512)) = _
      split_ifs with hfirst
      · exact hdata rfl k hfirst
      · rw [hdata' hok (k - 512) (by omega), hsame.guestByte, show 512 * (n + 1) + (k - 512) = 512 * n + k by omega]

/-! ### Runs -/

/-- The driver, with the data that the guest may expect and the sectors of which that is known: a
write that fails leaves its sectors open. -/
structure Sys where
  vpc : VpcState
  want : Bytes
  known : ℕ → Bool

inductive Op
  | write (sectorNum nbSectors : ℕ) (buf : Bytes)
  | read (sectorNum nbSectors : ℕ)
  | reopen

def inRange (s : VpcState) (n nb : ℕ) : Prop := n + nb ≤ s.totalSectors

instance (s : VpcState) (n nb : ℕ) : Decidable (inRange s n nb) := inferInstanceAs (Decidable (_ ≤ _))

/-- A request outside the disk does not reach the driver, and opening an image may fail. -/
def Sys.step (s : Sys) : Op → Option Sys
  | .write n nb buf =>
    if inRange s.vpc n nb then
      match vpcWrite s.vpc n buf nb with
      | (true, vpc) => some { s with vpc := vpc, want := s.want.write (512 * n) (512 * nb) buf
                                     known := fun i => s.known i || decide (n ≤ i ∧ i < n + nb) }
      | (false, vpc) => some { s with vpc := vpc, known := fun i => s.known i && !decide (n ≤ i ∧ i < n + nb) }
    else some s
  | .read n nb => if inRange s.vpc n nb then some { s with vpc := (vpcRead s.vpc n nb).2 } else some s
  | .reopen => (vpcOpen s.vpc.hd).map fun vpc => { s with vpc := vpc }

/-- The blocks lie apart, between the table and the footer. -/
structure Apart (s : VpcState) : Prop where
  disjoint : ∀ i < s.maxTableEntries, ∀ j < s.maxTableEntries, s.pagetable i ≠ unused → s.pagetable j ≠ unused → i ≠ j →
    512 * s.pagetable i + (s.bitmapSize + s.blockSize) ≤ 512 * s.pagetable j ∨
      512 * s.pagetable j + (s.bitmapSize + s.blockSize) ≤ 512 * s.pagetable i
  afterTable : ∀ i < s.maxTableEntries, s.pagetable i ≠ unused → s.batOffset + 4 * s.maxTableEntries ≤ 512 * s.pagetable i
  beforeFooter : ∀ i < s.maxTableEntries, s.pagetable i ≠ unused →
    512 * s.pagetable i + (s.bitmapSize + s.blockSize) + headerSize ≤ s.hd.len

def TableOnDisk (s : VpcState) : Prop :=
  ∀ i < s.maxTableEntries, s.hd.data.word 4 (s.batOffset + 4 * i) = s.pagetable i

def ReadsBack (s : Sys) : Prop :=
  ∀ n nb, inRange s.vpc n nb → (vpcRead s.vpc n nb).1.1 = true →
    ∀ k < 512 * nb, s.known (n + k / 512) = true → (vpcRead s.vpc n nb).1.2 k = s.want (512 * n + k)

/-- The file ends with a footer that is the copy at its start and has a valid checksum. -/
def FooterValid (s : VpcState) : Prop :=
  (∀ k < headerSize, s.hd.data (s.hd.len - headerSize + k) = s.hd.data k) ∧
    vpcChecksum (withChecksum s.hd.data 0) headerSize = s.hd.data.word 4 checksumOffset

def NoBlocks (s : VpcState) : Prop := ∀ i < s.maxTableEntries, s.pagetable i = unused

/-- What holds of an image beside its footer. -/
structure DataRight (s : Sys) : Prop where
  apart : Apart s.vpc
  tableOnDisk : TableOnDisk s.vpc
  readsBack : ReadsBack s

/-- The host takes the footer and the table entry of every new block. -/
def HostTakes (s : Sys) : Op → Prop
  | .write n nb buf => inRange s.vpc n nb → WriteSafe s.vpc n buf nb
  | _ => True

def WritesNothing (s : Sys) : Op → Prop
  | .write n nb _ => inRange s.vpc n nb → nb = 0
  | _ => True

/-! ### The footer -/

theorem byteSum_congr {b c : Bytes} (m : ℕ) (h : ∀ k < m, b k = c k) : byteSum b m = byteSum c m := by
  induction m with
  | zero => rfl
  | succ m ih =>
    unfold byteSum
    rw [ih fun k hk => h k (Nat.lt_succ_of_lt hk), h m (Nat.lt_succ_self m)]

theorem byteSum_le (b : Bytes) (m : ℕ) : byteSum b m ≤ 255 * m := by
  induction m with
  | zero => exact le_refl _
  | succ m ih =>
    have hlt := (b m).toNat_lt
    unfold byteSum
    omega

theorem vpcChecksum_bounds (b : Bytes) : 0 < vpcChecksum b headerSize ∧ vpcChecksum b headerSize < 256 ^ 4 := by
  have hle := byteSum_le b headerSize
  unfold headerSize at hle
  unfold vpcChecksum headerSize
  omega

theorem word_checksum (b : Bytes) {v : ℕ} (hv : v < 256 ^ 4) : (withChecksum b v).word 4 checksumOffset = v :=
  Bytes.word_write_self hv

theorem withChecksum_footer (k : ℕ) :
    withChecksum (footer g timestamp) 0 k = Bytes.record (footerFields g timestamp) k := by
  unfold withChecksum footer withChecksum Bytes.write
  split_ifs with hk
  · have hnone : Bytes.record (footerFields g timestamp) k = 0 := by
      apply Bytes.record_apply_of_not_covered
      intro f hf
      unfold checksumOffset at hk
      simp only [footerFields, List.mem_cons, List.not_mem_nil, or_false] at hf
      unfold Field.Covers
      rcases hf with rfl | rfl | rfl | rfl | rfl | rfl | rfl | rfl | rfl | rfl | rfl | rfl | rfl | rfl | rfl <;>
        dsimp only <;> omega
    rw [hnone]
    unfold Bytes.beByte
    rw [Nat.zero_div]
    rfl
  · rfl

theorem noBlocks_iff (h : Inv g timestamp s) : NoBlocks s ↔ (allocated s.pagetable (numBatEntries g)).card = 0 := by
  unfold NoBlocks
  rw [h.fixed.maxTableEntries, Finset.card_eq_zero, Finset.eq_empty_iff_forall_notMem]
  constructor
  · intro hnone i hi
    exact (mem_allocated.1 hi).2 (hnone i (mem_allocated.1 hi).1)
  · intro hnone i hi
    by_contra ha
    exact hnone i (mem_allocated.2 ⟨hi, ha⟩)

/-- The footer of an image is right exactly as long as it has no block. -/
theorem footerValid_iff (h : Inv g timestamp s) : FooterValid s ↔ NoBlocks s := by
  have hlen : s.hd.len - headerSize = s.freeDataBlockOffset := by
    rw [h.disk.len]
    exact Nat.add_sub_cancel _ _
  have hsum := vpcChecksum_bounds (Bytes.record (footerFields g timestamp))
  rw [noBlocks_iff h]
  unfold FooterValid
  rw [hlen]
  constructor
  · rintro ⟨hcopy, -⟩
    by_contra hcard
    have hbytes : ∀ k < 512, withChecksum (footer g timestamp) 0 k = footer g timestamp k := by
      intro k hk
      have hfooter := h.disk.footer k hk
      unfold lastFooter at hfooter
      rw [if_neg hcard] at hfooter
      rw [← hfooter, ← h.disk.header k hk]
      exact hcopy k hk
    have hword := @word_of_read _ _ 512 checksumOffset 4 hbytes (by decide)
    rw [word_checksum _ (by decide)] at hword
    unfold footer at hword
    rw [word_checksum _ hsum.2] at hword
    omega
  · intro hcard
    refine ⟨fun k hk => ?_, ?_⟩
    · rw [h.disk.footer k hk, h.disk.header k hk]
      unfold lastFooter
      rw [if_pos hcard]
    · have hword : s.hd.data.word 4 checksumOffset = vpcChecksum (Bytes.record (footerFields g timestamp)) headerSize := by
        rw [@word_of_read _ _ 512 checksumOffset 4 h.disk.header (by decide)]
        unfold footer
        exact word_checksum _ hsum.2
      have hclear : ∀ k < headerSize, withChecksum s.hd.data 0 k = Bytes.record (footerFields g timestamp) k := by
        intro k hk
        rw [← withChecksum_footer k]
        unfold withChecksum Bytes.write
        split_ifs
        · rfl
        · exact h.disk.header k hk
      rw [hword]
      unfold vpcChecksum
      rw [byteSum_congr _ hclear]

/-! ### The laws of runs -/

/-- The image has its layout, and the visible disk is as expected where that is known. -/
structure Good (g : Geometry) (timestamp : ℕ) (s : Sys) : Prop where
  inv : Inv g timestamp s.vpc
  view : ∀ a < 512 * g.sectors, s.known (a / 512) = true → guestByte s.vpc a = s.want a

theorem Inv.apart (h : Inv g timestamp s) : Apart s := by
  have hsize : s.bitmapSize + s.blockSize = stride := by
    rw [h.fixed.bitmapSize, h.fixed.blockSize]
    rfl
  have hN := h.fixed.maxTableEntries
  refine ⟨fun i hi j hj ha ha' hne => ?_, fun i hi ha => ?_, fun i hi ha => ?_⟩
  · rw [hN] at hi hj
    rw [hsize]
    exact h.table.disjoint hi hj ha ha' hne
  · rw [hN] at hi
    have hbat := batLen_ge g
    have hlo : 1536 + batLen g ≤ 512 * s.pagetable i := (h.table.block_bounds hi ha).1
    rw [hN, h.fixed.batOffset]
    omega
  · rw [hN] at hi
    have hhi := (h.table.block_bounds hi ha).2
    rw [hsize, h.disk.len]
    unfold headerSize
    omega

theorem Good.dataRight {s : Sys} (h : Good g timestamp s) : DataRight s := by
  refine ⟨h.inv.apart, fun i hi => ?_, fun n nb hrange hok k hk hknown => ?_⟩
  · rw [h.inv.fixed.maxTableEntries] at hi
    rw [h.inv.fixed.batOffset]
    exact h.inv.disk.table i hi
  · unfold inRange at hrange
    rw [h.inv.fixed.totalSectors] at hrange
    rw [(vpcRead_spec nb h.inv hrange).2 hok k hk]
    refine h.view _ (by omega) ?_
    rwa [show (512 * n + k) / 512 = n + k / 512 by omega]

theorem good_write {s t : Sys} {nb : ℕ} {buf : Bytes} (h : Good g timestamp s) (hsafe : HostTakes s (.write n nb buf))
    (hstep : s.step (.write n nb buf) = some t) : Good g timestamp t := by
  dsimp only [Sys.step] at hstep
  split_ifs at hstep with hrange
  · have hin : n + nb ≤ g.sectors := by
      rw [← h.inv.fixed.totalSectors]
      exact hrange
    obtain ⟨hinv, hothers, hdata⟩ := vpcWrite_spec nb h.inv hin (hsafe hrange)
    generalize vpcWrite s.vpc n buf nb = r at hstep hinv hothers hdata
    obtain ⟨ok, vpc⟩ := r
    cases ok with
    | true =>
      cases hstep
      refine ⟨hinv, fun a ha hknown => ?_⟩
      show guestByte vpc a = s.want.write (512 * n) (512 * nb) buf a
      by_cases hmem : n ≤ a / 512 ∧ a / 512 < n + nb
      · obtain ⟨k, rfl⟩ := Nat.exists_eq_add_of_le (show 512 * n ≤ a by omega)
        rw [Bytes.write_apply_of_mem (by omega)]
        exact hdata rfl k (by omega)
      · rw [Bytes.write_apply_of_not_mem (by omega), hothers a ha (by omega)]
        refine h.view a ha ?_
        have hknown' : (s.known (a / 512) || decide (n ≤ a / 512 ∧ a / 512 < n + nb)) = true := hknown
        rwa [decide_eq_false hmem, Bool.or_false] at hknown'
    | false =>
      cases hstep
      refine ⟨hinv, fun a ha hknown => ?_⟩
      have hknown' : (s.known (a / 512) && !decide (n ≤ a / 512 ∧ a / 512 < n + nb)) = true := hknown
      rw [Bool.and_eq_true, Bool.not_eq_true', decide_eq_false_iff_not] at hknown'
      show guestByte vpc a = s.want a
      rw [hothers a ha (by omega)]
      exact h.view a ha hknown'.1
  · cases hstep
    exact h

theorem good_step {s t : Sys} {op : Op} (h : Good g timestamp s) (hsafe : HostTakes s op) (hstep : s.step op = some t) :
    Good g timestamp t := by
  cases op with
  | write n nb buf => exact good_write h hsafe hstep
  | read n nb =>
    dsimp only [Sys.step] at hstep
    split_ifs at hstep with hrange
    · cases hstep
      have hin : n + nb ≤ g.sectors := by
        rw [← h.inv.fixed.totalSectors]
        exact hrange
      have hsame := (vpcRead_spec nb h.inv hin).1
      refine ⟨hsame.inv h.inv, fun a ha hknown => ?_⟩
      show guestByte (vpcRead s.vpc n nb).2 a = s.want a
      rw [hsame.guestByte]
      exact h.view a ha hknown
    · cases hstep
      exact h
  | reopen =>
    obtain ⟨vpc, hopen, rfl⟩ := Option.map_eq_some_iff.1 hstep
    obtain ⟨hinv, ⟨hdata, -⟩, hpt⟩ := vpcOpen_spec h.inv.fixed.bounded h.inv.table h.inv.disk hopen
    refine ⟨hinv, fun a ha hknown => ?_⟩
    have hlt : a / 512 / 4096 < numBatEntries g := index_lt (by omega)
    show guestByte vpc a = s.want a
    rw [← h.view a ha hknown]
    unfold guestByte byteAddr
    rw [hpt _ hlt, hdata]

theorem noBlocks_step {s t : Sys} {op : Op} (h : Good g timestamp s) (hnone : NoBlocks s.vpc) (hsafe : WritesNothing s op)
    (hstep : s.step op = some t) : NoBlocks t.vpc := by
  cases op with
  | write n nb buf =>
    dsimp only [Sys.step] at hstep
    split_ifs at hstep with hrange
    · rw [hsafe hrange] at hstep
      cases hstep
      exact hnone
    · cases hstep
      exact hnone
  | read n nb =>
    dsimp only [Sys.step] at hstep
    split_ifs at hstep with hrange
    · cases hstep
      have hin : n + nb ≤ g.sectors := by
        rw [← h.inv.fixed.totalSectors]
        exact hrange
      obtain ⟨tick, hsame⟩ := (vpcRead_spec nb h.inv hin).1
      show NoBlocks (vpcRead s.vpc n nb).2
      rw [hsame]
      exact hnone
    · cases hstep
      exact hnone
  | reopen =>
    obtain ⟨vpc, hopen, rfl⟩ := Option.map_eq_some_iff.1 hstep
    obtain ⟨hinv, -, hpt⟩ := vpcOpen_spec h.inv.fixed.bounded h.inv.table h.inv.disk hopen
    intro i hi
    have hi' : i < numBatEntries g := hinv.fixed.maxTableEntries ▸ hi
    rw [hpt i hi']
    exact hnone i (h.inv.fixed.maxTableEntries.symm ▸ hi')

theorem hostTakes_of_writesNothing {s : Sys} {op : Op} (h : WritesNothing s op) : HostTakes s op := by
  cases op with
  | write n nb buf =>
    intro hrange
    rw [h hrange]
    trivial
  | read n nb => trivial
  | reopen => trivial

/-- A disk that was never written reads as zero. -/
def Sys.init (vpc : VpcState) : Sys := ⟨vpc, fun _ => 0, fun _ => true⟩

theorem good_init {total : ℕ} {io : ℕ → Option (ℕ → Bool)} {f : HostFile} (hcreate : vpcCreate total timestamp io = some f)
    (hopen : vpcOpen f = some s) : ∃ g, Good g timestamp (Sys.init s) ∧ NoBlocks s := by
  obtain ⟨g, hg, -⟩ := Option.map_eq_some_iff.1 hcreate
  obtain ⟨hinv, -, hpt⟩ := vpcOpen_spec (bounded_calculateGeometry hg) (table_create g) (onDisk_create hcreate hg) hopen
  refine ⟨g, ⟨hinv, fun a ha _ => ?_⟩, fun i hi => hpt i (hinv.fixed.maxTableEntries ▸ hi)⟩
  have hlt : a / 512 / 4096 < numBatEntries g := index_lt (by omega)
  exact if_pos (hpt _ hlt)

/-- Over every run on a new image in which the host takes the footers and table entries of new
blocks, the blocks stay apart and the guest reads what it wrote; the footer is valid exactly where
there is no block yet, so everything holds in every run that writes nothing. -/
theorem vpc_write_read_law (total timestamp : ℕ) (io : ℕ → Option (ℕ → Bool)) {f : HostFile}
    (hcreate : vpcCreate total timestamp io = some f) {s : VpcState} (hopen : vpcOpen f = some s) (ops : List Op) :
    (MeetsM Sys.step HostTakes (Sys.init s) ops → ∀ m t, (ops.take m).foldlM Sys.step (Sys.init s) = some t →
      DataRight t ∧ (FooterValid t.vpc ↔ NoBlocks t.vpc)) ∧
    (MeetsM Sys.step WritesNothing (Sys.init s) ops → ∀ m t, (ops.take m).foldlM Sys.step (Sys.init s) = some t →
      DataRight t ∧ FooterValid t.vpc) := by
  obtain ⟨g, hgood, hnone⟩ := good_init hcreate hopen
  refine ⟨fun hok m t hrun => ?_, fun hok m t hrun => ?_⟩
  · have hgood' := foldlM_take_invariant (P := Good g timestamp)
      (fun s op t hs hsafe hstep => good_step hs hsafe hstep) ops _ hgood hok m t hrun
    exact ⟨hgood'.dataRight, footerValid_iff hgood'.inv⟩
  · have hgood' := foldlM_take_invariant (P := fun s => Good g timestamp s ∧ NoBlocks s.vpc)
      (fun s op t hs hsafe hstep =>
        ⟨good_step hs.1 (hostTakes_of_writesNothing hsafe) hstep, noBlocks_step hs.1 hs.2 hsafe hstep⟩)
      ops _ ⟨hgood, hnone⟩ hok m t hrun
    exact ⟨hgood'.1.dataRight, (footerValid_iff hgood'.1.inv).2 hgood'.2⟩

/-- An image of 68 sectors on a host that does not fail. -/
theorem exists_image68 : ∃ f s, vpcCreate 68 0 (fun _ => none) = some f ∧ vpcOpen f = some s ∧
    (∀ t, s.hd.io t = none) ∧ Good ⟨1, 4, 17⟩ 0 (Sys.init s) := by
  have hg : calculateGeometry 68 = some ⟨1, 4, 17⟩ := rfl
  obtain ⟨f, hcreate⟩ : ∃ f, vpcCreate 68 0 (fun _ => none) = some f := by
    unfold vpcCreate
    rw [hg]
    exact ⟨_, rfl⟩
  have hb := bounded_calculateGeometry hg
  have hdisk := onDisk_create hcreate hg
  have hio : f.io = fun _ => none := by
    unfold vpcCreate at hcreate
    rw [hg] at hcreate
    cases hcreate
    rfl
  obtain ⟨s, hopen⟩ := vpcOpen_reliable hb hdisk fun t => congrFun hio t
  obtain ⟨hinv, ⟨-, hio'⟩, hpt⟩ := vpcOpen_spec hb (table_create _) hdisk hopen
  refine ⟨f, s, hcreate, hopen, fun t => ?_, hinv, fun a ha _ => ?_⟩
  · rw [hio', hio]
  · have hlt : a / 512 / 4096 < numBatEntries ⟨1, 4, 17⟩ := index_lt (by omega)
    exact if_pos (hpt _ hlt)

theorem vpc_laws_of_reads : ∃ f s, vpcCreate 68 0 (fun _ => none) = some f ∧ vpcOpen f = some s ∧
    ∀ m t, ([.read 0 8, .reopen, .read 3 1].take m).foldlM Sys.step (Sys.init s) = some t → DataRight t ∧ FooterValid t.vpc := by
  obtain ⟨f, s, hcreate, hopen, -, -⟩ := exists_image68
  refine ⟨f, s, hcreate, hopen, (vpc_write_read_law 68 0 _ hcreate hopen _).2 ?_⟩
  exact ⟨trivial, fun _ _ => ⟨trivial, fun _ _ => ⟨trivial, fun _ _ => trivial⟩⟩⟩

/-- After the first write to a new image its footer has no checksum. -/
theorem vpc_footer_checksum_lost : ¬ ∀ (total timestamp : ℕ) (io : ℕ → Option (ℕ → Bool)) (f : HostFile) (s : VpcState),
    vpcCreate total timestamp io = some f → vpcOpen f = some s → ∀ (ops : List Op) (m : ℕ) (t : Sys),
      (ops.take m).foldlM Sys.step (Sys.init s) = some t → DataRight t ∧ FooterValid t.vpc := by
  intro hall
  obtain ⟨f, s, hcreate, hopen, hio, hgood⟩ := exists_image68
  have hinv : Inv ⟨1, 4, 17⟩ 0 s := hgood.inv
  have hwrote := writeSector_spec hinv (show 0 < Geometry.sectors ⟨1, 4, 17⟩ by decide)
    (fun _ => ⟨hio _, hio _⟩) fun _ => 1
  have hrange : inRange (Sys.init s).vpc 0 1 := by
    show 0 + 1 ≤ s.totalSectors
    rw [hinv.fixed.totalSectors]
    decide
  have hstep : ∃ t : Sys, (Sys.init s).step (.write 0 1 fun _ => 1) = some t ∧ t.vpc = (writeSector s 0 fun _ => 1).2 := by
    dsimp only [Sys.step]
    rw [if_pos hrange]
    unfold vpcWrite
    generalize hr : writeSector (Sys.init s).vpc 0 (fun _ => 1) = r
    obtain ⟨ok, u⟩ := r
    have hr' : (writeSector s 0 fun _ => 1).2 = u := congrArg Prod.snd hr
    cases ok with
    | false => exact ⟨_, rfl, hr'.symm⟩
    | true => exact ⟨_, rfl, hr'.symm⟩
  obtain ⟨t, hstep, htv⟩ := hstep
  have hrun : (([.write 0 1 fun _ => 1] : List Op).take 1).foldlM Sys.step (Sys.init s) = some t := by
    show ((Sys.init s).step _).bind _ = some t
    rw [hstep]
    rfl
  have hfooter := (hall 68 0 _ f s hcreate hopen _ 1 t hrun).2
  rw [htv, footerValid_iff hwrote.inv] at hfooter
  exact hwrote.entry (hfooter _ (by rw [hwrote.inv.fixed.maxTableEntries]; exact index_lt (by decide)))

end Ar7Qemu.Vpc
