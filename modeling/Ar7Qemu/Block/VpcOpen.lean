import Ar7Qemu.Block.VpcWrite

/-! Opening a VHD image. What `vpc_create` leaves has the layout of an image without blocks, and an
image that is opened, for the first time or again, gets its state back from the file; only the
checksum of the footer is lost from the buffer. -/

namespace Ar7Qemu.Vpc

open Lib Block

variable {g : Geometry} {timestamp : ℕ} {pt pt' : ℕ → ℕ} {free : ℕ} {hd : HostFile}

/-! ### The headers -/

theorem pairwise_footerFields (g : Geometry) (timestamp : ℕ) : (footerFields g timestamp).Pairwise Field.Disjoint := by
  simp [footerFields, Field.Disjoint]

theorem pairwise_dyndiskFields (g : Geometry) : (dyndiskFields g).Pairwise Field.Disjoint := by
  simp [dyndiskFields, Field.Disjoint]

theorem word_footer {f : Field} (hf : f ∈ footerFields g timestamp) (hoff : f.off + f.width ≤ 64)
    (hval : f.val < 256 ^ f.width) : (footer g timestamp).word f.width f.off = f.val := by
  unfold footer withChecksum checksumOffset
  rw [Bytes.word_write_of_disjoint (.inl hoff)]
  exact Bytes.word_record (pairwise_footerFields g timestamp) hf hval

theorem word_dyndiskHeader {f : Field} (hf : f ∈ dyndiskFields g) (hoff : f.off + f.width ≤ 36)
    (hval : f.val < 256 ^ f.width) : (dyndiskHeader g).word f.width f.off = f.val := by
  unfold dyndiskHeader
  rw [Bytes.word_write_of_disjoint (.inl hoff)]
  exact Bytes.word_record (pairwise_dyndiskFields g) hf hval

theorem word_of_read {buf b : Bytes} {n off w : ℕ} (hbuf : ∀ k < n, buf k = b k) (hend : off + w ≤ n) :
    buf.word w off = b.word w off :=
  Bytes.word_congr fun k hk => hbuf _ (by omega)

/-! ### The end of the blocks -/

theorem le_lastBlockEnd (pt : ℕ → ℕ) (start len : ℕ) (n : ℕ) :
    start ≤ lastBlockEnd pt start len n ∧
      ∀ i < n, pt i ≠ unused → 512 * pt i + len ≤ lastBlockEnd pt start len n := by
  induction n with
  | zero => exact ⟨le_refl _, fun i hi => absurd hi (Nat.not_lt_zero i)⟩
  | succ n ih =>
    unfold lastBlockEnd
    dsimp only
    have hprev : lastBlockEnd pt start len n ≤
        if pt n ≠ unused ∧ lastBlockEnd pt start len n < 512 * pt n + len then 512 * pt n + len
        else lastBlockEnd pt start len n := by
      split_ifs with h
      · exact Nat.le_of_lt h.2
      · exact le_refl _
    refine ⟨ih.1.trans hprev, fun i hi ha => ?_⟩
    rcases Nat.lt_succ_iff_lt_or_eq.1 hi with hlt | rfl
    · exact (ih.2 i hlt ha).trans hprev
    · split_ifs with h
      · exact le_refl _
      · exact not_lt.1 fun hlt => h ⟨ha, hlt⟩

theorem lastBlockEnd_le {start len m : ℕ} (n : ℕ) (hstart : start ≤ m) (h : ∀ i < n, pt i ≠ unused → 512 * pt i + len ≤ m) :
    lastBlockEnd pt start len n ≤ m := by
  induction n with
  | zero => exact hstart
  | succ n ih =>
    unfold lastBlockEnd
    dsimp only
    split_ifs with hc
    · exact h n (Nat.lt_succ_self n) hc.1
    · exact ih fun i hi => h i (Nat.lt_succ_of_lt hi)

theorem Table.lastBlockEnd_eq (h : Table g pt free) : lastBlockEnd pt (start g) stride (numBatEntries g) = free := by
  obtain ⟨hge, hblocks⟩ := le_lastBlockEnd pt (start g) stride (numBatEntries g)
  have hstart : start g ≤ free := by
    rw [h.free_eq]
    omega
  apply le_antisymm
  · exact lastBlockEnd_le _ hstart fun i hi ha => (h.block_bounds hi ha).2
  · rcases h.last with heq | ⟨i, hi, ha, heq⟩
    · exact heq ▸ hge
    · exact heq ▸ hblocks i hi ha

/-! ### Tables that agree -/

theorem allocated_congr {n : ℕ} (h : ∀ i < n, pt' i = pt i) : allocated pt' n = allocated pt n := by
  ext k
  rw [mem_allocated, mem_allocated]
  constructor
  · rintro ⟨hk, ha⟩
    exact ⟨hk, h k hk ▸ ha⟩
  · rintro ⟨hk, ha⟩
    exact ⟨hk, (h k hk).symm ▸ ha⟩

theorem lastBlockEnd_congr {start len : ℕ} (n : ℕ) (h : ∀ i < n, pt' i = pt i) :
    lastBlockEnd pt' start len n = lastBlockEnd pt start len n := by
  induction n with
  | zero => rfl
  | succ n ih =>
    unfold lastBlockEnd
    rw [ih fun i hi => h i (Nat.lt_succ_of_lt hi), h n (Nat.lt_succ_self n)]

theorem Table.congr (h : Table g pt free) (heq : ∀ i < numBatEntries g, pt' i = pt i) : Table g pt' free := by
  have hcard := allocated_congr heq
  refine ⟨hcard ▸ h.free_eq, fun i hi ha => ?_, fun i hi i' hi' ha hsame => ?_, ?_⟩
  · rw [hcard, heq i hi]
    exact h.slot i hi (heq i hi ▸ ha)
  · rw [heq i hi] at ha hsame
    rw [heq i' hi'] at hsame
    exact h.inj i hi i' hi' ha hsame
  · rcases h.last with hfree | ⟨i, hi, ha, hend⟩
    · exact .inl hfree
    · exact .inr ⟨i, hi, (heq i hi).symm ▸ ha, (heq i hi).symm ▸ hend⟩

theorem OnDisk.congr (h : OnDisk g timestamp pt free hd) (heq : ∀ i < numBatEntries g, pt' i = pt i) {hd' : HostFile}
    (hdata : hd'.data = hd.data) (hlen : hd'.len = hd.len) : OnDisk g timestamp pt' free hd' := by
  refine ⟨hdata ▸ h.header, hdata ▸ h.dyndisk, fun i hi => ?_, ?_, hdata ▸ h.fresh, hlen.trans h.len⟩
  · rw [hdata, h.table i hi, heq i hi]
  · rw [allocated_congr heq, hdata]
    exact h.footer

/-! ### Opening -/

/-- What the driver takes from the footer. -/
structure FooterWords (g : Geometry) (b : Bytes) : Prop where
  creator : b.word 8 0 = 0x636f6e6563746978
  dataOffset : b.word 8 16 = 512
  cyls : b.word 2 56 = g.cyls
  heads : b.word 1 58 = g.heads
  secs : b.word 1 59 = g.secsPerCyl

theorem footerWords (hb : g.Bounded) {buf : Bytes} (hbuf : ∀ k < 512, buf k = footer g timestamp k) : FooterWords g buf := by
  have hword : ∀ off w v, ⟨off, w, v⟩ ∈ footerFields g timestamp → off + w ≤ 64 → v < 256 ^ w →
      buf.word w off = v := by
    intro off w v hf hoff hval
    rw [word_of_read hbuf (by omega)]
    exact word_footer hf hoff hval
  have hc := hb.cyls
  have hh := hb.heads
  have hs := hb.secs
  refine ⟨hword 0 8 _ ?_ (by decide) (by decide), hword 16 8 headerSize ?_ (by decide) (by decide),
    hword 56 2 g.cyls ?_ (by decide) ?_, hword 58 1 g.heads ?_ (by decide) ?_,
    hword 59 1 g.secsPerCyl ?_ (by decide) ?_⟩
  · simp [footerFields]
  · simp [footerFields]
  · simp [footerFields]
  · exact hc
  · simp [footerFields]
  · omega
  · simp [footerFields]
  · omega

/-- What the driver takes from the dynamic disk header. -/
structure DyndiskWords (g : Geometry) (b : Bytes) : Prop where
  magic : b.word 8 0 = 0x6378737061727365
  tableOffset : b.word 8 16 = 1536
  maxTableEntries : b.word 4 28 = numBatEntries g
  blockSize : b.word 4 32 = 0x200000

theorem dyndiskWords (hb : g.Bounded) {buf : Bytes} (hbuf : ∀ k < 512, buf k = dyndiskHeader g k) : DyndiskWords g buf := by
  have hword : ∀ off w v, ⟨off, w, v⟩ ∈ dyndiskFields g → off + w ≤ 36 → v < 256 ^ w →
      buf.word w off = v := by
    intro off w v hf hoff hval
    rw [word_of_read hbuf (by omega)]
    exact word_dyndiskHeader hf hoff hval
  have hN := hb.numBatEntries_le
  refine ⟨hword 0 8 _ ?_ (by decide) (by decide), hword 16 8 (3 * 512) ?_ (by decide) (by decide),
    hword 28 4 (numBatEntries g) ?_ (by decide) ?_, hword 32 4 0x200000 ?_ (by decide) (by decide)⟩
  · simp [dyndiskFields]
  · simp [dyndiskFields]
  · simp [dyndiskFields]
  · omega
  · simp [dyndiskFields]

/-- An image that is opened has its state back. -/
theorem vpcOpen_spec (hb : g.Bounded) (ht : Table g pt free) (hdisk : OnDisk g timestamp pt free hd) {s : VpcState}
    (hopen : vpcOpen hd = some s) :
    Inv g timestamp s ∧ (s.hd.data = hd.data ∧ s.hd.io = hd.io) ∧ ∀ i < numBatEntries g, s.pagetable i = pt i := by
  have hN := hb.numBatEntries_le
  have hNpos : 0 < numBatEntries g := by
    rw [numBatEntries_eq]
    omega
  unfold vpcOpen at hopen
  obtain ⟨hst₁, hbuf₁⟩ := bdrvPread_spec hd 0 (show 0 < headerSize by decide) (by decide) fun _ => 0
  generalize hd.bdrvPread 0 headerSize (fun _ => 0) = r₁ at hopen hst₁ hbuf₁
  obtain ⟨⟨ok₁, buf₁⟩, hd₁⟩ := r₁
  obtain rfl | rfl := Bool.eq_false_or_eq_true ok₁ |>.symm
  · cases hopen
  have hfooter : ∀ k < 512, buf₁ k = footer g timestamp k := by
    intro k hk
    have hread := hbuf₁ rfl k hk
    rw [Nat.zero_add] at hread
    exact hread.trans (hdisk.header k hk)
  have hw₁ := footerWords hb hfooter
  dsimp only at hopen hst₁
  rw [if_neg (not_not.2 hw₁.creator), hw₁.dataOffset] at hopen
  obtain ⟨hst₂, hbuf₂⟩ := bdrvPread_spec hd₁ 512 (show 0 < headerSize by decide) (by decide) fun _ => 0
  generalize hd₁.bdrvPread 512 headerSize (fun _ => 0) = r₂ at hopen hst₂ hbuf₂
  obtain ⟨⟨ok₂, buf₂⟩, hd₂⟩ := r₂
  obtain rfl | rfl := Bool.eq_false_or_eq_true ok₂ |>.symm
  · cases hopen
  have hdyndisk : ∀ k < 512, buf₂ k = dyndiskHeader g k := by
    intro k hk
    have hread := hbuf₂ rfl k hk
    rw [hst₁] at hread
    exact hread.trans (hdisk.dyndisk k (by omega))
  have hw₂ := dyndiskWords hb hdyndisk
  dsimp only at hopen hst₂
  have hsize : numBatEntries g * 4 % 2 ^ 32 = numBatEntries g * 4 := Nat.mod_eq_of_lt (by omega)
  have hcount : HostFile.intCount (numBatEntries g) = numBatEntries g := HostFile.intCount_of_lt (by omega)
  rw [if_neg (not_not.2 hw₂.magic), hw₂.tableOffset, hw₂.maxTableEntries, hw₂.blockSize, hsize, hcount] at hopen
  obtain ⟨hst₃, hbuf₃⟩ := bdrvPread_spec hd₂ 1536 (show 0 < numBatEntries g * 4 by omega) (by omega) fun _ => 0
  generalize hd₂.bdrvPread 1536 (numBatEntries g * 4) (fun _ => 0) = r₃ at hopen hst₃ hbuf₃
  obtain ⟨⟨ok₃, buf₃⟩, hd₃⟩ := r₃
  obtain rfl | rfl := Bool.eq_false_or_eq_true ok₃ |>.symm
  · cases hopen
  have hpt : ∀ i < numBatEntries g, buf₃.word 4 (4 * i) = pt i := by
    intro i hi
    rw [← hdisk.table i hi]
    apply Bytes.beVal_congr
    intro k hk
    have hread := hbuf₃ rfl (4 * i + k) (by omega)
    rw [hst₂, hst₁] at hread
    rw [Bytes.drop_apply, Bytes.drop_apply, Nat.add_assoc]
    exact hread
  have hhd : hd₃.data = hd.data ∧ hd₃.io = hd.io ∧ hd₃.len = hd.len := by
    have hst : hd₃ = { hd₂ with tick := hd₂.tick + 1 } := hst₃
    rw [hst, hst₂, hst₁]
    exact ⟨rfl, rfl, rfl⟩
  have hstart : (1536 + numBatEntries g * 4 + 511) % 2 ^ 64 / 512 * 512 = start g := by
    unfold start batLen
    omega
  have hend : lastBlockEnd (fun i => buf₃.word 4 (4 * i)) (start g) stride (numBatEntries g) = free := by
    rw [lastBlockEnd_congr _ hpt]
    exact ht.lastBlockEnd_eq
  dsimp only at hopen
  rw [hstart] at hopen
  cases hopen
  refine ⟨⟨⟨hb, rfl, rfl, rfl, rfl, ?_, fun k hk => ?_⟩, ?_, ?_⟩, ⟨hhd.1, hhd.2.1⟩, hpt⟩
  · show buf₁.word 2 56 * buf₁.word 1 58 * buf₁.word 1 59 = g.sectors
    rw [hw₁.cyls, hw₁.heads, hw₁.secs]
    rfl
  · show withChecksum buf₁ 0 k = withChecksum (footer g timestamp) 0 k
    unfold withChecksum Bytes.write
    split_ifs
    · rfl
    · exact hfooter k hk
  · show Table g _ (lastBlockEnd (fun i => buf₃.word 4 (4 * i)) (start g) stride (numBatEntries g))
    rw [hend]
    exact ht.congr hpt
  · show OnDisk g timestamp _ (lastBlockEnd (fun i => buf₃.word 4 (4 * i)) (start g) stride (numBatEntries g)) hd₃
    rw [hend]
    exact hdisk.congr hpt hhd.1 hhd.2.2

/-- A host that does not fail opens an image. -/
theorem vpcOpen_reliable (hb : g.Bounded) (hdisk : OnDisk g timestamp pt free hd) (hio : hd.Reliable) :
    ∃ s, vpcOpen hd = some s := by
  have hN := hb.numBatEntries_le
  have hread : ∀ off k, k < 512 → Bytes.write (fun _ => 0) 0 headerSize (hd.data.drop off) k = hd.data (off + k) := by
    intro off k hk
    have hmem := @Bytes.write_apply_of_mem (fun _ => 0) (hd.data.drop off) 0 headerSize k hk
    rwa [Nat.zero_add] at hmem
  have hw₁ := footerWords hb fun k hk => (hread 0 k hk).trans ((congrArg hd.data (Nat.zero_add k)).trans (hdisk.header k hk))
  have hw₂ := dyndiskWords hb fun k hk => (hread 512 k hk).trans (hdisk.dyndisk k (by omega))
  unfold vpcOpen
  obtain ⟨t₁, h₁⟩ := HostFile.bdrvPread_ok hio 0 (show headerSize < 2 ^ 31 by decide) fun _ => 0
  rw [h₁]
  dsimp only
  rw [if_neg (not_not.2 hw₁.creator), hw₁.dataOffset]
  obtain ⟨t₂, h₂⟩ := @HostFile.bdrvPread_ok { hd with tick := t₁ } hio 512 headerSize (by decide) fun _ => 0
  rw [h₂]
  dsimp only
  rw [if_neg (not_not.2 hw₂.magic), hw₂.tableOffset, hw₂.maxTableEntries, Nat.mod_eq_of_lt (by omega)]
  obtain ⟨t₃, h₃⟩ := @HostFile.bdrvPread_ok { hd with tick := t₂ } hio 1536 (numBatEntries g * 4) (by omega) fun _ => 0
  rw [h₃]
  exact ⟨_, rfl⟩

theorem table_create (g : Geometry) : Table g (fun _ => unused) (start g) := by
  have hnone : allocated (fun _ => unused) (numBatEntries g) = ∅ := by
    simp [allocated]
  refine ⟨?_, fun i _ ha => absurd rfl ha, fun i _ i' _ ha => absurd rfl ha, .inl rfl⟩
  rw [hnone, Finset.card_empty, Nat.zero_mul, Nat.add_zero]

/-- The file of a new image. -/
theorem onDisk_create {total : ℕ} {io : ℕ → Option (ℕ → Bool)} (hcreate : vpcCreate total timestamp io = some hd)
    (hg : calculateGeometry total = some g) : OnDisk g timestamp (fun _ => unused) (start g) hd := by
  unfold vpcCreate at hcreate
  rw [hg] at hcreate
  cases hcreate
  have hbat := batLen_ge g
  have hstart : start g = 1536 + batLen g := rfl
  have hnone : allocated (fun _ => unused) (numBatEntries g) = ∅ := by
    simp [allocated]
  refine ⟨fun k hk => ?_, fun k hk => ?_, fun i hi => ?_, fun k hk => ?_, fun k hk => ?_, rfl⟩
  · dsimp only
    rw [Bytes.write_apply_of_not_mem (by omega), Bytes.write_apply_of_not_mem (by omega),
      Bytes.write_apply_of_not_mem (by omega)]
    have hmem := @Bytes.write_apply_of_mem (fun _ => 0) (footer g timestamp) 0 512 k hk
    rwa [Nat.zero_add] at hmem
  · exact Bytes.write_apply_of_mem hk
  · have hff : ∀ k < 4, (Bytes.write (Bytes.write (Bytes.write (Bytes.write (fun _ => 0) 0 512 (footer g timestamp))
        (1536 + batLen g) 512 (footer g timestamp)) 1536 (batLen g) (fun _ => 0xff)) 512 1024 (dyndiskHeader g))
          (1536 + 4 * i + k) = 0xff := by
      intro k hk
      rw [Bytes.write_apply_of_not_mem (by omega), Nat.add_assoc]
      exact Bytes.write_apply_of_mem (by omega)
    have hword := @Bytes.beVal_congr _ (fun _ => 0xff) 4 hff
    exact hword
  · rw [hnone, Finset.card_empty]
    show _ = footer g timestamp k
    dsimp only
    rw [hstart, Bytes.write_apply_of_not_mem (by omega), Bytes.write_apply_of_not_mem (by omega)]
    exact Bytes.write_apply_of_mem hk
  · dsimp only
    rw [Bytes.write_apply_of_not_mem (by omega), Bytes.write_apply_of_not_mem (by omega),
      Bytes.write_apply_of_not_mem (by omega), Bytes.write_apply_of_not_mem (by omega)]

end Ar7Qemu.Vpc
