import Ar7Qemu.Block.VpcOpen

/-! Which headers keep the table of an open image in bounds, whatever is written to it. The number of
sectors comes from the geometry of the footer, the block and the table from the other header, and
nothing compares them. A lookup checks its index, an allocation does not. The sizes are sums and
products of 32 and 64 bits, and the place of a new block is entered with 32 bits. -/

namespace Ar7Qemu.Vpc

open Lib Block

/-! ### What is looked at -/

/-- The table entries that `get_sector_offset` looks at. -/
def lookedUp (s : VpcState) (sectorNum : ℕ) : List ℕ :=
  if s.maxTableEntries ≤ tableIndex s sectorNum then [] else [tableIndex s sectorNum]

/-- The table entries that `alloc_block` looks at and sets. -/
def allocEntries (s : VpcState) (sectorNum : ℕ) : List ℕ :=
  if s.totalSectors < sectorNum then [] else [tableIndex s sectorNum]

/-- The table is indexed in bounds for each sector, there is a block size, no sum or product of the
sizes and offsets wraps round, and the place of a block that is allocated next fits its entry. -/
structure BoundsSafe (s : VpcState) : Prop where
  lookup : ∀ n < s.totalSectors, ∀ i ∈ lookedUp s n, i < s.maxTableEntries
  alloc : ∀ n < s.totalSectors, ∀ i ∈ allocEntries s n, i < s.maxTableEntries
  blockSize : s.blockSize ≠ 0
  tableSize : s.maxTableEntries * 4 < 2 ^ 31
  tableEnd : s.batOffset + s.maxTableEntries * 4 + 511 < 2 ^ 64
  blockLength : s.blockSize + s.bitmapSize < 2 ^ 32
  blockEnd : ∀ i, 512 * s.pagetable i + s.bitmapSize + s.blockSize < 2 ^ 63
  growth : ∀ n < s.totalSectors, s.pagetable (tableIndex s n) = unused →
    s.freeDataBlockOffset / 512 < 2 ^ 32 ∧ s.freeDataBlockOffset + (s.blockSize + s.bitmapSize) < 2 ^ 64
  sector : ∀ n < s.totalSectors, n * 512 < 2 ^ 63
  index : ∀ n < s.totalSectors, n * 512 / s.blockSize < 2 ^ 32
  entry : ∀ n < s.totalSectors, 4 * tableIndex s n < 2 ^ 32 ∧ s.batOffset + 4 * tableIndex s n < 2 ^ 64
  inBlock : ∀ n < s.totalSectors, 512 * (n * 512 % s.blockSize / 512) < 2 ^ 32 ∧ blockOffset s n < 2 ^ 64

/-- The states of an open image: its host may fail requests by any schedule, and sectors are written. -/
inductive Reached (s : VpcState) : VpcState → Prop
  | opened (io : ℕ → Option (ℕ → Bool)) : Reached s { s with hd := { s.hd with io := io } }
  | written {s' : VpcState} (n : ℕ) (buf : Bytes) : Reached s s' → n < s.totalSectors → Reached s (writeSector s' n buf).2

/-! ### The headers -/

/-- The bytes that the header of a dynamic disk is read from. -/
def dyndiskBytes (hd : HostFile) : Bytes := hd.data.drop (hd.data.word 8 16)

def sectorsOf (footer : Bytes) : ℕ := footer.word 2 56 * footer.word 1 58 * footer.word 1 59

def bitmapSizeOf (blockSize : ℕ) : ℕ := (blockSize / (8 * 512) + 511) / 512 * 512

/-- The entries of sectors that have no block. -/
def freeEntries (sectors blockSize : ℕ) (table : ℕ → ℕ) : Finset ℕ :=
  ((Finset.range sectors).image fun n => n * 512 / blockSize).filter fun i => table i = unused

/-- The table in the file. -/
def fileTable (hd : HostFile) (i : ℕ) : ℕ := (hd.data.drop ((dyndiskBytes hd).word 8 16)).word 4 (4 * i)

/-- The end of the table, or of the last block that it refers to. -/
def blocksEnd (dyndisk : Bytes) (table : ℕ → ℕ) : ℕ :=
  lastBlockEnd table ((dyndisk.word 8 16 + dyndisk.word 4 28 * 4 + 511) / 512 * 512)
    (bitmapSizeOf (dyndisk.word 4 32) + dyndisk.word 4 32) (dyndisk.word 4 28)

/-- The last sector has an entry, the sizes are small enough, and there is room for the blocks of all
sectors below the place that an unused entry stands for. -/
structure HeadersFit (footer dyndisk : Bytes) (table : ℕ → ℕ) : Prop where
  blockSize : dyndisk.word 4 32 ≠ 0
  tableSize : dyndisk.word 4 28 < 2 ^ 29
  blockLength : dyndisk.word 4 32 + bitmapSizeOf (dyndisk.word 4 32) < 2 ^ 32
  tableEnd : dyndisk.word 8 16 + dyndisk.word 4 28 * 4 + 511 < 2 ^ 64
  lastSector : sectorsOf footer = 0 ∨ (sectorsOf footer - 1) * 512 / dyndisk.word 4 32 < dyndisk.word 4 28
  room : ∀ k, (freeEntries (sectorsOf footer) (dyndisk.word 4 32) table).card = k + 1 →
    blocksEnd dyndisk table + k * (dyndisk.word 4 32 + bitmapSizeOf (dyndisk.word 4 32)) < 512 * unused

/-- What an open image takes from the headers. -/
structure Opened (footer dyndisk : Bytes) (table : ℕ → ℕ) (s : VpcState) : Prop where
  totalSectors : s.totalSectors = sectorsOf footer
  maxTableEntries : s.maxTableEntries = dyndisk.word 4 28
  batOffset : s.batOffset = dyndisk.word 8 16
  blockSize : s.blockSize = dyndisk.word 4 32
  bitmapSize : s.bitmapSize = bitmapSizeOf (dyndisk.word 4 32)
  entries : ∀ i, s.pagetable i < 2 ^ 32
  free : s.freeDataBlockOffset =
    lastBlockEnd s.pagetable ((s.batOffset + s.maxTableEntries * 4 % 2 ^ 32 + 511) % 2 ^ 64 / 512 * 512)
      (s.bitmapSize + s.blockSize) (HostFile.intCount s.maxTableEntries)
  table : s.maxTableEntries < 2 ^ 29 → ∀ i < s.maxTableEntries, s.pagetable i = table i

theorem vpcOpen_headers {hd : HostFile} {s : VpcState} (hopen : vpcOpen hd = some s) :
    Opened hd.data (dyndiskBytes hd) (fileTable hd) s := by
  unfold vpcOpen at hopen
  obtain ⟨hst₁, hbuf₁⟩ := bdrvPread_spec hd 0 (show 0 < headerSize by decide) (by decide) fun _ => 0
  generalize hd.bdrvPread 0 headerSize (fun _ => 0) = r₁ at hopen hst₁ hbuf₁
  obtain ⟨⟨ok₁, buf₁⟩, hd₁⟩ := r₁
  obtain rfl | rfl := Bool.eq_false_or_eq_true ok₁ |>.symm
  · cases hopen
  have hfooter : ∀ k < 512, buf₁ k = hd.data k := by
    intro k hk
    exact (hbuf₁ rfl k hk).trans (congrArg hd.data (Nat.zero_add k))
  dsimp only at hopen hst₁
  split at hopen
  · cases hopen
  rw [word_of_read hfooter (show 16 + 8 ≤ 512 by decide)] at hopen
  obtain ⟨hst₂, hbuf₂⟩ := bdrvPread_spec hd₁ (hd.data.word 8 16) (show 0 < headerSize by decide) (by decide) fun _ => 0
  generalize hd₁.bdrvPread (hd.data.word 8 16) headerSize (fun _ => 0) = r₂ at hopen hst₂ hbuf₂
  obtain ⟨⟨ok₂, buf₂⟩, hd₂⟩ := r₂
  obtain rfl | rfl := Bool.eq_false_or_eq_true ok₂ |>.symm
  · cases hopen
  have hdyndisk : ∀ k < 512, buf₂ k = dyndiskBytes hd k := by
    intro k hk
    have hread := hbuf₂ rfl k hk
    rw [hst₁] at hread
    exact hread
  dsimp only at hopen hst₂
  split at hopen
  · cases hopen
  have hread₃ : ∀ n, 0 < n → n < 2 ^ 31 → (hd₂.bdrvPread (buf₂.word 8 16) n fun _ => 0).1.1 = true →
      ∀ k < n, (hd₂.bdrvPread (buf₂.word 8 16) n fun _ => 0).1.2 k = hd.data (buf₂.word 8 16 + k) := by
    intro n hpos hn hok k hk
    have hdata : hd₂.data = hd.data := by rw [hst₂, hst₁]
    have hread := (bdrvPread_spec hd₂ (buf₂.word 8 16) hpos hn fun _ => 0).2 hok k hk
    rwa [hdata] at hread
  generalize hr₃ : hd₂.bdrvPread (buf₂.word 8 16) (buf₂.word 4 28 * 4 % 2 ^ 32) (fun _ => 0) = r₃ at hopen
  obtain ⟨⟨ok₃, buf₃⟩, hd₃⟩ := r₃
  obtain rfl | rfl := Bool.eq_false_or_eq_true ok₃ |>.symm
  · cases hopen
  cases hopen
  have hword : ∀ w off, off + w ≤ 512 → buf₂.word w off = (dyndiskBytes hd).word w off := fun w off h =>
    word_of_read hdyndisk h
  refine ⟨?_, hword 4 28 (by decide), hword 8 16 (by decide), hword 4 32 (by decide), ?_, fun i => ?_, rfl, ?_⟩
  · show buf₁.word 2 56 * buf₁.word 1 58 * buf₁.word 1 59 = _
    rw [word_of_read hfooter (by decide), word_of_read hfooter (by decide), word_of_read hfooter (by decide)]
    rfl
  · show (buf₂.word 4 32 / (8 * 512) + 511) / 512 * 512 = _
    rw [hword 4 32 (by decide)]
    rfl
  · exact Bytes.word_lt buf₃ 4 (4 * i)
  · show buf₂.word 4 28 < 2 ^ 29 → ∀ i < buf₂.word 4 28, buf₃.word 4 (4 * i) = _
    intro hM i hi
    have hread := hread₃ (buf₂.word 4 28 * 4 % 2 ^ 32) (by omega) (by omega) (by rw [hr₃])
    rw [hr₃] at hread
    rw [fileTable, ← hword 8 16 (by decide)]
    apply Bytes.beVal_congr
    intro k hk
    rw [Bytes.drop_apply, Bytes.drop_apply, Bytes.drop_apply]
    exact hread (4 * i + k) (by omega)

theorem sectorsOf_lt (footer : Bytes) : sectorsOf footer < 2 ^ 32 := by
  have hc := footer.word_lt 2 56
  have hh := footer.word_lt 1 58
  have hs := footer.word_lt 1 59
  have hle : sectorsOf footer ≤ 65535 * 255 * 255 :=
    Nat.mul_le_mul (Nat.mul_le_mul (by omega) (by omega)) (by omega)
  exact Nat.lt_of_le_of_lt hle (by decide)

/-! ### What a write does to the table -/

variable {footer dyndisk : Bytes} {table : ℕ → ℕ} {s s' : VpcState} {n : ℕ}

/-- What no write changes. -/
structure SameSizes (s s' : VpcState) : Prop where
  totalSectors : s'.totalSectors = s.totalSectors
  maxTableEntries : s'.maxTableEntries = s.maxTableEntries
  batOffset : s'.batOffset = s.batOffset
  blockSize : s'.blockSize = s.blockSize
  bitmapSize : s'.bitmapSize = s.bitmapSize

theorem SameSizes.trans {s'' : VpcState} (h : SameSizes s s') (h' : SameSizes s' s'') : SameSizes s s'' :=
  ⟨h'.totalSectors.trans h.totalSectors, h'.maxTableEntries.trans h.maxTableEntries, h'.batOffset.trans h.batOffset,
    h'.blockSize.trans h.blockSize, h'.bitmapSize.trans h.bitmapSize⟩

theorem SameSizes.tableIndex (h : SameSizes s s') (n : ℕ) : tableIndex s' n = tableIndex s n := by
  unfold Vpc.tableIndex
  rw [h.blockSize]

/-- The entry of a sector gets the end of the blocks. -/
def entered (s : VpcState) (n : ℕ) : ℕ → ℕ :=
  Function.update s.pagetable (tableIndex s n) (s.freeDataBlockOffset / 512 % 2 ^ 32)

/-- The end behind a new block. -/
def grownEnd (s : VpcState) : ℕ := (s.freeDataBlockOffset + (s.blockSize + s.bitmapSize) % 2 ^ 32) % 2 ^ 64

theorem getSectorOffset_same (s : VpcState) (n : ℕ) (write : Bool) :
    SameSizes s (getSectorOffset s n write).2 ∧ (getSectorOffset s n write).2.pagetable = s.pagetable ∧
      (getSectorOffset s n write).2.freeDataBlockOffset = s.freeDataBlockOffset := by
  unfold getSectorOffset setBitmap
  split_ifs <;> exact ⟨⟨rfl, rfl, rfl, rfl, rfl⟩, rfl, rfl⟩

/-- An allocation sets the entry of a sector without a block, and where it fails the end stays. -/
theorem allocBlock_cases (s : VpcState) (n : ℕ) : SameSizes s (allocBlock s n).2 ∧
    ((allocBlock s n).2.pagetable = s.pagetable ∧ (allocBlock s n).2.freeDataBlockOffset = s.freeDataBlockOffset ∨
      s.pagetable (tableIndex s n) = unused ∧ (allocBlock s n).2.pagetable = entered s n ∧
        ((allocBlock s n).2.freeDataBlockOffset = s.freeDataBlockOffset ∨
          (allocBlock s n).2.freeDataBlockOffset = grownEnd s)) := by
  unfold allocBlock
  dsimp only
  split_ifs with htotal hun hfooter hbat
  · exact ⟨⟨rfl, rfl, rfl, rfl, rfl⟩, .inl ⟨rfl, rfl⟩⟩
  · exact ⟨⟨rfl, rfl, rfl, rfl, rfl⟩, .inl ⟨rfl, rfl⟩⟩
  · obtain ⟨hsame, hpt, hfree⟩ := getSectorOffset_same _ n false
    exact ⟨⟨hsame.totalSectors, hsame.maxTableEntries, hsame.batOffset, hsame.blockSize, hsame.bitmapSize⟩,
      .inr ⟨not_not.1 hun, hpt, .inr hfree⟩⟩
  · exact ⟨⟨rfl, rfl, rfl, rfl, rfl⟩, .inr ⟨not_not.1 hun, rfl, .inl rfl⟩⟩
  · exact ⟨⟨rfl, rfl, rfl, rfl, rfl⟩, .inr ⟨not_not.1 hun, rfl, .inl rfl⟩⟩

theorem writeSector_cases (s : VpcState) (n : ℕ) (buf : Bytes) : SameSizes s (writeSector s n buf).2 ∧
    ((writeSector s n buf).2.pagetable = s.pagetable ∧ (writeSector s n buf).2.freeDataBlockOffset = s.freeDataBlockOffset ∨
      s.pagetable (tableIndex s n) = unused ∧ (writeSector s n buf).2.pagetable = entered s n ∧
        ((writeSector s n buf).2.freeDataBlockOffset = s.freeDataBlockOffset ∨
          (writeSector s n buf).2.freeDataBlockOffset = grownEnd s)) := by
  have hlookup := getSectorOffset_same s n true
  have halloc := allocBlock_cases s n
  unfold writeSector
  by_cases hun : Unallocated s n
  · have hnone : getSectorOffset s n true = (none, s) := if_pos hun
    rw [hnone]
    dsimp only
    generalize allocBlock s n = r at halloc
    obtain ⟨_ | offset, t⟩ := r
    · exact halloc
    · obtain ⟨hsame, hcases⟩ := halloc
      exact ⟨hsame.trans ⟨rfl, rfl, rfl, rfl, rfl⟩, hcases⟩
  · obtain ⟨t, ht⟩ : ∃ t, getSectorOffset s n true = (some (blockOffset s n), t) := ⟨_, if_neg hun⟩
    rw [ht] at hlookup ⊢
    obtain ⟨hsame, hpt, hfree⟩ := hlookup
    exact ⟨hsame.trans ⟨rfl, rfl, rfl, rfl, rfl⟩, .inl ⟨hpt, hfree⟩⟩

theorem reliable_bdrvPwrite {f : HostFile} (hf : f.Reliable) (off m : ℕ) (d : Bytes) : (f.bdrvPwrite off m d).2.Reliable := by
  unfold HostFile.bdrvPwrite
  dsimp only
  split_ifs
  · exact hf
  · rw [hf]
    exact hf

theorem allocBlock_reliable (hio : s.hd.Reliable) (hn : n ≤ s.totalSectors) (hun : s.pagetable (tableIndex s n) = unused) :
    (allocBlock s n).2.pagetable = entered s n ∧ (allocBlock s n).2.freeDataBlockOffset = grownEnd s ∧
      (allocBlock s n).2.hd.Reliable := by
  have hbitmap := reliable_bdrvPwrite hio s.freeDataBlockOffset s.bitmapSize fun _ => 0xff
  unfold allocBlock
  dsimp only
  rw [if_neg (not_lt.2 hn), if_neg (not_not.2 hun)]
  unfold rewriteFooter
  dsimp only
  generalize (s.hd.bdrvPwrite s.freeDataBlockOffset s.bitmapSize fun _ => 0xff).2 = f at hbitmap
  have hfooter := reliable_bdrvPwrite hbitmap (grownEnd s) headerSize s.footerBuf
  obtain ⟨t, ht⟩ := HostFile.bdrvPwrite_ok hbitmap (grownEnd s) (show headerSize < 2 ^ 31 by decide) s.footerBuf
  unfold grownEnd at hfooter ht
  rw [ht] at hfooter ⊢
  dsimp only at hfooter ⊢
  rw [if_pos rfl]
  generalize HostFile.mk _ _ _ _ = f' at hfooter
  have hentry := reliable_bdrvPwrite hfooter (s.batOffset + 4 * tableIndex s n % 2 ^ 32) 4
    (Bytes.beByte 4 (Function.update s.pagetable (tableIndex s n) (s.freeDataBlockOffset / 512 % 2 ^ 32) (tableIndex s n)))
  obtain ⟨t', ht'⟩ := HostFile.bdrvPwrite_ok hfooter (s.batOffset + 4 * tableIndex s n % 2 ^ 32) (show 4 < 2 ^ 31 by decide)
    (Bytes.beByte 4 (Function.update s.pagetable (tableIndex s n) (s.freeDataBlockOffset / 512 % 2 ^ 32) (tableIndex s n)))
  rw [ht'] at hentry ⊢
  rw [if_pos rfl]
  have hsame : ∀ t : VpcState, (getSectorOffset t n false).2 = t := fun t => by
    unfold getSectorOffset
    split <;> rfl
  rw [hsame]
  exact ⟨rfl, rfl, hentry⟩

/-- A host that does not fail takes the new block. -/
theorem writeSector_reliable (hio : s.hd.Reliable) (hn : n ≤ s.totalSectors) (hun : s.pagetable (tableIndex s n) = unused)
    (buf : Bytes) : (writeSector s n buf).2.pagetable = entered s n ∧
      (writeSector s n buf).2.freeDataBlockOffset = grownEnd s ∧ (writeSector s n buf).2.hd.Reliable := by
  have halloc := allocBlock_reliable hio hn hun
  have hnone : getSectorOffset s n true = (none, s) := if_pos (.inr hun)
  unfold writeSector
  rw [hnone]
  dsimp only
  generalize allocBlock s n = r at halloc
  obtain ⟨_ | offset, t⟩ := r
  · exact halloc
  · exact ⟨halloc.1, halloc.2.1, reliable_bdrvPwrite halloc.2.2 offset 512 buf⟩

/-! ### Growth -/

/-- The entries of the sectors without a block in a state. -/
def unallocatedEntries (s : VpcState) : Finset ℕ := freeEntries s.totalSectors s.blockSize s.pagetable

theorem mem_freeEntries {sectors blockSize i : ℕ} :
    i ∈ freeEntries sectors blockSize table ↔ (∃ n < sectors, n * 512 / blockSize = i) ∧ table i = unused := by
  simp [freeEntries]

/-- An entry that gets a place is not free any more. -/
theorem freeEntries_update {sectors blockSize i v : ℕ} (hv : v ≠ unused) :
    freeEntries sectors blockSize (Function.update table i v) = (freeEntries sectors blockSize table).erase i := by
  ext j
  rw [Finset.mem_erase, mem_freeEntries, mem_freeEntries]
  by_cases hj : j = i
  · rw [hj, Function.update_self]
    exact iff_of_false (fun h => hv h.2) fun h => h.1 rfl
  · rw [Function.update_of_ne hj, and_iff_right hj]

/-- The sizes are small enough. -/
structure SizesFit (s : VpcState) : Prop where
  blockSize : s.blockSize ≠ 0
  tableSize : s.maxTableEntries < 2 ^ 29
  blockLength : s.blockSize + s.bitmapSize < 2 ^ 32
  tableEnd : s.batOffset + s.maxTableEntries * 4 + 511 < 2 ^ 64
  lastSector : s.totalSectors = 0 ∨ (s.totalSectors - 1) * 512 / s.blockSize < s.maxTableEntries

theorem SizesFit.tableIndex_eq (h : SizesFit s) (hn : n < s.totalSectors) :
    tableIndex s n = n * 512 / s.blockSize ∧ n * 512 / s.blockSize < s.maxTableEntries := by
  have hle : n * 512 / s.blockSize ≤ (s.totalSectors - 1) * 512 / s.blockSize := Nat.div_le_div_right (by omega)
  have hsize := h.tableSize
  have hlast := h.lastSector
  have hlt : n * 512 / s.blockSize < s.maxTableEntries := by omega
  exact ⟨Nat.mod_eq_of_lt (by omega), hlt⟩

theorem SizesFit.same (h : SizesFit s) (hsame : SameSizes s s') : SizesFit s' := by
  refine ⟨?_, ?_, ?_, ?_, ?_⟩
  · rw [hsame.blockSize]
    exact h.blockSize
  · rw [hsame.maxTableEntries]
    exact h.tableSize
  · rw [hsame.blockSize, hsame.bitmapSize]
    exact h.blockLength
  · rw [hsame.batOffset, hsame.maxTableEntries]
    exact h.tableEnd
  · rw [hsame.totalSectors, hsame.blockSize, hsame.maxTableEntries]
    exact h.lastSector

/-- There is room for the blocks of all sectors. -/
def Room (s : VpcState) : Prop :=
  ∀ k, (unallocatedEntries s).card = k + 1 → s.freeDataBlockOffset + k * (s.blockSize + s.bitmapSize) < 512 * unused

theorem SizesFit.mem_unallocated (h : SizesFit s) (hn : n < s.totalSectors) (hun : s.pagetable (tableIndex s n) = unused) :
    tableIndex s n ∈ unallocatedEntries s :=
  mem_freeEntries.2 ⟨⟨n, hn, (h.tableIndex_eq hn).1.symm⟩, hun⟩

/-- With room for its block, a sector gets a place that is not that of an unused entry. -/
theorem Room.place_lt (hroom : Room s) (h : SizesFit s) (hn : n < s.totalSectors)
    (hun : s.pagetable (tableIndex s n) = unused) : s.freeDataBlockOffset / 512 < unused := by
  obtain ⟨k, hk⟩ := Nat.exists_eq_succ_of_ne_zero (Finset.card_pos.2 ⟨_, h.mem_unallocated hn hun⟩).ne'
  have hlt := hroom k hk
  omega

theorem grownEnd_eq (h : SizesFit s) (hplace : s.freeDataBlockOffset / 512 < unused) :
    grownEnd s = s.freeDataBlockOffset + (s.blockSize + s.bitmapSize) := by
  have hlen := h.blockLength
  unfold unused at hplace
  unfold grownEnd
  rw [Nat.mod_eq_of_lt hlen]
  omega

/-- After a write there is still room. -/
theorem Room.writeSector (hroom : Room s) (h : SizesFit s) (hn : n < s.totalSectors) (buf : Bytes) :
    Room (writeSector s n buf).2 := by
  obtain ⟨hsame, hcases⟩ := writeSector_cases s n buf
  generalize (Vpc.writeSector s n buf).2 = t at hsame hcases
  unfold Room unallocatedEntries
  rw [hsame.totalSectors, hsame.blockSize, hsame.bitmapSize]
  rcases hcases with ⟨hpt, hfree⟩ | ⟨hun, hpt, hfree⟩
  · rw [hpt, hfree]
    exact hroom
  · have hplace := hroom.place_lt h hn hun
    have hmem := h.mem_unallocated hn hun
    have hvalue : s.freeDataBlockOffset / 512 % 2 ^ 32 ≠ unused := by
      unfold unused at hplace ⊢
      omega
    rw [hpt, entered, freeEntries_update hvalue]
    intro k hk
    have hcard : (unallocatedEntries s).card = (k + 1) + 1 := by
      rw [← hk]
      exact (Finset.card_erase_add_one hmem).symm
    have hlt := hroom (k + 1) hcard
    rw [Nat.add_mul, Nat.one_mul] at hlt
    rcases hfree with hfree | hfree
    · omega
    · rw [hfree, grownEnd_eq h hplace]
      omega

/-! ### The sizes that are in bounds -/

/-- What holds in the states of an image whose headers fit. -/
structure GrowthInv (s : VpcState) : Prop where
  sizes : SizesFit s
  room : Room s
  sectors : s.totalSectors < 2 ^ 32
  entries : ∀ i, s.pagetable i < 2 ^ 32

theorem GrowthInv.boundsSafe (h : GrowthInv s) : BoundsSafe s := by
  obtain ⟨hB, hM, hlen, hend, hlast⟩ := h.sizes
  have hBpos : 0 < s.blockSize := Nat.pos_of_ne_zero hB
  have hT := h.sectors
  have hindex := fun n (hn : n < s.totalSectors) => h.sizes.tableIndex_eq hn
  have hin : ∀ n, s.blockSize > n * 512 % s.blockSize := fun n => Nat.mod_lt _ hBpos
  constructor
  case lookup =>
    intro n hn i hi
    unfold lookedUp at hi
    split at hi
    · cases hi
    · rw [List.mem_singleton.1 hi]
      omega
  case alloc =>
    intro n hn i hi
    have hn' := hindex n hn
    rw [allocEntries, if_neg (by omega), List.mem_singleton] at hi
    omega
  case blockSize => exact hB
  case tableSize => omega
  case tableEnd => exact hend
  case blockLength => exact hlen
  case blockEnd =>
    intro i
    have hi := h.entries i
    omega
  case growth =>
    intro n hn hun
    have hplace := h.room.place_lt h.sizes hn hun
    unfold unused at hplace
    omega
  case sector =>
    intro n hn
    have hlt : n < 2 ^ 32 := hn.trans hT
    clear hend hlast hlen
    omega
  case index =>
    intro n hn
    have hn' := hindex n hn
    omega
  case entry =>
    intro n hn
    have hn' := hindex n hn
    omega
  case inBlock =>
    intro n hn
    have hi := h.entries (tableIndex s n)
    have hn' := hin n
    unfold blockOffset bitmapOffset
    omega

theorem GrowthInv.writeSector (h : GrowthInv s) (hn : n < s.totalSectors) (buf : Bytes) :
    GrowthInv (writeSector s n buf).2 := by
  obtain ⟨hsame, hcases⟩ := writeSector_cases s n buf
  refine ⟨h.sizes.same hsame, h.room.writeSector h.sizes hn buf, hsame.totalSectors ▸ h.sectors, fun i => ?_⟩
  rcases hcases with ⟨hpt, -⟩ | ⟨-, hpt, -⟩
  · rw [hpt]
    exact h.entries i
  · rw [hpt, entered, Function.update_apply]
    split_ifs
    · exact Nat.mod_lt _ (by decide)
    · exact h.entries i

theorem Reached.sameSizes (hr : Reached s s') : SameSizes s s' := by
  induction hr with
  | opened io => exact ⟨rfl, rfl, rfl, rfl, rfl⟩
  | written n buf _ _ ih => exact ih.trans (writeSector_cases _ n buf).1

theorem GrowthInv.reached (h : GrowthInv s) (hr : Reached s s') : GrowthInv s' := by
  induction hr with
  | opened io => exact ⟨h.sizes.same ⟨rfl, rfl, rfl, rfl, rfl⟩, h.room, h.sectors, h.entries⟩
  | written n buf hr hn ih => exact ih.writeSector (hr.sameSizes.totalSectors ▸ hn) buf

theorem Opened.sizesFit_iff (h : Opened footer dyndisk table s) :
    SizesFit s ↔ dyndisk.word 4 32 ≠ 0 ∧ dyndisk.word 4 28 < 2 ^ 29 ∧
      dyndisk.word 4 32 + bitmapSizeOf (dyndisk.word 4 32) < 2 ^ 32 ∧
      dyndisk.word 8 16 + dyndisk.word 4 28 * 4 + 511 < 2 ^ 64 ∧
      (sectorsOf footer = 0 ∨ (sectorsOf footer - 1) * 512 / dyndisk.word 4 32 < dyndisk.word 4 28) := by
  rw [← h.bitmapSize, ← h.blockSize, ← h.maxTableEntries, ← h.batOffset, ← h.totalSectors]
  exact ⟨fun ⟨hB, hM, hlen, hend, hlast⟩ => ⟨hB, hM, hlen, hend, hlast⟩,
    fun ⟨hB, hM, hlen, hend, hlast⟩ => ⟨hB, hM, hlen, hend, hlast⟩⟩

/-- What is free in an open image is free in its file. -/
theorem Opened.room_iff (h : Opened footer dyndisk table s) (hfit : SizesFit s) : Room s ↔
    ∀ k, (freeEntries (sectorsOf footer) (dyndisk.word 4 32) table).card = k + 1 →
      blocksEnd dyndisk table + k * (dyndisk.word 4 32 + bitmapSizeOf (dyndisk.word 4 32)) < 512 * unused := by
  have hM := hfit.tableSize
  have hend := hfit.tableEnd
  have hfree : s.freeDataBlockOffset = blocksEnd dyndisk table := by
    rw [h.free, blocksEnd, ← h.maxTableEntries, ← h.batOffset, ← h.bitmapSize, ← h.blockSize,
      HostFile.intCount_of_lt (by omega), Nat.mod_eq_of_lt (by omega : s.maxTableEntries * 4 < 2 ^ 32), Nat.mod_eq_of_lt hend]
    exact lastBlockEnd_congr _ fun i hi => h.table hM i hi
  have hentries : unallocatedEntries s = freeEntries (sectorsOf footer) (dyndisk.word 4 32) table := by
    rw [unallocatedEntries, ← h.totalSectors, ← h.blockSize]
    ext i
    rw [mem_freeEntries, mem_freeEntries]
    refine and_congr_right ?_
    rintro ⟨n, hn, rfl⟩
    rw [h.table hM _ (hfit.tableIndex_eq hn).2]
  rw [Room, hentries, hfree, h.blockSize, h.bitmapSize]

theorem Opened.headersFit_iff (h : Opened footer dyndisk table s) : HeadersFit footer dyndisk table ↔ SizesFit s ∧ Room s := by
  constructor
  · intro hfit
    have hsizes := h.sizesFit_iff.2 ⟨hfit.blockSize, hfit.tableSize, hfit.blockLength, hfit.tableEnd, hfit.lastSector⟩
    exact ⟨hsizes, (h.room_iff hsizes).2 hfit.room⟩
  · rintro ⟨hsizes, hroom⟩
    obtain ⟨hB, hM, hlen, hend, hlast⟩ := h.sizesFit_iff.1 hsizes
    exact ⟨hB, hM, hlen, hend, hlast, (h.room_iff hsizes).1 hroom⟩

theorem BoundsSafe.sizesFit (h : BoundsSafe s) : SizesFit s := by
  have hsize := h.tableSize
  refine ⟨h.blockSize, by omega, h.blockLength, h.tableEnd, ?_⟩
  rcases Nat.eq_zero_or_pos s.totalSectors with hzero | hpos
  · exact .inl hzero
  -- the last sector is the one whose index is the largest
  · have hlast : s.totalSectors - 1 < s.totalSectors := by omega
    have hmem : tableIndex s (s.totalSectors - 1) ∈ allocEntries s (s.totalSectors - 1) := by
      rw [allocEntries, if_neg (by omega)]
      exact List.mem_singleton.2 rfl
    have hlt := h.alloc _ hlast _ hmem
    rw [tableIndex, Nat.mod_eq_of_lt (h.index _ hlast)] at hlt
    exact .inr hlt

/-! ### An image that grows -/

/-- No block gets the place that an unused entry stands for: the entry would stay unused, and blocks
allocated for it again and again would move the end until its place does not fit. -/
theorem place_lt_of_safe (hsafe : ∀ s', Reached s s' → BoundsSafe s') (d : ℕ) : ∀ s', Reached s s' → s'.hd.Reliable → 2 ^ 41 - s'.freeDataBlockOffset ≤ d →
    n < s'.totalSectors → s'.pagetable (tableIndex s' n) = unused → s'.freeDataBlockOffset / 512 < unused := by
  induction d with
  | zero =>
    intro s' hr _ hd hn hun
    have hplace := ((hsafe s' hr).growth n hn hun).1
    omega
  | succ d ih =>
    intro s' hr hio hd hn hun
    have hplace := ((hsafe s' hr).growth n hn hun).1
    have hsizes := (hsafe s' hr).sizesFit
    by_contra hge
    have hvalue : s'.freeDataBlockOffset / 512 % 2 ^ 32 = unused := by
      unfold unused at hge ⊢
      omega
    obtain ⟨hpt, hfree, hio'⟩ := writeSector_reliable hio hn.le hun fun _ => 0
    have hsame := (writeSector_cases s' n fun _ => 0).1
    have hgrown : grownEnd s' = s'.freeDataBlockOffset + (s'.blockSize + s'.bitmapSize) := by
      have hlen := hsizes.blockLength
      unfold grownEnd
      rw [Nat.mod_eq_of_lt hlen]
      omega
    have hB := hsizes.blockSize
    have hlt := ih _ (hr.written n _ (hr.sameSizes.totalSectors ▸ hn)) hio' (by rw [hfree, hgrown]; omega)
      (hsame.totalSectors ▸ hn) (by rw [hsame.tableIndex, hpt, entered, Function.update_self, hvalue])
    rw [hfree, hgrown] at hlt
    exact hge (lt_of_le_of_lt (Nat.div_le_div_right (Nat.le_add_right _ _)) hlt)

/-- Blocks are allocated for one free entry after the other. -/
theorem room_of_safe (hsafe : ∀ s', Reached s s' → BoundsSafe s') (k : ℕ) : ∀ s', Reached s s' → s'.hd.Reliable → (unallocatedEntries s').card = k + 1 →
    s'.freeDataBlockOffset + k * (s'.blockSize + s'.bitmapSize) < 512 * unused := by
  induction k with
  | zero =>
    intro s' hr hio hk
    obtain ⟨i, hi⟩ := Finset.card_pos.1 (by omega : 0 < (unallocatedEntries s').card)
    obtain ⟨⟨n, hn, hi'⟩, hun⟩ := mem_freeEntries.1 hi
    have hindex := ((hsafe s' hr).sizesFit.tableIndex_eq hn).1.trans hi'
    have hlt := place_lt_of_safe hsafe _ s' hr hio le_rfl hn (hindex.symm ▸ hun)
    omega
  | succ k ih =>
    intro s' hr hio hk
    have hsizes := (hsafe s' hr).sizesFit
    obtain ⟨i, hi⟩ := Finset.card_pos.1 (by omega : 0 < (unallocatedEntries s').card)
    obtain ⟨⟨n, hn, hi'⟩, hun⟩ := mem_freeEntries.1 hi
    have hindex := (hsizes.tableIndex_eq hn).1.trans hi'
    have hun' : s'.pagetable (tableIndex s' n) = unused := hindex.symm ▸ hun
    have hplace := place_lt_of_safe hsafe _ s' hr hio le_rfl hn hun'
    obtain ⟨hpt, hfree, hio'⟩ := writeSector_reliable hio hn.le hun' fun _ => 0
    have hsame := (writeSector_cases s' n fun _ => 0).1
    have hvalue : s'.freeDataBlockOffset / 512 % 2 ^ 32 ≠ unused := by
      unfold unused at hplace ⊢
      omega
    have hcard : (unallocatedEntries (writeSector s' n fun _ => 0).2).card = k + 1 := by
      rw [unallocatedEntries, hsame.totalSectors, hsame.blockSize, hpt, entered, freeEntries_update hvalue]
      have hmem := hsizes.mem_unallocated hn hun'
      have hone := Finset.card_erase_add_one hmem
      unfold unallocatedEntries at hone hk
      omega
    have hlt := ih _ (hr.written n _ (hr.sameSizes.totalSectors ▸ hn)) hio' hcard
    rw [hfree, grownEnd_eq hsizes hplace, hsame.blockSize, hsame.bitmapSize] at hlt
    rw [Nat.add_mul, Nat.one_mul]
    omega

/-- The headers of an image that is opened fit if and only if in every state that writes lead to the
table is indexed in bounds, no size or offset wraps round and each new block has a place. -/
theorem boundsSafe_iff {hd : HostFile} (hopen : vpcOpen hd = some s) :
    (∀ s', Reached s s' → BoundsSafe s') ↔ HeadersFit hd.data (dyndiskBytes hd) (fileTable hd) := by
  have h := vpcOpen_headers hopen
  rw [h.headersFit_iff]
  constructor
  · intro hsafe
    have hr : Reached s { s with hd := { s.hd with io := fun _ => none } } := .opened _
    have hroom : Room { s with hd := { s.hd with io := fun _ => none } } := fun k hk =>
      room_of_safe hsafe k _ hr (fun _ => rfl) hk
    exact ⟨(hsafe _ hr).sizesFit.same ⟨rfl, rfl, rfl, rfl, rfl⟩, hroom⟩
  · rintro ⟨hsizes, hroom⟩ s' hr
    have hT : s.totalSectors < 2 ^ 32 := h.totalSectors ▸ sectorsOf_lt hd.data
    exact (GrowthInv.reached ⟨hsizes, hroom, hT, h.entries⟩ hr).boundsSafe

/-! ### Small images -/

/-- The headers of an image of two sectors with blocks of one sector, and a table of unused entries. -/
def tinyFields (maxTableEntries batOffset : ℕ) : List Field :=
  [⟨0, 8, 0x636f6e6563746978⟩, ⟨16, 8, 512⟩, ⟨56, 2, 1⟩, ⟨58, 1, 1⟩, ⟨59, 1, 2⟩, ⟨512, 8, 0x6378737061727365⟩,
   ⟨528, 8, batOffset⟩, ⟨540, 4, maxTableEntries⟩, ⟨544, 4, 512⟩, ⟨batOffset, 4, unused⟩, ⟨batOffset + 4, 4, unused⟩]

def tinyImage (maxTableEntries batOffset : ℕ) : HostFile :=
  ⟨Bytes.record (tinyFields maxTableEntries batOffset), batOffset + 512, fun _ => none, 0⟩

/-- A host that does not fail opens each file with the two names and a table that can be allocated. -/
theorem vpcOpen_accepts {hd : HostFile} (hio : hd.Reliable) (hcreator : hd.data.word 8 0 = 0x636f6e6563746978)
    (hmagic : (dyndiskBytes hd).word 8 0 = 0x6378737061727365)
    (hsize : (dyndiskBytes hd).word 4 28 * 4 % 2 ^ 32 < 2 ^ 31) : ∃ s, vpcOpen hd = some s := by
  have hread : ∀ off k, k < 512 → Bytes.write (fun _ => 0) 0 headerSize (hd.data.drop off) k = hd.data.drop off k := by
    intro off k hk
    have hmem := @Bytes.write_apply_of_mem (fun _ => 0) (hd.data.drop off) 0 headerSize k hk
    rwa [Nat.zero_add] at hmem
  have hword : ∀ off w p, p + w ≤ 512 → (Bytes.write (fun _ => 0) 0 headerSize (hd.data.drop off)).word w p =
      (hd.data.drop off).word w p := fun off w p hp => word_of_read (hread off) hp
  have hzero : hd.data.drop 0 = hd.data := by
    funext k
    rw [Bytes.drop_apply, Nat.zero_add]
  unfold vpcOpen
  obtain ⟨t₁, h₁⟩ := HostFile.bdrvPread_ok hio 0 (show headerSize < 2 ^ 31 by decide) fun _ => 0
  rw [h₁]
  dsimp only
  rw [hword 0 8 0 (by decide), hword 0 8 16 (by decide), hzero, if_neg (not_not.2 hcreator)]
  obtain ⟨t₂, h₂⟩ := @HostFile.bdrvPread_ok { hd with tick := t₁ } hio (hd.data.word 8 16) headerSize (by decide) fun _ => 0
  rw [h₂]
  dsimp only
  unfold dyndiskBytes at hmagic
  rw [hword _ 8 0 (by decide), hword _ 4 28 (by decide), if_neg (not_not.2 hmagic)]
  obtain ⟨t₃, h₃⟩ := @HostFile.bdrvPread_ok { hd with tick := t₂ } hio ((dyndiskBytes hd).word 8 16)
    ((dyndiskBytes hd).word 4 28 * 4 % 2 ^ 32) hsize fun _ => 0
  rw [hword _ 8 16 (by decide)]
  unfold dyndiskBytes at h₃
  rw [h₃]
  exact ⟨_, rfl⟩

theorem word_tinyImage {M b : ℕ} (hb : 1024 ≤ b) {f : Field} (hf : f ∈ tinyFields M b) (hval : f.val < 256 ^ f.width) :
    (tinyImage M b).data.word f.width f.off = f.val := by
  refine Bytes.word_record ?_ hf hval
  simp [tinyFields, Field.Disjoint]
  omega

/-- What the headers of a small image say. -/
structure TinyHeaders (M b : ℕ) : Prop where
  sectors : sectorsOf (tinyImage M b).data = 2
  maxTableEntries : (dyndiskBytes (tinyImage M b)).word 4 28 = M
  blockSize : (dyndiskBytes (tinyImage M b)).word 4 32 = 512
  batOffset : (dyndiskBytes (tinyImage M b)).word 8 16 = b
  entries : fileTable (tinyImage M b) 0 = unused ∧ fileTable (tinyImage M b) 1 = unused
  opened : ∃ s, vpcOpen (tinyImage M b) = some s

theorem tinyImage_headers {M b : ℕ} (hM : M < 2 ^ 29) (hb : 1024 ≤ b) (hb' : b < 2 ^ 64) : TinyHeaders M b := by
  have hword : ∀ off w v, ⟨off, w, v⟩ ∈ tinyFields M b → v < 256 ^ w → (tinyImage M b).data.word w off = v :=
    fun off w v hf hval => word_tinyImage hb hf hval
  have hoffset : (tinyImage M b).data.word 8 16 = 512 := hword 16 8 512 (by simp [tinyFields]) (by decide)
  have hdrop : ∀ w off, (dyndiskBytes (tinyImage M b)).word w off = (tinyImage M b).data.word w (512 + off) := by
    intro w off
    rw [dyndiskBytes, hoffset, Bytes.word, Bytes.drop_drop]
    rfl
  have hentries : (dyndiskBytes (tinyImage M b)).word 4 28 = M := by
    rw [hdrop]
    exact hword 540 4 M (by simp [tinyFields]) (by omega)
  have hbat : (dyndiskBytes (tinyImage M b)).word 8 16 = b := by
    rw [hdrop]
    exact hword 528 8 b (by simp [tinyFields]) (by omega)
  have htable : ∀ i, fileTable (tinyImage M b) i = (tinyImage M b).data.word 4 (b + 4 * i) := by
    intro i
    rw [fileTable, hbat, Bytes.word, Bytes.drop_drop]
    rfl
  refine ⟨?_, hentries, ?_, hbat, ?_, ?_⟩
  · rw [sectorsOf, hword 56 2 1 (by simp [tinyFields]) (by decide), hword 58 1 1 (by simp [tinyFields]) (by decide),
      hword 59 1 2 (by simp [tinyFields]) (by decide)]
  · rw [hdrop]
    exact hword 544 4 512 (by simp [tinyFields]) (by decide)
  · rw [htable, htable]
    exact ⟨hword b 4 unused (by simp [tinyFields]) (by decide), hword (b + 4) 4 unused (by simp [tinyFields]) (by decide)⟩
  · refine vpcOpen_accepts (fun _ => rfl) (hword 0 8 _ (by simp [tinyFields]) (by decide)) ?_ (by rw [hentries]; omega)
    rw [hdrop]
    exact hword 512 8 _ (by simp [tinyFields]) (by decide)

/-- With two entries a small image is in bounds, and both its sectors get a block. -/
theorem boundsSafe_tiny : ∃ s, vpcOpen (tinyImage 2 1024) = some s ∧ ∀ s', Reached s s' → BoundsSafe s' := by
  obtain ⟨hT, hM, hB, hbat, ⟨htable₀, htable₁⟩, s, hs⟩ := tinyImage_headers (M := 2) (b := 1024) (by decide) le_rfl (by decide)
  refine ⟨s, hs, (boundsSafe_iff hs).2 ⟨?_, ?_, ?_, ?_, ?_, ?_⟩⟩
  · rw [hB]
    decide
  · rw [hM]
    decide
  · rw [hB]
    decide
  · rw [hbat, hM]
    decide
  · rw [hT, hB, hM]
    decide
  · intro k hk
    have hend : blocksEnd (dyndiskBytes (tinyImage 2 1024)) (fileTable (tinyImage 2 1024)) = 1536 := by
      simp [blocksEnd, hbat, hM, lastBlockEnd, htable₀, htable₁]
    have hcard : (freeEntries 2 512 (fileTable (tinyImage 2 1024))).card ≤ 2 :=
      (Finset.card_filter_le _ _).trans Finset.card_image_le
    rw [hT, hB] at hk
    have hlen : bitmapSizeOf 512 = 0 := by decide
    rw [hend, hB, hlen]
    unfold unused
    omega

/-- With one entry the second sector of a small image has none, and its allocation looks at the entry
behind the table. With a table in front of `2 ^ 41` the place of the first block does not fit its entry. -/
theorem tiny_overrun :
    (∃ s, vpcOpen (tinyImage 1 1024) = some s ∧ s.maxTableEntries = 1 ∧ 1 ∈ allocEntries s 1 ∧
      ¬ ∀ s', Reached s s' → BoundsSafe s') ∧
    ∃ s, vpcOpen (tinyImage 2 (2 ^ 41 - 512)) = some s ∧ s.pagetable (tableIndex s 0) = unused ∧
      2 ^ 32 ≤ s.freeDataBlockOffset / 512 ∧ ¬ ∀ s', Reached s s' → BoundsSafe s' := by
  constructor
  · obtain ⟨hT, hM, hB, _, _, s, hs⟩ := tinyImage_headers (M := 1) (b := 1024) (by decide) le_rfl (by decide)
    have h := vpcOpen_headers hs
    have hentries : s.maxTableEntries = 1 := h.maxTableEntries.trans hM
    have hmem : 1 ∈ allocEntries s 1 := by
      rw [allocEntries, tableIndex, h.totalSectors, h.blockSize, hT, hB]
      decide
    refine ⟨s, hs, hentries, hmem, fun hsafe => ?_⟩
    have hlt := (hsafe s (.opened s.hd.io)).alloc 1 (by rw [h.totalSectors, hT]; decide) 1 hmem
    omega
  · obtain ⟨hT, hM, hB, hbat, ⟨htable₀, _⟩, s, hs⟩ :=
      tinyImage_headers (M := 2) (b := 2 ^ 41 - 512) (by decide) (by decide) (by decide)
    have h := vpcOpen_headers hs
    have hentries : s.maxTableEntries = 2 := h.maxTableEntries.trans hM
    have hindex : tableIndex s 0 = 0 := by
      rw [tableIndex, Nat.zero_mul, Nat.zero_div, Nat.zero_mod]
    have hun : s.pagetable (tableIndex s 0) = unused := by
      rw [hindex, h.table (by omega) 0 (by omega), htable₀]
    have hplace : 2 ^ 32 ≤ s.freeDataBlockOffset / 512 := by
      have hstart := (le_lastBlockEnd s.pagetable
        ((s.batOffset + s.maxTableEntries * 4 % 2 ^ 32 + 511) % 2 ^ 64 / 512 * 512) (s.bitmapSize + s.blockSize)
        (HostFile.intCount s.maxTableEntries)).1
      rw [← h.free, h.batOffset, hbat, hentries] at hstart
      omega
    refine ⟨s, hs, hun, hplace, fun hsafe => ?_⟩
    have hlt := ((hsafe s (.opened s.hd.io)).growth 0 (by rw [h.totalSectors, hT]; decide) hun).1
    omega

end Ar7Qemu.Vpc
