import Ar7Qemu.Block.VpcLayout

/-! What the driver for VHD images does to one sector. A write to a sector that has a block changes
the file inside this block only; the allocation of a block, where the host takes the new footer and
the table entry, keeps the layout and gives sectors that read as zero. -/

namespace Ar7Qemu.Vpc

open Lib Block

variable {g : Geometry} {timestamp : ℕ} {s : VpcState} {n : ℕ}

/-- The byte of the file for a byte of the visible disk that has a block. -/
def byteAddr (pagetable : ℕ → ℕ) (a : ℕ) : ℕ :=
  512 * pagetable (a / 512 / 4096) + 512 + 512 * (a / 512 % 4096) + a % 512

/-- The visible disk. -/
def guestByte (s : VpcState) (a : ℕ) : UInt8 :=
  if s.pagetable (a / 512 / 4096) = unused then 0 else s.hd.data (byteAddr s.pagetable a)

/-! ### Sectors and blocks -/

theorem index_lt (hn : n < g.sectors) : n / 4096 < numBatEntries g := by
  rw [numBatEntries_eq]
  omega

theorem Fixed.tableIndex_eq (h : Fixed g timestamp s) (hn : n < g.sectors) : tableIndex s n = n / 4096 := by
  have hle := h.bounded.sectors_lt
  unfold tableIndex
  rw [h.blockSize]
  omega

theorem Fixed.unallocated_iff (h : Fixed g timestamp s) (hn : n < g.sectors) :
    Unallocated s n ↔ s.pagetable (n / 4096) = unused := by
  have hlt := index_lt hn
  unfold Unallocated
  rw [h.tableIndex_eq hn, h.maxTableEntries]
  constructor
  · rintro (hge | hun)
    · omega
    · exact hun
  · exact .inr

theorem Fixed.bitmapOffset_eq (h : Fixed g timestamp s) (hn : n < g.sectors) :
    bitmapOffset s n = 512 * s.pagetable (n / 4096) := by
  unfold bitmapOffset
  rw [h.tableIndex_eq hn]

theorem Fixed.blockOffset_eq (h : Fixed g timestamp s) (hn : n < g.sectors) :
    blockOffset s n = 512 * s.pagetable (n / 4096) + 512 + 512 * (n % 4096) := by
  unfold blockOffset
  rw [h.bitmapOffset_eq hn, h.bitmapSize, h.blockSize]
  omega

theorem byteAddr_sector (pt : ℕ → ℕ) (n : ℕ) {k : ℕ} (hk : k < 512) :
    byteAddr pt (512 * n + k) = 512 * pt (n / 4096) + 512 + 512 * (n % 4096) + k := by
  have hdiv : (512 * n + k) / 512 = n := by omega
  have hmod : (512 * n + k) % 512 = k := by omega
  unfold byteAddr
  rw [hdiv, hmod]

theorem byteAddr_bounds (pt : ℕ → ℕ) (a : ℕ) :
    512 * pt (a / 512 / 4096) + 512 ≤ byteAddr pt a ∧ byteAddr pt a < 512 * pt (a / 512 / 4096) + stride := by
  have hmod := Nat.mod_lt (a / 512) (show 0 < 4096 by decide)
  have hmod' := Nat.mod_lt a (show 0 < 512 by decide)
  unfold byteAddr stride
  omega

/-! ### A change inside a block -/

/-- The request changes the file between the bounds of block `i` only. -/
structure InBlock (s : VpcState) (i off : ℕ) : Prop where
  lower : 512 * s.pagetable i ≤ off
  upper : off + 512 ≤ 512 * s.pagetable i + stride
  unit : off % 512 = 0

theorem Inv.pwrite_block (h : Inv g timestamp s) {i off : ℕ} (hi : i < numBatEntries g) (ha : s.pagetable i ≠ unused)
    (hoff : InBlock s i off) {hd : HostFile} {d : Bytes} {ok : Bool} (hp : Pwritten s.hd hd off 512 d ok)
    (last : Option ℕ) : Inv g timestamp { s with hd := hd, lastBitmapOffset := last } := by
  obtain ⟨hlo, hhi⟩ := h.table.block_bounds hi ha
  have hlen : hd.len = s.hd.len := by
    have hin := hoff.upper
    have hunit := hoff.unit
    have hold := h.disk.len
    have hends : HostFile.alignSector (off + 512) ≤ s.hd.len := by
      unfold HostFile.alignSector
      omega
    rw [hp.len]
    split_ifs
    · exact Nat.max_eq_left hends
    · rfl
  refine ⟨⟨h.fixed.bounded, h.fixed.maxTableEntries, h.fixed.batOffset, h.fixed.blockSize, h.fixed.bitmapSize,
    h.fixed.totalSectors, h.fixed.footerBuf⟩, h.table, ?_⟩
  refine OnDisk.of_blocks h.disk hlen fun k hk => hp.outside k ?_
  have hk' : k < start g ∨ s.freeDataBlockOffset ≤ k := hk
  have hlower := hoff.lower
  have hupper := hoff.upper
  omega

theorem guestByte_of_outside {hd : HostFile} {last : Option ℕ} {off : ℕ} {d : Bytes} {ok : Bool}
    (hp : Pwritten s.hd hd off 512 d ok) {a : ℕ}
    (hout : s.pagetable (a / 512 / 4096) ≠ unused → byteAddr s.pagetable a < off ∨ off + 512 ≤ byteAddr s.pagetable a) :
    guestByte { s with hd := hd, lastBitmapOffset := last } a = guestByte s a := by
  unfold guestByte
  dsimp only
  split_ifs with hun
  · rfl
  · exact hp.outside _ (hout hun)

theorem Table.other_block {pt : ℕ → ℕ} {free i a off : ℕ} (h : Table g pt free) (hi : i < numBatEntries g)
    (ha : pt i ≠ unused) (hlo : 512 * pt i ≤ off) (hhi : off + 512 ≤ 512 * pt i + stride)
    (hi' : a / 512 / 4096 < numBatEntries g) (ha' : pt (a / 512 / 4096) ≠ unused) (hne : a / 512 / 4096 ≠ i) :
    byteAddr pt a < off ∨ off + 512 ≤ byteAddr pt a := by
  obtain ⟨hlo', hhi'⟩ := byteAddr_bounds pt a
  rcases h.disjoint hi' hi ha' ha hne with hdis | hdis <;> omega

/-! ### Writing to a block -/

/-- What a write of one sector leaves. -/
structure Wrote (g : Geometry) (timestamp : ℕ) (s t : VpcState) (n : ℕ) (d : Bytes) (ok : Bool) : Prop where
  inv : Inv g timestamp t
  others : ∀ a < 512 * g.sectors, a / 512 ≠ n → guestByte t a = guestByte s a
  data : ok = true → ∀ k < 512, guestByte t (512 * n + k) = d k
  entry : t.pagetable (n / 4096) ≠ unused

/-- The data is written to the block of the sector. -/
theorem wrote_pwrite (h : Inv g timestamp s) (hn : n < g.sectors) (ha : s.pagetable (n / 4096) ≠ unused) (d : Bytes) :
    Wrote g timestamp s { s with hd := (s.hd.bdrvPwrite (blockOffset s n) 512 d).2 } n d
      (s.hd.bdrvPwrite (blockOffset s n) 512 d).1 := by
  have hi := index_lt hn
  have hp := bdrvPwrite_spec s.hd (blockOffset s n) (show 0 < 512 by decide) (by decide) d
  have hoff := h.fixed.blockOffset_eq hn
  have hr := Nat.mod_lt n (show 0 < 4096 by decide)
  have hin : InBlock s (n / 4096) (blockOffset s n) := by
    rw [hoff]
    refine ⟨?_, ?_, ?_⟩
    · omega
    · unfold stride
      omega
    · omega
  have hsame : { s with hd := (s.hd.bdrvPwrite (blockOffset s n) 512 d).2 } =
      { s with hd := (s.hd.bdrvPwrite (blockOffset s n) 512 d).2, lastBitmapOffset := s.lastBitmapOffset } := rfl
  rw [hsame]
  refine ⟨h.pwrite_block hi ha hin hp _, fun a halt hne => guestByte_of_outside hp fun ha' => ?_, fun hok k hk => ?_, ha⟩
  · by_cases hblock : a / 512 / 4096 = n / 4096
    · have haddr : byteAddr s.pagetable a =
          512 * s.pagetable (n / 4096) + 512 + 512 * (a / 512 % 4096) + a % 512 := by
        unfold byteAddr
        rw [hblock]
      have hmod := Nat.mod_lt a (show 0 < 512 by decide)
      rw [haddr, hoff]
      omega
    · exact h.table.other_block hi ha hin.lower hin.upper (index_lt (by omega)) ha' hblock
  · unfold guestByte
    have hdiv : (512 * n + k) / 512 = n := by omega
    dsimp only
    rw [hdiv, if_neg ha, byteAddr_sector _ _ hk, ← hoff]
    exact hp.inside hok k hk

theorem setBitmap_spec (h : Inv g timestamp s) (hn : n < g.sectors) (ha : s.pagetable (n / 4096) ≠ unused) :
    Inv g timestamp (setBitmap s n) ∧ (setBitmap s n).pagetable = s.pagetable ∧
      ∀ a < 512 * g.sectors, guestByte (setBitmap s n) a = guestByte s a := by
  unfold setBitmap
  by_cases hlast : s.lastBitmapOffset ≠ some (bitmapOffset s n)
  · have hi := index_lt hn
    have hp : Pwritten s.hd (s.hd.bdrvPwrite (bitmapOffset s n) s.bitmapSize fun _ => 0xff).2
        (512 * s.pagetable (n / 4096)) 512 (fun _ => 0xff)
        (s.hd.bdrvPwrite (bitmapOffset s n) s.bitmapSize fun _ => 0xff).1 := by
      rw [h.fixed.bitmapSize, h.fixed.bitmapOffset_eq hn]
      exact bdrvPwrite_spec s.hd _ (by decide) (by decide) _
    rw [if_pos hlast]
    have hin : InBlock s (n / 4096) (512 * s.pagetable (n / 4096)) := by
      refine ⟨le_refl _, ?_, ?_⟩
      · unfold stride
        omega
      · omega
    refine ⟨h.pwrite_block hi ha hin hp _, rfl, fun a halt => guestByte_of_outside hp fun ha' => ?_⟩
    by_cases hblock : a / 512 / 4096 = n / 4096
    · have hbounds := byteAddr_bounds s.pagetable a
      rw [hblock] at hbounds
      exact .inr hbounds.1
    · exact h.table.other_block hi ha hin.lower hin.upper (index_lt (by omega)) ha' hblock
  · rw [if_neg hlast]
    exact ⟨h, rfl, fun _ _ => rfl⟩

/-! ### Allocation -/

/-- The host takes the footer and the table entry of a block that is allocated. -/
def AllocSafe (s : VpcState) (n : ℕ) : Prop :=
  Unallocated s n → s.hd.io (s.hd.tick + 1) = none ∧ s.hd.io (s.hd.tick + 2) = none

theorem allocated_update {pt : ℕ → ℕ} {i v N : ℕ} (hi : i < N) (hv : v ≠ unused) :
    allocated (Function.update pt i v) N = insert i (allocated pt N) := by
  ext k
  rw [Finset.mem_insert, mem_allocated, mem_allocated]
  by_cases hk : k = i
  · subst hk
    rw [Function.update_self]
    exact iff_of_true ⟨hi, hv⟩ (.inl rfl)
  · rw [Function.update_of_ne hk]
    simp [hk]

theorem card_allocated_update {pt : ℕ → ℕ} {i v N : ℕ} (hi : i < N) (hun : pt i = unused) (hv : v ≠ unused) :
    (allocated (Function.update pt i v) N).card = (allocated pt N).card + 1 := by
  rw [allocated_update hi hv, Finset.card_insert_of_notMem]
  rw [mem_allocated]
  exact fun h => h.2 hun

theorem Table.free_bounds {pt : ℕ → ℕ} {free : ℕ} (h : Table g pt free) (hb : g.Bounded) :
    free % 512 = 0 ∧ free / 512 < unused := by
  have hcard := (card_allocated_le pt (numBatEntries g)).trans hb.numBatEntries_le
  have hstart := hb.start_le
  have hmod := start_mod g
  have hfree := h.free_eq
  unfold stride at hfree
  unfold unused
  omega

/-- The table with a new block where the footer was. -/
theorem Table.update {pt : ℕ → ℕ} {free i v : ℕ} (h : Table g pt free) (hi : i < numBatEntries g)
    (hun : pt i = unused) (hv : v ≠ unused) (hfree : 512 * v = free) :
    Table g (Function.update pt i v) (free + stride) := by
  have hcard := card_allocated_update hi hun hv
  have hold : ∀ k < numBatEntries g, pt k ≠ unused → pt k ≠ v := by
    intro k hk ha heq
    have hbound := (h.block_bounds hk ha).2
    unfold stride at hbound
    omega
  refine ⟨?_, fun k hk ha => ?_, fun k hk k' hk' ha heq => ?_, .inr ⟨i, hi, ?_, ?_⟩⟩
  · rw [hcard, h.free_eq, Nat.succ_mul, Nat.add_assoc]
  · rw [hcard]
    by_cases hki : k = i
    · subst hki
      rw [Function.update_self]
      exact ⟨_, Nat.lt_succ_self _, hfree.trans h.free_eq⟩
    · rw [Function.update_of_ne hki] at ha ⊢
      obtain ⟨j, hj, heq⟩ := h.slot k hk ha
      exact ⟨j, Nat.lt_succ_of_lt hj, heq⟩
  · by_cases hki : k = i <;> by_cases hki' : k' = i
    · rw [hki, hki']
    · subst hki
      rw [Function.update_self, Function.update_of_ne hki'] at heq
      exact absurd heq.symm (hold k' hk' (heq ▸ hv))
    · subst hki'
      rw [Function.update_of_ne hki] at ha
      rw [Function.update_self, Function.update_of_ne hki] at heq
      exact absurd heq (hold k hk ha)
    · rw [Function.update_of_ne hki] at ha
      rw [Function.update_of_ne hki, Function.update_of_ne hki'] at heq
      exact h.inj k hk k' hk' ha heq
  · rw [Function.update_self]
    exact hv
  · rw [Function.update_self, hfree]

section Allocate

variable {pt : ℕ → ℕ} {free i v : ℕ} {hd hd₁ hd₂ hd₃ : HostFile} {bitmap footerBuf : Bytes} {ok : Bool}
  (hp₁ : Pwritten hd hd₁ free 512 bitmap ok) (hp₂ : Pwritten hd₁ hd₂ (free + stride) 512 footerBuf true)
  (hp₃ : Pwritten hd₂ hd₃ (1536 + 4 * i) 4 (Bytes.beByte 4 v) true)

include hp₁ hp₂ hp₃

theorem alloc_outside {k : ℕ} (hbat : k < 1536 + 4 * i ∨ 1536 + 4 * i + 4 ≤ k) (hbitmap : k < free ∨ free + 512 ≤ k)
    (hfooter : k < free + stride ∨ free + stride + 512 ≤ k) : hd₃.data k = hd.data k := by
  rw [hp₃.outside k (by omega), hp₂.outside k (by omega), hp₁.outside k (by omega)]

variable (hi : i < numBatEntries g) (hstart : start g ≤ free)

include hi hstart

theorem alloc_len (hlen : hd.len = free + 512) (hmod : free % 512 = 0) : hd₃.len = free + stride + 512 := by
  have hbat := batLen_ge g
  have hstart' : start g = 1536 + batLen g := rfl
  have hunits : batLen g % 512 = 0 := by
    unfold batLen
    omega
  have hstride : stride % 512 = 0 := rfl
  have halign : ∀ x, x % 512 = 0 → HostFile.alignSector x = x := by
    intro x hx
    unfold HostFile.alignSector
    omega
  have hlen₁ : hd₁.len = free + 512 := by
    rw [hp₁.len, hlen, halign _ (by omega), Nat.max_self, ite_self]
  have hlen₂ : hd₂.len = free + stride + 512 := by
    rw [hp₂.len, if_pos rfl, hlen₁, halign _ (by omega)]
    exact Nat.max_eq_right (by omega)
  rw [hp₃.len, if_pos rfl, hlen₂]
  refine Nat.max_eq_left ?_
  unfold HostFile.alignSector
  omega

theorem onDisk_alloc (h : OnDisk g timestamp pt free hd) (hmod : free % 512 = 0) (hun : pt i = unused)
    (hv : v < unused) (hfooter : ∀ k < 512, footerBuf k = withChecksum (footer g timestamp) 0 k) :
    OnDisk g timestamp (Function.update pt i v) (free + stride) hd₃ := by
  have hbat := batLen_ge g
  have hstart' : start g = 1536 + batLen g := rfl
  have hcard := card_allocated_update hi hun (Nat.ne_of_lt hv)
  have hout := fun k => @alloc_outside free i v hd hd₁ hd₂ hd₃ bitmap footerBuf ok hp₁ hp₂ hp₃ k
  have hstride : stride = 0x200200 := rfl
  refine ⟨fun k hk => ?_, fun k hk => ?_, fun j hj => ?_, fun k hk => ?_, fun k hk => ?_,
    alloc_len hp₁ hp₂ hp₃ hi hstart h.len hmod⟩
  · rw [hout k (by omega) (by omega) (by omega), h.header k hk]
  · rw [hout _ (by omega) (by omega) (by omega), h.dyndisk k hk]
  · by_cases hji : j = i
    · subst hji
      rw [Function.update_self]
      have hword : hd₃.data.word 4 (1536 + 4 * j) = Bytes.beVal (Bytes.beByte 4 v) 4 :=
        Bytes.beVal_congr fun k hk => hp₃.inside rfl k hk
      rw [hword]
      exact Bytes.beVal_beByte (by unfold unused at hv; omega)
    · rw [Function.update_of_ne hji, ← h.table j hj]
      exact Bytes.word_congr fun k hk => hout _ (by omega) (by omega) (by omega)
  · have hlast : lastFooter g timestamp (allocated (Function.update pt i v) (numBatEntries g)).card =
        withChecksum (footer g timestamp) 0 := by
      rw [hcard]
      exact if_neg (Nat.succ_ne_zero _)
    rw [hlast, hp₃.outside _ (by omega), hp₂.inside rfl k hk, hfooter k hk]
  · rw [hout k (by omega) (by omega) (by omega), h.fresh k (by omega)]

end Allocate

theorem allocBlock_spec (h : Inv g timestamp s) (hn : n < g.sectors) (hun : s.pagetable (n / 4096) = unused)
    (hfooter : s.hd.io (s.hd.tick + 1) = none) (hbat : s.hd.io (s.hd.tick + 2) = none) :
    ∃ t, allocBlock s n = (some (blockOffset t n), t) ∧ Inv g timestamp t ∧ t.pagetable (n / 4096) ≠ unused ∧
      ∀ a < 512 * g.sectors, guestByte t a = guestByte s a := by
  have hi := index_lt hn
  obtain ⟨hmod, hfree⟩ := h.table.free_bounds h.fixed.bounded
  have hstart : start g ≤ s.freeDataBlockOffset := by
    rw [h.table.free_eq]
    omega
  have hindex := h.fixed.tableIndex_eq hn
  have hsize : s.blockSize + s.bitmapSize = stride := by
    rw [h.fixed.blockSize, h.fixed.bitmapSize]
    rfl
  generalize hv : s.freeDataBlockOffset / 512 = v at hfree
  have hvmod : v % 2 ^ 32 = v := Nat.mod_eq_of_lt (by unfold unused at hfree; omega)
  have hv512 : 512 * v = s.freeDataBlockOffset := by omega
  -- nothing wraps round
  have hwrap : (s.freeDataBlockOffset + (s.blockSize + s.bitmapSize) % 2 ^ 32) % 2 ^ 64 =
      s.freeDataBlockOffset + (s.blockSize + s.bitmapSize) := by
    have hstride : stride = 0x200200 := rfl
    unfold unused at hfree
    omega
  have hentry : 4 * (n / 4096) % 2 ^ 32 = 4 * (n / 4096) := by
    have hN := h.fixed.bounded.numBatEntries_le
    omega
  -- the three requests, of which the last two succeed
  have hp₁ : Pwritten s.hd (s.hd.bdrvPwrite s.freeDataBlockOffset s.bitmapSize fun _ => 0xff).2
      s.freeDataBlockOffset 512 (fun _ => 0xff) (s.hd.bdrvPwrite s.freeDataBlockOffset s.bitmapSize fun _ => 0xff).1 := by
    rw [h.fixed.bitmapSize]
    exact bdrvPwrite_spec s.hd _ (by decide) (by decide) _
  generalize hr₁ : s.hd.bdrvPwrite s.freeDataBlockOffset s.bitmapSize (fun _ => 0xff) = r₁ at hp₁
  have hp₂ : Pwritten r₁.2 (r₁.2.bdrvPwrite (s.freeDataBlockOffset + (s.blockSize + s.bitmapSize)) headerSize s.footerBuf).2
      (s.freeDataBlockOffset + stride) 512 s.footerBuf
      (r₁.2.bdrvPwrite (s.freeDataBlockOffset + (s.blockSize + s.bitmapSize)) headerSize s.footerBuf).1 := by
    rw [hsize]
    exact bdrvPwrite_spec r₁.2 _ (by decide) (by decide) _
  generalize hr₂ : r₁.2.bdrvPwrite (s.freeDataBlockOffset + (s.blockSize + s.bitmapSize)) headerSize s.footerBuf = r₂ at hp₂
  have hok₂ : r₂.1 = true := by
    rw [hp₂.answer, hp₁.io, hp₁.tick]
    exact hfooter
  have hp₃ : Pwritten r₂.2 (r₂.2.bdrvPwrite (s.batOffset + 4 * (n / 4096)) 4 (Bytes.beByte 4 v)).2
      (1536 + 4 * (n / 4096)) 4 (Bytes.beByte 4 v) (r₂.2.bdrvPwrite (s.batOffset + 4 * (n / 4096)) 4 (Bytes.beByte 4 v)).1 := by
    rw [h.fixed.batOffset]
    exact bdrvPwrite_spec r₂.2 _ (by decide) (by decide) _
  generalize hr₃ : r₂.2.bdrvPwrite (s.batOffset + 4 * (n / 4096)) 4 (Bytes.beByte 4 v) = r₃ at hp₃
  have hok₃ : r₃.1 = true := by
    rw [hp₃.answer, hp₂.io, hp₂.tick, hp₁.io, hp₁.tick]
    exact hbat
  rw [hok₂] at hp₂
  rw [hok₃] at hp₃
  -- the state that they leave
  generalize ht : { s with
    hd := r₃.2
    pagetable := Function.update s.pagetable (n / 4096) v
    freeDataBlockOffset := s.freeDataBlockOffset + (s.blockSize + s.bitmapSize) } = t
  have hpt : t.pagetable = Function.update s.pagetable (n / 4096) v := by rw [← ht]
  have hnew : t.pagetable (n / 4096) ≠ unused := by
    rw [hpt, Function.update_self]
    exact Nat.ne_of_lt hfree
  have hinv : Inv g timestamp t := by
    rw [← ht]
    refine ⟨⟨h.fixed.bounded, h.fixed.maxTableEntries, h.fixed.batOffset, h.fixed.blockSize, h.fixed.bitmapSize,
      h.fixed.totalSectors, h.fixed.footerBuf⟩, ?_, ?_⟩
    · show Table g _ (s.freeDataBlockOffset + (s.blockSize + s.bitmapSize))
      rw [hsize]
      exact h.table.update hi hun (Nat.ne_of_lt hfree) hv512
    · show OnDisk g timestamp _ (s.freeDataBlockOffset + (s.blockSize + s.bitmapSize)) r₃.2
      rw [hsize]
      exact onDisk_alloc hp₁ hp₂ hp₃ hi hstart h.disk hmod hun hfree h.fixed.footerBuf
  refine ⟨t, ?_, hinv, hnew, fun a halt => ?_⟩
  · have hget : getSectorOffset t n false = (some (blockOffset t n), t) := by
      unfold getSectorOffset
      rw [if_neg fun hun' => hnew ((hinv.fixed.unallocated_iff hn).1 hun')]
      rfl
    unfold allocBlock
    dsimp only
    rw [if_neg (by rw [h.fixed.totalSectors]; omega), hindex, if_neg (not_not.2 hun), hv, hvmod, hr₁, hwrap, hentry]
    unfold rewriteFooter
    dsimp only
    rw [hr₂, if_pos hok₂]
    simp only [Function.update_self]
    rw [hr₃, if_pos hok₃, ht]
    exact hget
  · have hbounds := byteAddr_bounds t.pagetable a
    have hbat := batLen_ge g
    have hstart' : start g = 1536 + batLen g := rfl
    have hstride : stride = 0x200200 := rfl
    have hhd : t.hd = r₃.2 := by rw [← ht]
    have hlt : a / 512 / 4096 < numBatEntries g := index_lt (by omega)
    unfold guestByte
    by_cases hblock : a / 512 / 4096 = n / 4096
    · rw [hblock, if_pos hun, if_neg hnew, hhd]
      rw [hblock, hpt, Function.update_self, hv512] at hbounds
      rw [alloc_outside hp₁ hp₂ hp₃ (by rw [hpt]; omega) (by rw [hpt]; omega) (by rw [hpt]; omega)]
      exact h.disk.fresh _ (by rw [hpt]; omega)
    · have hsame : t.pagetable (a / 512 / 4096) = s.pagetable (a / 512 / 4096) := by
        rw [hpt, Function.update_of_ne hblock]
      have haddr : byteAddr t.pagetable a = byteAddr s.pagetable a := by
        unfold byteAddr
        rw [hsame]
      rw [hsame, haddr, hhd]
      split_ifs with hun'
      · rfl
      · obtain ⟨hlo, hhi⟩ := h.table.block_bounds hlt hun'
        rw [haddr, hsame] at hbounds
        exact alloc_outside hp₁ hp₂ hp₃ (by omega) (by omega) (by omega)

theorem writeSector_spec (h : Inv g timestamp s) (hn : n < g.sectors) (hsafe : AllocSafe s n) (d : Bytes) :
    Wrote g timestamp s (writeSector s n d).2 n d (writeSector s n d).1 := by
  unfold writeSector getSectorOffset
  by_cases hun : Unallocated s n
  · obtain ⟨hfooter, hbat⟩ := hsafe hun
    obtain ⟨t, halloc, ht, hnew, hview⟩ :=
      allocBlock_spec h hn ((h.fixed.unallocated_iff hn).1 hun) hfooter hbat
    rw [if_pos hun]
    dsimp only
    rw [halloc]
    obtain ⟨hinv, hothers, hdata, hentry⟩ := wrote_pwrite ht hn hnew d
    exact ⟨hinv, fun a ha hne => (hothers a ha hne).trans (hview a ha), hdata, hentry⟩
  · have ha : s.pagetable (n / 4096) ≠ unused := fun heq => hun ((h.fixed.unallocated_iff hn).2 heq)
    obtain ⟨ht, hpt, hview⟩ := setBitmap_spec h hn ha
    have hoff : blockOffset (setBitmap s n) n = blockOffset s n := by
      rw [ht.fixed.blockOffset_eq hn, h.fixed.blockOffset_eq hn, hpt]
    obtain ⟨hinv, hothers, hdata, hentry⟩ := wrote_pwrite ht hn (hpt ▸ ha) d
    rw [if_neg hun]
    dsimp only
    rw [if_pos rfl, ← hoff]
    exact ⟨hinv, fun a ha hne => (hothers a ha hne).trans (hview a ha), hdata, hentry⟩

end Ar7Qemu.Vpc
