import Ar7Qemu.Block.Request

/-! Byte requests over sectors, `bdrv_pread` and `bdrv_pwrite` of `block.c`: a head up to the next
sector, the whole sectors in place, and a tail. Head and tail go through a buffer of one sector, and
a write of them reads the sector first. -/

namespace Ar7Qemu.Block.Request

open Lib

/-! ### The code -/

/-- The bytes up to the next sector, at most `count`. -/
def headLen (offset : BitVec 64) (count : BitVec 32) : BitVec 32 :=
  let len := ((512#64 - offset) &&& 511#64).setWidth 32
  if count.slt len then count else len

/-- `bdrv_read` of one sector into `tmp_buf`. -/
def readSector (bs : BlockDriverState) (sectorNum : BitVec 64) : (ℤ × Bytes) × BlockDriverState :=
  bdrvRead bs sectorNum (fun _ => 0) 1#32

/-- The memory `buf` whose bytes from `pos` on are those of `b`. -/
def splice (buf : Bytes) (pos : ℕ) (b : Bytes) : Bytes := fun i => if i < pos then buf i else b (i - pos)

/-- The last part of `bdrv_pread`, with `pos` bytes read. -/
def preadTail (bs : BlockDriverState) (sectorNum : BitVec 64) (buf : Bytes) (pos : ℕ) (count count1 : BitVec 32) :
    (ℤ × Bytes) × BlockDriverState :=
  if 0 < count.toInt then
    let r := readSector bs sectorNum
    if r.1.1 < 0 then ((-eio, buf), r.2)
    else ((count1.toInt, buf.write pos count.toNat r.1.2), r.2)
  else ((count1.toInt, buf), bs)

/-- `bdrv_pread` from the first whole sector on. -/
def preadSectors (bs : BlockDriverState) (sectorNum : BitVec 64) (buf : Bytes) (pos : ℕ) (count count1 : BitVec 32) :
    (ℤ × Bytes) × BlockDriverState :=
  let nbSectors := count.sshiftRight 9
  if 0 < nbSectors.toInt then
    let r := bdrvRead bs sectorNum (buf.drop pos) nbSectors
    let buf := splice buf pos r.1.2
    if r.1.1 < 0 then ((-eio, buf), r.2)
    else
      let len := nbSectors <<< 9
      preadTail r.2 (sectorNum + nbSectors.signExtend 64) buf (pos + len.toNat) (count - len) count1
  else preadTail bs sectorNum buf pos count count1

def bdrvPread (bs : BlockDriverState) (offset : BitVec 64) (buf : Bytes) (count1 : BitVec 32) :
    (ℤ × Bytes) × BlockDriverState :=
  let len := headLen offset count1
  let sectorNum := offset.sshiftRight 9
  if 0 < len.toInt then
    let r := readSector bs sectorNum
    if r.1.1 < 0 then ((-eio, buf), r.2)
    else
      let buf := buf.write 0 len.toNat (r.1.2.drop (offset &&& 511#64).toNat)
      let count := count1 - len
      if count = 0#32 then ((count1.toInt, buf), r.2)
      else preadSectors r.2 (sectorNum + 1#64) buf len.toNat count count1
  else preadSectors bs sectorNum buf 0 count1 count1

/-- A sector is read, `n` bytes of it from `pos` on are replaced, and it is written back: whether
both requests succeeded. -/
def rewriteSector (bs : BlockDriverState) (sectorNum : BitVec 64) (pos n : ℕ) (d : Bytes) : Bool × BlockDriverState :=
  let r := readSector bs sectorNum
  if r.1.1 < 0 then (false, r.2)
  else
    let w := bdrvWrite r.2 sectorNum (r.1.2.write pos n d) 1#32
    (0 ≤ w.1, w.2)

/-- The last part of `bdrv_pwrite`. -/
def pwriteTail (bs : BlockDriverState) (sectorNum : BitVec 64) (buf : Bytes) (count count1 : BitVec 32) :
    ℤ × BlockDriverState :=
  if 0 < count.toInt then
    let r := rewriteSector bs sectorNum 0 count.toNat buf
    if !r.1 then (-eio, r.2) else (count1.toInt, r.2)
  else (count1.toInt, bs)

/-- `bdrv_pwrite` from the first whole sector on. -/
def pwriteSectors (bs : BlockDriverState) (sectorNum : BitVec 64) (buf : Bytes) (count count1 : BitVec 32) :
    ℤ × BlockDriverState :=
  let nbSectors := count.sshiftRight 9
  if 0 < nbSectors.toInt then
    let r := bdrvWrite bs sectorNum buf nbSectors
    if r.1 < 0 then (-eio, r.2)
    else
      let len := nbSectors <<< 9
      pwriteTail r.2 (sectorNum + nbSectors.signExtend 64) (buf.drop len.toNat) (count - len) count1
  else pwriteTail bs sectorNum buf count count1

def bdrvPwrite (bs : BlockDriverState) (offset : BitVec 64) (buf : Bytes) (count1 : BitVec 32) :
    ℤ × BlockDriverState :=
  let len := headLen offset count1
  let sectorNum := offset.sshiftRight 9
  if 0 < len.toInt then
    let r := rewriteSector bs sectorNum (offset &&& 511#64).toNat len.toNat buf
    if !r.1 then (-eio, r.2)
    else
      let count := count1 - len
      if count = 0#32 then (count1.toInt, r.2)
      else pwriteSectors r.2 (sectorNum + 1#64) (buf.drop len.toNat) count count1
  else pwriteSectors bs sectorNum buf count1 count1

/-! ### The numbers -/

section Numbers

variable {offset : BitVec 64} {count : BitVec 32}

theorem toInt_nonneg {w : ℕ} {x : BitVec w} (h : 0 ≤ x.toInt) : x.toInt = x.toNat ∧ 2 * x.toNat < 2 ^ w := by
  have hlt := x.isLt
  rw [BitVec.toInt_eq_toNat_cond] at h ⊢
  split_ifs at h ⊢ <;> omega

theorem toInt_of_lt {w : ℕ} {x : BitVec w} (h : 2 * x.toNat < 2 ^ w) : x.toInt = x.toNat := by
  rw [BitVec.toInt_eq_toNat_cond, if_pos h]

theorem toNat_sshiftRight {w : ℕ} {x : BitVec w} (h : 2 * x.toNat < 2 ^ w) : (x.sshiftRight 9).toNat = x.toNat / 512 := by
  rw [BitVec.sshiftRight_eq_of_msb_false (BitVec.msb_eq_false_iff_two_mul_lt.2 h), BitVec.toNat_ushiftRight,
    Nat.shiftRight_eq_div_pow]

theorem toNat_and_511 (x : BitVec 64) : (x &&& 511#64).toNat = x.toNat % 512 := by
  rw [BitVec.toNat_and]
  exact Nat.and_two_pow_sub_one_eq_mod x.toNat 9

theorem headLen_toNat (hc : 2 * count.toNat < 2 ^ 32) :
    (headLen offset count).toNat = min ((512 - offset.toNat % 512) % 512) count.toNat := by
  have hlt := offset.isLt
  have hlen : (((512#64 - offset) &&& 511#64).setWidth 32).toNat = (512 - offset.toNat % 512) % 512 := by
    rw [BitVec.toNat_setWidth, toNat_and_511, BitVec.toNat_sub]
    simp only [BitVec.toNat_ofNat]
    omega
  unfold headLen
  dsimp only
  rw [BitVec.slt, toInt_of_lt hc, toInt_of_lt (by omega), hlen]
  split_ifs with h
  · rw [decide_eq_true_eq, Nat.cast_lt] at h
    exact (Nat.min_eq_right h.le).symm
  · rw [decide_eq_true_eq, Nat.cast_lt] at h
    rw [hlen]
    exact (Nat.min_eq_left (not_lt.1 h)).symm

theorem toNat_add_signExtend {s : BitVec 64} {n : BitVec 32} (hn : 2 * n.toNat < 2 ^ 32) (hs : s.toNat + n.toNat < 2 ^ 64) :
    (s + n.signExtend 64).toNat = s.toNat + n.toNat := by
  rw [BitVec.toNat_add, BitVec.signExtend_eq_setWidth_of_msb_false (BitVec.msb_eq_false_iff_two_mul_lt.2 hn),
    BitVec.toNat_setWidth]
  omega

theorem toNat_sectors (hc : 2 * count.toNat < 2 ^ 32) : (count.sshiftRight 9 <<< 9).toNat = 512 * (count.toNat / 512) := by
  rw [BitVec.toNat_shiftLeft, toNat_sshiftRight hc, Nat.shiftLeft_eq]
  omega

theorem toNat_sub_sectors (hc : 2 * count.toNat < 2 ^ 32) :
    (count - count.sshiftRight 9 <<< 9).toNat = count.toNat % 512 := by
  rw [BitVec.toNat_sub, toNat_sectors hc]
  omega

end Numbers

/-! ### One request of the driver -/

/-- The device with other contents, some requests later. -/
def BlockDriverState.holding (bs : BlockDriverState) (c : Bytes) (t : ℕ) : BlockDriverState :=
  { bs with content := c, tick := t }

/-- The sectors before byte `e` lie in the device. -/
def Inside (bs : BlockDriverState) (e : ℕ) : Prop :=
  bdrvIsInserted bs = true ∧ (bs.growable = true ∨ 512 * ((e + 511) / 512 : ℕ) ≤ (bdrvGetlength bs).toInt)

section Sectors

variable {bs : BlockDriverState} {e : ℕ} (hio : ∀ t, bs.io t = .ok) (hin : Inside bs e) (he : e < 2 ^ 64 - 2 ^ 32)
  {s : BitVec 64} {n : BitVec 32} (c : Bytes) (t : ℕ)

include hin he

theorem check_inside (hn : 1024 * n.toNat < 2 ^ 32) (hs : 512 * (s.toNat + n.toNat) < e + 512) :
    bdrvCheckRequest (bs.holding c t) s n = 0 := by
  obtain ⟨hins, hlen⟩ := hin
  have hins' : bdrvIsInserted (bs.holding c t) = true := hins
  by_cases hgrow : (bs.holding c t).growable = true
  · unfold bdrvCheckRequest bdrvCheckByteRequest
    rw [if_neg (by rw [hins']; decide), if_pos hgrow]
  · have hlen := hlen.resolve_left hgrow
    have hsInt : s.toInt = s.toNat := toInt_of_lt (by omega)
    have hnInt : n.toInt = n.toNat := toInt_of_lt (by omega)
    have hfits : Fits (bs.holding c t) s n := by
      refine ⟨?_, ?_, ?_⟩
      · omega
      · omega
      · show _ ≤ (bdrvGetlength bs).toInt
        omega
    rw [hfits.check_iff hins' (by simpa using hgrow)]
    unfold keptEnd
    rw [Int.bmod_def]
    split_ifs <;> omega

omit he in
theorem not_isNone : (bs.holding c t).drv.isNone = false := by
  cases hdrv : bs.drv with
  | none => simp [Inside, bdrvIsInserted, hdrv] at hin
  | some drv => simp [BlockDriverState.holding, hdrv]

include hio

theorem bdrvRead_inside (hn : 1024 * n.toNat < 2 ^ 32) (hs : 512 * (s.toNat + n.toNat) < e + 512) (buf : Bytes) :
    bdrvRead (bs.holding c t) s buf n =
      ((0, buf.write 0 (512 * n.toNat) (c.drop (512 * s.toNat))), bs.holding c (t + 1)) := by
  have hok : (bs.holding c t).io (bs.holding c t).tick = .ok := hio t
  unfold bdrvRead
  rw [not_isNone hin c t, if_neg (by decide), if_neg (not_not.2 (check_inside hin he c t hn hs)), hok]
  refine Prod.ext (Prod.ext rfl ?_) rfl
  funext i
  simp [Outcome.moves, Bytes.write, BlockDriverState.holding]

theorem bdrvWrite_inside (hro : bs.readOnly = false) (hn : 1024 * n.toNat < 2 ^ 32)
    (hs : 512 * (s.toNat + n.toNat) < e + 512) (buf : Bytes) :
    bdrvWrite (bs.holding c t) s buf n = (0, bs.holding (c.write (512 * s.toNat) (512 * n.toNat) buf) (t + 1)) := by
  have hok : (bs.holding c t).io (bs.holding c t).tick = .ok := hio t
  have hro' : (bs.holding c t).readOnly = false := hro
  unfold bdrvWrite
  rw [not_isNone hin c t, if_neg (by decide), if_neg (by rw [hro']; decide),
    if_neg (not_not.2 (check_inside hin he c t hn hs)), hok]
  refine Prod.ext rfl ?_
  unfold BlockDriverState.holding
  dsimp only
  congr 1
  funext k
  by_cases hk : 512 * s.toNat ≤ k
  · have hlt : k - 512 * s.toNat < 512 * n.toNat ↔ k < 512 * s.toNat + 512 * n.toNat := by omega
    simp [Outcome.moves, Bytes.write, hk, hlt]
  · simp [Outcome.moves, Bytes.write, hk]

end Sectors

/-! ### Stores -/

theorem write_append (b d : Bytes) (p n m : ℕ) : (b.write p n d).write (p + n) m (d.drop n) = b.write p (n + m) d := by
  funext k
  unfold Bytes.write Bytes.drop
  split_ifs <;> first | rfl | omega | (congr 1; omega)

theorem splice_write (buf d : Bytes) (pos n : ℕ) : splice buf pos ((buf.drop pos).write 0 n d) = buf.write pos n d := by
  funext k
  unfold splice Bytes.write Bytes.drop
  split_ifs <;> first | rfl | omega | (congr 1; omega)

theorem write_sector (b c : Bytes) {q r n p : ℕ} (h : r + n ≤ 512) :
    b.write q n (Bytes.drop r (Bytes.write (fun _ => 0) 0 512 (c.drop p))) = b.write q n (c.drop (p + r)) := by
  refine Bytes.write_congr fun i hi => ?_
  rw [Bytes.drop_apply, Bytes.drop_apply, Bytes.write, if_pos (by omega), Bytes.drop_apply]
  congr 1
  omega

theorem rewrite_sector (c d : Bytes) {r n p : ℕ} (h : r + n ≤ 512) :
    c.write p 512 ((Bytes.write (fun _ => 0) 0 512 (c.drop p)).write r n d) = c.write (p + r) n d := by
  funext k
  unfold Bytes.write Bytes.drop
  split_ifs <;> first | rfl | omega | (congr 1; omega)

/-! ### Byte requests -/

section ByteIo

variable {bs : BlockDriverState} {e : ℕ} (hio : ∀ t, bs.io t = .ok) (hin : Inside bs e) (he : e < 2 ^ 64 - 2 ^ 32)
  {s : BitVec 64} {count : BitVec 32} (hc : 2 * count.toNat < 2 ^ 32) (c : Bytes) (t : ℕ)

include hio hin he

theorem readSector_inside (hs : 512 * s.toNat < e) :
    readSector (bs.holding c t) s =
      ((0, Bytes.write (fun _ => 0) 0 512 (c.drop (512 * s.toNat))), bs.holding c (t + 1)) :=
  bdrvRead_inside hio hin he c t (by decide) (by simp only [BitVec.toNat_ofNat]; omega) _

theorem rewriteSector_inside (hro : bs.readOnly = false) (hs : 512 * s.toNat < e) {r n : ℕ} (h : r + n ≤ 512) (d : Bytes) :
    rewriteSector (bs.holding c t) s r n d = (true, bs.holding (c.write (512 * s.toNat + r) n d) (t + 2)) := by
  unfold rewriteSector
  rw [readSector_inside hio hin he c t hs]
  dsimp only
  rw [if_neg (by decide), bdrvWrite_inside hio hin he c (t + 1) hro (by decide) (by simp only [BitVec.toNat_ofNat]; omega)]
  have hdata := rewrite_sector c d (p := 512 * s.toNat) h
  simp only [BitVec.toNat_ofNat]
  exact Prod.ext rfl (by rw [← hdata])

include hc

theorem preadTail_inside (hlt : count.toNat < 512) (hs : 512 * s.toNat + count.toNat ≤ e) (buf : Bytes) (pos : ℕ)
    (count1 : BitVec 32) : ∃ t', preadTail (bs.holding c t) s buf pos count count1 =
      ((count1.toInt, buf.write pos count.toNat (c.drop (512 * s.toNat))), bs.holding c t') := by
  unfold preadTail
  rw [toInt_of_lt hc]
  by_cases hpos : (0 : ℤ) < count.toNat
  · rw [if_pos hpos, readSector_inside hio hin he c t (by omega)]
    dsimp only
    have hdata : buf.write pos count.toNat (Bytes.write (fun _ => 0) 0 512 (c.drop (512 * s.toNat))) =
        buf.write pos count.toNat (c.drop (512 * s.toNat)) := by
      refine Bytes.write_congr fun i hi => ?_
      rw [Bytes.write, if_pos (by omega)]
      rfl
    rw [if_neg (by decide), hdata]
    exact ⟨t + 1, rfl⟩
  · have hzero : count.toNat = 0 := by omega
    rw [if_neg hpos, hzero, Bytes.write_zero]
    exact ⟨t, rfl⟩

theorem preadSectors_inside (hs : 512 * s.toNat + count.toNat ≤ e) (buf : Bytes) (pos : ℕ) (count1 : BitVec 32) :
    ∃ t', preadSectors (bs.holding c t) s buf pos count count1 =
      ((count1.toInt, buf.write pos count.toNat (c.drop (512 * s.toNat))), bs.holding c t') := by
  have hnb := toNat_sshiftRight hc
  unfold preadSectors
  dsimp only
  rw [toInt_of_lt (x := count.sshiftRight 9) (by omega)]
  by_cases hpos : (0 : ℤ) < (count.sshiftRight 9).toNat
  · rw [if_pos hpos, bdrvRead_inside hio hin he c t (by omega) (by omega)]
    dsimp only
    have hsum := toNat_add_signExtend (s := s) (n := count.sshiftRight 9) (by omega) (by omega)
    have hrest := toNat_sub_sectors hc
    have hless : 2 * (count - count.sshiftRight 9 <<< 9).toNat < 2 ^ 32 := by omega
    obtain ⟨t', htail⟩ := preadTail_inside (s := s + (count.sshiftRight 9).signExtend 64) hio hin he hless c (t + 1)
      (by omega) (by omega)
      (buf.write pos (512 * (count.toNat / 512)) (c.drop (512 * s.toNat))) (pos + 512 * (count.toNat / 512)) count1
    rw [if_neg (by decide), splice_write, toNat_sectors hc, hnb, htail, hrest, hsum, hnb]
    refine ⟨t', Prod.ext (Prod.ext rfl ?_) rfl⟩
    dsimp only
    rw [Nat.mul_add, ← Bytes.drop_drop, write_append]
    congr 1
    omega
  · rw [if_neg hpos]
    exact preadTail_inside hio hin he hc c t (by omega) hs buf pos count1

variable (hro : bs.readOnly = false)

include hro

theorem pwriteTail_inside (hlt : count.toNat < 512) (hs : 512 * s.toNat + count.toNat ≤ e) (buf : Bytes)
    (count1 : BitVec 32) : ∃ t', pwriteTail (bs.holding c t) s buf count count1 =
      (count1.toInt, bs.holding (c.write (512 * s.toNat) count.toNat buf) t') := by
  unfold pwriteTail
  rw [toInt_of_lt hc]
  by_cases hpos : (0 : ℤ) < count.toNat
  · rw [if_pos hpos, rewriteSector_inside hio hin he c t hro (by omega) (by omega)]
    exact ⟨t + 2, rfl⟩
  · have hzero : count.toNat = 0 := by omega
    rw [if_neg hpos, hzero, Bytes.write_zero]
    exact ⟨t, rfl⟩

theorem pwriteSectors_inside (hs : 512 * s.toNat + count.toNat ≤ e) (buf : Bytes) (count1 : BitVec 32) :
    ∃ t', pwriteSectors (bs.holding c t) s buf count count1 =
      (count1.toInt, bs.holding (c.write (512 * s.toNat) count.toNat buf) t') := by
  have hnb := toNat_sshiftRight hc
  unfold pwriteSectors
  dsimp only
  rw [toInt_of_lt (x := count.sshiftRight 9) (by omega)]
  by_cases hpos : (0 : ℤ) < (count.sshiftRight 9).toNat
  · rw [if_pos hpos, bdrvWrite_inside hio hin he c t hro (by omega) (by omega)]
    dsimp only
    have hsum := toNat_add_signExtend (s := s) (n := count.sshiftRight 9) (by omega) (by omega)
    have hrest := toNat_sub_sectors hc
    have hless : 2 * (count - count.sshiftRight 9 <<< 9).toNat < 2 ^ 32 := by omega
    obtain ⟨t', htail⟩ := pwriteTail_inside (s := s + (count.sshiftRight 9).signExtend 64) hio hin he hless
      (c.write (512 * s.toNat) (512 * (count.toNat / 512)) buf) (t + 1) hro (by omega) (by omega)
      (buf.drop (512 * (count.toNat / 512))) count1
    rw [if_neg (by decide), toNat_sectors hc, hnb, htail, hrest, hsum, hnb, Nat.mul_add, write_append]
    refine ⟨t', Prod.ext rfl ?_⟩
    dsimp only
    congr 2
    omega
  · rw [if_neg hpos]
    exact pwriteTail_inside hio hin he hc c t hro (by omega) hs buf count1

end ByteIo

/-- The bytes of a request: neither number is negative, and the sectors that it touches lie in the
device. -/
structure InDevice (bs : BlockDriverState) (offset : BitVec 64) (count : BitVec 32) : Prop where
  offset_nonneg : 0 ≤ offset.toInt
  count_nonneg : 0 ≤ count.toInt
  sectors : count.toNat = 0 ∨ Inside bs (offset.toNat + count.toNat)

theorem behind_head {offset : BitVec 64} {count : BitVec 32} (hoff : 2 * offset.toNat < 2 ^ 64) (hc : 2 * count.toNat < 2 ^ 32) :
    (count - headLen offset count).toNat = count.toNat - (headLen offset count).toNat ∧
      (offset.sshiftRight 9 + 1#64).toNat = offset.toNat / 512 + 1 := by
  have hlen : (headLen offset count).toNat = _ := headLen_toNat hc
  refine ⟨?_, ?_⟩
  · rw [BitVec.toNat_sub]
    omega
  · rw [BitVec.toNat_add, toNat_sshiftRight hoff, BitVec.toNat_ofNat]
    omega

theorem preadSectors_zero (bs : BlockDriverState) (s : BitVec 64) (buf : Bytes) (pos : ℕ) (count1 : BitVec 32) :
    preadSectors bs s buf pos 0#32 count1 = ((count1.toInt, buf), bs) := rfl

theorem pwriteSectors_zero (bs : BlockDriverState) (s : BitVec 64) (buf : Bytes) (count1 : BitVec 32) :
    pwriteSectors bs s buf 0#32 count1 = (count1.toInt, bs) := rfl

section Flat

variable {bs : BlockDriverState} (hio : ∀ t, bs.io t = .ok) {offset : BitVec 64} {count : BitVec 32}
  (h : InDevice bs offset count) (c : Bytes) (t : ℕ) (buf : Bytes)

include hio h

/-- A read gives the bytes of the request. -/
theorem bdrvPread_ok : ∃ t', bdrvPread (bs.holding c t) offset buf count =
    ((count.toInt, buf.write 0 count.toNat (c.drop offset.toNat)), bs.holding c t') := by
  obtain ⟨hoff, hcount, hin⟩ := h
  obtain ⟨-, hoff⟩ := toInt_nonneg hoff
  obtain ⟨-, hc⟩ := toInt_nonneg hcount
  have hlen : (headLen offset count).toNat = _ := headLen_toNat hc
  have hsector := toNat_sshiftRight hoff
  obtain ⟨hrest, hnext⟩ := behind_head hoff hc
  unfold bdrvPread
  dsimp only
  rw [toInt_of_lt (x := headLen offset count) (by omega)]
  by_cases hpos : (0 : ℤ) < (headLen offset count).toNat
  · have hin := hin.resolve_left (by omega)
    have hdata := write_sector buf c (q := 0) (r := offset.toNat % 512) (n := (headLen offset count).toNat)
      (p := 512 * (offset.toNat / 512)) (by omega)
    rw [if_pos hpos, readSector_inside hio hin (by omega) c t (by omega)]
    dsimp only
    rw [if_neg (by decide), toNat_and_511, hsector, hdata, Nat.div_add_mod]
    by_cases hend : count - headLen offset count = 0#32
    · rw [hend] at hrest
      have hall : (headLen offset count).toNat = count.toNat := by
        rw [BitVec.toNat_ofNat] at hrest
        omega
      rw [if_pos hend, hall]
      exact ⟨t + 1, rfl⟩
    · have hmore : (count - headLen offset count).toNat ≠ 0 := fun hzero => hend (BitVec.eq_of_toNat_eq hzero)
      rw [if_neg hend]
      have hless : 2 * (count - headLen offset count).toNat < 2 ^ 32 := by omega
      obtain ⟨t', hsectors⟩ := preadSectors_inside (s := offset.sshiftRight 9 + 1#64) hio hin (by omega) hless c (t + 1)
        (by omega)
        (buf.write 0 (headLen offset count).toNat (c.drop offset.toNat)) (headLen offset count).toNat count
      have hadj := write_append buf (c.drop offset.toNat) 0 (headLen offset count).toNat
        (count.toNat - (headLen offset count).toNat)
      rw [Nat.zero_add, Bytes.drop_drop] at hadj
      rw [hsectors, hrest, show 512 * (offset.sshiftRight 9 + 1#64).toNat = offset.toNat + (headLen offset count).toNat by omega,
        hadj, Nat.add_sub_cancel' (by omega)]
      exact ⟨t', rfl⟩
  · rw [if_neg hpos]
    by_cases hzero : count.toNat = 0
    · rw [BitVec.eq_of_toNat_eq (y := 0#32) hzero, preadSectors_zero, BitVec.toNat_ofNat, Bytes.write_zero]
      exact ⟨t, rfl⟩
    · have haligned : 512 * (offset.sshiftRight 9).toNat = offset.toNat := by omega
      rw [← haligned]
      exact preadSectors_inside hio (hin.resolve_left hzero) (by omega) hc c t (by omega) buf 0 count

/-- A write changes the bytes of the request. -/
theorem bdrvPwrite_ok (hro : bs.readOnly = false) : ∃ t', bdrvPwrite (bs.holding c t) offset buf count =
    (count.toInt, bs.holding (c.write offset.toNat count.toNat buf) t') := by
  obtain ⟨hoff, hcount, hin⟩ := h
  obtain ⟨-, hoff⟩ := toInt_nonneg hoff
  obtain ⟨-, hc⟩ := toInt_nonneg hcount
  have hlen : (headLen offset count).toNat = _ := headLen_toNat hc
  have hsector := toNat_sshiftRight hoff
  obtain ⟨hrest, hnext⟩ := behind_head hoff hc
  unfold bdrvPwrite
  dsimp only
  rw [toInt_of_lt (x := headLen offset count) (by omega)]
  by_cases hpos : (0 : ℤ) < (headLen offset count).toNat
  · have hin := hin.resolve_left (by omega)
    rw [if_pos hpos, toNat_and_511, rewriteSector_inside hio hin (by omega) c t hro (by omega) (by omega), hsector,
      Nat.div_add_mod]
    dsimp only
    rw [if_neg (by decide)]
    by_cases hend : count - headLen offset count = 0#32
    · rw [hend] at hrest
      have hall : (headLen offset count).toNat = count.toNat := by
        rw [BitVec.toNat_ofNat] at hrest
        omega
      rw [if_pos hend, hall]
      exact ⟨t + 2, rfl⟩
    · have hmore : (count - headLen offset count).toNat ≠ 0 := fun hzero => hend (BitVec.eq_of_toNat_eq hzero)
      rw [if_neg hend]
      have hless : 2 * (count - headLen offset count).toNat < 2 ^ 32 := by omega
      obtain ⟨t', hsectors⟩ := pwriteSectors_inside (s := offset.sshiftRight 9 + 1#64)
        hio hin (by omega) hless (c.write offset.toNat (headLen offset count).toNat buf) (t + 2) hro (by omega)
        (buf.drop (headLen offset count).toNat) count
      rw [hsectors, hrest, show 512 * (offset.sshiftRight 9 + 1#64).toNat = offset.toNat + (headLen offset count).toNat by omega,
        write_append, Nat.add_sub_cancel' (by omega)]
      exact ⟨t', rfl⟩
  · rw [if_neg hpos]
    by_cases hzero : count.toNat = 0
    · rw [BitVec.eq_of_toNat_eq (y := 0#32) hzero, pwriteSectors_zero, BitVec.toNat_ofNat, Bytes.write_zero]
      exact ⟨t, rfl⟩
    · have haligned : 512 * (offset.sshiftRight 9).toNat = offset.toNat := by omega
      rw [← haligned]
      exact pwriteSectors_inside hio (hin.resolve_left hzero) (by omega) hc c t hro (by omega) buf count

end Flat

/-! ### The flat array -/

/-- A byte write. -/
structure ByteWrite where
  offset : BitVec 64
  buf : Bytes
  count : BitVec 32

/-- The device behind a list of byte writes. -/
def runWrites (bs : BlockDriverState) : List ByteWrite → BlockDriverState
  | [] => bs
  | w :: ws => runWrites (bdrvPwrite bs w.offset w.buf w.count).2 ws

/-- The byte array behind the same writes. -/
def flatWrites (c : Bytes) : List ByteWrite → Bytes
  | [] => c
  | w :: ws => flatWrites (c.write w.offset.toNat w.count.toNat w.buf) ws

theorem runWrites_ok {bs : BlockDriverState} (hio : ∀ t, bs.io t = .ok) (hro : bs.readOnly = false) {ws : List ByteWrite}
    (hws : ∀ w ∈ ws, InDevice bs w.offset w.count) (c : Bytes) (t : ℕ) :
    ∃ t', runWrites (bs.holding c t) ws = bs.holding (flatWrites c ws) t' := by
  induction ws generalizing c t with
  | nil => exact ⟨t, rfl⟩
  | cons w ws ih =>
    obtain ⟨t', hw⟩ := bdrvPwrite_ok hio (hws w (by simp)) c t w.buf hro
    unfold runWrites flatWrites
    rw [hw]
    exact ih (fun w' hw' => hws w' (by simp [hw'])) _ _

/-- Byte requests whose sectors lie in the device and succeed: a read returns exactly the bytes of
the request, a write changes exactly those, and a read behind any list of writes is that of a flat
array of bytes. -/
theorem bdrv_byte_io_flat (bs : BlockDriverState) (hio : ∀ t, bs.io t = .ok) :
    (∀ offset count buf, InDevice bs offset count →
      (bdrvPread bs offset buf count).1 = (count.toInt, buf.write 0 count.toNat (bs.content.drop offset.toNat)) ∧
      (bdrvPread bs offset buf count).2.content = bs.content) ∧
    (bs.readOnly = false → ∀ offset count buf, InDevice bs offset count →
      (bdrvPwrite bs offset buf count).1 = count.toInt ∧
      (bdrvPwrite bs offset buf count).2.content = bs.content.write offset.toNat count.toNat buf) ∧
    (bs.readOnly = false → ∀ ws : List ByteWrite, (∀ w ∈ ws, InDevice bs w.offset w.count) →
      ∀ offset count buf, InDevice bs offset count →
        (bdrvPread (runWrites bs ws) offset buf count).1 =
          (count.toInt, buf.write 0 count.toNat ((flatWrites bs.content ws).drop offset.toNat))) := by
  refine ⟨fun offset count buf h => ?_, fun hro offset count buf h => ?_, fun hro ws hws offset count buf h => ?_⟩
  · obtain ⟨t', hread⟩ := bdrvPread_ok hio h bs.content bs.tick buf
    have hread : bdrvPread bs offset buf count = _ := hread
    rw [hread]
    exact ⟨rfl, rfl⟩
  · obtain ⟨t', hwrite⟩ := bdrvPwrite_ok hio h bs.content bs.tick buf hro
    have hwrite : bdrvPwrite bs offset buf count = _ := hwrite
    rw [hwrite]
    exact ⟨rfl, rfl⟩
  · obtain ⟨t', hrun⟩ := runWrites_ok hio hro hws bs.content bs.tick
    have hrun : runWrites bs ws = _ := hrun
    obtain ⟨t'', hread⟩ := bdrvPread_ok hio h (flatWrites bs.content ws) t' buf
    rw [hrun, hread]

/-- Two overlapping writes across a sector boundary of a raw disk, and a read of both. -/
theorem rawDisk_overlapping_writes :
    (bdrvPread (runWrites rawDisk [⟨510#64, fun _ => 1, 4#32⟩, ⟨512#64, fun _ => 2, 600#32⟩]) 509#64 (fun _ => 9) 5#32).1 =
      (5, Bytes.write (fun _ => 9) 0 5 ((flatWrites (fun _ => 0)
        [⟨510#64, fun _ => 1, 4#32⟩, ⟨512#64, fun _ => 2, 600#32⟩]).drop 509)) := by
  have hin : ∀ offset count, 0 ≤ offset.toInt → 0 ≤ count.toInt → offset.toNat + count.toNat ≤ 2048 →
      InDevice rawDisk offset count := by
    intro offset count hoff hcount hle
    refine ⟨hoff, hcount, .inr ⟨rfl, .inr ?_⟩⟩
    have hlen : (bdrvGetlength rawDisk).toInt = 0x100000 := rfl
    rw [hlen]
    omega
  refine (bdrv_byte_io_flat rawDisk fun _ => rfl).2.2 rfl _ ?_ 509#64 5#32 _ (hin _ _ (by decide) (by decide) (by decide))
  intro w hw
  simp only [List.mem_cons, List.not_mem_nil, or_false] at hw
  rcases hw with rfl | rfl
  · exact hin _ _ (by decide) (by decide) (by decide)
  · exact hin _ _ (by decide) (by decide) (by decide)

end Ar7Qemu.Block.Request
