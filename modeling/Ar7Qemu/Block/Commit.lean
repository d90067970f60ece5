import Ar7Qemu.Qcow2.AioRead
import Ar7Qemu.Lib.Results
import Mathlib.Logic.Relation

/-! `bdrv_commit` of `block.c`: copy every allocated run of an overlay into its
backing file. Proved: on a valid overlay with a backing file at least as large
the loop ends, and it merges the whole image exactly when no allocated run that it
meets passes the end of the image and the plain clusters start on host sectors. -/

namespace Ar7Qemu.Block

open Lib Qcow2

def enotsup : ℤ := 95

/-- `qcow_is_allocated`: whether the first of the sectors is allocated, and how
many follow the same way. -/
def qcowIsAllocated (sectorNum nbSectors : ℕ) : Qcow (Bool × ℕ) := do
  let (clusterOffset, n) ← getClusterOffset (sectorNum * 512) nbSectors
  return (clusterOffset ≠ 0, n)

/-- `bdrv_read` on the overlay. A request past its end is refused. The format has no `bdrv_read` of its
own: `bdrv_read_em` waits for an asynchronous read, whose submissions are accepted here. -/
def bdrvRead (sectorNum nbSectors : ℕ) (buf : Bytes) : Qcow (Option ℤ × Bytes) := do
  let s ← get
  if s.totalSectors * 512 < (sectorNum + nbSectors) * 512 then return (some (-eio), buf)
  let (acb, ret) ← aioRead (fun _ => true) sectorNum nbSectors buf
  return (ret, acb.buf)

/-- `bdrv_write` on the backing file: it does not grow. -/
def backingWrite (sectorNum nbSectors : ℕ) (d : Bytes) : Qcow Bool := fun s =>
  match s.backingHd with
  | none => (false, s)
  | some f =>
    if f.len < (sectorNum + nbSectors) * 512 then (false, s)
    else
      let r := f.bdrvPwrite (sectorNum * 512) (nbSectors * 512) d
      (r.1, { s with backingHd := some r.2 })

/-- The inner loop of `bdrv_commit`: `n` sectors from `i` on, one at a time through the buffer `sector`.
`none` stands for the failure of a request. -/
def commitRun : ℕ → ℕ → Bytes → Qcow (Option Bytes)
  | 0, _, sector => return some sector
  | n + 1, i, sector => do
    let (ret, sector) ← bdrvRead i 1 sector
    if ret ≠ some 0 then return none
    if !(← backingWrite i 1 sector) then return none
    commitRun n (i + 1) sector

/-- The sectors that `bdrv_commit` asks `bdrv_is_allocated` about. -/
def commitChunk : ℕ := 65536

/-- The outer loop of `bdrv_commit`. It returns `none` when it does not end. -/
def commitLoop (totalSectors : ℕ) : ℕ → ℕ → Bytes → Qcow (Option ℤ)
  | 0, i, _ => return if totalSectors ≤ i then some 0 else none
  | fuel + 1, i, sector => do
    if totalSectors ≤ i then return some 0
    let (allocated, n) ← qcowIsAllocated i commitChunk
    if allocated then
      match ← commitRun n i sector with
      | none => return some (-eio)
      | some sector => commitLoop totalSectors fuel (i + n) sector
    else commitLoop totalSectors fuel (i + n) sector

/-- `bdrv_commit` on a writable overlay, with what the stack holds in `sector`. The `bdrv_make_empty` of
this format does nothing. -/
def bdrvCommit (sector : Bytes) : Qcow (Option ℤ) := do
  let s ← get
  if s.backingHd.isNone then return some (-enotsup)
  commitLoop s.totalSectors s.totalSectors 0 sector

/-! ### Reads of a sector -/

section Sector

variable {s : BDRVQcowState} (hi : s.ImageOk) (hc : s.CachesOk) {i : ℕ} (hlt : i < s.totalSectors) (hir : s.InRange i 1)

include hi hc hlt hir

omit hi hc hir in
theorem bdrvRead_inside (buf : Bytes) : bdrvRead i 1 buf s =
    (((aioRun 1 (qcowAioSetup i 1 buf) s).1.2, (aioRun 1 (qcowAioSetup i 1 buf) s).1.1.buf),
      (aioRun 1 (qcowAioSetup i 1 buf) s).2) := by
  rw [bdrvRead, bind_apply, get_apply]
  dsimp only
  rw [if_neg (by omega), bind_apply, aioRead_eq]
  rfl

/-- A sector that both reads handle alike is read. -/
theorem bdrvRead_ok (hagree : s.RunAgrees i 1) (buf : Bytes) : ∃ buf' s', bdrvRead i 1 buf s = ((some 0, buf'), s') ∧
    s'.core = s.core ∧ s'.CachesOk ∧ ∀ k < 512, buf' k = s.readByte i k := by
  have hone : s.runSectors i 1 = 1 := Nat.le_antisymm (runSectors_le s i 1) (runSectors_pos (by decide) (hi.entryOk _))
  obtain ⟨e, d, s1, s2, hlook, hread, -, -, -, hstep⟩ := aioRun_agrees hi.toMapOk ⟨hc.l2, fun g hz _ => hi.inflates g hz⟩
    (show (qcowAioSetup i 1 buf).nbSectors ≠ 0 from Nat.one_ne_zero) (show 1 < 2 ^ 22 by decide) hir
    (show s.RunAgrees i (s.runSectors i 1) from hone.symm ▸ hagree)
  obtain ⟨c, o, p, t, hlook', hl2⟩ := getClusterOffset_ok hi.geometry i hi.reliable hc.l2 hi.l1Ok
    (show 1 < 2 ^ 30 by decide) (hir 0 (by decide))
  -- both name the same state after the lookup, and there the synchronous read is known
  obtain ⟨he, hs1⟩ := Prod.mk.inj (hlook.symm.trans hlook')
  obtain ⟨buf', s', hrun, hcore, hcaches, hbuf⟩ := readRun_ok (s := s.l2Cached c o p t) (hi.of_core rfl) ⟨hl2, hc.cluster⟩
    (show 1 < 2 ^ 22 by decide) Nat.one_pos (BDRVQcowState.runsOk_one i) (qcowAioSetup i 1 buf).cur
  rw [(Prod.mk.inj he).1, hs1] at hread
  obtain ⟨hd, rfl⟩ := Prod.mk.inj (hread.symm.trans hrun)
  obtain rfl : d = buf' := (Prod.mk.inj hd).2
  have hend := hstep 0
  rw [show s.runSectors (qcowAioSetup i 1 buf).sectorNum (qcowAioSetup i 1 buf).nbSectors = 1 from hone] at hend
  have hdone : aioRun 1 (qcowAioSetup i 1 buf) s = (((qcowAioSetup i 1 buf).filled e 1 d, some 0), s2) := by
    have hnone : ((qcowAioSetup i 1 buf).filled e 1 d).nbSectors = 0 := rfl
    rw [hend, aioRun, if_pos hnone, pure_apply]
  refine ⟨((qcowAioSetup i 1 buf).filled e 1 d).buf, s2, ?_, hcore, hcaches, fun k hk => ?_⟩
  · rw [bdrvRead_inside hlt, hdone]
  · have hbyte : ((qcowAioSetup i 1 buf).filled e 1 d).buf k = d k := by
      show Bytes.write buf 0 512 d k = d k
      rw [← Nat.zero_add k, Bytes.write_apply_of_mem hk, Nat.zero_add]
    rw [hbyte]
    exact hbuf k (by rw [show (s.l2Cached c o p t).runSectors i 1 = 1 from hone]; omega)

/-- A plain cluster that does not start on a host sector is refused. -/
theorem bdrvRead_misaligned (he : clearCopied (s.guestEntry (i / s.clusterSectors)) ≠ 0)
    (hz : isCompressed (s.guestEntry (i / s.clusterSectors)) = false)
    (ha : clearCopied (s.guestEntry (i / s.clusterSectors)) % 512 ≠ 0) (buf : Bytes) :
    (bdrvRead i 1 buf s).1.1 = some (-eio) := by
  obtain ⟨c, o, k, t, hlook, -⟩ := getClusterOffset_ok hi.geometry i hi.reliable hc.l2 hi.l1Ok
    (show 1 < 2 ^ 30 by decide) (hir 0 (by decide))
  rw [bdrvRead_inside hlt]
  exact aioRun_misaligned (show (qcowAioSetup i 1 buf).nbSectors ≠ 0 from Nat.one_ne_zero) hlook he
    ((isCompressed_clearCopied _).trans hz) ha 1

end Sector

/-! ### The overlay while its backing file changes -/

/-- The overlay over another backing file. -/
def withBacking (s : BDRVQcowState) (f : HostFile) : BDRVQcowState := { s with backingHd := some f }

/-- The first `i` sectors of the backing file are merged and the others are as
before. -/
structure Merging (s : BDRVQcowState) (f : HostFile) (i : ℕ) (f' : HostFile) : Prop where
  reliable : f'.Reliable
  len : f'.len = f.len
  merged : ∀ j < i, j < s.totalSectors → ∀ b : Fin 512, f'.data (j * 512 + b) = s.sectorData j b
  rest : ∀ k, i * 512 ≤ k → f'.data k = f.data k

section Overlay

variable {s : BDRVQcowState} (hi : s.ImageOk)

include hi

theorem imageOk_withBacking {f : HostFile} (hf : f.Reliable) : (withBacking s f).ImageOk :=
  ⟨⟨⟨hi.geometry.lo, hi.geometry.hi⟩, hi.reliable, fun _ h => Option.some.inj h ▸ hf, hi.l1Ok,
    hi.entryOk, hi.packed⟩, hi.inflates⟩

omit hi in
theorem sectorData_withBacking {i : ℕ} (f : HostFile)
    (h : clearCopied (s.guestEntry (i / s.clusterSectors)) ≠ 0) :
    (withBacking s f).sectorData i = s.sectorData i := by
  rw [BDRVQcowState.sectorData, BDRVQcowState.sectorData, if_neg h]
  exact if_neg h

omit hi in
theorem runAgrees_withBacking {i : ℕ} (f : HostFile) (he : clearCopied (s.guestEntry (i / s.clusterSectors)) ≠ 0)
    (h : s.RunAgrees i 1) : (withBacking s f).RunAgrees i 1 := by
  unfold BDRVQcowState.RunAgrees at h ⊢
  dsimp only at h ⊢
  rw [if_neg he] at h
  exact (if_neg he).mpr h

/-- One sector of an allocated run. -/
theorem commitRun_step {st : BDRVQcowState} {f f' : HostFile} {i : ℕ} (hc : st.CachesOk)
    (hcore : st.core = (withBacking s f').core) (hm : Merging s f i f')
    (hidx : s.InRange 0 s.totalSectors) (hlen : s.totalSectors * 512 ≤ f.len)
    (hlt : i < s.totalSectors)
    (halloc : clearCopied (s.guestEntry (i / s.clusterSectors)) ≠ 0) (hagree : s.RunAgrees i 1) (n : ℕ)
    (sector : Bytes) :
    ∃ st' f'' sector', commitRun (n + 1) i sector st = commitRun n (i + 1) sector' st' ∧ st'.CachesOk ∧
      st'.core = (withBacking s f'').core ∧ Merging s f (i + 1) f'' := by
  have hist : st.ImageOk := (imageOk_withBacking hi hm.reliable).of_core hcore
  have htotal := congrArg BDRVQcowState.totalSectors hcore
  replace htotal : st.totalSectors = s.totalSectors := htotal
  have hir : s.InRange i 1 := hidx.single hlt
  obtain ⟨buf, st1, hread, hcore1, hc1, hbuf⟩ := bdrvRead_ok hist hc (by omega)
    (BDRVQcowState.InRange.of_core (s := withBacking s f') hir hcore)
    ((BDRVQcowState.RunAgrees.of_core hcore).mpr (runAgrees_withBacking f' halloc hagree)) sector
  have hdata : ∀ k (hk : k < 512), buf k = s.sectorData i ⟨k, hk⟩ := fun k hk => by
    rw [hbuf k hk, BDRVQcowState.readByte_of_core hcore, BDRVQcowState.readByte,
      ← sectorData_withBacking f' halloc]
    simp only [Nat.div_eq_of_lt hk, Nat.add_zero, Nat.mod_eq_of_lt hk]
  have hcore1' : st1.core = (withBacking s f').core := hcore1.trans hcore
  -- the backing file after the read differs at most in its request counter
  obtain ⟨f1, hb1, hf1⟩ : ∃ f1, st1.backingHd = some f1 ∧
      ({ f1 with tick := 0 } : HostFile) = { f' with tick := 0 } := by
    have := congrArg BDRVQcowState.backingHd hcore1'
    exact Option.map_eq_some_iff.mp this
  have hdata1 : f1.data = f'.data := by have := congrArg HostFile.data hf1; exact this
  have hlen1 : f1.len = f.len := by
    have := congrArg HostFile.len hf1
    exact this.trans hm.len
  have hrel1 : f1.Reliable := fun t => by
    have := congrArg (fun f => f.io t) hf1
    exact this.trans (hm.reliable t)
  have hfits : ¬ f1.len < (i + 1) * 512 := by
    rw [hlen1]
    omega
  obtain ⟨f2, hw, hdata2, hlen2, hrel2⟩ : ∃ f2, f1.bdrvPwrite (i * 512) (1 * 512) buf = (true, f2) ∧
      f2.data = f'.data.write (i * 512) 512 buf ∧ f2.len = f.len ∧ f2.Reliable := by
    obtain ⟨t, hw⟩ := HostFile.bdrvPwrite_ok hrel1 (i * 512) (n := 1 * 512) (by norm_num) buf
    have halign : HostFile.alignSector (i * 512 + 1 * 512) ≤ f1.len := by
      rw [HostFile.alignSector, show (i * 512 + 1 * 512 + 511) / 512 = i + 1 by omega]
      exact Nat.not_lt.mp hfits
    refine ⟨_, hw, by rw [hdata1], ?_, hrel1⟩
    rw [← hlen1, if_neg (by norm_num), max_eq_left halign]
  refine ⟨withBacking st1 f2, f2, buf, ?_, ⟨hc1.l2, hc1.cluster⟩, ?_, hrel2, hlen2, fun j hj hjt b => ?_,
    fun k hk => ?_⟩
  · rw [commitRun, bind_apply, hread]
    simp only [ne_eq, not_true_eq_false, if_false, bind_apply, backingWrite, hb1, hfits, hw]
    rfl
  · have := congrArg (fun x : BDRVQcowState => { x with backingHd := some { f2 with tick := 0 } })
      hcore1'
    exact this
  · rw [hdata2]
    rcases Nat.lt_succ_iff_lt_or_eq.mp hj with hj | rfl
    · rw [Bytes.write_apply_of_lt (by have := b.2; omega)]
      exact hm.merged j hj hjt b
    · rw [Bytes.write_apply_of_mem b.2]
      exact hdata b b.2
  · rw [hdata2, Bytes.write_apply_of_ge (by linarith)]
    exact hm.rest k (by linarith)

/-- An allocated run inside the image is merged; one that passes its end makes
the loop fail. -/
theorem commitRun_ok {st : BDRVQcowState} {f f' : HostFile} {i n : ℕ} (hc : st.CachesOk)
    (hcore : st.core = (withBacking s f').core) (hm : Merging s f i f')
    (hidx : s.InRange 0 s.totalSectors) (hlen : s.totalSectors * 512 ≤ f.len)
    (halloc : ∀ q < n, clearCopied (s.guestEntry ((i + q) / s.clusterSectors)) ≠ 0)
    (hagree : ∀ j < s.totalSectors, s.RunAgrees j 1) (hfit : i + n ≤ s.totalSectors) (sector : Bytes) :
    ∃ st' f'' sector', commitRun n i sector st = (some sector', st') ∧ st'.CachesOk ∧
      st'.core = (withBacking s f'').core ∧ Merging s f (i + n) f'' := by
  induction n generalizing i st f' sector with
  | zero => exact ⟨st, f', sector, rfl, hc, hcore, hm⟩
  | succ n ih =>
    obtain ⟨st1, f1, sector1, hstep, hc1, hcore1, hm1⟩ := commitRun_step hi hc hcore hm hidx hlen (by omega)
      (halloc 0 (by omega)) (hagree i (by omega)) n sector
    obtain ⟨st2, f2, sector2, hrun, hc2, hcore2, hm2⟩ := ih hc1 hcore1 hm1 (fun q hq => by
      have := halloc (1 + q) (by omega)
      rwa [← Nat.add_assoc] at this) (by omega) sector1
    refine ⟨st2, f2, sector2, hstep.trans hrun, hc2, hcore2, ?_⟩
    rwa [Nat.add_assoc, Nat.add_comm 1 n] at hm2

theorem commitRun_past_end {st : BDRVQcowState} {f f' : HostFile} {i n : ℕ} (hc : st.CachesOk)
    (hcore : st.core = (withBacking s f').core) (hm : Merging s f i f')
    (hidx : s.InRange 0 s.totalSectors) (hlen : s.totalSectors * 512 ≤ f.len)
    (halloc : ∀ q < n, clearCopied (s.guestEntry ((i + q) / s.clusterSectors)) ≠ 0)
    (hagree : ∀ j < s.totalSectors, s.RunAgrees j 1) (hi' : i ≤ s.totalSectors) (hpast : s.totalSectors < i + n)
    (sector : Bytes) : (commitRun n i sector st).1 = none := by
  induction n generalizing i st f' sector with
  | zero => omega
  | succ n ih =>
    rcases Nat.lt_or_ge i s.totalSectors with hlt | hge
    · obtain ⟨st1, f1, sector1, hstep, hc1, hcore1, hm1⟩ := commitRun_step hi hc hcore hm hidx hlen hlt
        (halloc 0 (by omega)) (hagree i hlt) n sector
      rw [hstep]
      exact ih hc1 hcore1 hm1 (fun q hq => by
        have := halloc (1 + q) (by omega)
        rwa [← Nat.add_assoc] at this) (by omega) (by omega) sector1
    · have htotal := congrArg BDRVQcowState.totalSectors hcore
      replace htotal : st.totalSectors = s.totalSectors := htotal
      have hout : st.totalSectors * 512 < (i + 1) * 512 := by omega
      rw [commitRun, bind_apply, bdrvRead, bind_apply, get_apply]
      dsimp only
      rw [if_pos hout]
      rfl

end Overlay

/-! ### The whole loop -/

/-- `bdrv_commit` meets sector `b` after sector `a`. -/
def CommitStep (s : BDRVQcowState) (a b : ℕ) : Prop :=
  a < s.totalSectors ∧ b = a + s.runSectors a commitChunk

/-- No allocated run met from sector `a` on passes the end of the image. -/
def AllocatedRunsFit (s : BDRVQcowState) (a : ℕ) : Prop :=
  ∀ i, Relation.ReflTransGen (CommitStep s) a i → i < s.totalSectors →
    clearCopied (s.guestEntry (i / s.clusterSectors)) ≠ 0 →
    i + s.runSectors i commitChunk ≤ s.totalSectors

theorem allocatedRunsFit_iff {s : BDRVQcowState} {a : ℕ} (ha : a < s.totalSectors) :
    AllocatedRunsFit s a ↔
      (clearCopied (s.guestEntry (a / s.clusterSectors)) ≠ 0 →
        a + s.runSectors a commitChunk ≤ s.totalSectors) ∧
      AllocatedRunsFit s (a + s.runSectors a commitChunk) := by
  constructor
  · intro h
    exact ⟨h a .refl ha, fun i hi => h i (.head ⟨ha, rfl⟩ hi)⟩
  · rintro ⟨h, h'⟩ i hi
    rcases hi.cases_head with rfl | ⟨b, ⟨-, rfl⟩, hb⟩
    · exact fun _ => h
    · exact h' i hb

theorem allocatedRunsFit_end {s : BDRVQcowState} {a : ℕ} (ha : s.totalSectors ≤ a) :
    AllocatedRunsFit s a := by
  intro i hi hlt
  rcases hi.cases_head with rfl | ⟨b, ⟨hb, -⟩, -⟩ <;> omega

section Loop

variable {s : BDRVQcowState} (hi : s.ImageOk) {f : HostFile} (hb : s.backingHd = some f)
  (hidx : s.InRange 0 s.totalSectors) (hlen : s.totalSectors * 512 ≤ f.len)

include hi hb hidx hlen

omit hi hidx hlen in
theorem merging_skip {f' : HostFile} {i n : ℕ} (hlen : s.totalSectors * 512 ≤ f.len)
    (hm : Merging s f i f')
    (hfree : ∀ q < n, clearCopied (s.guestEntry ((i + q) / s.clusterSectors)) = 0) :
    Merging s f (i + n) f' := by
  refine ⟨hm.reliable, hm.len, fun j hj hjt b => ?_, fun k hk => hm.rest k (by linarith)⟩
  rcases Nat.lt_or_ge j i with hji | hji
  · exact hm.merged j hji hjt b
  · have he := hfree (j - i) (by omega)
    rw [show i + (j - i) = j by omega] at he
    rw [hm.rest _ (le_trans (Nat.mul_le_mul_right 512 hji) (Nat.le_add_right _ _)),
      BDRVQcowState.sectorData, he, if_pos rfl, BDRVQcowState.backingSector, hb]
    exact (if_pos (by unfold backingSectors; omega)).symm

omit hb hlen in
/-- What `bdrv_is_allocated` answers while the backing file changes. -/
theorem qcowIsAllocated_ok {st : BDRVQcowState} {f' : HostFile} {i : ℕ} (hc : st.CachesOk)
    (hcore : st.core = (withBacking s f').core) (hm : Merging s f i f') (hlt : i < s.totalSectors) :
    ∃ st', qcowIsAllocated i commitChunk st =
        ((decide (clearCopied (s.guestEntry (i / s.clusterSectors)) ≠ 0),
          s.runSectors i commitChunk), st') ∧
      st'.CachesOk ∧ st'.core = (withBacking s f').core := by
  have hist : st.ImageOk := (imageOk_withBacking hi hm.reliable).of_core hcore
  have hir : st.InRange i 1 := BDRVQcowState.InRange.of_core (s := withBacking s f')
    (hidx.single hlt) hcore
  obtain ⟨c, o, n, t, hg, hl2⟩ := getClusterOffset_ok hist.geometry i hist.reliable hc.l2 hist.l1Ok
    (show commitChunk < 2 ^ 30 by norm_num [commitChunk]) (hir 0 (by norm_num))
  have hentry := congrArg (fun x : BDRVQcowState => x.guestEntry (i / x.clusterSectors)) hcore
  replace hentry : st.guestEntry (i / st.clusterSectors) = s.guestEntry (i / s.clusterSectors) :=
    hentry
  have hrun := congrArg (fun x : BDRVQcowState => x.runSectors i commitChunk) hcore
  replace hrun : st.runSectors i commitChunk = s.runSectors i commitChunk := hrun
  refine ⟨_, ?_, ⟨hl2, hc.cluster⟩, hcore⟩
  rw [qcowIsAllocated, bind_apply, hg, hentry, hrun]
  rfl

/-- The loop from sector `i` on. -/
theorem commitLoop_ok {st : BDRVQcowState} {f' : HostFile} {fuel i : ℕ} (hc : st.CachesOk)
    (hcore : st.core = (withBacking s f').core) (hm : Merging s f i f')
    (hagree : ∀ j < s.totalSectors, s.RunAgrees j 1) (hfuel : s.totalSectors ≤ i + fuel) (sector : Bytes) :
    (AllocatedRunsFit s i ∧ ∃ st' f'' i', commitLoop s.totalSectors fuel i sector st = (some 0, st') ∧
      st'.core = (withBacking s f'').core ∧ s.totalSectors ≤ i' ∧ Merging s f i' f'') ∨
    (¬ AllocatedRunsFit s i ∧ (commitLoop s.totalSectors fuel i sector st).1 = some (-eio)) := by
  induction fuel generalizing i st f' sector with
  | zero =>
    refine .inl ⟨allocatedRunsFit_end hfuel, st, f', i, ?_, hcore, hfuel, hm⟩
    rw [commitLoop, if_pos (by omega)]
    rfl
  | succ fuel ih =>
    rcases Nat.lt_or_ge i s.totalSectors with hlt | hge
    swap
    · refine .inl ⟨allocatedRunsFit_end hge, st, f', i, ?_, hcore, hge, hm⟩
      rw [commitLoop, if_pos hge]
      rfl
    obtain ⟨st1, halloc, hc1, hcore1⟩ := qcowIsAllocated_ok hi hidx hc hcore hm hlt
    have hpos : 0 < s.runSectors i commitChunk :=
      runSectors_pos (by norm_num [commitChunk]) (hi.entryOk _)
    have hentries : ∀ q < s.runSectors i commitChunk,
        (clearCopied (s.guestEntry ((i + q) / s.clusterSectors)) = 0 ↔
          clearCopied (s.guestEntry (i / s.clusterSectors)) = 0) := fun q hq => by
      obtain ⟨j, -, -, he⟩ := runSectors_entry hi.geometry hq
      rw [he]
      split_ifs with h0
      · rw [h0]
        exact ⟨fun _ => rfl, fun _ => rfl⟩
      · have := hi.entryOk _ h0
        constructor <;> intro h <;> omega
    rw [allocatedRunsFit_iff hlt, commitLoop, if_neg (by omega), bind_apply, halloc]
    by_cases he : clearCopied (s.guestEntry (i / s.clusterSectors)) = 0
    · have hm1 := merging_skip hb hlen hm fun q hq => (hentries q hq).mpr he
      have := ih hc1 hcore1 hm1 (by omega) sector
      simpa [he] using this
    · have hnz : ∀ q < s.runSectors i commitChunk,
          clearCopied (s.guestEntry ((i + q) / s.clusterSectors)) ≠ 0 :=
        fun q hq h => he ((hentries q hq).mp h)
      rcases Nat.lt_or_ge s.totalSectors (i + s.runSectors i commitChunk) with hpast | hfit
      · have hfail := commitRun_past_end hi hc1 hcore1 hm hidx hlen hnz hagree hlt.le hpast sector
        refine .inr ⟨fun h => absurd (h.1 he) (by omega), ?_⟩
        rcases hr : commitRun (s.runSectors i commitChunk) i sector st1 with ⟨r, st2⟩
        rw [hr] at hfail
        obtain rfl : r = none := hfail
        simp [he, bind_apply, hr]
      · obtain ⟨st2, f2, sector2, hrun, hc2, hcore2, hm2⟩ :=
          commitRun_ok hi hc1 hcore1 hm hidx hlen hnz hagree hfit sector
        have := ih hc2 hcore2 hm2 (by omega) sector2
        simpa [he, bind_apply, hrun, hfit] using this

end Loop

/-- `bdrv_commit` succeeds, and every sector of the backing file below the length of the overlay is then
what the overlay read before, whatever the buffers held. -/
def CommitMerges (s : BDRVQcowState) : Prop :=
  ∀ sector, ∃ st f, bdrvCommit sector s = (some 0, st) ∧ st.backingHd = some f ∧
    ∀ j < s.totalSectors, ∀ old, ∃ buf st', bdrvRead j 1 old s = ((some 0, buf), st') ∧
      ∀ b < 512, f.data (j * 512 + b) = buf b

/-- The plain clusters of the image start on host sectors. -/
def PlainAligned (s : BDRVQcowState) : Prop :=
  ∀ j < s.totalSectors, clearCopied (s.guestEntry (j / s.clusterSectors)) ≠ 0 →
    isCompressed (s.guestEntry (j / s.clusterSectors)) = false →
    clearCopied (s.guestEntry (j / s.clusterSectors)) % 512 = 0

theorem runAgrees_of_aligned {s : BDRVQcowState} (hi : s.ImageOk) {f : HostFile} (hb : s.backingHd = some f)
    (hlen : s.totalSectors * 512 ≤ f.len) (h : PlainAligned s) {j : ℕ} (hj : j < s.totalSectors) : s.RunAgrees j 1 := by
  unfold BDRVQcowState.RunAgrees
  dsimp only
  rw [isCompressed_clearCopied]
  split_ifs with he hz
  · intro f' hf'
    obtain rfl := Option.some.inj (hb.symm.trans hf')
    left
    unfold backingSectors
    omega
  · exact hi.inflates _ hz
  · exact h j hj he (Bool.eq_false_iff.mpr hz)

/-- Exactly when `bdrv_commit` merges a valid overlay. -/
theorem bdrvCommit_merges_iff (s : BDRVQcowState) (f : HostFile) (hi : s.ImageOk) (hc : s.CachesOk)
    (hb : s.backingHd = some f) (hidx : s.InRange 0 s.totalSectors)
    (hlen : s.totalSectors * 512 ≤ f.len) : CommitMerges s ↔ AllocatedRunsFit s 0 ∧ PlainAligned s := by
  have hstart : s = withBacking s f := by
    rw [withBacking, ← hb]
  have hm : Merging s f 0 f := ⟨hi.backing f hb, rfl, fun j hj => absurd hj (by omega), fun _ _ => rfl⟩
  have hloop : ∀ sector, bdrvCommit sector s = commitLoop s.totalSectors s.totalSectors 0 sector s := fun sector => by
    simp [bdrvCommit, bind_apply, hb]
  have hend : PlainAligned s → ∀ sector, _ := fun halign sector =>
    commitLoop_ok hi hb hidx hlen hc (congrArg BDRVQcowState.core hstart) hm
      (fun j hj => runAgrees_of_aligned hi hb hlen halign hj) (show s.totalSectors ≤ 0 + s.totalSectors by omega) sector
  constructor
  · intro hmerge
    obtain ⟨st, f', hok, -, hread⟩ := hmerge fun _ => 0
    -- a sector of another plain cluster cannot be read
    have halign : PlainAligned s := fun j hj he hz => by
      by_contra ha
      obtain ⟨buf, st', hj', -⟩ := hread j hj fun _ => 0
      have hfail := bdrvRead_misaligned hi hc hj (hidx.single hj) he hz ha fun _ => 0
      rw [hj'] at hfail
      exact absurd hfail (by simp [eio])
    refine ⟨?_, halign⟩
    obtain ⟨hfit, -⟩ | ⟨-, hfail⟩ := hend halign fun _ => 0
    · exact hfit
    · rw [← hloop, hok] at hfail
      exact absurd hfail (by simp [eio])
  · rintro ⟨hfit, halign⟩ sector
    obtain ⟨-, st, f', i, hrun, hcore, hi', hm'⟩ | ⟨hfail, -⟩ := hend halign sector
    swap
    · exact absurd hfit hfail
    obtain ⟨f1, hb1, hf1⟩ : ∃ f1, st.backingHd = some f1 ∧
        ({ f1 with tick := 0 } : HostFile) = { f' with tick := 0 } := by
      have := congrArg BDRVQcowState.backingHd hcore
      exact Option.map_eq_some_iff.mp this
    have hdata : f1.data = f'.data := by have := congrArg HostFile.data hf1; exact this
    refine ⟨st, f1, (hloop sector).trans hrun, hb1, fun j hj old => ?_⟩
    obtain ⟨buf, st', hread, -, -, hbuf⟩ := bdrvRead_ok hi hc hj (hidx.single hj)
      (runAgrees_of_aligned hi hb hlen halign hj) old
    refine ⟨buf, st', hread, fun b hb => ?_⟩
    rw [hdata, hbuf b hb, hm'.merged j (by omega) hj ⟨b, hb⟩, BDRVQcowState.readByte]
    simp only [Nat.div_eq_of_lt hb, Nat.add_zero, Nat.mod_eq_of_lt hb]

/-- An overlay with one allocated cluster over a backing file of one cluster. -/
def oneCluster : BDRVQcowState :=
  { blankState
      { data := Bytes.write (fun _ => 0) 4096 8 (Bytes.beByte 8 (setCopied 8192))
        len := 12288
        io := fun _ => none
        tick := 0 } plainCodec with
    backingHd := some { data := fun _ => 1, len := 4096, io := fun _ => none, tick := 0 }
    totalSectors := 8
    clusterBits := 12
    l1Size := 1
    l1Table := fun _ => setCopied 4096 }

theorem oneCluster_guestEntry (g : ℕ) :
    oneCluster.guestEntry g = if g = 0 then setCopied 8192 else 0 := by
  have hl2 : oneCluster.l2Size = 512 := by decide
  have hsize : oneCluster.l1Size = 1 := rfl
  have hl1 : oneCluster.l1Table (g / 512) = setCopied 4096 := rfl
  rw [BDRVQcowState.guestEntry, hl2, hsize, hl1]
  by_cases hg : 1 ≤ g / 512
  · rw [if_pos hg, if_neg (by omega)]
  · rw [if_neg hg, if_neg (by decide), show clearCopied (setCopied 4096) = 4096 by decide]
    split_ifs with h0
    · subst h0
      exact Bytes.word_write_self (by decide)
    · exact (Bytes.word_write_of_disjoint (by omega)).trans (Bytes.word_zero _ _)

theorem oneCluster_plain (g : ℕ) : isCompressed (oneCluster.guestEntry g) = false := by
  rw [oneCluster_guestEntry]
  split_ifs <;> decide

theorem oneCluster_imageOk : oneCluster.ImageOk := by
  have hl1 : clearCopied (setCopied 4096) ≠ 0 := by decide
  refine ⟨⟨⟨by decide, by decide⟩, fun _ => rfl, fun f hf => ?_, fun _ _ _ => hl1,
    fun g hg => ?_, fun g _ hg => ?_⟩, fun g hg => ?_⟩
  · obtain rfl := Option.some.inj hf
    exact fun _ => rfl
  · rw [oneCluster_guestEntry] at hg ⊢
    split_ifs at hg ⊢
    · decide
    · exact absurd rfl hg
  · rw [oneCluster_plain g] at hg
    exact absurd hg (by decide)
  · rw [oneCluster_plain g] at hg
    exact absurd hg (by decide)

theorem bdrvCommit_merges_oneCluster :
    (AllocatedRunsFit oneCluster 0 ∧ PlainAligned oneCluster) ∧ CommitMerges oneCluster := by
  have hrun : oneCluster.runSectors 0 commitChunk = 8 := by decide +kernel
  have hfit : AllocatedRunsFit oneCluster 0 := by
    rw [allocatedRunsFit_iff (by decide), hrun]
    exact ⟨fun _ => le_rfl, allocatedRunsFit_end le_rfl⟩
  have halign : PlainAligned oneCluster := by
    intro j _ _ _
    rw [oneCluster_guestEntry]
    split_ifs <;> decide
  refine ⟨⟨hfit, halign⟩, (bdrvCommit_merges_iff oneCluster _ oneCluster_imageOk ⟨?_, ?_⟩ rfl ?_ ?_).mpr ⟨hfit, halign⟩⟩
  · exact fun i _ h => absurd rfl h
  · intro g hg
    rw [oneCluster_plain g] at hg
    exact absurd hg (by decide)
  · intro q hq
    have hq8 : q < 8 := hq
    exact lt_of_le_of_lt ((Nat.div_le_self _ _).trans (Nat.div_le_self _ _)) (by omega)
  · decide

/-- An overlay of one sector over a backing file of one sector, after a write. -/
def oneSector : BDRVQcowState :=
  match qcowOpen (qcowCreate2 ⟨1, some (asciiBytes "base.img"), none, false⟩) plainCodec with
  | none => oneCluster
  | some r =>
    (qcowWrite 0 1 (fun _ => 7) { r.state with
      backingHd := some { data := fun _ => 1, len := 512, io := fun _ => none, tick := 0 } }).2

set_option maxRecDepth 100000 in
/-- The cluster of the only sector passes the end of the image. -/
theorem bdrvCommit_oneSector : ¬ CommitMerges oneSector := by
  have hfail : (bdrvCommit (fun _ => 0) oneSector).1 = some (-5) := by decide +kernel
  intro hmerge
  obtain ⟨st, f, hok, -⟩ := hmerge fun _ => 0
  rw [hok] at hfail
  exact absurd hfail (by simp)

/-! ### Reads -/

/-- A call of `qcow_read` with a sector and a count. -/
def readSectors (s : BDRVQcowState) (r : ℕ × ℕ) : BDRVQcowState × (Option ℤ × List UInt8) :=
  let ((ret, buf), s) := qcowRead r.1 r.2 (fun _ => 0) s
  (s, ret, (List.range (512 * r.2)).map buf)

section Reads

variable {s : BDRVQcowState} (hi : s.ImageOk)

include hi

/-- One read, from a state that differs from `s` in its caches. -/
theorem readSectors_ok {s' : BDRVQcowState} (hs' : s'.core = s.core ∧ s'.CachesOk) {r : ℕ × ℕ}
    (hr : r.2 < 2 ^ 22 ∧ s.RunsOk r.1 r.2 ∧ s.InRange r.1 r.2) :
    (readSectors s' r).2 = (some 0, (List.range (512 * r.2)).map (s.readByte r.1)) ∧
      (readSectors s' r).1.core = s.core ∧ (readSectors s' r).1.CachesOk := by
  obtain ⟨hnum, hruns, hidx⟩ := hr
  obtain ⟨hcore, hcaches⟩ := hs'
  obtain ⟨buf, s1, hread, hcore1, hcaches1, hbuf⟩ :=
    qcowRead_ok (hi.of_core hcore) hcaches hnum (hruns.of_core hcore) (hidx.of_core hcore) fun _ => 0
  have hbytes : (List.range (512 * r.2)).map buf = (List.range (512 * r.2)).map (s.readByte r.1) :=
    List.map_congr_left fun k hk =>
      (hbuf k (List.mem_range.1 hk)).trans (BDRVQcowState.readByte_of_core hcore _ _)
  rw [readSectors, hread]
  exact ⟨congrArg (Prod.mk (some 0)) hbytes, hcore1.trans hcore, hcaches1⟩

end Reads

/-- Reads in any order return the content of the image, whatever stands in the caches. -/
theorem qcowReads_content (s : BDRVQcowState) (hi : s.ImageOk) (hc : s.CachesOk) (rs : List (ℕ × ℕ))
    (hrs : ∀ r ∈ rs, r.2 < 2 ^ 22 ∧ s.RunsOk r.1 r.2 ∧ s.InRange r.1 r.2) :
    results readSectors s rs = rs.map fun r => (some 0, (List.range (512 * r.2)).map (s.readByte r.1)) :=
  results_eq_map (R := fun s' => s'.core = s.core ∧ s'.CachesOk) (fun _ _ hr hs' => readSectors_ok hi hs' hr)
    ⟨rfl, hc⟩ hrs

theorem qcowReads_content_oneCluster : results readSectors oneCluster [(0, 12), (3, 2)] =
    [(0, 12), (3, 2)].map fun r => (some 0, (List.range (512 * r.2)).map (oneCluster.readByte r.1)) := by
  have hplain : ∀ g, ¬ isCompressed (oneCluster.guestEntry g) = true := fun g => by
    rw [oneCluster_plain g]
    decide
  have hok : ∀ i num, i + num < 2 ^ 31 → oneCluster.RunsOk i num ∧ oneCluster.InRange i num := fun i num h =>
    ⟨fun _ _ => ⟨fun hz => absurd hz (hplain _), fun _ _ _ => oneCluster_plain _⟩, fun q hq =>
      lt_of_le_of_lt ((Nat.div_le_self _ _).trans (Nat.div_le_self _ _)) (by omega)⟩
  refine qcowReads_content oneCluster oneCluster_imageOk ⟨fun _ _ h => absurd rfl h, fun g hg => absurd hg (hplain g)⟩ _
    fun r hr => ?_
  simp only [List.mem_cons, List.not_mem_nil, or_false] at hr
  rcases hr with rfl | rfl
  · exact ⟨by decide, hok 0 12 (by decide)⟩
  · exact ⟨by decide, hok 3 2 (by decide)⟩

end Ar7Qemu.Block
