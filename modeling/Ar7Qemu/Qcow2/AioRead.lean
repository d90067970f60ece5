import Ar7Qemu.Qcow2.Aio
import Ar7Qemu.Qcow2.View
import Ar7Qemu.Qcow2.CreateOpen
import Mathlib.Logic.Relation

/-! The asynchronous read against the synchronous one, when every host request
succeeds. Both go through the same lookups in the same order, so the driver state
stays the same along the way. Proved: they return the same status and bytes
exactly when each run of the request is of a kind that both handle alike. -/

namespace Ar7Qemu.Qcow2

open Lib Block

/-! ### Buffers -/

theorem putSectors_apply {n k : ℕ} (hk : k < 512 * n) (d buf : Bytes) :
    putSectors n d buf k = d k := by
  rw [putSectors, ← Nat.zero_add k, Bytes.write_apply_of_mem hk, Nat.zero_add]

theorem putSectors_rest {n k : ℕ} (hk : 512 * n ≤ k) (d buf : Bytes) :
    putSectors n d buf k = buf k := Bytes.write_apply_of_ge (by omega)

namespace QCowAIOCB

variable (acb : QCowAIOCB) (n : ℕ) (d : Bytes)

theorem put_cur : (acb.put n d).cur = acb.cur.write 0 (512 * n) d := by
  funext k
  simp only [put, cur, Bytes.drop_apply, Bytes.write, Nat.zero_add, Nat.zero_le, true_and,
    Nat.sub_zero]
  split_ifs
  · congr 1
    omega
  · omega
  · omega
  · rfl

variable {acb n d}

theorem put_congr {d' : Bytes} (h : ∀ k < 512 * n, d k = d' k) : acb.put n d = acb.put n d' := by
  have hw : acb.buf.write (512 * acb.pos) (512 * n) d = acb.buf.write (512 * acb.pos) (512 * n) d' := by
    funext k
    simp only [Bytes.write]
    split_ifs with hk
    · exact h _ (by omega)
    · rfl
  rw [put, put, hw]

theorem put_put (d' : Bytes) : (acb.put n d).put n d' = acb.put n d' := by
  have hw : (acb.buf.write (512 * acb.pos) (512 * n) d).write (512 * acb.pos) (512 * n) d' =
      acb.buf.write (512 * acb.pos) (512 * n) d' := by
    funext k
    simp only [Bytes.write]
    split_ifs <;> rfl
  rw [put, put, put, hw]

theorem put_own : acb.put n acb.cur = acb := by
  have hw : acb.buf.write (512 * acb.pos) (512 * n) acb.cur = acb.buf := by
    funext k
    simp only [Bytes.write, cur, Bytes.drop_apply]
    split_ifs
    · congr 1
      omega
    · rfl
  rw [put, hw]

end QCowAIOCB

/-! ### The request as a loop -/

/-- The rest of a read request that stands before its next run. -/
def aioRun (fuel : ℕ) (acb : QCowAIOCB) : Qcow (QCowAIOCB × Option ℤ) := do
  if acb.nbSectors = 0 then return (acb, some 0)
  let (acb, next) ← aioReadNext acb 0 true
  aioReadEvents (fun _ => true) fuel acb next

/-- The control block with its next run looked up. -/
def QCowAIOCB.located (acb : QCowAIOCB) (clusterOffset n : ℕ) : QCowAIOCB :=
  { acb with clusterOffset, n }

/-- The control block after a run of `n` sectors with the content `d`. -/
def QCowAIOCB.filled (acb : QCowAIOCB) (clusterOffset n : ℕ) (d : Bytes) : QCowAIOCB :=
  ((acb.located clusterOffset n).put n d).advance

theorem aioRead_eq (i n : ℕ) (buf : Bytes) (s : BDRVQcowState) :
    aioRead (fun _ => true) i n buf s = aioRun n (qcowAioSetup i n buf) s := by
  have hpost : (aioPostRead s (qcowAioSetup i n buf)).advance = qcowAioSetup i n buf := rfl
  simp only [aioRead, qcowAioReadv, qcowAioReadCb, bind_apply, aioRun]
  rw [if_neg (by norm_num), bind_apply, get_apply]
  dsimp only
  rw [hpost]
  split_ifs with h0
  · have : n = 0 := h0
    subst this
    rfl
  · rfl

theorem aioReadEvents_succ (accept : ℕ → Bool) (fuel : ℕ) (acb : QCowAIOCB) {next : AioNext}
    (hnext : ∀ ret, next ≠ .done ret) : aioReadEvents accept (fuel + 1) acb next = (do
      let (ok, d) ← aioPerform next acb.cur
      let (acb, next) ← qcowAioReadCb (acb.put acb.n d) (if ok then 0 else -eio) (accept fuel)
      aioReadEvents accept fuel acb next) := by
  cases next with
  | done ret => exact absurd rfl (hnext ret)
  | _ => rfl

theorem aioReadEvents_done (accept : ℕ → Bool) (fuel : ℕ) (acb : QCowAIOCB) (ret : ℤ) :
    aioReadEvents accept fuel acb (.done ret) = pure (acb, some ret) := by
  cases fuel <;> rfl

theorem aioReadEvents_step {fuel : ℕ} (acb : QCowAIOCB) {next : AioNext} {s s' : BDRVQcowState}
    {d : Bytes} (hnext : ∀ ret, next ≠ .done ret)
    (hp : aioPerform next acb.cur s = ((true, d), s')) :
    aioReadEvents (fun _ => true) (fuel + 1) acb next s =
      aioRun fuel (aioPostRead s' (acb.put acb.n d)).advance s' := by
  rw [aioReadEvents_succ _ _ _ hnext, bind_apply, hp]
  simp only [if_true, qcowAioReadCb, bind_apply, aioRun]
  rw [if_neg (by norm_num), bind_apply, get_apply]
  dsimp only
  split_ifs
  · rw [pure_apply, aioReadEvents_done]
  · rfl

theorem aioPostRead_free {acb : QCowAIOCB} (h : acb.clusterOffset = 0) (s : BDRVQcowState) :
    aioPostRead s acb = acb := if_pos h

theorem aioPostRead_compressed {acb : QCowAIOCB} (h : isCompressed acb.clusterOffset)
    (s : BDRVQcowState) : aioPostRead s acb = acb := by
  rw [aioPostRead, if_pos h, ite_self]

theorem aioReadEvents_bh {fuel : ℕ} {acb : QCowAIOCB} {s : BDRVQcowState}
    (hpost : aioPostRead s acb = acb) :
    aioReadEvents (fun _ => true) (fuel + 1) acb .bh s = aioRun fuel acb.advance s := by
  have hperf : aioPerform .bh acb.cur s = ((true, acb.cur), s) := rfl
  rw [aioReadEvents_step acb (fun _ => AioNext.noConfusion) hperf, QCowAIOCB.put_own, hpost]

/-- What is done of the buffer stays. -/
theorem aioReadNext_buf (acb : QCowAIOCB) (ret : ℤ) (accepted : Bool) (s : BDRVQcowState) :
    (aioReadNext acb ret accepted s).1.1.pos = acb.pos ∧
      ∀ k < 512 * acb.pos, (aioReadNext acb ret accepted s).1.1.buf k = acb.buf k := by
  have hput : ∀ (a : QCowAIOCB) n d, a.pos = acb.pos → a.buf = acb.buf →
      (a.put n d).pos = acb.pos ∧ ∀ k < 512 * acb.pos, (a.put n d).buf k = acb.buf k :=
    fun a n d hp hb => ⟨hp, fun k hk => by
      rw [QCowAIOCB.put, hp, hb]
      exact Bytes.write_apply_of_lt hk⟩
  rw [aioReadNext, bind_apply, get_apply]
  dsimp only
  rw [bind_apply]
  generalize getClusterOffset _ _ s = r
  obtain ⟨⟨e, n⟩, s1⟩ := r
  dsimp only
  by_cases he : e = 0
  · rw [if_pos he]
    cases s.backingHd with
    | none => exact hput _ _ _ rfl rfl
    | some f =>
      dsimp only
      have hclear : ∀ k < 512 * acb.pos, ∀ n1 l, acb.buf.write (512 * (acb.pos + n1)) l (fun _ => 0) k =
          acb.buf k := fun k hk n1 l => Bytes.write_apply_of_lt (by omega)
      split_ifs
      · exact ⟨rfl, fun k hk => hclear k hk _ _⟩
      · exact ⟨rfl, fun k hk => hclear k hk _ _⟩
  rw [if_neg he]
  by_cases hz : isCompressed e
  · rw [if_pos hz, bind_apply]
    generalize decompressCluster e s1 = r
    obtain ⟨ok, s2⟩ := r
    cases ok with
    | false => exact ⟨rfl, fun _ _ => rfl⟩
    | true => exact hput _ _ _ rfl rfl
  · rw [if_neg hz]
    split_ifs
    · exact ⟨rfl, fun _ _ => rfl⟩
    · exact ⟨rfl, fun _ _ => rfl⟩

theorem aioPostRead_buf (s : BDRVQcowState) (acb : QCowAIOCB) :
    (aioPostRead s acb).pos = acb.pos ∧
      ∀ k < 512 * acb.pos, (aioPostRead s acb).buf k = acb.buf k := by
  unfold aioPostRead
  split_ifs
  · exact ⟨rfl, fun _ _ => rfl⟩
  · exact ⟨rfl, fun _ _ => rfl⟩
  · exact ⟨rfl, fun k hk => Bytes.write_apply_of_lt hk⟩
  · exact ⟨rfl, fun _ _ => rfl⟩

theorem qcowAioReadCb_buf (acb : QCowAIOCB) (ret : ℤ) (accepted : Bool) (s : BDRVQcowState) :
    acb.pos ≤ (qcowAioReadCb acb ret accepted s).1.1.pos ∧
      ∀ k < 512 * acb.pos, (qcowAioReadCb acb ret accepted s).1.1.buf k = acb.buf k := by
  rw [qcowAioReadCb]
  by_cases hneg : ret < 0
  · rw [if_pos hneg]
    exact ⟨le_rfl, fun _ _ => rfl⟩
  rw [if_neg hneg, bind_apply, get_apply]
  dsimp only
  obtain ⟨hpos, hbuf⟩ := aioPostRead_buf s acb
  have hadv : acb.pos ≤ (aioPostRead s acb).advance.pos := by
    rw [QCowAIOCB.advance]
    dsimp only
    omega
  split_ifs
  · exact ⟨hadv, hbuf⟩
  · obtain ⟨hpos2, hbuf2⟩ := aioReadNext_buf (aioPostRead s acb).advance ret accepted s
    refine ⟨by rw [hpos2]; exact hadv, fun k hk => ?_⟩
    rw [hbuf2 k (by omega)]
    exact hbuf k hk

/-- A request never writes into the part of the buffer that is done. -/
theorem aioReadEvents_buf (accept : ℕ → Bool) (fuel : ℕ) (acb : QCowAIOCB) (next : AioNext)
    (s : BDRVQcowState) :
    ∀ k < 512 * acb.pos, (aioReadEvents accept fuel acb next s).1.1.buf k = acb.buf k := by
  induction fuel generalizing acb next s with
  | zero => cases next <;> exact fun _ _ => rfl
  | succ fuel ih =>
    by_cases hnext : ∃ ret, next = .done ret
    · obtain ⟨ret, rfl⟩ := hnext
      exact fun _ _ => rfl
    intro k hk
    rw [aioReadEvents_succ _ _ _ (not_exists.mp hnext), bind_apply]
    generalize aioPerform next acb.cur s = r
    obtain ⟨⟨ok, d⟩, s1⟩ := r
    obtain ⟨hpos, hbuf⟩ := qcowAioReadCb_buf (acb.put acb.n d) (if ok then 0 else -eio)
      (accept fuel) s1
    replace hpos : acb.pos ≤ _ := hpos
    dsimp only
    rw [bind_apply, ih _ _ _ k (by omega), hbuf k hk]
    exact Bytes.write_apply_of_lt hk

theorem aioRun_buf (fuel : ℕ) (acb : QCowAIOCB) (s : BDRVQcowState) :
    ∀ k < 512 * acb.pos, (aioRun fuel acb s).1.1.buf k = acb.buf k := by
  intro k hk
  rw [aioRun]
  split_ifs
  · rfl
  · obtain ⟨hpos, hbuf⟩ := aioReadNext_buf acb 0 true s
    rw [bind_apply]
    dsimp only
    rw [aioReadEvents_buf _ _ _ _ _ k (by rw [hpos]; exact hk), hbuf k hk]

/-! ### Runs that both reads handle alike -/

namespace BDRVQcowState

variable (s : BDRVQcowState)

/-- A run of `n` sectors from `a` on that both reads handle alike: it does not
straddle the end of the backing file, its compressed cluster inflates, and its
host offset is a multiple of the sector size. -/
def RunAgrees (a n : ℕ) : Prop :=
  let e := clearCopied (s.guestEntry (a / s.clusterSectors))
  if e = 0 then ∀ f ∈ s.backingHd, a + n ≤ backingSectors f ∨ backingSectors f ≤ a
  else if isCompressed e then (s.inflated e).1 = true
  else e % 512 = 0

/-- Every run of a read of `n` sectors from `i` on is handled alike. -/
def ReadsAgree (i n : ℕ) : Prop :=
  ∀ a, Relation.ReflTransGen (fun x y => x < i + n ∧ y = x + s.runSectors x (i + n - x)) i a →
    a < i + n → s.RunAgrees a (s.runSectors a (i + n - a))

/-- The cluster that `cluster_cache` is named after inflates. -/
def CacheInflates : Prop :=
  ∀ g, isCompressed (s.guestEntry g) →
    s.clusterOffsetMask (clearCopied (s.guestEntry g)) = s.clusterCacheOffset →
    (s.inflated (clearCopied (s.guestEntry g))).1 = true

/-- The caches as far as the two reads look at them. -/
structure ReadCachesOk : Prop where
  l2 : s.L2CacheOk
  cluster : s.CacheInflates

variable {s}

theorem readsAgree_zero (i : ℕ) : s.ReadsAgree i 0 := by
  intro a ha hlt
  rcases ha.cases_head with rfl | ⟨b, ⟨hb, -⟩, -⟩ <;> omega

theorem readsAgree_iff {i n : ℕ} (hn : 0 < n) : s.ReadsAgree i n ↔
    s.RunAgrees i (s.runSectors i n) ∧
      s.ReadsAgree (i + s.runSectors i n) (n - s.runSectors i n) := by
  have hle := runSectors_le s i n
  have hend : i + s.runSectors i n + (n - s.runSectors i n) = i + n := by omega
  simp only [ReadsAgree, hend]
  constructor
  · intro h
    refine ⟨by simpa using h i .refl (by omega), fun a ha => h a (.head ⟨by omega, ?_⟩ ha)⟩
    rw [Nat.add_sub_cancel_left]
  · rintro ⟨h, h'⟩ a ha
    rcases ha.cases_head with rfl | ⟨b, ⟨-, rfl⟩, hb⟩
    · intro _
      rwa [Nat.add_sub_cancel_left]
    · rw [Nat.add_sub_cancel_left] at hb
      exact h' a hb

theorem RunAgrees.of_core {s' : BDRVQcowState} {a n : ℕ} (hc : s'.core = s.core) :
    s'.RunAgrees a n ↔ s.RunAgrees a n := by
  have hcore : ∀ s : BDRVQcowState, s.core.RunAgrees a n ↔ s.RunAgrees a n := fun s => by
    have hb : (∀ f ∈ s.core.backingHd, a + n ≤ backingSectors f ∨ backingSectors f ≤ a) ↔
        ∀ f ∈ s.backingHd, a + n ≤ backingSectors f ∨ backingSectors f ≤ a := by
      simp only [core, Option.mem_map, forall_exists_index, and_imp, forall_apply_eq_imp_iff₂]
      rfl
    show (if _ then _ else _) ↔ if _ then _ else _
    rw [hb]
    rfl
  rw [← hcore, hc, hcore]

end BDRVQcowState

section Runs

variable {s : BDRVQcowState} (hm : s.MapOk) (hc : s.ReadCachesOk)

include hm hc

/-- `decompress_cluster` succeeds exactly when the cluster inflates. -/
theorem decompressCluster_inflates {g : ℕ} (hz : isCompressed (s.guestEntry g)) :
    ∃ s', decompressCluster (clearCopied (s.guestEntry g)) s =
        ((s.inflated (clearCopied (s.guestEntry g))).1, s') ∧
      s'.core = s.core ∧ s'.ReadCachesOk := by
  by_cases hhit : s.clusterCacheOffset = s.clusterOffsetMask (clearCopied (s.guestEntry g))
  · refine ⟨s, ?_, rfl, hc⟩
    rw [hc.cluster g hz hhit.symm]
    simp [decompressCluster, bind_apply, hhit]
  obtain ⟨t, ht⟩ := decompressCluster_miss hm.reliable hm.geometry hhit
  refine ⟨s.decompressed (clearCopied (s.guestEntry g)) t, ht, rfl, hc.l2, fun g' hz' hoff => ?_⟩
  replace hoff : s.clusterOffsetMask (clearCopied (s.guestEntry g')) =
    if (s.inflated (clearCopied (s.guestEntry g))).1 then
      s.clusterOffsetMask (clearCopied (s.guestEntry g)) else s.clusterCacheOffset := hoff
  show (s.inflated (clearCopied (s.guestEntry g'))).1 = true
  split_ifs at hoff with hok
  · rw [hm.packed g' g hz' hz hoff]
    exact hok
  · exact hc.cluster g' hz' hoff

end Runs

/-! ### One step of both reads -/

section Step

variable {s : BDRVQcowState} {acb : QCowAIOCB} {e n : ℕ} {c : ℕ → ℕ → ℕ} {o k : ℕ → ℕ} {t : ℕ}
  (h0 : acb.nbSectors ≠ 0)
  (hlook : getClusterOffset (acb.sectorNum * 512) acb.nbSectors s = ((e, n), s.l2Cached c o k t))

include h0 hlook

/-- A run without backing data. -/
theorem aioRun_zero (he : e = 0)
    (hb : ∀ f ∈ s.backingHd, backingSectors f ≤ acb.sectorNum) :
    readRun e acb.sectorNum n acb.cur (s.l2Cached c o k t) =
        ((true, putSectors n (fun _ => 0) acb.cur), s.l2Cached c o k t) ∧
      ∀ fuel, aioRun (fuel + 1) acb s =
        aioRun fuel (acb.filled e n (putSectors n (fun _ => 0) acb.cur)) (s.l2Cached c o k t) := by
  subst he
  have hfilled : (acb.located 0 n).put n (fun _ => 0) =
      (acb.located 0 n).put n (putSectors n (fun _ => 0) acb.cur) :=
    QCowAIOCB.put_congr fun j hj => (putSectors_apply hj (fun _ => 0) _).symm
  have hbh : ∀ fuel, aioReadEvents (fun _ => true) (fuel + 1)
      ((acb.located 0 n).put n fun _ => 0) .bh (s.l2Cached c o k t) =
        aioRun fuel (acb.filled 0 n (putSectors n (fun _ => 0) acb.cur)) (s.l2Cached c o k t) := fun fuel => by
    rw [aioReadEvents_bh (aioPostRead_free rfl _), QCowAIOCB.filled, hfilled]
  have hn1 : ∀ f, s.backingHd = some f → backingRead1 (backingSectors f) acb.sectorNum n = 0 :=
    fun f hf => by
      have := hb f hf
      unfold backingRead1
      split_ifs <;> omega
  refine ⟨?_, fun fuel => ?_⟩
  · rw [readRun, bind_apply, get_apply]
    dsimp only
    rw [if_pos rfl, show (s.l2Cached c o k t).backingHd = s.backingHd from rfl]
    cases hf : s.backingHd with
    | none => rfl
    | some f =>
      dsimp only
      rw [hn1 f hf, if_pos rfl]
      rfl
  · rw [aioRun, if_neg h0, bind_apply, aioReadNext, bind_apply, get_apply]
    dsimp only
    rw [bind_apply, hlook]
    dsimp only
    rw [if_pos rfl]
    cases hf : s.backingHd with
    | none => exact hbh fuel
    | some f =>
      dsimp only
      rw [hn1 f hf, if_pos rfl]
      exact hbh fuel

theorem aioRun_backing (he : e = 0) {f : HostFile} (hf : s.backingHd = some f) (hfr : f.Reliable)
    (hn0 : 0 < n) (hn : n < 2 ^ 22) (hin : acb.sectorNum + n ≤ backingSectors f) :
    ∃ t',
      readRun e acb.sectorNum n acb.cur (s.l2Cached c o k t) =
        ((true, acb.cur.write 0 (n * 512) (f.data.drop (acb.sectorNum * 512))),
          { s.l2Cached c o k t with backingHd := some { f with tick := t' } }) ∧
      ∀ fuel, aioRun (fuel + 1) acb s =
        aioRun fuel (acb.filled e n (acb.cur.write 0 (n * 512) (f.data.drop (acb.sectorNum * 512))))
          { s.l2Cached c o k t with backingHd := some { f with tick := t' } } := by
  subst he
  have hlen : (acb.sectorNum + n) * 512 ≤ f.len := by
    have : backingSectors f * 512 ≤ f.len := Nat.div_mul_le_self _ _
    exact le_trans (Nat.mul_le_mul_right 512 hin) this
  have hn1 : backingRead1 (backingSectors f) acb.sectorNum n = n := if_pos hin
  have hnone : ∀ (b : Bytes) off, b.write off (512 * (n - n)) (fun _ => 0) = b := fun b off => by
    funext j
    exact Bytes.write_apply_of_not_mem (by omega)
  obtain ⟨t', ht⟩ := HostFile.bdrvPread_ok hfr (acb.sectorNum * 512) (n := n * 512) (by omega) acb.cur
  have hread : ∀ s' : BDRVQcowState, backingRead f acb.sectorNum n acb.cur s' =
      ((true, acb.cur.write 0 (n * 512) (f.data.drop (acb.sectorNum * 512))),
        { s' with backingHd := some { f with tick := t' } }) := fun s' => by
    rw [backingRead, if_neg (by omega)]
    dsimp only
    rw [ht]
  refine ⟨t', ?_, fun fuel => ?_⟩
  · rw [readRun, bind_apply, get_apply]
    dsimp only
    rw [if_pos rfl, show (s.l2Cached c o k t).backingHd = some f from hf]
    dsimp only
    rw [hn1, hnone, if_neg (by omega), hread]
  · have hperf : aioPerform (.readBacking acb.sectorNum n) acb.cur (s.l2Cached c o k t) =
        ((true, acb.cur.write 0 (n * 512) (f.data.drop (acb.sectorNum * 512))),
          { s.l2Cached c o k t with backingHd := some { f with tick := t' } }) := by
      rw [aioPerform, bind_apply, get_apply]
      dsimp only
      rw [show (s.l2Cached c o k t).backingHd = some f from hf]
      exact hread _
    rw [aioRun, if_neg h0, bind_apply, aioReadNext, bind_apply, get_apply]
    dsimp only
    rw [bind_apply, hlook]
    dsimp only
    rw [if_pos rfl, hf]
    dsimp only
    rw [hn1, hnone, if_neg (by omega), decide_eq_true hlen]
    refine (aioReadEvents_step (acb.located 0 n) (fun _ => AioNext.noConfusion) hperf).trans ?_
    rw [aioPostRead_free rfl]
    rfl

theorem aioRun_compressed (he : e ≠ 0) (hz : isCompressed e) {s' : BDRVQcowState}
    (hd : decompressCluster e (s.l2Cached c o k t) = (true, s')) :
    let d := putSectors n (s'.clusterCache.drop (acb.sectorNum % s.clusterSectors * 512)) acb.cur
    readRun e acb.sectorNum n acb.cur (s.l2Cached c o k t) = ((true, d), s') ∧
      ∀ fuel, aioRun (fuel + 1) acb s = aioRun fuel (acb.filled e n d) s' := by
  intro d
  constructor
  · rw [readRun, bind_apply, get_apply]
    dsimp only
    rw [if_neg he, if_pos hz, bind_apply, hd]
    rfl
  · intro fuel
    have hfilled : (acb.located e n).put n
        (s'.clusterCache.drop (acb.sectorNum % s.clusterSectors * 512)) =
        (acb.located e n).put n d :=
      QCowAIOCB.put_congr fun j hj => (putSectors_apply hj _ _).symm
    rw [aioRun, if_neg h0, bind_apply, aioReadNext, bind_apply, get_apply]
    dsimp only
    rw [bind_apply, hlook]
    dsimp only
    rw [if_neg he, if_pos hz, bind_apply, hd, QCowAIOCB.filled, ← hfilled]
    exact aioReadEvents_bh (aioPostRead_compressed hz _)

theorem aioRun_plain (hr : s.Reliable) (he : e ≠ 0) (hz : isCompressed e = false)
    (ha : e % 512 = 0) (hn : n < 2 ^ 22) :
    ∃ d t', readRun e acb.sectorNum n acb.cur (s.l2Cached c o k t) =
        ((true, d), s.l2Cached c o k t') ∧ (∀ j, 512 * n ≤ j → d j = acb.cur j) ∧
      ∀ fuel, aioRun (fuel + 1) acb s = aioRun fuel (acb.filled e n d) (s.l2Cached c o k t') := by
  have haddr : (e / 512 + acb.sectorNum % s.clusterSectors) * 512 =
      e + acb.sectorNum % s.clusterSectors * 512 := by
    rw [Nat.add_mul, Nat.div_mul_cancel (Nat.dvd_of_mod_eq_zero ha)]
  obtain ⟨t', ht⟩ := pread_ok (s := s.l2Cached c o k t) hr
    (e + acb.sectorNum % s.clusterSectors * 512) (n := n * 512) (by omega) acb.cur
  replace ht : pread (e + acb.sectorNum % s.clusterSectors * 512) (n * 512) acb.cur
      (s.l2Cached c o k t) = ((true, acb.cur.write 0 (n * 512)
        (s.hd.data.drop (e + acb.sectorNum % s.clusterSectors * 512))), s.l2Cached c o k t') := ht
  generalize hraw : acb.cur.write 0 (n * 512)
    (s.hd.data.drop (e + acb.sectorNum % s.clusterSectors * 512)) = raw at ht
  have hrest : ∀ j, 512 * n ≤ j → raw j = acb.cur j := fun j hj => by
    rw [← hraw]
    exact Bytes.write_apply_of_ge (by omega)
  have hcur : ((acb.located e n).put n raw).cur = raw := by
    rw [QCowAIOCB.put_cur]
    funext j
    rcases Nat.lt_or_ge j (512 * n) with hj | hj
    · rw [← Nat.zero_add j, Bytes.write_apply_of_mem hj, Nat.zero_add]
    · rw [Bytes.write_apply_of_ge (by omega)]
      exact (hrest j hj).symm
  have hperf : aioPerform (.readHd (e / 512 + acb.sectorNum % s.clusterSectors) n)
      (acb.located e n).cur (s.l2Cached c o k t) = ((true, raw), s.l2Cached c o k t') := by
    rw [aioPerform, haddr]
    exact ht
  have hasync : ∀ fuel, aioRun (fuel + 1) acb s = aioRun fuel
      (aioPostRead (s.l2Cached c o k t') ((acb.located e n).put n raw)).advance
        (s.l2Cached c o k t') := fun fuel => by
    rw [aioRun, if_neg h0, bind_apply, aioReadNext, bind_apply, get_apply]
    dsimp only
    rw [bind_apply, hlook]
    dsimp only
    rw [if_neg he, if_neg (by rw [hz]; decide), if_neg (by omega)]
    exact aioReadEvents_step (acb.located e n) (fun _ => AioNext.noConfusion) hperf
  have hpost : aioPostRead (s.l2Cached c o k t') ((acb.located e n).put n raw) =
      if s.cryptMethod ≠ 0 then ((acb.located e n).put n raw).put n
        (encryptSectors s.codec.decrypt acb.sectorNum raw) else (acb.located e n).put n raw := by
    have hpz : ¬ isCompressed ((acb.located e n).put n raw).clusterOffset := by
      show ¬ isCompressed e
      rw [hz]
      decide
    rw [aioPostRead, if_neg (show ((acb.located e n).put n raw).clusterOffset ≠ 0 from he),
      if_neg hpz, hcur]
    rfl
  simp only [hasync, hpost]
  rw [readRun, bind_apply, get_apply]
  dsimp only
  rw [if_neg he, if_neg (by rw [hz]; decide), bind_apply]
  replace ht : pread (e + acb.sectorNum % (s.l2Cached c o k t).clusterSectors * 512) (n * 512) acb.cur
      (s.l2Cached c o k t) = ((true, raw), s.l2Cached c o k t') := ht
  rw [ht]
  simp only [Bool.not_true, Bool.false_eq_true, if_false]
  by_cases hcrypt : s.cryptMethod ≠ 0
  · have hcrypt' : (s.l2Cached c o k t).cryptMethod ≠ 0 := hcrypt
    refine ⟨_, t', by rw [if_pos hcrypt']; rfl, fun j hj => ?_, fun fuel => ?_⟩
    · rw [putSectors_rest hj, hrest j hj]
    · rw [if_pos hcrypt, QCowAIOCB.put_put, QCowAIOCB.filled]
      congr 2
      exact QCowAIOCB.put_congr fun j hj => (putSectors_apply hj _ _).symm
  · have hcrypt' : ¬ (s.l2Cached c o k t).cryptMethod ≠ 0 := hcrypt
    refine ⟨raw, t', by rw [if_neg hcrypt']; rfl, hrest, fun fuel => ?_⟩
    rw [if_neg hcrypt]
    rfl

end Step

theorem filled_cur {acb : QCowAIOCB} {e n : ℕ} {d : Bytes}
    (hrest : ∀ j, 512 * n ≤ j → d j = acb.cur j) : (acb.filled e n d).cur = d.drop (512 * n) := by
  funext j
  have hj : 512 * (acb.pos + n) + j = 512 * acb.pos + (512 * n + j) := by omega
  rw [Bytes.drop_apply, hrest _ (by omega)]
  show (acb.located e n).buf.write (512 * acb.pos) (512 * n) d (512 * (acb.pos + n) + j) = _
  rw [Bytes.write_apply_of_ge (by omega), hj]
  rfl

theorem qcowReadLoop_run {s s1 s2 : BDRVQcowState} {i nb e n fuel : ℕ} {buf d : Bytes} (h0 : nb ≠ 0)
    (hlook : getClusterOffset (i * 512) nb s = ((e, n), s1)) {ok : Bool}
    (hrun : readRun e i n buf s1 = ((ok, d), s2)) :
    (qcowReadLoop (fuel + 1) i nb buf s).1 =
      if ok then
        ((qcowReadLoop fuel (i + n) (nb - n) (d.drop (512 * n)) s2).1.1,
          fun j => if j < 512 * n then d j
            else (qcowReadLoop fuel (i + n) (nb - n) (d.drop (512 * n)) s2).1.2 (j - 512 * n))
      else (some (-1), d) := by
  obtain ⟨nb, rfl⟩ := Nat.exists_eq_succ_of_ne_zero h0
  rw [Nat.succ_eq_add_one] at hlook ⊢
  rw [qcowReadLoop, bind_apply, hlook]
  dsimp only
  rw [bind_apply, hrun]
  cases ok <;> rfl

/-- The statuses of `qcow_read`. -/
theorem qcowReadLoop_status (fuel i nb : ℕ) (buf : Bytes) (s : BDRVQcowState) (ret : ℤ) :
    (qcowReadLoop fuel i nb buf s).1.1 = some ret → ret = 0 ∨ ret = -1 := by
  induction fuel generalizing i nb buf s with
  | zero =>
    cases nb with
    | zero => exact fun h => .inl (Option.some.inj h).symm
    | succ nb => exact fun h => absurd h (by rw [qcowReadLoop]; simp)
  | succ fuel ih =>
    by_cases h0 : nb = 0
    · subst h0
      exact fun h => .inl (Option.some.inj h).symm
    rcases hlook : getClusterOffset (i * 512) nb s with ⟨⟨e, n⟩, s1⟩
    rcases hrun : readRun e i n buf s1 with ⟨⟨ok, d⟩, s2⟩
    rw [qcowReadLoop_run h0 hlook hrun]
    split_ifs
    · exact ih _ _ _ _
    · exact fun h => .inr (Option.some.inj h).symm

/-! ### Whole requests -/

/-- Both reads end with the same status, and with the same bytes from the current
sector on. -/
def AgreeAt (s : BDRVQcowState) (fuel : ℕ) (acb : QCowAIOCB) : Prop :=
  ∃ ret b acb', (qcowReadLoop fuel acb.sectorNum acb.nbSectors acb.cur s).1 = (some ret, b) ∧
    (aioRun fuel acb s).1 = (acb', some ret) ∧
    ∀ k < 512 * acb.nbSectors, acb'.buf (512 * acb.pos + k) = b k

section Differ

variable {s : BDRVQcowState} {acb : QCowAIOCB} {e n : ℕ} {c : ℕ → ℕ → ℕ} {o k : ℕ → ℕ} {t : ℕ}
  (h0 : acb.nbSectors ≠ 0)
  (hlook : getClusterOffset (acb.sectorNum * 512) acb.nbSectors s = ((e, n), s.l2Cached c o k t))

include h0 hlook

/-- A run across the end of the backing file is requested as a whole, and the
refused request ends with status zero. -/
theorem not_agreeAt_straddle (he : e = 0) {f : HostFile} (hf : s.backingHd = some f)
    (hfr : f.Reliable) (hn0 : 0 < n) (hn : n < 2 ^ 22)
    (hend : acb.sectorNum < backingSectors f ∧ backingSectors f < acb.sectorNum + n)
    (hcur : acb.cur 0 ≠ f.data (acb.sectorNum * 512)) (fuel : ℕ) : ¬ AgreeAt s (fuel + 1) acb := by
  subst he
  have hn1 : backingRead1 (backingSectors f) acb.sectorNum n = backingSectors f - acb.sectorNum := by
    rw [backingRead1, if_neg (by omega), if_neg (by omega)]
  have hpast : ¬ (acb.sectorNum + n) * 512 ≤ f.len := by
    have hlt := hend.2
    unfold backingSectors at hlt
    omega
  have hfits : ¬ f.len < (acb.sectorNum + (backingSectors f - acb.sectorNum)) * 512 := by
    rw [Nat.add_sub_cancel' hend.1.le]
    exact Nat.not_lt.mpr (Nat.div_mul_le_self _ _)
  have hn1pos : backingSectors f - acb.sectorNum ≠ 0 := by omega
  have hn1lt : backingSectors f - acb.sectorNum < n := by omega
  generalize backingSectors f - acb.sectorNum = n1 at *
  obtain ⟨t', ht⟩ := HostFile.bdrvPread_ok hfr (acb.sectorNum * 512) (n := n1 * 512) (by omega)
    (acb.cur.write (512 * n1) (512 * (n - n1)) fun _ => 0)
  have hread : ∃ d s2, readRun 0 acb.sectorNum n acb.cur (s.l2Cached c o k t) = ((true, d), s2) ∧
      d 0 = f.data (acb.sectorNum * 512) := by
    rw [readRun, bind_apply, get_apply]
    dsimp only
    rw [if_pos rfl, show (s.l2Cached c o k t).backingHd = some f from hf]
    dsimp only
    rw [hn1, if_neg hn1pos, backingRead, if_neg hfits]
    dsimp only
    rw [ht]
    refine ⟨_, _, rfl, ?_⟩
    rw [Bytes.write, if_pos (by omega), Bytes.drop_apply, Nat.sub_zero, Nat.add_zero]
  obtain ⟨d, s2, hread, hd⟩ := hread
  rintro ⟨ret, b, acb', hsync, hasync, hbytes⟩
  rw [qcowReadLoop_run h0 hlook hread, if_pos rfl] at hsync
  have hfirst : b 0 = f.data (acb.sectorNum * 512) := by
    rw [← (Prod.mk.inj hsync).2]
    dsimp only
    rw [if_pos (by omega), hd]
  rw [aioRun, if_neg h0, bind_apply, aioReadNext, bind_apply, get_apply] at hasync
  dsimp only at hasync
  rw [bind_apply, hlook] at hasync
  dsimp only at hasync
  rw [if_pos rfl, hf] at hasync
  dsimp only at hasync
  rw [hn1, if_neg hn1pos, decide_eq_false hpast] at hasync
  have hleft : acb'.buf (512 * acb.pos + 0) = acb.cur 0 := by
    have hkept : acb.buf.write (512 * (acb.pos + n1)) (512 * (n - n1)) (fun _ => 0) (512 * acb.pos + 0) =
        acb.buf (512 * acb.pos + 0) := Bytes.write_apply_of_lt (by omega)
    rw [← (Prod.mk.inj hasync).1]
    exact hkept
  exact hcur (by rw [← hleft, hbytes 0 (by omega), hfirst])

/-- A compressed cluster that does not inflate ends the asynchronous read with
status zero. -/
theorem not_agreeAt_corrupt (he : e ≠ 0) (hz : isCompressed e) {s' : BDRVQcowState}
    (hd : decompressCluster e (s.l2Cached c o k t) = (false, s')) (fuel : ℕ) :
    ¬ AgreeAt s (fuel + 1) acb := by
  rintro ⟨ret, b, acb', hsync, hasync, -⟩
  have hread : readRun e acb.sectorNum n acb.cur (s.l2Cached c o k t) = ((false, acb.cur), s') := by
    rw [readRun, bind_apply, get_apply]
    dsimp only
    rw [if_neg he, if_pos hz, bind_apply, hd]
    rfl
  rw [qcowReadLoop_run h0 hlook hread, if_neg (by decide)] at hsync
  rw [aioRun, if_neg h0, bind_apply, aioReadNext, bind_apply, get_apply] at hasync
  dsimp only at hasync
  rw [bind_apply, hlook] at hasync
  dsimp only at hasync
  rw [if_neg he, if_pos hz, bind_apply, hd] at hasync
  have h1 : (-1 : ℤ) = ret := Option.some.inj (Prod.mk.inj hsync).1
  have h2 : (0 : ℤ) = ret := Option.some.inj (Prod.mk.inj hasync).2
  omega

/-- A cluster that does not start on a host sector is refused. -/
theorem aioRun_misaligned (he : e ≠ 0) (hz : isCompressed e = false) (ha : e % 512 ≠ 0) (fuel : ℕ) :
    (aioRun fuel acb s).1.2 = some (-eio) := by
  rw [aioRun, if_neg h0, bind_apply, aioReadNext, bind_apply, get_apply]
  dsimp only
  rw [bind_apply, hlook]
  dsimp only
  rw [if_neg he, if_neg (by rw [hz]; decide), if_pos ha, pure_apply]
  dsimp only
  rw [aioReadEvents_done]
  rfl

theorem not_agreeAt_misaligned (he : e ≠ 0) (hz : isCompressed e = false) (ha : e % 512 ≠ 0)
    (fuel : ℕ) : ¬ AgreeAt s (fuel + 1) acb := by
  rintro ⟨ret, b, acb', hsync, hasync, -⟩
  have hstatus := qcowReadLoop_status (fuel + 1) acb.sectorNum acb.nbSectors acb.cur s ret
    (by rw [hsync])
  have hfail := aioRun_misaligned h0 hlook he hz ha (fuel + 1)
  rw [hasync] at hfail
  have h2 : ret = -eio := Option.some.inj hfail
  have heio : eio = 5 := rfl
  omega

end Differ

section Agree

variable {s : BDRVQcowState} (hm : s.MapOk) (hc : s.ReadCachesOk) {acb : QCowAIOCB}
  (h0 : acb.nbSectors ≠ 0) (hnum : acb.nbSectors < 2 ^ 22)
  (hidx : s.InRange acb.sectorNum acb.nbSectors)

include hm hc h0 hnum hidx

/-- The lookup of a run, after which a compressed cluster can be read. -/
theorem lookup_run : ∃ c o k t, getClusterOffset (acb.sectorNum * 512) acb.nbSectors s =
      ((clearCopied (s.guestEntry (acb.sectorNum / s.clusterSectors)), s.runSectors acb.sectorNum acb.nbSectors),
        s.l2Cached c o k t) ∧ (s.l2Cached c o k t).L2CacheOk ∧
    (isCompressed (s.guestEntry (acb.sectorNum / s.clusterSectors)) = true →
      ∃ s2, decompressCluster (clearCopied (s.guestEntry (acb.sectorNum / s.clusterSectors))) (s.l2Cached c o k t) =
          ((s.inflated (clearCopied (s.guestEntry (acb.sectorNum / s.clusterSectors)))).1, s2) ∧
        s2.core = s.core ∧ s2.ReadCachesOk) := by
  obtain ⟨c, o, k, t, hlook, hl2⟩ := getClusterOffset_ok hm.geometry acb.sectorNum hm.reliable hc.l2
    hm.l1Ok (show acb.nbSectors < 2 ^ 30 by omega) (hidx 0 (by omega))
  exact ⟨c, o, k, t, hlook, hl2, fun h =>
    decompressCluster_inflates (s := s.l2Cached c o k t) (hm.of_core rfl) ⟨hl2, hc.cluster⟩ h⟩

/-- Both reads go through a run that they handle alike in one step. -/
theorem aioRun_agrees
    (hrun : s.RunAgrees acb.sectorNum (s.runSectors acb.sectorNum acb.nbSectors)) :
    ∃ e d s1 s2, getClusterOffset (acb.sectorNum * 512) acb.nbSectors s =
        ((e, s.runSectors acb.sectorNum acb.nbSectors), s1) ∧
      readRun e acb.sectorNum (s.runSectors acb.sectorNum acb.nbSectors) acb.cur s1 =
        ((true, d), s2) ∧
      s2.core = s.core ∧ s2.ReadCachesOk ∧
      (∀ j, 512 * s.runSectors acb.sectorNum acb.nbSectors ≤ j → d j = acb.cur j) ∧
      ∀ fuel, aioRun (fuel + 1) acb s =
        aioRun fuel (acb.filled e (s.runSectors acb.sectorNum acb.nbSectors) d) s2 := by
  obtain ⟨c, o, k, t, hlook, hl2, hinfl⟩ := lookup_run hm hc h0 hnum hidx
  have hpos : 0 < s.runSectors acb.sectorNum acb.nbSectors := runSectors_pos (by omega) (hm.entryOk _)
  have hle := runSectors_le s acb.sectorNum acb.nbSectors
  have hz := isCompressed_clearCopied (s.guestEntry (acb.sectorNum / s.clusterSectors))
  unfold BDRVQcowState.RunAgrees at hrun
  dsimp only at hrun
  generalize clearCopied (s.guestEntry (acb.sectorNum / s.clusterSectors)) = e at *
  generalize s.runSectors acb.sectorNum acb.nbSectors = n at *
  split_ifs at hrun with he hcomp
  · by_cases hin : ∃ f, s.backingHd = some f ∧ acb.sectorNum + n ≤ backingSectors f
    · obtain ⟨f, hf, hin⟩ := hin
      obtain ⟨t', hread, hstep⟩ := aioRun_backing h0 hlook he hf (hm.backing f hf) hpos (by omega) hin
      refine ⟨e, _, _, _, hlook, hread, ?_, ⟨hl2, hc.cluster⟩, fun j hj => ?_, hstep⟩
      · simp [BDRVQcowState.core, BDRVQcowState.l2Cached, hf]
      · exact Bytes.write_apply_of_ge (by omega)
    · obtain ⟨hread, hstep⟩ := aioRun_zero h0 hlook he fun f hf =>
        (hrun f hf).resolve_left fun h => hin ⟨f, hf, h⟩
      exact ⟨e, _, _, _, hlook, hread, rfl, ⟨hl2, hc.cluster⟩,
        fun j hj => putSectors_rest hj _ _, hstep⟩
  · rw [hz] at hcomp
    obtain ⟨s2, hd, hcore, hc2⟩ := hinfl hcomp
    rw [hrun] at hd
    obtain ⟨hread, hstep⟩ := aioRun_compressed h0 hlook he (hz.trans hcomp) hd
    exact ⟨e, _, _, _, hlook, hread, hcore, hc2, fun j hj => putSectors_rest hj _ _, hstep⟩
  · obtain ⟨d, t', hread, hrest, hstep⟩ := aioRun_plain h0 hlook hm.reliable he
      (Bool.eq_false_iff.mpr hcomp) hrun (by omega)
    exact ⟨e, _, _, _, hlook, hread, rfl, ⟨hl2, hc.cluster⟩, hrest, hstep⟩

omit hm hc h0 hnum hidx in
/-- What is left to agree about after a run. -/
theorem agreeAt_filled {e n fuel : ℕ} {d : Bytes} {s1 s2 : BDRVQcowState} (h0 : acb.nbSectors ≠ 0)
    (hn : n ≤ acb.nbSectors)
    (hlook : getClusterOffset (acb.sectorNum * 512) acb.nbSectors s = ((e, n), s1))
    (hread : readRun e acb.sectorNum n acb.cur s1 = ((true, d), s2))
    (hrest : ∀ j, 512 * n ≤ j → d j = acb.cur j)
    (hstep : aioRun (fuel + 1) acb s = aioRun fuel (acb.filled e n d) s2) :
    AgreeAt s (fuel + 1) acb ↔ AgreeAt s2 fuel (acb.filled e n d) := by
  rw [AgreeAt, AgreeAt, hstep, qcowReadLoop_run h0 hlook hread, if_pos rfl, filled_cur hrest]
  have hsect : (acb.filled e n d).sectorNum = acb.sectorNum + n := rfl
  have hnb : (acb.filled e n d).nbSectors = acb.nbSectors - n := rfl
  have hpos : (acb.filled e n d).pos = acb.pos + n := rfl
  rw [hsect, hnb, hpos]
  have hdone : ∀ k < 512 * n, (aioRun fuel (acb.filled e n d) s2).1.1.buf (512 * acb.pos + k) = d k :=
    fun k hk => by
      rw [aioRun_buf _ _ _ _ (by rw [hpos]; omega)]
      exact Bytes.write_apply_of_mem hk
  generalize aioRun fuel (acb.filled e n d) s2 = ra at *
  generalize qcowReadLoop fuel (acb.sectorNum + n) (acb.nbSectors - n) (d.drop (512 * n)) s2 = rs
  constructor
  · rintro ⟨ret, b, acb', hsync, hasync, hbytes⟩
    obtain ⟨hret, rfl⟩ := Prod.mk.inj hsync
    refine ⟨ret, rs.1.2, acb', by rw [← hret], hasync, fun k hk => ?_⟩
    have := hbytes (512 * n + k) (by omega)
    dsimp only at this
    rw [if_neg (by omega), Nat.add_sub_cancel_left] at this
    rw [← this]
    congr 1
    omega
  · rintro ⟨ret, b, acb', hsync, hasync, hbytes⟩
    refine ⟨ret, _, acb', by rw [hsync], hasync, fun k hk => ?_⟩
    dsimp only
    split_ifs with hkn
    · rw [← hdone k hkn, hasync]
    · rw [← hbytes (k - 512 * n) (by omega)]
      congr 1
      omega

/-- Both reads differ on a run that they do not handle alike, for some content of
the buffer. -/
theorem not_agreeAt (hrun : ¬ s.RunAgrees acb.sectorNum (s.runSectors acb.sectorNum acb.nbSectors))
    (hcur : ∀ f ∈ s.backingHd, acb.cur 0 ≠ f.data (acb.sectorNum * 512)) (fuel : ℕ) :
    ¬ AgreeAt s (fuel + 1) acb := by
  obtain ⟨c, o, k, t, hlook, hl2, hinfl⟩ := lookup_run hm hc h0 hnum hidx
  have hpos : 0 < s.runSectors acb.sectorNum acb.nbSectors := runSectors_pos (by omega) (hm.entryOk _)
  have hle := runSectors_le s acb.sectorNum acb.nbSectors
  have hz := isCompressed_clearCopied (s.guestEntry (acb.sectorNum / s.clusterSectors))
  unfold BDRVQcowState.RunAgrees at hrun
  dsimp only at hrun
  generalize clearCopied (s.guestEntry (acb.sectorNum / s.clusterSectors)) = e at *
  generalize s.runSectors acb.sectorNum acb.nbSectors = n at *
  split_ifs at hrun with he hcomp
  · push Not at hrun
    obtain ⟨f, hf, hpast, hbefore⟩ := hrun
    exact not_agreeAt_straddle h0 hlook he hf (hm.backing f hf) (by omega) (by omega)
      ⟨hbefore, hpast⟩ (hcur f hf) fuel
  · obtain ⟨s2, hd, -⟩ := hinfl (hz.symm.trans hcomp)
    rw [Bool.eq_false_iff.mpr hrun] at hd
    exact not_agreeAt_corrupt h0 hlook he hcomp hd fuel
  · exact not_agreeAt_misaligned h0 hlook he (Bool.eq_false_iff.mpr hcomp) hrun fuel

end Agree

/-- The asynchronous read of `n` sectors from `i` on ends, with the status and the
bytes of the synchronous one, whatever the buffer held before. -/
def AioMatchesRead (s : BDRVQcowState) (i n : ℕ) : Prop :=
  ∀ buf, ∃ ret b acb, (qcowRead i n buf s).1 = (some ret, b) ∧
    (aioRead (fun _ => true) i n buf s).1 = (acb, some ret) ∧ ∀ k < 512 * n, acb.buf k = b k

section Requests

variable {s : BDRVQcowState} (hm : s.MapOk)

include hm

/-- Both reads agree on a request all of whose runs they handle alike. -/
theorem agreeAt_of_readsAgree {fuel : ℕ} {s' : BDRVQcowState} {acb : QCowAIOCB}
    (hcore : s'.core = s.core) (hc : s'.ReadCachesOk) (hfuel : acb.nbSectors ≤ fuel)
    (hnum : acb.nbSectors < 2 ^ 22) (hidx : s.InRange acb.sectorNum acb.nbSectors)
    (h : s.ReadsAgree acb.sectorNum acb.nbSectors) : AgreeAt s' fuel acb := by
  induction fuel generalizing s' acb with
  | zero =>
    obtain h0 : acb.nbSectors = 0 := by omega
    refine ⟨0, acb.cur, acb, ?_, ?_, fun k hk => absurd hk (by omega)⟩
    · rw [h0]
      rfl
    · rw [aioRun, if_pos h0]
      rfl
  | succ fuel ih =>
    by_cases h0 : acb.nbSectors = 0
    · refine ⟨0, acb.cur, acb, ?_, ?_, fun k hk => absurd hk (by omega)⟩
      · rw [h0]
        rfl
      · rw [aioRun, if_pos h0]
        rfl
    have hrunEq : s'.runSectors acb.sectorNum acb.nbSectors =
        s.runSectors acb.sectorNum acb.nbSectors := by
      have := congrArg (fun x : BDRVQcowState => x.runSectors acb.sectorNum acb.nbSectors) hcore
      exact this
    have hpos : 0 < s.runSectors acb.sectorNum acb.nbSectors :=
      runSectors_pos (by omega) (hm.entryOk _)
    have hle := runSectors_le s acb.sectorNum acb.nbSectors
    obtain ⟨hrun, hrest⟩ := (BDRVQcowState.readsAgree_iff (Nat.pos_of_ne_zero h0)).mp h
    obtain ⟨e, d, s1, s2, hlook, hread, hcore2, hc2, hd, hstep⟩ := aioRun_agrees (hm.of_core hcore) hc h0 hnum
      (hidx.of_core hcore) (by rw [hrunEq]; exact (BDRVQcowState.RunAgrees.of_core hcore).mpr hrun)
    rw [hrunEq] at *
    rw [agreeAt_filled h0 hle hlook hread hd (hstep fuel)]
    have hnb : (acb.filled e (s.runSectors acb.sectorNum acb.nbSectors) d).nbSectors =
        acb.nbSectors - s.runSectors acb.sectorNum acb.nbSectors := rfl
    exact ih (hcore2.trans hcore) hc2 (by omega) (by omega) hidx.drop hrest

/-- Both reads differ on a request with a run that they do not handle alike, if
the buffer holds the right byte before. -/
theorem exists_not_agreeAt {fuel i n : ℕ} (hfuel : n ≤ fuel) (hnum : n < 2 ^ 22)
    (hidx : s.InRange i n) (h : ¬ s.ReadsAgree i n) :
    ∃ c : UInt8, ∀ s' acb, s'.core = s.core → s'.ReadCachesOk → acb.sectorNum = i →
      acb.nbSectors = n → (∀ k < 512 * n, acb.cur k = c) → ¬ AgreeAt s' fuel acb := by
  induction fuel generalizing i n with
  | zero =>
    obtain rfl : n = 0 := by omega
    exact absurd (BDRVQcowState.readsAgree_zero i) h
  | succ fuel ih =>
    by_cases h0 : n = 0
    · subst h0
      exact absurd (BDRVQcowState.readsAgree_zero i) h
    have hpos : 0 < s.runSectors i n := runSectors_pos (by omega) (hm.entryOk _)
    have hle := runSectors_le s i n
    have hrunEq : ∀ s' : BDRVQcowState, s'.core = s.core → s'.runSectors i n = s.runSectors i n :=
      fun s' hcore => by
        have := congrArg (fun x : BDRVQcowState => x.runSectors i n) hcore
        exact this
    rw [BDRVQcowState.readsAgree_iff (Nat.pos_of_ne_zero h0), not_and] at h
    by_cases hrun : s.RunAgrees i (s.runSectors i n)
    · obtain ⟨c, hc⟩ := ih (i := i + s.runSectors i n) (n := n - s.runSectors i n) (by omega) (by omega)
        hidx.drop (h hrun)
      refine ⟨c, fun s' acb hcore hc' hi hn hcur => ?_⟩
      subst hi hn
      obtain ⟨e, d, s1, s2, hlook, hread, hcore2, hc2, hd, hstep⟩ := aioRun_agrees (hm.of_core hcore)
        hc' h0 hnum (hidx.of_core hcore)
        (by rw [hrunEq s' hcore]; exact (BDRVQcowState.RunAgrees.of_core hcore).mpr hrun)
      rw [hrunEq s' hcore] at *
      rw [agreeAt_filled h0 hle hlook hread hd (hstep fuel)]
      refine hc s2 _ (hcore2.trans hcore) hc2 rfl rfl fun k hk => ?_
      rw [filled_cur hd, Bytes.drop_apply, hd _ (by omega), hcur _ (by omega)]
    · refine ⟨(s.backingHd.elim 0 fun f => f.data (i * 512)) + 1, fun s' acb hcore hc' hi hn hcur => ?_⟩
      subst hi hn
      refine not_agreeAt (hm.of_core hcore) hc' h0 hnum (hidx.of_core hcore) ?_ (fun f hf => ?_) fuel
      · rw [hrunEq s' hcore, BDRVQcowState.RunAgrees.of_core hcore]
        exact hrun
      · have hb : s.backingHd.elim 0 (fun f => f.data (acb.sectorNum * 512)) =
            f.data (acb.sectorNum * 512) := by
          have := congrArg (fun x : BDRVQcowState =>
            x.backingHd.elim (0 : UInt8) fun f => f.data (acb.sectorNum * 512)) hcore
          simp only [BDRVQcowState.core, Option.mem_def.mp hf, Option.elim_map, Option.map_some,
            Option.elim_some] at this
          exact this.symm
        rw [hcur 0 (by omega), hb]
        simp

end Requests

/-- The asynchronous and the synchronous read agree exactly when no unallocated
run straddles the end of the backing file, every compressed cluster of the range
inflates and every plain run starts on a host sector. -/
theorem aioRead_matches_iff (s : BDRVQcowState) (i n : ℕ) (hm : s.MapOk) (hc : s.ReadCachesOk)
    (hn : n * 512 < 2 ^ 31) (hidx : s.InRange i n) : AioMatchesRead s i n ↔ s.ReadsAgree i n := by
  have hat : ∀ buf, (∃ ret b acb, (qcowRead i n buf s).1 = (some ret, b) ∧
      (aioRead (fun _ => true) i n buf s).1 = (acb, some ret) ∧ ∀ k < 512 * n, acb.buf k = b k) ↔
      AgreeAt s n (qcowAioSetup i n buf) := fun buf => by
    have hcur : (qcowAioSetup i n buf).cur = buf := by
      funext k
      simp [QCowAIOCB.cur, qcowAioSetup]
    have hpos : 512 * (qcowAioSetup i n buf).pos = 0 := rfl
    simp only [AgreeAt, aioRead_eq, hcur, hpos, Nat.zero_add]
    rfl
  constructor
  · intro h
    by_contra hbad
    obtain ⟨c, hc'⟩ := exists_not_agreeAt hm (le_refl n) (by omega) hidx hbad
    exact hc' s (qcowAioSetup i n fun _ => c) rfl hc rfl rfl (fun _ _ => rfl) ((hat _).mp (h _))
  · intro h buf
    exact (hat buf).mpr (agreeAt_of_readsAgree hm rfl hc (le_refl n) (show n < 2 ^ 22 by omega) hidx h)

/-- An image of three clusters over a backing file as large: one plain, one compressed, one unallocated. -/
def mixedOverlay : BDRVQcowState :=
  { blankState
      { data := Bytes.write (Bytes.write (fun _ => 0) 4096 8 (Bytes.beByte 8 (setCopied 8192))) 4104 8
          (Bytes.beByte 8 (2 ^ 62 + 12288))
        len := 16384, io := fun _ => none, tick := 0 }
      { plainCodec with inflate := fun _ _ => (true, fun _ => 5) } with
    backingHd := some { data := fun _ => 1, len := 12288, io := fun _ => none, tick := 0 }
    totalSectors := 24
    clusterBits := 12
    l1Size := 1
    l1Table := fun _ => setCopied 4096 }

theorem mixedOverlay_guestEntry (g : ℕ) :
    mixedOverlay.guestEntry g = if g = 0 then setCopied 8192 else if g = 1 then 2 ^ 62 + 12288 else 0 := by
  have hl2 : mixedOverlay.l2Size = 512 := by decide
  have hsize : mixedOverlay.l1Size = 1 := rfl
  have hl1 : mixedOverlay.l1Table (g / 512) = setCopied 4096 := rfl
  rw [BDRVQcowState.guestEntry, hl2, hsize, hl1]
  by_cases hg : 1 ≤ g / 512
  · rw [if_pos hg, if_neg (by omega), if_neg (by omega)]
  · rw [if_neg hg, if_neg (by decide), show clearCopied (setCopied 4096) = 4096 by decide]
    split_ifs with h0 h1
    · subst h0
      exact (Bytes.word_write_of_disjoint (by omega)).trans (Bytes.word_write_self (by decide))
    · subst h1
      exact Bytes.word_write_self (by decide)
    · refine (Bytes.word_write_of_disjoint (by omega)).trans ?_
      exact (Bytes.word_write_of_disjoint (by omega)).trans (Bytes.word_zero _ _)

theorem mixedOverlay_compressed {g : ℕ} (hg : isCompressed (mixedOverlay.guestEntry g)) : g = 1 := by
  rw [mixedOverlay_guestEntry] at hg
  split_ifs at hg with h0 h1
  · exact absurd hg (by decide)
  · exact h1
  · exact absurd hg (by decide)

theorem mixedOverlay_mapOk : mixedOverlay.MapOk := by
  have hl1 : clearCopied (setCopied 4096) ≠ 0 := by decide
  refine ⟨⟨by decide, by decide⟩, fun _ => rfl, fun f hf => ?_, fun _ _ _ => hl1, fun g hg => ?_, fun g g' hg hg' _ => ?_⟩
  · obtain rfl := Option.some.inj hf
    exact fun _ => rfl
  · rw [mixedOverlay_guestEntry] at hg ⊢
    split_ifs at hg ⊢
    · decide
    · decide
    · exact absurd rfl hg
  · rw [mixedOverlay_compressed hg, mixedOverlay_compressed hg']

theorem mixedOverlay_readsAgree : mixedOverlay.ReadsAgree 0 24 := by
  have hrun₀ : mixedOverlay.runSectors 0 24 = 8 := by decide +kernel
  have hrun₁ : mixedOverlay.runSectors 8 16 = 8 := by decide +kernel
  have hrun₂ : mixedOverlay.runSectors 16 8 = 8 := by decide +kernel
  have hcs : mixedOverlay.clusterSectors = 8 := by decide
  rw [BDRVQcowState.readsAgree_iff (by decide), hrun₀, BDRVQcowState.readsAgree_iff (by decide), hrun₁,
    BDRVQcowState.readsAgree_iff (by decide), hrun₂]
  refine ⟨?_, ?_, ?_, BDRVQcowState.readsAgree_zero _⟩
  · rw [BDRVQcowState.RunAgrees, hcs, mixedOverlay_guestEntry]
    decide
  · rw [BDRVQcowState.RunAgrees, hcs, mixedOverlay_guestEntry]
    rfl
  · rw [BDRVQcowState.RunAgrees, hcs, mixedOverlay_guestEntry]
    refine (if_pos rfl).mpr fun f hf => ?_
    obtain rfl := Option.some.inj hf
    exact .inl (by decide)

theorem aioRead_matches_mixed : mixedOverlay.ReadsAgree 0 24 ∧ AioMatchesRead mixedOverlay 0 24 := by
  refine ⟨mixedOverlay_readsAgree,
    (aioRead_matches_iff mixedOverlay 0 24 mixedOverlay_mapOk ⟨?_, fun _ _ _ => rfl⟩ (by decide) ?_).mpr mixedOverlay_readsAgree⟩
  · exact fun i _ h => absurd rfl h
  · intro q hq
    exact lt_of_le_of_lt ((Nat.div_le_self _ _).trans (Nat.div_le_self _ _)) (by omega)

def oneSectorFile : HostFile := { data := fun _ => 1, len := 512, io := fun _ => none, tick := 0 }

/-- A new image of eight sectors, opened over a backing file of one sector. -/
def newOverlay : BDRVQcowState :=
  match qcowOpen (qcowCreate2 ⟨8, some (asciiBytes "base.img"), none, false⟩) plainCodec with
  | none => mixedOverlay
  | some r => { r.state with backingHd := some oneSectorFile }

set_option maxRecDepth 100000 in
/-- A read of two sectors: the first byte is the backing file's for the synchronous
read, and what the buffer held before for the asynchronous one. -/
theorem aioRead_straddles_backing : ¬ AioMatchesRead newOverlay 0 2 := by
  intro h
  obtain ⟨ret, b, acb, hsync, hasync, hbytes⟩ := h fun _ => 7
  have hfirst : ((qcowRead 0 2 (fun _ => 7) newOverlay).1.2 0,
      (aioRead (fun _ => true) 0 2 (fun _ => 7) newOverlay).1.1.buf 0) = (1, 7) := by decide +kernel
  rw [hsync, hasync] at hfirst
  have h1 : b 0 = 1 := (Prod.mk.inj hfirst).1
  have h7 : acb.buf 0 = 7 := (Prod.mk.inj hfirst).2
  have := hbytes 0 (by decide)
  rw [h1, h7] at this
  exact absurd this (by decide)

end Ar7Qemu.Qcow2
