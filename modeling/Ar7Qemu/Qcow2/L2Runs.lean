import Ar7Qemu.Qcow2.L2Coherence
import Ar7Qemu.Qcow2.CreateOpen

/-! Linking a written run into its L2 table, and sequences of the calls that use
the L2 cache. Proved: in a run of calls that are all safe, every slot in use holds
the table on disk. When the write of the linked entries fails the slot is ahead of
the disk. -/

namespace Ar7Qemu.Qcow2

open Lib Block

/-! ### Copying the unmodified sectors -/

namespace BDRVQcowState

/-- What keeps the cache coherent in `copy_sectors`: the sectors are read safely and
written outside the cached tables. -/
structure CopySafe (s : BDRVQcowState) (startSect clusterOffset nStart nEnd : ℕ) : Prop where
  read : ReadSafe (nEnd - nStart) (startSect + nStart) (nEnd - nStart) (fun _ => 0) s
  write : ∀ d s₁, qcowRead (startSect + nStart) (nEnd - nStart) (fun _ => 0) s =
      ((some 0, d), s₁) →
    s₁.OffL2 ((clusterOffset / 512 + nStart) * 512) ((nEnd - nStart) * 512)

end BDRVQcowState

theorem pwrite_coherent {s : BDRVQcowState} (h : s.CacheOk) {off n : ℕ} (hoff : s.OffL2 off n)
    (d : Bytes) :
    (pwrite off n d s).2.CacheOk ∧ (pwrite off n d s).2.clusterBits = s.clusterBits := by
  obtain ⟨ok, d', l, t, hw, -, hframe⟩ := pwrite_cases s off n d
  rw [hw]
  exact ⟨⟨⟨h.geometry.lo, h.geometry.hi⟩, h.coherent.of_offTables hoff hframe⟩, rfl⟩

theorem copySectors_coherent {s : BDRVQcowState} (h : s.CacheOk)
    {startSect clusterOffset nStart nEnd : ℕ}
    (hsafe : s.CopySafe startSect clusterOffset nStart nEnd) :
    (copySectors startSect clusterOffset nStart nEnd s).2.CacheOk ∧
      (copySectors startSect clusterOffset nStart nEnd s).2.clusterBits = s.clusterBits := by
  rw [copySectors]
  split_ifs
  · exact ⟨h, rfl⟩
  obtain ⟨hok, hbits⟩ := qcowReadLoop_coherent h hsafe.read
  rw [bind_apply]
  rcases hr : qcowRead (startSect + nStart) (nEnd - nStart) (fun _ => 0) s with ⟨⟨ret, d⟩, s₁⟩
  rw [← qcowRead, hr] at hok hbits
  dsimp only at hok hbits ⊢
  split_ifs with hret
  · exact ⟨hok, hbits⟩
  have hwrite := hsafe.write d s₁ (by rw [hr, not_not.mp hret])
  rw [bind_apply, get_apply]
  obtain ⟨hok₂, hbits₂⟩ := pwrite_coherent hok hwrite _
  exact ⟨hok₂, hbits₂.trans hbits⟩

/-! ### Linking a run -/

namespace BDRVQcowState

variable (s s₁ : BDRVQcowState) (clusterOffset : ℕ) (m : QCowL2Meta)

def runStart : ℕ := m.offset / s.clusterSize * s.clusterSize / 512

def runTail : ℕ := m.nbAvailable / s.clusterSectors * s.clusterSectors

def headCopied : Bool × BDRVQcowState :=
  if m.nStart ≠ 0 then copySectors (s.runStart m) clusterOffset 0 m.nStart s else (true, s)

/-- The sectors behind the run are copied, in a state `s₁`. -/
def tailCopied : Bool × BDRVQcowState :=
  if m.nbAvailable % s.clusterSectors ≠ 0 then
    copySectors (s.runStart m + s.runTail m) (clusterOffset + s.runTail m * 512)
      (m.nbAvailable - s.runTail m) s.clusterSectors s₁
  else (true, s₁)

/-- What keeps the cache coherent when the run is entered: its entries are in one
table, and the write of them succeeds. -/
structure EnterSafe : Prop where
  run : l2IndexOf s m.offset + m.nbClusters ≤ s.l2Size
  table : s.TableSafe m.offset
  write : ∀ slot off i s₁, getClusterTable m.offset s = (some (slot, off, i), s₁) →
    s₁.hd.io s₁.hd.tick = none
  free : ∀ slot off i s₁, getClusterTable m.offset s = (some (slot, off, i), s₁) → s₁.BlocksApart

/-- What keeps the cache coherent in `alloc_cluster_link_l2`. -/
structure LinkSafe : Prop where
  head : m.nStart ≠ 0 → s.CopySafe (s.runStart m) clusterOffset 0 m.nStart
  tail : (s.headCopied clusterOffset m).1 = true → m.nbAvailable % s.clusterSectors ≠ 0 →
    (s.headCopied clusterOffset m).2.CopySafe (s.runStart m + s.runTail m)
      (clusterOffset + s.runTail m * 512) (m.nbAvailable - s.runTail m) s.clusterSectors
  enter : (s.headCopied clusterOffset m).1 = true →
    (s.tailCopied (s.headCopied clusterOffset m).2 clusterOffset m).1 = true →
    (s.tailCopied (s.headCopied clusterOffset m).2 clusterOffset m).2.EnterSafe m

end BDRVQcowState

/-- The table `old` with a run of `n` clusters at `clusterOffset` entered from `l2Index` on. -/
def linkedTable (clusterOffset clusterSize l2Index n : ℕ) (old : ℕ → ℕ) (j : ℕ) : ℕ :=
  if l2Index ≤ j ∧ j < l2Index + n then setCopied (clusterOffset + (j - l2Index) * clusterSize)
  else old j

/-- The part of `alloc_cluster_link_l2` that enters the run into its table. -/
def enterRun (clusterOffset clusterSize : ℕ) (m : QCowL2Meta) : Qcow Bool := do
  match ← getClusterTable m.offset with
  | none => return false
  | some (slot, l2Offset, l2Index) =>
    let old := (← get).l2Cache slot
    let new := linkedTable clusterOffset clusterSize l2Index m.nbClusters old
    modify fun s => { s with l2Cache := Function.update s.l2Cache slot new }
    if !(← pwriteTable 8 (l2Offset + l2Index * 8) m.nbClusters fun i => new (l2Index + i)) then
      return false
    freeOldClusters
      (((List.range m.nbClusters).map fun i => old (l2Index + i)).filter fun e => e ≠ 0)
    return true

theorem allocClusterLinkL2_eq (s : BDRVQcowState) (clusterOffset : ℕ) {m : QCowL2Meta}
    (hm : m.nbClusters ≠ 0) :
    allocClusterLinkL2 clusterOffset m s =
      if (s.headCopied clusterOffset m).1 = true then
        if (s.tailCopied (s.headCopied clusterOffset m).2 clusterOffset m).1 = true then
          enterRun clusterOffset s.clusterSize m
            (s.tailCopied (s.headCopied clusterOffset m).2 clusterOffset m).2
        else (false, (s.tailCopied (s.headCopied clusterOffset m).2 clusterOffset m).2)
      else (false, (s.headCopied clusterOffset m).2) := by
  have htail : ∀ s₁, (if m.nbAvailable % s.clusterSectors ≠ 0 then do
        if !(← copySectors (s.runStart m + s.runTail m) (clusterOffset + s.runTail m * 512)
            (m.nbAvailable - s.runTail m) s.clusterSectors) then return false
        enterRun clusterOffset s.clusterSize m
      else enterRun clusterOffset s.clusterSize m : Qcow Bool) s₁ =
      if (s.tailCopied s₁ clusterOffset m).1 = true then
        enterRun clusterOffset s.clusterSize m (s.tailCopied s₁ clusterOffset m).2
      else (false, (s.tailCopied s₁ clusterOffset m).2) := by
    intro s₁
    rw [BDRVQcowState.tailCopied]
    by_cases haligned : m.nbAvailable % s.clusterSectors ≠ 0
    · rw [if_pos haligned, if_pos haligned, bind_apply]
      cases (copySectors (s.runStart m + s.runTail m) (clusterOffset + s.runTail m * 512)
          (m.nbAvailable - s.runTail m) s.clusterSectors s₁).1 with
      | false => rfl
      | true => rfl
    · rw [if_neg haligned, if_neg haligned]
      rfl
  rw [allocClusterLinkL2, if_neg hm, bind_apply, get_apply, ← htail, BDRVQcowState.headCopied]
  by_cases hstart : m.nStart ≠ 0
  · rw [if_pos hstart]
    dsimp only
    rw [if_pos hstart, bind_apply,
      show m.offset / s.clusterSize * s.clusterSize / 512 = s.runStart m from rfl]
    rcases copySectors (s.runStart m) clusterOffset 0 m.nStart s with ⟨_ | _, s₁⟩
    · rfl
    · rfl
  · rw [if_neg hstart]
    dsimp only
    rw [if_neg hstart]
    rfl

theorem sameL2_freeOldClusters (es : List ℕ) :
    Keeps BDRVQcowState.SameL2 (freeOldClusters es) := by
  induction es with
  | nil => exact keeps_pure _
  | cons e es ih => exact (sameL2_freeAnyClusters _ _).bind fun _ => ih

theorem blocksOnly_freeOldClusters (es : List ℕ) :
    Keeps BDRVQcowState.BlocksOnly (freeOldClusters es) := by
  induction es with
  | nil => exact keeps_pure _
  | cons e es ih => exact (blocksOnly_freeAnyClusters _ _).bind fun _ => ih

theorem setCopied_lt (e : ℕ) : setCopied e < 256 ^ 8 := by
  rw [setCopied]
  have := Nat.mod_lt e (Nat.two_pow_pos 63)
  omega

section Link

variable {s : BDRVQcowState} (h : s.CacheOk)

include h

theorem enterRun_coherent {clusterOffset clusterSize : ℕ} {m : QCowL2Meta} (hm : m.nbClusters ≠ 0)
    (hsafe : s.EnterSafe m) : (enterRun clusterOffset clusterSize m s).2.CacheOk := by
  obtain ⟨hrun, htable, hwrite, hfree⟩ := hsafe
  rw [enterRun, bind_apply]
  rcases hl : getClusterTable m.offset s with ⟨r, s₁⟩
  obtain ⟨hok, hbits, hslot⟩ := getClusterTable_coherent h htable hl
  rcases r with _ | ⟨slot, off, i⟩
  · exact hok
  obtain ⟨hlt, htag, hi⟩ := hslot slot off i rfl
  replace hfree := hfree slot off i s₁ hl
  replace hwrite := hwrite slot off i s₁ hl
  dsimp only
  rw [bind_apply, get_apply]
  dsimp only
  generalize hnew : linkedTable clusterOffset clusterSize i m.nbClusters (s₁.l2Cache slot) = new
  have hother : ∀ j, (j < i ∨ i + m.nbClusters ≤ j) → new j = s₁.l2Cache slot j := by
    intro j hj
    rw [← hnew]
    exact if_neg (by omega)
  have hword : ∀ j, i ≤ j → j < i + m.nbClusters → new j < 256 ^ 8 := by
    intro j hj hj'
    rw [← hnew, linkedTable, if_pos ⟨hj, hj'⟩]
    exact setCopied_lt _
  have hin : i + m.nbClusters ≤ s₁.l2Size := by
    rw [hi, BDRVQcowState.l2Size, BDRVQcowState.l2Bits, hbits]
    exact hrun
  obtain ⟨l, hw, hok₂⟩ := writeEntries_coherent hok hlt (Nat.pos_of_ne_zero hm) hin hother hword
    hwrite fun _ _ => rfl
  rw [htag] at hw hok₂
  rw [bind_apply, modify_apply]
  dsimp only
  rw [bind_apply, pwriteTable, hw]
  dsimp only
  rw [if_neg (by decide), bind_apply]
  -- the tags and the refcount blocks are those from before the write
  generalize hs₂ : BDRVQcowState.stored _ _ l _ = s₂ at hok₂ ⊢
  have hapart : s₂.BlocksApart := by
    rw [← hs₂]
    exact hfree
  exact hok₂.leaves (sameL2_freeOldClusters _ s₂) (hapart.leaves (blocksOnly_freeOldClusters _ s₂))

theorem allocClusterLinkL2_coherent {clusterOffset : ℕ} {m : QCowL2Meta}
    (hsafe : m.nbClusters = 0 ∨ s.LinkSafe clusterOffset m) :
    (allocClusterLinkL2 clusterOffset m s).2.CacheOk := by
  by_cases hm : m.nbClusters = 0
  · rw [allocClusterLinkL2, if_pos hm]
    exact h
  obtain ⟨hhead, htail, henter⟩ := hsafe.resolve_left hm
  have hok₁ : (s.headCopied clusterOffset m).2.CacheOk := by
    rw [BDRVQcowState.headCopied]
    split_ifs with hstart
    · exact (copySectors_coherent h (hhead hstart)).1
    · exact h
  rw [allocClusterLinkL2_eq s clusterOffset hm]
  by_cases hcopied : (s.headCopied clusterOffset m).1 = true
  · rw [if_pos hcopied]
    have hok₂ : (s.tailCopied (s.headCopied clusterOffset m).2 clusterOffset m).2.CacheOk := by
      rw [BDRVQcowState.tailCopied]
      split_ifs with haligned
      · exact (copySectors_coherent hok₁ (htail hcopied haligned)).1
      · exact hok₁
    split_ifs with hcopied₂
    · exact enterRun_coherent hok₂ hm (henter hcopied hcopied₂)
    · exact hok₂
  · rw [if_neg hcopied]
    exact hok₁

end Link

/-! ### Sequences of calls -/

/-- A call that uses the L2 cache. -/
inductive CacheCall where
  | load (l2Offset : ℕ)
  | allocate (l1Index : ℕ)
  | allocCompressed (offset compressedSize : ℕ)
  | linkL2 (clusterOffset : ℕ) (m : QCowL2Meta)
  | reset

/-- The state behind a call. -/
def cacheStep (s : BDRVQcowState) : CacheCall → BDRVQcowState
  | .load l2Offset => (l2Load l2Offset s).2
  | .allocate l1Index => (l2Allocate l1Index s).2
  | .allocCompressed offset compressedSize =>
    (allocCompressedClusterOffset offset compressedSize s).2
  | .linkL2 clusterOffset m => (allocClusterLinkL2 clusterOffset m s).2
  | .reset => (l2CacheReset s).2

/-- No request of the call fails behind the change of a slot in use, and what it
writes beside its own table meets no cached table. -/
def CallSafe (s : BDRVQcowState) : CacheCall → Prop
  | .load l2Offset => s.LoadSafe l2Offset
  | .allocate l1Index => s.AllocateSafe l1Index
  | .allocCompressed offset compressedSize => s.CompressedSafe offset compressedSize
  | .linkL2 clusterOffset m => m.nbClusters = 0 ∨ s.LinkSafe clusterOffset m
  | .reset => True

theorem cacheStep_coherent (s : BDRVQcowState) (c : CacheCall) (h : s.CacheOk)
    (hsafe : CallSafe s c) : (cacheStep s c).CacheOk := by
  cases c with
  | load l2Offset => exact (l2Load_coherent h hsafe rfl).ok
  | allocate l1Index => exact (l2Allocate_coherent h hsafe rfl).ok
  | allocCompressed offset compressedSize => exact allocCompressed_coherent h hsafe
  | linkL2 clusterOffset m => exact allocClusterLinkL2_coherent h hsafe
  | reset => exact BDRVQcowState.cacheOk_of_empty ⟨h.geometry.lo, h.geometry.hi⟩ fun _ _ => rfl

/-- In a run of safe calls every slot in use holds the table on disk. -/
theorem l2_cache_coherent (s : BDRVQcowState) (calls : List CacheCall) (hg : s.Geometry)
    (hempty : ∀ i < l2CacheSize, s.l2CacheOffsets i = 0)
    (hsafe : Meets cacheStep CallSafe s calls) :
    ∀ s' ∈ states cacheStep s calls, s'.L2CacheOk := fun s' hs' =>
  (states_invariant cacheStep_coherent calls s (BDRVQcowState.cacheOk_of_empty hg hempty) hsafe s'
    hs').l2CacheOk

/-- An image with one empty L2 table, on a file with the given schedule. -/
def oneTable (io : ℕ → Option (ℕ → Bool)) : BDRVQcowState :=
  { blankState { data := fun _ => 0, len := 2048, io, tick := 0 } plainCodec with
    totalSectors := 64
    clusterBits := 9
    l1Size := 1
    l1TableOffset := 512
    l1Table := fun _ => setCopied 1024 }

/-- The table is loaded, and guest cluster zero is linked to the cluster at 2048. -/
def loadAndLink : List CacheCall := [.load 1024, .linkL2 2048 ⟨0, 0, 1, 1⟩]

theorem oneTable_geometry (io : ℕ → Option (ℕ → Bool)) : (oneTable io).Geometry :=
  ⟨show 9 ≤ 9 by decide, show 9 ≤ 16 by decide⟩

theorem loadAndLink_safe : Meets cacheStep CallSafe (oneTable fun _ => none) loadAndLink := by
  have hloaded : (cacheStep (oneTable fun _ => none) (.load 1024)).LoadSafe 1024 :=
    ⟨by decide, .inl ⟨0, by decide, by decide⟩⟩
  have hblocks : ∀ s : BDRVQcowState, s.refcountTableSize = 0 → s.BlocksApart := by
    intro s hs p hp i hi
    omega
  refine ⟨⟨by decide, .inr (.inl rfl)⟩,
    .inr ⟨fun h => absurd rfl h, fun _ h => absurd rfl h, fun _ _ => ?_⟩, trivial⟩
  refine ⟨by decide, ⟨fun _ _ => rfl, fun _ _ => hloaded, hblocks _ rfl, fun _ h => ?_⟩,
    fun slot off i s₁ hs => ?_, fun slot off i s₁ hs => ?_⟩
  · exact absurd h (by decide)
  · obtain ⟨-, rfl⟩ := Prod.mk.inj hs
    rfl
  · obtain ⟨-, rfl⟩ := Prod.mk.inj hs
    exact hblocks _ rfl

theorem loadAndLink_coherent : Meets cacheStep CallSafe (oneTable fun _ => none) loadAndLink ∧
    ∀ s' ∈ states cacheStep (oneTable fun _ => none) loadAndLink, s'.L2CacheOk :=
  ⟨loadAndLink_safe, l2_cache_coherent _ _ (oneTable_geometry _) (fun _ _ => rfl) loadAndLink_safe⟩

def secondFails (t : ℕ) : Option (ℕ → Bool) := if t = 1 then some fun _ => false else none

/-- When the write of the linked entry fails the slot is ahead of the disk. -/
theorem loadAndLink_stale : (∀ i < l2CacheSize, (oneTable secondFails).l2CacheOffsets i = 0) ∧
    ∃ s' ∈ states cacheStep (oneTable secondFails) loadAndLink, ¬ s'.L2CacheOk := by
  refine ⟨fun _ _ => rfl, _, foldl_mem_states _ _, fun h => ?_⟩
  have := h 0 (by decide) (by decide) 0 (by decide)
  revert this
  decide

end Ar7Qemu.Qcow2
