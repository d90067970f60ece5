import Ar7Qemu.Qcow2.Snapshot

/-! The image check of `block-qcow2.c`: a second refcount table is built from
everything the header, the L1 tables, the snapshot table and the refcount
structures reach, and is compared with the stored counts. -/

namespace Ar7Qemu.Qcow2

open Lib Block

/-- The `uint16_t` table under construction and the errors counted so far. -/
structure CheckState where
  counts : ℕ → ℕ
  errors : ℕ

/-- The loop of `inc_refcounts` over `n` clusters from `k` on. -/
def incClusters (nbClusters : ℕ) : ℕ → ℕ → CheckState → CheckState
  | 0, _, c => c
  | n + 1, k, c =>
    let c :=
      if nbClusters ≤ k then { c with errors := c.errors + 1 }
      else
        let v := (c.counts k + 1) % 2 ^ 16
        { counts := Function.update c.counts k v, errors := c.errors + if v = 0 then 1 else 0 }
    incClusters nbClusters n (k + 1) c

def incRefcounts (s : BDRVQcowState) (nbClusters offset size : ℕ) (c : CheckState) : CheckState :=
  if size = 0 then c
  else
    let start := offset / s.clusterSize
    let last := (offset + size - 1) / s.clusterSize
    incClusters nbClusters (last + 1 - start) start c

/-- Count an error when `bad` holds. -/
def CheckState.errorIf (c : CheckState) (bad : Bool) : CheckState :=
  { c with errors := c.errors + if bad then 1 else 0 }

/-- `QCOW_OFLAG_COPIED` must be set iff the refcount is one. -/
def checkCopied (check : Bool) (entry : ℕ) (c : CheckState) : Qcow CheckState := do
  if !check then return c
  let refcount ← getRefcount (clearCopied entry / (← get).clusterSize)
  return c.errorIf ((refcount = 1 : Bool) != isCopied entry)

/-- The body of the loop of `check_refcounts_l2`. -/
def checkL2Entry (nbClusters : ℕ) (check : Bool) (entry : ℕ) (c : CheckState) :
    Qcow CheckState := do
  if entry = 0 then return c
  let s ← get
  if isCompressed entry then
    let c := c.errorIf (isCopied entry)
    let offset := clearCopied entry
    let nbCsectors := s.csizeMask (offset / 2 ^ s.csizeShift) + 1
    return incRefcounts s nbClusters (s.clusterOffsetMask offset / 512 * 512) (nbCsectors * 512) c
  else
    let c ← checkCopied check entry c
    let offset := clearCopied entry
    let c := incRefcounts s nbClusters offset s.clusterSize c
    return c.errorIf (offset % s.clusterSize ≠ 0)

/-- The loop of `check_refcounts_l2` over `n` entries from `i` on. -/
def checkL2Entries (nbClusters : ℕ) (check : Bool) (l2Table : ℕ → ℕ) :
    ℕ → ℕ → CheckState → Qcow CheckState
  | 0, _, c => return c
  | n + 1, i, c => do
    let c ← checkL2Entry nbClusters check (l2Table i) c
    checkL2Entries nbClusters check l2Table n (i + 1) c

def checkRefcountsL2 (nbClusters l2Offset : ℕ) (check : Bool) (c : CheckState) :
    Qcow (Option CheckState) := do
  let s ← get
  let (ok, l2Table) ← preadTable 8 l2Offset s.l2Size fun _ => 0
  if !ok then return none
  return some (← checkL2Entries nbClusters check l2Table s.l2Size 0 c)

/-- The loop of `check_refcounts_l1` over `n` entries from `i` on. An I/O error
keeps the counts made so far. -/
def checkL1Entries (nbClusters : ℕ) (check : Bool) (l1Table : ℕ → ℕ) :
    ℕ → ℕ → CheckState → Qcow (Bool × CheckState)
  | 0, _, c => return (true, c)
  | n + 1, i, c => do
    let entry := l1Table i
    if entry = 0 then checkL1Entries nbClusters check l1Table n (i + 1) c
    else
      let s ← get
      let c ← checkCopied check entry c
      let l2Offset := clearCopied entry
      let c := incRefcounts s nbClusters l2Offset s.clusterSize c
      let c := c.errorIf (l2Offset % s.clusterSize ≠ 0)
      match ← checkRefcountsL2 nbClusters l2Offset check c with
      | none => return (false, c)
      | some c => checkL1Entries nbClusters check l1Table n (i + 1) c

def checkRefcountsL1 (nbClusters l1TableOffset l1Size : ℕ) (check : Bool) (c : CheckState) :
    Qcow (Bool × CheckState) := do
  let c := incRefcounts (← get) nbClusters l1TableOffset (l1Size * 8) c
  let (ok, l1Table) ← preadTable 8 l1TableOffset l1Size fun _ => 0
  if !ok then return (false, c)
  checkL1Entries nbClusters check l1Table l1Size 0 c

/-- The loop of `check_refcounts` over the snapshots. What their tables report
is dropped; the counts stay. -/
def checkSnapshots (nbClusters : ℕ) : List QCowSnapshot → CheckState → Qcow CheckState
  | [], c => return c
  | sn :: sns, c => do
    let (_, c') ← checkRefcountsL1 nbClusters sn.l1TableOffset sn.l1Size false c
    checkSnapshots nbClusters sns { c' with errors := c.errors }

/-- The loop of `check_refcounts` over the refcount blocks, `n` from `i` on. -/
def checkBlocks (s : BDRVQcowState) (nbClusters : ℕ) : ℕ → ℕ → CheckState → CheckState
  | 0, _, c => c
  | n + 1, i, c =>
    let offset := s.refcountTable i
    checkBlocks s nbClusters n (i + 1)
      (if offset = 0 then c else incRefcounts s nbClusters offset s.clusterSize c)

/-- The final comparison of `check_refcounts`, `n` clusters from `i` on. -/
def compareRefcounts : ℕ → ℕ → CheckState → Qcow CheckState
  | 0, _, c => return c
  | n + 1, i, c => do
    let refcount ← getRefcount i
    compareRefcounts n (i + 1) (c.errorIf (refcount ≠ c.counts i))

/-- `check_refcounts`: the number of errors, or an error code. -/
def checkRefcounts : Qcow ℤ := do
  let s ← get
  let nbClusters := s.sizeToClusters s.hd.len
  let c := incRefcounts s nbClusters 0 s.clusterSize ⟨fun _ => 0, 0⟩
  let (ok, c) ← checkRefcountsL1 nbClusters s.l1TableOffset s.l1Size true c
  if !ok then return -eio
  let c ← checkSnapshots nbClusters s.snapshots c
  let s ← get
  let c := incRefcounts s nbClusters s.snapshotsOffset s.snapshotsSize.toNat c
  let c := incRefcounts s nbClusters s.refcountTableOffset (s.refcountTableSize * 8) c
  let c := checkBlocks s nbClusters s.refcountTableSize 0 c
  let c ← compareRefcounts nbClusters 0 c
  return (c.errors : ℕ)

end Ar7Qemu.Qcow2
