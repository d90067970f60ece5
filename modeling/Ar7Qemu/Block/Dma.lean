import Mathlib.Algebra.Order.Ring.Nat
import Mathlib.Data.List.Range
import Mathlib.Tactic.Common

/-! Scatter-gather DMA of `dma-helpers.c`. A request maps as much of its list as
`cpu_physical_memory_map` grants, hands the mapped pieces to the block layer, and is
called back to continue with the rest. A refused mapping leaves a map client that
schedules a retry. Unmapping and the bounce buffer do not touch the request, and the
answers of the memory map are arbitrary here. -/

namespace Ar7Qemu.Dma

/-- `target_phys_addr_t`. -/
abbrev Addr := BitVec 64

structure ScatterGatherEntry where
  base : Addr
  len : ℕ
  deriving DecidableEq

/-- A request to the block layer. -/
structure BlockRequest where
  isWrite : Bool
  sectorNum : ℕ
  iov : List (Addr × ℕ)
  nbSectors : ℕ
  deriving DecidableEq

structure DMAAIOCB where
  acb : Option BlockRequest
  sectorNum : ℕ
  isWrite : Bool
  sgCurIndex : ℕ
  sgCurByte : ℕ
  iov : List (Addr × ℕ)
  deriving DecidableEq

/-- The request with what the rest of the emulator holds of it. -/
structure Sys where
  dbs : DMAAIOCB
  /-- Registered clients `continue_after_map_failure`. -/
  mapClients : ℕ
  /-- Scheduled bottom halves `reschedule_dma`. -/
  bottomHalves : ℕ
  /-- The results the completion function was called with. -/
  callbacks : List ℤ
  /-- Guest bytes and disk bytes that the block layer has moved, in order. -/
  transferred : List (Addr × ℕ)
  /-- `dma_bdrv_io` returned a request and not NULL. -/
  returned : Bool
  deriving DecidableEq

/-- `iov.size`. -/
def iovSize (iov : List (Addr × ℕ)) : ℕ := (iov.map Prod.snd).sum

/-- The guest bytes of `len` bytes at `addr`. -/
def pieceBytes (addr : Addr) (len : ℕ) : List Addr :=
  (List.range len).map fun k => addr + BitVec.ofNat 64 k

def iovBytes (iov : List (Addr × ℕ)) : List Addr := iov.flatMap fun p => pieceBytes p.1 p.2

/-- What `cpu_physical_memory_map` makes of a length: it refuses, or maps at least one
byte and at most what was asked for. It maps nothing of an empty range. -/
def cpuPhysicalMemoryMap (answer : Option ℕ) (len : ℕ) : Option ℕ :=
  match answer with
  | none => none
  | some n => if len = 0 then none else some (min (n + 1) len)

/-- The `while` loop of `dma_bdrv_cb`. Mapping is refused after the last answer. -/
def mapLoop (sg : List ScatterGatherEntry) : List (Option ℕ) → DMAAIOCB → DMAAIOCB
  | [], dbs => dbs
  | answer :: answers, dbs =>
    match sg[dbs.sgCurIndex]? with
    | none => dbs
    | some entry =>
      match cpuPhysicalMemoryMap answer (entry.len - dbs.sgCurByte) with
      | none => dbs
      | some curLen =>
        let curAddr := entry.base + BitVec.ofNat 64 dbs.sgCurByte
        let iov := dbs.iov ++ [(curAddr, curLen)]
        let curByte := dbs.sgCurByte + curLen
        if curByte = entry.len then
          mapLoop sg answers { dbs with iov := iov, sgCurByte := 0, sgCurIndex := dbs.sgCurIndex + 1 }
        else mapLoop sg answers { dbs with iov := iov, sgCurByte := curByte }

/-- `dma_bdrv_cb`, where `accept` tells whether the block layer takes the request. -/
def dmaBdrvCb (sg : List ScatterGatherEntry) (ret : ℤ) (answers : List (Option ℕ)) (accept : Bool)
    (s : Sys) : Sys :=
  let dbs := { s.dbs with
    acb := none, sectorNum := s.dbs.sectorNum + iovSize s.dbs.iov / 512, iov := [] }
  if dbs.sgCurIndex = sg.length ∨ ret < 0 then
    { s with dbs := dbs, callbacks := s.callbacks ++ [ret] }
  else
    let dbs := mapLoop sg answers dbs
    if iovSize dbs.iov = 0 then { s with dbs := dbs, mapClients := s.mapClients + 1 }
    else if accept then
      { s with dbs := { dbs with
          acb := some ⟨dbs.isWrite, dbs.sectorNum, dbs.iov, iovSize dbs.iov / 512⟩ } }
    else { s with dbs := dbs }

def dmaBdrvIo (sg : List ScatterGatherEntry) (sectorNum : ℕ) (isWrite : Bool)
    (answers : List (Option ℕ)) (accept : Bool) : Sys :=
  let s := dmaBdrvCb sg 0 answers accept ⟨⟨none, sectorNum, isWrite, 0, 0, []⟩, 0, 0, [], [], false⟩
  { s with returned := s.dbs.acb.isSome }

/-- What can happen to a request after `dma_bdrv_io`. A released request stays in the
pool of its driver, so its map client can still run. -/
inductive Event where
  | complete (ret : ℤ) (answers : List (Option ℕ)) (accept : Bool)
  | notifyMapClients
  | runBottomHalf (answers : List (Option ℕ)) (accept : Bool)
  deriving DecidableEq

def BlockRequest.bytes (r : BlockRequest) : List (Addr × ℕ) :=
  ((iovBytes r.iov).take (512 * r.nbSectors)).zip (List.range' (512 * r.sectorNum) (512 * r.nbSectors))

def handle (sg : List ScatterGatherEntry) (s : Sys) : Event → Sys
  | .complete ret answers accept =>
    match s.dbs.acb with
    | none => s
    | some r =>
      let moved := if ret < 0 then s.transferred else s.transferred ++ r.bytes
      dmaBdrvCb sg ret answers accept { s with transferred := moved }
  | .notifyMapClients => { s with mapClients := 0, bottomHalves := s.bottomHalves + s.mapClients }
  | .runBottomHalf answers accept =>
    if s.bottomHalves = 0 then s
    else dmaBdrvCb sg 0 answers accept { s with bottomHalves := s.bottomHalves - 1 }

def guestBytes (sg : List ScatterGatherEntry) : List Addr :=
  sg.flatMap fun entry => pieceBytes entry.base entry.len

/-! ### Pieces -/

theorem length_pieceBytes (addr : Addr) (len : ℕ) : (pieceBytes addr len).length = len := by
  simp [pieceBytes]

theorem pieceBytes_append (addr : Addr) (m n : ℕ) :
    pieceBytes addr (m + n) = pieceBytes addr m ++ pieceBytes (addr + BitVec.ofNat 64 m) n := by
  rw [pieceBytes, List.range_add, List.map_append, List.map_map]
  congr 1
  apply List.map_congr_left
  intro k _
  simp [BitVec.ofNat_add, BitVec.add_assoc]

theorem length_iovBytes (iov : List (Addr × ℕ)) : (iovBytes iov).length = iovSize iov := by
  simp [iovBytes, iovSize, List.length_flatMap, length_pieceBytes]

theorem iovBytes_concat (iov : List (Addr × ℕ)) (p : Addr × ℕ) :
    iovBytes (iov ++ [p]) = iovBytes iov ++ pieceBytes p.1 p.2 := by
  simp [iovBytes]

/-- The guest bytes that are not mapped yet. -/
def unmapped (sg : List ScatterGatherEntry) (dbs : DMAAIOCB) : List Addr :=
  match sg[dbs.sgCurIndex]? with
  | none => []
  | some entry =>
    pieceBytes (entry.base + BitVec.ofNat 64 dbs.sgCurByte) (entry.len - dbs.sgCurByte) ++
      guestBytes (sg.drop (dbs.sgCurIndex + 1))

theorem unmapped_start (sg : List ScatterGatherEntry) (dbs : DMAAIOCB) (h : dbs.sgCurByte = 0) :
    unmapped sg dbs = guestBytes (sg.drop dbs.sgCurIndex) := by
  rw [unmapped, h]
  rcases he : sg[dbs.sgCurIndex]? with _ | entry
  · rw [List.drop_eq_nil_of_le (List.getElem?_eq_none_iff.1 he)]
    rfl
  · obtain ⟨hlt, rfl⟩ := List.getElem?_eq_some_iff.1 he
    rw [List.drop_eq_getElem_cons hlt, guestBytes, guestBytes, List.flatMap_cons]
    simp only [Nat.sub_zero, BitVec.add_zero]

theorem unmapped_end (sg : List ScatterGatherEntry) (dbs : DMAAIOCB) (h : dbs.sgCurIndex = sg.length) :
    unmapped sg dbs = [] := by
  rw [unmapped, h, List.getElem?_eq_none le_rfl]

/-! ### The mapping loop -/

/-- The lengths that are left of the entries, the current one first. -/
def lengthsLeft (sg : List ScatterGatherEntry) (dbs : DMAAIOCB) : List ℕ :=
  match sg[dbs.sgCurIndex]? with
  | none => []
  | some entry =>
    (entry.len - dbs.sgCurByte) :: (sg.drop (dbs.sgCurIndex + 1)).map ScatterGatherEntry.len

/-- How many bytes the memory map grants when the ranges of these lengths are asked for
in turn. -/
def granted : List (Option ℕ) → List ℕ → ℕ
  | [], _ => 0
  | _ :: _, [] => 0
  | none :: _, _ :: _ => 0
  | some n :: answers, len :: lens =>
    if len = 0 then 0
    else if len ≤ n + 1 then len + granted answers lens
    else n + 1 + granted answers ((len - (n + 1)) :: lens)

/-- The current byte lies in the current entry. -/
def Inside (sg : List ScatterGatherEntry) (dbs : DMAAIOCB) : Prop :=
  dbs.sgCurIndex ≤ sg.length ∧
    ∀ entry, sg[dbs.sgCurIndex]? = some entry → dbs.sgCurByte = 0 ∨ dbs.sgCurByte < entry.len

/-- What the loop does: it moves bytes from the front of the unmapped ones to the
vector, as many as are granted. -/
structure Mapped (sg : List ScatterGatherEntry) (answers : List (Option ℕ))
    (dbs dbs' : DMAAIOCB) : Prop where
  bytes : iovBytes dbs'.iov ++ unmapped sg dbs' = iovBytes dbs.iov ++ unmapped sg dbs
  size : iovSize dbs'.iov = iovSize dbs.iov + granted answers (lengthsLeft sg dbs)
  inside : Inside sg dbs'
  acb : dbs'.acb = dbs.acb
  sectorNum : dbs'.sectorNum = dbs.sectorNum
  isWrite : dbs'.isWrite = dbs.isWrite

theorem lengthsLeft_start (sg : List ScatterGatherEntry) (dbs : DMAAIOCB) (h : dbs.sgCurByte = 0) :
    lengthsLeft sg dbs = (sg.drop dbs.sgCurIndex).map ScatterGatherEntry.len := by
  rw [lengthsLeft, h]
  rcases he : sg[dbs.sgCurIndex]? with _ | entry
  · rw [List.drop_eq_nil_of_le (List.getElem?_eq_none_iff.1 he)]
    rfl
  · obtain ⟨hlt, rfl⟩ := List.getElem?_eq_some_iff.1 he
    rw [List.drop_eq_getElem_cons hlt, List.map_cons]
    rfl

section Pass

variable {sg : List ScatterGatherEntry} {dbs : DMAAIOCB} {entry : ScatterGatherEntry} {n : ℕ}
  {answers : List (Option ℕ)}

theorem mapped_last_piece (he : sg[dbs.sgCurIndex]? = some entry)
    (h0 : entry.len - dbs.sgCurByte ≠ 0) (hn : entry.len - dbs.sgCurByte ≤ n + 1) {dbs' : DMAAIOCB}
    (h : Mapped sg answers { dbs with
      iov := dbs.iov ++ [(entry.base + BitVec.ofNat 64 dbs.sgCurByte, entry.len - dbs.sgCurByte)],
      sgCurByte := 0, sgCurIndex := dbs.sgCurIndex + 1 } dbs') :
    Mapped sg (some n :: answers) dbs dbs' := by
  obtain ⟨hbytes, hsize, hinside, hacb, hsector, hwrite⟩ := h
  refine ⟨?_, ?_, hinside, hacb, hsector, hwrite⟩
  · rw [hbytes, unmapped_start _ _ rfl, iovBytes_concat, List.append_assoc, unmapped, he]
  · rw [hsize, lengthsLeft_start _ _ rfl, lengthsLeft, he, granted, if_neg h0, if_pos hn]
    simp [iovSize, Nat.add_assoc]

theorem mapped_piece (he : sg[dbs.sgCurIndex]? = some entry)
    (hn : n + 1 < entry.len - dbs.sgCurByte) {dbs' : DMAAIOCB}
    (h : Mapped sg answers { dbs with
      iov := dbs.iov ++ [(entry.base + BitVec.ofNat 64 dbs.sgCurByte, n + 1)],
      sgCurByte := dbs.sgCurByte + (n + 1) } dbs') :
    Mapped sg (some n :: answers) dbs dbs' := by
  obtain ⟨hbytes, hsize, hinside, hacb, hsector, hwrite⟩ := h
  have hlen : entry.len - dbs.sgCurByte = n + 1 + (entry.len - (dbs.sgCurByte + (n + 1))) := by omega
  refine ⟨?_, ?_, hinside, hacb, hsector, hwrite⟩
  · rw [hbytes, iovBytes_concat, unmapped, unmapped, he]
    dsimp only
    rw [hlen, pieceBytes_append _ (n + 1), BitVec.ofNat_add, ← BitVec.add_assoc]
    simp only [List.append_assoc]
  · rw [hsize, lengthsLeft, lengthsLeft, he, granted, if_neg (by omega), if_neg (by omega)]
    simp [iovSize, Nat.add_assoc, Nat.sub_sub]

theorem mapped_refl (hin : Inside sg dbs) (h0 : granted answers (lengthsLeft sg dbs) = 0) :
    Mapped sg answers dbs dbs :=
  ⟨rfl, by rw [h0, Nat.add_zero], hin, rfl, rfl, rfl⟩

theorem mapped_mapLoop (sg : List ScatterGatherEntry) :
    ∀ (answers : List (Option ℕ)) (dbs : DMAAIOCB), Inside sg dbs →
      Mapped sg answers dbs (mapLoop sg answers dbs)
  | [], dbs, hin => mapped_refl hin (by rw [granted])
  | answer :: answers, dbs, hin => by
    rw [mapLoop]
    rcases he : sg[dbs.sgCurIndex]? with _ | entry
    · exact mapped_refl hin (by rw [lengthsLeft, he, granted])
    · dsimp only
      rcases answer with _ | n
      · exact mapped_refl hin (by rw [lengthsLeft, he, granted])
      · rw [cpuPhysicalMemoryMap]
        by_cases h0 : entry.len - dbs.sgCurByte = 0
        · rw [if_pos h0]
          exact mapped_refl hin (by rw [lengthsLeft, he, granted, if_pos h0])
        · rw [if_neg h0]
          dsimp only
          by_cases hn : entry.len - dbs.sgCurByte ≤ n + 1
          · rw [min_eq_right hn, if_pos (by omega)]
            apply mapped_last_piece he h0 hn
            apply mapped_mapLoop
            have hlt := (List.getElem?_eq_some_iff.1 he).1
            exact ⟨Nat.succ_le_of_lt hlt, fun _ _ => .inl rfl⟩
          · rw [min_eq_left (by omega), if_neg (by omega)]
            apply mapped_piece he (by omega)
            apply mapped_mapLoop
            refine ⟨hin.1, fun entry' he' => .inr ?_⟩
            rw [show sg[dbs.sgCurIndex]? = some entry' from he', Option.some_inj] at he
            subst he
            show dbs.sgCurByte + (n + 1) < _
            omega

end Pass

end Ar7Qemu.Dma
