import Ar7Qemu.Lib.Run
import Ar7Qemu.Block.Dma

/-! Runs of a DMA request. As long as every pass maps whole sectors and later passes
are accepted, the request waits for exactly one event until its completion function is
called, and on success byte `k` of the guest buffers was moved to or from byte `k` of
the sector range. -/

namespace Ar7Qemu.Dma

open Lib

def outstanding (s : Sys) : ℕ := s.dbs.acb.toList.length + s.mapClients + s.bottomHalves

/-- Byte `k` of the guest buffers against byte `k` of the sector range. -/
def wanted (sg : List ScatterGatherEntry) (sectorNum : ℕ) : List (Addr × ℕ) :=
  (guestBytes sg).zip (List.range' (512 * sectorNum) (guestBytes sg).length)

/-- The contract of `dma_bdrv_read` and `dma_bdrv_write` in a state: a request that was
returned waits for one event, or has called its completion function once and waits for
nothing; after NULL nothing was called and nothing is registered. -/
def Correct (sg : List ScatterGatherEntry) (sectorNum : ℕ) (s : Sys) : Prop :=
  (s.returned = true →
    (s.callbacks = [] ∧ outstanding s = 1) ∨
    (outstanding s = 0 ∧ ∃ ret, s.callbacks = [ret] ∧ (0 ≤ ret → s.transferred = wanted sg sectorNum))) ∧
  (s.returned = false → s.callbacks = [] ∧ outstanding s = 0)

/-! ### Conditions -/

def FirstPass (sg : List ScatterGatherEntry) (answers : List (Option ℕ)) : Prop :=
  0 < granted answers (sg.map ScatterGatherEntry.len) ∧
    512 ∣ granted answers (sg.map ScatterGatherEntry.len)

instance (sg : List ScatterGatherEntry) (answers : List (Option ℕ)) : Decidable (FirstPass sg answers) :=
  inferInstanceAs (Decidable (_ ∧ _))

/-- A later pass does not start at an empty entry, maps whole sectors, and the block layer
accepts what it maps. -/
def LaterPass (sg : List ScatterGatherEntry) (dbs : DMAAIOCB) (answers : List (Option ℕ))
    (accept : Bool) : Prop :=
  sg[dbs.sgCurIndex]?.map ScatterGatherEntry.len ≠ some 0 ∧
    512 ∣ granted answers (lengthsLeft sg dbs) ∧
    (granted answers (lengthsLeft sg dbs) ≠ 0 → accept = true)

instance (sg : List ScatterGatherEntry) (dbs : DMAAIOCB) (answers : List (Option ℕ)) (accept : Bool) :
    Decidable (LaterPass sg dbs answers accept) :=
  inferInstanceAs (Decidable (_ ∧ _ ∧ _))

/-- The condition on an event. -/
def PassOk (sg : List ScatterGatherEntry) (s : Sys) : Event → Prop
  | .complete ret answers accept => s.dbs.acb ≠ none → 0 ≤ ret → LaterPass sg s.dbs answers accept
  | .notifyMapClients => True
  | .runBottomHalf answers accept => s.bottomHalves ≠ 0 → LaterPass sg s.dbs answers accept

instance (sg : List ScatterGatherEntry) (s : Sys) : ∀ e, Decidable (PassOk sg s e)
  | .complete _ _ _ => inferInstanceAs (Decidable (_ → _ → _))
  | .notifyMapClients => instDecidableTrue
  | .runBottomHalf _ _ => inferInstanceAs (Decidable (_ → _))

/-- The event is one that the request waits for. -/
def Enabled (s : Sys) : Event → Prop
  | .complete _ _ _ => s.dbs.acb ≠ none
  | .notifyMapClients => s.mapClients ≠ 0
  | .runBottomHalf _ _ => s.bottomHalves ≠ 0

def refused (answers : List (Option ℕ)) : ℕ :=
  match answers with
  | some _ :: _ => 0
  | _ => 1

def refusals : Event → ℕ
  | .complete _ answers _ => refused answers
  | .notifyMapClients => 0
  | .runBottomHalf answers _ => refused answers

/-! ### Invariant -/

section Invariant

variable {sg : List ScatterGatherEntry} {sector sectorNum : ℕ} {s : Sys} {r : BlockRequest}

def Moved (sg : List ScatterGatherEntry) (sector : ℕ) (s : Sys) (sectorNum : ℕ)
    (rest : List Addr) : Prop :=
  ∃ moved : List Addr, s.transferred = moved.zip (List.range' (512 * sector) moved.length) ∧
    moved ++ rest = guestBytes sg ∧ 512 * sectorNum = 512 * sector + moved.length

/-- The request is under way. -/
structure Going (sg : List ScatterGatherEntry) (sector : ℕ) (s : Sys) : Prop where
  callbacks : s.callbacks = []
  moved : Moved sg sector s s.dbs.sectorNum (iovBytes s.dbs.iov ++ unmapped sg s.dbs)
  whole : 512 ∣ iovSize s.dbs.iov
  inside : Inside sg s.dbs
  waits : (s.dbs.acb = some ⟨s.dbs.isWrite, s.dbs.sectorNum, s.dbs.iov, iovSize s.dbs.iov / 512⟩ ∧
      iovSize s.dbs.iov ≠ 0 ∧ s.mapClients = 0 ∧ s.bottomHalves = 0) ∨
    (s.dbs.acb = none ∧ iovSize s.dbs.iov = 0 ∧ s.mapClients + s.bottomHalves = 1)

/-- The completion function has been called. -/
structure Done (sg : List ScatterGatherEntry) (sector : ℕ) (s : Sys) : Prop where
  waits : outstanding s = 0
  called : ∃ ret, s.callbacks = [ret] ∧ (0 ≤ ret → s.transferred = wanted sg sector)

/-- The state of a request that was returned, or of one that was dropped at once. -/
def Tracked (sg : List ScatterGatherEntry) (sector : ℕ) (s : Sys) : Prop :=
  (s.returned = true ∧ (Going sg sector s ∨ Done sg sector s)) ∨
    (s.returned = false ∧ outstanding s = 0 ∧ s.callbacks = [])

theorem Going.outstanding_eq (h : Going sg sector s) : outstanding s = 1 := by
  rcases h.waits with ⟨hacb, -, hm, hb⟩ | ⟨hacb, -, hw⟩
  · simp [outstanding, hacb, hm, hb]
  · simp [outstanding, hacb, hw]

theorem Tracked.correct (h : Tracked sg sector s) : Correct sg sector s := by
  rcases h with ⟨hret, hgoing | hdone⟩ | ⟨hret, hout, hcb⟩
  · exact ⟨fun _ => .inl ⟨hgoing.callbacks, hgoing.outstanding_eq⟩,
      fun hn => absurd (hret.symm.trans hn) (by decide)⟩
  · exact ⟨fun _ => .inr ⟨hdone.waits, hdone.called⟩, fun hn => absurd (hret.symm.trans hn) (by decide)⟩
  · exact ⟨fun hn => absurd (hret.symm.trans hn) (by decide), fun _ => ⟨hcb, hout⟩⟩

/-- A finished block request has moved the bytes of its vector. -/
theorem Going.moved_all (h : Going sg sector s) (hacb : s.dbs.acb = some r) :
    Moved sg sector { s with transferred := s.transferred ++ r.bytes }
      (s.dbs.sectorNum + iovSize s.dbs.iov / 512) (unmapped sg s.dbs) := by
  obtain ⟨moved, htr, hall, hsector⟩ := h.moved
  have hr : r = ⟨s.dbs.isWrite, s.dbs.sectorNum, s.dbs.iov, iovSize s.dbs.iov / 512⟩ := by
    rcases h.waits with ⟨hs, -⟩ | ⟨hn, -⟩
    · rw [hacb, Option.some_inj] at hs
      exact hs
    · rw [hacb] at hn
      exact absurd hn (by simp)
  have hsize : 512 * (iovSize s.dbs.iov / 512) = iovSize s.dbs.iov := Nat.mul_div_cancel' h.whole
  refine ⟨moved ++ iovBytes s.dbs.iov, ?_, by rw [List.append_assoc, hall], ?_⟩
  · rw [hr, BlockRequest.bytes, htr]
    dsimp only
    rw [hsize, hsector, ← length_iovBytes, List.take_length, List.length_append,
      ← List.range'_append_1, List.zip_append (by simp)]
  · rw [Nat.mul_add, hsize, hsector, List.length_append, length_iovBytes, Nat.add_assoc]

/-- A bound on the events that are still to come when no pass is refused. -/
def weight (sg : List ScatterGatherEntry) (s : Sys) : ℕ :=
  if s.callbacks = [] then
    ((iovBytes s.dbs.iov).length + (unmapped sg s.dbs).length) / 512 + 2 * s.mapClients + s.bottomHalves
  else 0

end Invariant

/-! ### One pass -/

section Pass

variable {sg : List ScatterGatherEntry} {sector : ℕ} {s : Sys} {ret : ℤ} {answers : List (Option ℕ)}
  {accept : Bool}

/-- The state in which `dma_bdrv_cb` runs: the vector has been moved and nothing else is
outstanding. -/
structure Ready (sg : List ScatterGatherEntry) (sector : ℕ) (s : Sys) : Prop where
  callbacks : s.callbacks = []
  moved : Moved sg sector s (s.dbs.sectorNum + iovSize s.dbs.iov / 512) (unmapped sg s.dbs)
  inside : Inside sg s.dbs
  mapClients : s.mapClients = 0
  bottomHalves : s.bottomHalves = 0

def resetIov (dbs : DMAAIOCB) : DMAAIOCB :=
  { dbs with acb := none, sectorNum := dbs.sectorNum + iovSize dbs.iov / 512, iov := [] }

theorem dmaBdrvCb_end (h : s.dbs.sgCurIndex = sg.length ∨ ret < 0) :
    dmaBdrvCb sg ret answers accept s =
      { s with dbs := resetIov s.dbs, callbacks := s.callbacks ++ [ret] } := by
  rw [dmaBdrvCb]
  exact if_pos h

theorem dmaBdrvCb_refused (h : ¬ (s.dbs.sgCurIndex = sg.length ∨ ret < 0))
    (h0 : iovSize (mapLoop sg answers (resetIov s.dbs)).iov = 0) :
    dmaBdrvCb sg ret answers accept s =
      { s with dbs := mapLoop sg answers (resetIov s.dbs), mapClients := s.mapClients + 1 } := by
  rw [dmaBdrvCb]
  exact (if_neg h).trans (if_pos h0)

theorem dmaBdrvCb_submit (h : ¬ (s.dbs.sgCurIndex = sg.length ∨ ret < 0))
    (h0 : iovSize (mapLoop sg answers (resetIov s.dbs)).iov ≠ 0) :
    dmaBdrvCb sg ret answers accept s =
      let dbs := mapLoop sg answers (resetIov s.dbs)
      { s with dbs := { dbs with
          acb := if accept then some ⟨dbs.isWrite, dbs.sectorNum, dbs.iov, iovSize dbs.iov / 512⟩
            else dbs.acb } } := by
  rw [dmaBdrvCb]
  refine (if_neg h).trans ((if_neg h0).trans ?_)
  cases accept <;> rfl

theorem mapped_resetIov (hin : Inside sg s.dbs) (answers : List (Option ℕ)) :
    Mapped sg answers (resetIov s.dbs) (mapLoop sg answers (resetIov s.dbs)) :=
  mapped_mapLoop sg answers (resetIov s.dbs) hin

theorem iovSize_mapLoop (hin : Inside sg s.dbs) (answers : List (Option ℕ)) :
    iovSize (mapLoop sg answers (resetIov s.dbs)).iov = granted answers (lengthsLeft sg s.dbs) := by
  have := (mapped_resetIov hin answers).size
  rwa [show iovSize (resetIov s.dbs).iov = 0 from rfl, Nat.zero_add] at this

theorem bytes_mapLoop (hin : Inside sg s.dbs) (answers : List (Option ℕ)) :
    iovBytes (mapLoop sg answers (resetIov s.dbs)).iov ++
      unmapped sg (mapLoop sg answers (resetIov s.dbs)) = unmapped sg s.dbs :=
  (mapped_resetIov hin answers).bytes

theorem iovBytes_eq_nil {iov : List (Addr × ℕ)} (h : iovSize iov = 0) : iovBytes iov = [] := by
  rw [← List.length_eq_zero_iff, length_iovBytes, h]

theorem granted_ne_zero (hin : Inside sg s.dbs) (hidx : s.dbs.sgCurIndex ≠ sg.length)
    (hlen : sg[s.dbs.sgCurIndex]?.map ScatterGatherEntry.len ≠ some 0) (hr : refused answers = 0) :
    granted answers (lengthsLeft sg s.dbs) ≠ 0 := by
  have hlt : s.dbs.sgCurIndex < sg.length := lt_of_le_of_ne hin.1 hidx
  have he : sg[s.dbs.sgCurIndex]? = some sg[s.dbs.sgCurIndex] := List.getElem?_eq_getElem hlt
  have hbyte := hin.2 _ he
  rw [he, Option.map_some, ne_eq, Option.some_inj] at hlen
  match answers, hr with
  | some n :: answers, _ =>
    rw [lengthsLeft, he, granted, if_neg (by omega)]
    split <;> omega

/-- A pass that is accepted. -/
theorem going_submit (h : Ready sg sector s) (hend : ¬ (s.dbs.sgCurIndex = sg.length ∨ ret < 0))
    (hwhole : 512 ∣ granted answers (lengthsLeft sg s.dbs))
    (h0 : granted answers (lengthsLeft sg s.dbs) ≠ 0) :
    Going sg sector (dmaBdrvCb sg ret answers true s) ∧
      weight sg (dmaBdrvCb sg ret answers true s) = (unmapped sg s.dbs).length / 512 := by
  have hsize := iovSize_mapLoop h.inside answers
  have hbytes := bytes_mapLoop h.inside answers
  have hmapped := mapped_resetIov h.inside answers
  rw [dmaBdrvCb_submit hend (by rwa [hsize])]
  refine ⟨⟨h.callbacks, ?_, ?_, hmapped.inside, .inl ⟨rfl, ?_, h.mapClients, h.bottomHalves⟩⟩, ?_⟩
  · show Moved sg sector _ (mapLoop sg answers (resetIov s.dbs)).sectorNum
      (iovBytes (mapLoop sg answers (resetIov s.dbs)).iov ++
        unmapped sg (mapLoop sg answers (resetIov s.dbs)))
    rw [hbytes, hmapped.sectorNum]
    exact h.moved
  · show 512 ∣ iovSize (mapLoop sg answers (resetIov s.dbs)).iov
    rwa [hsize]
  · show iovSize (mapLoop sg answers (resetIov s.dbs)).iov ≠ 0
    rwa [hsize]
  · rw [weight, if_pos h.callbacks, ← hbytes, List.length_append]
    simp [h.mapClients, h.bottomHalves, unmapped]

theorem going_refused (h : Ready sg sector s) (hend : ¬ (s.dbs.sgCurIndex = sg.length ∨ ret < 0))
    (h0 : granted answers (lengthsLeft sg s.dbs) = 0) :
    Going sg sector (dmaBdrvCb sg ret answers accept s) ∧
      weight sg (dmaBdrvCb sg ret answers accept s) = (unmapped sg s.dbs).length / 512 + 2 := by
  have hsize := iovSize_mapLoop h.inside answers
  have hbytes := bytes_mapLoop h.inside answers
  have hmapped := mapped_resetIov h.inside answers
  rw [dmaBdrvCb_refused hend (by rwa [hsize])]
  refine ⟨⟨h.callbacks, ?_, ?_, hmapped.inside, .inr ⟨hmapped.acb, ?_, ?_⟩⟩, ?_⟩
  · show Moved sg sector _ (mapLoop sg answers (resetIov s.dbs)).sectorNum
      (iovBytes (mapLoop sg answers (resetIov s.dbs)).iov ++
        unmapped sg (mapLoop sg answers (resetIov s.dbs)))
    rw [hbytes, hmapped.sectorNum]
    exact h.moved
  · show 512 ∣ iovSize (mapLoop sg answers (resetIov s.dbs)).iov
    rw [hsize, h0]
    exact ⟨0, rfl⟩
  · show iovSize (mapLoop sg answers (resetIov s.dbs)).iov = 0
    rw [hsize, h0]
  · show s.mapClients + 1 + s.bottomHalves = 1
    rw [h.mapClients, h.bottomHalves]
  · rw [weight, if_pos h.callbacks, ← hbytes, List.length_append]
    simp [h.mapClients, h.bottomHalves]

theorem done_end (h : Ready sg sector s) (hend : s.dbs.sgCurIndex = sg.length) :
    Done sg sector (dmaBdrvCb sg ret answers accept s) := by
  rw [dmaBdrvCb_end (.inl hend)]
  refine ⟨?_, ret, by rw [h.callbacks]; rfl, fun _ => ?_⟩
  · simp [outstanding, resetIov, h.mapClients, h.bottomHalves]
  · obtain ⟨moved, htr, hall, -⟩ := h.moved
    rw [unmapped_end _ _ hend, List.append_nil] at hall
    show s.transferred = _
    rw [htr, hall, wanted]

theorem done_error (hcb : s.callbacks = []) (hm : s.mapClients = 0) (hb : s.bottomHalves = 0)
    (hret : ret < 0) : Done sg sector (dmaBdrvCb sg ret answers accept s) := by
  rw [dmaBdrvCb_end (.inr hret)]
  refine ⟨?_, ret, by rw [hcb]; rfl, fun h => absurd hret (by omega)⟩
  simp [outstanding, resetIov, hm, hb]

theorem Done.weight_eq (h : Done sg sector s) : weight sg s = 0 := by
  obtain ⟨ret, hcb, -⟩ := h.called
  rw [weight, hcb, if_neg (by simp)]

/-- A later pass finishes the request or waits for the next event. -/
theorem ready_pass (h : Ready sg sector s) (hret : 0 ≤ ret) (hp : LaterPass sg s.dbs answers accept) :
    (Going sg sector (dmaBdrvCb sg ret answers accept s) ∨
      Done sg sector (dmaBdrvCb sg ret answers accept s)) ∧
    weight sg (dmaBdrvCb sg ret answers accept s) ≤
      (unmapped sg s.dbs).length / 512 + 2 * refused answers := by
  obtain ⟨hlen, hwhole, haccept⟩ := hp
  by_cases hend : s.dbs.sgCurIndex = sg.length
  · have hdone : Done sg sector (dmaBdrvCb sg ret answers accept s) := done_end h hend
    exact ⟨.inr hdone, by rw [hdone.weight_eq]; exact Nat.zero_le _⟩
  · have hgo : ¬ (s.dbs.sgCurIndex = sg.length ∨ ret < 0) := by
      rintro (h' | h')
      · exact hend h'
      · omega
    by_cases h0 : granted answers (lengthsLeft sg s.dbs) = 0
    · obtain ⟨hgoing, hw⟩ : Going sg sector (dmaBdrvCb sg ret answers accept s) ∧ _ :=
        going_refused h hgo h0
      have hr : refused answers ≠ 0 := fun hr => granted_ne_zero h.inside hend hlen hr h0
      exact ⟨.inl hgoing, by omega⟩
    · rw [haccept h0]
      obtain ⟨hgoing, hw⟩ := going_submit h hgo hwhole h0
      exact ⟨.inl hgoing, by omega⟩

end Pass

/-! ### Runs -/

section Run

variable {sg : List ScatterGatherEntry} {sector : ℕ} {s : Sys}

theorem handle_returned (sg : List ScatterGatherEntry) (s : Sys) (e : Event) :
    (handle sg s e).returned = s.returned := by
  cases e with
  | complete ret answers accept =>
    simp only [handle]
    split
    · rfl
    · simp only [dmaBdrvCb]
      split_ifs <;> rfl
  | notifyMapClients => rfl
  | runBottomHalf answers accept =>
    simp only [handle, dmaBdrvCb]
    split_ifs <;> rfl

theorem handle_of_outstanding_eq_zero (h : outstanding s = 0) (e : Event) : handle sg s e = s := by
  have hacb : s.dbs.acb = none := by
    rcases hs : s.dbs.acb with _ | r
    · rfl
    · simp [outstanding, hs] at h
  have hm : s.mapClients = 0 := by simp only [outstanding] at h; omega
  have hb : s.bottomHalves = 0 := by simp only [outstanding] at h; omega
  cases e with
  | complete ret answers accept => simp [handle, hacb]
  | notifyMapClients =>
    obtain ⟨dbs, mapClients, bottomHalves, callbacks, transferred, returned⟩ := s
    simp only at hm
    simp only [handle, hm, Nat.add_zero]
  | runBottomHalf answers accept => simp [handle, hb]

theorem not_enabled_of_outstanding_eq_zero (h : outstanding s = 0) (e : Event) : ¬ Enabled s e := by
  simp only [outstanding] at h
  cases e with
  | complete ret answers accept =>
    rintro hne
    rcases hs : s.dbs.acb with _ | r
    · exact hne hs
    · simp [hs] at h
  | notifyMapClients => exact fun hne => hne (by omega)
  | runBottomHalf answers accept => exact fun hne => hne (by omega)

theorem Going.weight_eq (h : Going sg sector s) :
    weight sg s = ((iovBytes s.dbs.iov).length + (unmapped sg s.dbs).length) / 512 +
      2 * s.mapClients + s.bottomHalves := by
  rw [weight, if_pos h.callbacks]

/-- One event of a request that is under way. -/
theorem going_handle (h : Going sg sector s) {e : Event} (hok : PassOk sg s e) :
    (Going sg sector (handle sg s e) ∨ Done sg sector (handle sg s e)) ∧
      (Enabled s e → weight sg (handle sg s e) + 1 ≤ weight sg s + 2 * refusals e) := by
  rw [h.weight_eq]
  cases e with
  | complete ret answers accept =>
    rcases hs : s.dbs.acb with _ | r
    · simp only [handle, hs]
      exact ⟨.inl h, fun hen => absurd hs hen⟩
    · obtain ⟨-, hne, hm, hb⟩ | ⟨hn, -⟩ := h.waits
      · have hlen : 512 ≤ (iovBytes s.dbs.iov).length := by
          rw [length_iovBytes]
          exact Nat.le_of_dvd (Nat.pos_of_ne_zero hne) h.whole
        simp only [handle, hs, refusals]
        by_cases hret : ret < 0
        · have hdone : Done sg sector (dmaBdrvCb sg ret answers accept
              { s with transferred := if ret < 0 then s.transferred else s.transferred ++ r.bytes }) :=
            done_error h.callbacks hm hb hret
          exact ⟨.inr hdone, fun _ => by rw [hdone.weight_eq]; omega⟩
        · have hready : Ready sg sector { s with transferred := s.transferred ++ r.bytes } :=
            ⟨h.callbacks, h.moved_all hs, h.inside, hm, hb⟩
          rw [if_neg hret]
          have hpos : 0 ≤ ret := by omega
          obtain ⟨hres, hw⟩ := ready_pass hready hpos (hok (by rw [hs]; simp) hpos)
          refine ⟨hres, fun _ => ?_⟩
          have hw' : _ ≤ (unmapped sg s.dbs).length / 512 + 2 * refused answers := hw
          omega
      · rw [hs] at hn
        exact absurd hn (by simp)
  | notifyMapClients =>
    rcases h.waits with ⟨hacb, hne, hm, hb⟩ | ⟨hacb, hsize, hw⟩
    · refine ⟨.inl ⟨h.callbacks, h.moved, h.whole, h.inside, .inl ⟨hacb, hne, rfl, ?_⟩⟩,
        fun hen => absurd hm hen⟩
      show s.bottomHalves + s.mapClients = 0
      omega
    · have hgoing : Going sg sector (handle sg s .notifyMapClients) := by
        refine ⟨h.callbacks, h.moved, h.whole, h.inside, .inr ⟨hacb, hsize, ?_⟩⟩
        show 0 + (s.bottomHalves + s.mapClients) = 1
        omega
      refine ⟨.inl hgoing, fun hen => ?_⟩
      rw [hgoing.weight_eq]
      have hen' : s.mapClients ≠ 0 := hen
      show ((iovBytes s.dbs.iov).length + (unmapped sg s.dbs).length) / 512 + 2 * 0 +
        (s.bottomHalves + s.mapClients) + 1 ≤ _
      omega
  | runBottomHalf answers accept =>
    by_cases hb : s.bottomHalves = 0
    · simp only [handle, hb, if_pos]
      exact ⟨.inl h, fun hen => absurd hb hen⟩
    · simp only [handle, if_neg hb, refusals]
      rcases h.waits with ⟨-, -, -, hb'⟩ | ⟨hacb, hsize, hw⟩
      · exact absurd hb' hb
      · have hready : Ready sg sector { s with bottomHalves := s.bottomHalves - 1 } := by
          refine ⟨h.callbacks, ?_, h.inside, ?_, ?_⟩
          · show Moved sg sector _ (s.dbs.sectorNum + iovSize s.dbs.iov / 512) (unmapped sg s.dbs)
            have := h.moved
            rw [iovBytes_eq_nil hsize, List.nil_append] at this
            rwa [hsize]
          · show s.mapClients = 0
            omega
          · show s.bottomHalves - 1 = 0
            omega
        obtain ⟨hres, hw'⟩ := ready_pass hready (Int.le_refl 0) (hok hb)
        refine ⟨hres, fun _ => ?_⟩
        have hw'' : _ ≤ (unmapped sg s.dbs).length / 512 + 2 * refused answers := hw'
        rw [iovBytes_eq_nil hsize]
        simp only [List.length_nil, Nat.zero_add]
        omega

theorem tracked_handle (h : Tracked sg sector s) {e : Event} (hok : PassOk sg s e) :
    Tracked sg sector (handle sg s e) ∧
      (Enabled s e → weight sg (handle sg s e) + 1 ≤ weight sg s + 2 * refusals e) := by
  rcases h with ⟨hret, hgoing | hdone⟩ | hdropped
  · obtain ⟨hres, hw⟩ := going_handle hgoing hok
    exact ⟨.inl ⟨by rw [handle_returned, hret], hres⟩, hw⟩
  · rw [handle_of_outstanding_eq_zero hdone.waits]
    exact ⟨.inl ⟨hret, .inr hdone⟩,
      fun hen => absurd hen (not_enabled_of_outstanding_eq_zero hdone.waits e)⟩
  · rw [handle_of_outstanding_eq_zero hdropped.2.1]
    exact ⟨.inr hdropped, fun hen => absurd hen (not_enabled_of_outstanding_eq_zero hdropped.2.1 e)⟩

theorem length_le_weight : ∀ (events : List Event) (s : Sys), Tracked sg sector s →
    Meets (handle sg) (PassOk sg) s events → Meets (handle sg) Enabled s events →
    events.length ≤ weight sg s + 2 * (events.map refusals).sum
  | [], _, _, _, _ => by simp
  | e :: events, s, h, hok, hen => by
    obtain ⟨htracked, hw⟩ := tracked_handle h hok.1
    have ih := length_le_weight events _ htracked hok.2 hen.2
    have hw := hw hen.1
    simp only [List.length_cons, List.map_cons, List.sum_cons]
    omega

/-- The first pass submits a request, or `dma_bdrv_io` returns NULL and keeps nothing. -/
theorem tracked_dmaBdrvIo {answers : List (Option ℕ)} (h : FirstPass sg answers) (sector : ℕ)
    (isWrite accept : Bool) :
    Tracked sg sector (dmaBdrvIo sg sector isWrite answers accept) ∧
      weight sg (dmaBdrvIo sg sector isWrite answers accept) ≤ (guestBytes sg).length / 512 := by
  let s0 : Sys := ⟨⟨none, sector, isWrite, 0, 0, []⟩, 0, 0, [], [], false⟩
  have hstart : unmapped sg s0.dbs = guestBytes sg := unmapped_start sg s0.dbs rfl
  have hlens : lengthsLeft sg s0.dbs = sg.map ScatterGatherEntry.len := lengthsLeft_start sg s0.dbs rfl
  have hready : Ready sg sector s0 :=
    ⟨rfl, ⟨[], rfl, hstart, by simp [s0, iovSize]⟩, ⟨Nat.zero_le _, fun _ _ => .inl rfl⟩, rfl, rfl⟩
  obtain ⟨hpos, hwhole⟩ := h
  rw [← hlens] at hpos hwhole
  have hne : ¬ (s0.dbs.sgCurIndex = sg.length ∨ (0 : ℤ) < 0) := by
    rintro (h0 | h0)
    · rw [hlens, List.eq_nil_of_length_eq_zero h0.symm] at hpos
      cases answers <;> simp [granted] at hpos
    · exact absurd h0 (by decide)
  cases accept with
  | true =>
    obtain ⟨hgoing, hw⟩ := going_submit hready hne hwhole (by omega)
    have hacb : (dmaBdrvCb sg 0 answers true s0).dbs.acb.isSome = true := by
      rcases hgoing.waits with ⟨hacb, -⟩ | ⟨hacb, -, hm⟩
      · rw [hacb]
        rfl
      · rw [dmaBdrvCb_submit hne (by rw [iovSize_mapLoop hready.inside]; omega)] at hacb
        simp at hacb
    refine ⟨.inl ⟨hacb, .inl ⟨hgoing.callbacks, hgoing.moved, hgoing.whole, hgoing.inside,
      hgoing.waits⟩⟩, ?_⟩
    rw [hstart] at hw
    exact hw.le
  | false =>
    have hmapped := mapped_resetIov hready.inside answers
    have hcb : dmaBdrvCb sg 0 answers false s0 = { s0 with dbs := mapLoop sg answers (resetIov s0.dbs) } :=
      dmaBdrvCb_submit hne (by rw [iovSize_mapLoop hready.inside]; omega)
    have hio : dmaBdrvIo sg sector isWrite answers false =
        { s0 with dbs := mapLoop sg answers (resetIov s0.dbs) } := by
      show { dmaBdrvCb sg 0 answers false s0 with
        returned := (dmaBdrvCb sg 0 answers false s0).dbs.acb.isSome } = _
      rw [hcb]
      simp only [hmapped.acb]
      rfl
    rw [hio]
    refine ⟨.inr ⟨rfl, ?_, rfl⟩, ?_⟩
    · show (mapLoop sg answers (resetIov s0.dbs)).acb.toList.length + 0 + 0 = 0
      rw [hmapped.acb]
      rfl
    · rw [weight, if_pos rfl, ← hstart, ← bytes_mapLoop hready.inside answers, List.length_append]
      exact le_rfl

/-- Every run of a DMA request that meets the conditions keeps the contract of
`dma_bdrv_read` and `dma_bdrv_write`, and every awaited event brings the request closer to
its completion unless a mapping is refused. -/
theorem dmaBdrvIo_correct (sg : List ScatterGatherEntry) (sector : ℕ) (isWrite accept : Bool)
    (answers : List (Option ℕ)) (events : List Event) (hfirst : FirstPass sg answers)
    (hlater : Meets (handle sg) (PassOk sg) (dmaBdrvIo sg sector isWrite answers accept) events) :
    (∀ t ∈ states (handle sg) (dmaBdrvIo sg sector isWrite answers accept) events,
      Correct sg sector t) ∧
    (Meets (handle sg) Enabled (dmaBdrvIo sg sector isWrite answers accept) events →
      events.length ≤ (guestBytes sg).length / 512 + 2 * (events.map refusals).sum) := by
  obtain ⟨htracked, hw⟩ := tracked_dmaBdrvIo hfirst sector isWrite accept
  constructor
  · intro t ht
    exact (states_invariant (P := Tracked sg sector) (fun _ _ h hok => (tracked_handle h hok).1)
      events _ htracked hlater t ht).correct
  · intro hen
    have := length_le_weight events _ htracked hlater hen
    omega

/-- Two entries that are mapped in two passes, with a refusal between them. -/
def twoPasses : List Event :=
  [.complete 0 [none] true, .notifyMapClients, .runBottomHalf [some 2047] true, .complete 0 [] true]

theorem dmaBdrvIo_correct_twoPasses :
    FirstPass [⟨0x1000, 1024⟩, ⟨0x8000, 512⟩] [some 2047] ∧
    ∀ t ∈ states (handle [⟨0x1000, 1024⟩, ⟨0x8000, 512⟩])
      (dmaBdrvIo [⟨0x1000, 1024⟩, ⟨0x8000, 512⟩] 7 false [some 2047] true) twoPasses,
      Correct [⟨0x1000, 1024⟩, ⟨0x8000, 512⟩] 7 t :=
  ⟨by decide, (dmaBdrvIo_correct [⟨0x1000, 1024⟩, ⟨0x8000, 512⟩] 7 false true [some 2047] twoPasses (by decide)
    (by decide)).1⟩

/-- A refused first mapping: NULL is returned, and the retry still calls the completion
function. -/
theorem null_and_called :
    ¬ ∀ t ∈ states (handle [⟨0x1000, 512⟩]) (dmaBdrvIo [⟨0x1000, 512⟩] 0 false [] true)
      [.notifyMapClients, .runBottomHalf [some 511] true, .complete 0 [] true],
      Correct [⟨0x1000, 512⟩] 0 t := by
  intro h
  have hlast := h _ (foldl_mem_states _ _)
  exact absurd (hlast.2 (by decide)).1 (by decide)

end Run

end Ar7Qemu.Dma
