import Mathlib.Data.List.Perm.Subperm
import Mathlib.Data.List.Range
import Ar7Qemu.Lib.Run
import Ar7Qemu.Lib.RingIndex
import Ar7Qemu.Virtio.Queue

/-! The virtqueue protocol. However the two parties interleave and however often the 16-bit
indices wrap, the device pops what the guest has published, in that order, and the guest reads
what the device has completed. The count of elements in use is right until a reset that comes
while the device is still working on an element: the reset does not clear it. -/

namespace Ar7Qemu.Virtio

open Lib Lib.RingIndex

/-- The used elements that the guest has yet to read, as it finds them in the ring. -/
def guestView (s : Sys) : List UsedElem :=
  if s.vq.ready then
    (List.range (s.vq.vring.usedIdx - BitVec.ofNat 16 s.consumed.length).toNat).map fun i =>
      s.vq.vring.usedRing ((s.consumed.length + i) % s.vq.vring.num)
  else []

/-- The identities of the elements in the device's hands: completed, filled in and in work. -/
def Sys.ids (s : Sys) : List (BitVec 32) :=
  s.completed.map UsedElem.id ++ s.batch.map (fun b => b.2.id) ++ s.inflight.map fun e => e.index.setWidth 32

/-- The protocol: the heads are popped in the order of their publication, the queue is empty
when all of them are, each popped element is in work, filled in or completed once, the guest
finds exactly the completed elements in the used ring, and the count in use is right. -/
structure Right (s : Sys) : Prop where
  alive : s.exited = false
  order : s.popped <+: s.published
  empty : s.vq.ready = true → (virtioQueueEmpty s.vq = true ↔ s.popped = s.published)
  once : s.ids.Perm (s.popped.map (BitVec.setWidth 32))
  used : s.consumed ++ guestView s = s.completed
  inuse : s.vq.inuse = s.popped.length - s.completed.length

/-- A reset comes only when no element is in use. -/
def ResetSafe (s : Sys) : Event → Prop
  | .reset => s.vq.inuse = 0
  | _ => True

section

variable (maps : BitVec 64 → BitVec 32 → Bool → Bool) (k : ℕ)

/-- The memory of a ring that is in use. -/
structure Live (s : Sys) : Prop where
  avail : s.vq.vring.availIdx = BitVec.ofNat 16 s.published.length
  offered : Holds s.vq.vring.availRing (2 ^ k) s.published s.popped.length
  valid : ∀ h ∈ s.pending, validHead maps (2 ^ k) s.vq.vring.desc h = true
  used : s.vq.vring.usedIdx = BitVec.ofNat 16 s.completed.length
  returned : Holds s.vq.vring.usedRing (2 ^ k) s.completed s.consumed.length
  filled : ∀ idx u, s.batch.lookup idx = some u →
    s.vq.vring.usedRing ((s.completed.length + idx) % 2 ^ k) = u ∧
      s.completed.length + idx < s.consumed.length + 2 ^ k

structure Inv (s : Sys) : Prop where
  num : s.vq.vring.num = 2 ^ k
  alive : s.exited = false
  order : s.popped <+: s.published
  read : s.consumed <+: s.completed
  room : s.published.length ≤ s.consumed.length + 2 ^ k
  once : s.ids.Perm (s.popped.map (BitVec.setWidth 32))
  keys : (s.batch.map Prod.fst).Nodup
  lastAvail : s.vq.lastAvailIdx = BitVec.ofNat 16 s.popped.length
  live : s.vq.ready = true → Live maps k s
  idle : s.vq.ready = false → s.published = [] ∧ s.popped = [] ∧ s.inflight = [] ∧ s.batch = [] ∧
    s.completed = [] ∧ s.consumed = []

end

/-! ### Chains -/

section

variable {maps : BitVec 64 → BitVec 32 → Bool → Bool} {k : ℕ}

theorem add_index (e : Element) (d : VRingDesc) : (e.add d).index = e.index := by
  unfold Element.add
  split_ifs <;> rfl

theorem add_size (e : Element) (d : VRingDesc) : (e.add d).size = e.size + 1 := by
  unfold Element.add Element.size
  split_ifs
  · simp only [List.length_append, List.length_singleton]
    omega
  · simp only [List.length_append, List.length_singleton]
    omega

/-- A chain that ends in time is taken in without an exit. -/
theorem popLoop_ok {vq : VirtQueue} : ∀ {n fuel i : ℕ} {e : Element},
    chainEnds maps vq.vring.num vq.vring.desc n i = true → e.size + n ≤ vq.vring.num → n ≤ fuel →
      ∃ e', popLoop maps vq fuel i e = .ok e' ∧ e'.index = e.index
  | 0, _, _, _, h, _, _ => by cases h
  | _ + 1, 0, _, _, _, _, hf => by omega
  | n + 1, fuel + 1, i, e, h, hsize, hf => by
    rw [chainEnds, Bool.and_eq_true, Bool.or_eq_true, Bool.not_eq_true', Bool.and_eq_true, decide_eq_true_iff] at h
    obtain ⟨hmaps, hnext⟩ := h
    rw [popLoop, if_neg (by rw [hmaps]; exact nofun), if_neg (by rw [add_size]; omega), virtqueueNextDesc]
    by_cases hflag : vringDescFNext (vq.vring.desc i) = true
    · obtain ⟨hlt, hrest⟩ := hnext.resolve_left (by rw [hflag]; exact nofun)
      rw [if_pos hflag, if_neg (by omega)]
      have hrec : ∃ e', popLoop maps vq fuel (vq.vring.desc i).next.toNat (e.add (vq.vring.desc i)) = .ok e' ∧
          e'.index = (e.add (vq.vring.desc i)).index :=
        popLoop_ok hrest (by rw [add_size]; omega) (by omega)
      obtain ⟨e', he', hindex⟩ := hrec
      refine ⟨e', ?_, hindex.trans (add_index ..)⟩
      show (if (vq.vring.desc i).next.toNat = vq.vring.num then _ else _) = _
      rw [if_neg (by omega), he']
    · rw [if_neg hflag]
      refine ⟨_, ?_, add_index e (vq.vring.desc i)⟩
      show (if vq.vring.num = vq.vring.num then _ else _) = _
      rw [if_pos rfl]

/-! ### Filled elements -/

theorem lookup_snoc {batch : List (ℕ × UsedElem)} {i j : ℕ} {u : UsedElem} :
    (batch ++ [(i, u)]).lookup j = (batch.lookup j).or (if j = i then some u else none) := by
  rw [List.lookup_append]
  congr 1
  by_cases h : j = i
  · simp [h]
  · rw [if_neg h, List.lookup_cons, beq_false_of_ne h]
    rfl

theorem lookup_isNone {batch : List (ℕ × UsedElem)} {i : ℕ} : batch.lookup i = none ↔ i ∉ batch.map Prod.fst := by
  rw [List.lookup_eq_none_iff]
  simp only [List.mem_map, not_exists, not_and, bne_iff_ne, ne_eq]
  exact ⟨fun h b hb hi => h b hb hi.symm, fun h b hb hi => h b hb hi.symm⟩

theorem filterMap_lookup : ∀ {batch : List (ℕ × UsedElem)}, (batch.map Prod.fst).Nodup →
    (batch.map Prod.fst).filterMap (fun i => batch.lookup i) = batch.map Prod.snd
  | [], _ => rfl
  | (i, u) :: batch, h => by
    rw [List.map_cons, List.nodup_cons] at h
    have htail : (batch.map Prod.fst).filterMap (fun j => ((i, u) :: batch).lookup j) =
        (batch.map Prod.fst).filterMap fun j => batch.lookup j := by
      refine List.filterMap_congr fun j hj => ?_
      have hne : j ≠ i := fun hji => h.1 (hji ▸ hj)
      rw [List.lookup_cons, beq_false_of_ne hne]
    rw [List.map_cons, List.filterMap_cons, List.lookup_cons_self, htail, filterMap_lookup h.2]
    rfl

section

variable {batch : List (ℕ × UsedElem)} (hkeys : (batch.map Prod.fst).Nodup)
    (hall : ∀ i < batch.length, (batch.lookup i).isSome = true)

include hall in
theorem getElem?_flushed {i : ℕ} (hi : i < batch.length) : (flushed batch)[i]? = batch.lookup i := by
  have hpart : ∀ n ≤ batch.length, ((List.range n).filterMap fun i => batch.lookup i).length = n ∧
      ∀ i < n, ((List.range n).filterMap fun i => batch.lookup i)[i]? = batch.lookup i := by
    intro n
    induction n with
    | zero => exact fun _ => ⟨rfl, fun i hi => by omega⟩
    | succ n ih =>
      intro hn
      obtain ⟨hlen, hget⟩ := ih (by omega)
      obtain ⟨u, hu⟩ := Option.isSome_iff_exists.1 (hall n (by omega))
      rw [List.range_succ, List.filterMap_append, List.filterMap_cons, hu, List.filterMap_nil]
      refine ⟨by rw [List.length_append, hlen, List.length_singleton], fun i hi => ?_⟩
      by_cases hin : i < n
      · rw [List.getElem?_append_left (by omega), hget i hin]
      · obtain rfl : i = n := by omega
        rw [List.getElem?_append_right (by omega), hlen, Nat.sub_self, hu]
        rfl
  exact (hpart batch.length le_rfl).2 i hi

include hkeys hall in
theorem flushed_perm : (flushed batch).Perm (batch.map Prod.snd) := by
  have hsub : List.range batch.length ⊆ batch.map Prod.fst := by
    intro i hi
    by_contra hnot
    have hsome := hall i (List.mem_range.1 hi)
    rw [lookup_isNone.2 hnot] at hsome
    cases hsome
  have hperm : (List.range batch.length).Perm (batch.map Prod.fst) :=
    (List.subperm_of_subset List.nodup_range hsub).perm_of_length_le (by simp)
  rw [← filterMap_lookup hkeys]
  exact hperm.filterMap _

include hkeys hall in
theorem length_flushed : (flushed batch).length = batch.length := by
  rw [(flushed_perm hkeys hall).length_eq, List.length_map]

end

/-! ### Steps -/

section

variable {s t : Sys}

theorem Inv.lengths (h : Inv maps k s) : s.completed.length + s.batch.length + s.inflight.length = s.popped.length ∧
    s.popped.length ≤ s.published.length ∧ s.consumed.length ≤ s.completed.length := by
  have hlen := h.once.length_eq
  simp only [Sys.ids, List.length_append, List.length_map] at hlen
  exact ⟨hlen, h.order.length_le, h.read.length_le⟩

theorem getElem?_eraseIdx_perm {α : Type*} {l : List α} {n : ℕ} {x : α} (h : l[n]? = some x) :
    l.Perm (x :: l.eraseIdx n) := by
  obtain ⟨hn, rfl⟩ := List.getElem?_eq_some_iff.1 h
  exact (List.getElem_cons_eraseIdx_perm hn).symm

theorem inv_enable (h : Inv maps k s) {desc : ℕ → VRingDesc} {zeroRing : ℕ → UsedElem}
    (hstep : s.step maps (.enable desc zeroRing) = some t) : Inv maps k t := by
  rw [Sys.step] at hstep
  split_ifs at hstep with hready
  cases hstep
  obtain ⟨hpub, hpop, hfly, hbatch, hcomp, hcons⟩ := h.idle (by simpa using hready)
  refine ⟨h.num, h.alive, h.order, h.read, h.room, h.once, h.keys, h.lastAvail, fun _ => ?_, nofun⟩
  refine ⟨?_, ?_, ?_, ?_, ?_, ?_⟩
  · simp only [hpub, List.length_nil]
    rfl
  · simp only [hpub]
    exact holds_nil _ _ _
  · intro head hhead
    simp [Sys.pending, hpub] at hhead
  · simp only [hcomp, List.length_nil]
    rfl
  · simp only [hcomp]
    exact holds_nil _ _ _
  · intro idx u hu
    rw [hbatch] at hu
    cases hu

theorem inv_setDesc (h : Inv maps k s) {desc : ℕ → VRingDesc} (hstep : s.step maps (.setDesc desc) = some t) :
    Inv maps k t := by
  rw [Sys.step] at hstep
  split_ifs at hstep with hguard
  cases hstep
  obtain ⟨hready, hvalid⟩ := hguard
  have hl := h.live hready
  refine ⟨h.num, h.alive, h.order, h.read, h.room, h.once, h.keys, h.lastAvail, fun _ => ?_, h.idle⟩
  refine ⟨hl.avail, hl.offered, ?_, hl.used, hl.returned, hl.filled⟩
  rw [List.all_eq_true, h.num] at hvalid
  exact hvalid

theorem inv_publish (h : Inv maps k s) (hk : k < 16) {head : BitVec 16} (hstep : s.step maps (.publish head) = some t) :
    Inv maps k t := by
  rw [Sys.step] at hstep
  split_ifs at hstep with hguard
  cases hstep
  obtain ⟨hready, hhead, hroom⟩ := hguard
  rw [h.num] at hhead hroom
  have hl := h.live hready
  obtain ⟨hlen, hpop, hcons⟩ := h.lengths
  have hslot : s.vq.vring.availIdx.toNat % s.vq.vring.num = s.published.length % 2 ^ k := by
    rw [h.num]
    have := toNat_ofNat_mod hk.le s.published.length 0
    rwa [Nat.zero_add, Nat.add_zero, ← hl.avail] at this
  refine ⟨h.num, h.alive, h.order.trans (List.prefix_append ..), h.read, ?_, h.once, h.keys, h.lastAvail,
    fun _ => ⟨?_, ?_, ?_, hl.used, hl.returned, hl.filled⟩, fun hr => ?_⟩
  · show (s.published ++ [head]).length ≤ s.consumed.length + 2 ^ k
    rw [List.length_append, List.length_singleton]
    omega
  · show s.vq.vring.availIdx + 1 = BitVec.ofNat 16 (s.published ++ [head]).length
    rw [hl.avail, List.length_append, List.length_singleton, BitVec.ofNat_add]
    rfl
  · show Holds (Function.update s.vq.vring.availRing (s.vq.vring.availIdx.toNat % s.vq.vring.num) head) (2 ^ k)
      (s.published ++ [head]) s.popped.length
    rw [hslot]
    exact hl.offered.push (by omega) head
  · intro head' hmem
    have hdrop : (s.published ++ [head]).drop s.popped.length = s.pending ++ [head] :=
      List.drop_append_of_le_length hpop
    change head' ∈ (s.published ++ [head]).drop s.popped.length at hmem
    rw [hdrop, List.mem_append, List.mem_singleton] at hmem
    rcases hmem with hmem | rfl
    · exact hl.valid head' hmem
    · exact hhead
  · exact absurd (hready.symm.trans hr) nofun

theorem inv_consume (h : Inv maps k s) (hstep : s.step maps .consume = some t) : Inv maps k t := by
  rw [Sys.step] at hstep
  split_ifs at hstep with hguard
  cases hstep
  obtain ⟨hready, hne⟩ := hguard
  have hl := h.live hready
  obtain ⟨hlen, hpop, hcons⟩ := h.lengths
  have hlt : s.consumed.length < s.completed.length := by
    rcases Nat.lt_or_eq_of_le hcons with hlt | heq
    · exact hlt
    · rw [hl.used, heq] at hne
      exact absurd rfl hne
  obtain ⟨u, hu⟩ : ∃ u, s.completed[s.consumed.length]? = some u := ⟨_, List.getElem?_eq_getElem hlt⟩
  have hread : s.vq.vring.usedRing (s.consumed.length % s.vq.vring.num) = u := by
    rw [h.num]
    exact hl.returned _ u le_rfl hu
  have hprefix : s.consumed ++ [u] <+: s.completed := by
    obtain ⟨rest, hrest⟩ := h.read
    rw [← hrest, List.getElem?_append_right le_rfl, Nat.sub_self] at hu
    obtain ⟨tail, rfl⟩ : ∃ tail, rest = u :: tail := by
      cases rest with
      | nil => cases hu
      | cons v tail =>
        cases hu
        exact ⟨tail, rfl⟩
    exact ⟨tail, by rw [← hrest, List.append_assoc, List.singleton_append]⟩
  rw [hread]
  have hlenc : (s.consumed ++ [u]).length = s.consumed.length + 1 := by
    rw [List.length_append, List.length_singleton]
  refine ⟨h.num, h.alive, h.order, hprefix, ?_, h.once, h.keys, h.lastAvail,
    fun _ => ⟨hl.avail, hl.offered, hl.valid, hl.used, ?_, ?_⟩, fun hr => ?_⟩
  · show s.published.length ≤ (s.consumed ++ [u]).length + 2 ^ k
    have := h.room
    omega
  · show Holds s.vq.vring.usedRing (2 ^ k) s.completed (s.consumed ++ [u]).length
    exact hl.returned.mono (by omega)
  · intro idx v hv
    obtain ⟨hring, hroom⟩ := hl.filled idx v hv
    refine ⟨hring, ?_⟩
    show s.completed.length + idx < (s.consumed ++ [u]).length + 2 ^ k
    omega
  · exact absurd (hready.symm.trans hr) nofun

/-- What the device gets from a queue in use. -/
theorem virtqueuePop_eq (h : Inv maps k s) (hk : k < 16) (hready : s.vq.ready = true) :
    (s.pending = [] ∧ virtqueuePop maps s.vq = .ok (s.vq, none)) ∨
      ∃ head rest e, s.pending = head :: rest ∧ e.index = head ∧ virtqueuePop maps s.vq =
        .ok ({ s.vq with lastAvailIdx := s.vq.lastAvailIdx + 1, inuse := s.vq.inuse + 1 }, some e) := by
  have hl := h.live hready
  obtain ⟨hlen, hpop, hcons⟩ := h.lengths
  have hroom := h.room
  have hpow : 2 ^ k < 2 ^ 16 := Nat.pow_lt_pow_right (by decide) hk
  have hheads : virtqueueNumHeads s.vq s.vq.lastAvailIdx = .ok (s.published.length - s.popped.length) := by
    rw [virtqueueNumHeads, h.lastAvail, hl.avail, toNat_sub_ofNat hpop (by omega), h.num]
    exact if_neg (by omega)
  unfold virtqueuePop
  rw [hheads]
  show (_ ∧ (if s.published.length - s.popped.length = 0 then _ else _) = _) ∨
    ∃ head rest e, _ ∧ _ ∧ (if s.published.length - s.popped.length = 0 then _ else _) = _
  by_cases hempty : s.published.length - s.popped.length = 0
  · rw [if_pos hempty]
    exact .inl ⟨List.drop_eq_nil_of_le (by omega), rfl⟩
  · rw [if_neg hempty]
    refine .inr ?_
    obtain ⟨head, hhead⟩ : ∃ head, s.published[s.popped.length]? = some head :=
      ⟨_, List.getElem?_eq_getElem (by omega)⟩
    have hpending : s.pending = head :: s.published.drop (s.popped.length + 1) := by
      obtain ⟨hlt, rfl⟩ := List.getElem?_eq_some_iff.1 hhead
      exact List.drop_eq_getElem_cons hlt
    have hvalid := hl.valid head (by rw [hpending]; exact List.mem_cons_self ..)
    rw [validHead, Bool.and_eq_true, decide_eq_true_iff, ← h.num] at hvalid
    have hslot : s.vq.vring.availRing (s.vq.lastAvailIdx.toNat % s.vq.vring.num) = head := by
      rw [h.lastAvail, h.num]
      have hmod := toNat_ofNat_mod hk.le s.popped.length 0
      rw [Nat.zero_add, Nat.add_zero] at hmod
      rw [hmod]
      exact hl.offered _ head le_rfl hhead
    have hget : virtqueueGetHead s.vq s.vq.lastAvailIdx = .ok head := by
      rw [virtqueueGetHead, hslot]
      exact if_neg (by omega)
    have hloop : ∃ e, popLoop maps s.vq (s.vq.vring.num + 1) head.toNat ⟨head, [], []⟩ = .ok e ∧ e.index = head :=
      popLoop_ok hvalid.2 (by simp [Element.size]) (by omega)
    obtain ⟨e, he, hindex⟩ := hloop
    refine ⟨head, _, e, hpending, hindex, ?_⟩
    rw [hget]
    show (popLoop maps s.vq (s.vq.vring.num + 1) head.toNat ⟨head, [], []⟩ >>= _) = _
    rw [he]
    rfl

theorem inv_pop (h : Inv maps k s) (hk : k < 16) (hstep : s.step maps .pop = some t) : Inv maps k t := by
  rw [Sys.step] at hstep
  split_ifs at hstep with hready
  have hl := h.live hready
  rcases virtqueuePop_eq h hk hready with ⟨-, hpop⟩ | ⟨head, rest, e, hpending, hindex, hpop⟩
  · rw [hpop] at hstep
    cases hstep
    exact h
  · rw [hpop] at hstep
    cases hstep
    have hdrop : s.published.drop (s.popped.length + 1) = rest := by
      rw [← List.tail_drop]
      exact congrArg List.tail hpending
    have hpub : s.popped ++ head :: rest = s.published := by
      obtain ⟨tail, htail⟩ := h.order
      rw [← hpending, Sys.pending, ← htail, List.drop_left]
    have hlenp : (s.popped ++ [e.index]).length = s.popped.length + 1 := by
      rw [List.length_append, List.length_singleton]
    refine ⟨h.num, h.alive, ⟨rest, ?_⟩, h.read, h.room, ?_, h.keys, ?_,
      fun _ => ⟨hl.avail, ?_, ?_, hl.used, hl.returned, hl.filled⟩, fun hr => ?_⟩
    · show s.popped ++ [e.index] ++ rest = s.published
      rw [hindex, List.append_assoc, List.singleton_append, hpub]
    · show (s.completed.map UsedElem.id ++ s.batch.map (fun b => b.2.id) ++
        (s.inflight ++ [e]).map fun e => e.index.setWidth 32).Perm ((s.popped ++ [e.index]).map (BitVec.setWidth 32))
      rw [List.map_append, List.map_append, ← List.append_assoc]
      exact h.once.append (List.Perm.refl _)
    · show s.vq.lastAvailIdx + 1 = BitVec.ofNat 16 (s.popped ++ [e.index]).length
      rw [h.lastAvail, hlenp, BitVec.ofNat_add]
      rfl
    · show Holds s.vq.vring.availRing (2 ^ k) s.published (s.popped ++ [e.index]).length
      exact hl.offered.mono (by omega)
    · intro head' hmem
      change head' ∈ s.published.drop (s.popped ++ [e.index]).length at hmem
      rw [hlenp, hdrop] at hmem
      exact hl.valid head' (by rw [hpending]; exact List.mem_cons_of_mem _ hmem)
    · exact absurd (hready.symm.trans hr) nofun

theorem Live.slot (hl : Live maps k s) (hk : k < 16) (hnum : s.vq.vring.num = 2 ^ k) (idx : ℕ) :
    (idx + s.vq.vring.usedIdx.toNat) % s.vq.vring.num = (s.completed.length + idx) % 2 ^ k := by
  rw [hl.used, hnum, toNat_ofNat_mod hk.le]

theorem inv_fill (h : Inv maps k s) (hk : k < 16) {n : ℕ} {len : BitVec 32} {idx : ℕ}
    (hstep : s.step maps (.fill n len idx) = some t) : Inv maps k t := by
  rw [Sys.step] at hstep
  split at hstep
  · cases hstep
  rename_i e he
  split_ifs at hstep with hguard
  cases hstep
  obtain ⟨hready, hnone, hroom⟩ := hguard
  rw [h.num] at hroom
  have hl := h.live hready
  have hslot := hl.slot hk h.num idx
  have hfree : s.batch.lookup idx = none := by simpa using hnone
  refine ⟨h.num, h.alive, h.order, h.read, h.room, ?_, ?_, h.lastAvail,
    fun _ => ⟨hl.avail, hl.offered, hl.valid, hl.used, ?_, ?_⟩, fun hr => ?_⟩
  · show (s.completed.map UsedElem.id ++ (s.batch ++ [(idx, e.used len)]).map (fun b => b.2.id) ++
      (s.inflight.eraseIdx n).map fun e => e.index.setWidth 32).Perm (s.popped.map (BitVec.setWidth 32))
    refine List.Perm.trans ?_ h.once
    rw [Sys.ids, List.map_append, ← List.append_assoc, List.append_assoc]
    exact ((getElem?_eraseIdx_perm he).map fun e => e.index.setWidth 32).symm.append_left _
  · show ((s.batch ++ [(idx, e.used len)]).map Prod.fst).Nodup
    rw [List.map_append, List.map_singleton, List.nodup_append]
    refine ⟨h.keys, List.nodup_singleton _, fun a ha b hb => ?_⟩
    rw [List.mem_singleton] at hb
    subst hb
    rintro rfl
    exact lookup_isNone.1 hfree ha
  · show Holds (Function.update s.vq.vring.usedRing ((idx + s.vq.vring.usedIdx.toNat) % s.vq.vring.num) _) (2 ^ k)
      s.completed s.consumed.length
    rw [hslot]
    exact hl.returned.update (by omega) hroom _
  · intro idx' u hu
    change (s.batch ++ [(idx, e.used len)]).lookup idx' = some u at hu
    show Function.update s.vq.vring.usedRing ((idx + s.vq.vring.usedIdx.toNat) % s.vq.vring.num) (e.used len)
      ((s.completed.length + idx') % 2 ^ k) = u ∧ s.completed.length + idx' < s.consumed.length + 2 ^ k
    rw [hslot]
    rw [lookup_snoc] at hu
    by_cases hidx : idx' = idx
    · subst hidx
      rw [hfree, if_pos rfl, Option.none_or] at hu
      cases hu
      exact ⟨Function.update_self .., hroom⟩
    · rw [if_neg hidx, Option.or_none] at hu
      obtain ⟨hring, hroom'⟩ := hl.filled idx' u hu
      have hcons := h.lengths.2.2
      refine ⟨?_, hroom'⟩
      rw [Function.update_of_ne, hring]
      rcases Nat.lt_or_gt_of_ne hidx with hlt | hlt
      · exact mod_ne_mod (by omega) (by omega)
      · exact (mod_ne_mod (by omega) (by omega)).symm
  · exact absurd (hready.symm.trans hr) nofun

theorem inv_flush (h : Inv maps k s) {count : ℕ} (hstep : s.step maps (.flush count) = some t) : Inv maps k t := by
  rw [Sys.step] at hstep
  split_ifs at hstep with hguard
  cases hstep
  obtain ⟨hready, rfl, hall⟩ := hguard
  have hall' : ∀ i < s.batch.length, (s.batch.lookup i).isSome = true := by
    intro i hi
    exact List.all_eq_true.1 hall i (List.mem_range.2 hi)
  have hl := h.live hready
  have hlen := length_flushed h.keys hall'
  refine ⟨h.num, h.alive, h.order, h.read.trans (List.prefix_append ..), h.room, ?_, List.nodup_nil, h.lastAvail,
    fun _ => ⟨hl.avail, hl.offered, hl.valid, ?_, ?_, nofun⟩, fun hr => ?_⟩
  · show ((s.completed ++ flushed s.batch).map UsedElem.id ++ [] ++ _).Perm _
    refine List.Perm.trans ?_ h.once
    rw [Sys.ids, List.map_append, List.append_nil]
    refine List.Perm.append_right _ (List.Perm.append_left _ ?_)
    have := (flushed_perm h.keys hall').map UsedElem.id
    rwa [List.map_map] at this
  · show s.vq.vring.usedIdx + BitVec.ofNat 16 s.batch.length = BitVec.ofNat 16 (s.completed ++ flushed s.batch).length
    rw [hl.used, List.length_append, hlen, BitVec.ofNat_add]
  · show Holds s.vq.vring.usedRing (2 ^ k) (s.completed ++ flushed s.batch) s.consumed.length
    refine hl.returned.append fun i x hx => ?_
    have hi : i < s.batch.length := by
      rw [← hlen]
      exact (List.getElem?_eq_some_iff.1 hx).1
    rw [getElem?_flushed hall' hi] at hx
    exact (hl.filled i x hx).1
  · exact absurd (hready.symm.trans hr) nofun

theorem inv_push (h : Inv maps k s) (hk : k < 16) {n : ℕ} {len : BitVec 32}
    (hstep : s.step maps (.push n len) = some t) : Inv maps k t := by
  rw [Sys.step] at hstep
  split at hstep
  · cases hstep
  rename_i e he
  split_ifs at hstep with hguard
  cases hstep
  obtain ⟨hready, hbatch⟩ := hguard
  have hl := h.live hready
  have hslot := hl.slot hk h.num 0
  have hfly : 0 < s.inflight.length := by
    have := (List.getElem?_eq_some_iff.1 he).1
    omega
  obtain ⟨hlen, hpop, hcons⟩ := h.lengths
  have hroom := h.room
  refine ⟨h.num, h.alive, h.order, h.read.trans (List.prefix_append ..), h.room, ?_, h.keys, h.lastAvail,
    fun _ => ⟨hl.avail, hl.offered, hl.valid, ?_, ?_, ?_⟩, fun hr => ?_⟩
  · show ((s.completed ++ [e.used len]).map UsedElem.id ++ s.batch.map (fun b => b.2.id) ++
      (s.inflight.eraseIdx n).map fun e => e.index.setWidth 32).Perm (s.popped.map (BitVec.setWidth 32))
    refine List.Perm.trans ?_ h.once
    rw [Sys.ids, hbatch, List.map_nil, List.append_nil, List.append_nil, List.map_append, List.append_assoc]
    exact ((getElem?_eraseIdx_perm he).map fun e => e.index.setWidth 32).symm.append_left _
  · show s.vq.vring.usedIdx + BitVec.ofNat 16 1 = BitVec.ofNat 16 (s.completed ++ [e.used len]).length
    rw [hl.used, List.length_append, List.length_singleton, BitVec.ofNat_add]
  · show Holds (Function.update s.vq.vring.usedRing ((0 + s.vq.vring.usedIdx.toNat) % s.vq.vring.num) _) (2 ^ k)
      (s.completed ++ [e.used len]) s.consumed.length
    rw [hslot, Nat.add_zero]
    exact hl.returned.push (by omega) _
  · intro idx u hu
    change s.batch.lookup idx = some u at hu
    rw [hbatch] at hu
    cases hu
  · exact absurd (hready.symm.trans hr) nofun

theorem inv_reset (h : Inv maps k s) (hstep : s.step maps .reset = some t) : Inv maps k t := by
  cases hstep
  exact ⟨h.num, h.alive, List.prefix_rfl, List.prefix_rfl, Nat.zero_le _, List.Perm.refl _, List.nodup_nil, rfl,
    nofun, fun _ => ⟨rfl, rfl, rfl, rfl, rfl, rfl⟩⟩

theorem inv_step (h : Inv maps k s) (hk : k < 16) {e : Event} (hstep : s.step maps e = some t) : Inv maps k t := by
  cases e with
  | enable desc zeroRing => exact inv_enable h hstep
  | setDesc desc => exact inv_setDesc h hstep
  | publish head => exact inv_publish h hk hstep
  | consume => exact inv_consume h hstep
  | pop => exact inv_pop h hk hstep
  | fill n len idx => exact inv_fill h hk hstep
  | flush count => exact inv_flush h hstep
  | push n len => exact inv_push h hk hstep
  | reset => exact inv_reset h hstep

/-- The count in use stays right, but for a reset. -/
theorem inuse_step (h : Inv maps k s) (hk : k < 16) (hin : s.vq.inuse = s.popped.length - s.completed.length)
    {e : Event} (hstep : s.step maps e = some t) :
    t.vq.inuse = t.popped.length - t.completed.length ↔ ResetSafe s e := by
  have hall : ∀ {u : Sys}, u.vq.inuse = s.vq.inuse → u.popped = s.popped → u.completed = s.completed →
      (u.vq.inuse = u.popped.length - u.completed.length ↔ True) := by
    intro u h₁ h₂ h₃
    rw [h₁, h₂, h₃, hin]
    simp
  cases e with
  | enable desc zeroRing | setDesc desc | publish head | consume =>
    rw [Sys.step] at hstep
    split_ifs at hstep
    cases hstep
    exact hall rfl rfl rfl
  | pop =>
    rw [Sys.step] at hstep
    split_ifs at hstep with hready
    rcases virtqueuePop_eq h hk hready with ⟨-, hpop⟩ | ⟨head, rest, e, -, -, hpop⟩
    · rw [hpop] at hstep
      cases hstep
      exact hall rfl rfl rfl
    · rw [hpop] at hstep
      cases hstep
      refine ⟨fun _ => trivial, fun _ => ?_⟩
      show s.vq.inuse + 1 = ((s.popped ++ [e.index]).length : ℤ) - s.completed.length
      rw [hin, List.length_append, List.length_singleton]
      omega
  | fill n len idx =>
    rw [Sys.step] at hstep
    split at hstep
    · cases hstep
    split_ifs at hstep
    cases hstep
    exact hall rfl rfl rfl
  | flush count =>
    rw [Sys.step] at hstep
    split_ifs at hstep with hguard
    cases hstep
    obtain ⟨-, rfl, hsome⟩ := hguard
    have hlen : (flushed s.batch).length = s.batch.length :=
      length_flushed h.keys fun i hi => List.all_eq_true.1 hsome i (List.mem_range.2 hi)
    refine ⟨fun _ => trivial, fun _ => ?_⟩
    show s.vq.inuse - s.batch.length = (s.popped.length : ℤ) - (s.completed ++ flushed s.batch).length
    rw [hin, List.length_append, hlen]
    omega
  | push n len =>
    rw [Sys.step] at hstep
    split at hstep
    · cases hstep
    rename_i e he
    split_ifs at hstep
    cases hstep
    refine ⟨fun _ => trivial, fun _ => ?_⟩
    show s.vq.inuse - (1 : ℕ) = (s.popped.length : ℤ) - (s.completed ++ [e.used len]).length
    rw [hin, List.length_append, List.length_singleton]
    omega
  | reset =>
    cases hstep
    show s.vq.inuse = (([] : List (BitVec 16)).length : ℤ) - ([] : List UsedElem).length ↔ s.vq.inuse = 0
    simp

/-! ### Runs -/

theorem Inv.right (h : Inv maps k s) (hk : k < 16) (hin : s.vq.inuse = s.popped.length - s.completed.length) :
    Right s := by
  obtain ⟨hlen, hpop, hcons⟩ := h.lengths
  have hroom := h.room
  have hpow : 2 ^ k < 2 ^ 16 := Nat.pow_lt_pow_right (by decide) hk
  refine ⟨h.alive, h.order, fun hready => ?_, h.once, ?_, hin⟩
  · rw [virtioQueueEmpty, decide_eq_true_iff, (h.live hready).avail, h.lastAvail, ofNat_eq_iff hpop (by omega)]
    exact ⟨fun heq => h.order.eq_of_length heq.symm, fun heq => by rw [heq]⟩
  · unfold guestView
    by_cases hready : s.vq.ready = true
    · have hl := h.live hready
      rw [if_pos hready, hl.used, toNat_sub_ofNat hcons (by omega), h.num, hl.returned.read]
      obtain ⟨rest, hrest⟩ := h.read
      rw [← hrest, List.drop_left]
    · obtain ⟨-, -, -, -, hcomp, hconsumed⟩ := h.idle (by simpa using hready)
      rw [if_neg hready, hcomp, hconsumed]
      rfl

theorem inv_init (desc : ℕ → VRingDesc) (zeroRing : ℕ → UsedElem) : Inv maps k (Sys.init (2 ^ k) desc zeroRing) :=
  ⟨rfl, rfl, List.prefix_rfl, List.prefix_rfl, Nat.zero_le _, List.Perm.refl _, List.nodup_nil, rfl, nofun,
    fun _ => ⟨rfl, rfl, rfl, rfl, rfl, rfl⟩⟩

end

end

/-- A guest with one buffer per descriptor, all of them in memory. -/
def oneBuffer : ℕ → VRingDesc := fun _ => ⟨0x1000, 512, 0, 0⟩

def noUsed : ℕ → UsedElem := fun _ => ⟨0, 0⟩

end Ar7Qemu.Virtio
