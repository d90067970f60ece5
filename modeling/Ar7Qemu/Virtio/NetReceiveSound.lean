import Ar7Qemu.Virtio.NetReceive

/-! What becomes of a frame. It is dropped, or it goes with its header into as many elements as it takes,
whenever the elements that the guest offers have room for both. Otherwise the emulator stops with a part
of the frame in the ring. -/

namespace Ar7Qemu.Virtio.NetReceive

open Lib Scatter NetFilter

/-- A frame, whose size is an `int`. -/
structure Frame where
  bytes : List UInt8
  short : bytes.length < 2 ^ 31

def Filled.bytes (f : Filled) : List (Option UInt8) := (List.range f.total).map f.area

/-- The header: no flags, no type, four fields that are left, and the number of elements, if the header has
it. -/
def headerBytes (mergeable : Bool) (num : ℕ) : List (Option UInt8) :=
  [some 0, some 0] ++ List.replicate 8 none ++
    if mergeable then [some (UInt8.ofNat (num % 256)), some (UInt8.ofNat (num / 256 % 256))] else []

/-- The elements that have been pushed hold the header and the frame. -/
structure Pushed (n : VirtIONet) (frame : List UInt8) (n' : VirtIONet) (filled : List Filled) : Prop where
  some_filled : filled ≠ []
  bytes : filled.flatMap Filled.bytes = headerBytes n.mergeableRxBufs filled.length ++ frame.map some
  heads : ∀ k f, filled[k]? = some f →
    f.index = n.rxVq.vring.availRing ((n.rxVq.lastAvailIdx + BitVec.ofNat 16 k).toNat % n.rxVq.vring.num)
  used : ∀ k f, filled[k]? = some f →
    n'.rxVq.vring.usedRing ((k + n.rxVq.vring.usedIdx.toNat) % n.rxVq.vring.num) =
      ⟨f.index.setWidth 32, BitVec.ofNat 32 f.total⟩
  lengths : (filled.map fun f => (BitVec.ofNat 32 f.total).toNat).sum = hdrLen n.mergeableRxBufs + frame.length
  usedIdx : n'.rxVq.vring.usedIdx = n.rxVq.vring.usedIdx + BitVec.ofNat 16 filled.length
  lastAvailIdx : n'.rxVq.lastAvailIdx = n.rxVq.lastAvailIdx + BitVec.ofNat 16 filled.length
  inuse : n'.rxVq.inuse = n.rxVq.inuse

/-- The frame is dropped and the ring is as it was, or the frame is pushed. -/
def AllOrNothing (n : VirtIONet) (frame : List UInt8) (r : Option (Except Stop (VirtIONet × List Filled))) : Prop :=
  ∃ n' filled, r = some (.ok (n', filled)) ∧ (filled = [] ∧ n'.rxVq = n.rxVq ∨ Pushed n frame n' filled)

/-! ### The condition -/

section

variable (maps : BitVec 64 → BitVec 32 → Bool → Bool)

/-- The elements that the guest offers next. -/
def Pops : VirtQueue → List Element → Prop
  | _, [] => True
  | vq, e :: es => ∃ vq', virtqueuePop maps vq = .ok (vq', some e) ∧ Pops vq' es

def capacity (e : Element) : ℕ := (e.inSg.map fun b => b.2.toNat).sum

/-- The first buffer of an element holds the header, or is the header. -/
def HeaderFits (mergeable : Bool) (e : Element) : Prop :=
  ∀ b ∈ e.inSg.head?, if mergeable then hdrLen true ≤ b.2.toNat else b.2.toNat = hdrLen false

/-- The elements of the ring have in buffers, and room for so many bytes. -/
structure Room (mergeable isFirst : Bool) (vq : VirtQueue) (need : ℕ) (elems : List Element) : Prop where
  pops : Pops maps vq elems
  inBuffers : ∀ e ∈ elems, e.inSg ≠ []
  header : isFirst = true → ∀ e ∈ elems.head?, HeaderFits mergeable e
  single : mergeable = false → isFirst = true ∧ elems.length ≤ 1
  enough : need ≤ (elems.map capacity).sum

/-- The frame is not taken, or its header and itself have room in the next elements, which without merging
is the next one. -/
def Fits (n : VirtIONet) (frame : List UInt8) : Prop :=
  ∃ accepted n', doVirtioNetCanReceive n frame.length = some (.ok (accepted, n')) ∧
    (accepted = true → receiveFilter n.filter n.mac (fun i => frame.getD i 0) = true → frame ≠ [] →
      ∃ elems, Room maps n.mergeableRxBufs true n.rxVq (hdrLen n.mergeableRxBufs + frame.length) elems)

end

/-! ### Taking an element -/

section

variable {maps : BitVec 64 → BitVec 32 → Bool → Bool}

/-- The elements that are not yet popped. -/
def heads (vq : VirtQueue) : ℕ := (vq.vring.availIdx - vq.lastAvailIdx).toNat

theorem bind_ok {ε α β : Type} {x : Except ε α} {f : α → Except ε β} {b : β} (h : (x >>= f) = .ok b) :
    ∃ a, x = .ok a ∧ f a = .ok b := by
  cases x with
  | error e => cases h
  | ok a => exact ⟨a, rfl, h⟩

theorem popLoop_index {vq : VirtQueue} : ∀ {fuel i : ℕ} {e e' : Element}, popLoop maps vq fuel i e = .ok e' →
    e'.index = e.index
  | 0, _, _, _, h => by cases h
  | fuel + 1, i, e, e', h => by
    have hadd : (e.add (vq.vring.desc i)).index = e.index := by
      unfold Element.add
      split <;> rfl
    rw [popLoop] at h
    split at h
    · cases h
    · split at h
      · cases h
      · obtain ⟨next, -, hnext⟩ := bind_ok h
        split at hnext
        · cases hnext
          exact hadd
        · exact (popLoop_index hnext).trans hadd

/-- What a pop that finds an element does. -/
theorem virtqueuePop_some {vq vq' : VirtQueue} {e : Element} (h : virtqueuePop maps vq = .ok (vq', some e)) :
    0 < heads vq ∧ heads vq ≤ vq.vring.num ∧
      e.index = vq.vring.availRing (vq.lastAvailIdx.toNat % vq.vring.num) ∧
      vq' = { vq with lastAvailIdx := vq.lastAvailIdx + 1, inuse := vq.inuse + 1 } := by
  unfold virtqueuePop at h
  obtain ⟨num, hnum, h⟩ := bind_ok h
  unfold virtqueueNumHeads at hnum
  dsimp only at hnum
  split at hnum
  · cases hnum
  next hle =>
    cases hnum
    split at h
    · cases h
    next hpos =>
      obtain ⟨head, hhead, hpop⟩ := bind_ok h
      obtain ⟨elem, helem, hok⟩ := bind_ok hpop
      unfold virtqueueGetHead at hhead
      dsimp only at hhead
      split at hhead
      · cases hhead
      · cases hhead
        cases hok
        exact ⟨Nat.pos_of_ne_zero hpos, not_lt.1 hle, popLoop_index helem, rfl⟩

theorem virtqueuePop_none {vq vq' : VirtQueue} (h : virtqueuePop maps vq = .ok (vq', none)) : vq' = vq ∧ heads vq = 0 := by
  unfold virtqueuePop at h
  obtain ⟨num, hnum, h⟩ := bind_ok h
  unfold virtqueueNumHeads at hnum
  dsimp only at hnum
  split at hnum
  · cases hnum
  · cases hnum
    split at h
    next hzero =>
      cases h
      exact ⟨rfl, hzero⟩
    next =>
      obtain ⟨head, -, hpop⟩ := bind_ok h
      obtain ⟨elem, -, hok⟩ := bind_ok hpop
      cases hok

def withUsed (vq : VirtQueue) (used : ℕ → UsedElem) : VirtQueue := { vq with vring := { vq.vring with usedRing := used } }

theorem popLoop_withUsed (vq : VirtQueue) (used : ℕ → UsedElem) : ∀ (fuel i : ℕ) (e : Element),
    popLoop maps (withUsed vq used) fuel i e = popLoop maps vq fuel i e := by
  intro fuel
  induction fuel with
  | zero => exact fun _ _ => rfl
  | succ fuel ih =>
    intro i e
    unfold popLoop
    simp only [ih]
    rfl

theorem virtqueuePop_withUsed (vq : VirtQueue) (used : ℕ → UsedElem) :
    virtqueuePop maps (withUsed vq used) = (virtqueuePop maps vq).map fun r => (withUsed r.1 used, r.2) := by
  have hheads : virtqueueNumHeads (withUsed vq used) (withUsed vq used).lastAvailIdx = virtqueueNumHeads vq vq.lastAvailIdx := rfl
  have hhead : virtqueueGetHead (withUsed vq used) (withUsed vq used).lastAvailIdx = virtqueueGetHead vq vq.lastAvailIdx := rfl
  have hnum : (withUsed vq used).vring.num = vq.vring.num := rfl
  unfold virtqueuePop
  rw [hheads, hhead, hnum]
  cases virtqueueNumHeads vq vq.lastAvailIdx with
  | error why => rfl
  | ok num =>
    show (if num = 0 then _ else _) = Except.map _ (if num = 0 then _ else _)
    split
    · rfl
    · cases virtqueueGetHead vq vq.lastAvailIdx with
      | error why => rfl
      | ok head =>
        show (popLoop maps (withUsed vq used) _ _ _ >>= _) = Except.map _ (popLoop maps vq _ _ _ >>= _)
        rw [popLoop_withUsed]
        cases popLoop maps vq (vq.vring.num + 1) head.toNat ⟨head, [], []⟩ <;> rfl

theorem pops_withUsed (used : ℕ → UsedElem) : ∀ {elems : List Element} {vq : VirtQueue},
    Pops maps (withUsed vq used) elems ↔ Pops maps vq elems := by
  intro elems
  induction elems with
  | nil => exact Iff.rfl
  | cons e elems ih =>
    intro vq
    constructor
    · rintro ⟨vq', hpop, hrest⟩
      rw [virtqueuePop_withUsed] at hpop
      cases hvq : virtqueuePop maps vq with
      | error why => rw [hvq] at hpop; cases hpop
      | ok r =>
        rw [hvq] at hpop
        obtain ⟨vq₁, e₁⟩ := r
        cases hpop
        exact ⟨vq₁, hvq, ih.1 hrest⟩
    · rintro ⟨vq', hpop, hrest⟩
      refine ⟨withUsed vq' used, ?_, ih.2 hrest⟩
      rw [virtqueuePop_withUsed, hpop]
      rfl

/-! ### Filling an element -/

theorem parts_cons (b : BitVec 64 × BitVec 32) (sg : List (BitVec 64 × BitVec 32)) :
    parts 0 ((b :: sg).map fun b => b.2.toNat) = ⟨0, 0, b.2.toNat, b.2.toNat⟩ :: parts b.2.toNat (sg.map fun c => c.2.toNat) := by
  rw [List.map_cons, parts, Nat.zero_add]

theorem fillElement_next {e : Element} (he : e.inSg ≠ []) (hdr : ℕ) (rest : List UInt8) :
    ∃ v, fillElement false hdr e rest =
      some (⟨e.index, min (capacity e) rest.length, put (fun _ => none) 0 (rest.take (capacity e)), v⟩,
        min (capacity e) rest.length) := by
  obtain ⟨b, sg, hsg⟩ := List.exists_cons_of_ne_nil he
  refine ⟨⟨0, 0, b.2.toNat, b.2.toNat⟩, ?_⟩
  unfold fillElement capacity
  rw [hsg, parts_cons]
  dsimp only
  rw [if_neg Bool.false_ne_true, ← parts_cons, fill_parts]
  rfl

/-- The first element takes the header and then as much of the frame as it has room for behind it. -/
theorem fillElement_first {e : Element} {b : BitVec 64 × BitVec 32} {sg : List (BitVec 64 × BitVec 32)} (hsg : e.inSg = b :: sg)
    {hdr : ℕ} (htwo : 2 ≤ hdr) (hdr_le : hdr ≤ b.2.toNat) (rest : List UInt8) :
    fillElement true hdr e rest =
      some (⟨e.index, hdr + min (capacity e - hdr) rest.length,
          put (put (fun _ => none) 0 [0, 0]) hdr (rest.take (capacity e - hdr)), ⟨0, 0, b.2.toNat, b.2.toNat⟩⟩,
        min (capacity e - hdr) rest.length) := by
  have hcap : capacity e = b.2.toNat + (sg.map fun c => c.2.toNat).sum := by
    rw [capacity, hsg, List.map_cons, List.sum_cons]
  have hlen : (b.2.toNat + 2 ^ 64 - hdr) % 2 ^ 64 = b.2.toNat - hdr := by
    have hlt := b.2.isLt
    omega
  have hheader : receiveHeader ⟨0, 0, b.2.toNat, b.2.toNat⟩ hdr =
      some (⟨0, hdr, b.2.toNat, b.2.toNat - hdr⟩, put (fun _ => none) 0 [0, 0]) := by
    have hcopy : copy (fun _ => none) ⟨0, 0, b.2.toNat, b.2.toNat⟩ [(0 : UInt8), 0] = some (put (fun _ => none) 0 [0, 0]) :=
      if_pos (show 0 + 2 ≤ b.2.toNat by omega)
    rw [receiveHeader, hcopy, Option.map_some, hlen, Nat.zero_add]
  have hroom : hdr + (b.2.toNat - hdr) ≤ b.2.toNat := by omega
  have hstart : 0 + hdr + (b.2.toNat - hdr) = b.2.toNat := by omega
  have hparts : ∀ (data : List UInt8) (area : Area UInt8), fill (parts b.2.toNat (sg.map fun c => c.2.toNat)) data area =
      some (put area (0 + hdr + (b.2.toNat - hdr)) (data.take (sg.map fun c => c.2.toNat).sum),
        min (sg.map fun c => c.2.toNat).sum data.length) := by
    intro data area
    rw [hstart]
    exact fill_parts _ _ _ _
  have hfill := fill_cons (v := ⟨0, hdr, b.2.toNat, b.2.toNat - hdr⟩) hroom hparts rest (put (fun _ => none) 0 [0, 0])
  have hsum : b.2.toNat - hdr + (sg.map fun c => c.2.toNat).sum = capacity e - hdr := by omega
  rw [hsum] at hfill
  unfold fillElement
  rw [hsg, parts_cons]
  dsimp only
  rw [if_pos rfl, hheader, Option.bind_some, hfill]
  dsimp only [Option.map_some]
  rw [Nat.zero_add]

/-- A first buffer that is too small for the header is left. -/
theorem fillElement_fault {e : Element} {b : BitVec 64 × BitVec 32} {sg : List (BitVec 64 × BitVec 32)} (hsg : e.inSg = b :: sg)
    {hdr : ℕ} (hlt : b.2.toNat < hdr) (hhdr : hdr ≤ 12) {rest : List UInt8} (hrest : rest ≠ []) :
    fillElement true hdr e rest = none := by
  unfold fillElement
  rw [hsg, parts_cons]
  dsimp only
  rw [if_pos rfl, receiveHeader, copy]
  split_ifs
  · have hlen : (b.2.toNat + 2 ^ 64 - hdr) % 2 ^ 64 ≠ 0 := by omega
    rw [Option.map_some, Option.bind_some]
    dsimp only
    rw [fill_fault _ hlen hrest]
    · rfl
    · dsimp only
      omega
  · rfl

/-! ### The loop -/

def header0 (mergeable : Bool) : List (Option UInt8) := some 0 :: some 0 :: List.replicate (hdrLen mergeable - 2) none

/-- What holds between the elements: the queue is the one at the start but for what has been popped and
filled in, and the elements hold the header and the first part of the frame. -/
structure LoopInv (mergeable : Bool) (vq₀ : VirtQueue) (frame : List UInt8) (vq : VirtQueue) (rest : List UInt8)
    (filled : List Filled) : Prop where
  queue : vq = { vq₀ with
    vring := { vq₀.vring with usedRing := vq.vring.usedRing }
    lastAvailIdx := vq₀.lastAvailIdx + BitVec.ofNat 16 filled.length
    inuse := vq₀.inuse + filled.length }
  room : filled.length + heads vq ≤ vq₀.vring.num
  index : ∀ k f, filled[k]? = some f →
    f.index = vq₀.vring.availRing ((vq₀.lastAvailIdx + BitVec.ofNat 16 k).toNat % vq₀.vring.num)
  used : ∀ k f, filled[k]? = some f → vq.vring.usedRing ((k + vq₀.vring.usedIdx.toNat) % vq₀.vring.num) =
    ⟨f.index.setWidth 32, BitVec.ofNat 32 f.total⟩
  content : filled.flatMap Filled.bytes ++ rest.map some = (if filled = [] then [] else header0 mergeable) ++ frame.map some
  totals : (filled.map Filled.total).sum + rest.length = (if filled = [] then 0 else hdrLen mergeable) + frame.length
  first : ∀ f ∈ filled.head?, hdrLen mergeable ≤ f.first.room ∧ f.first.start = 0 ∧ hdrLen mergeable ≤ f.total

theorem view_header (mergeable : Bool) :
    view (put (fun _ => none) 0 [(0 : UInt8), 0]) (hdrLen mergeable) = header0 mergeable := by
  cases mergeable <;> rfl

theorem take_min_length (rest : List UInt8) (n : ℕ) : rest.take (min n rest.length) = rest.take n := by
  rw [List.take_eq_take_iff]
  omega

/-- What an element takes: all bytes that it has room for. -/
theorem fillElement_spec {mergeable isFirst : Bool} {e : Element} (he : e.inSg ≠ []) {rest : List UInt8} {f : Filled} {len : ℕ}
    (h : fillElement isFirst (hdrLen mergeable) e rest = some (f, len)) (hrest : rest ≠ []) :
    f.index = e.index ∧ len = min (capacity e - if isFirst then hdrLen mergeable else 0) rest.length ∧
      f.total = (if isFirst then hdrLen mergeable else 0) + len ∧
      f.bytes = (if isFirst then header0 mergeable else []) ++ (rest.take len).map some ∧
      (isFirst = true → hdrLen mergeable ≤ f.first.room ∧ f.first.start = 0) := by
  cases isFirst with
  | false =>
    obtain ⟨v, hnext⟩ := fillElement_next he (hdrLen mergeable) rest
    rw [hnext] at h
    cases h
    refine ⟨rfl, rfl, (Nat.zero_add _).symm, ?_, fun h => absurd h Bool.false_ne_true⟩
    have hview := view_put (fun _ => none) 0 (rest.take (capacity e))
    rw [Nat.zero_add, List.length_take] at hview
    rw [take_min_length]
    exact hview
  | true =>
    obtain ⟨b, sg, hsg⟩ := List.exists_cons_of_ne_nil he
    have hsize : 2 ≤ hdrLen mergeable ∧ hdrLen mergeable ≤ 12 := by cases mergeable <;> decide
    by_cases hle : hdrLen mergeable ≤ b.2.toNat
    · rw [fillElement_first hsg hsize.1 hle] at h
      cases h
      refine ⟨rfl, rfl, rfl, ?_, fun _ => ⟨hle, rfl⟩⟩
      have hview := view_put (put (fun _ => none) 0 [(0 : UInt8), 0]) (hdrLen mergeable)
        (rest.take (capacity e - hdrLen mergeable))
      rw [List.length_take, view_header] at hview
      rw [take_min_length]
      exact hview
    · rw [fillElement_fault hsg (not_le.1 hle) hsize.2 hrest] at h
      cases h

variable {mergeable : Bool} {vq₀ vq : VirtQueue} {frame rest : List UInt8} {filled : List Filled}

theorem loopInv_init (hheads : heads vq ≤ vq.vring.num) : LoopInv mergeable vq frame vq frame [] where
  queue := by
    have hlast : vq.lastAvailIdx + BitVec.ofNat 16 0 = vq.lastAvailIdx := BitVec.add_zero _
    have hinuse : vq.inuse + ((0 : ℕ) : ℤ) = vq.inuse := Int.add_zero _
    rw [List.length_nil, hlast, hinuse]
  room := by
    rw [List.length_nil]
    omega
  index := nofun
  used := nofun
  content := rfl
  totals := by simp
  first := nofun

theorem slot_ne {a b num start : ℕ} (hab : a < b) (hb : b < num) : (a + start) % num ≠ (b + start) % num := by
  intro h
  have hmod : a ≡ b [MOD num] := Nat.ModEq.add_right_cancel' start h
  have heq := hmod.eq_of_lt_of_lt (hab.trans hb) hb
  omega

theorem heads_pop {vq : VirtQueue} (h : 0 < heads vq) :
    heads { vq with lastAvailIdx := vq.lastAvailIdx + 1, inuse := vq.inuse + 1 } + 1 = heads vq := by
  unfold heads at h ⊢
  dsimp only
  generalize vq.vring.availIdx = a at h ⊢
  generalize vq.lastAvailIdx = b at h ⊢
  bv_omega

theorem getElem?_snoc {α : Type} {l : List α} {x y : α} {k : ℕ} (h : (l ++ [x])[k]? = some y) :
    k < l.length ∧ l[k]? = some y ∨ k = l.length ∧ x = y := by
  rcases Nat.lt_trichotomy k l.length with hlt | heq | hgt
  · rw [List.getElem?_append_left hlt] at h
    exact .inl ⟨hlt, h⟩
  · subst heq
    rw [List.getElem?_append_right (Nat.le_refl _), Nat.sub_self] at h
    exact .inr ⟨rfl, Option.some_inj.1 h⟩
  · rw [List.getElem?_eq_none (by rw [List.length_append, List.length_singleton]; omega)] at h
    cases h

/-- An element is popped and takes its part of the frame. -/
theorem LoopInv.step (h : LoopInv mergeable vq₀ frame vq rest filled) (hrest : rest ≠ []) {vq' : VirtQueue} {e : Element}
    (hpop : virtqueuePop maps vq = .ok (vq', some e)) (he : e.inSg ≠ []) {f : Filled} {len : ℕ}
    (hfill : fillElement (filled = []) (hdrLen mergeable) e rest = some (f, len)) :
    LoopInv mergeable vq₀ frame (virtqueueFill vq' e (BitVec.ofNat 32 f.total) filled.length) (rest.drop len) (filled ++ [f]) := by
  obtain ⟨hpos, -, hslot, rfl⟩ := virtqueuePop_some hpop
  obtain ⟨hindex, hlen, htotal, hbytes, hfirst⟩ := fillElement_spec he hfill hrest
  have hnum : vq.vring.num = vq₀.vring.num := congrArg (fun q => q.vring.num) h.queue
  have hring : vq.vring.availRing = vq₀.vring.availRing := congrArg (fun q => q.vring.availRing) h.queue
  have husedIdx : vq.vring.usedIdx = vq₀.vring.usedIdx := congrArg (fun q => q.vring.usedIdx) h.queue
  have hlast : vq.lastAvailIdx = vq₀.lastAvailIdx + BitVec.ofNat 16 filled.length := congrArg VirtQueue.lastAvailIdx h.queue
  have hinuse : vq.inuse = vq₀.inuse + filled.length := congrArg VirtQueue.inuse h.queue
  have hready : vq.ready = vq₀.ready := congrArg (fun q => q.ready) h.queue
  have hlength : (filled ++ [f]).length = filled.length + 1 := by rw [List.length_append, List.length_singleton]
  have hheads := h.room
  have hafter := heads_pop hpos
  refine ⟨?_, ?_, ?_, ?_, ?_, ?_, ?_⟩
  · have hvring := congrArg (fun q => { q.vring with
      usedRing := Function.update vq.vring.usedRing ((filled.length + vq.vring.usedIdx.toNat) % vq.vring.num)
        ⟨e.index.setWidth 32, BitVec.ofNat 32 f.total⟩ }) h.queue
    rw [hlength, BitVec.ofNat_add, ← BitVec.add_assoc, ← hlast, Nat.cast_add, ← Int.add_assoc, ← hinuse, ← hready]
    exact congrArg (fun r : VRing => (⟨r, vq.lastAvailIdx + 1, vq.inuse + 1, vq.ready⟩ : VirtQueue)) hvring
  · have hsame : heads (virtqueueFill { vq with lastAvailIdx := vq.lastAvailIdx + 1, inuse := vq.inuse + 1 } e
        (BitVec.ofNat 32 f.total) filled.length) = heads { vq with lastAvailIdx := vq.lastAvailIdx + 1, inuse := vq.inuse + 1 } := rfl
    rw [hsame, hlength]
    omega
  · intro k g hg
    rcases getElem?_snoc hg with ⟨-, hg⟩ | ⟨rfl, rfl⟩
    · exact h.index k g hg
    · rw [hindex, hslot, hring, hlast, hnum]
  · intro k g hg
    have hupdate : (virtqueueFill { vq with lastAvailIdx := vq.lastAvailIdx + 1, inuse := vq.inuse + 1 } e
        (BitVec.ofNat 32 f.total) filled.length).vring.usedRing = Function.update vq.vring.usedRing
          ((filled.length + vq₀.vring.usedIdx.toNat) % vq₀.vring.num) ⟨e.index.setWidth 32, BitVec.ofNat 32 f.total⟩ := by
      rw [← hnum, ← husedIdx]
      rfl
    rw [hupdate]
    rcases getElem?_snoc hg with ⟨hk, hg⟩ | ⟨rfl, rfl⟩
    · rw [Function.update_of_ne (slot_ne hk (by omega))]
      exact h.used k g hg
    · rw [Function.update_self, hindex]
  · have hsplit : rest.map some = (rest.take len).map some ++ (rest.drop len).map some := by
      rw [← List.map_append, List.take_append_drop]
    have hne : filled ++ [f] ≠ [] := List.append_ne_nil_of_right_ne_nil _ (List.cons_ne_nil _ _)
    have hcontent := h.content
    rw [if_neg hne, List.flatMap_append, List.flatMap_singleton, hbytes, List.append_assoc, List.append_assoc, ← hsplit]
    by_cases hfilled : filled = []
    · rw [if_pos hfilled, hfilled, List.flatMap_nil, List.nil_append, List.nil_append] at hcontent
      rw [if_pos (decide_eq_true hfilled), hfilled, List.flatMap_nil, List.nil_append, hcontent]
    · rw [if_neg hfilled] at hcontent
      rw [if_neg (mt of_decide_eq_true hfilled), List.nil_append, hcontent]
  · have htotals := h.totals
    have hne : filled ++ [f] ≠ [] := List.append_ne_nil_of_right_ne_nil _ (List.cons_ne_nil _ _)
    rw [if_neg hne, List.map_append, List.map_singleton, List.sum_append, List.sum_singleton, List.length_drop, htotal]
    by_cases hfilled : filled = []
    · rw [if_pos hfilled, hfilled, List.map_nil, List.sum_nil] at htotals
      rw [if_pos (decide_eq_true hfilled), hfilled, List.map_nil, List.sum_nil]
      omega
    · rw [if_neg hfilled] at htotals
      rw [if_neg (mt of_decide_eq_true hfilled)]
      omega
  · intro g hg
    by_cases hfilled : filled = []
    · have hsame : f = g := by simpa [hfilled] using hg
      subst hsame
      obtain ⟨hroom, hstart⟩ := hfirst (decide_eq_true hfilled)
      rw [if_pos (decide_eq_true hfilled)] at htotal
      exact ⟨hroom, hstart, by omega⟩
    · obtain ⟨g', fs, rfl⟩ := List.exists_cons_of_ne_nil hfilled
      exact h.first g hg

/-- What a loop that gets to its end leaves, unless there was no first element. -/
theorem receiveLoop_inv : ∀ {fuel : ℕ} {vq : VirtQueue} {rest : List UInt8} {filled : List Filled} {vq' : VirtQueue}
    {filled' : List Filled}, LoopInv mergeable vq₀ frame vq rest filled →
      receiveLoop maps mergeable fuel vq rest filled = some (.ok (vq', filled')) →
        filled = [] ∧ heads vq = 0 ∨ LoopInv mergeable vq₀ frame vq' [] filled' := by
  intro fuel
  induction fuel with
  | zero =>
    intro vq rest filled vq' filled' _ hloop
    cases hloop
  | succ fuel ih =>
    intro vq rest filled vq' filled' h hloop
    rw [receiveLoop] at hloop
    by_cases hrest : rest = []
    · rw [if_pos hrest] at hloop
      cases hloop
      exact .inr (hrest ▸ h)
    rw [if_neg hrest] at hloop
    split at hloop
    · cases hloop
    cases hpop : virtqueuePop maps vq with
    | error why =>
      rw [hpop] at hloop
      cases hloop
    | ok r =>
      obtain ⟨vq₁, found⟩ := r
      rw [hpop] at hloop
      cases found with
      | none =>
        dsimp only at hloop
        split at hloop
        next hfilled => exact .inl ⟨hfilled, (virtqueuePop_none hpop).2⟩
        next => cases hloop
      | some e =>
        dsimp only at hloop
        by_cases he : e.inSg = []
        · rw [if_pos he] at hloop
          cases hloop
        rw [if_neg he] at hloop
        split at hloop
        · cases hloop
        cases hfill : fillElement (filled = []) (hdrLen mergeable) e rest with
        | none =>
          rw [hfill] at hloop
          cases hloop
        | some r =>
          obtain ⟨f, len⟩ := r
          rw [hfill] at hloop
          rcases ih (h.step hrest hpop he hfill) hloop with ⟨hnil, -⟩ | hend
          · exact absurd hnil (List.append_ne_nil_of_right_ne_nil _ (List.cons_ne_nil _ _))
          · exact .inr hend

/-! ### When the loop gets to its end -/

theorem Room.pop {isFirst : Bool} {need : ℕ} {elems : List Element} (h : Room maps mergeable isFirst vq need elems)
    (hneed : 0 < need) : ∃ vq' e es, elems = e :: es ∧ virtqueuePop maps vq = .ok (vq', some e) ∧ Pops maps vq' es := by
  cases elems with
  | nil =>
    have henough := h.enough
    rw [List.map_nil, List.sum_nil] at henough
    omega
  | cons e es =>
    obtain ⟨vq', hpop, hpops⟩ := h.pops
    exact ⟨vq', e, es, rfl, hpop, hpops⟩

/-- An element is filled in unless it is the first one and its first buffer is too small. -/
theorem fillElement_none {isFirst : Bool} {e : Element} (he : e.inSg ≠ []) {rest : List UInt8}
    (h : fillElement isFirst (hdrLen mergeable) e rest = none) :
    isFirst = true ∧ ∀ b ∈ e.inSg.head?, b.2.toNat < hdrLen mergeable := by
  cases isFirst with
  | false =>
    obtain ⟨v, hnext⟩ := fillElement_next he (hdrLen mergeable) rest
    rw [hnext] at h
    cases h
  | true =>
    refine ⟨rfl, fun b hb => ?_⟩
    obtain ⟨c, sg, hsg⟩ := List.exists_cons_of_ne_nil he
    have hbc : c = b := by simpa [hsg] using hb
    subst hbc
    by_contra hlt
    have htwo : 2 ≤ hdrLen mergeable := by cases mergeable <;> decide
    rw [fillElement_first hsg htwo (not_lt.1 hlt)] at h
    cases h

theorem headerFits_le {e : Element} (h : HeaderFits mergeable e) : ∀ b ∈ e.inSg.head?, hdrLen mergeable ≤ b.2.toNat := by
  intro b hb
  have hfits := h b hb
  cases mergeable with
  | false => exact Nat.le_of_eq hfits.symm
  | true => exact hfits

theorem le_capacity {e : Element} {n : ℕ} (he : e.inSg ≠ []) (h : ∀ b ∈ e.inSg.head?, n ≤ b.2.toNat) : n ≤ capacity e := by
  obtain ⟨b, sg, hsg⟩ := List.exists_cons_of_ne_nil he
  have hb := h b (by rw [hsg]; rfl)
  rw [capacity, hsg, List.map_cons, List.sum_cons]
  omega

theorem fillElement_room {e : Element} (he : e.inSg ≠ []) {rest : List UInt8} (hrest : rest ≠ []) {r : Filled × ℕ}
    (h : fillElement true (hdrLen mergeable) e rest = some r) : ∀ b ∈ e.inSg.head?, hdrLen mergeable ≤ b.2.toNat := by
  intro b hb
  obtain ⟨c, sg, hsg⟩ := List.exists_cons_of_ne_nil he
  have hbc : c = b := by simpa [hsg] using hb
  subst hbc
  by_contra hlt
  have htwelve : hdrLen mergeable ≤ 12 := by cases mergeable <;> decide
  rw [fillElement_fault hsg (not_le.1 hlt) htwelve hrest] at h
  cases h

/-- An element is the last one, or there is room in the elements behind it. -/
theorem room_step {isFirst : Bool} (hrest : rest ≠ []) {vq' : VirtQueue} {e : Element}
    (hpop : virtqueuePop maps vq = .ok (vq', some e)) (he : e.inSg ≠ [])
    (hheader : isFirst = true → HeaderFits mergeable e) (hmode : mergeable = false → isFirst = true) {len : ℕ}
    (hlen : len = min (capacity e - if isFirst then hdrLen mergeable else 0) rest.length) (used : ℕ → UsedElem) :
    (∃ elems, Room maps mergeable isFirst vq ((if isFirst then hdrLen mergeable else 0) + rest.length) elems) ↔
      rest.drop len = [] ∨
        ∃ elems, Room maps mergeable false (withUsed vq' used) (rest.drop len).length elems := by
  have hpos : 0 < rest.length := List.length_pos_of_ne_nil hrest
  have hcap : (if isFirst then hdrLen mergeable else 0) ≤ capacity e := by
    split_ifs with hf
    · exact le_capacity he (headerFits_le (hheader hf))
    · exact Nat.zero_le _
  generalize (if isFirst then hdrLen mergeable else 0) = hdr at hlen hcap ⊢
  constructor
  · rintro ⟨elems, hroom⟩
    obtain ⟨vq₁, e₁, es, rfl, hpop₁, hpops⟩ := hroom.pop (by omega)
    rw [hpop] at hpop₁
    cases hpop₁
    have henough := hroom.enough
    rw [List.map_cons, List.sum_cons] at henough
    by_cases hdone : rest.drop len = []
    · exact .inl hdone
    have hleft : len < rest.length := by
      by_contra hge
      exact hdone (List.drop_eq_nil_of_le (not_lt.1 hge))
    refine .inr ⟨es, (pops_withUsed used).2 hpops, fun e' he' => hroom.inBuffers e' (List.mem_cons_of_mem _ he'), nofun, ?_, ?_⟩
    · intro hsingle
      have hone := (hroom.single hsingle).2
      have hnil : es = [] := List.eq_nil_of_length_eq_zero (by rw [List.length_cons] at hone; omega)
      rw [hnil, List.map_nil, List.sum_nil] at henough
      omega
    · rw [List.length_drop]
      omega
  · intro hcases
    by_cases hdone : rest.drop len = []
    · have hall : rest.length ≤ len := List.drop_eq_nil_iff.1 hdone
      refine ⟨[e], ⟨vq', hpop, trivial⟩, ?_, ?_, ?_, ?_⟩
      · intro e' he'
        rw [List.mem_singleton.1 he']
        exact he
      · intro hf e' he'
        have hsame : e = e' := by simpa using he'
        exact hsame ▸ hheader hf
      · exact fun hm => ⟨hmode hm, Nat.le_refl _⟩
      · rw [List.map_singleton, List.sum_singleton]
        omega
    · obtain ⟨es, hroom⟩ := hcases.resolve_left hdone
      have hleft : len < rest.length := by
        by_contra hge
        exact hdone (List.drop_eq_nil_of_le (not_lt.1 hge))
      have henough := hroom.enough
      rw [List.length_drop] at henough
      refine ⟨e :: es, ⟨vq', hpop, (pops_withUsed used).1 hroom.pops⟩, ?_, ?_, ?_, ?_⟩
      · intro e' he'
        rcases List.mem_cons.1 he' with rfl | hmem
        · exact he
        · exact hroom.inBuffers e' hmem
      · intro hf e' he'
        have hsame : e = e' := by simpa using he'
        exact hsame ▸ hheader hf
      · intro hm
        exact Bool.noConfusion (hroom.single hm).1
      · rw [List.map_cons, List.sum_cons]
        omega

/-- The loop gets to its end exactly when there is room in the elements of the ring. -/
theorem receiveLoop_iff : ∀ {fuel : ℕ} {vq : VirtQueue} {rest : List UInt8} {filled : List Filled}, rest ≠ [] →
    heads vq < fuel →
      ((∃ vq' filled', receiveLoop maps mergeable fuel vq rest filled = some (.ok (vq', filled')) ∧ filled' ≠ []) ↔
        ∃ elems, Room maps mergeable (filled = []) vq
          ((if (decide (filled = [])) then hdrLen mergeable else 0) + rest.length) elems) := by
  intro fuel
  induction fuel with
  | zero =>
    intro vq rest filled _ hfuel
    omega
  | succ fuel ih =>
    intro vq rest filled hrest hfuel
    have hneed : ∀ hdr, 0 < hdr + rest.length := fun hdr => Nat.add_pos_right hdr (List.length_pos_of_ne_nil hrest)
    rw [receiveLoop, if_neg hrest]
    by_cases hmode : filled ≠ [] ∧ mergeable = false
    · rw [if_pos hmode]
      refine iff_of_false (fun ⟨vq', filled', h, _⟩ => by cases h) ?_
      rintro ⟨elems, hroom⟩
      exact hmode.1 (of_decide_eq_true (hroom.single hmode.2).1)
    rw [if_neg hmode]
    have hsingle : mergeable = false → decide (filled = []) = true := fun hm =>
      decide_eq_true (by_contra fun hne => hmode ⟨hne, hm⟩)
    cases hpop : virtqueuePop maps vq with
    | error why =>
      refine iff_of_false (fun ⟨vq', filled', h, _⟩ => by cases h) ?_
      rintro ⟨elems, hroom⟩
      obtain ⟨vq₁, e, es, -, hsome, -⟩ := hroom.pop (hneed _)
      rw [hpop] at hsome
      cases hsome
    | ok r =>
      obtain ⟨vq₁, found⟩ := r
      cases found with
      | none =>
        refine iff_of_false ?_ ?_
        · rintro ⟨vq', filled', h, hne⟩
          dsimp only at h
          split at h
          · cases h
            exact hne rfl
          · cases h
        · rintro ⟨elems, hroom⟩
          obtain ⟨vq₂, e, es, -, hsome, -⟩ := hroom.pop (hneed _)
          rw [hpop] at hsome
          cases hsome
      | some e =>
        have hfound : ∀ {elems hdr}, Room maps mergeable (filled = []) vq (hdr + rest.length) elems →
            ∃ es, elems = e :: es := by
          intro elems hdr hroom
          obtain ⟨vq₂, e₂, es, helems, hsome, -⟩ := hroom.pop (hneed _)
          rw [hpop] at hsome
          cases hsome
          exact ⟨es, helems⟩
        dsimp only
        by_cases he : e.inSg = []
        · rw [if_pos he]
          refine iff_of_false (fun ⟨vq', filled', h, _⟩ => by cases h) ?_
          rintro ⟨elems, hroom⟩
          obtain ⟨es, rfl⟩ := hfound hroom
          exact hroom.inBuffers e List.mem_cons_self he
        rw [if_neg he]
        obtain ⟨b, sg, hsg⟩ := List.exists_cons_of_ne_nil he
        by_cases hplain : mergeable = false ∧ (e.inSg.headD (0, 0)).2.toNat ≠ hdrLen mergeable
        · rw [if_pos hplain]
          refine iff_of_false (fun ⟨vq', filled', h, _⟩ => by cases h) ?_
          rintro ⟨elems, hroom⟩
          obtain ⟨es, rfl⟩ := hfound hroom
          have hfits := hroom.header (hsingle hplain.1) e rfl b (by rw [hsg]; rfl)
          rw [hplain.1] at hfits
          apply hplain.2
          rw [hsg, hplain.1]
          exact hfits
        rw [if_neg hplain]
        cases hfill : fillElement (filled = []) (hdrLen mergeable) e rest with
        | none =>
          refine iff_of_false (fun ⟨vq', filled', h, _⟩ => by cases h) ?_
          rintro ⟨elems, hroom⟩
          obtain ⟨es, rfl⟩ := hfound hroom
          obtain ⟨hfirst, hsmall⟩ := fillElement_none he hfill
          have hb : b ∈ e.inSg.head? := by rw [hsg]; rfl
          exact absurd (headerFits_le (hroom.header hfirst e rfl) b hb) (not_le.2 (hsmall b hb))
        | some r =>
          obtain ⟨f, len⟩ := r
          obtain ⟨-, hlen, -⟩ := fillElement_spec he hfill hrest
          have hheader : decide (filled = []) = true → HeaderFits mergeable e := by
            intro hfirst c hc
            rw [hfirst] at hfill
            have hroom := fillElement_room he hrest hfill c hc
            have hbc : b = c := by simpa [hsg] using hc
            subst hbc
            cases hm : mergeable with
            | false =>
              have heq := not_not.1 fun hne => hplain ⟨hm, hne⟩
              rw [hsg, hm] at heq
              exact heq
            | true =>
              rw [hm] at hroom
              exact hroom
          obtain ⟨hpos, -, -, hvq⟩ := virtqueuePop_some hpop
          have hless : heads vq₁ < fuel := by
            have hafter := heads_pop hpos
            rw [← hvq] at hafter
            omega
          have hne : filled ++ [f] ≠ [] := List.append_ne_nil_of_right_ne_nil _ (List.cons_ne_nil _ _)
          rw [room_step hrest hpop he hheader hsingle hlen (virtqueueFill vq₁ e (BitVec.ofNat 32 f.total) filled.length).vring.usedRing]
          dsimp only
          by_cases hdone : rest.drop len = []
          · have hend : ∀ {n : ℕ} (vq : VirtQueue) (filled : List Filled), 0 < n →
                receiveLoop maps mergeable n vq [] filled = some (.ok (vq, filled)) := by
              intro n vq filled hn
              obtain ⟨n, rfl⟩ := Nat.exists_eq_succ_of_ne_zero (Nat.ne_of_gt hn)
              rw [receiveLoop, if_pos rfl]
            rw [hdone]
            exact iff_of_true ⟨_, _, hend _ _ (by omega), hne⟩ (.inl rfl)
          · have hnext := @ih (virtqueueFill vq₁ e (BitVec.ofNat 32 f.total) filled.length) (rest.drop len) (filled ++ [f])
              hdone hless
            rw [decide_eq_false hne, if_neg Bool.false_ne_true, Nat.zero_add] at hnext
            rw [hnext]
            exact ⟨fun hroom => .inr hroom, fun hroom => hroom.resolve_left hdone⟩

/-! ### Frames -/

/-- What the guest sees of the header and the frame, once the number of elements is in the header. -/
theorem setNumBuffers_spec {f : Filled} {fs : List Filled} (hroom : hdrLen true ≤ f.first.room) (hstart : f.first.start = 0)
    (htotal : hdrLen true ≤ f.total) {frame : List (Option UInt8)}
    (hcontent : (f :: fs).flatMap Filled.bytes = header0 true ++ frame) :
    ∃ area, setNumBuffers (f :: fs) = some ({ f with area := area } :: fs) ∧
      ({ f with area := area } :: fs).flatMap Filled.bytes = headerBytes true (f :: fs).length ++ frame := by
  generalize hdata : [UInt8.ofNat ((f :: fs).length % 256), UInt8.ofNat ((f :: fs).length / 256 % 256)] = data
  have hlen : data.length = 2 := by rw [← hdata]; rfl
  have htwelve : hdrLen true = 12 := rfl
  refine ⟨put f.area 10 data, ?_, ?_⟩
  · have hcopy : copy f.area { f.first with off := 10 } data = some (put f.area (f.first.start + 10) data) :=
      if_pos (show 10 + data.length ≤ f.first.room by omega)
    rw [setNumBuffers, hdata, hcopy, hstart]
    rfl
  · have hview : Filled.bytes { f with area := put f.area 10 data } = f.bytes.take 10 ++ data.map some ++ f.bytes.drop (10 + data.length) :=
      view_put_within f.area (show 10 + data.length ≤ f.total by omega)
    have hlong : 12 ≤ f.bytes.length := by
      have hview : f.bytes.length = f.total := length_view f.area f.total
      omega
    rw [List.flatMap_cons] at hcontent
    have htake : f.bytes.take 10 = (header0 true).take 10 := by
      have h := congrArg (List.take 10) hcontent
      rwa [List.take_append_of_le_length (by omega), List.take_append_of_le_length (show 10 ≤ (header0 true).length by decide)] at h
    have hdrop : f.bytes.drop 12 ++ fs.flatMap Filled.bytes = frame := by
      have h := congrArg (List.drop 12) hcontent
      rwa [List.drop_append_of_le_length hlong, List.drop_append_of_le_length (show 12 ≤ (header0 true).length by decide)] at h
    rw [List.flatMap_cons, hview, hlen, htake, List.append_assoc, hdrop, ← hdata]
    rfl

theorem sum_lengths {filled : List Filled} (h : (filled.map Filled.total).sum < 2 ^ 32) :
    (filled.map fun f => (BitVec.ofNat 32 f.total).toNat).sum = (filled.map Filled.total).sum := by
  induction filled with
  | nil => rfl
  | cons f filled ih =>
    rw [List.map_cons, List.sum_cons] at h
    rw [List.map_cons, List.map_cons, List.sum_cons, List.sum_cons, ih (by omega), BitVec.toNat_ofNat,
      Nat.mod_eq_of_lt (by omega)]

theorem exists_numbered (h : LoopInv mergeable vq₀ frame vq [] filled) (hfilled : filled ≠ []) :
    ∃ filled', (if mergeable then setNumBuffers filled else some filled) = some filled' ∧
      filled'.map (fun f => (f.index, f.total)) = filled.map (fun f => (f.index, f.total)) ∧
      filled'.flatMap Filled.bytes = headerBytes mergeable filled.length ++ frame.map some := by
  have hcontent := h.content
  rw [if_neg hfilled, List.map_nil, List.append_nil] at hcontent
  cases mergeable with
  | false => exact ⟨filled, rfl, rfl, hcontent⟩
  | true =>
    obtain ⟨f, fs, rfl⟩ := List.exists_cons_of_ne_nil hfilled
    obtain ⟨hroom, hstart, htotal⟩ := h.first f rfl
    obtain ⟨area, hnum, hbytes⟩ := setNumBuffers_spec hroom hstart htotal hcontent
    exact ⟨_, hnum, rfl, hbytes⟩

theorem pushed_of_loop {n n' : VirtIONet} {frame : Frame} {vq' : VirtQueue} {filled filled' : List Filled}
    (h : LoopInv n.mergeableRxBufs n.rxVq frame.bytes vq' [] filled) (hfilled : filled ≠ [])
    (hkeys : filled'.map (fun f => (f.index, f.total)) = filled.map (fun f => (f.index, f.total)))
    (hbytes : filled'.flatMap Filled.bytes = headerBytes n.mergeableRxBufs filled.length ++ frame.bytes.map some)
    (hn' : n'.rxVq = virtqueueFlush vq' filled'.length) : Pushed n frame.bytes n' filled' := by
  have htotals := h.totals
  rw [if_neg hfilled, List.length_nil, Nat.add_zero] at htotals
  have hlength : filled'.length = filled.length := by
    have hlen := congrArg List.length hkeys
    rwa [List.length_map, List.length_map] at hlen
  have hentry : ∀ (k : ℕ) (g : Filled), filled'[k]? = some g → ∃ f : Filled, filled[k]? = some f ∧ f.index = g.index ∧
      f.total = g.total := by
    intro k g hg
    have hget : (filled'.map fun f => (f.index, f.total))[k]? = some (g.index, g.total) := by
      rw [List.getElem?_map, hg]
      rfl
    rw [hkeys, List.getElem?_map] at hget
    obtain ⟨f, hf, hpair⟩ := Option.map_eq_some_iff.1 hget
    exact ⟨f, hf, congrArg Prod.fst hpair, congrArg Prod.snd hpair⟩
  have hsum : filled'.map Filled.total = filled.map Filled.total := by
    have hsnd := congrArg (List.map Prod.snd) hkeys
    rwa [List.map_map, List.map_map] at hsnd
  have hsize : hdrLen n.mergeableRxBufs ≤ 12 := by cases n.mergeableRxBufs <;> decide
  have hshort := frame.short
  refine ⟨?_, ?_, ?_, ?_, ?_, ?_, ?_, ?_⟩
  · rw [← List.length_pos_iff, hlength]
    exact List.length_pos_of_ne_nil hfilled
  · rw [hlength]
    exact hbytes
  · intro k g hg
    obtain ⟨f, hf, hindex, -⟩ := hentry k g hg
    rw [← hindex]
    exact h.index k f hf
  · intro k g hg
    obtain ⟨f, hf, hindex, htotal⟩ := hentry k g hg
    rw [← hindex, ← htotal, hn']
    exact h.used k f hf
  · rw [sum_lengths (by rw [hsum]; omega), hsum, htotals]
  · rw [hn', virtqueueFlush]
    exact congrArg (fun q => q.vring.usedIdx + BitVec.ofNat 16 filled'.length) h.queue
  · rw [hn', hlength, virtqueueFlush]
    exact congrArg (fun q => q.lastAvailIdx) h.queue
  · have hinuse : vq'.inuse = n.rxVq.inuse + filled.length := congrArg (fun q => q.inuse) h.queue
    rw [hn', hlength, virtqueueFlush, hinuse]
    exact Int.add_sub_cancel _ _

theorem canReceive_same {n n' : VirtIONet} {size : ℕ} {accepted : Bool}
    (h : doVirtioNetCanReceive n size = some (.ok (accepted, n'))) :
    n'.rxVq = n.rxVq ∧ n'.mergeableRxBufs = n.mergeableRxBufs ∧ n'.filter = n.filter ∧ n'.mac = n.mac ∧
      (accepted = true → 0 < heads n.rxVq) := by
  unfold doVirtioNetCanReceive at h
  split at h
  · cases h
    exact ⟨rfl, rfl, rfl, rfl, fun h => absurd h Bool.false_ne_true⟩
  · split at h
    · cases h
      exact ⟨rfl, rfl, rfl, rfl, fun h => absurd h Bool.false_ne_true⟩
    next hfull =>
      have hheads : 0 < heads n.rxVq := by
        have hne : n.rxVq.vring.availIdx ≠ n.rxVq.lastAvailIdx := of_decide_eq_false (Bool.not_eq_true _ ▸ hfull)
        unfold heads
        generalize n.rxVq.vring.availIdx = a at hne ⊢
        generalize n.rxVq.lastAvailIdx = b at hne ⊢
        bv_omega
      split at h
      · obtain ⟨r, -, hr⟩ := Option.map_eq_some_iff.1 h
        cases r with
        | error why => cases hr
        | ok avail =>
          cases hr
          exact ⟨rfl, rfl, rfl, rfl, fun _ => hheads⟩
      · cases h
        exact ⟨rfl, rfl, rfl, rfl, fun _ => hheads⟩

theorem virtqueueFlush_zero (vq : VirtQueue) : virtqueueFlush vq 0 = vq := by
  have hidx : vq.vring.usedIdx + BitVec.ofNat 16 0 = vq.vring.usedIdx := BitVec.add_zero _
  have hinuse : vq.inuse - ((0 : ℕ) : ℤ) = vq.inuse := Int.sub_zero _
  rw [virtqueueFlush, hidx, hinuse]

theorem heads_le_of_loop {fuel : ℕ} (hrest : rest ≠ []) {r : VirtQueue × List Filled}
    (hloop : receiveLoop maps mergeable fuel vq rest [] = some (.ok r)) : heads vq ≤ vq.vring.num := by
  cases fuel with
  | zero => cases hloop
  | succ fuel =>
    rw [receiveLoop, if_neg hrest, if_neg fun h => h.1 rfl] at hloop
    cases hpop : virtqueuePop maps vq with
    | error why =>
      rw [hpop] at hloop
      cases hloop
    | ok r =>
      obtain ⟨vq', found⟩ := r
      cases found with
      | none =>
        rw [(virtqueuePop_none hpop).2]
        exact Nat.zero_le _
      | some e => exact (virtqueuePop_some hpop).2.1

theorem loop_iff_room {n : VirtIONet} {frame : List UInt8} (hframe : frame ≠ []) :
    (∃ vq' filled', receiveLoop maps n.mergeableRxBufs (n.rxVq.vring.num + 2) n.rxVq frame [] = some (.ok (vq', filled')) ∧
        filled' ≠ []) ↔
      ∃ elems, Room maps n.mergeableRxBufs true n.rxVq (hdrLen n.mergeableRxBufs + frame.length) elems := by
  by_cases hheads : heads n.rxVq ≤ n.rxVq.vring.num
  · exact receiveLoop_iff hframe (by omega)
  · refine iff_of_false ?_ ?_
    · rintro ⟨vq', filled', hloop, -⟩
      exact hheads (heads_le_of_loop hframe hloop)
    · rintro ⟨elems, hroom⟩
      obtain ⟨vq', e, es, -, hpop, -⟩ := hroom.pop (Nat.add_pos_right _ (List.length_pos_of_ne_nil hframe))
      exact hheads (virtqueuePop_some hpop).2.1

theorem loop_end {n : VirtIONet} {frame : List UInt8} (hframe : frame ≠ []) (hheads : 0 < heads n.rxVq) {fuel : ℕ}
    {vq' : VirtQueue} {filled : List Filled}
    (hloop : receiveLoop maps n.mergeableRxBufs fuel n.rxVq frame [] = some (.ok (vq', filled))) :
    LoopInv n.mergeableRxBufs n.rxVq frame vq' [] filled ∧ filled ≠ [] := by
  rcases receiveLoop_inv (loopInv_init (heads_le_of_loop hframe hloop)) hloop with ⟨-, hzero⟩ | hend
  · omega
  · refine ⟨hend, fun hnil => hframe ?_⟩
    have hcontent := hend.content
    rw [if_pos hnil, hnil] at hcontent
    exact List.map_eq_nil_iff.1 hcontent.symm

/-- The end of `virtio_net_receive` gives the frame to the guest. -/
theorem finish_iff {n n' : VirtIONet} {frame : Frame} (hframe : frame.bytes ≠ []) (hm : n'.mergeableRxBufs = n.mergeableRxBufs)
    (hheads : 0 < heads n.rxVq) (fuel : ℕ) :
    AllOrNothing n frame.bytes
        ((receiveLoop maps n.mergeableRxBufs fuel n.rxVq frame.bytes []).map fun r => r.bind (finish n')) ↔
      ∃ vq' filled', receiveLoop maps n.mergeableRxBufs fuel n.rxVq frame.bytes [] = some (.ok (vq', filled')) ∧ filled' ≠ [] := by
  constructor
  · rintro ⟨n'', filled'', hres, -⟩
    obtain ⟨r, hloop, hr⟩ := Option.map_eq_some_iff.1 hres
    cases r with
    | error why => cases hr
    | ok r => exact ⟨r.1, r.2, hloop, (loop_end hframe hheads hloop).2⟩
  · rintro ⟨vq', filled', hloop, hne⟩
    have hend := (loop_end hframe hheads hloop).1
    obtain ⟨filled'', hset, hkeys, hbytes⟩ := exists_numbered hend hne
    refine ⟨{ n' with rxVq := virtqueueFlush vq' filled''.length }, filled'', ?_, .inr ?_⟩
    · rw [hloop, Option.map_some, Except.bind, finish, hm, hset]
    · exact pushed_of_loop hend hne hkeys hbytes rfl

end

/-! ### Examples -/

/-- A card that takes all packets, with one chain in its ring. -/
def cardWith (mergeable : Bool) (num : ℕ) (desc : ℕ → VRingDesc) : VirtIONet where
  rxVq := ⟨⟨num, desc, 1, fun _ => 0, 0, fun _ => ⟨0, 0⟩⟩, 0, 0, true⟩
  noNotify := false
  driverOk := true
  mergeableRxBufs := mergeable
  filter := .reset
  mac := [0x52, 0x54, 0, 0x12, 0x34, 0x56]

/-- One buffer of twenty bytes. -/
def plainRing : ℕ → VRingDesc := fun _ => ⟨0x1000, 20, 2, 0⟩

def headerRing : ℕ → VRingDesc := fun i => if i = 0 then ⟨0x1000, 10, 3, 1⟩ else ⟨0x2000, 5, 2, 0⟩

end Ar7Qemu.Virtio.NetReceive
