import Ar7Qemu.Virtio.Queue

/-! A queue of a guest that does not keep to the rules: the descriptors may form any graph.
`virtqueue_pop` stores an entry before it looks at the number of entries, which is too late by
one for the largest queue. `virtqueue_avail_bytes` sums lengths of 32 bits in an `int`. -/

namespace Ar7Qemu.Virtio

/-- `VIRTQUEUE_MAX_SIZE`, which `virtio_add_queue` allows at most. -/
def virtqueueMaxSize : ℕ := 1024

/-! ### The stores of a pop -/

/-- The arrays of a `VirtQueueElement`. -/
inductive SgArray where
  | inAddr | inSg | outSg
  deriving DecidableEq

/-- The places where a descriptor is stored, after those of the element so far. -/
def storesOf (e : Element) (d : VRingDesc) : List (SgArray × ℕ) :=
  if vringDescFWrite d then [(.inAddr, e.inSg.length), (.inSg, e.inSg.length)] else [(.outSg, e.outSg.length)]

section

-- `maps e d`: `cpu_physical_memory_map` maps the whole buffer of `d`, with those of `e` mapped
variable (maps : Element → VRingDesc → Bool) (vq : VirtQueue)

/-- The loop of `virtqueue_pop` with the places that it stores to; `none` when it needs more
passes. -/
def popStores : ℕ → ℕ → Element → Option (List (SgArray × ℕ) × Except Exit Element)
  | 0, _, _ => none
  | fuel + 1, i, e =>
    let d := vq.vring.desc i
    if maps e d = false then some (storesOf e d, .error .mapsMmio)
    else if vq.vring.num < (e.add d).size then some (storesOf e d, .error .loopedDescriptor)
    else match virtqueueNextDesc vq i with
      | .error x => some (storesOf e d, .error x)
      | .ok next =>
        if next = vq.vring.num then some (storesOf e d, .ok (e.add d))
        else (popStores fuel next (e.add d)).map fun r => (storesOf e d ++ r.1, r.2)

/-- `virtqueue_pop`, with the places that it stores to. -/
def virtqueuePopStores (fuel : ℕ) : Option (List (SgArray × ℕ) × Except Exit (VirtQueue × Option Element)) :=
  match virtqueueNumHeads vq vq.lastAvailIdx with
  | .error x => some ([], .error x)
  | .ok 0 => some ([], .ok (vq, none))
  | .ok (_ + 1) =>
    match virtqueueGetHead vq vq.lastAvailIdx with
    | .error x => some ([], .error x)
    | .ok head => (popStores maps vq fuel head.toNat ⟨head, [], []⟩).map fun r =>
        (r.1, r.2.map fun elem =>
          ({ vq with lastAvailIdx := vq.lastAvailIdx + 1, inuse := vq.inuse + 1 }, some elem))

/-- The chain goes on from a descriptor for so many links, all descriptors have the same
direction, and all but the last can be mapped. -/
def OneWay (isWrite : Bool) : ℕ → ℕ → Element → Prop
  | 0, i, _ => vringDescFWrite (vq.vring.desc i) = isWrite
  | n + 1, i, e => vringDescFWrite (vq.vring.desc i) = isWrite ∧ maps e (vq.vring.desc i) = true ∧
      ∃ next, virtqueueNextDesc vq i = .ok next ∧ next ≠ vq.vring.num ∧ OneWay isWrite n next (e.add (vq.vring.desc i))

/-- A queue of the largest size offers a chain that does not end and has all its buffers in one
direction. -/
def OffersLoop : Prop :=
  vq.vring.num = virtqueueMaxSize ∧ ∃ n head isWrite, virtqueueNumHeads vq vq.lastAvailIdx = .ok (n + 1) ∧
    virtqueueGetHead vq vq.lastAvailIdx = .ok head ∧ OneWay maps vq isWrite virtqueueMaxSize head.toNat ⟨head, [], []⟩

end

def Element.count (e : Element) (isWrite : Bool) : ℕ := if isWrite then e.inSg.length else e.outSg.length

@[simp] theorem Element.count_add (e : Element) (d : VRingDesc) (isWrite : Bool) :
    (e.add d).count isWrite = e.count isWrite + if vringDescFWrite d = isWrite then 1 else 0 := by
  cases isWrite <;> cases h : vringDescFWrite d <;> simp [Element.count, Element.add, h]

theorem Element.size_eq (e : Element) (isWrite : Bool) : e.size = e.count isWrite + e.count (!isWrite) := by
  cases isWrite <;> simp [Element.size, Element.count, Nat.add_comm]

@[simp] theorem Element.size_add (e : Element) (d : VRingDesc) : (e.add d).size = e.size + 1 := by
  rw [Element.size_eq _ true, Element.size_eq e true, Element.count_add, Element.count_add]
  cases vringDescFWrite d <;> simp <;> omega

theorem mem_storesOf {e : Element} {d : VRingDesc} {s : SgArray × ℕ} (h : s ∈ storesOf e d) :
    s.2 = e.count (vringDescFWrite d) := by
  unfold storesOf at h
  cases hd : vringDescFWrite d <;> simp [hd] at h <;> simp [Element.count]
  · rw [h]
  · rcases h with h | h <;> rw [h]

theorem exists_storesOf (e : Element) (d : VRingDesc) : ∃ a, (a, e.count (vringDescFWrite d)) ∈ storesOf e d := by
  unfold storesOf
  cases hd : vringDescFWrite d
  · exact ⟨.outSg, by simp [Element.count]⟩
  · exact ⟨.inSg, by simp [Element.count]⟩

section Pop

variable {maps : Element → VRingDesc → Bool} {vq : VirtQueue}

theorem storesOf_iff {e : Element} (d : VRingDesc) (he : e.size ≤ vq.vring.num)
    (hnum : vq.vring.num ≤ virtqueueMaxSize) :
    (∃ s ∈ storesOf e d, virtqueueMaxSize ≤ s.2) ↔
      e.size = virtqueueMaxSize ∧ e.count (!vringDescFWrite d) = 0 := by
  have hsize := e.size_eq (vringDescFWrite d)
  constructor
  · rintro ⟨s, hs, hle⟩
    rw [mem_storesOf hs] at hle
    omega
  · intro h
    obtain ⟨a, ha⟩ := exists_storesOf e d
    exact ⟨_, ha, by show _ ≤ e.count _; omega⟩

/-- The loop ends, and it stores behind the arrays exactly when the chain fills them in one
direction and goes on. -/
theorem popStores_spec (hnum : vq.vring.num ≤ virtqueueMaxSize) (fuel i : ℕ) (e : Element)
    (hfuel : e.size + fuel = vq.vring.num) :
    ∃ r, popStores maps vq (fuel + 1) i e = some r ∧
      ((∃ s ∈ r.1, virtqueueMaxSize ≤ s.2) ↔
        vq.vring.num = virtqueueMaxSize ∧ ∃ isWrite, e.count (!isWrite) = 0 ∧ OneWay maps vq isWrite fuel i e) := by
  induction fuel generalizing i e with
  | zero =>
    have hstores := storesOf_iff (vq.vring.desc i) (by omega : e.size ≤ vq.vring.num) hnum
    have hcond : (e.size = virtqueueMaxSize ∧ e.count (!vringDescFWrite (vq.vring.desc i)) = 0) ↔
        vq.vring.num = virtqueueMaxSize ∧ ∃ isWrite, e.count (!isWrite) = 0 ∧ OneWay maps vq isWrite 0 i e := by
      constructor
      · rintro ⟨hs, hc⟩
        exact ⟨by omega, _, hc, rfl⟩
      · rintro ⟨hs, isWrite, hc, hw⟩
        have hw' : vringDescFWrite (vq.vring.desc i) = isWrite := hw
        rw [hw']
        exact ⟨by omega, hc⟩
    have hfull : vq.vring.num < (e.add (vq.vring.desc i)).size := by
      rw [Element.size_add]
      omega
    rw [popStores, if_pos hfull]
    split_ifs
    · exact ⟨_, rfl, hstores.trans hcond⟩
    · exact ⟨_, rfl, hstores.trans hcond⟩
  | succ fuel ih =>
    have hnone : ¬ ∃ s ∈ storesOf e (vq.vring.desc i), virtqueueMaxSize ≤ s.2 := fun h => by
      have := ((storesOf_iff (vq.vring.desc i) (by omega) hnum).1 h).1
      omega
    -- the chain does not go on
    have hstop : (∀ next, maps e (vq.vring.desc i) = true → virtqueueNextDesc vq i = .ok next → next = vq.vring.num) →
        ((∃ s ∈ storesOf e (vq.vring.desc i), virtqueueMaxSize ≤ s.2) ↔
          vq.vring.num = virtqueueMaxSize ∧ ∃ isWrite, e.count (!isWrite) = 0 ∧ OneWay maps vq isWrite (fuel + 1) i e) := by
      intro hend
      refine iff_of_false hnone ?_
      rintro ⟨-, isWrite, -, -, hmaps, next, hnext, hne, -⟩
      exact hne (hend next hmaps hnext)
    have hroom : ¬ vq.vring.num < (e.add (vq.vring.desc i)).size := by
      rw [Element.size_add]
      omega
    rw [popStores, if_neg hroom]
    cases hmaps : maps e (vq.vring.desc i) with
    | false => exact ⟨_, rfl, hstop fun next h => absurd (hmaps.symm.trans h) (by decide)⟩
    | true =>
      rw [if_neg (by decide)]
      cases hnext : virtqueueNextDesc vq i with
      | error x => exact ⟨_, rfl, hstop fun next _ h => absurd (hnext.symm.trans h) (by simp)⟩
      | ok next =>
        dsimp only
        by_cases hend : next = vq.vring.num
        · rw [if_pos hend]
          exact ⟨_, rfl, hstop fun next' _ h => (Except.ok.inj (hnext.symm.trans h)).symm.trans hend⟩
        · obtain ⟨r, hr, hiff⟩ := ih next (e.add (vq.vring.desc i)) (by rw [Element.size_add]; omega)
          rw [if_neg hend, hr]
          refine ⟨_, rfl, ?_⟩
          have happ : (∃ s ∈ storesOf e (vq.vring.desc i) ++ r.1, virtqueueMaxSize ≤ s.2) ↔
              ∃ s ∈ r.1, virtqueueMaxSize ≤ s.2 := by
            simp only [List.mem_append, or_and_right, exists_or, or_iff_right hnone]
          refine happ.trans (hiff.trans (and_congr_right fun _ => exists_congr fun isWrite => ?_))
          rw [Element.count_add, OneWay]
          cases hw : vringDescFWrite (vq.vring.desc i) <;> cases isWrite <;> simp [hmaps, hnext, hend]

/-- A pop ends, and it stays inside the arrays exactly when the guest does not offer a loop that
fills them. -/
theorem virtqueuePopStores_spec (hnum : vq.vring.num ≤ virtqueueMaxSize) :
    ∃ r, virtqueuePopStores maps vq (vq.vring.num + 1) = some r ∧
      ((∀ s ∈ r.1, s.2 < virtqueueMaxSize) ↔ ¬ OffersLoop maps vq) := by
  have hnot : ∀ r : List (SgArray × ℕ), (∀ s ∈ r, s.2 < virtqueueMaxSize) ↔ ¬ ∃ s ∈ r, virtqueueMaxSize ≤ s.2 := by
    intro r
    simp
  rw [virtqueuePopStores]
  cases hheads : virtqueueNumHeads vq vq.lastAvailIdx with
  | error x =>
    refine ⟨_, rfl, iff_of_true (by simp) ?_⟩
    rintro ⟨-, n, head, isWrite, h, -⟩
    simp [hheads] at h
  | ok n =>
    cases n with
    | zero =>
      refine ⟨_, rfl, iff_of_true (by simp) ?_⟩
      rintro ⟨-, n, head, isWrite, h, -⟩
      simp [hheads] at h
    | succ n =>
      cases hhead : virtqueueGetHead vq vq.lastAvailIdx with
      | error x =>
        refine ⟨_, rfl, iff_of_true (by simp) ?_⟩
        rintro ⟨-, n, head, isWrite, -, h, -⟩
        simp [hhead] at h
      | ok head =>
        obtain ⟨r, hr, hiff⟩ := @popStores_spec maps vq hnum vq.vring.num head.toNat ⟨head, [], []⟩
          (Nat.zero_add _)
        dsimp only
        rw [hr]
        refine ⟨_, rfl, ?_⟩
        rw [hnot, not_iff_not]
        refine hiff.trans (and_congr_right fun hmax => ?_)
        rw [hmax]
        constructor
        · rintro ⟨isWrite, -, hway⟩
          exact ⟨n, head, isWrite, hheads, hhead, hway⟩
        · rintro ⟨_, head', isWrite, -, hhead', hway⟩
          cases Except.ok.inj (hhead.symm.trans hhead')
          exact ⟨isWrite, by cases isWrite <;> rfl, hway⟩

end Pop

/-! ### The bytes that a guest offers -/

section Avail

variable (vq : VirtQueue)

/-- The place of a head in the available ring, by its 16-bit index. -/
def ringPlace (idx : ℕ) : ℕ := idx % 2 ^ 16 % vq.vring.num

/-- The place where `virtqueue_avail_bytes` reads a head: it does not reduce the index to 16 bits. -/
def readPlace (idx : ℕ) : ℕ := idx % vq.vring.num

section Heads

variable (place : ℕ → ℕ)

/-- The condition of the outer loop of `virtqueue_avail_bytes`, with the head of the next chain. -/
def headEntry (idx : ℕ) : Except Exit (Option (ℕ × ℕ)) := do
  let numHeads ← virtqueueNumHeads vq (BitVec.ofNat 16 idx)
  if numHeads = 0 then .ok none
  else
    let head := vq.vring.availRing (place idx)
    if vq.vring.num ≤ head.toNat then .error .sillyHead else .ok (some (idx + 1, head.toNat))

/-- The descriptor after `i`, in its chain or in the next one. -/
def nextEntry (idx i : ℕ) : Except Exit (Option (ℕ × ℕ)) := do
  let next ← virtqueueNextDesc vq i
  if next = vq.vring.num then headEntry vq place idx else .ok (some (idx, next))

end Heads

-- `in_bytes` for the buffers that the device writes, `out_bytes` for those that it reads
variable (bytes : Bool → BitVec 32)

/-- `in_total` and `out_total` after a descriptor. -/
def addTotal (total : Bool → BitVec 32) (d : VRingDesc) : Bool → BitVec 32 := fun w =>
  if w = vringDescFWrite d ∧ 0 < (bytes w).toInt then total w + d.len else total w

/-- Both loops of `virtqueue_avail_bytes`, a descriptor a pass; `none` when they need more
passes. -/
def availLoop : ℕ → ℕ → ℕ → ℕ → (Bool → BitVec 32) → Option (Except Exit Bool)
  | 0, _, _, _, _ => none
  | fuel + 1, idx, i, numBufs, total =>
    if vq.vring.num < numBufs + 1 then some (.error .loopedDescriptor)
    else
      let d := vq.vring.desc i
      let w := vringDescFWrite d
      let total := addTotal bytes total d
      if 0 < (bytes w).toInt ∧ (bytes w).toInt ≤ (total w).toInt then some (.ok true)
      else match nextEntry vq (readPlace vq) idx i with
        | .error x => some (.error x)
        | .ok none => some (.ok false)
        | .ok (some (idx, i)) => availLoop fuel idx i (numBufs + 1) total

def virtqueueAvailBytes (fuel : ℕ) : Option (Except Exit Bool) :=
  match headEntry vq (readPlace vq) vq.lastAvailIdx.toNat with
  | .error x => some (.error x)
  | .ok none => some (.ok false)
  | .ok (some (idx, i)) => availLoop vq bytes fuel idx i 0 fun _ => 0

/-- The descriptors of the chains in their order, not more than a number. -/
def entriesFrom (place : ℕ → ℕ) : ℕ → ℕ → ℕ → List VRingDesc
  | 0, _, _ => []
  | n + 1, idx, i => vq.vring.desc i ::
    match nextEntry vq place idx i with
    | .ok (some (idx, i)) => entriesFrom place n idx i
    | _ => []

/-- The descriptors of the chains whose heads stand at some places, as far as the chains are well
formed: at most as many as the ring has. -/
def entriesAt (place : ℕ → ℕ) : List VRingDesc :=
  match headEntry vq place vq.lastAvailIdx.toNat with
  | .ok (some (idx, i)) => entriesFrom vq place vq.vring.num idx i
  | _ => []

/-- The descriptors of the available chains. -/
def availEntries : List VRingDesc := entriesAt vq (ringPlace vq)

/-- The descriptors that `virtqueue_avail_bytes` comes by. -/
def readEntries : List VRingDesc := entriesAt vq (readPlace vq)

/-- In a ring whose size divides `2 ^ 16`, as a power of two does, these are the same. -/
theorem readEntries_eq (h : vq.vring.num ∣ 2 ^ 16) : readEntries vq = availEntries vq := by
  have hplace : readPlace vq = ringPlace vq := funext fun idx => (Nat.mod_mod_of_dvd idx h).symm
  rw [readEntries, availEntries, hplace]

end Avail

/-- The lengths of the buffers of a direction. -/
def totalLen (isWrite : Bool) (ds : List VRingDesc) : ℕ :=
  ((ds.filter fun d => vringDescFWrite d = isWrite).map fun d => d.len.toNat).sum

/-- A positive request is met by the total of its direction. -/
def Reaches (bytes : Bool → BitVec 32) (ds : List VRingDesc) : Prop :=
  ∃ isWrite, 0 < (bytes isWrite).toInt ∧ (bytes isWrite).toInt ≤ totalLen isWrite ds

/-- A positive request is met by the total of a first part of the buffers, taken as an `int`. -/
def ReachesInt (bytes : Bool → BitVec 32) (ds : List VRingDesc) : Prop :=
  ∃ isWrite n, 0 < (bytes isWrite).toInt ∧
    (bytes isWrite).toInt ≤ (BitVec.ofNat 32 (totalLen isWrite (ds.take n))).toInt

theorem totalLen_cons (isWrite : Bool) (d : VRingDesc) (ds : List VRingDesc) :
    totalLen isWrite (d :: ds) = (if vringDescFWrite d = isWrite then d.len.toNat else 0) + totalLen isWrite ds := by
  by_cases h : vringDescFWrite d = isWrite <;> simp [totalLen, h]

theorem totalLen_take_le (isWrite : Bool) (ds : List VRingDesc) (n : ℕ) :
    totalLen isWrite (ds.take n) ≤ totalLen isWrite ds := by
  induction ds generalizing n with
  | nil => simp
  | cons d ds ih =>
    cases n with
    | zero => simp [totalLen]
    | succ n =>
      rw [List.take_succ_cons, totalLen_cons, totalLen_cons]
      exact Nat.add_le_add_left (ih n) _

theorem toInt_ofNat_le (n : ℕ) : (BitVec.ofNat 32 n).toInt ≤ n := by
  rw [BitVec.toInt_eq_toNat_cond, BitVec.toNat_ofNat]
  have := Nat.mod_le n (2 ^ 32)
  split_ifs <;> omega

theorem ReachesInt.reaches {bytes : Bool → BitVec 32} {ds : List VRingDesc} (h : ReachesInt bytes ds) :
    Reaches bytes ds := by
  obtain ⟨w, n, hpos, hle⟩ := h
  refine ⟨w, hpos, hle.trans ((toInt_ofNat_le _).trans ?_)⟩
  exact_mod_cast totalLen_take_le w ds n

section AvailSound

variable {vq : VirtQueue} {bytes : Bool → BitVec 32}

/-- A positive request is met after some more of the buffers, with those summed up so far. -/
def ReachesFrom (bytes : Bool → BitVec 32) (sum : Bool → ℕ) (ds : List VRingDesc) : Prop :=
  ∃ isWrite n, 0 < (bytes isWrite).toInt ∧
    (bytes isWrite).toInt ≤ (BitVec.ofNat 32 (sum isWrite + totalLen isWrite (ds.take n))).toInt

def addSum (sum : Bool → ℕ) (d : VRingDesc) : Bool → ℕ := fun w =>
  sum w + if vringDescFWrite d = w then d.len.toNat else 0

theorem reachesFrom_cons {sum : Bool → ℕ} (d : VRingDesc) (ds : List VRingDesc)
    (hnot : ∀ w, 0 < (bytes w).toInt → ¬ (bytes w).toInt ≤ (BitVec.ofNat 32 (sum w)).toInt) :
    ReachesFrom bytes sum (d :: ds) ↔ ReachesFrom bytes (addSum sum d) ds := by
  constructor
  · rintro ⟨w, n, hpos, hle⟩
    cases n with
    | zero => exact absurd hle (by simpa [totalLen] using hnot w hpos)
    | succ n =>
      rw [List.take_succ_cons, totalLen_cons, ← Nat.add_assoc] at hle
      exact ⟨w, n, hpos, hle⟩
  · rintro ⟨w, n, hpos, hle⟩
    refine ⟨w, n + 1, hpos, ?_⟩
    rw [List.take_succ_cons, totalLen_cons, ← Nat.add_assoc]
    exact hle

theorem not_reachesFrom_nil {sum : Bool → ℕ}
    (hnot : ∀ w, 0 < (bytes w).toInt → ¬ (bytes w).toInt ≤ (BitVec.ofNat 32 (sum w)).toInt) :
    ¬ ReachesFrom bytes sum [] := by
  rintro ⟨w, n, hpos, hle⟩
  rw [List.take_nil] at hle
  exact hnot w hpos hle

/-- The loops end, and they answer 1 exactly when a total in an `int` meets its request. -/
theorem availLoop_spec (fuel idx i numBufs : ℕ) (total : Bool → BitVec 32) (sum : Bool → ℕ)
    (htotal : ∀ w, 0 < (bytes w).toInt → total w = BitVec.ofNat 32 (sum w))
    (hnot : ∀ w, 0 < (bytes w).toInt → ¬ (bytes w).toInt ≤ (BitVec.ofNat 32 (sum w)).toInt)
    (hfuel : numBufs + fuel = vq.vring.num) :
    ∃ r, availLoop vq bytes (fuel + 1) idx i numBufs total = some r ∧
      (r = .ok true ↔ ReachesFrom bytes sum (entriesFrom vq (readPlace vq) fuel idx i)) := by
  induction fuel generalizing idx i numBufs total sum with
  | zero =>
    rw [availLoop, if_pos (by omega)]
    exact ⟨_, rfl, iff_of_false (by simp) (not_reachesFrom_nil hnot)⟩
  | succ fuel ih =>
    have htotal' : ∀ w, 0 < (bytes w).toInt →
        addTotal bytes total (vq.vring.desc i) w = BitVec.ofNat 32 (addSum sum (vq.vring.desc i) w) := by
      intro w hpos
      unfold addTotal addSum
      by_cases hw : vringDescFWrite (vq.vring.desc i) = w
      · rw [if_pos ⟨hw.symm, hpos⟩, if_pos hw, htotal w hpos, BitVec.ofNat_add, BitVec.ofNat_toNat, BitVec.setWidth_eq]
      · rw [if_neg fun h => hw h.1.symm, if_neg hw, htotal w hpos, Nat.add_zero]
    rw [availLoop, if_neg (by omega)]
    dsimp only
    set w := vringDescFWrite (vq.vring.desc i)
    rw [entriesFrom, reachesFrom_cons _ _ hnot]
    by_cases hhit : 0 < (bytes w).toInt ∧
        (bytes w).toInt ≤ (addTotal bytes total (vq.vring.desc i) w).toInt
    · rw [if_pos hhit]
      refine ⟨_, rfl, iff_of_true rfl ⟨w, 0, hhit.1, ?_⟩⟩
      show (bytes w).toInt ≤ (BitVec.ofNat 32 (addSum sum (vq.vring.desc i) w)).toInt
      rw [← htotal' w hhit.1]
      exact hhit.2
    · rw [if_neg hhit]
      have hnot' : ∀ w', 0 < (bytes w').toInt →
          ¬ (bytes w').toInt ≤ (BitVec.ofNat 32 (addSum sum (vq.vring.desc i) w')).toInt := by
        intro w' hpos hle
        by_cases hw : w = w'
        · subst hw
          rw [← htotal' _ hpos] at hle
          exact hhit ⟨hpos, hle⟩
        · rw [addSum, if_neg hw, Nat.add_zero] at hle
          exact hnot w' hpos hle
      cases hnext : nextEntry vq (readPlace vq) idx i with
      | error x => exact ⟨_, rfl, iff_of_false (by simp) (not_reachesFrom_nil hnot')⟩
      | ok p =>
        cases p with
        | none => exact ⟨_, rfl, iff_of_false (by simp) (not_reachesFrom_nil hnot')⟩
        | some p => exact ih p.1 p.2 (numBufs + 1) _ _ htotal' hnot' (by omega)

theorem virtqueueAvailBytes_spec : ∃ r, virtqueueAvailBytes vq bytes (vq.vring.num + 1) = some r ∧
    (r = .ok true ↔ ReachesInt bytes (readEntries vq)) := by
  have hnot : ∀ w, 0 < (bytes w).toInt → ¬ (bytes w).toInt ≤ (BitVec.ofNat 32 0).toInt := by
    intro w hpos hle
    have hzero : (BitVec.ofNat 32 0).toInt = 0 := rfl
    omega
  have hzero : ∀ ds, ReachesFrom bytes (fun _ => 0) ds ↔ ReachesInt bytes ds := by
    intro ds
    simp [ReachesFrom, ReachesInt]
  rw [virtqueueAvailBytes, readEntries, entriesAt, ← hzero]
  cases headEntry vq (readPlace vq) vq.lastAvailIdx.toNat with
  | error x => exact ⟨_, rfl, iff_of_false (by simp) (not_reachesFrom_nil hnot)⟩
  | ok p =>
    cases p with
    | none => exact ⟨_, rfl, iff_of_false (by simp) (not_reachesFrom_nil hnot)⟩
    | some p => exact availLoop_spec vq.vring.num p.1 p.2 0 _ _ (fun _ _ => rfl) hnot (Nat.zero_add _)

end AvailSound

/-! ### Both functions -/

/-- Both functions end; the pop stores inside its arrays; and the answer is 1 exactly when the
total of the available chains meets a positive request. -/
structure SafeFromGuest (maps : Element → VRingDesc → Bool) (vq : VirtQueue) (bytes : Bool → BitVec 32) : Prop where
  pop : ∃ r, virtqueuePopStores maps vq (vq.vring.num + 1) = some r ∧ ∀ s ∈ r.1, s.2 < virtqueueMaxSize
  avail : ∃ r, virtqueueAvailBytes vq bytes (vq.vring.num + 1) = some r ∧
    (r = .ok true ↔ Reaches bytes (availEntries vq))

/-- A queue whose guest offers descriptor 0, each descriptor being `d`. -/
def offering (num : ℕ) (d : VRingDesc) : VirtQueue := ⟨⟨num, fun _ => d, 1, fun _ => 0, 0, fun _ => ⟨0, 0⟩⟩, 0, 0, true⟩

theorem oneWay_self (n : ℕ) (e : Element) :
    OneWay (fun _ _ => true) (offering 1024 ⟨0, 0x80000000, 3, 0⟩) true n 0 e := by
  induction n generalizing e with
  | zero => rfl
  | succ n ih => exact ⟨rfl, rfl, 0, rfl, by decide, ih _⟩

/-- A buffer of `2 ^ 31` bytes does not meet a request for one byte. -/
example : virtqueueAvailBytes (offering 1 ⟨0, 0x80000000, 2, 0⟩) (fun _ => 1) 2 = some (.ok false) := rfl

end Ar7Qemu.Virtio
