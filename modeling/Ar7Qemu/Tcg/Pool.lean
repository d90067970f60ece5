import Ar7Qemu.Lib.Chain
import Ar7Qemu.Lib.Run
import Mathlib.Algebra.Group.Nat.Defs
import Mathlib.Algebra.Ring.Int.Defs
import Mathlib.Data.Int.Basic

/-! The pool allocator of `tcg.c`. Memory is taken from chunks that are kept in a list and used again
after a reset. The blocks handed out since the last reset are apart, and the list of chunks is whole,
as long as a block larger than a chunk finds room in the current chunk or is the first one ever asked
for: a chunk for such a block is linked to the chunk before it in both directions. Pointers do not wrap. -/

namespace Ar7Qemu.Tcg.Pool

open Lib

def tcgPoolChunkSize : ℕ := 32768

def sizeofLong (long64 : Bool) : ℕ := if long64 then 8 else 4

/-- A size rounded up to whole words, as an `int`. -/
def roundUp (long64 : Bool) (size : ℕ) : ℤ :=
  (((size + sizeofLong long64 - 1) / sizeofLong long64 * sizeofLong long64 : ℕ) : ℤ).bmod (2 ^ 32)

/-- The part of a chunk that is free: `pool_cur` and `pool_end` as offsets in the chunk. -/
structure Room where
  chunk : ℕ
  cur : ℤ
  stop : ℕ

/-- The pool of `TCGContext`. Chunks are numbered as they are allocated; `size` and `next` are fields of
`TCGPool`. -/
structure TCGContext where
  room : Option Room
  poolFirst : Option ℕ
  poolCurrent : Option ℕ
  size : ℕ → ℕ
  next : ℕ → Option ℕ
  chunks : ℕ

namespace TCGContext

variable (s : TCGContext)

/-- The chunk becomes the current one, and its first `size` bytes are handed out. -/
def enter (p : ℕ) (size : ℤ) : (ℕ × ℤ) × TCGContext :=
  ((p, 0), { s with poolCurrent := some p, room := some ⟨p, size, s.size p⟩ })

/-- A chunk is allocated and becomes the one after the current chunk, or the first. -/
def newChunk (size : ℕ) (next : Option ℕ) : TCGContext :=
  let p := s.chunks
  let s := { s with chunks := s.chunks + 1, size := Function.update s.size p size, next := Function.update s.next p next }
  match s.poolCurrent with
  | some c => { s with next := Function.update s.next c (some p) }
  | none => { s with poolFirst := some p }

/-- The chunk after the current one, or the first. -/
def following : Option ℕ :=
  match s.poolCurrent with
  | none => s.poolFirst
  | some c => s.next c

def tcgMallocInternal (size : ℤ) : (ℕ × ℤ) × TCGContext :=
  if (tcgPoolChunkSize : ℤ) < size then
    -- big malloc: insert a new pool
    (s.newChunk size.toNat s.poolCurrent).enter s.chunks size
  else
    match s.following with
    | none => (s.newChunk tcgPoolChunkSize none).enter s.chunks size
    | some p => s.enter p size

/-- `tcg_malloc`: the chunk and the offset of the block, if the pointer is not null. -/
def tcgMalloc (long64 : Bool) (size : ℕ) : Option (ℕ × ℤ) × TCGContext :=
  let size := roundUp long64 size
  match s.room with
  | none =>
    if size ≠ 0 then
      let (p, s) := s.tcgMallocInternal size
      (some p, s)
    else (none, s)
  | some r =>
    if (r.stop : ℤ) < r.cur + size then
      let (p, s) := s.tcgMallocInternal size
      (some p, s)
    else (some (r.chunk, r.cur), { s with room := some { r with cur := r.cur + size } })

def tcgPoolReset : TCGContext := { s with room := none, poolCurrent := none }

/-- No chunk has been allocated. -/
def init : TCGContext := ⟨none, none, none, fun _ => 0, fun _ => none, 0⟩

end TCGContext

/-- The bytes of a block that were asked for, in a chunk. -/
structure Block where
  chunk : ℕ
  start : ℤ
  size : ℕ

def Apart (a b : Block) : Prop := a.chunk ≠ b.chunk ∨ a.start + a.size ≤ b.start ∨ b.start + b.size ≤ a.start

instance (a b : Block) : Decidable (Apart a b) := inferInstanceAs (Decidable (_ ∨ _ ∨ _))

/-- The pool, with the blocks handed out since the last reset. -/
structure State where
  pool : TCGContext
  blocks : List Block

/-- Sizes are not negative. -/
inductive Op
  | malloc (size : Fin (2 ^ 31))
  | reset

namespace State

def init : State := ⟨.init, []⟩

def step (long64 : Bool) (s : State) : Op → State
  | .malloc size =>
    match s.pool.tcgMalloc long64 size with
    | (some (c, o), pool) => ⟨pool, ⟨c, o, size⟩ :: s.blocks⟩
    | (none, pool) => ⟨pool, s.blocks⟩
  | .reset => ⟨s.pool.tcgPoolReset, []⟩

variable (s : State)

/-- The blocks are apart and inside their chunks, and the list of chunks ends and has every chunk,
each once. -/
structure Right : Prop where
  apart : s.blocks.Pairwise Apart
  inside : ∀ b ∈ s.blocks, b.chunk < s.pool.chunks ∧ 0 ≤ b.start ∧ b.start + b.size ≤ s.pool.size b.chunk
  list : ∃ l, Seg s.pool.next s.pool.poolFirst l none ∧ l.Nodup ∧ ∀ p, p ∈ l ↔ p < s.pool.chunks

def Fits (long64 : Bool) (size : ℕ) : Prop := ∃ r, s.pool.room = some r ∧ r.cur + roundUp long64 size ≤ r.stop

/-- Rounding the size does not overflow, and a block larger than a chunk finds room in the current
chunk, or finds no chunk at all. -/
def OpSafe (long64 : Bool) (s : State) : Op → Prop
  | .malloc size => size.val + sizeofLong long64 ≤ 2 ^ 31 ∧
      (tcgPoolChunkSize < size.val → s.Fits long64 size ∨ s.pool.poolFirst = none)
  | .reset => True

end State

/-! ### Sizes -/

theorem roundUp_spec (long64 : Bool) {size : ℕ} (h : size + sizeofLong long64 ≤ 2 ^ 31) :
    ∃ r : ℕ, roundUp long64 size = r ∧ size ≤ r ∧ r + sizeofLong long64 ≤ 2 ^ 31 ∧
      (tcgPoolChunkSize < r ↔ tcgPoolChunkSize < size) ∧ (r = 0 ↔ size = 0) := by
  refine ⟨(size + sizeofLong long64 - 1) / sizeofLong long64 * sizeofLong long64, ?_, ?_⟩
  · unfold roundUp
    cases long64
    all_goals
      simp only [sizeofLong, if_true, Bool.false_eq_true, if_false] at h ⊢
      rw [Int.bmod_eq_of_le (by omega) (by omega)]
  · cases long64
    all_goals
      simp only [sizeofLong, tcgPoolChunkSize, if_true, Bool.false_eq_true, if_false] at h ⊢
      omega

theorem roundUp_overflow (long64 : Bool) {size : ℕ} (hlt : size < 2 ^ 31) (h : 2 ^ 31 < size + sizeofLong long64) :
    roundUp long64 size = -2 ^ 31 := by
  unfold roundUp
  rw [Int.bmod_def]
  cases long64
  all_goals
    simp only [sizeofLong, if_true, Bool.false_eq_true, if_false] at h ⊢
    omega

/-! ### The list of chunks -/

/-- The chunks in their order. None is smaller than a chunk is by default. -/
structure Chunks (long64 : Bool) (pool : TCGContext) (L : List ℕ) : Prop where
  seg : Seg pool.next pool.poolFirst L none
  nodup : L.Nodup
  mem : ∀ p, p ∈ L ↔ p < pool.chunks
  size_ge : ∀ p ∈ L, tcgPoolChunkSize ≤ pool.size p
  size_le : ∀ p ∈ L, pool.size p + sizeofLong long64 ≤ 2 ^ 31

variable {long64 : Bool} {pool : TCGContext} {L : List ℕ}

/-- A chunk is added behind the last one, which is the current one. -/
theorem Chunks.append (h : Chunks long64 pool L) (hcurrent : pool.poolCurrent = L.getLast?) {n : ℕ}
    (hge : tcgPoolChunkSize ≤ n) (hle : n + sizeofLong long64 ≤ 2 ^ 31) :
    Chunks long64 (pool.newChunk n none) (L ++ [pool.chunks]) := by
  have hnew : pool.chunks ∉ L := fun hmem => lt_irrefl _ ((h.mem _).1 hmem)
  have hold : Seg (Function.update pool.next pool.chunks none) pool.poolFirst (L ++ []) none := by
    rw [List.append_nil]
    exact h.seg.update hnew none
  have hlast : Seg (Function.update pool.next pool.chunks none) (some pool.chunks) [pool.chunks] none :=
    ⟨rfl, Function.update_self _ _ _⟩
  obtain ⟨hnil, hcons⟩ := hold.splice hlast h.nodup (List.disjoint_singleton.2 hnew)
  have hfields : (pool.newChunk n none).chunks = pool.chunks + 1 ∧
      (pool.newChunk n none).size = Function.update pool.size pool.chunks n := by
    unfold TCGContext.newChunk
    dsimp only
    split <;> exact ⟨rfl, rfl⟩
  have hsize : ∀ p ∈ L ++ [pool.chunks], (p ∈ L ∧ (pool.newChunk n none).size p = pool.size p) ∨
      (pool.newChunk n none).size p = n := by
    intro p hp
    rw [hfields.2]
    rcases List.mem_append.1 hp with hp | hp
    · exact .inl ⟨hp, Function.update_of_ne (ne_of_mem_of_not_mem hp hnew) _ _⟩
    · rw [List.mem_singleton.1 hp]
      exact .inr (Function.update_self _ _ _)
  refine ⟨?_, ?_, fun p => ?_, fun p hp => ?_, fun p hp => ?_⟩
  · cases hc : L.getLast? with
    | none =>
      rw [hc] at hcurrent
      unfold TCGContext.newChunk
      dsimp only
      rw [hcurrent]
      exact hnil (List.getLast?_eq_none_iff.1 hc)
    | some c =>
      rw [hc] at hcurrent
      unfold TCGContext.newChunk
      dsimp only
      rw [hcurrent]
      exact hcons c hc
  · exact h.nodup.append (List.nodup_singleton _) (List.disjoint_singleton.2 hnew)
  · rw [hfields.1, List.mem_append, h.mem, List.mem_singleton]
    omega
  · rcases hsize p hp with ⟨hmem, heq⟩ | heq
    · rw [heq]
      exact h.size_ge p hmem
    · rw [heq]
      exact hge
  · rcases hsize p hp with ⟨hmem, heq⟩ | heq
    · rw [heq]
      exact h.size_le p hmem
    · rw [heq]
      exact hle

/-! ### Blocks -/

/-- The chunks are in order, and the blocks lie in chunks before the current one or below `pool_cur`. -/
structure Inv (long64 : Bool) (s : State) (L : List ℕ) : Prop where
  chunks : Chunks long64 s.pool L
  apart : s.blocks.Pairwise Apart
  inside : ∀ b ∈ s.blocks, b.chunk ∈ L ∧ 0 ≤ b.start ∧ b.start + b.size ≤ s.pool.size b.chunk
  position : (s.pool.poolCurrent = none ∧ s.pool.room = none ∧ s.blocks = []) ∨
    ∃ c l₁ l₂ cur, s.pool.poolCurrent = some c ∧ s.pool.room = some ⟨c, cur, s.pool.size c⟩ ∧ L = l₁ ++ c :: l₂ ∧ 0 ≤ cur ∧
      ∀ b ∈ s.blocks, b.chunk ∈ l₁ ∨ b.chunk = c ∧ b.start + b.size ≤ cur

variable {s : State}

theorem Inv.right (h : Inv long64 s L) : s.Right where
  apart := h.apart
  inside := fun b hb => ⟨(h.chunks.mem _).1 (h.inside b hb).1, (h.inside b hb).2⟩
  list := ⟨L, h.chunks.seg, h.chunks.nodup, h.chunks.mem⟩

/-- The chunks that may hold blocks, and the chunks after them. -/
theorem Inv.split (h : Inv long64 s L) : ∃ used rest, L = used ++ rest ∧ (∀ b ∈ s.blocks, b.chunk ∈ used) ∧
    s.pool.following = rest.head? ∧ (rest = [] → s.pool.poolCurrent = L.getLast?) := by
  rcases h.position with ⟨hcurrent, -, hblocks⟩ | ⟨c, l₁, l₂, cur, hcurrent, -, rfl, -, hblocks⟩
  · refine ⟨[], L, rfl, ?_, ?_, ?_⟩
    · rw [hblocks]
      simp
    · unfold TCGContext.following
      rw [hcurrent]
      exact h.chunks.seg.head?_eq
    · rintro rfl
      exact hcurrent
  · refine ⟨l₁ ++ [c], l₂, by simp, fun b hb => ?_, ?_, ?_⟩
    · rcases hblocks b hb with hmem | ⟨heq, -⟩
      · exact List.mem_append_left _ hmem
      · exact List.mem_append_right _ (List.mem_singleton.2 heq)
    · unfold TCGContext.following
      rw [hcurrent]
      exact h.chunks.seg.next_eq_head?
    · rintro rfl
      rw [hcurrent, List.getLast?_append]
      rfl

/-- A block is handed out at the start of a chunk that no other block lies in or behind. -/
theorem inv_enter {blocks : List Block} {p : ℕ} {l₁ l₂ : List ℕ} (hchunks : Chunks long64 pool (l₁ ++ p :: l₂))
    (hapart : blocks.Pairwise Apart) (hinside : ∀ b ∈ blocks, 0 ≤ b.start ∧ b.start + b.size ≤ pool.size b.chunk)
    (hbefore : ∀ b ∈ blocks, b.chunk ∈ l₁) {size r : ℕ} (hsize : size ≤ r) (hr : r ≤ pool.size p) :
    Inv long64 ⟨(pool.enter p r).2, ⟨p, 0, size⟩ :: blocks⟩ (l₁ ++ p :: l₂) := by
  have hp : p ∉ l₁ := fun hmem => List.disjoint_of_nodup_append hchunks.nodup hmem List.mem_cons_self
  refine ⟨⟨hchunks.seg, hchunks.nodup, hchunks.mem, hchunks.size_ge, hchunks.size_le⟩, ?_, ?_, .inr ?_⟩
  · exact List.pairwise_cons.2 ⟨fun b hb => .inl (ne_of_mem_of_not_mem (hbefore b hb) hp).symm, hapart⟩
  · intro b hb
    rcases List.mem_cons.1 hb with rfl | hb
    · refine ⟨List.mem_append_right _ List.mem_cons_self, le_rfl, ?_⟩
      show (0 : ℤ) + size ≤ pool.size p
      omega
    · exact ⟨List.mem_append_left _ (hbefore b hb), hinside b hb⟩
  · refine ⟨p, l₁, l₂, r, rfl, rfl, rfl, Int.natCast_nonneg r, fun b hb => ?_⟩
    rcases List.mem_cons.1 hb with rfl | hb
    · refine .inr ⟨rfl, ?_⟩
      show (0 : ℤ) + size ≤ r
      omega
    · exact .inl (hbefore b hb)

theorem size_newChunk (pool : TCGContext) (n : ℕ) (next : Option ℕ) :
    (pool.newChunk n next).size = Function.update pool.size pool.chunks n := by
  unfold TCGContext.newChunk
  dsimp only
  split <;> rfl

theorem inv_newChunk (h : Inv long64 s L) (hcurrent : s.pool.poolCurrent = L.getLast?) {n size r : ℕ} (hsize : size ≤ r)
    (hr : r ≤ n) (hge : tcgPoolChunkSize ≤ n) (hle : n + sizeofLong long64 ≤ 2 ^ 31) :
    Inv long64 ⟨((s.pool.newChunk n none).enter s.pool.chunks r).2, ⟨s.pool.chunks, 0, size⟩ :: s.blocks⟩
      (L ++ [s.pool.chunks]) := by
  have hnew : s.pool.chunks ∉ L := fun hmem => lt_irrefl _ ((h.chunks.mem _).1 hmem)
  refine inv_enter (h.chunks.append hcurrent hge hle) h.apart (fun b hb => ?_) (fun b hb => (h.inside b hb).1) hsize ?_
  · rw [size_newChunk, Function.update_of_ne (ne_of_mem_of_not_mem (h.inside b hb).1 hnew)]
    exact (h.inside b hb).2
  · rw [size_newChunk, Function.update_self]
    exact hr

theorem Inv.nil_of_first (h : Inv long64 s L) (hfirst : s.pool.poolFirst = none) : L = [] := by
  have hhead := h.chunks.seg.head?_eq
  rw [hfirst] at hhead
  exact List.head?_eq_none_iff.1 hhead.symm

theorem Inv.current_of_nil (h : Inv long64 s []) : s.pool.poolCurrent = none := by
  obtain ⟨used, rest, heq, -, -, hcurrent⟩ := h.split
  exact hcurrent (List.append_eq_nil_iff.1 heq.symm).2

/-- A block that does not fit into the current chunk. -/
theorem inv_internal (h : Inv long64 s L) {size r : ℕ} (hsize : size ≤ r) (hle : r + sizeofLong long64 ≤ 2 ^ 31)
    (hsafe : tcgPoolChunkSize < r → s.pool.poolFirst = none) :
    ∃ p pool L', s.pool.tcgMallocInternal r = ((p, 0), pool) ∧ Inv long64 ⟨pool, ⟨p, 0, size⟩ :: s.blocks⟩ L' := by
  unfold TCGContext.tcgMallocInternal
  by_cases hbig : tcgPoolChunkSize < r
  · have hnil := h.nil_of_first (hsafe hbig)
    subst hnil
    have hcurrent := h.current_of_nil
    rw [if_pos (by exact_mod_cast hbig), hcurrent, Int.toNat_natCast]
    exact ⟨_, _, _, rfl, inv_newChunk h hcurrent hsize le_rfl hbig.le hle⟩
  · rw [if_neg (by exact_mod_cast hbig)]
    have hchunk : tcgPoolChunkSize + sizeofLong long64 ≤ 2 ^ 31 := by
      unfold tcgPoolChunkSize sizeofLong
      split_ifs <;> decide
    obtain ⟨used, rest, rfl, hused, hfollowing, hlast⟩ := h.split
    cases rest with
    | nil =>
      rw [hfollowing]
      exact ⟨_, _, _, rfl, inv_newChunk h (hlast rfl) hsize (not_lt.1 hbig) le_rfl hchunk⟩
    | cons p rest =>
      have hp := h.chunks.size_ge p (List.mem_append_right _ List.mem_cons_self)
      rw [hfollowing]
      exact ⟨_, _, _, rfl, inv_enter h.chunks h.apart (fun b hb => (h.inside b hb).2) hused hsize ((not_lt.1 hbig).trans hp)⟩

/-- A block that fits goes to the end of those in the current chunk. -/
theorem inv_fits (h : Inv long64 s L) {size r : ℕ} (hsize : size ≤ r) {room : Room} (hroom : s.pool.room = some room)
    (hfits : room.cur + r ≤ room.stop) :
    Inv long64 ⟨{ s.pool with room := some { room with cur := room.cur + r } },
      ⟨room.chunk, room.cur, size⟩ :: s.blocks⟩ L := by
  rcases h.position with ⟨-, hnone, -⟩ | ⟨c, l₁, l₂, cur, hcurrent, hsome, rfl, hcur, hblocks⟩
  · rw [hroom] at hnone
    exact absurd hnone nofun
  · rw [hroom] at hsome
    cases hsome
    have hc : c ∉ l₁ := fun hmem => List.disjoint_of_nodup_append h.chunks.nodup hmem List.mem_cons_self
    have hstop : cur + r ≤ s.pool.size c := hfits
    refine ⟨⟨h.chunks.seg, h.chunks.nodup, h.chunks.mem, h.chunks.size_ge, h.chunks.size_le⟩, ?_, ?_, .inr ?_⟩
    · refine List.pairwise_cons.2 ⟨fun b hb => ?_, h.apart⟩
      rcases hblocks b hb with hmem | ⟨-, hend⟩
      · exact .inl (ne_of_mem_of_not_mem hmem hc).symm
      · exact .inr (.inr hend)
    · intro b hb
      rcases List.mem_cons.1 hb with rfl | hb
      · refine ⟨List.mem_append_right _ List.mem_cons_self, hcur, ?_⟩
        show cur + size ≤ s.pool.size c
        omega
      · exact h.inside b hb
    · refine ⟨c, l₁, l₂, cur + r, hcurrent, rfl, rfl, by omega, fun b hb => ?_⟩
      rcases List.mem_cons.1 hb with rfl | hb
      · refine .inr ⟨rfl, ?_⟩
        show cur + size ≤ cur + r
        omega
      · rcases hblocks b hb with hmem | ⟨heq, hend⟩
        · exact .inl hmem
        · exact .inr ⟨heq, by omega⟩

theorem inv_reset (h : Inv long64 s L) : Inv long64 ⟨s.pool.tcgPoolReset, []⟩ L :=
  ⟨⟨h.chunks.seg, h.chunks.nodup, h.chunks.mem, h.chunks.size_ge, h.chunks.size_le⟩, List.Pairwise.nil, by simp,
    .inl ⟨rfl, rfl, rfl⟩⟩

/-- What a request does: nothing, a block in the current chunk, or one in another chunk. -/
theorem malloc_cases (s : State) {size r : ℕ} (hround : roundUp long64 size = r) :
    (r = 0 ∧ ¬ s.Fits long64 size ∧ s.pool.room = none ∧ s.pool.tcgMalloc long64 size = (none, s.pool)) ∨
    (∃ room, s.pool.room = some room ∧ room.cur + r ≤ room.stop ∧ s.pool.tcgMalloc long64 size =
      (some (room.chunk, room.cur), { s.pool with room := some { room with cur := room.cur + r } })) ∨
    (¬ s.Fits long64 size ∧ s.pool.tcgMalloc long64 size =
      (some (s.pool.tcgMallocInternal r).1, (s.pool.tcgMallocInternal r).2)) := by
  unfold State.Fits TCGContext.tcgMalloc
  rw [hround]
  cases hroom : s.pool.room with
  | none =>
    have hfits : ¬ ∃ room, (none : Option Room) = some room ∧ room.cur + (r : ℤ) ≤ room.stop := by simp
    by_cases hr : r = 0
    · subst hr
      exact .inl ⟨rfl, hfits, rfl, rfl⟩
    · have hne : (r : ℤ) ≠ 0 := by exact_mod_cast hr
      refine .inr (.inr ⟨hfits, ?_⟩)
      dsimp only
      rw [if_pos hne]
  | some room =>
    by_cases hlt : (room.stop : ℤ) < room.cur + r
    · refine .inr (.inr ⟨?_, ?_⟩)
      · rintro ⟨_, heq, hle⟩
        cases heq
        omega
      · dsimp only
        rw [if_pos hlt]
    · refine .inr (.inl ⟨room, rfl, not_lt.1 hlt, ?_⟩)
      dsimp only
      rw [if_neg hlt]

theorem inv_step {op : Op} (h : ∃ L, Inv long64 s L) (hok : s.OpSafe long64 op) :
    ∃ L, Inv long64 (s.step long64 op) L := by
  obtain ⟨L, h⟩ := h
  cases op with
  | reset => exact ⟨L, inv_reset h⟩
  | malloc size =>
    obtain ⟨hbound, hsafe⟩ := hok
    obtain ⟨r, hround, hsize, hle, hbig, -⟩ := roundUp_spec long64 hbound
    rcases malloc_cases s hround with ⟨-, -, -, heq⟩ | ⟨room, hroom, hfits, heq⟩ | ⟨hfits, heq⟩
    · have hstep : s.step long64 (.malloc size) = s := by rw [State.step, heq]
      rw [hstep]
      exact ⟨L, h⟩
    · refine ⟨L, ?_⟩
      rw [State.step, heq]
      exact inv_fits h hsize hroom hfits
    · obtain ⟨p, pool, L', hinternal, hinv⟩ := inv_internal h hsize hle fun hlt => (hsafe (hbig.1 hlt)).resolve_left hfits
      refine ⟨L', ?_⟩
      rw [State.step, heq, hinternal]
      exact hinv

/-! ### Where the list or the blocks go wrong -/

theorem seg_single {next : ℕ → Option ℕ} {n : ℕ} {l : List ℕ} (h : Seg next (some n) l none) (hn : next n = none) : l = [n] := by
  cases l with
  | nil => exact absurd h nofun
  | cons a l =>
    obtain ⟨ha, htail⟩ := h
    cases ha
    rw [hn] at htail
    cases l with
    | nil => rfl
    | cons b l => exact absurd htail.1 nofun

theorem seg_no_cycle {next : ℕ → Option ℕ} {first : Option ℕ} {a b : ℕ} {l : List ℕ} (h : Seg next first l none)
    (hnodup : l.Nodup) (ha : next a = some b) (hb : next b = some a) : a ∉ l := by
  intro hmem
  obtain ⟨l₁, l₂, rfl⟩ := List.append_of_mem hmem
  have hnext := h.next_eq_head?
  rw [ha] at hnext
  cases l₂ with
  | nil => exact absurd hnext nofun
  | cons c l₂ =>
    cases hnext
    rw [List.append_cons] at h
    have hback := h.next_eq_head?
    rw [hb] at hback
    have hin : a ∈ l₂ := List.mem_of_mem_head? hback.symm
    exact (List.nodup_cons.1 (List.nodup_append.1 hnodup).2.1).1 (List.mem_cons_of_mem _ hin)

/-- A chunk for a large block loses the chunks before it, or those after the current one. -/
theorem newChunk_not_whole (h : Inv long64 s L) (hfirst : s.pool.poolFirst ≠ none) (n : ℕ) :
    ¬ ∃ l, Seg (s.pool.newChunk n s.pool.poolCurrent).next (s.pool.newChunk n s.pool.poolCurrent).poolFirst l none ∧
      l.Nodup ∧ ∀ p, p ∈ l ↔ p < (s.pool.newChunk n s.pool.poolCurrent).chunks := by
  rintro ⟨l, hseg, hnodup, hmem⟩
  unfold TCGContext.newChunk at hseg hmem
  rcases h.position with ⟨hcurrent, -, -⟩ | ⟨c, l₁, l₂, cur, hcurrent, -, rfl, -, -⟩
  · rw [hcurrent] at hseg hmem
    obtain ⟨f, hf⟩ := Option.ne_none_iff_exists'.1 hfirst
    have hhead := h.chunks.seg.head?_eq
    rw [hf] at hhead
    have hlt := (h.chunks.mem f).1 (List.mem_of_mem_head? hhead.symm)
    have hin := (hmem f).2 (Nat.lt_succ_of_lt hlt)
    rw [seg_single hseg (Function.update_self _ _ _), List.mem_singleton] at hin
    exact absurd hin (Nat.ne_of_lt hlt)
  · rw [hcurrent] at hseg hmem
    have hlt := (h.chunks.mem c).1 (List.mem_append_right _ List.mem_cons_self)
    refine seg_no_cycle hseg hnodup (Function.update_self _ _ _) ?_ ((hmem c).2 (Nat.lt_succ_of_lt hlt))
    dsimp only
    rw [Function.update_of_ne (Nat.ne_of_gt hlt), Function.update_self]

theorem internal_size (h : Inv long64 s L) {z : ℤ} (hz : z ≤ tcgPoolChunkSize) :
    ∃ p pool, s.pool.tcgMallocInternal z = ((p, 0), pool) ∧ pool.size p + sizeofLong long64 ≤ 2 ^ 31 := by
  unfold TCGContext.tcgMallocInternal
  rw [if_neg (not_lt.2 hz)]
  obtain ⟨used, rest, rfl, -, hfollowing, -⟩ := h.split
  rw [hfollowing]
  cases rest with
  | nil =>
    refine ⟨_, _, rfl, ?_⟩
    show (s.pool.newChunk tcgPoolChunkSize none).size s.pool.chunks + _ ≤ _
    rw [size_newChunk, Function.update_self]
    unfold tcgPoolChunkSize sizeofLong
    split_ifs <;> decide
  | cons p rest => exact ⟨_, _, rfl, h.chunks.size_le p (List.mem_append_right _ List.mem_cons_self)⟩

theorem bound_of_right (h : Inv long64 s L) {size : Fin (2 ^ 31)} (hright : (s.step long64 (.malloc size)).Right) :
    size.val + sizeofLong long64 ≤ 2 ^ 31 := by
  by_contra hlt
  have hround := roundUp_overflow long64 size.isLt (not_le.1 hlt)
  have hinternal : ∃ c o pool, s.pool.tcgMalloc long64 size = (some (c, o), pool) ∧
      pool.size c + sizeofLong long64 ≤ 2 ^ 31 := by
    obtain ⟨p, pool, heq, hsize⟩ := internal_size h (show (-2 ^ 31 : ℤ) ≤ tcgPoolChunkSize by decide)
    unfold TCGContext.tcgMalloc
    rw [hround]
    cases hroom : s.pool.room with
    | none =>
      refine ⟨p, 0, pool, ?_, hsize⟩
      dsimp only
      rw [if_pos (by decide), heq]
    | some room =>
      by_cases hfull : (room.stop : ℤ) < room.cur + -2 ^ 31
      · refine ⟨p, 0, pool, ?_, hsize⟩
        dsimp only
        rw [if_pos hfull, heq]
      · refine ⟨room.chunk, room.cur, _, if_neg hfull, ?_⟩
        rcases h.position with ⟨-, hnone, -⟩ | ⟨c, l₁, l₂, cur, -, hsome, rfl, -, -⟩
        · rw [hroom] at hnone
          exact absurd hnone nofun
        · rw [hroom] at hsome
          cases hsome
          exact h.chunks.size_le c (List.mem_append_right _ List.mem_cons_self)
  obtain ⟨c, o, pool, heq, hsize⟩ := hinternal
  have hinside := hright.inside
  rw [State.step, heq] at hinside
  obtain ⟨-, hstart, hend⟩ := hinside _ List.mem_cons_self
  dsimp only at hstart hend
  omega

/-- A step that leaves the pool right meets its condition. -/
theorem opSafe_of_right {op : Op} (h : ∃ L, Inv long64 s L) (hright : (s.step long64 op).Right) : s.OpSafe long64 op := by
  obtain ⟨L, h⟩ := h
  cases op with
  | reset => trivial
  | malloc size =>
    have hbound := bound_of_right h hright
    refine ⟨hbound, fun hlarge => ?_⟩
    by_contra hnot
    obtain ⟨hfits, hfirst⟩ := not_or.1 hnot
    obtain ⟨r, hround, hsize, hle, hbig, -⟩ := roundUp_spec long64 hbound
    rcases malloc_cases s hround with ⟨hr, -⟩ | ⟨room, hroom, hle, -⟩ | ⟨-, heq⟩
    · have hpos := hbig.2 hlarge
      omega
    · exact hfits ⟨room, hroom, by rw [hround]; exact hle⟩
    · have hlarge' : (tcgPoolChunkSize : ℤ) < r := by exact_mod_cast hbig.2 hlarge
      have hlist := hright.list
      unfold TCGContext.tcgMallocInternal at heq
      rw [if_pos hlarge', Int.toNat_natCast] at heq
      rw [State.step, heq] at hlist
      exact newChunk_not_whole h hfirst r hlist

theorem inv_init : Inv long64 State.init [] := by
  refine ⟨⟨rfl, List.nodup_nil, fun p => ?_, by simp, by simp⟩, List.Pairwise.nil, ?_, .inl ⟨rfl, rfl, rfl⟩⟩
  · exact iff_of_false (List.not_mem_nil) (Nat.not_lt_zero p)
  · intro b hb
    exact absurd hb List.not_mem_nil

/-- In every state of a run the blocks are apart and the list of chunks is whole just where each request
is of a size that can be rounded up and, beyond the size of a chunk, finds room or the pool unused. -/
theorem tcg_pool_iff (long64 : Bool) (ops : List Op) :
    (∀ s ∈ states (State.step long64) State.init ops, s.Right) ↔
      Meets (State.step long64) (State.OpSafe long64) State.init ops :=
  states_iff_meets_of (P := fun s => ∃ L, Inv long64 s L) (fun _ h => h.elim fun _ hinv => hinv.right) (fun _ _ h hok => inv_step h hok)
    (fun _ _ h hright => opSafe_of_right h hright) ops _ ⟨[], inv_init⟩

/-- A large block between two small ones: the small ones are the same memory. -/
theorem tcg_pool_overlap : ¬ ∀ (long64 : Bool) (ops : List Op), ∀ s ∈ states (State.step long64) State.init ops,
    s.blocks.Pairwise Apart := by
  intro h
  have hlast := h true [.malloc 16, .malloc 40000, .malloc 16] _ (foldl_mem_states _ _)
  exact absurd hlast (by decide)

end Ar7Qemu.Tcg.Pool
