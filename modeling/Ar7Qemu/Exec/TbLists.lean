import Ar7Qemu.Exec.Tb
import Ar7Qemu.Lib.Chain
import Ar7Qemu.Lib.Run

/-! The lists that translation blocks are threaded through: the chains of `tb_phys_hash`,
the lists of blocks of each physical page, and the circular lists of jumps to each block.
A pointer with a tag in its low bits is a pair of a block and a tag: for a page list the
tag is 0 or 1, for a jump list it is 2 for `jmp_first`. A walk that follows a null pointer
or does not end fails. -/

namespace Ar7Qemu.Exec.TbLists

open Lib

variable {t : Target}

structure State (t : Target) where
  tbs : ℕ → TranslationBlock t
  nbTbs : ℕ
  tbPhysHash : ℕ → Option ℕ
  physHashNext : ℕ → Option ℕ
  /-- `first_tb` of the page descriptors. -/
  firstTb : Addr t → Option (ℕ × ℕ)
  /-- `page_next[n]`. -/
  pageNext : ℕ × ℕ → Option (ℕ × ℕ)
  /-- `jmp_next[0]`, `jmp_next[1]` and `jmp_first`. -/
  jmp : ℕ × ℕ → Option (ℕ × ℕ)
  /-- The block that a jump has been patched to go to. -/
  jmpTarget : ℕ × ℕ → Option ℕ
  /-- The blocks that have been linked and not invalidated since. No code depends on it. -/
  live : ℕ → Bool

namespace State

variable (σ : State t)

/-- No list of live blocks is longer. -/
def fuel : ℕ := 2 * σ.nbTbs + 2

def tbFlush : State t :=
  { σ with nbTbs := 0, tbPhysHash := fun _ => none, firstTb := fun _ => none, live := fun _ => false }

/-- `tb_alloc`, with the size that `cpu_gen_code` finds. It fails when there are too many
blocks or too much code. -/
def tbAlloc (maxBlocks : ℕ) (pc : Addr t) (size : ℕ) (bufferFull : Bool) : State t :=
  if maxBlocks ≤ σ.nbTbs ∨ bufferFull then σ
  else { σ with
    tbs := Function.update σ.tbs σ.nbTbs { σ.tbs σ.nbTbs with pc := pc, size := size }
    nbTbs := σ.nbTbs + 1 }

def tbFree (n : ℕ) : State t :=
  if 0 < σ.nbTbs ∧ n = σ.nbTbs - 1 then { σ with nbTbs := σ.nbTbs - 1 } else σ

/-- `tb_alloc_page`, without the protection of the page. -/
def tbAllocPage (n k : ℕ) (pageAddr : Addr t) : State t :=
  { σ with
    tbs := Function.update σ.tbs n
      (if k = 0 then { σ.tbs n with pageAddr0 := pageAddr } else { σ.tbs n with pageAddr1 := pageAddr })
    pageNext := Function.update σ.pageNext (n, k) (σ.firstTb pageAddr)
    firstTb := Function.update σ.firstTb pageAddr (some (n, k)) }

def tbLinkPhys (n : ℕ) (physPc physPage2 : Addr t) : State t :=
  let h := tbPhysHashFunc physPc
  let σ := { σ with
    physHashNext := Function.update σ.physHashNext n (σ.tbPhysHash h)
    tbPhysHash := Function.update σ.tbPhysHash h (some n) }
  let σ := σ.tbAllocPage n 0 (page physPc)
  let σ :=
    if physPage2 ≠ noPage then σ.tbAllocPage n 1 physPage2
    else { σ with tbs := Function.update σ.tbs n { σ.tbs n with pageAddr1 := noPage } }
  { σ with
    jmp := Function.update (Function.update (Function.update σ.jmp (n, 2) (some (n, 2))) (n, 0) none) (n, 1) none
    jmpTarget := Function.update (Function.update σ.jmpTarget (n, 0) none) (n, 1) none
    live := Function.update σ.live n true }

def tbAddJump (n k next : ℕ) : State t :=
  if σ.jmp (n, k) = none then
    { σ with
      jmpTarget := Function.update σ.jmpTarget (n, k) (some next)
      jmp := Function.update (Function.update σ.jmp (n, k) (σ.jmp (next, 2))) (next, 2) (some (n, k)) }
  else σ

/-- `tb_remove`, in a chain of `tb_phys_hash`. -/
def tbRemove (h n : ℕ) : Option (State t) :=
  (unlink σ.physHashNext (· == n) σ.fuel (σ.tbPhysHash h)).map fun (next, head) =>
    { σ with physHashNext := next, tbPhysHash := Function.update σ.tbPhysHash h head }

def tbPageRemove (p : Addr t) (n : ℕ) : Option (State t) :=
  (unlink σ.pageNext (·.1 == n) σ.fuel (σ.firstTb p)).map fun (next, head) =>
    { σ with pageNext := next, firstTb := Function.update σ.firstTb p head }

/-- `tb_page_remove` for an entry of `page_addr` that is set. -/
def tbPageRemoveSet (p : Addr t) (n : ℕ) : Option (State t) := if p ≠ noPage then σ.tbPageRemove p n else some σ

def tbJmpRemove (n k : ℕ) : Option (State t) :=
  (unlinkRing σ.jmp σ.fuel (n, k)).map fun jmp => { σ with jmp := jmp }

/-- The loop of `tb_phys_invalidate` that suppresses the jumps to a block. -/
def resetJumps : ℕ → Option (ℕ × ℕ) → State t → Option (State t)
  | 0, _, _ => none
  | _ + 1, none, _ => none
  | fuel + 1, some (a, k), σ =>
    if k = 2 then some σ
    else
      resetJumps fuel (σ.jmp (a, k))
        { σ with
          jmpTarget := Function.update σ.jmpTarget (a, k) none
          jmp := Function.update σ.jmp (a, k) none }

/-- `tb_phys_invalidate`, where `page_addr` is `-1`. -/
def tbPhysInvalidate (n : ℕ) : Option (State t) := do
  let tb := σ.tbs n
  -- remove the TB from the hash list
  let σ ← σ.tbRemove (tbPhysHashFunc tb.physPc) n
  -- remove the TB from the page list
  let σ ← σ.tbPageRemoveSet tb.pageAddr0 n
  let σ ← σ.tbPageRemoveSet tb.pageAddr1 n
  -- suppress this TB from the two jump lists
  let σ ← σ.tbJmpRemove n 0
  let σ ← σ.tbJmpRemove n 1
  -- suppress any remaining jumps to this TB
  let σ ← resetJumps σ.fuel (σ.jmp (n, 2)) σ
  pure { σ with jmp := Function.update σ.jmp (n, 2) (some (n, 2)), live := Function.update σ.live n false }

end State

/-- The range of physical addresses of a part of a block. For the first page the end may be
after the end of the page. -/
def tbRange (tb : TranslationBlock t) (k : ℕ) : Addr t × Addr t :=
  if k = 0 then (tb.pageAddr0 + offset tb.pc, tb.pageAddr0 + offset tb.pc + BitVec.ofNat _ tb.size)
  else (tb.pageAddr1, tb.pageAddr1 + offset (tb.pc + BitVec.ofNat _ tb.size))

/-- A part of a block is in a range of addresses. -/
def Overlaps (tb : TranslationBlock t) (k start stop : ℕ) : Prop :=
  ¬ ((tbRange tb k).2.toNat ≤ start ∨ stop ≤ (tbRange tb k).1.toNat)

instance (tb : TranslationBlock t) (k start stop : ℕ) : Decidable (Overlaps tb k start stop) :=
  inferInstanceAs (Decidable (¬ _))

namespace State

/-- The loop of `tb_invalidate_phys_page_range`. -/
def rangeLoop (start stop : ℕ) : ℕ → Option (ℕ × ℕ) → State t → Option (State t)
  | 0, _, _ => none
  | _ + 1, none, σ => some σ
  | fuel + 1, some (n, k), σ =>
    if Overlaps (σ.tbs n) k start stop then
      -- the next block is read before this one is invalidated
      (σ.tbPhysInvalidate n).bind (rangeLoop start stop fuel (σ.pageNext (n, k)))
    else rangeLoop start stop fuel (σ.pageNext (n, k)) σ

/-- `tb_invalidate_phys_page_range`, as far as the lists are concerned. -/
def tbInvalidatePhysPageRange (σ : State t) (start stop : ℕ) : Option (State t) :=
  rangeLoop start stop σ.fuel (σ.firstTb (page (BitVec.ofNat _ start))) σ

end State

/-- What happens to the lists. -/
inductive Op (t : Target) where
  | alloc (maxBlocks : ℕ) (pc : Addr t) (size : ℕ) (bufferFull : Bool)
  | linkPhys (n : ℕ) (page1 : PhysPage t) (page2 : Option (PhysPage t))
  | addJump (n k next : ℕ)
  | physInvalidate (n : ℕ)
  | invalidateRange (start stop : ℕ)
  | free (n : ℕ)
  | flush

def step (σ : State t) : Op t → Option (State t)
  | .alloc maxBlocks pc size bufferFull => some (σ.tbAlloc maxBlocks pc size bufferFull)
  | .linkPhys n page1 page2 =>
    some (σ.tbLinkPhys n (page1.addr + offset (σ.tbs n).pc) ((page2.map PhysPage.addr).getD noPage))
  | .addJump n k next => some (σ.tbAddJump n k next)
  | .physInvalidate n => σ.tbPhysInvalidate n
  | .invalidateRange start stop => σ.tbInvalidatePhysPageRange start stop
  | .free n => some (σ.tbFree n)
  | .flush => some σ.tbFlush

def State.init : State t where
  tbs := fun _ => ⟨0, 0, 0, 0, 0, 0, 0, 0⟩
  nbTbs := 0
  tbPhysHash := fun _ => none
  physHashNext := fun _ => none
  firstTb := fun _ => none
  pageNext := fun _ => none
  jmp := fun _ => none
  jmpTarget := fun _ => none
  live := fun _ => false

end Ar7Qemu.Exec.TbLists
