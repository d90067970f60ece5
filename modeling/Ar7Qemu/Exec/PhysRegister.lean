import Ar7Qemu.Exec.Tb
import Mathlib.Data.List.Count
import Mathlib.Tactic.Ring

/-! The registration of physical memory in exec.c: the tables of page descriptors, the subpages
and the dispatch of an access. Addresses are numbers, and a range ends within the address space.
The levels above the tables of descriptors are one map. KVM, KQEMU and the flushes of the TLB
are left out. -/

namespace Ar7Qemu.Exec.PhysRegister

def l2Size : ℕ := 2 ^ 10

def ioMemNbEntries (t : Target) : ℕ := 2 ^ (t.pageBits - 3)

/-- The bits of a `phys_offset`: a RAM page, an index into the I/O tables, and the flags
`IO_MEM_SUBWIDTH`, `IO_MEM_SUBPAGE` and `IO_MEM_ROMD`. -/
structure PhysOffset where
  page : ℕ
  index : ℕ
  subwidth : Bool
  subpage : Bool
  romd : Bool
  deriving DecidableEq

def ioMemUnassigned : PhysOffset := ⟨0, 2, false, false, false⟩

namespace PhysOffset

variable (d : PhysOffset)

/-- The bits below the page. -/
def low : ℕ := 8 * d.index + 4 * d.subwidth.toNat + 2 * d.subpage.toNat + d.romd.toNat

/-- RAM, ROM and ROMD have a RAM page, which a larger region goes on with page by page. -/
def backed : Bool := decide (d.low ≤ 8) || d.romd

/-- An access goes to the RAM page. -/
def direct (isWrite : Bool) : Bool := if isWrite then decide (d.low = 0) else d.backed

def next : PhysOffset := if d.backed then { d with page := d.page + 1 } else d

end PhysOffset

structure PhysPageDesc where
  physOffset : PhysOffset
  regionOffset : ℕ

/-- The direction of an access, and the column of its width in the I/O tables. The fourth column
of the tables is always `NULL`. -/
structure Kind where
  isWrite : Bool
  width : Fin 3

/-- The functions of a `subpage_t` for a byte of the page: the index into the I/O tables and the
region offset, where they have been set. -/
abbrev Subpage := ℕ → Kind → Option (ℕ × ℕ)

/-- `ioMem` tells which functions of the I/O tables are not `NULL`. A subpage has the number of
its I/O entry. -/
structure State where
  tables : ℕ → Option (ℕ → PhysPageDesc)
  ioMem : ℕ → Kind → Bool
  ioMemUsed : ℕ → Bool
  subpages : ℕ → Option Subpage

/-- The target of an access. -/
inductive Access where
  | ram (addr : ℕ)
  | io (index : ℕ) (offset : ℕ)
  deriving DecidableEq

variable (t : Target)

namespace State

variable (σ : State)

def physPageFind (q : ℕ) : Option PhysPageDesc := (σ.tables (q / l2Size)).map fun tab => tab (q % l2Size)

/-- The allocation of `phys_page_find_alloc`. -/
def physPageAlloc (q : ℕ) : State :=
  match σ.tables (q / l2Size) with
  | some _ => σ
  | none => { σ with tables := Function.update σ.tables (q / l2Size) (some fun i => ⟨ioMemUnassigned, (q + i) * t.pageSize⟩) }

def modifyDesc (q : ℕ) (f : PhysPageDesc → PhysPageDesc) : State :=
  { σ with tables := Function.update σ.tables (q / l2Size) ((σ.tables (q / l2Size)).map fun tab =>
      Function.update tab (q % l2Size) (f (tab (q % l2Size)))) }

def getFreeIoMemIdx : Option ℕ := (List.range (ioMemNbEntries t)).find? fun i => !σ.ioMemUsed i

/-- `subpage_register`. An offset with a RAM page is no index into the I/O tables. -/
def subpageRegister (mmio start stop : ℕ) (memory : PhysOffset) (regionOffset : ℕ) : Option State :=
  if t.pageSize ≤ start ∨ t.pageSize ≤ stop then some σ
  else if start ≤ stop ∧ memory.page ≠ 0 then none
  else some { σ with subpages := Function.update σ.subpages mmio ((σ.subpages mmio).map fun entries idx k =>
      if start ≤ idx ∧ idx ≤ stop ∧ σ.ioMem memory.index k = true then some (memory.index, regionOffset)
      else entries idx k) }

/-- `subpage_init` for the descriptor of page `q`. It fails when all I/O entries are in use. -/
def subpageInit (q : ℕ) (origMemory : PhysOffset) (regionOffset : ℕ) : Option (ℕ × State) := do
  let idx ← σ.getFreeIoMemIdx t
  let σ := { σ with
    ioMemUsed := Function.update σ.ioMemUsed idx true
    ioMem := Function.update σ.ioMem idx fun _ => true
    subpages := Function.update σ.subpages idx (some fun _ _ => none) }
  let σ := σ.modifyDesc q fun p => { p with physOffset := ⟨0, idx, false, true, false⟩ }
  let σ ← σ.subpageRegister t idx 0 (t.pageSize - 1) origMemory regionOffset
  return (idx, σ)

end State

/-- `CHECK_SUBPAGE`: `start_addr2`, `end_addr2` and `need_subpage`. -/
def checkSubpage (startAddr origSize addr : ℕ) : ℕ × ℕ × Bool :=
  let startAddr2 := if startAddr < addr then 0 else startAddr % t.pageSize
  let endAddr2 :=
    if t.pageSize ≤ startAddr + origSize - addr then t.pageSize - 1 else (startAddr + origSize - 1) % t.pageSize
  (startAddr2, endAddr2, decide (0 < startAddr2) || decide (endAddr2 < t.pageSize - 1))

namespace State

variable (σ : State)

/-- A page that is a subpage, or is made one, gets a part of a region. -/
def registerPart (q : ℕ) (init : Option (ℕ × State)) (bounds : ℕ × ℕ × Bool) (physOffset : PhysOffset)
    (regionOffset : ℕ) : Option State := do
  let (subpage, σ) ← init
  let σ ← σ.subpageRegister t subpage bounds.1 bounds.2.1 physOffset regionOffset
  return σ.modifyDesc q fun p => { p with regionOffset := 0 }

/-- The body of the loop of `cpu_register_physical_memory_offset`. -/
def registerPage (startAddr origSize addr : ℕ) (physOffset : PhysOffset) (regionOffset : ℕ) :
    Option (State × PhysOffset) :=
  let q := addr / t.pageSize
  let bounds := checkSubpage t startAddr origSize addr
  match (σ.physPageFind q).filter fun p => decide (p.physOffset ≠ ioMemUnassigned) with
  | some p =>
    if bounds.2.2 || physOffset.subwidth then
      let init := if p.physOffset.subpage then some (p.physOffset.index, σ) else σ.subpageInit t q p.physOffset p.regionOffset
      (registerPart t q init bounds physOffset regionOffset).map fun σ => (σ, physOffset)
    else some (σ.modifyDesc q fun p => { p with physOffset := physOffset }, physOffset.next)
  | none =>
    let σ := (σ.physPageAlloc t q).modifyDesc q fun _ => ⟨physOffset, regionOffset⟩
    if physOffset.backed then some (σ, physOffset.next)
    else if bounds.2.2 || physOffset.subwidth then
      let init := σ.subpageInit t q ioMemUnassigned (q * t.pageSize)
      (registerPart t q init bounds physOffset regionOffset).map fun σ => (σ, physOffset)
    else some (σ, physOffset)

/-- The loop of `cpu_register_physical_memory_offset`. -/
def registerLoop (startAddr origSize : ℕ) : ℕ → ℕ → PhysOffset → ℕ → State → Option State
  | 0, _, _, _, σ => some σ
  | n + 1, addr, physOffset, regionOffset, σ => do
    let (σ, physOffset) ← σ.registerPage t startAddr origSize addr physOffset regionOffset
    registerLoop startAddr origSize n (addr + t.pageSize) physOffset (regionOffset + t.pageSize) σ

end State

/-- The arguments of a call of `cpu_register_physical_memory_offset`. -/
structure Call where
  startAddr : ℕ
  size : ℕ
  physOffset : PhysOffset
  regionOffset : ℕ

def Call.firstOffset (c : Call) : ℕ :=
  (if c.physOffset = ioMemUnassigned then c.startAddr else c.regionOffset) / t.pageSize * t.pageSize

/-- The number of rounds of the loop, by the rounded size. -/
def Call.rounds (c : Call) : ℕ := (c.size + t.pageSize - 1) / t.pageSize

def State.cpuRegisterPhysicalMemoryOffset (σ : State) (c : Call) : Option State :=
  σ.registerLoop t c.startAddr c.size (c.rounds t) c.startAddr c.physOffset (c.firstOffset t)

namespace State

variable (σ : State)

/-- The call of a function of the I/O tables, which for a subpage calls another one. A call of
`NULL` has no target. -/
def callIo (index : ℕ) (k : Kind) (addr : ℕ) : Option Access :=
  if σ.ioMem index k = true then
    match σ.subpages index with
    | none => some (.io index addr)
    | some entries =>
      (entries (addr % t.pageSize) k).bind fun (memory, regionOffset) =>
        if σ.ioMem memory k = true then some (.io memory (addr + regionOffset)) else none
  else none

/-- The dispatch of `cpu_physical_memory_rw` and of `ldl_phys`, `stl_phys` and the like. -/
def access (a : ℕ) (k : Kind) : Option Access :=
  let p := σ.physPageFind (a / t.pageSize)
  let pd := (p.map PhysPageDesc.physOffset).getD ioMemUnassigned
  if pd.direct k.isWrite then some (.ram (pd.page * t.pageSize + a % t.pageSize))
  else σ.callIo t pd.index k ((p.map fun p => a % t.pageSize + p.regionOffset).getD a)

end State

/-! ### What a registration is to do -/

/-- The I/O tables when the devices have been registered: which functions there are, and which
entries are in use. The first entries are the ones of `io_mem_init`. -/
structure IoTable where
  functions : ℕ → Kind → Bool
  used : ℕ → Bool
  lt : ∀ i, used i = true → i < ioMemNbEntries t
  reserved : ∀ i < 5, used i = true
  ram : ∀ k, functions 0 k = false
  rom : ∀ k, functions 1 k = k.isWrite
  unassigned : ∀ k, functions 2 k = true

/-- No memory has been registered. -/
def IoTable.start (T : IoTable t) : State where
  tables := fun _ => none
  ioMem := T.functions
  ioMemUsed := T.used
  subpages := fun _ => none

variable {t}

/-- The region has a function for an access, or RAM. -/
def Handles (T : IoTable t) (d : PhysOffset) (k : Kind) : Prop :=
  d.direct k.isWrite = true ∨ T.functions d.index k = true

instance (T : IoTable t) (d : PhysOffset) (k : Kind) : Decidable (Handles T d k) := inferInstanceAs (Decidable (_ ∨ _))

/-- The offset is the one of a RAM page, or is made from an entry of the I/O tables, which without
its flag has what the accesses need that do not go to the RAM page. -/
structure Proper (T : IoTable t) (d : PhysOffset) : Prop where
  subpage : d.subpage = false
  entry : d.low = 0 ∨ d.index ≠ 0 ∧ T.used d.index = true ∧ (d.subwidth = false → ∀ k, Handles T d k)
  page : d.backed = false → d.page = 0

/-- The target of an access to byte `off` of a page. -/
def target (t : Target) (d : PhysOffset) (regionOffset off : ℕ) (k : Kind) : Access :=
  if d.direct k.isWrite then .ram (d.page * t.pageSize + off) else .io d.index (off + regionOffset)

namespace Call

variable (c : Call)

def Covers (T : IoTable t) (a : ℕ) (k : Kind) : Prop :=
  c.startAddr ≤ a ∧ a < c.startAddr + c.size ∧ Handles T c.physOffset k

instance (T : IoTable t) (a : ℕ) (k : Kind) : Decidable (c.Covers T a k) := inferInstanceAs (Decidable (_ ∧ _ ∧ _))

/-- Where an access goes that the call covers: to the RAM page at the same distance, or to the
I/O entry with the region offset plus the distance from the first page. -/
def access (t : Target) (a : ℕ) (k : Kind) : Access :=
  let dist := a / t.pageSize - c.startAddr / t.pageSize
  target t { c.physOffset with page := c.physOffset.page + dist } (c.firstOffset t + dist * t.pageSize) (a % t.pageSize) k

end Call

/-- The target after a list of calls, the latest one first. -/
def dispatch (T : IoTable t) : List Call → ℕ → Kind → Access
  | [], a, _ => .io 2 a
  | c :: cs, a, k => if c.Covers T a k then c.access t a k else dispatch T cs a k

/-! ### The condition on a call -/

/-- The descriptor of a page. A page without a table is unassigned at its own address. -/
def State.desc (t : Target) (σ : State) (q : ℕ) : PhysPageDesc :=
  (σ.physPageFind q).getD ⟨ioMemUnassigned, q * t.pageSize⟩

/-- The number of I/O entries that are not in use. -/
def State.freeEntries (t : Target) (σ : State) : ℕ := (List.range (ioMemNbEntries t)).countP fun i => !σ.ioMemUsed i

namespace Call

variable (c : Call)

/-- The region covers a page from its first to its last byte. -/
def Whole (t : Target) (q : ℕ) : Prop := c.startAddr ≤ q * t.pageSize ∧ (q + 1) * t.pageSize ≤ c.startAddr + c.size

instance (q : ℕ) : Decidable (c.Whole t q) := inferInstanceAs (Decidable (_ ∧ _))

def NeedsSubpage (t : Target) (q : ℕ) : Prop := ¬ c.Whole t q ∨ c.physOffset.subwidth = true

instance (q : ℕ) : Decidable (c.NeedsSubpage t q) := inferInstanceAs (Decidable (_ ∨ _))

/-- The number of subpages that are made for `n` pages. -/
def needed (t : Target) (desc : ℕ → PhysPageDesc) : ℕ → ℕ → ℕ
  | 0, _ => 0
  | n + 1, q =>
    (if c.NeedsSubpage t q ∧ (desc q).physOffset.subpage = false then 1 else 0) + needed t desc n (q + 1)

end Call

/-- The condition on a call and the state before it. -/
structure Good (t : Target) (σ : State) (c : Call) : Prop where
  /-- The loop has a round for every page of the range. -/
  rounds : 0 < c.size → c.startAddr % t.pageSize + c.size ≤ c.rounds t * t.pageSize
  part : ∀ k < c.rounds t, c.NeedsSubpage t (c.startAddr / t.pageSize + k) →
    c.physOffset.backed = false ∧ (σ.desc t (c.startAddr / t.pageSize + k)).physOffset.backed = false
  whole : ∀ k < c.rounds t, ¬ c.NeedsSubpage t (c.startAddr / t.pageSize + k) →
    (σ.desc t (c.startAddr / t.pageSize + k)).physOffset ≠ ioMemUnassigned →
    c.physOffset.low = 0 ∨ (σ.desc t (c.startAddr / t.pageSize + k)).regionOffset = c.firstOffset t + k * t.pageSize
  /-- A table is allocated for its first page. -/
  table : ∀ k < c.rounds t, σ.physPageFind (c.startAddr / t.pageSize + k) = none →
    c.startAddr / t.pageSize ≤ (c.startAddr / t.pageSize + k) / l2Size * l2Size
  entries : c.needed t (σ.desc t) (c.rounds t) (c.startAddr / t.pageSize) ≤ σ.freeEntries t

/-- All calls of a list are proper and meet the condition. -/
def GoodRun (T : IoTable t) : State → List Call → Prop
  | _, [] => True
  | σ, c :: cs => Proper T c.physOffset ∧ Good t σ c ∧
      ∀ σ', σ.cpuRegisterPhysicalMemoryOffset t c = some σ' → GoodRun T σ' cs

/-! ### The tables of descriptors -/

section Tables

variable {σ : State} {q : ℕ}

theorem div_eq_of_page {q q' : ℕ} (hdiv : q' / l2Size = q / l2Size) (hmod : q' % l2Size = q % l2Size) : q' = q := by
  rw [← Nat.div_add_mod q' l2Size, hdiv, hmod, Nat.div_add_mod]

theorem physPageFind_modifyDesc (σ : State) (q q' : ℕ) (f : PhysPageDesc → PhysPageDesc) :
    (σ.modifyDesc q f).physPageFind q' = if q' = q then (σ.physPageFind q).map f else σ.physPageFind q' := by
  rw [State.physPageFind, State.physPageFind, State.physPageFind, State.modifyDesc]
  dsimp only
  by_cases hdiv : q' / l2Size = q / l2Size
  · rw [hdiv, Function.update_self]
    split
    · rename_i heq
      subst heq
      cases σ.tables (q' / l2Size) <;> simp
    · rename_i hne
      have hmod : q' % l2Size ≠ q % l2Size := fun hmod => hne (div_eq_of_page hdiv hmod)
      cases σ.tables (q / l2Size) <;> simp [hmod]
  · have hne : q' ≠ q := fun heq => hdiv (by rw [heq])
    rw [Function.update_of_ne hdiv, if_neg hne]

theorem physPageFind_physPageAlloc_self (σ : State) (q : ℕ) : (σ.physPageAlloc t q).physPageFind q ≠ none := by
  rw [State.physPageAlloc]
  split
  · rename_i htab
    simp [State.physPageFind, htab]
  · simp [State.physPageFind]

theorem desc_physPageAlloc (htable : σ.physPageFind q = none → q % l2Size = 0) (q' : ℕ) :
    (σ.physPageAlloc t q).desc t q' = σ.desc t q' := by
  rw [State.physPageAlloc]
  split
  · rfl
  · rename_i htab
    have hzero : q % l2Size = 0 := htable (by simp [State.physPageFind, htab])
    by_cases hdiv : q' / l2Size = q / l2Size
    · have hq : q + q' % l2Size = q' := by
        have hq' := Nat.div_add_mod q' l2Size
        have hq := Nat.div_add_mod q l2Size
        rw [hdiv] at hq'
        omega
      simp [State.desc, State.physPageFind, hdiv, htab, hq]
    · simp [State.desc, State.physPageFind, Function.update_of_ne hdiv]

theorem desc_modifyDesc (hfind : σ.physPageFind q ≠ none) (f : PhysPageDesc → PhysPageDesc) :
    (σ.modifyDesc q f).desc t = Function.update (σ.desc t) q (f (σ.desc t q)) := by
  funext q'
  rw [State.desc, physPageFind_modifyDesc, Function.update_apply]
  split
  · obtain ⟨d, hd⟩ := Option.ne_none_iff_exists'.1 hfind
    simp [State.desc, hd]
  · rfl

theorem physPageFind_physPageAlloc (σ : State) (q q' : ℕ) :
    (σ.physPageAlloc t q).physPageFind q' = none ↔ σ.physPageFind q' = none ∧ q' / l2Size ≠ q / l2Size := by
  rw [State.physPageAlloc]
  split
  · rename_i htab
    refine (and_iff_left_of_imp fun hnone hdiv => ?_).symm
    simp [State.physPageFind, hdiv, htab] at hnone
  · by_cases hdiv : q' / l2Size = q / l2Size
    · simp [State.physPageFind, hdiv]
    · simp [State.physPageFind, hdiv]

theorem physPageFind_modifyDesc_eq_none (σ : State) (q q' : ℕ) (f : PhysPageDesc → PhysPageDesc) :
    (σ.modifyDesc q f).physPageFind q' = none ↔ σ.physPageFind q' = none := by
  rw [physPageFind_modifyDesc]
  split
  · rename_i heq
    rw [heq, Option.map_eq_none_iff]
  · rfl

theorem access_eq (σ : State) (a : ℕ) (k : Kind) :
    σ.access t a k =
      if (σ.desc t (a / t.pageSize)).physOffset.direct k.isWrite then
        some (.ram ((σ.desc t (a / t.pageSize)).physOffset.page * t.pageSize + a % t.pageSize))
      else σ.callIo t (σ.desc t (a / t.pageSize)).physOffset.index k
        (a % t.pageSize + (σ.desc t (a / t.pageSize)).regionOffset) := by
  rw [State.access, State.desc]
  cases σ.physPageFind (a / t.pageSize) with
  | none =>
    have ha : a % t.pageSize + a / t.pageSize * t.pageSize = a := by
      rw [Nat.mul_comm]
      exact Nat.mod_add_div a t.pageSize
    simp [ha]
  | some d => simp

end Tables

/-! ### The invariant -/

/-- A region takes over whole pages. -/
structure Plain (T : IoTable t) (d : PhysOffset) : Prop where
  subpage : d.subpage = false
  entry : d.low = 0 ∨ T.used d.index = true ∧ ∀ k, Handles T d k
  page : d.backed = false → d.page = 0

/-- The page is a subpage, whose entries have functions. -/
structure IsSubpage (T : IoTable t) (σ : State) (d : PhysPageDesc) (entries : Subpage) : Prop where
  physOffset : d.physOffset = ⟨0, d.physOffset.index, false, true, false⟩
  regionOffset : d.regionOffset = 0
  unused : T.used d.physOffset.index = false
  subpage : σ.subpages d.physOffset.index = some entries
  entry : ∀ i < t.pageSize, ∀ k, ∃ e, entries i k = some e ∧ T.used e.1 = true ∧ T.functions e.1 k = true

/-- The tables of descriptors and the I/O tables fit together. -/
structure Inv (T : IoTable t) (σ : State) : Prop where
  unassigned : ∀ q, (σ.desc t q).physOffset = ioMemUnassigned → (σ.desc t q).regionOffset = q * t.pageSize
  page : ∀ q, Plain T (σ.desc t q).physOffset ∨ ∃ entries, IsSubpage T σ (σ.desc t q) entries
  inj : ∀ q q', (σ.desc t q).physOffset.subpage = true → (σ.desc t q').physOffset.subpage = true →
    (σ.desc t q).physOffset.index = (σ.desc t q').physOffset.index → q = q'
  table : ∀ i, T.used i = true → σ.ioMemUsed i = true ∧ σ.subpages i = none ∧ σ.ioMem i = T.functions i
  sub : ∀ s, σ.subpages s ≠ none → σ.ioMemUsed s = true ∧ ∀ k, σ.ioMem s k = true

section Inv

variable {T : IoTable t} {σ σ' : State}

theorem pageSize_pos (t : Target) : 0 < t.pageSize := Nat.two_pow_pos _

theorem low_ne_zero {d : PhysOffset} {isWrite : Bool} (h : d.direct isWrite = false) : d.low ≠ 0 := by
  intro hlow
  cases isWrite <;> simp [PhysOffset.direct, PhysOffset.backed, hlow] at h

theorem direct_of_not_backed {d : PhysOffset} (h : d.backed = false) (isWrite : Bool) : d.direct isWrite = false := by
  cases isWrite with
  | false => exact h
  | true =>
    have hlow : ¬ d.low ≤ 8 := by
      intro hle
      simp [PhysOffset.backed, hle] at h
    simp only [PhysOffset.direct, if_true, decide_eq_false_iff_not]
    omega

theorem Handles.function {d : PhysOffset} {k : Kind} (h : Handles T d k) (hdirect : d.direct k.isWrite = false) :
    T.functions d.index k = true :=
  h.resolve_left (Bool.eq_false_iff.1 hdirect)

theorem Plain.unassigned (T : IoTable t) : Plain T ioMemUnassigned where
  subpage := rfl
  entry := .inr ⟨T.reserved 2 (by decide), fun k => .inr (T.unassigned k)⟩
  page := fun _ => rfl

theorem Proper.plain {d : PhysOffset} (h : Proper T d) (hsubwidth : d.subwidth = false) : Plain T d where
  subpage := h.subpage
  entry := h.entry.imp id fun he => ⟨he.2.1, he.2.2 hsubwidth⟩
  page := h.page

theorem IsSubpage.not_backed {d : PhysPageDesc} {entries : Subpage} (h : IsSubpage T σ d entries) :
    d.physOffset.backed = false := by
  have hindex : 5 ≤ d.physOffset.index := by
    by_contra hlt
    have hused := T.reserved d.physOffset.index (by omega)
    rw [h.unused] at hused
    exact absurd hused (by simp)
  rw [h.physOffset]
  simp [PhysOffset.backed, PhysOffset.low]
  omega

theorem Inv.access_plain (h : Inv T σ) {a : ℕ} (k : Kind) (hplain : Plain T (σ.desc t (a / t.pageSize)).physOffset) :
    σ.access t a k = some (target t (σ.desc t (a / t.pageSize)).physOffset
      (σ.desc t (a / t.pageSize)).regionOffset (a % t.pageSize) k) := by
  rw [access_eq, target]
  cases hdirect : (σ.desc t (a / t.pageSize)).physOffset.direct k.isWrite with
  | true => rfl
  | false =>
    obtain ⟨hused, hhandles⟩ := hplain.entry.resolve_left (low_ne_zero hdirect)
    obtain ⟨-, hsub, hio⟩ := h.table _ hused
    rw [if_neg (by simp), if_neg (by simp), State.callIo, hio, if_pos ((hhandles k).function hdirect), hsub]

theorem Inv.access_subpage (h : Inv T σ) {a : ℕ} {k : Kind} {entries : Subpage}
    (hsub : IsSubpage T σ (σ.desc t (a / t.pageSize)) entries) {m off : ℕ}
    (hentry : entries (a % t.pageSize) k = some (m, off)) (hused : T.used m = true) (hfunction : T.functions m k = true) :
    σ.access t a k = some (.io m (a % t.pageSize + off)) := by
  have hio := (h.sub _ (by rw [hsub.subpage]; simp)).2 k
  rw [access_eq, direct_of_not_backed hsub.not_backed, if_neg (by simp), State.callIo, if_pos hio, hsub.subpage,
    hsub.regionOffset, Nat.add_zero, Nat.mod_mod]
  dsimp only
  rw [hentry, Option.bind_some, (h.table m hused).2.2, if_pos hfunction]

theorem Inv.access_congr (h : Inv T σ) (h' : Inv T σ') {a : ℕ} (k : Kind)
    (hdesc : σ'.desc t (a / t.pageSize) = σ.desc t (a / t.pageSize))
    (hsubpages : (σ.desc t (a / t.pageSize)).physOffset.subpage = true →
      σ'.subpages (σ.desc t (a / t.pageSize)).physOffset.index = σ.subpages (σ.desc t (a / t.pageSize)).physOffset.index) :
    σ'.access t a k = σ.access t a k := by
  rcases h.page (a / t.pageSize) with hplain | ⟨entries, hsub⟩
  · rw [h.access_plain k hplain, h'.access_plain k (by rwa [hdesc]), hdesc]
  · obtain ⟨⟨m, off⟩, hentry, hused, hfunction⟩ := hsub.entry _ (Nat.mod_lt a (pageSize_pos t)) k
    have hflag : (σ.desc t (a / t.pageSize)).physOffset.subpage = true := by rw [hsub.physOffset]
    have hsub' : IsSubpage T σ' (σ'.desc t (a / t.pageSize)) entries := by
      rw [hdesc]
      exact ⟨hsub.physOffset, hsub.regionOffset, hsub.unused, (hsubpages hflag).trans hsub.subpage, hsub.entry⟩
    rw [h.access_subpage hsub hentry hused hfunction, h'.access_subpage hsub' hentry hused hfunction]

/-- A region takes over a page. -/
theorem Inv.replace (h : Inv T σ) {q : ℕ} {d : PhysPageDesc} (hplain : Plain T d.physOffset)
    (hunassigned : d.physOffset = ioMemUnassigned → d.regionOffset = q * t.pageSize)
    (hdesc : σ'.desc t = Function.update (σ.desc t) q d) (hio : σ'.ioMem = σ.ioMem)
    (hused : σ'.ioMemUsed = σ.ioMemUsed) (hsubpages : σ'.subpages = σ.subpages) : Inv T σ' := by
  have hsub : ∀ q', (σ'.desc t q').physOffset.subpage = true → q' ≠ q ∧ σ'.desc t q' = σ.desc t q' := by
    intro q' hflag
    rw [hdesc] at hflag ⊢
    by_cases hq : q' = q
    · subst hq
      rw [Function.update_self, hplain.subpage] at hflag
      exact absurd hflag (by simp)
    · exact ⟨hq, Function.update_of_ne hq _ _⟩
  refine ⟨fun q' => ?_, fun q' => ?_, fun q₁ q₂ h₁ h₂ => ?_, ?_, ?_⟩
  · rw [hdesc]
    by_cases hq : q' = q
    · subst hq
      rw [Function.update_self]
      exact hunassigned
    · rw [Function.update_of_ne hq]
      exact h.unassigned q'
  · rw [hdesc]
    by_cases hq : q' = q
    · subst hq
      rw [Function.update_self]
      exact .inl hplain
    · rw [Function.update_of_ne hq]
      refine (h.page q').imp id fun ⟨entries, hs⟩ => ⟨entries, ?_⟩
      exact ⟨hs.physOffset, hs.regionOffset, hs.unused, by rw [hsubpages]; exact hs.subpage, hs.entry⟩
  · rw [(hsub q₁ h₁).2, (hsub q₂ h₂).2] at *
    exact h.inj q₁ q₂ h₁ h₂
  · rw [hused, hsubpages, hio]
    exact h.table
  · rw [hused, hsubpages, hio]
    exact h.sub

theorem Inv.replace_access (h : Inv T σ) (h' : Inv T σ') {q : ℕ} {d : PhysPageDesc} (hplain : Plain T d.physOffset)
    (hdesc : σ'.desc t = Function.update (σ.desc t) q d) (hsubpages : σ'.subpages = σ.subpages) (a : ℕ) (k : Kind) :
    σ'.access t a k = if a / t.pageSize = q then some (target t d.physOffset d.regionOffset (a % t.pageSize) k)
      else σ.access t a k := by
  split
  · rename_i hq
    have hd : σ'.desc t (a / t.pageSize) = d := by rw [hdesc, hq, Function.update_self]
    rw [h'.access_plain k (by rwa [hd]), hd]
  · rename_i hq
    exact h.access_congr h' k (by rw [hdesc, Function.update_of_ne hq]) fun _ => by rw [hsubpages]

/-! ### Subpages -/

/-- A page has become the subpage of an I/O entry, or its subpage has changed. -/
structure PartOf (t : Target) (σ σ' : State) (q s : ℕ) (entries : Subpage) : Prop where
  desc : σ'.desc t = Function.update (σ.desc t) q ⟨⟨0, s, false, true, false⟩, 0⟩
  subpages : σ'.subpages = Function.update σ.subpages s (some entries)
  ioMem : σ'.ioMem = Function.update σ.ioMem s fun _ => true
  used : σ'.ioMemUsed = Function.update σ.ioMemUsed s true

def partEntries (T : IoTable t) (entries : Subpage) (bounds : ℕ × ℕ × Bool) (d : PhysOffset) (regionOffset : ℕ) : Subpage :=
  fun i k => if bounds.1 ≤ i ∧ i ≤ bounds.2.1 ∧ T.functions d.index k = true then some (d.index, regionOffset)
    else entries i k

section Part

variable {T : IoTable t} {σ σ' : State} {q s : ℕ} {entries : Subpage} {bounds : ℕ × ℕ × Bool} {d : PhysOffset}
  {regionOffset : ℕ}

/-- The entries that a page has before: the ones of its subpage, or the ones made from its region. -/
structure Before (T : IoTable t) (σ : State) (q : ℕ) (entries : Subpage) : Prop where
  entry : ∀ i < t.pageSize, ∀ k, ∃ e, entries i k = some e ∧ T.used e.1 = true ∧ T.functions e.1 k = true
  access : ∀ a, a / t.pageSize = q → ∀ k m off, entries (a % t.pageSize) k = some (m, off) →
    σ.access t a k = some (.io m (a % t.pageSize + off))

theorem Inv.part (h : Inv T σ) (hpart : PartOf t σ σ' q s (partEntries T entries bounds d regionOffset))
    (hentry : ∀ i < t.pageSize, ∀ k, ∃ e, entries i k = some e ∧ T.used e.1 = true ∧ T.functions e.1 k = true)
    (hd : T.used d.index = true) (hs : T.used s = false)
    (hother : ∀ q' ≠ q, (σ.desc t q').physOffset.subpage = true → (σ.desc t q').physOffset.index ≠ s) : Inv T σ' := by
  have hself : σ'.desc t q = ⟨⟨0, s, false, true, false⟩, 0⟩ := by rw [hpart.desc, Function.update_self]
  have hkeep : ∀ q' ≠ q, σ'.desc t q' = σ.desc t q' := fun q' hq => by rw [hpart.desc, Function.update_of_ne hq]
  refine ⟨fun q' hun => ?_, fun q' => ?_, fun q₁ q₂ h₁ h₂ heq => ?_, fun i hi => ?_, fun i hi => ?_⟩
  · by_cases hq : q' = q
    · subst hq
      rw [hself] at hun
      exact absurd hun (by simp [ioMemUnassigned])
    · rw [hkeep q' hq] at hun ⊢
      exact h.unassigned q' hun
  · by_cases hq : q' = q
    · subst hq
      refine .inr ⟨partEntries T entries bounds d regionOffset, ?_, ?_, ?_, ?_, fun i hi k => ?_⟩
      · rw [hself]
      · rw [hself]
      · rw [hself]
        exact hs
      · rw [hself, hpart.subpages, Function.update_self]
      · rw [partEntries]
        split
        · rename_i hin
          exact ⟨_, rfl, hd, hin.2.2⟩
        · exact hentry i hi k
    · rw [hkeep q' hq]
      refine (h.page q').imp id fun ⟨e, he⟩ => ⟨e, he.physOffset, he.regionOffset, he.unused, ?_, he.entry⟩
      rw [hpart.subpages, Function.update_of_ne (hother q' hq (by rw [he.physOffset]))]
      exact he.subpage
  · by_cases hq₁ : q₁ = q
    · by_cases hq₂ : q₂ = q
      · rw [hq₁, hq₂]
      · rw [hq₁, hself] at heq
        rw [hkeep q₂ hq₂] at h₂ heq
        exact absurd heq.symm (hother q₂ hq₂ h₂)
    · rw [hkeep q₁ hq₁] at h₁ heq
      by_cases hq₂ : q₂ = q
      · rw [hq₂, hself] at heq
        exact absurd heq (hother q₁ hq₁ h₁)
      · rw [hkeep q₂ hq₂] at h₂ heq
        exact h.inj q₁ q₂ h₁ h₂ heq
  · have hne : i ≠ s := by
      rintro rfl
      rw [hs] at hi
      exact absurd hi (by simp)
    rw [hpart.used, hpart.subpages, hpart.ioMem, Function.update_of_ne hne, Function.update_of_ne hne,
      Function.update_of_ne hne]
    exact h.table i hi
  · rw [hpart.used, hpart.ioMem]
    by_cases hne : i = s
    · subst hne
      rw [Function.update_self, Function.update_self]
      exact ⟨rfl, fun _ => rfl⟩
    · rw [hpart.subpages, Function.update_of_ne hne] at hi
      rw [Function.update_of_ne hne, Function.update_of_ne hne]
      exact h.sub i hi

theorem Inv.part_access (h : Inv T σ) (h' : Inv T σ')
    (hpart : PartOf t σ σ' q s (partEntries T entries bounds d regionOffset)) (hbefore : Before T σ q entries)
    (hd : T.used d.index = true) (hdirect : d.backed = false)
    (hother : ∀ q' ≠ q, (σ.desc t q').physOffset.subpage = true → (σ.desc t q').physOffset.index ≠ s) (a : ℕ) (k : Kind) :
    σ'.access t a k = if a / t.pageSize = q ∧ bounds.1 ≤ a % t.pageSize ∧ a % t.pageSize ≤ bounds.2.1 ∧ Handles T d k then
      some (target t d regionOffset (a % t.pageSize) k) else σ.access t a k := by
  have hhandles : Handles T d k ↔ T.functions d.index k = true :=
    or_iff_right (by simp [direct_of_not_backed hdirect])
  by_cases hq : a / t.pageSize = q
  · have hflag : (σ'.desc t (a / t.pageSize)).physOffset.subpage = true := by
      rw [hpart.desc, hq, Function.update_self]
    rcases h'.page (a / t.pageSize) with hplain | ⟨entries', hsub⟩
    · rw [hplain.subpage] at hflag
      exact absurd hflag (by simp)
    · have heq : entries' = partEntries T entries bounds d regionOffset := by
        have hs := hsub.subpage
        rw [hpart.desc, hq, Function.update_self, hpart.subpages, Function.update_self, Option.some.injEq] at hs
        exact hs.symm
      by_cases hin : bounds.1 ≤ a % t.pageSize ∧ a % t.pageSize ≤ bounds.2.1 ∧ T.functions d.index k = true
      · rw [if_pos ⟨hq, hin.1, hin.2.1, hhandles.2 hin.2.2⟩, h'.access_subpage hsub (by rw [heq, partEntries, if_pos hin]) hd hin.2.2, target,
          if_neg (by simp [direct_of_not_backed hdirect])]
      · obtain ⟨⟨m, off⟩, hentry, hused, hfunction⟩ := hbefore.entry _ (Nat.mod_lt a (pageSize_pos t)) k
        rw [if_neg fun hall => hin ⟨hall.2.1, hall.2.2.1, hhandles.1 hall.2.2.2⟩, hbefore.access a hq k m off hentry,
          h'.access_subpage hsub (by rw [heq, partEntries, if_neg hin, hentry]) hused hfunction]
  · rw [if_neg fun hall => hq hall.1]
    refine h.access_congr h' k (by rw [hpart.desc, Function.update_of_ne hq]) fun hflag => ?_
    rw [hpart.subpages, Function.update_of_ne (hother _ hq hflag)]

theorem PartOf.from {σ₁ : State} {p : PhysPageDesc} (hpart : PartOf t σ₁ σ' q s entries)
    (hdesc : σ₁.desc t = Function.update (σ.desc t) q p) (hio : σ₁.ioMem = σ.ioMem)
    (hused : σ₁.ioMemUsed = σ.ioMemUsed) (hsubpages : σ₁.subpages = σ.subpages) : PartOf t σ σ' q s entries where
  desc := by rw [hpart.desc, hdesc, Function.update_idem]
  subpages := by rw [hpart.subpages, hsubpages]
  ioMem := by rw [hpart.ioMem, hio]
  used := by rw [hpart.used, hused]

theorem subpageRegister_eq {start stop : ℕ} (hstart : start < t.pageSize) (hstop : stop < t.pageSize)
    (hpage : d.page = 0) :
    σ.subpageRegister t s start stop d regionOffset = some { σ with
      subpages := Function.update σ.subpages s ((σ.subpages s).map fun entries idx k =>
        if start ≤ idx ∧ idx ≤ stop ∧ σ.ioMem d.index k = true then some (d.index, regionOffset) else entries idx k) } := by
  rw [State.subpageRegister, if_neg (by omega), if_neg fun hbad => hbad.2 hpage]

theorem Inv.registerPart_old (h : Inv T σ) (regionOffset : ℕ) (hfind : σ.physPageFind q ≠ none)
    (hsub : IsSubpage T σ (σ.desc t q) entries) (hstart : bounds.1 < t.pageSize) (hstop : bounds.2.1 < t.pageSize)
    (hpage : d.page = 0) (hd : T.used d.index = true) :
    ∃ σ', State.registerPart t q (some ((σ.desc t q).physOffset.index, σ)) bounds d regionOffset = some σ' ∧
      PartOf t σ σ' q (σ.desc t q).physOffset.index (partEntries T entries bounds d regionOffset) ∧
      ∀ q', σ'.physPageFind q' = none ↔ σ.physPageFind q' = none := by
  obtain ⟨hused, hio⟩ := h.sub (σ.desc t q).physOffset.index (by rw [hsub.subpage]; simp)
  refine ⟨State.modifyDesc { σ with
    subpages := Function.update σ.subpages (σ.desc t q).physOffset.index
      (some (partEntries T entries bounds d regionOffset)) } q fun p => { p with regionOffset := 0 },
    ?_, ⟨?_, ?_, ?_, ?_⟩, fun q' => ?_⟩
  · rw [State.registerPart]
    show Option.bind (State.subpageRegister t σ _ _ _ _ _) _ = _
    rw [subpageRegister_eq hstart hstop hpage, hsub.subpage, (h.table _ hd).2.2]
    rfl
  · rw [desc_modifyDesc (by exact hfind)]
    congr 1
    show (⟨(σ.desc t q).physOffset, 0⟩ : PhysPageDesc) = _
    rw [hsub.physOffset]
  · rfl
  · exact (Function.update_eq_self_iff.2 (funext fun k => (hio k).symm)).symm
  · exact (Function.update_eq_self_iff.2 hused.symm).symm
  · exact physPageFind_modifyDesc_eq_none _ _ _ _

theorem Inv.exists_free (h : Inv T σ) (hfree : 0 < σ.freeEntries t) :
    ∃ idx, σ.getFreeIoMemIdx t = some idx ∧ idx < ioMemNbEntries t ∧ σ.ioMemUsed idx = false ∧ T.used idx = false := by
  obtain ⟨i, hi, hused⟩ := List.countP_pos_iff.1 hfree
  obtain ⟨idx, hidx⟩ := Option.isSome_iff_exists.1
    (List.find?_isSome.2 ⟨i, hi, hused⟩ : ((List.range (ioMemNbEntries t)).find? fun i => !σ.ioMemUsed i).isSome)
  have hnot : σ.ioMemUsed idx = false := by simpa using List.find?_some hidx
  refine ⟨idx, hidx, List.mem_range.1 (List.mem_of_find?_eq_some hidx), hnot, ?_⟩
  by_contra hused
  rw [(h.table idx (by simpa using hused)).1] at hnot
  exact absurd hnot (by simp)

/-- A part of a region goes to a page that is made a subpage, with the entries of its region. -/
theorem registerPart_new (regionOffset r : ℕ) {orig : PhysOffset} {idx : ℕ} (hfind : σ.physPageFind q ≠ none)
    (hidx : σ.getFreeIoMemIdx t = some idx) (hunused : T.used idx = false)
    (htable : ∀ i, T.used i = true → σ.ioMem i = T.functions i) (horig : orig.page = 0)
    (hused : T.used orig.index = true) (hstart : bounds.1 < t.pageSize) (hstop : bounds.2.1 < t.pageSize)
    (hpage : d.page = 0) (hd : T.used d.index = true) :
    ∃ σ', State.registerPart t q (σ.subpageInit t q orig r) bounds d regionOffset = some σ' ∧
      PartOf t σ σ' q idx (partEntries T (partEntries T (fun _ _ => none) (0, t.pageSize - 1, false) orig r)
        bounds d regionOffset) ∧
      ∀ q', σ'.physPageFind q' = none ↔ σ.physPageFind q' = none := by
  have hio : ∀ i, T.used i = true → Function.update σ.ioMem idx (fun _ => true) i = T.functions i := by
    intro i hi
    have hne : i ≠ idx := by
      rintro rfl
      rw [hunused] at hi
      exact absurd hi (by simp)
    rw [Function.update_of_ne hne]
    exact htable i hi
  have hlast : t.pageSize - 1 < t.pageSize := Nat.sub_lt (pageSize_pos t) Nat.one_pos
  obtain ⟨σ₁, hσ₁⟩ : ∃ σ₁, State.modifyDesc { σ with
      ioMemUsed := Function.update σ.ioMemUsed idx true
      ioMem := Function.update σ.ioMem idx fun _ => true
      subpages := Function.update σ.subpages idx (some fun _ _ => none) } q
        (fun p => { p with physOffset := ⟨0, idx, false, true, false⟩ }) = σ₁ := ⟨_, rfl⟩
  have hio₁ : σ₁.ioMem = Function.update σ.ioMem idx fun _ => true := by rw [← hσ₁]; rfl
  have hused₁ : σ₁.ioMemUsed = Function.update σ.ioMemUsed idx true := by rw [← hσ₁]; rfl
  have hsub₁ : σ₁.subpages = Function.update σ.subpages idx (some fun _ _ => none) := by rw [← hσ₁]; rfl
  have hfind₁ : ∀ q', σ₁.physPageFind q' = none ↔ σ.physPageFind q' = none := fun q' => by
    rw [← hσ₁]
    exact physPageFind_modifyDesc_eq_none _ _ _ _
  have hdesc₁ : σ₁.desc t = Function.update (σ.desc t) q ⟨⟨0, idx, false, true, false⟩, (σ.desc t q).regionOffset⟩ := by
    rw [← hσ₁]
    exact desc_modifyDesc (by exact hfind) _
  have hinit : σ.subpageInit t q orig r = some (idx, { σ₁ with
      subpages := Function.update σ.subpages idx
        (some (partEntries T (fun _ _ => none) (0, t.pageSize - 1, false) orig r)) }) := by
    rw [State.subpageInit, hidx]
    simp only [Option.bind_eq_bind, Option.bind_some]
    rw [hσ₁, subpageRegister_eq (pageSize_pos t) hlast horig, hsub₁, Function.update_self, hio₁, hio _ hused,
      Function.update_idem]
    rfl
  refine ⟨State.modifyDesc { σ₁ with
    subpages := Function.update σ.subpages idx
      (some (partEntries T (partEntries T (fun _ _ => none) (0, t.pageSize - 1, false) orig r) bounds d regionOffset)) }
    q fun p => { p with regionOffset := 0 }, ?_, ⟨?_, ?_, ?_, ?_⟩, fun q' => ?_⟩
  · rw [State.registerPart, hinit]
    show Option.bind (State.subpageRegister t _ _ _ _ _ _) _ = _
    rw [subpageRegister_eq hstart hstop hpage]
    dsimp only
    rw [Function.update_self, hio₁, hio _ hd, Function.update_idem]
    rfl
  · have hfind' : σ₁.physPageFind q ≠ none := fun hnone => hfind ((hfind₁ q).1 hnone)
    rw [desc_modifyDesc (by exact hfind')]
    show Function.update (σ₁.desc t) q ⟨(σ₁.desc t q).physOffset, 0⟩ = _
    rw [hdesc₁, Function.update_self, Function.update_idem]
  · rfl
  · exact hio₁
  · exact hused₁
  · rw [physPageFind_modifyDesc_eq_none]
    exact hfind₁ q'

theorem Inv.before_plain (h : Inv T σ) (hplain : Plain T (σ.desc t q).physOffset)
    (hbacked : (σ.desc t q).physOffset.backed = false) :
    Before T σ q (partEntries T (fun _ _ => none) (0, t.pageSize - 1, false) (σ.desc t q).physOffset
      (σ.desc t q).regionOffset) := by
  obtain ⟨hused, hhandles⟩ := hplain.entry.resolve_left (low_ne_zero (direct_of_not_backed hbacked false))
  have hfunctions := fun k => (hhandles k).function (direct_of_not_backed hbacked k.isWrite)
  have hentry : ∀ i < t.pageSize, ∀ k, partEntries T (fun _ _ => none) (0, t.pageSize - 1, false)
      (σ.desc t q).physOffset (σ.desc t q).regionOffset i k =
        some ((σ.desc t q).physOffset.index, (σ.desc t q).regionOffset) := fun i hi k =>
    if_pos ⟨Nat.zero_le i, Nat.le_sub_one_of_lt hi, hfunctions k⟩
  refine ⟨fun i hi k => ⟨_, hentry i hi k, hused, hfunctions k⟩, fun a ha k m off he => ?_⟩
  rw [hentry _ (Nat.mod_lt a (pageSize_pos t)) k, Option.some.injEq, Prod.mk.injEq] at he
  obtain ⟨rfl, rfl⟩ := he
  subst ha
  rw [h.access_plain k hplain, target, if_neg (by simp [direct_of_not_backed hbacked])]

theorem Inv.before_subpage (h : Inv T σ) (hsub : IsSubpage T σ (σ.desc t q) entries) : Before T σ q entries := by
  refine ⟨hsub.entry, fun a ha k m off he => ?_⟩
  subst ha
  obtain ⟨⟨m', off'⟩, he', hused, hfunction⟩ := hsub.entry _ (Nat.mod_lt a (pageSize_pos t)) k
  rw [he, Option.some.injEq, Prod.mk.injEq] at he'
  obtain ⟨rfl, rfl⟩ := he'
  exact h.access_subpage hsub he hused hfunction

/-- A used entry that was free. -/
theorem countP_update {l : List ℕ} (hnodup : l.Nodup) {used : ℕ → Bool} (hs : s ∈ l) (hfree : used s = false) :
    (l.countP fun i => !Function.update used s true i) + 1 = l.countP fun i => !used i := by
  induction l with
  | nil => exact absurd hs List.not_mem_nil
  | cons i l ih =>
    obtain ⟨hi, hnodup⟩ := List.nodup_cons.1 hnodup
    rw [List.countP_cons, List.countP_cons]
    by_cases hsi : s = i
    · subst hsi
      have hsame : (l.countP fun i => !Function.update used s true i) = l.countP fun i => !used i := by
        refine List.countP_congr fun j hj => ?_
        rw [Function.update_of_ne]
        rintro rfl
        exact hi hj
      rw [hsame]
      simp [hfree]
    · have htail := ih hnodup ((List.mem_cons.1 hs).resolve_left hsi)
      rw [Function.update_of_ne (Ne.symm hsi)]
      omega

theorem PartOf.freeEntries (hpart : PartOf t σ σ' q s entries) (hs : s < ioMemNbEntries t) (hfree : σ.ioMemUsed s = false) :
    σ'.freeEntries t + 1 = σ.freeEntries t := by
  rw [State.freeEntries, hpart.used]
  exact countP_update List.nodup_range (List.mem_range.2 hs) hfree

theorem PartOf.freeEntries_old (hpart : PartOf t σ σ' q s entries) (hused : σ.ioMemUsed s = true) :
    σ'.freeEntries t = σ.freeEntries t := by
  rw [State.freeEntries, hpart.used, Function.update_eq_self_iff.2 hused.symm]
  rfl

theorem Proper.handles (h : Proper T d) (hsubwidth : d.subwidth = false) (k : Kind) : Handles T d k := by
  cases hdirect : d.direct k.isWrite with
  | true => exact .inl hdirect
  | false => exact (h.entry.resolve_left (low_ne_zero hdirect)).2.2 hsubwidth k

end Part

/-! ### A page of a region -/

/-- What the round for a page does. `new` is the number of subpages that it makes. -/
structure Registered (T : IoTable t) (σ σ' : State) (q : ℕ) (bounds : ℕ × ℕ × Bool) (d : PhysOffset) (regionOffset : ℕ)
    (new : ℕ) : Prop where
  inv : Inv T σ'
  access : ∀ a k, σ'.access t a k =
    if a / t.pageSize = q ∧ bounds.1 ≤ a % t.pageSize ∧ a % t.pageSize ≤ bounds.2.1 ∧ Handles T d k then
      some (target t d regionOffset (a % t.pageSize) k) else σ.access t a k
  desc : ∀ q' ≠ q, σ'.desc t q' = σ.desc t q'
  find : ∀ q', σ'.physPageFind q' = none ↔ σ.physPageFind q' = none ∧ q' / l2Size ≠ q / l2Size
  free : σ'.freeEntries t + new = σ.freeEntries t

section Page

variable {T : IoTable t} {σ σ' : State} {q : ℕ} {bounds : ℕ × ℕ × Bool} {d : PhysOffset} {regionOffset : ℕ}

theorem find_iff (hfind : σ.physPageFind q ≠ none) (q' : ℕ) :
    σ.physPageFind q' = none ↔ σ.physPageFind q' = none ∧ q' / l2Size ≠ q / l2Size := by
  refine (and_iff_left_of_imp fun hnone hdiv => hfind ?_).symm
  rw [State.physPageFind, Option.map_eq_none_iff] at hnone ⊢
  rw [← hdiv]
  exact hnone

/-- A region takes over a page. -/
theorem Inv.registered_whole (h : Inv T σ) (hproper : Proper T d) (hsubwidth : d.subwidth = false) {r : ℕ}
    (hunassigned : d = ioMemUnassigned → r = q * t.pageSize) (hsame : d.low = 0 ∨ r = regionOffset)
    (hwhole : ∀ off < t.pageSize, bounds.1 ≤ off ∧ off ≤ bounds.2.1)
    (hdesc : σ'.desc t = Function.update (σ.desc t) q ⟨d, r⟩) (hio : σ'.ioMem = σ.ioMem)
    (hused : σ'.ioMemUsed = σ.ioMemUsed) (hsubpages : σ'.subpages = σ.subpages)
    (hfind : ∀ q', σ'.physPageFind q' = none ↔ σ.physPageFind q' = none ∧ q' / l2Size ≠ q / l2Size) :
    Registered T σ σ' q bounds d regionOffset 0 := by
  have hplain := hproper.plain hsubwidth
  have h' : Inv T σ' := h.replace (d := ⟨d, r⟩) hplain hunassigned hdesc hio hused hsubpages
  refine ⟨h', fun a k => ?_, fun q' hq => by rw [hdesc, Function.update_of_ne hq], hfind, by
    rw [State.freeEntries, State.freeEntries, hused, Nat.add_zero]⟩
  rw [h.replace_access h' (d := ⟨d, r⟩) hplain hdesc hsubpages a k]
  by_cases hq : a / t.pageSize = q
  · have hin := hwhole _ (Nat.mod_lt a (pageSize_pos t))
    rw [if_pos hq, if_pos ⟨hq, hin.1, hin.2, hproper.handles hsubwidth k⟩]
    rcases hsame with hlow | rfl
    · have hdirect : d.direct k.isWrite = true := by
        by_contra hne
        exact low_ne_zero (Bool.eq_false_iff.2 hne) hlow
      rw [target, target, if_pos hdirect, if_pos hdirect]
    · rfl
  · rw [if_neg hq, if_neg fun hall => hq hall.1]

theorem Inv.registered_part (h : Inv T σ) {s new : ℕ} {entries : Subpage} (hbefore : Before T σ q entries)
    (hpart : PartOf t σ σ' q s (partEntries T entries bounds d regionOffset)) (hd : T.used d.index = true)
    (hbacked : d.backed = false) (hs : T.used s = false)
    (hother : ∀ q' ≠ q, (σ.desc t q').physOffset.subpage = true → (σ.desc t q').physOffset.index ≠ s)
    (hfind : ∀ q', σ'.physPageFind q' = none ↔ σ.physPageFind q' = none ∧ q' / l2Size ≠ q / l2Size)
    (hfree : σ'.freeEntries t + new = σ.freeEntries t) : Registered T σ σ' q bounds d regionOffset new := by
  have h' : Inv T σ' := h.part hpart hbefore.entry hd hs hother
  refine ⟨h', h.part_access h' hpart hbefore hd hbacked hother, fun q' hq => ?_, hfind, hfree⟩
  rw [hpart.desc, Function.update_of_ne hq]

theorem Inv.index_ne (h : Inv T σ) {s : ℕ} (hs : σ.ioMemUsed s = false) (q' : ℕ)
    (hsub : (σ.desc t q').physOffset.subpage = true) : (σ.desc t q').physOffset.index ≠ s := by
  rcases h.page q' with hplain | ⟨entries, he⟩
  · rw [hplain.subpage] at hsub
    exact absurd hsub (by simp)
  · rintro rfl
    rw [(h.sub _ (by rw [he.subpage]; simp)).1] at hs
    exact absurd hs (by simp)

theorem physPageAlloc_keeps (σ : State) (q : ℕ) : (σ.physPageAlloc t q).ioMem = σ.ioMem ∧
    (σ.physPageAlloc t q).ioMemUsed = σ.ioMemUsed ∧ (σ.physPageAlloc t q).subpages = σ.subpages := by
  rw [State.physPageAlloc]
  split <;> exact ⟨rfl, rfl, rfl⟩

theorem Inv.registerPage_assigned (h : Inv T σ) {startAddr origSize addr q : ℕ} {bounds : ℕ × ℕ × Bool}
    (hq : addr / t.pageSize = q) (hrange : checkSubpage t startAddr origSize addr = bounds) {p : PhysPageDesc}
    (hp : σ.physPageFind q = some p) (hassigned : p.physOffset ≠ ioMemUnassigned)
    (hproper : Proper T d) (hunassigned : d = ioMemUnassigned → regionOffset = q * t.pageSize)
    (hstart : bounds.1 < t.pageSize)
    (hstop : bounds.2.1 < t.pageSize)
    (hpart : (bounds.2.2 || d.subwidth) = true →
      d.backed = false ∧ p.physOffset.backed = false ∧ (p.physOffset.subpage = false → 0 < σ.freeEntries t))
    (hwhole : bounds.2.2 = false → d.subwidth = false →
      (d.low = 0 ∨ p.regionOffset = regionOffset) ∧ ∀ off < t.pageSize,
        bounds.1 ≤ off ∧ off ≤ bounds.2.1) :
    ∃ σ', σ.registerPage t startAddr origSize addr d regionOffset = some (σ', d.next) ∧
      Registered T σ σ' q bounds d regionOffset
        (if (bounds.2.2 || d.subwidth) = true ∧ p.physOffset.subpage = false then 1 else 0) := by
  have hdesc : σ.desc t q = p := by rw [State.desc, hp, Option.getD_some]
  have hfind : σ.physPageFind q ≠ none := by simp [hp]
  have hsome : (σ.physPageFind q).filter (fun p => decide (p.physOffset ≠ ioMemUnassigned)) = some p := by
    rw [hp, Option.filter_some, if_pos (decide_eq_true hassigned)]
  rw [State.registerPage]
  dsimp only
  rw [hq, hrange, hsome]
  dsimp only
  by_cases hneeds : (bounds.2.2 || d.subwidth) = true
  · obtain ⟨hbacked, horig, hfree⟩ := hpart hneeds
    have hd := (hproper.entry.resolve_left (low_ne_zero (direct_of_not_backed hbacked false))).2.1
    have hnext : d.next = d := by rw [PhysOffset.next, hbacked, if_neg (by simp)]
    rw [if_pos hneeds, hnext]
    cases hsubpage : p.physOffset.subpage with
    | true =>
      obtain ⟨entries, hsub⟩ := (h.page q).resolve_left fun hplain => by
        have hflag := hplain.subpage
        rw [hdesc, hsubpage] at hflag
        exact absurd hflag (by simp)
      obtain ⟨σ', hrun, hpartOf, hfind'⟩ := h.registerPart_old regionOffset hfind hsub hstart hstop
        (hproper.page hbacked) hd
      rw [hdesc] at hrun
      refine ⟨σ', by rw [if_pos rfl, hrun, Option.map_some], ?_⟩
      refine h.registered_part (h.before_subpage hsub) hpartOf hd hbacked hsub.unused (fun q' hne hflag heq => hne ?_) ?_ ?_
      · exact h.inj q' _ hflag (by rw [hdesc, hsubpage]) heq
      · exact fun q' => (hfind' q').trans (find_iff hfind q')
      · rw [if_neg (by simp), Nat.add_zero]
        exact hpartOf.freeEntries_old (h.sub _ (by rw [hsub.subpage]; simp)).1
    | false =>
      have hplain : Plain T (σ.desc t q).physOffset := by
        refine (h.page q).resolve_right fun ⟨entries, hsub⟩ => ?_
        have hflag : (σ.desc t q).physOffset.subpage = true := by rw [hsub.physOffset]
        rw [hdesc, hsubpage] at hflag
        exact absurd hflag (by simp)
      obtain ⟨idx, hidx, hlt, hnot, hunused⟩ := h.exists_free (hfree hsubpage)
      rw [← hdesc] at horig
      have horigUsed := (hplain.entry.resolve_left (low_ne_zero (direct_of_not_backed horig false))).1
      obtain ⟨σ', hrun, hpartOf, hfind'⟩ := registerPart_new regionOffset (σ.desc t q).regionOffset hfind
        hidx hunused (fun i hi => (h.table i hi).2.2) (hplain.page horig) horigUsed hstart hstop (hproper.page hbacked) hd
      rw [hdesc] at hrun
      refine ⟨σ', by rw [if_neg (by simp), hrun, Option.map_some], ?_⟩
      rw [if_pos ⟨hneeds, rfl⟩]
      exact h.registered_part (h.before_plain hplain horig) hpartOf hd hbacked hunused
        (fun q' _ hflag => h.index_ne hnot q' hflag) (fun q' => (hfind' q').trans (find_iff hfind q'))
        (hpartOf.freeEntries hlt hnot)
  · rw [Bool.or_eq_true, not_or, Bool.not_eq_true, Bool.not_eq_true] at hneeds
    obtain ⟨hsame, hbounds⟩ := hwhole hneeds.1 hneeds.2
    refine ⟨_, by rw [if_neg (by simp [hneeds])], ?_⟩
    rw [if_neg (by simp [hneeds])]
    refine h.registered_whole hproper hneeds.2 (r := p.regionOffset) (fun hun => ?_) hsame hbounds ?_ rfl rfl rfl
      fun q' => ?_
    · rw [← hunassigned hun]
      refine hsame.resolve_left ?_
      rw [hun]
      decide
    · rw [desc_modifyDesc hfind, hdesc]
    · rw [physPageFind_modifyDesc_eq_none]
      exact find_iff hfind q'

theorem Inv.registerPage_unassigned (h : Inv T σ) {startAddr origSize addr q : ℕ} {bounds : ℕ × ℕ × Bool}
    (hq : addr / t.pageSize = q) (hrange : checkSubpage t startAddr origSize addr = bounds)
    (hun : (σ.desc t q).physOffset = ioMemUnassigned)
    (htable : σ.physPageFind q = none → q % l2Size = 0) (hproper : Proper T d)
    (hunassigned : d = ioMemUnassigned → regionOffset = q * t.pageSize)
    (hstart : bounds.1 < t.pageSize)
    (hstop : bounds.2.1 < t.pageSize)
    (hpart : (bounds.2.2 || d.subwidth) = true →
      d.backed = false ∧ 0 < σ.freeEntries t)
    (hwhole : bounds.2.2 = false → ∀ off < t.pageSize,
        bounds.1 ≤ off ∧ off ≤ bounds.2.1) :
    ∃ σ', σ.registerPage t startAddr origSize addr d regionOffset = some (σ', d.next) ∧
      Registered T σ σ' q bounds d regionOffset
        (if (bounds.2.2 || d.subwidth) = true then 1 else 0) := by
  have hnone : (σ.physPageFind q).filter (fun p => decide (p.physOffset ≠ ioMemUnassigned)) = none := by
    rw [State.desc] at hun
    cases hfind : σ.physPageFind q with
    | none => rfl
    | some p =>
      rw [hfind, Option.getD_some] at hun
      rw [Option.filter_some, if_neg (by simp [hun])]
  obtain ⟨hio, hused, hsubpages⟩ := physPageAlloc_keeps (t := t) σ q
  obtain ⟨σ₁, hσ₁⟩ : ∃ σ₁, (σ.physPageAlloc t q).modifyDesc q
      (fun _ => ⟨d, regionOffset⟩) = σ₁ := ⟨_, rfl⟩
  have hfind₁ : ∀ q', σ₁.physPageFind q' = none ↔
      σ.physPageFind q' = none ∧ q' / l2Size ≠ q / l2Size := fun q' => by
    rw [← hσ₁, physPageFind_modifyDesc_eq_none, physPageFind_physPageAlloc]
  have hdesc₁ : σ₁.desc t = Function.update (σ.desc t) q ⟨d, regionOffset⟩ := by
    rw [← hσ₁, desc_modifyDesc (physPageFind_physPageAlloc_self _ _)]
    congr 1
    exact funext fun q' => desc_physPageAlloc htable q'
  have hio₁ : σ₁.ioMem = σ.ioMem := by rw [← hσ₁]; exact hio
  have hused₁ : σ₁.ioMemUsed = σ.ioMemUsed := by rw [← hσ₁]; exact hused
  have hsubpages₁ : σ₁.subpages = σ.subpages := by rw [← hσ₁]; exact hsubpages
  rw [State.registerPage]
  dsimp only
  rw [hq, hrange, hnone]
  dsimp only
  rw [hσ₁]
  by_cases hneeds : (bounds.2.2 || d.subwidth) = true
  · obtain ⟨hbacked, hfree⟩ := hpart hneeds
    have hd := (hproper.entry.resolve_left (low_ne_zero (direct_of_not_backed hbacked false))).2.1
    have hnext : d.next = d := by rw [PhysOffset.next, hbacked, if_neg (by simp)]
    obtain ⟨idx, hidx, hlt, hnot, hunused⟩ := h.exists_free hfree
    have hidx₁ : σ₁.getFreeIoMemIdx t = some idx := by rw [State.getFreeIoMemIdx, hused₁]; exact hidx
    have hhas : σ₁.physPageFind q ≠ none := fun hnone => ((hfind₁ _).1 hnone).2 rfl
    obtain ⟨σ', hrun, hpartOf, hfind'⟩ := registerPart_new regionOffset (q * t.pageSize) hhas hidx₁
      hunused (fun i hi => by rw [hio₁]; exact (h.table i hi).2.2) (show ioMemUnassigned.page = 0 from rfl)
      (T.reserved 2 (by decide)) hstart hstop (hproper.page hbacked) hd
    have hbefore := h.before_plain (q := q) (by rw [hun]; exact Plain.unassigned T) (by rw [hun]; rfl)
    rw [hun, h.unassigned _ hun] at hbefore
    have hpartOf' := hpartOf.from hdesc₁ hio₁ hused₁ hsubpages₁
    refine ⟨σ', ?_, ?_⟩
    · rw [hbacked, if_neg (by simp), if_pos hneeds, hrun, hnext]
      rfl
    · rw [if_pos hneeds]
      exact h.registered_part hbefore hpartOf' hd hbacked hunused (fun q' _ hflag => h.index_ne hnot q' hflag)
        (fun q' => (hfind' q').trans (hfind₁ q')) (hpartOf'.freeEntries hlt hnot)
  · rw [Bool.or_eq_true, not_or, Bool.not_eq_true, Bool.not_eq_true] at hneeds
    refine ⟨σ₁, ?_, ?_⟩
    · cases hbacked : d.backed with
      | true => rfl
      | false => rw [if_neg (by simp), if_neg (by simp [hneeds]), PhysOffset.next, hbacked, if_neg (by simp)]
    · rw [if_neg (by simp [hneeds])]
      exact h.registered_whole hproper hneeds.2 hunassigned (.inr rfl) (hwhole hneeds.1) hdesc₁ hio₁ hused₁ hsubpages₁ hfind₁

end Page

end Inv

/-! ### The rounds of a call -/

section Rounds

variable {c : Call} {k : ℕ}

/-- The distance of a round is within the size, and the last round ends at the end of the range. -/
theorem round_bounds (hrounds : c.startAddr % t.pageSize + c.size ≤ c.rounds t * t.pageSize) (hk : k < c.rounds t) :
    k * t.pageSize < c.size ∧
      (c.size < k * t.pageSize + t.pageSize → c.startAddr % t.pageSize + c.size ≤ k * t.pageSize + t.pageSize) := by
  have hP := pageSize_pos t
  have hle : c.rounds t * t.pageSize ≤ c.size + t.pageSize - 1 := Nat.div_mul_le_self _ _
  have hmul : ∀ j, j + 1 ≤ c.rounds t → j * t.pageSize + t.pageSize ≤ c.rounds t * t.pageSize := fun j hj => by
    rw [← Nat.succ_mul]
    exact Nat.mul_le_mul_right _ hj
  have hone := hmul k hk
  refine ⟨by omega, fun hlast => ?_⟩
  have heq : k + 1 = c.rounds t := by
    by_contra hne
    have htwo := hmul (k + 1) (by omega)
    rw [Nat.succ_mul] at htwo
    omega
  rw [← heq, Nat.succ_mul] at hrounds
  exact hrounds

/-- The round for a page registers the bytes of the page that are in the range. -/
theorem checkSubpage_spec (hrounds : c.startAddr % t.pageSize + c.size ≤ c.rounds t * t.pageSize) (hk : k < c.rounds t) :
    (checkSubpage t c.startAddr c.size (c.startAddr + k * t.pageSize)).1 < t.pageSize ∧
      (checkSubpage t c.startAddr c.size (c.startAddr + k * t.pageSize)).2.1 < t.pageSize ∧
      ((checkSubpage t c.startAddr c.size (c.startAddr + k * t.pageSize)).2.2 = true ↔
        ¬ c.Whole t (c.startAddr / t.pageSize + k)) ∧
      ∀ off < t.pageSize, ((checkSubpage t c.startAddr c.size (c.startAddr + k * t.pageSize)).1 ≤ off ∧
          off ≤ (checkSubpage t c.startAddr c.size (c.startAddr + k * t.pageSize)).2.1 ↔
        c.startAddr ≤ (c.startAddr / t.pageSize + k) * t.pageSize + off ∧
          (c.startAddr / t.pageSize + k) * t.pageSize + off < c.startAddr + c.size) := by
  obtain ⟨hlt, hlast⟩ := round_bounds hrounds hk
  have hP := pageSize_pos t
  have hs : c.startAddr % t.pageSize < t.pageSize := Nat.mod_lt _ hP
  have hstart : c.startAddr / t.pageSize * t.pageSize + c.startAddr % t.pageSize = c.startAddr := Nat.div_add_mod' _ _
  have hpage : (c.startAddr / t.pageSize + k) * t.pageSize = c.startAddr / t.pageSize * t.pageSize + k * t.pageSize :=
    Nat.add_mul _ _ _
  have hfirst : k = 0 ∧ k * t.pageSize = 0 ∨ 0 < k ∧ t.pageSize ≤ k * t.pageSize := by
    rcases Nat.eq_zero_or_pos k with rfl | hpos
    · exact .inl ⟨rfl, Nat.zero_mul _⟩
    · exact .inr ⟨hpos, Nat.le_mul_of_pos_left _ hpos⟩
  have hstop : c.size < k * t.pageSize + t.pageSize →
      (c.startAddr + c.size - 1) % t.pageSize = c.startAddr % t.pageSize + c.size - 1 - k * t.pageSize := fun hsmall => by
    have hsum : c.startAddr + c.size - 1 = t.pageSize * (c.startAddr / t.pageSize + k) +
        (c.startAddr % t.pageSize + c.size - 1 - k * t.pageSize) := by
      rw [Nat.mul_comm, hpage]
      omega
    rw [hsum, Nat.mul_add_mod, Nat.mod_eq_of_lt]
    have hend := hlast hsmall
    omega
  rw [checkSubpage, Call.Whole, hpage, Nat.succ_mul, hpage]
  generalize c.startAddr / t.pageSize * t.pageSize = b at *
  generalize c.startAddr % t.pageSize = s at *
  generalize k * t.pageSize = X at *
  dsimp only
  by_cases hbig : t.pageSize ≤ c.startAddr + c.size - (c.startAddr + X)
  · rw [if_pos hbig]
    rcases hfirst with ⟨-, hX⟩ | ⟨-, hX⟩
    · rw [if_neg (by omega)]
      refine ⟨hs, by omega, ?_, fun off hoff => by omega⟩
      simp only [Bool.or_eq_true, decide_eq_true_eq]
      omega
    · rw [if_pos (by omega)]
      refine ⟨hP, by omega, ?_, fun off hoff => by omega⟩
      simp only [Bool.or_eq_true, decide_eq_true_eq]
      omega
  · have hend := hlast (by omega)
    rw [if_neg hbig, hstop (by omega)]
    rcases hfirst with ⟨-, hX⟩ | ⟨-, hX⟩
    · rw [if_neg (by omega)]
      refine ⟨hs, by omega, ?_, fun off hoff => by omega⟩
      simp only [Bool.or_eq_true, decide_eq_true_eq]
      omega
    · rw [if_pos (by omega)]
      refine ⟨hP, by omega, ?_, fun off hoff => by omega⟩
      simp only [Bool.or_eq_true, decide_eq_true_eq]
      omega

/-- The `phys_offset` of a round. -/
def Call.offsetAt (c : Call) (k : ℕ) : PhysOffset :=
  if c.physOffset.backed then { c.physOffset with page := c.physOffset.page + k } else c.physOffset

theorem Call.offsetAt_backed (c : Call) (k : ℕ) : (c.offsetAt k).backed = c.physOffset.backed := by
  rw [Call.offsetAt]
  split <;> rfl

theorem Call.offsetAt_low (c : Call) (k : ℕ) : (c.offsetAt k).low = c.physOffset.low := by
  rw [Call.offsetAt]
  split <;> rfl

theorem Call.offsetAt_subwidth (c : Call) (k : ℕ) : (c.offsetAt k).subwidth = c.physOffset.subwidth := by
  rw [Call.offsetAt]
  split <;> rfl

theorem Call.offsetAt_next (c : Call) (k : ℕ) : (c.offsetAt k).next = c.offsetAt (k + 1) := by
  rw [PhysOffset.next, Call.offsetAt_backed, Call.offsetAt, Call.offsetAt]
  split
  · rfl
  · rfl

theorem handles_offsetAt (T : IoTable t) (c : Call) (k : ℕ) (i : Kind) :
    Handles T (c.offsetAt k) i ↔ Handles T c.physOffset i := by
  rw [Call.offsetAt]
  split <;> exact Iff.rfl

theorem Proper.offsetAt {T : IoTable t} (h : Proper T c.physOffset) (k : ℕ) : Proper T (c.offsetAt k) := by
  cases hbacked : c.physOffset.backed with
  | false =>
    rw [Call.offsetAt, hbacked]
    exact h
  | true =>
    refine ⟨?_, ?_, fun hnot => ?_⟩
    · rw [Call.offsetAt, hbacked]
      exact h.subpage
    · rw [Call.offsetAt, hbacked]
      exact h.entry
    · rw [Call.offsetAt_backed, hbacked] at hnot
      exact absurd hnot (by simp)

theorem regionOffset_unassigned (h : c.offsetAt k = ioMemUnassigned) :
    c.firstOffset t + k * t.pageSize = (c.startAddr / t.pageSize + k) * t.pageSize := by
  have hbacked : c.physOffset.backed = false := by
    rw [← Call.offsetAt_backed c k, h]
    rfl
  have hoffset : c.physOffset = ioMemUnassigned := by
    rw [Call.offsetAt, hbacked] at h
    exact h
  rw [Call.firstOffset, if_pos hoffset, Nat.add_mul]

theorem target_offsetAt (c : Call) {a : ℕ} (i : Kind) (ha : a / t.pageSize = c.startAddr / t.pageSize + k) :
    target t (c.offsetAt k) (c.firstOffset t + k * t.pageSize) (a % t.pageSize) i = c.access t a i := by
  rw [Call.access, ha, Nat.add_sub_cancel_left]
  dsimp only
  cases hbacked : c.physOffset.backed with
  | true =>
    rw [Call.offsetAt, hbacked]
    rfl
  | false =>
    have hdirect : ({ c.physOffset with page := c.physOffset.page + k } : PhysOffset).direct i.isWrite = false :=
      direct_of_not_backed (d := { c.physOffset with page := c.physOffset.page + k }) hbacked i.isWrite
    rw [Call.offsetAt, hbacked, if_neg (by simp), target, target, direct_of_not_backed hbacked, hdirect]
    rfl

/-- What the rounds from `k` on ask for. -/
structure RoundsGood (t : Target) (σ : State) (c : Call) (n k : ℕ) : Prop where
  part : ∀ j < c.rounds t, k ≤ j → c.NeedsSubpage t (c.startAddr / t.pageSize + j) →
    c.physOffset.backed = false ∧ (σ.desc t (c.startAddr / t.pageSize + j)).physOffset.backed = false
  whole : ∀ j < c.rounds t, k ≤ j → ¬ c.NeedsSubpage t (c.startAddr / t.pageSize + j) →
    (σ.desc t (c.startAddr / t.pageSize + j)).physOffset ≠ ioMemUnassigned →
    c.physOffset.low = 0 ∨ (σ.desc t (c.startAddr / t.pageSize + j)).regionOffset = c.firstOffset t + j * t.pageSize
  table : ∀ j < c.rounds t, k ≤ j → σ.physPageFind (c.startAddr / t.pageSize + j) = none →
    c.startAddr / t.pageSize + k ≤ (c.startAddr / t.pageSize + j) / l2Size * l2Size
  entries : c.needed t (σ.desc t) n (c.startAddr / t.pageSize + k) ≤ σ.freeEntries t

variable {T : IoTable t} {σ σ' : State}

theorem needed_congr {desc desc' : ℕ → PhysPageDesc} : ∀ (n : ℕ) {q : ℕ}, (∀ q' ≥ q, desc' q' = desc q') →
    c.needed t desc' n q = c.needed t desc n q
  | 0, _, _ => rfl
  | n + 1, q, h => by
    rw [Call.needed, Call.needed, h q (Nat.le_refl q), needed_congr n fun q' hq => h q' (Nat.le_of_succ_le hq)]

theorem Inv.registerPage_round (h : Inv T σ) (hproper : Proper T c.physOffset)
    (hrounds : c.startAddr % t.pageSize + c.size ≤ c.rounds t * t.pageSize) {n : ℕ} (hk : k < c.rounds t)
    (hgood : RoundsGood t σ c (n + 1) k) :
    ∃ σ', σ.registerPage t c.startAddr c.size (c.startAddr + k * t.pageSize) (c.offsetAt k)
        (c.firstOffset t + k * t.pageSize) = some (σ', c.offsetAt (k + 1)) ∧
      Registered T σ σ' (c.startAddr / t.pageSize + k) (checkSubpage t c.startAddr c.size (c.startAddr + k * t.pageSize))
        (c.offsetAt k) (c.firstOffset t + k * t.pageSize)
        (if c.NeedsSubpage t (c.startAddr / t.pageSize + k) ∧
          (σ.desc t (c.startAddr / t.pageSize + k)).physOffset.subpage = false then 1 else 0) := by
  obtain ⟨hstart, hstop, hneed, hbytes⟩ := checkSubpage_spec hrounds hk
  have hun := fun hun => regionOffset_unassigned (t := t) (c := c) (k := k) hun
  have hentries := hgood.entries
  rw [Call.needed] at hentries
  have hq : (c.startAddr + k * t.pageSize) / t.pageSize = c.startAddr / t.pageSize + k :=
    Nat.add_mul_div_right _ _ (pageSize_pos t)
  have htableHere := hgood.table k hk (Nat.le_refl k)
  have hpartHere := hgood.part k hk (Nat.le_refl k)
  have hwholeHere := hgood.whole k hk (Nat.le_refl k)
  generalize hrange : checkSubpage t c.startAddr c.size (c.startAddr + k * t.pageSize) = bounds at *
  generalize c.startAddr / t.pageSize + k = q at *
  have hneeds : (bounds.2.2 || (c.offsetAt k).subwidth) = true ↔
      c.NeedsSubpage t q := by
    rw [Bool.or_eq_true, hneed, Call.offsetAt_subwidth, Call.NeedsSubpage]
  have hbounds : bounds.2.2 = false → ∀ off < t.pageSize,
      bounds.1 ≤ off ∧
        off ≤ bounds.2.1 := by
    intro hfalse off hoff
    have hwhole : c.Whole t q := by
      by_contra hnot
      rw [hneed.2 hnot] at hfalse
      exact absurd hfalse (by simp)
    obtain ⟨hlo, hhi⟩ := hwhole
    rw [Nat.succ_mul] at hhi
    exact (hbytes off hoff).2 ⟨by omega, by omega⟩
  have hfree : c.NeedsSubpage t q →
      (σ.desc t q).physOffset.subpage = false → 0 < σ.freeEntries t := by
    intro hn hs
    rw [if_pos ⟨hn, hs⟩] at hentries
    omega
  by_cases hassigned : (σ.desc t q).physOffset = ioMemUnassigned
  · have htable : σ.physPageFind q = none →
        q % l2Size = 0 := fun hnone => by
      have hle := htableHere hnone
      have hdiv := Nat.div_add_mod' q l2Size
      omega
    have hpart : (bounds.2.2 ||
        (c.offsetAt k).subwidth) = true → (c.offsetAt k).backed = false ∧ 0 < σ.freeEntries t := fun hn => by
      rw [Call.offsetAt_backed]
      exact ⟨(hpartHere (hneeds.1 hn)).1, hfree (hneeds.1 hn) (by rw [hassigned]; rfl)⟩
    obtain ⟨σ', hrun, hreg⟩ := h.registerPage_unassigned hq hrange hassigned htable (hproper.offsetAt k) hun hstart
      hstop hpart hbounds
    refine ⟨σ', by rw [hrun, Call.offsetAt_next], ?_⟩
    simpa only [hneeds, hassigned, show ioMemUnassigned.subpage = false from rfl, and_true] using hreg
  · obtain ⟨p, hp⟩ : ∃ p, σ.physPageFind q = some p := by
      rw [← Option.ne_none_iff_exists']
      intro hnone
      rw [State.desc, hnone] at hassigned
      exact hassigned rfl
    have hdesc : σ.desc t q = p := by rw [State.desc, hp, Option.getD_some]
    have hpart : (bounds.2.2 ||
        (c.offsetAt k).subwidth) = true → (c.offsetAt k).backed = false ∧ p.physOffset.backed = false ∧
          (p.physOffset.subpage = false → 0 < σ.freeEntries t) := fun hn => by
      have hpart := hpartHere (hneeds.1 hn)
      rw [Call.offsetAt_backed, ← hdesc]
      exact ⟨hpart.1, hpart.2, hfree (hneeds.1 hn)⟩
    have hwhole : bounds.2.2 = false →
        (c.offsetAt k).subwidth = false →
        (c.offsetAt k).low = 0 ∨ p.regionOffset = c.firstOffset t + k * t.pageSize := fun hn hs => by
      have hn' : ¬ c.NeedsSubpage t q := by
        rw [← hneeds, hn, hs]
        simp
      rw [Call.offsetAt_low, ← hdesc]
      exact hwholeHere hn' hassigned
    rw [hdesc] at hassigned ⊢
    obtain ⟨σ', hrun, hreg⟩ := h.registerPage_assigned hq hrange hp hassigned (hproper.offsetAt k) hun hstart hstop
      hpart (fun hn hs => ⟨hwhole hn hs, hbounds hn⟩)
    refine ⟨σ', by rw [hrun, Call.offsetAt_next], ?_⟩
    simpa only [hneeds] using hreg

/-- The rounds from `k` on register the rest of the range. -/
theorem Inv.registerLoop (hproper : Proper T c.physOffset)
    (hrounds : c.startAddr % t.pageSize + c.size ≤ c.rounds t * t.pageSize) :
    ∀ (n k : ℕ) {σ : State}, n + k = c.rounds t → Inv T σ → RoundsGood t σ c n k →
    ∃ σ', State.registerLoop t c.startAddr c.size n (c.startAddr + k * t.pageSize) (c.offsetAt k)
        (c.firstOffset t + k * t.pageSize) σ = some σ' ∧ Inv T σ' ∧
      ∀ a i, σ'.access t a i = if c.startAddr / t.pageSize + k ≤ a / t.pageSize ∧ c.Covers T a i then
        some (c.access t a i) else σ.access t a i
  | 0, k, σ, hn, h, _ => by
    refine ⟨σ, rfl, h, fun a i => (if_neg fun hcov => ?_).symm⟩
    -- the range ends before the page that follows the last round
    have hend : a < c.startAddr / t.pageSize * t.pageSize + k * t.pageSize := by
      have hstart : c.startAddr / t.pageSize * t.pageSize + c.startAddr % t.pageSize = c.startAddr :=
        Nat.div_add_mod' _ _
      rw [← hn, Nat.zero_add] at hrounds
      have hlt := hcov.2.2.1
      omega
    rw [← Nat.add_mul] at hend
    exact absurd hcov.1 (Nat.not_le.2 ((Nat.div_lt_iff_lt_mul (pageSize_pos t)).2 hend))
  | n + 1, k, σ, hn, h, hgood => by
    have hk : k < c.rounds t := by omega
    obtain ⟨σ₁, hpage, hreg⟩ := h.registerPage_round hproper hrounds hk hgood
    obtain ⟨-, -, -, hbytes⟩ := checkSubpage_spec hrounds hk
    have hdesc : ∀ q' ≥ c.startAddr / t.pageSize + (k + 1), σ₁.desc t q' = σ.desc t q' := fun q' hq' =>
      hreg.desc q' (by omega)
    have hgood₁ : RoundsGood t σ₁ c n (k + 1) := by
      refine ⟨fun j hj hkj => ?_, fun j hj hkj => ?_, fun j hj hkj hnone => ?_, ?_⟩
      · rw [hdesc _ (by omega)]
        exact hgood.part j hj (by omega)
      · rw [hdesc _ (by omega)]
        exact hgood.whole j hj (by omega)
      · obtain ⟨hnone, hdiv⟩ := (hreg.find _).1 hnone
        have hle := hgood.table j hj (by omega) hnone
        by_contra hlt
        refine hdiv ?_
        have heq : (c.startAddr / t.pageSize + j) / l2Size * l2Size = c.startAddr / t.pageSize + k := by omega
        rw [← heq, Nat.mul_div_cancel _ (show 0 < l2Size from Nat.two_pow_pos 10)]
      · have hentries := hgood.entries
        have hfree := hreg.free
        rw [Call.needed] at hentries
        rw [needed_congr n hdesc]
        rw [Nat.add_assoc] at hentries
        omega
    obtain ⟨σ', hloop, h', haccess⟩ := Inv.registerLoop hproper hrounds n (k + 1) (by omega) hreg.inv hgood₁
    refine ⟨σ', ?_, h', fun a i => ?_⟩
    · rw [State.registerLoop, hpage]
      rw [Nat.succ_mul, ← Nat.add_assoc, ← Nat.add_assoc] at hloop
      exact hloop
    · rw [haccess, hreg.access]
      have hpageOf : a / t.pageSize = c.startAddr / t.pageSize + k →
          (c.startAddr / t.pageSize + k) * t.pageSize + a % t.pageSize = a := fun ha => by
        rw [← ha, Nat.div_add_mod']
      by_cases ha : a / t.pageSize = c.startAddr / t.pageSize + k
      · have hb := hbytes _ (Nat.mod_lt a (pageSize_pos t))
        rw [hpageOf ha] at hb
        rw [if_neg fun hcov => by omega]
        by_cases hcov : c.Covers T a i
        · obtain ⟨hlo, hhi⟩ := hb.2 ⟨hcov.1, hcov.2.1⟩
          rw [if_pos ⟨ha, hlo, hhi, (handles_offsetAt T c k i).2 hcov.2.2⟩, if_pos ⟨ha.ge, hcov⟩, target_offsetAt c i ha]
        · rw [if_neg, if_neg fun hall => hcov hall.2]
          rintro ⟨-, hlo, hhi, hhandles⟩
          exact hcov ⟨(hb.1 ⟨hlo, hhi⟩).1, (hb.1 ⟨hlo, hhi⟩).2, (handles_offsetAt T c k i).1 hhandles⟩
      · rw [if_neg (fun hall : a / t.pageSize = _ ∧ _ => ha hall.1)]
        refine if_congr (and_congr_left fun _ => ?_) rfl rfl
        omega

theorem Call.offsetAt_zero (c : Call) : c.offsetAt 0 = c.physOffset := by
  rw [Call.offsetAt]
  split <;> rfl

/-- A call that meets the condition registers its range and changes no other dispatch. -/
theorem Inv.register (h : Inv T σ) (hproper : Proper T c.physOffset) (hgood : Good t σ c) :
    ∃ σ', σ.cpuRegisterPhysicalMemoryOffset t c = some σ' ∧ Inv T σ' ∧
      ∀ a i, σ'.access t a i = if c.Covers T a i then some (c.access t a i) else σ.access t a i := by
  rcases Nat.eq_zero_or_pos c.size with hsize | hsize
  · have hrounds : c.rounds t = 0 := by
      rw [Call.rounds, hsize, Nat.zero_add]
      exact Nat.div_eq_of_lt (Nat.sub_lt (pageSize_pos t) Nat.one_pos)
    refine ⟨σ, by rw [State.cpuRegisterPhysicalMemoryOffset, hrounds]; rfl, h, fun a i => (if_neg fun hcov => ?_).symm⟩
    have hlt := hcov.2.1
    have hle := hcov.1
    omega
  · have hrounds := hgood.rounds hsize
    have hgood' : RoundsGood t σ c (c.rounds t) 0 :=
      ⟨fun j hj _ => hgood.part j hj, fun j hj _ => hgood.whole j hj, fun j hj _ => hgood.table j hj, hgood.entries⟩
    obtain ⟨σ', hloop, h', haccess⟩ := Inv.registerLoop hproper hrounds (c.rounds t) 0 rfl h hgood'
    rw [Call.offsetAt_zero, Nat.zero_mul, Nat.add_zero, Nat.add_zero] at hloop
    refine ⟨σ', hloop, h', fun a i => ?_⟩
    rw [haccess]
    exact if_congr (and_iff_right_of_imp fun hcov => Nat.div_le_div_right hcov.1) rfl rfl

end Rounds

/-! ### Sequences of calls -/

section Runs

variable {T : IoTable t} {σ : State}

theorem start_inv (T : IoTable t) : Inv T (IoTable.start t T) where
  unassigned := fun _ _ => rfl
  page := fun _ => .inl (Plain.unassigned T)
  inj := fun _ _ h => absurd h (by simp [State.desc, State.physPageFind, IoTable.start, ioMemUnassigned])
  table := fun _ h => ⟨h, rfl, rfl⟩
  sub := fun _ h => absurd rfl h

theorem start_access (T : IoTable t) (a : ℕ) (k : Kind) : (IoTable.start t T).access t a k = some (.io 2 a) := by
  have hself : a % t.pageSize + a / t.pageSize * t.pageSize = a := by
    rw [Nat.mul_comm]
    exact Nat.mod_add_div a t.pageSize
  rw [(start_inv T).access_plain k (Plain.unassigned T)]
  have htarget : target t ioMemUnassigned (a / t.pageSize * t.pageSize) (a % t.pageSize) k =
      .io 2 (a % t.pageSize + a / t.pageSize * t.pageSize) := by
    rw [target, direct_of_not_backed (show ioMemUnassigned.backed = false from rfl)]
    rfl
  rw [hself] at htarget
  exact congrArg some htarget

theorem run_dispatch : ∀ (calls past : List Call) {σ : State}, Inv T σ →
    (∀ a k, σ.access t a k = some (dispatch T past a k)) → GoodRun T σ calls →
    ∃ σ', calls.foldlM (fun σ c => σ.cpuRegisterPhysicalMemoryOffset t c) σ = some σ' ∧
      ∀ a k, σ'.access t a k = some (dispatch T (calls.reverse ++ past) a k)
  | [], past, σ, _, haccess, _ => ⟨σ, rfl, haccess⟩
  | c :: calls, past, σ, h, haccess, ⟨hproper, hgood, hrest⟩ => by
    obtain ⟨σ₁, hcall, h₁, haccess₁⟩ := h.register hproper hgood
    have hstep : ∀ a k, σ₁.access t a k = some (dispatch T (c :: past) a k) := fun a k => by
      rw [haccess₁, haccess, dispatch]
      split <;> rfl
    obtain ⟨σ', hrun, haccess'⟩ := run_dispatch calls (c :: past) h₁ hstep (hrest σ₁ hcall)
    refine ⟨σ', ?_, ?_⟩
    · rw [List.foldlM_cons, hcall]
      exact hrun
    · rw [List.reverse_cons, List.append_assoc]
      exact haccess'

/-- After calls that meet the condition, every access goes to the region of the latest call that
covers it, with the offset that the call prescribes, and an access that no call covers goes to
the unassigned memory with its own address. -/
theorem register_run {calls : List Call} (hgood : GoodRun T (IoTable.start t T) calls) :
    ∃ σ, calls.foldlM (fun σ c => σ.cpuRegisterPhysicalMemoryOffset t c) (IoTable.start t T) = some σ ∧
      ∀ a k, σ.access t a k = some (dispatch T calls.reverse a k) := by
  obtain ⟨σ, hrun, haccess⟩ := run_dispatch calls [] (start_inv T) (start_access T) hgood
  rw [List.append_nil] at haccess
  exact ⟨σ, hrun, haccess⟩

end Runs

def twoDevices : IoTable target32 where
  functions i k := if i = 1 then k.isWrite else decide (i ≠ 0)
  used i := decide (i < 7)
  lt i h := lt_trans (of_decide_eq_true h) (by decide)
  reserved i h := decide_eq_true (by omega)
  ram _ := rfl
  rom _ := rfl
  unassigned _ := rfl

theorem twoDevices_proper : Proper twoDevices ⟨0, 5, false, false, false⟩ ∧
    Proper twoDevices ⟨0, 6, false, false, false⟩ ∧ Proper twoDevices ⟨16, 1, false, false, false⟩ :=
  ⟨⟨rfl, .inr ⟨by decide, rfl, fun _ _ => .inr rfl⟩, fun _ => rfl⟩,
    ⟨rfl, .inr ⟨by decide, rfl, fun _ _ => .inr rfl⟩, fun _ => rfl⟩,
    ⟨rfl, .inr ⟨by decide, rfl, fun _ => fun | ⟨false, _⟩ => .inl rfl | ⟨true, _⟩ => .inr rfl⟩, fun h => nomatch h⟩⟩

/-- A device takes a part of a page that another device has, with a ROM behind the page. -/
theorem register_run_part :
    ∃ σ, [(⟨0, 4096, ⟨0, 5, false, false, false⟩, 0⟩ : Call), ⟨4096, 4096, ⟨16, 1, false, false, false⟩, 0⟩,
          ⟨256, 512, ⟨0, 6, false, false, false⟩, 8192⟩].foldlM
        (fun σ c => σ.cpuRegisterPhysicalMemoryOffset target32 c) (IoTable.start target32 twoDevices) = some σ ∧
      ∀ a k, σ.access target32 a k = some (dispatch twoDevices
        [⟨256, 512, ⟨0, 6, false, false, false⟩, 8192⟩, ⟨4096, 4096, ⟨16, 1, false, false, false⟩, 0⟩,
          ⟨0, 4096, ⟨0, 5, false, false, false⟩, 0⟩] a k) := by
  refine register_run ⟨twoDevices_proper.1, ?_, fun σ h => ?_⟩
  · refine ⟨fun _ => by decide, by decide, by decide, by decide, ?_⟩
    exact Nat.zero_le (State.freeEntries target32 _)
  · have hσ := Option.some.inj (show some _ = some σ from h)
    subst hσ
    refine ⟨twoDevices_proper.2.2, ⟨fun _ => by decide, by decide, by decide, by decide, ?_⟩, fun σ h => ?_⟩
    · exact Nat.zero_le (State.freeEntries target32 _)
    · have hσ := Option.some.inj (show some _ = some σ from h)
      subst hσ
      refine ⟨twoDevices_proper.2.1, ⟨fun _ => by decide, by decide, by decide, by decide, ?_⟩, fun _ _ => trivial⟩
      exact List.countP_pos_iff.2 ⟨7, List.mem_range.2 (by decide), rfl⟩

/-- A device at the second page of the address space gets a new table, in which the first page
has the address of the second one as its offset. -/
theorem register_neighbour :
    ∃ σ, Proper twoDevices ⟨0, 5, false, false, false⟩ ∧
      (IoTable.start target32 twoDevices).cpuRegisterPhysicalMemoryOffset target32
        ⟨4096, 4096, ⟨0, 5, false, false, false⟩, 0⟩ = some σ ∧
      σ.access target32 0 ⟨false, 2⟩ = some (.io 2 4096) ∧
      dispatch twoDevices [⟨4096, 4096, ⟨0, 5, false, false, false⟩, 0⟩] 0 ⟨false, 2⟩ = .io 2 0 :=
  ⟨_, twoDevices_proper.1, rfl, by decide, by decide⟩

end Ar7Qemu.Exec.PhysRegister
