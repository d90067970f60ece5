import Ar7Qemu.Lib.Run
import Mathlib.Algebra.Group.Nat.Defs
import Mathlib.Algebra.Ring.Int.Defs
import Mathlib.Data.Int.Basic
import Mathlib.Data.List.Basic

/-! The access control lists of `acl.c`. A list is edited by position and decides by its first match.
The position of a new entry is compared with a count that is kept apart from the entries: an entry for
the last position goes behind it, a removal leaves the count as it is, and a reset steps on from an
entry that it has freed. -/

namespace Ar7Qemu.Vl.Acl

open Lib

variable {M P : Type*}

structure QemuAclEntry (M : Type*) where
  pattern : M
  deny : Bool

/-- `qemu_acl`. The count is an `unsigned int`. -/
structure QemuAcl (M : Type*) where
  nentries : ℕ
  entries : List (QemuAclEntry M)
  defaultDeny : Bool

namespace QemuAcl

variable (acl : QemuAcl M)

/-- `qemu_acl_init`, for a new list. -/
def qemuAclInit : QemuAcl M := ⟨0, [], true⟩

/-- The loop of `qemu_acl_party_is_allowed`; `fnmatch` says whether a pattern matches a party. -/
def allowedLoop (fnmatch : M → P → Bool) (defaultDeny : Bool) (party : P) : List (QemuAclEntry M) → Bool
  | [] => !defaultDeny
  | entry :: rest => if fnmatch entry.pattern party then !entry.deny else allowedLoop fnmatch defaultDeny party rest

def qemuAclPartyIsAllowed (fnmatch : M → P → Bool) (party : P) : Bool :=
  allowedLoop fnmatch acl.defaultDeny party acl.entries

/-- The loop of `qemu_acl_reset`. The pointer to the next entry is read from one that has been freed. -/
def resetLoop : List (QemuAclEntry M) → Option (List (QemuAclEntry M))
  | [] => some []
  | _ :: _ => none

/-- `qemu_acl_reset`, where it does not read freed memory. -/
def qemuAclReset : Option (QemuAcl M) := (resetLoop acl.entries).map fun entries => ⟨0, entries, true⟩

/-- `qemu_acl_append`. The count is returned as an `int`. -/
def qemuAclAppend (deny : Bool) (pattern : M) : ℤ × QemuAcl M :=
  let nentries : ℕ := (acl.nentries + 1) % 2 ^ 32
  ((nentries : ℤ).bmod (2 ^ 32), { acl with nentries := nentries, entries := acl.entries ++ [⟨pattern, deny⟩] })

/-- The loop of `qemu_acl_insert`: the number that it has counted to, and the entries if the new one was
placed. -/
def insertLoop (entry : QemuAclEntry M) (index : ℤ) : ℤ → List (QemuAclEntry M) → ℤ × Option (List (QemuAclEntry M))
  | i, [] => (i, none)
  | i, tmp :: rest =>
    let i := i + 1
    if i = index then (i, some (entry :: tmp :: rest))
    else
      let (j, entries) := insertLoop entry index i rest
      (j, entries.map (tmp :: ·))

/-- `qemu_acl_insert`. The index is compared with the count as an unsigned number. -/
def qemuAclInsert (deny : Bool) (pattern : M) (index : ℤ) : ℤ × QemuAcl M :=
  if index ≤ 0 then (-1, acl)
  else if acl.nentries ≤ index.toNat then acl.qemuAclAppend deny pattern
  else
    match insertLoop ⟨pattern, deny⟩ index 0 acl.entries with
    | (i, some entries) => (i, { acl with entries := entries, nentries := (acl.nentries + 1) % 2 ^ 32 })
    | (i, none) => (i, acl)

/-- The loop of `qemu_acl_remove`. -/
def removeLoop [DecidableEq M] (pattern : M) : ℤ → List (QemuAclEntry M) → ℤ × List (QemuAclEntry M)
  | _, [] => (-1, [])
  | i, entry :: rest =>
    let i := i + 1
    if entry.pattern = pattern then (i, rest)
    else
      let (j, entries) := removeLoop pattern i rest
      (j, entry :: entries)

def qemuAclRemove [DecidableEq M] (pattern : M) : ℤ × QemuAcl M :=
  let (i, entries) := removeLoop pattern 0 acl.entries
  (i, { acl with entries := entries })

end QemuAcl

/-! ### The rules that are meant -/

/-- Rules in their order, and the decision where none matches. -/
structure Rules (M : Type*) where
  list : List (QemuAclEntry M)
  defaultDeny : Bool

def Rules.allows (r : Rules M) (fnmatch : M → P → Bool) (party : P) : Bool :=
  match r.list.find? fun entry => fnmatch entry.pattern party with
  | some entry => !entry.deny
  | none => !r.defaultDeny

inductive Op (M : Type*)
  | append (deny : Bool) (pattern : M)
  | insert (deny : Bool) (pattern : M) (index : { i : ℕ // 0 < i ∧ i < 2 ^ 31 })
  | remove (pattern : M)
  | reset
  /-- The monitor sets the default. -/
  | policy (deny : Bool)

/-- The list, unless a reset has read freed memory, the rules, and whether the last insertion returned
the number of its entry. -/
structure Sys (M : Type*) where
  acl : Option (QemuAcl M)
  rules : Rules M
  numbered : Bool

namespace Sys

def init : Sys M := ⟨some QemuAcl.qemuAclInit, ⟨[], true⟩, true⟩

variable (s : Sys M)

def number (index : ℕ) : ℕ := min index (s.rules.list.length + 1)

def step [DecidableEq M] (s : Sys M) : Op M → Sys M
  | .append deny pattern =>
    ⟨s.acl.map fun acl => (acl.qemuAclAppend deny pattern).2,
      { s.rules with list := s.rules.list ++ [⟨pattern, deny⟩] }, true⟩
  | .insert deny pattern index =>
    ⟨s.acl.map fun acl => (acl.qemuAclInsert deny pattern index.val).2,
      { s.rules with list := s.rules.list.insertIdx (s.number index.val - 1) ⟨pattern, deny⟩ },
      s.acl.all fun acl => decide ((acl.qemuAclInsert deny pattern index.val).1 = (s.number index.val : ℤ))⟩
  | .remove pattern =>
    ⟨s.acl.map fun acl => (acl.qemuAclRemove pattern).2,
      { s.rules with list := s.rules.list.eraseP fun entry => entry.pattern = pattern }, true⟩
  | .reset => ⟨s.acl.bind QemuAcl.qemuAclReset, ⟨[], true⟩, true⟩
  | .policy deny => ⟨s.acl.map fun acl => { acl with defaultDeny := deny }, { s.rules with defaultDeny := deny }, true⟩

/-- The list holds the rules and counts them, and every decision is that of the rules. -/
def Right (fnmatch : M → P → Bool) (s : Sys M) : Prop :=
  s.numbered = true ∧ ∃ acl, s.acl = some acl ∧ acl.entries = s.rules.list ∧ acl.nentries = acl.entries.length ∧
    acl.defaultDeny = s.rules.defaultDeny ∧ ∀ party, acl.qemuAclPartyIsAllowed fnmatch party = s.rules.allows fnmatch party

/-- There is room in the count for another entry, an entry is not inserted at the last position, nothing
is removed, and a list that is reset is empty. -/
def OpSafe (s : Sys M) : Op M → Prop
  | .append _ _ => s.rules.list.length + 1 < 2 ^ 32
  | .insert _ _ index => s.rules.list.length + 1 < 2 ^ 32 ∧ index.val ≠ s.rules.list.length
  | .remove pattern => ∀ entry ∈ s.rules.list, entry.pattern ≠ pattern
  | .reset => s.rules.list = []
  | .policy _ => True

end Sys

/-! ### Loops -/

theorem allowedLoop_eq (fnmatch : M → P → Bool) (r : Rules M) (party : P) :
    QemuAcl.allowedLoop fnmatch r.defaultDeny party r.list = r.allows fnmatch party := by
  obtain ⟨l, defaultDeny⟩ := r
  induction l with
  | nil => rfl
  | cons entry rest ih =>
    simp only [Rules.allows] at ih
    simp only [Rules.allows, QemuAcl.allowedLoop, List.find?_cons]
    cases fnmatch entry.pattern party with
    | true => rfl
    | false => exact ih

/-- An index within the list is reached. -/
theorem insertLoop_eq (entry : QemuAclEntry M) {k : ℕ} : ∀ {l : List (QemuAclEntry M)} {i : ℤ}, k < l.length →
    QemuAcl.insertLoop entry (i + k + 1) i l = (i + k + 1, some (l.insertIdx k entry)) := by
  induction k with
  | zero =>
    intro l i hk
    cases l with
    | nil => exact absurd hk (Nat.lt_irrefl 0)
    | cons tmp rest =>
      rw [QemuAcl.insertLoop]
      simp
  | succ k ih =>
    intro l i hk
    cases l with
    | nil => exact absurd hk (Nat.not_lt_zero _)
    | cons tmp rest =>
      have hne : ¬ i + 1 = i + ((k + 1 : ℕ) : ℤ) + 1 := by
        push_cast
        omega
      have hshift : i + ((k + 1 : ℕ) : ℤ) + 1 = i + 1 + k + 1 := by
        push_cast
        omega
      rw [QemuAcl.insertLoop]
      dsimp only
      rw [if_neg hne, hshift, ih (Nat.lt_of_succ_lt_succ hk)]
      rfl

theorem removeLoop_snd [DecidableEq M] (pattern : M) (l : List (QemuAclEntry M)) (i : ℤ) :
    (QemuAcl.removeLoop pattern i l).2 = l.eraseP fun entry => entry.pattern = pattern := by
  induction l generalizing i with
  | nil => rfl
  | cons entry rest ih =>
    rw [QemuAcl.removeLoop]
    dsimp only
    by_cases h : entry.pattern = pattern
    · simp [h]
    · rw [if_neg h]
      simp [h, ih]

/-! ### Steps -/

namespace Sys

def holding (r : Rules M) : QemuAcl M := ⟨r.list.length, r.list, r.defaultDeny⟩

theorem right_iff {fnmatch : M → P → Bool} {s : Sys M} : Right fnmatch s ↔ s.numbered = true ∧ s.acl = some (holding s.rules) := by
  constructor
  · rintro ⟨hnumbered, ⟨nentries, entries, defaultDeny⟩, hacl, hentries, hcount, hdefault, -⟩
    dsimp only at hentries hcount hdefault
    refine ⟨hnumbered, ?_⟩
    rw [hacl, hcount, hentries, hdefault]
    rfl
  · rintro ⟨hnumbered, hacl⟩
    exact ⟨hnumbered, _, hacl, rfl, rfl, rfl, allowedLoop_eq fnmatch s.rules⟩

theorem append_fst (acl : QemuAcl M) (deny : Bool) (pattern : M) :
    (acl.qemuAclAppend deny pattern).1 = (((acl.nentries + 1) % 2 ^ 32 : ℕ) : ℤ).bmod (2 ^ 32) := by
  unfold QemuAcl.qemuAclAppend
  dsimp only

theorem append_holding (r : Rules M) (deny : Bool) (pattern : M) :
    ((holding r).qemuAclAppend deny pattern).2 = holding { r with list := r.list ++ [⟨pattern, deny⟩] } ↔
      r.list.length + 1 < 2 ^ 32 := by
  unfold holding QemuAcl.qemuAclAppend
  simp only [QemuAcl.mk.injEq, List.length_append, List.length_singleton, and_true]
  omega

theorem insert_holding (r : Rules M) (deny : Bool) (pattern : M) {index : ℕ} (hpos : 0 < index) (hlt : index < 2 ^ 31) :
    (((holding r).qemuAclInsert deny pattern index).1 = (min index (r.list.length + 1) : ℕ) ∧
      ((holding r).qemuAclInsert deny pattern index).2 =
        holding { r with list := r.list.insertIdx (min index (r.list.length + 1) - 1) ⟨pattern, deny⟩ }) ↔
      r.list.length + 1 < 2 ^ 32 ∧ index ≠ r.list.length := by
  have hpos' : ¬ (index : ℤ) ≤ 0 := by omega
  have hcount : (holding r).nentries = r.list.length := rfl
  unfold QemuAcl.qemuAclInsert
  rw [if_neg hpos', Int.toNat_natCast, hcount]
  by_cases hle : r.list.length ≤ index
  · rw [if_pos hle]
    have hfirst := append_fst (holding r) deny pattern
    rw [hcount] at hfirst
    by_cases heq : index = r.list.length
    · -- the entry goes behind the last one, and its number is returned
      refine iff_of_false ?_ fun h => h.2 heq
      rintro ⟨h, -⟩
      rw [hfirst, heq, Nat.mod_eq_of_lt (by omega), Int.bmod_def] at h
      omega
    · have hmin : min index (r.list.length + 1) = r.list.length + 1 := by omega
      have hlen : r.list.length + 1 < 2 ^ 32 := by omega
      rw [hmin, Nat.add_sub_cancel, List.insertIdx_length_self, append_holding, hfirst, Nat.mod_eq_of_lt hlen]
      refine iff_of_true ⟨?_, hlen⟩ ⟨hlen, heq⟩
      rw [Int.bmod_eq_of_le (by omega) (by omega)]
  · have hk : index - 1 < r.list.length := by omega
    have hindex : (index : ℤ) = 0 + (index - 1 : ℕ) + 1 := by omega
    have hmin : min index (r.list.length + 1) = index := by omega
    have hloop := insertLoop_eq ⟨pattern, deny⟩ (i := 0) hk
    have hentries : (holding r).entries = r.list := rfl
    rw [if_neg hle, hmin, hentries, hindex, hloop]
    dsimp only
    rw [← hindex]
    have hlen : (r.list.insertIdx (index - 1) ⟨pattern, deny⟩).length = r.list.length + 1 :=
      List.length_insertIdx_of_le_length (Nat.le_of_lt hk) _
    unfold holding
    simp only [true_and, QemuAcl.mk.injEq, hlen, and_true]
    omega

/-- A removed entry is still counted. -/
theorem remove_holding [DecidableEq M] (r : Rules M) (pattern : M) :
    ((holding r).qemuAclRemove pattern).2 = holding { r with list := r.list.eraseP fun entry => entry.pattern = pattern } ↔
      ∀ entry ∈ r.list, entry.pattern ≠ pattern := by
  have hentries := removeLoop_snd pattern r.list 0
  have hcount : r.list.length = (r.list.eraseP fun entry => entry.pattern = pattern).length ↔
      ∀ entry ∈ r.list, entry.pattern ≠ pattern := by
    constructor
    · intro hlen entry hmem heq
      have hshort := List.length_eraseP_of_mem (p := fun entry : QemuAclEntry M => decide (entry.pattern = pattern)) hmem
        (decide_eq_true heq)
      have hpos := List.length_pos_of_mem hmem
      omega
    · intro h
      rw [List.eraseP_of_forall_not fun entry hmem => by simpa using h entry hmem]
  unfold QemuAcl.qemuAclRemove holding
  dsimp only
  rw [hentries]
  simp only [QemuAcl.mk.injEq, and_true]
  exact hcount

theorem reset_holding (r : Rules M) : (holding r).qemuAclReset = some (holding ⟨[], true⟩) ↔ r.list = [] := by
  unfold QemuAcl.qemuAclReset holding
  cases r.list with
  | nil => exact iff_of_true rfl rfl
  | cons entry rest => exact iff_of_false nofun nofun

/-- A step leaves the list right just where it meets its condition. -/
theorem right_step [DecidableEq M] {fnmatch : M → P → Bool} {s : Sys M} (h : Right fnmatch s) (op : Op M) :
    Right fnmatch (s.step op) ↔ s.OpSafe op := by
  obtain ⟨-, hacl⟩ := right_iff.1 h
  rw [right_iff]
  cases op with
  | append deny pattern =>
    dsimp only [step, OpSafe]
    rw [hacl, Option.map_some, Option.some.injEq, append_holding]
    exact and_iff_right rfl
  | insert deny pattern index =>
    dsimp only [step, OpSafe]
    rw [hacl, Option.map_some, Option.some.injEq, Option.all_some, decide_eq_true_iff]
    exact insert_holding s.rules deny pattern index.property.1 index.property.2
  | remove pattern =>
    dsimp only [step, OpSafe]
    rw [hacl, Option.map_some, Option.some.injEq, remove_holding]
    exact and_iff_right rfl
  | reset =>
    dsimp only [step, OpSafe]
    rw [hacl, Option.bind_some, reset_holding]
    exact and_iff_right rfl
  | policy deny =>
    dsimp only [step, OpSafe]
    rw [hacl, Option.map_some]
    exact iff_of_true ⟨rfl, rfl⟩ trivial

theorem right_init (fnmatch : M → P → Bool) : Right fnmatch (init : Sys M) := right_iff.2 ⟨rfl, rfl⟩

end Sys

/-- However a list is edited, it holds the rules, counts and numbers them, and decides by the first that
matches, just where each step meets its condition. -/
theorem acl_rules_iff [DecidableEq M] (fnmatch : M → P → Bool) (ops : List (Op M)) :
    (∀ s ∈ states Sys.step Sys.init ops, Sys.Right fnmatch s) ↔ Meets Sys.step Sys.OpSafe Sys.init ops :=
  states_iff_meets (fun _ op h => Sys.right_step h op) ops _ (Sys.right_init fnmatch)

/-- Two entries, and one of them is removed: two are counted. -/
theorem acl_count_wrong : ¬ ∀ ops : List (Op ℕ), ∀ s ∈ states Sys.step Sys.init ops,
    ∀ acl, s.acl = some acl → acl.nentries = acl.entries.length := by
  intro h
  have hlast := h [.append false 1, .append false 2, .remove 1] _ (foldl_mem_states _ _) _ rfl
  exact absurd hlast (by decide)

end Ar7Qemu.Vl.Acl
