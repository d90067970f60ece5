import Ar7Qemu.Lib.ByteStore

/-! A write-through cache of tables of 64-bit words in a byte store. A slot is
tagged with the offset of the table it stands for, and the tag zero marks a slot
that is not in use. Proved: what keeps every slot equal to its table when the
store changes, when a slot is given to another table, and when a part of a table
is changed in the slot and in the store. -/

namespace Ar7Qemu.Lib

structure TableCache where
  table : ℕ → ℕ → ℕ
  tag : ℕ → ℕ

namespace TableCache

/-- The cache with `t` in slot `v`. -/
def fill (c : TableCache) (v : ℕ) (t : ℕ → ℕ) : TableCache :=
  { c with table := Function.update c.table v t }

/-- The cache with slot `v` tagged `off`. -/
def retag (c : TableCache) (v off : ℕ) : TableCache := { c with tag := Function.update c.tag v off }

variable (slots size : ℕ)

/-- Byte `p` is in a table that the cache names. -/
def InTables (c : TableCache) (p : ℕ) : Prop :=
  ∃ i < slots, c.tag i ≠ 0 ∧ c.tag i ≤ p ∧ p < c.tag i + 8 * size

/-- An interval that meets no table that the cache names. -/
def OffTables (c : TableCache) (off n : ℕ) : Prop :=
  ∀ p, off ≤ p → p < off + n → ¬ c.InTables slots size p

/-- A slot in use holds what the store does. The tables are aligned and no two
slots stand for the same one, so that they do not overlap. -/
structure Coherent (c : TableCache) (d : Bytes) : Prop where
  holds : ∀ i < slots, c.tag i ≠ 0 → ∀ j < size, c.table i j = d.word 8 (c.tag i + 8 * j)
  aligned : ∀ i < slots, 8 * size ∣ c.tag i
  distinct : ∀ i < slots, ∀ j < slots, c.tag i ≠ 0 → c.tag i = c.tag j → i = j

variable {slots size} {c : TableCache} {d d' : Bytes}

theorem coherent_of_empty (d : Bytes) (h : ∀ i < slots, c.tag i = 0) : c.Coherent slots size d where
  holds i hi hne := absurd (h i hi) hne
  aligned i hi := by
    rw [h i hi]
    exact dvd_zero _
  distinct i hi _ _ hne := absurd (h i hi) hne

section

variable (h : c.Coherent slots size d)

include h

/-- The store changes outside the tables. -/
theorem Coherent.of_leaves (hd : ∀ p, c.InTables slots size p → d' p = d p) :
    c.Coherent slots size d' where
  holds i hi hne j hj := by
    rw [h.holds i hi hne j hj]
    refine (Bytes.word_congr fun k hk => ?_).symm
    exact hd _ ⟨i, hi, hne, by omega, by omega⟩
  aligned := h.aligned
  distinct := h.distinct

/-- The store changes in an interval that meets no table. -/
theorem Coherent.of_offTables {off n : ℕ} (hoff : c.OffTables slots size off n)
    (hd : ∀ p, (p < off ∨ off + n ≤ p) → d' p = d p) : c.Coherent slots size d' := by
  refine h.of_leaves fun p hp => hd p ?_
  by_contra hin
  exact hoff p (by omega) (by omega) hp

/-- An aligned table that no slot stands for meets none of the tables. -/
theorem Coherent.offTables {off : ℕ} (hoff : 8 * size ∣ off)
    (hnew : ∀ i < slots, c.tag i ≠ 0 → c.tag i ≠ off) : c.OffTables slots size off (8 * size) := by
  rintro p hlo hhi ⟨i, hi, hne, hlo', hhi'⟩
  have := dvd_apart (h.aligned i hi) hoff (hnew i hi hne)
  omega

/-- What is put in a slot that is not in use does not matter. -/
theorem Coherent.fill_unused {v : ℕ} (hv : c.tag v = 0) (t : ℕ → ℕ) :
    (c.fill v t).Coherent slots size d where
  holds i hi hne j hj := by
    have hiv : i ≠ v := by
      rintro rfl
      exact hne hv
    simp only [fill, Function.update_of_ne hiv]
    exact h.holds i hi hne j hj
  aligned := h.aligned
  distinct := h.distinct

/-- A slot is given to a table that no other slot stands for. -/
theorem Coherent.install {v off : ℕ} {t : ℕ → ℕ} (hoff : 8 * size ∣ off)
    (hnew : ∀ i < slots, i ≠ v → c.tag i ≠ 0 → c.tag i ≠ off)
    (ht : ∀ j < size, t j = d.word 8 (off + 8 * j)) :
    ((c.fill v t).retag v off).Coherent slots size d where
  holds i hi hne j hj := by
    by_cases hiv : i = v
    · subst hiv
      simp only [fill, retag, Function.update_self]
      exact ht j hj
    · simp only [fill, retag, Function.update_of_ne hiv] at hne ⊢
      exact h.holds i hi hne j hj
  aligned i hi := by
    by_cases hiv : i = v
    · subst hiv
      simp only [retag, Function.update_self]
      exact hoff
    · simp only [retag, Function.update_of_ne hiv]
      exact h.aligned i hi
  distinct i hi j hj hne heq := by
    by_cases hiv : i = v
    · by_cases hjv : j = v
      · rw [hiv, hjv]
      · subst hiv
        simp only [fill, retag, Function.update_self, Function.update_of_ne hjv] at hne heq
        exact absurd heq.symm (hnew j hj hjv (heq ▸ hne))
    · by_cases hjv : j = v
      · subst hjv
        simp only [fill, retag, Function.update_self, Function.update_of_ne hiv] at hne heq
        exact absurd heq (hnew i hi hiv hne)
      · simp only [fill, retag, Function.update_of_ne hiv, Function.update_of_ne hjv] at hne heq
        exact h.distinct i hi j hj hne heq

/-- A slot is given to a new table, which is written to the store. -/
theorem Coherent.store {v off : ℕ} {t : ℕ → ℕ} (hoff : 8 * size ∣ off)
    (hnew : ∀ i < slots, c.tag i ≠ 0 → c.tag i ≠ off) (ht : ∀ j < size, t j < 256 ^ 8) :
    ((c.fill v t).retag v off).Coherent slots size (d.write off (8 * size) (Bytes.table 8 t)) := by
  have hd : c.Coherent slots size (d.write off (8 * size) (Bytes.table 8 t)) :=
    h.of_offTables (h.offTables hoff hnew) fun p hp => Bytes.write_apply_of_not_mem hp
  exact hd.install hoff (fun i hi _ => hnew i hi) fun j hj =>
    (Bytes.word_write_table hj (ht j hj)).symm

/-- Entries `a` to `a + n` of a table are changed in its slot and in the store. -/
theorem Coherent.update {v a n : ℕ} {t : ℕ → ℕ} (hv : v < slots) (hn : a + n ≤ size)
    (hsame : ∀ j, (j < a ∨ a + n ≤ j) → t j = c.table v j)
    (hword : ∀ j, a ≤ j → j < a + n → t j < 256 ^ 8) :
    (c.fill v t).Coherent slots size
      (d.write (c.tag v + a * 8) (8 * n) (Bytes.table 8 fun i => t (a + i))) where
  holds i hi hne j hj := by
    by_cases hiv : i = v
    · subst hiv
      simp only [fill, Function.update_self]
      by_cases hin : a ≤ j ∧ j < a + n
      · have hword : (d.write (c.tag i + a * 8) (8 * n) (Bytes.table 8 fun i => t (a + i))).word 8
            (c.tag i + a * 8 + 8 * (j - a)) = t (a + (j - a)) :=
          Bytes.word_write_table (by omega) (hword _ (Nat.le_add_right _ _) (by omega))
        rw [show c.tag i + a * 8 + 8 * (j - a) = c.tag i + 8 * j by omega,
          show a + (j - a) = j by omega] at hword
        exact hword.symm
      · rw [hsame j (by omega), h.holds i hi hne j hj]
        exact (Bytes.word_write_of_disjoint (by omega)).symm
    · simp only [fill, Function.update_of_ne hiv]
      rw [h.holds i hi hne j hj]
      have := dvd_apart (h.aligned i hi) (h.aligned v hv)
        fun heq => hiv (h.distinct i hi v hv hne heq)
      exact (Bytes.word_write_of_disjoint (by omega)).symm
  aligned := h.aligned
  distinct := h.distinct

end

end TableCache

end Ar7Qemu.Lib
