import Ar7Qemu.Lib.ByteStore

/-! Records of big-endian fields at fixed offsets. Where no two fields of a record overlap, each of
them is read back, and a byte that no field covers is zero. -/

namespace Ar7Qemu.Lib

structure Field where
  off : ℕ
  width : ℕ
  val : ℕ

namespace Field

/-- The byte `k` belongs to the field. -/
def Covers (f : Field) (k : ℕ) : Prop := f.off ≤ k ∧ k < f.off + f.width

def Disjoint (f g : Field) : Prop := f.off + f.width ≤ g.off ∨ g.off + g.width ≤ f.off

end Field

namespace Bytes

/-- The bytes of a record; what no field covers is zero. -/
def record : List Field → Bytes
  | [] => fun _ => 0
  | f :: fs => (record fs).write f.off f.width (beByte f.width f.val)

variable {fs : List Field} {f : Field}

/-- A field of a record is read back. -/
theorem word_record (hdis : fs.Pairwise Field.Disjoint) (hf : f ∈ fs) (hval : f.val < 256 ^ f.width) :
    (record fs).word f.width f.off = f.val := by
  induction fs with
  | nil => simp at hf
  | cons g fs ih =>
    rw [List.pairwise_cons] at hdis
    rcases List.mem_cons.1 hf with rfl | hf
    · exact word_write_self hval
    · have hg : g.off + g.width ≤ f.off ∨ f.off + f.width ≤ g.off := hdis.1 f hf
      unfold record
      rw [word_write_of_disjoint (by omega)]
      exact ih hdis.2 hf

theorem record_apply_of_not_covered {k : ℕ} (h : ∀ f ∈ fs, ¬ f.Covers k) : record fs k = 0 := by
  induction fs with
  | nil => rfl
  | cons g fs ih =>
    have hg := h g List.mem_cons_self
    unfold Field.Covers at hg
    unfold record
    rw [write_apply_of_not_mem (by omega)]
    exact ih fun f hf => h f (List.mem_cons_of_mem _ hf)

end Bytes

end Ar7Qemu.Lib
