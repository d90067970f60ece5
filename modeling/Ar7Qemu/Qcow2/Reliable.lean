import Ar7Qemu.Qcow2.State

/-! Requests to a reliable host file. A read leaves the driver state as it was
except for the request counter, a write replaces the written interval of the
store. -/

namespace Ar7Qemu.Qcow2

open Lib Block

theorem bind_apply {α β : Type} (x : Qcow α) (f : α → Qcow β) (s : BDRVQcowState) :
    (x >>= f) s = f (x s).1 (x s).2 := rfl

@[simp] theorem pure_apply {α : Type} (a : α) (s : BDRVQcowState) : (pure a : Qcow α) s = (a, s) :=
  rfl

@[simp] theorem map_apply {α β : Type} (f : α → β) (x : Qcow α) (s : BDRVQcowState) :
    (f <$> x) s = (f (x s).1, (x s).2) := rfl

@[simp] theorem get_apply (s : BDRVQcowState) : (get : Qcow BDRVQcowState) s = (s, s) := rfl

@[simp] theorem set_apply (t s : BDRVQcowState) : (set t : Qcow PUnit) s = (⟨⟩, t) := rfl

@[simp] theorem modify_apply (f : BDRVQcowState → BDRVQcowState) (s : BDRVQcowState) :
    (modify f : Qcow PUnit) s = (⟨⟩, f s) := rfl

namespace BDRVQcowState

/-- Every request to the image file succeeds. -/
def Reliable (s : BDRVQcowState) : Prop := s.hd.Reliable

def ticked (s : BDRVQcowState) (t : ℕ) : BDRVQcowState := { s with hd := { s.hd with tick := t } }

/-- The state with another file content, length and request counter. -/
def stored (s : BDRVQcowState) (d : Bytes) (l t : ℕ) : BDRVQcowState :=
  { s with hd := { s.hd with data := d, len := l, tick := t } }

variable (s : BDRVQcowState) (d : Bytes) (l t : ℕ)

@[simp] theorem ticked_self : s.ticked s.hd.tick = s := rfl

@[simp] theorem ticked_ticked (t' : ℕ) : (s.ticked t).ticked t' = s.ticked t' := rfl

@[simp] theorem ticked_data : (s.ticked t).hd.data = s.hd.data := rfl

@[simp] theorem stored_data : (s.stored d l t).hd.data = d := rfl

end BDRVQcowState

variable {s : BDRVQcowState}

/-- What a read can do: it leaves the state, and success means that the buffer holds
what the file does. -/
theorem pread_cases (s : BDRVQcowState) (off n : ℕ) (buf : Bytes) :
    ∃ ok b t, pread off n buf s = ((ok, b), s.ticked t) ∧
      (ok = true → b = buf.write 0 n (s.hd.data.drop off)) := by
  by_cases h0 : HostFile.intCount n = 0
  · refine ⟨n = 0, buf, s.hd.tick, by simp [pread, HostFile.bdrvPread, h0], fun hok => ?_⟩
    rw [of_decide_eq_true hok, Bytes.write_zero]
  · cases hio : s.hd.io s.hd.tick with
    | none =>
      refine ⟨HostFile.intCount n = n, buf.write 0 (HostFile.intCount n) (s.hd.data.drop off),
        s.hd.tick + 1, by simp [pread, HostFile.bdrvPread, h0, hio]; rfl, fun hok => ?_⟩
      rw [of_decide_eq_true hok]
    | some m =>
      exact ⟨false, _, s.hd.tick + 1, by simp [pread, HostFile.bdrvPread, h0, hio]; rfl,
        fun hok => absurd hok Bool.false_ne_true⟩

/-- What a write can do: success means that the interval holds the data, and a
failure touches nothing outside it. -/
theorem pwrite_cases (s : BDRVQcowState) (off n : ℕ) (d : Bytes) :
    ∃ ok d' l t, pwrite off n d s = (ok, s.stored d' l t) ∧
      (ok = true → d' = s.hd.data.write off n d) ∧
      ∀ k, (k < off ∨ off + n ≤ k) → d' k = s.hd.data k := by
  have hle : HostFile.intCount n ≤ n := by
    rw [HostFile.intCount]
    split_ifs <;> omega
  by_cases h0 : HostFile.intCount n = 0
  · refine ⟨n = 0, s.hd.data, s.hd.len, s.hd.tick, by simp [pwrite, HostFile.bdrvPwrite, h0]; rfl,
      fun hok => ?_, fun _ _ => rfl⟩
    rw [of_decide_eq_true hok, Bytes.write_zero]
  · cases hio : s.hd.io s.hd.tick with
    | none =>
      refine ⟨HostFile.intCount n = n, s.hd.data.write off (HostFile.intCount n) d, _, s.hd.tick + 1,
        by simp [pwrite, HostFile.bdrvPwrite, h0, hio]; rfl, fun hok => ?_, fun k hk => ?_⟩
      · rw [of_decide_eq_true hok]
      · exact Bytes.write_apply_of_not_mem (by omega)
    | some m =>
      refine ⟨false, _, s.hd.len, s.hd.tick + 1, by simp [pwrite, HostFile.bdrvPwrite, h0, hio]; rfl,
        fun hok => absurd hok Bool.false_ne_true, fun k hk => ?_⟩
      exact if_neg (by omega)

theorem pread_request (s : BDRVQcowState) (off : ℕ) {n : ℕ} (h0 : 0 < n) (hn : n < 2 ^ 31)
    (buf : Bytes) :
    ∃ b, pread off n buf s = (((s.hd.io s.hd.tick).isNone, b), s.ticked (s.hd.tick + 1)) ∧
      ((s.hd.io s.hd.tick).isNone = true → b = buf.write 0 n (s.hd.data.drop off)) := by
  cases hio : s.hd.io s.hd.tick with
  | none =>
    refine ⟨_, ?_, fun _ => rfl⟩
    simp [pread, HostFile.bdrvPread, HostFile.intCount_of_lt hn, h0.ne', hio]
    rfl
  | some m =>
    refine ⟨fun i => if i < n ∧ m i then s.hd.data (off + i) else buf i, ?_,
      fun h => absurd h Bool.false_ne_true⟩
    simp [pread, HostFile.bdrvPread, HostFile.intCount_of_lt hn, h0.ne', hio]
    rfl

/-- A write of at least a byte is one request, and its outcome is the scheduled one. -/
theorem pwrite_request (s : BDRVQcowState) (off : ℕ) {n : ℕ} (h0 : 0 < n) (hn : n < 2 ^ 31)
    (d : Bytes) :
    ∃ d' l, pwrite off n d s = ((s.hd.io s.hd.tick).isNone, s.stored d' l (s.hd.tick + 1)) ∧
      ((s.hd.io s.hd.tick).isNone = true → d' = s.hd.data.write off n d) ∧
      ∀ k, (k < off ∨ off + n ≤ k) → d' k = s.hd.data k := by
  cases hio : s.hd.io s.hd.tick with
  | none =>
    refine ⟨_, max s.hd.len (HostFile.alignSector (off + n)), ?_, fun _ => rfl,
      fun k hk => Bytes.write_apply_of_not_mem hk⟩
    simp [pwrite, HostFile.bdrvPwrite, HostFile.intCount_of_lt hn, h0.ne', hio]
    rfl
  | some m =>
    refine ⟨fun k => if off ≤ k ∧ k < off + n ∧ m (k - off) then d (k - off) else s.hd.data k,
      s.hd.len, ?_, fun h => absurd h Bool.false_ne_true, fun k hk => if_neg (by omega)⟩
    simp [pwrite, HostFile.bdrvPwrite, HostFile.intCount_of_lt hn, h0.ne', hio]
    rfl

theorem pread_ok (h : s.Reliable) (off : ℕ) {n : ℕ} (hn : n < 2 ^ 31) (buf : Bytes) :
    ∃ t, pread off n buf s = ((true, buf.write 0 n (s.hd.data.drop off)), s.ticked t) := by
  obtain ⟨t, ht⟩ := HostFile.bdrvPread_ok h off hn buf
  exact ⟨t, by simp only [pread, ht]; rfl⟩

theorem pread_reliable (h : s.Reliable) (off n : ℕ) (buf : Bytes) :
    ∃ b t, pread off n buf s = ((decide (n < 2 ^ 31), b), s.ticked t) := by
  by_cases hn : n < 2 ^ 31
  · obtain ⟨t, ht⟩ := pread_ok h off hn buf
    exact ⟨_, t, by rw [ht, decide_eq_true hn]⟩
  · have hc : HostFile.intCount n ≠ n := by unfold HostFile.intCount; split <;> omega
    by_cases h0 : HostFile.intCount n = 0
    · refine ⟨buf, s.hd.tick, ?_⟩
      rw [decide_eq_false hn]
      simp [pread, HostFile.bdrvPread, h0, show n ≠ 0 by omega]
    · refine ⟨buf.write 0 (HostFile.intCount n) (s.hd.data.drop off), s.hd.tick + 1, ?_⟩
      rw [decide_eq_false hn]
      simp [pread, HostFile.bdrvPread, h0, hc, h s.hd.tick, BDRVQcowState.ticked]

theorem pwrite_ok (h : s.Reliable) (off : ℕ) {n : ℕ} (hn : n < 2 ^ 31) (d : Bytes) :
    ∃ t, pwrite off n d s = (true, s.stored (s.hd.data.write off n d)
      (if n = 0 then s.hd.len else max s.hd.len (HostFile.alignSector (off + n))) t) := by
  obtain ⟨t, ht⟩ := HostFile.bdrvPwrite_ok h off hn d
  exact ⟨t, by simp only [pwrite, ht]; rfl⟩

theorem pwrite_stored (h : s.Reliable) (off : ℕ) {n : ℕ} (hn : n < 2 ^ 31) (d : Bytes) :
    ∃ l t, pwrite off n d s = (true, s.stored (s.hd.data.write off n d) l t) ∧ s.hd.len ≤ l ∧
      (0 < n → off + n ≤ l) := by
  obtain ⟨t, ht⟩ := pwrite_ok h off hn d
  refine ⟨_, t, ht, ?_, fun h0 => ?_⟩
  · split_ifs
    · exact le_rfl
    · exact le_max_left _ _
  · rw [if_neg h0.ne']
    refine le_trans ?_ (le_max_right _ _)
    rw [HostFile.alignSector]
    omega

theorem word_read {d buf : Bytes} {off w n j : ℕ} (hj : j < n) :
    (buf.write 0 (w * n) (d.drop off)).word w (w * j) = d.word w (off + w * j) := by
  have hw : w * j + w ≤ w * n := by
    calc w * j + w = w * (j + 1) := (Nat.mul_succ w j).symm
      _ ≤ w * n := Nat.mul_le_mul_left w hj
  refine Bytes.beVal_congr fun i hi => ?_
  rw [Bytes.drop_apply, Bytes.drop_apply, ← Nat.zero_add (w * j + i),
    Bytes.write_apply_of_mem (by omega), Bytes.drop_apply, Nat.add_assoc]

theorem preadTable_cases (s : BDRVQcowState) (w off n : ℕ) (old : ℕ → ℕ) :
    ∃ ok b t, preadTable w off n old s = ((ok, b), s.ticked t) ∧
      (ok = true → ∀ j < n, b j = s.hd.data.word w (off + w * j)) := by
  obtain ⟨ok, b, t, ht, hb⟩ := pread_cases s off (w * n) (Bytes.table w old)
  refine ⟨ok, _, t, by rw [preadTable, bind_apply, ht]; rfl, fun hok j hj => ?_⟩
  rw [if_pos hj, hb hok, word_read hj]

theorem preadTable_request (s : BDRVQcowState) (off : ℕ) {w n : ℕ} (h0 : 0 < w * n)
    (hn : w * n < 2 ^ 31) (old : ℕ → ℕ) :
    ∃ b, preadTable w off n old s =
        (((s.hd.io s.hd.tick).isNone, b), s.ticked (s.hd.tick + 1)) ∧
      ((s.hd.io s.hd.tick).isNone = true → ∀ j < n, b j = s.hd.data.word w (off + w * j)) := by
  obtain ⟨b, hb, hdata⟩ := pread_request s off h0 hn (Bytes.table w old)
  refine ⟨_, by rw [preadTable, bind_apply, hb]; rfl, fun hok j hj => ?_⟩
  rw [if_pos hj, hdata hok, word_read hj]

theorem preadTable_ok (h : s.Reliable) (off : ℕ) {w n : ℕ} (hn : w * n < 2 ^ 31) (old : ℕ → ℕ) :
    ∃ t, preadTable w off n old s =
      ((true, fun j => if j < n then s.hd.data.word w (off + w * j) else old j), s.ticked t) := by
  obtain ⟨t, ht⟩ := pread_ok h off hn (Bytes.table w old)
  refine ⟨t, ?_⟩
  rw [preadTable, bind_apply, ht]
  refine congrArg (fun f => ((true, f), s.ticked t)) (funext fun j => ?_)
  by_cases hj : j < n
  · simp only [hj, if_true, word_read hj]
  · simp [hj]

theorem preadTable_reliable (h : s.Reliable) (w off n : ℕ) (old : ℕ → ℕ) :
    ∃ b t, preadTable w off n old s = ((decide (w * n < 2 ^ 31), b), s.ticked t) := by
  obtain ⟨b, t, ht⟩ := pread_reliable h off (w * n) (Bytes.table w old)
  exact ⟨_, t, by rw [preadTable, bind_apply, ht]; rfl⟩

end Ar7Qemu.Qcow2
