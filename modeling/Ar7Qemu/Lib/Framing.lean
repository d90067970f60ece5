import Mathlib.Data.List.Basic
import Mathlib.Tactic.Common

/-! Frames behind a header of fixed length that announces their size, decoded from a stream one unit
at a time. A frame is handed on with its last unit, an empty one with the unit behind its header; a
frame above the limit kills the decoder with its first unit above the limit. The stream of a list of
frames decodes to the list, however it is cut. -/

namespace Ar7Qemu.Lib

/-- A format of frames: the length of a header, the size that a header announces, and the largest
size that is accepted. -/
structure Framing (α : Type*) where
  headerLen : ℕ
  headerLen_pos : 0 < headerLen
  size : List α → ℕ
  limit : ℕ

namespace Framing

/-- What has arrived of a header or of a frame whose size is known. -/
inductive Decoder (α : Type*) where
  | header (got : List α)
  | body (n : ℕ) (got : List α)
  | dead

variable {α : Type*} (F : Framing α)

def headerStep (got : List α) (a : α) : Decoder α :=
  if (got ++ [a]).length = F.headerLen then .body (F.size (got ++ [a])) [] else .header (got ++ [a])

/-- One unit, and the frames that are handed on. -/
def feed : Decoder α → α → Decoder α × List (List α)
  | .header got, a => (F.headerStep got a, [])
  | .body 0 _, a => (F.headerStep [] a, [[]])
  | .body (n + 1) got, a =>
    if F.limit ≤ got.length then (.dead, [])
    else if n = got.length then (.header [], [got ++ [a]])
    else (.body (n + 1) (got ++ [a]), [])
  | .dead, _ => (.dead, [])

def feedAll : Decoder α → List α → Decoder α × List (List α)
  | d, [] => (d, [])
  | d, a :: l => ((feedAll (F.feed d a).1 l).1, (F.feed d a).2 ++ (feedAll (F.feed d a).1 l).2)

@[simp] theorem feedAll_nil (d : Decoder α) : F.feedAll d [] = (d, []) := rfl

theorem feedAll_append (d : Decoder α) (l m : List α) :
    F.feedAll d (l ++ m) = ((F.feedAll (F.feedAll d l).1 m).1, (F.feedAll d l).2 ++ (F.feedAll (F.feedAll d l).1 m).2) := by
  induction l generalizing d with
  | nil => rfl
  | cons a l ih =>
    rw [List.cons_append]
    simp only [feedAll, ih, List.append_assoc]

theorem feedAll_dead (l : List α) : F.feedAll .dead l = (.dead, []) := by
  induction l with
  | nil => rfl
  | cons a l ih => simp only [feedAll, feed, ih, List.append_nil]

/-! ### Headers -/

variable {F}

theorem feedAll_header_lt {got l : List α} (h : got.length + l.length < F.headerLen) :
    F.feedAll (.header got) l = (.header (got ++ l), []) := by
  induction l generalizing got with
  | nil => rw [feedAll_nil, List.append_nil]
  | cons a l ih =>
    rw [List.length_cons] at h
    have hstep : F.headerStep got a = .header (got ++ [a]) := by
      rw [headerStep, if_neg (by rw [List.length_append, List.length_singleton]; omega)]
    have hrest := @ih (got ++ [a]) (by rw [List.length_append, List.length_singleton]; omega)
    simp only [feedAll, feed, hstep, hrest, List.append_assoc, List.singleton_append, List.append_nil]

theorem feedAll_header_eq {got l : List α} (hl : l ≠ []) (h : got.length + l.length = F.headerLen) :
    F.feedAll (.header got) l = (.body (F.size (got ++ l)) [], []) := by
  obtain ⟨m, a, rfl⟩ := List.eq_nil_or_concat l |>.resolve_left hl
  rw [List.concat_eq_append, List.length_append, List.length_singleton] at h
  rw [List.concat_eq_append, feedAll_append, feedAll_header_lt (by omega)]
  have hstep : F.headerStep (got ++ m) a = .body (F.size (got ++ m ++ [a])) [] := by
    rw [headerStep, if_pos (by simp only [List.length_append, List.length_singleton]; omega)]
  simp only [feedAll, feed, hstep, List.append_assoc, List.append_nil]

/-! ### Bodies -/

theorem feedAll_body_lt {n : ℕ} {got l : List α} (hn : got.length + l.length < n) (hlimit : got.length + l.length ≤ F.limit) :
    F.feedAll (.body n got) l = (.body n (got ++ l), []) := by
  induction l generalizing got with
  | nil => rw [feedAll_nil, List.append_nil]
  | cons a l ih =>
    rw [List.length_cons] at hn hlimit
    obtain ⟨n, rfl⟩ : ∃ k, n = k + 1 := ⟨n - 1, by omega⟩
    have hstep : F.feed (.body (n + 1) got) a = (.body (n + 1) (got ++ [a]), []) := by
      rw [feed, if_neg (by omega), if_neg (by omega)]
    have hrest := @ih (got ++ [a]) (by rw [List.length_append, List.length_singleton]; omega)
      (by rw [List.length_append, List.length_singleton]; omega)
    simp only [feedAll, hstep, hrest, List.append_assoc, List.singleton_append, List.append_nil]

theorem feedAll_body_eq {n : ℕ} {got l : List α} (hl : l ≠ []) (hn : got.length + l.length = n) (hlimit : n ≤ F.limit) :
    F.feedAll (.body n got) l = (.header [], [got ++ l]) := by
  obtain ⟨m, a, rfl⟩ := List.eq_nil_or_concat l |>.resolve_left hl
  rw [List.concat_eq_append, List.length_append, List.length_singleton] at hn
  rw [List.concat_eq_append, feedAll_append, feedAll_body_lt (by omega) (by omega)]
  obtain ⟨n, rfl⟩ : ∃ k, n = k + 1 := ⟨n - 1, by omega⟩
  have hstep : F.feed (.body (n + 1) (got ++ m)) a = (.header [], [got ++ m ++ [a]]) := by
    rw [feed, if_neg (by rw [List.length_append]; omega), if_pos (by rw [List.length_append]; omega)]
  simp only [feedAll, hstep, List.append_assoc, List.nil_append, List.append_nil]

/-- The first unit above the limit kills the decoder. -/
theorem feedAll_body_gt {n : ℕ} {got l : List α} (hn : F.limit < n) (hgot : got.length ≤ F.limit)
    (hl : F.limit < got.length + l.length) : F.feedAll (.body n got) l = (.dead, []) := by
  have hsplit : l = l.take (F.limit - got.length) ++ l.drop (F.limit - got.length) := (List.take_append_drop _ l).symm
  have htake : (l.take (F.limit - got.length)).length = F.limit - got.length := by
    rw [List.length_take]
    omega
  obtain ⟨a, m, hm⟩ : ∃ a m, l.drop (F.limit - got.length) = a :: m := by
    apply List.exists_cons_of_ne_nil
    rw [ne_eq, List.drop_eq_nil_iff]
    omega
  obtain ⟨n, rfl⟩ : ∃ k, n = k + 1 := ⟨n - 1, by omega⟩
  have hstep : F.feed (.body (n + 1) (got ++ l.take (F.limit - got.length))) a = (.dead, []) := by
    rw [feed, if_pos (by rw [List.length_append, htake]; omega)]
  rw [hsplit, feedAll_append, feedAll_body_lt (by omega) (by omega), hm]
  simp only [feedAll, hstep, feedAll_dead, List.append_nil]

/-- An empty frame is handed on with the next unit. -/
theorem feedAll_empty {got l : List α} (hl : l ≠ []) :
    F.feedAll (.body 0 got) l = ((F.feedAll (.header []) l).1, [] :: (F.feedAll (.header []) l).2) := by
  obtain ⟨a, m, rfl⟩ := List.exists_cons_of_ne_nil hl
  simp only [feedAll, feed, List.nil_append, List.singleton_append]

/-! ### Streams of frames -/

/-- `hd` is a header that announces `n`. -/
structure Announces (F : Framing α) (hd : List α) (n : ℕ) : Prop where
  length : hd.length = F.headerLen
  size : F.size hd = n

theorem Announces.ne_nil {hd : List α} {n : ℕ} (h : F.Announces hd n) : hd ≠ [] := by
  intro hnil
  have hpos := F.headerLen_pos
  rw [← h.length, hnil] at hpos
  exact absurd hpos (Nat.lt_irrefl 0)

/-- A header and its frame, before anything when the frame is empty. -/
theorem feedAll_frame {hd f rest : List α} (hhd : F.Announces hd f.length) (hlimit : f.length ≤ F.limit)
    (hrest : f ≠ [] ∨ rest ≠ []) :
    F.feedAll (.header []) (hd ++ (f ++ rest)) =
      ((F.feedAll (.header []) rest).1, f :: (F.feedAll (.header []) rest).2) := by
  have hheader := @feedAll_header_eq _ F [] hd hhd.ne_nil (by rw [List.length_nil, Nat.zero_add]; exact hhd.length)
  rw [feedAll_append, hheader, List.nil_append, hhd.size]
  by_cases hf : f = []
  · subst hf
    rw [List.nil_append, List.length_nil, feedAll_empty (hrest.resolve_left (not_not.2 rfl))]
    rfl
  · rw [feedAll_append, feedAll_body_eq hf (by rw [List.length_nil, Nat.zero_add]) hlimit]
    rfl

/-- Frames in a row, before anything when some of them are empty. -/
theorem feedAll_frames {header : List α → List α} {frames : List (List α)}
    (hheader : ∀ f ∈ frames, F.Announces (header f) f.length) (hlimit : ∀ f ∈ frames, f.length ≤ F.limit)
    {rest : List α} (hrest : (∀ f ∈ frames, f ≠ []) ∨ rest ≠ []) :
    F.feedAll (.header []) (frames.flatMap (fun f => header f ++ f) ++ rest) =
      ((F.feedAll (.header []) rest).1, frames ++ (F.feedAll (.header []) rest).2) := by
  induction frames with
  | nil => rw [List.flatMap_nil, List.nil_append, List.nil_append]
  | cons f frames ih =>
    have hf := List.forall_mem_cons.1 hheader
    have hl := List.forall_mem_cons.1 hlimit
    have htail := ih hf.2 hl.2 (hrest.imp_left fun h => (List.forall_mem_cons.1 h).2)
    have hne : f ≠ [] ∨ frames.flatMap (fun f => header f ++ f) ++ rest ≠ [] := by
      rcases hrest with h | h
      · exact .inl (h f List.mem_cons_self)
      · exact .inr fun hnil => h (List.append_eq_nil_iff.1 hnil).2
    rw [List.flatMap_cons, List.append_assoc, List.append_assoc, feedAll_frame hf.1 hl.1 hne, htail]
    rfl

end Framing

end Ar7Qemu.Lib
