import Mathlib.Algebra.Order.Ring.Nat
import Mathlib.Data.List.Basic
import Mathlib.Tactic.Common

/-! A block of bytes that lies in several buffers one after the other, and copies into it. The length
of a buffer that a copy goes by is kept apart from the room that it has. -/

namespace Ar7Qemu.Lib.Scatter

variable {α : Type*}

/-- A part of a buffer: where the buffer begins in the block, the bytes of it that are left out, its
room, and the length that copies go by. -/
structure Part where
  start : ℕ
  off : ℕ
  room : ℕ
  len : ℕ

/-- What has been written of a block. -/
abbrev Area (α : Type*) := ℕ → Option α

/-- Buffers of some lengths, one after the other. -/
def parts : ℕ → List ℕ → List Part
  | _, [] => []
  | start, len :: lens => ⟨start, 0, len, len⟩ :: parts (start + len) lens

/-- What is written at a place. -/
def put (area : Area α) (at_ : ℕ) (data : List α) : Area α := fun p =>
  if at_ ≤ p ∧ p < at_ + data.length then data[p - at_]? else area p

/-- A copy to the start of a part; one that leaves the buffer is a fault. -/
def copy (area : Area α) (v : Part) (data : List α) : Option (Area α) :=
  if v.off + data.length ≤ v.room then some (put area (v.start + v.off) data) else none

def fill : List Part → List α → Area α → Option (Area α × ℕ)
  | [], _, area => some (area, 0)
  | _ :: _, [], area => some (area, 0)
  | v :: vs, c :: data, area => do
    let area ← copy area v ((c :: data).take v.len)
    let (area, n) ← fill vs ((c :: data).drop v.len) area
    some (area, min v.len (c :: data).length + n)

@[simp] theorem put_nil (area : Area α) (at_ : ℕ) : put area at_ [] = area := by
  funext p
  exact if_neg (by simp only [List.length_nil]; omega)

/-- What is written in two pieces, one behind the other. -/
theorem put_append (area : Area α) (at_ : ℕ) (data rest : List α) :
    put (put area at_ data) (at_ + data.length) rest = put area at_ (data ++ rest) := by
  funext p
  unfold put
  rw [List.length_append]
  by_cases hsecond : at_ + data.length ≤ p ∧ p < at_ + data.length + rest.length
  · rw [if_pos hsecond, if_pos (by omega), List.getElem?_append_right (by omega), Nat.sub_add_eq]
  · rw [if_neg hsecond]
    by_cases hfirst : at_ ≤ p ∧ p < at_ + data.length
    · rw [if_pos hfirst, if_pos (by omega), List.getElem?_append_left (by omega)]
    · rw [if_neg hfirst, if_neg (by omega)]

/-- The first places of a block. -/
def view (area : Area α) (n : ℕ) : List (Option α) := (List.range n).map area

@[simp] theorem length_view (area : Area α) (n : ℕ) : (view area n).length = n := by
  rw [view, List.length_map, List.length_range]

theorem view_add (area : Area α) (m n : ℕ) : view area (m + n) = view area m ++ view (fun p => area (m + p)) n := by
  rw [view, view, view, List.range_add, List.map_append, List.map_map]
  rfl

/-- What is written behind the first places. -/
theorem view_put (area : Area α) (n : ℕ) (data : List α) :
    view (put area n data) (n + data.length) = view area n ++ data.map some := by
  have hlow : view (put area n data) n = view area n := by
    apply List.map_congr_left
    intro p hp
    have hlt := List.mem_range.1 hp
    exact if_neg (by omega)
  have hhigh : view (fun p => put area n data (n + p)) data.length = data.map some := by
    apply List.ext_getElem
    · rw [length_view, List.length_map]
    · intro p hp _
      rw [length_view] at hp
      simp [view, put, hp]
  rw [view_add, hlow, hhigh]

/-- What is written over some of the first places. -/
theorem view_put_within (area : Area α) {m n : ℕ} {data : List α} (h : m + data.length ≤ n) :
    view (put area m data) n = (view area n).take m ++ data.map some ++ (view area n).drop (m + data.length) := by
  obtain ⟨r, rfl⟩ := Nat.exists_eq_add_of_le h
  have hbehind : view (fun p => put area m data (m + data.length + p)) r = view (fun p => area (m + data.length + p)) r := by
    apply List.map_congr_left
    intro p _
    exact if_neg (by omega)
  have htake : (view area (m + data.length + r)).take m = view area m := by
    rw [Nat.add_assoc, view_add]
    exact List.take_left' (length_view area m)
  have hdrop : (view area (m + data.length + r)).drop (m + data.length) = view (fun p => area (m + data.length + p)) r := by
    rw [view_add]
    exact List.drop_left' (length_view area _)
  rw [view_add, view_put, hbehind, htake, hdrop]

/-- A part with room for its length, before parts that take what is left. -/
theorem fill_cons {v : Part} {vs : List Part} {room : ℕ} (hroom : v.off + v.len ≤ v.room)
    (hvs : ∀ (data : List α) (area : Area α), fill vs data area =
      some (put area (v.start + v.off + v.len) (data.take room), min room data.length))
    (data : List α) (area : Area α) :
    fill (v :: vs) data area = some (put area (v.start + v.off) (data.take (v.len + room)), min (v.len + room) data.length) := by
  cases data with
  | nil =>
    rw [List.take_nil, put_nil, List.length_nil, Nat.min_zero]
    rfl
  | cons c data =>
    have hcopy : copy area v ((c :: data).take v.len) = some (put area (v.start + v.off) ((c :: data).take v.len)) :=
      if_pos (by rw [List.length_take]; omega)
    have hput : put (put area (v.start + v.off) ((c :: data).take v.len)) (v.start + v.off + v.len)
        (((c :: data).drop v.len).take room) = put area (v.start + v.off) ((c :: data).take (v.len + room)) := by
      rw [List.take_add, ← put_append, List.length_take]
      by_cases hle : v.len ≤ (c :: data).length
      · rw [Nat.min_eq_left hle]
      · have hnil : (c :: data).drop v.len = [] := List.drop_eq_nil_of_le (by omega)
        rw [hnil, List.take_nil, put_nil, put_nil]
    have hlen : min v.len (c :: data).length + min room ((c :: data).length - v.len) =
        min (v.len + room) (c :: data).length := by omega
    rw [fill, hcopy]
    dsimp only [Option.bind_eq_bind, Option.bind_some]
    rw [hvs, hput, List.length_drop]
    dsimp only [Option.bind_some]
    rw [hlen]

/-- Buffers take as much of the data as they have room for, one behind the other. -/
theorem fill_parts (lens : List ℕ) : ∀ (start : ℕ) (data : List α) (area : Area α),
    fill (parts start lens) data area = some (put area start (data.take lens.sum), min lens.sum data.length) := by
  induction lens with
  | nil =>
    intro start data area
    rw [List.sum_nil, List.take_zero, put_nil, Nat.zero_min]
    rfl
  | cons len lens ih =>
    intro start data area
    have hroom : 0 + len ≤ len := by omega
    rw [parts, List.sum_cons]
    exact fill_cons (v := ⟨start, 0, len, len⟩) hroom (fun data area => ih _ data area) data area

/-- A part that begins behind its buffer is not filled. -/
theorem fill_fault {v : Part} {vs : List Part} (hoff : v.room ≤ v.off) (hlen : v.len ≠ 0) {data : List α} (hdata : data ≠ [])
    (area : Area α) : fill (v :: vs) data area = none := by
  obtain ⟨c, data, rfl⟩ := List.exists_cons_of_ne_nil hdata
  have hcopy : copy area v ((c :: data).take v.len) = none := if_neg (by rw [List.length_take, List.length_cons]; omega)
  rw [fill, hcopy]
  rfl

end Ar7Qemu.Lib.Scatter
