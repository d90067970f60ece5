import Ar7Qemu.Block.VpcLayout
import Mathlib.Tactic.Ring

/-! Which sizes `calculate_geometry` covers. The sectors are first divided into whole tracks, and only
the tracks are rounded up to whole cylinders. So the geometry is one cylinder short when the last
track is cut off and the tracks before it fill their cylinders. The size decides between five cases,
each with its own track and cylinder. The 8-bit `heads` can lose a part of its first value; then the
case does not depend on it. -/

namespace Ar7Qemu.Vpc

/-- What a geometry is to be for a size in sectors. -/
structure Covers (totalSectors : ℕ) (g : Geometry) : Prop where
  cyls : 1 ≤ g.cyls
  heads : 4 ≤ g.heads ∧ g.heads ≤ 16
  secs : g.secsPerCyl = 17 ∨ g.secsPerCyl = 31 ∨ g.secsPerCyl = 63 ∨ g.secsPerCyl = 255
  covers : totalSectors ≤ g.sectors
  excess : g.sectors < totalSectors + g.heads * g.secsPerCyl

/-- The size goes beyond whole cylinders by less than a track. -/
def FallsShort (totalSectors cylinder track : ℕ) : Prop :=
  0 < totalSectors % cylinder ∧ totalSectors % cylinder < track

instance (totalSectors cylinder track : ℕ) : Decidable (FallsShort totalSectors cylinder track) :=
  inferInstanceAs (Decidable (_ ∧ _))

/-- The tracks are rounded up to all of the sectors. Below `17 * 4096` sectors a cylinder has four
tracks of 17 sectors, below `17 * 16384` one track more for each 1024 tracks. -/
def RoundsUp (totalSectors : ℕ) : Prop :=
  if 65535 * 16 * 63 < totalSectors then ¬ FallsShort totalSectors (255 * 16) 255
  else if totalSectors < 17 * 4096 then ¬ FallsShort totalSectors (17 * 4) 17
  else if totalSectors < 17 * 16384 ∧ totalSectors / 17 % 1024 ≠ 0 then
    ¬ FallsShort totalSectors (17 * (totalSectors / 17 / 1024 + 1)) 17
  else if totalSectors < 31 * 16384 then ¬ FallsShort totalSectors (31 * 16) 31
  else ¬ FallsShort totalSectors (63 * 16) 63

instance (totalSectors : ℕ) : Decidable (RoundsUp totalSectors) := by
  unfold RoundsUp
  infer_instance

/-- The first value of `heads` fits 8 bits. -/
def HeadsFit (totalSectors : ℕ) : Prop := 65535 * 16 * 63 < totalSectors ∨ totalSectors < 17 * (255 * 1024 + 1)

/-! ### Integers of any size -/

def geometryUnnarrowed (cylsTimesHeads heads secsPerCyl : ℕ) : Geometry :=
  ⟨(cylsTimesHeads + heads - 1) / heads, heads, secsPerCyl⟩

/-- The first value of `heads`, before it is stored in 8 bits. -/
def firstHeads (totalSectors : ℕ) : ℕ := (totalSectors / 17 + 1023) / 1024

/-- `calculate_geometry` with integers of any size. -/
def calculateUnnarrowed (totalSectors : ℕ) : Option Geometry :=
  if 65535 * 16 * 255 < totalSectors then none
  else if 65535 * 16 * 63 < totalSectors then some (geometryUnnarrowed (totalSectors / 255) 16 255)
  else
    let heads := if firstHeads totalSectors < 4 then 4 else firstHeads totalSectors
    if heads * 1024 ≤ totalSectors / 17 ∨ 16 < heads then
      if 16 * 1024 ≤ totalSectors / 31 then some (geometryUnnarrowed (totalSectors / 63) 16 63)
      else some (geometryUnnarrowed (totalSectors / 31) 16 31)
    else some (geometryUnnarrowed (totalSectors / 17) heads 17)

/-- Each value that is stored in 8 or 16 bits fits them. -/
def NoValueLost (totalSectors : ℕ) : Prop :=
  (totalSectors ≤ 65535 * 16 * 63 → firstHeads totalSectors < 2 ^ 8) ∧
    ∀ g, calculateUnnarrowed totalSectors = some g → g.heads < 2 ^ 8 ∧ g.cyls < 2 ^ 16

/-! ### One case -/

theorem fallsShort_iff {heads track : ℕ} (totalSectors : ℕ) (ht : 0 < track) :
    FallsShort totalSectors (track * heads) track ↔ totalSectors / track % heads = 0 ∧ totalSectors % track ≠ 0 := by
  have hlt : totalSectors % track < track := Nat.mod_lt _ ht
  unfold FallsShort
  rw [Nat.mod_mul]
  rcases Nat.eq_zero_or_pos (totalSectors / track % heads) with h | h
  · rw [h, Nat.mul_zero]
    omega
  · have hle : track * 1 ≤ track * (totalSectors / track % heads) := Nat.mul_le_mul_left track h
    omega

theorem cylinders_spec (tracks : ℕ) {heads : ℕ} (hh : 0 < heads) :
    tracks ≤ (tracks + heads - 1) / heads * heads ∧ (tracks + heads - 1) / heads * heads < tracks + heads := by
  have hle := Nat.div_mul_le_self (tracks + heads - 1) heads
  have hlt := Nat.lt_div_mul_add hh (a := tracks + heads - 1)
  omega

theorem cylinders_eq_iff (tracks : ℕ) {heads : ℕ} (hh : 0 < heads) :
    (tracks + heads - 1) / heads * heads = tracks ↔ tracks % heads = 0 := by
  obtain ⟨hle, hlt⟩ := cylinders_spec tracks hh
  constructor
  · intro h
    rw [← h, Nat.mul_mod_left]
  · intro h
    obtain ⟨k, rfl⟩ := Nat.dvd_of_mod_eq_zero h
    rw [Nat.mul_comm heads k] at hle hlt ⊢
    have hk : (k * heads + heads - 1) / heads < k + 1 :=
      Nat.lt_of_mul_lt_mul_right (a := heads) (by rw [Nat.add_mul, Nat.one_mul]; exact hlt)
    have hk' : k ≤ (k * heads + heads - 1) / heads := Nat.le_of_mul_le_mul_right hle hh
    rw [show (k * heads + heads - 1) / heads = k by omega]

/-- One case: the geometry covers the size unless that falls short by a part of a track. -/
theorem covers_iff {totalSectors heads track : ℕ} (hpos : 0 < totalSectors) (hh : 4 ≤ heads ∧ heads ≤ 16)
    (htrack : track = 17 ∨ track = 31 ∨ track = 63 ∨ track = 255) :
    Covers totalSectors (geometryUnnarrowed (totalSectors / track) heads track) ↔
      ¬ FallsShort totalSectors (track * heads) track := by
  have ht : 0 < track := by omega
  have hdiv := Nat.div_add_mod totalSectors track
  have hmod := Nat.mod_lt totalSectors ht
  obtain ⟨hle, hlt⟩ := cylinders_spec (totalSectors / track) (show 0 < heads by omega)
  have heq := cylinders_eq_iff (totalSectors / track) (show 0 < heads by omega)
  rw [fallsShort_iff totalSectors ht]
  generalize hc : (totalSectors / track + heads - 1) / heads = c at hle hlt heq
  generalize totalSectors / track = tracks at *
  have hsectors : (geometryUnnarrowed tracks heads track).sectors = c * heads * track := by
    rw [geometryUnnarrowed, Geometry.sectors, hc]
  rw [Nat.mul_comm track tracks] at hdiv
  constructor
  · intro h ⟨hzero, hpart⟩
    have hcov := h.covers
    rw [hsectors, heq.2 hzero] at hcov
    omega
  · intro h
    have hup : c * heads * track ≤ (tracks + heads - 1) * track := Nat.mul_le_mul_right track (by omega)
    rw [Nat.sub_mul, Nat.add_mul, Nat.one_mul] at hup
    have hcov : totalSectors ≤ c * heads * track := by
      by_cases hzero : tracks % heads = 0
      · rw [heq.2 hzero]
        omega
      · have hnext : (tracks + 1) * track ≤ c * heads * track :=
          Nat.mul_le_mul_right track (by have := mt heq.1 hzero; omega)
        rw [Nat.add_mul, Nat.one_mul] at hnext
        omega
    have hsize : track ≤ heads * track := Nat.le_mul_of_pos_left track (by omega)
    refine ⟨?_, hh, htrack, by rw [hsectors]; exact hcov, ?_⟩
    · show 1 ≤ (tracks + heads - 1) / heads
      rw [hc]
      by_contra h0
      rw [show c = 0 by omega, Nat.zero_mul, Nat.zero_mul] at hcov
      omega
    · rw [hsectors]
      show c * heads * track < totalSectors + heads * track
      omega

/-! ### The cases -/

/-- The geometry of a size that the tracks of 17, 31 or 63 sectors hold. -/
def smallGeometry (mk : ℕ → ℕ → ℕ → Geometry) (totalSectors : ℕ) : Geometry :=
  if totalSectors < 17 * 4096 then mk (totalSectors / 17) 4 17
  else if totalSectors < 17 * 16384 ∧ totalSectors / 17 % 1024 ≠ 0 then
    mk (totalSectors / 17) (totalSectors / 17 / 1024 + 1) 17
  else if totalSectors < 31 * 16384 then mk (totalSectors / 31) 16 31
  else mk (totalSectors / 63) 16 63

/-- Where the first value of `heads` does not fit 8 bits, the larger tracks are chosen with what is
left of it, as they are with the whole value. -/
theorem smallGeometry_eq (mk : ℕ → ℕ → ℕ → Geometry) {totalSectors heads : ℕ}
    (hheads : heads = firstHeads totalSectors ∨ 255 < firstHeads totalSectors ∧ heads ≤ 255) :
    (if (if heads < 4 then 4 else heads) * 1024 ≤ totalSectors / 17 ∨ 16 < (if heads < 4 then 4 else heads) then
        if 16 * 1024 ≤ totalSectors / 31 then mk (totalSectors / 63) 16 63 else mk (totalSectors / 31) 16 31
      else mk (totalSectors / 17) (if heads < 4 then 4 else heads) 17) = smallGeometry mk totalSectors := by
  unfold firstHeads at hheads
  unfold smallGeometry
  by_cases h₁ : totalSectors < 17 * 4096
  · rw [if_pos h₁, if_neg (by split <;> omega)]
    congr 1
    split <;> omega
  · by_cases h₂ : totalSectors < 17 * 16384 ∧ totalSectors / 17 % 1024 ≠ 0
    · rw [if_neg h₁, if_pos h₂, if_neg (by split <;> omega)]
      congr 1
      split <;> omega
    · rw [if_neg h₁, if_neg h₂, if_pos (by split <;> omega)]
      by_cases h₃ : totalSectors < 31 * 16384
      · rw [if_pos h₃, if_neg (by omega)]
      · rw [if_neg h₃, if_pos (by omega)]

theorem calculateGeometry_cases {totalSectors : ℕ} (hmax : totalSectors ≤ 65535 * 16 * 255) :
    calculateGeometry totalSectors = some (if 65535 * 16 * 63 < totalSectors then geometryOf (totalSectors / 255) 16 255
      else smallGeometry geometryOf totalSectors) := by
  have hheads : (totalSectors / 17 + 1023) / 1024 % 256 = firstHeads totalSectors ∨
      255 < firstHeads totalSectors ∧ (totalSectors / 17 + 1023) / 1024 % 256 ≤ 255 := by
    unfold firstHeads
    omega
  rw [calculateGeometry, if_neg (by omega), ← smallGeometry_eq geometryOf hheads]
  simp only [apply_ite some]

theorem calculateUnnarrowed_cases {totalSectors : ℕ} (hmax : totalSectors ≤ 65535 * 16 * 255) :
    calculateUnnarrowed totalSectors =
      some (if 65535 * 16 * 63 < totalSectors then geometryUnnarrowed (totalSectors / 255) 16 255
        else smallGeometry geometryUnnarrowed totalSectors) := by
  rw [calculateUnnarrowed, if_neg (by omega), ← smallGeometry_eq geometryUnnarrowed (Or.inl rfl)]
  simp only [apply_ite some]

theorem geometryOf_eq {tracks heads : ℕ} (secs : ℕ) (hle : tracks ≤ 65535 * heads) (hh : 0 < heads) :
    geometryOf tracks heads secs = geometryUnnarrowed tracks heads secs := by
  have hlt : (tracks + heads - 1) / heads < 2 ^ 16 := (Nat.div_lt_iff_lt_mul hh).2 (by omega)
  rw [geometryOf, geometryUnnarrowed, Nat.mod_eq_of_lt hlt]

theorem calculateGeometry_eq (totalSectors : ℕ) : calculateGeometry totalSectors = calculateUnnarrowed totalSectors := by
  by_cases hmax : totalSectors ≤ 65535 * 16 * 255
  · rw [calculateGeometry_cases hmax, calculateUnnarrowed_cases hmax]
    congr 1
    by_cases hlarge : 65535 * 16 * 63 < totalSectors
    · rw [if_pos hlarge, if_pos hlarge, geometryOf_eq 255 (by omega) (by omega)]
    · rw [if_neg hlarge, if_neg hlarge]
      unfold smallGeometry
      by_cases h₁ : totalSectors < 17 * 4096
      · rw [if_pos h₁, if_pos h₁, geometryOf_eq 17 (by omega) (by omega)]
      · by_cases h₂ : totalSectors < 17 * 16384 ∧ totalSectors / 17 % 1024 ≠ 0
        · rw [if_neg h₁, if_neg h₁, if_pos h₂, if_pos h₂, geometryOf_eq 17 (by omega) (by omega)]
        · rw [if_neg h₁, if_neg h₁, if_neg h₂, if_neg h₂]
          by_cases h₃ : totalSectors < 31 * 16384
          · rw [if_pos h₃, if_pos h₃, geometryOf_eq 31 (by omega) (by omega)]
          · rw [if_neg h₃, if_neg h₃, geometryOf_eq 63 (by omega) (by omega)]
  · rw [calculateGeometry, calculateUnnarrowed, if_pos (by omega), if_pos (by omega)]

/-! ### The sizes that are covered -/

theorem covered_iff {totalSectors : ℕ} (hpos : 1 ≤ totalSectors) (hmax : totalSectors ≤ 65535 * 16 * 255) :
    (∃ g, calculateGeometry totalSectors = some g ∧ Covers totalSectors g) ↔ RoundsUp totalSectors := by
  rw [calculateGeometry_eq, calculateUnnarrowed_cases hmax]
  simp only [Option.some.injEq, exists_eq_left']
  unfold RoundsUp smallGeometry
  split
  · exact covers_iff hpos (by omega) (by omega)
  next hsmall =>
    split
    · exact covers_iff hpos (by omega) (by omega)
    next h₁ =>
      split
      next h₂ => exact covers_iff hpos (by omega) (by omega)
      next h₂ =>
        split
        · exact covers_iff hpos (by omega) (by omega)
        · exact covers_iff hpos (by omega) (by omega)

theorem noValueLost_iff (totalSectors : ℕ) :
    NoValueLost totalSectors ↔ HeadsFit totalSectors := by
  have hresult : ∀ g, calculateUnnarrowed totalSectors = some g → g.heads < 2 ^ 8 ∧ g.cyls < 2 ^ 16 := by
    intro g hg
    have hbounded := bounded_calculateGeometry ((calculateGeometry_eq totalSectors).trans hg)
    exact ⟨Nat.lt_of_le_of_lt hbounded.heads (by decide), hbounded.cyls⟩
  unfold NoValueLost HeadsFit firstHeads
  constructor
  · intro ⟨h, _⟩
    omega
  · intro h
    exact ⟨by omega, hresult⟩

/-- The geometry covers a size, and each value fits its variable, if and only if the size does not
fall short of a whole track behind whole cylinders and the first value of `heads` fits. What `heads`
loses otherwise does not show in the geometry. -/
theorem calculateGeometry_covers_iff (totalSectors : ℕ) (hpos : 1 ≤ totalSectors) (hmax : totalSectors ≤ 65535 * 16 * 255) :
    (((∃ g, calculateGeometry totalSectors = some g ∧ Covers totalSectors g) ∧ NoValueLost totalSectors) ↔
        RoundsUp totalSectors ∧ HeadsFit totalSectors) ∧
      ((∃ g, calculateGeometry totalSectors = some g ∧ Covers totalSectors g) ↔ RoundsUp totalSectors) ∧
      calculateGeometry totalSectors = calculateUnnarrowed totalSectors :=
  ⟨and_congr (covered_iff hpos hmax) (noValueLost_iff totalSectors), covered_iff hpos hmax, calculateGeometry_eq totalSectors⟩

/-- A disk of two whole cylinders. -/
theorem calculateGeometry_covers_136 :
    RoundsUp 136 ∧ ((∃ g, calculateGeometry 136 = some g ∧ Covers 136 g) ↔ RoundsUp 136) :=
  ⟨by decide, (calculateGeometry_covers_iff 136 (by decide) (by decide)).2.1⟩

/-- One sector more than a whole cylinder is cut off. -/
theorem calculateGeometry_cuts_off : ¬ ∃ g, calculateGeometry 69 = some g ∧ Covers 69 g := by
  rintro ⟨g, hg, hcov⟩
  have hvalue : calculateGeometry 69 = some ⟨1, 4, 17⟩ := rfl
  rw [hvalue] at hg
  cases hg
  exact absurd hcov.covers (by decide)

end Ar7Qemu.Vpc
