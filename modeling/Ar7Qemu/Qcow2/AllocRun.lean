import Ar7Qemu.Qcow2.Lookup
import Ar7Qemu.Qcow2.Io
import Ar7Qemu.Qcow2.CreateOpen

/-! The run of clusters that `alloc_cluster_offset` picks in an L2 table, with the
entries it looks at on the way. Proved: exactly when the search stays inside the
table and picks a run of the right kind. -/

namespace Ar7Qemu.Qcow2

open Lib Block

/-- The indices that `countRun` looks at. -/
def countRunSeen (p : ℕ → Bool) (start : ℕ) : ℕ → List ℕ
  | 0 => []
  | n + 1 => start :: if p start then countRunSeen p (start + 1) n else []

/-- Entry `k` is `k` clusters after the first one, flags and wrap included. -/
def continuesRaw (clusterSize : ℕ) (l2Table : ℕ → ℕ) (k : ℕ) : Bool :=
  l2Table 0 ≠ 0 && (l2Table 0 + k * clusterSize) % 2 ^ 64 = l2Table k

/-- The indices that `count_contiguous_clusters` looks at, without a mask. -/
def contiguousSeen (nbClusters clusterSize : ℕ) (l2Table : ℕ → ℕ) (start : ℕ) : List ℕ :=
  0 :: if l2Table 0 = 0 then []
    else countRunSeen (fun k => (l2Table 0 + k * clusterSize) % 2 ^ 64 = l2Table k) start nbClusters

/-- The search loop of `alloc_cluster_offset` with the indices it looks at. -/
def searchRun (l2Table : ℕ → ℕ) (clusterSize nbClusters : ℕ) : ℕ → ℕ → Option (ℕ × List ℕ)
  | 0, _ => none
  | fuel + 1, i =>
    if nbClusters ≤ i then some (i, [])
    else
      let seen := contiguousSeen (nbClusters - i) clusterSize l2Table i
      let i := i + countContiguousClusters (nbClusters - i) clusterSize l2Table i id
      if l2Table i ≠ 0 then some (i, seen ++ [i])
      else
        let seen := seen ++ i :: countRunSeen (fun k => l2Table k = 0) i (nbClusters - i)
        let i := i + countContiguousFreeClusters (nbClusters - i) fun k => l2Table (i + k)
        if isCopied (l2Table i) || isCompressed (l2Table i) then some (i, seen ++ [i])
        else (searchRun l2Table clusterSize nbClusters fuel i).map fun r => (r.1, seen ++ i :: r.2)

/-- A run for a write: kept in place or newly allocated, its clusters, the indices
looked at, and the sectors of the write that it takes. -/
structure RunChoice where
  inPlace : Bool
  clusters : ℕ
  seen : List ℕ
  num : ℕ

namespace BDRVQcowState

variable (s : BDRVQcowState)

/-- The clusters up to `nEnd` that are in this L2 table, as an `int`. -/
def wantedClusters (l2Index nEnd : ℕ) : ℤ :=
  min (s.sizeToClustersInt (toInt32 (nEnd * 512))) (s.l2Size - l2Index)

/-- The part of `alloc_cluster_offset` that picks the run, with the L2 table from
`l2Index` on. -/
def chooseRun (l2Table : ℕ → ℕ) (l2Index nStart nEnd : ℕ) : Option RunChoice :=
  let nbClusters := s.wantedClusters l2Index nEnd
  let num := fun n => min (n * s.clusterSectors) nEnd - nStart
  if isCopied (l2Table 0) then
    let n := countContiguousClusters (toUInt64 nbClusters) s.clusterSize l2Table 0 id
    some ⟨true, n, 0 :: contiguousSeen (toUInt64 nbClusters) s.clusterSize l2Table 0, num n⟩
  else
    let nbClusters := if isCompressed (l2Table 0) then 1 else nbClusters
    (searchRun l2Table s.clusterSize nbClusters.toNat (nbClusters.toNat + 1) 0).map fun r =>
      ⟨false, r.1, 0 :: r.2, num r.1⟩

end BDRVQcowState

/-! ### The instrumented loop is the loop -/

theorem searchRun_allocRun {l2Table : ℕ → ℕ} {clusterSize nbClusters fuel i : ℕ} {r : ℕ × List ℕ}
    (h : searchRun l2Table clusterSize nbClusters fuel i = some r) :
    allocRun l2Table clusterSize nbClusters fuel i = r.1 := by
  induction fuel generalizing i r with
  | zero => cases h
  | succ fuel ih =>
    rw [searchRun] at h
    rw [allocRun]
    dsimp only at h ⊢
    split_ifs at h ⊢
    · cases h
      rfl
    · cases h
      rfl
    · cases h
      rfl
    · obtain ⟨r', hr', rfl⟩ := Option.map_eq_some_iff.mp h
      exact (ih hr').trans rfl

/-- `alloc_cluster_offset` takes the run that is chosen. -/
theorem allocClusterOffset_chosen {s s' : BDRVQcowState} {offset nStart nEnd slot l2Offset l2Index : ℕ} {r : RunChoice}
    (m : QCowL2Meta) (htable : getClusterTable offset s = (some (slot, l2Offset, l2Index), s'))
    (hrun : s'.chooseRun (fun k => s'.l2Cache slot (l2Index + k)) l2Index nStart nEnd = some r) :
    (allocClusterOffset offset nStart nEnd m s).1.2.1 = r.num ∧
      (allocClusterOffset offset nStart nEnd m s).1.2.2.nbClusters = if r.inPlace then 0 else r.clusters := by
  rw [allocClusterOffset, bind_apply, htable]
  dsimp only
  rw [bind_apply, get_apply]
  unfold BDRVQcowState.chooseRun BDRVQcowState.wantedClusters at hrun
  dsimp only at hrun ⊢
  by_cases hcopied : isCopied (s'.l2Cache slot (l2Index + 0))
  · rw [if_pos hcopied] at hrun ⊢
    cases hrun
    exact ⟨rfl, rfl⟩
  · rw [if_neg hcopied] at hrun ⊢
    obtain ⟨r', hr', rfl⟩ := Option.map_eq_some_iff.mp hrun
    rw [searchRun_allocRun hr', bind_apply]
    exact ⟨rfl, rfl⟩

/-! ### Counting -/

section Counting

variable {p : ℕ → Bool}

theorem mem_countRunSeen {start n k : ℕ} : k ∈ countRunSeen p start n ↔
    start ≤ k ∧ k ≤ start + countRun p start n ∧ k < start + n := by
  induction n generalizing start with
  | zero =>
    simp only [countRunSeen, List.not_mem_nil, false_iff]
    omega
  | succ n ih =>
    rw [countRunSeen, countRun, List.mem_cons]
    split_ifs with hp
    · rw [ih]
      omega
    · simp only [List.not_mem_nil, or_false]
      omega

theorem countRun_stop {m n : ℕ} (h : countRun p m n < n) :
    p (m + countRun p m n) = false := by
  induction n generalizing m with
  | zero => omega
  | succ n ih =>
    rw [countRun] at h ⊢
    split_ifs at h ⊢ with hp
    · rw [show m + (countRun p (m + 1) n + 1) = m + 1 + countRun p (m + 1) n by omega]
      exact ih (by omega)
    · rw [Nat.add_zero]
      exact Bool.eq_false_iff.mpr hp

theorem countRun_shift (i start n : ℕ) :
    countRun (fun k => p (i + k)) start n = countRun p (i + start) n := by
  induction n generalizing start with
  | zero => rfl
  | succ n ih => rw [countRun, countRun, ih, Nat.add_assoc]

theorem countRun_eq_of_stop {n m : ℕ} (hm : m ≤ n) (h : ∀ k < m, p k = true)
    (hstop : m < n → p m = false) : countRun p 0 n = m := by
  apply le_antisymm
  · by_contra hlt
    have hle := countRun_le p 0 n
    have hp := countRun_spec p (Nat.lt_of_not_le hlt)
    rw [Nat.zero_add, hstop (by omega)] at hp
    exact Bool.false_ne_true hp
  · apply le_countRun hm
    intro k hk
    rw [Nat.zero_add]
    exact h k hk

end Counting

section Contiguous

variable {l2Table : ℕ → ℕ} {clusterSize : ℕ}

theorem countContiguousClusters_id (n start : ℕ) :
    countContiguousClusters n clusterSize l2Table start id =
      countRun (continuesRaw clusterSize l2Table) start n := by
  rw [countContiguousClusters]
  split_ifs with h0
  · cases n with
    | zero => rfl
    | succ n =>
      rw [countRun, if_neg]
      simp [continuesRaw, show l2Table 0 = 0 from h0]
  · apply countRun_congr
    intro k _ _
    simp [continuesRaw, show l2Table 0 ≠ 0 from h0]

theorem mem_contiguousSeen {n start k : ℕ} (h : k ∈ contiguousSeen n clusterSize l2Table start) :
    k = 0 ∨ start ≤ k ∧ k ≤ start + countRun (continuesRaw clusterSize l2Table) start n ∧
      k < start + n := by
  rw [contiguousSeen, List.mem_cons] at h
  obtain rfl | h := h
  · exact .inl rfl
  · split_ifs at h with h0
    · cases h
    · refine .inr ?_
      rw [← countContiguousClusters_id, countContiguousClusters, id_eq, if_neg h0]
      exact mem_countRunSeen.mp h

theorem mem_contiguousSeen_of (h0 : l2Table 0 ≠ 0) {n start k : ℕ} (hstart : start ≤ k)
    (hk : k ≤ start + countRun (continuesRaw clusterSize l2Table) start n) (hn : k < start + n) :
    k ∈ contiguousSeen n clusterSize l2Table start := by
  rw [← countContiguousClusters_id, countContiguousClusters, id_eq, if_neg h0] at hk
  rw [contiguousSeen, if_neg h0]
  exact List.mem_cons_of_mem _ (mem_countRunSeen.mpr ⟨hstart, hk, hn⟩)

end Contiguous

/-! ### Where a new run ends -/

/-- A flag that keeps a cluster out of a new run. -/
def flagged (e : ℕ) : Bool := isCopied e || isCompressed e

/-- Entry `k` ends a new run: it is neither free nor a continuation of the first
one, or it has a flag and comes after a free one. -/
def stopsRun (clusterSize : ℕ) (l2Table : ℕ → ℕ) (k : ℕ) : Bool :=
  l2Table k ≠ 0 && (!continuesRaw clusterSize l2Table k ||
    (0 < k && l2Table (k - 1) = 0 && flagged (l2Table k)))

/-- The clusters of a new run, at most `n`. -/
def newRun (clusterSize : ℕ) (l2Table : ℕ → ℕ) (n : ℕ) : ℕ :=
  countRun (fun k => !stopsRun clusterSize l2Table k) 0 n

section Search

variable {l2Table : ℕ → ℕ} {clusterSize n : ℕ}

theorem stopsRun_of_zero {k : ℕ} (h : l2Table k = 0) : stopsRun clusterSize l2Table k = false := by
  simp [stopsRun, h]

theorem stopsRun_of_continues {k : ℕ} (h : continuesRaw clusterSize l2Table k)
    (hk : k = 0 ∨ l2Table (k - 1) ≠ 0 ∨ flagged (l2Table k) = false) :
    stopsRun clusterSize l2Table k = false := by
  rcases hk with rfl | hk | hk
  · simp [stopsRun, h]
  · simp [stopsRun, h, hk]
  · simp [stopsRun, h, hk]

theorem stopsRun_of_not_continues {k : ℕ} (h0 : l2Table k ≠ 0)
    (h : continuesRaw clusterSize l2Table k = false) : stopsRun clusterSize l2Table k = true := by
  simp [stopsRun, h, h0]

theorem stopsRun_of_flagged {k : ℕ} (h0 : l2Table k ≠ 0) (hk : 0 < k) (hprev : l2Table (k - 1) = 0)
    (h : flagged (l2Table k)) : stopsRun clusterSize l2Table k = true := by
  simp [stopsRun, h, h0, hk, hprev]

/-- The loop is at `i`: nothing before ends the run, and `i` is the first entry or
an unflagged one. -/
structure SearchAt (clusterSize : ℕ) (l2Table : ℕ → ℕ) (n i : ℕ) : Prop where
  le : i ≤ n
  before : ∀ k < i, stopsRun clusterSize l2Table k = false
  here : i = 0 ∨ i = n ∨ flagged (l2Table i) = false

theorem SearchAt.le_newRun {i : ℕ} (hi : i ≤ n)
    (h : ∀ k < i, stopsRun clusterSize l2Table k = false) : i ≤ newRun clusterSize l2Table n := by
  apply le_countRun hi
  intro k hk
  rw [Nat.zero_add, h k hk]
  rfl

theorem newRun_eq {i : ℕ} (hi : i ≤ n) (h : ∀ k < i, stopsRun clusterSize l2Table k = false)
    (hstop : i < n → stopsRun clusterSize l2Table i = true) :
    newRun clusterSize l2Table n = i := by
  apply countRun_eq_of_stop hi
  · intro k hk
    rw [h k hk]
    rfl
  · intro hlt
    rw [hstop hlt]
    rfl

variable (h63 : l2Table 0 < 2 ^ 63) (hn : n * clusterSize ≤ 2 ^ 63)

include h63 hn

theorem continuesRaw_ne_zero {k : ℕ} (hk : k < n) (h : continuesRaw clusterSize l2Table k) :
    l2Table k ≠ 0 := by
  have hmul : k * clusterSize ≤ n * clusterSize := Nat.mul_le_mul_right _ hk.le
  simp only [continuesRaw, ne_eq, decide_not, Bool.and_eq_true, Bool.not_eq_true',
    decide_eq_false_iff_not, decide_eq_true_eq] at h
  rw [← h.2, Nat.mod_eq_of_lt (by omega)]
  omega

/-- The contiguous part of one pass ends at `j`. -/
theorem SearchAt.contiguous {i j : ℕ} (h : SearchAt clusterSize l2Table n i) (hi : i < n)
    (hj : i + countContiguousClusters (n - i) clusterSize l2Table i id = j) :
    i ≤ j ∧ j ≤ n ∧ (∀ k < j, stopsRun clusterSize l2Table k = false) ∧
      (j < n → continuesRaw clusterSize l2Table j = false) ∧
      ∀ k ∈ contiguousSeen (n - i) clusterSize l2Table i, k ≤ j := by
  rw [countContiguousClusters_id] at hj
  have hle := countRun_le (continuesRaw clusterSize l2Table) i (n - i)
  refine ⟨by omega, by omega, fun k hk => ?_, fun hlt => ?_, fun k hk => ?_⟩
  · by_cases hlt : k < i
    · exact h.before k hlt
    have hrun : ∀ l, i ≤ l → l ≤ k → continuesRaw clusterSize l2Table l = true := by
      intro l hil hlk
      have := countRun_spec (continuesRaw clusterSize l2Table) (m := i) (n := n - i)
        (k := l - i) (by omega)
      rwa [show i + (l - i) = l by omega] at this
    apply stopsRun_of_continues (hrun k (by omega) le_rfl)
    by_cases hki : k = i
    · subst hki
      rcases h.here with h | h | h
      · exact .inl h
      · omega
      · exact .inr (.inr h)
    · exact .inr (.inl
        (continuesRaw_ne_zero h63 hn (by omega) (hrun (k - 1) (by omega) (by omega))))
  · rw [← hj]
    exact countRun_stop (by omega)
  · have := mem_contiguousSeen hk
    omega

omit h63 hn in
/-- The free part of one pass, from `i` on, ends at `j`. -/
theorem freePart {i j : ℕ} (hi : i ≤ n) (h0 : l2Table i = 0)
    (hbefore : ∀ k < i, stopsRun clusterSize l2Table k = false)
    (hj : i + countContiguousFreeClusters (n - i) (fun k => l2Table (i + k)) = j) :
    j ≤ n ∧ (i < n → i < j) ∧ (∀ k < j, stopsRun clusterSize l2Table k = false) ∧
      (j < n → l2Table j ≠ 0 ∧ l2Table (j - 1) = 0) ∧
      ∀ k ∈ countRunSeen (fun k => l2Table k = 0) i (n - i), k ≤ j := by
  rw [countContiguousFreeClusters, countRun_shift (p := fun k => decide (l2Table k = 0)),
    Nat.add_zero] at hj
  have hle := countRun_le (fun k => decide (l2Table k = 0)) i (n - i)
  have hfree : ∀ k, i ≤ k → k < j → l2Table k = 0 := by
    intro k hik hkj
    have := countRun_spec (fun k => decide (l2Table k = 0)) (m := i) (n := n - i)
      (k := k - i) (by omega)
    rw [show i + (k - i) = k by omega] at this
    exact of_decide_eq_true this
  have hpos : i < n → i < j := by
    intro hlt
    have := countRun_pos (p := fun k => decide (l2Table k = 0)) (m := i) (n := n - i)
      (decide_eq_true h0) (by omega)
    omega
  refine ⟨by omega, hpos, fun k hk => ?_, fun hlt => ⟨?_, ?_⟩, fun k hk => ?_⟩
  · by_cases hlt : k < i
    · exact hbefore k hlt
    · exact stopsRun_of_zero (hfree k (by omega) hk)
  · have := countRun_stop (p := fun k => decide (l2Table k = 0)) (m := i) (n := n - i) (by omega)
    rw [hj] at this
    exact of_decide_eq_false this
  · exact hfree (j - 1) (by omega) (by omega)
  · have := mem_countRunSeen.mp hk
    omega

/-- The search picks the run up to the first entry that ends it, and looks at that
entry and none behind it. -/
theorem searchRun_eq {fuel i : ℕ} (h : SearchAt clusterSize l2Table n i) (hfuel : n - i < fuel) :
    ∃ seen, searchRun l2Table clusterSize n fuel i =
        some (newRun clusterSize l2Table n, seen) ∧
      (∀ k ∈ seen, k ≤ newRun clusterSize l2Table n) ∧
      (i < n → newRun clusterSize l2Table n ∈ seen) := by
  induction fuel generalizing i with
  | zero => omega
  | succ fuel ih =>
    rw [searchRun]
    dsimp only
    generalize hi₁ : i + countContiguousClusters (n - i) clusterSize l2Table i id = i₁
    generalize hi₂ : i₁ + countContiguousFreeClusters (n - i₁) (fun k => l2Table (i₁ + k)) = i₂
    by_cases hin : n ≤ i
    · have heq : newRun clusterSize l2Table n = i := newRun_eq h.le h.before (by omega)
      exact ⟨[], by rw [if_pos hin, heq], by simp, by omega⟩
    rw [if_neg hin]
    obtain ⟨hle₁, hn₁, hbefore₁, hstop₁, hseen₁⟩ := h.contiguous h63 hn (by omega) hi₁
    by_cases h0 : l2Table i₁ = 0
    · rw [if_neg (not_not.mpr h0)]
      obtain ⟨hn₂, hpos₂, hbefore₂, hstop₂, hseen₂⟩ := freePart hn₁ h0 hbefore₁ hi₂
      have hle₂ : i₁ ≤ i₂ := by omega
      have hle := SearchAt.le_newRun hn₂ hbefore₂
      have hseen : ∀ k ∈ contiguousSeen (n - i) clusterSize l2Table i ++
          i₁ :: countRunSeen (fun k => decide (l2Table k = 0)) i₁ (n - i₁), k ≤ i₂ := by
        intro k hk
        rcases List.mem_append.mp hk with hk | hk
        · exact (hseen₁ k hk).trans hle₂
        · rcases List.mem_cons.mp hk with rfl | hk
          · exact hle₂
          · exact hseen₂ k hk
      by_cases hflag : isCopied (l2Table i₂) || isCompressed (l2Table i₂)
      · rw [if_pos hflag]
        have heq : newRun clusterSize l2Table n = i₂ := by
          apply newRun_eq hn₂ hbefore₂
          intro hlt
          exact stopsRun_of_flagged (hstop₂ hlt).1 (by omega) (hstop₂ hlt).2 hflag
        refine ⟨_, by rw [heq], fun k hk => ?_, fun _ => ?_⟩
        · rcases List.mem_append.mp hk with hk | hk
          · exact (hseen k hk).trans heq.ge
          · rw [List.mem_singleton.mp hk, heq]
        · rw [heq]
          simp
      · rw [if_neg hflag]
        have hnext : SearchAt clusterSize l2Table n i₂ :=
          ⟨hn₂, hbefore₂, .inr (.inr (Bool.eq_false_iff.mpr hflag))⟩
        obtain ⟨seen, heq, hrest, hend⟩ := ih hnext (by omega)
        rw [heq]
        refine ⟨_, rfl, fun k hk => ?_, fun _ => ?_⟩
        · rcases List.mem_append.mp hk with hk | hk
          · exact (hseen k hk).trans hle
          · rcases List.mem_cons.mp hk with rfl | hk
            · exact hle
            · exact hrest k hk
        · by_cases hlt : i₂ < n
          · exact List.mem_append_right _ (List.mem_cons_of_mem _ (hend hlt))
          · have : newRun clusterSize l2Table n = i₂ := newRun_eq hn₂ hbefore₂ (by omega)
            rw [this]
            simp
    · rw [if_pos h0]
      have heq : newRun clusterSize l2Table n = i₁ := by
        apply newRun_eq hn₁ hbefore₁
        intro hlt
        exact stopsRun_of_not_continues h0 (hstop₁ hlt)
      refine ⟨_, by rw [heq], fun k hk => ?_, fun _ => ?_⟩
      · rcases List.mem_append.mp hk with hk | hk
        · exact (hseen₁ k hk).trans heq.ge
        · rw [List.mem_singleton.mp hk, heq]
      · rw [heq]
        simp

end Search

/-! ### The choice -/

/-- A run is chosen without looking outside the table, it has clusters, all of them
in the table, and they are of the right kind. -/
structure RunChoice.Ok (r : RunChoice) (clusterSize room : ℕ) (l2Table : ℕ → ℕ) : Prop where
  inside : ∀ k ∈ r.seen, k < room
  pos : 1 ≤ r.clusters
  fits : r.clusters ≤ room
  kept : r.inPlace → ∀ k < r.clusters,
    isCopied (l2Table k) ∧ l2Table k = l2Table 0 + k * clusterSize
  new : r.inPlace = false →
    (∀ k < r.clusters, l2Table k = 0 ∨ isCopied (l2Table k) = false ∧ isCompressed (l2Table k) = false) ∨
      r.clusters = 1 ∧ isCopied (l2Table 0) = false ∧ isCompressed (l2Table 0)
  num : 1 ≤ r.num

/-- What keeps a run in place right: some cluster is wanted, a count that wrapped
below zero finds an end in the table, and no entry continues past the flags. -/
structure InPlaceFits (clusterSize room : ℕ) (l2Table : ℕ → ℕ) (wanted : ℤ) : Prop where
  some : wanted ≠ 0
  ends : wanted < 0 → ∃ k < room, continuesRaw clusterSize l2Table k = false
  copied : ∀ k < room, (0 < wanted → (k : ℤ) < wanted) →
    (∀ j ≤ k, continuesRaw clusterSize l2Table j) → isCopied (l2Table k)

/-- What makes a new run right: some cluster is wanted, the run ends before the
table does, and no entry continues into the compressed flag. -/
structure NewRunFits (clusterSize room : ℕ) (l2Table : ℕ → ℕ) (wanted : ℤ) : Prop where
  some : 0 < wanted
  ends : wanted < room ∨ ∃ k : ℕ, k < wanted ∧ stopsRun clusterSize l2Table k
  plain : ∀ k : ℕ, 0 < k → k < wanted → (∀ j ≤ k, stopsRun clusterSize l2Table j = false) →
    isCompressed (l2Table k) = false

namespace BDRVQcowState

/-- The run chosen for a write is right. -/
def ChoosesRun (s : BDRVQcowState) (l2Table : ℕ → ℕ) (l2Index nStart nEnd : ℕ) : Prop :=
  ∃ r, s.chooseRun l2Table l2Index nStart nEnd = some r ∧
    r.Ok s.clusterSize (s.l2Size - l2Index) l2Table

end BDRVQcowState

section Choice

variable {s : BDRVQcowState} (hg : s.Geometry) {l2Table : ℕ → ℕ} (h64 : ∀ k, l2Table k < 2 ^ 64)
  {l2Index nStart nEnd : ℕ} (hindex : l2Index < s.l2Size) (hstart : nStart < s.clusterSectors)
  (hend : nStart < nEnd)

theorem wantedClusters_le (l2Index nEnd : ℕ) (hindex : l2Index < s.l2Size) :
    s.wantedClusters l2Index nEnd ≤ (s.l2Size - l2Index : ℕ) := by
  rw [BDRVQcowState.wantedClusters, Nat.cast_sub hindex.le]
  exact min_le_right _ _

theorem le_wantedClusters (l2Index nEnd : ℕ) (hindex : l2Index < s.l2Size) :
    -2 ^ 31 ≤ s.wantedClusters l2Index nEnd := by
  have hint : -2 ^ 31 ≤ toInt32 (nEnd * 512) := by
    rw [toInt32]
    split_ifs <;> omega
  have hpos : (0 : ℤ) < s.clusterSize := by exact_mod_cast s.clusterSize_pos
  have hdiv : -2 ^ 31 ≤ s.sizeToClustersInt (toInt32 (nEnd * 512)) := by
    rw [BDRVQcowState.sizeToClustersInt]
    apply Int.le_ediv_of_mul_le hpos
    nlinarith
  rw [BDRVQcowState.wantedClusters]
  omega

include h64

theorem continuesRaw_zero (h0 : l2Table 0 ≠ 0) : continuesRaw s.clusterSize l2Table 0 := by
  have hlt := h64 0
  simp only [continuesRaw, Nat.zero_mul, Nat.add_zero, Nat.mod_eq_of_lt hlt]
  simp [h0]

theorem stopsRun_zero : stopsRun s.clusterSize l2Table 0 = false := by
  by_cases h0 : l2Table 0 = 0
  · exact stopsRun_of_zero h0
  · exact stopsRun_of_continues (continuesRaw_zero h64 h0) (.inl rfl)

theorem continuesRaw_copied (hg : s.Geometry) {k : ℕ} (hk : k < s.l2Size)
    (hc : continuesRaw s.clusterSize l2Table k) (hcopied : isCopied (l2Table k)) :
    l2Table k = l2Table 0 + k * s.clusterSize := by
  have hmul := hg.clusters_le hk.le
  have h0 := h64 0
  simp only [isCopied, decide_eq_true_eq] at hcopied
  simp only [continuesRaw, ne_eq, decide_not, Bool.and_eq_true, Bool.not_eq_true',
    decide_eq_false_iff_not, decide_eq_true_eq] at hc
  omega

theorem newRun_entry (hg : s.Geometry) {k : ℕ} (hk : k < s.l2Size)
    (hcopied : isCopied (l2Table 0) = false) (hcomp : isCompressed (l2Table 0) = false)
    (hstop : stopsRun s.clusterSize l2Table k = false)
    (hplain : 0 < k → isCompressed (l2Table k) = false) :
    l2Table k = 0 ∨ isCopied (l2Table k) = false ∧ isCompressed (l2Table k) = false := by
  by_cases hk0 : k = 0
  · rw [hk0]
    exact .inr ⟨hcopied, hcomp⟩
  by_cases h0 : l2Table k = 0
  · exact .inl h0
  refine .inr ⟨?_, hplain (by omega)⟩
  have hcont : continuesRaw s.clusterSize l2Table k = true := by
    by_contra hne
    rw [stopsRun_of_not_continues h0 (Bool.eq_false_iff.mpr hne)] at hstop
    exact Bool.false_ne_true hstop.symm
  have hmul := hg.clusters_le hk.le
  have hlt := h64 0
  simp only [isCopied, isCompressed, decide_eq_false_iff_not] at hcopied hcomp ⊢
  simp only [continuesRaw, ne_eq, decide_not, Bool.and_eq_true, Bool.not_eq_true',
    decide_eq_false_iff_not, decide_eq_true_eq] at hcont
  omega

include hg hindex hstart hend

section InPlace

variable (hcopied : isCopied (l2Table 0))

include hcopied

omit hg h64 hindex hstart hend in
theorem copied_ne_zero : l2Table 0 ≠ 0 := by
  intro h0
  rw [h0] at hcopied
  exact absurd hcopied (by decide)

omit h64 hstart hend hcopied in
theorem toUInt64_wantedClusters :
    toUInt64 (s.wantedClusters l2Index nEnd) =
      if s.wantedClusters l2Index nEnd < 0 then
        2 ^ 64 - (-s.wantedClusters l2Index nEnd).toNat
      else (s.wantedClusters l2Index nEnd).toNat := by
  have hle := wantedClusters_le l2Index nEnd hindex
  have hge := le_wantedClusters l2Index nEnd hindex
  have hl2 := hg.l2Size_le
  rw [toUInt64]
  split_ifs <;> omega

/-- The choice that keeps the clusters of the run. -/
theorem choosesRun_inPlace : s.ChoosesRun l2Table l2Index nStart nEnd ↔
    InPlaceFits s.clusterSize (s.l2Size - l2Index) l2Table (s.wantedClusters l2Index nEnd) := by
  have hle := wantedClusters_le l2Index nEnd hindex
  have hge := le_wantedClusters l2Index nEnd hindex
  have hl2 := hg.l2Size_le
  have hn : toUInt64 (s.wantedClusters l2Index nEnd) = _ := toUInt64_wantedClusters hg hindex
  have h0 := copied_ne_zero hcopied
  have hcont := continuesRaw_zero (s := s) h64 h0
  rw [BDRVQcowState.ChoosesRun, BDRVQcowState.chooseRun]
  dsimp only
  rw [if_pos hcopied, countContiguousClusters_id]
  generalize toUInt64 (s.wantedClusters l2Index nEnd) = n at hn ⊢
  generalize s.wantedClusters l2Index nEnd = wanted at hn hle hge ⊢
  have hcount := countRun_le (continuesRaw s.clusterSize l2Table) 0 n
  have hspec : ∀ k < countRun (continuesRaw s.clusterSize l2Table) 0 n, ∀ j ≤ k,
      continuesRaw s.clusterSize l2Table j := by
    intro k hk j hj
    have := countRun_spec (continuesRaw s.clusterSize l2Table) (lt_of_le_of_lt hj hk)
    rwa [Nat.zero_add] at this
  have hlower : ∀ k < n, (∀ j ≤ k, continuesRaw s.clusterSize l2Table j) →
      k < countRun (continuesRaw s.clusterSize l2Table) 0 n := by
    intro k hk h
    apply le_countRun hk
    intro j hj
    rw [Nat.zero_add]
    exact h j (by omega)
  constructor
  · rintro ⟨r, hr, hok⟩
    obtain rfl := Option.some.inj hr
    have hsome : wanted ≠ 0 := by
      rintro rfl
      have hpos := hok.pos
      dsimp only at hpos
      simp at hn
      omega
    refine ⟨hsome, fun hneg => ?_, fun k hk hwanted h => ?_⟩
    · by_contra hall
      rw [if_pos hneg] at hn
      have hcounted := hlower (s.l2Size - l2Index - 1) (by omega) (by
        intro j hj
        by_contra hj'
        exact hall ⟨j, by omega, Bool.eq_false_iff.mpr hj'⟩)
      have hin := hok.inside (s.l2Size - l2Index) (List.mem_cons_of_mem _
        (mem_contiguousSeen_of h0 (by omega) (by omega) (by omega)))
      omega
    · have hkn : k < n := by
        split_ifs at hn <;> omega
      exact (hok.kept rfl k (hlower k hkn h)).1
  · rintro ⟨hsome, hends, hkept⟩
    have hpos := hlower 0 (by split_ifs at hn <;> omega) (fun j hj => by rwa [Nat.le_zero.mp hj])
    have hwithin : 0 ≤ wanted ∧ n ≤ s.l2Size - l2Index ∧ (n : ℤ) = wanted ∨
        wanted < 0 ∧ countRun (continuesRaw s.clusterSize l2Table) 0 n < s.l2Size - l2Index := by
      by_cases hneg : wanted < 0
      · obtain ⟨k, hk, hfalse⟩ := hends hneg
        refine .inr ⟨hneg, lt_of_not_ge fun hle => ?_⟩
        have := hspec k (by omega) k le_rfl
        rw [hfalse] at this
        exact Bool.false_ne_true this
      · rw [if_neg hneg] at hn
        clear hends
        exact .inl (by omega)
    clear hends
    refine ⟨_, rfl, fun k hk => ?_, hpos, ?_, fun _ k hk => ?_, fun h => ?_, ?_⟩
    · rcases List.mem_cons.mp hk with rfl | hk
      · omega
      · have := mem_contiguousSeen hk
        omega
    · dsimp only
      omega
    · dsimp only at hk
      have hk' : isCopied (l2Table k) := hkept k (by omega) (by omega) (hspec k hk)
      exact ⟨hk', continuesRaw_copied h64 hg (by omega) (hspec k hk k le_rfl) hk'⟩
    · cases h
    · have := Nat.le_mul_of_pos_left s.clusterSectors hpos
      dsimp only
      omega

end InPlace

section New

variable (hcopied : isCopied (l2Table 0) = false)

include hcopied

omit hg hindex hstart hend in
theorem not_copied_lt : l2Table 0 < 2 ^ 63 := by
  have := h64 0
  simp only [isCopied, decide_eq_false_iff_not] at hcopied
  omega

theorem choosesRun_new : s.ChoosesRun l2Table l2Index nStart nEnd ↔
    NewRunFits s.clusterSize (s.l2Size - l2Index) l2Table
      (if isCompressed (l2Table 0) then 1 else s.wantedClusters l2Index nEnd) := by
  have h63 := not_copied_lt h64 hcopied
  have hle : (if isCompressed (l2Table 0) then 1 else s.wantedClusters l2Index nEnd) ≤
      (s.l2Size - l2Index : ℕ) := by
    have := wantedClusters_le l2Index nEnd hindex
    split_ifs <;> omega
  have hone : isCompressed (l2Table 0) →
      (if isCompressed (l2Table 0) then 1 else s.wantedClusters l2Index nEnd) = 1 := fun h => if_pos h
  rw [BDRVQcowState.ChoosesRun, BDRVQcowState.chooseRun]
  dsimp only
  rw [if_neg (by rw [hcopied]; exact Bool.false_ne_true)]
  generalize (if isCompressed (l2Table 0) then 1 else s.wantedClusters l2Index nEnd) = wanted
    at hle hone ⊢
  have hmul := hg.clusters_le (n := wanted.toNat) (by omega)
  have hstart : SearchAt s.clusterSize l2Table wanted.toNat 0 := ⟨Nat.zero_le _, by omega, .inl rfl⟩
  have hfuel : wanted.toNat - 0 < wanted.toNat + 1 := by omega
  obtain ⟨seen, heq, hseen, hlast⟩ := searchRun_eq h63 (by omega) hstart hfuel
  rw [heq]
  have hrun : newRun s.clusterSize l2Table wanted.toNat ≤ wanted.toNat := countRun_le _ _ _
  have hlower : ∀ k < wanted.toNat, (∀ j ≤ k, stopsRun s.clusterSize l2Table j = false) →
      k < newRun s.clusterSize l2Table wanted.toNat := by
    intro k hk h
    exact SearchAt.le_newRun hk (fun j hj => h j (by omega))
  have hspec : ∀ k < newRun s.clusterSize l2Table wanted.toNat,
      stopsRun s.clusterSize l2Table k = false := by
    intro k hk
    have := countRun_spec _ hk
    simpa using this
  constructor
  · rintro ⟨r, hr, hok⟩
    obtain rfl := Option.some.inj hr
    have hpos := hok.pos
    dsimp only at hpos
    refine ⟨by omega, ?_, fun k hk hkw h => ?_⟩
    · by_cases hroom : wanted < (s.l2Size - l2Index : ℕ)
      · exact .inl hroom
      have hin := hok.inside _ (List.mem_cons_of_mem _ (hlast (by omega)))
      have hstop := countRun_stop
        (show newRun s.clusterSize l2Table wanted.toNat < wanted.toNat by omega)
      rw [Nat.zero_add, Bool.not_eq_false'] at hstop
      exact .inr ⟨newRun s.clusterSize l2Table wanted.toNat, by omega, hstop⟩
    · rcases hok.new rfl with hnew | ⟨-, -, hcomp⟩
      · rcases hnew k (hlower k (by omega) h) with h0 | ⟨-, h0⟩
        · rw [h0]
          decide
        · exact h0
      · have := hone hcomp
        omega
  · rintro ⟨hsome, hends, hplain⟩
    have hpos : 1 ≤ newRun s.clusterSize l2Table wanted.toNat :=
      hlower 0 (by omega) (fun j hj => by rw [Nat.le_zero.mp hj]; exact stopsRun_zero h64)
    have hinside : newRun s.clusterSize l2Table wanted.toNat < s.l2Size - l2Index := by
      rcases hends with hlt | ⟨k, hk, hstop⟩
      · omega
      · have : ¬ k < newRun s.clusterSize l2Table wanted.toNat := fun hlt => by
          rw [hspec k hlt] at hstop
          exact Bool.false_ne_true hstop
        omega
    clear hends
    refine ⟨_, rfl, fun k hk => ?_, hpos, hinside.le, fun h => ?_, fun _ => ?_, ?_⟩
    · rcases List.mem_cons.mp hk with rfl | hk
      · omega
      · exact lt_of_le_of_lt (hseen k hk) hinside
    · cases h
    · rcases hcomp : isCompressed (l2Table 0)
      · left
        intro k hk
        dsimp only at hk
        exact newRun_entry h64 hg (by omega) hcopied hcomp (hspec k hk)
          (fun hk0 => hplain k hk0 (by omega) (fun j hj => hspec j (by omega)))
      · right
        have := hone hcomp
        dsimp only
        exact ⟨by omega, hcopied, rfl⟩
    · have := Nat.le_mul_of_pos_left s.clusterSectors hpos
      dsimp only
      omega

end New

/-- The run that `alloc_cluster_offset` picks is right exactly when its entries and
its length are as they have to be for its kind. -/
theorem alloc_run_iff : s.ChoosesRun l2Table l2Index nStart nEnd ↔
    if isCopied (l2Table 0) then
      InPlaceFits s.clusterSize (s.l2Size - l2Index) l2Table (s.wantedClusters l2Index nEnd)
    else
      NewRunFits s.clusterSize (s.l2Size - l2Index) l2Table
        (if isCompressed (l2Table 0) then 1 else s.wantedClusters l2Index nEnd) := by
  rcases hcopied : isCopied (l2Table 0)
  · exact choosesRun_new hg h64 hindex hstart hend hcopied
  · exact choosesRun_inPlace hg h64 hindex hstart hend hcopied

end Choice

/-- An image with clusters of 4096 bytes, so with 512 entries in an L2 table. -/
def smallClusters : BDRVQcowState :=
  { blankState { data := fun _ => 0, len := 0, io := fun _ => none, tick := 0 } plainCodec with
    clusterBits := 12 }

theorem alloc_run_before_last :
    smallClusters.ChoosesRun (fun _ => 0) 510 0 8 := by
  refine (alloc_run_iff (s := smallClusters) ⟨by decide, by decide⟩ (fun _ => by decide) (by decide)
    (by decide) (by decide)).mpr ?_
  refine (if_neg (by decide)).mpr ⟨by decide, .inl (by decide), fun k hk hlt => ?_⟩
  have hone : (if isCompressed 0 then 1 else smallClusters.wantedClusters 510 8) = 1 := by decide
  rw [hone] at hlt
  omega

/-- A run of one free cluster at the end of a table looks at the entry behind it. -/
theorem alloc_run_last_entry : ¬ smallClusters.ChoosesRun (fun _ => 0) 511 0 8 := by
  rintro ⟨r, hr, hok⟩
  have hseen : (smallClusters.chooseRun (fun _ => 0) 511 0 8).map (·.seen) =
      some [0, 0, 0, 0, 1] := by
    decide
  rw [hr] at hseen
  have hlist : r.seen = [0, 0, 0, 0, 1] := Option.some.inj hseen
  have hone := hok.inside 1 (by rw [hlist]; decide)
  exact absurd hone (by decide)

end Ar7Qemu.Qcow2
