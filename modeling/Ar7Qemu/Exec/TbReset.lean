import Ar7Qemu.Exec.TbListsSound
import Mathlib.Logic.Relation

/-! Unlinking all jumps that lead away from a block. `tb_reset_jump_recursive` follows the patched
jumps of a block and takes each out of the list of its target before it goes on with the target. So
it ends on every graph of jumps, and none is left on any block that could be reached. -/

namespace Ar7Qemu.Exec.TbLists

open Lib

variable {t : Target}

namespace State

/-- `tb_reset_jump_recursive2`, with what is done to the block that the jump leads to. -/
def tbResetJumpRecursive2 (reset : ℕ → State t → Option (State t)) (n k : ℕ) (σ : State t) : Option (State t) :=
  match σ.jmp (n, k) with
  | none => some σ
  | some p => do
    -- find head of list
    let (_, tbNext) ← findNode σ.jmp (·.2 == 2) σ.fuel none (some p)
    -- remove tb from the jmp_first list
    let jmp ← unlinkFrom σ.jmp σ.fuel tbNext (n, k)
    -- suppress the jump in generated code, and jumps in the tb on which we could have jumped
    reset tbNext.1 { σ with jmp := jmp, jmpTarget := Function.update σ.jmpTarget (n, k) none }

def tbResetJumpRecursive : ℕ → ℕ → State t → Option (State t)
  | 0, _, _ => none
  | fuel + 1, n, σ => do
    let σ ← tbResetJumpRecursive2 (tbResetJumpRecursive fuel) n 0 σ
    tbResetJumpRecursive2 (tbResetJumpRecursive fuel) n 1 σ

end State

/-- The lists of jumps are well formed: every patched jump of a live block is once in the list of its
target, and nothing else is in a list. -/
structure JumpLists (σ : State t) (jumps : ℕ → List (ℕ × ℕ)) : Prop where
  bound : ∀ n, σ.live n = true → n < σ.nbTbs
  rings : Rings σ.jmp (fun n => (n, 2)) (fun n => σ.live n = true) σ.jumpKey jumps
  free : ∀ a k, σ.live a = true → k < 2 → (σ.jmp (a, k) = none ↔ σ.jmpTarget (a, k) = none)

/-- Block `n` has a jump that has been patched to go to block `m`. -/
def Chained (σ : State t) (n m : ℕ) : Prop := ∃ k < 2, σ.jmpTarget (n, k) = some m

/-- No jump of a block is patched. -/
def Unchained (σ : State t) (n : ℕ) : Prop := ∀ k < 2, σ.jmp (n, k) = none ∧ σ.jmpTarget (n, k) = none

variable {σ σ' σ'' : State t} {jumps : ℕ → List (ℕ × ℕ)} {n k m : ℕ}

theorem Integrity.jumpLists {l : Lists t} (h : Integrity σ l) : JumpLists σ l.jumps := ⟨h.bound, h.jumps, h.free⟩

/-! ### Removing one jump -/

theorem JumpLists.length_le (h : JumpLists σ jumps) (n : ℕ) : (jumps n).length + 1 ≤ σ.fuel := by
  refine length_le_fuel (h.rings.nodup n) fun a ha => ?_
  obtain ⟨hlive, hk, -⟩ := jumpKey_some ((h.rings.mem n a).1 ha)
  exact ⟨h.bound a.1 hlive, hk⟩

/-- A patched jump is followed to its target and taken out of the list there. -/
theorem JumpLists.cut (h : JumpLists σ jumps) (hn : σ.live n = true) (hk : k < 2) (htarget : σ.jmpTarget (n, k) = some m)
    (reset : ℕ → State t → Option (State t)) :
    ∃ jmp, σ.tbResetJumpRecursive2 reset n k =
        reset m { σ with jmp := jmp, jmpTarget := Function.update σ.jmpTarget (n, k) none } ∧
      JumpLists { σ with jmp := jmp, jmpTarget := Function.update σ.jmpTarget (n, k) none }
        (fun i => (jumps i).filter (· ≠ (n, k))) ∧
      σ.live m = true ∧ jmp (n, k) = none ∧ ∀ a, σ.jmp a = none → jmp a = none := by
  have hkey : σ.jumpKey (n, k) = some m := by
    rw [State.jumpKey, if_pos ⟨hn, hk⟩]
    exact htarget
  have hproper : ∀ j, (n, k) ≠ (j, 2) := fun j heq => Nat.ne_of_lt hk (Prod.mk.inj heq).2
  have hnone : σ.jmp (n, k) = none ↔ σ.jumpKey (n, k) = none := by
    rw [h.free n k hn hk, htarget, hkey]
  obtain ⟨jmp, hunlink, hrings, hself, hother⟩ := h.rings.unlink injective_jmpFirst hnone hproper h.length_le
  have hnode : ∀ b, σ.jumpKey b ≠ none → (b.2 == 2) = false := by
    intro b hb
    obtain ⟨j, hj⟩ := Option.ne_none_iff_exists'.1 hb
    rw [beq_eq_false_iff_ne]
    exact Nat.ne_of_lt (jumpKey_some hj).2.1
  obtain ⟨prev, hfind⟩ := h.rings.find_sentinel hkey rfl hnode (h.length_le m)
  have hfrom := (h.rings.unlinkFrom_eq hkey (h.length_le m)).trans hunlink
  obtain ⟨p, hp⟩ := Option.ne_none_iff_exists'.1 (h.rings.next_ne_none hkey)
  have hkeys : State.jumpKey { σ with jmp := jmp, jmpTarget := Function.update σ.jmpTarget (n, k) none } =
      Function.update σ.jumpKey (n, k) none := by
    funext a
    by_cases ha : a = (n, k)
    · subst ha
      simp [State.jumpKey]
    · simp [State.jumpKey, ha]
  refine ⟨jmp, ?_, ⟨h.bound, ?_, fun a j ha hj => ?_⟩, h.rings.owned _ _ hkey, hself, fun a ha => ?_⟩
  · unfold State.tbResetJumpRecursive2
    rw [hp] at hfind ⊢
    dsimp only
    rw [hfind]
    dsimp only [Option.bind_some, bind, Option.bind]
    rw [hfrom]
  · rw [hkeys]
    exact hrings
  · show jmp (a, j) = none ↔ Function.update σ.jmpTarget (n, k) none (a, j) = none
    by_cases heq : (a, j) = (n, k)
    · rw [heq, Function.update_self]
      exact iff_of_true hself rfl
    · rw [hother _ heq, Function.update_of_ne heq]
      exact h.free a j ha hj
  · by_cases heq : a = (n, k)
    · rw [heq]
      exact hself
    · exact (hother a heq).2 ha

/-! ### What a reset leaves -/

/-- Jumps are only taken away, and where a jump was taken away no jump of its target is left. -/
structure Cut (σ σ' : State t) : Prop where
  live : σ'.live = σ.live
  bound : σ'.nbTbs = σ.nbTbs
  free : ∀ a, σ.jmp a = none → σ'.jmp a = none
  kept : ∀ a m, σ'.jmpTarget a = some m → σ.jmpTarget a = some m
  followed : ∀ a m, σ.jmpTarget a = some m → σ'.jmpTarget a = none → Unchained σ' m

theorem Cut.refl (σ : State t) : Cut σ σ :=
  ⟨rfl, rfl, fun _ h => h, fun _ _ h => h, fun _ _ h h' => absurd (h.symm.trans h') nofun⟩

theorem Cut.target_none (h : Cut σ σ') {a : ℕ × ℕ} (ha : σ.jmpTarget a = none) : σ'.jmpTarget a = none := by
  cases htarget : σ'.jmpTarget a with
  | none => rfl
  | some m => exact absurd (ha.symm.trans (h.kept a m htarget)) nofun

theorem Cut.unchained (h : Cut σ σ') (hn : Unchained σ n) : Unchained σ' n :=
  fun k hk => ⟨h.free _ (hn k hk).1, h.target_none (hn k hk).2⟩

theorem Cut.trans (h : Cut σ σ') (h' : Cut σ' σ'') : Cut σ σ'' where
  live := h'.live.trans h.live
  bound := h'.bound.trans h.bound
  free := fun a ha => h'.free a (h.free a ha)
  kept := fun a m ha => h.kept a m (h'.kept a m ha)
  followed := by
    intro a m ha ha'
    cases htarget : σ'.jmpTarget a with
    | none => exact h'.unchained (h.followed a m ha htarget)
    | some j =>
      have heq : some m = some j := ha.symm.trans (h.kept a j htarget)
      cases heq
      exact h'.followed a m htarget ha'

/-- One jump is taken away, and then all those of its target. -/
theorem Cut.of_first {jmp : ℕ × ℕ → Option (ℕ × ℕ)} (htarget : σ.jmpTarget (n, k) = some m)
    (hjmp : ∀ a, σ.jmp a = none → jmp a = none)
    (h : Cut { σ with jmp := jmp, jmpTarget := Function.update σ.jmpTarget (n, k) none } σ') (hm : Unchained σ' m) :
    Cut σ σ' where
  live := h.live
  bound := h.bound
  free := fun a ha => h.free a (hjmp a ha)
  kept := by
    intro a j ha
    have hold : Function.update σ.jmpTarget (n, k) none a = some j := h.kept a j ha
    by_cases heq : a = (n, k)
    · rw [heq, Function.update_self] at hold
      exact absurd hold nofun
    · rw [Function.update_of_ne heq] at hold
      exact hold
  followed := by
    intro a j ha ha'
    by_cases heq : a = (n, k)
    · rw [heq, htarget] at ha
      cases ha
      exact hm
    · refine h.followed a j ?_ ha'
      show Function.update σ.jmpTarget (n, k) none a = some j
      rw [Function.update_of_ne heq]
      exact ha

def patched (σ : State t) : ℕ := ((Finset.range σ.nbTbs ×ˢ Finset.range 2).filter fun a => (σ.jmpTarget a).isSome).card

theorem Cut.patched_le (h : Cut σ σ') : patched σ' ≤ patched σ := by
  unfold patched
  rw [h.bound]
  refine Finset.card_le_card fun a ha => ?_
  rw [Finset.mem_filter] at ha ⊢
  obtain ⟨m, hm⟩ := Option.isSome_iff_exists.1 ha.2
  exact ⟨ha.1, Option.isSome_iff_exists.2 ⟨m, h.kept a m hm⟩⟩

theorem patched_lt (hn : n < σ.nbTbs) (hk : k < 2) (htarget : σ.jmpTarget (n, k) = some m) (jmp : ℕ × ℕ → Option (ℕ × ℕ)) :
    patched { σ with jmp := jmp, jmpTarget := Function.update σ.jmpTarget (n, k) none } < patched σ := by
  refine Finset.card_lt_card ((Finset.ssubset_iff_of_subset fun a ha => ?_).2 ⟨(n, k), ?_, fun hmem => ?_⟩)
  · rw [Finset.mem_filter] at ha ⊢
    refine ⟨ha.1, ?_⟩
    by_cases heq : a = (n, k)
    · rw [heq, htarget]
      rfl
    · have hsome := ha.2
      dsimp only at hsome
      rwa [Function.update_of_ne heq] at hsome
  · rw [Finset.mem_filter, Finset.mem_product, Finset.mem_range, Finset.mem_range, htarget]
    exact ⟨⟨hn, hk⟩, rfl⟩
  · have hsome := (Finset.mem_filter.1 hmem).2
    dsimp only at hsome
    rw [Function.update_self] at hsome
    exact absurd hsome (by decide)

/-! ### Termination -/

/-- A reset of a block ends where fewer jumps are patched than a bound, keeps the lists, and leaves no
jump of the block. -/
def Resets (reset : ℕ → State t → Option (State t)) (c : ℕ) : Prop :=
  ∀ (σ : State t) jumps n, JumpLists σ jumps → σ.live n = true → patched σ < c →
    ∃ σ' jumps', reset n σ = some σ' ∧ JumpLists σ' jumps' ∧ Cut σ σ' ∧ Unchained σ' n

/-- One jump of a block, by a reset of its target. -/
theorem reset2_spec {reset : ℕ → State t → Option (State t)} {c : ℕ} (hreset : Resets reset c) (h : JumpLists σ jumps)
    (hn : σ.live n = true) (hk : k < 2) (hc : patched σ ≤ c) :
    ∃ σ' jumps', σ.tbResetJumpRecursive2 reset n k = some σ' ∧ JumpLists σ' jumps' ∧ Cut σ σ' ∧
      σ'.jmp (n, k) = none ∧ σ'.jmpTarget (n, k) = none := by
  cases htarget : σ.jmpTarget (n, k) with
  | none =>
    have hjmp := (h.free n k hn hk).2 htarget
    refine ⟨σ, jumps, ?_, h, Cut.refl σ, hjmp, htarget⟩
    unfold State.tbResetJumpRecursive2
    rw [hjmp]
  | some m =>
    obtain ⟨jmp, hcall, hlists, hm, hself, hfree⟩ := h.cut hn hk htarget reset
    obtain ⟨σ', jumps', hdone, hlists', hcut, hchain⟩ :=
      hreset _ _ m hlists hm ((patched_lt (h.bound n hn) hk htarget jmp).trans_le hc)
    refine ⟨σ', jumps', hcall.trans hdone, hlists', Cut.of_first htarget hfree hcut hchain, hcut.free _ hself, ?_⟩
    exact hcut.target_none (Function.update_self _ _ _)

/-- The recursion ends when its depth is at least the number of patched jumps. -/
theorem resets_fuel (fuel : ℕ) : Resets (t := t) (State.tbResetJumpRecursive fuel) fuel := by
  induction fuel with
  | zero => exact fun _ _ _ _ _ hlt => absurd hlt (Nat.not_lt_zero _)
  | succ fuel ih =>
    intro σ jumps n h hn hlt
    obtain ⟨σ₁, jumps₁, h₁, hlists₁, hcut₁, hjmp₁, htarget₁⟩ := reset2_spec ih h hn Nat.zero_lt_two (Nat.lt_succ_iff.1 hlt)
    have hn₁ : σ₁.live n = true := by
      rw [hcut₁.live]
      exact hn
    obtain ⟨σ₂, jumps₂, h₂, hlists₂, hcut₂, hjmp₂, htarget₂⟩ :=
      reset2_spec ih hlists₁ hn₁ Nat.one_lt_two (hcut₁.patched_le.trans (Nat.lt_succ_iff.1 hlt))
    refine ⟨σ₂, jumps₂, ?_, hlists₂, hcut₁.trans hcut₂, fun k hk => ?_⟩
    · rw [State.tbResetJumpRecursive, h₁]
      exact h₂
    · match k, hk with
      | 0, _ => exact ⟨hcut₂.free _ hjmp₁, hcut₂.target_none htarget₁⟩
      | 1, _ => exact ⟨hjmp₂, htarget₂⟩

/-- A deeper recursion does what one that has ended does. -/
theorem reset_mono {fuel fuel' : ℕ} (hle : fuel ≤ fuel') {n : ℕ} {σ σ' : State t}
    (h : State.tbResetJumpRecursive fuel n σ = some σ') : State.tbResetJumpRecursive fuel' n σ = some σ' := by
  have hmono2 : ∀ {reset reset' : ℕ → State t → Option (State t)},
      (∀ m τ τ', reset m τ = some τ' → reset' m τ = some τ') → ∀ {n k : ℕ} {τ τ' : State t},
        τ.tbResetJumpRecursive2 reset n k = some τ' → τ.tbResetJumpRecursive2 reset' n k = some τ' := by
    intro reset reset' hmono n k τ τ' hcall
    unfold State.tbResetJumpRecursive2 at hcall ⊢
    cases hjmp : τ.jmp (n, k) with
    | none =>
      rw [hjmp] at hcall
      exact hcall
    | some p =>
      rw [hjmp] at hcall
      obtain ⟨⟨prev, head⟩, hhead, hcall⟩ := Option.bind_eq_some_iff.1 hcall
      obtain ⟨jmp, hunlink, hcall⟩ := Option.bind_eq_some_iff.1 hcall
      exact Option.bind_eq_some_iff.2 ⟨_, hhead, Option.bind_eq_some_iff.2 ⟨jmp, hunlink, hmono _ _ _ hcall⟩⟩
  induction fuel generalizing fuel' n σ σ' with
  | zero => exact absurd h nofun
  | succ fuel ih =>
    obtain ⟨fuel', rfl⟩ : ∃ f, fuel' = f + 1 := ⟨fuel' - 1, by omega⟩
    have hdeeper : ∀ m τ τ', State.tbResetJumpRecursive (t := t) fuel m τ = some τ' →
        State.tbResetJumpRecursive fuel' m τ = some τ' := fun m τ τ' hcall => ih (Nat.le_of_succ_le_succ hle) hcall
    obtain ⟨τ, h₁, h₂⟩ := Option.bind_eq_some_iff.1 h
    exact Option.bind_eq_some_iff.2 ⟨τ, hmono2 hdeeper h₁, hmono2 hdeeper h₂⟩

theorem Cut.reachable (h : Cut σ σ') (hn : Unchained σ' n) (hreach : Relation.ReflTransGen (Chained σ) n m) :
    Unchained σ' m := by
  induction hreach with
  | refl => exact hn
  | tail _ hjump ih =>
    obtain ⟨k, hk, htarget⟩ := hjump
    exact h.followed _ _ htarget (ih k hk).2

/-- On every graph of jumps the reset of a live block ends. The lists stay in order, jumps are only taken
away, and none is left on any block that was reached from it. -/
theorem tb_reset_jump_complete (h : JumpLists σ jumps) (hn : σ.live n = true) :
    ∃ σ' jumps', (∃ depth, ∀ fuel, depth ≤ fuel → σ.tbResetJumpRecursive fuel n = some σ') ∧ JumpLists σ' jumps' ∧
      (∀ a m, σ'.jmpTarget a = some m → σ.jmpTarget a = some m) ∧
        ∀ m, Relation.ReflTransGen (Chained σ) n m → Unchained σ' m := by
  obtain ⟨σ', jumps', hdone, hlists, hcut, hchain⟩ := resets_fuel (patched σ + 1) σ jumps n h hn (Nat.lt_succ_self _)
  exact ⟨σ', jumps', ⟨patched σ + 1, fun fuel hle => reset_mono hle hdone⟩, hlists, hcut.kept,
    fun m hreach => hcut.reachable hchain hreach⟩

/-- A block that jumps to itself. -/
def selfLoop : State target32 :=
  ((State.init.tbAlloc 8 0 8 false).tbLinkPhys 0 (page0.addr + offset 0) noPage).tbAddJump 0 0 0

theorem integrity_selfLoop : ∃ l, Integrity selfLoop l := by
  have halloc := (integrity_init (t := target32)).tbAlloc 8 0 8 false
  have hpc : page (page0.addr + offset 0) + offset ((State.init.tbAlloc 8 0 8 false).tbs 0).pc = page0.addr + offset 0 := by
    rw [page_add_offset page0.aligned]
    rfl
  obtain ⟨l, hlink⟩ : ∃ l, Integrity ((State.init.tbAlloc 8 0 8 false).tbLinkPhys 0 (page0.addr + offset 0) noPage) l :=
    halloc.tbLinkPhys (by decide) rfl hpc
  exact hlink.tbAddJump rfl rfl (by decide)

theorem tb_reset_jump_selfLoop : Chained selfLoop 0 0 ∧
    ∃ σ' jumps', (∃ depth, ∀ fuel, depth ≤ fuel → selfLoop.tbResetJumpRecursive fuel 0 = some σ') ∧
      JumpLists σ' jumps' ∧ (∀ a m, σ'.jmpTarget a = some m → selfLoop.jmpTarget a = some m) ∧
        ∀ m, Relation.ReflTransGen (Chained selfLoop) 0 m → Unchained σ' m := by
  obtain ⟨l, h⟩ := integrity_selfLoop
  exact ⟨⟨0, by decide, rfl⟩, tb_reset_jump_complete h.jumpLists rfl⟩

end Ar7Qemu.Exec.TbLists
