import Ar7Qemu.Exec.TbLists
import Mathlib.Data.Finset.Prod

/-! Integrity of the lists of translation blocks: every live block is once in the chain of
its physical address and once in the list of each of its pages, every patched jump is once in
the ring of its target, and nothing else is in any list. -/

namespace Ar7Qemu.Exec.TbLists

open Lib

variable {t : Target} {σ σ' : State t} {n : ℕ}

/-- `page_addr[k]`, when it is set. -/
def pageAddr (tb : TranslationBlock t) : ℕ → Option (Addr t)
  | 0 => some tb.pageAddr0
  | 1 => if tb.pageAddr1 = noPage then none else some tb.pageAddr1
  | _ => none

/-- The lists of a state: the chains, the page lists and the jump lists. -/
structure Lists (t : Target) where
  hash : ℕ → List ℕ
  pages : Addr t → List (ℕ × ℕ)
  jumps : ℕ → List (ℕ × ℕ)

namespace State

variable (σ : State t)

/-- The chain that a live block should be in. -/
def hashKey (n : ℕ) : Option ℕ := if σ.live n then some (tbPhysHashFunc (σ.tbs n).physPc) else none

/-- The page list that a tagged pointer to a live block should be in. -/
def pageKey (a : ℕ × ℕ) : Option (Addr t) := if σ.live a.1 then pageAddr (σ.tbs a.1) a.2 else none

/-- The jump list that a patched jump of a live block should be in. -/
def jumpKey (a : ℕ × ℕ) : Option ℕ := if σ.live a.1 ∧ a.2 < 2 then σ.jmpTarget a else none

end State

/-- The walks along the pointers of a state end, and each of them finds once what should be
in its list. -/
structure Integrity (σ : State t) (l : Lists t) : Prop where
  bound : ∀ n, σ.live n = true → n < σ.nbTbs
  aligned : ∀ n, σ.live n = true → page (σ.tbs n).pageAddr0 = (σ.tbs n).pageAddr0
  hash : Chains σ.physHashNext σ.tbPhysHash σ.hashKey l.hash
  pages : Chains σ.pageNext σ.firstTb σ.pageKey l.pages
  jumps : Rings σ.jmp (fun n => (n, 2)) (fun n => σ.live n = true) σ.jumpKey l.jumps
  /-- `jmp_next[k]` is null when the jump has not been patched. -/
  free : ∀ a k, σ.live a = true → k < 2 → (σ.jmp (a, k) = none ↔ σ.jmpTarget (a, k) = none)

/-- What the callers see to, and the case that goes wrong: a range that has both parts of a
block whose two pages are the same. -/
def Ok (σ : State t) : Op t → Prop
  | .alloc _ _ _ _ => True
  | .linkPhys n _ _ => n < σ.nbTbs ∧ σ.live n = false
  | .addJump n k next => σ.live n = true ∧ σ.live next = true ∧ k < 2
  | .physInvalidate n => σ.live n = true
  | .invalidateRange start stop => ∀ n, σ.live n = true → (σ.tbs n).pageAddr0 = page (BitVec.ofNat _ start) →
      (σ.tbs n).pageAddr1 = page (BitVec.ofNat _ start) →
      ¬ (Overlaps (σ.tbs n) 0 start stop ∧ Overlaps (σ.tbs n) 1 start stop)
  | .free n => σ.live n = false
  | .flush => True

theorem injective_jmpFirst : Function.Injective fun n : ℕ => (n, 2) := fun _ _ h => (Prod.mk.inj h).1

/-! ### Keys -/

section Keys

theorem hashKey_some {i : ℕ} (h : σ.hashKey n = some i) : σ.live n = true ∧ tbPhysHashFunc (σ.tbs n).physPc = i := by
  simpa [State.hashKey] using h

theorem pageAddr_lt {tb : TranslationBlock t} {k : ℕ} {p : Addr t} (h : pageAddr tb k = some p) : k < 2 := by
  match k, h with
  | 0, _ => decide
  | 1, _ => decide

theorem pageKey_some {a : ℕ × ℕ} {p : Addr t} (h : σ.pageKey a = some p) :
    σ.live a.1 = true ∧ pageAddr (σ.tbs a.1) a.2 = some p := by
  rw [State.pageKey] at h
  split at h
  · rename_i hlive
    exact ⟨hlive, h⟩
  · exact absurd h (by simp)

theorem jumpKey_some {a : ℕ × ℕ} {m : ℕ} (h : σ.jumpKey a = some m) :
    σ.live a.1 = true ∧ a.2 < 2 ∧ σ.jmpTarget a = some m := by
  rw [State.jumpKey] at h
  split at h
  · rename_i hlive
    exact ⟨hlive.1, hlive.2, h⟩
  · exact absurd h (by simp)

end Keys

/-! ### Lengths of walks -/

section Lengths

variable {l : Lists t}

theorem Integrity.hash_length (h : Integrity σ l) (i : ℕ) : (l.hash i).length ≤ σ.fuel := by
  have := length_le_card (h.hash.nodup i) (s := Finset.range σ.nbTbs) fun n hn =>
    Finset.mem_range.2 (h.bound n (hashKey_some ((h.hash.mem i n).1 hn)).1)
  rw [Finset.card_range] at this
  rw [State.fuel]
  omega

theorem length_le_fuel {xs : List (ℕ × ℕ)} (hnodup : xs.Nodup) (h : ∀ a ∈ xs, a.1 < σ.nbTbs ∧ a.2 < 2) :
    xs.length + 1 ≤ σ.fuel := by
  have := length_le_card hnodup (s := Finset.range σ.nbTbs ×ˢ Finset.range 2) fun a ha =>
    Finset.mem_product.2 ⟨Finset.mem_range.2 (h a ha).1, Finset.mem_range.2 (h a ha).2⟩
  rw [Finset.card_product, Finset.card_range, Finset.card_range] at this
  rw [State.fuel]
  omega

theorem Integrity.pages_length (h : Integrity σ l) (p : Addr t) : (l.pages p).length + 1 ≤ σ.fuel := by
  refine length_le_fuel (h.pages.nodup p) fun a ha => ?_
  obtain ⟨hlive, haddr⟩ := pageKey_some ((h.pages.mem p a).1 ha)
  exact ⟨h.bound a.1 hlive, pageAddr_lt haddr⟩

theorem Integrity.jumps_length (h : Integrity σ l) (n : ℕ) : (l.jumps n).length + 1 ≤ σ.fuel := by
  refine length_le_fuel (h.jumps.nodup n) fun a ha => ?_
  obtain ⟨hlive, hk, -⟩ := jumpKey_some ((h.jumps.mem n a).1 ha)
  exact ⟨h.bound a.1 hlive, hk⟩

end Lengths

/-! ### Operations that do not walk -/

theorem integrity_tbFlush (σ : State t) : Integrity σ.tbFlush ⟨fun _ => [], fun _ => [], fun _ => []⟩ := by
  refine ⟨?_, ?_, ⟨fun _ => rfl, ?_, ?_⟩, ⟨fun _ => rfl, ?_, ?_⟩, ⟨?_, ?_, ?_, ?_, ?_⟩, ?_⟩
  all_goals simp [State.tbFlush, State.hashKey, State.pageKey, State.jumpKey]

theorem integrity_init : Integrity (State.init : State t) ⟨fun _ => [], fun _ => [], fun _ => []⟩ :=
  integrity_tbFlush State.init

/-- Blocks that are not live may change. -/
theorem Integrity.of_tbs {l : Lists t} (h : Integrity σ l) (tbs : ℕ → TranslationBlock t) (nbTbs : ℕ)
    (htbs : ∀ n, σ.live n = true → tbs n = σ.tbs n) (hnb : ∀ n, σ.live n = true → n < nbTbs) :
    Integrity { σ with tbs := tbs, nbTbs := nbTbs } l := by
  have hhash : State.hashKey { σ with tbs := tbs, nbTbs := nbTbs } = σ.hashKey := by
    funext n
    simp only [State.hashKey]
    split
    · rename_i hn
      rw [htbs n hn]
    · rfl
  have hpages : State.pageKey { σ with tbs := tbs, nbTbs := nbTbs } = σ.pageKey := by
    funext a
    simp only [State.pageKey]
    split
    · rename_i hn
      rw [htbs a.1 hn]
    · rfl
  refine ⟨hnb, fun n hn => ?_, hhash ▸ h.hash, hpages ▸ h.pages, h.jumps, h.free⟩
  show page (tbs n).pageAddr0 = (tbs n).pageAddr0
  rw [htbs n hn]
  exact h.aligned n hn

theorem Integrity.tbAlloc {l : Lists t} (h : Integrity σ l) (maxBlocks : ℕ) (pc : Addr t) (size : ℕ)
    (bufferFull : Bool) : Integrity (σ.tbAlloc maxBlocks pc size bufferFull) l := by
  rw [State.tbAlloc]
  split
  · exact h
  · refine h.of_tbs _ _ (fun n hn => ?_) fun n hn => (h.bound n hn).trans (Nat.lt_succ_self _)
    exact Function.update_of_ne (h.bound n hn).ne _ _

theorem Integrity.tbFree {l : Lists t} (h : Integrity σ l) (hn : σ.live n = false) : Integrity (σ.tbFree n) l := by
  rw [State.tbFree]
  split
  · rename_i hlast
    refine h.of_tbs _ _ (fun _ _ => rfl) fun m hm => ?_
    have hlt := h.bound m hm
    have hne : m ≠ n := by
      rintro rfl
      rw [hn] at hm
      exact absurd hm (by decide)
    omega
  · exact h

/-- A jump of a live block is patched and put into the ring of its target. -/
theorem Integrity.tbAddJump {l : Lists t} (h : Integrity σ l) {k next : ℕ} (hn : σ.live n = true)
    (hnext : σ.live next = true) (hk : k < 2) : ∃ l', Integrity (σ.tbAddJump n k next) l' := by
  by_cases hnone : σ.jmp (n, k) = none
  · have hdef : σ.tbAddJump n k next = { σ with
        jmpTarget := Function.update σ.jmpTarget (n, k) (some next)
        jmp := Function.update (Function.update σ.jmp (n, k) (σ.jmp (next, 2))) (next, 2) (some (n, k)) } :=
      if_pos hnone
    have hproper : ∀ m, (n, k) ≠ (m, 2) := fun m heq => by
      rw [Prod.mk.injEq] at heq
      omega
    have hkey : σ.jumpKey (n, k) = none := by
      rw [State.jumpKey, if_pos ⟨hn, hk⟩]
      exact (h.free n k hn hk).1 hnone
    have hkeys : (σ.tbAddJump n k next).jumpKey = Function.update σ.jumpKey (n, k) (some next) := by
      funext a
      rw [hdef]
      by_cases ha : a = (n, k)
      · subst ha
        simp [State.jumpKey, hn, hk]
      · simp [State.jumpKey, ha]
    refine ⟨⟨l.hash, l.pages, Function.update l.jumps next ((n, k) :: l.jumps next)⟩, ?_⟩
    refine ⟨hdef ▸ h.bound, hdef ▸ h.aligned, hdef ▸ h.hash, hdef ▸ h.pages, ?_, fun a j ha hj => ?_⟩
    · rw [hkeys, hdef]
      exact h.jumps.push injective_jmpFirst hkey hproper hnext
    · rw [hdef] at ha ⊢
      have hne : (a, j) ≠ (next, 2) := fun heq => by
        rw [Prod.mk.injEq] at heq
        omega
      show Function.update (Function.update σ.jmp (n, k) (σ.jmp (next, 2))) (next, 2) (some (n, k)) (a, j) = none ↔
        Function.update σ.jmpTarget (n, k) (some next) (a, j) = none
      rw [Function.update_of_ne hne]
      by_cases heq : (a, j) = (n, k)
      · rw [heq, Function.update_self, Function.update_self]
        simp [(h.jumps.seg next hnext).next_ne_none.1]
      · rw [Function.update_of_ne heq, Function.update_of_ne heq]
        exact h.free a j ha hj
  · rw [State.tbAddJump, if_neg hnone]
    exact ⟨l, h⟩

/-! ### A new block -/

section Link

variable {l : Lists t} {physPc physPage2 : Addr t}

theorem tbLinkPhys_tbs (σ : State t) (n : ℕ) (physPc physPage2 : Addr t) :
    (σ.tbLinkPhys n physPc physPage2).tbs =
      Function.update σ.tbs n { σ.tbs n with pageAddr0 := page physPc, pageAddr1 := physPage2 } := by
  by_cases htwo : physPage2 ≠ noPage
  · simp [State.tbLinkPhys, State.tbAllocPage, htwo]
  · simp [State.tbLinkPhys, State.tbAllocPage, not_not.1 htwo]

theorem pageKey_link {key : ℕ × ℕ → Option (Addr t)} (hkey : ∀ k, key (n, k) = none) (tb : TranslationBlock t) :
    (fun a => if a.1 = n then pageAddr tb a.2 else key a) =
      Function.update (Function.update key (n, 0) (some tb.pageAddr0)) (n, 1) (pageAddr tb 1) := by
  funext ⟨m, k⟩
  by_cases hm : m = n
  · subst hm
    match k with
    | 0 => simp [pageAddr]
    | 1 => simp
    | k + 2 => simp [hkey, pageAddr]
  · simp [hm]

/-- The page lists after the two calls of `tb_alloc_page`. -/
theorem tbLinkPhys_pages (h : Integrity σ l) (hlive : σ.live n = false) (physPc physPage2 : Addr t) :
    ∃ pages, Chains (σ.tbLinkPhys n physPc physPage2).pageNext (σ.tbLinkPhys n physPc physPage2).firstTb
      (σ.tbLinkPhys n physPc physPage2).pageKey pages := by
  have hkey : ∀ k, σ.pageKey (n, k) = none := fun k => by simp [State.pageKey, hlive]
  have hfirst := h.pages.push (hkey 0) (page physPc)
  have hkeys : (σ.tbLinkPhys n physPc physPage2).pageKey =
      fun a => if a.1 = n then pageAddr { σ.tbs n with pageAddr0 := page physPc, pageAddr1 := physPage2 } a.2
        else σ.pageKey a := by
    funext a
    rw [State.pageKey, tbLinkPhys_tbs]
    by_cases ha : a.1 = n
    · simp [State.tbLinkPhys, ha]
    · simp only [State.tbLinkPhys, State.pageKey, Function.update_of_ne ha, if_neg ha]
      by_cases htwo : physPage2 ≠ noPage
      · simp [htwo, State.tbAllocPage]
      · simp [htwo, State.tbAllocPage]
  rw [hkeys, pageKey_link hkey]
  by_cases htwo : physPage2 ≠ noPage
  · have hsecond := Exists.intro _ (hfirst.push (a := (n, 1)) (by simp [hkey 1]) physPage2)
    simpa only [State.tbLinkPhys, State.tbAllocPage, if_pos htwo, pageAddr, if_neg htwo] using hsecond
  · rw [not_not] at htwo
    subst htwo
    have hone : Function.update (Function.update σ.pageKey (n, 0) (some (page physPc))) (n, 1) none =
        Function.update σ.pageKey (n, 0) (some (page physPc)) := by
      rw [Function.update_eq_self_iff]
      simp [hkey 1]
    have hfirst := Exists.intro _ hfirst
    simpa [State.tbLinkPhys, State.tbAllocPage, pageAddr, hone] using hfirst

theorem tbLinkPhys_fields (σ : State t) (n : ℕ) (physPc physPage2 : Addr t) :
    (σ.tbLinkPhys n physPc physPage2).live = Function.update σ.live n true ∧
      (σ.tbLinkPhys n physPc physPage2).nbTbs = σ.nbTbs ∧
      (σ.tbLinkPhys n physPc physPage2).physHashNext =
        Function.update σ.physHashNext n (σ.tbPhysHash (tbPhysHashFunc physPc)) ∧
      (σ.tbLinkPhys n physPc physPage2).tbPhysHash = Function.update σ.tbPhysHash (tbPhysHashFunc physPc) (some n) ∧
      (σ.tbLinkPhys n physPc physPage2).jmp =
        Function.update (Function.update (Function.update σ.jmp (n, 2) (some (n, 2))) (n, 0) none) (n, 1) none ∧
      (σ.tbLinkPhys n physPc physPage2).jmpTarget =
        Function.update (Function.update σ.jmpTarget (n, 0) none) (n, 1) none := by
  by_cases htwo : physPage2 ≠ noPage
  · simp [State.tbLinkPhys, State.tbAllocPage, htwo]
  · simp [State.tbLinkPhys, State.tbAllocPage, htwo]

theorem hashKey_link (hpc : page physPc + offset (σ.tbs n).pc = physPc) :
    (σ.tbLinkPhys n physPc physPage2).hashKey = Function.update σ.hashKey n (some (tbPhysHashFunc physPc)) := by
  obtain ⟨hlive, -⟩ := tbLinkPhys_fields σ n physPc physPage2
  funext m
  rw [State.hashKey, hlive, tbLinkPhys_tbs]
  by_cases hm : m = n
  · subst hm
    simp [TranslationBlock.physPc, hpc]
  · simp [State.hashKey, hm]

theorem jumpKey_link (hn : σ.live n = false) : (σ.tbLinkPhys n physPc physPage2).jumpKey = σ.jumpKey := by
  obtain ⟨hlive, -, -, -, -, htarget⟩ := tbLinkPhys_fields σ n physPc physPage2
  funext ⟨m, k⟩
  rw [State.jumpKey, hlive, htarget]
  by_cases hm : m = n
  · subst hm
    rw [State.jumpKey, hn]
    match k with
    | 0 => simp
    | 1 => simp
    | k + 2 => simp
  · simp [State.jumpKey, hm]

/-- No jump goes to a new block, and none of its jumps has been patched. -/
theorem tbLinkPhys_jumps (h : Integrity σ l) (hn : σ.live n = false) (physPc physPage2 : Addr t) :
    Rings (σ.tbLinkPhys n physPc physPage2).jmp (fun n => (n, 2))
      (fun m => (σ.tbLinkPhys n physPc physPage2).live m = true) (σ.tbLinkPhys n physPc physPage2).jumpKey l.jumps := by
  obtain ⟨hlive, -, -, -, hjmp, -⟩ := tbLinkPhys_fields σ n physPc physPage2
  have hother : ∀ m k, m ≠ n → (σ.tbLinkPhys n physPc physPage2).jmp (m, k) = σ.jmp (m, k) := fun m k hm => by
    rw [hjmp]
    simp [hm]
  have hne : ∀ m, σ.live m = true → m ≠ n := by
    rintro m hm rfl
    rw [hn] at hm
    exact absurd hm (by decide)
  rw [jumpKey_link hn]
  refine h.jumps.extend (fun a k ha => ?_) (fun m hm => hother m 2 (hne m hm)) (fun m hm => ?_) fun m hm => ?_
  · exact hother a.1 a.2 (hne a.1 (jumpKey_some ha).1)
  · rw [hlive] at hm
    by_cases hmn : m = n
    · subst hmn
      right
      rw [hjmp]
      simp
    · rw [Function.update_of_ne hmn] at hm
      exact .inl hm
  · rw [hlive, Function.update_of_ne (hne m hm)]
    exact hm

theorem Integrity.tbLinkPhys (h : Integrity σ l) (hn : n < σ.nbTbs) (hlive : σ.live n = false)
    (hpc : page physPc + offset (σ.tbs n).pc = physPc) :
    ∃ l', Integrity (σ.tbLinkPhys n physPc physPage2) l' := by
  obtain ⟨pages, hpages⟩ := tbLinkPhys_pages h hlive physPc physPage2
  obtain ⟨hlive', hnb, hnext, hhead, hjmp, htarget⟩ := tbLinkPhys_fields σ n physPc physPage2
  have hkey : σ.hashKey n = none := by simp [State.hashKey, hlive]
  have hhash := h.hash.push hkey (tbPhysHashFunc physPc)
  have hkeys : (σ.tbLinkPhys n physPc physPage2).hashKey = Function.update σ.hashKey n (some (tbPhysHashFunc physPc)) :=
    hashKey_link hpc
  have hjumps := tbLinkPhys_jumps h hlive physPc physPage2
  rw [← hnext, ← hhead, ← hkeys] at hhash
  refine ⟨⟨_, pages, l.jumps⟩, fun m hm => ?_, fun m hm => ?_, hhash, hpages, hjumps, fun m k hm hk => ?_⟩
  all_goals rw [hlive'] at hm
  · rw [hnb]
    by_cases hmn : m = n
    · exact hmn ▸ hn
    · rw [Function.update_of_ne hmn] at hm
      exact h.bound m hm
  · rw [tbLinkPhys_tbs]
    by_cases hmn : m = n
    · subst hmn
      rw [Function.update_self]
      exact page_page physPc
    · rw [Function.update_of_ne hmn] at hm ⊢
      exact h.aligned m hm
  · rw [hjmp, htarget]
    by_cases hmn : m = n
    · subst hmn
      match k, hk with
      | 0, _ => simp
      | 1, _ => simp
    · rw [Function.update_of_ne hmn] at hm
      simpa [hmn] using h.free m k hm hk

end Link

/-! ### Removal of a block from each kind of list -/

section Remove

variable {l : Lists t} {key : ℕ × ℕ → Option (Addr t)} {pages : Addr t → List (ℕ × ℕ)}

theorem tbRemove_spec (h : Integrity σ l) (hn : σ.live n = true) :
    ∃ next head hash, σ.tbRemove (tbPhysHashFunc (σ.tbs n).physPc) n =
        some { σ with physHashNext := next, tbPhysHash := head } ∧
      Chains next head (Function.update σ.hashKey n none) hash := by
  have hkey : σ.hashKey n = some (tbPhysHashFunc (σ.tbs n).physPc) := by rw [State.hashKey, if_pos hn]
  have hmem : ∃ a, σ.hashKey a = some (tbPhysHashFunc (σ.tbs n).physPc) ∧ (a == n) = true :=
    ⟨n, hkey, beq_self_eq_true n⟩
  obtain ⟨a, next, head, -, hhit, hunlink, hchains, -⟩ := h.hash.unlink hmem (h.hash_length _)
  obtain rfl : a = n := by simpa using hhit
  exact ⟨next, _, _, by rw [State.tbRemove, hunlink]; rfl, hchains⟩

theorem tbPageRemove_spec (h : Chains σ.pageNext σ.firstTb key pages) {p : Addr t}
    (hmem : ∃ k, key (n, k) = some p) (hfuel : (pages p).length ≤ σ.fuel) :
    ∃ k next first pages', key (n, k) = some p ∧
      σ.tbPageRemove p n = some { σ with pageNext := next, firstTb := first } ∧
      Chains next first (Function.update key (n, k) none) pages' ∧ (∀ q, (pages' q).Sublist (pages q)) ∧
      ∀ j, next (n, j) = σ.pageNext (n, j) := by
  obtain ⟨k₀, hk₀⟩ := hmem
  have hmem : ∃ a, key a = some p ∧ (a.1 == n) = true := ⟨(n, k₀), hk₀, beq_self_eq_true n⟩
  obtain ⟨⟨m, k⟩, next, head, hkey, hhit, hunlink, hchains, hsame⟩ := h.unlink hmem hfuel
  obtain rfl : m = n := by simpa using hhit
  refine ⟨k, next, _, _, hkey, by rw [State.tbPageRemove, hunlink]; rfl, hchains, fun q => ?_,
    fun j => hsame (m, j) (beq_self_eq_true m)⟩
  by_cases hq : q = p
  · subst hq
    rw [Function.update_self]
    exact List.eraseP_sublist
  · rw [Function.update_of_ne hq]

theorem tbJmpRemove_spec {owner : ℕ → Prop} {key : ℕ × ℕ → Option ℕ} {jumps : ℕ → List (ℕ × ℕ)}
    (h : Rings σ.jmp (fun n => (n, 2)) owner key jumps) {k : ℕ} (hk : k < 2)
    (hnone : σ.jmp (n, k) = none ↔ key (n, k) = none) (hfuel : ∀ m, (jumps m).length + 1 ≤ σ.fuel) :
    ∃ jmp, σ.tbJmpRemove n k = some { σ with jmp := jmp } ∧
      Rings jmp (fun n => (n, 2)) owner (Function.update key (n, k) none) (fun m => (jumps m).filter (· ≠ (n, k))) ∧
      jmp (n, k) = none ∧ ∀ c ≠ (n, k), (jmp c = none ↔ σ.jmp c = none) := by
  have hproper : ∀ m, (n, k) ≠ (m, 2) := fun m heq => by
    rw [Prod.mk.injEq] at heq
    omega
  obtain ⟨jmp, hunlink, hrings, hself, hother⟩ := h.unlink injective_jmpFirst hnone hproper hfuel
  exact ⟨jmp, by rw [State.tbJmpRemove, hunlink]; rfl, hrings, hself, hother⟩

theorem pageKey_remove {tb : TranslationBlock t} (hkey : ∀ k, key (n, k) = pageAddr tb k) {k₁ k₂ : ℕ}
    (hgone : ∀ k, k ≠ k₁ → k ≠ k₂ → pageAddr tb k = none) :
    Function.update (Function.update key (n, k₁) none) (n, k₂) none = fun a => if a.1 = n then none else key a := by
  funext ⟨m, k⟩
  by_cases hm : m = n
  · subst hm
    by_cases hk₂ : k = k₂
    · simp [hk₂]
    · by_cases hk₁ : k = k₁
      · subst hk₁
        simp [hk₂]
      · simp [hk₁, hk₂, hkey, hgone k hk₁ hk₂]
  · simp [hm]

/-- The two calls of `tb_page_remove` remove both pointers to a block, also when they are in
one list. -/
theorem tbPageRemove_both (h : Chains σ.pageNext σ.firstTb key pages) {tb : TranslationBlock t}
    (hkey : ∀ k, key (n, k) = pageAddr tb k) (hfirst : tb.pageAddr0 ≠ noPage)
    (hfuel : ∀ p, (pages p).length ≤ σ.fuel) :
    ∃ next first pages', ((σ.tbPageRemoveSet tb.pageAddr0 n).bind fun σ => σ.tbPageRemoveSet tb.pageAddr1 n) =
        some { σ with pageNext := next, firstTb := first } ∧
      Chains next first (fun a => if a.1 = n then none else key a) pages' ∧
      (∀ p, (pages' p).Sublist (pages p)) ∧ ∀ j, next (n, j) = σ.pageNext (n, j) := by
  obtain ⟨k₁, next₁, first₁, pages₁, hk₁, hremove₁, hchains₁, hsub₁, hsame₁⟩ :=
    tbPageRemove_spec h ⟨0, hkey 0⟩ (hfuel tb.pageAddr0)
  have hlt₁ : k₁ < 2 := pageAddr_lt (hkey k₁ ▸ hk₁)
  rw [State.tbPageRemoveSet, if_pos hfirst, hremove₁, Option.bind_some, State.tbPageRemoveSet]
  by_cases htwo : tb.pageAddr1 ≠ noPage
  · have hsecond : pageAddr tb 1 = some tb.pageAddr1 := by rw [pageAddr, if_neg htwo]
    have hmem : ∃ k, Function.update key (n, k₁) none (n, k) = some tb.pageAddr1 := by
      match k₁, hlt₁ with
      | 0, _ => exact ⟨1, by simp [hkey, hsecond]⟩
      | 1, _ =>
        rw [hkey, hsecond] at hk₁
        exact ⟨0, by simpa [hkey, pageAddr] using hk₁.symm⟩
    obtain ⟨k₂, next₂, first₂, pages₂, hk₂, hremove₂, hchains₂, hsub₂, hsame₂⟩ :=
      tbPageRemove_spec (σ := { σ with pageNext := next₁, firstTb := first₁ }) hchains₁ hmem
        ((hsub₁ _).length_le.trans (hfuel _))
    have hne : k₂ ≠ k₁ := by
      rintro rfl
      rw [Function.update_self] at hk₂
      exact absurd hk₂ (by simp)
    have hlt₂ : k₂ < 2 := by
      rw [Function.update_of_ne (by simp [hne]), hkey] at hk₂
      exact pageAddr_lt hk₂
    rw [pageKey_remove hkey fun k h₁ h₂ => ?_] at hchains₂
    · rw [if_pos htwo, hremove₂]
      exact ⟨next₂, first₂, pages₂, rfl, hchains₂, fun p => (hsub₂ p).trans (hsub₁ p),
        fun j => (hsame₂ j).trans (hsame₁ j)⟩
    · by_contra hsome
      obtain ⟨p, hp⟩ := Option.ne_none_iff_exists'.1 hsome
      have := pageAddr_lt hp
      omega
  · have hone : ∀ k, k ≠ 0 → pageAddr tb k = none := by
      intro k hk
      match k, hk with
      | 1, _ => rw [pageAddr, if_pos (not_not.1 htwo)]
      | k + 2, _ => rfl
    obtain rfl : k₁ = 0 := by
      by_contra hne
      rw [hkey, hone k₁ hne] at hk₁
      exact absurd hk₁ (by simp)
    have hkeys := pageKey_remove hkey fun k h₁ (_ : k ≠ 0) => hone k h₁
    rw [Function.update_idem] at hkeys
    rw [if_neg htwo]
    exact ⟨next₁, first₁, pages₁, rfl, hkeys ▸ hchains₁, hsub₁, hsame₁⟩

theorem resetJumps_spec : ∀ {xs : List (ℕ × ℕ)} {p : Option (ℕ × ℕ)} {fuel : ℕ} {σ : State t},
    Seg σ.jmp p xs (some (n, 2)) → xs.Nodup → (∀ a ∈ xs, a.2 < 2) → xs.length < fuel →
    State.resetJumps fuel p σ = some { σ with
      jmp := fun c => if c ∈ xs then none else σ.jmp c
      jmpTarget := fun c => if c ∈ xs then none else σ.jmpTarget c }
  | [], _, fuel + 1, σ, hp, _, _, _ => by
    rw [show _ = some (n, 2) from hp]
    simp [State.resetJumps]
  | (a, k) :: xs, _, fuel + 1, σ, ⟨hp, hseg⟩, hnodup, htags, hlen => by
    have hk : k ≠ 2 := (htags _ List.mem_cons_self).ne
    obtain ⟨hnot, hnodup⟩ := List.nodup_cons.1 hnodup
    rw [hp, State.resetJumps, if_neg hk, resetJumps_spec (hseg.update hnot none) hnodup
      (fun b hb => htags b (List.mem_cons_of_mem _ hb)) (Nat.lt_of_succ_lt_succ hlen)]
    congr 2
    · funext c
      by_cases hc : c = (a, k)
      · simp [hc]
      · simp [hc]
    · funext c
      by_cases hc : c = (a, k)
      · simp [hc]
      · simp [hc]

end Remove

/-! ### Invalidation -/

section Invalidate

variable {l : Lists t}

theorem live_remove (m : ℕ) : Function.update σ.live n false m = true ↔ σ.live m = true ∧ m ≠ n := by
  by_cases hm : m = n
  · subst hm
    simp
  · simp [hm]

theorem hashKey_removed (hlive : σ'.live = Function.update σ.live n false) (htbs : σ'.tbs = σ.tbs) :
    σ'.hashKey = Function.update σ.hashKey n none := by
  funext m
  rw [State.hashKey, hlive, htbs]
  by_cases hm : m = n
  · subst hm
    simp
  · simp [State.hashKey, hm]

theorem pageKey_removed (hlive : σ'.live = Function.update σ.live n false) (htbs : σ'.tbs = σ.tbs) :
    σ'.pageKey = fun a => if a.1 = n then none else σ.pageKey a := by
  funext a
  rw [State.pageKey, hlive, htbs]
  by_cases ha : a.1 = n
  · simp [ha]
  · simp [State.pageKey, ha]

theorem jumpKey_removed (hlive : σ'.live = Function.update σ.live n false) :
    σ'.jumpKey = fun a => if (σ.live a.1 = true ∧ a.1 ≠ n) ∧ a.2 < 2 then σ'.jmpTarget a else none := by
  funext a
  rw [State.jumpKey, hlive]
  simp only [live_remove]

/-- The jumps of a block are taken out of their rings, and the jumps to it are reset. -/
theorem jumps_removed (h : Integrity σ l) (hn : σ.live n = true) {τ : State t} (hjmp : τ.jmp = σ.jmp)
    (hfuel : τ.fuel = σ.fuel) (htarget : τ.jmpTarget = σ.jmpTarget) :
    ∃ jmp target jumps, ((τ.tbJmpRemove n 0).bind fun τ => (τ.tbJmpRemove n 1).bind fun τ =>
        State.resetJumps τ.fuel (τ.jmp (n, 2)) τ) = some { τ with jmp := jmp, jmpTarget := target } ∧
      Rings (Function.update jmp (n, 2) (some (n, 2))) (fun n => (n, 2)) (fun m => σ.live m = true ∧ m ≠ n)
        (fun a => if (σ.live a.1 = true ∧ a.1 ≠ n) ∧ a.2 < 2 then target a else none) jumps ∧
      ∀ a k, (σ.live a = true ∧ a ≠ n) → k < 2 → (jmp (a, k) = none ↔ target (a, k) = none) := by
  have hkey : ∀ k, k < 2 → σ.jumpKey (n, k) = σ.jmpTarget (n, k) := fun k hk => if_pos ⟨hn, hk⟩
  obtain ⟨jmp₁, hremove₁, hrings₁, -, hother₁⟩ :=
    tbJmpRemove_spec (σ := τ) (n := n) (k := 0) (hjmp.symm ▸ h.jumps) (by decide)
      (by rw [hjmp, hkey 0 (by decide)]; exact h.free n 0 hn (by decide)) (hfuel ▸ h.jumps_length)
  have hlen₁ : ∀ m, ((l.jumps m).filter (· ≠ (n, 0))).length + 1 ≤ τ.fuel := fun m =>
    hfuel ▸ (Nat.succ_le_succ (List.length_filter_le _ _)).trans (h.jumps_length m)
  obtain ⟨jmp₂, hremove₂, hrings₂, -, hother₂⟩ :=
    tbJmpRemove_spec (σ := { τ with jmp := jmp₁ }) (n := n) (k := 1) hrings₁ (by decide)
      (by
        rw [Function.update_of_ne (by simp), hkey 1 (by decide), ← h.free n 1 hn (by decide), ← hjmp]
        exact hother₁ (n, 1) (by simp)) hlen₁
  set J := fun m => ((l.jumps m).filter (· ≠ (n, 0))).filter (· ≠ (n, 1)) with hJ
  set key₂ := Function.update (Function.update σ.jumpKey (n, 0) none) (n, 1) none with hkey₂
  have hlen₂ : (J n).length + 1 ≤ τ.fuel :=
    (Nat.succ_le_succ (List.length_filter_le _ _)).trans (hlen₁ n)
  have htags : ∀ a ∈ J n, a.2 < 2 := fun a ha =>
    (jumpKey_some ((h.jumps.mem n a).1 (List.mem_of_mem_filter (List.mem_of_mem_filter ha)))).2.1
  have hreset := resetJumps_spec (σ := { τ with jmp := jmp₂ }) (hrings₂.seg n hn) (hrings₂.nodup n) htags hlen₂
  have hkeys : (fun a => if (σ.live a.1 = true ∧ a.1 ≠ n) ∧ a.2 < 2 then
      (if a ∈ J n then none else τ.jmpTarget a) else none) = fun a => if key₂ a = some n then none else key₂ a := by
    funext ⟨m, k⟩
    have hmem : (m, k) ∈ J n ↔ key₂ (m, k) = some n := hrings₂.mem n (m, k)
    by_cases hm : m = n
    · subst hm
      have hnone : key₂ (m, k) = none := by
        match k with
        | 0 => simp [hkey₂]
        | 1 => simp [hkey₂]
        | k + 2 => simp [hkey₂, State.jumpKey]
      simp [hnone]
    · have hsame : key₂ (m, k) = σ.jumpKey (m, k) := by simp [hkey₂, hm]
      simp only [hmem]
      rw [hsame, State.jumpKey, htarget]
      by_cases hlive : σ.live m = true ∧ k < 2
      · simp only [hlive, ne_eq, hm, not_false_eq_true, and_self, if_true]
      · simp only [ne_eq, hm, not_false_eq_true, and_true, hlive, if_false, reduceCtorEq]
  refine ⟨_, _, Function.update J n [], by
    rw [hremove₁, Option.bind_some, hremove₂, Option.bind_some]; exact hreset, ?_, fun a k ha hk => ?_⟩
  · rw [hkeys]
    refine hrings₂.drop injective_jmpFirst fun a ha hne => ?_
    rw [Function.update_of_ne hne]
    exact if_neg ha
  · dsimp only
    split
    · simp
    · rw [hother₂ (a, k) (by simp [ha.2]), hother₁ (a, k) (by simp [ha.2]), hjmp, htarget]
      exact h.free a k ha.1 hk

theorem tbPhysInvalidate_eq (σ : State t) (n : ℕ) : σ.tbPhysInvalidate n =
    (σ.tbRemove (tbPhysHashFunc (σ.tbs n).physPc) n).bind fun τ =>
      ((τ.tbPageRemoveSet (σ.tbs n).pageAddr0 n).bind fun τ =>
        τ.tbPageRemoveSet (σ.tbs n).pageAddr1 n).bind fun τ =>
      ((τ.tbJmpRemove n 0).bind fun τ => (τ.tbJmpRemove n 1).bind fun τ =>
        State.resetJumps τ.fuel (τ.jmp (n, 2)) τ).bind fun τ =>
      some { τ with jmp := Function.update τ.jmp (n, 2) (some (n, 2)), live := Function.update τ.live n false } := by
  simp only [Option.bind_assoc]
  rfl

/-- A live block can be invalidated, and is then in no list. -/
theorem Integrity.tbPhysInvalidate (h : Integrity σ l) (hn : σ.live n = true) :
    ∃ σ' l', σ.tbPhysInvalidate n = some σ' ∧ Integrity σ' l' ∧ σ'.tbs = σ.tbs ∧
      σ'.live = Function.update σ.live n false ∧ (∀ p, (l'.pages p).Sublist (l.pages p)) ∧
      ∀ j, σ'.pageNext (n, j) = σ.pageNext (n, j) := by
  obtain ⟨next, head, hash, hremove, hhash⟩ := tbRemove_spec h hn
  have hkey : ∀ k, σ.pageKey (n, k) = pageAddr (σ.tbs n) k := fun k => if_pos hn
  obtain ⟨pageNext, first, pages, hpages, hchains, hsub, hsame⟩ :=
    tbPageRemove_both (σ := { σ with physHashNext := next, tbPhysHash := head }) h.pages hkey
      (page_ne_noPage (h.aligned n hn)) fun p => Nat.le_of_succ_le (h.pages_length p)
  obtain ⟨jmp, target, jumps, hjumps, hrings, hfree⟩ :=
    jumps_removed (τ := { σ with physHashNext := next, tbPhysHash := head, pageNext := pageNext, firstTb := first })
      h hn rfl rfl rfl
  let σ' : State t := { σ with
    physHashNext := next
    tbPhysHash := head
    pageNext := pageNext
    firstTb := first
    jmp := Function.update jmp (n, 2) (some (n, 2))
    jmpTarget := target
    live := Function.update σ.live n false }
  have hlive : σ'.live = Function.update σ.live n false := rfl
  refine ⟨σ', ⟨hash, pages, jumps⟩, by
      rw [tbPhysInvalidate_eq, hremove, Option.bind_some, hpages, Option.bind_some, hjumps, Option.bind_some],
    ⟨fun m hm => ?_, fun m hm => ?_, ?_, ?_, ?_, fun a k ha hk => ?_⟩, rfl, rfl, hsub, hsame⟩
  · exact h.bound m (live_remove m |>.1 hm).1
  · exact h.aligned m (live_remove m |>.1 hm).1
  · rw [hashKey_removed hlive rfl]
    exact hhash
  · rw [pageKey_removed hlive rfl]
    exact hchains
  · rw [jumpKey_removed hlive]
    simp only [hlive, live_remove]
    exact hrings
  · have hne : (a, k) ≠ (n, 2) := fun heq => by
      rw [Prod.mk.injEq] at heq
      omega
    show Function.update jmp (n, 2) (some (n, 2)) (a, k) = none ↔ target (a, k) = none
    rw [Function.update_of_ne hne]
    exact hfree a k ((live_remove a).1 ha) hk

end Invalidate

/-! ### Invalidation of a range -/

section Range

variable {l : Lists t} {start stop : ℕ} {p : Addr t}

/-- No block has both of its parts on page `p` and in the range. -/
def Single (σ : State t) (start stop : ℕ) (p : Addr t) : Prop :=
  ∀ n, σ.live n = true → (σ.tbs n).pageAddr0 = p → (σ.tbs n).pageAddr1 = p →
    ¬ (Overlaps (σ.tbs n) 0 start stop ∧ Overlaps (σ.tbs n) 1 start stop)

/-- What the loop still has to visit: the rest of the page list, or before it a pointer to a
block that has been invalidated through its other pointer and is passed over. -/
def Rest (σ : State t) (l : Lists t) (start stop : ℕ) (p : Addr t) (xs : List (ℕ × ℕ)) : Prop :=
  (∃ pre, l.pages p = pre ++ xs) ∨
    ∃ n k ys, xs = (n, k) :: ys ∧ ¬ Overlaps (σ.tbs n) k start stop ∧ ∃ pre, l.pages p = pre ++ ys

theorem pages_filter {l' : Lists t} (h : Integrity σ l) (h' : Integrity σ' l')
    (hlive : σ'.live = Function.update σ.live n false) (htbs : σ'.tbs = σ.tbs)
    (hsub : (l'.pages p).Sublist (l.pages p)) : l'.pages p = (l.pages p).filter (·.1 ≠ n) := by
  refine eq_filter_of_sublist hsub (h.pages.nodup p) fun a ha => ?_
  rw [h'.pages.mem, pageKey_removed hlive htbs, decide_eq_true_eq]
  by_cases han : a.1 = n
  · simp [han]
  · simp [han, (h.pages.mem p a).1 ha]

/-- When both pointers to a block are in one page list, only one of its parts is in the range. -/
theorem Single.other (hsingle : Single σ start stop p) (h : Integrity σ l) {k k' : ℕ} (hk : (n, k) ∈ l.pages p)
    (hk' : (n, k') ∈ l.pages p) (hne : k ≠ k') (hover : Overlaps (σ.tbs n) k start stop) :
    ¬ Overlaps (σ.tbs n) k' start stop := by
  obtain ⟨hlive, haddr⟩ := pageKey_some ((h.pages.mem p _).1 hk)
  obtain ⟨-, haddr'⟩ := pageKey_some ((h.pages.mem p _).1 hk')
  have hzero : pageAddr (σ.tbs n) 0 = some p → (σ.tbs n).pageAddr0 = p := Option.some.inj
  have hone : pageAddr (σ.tbs n) 1 = some p → (σ.tbs n).pageAddr1 = p := fun h => by
    rw [pageAddr] at h
    split at h
    · exact absurd h (by simp)
    · exact Option.some.inj h
  have hlt := pageAddr_lt haddr
  have hlt' := pageAddr_lt haddr'
  have hcases : (k = 0 ∧ k' = 1) ∨ (k = 1 ∧ k' = 0) := by
    dsimp only at hlt hlt'
    omega
  rcases hcases with ⟨rfl, rfl⟩ | ⟨rfl, rfl⟩
  · exact fun hover' => hsingle n hlive (hzero haddr) (hone haddr') ⟨hover, hover'⟩
  · exact fun hover' => hsingle n hlive (hzero haddr') (hone haddr) ⟨hover', hover⟩

/-- The rest of the walk after a block of the list has been invalidated. The other pointer to the block may be next in it. -/
theorem rest_removed {l' : Lists t} (h : Integrity σ l) (h' : Integrity σ' l')
    (hlive : σ'.live = Function.update σ.live n false) (htbs : σ'.tbs = σ.tbs)
    (hsub : ∀ q, (l'.pages q).Sublist (l.pages q)) (hsame : ∀ j, σ'.pageNext (n, j) = σ.pageNext (n, j))
    {k : ℕ} {pre ys : List (ℕ × ℕ)} (hpages : l.pages p = pre ++ (n, k) :: ys)
    (hseg : Seg σ.pageNext (σ.pageNext (n, k)) ys none) :
    ∃ xs, xs.length ≤ ys.length ∧ (∀ a ∈ ys, a.1 ≠ n → a ∈ xs) ∧ Seg σ'.pageNext (σ.pageNext (n, k)) xs none ∧
      ((∃ pre, l'.pages p = pre ++ xs) ∨
        ∃ j zs, xs = (n, j) :: zs ∧ k ≠ j ∧ (n, j) ∈ l.pages p ∧ ∃ pre, l'.pages p = pre ++ zs) := by
  have hnodup := h.pages.nodup p
  have hfilter := pages_filter h h' hlive htbs (hsub p)
  rw [hpages, List.filter_append, List.filter_cons_of_neg (by simp)] at hfilter
  have hseg' := h'.pages.seg p
  rw [hfilter] at hseg'
  obtain ⟨q, -, hsegys⟩ := seg_append.1 hseg'
  cases ys with
  | nil => exact ⟨[], le_rfl, fun a ha _ => ha, hseg, .inl ⟨_, (List.append_nil _).symm⟩⟩
  | cons a ys =>
    obtain ⟨m, j⟩ := a
    by_cases hm : m = n
    · -- the other pointer to the block is next
      subst hm
      have hmem : ∀ i, (m, i) ∈ (m, k) :: (m, j) :: ys → (m, i) ∈ l.pages p := fun i hi => by
        rw [hpages]
        exact List.mem_append_right pre hi
      rw [hpages] at hnodup
      obtain ⟨hk, hnodup⟩ := List.nodup_cons.1 (List.nodup_append.1 hnodup).2.1
      obtain ⟨hj, -⟩ := List.nodup_cons.1 hnodup
      have hkj : k ≠ j := by
        rintro rfl
        exact hk List.mem_cons_self
      have htag : ∀ i, (m, i) ∈ l.pages p → i < 2 := fun i hi => pageAddr_lt (pageKey_some ((h.pages.mem p _).1 hi)).2
      have hk2 := htag k (hmem k List.mem_cons_self)
      have hj2 := htag j (hmem j (List.mem_cons_of_mem _ List.mem_cons_self))
      have hrest : ys.filter (·.1 ≠ m) = ys := by
        refine List.filter_eq_self.2 fun a ha => ?_
        rw [decide_eq_true_eq]
        rintro rfl
        have hlt := htag a.2 (hmem a.2 (List.mem_cons_of_mem _ (List.mem_cons_of_mem _ ha)))
        have hak : a.2 ≠ k := fun heq => hk (List.mem_cons_of_mem _ (heq ▸ ha))
        have haj : a.2 ≠ j := fun heq => hj (heq ▸ ha)
        omega
      rw [List.filter_cons_of_neg (by simp), hrest] at hfilter hsegys
      have hother := hmem j (List.mem_cons_of_mem _ List.mem_cons_self)
      refine ⟨(m, j) :: ys, le_rfl, fun a ha _ => ha, ⟨hseg.1, ?_⟩, .inr ⟨j, ys, rfl, hkj, hother, _, hfilter⟩⟩
      rw [hsame j, hseg.2.start_eq hsegys]
      exact hsegys
    · rw [List.filter_cons_of_pos (by simpa using hm)] at hfilter hsegys
      refine ⟨(m, j) :: ys.filter (·.1 ≠ n), ?_, fun a ha hne => ?_, ?_, .inl ⟨_, hfilter⟩⟩
      · exact Nat.succ_le_succ (List.length_filter_le _ _)
      · rcases List.mem_cons.1 ha with rfl | ha
        · exact List.mem_cons_self
        · exact List.mem_cons_of_mem _ (List.mem_filter.2 ⟨ha, by simpa using hne⟩)
      · rw [hseg.1, ← hsegys.1]
        exact hsegys

theorem rest_invalidated {l' : Lists t} (h : Integrity σ l) (h' : Integrity σ' l')
    (hlive : σ'.live = Function.update σ.live n false) (htbs : σ'.tbs = σ.tbs)
    (hsub : ∀ q, (l'.pages q).Sublist (l.pages q)) (hsame : ∀ j, σ'.pageNext (n, j) = σ.pageNext (n, j))
    (hsingle : Single σ start stop p) {k : ℕ} {pre ys : List (ℕ × ℕ)} (hpages : l.pages p = pre ++ (n, k) :: ys)
    (hover : Overlaps (σ.tbs n) k start stop) (hseg : Seg σ.pageNext (σ.pageNext (n, k)) ys none) :
    ∃ xs, xs.length ≤ ys.length ∧ (∀ a ∈ ys, a.1 ≠ n → a ∈ xs) ∧
      Seg σ'.pageNext (σ.pageNext (n, k)) xs none ∧ Rest σ' l' start stop p xs := by
  obtain ⟨xs, hlen, hmem, hseg', hrest⟩ := rest_removed h h' hlive htbs hsub hsame hpages hseg
  refine ⟨xs, hlen, hmem, hseg', ?_⟩
  rcases hrest with hpre | ⟨j, zs, hxs, hkj, hj, hpre⟩
  · exact .inl hpre
  · refine .inr ⟨n, j, zs, hxs, ?_, hpre⟩
    rw [htbs]
    exact hsingle.other h (by rw [hpages]; simp) hj hkj hover

/-- The blocks are those from before, and those with one of the pointers in the range are gone. -/
structure Cleared (σ σ' : State t) (start stop : ℕ) (xs : List (ℕ × ℕ)) : Prop where
  tbs : σ'.tbs = σ.tbs
  live : ∀ m, σ'.live m = true → σ.live m = true
  gone : ∀ a ∈ xs, Overlaps (σ.tbs a.1) a.2 start stop → σ'.live a.1 = false

/-- The loop of `tb_invalidate_phys_page_range` ends, keeps the lists, and clears the range. -/
theorem rangeLoop_spec : ∀ {fuel : ℕ} {σ : State t} {l : Lists t} {cur : Option (ℕ × ℕ)} {xs : List (ℕ × ℕ)},
    Integrity σ l → Single σ start stop p → Seg σ.pageNext cur xs none → Rest σ l start stop p xs →
    xs.length < fuel →
    ∃ σ' l', State.rangeLoop start stop fuel cur σ = some σ' ∧ Integrity σ' l' ∧ Cleared σ σ' start stop xs
  | fuel + 1, σ, l, _, [], h, _, hseg, _, _ => by
    rw [show _ = none from hseg]
    exact ⟨σ, l, rfl, h, rfl, fun _ hm => hm, fun a ha => absurd ha List.not_mem_nil⟩
  | fuel + 1, σ, l, _, (n, k) :: ys, h, hsingle, ⟨hcur, hseg⟩, hrest, hlen => by
    have hlen : ys.length < fuel := Nat.lt_of_succ_lt_succ hlen
    rw [hcur, State.rangeLoop]
    by_cases hover : Overlaps (σ.tbs n) k start stop
    · rw [if_pos hover]
      have hlist : ∃ pre, l.pages p = pre ++ (n, k) :: ys := by
        rcases hrest with hpre | ⟨m, j, zs, heq, hnot, -⟩
        · exact hpre
        · cases heq
          exact absurd hover hnot
      obtain ⟨pre, hpages⟩ := hlist
      have hlive : σ.live n = true :=
        (pageKey_some ((h.pages.mem p (n, k)).1 (by rw [hpages]; simp))).1
      obtain ⟨σ', l', hinv, h', htbs, hlive', hsub, hsame⟩ := h.tbPhysInvalidate hlive
      obtain ⟨xs, hxs, hmem, hseg', hrest'⟩ :=
        rest_invalidated h h' hlive' htbs hsub hsame hsingle hpages hover hseg
      have hsingle' : Single σ' start stop p := fun m hm => by
        rw [htbs]
        rw [hlive'] at hm
        exact hsingle m ((live_remove m).1 hm).1
      obtain ⟨τ, lτ, hloop, hτ, hclear⟩ := rangeLoop_spec h' hsingle' hseg' hrest' (hxs.trans_lt hlen)
      have hdead : τ.live n = false := by
        rw [Bool.eq_false_iff]
        intro hn
        have hn' := hclear.live n hn
        rw [hlive'] at hn'
        exact ((live_remove n).1 hn').2 rfl
      rw [hinv, Option.bind_some]
      refine ⟨τ, lτ, hloop, hτ, hclear.tbs.trans htbs, fun m hm => ?_, fun a ha hover' => ?_⟩
      · have hm' := hclear.live m hm
        rw [hlive'] at hm'
        exact ((live_remove m).1 hm').1
      · by_cases han : a.1 = n
        · rw [han]
          exact hdead
        · rcases List.mem_cons.1 ha with rfl | ha
          · exact absurd rfl han
          · exact hclear.gone a (hmem a ha han) (by rwa [htbs])
    · rw [if_neg hover]
      have hrest' : Rest σ l start stop p ys := by
        rcases hrest with ⟨pre, hpages⟩ | ⟨m, j, zs, heq, -, hpre⟩
        · exact .inl ⟨pre ++ [(n, k)], by rw [hpages, List.append_assoc, List.singleton_append]⟩
        · cases heq
          exact .inl hpre
      obtain ⟨τ, lτ, hloop, hτ, hclear⟩ := rangeLoop_spec h hsingle hseg hrest' hlen
      refine ⟨τ, lτ, hloop, hτ, hclear.tbs, hclear.live, fun a ha hover' => ?_⟩
      rcases List.mem_cons.1 ha with rfl | ha
      · exact absurd hover' hover
      · exact hclear.gone a ha hover'

theorem Integrity.tbInvalidatePhysPageRange (h : Integrity σ l)
    (hsingle : Single σ start stop (page (BitVec.ofNat _ start))) :
    ∃ σ' l', σ.tbInvalidatePhysPageRange start stop = some σ' ∧ Integrity σ' l' ∧
      Cleared σ σ' start stop (l.pages (page (BitVec.ofNat _ start))) :=
  rangeLoop_spec h hsingle (h.pages.seg _) (.inl ⟨[], rfl⟩) (h.pages_length _)

theorem tbPhysInvalidate_dead (h : Integrity σ l) (hn : σ.live n = false) : σ.tbPhysInvalidate n = none := by
  have hfind : findNode σ.physHashNext (· == n) σ.fuel none (σ.tbPhysHash (tbPhysHashFunc (σ.tbs n).physPc)) = none := by
    refine findNode_none (h.hash.seg _) (fun a ha => ?_) _ _
    rw [beq_eq_false_iff_ne]
    rintro rfl
    have hlive := (hashKey_some ((h.hash.mem _ _).1 ha)).1
    exact absurd (hn.symm.trans hlive) (by decide)
  simp [State.tbPhysInvalidate, State.tbRemove, unlink, hfind]

/-- What the loop still has to visit when blocks may have both parts in the range: before the rest of the page list, maybe a
pointer to a block that is not live. -/
def RestDead (σ : State t) (l : Lists t) (p : Addr t) (xs : List (ℕ × ℕ)) : Prop :=
  (∃ pre, l.pages p = pre ++ xs) ∨ ∃ n k ys, xs = (n, k) :: ys ∧ σ.live n = false ∧ ∃ pre, l.pages p = pre ++ ys

/-- A loop of `tb_invalidate_phys_page_range` that ends keeps the lists. -/
theorem rangeLoop_done : ∀ {fuel : ℕ} {σ σ' : State t} {l : Lists t} {cur : Option (ℕ × ℕ)} {xs : List (ℕ × ℕ)},
    Integrity σ l → Seg σ.pageNext cur xs none → RestDead σ l p xs → State.rangeLoop start stop fuel cur σ = some σ' →
    (∃ l', Integrity σ' l') ∧ σ'.tbs = σ.tbs ∧ ∀ m, σ'.live m = true → σ.live m = true
  | 0, σ, σ', l, _, _, _, _, _, hloop => by cases hloop
  | fuel + 1, σ, σ', l, _, [], h, hseg, _, hloop => by
    rw [show _ = none from hseg] at hloop
    cases hloop
    exact ⟨⟨l, h⟩, rfl, fun _ hm => hm⟩
  | fuel + 1, σ, σ', l, _, (n, k) :: ys, h, ⟨hcur, hseg⟩, hrest, hloop => by
    rw [hcur, State.rangeLoop] at hloop
    by_cases hover : Overlaps (σ.tbs n) k start stop
    · rw [if_pos hover] at hloop
      obtain ⟨τ, hinv, hloop⟩ := Option.bind_eq_some_iff.1 hloop
      have hlive : σ.live n = true := by
        by_contra hdead
        rw [tbPhysInvalidate_dead h (by simpa using hdead)] at hinv
        cases hinv
      have hlist : ∃ pre, l.pages p = pre ++ (n, k) :: ys := by
        rcases hrest with hpre | ⟨m, j, zs, heq, hdead, -⟩
        · exact hpre
        · cases heq
          exact absurd (hdead.symm.trans hlive) (by decide)
      obtain ⟨pre, hpages⟩ := hlist
      obtain ⟨σ₁, l₁, hinv', h₁, htbs, hlive₁, hsub, hsame⟩ := h.tbPhysInvalidate hlive
      cases hinv'.symm.trans hinv
      obtain ⟨xs, -, -, hseg₁, hrest₁⟩ := rest_removed h h₁ hlive₁ htbs hsub hsame hpages hseg
      have hdead : τ.live n = false := by rw [hlive₁, Function.update_self]
      have hrest₁ : RestDead τ l₁ p xs := by
        rcases hrest₁ with hpre | ⟨j, zs, hxs, -, -, hpre⟩
        · exact .inl hpre
        · exact .inr ⟨n, j, zs, hxs, hdead, hpre⟩
      obtain ⟨hl', htbs', hlive'⟩ := rangeLoop_done h₁ hseg₁ hrest₁ hloop
      refine ⟨hl', htbs'.trans htbs, fun m hm => ?_⟩
      have hm' := hlive' m hm
      rw [hlive₁] at hm'
      exact ((live_remove m).1 hm').1
    · rw [if_neg hover] at hloop
      refine rangeLoop_done h hseg (.inl ?_) hloop
      rcases hrest with ⟨pre, hpages⟩ | ⟨m, j, zs, heq, -, hpre⟩
      · exact ⟨pre ++ [(n, k)], by rw [hpages, List.append_assoc, List.singleton_append]⟩
      · cases heq
        exact hpre

end Range

/-! ### Runs -/

/-- Every operation that is called as it should be ends, and keeps the lists. -/
theorem integrity_step {l : Lists t} (h : Integrity σ l) (op : Op t) (hok : Ok σ op) :
    ∃ σ', step σ op = some σ' ∧ ∃ l', Integrity σ' l' := by
  cases op with
  | alloc maxBlocks pc size bufferFull => exact ⟨_, rfl, l, h.tbAlloc maxBlocks pc size bufferFull⟩
  | linkPhys n page1 page2 =>
    refine ⟨_, rfl, h.tbLinkPhys hok.1 hok.2 ?_⟩
    rw [page_add_offset page1.aligned]
  | addJump n k next => exact ⟨_, rfl, h.tbAddJump hok.1 hok.2.1 hok.2.2⟩
  | physInvalidate n =>
    obtain ⟨σ', l', hinv, h', -⟩ := h.tbPhysInvalidate hok
    exact ⟨σ', hinv, l', h'⟩
  | invalidateRange start stop =>
    obtain ⟨σ', l', hinv, h', -⟩ := h.tbInvalidatePhysPageRange hok
    exact ⟨σ', hinv, l', h'⟩
  | free n => exact ⟨_, rfl, l, h.tbFree hok⟩
  | flush => exact ⟨_, rfl, _, integrity_tbFlush σ⟩

/-- Integrity of the translation block cache: in every run whose operations are called as
they should be, no walk fails, and in every state the lists hold each live block once where it
should be, each patched jump once in the list of its target, and nothing else. -/
theorem tbLists_integrity (ops : List (Op t)) (hok : MeetsM step Ok State.init ops) (n : ℕ) :
    ∃ σ, (ops.take n).foldlM step State.init = some σ ∧ ∃ l, Integrity σ l :=
  foldlM_take_total (P := fun σ => ∃ l, Integrity σ l) (fun _ op ⟨_, h⟩ hop => integrity_step h op hop) ops _
    ⟨_, integrity_init⟩ hok n

def page0 : PhysPage target32 := ⟨0, page_zero⟩

/-- A block of two instructions at the end of a page, with both of its pages mapped to the
same physical page, and a write to the start of this page. -/
def aliased (stop : ℕ) : List (Op target32) :=
  [.alloc 8 0xffc 8 false, .linkPhys 0 page0 (some page0), .invalidateRange 0 stop]

/-- A write to the second instruction invalidates the block. -/
theorem tbLists_integrity_aliased : ∃ σ, (aliased 4).foldlM step State.init = some σ ∧ ∃ l, Integrity σ l := by
  refine tbLists_integrity (aliased 4) ⟨trivial, fun σ₁ h₁ => ?_⟩ 3
  cases h₁
  refine ⟨⟨by decide, rfl⟩, fun σ₂ h₂ => ⟨fun n hlive _ _ => ?_, fun _ _ => trivial⟩⟩
  cases h₂
  obtain rfl : n = 0 := by
    by_contra hn
    rw [(tbLinkPhys_fields _ _ _ _).1, Function.update_of_ne hn] at hlive
    simp [State.tbAlloc, State.init] at hlive
  decide

/-- A write to the whole page invalidates it twice, and the second walk along the chain does
not find it. -/
theorem aliased_removed_twice : (aliased 4096).foldlM step State.init = none := by
  rfl

end Ar7Qemu.Exec.TbLists
