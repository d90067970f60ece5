import Ar7Qemu.Tcg.Liveness
import Ar7Qemu.Tcg.Semantics

/-! Dead-code elimination preserves meaning. The stream that `tcg_liveness_analysis`
leaves runs in lockstep with the original one: the two states agree on every variable that
is live at the current operation, and hence on everything that can be observed. An input
that is marked dead is not read again before it is overwritten. -/

namespace Ar7Qemu.Tcg

/-! ### The pass -/

section Pass

variable {s : TCGContext} {c : Config}

/-- Operations that the pass treats by themselves. -/
def handled : Opc → Bool
  | .opEnd | .nopn | .debugInsnStart | .setLabel | .discard => true
  | _ => false

theorem laStep_other {ins : Instr} (h : handled ins.opc = false) (dead : Dead) :
    laStep s c ins dead = if removable c ins && (ins.outputs c).all dead then (tcgSetNop ins, dead, none)
      else (ins, (markInputs (ins.dummy c) (ins.inputs c) 0 (deadAtInputs s c ins dead)).2,
        some (markInputs (ins.dummy c) (ins.inputs c) 0 (deadAtInputs s c ins dead)).1) := by
  obtain ⟨opc, args⟩ := ins
  cases opc <;> first | rfl | exact absurd h.symm Bool.false_ne_true

theorem mem_uses {ins : Instr} {x : ℕ} : x ∈ ins.uses c ↔ x ∈ ins.inputs c ∧ some x ≠ ins.dummy c := by
  by_cases hcall : ins.opc = .call
  · simp [Instr.uses, Instr.dummy, hcall]
  · have huses : ins.uses c = ins.inputs c := by
      unfold Instr.uses
      split
      · contradiction
      · rfl
    simp [huses, Instr.dummy, hcall]

theorem markInputs_live (dummy : Option ℕ) (x : ℕ) : ∀ (xs : List ℕ) (i : ℕ) (dead : Dead),
    (markInputs dummy xs i dead).2 x = false ↔ (x ∈ xs ∧ some x ≠ dummy) ∨ dead x = false
  | [], _, _ => by simp [markInputs]
  | y :: xs, i, dead => by
    rw [markInputs]
    by_cases hy : some y = dummy
    · rw [if_pos hy, markInputs_live dummy x xs]
      constructor
      · rintro (⟨hx, hd⟩ | hd)
        · exact .inl ⟨List.mem_cons_of_mem _ hx, hd⟩
        · exact .inr hd
      · rintro (⟨hx, hd⟩ | hd)
        · rcases List.mem_cons.1 hx with rfl | hx
          · exact absurd hy hd
          · exact .inl ⟨hx, hd⟩
        · exact .inr hd
    · rw [if_neg hy]
      show (markInputs dummy xs (i + 1) (Function.update dead y false)).2 x = false ↔ _
      rw [markInputs_live dummy x xs]
      by_cases hxy : x = y
      · subst hxy
        simp [hy]
      · simp [hxy]

/-- A bit of the mask is set only for an input that was dead. -/
theorem markInputs_mask (dummy : Option ℕ) (b : ℕ) : ∀ (xs : List ℕ) (i : ℕ) (dead : Dead),
    (markInputs dummy xs i dead).1.getLsbD b = true → ∃ x, xs[b - i]? = some x ∧ dead x = true ∧ i ≤ b
  | [], _, _, h => by simp [markInputs] at h
  | y :: xs, i, dead, h => by
    rw [markInputs] at h
    by_cases hy : some y = dummy
    · rw [if_pos hy] at h
      obtain ⟨x, hx, hdead, hi⟩ := markInputs_mask dummy b xs (i + 1) dead h
      exact ⟨x, by rw [show b - i = b - (i + 1) + 1 by omega]; exact hx, hdead, by omega⟩
    · rw [if_neg hy] at h
      simp only [BitVec.getLsbD_or, Bool.or_eq_true] at h
      rcases h with h | h
      · by_cases hd : dead y = true
        · rw [if_pos hd, BitVec.getLsbD_twoPow] at h
          obtain rfl : i = b := by simpa using (Bool.and_eq_true_iff.1 h).2
          exact ⟨y, by simp, hd, le_rfl⟩
        · rw [if_neg hd] at h
          simp at h
      · obtain ⟨x, hx, hdead, hi⟩ := markInputs_mask dummy b xs (i + 1) _ h
        refine ⟨x, by rw [show b - i = b - (i + 1) + 1 by omega]; exact hx, ?_, by omega⟩
        by_cases hxy : x = y
        · subst hxy
          simp at hdead
        · rwa [Function.update_of_ne hxy] at hdead

theorem live_kept {ins : Instr} (h : handled ins.opc = false) {dead : Dead}
    (hkept : ¬ (removable c ins && (ins.outputs c).all dead) = true) (x : ℕ) :
    (laStep s c ins dead).2.1 x = false ↔ x ∈ ins.uses c ∨ deadAtInputs s c ins dead x = false := by
  rw [laStep_other h, if_neg hkept, mem_uses]
  exact markInputs_live _ _ _ _ _

theorem deadAtInputs_call {ins : Instr} (h : ins.opc = .call) (dead : Dead) :
    deadAtInputs s c ins dead = if ins.isConst then markDead (ins.outputs c) dead
      else globalsLive s (markDead (ins.outputs c) dead) := by
  simp only [deadAtInputs, h]

theorem deadAtInputs_op {ins : Instr} (h : ins.opc ≠ .call) (dead : Dead) :
    deadAtInputs s c ins dead = if (tcgOpDefs c ins.opc).bbEnd then tcgLaBbEnd s
      else if (tcgOpDefs c ins.opc).callClobber then globalsLive s (markDead (ins.outputs c) dead)
      else markDead (ins.outputs c) dead := by
  obtain ⟨opc, args⟩ := ins
  cases opc <;> first | rfl | exact absurd rfl h

/-- What is live after an operation that is kept and is not one of its outputs is live when
its inputs are read, unless it is lost at the end of a basic block. -/
theorem live_through {ins : Instr} {dead : Dead} {x : ℕ} (hx : dead x = false) (hout : x ∉ ins.outputs c)
    (hkeep : s.keeps x = true ∨ ins.opc = .call ∨ (tcgOpDefs c ins.opc).bbEnd = false) :
    deadAtInputs s c ins dead x = false := by
  have hmark : markDead (ins.outputs c) dead x = false := by rw [markDead, if_neg hout, hx]
  have hglobals : globalsLive s (markDead (ins.outputs c) dead) x = false := by
    rw [globalsLive]
    split
    · rfl
    · exact hmark
  by_cases hcall : ins.opc = .call
  · rw [deadAtInputs_call hcall]
    split
    · exact hmark
    · exact hglobals
  · rw [deadAtInputs_op hcall]
    split
    · rename_i hend
      rcases hkeep with hkeep | hcall' | hend'
      · rw [tcgLaBbEnd, hkeep, Bool.not_true]
      · exact absurd hcall' hcall
      · rw [hend'] at hend
        exact absurd hend (by decide)
    · split
      · exact hglobals
      · exact hmark

theorem globals_live {ins : Instr} {dead : Dead} {x : ℕ} (hx : x < s.nbGlobals)
    (h : (ins.opc = .call ∧ ins.isConst = false) ∨ (ins.opc ≠ .call ∧ (tcgOpDefs c ins.opc).callClobber = true) ∨
      (ins.opc ≠ .call ∧ (tcgOpDefs c ins.opc).bbEnd = true)) :
    deadAtInputs s c ins dead x = false := by
  have hkeep : s.keeps x = true := by simp [TCGContext.keeps, hx]
  have hglobals : globalsLive s (markDead (ins.outputs c) dead) x = false := by rw [globalsLive, if_pos hx]
  rcases h with ⟨hcall, hconst⟩ | ⟨hcall, hclobber⟩ | ⟨hcall, hend⟩
  · rw [deadAtInputs_call hcall, hconst]
    exact hglobals
  · rw [deadAtInputs_op hcall]
    split
    · rw [tcgLaBbEnd, hkeep, Bool.not_true]
    · exact hglobals
  · rw [deadAtInputs_op hcall, if_pos hend, tcgLaBbEnd, hkeep, Bool.not_true]

theorem sideEffects_of_bbEnd (opc : Opc) (h : (tcgOpDefs c opc).bbEnd = true) :
    (tcgOpDefs c opc).sideEffects = true := by
  cases opc <;> first | rfl | exact absurd h (by simp [tcgOpDefs, plain])

theorem sideEffects_of_callClobber (opc : Opc) (h : (tcgOpDefs c opc).callClobber = true) :
    (tcgOpDefs c opc).sideEffects = true := by
  cases opc <;> first | rfl | exact absurd h (by simp [tcgOpDefs, plain])

end Pass

/-! ### Positions -/

section Positions

variable {s : TCGContext} {c : Config}

def optimised (s : TCGContext) (c : Config) (is : List Instr) : List Instr := (analysed s c is).map Prod.fst

theorem analysed_getElem? : ∀ (is : List Instr) (p : ℕ), (analysed s c is)[p]? =
    is[p]?.map fun ins => ((laStep s c ins (deadBefore s c (is.drop (p + 1)))).1,
      (laStep s c ins (deadBefore s c (is.drop (p + 1)))).2.2)
  | [], p => by simp [analysed]
  | ins :: is, 0 => by simp [analysed]
  | ins :: is, p + 1 => by simpa [analysed] using analysed_getElem? is p

theorem optimised_getElem? (is : List Instr) (p : ℕ) : (optimised s c is)[p]? =
    is[p]?.map fun ins => (laStep s c ins (deadBefore s c (is.drop (p + 1)))).1 := by
  rw [optimised, List.getElem?_map, analysed_getElem?, Option.map_map]
  rfl

theorem deadBefore_drop {is : List Instr} {p : ℕ} {ins : Instr} (h : is[p]? = some ins) :
    deadBefore s c (is.drop p) = (laStep s c ins (deadBefore s c (is.drop (p + 1)))).2.1 := by
  obtain ⟨hlt, rfl⟩ := List.getElem?_eq_some_iff.1 h
  rw [List.drop_eq_getElem_cons hlt, deadBefore]

/-- Labels stay where they are. -/
theorem label_laStep (ins : Instr) (dead : Dead) (label : ℕ) :
    (decide ((laStep s c ins dead).1.opc = .setLabel ∧ (laStep s c ins dead).1.args.headD 0 = label)) =
      decide (ins.opc = .setLabel ∧ ins.args.headD 0 = label) := by
  by_cases h : handled ins.opc = true
  · obtain ⟨opc, args⟩ := ins
    cases opc <;> first | exact absurd h Bool.false_ne_true | rfl
  · have hne : ins.opc ≠ .setLabel := by
      intro hl
      rw [hl] at h
      exact h rfl
    have hnop : (tcgSetNop ins).opc ≠ .setLabel := by
      unfold tcgSetNop
      split <;> simp
    rw [laStep_other (by simpa using h)]
    split
    · simp [hne, hnop]
    · rfl

theorem findLabel_optimised (is : List Instr) (label : ℕ) :
    findLabel (optimised s c is) label = findLabel is label := by
  induction is with
  | nil => rfl
  | cons ins is ih =>
    rw [findLabel, optimised, analysed, List.map_cons, List.findIdx_cons, findLabel, List.findIdx_cons,
      label_laStep]
    cases decide (ins.opc = .setLabel ∧ ins.args.headD 0 = label) with
    | true => rfl
    | false => exact congrArg (· + 1) ih

end Positions

/-! ### Agreement of values -/

section Agree

variable {s : TCGContext} {V : Type*} {v w : ℕ → V}

theorem assign_congr (f : ℕ → V) (x : ℕ) : ∀ (xs : List ℕ) (i : ℕ) (v w : ℕ → V),
    (x ∉ xs → v x = w x) → assign f xs i v x = assign f xs i w x
  | [], _, _, _, h => h List.not_mem_nil
  | y :: xs, i, v, w, h => by
    rw [assign, assign]
    apply assign_congr f x xs
    intro hx
    by_cases hxy : x = y
    · subst hxy
      simp
    · rw [Function.update_of_ne hxy, Function.update_of_ne hxy]
      exact h fun hmem => (List.mem_cons.1 hmem).elim hxy hx

theorem assign_of_not_mem (f : ℕ → V) {x : ℕ} : ∀ {xs : List ℕ} (i : ℕ) (v : ℕ → V), x ∉ xs →
    assign f xs i v x = v x
  | [], _, _, _ => rfl
  | y :: xs, i, v, hx => by
    rw [assign, assign_of_not_mem f (i + 1) _ fun h => hx (List.mem_cons_of_mem _ h)]
    apply Function.update_of_ne
    rintro rfl
    exact hx List.mem_cons_self

theorem globalsOf_congr (h : ∀ x < s.nbGlobals, v x = w x) : globalsOf s v = globalsOf s w :=
  funext fun g => h g g.isLt

theorem localsOf_congr (h : ∀ x, s.keeps x = true → v x = w x) : localsOf s v = localsOf s w := by
  funext x
  rw [localsOf, localsOf]
  split
  · rename_i hx
    rw [h x (by simp [TCGContext.keeps, hx])]
  · rfl

theorem keeps_of_lt {x : ℕ} (hx : x < s.nbGlobals) : s.keeps x = true := by
  simp [TCGContext.keeps, hx]

theorem endBlock_congr (junk : ℕ → V) (h : ∀ x, s.keeps x = true → v x = w x) :
    endBlock s junk v = endBlock s junk w := by
  funext x
  rw [endBlock, endBlock]
  split
  · rename_i hx
    exact h x hx
  · rfl

theorem setGlobals_congr (g : Fin s.nbGlobals → V) {x : ℕ} (h : v x = w x) :
    setGlobals s g v x = setGlobals s g w x := by
  rw [setGlobals, setGlobals]
  split
  · rfl
  · exact h

end Agree

/-! ### Lockstep -/

section Lockstep

variable {s : TCGContext} {c : Config} {W V : Type*} {m : Meaning s.nbGlobals W V} {lost : ℕ → ℕ → V}
  {is prog : List Instr} {σ τ : State s.nbGlobals W V} {ins : Instr}

/-- The two states of a run of a stream and of what the pass leaves of it. -/
structure Sim (s : TCGContext) (c : Config) (is : List Instr) (σ τ : State s.nbGlobals W V) : Prop where
  pc : τ.pc = σ.pc
  steps : τ.steps = σ.steps
  world : τ.world = σ.world
  events : τ.events = σ.events
  halted : τ.halted = σ.halted
  boundary : τ.boundary = σ.boundary
  live : σ.halted = false → ∀ x, deadBefore s c (is.drop σ.pc) x = false → τ.vals x = σ.vals x
  kept : σ.boundary = true → ∀ x, s.keeps x = true → τ.vals x = σ.vals x

theorem exec_op (h : handled ins.opc = false) (hcall : ins.opc ≠ .call) (hσ : σ.halted = false)
    (hins : prog[σ.pc]? = some ins) :
    exec s c m lost prog σ = execOp s c m lost prog ins ((ins.uses c).map σ.vals) σ := by
  rw [exec, if_neg (by simp [hσ]), hins]
  obtain ⟨opc, args⟩ := ins
  cases opc <;> first | rfl | exact absurd rfl hcall | exact absurd h (by simp [handled])

theorem exec_call (hcall : ins.opc = .call) (hσ : σ.halted = false) (hins : prog[σ.pc]? = some ins) :
    exec s c m lost prog σ = execCall s c m ins ((ins.uses c).map σ.vals) σ := by
  rw [exec, if_neg (by simp [hσ]), hins]
  simp only [hcall]

/-- A removable operation only sets its outputs. -/
theorem exec_removable (h : handled ins.opc = false) (hrem : removable c ins = true) (hσ : σ.halted = false)
    (hins : prog[σ.pc]? = some ins) :
    ∃ f, exec s c m lost prog σ = { σ.next with vals := assign f (ins.outputs c) 0 σ.vals } := by
  by_cases hcall : ins.opc = .call
  · have hpure : ins.isPure = true := by simpa only [removable, hcall] using hrem
    rw [exec_call hcall hσ hins, execCall, hpure]
    cases ins.isConst <;> exact ⟨_, rfl⟩
  · have hside : (tcgOpDefs c ins.opc).sideEffects = false := by
      obtain ⟨opc, args⟩ := ins
      cases opc
      case call => exact absurd rfl hcall
      all_goals first | rfl | exact absurd hrem (by simp [removable, tcgOpDefs, effect, ends, clobbers])
    have hend : ¬ (tcgOpDefs c ins.opc).bbEnd = true := fun he => by
      rw [sideEffects_of_bbEnd _ he] at hside
      exact absurd hside (by decide)
    have hclobber : ¬ (tcgOpDefs c ins.opc).callClobber = true := fun he => by
      rw [sideEffects_of_callClobber _ he] at hside
      exact absurd hside (by decide)
    rw [exec_op h hcall hσ hins, execOp]
    dsimp only
    rw [if_neg hend, if_neg hclobber, if_neg (by simp [hside])]
    exact ⟨_, rfl⟩

theorem exec_tcgSetNop (hσ : σ.halted = false) (hins : prog[σ.pc]? = some (tcgSetNop ins)) :
    exec s c m lost prog σ = σ.next := by
  unfold tcgSetNop at hins
  split at hins
  · rw [exec_op (by rfl) (by simp) hσ hins]
    rfl
  · rw [exec, if_neg (by simp [hσ]), hins]

theorem Sim.next (h : Sim s c is σ τ) {v w : ℕ → V} {world world' : W} {events events' : List (Event s.nbGlobals V)}
    {halted halted' : Bool} (hv : ∀ x, deadBefore s c (is.drop (σ.pc + 1)) x = false → w x = v x)
    (hworld : world' = world) (hevents : events' = events) (hhalted : halted' = halted) :
    Sim s c is { σ.next with vals := v, world := world, events := events, halted := halted }
      { τ.next with vals := w, world := world', events := events', halted := halted' } where
  pc := congrArg (· + 1) h.pc
  steps := congrArg (· + 1) h.steps
  world := hworld
  events := hevents
  halted := hhalted
  boundary := rfl
  live := fun _ => hv
  kept := fun hb => absurd hb (by simp [State.next])

theorem Sim.refl (σ : State s.nbGlobals W V) : Sim s c is σ σ :=
  ⟨rfl, rfl, rfl, rfl, rfl, rfl, fun _ _ _ => rfl, fun _ _ _ => rfl⟩

/-- The same is observed where globals and local temporaries agree. -/
theorem Sim.observe (h : Sim s c is σ τ) (ins : Instr) (inputs : List V) (sync block : Bool)
    (hsync : sync = true → ∀ x < s.nbGlobals, τ.vals x = σ.vals x)
    (hblock : block = true → ∀ x, s.keeps x = true → τ.vals x = σ.vals x) :
    (τ.observe s c ins inputs sync block).events = (σ.observe s c ins inputs sync block).events := by
  have hglobals : (if sync then some (globalsOf s τ.vals) else none) =
      if sync then some (globalsOf s σ.vals) else none := by
    split
    · rename_i hs
      rw [globalsOf_congr (hsync hs)]
    · rfl
  have hlocals : (if block then some (localsOf s τ.vals) else none) =
      if block then some (localsOf s σ.vals) else none := by
    split
    · rename_i hb
      rw [localsOf_congr (hblock hb)]
    · rfl
  simp only [State.observe, h.pc, h.events, hglobals, hlocals]

/-- Operations that the pass treats by themselves. -/
theorem sim_handled (h : Sim s c is σ τ) (hσ : σ.halted = false) (hins : is[σ.pc]? = some ins)
    (hh : handled ins.opc = true) :
    Sim s c is (exec s c m lost is σ) (exec s c m lost (optimised s c is) τ) := by
  have hτ : τ.halted = false := by rw [h.halted, hσ]
  have hlive := h.live hσ
  rw [deadBefore_drop hins] at hlive
  have hopt : (optimised s c is)[τ.pc]? = some ins := by
    rw [optimised_getElem?, h.pc, hins]
    obtain ⟨opc, args⟩ := ins
    cases opc <;> first | rfl | exact absurd hh (by simp [handled])
  rw [exec, if_neg (by simp [hσ]), hins, exec, if_neg (by simp [hτ]), hopt]
  obtain ⟨opc, args⟩ := ins
  cases opc
  case opEnd =>
    exact ⟨h.pc, h.steps, h.world, h.events, rfl, h.boundary, fun hf => absurd hf (by simp), h.kept⟩
  case nopn | debugInsnStart => exact h.next hlive h.world h.events h.halted
  case setLabel =>
    have hkept : ∀ x, s.keeps x = true → τ.vals x = σ.vals x := fun x hx =>
      hlive x (by simp [laStep, tcgLaBbEnd, hx])
    refine h.next (fun x _ => ?_) h.world
      (h.observe _ [] true true (fun _ x hx => hkept x (keeps_of_lt hx)) fun _ => hkept) h.halted
    rw [h.steps, endBlock_congr _ hkept]
  case discard =>
    refine h.next (fun x hx => ?_) h.world h.events h.halted
    rw [h.steps]
    split
    · rfl
    · rename_i hne
      exact hlive x (by simp only [laStep, markDead, if_neg hne, hx])
  all_goals exact absurd hh (by simp [handled])

theorem sim_call (h : Sim s c is σ τ) (hσ : σ.halted = false) (hins : is[σ.pc]? = some ins)
    (hopt : (optimised s c is)[τ.pc]? = some ins) (hcall : ins.opc = .call)
    (huses : ∀ x ∈ ins.uses c, τ.vals x = σ.vals x)
    (hlive : ∀ x, deadAtInputs s c ins (deadBefore s c (is.drop (σ.pc + 1))) x = false → τ.vals x = σ.vals x) :
    Sim s c is (exec s c m lost is σ) (exec s c m lost (optimised s c is) τ) := by
  have hτ : τ.halted = false := by rw [h.halted, hσ]
  have hinputs : (ins.uses c).map τ.vals = (ins.uses c).map σ.vals := List.map_congr_left huses
  have hpass : ∀ x, deadBefore s c (is.drop (σ.pc + 1)) x = false → x ∉ ins.outputs c → τ.vals x = σ.vals x :=
    fun x hx hout => hlive x (live_through hx hout (.inr (.inl hcall)))
  rw [exec_call hcall hσ hins, exec_call hcall hτ hopt, hinputs, execCall, execCall, h.world]
  cases hconst : ins.isConst
  · have hglobals : ∀ x < s.nbGlobals, τ.vals x = σ.vals x := fun x hx =>
      hlive x (globals_live hx (.inl ⟨hcall, hconst⟩))
    rw [globalsOf_congr hglobals]
    cases ins.isPure
    · refine h.next (fun x hx => ?_) rfl
        (h.observe ins _ true false (fun _ => hglobals) fun hb => absurd hb (by decide)) rfl
      exact assign_congr _ x _ _ _ _ fun hout => setGlobals_congr _ (hpass x hx hout)
    · exact h.next (fun x hx => assign_congr _ x _ _ _ _ (hpass x hx)) h.world h.events h.halted
  · cases ins.isPure
    · exact h.next (fun x hx => assign_congr _ x _ _ _ _ (hpass x hx)) rfl
        (h.observe ins _ false false (fun hb => absurd hb (by decide)) fun hb => absurd hb (by decide)) h.halted
    · exact h.next (fun x hx => assign_congr _ x _ _ _ _ (hpass x hx)) h.world h.events h.halted

theorem branchTarget_optimised (pc : ℕ) (inputs : List V) (world : W) :
    branchTarget s c m (optimised s c is) pc ins inputs world = branchTarget s c m is pc ins inputs world := by
  simp only [branchTarget, findLabel_optimised]

theorem outputs_store (hh : handled ins.opc = false) (hcall : ins.opc ≠ .call)
    (hside : (tcgOpDefs c ins.opc).sideEffects = true) (hend : ¬ (tcgOpDefs c ins.opc).bbEnd = true)
    (hclobber : ¬ (tcgOpDefs c ins.opc).callClobber = true) : ins.outputs c = [] := by
  obtain ⟨opc, args⟩ := ins
  cases opc
  case call => exact absurd rfl hcall
  case discard | nopn => exact absurd hh (by simp [handled])
  all_goals first
    | rfl
    | exact absurd rfl hend
    | exact absurd rfl hclobber
    | exact absurd hside (by simp [tcgOpDefs, plain])

/-- Another operation that is kept. -/
theorem sim_op (h : Sim s c is σ τ) (hσ : σ.halted = false) (hins : is[σ.pc]? = some ins)
    (hopt : (optimised s c is)[τ.pc]? = some ins) (hh : handled ins.opc = false) (hcall : ins.opc ≠ .call)
    (huses : ∀ x ∈ ins.uses c, τ.vals x = σ.vals x)
    (hlive : ∀ x, deadAtInputs s c ins (deadBefore s c (is.drop (σ.pc + 1))) x = false → τ.vals x = σ.vals x) :
    Sim s c is (exec s c m lost is σ) (exec s c m lost (optimised s c is) τ) := by
  have hτ : τ.halted = false := by rw [h.halted, hσ]
  have hinputs : (ins.uses c).map τ.vals = (ins.uses c).map σ.vals := List.map_congr_left huses
  rw [exec_op hh hcall hσ hins, exec_op hh hcall hτ hopt, hinputs, execOp, execOp]
  dsimp only
  by_cases hend : (tcgOpDefs c ins.opc).bbEnd = true
  · have hkept : ∀ x, s.keeps x = true → τ.vals x = σ.vals x := fun x hx => by
      apply hlive
      rw [deadAtInputs_op hcall, if_pos hend, tcgLaBbEnd, hx, Bool.not_true]
    have hevents := h.observe ins ((ins.uses c).map σ.vals) true true
      (fun _ x hx => hkept x (keeps_of_lt hx)) fun _ => hkept
    rw [if_pos hend, if_pos hend, branchTarget_optimised, h.pc, h.world, h.steps, endBlock_congr _ hkept]
    split
    · exact ⟨congrArg (· + 1) h.pc, congrArg (· + 1) h.steps, h.world, hevents, rfl, rfl,
        fun _ _ _ => rfl, fun _ _ _ => rfl⟩
    · exact ⟨rfl, congrArg (· + 1) h.steps, h.world, hevents, h.halted, rfl,
        fun _ _ _ => rfl, fun _ _ _ => rfl⟩
  · have hpass : ∀ x, deadBefore s c (is.drop (σ.pc + 1)) x = false → x ∉ ins.outputs c → τ.vals x = σ.vals x :=
      fun x hx hout => hlive x (live_through hx hout (.inr (.inr (by simpa using hend))))
    rw [if_neg hend, if_neg hend, h.world]
    by_cases hclobber : (tcgOpDefs c ins.opc).callClobber = true
    · have hglobals : ∀ x < s.nbGlobals, τ.vals x = σ.vals x := fun x hx =>
        hlive x (globals_live hx (.inr (.inl ⟨hcall, hclobber⟩)))
      rw [if_pos hclobber, if_pos hclobber, globalsOf_congr hglobals]
      refine h.next (fun x hx => ?_) rfl
        (h.observe ins _ true false (fun _ => hglobals) fun hb => absurd hb (by decide)) rfl
      exact assign_congr _ x _ _ _ _ fun hout => setGlobals_congr _ (hpass x hx hout)
    · rw [if_neg hclobber, if_neg hclobber]
      by_cases hside : (tcgOpDefs c ins.opc).sideEffects = true
      · rw [if_pos hside, if_pos hside]
        exact h.next (fun x hx => hpass x hx (by simp [outputs_store hh hcall hside hend hclobber])) rfl
          (h.observe ins _ false false (fun hb => absurd hb (by decide)) fun hb => absurd hb (by decide)) h.halted
      · rw [if_neg hside, if_neg hside]
        exact h.next (fun x hx => assign_congr _ x _ _ _ _ (hpass x hx)) h.world h.events h.halted

/-- What the pass leaves takes the same step. -/
theorem sim_exec (h : Sim s c is σ τ) :
    Sim s c is (exec s c m lost is σ) (exec s c m lost (optimised s c is) τ) := by
  cases hσ : σ.halted with
  | true => rwa [exec, if_pos hσ, exec, if_pos (by rw [h.halted, hσ])]
  | false =>
    have hτ : τ.halted = false := by rw [h.halted, hσ]
    have hopt := optimised_getElem? (s := s) (c := c) is τ.pc
    rw [h.pc] at hopt
    cases hins : is[σ.pc]? with
    | none =>
      rw [hins, ← h.pc] at hopt
      rw [exec, if_neg (by simp [hσ]), hins, exec, if_neg (by simp [hτ]), hopt]
      exact ⟨h.pc, h.steps, h.world, h.events, rfl, h.boundary, fun hf => absurd hf (by simp), h.kept⟩
    | some ins =>
      cases hh : handled ins.opc with
      | true => exact sim_handled h hσ hins hh
      | false =>
        have hlive := h.live hσ
        rw [hins, ← h.pc] at hopt
        rw [deadBefore_drop hins] at hlive
        by_cases hremoved : (removable c ins && (ins.outputs c).all (deadBefore s c (is.drop (σ.pc + 1)))) = true
        · -- the outputs, which are all that changes, are dead
          rw [laStep_other hh, if_pos hremoved] at hlive
          rw [Option.map_some, h.pc, laStep_other hh, if_pos hremoved, ← h.pc] at hopt
          rw [Bool.and_eq_true] at hremoved
          obtain ⟨f, hf⟩ : ∃ f, exec s c m lost is σ = { σ.next with vals := assign f (ins.outputs c) 0 σ.vals } :=
            exec_removable hh hremoved.1 hσ hins
          rw [hf, exec_tcgSetNop hτ hopt]
          refine h.next (fun x hx => ?_) h.world h.events h.halted
          rw [assign_of_not_mem f 0 _ fun hout => ?_]
          · exact hlive x hx
          · have := List.all_eq_true.1 hremoved.2 x hout
            rw [hx] at this
            exact absurd this (by decide)
        · rw [Option.map_some, h.pc, laStep_other hh, if_neg hremoved, ← h.pc] at hopt
          have huses : ∀ x ∈ ins.uses c, τ.vals x = σ.vals x := fun x hx =>
            hlive x ((live_kept hh hremoved x).2 (.inl hx))
          have hrest : ∀ x, deadAtInputs s c ins (deadBefore s c (is.drop (σ.pc + 1))) x = false →
              τ.vals x = σ.vals x := fun x hx => hlive x ((live_kept hh hremoved x).2 (.inr hx))
          by_cases hcall : ins.opc = .call
          · exact sim_call h hσ hins hopt hcall huses hrest
          · exact sim_op h hσ hins hopt hh hcall huses hrest

theorem sim_run : ∀ (n : ℕ) {σ τ : State s.nbGlobals W V}, Sim s c is σ τ →
    Sim s c is (run s c m lost is n σ) (run s c m lost (optimised s c is) n τ)
  | 0, _, _, h => h
  | n + 1, _, _, h => sim_run n (sim_exec h)

end Lockstep

/-! ### What operations read and overwrite -/

namespace Instr

/-- The globals must be in memory: a call that is not const, an access to guest memory, a
branch, an exit and a label. -/
def usesGlobals (c : Config) (ins : Instr) : Bool :=
  match ins.opc with
  | .call => !ins.isConst
  | .setLabel => true
  | opc => (tcgOpDefs c opc).bbEnd || (tcgOpDefs c opc).callClobber

def endsBlock (c : Config) (ins : Instr) : Bool :=
  match ins.opc with
  | .setLabel => true
  | opc => (tcgOpDefs c opc).bbEnd

/-- An operation reads its inputs, the globals where they must be in memory, and what is
kept across basic blocks at the end of one. -/
def Reads (s : TCGContext) (c : Config) (ins : Instr) (x : ℕ) : Prop :=
  x ∈ ins.uses c ∨ (ins.usesGlobals c = true ∧ x < s.nbGlobals) ∨ (ins.endsBlock c = true ∧ s.keeps x = true)

/-- An operation overwrites its outputs; other values are lost when they are discarded or
when a basic block ends. -/
def Overwrites (s : TCGContext) (c : Config) (ins : Instr) (x : ℕ) : Prop :=
  x ∈ ins.outputs c ∨ (ins.opc = .discard ∧ x ∈ ins.args.take 1) ∨
    (ins.endsBlock c = true ∧ s.keeps x = false)

end Instr

section Reads

variable {s : TCGContext} {c : Config} {ins : Instr} {x : ℕ}

theorem usesGlobals_op (hh : handled ins.opc = false) (hcall : ins.opc ≠ .call) :
    ins.usesGlobals c = ((tcgOpDefs c ins.opc).bbEnd || (tcgOpDefs c ins.opc).callClobber) := by
  obtain ⟨opc, args⟩ := ins
  cases opc <;> first | rfl | exact absurd rfl hcall | exact absurd hh (by simp [handled])

theorem endsBlock_op (hh : handled ins.opc = false) :
    ins.endsBlock c = (tcgOpDefs c ins.opc).bbEnd := by
  obtain ⟨opc, args⟩ := ins
  cases opc <;> first | rfl | exact absurd hh (by simp [handled])

theorem endsBlock_call (hcall : ins.opc = .call) : ins.endsBlock c = false := by
  simp only [Instr.endsBlock, hcall]
  rfl

theorem deadAtInputs_globals (hh : handled ins.opc = false) (hglobals : ins.usesGlobals c = true)
    (hx : x < s.nbGlobals) (dead : Dead) : deadAtInputs s c ins dead x = false := by
  by_cases hcall : ins.opc = .call
  · have hconst : ins.isConst = false := by simpa [Instr.usesGlobals, hcall] using hglobals
    exact globals_live hx (.inl ⟨hcall, hconst⟩)
  · rw [usesGlobals_op hh hcall, Bool.or_eq_true] at hglobals
    exact globals_live hx (.inr (hglobals.elim (fun h => .inr ⟨hcall, h⟩) fun h => .inl ⟨hcall, h⟩))

theorem deadAtInputs_endsBlock (hh : handled ins.opc = false) (hend : ins.endsBlock c = true) (dead : Dead) :
    deadAtInputs s c ins dead = tcgLaBbEnd s := by
  have hcall : ins.opc ≠ .call := by
    intro hcall
    rw [endsBlock_call hcall] at hend
    exact absurd hend (by decide)
  rw [deadAtInputs_op hcall, if_pos (by rwa [← endsBlock_op hh])]

theorem overwrites_of_dead (hh : handled ins.opc = false) {dead : Dead}
    (hx : deadAtInputs s c ins dead x = true) : ins.Overwrites s c x ∨ dead x = true := by
  by_cases hend : ins.endsBlock c = true
  · rw [deadAtInputs_endsBlock hh hend, tcgLaBbEnd] at hx
    exact .inl (.inr (.inr ⟨hend, by simpa using hx⟩))
  · by_cases hout : x ∈ ins.outputs c
    · exact .inl (.inl hout)
    · right
      by_contra hdead
      have hpass : ins.opc = .call ∨ (tcgOpDefs c ins.opc).bbEnd = false := by
        rw [endsBlock_op hh] at hend
        exact .inr (by simpa using hend)
      rw [live_through (by simpa using hdead) hout (.inr hpass)] at hx
      exact absurd hx (by decide)

theorem endsBlock_tcgSetNop : (tcgSetNop ins).endsBlock c = false := by
  unfold tcgSetNop
  split <;> rfl

theorem not_reads_tcgSetNop : ¬ (tcgSetNop ins).Reads s c x := by
  unfold tcgSetNop
  split
  · simp [Instr.Reads, Instr.uses, Instr.inputs, Instr.usesGlobals, Instr.endsBlock, tcgOpDefs, plain]
  · simp [Instr.Reads, Instr.uses, Instr.inputs, Instr.usesGlobals, Instr.endsBlock, tcgOpDefs, plain]

theorem not_reads_handled (hh : handled ins.opc = true) {dead : Dead}
    (hx : (laStep s c ins dead).2.1 x = true) : ¬ ins.Reads s c x := by
  have hkeeps : x < s.nbGlobals → s.keeps x = true := keeps_of_lt
  obtain ⟨opc, args⟩ := ins
  cases opc
  case setLabel =>
    have hlost : s.keeps x = false := by simpa [laStep, tcgLaBbEnd] using hx
    rintro (huse | ⟨-, hglobal⟩ | ⟨-, hkept⟩)
    · simp [Instr.uses, Instr.inputs, tcgOpDefs, plain] at huse
    · simp [hkeeps hglobal] at hlost
    · simp [hkept] at hlost
  case opEnd | nopn | debugInsnStart | discard =>
    simp [Instr.Reads, Instr.uses, Instr.inputs, Instr.usesGlobals, Instr.endsBlock, tcgOpDefs, plain]
  all_goals exact absurd hh (by simp [handled])

theorem overwrites_handled (hh : handled ins.opc = true) {dead : Dead}
    (hx : (laStep s c ins dead).2.1 x = true) :
    ins.Overwrites s c x ∨ (ins.endsBlock c = false ∧ dead x = true) := by
  obtain ⟨opc, args⟩ := ins
  cases opc
  case setLabel => exact .inl (.inr (.inr ⟨rfl, by simpa [laStep, tcgLaBbEnd] using hx⟩))
  case discard =>
    by_cases hmem : x ∈ args.take 1
    · exact .inl (.inr (.inl ⟨rfl, hmem⟩))
    · exact .inr ⟨rfl, by simpa only [laStep, markDead, if_neg hmem] using hx⟩
  case opEnd | nopn | debugInsnStart => exact .inr ⟨rfl, hx⟩
  all_goals exact absurd hh (by simp [handled])

theorem laStep_handled (hh : handled ins.opc = true) (dead : Dead) :
    (laStep s c ins dead).1 = ins ∧ (laStep s c ins dead).2.2 = none := by
  obtain ⟨opc, args⟩ := ins
  cases opc <;> first | exact absurd hh Bool.false_ne_true | exact ⟨rfl, rfl⟩

/-- A variable that is dead before an operation of the stream that is left is not read by
it, and is overwritten by it or dead after it. -/
theorem dead_laStep {dead : Dead} (hx : (laStep s c ins dead).2.1 x = true) :
    ¬ (laStep s c ins dead).1.Reads s c x ∧
      ((laStep s c ins dead).1.Overwrites s c x ∨
        ((laStep s c ins dead).1.endsBlock c = false ∧ dead x = true)) := by
  cases hh : handled ins.opc with
  | true =>
    rw [(laStep_handled hh dead).1]
    exact ⟨not_reads_handled hh hx, overwrites_handled hh hx⟩
  | false =>
    by_cases hremoved : (removable c ins && (ins.outputs c).all dead) = true
    · rw [laStep_other hh, if_pos hremoved] at hx ⊢
      exact ⟨not_reads_tcgSetNop, .inr ⟨endsBlock_tcgSetNop, hx⟩⟩
    · have hlive := (live_kept (s := s) hh hremoved x).not
      rw [Bool.not_eq_false, not_or, Bool.not_eq_false] at hlive
      obtain ⟨huse, hdead⟩ := hlive.1 hx
      rw [laStep_other hh, if_neg hremoved]
      constructor
      · rintro (huse' | ⟨hglobals, hlt⟩ | ⟨hend, hkept⟩)
        · exact huse huse'
        · rw [deadAtInputs_globals hh hglobals hlt] at hdead
          exact absurd hdead (by decide)
        · rw [deadAtInputs_endsBlock hh hend, tcgLaBbEnd, hkept] at hdead
          exact absurd hdead (by decide)
      · by_cases hend : ins.endsBlock c = true
        · rw [deadAtInputs_endsBlock hh hend, tcgLaBbEnd] at hdead
          exact .inl (.inr (.inr ⟨hend, by simpa using hdead⟩))
        · exact (overwrites_of_dead hh hdead).imp_right fun h => ⟨by simpa using hend, h⟩

end Reads

/-! ### Dead inputs -/

section DeadInputs

variable {s : TCGContext} {c : Config} {W V : Type*} {m : Meaning s.nbGlobals W V} {lost : ℕ → ℕ → V}
  {is prog : List Instr} {σ : State s.nbGlobals W V} {ins : Instr} {x : ℕ}

/-- An operation that does not end a basic block goes on with the next one. -/
theorem exec_pc (hins : prog[σ.pc]? = some ins) (hend : ins.endsBlock c = false)
    (hrun : (exec s c m lost prog σ).halted = false) : (exec s c m lost prog σ).pc = σ.pc + 1 := by
  have hσ : σ.halted = false := by
    by_contra h
    rw [exec, if_pos (by simpa using h)] at hrun
    exact h hrun
  cases hh : handled ins.opc with
  | true =>
    rw [exec, if_neg (by simp [hσ]), hins] at hrun ⊢
    obtain ⟨opc, args⟩ := ins
    cases opc
    case opEnd => exact absurd hrun (by simp)
    case nopn | debugInsnStart | setLabel | discard => rfl
    all_goals exact absurd hh (by simp [handled])
  | false =>
    by_cases hcall : ins.opc = .call
    · rw [exec_call hcall hσ hins, execCall]
      cases ins.isPure <;> cases ins.isConst <;> rfl
    · rw [exec_op hh hcall hσ hins, execOp]
      dsimp only
      rw [endsBlock_op hh] at hend
      rw [if_neg (by simp [hend])]
      split
      · rfl
      · split
        · rfl
        · rfl

def State.at (σ : State s.nbGlobals W V) (prog : List Instr) (p : Instr → Prop) : Prop :=
  σ.halted = false ∧ ∃ ins, prog[σ.pc]? = some ins ∧ p ins

theorem not_reads_of_dead (hx : deadBefore s c (is.drop σ.pc) x = true) :
    ¬ σ.at (optimised s c is) fun ins => ins.Reads s c x := by
  rintro ⟨-, ins', h, hread⟩
  rw [optimised_getElem?, Option.map_eq_some_iff] at h
  obtain ⟨ins, hins, rfl⟩ := h
  rw [deadBefore_drop hins] at hx
  exact (dead_laStep hx).1 hread

/-- A dead variable is overwritten or stays dead. -/
theorem dead_exec (m : Meaning s.nbGlobals W V) (lost : ℕ → ℕ → V)
    (hx : σ.halted = false → deadBefore s c (is.drop σ.pc) x = true) :
    σ.at (optimised s c is) (fun ins => ins.Overwrites s c x) ∨
      ((exec s c m lost (optimised s c is) σ).halted = false →
        deadBefore s c (is.drop (exec s c m lost (optimised s c is) σ).pc) x = true) := by
  cases hσ : σ.halted with
  | true =>
    refine .inr fun h => ?_
    rw [exec, if_pos hσ, hσ] at h
    exact absurd h (by decide)
  | false =>
    have hopt := optimised_getElem? (s := s) (c := c) is σ.pc
    cases hins : is[σ.pc]? with
    | none =>
      rw [hins, Option.map_none] at hopt
      refine .inr fun h => ?_
      rw [exec, if_neg (by simp [hσ]), hopt] at h
      exact absurd h (by simp)
    | some ins =>
      rw [hins, Option.map_some] at hopt
      have hdead := hx hσ
      rw [deadBefore_drop hins] at hdead
      rcases (dead_laStep hdead).2 with hover | ⟨hend, hnext⟩
      · exact .inl ⟨hσ, _, hopt, hover⟩
      · refine .inr fun hrun => ?_
        rwa [exec_pc hopt hend hrun]

theorem dead_run (n : ℕ) {σ : State s.nbGlobals W V}
    (hx : σ.halted = false → deadBefore s c (is.drop σ.pc) x = true)
    (hread : (run s c m lost (optimised s c is) n σ).at (optimised s c is) fun ins => ins.Reads s c x) :
    ∃ k < n, (run s c m lost (optimised s c is) k σ).at (optimised s c is) fun ins => ins.Overwrites s c x := by
  induction n generalizing σ with
  | zero => exact absurd hread (not_reads_of_dead (hx hread.1))
  | succ n ih =>
    rcases dead_exec m lost hx with hover | hdead
    · exact ⟨0, n.succ_pos, hover⟩
    · obtain ⟨k, hk, hover⟩ := ih hdead hread
      exact ⟨k + 1, Nat.succ_lt_succ hk, hover⟩

theorem run_halted (hσ : σ.halted = true) (n : ℕ) : run s c m lost prog n σ = σ := by
  induction n with
  | zero => rfl
  | succ n ih => rw [run, exec, if_pos hσ, ih]

/-- An input whose bit is set in `op_dead_iargs` is dead when the inputs are read. -/
theorem deadAtInputs_of_mask {dead : Dead} {mask : BitVec 16} {b : ℕ}
    (hmask : (laStep s c ins dead).2.2 = some mask) (hbit : mask.getLsbD b = true)
    (hx : ((laStep s c ins dead).1.inputs c)[b]? = some x) :
    handled ins.opc = false ∧ (laStep s c ins dead).1 = ins ∧ deadAtInputs s c ins dead x = true := by
  cases hh : handled ins.opc with
  | true =>
    rw [(laStep_handled hh dead).2] at hmask
    exact absurd hmask (by simp)
  | false =>
    rw [laStep_other hh] at hmask hx ⊢
    split at hmask
    · exact absurd hmask (by simp)
    · rename_i hkept
      rw [if_neg hkept] at hx ⊢
      simp only [Option.some.injEq] at hmask
      rw [← hmask] at hbit
      obtain ⟨y, hy, hdead, -⟩ := markInputs_mask _ b _ 0 _ hbit
      rw [Nat.sub_zero, hx, Option.some.injEq] at hy
      exact ⟨rfl, rfl, hy ▸ hdead⟩

theorem deadInput_run {p : ℕ} {mask : BitVec 16} {b : ℕ} (hp : (analysed s c is)[p]? = some (ins, some mask))
    (hbit : mask.getLsbD b = true) (hx : (ins.inputs c)[b]? = some x) (hpc : σ.pc = p)
    (n : ℕ) (hread : (run s c m lost (optimised s c is) (n + 1) σ).at (optimised s c is)
      fun ins => ins.Reads s c x) :
    ∃ k < n + 1, (run s c m lost (optimised s c is) k σ).at (optimised s c is)
      fun ins => ins.Overwrites s c x := by
  subst hpc
  rw [analysed_getElem?, Option.map_eq_some_iff] at hp
  obtain ⟨ins₀, hins, heq⟩ := hp
  rw [Prod.mk.injEq] at heq
  obtain ⟨hleft, hmask⟩ := heq
  subst hleft
  obtain ⟨hh, hkept, hdead⟩ := deadAtInputs_of_mask hmask hbit hx
  have hopt : (optimised s c is)[σ.pc]? = some ins₀ := by
    rw [optimised_getElem?, hins, Option.map_some, hkept]
  cases hσ : σ.halted with
  | true =>
    rw [run_halted hσ] at hread
    rw [hread.1] at hσ
    exact absurd hσ (by decide)
  | false =>
    by_cases hover : ins₀.Overwrites s c x
    · exact ⟨0, n.succ_pos, hσ, ins₀, hopt, hover⟩
    · have hafter := (overwrites_of_dead hh hdead).resolve_left hover
      have hend : ins₀.endsBlock c = false := by
        by_contra hend
        rw [deadAtInputs_endsBlock hh (by simpa using hend), tcgLaBbEnd] at hdead
        exact hover (.inr (.inr ⟨by simpa using hend, by simpa using hdead⟩))
      obtain ⟨k, hk, h⟩ := dead_run n (fun hrun => by rwa [exec_pc hopt hend hrun]) hread
      exact ⟨k + 1, Nat.succ_lt_succ hk, h⟩

end DeadInputs

/-! ### Correctness -/

/-- The streams that `tcg_gen_*` write. -/
structure OpStream (c : Config) where
  ops : List Instr
  sized : ∀ ins ∈ ops, ins.Sized c

namespace OpStream

variable {c : Config}

/-- `gen_opc_buf`. -/
def opcBuf (is : OpStream c) : List Opc := is.ops.map Instr.opc

/-- `gen_opparam_buf`. -/
def opparamBuf (is : OpStream c) : List ℕ := is.ops.flatMap Instr.args

end OpStream

section Correct

variable {s : TCGContext} {c : Config} {W V : Type*}

/-- Two runs that cannot be told apart: they take the same path, access memory and call
helpers in the same way, and agree on the globals where these must be in memory and on what
is kept across basic blocks where one ends. -/
structure Indistinguishable (s : TCGContext) (c : Config) (prog : List Instr)
    (σ τ : State s.nbGlobals W V) : Prop where
  pc : τ.pc = σ.pc
  halted : τ.halted = σ.halted
  world : τ.world = σ.world
  events : τ.events = σ.events
  globals : τ.at prog (fun ins => ins.usesGlobals c = true) → ∀ x < s.nbGlobals, τ.vals x = σ.vals x
  kept : τ.at prog (fun ins => ins.endsBlock c = true) → ∀ x, s.keeps x = true → τ.vals x = σ.vals x
  boundary : σ.boundary = true → ∀ x, s.keeps x = true → τ.vals x = σ.vals x

theorem Sim.indistinguishable {is : List Instr} {σ τ : State s.nbGlobals W V} (h : Sim s c is σ τ) :
    Indistinguishable s c (optimised s c is) σ τ := by
  have hread : ∀ x, τ.at (optimised s c is) (fun ins => ins.Reads s c x) → τ.vals x = σ.vals x := by
    intro x hx
    have hσ : σ.halted = false := by rw [← h.halted, hx.1]
    apply h.live hσ
    by_contra hdead
    refine not_reads_of_dead ?_ hx
    rw [h.pc]
    simpa using hdead
  exact ⟨h.pc, h.halted, h.world, h.events,
    fun ⟨hτ, ins, hins, hg⟩ x hx => hread x ⟨hτ, ins, hins, .inr (.inl ⟨hg, hx⟩)⟩,
    fun ⟨hτ, ins, hins, hend⟩ x hx => hread x ⟨hτ, ins, hins, .inr (.inr ⟨hend, hx⟩)⟩, h.kept⟩

/-- Dead-code elimination preserves meaning: the pass does not abort, the stream that it
leaves runs like the original one, and an input that it marks dead is not read again before
it is overwritten. -/
theorem tcgLivenessAnalysis_correct (s : TCGContext) (c : Config) (is : OpStream c) :
    ∃ out, tcgLivenessAnalysis s c is.opcBuf is.opparamBuf = some out ∧
      ∀ (m : Meaning s.nbGlobals W V) (lost : ℕ → ℕ → V) (σ : State s.nbGlobals W V) (n : ℕ),
        Indistinguishable s c (out.map Prod.fst) (run s c m lost is.ops n σ)
          (run s c m lost (out.map Prod.fst) n σ) ∧
        ∀ (ins : Instr) (mask : BitVec 16) (b x : ℕ), out[σ.pc]? = some (ins, some mask) →
          mask.getLsbD b = true → (ins.inputs c)[b]? = some x →
          (run s c m lost (out.map Prod.fst) (n + 1) σ).at (out.map Prod.fst) (fun ins => ins.Reads s c x) →
          ∃ k ≤ n, (run s c m lost (out.map Prod.fst) k σ).at (out.map Prod.fst)
            fun ins => ins.Overwrites s c x := by
  refine ⟨analysed s c is.ops, tcgLivenessAnalysis_eq is.sized, fun m lost σ n => ⟨?_, ?_⟩⟩
  · exact (sim_run n (Sim.refl σ)).indistinguishable
  · intro ins mask b x hins hbit hx hread
    obtain ⟨k, hk, hover⟩ := deadInput_run hins hbit hx rfl n hread
    exact ⟨k, Nat.le_of_lt_succ hk, hover⟩

/-- An operation between two assignments to a global. -/
def betweenAssignments (ins : Instr) : List Instr :=
  [⟨.movi .i32, [0, 1]⟩, ins, ⟨.movi .i32, [0, 2]⟩, ⟨.exitTb, [0]⟩, ⟨.opEnd, []⟩]

/-- One global, and operations that set their outputs to their first constant. -/
def constMeaning : Meaning 1 Unit ℕ where
  eval := fun _ constants _ _ _ => constants.headD 0
  store := fun _ _ _ _ => ()
  access := fun _ _ _ globals _ => ⟨fun _ => 0, globals, (), false⟩
  cond := fun _ _ _ => false
  chained := fun _ _ => false
  call := fun _ _ globals _ => ⟨fun _ => 0, globals, (), false⟩
  callPure := fun _ _ _ _ _ => 0
  callConst := fun _ _ _ => (fun _ => 0, ())
  callPureConst := fun _ _ _ _ => 0

/-- The first assignment is removed, and the global differs at the call of a const helper or at
a store to host memory. A load from host memory is removed when its result is dead. -/
theorem constCall_global_differs :
    let s : TCGContext := ⟨1, 2, fun _ => false⟩
    let c : Config := ⟨true, false⟩
    let σ : State 1 Unit ℕ := ⟨0, 0, fun _ => 0, (), [], false, false⟩
    (∀ access ∈ [⟨.call, [1, 1, tcgCallConst, 4]⟩, ⟨.st .i32, [1, 1, 0]⟩],
      let is := betweenAssignments access
      (∀ ins ∈ is, ins.Sized c) ∧
        ∃ out, tcgLivenessAnalysis s c (is.map Instr.opc) (is.flatMap Instr.args) = some out ∧
          (run s c constMeaning (fun _ _ => 0) (out.map Prod.fst) 1 σ).at (out.map Prod.fst)
            (fun ins => ins = access) ∧
          (run s c constMeaning (fun _ _ => 0) (out.map Prod.fst) 1 σ).vals 0 ≠
            (run s c constMeaning (fun _ _ => 0) is 1 σ).vals 0) ∧
      ∃ out, tcgLivenessAnalysis s c [.ld .i32, .exitTb, .opEnd] [1, 1, 0, 0] = some out ∧
        ∀ ins ∈ out.map Prod.fst, ins.opc ≠ .ld .i32 := by
  refine ⟨?_, _, rfl, by decide⟩
  simp only [List.forall_mem_cons]
  refine ⟨⟨?_, _, rfl, ⟨rfl, _, rfl, rfl⟩, by decide⟩, ⟨?_, _, rfl, ⟨rfl, _, rfl, rfl⟩, by decide⟩, nofun⟩
  all_goals
    simp [betweenAssignments, Instr.Sized, Instr.callOargs, Instr.callIargs, tcgOpDefs, plain, effect, ends,
      TCGOpDef.nbArgs]

end Correct

end Ar7Qemu.Tcg
