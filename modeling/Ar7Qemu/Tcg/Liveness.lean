import Ar7Qemu.Tcg.Op

/-! `tcg_liveness_analysis`: one backward pass over the op stream that removes
operations whose outputs are dead and records which inputs are dead. The pass walks
`gen_opc_buf` and `gen_opparam_buf` from their ends; on a stream whose parameters are
laid out as the op table says it is a right fold over the operations. -/

namespace Ar7Qemu.Tcg

/-- `dead_temps`. -/
abbrev Dead := ℕ → Bool

def tcgSetNop (ins : Instr) : Instr :=
  match ins.args.length with
  | 0 => ⟨.nop, ins.args⟩
  | n + 1 => ⟨.nopn, (ins.args.set 0 (n + 1)).set n (n + 1)⟩

def tcgLaBbEnd (s : TCGContext) : Dead := fun x => !s.keeps x

def globalsLive (s : TCGContext) (dead : Dead) : Dead := fun x => if x < s.nbGlobals then false else dead x

def markDead (xs : List ℕ) (dead : Dead) : Dead := fun x => if x ∈ xs then true else dead x

/-- Input arguments are live; the mask tells which of them were dead. -/
def markInputs (dummy : Option ℕ) : List ℕ → ℕ → Dead → BitVec 16 × Dead
  | [], _, dead => (0, dead)
  | x :: xs, i, dead =>
    if some x = dummy then markInputs dummy xs (i + 1) dead
    else
      let bit : BitVec 16 := if dead x then BitVec.twoPow 16 i else 0
      let (mask, dead) := markInputs dummy xs (i + 1) (Function.update dead x false)
      (bit ||| mask, dead)

/-- An operation that is kept: what is dead before its inputs are read. -/
def deadAtInputs (s : TCGContext) (c : Config) (ins : Instr) (dead : Dead) : Dead :=
  let dead := markDead (ins.outputs c) dead
  match ins.opc with
  | .call => if ins.isConst then dead else globalsLive s dead
  | opc =>
    if (tcgOpDefs c opc).bbEnd then tcgLaBbEnd s
    else if (tcgOpDefs c opc).callClobber then globalsLive s dead
    else dead

/-- An operation that is removed when its outputs are dead. We assume that an operation
without outputs has side effects. -/
def removable (c : Config) (ins : Instr) : Bool :=
  match ins.opc with
  | .call => ins.isPure
  | opc => !(tcgOpDefs c opc).sideEffects && decide ((tcgOpDefs c opc).nbOargs ≠ 0)

def Instr.dummy (c : Config) (ins : Instr) : Option ℕ := if ins.opc = .call then some c.dummyArg else none

/-- One operation of the pass: the operation that is left, what is dead before it, and its
`op_dead_iargs`, which is not set for removed operations. -/
def laStep (s : TCGContext) (c : Config) (ins : Instr) (dead : Dead) : Instr × Dead × Option (BitVec 16) :=
  match ins.opc with
  | .setLabel => (ins, tcgLaBbEnd s, none)
  | .debugInsnStart | .nopn | .opEnd => (ins, dead, none)
  | .discard => (ins, markDead (ins.args.take 1) dead, none)
  | _ =>
    if removable c ins && (ins.outputs c).all dead then (tcgSetNop ins, dead, none)
    else
      let (mask, dead) := markInputs (ins.dummy c) (ins.inputs c) 0 (deadAtInputs s c ins dead)
      (ins, dead, some mask)

/-- The number of parameters of an operation, found from the end of `gen_opparam_buf`. -/
def nbParams (c : Config) (opc : Opc) (params : List ℕ) : ℕ :=
  match opc with
  | .call | .nopn => params.headD 0
  | opc => (tcgOpDefs c opc).nbArgs

/-- The loop of `tcg_liveness_analysis`, on the two buffers from their ends. It aborts when
parameters are left. -/
def livenessLoop (s : TCGContext) (c : Config) :
    List Opc → List ℕ → Dead → Option (List (Instr × Option (BitVec 16)))
  | [], params, _ => if params = [] then some [] else none
  | opc :: opcs, params, dead =>
    let n := nbParams c opc params
    let (ins, dead, mask) := laStep s c ⟨opc, (params.take n).reverse⟩ dead
    (livenessLoop s c opcs (params.drop n) dead).map fun rest => rest ++ [(ins, mask)]

/-- `tcg_liveness_analysis`: the stream that is left, with the masks of dead inputs. -/
def tcgLivenessAnalysis (s : TCGContext) (c : Config) (opcBuf : List Opc) (opparamBuf : List ℕ) :
    Option (List (Instr × Option (BitVec 16))) :=
  livenessLoop s c opcBuf.reverse opparamBuf.reverse fun _ => true

/-! ### The pass as a fold -/

def deadBefore (s : TCGContext) (c : Config) : List Instr → Dead
  | [] => fun _ => true
  | ins :: is => (laStep s c ins (deadBefore s c is)).2.1

def analysed (s : TCGContext) (c : Config) : List Instr → List (Instr × Option (BitVec 16))
  | [] => []
  | ins :: is =>
    let r := laStep s c ins (deadBefore s c is)
    (r.1, r.2.2) :: analysed s c is

section Fold

variable {s : TCGContext} {c : Config}

theorem nbParams_sized {ins : Instr} (h : ins.Sized c) (params : List ℕ) :
    nbParams c ins.opc (ins.args.reverse ++ params) = ins.args.length := by
  obtain ⟨opc, args⟩ := ins
  have hlast : ∀ n, args.getLast? = some n → (args.reverse ++ params).headD 0 = n := by
    intro n hn
    rw [← List.head?_reverse] at hn
    rw [List.headD_eq_head?_getD, List.head?_append, hn]
    rfl
  unfold Instr.Sized at h
  unfold nbParams
  cases opc
  case call => exact hlast _ h.2
  case nopn => exact hlast _ h
  all_goals exact Eq.symm h

theorem livenessLoop_append (s : TCGContext) (c : Config) :
    ∀ (is : List Instr), (∀ ins ∈ is, ins.Sized c) → ∀ (opcs : List Opc) (params : List ℕ),
    livenessLoop s c ((is.map Instr.opc).reverse ++ opcs) ((is.flatMap Instr.args).reverse ++ params)
        (fun _ => true) =
      (livenessLoop s c opcs params (deadBefore s c is)).map fun rest => rest ++ analysed s c is
  | [], _, opcs, params => by simp [deadBefore, analysed]
  | ins :: is, h, opcs, params => by
    have ih := livenessLoop_append s c is (fun i hi => h i (List.mem_cons_of_mem _ hi))
      (ins.opc :: opcs) (ins.args.reverse ++ params)
    have hn := nbParams_sized (h ins List.mem_cons_self) params
    rw [List.map_cons, List.reverse_cons, List.append_assoc, List.singleton_append, List.flatMap_cons,
      List.reverse_append, List.append_assoc, ih, livenessLoop, hn]
    simp only [List.take_left' (List.length_reverse), List.drop_left' (List.length_reverse),
      List.reverse_reverse, Option.map_map]
    congr 1
    funext rest
    simp [analysed]

theorem tcgLivenessAnalysis_eq {is : List Instr} (h : ∀ ins ∈ is, ins.Sized c) :
    tcgLivenessAnalysis s c (is.map Instr.opc) (is.flatMap Instr.args) = some (analysed s c is) := by
  have := livenessLoop_append s c is h [] []
  rw [List.append_nil, List.append_nil, livenessLoop, if_pos rfl] at this
  rw [tcgLivenessAnalysis, this]
  simp

end Fold

end Ar7Qemu.Tcg
