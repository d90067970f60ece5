import Ar7Qemu.Tcg.Op

/-! Execution of op streams. What the operations compute, what helpers do and what the
rest of the machine looks like are parameters; the model fixes which variables each
operation reads and writes, which operations may see and change globals, and which values
survive a basic block. A temporary that is not local is lost at the end of a basic block,
and a discarded variable is lost at once: they then hold values that the program must not
depend on. -/

namespace Ar7Qemu.Tcg

/-- What an operation that may use globals does. -/
structure Outcome (n : ℕ) (W V : Type*) where
  outputs : ℕ → V
  globals : Fin n → V
  world : W
  /-- It left the translation block by an exception. -/
  raised : Bool

/-- The meaning of the operations over `n` globals. -/
structure Meaning (n : ℕ) (W V : Type*) where
  /-- The outputs of an operation without side effects. -/
  eval : Opc → List ℕ → List V → W → ℕ → V
  /-- A store to host memory. -/
  store : Opc → List ℕ → List V → W → W
  /-- An access to guest memory. -/
  access : Opc → List ℕ → List V → (Fin n → V) → W → Outcome n W V
  /-- The condition of a branch. -/
  cond : Opc → ℕ → List V → Bool
  /-- A `goto_tb` that goes to another translation block. -/
  chained : List ℕ → W → Bool
  /-- A helper that is neither pure nor const. -/
  call : ℕ → List V → (Fin n → V) → W → Outcome n W V
  /-- A pure helper reads its arguments and globals. -/
  callPure : ℕ → List V → (Fin n → V) → W → ℕ → V
  /-- A const helper does not use globals. -/
  callConst : ℕ → List V → W → (ℕ → V) × W
  callPureConst : ℕ → List V → W → ℕ → V

/-- What can be observed of an operation: its inputs, and the globals and local temporaries
where they must be in memory. -/
structure Event (n : ℕ) (V : Type*) where
  pc : ℕ
  opc : Opc
  constants : List ℕ
  inputs : List V
  globals : Option (Fin n → V)
  locals : Option (ℕ → Option V)

structure State (n : ℕ) (W V : Type*) where
  pc : ℕ
  steps : ℕ
  vals : ℕ → V
  world : W
  events : List (Event n V)
  halted : Bool
  /-- The last operation ended a basic block. -/
  boundary : Bool

section Exec

variable (s : TCGContext) (c : Config) {W V : Type*} (m : Meaning s.nbGlobals W V) (lost : ℕ → ℕ → V)

def globalsOf (vals : ℕ → V) : Fin s.nbGlobals → V := fun g => vals g

def localsOf (vals : ℕ → V) : ℕ → Option V := fun x => if s.tempLocal x then some (vals x) else none

def assign (f : ℕ → V) : List ℕ → ℕ → (ℕ → V) → (ℕ → V)
  | [], _, vals => vals
  | x :: xs, i, vals => assign f xs (i + 1) (Function.update vals x (f i))

def setGlobals (g : Fin s.nbGlobals → V) (vals : ℕ → V) : ℕ → V :=
  fun x => if h : x < s.nbGlobals then g ⟨x, h⟩ else vals x

def endBlock (junk vals : ℕ → V) : ℕ → V := fun x => if s.keeps x then vals x else junk x

def findLabel (prog : List Instr) (label : ℕ) : ℕ :=
  prog.findIdx fun ins => ins.opc = .setLabel ∧ ins.args.headD 0 = label

/-- Where a branch goes, or that it leaves the translation block. -/
def branchTarget (prog : List Instr) (pc : ℕ) (ins : Instr) (inputs : List V) (world : W) : Option ℕ :=
  match ins.opc with
  | .br => some (findLabel prog ((ins.constants c).getD 0 0))
  | .brcond _ | .brcond2 =>
    if m.cond ins.opc ((ins.constants c).getD 0 0) inputs then
      some (findLabel prog ((ins.constants c).getD 1 0))
    else some (pc + 1)
  | .gotoTb => if m.chained (ins.constants c) world then none else some (pc + 1)
  | _ => none

def State.next (σ : State s.nbGlobals W V) : State s.nbGlobals W V :=
  { σ with pc := σ.pc + 1, steps := σ.steps + 1, boundary := false }

def State.observe (σ : State s.nbGlobals W V) (ins : Instr) (inputs : List V) (sync block : Bool) :
    State s.nbGlobals W V :=
  { σ with events := σ.events ++ [⟨σ.pc, ins.opc, ins.constants c, inputs,
      if sync then some (globalsOf s σ.vals) else none,
      if block then some (localsOf s σ.vals) else none⟩] }

/-- Take over the outcome of an operation that may use globals. -/
def State.take (σ : State s.nbGlobals W V) (xs : List ℕ) (o : Outcome s.nbGlobals W V) :
    State s.nbGlobals W V :=
  { σ.next with
    vals := assign o.outputs xs 0 (setGlobals s o.globals σ.vals), world := o.world, halted := o.raised }

def execCall (ins : Instr) (inputs : List V) (σ : State s.nbGlobals W V) : State s.nbGlobals W V :=
  let xs := ins.outputs c
  match ins.isPure, ins.isConst with
  | true, true =>
    { σ.next with vals := assign (m.callPureConst ins.callFlags inputs σ.world) xs 0 σ.vals }
  | true, false =>
    { σ.next with
      vals := assign (m.callPure ins.callFlags inputs (globalsOf s σ.vals) σ.world) xs 0 σ.vals }
  | false, true =>
    let r := m.callConst ins.callFlags inputs σ.world
    { (σ.observe s c ins inputs false false).next with vals := assign r.1 xs 0 σ.vals, world := r.2 }
  | false, false =>
    (σ.observe s c ins inputs true false).take s xs
      (m.call ins.callFlags inputs (globalsOf s σ.vals) σ.world)

/-- An operation of the table, by its flags. -/
def execOp (prog : List Instr) (ins : Instr) (inputs : List V) (σ : State s.nbGlobals W V) :
    State s.nbGlobals W V :=
  let d := tcgOpDefs c ins.opc
  if d.bbEnd then
    let σ' := σ.observe s c ins inputs true true
    match branchTarget s c m prog σ.pc ins inputs σ.world with
    | none => { σ'.next with vals := endBlock s (lost σ.steps) σ.vals, halted := true, boundary := true }
    | some pc => { σ'.next with vals := endBlock s (lost σ.steps) σ.vals, pc := pc, boundary := true }
  else if d.callClobber then
    (σ.observe s c ins inputs true false).take s (ins.outputs c)
      (m.access ins.opc (ins.constants c) inputs (globalsOf s σ.vals) σ.world)
  else if d.sideEffects then
    { (σ.observe s c ins inputs false false).next with
      world := m.store ins.opc (ins.constants c) inputs σ.world }
  else
    { σ.next with vals := assign (m.eval ins.opc (ins.constants c) inputs σ.world) (ins.outputs c) 0 σ.vals }

def exec (prog : List Instr) (σ : State s.nbGlobals W V) : State s.nbGlobals W V :=
  if σ.halted then σ
  else
    match prog[σ.pc]? with
    | none => { σ with halted := true }
    | some ins =>
      let inputs := (ins.uses c).map σ.vals
      match ins.opc with
      | .opEnd => { σ with halted := true }
      | .nopn | .debugInsnStart => σ.next
      | .setLabel =>
        { (σ.observe s c ins [] true true).next with vals := endBlock s (lost σ.steps) σ.vals }
      | .discard =>
        { σ.next with vals := fun x => if x ∈ ins.args.take 1 then lost σ.steps x else σ.vals x }
      | .call => execCall s c m ins inputs σ
      | _ => execOp s c m lost prog ins inputs σ

/-- The first `n` operations of a run. -/
def run (prog : List Instr) : ℕ → State s.nbGlobals W V → State s.nbGlobals W V
  | 0, σ => σ
  | n + 1, σ => run prog n (exec s c m lost prog σ)

end Exec

end Ar7Qemu.Tcg
