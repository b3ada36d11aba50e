import Covm.Bytecode.Ops
import Mathlib.Data.Finmap

/-!
# The bytecode compiler (`bytecode.rs`, `BytecodeCompiler`)

The compiler appends instructions to a program. A jump whose target is not yet known is emitted
with the address `0` and patched when its target is reached. The temporaries of counted loops and
of matches are variables named after the position of their first `Store`.

`compileOps` walks the blocks of the syntax; what it does with a construct is said by
`compileIf`, `compileWhile`, `compileLoop`, `compileDef` and `compileMatch`, which take the blocks
in compiled form.
-/

namespace Covm

variable {F : Type}

structure BytecodeProgram (F : Type) where
  instructions : List (BytecodeOp F)
  functionTable : HashMap Nat
  originalOps : Option (List (Op F))

namespace BytecodeProgram

def new : BytecodeProgram F := ⟨[], ∅, none⟩

def withOriginalOps (p : BytecodeProgram F) (ops : List (Op F)) : BytecodeProgram F :=
  { p with originalOps := some ops }

end BytecodeProgram

/-- Computations of the compiler on its program. -/
abbrev BytecodeCompiler (F α : Type) := StateM (BytecodeProgram F) α

namespace BytecodeCompiler

/-- `self.program.instructions.push(op)`. -/
def push (op : BytecodeOp F) : BytecodeCompiler F Unit := fun p =>
  ((), { p with instructions := p.instructions ++ [op] })

/-- `self.program.instructions.len()`. -/
def len : BytecodeCompiler F Nat := fun p => (p.instructions.length, p)

def setJumpIfZero (addr : Nat) : BytecodeOp F → BytecodeOp F
  | .jumpIfZero _ => .jumpIfZero addr
  | op => op

def setJump (addr : Nat) : BytecodeOp F → BytecodeOp F
  | .jump _ => .jump addr
  | op => op

/-- `if let BytecodeOp::JumpIfZero(ref mut a) = instructions[pos] { *a = addr }`. -/
def patchJumpIfZero (pos addr : Nat) : BytecodeCompiler F Unit := fun p =>
  ((), { p with instructions := p.instructions.modify pos (setJumpIfZero addr) })

/-- `if let BytecodeOp::Jump(ref mut a) = instructions[pos] { *a = addr }`. -/
def patchJump (pos addr : Nat) : BytecodeCompiler F Unit := fun p =>
  ((), { p with instructions := p.instructions.modify pos (setJump addr) })

/-! ### Constructs -/

def compileIf (condition thenBranch : BytecodeCompiler F Unit)
    (elseBranch : Option (BytecodeCompiler F Unit)) : BytecodeCompiler F Unit := do
  condition
  let jumpIfZeroPos ← len
  push (.jumpIfZero 0)
  thenBranch
  match elseBranch with
  | some elseOps =>
    let jumpPos ← len
    push (.jump 0)
    let elsePos ← len
    patchJumpIfZero jumpIfZeroPos elsePos
    elseOps
    let afterElsePos ← len
    patchJump jumpPos afterElsePos
  | none =>
    let afterThenPos ← len
    patchJumpIfZero jumpIfZeroPos afterThenPos

def compileWhile (condition body : BytecodeCompiler F Unit) : BytecodeCompiler F Unit := do
  let loopStart ← len
  condition
  let exitJumpPos ← len
  push (.jumpIfZero 0)
  body
  push (.jump loopStart)
  let afterLoopPos ← len
  patchJumpIfZero exitJumpPos afterLoopPos

/-- Runs `body` `count` times. -/
def unroll (body : BytecodeCompiler F Unit) : Nat → BytecodeCompiler F Unit
  | 0 => pure ()
  | count + 1 => do
    body
    unroll body count

/-- The variable a counted loop keeps its counter in. -/
def loopCounter (pos : Nat) : String := "__loop_counter_" ++ toString pos

/-- The variable a match keeps its value in. -/
def matchValue (pos : Nat) : String := "__match_value_" ++ toString pos

variable [Number F]

/-- The lowering of short loops of 1000 iterations: the counter stays on the stack. -/
def compileFastLoop (count : Nat) (body : BytecodeCompiler F Unit) :
    BytecodeCompiler F Unit := do
  push (.push (.number (Number.ofNat count)))
  let loopStart ← len
  push .dup
  push (.push (.number (Number.ofNat 0)))
  push .gt
  let exitJumpPos ← len
  push (.jumpIfZero 0)
  body
  push (.push (.number (Number.ofNat 1)))
  push .sub
  push (.jump loopStart)
  let afterLoopPos ← len
  patchJumpIfZero exitJumpPos afterLoopPos
  push .pop

/-- The lowering of other loops: the counter is a variable. -/
def compileCountedLoop (count : Nat) (body : BytecodeCompiler F Unit) :
    BytecodeCompiler F Unit := do
  push (.push (.number (Number.ofNat count)))
  let counterVar := loopCounter (← len)
  push (.store counterVar)
  let loopStart ← len
  push (.load counterVar)
  push (.push (.number (Number.ofNat 0)))
  push .gt
  let exitJumpPos ← len
  push (.jumpIfZero 0)
  body
  push (.load counterVar)
  push (.push (.number (Number.ofNat 1)))
  push .sub
  push (.store counterVar)
  push (.jump loopStart)
  let afterLoopPos ← len
  patchJumpIfZero exitJumpPos afterLoopPos

/-- `bodyLen` is the number of operations of the body. -/
def compileLoop (count bodyLen : Nat) (body : BytecodeCompiler F Unit) :
    BytecodeCompiler F Unit :=
  if count ≤ 5 then unroll body count
  else if count = 1000 ∧ bodyLen ≤ 5 then compileFastLoop count body
  else compileCountedLoop count body

omit [Number F] in
def compileDef (name : String) (params : List String) (body : BytecodeCompiler F Unit) :
    BytecodeCompiler F Unit := do
  match (← get).functionTable.lookup name with
  | some _ =>
    push (.functionEntry name params)
    body
    push .returnOp
  | none => pure ()

omit [Number F] in
/-- The cases of a match; returns the positions of the jumps to its end. -/
def compileCases (matchVar : String) :
    List (TypedValue F × BytecodeCompiler F Unit) → BytecodeCompiler F (List Nat)
  | [] => pure []
  | (caseVal, caseBody) :: cases => do
    push (.load matchVar)
    push (.push caseVal)
    push .eq
    let skipJumpPos ← len
    push (.jumpIfZero 0)
    caseBody
    let exitJumpPos ← len
    push (.jump 0)
    let afterCasePos ← len
    patchJumpIfZero skipJumpPos afterCasePos
    let exitJumps ← compileCases matchVar cases
    return exitJumpPos :: exitJumps

omit [Number F] in
def patchJumps (addr : Nat) : List Nat → BytecodeCompiler F Unit
  | [] => pure ()
  | pos :: rest => do
    patchJump pos addr
    patchJumps addr rest

omit [Number F] in
/-- `if let Some(default_body) = default`. -/
def compileDefault : Option (BytecodeCompiler F Unit) → BytecodeCompiler F Unit
  | some defaultBody => defaultBody
  | none => pure ()

omit [Number F] in
def compileMatch (value : BytecodeCompiler F Unit)
    (cases : List (TypedValue F × BytecodeCompiler F Unit))
    (default : Option (BytecodeCompiler F Unit)) : BytecodeCompiler F Unit := do
  value
  let matchVar := matchValue (← len)
  push (.store matchVar)
  let exitJumps ← compileCases matchVar cases
  compileDefault default
  let afterMatchPos ← len
  patchJumps afterMatchPos exitJumps

/-! ### Operations -/

/-- What is kept of the block of an `IfPassed` or an `Else`. -/
def compileBlock (block : List (Op F)) : List (BytecodeOp F) :=
  block.map fun
    | .push val => .push val
    | _ => .nop

/-- The operations that compile to a single instruction. -/
def instruction : Op F → Option (BytecodeOp F)
  | .push val => some (.push val)
  | .add => some .add
  | .sub => some .sub
  | .mul => some .mul
  | .div => some .div
  | .store name => some (.store name)
  | .load name => some (.load name)
  | .pop => some .pop
  | .eq => some .eq
  | .gt => some .gt
  | .lt => some .lt
  | .not => some .not
  | .and => some .and
  | .or => some .or
  | .dup => some .dup
  | .swap => some .swap
  | .overOp => some .returnOp
  | .negate => some .negate
  | .call name => some (.call name)
  | .returnOp => some .returnOp
  | .nop => some .nop
  | .breakOp => some .breakOp
  | .continueOp => some .continueOp
  | .emit msg => some (.emit msg)
  | .emitEvent category message => some (.emitEvent category message)
  | .dumpStack => some .returnOp
  | .dumpMemory => some .returnOp
  | .dumpState => some .returnOp
  | .assertTop val => some (.assertTop val)
  | .assertMemory key expected => some (.assertMemory key expected)
  | .assertEqualStack depth => some (.assertEqualStack depth)
  | .mod => some .mod
  | .rankedVote _ _ => some .returnOp
  | .storeP key => some (.storeStorage key)
  | .loadP key => some (.loadStorage key)
  | .loadVersionP key version => some (.loadStorageVersion key version)
  | .listVersionsP key => some (.listStorageVersions key)
  | .liquidDelegate source target => some (.liquidDelegate source target)
  | .voteThreshold threshold => some (.voteThreshold threshold)
  | .quorumThreshold threshold => some (.quorumThreshold threshold)
  | .verifyIdentity _ _ _ => some .returnOp
  | .checkMembership _ _ => some .returnOp
  | .checkDelegation _ _ => some .returnOp
  | .diffVersionsP key v1 v2 => some (.diffStorageVersions key v1 v2)
  | .createResource resource => some (.createResource resource)
  | .mint resource account amount reason => some (.mint resource account (.number amount) reason)
  | .transfer resource source target amount reason =>
    some (.transfer resource source target (.number amount) reason)
  | .burn resource account amount reason => some (.burn resource account (.number amount) reason)
  | .balance resource account => some (.balance resource account)
  | .verifySignature => some .verifySignature
  | .getIdentity identityId => some (.getIdentity identityId)
  | .requireValidSignature voter message signature =>
    some (.requireValidSignature voter message signature)
  | .incrementReputation identityId amount reason =>
    some (.incrementReputation identityId (amount.map .number) reason)
  | .ifPassed block => some (.ifPassed (compileBlock block))
  | .elseBlock block => some (.elseBlock (compileBlock block))
  | .macroOp name => some (.macroOp name)
  | .requireRole role => some (.requireRole role)
  | .minDeliberation duration => some (.minDeliberation duration)
  | .expiresIn duration => some (.expiresIn duration)
  | .ifOp .. | .whileOp .. | .loop .. | .defOp .. | .matchOp .. => none

mutual

/-- The `match op` of `compile_ops`. -/
def compileOp : Op F → BytecodeCompiler F Unit
  | .ifOp condition thenOps elseOps =>
    compileIf (compileOps condition) (compileOps thenOps) (compileOptional elseOps)
  | .whileOp condition body => compileWhile (compileOps condition) (compileOps body)
  | .loop count body => compileLoop count body.length (compileOps body)
  | .defOp name params body => compileDef name params (compileOps body)
  | .matchOp value cases default =>
    compileMatch (compileOps value) (compileArms cases) (compileOptional default)
  | op =>
    match instruction op with
    | some i => push i
    | none => pure ()

def compileOps : List (Op F) → BytecodeCompiler F Unit
  | [] => pure ()
  | op :: ops => do
    compileOp op
    compileOps ops

def compileOptional : Option (List (Op F)) → Option (BytecodeCompiler F Unit)
  | some ops => some (compileOps ops)
  | none => none

def compileArms : List (TypedValue F × List (Op F)) →
    List (TypedValue F × BytecodeCompiler F Unit)
  | [] => []
  | (caseVal, caseBody) :: cases => (caseVal, compileOps caseBody) :: compileArms cases

end

/-! ### Programs -/

/-- Compiles the definitions among `ops` and records where they start. -/
def preProcessDefs : List (Op F) → BytecodeCompiler F Unit
  | [] => pure ()
  | .defOp name params body :: ops => do
    let entryPoint ← len
    modify fun p => { p with functionTable := p.functionTable.insert name entryPoint }
    push (.functionEntry name params)
    compileOps body
    push .returnOp
    preProcessDefs ops
  | _ :: ops => preProcessDefs ops

/-- Records the entry points of the functions; the instructions are thrown away. -/
def preProcessFunctions (ops : List (Op F)) : BytecodeCompiler F Unit := do
  modify fun p => { p with functionTable := ∅ }
  let currentPos ← len
  preProcessDefs ops
  modify fun p => { p with instructions := p.instructions.take currentPos }

/-- `BytecodeCompiler::compile`. -/
def compile (ops : List (Op F)) : BytecodeProgram F :=
  ((do
    preProcessFunctions ops
    compileOps ops : BytecodeCompiler F Unit) (BytecodeProgram.new.withOriginalOps ops)).2

end BytecodeCompiler

end Covm
