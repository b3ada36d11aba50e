import Covm.Governance.Handlers

/-!
# The AST interpreter (`VM::execute_inner`, `VM::execute_call`)

`executeInner` runs a list of operations. The operations that run no block and fall through to the
next one are `executeBasic`; the others are arms of `executeOp`, which runs a block through the
parameter `inner`, the interpreter with one unit of fuel less. The fuel bounds the depth of nested
`execute_inner` calls and the iterations of a `While`.

An operation either falls through or leaves the list it stands in (`Flow`). The loop control signal
is a variable of one activation of `execute_inner`: `Break` and `Continue` set it and leave their
own list, and a loop reads the variable of the list that the *loop* stands in.
-/

namespace Covm

open Partial

/-- What follows an operation in the `for` loop of `execute_inner`. -/
inductive Flow where
  | next
  | leave
  deriving DecidableEq, Repr

namespace VM

section operations
variable {F S : Type} [Number F]

/-- Pops two operands and pushes the result. -/
def binary (f : TypedValue F → TypedValue F → Except (VMError F) (TypedValue F)) :
    Exec F S Unit := do
  let (a, b) ← popTwo
  push (← ofExcept (f a b))

def unary (f : TypedValue F → Except (VMError F) (TypedValue F)) : Exec F S Unit := do
  let value ← pop
  push (← ofExcept (f value))

def negate : TypedValue F → Except (VMError F) (TypedValue F)
  | .number num => .ok (.number (Number.neg num))
  | value => .error (.typeMismatch "number" value.typeName "negate")

/-- `actual.equals(&expected).unwrap_or(Boolean(false)).as_boolean().unwrap_or(false)`. -/
def holdsEqual (actual expected : TypedValue F) : Bool :=
  match actual.equals expected with
  | .ok v =>
    match v.asBoolean with
    | .ok b => b
    | .error _ => false
  | .error _ => false

/-- `match_value.equals(&case_value).unwrap_or(Boolean(false)) == Boolean(true)`. -/
def matchesCase (matchValue caseValue : TypedValue F) : Bool :=
  match matchValue.equals caseValue with
  | .ok v => v.peq (.boolean true)
  | .error _ => false

def assertTop (expected : TypedValue F) : Exec F S Unit := do
  let actual ← pop
  if !holdsEqual actual expected then
    raise (.assertionFailed s!"Expected {expected.display}, got {actual.display}")

def assertMemory (key : String) (expected : TypedValue F) : Exec F S Unit := do
  let actual ← load key
  if !holdsEqual actual expected then
    raise (.assertionFailed
      s!"Memory '{key}': expected {expected.display}, got {actual.display}")

def assertEqualStack (depth : Nat) : Exec F S Unit := do
  if !(← onStack (VMStack.assertEqualStack depth)) then
    raise (.assertionFailed s!"Stack depth {depth} values are not equal")

def dumpStack : Exec F S Unit := do emit (VMStack.formatStack (← get).stack)

def dumpMemory : Exec F S Unit := do emit (← get).memory.1.display

/-- Sets the return value of the current function, if there is one, from the top of the stack. -/
def executeReturn : Exec F S Unit := do
  let vm ← get
  if vm.memory.1.inFunctionCall then setReturnValue (vm.stack.top.getD .null)

/-- The operations that touch the storage and are only announced in simulation mode. -/
def isSimulated : Op F → Bool
  | .storeP _ | .loadP _ | .loadVersionP .. | .listVersionsP _ | .diffVersionsP ..
  | .createResource _ | .mint .. | .transfer .. | .burn .. | .balance .. => true
  | _ => false

/-- Of those, the ones that would push a value. -/
def pushesPlaceholder : Op F → Bool
  | .loadP _ | .loadVersionP .. | .balance .. => true
  | _ => false

def simulate (op : Op F) : Exec F S Unit := do
  emit s!"[SIMULATION] Would execute: {op.display}"
  if pushesPlaceholder op then push (.number (Number.ofNat 0))

variable [StorageBackend S]

/-- The operations with an arm of their own that run no block and fall through. -/
def executeBasic : Op F → Option (Exec F S Unit)
  | .push value => some (push value)
  | .add => some (binary (executeArithmetic .add))
  | .sub => some (binary (executeArithmetic .sub))
  | .mul => some (binary (executeArithmetic .mul))
  | .div => some (binary (executeArithmetic .div))
  | .mod => some (binary (executeArithmetic .mod))
  | .store name => some do
    let value ← pop
    store name value
  | .load name => some do
    let value ← load name
    push value
  | .emit message => some (emit message)
  | .negate => some (unary negate)
  | .assertTop expected => some (assertTop expected)
  | .dumpStack => some dumpStack
  | .dumpMemory => some dumpMemory
  | .assertMemory key expected => some (assertMemory key expected)
  | .pop => some do
    let _ ← pop
  | .eq => some (binary (executeComparison .eq))
  | .gt => some (binary (executeComparison .gt))
  | .lt => some (binary (executeComparison .lt))
  | .not => some (unary executeLogical)
  | .and => some (binary (executeBinaryLogical .and))
  | .or => some (binary (executeBinaryLogical .or))
  | .dup => some (onStack VMStack.dup)
  | .swap => some (onStack VMStack.swap)
  | .overOp => some (onStack VMStack.overOp)
  | .defOp name params body => some (defineFunction name params body)
  | .nop => some (pure ())
  | .emitEvent category message => some (emitEvent category message)
  | .assertEqualStack depth => some (assertEqualStack depth)
  | .dumpState => some do
    dumpStack
    dumpMemory
  | .createResource resource => some (onExecutor (VMExecution.executeCreateResource resource))
  | .mint resource account amount reason =>
    some (onExecutor (VMExecution.executeMint resource account (.number amount) reason))
  | .transfer resource source target amount reason =>
    some (onExecutor (VMExecution.executeTransfer resource source target (.number amount) reason))
  | .burn resource account amount reason =>
    some (onExecutor (VMExecution.executeBurn resource account (.number amount) reason))
  | .balance resource account => some do
    let balance ← onExecutor (VMExecution.executeBalance resource account)
    push balance
  | .incrementReputation identityId amount _ =>
    some (onExecutor
      (VMExecution.executeIncrementReputation identityId (amount.map TypedValue.number)))
  | .storeP key => some do
    let value ← pop
    logStorageOperation "StoreP" key value
    onExecutor (VMExecution.executeStoreP key value)
  | .loadP key => some do
    let value ← onExecutor (VMExecution.executeLoadP key (← get).missingKeyBehavior)
    logStorageOperation "LoadP" key value
    push value
  | _ => none

variable [SerdeJson]

/-- The arms that run no block, and the last arm: what the governance module handles ends the run
of the whole list. -/
def executePlain (op : Op F) : Exec F S Flow :=
  match executeBasic op with
  | some x => do
    x
    return .next
  | none => do
    match ← Governance.tryHandleGovernanceOp op with
    | some () => return .leave
    | none => raise (.notImplemented (.op op))

theorem executePlain_of_basic {op : Op F} {x : Exec F S Unit} (h : executeBasic op = some x) :
    executePlain op = x >>= fun _ => pure .next := by
  rw [executePlain, h]

theorem executePlain_of_none {op : Op F} (h : (executeBasic op : Option (Exec F S Unit)) = none) :
    (executePlain op : Exec F S Flow) = Governance.tryHandleGovernanceOp op >>= fun handled =>
      match handled with
      | some () => pure .leave
      | none => raise (.notImplemented (.op op)) := by
  rw [executePlain, h]

end operations

section control
variable {F S : Type}

/-- The iterations of a `Loop`; `control` is the signal of the list the loop stands in. -/
def executeLoop (body : Exec F S Unit) : Nat → LoopControl → Exec F S LoopControl
  | 0, control => pure control
  | count + 1, control => do
    body
    match control with
    | .brk => return .none
    | .cont => executeLoop body count .none
    | .none => executeLoop body count .none

variable [Number F]

/-- The condition of an `If` or a `While`: its value is popped. -/
def executeCondition (condition : Exec F S Unit) : Exec F S Bool := do
  condition
  let value ← pop
  return !value.isFalsey

/-- At most `fuel` iterations of a `While`. -/
def executeWhile (condition body : Exec F S Unit) : Nat → LoopControl → Exec F S LoopControl
  | 0, _ => Comp.outOfFuel
  | fuel + 1, control => do
    if ← executeCondition condition then
      body
      match control with
      | .brk => return .none
      | .cont => executeWhile condition body fuel .none
      | .none => executeWhile condition body fuel .none
    else return control

/-- The body of the first case that matches, or else the default. -/
def selectCase (value : TypedValue F) :
    List (TypedValue F × List (Op F)) → Option (List (Op F)) → Option (List (Op F))
  | [], default => default
  | (caseValue, caseBody) :: cases, default =>
    if matchesCase value caseValue then some caseBody else selectCase value cases default

/-- Pops the arguments, the last parameter's first. -/
def popArguments : List String → HashMap (TypedValue F) → Exec F S (HashMap (TypedValue F))
  | [], values => pure values
  | name :: names, values => do
    let value ← pop
    popArguments names (values.insert name value)

/-- What `execute_call` does before the body: the body is returned. -/
def enterCall (name : String) : Exec F S (List (Op F)) := do
  let (params, body) ← getFunction name
  let values ← popArguments params.reverse ∅
  pushCallFrame name values
  return body

/-- What `execute_call` does after the body. -/
def exitCall (name : String) : Exec F S Unit := do
  match ← popCallFrame with
  | some frame =>
    match frame.returnValue with
    | some value => push value
    | none => pure ()
  | none => raise (.contextMismatch
      s!"Expected call frame for function '{name}' but none found")

variable (inner : List (Op F) → Exec F S Unit)

/-- The block chosen by an `If` or a `Match`, if there is one. -/
def executeOptional : Option (List (Op F)) → Exec F S Unit
  | some ops => inner ops
  | none => pure ()

def executeCall (name : String) : Exec F S Unit := do
  let body ← enterCall name
  inner body
  exitCall name

variable [StorageBackend S] [SerdeJson] (fuel : Nat)

/-- The `match op` of `execute_inner`. -/
def executeOp (control : LoopControl) : Op F → Exec F S (Flow × LoopControl)
  | .ifOp condition thenOps elseOps => do
    let holds ← executeCondition (inner condition)
    executeOptional inner (if holds then some thenOps else elseOps)
    return (.next, control)
  | .loop count body => do
    let control ← executeLoop (inner body) count control
    return (.next, control)
  | .whileOp condition body => do
    let control ← executeWhile (inner condition) (inner body) fuel control
    return (.next, control)
  | .matchOp value cases default => do
    inner value
    let matchValue ← pop
    executeOptional inner (selectCase matchValue cases default)
    return (.next, control)
  | .call name => do
    executeCall inner name
    return (.next, control)
  | .returnOp => do
    executeReturn
    return (.leave, control)
  | .breakOp => return (.leave, .brk)
  | .continueOp => return (.leave, .cont)
  | op => do
    let flow ← executePlain op
    return (flow, control)

/-- One iteration of the `for` loop of `execute_inner`. -/
def executeNext (control : LoopControl) (op : Op F) : Exec F S (Flow × LoopControl) := do
  logTrace op
  logExplanation op
  if (← get).simulationMode && isSimulated op then
    simulate op
    return (.next, control)
  else
    let (flow, control) ← executeOp inner fuel control op
    if flow = .next then recordStackAfter
    return (flow, control)

def executeOps (control : LoopControl) : List (Op F) → Exec F S Unit
  | [] => pure ()
  | op :: ops => do
    let (flow, control) ← executeNext inner fuel control op
    match flow with
    | .next => executeOps control ops
    | .leave => pure ()

end control

section interpreter
variable {F S : Type} [Number F] [StorageBackend S] [SerdeJson]

def executeInner : Nat → List (Op F) → Exec F S Unit
  | 0, _ => Comp.outOfFuel
  | fuel + 1, ops => executeOps (executeInner fuel) fuel .none ops

def execute (fuel : Nat) (ops : List (Op F)) : Exec F S Unit := executeInner fuel ops

end interpreter

end VM

end Covm
