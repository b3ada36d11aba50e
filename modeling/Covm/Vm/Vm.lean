import Covm.Vm.Memory
import Covm.Vm.Execution
import Covm.Vm.Ledger

/-!
# The VM state (`vm/vm.rs`, `vm/typed_trace.rs`)

The VM coordinates the stack, the memory and the executor. Its operations go through one of these
components at a time: `onStack`, `onMemory` and `onExecutor` run a component's operation and leave
the rest of the VM alone. The network node, which no operation reads, is left out.
-/

namespace Covm

open Partial

structure TypedTraceFrame (F : Type) where
  op : Op F
  stackBefore : VMStack F
  stackAfter : VMStack F

structure VMTracer (F : Type) where
  enabled : Bool
  externalFrames : List (TypedTraceFrame F)

structure VM (F S : Type) where
  stack : VMStack F
  memory : Memory F
  executor : VMExecution S
  missingKeyBehavior : MissingKeyBehavior
  dag : Option (DagLedger F)
  traceEnabled : Bool
  explainEnabled : Bool
  simulationMode : Bool
  verboseStorageTrace : Bool
  tracer : Option (VMTracer F)

/-- Computations of the VM. -/
abbrev Exec (F S α : Type) := Comp (Fault F) (VM F S) α

namespace VM

variable {F S α : Type}

/-- `VM::new`, given the readings of the clock. -/
def new (clock : Nat → Nat) : VM F S where
  stack := []
  memory := ⟨VMMemory.new, VMMemory.framed_new⟩
  executor := VMExecution.new clock
  missingKeyBehavior := .default
  dag := some DagLedger.new
  traceEnabled := false
  explainEnabled := false
  simulationMode := false
  verboseStorageTrace := false
  tracer := none

def setStorageBackend (backend : S) (vm : VM F S) : VM F S :=
  { vm with executor := { vm.executor with storageBackend := some backend } }

def setAuthContext (auth : AuthContext) (vm : VM F S) : VM F S :=
  { vm with executor := { vm.executor with authContext := some auth } }

def withStorageBackend (clock : Nat → Nat) (backend : S) : VM F S :=
  (VM.new clock).setStorageBackend backend

def onStack (x : StackOp F α) : Exec F S α :=
  Comp.zoom VM.stack (fun s vm => { vm with stack := s }) x

def onExecutor (x : ExecutorOp F S α) : Exec F S α :=
  Comp.zoom VM.executor (fun e vm => { vm with executor := e }) x

/-- `Err(e)` with `?`. -/
def raise (e : VMError F) : Exec F S α := Comp.fail (.error e)

/-- A `Result` with `?`. -/
def ofExcept : Except (VMError F) α → Exec F S α
  | .ok a => pure a
  | .error e => raise e

def push (v : TypedValue F) : Exec F S Unit := onStack (VMStack.push v)

def pop : Exec F S (TypedValue F) := onStack VMStack.pop

def popTwo : Exec F S (TypedValue F × TypedValue F) := onStack VMStack.popTwo

theorem push_apply (v : TypedValue F) (vm : VM F S) :
    push v vm = .ok () { vm with stack := v :: vm.stack } := rfl

theorem pop_of_cons {vm : VM F S} {v : TypedValue F} {s : VMStack F} (h : vm.stack = v :: s) :
    pop vm = .ok v { vm with stack := s } := by
  cases vm
  subst h
  rfl

theorem pop_of_nil {vm : VM F S} (h : vm.stack = []) :
    pop vm = .error (.fault (.error .stackUnderflow)) vm := by
  cases vm
  subst h
  rfl

def emit (message : String) : Exec F S Unit := onExecutor (VMExecution.emit message)

def emitEvent (category message : String) : Exec F S Unit :=
  onExecutor (VMExecution.emitEvent category message)

/-! ### Memory operations -/

def modifyMemory (f : Memory F → Memory F) : Exec F S Unit := fun vm =>
  .ok () { vm with memory := f vm.memory }

def store (name : String) (v : TypedValue F) : Exec F S Unit :=
  modifyMemory fun m => ⟨m.1.store name v, m.2.store name v⟩

def load (name : String) : Exec F S (TypedValue F) := fun vm =>
  ofExcept (vm.memory.1.load name) vm

def defineFunction (name : String) (params : List String) (body : List (Op F)) :
    Exec F S Unit :=
  modifyMemory fun m => ⟨m.1.defineFunction name params body, m.2.defineFunction name params body⟩

def getFunction (name : String) : Exec F S (List String × List (Op F)) := fun vm =>
  ofExcept (vm.memory.1.getFunction name) vm

def pushCallFrame (name : String) (params : HashMap (TypedValue F)) : Exec F S Unit :=
  modifyMemory fun m => ⟨m.1.pushCallFrame name params, m.2.pushCallFrame name params⟩

def popCallFrame : Exec F S (Option (TypedCallFrame F)) := fun vm =>
  .ok vm.memory.1.popCallFrame.1
    { vm with memory := ⟨vm.memory.1.popCallFrame.2, vm.memory.2.popCallFrame⟩ }

def setReturnValue (v : TypedValue F) : Exec F S Unit := fun vm =>
  match h : vm.memory.1.setReturnValue v with
  | .ok m => .ok () { vm with memory := ⟨m, vm.memory.2.setReturnValue h⟩ }
  | .error e => raise e vm

def setStringMetadata (key value : String) : Exec F S Unit :=
  modifyMemory fun m => ⟨m.1.setStringMetadata key value, m.2.setStringMetadata key value⟩

/-! ### Tracing and explanation -/

def logTrace (op : Op F) : Exec F S Unit := fun vm =>
  if vm.traceEnabled then
    match vm.tracer with
    | some t =>
      if t.enabled then
        .ok () { vm with
          tracer := some { t with externalFrames := t.externalFrames ++ [⟨op, vm.stack, []⟩] } }
      else .ok () vm
    | none => .ok () vm
  else .ok () vm

def recordStackAfter : Exec F S Unit := fun vm =>
  if vm.traceEnabled then
    match vm.tracer with
    | some t =>
      match t.externalFrames.getLast? with
      | some frame =>
        .ok () { vm with
          tracer := some { t with
            externalFrames := t.externalFrames.dropLast ++
              [{ frame with stackAfter := vm.stack }] } }
      | none => .ok () vm
    | none => .ok () vm
  else .ok () vm

/-- `Debug` of a value. -/
def debugValue [Number F] : TypedValue F → String
  | .number n => "Number(" ++ Number.debug n ++ ")"
  | .boolean b => "Boolean(" ++ toString b ++ ")"
  | .string s => "String(" ++ debugString s ++ ")"
  | .null => "Null"

def explainOp [Number F] : Op F → String
  | .push value => s!"Push value {debugValue value} onto the stack"
  | .add => "Add the top two values on the stack"
  | .sub => "Subtract the top value from the second value on the stack"
  | .mul => "Multiply the top two values on the stack"
  | .div => "Divide the second value by the top value on the stack"
  | .mod => "Calculate the remainder of the second value divided by the top value"
  | .store key => s!"Store the top value in memory with key '{key}'"
  | .load key => s!"Load value with key '{key}' from memory"
  | .ifOp _ _ none => "If the condition is true, execute 'then' branch"
  | .ifOp _ _ (some _) =>
    "If the condition is true, execute 'then' branch, otherwise execute 'else' branch"
  | .loop count _ => s!"Execute the body {count} times"
  | .whileOp _ _ => "While the condition is true, execute the body"
  | .pop => "Remove the top value from the stack"
  | .eq => "Check if the top two values are equal"
  | .gt => "Check if the second value is greater than the top value"
  | .lt => "Check if the second value is less than the top value"
  | .not => "Logical NOT of the top value"
  | .and => "Logical AND of the top two values"
  | .or => "Logical OR of the top two values"
  | .dup => "Duplicate the top value on the stack"
  | .swap => "Swap the top two values on the stack"
  | .overOp => "Copy the second value to the top of the stack"
  | .defOp name _ _ => s!"Define a function named '{name}'"
  | .call name => s!"Call the function named '{name}'"
  | .returnOp => "Return from the current function"
  | .nop => "No operation (do nothing)"
  | .matchOp .. => "Match a value against several cases"
  | .breakOp => "Break out of the innermost loop"
  | .continueOp => "Continue to the next iteration of the innermost loop"
  | .emitEvent category message =>
    s!"Emit an event with category '{category}' and message '{message}'"
  | .assertEqualStack depth => s!"Assert that the top {depth} values on the stack are equal"
  | .dumpState => "Display the entire VM state"
  | .storeP key => s!"Store the top stack value in persistent storage under key '{key}'"
  | .loadP key =>
    s!"Load value from persistent storage with key '{key}' and push it onto the stack"
  | op => s!"Execute operation: {op.display}"

def logExplanation [Number F] (op : Op F) : Exec F S Unit := fun vm =>
  if vm.explainEnabled then emit s!"[EXPLAIN] {explainOp op}" vm else .ok () vm

def logStorageOperation [Number F] (operation key : String) (value : TypedValue F) :
    Exec F S Unit := fun vm =>
  if vm.verboseStorageTrace then
    emitEvent "storage_trace" s!"{operation} {key} = {value.display}" vm
  else .ok () vm

end VM

end Covm
