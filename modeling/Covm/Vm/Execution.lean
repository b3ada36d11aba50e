import Covm.Storage.Traits

/-!
# The executor (`vm/execution.rs`)

The executor owns the storage backend, the caller's authentication, the output and the event log,
and turns errors of values and of the storage into `VMError`s. The system clock is an arbitrary
sequence of readings; `reads` counts the ones taken.
-/

namespace Covm

open Partial

structure VMExecution (S : Type) where
  storageBackend : Option S
  authContext : Option AuthContext
  ns : String
  output : String
  events : List VMEvent
  /-- The readings of the system clock, in seconds. -/
  clock : Nat → Nat
  reads : Nat
  transactionActive : Bool

/-- Behaviour when a key is not found in storage. -/
inductive MissingKeyBehavior where
  | default
  | error
  deriving DecidableEq, Repr

/-- Computations on the executor alone. -/
abbrev ExecutorOp (F S α : Type) := Comp (Fault F) (VMExecution S) α

namespace VMExecution

variable {F S : Type}

def new (clock : Nat → Nat) : VMExecution S :=
  ⟨none, none, "default", "", [], clock, 0, false⟩

def emit (message : String) : ExecutorOp F S Unit := fun x =>
  .ok () { x with output := x.output ++ message ++ "\n" }

def emitEvent (category message : String) : ExecutorOp F S Unit := fun x =>
  .ok () { x with
    events := x.events ++ [⟨category, message, x.clock x.reads⟩]
    reads := x.reads + 1 }

/-- Logs the event a storage call produced; its timestamp was read by that call. -/
def logStorageEvent (category label : String) : Option StorageEvent → ExecutorOp F S Unit
  | some e => fun x =>
    .ok () { x with
      events := x.events ++ [⟨category, label ++ ": " ++ e.details, e.timestamp⟩]
      reads := x.reads + 1 }
  | none => pure ()

/-- The next reading of the clock. -/
def now : ExecutorOp F S Nat := fun x => .ok (x.clock x.reads) x

/-- The `VMError` of a storage error during `operationName`. -/
def storageErrorToVMError (operationName : String) : StorageError → VMError F
  | .authenticationError details => .invalidSignature "unknown" details
  | .permissionDenied userId action key => .storageError
      (s!"Permission denied for user '{userId}' during {operationName}: " ++
        s!"operation '{action}' on '{key}'")
  | .notFound key => .storageError s!"Key '{key}' not found during {operationName}"
  | e => .storageError s!"Error during {operationName}: {e.debug}"

def storageOperation {α : Type} (operationName : String)
    (f : Option AuthContext → String → StorageM S α) : ExecutorOp F S α := fun x =>
  match x.storageBackend with
  | none => .error (.fault (.error .storageUnavailable)) x
  | some backend =>
    match f x.authContext x.ns backend with
    | .ok a backend => .ok a { x with storageBackend := some backend }
    | .error (.error e) backend =>
      .error (.fault (.error (storageErrorToVMError operationName e)))
        { x with storageBackend := some backend }
    | .error .panic backend =>
      .error (.fault .panic) { x with storageBackend := some backend }

section storage
variable [Number F] [StorageBackend S]

def executeCreateResource (resource : String) : ExecutorOp F S Unit := do
  storageOperation "create_resource" fun auth ns =>
    EconomicOperations.createResource auth ns resource
  emitEvent "economic" s!"Resource created: {resource}"

/-- `amount.as_number().unwrap() as u64`. -/
def unwrapAmount (amount : TypedValue F) : StorageM S Nat := fun b =>
  match amount.asNumber with
  | .ok n => .ok (Number.toU64 n) b
  | .error _ => .error .panic b

def executeMint (resource account : String) (amount : TypedValue F) (reason : Option String) :
    ExecutorOp F S Unit := do
  let t ← now
  let event ← storageOperation "mint" fun auth ns => do
    EconomicOperations.mint t auth ns resource account (← unwrapAmount amount)
      (reason.getD "No reason provided")
  logStorageEvent "economic" "mint" event

def executeTransfer (resource source target : String) (amount : TypedValue F)
    (reason : Option String) : ExecutorOp F S Unit := do
  let t ← now
  let event ← storageOperation "transfer" fun auth ns => do
    EconomicOperations.transfer t auth ns resource source target (← unwrapAmount amount)
      (reason.getD "No reason provided")
  logStorageEvent "economic" "transfer" event

def executeBurn (resource account : String) (amount : TypedValue F) (reason : Option String) :
    ExecutorOp F S Unit := do
  let t ← now
  let event ← storageOperation "burn" fun auth ns => do
    EconomicOperations.burn t auth ns resource account (← unwrapAmount amount)
      (reason.getD "No reason provided")
  logStorageEvent "economic" "burn" event

def executeBalance (resource account : String) : ExecutorOp F S (TypedValue F) := do
  let t ← now
  let (balance, event) ← storageOperation "get_balance" fun auth ns =>
    EconomicOperations.getBalance t auth ns resource account
  logStorageEvent "economic" "balance" event
  return .number (Number.ofNat balance)

/-- The amount of a reputation increment: rounded, not negative and at most `u64::MAX`. -/
def reputationAmount : Option (TypedValue F) → ExecutorOp F S Nat
  | none => pure 1
  | some value =>
    match value.asNumber with
    | .error (.coercionError source target) =>
      Comp.fail (.error (.typeMismatch target source "increment_reputation"))
    | .error _ => Comp.fail (.error (.typeMismatch "number" value.typeName "increment_reputation"))
    | .ok num =>
      let rounded := Number.round num
      if Number.lt rounded (Number.ofNat 0) then Comp.fail (.error (.invalidAmount rounded))
      else if Number.gt rounded (Number.ofNat (2 ^ 64 - 1)) then
        Comp.fail (.error (.invalidAmount rounded))
      else pure (Number.toU64 rounded)

end storage

section reputation
variable [Number F] [RecordingBackend S]

def executeIncrementReputation (identityId : String) (amount : Option (TypedValue F)) :
    ExecutorOp F S Unit := do
  let amountVal ← reputationAmount amount
  emitEvent "reputation"
    ("\x7b\"identity_id\": \"" ++ identityId ++ "\", \"amount\": " ++ toString amountVal ++ "\x7d")
  fun x =>
    match x.storageBackend with
    | none => .ok () x
    | some _ => (do
        let (current, event) ← storageOperation "get_reputation" fun auth ns =>
          EconomicOperations.getReputation auth ns identityId
        logStorageEvent "reputation" "get_reputation" event
        let t ← now
        let event ← storageOperation "set_reputation" fun auth ns => do
          let value ← StorageM.addU64 current amountVal
          EconomicOperations.setReputation t auth ns identityId value
        logStorageEvent "reputation" "set_reputation" event : ExecutorOp F S Unit) x

end reputation

section storage
variable [Number F] [StorageBackend S]

def executeStoreP (key : String) (value : TypedValue F) : ExecutorOp F S Unit := do
  let t ← now
  let event ← storageOperation "store_p" fun auth ns =>
    EconomicOperations.store t auth ns key value.display.toUTF8
  logStorageEvent "storage" "store" event

/-- How a stored text is read back: a number if it parses as one, then the literals. -/
def parseStored (s : String) : TypedValue F :=
  match Number.parse s with
  | some n => .number n
  | none =>
    if s = "true" then .boolean true
    else if s = "false" then .boolean false
    else if s = "null" then .null
    else .string s

/-- `str::contains`. -/
def containsText (s text : String) : Bool := decide (text.toList <:+: s.toList)

def executeLoadP (key : String) (missing : MissingKeyBehavior) :
    ExecutorOp F S (TypedValue F) := do
  let t ← now
  let load : ExecutorOp F S (ByteArray × Option StorageEvent) :=
    storageOperation "load_p" fun auth ns => EconomicOperations.load t auth ns key
  fun x =>
    match load x with
    | .ok (bytes, event) x => (do
        logStorageEvent "storage" "load" event
        match String.fromUTF8? bytes with
        | some s => return parseStored s
        | none => Comp.fail (.error (.deserialization s!"Failed to parse value for key '{key}'"))
        : ExecutorOp F S (TypedValue F)) x
    | .error (.fault (.error (.storageError details))) x =>
      -- the key is known to be missing by the wording of the message
      if containsText details "not found" then
        match missing with
        | .default => .ok (.number (Number.ofNat 0)) x
        | .error =>
          .error (.fault (.error (.storageError s!"Key '{key}' not found during load_p"))) x
      else .error (.fault (.error (.storageError details))) x
    | .error e x => .error e x

end storage

end VMExecution

/-! ## Arithmetic, comparison and logic -/

inductive ArithmeticOp where
  | add
  | sub
  | mul
  | div
  | mod
  deriving DecidableEq, Repr

inductive ComparisonOp where
  | eq
  | gt
  | lt
  deriving DecidableEq, Repr

inductive LogicalOp where
  | and
  | or
  deriving DecidableEq, Repr

section values
variable {F : Type} [Number F]

/-- `{} and {}` of the operands' types. -/
private def typesOf (a b : TypedValue F) : String := a.typeName ++ " and " ++ b.typeName

/-- The error an operation named `operation` raises for a failed coercion, or, if it failed for
another reason, with the given expectation. -/
private def mismatch (operation expected found : String) : TypedValueError → VMError F
  | .coercionError source target => .typeMismatch target source operation
  | _ => .typeMismatch expected found operation

private def divisionError (operation expected found : String) : TypedValueError → VMError F
  | .invalidOperationForType op types =>
    if types = "by zero" then .divisionByZero else .invalidOperation s!"{op} on {types}"
  | e => mismatch operation expected found e

def executeArithmetic (op : ArithmeticOp) (a b : TypedValue F) :
    Except (VMError F) (TypedValue F) :=
  match op with
  | .add => (a.add b).mapError (mismatch "add" "compatible types for addition" (typesOf a b))
  | .sub => (a.sub b).mapError (mismatch "sub" "compatible types for subtraction" (typesOf a b))
  | .mul => (a.mul b).mapError fun
    | .valueOutOfBounds => .invalidAmount (Number.neg (Number.ofNat 1))
    | e => mismatch "mul" "compatible types for multiplication" (typesOf a b) e
  | .div => (a.div b).mapError
      (divisionError "div" "compatible types for division" (typesOf a b))
  | .mod => (a.modulo b).mapError
      (divisionError "mod" "compatible types for modulo" (typesOf a b))

def executeComparison (op : ComparisonOp) (a b : TypedValue F) :
    Except (VMError F) (TypedValue F) :=
  match op with
  | .eq => (a.equals b).mapError (mismatch "equals" "comparable types" (typesOf a b))
  | .lt => (a.lessThan b).mapError (mismatch "less_than" "comparable types" (typesOf a b))
  | .gt => (a.greaterThan b).mapError (mismatch "greater_than" "comparable types" (typesOf a b))

/-- `execute_logical(a, "not")`. -/
def executeLogical (a : TypedValue F) : Except (VMError F) (TypedValue F) :=
  a.logicalNot.mapError
    (mismatch "not" "any type that can be coerced to boolean" a.typeName)

def executeBinaryLogical (op : LogicalOp) (a b : TypedValue F) :
    Except (VMError F) (TypedValue F) :=
  match op with
  | .and => (a.logicalAnd b).mapError
      (mismatch "and" "values that can be coerced to boolean" (typesOf a b))
  | .or => (a.logicalOr b).mapError
      (mismatch "or" "values that can be coerced to boolean" (typesOf a b))

end values

end Covm
