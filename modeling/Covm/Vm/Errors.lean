import Covm.Bytecode.Ops
import Covm.Partial.Basic

/-!
# Errors (`vm/errors.rs`, `storage/errors.rs`)

`VMError` has the variants the VM raises. Where the source formats an operation into the message
of `NotImplemented`, the variant carries the operation itself. A `Fault` is how a run ends other
than with `Ok`: with an error, or with a Rust panic (an index out of range, `unwrap` of nothing,
integer overflow).
-/

namespace Covm

/-- What a `VMError::NotImplemented` message is about. -/
inductive Unsupported (F : Type) where
  /-- `Operation not implemented: {op:?}` -/
  | op (op : Op F)
  /-- `Operation not implemented in bytecode: {op:?}` -/
  | instruction (op : BytecodeOp F)
  | message (text : String)

inductive VMError (F : Type) where
  | storageUnavailable
  | invalidSignature (identityId reason : String)
  | undefinedOperation (text : String)
  | divisionByZero
  | stackUnderflow
  | deserialization (text : String)
  | governanceError (text : String)
  | contextMismatch (text : String)
  | storageError (details : String)
  | notImplemented (what : Unsupported F)
  | assertionFailed (message : String)
  | identityContextUnavailable
  | permissionDenied (user action resource : String)
  | typeMismatch (expected found operation : String)
  | invalidOperation (operation : String)
  | invalidAmount (amount : F)
  | undefinedVariable (name : String)
  | undefinedFunction (name : String)

inductive Fault (F : Type) where
  | error (e : VMError F)
  | panic

inductive StorageError where
  | authenticationError (details : String)
  | permissionDenied (userId action key : String)
  | notFound (key : String)
  | transactionError (details : String)
  | conflictError (resource details : String)
  | connectionError (backend details : String)
  | serializationError (dataType details : String)
  | invalidDataFormat (expected received details : String)
  | quotaExceeded (limitType : String) (current maximum : Nat)
  | timeoutError (operation : String) (timeoutSecs : Nat)
  | resourceLocked (resource details : String)
  | validationError (rule details : String)
  | timeError (details : String)
  | ioError (operation details : String)
  | schemaVersionError (currentVersion requiredVersion details : String)
  | other (details : String)
  | resourceNotFound (resource : String)
  | insufficientBalance (details : String)
  | versionConflict (current expected : Nat) (resource : String)
  deriving DecidableEq, Repr

/-- `Debug` of a string: in quotes, with the usual escapes. -/
def debugString (s : String) : String :=
  let escape (c : Char) : String :=
    match c with
    | '"' => "\\\""
    | '\\' => "\\\\"
    | '\n' => "\\n"
    | '\r' => "\\r"
    | '\t' => "\\t"
    | c => if c.toNat = 0 then "\\0" else c.toString
  "\"" ++ String.join (s.toList.map escape) ++ "\""

namespace StorageError

/-- A struct variant as the derived `Debug` shows it. -/
private def debugStruct (name : String) (fields : List (String × String)) : String :=
  name ++ " \x7b " ++ ", ".intercalate (fields.map fun f => f.1 ++ ": " ++ f.2) ++ " \x7d"

/-- The derived `Debug`. -/
def debug : StorageError → String
  | authenticationError d => debugStruct "AuthenticationError" [("details", debugString d)]
  | permissionDenied u a k => debugStruct "PermissionDenied"
      [("user_id", debugString u), ("action", debugString a), ("key", debugString k)]
  | notFound k => debugStruct "NotFound" [("key", debugString k)]
  | transactionError d => debugStruct "TransactionError" [("details", debugString d)]
  | conflictError r d => debugStruct "ConflictError"
      [("resource", debugString r), ("details", debugString d)]
  | connectionError b d => debugStruct "ConnectionError"
      [("backend", debugString b), ("details", debugString d)]
  | serializationError t d => debugStruct "SerializationError"
      [("data_type", debugString t), ("details", debugString d)]
  | invalidDataFormat e r d => debugStruct "InvalidDataFormat"
      [("expected", debugString e), ("received", debugString r), ("details", debugString d)]
  | quotaExceeded l c m => debugStruct "QuotaExceeded"
      [("limit_type", debugString l), ("current", toString c), ("maximum", toString m)]
  | timeoutError o t => debugStruct "TimeoutError"
      [("operation", debugString o), ("timeout_secs", toString t)]
  | resourceLocked r d => debugStruct "ResourceLocked"
      [("resource", debugString r), ("details", debugString d)]
  | validationError r d => debugStruct "ValidationError"
      [("rule", debugString r), ("details", debugString d)]
  | timeError d => debugStruct "TimeError" [("details", debugString d)]
  | ioError o d => debugStruct "IoError"
      [("operation", debugString o), ("details", debugString d)]
  | schemaVersionError c r d => debugStruct "SchemaVersionError"
      [("current_version", debugString c), ("required_version", debugString r),
        ("details", debugString d)]
  | other d => debugStruct "Other" [("details", debugString d)]
  | resourceNotFound r => "ResourceNotFound(" ++ debugString r ++ ")"
  | insufficientBalance d => "InsufficientBalance(" ++ debugString d ++ ")"
  | versionConflict c e r => debugStruct "VersionConflict"
      [("current", toString c), ("expected", toString e), ("resource", debugString r)]

/-- `Display`. -/
def display : StorageError → String
  | authenticationError d => s!"Authentication error: {d}"
  | permissionDenied u a k => s!"Permission denied for user '{u}' to perform '{a}' on '{k}'"
  | notFound k => s!"Key not found: {k}"
  | transactionError d => s!"Transaction error: {d}"
  | conflictError r d => s!"Conflict error on resource '{r}': {d}"
  | connectionError b d => s!"Connection error to backend '{b}': {d}"
  | serializationError t d => s!"Serialization error for {t}: {d}"
  | invalidDataFormat e r d => s!"Invalid data format: expected {e}, received {r}: {d}"
  | quotaExceeded l c m => s!"{l} quota exceeded: {c} of {m} used"
  | timeoutError o t => s!"Operation '{o}' timed out after {t} seconds"
  | resourceLocked r d => s!"Resource '{r}' is locked: {d}"
  | validationError r d => s!"Validation failed for rule '{r}': {d}"
  | timeError d => s!"Time error: {d}"
  | ioError o d => s!"IO error: {d} ({o})"
  | schemaVersionError c r d => s!"Schema version error: current {c}, required {r}: {d}"
  | other d => s!"Storage error: {d}"
  | resourceNotFound r => s!"Resource not found: {r}"
  | insufficientBalance d => s!"Insufficient balance: {d}"
  | versionConflict c e r => s!"Version conflict: current {c}, expected {e}: {r}"

end StorageError

/-- `a + b` on `usize`. -/
def addUsize {F σ : Type} (a b : Nat) : Partial.Comp (Fault F) σ Nat :=
  if a + b < 2 ^ 64 then pure (a + b) else Partial.Comp.fail .panic

section
variable {F σ : Type} {a b : Nat}

theorem addUsize_of_lt (h : a + b < 2 ^ 64) :
    (addUsize a b : Partial.Comp (Fault F) σ Nat) = pure (a + b) := if_pos h

theorem addUsize_of_le (h : 2 ^ 64 ≤ a + b) :
    (addUsize a b : Partial.Comp (Fault F) σ Nat) = Partial.Comp.fail .panic :=
  if_neg (Nat.not_lt.mpr h)

end

/-- How a storage call ends other than with `Ok`. -/
inductive StorageFault where
  | error (e : StorageError)
  | panic

end Covm
