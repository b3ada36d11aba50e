import Covm.Number.Basic

/-!
# Typed values (`typed.rs`)

A `TypedValue` is a number, a boolean, a string or null. The operations coerce their operands and
report a `TypedValueError` when that fails; only reading a string as a number can fail.
-/

namespace Covm

inductive TypedValueError where
  | typeMismatch (expected found : String)
  | invalidOperationForType (op types : String)
  | coercionError (source target : String)
  | valueOutOfBounds
  deriving DecidableEq, Repr

inductive TypedValue (F : Type) where
  | number (n : F)
  | boolean (b : Bool)
  | string (s : String)
  | null
  deriving DecidableEq, Repr

namespace TypedValue

variable {F : Type} [Number F]

def typeName : TypedValue F → String
  | number _ => "Number"
  | boolean _ => "Boolean"
  | string _ => "String"
  | null => "Null"

/-- `0.0`, `false`, the empty string and null are falsey. -/
def isFalsey : TypedValue F → Bool
  | number n => Number.eq n (Number.ofNat 0)
  | boolean b => !b
  | string s => s.isEmpty
  | null => true

def asNumber : TypedValue F → Except TypedValueError F
  | number n => .ok n
  | boolean b => .ok (if b then Number.ofNat 1 else Number.ofNat 0)
  | string s =>
    match Number.parse s with
    | some n => .ok n
    | none => .error (.coercionError "String" "Number")
  | null => .ok (Number.ofNat 0)

def asBoolean : TypedValue F → Except TypedValueError Bool
  | number n => .ok (Number.ne n (Number.ofNat 0))
  | boolean b => .ok b
  | string s => .ok (!s.isEmpty)
  | null => .ok false

def asString : TypedValue F → Except TypedValueError String
  | number n => .ok (Number.toStr n)
  | boolean b => .ok (toString b)
  | string s => .ok s
  | null => .ok "null"

def add (a b : TypedValue F) : Except TypedValueError (TypedValue F) :=
  match a, b with
  | number a, number b => .ok (number (Number.add a b))
  | string a, string b => .ok (string (a ++ b))
  | string a, b => do return string (a ++ (← b.asString))
  | a, string b => do return string ((← a.asString) ++ b)
  | a, b => do return number (Number.add (← a.asNumber) (← b.asNumber))

def sub (a b : TypedValue F) : Except TypedValueError (TypedValue F) := do
  return number (Number.sub (← a.asNumber) (← b.asNumber))

/-- A string times a number repeats the string, at most 1000 times. -/
def repeatString (s : String) (n : F) : Except TypedValueError (TypedValue F) :=
  let count := Number.toU64 n
  if count > 1000 then .error .valueOutOfBounds
  else .ok (string (String.join (List.replicate count s)))

def mul (a b : TypedValue F) : Except TypedValueError (TypedValue F) :=
  match a, b with
  | number a, number b => .ok (number (Number.mul a b))
  | string s, number n => repeatString s n
  | number n, string s => repeatString s n
  | a, b => do return number (Number.mul (← a.asNumber) (← b.asNumber))

def div (a b : TypedValue F) : Except TypedValueError (TypedValue F) := do
  let x ← a.asNumber
  let y ← b.asNumber
  if Number.eq y (Number.ofNat 0) then
    .error (.invalidOperationForType "division" "by zero")
  else return number (Number.div x y)

def modulo (a b : TypedValue F) : Except TypedValueError (TypedValue F) := do
  let x ← a.asNumber
  let y ← b.asNumber
  if Number.eq y (Number.ofNat 0) then
    .error (.invalidOperationForType "modulo" "by zero")
  else return number (Number.rem x y)

/-- Numbers are equal up to `f64::EPSILON`; values of different types are compared as text. -/
def equals (a b : TypedValue F) : Except TypedValueError (TypedValue F) :=
  match a, b with
  | number a, number b =>
    .ok (boolean (Number.lt (Number.abs (Number.sub a b)) Number.epsilon))
  | boolean a, boolean b => .ok (boolean (a == b))
  | string a, string b => .ok (boolean (a == b))
  | null, null => .ok (boolean true)
  | null, _ => .ok (boolean false)
  | _, null => .ok (boolean false)
  | a, b => do return boolean ((← a.asString) == (← b.asString))

def greaterThan (a b : TypedValue F) : Except TypedValueError (TypedValue F) :=
  match a, b with
  | number a, number b => .ok (boolean (Number.gt a b))
  | string a, string b => .ok (boolean (decide (b < a)))
  | a, b => do return boolean (Number.gt (← a.asNumber) (← b.asNumber))

def lessThan (a b : TypedValue F) : Except TypedValueError (TypedValue F) :=
  match a, b with
  | number a, number b => .ok (boolean (Number.lt a b))
  | string a, string b => .ok (boolean (decide (a < b)))
  | a, b => do return boolean (Number.lt (← a.asNumber) (← b.asNumber))

def logicalNot (a : TypedValue F) : Except TypedValueError (TypedValue F) := do
  return boolean (!(← a.asBoolean))

def logicalAnd (a b : TypedValue F) : Except TypedValueError (TypedValue F) := do
  return boolean ((← a.asBoolean) && (← b.asBoolean))

def logicalOr (a b : TypedValue F) : Except TypedValueError (TypedValue F) := do
  return boolean ((← a.asBoolean) || (← b.asBoolean))

/-- The derived `PartialEq`: numbers are compared with `==`, so a NaN differs from itself. -/
def peq : TypedValue F → TypedValue F → Bool
  | number a, number b => Number.eq a b
  | boolean a, boolean b => a == b
  | string a, string b => a == b
  | null, null => true
  | _, _ => false

/-- `Display`; strings are shown in quotes. -/
def display : TypedValue F → String
  | number n => Number.toStr n
  | boolean b => toString b
  | string s => "\"" ++ s ++ "\""
  | null => "null"

/-- Comparing for equality never fails. -/
theorem equals_ok (a b : TypedValue F) : ∃ c, a.equals b = .ok (boolean c) := by
  cases a <;> cases b <;> exact ⟨_, rfl⟩

end TypedValue

end Covm
