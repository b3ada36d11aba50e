import Covm.Vm.Errors

/-!
# The operand stack (`vm/stack.rs`)

The stack is a list with its top first. Every operation keeps the values it had removed when it
fails, as the source does: `popTwo` on a stack of one value leaves the empty stack behind.
-/

namespace Covm

open Partial

/-- The values on the stack, top first. -/
abbrev VMStack (F : Type) := List (TypedValue F)

/-- Computations on the stack alone. -/
abbrev StackOp (F α : Type) := Comp (Fault F) (VMStack F) α

namespace VMStack

variable {F : Type}

def push (value : TypedValue F) : StackOp F Unit := fun s => .ok () (value :: s)

def pop : StackOp F (TypedValue F)
  | [] => .error (.fault (.error .stackUnderflow)) []
  | v :: s => .ok v s

/-- The top value is the second operand. -/
def popTwo : StackOp F (TypedValue F × TypedValue F) := do
  let b ← pop
  let a ← pop
  return (a, b)

def top (s : VMStack F) : Option (TypedValue F) := s.head?

def dup : StackOp F Unit
  | [] => .error (.fault (.error .stackUnderflow)) []
  | v :: s => .ok () (v :: v :: s)

def swap : StackOp F Unit
  | b :: a :: s => .ok () (a :: b :: s)
  | s => .error (.fault (.error .stackUnderflow)) s

def overOp : StackOp F Unit
  | b :: a :: s => .ok () (a :: b :: a :: s)
  | s => .error (.fault (.error .stackUnderflow)) s

/-- Whether the top `depth` values are equal. With `depth = 0` on the empty stack the source
unwraps a value that is not there. -/
def assertEqualStack [Number F] (depth : Nat) : StackOp F Bool := fun s =>
  if s.length < depth then .error (.fault (.error .stackUnderflow)) s
  else
    match s with
    | [] => .error (.fault .panic) s
    | v :: rest => .ok ((rest.take (depth - 1)).all fun w => TypedValue.peq w v) s

/-- One line for each value, numbered from the bottom. -/
def formatStack [Number F] (s : VMStack F) : String :=
  String.join (s.reverse.zipIdx.map fun (v, i) => s!"{i}: {v.display}\n")

/-- `pop` followed by the coercion to a number. -/
def popNumber [Number F] (opName : String) : StackOp F F := do
  let v ← pop
  match v.asNumber with
  | .ok n => return n
  | .error _ => Comp.fail (.error (.typeMismatch "Number" v.typeName opName))

@[simp] theorem push_apply (v : TypedValue F) (s : VMStack F) : push v s = .ok () (v :: s) := rfl

@[simp] theorem pop_nil : pop ([] : VMStack F) = .error (.fault (.error .stackUnderflow)) [] :=
  rfl

@[simp] theorem pop_cons (v : TypedValue F) (s : VMStack F) : pop (v :: s) = .ok v s := rfl

end VMStack

end Covm
