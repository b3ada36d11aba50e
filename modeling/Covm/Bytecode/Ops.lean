import Covm.Vm.Types

/-!
# Bytecode instructions (`bytecode.rs`)

The flat instruction set: `Op` without blocks, plus jumps to absolute addresses and function
entries. Instructions the compiler never emits are left out.
-/

namespace Covm

inductive BytecodeOp (F : Type) where
  | push (value : TypedValue F)
  | store (name : String)
  | load (name : String)
  | add
  | sub
  | mul
  | div
  | emit (message : String)
  | emitEvent (category message : String)
  | call (name : String)
  | jumpIfZero (addr : Nat)
  | jump (addr : Nat)
  | functionEntry (name : String) (params : List String)
  | returnOp
  | assertTop (expected : TypedValue F)
  | assertMemory (key : String) (expected : TypedValue F)
  | assertEqualStack (depth : Nat)
  | liquidDelegate (source target : String)
  | voteThreshold (threshold : F)
  | quorumThreshold (threshold : F)
  | breakOp
  | continueOp
  | dup
  | pop
  | swap
  | eq
  | gt
  | lt
  | negate
  | and
  | or
  | not
  | storeStorage (key : String)
  | loadStorage (key : String)
  | loadStorageVersion (key : String) (version : Nat)
  | listStorageVersions (key : String)
  | diffStorageVersions (key : String) (v1 v2 : Nat)
  | mod
  | verifySignature
  | createResource (resource : String)
  | mint (resource account : String) (amount : TypedValue F) (reason : Option String)
  | transfer (resource source target : String) (amount : TypedValue F) (reason : Option String)
  | burn (resource account : String) (amount : TypedValue F) (reason : Option String)
  | balance (resource account : String)
  | getIdentity (identityId : String)
  | requireValidSignature (voter message signature : String)
  | incrementReputation (identityId : String) (amount : Option (TypedValue F))
      (reason : Option String)
  | ifPassed (block : List (BytecodeOp F))
  | elseBlock (block : List (BytecodeOp F))
  | macroOp (name : String)
  | nop
  | requireRole (role : String)
  | minDeliberation (duration : Nat)
  | expiresIn (duration : Nat)

end Covm
