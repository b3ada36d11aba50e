import Covm.Vm.Value
import Mathlib.Data.Finmap

/-!
# Operations, control signals and events (`vm/types.rs`)

`Op` is the abstract syntax the VM interprets. Blocks nest through lists of operations, so the
recursions over it are mutual recursions over operations, blocks, optional blocks and match arms.
A `HashMap` with string keys is a `Finmap`: only its lookups are observable. Durations are whole
seconds.
-/

namespace Covm

/-- `HashMap<String, V>`. -/
abbrev HashMap (V : Type) := Finmap fun _ : String => V

inductive Op (F : Type) where
  | push (value : TypedValue F)
  | add
  | sub
  | mul
  | div
  | mod
  | store (name : String)
  | load (name : String)
  | ifOp (condition thenOps : List (Op F)) (elseOps : Option (List (Op F)))
  | loop (count : Nat) (body : List (Op F))
  | whileOp (condition body : List (Op F))
  | emit (message : String)
  | negate
  | assertTop (expected : TypedValue F)
  | dumpStack
  | dumpMemory
  | assertMemory (key : String) (expected : TypedValue F)
  | pop
  | eq
  | gt
  | lt
  | not
  | and
  | or
  | dup
  | swap
  | overOp
  | defOp (name : String) (params : List String) (body : List (Op F))
  | call (name : String)
  | returnOp
  | nop
  | matchOp (value : List (Op F)) (cases : List (TypedValue F × List (Op F)))
      (default : Option (List (Op F)))
  | breakOp
  | continueOp
  | emitEvent (category message : String)
  | assertEqualStack (depth : Nat)
  | dumpState
  | rankedVote (candidates ballots : Nat)
  | liquidDelegate (source target : String)
  | voteThreshold (threshold : F)
  | quorumThreshold (threshold : F)
  | minDeliberation (period : Nat)
  | expiresIn (period : Nat)
  | requireRole (role : String)
  | storeP (key : String)
  | loadP (key : String)
  | loadVersionP (key : String) (version : Nat)
  | listVersionsP (key : String)
  | diffVersionsP (key : String) (v1 v2 : Nat)
  | verifyIdentity (identityId message signature : String)
  | checkMembership (identityId ns : String)
  | checkDelegation (delegatorId delegateId : String)
  | verifySignature
  | createResource (resource : String)
  | mint (resource account : String) (amount : F) (reason : Option String)
  | transfer (resource source target : String) (amount : F) (reason : Option String)
  | burn (resource account : String) (amount : F) (reason : Option String)
  | balance (resource account : String)
  | getIdentity (identityId : String)
  | requireValidSignature (voter message signature : String)
  | ifPassed (block : List (Op F))
  | elseBlock (block : List (Op F))
  | incrementReputation (identityId : String) (amount : Option F) (reason : Option String)
  | macroOp (name : String)

/-- Loop control signals; local to one run of an op list. -/
inductive LoopControl where
  | none
  | brk
  | cont
  deriving DecidableEq, Repr

structure VMEvent where
  category : String
  message : String
  timestamp : Nat
  deriving DecidableEq, Repr

namespace Op

variable {F : Type} [Number F]

/-- `Debug` of an optional number, as `Display` of `IncrementReputation` shows it. -/
def debugAmount : Option F → String
  | some a => "Some(" ++ Number.debug a ++ ")"
  | none => "None"

/-- `Debug` of a whole number of seconds. -/
def debugSeconds (period : Nat) : String := s!"TimeDelta \x7b secs: {period}, nanos: 0 \x7d"

/-- `Display`. -/
def display : Op F → String
  | push v => s!"Push({v.display})"
  | add => "Add"
  | sub => "Sub"
  | mul => "Mul"
  | div => "Div"
  | mod => "Mod"
  | store name => s!"Store({name})"
  | load name => s!"Load({name})"
  | ifOp .. => "If"
  | loop count _ => s!"Loop({count})"
  | whileOp .. => "While"
  | emit msg => s!"Emit({msg})"
  | negate => "Negate"
  | assertTop v => s!"AssertTop({v.display})"
  | dumpStack => "DumpStack"
  | dumpMemory => "DumpMemory"
  | assertMemory key expected => s!"AssertMemory({key}, {expected.display})"
  | pop => "Pop"
  | eq => "Eq"
  | gt => "Gt"
  | lt => "Lt"
  | not => "Not"
  | and => "And"
  | or => "Or"
  | dup => "Dup"
  | swap => "Swap"
  | overOp => "Over"
  | defOp name _ _ => s!"Def({name})"
  | call name => s!"Call({name})"
  | returnOp => "Return"
  | nop => "Nop"
  | matchOp .. => "Match"
  | breakOp => "Break"
  | continueOp => "Continue"
  | emitEvent category message => s!"EmitEvent({category}, {message})"
  | assertEqualStack depth => s!"AssertEqualStack({depth})"
  | dumpState => "DumpState"
  | rankedVote candidates ballots =>
    s!"RankedVote({candidates} candidates, {ballots} ballots)"
  | liquidDelegate source target => s!"LiquidDelegate({source} -> {target})"
  | voteThreshold t => s!"VoteThreshold({Number.toStr t})"
  | quorumThreshold t => s!"QuorumThreshold({Number.toStr t})"
  | minDeliberation period => s!"MinDeliberation({debugSeconds period})"
  | expiresIn period => s!"ExpiresIn({debugSeconds period})"
  | requireRole role => s!"RequireRole({role})"
  | storeP key => s!"StoreP({key})"
  | loadP key => s!"LoadP({key})"
  | loadVersionP key version => s!"LoadVersionP({key}, v{version})"
  | listVersionsP key => s!"ListVersionsP({key})"
  | diffVersionsP key v1 v2 => s!"DiffVersionsP({key}, v{v1}, v{v2})"
  | verifyIdentity identityId _ _ => s!"VerifyIdentity({identityId})"
  | checkMembership identityId ns => s!"CheckMembership({identityId}, {ns})"
  | checkDelegation delegatorId delegateId =>
    s!"CheckDelegation({delegatorId} -> {delegateId})"
  | verifySignature => "VerifySignature"
  | createResource resource => s!"CreateResource({resource})"
  | mint resource account amount _ =>
    s!"Mint({Number.toStr amount} of {resource} to {account})"
  | transfer resource source target amount _ =>
    s!"Transfer({Number.toStr amount} of {resource} from {source} to {target})"
  | burn resource account amount _ =>
    s!"Burn({Number.toStr amount} of {resource} from {account})"
  | balance resource account => s!"Balance({resource} for {account})"
  | getIdentity identityId => s!"GetIdentity({identityId})"
  | requireValidSignature voter _ _ => s!"RequireValidSignature({voter})"
  | ifPassed _ => "IfPassed"
  | elseBlock _ => "Else"
  | incrementReputation identityId amount _ =>
    s!"IncrementReputation({identityId}, {debugAmount amount})"
  | macroOp name => s!"Macro({name})"

/-- The operations `execute_inner` hands to the governance module. -/
def isGovernance : Op F → Bool
  | rankedVote .. | liquidDelegate .. | quorumThreshold _ | voteThreshold _ => true
  | _ => false

/-- The operations that leave the op list they stand in. -/
def isExit : Op F → Bool
  | returnOp | breakOp | continueOp => true
  | _ => false

end Op

end Covm
