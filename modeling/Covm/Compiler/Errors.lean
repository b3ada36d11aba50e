import Covm.Partial.Recursion
import Covm.Text.Words

/-!
# Positions and errors of the compiler (`compiler/mod.rs`, `compiler/common.rs`)

A line is a list of characters. `Parse` is the result of a function of the compiler: it may also
panic, at a slice of a text or at a duration that is out of range. Positions are natural numbers.
-/

namespace Covm.Compiler

abbrev Line := List Char

structure SourcePosition where
  line : Nat
  column : Nat
  deriving DecidableEq, Repr

inductive CompilerError where
  | unknownCommand (command : String) (pos : SourcePosition)
  | unknownBlockType (text : String) (pos : SourcePosition)
  | invalidFunctionDefinition (text : String) (pos : SourcePosition)
  | invalidFunctionFormat (text : String) (pos : SourcePosition)
  | invalidFunctionStart (text : String) (pos : SourcePosition)
  | missingPushValue (pos : SourcePosition)
  | missingEmitQuotes (pos : SourcePosition)
  | invalidEmitEventFormat (pos : SourcePosition)
  | missingVariable (command : String) (pos : SourcePosition)
  | missingFunctionName (pos : SourcePosition)
  | missingAssertDepth (pos : SourcePosition)
  | invalidAssertDepth (depth : String) (pos : SourcePosition)
  | insufficientAssertDepth (pos : SourcePosition)
  | invalidCaseValue (value : String) (pos : SourcePosition)
  | missingMatchValue (pos : SourcePosition)
  | invalidLoopFormat (text : String) (pos : SourcePosition)
  | invalidLoopCount (count : String) (pos : SourcePosition)
  | syntaxError (details : String)
  | missingProposalId (pos : SourcePosition)
  | invalidQuorumValue (pos : SourcePosition)
  | invalidThresholdValue (pos : SourcePosition)
  | missingParameter (command : String) (pos : SourcePosition)
  | invalidParameterValue (parameter : String) (pos : SourcePosition)
  deriving DecidableEq

namespace CompilerError

def place (pos : SourcePosition) : String := s!"at line {pos.line}, column {pos.column}"

/-- `Display` -/
def display : CompilerError → String
  | unknownCommand command pos => s!"Unknown command: {command} {place pos}"
  | unknownBlockType text pos => s!"Unknown block type: {text} {place pos}"
  | invalidFunctionDefinition text pos => s!"Invalid function definition: {text} {place pos}"
  | invalidFunctionFormat text pos => s!"Invalid function definition format: {text} {place pos}"
  | invalidFunctionStart text pos =>
    "Function definition must start with 'def': " ++ text ++ " " ++ place pos
  | missingPushValue pos => s!"Missing number for push {place pos}"
  | missingEmitQuotes pos => s!"Missing quotes for emit command {place pos}"
  | invalidEmitEventFormat pos => s!"Invalid format for emitevent {place pos}" ++
    ", expected: emitevent \"category\" \"message\""
  | missingVariable command pos => s!"Missing variable for {command} {place pos}"
  | missingFunctionName pos => s!"Missing function name for call {place pos}"
  | missingAssertDepth pos => s!"Missing depth for assertequalstack {place pos}"
  | invalidAssertDepth depth pos => s!"Invalid depth for assertequalstack: {depth} {place pos}"
  | insufficientAssertDepth pos =>
    s!"Depth for assertequalstack must be at least 2 {place pos}"
  | invalidCaseValue value pos => s!"Invalid case value: {value} {place pos}"
  | missingMatchValue pos => s!"Match statement must have a value block {place pos}"
  | invalidLoopFormat text pos => s!"Invalid loop format: {text} {place pos}"
  | invalidLoopCount count pos => s!"Invalid loop count: {count} {place pos}"
  | syntaxError details => s!"Syntax error: {details}"
  | missingProposalId pos => s!"Missing proposal ID for proposal_lifecycle {place pos}"
  | invalidQuorumValue pos => s!"Invalid quorum value for proposal_lifecycle {place pos}"
  | invalidThresholdValue pos => s!"Invalid threshold value for proposal_lifecycle {place pos}"
  | missingParameter command pos => s!"Missing parameter for {command} {place pos}"
  | invalidParameterValue parameter pos => s!"Invalid parameter value for {parameter} {place pos}"

end CompilerError

/-- How the compiler fails. -/
inductive Failure where
  | error (e : CompilerError)
  | panic
  deriving DecidableEq

instance : Inhabited Failure := ⟨.panic⟩

abbrev Parse (α : Type) := Except Failure α

variable {α : Type}

/-- `return Err(e)` -/
def fail (e : CompilerError) : Parse α := .error (.error e)

/-- `ok_or(e)?` -/
def orFail (e : CompilerError) : Option α → Parse α
  | some a => .ok a
  | none => fail e

@[simp] theorem orFail_some (e : CompilerError) (a : α) : orFail e (some a) = .ok a := rfl

@[simp] theorem orFail_none (e : CompilerError) : (orFail e none : Parse α) = fail e := rfl

/-- A slice panics where it is not one. -/
def sliced (start stop : Nat) (text : List Char) : Parse (List Char) :=
  match Text.slice start stop text with
  | some part => .ok part
  | none => .error .panic

def slicedFrom (start : Nat) (text : List Char) : Parse (List Char) :=
  match Text.dropBytes start text with
  | some part => .ok part
  | none => .error .panic

/-- The position of a part of the line. -/
def adjustedPosition (pos : SourcePosition) (line part : List Char) : SourcePosition :=
  match Text.findText part line with
  | some i => ⟨pos.line, pos.column + i⟩
  | none => pos

/-- The text between quotes, where the source removes them. -/
def isQuoted (word : List Char) : Bool := word.head? = some '"' && word.getLast? = some '"'

def withoutQuotes (word : List Char) : Parse (List Char) :=
  sliced 1 (Text.byteLen word - 1) word

/-- A name with or without quotes. -/
def unquotedName (word : List Char) : Parse (List Char) :=
  if isQuoted word then withoutQuotes word else .ok word

end Covm.Compiler
