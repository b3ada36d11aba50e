import Covm.Compiler.LineParser

/-!
# Governance blocks and templates (`compiler/parse_dsl.rs`)

`parse_dsl` reads the configuration of a proposal's lifecycle from lines of its own: the lines of
`governance` blocks and of templates, which `governance use` merges in. `readDirective` is what it
does with one line, if it is one of these.
-/

namespace Covm.Compiler

open Text (trim words byteLen)

/-- A `chrono` duration, in seconds. -/
abbrev Period := Int

/-- `str::parse::<i64>` -/
def parseI64 (text : List Char) : Option Int :=
  let number (cs : List Char) : Option Nat :=
    if cs ≠ [] ∧ cs.all Char.isDigit then
      some (cs.foldl (fun n c => 10 * n + (c.toNat - '0'.toNat)) 0)
    else none
  match text with
  | '-' :: cs => (number cs).bind fun n => if n ≤ 2 ^ 63 then some (-n) else none
  | '+' :: cs => (number cs).bind fun n => if n < 2 ^ 63 then some n else none
  | cs => (number cs).bind fun n => if n < 2 ^ 63 then some n else none

/-- The longest duration has `i64::MAX` milliseconds. -/
def maxSeconds : Nat := (2 ^ 63 - 1) / 1000

/-- `Duration::hours`, `days` and `weeks` panic outside of the range of durations. -/
def duration (seconds : Int) : Parse Period :=
  if seconds.natAbs ≤ maxSeconds then .ok seconds else .error .panic

def secondsOf : Char → Option Nat
  | 'h' => some 3600
  | 'd' => some 86400
  | 'w' => some 604800
  | _ => none

def parseDuration (text : List Char) : Parse Period := do
  let text := trim text
  let lastChar ← orFail (.syntaxError "Empty duration string") text.getLast?
  let valueText ← sliced 0 (byteLen text - 1) text
  let value ← orFail (.syntaxError ("Invalid duration value: " ++ String.ofList valueText))
    (parseI64 valueText)
  let seconds ← orFail
    (.syntaxError ("Unknown duration unit: " ++ String.ofList [lastChar])) (secondsOf lastChar)
  duration (value * seconds)

structure LifecycleConfig (F : Type) where
  quorum : Option F
  threshold : Option F
  minDeliberation : Option Period
  expiresIn : Option Period
  requiredRoles : List String
  deriving DecidableEq

namespace LifecycleConfig

variable {F : Type}

def default : LifecycleConfig F := ⟨none, none, none, none, []⟩

/-- Values that are set are kept. -/
def mergeFrom (config other : LifecycleConfig F) : LifecycleConfig F where
  quorum := config.quorum.or other.quorum
  threshold := config.threshold.or other.threshold
  minDeliberation := config.minDeliberation.or other.minDeliberation
  expiresIn := config.expiresIn.or other.expiresIn
  requiredRoles :=
    if config.requiredRoles.isEmpty then other.requiredRoles else config.requiredRoles

end LifecycleConfig

/-- What `parse_dsl` knows besides its operations. -/
structure DslState (F : Type) where
  config : LifecycleConfig F
  inGovernanceBlock : Bool
  inTemplateBlock : Bool
  currentTemplateName : String
  currentTemplate : LifecycleConfig F
  templates : HashMap (LifecycleConfig F)

namespace DslState

variable {F : Type}

def start : DslState F := ⟨.default, false, false, "", .default, ∅⟩

def openTemplate (state : DslState F) (name : String) : DslState F :=
  { state with
    inTemplateBlock := true
    currentTemplateName := name
    currentTemplate := .default }

def closeTemplate (state : DslState F) : DslState F :=
  { state with
    templates := state.templates.insert state.currentTemplateName state.currentTemplate
    inTemplateBlock := false }

/-- The configuration the commands of a block are for. -/
def target (state : DslState F) : LifecycleConfig F :=
  if state.inTemplateBlock then state.currentTemplate else state.config

def withTarget (state : DslState F) (config : LifecycleConfig F) : DslState F :=
  if state.inTemplateBlock then { state with currentTemplate := config }
  else { state with config := config }

end DslState

variable {F : Type} [Number F]

section
variable (pos : SourcePosition)

/-- The argument of a command of a governance block. -/
def parameter (command : String) (args : Arguments) : Parse Word := do
  let (word, _) ← argument (.missingParameter command pos) args
  return word

/-- A command of a governance block. -/
def governanceCommand (config : LifecycleConfig F) (args : Arguments) :
    String → Parse (LifecycleConfig F)
  | "quorumthreshold" => do
    let word ← parameter pos "quorumthreshold" args
    let quorum ← parseF64 (.invalidParameterValue "quorumthreshold" pos) word
    return { config with quorum := some quorum }
  | "votethreshold" => do
    let word ← parameter pos "votethreshold" args
    let threshold ← parseF64 (.invalidParameterValue "votethreshold" pos) word
    return { config with threshold := some threshold }
  | "mindeliberation" => do
    let period ← parseDuration (← parameter pos "mindeliberation" args)
    return { config with minDeliberation := some period }
  | "expiresin" => do
    let period ← parseDuration (← parameter pos "expiresin" args)
    return { config with expiresIn := some period }
  | "require_role" => do
    let role ← unquotedName (← parameter pos "require_role" args)
    return { config with requiredRoles := config.requiredRoles ++ [String.ofList role] }
  | command => fail (.unknownCommand command pos)

def atLine (message : String) : CompilerError :=
  .syntaxError (message ++ " at line " ++ toString pos.line)

/-- The line that opens a template: the second word is the name. -/
def readTemplate (state : DslState F) (trimmed : Line) : Parse (DslState F) :=
  match words trimmed with
  | _ :: name :: _ :: _ => do
    let name ← unquotedName name
    return state.openTemplate (String.ofList name)
  | _ => fail (atLine pos "Invalid template definition")

/-- The line that merges a template: the third word is the name. -/
def useTemplate (state : DslState F) (trimmed : Line) : Parse (DslState F) :=
  match words trimmed with
  | _ :: _ :: name :: _ => do
    let name ← unquotedName name
    let template ← orFail (atLine pos ("Unknown template '" ++ String.ofList name ++ "'"))
      (state.templates.lookup (String.ofList name))
    return { state with config := state.config.mergeFrom template }
  | _ => fail (atLine pos "Invalid governance use directive")

/-- A line inside of a governance block or a template. -/
def readCommand (state : DslState F) (trimmed : Line) : Parse (DslState F) :=
  match words trimmed with
  | [] => .ok state
  | command :: args => do
    let config ← governanceCommand pos state.target args (String.ofList command)
    return state.withTarget config

/-- What becomes of the state at a line, unless it is one of the operations. -/
def readDirective (state : DslState F) (trimmed : Line) : Parse (Option (DslState F)) :=
  if "template ".toList <+: trimmed ∧ " \x7b".toList <:+ trimmed then
    some <$> readTemplate pos state trimmed
  else if state.inTemplateBlock ∧ trimmed = "\x7d".toList then
    .ok (some state.closeTemplate)
  else if "governance use ".toList <+: trimmed then
    some <$> useTemplate pos state trimmed
  else if trimmed = "governance \x7b".toList then
    .ok (some { state with inGovernanceBlock := true })
  else if state.inGovernanceBlock ∧ trimmed = "\x7d".toList then
    .ok (some { state with inGovernanceBlock := false })
  else if state.inGovernanceBlock ∨ state.inTemplateBlock then
    some <$> readCommand pos state trimmed
  else .ok none

/-- The lines that are not operations. -/
def IsDirective (state : DslState F) (trimmed : Line) : Prop :=
  ("template ".toList <+: trimmed ∧ " \x7b".toList <:+ trimmed) ∨
    "governance use ".toList <+: trimmed ∨ trimmed = "governance \x7b".toList ∨
    state.inGovernanceBlock ∨ state.inTemplateBlock

variable {pos}

theorem readDirective_eq_none {state : DslState F} {trimmed : Line} :
    readDirective pos state trimmed = .ok none ↔ ¬ IsDirective state trimmed := by
  have hmap (x : Parse (DslState F)) : some <$> x ≠ .ok none := by
    cases x <;> simp
  unfold readDirective IsDirective
  split_ifs <;> simp_all

end

end Covm.Compiler
