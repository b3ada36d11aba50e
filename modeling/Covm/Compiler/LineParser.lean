import Covm.Compiler.Errors
import Covm.Storage.Traits

/-!
# One line of code (`parse_line` in `compiler/line_parser.rs`)

A line that is not a comment begins with a command; the other words are its arguments. Texts in
quotes are cut out of the line at byte offsets.
-/

namespace Covm.Compiler

open Text (trim words find rfind findText byteLen)

abbrev Word := List Char

/-- The words that follow the command. -/
abbrev Arguments := List Word

variable {F : Type}

/-- `parts.next().ok_or(e)?` -/
def argument (e : CompilerError) : Arguments → Parse (Word × Arguments)
  | word :: args => .ok (word, args)
  | [] => fail e

/-- `str::parse::<f64>`, or an error. -/
def parseF64 [Number F] (e : CompilerError) (word : Word) : Parse F :=
  orFail e (Number.parse (String.ofList word))

/-- `str::parse::<u64>` and `str::parse::<usize>`, or an error. -/
def parseInteger (e : CompilerError) (word : Word) : Parse Nat :=
  orFail e (parseU64 (String.ofList word))

/-- The text between the first and the last quote of a line, if there are quotes. -/
def quotedPart (line : Line) : Parse (Option String) :=
  match find '"' line with
  | some start => do
    let inner ← sliced (start + 1) ((rfind '"' line).getD (byteLen line)) line
    return some (String.ofList inner)
  | none => .ok none

/-! ### Commands -/

/-- The commands that take no arguments. -/
def plainCommand : String → Option (Op F)
  | "break" => some .breakOp
  | "continue" => some .continueOp
  | "add" => some .add
  | "sub" => some .sub
  | "mul" => some .mul
  | "div" => some .div
  | "mod" => some .mod
  | "eq" => some .eq
  | "gt" => some .gt
  | "lt" => some .lt
  | "not" => some .not
  | "and" => some .and
  | "or" => some .or
  | "negate" => some .negate
  | "dup" => some .dup
  | "swap" => some .swap
  | "over" => some .overOp
  | "pop" => some .pop
  | "return" => some .returnOp
  | "dumpstack" => some .dumpStack
  | "dumpmemory" => some .dumpMemory
  | "dumpstate" => some .dumpState
  | _ => none

/-- A command with one argument, a name. -/
def named (f : String → Op F) (e : CompilerError) (args : Arguments) : Parse (Op F) := do
  let (name, _) ← argument e args
  return f (String.ofList name)

/-- A command with two arguments, both names. -/
def namedTwo (f : String → String → Op F) (e₁ e₂ : CompilerError) (args : Arguments) :
    Parse (Op F) := do
  let (first, args) ← argument e₁ args
  let (second, _) ← argument e₂ args
  return f (String.ofList first) (String.ofList second)

section
variable (line : Line) (pos : SourcePosition)

/-- `InvalidFunctionFormat`, which the source also uses for arguments. -/
def formatError (message : String) : CompilerError := .invalidFunctionFormat message pos

def parseEmit : Parse (Op F) := do
  match ← quotedPart line with
  | some message => return .emit message
  | none => fail (.missingEmitQuotes pos)

def parseEmitEvent : Parse (Op F) :=
  match line.splitOn '"' with
  | _ :: category :: _ :: message :: _ :: _ =>
    .ok (.emitEvent (String.ofList (trim category)) (String.ofList (trim message)))
  | _ => fail (.invalidEmitEventFormat pos)

def parseAssertEqualStack (args : Arguments) : Parse (Op F) := do
  let (depthText, _) ← argument (.missingAssertDepth pos) args
  let depth ← parseInteger
    (.invalidAssertDepth (String.ofList depthText) (adjustedPosition pos line depthText)) depthText
  if depth < 2 then fail (.insufficientAssertDepth pos) else return .assertEqualStack depth

def parseRankedVote (args : Arguments) : Parse (Op F) := do
  let (candidatesText, args) ←
    argument (formatError pos "rankedvote requires 'candidates' parameter") args
  let (ballotsText, _) ← argument (formatError pos "rankedvote requires 'ballots' parameter") args
  let candidates ← parseInteger
    (formatError pos ("Invalid candidates count: " ++ String.ofList candidatesText)) candidatesText
  let ballots ← parseInteger
    (formatError pos ("Invalid ballots count: " ++ String.ofList ballotsText)) ballotsText
  return .rankedVote candidates ballots

def parseLoadVersionP (args : Arguments) : Parse (Op F) := do
  let (key, args) ← argument (formatError pos "loadversionp requires key parameter") args
  let (versionText, _) ← argument (formatError pos "loadversionp requires version parameter") args
  let version ← parseInteger (formatError pos
    ("Version must be a positive integer, got: " ++ String.ofList versionText)) versionText
  return .loadVersionP (String.ofList key) version

def parseDiffVersionsP (args : Arguments) : Parse (Op F) := do
  let (key, args) ← argument (formatError pos "diffversionsp requires key parameter") args
  let (v1Text, args) ←
    argument (formatError pos "diffversionsp requires first version parameter") args
  let (v2Text, _) ← argument (formatError pos "diffversionsp requires second version parameter") args
  let v1 ← parseInteger (formatError pos
    ("First version must be a positive integer, got: " ++ String.ofList v1Text)) v1Text
  let v2 ← parseInteger (formatError pos
    ("Second version must be a positive integer, got: " ++ String.ofList v2Text)) v2Text
  return .diffVersionsP (String.ofList key) v1 v2

/-- The rest of the line after the first place where the identity is found. -/
def afterIdentity (identityId : Word) : Parse (List Char) := do
  let start ← orFail (formatError pos
    ("Cannot find identity_id '" ++ String.ofList identityId ++ "' in line"))
    (findText identityId line)
  return trim (← slicedFrom (start + byteLen identityId) line)

/-- The first text in quotes, and what follows it. -/
def quotedText (text : List Char) : Parse (Option (List Char × List Char)) :=
  match find '"' text with
  | none => .ok none
  | some start => do
    match find '"' (← slicedFrom (start + 1) text) with
    | none => return none
    | some n =>
      let stop := start + 1 + n
      return some (← sliced (start + 1) stop text, ← slicedFrom (stop + 1) text)

def parseVerifyIdentity (args : Arguments) : Parse (Op F) := do
  let (identityId, _) ←
    argument (formatError pos "verifyidentity requires identity_id parameter") args
  let restOfLine ← afterIdentity line pos identityId
  let e := formatError pos "verifyidentity requires quoted message and signature parameters"
  match ← quotedText restOfLine with
  | none => fail e
  | some (message, rest) =>
    match ← quotedText rest with
    | none => fail e
    | some (signature, _) =>
      return .verifyIdentity (String.ofList identityId) (String.ofList message)
        (String.ofList signature)

def missingVariable (command : String) : CompilerError := .missingVariable command pos

variable [Number F]

def parsePush (args : Arguments) : Parse (Op F) := do
  let (word, _) ← argument (.missingPushValue pos) args
  if word = "true".toList then return .push (.boolean true)
  else if word = "false".toList then return .push (.boolean false)
  else if word = "null".toList then return .push .null
  else if isQuoted word then return .push (.string (String.ofList (← withoutQuotes word)))
  else
    match Number.parse (String.ofList word) with
    | some n => return .push (.number n)
    | none => return .push (.string (String.ofList word))

/-- The optional parameters of `increment_reputation`. -/
def reputationParameters : Option F → Option String → Arguments →
    Parse (Option F × Option String)
  | amount, reason, [] => .ok (amount, reason)
  | amount, reason, param :: args =>
    if "amount=".toList <+: param then do
      let valueText := Text.trimStartMatches "amount=".toList param
      let value ← parseF64
        (.invalidParameterValue "amount" (adjustedPosition pos line valueText)) valueText
      reputationParameters (some value) reason args
    else if "reason=".toList <+: param then
      reputationParameters amount
        (some (String.ofList (Text.trimStartMatches "reason=".toList param))) args
    else reputationParameters amount reason args

def parseIncrementReputation (args : Arguments) : Parse (Op F) := do
  let (identityId, args) ← argument (.missingParameter "increment_reputation" pos) args
  let (amount, reason) ← reputationParameters line pos none none args
  return .incrementReputation (String.ofList identityId) amount reason

/-- A command whose one argument is a number. -/
def parseThreshold (f : F → Op F) (command : String) (args : Arguments) : Parse (Op F) := do
  let (word, _) ← argument (formatError pos (command ++ " requires threshold parameter")) args
  let threshold ← parseF64
    (formatError pos ("Invalid threshold value: " ++ String.ofList word)) word
  return f threshold

/-- The amount and the reason, with which the three commands below end. -/
def amountAndReason (command : String) (args : Arguments) : Parse (F × Option String) := do
  let (amountText, _) ← argument (missingVariable pos (command ++ " (amount)")) args
  let amount ← parseF64 (formatError pos
    ("Invalid " ++ command ++ " amount: " ++ String.ofList amountText)) amountText
  return (amount, ← quotedPart line)

def parseMint (args : Arguments) : Parse (Op F) := do
  let (resource, args) ← argument (missingVariable pos "mint (resource)") args
  let (account, args) ← argument (missingVariable pos "mint (account)") args
  let (amount, reason) ← amountAndReason line pos "mint" args
  return .mint (String.ofList resource) (String.ofList account) amount reason

def parseTransfer (args : Arguments) : Parse (Op F) := do
  let (resource, args) ← argument (missingVariable pos "transfer (resource)") args
  let (source, args) ← argument (missingVariable pos "transfer (from)") args
  let (target, args) ← argument (missingVariable pos "transfer (to)") args
  let (amount, reason) ← amountAndReason line pos "transfer" args
  return .transfer (String.ofList resource) (String.ofList source) (String.ofList target) amount
    reason

def parseBurn (args : Arguments) : Parse (Op F) := do
  let (resource, args) ← argument (missingVariable pos "burn (resource)") args
  let (account, args) ← argument (missingVariable pos "burn (account)") args
  let (amount, reason) ← amountAndReason line pos "burn" args
  return .burn (String.ofList resource) (String.ofList account) amount reason

/-- The quorum and the threshold must be numbers; the other parameters can be anything. -/
def lifecycleParameters (F : Type) [Number F] (pos : SourcePosition) : Arguments → Parse Unit
  | [] => .ok ()
  | param :: args =>
    if "quorum=".toList <+: param then do
      let _ ← (parseF64 (.invalidQuorumValue pos)
        (Text.trimStartMatches "quorum=".toList param) : Parse F)
      lifecycleParameters F pos args
    else if "threshold=".toList <+: param then do
      let _ ← (parseF64 (.invalidThresholdValue pos)
        (Text.trimStartMatches "threshold=".toList param) : Parse F)
      lifecycleParameters F pos args
    else lifecycleParameters F pos args

def parseProposalLifecycle (args : Arguments) : Parse (Op F) := do
  let (_, args) ← argument (.missingProposalId pos) args
  lifecycleParameters F pos args
  return .macroOp "proposal_lifecycle"

def parseCommand (args : Arguments) : String → Parse (Op F)
  | "push" => parsePush pos args
  | "emit" => parseEmit line pos
  | "emitevent" => parseEmitEvent line pos
  | "assertequalstack" => parseAssertEqualStack line pos args
  | "load" => named .load (missingVariable pos "load") args
  | "store" => named .store (missingVariable pos "store") args
  | "increment_reputation" => parseIncrementReputation line pos args
  | "call" => named .call (.missingFunctionName pos) args
  | "rankedvote" => parseRankedVote pos args
  | "liquiddelegate" => namedTwo .liquidDelegate
      (formatError pos "liquiddelegate requires 'from' parameter")
      (formatError pos "liquiddelegate requires 'to' parameter") args
  | "votethreshold" => parseThreshold pos .voteThreshold "votethreshold" args
  | "quorumthreshold" => parseThreshold pos .quorumThreshold "quorumthreshold" args
  | "storep" => named .storeP (missingVariable pos "storep") args
  | "loadp" => named .loadP (missingVariable pos "loadp") args
  | "loadversionp" => parseLoadVersionP pos args
  | "listversionsP" =>
    named .listVersionsP (formatError pos "listversionsP requires key parameter") args
  | "diffversionsp" => parseDiffVersionsP pos args
  | "verifyidentity" => parseVerifyIdentity line pos args
  | "checkmembership" => namedTwo .checkMembership
      (formatError pos "checkmembership requires identity_id parameter")
      (formatError pos "checkmembership requires namespace parameter") args
  | "checkdelegation" => namedTwo .checkDelegation
      (formatError pos "checkdelegation requires delegator_id parameter")
      (formatError pos "checkdelegation requires delegate_id parameter") args
  | "createresource" => named .createResource (missingVariable pos "createresource") args
  | "mint" => parseMint line pos args
  | "transfer" => parseTransfer line pos args
  | "burn" => parseBurn line pos args
  | "balance" => namedTwo .balance (missingVariable pos "balance (resource)")
      (missingVariable pos "balance (account)") args
  | "proposal_lifecycle" => parseProposalLifecycle pos args
  | command => orFail (.unknownCommand command pos) (plainCommand command)

/-- A line whose first character, white space aside, is `#`. -/
def isComment (line : Line) : Bool := (trim line).head? = some '#'

def parseLine : Parse (Op F) :=
  if isComment line then .ok .nop
  else
    match words line with
    | [] => .ok .nop
    | command :: args => parseCommand line pos args (String.ofList command)

end

end Covm.Compiler
