import Covm.Compiler.Config

/-!
# Blocks and programs (`compiler/line_parser.rs`, `*_block.rs`, `parse_dsl.rs`)

The parsers of blocks share a cursor into the lines and call each other. Each call is a `Question`,
and `body` is what the source does for it: `parse_block`, the five parsers of nested blocks, the
loops of `parse_while_block` and `parse_match_block`, and the loop of `parse_dsl`. The lines before
the cursor are never looked at again.
-/

namespace Covm.Compiler

open Partial
open Text (trim indent splitOnce trimEndMatches isBlank)

/-- A place in the lines: how many are before it, and the others. -/
structure Cursor where
  index : Nat
  rest : List Line

def Cursor.next (c : Cursor) : Cursor := ⟨c.index + 1, c.rest.tail⟩

inductive BlockKind where
  | ifBlock
  | whileBlock
  | functionBlock
  | matchBlock
  | loopBlock
  deriving DecidableEq

/-- What the loop of `parse_while_block` has found. -/
structure WhileParts (F : Type) where
  condition : List (Op F)
  body : List (Op F)
  hasExplicitCondition : Bool

/-- What the loop of `parse_match_block` has found. -/
structure MatchParts (F : Type) where
  valueOps : List (Op F)
  cases : List (TypedValue F × List (Op F))
  defaultOps : Option (List (Op F))

inductive Question (F : Type) where
  | block (c : Cursor) (baseIndent : Nat) (pos : SourcePosition)
  | nested (kind : BlockKind) (c : Cursor) (pos : SourcePosition)
  | whileLines (c : Cursor) (currentIndent : Nat) (pos : SourcePosition) (parts : WhileParts F)
  | matchLines (c : Cursor) (currentIndent : Nat) (pos : SourcePosition) (parts : MatchParts F)
  | dsl (c : Cursor) (state : DslState F)

def Answer (F : Type) : Question F → Type
  | .block .. => List (Op F) × Cursor
  | .nested .. => Op F × Cursor
  | .whileLines .. => WhileParts F × Cursor
  | .matchLines .. => MatchParts F × Cursor
  | .dsl .. => List (Op F) × LifecycleConfig F

abbrev Parser (F α : Type) := Rec (Question F) (Answer F) Failure α

section
variable {F : Type}

def parseBlock (c : Cursor) (baseIndent : Nat) (pos : SourcePosition) :
    Parser F (List (Op F) × Cursor) := Rec.answer (Question.block c baseIndent pos)

def parseNested (kind : BlockKind) (c : Cursor) (pos : SourcePosition) :
    Parser F (Op F × Cursor) := Rec.answer (Question.nested kind c pos)

def parseWhileLines (c : Cursor) (currentIndent : Nat) (pos : SourcePosition)
    (parts : WhileParts F) : Parser F (WhileParts F × Cursor) :=
  Rec.answer (Question.whileLines c currentIndent pos parts)

def parseMatchLines (c : Cursor) (currentIndent : Nat) (pos : SourcePosition)
    (parts : MatchParts F) : Parser F (MatchParts F × Cursor) :=
  Rec.answer (Question.matchLines c currentIndent pos parts)

def parseDslLines (c : Cursor) (state : DslState F) :
    Parser F (List (Op F) × LifecycleConfig F) := Rec.answer (Question.dsl c state)

section
variable {solve : (q : Question F) → Parse (Answer F q)} {c : Cursor} {pos : SourcePosition}

@[simp] theorem eval_parseBlock (baseIndent : Nat) :
    (parseBlock c baseIndent pos).eval solve = solve (.block c baseIndent pos) :=
  Rec.eval_answer _

@[simp] theorem eval_parseNested (kind : BlockKind) :
    (parseNested kind c pos).eval solve = solve (.nested kind c pos) :=
  Rec.eval_answer _

@[simp] theorem eval_parseWhileLines (currentIndent : Nat) (parts : WhileParts F) :
    (parseWhileLines c currentIndent pos parts).eval solve =
      solve (.whileLines c currentIndent pos parts) :=
  Rec.eval_answer _

@[simp] theorem eval_parseMatchLines (currentIndent : Nat) (parts : MatchParts F) :
    (parseMatchLines c currentIndent pos parts).eval solve =
      solve (.matchLines c currentIndent pos parts) :=
  Rec.eval_answer _

@[simp] theorem eval_parseDslLines (state : DslState F) :
    (parseDslLines c state).eval solve = solve (.dsl c state) :=
  Rec.eval_answer _

variable {e : Failure}

@[simp] theorem not_throws_parseBlock (baseIndent : Nat) :
    ¬ (parseBlock c baseIndent pos).Throws solve e :=
  Rec.throws_answer _

@[simp] theorem not_throws_parseNested (kind : BlockKind) :
    ¬ (parseNested kind c pos).Throws solve e :=
  Rec.throws_answer _

@[simp] theorem not_throws_parseWhileLines (currentIndent : Nat) (parts : WhileParts F) :
    ¬ (parseWhileLines c currentIndent pos parts).Throws solve e :=
  Rec.throws_answer _

@[simp] theorem not_throws_parseMatchLines (currentIndent : Nat) (parts : MatchParts F) :
    ¬ (parseMatchLines c currentIndent pos parts).Throws solve e :=
  Rec.throws_answer _

@[simp] theorem not_throws_parseDslLines (state : DslState F) :
    ¬ (parseDslLines c state).Throws solve e :=
  Rec.throws_answer _

end

def reject {α : Type} (e : CompilerError) : Parser F α := .throw (.error e)

/-- `lines[*current_line]` -/
def lineAt (c : Cursor) : Parser F Line :=
  match c.rest with
  | line :: _ => pure line
  | [] => .throw .panic

/-- `Nop` is not kept. -/
def isNop : Op F → Bool
  | .nop => true
  | _ => false

def push (op : Op F) (ops : List (Op F)) : List (Op F) := if isNop op then ops else ops ++ [op]

def pushFront (op : Op F) (ops : List (Op F)) : List (Op F) := if isNop op then ops else op :: ops

/-- The block a line ending in a colon begins, inside of blocks and at the top. -/
def blockKind (trimmed : Line) : Option BlockKind :=
  if trimmed = "if:".toList then some .ifBlock
  else if trimmed = "while:".toList then some .whileBlock
  else if "def ".toList <+: trimmed then some .functionBlock
  else if trimmed = "match:".toList then some .matchBlock
  else if "loop ".toList <+: trimmed then some .loopBlock
  else none

def endsInColon (trimmed : Line) : Bool := trimmed.getLast? = some ':'

/-! ### `if` -/

/-- An `else:` behind the block of an `if:`, whatever its indentation. -/
def parseElse (currentIndent : Nat) (pos : SourcePosition) (thenOps : List (Op F)) (c : Cursor) :
    Parser F (Op F × Cursor) :=
  match c.rest with
  | line :: _ =>
    if trim line = "else:".toList then do
      let elsePos : SourcePosition := ⟨pos.line + c.index, indent line + 1⟩
      let (elseOps, c) ← parseBlock c.next currentIndent elsePos
      return (.ifOp [] thenOps (some elseOps), c)
    else return (.ifOp [] thenOps none, c)
  | [] => return (.ifOp [] thenOps none, c)

def parseIfBlock (c : Cursor) (pos : SourcePosition) : Parser F (Op F × Cursor) := do
  let currentIndent := indent (← lineAt c)
  let (thenOps, c) ← parseBlock c.next currentIndent pos
  parseElse currentIndent pos thenOps c

/-! ### `loop` -/

/-- `eq_ignore_ascii_case` -/
def eqIgnoreAsciiCase (text word : List Char) : Bool :=
  text.map Char.toLower = word.map Char.toLower

def parseLoopHeader (line : Line) (pos : SourcePosition) : Parse Nat := do
  let (keyword, countText) ←
    orFail (.invalidLoopFormat (String.ofList (trim line)) pos) (splitOnce ' ' (trim line))
  if eqIgnoreAsciiCase keyword "loop".toList then
    let countText := trimEndMatches ':' countText
    parseInteger
      (.invalidLoopCount (String.ofList countText) (adjustedPosition pos line countText)) countText
  else fail (.invalidLoopFormat (String.ofList (trim line)) pos)

def parseLoopBlock (c : Cursor) (pos : SourcePosition) : Parser F (Op F × Cursor) := do
  let line ← lineAt c
  let count ← Rec.ofExcept (parseLoopHeader line pos)
  let (body, c) ← parseBlock c.next (indent line) pos
  return (.loop count body, c)

/-! ### `def` -/

def parseFunctionSignature (line : Line) (pos : SourcePosition) :
    Parse (String × List String) := do
  let (nameText, paramsText) ← orFail (.invalidFunctionDefinition (String.ofList line) pos)
    (splitOnce '(' (trimEndMatches ':' line))
  let namePart := trim nameText
  if "def ".toList <+: namePart then
    let name := trim (← slicedFrom "def ".length namePart)
    let params := (((trimEndMatches ')' paramsText).splitOn ',').map trim).filter
      fun param => !param.isEmpty
    return (String.ofList name, params.map String.ofList)
  else fail (.invalidFunctionStart (String.ofList line) pos)

def parseFunctionHeader (line : Line) (pos : SourcePosition) : Parse (String × List String) :=
  if '(' ∉ line ∨ ')' ∉ line then fail (.invalidFunctionFormat (String.ofList line) pos)
  else parseFunctionSignature line pos

def parseFunctionBlock (c : Cursor) (pos : SourcePosition) : Parser F (Op F × Cursor) := do
  let line ← lineAt c
  let (name, params) ← Rec.ofExcept (parseFunctionHeader line pos)
  let (body, c) ← parseBlock c.next (indent line) pos
  return (.defOp name params body, c)

/-! ### `parse_block` -/

/-- The lines of an `if passed:` or of an `else:` without an `if:`, and where they end. -/
def collectLines (baseIndent : Nat) (index : Nat) : List Line → List Line × Cursor
  | [] => ([], ⟨index, []⟩)
  | line :: rest =>
    if isBlank line then collectLines baseIndent (index + 1) rest
    else if indent line ≤ baseIndent then ([], ⟨index, line :: rest⟩)
    else
      let (lines, c) := collectLines baseIndent (index + 1) rest
      (line :: lines, c)

/-- The collected lines are parsed by themselves, as if they stood one deeper. -/
def parseCollected (f : List (Op F) → Op F) (c : Cursor) (baseIndent : Nat)
    (pos : SourcePosition) : Parser F (Op F × Cursor) := do
  let collected := collectLines baseIndent c.next.index c.next.rest
  let (ops, _) ← parseBlock ⟨0, collected.1⟩ (baseIndent + 1) pos
  return (f ops, collected.2)

/-- A line of a block that ends in a colon. -/
def parseBlockHeader (c : Cursor) (line : Line) (baseIndent : Nat) (pos : SourcePosition) :
    Parser F (Op F × Cursor) :=
  match blockKind (trim line) with
  | some kind => parseNested kind c pos
  | none =>
    if trim line = "if passed:".toList then parseCollected .ifPassed c baseIndent pos
    else if trim line = "else:".toList then parseCollected .elseBlock c baseIndent pos
    else reject (.unknownBlockType (String.ofList (trim line)) pos)

variable [Number F]

/-- A line that is not the beginning of a block. -/
def parseStatement (c : Cursor) (line : Line) (pos : SourcePosition) :
    Parser F (Op F × Cursor) := do
  let op ← Rec.ofExcept (parseLine line pos)
  return (op, c.next)

def parseBlockLines (c : Cursor) (baseIndent : Nat) (pos : SourcePosition) :
    Parser F (List (Op F) × Cursor) :=
  match c.rest with
  | [] => return ([], c)
  | line :: _ =>
    if isBlank line then parseBlock c.next baseIndent pos
    else if indent line ≤ baseIndent then return ([], c)
    else do
      let currentPos : SourcePosition := ⟨pos.line + c.index, indent line + 1⟩
      let (op, c) ←
        if endsInColon (trim line) then parseBlockHeader c line baseIndent currentPos
        else parseStatement c line currentPos
      let (ops, c) ← parseBlock c baseIndent pos
      return (pushFront op ops, c)

/-! ### `while` -/

/-- The blocks the loop of `parse_while_block` knows. -/
def whileBlockKind (trimmed : Line) : Option BlockKind :=
  if trimmed = "if:".toList then some .ifBlock
  else if trimmed = "while:".toList then some .whileBlock
  else if "loop ".toList <+: trimmed then some .loopBlock
  else if trimmed = "match:".toList then some .matchBlock
  else none

/-- A line of the body of a `while:`. -/
def parseWhileLine (c : Cursor) (line : Line) (pos : SourcePosition) : Parser F (Op F × Cursor) :=
  if endsInColon (trim line) then
    match whileBlockKind (trim line) with
    | some kind => parseNested kind c pos
    | none => reject (.unknownBlockType (String.ofList (trim line)) pos)
  else parseStatement c line pos

def whileLoop (c : Cursor) (currentIndent : Nat) (pos : SourcePosition) (parts : WhileParts F) :
    Parser F (WhileParts F × Cursor) :=
  match c.rest with
  | [] => return (parts, c)
  | line :: _ =>
    -- a blank line has an indentation, too
    if indent line ≤ currentIndent then return (parts, c)
    else
      let linePos : SourcePosition := ⟨pos.line + c.index, indent line + 1⟩
      if trim line = "condition:".toList then do
        let (condition, c) ← parseBlock c.next (indent line) linePos
        parseWhileLines c currentIndent pos
          { parts with hasExplicitCondition := true, condition := condition }
      else do
        let (op, c) ← parseWhileLine c line linePos
        parseWhileLines c currentIndent pos { parts with body := push op parts.body }

/-- Without a `condition:` the first operation of the body is the condition. -/
def WhileParts.toOp (parts : WhileParts F) : Op F :=
  match parts.hasExplicitCondition, parts.body with
  | false, op :: body => .whileOp [op] body
  | _, body => .whileOp parts.condition body

def parseWhileBlock (c : Cursor) (pos : SourcePosition) : Parser F (Op F × Cursor) := do
  let currentIndent := indent (← lineAt c)
  let (parts, c) ← parseWhileLines c.next currentIndent pos ⟨[], [], false⟩
  return (parts.toOp, c)

/-! ### `match` -/

def parseCaseValue (line : Line) (pos : SourcePosition) : Parse F := do
  let valueText := trimEndMatches ':' (trim (← slicedFrom 5 (trim line)))
  parseF64 (.invalidCaseValue (String.ofList valueText) (adjustedPosition pos line valueText))
    valueText

def matchLoop (c : Cursor) (currentIndent : Nat) (pos : SourcePosition) (parts : MatchParts F) :
    Parser F (MatchParts F × Cursor) :=
  match c.rest with
  | [] => return (parts, c)
  | line :: _ =>
    if indent line ≤ currentIndent then return (parts, c)
    else
      let linePos : SourcePosition := ⟨pos.line + c.index, indent line + 1⟩
      let blockPos : SourcePosition := ⟨linePos.line + 1, indent line + 1⟩
      if trim line = "value:".toList then do
        let (ops, c) ← parseBlock c.next (indent line) blockPos
        parseMatchLines c currentIndent pos { parts with valueOps := ops }
      else if "case ".toList <+: trim line then do
        let value ← Rec.ofExcept (parseCaseValue line linePos)
        let (ops, c) ← parseBlock c.next (indent line) blockPos
        parseMatchLines c currentIndent pos
          { parts with cases := parts.cases ++ [(.number value, ops)] }
      else if trim line = "default:".toList then do
        let (ops, c) ← parseBlock c.next (indent line) blockPos
        parseMatchLines c currentIndent pos { parts with defaultOps := some ops }
      else do
        let (op, c) ← parseStatement c line linePos
        parseMatchLines c currentIndent pos { parts with valueOps := push op parts.valueOps }

def parseMatchBlock (c : Cursor) (pos : SourcePosition) : Parser F (Op F × Cursor) := do
  let currentIndent := indent (← lineAt c)
  let (parts, c) ← parseMatchLines c.next currentIndent pos ⟨[], [], none⟩
  if parts.valueOps.isEmpty then reject (.missingMatchValue pos)
  else return (.matchOp parts.valueOps parts.cases parts.defaultOps, c)

def parseNestedBlock (c : Cursor) (pos : SourcePosition) : BlockKind → Parser F (Op F × Cursor)
  | .ifBlock => parseIfBlock c pos
  | .whileBlock => parseWhileBlock c pos
  | .functionBlock => parseFunctionBlock c pos
  | .matchBlock => parseMatchBlock c pos
  | .loopBlock => parseLoopBlock c pos

/-! ### `parse_dsl` -/

/-- A line at the top that is an operation. -/
def parseTopLine (c : Cursor) (line : Line) (pos : SourcePosition) : Parser F (Op F × Cursor) :=
  if endsInColon (trim line) then
    match blockKind (trim line) with
    | some kind => parseNested kind c pos
    | none => reject (.unknownBlockType (String.ofList (trim line)) pos)
  else parseStatement c line pos

def dslLoop (c : Cursor) (state : DslState F) : Parser F (List (Op F) × LifecycleConfig F) :=
  match c.rest with
  | [] => return ([], state.config)
  | line :: _ =>
    if isBlank line then parseDslLines c.next state
    else do
      let pos : SourcePosition := ⟨c.index + 1, indent line + 1⟩
      match ← Rec.ofExcept (readDirective pos state (trim line)) with
      | some state => parseDslLines c.next state
      | none => do
        let (op, c) ← parseTopLine c line pos
        let (ops, config) ← parseDslLines c state
        return (pushFront op ops, config)

def body : (q : Question F) → Parser F (Answer F q)
  | .block c baseIndent pos => parseBlockLines c baseIndent pos
  | .nested kind c pos => parseNestedBlock c pos kind
  | .whileLines c currentIndent pos parts => whileLoop c currentIndent pos parts
  | .matchLines c currentIndent pos parts => matchLoop c currentIndent pos parts
  | .dsl c state => dslLoop c state

end

end Covm.Compiler
