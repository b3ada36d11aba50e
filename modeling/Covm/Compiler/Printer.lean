import Covm.Compiler.Literals
import Covm.Compiler.WhileBody
import Covm.Storage.Tokens

/-!
# Programs as text

`render` writes a program in the syntax of blocks, with four spaces for each level. A structured
program (`AllStructured`) has operations of one line, and blocks in the one form the printer knows.
-/

namespace Covm.Compiler

open Text (trim words indent isBlank isWhitespace)

variable {F : Type}

/-! ## Structured programs -/

/-- The commands without arguments. -/
def plainText : Op F → Option String
  | .breakOp => some "break"
  | .continueOp => some "continue"
  | .add => some "add"
  | .sub => some "sub"
  | .mul => some "mul"
  | .div => some "div"
  | .mod => some "mod"
  | .eq => some "eq"
  | .gt => some "gt"
  | .lt => some "lt"
  | .not => some "not"
  | .and => some "and"
  | .or => some "or"
  | .negate => some "negate"
  | .dup => some "dup"
  | .swap => some "swap"
  | .overOp => some "over"
  | .pop => some "pop"
  | .returnOp => some "return"
  | .dumpStack => some "dumpstack"
  | .dumpMemory => some "dumpmemory"
  | .dumpState => some "dumpstate"
  | _ => none

/-- Letters, digits and underscores. -/
def IsIdentifier (name : String) : Prop :=
  name.toList ≠ [] ∧ ∀ c ∈ name.toList, c.isAlphanum = true ∨ c = '_'

def isDef : Op F → Bool
  | .defOp .. => true
  | _ => false

mutual

def Structured : Op F → Prop
  | .ifOp condition thenOps elseOps =>
    condition = [] ∧ AllStructured thenOps ∧ elseOps.isSome ∧ BranchStructured elseOps
  | .loop count body => count < 2 ^ 64 ∧ AllStructured body
  | .whileOp condition body =>
    AllStructured condition ∧ AllStructured body ∧ ∀ op ∈ body, isDef op = false
  | .matchOp value cases default =>
    value ≠ [] ∧ AllStructured value ∧ CasesStructured cases ∧ BranchStructured default
  | .defOp name params body =>
    IsIdentifier name ∧ (∀ param ∈ params, IsIdentifier param) ∧ AllStructured body
  | .push (.string s) => ∀ c ∈ s.toList, c ≠ '"' ∧ isWhitespace c = false
  | .push _ => True
  | .load name | .store name | .call name | .storeP name | .loadP name => IsIdentifier name
  | op => (plainText op).isSome

def AllStructured : List (Op F) → Prop
  | [] => True
  | op :: ops => Structured op ∧ AllStructured ops

def BranchStructured : Option (List (Op F)) → Prop
  | none => True
  | some ops => AllStructured ops

def CasesStructured : List (TypedValue F × List (Op F)) → Prop
  | [] => True
  | (.number _, ops) :: cases => AllStructured ops ∧ CasesStructured cases
  | (_, _) :: _ => False

end

/-! ## The printer -/

/-- A line of a level. -/
def pad (depth : Nat) (text : List Char) : Line := List.replicate (4 * depth) ' ' ++ text

/-- A command and one word. -/
def commandText (command : String) (word : List Char) : List Char := command.toList ++ ' ' :: word

variable [Number F]

def valueText : TypedValue F → List Char
  | .number n => (Number.toStr n).toList
  | .boolean true => "true".toList
  | .boolean false => "false".toList
  | .null => "null".toList
  | .string s => quoted s

/-- The operations of one line. -/
def statementText : Op F → Option (List Char)
  | .push value => some (commandText "push" (valueText value))
  | .load name => some (commandText "load" name.toList)
  | .store name => some (commandText "store" name.toList)
  | .call name => some (commandText "call" name.toList)
  | .storeP name => some (commandText "storep" name.toList)
  | .loadP name => some (commandText "loadp" name.toList)
  | op => (plainText op).map String.toList

def loopHeader (count : Nat) : List Char := commandText "loop" ((toString count).toList ++ [':'])

def paramsText : List String → List Char
  | [] => []
  | [param] => param.toList
  | param :: params => param.toList ++ ", ".toList ++ paramsText params

def defHeader (name : String) (params : List String) : List Char :=
  commandText "def" (name.toList ++ '(' :: (paramsText params ++ "):".toList))

def caseHeader (value : F) : List Char :=
  commandText "case" ((Number.toStr value).toList ++ [':'])

mutual

def renderOp : Nat → Op F → List Line
  | depth, .ifOp _ thenOps elseOps =>
    pad depth "if:".toList ::
      (renderOps (depth + 1) thenOps ++ renderBranch depth "else:".toList elseOps)
  | depth, .loop count body => pad depth (loopHeader count) :: renderOps (depth + 1) body
  | depth, .whileOp condition body =>
    pad depth "while:".toList :: pad (depth + 1) "condition:".toList ::
      (renderOps (depth + 2) condition ++ renderOps (depth + 1) body)
  | depth, .matchOp value cases default =>
    pad depth "match:".toList :: pad (depth + 1) "value:".toList ::
      (renderOps (depth + 2) value ++ (renderCases (depth + 1) cases ++
        renderBranch (depth + 1) "default:".toList default))
  | depth, .defOp name params body =>
    pad depth (defHeader name params) :: renderOps (depth + 1) body
  | depth, op => (statementText op).toList.map (pad depth)

def renderOps : Nat → List (Op F) → List Line
  | _, [] => []
  | depth, op :: ops => renderOp depth op ++ renderOps depth ops

def renderBranch : Nat → List Char → Option (List (Op F)) → List Line
  | _, _, none => []
  | depth, header, some ops => pad depth header :: renderOps (depth + 1) ops

def renderCases : Nat → List (TypedValue F × List (Op F)) → List Line
  | _, [] => []
  | depth, (.number value, ops) :: cases =>
    pad depth (caseHeader value) :: (renderOps (depth + 1) ops ++ renderCases depth cases)
  | depth, (_, _) :: cases => renderCases depth cases

end

/-- The text of a program. -/
def render (ops : List (Op F)) : String := String.ofList (Text.unlines '\n' (renderOps 0 ops))

/-! ## Lines that are read back -/

/-- A text within a line that begins and ends with something to see. -/
structure Visible (text : List Char) : Prop where
  first : ∃ c ∈ text.head?, isWhitespace c = false
  last : ∃ c ∈ text.getLast?, isWhitespace c = false
  noFeed : '\n' ∉ text

section visible
variable {text : List Char} (depth : Nat)

theorem Visible.trim_eq (h : Visible text) : trim text = text := by
  obtain ⟨c, hc, hfirst⟩ := h.first
  obtain ⟨d, hd, hlast⟩ := h.last
  obtain ⟨rest, rfl⟩ := List.head?_eq_some_iff.mp hc
  rw [trim, Text.trimStart, List.dropWhile_cons_of_neg (by simp [hfirst]), Text.trimEnd,
    List.rdropWhile_eq_self_iff]
  intro hne
  rw [List.getLast?_eq_some_getLast hne] at hd
  rw [Option.some.inj hd, hlast]
  exact Bool.false_ne_true

theorem Visible.trim_pad (h : Visible text) : trim (pad depth text) = text :=
  (Text.trim_spaces_append _ _).trans h.trim_eq

theorem Visible.indent_pad (h : Visible text) : indent (pad depth text) = 4 * depth := by
  obtain ⟨c, hc, hfirst⟩ := h.first
  obtain ⟨rest, rfl⟩ := List.head?_eq_some_iff.mp hc
  exact Text.indent_spaces_append _ hfirst rest

theorem Visible.isBlank_pad (h : Visible text) : isBlank (pad depth text) = false := by
  refine isBlank_eq_false ?_
  rw [h.trim_pad]
  rintro rfl
  obtain ⟨c, hc, -⟩ := h.first
  cases hc

theorem Visible.isLine_pad (h : Visible text) : Text.IsLine '\n' '\r' (pad depth text) where
  noFeed hmem := by
    rcases List.mem_append.mp hmem with hmem | hmem
    · exact absurd (List.eq_of_mem_replicate hmem) (by decide)
    · exact h.noFeed hmem
  noReturn hreturn := by
    obtain ⟨d, hd, hlast⟩ := h.last
    rw [pad, List.getLast?_append, Option.mem_def.mp hd, Option.some_or] at hreturn
    rw [Option.some.inj hreturn] at hlast
    exact absurd hlast (by decide)

theorem words_pad (text : List Char) : words (pad depth text) = words text := by
  unfold pad
  induction 4 * depth with
  | zero => rfl
  | succ n ih =>
    rw [← ih, List.replicate_succ, List.cons_append]
    unfold words
    rw [List.splitOnP_cons_eq_if_modifyHead, if_pos isWhitespace_space]
    rfl

/-- The characters of a word. -/
def IsWord (text : List Char) : Prop := text ≠ [] ∧ ∀ c ∈ text, isWhitespace c = false

instance (text : List Char) : Decidable (IsWord text) :=
  have : Decidable (∀ c ∈ text, isWhitespace c = false) := List.decidableBAll _ _
  inferInstanceAs (Decidable (text ≠ [] ∧ ∀ c ∈ text, isWhitespace c = false))

theorem IsWord.visible (h : IsWord text) : Visible text where
  first := by
    obtain ⟨c, rest, rfl⟩ := List.exists_cons_of_ne_nil h.1
    exact ⟨c, rfl, h.2 c (.head _)⟩
  last := ⟨_, List.getLast?_eq_some_getLast h.1, h.2 _ (List.getLast_mem h.1)⟩
  noFeed hmem := absurd (h.2 _ hmem) (by decide)

variable {command : String} {word : List Char}

theorem visible_commandText (hcommand : IsWord command.toList) (hword : IsWord word) :
    Visible (commandText command word) where
  first := by
    obtain ⟨c, hc, hfirst⟩ := hcommand.visible.first
    refine ⟨c, ?_, hfirst⟩
    rw [commandText, List.head?_append, Option.mem_def.mp hc]
    rfl
  last := by
    obtain ⟨d, hd, hlast⟩ := hword.visible.last
    refine ⟨d, ?_, hlast⟩
    rw [commandText, List.getLast?_append, List.getLast?_cons, Option.mem_def.mp hd]
    rfl
  noFeed hmem := by
    rcases List.mem_append.mp hmem with hmem | hmem
    · exact hcommand.visible.noFeed hmem
    · rcases List.mem_cons.mp hmem with hmem | hmem
      · exact absurd hmem (by decide)
      · exact hword.visible.noFeed hmem

theorem words_commandText (hcommand : IsWord command.toList) (hword : IsWord word) :
    words (commandText command word) = [command.toList, word] := by
  rw [commandText, Text.words_append_space hcommand.2 hcommand.1 isWhitespace_space,
    Text.words_singleton hword.2 hword.1]

end visible

/-! ### Names and numbers -/

/-- What names and numbers are written with. -/
def IsPlain (c : Char) : Prop := c.isAlphanum = true ∨ c = '_' ∨ c = '-' ∨ c = '.'

theorem IsPlain.isWhitespace_eq {c : Char} (h : IsPlain c) : isWhitespace c = false := by
  rcases h with h | rfl | rfl | rfl
  · have hcode : 48 ≤ c.toNat ∧ c.toNat ≤ 57 ∨ 65 ≤ c.toNat ∧ c.toNat ≤ 90 ∨
        97 ≤ c.toNat ∧ c.toNat ≤ 122 := by
      delta Char.isAlphanum Char.isAlpha Char.isUpper Char.isLower Char.isDigit at h
      simp only [Bool.or_eq_true, Bool.and_eq_true, decide_eq_true_eq, ge_iff_le,
        UInt32.le_iff_toNat_le] at h
      change (65 ≤ c.toNat ∧ c.toNat ≤ 90 ∨ 97 ≤ c.toNat ∧ c.toNat ≤ 122) ∨
        48 ≤ c.toNat ∧ c.toNat ≤ 57 at h
      omega
    simp only [isWhitespace, decide_eq_false_iff_not, List.mem_cons, List.not_mem_nil, or_false]
    omega
  all_goals decide

instance (c : Char) : Decidable (IsPlain c) :=
  inferInstanceAs (Decidable (c.isAlphanum = true ∨ c = '_' ∨ c = '-' ∨ c = '.'))

/-- A name or a number. -/
def IsPlainWord (text : List Char) : Prop := text ≠ [] ∧ ∀ c ∈ text, IsPlain c

instance (text : List Char) : Decidable (IsPlainWord text) :=
  have : Decidable (∀ c ∈ text, IsPlain c) := List.decidableBAll _ _
  inferInstanceAs (Decidable (text ≠ [] ∧ ∀ c ∈ text, IsPlain c))

theorem IsIdentifier.isPlainWord {name : String} (h : IsIdentifier name) :
    IsPlainWord name.toList := by
  refine ⟨h.1, fun c hc => ?_⟩
  rcases h.2 c hc with halphanum | hunderscore
  · exact .inl halphanum
  · exact .inr (.inl hunderscore)

namespace IsPlainWord

variable {text : List Char}

theorem isWord (h : IsPlainWord text) : IsWord text := ⟨h.1, fun c hc => (h.2 c hc).isWhitespace_eq⟩

theorem not_mem (h : IsPlainWord text) {c : Char} (hc : ¬ IsPlain c) : c ∉ text :=
  fun hmem => hc (h.2 c hmem)

theorem head_ne (h : IsPlainWord text) {c : Char} (hc : ¬ IsPlain c) : text.head? ≠ some c :=
  fun hhead => h.not_mem hc (List.mem_of_mem_head? hhead)

theorem endsInColon_eq (h : IsPlainWord text) : endsInColon text = false := by
  rw [endsInColon, decide_eq_false_iff_not]
  intro hlast
  exact h.not_mem (by decide) (List.mem_of_getLast? hlast)

end IsPlainWord

/-- Numbers that are read as what was written. -/
class DecimalText (F : Type) [Number F] : Prop where
  parse_toStr (x : F) : Number.parse (Number.toStr x) = some x
  isPlainWord_toStr (x : F) : IsPlainWord (Number.toStr x).toList
  parse_keyword (word : String) (h : word ∈ ["true", "false", "null"]) :
    (Number.parse word : Option F) = none

/-! ## Statements -/

theorem endsInColon_commandText {command : String} {word : List Char} (hword : word ≠ []) :
    endsInColon (commandText command word) = endsInColon word := by
  obtain ⟨c, rest, rfl⟩ := List.exists_cons_of_ne_nil hword
  rw [endsInColon, endsInColon, commandText, List.getLast?_append_cons, List.getLast?_cons_cons]

omit [Number F] in
theorem not_isDirective_of_isWord {text : List Char} (h : IsWord text) :
    ¬ IsDirective (DslState.start : DslState F) text := by
  have hspace : ' ' ∉ text := fun hmem => absurd (h.2 _ hmem) (by decide)
  rintro (⟨htemplate, -⟩ | huse | rfl | hgovernance | htemplate)
  · exact hspace (htemplate.subset (by decide))
  · exact hspace (huse.subset (by decide))
  · exact hspace (by decide)
  · cases hgovernance
  · cases htemplate

/-- A line that is read as an operation, at any depth. -/
structure IsStatement (op : Op F) (text : List Char) : Prop where
  visible : Visible text
  endsInColon_eq : endsInColon text = false
  noDirective : ¬ IsDirective (DslState.start : DslState F) text
  parses (depth : Nat) (pos : SourcePosition) : parseLine (pad depth text) pos = .ok op

theorem isComment_pad {text : List Char} (h : Visible text) (depth : Nat) :
    isComment (pad depth text) = decide (text.head? = some '#') := by
  rw [isComment, h.trim_pad]

theorem parseLine_pad {command : String} {text : List Char} {args : Arguments} (h : Visible text)
    (hhash : text.head? ≠ some '#') (hwords : words text = command.toList :: args) (depth : Nat)
    (pos : SourcePosition) : (parseLine (pad depth text) pos : Parse (Op F)) =
      parseCommand (pad depth text) pos args command := by
  rw [parseLine, isComment_pad h, decide_eq_false hhash, if_neg Bool.false_ne_true, words_pad,
    hwords]
  dsimp only
  rw [String.ofList_toList]

theorem isStatement_plain {op : Op F} {command : String} (hcommand : IsPlainWord command.toList)
    (h : ∀ line pos, parseCommand line pos [] command = .ok op) :
    IsStatement op command.toList where
  visible := hcommand.isWord.visible
  endsInColon_eq := hcommand.endsInColon_eq
  noDirective := not_isDirective_of_isWord hcommand.isWord
  parses depth pos := by
    have hwords := Text.words_singleton hcommand.isWord.2 hcommand.isWord.1
    rw [parseLine_pad hcommand.isWord.visible (hcommand.head_ne (by decide)) hwords, h]

/-- A command with one argument. -/
theorem isStatement_command {op : Op F} {command : String} {word : List Char}
    (hcommand : IsPlainWord command.toList) (ht : command.toList.head? ≠ some 't')
    (hg : command.toList.head? ≠ some 'g') (hword : IsWord word)
    (hcolon : endsInColon word = false)
    (h : ∀ line pos, parseCommand line pos [word] command = .ok op) :
    IsStatement op (commandText command word) where
  visible := visible_commandText hcommand.isWord hword
  endsInColon_eq := (endsInColon_commandText hword.1).trans hcolon
  noDirective := by
    obtain ⟨c, hc, -⟩ := hcommand.isWord.visible.first
    refine not_isDirective_of_head rfl rfl (c := c) ?_ ?_ ?_
    · rw [commandText, List.head?_append, Option.mem_def.mp hc, Option.some_or]
    · rintro rfl
      exact ht hc
    · rintro rfl
      exact hg hc
  parses depth pos := by
    have hhash : (commandText command word).head? ≠ some '#' := by
      rw [commandText, List.head?_append_of_ne_nil _ hcommand.1]
      exact hcommand.head_ne (by decide)
    rw [parseLine_pad (visible_commandText hcommand.isWord hword) hhash
      (words_commandText hcommand.isWord hword), h]

theorem isWord_quoted {s : String} (h : ∀ c ∈ s.toList, isWhitespace c = false) :
    IsWord (quoted s) := by
  refine ⟨List.cons_ne_nil _ _, fun c hc => ?_⟩
  simp only [quoted, List.mem_cons, List.mem_append, List.not_mem_nil, or_false] at hc
  rcases hc with rfl | hc | rfl
  · exact isWhitespace_quote
  · exact h c hc
  · exact isWhitespace_quote

theorem parsePush_number [DecimalText F] (x : F) (pos : SourcePosition) :
    parsePush pos [(Number.toStr x).toList] = .ok (.push (.number x)) := by
  have hne {word : String} (hword : word ∈ ["true", "false", "null"]) :
      (Number.toStr x).toList ≠ word.toList := by
    intro heq
    have hparse := DecimalText.parse_toStr x
    rw [String.toList_inj.mp heq, DecimalText.parse_keyword word hword] at hparse
    cases hparse
  have hquoted : isQuoted (Number.toStr x).toList = false := by
    have hhead := (DecimalText.isPlainWord_toStr x).head_ne (by decide : ¬ IsPlain '"')
    rw [isQuoted, decide_eq_false hhead, Bool.false_and]
  show (if _ = _ then _ else _) = _
  rw [if_neg (hne (by decide)), if_neg (hne (by decide)), if_neg (hne (by decide)), hquoted,
    if_neg Bool.false_ne_true, String.ofList_toList, DecimalText.parse_toStr x]
  rfl

theorem isStatement_keyword {value : TypedValue F} {word : String}
    (hword : IsPlainWord word.toList) (h : ∀ pos, parsePush pos [word.toList] = .ok (.push value)) :
    IsStatement (.push value) (commandText "push" word.toList) :=
  isStatement_command (by decide) (by decide) (by decide) hword.isWord hword.endsInColon_eq
    fun _ pos => h pos

theorem isStatement_push [DecimalText F] {value : TypedValue F} (h : Structured (.push value)) :
    IsStatement (.push value) (commandText "push" (valueText value)) := by
  cases value with
  | number x => exact isStatement_keyword (DecimalText.isPlainWord_toStr x) (parsePush_number x)
  | boolean b =>
    cases b with
    | false => exact isStatement_keyword (by decide) fun _ => rfl
    | true => exact isStatement_keyword (by decide) fun _ => rfl
  | null => exact isStatement_keyword (by decide) fun _ => rfl
  | string s =>
    have hcolon : endsInColon (quoted s) = false := by
      rw [endsInColon, quoted, List.getLast?_cons, List.getLast?_append]
      rfl
    refine isStatement_command (by decide) (by decide) (by decide)
      (isWord_quoted fun c hc => (h c hc).2) hcolon fun _ pos => ?_
    show parsePush pos [quoted s] = _
    rw [parsePush_quoted pos [] rfl, if_pos (isQuoted_quoted s), withoutQuotes_quoted]
    show Except.ok _ = _
    rw [String.ofList_toList]

/-- A command that is followed by a name. -/
theorem isStatement_named (f : String → Op F) {command name : String}
    (hcommand : IsPlainWord command.toList) (ht : command.toList.head? ≠ some 't')
    (hg : command.toList.head? ≠ some 'g') (hname : IsIdentifier name)
    (h : ∀ line pos args, parseCommand line pos (name.toList :: args) command =
      .ok (f (String.ofList name.toList))) :
    IsStatement (f name) (commandText command name.toList) := by
  have hword := hname.isPlainWord
  refine isStatement_command hcommand ht hg hword.isWord hword.endsInColon_eq fun line pos => ?_
  rw [h, String.ofList_toList]

theorem isStatement_plainText {op : Op F} {command : String} (h : plainText op = some command) :
    IsStatement op command.toList := by
  cases op <;> simp only [plainText, Option.some.injEq, reduceCtorEq] at h
  all_goals
    subst h
    exact isStatement_plain (by decide) fun _ _ => rfl

theorem isStatement_of_text [DecimalText F] {op : Op F} {text : List Char} (h : Structured op)
    (htext : statementText op = some text) : IsStatement op text := by
  cases op with
  | push value =>
    cases htext
    exact isStatement_push h
  | load name =>
    cases htext
    exact isStatement_named .load (by decide) (by decide) (by decide) h fun _ _ _ => rfl
  | store name =>
    cases htext
    exact isStatement_named .store (by decide) (by decide) (by decide) h fun _ _ _ => rfl
  | call name =>
    cases htext
    exact isStatement_named .call (by decide) (by decide) (by decide) h fun _ _ _ => rfl
  | storeP name =>
    cases htext
    exact isStatement_named .storeP (by decide) (by decide) (by decide) h fun _ _ _ => rfl
  | loadP name =>
    cases htext
    exact isStatement_named .loadP (by decide) (by decide) (by decide) h fun _ _ _ => rfl
  | _ =>
    simp only [statementText, Option.map_eq_some_iff] at htext
    obtain ⟨command, hcommand, rfl⟩ := htext
    exact isStatement_plainText hcommand

end Covm.Compiler
