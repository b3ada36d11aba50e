import Covm.Compiler.Literals
import Covm.Compiler.Unclosed

/-!
# Macros (`compiler/macros.rs`)

The macro `proposal_lifecycle` reads the properties of a proposal, its attachments and the lines of
its execution section, and writes lines of code that store them. These begin with `StoreP`, but the
command is called `storep`: none of them can be parsed, and the macro never expands.
-/

namespace Covm.Compiler.Macros

open Text (trim splitOnce trimEndMatches isWhitespace)

inductive BlockType where
  | root
  | execution
  deriving DecidableEq

/-- `trim_matches` of a character. -/
def trimMatches (c : Char) (text : List Char) : List Char :=
  trimEndMatches c (text.dropWhile (· = c))

structure BlockParts where
  properties : HashMap String
  /-- From names to paths. -/
  attachments : HashMap String
  executionDsl : List Char
  currentBlock : BlockType
  executionBlockLines : List Line

def readAttachment (parts : BlockParts) (trimmed value : Line) : Except String BlockParts :=
  match splitOnce ' ' value with
  | some (nameText, pathText) =>
    let name := trimMatches '"' nameText
    if eqIgnoreAsciiCase name "logic".toList then
      .error ("Cannot use 'logic' as a name for file attachment; " ++
        "it's reserved for the execution block.")
    else
      .ok { parts with
        attachments := parts.attachments.insert (String.ofList name)
          (String.ofList (trimMatches '"' pathText)) }
  | none => .error ("Invalid attachment format: " ++ String.ofList trimmed)

/-- A line outside of the execution section. -/
def readProperty (parts : BlockParts) (trimmed : Line) : Except String BlockParts :=
  match splitOnce ' ' trimmed with
  | some (keyText, valueText) =>
    let key := String.ofList keyText
    let value := trimMatches '"' (trim valueText)
    if key ∈ ["title", "quorum", "threshold", "discussion_duration", "expires_at"] then
      .ok { parts with properties := parts.properties.insert key (String.ofList value) }
    else if key = "attachment" then readAttachment parts trimmed value
    else .error ("Unknown property in proposal block: " ++ key)
  | none => .error ("Invalid line in proposal block: " ++ String.ofList trimmed)

def readLine (parts : BlockParts) (line : Line) : Except String BlockParts :=
  let trimmed := trim line
  if trimmed = [] ∨ trimmed.head? = some '#' then .ok parts
  else if trimmed = "execution \x7b".toList then
    if parts.currentBlock = .root then .ok { parts with currentBlock := .execution }
    else .error "Nested execution blocks are not allowed."
  else if trimmed = "\x7d".toList then
    if parts.currentBlock = .execution then
      .ok { parts with
        currentBlock := .root
        executionDsl := List.intercalate ['\n'] parts.executionBlockLines
        executionBlockLines := [] }
    else .error "Unexpected closing brace '\x7d'."
  else
    match parts.currentBlock with
    | .root => readProperty parts trimmed
    | .execution =>
      .ok { parts with executionBlockLines := parts.executionBlockLines ++ [trimmed] }

/-- The properties, the attachments and the code of the execution section. -/
def parseProposalBlock (lines : List Line) :
    Except String (HashMap String × HashMap String × List Char) := do
  let parts ← lines.foldlM readLine ⟨∅, ∅, [], .root, []⟩
  if parts.currentBlock = .root then
    return (parts.properties, parts.attachments, parts.executionDsl)
  else throw "Unclosed execution block."

/-- `parse_duration` of the macros: days, hours and minutes. -/
def parseMacroDuration (text : List Char) : Parse (Option Period) :=
  let text := trim text
  let ofUnit (unit : Char) (seconds : Int) : Parse (Option Period) :=
    match parseI64 (trimEndMatches unit text) with
    | some value => some <$> duration (value * seconds)
    | none => .ok none
  match text.getLast? with
  | some 'd' => ofUnit 'd' 86400
  | some 'h' => ofUnit 'h' 3600
  | some 'm' => ofUnit 'm' 60
  | _ => .ok none

/-- What an expansion learns from outside: the clock, new keys, the JSON of a lifecycle, files, the
order in which a map lists its entries, and which characters Unicode calls letters or numbers. -/
structure MacroWorld (Identity : Type) where
  timestampMillis : Int
  newIdentity : (name identityType : String) → Except String Identity
  lifecycleJson : (proposalId : String) → Identity → (title : String) →
    (quorum threshold : Nat) → Option Period → Except String (List Char)
  readToString : String → Except String (List Char)
  entries : HashMap String → List (String × String)
  isAlphanumeric : Char → Bool

inductive MacroFailure where
  | error (e : String)
  | panic

section
variable {α : Type}

/-- `map_err(|e| e.to_string())?` -/
def ofParse : Parse α → Except MacroFailure α
  | .ok a => .ok a
  | .error (.error e) => .error (.error e.display)
  | .error .panic => .error .panic

/-- `map_err(|e| format!(..))?` -/
def failing (what : String) : Except String α → Except MacroFailure α
  | .ok a => .ok a
  | .error e => .error (.error (what ++ e))

/-- `ok_or(..)?` -/
def required (message : String) : Option α → Except MacroFailure α
  | some a => .ok a
  | none => .error (.error message)

end

def readDiscussionDuration (properties : HashMap String) : Except MacroFailure (Option Period) :=
  match properties.lookup "discussion_duration" with
  | some text => ofParse (parseMacroDuration text.toList)
  | none => .ok none

/-- Backslashes and quotes, each with a backslash in front. -/
def escape (text : List Char) : List Char :=
  let slashes := text.flatMap fun c => if c = '\\' then ['\\', '\\'] else [c]
  slashes.flatMap fun c => if c = '"' then ['\\', '"'] else [c]

/-- `StoreP <key> "<text>"` -/
def storeLine (key : String) (text : List Char) : List Char :=
  "StoreP ".toList ++ (key.toList ++ (" \"".toList ++ (escape text ++ "\"".toList)))

section
variable {F : Type} [Number F] {I : Type} (world : MacroWorld I)

/-- The operations that a generated line parses to. -/
def storeOps (key : String) (text : List Char) : Except MacroFailure (List (Op F)) := do
  let (ops, _) ← ofParse (parseDsl (String.ofList (storeLine key text)))
  return ops

def storeAttachment (proposalId : String) (ops : List (Op F)) (attachment : String × String) :
    Except MacroFailure (List (Op F)) := do
  let (name, path) := attachment
  let content ← failing s!"Failed to read attachment file '{path}': " (world.readToString path)
  let sanitizedName := name.map fun c =>
    if world.isAlphanumeric c || c = '-' || c = '_' then c else '_'
  let key := s!"proposals/{proposalId}/attachments/{sanitizedName}"
  let stored ← storeOps ("\"governance\"/\"" ++ key ++ "\"") content
  return ops ++ stored ++ [.emit s!"Stored attachment '{name}' from {path}"]

def storeLogic (proposalId : String) (ops : List (Op F)) (executionDsl : List Char) :
    Except MacroFailure (List (Op F)) :=
  if executionDsl = [] then return ops
  else do
    let key := s!"proposals/{proposalId}/attachments/logic"
    let stored ← storeOps ("\"governance\"/\"" ++ key ++ "\"") executionDsl
    return ops ++ stored ++
      [.emitEvent "governance" s!"Stored execution logic for proposal {proposalId}"]

def expandProposalLifecycle (lines : List Line) : Except MacroFailure (List (Op F)) := do
  let (properties, attachments, executionDsl) ← failing "" (parseProposalBlock lines)
  let proposalId := toString world.timestampMillis
  let title ← required "Missing 'title' property" (properties.lookup "title")
  let quorumText ← required "Missing 'quorum' property" (properties.lookup "quorum")
  let thresholdText ← required "Missing 'threshold' property" (properties.lookup "threshold")
  let quorum ← required s!"Invalid quorum value: {quorumText}" (parseU64 quorumText)
  let threshold ← required s!"Invalid threshold value: {thresholdText}" (parseU64 thresholdText)
  let discussionDuration ← readDiscussionDuration properties
  let creatorName := (properties.lookup "author").getD "macro_creator"
  let creator ← failing "Failed to create identity: " (world.newIdentity creatorName "member")
  let json ← failing "Failed to serialize proposal lifecycle: "
    (world.lifecycleJson proposalId creator title quorum threshold discussionDuration)
  let lifecycleKey := s!"governance/proposals/{proposalId}/lifecycle"
  let stored ← storeOps ("\"" ++ lifecycleKey ++ "\"") json
  let ops ← (world.entries attachments).foldlM (storeAttachment world proposalId)
    (.emit s!"Creating proposal {proposalId}..." :: stored)
  let ops ← storeLogic proposalId ops executionDsl
  return ops ++ [.emitEvent "governance" s!"Proposal {proposalId} ('{title}') created."]

end

/-! ### Lines that are not understood -/

/-- A text that begins with something to see keeps its first character. -/
theorem trim_cons {c : Char} (hc : isWhitespace c = false) (tail : List Char) :
    ∃ text, trim (c :: tail) = c :: text := by
  have hstart : Text.trimStart (c :: tail) = c :: tail :=
    List.dropWhile_cons_of_neg (by simp [hc])
  obtain ⟨suffix, hsuffix⟩ := List.rdropWhile_prefix isWhitespace (c :: tail)
  rw [trim, hstart, Text.trimEnd]
  cases htext : List.rdropWhile isWhitespace (c :: tail) with
  | nil =>
    rw [List.rdropWhile_eq_nil_iff] at htext
    exact absurd (htext c List.mem_cons_self) (by simp [hc])
  | cons d text =>
    rw [htext, List.cons_append, List.cons_eq_cons] at hsuffix
    exact ⟨text, by rw [hsuffix.1]⟩

section
variable (start text : List Char)

theorem linesFrom_append (hfeed : '\n' ∉ start) :
    Text.linesFrom '\n' '\r' [] (start ++ text) = Text.linesFrom '\n' '\r' start text := by
  induction start using List.reverseRecOn generalizing text with
  | nil => rfl
  | append_singleton start c ih =>
    rw [List.mem_append, not_or, List.mem_singleton] at hfeed
    rw [List.append_assoc, ih _ hfeed.1, List.singleton_append, Text.linesFrom,
      if_neg (Ne.symm hfeed.2)]

/-- The first line of a text begins as the text does. -/
theorem exists_linesFrom (hne : start ≠ []) (hlast : start.getLast? ≠ some '\r') :
    ∃ rest ls, Text.linesFrom '\n' '\r' start text = (start ++ rest) :: ls := by
  have hfrom : ∀ rest, ∃ rest' ls,
      Text.linesFrom '\n' '\r' (start ++ rest) text = (start ++ rest') :: ls := by
    induction text with
    | nil => exact fun rest => ⟨rest, [], if_neg (by simp [hne])⟩
    | cons c text ih =>
      intro rest
      rw [Text.linesFrom]
      split_ifs
      · rw [Text.withoutReturn]
        split_ifs with hreturn
        · have hrest : rest ≠ [] := by
            rintro rfl
            exact hlast (by rwa [List.append_nil] at hreturn)
          exact ⟨rest.dropLast, _, by rw [List.dropLast_append_of_ne_nil hrest]⟩
        · exact ⟨rest, _, rfl⟩
      · rw [List.append_assoc]
        exact ih (rest ++ [c])
  simpa using hfrom []

end

section
variable {text : List Char}

theorem not_isDirective_start {F : Type} : ¬ IsDirective (.start : DslState F) ('S' :: text) := by
  rintro (⟨⟨_, h⟩, -⟩ | ⟨_, h⟩ | h | h | h)
  · exact absurd (List.cons_eq_cons.mp h).1 (by decide)
  · exact absurd (List.cons_eq_cons.mp h).1 (by decide)
  · exact absurd (List.cons_eq_cons.mp h).1 (by decide)
  · exact Bool.false_ne_true h
  · exact Bool.false_ne_true h

theorem blockKind_eq_none : blockKind ('S' :: text) = none := by
  have hne {word : List Char} (hword : word.head? ≠ some 'S') : 'S' :: text ≠ word := by
    rintro rfl
    exact hword rfl
  have hstart {word : List Char} (hnil : word ≠ []) (hword : word.head? ≠ some 'S') :
      ¬ word <+: 'S' :: text := by
    rintro ⟨rest, hrest⟩
    obtain ⟨c, word, rfl⟩ := List.exists_cons_of_ne_nil hnil
    exact hword (by rw [List.head?_cons, (List.cons_eq_cons.mp hrest).1])
  rw [blockKind, if_neg (hne (by decide)), if_neg (hne (by decide)),
    if_neg (hstart (by decide) (by decide)), if_neg (hne (by decide)),
    if_neg (hstart (by decide) (by decide))]

end

/-- A line whose command is `StoreP`. -/
def storePLine (rest : List Char) : Line := "StoreP".toList ++ ' ' :: rest

section
variable {F : Type} [Number F] (rest : List Char)

theorem trim_storePLine : ∃ text, trim (storePLine rest) = 'S' :: text :=
  trim_cons (by decide) _

theorem parseLine_storePLine (pos : SourcePosition) :
    (parseLine (storePLine rest) pos : Parse (Op F)) = fail (.unknownCommand "StoreP" pos) := by
  obtain ⟨text, htrim⟩ := trim_storePLine rest
  have hcomment : isComment (storePLine rest) = false := by
    rw [isComment, htrim]
    rfl
  have hwords : Text.words (storePLine rest) = "StoreP".toList :: Text.words rest :=
    Text.words_append_space (by simp [isWhitespace]) (by decide) isWhitespace_space rest
  simp only [parseLine, hcomment, Bool.false_eq_true, if_false, hwords, String.ofList_toList]
  rfl

theorem eval_parseTopLine_storePLine (c : Cursor) (pos : SourcePosition) :
    ∃ e, (parseTopLine c (storePLine rest) pos : Parser F _).eval parser.solve = .error e := by
  obtain ⟨text, htrim⟩ := trim_storePLine rest
  unfold parseTopLine
  rw [htrim, blockKind_eq_none]
  split_ifs
  · exact ⟨_, rfl⟩
  · rw [parseStatement, parseLine_storePLine]
    exact ⟨_, rfl⟩

theorem solveDsl_storePLine (ls : List Line) :
    ∃ e, solveDsl ⟨0, storePLine rest :: ls⟩ (.start : DslState F) = .error e := by
  obtain ⟨text, htrim⟩ := trim_storePLine rest
  have hblank : ¬ Text.isBlank (storePLine rest) = true := by
    intro hblank
    rw [Text.trim_of_isBlank hblank] at htrim
    cases htrim
  have hnone (pos : SourcePosition) :
      readDirective pos (.start : DslState F) (trim (storePLine rest)) = .ok none := by
    rw [htrim]
    exact readDirective_eq_none.mpr not_isDirective_start
  obtain ⟨e, he⟩ := eval_parseTopLine_storePLine (F := F) rest
    ⟨0, storePLine rest :: ls⟩ ⟨0 + 1, Text.indent (storePLine rest) + 1⟩
  refine ⟨e, ?_⟩
  rw [solveDsl_eq, dslLoop_cons rfl, if_neg hblank, Partial.Rec.eval_bind, hnone,
    Partial.Rec.eval_ofExcept, ok_bind, Partial.Rec.eval_bind, he]
  rfl

/-- The command is called `storep`. -/
theorem parseDsl_storeLine (key : String) (text : List Char) :
    ∃ e, (parseDsl (String.ofList (storeLine key text)) : Parse (List (Op F) × _)) = .error e := by
  have hline : storeLine key text =
      "StoreP ".toList ++ (key.toList ++ (" \"".toList ++ (escape text ++ "\"".toList))) := rfl
  obtain ⟨rest, ls, hlines⟩ := exists_linesFrom "StoreP ".toList
    (key.toList ++ (" \"".toList ++ (escape text ++ "\"".toList))) (by decide) (by decide)
  obtain ⟨e, he⟩ := solveDsl_storePLine (F := F) rest ls
  refine ⟨e, ?_⟩
  show solveDsl ⟨0, Text.lines '\n' '\r' (String.ofList (storeLine key text)).toList⟩ .start = _
  rw [String.toList_ofList, hline, Text.lines, linesFrom_append _ _ (by decide), hlines]
  exact he

variable {I : Type} (world : MacroWorld I)

theorem storeOps_ne_ok (key : String) (text : List Char) (ops : List (Op F)) :
    storeOps key text ≠ .ok ops := by
  obtain ⟨e, he⟩ := parseDsl_storeLine (F := F) key text
  unfold storeOps
  rw [he]
  cases e with
  | error e => exact nofun
  | panic => exact nofun

theorem exists_of_bind {ε α β : Type} {x : Except ε α} {f : α → Except ε β} {b : β}
    (h : x >>= f = .ok b) : ∃ a, x = .ok a ∧ f a = .ok b := by
  cases x with
  | error e => exact nomatch h
  | ok a => exact ⟨a, rfl, h⟩

theorem not_expands (lines : List Line) (ops : List (Op F)) :
    expandProposalLifecycle world lines ≠ .ok ops := by
  intro h
  unfold expandProposalLifecycle at h
  -- whatever comes before, the lifecycle must be stored
  obtain ⟨⟨properties, attachments, executionDsl⟩, -, h⟩ := exists_of_bind h
  obtain ⟨title, -, h⟩ := exists_of_bind h
  obtain ⟨quorumText, -, h⟩ := exists_of_bind h
  obtain ⟨thresholdText, -, h⟩ := exists_of_bind h
  obtain ⟨quorum, -, h⟩ := exists_of_bind h
  obtain ⟨threshold, -, h⟩ := exists_of_bind h
  obtain ⟨discussionDuration, -, h⟩ := exists_of_bind h
  obtain ⟨creator, -, h⟩ := exists_of_bind h
  obtain ⟨json, -, h⟩ := exists_of_bind h
  obtain ⟨stored, hstored, -⟩ := exists_of_bind h
  exact storeOps_ne_ok _ _ _ hstored

end

theorem expandProposalLifecycle_fails {F : Type} [Number F] {I : Type} (world : MacroWorld I)
    (lines : List Line) :
    ∃ e, (expandProposalLifecycle world lines : Except MacroFailure (List (Op F))) = .error e := by
  cases h : (expandProposalLifecycle world lines : Except MacroFailure (List (Op F))) with
  | error e => exact ⟨e, rfl⟩
  | ok ops => exact absurd h (not_expands world lines ops)

/-- A clock at zero, and no files. -/
def emptyWorld : MacroWorld String where
  timestampMillis := 0
  newIdentity name _ := .ok name
  lifecycleJson _ _ _ _ _ _ := .ok "\x7b\x7d".toList
  readToString path := .error path
  entries _ := []
  isAlphanumeric c := c.isAlphanum

def gardenBlock : List Line :=
  ["title \"Garden\"", "quorum 1", "threshold 1", "execution \x7b", "emit \"hi\"", "\x7d"].map
    String.toList

theorem not_expandProposalLifecycle_garden :
    ((parseProposalBlock gardenBlock).toOption.map fun (properties, attachments, executionDsl) =>
        (["title", "quorum", "threshold"].map properties.lookup, decide (attachments = ∅),
          executionDsl)) =
      some ([some "Garden", some "1", some "1"], true, "emit \"hi\"".toList) ∧
    parseDsl "emit \"hi\"" = .ok ([.emit "hi"], (.default : LifecycleConfig Binary64)) ∧
    ∀ ops : List (Op Binary64), expandProposalLifecycle emptyWorld gardenBlock ≠ .ok ops :=
  ⟨by decide, rfl, not_expands emptyWorld gardenBlock⟩

end Covm.Compiler.Macros
