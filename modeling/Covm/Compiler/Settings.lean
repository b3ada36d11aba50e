import Covm.Compiler.Answers
import Covm.Compiler.Positions
import Covm.Number.Binary64

/-!
# Governance settings

A source made of templates, uses of templates, governance blocks and statements is read piece by
piece. What a governance block says overwrites, and what a template says only fills in. So each
setting is the last value of the governance blocks, or else that of the first used template which
has one (`parseDsl_settings`).
-/

namespace Text

theorem words_of_isBlank {line : List Char} (h : isBlank line = true) : words line = [] := by
  rw [isBlank, List.all_eq_true] at h
  unfold words
  rw [List.filter_eq_nil_iff]
  induction line with
  | nil => simp [List.splitOnP_nil]
  | cons c line ih =>
    rw [List.splitOnP_cons_eq_if_modifyHead, if_pos (h c List.mem_cons_self)]
    have hrest := ih fun d hd => h d (List.mem_cons_of_mem _ hd)
    simpa using hrest

theorem trim_of_isBlank {line : List Char} (h : isBlank line = true) : trim line = [] := by
  rw [isBlank, List.all_eq_true] at h
  have hstart : trimStart line = [] := List.dropWhile_eq_nil_iff.mpr h
  rw [trim, hstart]
  rfl

end Text

namespace Covm.Compiler

open Partial
open Text (trim words indent isBlank)

theorem parseLine_of_isBlank {F : Type} [Number F] {line : Line} (hblank : isBlank line = true)
    (pos : SourcePosition) : (parseLine line pos : Parse (Op F)) = .ok .nop := by
  rw [parseLine, isComment, Text.trim_of_isBlank hblank, Text.words_of_isBlank hblank]
  rfl

/-! ## Values -/

/-- The argument of a command on a line. -/
def argumentOf (command : String) (line : Line) : Option Word :=
  match words (trim line) with
  | word :: args => if String.ofList word = command then args.head? else none
  | [] => none

theorem argumentOf_of_empty {command : String} {line : Line} (h : words (trim line) = []) :
    argumentOf command line = none := by
  rw [argumentOf, h]

theorem argumentOf_eq {command : String} {line : Line} {word : Word} {args : Arguments}
    (h : words (trim line) = word :: args) :
    argumentOf command line = if String.ofList word = command then args.head? else none := by
  rw [argumentOf, h]

/-- The last value that is given. -/
def lastValue {α β : Type} (given : β → Option α) (items : List β) : Option α :=
  (items.filterMap given).getLast?

section
variable {α β : Type} (given : β → Option α)

theorem lastValue_append (items items' : List β) : lastValue given (items ++ items') =
    (lastValue given items').or (lastValue given items) := by
  rw [lastValue, List.filterMap_append, List.getLast?_append]
  rfl

theorem lastValue_singleton (item : β) : lastValue given [item] = given item := by
  cases h : given item <;> simp [lastValue, h]

theorem lastValue_cons (item : β) (items : List β) : lastValue given (item :: items) =
    (lastValue given items).or (given item) := by
  rw [← lastValue_singleton given item, ← lastValue_append]
  rfl

end

section
variable {F : Type} [Number F]

/-- A number as an argument. -/
def number (word : Word) : Option F := Number.parse (String.ofList word)

/-- A period as an argument. -/
def period (word : Word) : Option Period := (parseDuration word).toOption

/-- A command sets what it is for and leaves the rest as it was. -/
theorem governanceCommand_ok {pos : SourcePosition} {config config' : LifecycleConfig F}
    {args : Arguments} {command : String}
    (h : governanceCommand pos config args command = .ok config') :
    config'.quorum =
        ((if command = "quorumthreshold" then args.head? else none).bind number).or
          config.quorum ∧
      config'.threshold =
        ((if command = "votethreshold" then args.head? else none).bind number).or
          config.threshold ∧
      config'.minDeliberation =
        ((if command = "mindeliberation" then args.head? else none).bind period).or
          config.minDeliberation ∧
      config'.expiresIn =
        ((if command = "expiresin" then args.head? else none).bind period).or
          config.expiresIn := by
  have hparameter (command : String) (f : Word → Parse (LifecycleConfig F))
      (hf : (parameter pos command args >>= f) = .ok config') :
      ∃ word args', args = word :: args' ∧ f word = .ok config' := by
    cases args with
    | nil => exact nomatch hf
    | cons word args' => exact ⟨word, args', rfl, hf⟩
  have hnumber (e : CompilerError) (word : Word) (f : F → Parse (LifecycleConfig F))
      (hf : (parseF64 e word >>= f) = .ok config') :
      ∃ x, number word = some x ∧ f x = .ok config' := by
    unfold parseF64 at hf
    unfold number
    cases hparse : (Number.parse (String.ofList word) : Option F) with
    | none =>
      rw [hparse] at hf
      exact nomatch hf
    | some x =>
      rw [hparse] at hf
      exact ⟨x, rfl, hf⟩
  have hperiod (word : Word) (f : Period → Parse (LifecycleConfig F))
      (hf : (parseDuration word >>= f) = .ok config') :
      ∃ x, period word = some x ∧ f x = .ok config' := by
    unfold period
    cases hparse : parseDuration word with
    | error e =>
      rw [hparse] at hf
      exact nomatch hf
    | ok x =>
      rw [hparse] at hf
      exact ⟨x, rfl, hf⟩
  unfold governanceCommand at h
  split at h
  · obtain ⟨word, args', rfl, hword⟩ := hparameter _ _ h
    obtain ⟨x, hx, hset⟩ := hnumber _ _ _ hword
    cases hset
    simp [hx]
  · obtain ⟨word, args', rfl, hword⟩ := hparameter _ _ h
    obtain ⟨x, hx, hset⟩ := hnumber _ _ _ hword
    cases hset
    simp [hx]
  · obtain ⟨word, args', rfl, hword⟩ := hparameter _ _ h
    obtain ⟨x, hx, hset⟩ := hperiod _ _ hword
    cases hset
    simp [hx]
  · obtain ⟨word, args', rfl, hword⟩ := hparameter _ _ h
    obtain ⟨x, hx, hset⟩ := hperiod _ _ hword
    cases hset
    simp [hx]
  · obtain ⟨word, args', rfl, hword⟩ := hparameter _ _ h
    cases hrole : unquotedName word with
    | error e =>
      rw [hrole] at hword
      exact nomatch hword
    | ok role =>
      rw [hrole] at hword
      cases hword
      simp
  · exact nomatch h

/-- A part of the configuration with one value, and what a line of a block gives for it. -/
structure Setting (F α : Type) [Number F] where
  read : LifecycleConfig F → Option α
  given : Line → Option α
  read_default : read .default = none
  read_mergeFrom (config other : LifecycleConfig F) :
    read (config.mergeFrom other) = (read config).or (read other)
  given_empty {line : Line} : words (trim line) = [] → given line = none
  read_command {pos : SourcePosition} {config config' : LifecycleConfig F} {line : Line}
    {command : Word} {args : Arguments} : words (trim line) = command :: args →
      governanceCommand pos config args (String.ofList command) = .ok config' →
        read config' = (given line).or (read config)

namespace Setting

def quorum : Setting F F where
  read := LifecycleConfig.quorum
  given line := (argumentOf "quorumthreshold" line).bind number
  read_default := rfl
  read_mergeFrom _ _ := rfl
  given_empty h := by rw [argumentOf_of_empty h, Option.bind_none]
  read_command hwords h := by rw [argumentOf_eq hwords, (governanceCommand_ok h).1]

def threshold : Setting F F where
  read := LifecycleConfig.threshold
  given line := (argumentOf "votethreshold" line).bind number
  read_default := rfl
  read_mergeFrom _ _ := rfl
  given_empty h := by rw [argumentOf_of_empty h, Option.bind_none]
  read_command hwords h := by rw [argumentOf_eq hwords, (governanceCommand_ok h).2.1]

def minDeliberation : Setting F Period where
  read := LifecycleConfig.minDeliberation
  given line := (argumentOf "mindeliberation" line).bind period
  read_default := rfl
  read_mergeFrom _ _ := rfl
  given_empty h := by rw [argumentOf_of_empty h, Option.bind_none]
  read_command hwords h := by rw [argumentOf_eq hwords, (governanceCommand_ok h).2.2.1]

def expiresIn : Setting F Period where
  read := LifecycleConfig.expiresIn
  given line := (argumentOf "expiresin" line).bind period
  read_default := rfl
  read_mergeFrom _ _ := rfl
  given_empty h := by rw [argumentOf_of_empty h, Option.bind_none]
  read_command hwords h := by rw [argumentOf_eq hwords, (governanceCommand_ok h).2.2.2]

end Setting

end

/-! ## Pieces of a source -/

abbrev OpensTemplate (line : Line) : Prop :=
  "template ".toList <+: trim line ∧ " \x7b".toList <:+ trim line

abbrev UsesTemplate (line : Line) : Prop := "governance use ".toList <+: trim line

abbrev OpensGovernance (line : Line) : Prop := trim line = "governance \x7b".toList

abbrev Closes (line : Line) : Prop := trim line = "\x7d".toList

/-- A line that begins no directive. -/
def Plain (line : Line) : Prop :=
  ¬ OpensTemplate line ∧ ¬ UsesTemplate line ∧ ¬ OpensGovernance line

instance (line : Line) : Decidable (Plain line) := inferInstanceAs (Decidable (_ ∧ _ ∧ _))

inductive Piece where
  | template (header : Line) (commands : List Line) (close : Line)
  | useTemplate (line : Line)
  | governance (header : Line) (commands : List Line) (close : Line)
  | statement (line : Line)

/-- The name at a place in a line, without its quotes. -/
def nameAt (n : Nat) (line : Line) : Option String :=
  (words (trim line))[n]?.bind fun word => (unquotedName word).toOption.map String.ofList

namespace Piece

def lines : Piece → List Line
  | template header commands close => header :: commands ++ [close]
  | useTemplate line => [line]
  | governance header commands close => header :: commands ++ [close]
  | statement line => [line]

/-- Blocks are closed, and nothing else stands in them than lines with commands. -/
def Closed : Piece → Prop
  | template header commands close =>
    OpensTemplate header ∧ (∀ line ∈ commands, Plain line ∧ ¬ Closes line) ∧ Closes close
  | useTemplate line => UsesTemplate line
  | governance header commands close =>
    OpensGovernance header ∧ (∀ line ∈ commands, Plain line ∧ ¬ Closes line) ∧ Closes close
  | statement line => Plain line ∧ endsInColon (trim line) = false

instance : (piece : Piece) → Decidable piece.Closed
  | template .. => inferInstanceAs (Decidable (_ ∧ _ ∧ _))
  | useTemplate line => inferInstanceAs (Decidable (UsesTemplate line))
  | governance .. => inferInstanceAs (Decidable (_ ∧ _ ∧ _))
  | statement _ => inferInstanceAs (Decidable (_ ∧ _))

/-- The commands of the template, if it has the name. -/
def definition (name : Option String) : Piece → Option (List Line)
  | template header commands _ => if nameAt 1 header = name then some commands else none
  | _ => none

def governanceCommands : Piece → List Line
  | governance _ commands _ => commands
  | _ => []

/-- The commands of the template that a piece uses: of its latest definition. -/
def usedCommands (earlier : List Piece) : Piece → List (List Line)
  | useTemplate line => (lastValue (definition (nameAt 2 line)) earlier).toList
  | _ => []

/-- The templates used by pieces, in this order. -/
def allUsed : List Piece → List Piece → List (List Line)
  | _, [] => []
  | earlier, piece :: later => piece.usedCommands earlier ++ allUsed (earlier ++ [piece]) later

theorem allUsed_concat (earlier later : List Piece) (piece : Piece) :
    allUsed earlier (later ++ [piece]) =
      allUsed earlier later ++ piece.usedCommands (earlier ++ later) := by
  induction later generalizing earlier with
  | nil => simp [allUsed]
  | cons first later ih =>
    rw [List.cons_append, allUsed, allUsed, ih, List.append_assoc, List.append_assoc]
    rfl

/-- The operations of a statement. -/
def ops {F : Type} [Number F] : Piece → List (Op F)
  | statement line =>
    match parseLine line ⟨1, 1⟩ with
    | .ok op => if isNop op then [] else [op]
    | .error _ => []
  | _ => []

end Piece

variable {F : Type} [Number F]

/-- What the pieces say about a setting: the last value in a governance block, or else the value of
the first used template which has one. -/
def Setting.resolve {α : Type} (x : Setting F α) (pieces : List Piece) : Option α :=
  (lastValue x.given (pieces.flatMap Piece.governanceCommands)).or
    ((Piece.allUsed [] pieces).findSome? (lastValue x.given))

/-! ## What a line does -/

namespace DslState

variable {F : Type} (state : DslState F) (config : LifecycleConfig F)

theorem withTarget_target : state.withTarget state.target = state := by
  unfold withTarget target
  split_ifs <;> rfl

@[simp] theorem target_withTarget : (state.withTarget config).target = config := by
  by_cases h : state.inTemplateBlock = true <;> simp [withTarget, target, h]

@[simp] theorem withTarget_withTarget (config' : LifecycleConfig F) :
    (state.withTarget config).withTarget config' = state.withTarget config' := by
  by_cases h : state.inTemplateBlock = true <;> simp [withTarget, h]

@[simp] theorem inGovernanceBlock_withTarget :
    (state.withTarget config).inGovernanceBlock = state.inGovernanceBlock := by
  unfold withTarget
  split_ifs <;> rfl

@[simp] theorem inTemplateBlock_withTarget :
    (state.withTarget config).inTemplateBlock = state.inTemplateBlock := by
  unfold withTarget
  split_ifs <;> rfl

end DslState

/-- What one line makes of the state, and the operations it adds. -/
inductive Reads (state : DslState F) (line : Line) : DslState F → List (Op F) → Prop
  | blank (hblank : isBlank line = true) : Reads state line state []
  | directive {pos : SourcePosition} {state' : DslState F} (hblank : isBlank line = false)
      (hread : readDirective pos state (trim line) = .ok (some state')) :
      Reads state line state' []
  | statement {pos : SourcePosition} {op : Op F} (hblank : isBlank line = false)
      (hread : readDirective pos state (trim line) = .ok none)
      (hparse : parseLine line pos = .ok op) : Reads state line state (pushFront op [])

omit [Number F] in
theorem pushFront_eq_append (op : Op F) (ops : List (Op F)) :
    pushFront op ops = pushFront op [] ++ ops := by
  unfold pushFront
  split_ifs <;> rfl

section
variable {c : Cursor} {state : DslState F} {line : Line} {ls : List Line} {ops : List (Op F)}
  {config : LifecycleConfig F}

theorem solveDsl_nil (hc : c.rest = []) : solveDsl c state = .ok ([], state.config) := by
  rw [solveDsl_eq, dslLoop, hc]
  rfl

/-- The lines are read one after the other, unless a line is the header of a block. -/
theorem reads_of_solveDsl (hc : c.rest = line :: ls) (h : solveDsl c state = .ok (ops, config))
    (hline : IsDirective state (trim line) ∨ endsInColon (trim line) = false) :
    ∃ state' ops' ops'', Reads state line state' ops' ∧
      solveDsl c.next state' = .ok (ops'', config) ∧ ops = ops' ++ ops'' := by
  rw [solveDsl_eq, dslLoop, hc] at h
  dsimp only at h
  split_ifs at h with hblank
  · rw [eval_solveDsl] at h
    exact ⟨state, [], ops, .blank hblank, h, rfl⟩
  · rw [Bool.not_eq_true] at hblank
    rw [Rec.eval_bind, Rec.eval_ofExcept] at h
    cases hread : readDirective ⟨c.index + 1, indent line + 1⟩ state (trim line) with
    | error e =>
      rw [hread] at h
      exact nomatch h
    | ok directive =>
      rw [hread, ok_bind] at h
      cases directive with
      | some state' =>
        rw [eval_solveDsl] at h
        exact ⟨state', [], ops, .directive hblank hread, h, rfl⟩
      | none =>
        have hcolon : endsInColon (trim line) = false :=
          hline.resolve_left (readDirective_eq_none.mp hread)
        rw [parseTopLine, if_neg (by rw [hcolon]; exact Bool.false_ne_true)] at h
        simp only [parseStatement, Rec.eval_bind, Rec.eval_ofExcept] at h
        cases hparse : (parseLine line ⟨c.index + 1, indent line + 1⟩ : Parse (Op F)) with
        | error e =>
          rw [hparse] at h
          exact nomatch h
        | ok op =>
          rw [hparse] at h
          simp only [ok_bind, Rec.eval_pure, eval_solveDsl] at h
          cases hrest : solveDsl c.next state with
          | error e =>
            rw [hrest] at h
            exact nomatch h
          | ok r =>
            rw [hrest] at h
            obtain ⟨hops, hconfig⟩ := Prod.mk.inj (Except.ok.inj h)
            refine ⟨state, _, r.1, .statement hblank hread hparse, ?_, ?_⟩
            · rw [← hconfig]
              exact hrest
            · rw [← hops, pushFront_eq_append]

end

theorem isBlank_eq_false {line : Line} (h : trim line ≠ []) : isBlank line = false := by
  rw [← Bool.not_eq_true]
  exact fun hblank => h (Text.trim_of_isBlank hblank)

omit [Number F] in
/-- Outside of blocks a line is known by its first character not to be a directive. -/
theorem not_isDirective_of_head {state : DslState F} (hgovernance : state.inGovernanceBlock = false)
    (htemplate : state.inTemplateBlock = false) {text : List Char} {c : Char}
    (h : text.head? = some c) (ht : c ≠ 't') (hg : c ≠ 'g') : ¬ IsDirective state text := by
  have hfirst {d : Char} {rest : List Char} (hstart : d :: rest <+: text) : c = d := by
    obtain ⟨more, rfl⟩ := hstart
    exact (Option.some.inj h).symm
  rintro (⟨hopen, -⟩ | huse | rfl | hinside | hinside)
  · exact ht (hfirst hopen)
  · exact hg (hfirst huse)
  · exact hg (Option.some.inj h).symm
  · rw [hgovernance] at hinside
    cases hinside
  · rw [htemplate] at hinside
    cases hinside

namespace Reads

variable {state state' : DslState F} {line : Line} {ops : List (Op F)}

theorem of_isDirective (h : Reads state line state' ops) (hline : trim line ≠ [])
    (hdirective : IsDirective state (trim line)) :
    ops = [] ∧ ∃ pos, readDirective pos state (trim line) = .ok (some state') := by
  cases h with
  | blank hblank => exact absurd hblank (by rw [isBlank_eq_false hline]; exact Bool.false_ne_true)
  | directive _ hread => exact ⟨rfl, _, hread⟩
  | statement _ hread _ => exact absurd hdirective (readDirective_eq_none.mp hread)

theorem template (h : Reads state line state' ops) (hopen : OpensTemplate line) :
    ops = [] ∧ ∃ name, nameAt 1 line = some name ∧ state' = state.openTemplate name := by
  have hline : trim line ≠ [] := List.ne_nil_of_mem (hopen.1.mem (by decide : 't' ∈ _))
  obtain ⟨hops, pos, hread⟩ := h.of_isDirective hline (.inl hopen)
  refine ⟨hops, ?_⟩
  rw [readDirective, if_pos hopen, readTemplate] at hread
  unfold nameAt
  split at hread
  · rename_i keyword name brace rest hwords
    rw [hwords]
    cases hname : unquotedName name with
    | error e =>
      rw [hname] at hread
      cases hread
    | ok name' =>
      rw [hname] at hread
      cases hread
      exact ⟨String.ofList name', by simp [hname], rfl⟩
  · cases hread

theorem useTemplate (h : Reads state line state' ops) (huse : UsesTemplate line)
    (hidle : state.inTemplateBlock = false) : ops = [] ∧ ∃ name template,
      nameAt 2 line = some name ∧ state.templates.lookup name = some template ∧
        state' = { state with config := state.config.mergeFrom template } := by
  have hline : trim line ≠ [] := List.ne_nil_of_mem (huse.mem (by decide : 'g' ∈ _))
  obtain ⟨hops, pos, hread⟩ := h.of_isDirective hline (.inr (.inl huse))
  refine ⟨hops, ?_⟩
  have hopen : ¬ OpensTemplate line := by
    rintro ⟨⟨rest, hrest⟩, -⟩
    obtain ⟨rest', hrest'⟩ := huse
    rw [← hrest'] at hrest
    exact absurd (List.cons.inj hrest).1 (by decide)
  rw [readDirective, if_neg hopen, if_neg (by simp [hidle]), if_pos huse,
    Compiler.useTemplate] at hread
  unfold nameAt
  split at hread
  · rename_i keyword use name rest hwords
    rw [hwords]
    cases hname : unquotedName name with
    | error e =>
      rw [hname] at hread
      cases hread
    | ok name' =>
      rw [hname, ok_bind] at hread
      cases htemplate : state.templates.lookup (String.ofList name') with
      | none =>
        rw [htemplate] at hread
        cases hread
      | some template =>
        rw [htemplate] at hread
        cases hread
        exact ⟨String.ofList name', template, by simp [hname], htemplate, rfl⟩
  · cases hread

theorem governance (h : Reads state line state' ops) (hopen : OpensGovernance line)
    (hidle : state.inTemplateBlock = false) :
    ops = [] ∧ state' = { state with inGovernanceBlock := true } := by
  have hline : trim line ≠ [] := by
    rw [hopen]
    decide
  obtain ⟨hops, pos, hread⟩ := h.of_isDirective hline (.inr (.inr (.inl hopen)))
  rw [readDirective, hopen, if_neg (by decide), if_neg (by simp [hidle]), if_neg (by decide),
    if_pos rfl] at hread
  cases hread
  exact ⟨hops, rfl⟩

theorem closeTemplate (h : Reads state line state' ops) (hclose : Closes line)
    (hopen : state.inTemplateBlock = true) : ops = [] ∧ state' = state.closeTemplate := by
  have hline : trim line ≠ [] := by
    rw [hclose]
    decide
  obtain ⟨hops, pos, hread⟩ := h.of_isDirective hline (.inr (.inr (.inr (.inr hopen))))
  rw [readDirective, hclose, if_neg (by decide), if_pos ⟨hopen, rfl⟩] at hread
  cases hread
  exact ⟨hops, rfl⟩

theorem closeGovernance (h : Reads state line state' ops) (hclose : Closes line)
    (hidle : state.inTemplateBlock = false) (hopen : state.inGovernanceBlock = true) :
    ops = [] ∧ state' = { state with inGovernanceBlock := false } := by
  have hline : trim line ≠ [] := by
    rw [hclose]
    decide
  obtain ⟨hops, pos, hread⟩ := h.of_isDirective hline (.inr (.inr (.inr (.inl hopen))))
  rw [readDirective, hclose, if_neg (by decide), if_neg (by simp [hidle]), if_neg (by decide),
    if_neg (by decide), if_pos ⟨hopen, rfl⟩] at hread
  cases hread
  exact ⟨hops, rfl⟩

/-- A command sets what it gives, in the configuration the block is for. -/
theorem command (h : Reads state line state' ops) (hplain : Plain line) (hline : ¬ Closes line)
    (hblock : state.inGovernanceBlock = true ∨ state.inTemplateBlock = true) :
    ops = [] ∧ ∃ config, state' = state.withTarget config ∧ ∀ {α : Type} (x : Setting F α),
      x.read config = (x.given line).or (x.read state.target) := by
  have hsame : state = state.withTarget state.target := state.withTarget_target.symm
  cases h with
  | blank hblank =>
    have hwords : words (trim line) = [] := by
      rw [Text.trim_of_isBlank hblank]
      rfl
    exact ⟨rfl, state.target, hsame, fun x => by rw [x.given_empty hwords, Option.none_or]⟩
  | statement _ hread _ =>
    have hdirective : IsDirective state (trim line) := .inr (.inr (.inr hblock))
    exact absurd hdirective (readDirective_eq_none.mp hread)
  | directive hblank hread =>
    refine ⟨rfl, ?_⟩
    rw [readDirective, if_neg hplain.1, if_neg fun h => hline h.2, if_neg hplain.2.1,
      if_neg hplain.2.2, if_neg fun h => hline h.2, if_pos hblock, readCommand] at hread
    split at hread
    · rename_i hwords
      cases hread
      exact ⟨state.target, hsame, fun x => by rw [x.given_empty hwords, Option.none_or]⟩
    · rename_i word args hwords
      cases hcommand : governanceCommand _ state.target args (String.ofList word) with
      | error e =>
        rw [hcommand] at hread
        cases hread
      | ok config =>
        rw [hcommand] at hread
        cases hread
        exact ⟨config, rfl, fun x => x.read_command hwords hcommand⟩

theorem statement_ops (h : Reads state line state' ops) (hplain : Plain line)
    (hidle : state.inGovernanceBlock = false ∧ state.inTemplateBlock = false) :
    ops = (Piece.statement line).ops ∧ state' = state := by
  have hparse {pos : SourcePosition} {op : Op F} (hop : parseLine line pos = .ok op) :
      (Piece.statement line).ops = pushFront op [] := by
    rw [Piece.ops, ok_of_toOption (toOption_parseLine line pos ⟨1, 1⟩) hop]
    rfl
  cases h with
  | blank hblank =>
    exact ⟨(hparse (parseLine_of_isBlank hblank ⟨1, 1⟩)).symm, rfl⟩
  | directive _ hread =>
    have hdirective : ¬ IsDirective state (trim line) := by
      rintro (hopen | huse | hopen | hopen | hopen)
      · exact hplain.1 hopen
      · exact hplain.2.1 huse
      · exact hplain.2.2 hopen
      · exact Bool.false_ne_true (hidle.1 ▸ hopen)
      · exact Bool.false_ne_true (hidle.2 ▸ hopen)
    rw [readDirective_eq_none.mpr hdirective] at hread
    exact nomatch hread
  | statement _ _ hop => exact ⟨(hparse hop).symm, rfl⟩

end Reads

/-! ## What a piece does -/

/-- Between pieces no block is open, the configuration says what the pieces say, and the templates
are the ones that they define. -/
structure Settled (pieces : List Piece) (state : DslState F) : Prop where
  noGovernance : state.inGovernanceBlock = false
  noTemplate : state.inTemplateBlock = false
  config {α : Type} (x : Setting F α) : x.read state.config = x.resolve pieces
  templates (name : String) {template : LifecycleConfig F} :
    state.templates.lookup name = some template →
      ∃ commands, lastValue (Piece.definition (some name)) pieces = some commands ∧
        ∀ {α : Type} (x : Setting F α), x.read template = lastValue x.given commands

theorem settled_start : Settled [] (DslState.start : DslState F) where
  noGovernance := rfl
  noTemplate := rfl
  config x := x.read_default
  templates name _ h := by
    have hnone : (DslState.start : DslState F).templates.lookup name = none := rfl
    rw [hnone] at h
    exact nomatch h

theorem Setting.resolve_concat {α : Type} (x : Setting F α) (pieces : List Piece) (piece : Piece) :
    x.resolve (pieces ++ [piece]) = (lastValue x.given piece.governanceCommands).or
      ((x.resolve pieces).or ((piece.usedCommands pieces).findSome? (lastValue x.given))) := by
  rw [resolve, resolve, Piece.allUsed_concat, List.flatMap_append, lastValue_append,
    List.findSome?_append, List.nil_append, List.flatMap_singleton, Option.or_assoc,
    Option.or_assoc]

/-- The commands of a block are read one after the other. -/
theorem commands_of_solveDsl {c : Cursor} {state : DslState F} {commands ls : List Line}
    {ops : List (Op F)} {config : LifecycleConfig F} (hc : c.rest = commands ++ ls)
    (hcommands : ∀ line ∈ commands, Plain line ∧ ¬ Closes line)
    (hblock : state.inGovernanceBlock = true ∨ state.inTemplateBlock = true)
    (h : solveDsl c state = .ok (ops, config)) :
    ∃ c' target, c'.rest = ls ∧ solveDsl c' (state.withTarget target) = .ok (ops, config) ∧
      ∀ {α : Type} (x : Setting F α),
        x.read target = (lastValue x.given commands).or (x.read state.target) := by
  induction commands generalizing c state with
  | nil =>
    refine ⟨c, state.target, hc, ?_, fun x => ?_⟩
    · rwa [state.withTarget_target]
    · exact Option.none_or.symm
  | cons line commands ih =>
    rw [List.cons_append] at hc
    obtain ⟨state', ops', ops'', hreads, hrest, hops⟩ :=
      reads_of_solveDsl hc h (.inl (.inr (.inr (.inr hblock))))
    have hline := hcommands line List.mem_cons_self
    obtain ⟨rfl, target, rfl, hread⟩ := hreads.command hline.1 hline.2 hblock
    rw [List.nil_append] at hops
    subst hops
    have hnext : c.next.rest = commands ++ ls := by rw [Cursor.next_rest, hc, List.tail_cons]
    obtain ⟨c', target', hc', hsolve, hreads'⟩ := ih hnext
      (fun line' hline' => hcommands line' (List.mem_cons_of_mem _ hline')) (by simpa) hrest
    rw [DslState.withTarget_withTarget] at hsolve
    refine ⟨c', target', hc', hsolve, fun x => ?_⟩
    rw [hreads', DslState.target_withTarget, hread, lastValue_cons, Option.or_assoc]

namespace Settled

variable {pieces : List Piece} {state : DslState F} {config : LifecycleConfig F} {name : String}
  {header close line : Line} {commands : List Line}

/-- Other pieces than templates do not define any. -/
theorem templates_concat (h : Settled pieces state) {piece : Piece}
    (hpiece : ∀ name, piece.definition name = none) (hlookup : state.templates.lookup name =
      some config) :
    ∃ commands, lastValue (Piece.definition (some name)) (pieces ++ [piece]) = some commands ∧
      ∀ {α : Type} (x : Setting F α), x.read config = lastValue x.given commands := by
  rw [lastValue_append, lastValue_singleton, hpiece, Option.none_or]
  exact h.templates name hlookup

theorem template (h : Settled pieces state) (hname : nameAt 1 header = some name)
    (hread : ∀ {α : Type} (x : Setting F α), x.read config = lastValue x.given commands) :
    Settled (pieces ++ [.template header commands close])
      ((state.openTemplate name).withTarget config).closeTemplate where
  noGovernance := h.noGovernance
  noTemplate := rfl
  config x := by
    have hconfig : ((state.openTemplate name).withTarget config).closeTemplate.config =
      state.config := rfl
    have hcommands : lastValue x.given
      (Piece.template header commands close).governanceCommands = none := rfl
    rw [hconfig, h.config x, x.resolve_concat, hcommands, Option.none_or]
    exact Option.or_none.symm
  templates name' config' hlookup := by
    have htemplates : ((state.openTemplate name).withTarget config).closeTemplate.templates =
      state.templates.insert name config := rfl
    rw [htemplates] at hlookup
    rw [lastValue_append, lastValue_singleton, Piece.definition, hname]
    by_cases hsame : name = name'
    · subst hsame
      rw [Finmap.lookup_insert] at hlookup
      cases hlookup
      refine ⟨commands, ?_, hread⟩
      rw [if_pos rfl, Option.some_or]
    · rw [Finmap.lookup_insert_of_ne _ (Ne.symm hsame)] at hlookup
      rw [if_neg fun h => hsame (Option.some.inj h), Option.none_or]
      exact h.templates name' hlookup

theorem useTemplate (h : Settled pieces state) (hname : nameAt 2 line = some name)
    (htemplate : state.templates.lookup name = some config) :
    Settled (pieces ++ [.useTemplate line])
      { state with config := state.config.mergeFrom config } where
  noGovernance := h.noGovernance
  noTemplate := h.noTemplate
  config x := by
    obtain ⟨commands, hcommands, hread⟩ := h.templates name htemplate
    rw [x.read_mergeFrom, h.config x, hread x, x.resolve_concat]
    have hused : (Piece.useTemplate line).usedCommands pieces = [commands] := by
      rw [Piece.usedCommands, hname, hcommands]
      rfl
    have hgovernance : lastValue x.given (Piece.useTemplate line).governanceCommands = none := rfl
    rw [hused, hgovernance, Option.none_or, List.findSome?_singleton]
  templates _ _ hlookup := h.templates_concat (fun _ => rfl) hlookup

theorem governance (h : Settled pieces state)
    (hread : ∀ {α : Type} (x : Setting F α),
      x.read config = (lastValue x.given commands).or (x.read state.config)) :
    Settled (pieces ++ [.governance header commands close]) { state with config := config } where
  noGovernance := h.noGovernance
  noTemplate := h.noTemplate
  config x := by
    have hused :
      (Piece.governance header commands close).usedCommands pieces = [] := rfl
    rw [hread x, h.config x, x.resolve_concat, hused, List.findSome?_nil, Option.or_none]
    rfl
  templates _ _ hlookup := h.templates_concat (fun _ => rfl) hlookup

theorem statement (h : Settled pieces state) : Settled (pieces ++ [.statement line]) state where
  noGovernance := h.noGovernance
  noTemplate := h.noTemplate
  config x := by
    have hused : (Piece.statement line).usedCommands pieces = [] := rfl
    have hgovernance : lastValue x.given (Piece.statement line).governanceCommands = none := rfl
    rw [h.config x, x.resolve_concat, hused, hgovernance, Option.none_or, List.findSome?_nil,
      Option.or_none]
  templates _ _ hlookup := h.templates_concat (fun _ => rfl) hlookup

end Settled

/-- A piece is read as a whole. -/
theorem Settled.concat {pieces : List Piece} {piece : Piece} {c : Cursor} {state : DslState F}
    {ls : List Line} {ops : List (Op F)} {config : LifecycleConfig F}
    (hsettled : Settled pieces state) (hpiece : piece.Closed) (hc : c.rest = piece.lines ++ ls)
    (h : solveDsl c state = .ok (ops, config)) :
    ∃ c' state' ops', c'.rest = ls ∧ solveDsl c' state' = .ok (ops', config) ∧
      Settled (pieces ++ [piece]) state' ∧ ops = piece.ops ++ ops' := by
  cases piece with
  | template header commands close =>
    obtain ⟨hopen, hcommands, hclose⟩ := hpiece
    rw [Piece.lines, List.append_assoc, List.cons_append] at hc
    obtain ⟨_, _, ops₁, hheader, hrest, rfl⟩ := reads_of_solveDsl hc h (.inl (.inl hopen))
    obtain ⟨rfl, name, hname, rfl⟩ := hheader.template hopen
    have hnext : c.next.rest = commands ++ (close :: ls) := by
      rw [Cursor.next_rest, hc, List.tail_cons]
      rfl
    obtain ⟨c₁, target, hc₁, hsolve, hread⟩ :=
      commands_of_solveDsl hnext hcommands (.inr rfl) hrest
    have hblock : ((state.openTemplate name).withTarget target).inTemplateBlock = true := by
      rw [DslState.inTemplateBlock_withTarget]
      rfl
    obtain ⟨_, _, ops₂, hend, hrest', rfl⟩ :=
      reads_of_solveDsl hc₁ hsolve (.inl (.inr (.inr (.inr (.inr hblock)))))
    obtain ⟨rfl, rfl⟩ := hend.closeTemplate hclose hblock
    refine ⟨c₁.next, _, ops₂, ?_, hrest', hsettled.template hname fun x => ?_, rfl⟩
    · rw [Cursor.next_rest, hc₁, List.tail_cons]
    · have hstart : x.read (state.openTemplate name).target = none := x.read_default
      rw [hread, hstart, Option.or_none]
  | useTemplate line =>
    obtain ⟨_, _, ops₁, huse, hrest, rfl⟩ := reads_of_solveDsl hc h (.inl (.inr (.inl hpiece)))
    obtain ⟨rfl, name, template, hname, htemplate, rfl⟩ :=
      huse.useTemplate hpiece hsettled.noTemplate
    refine ⟨c.next, _, ops₁, ?_, hrest, hsettled.useTemplate hname htemplate, rfl⟩
    rw [Cursor.next_rest, hc]
    rfl
  | governance header commands close =>
    obtain ⟨hopen, hcommands, hclose⟩ := hpiece
    rw [Piece.lines, List.append_assoc, List.cons_append] at hc
    obtain ⟨_, _, ops₁, hheader, hrest, rfl⟩ :=
      reads_of_solveDsl hc h (.inl (.inr (.inr (.inl hopen))))
    obtain ⟨rfl, rfl⟩ := hheader.governance hopen hsettled.noTemplate
    have hnext : c.next.rest = commands ++ (close :: ls) := by
      rw [Cursor.next_rest, hc, List.tail_cons]
      rfl
    obtain ⟨c₁, target, hc₁, hsolve, hread⟩ :=
      commands_of_solveDsl hnext hcommands (.inl rfl) hrest
    have hstate : ({ state with inGovernanceBlock := true }).withTarget target =
        { state with inGovernanceBlock := true, config := target } := by
      simp [DslState.withTarget, hsettled.noTemplate]
    rw [hstate] at hsolve
    obtain ⟨_, _, ops₂, hend, hrest', rfl⟩ :=
      reads_of_solveDsl hc₁ hsolve (.inl (.inr (.inr (.inr (.inl rfl)))))
    obtain ⟨rfl, rfl⟩ := hend.closeGovernance hclose hsettled.noTemplate rfl
    have hidle : ({ state with inGovernanceBlock := false, config := target }) =
        { state with config := target } := by
      rw [← hsettled.noGovernance]
    rw [hidle] at hrest'
    refine ⟨c₁.next, _, ops₂, ?_, hrest', hsettled.governance fun x => ?_, rfl⟩
    · rw [Cursor.next_rest, hc₁, List.tail_cons]
    · have htarget : ({ state with inGovernanceBlock := true }).target = state.config := by
        simp [DslState.target, hsettled.noTemplate]
      rw [hread, htarget]
  | statement line =>
    obtain ⟨_, _, ops₁, hline, hrest, rfl⟩ := reads_of_solveDsl hc h (.inr hpiece.2)
    obtain ⟨rfl, rfl⟩ :=
      hline.statement_ops hpiece.1 ⟨hsettled.noGovernance, hsettled.noTemplate⟩
    refine ⟨c.next, _, ops₁, ?_, hrest, hsettled.statement, rfl⟩
    rw [Cursor.next_rest, hc]
    rfl

/-- The pieces are read one after the other. -/
theorem Settled.append {earlier pieces : List Piece} {c : Cursor} {state : DslState F}
    {ops : List (Op F)} {config : LifecycleConfig F} (hsettled : Settled earlier state)
    (hpieces : ∀ piece ∈ pieces, piece.Closed) (hc : c.rest = pieces.flatMap Piece.lines)
    (h : solveDsl c state = .ok (ops, config)) :
    (∀ {α : Type} (x : Setting F α), x.read config = x.resolve (earlier ++ pieces)) ∧
      ops = pieces.flatMap Piece.ops := by
  induction pieces generalizing earlier c state ops with
  | nil =>
    rw [solveDsl_nil hc] at h
    cases h
    exact ⟨fun x => by rw [hsettled.config x, List.append_nil], rfl⟩
  | cons piece pieces ih =>
    rw [List.flatMap_cons] at hc
    obtain ⟨c', state', ops', hc', hsolve, hsettled', rfl⟩ :=
      hsettled.concat (hpieces piece List.mem_cons_self) hc h
    obtain ⟨hconfig, rfl⟩ :=
      ih hsettled' (fun other hother => hpieces other (List.mem_cons_of_mem _ hother)) hc' hsolve
    rw [List.append_assoc, List.singleton_append] at hconfig
    exact ⟨hconfig, List.flatMap_cons.symm⟩

/-- Each setting of an accepted source is the last value of its governance blocks, or else that of
the first used template which has one; the operations are those of its statements. -/
theorem parseDsl_settings {source : String} {pieces : List Piece} {ops : List (Op F)}
    {config : LifecycleConfig F} (hpieces : ∀ piece ∈ pieces, piece.Closed)
    (hsource : Text.lines '\n' '\r' source.toList = pieces.flatMap Piece.lines)
    (h : parseDsl source = .ok (ops, config)) :
    config.quorum = Setting.quorum.resolve pieces ∧
      config.threshold = Setting.threshold.resolve pieces ∧
      config.minDeliberation = (Setting.minDeliberation (F := F)).resolve pieces ∧
      config.expiresIn = (Setting.expiresIn (F := F)).resolve pieces ∧
      ops = pieces.flatMap Piece.ops := by
  have hsolve : solveDsl ⟨0, Text.lines '\n' '\r' source.toList⟩ .start = .ok (ops, config) := h
  obtain ⟨hconfig, hops⟩ := settled_start.append hpieces hsource hsolve
  exact ⟨hconfig .quorum, hconfig .threshold, hconfig .minDeliberation, hconfig .expiresIn, hops⟩

/-- A template fills in what its user does not say. -/
def fair : List Piece :=
  [.template "template fair \x7b".toList
      ["  mindeliberation 3d".toList, "  expiresin 4w".toList] "\x7d".toList,
    .useTemplate "governance use \"fair\"".toList,
    .governance "governance \x7b".toList ["  expiresin 2w".toList] "\x7d".toList,
    .statement "dup".toList]

def fairSource : String :=
  "template fair \x7b\n  mindeliberation 3d\n  expiresin 4w\n\x7d\ngovernance use \"fair\"\n" ++
    "governance \x7b\n  expiresin 2w\n\x7d\ndup\n"

set_option maxRecDepth 1000 in
theorem parseDsl_settings_fair :
    none = (Setting.quorum (F := Binary64)).resolve fair ∧
      none = (Setting.threshold (F := Binary64)).resolve fair ∧
      some 259200 = (Setting.minDeliberation (F := Binary64)).resolve fair ∧
      some 1209600 = (Setting.expiresIn (F := Binary64)).resolve fair ∧
      [.dup] = fair.flatMap (Piece.ops (F := Binary64)) := by
  have hparse : parseDsl fairSource =
      .ok ([.dup], (⟨none, none, some 259200, some 1209600, []⟩ : LifecycleConfig Binary64)) := rfl
  exact parseDsl_settings (by decide) rfl hparse

end Covm.Compiler
