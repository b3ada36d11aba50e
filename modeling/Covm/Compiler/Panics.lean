import Covm.Compiler.ParseDsl
import Covm.Number.Binary64

/-!
# Where the parser panics

A slice fails at a quote that is alone and before a last character of several bytes, a duration
outside of the range of durations. `Question.Breaks` names the lines where the parser meets one of
these; it panics iff it comes to such a line (`parseDsl_panics`).
-/

namespace Covm.Compiler

open Partial
open Text (trim words byteLen find rfind indent isBlank)

def Panics {α : Type} (x : Parse α) : Prop := x = .error .panic

section
variable {α β : Type}

@[simp] theorem not_panics_ok (a : α) : ¬ Panics (.ok a) := by simp [Panics]

@[simp] theorem not_panics_pure (a : α) : ¬ Panics (pure a) := not_panics_ok a

@[simp] theorem not_panics_fail (e : CompilerError) : ¬ Panics (fail e : Parse α) := by
  simp [Panics, fail]

@[simp] theorem fail_ne_ok (e : CompilerError) (a : α) : fail e ≠ (.ok a : Parse α) := by
  simp [fail]

@[simp] theorem not_panics_orFail (e : CompilerError) (a : Option α) : ¬ Panics (orFail e a) := by
  cases a <;> simp [orFail]

@[simp] theorem panics_bind (x : Parse α) (f : α → Parse β) :
    Panics (x >>= f) ↔ Panics x ∨ ∃ a, x = .ok a ∧ Panics (f a) := by
  cases x <;> simp [Panics, Bind.bind, Except.bind]

@[simp] theorem panics_map (x : Parse α) (f : α → β) : Panics (f <$> x) ↔ Panics x := by
  cases x <;> simp [Panics]

theorem panics_iff_false {x : Parse α} (h : ¬ Panics x) : Panics x ↔ False := iff_of_false h id

@[simp] theorem not_panics_argument (e : CompilerError) (args : Arguments) :
    ¬ Panics (argument e args) := by
  cases args <;> simp [argument]

@[simp] theorem not_panics_parseInteger (e : CompilerError) (word : Word) :
    ¬ Panics (parseInteger e word) := not_panics_orFail _ _

@[simp] theorem not_panics_parseF64 {F : Type} [Number F] (e : CompilerError) (word : Word) :
    ¬ Panics (parseF64 e word : Parse F) := not_panics_orFail _ _

end

/-! ### Slices -/

theorem slicedFrom_append (text text' : List Char) :
    slicedFrom (byteLen text) (text ++ text') = .ok text' := by
  simp [slicedFrom]

theorem sliced_append (text part text' : List Char) :
    sliced (byteLen text) (byteLen text + byteLen part) (text ++ (part ++ text')) = .ok part := by
  rw [sliced, Text.slice_append]

theorem utf8Size_quote : Char.utf8Size '"' = 1 := by decide

/-- The text behind a quote. -/
theorem slicedFrom_quote (before after : List Char) :
    slicedFrom (byteLen before + 1) (before ++ '"' :: after) = .ok after := by
  simpa [utf8Size_quote] using slicedFrom_append (before ++ ['"']) after

/-- The text between two quotes. -/
theorem sliced_quotes (before part after : List Char) :
    sliced (byteLen before + 1) (byteLen before + 1 + byteLen part)
      (before ++ '"' :: (part ++ '"' :: after)) = .ok part := by
  simpa [utf8Size_quote] using sliced_append (before ++ ['"']) part ('"' :: after)

theorem exists_last_quote {text : List Char} (h : '"' ∈ text) :
    ∃ before after, text = before ++ '"' :: after ∧ '"' ∉ after := by
  obtain ⟨after, before, heq, hnotin⟩ :=
    List.eq_append_cons_of_mem (List.mem_reverse.mpr h)
  refine ⟨before.reverse, after.reverse, ?_, by simpa using hnotin⟩
  simpa using congrArg List.reverse heq

theorem quotedPart_eq {before after : List Char} (part : List Char) (hbefore : '"' ∉ before)
    (hafter : '"' ∉ after) : quotedPart (before ++ '"' :: (part ++ '"' :: after)) =
      .ok (some (String.ofList part)) := by
  have hlast : rfind '"' (before ++ '"' :: (part ++ '"' :: after)) =
      some (byteLen before + 1 + byteLen part) := by
    simpa [utf8Size_quote, Nat.add_assoc] using
      Text.rfind_append '"' (before ++ '"' :: part) hafter
  simp only [quotedPart, Text.find_append hbefore, hlast, Option.getD_some, sliced_quotes]
  rfl

@[simp] theorem panics_quotedPart (line : Line) :
    Panics (quotedPart line) ↔ line.count '"' = 1 := by
  cases hfind : find '"' line with
  | none => simp [quotedPart, hfind, List.count_eq_zero.mpr (Text.find_eq_none.mp hfind)]
  | some start =>
    obtain ⟨before, after, rfl, hbefore, -⟩ := Text.find_eq_some hfind
    have hcount : before.count '"' = 0 := List.count_eq_zero.mpr hbefore
    by_cases hafter : '"' ∈ after
    · obtain ⟨part, after, rfl, hlast⟩ := exists_last_quote hafter
      rw [quotedPart_eq part hbefore hlast]
      simp
      omega
    · have hslice : sliced (byteLen before + 1) (byteLen before) (before ++ '"' :: after) =
          .error .panic := by
        rw [sliced, Text.slice_of_lt (Nat.lt_succ_self _)]
      simp only [quotedPart, Text.find_append hbefore, Text.rfind_append '"' before hafter,
        Option.getD_some, hslice]
      simp [Panics, hcount, List.count_eq_zero.mpr hafter, Bind.bind, Except.bind]

theorem isQuoted_quote : isQuoted ['"'] = true := rfl

theorem panics_withoutQuotes {word : Word} (h : isQuoted word = true) :
    Panics (withoutQuotes word) ↔ word = ['"'] := by
  obtain ⟨hfirst, hlast⟩ : word.head? = some '"' ∧ word.getLast? = some '"' := by
    simpa [isQuoted] using h
  obtain ⟨rest, rfl⟩ := List.head?_eq_some_iff.mp hfirst
  rcases rest.eq_nil_or_concat' with rfl | ⟨inner, last, rfl⟩
  · simp [Panics]
    decide
  · obtain rfl : last = '"' := by simpa [List.getLast?_cons] using hlast
    have hword : withoutQuotes ('"' :: (inner ++ ['"'])) = .ok inner := by
      simpa [withoutQuotes, utf8Size_quote, Nat.add_comm] using sliced_quotes [] inner []
    simp [hword]

@[simp] theorem panics_unquotedName (word : Word) : Panics (unquotedName word) ↔ word = ['"'] := by
  unfold unquotedName
  split_ifs with hquoted
  · exact panics_withoutQuotes hquoted
  · have hword : word ≠ ['"'] := by
      rintro rfl
      exact hquoted isQuoted_quote
    simp [hword]

theorem not_panics_quotedText (text : List Char) : ¬ Panics (quotedText text) := by
  cases hstart : find '"' text with
  | none => simp [quotedText, hstart]
  | some start =>
    obtain ⟨before, after, rfl, hbefore, rfl⟩ := Text.find_eq_some hstart
    simp only [quotedText, hstart, slicedFrom_quote]
    cases hstop : find '"' after with
    | none => simp [hstop]
    | some n =>
      obtain ⟨part, rest, rfl, -, rfl⟩ := Text.find_eq_some hstop
      have hrest : slicedFrom (byteLen before + 1 + byteLen part + 1)
          (before ++ '"' :: (part ++ '"' :: rest)) = .ok rest := by
        simpa [utf8Size_quote, Nat.add_assoc] using slicedFrom_quote (before ++ '"' :: part) rest
      simp [hstop, sliced_quotes, hrest]

theorem not_panics_afterIdentity (line : Line) (pos : SourcePosition) (identityId : Word) :
    ¬ Panics (afterIdentity line pos identityId) := by
  cases hstart : Text.findText identityId line with
  | none => simp [afterIdentity, hstart]
  | some start =>
    obtain ⟨before, after, rfl, rfl⟩ := Text.findText_eq_some hstart
    have hafter : slicedFrom (byteLen before + byteLen identityId)
        (before ++ (identityId ++ after)) = .ok after := by
      simpa using slicedFrom_append (before ++ identityId) after
    simp [afterIdentity, hstart, hafter]

/-! ### Commands -/

section
variable (F : Type) [Number F]

/-- The word with this index is there and is a number. -/
def NumberAt (index : Nat) (args : Arguments) : Prop :=
  ∃ word amount, args[index]? = some word ∧ (Number.parse (String.ofList word) : Option F) = some amount

/-- The commands that cut out what is between the quotes of a line with one quote. -/
def BreaksCommand (line : Line) (args : Arguments) : String → Prop
  | "push" => args.head? = some ['"']
  | "emit" => line.count '"' = 1
  | "mint" => NumberAt F 2 args ∧ line.count '"' = 1
  | "transfer" => NumberAt F 3 args ∧ line.count '"' = 1
  | "burn" => NumberAt F 2 args ∧ line.count '"' = 1
  | _ => False

def BreaksLine (line : Line) : Prop :=
  isComment line = false ∧
    ∃ command args, words line = command :: args ∧ BreaksCommand F line args (String.ofList command)

end

section
variable {F : Type} (line : Line) (pos : SourcePosition) (args : Arguments)

theorem not_panics_named (f : String → Op F) (e : CompilerError) : ¬ Panics (named f e args) := by
  simp [named]

theorem not_panics_namedTwo (f : String → String → Op F) (e₁ e₂ : CompilerError) :
    ¬ Panics (namedTwo f e₁ e₂ args) := by
  simp [namedTwo]

theorem panics_parseEmit : Panics (parseEmit line pos : Parse (Op F)) ↔ line.count '"' = 1 := by
  simp only [parseEmit, panics_bind, panics_quotedPart, or_iff_left_iff_imp]
  rintro ⟨message, -, h⟩
  cases message <;> simp at h

theorem not_panics_parseEmitEvent : ¬ Panics (parseEmitEvent line pos : Parse (Op F)) := by
  unfold parseEmitEvent
  split <;> simp

theorem not_panics_parseAssertEqualStack :
    ¬ Panics (parseAssertEqualStack line pos args : Parse (Op F)) := by
  simp only [parseAssertEqualStack, panics_bind, not_panics_argument, not_panics_parseInteger,
    false_or, not_exists, not_and]
  intro _ _ depth _
  split_ifs <;> simp

theorem not_panics_parseRankedVote : ¬ Panics (parseRankedVote pos args : Parse (Op F)) := by
  simp [parseRankedVote]

theorem not_panics_parseLoadVersionP : ¬ Panics (parseLoadVersionP pos args : Parse (Op F)) := by
  simp [parseLoadVersionP]

theorem not_panics_parseDiffVersionsP : ¬ Panics (parseDiffVersionsP pos args : Parse (Op F)) := by
  simp [parseDiffVersionsP]

theorem not_panics_parseVerifyIdentity :
    ¬ Panics (parseVerifyIdentity line pos args : Parse (Op F)) := by
  simp only [parseVerifyIdentity, panics_bind, not_panics_argument, not_panics_afterIdentity,
    not_panics_quotedText, false_or, not_exists, not_and]
  intro _ _ _ _ message _
  cases message with
  | none => simp
  | some quoted =>
    simp only [panics_bind, not_panics_quotedText, false_or, not_exists, not_and]
    intro signature _
    cases signature <;> simp

variable [Number F]

theorem panics_parsePush :
    Panics (parsePush pos args : Parse (Op F)) ↔ args.head? = some ['"'] := by
  cases args with
  | nil => simp [parsePush, argument]
  | cons word args =>
    have hword (name : String) (hname : name.toList ≠ ['"']) (h : word = name.toList) :
        ¬ word = ['"'] := fun hquote => hname (h ▸ hquote)
    simp only [parsePush, argument, panics_bind, not_panics_ok, false_or, List.head?_cons,
      Option.some.injEq, Except.ok.injEq, exists_eq_left']
    split_ifs with htrue hfalse hnull hquoted
    · simpa using hword "true" (by decide) htrue
    · simpa using hword "false" (by decide) hfalse
    · simpa using hword "null" (by decide) hnull
    · simp [panics_withoutQuotes hquoted]
    · have hquote : word ≠ ['"'] := by
        rintro rfl
        exact hquoted isQuoted_quote
      cases (Number.parse (String.ofList word) : Option F) <;> simp [hquote]

theorem not_panics_reputationParameters (amount : Option F) (reason : Option String) :
    ¬ Panics (reputationParameters line pos amount reason args) := by
  induction args generalizing amount reason with
  | nil => simp [reputationParameters]
  | cons param args ih =>
    simp only [reputationParameters]
    split_ifs <;> simp [ih]

theorem not_panics_parseIncrementReputation :
    ¬ Panics (parseIncrementReputation line pos args : Parse (Op F)) := by
  simp [parseIncrementReputation, not_panics_reputationParameters]

theorem not_panics_parseThreshold (f : F → Op F) (command : String) :
    ¬ Panics (parseThreshold pos f command args) := by
  simp [parseThreshold]

theorem panics_amountAndReason (command : String) :
    Panics (amountAndReason line pos command args : Parse (F × Option String)) ↔
      NumberAt F 0 args ∧ line.count '"' = 1 := by
  cases args with
  | nil => simp [amountAndReason, argument, NumberAt]
  | cons word args =>
    cases hnumber : (Number.parse (String.ofList word) : Option F) <;>
      simp [amountAndReason, argument, NumberAt, parseF64, hnumber]

theorem panics_parseMint : Panics (parseMint line pos args : Parse (Op F)) ↔
    NumberAt F 2 args ∧ line.count '"' = 1 := by
  rcases args with _ | ⟨resource, _ | ⟨account, args⟩⟩ <;>
    simp [parseMint, argument, panics_amountAndReason, NumberAt]

theorem panics_parseTransfer : Panics (parseTransfer line pos args : Parse (Op F)) ↔
    NumberAt F 3 args ∧ line.count '"' = 1 := by
  rcases args with _ | ⟨resource, _ | ⟨source, _ | ⟨target, args⟩⟩⟩ <;>
    simp [parseTransfer, argument, panics_amountAndReason, NumberAt]

theorem panics_parseBurn : Panics (parseBurn line pos args : Parse (Op F)) ↔
    NumberAt F 2 args ∧ line.count '"' = 1 := by
  rcases args with _ | ⟨resource, _ | ⟨account, args⟩⟩ <;>
    simp [parseBurn, argument, panics_amountAndReason, NumberAt]

theorem not_panics_lifecycleParameters : ¬ Panics (lifecycleParameters F pos args) := by
  induction args with
  | nil => simp [lifecycleParameters]
  | cons param args ih =>
    simp only [lifecycleParameters]
    split_ifs <;> simp [ih]

theorem not_panics_parseProposalLifecycle :
    ¬ Panics (parseProposalLifecycle pos args : Parse (Op F)) := by
  simp [parseProposalLifecycle, not_panics_lifecycleParameters]

theorem panics_parseCommand (command : String) :
    Panics (parseCommand line pos args command : Parse (Op F)) ↔
      BreaksCommand F line args command := by
  unfold parseCommand
  split
  · exact panics_parsePush pos args
  · exact panics_parseEmit line pos
  · exact panics_iff_false (not_panics_parseEmitEvent line pos)
  · exact panics_iff_false (not_panics_parseAssertEqualStack line pos args)
  · exact panics_iff_false (not_panics_named args _ _)
  · exact panics_iff_false (not_panics_named args _ _)
  · exact panics_iff_false (not_panics_parseIncrementReputation line pos args)
  · exact panics_iff_false (not_panics_named args _ _)
  · exact panics_iff_false (not_panics_parseRankedVote pos args)
  · exact panics_iff_false (not_panics_namedTwo args _ _ _)
  · exact panics_iff_false (not_panics_parseThreshold pos args _ _)
  · exact panics_iff_false (not_panics_parseThreshold pos args _ _)
  · exact panics_iff_false (not_panics_named args _ _)
  · exact panics_iff_false (not_panics_named args _ _)
  · exact panics_iff_false (not_panics_parseLoadVersionP pos args)
  · exact panics_iff_false (not_panics_named args _ _)
  · exact panics_iff_false (not_panics_parseDiffVersionsP pos args)
  · exact panics_iff_false (not_panics_parseVerifyIdentity line pos args)
  · exact panics_iff_false (not_panics_namedTwo args _ _ _)
  · exact panics_iff_false (not_panics_namedTwo args _ _ _)
  · exact panics_iff_false (not_panics_named args _ _)
  · exact panics_parseMint line pos args
  · exact panics_parseTransfer line pos args
  · exact panics_parseBurn line pos args
  · exact panics_iff_false (not_panics_namedTwo args _ _ _)
  · exact panics_iff_false (not_panics_parseProposalLifecycle pos args)
  · simp only [not_panics_orFail, false_iff]
    unfold BreaksCommand
    split <;> simp_all

theorem panics_parseLine :
    Panics (parseLine line pos : Parse (Op F)) ↔ BreaksLine F line := by
  unfold parseLine BreaksLine
  split_ifs with hcomment
  · simp [hcomment]
  · cases hwords : words line with
    | nil => simp
    | cons command args =>
      simp only [panics_parseCommand, hcomment, List.cons.injEq, true_and]
      constructor
      · intro h
        exact ⟨command, args, ⟨rfl, rfl⟩, h⟩
      · rintro ⟨_, _, ⟨rfl, rfl⟩, h⟩
        exact h

end

/-! ### Headers -/

theorem not_panics_parseLoopHeader (line : Line) (pos : SourcePosition) :
    ¬ Panics (parseLoopHeader line pos) := by
  simp only [parseLoopHeader, panics_bind, not_panics_orFail, false_or, not_exists, not_and]
  intro parts _
  split_ifs <;> simp

/-- The text behind a keyword. -/
theorem slicedFrom_keyword {keyword text : List Char} (h : keyword <+: text) :
    ∃ rest, text = keyword ++ rest ∧ slicedFrom (byteLen keyword) text = .ok rest := by
  obtain ⟨rest, rfl⟩ := h
  exact ⟨rest, rfl, slicedFrom_append keyword rest⟩

theorem not_panics_parseFunctionHeader (line : Line) (pos : SourcePosition) :
    ¬ Panics (parseFunctionHeader line pos) := by
  unfold parseFunctionHeader
  split_ifs
  · simp
  · simp only [parseFunctionSignature, panics_bind, not_panics_orFail, false_or, not_exists,
      not_and]
    intro parts _
    split_ifs with hdef
    · obtain ⟨rest, -, hrest⟩ := slicedFrom_keyword hdef
      have hname : slicedFrom "def ".length (trim parts.1) = .ok rest := hrest
      simp [hname]
    · simp

theorem not_panics_parseCaseValue {F : Type} [Number F] {line : Line} (pos : SourcePosition)
    (h : "case ".toList <+: trim line) : ¬ Panics (parseCaseValue line pos : Parse F) := by
  obtain ⟨rest, -, hrest⟩ := slicedFrom_keyword h
  have hvalue : slicedFrom 5 (trim line) = .ok rest := hrest
  simp [parseCaseValue, hvalue]

/-! ### Durations and directives -/

/-- A last character of several bytes cannot be cut off, and there are no durations beyond
`maxSeconds`. -/
def BreaksDuration (text : List Char) : Prop :=
  ∃ front last, trim text = front ++ [last] ∧
    (1 < last.utf8Size ∨ ∃ value seconds, parseI64 front = some value ∧
      secondsOf last = some seconds ∧ maxSeconds < (value * seconds).natAbs)

@[simp] theorem panics_duration (seconds : Int) :
    Panics (duration seconds) ↔ maxSeconds < seconds.natAbs := by
  unfold duration
  split_ifs with h
  · simpa using h
  · simpa [Panics] using h

/-- The text without its last character. -/
theorem sliced_front {front : List Char} {last : Char} (h : last.utf8Size = 1) :
    sliced 0 (byteLen (front ++ [last]) - 1) (front ++ [last]) = .ok front := by
  have hlen : byteLen (front ++ [last]) - 1 = byteLen front := by simp [h]
  rw [hlen]
  simpa using sliced_append [] front [last]

theorem sliced_inside {front : List Char} {last : Char} (h : 1 < last.utf8Size) :
    sliced 0 (byteLen (front ++ [last]) - 1) (front ++ [last]) = .error .panic := by
  have hnone : Text.takeBytes (byteLen (front ++ [last]) - 1) (front ++ [last]) = none :=
    Text.takeBytes_inside (by simp; omega) (by simp; omega)
  have hslice : Text.slice 0 (byteLen (front ++ [last]) - 1) (front ++ [last]) = none := by
    simpa [Text.slice, Text.dropBytes] using hnone
  rw [sliced, hslice]

theorem panics_parseDuration (text : List Char) :
    Panics (parseDuration text) ↔ BreaksDuration text := by
  unfold parseDuration BreaksDuration
  rcases (trim text).eq_nil_or_concat' with htext | ⟨front, last, htext⟩
  · simp [htext]
  · simp only [htext, List.getLast?_append, List.getLast?_singleton, Option.some_or, orFail_some,
      panics_bind, not_panics_ok, false_or, Except.ok.injEq, exists_eq_left']
    have hsplit {front' : List Char} {last' : Char} :
        front ++ [last] = front' ++ [last'] ↔ front = front' ∧ last = last' := by simp
    simp only [hsplit]
    rcases Nat.lt_or_ge 1 last.utf8Size with hlast | hlast
    · rw [sliced_inside hlast]
      simp [Panics, hlast]
    · have hone : last.utf8Size = 1 := by
        have := last.utf8Size_pos
        omega
      rw [sliced_front hone]
      cases hvalue : parseI64 front <;> cases hseconds : secondsOf last <;>
        simp [hone, hvalue, hseconds]

section
variable {F : Type} (pos : SourcePosition)

/-- The commands of governance blocks that panic. -/
def BreaksGovernance (args : Arguments) : String → Prop
  | "mindeliberation" => ∃ word ∈ args.head?, BreaksDuration word
  | "expiresin" => ∃ word ∈ args.head?, BreaksDuration word
  | "require_role" => args.head? = some ['"']
  | _ => False

/-- The directives that panic. -/
def BreaksDirective (state : DslState F) (trimmed : Line) : Prop :=
  if "template ".toList <+: trimmed ∧ " \x7b".toList <:+ trimmed then
    ∃ first rest, words trimmed = first :: ['"'] :: rest ∧ rest ≠ []
  else if state.inTemplateBlock ∧ trimmed = "\x7d".toList then False
  else if "governance use ".toList <+: trimmed then
    ∃ first second rest, words trimmed = first :: second :: ['"'] :: rest
  else if trimmed = "governance \x7b".toList then False
  else if state.inGovernanceBlock ∧ trimmed = "\x7d".toList then False
  else if state.inGovernanceBlock ∨ state.inTemplateBlock then
    ∃ command args, words trimmed = command :: args ∧
      BreaksGovernance args (String.ofList command)
  else False

@[simp] theorem not_panics_parameter (command : String) (args : Arguments) :
    ¬ Panics (parameter pos command args) := by
  simp [parameter]

@[simp] theorem parameter_eq_ok (command : String) (args : Arguments) (word : Word) :
    parameter pos command args = .ok word ↔ args.head? = some word := by
  cases args with
  | nil => simp [parameter, argument, fail, Bind.bind, Except.bind]
  | cons first rest => simp [parameter, argument, Bind.bind, Except.bind, Pure.pure, Except.pure]

theorem panics_readTemplate (state : DslState F) (trimmed : Line) :
    Panics (readTemplate pos state trimmed) ↔
      ∃ first rest, words trimmed = first :: ['"'] :: rest ∧ rest ≠ [] := by
  unfold readTemplate
  rcases words trimmed with _ | ⟨first, _ | ⟨name, _ | ⟨third, rest⟩⟩⟩ <;> simp

theorem panics_useTemplate (state : DslState F) (trimmed : Line) :
    Panics (useTemplate pos state trimmed) ↔
      ∃ first second rest, words trimmed = first :: second :: ['"'] :: rest := by
  unfold useTemplate
  rcases words trimmed with _ | ⟨first, _ | ⟨second, _ | ⟨name, rest⟩⟩⟩ <;> simp

variable [Number F]

theorem panics_governanceCommand (config : LifecycleConfig F) (args : Arguments)
    (command : String) : Panics (governanceCommand pos config args command) ↔
      BreaksGovernance args command := by
  unfold governanceCommand
  split
  · exact panics_iff_false (by simp)
  · exact panics_iff_false (by simp)
  · simp [panics_parseDuration, BreaksGovernance]
  · simp [panics_parseDuration, BreaksGovernance]
  · simp [BreaksGovernance]
  · simp only [not_panics_fail, false_iff]
    unfold BreaksGovernance
    split <;> simp_all

theorem panics_readCommand (state : DslState F) (trimmed : Line) :
    Panics (readCommand pos state trimmed) ↔ ∃ command args, words trimmed = command :: args ∧
      BreaksGovernance args (String.ofList command) := by
  unfold readCommand
  cases words trimmed <;> simp [panics_governanceCommand]

theorem panics_readDirective (state : DslState F) (trimmed : Line) :
    Panics (readDirective pos state trimmed) ↔ BreaksDirective state trimmed := by
  unfold readDirective BreaksDirective
  split_ifs
  · simp [panics_readTemplate]
  · simp
  · simp [panics_useTemplate]
  · simp
  · simp
  · simp [panics_readCommand]
  · simp

end

/-! ### Programs -/

section
variable {F : Type} {solve : (q : Question F) → Parse (Answer F q)} {c : Cursor}
  {pos : SourcePosition}

@[simp] theorem not_throws_reject {α : Type} (e : CompilerError) :
    ¬ (reject e : Parser F α).Throws solve .panic := by
  simp [reject]

theorem not_throws_lineAt (h : c.rest ≠ []) :
    ¬ (lineAt c : Parser F Line).Throws solve .panic := by
  unfold lineAt
  split
  · simp
  · contradiction

theorem not_throws_parseIfBlock (h : c.rest ≠ []) :
    ¬ (parseIfBlock c pos : Parser F _).Throws solve .panic := by
  simp only [parseIfBlock, parseElse, Rec.throws_bind, not_throws_lineAt h, not_throws_parseBlock,
    false_or, not_exists, not_and]
  intro line _ thenPart _
  split
  · split_ifs <;> simp
  · simp

theorem not_throws_parseLoopBlock (h : c.rest ≠ []) :
    ¬ (parseLoopBlock c pos : Parser F _).Throws solve .panic := by
  have hheader (line : Line) : parseLoopHeader line pos ≠ .error .panic :=
    not_panics_parseLoopHeader line pos
  simp [parseLoopBlock, not_throws_lineAt h, hheader]

theorem not_throws_parseFunctionBlock (h : c.rest ≠ []) :
    ¬ (parseFunctionBlock c pos : Parser F _).Throws solve .panic := by
  have hheader (line : Line) : parseFunctionHeader line pos ≠ .error .panic :=
    not_panics_parseFunctionHeader line pos
  simp [parseFunctionBlock, not_throws_lineAt h, hheader]

theorem not_throws_parseWhileBlock (h : c.rest ≠ []) :
    ¬ (parseWhileBlock c pos : Parser F _).Throws solve .panic := by
  simp [parseWhileBlock, not_throws_lineAt h]

theorem not_throws_parseMatchBlock (h : c.rest ≠ []) :
    ¬ (parseMatchBlock c pos : Parser F _).Throws solve .panic := by
  simp only [parseMatchBlock, Rec.throws_bind, not_throws_lineAt h, not_throws_parseMatchLines,
    false_or, not_exists, not_and]
  intro line _ parts _
  split_ifs <;> simp

theorem not_throws_parseCollected (f : List (Op F) → Op F) (baseIndent : Nat) :
    ¬ (parseCollected f c baseIndent pos).Throws solve .panic := by
  simp [parseCollected]

theorem not_throws_parseBlockHeader (line : Line) (baseIndent : Nat) :
    ¬ (parseBlockHeader c line baseIndent pos : Parser F _).Throws solve .panic := by
  unfold parseBlockHeader
  split
  · simp
  · split_ifs <;> simp [not_throws_parseCollected]

variable [Number F]

/-- The parser stands at a line that makes it panic. -/
def Question.Breaks : Question F → Prop
  | .block c baseIndent _ => ∃ line ∈ c.rest.head?, isBlank line = false ∧
      baseIndent < indent line ∧ endsInColon (trim line) = false ∧ BreaksLine F line
  | .nested .. => False
  | .whileLines c currentIndent .. => ∃ line ∈ c.rest.head?,
      currentIndent < indent line ∧ endsInColon (trim line) = false ∧ BreaksLine F line
  | .matchLines c currentIndent .. => ∃ line ∈ c.rest.head?,
      currentIndent < indent line ∧ trim line ≠ "value:".toList ∧
        ¬ "case ".toList <+: trim line ∧ trim line ≠ "default:".toList ∧ BreaksLine F line
  | .dsl c state => ∃ line ∈ c.rest.head?, isBlank line = false ∧
      (BreaksDirective state (trim line) ∨ ¬ IsDirective state (trim line) ∧
        endsInColon (trim line) = false ∧ BreaksLine F line)

theorem throws_parseStatement (line : Line) :
    (parseStatement c line pos : Parser F _).Throws solve .panic ↔ BreaksLine F line := by
  simp [parseStatement, ← panics_parseLine (F := F) line pos, Panics]

theorem throws_parseBlockLines (baseIndent : Nat) :
    (parseBlockLines c baseIndent pos : Parser F _).Throws solve .panic ↔
      Question.Breaks (.block c baseIndent pos : Question F) := by
  obtain ⟨index, lines⟩ := c
  unfold parseBlockLines Question.Breaks
  cases lines with
  | nil => simp
  | cons line rest =>
    dsimp only
    split_ifs with hblank hdedent hcolon
    · simp [hblank]
    · simp [hdedent]
    · simp [not_throws_parseBlockHeader, hcolon]
    · have hindent : baseIndent < indent line := by omega
      simp [throws_parseStatement, hcolon, hblank, hindent]

theorem throws_parseWhileLine (line : Line) :
    (parseWhileLine c line pos : Parser F _).Throws solve .panic ↔
      endsInColon (trim line) = false ∧ BreaksLine F line := by
  unfold parseWhileLine
  split_ifs with hcolon
  · split <;> simp [hcolon]
  · simp [throws_parseStatement, hcolon]

theorem throws_whileLoop (currentIndent : Nat) (parts : WhileParts F) :
    (whileLoop c currentIndent pos parts).Throws solve .panic ↔
      Question.Breaks (.whileLines c currentIndent pos parts) := by
  obtain ⟨index, lines⟩ := c
  unfold whileLoop Question.Breaks
  cases lines with
  | nil => simp
  | cons line rest =>
    dsimp only
    split_ifs with hdedent hcondition
    · simp [hdedent]
    · have hcolon : endsInColon "condition:".toList = true := rfl
      simp [hcondition, hcolon, -String.reduceToList]
    · have hindent : currentIndent < indent line := by omega
      simp [throws_parseWhileLine, hindent]

theorem throws_matchLoop (currentIndent : Nat) (parts : MatchParts F) :
    (matchLoop c currentIndent pos parts).Throws solve .panic ↔
      Question.Breaks (.matchLines c currentIndent pos parts) := by
  obtain ⟨index, lines⟩ := c
  unfold matchLoop Question.Breaks
  cases lines with
  | nil => simp
  | cons line rest =>
    dsimp only
    split_ifs with hdedent hvalue hcase hdefault
    · simp [hdedent]
    · simp [hvalue, -String.reduceToList]
    · have hcaseValue (pos : SourcePosition) : (parseCaseValue line pos : Parse F) ≠ .error .panic :=
        not_panics_parseCaseValue pos hcase
      simp [hcase, hcaseValue, -String.reduceToList]
    · simp [hdefault, -String.reduceToList]
    · have hindent : currentIndent < indent line := by omega
      simp [throws_parseStatement, hindent, hvalue, hcase, hdefault, -String.reduceToList]

theorem throws_parseTopLine (line : Line) :
    (parseTopLine c line pos : Parser F _).Throws solve .panic ↔
      endsInColon (trim line) = false ∧ BreaksLine F line := by
  unfold parseTopLine
  split_ifs with hcolon
  · split <;> simp [hcolon]
  · simp [throws_parseStatement, hcolon]

theorem throws_dslLoop (state : DslState F) :
    (dslLoop c state).Throws solve .panic ↔ Question.Breaks (.dsl c state) := by
  obtain ⟨index, lines⟩ := c
  unfold dslLoop Question.Breaks
  cases lines with
  | nil => simp
  | cons line rest =>
    dsimp only
    split_ifs with hblank
    · simp [hblank]
    · have hdirective : readDirective ⟨index + 1, indent line + 1⟩ state (trim line) =
          .error .panic ↔ BreaksDirective state (trim line) := panics_readDirective _ _ _
      simp only [Rec.throws_bind, Rec.throws_ofExcept, Rec.eval_ofExcept, hdirective,
        List.head?_cons, Option.mem_def, Option.some.injEq, exists_eq_left', hblank, true_and]
      refine or_congr Iff.rfl ?_
      constructor
      · rintro ⟨directive, hread, hthrows⟩
        cases directive with
        | some state' => simp at hthrows
        | none =>
          have hline := readDirective_eq_none.mp hread
          simp only [Rec.throws_bind, throws_parseTopLine, not_throws_parseDslLines,
            Rec.throws_pure, and_false, exists_false, or_false] at hthrows
          exact ⟨hline, hthrows⟩
      · rintro ⟨hline, hthrows⟩
        refine ⟨none, readDirective_eq_none.mpr hline, ?_⟩
        simp [throws_parseTopLine, hthrows]

theorem throws_body {q : Question F} (h : q.Stands) :
    (body q).Throws solve .panic ↔ q.Breaks := by
  cases q with
  | block c baseIndent pos => exact throws_parseBlockLines baseIndent
  | nested kind c pos =>
    refine iff_of_false ?_ id
    cases kind with
    | ifBlock => exact not_throws_parseIfBlock h
    | whileBlock => exact not_throws_parseWhileBlock h
    | functionBlock => exact not_throws_parseFunctionBlock h
    | matchBlock => exact not_throws_parseMatchBlock h
    | loopBlock => exact not_throws_parseLoopBlock h
  | whileLines c currentIndent pos parts => exact throws_whileLoop currentIndent parts
  | matchLines c currentIndent pos parts => exact throws_matchLoop currentIndent parts
  | dsl c state => exact throws_dslLoop state

theorem parseDsl_panics (source : String) :
    Panics (parseDsl source : Parse (List (Op F) × LifecycleConfig F)) ↔
      ∃ q : Question F, parser.Reaches (program source) q ∧ q.Breaks := by
  refine Recursion.solve_eq_error_iff.trans (exists_congr fun q => and_congr_right fun hreach => ?_)
  exact throws_body (stands_of_reaches hreach trivial)

/-- The parser returns iff it comes to no line that makes it panic. -/
theorem parseDsl_returns_iff (source : String) :
    (parseDsl source : Parse (List (Op F) × LifecycleConfig F)) ≠ .error .panic ↔
      ∀ q : Question F, parser.Reaches (program source) q → ¬ q.Breaks := by
  have h : ¬ Panics (parseDsl source : Parse (List (Op F) × LifecycleConfig F)) ↔ _ :=
    not_congr (parseDsl_panics source)
  simpa [Panics] using h

/-- A quote that is alone is taken for both quotes of a text. -/
theorem not_parseDsl_returns : ¬ ∀ source : String,
    (parseDsl source : Parse (List (Op Binary64) × LifecycleConfig Binary64)) ≠ .error .panic := by
  intro h
  exact h "push \"" rfl

end

end Covm.Compiler
