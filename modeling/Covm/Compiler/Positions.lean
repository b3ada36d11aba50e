import Covm.Compiler.ParseDsl

/-!
# Positions do not matter

A position is only used for the place of an error, and the number of a line for positions. So what
the parser makes of some lines does not depend on where they stand (`solve_shift`).
-/

namespace Covm.Compiler

open Partial
open Text (trim words)

section
variable {α β : Type}

@[simp] theorem toOption_ok (a : α) : (.ok a : Parse α).toOption = some a := rfl

@[simp] theorem toOption_pure (a : α) : (pure a : Parse α).toOption = some a := rfl

@[simp] theorem toOption_fail (e : CompilerError) : (fail e : Parse α).toOption = none := rfl

@[simp] theorem toOption_orFail (e : CompilerError) (a : Option α) :
    (orFail e a).toOption = a := by
  cases a <;> rfl

@[simp] theorem toOption_bind (x : Parse α) (f : α → Parse β) :
    (x >>= f).toOption = x.toOption.bind fun a => (f a).toOption := by
  cases x <;> rfl

@[simp] theorem toOption_map (x : Parse α) (f : α → β) :
    (f <$> x).toOption = x.toOption.map f := by
  cases x <;> rfl

@[simp] theorem toOption_ite {p : Prop} [Decidable p] (x y : Parse α) :
    (if p then x else y).toOption = if p then x.toOption else y.toOption := by
  split_ifs <;> rfl

@[simp] theorem toOption_argument (e : CompilerError) (args : Arguments) :
    (argument e args).toOption = args.head?.map fun word => (word, args.tail) := by
  cases args <;> rfl

@[simp] theorem toOption_parseInteger (e : CompilerError) (word : Word) :
    (parseInteger e word).toOption = parseU64 (String.ofList word) := toOption_orFail _ _

@[simp] theorem toOption_parseF64 {F : Type} [Number F] (e : CompilerError) (word : Word) :
    (parseF64 e word : Parse F).toOption = Number.parse (String.ofList word) := toOption_orFail _ _

theorem toOption_eq_some {x : Parse α} {a : α} : x.toOption = some a ↔ x = .ok a := by
  cases x <;> simp [Except.toOption]

end

/-! ### Lines -/

section
variable {F : Type} (line : Line) (pos pos' : SourcePosition) (args : Arguments)

theorem toOption_parseEmit : (parseEmit line pos : Parse (Op F)).toOption =
    (parseEmit line pos').toOption := by
  simp only [parseEmit, toOption_bind]
  refine Option.bind_congr fun message _ => ?_
  cases message <;> rfl

theorem toOption_parseEmitEvent : (parseEmitEvent line pos : Parse (Op F)).toOption =
    (parseEmitEvent line pos').toOption := by
  unfold parseEmitEvent
  split <;> rfl

theorem toOption_parseAssertEqualStack :
    (parseAssertEqualStack line pos args : Parse (Op F)).toOption =
      (parseAssertEqualStack line pos' args).toOption := by
  simp [parseAssertEqualStack]

theorem toOption_parseRankedVote : (parseRankedVote pos args : Parse (Op F)).toOption =
    (parseRankedVote pos' args).toOption := by
  simp [parseRankedVote]

theorem toOption_parseLoadVersionP : (parseLoadVersionP pos args : Parse (Op F)).toOption =
    (parseLoadVersionP pos' args).toOption := by
  simp [parseLoadVersionP]

theorem toOption_parseDiffVersionsP : (parseDiffVersionsP pos args : Parse (Op F)).toOption =
    (parseDiffVersionsP pos' args).toOption := by
  simp [parseDiffVersionsP]

theorem toOption_afterIdentity (identityId : Word) :
    (afterIdentity line pos identityId).toOption =
      (afterIdentity line pos' identityId).toOption := by
  simp [afterIdentity]

theorem toOption_parseVerifyIdentity :
    (parseVerifyIdentity line pos args : Parse (Op F)).toOption =
      (parseVerifyIdentity line pos' args).toOption := by
  simp only [parseVerifyIdentity, toOption_bind, toOption_argument,
    toOption_afterIdentity line pos pos']
  refine Option.bind_congr fun argument _ => Option.bind_congr fun rest _ =>
    Option.bind_congr fun message _ => ?_
  cases message with
  | none => rfl
  | some quoted =>
    simp only [toOption_bind]
    refine Option.bind_congr fun signature _ => ?_
    cases signature <;> rfl

theorem toOption_named (f : String → Op F) (e e' : CompilerError) :
    (named f e args).toOption = (named f e' args).toOption := by
  simp [named]

theorem toOption_namedTwo (f : String → String → Op F) (e₁ e₂ e₁' e₂' : CompilerError) :
    (namedTwo f e₁ e₂ args).toOption = (namedTwo f e₁' e₂' args).toOption := by
  simp [namedTwo]

variable [Number F]

theorem toOption_parsePush : (parsePush pos args : Parse (Op F)).toOption =
    (parsePush pos' args).toOption := by
  simp [parsePush]

theorem toOption_reputationParameters (amount : Option F) (reason : Option String) :
    (reputationParameters line pos amount reason args).toOption =
      (reputationParameters line pos' amount reason args).toOption := by
  induction args generalizing amount reason with
  | nil => rfl
  | cons param args ih =>
    simp only [reputationParameters, toOption_ite, toOption_bind, toOption_parseF64, ih]

theorem toOption_parseIncrementReputation :
    (parseIncrementReputation line pos args : Parse (Op F)).toOption =
      (parseIncrementReputation line pos' args).toOption := by
  simp [parseIncrementReputation, toOption_reputationParameters line pos pos']

theorem toOption_parseThreshold (f : F → Op F) (command : String) :
    (parseThreshold pos f command args).toOption =
      (parseThreshold pos' f command args).toOption := by
  simp [parseThreshold]

theorem toOption_amountAndReason (command : String) :
    (amountAndReason line pos command args : Parse (F × Option String)).toOption =
      (amountAndReason line pos' command args).toOption := by
  simp [amountAndReason]

theorem toOption_parseMint : (parseMint line pos args : Parse (Op F)).toOption =
    (parseMint line pos' args).toOption := by
  simp [parseMint, toOption_amountAndReason line pos pos']

theorem toOption_parseTransfer : (parseTransfer line pos args : Parse (Op F)).toOption =
    (parseTransfer line pos' args).toOption := by
  simp [parseTransfer, toOption_amountAndReason line pos pos']

theorem toOption_parseBurn : (parseBurn line pos args : Parse (Op F)).toOption =
    (parseBurn line pos' args).toOption := by
  simp [parseBurn, toOption_amountAndReason line pos pos']

theorem toOption_lifecycleParameters : (lifecycleParameters F pos args).toOption =
    (lifecycleParameters F pos' args).toOption := by
  induction args with
  | nil => rfl
  | cons param args ih =>
    simp only [lifecycleParameters, toOption_ite, toOption_bind, toOption_parseF64, ih]

theorem toOption_parseProposalLifecycle :
    (parseProposalLifecycle pos args : Parse (Op F)).toOption =
      (parseProposalLifecycle pos' args).toOption := by
  simp [parseProposalLifecycle, toOption_lifecycleParameters pos pos']

theorem toOption_parseCommand (command : String) :
    (parseCommand line pos args command : Parse (Op F)).toOption =
      (parseCommand line pos' args command).toOption := by
  unfold parseCommand
  split
  · exact toOption_parsePush pos pos' args
  · exact toOption_parseEmit line pos pos'
  · exact toOption_parseEmitEvent line pos pos'
  · exact toOption_parseAssertEqualStack line pos pos' args
  · exact toOption_named args _ _ _
  · exact toOption_named args _ _ _
  · exact toOption_parseIncrementReputation line pos pos' args
  · exact toOption_named args _ _ _
  · exact toOption_parseRankedVote pos pos' args
  · exact toOption_namedTwo args _ _ _ _ _
  · exact toOption_parseThreshold pos pos' args _ _
  · exact toOption_parseThreshold pos pos' args _ _
  · exact toOption_named args _ _ _
  · exact toOption_named args _ _ _
  · exact toOption_parseLoadVersionP pos pos' args
  · exact toOption_named args _ _ _
  · exact toOption_parseDiffVersionsP pos pos' args
  · exact toOption_parseVerifyIdentity line pos pos' args
  · exact toOption_namedTwo args _ _ _ _ _
  · exact toOption_namedTwo args _ _ _ _ _
  · exact toOption_named args _ _ _
  · exact toOption_parseMint line pos pos' args
  · exact toOption_parseTransfer line pos pos' args
  · exact toOption_parseBurn line pos pos' args
  · exact toOption_namedTwo args _ _ _ _ _
  · exact toOption_parseProposalLifecycle pos pos' args
  · simp

theorem toOption_parseLine :
    (parseLine line pos : Parse (Op F)).toOption = (parseLine line pos').toOption := by
  unfold parseLine
  split_ifs
  · rfl
  · cases words line with
    | nil => rfl
    | cons command args => exact toOption_parseCommand line pos pos' args _

theorem toOption_parseCaseValue : (parseCaseValue line pos : Parse F).toOption =
    (parseCaseValue line pos').toOption := by
  simp only [parseCaseValue, toOption_bind, toOption_parseF64]

end

/-! ### Headers and directives -/

section
variable (line : Line) (pos pos' : SourcePosition)

theorem toOption_parseLoopHeader :
    (parseLoopHeader line pos).toOption = (parseLoopHeader line pos').toOption := by
  simp only [parseLoopHeader, toOption_bind, toOption_orFail, toOption_ite, toOption_parseInteger,
    toOption_fail]

theorem toOption_parseFunctionHeader :
    (parseFunctionHeader line pos).toOption = (parseFunctionHeader line pos').toOption := by
  simp only [parseFunctionHeader, parseFunctionSignature, toOption_bind, toOption_orFail,
    toOption_ite, toOption_fail]

variable {F : Type} (args : Arguments)

theorem toOption_parameter (command : String) : (parameter pos command args).toOption =
    (parameter pos' command args).toOption := by
  simp [parameter]

theorem toOption_readTemplate (state : DslState F) :
    (readTemplate pos state line).toOption = (readTemplate pos' state line).toOption := by
  unfold readTemplate
  split <;> simp

theorem toOption_useTemplate (state : DslState F) :
    (useTemplate pos state line).toOption = (useTemplate pos' state line).toOption := by
  unfold useTemplate
  split <;> simp

variable [Number F]

theorem toOption_governanceCommand (config : LifecycleConfig F) (command : String) :
    (governanceCommand pos config args command).toOption =
      (governanceCommand pos' config args command).toOption := by
  unfold governanceCommand
  split <;> simp only [toOption_bind, toOption_parseF64, toOption_parameter pos pos', toOption_fail]

theorem toOption_readCommand (state : DslState F) :
    (readCommand pos state line).toOption = (readCommand pos' state line).toOption := by
  unfold readCommand
  split
  · rfl
  · simp only [toOption_bind, toOption_governanceCommand pos pos']

theorem toOption_readDirective (state : DslState F) :
    (readDirective pos state line).toOption = (readDirective pos' state line).toOption := by
  simp only [readDirective, toOption_ite, toOption_map, toOption_readTemplate line pos pos',
    toOption_useTemplate line pos pos', toOption_readCommand line pos pos']

end

theorem ok_of_toOption {α : Type} {x y : Parse α} (h : x.toOption = y.toOption) {a : α}
    (hx : x = .ok a) : y = .ok a :=
  toOption_eq_some.mp (h ▸ toOption_eq_some.mpr hx)

end Covm.Compiler
