import Covm.Compiler.WhileBody
import Covm.Compiler.Unclosed

/-!
# Blank lines and comments

A line that is put into a source is read by one of the loops of the parser. The two runs are
compared call by call: before the line they see the same, at the line the second run does something
more, and behind it they see the same again, but for the blank lines that follow.
-/

namespace Covm.Compiler

open Partial
open Text (trim words indent isBlank)

/-! ## A line more -/

/-- `x` is put before blank lines and `rest`, where the second run may have read some of the blank
lines that the first one has still to read. -/
def AtLine (x : Line) (Safe : List Line → List Line → Prop) (ls ls' : List Line) : Prop :=
  ∃ read blanks rest, Safe (read ++ blanks) rest ∧ ls = blanks ++ rest ∧
    ls' = x :: (read ++ (blanks ++ rest))

/-- The second lines are the first ones, or have `x` in addition. -/
inductive Inserted (x : Line) (Safe : List Line → List Line → Prop) : List Line → List Line → Prop
  | same (ls : List Line) : Inserted x Safe ls ls
  | cons (line : Line) {ls ls' : List Line} (h : Inserted x Safe ls ls') :
    Inserted x Safe (line :: ls) (line :: ls')
  | here {ls ls' : List Line} (h : AtLine x Safe ls ls') : Inserted x Safe ls ls'

variable {F : Type} [Number F] {x : Line} {Safe : List Line → List Line → Prop}

theorem inserted_cases {ls ls' : List Line} (h : Inserted x Safe ls ls') :
    (ls = [] ∧ ls' = []) ∨
      (∃ line rest rest', ls = line :: rest ∧ ls' = line :: rest' ∧ Inserted x Safe rest rest') ∨
      AtLine x Safe ls ls' := by
  cases h with
  | same =>
    cases ls with
    | nil => exact .inl ⟨rfl, rfl⟩
    | cons line rest => exact .inr (.inl ⟨line, rest, rest, rfl, rfl, .same rest⟩)
  | cons line h => exact .inr (.inl ⟨line, _, _, rfl, rfl, h⟩)
  | here h => exact .inr (.inr h)

/-- What the loops of the parser do where the line is put in; `P` holds of the calls of the second
run. -/
structure Harmless (F : Type) [Number F] (x : Line) (Safe : List Line → List Line → Prop)
    (P : Question F → Prop) : Prop where
  collect {ls ls' : List Line} (h : AtLine x Safe ls ls') : CollectAlike (Inserted x Safe) ls ls'
  notElse {ls ls' : List Line} {base : Nat} (h : AtLine x Safe ls ls') (hls : Ends base ls)
    (hls' : Ends base ls') : ElseAlike (Inserted x Safe) ls ls'
  block {c c' : Cursor} {base : Nat} {pos pos' : SourcePosition} (h : AtLine x Safe c.rest c'.rest)
    (hP : P (.block c' base pos')) {ops : List (Op F)} {d : Cursor}
    (hops : solveBlock c base pos = .ok (ops, d)) :
    ∃ d', solveBlock c' base pos' = .ok (ops, d') ∧ Inserted x Safe d.rest d'.rest
  whileLines {c c' : Cursor} {i : Nat} {pos pos' : SourcePosition} {parts : WhileParts F}
    (h : AtLine x Safe c.rest c'.rest) (hP : P (.whileLines c' i pos' parts))
    {parts' : WhileParts F} {d : Cursor}
    (hparts : solveWhileLines c i pos parts = .ok (parts', d)) :
    ∃ d', solveWhileLines c' i pos' parts = .ok (parts', d') ∧ Inserted x Safe d.rest d'.rest
  matchLines {c c' : Cursor} {i : Nat} {pos pos' : SourcePosition} {parts : MatchParts F}
    (h : AtLine x Safe c.rest c'.rest) (hP : P (.matchLines c' i pos' parts))
    {parts' : MatchParts F} {d : Cursor}
    (hparts : solveMatchLines c i pos parts = .ok (parts', d)) :
    ∃ d', solveMatchLines c' i pos' parts = .ok (parts', d') ∧ Inserted x Safe d.rest d'.rest
  dsl {c c' : Cursor} {state : DslState F} (h : AtLine x Safe c.rest c'.rest)
    (hP : P (.dsl c' state)) {result : List (Op F) × LifecycleConfig F}
    (hresult : solveDsl c state = .ok result) : solveDsl c' state = .ok result

namespace Harmless

variable {P : Question F → Prop} (h : Harmless F x Safe P)
include h

theorem collectAlike {ls ls' : List Line} (hls : Inserted x Safe ls ls') :
    CollectAlike (Inserted x Safe) ls ls' := by
  induction hls with
  | same ls =>
    intro base index index'
    obtain ⟨hlines, hrest⟩ := collectAlike_eq ls base index index'
    rw [hlines, hrest]
    exact ⟨.same _, .same _⟩
  | @cons line ls ls' hls ih =>
    intro base index index'
    simp only [collectLines]
    split_ifs
    · exact ih base (index + 1) (index' + 1)
    · exact ⟨.same _, .cons line hls⟩
    · obtain ⟨hlines, hrest⟩ := ih base (index + 1) (index' + 1)
      exact ⟨.cons line hlines, hrest⟩
  | here hat => exact h.collect hat

theorem elseAlike {ls ls' : List Line} {base : Nat} (hls : Inserted x Safe ls ls')
    (hends : Ends base ls) (hends' : Ends base ls') : ElseAlike (Inserted x Safe) ls ls' := by
  rcases inserted_cases hls with ⟨rfl, rfl⟩ | ⟨line, rest, rest', rfl, rfl, hrest⟩ | hat
  · refine .inr ⟨?_, ?_⟩ <;>
    · intro line hline
      cases hline
  · exact .inl ⟨line, rest, rest', rfl, rfl, hrest⟩
  · exact h.notElse hat hends hends'

theorem known_or_follows {q q' : Question F} (hq' : P q')
    (hlike : Question.Alike (Inserted x Safe) q q') :
    (∀ r, parser.solve q = .ok r → ∃ r', parser.solve q' = .ok r' ∧
      Question.Agree (Inserted x Safe) q q' r r') ∨
    Parser.Follows (Inserted x Safe) (Question.Agree (Inserted x Safe) q q') (body q)
      (body q') := by
  cases hlike with
  | @block c c' base pos pos' hc =>
    rcases inserted_cases hc with ⟨hnil, hnil'⟩ | ⟨line, rest, rest', hline, hline', hrest⟩ | hat
    · exact .inr (alike_parseBlockLines_nil hnil hnil' (.same []))
    · exact .inr (alike_parseBlockLines hline hline' hrest (h.collectAlike hrest) hc)
    · refine .inl fun r hr => ?_
      obtain ⟨d', hd', hrest⟩ := h.block hat hq' hr
      exact ⟨(r.1, d'), hd', rfl, hrest⟩
  | nested kind pos pos' hc hc' hls =>
    refine .inr (alike_parseNestedBlock hc hc' hls fun _ thenOps d d' hd hd' hrest => ?_)
    exact h.elseAlike hrest (solveBlock_ends hd) (solveBlock_ends hd')
  | @whileLines c c' i pos pos' parts hc =>
    rcases inserted_cases hc with ⟨hnil, hnil'⟩ | ⟨line, rest, rest', hline, hline', hrest⟩ | hat
    · exact .inr (alike_whileLoop_nil hnil hnil' (.same []))
    · exact .inr (alike_whileLoop hline hline' hrest hc)
    · refine .inl fun r hr => ?_
      obtain ⟨d', hd', hrest⟩ := h.whileLines hat hq' hr
      exact ⟨(r.1, d'), hd', rfl, hrest⟩
  | @matchLines c c' i pos pos' parts hc =>
    rcases inserted_cases hc with ⟨hnil, hnil'⟩ | ⟨line, rest, rest', hline, hline', hrest⟩ | hat
    · exact .inr (alike_matchLoop_nil hnil hnil' (.same []))
    · exact .inr (alike_matchLoop hline hline' hrest hc)
    · refine .inl fun r hr => ?_
      obtain ⟨d', hd', hrest⟩ := h.matchLines hat hq' hr
      exact ⟨(r.1, d'), hd', rfl, hrest⟩
  | @dsl c c' state hc =>
    rcases inserted_cases hc with ⟨hnil, hnil'⟩ | ⟨line, rest, rest', hline, hline', hrest⟩ | hat
    · exact .inr (follows_dslLoop_nil hnil hnil')
    · exact .inr (follows_dslLoop hline hline' hrest)
    · exact .inl fun r hr => ⟨r, h.dsl hat hq' hr, rfl⟩

/-- The second run ends as the first one does. -/
theorem solveDsl_eq_ok (hP : ∀ q p, P q → parser.Asks q p → P p) {c c' : Cursor}
    {state : DslState F} (hc : Inserted x Safe c.rest c'.rest) (hc' : P (.dsl c' state))
    {result : List (Op F) × LifecycleConfig F} (hresult : solveDsl c state = .ok result) :
    solveDsl c' state = .ok result := by
  have hstep : ∀ q q' : Question F, True → P q' → Question.Alike (Inserted x Safe) q q' →
      (∀ r, parser.solve q = .ok r → ∃ r', parser.solve q' = .ok r' ∧
        Question.Agree (Inserted x Safe) q q' r r') ∨
      ∃ y : Parser F (Answer F q'), parser.solve q' = y.eval parser.solve ∧
        (∀ p', y.Asked parser.solve p' → P p') ∧
        Parser.Follows (Inserted x Safe) (Question.Agree (Inserted x Safe) q q') (body q) y :=
    fun q q' _ hq' hlike => (h.known_or_follows hq' hlike).imp_right fun hfollows =>
      ⟨body q', Recursion.solve_eq q', fun p' hp' => hP q' p' hq' hp', hfollows⟩
  obtain ⟨r', hr', hagree⟩ := Recursion.solve_follows_or (fun _ _ _ _ => trivial) hstep trivial hc'
    (.dsl state hc) hresult
  obtain rfl : result = r' := hagree
  exact hr'

end Harmless

/-! ## Lines with nothing in them -/

section
variable {c c' : Cursor} {pos pos' : SourcePosition} {line : Line} {ls : List Line} {i base : Nat}

omit [Number F] in
theorem head_of_isComment (h : isComment line = true) : (trim line).head? = some '#' :=
  of_decide_eq_true h

omit [Number F] in
theorem trim_ne_of_isComment (h : isComment line = true) {text : List Char}
    (htext : text.head? ≠ some '#') : trim line ≠ text := by
  rintro rfl
  exact htext (head_of_isComment h)

theorem isBlank_of_isComment (h : isComment line = true) : isBlank line = false :=
  isBlank_eq_false (trim_ne_of_isComment h (by decide))

theorem parseLine_of_isComment (h : isComment line = true) (pos : SourcePosition) :
    (parseLine line pos : Parse (Op F)) = .ok .nop := by
  rw [parseLine, if_pos h]

theorem solveBlock_comment (hc : c.rest = line :: ls) (h : isComment line = true)
    (hcolon : endsInColon (trim line) = false) (hindent : base < indent line) :
    (solveBlock c base pos : Parse (List (Op F) × _)) = solveBlock c.next base pos := by
  rw [solveBlock_item hc (isBlank_of_isComment h) hindent, eval_blockItem_statement hcolon,
    parseLine_of_isComment h, ok_bind, ok_bind]
  cases hnext : (solveBlock c.next base pos : Parse (List (Op F) × _)) <;> rfl

theorem solveWhileLines_comment {parts : WhileParts F} (hc : c.rest = line :: ls)
    (h : isComment line = true) (hcolon : endsInColon (trim line) = false)
    (hindent : i < indent line) :
    solveWhileLines c i pos parts = solveWhileLines c.next i pos parts := by
  rw [solveWhileLines_item hc hindent (trim_ne_of_isComment h (by decide)),
    eval_parseWhileLine_statement hcolon, parseLine_of_isComment h, ok_bind, ok_bind]
  rfl

theorem solveMatchLines_statement {parts : MatchParts F} (hc : c.rest = line :: ls)
    (hindent : i < indent line) (hvalue : trim line ≠ "value:".toList)
    (hcase : ¬ "case ".toList <+: trim line) (hdefault : trim line ≠ "default:".toList) :
    solveMatchLines c i pos parts = (do
      let op ← parseLine line ⟨pos.line + c.index, indent line + 1⟩
      solveMatchLines c.next i pos { parts with valueOps := push op parts.valueOps }) := by
  rw [solveMatchLines_eq, matchLoop, hc]
  dsimp only
  rw [if_neg (Nat.not_le.mpr hindent), if_neg hvalue, if_neg hcase, if_neg hdefault, Rec.eval_bind,
    eval_parseStatement]
  cases (parseLine line ⟨pos.line + c.index, indent line + 1⟩ : Parse (Op F)) with
  | error e => rfl
  | ok op =>
    rw [ok_bind, ok_bind, ok_bind]
    exact eval_solveMatchLines i _

theorem solveMatchLines_comment {parts : MatchParts F} (hc : c.rest = line :: ls)
    (h : isComment line = true) (hindent : i < indent line) :
    solveMatchLines c i pos parts = solveMatchLines c.next i pos parts := by
  have hcase : ¬ "case ".toList <+: trim line := by
    rintro ⟨text, htext⟩
    exact trim_ne_of_isComment h (by simp) htext.symm
  rw [solveMatchLines_statement hc hindent (trim_ne_of_isComment h (by decide)) hcase
    (trim_ne_of_isComment h (by decide)), parseLine_of_isComment h, ok_bind]
  rfl

theorem solveMatchLines_blank {parts : MatchParts F} (hc : c.rest = line :: ls)
    (h : isBlank line = true) (hindent : i < indent line) :
    solveMatchLines c i pos parts = solveMatchLines c.next i pos parts := by
  have htrim := Text.trim_of_isBlank h
  rw [solveMatchLines_statement hc hindent (by rw [htrim]; decide) (by rw [htrim]; decide)
    (by rw [htrim]; decide), parseLine_of_isBlank h, ok_bind]
  rfl

theorem solveDsl_blank {state : DslState F} (hc : c.rest = line :: ls) (h : isBlank line = true) :
    solveDsl c state = solveDsl c.next state := by
  rw [solveDsl_eq, dslLoop_cons hc, if_pos h, eval_solveDsl]

theorem solveDsl_comment {state : DslState F} (hc : c.rest = line :: ls) (h : isComment line = true)
    (hcolon : endsInColon (trim line) = false) (hgovernance : state.inGovernanceBlock = false)
    (htemplate : state.inTemplateBlock = false) :
    solveDsl c state = solveDsl c.next state := by
  have hdirective := not_isDirective_of_head hgovernance htemplate (head_of_isComment h) (by decide)
    (by decide)
  have hread : readDirective ⟨c.index + 1, indent line + 1⟩ state (trim line) = .ok none :=
    readDirective_eq_none.mpr hdirective
  have htop : (parseTopLine c line ⟨c.index + 1, indent line + 1⟩ : Parser F _).eval parser.solve =
      .ok (.nop, c.next) := by
    rw [parseTopLine, hcolon, if_neg Bool.false_ne_true, eval_parseStatement,
      parseLine_of_isComment h, ok_bind]
  rw [solveDsl_eq, dslLoop_cons hc, if_neg (by rw [isBlank_of_isComment h]; decide), Rec.eval_bind,
    Rec.eval_ofExcept, hread, ok_bind]
  dsimp only
  rw [Rec.eval_bind, htop, ok_bind]
  dsimp only
  rw [Rec.eval_bind, eval_solveDsl]
  cases hnext : solveDsl c.next state <;> rfl

end

/-! ## Behind blank lines -/

section
variable {c c' : Cursor} {pos pos' : SourcePosition} {rest : List Line} {i base : Nat}

theorem solveBlock_blankLines (blanks : List Line) (hblanks : ∀ line ∈ blanks, isBlank line = true)
    (hc : c.rest = blanks ++ rest) : ∃ d : Cursor, d.rest = rest ∧ ∀ base pos,
      (solveBlock c base pos : Parse (List (Op F) × _)) = solveBlock d base pos := by
  induction blanks generalizing c with
  | nil => exact ⟨c, hc, fun _ _ => rfl⟩
  | cons line blanks ih =>
    rw [List.forall_mem_cons] at hblanks
    obtain ⟨d, hd, hsolve⟩ := ih hblanks.2 (by rw [Cursor.next_rest, hc]; rfl : c.next.rest = _)
    exact ⟨d, hd, fun base pos => (solveBlock_blank hc hblanks.1).trans (hsolve base pos)⟩

theorem solveDsl_blankLines (blanks : List Line) (hblanks : ∀ line ∈ blanks, isBlank line = true)
    (hc : c.rest = blanks ++ rest) : ∃ d : Cursor, d.rest = rest ∧ ∀ state : DslState F,
      solveDsl c state = solveDsl d state := by
  induction blanks generalizing c with
  | nil => exact ⟨c, hc, fun _ => rfl⟩
  | cons line blanks ih =>
    rw [List.forall_mem_cons] at hblanks
    obtain ⟨d, hd, hsolve⟩ := ih hblanks.2 (by rw [Cursor.next_rest, hc]; rfl : c.next.rest = _)
    exact ⟨d, hd, fun state => (solveDsl_blank hc hblanks.1).trans (hsolve state)⟩

/-- More or fewer blank lines before a block are the same to it. -/
theorem block_blankLines {blanks blanks' : List Line}
    (hblanks : ∀ line ∈ blanks, isBlank line = true)
    (hblanks' : ∀ line ∈ blanks', isBlank line = true) (hc : c.rest = blanks ++ rest)
    (hc' : c'.rest = blanks' ++ rest) {ops : List (Op F)} {d : Cursor}
    (hops : solveBlock c base pos = .ok (ops, d)) :
    ∃ d', solveBlock c' base pos' = .ok (ops, d') ∧ d'.rest = d.rest := by
  obtain ⟨e, he, hsolve⟩ := solveBlock_blankLines (F := F) blanks hblanks hc
  obtain ⟨e', he', hsolve'⟩ := solveBlock_blankLines (F := F) blanks' hblanks' hc'
  rw [hsolve] at hops
  rw [hsolve']
  exact block_shift (he.trans he'.symm) hops

theorem dsl_shift (h : c.rest = c'.rest) {state : DslState F}
    {result : List (Op F) × LifecycleConfig F} (hresult : solveDsl c state = .ok result) :
    solveDsl c' state = .ok result := by
  obtain ⟨result', hr', hagree⟩ := solve_alike (.dsl state h) hresult
  obtain rfl : result = result' := hagree
  exact hr'

theorem dsl_blankLines {blanks blanks' : List Line}
    (hblanks : ∀ line ∈ blanks, isBlank line = true)
    (hblanks' : ∀ line ∈ blanks', isBlank line = true) (hc : c.rest = blanks ++ rest)
    (hc' : c'.rest = blanks' ++ rest) {state : DslState F}
    {result : List (Op F) × LifecycleConfig F} (hresult : solveDsl c state = .ok result) :
    solveDsl c' state = .ok result := by
  obtain ⟨e, he, hsolve⟩ := solveDsl_blankLines (F := F) blanks hblanks hc
  obtain ⟨e', he', hsolve'⟩ := solveDsl_blankLines (F := F) blanks' hblanks' hc'
  rw [hsolve] at hresult
  rw [hsolve']
  exact dsl_shift (he.trans he'.symm) hresult

/-- What the loops of `parse_while_block` and `parse_match_block` have in common: `solve` goes on
from a cursor with `parts` found before it, whatever the position of the block. -/
structure IsLoop {α : Type} (i : Nat) (parts : α)
    (solve : SourcePosition → Cursor → Parse (α × Cursor)) : Prop where
  stops {pos : SourcePosition} {c : Cursor} (h : ∀ line ∈ c.rest.head?, indent line ≤ i) :
    solve pos c = .ok (parts, c)
  blank {pos : SourcePosition} {c : Cursor} {line : Line} {ls : List Line}
    (hc : c.rest = line :: ls) (h : isBlank line = true) (hindent : i < indent line) :
    solve pos c = solve pos c.next
  shift {pos pos' : SourcePosition} {c c' d : Cursor} {parts' : α} (h : c.rest = c'.rest)
    (hsolve : solve pos c = .ok (parts', d)) :
    ∃ d', solve pos' c' = .ok (parts', d') ∧ d'.rest = d.rest

theorem isLoop_while (parts : WhileParts F) :
    IsLoop i parts fun pos c => solveWhileLines c i pos parts where
  stops {pos c} h := by
    cases hc : c.rest with
    | nil => exact solveWhileLines_nil hc
    | cons line ls => exact solveWhileLines_dedent hc (h line (by rw [hc]; rfl))
  blank hc h hindent := solveWhileLines_blank hc h hindent
  shift {pos pos' c c' d parts'} h hsolve := by
    obtain ⟨⟨parts'', d'⟩, hr', hparts, hd⟩ :=
      solve_alike (.whileLines i pos pos' parts h) hsolve
    obtain rfl : parts' = parts'' := hparts
    exact ⟨d', hr', hd.symm⟩

theorem isLoop_match (parts : MatchParts F) :
    IsLoop i parts fun pos c => solveMatchLines c i pos parts where
  stops {pos c} h := by
    cases hc : c.rest with
    | nil => exact solveMatchLines_nil hc
    | cons line ls => exact solveMatchLines_dedent hc (h line (by rw [hc]; rfl))
  blank hc h hindent := solveMatchLines_blank hc h hindent
  shift {pos pos' c c' d parts'} h hsolve := by
    obtain ⟨⟨parts'', d'⟩, hr', hparts, hd⟩ :=
      solve_alike (.matchLines i pos pos' parts h) hsolve
    obtain rfl : parts' = parts'' := hparts
    exact ⟨d', hr', hd.symm⟩

namespace IsLoop

variable {α : Type} {parts : α} {solve : SourcePosition → Cursor → Parse (α × Cursor)}
  (h : IsLoop i parts solve)
include h

/-- Deeper blank lines do not end the loop. -/
theorem through (blanks : List Line)
    (hblanks : ∀ line ∈ blanks, isBlank line = true ∧ i < indent line)
    (hc : c.rest = blanks ++ rest) :
    ∃ d : Cursor, d.rest = rest ∧ ∀ pos, solve pos c = solve pos d := by
  induction blanks generalizing c with
  | nil => exact ⟨c, hc, fun _ => rfl⟩
  | cons line blanks ih =>
    rw [List.forall_mem_cons] at hblanks
    obtain ⟨d, hd, hsolve⟩ := ih hblanks.2 (by rw [Cursor.next_rest, hc]; rfl : c.next.rest = _)
    exact ⟨d, hd, fun pos => (h.blank hc hblanks.1.1 hblanks.1.2).trans (hsolve pos)⟩

/-- The loop ends within the blank lines or behind them. -/
theorem ends (blanks : List Line) (hblanks : ∀ line ∈ blanks, isBlank line = true)
    (hrest : ∀ line ∈ rest.head?, indent line ≤ i) (hc : c.rest = blanks ++ rest) :
    ∃ read left d, blanks = read ++ left ∧ d.rest = left ++ rest ∧
      solve pos c = .ok (parts, d) := by
  induction blanks generalizing c with
  | nil =>
    rw [List.nil_append] at hc
    exact ⟨[], [], c, rfl, hc, h.stops (hc ▸ hrest)⟩
  | cons line blanks ih =>
    rw [List.forall_mem_cons] at hblanks
    by_cases hindent : i < indent line
    · obtain ⟨read, left, d, rfl, hd, hsolve⟩ :=
        ih hblanks.2 (by rw [Cursor.next_rest, hc]; rfl : c.next.rest = _)
      exact ⟨line :: read, left, d, rfl, hd, (h.blank hc hblanks.1 hindent).trans hsolve⟩
    · refine ⟨[], line :: blanks, c, rfl, hc, h.stops fun other hother => ?_⟩
      rw [hc] at hother
      cases hother
      exact Nat.le_of_not_lt hindent

end IsLoop

end

/-! ## Insertions that change nothing -/

/-- The first line with something in it. -/
def nextLine (lines : List Line) : Option Line := lines.find? fun line => !isBlank line

/-- The indentation of a `while:` or a `match:`, for the loops that read their lines. -/
def Question.loopIndent : Question F → Option Nat
  | .whileLines _ i .. => some i
  | .matchLines _ i .. => some i
  | _ => none

/-- The line is tested for a colon at its end before it is seen to be a comment. -/
def Question.TestsColon (line : Line) : Question F → Prop
  | .block _ base _ => base < indent line
  | .whileLines _ i .. => i < indent line
  | .dsl .. => True
  | _ => False

/-- No loop that would go on behind the blank lines reads the one that is put in. -/
def SkipsBlank (after : List Line) (q : Question F) : Prop :=
  ∀ i, q.loopIndent = some i → q.cursor.rest = [] :: after →
    ∀ next ∈ nextLine after, indent next ≤ i

/-- A comment is skipped where it is read: it is no header, it is not inside of a governance block
or a template, and the loop that reads it does not end at the blank lines behind it. -/
structure SkipsComment (comment : Line) (after : List Line) (q : Question F) : Prop where
  noHeader : q.cursor.rest.head? = some comment → q.TestsColon comment →
    endsInColon (trim comment) = false
  outside (c : Cursor) (state : DslState F) (hq : q = .dsl c state)
    (hc : c.rest.head? = some comment) :
    state.inGovernanceBlock = false ∧ state.inTemplateBlock = false
  goesOn (i : Nat) (hi : q.loopIndent = some i) (hq : q.cursor.rest = comment :: after)
    (hindent : i < indent comment) : ∀ line ∈ after.takeWhile isBlank, i < indent line

/-- What a blank line is put before. -/
def BeforeBlanks (after blanks rest : List Line) : Prop :=
  (∀ line ∈ blanks, isBlank line = true) ∧ (∀ next ∈ rest.head?, isBlank next = false) ∧
    blanks ++ rest = after

/-- What a comment is put before. -/
def BeforeNext (comment : Line) (after blanks rest : List Line) : Prop :=
  (∀ line ∈ blanks, isBlank line = true) ∧
    (∃ next more, rest = next :: more ∧ isBlank next = false ∧ indent comment = indent next ∧
      trim next ≠ "else:".toList) ∧ (blanks ≠ [] → blanks ++ rest = after)

omit [Number F] in
theorem nextLine_append {blanks rest : List Line} (hblanks : ∀ line ∈ blanks, isBlank line = true)
    (hrest : ∀ next ∈ rest.head?, isBlank next = false) :
    nextLine (blanks ++ rest) = rest.head? := by
  induction blanks with
  | nil =>
    cases rest with
    | nil => rfl
    | cons next more => exact List.find?_cons_of_pos (by rw [hrest next rfl]; rfl)
  | cons line blanks ih =>
    rw [List.forall_mem_cons] at hblanks
    rw [List.cons_append, nextLine, List.find?_cons_of_neg (by rw [hblanks.1]; decide)]
    exact ih hblanks.2

theorem collectLines_blanks {base index : Nat} {blanks rest : List Line}
    (hblanks : ∀ line ∈ blanks, isBlank line = true) : ∃ index',
    collectLines base index (blanks ++ rest) = collectLines base index' rest := by
  induction blanks generalizing index with
  | nil => exact ⟨index, rfl⟩
  | cons line blanks ih =>
    rw [List.forall_mem_cons] at hblanks
    obtain ⟨index', hrest⟩ := @ih (index + 1) hblanks.2
    refine ⟨index', ?_⟩
    rw [List.cons_append, collectLines, if_pos hblanks.1, hrest]

theorem collect_blankLines {blanks blanks' rest : List Line}
    (hblanks : ∀ line ∈ blanks, isBlank line = true)
    (hblanks' : ∀ line ∈ blanks', isBlank line = true) (base index index' : Nat) :
    (collectLines base index (blanks ++ rest)).1 = (collectLines base index' (blanks' ++ rest)).1 ∧
      (collectLines base index (blanks ++ rest)).2.rest =
        (collectLines base index' (blanks' ++ rest)).2.rest := by
  obtain ⟨j, hlines⟩ := @collectLines_blanks base index blanks rest hblanks
  obtain ⟨j', hlines'⟩ := @collectLines_blanks base index' blanks' rest hblanks'
  rw [hlines, hlines']
  exact collectAlike_eq rest base j j'

/-- Both runs stand before blank lines. -/
theorem blanks_of_atLine {after ls ls' : List Line} (h : AtLine [] (BeforeBlanks after) ls ls') :
    ∃ blanks blanks' rest, (∀ line ∈ blanks, isBlank line = true) ∧
      (∀ line ∈ blanks', isBlank line = true) ∧ ls = blanks ++ rest ∧ ls' = blanks' ++ rest := by
  obtain ⟨read, blanks, rest, ⟨hblanks, -⟩, rfl, rfl⟩ := h
  refine ⟨blanks, [] :: (read ++ blanks), rest,
    fun line hline => hblanks line (List.mem_append_right read hline),
    List.forall_mem_cons.mpr ⟨rfl, hblanks⟩, rfl, ?_⟩
  rw [List.cons_append, List.append_assoc]

theorem isLoop_blank {α : Type} {i : Nat} {parts parts' : α}
    {solve : SourcePosition → Cursor → Parse (α × Cursor)} (hloop : IsLoop i parts solve)
    {after : List Line} {c c' d : Cursor} {pos pos' : SourcePosition}
    (hat : AtLine [] (BeforeBlanks after) c.rest c'.rest)
    (hskips : c'.rest = [] :: after → ∀ next ∈ nextLine after, indent next ≤ i)
    (hsolve : solve pos c = .ok (parts', d)) :
    ∃ d', solve pos' c' = .ok (parts', d') ∧
      Inserted [] (BeforeBlanks after) d.rest d'.rest := by
  obtain ⟨read, blanks, rest, hsafe, hc, hc'⟩ := hat
  obtain ⟨hblanks, hrest, hafter⟩ := hsafe
  have hafter' : c'.rest = [] :: after := by
    rw [hc', ← hafter, List.append_assoc]
  have hnext : ∀ line ∈ rest.head?, indent line ≤ i := by
    rw [← nextLine_append hblanks hrest, hafter]
    exact hskips hafter'
  obtain ⟨read', left, e, rfl, he, hends⟩ := hloop.ends blanks
    (fun line hline => hblanks line (List.mem_append_right read hline)) hnext hc
  obtain ⟨rfl, rfl⟩ := Prod.mk.inj (Except.ok.inj (hsolve.symm.trans hends))
  refine ⟨c', hloop.stops fun line hline => ?_, .here ⟨read ++ read', left, rest, ?_, he, ?_⟩⟩
  · rw [hc'] at hline
    cases hline
    exact Nat.zero_le i
  · rw [List.append_assoc]
    exact ⟨hblanks, hrest, hafter⟩
  · rw [hc', List.append_assoc, List.append_assoc]

theorem inserted_of_eq {ls ls' : List Line} (h : ls = ls') : Inserted x Safe ls ls' := h ▸ .same ls

theorem harmless_blank {after : List Line} {P : Question F → Prop}
    (hP : ∀ q, P q → SkipsBlank after q) : Harmless F [] (BeforeBlanks after) P where
  collect hat base index index' := by
    obtain ⟨blanks, blanks', rest, hblanks, hblanks', rfl, rfl⟩ := blanks_of_atLine hat
    obtain ⟨hlines, hrest⟩ := collect_blankLines hblanks hblanks' base index index'
    exact ⟨inserted_of_eq hlines, inserted_of_eq hrest⟩
  notElse := by
    rintro ls ls' base ⟨read, blanks, rest, -, -, rfl⟩ - hends
    exact absurd (hends [] rfl).1 (by decide)
  block hat _ _ _ hops := by
    obtain ⟨blanks, blanks', rest, hblanks, hblanks', hc, hc'⟩ := blanks_of_atLine hat
    obtain ⟨d', hd', hrest⟩ := block_blankLines hblanks hblanks' hc hc' hops
    exact ⟨d', hd', inserted_of_eq hrest.symm⟩
  whileLines {c c' i pos pos' parts} hat hq _ _ hparts :=
    isLoop_blank (isLoop_while parts) hat (hP _ hq i rfl) hparts
  matchLines {c c' i pos pos' parts} hat hq _ _ hparts :=
    isLoop_blank (isLoop_match parts) hat (hP _ hq i rfl) hparts
  dsl hat _ _ hresult := by
    obtain ⟨blanks, blanks', rest, hblanks, hblanks', hc, hc'⟩ := blanks_of_atLine hat
    exact dsl_blankLines hblanks hblanks' hc hc' hresult

/-! ### A comment -/

section
variable {comment : Line} {after : List Line}

/-- Where the comment is read by a loop that goes on, it is as if it were not there. -/
theorem isLoop_comment {α : Type} {i : Nat} {parts parts' : α}
    {solve : SourcePosition → Cursor → Parse (α × Cursor)} (hloop : IsLoop i parts solve)
    {c c' d : Cursor} {pos pos' : SourcePosition}
    (hat : AtLine comment (BeforeNext comment after) c.rest c'.rest)
    (hcomment : i < indent comment → solve pos' c' = solve pos' c'.next)
    (hgoesOn : c'.rest = comment :: after → i < indent comment →
      ∀ line ∈ after.takeWhile isBlank, i < indent line)
    (hsolve : solve pos c = .ok (parts', d)) :
    ∃ d', solve pos' c' = .ok (parts', d') ∧
      Inserted comment (BeforeNext comment after) d.rest d'.rest := by
  obtain ⟨read, blanks, rest, ⟨hblanks, hnext, hafter⟩, hc, hc'⟩ := hat
  obtain ⟨next, more, rfl, hnextBlank, hindent, helse⟩ := hnext
  by_cases hdeep : i < indent comment
  · have hall : ∀ line ∈ read ++ blanks, isBlank line = true ∧ i < indent line := by
      intro line hline
      have hlines := hafter (List.ne_nil_of_mem hline)
      have hread : c'.rest = comment :: after := by
        rw [hc', ← hlines, List.append_assoc]
      refine ⟨hblanks line hline, hgoesOn hread hdeep line ?_⟩
      rw [← hlines, List.takeWhile_append_of_pos hblanks]
      exact List.mem_append_left _ hline
    obtain ⟨e, he, hthrough⟩ := hloop.through blanks
      (fun line hline => hall line (List.mem_append_right read hline)) hc
    obtain ⟨e', he', hthrough'⟩ := hloop.through (read ++ blanks) hall
      (by rw [Cursor.next_rest, hc', List.tail_cons, List.append_assoc] : c'.next.rest = _)
    obtain ⟨d', hd', hrest⟩ := hloop.shift (he.trans he'.symm) ((hthrough pos).symm.trans hsolve)
    exact ⟨d', (hcomment hdeep).trans ((hthrough' pos').trans hd'), inserted_of_eq hrest.symm⟩
  · have hle := Nat.le_of_not_lt hdeep
    obtain ⟨read', left, e, rfl, he, hends⟩ := hloop.ends blanks
      (fun line hline => hblanks line (List.mem_append_right read hline))
      (fun line hline => by cases hline; exact hindent ▸ hle) hc
    obtain ⟨rfl, rfl⟩ := Prod.mk.inj (Except.ok.inj (hsolve.symm.trans hends))
    have hsafe : BeforeNext comment after ((read ++ read') ++ left) (next :: more) := by
      rw [List.append_assoc]
      exact ⟨hblanks, ⟨next, more, rfl, hnextBlank, hindent, helse⟩, hafter⟩
    refine ⟨c', hloop.stops fun line hline => ?_,
      .here ⟨read ++ read', left, next :: more, hsafe, he, ?_⟩⟩
    · rw [hc'] at hline
      cases hline
      exact hle
    · rw [hc', List.append_assoc, List.append_assoc]

theorem collect_comment (hcomment : isComment comment = true) {ls ls' : List Line}
    (hat : AtLine comment (BeforeNext comment after) ls ls') :
    CollectAlike (Inserted comment (BeforeNext comment after)) ls ls' := by
  intro base index index'
  obtain ⟨read, blanks, rest, ⟨hblanks, hnext, hafter⟩, rfl, rfl⟩ := hat
  obtain ⟨next, more, rfl, hnextBlank, hindent, helse⟩ := hnext
  have hsafe (more : List Line) : BeforeNext comment after [] (next :: more) :=
    ⟨List.forall_mem_nil _, ⟨next, more, rfl, hnextBlank, hindent, helse⟩, fun h => absurd rfl h⟩
  obtain ⟨j, hlines⟩ := @collectLines_blanks base index blanks (next :: more)
    fun line hline => hblanks line (List.mem_append_right read hline)
  have hfull : isBlank comment ≠ true := by
    rw [isBlank_of_isComment hcomment]
    exact Bool.false_ne_true
  rw [hlines, collectLines, if_neg (by rw [hnextBlank]; exact Bool.false_ne_true)]
  rw [collectLines, if_neg hfull, hindent]
  split_ifs with hdedent
  · refine ⟨.same [], .here ⟨read ++ blanks, [], next :: more, ?_, rfl, ?_⟩⟩
    · rw [List.append_nil]
      exact ⟨hblanks, ⟨next, more, rfl, hnextBlank, hindent, helse⟩, hafter⟩
    · rw [List.nil_append, List.append_assoc]
  · obtain ⟨j', hlines'⟩ := @collectLines_blanks base (index' + 1) (read ++ blanks) (next :: more)
      hblanks
    rw [List.append_assoc] at hlines'
    rw [hlines', collectLines, if_neg (by rw [hnextBlank]; exact Bool.false_ne_true),
      if_neg hdedent]
    obtain ⟨hsame, hrest⟩ := collectAlike_eq more base (j + 1) (j' + 1)
    dsimp only
    rw [hsame, hrest]
    exact ⟨.here ⟨[], [], _, hsafe _, rfl, rfl⟩, .same _⟩

theorem harmless_comment (hcomment : isComment comment = true) {P : Question F → Prop}
    (hP : ∀ q, P q → SkipsComment comment after q) :
    Harmless F comment (BeforeNext comment after) P where
  collect := collect_comment hcomment
  notElse := by
    rintro ls ls' base ⟨read, blanks, rest, ⟨hblanks, ⟨next, more, rfl, -, -, helse⟩, -⟩, rfl, rfl⟩
      hls -
    refine .inr ⟨fun line hline => ?_, fun line hline => ?_⟩
    · cases blanks with
      | nil =>
        cases hline
        exact helse
      | cons blank blanks =>
        have hfull := (hls blank rfl).1
        rw [hblanks blank (List.mem_append_right read List.mem_cons_self)] at hfull
        cases hfull
    · cases hline
      exact trim_ne_of_isComment hcomment (by decide)
  block {c c' base pos pos'} hat hq ops d hops := by
    have hskips := hP _ hq
    obtain ⟨read, blanks, rest, ⟨hblanks, hnext, hafter⟩, hc, hc'⟩ := hat
    have hblanks' : ∀ line ∈ blanks, isBlank line = true :=
      fun line hline => hblanks line (List.mem_append_right read hline)
    by_cases hdeep : base < indent comment
    · have hcolon := hskips.noHeader (by rw [Question.cursor, hc']; rfl) hdeep
      obtain ⟨d', hd', hrest⟩ := block_blankLines hblanks' hblanks hc
        (by rw [Cursor.next_rest, hc', List.tail_cons, List.append_assoc] : c'.next.rest = _) hops
      refine ⟨d', ?_, inserted_of_eq hrest.symm⟩
      exact (solveBlock_comment hc' hcomment hcolon hdeep).trans hd'
    · obtain ⟨next, more, rfl, hnextBlank, hindent, helse⟩ := hnext
      have hle := Nat.le_of_not_lt hdeep
      obtain ⟨e, he, hsolve⟩ := solveBlock_blankLines (F := F) blanks hblanks' hc
      rw [hsolve, solveBlock_dedent he hnextBlank (hindent ▸ hle)] at hops
      cases hops
      refine ⟨c', solveBlock_dedent hc' (isBlank_of_isComment hcomment) hle, ?_⟩
      rw [he, hc', ← List.append_assoc]
      exact .here ⟨read ++ blanks, [], next :: more, by
        rw [List.append_nil]
        exact ⟨hblanks, ⟨next, more, rfl, hnextBlank, hindent, helse⟩, hafter⟩, rfl, rfl⟩
  whileLines {c c' i pos pos' parts} hat hq _ _ hparts := by
    have hskips := hP _ hq
    have hline : c'.rest.head? = some comment := by
      obtain ⟨read, blanks, rest, -, -, hc'⟩ := hat
      rw [hc']
      rfl
    obtain ⟨ls, hc'⟩ := List.head?_eq_some_iff.mp hline
    refine isLoop_comment (isLoop_while parts) hat (fun hdeep => ?_) (hskips.goesOn i rfl) hparts
    exact solveWhileLines_comment hc' hcomment (hskips.noHeader hline hdeep) hdeep
  matchLines {c c' i pos pos' parts} hat hq _ _ hparts := by
    obtain ⟨ls, hc'⟩ : ∃ ls, c'.rest = comment :: ls := by
      obtain ⟨read, blanks, rest, -, -, hc'⟩ := hat
      exact ⟨_, hc'⟩
    exact isLoop_comment (isLoop_match parts) hat (solveMatchLines_comment hc' hcomment)
      ((hP _ hq).goesOn i rfl) hparts
  dsl {c c' state} hat hq result hresult := by
    have hskips := hP _ hq
    obtain ⟨read, blanks, rest, ⟨hblanks, -⟩, hc, hc'⟩ := hat
    have hline : c'.rest.head? = some comment := by
      rw [hc']
      rfl
    obtain ⟨hgovernance, htemplate⟩ := hskips.outside c' state rfl hline
    rw [solveDsl_comment hc' hcomment (hskips.noHeader hline trivial) hgovernance htemplate]
    exact dsl_blankLines (fun line hline => hblanks line (List.mem_append_right read hline)) hblanks
      hc (by rw [Cursor.next_rest, hc', List.tail_cons, List.append_assoc]) hresult

end

/-! ## Sources -/

/-- An empty line, or a comment that is indented like the next line with something in it. -/
def IsRemark (line : Line) (after : List Line) : Prop :=
  line = [] ∨ isComment line = true ∧ ∃ next ∈ nextLine after, indent line = indent next

/-- Wherever a remark is put in, what is read stays the same. -/
def Insignificant (F : Type) [Number F] (source : String) : Prop :=
  ∀ source' before line after, sourceLines source = before ++ after →
    sourceLines source' = before ++ line :: after → IsRemark line after →
    ∀ result : List (Op F) × LifecycleConfig F,
      parseDsl source = .ok result → parseDsl source' = .ok result

/-- The remark is skipped wherever the parser meets it, and no `else:` follows a comment. -/
structure Skipped (F : Type) [Number F] (source' : String) (line : Line) (after : List Line) :
    Prop where
  blank (h : line = []) {q : Question F} (hq : parser.Reaches (program source') q) :
    SkipsBlank after q
  comment (h : isComment line = true) {q : Question F} (hq : parser.Reaches (program source') q) :
    SkipsComment line after q
  noElse (h : isComment line = true) : ∀ next ∈ nextLine after, trim next ≠ "else:".toList

section
variable {source source' : String} {line : Line} {before after : List Line}
  {result : List (Op F) × LifecycleConfig F}

omit [Number F] in
theorem inserted_append {ls ls' : List Line} (h : Inserted x Safe ls ls') (before : List Line) :
    Inserted x Safe (before ++ ls) (before ++ ls') := by
  induction before with
  | nil => exact h
  | cons line before ih => exact .cons line ih

theorem Harmless.parseDsl_eq_ok {P : Question F → Prop} (h : Harmless F line Safe P)
    (hP : ∀ q p, P q → parser.Asks q p → P p) (hprogram : P (program source'))
    (hbefore : sourceLines source = before ++ after)
    (hline : sourceLines source' = before ++ line :: after)
    (hat : AtLine line Safe after (line :: after)) (hresult : parseDsl source = .ok result) :
    parseDsl source' = .ok result := by
  refine h.solveDsl_eq_ok hP ?_ hprogram hresult
  show Inserted line Safe (sourceLines source) (sourceLines source')
  rw [hbefore, hline]
  exact inserted_append (.here hat) before

omit [Number F] in
/-- What follows the place of a remark: blank lines, and a line with something in it. -/
theorem exists_blanks (after : List Line) : ∃ blanks rest, after = blanks ++ rest ∧
    (∀ line ∈ blanks, isBlank line = true) ∧ (∀ next ∈ rest.head?, isBlank next = false) ∧
    nextLine after = rest.head? := by
  have hblanks : ∀ line ∈ after.takeWhile isBlank, isBlank line = true :=
    fun _ hline => List.mem_takeWhile_imp hline
  have hrest : ∀ next ∈ (after.dropWhile isBlank).head?, isBlank next = false := by
    intro next hnext
    have hhead := List.head?_dropWhile_not isBlank after
    rwa [Option.mem_def.mp hnext] at hhead
  refine ⟨after.takeWhile isBlank, after.dropWhile isBlank, ?_, hblanks, hrest, ?_⟩
  · rw [List.takeWhile_append_dropWhile]
  · rw [← nextLine_append hblanks hrest, List.takeWhile_append_dropWhile]

theorem parseDsl_of_skipped (hbefore : sourceLines source = before ++ after)
    (hline : sourceLines source' = before ++ line :: after) (hremark : IsRemark line after)
    (h : Skipped F source' line after) (hresult : parseDsl source = .ok result) :
    parseDsl source' = .ok result := by
  have hreaches : ∀ q p : Question F, parser.Reaches (program source') q → parser.Asks q p →
      parser.Reaches (program source') p := fun _ _ hq hasks => hq.tail hasks
  obtain ⟨blanks, rest, rfl, hblanks, hrest, hnext⟩ := exists_blanks after
  rcases hremark with rfl | ⟨hcomment, next, hmem, hindent⟩
  · have hharmless := harmless_blank fun q hq => h.blank rfl hq
    refine hharmless.parseDsl_eq_ok hreaches .refl hbefore hline ?_ hresult
    exact ⟨[], blanks, rest, ⟨hblanks, hrest, rfl⟩, rfl, rfl⟩
  · have hharmless := harmless_comment hcomment fun q hq => h.comment hcomment hq
    refine hharmless.parseDsl_eq_ok hreaches .refl hbefore hline ?_ hresult
    have helse := h.noElse hcomment next hmem
    rw [hnext] at hmem
    obtain ⟨more, hmore⟩ := List.head?_eq_some_iff.mp hmem
    exact ⟨[], blanks, rest, ⟨hblanks, ⟨next, more, hmore, hrest next hmem, hindent, helse⟩,
      fun _ => rfl⟩, rfl, rfl⟩

/-- A comment that is taken for a header, as deep as a line. -/
def headerComment (next : Line) : Line := indented (indent next) "#:".toList

omit [Number F] in
theorem trim_headerComment (next : Line) : trim (headerComment next) = "#:".toList :=
  (Text.trim_spaces_append _ _).trans (by decide)

omit [Number F] in
theorem indent_headerComment (next : Line) : indent (headerComment next) = indent next :=
  Text.indent_spaces_append _ (by decide : Text.isWhitespace '#' = false) ":".toList

omit [Number F] in
theorem isLine_headerComment (next : Line) : Text.IsLine '\n' '\r' (headerComment next) where
  noFeed hmem := by
    rcases List.mem_append.mp hmem with hmem | hmem
    · exact absurd (List.eq_of_mem_replicate hmem) (by decide)
    · exact absurd hmem (by decide)
  noReturn hlast := by
    rw [headerComment, indented, List.getLast?_append_of_ne_nil _ (by decide)] at hlast
    exact absurd hlast (by decide)

theorem solveDsl_headerComment (next : Line) (ls : List Line) :
    (solveDsl ⟨0, headerComment next :: ls⟩ .start : Parse (List (Op F) × _)) =
      fail (.unknownBlockType "#:" ⟨1, indent (headerComment next) + 1⟩) := by
  have htrim := trim_headerComment next
  have hblank : ¬ isBlank (headerComment next) = true := by
    rw [isBlank_eq_false (by rw [htrim]; decide)]
    exact Bool.false_ne_true
  have hdirective : ¬ IsDirective (DslState.start : DslState F) "#:".toList :=
    not_isDirective_of_head rfl rfl rfl (by decide : '#' ≠ 't') (by decide)
  have hread : readDirective ⟨1, indent (headerComment next) + 1⟩ (DslState.start : DslState F)
      "#:".toList = .ok none := readDirective_eq_none.mpr hdirective
  rw [solveDsl_eq, dslLoop_cons rfl, if_neg hblank, Rec.eval_bind, Rec.eval_ofExcept, htrim, hread,
    ok_bind]
  dsimp only
  rw [Rec.eval_bind, parseTopLine, htrim]
  rfl

theorem insignificant_iff_isBlank (hresult : parseDsl source = .ok result) :
    Insignificant F source ↔ ∀ line ∈ sourceLines source, isBlank line = true := by
  constructor
  · intro h
    obtain ⟨blanks, rest, hlines, hblanks, hrest, hnext⟩ := exists_blanks (sourceLines source)
    cases hmore : rest with
    | nil =>
      rw [hmore, List.append_nil] at hlines
      rwa [hlines]
    | cons next more =>
      rw [hmore] at hnext
      -- the first line would be the comment
      have hline : sourceLines (String.ofList (headerComment next ++ '\n' :: source.toList)) =
          headerComment next :: sourceLines source := by
        rw [sourceLines, String.toList_ofList]
        exact Text.lines_append (isLine_headerComment next) source.toList
      have hremark : IsRemark (headerComment next) (sourceLines source) := by
        refine .inr ⟨?_, next, hnext, indent_headerComment next⟩
        rw [isComment, trim_headerComment]
        decide
      have hsame := h _ [] _ _ rfl hline hremark result hresult
      change solveDsl ⟨0, sourceLines _⟩ .start = _ at hsame
      rw [hline, solveDsl_headerComment] at hsame
      cases hsame
  · rintro hblank source' before line after hbefore hline hremark other hother
    rw [hbefore, List.forall_mem_append] at hblank
    have hblank' : ∀ line ∈ sourceLines source', isBlank line = true := by
      rw [hline, List.forall_mem_append, List.forall_mem_cons]
      refine ⟨hblank.1, ?_, hblank.2⟩
      rcases hremark with rfl | ⟨-, next, hnext, -⟩
      · rfl
      · have hfull := List.find?_some hnext
        rw [hblank.2 next (List.mem_of_find?_eq_some hnext)] at hfull
        cases hfull
    rw [← List.forall_mem_append, ← hbefore] at hblank
    exact dsl_blankLines hblank hblank' (List.append_nil _).symm (List.append_nil _).symm hother

/-- Only in blank sources does no remark change what is read; a remark that is skipped does not. -/
theorem insignificant_iff (hresult : parseDsl source = .ok result) :
    (Insignificant F source ↔ ∀ line ∈ sourceLines source, isBlank line = true) ∧
      ∀ source' before line after, sourceLines source = before ++ after →
        sourceLines source' = before ++ line :: after → IsRemark line after →
        Skipped F source' line after → parseDsl source' = .ok result :=
  ⟨insignificant_iff_isBlank hresult, fun _ _ _ _ hbefore hline hremark hskipped =>
    parseDsl_of_skipped hbefore hline hremark hskipped hresult⟩

end

/-! ### An empty line in a `while:` -/

def popAndDup : String := "while:\n    pop\n    dup"

theorem parseDsl_popAndDup :
    parseDsl popAndDup = .ok ([(.whileOp [.pop] [.dup] : Op Binary64)], .default) :=
  rfl

theorem insignificant_iff_popAndDup :
    (Insignificant Binary64 popAndDup ↔ ∀ line ∈ sourceLines popAndDup, isBlank line = true) ∧
      ∀ source' before line after, sourceLines popAndDup = before ++ after →
        sourceLines source' = before ++ line :: after → IsRemark line after →
        Skipped Binary64 source' line after →
        parseDsl source' = .ok ([(.whileOp [.pop] [.dup] : Op Binary64)], .default) :=
  insignificant_iff parseDsl_popAndDup

/-- The `dup` is no part of the block any more. -/
theorem not_insignificant_popAndDup : ¬ Insignificant Binary64 popAndDup := by
  intro h
  have hread : parseDsl "while:\n    pop\n\n    dup" =
      .ok ([(.whileOp [.pop] [] : Op Binary64), .dup], .default) := rfl
  have hsame := h "while:\n    pop\n\n    dup" ["while:".toList, "    pop".toList] []
    ["    dup".toList] rfl rfl (.inl rfl) _ parseDsl_popAndDup
  cases hread.symm.trans hsame

end Covm.Compiler
