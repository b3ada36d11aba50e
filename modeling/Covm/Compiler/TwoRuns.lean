import Covm.Compiler.Positions

/-!
# Two runs of the parser

Two runs on lines related by `S` are compared call by call. Where both stand at the same line they
do the same (`sameHead`), as long as the lines collected for a block stay related and both see an
`else:` or both do not.
-/

namespace Covm.Compiler

open Partial
open Text (trim indent isBlank)

variable {F : Type} (S : List Line → List Line → Prop)

/-- Two questions that differ in positions and in the lines before them, about lines related by
`S`. -/
inductive Question.Alike : Question F → Question F → Prop
  | block {c c' : Cursor} (baseIndent : Nat) (pos pos' : SourcePosition) (h : S c.rest c'.rest) :
    Alike (.block c baseIndent pos) (.block c' baseIndent pos')
  | nested (kind : BlockKind) {c c' : Cursor} {line : Line} {ls ls' : List Line}
      (pos pos' : SourcePosition) (hc : c.rest = line :: ls) (hc' : c'.rest = line :: ls')
      (h : S ls ls') : Alike (.nested kind c pos) (.nested kind c' pos')
  | whileLines {c c' : Cursor} (currentIndent : Nat) (pos pos' : SourcePosition)
      (parts : WhileParts F) (h : S c.rest c'.rest) :
    Alike (.whileLines c currentIndent pos parts) (.whileLines c' currentIndent pos' parts)
  | matchLines {c c' : Cursor} (currentIndent : Nat) (pos pos' : SourcePosition)
      (parts : MatchParts F) (h : S c.rest c'.rest) :
    Alike (.matchLines c currentIndent pos parts) (.matchLines c' currentIndent pos' parts)
  | dsl {c c' : Cursor} (state : DslState F) (h : S c.rest c'.rest) :
    Alike (.dsl c state) (.dsl c' state)

/-- The same result, and cursors at related lines. -/
def Agree {α : Type} (r r' : α × Cursor) : Prop := r.1 = r'.1 ∧ S r.2.rest r'.2.rest

def Question.Agree : (q q' : Question F) → Answer F q → Answer F q' → Prop
  | .block .., .block .., r, r' => Compiler.Agree S r r'
  | .nested .., .nested .., r, r' => Compiler.Agree S r r'
  | .whileLines .., .whileLines .., r, r' => Compiler.Agree S r r'
  | .matchLines .., .matchLines .., r, r' => Compiler.Agree S r r'
  | .dsl .., .dsl .., r, r' => r = r'
  | _, _, _, _ => False

variable [Number F]

/-- The second computation asks and returns what the first one does, up to `S`. -/
def Parser.Follows {α β : Type} (T : α → β → Prop) (x : Parser F α) (y : Parser F β) : Prop :=
  Rec.Follows (Question.Alike S)
    (fun p p' r r' => parser.solve p = .ok r ∧ parser.solve p' = .ok r' ∧
      Question.Agree S p p' r r') T x y

abbrev Parser.Alike {α : Type} (x y : Parser F (α × Cursor)) : Prop :=
  Parser.Follows S (Compiler.Agree S) x y

variable {S} {α β : Type}

theorem alike_pure {a : α} {c c' : Cursor} (h : S c.rest c'.rest) :
    Parser.Alike S (pure (a, c) : Parser F _) (pure (a, c')) := ⟨rfl, h⟩

theorem alike_bind {x x' : Parser F (α × Cursor)} {f f' : α × Cursor → Parser F (β × Cursor)}
    (hx : Parser.Alike S x x') (hf : ∀ a c c', S c.rest c'.rest →
      Parser.Alike S (f (a, c)) (f' (a, c'))) : Parser.Alike S (x >>= f) (x' >>= f') :=
  Rec.Follows.bind hx fun ⟨a, c⟩ ⟨a', c'⟩ ⟨ha, hS⟩ => by
    obtain rfl : a = a' := ha
    exact hf a c c' hS

theorem follows_ofExcept_bind {T : β → β → Prop} {x x' : Parse α} {f f' : α → Parser F β}
    (h : x.toOption = x'.toOption) (hf : ∀ a, x = .ok a → Parser.Follows S T (f a) (f' a)) :
    Parser.Follows S T (Rec.ofExcept x >>= f) (Rec.ofExcept x' >>= f') := by
  cases x with
  | ok a =>
    obtain rfl : x' = .ok a := ok_of_toOption h rfl
    exact hf a rfl
  | error e => trivial

section
variable {c c' : Cursor} {pos pos' : SourcePosition}

theorem alike_parseBlock {baseIndent : Nat} (h : S c.rest c'.rest) :
    Parser.Alike S (parseBlock c baseIndent pos : Parser F _) (parseBlock c' baseIndent pos') :=
  ⟨.block baseIndent pos pos' h, fun _ _ hr => hr.2.2⟩

theorem alike_parseWhileLines {currentIndent : Nat} {parts : WhileParts F}
    (h : S c.rest c'.rest) : Parser.Alike S (parseWhileLines c currentIndent pos parts)
      (parseWhileLines c' currentIndent pos' parts) :=
  ⟨.whileLines currentIndent pos pos' parts h, fun _ _ hr => hr.2.2⟩

theorem alike_parseMatchLines {currentIndent : Nat} {parts : MatchParts F}
    (h : S c.rest c'.rest) : Parser.Alike S (parseMatchLines c currentIndent pos parts)
      (parseMatchLines c' currentIndent pos' parts) :=
  ⟨.matchLines currentIndent pos pos' parts h, fun _ _ hr => hr.2.2⟩

theorem follows_parseDslLines {state : DslState F} (h : S c.rest c'.rest) :
    Parser.Follows S Eq (parseDslLines c state) (parseDslLines c' state) :=
  ⟨.dsl state h, fun _ _ hr => hr.2.2⟩

end

/-! ### At the same line -/

section
variable {c c' : Cursor} {pos pos' : SourcePosition} {line : Line} {ls ls' : List Line}
  (hc : c.rest = line :: ls) (hc' : c'.rest = line :: ls') (hls : S ls ls')
include hc hc' hls

theorem alike_parseNested {kind : BlockKind} :
    Parser.Alike S (parseNested kind c pos : Parser F _) (parseNested kind c' pos') :=
  ⟨.nested kind pos pos' hc hc' hls, fun _ _ hr => hr.2.2⟩

theorem next_alike : S c.next.rest c'.next.rest := by
  simpa [hc, hc'] using hls

theorem alike_parseStatement : Parser.Alike S (parseStatement c line pos : Parser F _)
    (parseStatement c' line pos') :=
  follows_ofExcept_bind (toOption_parseLine line pos pos') fun _ _ =>
    alike_pure (next_alike hc hc' hls)

omit hls in
theorem alike_lineAt_bind {f f' : Line → Parser F (α × Cursor)}
    (hf : Parser.Alike S (f line) (f' line)) :
    Parser.Alike S (lineAt c >>= f) (lineAt c' >>= f') := by
  unfold lineAt
  rw [hc, hc']
  exact hf

theorem alike_parseLoopBlock :
    Parser.Alike S (parseLoopBlock c pos : Parser F _) (parseLoopBlock c' pos') := by
  refine alike_lineAt_bind hc hc' ?_
  refine follows_ofExcept_bind (toOption_parseLoopHeader line pos pos') fun count _ => ?_
  exact alike_bind (alike_parseBlock (next_alike hc hc' hls)) fun body d d' h => alike_pure h

theorem alike_parseFunctionBlock :
    Parser.Alike S (parseFunctionBlock c pos : Parser F _) (parseFunctionBlock c' pos') := by
  refine alike_lineAt_bind hc hc' ?_
  refine follows_ofExcept_bind (toOption_parseFunctionHeader line pos pos') fun header _ => ?_
  exact alike_bind (alike_parseBlock (next_alike hc hc' hls)) fun body d d' h => alike_pure h

theorem alike_parseWhileBlock :
    Parser.Alike S (parseWhileBlock c pos : Parser F _) (parseWhileBlock c' pos') := by
  refine alike_lineAt_bind hc hc' ?_
  exact alike_bind (alike_parseWhileLines (next_alike hc hc' hls)) fun parts d d' h => alike_pure h

theorem alike_parseMatchBlock :
    Parser.Alike S (parseMatchBlock c pos : Parser F _) (parseMatchBlock c' pos') := by
  refine alike_lineAt_bind hc hc' ?_
  refine alike_bind (alike_parseMatchLines (next_alike hc hc' hls)) fun parts d d' h => ?_
  dsimp only
  split_ifs
  · trivial
  · exact alike_pure h

end

/-- Both runs see the same line, or neither sees an `else:`. -/
def ElseAlike (S : List Line → List Line → Prop) (ls ls' : List Line) : Prop :=
  (∃ line rest rest', ls = line :: rest ∧ ls' = line :: rest' ∧ S rest rest') ∨
    (∀ line ∈ ls.head?, trim line ≠ "else:".toList) ∧
      ∀ line ∈ ls'.head?, trim line ≠ "else:".toList

section
variable {c c' : Cursor} {pos pos' : SourcePosition} {line : Line} {ls ls' : List Line}

omit [Number F] in
theorem parseElse_of_no_else {currentIndent : Nat} {thenOps : List (Op F)}
    (h : ∀ line ∈ c.rest.head?, trim line ≠ "else:".toList) :
    parseElse currentIndent pos thenOps c = pure (.ifOp [] thenOps none, c) := by
  obtain ⟨index, lines⟩ := c
  cases lines with
  | nil => rfl
  | cons elseLine rest => exact if_neg (h elseLine rfl)

theorem alike_parseElse {currentIndent : Nat} {thenOps : List (Op F)} (hS : S c.rest c'.rest)
    (helse : ElseAlike S c.rest c'.rest) : Parser.Alike S (parseElse currentIndent pos thenOps c)
      (parseElse currentIndent pos' thenOps c') := by
  rcases helse with ⟨line, rest, rest', hc, hc', hrest⟩ | ⟨hno, hno'⟩
  · unfold parseElse
    rw [hc, hc']
    dsimp only
    split_ifs
    · have hnext : S c.next.rest c'.next.rest := next_alike hc hc' hrest
      exact alike_bind (alike_parseBlock hnext) fun elseOps d d' h => alike_pure h
    · exact alike_pure hS
  · rw [parseElse_of_no_else hno, parseElse_of_no_else hno']
    exact alike_pure hS

theorem alike_parseIfBlock (hc : c.rest = line :: ls) (hc' : c'.rest = line :: ls')
    (hls : S ls ls') (helse : ∀ (thenOps : List (Op F)) d d',
      solveBlock c.next (indent line) pos = .ok (thenOps, d) →
      solveBlock c'.next (indent line) pos' = .ok (thenOps, d') →
      S d.rest d'.rest → ElseAlike S d.rest d'.rest) :
    Parser.Alike S (parseIfBlock c pos : Parser F _) (parseIfBlock c' pos') := by
  refine alike_lineAt_bind hc hc' ?_
  have hthen : Parser.Follows S (fun r r' => ElseAlike S r.2.rest r'.2.rest ∧ Agree S r r')
      (parseBlock c.next (indent line) pos : Parser F _)
      (parseBlock c'.next (indent line) pos') := by
    refine ⟨.block (indent line) pos pos' (next_alike hc hc' hls), ?_⟩
    rintro ⟨thenOps, d⟩ ⟨thenOps', d'⟩ ⟨hr, hr', hops, hd⟩
    obtain rfl : thenOps = thenOps' := hops
    exact ⟨helse thenOps d d' hr hr' hd, rfl, hd⟩
  refine Rec.Follows.bind hthen ?_
  rintro ⟨thenOps, d⟩ ⟨thenOps', d'⟩ ⟨helse, hops, hd⟩
  obtain rfl : thenOps = thenOps' := hops
  exact alike_parseElse hd helse

end

/-- What is collected from related lines. -/
def CollectAlike (S : List Line → List Line → Prop) (ls ls' : List Line) : Prop :=
  ∀ baseIndent index index',
    S (collectLines baseIndent index ls).1 (collectLines baseIndent index' ls').1 ∧
      S (collectLines baseIndent index ls).2.rest (collectLines baseIndent index' ls').2.rest

section
variable {c c' : Cursor} {pos pos' : SourcePosition} {line : Line} {ls ls' : List Line}
  (hc : c.rest = line :: ls) (hc' : c'.rest = line :: ls') (hls : S ls ls')
include hc hc' hls

omit hls in
theorem alike_parseCollected (hcollect : CollectAlike S ls ls') {f : List (Op F) → Op F}
    {baseIndent : Nat} : Parser.Alike S (parseCollected f c baseIndent pos)
      (parseCollected f c' baseIndent pos') := by
  have hnext : c.next.rest = ls := by simp [hc]
  have hnext' : c'.next.rest = ls' := by simp [hc']
  have hcollected := hcollect baseIndent c.next.index c'.next.index
  rw [← hnext, ← hnext'] at hcollected
  refine Rec.Follows.bind (alike_parseBlock hcollected.1) ?_
  rintro ⟨ops, d⟩ ⟨ops', d'⟩ ⟨hops, -⟩
  obtain rfl : ops = ops' := hops
  exact alike_pure hcollected.2

theorem alike_parseBlockHeader (hcollect : CollectAlike S ls ls') {baseIndent : Nat} :
    Parser.Alike S (parseBlockHeader c line baseIndent pos : Parser F _)
      (parseBlockHeader c' line baseIndent pos') := by
  unfold parseBlockHeader
  split
  · exact alike_parseNested hc hc' hls
  · split_ifs
    · exact alike_parseCollected hc hc' hcollect
    · exact alike_parseCollected hc hc' hcollect
    · trivial

theorem alike_parseBlockLines (hcollect : CollectAlike S ls ls')
    (hcons : S c.rest c'.rest) {baseIndent : Nat} :
    Parser.Alike S (parseBlockLines c baseIndent pos : Parser F _)
      (parseBlockLines c' baseIndent pos') := by
  unfold parseBlockLines
  rw [hc, hc']
  dsimp only
  split_ifs
  · exact alike_parseBlock (next_alike hc hc' hls)
  · exact alike_pure hcons
  · refine alike_bind (alike_parseBlockHeader hc hc' hls hcollect) fun op d d' h => ?_
    exact alike_bind (alike_parseBlock h) fun ops e e' h => alike_pure h
  · refine alike_bind (alike_parseStatement hc hc' hls) fun op d d' h => ?_
    exact alike_bind (alike_parseBlock h) fun ops e e' h => alike_pure h

theorem alike_parseWhileLine :
    Parser.Alike S (parseWhileLine c line pos : Parser F _) (parseWhileLine c' line pos') := by
  unfold parseWhileLine
  split_ifs
  · split
    · exact alike_parseNested hc hc' hls
    · trivial
  · exact alike_parseStatement hc hc' hls

theorem alike_whileLoop (hcons : S c.rest c'.rest) {currentIndent : Nat} {parts : WhileParts F} :
    Parser.Alike S (whileLoop c currentIndent pos parts)
      (whileLoop c' currentIndent pos' parts) := by
  unfold whileLoop
  rw [hc, hc']
  dsimp only
  split_ifs
  · exact alike_pure hcons
  · refine alike_bind (alike_parseBlock (next_alike hc hc' hls)) fun condition d d' h => ?_
    exact alike_parseWhileLines h
  · refine alike_bind (alike_parseWhileLine hc hc' hls) fun op d d' h => ?_
    exact alike_parseWhileLines h

theorem alike_matchLoop (hcons : S c.rest c'.rest) {currentIndent : Nat} {parts : MatchParts F} :
    Parser.Alike S (matchLoop c currentIndent pos parts)
      (matchLoop c' currentIndent pos' parts) := by
  unfold matchLoop
  rw [hc, hc']
  dsimp only
  split_ifs
  · exact alike_pure hcons
  · refine alike_bind (alike_parseBlock (next_alike hc hc' hls)) fun ops d d' h => ?_
    exact alike_parseMatchLines h
  · refine follows_ofExcept_bind (toOption_parseCaseValue line _ _) fun value _ => ?_
    refine alike_bind (alike_parseBlock (next_alike hc hc' hls)) fun ops d d' h => ?_
    exact alike_parseMatchLines h
  · refine alike_bind (alike_parseBlock (next_alike hc hc' hls)) fun ops d d' h => ?_
    exact alike_parseMatchLines h
  · refine alike_bind (alike_parseStatement hc hc' hls) fun op d d' h => ?_
    exact alike_parseMatchLines h

theorem alike_parseTopLine :
    Parser.Alike S (parseTopLine c line pos : Parser F _) (parseTopLine c' line pos') := by
  unfold parseTopLine
  split_ifs
  · split
    · exact alike_parseNested hc hc' hls
    · trivial
  · exact alike_parseStatement hc hc' hls

theorem follows_dslLoop {state : DslState F} :
    Parser.Follows S Eq (dslLoop c state) (dslLoop c' state) := by
  unfold dslLoop
  rw [hc, hc']
  dsimp only
  split_ifs
  · exact follows_parseDslLines (next_alike hc hc' hls)
  · refine follows_ofExcept_bind (toOption_readDirective (trim line) _ _ state) fun next _ => ?_
    cases next with
    | some state' => exact follows_parseDslLines (next_alike hc hc' hls)
    | none =>
      refine Rec.Follows.bind (alike_parseTopLine hc hc' hls) ?_
      rintro ⟨op, d⟩ ⟨op', d'⟩ ⟨hop, hd⟩
      obtain rfl : op = op' := hop
      refine Rec.Follows.bind (follows_parseDslLines hd) ?_
      rintro ⟨ops, config⟩ _ rfl
      exact Rec.follows_pure rfl

end

/-! ### At the same lines -/

section
variable {c c' : Cursor} {pos pos' : SourcePosition}

theorem alike_parseBlockLines_nil (hc : c.rest = []) (hc' : c'.rest = []) (hnil : S [] [])
    {baseIndent : Nat} : Parser.Alike S (parseBlockLines c baseIndent pos : Parser F _)
      (parseBlockLines c' baseIndent pos') := by
  unfold parseBlockLines
  rw [hc, hc']
  exact alike_pure (by rwa [hc, hc'])

theorem alike_whileLoop_nil (hc : c.rest = []) (hc' : c'.rest = []) (hnil : S [] [])
    {currentIndent : Nat} {parts : WhileParts F} : Parser.Alike S
      (whileLoop c currentIndent pos parts) (whileLoop c' currentIndent pos' parts) := by
  unfold whileLoop
  rw [hc, hc']
  exact alike_pure (by rwa [hc, hc'])

theorem alike_matchLoop_nil (hc : c.rest = []) (hc' : c'.rest = []) (hnil : S [] [])
    {currentIndent : Nat} {parts : MatchParts F} : Parser.Alike S
      (matchLoop c currentIndent pos parts) (matchLoop c' currentIndent pos' parts) := by
  unfold matchLoop
  rw [hc, hc']
  exact alike_pure (by rwa [hc, hc'])

theorem follows_dslLoop_nil (hc : c.rest = []) (hc' : c'.rest = []) {state : DslState F} :
    Parser.Follows S Eq (dslLoop c state) (dslLoop c' state) := by
  unfold dslLoop
  rw [hc, hc']
  exact Rec.follows_pure rfl

/-- A nested block at the same header, up to the `else:` of an `if:`. -/
theorem alike_parseNestedBlock {line : Line} {ls ls' : List Line} (hc : c.rest = line :: ls)
    (hc' : c'.rest = line :: ls') (hls : S ls ls') {kind : BlockKind}
    (helse : kind = .ifBlock → ∀ (thenOps : List (Op F)) d d',
      solveBlock c.next (indent line) pos = .ok (thenOps, d) →
      solveBlock c'.next (indent line) pos' = .ok (thenOps, d') →
      S d.rest d'.rest → ElseAlike S d.rest d'.rest) :
    Parser.Alike S (parseNestedBlock c pos kind : Parser F _) (parseNestedBlock c' pos' kind) := by
  cases kind with
  | ifBlock => exact alike_parseIfBlock hc hc' hls (helse rfl)
  | whileBlock => exact alike_parseWhileBlock hc hc' hls
  | functionBlock => exact alike_parseFunctionBlock hc hc' hls
  | matchBlock => exact alike_parseMatchBlock hc hc' hls
  | loopBlock => exact alike_parseLoopBlock hc hc' hls

end

theorem elseAlike_eq (ls : List Line) : ElseAlike Eq ls ls := by
  cases ls with
  | nil => exact .inr (by simp)
  | cons line rest => exact .inl ⟨line, rest, rest, rfl, rfl, rfl⟩

theorem collectAlike_eq (ls : List Line) : CollectAlike Eq ls ls := by
  intro baseIndent
  induction ls with
  | nil => simp [collectLines]
  | cons line ls ih =>
    intro index index'
    simp only [collectLines]
    split_ifs
    · exact ih _ _
    · simp
    · obtain ⟨hlines, hrest⟩ := ih (index + 1) (index' + 1)
      exact ⟨by simp [hlines], hrest⟩

theorem body_alike_eq {q q' : Question F} (h : Question.Alike Eq q q') :
    Parser.Follows Eq (Question.Agree Eq q q') (body q) (body q') := by
  cases h with
  | @block c c' baseIndent pos pos' h =>
    cases hc : c.rest with
    | nil => exact alike_parseBlockLines_nil hc (h ▸ hc) rfl
    | cons line ls => exact alike_parseBlockLines hc (h ▸ hc) rfl (collectAlike_eq ls) h
  | nested kind pos pos' hc hc' h =>
    exact alike_parseNestedBlock hc hc' h fun _ _ d d' _ _ hd => hd ▸ elseAlike_eq _
  | @whileLines c c' currentIndent pos pos' parts h =>
    cases hc : c.rest with
    | nil => exact alike_whileLoop_nil hc (h ▸ hc) rfl
    | cons line ls => exact alike_whileLoop hc (h ▸ hc) rfl h
  | @matchLines c c' currentIndent pos pos' parts h =>
    cases hc : c.rest with
    | nil => exact alike_matchLoop_nil hc (h ▸ hc) rfl
    | cons line ls => exact alike_matchLoop hc (h ▸ hc) rfl h
  | @dsl c c' state h =>
    cases hc : c.rest with
    | nil => exact follows_dslLoop_nil hc (h ▸ hc)
    | cons line ls => exact follows_dslLoop hc (h ▸ hc) rfl

/-- The answers do not depend on positions. -/
theorem solve_alike {q q' : Question F} (h : Question.Alike Eq q q') {r : Answer F q}
    (hr : parser.solve q = .ok r) :
    ∃ r', parser.solve q' = .ok r' ∧ Question.Agree Eq q q' r r' :=
  Recursion.solve_follows (P := fun _ => True) (fun _ _ _ _ => trivial)
    (fun _ q' _ _ hqq' => ⟨body q', Recursion.solve_eq q', fun _ _ => trivial, body_alike_eq hqq'⟩)
    trivial trivial h hr

theorem block_shift {c c' : Cursor} (h : c.rest = c'.rest) {baseIndent : Nat}
    {pos pos' : SourcePosition} {ops : List (Op F)} {d : Cursor}
    (hops : solveBlock c baseIndent pos = .ok (ops, d)) :
    ∃ d', solveBlock c' baseIndent pos' = .ok (ops, d') ∧ d'.rest = d.rest := by
  obtain ⟨⟨ops', d'⟩, hr', hops', hd⟩ :=
    solve_alike (.block (F := F) baseIndent pos pos' h) hops
  obtain rfl : ops = ops' := hops'
  exact ⟨d', hr', hd.symm⟩

theorem nested_shift {c c' : Cursor} (h : c.rest = c'.rest) (hne : c.rest ≠ [])
    {kind : BlockKind} {pos pos' : SourcePosition} {op : Op F} {d : Cursor}
    (hop : solveNested kind c pos = .ok (op, d)) :
    ∃ d', solveNested kind c' pos' = .ok (op, d') ∧ d'.rest = d.rest := by
  obtain ⟨line, ls, hc⟩ := List.exists_cons_of_ne_nil hne
  obtain ⟨⟨op', d'⟩, hr', hop', hd⟩ :=
    solve_alike (.nested (F := F) kind pos pos' hc (h ▸ hc) rfl) hop
  obtain rfl : op = op' := hop'
  exact ⟨d', hr', hd.symm⟩

end Covm.Compiler
