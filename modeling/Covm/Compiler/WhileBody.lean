import Covm.Compiler.ElseBranch

/-!
# The body of a `while:` (`while_block.rs`)

`parse_while_block` reads its lines in a loop of its own, which knows fewer statements than
`parse_block` and takes a blank line for the end of the block, unless white space puts it deeper than
the header. A body that `parse_block` accepts is the same body of a `while:` iff it gets by with what
the loop knows (`KnownToWhile`).
-/

namespace Covm.Compiler

open Partial
open Text (trim words indent isBlank)

variable {F : Type} [Number F] {c c' d e : Cursor} {pos pos' : SourcePosition} {line : Line}
  {ls : List Line} {base : Nat}

/-- The statements of a body that the loop of `parse_while_block` reads as `parse_block` does: none is
a `def`, an `if passed:` or an `else:`, and no line without white space is between them. Where a
nested block ends is decided by its own parser. -/
inductive KnownToWhile (F : Type) [Number F] (base : Nat) : List Line → Prop
  | blanks {ls : List Line} (h : ∀ line ∈ ls, isBlank line = true) : KnownToWhile F base ls
  | blank {line : Line} {ls : List Line} (hblank : isBlank line = true)
      (hindent : base < indent line) (h : KnownToWhile F base ls) : KnownToWhile F base (line :: ls)
  | statement {line : Line} {ls : List Line} (hblank : isBlank line = false)
      (hcolon : endsInColon (trim line) = false) (h : KnownToWhile F base ls) :
    KnownToWhile F base (line :: ls)
  | nested {line : Line} {ls : List Line} {kind : BlockKind} {c d : Cursor} {pos : SourcePosition}
      {op : Op F} (hblank : isBlank line = false) (hcolon : endsInColon (trim line) = true)
      (hkind : whileBlockKind (trim line) = some kind) (hc : c.rest = line :: ls)
      (hop : solveNested kind c pos = .ok (op, d)) (h : KnownToWhile F base d.rest) :
    KnownToWhile F base (line :: ls)

/-! ### One line -/

theorem eval_parseStatement (c : Cursor) (line : Line) (pos : SourcePosition) :
    (parseStatement c line pos : Parser F _).eval parser.solve =
      (do let op ← parseLine line pos; .ok (op, c.next)) := by
  unfold parseStatement
  rw [Rec.eval_bind, Rec.eval_ofExcept]
  rfl

theorem eval_parseWhileLine_statement (hcolon : endsInColon (trim line) = false) :
    (parseWhileLine c line pos : Parser F _).eval parser.solve =
      (do let op ← parseLine line pos; .ok (op, c.next)) := by
  rw [parseWhileLine, hcolon, if_neg Bool.false_ne_true, eval_parseStatement]

theorem eval_blockItem_statement (hcolon : endsInColon (trim line) = false) :
    (blockItem c line base pos : Parser F _).eval parser.solve =
      (do let op ← parseLine line pos; .ok (op, c.next)) := by
  rw [blockItem, hcolon, if_neg Bool.false_ne_true, eval_parseStatement]

theorem eval_parseWhileLine_nested {kind : BlockKind} (hcolon : endsInColon (trim line) = true)
    (hkind : whileBlockKind (trim line) = some kind) :
    (parseWhileLine c line pos : Parser F _).eval parser.solve = solveNested kind c pos := by
  rw [parseWhileLine, if_pos hcolon, hkind]
  exact eval_solveNested kind

theorem eval_blockItem_nested {kind : BlockKind} (hcolon : endsInColon (trim line) = true)
    (hkind : blockKind (trim line) = some kind) :
    (blockItem c line base pos : Parser F _).eval parser.solve = solveNested kind c pos := by
  rw [blockItem, if_pos hcolon, parseBlockHeader, hkind]
  exact eval_solveNested kind

theorem whileBlockKind_condition : whileBlockKind "condition:".toList = none := by
  decide

/-! ### The loop and `parse_block` -/

/-- A blank line that is deep enough is read as no operation. -/
theorem solveWhileLines_blank {parts : WhileParts F} (hc : c.rest = line :: ls)
    (hblank : isBlank line = true) (hindent : base < indent line) :
    solveWhileLines c base pos parts = solveWhileLines c.next base pos parts := by
  have htrim := Text.trim_of_isBlank hblank
  have hcolon : endsInColon (trim line) = false := by
    rw [htrim]
    rfl
  have hline : trim line ≠ "condition:".toList := by
    rw [htrim]
    decide
  rw [solveWhileLines_item hc hindent hline, eval_parseWhileLine_statement hcolon,
    parseLine_of_isBlank hblank, ok_bind, ok_bind]
  rfl

theorem solveBlock_blanks (hblank : ∀ line ∈ c.rest, isBlank line = true)
    {ops : List (Op F)} (h : solveBlock c base pos = .ok (ops, d)) : ops = [] := by
  induction hls : c.rest generalizing c with
  | nil =>
    rw [solveBlock_nil hls] at h
    cases h
    rfl
  | cons line ls ih =>
    rw [hls] at hblank
    have hnext : c.next.rest = ls := by rw [Cursor.next_rest, hls, List.tail_cons]
    rw [solveBlock_blank hls (hblank line List.mem_cons_self)] at h
    exact ih (fun other hother => hblank other (List.mem_cons_of_mem _ (hnext ▸ hother))) h hnext

theorem solveWhileLines_blanks {parts : WhileParts F}
    (hblank : ∀ line ∈ c.rest, isBlank line = true) :
    ∃ d, solveWhileLines c base pos parts = .ok (parts, d) ∧
      ∀ line ∈ d.rest, isBlank line = true := by
  induction hls : c.rest generalizing c with
  | nil =>
    refine ⟨c, solveWhileLines_nil hls, ?_⟩
    rwa [hls] at hblank ⊢
  | cons line ls ih =>
    by_cases hindent : base < indent line
    · have hnext : c.next.rest = ls := by rw [Cursor.next_rest, hls, List.tail_cons]
      rw [solveWhileLines_blank hls (hblank line (hls ▸ List.mem_cons_self)) hindent]
      refine ih (fun other hother => hblank other ?_) hnext
      rw [hls]
      exact List.mem_cons_of_mem _ (hnext ▸ hother)
    · exact ⟨c, solveWhileLines_dedent hls (Nat.le_of_not_lt hindent), hblank⟩

omit [Number F] in
theorem push_append (op : Op F) (body ops : List (Op F)) :
    push op body ++ ops = body ++ pushFront op ops := by
  unfold push pushFront
  split_ifs
  · rfl
  · rw [List.append_assoc, List.singleton_append]

/-- A line of a block that is parsed to the end is deeper than the block. -/
theorem indent_lt_of_consumed {ops : List (Op F)} (hc : c.rest = line :: ls)
    (hblank : isBlank line = false) (h : solveBlock c base pos = .ok (ops, d)) (hd : d.rest = []) :
    base < indent line := by
  by_contra hdedent
  rw [solveBlock_dedent hc hblank (Nat.le_of_not_lt hdedent)] at h
  cases h
  rw [hc] at hd
  cases hd

/-- The operations of a block that is parsed to the end: those of the line and of what follows. -/
theorem consumed_cases {ops : List (Op F)} (hc : c.rest = line :: ls)
    (hblank : isBlank line = false) (h : solveBlock c base pos = .ok (ops, d)) (hd : d.rest = []) :
    ∃ op c₁ ops₁, (blockItem c line base ⟨pos.line + c.index, indent line + 1⟩).eval parser.solve =
        .ok (op, c₁) ∧
      solveBlock c₁ base pos = .ok (ops₁, d) ∧ ops = pushFront op ops₁ := by
  rw [solveBlock_item hc hblank (indent_lt_of_consumed hc hblank h hd)] at h
  cases hitem : (blockItem c line base ⟨pos.line + c.index, indent line + 1⟩ :
      Parser F _).eval parser.solve with
  | error failure =>
    rw [hitem] at h
    cases h
  | ok r =>
    rw [hitem, ok_bind] at h
    cases hrest : (solveBlock r.2 base pos : Parse (List (Op F) × _)) with
    | error failure =>
      rw [hrest] at h
      cases h
    | ok r' =>
      rw [hrest, ok_bind] at h
      cases h
      exact ⟨r.1, r.2, r'.1, rfl, hrest, rfl⟩

theorem solveWhileLines_of_known (hknown : KnownToWhile F base ls) :
    ∀ {c c' d : Cursor} {pos pos' : SourcePosition} {ops : List (Op F)} {parts : WhileParts F},
      c.rest = ls → c'.rest = ls → solveBlock c base pos = .ok (ops, d) → d.rest = [] →
      ∃ e, solveWhileLines c' base pos' parts = .ok ({ parts with body := parts.body ++ ops }, e) ∧
        ∀ line ∈ e.rest, isBlank line = true := by
  induction hknown with
  | blanks hblank =>
    rintro c c' d pos pos' ops parts rfl hc' h -
    obtain rfl := solveBlock_blanks hblank h
    rw [List.append_nil]
    exact solveWhileLines_blanks (hc' ▸ hblank)
  | @blank line ls hblank hindent _ ih =>
    intro c c' d pos pos' ops parts hc hc' h hd
    rw [solveBlock_blank hc hblank] at h
    rw [solveWhileLines_blank hc' hblank hindent]
    exact ih (by rw [Cursor.next_rest, hc, List.tail_cons])
      (by rw [Cursor.next_rest, hc', List.tail_cons]) h hd
  | @statement line ls hblank hcolon _ ih =>
    intro c c' d pos pos' ops parts hc hc' h hd
    have hindent := indent_lt_of_consumed hc hblank h hd
    obtain ⟨op, c₁, ops₁, hitem, hblock, rfl⟩ := consumed_cases hc hblank h hd
    rw [eval_blockItem_statement hcolon] at hitem
    cases hparse : (parseLine line ⟨pos.line + c.index, indent line + 1⟩ : Parse (Op F)) with
    | error failure =>
      rw [hparse] at hitem
      cases hitem
    | ok op' =>
      rw [hparse, ok_bind] at hitem
      cases hitem
      have hparse' : (parseLine line ⟨pos'.line + c'.index, indent line + 1⟩ : Parse (Op F)) =
          .ok op := ok_of_toOption (toOption_parseLine line _ _) hparse
      have hline : trim line ≠ "condition:".toList := by
        rintro heq
        rw [heq] at hcolon
        cases hcolon
      rw [solveWhileLines_item hc' hindent hline, eval_parseWhileLine_statement hcolon, hparse',
        ok_bind, ok_bind]
      obtain ⟨e, he, hrest⟩ := ih (by rw [Cursor.next_rest, hc, List.tail_cons])
        (by rw [Cursor.next_rest, hc', List.tail_cons] : c'.next.rest = ls) hblock hd
      refine ⟨e, he.trans ?_, hrest⟩
      rw [push_append]
  | @nested line ls kind c₀ d₀ pos₀ op₀ hblank hcolon hkind hc₀ hop₀ _ ih =>
    intro c c' d pos pos' ops parts hc hc' h hd
    have hindent := indent_lt_of_consumed hc hblank h hd
    obtain ⟨op, c₁, ops₁, hitem, hblock, rfl⟩ := consumed_cases hc hblank h hd
    rw [eval_blockItem_nested hcolon (blockKind_of_whileBlockKind hkind)] at hitem
    have hne : c₀.rest ≠ [] := by simp [hc₀]
    obtain ⟨d₁, hop₁, hd₁⟩ : ∃ d₁, solveNested kind c ⟨pos.line + c.index, indent line + 1⟩ =
        .ok (op₀, d₁) ∧ d₁.rest = d₀.rest := nested_shift (hc₀.trans hc.symm) hne hop₀
    obtain ⟨rfl, rfl⟩ := Prod.mk.inj (Except.ok.inj (hop₁.symm.trans hitem))
    obtain ⟨d₂, hop₂, hd₂⟩ : ∃ d₂, solveNested kind c' ⟨pos'.line + c'.index, indent line + 1⟩ =
        .ok (op₀, d₂) ∧ d₂.rest = d₀.rest := nested_shift (hc₀.trans hc'.symm) hne hop₀
    have hline : trim line ≠ "condition:".toList := by
      intro heq
      rw [heq, whileBlockKind_condition] at hkind
      cases hkind
    rw [solveWhileLines_item hc' hindent hline, eval_parseWhileLine_nested hcolon hkind, hop₂,
      ok_bind]
    obtain ⟨e, he, hrest⟩ := ih hd₁ hd₂ hblock hd
    refine ⟨e, he.trans ?_, hrest⟩
    rw [push_append]

theorem known_of_solveWhileLines {c c' d e : Cursor} {ops : List (Op F)}
    {parts parts' : WhileParts F} (hrest : c.rest = c'.rest)
    (h : solveBlock c base pos = .ok (ops, d)) (hd : d.rest = [])
    (hwhile : solveWhileLines c' base pos' parts = .ok (parts', e))
    (he : ∀ line ∈ e.rest, isBlank line = true) : KnownToWhile F base c.rest := by
  induction hn : c.rest.length using Nat.strongRecOn generalizing c c' ops parts with
  | _ n ih =>
    subst hn
    cases hc : c.rest with
    | nil => exact .blanks fun line hline => absurd hline List.not_mem_nil
    | cons line ls =>
      have hc' : c'.rest = line :: ls := hrest ▸ hc
      have hnext : c.next.rest = ls := by rw [Cursor.next_rest, hc, List.tail_cons]
      have hnext' : c'.next.rest = ls := by rw [Cursor.next_rest, hc', List.tail_cons]
      have hshorter : c.next.rest.length < c.rest.length := by
        rw [hnext, hc, List.length_cons]
        exact Nat.lt_succ_self _
      cases hblank : isBlank line with
      | true =>
        by_cases hindent : base < indent line
        · rw [solveBlock_blank hc hblank] at h
          rw [solveWhileLines_blank hc' hblank hindent] at hwhile
          have hknown := ih _ hshorter (hnext.trans hnext'.symm) h hwhile rfl
          exact .blank hblank hindent (hnext ▸ hknown)
        · rw [solveWhileLines_dedent hc' (Nat.le_of_not_lt hindent)] at hwhile
          cases hwhile
          exact .blanks (hc' ▸ he)
      | false =>
        have hindent := indent_lt_of_consumed hc hblank h hd
        obtain ⟨op, c₁, ops₁, hitem, hblock, -⟩ := consumed_cases hc hblank h hd
        have hline : trim line ≠ "condition:".toList := by
          intro heq
          have hcolon : endsInColon (trim line) = true := by
            rw [heq]
            rfl
          have hkind : blockKind (trim line) = none := by
            rw [heq]
            decide
          rw [blockItem, if_pos hcolon, parseBlockHeader, hkind] at hitem
          dsimp only at hitem
          rw [if_neg (by rw [heq]; decide), if_neg (by rw [heq]; decide)] at hitem
          cases hitem
        rw [solveWhileLines_item hc' hindent hline] at hwhile
        cases hcolon : endsInColon (trim line) with
        | false =>
          rw [eval_parseWhileLine_statement hcolon] at hwhile
          rw [eval_blockItem_statement hcolon] at hitem
          cases hparse : (parseLine line ⟨pos'.line + c'.index, indent line + 1⟩ :
              Parse (Op F)) with
          | error failure =>
            rw [hparse] at hwhile
            cases hwhile
          | ok op' =>
            rw [hparse, ok_bind, ok_bind] at hwhile
            cases hparse' : (parseLine line ⟨pos.line + c.index, indent line + 1⟩ :
                Parse (Op F)) with
            | error failure =>
              rw [hparse'] at hitem
              cases hitem
            | ok op'' =>
              rw [hparse', ok_bind] at hitem
              cases hitem
              have hknown := ih _ hshorter (hnext.trans hnext'.symm) hblock hwhile rfl
              exact .statement hblank hcolon (hnext ▸ hknown)
        | true =>
          cases hkind : whileBlockKind (trim line) with
          | none =>
            rw [parseWhileLine, if_pos hcolon, hkind] at hwhile
            cases hwhile
          | some kind =>
            rw [eval_parseWhileLine_nested hcolon hkind] at hwhile
            rw [eval_blockItem_nested hcolon (blockKind_of_whileBlockKind hkind)] at hitem
            obtain ⟨d₁, hop₁, hd₁⟩ : ∃ d₁,
                solveNested kind c' ⟨pos'.line + c'.index, indent line + 1⟩ = .ok (op, d₁) ∧
                  d₁.rest = c₁.rest := nested_shift hrest (by simp [hc]) hitem
            rw [hop₁, ok_bind] at hwhile
            have hfits : c₁.rest <:+ c.rest.tail := Recursion.solve_fits (F := parser) hitem
            rw [hc, List.tail_cons] at hfits
            have hlength := hfits.length_le
            have hknown := ih c₁.rest.length (by rw [hc, List.length_cons]; omega) hd₁.symm hblock
              hwhile rfl
            exact .nested hblank hcolon hkind hc hitem hknown

/-! ### The same body -/

/-- All the lines are the body of a `loop` at this indentation. -/
def IsLoopBody (F : Type) [Number F] (base : Nat) (body : List Line) (ops : List (Op F)) : Prop :=
  ∃ header index pos count d, indent header = base ∧
    solveNested .loopBlock ⟨index, header :: body⟩ pos = .ok (.loop count ops, d) ∧ d.rest = []

/-- Behind any explicit condition, all the lines are the body of a `while:` at this indentation. -/
def IsWhileBody (F : Type) [Number F] (base : Nat) (body : List Line) (ops : List (Op F)) : Prop :=
  ∀ header conditionLine conditionLines index pos condition c, indent header = base →
    trim conditionLine = "condition:".toList → base < indent conditionLine →
    solveBlock ⟨index + 2, conditionLines ++ body⟩ (indent conditionLine)
      ⟨pos.line + (index + 1), indent conditionLine + 1⟩ = .ok (condition, c) →
    c.rest = body.dropWhile isBlank →
    ∃ d, solveNested .whileBlock
        ⟨index, header :: conditionLine :: (conditionLines ++ body)⟩ pos =
          .ok (.whileOp condition ops, d) ∧ ∀ line ∈ d.rest, isBlank line = true

/-- All the lines are the first branch of an `if:` at this indentation. -/
def IsThenBranch (F : Type) [Number F] (base : Nat) (body : List Line) (ops : List (Op F)) : Prop :=
  ∀ header index pos, indent header = base →
    ∃ d, solveNested .ifBlock ⟨index, header :: body⟩ pos = .ok (.ifOp [] ops none, d) ∧ d.rest = []

theorem solveNested_loop (hc : c.rest = line :: ls) :
    (solveNested .loopBlock c pos : Parse (Op F × _)) = (do
      let count ← parseLoopHeader line pos
      let r ← solveBlock c.next (indent line) pos
      .ok (.loop count r.1, r.2)) := by
  rw [solveNested_eq, parseNestedBlock, parseLoopBlock, Rec.eval_bind, eval_lineAt hc, ok_bind,
    Rec.eval_bind, Rec.eval_ofExcept]
  simp only [Rec.eval_bind, eval_solveBlock]
  rfl

theorem block_of_isLoopBody {ops : List (Op F)} (h : IsLoopBody F base ls ops) (c : Cursor)
    (pos : SourcePosition) (hc : c.rest = ls) :
    ∃ d, solveBlock c base pos = .ok (ops, d) ∧ d.rest = [] := by
  obtain ⟨header, index, pos₀, count, d, rfl, hloop, hd⟩ := h
  rw [solveNested_loop rfl] at hloop
  cases hheader : parseLoopHeader header pos₀ with
  | error e =>
    rw [hheader] at hloop
    cases hloop
  | ok n =>
    rw [hheader, ok_bind] at hloop
    cases hblock : (solveBlock (Cursor.next ⟨index, header :: ls⟩) (indent header) pos₀ :
        Parse (List (Op F) × _)) with
    | error e =>
      rw [hblock] at hloop
      cases hloop
    | ok r =>
      rw [hblock, ok_bind] at hloop
      cases hloop
      obtain ⟨d', hd', hrest⟩ : ∃ d', solveBlock c (indent header) pos = .ok (r.1, d') ∧
          d'.rest = r.2.rest := block_shift hc.symm hblock
      exact ⟨d', hd', hrest.trans hd⟩

/-- Blank lines before a block do not count. -/
theorem solveBlock_dropBlanks (c : Cursor) : ∃ c' : Cursor, c'.rest = c.rest.dropWhile isBlank ∧
    ∀ base pos, (solveBlock c base pos : Parse (List (Op F) × _)) = solveBlock c' base pos := by
  induction hc : c.rest generalizing c with
  | nil => exact ⟨c, hc, fun _ _ => rfl⟩
  | cons line ls ih =>
    cases hblank : isBlank line with
    | true =>
      obtain ⟨c', hrest, hsolve⟩ := ih c.next (by rw [Cursor.next_rest, hc, List.tail_cons])
      refine ⟨c', by rw [hrest, List.dropWhile_cons_of_pos hblank], fun base pos => ?_⟩
      rw [solveBlock_blank hc hblank, hsolve]
    | false =>
      refine ⟨c, ?_, fun _ _ => rfl⟩
      rw [hc, List.dropWhile_cons_of_neg (by simp [hblank])]

theorem isThenBranch_of_isLoopBody {ops : List (Op F)} (h : IsLoopBody F base ls ops) :
    IsThenBranch F base ls ops := by
  rintro header index pos rfl
  obtain ⟨d, hblock, hd⟩ := block_of_isLoopBody h (Cursor.next ⟨index, header :: ls⟩) pos rfl
  refine ⟨d, ?_, hd⟩
  have hno : ∀ other ∈ d.rest.head?, trim other ≠ "else:".toList := by
    intro other hother
    rw [hd] at hother
    cases hother
  rw [solveNested_if rfl, hblock, ok_bind, parseElse_of_no_else hno]
  rfl

/-- The lines behind an explicit condition are read by the loop. -/
theorem solveNested_explicit {header conditionLine : Line} {lines : List Line} {index : Nat}
    {condition : List (Op F)} (hline : trim conditionLine = "condition:".toList)
    (hindent : indent header < indent conditionLine)
    (hcondition : solveBlock ⟨index + 2, lines⟩ (indent conditionLine)
      ⟨pos.line + (index + 1), indent conditionLine + 1⟩ = .ok (condition, c)) :
    solveNested .whileBlock ⟨index, header :: conditionLine :: lines⟩ pos = (do
      let r ← solveWhileLines c (indent header) pos ⟨condition, [], true⟩
      .ok (r.1.toOp, r.2)) := by
  rw [solveNested_while rfl, solveWhileLines_condition rfl hindent hline]
  show ((solveBlock ⟨index + 2, lines⟩ (indent conditionLine)
    ⟨pos.line + (index + 1), indent conditionLine + 1⟩ >>= fun r => _) >>= fun r => _) = _
  rw [hcondition, ok_bind]

theorem isWhileBody_of_known {ops : List (Op F)} (h : IsLoopBody F base ls ops)
    (hknown : KnownToWhile F base (ls.dropWhile isBlank)) : IsWhileBody F base ls ops := by
  rintro header conditionLine conditionLines index pos condition c rfl hline hindent hcondition hc
  obtain ⟨d, hblock, hd⟩ := block_of_isLoopBody h ⟨0, ls⟩ pos rfl
  obtain ⟨c₁, hc₁, hsame⟩ := solveBlock_dropBlanks (F := F) ⟨0, ls⟩
  rw [hsame] at hblock
  obtain ⟨e, hwhile, he⟩ : ∃ e, solveWhileLines c (indent header) pos ⟨condition, [], true⟩ =
      .ok (⟨condition, [] ++ ops, true⟩, e) ∧ ∀ line ∈ e.rest, isBlank line = true :=
    solveWhileLines_of_known hknown hc₁ hc hblock hd
  refine ⟨e, ?_, he⟩
  rw [solveNested_explicit hline hindent hcondition, hwhile, ok_bind]
  rfl

/-- A line after some spaces. -/
def indented (n : Nat) (text : Line) : Line := List.replicate n ' ' ++ text

theorem known_of_isWhileBody {ops : List (Op F)} (h : IsLoopBody F base ls ops)
    (hwhile : IsWhileBody F base ls ops) : KnownToWhile F base (ls.dropWhile isBlank) := by
  -- an empty condition, as deep as the first line of the body
  let depth := (base + 1) + ((ls.dropWhile isBlank).head?.elim 0 indent)
  let conditionLine : Line := indented depth "condition:".toList
  have hindent : indent conditionLine = depth :=
    Text.indent_spaces_append depth (by decide : Text.isWhitespace 'c' = false) "ondition:".toList
  have hline : trim conditionLine = "condition:".toList := by
    refine (Text.trim_spaces_append depth "condition:".toList).trans ?_
    decide
  obtain ⟨c, hc, hsame⟩ := solveBlock_dropBlanks (F := F) ⟨2, ls⟩
  have hcondition : (solveBlock ⟨0 + 2, [] ++ ls⟩ (indent conditionLine)
      ⟨(⟨1, 1⟩ : SourcePosition).line + (0 + 1), indent conditionLine + 1⟩ :
        Parse (List (Op F) × _)) = .ok ([], c) := by
    refine (hsame _ _).trans ?_
    cases hrest : ls.dropWhile isBlank with
    | nil => exact solveBlock_nil (hc.trans hrest)
    | cons line rest =>
      have hblank : isBlank line = false := by
        have hnot := List.head_dropWhile_not isBlank (l := ls) (by simp [hrest])
        simpa [hrest] using hnot
      refine solveBlock_dedent (hc.trans hrest) hblank ?_
      rw [hindent]
      show _ ≤ (base + 1) + (ls.dropWhile isBlank).head?.elim 0 indent
      rw [hrest]
      exact Nat.le_add_left _ _
  have hheader : indent (indented base "while:".toList) = base :=
    Text.indent_spaces_append base (by decide : Text.isWhitespace 'w' = false) "hile:".toList
  have hdeep : base < indent conditionLine := by
    rw [hindent]
    exact (Nat.lt_succ_self base).trans_le (Nat.le_add_right _ _)
  obtain ⟨e, he, hblank⟩ := hwhile _ conditionLine [] 0 ⟨1, 1⟩ [] c hheader hline hdeep hcondition hc
  rw [solveNested_explicit hline (hheader.trans_lt hdeep) hcondition, hheader] at he
  cases hlines : solveWhileLines c base ⟨1, 1⟩ (⟨[], [], true⟩ : WhileParts F) with
  | error failure =>
    rw [hlines] at he
    cases he
  | ok r =>
    obtain ⟨parts, e'⟩ := r
    rw [hlines, ok_bind] at he
    obtain rfl : e' = e := congrArg Prod.snd (Except.ok.inj he)
    obtain ⟨d, hblock, hd⟩ := block_of_isLoopBody h ⟨2, ls⟩ ⟨1, 1⟩ rfl
    rw [hsame] at hblock
    exact hc ▸ known_of_solveWhileLines rfl hblock hd hlines hblank

/-- The body of a `loop` is the same body of a `while:` and of an `if:` iff the loop of
`parse_while_block` knows its statements. -/
theorem sameBody_iff {ops : List (Op F)} (h : IsLoopBody F base ls ops) :
    IsWhileBody F base ls ops ∧ IsThenBranch F base ls ops ↔
      KnownToWhile F base (ls.dropWhile isBlank) :=
  ⟨fun hsame => known_of_isWhileBody h hsame.1,
    fun hknown => ⟨isWhileBody_of_known h hknown, isThenBranch_of_isLoopBody h⟩⟩

def popDup : List Line := ["    pop".toList, "    dup".toList]

theorem isLoopBody_popDup : IsLoopBody Binary64 0 popDup [.pop, .dup] :=
  ⟨"loop 2:".toList, 0, ⟨1, 1⟩, 2, ⟨3, []⟩, rfl, rfl, rfl⟩

theorem sameBody_iff_popDup :
    IsWhileBody Binary64 0 popDup [.pop, .dup] ∧ IsThenBranch Binary64 0 popDup [.pop, .dup] :=
  (sameBody_iff isLoopBody_popDup).mpr
    (.statement rfl rfl (.statement rfl rfl (.blanks (by simp))))

/-! ### A blank line in a body -/

/-- Two statements with an empty line between them. -/
def popThenDup : List Line := ["    pop".toList, [], "    dup".toList]

theorem isLoopBody_popThenDup : IsLoopBody Binary64 0 popThenDup [.pop, .dup] :=
  ⟨"loop 2:".toList, 0, ⟨1, 1⟩, 2, ⟨4, []⟩, rfl, rfl, rfl⟩

theorem not_sameBody_popThenDup :
    IsLoopBody Binary64 0 popThenDup [.pop, .dup] ∧
      ¬ (IsWhileBody Binary64 0 popThenDup [.pop, .dup] ∧
        IsThenBranch Binary64 0 popThenDup [.pop, .dup]) := by
  refine ⟨isLoopBody_popThenDup, fun hsame => ?_⟩
  have hknown := known_of_isWhileBody isLoopBody_popThenDup hsame.1
  change KnownToWhile Binary64 0 ["    pop".toList, [], "    dup".toList] at hknown
  cases hknown with
  | blanks hblank => exact absurd (hblank _ List.mem_cons_self) (by decide)
  | blank hblank => exact absurd hblank (by decide)
  | nested _ hcolon => exact absurd hcolon (by decide)
  | statement _ _ hrest =>
    cases hrest with
    | blanks hblank => exact absurd (hblank _ (by simp)) (by decide : ¬ isBlank "    dup".toList = true)
    | blank _ hindent => exact absurd hindent (by decide)
    | statement hblank => exact absurd hblank (by decide)
    | nested hblank => exact absurd hblank (by decide)

end Covm.Compiler
