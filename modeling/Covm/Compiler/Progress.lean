import Covm.Compiler.Collected

/-!
# Where the parsers of blocks leave the cursor

The parsers move one cursor through the lines, and each call begins where the last one ended. So a
call leads the cursor over some lines (`Leads`), none for `parse_block` at the end of its block and
at least the header for the parsers of nested blocks. These lines are the ones deeper than the
header, unless an `if:` is followed by an `else:` that is less deep than itself, which it takes
nonetheless.
-/

namespace Covm.Compiler

open Partial
open Text (trim indent isBlank)

/-- A place in a vector of lines. -/
def cursorAt (lines : List Line) (index : Nat) : Cursor := ⟨index, lines.drop index⟩

/-- A line that a block may have: it is blank or reaches the given indentation; without `strict`, it
may also be an `else:`. -/
def Belongs (strict : Prop) (bound : Nat) (line : Line) : Prop :=
  isBlank line = true ∨ bound ≤ indent line ∨ ¬ strict ∧ trim line = "else:".toList

/-- The cursor has moved over lines that belong to a block. -/
def Leads (strict : Prop) (bound : Nat) (c d : Cursor) : Prop :=
  ∃ skipped, c.rest = skipped ++ d.rest ∧ d.index = c.index + skipped.length ∧
    ∀ line ∈ skipped, Belongs strict bound line

/-- The lines from the first one that is neither blank nor deeper. -/
def dedent (base : Nat) (lines : List Line) : List Line :=
  lines.dropWhile fun line => isBlank line || decide (base < indent line)

/-- If an `else:` follows the lines deeper than the `if:` at the cursor, it is not less deep than the
`if:`. -/
def ElseFits (c : Cursor) : Prop :=
  ∀ line rest, c.rest = line :: rest → ∀ other ∈ (dedent (indent line) rest).head?,
    trim other = "else:".toList → indent line ≤ indent other

section
variable {strict : Prop} {bound base : Nat} {c d e : Cursor} {line : Line}

theorem Leads.refl (strict : Prop) (bound : Nat) (c : Cursor) : Leads strict bound c c :=
  ⟨[], rfl, rfl, List.forall_mem_nil _⟩

theorem Leads.trans (h : Leads strict bound c d) (h' : Leads strict bound d e) :
    Leads strict bound c e := by
  obtain ⟨skipped, hc, hd, hdeep⟩ := h
  obtain ⟨skipped', hd', he, hdeep'⟩ := h'
  refine ⟨skipped ++ skipped', by rw [hc, hd', List.append_assoc], ?_, ?_⟩
  · rw [he, hd, List.length_append]
    omega
  · exact List.forall_mem_append.mpr ⟨hdeep, hdeep'⟩

theorem Belongs.mono {bound' : Nat} (hle : bound ≤ bound') (h : Belongs strict bound' line) :
    Belongs strict bound line :=
  h.imp_right (Or.imp_left hle.trans)

theorem Leads.mono {bound' : Nat} (hle : bound ≤ bound') (h : Leads strict bound' c d) :
    Leads strict bound c d := by
  obtain ⟨skipped, hc, hd, hdeep⟩ := h
  exact ⟨skipped, hc, hd, fun line hline => (hdeep line hline).mono hle⟩

theorem Leads.next {lines : List Line} (hc : c.rest = line :: lines)
    (hline : Belongs strict bound line) (h : Leads strict bound c.next d) :
    Leads strict bound c d := by
  obtain ⟨skipped, hnext, hd, hdeep⟩ := h
  rw [Cursor.next_rest, hc, List.tail_cons] at hnext
  refine ⟨line :: skipped, by rw [hc, hnext, List.cons_append], ?_, ?_⟩
  · have hindex : c.next.index = c.index + 1 := rfl
    rw [hd, hindex, List.length_cons]
    omega
  · exact List.forall_mem_cons.mpr ⟨hline, hdeep⟩

theorem Leads.index_le (h : Leads strict bound c d) : c.index ≤ d.index := by
  obtain ⟨skipped, -, hd, -⟩ := h
  omega

theorem Leads.eq_cursorAt {lines : List Line} {index : Nat}
    (h : Leads strict bound (cursorAt lines index) d) : d = cursorAt lines d.index := by
  obtain ⟨skipped, hc, hd, -⟩ := h
  obtain ⟨dIndex, dRest⟩ := d
  obtain rfl : dIndex = index + skipped.length := hd
  have hdrop : lines.drop index = skipped ++ dRest := hc
  rw [cursorAt, ← List.drop_drop, hdrop, List.drop_left]

theorem leads_collectLines (strict : Prop) (base : Nat) (c : Cursor) :
    Leads strict (base + 1) c (collectLines base c.index c.rest).2 := by
  obtain ⟨index, lines⟩ := c
  induction lines generalizing index with
  | nil => exact Leads.refl strict _ _
  | cons line lines ih =>
    simp only [collectLines]
    split_ifs with hblank hdedent
    · exact Leads.next rfl (.inl hblank) (ih (index + 1))
    · exact Leads.refl strict _ _
    · exact Leads.next rfl (.inr (.inl (Nat.lt_of_not_le hdedent))) (ih (index + 1))

/-- What is left behind deeper lines, at a line that is not deeper. -/
theorem Leads.rest_eq_dedent (h : Leads True (base + 1) c d) (hends : Ends base d.rest) :
    d.rest = dedent base c.rest := by
  obtain ⟨skipped, hc, -, hdeep⟩ := h
  have hskipped : ∀ line ∈ skipped, (isBlank line || decide (base < indent line)) = true := by
    intro line hline
    simpa [Belongs, Nat.succ_le_iff] using hdeep line hline
  rw [hc, dedent, List.dropWhile_append_of_pos hskipped]
  cases hd : d.rest with
  | nil => rfl
  | cons line lines =>
    obtain ⟨hblank, hdedent⟩ := hends line (by rw [hd]; rfl)
    rw [List.dropWhile_cons_of_neg]
    simpa [hblank] using hdedent

end

/-! ### What a call does to the cursor -/

variable {F : Type} [Number F]

/-- A block leads over lines deeper than its base, a nested block over its header and lines that are
not less deep. -/
def Question.Leads (strict : Prop) : (q : Question F) → Answer F q → Prop
  | .block c baseIndent _, r => Compiler.Leads strict (baseIndent + 1) c r.2
  | .nested _ c _, r => ∀ line rest, c.rest = line :: rest →
      Compiler.Leads strict (indent line) c.next r.2
  | .whileLines c currentIndent _ _, r => Compiler.Leads strict (currentIndent + 1) c r.2
  | .matchLines c currentIndent _ _, r => Compiler.Leads strict (currentIndent + 1) c r.2
  | .dsl .., _ => True

section
variable {strict : Prop} {bound : Nat} {c : Cursor} {α β : Type}

/-- Given what the calls do, the cursor is led on from `c`. -/
def Going (strict : Prop) (bound : Nat) (c : Cursor) (x : Parser F (α × Cursor)) : Prop :=
  x.Bounded (fun _ => True) (fun q r => parser.solve q = .ok r ∧ q.Leads strict r)
    fun r => Leads strict bound c r.2

theorem going_pure {a : α} {d : Cursor} (h : Leads strict bound c d) :
    Going strict bound c (pure (a, d) : Parser F _) := h

theorem going_throw {e : Failure} :
    Going strict bound c (Rec.throw e : Parser F (α × Cursor)) := trivial

theorem Going.bind {x : Parser F (α × Cursor)} {f : α × Cursor → Parser F (β × Cursor)}
    (hx : Going strict bound c x)
    (hf : ∀ a d, Leads strict bound c d → Going strict bound c (f (a, d))) :
    Going strict bound c (x >>= f) :=
  Rec.Bounded.bind hx fun r hr => hf r.1 r.2 hr

theorem going_ofExcept_bind {x : Parse α} {f : α → Parser F (β × Cursor)}
    (hf : ∀ a, Going strict bound c (f a)) : Going strict bound c (Rec.ofExcept x >>= f) := by
  cases x with
  | ok a => exact hf a
  | error e => trivial

theorem going_parseBlock {baseIndent : Nat} {d : Cursor} {pos : SourcePosition}
    (h : Leads strict bound c d) (hle : bound ≤ baseIndent + 1) :
    Going strict bound c (parseBlock d baseIndent pos : Parser F _) :=
  ⟨trivial, fun _ hr => h.trans (Leads.mono hle hr.2)⟩

theorem going_parseWhileLines {currentIndent : Nat} {d : Cursor} {pos : SourcePosition}
    {parts : WhileParts F} (h : Leads strict bound c d) (hle : bound ≤ currentIndent + 1) :
    Going strict bound c (parseWhileLines d currentIndent pos parts) :=
  ⟨trivial, fun _ hr => h.trans (Leads.mono hle hr.2)⟩

theorem going_parseMatchLines {currentIndent : Nat} {d : Cursor} {pos : SourcePosition}
    {parts : MatchParts F} (h : Leads strict bound c d) (hle : bound ≤ currentIndent + 1) :
    Going strict bound c (parseMatchLines d currentIndent pos parts) :=
  ⟨trivial, fun _ hr => h.trans (Leads.mono hle hr.2)⟩

variable {line : Line} {rest : List Line} {pos : SourcePosition} (hc : c.rest = line :: rest)
include hc

theorem going_lineAt_bind {d : Cursor} {f : Line → Parser F (β × Cursor)}
    (hf : Going strict bound d (f line)) : Going strict bound d (lineAt c >>= f) := by
  unfold lineAt
  rw [hc]
  exact hf

theorem leads_next (hline : Belongs strict bound line) : Leads strict bound c c.next :=
  Leads.next hc hline (Leads.refl strict bound c.next)

theorem going_parseNested {kind : BlockKind} (hle : bound ≤ indent line) :
    Going strict bound c (parseNested kind c pos : Parser F _) :=
  ⟨trivial, fun _ hr => Leads.next hc (.inr (.inl hle)) (Leads.mono hle (hr.2 line rest hc))⟩

theorem going_parseStatement (hle : bound ≤ indent line) :
    Going strict bound c (parseStatement c line pos : Parser F _) :=
  going_ofExcept_bind fun _ => going_pure (leads_next hc (.inr (.inl hle)))

/-! Behind a header. -/

theorem parseIfBlock_going (helse : strict → ElseFits c) :
    Going strict (indent line) c.next (parseIfBlock c pos : Parser F _) := by
  refine going_lineAt_bind hc ?_
  have hthen : (parseBlock c.next (indent line) pos : Parser F _).Bounded (fun _ => True)
      (fun q r => parser.solve q = .ok r ∧ q.Leads strict r)
      fun r => Leads strict (indent line + 1) c.next r.2 ∧ Ends (indent line) r.2.rest :=
    ⟨trivial, fun _ hr => ⟨hr.2, solveBlock_ends hr.1⟩⟩
  refine Rec.Bounded.bind hthen ?_
  rintro ⟨thenOps, d⟩ ⟨hleads, hends⟩
  have hd : Leads strict (indent line) c.next d := hleads.mono (Nat.le_succ _)
  dsimp only at hends ⊢
  unfold parseElse
  split
  · next other lines hrest =>
    split_ifs with hother
    · refine Going.bind (going_parseBlock (hd.trans ?_) (Nat.le_succ _)) fun elseOps d' hd' => ?_
      · by_cases hstrict : strict
        · have hdedent := Leads.rest_eq_dedent (by simpa [hstrict] using hleads) hends
          rw [Cursor.next_rest, hc, List.tail_cons] at hdedent
          refine leads_next hrest (.inr (.inl ?_))
          exact helse hstrict line rest hc other (by rw [← hdedent, hrest]; rfl) hother
        · exact leads_next hrest (.inr (.inr ⟨hstrict, hother⟩))
      · exact going_pure hd'
    · exact going_pure hd
  · exact going_pure hd

theorem parseLoopBlock_going :
    Going strict (indent line) c.next (parseLoopBlock c pos : Parser F _) := by
  refine going_lineAt_bind hc (going_ofExcept_bind fun count => ?_)
  refine Going.bind (going_parseBlock (Leads.refl ..) (Nat.le_succ _)) fun body d hd => ?_
  exact going_pure hd

theorem parseFunctionBlock_going :
    Going strict (indent line) c.next (parseFunctionBlock c pos : Parser F _) := by
  refine going_lineAt_bind hc (going_ofExcept_bind fun header => ?_)
  refine Going.bind (going_parseBlock (Leads.refl ..) (Nat.le_succ _)) fun body d hd => ?_
  exact going_pure hd

theorem parseWhileBlock_going :
    Going strict (indent line) c.next (parseWhileBlock c pos : Parser F _) := by
  refine going_lineAt_bind hc ?_
  refine Going.bind (going_parseWhileLines (Leads.refl ..) (Nat.le_succ _)) fun parts d hd => ?_
  exact going_pure hd

theorem parseMatchBlock_going :
    Going strict (indent line) c.next (parseMatchBlock c pos : Parser F _) := by
  refine going_lineAt_bind hc ?_
  refine Going.bind (going_parseMatchLines (Leads.refl ..) (Nat.le_succ _)) fun parts d hd => ?_
  dsimp only
  split_ifs
  · exact going_throw
  · exact going_pure hd

theorem parseNestedBlock_going {kind : BlockKind} (helse : kind = .ifBlock → strict → ElseFits c) :
    Going strict (indent line) c.next (parseNestedBlock c pos kind : Parser F _) := by
  cases kind with
  | ifBlock => exact parseIfBlock_going hc (helse rfl)
  | whileBlock => exact parseWhileBlock_going hc
  | functionBlock => exact parseFunctionBlock_going hc
  | matchBlock => exact parseMatchBlock_going hc
  | loopBlock => exact parseLoopBlock_going hc

theorem parseCollected_going {f : List (Op F) → Op F} {baseIndent : Nat}
    (hindent : baseIndent < indent line) :
    Going strict (baseIndent + 1) c (parseCollected f c baseIndent pos) := by
  refine Rec.Bounded.bind (S := fun _ => True) ⟨trivial, fun _ _ => trivial⟩ ?_
  rintro ⟨ops, _⟩ -
  exact going_pure (Leads.next hc (.inr (.inl hindent)) (leads_collectLines strict baseIndent _))

theorem parseBlockHeader_going {baseIndent : Nat} (hindent : baseIndent < indent line) :
    Going strict (baseIndent + 1) c (parseBlockHeader c line baseIndent pos : Parser F _) := by
  unfold parseBlockHeader
  split
  · exact going_parseNested hc hindent
  · split_ifs
    · exact parseCollected_going hc hindent
    · exact parseCollected_going hc hindent
    · exact going_throw

theorem parseWhileLine_going (hle : bound ≤ indent line) :
    Going strict bound c (parseWhileLine c line pos : Parser F _) := by
  unfold parseWhileLine
  split_ifs
  · split
    · exact going_parseNested hc hle
    · exact going_throw
  · exact going_parseStatement hc hle

end

/-! The loops. -/

section
variable {strict : Prop} {c : Cursor} {pos : SourcePosition}

theorem parseBlockLines_going {baseIndent : Nat} :
    Going strict (baseIndent + 1) c (parseBlockLines c baseIndent pos : Parser F _) := by
  unfold parseBlockLines
  split
  · exact going_pure (Leads.refl ..)
  · next line rest hc =>
    split_ifs with hblank hdedent hcolon
    · exact going_parseBlock (leads_next hc (.inl hblank)) le_rfl
    · exact going_pure (Leads.refl ..)
    · refine (parseBlockHeader_going hc (Nat.lt_of_not_le hdedent)).bind fun op d hd => ?_
      exact (going_parseBlock hd le_rfl).bind fun ops d' hd' => going_pure hd'
    · refine (going_parseStatement hc (Nat.lt_of_not_le hdedent)).bind fun op d hd => ?_
      exact (going_parseBlock hd le_rfl).bind fun ops d' hd' => going_pure hd'

theorem whileLoop_going {currentIndent : Nat} {parts : WhileParts F} :
    Going strict (currentIndent + 1) c (whileLoop c currentIndent pos parts) := by
  unfold whileLoop
  split
  · exact going_pure (Leads.refl ..)
  · next line rest hc =>
    split_ifs with hdedent hcondition
    · exact going_pure (Leads.refl ..)
    all_goals have hdeep : currentIndent + 1 ≤ indent line := Nat.lt_of_not_le hdedent
    · refine (going_parseBlock (leads_next hc (.inr (.inl hdeep)))
        (hdeep.trans (Nat.le_succ _))).bind fun condition d hd => ?_
      exact going_parseWhileLines hd le_rfl
    · refine (parseWhileLine_going hc hdeep).bind fun op d hd => ?_
      exact going_parseWhileLines hd le_rfl

theorem matchLoop_going {currentIndent : Nat} {parts : MatchParts F} :
    Going strict (currentIndent + 1) c (matchLoop c currentIndent pos parts) := by
  unfold matchLoop
  split
  · exact going_pure (Leads.refl ..)
  · next line rest hc =>
    split_ifs with hdedent hvalue hcase hdefault
    · exact going_pure (Leads.refl ..)
    all_goals
      have hdeep : currentIndent + 1 ≤ indent line := Nat.lt_of_not_le hdedent
      have hnext : Leads strict (currentIndent + 1) c c.next := leads_next hc (.inr (.inl hdeep))
    · refine (going_parseBlock hnext (hdeep.trans (Nat.le_succ _))).bind fun ops d hd => ?_
      exact going_parseMatchLines hd le_rfl
    · refine going_ofExcept_bind fun value => ?_
      refine (going_parseBlock hnext (hdeep.trans (Nat.le_succ _))).bind fun ops d hd => ?_
      exact going_parseMatchLines hd le_rfl
    · refine (going_parseBlock hnext (hdeep.trans (Nat.le_succ _))).bind fun ops d hd => ?_
      exact going_parseMatchLines hd le_rfl
    · refine (going_parseStatement hc hdeep).bind fun op d hd => ?_
      exact going_parseMatchLines hd le_rfl

end

/-- With `strict`, each `if:` that the parser comes to is followed by an `else:` that fits, if by
any. -/
theorem leads_of_solve {strict : Prop} {q : Question F} {r : Answer F q}
    (helse : strict → ∀ c pos, parser.Reaches q (.nested .ifBlock c pos) → ElseFits c)
    (hr : parser.solve q = .ok r) : q.Leads strict r := by
  refine Recursion.solve_induction (P := fun q => strict → ∀ c pos,
    parser.Reaches q (.nested .ifBlock c pos) → ElseFits c)
    (fun q q' h hasks hstrict c pos hreach => h hstrict c pos (.head hasks hreach))
    (fun q hq => ?_) helse hr
  cases q with
  | block c baseIndent pos => exact parseBlockLines_going
  | nested kind c pos =>
    cases hc : c.rest with
    | nil =>
      have hline : (lineAt c : Parser F Line) = .throw .panic := by simp [lineAt, hc]
      show (parseNestedBlock c pos kind).Bounded _ _ _
      cases kind <;>
        simp only [parseNestedBlock, parseIfBlock, parseWhileBlock, parseFunctionBlock,
          parseMatchBlock, parseLoopBlock, hline] <;> exact trivial
    | cons line rest =>
      refine Rec.Bounded.mono (parseNestedBlock_going hc ?_) (fun _ h => h) ?_
      · rintro rfl hstrict
        exact hq hstrict c pos .refl
      · intro r hr line' rest' hc'
        obtain ⟨rfl, rfl⟩ := List.cons.inj (hc.symm.trans hc')
        exact hr
  | whileLines c currentIndent pos parts => exact whileLoop_going
  | matchLines c currentIndent pos parts => exact matchLoop_going
  | dsl c state => exact Rec.bounded_true _ (body (.dsl c state))

/-! ### Progress -/

/-- The calls come to an end, and so does an evaluation that may go deep enough. -/
structure Terminates (q : Question F) : Prop where
  calls : ∀ calls : Nat → Question F, calls 0 = q → ¬ ∀ n, parser.Asks (calls n) (calls (n + 1))
  depth : ∃ depth, ∀ depth' ≥ depth, parser.run depth' q = parser.solve q

theorem terminates (q : Question F) : Terminates q where
  calls calls _ := Recursion.not_asks_forever calls
  depth := ⟨parser.size q + 1, fun _ h => Recursion.run_eq h (Nat.lt_succ_self _)⟩

section
variable {lines : List Line} {index : Nat} {pos : SourcePosition} {d : Cursor}

theorem index_le_length {strict : Prop} {bound : Nat} (hindex : index ≤ lines.length)
    (h : Leads strict bound (cursorAt lines index) d) : d.index ≤ lines.length := by
  obtain ⟨skipped, hc, hd, -⟩ := h
  have hlength := congrArg List.length hc
  rw [List.length_append, cursorAt, List.length_drop] at hlength
  have hstart : (cursorAt lines index).index = index := rfl
  omega

theorem solveBlock_progress {base : Nat} {ops : List (Op F)} (hindex : index ≤ lines.length)
    (h : solveBlock (cursorAt lines index) base pos = .ok (ops, d)) :
    d = cursorAt lines d.index ∧ index ≤ d.index ∧ d.index ≤ lines.length ∧
      (d.index = lines.length ∨ ∃ line, lines[d.index]? = some line ∧ isBlank line = false ∧
        indent line ≤ base) := by
  have hleads : Leads False (base + 1) (cursorAt lines index) d :=
    leads_of_solve (fun hfalse => hfalse.elim) h
  refine ⟨hleads.eq_cursorAt, hleads.index_le, index_le_length hindex hleads, ?_⟩
  have hends := solveBlock_ends h
  rw [hleads.eq_cursorAt, cursorAt] at hends
  rcases Nat.lt_or_ge d.index lines.length with hlt | hge
  · refine .inr ⟨lines[d.index], List.getElem?_eq_getElem hlt, hends _ ?_⟩
    rw [List.drop_eq_getElem_cons hlt]
    rfl
  · exact .inl (Nat.le_antisymm (index_le_length hindex hleads) hge)

theorem solveNested_progress {kind : BlockKind} {op : Op F} (hindex : index < lines.length)
    (h : solveNested kind (cursorAt lines index) pos = .ok (op, d)) :
    d = cursorAt lines d.index ∧ index < d.index ∧ d.index ≤ lines.length := by
  have hrest : (cursorAt lines index).rest = lines[index] :: lines.drop (index + 1) :=
    List.drop_eq_getElem_cons hindex
  have hnext : (cursorAt lines index).next = cursorAt lines (index + 1) := by
    rw [Cursor.next, hrest]
    rfl
  have hleads : Leads False (indent lines[index]) (cursorAt lines (index + 1)) d :=
    hnext ▸ leads_of_solve (fun hfalse => hfalse.elim) h _ _ hrest
  exact ⟨hleads.eq_cursorAt, hleads.index_le, index_le_length hindex hleads⟩

/-- The parsers terminate. `parse_block` leaves the cursor where a block ends, and the parsers of
nested blocks, called at a line, move it. -/
theorem parsers_progress (lines : List Line) (index : Nat) (pos : SourcePosition) :
    (index ≤ lines.length → ∀ base,
      Terminates (.block (cursorAt lines index) base pos : Question F) ∧
      ∀ (ops : List (Op F)) d, solveBlock (cursorAt lines index) base pos = .ok (ops, d) →
        d = cursorAt lines d.index ∧ index ≤ d.index ∧ d.index ≤ lines.length ∧
          (d.index = lines.length ∨ ∃ line, lines[d.index]? = some line ∧ isBlank line = false ∧
            indent line ≤ base)) ∧
    (index < lines.length → ∀ kind,
      Terminates (.nested kind (cursorAt lines index) pos : Question F) ∧
      ∀ (op : Op F) d, solveNested kind (cursorAt lines index) pos = .ok (op, d) →
        d = cursorAt lines d.index ∧ index < d.index ∧ d.index ≤ lines.length) :=
  ⟨fun hindex _ => ⟨terminates _, fun _ _ => solveBlock_progress hindex⟩,
    fun hindex _ => ⟨terminates _, fun _ _ => solveNested_progress hindex⟩⟩

end

def popTwice : List Line := ["loop 2:".toList, "    pop".toList, "dup".toList]

/-- The block ends at `dup`, and so does the loop around it. -/
theorem parsers_progress_popTwice :
    (∃ d, solveBlock (cursorAt popTwice 1) 0 ⟨2, 1⟩ = .ok ([(.pop : Op Binary64)], d) ∧
        d.index < popTwice.length ∧ ∃ line, popTwice[d.index]? = some line ∧ indent line ≤ 0) ∧
      ∃ d, solveNested .loopBlock (cursorAt popTwice 0) ⟨1, 1⟩ =
        .ok ((.loop 2 [.pop] : Op Binary64), d) ∧ 0 < d.index ∧ d.index ≤ 3 := by
  have hblock := (parsers_progress (F := Binary64) popTwice 1 ⟨2, 1⟩).1 (by decide) 0
  have hnested := (parsers_progress (F := Binary64) popTwice 0 ⟨1, 1⟩).2 (by decide) .loopBlock
  constructor
  · obtain ⟨-, -, -, hend | ⟨line, hline, -, hindent⟩⟩ :=
      hblock.2 [.pop] ⟨2, ["dup".toList]⟩ rfl
    · exact absurd hend (by decide)
    · exact ⟨⟨2, ["dup".toList]⟩, rfl, by decide, line, hline, hindent⟩
  · exact ⟨⟨2, ["dup".toList]⟩, rfl, (hnested.2 (.loop 2 [.pop]) ⟨2, ["dup".toList]⟩ rfl).2⟩

end Covm.Compiler
