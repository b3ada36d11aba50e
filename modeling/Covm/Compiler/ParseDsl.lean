import Covm.Compiler.Parser

/-!
# The parser as a function

Every call moves the cursor forward before it makes another one, so that the calls come to an end:
`parser` is the recursion, and `parseDsl` is what it makes of a source text.
-/

namespace Covm.Compiler

open Partial
open Text (indent isBlank trim)

variable {F : Type}

namespace Question

def cursor : Question F → Cursor
  | .block c .. => c
  | .nested _ c _ => c
  | .whileLines c .. => c
  | .matchLines c .. => c
  | .dsl c _ => c

/-- A block begins where its header stands and needs one step more. -/
def size : Question F → Nat
  | .nested _ c _ => 2 * c.rest.length
  | q => 2 * q.cursor.rest.length + 1

/-- A block is only parsed where there is a line. -/
def Stands : Question F → Prop
  | .nested _ c _ => c.rest ≠ []
  | _ => True

/-- Where the cursor may be afterwards. -/
def Fits : (q : Question F) → Answer F q → Prop
  | .block c .., r => r.2.rest <:+ c.rest
  | .nested _ c _, r => r.2.rest <:+ c.rest.tail
  | .whileLines c .., r => r.2.rest <:+ c.rest
  | .matchLines c .., r => r.2.rest <:+ c.rest
  | .dsl .., _ => True

/-- What is asked for `q₀`. -/
def Below (q₀ q : Question F) : Prop := q.size < q₀.size ∧ q.Stands

end Question

/-! ### The calls come to an end -/

section
variable {q₀ : Question F} {α β : Type} {rest rest' : List Line}

/-- All questions are smaller than `q₀`, and the cursor ends up behind `rest`. -/
def Within (q₀ : Question F) (rest : List Line) (x : Parser F (α × Cursor)) : Prop :=
  x.Bounded q₀.Below Question.Fits fun r => r.2.rest <:+ rest

theorem Within.mono {x : Parser F (α × Cursor)} (h : Within q₀ rest x) (hrest : rest <:+ rest') :
    Within q₀ rest' x :=
  Rec.Bounded.mono h (fun _ hq => hq) fun _ hr => hr.trans hrest

theorem Within.bind {x : Parser F (α × Cursor)} {f : α × Cursor → Parser F (β × Cursor)}
    (hx : Within q₀ rest x) (hf : ∀ a c, c.rest <:+ rest → Within q₀ rest' (f (a, c))) :
    Within q₀ rest' (x >>= f) :=
  Rec.Bounded.bind hx fun r hr => hf r.1 r.2 hr

theorem within_pure {a : α} {c : Cursor} (h : c.rest <:+ rest) : Within q₀ rest (pure (a, c)) := h

theorem within_throw {e : Failure} :
    Within q₀ rest (Rec.throw e : Parser F (α × Cursor)) := trivial

theorem within_parseBlock {c : Cursor} {baseIndent : Nat} {pos : SourcePosition}
    (hc : c.rest <:+ rest) (h : 2 * rest.length + 1 < q₀.size) :
    Within q₀ rest (parseBlock c baseIndent pos) := by
  have hlen := hc.length_le
  have hsize : 2 * c.rest.length + 1 < q₀.size := by omega
  exact ⟨⟨hsize, trivial⟩, fun r hr => List.IsSuffix.trans hr hc⟩

theorem within_parseWhileLines {c : Cursor} {currentIndent : Nat} {pos : SourcePosition}
    {parts : WhileParts F} (hc : c.rest <:+ rest) (h : 2 * rest.length + 1 < q₀.size) :
    Within q₀ rest (parseWhileLines c currentIndent pos parts) := by
  have hlen := hc.length_le
  have hsize : 2 * c.rest.length + 1 < q₀.size := by omega
  exact ⟨⟨hsize, trivial⟩, fun r hr => List.IsSuffix.trans hr hc⟩

theorem within_parseMatchLines {c : Cursor} {currentIndent : Nat} {pos : SourcePosition}
    {parts : MatchParts F} (hc : c.rest <:+ rest) (h : 2 * rest.length + 1 < q₀.size) :
    Within q₀ rest (parseMatchLines c currentIndent pos parts) := by
  have hlen := hc.length_le
  have hsize : 2 * c.rest.length + 1 < q₀.size := by omega
  exact ⟨⟨hsize, trivial⟩, fun r hr => List.IsSuffix.trans hr hc⟩

theorem within_parseNested {kind : BlockKind} {c : Cursor} {line : Line} {pos : SourcePosition}
    (hc : c.rest = line :: rest) (h : 2 * (rest.length + 1) < q₀.size) :
    Within q₀ rest (parseNested kind c pos) := by
  have hsize : 2 * c.rest.length < q₀.size := by rwa [hc]
  have hstands : c.rest ≠ [] := by simp [hc]
  refine ⟨⟨hsize, hstands⟩, fun r hr => ?_⟩
  have hfits : r.2.rest <:+ c.rest.tail := hr
  rwa [hc] at hfits

theorem within_ofExcept_bind {x : Parse α} {f : α → Parser F (β × Cursor)}
    (hf : ∀ a, Within q₀ rest (f a)) : Within q₀ rest (Rec.ofExcept x >>= f) := by
  cases x with
  | ok a => exact hf a
  | error e => trivial

theorem within_lineAt_bind {c : Cursor} {f : Line → Parser F (β × Cursor)}
    (hf : ∀ line ls, c.rest = line :: ls → Within q₀ rest (f line)) :
    Within q₀ rest (lineAt c >>= f) := by
  unfold lineAt
  cases hrest : c.rest with
  | nil => trivial
  | cons line ls => exact hf line ls hrest

end

@[simp] theorem Cursor.next_rest (c : Cursor) : c.next.rest = c.rest.tail := rfl

section
variable {q₀ : Question F} {c : Cursor} {line : Line} {rest : List Line} {pos : SourcePosition}

/-! A block header and the blocks behind it. -/

theorem parseIfBlock_within (hc : c.rest = line :: rest) (h : 2 * rest.length + 1 < q₀.size) :
    Within q₀ rest (parseIfBlock c pos) := by
  refine within_lineAt_bind fun _ _ _ => ?_
  have hnext : c.next.rest <:+ rest := by simp [hc]
  refine (within_parseBlock hnext h).bind fun thenOps c' hc' => ?_
  have hnext' : c'.next.rest <:+ rest := (List.tail_suffix _).trans hc'
  dsimp only [parseElse]
  split
  · split_ifs
    · exact (within_parseBlock hnext' h).bind fun elseOps c'' hc'' => within_pure hc''
    · exact within_pure hc'
  · exact within_pure hc'

theorem parseLoopBlock_within (hc : c.rest = line :: rest) (h : 2 * rest.length + 1 < q₀.size) :
    Within q₀ rest (parseLoopBlock c pos) := by
  refine within_lineAt_bind fun _ _ _ => within_ofExcept_bind fun count => ?_
  have hnext : c.next.rest <:+ rest := by simp [hc]
  exact (within_parseBlock hnext h).bind fun body c' hc' => within_pure hc'

theorem parseFunctionBlock_within (hc : c.rest = line :: rest)
    (h : 2 * rest.length + 1 < q₀.size) : Within q₀ rest (parseFunctionBlock c pos) := by
  refine within_lineAt_bind fun _ _ _ => within_ofExcept_bind fun header => ?_
  have hnext : c.next.rest <:+ rest := by simp [hc]
  exact (within_parseBlock hnext h).bind fun body c' hc' => within_pure hc'

theorem parseWhileBlock_within (hc : c.rest = line :: rest) (h : 2 * rest.length + 1 < q₀.size) :
    Within q₀ rest (parseWhileBlock c pos) := by
  refine within_lineAt_bind fun _ _ _ => ?_
  have hnext : c.next.rest <:+ rest := by simp [hc]
  exact (within_parseWhileLines hnext h).bind fun parts c' hc' => within_pure hc'

theorem parseMatchBlock_within (hc : c.rest = line :: rest) (h : 2 * rest.length + 1 < q₀.size) :
    Within q₀ rest (parseMatchBlock c pos) := by
  refine within_lineAt_bind fun _ _ _ => ?_
  have hnext : c.next.rest <:+ rest := by simp [hc]
  refine (within_parseMatchLines hnext h).bind fun parts c' hc' => ?_
  dsimp only
  split_ifs
  · exact within_throw
  · exact within_pure hc'

theorem parseNestedBlock_within {kind : BlockKind} (hc : c.rest = line :: rest)
    (h : 2 * rest.length + 1 < q₀.size) : Within q₀ rest (parseNestedBlock c pos kind) := by
  cases kind with
  | ifBlock => exact parseIfBlock_within hc h
  | whileBlock => exact parseWhileBlock_within hc h
  | functionBlock => exact parseFunctionBlock_within hc h
  | matchBlock => exact parseMatchBlock_within hc h
  | loopBlock => exact parseLoopBlock_within hc h

theorem collectLines_length (baseIndent index : Nat) (lines : List Line) :
    (collectLines baseIndent index lines).1.length ≤ lines.length := by
  induction lines generalizing index with
  | nil => simp [collectLines]
  | cons line lines ih =>
    simp only [collectLines]
    split_ifs
    · exact (ih _).trans (by simp)
    · simp
    · simpa using ih (index + 1)

theorem collectLines_suffix (baseIndent index : Nat) (lines : List Line) :
    (collectLines baseIndent index lines).2.rest <:+ lines := by
  induction lines generalizing index with
  | nil => simp [collectLines]
  | cons line lines ih =>
    simp only [collectLines]
    split_ifs
    · exact (ih _).trans (List.suffix_cons _ _)
    · exact List.suffix_refl _
    · exact (ih _).trans (List.suffix_cons _ _)

theorem parseCollected_within {f : List (Op F) → Op F} {baseIndent : Nat}
    (hc : c.rest = line :: rest) (h : 2 * rest.length + 1 < q₀.size) :
    Within q₀ rest (parseCollected f c baseIndent pos) := by
  have hnext : c.next.rest = rest := by simp [hc]
  have hlen := collectLines_length baseIndent c.next.index c.next.rest
  have hsuffix := collectLines_suffix baseIndent c.next.index c.next.rest
  rw [hnext] at hlen hsuffix
  refine Rec.Bounded.bind (S := fun _ => True) ⟨⟨?_, trivial⟩, fun _ _ => trivial⟩ fun _ _ => ?_
  · show 2 * (collectLines baseIndent c.next.index c.next.rest).1.length + 1 < q₀.size
    rw [hnext]
    omega
  · simp only [hnext]
    exact within_pure hsuffix

theorem parseBlockHeader_within {baseIndent : Nat} (hc : c.rest = line :: rest)
    (h : 2 * (rest.length + 1) < q₀.size) :
    Within q₀ rest (parseBlockHeader c line baseIndent pos) := by
  unfold parseBlockHeader
  split
  · exact within_parseNested hc h
  · split_ifs
    · exact parseCollected_within hc (by omega)
    · exact parseCollected_within hc (by omega)
    · exact within_throw

variable [Number F]

/-! The loops, which go on behind what they have parsed. -/

theorem parseStatement_within (hc : c.rest = line :: rest) :
    Within q₀ rest (parseStatement c line pos) :=
  within_ofExcept_bind fun _ => within_pure (by simp [hc])

theorem parseBlockLines_within {baseIndent : Nat} (h : 2 * c.rest.length < q₀.size) :
    Within q₀ c.rest (parseBlockLines c baseIndent pos) := by
  unfold parseBlockLines
  split
  · exact within_pure (List.suffix_refl _)
  · rename_i line rest hc
    rw [hc, List.length_cons] at h
    have hrest : rest <:+ c.rest := hc ▸ List.suffix_cons line rest
    have hnext : c.next.rest <:+ rest := by simp [hc]
    split_ifs with hblank hdedent hcolon
    · exact (within_parseBlock hnext (by omega)).mono hrest
    · exact within_pure (List.suffix_refl _)
    all_goals
      refine Within.mono ?_ hrest
    · refine (parseBlockHeader_within hc (by omega)).bind fun op c' hc' => ?_
      exact (within_parseBlock hc' (by omega)).bind fun ops c'' hc'' => within_pure hc''
    · refine (parseStatement_within hc).bind fun op c' hc' => ?_
      exact (within_parseBlock hc' (by omega)).bind fun ops c'' hc'' => within_pure hc''

theorem parseWhileLine_within (hc : c.rest = line :: rest)
    (h : 2 * (rest.length + 1) < q₀.size) : Within q₀ rest (parseWhileLine c line pos) := by
  unfold parseWhileLine
  split_ifs
  · split
    · exact within_parseNested hc h
    · exact within_throw
  · exact parseStatement_within hc

theorem whileLoop_within {currentIndent : Nat} {parts : WhileParts F}
    (h : 2 * c.rest.length < q₀.size) :
    Within q₀ c.rest (whileLoop c currentIndent pos parts) := by
  unfold whileLoop
  split
  · exact within_pure (List.suffix_refl _)
  · rename_i line rest hc
    rw [hc, List.length_cons] at h
    have hrest : rest <:+ c.rest := hc ▸ List.suffix_cons line rest
    have hnext : c.next.rest <:+ rest := by simp [hc]
    split_ifs with hdedent hcondition
    · exact within_pure (List.suffix_refl _)
    all_goals
      refine Within.mono ?_ hrest
    · refine (within_parseBlock hnext (by omega)).bind fun condition c' hc' => ?_
      exact within_parseWhileLines hc' (by omega)
    · refine (parseWhileLine_within hc (by omega)).bind fun op c' hc' => ?_
      exact within_parseWhileLines hc' (by omega)

theorem matchLoop_within {currentIndent : Nat} {parts : MatchParts F}
    (h : 2 * c.rest.length < q₀.size) :
    Within q₀ c.rest (matchLoop c currentIndent pos parts) := by
  unfold matchLoop
  split
  · exact within_pure (List.suffix_refl _)
  · rename_i line rest hc
    rw [hc, List.length_cons] at h
    have hrest : rest <:+ c.rest := hc ▸ List.suffix_cons line rest
    have hnext : c.next.rest <:+ rest := by simp [hc]
    split_ifs with hdedent hvalue hcase hdefault
    · exact within_pure (List.suffix_refl _)
    all_goals
      refine Within.mono ?_ hrest
    · refine (within_parseBlock hnext (by omega)).bind fun ops c' hc' => ?_
      exact within_parseMatchLines hc' (by omega)
    · refine within_ofExcept_bind fun value => ?_
      refine (within_parseBlock hnext (by omega)).bind fun ops c' hc' => ?_
      exact within_parseMatchLines hc' (by omega)
    · refine (within_parseBlock hnext (by omega)).bind fun ops c' hc' => ?_
      exact within_parseMatchLines hc' (by omega)
    · refine (parseStatement_within hc).bind fun op c' hc' => ?_
      exact within_parseMatchLines hc' (by omega)

theorem parseTopLine_within (hc : c.rest = line :: rest) (h : 2 * (rest.length + 1) < q₀.size) :
    Within q₀ rest (parseTopLine c line pos) := by
  unfold parseTopLine
  split_ifs
  · split
    · exact within_parseNested hc h
    · exact within_throw
  · exact parseStatement_within hc

omit [Number F] in
theorem bounded_parseDslLines {state : DslState F} (h : 2 * c.rest.length + 1 < q₀.size) :
    (parseDslLines c state).Bounded q₀.Below Question.Fits fun _ => True :=
  ⟨⟨h, trivial⟩, fun _ _ => trivial⟩

theorem dslLoop_bounded {state : DslState F} (h : 2 * c.rest.length < q₀.size) :
    (dslLoop c state).Bounded q₀.Below Question.Fits fun _ => True := by
  unfold dslLoop
  split
  · trivial
  · rename_i line rest hc
    rw [hc, List.length_cons] at h
    have hnext : c.next.rest.length = rest.length := by simp [hc]
    split_ifs with hblank
    · exact bounded_parseDslLines (by omega)
    · refine Rec.Bounded.bind (Rec.bounded_ofExcept (S := fun _ => True) fun _ _ => trivial)
        fun directive _ => ?_
      cases directive with
      | some state' => exact bounded_parseDslLines (by omega)
      | none =>
        refine Rec.Bounded.bind (parseTopLine_within hc (by omega)) fun r hr => ?_
        have hlen := hr.length_le
        refine Rec.Bounded.bind (bounded_parseDslLines (by omega)) fun _ _ => ?_
        trivial

/-- Calls are made for fewer lines, and blocks are parsed where there is a line. -/
theorem body_bounded (q : Question F) : (body q).Bounded q.Below Question.Fits q.Fits := by
  cases q with
  | block c baseIndent pos => exact parseBlockLines_within (Nat.lt_succ_self _)
  | nested kind c pos =>
    cases hc : c.rest with
    | nil =>
      have hline : (lineAt c : Parser F Line) = .throw .panic := by simp [lineAt, hc]
      cases kind <;>
        simp only [body, parseNestedBlock, parseIfBlock, parseWhileBlock, parseFunctionBlock,
          parseMatchBlock, parseLoopBlock, hline] <;> exact trivial
    | cons line rest =>
      have hfits : c.rest.tail = rest := by rw [hc, List.tail_cons]
      have hwithin : Within (.nested kind c pos) rest (parseNestedBlock c pos kind : Parser F _) :=
        parseNestedBlock_within hc (by simp [Question.size, hc]; omega)
      rwa [← hfits] at hwithin
  | whileLines c currentIndent pos parts => exact whileLoop_within (Nat.lt_succ_self _)
  | matchLines c currentIndent pos parts => exact matchLoop_within (Nat.lt_succ_self _)
  | dsl c state => exact dslLoop_bounded (Nat.lt_succ_self _)

/-! ### The parser -/

def parser : Recursion (Question F) (Answer F) Failure where
  body := body
  size := Question.size
  Fits := Question.Fits
  descends q := Rec.Bounded.mono (body_bounded q) (fun _ hq => hq.1) fun _ hr => hr

/-- The question `parse_dsl` answers. -/
def program (source : String) : Question F :=
  .dsl ⟨0, Text.lines '\n' '\r' source.toList⟩ .start

def solveBlock (c : Cursor) (baseIndent : Nat) (pos : SourcePosition) :
    Parse (List (Op F) × Cursor) := parser.solve (.block c baseIndent pos)

def solveNested (kind : BlockKind) (c : Cursor) (pos : SourcePosition) : Parse (Op F × Cursor) :=
  parser.solve (.nested kind c pos)

def solveWhileLines (c : Cursor) (currentIndent : Nat) (pos : SourcePosition)
    (parts : WhileParts F) : Parse (WhileParts F × Cursor) :=
  parser.solve (.whileLines c currentIndent pos parts)

def solveMatchLines (c : Cursor) (currentIndent : Nat) (pos : SourcePosition)
    (parts : MatchParts F) : Parse (MatchParts F × Cursor) :=
  parser.solve (.matchLines c currentIndent pos parts)

def solveDsl (c : Cursor) (state : DslState F) : Parse (List (Op F) × LifecycleConfig F) :=
  parser.solve (.dsl c state)

def parseDsl (source : String) : Parse (List (Op F) × LifecycleConfig F) :=
  parser.solve (program source)

theorem stands_of_reaches {q q' : Question F} (h : parser.Reaches q q') (hq : q.Stands) :
    q'.Stands := by
  induction h with
  | refl => exact hq
  | tail _ hasks _ => exact (Recursion.bound_of_asked (body_bounded _) hasks).2

end

end Covm.Compiler
