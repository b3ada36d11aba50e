import Covm.Compiler.ParseDsl

/-!
# What the parser makes of one line

For each call and each kind of line at its cursor, the answer in terms of the answers to further
calls.
-/

namespace Covm.Compiler

open Partial
open Text (trim words indent isBlank)

variable {F : Type} [Number F] {c : Cursor} {pos : SourcePosition} {line : Line} {ls : List Line}

section
variable {α : Type}

@[simp] theorem ok_bind {β : Type} (a : α) (f : α → Parse β) : (Except.ok a >>= f) = f a := rfl

theorem exists_of_bind {β : Type} {x : Parse α} {f : α → Parse β} {b : β} (h : x >>= f = .ok b) :
    ∃ a, x = .ok a ∧ f a = .ok b := by
  cases x with
  | ok a => exact ⟨a, rfl, h⟩
  | error e => exact nomatch h

@[simp] theorem eval_solveBlock (baseIndent : Nat) :
    (parseBlock c baseIndent pos : Parser F _).eval parser.solve = solveBlock c baseIndent pos :=
  eval_parseBlock baseIndent

@[simp] theorem eval_solveNested (kind : BlockKind) :
    (parseNested kind c pos : Parser F _).eval parser.solve = solveNested kind c pos :=
  eval_parseNested kind

@[simp] theorem eval_solveWhileLines (currentIndent : Nat) (parts : WhileParts F) :
    (parseWhileLines c currentIndent pos parts).eval parser.solve =
      solveWhileLines c currentIndent pos parts :=
  eval_parseWhileLines currentIndent parts

@[simp] theorem eval_solveMatchLines (currentIndent : Nat) (parts : MatchParts F) :
    (parseMatchLines c currentIndent pos parts).eval parser.solve =
      solveMatchLines c currentIndent pos parts :=
  eval_parseMatchLines currentIndent parts

@[simp] theorem eval_solveDsl (state : DslState F) :
    (parseDslLines c state).eval parser.solve = solveDsl c state :=
  eval_parseDslLines state

theorem solveBlock_eq (baseIndent : Nat) : (solveBlock c baseIndent pos : Parse (List (Op F) × _)) =
    (parseBlockLines c baseIndent pos).eval parser.solve :=
  Recursion.solve_eq _

theorem solveNested_eq (kind : BlockKind) : (solveNested kind c pos : Parse (Op F × _)) =
    (parseNestedBlock c pos kind).eval parser.solve :=
  Recursion.solve_eq _

theorem solveWhileLines_eq (currentIndent : Nat) (parts : WhileParts F) :
    solveWhileLines c currentIndent pos parts =
      (whileLoop c currentIndent pos parts).eval parser.solve :=
  Recursion.solve_eq _

theorem solveMatchLines_eq (currentIndent : Nat) (parts : MatchParts F) :
    solveMatchLines c currentIndent pos parts =
      (matchLoop c currentIndent pos parts).eval parser.solve :=
  Recursion.solve_eq _

theorem solveDsl_eq (state : DslState F) :
    solveDsl c state = (dslLoop c state).eval parser.solve :=
  Recursion.solve_eq _

theorem eval_lineAt (hc : c.rest = line :: ls) :
    (lineAt c : Parser F Line).eval parser.solve = .ok line := by
  unfold lineAt
  rw [hc]
  rfl

end

/-! ### `parse_block` -/

section
variable {baseIndent : Nat}

/-- A line of a block that is not blank. -/
def blockItem (c : Cursor) (line : Line) (baseIndent : Nat) (pos : SourcePosition) :
    Parser F (Op F × Cursor) :=
  if endsInColon (trim line) then parseBlockHeader c line baseIndent pos
  else parseStatement c line pos

theorem solveBlock_nil (hc : c.rest = []) :
    solveBlock c baseIndent pos = .ok (([] : List (Op F)), c) := by
  rw [solveBlock_eq, parseBlockLines, hc]
  rfl

theorem solveBlock_blank (hc : c.rest = line :: ls) (hblank : isBlank line = true) :
    (solveBlock c baseIndent pos : Parse (List (Op F) × _)) =
      solveBlock c.next baseIndent pos := by
  rw [solveBlock_eq, parseBlockLines, hc]
  dsimp only
  rw [if_pos hblank, eval_solveBlock]

theorem solveBlock_dedent (hc : c.rest = line :: ls) (hblank : isBlank line = false)
    (hindent : indent line ≤ baseIndent) :
    solveBlock c baseIndent pos = .ok (([] : List (Op F)), c) := by
  rw [solveBlock_eq, parseBlockLines, hc]
  simp [hblank, hindent]

theorem solveBlock_item (hc : c.rest = line :: ls) (hblank : isBlank line = false)
    (hindent : baseIndent < indent line) : (solveBlock c baseIndent pos : Parse (List (Op F) × _)) =
      (do
        let r ← (blockItem c line baseIndent ⟨pos.line + c.index, indent line + 1⟩).eval
          parser.solve
        let r' ← solveBlock r.2 baseIndent pos
        .ok (pushFront r.1 r'.1, r'.2)) := by
  rw [solveBlock_eq, parseBlockLines, hc]
  simp only [hblank, Bool.false_eq_true, if_false, if_neg (Nat.not_le.mpr hindent), blockItem]
  split_ifs <;> simp only [Rec.eval_bind, eval_solveBlock] <;> rfl

end

/-! ### `parse_while_block` -/

section
variable {currentIndent : Nat} {parts : WhileParts F}

theorem solveWhileLines_nil (hc : c.rest = []) :
    solveWhileLines c currentIndent pos parts = .ok (parts, c) := by
  rw [solveWhileLines_eq, whileLoop, hc]
  rfl

theorem solveWhileLines_dedent (hc : c.rest = line :: ls) (hindent : indent line ≤ currentIndent) :
    solveWhileLines c currentIndent pos parts = .ok (parts, c) := by
  rw [solveWhileLines_eq, whileLoop, hc]
  simp [hindent]

theorem solveWhileLines_condition (hc : c.rest = line :: ls) (hindent : currentIndent < indent line)
    (hline : trim line = "condition:".toList) : solveWhileLines c currentIndent pos parts = (do
      let r ← solveBlock c.next (indent line) ⟨pos.line + c.index, indent line + 1⟩
      solveWhileLines r.2 currentIndent pos
        { parts with hasExplicitCondition := true, condition := r.1 }) := by
  rw [solveWhileLines_eq, whileLoop, hc]
  dsimp only
  rw [if_neg (Nat.not_le.mpr hindent), if_pos hline, Rec.eval_bind, eval_solveBlock]
  simp only [eval_solveWhileLines]

theorem solveWhileLines_item (hc : c.rest = line :: ls) (hindent : currentIndent < indent line)
    (hline : trim line ≠ "condition:".toList) : solveWhileLines c currentIndent pos parts = (do
      let r ← (parseWhileLine c line ⟨pos.line + c.index, indent line + 1⟩).eval parser.solve
      solveWhileLines r.2 currentIndent pos { parts with body := push r.1 parts.body }) := by
  rw [solveWhileLines_eq, whileLoop, hc]
  dsimp only
  rw [if_neg (Nat.not_le.mpr hindent), if_neg hline, Rec.eval_bind]
  simp only [eval_solveWhileLines]

theorem blockKind_of_whileBlockKind {trimmed : Line} {kind : BlockKind}
    (h : whileBlockKind trimmed = some kind) : blockKind trimmed = some kind := by
  unfold whileBlockKind at h
  unfold blockKind
  split_ifs at h with hif hwhile hloop hmatch
  · rw [if_pos hif, h]
  · rw [if_neg hif, if_pos hwhile, h]
  · obtain ⟨text, rfl⟩ := hloop
    rw [if_neg hif, if_neg hwhile, if_neg (by simp), if_neg (by simp), if_pos (by simp), h]
  · subst hmatch
    rw [← h]
    decide

theorem solveNested_while (hc : c.rest = line :: ls) :
    (solveNested .whileBlock c pos : Parse (Op F × _)) = (do
      let r ← solveWhileLines c.next (indent line) pos ⟨[], [], false⟩
      .ok (r.1.toOp, r.2)) := by
  rw [solveNested_eq, parseNestedBlock, parseWhileBlock, Rec.eval_bind, eval_lineAt hc, ok_bind,
    Rec.eval_bind, eval_solveWhileLines]
  rfl

end

/-! ### `parse_match_block` -/

section
variable {currentIndent : Nat} {parts : MatchParts F}

theorem solveMatchLines_nil (hc : c.rest = []) :
    solveMatchLines c currentIndent pos parts = .ok (parts, c) := by
  rw [solveMatchLines_eq, matchLoop, hc]
  rfl

theorem solveMatchLines_dedent (hc : c.rest = line :: ls) (hindent : indent line ≤ currentIndent) :
    solveMatchLines c currentIndent pos parts = .ok (parts, c) := by
  rw [solveMatchLines_eq, matchLoop, hc]
  simp [hindent]

theorem solveMatchLines_value (hc : c.rest = line :: ls) (hindent : currentIndent < indent line)
    (hline : trim line = "value:".toList) : solveMatchLines c currentIndent pos parts = (do
      let r ← solveBlock c.next (indent line) ⟨pos.line + c.index + 1, indent line + 1⟩
      solveMatchLines r.2 currentIndent pos { parts with valueOps := r.1 }) := by
  rw [solveMatchLines_eq, matchLoop, hc]
  dsimp only
  rw [if_neg (Nat.not_le.mpr hindent), if_pos hline, Rec.eval_bind, eval_solveBlock]
  simp only [eval_solveMatchLines]

theorem solveMatchLines_case (hc : c.rest = line :: ls) (hindent : currentIndent < indent line)
    (hline : "case ".toList <+: trim line) : solveMatchLines c currentIndent pos parts = (do
      let value ← parseCaseValue line ⟨pos.line + c.index, indent line + 1⟩
      let r ← solveBlock c.next (indent line) ⟨pos.line + c.index + 1, indent line + 1⟩
      solveMatchLines r.2 currentIndent pos
        { parts with cases := parts.cases ++ [(.number value, r.1)] }) := by
  have hvalue : trim line ≠ "value:".toList := by
    rintro heq
    rw [heq] at hline
    exact absurd hline (by decide)
  rw [solveMatchLines_eq, matchLoop, hc]
  dsimp only
  rw [if_neg (Nat.not_le.mpr hindent), if_neg hvalue, if_pos hline, Rec.eval_bind,
    Rec.eval_ofExcept]
  simp only [Rec.eval_bind, eval_solveBlock, eval_solveMatchLines]

theorem solveMatchLines_default (hc : c.rest = line :: ls) (hindent : currentIndent < indent line)
    (hline : trim line = "default:".toList) : solveMatchLines c currentIndent pos parts = (do
      let r ← solveBlock c.next (indent line) ⟨pos.line + c.index + 1, indent line + 1⟩
      solveMatchLines r.2 currentIndent pos { parts with defaultOps := some r.1 }) := by
  rw [solveMatchLines_eq, matchLoop, hc]
  dsimp only
  rw [if_neg (Nat.not_le.mpr hindent), if_neg (by rw [hline]; decide),
    if_neg (by rw [hline]; decide), if_pos hline, Rec.eval_bind, eval_solveBlock]
  simp only [eval_solveMatchLines]

theorem solveNested_match (hc : c.rest = line :: ls) :
    (solveNested .matchBlock c pos : Parse (Op F × _)) = (do
      let r ← solveMatchLines c.next (indent line) pos ⟨[], [], none⟩
      if r.1.valueOps.isEmpty then fail (.missingMatchValue pos)
      else .ok (.matchOp r.1.valueOps r.1.cases r.1.defaultOps, r.2)) := by
  rw [solveNested_eq, parseNestedBlock, parseMatchBlock, Rec.eval_bind, eval_lineAt hc, ok_bind,
    Rec.eval_bind, eval_solveMatchLines]
  congr 1
  funext r
  obtain ⟨parts, d⟩ := r
  dsimp only
  split_ifs <;> rfl

end

end Covm.Compiler
