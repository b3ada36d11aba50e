import Covm.Compiler.Answers
import Covm.Compiler.ProposalBlock

/-!
# The lines of an `if passed:` (`parse_block`)

Inside of a block an `if passed:`, or an `else:` without an `if:`, takes the lines behind it that are
deeper than the block, and not those that are deeper than itself. What stands beside it is taken for
a part of it, unless the block ends there.
-/

namespace Covm.Compiler

open Partial
open Text (trim indent isBlank)

variable {F : Type} {c : Cursor} {line : Line} {rest : List Line} {base : Nat}

/-- The operation of a header whose lines are collected. -/
def collectedOp (trimmed : Line) : Option (List (Op F) → Op F) :=
  if trimmed = "if passed:".toList then some .ifPassed
  else if trimmed = "else:".toList then some .elseBlock
  else none

/-- The lines behind a header that are deeper than it, and where they end. -/
def ownLines (c : Cursor) (line : Line) : List Line × Cursor :=
  collectLines (indent line) c.next.index c.next.rest

/-! ### Collecting lines -/

theorem ends_collectLines (base index : Nat) (lines : List Line) :
    Ends base (collectLines base index lines).2.rest := by
  induction lines generalizing index with
  | nil =>
    intro line hline
    cases hline
  | cons line lines ih =>
    simp only [collectLines]
    split_ifs with hblank hdedent
    · exact ih (index + 1)
    · intro other hother
      cases hother
      exact ⟨Bool.eq_false_iff.mpr hblank, hdedent⟩
    · exact ih (index + 1)

theorem mem_collectLines {index : Nat} {lines : List Line}
    (h : line ∈ (collectLines base index lines).1) : isBlank line = false ∧ base < indent line := by
  induction lines generalizing index with
  | nil => cases h
  | cons other lines ih =>
    simp only [collectLines] at h
    split_ifs at h with hblank hdedent
    · exact ih h
    · cases h
    · rcases List.mem_cons.mp h with rfl | hmem
      · exact ⟨Bool.eq_false_iff.mpr hblank, Nat.lt_of_not_le hdedent⟩
      · exact ih hmem

/-- If the deeper lines end where the less deep ones do, they are the same. -/
theorem collectLines_congr {deep index : Nat} {lines : List Line} (hle : base ≤ deep)
    (h : Ends base (collectLines deep index lines).2.rest) :
    collectLines base index lines = collectLines deep index lines := by
  induction lines generalizing index with
  | nil => rfl
  | cons line lines ih =>
    simp only [collectLines] at h ⊢
    split_ifs at h ⊢ with hblank hdedent hdedent' hdedent'
    · exact ih h
    · rfl
    · omega
    · have hline := (h line rfl).2
      omega
    · rw [ih h]

/-! ### The end of a block -/

variable [Number F] {pos : SourcePosition}

theorem blockItem_suffix {op : Op F} {c' : Cursor} (hc : c.rest = line :: rest)
    (h : (blockItem c line base pos).eval parser.solve = .ok (op, c')) : c'.rest <:+ rest := by
  have hsize : 2 * (rest.length + 1) < (Question.block c base pos : Question F).size := by
    simp [Question.size, Question.cursor, hc]
  have hwithin : Within (.block c base pos : Question F) rest (blockItem c line base pos) := by
    unfold blockItem
    split_ifs
    · exact parseBlockHeader_within hc hsize
    · exact parseStatement_within hc
  exact hwithin.eval (fun _ _ _ => Recursion.solve_fits) h

theorem solveBlock_ends {ops : List (Op F)} {c' : Cursor}
    (h : solveBlock c base pos = .ok (ops, c')) : Ends base c'.rest := by
  induction hn : c.rest.length using Nat.strongRecOn generalizing c ops with
  | _ n ih =>
    subst hn
    cases hc : c.rest with
    | nil =>
      rw [solveBlock_nil hc] at h
      cases h
      intro line hline
      rw [hc] at hline
      cases hline
    | cons line rest =>
      rw [hc, List.length_cons] at ih
      cases hblank : isBlank line with
      | true =>
        rw [solveBlock_blank hc hblank] at h
        exact ih _ (Nat.lt_succ_self _) h (by rw [Cursor.next_rest, hc, List.tail_cons])
      | false =>
        by_cases hdedent : indent line ≤ base
        · rw [solveBlock_dedent hc hblank hdedent] at h
          cases h
          intro other hother
          rw [hc] at hother
          cases hother
          exact ⟨hblank, hdedent⟩
        · rw [solveBlock_item hc hblank (Nat.lt_of_not_le hdedent)] at h
          cases hitem : (blockItem c line base ⟨pos.line + c.index, indent line + 1⟩ :
              Parser F _).eval parser.solve with
          | error e =>
            rw [hitem] at h
            cases h
          | ok r =>
            rw [hitem, ok_bind] at h
            cases hblock : (solveBlock r.2 base pos : Parse (List (Op F) × _)) with
            | error e =>
              rw [hblock] at h
              cases h
            | ok r' =>
              rw [hblock, ok_bind] at h
              cases h
              have hlength := (blockItem_suffix hc hitem).length_le
              exact ih _ (by omega) hblock rfl

/-- A block with all of its lines deeper is parsed to the end. -/
theorem solveBlock_consumes {ops : List (Op F)} {c' : Cursor}
    (hdeep : ∀ line ∈ c.rest, isBlank line = false ∧ base < indent line)
    (h : solveBlock c base pos = .ok (ops, c')) : c'.rest = [] := by
  have hends := solveBlock_ends h
  have hsuffix : c'.rest <:+ c.rest := Recursion.solve_fits (F := parser) h
  cases hrest : c'.rest with
  | nil => rfl
  | cons line lines =>
    rw [hrest] at hends hsuffix
    have hdedent := (hends line rfl).2
    have hline := (hdeep line (hsuffix.subset List.mem_cons_self)).2
    omega

/-! ### What a header takes -/

variable {f : List (Op F) → Op F}

theorem eval_blockItem_collected (hf : collectedOp (trim line) = some f) :
    (blockItem c line base pos).eval parser.solve = (do
      let r ← solveBlock ⟨0, (collectLines base c.next.index c.next.rest).1⟩ (base + 1) pos
      .ok (f r.1, (collectLines base c.next.index c.next.rest).2)) := by
  unfold collectedOp at hf
  split_ifs at hf with hpassed helse
  · cases hf
    have hcolon : endsInColon (trim line) = true := by
      rw [hpassed]
      decide
    have hkind : blockKind (trim line) = none := by
      rw [hpassed]
      decide
    simp only [blockItem, hcolon, if_true, parseBlockHeader, hkind, if_pos hpassed, parseCollected,
      Rec.eval_bind, eval_solveBlock]
    rfl
  · cases hf
    have hcolon : endsInColon (trim line) = true := by
      rw [helse]
      decide
    have hkind : blockKind (trim line) = none := by
      rw [helse]
      decide
    simp only [blockItem, hcolon, if_true, parseBlockHeader, hkind, if_neg hpassed, if_pos helse,
      parseCollected, Rec.eval_bind, eval_solveBlock]
    rfl

omit [Number F] in
theorem not_isBlank_of_collectedOp (hf : collectedOp (trim line) = some f) :
    isBlank line = false := by
  rw [← Bool.not_eq_true]
  intro hblank
  rw [collectedOp, Text.trim_of_isBlank hblank, if_neg (by decide), if_neg (by decide)] at hf
  cases hf

/-- The operation of a header has the operations of all of its own lines and no others, and the loop
of the enclosing block goes on where these lines end. -/
def TakesOwnLines (f : List (Op F) → Op F) (c : Cursor) (line : Line) (base : Nat)
    (pos : SourcePosition) : Prop :=
  ∃ ops last, solveBlock ⟨0, (ownLines c line).1⟩ (base + 1) pos = .ok (ops, last) ∧
    last.rest = [] ∧
    (blockItem c line base pos).eval parser.solve = .ok (f ops, (ownLines c line).2)

theorem ends_of_takesOwnLines (hf : collectedOp (trim line) = some f)
    (h : TakesOwnLines f c line base pos) : Ends base (ownLines c line).2.rest := by
  obtain ⟨own, last, -, -, heval⟩ := h
  rw [eval_blockItem_collected hf] at heval
  cases hblock : (solveBlock ⟨0, (collectLines base c.next.index c.next.rest).1⟩ (base + 1) pos :
      Parse (List (Op F) × _)) with
  | error e =>
    rw [hblock] at heval
    cases heval
  | ok r =>
    rw [hblock, ok_bind] at heval
    have hcursor := congrArg Prod.snd (Except.ok.inj heval)
    rw [← hcursor]
    exact ends_collectLines base _ _

theorem takesOwnLines_of_ends {ops : List (Op F)} {c' : Cursor} (hc : c.rest = line :: rest)
    (hf : collectedOp (trim line) = some f) (hindent : base < indent line)
    (h : solveBlock c base pos = .ok (ops, c')) (hends : Ends base (ownLines c line).2.rest) :
    TakesOwnLines f c line base ⟨pos.line + c.index, indent line + 1⟩ := by
  have hsame : collectLines base c.next.index c.next.rest = ownLines c line :=
    collectLines_congr hindent.le hends
  rw [solveBlock_item hc (not_isBlank_of_collectedOp hf) hindent, eval_blockItem_collected hf,
    hsame] at h
  cases hblock : (solveBlock ⟨0, (ownLines c line).1⟩ (base + 1)
      ⟨pos.line + c.index, indent line + 1⟩ : Parse (List (Op F) × _)) with
  | error e =>
    rw [hblock] at h
    cases h
  | ok r =>
    have hdeep : ∀ other ∈ (ownLines c line).1,
        isBlank other = false ∧ base + 1 < indent other := by
      intro other hother
      obtain ⟨hblank, hdeeper⟩ := mem_collectLines hother
      exact ⟨hblank, by omega⟩
    refine ⟨r.1, r.2, hblock, solveBlock_consumes hdeep hblock, ?_⟩
    rw [eval_blockItem_collected hf, hsame, hblock]
    rfl

/-- A header takes exactly its own lines iff the enclosing block ends behind them. -/
theorem takesOwnLines_iff {ops : List (Op F)} {c' : Cursor} (hc : c.rest = line :: rest)
    (hf : collectedOp (trim line) = some f) (hindent : base < indent line)
    (h : solveBlock c base pos = .ok (ops, c')) :
    TakesOwnLines f c line base ⟨pos.line + c.index, indent line + 1⟩ ↔
      Ends base (ownLines c line).2.rest :=
  ⟨ends_of_takesOwnLines hf, takesOwnLines_of_ends hc hf hindent h⟩

/-- An `if passed:` with a statement in it and a statement beside it. -/
def besideIfPassed : Cursor :=
  ⟨0, ["    if passed:".toList, "        pop".toList, "    dup".toList]⟩

theorem solveBlock_besideIfPassed :
    (solveBlock besideIfPassed 0 ⟨1, 1⟩ : Parse (List (Op Binary64) × Cursor)) =
      .ok ([.ifPassed [.pop, .dup]], ⟨3, []⟩) :=
  rfl

theorem takesOwnLines_iff_besideIfPassed :
    TakesOwnLines (F := Binary64) .ifPassed besideIfPassed "    if passed:".toList 0 ⟨1, 5⟩ ↔
      Ends 0 ["    dup".toList] := by
  have hc : besideIfPassed.rest = "    if passed:".toList :: _ := rfl
  exact takesOwnLines_iff hc rfl (by decide) solveBlock_besideIfPassed

theorem not_takesOwnLines_besideIfPassed :
    ¬ TakesOwnLines (F := Binary64) .ifPassed besideIfPassed "    if passed:".toList 0 ⟨1, 5⟩ := by
  intro h
  exact absurd (ends_of_takesOwnLines rfl h) (by decide)

end Covm.Compiler
