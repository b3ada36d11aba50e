import Covm.Compiler.Settings

/-!
# Proposal blocks (`compiler/proposal_block.rs`)

A proposal block has lines to execute, a part for when the proposal passed and a part for when it did
not. The loop over a part ends where the whole block does: it compares with the indentation of the
block, not with that of `if passed:`. So `else:` and what follows it belong to the part before it,
and no block has an else part.
-/

namespace Covm.Compiler

open Text (trim indent isBlank)

/-- The errors of `CompilerError` that a proposal block can have. -/
inductive ProposalBlockFailure where
  | duplicateIfPassedBlock (pos : SourcePosition)
  | duplicateElseBlock (pos : SourcePosition)
  | elseWithoutIfPassed (pos : SourcePosition)
  | panic

def ProposalBlockFailure.display : ProposalBlockFailure → String
  | duplicateIfPassedBlock pos =>
    s!"Duplicate if passed block in proposal_lifecycle {CompilerError.place pos}"
  | duplicateElseBlock pos =>
    s!"Duplicate else block in proposal_lifecycle {CompilerError.place pos}"
  | elseWithoutIfPassed pos =>
    s!"Else block without if passed block in proposal_lifecycle {CompilerError.place pos}"
  | panic => "index out of bounds"

structure ProposalParts where
  executionBlock : List Line
  passedBlock : List Line
  failedBlock : Option (List Line)
  foundIfPassed : Bool
  foundElse : Bool

/-- The lines of one part. -/
def partLines (currentIndent : Nat) : Nat → List Line → List Line × Cursor
  | index, [] => ([], ⟨index, []⟩)
  | index, line :: rest =>
    if isBlank line = false ∧ indent line ≤ currentIndent then ([], ⟨index, line :: rest⟩)
    else if isBlank line then partLines currentIndent (index + 1) rest
    else
      let (lines, c) := partLines currentIndent (index + 1) rest
      (line :: lines, c)

theorem length_partLines_le (currentIndent index : Nat) (lines : List Line) :
    (partLines currentIndent index lines).2.rest.length ≤ lines.length := by
  induction lines generalizing index with
  | nil => exact le_rfl
  | cons line rest ih =>
    rw [partLines]
    split_ifs
    · exact le_rfl
    · exact (ih _).trans (Nat.le_succ _)
    · exact (ih _).trans (Nat.le_succ _)

/-- The loop over the lines of a block. -/
def proposalLines (currentIndent : Nat) (pos : SourcePosition) (index : Nat) (lines : List Line)
    (parts : ProposalParts) : Except ProposalBlockFailure (ProposalParts × Cursor) :=
  match lines with
  | [] => .ok (parts, ⟨index, []⟩)
  | line :: rest =>
    if isBlank line = false ∧ indent line ≤ currentIndent then .ok (parts, ⟨index, line :: rest⟩)
    else if isBlank line then proposalLines currentIndent pos (index + 1) rest parts
    else
      let currentPos : SourcePosition := ⟨pos.line + index, indent line + 1⟩
      let part := partLines currentIndent (index + 1) rest
      if trim line = "if passed:".toList then
        if parts.foundIfPassed then .error (.duplicateIfPassedBlock currentPos)
        else proposalLines currentIndent pos part.2.index part.2.rest
          { parts with foundIfPassed := true, passedBlock := part.1 }
      else if trim line = "else:".toList then
        if parts.foundElse then .error (.duplicateElseBlock currentPos)
        else if parts.foundIfPassed = false then .error (.elseWithoutIfPassed currentPos)
        else proposalLines currentIndent pos part.2.index part.2.rest
          { parts with foundElse := true, failedBlock := some part.1 }
      else
        proposalLines currentIndent pos (index + 1) rest
          { parts with executionBlock := parts.executionBlock ++ [line] }
termination_by lines.length
decreasing_by
  all_goals
    have := length_partLines_le currentIndent (index + 1) rest
    simp only [List.length_cons]
    omega

def parseProposalBlock (c : Cursor) (pos : SourcePosition) :
    Except ProposalBlockFailure ((List Line × List Line × Option (List Line)) × Cursor) :=
  match c.rest with
  | [] => .error .panic
  | opening :: rest => do
    let (parts, c) ← proposalLines (indent opening) pos (c.index + 1) rest
      ⟨[], [], none, false, false⟩
    return ((parts.executionBlock, parts.passedBlock, parts.failedBlock), c)

/-! ### What a block is read as -/

/-- The lines that are not blank. -/
def visible (lines : List Line) : List Line := lines.filter fun line => !isBlank line

def Deeper (base : Nat) (lines : List Line) : Prop :=
  ∀ line ∈ lines, isBlank line = true ∨ base < indent line

instance (base : Nat) (lines : List Line) : Decidable (Deeper base lines) :=
  inferInstanceAs (Decidable (∀ line ∈ lines, isBlank line = true ∨ base < indent line))

/-- A block with the parts of `parseProposalBlock`, blank lines included. -/
structure ProposalBlock where
  opening : Line
  execution : List Line
  ifLine : Line
  passed : List Line
  elsePart : Option (Line × List Line)
  deeper : Deeper (indent opening) execution
  unmarked : ∀ line ∈ execution, trim line ≠ "if passed:".toList ∧ trim line ≠ "else:".toList
  ifPassed : trim ifLine = "if passed:".toList ∧ indent opening < indent ifLine
  passedDeeper : Deeper (indent ifLine) passed
  elseDeeper : ∀ part ∈ elsePart, trim part.1 = "else:".toList ∧
    indent part.1 = indent ifLine ∧ Deeper (indent part.1) part.2

namespace ProposalBlock

def elseLines (block : ProposalBlock) : List Line :=
  block.elsePart.elim [] fun part => part.1 :: part.2

def lines (block : ProposalBlock) : List Line :=
  block.opening :: (block.execution ++ block.ifLine :: (block.passed ++ block.elseLines))

end ProposalBlock

/-- The lines end, or go on with one that is not deeper. -/
def Ends (base : Nat) (lines : List Line) : Prop :=
  ∀ line ∈ lines.head?, isBlank line = false ∧ indent line ≤ base

instance (base : Nat) (lines : List Line) : Decidable (Ends base lines) :=
  inferInstanceAs (Decidable (∀ line ∈ lines.head?, isBlank line = false ∧ indent line ≤ base))

theorem Deeper.mono {base base' : Nat} {lines : List Line} (h : Deeper base' lines)
    (hle : base ≤ base') : Deeper base lines := fun line hline =>
  (h line hline).imp_right hle.trans_lt

theorem partLines_append {base : Nat} {lines after : List Line} (h : Deeper base lines)
    (hends : Ends base after) (index : Nat) :
    partLines base index (lines ++ after) = (visible lines, ⟨index + lines.length, after⟩) := by
  induction lines generalizing index with
  | nil =>
    cases after with
    | nil => rfl
    | cons line after => exact if_pos (hends line rfl)
  | cons line lines ih =>
    have hrest := ih (fun other hother => h other (List.mem_cons_of_mem line hother)) (index + 1)
    have hindex : index + 1 + lines.length = index + (line :: lines).length := by
      rw [List.length_cons]
      omega
    rw [hindex] at hrest
    rw [List.cons_append, partLines, hrest]
    rcases h line List.mem_cons_self with hblank | hdeep
    · simp [hblank, visible]
    · rw [if_neg fun hdedent => absurd hdedent.2 (by omega)]
      cases hblank : isBlank line <;> simp [hblank, visible]

/-- The loop goes past the lines to execute. -/
theorem proposalLines_execution {base : Nat} {lines after : List Line} (h : Deeper base lines)
    (hunmarked : ∀ line ∈ lines, trim line ≠ "if passed:".toList ∧ trim line ≠ "else:".toList)
    (pos : SourcePosition) (index : Nat) (parts : ProposalParts) :
    proposalLines base pos index (lines ++ after) parts =
      proposalLines base pos (index + lines.length) after
        { parts with executionBlock := parts.executionBlock ++ visible lines } := by
  induction lines generalizing index parts with
  | nil => simp [visible]
  | cons line lines ih =>
    have hrest := ih (fun other hother => h other (List.mem_cons_of_mem line hother))
      (fun other hother => hunmarked other (List.mem_cons_of_mem line hother)) (index + 1)
    have hindex : index + 1 + lines.length = index + (line :: lines).length := by
      rw [List.length_cons]
      omega
    rw [hindex] at hrest
    obtain ⟨hif, helse⟩ := hunmarked line List.mem_cons_self
    rw [List.cons_append, proposalLines]
    cases hblank : isBlank line with
    | true =>
      simp only [Bool.true_eq_false, false_and, if_false, if_true, hrest]
      simp [visible, hblank]
    | false =>
      have hdeep := (h line List.mem_cons_self).resolve_left (by simp [hblank])
      simp only [Nat.not_le.mpr hdeep, and_false, Bool.false_eq_true, if_false, hif, helse, hrest]
      simp [visible, hblank]

theorem proposalLines_ends {base : Nat} {after : List Line} (h : Ends base after)
    (pos : SourcePosition) (index : Nat) (parts : ProposalParts) :
    proposalLines base pos index after parts = .ok (parts, ⟨index, after⟩) := by
  cases after with
  | nil => rw [proposalLines]
  | cons line after =>
    rw [proposalLines]
    exact if_pos (h line rfl)

/-- The passed part takes everything to the end of the block. -/
theorem proposalLines_ifPassed {base : Nat} {ifLine : Line} {lines after : List Line}
    (hif : trim ifLine = "if passed:".toList) (hdeep : base < indent ifLine)
    (hlines : Deeper base lines) (h : Ends base after) (pos : SourcePosition) (index : Nat)
    (execution : List Line) :
    proposalLines base pos index (ifLine :: (lines ++ after)) ⟨execution, [], none, false, false⟩ =
      .ok (⟨execution, visible lines, none, true, false⟩, ⟨index + 1 + lines.length, after⟩) := by
  have hblank : isBlank ifLine = false := by
    cases hblank : isBlank ifLine with
    | false => rfl
    | true =>
      rw [Text.trim_of_isBlank hblank] at hif
      cases hif
  rw [proposalLines]
  simp only [hblank, Nat.not_le.mpr hdeep, and_false, Bool.false_eq_true, if_false, hif, if_true,
    partLines_append hlines h]
  exact proposalLines_ends h pos _ _

theorem Deeper.append {base : Nat} {lines lines' : List Line} (h : Deeper base lines)
    (h' : Deeper base lines') : Deeper base (lines ++ lines') := by
  intro line hline
  rcases List.mem_append.mp hline with hline | hline
  · exact h line hline
  · exact h' line hline

theorem ProposalBlock.deeper_rest (block : ProposalBlock) :
    Deeper (indent block.opening) (block.passed ++ block.elseLines) := by
  have hif := block.ifPassed.2
  refine (block.passedDeeper.mono hif.le).append ?_
  unfold elseLines
  cases helse : block.elsePart with
  | none => exact fun _ h => nomatch h
  | some part =>
    obtain ⟨-, hindent, hdeep⟩ := block.elseDeeper part helse
    intro line hline
    rcases List.mem_cons.mp hline with rfl | hline
    · exact .inr (hindent ▸ hif)
    · exact (hdeep.mono (hindent ▸ hif.le)) line hline

theorem parseProposalBlock_eq (block : ProposalBlock) {after : List Line}
    (h : Ends (indent block.opening) after) (index : Nat) (pos : SourcePosition) :
    (parseProposalBlock ⟨index, block.lines ++ after⟩ pos).map Prod.fst =
      .ok (visible block.execution, visible (block.passed ++ block.elseLines), none) := by
  have hlines : block.lines ++ after = block.opening ::
      (block.execution ++ block.ifLine :: ((block.passed ++ block.elseLines) ++ after)) := by
    simp [ProposalBlock.lines]
  rw [hlines, parseProposalBlock]
  simp only
  rw [proposalLines_execution block.deeper block.unmarked]
  simp only [List.nil_append]
  rw [proposalLines_ifPassed block.ifPassed.1 block.ifPassed.2 block.deeper_rest h]
  rfl

/-- The three parts of a block are what is read iff it has no else part. -/
theorem parseProposalBlock_parts (block : ProposalBlock) (after : List Line) (index : Nat)
    (pos : SourcePosition) (h : Ends (indent block.opening) after) :
    (parseProposalBlock ⟨index, block.lines ++ after⟩ pos).map Prod.fst =
        .ok (visible block.execution, visible block.passed,
          block.elsePart.map fun part => visible part.2) ↔
      block.elsePart = none := by
  rw [parseProposalBlock_eq block h]
  constructor
  · intro heq
    cases helse : block.elsePart with
    | none => rfl
    | some part => simp [helse] at heq
  · intro helse
    simp [helse, ProposalBlock.elseLines]

/-- A payment if the proposal passes. -/
def payment : ProposalBlock where
  opening := ['\x7b']
  execution := ["    emit \"Executing proposal\"".toList]
  ifLine := "    if passed:".toList
  passed := ["        emit \"Proposal passed\"".toList,
    "        transfer \"treasury\" \"fund\" 1000.0".toList]
  elsePart := none
  deeper := by decide
  unmarked := by decide
  ifPassed := by decide
  passedDeeper := by decide
  elseDeeper := nofun

theorem parseProposalBlock_parts_payment :
    (parseProposalBlock ⟨0, payment.lines ++ [['\x7d']]⟩ ⟨1, 1⟩).map Prod.fst =
        .ok (visible payment.execution, visible payment.passed,
          payment.elsePart.map fun part => visible part.2) ↔
      payment.elsePart = none :=
  parseProposalBlock_parts payment [['\x7d']] 0 ⟨1, 1⟩ (by decide)

/-- The same with something to do if it does not pass. -/
def paymentOrNot : ProposalBlock :=
  { payment with
    elsePart := some ("    else:".toList, ["        emit \"Proposal failed\"".toList])
    elseDeeper := by
      rintro part hpart
      cases hpart
      decide }

theorem not_parseProposalBlock_parts :
    ¬ (parseProposalBlock ⟨0, paymentOrNot.lines ++ [['\x7d']]⟩ ⟨1, 1⟩).map Prod.fst =
      .ok (visible paymentOrNot.execution, visible paymentOrNot.passed,
        paymentOrNot.elsePart.map fun part => visible part.2) := by
  rw [parseProposalBlock_eq paymentOrNot (by decide)]
  exact nofun

end Covm.Compiler
