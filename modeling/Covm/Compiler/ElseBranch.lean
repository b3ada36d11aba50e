import Covm.Compiler.Progress
import Covm.Compiler.TwoRuns

/-!
# To which `if:` an `else:` belongs (`if_block.rs`)

`parse_if_block` takes any `else:` at which its first branch ends, whatever the indentation of the
`else:`. So an `if:` without an `else:` takes that of an enclosing one. This is all that goes wrong:
where each `if:` is followed by an `else:` of its own or by none that is less deep, each `else:` is
taken by its `if:`, and the branches are the lines deeper than the `if:`.
-/

namespace Covm.Compiler

open Partial
open Text (trim indent)

variable {F : Type} [Number F] {c d : Cursor} {pos : SourcePosition} {line other : Line}
  {rest lines : List Line}

/-- The line is the `else:` of a header with this indentation. -/
def IsElse (base : Nat) (line : Line) : Prop := trim line = "else:".toList ∧ indent line = base

/-- The first branch of the `if:` at the cursor are the lines deeper than the `if:`. If these end at
its own `else:`, the second branch are the deeper lines behind it; otherwise there is none. -/
def TakesOwnElse (F : Type) [Number F] (c : Cursor) (pos : SourcePosition) : Prop :=
  ∀ line rest, c.rest = line :: rest → ∃ (thenOps : List (Op F)) (d : Cursor),
    solveBlock c.next (indent line) pos = .ok (thenOps, d) ∧ d.rest = dedent (indent line) rest ∧
    (∀ other lines, d.rest = other :: lines → IsElse (indent line) other →
      ∃ (elseOps : List (Op F)) (e : Cursor),
        solveBlock d.next (indent line) ⟨pos.line + d.index, indent other + 1⟩ = .ok (elseOps, e) ∧
        e.rest = dedent (indent line) lines ∧
        solveNested .ifBlock c pos = .ok (.ifOp [] thenOps (some elseOps), e)) ∧
    ((∀ other ∈ d.rest.head?, ¬ IsElse (indent line) other) →
      solveNested .ifBlock c pos = .ok (.ifOp [] thenOps none, d))

/-! ### What the parser does -/

theorem solveNested_if (hc : c.rest = line :: rest) :
    (solveNested .ifBlock c pos : Parse (Op F × _)) = (do
      let r ← solveBlock c.next (indent line) pos
      (parseElse (indent line) pos r.1 r.2).eval parser.solve) := by
  rw [solveNested_eq, parseNestedBlock, parseIfBlock, Rec.eval_bind, eval_lineAt hc, ok_bind,
    Rec.eval_bind, eval_solveBlock]

theorem eval_parseElse {base : Nat} {thenOps : List (Op F)} (hd : d.rest = other :: lines)
    (hother : trim other = "else:".toList) :
    (parseElse base pos thenOps d).eval parser.solve = (do
      let r ← solveBlock d.next base ⟨pos.line + d.index, indent other + 1⟩
      .ok (.ifOp [] thenOps (some r.1), r.2)) := by
  unfold parseElse
  rw [hd]
  dsimp only
  rw [if_pos hother, Rec.eval_bind, eval_solveBlock]
  rfl

theorem asks_thenBlock (hc : c.rest = line :: rest) :
    parser.Asks (.nested .ifBlock c pos) (.block c.next (indent line) pos : Question F) := by
  show (parseIfBlock c pos : Parser F _).Asked parser.solve _
  unfold parseIfBlock lineAt
  rw [hc]
  exact .inl rfl

theorem asks_elseBlock {thenOps : List (Op F)} (hc : c.rest = line :: rest)
    (hthen : solveBlock c.next (indent line) pos = .ok (thenOps, d)) (hd : d.rest = other :: lines)
    (hother : trim other = "else:".toList) :
    parser.Asks (.nested .ifBlock c pos)
      (.block d.next (indent line) ⟨pos.line + d.index, indent other + 1⟩ : Question F) := by
  have helse : (parseElse (indent line) pos thenOps d).Asked parser.solve
      (.block d.next (indent line) ⟨pos.line + d.index, indent other + 1⟩) := by
    unfold parseElse
    rw [hd]
    dsimp only
    rw [if_pos hother]
    exact .inl rfl
  show (parseIfBlock c pos : Parser F _).Asked parser.solve _
  unfold parseIfBlock
  rw [Rec.asked_bind]
  refine .inr ⟨line, eval_lineAt hc, ?_⟩
  rw [Rec.asked_bind]
  exact .inr ⟨(thenOps, d), (eval_solveBlock (indent line)).trans hthen, helse⟩

/-! ### Each `else:` is taken by its `if:` -/

theorem elseFits_of_takesOwnElse (h : TakesOwnElse F c pos) : ElseFits c := by
  intro line rest hc other hhead hother
  obtain ⟨thenOps, d, hthen, hd, -, hnone⟩ := h line rest hc
  rw [← hd] at hhead
  obtain ⟨lines, hrest⟩ : ∃ lines, d.rest = other :: lines := by
    cases hdrest : d.rest with
    | nil =>
      rw [hdrest] at hhead
      cases hhead
    | cons first lines =>
      rw [hdrest] at hhead
      cases hhead
      exact ⟨lines, rfl⟩
  by_contra hlt
  have hno : ∀ first ∈ d.rest.head?, ¬ IsElse (indent line) first := by
    intro first hfirst hiselse
    rw [hrest] at hfirst
    cases hfirst
    exact hlt hiselse.2.ge
  have hif := hnone hno
  rw [solveNested_if hc, hthen, ok_bind, eval_parseElse hrest hother] at hif
  cases helse : (solveBlock d.next (indent line) ⟨pos.line + d.index, indent other + 1⟩ :
      Parse (List (Op F) × _)) with
  | error e =>
    rw [helse] at hif
    cases hif
  | ok r =>
    rw [helse, ok_bind] at hif
    have hop := congrArg Prod.fst (Except.ok.inj hif)
    cases hop

theorem takesOwnElse_of_elseFits {op : Op F} {e : Cursor}
    (hfits : ∀ c' pos', parser.Reaches (.nested .ifBlock c pos : Question F)
      (.nested .ifBlock c' pos') → ElseFits c')
    (hok : solveNested .ifBlock c pos = .ok (op, e)) : TakesOwnElse F c pos := by
  intro line rest hc
  have hnext : c.next.rest = rest := by rw [Cursor.next_rest, hc, List.tail_cons]
  rw [solveNested_if hc] at hok
  cases hthen : (solveBlock c.next (indent line) pos : Parse (List (Op F) × _)) with
  | error failure =>
    rw [hthen] at hok
    cases hok
  | ok r =>
    obtain ⟨thenOps, d⟩ := r
    rw [hthen, ok_bind] at hok
    have hleads : Leads True (indent line + 1) c.next d :=
      leads_of_solve (fun _ c' pos' hreach => hfits c' pos' (.head (asks_thenBlock hc) hreach)) hthen
    have hd : d.rest = dedent (indent line) rest :=
      hnext ▸ hleads.rest_eq_dedent (solveBlock_ends hthen)
    refine ⟨thenOps, d, rfl, hd, fun other lines hrest hiselse => ?_, fun hnone => ?_⟩
    · rw [eval_parseElse hrest hiselse.1] at hok
      cases helse : (solveBlock d.next (indent line) ⟨pos.line + d.index, indent other + 1⟩ :
          Parse (List (Op F) × _)) with
      | error failure =>
        rw [helse] at hok
        cases hok
      | ok r' =>
        obtain ⟨elseOps, e'⟩ := r'
        have hdnext : d.next.rest = lines := by rw [Cursor.next_rest, hrest, List.tail_cons]
        have hleads' : Leads True (indent line + 1) d.next e' :=
          leads_of_solve (fun _ c' pos' hreach =>
            hfits c' pos' (.head (asks_elseBlock hc hthen hrest hiselse.1) hreach)) helse
        refine ⟨elseOps, e', rfl, hdnext ▸ hleads'.rest_eq_dedent (solveBlock_ends helse), ?_⟩
        rw [solveNested_if hc, hthen, ok_bind, eval_parseElse hrest hiselse.1, helse]
        rfl
    · have hno : ∀ first ∈ d.rest.head?, trim first ≠ "else:".toList := by
        intro first hfirst hother
        refine hnone first hfirst ⟨hother, ?_⟩
        have hfits' := hfits c pos .refl line rest hc first (hd ▸ hfirst) hother
        have hdedent := (solveBlock_ends hthen first hfirst).2
        omega
      rw [solveNested_if hc, hthen, ok_bind, parseElse_of_no_else hno]
      rfl

/-- In a source that is accepted each `if:` takes its own `else:` iff none is followed by an `else:`
that is less deep. -/
theorem takesOwnElse_iff {source : String} {result : List (Op F) × LifecycleConfig F}
    (h : parseDsl source = .ok result) :
    (∀ c pos, parser.Reaches (program source : Question F) (.nested .ifBlock c pos) →
      TakesOwnElse F c pos) ↔
    ∀ c pos, parser.Reaches (program source : Question F) (.nested .ifBlock c pos) →
      ElseFits c := by
  constructor
  · intro hown c pos hreach
    exact elseFits_of_takesOwnElse (hown c pos hreach)
  · intro hfits c pos hreach
    obtain ⟨⟨op, e⟩, hok⟩ := Recursion.ok_of_reaches h hreach
    exact takesOwnElse_of_elseFits (fun c' pos' hreach' =>
      hfits c' pos' (Relation.ReflTransGen.trans hreach hreach')) hok

/-! ### An `else:` taken from its `if:` -/

/-- The inner `if:` has no `else:`, the outer one has. -/
def innerIf : String := "if:\n    if:\n        pop\nelse:\n    dup"

theorem parseDsl_innerIf : parseDsl innerIf =
    .ok ([(.ifOp [] [.ifOp [] [.pop] (some []), .dup] none : Op Binary64)], .default) :=
  rfl

theorem reaches_innerIf : parser.Reaches (program innerIf : Question Binary64)
    (.nested .ifBlock
      ⟨1, ["    if:".toList, "        pop".toList, "else:".toList, "    dup".toList]⟩ ⟨2, 5⟩) := by
  let lines : List Line := ["    if:".toList, "        pop".toList, "else:".toList, "    dup".toList]
  have houter : parser.Asks (program innerIf : Question Binary64)
      (.nested .ifBlock ⟨0, "if:".toList :: lines⟩ ⟨1, 1⟩) := .inl rfl
  have hblock : parser.Asks
      (.nested .ifBlock ⟨0, "if:".toList :: lines⟩ ⟨1, 1⟩ : Question Binary64)
      (.block ⟨1, lines⟩ 0 ⟨1, 1⟩) := .inl rfl
  have hinner : parser.Asks (.block ⟨1, lines⟩ 0 ⟨1, 1⟩ : Question Binary64)
      (.nested .ifBlock ⟨1, lines⟩ ⟨2, 5⟩) := .inl rfl
  exact .head houter (.head hblock (.single hinner))

theorem takesOwnElse_iff_innerIf :
    (∀ c pos, parser.Reaches (program innerIf : Question Binary64) (.nested .ifBlock c pos) →
      TakesOwnElse Binary64 c pos) ↔
    ∀ c pos, parser.Reaches (program innerIf : Question Binary64) (.nested .ifBlock c pos) →
      ElseFits c :=
  takesOwnElse_iff parseDsl_innerIf

theorem not_takesOwnElse_innerIf :
    ¬ ∀ c pos, parser.Reaches (program innerIf : Question Binary64) (.nested .ifBlock c pos) →
      TakesOwnElse Binary64 c pos := by
  intro h
  have hfits := elseFits_of_takesOwnElse (h _ _ reaches_innerIf) _ _ rfl "else:".toList
  exact absurd (hfits (by decide) (by decide)) (by decide)

end Covm.Compiler
