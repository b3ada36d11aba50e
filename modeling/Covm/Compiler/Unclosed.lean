import Covm.Compiler.BlockLines

/-!
# Blocks that are not closed

`parse_dsl` keeps one flag for governance blocks and one for templates. It sets a flag at an opening
line whether or not a block is open, and does not look at them at the end. So a source is accepted
with a block still open. An opening line in an indented block is not seen by the loop at all: either
the source is rejected there, or the line is dropped. What is accepted is terminated iff the opening
and closing lines alternate and no opening line stands in an indented block.
-/

namespace Covm.Compiler

open Partial
open Text (trim indent isBlank)

def sourceLines (source : String) : List Line := Text.lines '\n' '\r' source.toList

namespace DslState

variable {F : Type}

def Idle (state : DslState F) : Prop :=
  state.inGovernanceBlock = false ∧ state.inTemplateBlock = false

/-- One block is open. -/
def OneOpen (state : DslState F) : Prop := state.inGovernanceBlock ≠ state.inTemplateBlock

def SameFlags (state state' : DslState F) : Prop :=
  state'.inGovernanceBlock = state.inGovernanceBlock ∧
    state'.inTemplateBlock = state.inTemplateBlock

theorem OneOpen.open {state : DslState F} (h : state.OneOpen) :
    state.inGovernanceBlock = true ∨ state.inTemplateBlock = true := by
  unfold OneOpen at h
  cases hgovernance : state.inGovernanceBlock with
  | true => exact .inl rfl
  | false => exact .inr (by rw [hgovernance] at h; simpa using h.symm)

theorem OneOpen.congr {state state' : DslState F} (h : state.OneOpen)
    (hsame : state.SameFlags state') : state'.OneOpen := by
  unfold OneOpen
  rw [hsame.1, hsame.2]
  exact h

theorem Idle.congr {state state' : DslState F} (h : state.Idle)
    (hsame : state.SameFlags state') : state'.Idle :=
  ⟨hsame.1.trans h.1, hsame.2.trans h.2⟩

theorem OneOpen.not_idle {state : DslState F} (h : state.OneOpen) : ¬ state.Idle :=
  fun hidle => h (hidle.1.trans hidle.2.symm)

end DslState

theorem not_closes_of_opens {line : Line} (h : Opens line) : ¬ Closes line := by
  intro hclose
  rcases h with ⟨⟨rest, hopen⟩, -⟩ | hopen
  · rw [hclose] at hopen
    exact absurd (congrArg List.length hopen) (by simp)
  · rw [OpensGovernance, hclose] at hopen
    exact absurd hopen (by decide)

theorem trim_ne_nil_of_opens {line : Line} (h : Opens line) : trim line ≠ [] := by
  rcases h with hopen | hopen
  · exact List.ne_nil_of_mem (hopen.1.mem (by decide : 't' ∈ _))
  · rw [hopen]
    decide

/-! ### What a line does to the flags -/

section
variable {F : Type} [Number F] {pos : SourcePosition} {state state' : DslState F} {line : Line}

/-- A line that is not an operation, and what it makes of the state. -/
def Moves (state : DslState F) (line : Line) (state' : DslState F) : Prop :=
  isBlank line = true ∧ state' = state ∨
    isBlank line = false ∧ ∃ pos, readDirective pos state (trim line) = .ok (some state')

omit [Number F] in
theorem flags_of_readTemplate {trimmed : Line} (h : readTemplate pos state trimmed = .ok state') :
    state'.inTemplateBlock = true ∧ state'.inGovernanceBlock = state.inGovernanceBlock := by
  unfold readTemplate at h
  split at h
  · next name _ _ _ =>
    cases hname : unquotedName name with
    | error e =>
      rw [hname] at h
      exact nomatch h
    | ok name' =>
      rw [hname] at h
      cases h
      exact ⟨rfl, rfl⟩
  · exact nomatch h

omit [Number F] in
theorem flags_of_useTemplate {trimmed : Line} (h : useTemplate pos state trimmed = .ok state') :
    state.SameFlags state' := by
  unfold useTemplate at h
  split at h
  · next name _ _ =>
    cases hname : unquotedName name with
    | error e =>
      rw [hname] at h
      exact nomatch h
    | ok name' =>
      rw [hname, ok_bind] at h
      cases htemplate : state.templates.lookup (String.ofList name') with
      | none =>
        rw [htemplate] at h
        exact nomatch h
      | some template =>
        rw [htemplate] at h
        cases h
        exact ⟨rfl, rfl⟩
  · exact nomatch h

theorem flags_of_readCommand {trimmed : Line} (h : readCommand pos state trimmed = .ok state') :
    state.SameFlags state' := by
  unfold readCommand at h
  split at h
  · cases h
    exact ⟨rfl, rfl⟩
  · next word args _ =>
    cases hcommand : governanceCommand pos state.target args (String.ofList word) with
    | error e =>
      rw [hcommand] at h
      exact nomatch h
    | ok config =>
      rw [hcommand] at h
      cases h
      exact ⟨state.inGovernanceBlock_withTarget config, state.inTemplateBlock_withTarget config⟩

omit [Number F] in
theorem map_some_eq_ok {x : Parse (DslState F)} {state' : DslState F}
    (h : some <$> x = .ok (some state')) : x = .ok state' := by
  cases x with
  | error e => exact nomatch h
  | ok s => cases h; rfl

/-- What a line that is not an operation does to the flags. -/
inductive FlagStep (state : DslState F) (line : Line) (state' : DslState F) : Prop
  | template (hopen : OpensTemplate line) (htemplate : state'.inTemplateBlock = true)
      (hgovernance : state'.inGovernanceBlock = state.inGovernanceBlock)
  | governance (hopen : OpensGovernance line) (hgovernance : state'.inGovernanceBlock = true)
      (htemplate : state'.inTemplateBlock = state.inTemplateBlock)
  | closeTemplate (hclose : Closes line) (hopen : state.inTemplateBlock = true)
      (htemplate : state'.inTemplateBlock = false)
      (hgovernance : state'.inGovernanceBlock = state.inGovernanceBlock)
  | closeGovernance (hclose : Closes line) (hopen : state.inGovernanceBlock = true)
      (hidle : state.inTemplateBlock = false) (hgovernance : state'.inGovernanceBlock = false)
      (htemplate : state'.inTemplateBlock = false)
  | same (hopen : ¬ Opens line) (hclose : Closes line → state.Idle)
      (hsame : state.SameFlags state')

theorem flagStep_of_readDirective (h : readDirective pos state (trim line) = .ok (some state')) :
    FlagStep state line state' := by
  unfold readDirective at h
  split_ifs at h with h₁ h₂ h₃ h₄ h₅ h₆
  · obtain ⟨htemplate, hgovernance⟩ := flags_of_readTemplate (map_some_eq_ok h)
    exact .template h₁ htemplate hgovernance
  · cases h
    exact .closeTemplate h₂.2 h₂.1 rfl rfl
  · refine .same ?_ ?_ (flags_of_useTemplate (map_some_eq_ok h))
    · rintro (hopen | hopen)
      · exact h₁ hopen
      · rw [hopen] at h₃
        exact absurd h₃ (by decide)
    · intro hclose
      rw [hclose] at h₃
      exact absurd h₃ (by decide)
  · cases h
    exact .governance h₄ rfl rfl
  · cases h
    have hidle : state.inTemplateBlock = false := by
      rw [← Bool.not_eq_true]
      exact fun hopen => h₂ ⟨hopen, h₅.2⟩
    exact .closeGovernance h₅.2 h₅.1 hidle rfl hidle
  · refine .same (not_or.mpr ⟨h₁, h₄⟩) ?_ (flags_of_readCommand (map_some_eq_ok h))
    intro hclose
    rcases h₆ with hgovernance | htemplate
    · exact absurd ⟨hgovernance, hclose⟩ h₅
    · exact absurd ⟨htemplate, hclose⟩ h₂
  · exact nomatch h

theorem Moves.flagStep (h : Moves state line state') : FlagStep state line state' := by
  rcases h with ⟨hblank, rfl⟩ | ⟨-, pos, hread⟩
  · have htrim := Text.trim_of_isBlank hblank
    refine .same (fun hopen => trim_ne_nil_of_opens hopen htrim) (fun hclose => ?_) ⟨rfl, rfl⟩
    rw [Closes, htrim] at hclose
    cases hclose
  · exact flagStep_of_readDirective hread

omit [Number F] in
theorem FlagStep.opens (h : FlagStep state line state') (hidle : state.Idle) (hopen : Opens line) :
    state'.OneOpen := by
  unfold DslState.OneOpen
  cases h with
  | template _ htemplate hgovernance =>
    rw [htemplate, hgovernance, hidle.1]
    exact Bool.false_ne_true
  | governance _ hgovernance htemplate =>
    rw [htemplate, hgovernance, hidle.2]
    exact Bool.false_ne_true.symm
  | closeTemplate hclose => exact absurd hclose (not_closes_of_opens hopen)
  | closeGovernance hclose => exact absurd hclose (not_closes_of_opens hopen)
  | same hnot => exact absurd hopen hnot

omit [Number F] in
theorem FlagStep.closes (h : FlagStep state line state') (hone : state.OneOpen)
    (hclose : Closes line) : state'.Idle := by
  cases h with
  | template hopen => exact absurd hclose (not_closes_of_opens (.inl hopen))
  | governance hopen => exact absurd hclose (not_closes_of_opens (.inr hopen))
  | closeTemplate _ hopen htemplate hgovernance =>
    refine ⟨?_, htemplate⟩
    rw [hgovernance, ← Bool.not_eq_true]
    exact fun hother => hone (hother.trans hopen.symm)
  | closeGovernance _ _ _ hgovernance htemplate => exact ⟨hgovernance, htemplate⟩
  | same _ hidle => exact absurd (hidle hclose) hone.not_idle

omit [Number F] in
theorem FlagStep.keeps (h : FlagStep state line state') (hopen : ¬ Opens line)
    (hclose : Closes line → state.Idle) : state.SameFlags state' := by
  cases h with
  | template h => exact absurd (.inl h) hopen
  | governance h => exact absurd (.inr h) hopen
  | closeTemplate hline htemplate =>
    exact absurd htemplate (by rw [(hclose hline).2]; exact Bool.false_ne_true)
  | closeGovernance hline hgovernance =>
    exact absurd hgovernance (by rw [(hclose hline).1]; exact Bool.false_ne_true)
  | same _ _ hsame => exact hsame

end

/-! ### The loop of `parse_dsl` -/

/-- The loop comes to the cursor, with this state. -/
inductive Visits {F : Type} [Number F] (source : String) : Cursor → DslState F → Prop
  | start : Visits source ⟨0, sourceLines source⟩ .start
  | next {c c' : Cursor} {state state' : DslState F} (h : Visits source c state)
      (hasks : parser.Asks (.dsl c state) (.dsl c' state')) : Visits source c' state'

section
variable {F : Type} [Number F] {c c' : Cursor} {state state' : DslState F} {line : Line}
  {ls : List Line}

theorem dslLoop_cons (hc : c.rest = line :: ls) : (dslLoop c state : Parser F _) =
    if isBlank line then parseDslLines c.next state
    else do
      match ← Rec.ofExcept (readDirective ⟨c.index + 1, indent line + 1⟩ state (trim line)) with
      | some state => parseDslLines c.next state
      | none => do
        let (op, c) ← parseTopLine c line ⟨c.index + 1, indent line + 1⟩
        let (ops, config) ← parseDslLines c state
        return (pushFront op ops, config) := by
  cases c
  cases hc
  rfl

/-- Where the rest of the source is accepted, the loop comes to the next line. -/
theorem exists_asks (hc : c.rest = line :: ls) {r : List (Op F) × LifecycleConfig F}
    (h : solveDsl c state = .ok r) : ∃ c', ∃ state', parser.Asks (.dsl c state) (.dsl c' state') := by
  have hasks {q : Question F} : parser.Asks (.dsl c state) q ↔
      (dslLoop c state).Asked parser.solve q := Iff.rfl
  rw [solveDsl_eq, dslLoop_cons hc] at h
  simp only [hasks, dslLoop_cons hc]
  split_ifs at h ⊢
  · exact ⟨c.next, state, (Rec.asked_answer _ _).mpr rfl⟩
  · rw [Rec.eval_bind] at h
    obtain ⟨directive, hread, h⟩ := exists_of_bind h
    cases directive with
    | some state' =>
      refine ⟨c.next, state', (Rec.asked_bind _ _ _).mpr (.inr ⟨_, hread, ?_⟩)⟩
      exact (Rec.asked_answer _ _).mpr rfl
    | none =>
      dsimp only at h
      rw [Rec.eval_bind] at h
      obtain ⟨⟨op, c'⟩, htop, -⟩ := exists_of_bind h
      refine ⟨c', state, (Rec.asked_bind _ _ _).mpr (.inr ⟨_, hread, ?_⟩)⟩
      refine (Rec.asked_bind _ _ _).mpr (.inr ⟨_, htop, ?_⟩)
      exact (Rec.asked_bind _ _ _).mpr (.inl ((Rec.asked_answer _ _).mpr rfl))

theorem parseTopLine_asks {pos : SourcePosition} {q : Question F}
    (h : (parseTopLine c line pos).Asked parser.solve q) : ∃ kind, q = .nested kind c pos := by
  unfold parseTopLine at h
  split_ifs at h
  · split at h
    · next kind _ => exact ⟨kind, (Rec.asked_answer _ _).mp h⟩
    · exact h.elim
  · rw [parseStatement, Rec.asked_bind] at h
    rcases h with h | ⟨_, _, h⟩
    · exact absurd h (Rec.asked_ofExcept _ _)
    · exact h.elim

theorem not_asks_nil (hc : c.rest = []) (q : Question F) : ¬ parser.Asks (.dsl c state) q := by
  intro h
  have hasked : (dslLoop c state).Asked parser.solve q := h
  rw [dslLoop, hc] at hasked
  exact hasked.elim

/-- What the loop does at a line. -/
theorem asks_cases (hc : c.rest = line :: ls) (h : parser.Asks (.dsl c state) (.dsl c' state')) :
    c'.rest <:+ ls ∧
      (c' = c.next ∧ Moves state line state' ∨
        ¬ IsDirective state (trim line) ∧ state' = state ∧ Encloses c c') := by
  have hnext : c.next.rest <:+ ls := by
    rw [Cursor.next_rest, hc]
    exact List.suffix_refl _
  have hasked : (dslLoop c state).Asked parser.solve (.dsl c' state') := h
  rw [dslLoop_cons hc] at hasked
  split_ifs at hasked with hblank
  · cases (Rec.asked_answer _ _).mp hasked
    exact ⟨hnext, .inl ⟨rfl, .inl ⟨hblank, rfl⟩⟩⟩
  · rw [Bool.not_eq_true] at hblank
    rw [Rec.asked_bind] at hasked
    rcases hasked with hasked | ⟨directive, hread, hasked⟩
    · exact absurd hasked (Rec.asked_ofExcept _ _)
    · rw [Rec.eval_ofExcept] at hread
      cases directive with
      | some state'' =>
        cases (Rec.asked_answer _ _).mp hasked
        exact ⟨hnext, .inl ⟨rfl, .inr ⟨hblank, _, hread⟩⟩⟩
      | none =>
        dsimp only at hasked
        rw [Rec.asked_bind] at hasked
        rcases hasked with hasked | ⟨⟨op, c''⟩, htop, hasked⟩
        · obtain ⟨kind, hkind⟩ := parseTopLine_asks hasked
          cases hkind
        · have hsize : 2 * (ls.length + 1) < (Question.dsl c state).size := by
            simp [Question.size, Question.cursor, hc]
          have hwithin : c''.rest <:+ ls :=
            (parseTopLine_within hc hsize).eval (fun _ _ _ => Recursion.solve_fits) htop
          dsimp only at hasked
          rw [Rec.asked_bind] at hasked
          rcases hasked with hasked | ⟨_, _, hasked⟩
          · cases (Rec.asked_answer _ _).mp hasked
            exact ⟨hwithin, .inr ⟨readDirective_eq_none.mp hread, rfl, encloses_of_topLine hc htop⟩⟩
          · exact hasked.elim

theorem Visits.reaches {source : String} (h : Visits source c state) :
    parser.Reaches (program source) (.dsl c state) := by
  induction h with
  | start => exact .refl
  | next _ hasks ih => exact ih.tail hasks

theorem Visits.solved {source : String} (h : Visits source c state)
    {r : List (Op F) × LifecycleConfig F} (hparse : parseDsl source = .ok r) :
    ∃ r, solveDsl c state = .ok r := Recursion.ok_of_reaches hparse h.reaches

/-! ### Terminated blocks -/

/-- A closing line comes before the next line that opens a block, and before the end. -/
def ClosedIn (lines : List Line) : Prop :=
  ∃ inside close after, lines = inside ++ close :: after ∧ Closes close ∧
    ∀ line ∈ inside, ¬ Opens line

theorem closedIn_cons : ClosedIn (line :: ls) ↔ ¬ Opens line ∧ (Closes line ∨ ClosedIn ls) := by
  constructor
  · rintro ⟨inside, close, after, heq, hclose, hinside⟩
    cases inside with
    | nil =>
      cases heq
      exact ⟨fun hopen => not_closes_of_opens hopen hclose, .inl hclose⟩
    | cons first inside =>
      cases heq
      obtain ⟨hfirst, hinside⟩ := List.forall_mem_cons.mp hinside
      exact ⟨hfirst, .inr ⟨inside, close, after, rfl, hclose, hinside⟩⟩
  · rintro ⟨hopen, hclose | ⟨inside, close, after, rfl, hclose, hinside⟩⟩
    · exact ⟨[], line, ls, rfl, hclose, List.forall_mem_nil _⟩
    · exact ⟨line :: inside, close, after, rfl, hclose, List.forall_mem_cons.mpr ⟨hopen, hinside⟩⟩

theorem not_closedIn_nil : ¬ ClosedIn [] := by
  rintro ⟨inside, close, after, heq, -⟩
  exact absurd heq (by simp)

/-- Every block is closed before the next one opens, and before the end. -/
def BlocksClosed (lines : List Line) : Prop :=
  ∀ before line after, lines = before ++ line :: after → Opens line → ClosedIn after

theorem blocksClosed_cons :
    BlocksClosed (line :: ls) ↔ (Opens line → ClosedIn ls) ∧ BlocksClosed ls := by
  constructor
  · intro h
    refine ⟨h [] line ls rfl, fun before other after heq => ?_⟩
    exact h (line :: before) other after (by rw [heq, List.cons_append])
  · rintro ⟨hfirst, hrest⟩ before other after heq
    cases before with
    | nil =>
      cases heq
      exact hfirst
    | cons first before =>
      cases heq
      exact hrest before other after rfl

variable (F) in
/-- The loop reads what these lines begin with. -/
def Visited (source : String) (lines : List Line) : Prop :=
  ∃ c, ∃ state : DslState F, Visits source c state ∧ c.rest = lines

variable (F) in
/-- Every block is closed before the next one opens and before the end. The loop reads every opening
line, with no block open, and comes to the end with none open. -/
structure Terminated (source : String) : Prop where
  closed : BlocksClosed (sourceLines source)
  read : ∀ before line after, sourceLines source = before ++ line :: after → Opens line →
    Visited F source (line :: after)
  alone : ∀ c, ∀ state : DslState F, Visits source c state → ∀ line after,
    c.rest = line :: after → Opens line → state.Idle
  ends : ∀ c, ∀ state : DslState F, Visits source c state → c.rest = [] → state.Idle

/-! ### A condition on the text -/

/-- Opening and closing lines alternate, when a block is open or when none is. -/
def balanced (opened : Bool) : List Line → Bool
  | [] => !opened
  | line :: lines =>
    if Opens line then !opened && balanced true lines
    else if Closes line then balanced false lines
    else balanced opened lines

theorem balanced_iff {opened : Bool} {lines : List Line} : balanced opened lines = true ↔
    (opened = true → ClosedIn lines) ∧ BlocksClosed lines := by
  induction lines generalizing opened with
  | nil =>
    have hblocks : BlocksClosed [] := fun before line after heq => absurd heq (by simp)
    cases opened <;> simp [balanced, not_closedIn_nil, hblocks]
  | cons line lines ih =>
    unfold balanced
    rw [closedIn_cons, blocksClosed_cons]
    split_ifs with hopen hclose
    · cases opened <;> simp [hopen, ih]
    · rw [ih]
      exact ⟨fun h => ⟨fun _ => ⟨hopen, .inl hclose⟩, fun hopens => absurd hopens hopen, h.2⟩,
        fun h => ⟨fun hfalse => absurd hfalse Bool.false_ne_true, h.2.2⟩⟩
    · rw [ih]
      exact ⟨fun h => ⟨fun ho => ⟨hopen, .inr (h.1 ho)⟩, fun hopens => absurd hopens hopen, h.2⟩,
        fun h => ⟨fun ho => (h.1 ho).2.resolve_left hclose, h.2.2⟩⟩

/-- The lines with which the block of a line with this indentation goes on. -/
def blockLines (base : Nat) (lines : List Line) : List Line :=
  lines.takeWhile fun line => !decide (EndsBlock base line)

/-- No opening line stands in an indented block. -/
def OpensOutside : List Line → Prop
  | [] => True
  | line :: lines =>
    (BeginsBlock line → ∀ other ∈ blockLines (indent line) lines, ¬ Opens other) ∧
      OpensOutside lines

instance OpensOutside.decide : (lines : List Line) → Decidable (OpensOutside lines)
  | [] => .isTrue trivial
  | line :: lines =>
    have := OpensOutside.decide lines
    inferInstanceAs (Decidable ((BeginsBlock line → ∀ other ∈ blockLines (indent line) lines,
      ¬ Opens other) ∧ OpensOutside lines))

theorem mem_blockLines {base : Nat} {lines : List Line} : line ∈ blockLines base lines ↔
    ∃ between after, lines = between ++ line :: after ∧
      (∀ other ∈ between, ¬ EndsBlock base other) ∧ ¬ EndsBlock base line := by
  constructor
  · intro h
    obtain ⟨between, after, hlines⟩ := List.append_of_mem h
    have hgoes (other : Line) (hother : other ∈ between ++ line :: after) :
        ¬ EndsBlock base other := by
      rw [← hlines] at hother
      simpa using List.mem_takeWhile_imp hother
    have hstarts : blockLines base lines <+: lines := List.takeWhile_prefix _
    obtain ⟨rest, hrest⟩ := hstarts
    refine ⟨between, after ++ rest, ?_, fun other hother => ?_, ?_⟩
    · rw [← hrest, hlines, List.append_assoc, List.cons_append]
    · exact hgoes other (List.mem_append_left _ hother)
    · exact hgoes line (List.mem_append_right _ List.mem_cons_self)
  · rintro ⟨between, after, rfl, hbetween, hline⟩
    rw [blockLines, List.takeWhile_append_of_pos fun other hother => by simpa using hbetween other hother,
      List.takeWhile_cons_of_pos (by simpa using hline)]
    simp

theorem opensOutside_iff {lines : List Line} : OpensOutside lines ↔
    ∀ before line after, lines = before ++ line :: after → Opens line → ¬ InBlock before line := by
  induction lines with
  | nil => exact iff_of_true trivial fun before line after heq => absurd heq (by simp)
  | cons first lines ih =>
    constructor
    · rintro ⟨hfirst, hrest⟩ before line after heq hopen ⟨header, between, hsuffix, hbegin, hgoes⟩
      cases before with
      | nil => exact absurd (List.suffix_nil.mp hsuffix) (List.cons_ne_nil _ _)
      | cons above before =>
        obtain ⟨rfl, rfl⟩ := List.cons.inj heq
        rcases List.suffix_cons_iff.mp hsuffix with heq | hsuffix
        · obtain ⟨rfl, rfl⟩ := List.cons.inj heq
          exact hfirst hbegin line (mem_blockLines.mpr ⟨between, after, rfl, hgoes⟩) hopen
        · exact ih.mp hrest before line after rfl hopen ⟨header, between, hsuffix, hbegin, hgoes⟩
    · intro h
      refine ⟨fun hbegin other hother hopen => ?_, ih.mpr fun before line after heq hopen hin => ?_⟩
      · obtain ⟨between, after, rfl, hgoes⟩ := mem_blockLines.mp hother
        exact h (first :: between) other after rfl hopen
          ⟨first, between, List.suffix_refl _, hbegin, hgoes⟩
      · exact h (first :: before) line after (by rw [heq, List.cons_append]) hopen
          (hin.mono (List.suffix_cons _ _))

/-! ### What the loop has passed over -/

/-- What the loop has not read is the end of the source. -/
theorem Visits.suffix {source : String} (h : Visits source c state) :
    c.rest <:+ sourceLines source := by
  induction h with
  | start => exact List.suffix_refl _
  | @next c c' state state' _ hasks ih =>
    cases hc : c.rest with
    | nil => exact absurd hasks (not_asks_nil hc _)
    | cons line after =>
      rw [hc] at ih
      exact ((asks_cases hc hasks).1.trans (List.suffix_cons line after)).trans ih

/-- Where the blocks are closed, none is open, or one that is closed in time. -/
theorem BlocksClosed.visits {source : String} (hclosed : BlocksClosed (sourceLines source))
    (h : Visits source c state) : state.Idle ∨ state.OneOpen ∧ ClosedIn c.rest := by
  induction h with
  | start => exact .inl ⟨rfl, rfl⟩
  | @next c c' state state' h hasks ih =>
    cases hc : c.rest with
    | nil => exact absurd hasks (not_asks_nil hc _)
    | cons line after =>
      rcases (asks_cases hc hasks).2 with ⟨rfl, hmoves⟩ | ⟨hnot, rfl, -⟩
      · have hflags := hmoves.flagStep
        have hnext : c.next.rest = after := by rw [Cursor.next_rest, hc, List.tail_cons]
        rcases ih with hidle | ⟨hone, hin⟩
        · by_cases hopen : Opens line
          · right
            obtain ⟨before, hbefore⟩ := h.suffix
            rw [hc] at hbefore
            rw [hnext]
            exact ⟨hflags.opens hidle hopen, hclosed before line after hbefore.symm hopen⟩
          · exact .inl (hidle.congr (hflags.keeps hopen fun _ => hidle))
        · rw [hc] at hin
          obtain ⟨hopen, hclose | hrest⟩ := closedIn_cons.mp hin
          · exact .inl (hflags.closes hone hclose)
          · by_cases hclose : Closes line
            · exact .inl (hflags.closes hone hclose)
            · exact .inr ⟨hone.congr (hflags.keeps hopen fun h => absurd h hclose), hnext ▸ hrest⟩
      · rcases ih with hidle | ⟨hone, -⟩
        · exact .inl hidle
        · exact absurd (.inr (.inr (.inr hone.open))) hnot

theorem Moves.not_begins (h : Moves state line state') : ¬ BeginsBlock line ∧ ¬ ElseLine line := by
  rcases h with ⟨hblank, -⟩ | ⟨-, pos, hread⟩
  · exact ⟨(indifferent_of_isBlank hblank).begins, (indifferent_of_isBlank hblank).elseLine⟩
  · exact not_begins_of_readDirective hread

/-- The opening lines so far were read, or stand in blocks that do not go on from here. -/
theorem Visits.enclosed {source : String} (h : Visits source c state) :
    ∃ passed, sourceLines source = passed ++ c.rest ∧
      Enclosed (Visited F source) passed c.rest := by
  induction h with
  | start => exact ⟨[], rfl, enclosed_nil⟩
  | @next c c' state state' h hasks ih =>
    obtain ⟨passed, hpassed, henclosed⟩ := ih
    cases hc : c.rest with
    | nil => exact absurd hasks (not_asks_nil hc _)
    | cons line after =>
      obtain ⟨passed', hrest, henclosed', hhead⟩ : ∃ passed', c.rest = passed' ++ c'.rest ∧
          Enclosed (Visited F source) passed' c'.rest ∧ ∀ line ∈ passed'.head?, ¬ ElseLine line := by
        rcases (asks_cases hc hasks).2 with ⟨rfl, hmoves⟩ | ⟨-, -, passed', hrest, hpassed', hhead⟩
        · have hnext : c.next.rest = after := by rw [Cursor.next_rest, hc, List.tail_cons]
          refine ⟨[line], by rw [hc, hnext, List.singleton_append], ?_, fun other hother => ?_⟩
          · refine enclosed_singleton (fun _ => ⟨c, state, h, ?_⟩) hmoves.not_begins.1
            rw [hc, hnext]
          · cases hother
            exact hmoves.not_begins.2
        · exact ⟨passed', hrest, hpassed'.mono fun _ hfalse => hfalse.elim, hhead⟩
      refine ⟨passed ++ passed', by rw [hpassed, hrest, List.append_assoc], ?_⟩
      rw [hrest] at henclosed
      exact henclosed.append henclosed' hhead

/-- What is accepted is read to the end. -/
theorem Visits.exists_end {source : String} {r : List (Op F) × LifecycleConfig F}
    (hparse : parseDsl source = .ok r) (h : Visits source c state) :
    ∃ c', ∃ state' : DslState F, Visits source c' state' ∧ c'.rest = [] := by
  induction hn : c.rest.length using Nat.strongRecOn generalizing c state with
  | _ n ih =>
    subst hn
    cases hc : c.rest with
    | nil => exact ⟨c, state, h, hc⟩
    | cons line after =>
      obtain ⟨r, hsolved⟩ := h.solved hparse
      obtain ⟨c', state', hasks⟩ := exists_asks hc hsolved
      refine ih _ ?_ (h.next hasks) rfl
      rw [hc, List.length_cons]
      exact Nat.lt_succ_of_le (asks_cases hc hasks).1.length_le

/-- Every opening line is read iff none stands in an indented block. -/
theorem visited_iff_opensOutside {source : String} {r : List (Op F) × LifecycleConfig F}
    (hparse : parseDsl source = .ok r) :
    (∀ before line after, sourceLines source = before ++ line :: after → Opens line →
      Visited F source (line :: after)) ↔ OpensOutside (sourceLines source) := by
  rw [opensOutside_iff]
  constructor
  · rintro h before line after heq hopen ⟨header, between, ⟨above, rfl⟩, hbegin, hbetween, hline⟩
    obtain ⟨c, state, hvisits, hc⟩ := h _ line after heq hopen
    obtain ⟨passed, hpassed, henclosed⟩ := hvisits.enclosed
    rw [hc] at hpassed henclosed
    obtain rfl : passed = above ++ header :: between :=
      List.append_cancel_right (hpassed.symm.trans heq)
    rcases henclosed.closes above header between rfl hbegin with ⟨other, hother, hends⟩ | hends
    · exact hbetween other hother hends
    · obtain ⟨hblank, hindent⟩ := hends line rfl
      exact hline ⟨hblank, hindent, Opens.not_elseLine hopen⟩
  · intro h before line after heq hopen
    obtain ⟨c, state, hvisits, hc⟩ := Visits.exists_end hparse Visits.start
    obtain ⟨passed, hpassed, henclosed⟩ := hvisits.enclosed
    rw [hc, List.append_nil] at hpassed
    rw [hc] at henclosed
    have hcovers := henclosed.covers before line after (hpassed.symm.trans heq) hopen
    rw [List.append_nil] at hcovers
    exact hcovers.resolve_right (h before line after heq hopen)

theorem parseDsl_terminated (source : String) (ops : List (Op F)) (config : LifecycleConfig F)
    (hparse : parseDsl source = .ok (ops, config)) :
    Terminated F source ↔
      balanced false (sourceLines source) = true ∧ OpensOutside (sourceLines source) := by
  rw [← visited_iff_opensOutside hparse, balanced_iff]
  constructor
  · intro h
    exact ⟨⟨fun hfalse => absurd hfalse Bool.false_ne_true, h.closed⟩, h.read⟩
  · rintro ⟨⟨-, hclosed⟩, hread⟩
    refine ⟨hclosed, hread, ?_, ?_⟩
    · intro c state hvisits line after hc hopen
      refine (hclosed.visits hvisits).resolve_right ?_
      rintro ⟨-, hin⟩
      rw [hc] at hin
      exact (closedIn_cons.mp hin).1 hopen
    · intro c state hvisits hc
      refine (hclosed.visits hvisits).resolve_right ?_
      rintro ⟨-, hin⟩
      rw [hc] at hin
      exact not_closedIn_nil hin

end

/-- A template, its use, a governance block and a loop. -/
def closedBlocks : String :=
  "template fair \x7b\n  expiresin 4w\n\x7d\ngovernance use fair\n" ++
    "governance \x7b\n  mindeliberation 3d\n\x7d\nloop 2:\n  pop\n"

/-- The block stands one deeper than the `if:`, beside an `if passed:`. -/
def droppedBlock : String :=
  "if:\n  if passed:\n    pop\n governance \x7b\n \x7d\n"

set_option maxRecDepth 1000 in
theorem parseDsl_terminated_blocks :
    Terminated Binary64 closedBlocks ∧ ¬ Terminated Binary64 droppedBlock := by
  constructor
  · have hparse : parseDsl closedBlocks = .ok ([.loop 2 [.pop]],
        (⟨none, none, some 259200, some 2419200, []⟩ : LifecycleConfig Binary64)) := rfl
    exact (parseDsl_terminated _ _ _ hparse).mpr (by decide)
  · have hparse : parseDsl droppedBlock = .ok ([.ifOp [] [.ifPassed [.pop]] none],
        (.default : LifecycleConfig Binary64)) := rfl
    intro h
    exact absurd ((parseDsl_terminated _ _ _ hparse).mp h).2 (by decide)

/-- A block that is open at the end. -/
theorem not_terminated_open :
    parseDsl "governance \x7b" = .ok (([], .default) : List (Op Binary64) × _) ∧
      ¬ Terminated Binary64 "governance \x7b" := by
  refine ⟨rfl, fun h => ?_⟩
  exact not_closedIn_nil (h.closed [] "governance \x7b".toList [] rfl (.inr rfl))

end Covm.Compiler
