import Covm.Compiler.Literals
import Covm.Compiler.Progress

/-!
# The lines of an indented block

A line that begins a block takes the lines up to the first one that is neither blank, nor deeper, nor
an `else:`. The parsers keep to this wherever they succeed: `Encloses` says of the lines a call has
moved over that every opening line among them stands in such a block, and that no such block goes on
behind them.
-/

namespace Text

theorem words_cons_space {c : Char} (hc : isWhitespace c = true) (text : List Char) :
    words (c :: text) = words text := by
  unfold words
  rw [List.splitOnP_cons_eq_if_modifyHead, if_pos hc]
  rfl

theorem words_concat_space {c : Char} (hc : isWhitespace c = true) (text : List Char) :
    words (text ++ [c]) = words text := by
  unfold words
  rw [List.splitOnP_append_cons _ _ hc, List.filter_append]
  simp

theorem words_trim (line : List Char) : words (trim line) = words line := by
  have hstart (text : List Char) : words (trimStart text) = words text := by
    induction text with
    | nil => rfl
    | cons c text ih =>
      by_cases hc : isWhitespace c = true
      · rw [words_cons_space hc, ← ih, trimStart, trimStart, List.dropWhile_cons_of_pos hc]
      · rw [trimStart, List.dropWhile_cons_of_neg hc]
  have hend (text : List Char) : words (trimEnd text) = words text := by
    induction text using List.reverseRecOn with
    | nil => rfl
    | append_singleton text c ih =>
      by_cases hc : isWhitespace c = true
      · rw [words_concat_space hc, ← ih, trimEnd, trimEnd, List.rdropWhile_concat_pos _ _ _ hc]
      · rw [trimEnd, List.rdropWhile_concat_neg _ _ _ hc]
  rw [trim, hend, hstart]

end Text

namespace Covm.Compiler

open Partial
open Text (trim words indent isBlank)

/-- A line that opens a template or a governance block. -/
abbrev Opens (line : Line) : Prop := OpensTemplate line ∨ OpensGovernance line

abbrev ElseLine (line : Line) : Prop := trim line = "else:".toList

/-- A line behind which the parsers read a block. -/
def BeginsBlock (line : Line) : Prop :=
  trim line ∈ ["if:", "condition:", "value:", "default:"].map String.toList ∨
    ∃ word ∈ ["loop ", "def ", "case "], word.toList <+: trim line

instance (line : Line) : Decidable (BeginsBlock line) := inferInstanceAs (Decidable (_ ∨ _))

/-- The block of a line with this indentation does not go on with the line. -/
def EndsBlock (base : Nat) (line : Line) : Prop :=
  isBlank line = false ∧ indent line ≤ base ∧ ¬ ElseLine line

instance (base : Nat) (line : Line) : Decidable (EndsBlock base line) :=
  inferInstanceAs (Decidable (_ ∧ _ ∧ _))

/-- Above the line a block begins that goes on with it. -/
def InBlock (before : List Line) (line : Line) : Prop :=
  ∃ header between, header :: between <:+ before ∧ BeginsBlock header ∧
    (∀ other ∈ between, ¬ EndsBlock (indent header) other) ∧ ¬ EndsBlock (indent header) line

theorem InBlock.mono {before before' : List Line} {line : Line} (h : InBlock before line)
    (hsuffix : before <:+ before') : InBlock before' line := by
  obtain ⟨header, between, hbefore, hrest⟩ := h
  exact ⟨header, between, hbefore.trans hsuffix, hrest⟩

/-! ### No command begins like these lines -/

def openingWords : List String := ["template", "governance"]

def blockWords : List String := ["if:", "condition:", "value:", "default:", "loop", "def", "case"]

/-- The first words of the lines that open, begin or divide a block. -/
def headerWords : List String := "else:" :: openingWords ++ blockWords

/-- The first word of the line is one of these. -/
def BeginsWith (kinds : List String) (line : Line) : Prop :=
  ∃ word ∈ kinds, word.toList <+: trim line ∧ ∃ args, words (trim line) = word.toList :: args

section
variable {line : Line} {kinds kinds' : List String}

theorem BeginsWith.mono (h : BeginsWith kinds line) (hsub : kinds ⊆ kinds') :
    BeginsWith kinds' line := by
  obtain ⟨word, hword, hrest⟩ := h
  exact ⟨word, hsub hword, hrest⟩

theorem BeginsWith.not (h : BeginsWith kinds line) (hkinds : ∀ word ∈ kinds, word ∉ kinds') :
    ¬ BeginsWith kinds' line := by
  rintro ⟨word', hword', -, args', hwords'⟩
  obtain ⟨word, hword, -, args, hwords⟩ := h
  have hhead : word.toList = word'.toList := (List.cons.inj (hwords.symm.trans hwords')).1
  exact hkinds word hword (String.toList_inj.mp hhead ▸ hword')

theorem BeginsWith.isBlank (h : BeginsWith kinds line) : isBlank line = false := by
  obtain ⟨word, -, -, args, hwords⟩ := h
  rw [← Bool.not_eq_true]
  intro hblank
  rw [Text.trim_of_isBlank hblank] at hwords
  cases hwords

theorem beginsWith_of_eq {word : String} (hword : word ∈ kinds) (h : trim line = word.toList)
    (hsingle : words word.toList = [word.toList]) : BeginsWith kinds line :=
  ⟨word, hword, by rw [h], [], by rw [h, hsingle]⟩

theorem beginsWith_of_start {word : String} (hword : word ∈ kinds) (hne : word.toList ≠ [])
    (hall : (word.toList.all fun c => !Text.isWhitespace c) = true)
    (h : word.toList ++ [' '] <+: trim line) : BeginsWith kinds line := by
  have hvisible : ∀ c ∈ word.toList, Text.isWhitespace c = false := by simpa using hall
  refine ⟨word, hword, (List.prefix_append _ _).trans h, ?_⟩
  obtain ⟨rest, hrest⟩ := h
  refine ⟨words rest, ?_⟩
  rw [← hrest, List.append_assoc, List.singleton_append]
  exact Text.words_append_space hvisible hne isWhitespace_space rest

theorem Opens.beginsWith (h : Opens line) : BeginsWith openingWords line := by
  rcases h with ⟨hstarts, -⟩ | heq
  · exact beginsWith_of_start (by decide : "template" ∈ openingWords) (by decide) rfl hstarts
  · refine beginsWith_of_start (by decide : "governance" ∈ openingWords) (by decide) rfl ?_
    rw [heq]
    decide

theorem ElseLine.beginsWith (h : ElseLine line) : BeginsWith ["else:"] line :=
  beginsWith_of_eq List.mem_cons_self h (by decide)

theorem BeginsBlock.beginsWith (h : BeginsBlock line) : BeginsWith blockWords line := by
  rcases h with h | ⟨word, hword, h⟩
  · obtain ⟨word, hword, heq⟩ := List.mem_map.mp h
    have hall : ∀ word ∈ ["if:", "condition:", "value:", "default:"],
        word ∈ blockWords ∧ words word.toList = [word.toList] := by decide
    obtain ⟨hblock, hsingle⟩ := hall word hword
    exact beginsWith_of_eq hblock heq.symm hsingle
  · simp only [List.mem_cons, List.not_mem_nil, or_false] at hword
    rcases hword with rfl | rfl | rfl
    · exact beginsWith_of_start (by decide : "loop" ∈ blockWords) (by decide) rfl h
    · exact beginsWith_of_start (by decide : "def" ∈ blockWords) (by decide) rfl h
    · exact beginsWith_of_start (by decide : "case" ∈ blockWords) (by decide) rfl h

theorem BeginsBlock.not_opens (h : BeginsBlock line) : ¬ Opens line := fun hopen =>
  h.beginsWith.not (by decide) hopen.beginsWith

theorem BeginsBlock.not_elseLine (h : BeginsBlock line) : ¬ ElseLine line := fun helse =>
  h.beginsWith.not (by decide) helse.beginsWith

theorem Opens.not_elseLine (h : Opens line) : ¬ ElseLine line := fun helse =>
  h.beginsWith.not (by decide) helse.beginsWith

/-- A line that says nothing about blocks. -/
structure Indifferent (line : Line) : Prop where
  opens : ¬ Opens line
  begins : ¬ BeginsBlock line
  elseLine : ¬ ElseLine line

theorem indifferent_of_not (h : ¬ BeginsWith headerWords line) : Indifferent line where
  opens hopen := h (hopen.beginsWith.mono (by decide))
  begins hbegin := h (hbegin.beginsWith.mono (by decide))
  elseLine helse := h (helse.beginsWith.mono (by decide))

theorem indifferent_of_isBlank (h : isBlank line = true) : Indifferent line :=
  indifferent_of_not fun hheader => Bool.false_ne_true (hheader.isBlank.symm.trans h)

section
variable {F : Type} [Number F] {pos : SourcePosition}

theorem parseCommand_of_header {word : String} (hword : word ∈ headerWords) (args : Arguments) :
    (parseCommand line pos args word : Parse (Op F)) = fail (.unknownCommand word pos) := by
  have hall : ∀ word ∈ headerWords, (parseCommand line pos args word : Parse (Op F)) =
      fail (.unknownCommand word pos) := by
    simp only [headerWords, openingWords, blockWords, List.cons_append, List.nil_append,
      List.forall_mem_cons]
    refine ⟨?_, ?_, ?_, ?_, ?_, ?_, ?_, ?_, ?_, ?_, List.forall_mem_nil _⟩ <;> rfl
  exact hall word hword

theorem governanceCommand_of_header {word : String} (hword : word ∈ headerWords)
    (config : LifecycleConfig F) (args : Arguments) :
    governanceCommand pos config args word = fail (.unknownCommand word pos) := by
  have hall : ∀ word ∈ headerWords, governanceCommand pos config args word =
      fail (.unknownCommand word pos) := by
    simp only [headerWords, openingWords, blockWords, List.cons_append, List.nil_append,
      List.forall_mem_cons]
    refine ⟨?_, ?_, ?_, ?_, ?_, ?_, ?_, ?_, ?_, ?_, List.forall_mem_nil _⟩ <;> rfl
  exact hall word hword

theorem isComment_of_header (h : BeginsWith headerWords line) : isComment line = false := by
  obtain ⟨word, hword, ⟨rest, hrest⟩, -⟩ := h
  have hall : ∀ word ∈ headerWords, ∀ rest, (word.toList ++ rest).head? ≠ some '#' := by
    simp only [headerWords, openingWords, blockWords, List.cons_append, List.nil_append,
      List.forall_mem_cons]
    refine ⟨?_, ?_, ?_, ?_, ?_, ?_, ?_, ?_, ?_, ?_, List.forall_mem_nil _⟩ <;>
      exact fun _ heq => absurd (Option.some.inj heq) (by decide)
  rw [isComment, ← hrest, decide_eq_false_iff_not]
  exact hall word hword rest

theorem indifferent_of_parseLine {op : Op F} (h : parseLine line pos = .ok op) :
    Indifferent line := by
  refine indifferent_of_not fun hheader => ?_
  rw [parseLine, isComment_of_header hheader] at h
  obtain ⟨word, hword, -, args, hwords⟩ := hheader
  rw [Text.words_trim] at hwords
  simp only [Bool.false_eq_true, if_false, hwords, String.ofList_toList,
    parseCommand_of_header hword args] at h
  cases h

theorem not_begins_of_readDirective {state state' : DslState F}
    (h : readDirective pos state (trim line) = .ok (some state')) :
    ¬ BeginsBlock line ∧ ¬ ElseLine line := by
  suffices hnot : ¬ BeginsWith ("else:" :: blockWords) line from
    ⟨fun hbegin => hnot (hbegin.beginsWith.mono (by decide)),
      fun helse => hnot (helse.beginsWith.mono (by decide))⟩
  intro hheader
  have hopening : ¬ BeginsWith openingWords line := hheader.not (by decide)
  have hgovernance (hstarts : "governance ".toList <+: trim line) : False :=
    hopening (beginsWith_of_start (by decide : "governance" ∈ openingWords) (by decide) rfl hstarts)
  have hclose : trim line ≠ "\x7d".toList := by
    intro heq
    obtain ⟨word, hword, hstarts, -⟩ := hheader
    have hall : ∀ word ∈ "else:" :: blockWords, ¬ word.toList <+: "\x7d".toList := by decide
    exact hall word hword (heq ▸ hstarts)
  unfold readDirective at h
  split_ifs at h with h₁ h₂ h₃ h₄ h₅
  · exact hopening (Opens.beginsWith (.inl h₁))
  · exact hclose h₂.2
  · exact hgovernance (List.IsPrefix.trans (by decide) h₃)
  · exact hopening (Opens.beginsWith (.inr h₄))
  · exact hclose h₅.2
  · obtain ⟨word, hword, -, args, hwords⟩ := hheader
    have hmem : word ∈ headerWords := by
      have hall : ∀ word ∈ "else:" :: blockWords, word ∈ headerWords := by decide
      exact hall word hword
    simp only [readCommand, hwords, String.ofList_toList, governanceCommand_of_header hmem] at h
    cases h
  · cases h

end

end

/-! ### What the parsers leave behind -/

/-- The lines `passed` stand before the lines `rest`. Every opening line among them is read, or it
stands in a block; and no block among them goes on with `rest`. -/
structure Enclosed (Read : List Line → Prop) (passed rest : List Line) : Prop where
  covers : ∀ before line after, passed = before ++ line :: after → Opens line →
    Read (line :: (after ++ rest)) ∨ InBlock before line
  closes : ∀ before header after, passed = before ++ header :: after → BeginsBlock header →
    (∃ line ∈ after, EndsBlock (indent header) line) ∨ Ends (indent header) rest

section
variable {Read : List Line → Prop} {line : Line} {passed passed' rest : List Line}

theorem Ends.mono {base base' : Nat} (h : Ends base rest) (hbase : base ≤ base') :
    Ends base' rest := by
  intro line hline
  obtain ⟨hblank, hindent⟩ := h line hline
  exact ⟨hblank, hindent.trans hbase⟩

theorem Enclosed.mono {Read' : List Line → Prop} (h : Enclosed Read passed rest)
    (hread : ∀ lines, Read lines → Read' lines) : Enclosed Read' passed rest where
  covers before line after heq hopen := (h.covers before line after heq hopen).imp_left (hread _)
  closes := h.closes

theorem enclosed_nil : Enclosed Read [] rest where
  covers before line after h := absurd h (by simp)
  closes before header after h := absurd h (by simp)

theorem enclosed_singleton (hopen : Opens line → Read (line :: rest)) (hbegin : ¬ BeginsBlock line) :
    Enclosed Read [line] rest where
  covers before other after h hother := by
    obtain ⟨rfl, rfl, rfl⟩ : before = [] ∧ other = line ∧ after = [] := by
      simpa [List.singleton_eq_append_iff] using h
    exact .inl (hopen hother)
  closes before other after h hother := by
    obtain ⟨rfl, rfl, rfl⟩ : before = [] ∧ other = line ∧ after = [] := by
      simpa [List.singleton_eq_append_iff] using h
    exact absurd hother hbegin

/-- A line of the one part or of the other. -/
theorem split_append {before after : List Line} (h : passed ++ passed' = before ++ line :: after) :
    (∃ middle, passed = before ++ line :: middle ∧ after = middle ++ passed') ∨
      ∃ middle, before = passed ++ middle ∧ passed' = middle ++ line :: after := by
  rcases List.append_eq_append_iff.mp h with ⟨middle, hbefore, hpassed'⟩ | ⟨middle, hpassed, hafter⟩
  · exact .inr ⟨middle, hbefore, hpassed'⟩
  · cases middle with
    | nil => exact .inr ⟨[], by simpa using hpassed.symm, by simpa using hafter.symm⟩
    | cons other middle =>
      obtain ⟨rfl, rfl⟩ := List.cons.inj hafter
      exact .inl ⟨middle, hpassed, rfl⟩

theorem Enclosed.append (h : Enclosed Read passed (passed' ++ rest))
    (h' : Enclosed Read passed' rest) (hhead : ∀ line ∈ passed'.head?, ¬ ElseLine line) :
    Enclosed Read (passed ++ passed') rest where
  covers before line after heq hopen := by
    rcases split_append heq with ⟨middle, hpassed, rfl⟩ | ⟨middle, rfl, hpassed'⟩
    · rw [List.append_assoc]
      exact h.covers before line middle hpassed hopen
    · exact (h'.covers middle line after hpassed' hopen).imp_right fun hblock =>
        hblock.mono (List.suffix_append _ _)
  closes before header after heq hbegin := by
    rcases split_append heq with ⟨middle, hpassed, rfl⟩ | ⟨middle, rfl, hpassed'⟩
    · rcases h.closes before header middle hpassed hbegin with ⟨line, hline, hends⟩ | hends
      · exact .inl ⟨line, List.mem_append_left _ hline, hends⟩
      · cases passed' with
        | nil => exact .inr hends
        | cons line lines =>
          obtain ⟨hblank, hindent⟩ := hends line rfl
          exact .inl ⟨line, by simp, hblank, hindent, hhead line rfl⟩
    · exact h'.closes middle header after hpassed' hbegin

/-- A header with lines that belong to its block, and a line that does not. -/
theorem enclosed_block {header : Line} (hbegin : BeginsBlock header)
    (hdeep : ∀ line ∈ passed, Belongs False (indent header + 1) line)
    (hends : Ends (indent header) rest) : Enclosed Read (header :: passed) rest where
  covers before line after heq hopen := by
    right
    cases before with
    | nil =>
      cases heq
      exact absurd hopen hbegin.not_opens
    | cons first between =>
      obtain ⟨rfl, rfl⟩ := List.cons.inj heq
      have hgoes (other : Line) (hother : other ∈ between ++ line :: after) :
          ¬ EndsBlock (indent header) other := by
        rintro ⟨hblank, hindent, helse⟩
        rcases hdeep other hother with hblank' | hdeeper | ⟨-, helse'⟩
        · exact Bool.false_ne_true (hblank.symm.trans hblank')
        · omega
        · exact helse helse'
      refine ⟨header, between, List.suffix_refl _, hbegin, fun other hother => ?_, ?_⟩
      · exact hgoes other (List.mem_append_left _ hother)
      · exact hgoes line (List.mem_append_right _ List.mem_cons_self)
  closes before other after heq hother := by
    right
    cases before with
    | nil =>
      cases heq
      exact hends
    | cons first between =>
      obtain ⟨rfl, rfl⟩ := List.cons.inj heq
      rcases hdeep other (by simp) with hblank | hdeeper | ⟨-, helse⟩
      · exact absurd (hother.beginsWith.isBlank.symm.trans hblank) Bool.false_ne_true
      · exact hends.mono (by omega)
      · exact absurd helse hother.not_elseLine

end

/-- The opening lines among those passed over stand in blocks, and no block goes on behind them. -/
def Encloses (c d : Cursor) : Prop :=
  ∃ passed, c.rest = passed ++ d.rest ∧ Enclosed (fun _ => False) passed d.rest ∧
    ∀ line ∈ passed.head?, ¬ ElseLine line

section
variable {c d e : Cursor} {line : Line} {rest : List Line}

theorem Encloses.refl (c : Cursor) : Encloses c c :=
  ⟨[], rfl, enclosed_nil, fun _ h => nomatch h⟩

theorem Encloses.trans (h : Encloses c d) (h' : Encloses d e) : Encloses c e := by
  obtain ⟨passed, hc, henclosed, hhead⟩ := h
  obtain ⟨passed', hd, henclosed', hhead'⟩ := h'
  refine ⟨passed ++ passed', by rw [hc, hd, List.append_assoc], ?_, ?_⟩
  · rw [hd] at henclosed
    exact henclosed.append henclosed' hhead'
  · cases passed with
    | nil => exact hhead'
    | cons line lines => exact hhead

theorem encloses_next (hc : c.rest = line :: rest) (h : Indifferent line) : Encloses c c.next := by
  have hnext : c.next.rest = rest := by rw [Cursor.next_rest, hc, List.tail_cons]
  refine ⟨[line], by rw [hc, hnext, List.singleton_append], ?_, fun other hother => ?_⟩
  · exact enclosed_singleton (fun hopen => h.opens hopen) h.begins
  · cases hother
    exact h.elseLine

theorem encloses_block (hc : c.rest = line :: rest) (hbegin : BeginsBlock line)
    (hleads : Leads False (indent line + 1) c.next d) (hends : Ends (indent line) d.rest) :
    Encloses c d := by
  obtain ⟨skipped, hskipped, -, hdeep⟩ := hleads
  rw [Cursor.next_rest, hc, List.tail_cons] at hskipped
  refine ⟨line :: skipped, by rw [hc, hskipped, List.cons_append], ?_, fun other hother => ?_⟩
  · exact enclosed_block hbegin hdeep hends
  · cases hother
    exact hbegin.not_elseLine

end

/-! ### What a call does -/

variable {F : Type} [Number F]

/-- A block that begins a line of its own kind encloses what it takes. -/
def Question.Encloses : (q : Question F) → Answer F q → Prop
  | .block .., _ => True
  | .nested kind c _, r => ∀ line rest, c.rest = line :: rest → blockKind (trim line) = some kind →
      Compiler.Encloses c r.2
  | .whileLines c .., r => Compiler.Encloses c r.2
  | .matchLines c .., r => Compiler.Encloses c r.2
  | .dsl .., _ => True

section
variable {c d : Cursor} {line : Line} {rest : List Line} {pos : SourcePosition} {α β : Type}

/-- Given what the calls do, the lines from `c` on are enclosed. -/
def Enclosing (c : Cursor) (x : Parser F (α × Cursor)) : Prop :=
  x.Bounded (fun _ => True) (fun q r => parser.solve q = .ok r ∧ q.Encloses r)
    fun r => Encloses c r.2

theorem Enclosing.bind {x : Parser F (α × Cursor)} {f : α × Cursor → Parser F (β × Cursor)}
    (hx : Enclosing c x) (hf : ∀ a d, Encloses c d → Enclosing c (f (a, d))) :
    Enclosing c (x >>= f) :=
  Rec.Bounded.bind hx fun r hr => hf r.1 r.2 hr

theorem enclosing_pure {a : α} (h : Encloses c d) : Enclosing c (pure (a, d) : Parser F _) := h

theorem enclosing_throw {e : Failure} : Enclosing c (Rec.throw e : Parser F (α × Cursor)) := trivial

theorem enclosing_ofExcept_bind {x : Parse α} {f : α → Parser F (β × Cursor)}
    (hf : ∀ a, x = .ok a → Enclosing c (f a)) : Enclosing c (Rec.ofExcept x >>= f) := by
  cases x with
  | ok a => exact hf a rfl
  | error e => trivial

theorem enclosing_parseWhileLines {currentIndent : Nat} {parts : WhileParts F} (h : Encloses c d) :
    Enclosing c (parseWhileLines d currentIndent pos parts) :=
  ⟨trivial, fun _ hr => h.trans hr.2⟩

theorem enclosing_parseMatchLines {currentIndent : Nat} {parts : MatchParts F} (h : Encloses c d) :
    Enclosing c (parseMatchLines d currentIndent pos parts) :=
  ⟨trivial, fun _ hr => h.trans hr.2⟩

/-- A block leads over its lines, and ends where it should. -/
theorem bounded_parseBlock (c : Cursor) (base : Nat) :
    (parseBlock c base pos : Parser F _).Bounded (fun _ => True)
      (fun q r => parser.solve q = .ok r ∧ q.Encloses r)
      fun r => Leads False (base + 1) c r.2 ∧ Ends base r.2.rest := by
  refine ⟨trivial, fun r hr => ⟨?_, solveBlock_ends hr.1⟩⟩
  exact leads_of_solve (fun hfalse => hfalse.elim) hr.1

variable (hc : c.rest = line :: rest)
include hc

theorem enclosing_lineAt_bind {f : Line → Parser F (β × Cursor)} (hf : Enclosing c (f line)) :
    Enclosing c (lineAt c >>= f) := by
  unfold lineAt
  rw [hc]
  exact hf

theorem enclosing_parseNested {kind : BlockKind} (hkind : blockKind (trim line) = some kind) :
    Enclosing c (parseNested kind c pos : Parser F _) :=
  ⟨trivial, fun _ hr => hr.2 line rest hc hkind⟩

theorem enclosing_parseStatement : Enclosing c (parseStatement c line pos : Parser F _) :=
  enclosing_ofExcept_bind fun _ hparse =>
    enclosing_pure (encloses_next hc (indifferent_of_parseLine hparse))

theorem enclosing_parseBlock_bind (hbegin : BeginsBlock line) {blockPos : SourcePosition}
    {f : List (Op F) × Cursor → Parser F (β × Cursor)}
    (hf : ∀ ops d, Encloses c d → Enclosing c (f (ops, d))) :
    Enclosing c (parseBlock c.next (indent line) blockPos >>= f) :=
  Rec.Bounded.bind (bounded_parseBlock c.next (indent line)) fun r hr =>
    hf r.1 r.2 (encloses_block hc hbegin hr.1 hr.2)

theorem parseIfBlock_enclosing (hbegin : BeginsBlock line) :
    Enclosing c (parseIfBlock c pos : Parser F _) := by
  refine enclosing_lineAt_bind hc ?_
  refine Rec.Bounded.bind (bounded_parseBlock c.next (indent line)) ?_
  rintro ⟨thenOps, d⟩ ⟨hleads, hends⟩
  dsimp only at hleads hends ⊢
  unfold parseElse
  split
  · next other lines hrest =>
    split_ifs with hother
    · refine Rec.Bounded.bind (bounded_parseBlock d.next (indent line)) ?_
      rintro ⟨elseOps, e⟩ ⟨hleads', hends'⟩
      have helse : Leads False (indent line + 1) d e :=
        Leads.next hrest (.inr (.inr ⟨id, hother⟩)) hleads'
      exact enclosing_pure (encloses_block hc hbegin (hleads.trans helse) hends')
    · exact enclosing_pure (encloses_block hc hbegin hleads hends)
  · exact enclosing_pure (encloses_block hc hbegin hleads hends)

theorem parseLoopBlock_enclosing (hbegin : BeginsBlock line) :
    Enclosing c (parseLoopBlock c pos : Parser F _) := by
  refine enclosing_lineAt_bind hc (enclosing_ofExcept_bind fun count _ => ?_)
  exact enclosing_parseBlock_bind hc hbegin fun body d hd => enclosing_pure hd

theorem parseFunctionBlock_enclosing (hbegin : BeginsBlock line) :
    Enclosing c (parseFunctionBlock c pos : Parser F _) := by
  refine enclosing_lineAt_bind hc (enclosing_ofExcept_bind fun header _ => ?_)
  exact enclosing_parseBlock_bind hc hbegin fun body d hd => enclosing_pure hd

theorem parseWhileBlock_enclosing (hline : Indifferent line) :
    Enclosing c (parseWhileBlock c pos : Parser F _) := by
  refine enclosing_lineAt_bind hc ?_
  refine (enclosing_parseWhileLines (encloses_next hc hline)).bind fun parts d hd => ?_
  exact enclosing_pure hd

theorem parseMatchBlock_enclosing (hline : Indifferent line) :
    Enclosing c (parseMatchBlock c pos : Parser F _) := by
  refine enclosing_lineAt_bind hc ?_
  refine (enclosing_parseMatchLines (encloses_next hc hline)).bind fun parts d hd => ?_
  dsimp only
  split_ifs
  · exact enclosing_throw
  · exact enclosing_pure hd

omit [Number F] hc in
theorem indifferent_of_eq {word : String} (h : trim line = word.toList)
    (hsingle : words word.toList = [word.toList]) (hword : word ∉ headerWords) :
    Indifferent line := by
  have hbegins : BeginsWith [word] line := beginsWith_of_eq List.mem_cons_self h hsingle
  exact indifferent_of_not (hbegins.not (by simpa using hword))

theorem parseNestedBlock_enclosing {kind : BlockKind} (hkind : blockKind (trim line) = some kind) :
    Enclosing c (parseNestedBlock c pos kind : Parser F _) := by
  unfold blockKind at hkind
  split_ifs at hkind with h₁ h₂ h₃ h₄ h₅ <;> cases hkind
  · exact parseIfBlock_enclosing hc (.inl (by rw [h₁]; decide))
  · exact parseWhileBlock_enclosing hc (indifferent_of_eq h₂ (by decide) (by decide))
  · exact parseFunctionBlock_enclosing hc (.inr ⟨"def ", by decide, h₃⟩)
  · exact parseMatchBlock_enclosing hc (indifferent_of_eq h₄ (by decide) (by decide))
  · exact parseLoopBlock_enclosing hc (.inr ⟨"loop ", by decide, h₅⟩)

theorem parseWhileLine_enclosing : Enclosing c (parseWhileLine c line pos : Parser F _) := by
  unfold parseWhileLine
  split_ifs
  · split
    · next kind hkind => exact enclosing_parseNested hc (blockKind_of_whileBlockKind hkind)
    · exact enclosing_throw
  · exact enclosing_parseStatement hc

theorem parseTopLine_enclosing : Enclosing c (parseTopLine c line pos : Parser F _) := by
  unfold parseTopLine
  split_ifs
  · split
    · next kind hkind => exact enclosing_parseNested hc hkind
    · exact enclosing_throw
  · exact enclosing_parseStatement hc

end

section
variable {c d : Cursor} {line : Line} {rest : List Line} {pos : SourcePosition}

theorem whileLoop_enclosing {currentIndent : Nat} {parts : WhileParts F} :
    Enclosing c (whileLoop c currentIndent pos parts) := by
  unfold whileLoop
  split
  · exact enclosing_pure (.refl c)
  · next line rest hc =>
    split_ifs with hdedent hcondition
    · exact enclosing_pure (.refl c)
    · refine enclosing_parseBlock_bind hc (.inl (by rw [hcondition]; decide)) fun ops d hd => ?_
      exact enclosing_parseWhileLines hd
    · exact (parseWhileLine_enclosing hc).bind fun op d hd => enclosing_parseWhileLines hd

theorem matchLoop_enclosing {currentIndent : Nat} {parts : MatchParts F} :
    Enclosing c (matchLoop c currentIndent pos parts) := by
  unfold matchLoop
  split
  · exact enclosing_pure (.refl c)
  · next line rest hc =>
    split_ifs with hdedent hvalue hcase hdefault
    · exact enclosing_pure (.refl c)
    · refine enclosing_parseBlock_bind hc (.inl (by rw [hvalue]; decide)) fun ops d hd => ?_
      exact enclosing_parseMatchLines hd
    · refine enclosing_ofExcept_bind fun value _ => ?_
      refine enclosing_parseBlock_bind hc (.inr ⟨"case ", by decide, hcase⟩) fun ops d hd => ?_
      exact enclosing_parseMatchLines hd
    · refine enclosing_parseBlock_bind hc (.inl (by rw [hdefault]; decide)) fun ops d hd => ?_
      exact enclosing_parseMatchLines hd
    · exact (enclosing_parseStatement hc).bind fun op d hd => enclosing_parseMatchLines hd

theorem encloses_of_solve {q : Question F} {r : Answer F q} (hr : parser.solve q = .ok r) :
    q.Encloses r := by
  refine Recursion.solve_induction (P := fun _ => True) (fun _ _ _ _ => trivial) (fun q _ => ?_)
    trivial hr
  cases q with
  | block c baseIndent pos => exact Rec.bounded_true _ (body (.block c baseIndent pos))
  | nested kind c pos =>
    by_cases hblock : ∃ line rest, c.rest = line :: rest ∧ blockKind (trim line) = some kind
    · obtain ⟨line, rest, hc, hkind⟩ := hblock
      exact Rec.Bounded.mono (parseNestedBlock_enclosing hc hkind) (fun _ h => h)
        fun r hr _ _ _ _ => hr
    · exact Rec.Bounded.mono (Rec.bounded_true _ (body (.nested kind c pos))) (fun _ h => h)
        fun r _ line rest hc hkind => absurd ⟨line, rest, hc, hkind⟩ hblock
  | whileLines c currentIndent pos parts => exact whileLoop_enclosing
  | matchLines c currentIndent pos parts => exact matchLoop_enclosing
  | dsl c state => exact Rec.bounded_true _ (body (.dsl c state))

/-- A line at the top, with the block behind it. -/
theorem encloses_of_topLine {op : Op F} (hc : c.rest = line :: rest)
    (h : (parseTopLine c line pos).eval parser.solve = .ok (op, d)) : Encloses c d :=
  (parseTopLine_enclosing hc).eval (fun _ _ _ hr => ⟨hr, encloses_of_solve hr⟩) h

end

end Covm.Compiler
