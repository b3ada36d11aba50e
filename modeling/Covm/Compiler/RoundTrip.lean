import Covm.Compiler.Printer
import Covm.Compiler.Unclosed
import Covm.Number.Text

/-!
# What is printed is read back

Each of the parsers of blocks reads its part of a printed program and stops at the first line that
is not deeper, which is where the next part begins (`Ends`). So the program is read back as it was.
-/

namespace Text

variable {before : List Char} {c : Char}

theorem splitOnce_append (h : c ∉ before) (after : List Char) :
    splitOnce c (before ++ c :: after) = some (before, after) := by
  induction before with
  | nil => exact if_pos rfl
  | cons d before ih =>
    rw [List.mem_cons, not_or] at h
    rw [List.cons_append, splitOnce, if_neg (Ne.symm h.1), ih h.2]
    rfl

theorem trimEndMatches_append (h : before.getLast? ≠ some c) :
    trimEndMatches c (before ++ [c]) = before := by
  rw [trimEndMatches, List.rdropWhile_concat_pos _ _ _ (by simp), List.rdropWhile_eq_self_iff]
  intro hne
  rw [List.getLast?_eq_some_getLast hne] at h
  simpa using h

end Text

namespace Covm.Compiler

open Partial
open Text (trim words indent isBlank isWhitespace trimEndMatches splitOnce)

variable {F : Type}

/-! ## Headers -/

/-- The first line of a block, at any depth. -/
structure IsHeader (F : Type) (header : List Char) (kind : BlockKind) : Prop where
  visible : Visible header
  endsInColon_eq : endsInColon header = true
  blockKind_eq : blockKind header = some kind
  noDirective : ¬ IsDirective (DslState.start : DslState F) header

theorem isHeader_word {header : List Char} {kind : BlockKind} (hword : IsWord header)
    (hcolon : endsInColon header = true) (hkind : blockKind header = some kind) :
    IsHeader F header kind :=
  ⟨hword.visible, hcolon, hkind, not_isDirective_of_isWord hword⟩

theorem whileBlockKind_of_blockKind {header : List Char} {kind : BlockKind}
    (h : blockKind header = some kind) (hkind : kind ≠ .functionBlock) :
    whileBlockKind header = some kind := by
  unfold blockKind at h
  unfold whileBlockKind
  split_ifs at h with hif hwhile hdef hmatch hloop
  · rw [if_pos hif, h]
  · rw [if_neg hif, if_pos hwhile, h]
  · exact absurd (Option.some.inj h).symm hkind
  · have hloop : ¬ "loop ".toList <+: header := by
      rw [hmatch]
      decide
    rw [if_neg hif, if_neg hwhile, if_neg hloop, if_pos hmatch, h]
  · rw [if_neg hif, if_neg hwhile, if_pos hloop, h]

theorem isWord_header {word : List Char} (h : IsPlainWord word) : IsWord (word ++ [':']) := by
  refine ⟨List.append_ne_nil_of_left_ne_nil h.1 _, fun c hc => ?_⟩
  rcases List.mem_append.mp hc with hc | hc
  · exact (h.2 c hc).isWhitespace_eq
  · rw [List.mem_singleton.mp hc]
    decide

/-! ### `loop` -/

theorem isPlainWord_toString (n : Nat) : IsPlainWord (toString n).toList := by
  have hlist : (toString n).toList = Nat.toDigits 10 n := Nat.toList_repr
  rw [hlist]
  refine ⟨Nat.toDigits_ne_nil, fun c hc => .inl ?_⟩
  rw [Char.isAlphanum, Ieee.isDigit_of_toDigits c hc, Bool.or_true]

theorem isHeader_loop (count : Nat) : IsHeader F (loopHeader count) .loopBlock where
  visible := visible_commandText (IsPlainWord.isWord (by decide))
    (isWord_header (isPlainWord_toString count))
  endsInColon_eq := by
    rw [loopHeader, endsInColon_commandText (List.append_ne_nil_of_right_ne_nil _ (by decide)),
      endsInColon, List.getLast?_concat]
    rfl
  blockKind_eq := rfl
  noDirective := not_isDirective_of_head rfl rfl (c := 'l') rfl (by decide) (by decide)

theorem parseLoopHeader_pad {count : Nat} (h : count < 2 ^ 64) (depth : Nat)
    (pos : SourcePosition) : parseLoopHeader (pad depth (loopHeader count)) pos = .ok count := by
  have hplain := isPlainWord_toString count
  have hheader : IsHeader Unit (loopHeader count) .loopBlock := isHeader_loop count
  have hsplit : splitOnce ' ' (loopHeader count) =
      some ("loop".toList, (toString count).toList ++ [':']) := Text.splitOnce_append (by decide) _
  have hcount : trimEndMatches ':' ((toString count).toList ++ [':']) = (toString count).toList :=
    Text.trimEndMatches_append fun hlast =>
      hplain.not_mem (by decide) (List.mem_of_getLast? hlast)
  rw [parseLoopHeader, hheader.visible.trim_pad, hsplit, orFail_some, ok_bind]
  dsimp only
  rw [if_pos (by decide), hcount, parseInteger, String.ofList_toList, parseU64_toString h,
    orFail_some]

/-! ### `def` -/

theorem not_mem_paramsText {params : List String} (h : ∀ param ∈ params, IsIdentifier param)
    {c : Char} (hc : ¬ IsPlain c) (hcomma : c ≠ ',') (hspace : c ≠ ' ') :
    c ∉ paramsText params := by
  induction params with
  | nil => exact List.not_mem_nil
  | cons param params ih =>
    rw [List.forall_mem_cons] at h
    cases params with
    | nil => exact h.1.isPlainWord.not_mem hc
    | cons param' params =>
      show c ∉ param.toList ++ ", ".toList ++ paramsText (param' :: params)
      rw [List.mem_append, List.mem_append]
      rintro ((hmem | hmem) | hmem)
      · exact h.1.isPlainWord.not_mem hc hmem
      · simp [hcomma, hspace] at hmem
      · exact ih h.2 hmem

theorem IsIdentifier.trim_spaces {name : String} (h : IsIdentifier name) (n : Nat) :
    trim (List.replicate n ' ' ++ name.toList) = name.toList :=
  (Text.trim_spaces_append n _).trans h.isPlainWord.isWord.visible.trim_eq

/-- The parameters, split at the commas. -/
theorem splitOn_paramsText {params : List String} (h : ∀ param ∈ params, IsIdentifier param)
    (n : Nat) : ((((List.replicate n ' ' ++ paramsText params).splitOn ',').map trim).filter
      fun param => !param.isEmpty) = params.map String.toList := by
  have hspaces : ∀ d ∈ List.replicate n ' ', (d == ',') = false := by
    intro d hd
    rw [List.eq_of_mem_replicate hd]
    decide
  induction params generalizing n with
  | nil =>
    have htrim : trim (List.replicate n ' ') = [] := by
      rw [← List.append_nil (List.replicate n ' '), Text.trim_spaces_append]
      rfl
    rw [paramsText, List.append_nil, List.splitOn, List.splitOnP_eq_singleton hspaces,
      List.map_singleton, htrim]
    rfl
  | cons param params ih =>
    rw [List.forall_mem_cons] at h
    have hparam : ∀ d ∈ List.replicate n ' ' ++ param.toList, (d == ',') = false := by
      intro d hd
      rcases List.mem_append.mp hd with hd | hd
      · exact hspaces d hd
      · rw [beq_eq_false_iff_ne]
        rintro rfl
        exact h.1.isPlainWord.not_mem (by decide) hd
    have hne : param.toList.isEmpty = false := by
      rw [List.isEmpty_eq_false_iff]
      exact h.1.1
    cases params with
    | nil =>
      rw [paramsText, List.splitOn, List.splitOnP_eq_singleton hparam, List.map_singleton,
        h.1.trim_spaces]
      simp [hne]
    | cons param' params =>
      have hrest := ih h.2 1 (by simp)
      have htext : List.replicate n ' ' ++ paramsText (param :: param' :: params) =
          (List.replicate n ' ' ++ param.toList) ++
            ',' :: (List.replicate 1 ' ' ++ paramsText (param' :: params)) := by
        simp [paramsText]
      rw [htext, List.splitOn, List.splitOnP_append_cons_of_forall_mem hparam ',' (by simp),
        List.map_cons, h.1.trim_spaces, List.filter_cons_of_pos (by simp [hne])]
      exact congrArg (param.toList :: ·) hrest

theorem defHeader_eq (name : String) (params : List String) :
    defHeader name params = ("def ".toList ++ name.toList) ++
      '(' :: (paramsText params ++ [')'] ++ [':']) := by
  simp [defHeader, commandText]

theorem visible_defHeader {name : String} {params : List String} (hname : IsIdentifier name)
    (hparams : ∀ param ∈ params, IsIdentifier param) : Visible (defHeader name params) where
  first := ⟨'d', rfl, by decide⟩
  last := by
    refine ⟨':', ?_, by decide⟩
    rw [defHeader_eq, ← List.cons_append, ← List.append_assoc, List.getLast?_concat]
    rfl
  noFeed hmem := by
    have hfeed : ¬ IsPlain '\n' := by decide
    simp only [defHeader_eq, List.mem_append, List.mem_cons, List.not_mem_nil, or_false] at hmem
    rcases hmem with (hmem | hmem) | hmem | (hmem | hmem) | hmem
    · exact absurd hmem (by decide)
    · exact hname.isPlainWord.not_mem hfeed hmem
    · exact absurd hmem (by decide)
    · exact not_mem_paramsText hparams hfeed (by decide) (by decide) hmem
    · exact absurd hmem (by decide)
    · exact absurd hmem (by decide)

theorem isHeader_def {name : String} {params : List String} (hname : IsIdentifier name)
    (hparams : ∀ param ∈ params, IsIdentifier param) :
    IsHeader F (defHeader name params) .functionBlock where
  visible := visible_defHeader hname hparams
  endsInColon_eq := by
    rw [endsInColon, defHeader_eq, ← List.cons_append, ← List.append_assoc, List.getLast?_concat]
    rfl
  blockKind_eq := rfl
  noDirective := not_isDirective_of_head rfl rfl (c := 'd') rfl (by decide) (by decide)

theorem trimEndMatches_paramsText {params : List String}
    (hparams : ∀ param ∈ params, IsIdentifier param) :
    trimEndMatches ')' (paramsText params ++ [')']) = paramsText params :=
  Text.trimEndMatches_append fun hlast =>
    not_mem_paramsText hparams (by decide) (by decide) (by decide) (List.mem_of_getLast? hlast)

theorem parseFunctionHeader_pad {name : String} {params : List String} (hname : IsIdentifier name)
    (hparams : ∀ param ∈ params, IsIdentifier param) (depth : Nat) (pos : SourcePosition) :
    parseFunctionHeader (pad depth (defHeader name params)) pos = .ok (name, params) := by
  set front := pad depth ("def ".toList ++ name.toList) with hfront
  have hline : pad depth (defHeader name params) =
      (front ++ '(' :: (paramsText params ++ [')'])) ++ [':'] := by
    simp [hfront, pad, defHeader_eq]
  have hopen : '(' ∉ front := by
    rw [hfront, pad, List.mem_append, List.mem_append]
    rintro (hmem | hmem | hmem)
    · exact absurd (List.eq_of_mem_replicate hmem) (by decide)
    · exact absurd hmem (by decide)
    · exact hname.isPlainWord.not_mem (by decide) hmem
  have hkeyword : IsWord "def".toList := IsPlainWord.isWord (by decide)
  have htrim : trim front = "def ".toList ++ name.toList :=
    (visible_commandText hkeyword hname.isPlainWord.isWord).trim_pad depth
  have hcolon : trimEndMatches ':' (pad depth (defHeader name params)) =
      front ++ '(' :: (paramsText params ++ [')']) := by
    rw [hline]
    exact Text.trimEndMatches_append (by simp [List.getLast?_cons])
  have hhas : ¬ ('(' ∉ pad depth (defHeader name params) ∨
      ')' ∉ pad depth (defHeader name params)) := by
    rw [hline]
    simp
  rw [parseFunctionHeader, if_neg hhas, parseFunctionSignature, hcolon,
    Text.splitOnce_append hopen, orFail_some, ok_bind]
  dsimp only
  have hslice : slicedFrom "def ".length ("def ".toList ++ name.toList) = .ok name.toList :=
    slicedFrom_append "def ".toList name.toList
  rw [htrim, if_pos (List.prefix_append _ _), hslice, ok_bind, trimEndMatches_paramsText hparams]
  have hname' := hname.trim_spaces 0
  have hparams' := splitOn_paramsText hparams 0
  rw [List.replicate_zero, List.nil_append] at hname' hparams'
  have hmap : (params.map String.toList).map String.ofList = params := by simp
  rw [hname', hparams', hmap, String.ofList_toList]
  rfl

/-! ### `case` -/

variable [Number F]

theorem visible_caseHeader [DecimalText F] (value : F) : Visible (caseHeader value) :=
  visible_commandText (IsPlainWord.isWord (by decide))
    (isWord_header (DecimalText.isPlainWord_toStr value))

theorem parseCaseValue_pad [DecimalText F] (value : F) (depth : Nat) (pos : SourcePosition) :
    parseCaseValue (pad depth (caseHeader value)) pos = .ok value := by
  have hplain := DecimalText.isPlainWord_toStr value
  have hslice : slicedFrom 5 (caseHeader value) = .ok ((Number.toStr value).toList ++ [':']) :=
    slicedFrom_append "case ".toList _
  have hvalue : trimEndMatches ':' ((Number.toStr value).toList ++ [':']) =
      (Number.toStr value).toList := Text.trimEndMatches_append fun hlast =>
    hplain.not_mem (by decide) (List.mem_of_getLast? hlast)
  rw [parseCaseValue, (visible_caseHeader value).trim_pad, hslice, ok_bind,
    (isWord_header hplain).visible.trim_eq]
  dsimp only
  rw [hvalue, parseF64, String.ofList_toList, DecimalText.parse_toStr, orFail_some]

/-! ## Blocks -/

theorem ends_pad {text : List Char} (h : Visible text) (depth : Nat) (lines : List Line) :
    Ends (4 * depth) (pad depth text :: lines) := by
  rintro line hline
  obtain rfl := Option.some.inj hline
  exact ⟨h.isBlank_pad depth, (h.indent_pad depth).le⟩

/-- An operation that is read back at every depth. -/
inductive Readable (op : Op F) : Prop
  | statement {text : List Char} (hnop : isNop op = false) (h : IsStatement op text)
      (hlines : ∀ depth, renderOp depth op = [pad depth text])
  | nested {header : List Char} {kind : BlockKind} (more : Nat → List Line)
      (hnop : isNop op = false) (h : IsHeader F header kind)
      (hdef : isDef op = false → kind ≠ .functionBlock)
      (hlines : ∀ depth, renderOp depth op = pad depth header :: more depth)
      (hmore : ∀ depth, ∀ line ∈ more depth, Text.IsLine '\n' '\r' line)
      (hreads : ∀ depth c pos rest, c.rest = pad depth header :: (more depth ++ rest) →
        Ends (4 * depth) rest → ∃ d, solveNested kind c pos = .ok (op, d) ∧ d.rest = rest)

theorem Readable.isNop_eq {op : Op F} (h : Readable op) : isNop op = false := by
  cases h with
  | statement hnop => exact hnop
  | nested _ hnop => exact hnop

theorem Readable.isLine {op : Op F} (h : Readable op) (depth : Nat) :
    ∀ line ∈ renderOp depth op, Text.IsLine '\n' '\r' line := by
  cases h with
  | statement _ h hlines =>
    rw [hlines, List.forall_mem_singleton]
    exact h.visible.isLine_pad depth
  | nested _ _ h _ hlines hmore =>
    rw [hlines, List.forall_mem_cons]
    exact ⟨h.visible.isLine_pad depth, hmore depth⟩

theorem isLine_renderOps {ops : List (Op F)} (h : ∀ op ∈ ops, Readable op) (depth : Nat) :
    ∀ line ∈ renderOps depth ops, Text.IsLine '\n' '\r' line := by
  induction ops with
  | nil => exact List.forall_mem_nil _
  | cons op ops ih =>
    rw [List.forall_mem_cons] at h
    rw [renderOps, List.forall_mem_append]
    exact ⟨h.1.isLine depth, ih h.2⟩

theorem eval_parseTopLine_statement {c : Cursor} {line : Line} {pos : SourcePosition}
    (hcolon : endsInColon (trim line) = false) :
    (parseTopLine c line pos : Parser F _).eval parser.solve =
      (do let op ← parseLine line pos; .ok (op, c.next)) := by
  rw [parseTopLine, hcolon, if_neg Bool.false_ne_true, eval_parseStatement]

theorem eval_parseTopLine_nested {c : Cursor} {line : Line} {pos : SourcePosition}
    {kind : BlockKind} (hcolon : endsInColon (trim line) = true)
    (hkind : blockKind (trim line) = some kind) :
    (parseTopLine c line pos : Parser F _).eval parser.solve = solveNested kind c pos := by
  rw [parseTopLine, if_pos hcolon, hkind]
  exact eval_solveNested kind

/-- The first line of an operation, and what the parsers of lines make of it. -/
theorem Readable.reads {op : Op F} (h : Readable op) (depth : Nat) :
    ∃ text more, Visible text ∧ ¬ IsDirective (DslState.start : DslState F) text ∧
      renderOp depth op = pad depth text :: more ∧
      ∀ c pos rest, c.rest = renderOp depth op ++ rest → Ends (4 * depth) rest →
        ∃ d, d.rest = rest ∧
          (∀ base, (blockItem c (pad depth text) base pos).eval parser.solve = .ok (op, d)) ∧
          (parseTopLine c (pad depth text) pos).eval parser.solve = .ok (op, d) ∧
          (isDef op = false → text ≠ "condition:".toList ∧
            (parseWhileLine c (pad depth text) pos).eval parser.solve = .ok (op, d)) := by
  cases h with
  | @statement text _ h hlines =>
    have hcolon : endsInColon (trim (pad depth text)) = false := by
      rw [h.visible.trim_pad, h.endsInColon_eq]
    refine ⟨text, [], h.visible, h.noDirective, hlines depth, ?_⟩
    intro c pos rest hc _
    refine ⟨c.next, ?_, fun base => ?_, ?_, fun _ => ⟨?_, ?_⟩⟩
    · rw [Cursor.next_rest, hc, hlines]
      rfl
    · rw [eval_blockItem_statement hcolon, h.parses, ok_bind]
    · rw [eval_parseTopLine_statement hcolon, h.parses, ok_bind]
    · rintro rfl
      exact absurd h.endsInColon_eq (by decide)
    · rw [eval_parseWhileLine_statement hcolon, h.parses, ok_bind]
  | @nested header kind more _ h hdef hlines _ hreads =>
    have htrim := h.visible.trim_pad depth
    have hcolon : endsInColon (trim (pad depth header)) = true := by
      rw [htrim, h.endsInColon_eq]
    have hkind : blockKind (trim (pad depth header)) = some kind := by
      rw [htrim, h.blockKind_eq]
    refine ⟨header, more depth, h.visible, h.noDirective, hlines depth, ?_⟩
    intro c pos rest hc hrest
    rw [hlines] at hc
    obtain ⟨d, hsolve, hd⟩ := hreads depth c pos rest hc hrest
    refine ⟨d, hd, fun base => ?_, ?_, fun hop => ⟨?_, ?_⟩⟩
    · rw [eval_blockItem_nested hcolon hkind, hsolve]
    · rw [eval_parseTopLine_nested hcolon hkind, hsolve]
    · rintro rfl
      cases h.blockKind_eq
    · rw [eval_parseWhileLine_nested hcolon (whileBlockKind_of_blockKind hkind (hdef hop)), hsolve]

section
variable {ops : List (Op F)} {rest : List Line} {base depth : Nat} {c : Cursor}
  {pos : SourcePosition}

theorem ends_renderOps (h : ∀ op ∈ ops, Readable op) (hrest : Ends (4 * depth) rest) :
    Ends (4 * depth) (renderOps depth ops ++ rest) := by
  cases ops with
  | nil => exact hrest
  | cons op ops =>
    obtain ⟨text, more, hvisible, -, hlines, -⟩ := (h op List.mem_cons_self).reads depth
    rw [renderOps, hlines]
    exact ends_pad hvisible depth _

/-! The parsers of blocks stop where a block ends. -/

theorem solveBlock_of_ends (h : Ends base c.rest) :
    solveBlock c base pos = .ok (([] : List (Op F)), c) := by
  cases hc : c.rest with
  | nil => exact solveBlock_nil hc
  | cons line lines =>
    obtain ⟨hblank, hindent⟩ := h line (by rw [hc]; rfl)
    exact solveBlock_dedent hc hblank hindent

theorem solveBlock_renderOps (h : ∀ op ∈ ops, Readable op)
    (hc : c.rest = renderOps (depth + 1) ops ++ rest) (hrest : Ends (4 * depth) rest) :
    ∃ d, solveBlock c (4 * depth) pos = .ok (ops, d) ∧ d.rest = rest := by
  induction ops generalizing c with
  | nil =>
    rw [renderOps, List.nil_append] at hc
    exact ⟨c, solveBlock_of_ends (hc ▸ hrest), hc⟩
  | cons op ops ih =>
    rw [List.forall_mem_cons] at h
    obtain ⟨hop, hops⟩ := h
    rw [renderOps, List.append_assoc] at hc
    have hends : Ends (4 * (depth + 1)) (renderOps (depth + 1) ops ++ rest) :=
      ends_renderOps hops (hrest.mono (Nat.mul_le_mul_left 4 (Nat.le_succ _)))
    obtain ⟨text, more, hvisible, -, hlines, hreads⟩ := hop.reads (depth + 1)
    obtain ⟨d, hd, hitem, -⟩ :=
      hreads c ⟨pos.line + c.index, indent (pad (depth + 1) text) + 1⟩ _ hc hends
    obtain ⟨e, hsolve, he⟩ := ih hops hd
    rw [hlines] at hc
    have hindent : 4 * depth < indent (pad (depth + 1) text) := by
      rw [hvisible.indent_pad]
      omega
    refine ⟨e, ?_, he⟩
    rw [solveBlock_item hc (hvisible.isBlank_pad _) hindent, hitem, ok_bind, hsolve, ok_bind,
      pushFront, hop.isNop_eq, if_neg Bool.false_ne_true]

theorem solveWhileLines_of_ends {parts : WhileParts F} (h : Ends base c.rest) :
    solveWhileLines c base pos parts = .ok (parts, c) := by
  cases hc : c.rest with
  | nil => exact solveWhileLines_nil hc
  | cons line lines => exact solveWhileLines_dedent hc (h line (by rw [hc]; rfl)).2

theorem solveMatchLines_of_ends {parts : MatchParts F} (h : Ends base c.rest) :
    solveMatchLines c base pos parts = .ok (parts, c) := by
  cases hc : c.rest with
  | nil => exact solveMatchLines_nil hc
  | cons line lines => exact solveMatchLines_dedent hc (h line (by rw [hc]; rfl)).2

theorem solveWhileLines_renderOps {parts : WhileParts F}
    (h : ∀ op ∈ ops, Readable op) (hdef : ∀ op ∈ ops, isDef op = false)
    (hc : c.rest = renderOps (depth + 1) ops ++ rest) (hrest : Ends (4 * depth) rest) :
    ∃ d, solveWhileLines c (4 * depth) pos parts =
      .ok ({ parts with body := parts.body ++ ops }, d) ∧ d.rest = rest := by
  induction ops generalizing c parts with
  | nil =>
    rw [renderOps, List.nil_append] at hc
    refine ⟨c, ?_, hc⟩
    rw [List.append_nil]
    exact solveWhileLines_of_ends (hc ▸ hrest)
  | cons op ops ih =>
    rw [List.forall_mem_cons] at h hdef
    obtain ⟨hop, hops⟩ := h
    rw [renderOps, List.append_assoc] at hc
    have hends : Ends (4 * (depth + 1)) (renderOps (depth + 1) ops ++ rest) :=
      ends_renderOps hops (hrest.mono (Nat.mul_le_mul_left 4 (Nat.le_succ _)))
    obtain ⟨text, more, hvisible, -, hlines, hreads⟩ := hop.reads (depth + 1)
    obtain ⟨d, hd, -, -, hwhile⟩ :=
      hreads c ⟨pos.line + c.index, indent (pad (depth + 1) text) + 1⟩ _ hc hends
    obtain ⟨hcondition, hitem⟩ := hwhile hdef.1
    obtain ⟨e, hsolve, he⟩ : ∃ e, solveWhileLines d (4 * depth) pos
        { parts with body := push op parts.body } =
          .ok ({ parts with body := push op parts.body ++ ops }, e) ∧ e.rest = rest :=
      ih hops hdef.2 hd
    rw [hlines] at hc
    have hindent : 4 * depth < indent (pad (depth + 1) text) := by
      rw [hvisible.indent_pad]
      omega
    have hline : trim (pad (depth + 1) text) ≠ "condition:".toList := by
      rwa [hvisible.trim_pad]
    refine ⟨e, ?_, he⟩
    rw [solveWhileLines_item hc hindent hline, hitem, ok_bind, hsolve]
    simp [push, hop.isNop_eq]

theorem solveDsl_renderOps (h : ∀ op ∈ ops, Readable op)
    (hc : c.rest = renderOps 0 ops) : solveDsl c .start = .ok (ops, .default) := by
  induction ops generalizing c with
  | nil => exact solveDsl_nil hc
  | cons op ops ih =>
    rw [List.forall_mem_cons] at h
    obtain ⟨hop, hops⟩ := h
    have hends : Ends (4 * 0) (renderOps 0 ops) := by
      have hnil : Ends (4 * 0) [] := by
        rintro line hline
        cases hline
      have hends := ends_renderOps hops hnil
      rwa [List.append_nil] at hends
    obtain ⟨text, more, hvisible, hdirective, hlines, hreads⟩ := hop.reads 0
    obtain ⟨d, hd, -, htop, -⟩ := hreads c ⟨c.index + 1, indent (pad 0 text) + 1⟩ _ hc hends
    have hline : c.rest = pad 0 text :: (more ++ renderOps 0 ops) := by
      rw [hc, renderOps, hlines]
      rfl
    have hblank : ¬ isBlank (pad 0 text) = true := by
      rw [hvisible.isBlank_pad]
      exact Bool.false_ne_true
    have hread : readDirective ⟨c.index + 1, indent (pad 0 text) + 1⟩
        (DslState.start : DslState F) text = .ok none := readDirective_eq_none.mpr hdirective
    rw [solveDsl_eq, dslLoop_cons hline, if_neg hblank, Rec.eval_bind, Rec.eval_ofExcept,
      hvisible.trim_pad, hread, ok_bind]
    dsimp only
    rw [Rec.eval_bind, htop, ok_bind]
    dsimp only
    rw [Rec.eval_bind, eval_solveDsl, ih hops hd, ok_bind, pushFront, hop.isNop_eq]
    rfl

end

/-! ### One block in another -/

theorem readable_loop {count : Nat} {body : List (Op F)} (hcount : count < 2 ^ 64)
    (hbody : ∀ op ∈ body, Readable op) : Readable (.loop count body) := by
  have hheader : IsHeader F (loopHeader count) .loopBlock := isHeader_loop count
  refine .nested (fun depth => renderOps (depth + 1) body) rfl hheader (fun _ => by decide)
    (fun _ => rfl) (fun depth => isLine_renderOps hbody (depth + 1)) ?_
  intro depth c pos rest hc hrest
  obtain ⟨d, hsolve, hd⟩ : ∃ d, solveBlock c.next (4 * depth) pos = .ok (body, d) ∧ d.rest = rest :=
    solveBlock_renderOps hbody (by rw [Cursor.next_rest, hc, List.tail_cons]) hrest
  refine ⟨d, ?_, hd⟩
  rw [solveNested_loop hc, parseLoopHeader_pad hcount, ok_bind, hheader.visible.indent_pad, hsolve,
    ok_bind]

theorem solveNested_def {c : Cursor} {pos : SourcePosition} {line : Line} {ls : List Line}
    (hc : c.rest = line :: ls) : (solveNested .functionBlock c pos : Parse (Op F × _)) = (do
      let header ← parseFunctionHeader line pos
      let r ← solveBlock c.next (indent line) pos
      .ok (.defOp header.1 header.2 r.1, r.2)) := by
  rw [solveNested_eq, parseNestedBlock, parseFunctionBlock, Rec.eval_bind, eval_lineAt hc, ok_bind,
    Rec.eval_bind, Rec.eval_ofExcept]
  simp only [Rec.eval_bind, eval_solveBlock]
  rfl

theorem readable_def {name : String} {params : List String} {body : List (Op F)}
    (hname : IsIdentifier name) (hparams : ∀ param ∈ params, IsIdentifier param)
    (hbody : ∀ op ∈ body, Readable op) : Readable (.defOp name params body) := by
  have hheader : IsHeader F (defHeader name params) .functionBlock := isHeader_def hname hparams
  refine .nested (fun depth => renderOps (depth + 1) body) rfl hheader (fun hdef => by cases hdef)
    (fun _ => rfl) (fun depth => isLine_renderOps hbody (depth + 1)) ?_
  intro depth c pos rest hc hrest
  obtain ⟨d, hsolve, hd⟩ : ∃ d, solveBlock c.next (4 * depth) pos = .ok (body, d) ∧ d.rest = rest :=
    solveBlock_renderOps hbody (by rw [Cursor.next_rest, hc, List.tail_cons]) hrest
  refine ⟨d, ?_, hd⟩
  rw [solveNested_def hc, parseFunctionHeader_pad hname hparams, ok_bind,
    hheader.visible.indent_pad, hsolve, ok_bind]

theorem readable_if {thenOps elseOps : List (Op F)} (hthen : ∀ op ∈ thenOps, Readable op)
    (helse : ∀ op ∈ elseOps, Readable op) : Readable (.ifOp [] thenOps (some elseOps)) := by
  have hheader : IsHeader F "if:".toList .ifBlock :=
    isHeader_word (by decide) (by decide) (by decide)
  have hvisible : Visible "else:".toList := IsWord.visible (by decide)
  refine .nested (fun depth => renderOps (depth + 1) thenOps ++
    pad depth "else:".toList :: renderOps (depth + 1) elseOps) rfl hheader (fun _ => by decide)
    (fun _ => rfl) (fun depth => ?_) ?_
  · rw [List.forall_mem_append, List.forall_mem_cons]
    exact ⟨isLine_renderOps hthen (depth + 1), hvisible.isLine_pad depth,
      isLine_renderOps helse (depth + 1)⟩
  intro depth c pos rest hc hrest
  rw [List.append_assoc, List.cons_append] at hc
  obtain ⟨d, hsolve, hd⟩ : ∃ d, solveBlock c.next (4 * depth) pos = .ok (thenOps, d) ∧
      d.rest = pad depth "else:".toList :: (renderOps (depth + 1) elseOps ++ rest) :=
    solveBlock_renderOps hthen (by rw [Cursor.next_rest, hc, List.tail_cons])
      (ends_pad hvisible depth _)
  obtain ⟨e, hsolve', he⟩ : ∃ e, solveBlock d.next (4 * depth)
      ⟨pos.line + d.index, indent (pad depth "else:".toList) + 1⟩ = .ok (elseOps, e) ∧
        e.rest = rest :=
    solveBlock_renderOps helse (by rw [Cursor.next_rest, hd, List.tail_cons]) hrest
  refine ⟨e, ?_, he⟩
  rw [solveNested_if hc, hheader.visible.indent_pad, hsolve, ok_bind,
    eval_parseElse hd (hvisible.trim_pad depth), hsolve', ok_bind]

theorem readable_while {condition body : List (Op F)} (hcondition : ∀ op ∈ condition, Readable op)
    (hbody : ∀ op ∈ body, Readable op) (hdef : ∀ op ∈ body, isDef op = false) :
    Readable (.whileOp condition body) := by
  have hheader : IsHeader F "while:".toList .whileBlock :=
    isHeader_word (by decide) (by decide) (by decide)
  have hvisible : Visible "condition:".toList := IsWord.visible (by decide)
  refine .nested (fun depth => pad (depth + 1) "condition:".toList ::
    (renderOps (depth + 2) condition ++ renderOps (depth + 1) body)) rfl hheader
    (fun _ => by decide) (fun _ => rfl) (fun depth => ?_) ?_
  · rw [List.forall_mem_cons, List.forall_mem_append]
    exact ⟨hvisible.isLine_pad _, isLine_renderOps hcondition _, isLine_renderOps hbody _⟩
  intro depth c pos rest hc hrest
  rw [List.cons_append, List.append_assoc] at hc
  have hnext : c.next.rest = pad (depth + 1) "condition:".toList ::
      (renderOps (depth + 2) condition ++ (renderOps (depth + 1) body ++ rest)) := by
    rw [Cursor.next_rest, hc, List.tail_cons]
  have hindent : 4 * depth < indent (pad (depth + 1) "condition:".toList) := by
    rw [hvisible.indent_pad]
    omega
  have hends : Ends (4 * (depth + 1)) (renderOps (depth + 1) body ++ rest) :=
    ends_renderOps hbody (hrest.mono (Nat.mul_le_mul_left 4 (Nat.le_succ _)))
  obtain ⟨d, hsolve, hd⟩ : ∃ d, solveBlock c.next.next (4 * (depth + 1))
      ⟨pos.line + c.next.index, 4 * (depth + 1) + 1⟩ =
        .ok (condition, d) ∧ d.rest = renderOps (depth + 1) body ++ rest :=
    solveBlock_renderOps hcondition (by rw [Cursor.next_rest, hnext, List.tail_cons]) hends
  obtain ⟨e, hsolve', he⟩ : ∃ e, solveWhileLines d (4 * depth) pos ⟨condition, [], true⟩ =
      .ok (⟨condition, [] ++ body, true⟩, e) ∧ e.rest = rest :=
    solveWhileLines_renderOps hbody hdef hd hrest
  refine ⟨e, ?_, he⟩
  rw [solveNested_while hc, hheader.visible.indent_pad,
    solveWhileLines_condition hnext hindent (hvisible.trim_pad _), hvisible.indent_pad, hsolve,
    ok_bind]
  dsimp only
  rw [hsolve', ok_bind]
  rfl

theorem ends_renderBranch {depth : Nat} {header : List Char} (h : Visible header)
    (ops : Option (List (Op F))) {rest : List Line} (hrest : Ends (4 * depth) rest) :
    Ends (4 * depth) (renderBranch depth header ops ++ rest) := by
  cases ops with
  | none => exact hrest
  | some ops => exact ends_pad h depth _

theorem isLine_renderBranch {header : List Char} (hheader : Visible header)
    {ops : Option (List (Op F))} (h : ∀ body ∈ ops, ∀ op ∈ body, Readable op) (depth : Nat) :
    ∀ line ∈ renderBranch depth header ops, Text.IsLine '\n' '\r' line := by
  cases ops with
  | none => exact List.forall_mem_nil _
  | some body =>
    rw [renderBranch, List.forall_mem_cons]
    exact ⟨hheader.isLine_pad depth, isLine_renderOps (h body rfl) (depth + 1)⟩

theorem isLine_renderCases [DecimalText F] {cases : List (TypedValue F × List (Op F))}
    (h : ∀ entry ∈ cases, ∀ op ∈ entry.2, Readable op) (depth : Nat) :
    ∀ line ∈ renderCases depth cases, Text.IsLine '\n' '\r' line := by
  induction cases with
  | nil => exact List.forall_mem_nil _
  | cons entry cases ih =>
    obtain ⟨key, ops⟩ := entry
    rw [List.forall_mem_cons] at h
    cases key with
    | number value =>
      rw [renderCases, List.forall_mem_cons, List.forall_mem_append]
      exact ⟨(visible_caseHeader value).isLine_pad depth, isLine_renderOps h.1 (depth + 1),
        ih h.2⟩
    | _ => exact ih h.2

theorem ends_renderCases [DecimalText F] (depth : Nat) (cases : List (TypedValue F × List (Op F)))
    {rest : List Line} (hrest : Ends (4 * depth) rest) :
    Ends (4 * depth) (renderCases depth cases ++ rest) := by
  induction cases with
  | nil => exact hrest
  | cons entry cases ih =>
    obtain ⟨key, ops⟩ := entry
    cases key with
    | number value => exact ends_pad (visible_caseHeader value) depth _
    | _ => exact ih

theorem solveMatchLines_renderCases [DecimalText F]
    {cases : List (TypedValue F × List (Op F))}
    (hnumber : ∀ entry ∈ cases, ∃ value, entry.1 = .number value)
    (hops : ∀ entry ∈ cases, ∀ op ∈ entry.2, Readable op) {depth : Nat} {rest : List Line}
    (hrest : Ends (4 * (depth + 1)) rest) {c : Cursor} {pos : SourcePosition}
    {parts : MatchParts F} (hc : c.rest = renderCases (depth + 1) cases ++ rest) :
    ∃ d, solveMatchLines c (4 * depth) pos parts =
      solveMatchLines d (4 * depth) pos { parts with cases := parts.cases ++ cases } ∧
        d.rest = rest := by
  induction cases generalizing c parts with
  | nil =>
    refine ⟨c, ?_, hc⟩
    rw [List.append_nil]
  | cons entry cases ih =>
    rw [List.forall_mem_cons] at hnumber hops
    obtain ⟨key, ops⟩ := entry
    obtain ⟨value, rfl⟩ : ∃ value, key = .number value := hnumber.1
    have hvisible := visible_caseHeader value
    rw [renderCases, List.cons_append, List.append_assoc] at hc
    have hends : Ends (4 * (depth + 1)) (renderCases (depth + 1) cases ++ rest) :=
      ends_renderCases (depth + 1) cases hrest
    have hindent : 4 * depth < indent (pad (depth + 1) (caseHeader value)) := by
      rw [hvisible.indent_pad]
      omega
    have hline : "case ".toList <+: trim (pad (depth + 1) (caseHeader value)) := by
      rw [hvisible.trim_pad]
      exact List.prefix_append "case ".toList _
    obtain ⟨d, hsolve, hd⟩ : ∃ d, solveBlock c.next (4 * (depth + 1))
        ⟨pos.line + c.index + 1, 4 * (depth + 1) + 1⟩ = .ok (ops, d) ∧
          d.rest = renderCases (depth + 1) cases ++ rest :=
      solveBlock_renderOps hops.1 (by rw [Cursor.next_rest, hc, List.tail_cons]) hends
    obtain ⟨e, hcases, he⟩ := ih hnumber.2 hops.2 hd
    refine ⟨e, ?_, he⟩
    rw [solveMatchLines_case hc hindent hline, parseCaseValue_pad, ok_bind, hvisible.indent_pad,
      hsolve, ok_bind, hcases, List.append_assoc, List.singleton_append]

theorem solveMatchLines_renderDefault {default : Option (List (Op F))}
    (hops : ∀ ops ∈ default, ∀ op ∈ ops, Readable op) {depth : Nat} {rest : List Line}
    (hrest : Ends (4 * depth) rest) {c : Cursor} {pos : SourcePosition} {value : List (Op F)}
    {cases : List (TypedValue F × List (Op F))}
    (hc : c.rest = renderBranch (depth + 1) "default:".toList default ++ rest) :
    ∃ d, solveMatchLines c (4 * depth) pos ⟨value, cases, none⟩ =
      .ok (⟨value, cases, default⟩, d) ∧ d.rest = rest := by
  cases default with
  | none =>
    obtain rfl : c.rest = rest := hc
    exact ⟨c, solveMatchLines_of_ends hrest, rfl⟩
  | some ops =>
    have hvisible : Visible "default:".toList := IsWord.visible (by decide)
    have hindent : 4 * depth < indent (pad (depth + 1) "default:".toList) := by
      rw [hvisible.indent_pad]
      omega
    obtain ⟨d, hsolve, hd⟩ : ∃ d, solveBlock c.next (4 * (depth + 1))
        ⟨pos.line + c.index + 1, 4 * (depth + 1) + 1⟩ = .ok (ops, d) ∧ d.rest = rest :=
      solveBlock_renderOps (hops ops rfl) (by rw [Cursor.next_rest, hc]; rfl)
        (hrest.mono (Nat.mul_le_mul_left 4 (Nat.le_succ _)))
    refine ⟨d, ?_, hd⟩
    rw [solveMatchLines_default hc hindent (hvisible.trim_pad _), hvisible.indent_pad, hsolve,
      ok_bind]
    exact solveMatchLines_of_ends (hd ▸ hrest)

theorem readable_match [DecimalText F] {value : List (Op F)}
    {cases : List (TypedValue F × List (Op F))} {default : Option (List (Op F))} (hne : value ≠ [])
    (hvalue : ∀ op ∈ value, Readable op)
    (hnumber : ∀ entry ∈ cases, ∃ value, entry.1 = .number value)
    (hcases : ∀ entry ∈ cases, ∀ op ∈ entry.2, Readable op)
    (hdefault : ∀ ops ∈ default, ∀ op ∈ ops, Readable op) :
    Readable (.matchOp value cases default) := by
  have hheader : IsHeader F "match:".toList .matchBlock :=
    isHeader_word (by decide) (by decide) (by decide)
  have hvisible : Visible "value:".toList := IsWord.visible (by decide)
  have hvisible' : Visible "default:".toList := IsWord.visible (by decide)
  refine .nested (fun depth => pad (depth + 1) "value:".toList ::
    (renderOps (depth + 2) value ++ (renderCases (depth + 1) cases ++
      renderBranch (depth + 1) "default:".toList default))) rfl hheader
    (fun _ => by decide) (fun _ => rfl) (fun depth => ?_) ?_
  · rw [List.forall_mem_cons, List.forall_mem_append, List.forall_mem_append]
    exact ⟨hvisible.isLine_pad _, isLine_renderOps hvalue _, isLine_renderCases hcases _,
      isLine_renderBranch hvisible' hdefault _⟩
  intro depth c pos rest hc hrest
  rw [List.cons_append, List.append_assoc, List.append_assoc] at hc
  have hnext : c.next.rest = pad (depth + 1) "value:".toList ::
      (renderOps (depth + 2) value ++ (renderCases (depth + 1) cases ++
        (renderBranch (depth + 1) "default:".toList default ++ rest))) := by
    rw [Cursor.next_rest, hc, List.tail_cons]
  have hindent : 4 * depth < indent (pad (depth + 1) "value:".toList) := by
    rw [hvisible.indent_pad]
    omega
  have hends : Ends (4 * (depth + 1))
      (renderBranch (depth + 1) "default:".toList default ++ rest) :=
    ends_renderBranch hvisible' default
      (hrest.mono (Nat.mul_le_mul_left 4 (Nat.le_succ _)))
  obtain ⟨d, hsolve, hd⟩ : ∃ d, solveBlock c.next.next (4 * (depth + 1))
      ⟨pos.line + c.next.index + 1, 4 * (depth + 1) + 1⟩ = .ok (value, d) ∧
        d.rest = renderCases (depth + 1) cases ++
          (renderBranch (depth + 1) "default:".toList default ++ rest) :=
    solveBlock_renderOps hvalue (by rw [Cursor.next_rest, hnext, List.tail_cons])
      (ends_renderCases (depth + 1) cases hends)
  obtain ⟨e, hsolve', he⟩ : ∃ e, solveMatchLines d (4 * depth) pos ⟨value, [], none⟩ =
      solveMatchLines e (4 * depth) pos ⟨value, [] ++ cases, none⟩ ∧
        e.rest = renderBranch (depth + 1) "default:".toList default ++ rest :=
    solveMatchLines_renderCases hnumber hcases hends hd
  obtain ⟨e', hsolve'', he'⟩ : ∃ e', solveMatchLines e (4 * depth) pos ⟨value, cases, none⟩ =
      .ok (⟨value, cases, default⟩, e') ∧ e'.rest = rest :=
    solveMatchLines_renderDefault hdefault hrest he
  have hfull : value.isEmpty = false := List.isEmpty_eq_false_iff.mpr hne
  refine ⟨e', ?_, he'⟩
  rw [solveNested_match hc, hheader.visible.indent_pad,
    solveMatchLines_value hnext hindent (hvisible.trim_pad _), hvisible.indent_pad, hsolve, ok_bind]
  dsimp only
  rw [hsolve', List.nil_append, hsolve'', ok_bind]
  dsimp only
  rw [hfull, if_neg Bool.false_ne_true]

/-! ## Programs -/

theorem readable_of_text [DecimalText F] {op : Op F} {text : List Char} (h : Structured op)
    (htext : statementText op = some text) : Readable op := by
  refine .statement ?_ (isStatement_of_text h htext) fun depth => ?_
  · cases op with
    | nop => cases htext
    | _ => rfl
  · have hlines : renderOp depth op = (statementText op).toList.map (pad depth) := by
      cases op with
      | ifOp | loop | whileOp | matchOp | defOp => cases htext
      | _ => rfl
    rw [hlines, htext]
    rfl

mutual

theorem Structured.readable [DecimalText F] {op : Op F} (h : Structured op) : Readable op := by
  cases op with
  | ifOp condition thenOps elseOps =>
    obtain ⟨rfl, hthen, hsome, helse⟩ := h
    have hbranch := helse.readable
    obtain ⟨elseOps, rfl⟩ := Option.isSome_iff_exists.mp hsome
    exact readable_if hthen.readable (hbranch elseOps rfl)
  | loop count body => exact readable_loop h.1 h.2.readable
  | whileOp condition body => exact readable_while h.1.readable h.2.1.readable h.2.2
  | matchOp value cases default =>
    obtain ⟨hne, hvalue, hcases, hdefault⟩ := h
    exact readable_match hne hvalue.readable (fun _ hmem => (hcases.readable _ hmem).1)
      (fun _ hmem => (hcases.readable _ hmem).2) hdefault.readable
  | defOp name params body => exact readable_def h.1 h.2.1 h.2.2.readable
  | push | load | store | call | storeP | loadP => exact readable_of_text h rfl
  | _ =>
    obtain ⟨command, hcommand⟩ := Option.isSome_iff_exists.mp h
    exact readable_of_text h (congrArg (Option.map String.toList) hcommand)

theorem AllStructured.readable [DecimalText F] {ops : List (Op F)} (h : AllStructured ops) :
    ∀ op ∈ ops, Readable op := by
  cases ops with
  | nil => exact List.forall_mem_nil _
  | cons op ops => exact List.forall_mem_cons.mpr ⟨h.1.readable, h.2.readable⟩

theorem BranchStructured.readable [DecimalText F] {branch : Option (List (Op F))}
    (h : BranchStructured branch) : ∀ ops ∈ branch, ∀ op ∈ ops, Readable op := by
  cases branch with
  | none => exact fun _ hmem => absurd hmem (Option.not_mem_none _)
  | some ops =>
    intro _ hmem
    cases hmem
    exact AllStructured.readable h

theorem CasesStructured.readable [DecimalText F] {cases : List (TypedValue F × List (Op F))}
    (h : CasesStructured cases) : ∀ entry ∈ cases,
      (∃ value, entry.1 = .number value) ∧ ∀ op ∈ entry.2, Readable op := by
  cases cases with
  | nil => exact List.forall_mem_nil _
  | cons entry cases =>
    obtain ⟨key, ops⟩ := entry
    cases key with
    | number value =>
      exact List.forall_mem_cons.mpr ⟨⟨⟨value, rfl⟩, h.1.readable⟩, h.2.readable⟩
    | _ => exact absurd h id

end

theorem parseDsl_renderOps [DecimalText F] {ops : List (Op F)} (h : AllStructured ops) :
    parseDsl (render ops) = .ok (ops, .default) := by
  show solveDsl ⟨0, Text.lines '\n' '\r' (render ops).toList⟩ .start = _
  rw [render, String.toList_ofList, Text.lines_unlines (isLine_renderOps h.readable 0)]
  exact solveDsl_renderOps h.readable rfl

/-! ### Double precision -/

theorem isPlain_of_isDigit {c : Char} (h : c.isDigit = true) : IsPlain c :=
  .inl (by rw [Char.isAlphanum, h, Bool.or_true])

theorem isPlain_of_mem_positional {m : Nat} {e : Int} :
    ∀ c ∈ (Ieee.positional m e).toList, IsPlain c := by
  have hdigits (n k : Nat) : ∀ c ∈ List.replicate n '0' ++ Nat.toDigits 10 k, IsPlain c :=
    fun c hc => isPlain_of_isDigit
      (Ieee.isDigit_append Ieee.isDigit_of_zeros Ieee.isDigit_of_toDigits c hc)
  intro c hc
  unfold Ieee.positional at hc
  dsimp only at hc
  split_ifs at hc
  · rw [String.toList_ofList] at hc
    exact isPlain_of_isDigit
      (Ieee.isDigit_append Ieee.isDigit_of_toDigits Ieee.isDigit_of_zeros c hc)
  · simp only [String.toList_append, String.toList_ofList, List.mem_append] at hc
    rcases hc with (hc | hc) | hc
    · exact hdigits _ _ c (List.mem_of_mem_take hc)
    · rw [List.mem_singleton.mp hc]
      decide
    · exact hdigits _ _ c (List.mem_of_mem_drop hc)

theorem positional_ne_nil (m : Nat) (e : Int) : (Ieee.positional m e).toList ≠ [] := by
  unfold Ieee.positional
  dsimp only
  split_ifs
  · simp [Nat.toDigits_ne_nil]
  · simp

theorem isPlainWord_sign {text : String} (neg : Bool) (h : IsPlainWord text.toList) :
    IsPlainWord (Ieee.sign neg ++ text).toList := by
  rw [String.toList_append]
  refine ⟨List.append_ne_nil_of_right_ne_nil _ h.1, fun c hc => ?_⟩
  rcases List.mem_append.mp hc with hc | hc
  · cases neg with
    | false => cases hc
    | true =>
      rw [List.mem_singleton.mp hc]
      decide
  · exact h.2 c hc

theorem isPlainWord_toStr {fmt : Format} (x : Ieee fmt) : IsPlainWord (Ieee.toStr x).toList := by
  cases x with
  | nan => exact (by decide : IsPlainWord "NaN".toList)
  | inf neg => exact isPlainWord_sign neg (by decide)
  | fin neg mag =>
    rw [Ieee.toStr]
    split_ifs with hzero
    · exact isPlainWord_sign neg (by decide)
    · exact isPlainWord_sign neg ⟨positional_ne_nil _ _, isPlain_of_mem_positional⟩

instance {fmt : Format} : DecimalText (Ieee fmt) where
  parse_toStr := Ieee.parse_toStr
  isPlainWord_toStr := isPlainWord_toStr
  parse_keyword word hword := by
    simp only [List.mem_cons, List.not_mem_nil, or_false] at hword
    rcases hword with rfl | rfl | rfl
    · exact Ieee.parse_true
    · exact Ieee.parse_false
    · exact Ieee.parse_null

/-- A structured program is read back as it was printed. -/
theorem parseDsl_render {fmt : Format} {ops : List (Op (Ieee fmt))} (h : AllStructured ops) :
    parseDsl (render ops) = .ok (ops, .default) :=
  parseDsl_renderOps h

/-- A program with blocks of every kind. -/
def countdown : List (Op Binary64) :=
  [.defOp "step" ["n"] [.load "n", .push (.number (Number.ofNat 1)), .sub, .returnOp],
    .loop 3 [.push (.string "a:b"), .pop],
    .whileOp [.load "n"]
      [.matchOp [.load "n"] [(.number (Number.ofNat 1), [.breakOp])]
        (some [.ifOp [] [.call "step"] (some [])])]]

theorem allStructured_countdown : AllStructured countdown := by
  have hstep : IsIdentifier "step" := by simp [IsIdentifier]
  have hn : IsIdentifier "n" := by simp [IsIdentifier]
  simp [countdown, AllStructured, Structured, BranchStructured, CasesStructured, plainText, isDef,
    isWhitespace, hstep, hn]

theorem parseDsl_render_countdown : parseDsl (render countdown) = .ok (countdown, .default) :=
  parseDsl_render allStructured_countdown

end Covm.Compiler
