import Covm.Compiler.Panics
import Covm.Number.Binary64

/-!
# Texts in quotes

`emit` cuts its text out of the line, between the quotes. `push` takes the next word of the line and
looks for quotes only then: a text with white space in it comes apart, and is read as a text with a
quote in front of it, as a number, or not at all.
-/

namespace Text

variable {word : List Char}

theorem words_append_space (h : ∀ c ∈ word, isWhitespace c = false) (hne : word ≠ []) {c : Char}
    (hc : isWhitespace c = true) (rest : List Char) :
    words (word ++ c :: rest) = word :: words rest := by
  unfold words
  rw [List.splitOnP_append_cons_of_forall_mem h c hc, List.filter_cons_of_pos]
  simpa using hne

theorem words_singleton (h : ∀ c ∈ word, isWhitespace c = false) (hne : word ≠ []) :
    words word = [word] := by
  unfold words
  rw [List.splitOnP_eq_singleton h, List.filter_cons_of_pos (by simpa using hne), List.filter_nil]

/-- A text that begins and ends with something to see. -/
theorem trim_of_ends {c d : Char} (hc : isWhitespace c = false) (hd : isWhitespace d = false)
    (text : List Char) : trim (c :: (text ++ [d])) = c :: (text ++ [d]) := by
  have hstart : trimStart (c :: (text ++ [d])) = c :: (text ++ [d]) :=
    List.dropWhile_cons_of_neg (by simp [hc])
  rw [trim, hstart, ← List.cons_append]
  exact List.rdropWhile_concat_neg _ _ _ (by simp [hd])

/-- The first white space of a text, if there is any. -/
theorem exists_first_space {text : List Char} (h : ¬ ∀ c ∈ text, isWhitespace c = false) :
    ∃ before c after, text = before ++ c :: after ∧ (∀ d ∈ before, isWhitespace d = false) ∧
      isWhitespace c = true := by
  induction text with
  | nil => exact absurd (List.forall_mem_nil _) h
  | cons c text ih =>
    cases hc : isWhitespace c with
    | true => exact ⟨[], c, text, rfl, List.forall_mem_nil _, hc⟩
    | false =>
      have hrest : ¬ ∀ d ∈ text, isWhitespace d = false := fun hall =>
        h (List.forall_mem_cons.mpr ⟨hc, hall⟩)
      obtain ⟨before, d, after, rfl, hbefore, hd⟩ := ih hrest
      exact ⟨c :: before, d, after, rfl, List.forall_mem_cons.mpr ⟨hc, hbefore⟩, hd⟩

end Text

namespace Covm.Compiler

open Text (words isWhitespace)

def quoted (s : String) : List Char := '"' :: (s.toList ++ ['"'])

/-- A command and a text in quotes. -/
def literalLine (command s : String) : Line := command.toList ++ ' ' :: quoted s

theorem isWhitespace_quote : isWhitespace '"' = false := by decide

theorem isWhitespace_space : isWhitespace ' ' = true := by decide

theorem isQuoted_quoted (s : String) : isQuoted (quoted s) = true := by
  simp [isQuoted, quoted, List.getLast?_cons]

theorem withoutQuotes_quoted (s : String) : withoutQuotes (quoted s) = .ok s.toList := by
  simpa [withoutQuotes, quoted, utf8Size_quote, Nat.add_comm] using sliced_quotes [] s.toList []

section
variable {F : Type} [Number F] {s : String} (pos : SourcePosition)

theorem parseLine_literal {command : String} {c : Char} {rest : List Char}
    (hcommand : command.toList = c :: rest)
    (hspace : ∀ d ∈ command.toList, isWhitespace d = false) (hc : c ≠ '#') :
    (parseLine (literalLine command s) pos : Parse (Op F)) =
      parseCommand (literalLine command s) pos (words (quoted s)) command := by
  have hline : literalLine command s = c :: (rest ++ ' ' :: '"' :: s.toList ++ ['"']) := by
    simp [literalLine, quoted, hcommand]
  have hcomment : isComment (literalLine command s) = false := by
    have hfirst : isWhitespace c = false := hspace c (by simp [hcommand])
    rw [isComment, hline, Text.trim_of_ends hfirst isWhitespace_quote]
    simp [hc]
  have hwords : words (literalLine command s) = command.toList :: words (quoted s) :=
    Text.words_append_space hspace (by simp [hcommand]) isWhitespace_space _
  simp only [parseLine, hcomment, Bool.false_eq_true, if_false, hwords, String.ofList_toList]

theorem parseLine_emit :
    (parseLine (literalLine "emit" s) pos : Parse (Op F)) = .ok (.emit s) := by
  have hline : literalLine "emit" s = "emit ".toList ++ '"' :: (s.toList ++ '"' :: []) := rfl
  rw [parseLine_literal pos rfl (by simp [isWhitespace]) (by decide)]
  show parseEmit (literalLine "emit" s) pos = _
  rw [parseEmit, hline, quotedPart_eq s.toList (by decide) (by simp), String.ofList_toList]
  rfl

theorem parsePush_quoted {word : Word} (args : Arguments) (hword : word.head? = some '"') :
    (parsePush pos (word :: args) : Parse (Op F)) =
      if isQuoted word then do return .push (.string (String.ofList (← withoutQuotes word)))
      else
        match Number.parse (String.ofList word) with
        | some n => return .push (.number n)
        | none => return .push (.string (String.ofList word)) := by
  have hne : ∀ {text : List Char}, text.head? ≠ some '"' → word ≠ text := by
    rintro text htext rfl
    exact htext hword
  show (if word = _ then _ else _) = _
  rw [if_neg (hne (by decide)), if_neg (hne (by decide))]
  exact if_neg (hne (by decide))

/-- A text without white space is one word. -/
theorem parseLine_push (hspace : ∀ c ∈ s.toList, isWhitespace c = false) :
    (parseLine (literalLine "push" s) pos : Parse (Op F)) = .ok (.push (.string s)) := by
  have hall : ∀ c ∈ quoted s, isWhitespace c = false := by
    intro c hc
    simp only [quoted, List.mem_cons, List.mem_append, List.not_mem_nil, or_false] at hc
    rcases hc with rfl | hc | rfl
    · exact isWhitespace_quote
    · exact hspace c hc
    · exact isWhitespace_quote
  rw [parseLine_literal pos rfl (by simp [isWhitespace]) (by decide),
    Text.words_singleton hall (List.cons_ne_nil _ _)]
  show parsePush pos [quoted s] = _
  rw [parsePush_quoted pos [] rfl, if_pos (isQuoted_quoted s), withoutQuotes_quoted]
  show Except.ok _ = _
  rw [String.ofList_toList]

/-- A text with white space comes apart. -/
theorem parseLine_push_ne (h : '"' ∉ s.toList)
    (hspace : ¬ ∀ c ∈ s.toList, isWhitespace c = false) :
    (parseLine (literalLine "push" s) pos : Parse (Op F)) ≠ .ok (.push (.string s)) := by
  obtain ⟨before, c, after, hs, hbefore, hc⟩ := Text.exists_first_space hspace
  have hword : ∀ d ∈ '"' :: before, isWhitespace d = false :=
    List.forall_mem_cons.mpr ⟨isWhitespace_quote, hbefore⟩
  have hquoted : quoted s = ('"' :: before) ++ c :: (after ++ ['"']) := by
    simp [quoted, hs]
  rw [parseLine_literal pos rfl (by simp [isWhitespace]) (by decide), hquoted,
    Text.words_append_space hword (List.cons_ne_nil _ _) hc]
  show parsePush pos (('"' :: before) :: _) ≠ _
  rw [parsePush_quoted pos _ rfl]
  split
  · next hq =>
    -- only the quote itself is in quotes
    have hnil : before = [] := by
      rcases before.eq_nil_or_concat' with rfl | ⟨inner, last, rfl⟩
      · rfl
      · have hlast : last = '"' := by simpa [isQuoted, List.getLast?_cons] using hq
        exact absurd (by simp [hs, hlast]) h
    obtain rfl := hnil
    have hpanic : withoutQuotes ['"'] = .error .panic := (panics_withoutQuotes hq).mpr rfl
    rw [hpanic]
    intro heq
    cases heq
  · split
    · intro heq
      cases heq
    · intro heq
      have hstring : String.ofList ('"' :: before) = s := by
        simpa [pure, Except.pure] using heq
      exact h (by rw [← hstring]; simp)

theorem parseLine_literals (s : String) (pos : SourcePosition) (h : '"' ∉ s.toList) :
    (parseLine (literalLine "push" s) pos = .ok (.push (.string s) : Op F) ∧
        parseLine (literalLine "emit" s) pos = .ok (.emit s : Op F)) ↔
      ∀ c ∈ s.toList, isWhitespace c = false := by
  constructor
  · rintro ⟨hpush, -⟩
    by_contra hspace
    exact parseLine_push_ne pos h hspace hpush
  · exact fun hspace => ⟨parseLine_push pos hspace, parseLine_emit pos⟩

end

theorem parseLine_literals_hello :
    (parseLine (literalLine "push" "hello") ⟨1, 1⟩ = .ok (.push (.string "hello") : Op Binary64) ∧
        parseLine (literalLine "emit" "hello") ⟨1, 1⟩ = .ok (.emit "hello" : Op Binary64)) ↔
      ∀ c ∈ "hello".toList, isWhitespace c = false :=
  parseLine_literals "hello" ⟨1, 1⟩ (by decide)

/-- The second word is lost, and the first one keeps its quote. -/
theorem not_parseLine_push_hello_world :
    ¬ (parseLine (literalLine "push" "hello world") ⟨1, 1⟩ =
      .ok (.push (.string "hello world") : Op Binary64)) :=
  parseLine_push_ne ⟨1, 1⟩ (by decide) (by simp [isWhitespace])

end Covm.Compiler
