import Mathlib.Data.Bool.AllAny
import Covm.Text.Lines

/-!
# Indented JSON

A value is written on several lines, two spaces deeper at each level: the brackets of an array or an
object that is not empty stand on lines of their own, and between them each element or member begins
a line. Strings and scalars are written on one line.

No such line is an array or an object with something inside (`Enclosed`): who reads the text line by
line finds none.
-/

namespace Text

/-- The text of a number, a boolean or `null`. -/
structure Scalar where
  text : List Char
  plain : ∀ c ∈ text, 0x20 < c.toNat ∧ c ≠ '[' ∧ c ≠ '\x7b'

namespace Scalar

def ofBool (b : Bool) : Scalar where
  text := if b then "true".toList else "false".toList
  plain := by
    cases b
    · exact List.all_iff_forall_prop.mp (by decide)
    · exact List.all_iff_forall_prop.mp (by decide)

def ofNat (n : Nat) : Scalar where
  text := Nat.toDigits 10 n
  plain c hc := by
    have hdigit := Nat.isDigit_of_mem_toDigits (by decide) (by decide) hc
    have hrange : 48 ≤ c.toNat ∧ c.toNat ≤ 57 := by
      simpa [Char.isDigit, Char.le_def, UInt32.le_iff_toNat_le] using hdigit
    refine ⟨by omega, ?_, ?_⟩
    · rintro rfl
      exact absurd hrange.2 (by decide)
    · rintro rfl
      exact absurd hrange.2 (by decide)

end Scalar

inductive Json where
  | scalar (s : Scalar)
  | string (s : String)
  | array (elements : List Json)
  | object (members : List (String × Json))

namespace Json

/-- A character in a string. -/
def escape (c : Char) : List Char :=
  if c = '"' then ['\\', '"']
  else if c = '\\' then ['\\', '\\']
  else if c.toNat = 0x08 then ['\\', 'b']
  else if c.toNat = 0x09 then ['\\', 't']
  else if c.toNat = 0x0a then ['\\', 'n']
  else if c.toNat = 0x0c then ['\\', 'f']
  else if c.toNat = 0x0d then ['\\', 'r']
  else if c.toNat < 0x20 then
    ['\\', 'u', '0', '0', Nat.digitChar (c.toNat / 16), Nat.digitChar (c.toNat % 16)]
  else [c]

def quote (s : String) : List Char := '"' :: s.toList.flatMap escape ++ ['"']

/-- A comma after the last line. -/
def withComma : List (List Char) → List (List Char)
  | [] => []
  | [line] => [line ++ [',']]
  | line :: ls => line :: withComma ls

/-- Items one after the other, with commas between them. -/
def separated : List (List (List Char)) → List (List Char)
  | [] => []
  | [item] => item
  | item :: items => withComma item ++ separated items

def indent (line : List Char) : List Char := ' ' :: ' ' :: line

/-- Items between brackets. -/
def enclose (left right : Char) (items : List (List (List Char))) : List (List Char) :=
  match items with
  | [] => [[left, right]]
  | items => [left] :: (separated items).map indent ++ [[right]]

/-- A value after its name. -/
def named (name : String) : List (List Char) → List (List Char)
  | [] => []
  | line :: ls => (quote name ++ [':', ' '] ++ line) :: ls

mutual

/-- The lines of a value. -/
def pretty : Json → List (List Char)
  | .scalar s => [s.text]
  | .string s => [quote s]
  | .array elements => enclose '[' ']' (prettyElements elements)
  | .object members => enclose '\x7b' '\x7d' (prettyMembers members)

def prettyElements : List Json → List (List (List Char))
  | [] => []
  | v :: vs => pretty v :: prettyElements vs

def prettyMembers : List (String × Json) → List (List (List Char))
  | [] => []
  | (name, v) :: members => named name (pretty v) :: prettyMembers members

end

/-- Lines with a line feed between them. -/
def joinLines : List (List Char) → List Char
  | [] => []
  | [line] => line
  | line :: ls => line ++ '\n' :: joinLines ls

def toStringPretty (v : Json) : String := String.ofList (joinLines v.pretty)

/-! ### What no line is -/

def isSpace (c : Char) : Bool := c = ' ' ∨ c = '\t' ∨ c = '\n' ∨ c = '\r'

/-- An array or an object with something inside, among spaces. -/
def Enclosed (line : List Char) : Prop :=
  ∃ before left inside right after, line = before ++ left :: inside ++ right :: after ∧
    inside ≠ [] ∧ before.all isSpace ∧ after.all isSpace ∧
    (left = '[' ∧ right = ']' ∨ left = '\x7b' ∧ right = '\x7d')

theorem Enclosed.length {line : List Char} (h : Enclosed line) : 3 ≤ line.length := by
  obtain ⟨before, left, inside, right, after, rfl, hinside, -⟩ := h
  have hpos := List.length_pos_iff.mpr hinside
  simp only [List.length_append, List.length_cons]
  omega

/-- It begins with a space or a bracket. -/
theorem Enclosed.tail {c : Char} {line : List Char} (h : Enclosed (c :: line)) (hc : c ≠ '[')
    (hc' : c ≠ '\x7b') : isSpace c ∧ Enclosed line := by
  obtain ⟨before, left, inside, right, after, hline, hinside, hbefore, hrest⟩ := h
  cases before with
  | nil =>
    obtain ⟨rfl, -⟩ := List.cons.inj hline
    rcases hrest.2 with ⟨hleft, -⟩ | ⟨hleft, -⟩
    · exact absurd hleft hc
    · exact absurd hleft hc'
  | cons b before =>
    simp only [List.cons_append, List.cons.injEq] at hline
    obtain ⟨rfl, hline⟩ := hline
    rw [List.all_cons, Bool.and_eq_true] at hbefore
    exact ⟨hbefore.1, before, left, inside, right, after, hline, hinside, hbefore.2, hrest⟩

/-- It ends with a space or a bracket. -/
theorem not_enclosed_comma (line : List Char) : ¬ Enclosed (line ++ [',']) := by
  rintro ⟨before, left, inside, right, after, hline, -, -, hafter, hpair⟩
  have hlast := congrArg List.getLast? hline
  rw [List.getLast?_concat] at hlast
  rcases List.eq_nil_or_concat after with rfl | ⟨after, c, rfl⟩
  · rw [List.getLast?_concat] at hlast
    rcases hpair with ⟨-, rfl⟩ | ⟨-, rfl⟩ <;> simp at hlast
  · rw [List.concat_eq_append, ← List.cons_append, ← List.append_assoc, List.getLast?_concat] at hlast
    obtain rfl := Option.some.inj hlast
    simp [isSpace] at hafter

/-! ### The lines of a value -/

/-- A line without control characters, and not an array or an object by itself. -/
structure Tame (line : List Char) : Prop where
  printable : ∀ c ∈ line, 0x20 ≤ c.toNat
  notEnclosed : ¬ Enclosed line

theorem tame_bracket {c : Char} (h : 0x20 ≤ c.toNat) : Tame [c] where
  printable := List.forall_mem_singleton.mpr h
  notEnclosed henclosed := absurd henclosed.length (by simp)

theorem tame_brackets {c d : Char} (hc : 0x20 ≤ c.toNat) (hd : 0x20 ≤ d.toNat) : Tame [c, d] where
  printable := List.forall_mem_cons.mpr ⟨hc, List.forall_mem_singleton.mpr hd⟩
  notEnclosed henclosed := absurd henclosed.length (by simp)

theorem tame_comma {line : List Char} (h : Tame line) : Tame (line ++ [',']) where
  printable := List.forall_mem_append.mpr
    ⟨h.printable, List.forall_mem_singleton.mpr (by decide)⟩
  notEnclosed := not_enclosed_comma line

theorem tame_indent {line : List Char} (h : Tame line) : Tame (indent line) where
  printable := by
    simp only [indent, List.forall_mem_cons]
    exact ⟨by decide, by decide, h.printable⟩
  notEnclosed henclosed :=
    h.notEnclosed ((henclosed.tail (by decide) (by decide)).2.tail (by decide) (by decide)).2

theorem tame_scalar (s : Scalar) : Tame s.text where
  printable c hc := Nat.le_of_lt (s.plain c hc).1
  notEnclosed := by
    rintro ⟨before, left, inside, right, after, hline, -, -, -, hpair⟩
    have hleft := s.plain left (by simp [hline])
    rcases hpair with ⟨rfl, -⟩ | ⟨rfl, -⟩
    · exact hleft.2.1 rfl
    · exact hleft.2.2 rfl

theorem printable_digitChar : ∀ n < 16, 0x20 ≤ (Nat.digitChar n).toNat := by decide

theorem printable_escape (c : Char) : ∀ d ∈ escape c, 0x20 ≤ d.toNat := by
  unfold escape
  iterate 7
    split
    · exact List.all_iff_forall_prop.mp (by decide)
  split
  · simp only [List.forall_mem_cons]
    exact ⟨by decide, by decide, by decide, by decide, printable_digitChar _ (by omega),
      printable_digitChar _ (by omega), List.forall_mem_nil _⟩
  · next hcontrol => simpa using hcontrol

theorem printable_quote (s : String) : ∀ c ∈ quote s, 0x20 ≤ c.toNat := by
  simp only [quote, List.cons_append, List.forall_mem_cons, List.forall_mem_append]
  refine ⟨by decide, ?_, by decide, List.forall_mem_nil _⟩
  intro c hc
  obtain ⟨d, -, hd⟩ := List.mem_flatMap.mp hc
  exact printable_escape d c hd

theorem tame_of_quote {line : List Char} (h : ∀ c ∈ line, 0x20 ≤ c.toNat) : Tame ('"' :: line) where
  printable := List.forall_mem_cons.mpr ⟨by decide, h⟩
  notEnclosed henclosed := absurd (henclosed.tail (by decide) (by decide)).1 (by decide)

theorem tame_quote (s : String) : Tame (quote s) :=
  tame_of_quote fun c hc => printable_quote s c (List.mem_cons_of_mem _ hc)

theorem tame_withComma {ls : List (List Char)} (h : ∀ line ∈ ls, Tame line) :
    ∀ line ∈ withComma ls, Tame line := by
  induction ls with
  | nil => exact h
  | cons line ls ih =>
    obtain ⟨hline, hrest⟩ := List.forall_mem_cons.mp h
    cases ls with
    | nil => exact List.forall_mem_singleton.mpr (tame_comma hline)
    | cons line' ls => exact List.forall_mem_cons.mpr ⟨hline, ih hrest⟩

theorem tame_separated {items : List (List (List Char))}
    (h : ∀ item ∈ items, ∀ line ∈ item, Tame line) : ∀ line ∈ separated items, Tame line := by
  induction items with
  | nil => exact List.forall_mem_nil _
  | cons item items ih =>
    obtain ⟨hitem, hrest⟩ := List.forall_mem_cons.mp h
    cases items with
    | nil => exact hitem
    | cons item' items => exact List.forall_mem_append.mpr ⟨tame_withComma hitem, ih hrest⟩

theorem tame_enclose {left right : Char} (hleft : 0x20 ≤ left.toNat) (hright : 0x20 ≤ right.toNat)
    {items : List (List (List Char))} (h : ∀ item ∈ items, ∀ line ∈ item, Tame line) :
    ∀ line ∈ enclose left right items, Tame line := by
  unfold enclose
  split
  · exact List.forall_mem_singleton.mpr (tame_brackets hleft hright)
  · rw [List.cons_append, List.forall_mem_cons, List.forall_mem_append, List.forall_mem_singleton]
    refine ⟨tame_bracket hleft, ?_, tame_bracket hright⟩
    intro line hline
    obtain ⟨inner, hinner, rfl⟩ := List.mem_map.mp hline
    exact tame_indent (tame_separated h inner hinner)

theorem tame_named {name : String} {ls : List (List Char)} (h : ∀ line ∈ ls, Tame line) :
    ∀ line ∈ named name ls, Tame line := by
  cases ls with
  | nil => exact h
  | cons line ls =>
    obtain ⟨hline, hrest⟩ := List.forall_mem_cons.mp h
    refine List.forall_mem_cons.mpr ⟨tame_of_quote ?_, hrest⟩
    have hname := (List.forall_mem_cons.mp (printable_quote name)).2
    show ∀ c ∈ name.toList.flatMap escape ++ ['"'] ++ [':', ' '] ++ line, 0x20 ≤ c.toNat
    rw [List.forall_mem_append, List.forall_mem_append]
    exact ⟨⟨hname, List.all_iff_forall_prop.mp (by decide)⟩, hline.printable⟩

/-! ### The text of an array -/


mutual

/-- No line of a value is an array or an object by itself. -/
theorem tame_pretty : ∀ v : Json, ∀ line ∈ pretty v, Tame line
  | .scalar s => List.forall_mem_singleton.mpr (tame_scalar s)
  | .string s => List.forall_mem_singleton.mpr (tame_quote s)
  | .array elements => tame_enclose (by decide) (by decide) (tame_prettyElements elements)
  | .object members => tame_enclose (by decide) (by decide) (tame_prettyMembers members)

theorem tame_prettyElements : ∀ elements : List Json,
    ∀ item ∈ prettyElements elements, ∀ line ∈ item, Tame line
  | [] => List.forall_mem_nil _
  | v :: vs => List.forall_mem_cons.mpr ⟨tame_pretty v, tame_prettyElements vs⟩

theorem tame_prettyMembers : ∀ members : List (String × Json),
    ∀ item ∈ prettyMembers members, ∀ line ∈ item, Tame line
  | [] => List.forall_mem_nil _
  | (_, v) :: members =>
    List.forall_mem_cons.mpr ⟨tame_named (tame_pretty v), tame_prettyMembers members⟩

end

theorem bytes_joinLines (line : List Char) {rest : List (List Char)} (h : rest ≠ []) :
    bytes (String.ofList (joinLines (line :: rest))) =
      bytes (String.ofList line) ++ lineFeed :: bytes (String.ofList (joinLines rest)) := by
  obtain ⟨next, rest, rfl⟩ := List.exists_cons_of_ne_nil h
  simp only [joinLines, bytes_eq, String.toList_ofList, List.flatMap_append, List.flatMap_cons]
  rfl

theorem lines_joinLines {ls : List (List Char)} (h : ∀ line ∈ ls, Tame line)
    (hlast : ∀ line, ls.getLast? = some line → line ≠ []) :
    lines lineFeed carriageReturn (bytes (String.ofList (joinLines ls))) =
      ls.map fun line => bytes (String.ofList line) := by
  induction ls with
  | nil => rfl
  | cons line ls ih =>
    obtain ⟨hline, hrest⟩ := List.forall_mem_cons.mp h
    have hisLine : IsLine lineFeed carriageReturn (bytes (String.ofList line)) := by
      apply isLine_bytes
      · intro hmem
        exact absurd (hline.printable _ (by simpa using hmem)) (by decide)
      · intro hmem
        exact absurd (hline.printable _ (by simpa using hmem)) (by decide)
    cases ls with
    | nil =>
      have hne : bytes (String.ofList line) ≠ [] := by
        intro hempty
        have hsame : bytes (String.ofList line) = bytes "" := hempty
        have hdecode := congrArg decode hsame
        rw [decode_bytes, decode_bytes] at hdecode
        have htext := congrArg String.toList (Option.some.inj hdecode)
        rw [String.toList_ofList] at htext
        exact hlast line rfl htext
      exact lines_of_notMem hisLine.noFeed hne
    | cons next ls =>
      rw [bytes_joinLines line (List.cons_ne_nil next ls), lines_append hisLine,
        ih hrest fun l hl => hlast l (by rwa [List.getLast?_cons_cons])]
      rfl

theorem getLast?_enclose (left right : Char) (items : List (List (List Char))) (line : List Char)
    (h : (enclose left right items).getLast? = some line) : line ≠ [] := by
  unfold enclose at h
  split at h
  · cases h
    exact List.cons_ne_nil _ _
  · rw [List.getLast?_concat] at h
    cases h
    exact List.cons_ne_nil _ _

/-- The lines of the text of an array are those of the array. -/
theorem lines_toStringPretty (elements : List Json) :
    lines lineFeed carriageReturn (bytes (toStringPretty (.array elements))) =
      (pretty (.array elements)).map fun line => bytes (String.ofList line) :=
  lines_joinLines (tame_pretty _) (getLast?_enclose _ _ _)

end Json

end Text
