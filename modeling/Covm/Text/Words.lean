import Covm.Text.Lines
import Mathlib.Algebra.GroupWithZero.Nat
import Mathlib.Data.List.DropRight

/-!
# Words, indentation and byte offsets

The parts of `str` a line-based parser uses, on lists of characters: trimming, splitting at white
space or at a character, searching, and slices at byte offsets in UTF-8, which fail where the
offsets are out of order, out of range or inside of a character.
-/

namespace Text

/-! ### Trimming and splitting -/

def trimStart (text : List Char) : List Char := text.dropWhile isWhitespace

def trimEnd (text : List Char) : List Char := text.rdropWhile isWhitespace

def trim (text : List Char) : List Char := trimEnd (trimStart text)

/-- `trim_end_matches` of a character. -/
def trimEndMatches (c : Char) (text : List Char) : List Char := text.rdropWhile (· = c)

/-- Removes a text from the start, at most `n` times. -/
def stripStart (pattern : List Char) : Nat → List Char → List Char
  | 0, text => text
  | n + 1, text =>
    if pattern <+: text then stripStart pattern n (text.drop pattern.length) else text

/-- `trim_start_matches` of a text: it is removed as often as it is there. -/
def trimStartMatches (pattern text : List Char) : List Char := stripStart pattern text.length text

/-- The white space a line begins with. -/
def indent (line : List Char) : Nat := (line.takeWhile isWhitespace).length

/-- `split_whitespace` -/
def words (text : List Char) : List (List Char) :=
  (text.splitOnP isWhitespace).filter fun word => !word.isEmpty

/-- `splitn(2, c)`, if there are two parts. -/
def splitOnce (c : Char) : List Char → Option (List Char × List Char)
  | [] => none
  | d :: text =>
    if d = c then some ([], text)
    else (splitOnce c text).map fun (before, after) => (d :: before, after)

/-! ### Byte offsets -/

def byteLen (text : List Char) : Nat := (text.map Char.utf8Size).sum

/-- The offset of the first occurrence of a character. -/
def find (c : Char) : List Char → Option Nat
  | [] => none
  | d :: text => if d = c then some 0 else (find c text).map (· + d.utf8Size)

/-- The offset of the last one. -/
def rfind (c : Char) : List Char → Option Nat
  | [] => none
  | d :: text =>
    match rfind c text with
    | some n => some (n + d.utf8Size)
    | none => if d = c then some 0 else none

/-- The offset of the first occurrence of a text. -/
def findText (pattern : List Char) : List Char → Option Nat
  | [] => if pattern = [] then some 0 else none
  | c :: text =>
    if pattern <+: c :: text then some 0
    else (findText pattern text).map (· + c.utf8Size)

/-- The text from an offset. -/
def dropBytes : Nat → List Char → Option (List Char)
  | 0, text => some text
  | _ + 1, [] => none
  | n + 1, c :: text =>
    if c.utf8Size ≤ n + 1 then dropBytes (n + 1 - c.utf8Size) text else none

/-- The text up to an offset. -/
def takeBytes : Nat → List Char → Option (List Char)
  | 0, _ => some []
  | _ + 1, [] => none
  | n + 1, c :: text =>
    if c.utf8Size ≤ n + 1 then (takeBytes (n + 1 - c.utf8Size) text).map (c :: ·) else none

/-- `text[start..stop]` -/
def slice (start stop : Nat) (text : List Char) : Option (List Char) :=
  if start ≤ stop then (dropBytes start text).bind (takeBytes (stop - start)) else none

@[simp] theorem byteLen_nil : byteLen [] = 0 := rfl

@[simp] theorem byteLen_cons (c : Char) (text : List Char) :
    byteLen (c :: text) = c.utf8Size + byteLen text := by
  simp [byteLen]

@[simp] theorem byteLen_append (text text' : List Char) :
    byteLen (text ++ text') = byteLen text + byteLen text' := by
  simp [byteLen]

@[simp] theorem dropBytes_append (text text' : List Char) :
    dropBytes (byteLen text) (text ++ text') = some text' := by
  induction text with
  | nil => simp [dropBytes]
  | cons c text ih =>
    obtain ⟨n, hn⟩ := Nat.exists_eq_add_one.mpr (Nat.add_pos_left c.utf8Size_pos (byteLen text))
    have hrest : n + 1 - c.utf8Size = byteLen text := by omega
    rw [byteLen_cons, List.cons_append, hn, dropBytes, if_pos (by omega), hrest, ih]

@[simp] theorem takeBytes_append (text text' : List Char) :
    takeBytes (byteLen text) (text ++ text') = some text := by
  induction text with
  | nil => cases text' <;> rfl
  | cons c text ih =>
    obtain ⟨n, hn⟩ := Nat.exists_eq_add_one.mpr (Nat.add_pos_left c.utf8Size_pos (byteLen text))
    have hrest : n + 1 - c.utf8Size = byteLen text := by omega
    rw [byteLen_cons, List.cons_append, hn, takeBytes, if_pos (by omega), hrest, ih]
    simp

theorem slice_append (text part text' : List Char) :
    slice (byteLen text) (byteLen text + byteLen part) (text ++ (part ++ text')) = some part := by
  simp [slice]

theorem slice_of_lt {start stop : Nat} (h : stop < start) (text : List Char) :
    slice start stop text = none :=
  if_neg (by omega)

/-- No offset is inside of the last character. -/
theorem takeBytes_inside {text : List Char} {c : Char} {n : Nat} (hlow : byteLen text < n)
    (hhigh : n < byteLen text + c.utf8Size) : takeBytes n (text ++ [c]) = none := by
  obtain ⟨n, rfl⟩ : ∃ m, n = m + 1 := ⟨n - 1, by omega⟩
  induction text generalizing n with
  | nil =>
    rw [byteLen_nil, Nat.zero_add] at hhigh
    exact if_neg (by omega)
  | cons d text ih =>
    rw [byteLen_cons] at hlow hhigh
    obtain ⟨m, hm⟩ : ∃ m, n + 1 - d.utf8Size = m + 1 := ⟨n - d.utf8Size, by omega⟩
    have hrest : takeBytes (m + 1) (text ++ [c]) = none := ih m (by omega) (by omega)
    rw [List.cons_append, takeBytes, if_pos (by omega), hm, hrest, Option.map_none]

/-! ### What is found where -/

theorem find_eq_some {c : Char} {text : List Char} {n : Nat} (h : find c text = some n) :
    ∃ before after, text = before ++ c :: after ∧ c ∉ before ∧ n = byteLen before := by
  induction text generalizing n with
  | nil => simp [find] at h
  | cons d text ih =>
    simp only [find] at h
    split_ifs at h with hd
    · exact ⟨[], text, by simp [hd], by simp, by simpa using h.symm⟩
    · obtain ⟨m, hm, rfl⟩ := Option.map_eq_some_iff.mp h
      obtain ⟨before, after, rfl, hnotin, rfl⟩ := ih hm
      refine ⟨d :: before, after, rfl, ?_, by simp [Nat.add_comm]⟩
      simp [hnotin, Ne.symm hd]

theorem find_eq_none {c : Char} {text : List Char} : find c text = none ↔ c ∉ text := by
  induction text with
  | nil => simp [find]
  | cons d text ih =>
    simp only [find]
    split_ifs with hd
    · simp [hd]
    · simp [ih, Ne.symm hd]

theorem find_append {c : Char} {before : List Char} (h : c ∉ before) (after : List Char) :
    find c (before ++ c :: after) = some (byteLen before) := by
  induction before with
  | nil => simp [find]
  | cons d before ih =>
    rw [List.mem_cons, not_or] at h
    simp [find, Ne.symm h.1, ih h.2, Nat.add_comm]

theorem rfind_eq_none {c : Char} {text : List Char} : rfind c text = none ↔ c ∉ text := by
  induction text with
  | nil => simp [rfind]
  | cons d text ih =>
    simp only [rfind]
    cases hrest : rfind c text with
    | some n =>
      have hmem : c ∈ text := by
        by_contra hnotin
        rw [ih.mpr hnotin] at hrest
        simp at hrest
      simp [hmem]
    | none =>
      have hnotin := ih.mp hrest
      by_cases hd : d = c
      · simp [hd]
      · simp [hd, Ne.symm hd, hnotin]

theorem rfind_append (c : Char) (before : List Char) {after : List Char} (h : c ∉ after) :
    rfind c (before ++ c :: after) = some (byteLen before) := by
  induction before with
  | nil => simp [rfind, rfind_eq_none.mpr h]
  | cons d before ih => simp [rfind, ih, Nat.add_comm]

theorem findText_eq_some {pattern text : List Char} {n : Nat}
    (h : findText pattern text = some n) :
    ∃ before after, text = before ++ (pattern ++ after) ∧ n = byteLen before := by
  induction text generalizing n with
  | nil =>
    simp only [findText] at h
    split_ifs at h with hpattern
    exact ⟨[], [], by simp [hpattern], by simpa using h.symm⟩
  | cons c text ih =>
    simp only [findText] at h
    split_ifs at h with hstart
    · obtain ⟨after, hafter⟩ := hstart
      exact ⟨[], after, hafter.symm, by simpa using h.symm⟩
    · obtain ⟨m, hm, rfl⟩ := Option.map_eq_some_iff.mp h
      obtain ⟨before, after, rfl, rfl⟩ := ih hm
      exact ⟨c :: before, after, rfl, by simp [Nat.add_comm]⟩

/-! ### Indented text -/

theorem isWhitespace_of_mem_spaces {n : Nat} {c : Char} (h : c ∈ List.replicate n ' ') :
    isWhitespace c = true := by
  rw [List.eq_of_mem_replicate h]
  rfl

theorem trim_spaces_append (n : Nat) (text : List Char) :
    trim (List.replicate n ' ' ++ text) = trim text := by
  unfold trim trimStart
  rw [List.dropWhile_append_of_pos fun c hc => isWhitespace_of_mem_spaces hc]

theorem indent_spaces_append (n : Nat) {c : Char} (hc : isWhitespace c = false)
    (text : List Char) : indent (List.replicate n ' ' ++ c :: text) = n := by
  unfold indent
  rw [List.takeWhile_append_of_pos fun c hc => isWhitespace_of_mem_spaces hc,
    List.takeWhile_cons_of_neg (by simp [hc]), List.append_nil, List.length_replicate]

end Text
