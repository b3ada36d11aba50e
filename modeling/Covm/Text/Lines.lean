import Mathlib.Data.List.Basic

/-!
# The lines of a text

A text is the list of its characters or of its bytes. A line ends at a line feed; a carriage return
right before the line feed does not belong to the line. What follows the last line feed is a line if
there is anything.
-/

namespace Text

/-- The property `White_Space` of Unicode. -/
def isWhitespace (c : Char) : Bool :=
  let n := c.toNat
  decide (9 ≤ n ∧ n ≤ 13 ∨ 0x2000 ≤ n ∧ n ≤ 0x200A ∨
    n ∈ [0x20, 0x85, 0xA0, 0x1680, 0x2028, 0x2029, 0x202F, 0x205F, 0x3000])

def isBlank (text : List Char) : Bool := text.all isWhitespace

section
variable {α : Type} [DecidableEq α] (feed ret : α)

/-- A line without the carriage return before its line feed. -/
def withoutReturn (line : List α) : List α :=
  if line.getLast? = some ret then line.dropLast else line

/-- The lines of a text whose first line has already begun with `line`. -/
def linesFrom (line : List α) : List α → List (List α)
  | [] => if line = [] then [] else [line]
  | c :: text =>
    if c = feed then withoutReturn ret line :: linesFrom [] text else linesFrom (line ++ [c]) text

def lines (text : List α) : List (List α) := linesFrom feed ret [] text

/-- The lines one after the other, each with its line feed. -/
def unlines (ls : List (List α)) : List α := ls.flatMap fun line => line ++ [feed]

/-- A line that can be told from the text it is written in. -/
structure IsLine (line : List α) : Prop where
  noFeed : feed ∉ line
  noReturn : line.getLast? ≠ some ret

variable {feed ret}

theorem IsLine.withoutReturn {line : List α} (h : IsLine feed ret line) :
    withoutReturn ret line = line :=
  if_neg h.noReturn

theorem linesFrom_append {start line : List α} (h : feed ∉ line) (text : List α) :
    linesFrom feed ret start (line ++ feed :: text) =
      Text.withoutReturn ret (start ++ line) :: lines feed ret text := by
  induction line generalizing start with
  | nil => simp [linesFrom, lines]
  | cons c line ih =>
    have hc : c ≠ feed := fun hc => h (by simp [hc])
    rw [List.cons_append, linesFrom, if_neg hc, ih (fun hmem => h (by simp [hmem]))]
    simp

theorem lines_append {line : List α} (h : IsLine feed ret line) (text : List α) :
    lines feed ret (line ++ feed :: text) = line :: lines feed ret text := by
  rw [lines, linesFrom_append h.noFeed, List.nil_append, h.withoutReturn]

/-- The last line needs no line feed. -/
theorem lines_of_notMem {line : List α} (h : feed ∉ line) (hne : line ≠ []) :
    lines feed ret line = [line] := by
  have hfrom : ∀ start, start ++ line ≠ [] → linesFrom feed ret start line = [start ++ line] := by
    clear hne
    induction line with
    | nil =>
      intro start hstart
      rw [List.append_nil] at hstart ⊢
      exact if_neg hstart
    | cons c line ih =>
      intro start hstart
      have hc : c ≠ feed := fun hc => h (by simp [hc])
      rw [linesFrom, if_neg hc, ih (fun hmem => h (by simp [hmem])) (start ++ [c]) (by simp)]
      simp
  exact hfrom [] hne

theorem lines_unlines {ls : List (List α)} (h : ∀ line ∈ ls, IsLine feed ret line) :
    lines feed ret (unlines feed ls) = ls := by
  induction ls with
  | nil => rfl
  | cons line ls ih =>
    have hrest := ih fun line' hmem => h line' (List.mem_cons_of_mem line hmem)
    rw [unlines, List.flatMap_cons, List.append_assoc, List.singleton_append,
      lines_append (h line List.mem_cons_self)]
    exact congrArg _ hrest

end

/-! ### Spelling literals

A literal is `String.ofList` of its characters to `apply`, which need not be decoded then. -/

theorem toList_append_of {a b : String} {text text' : List Char} (ha : a.toList = text)
    (hb : b.toList = text') : (a ++ b).toList = text ++ text' := by
  rw [String.toList_append, ha, hb]

theorem map_toList_cons {text : List Char} {strings : List String} {texts : List (List Char)}
    (h : strings.map String.toList = texts) :
    (String.ofList text :: strings).map String.toList = text :: texts := by
  rw [List.map_cons, String.toList_ofList, h]

theorem ne_of_toList {a b : String} {text text' : List Char} (ha : a.toList = text)
    (hb : b.toList = text') (hne : text ≠ text') : a ≠ b := by
  rintro rfl
  exact hne (ha.symm.trans hb)

/-! ### Texts as bytes -/

/-- A byte of one character of its own is that character. -/
theorem toNat_of_mem_utf8EncodeChar {c : Char} {b : UInt8} (h : b ∈ String.utf8EncodeChar c)
    (hb : b.toNat < 0x80) : c.toNat = b.toNat := by
  simp only [String.utf8EncodeChar] at h
  have hval : c.toNat = c.val.toNat := rfl
  split_ifs at h with hone htwo hthree
  · obtain rfl := List.mem_singleton.mp h
    simp
    omega
  all_goals
    simp only [List.mem_cons, List.not_mem_nil, or_false] at h
    rcases h with rfl | h
    · simp at hb
      omega
  · subst h
    simp at hb
    omega
  · rcases h with rfl | rfl <;> simp at hb <;> omega
  · rcases h with rfl | rfl | rfl <;> simp at hb <;> omega

/-- The bytes of a string. -/
def bytes (s : String) : List UInt8 := s.toUTF8.data.toList

/-- The string with these bytes. -/
def decode (bytes : List UInt8) : Option String := String.fromUTF8? ⟨bytes.toArray⟩

@[simp] theorem decode_bytes (s : String) : decode (bytes s) = some s := by
  simp only [decode, bytes, Array.toArray_toList, String.fromUTF8?, String.toUTF8_eq_toByteArray,
    dif_pos s.isValidUTF8]
  rfl

theorem bytes_eq (s : String) : bytes s = s.toList.flatMap String.utf8EncodeChar := by
  rw [bytes, String.toUTF8_eq_toByteArray, ← String.utf8Encode_toList, List.utf8Encode]
  simp

theorem notMem_bytes {s : String} {c : Char} (hc : c.toNat < 0x80) (h : c ∉ s.toList) :
    c.toNat.toUInt8 ∉ bytes s := by
  intro hmem
  rw [bytes_eq] at hmem
  obtain ⟨d, hd, hbyte⟩ := List.mem_flatMap.mp hmem
  have hbound : c.toNat.toUInt8.toNat = c.toNat := by
    simp
    omega
  have heq := toNat_of_mem_utf8EncodeChar hbyte (by omega)
  rw [hbound] at heq
  exact h (Char.toNat_inj.mp heq ▸ hd)

/-- The bytes of the characters that end a line. -/
def lineFeed : UInt8 := 10

def carriageReturn : UInt8 := 13

theorem isLine_bytes {s : String} (hfeed : '\n' ∉ s.toList) (hret : '\r' ∉ s.toList) :
    IsLine lineFeed carriageReturn (bytes s) where
  noFeed := notMem_bytes (by decide) hfeed
  noReturn h := notMem_bytes (by decide) hret (List.mem_of_getLast? h)

end Text
