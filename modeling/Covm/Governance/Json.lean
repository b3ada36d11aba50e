import Covm.Governance.Handlers

/-!
# String maps as JSON

An implementation of the two `serde_json` functions on maps from strings to strings: objects are
written without spaces, in the order of the keys; spaces are skipped when reading. Only escapes of
single code points are read. Every map is read back from its text (`read_write`).
-/

namespace Covm

namespace Json

def hexDigit (n : Nat) : Char := (Nat.digitChar n).toLower

def escape (c : Char) : List Char :=
  match c with
  | '"' => ['\\', '"']
  | '\\' => ['\\', '\\']
  | '\n' => ['\\', 'n']
  | '\r' => ['\\', 'r']
  | '\t' => ['\\', 't']
  | c =>
    if c.toNat < 0x20 then
      ['\\', 'u', '0', '0', hexDigit (c.toNat / 16), hexDigit (c.toNat % 16)]
    else [c]

def quote (s : String) : String := "\"" ++ String.ofList (s.toList.flatMap escape) ++ "\""

def write (m : HashMap String) : String :=
  "\x7b" ++ ",".intercalate ((VMMemory.sortedEntries m).map fun (k, v) => quote k ++ ":" ++ quote v)
    ++ "\x7d"

def hexValue (c : Char) : Option Nat :=
  if c.isDigit then some (c.toNat - '0'.toNat)
  else if 'a' ≤ c ∧ c ≤ 'f' then some (c.toNat - 'a'.toNat + 10)
  else if 'A' ≤ c ∧ c ≤ 'F' then some (c.toNat - 'A'.toNat + 10)
  else none

def unescape : Char → Option Char
  | '"' => some '"'
  | '\\' => some '\\'
  | '/' => some '/'
  | 'n' => some '\n'
  | 'r' => some '\r'
  | 't' => some '\t'
  | 'b' => some (Char.ofNat 8)
  | 'f' => some (Char.ofNat 12)
  | _ => none

/-- The code point of four hexadecimal digits. -/
def codePoint (a b c d : Char) : Option Char := do
  let n := (((← hexValue a) * 16 + (← hexValue b)) * 16 + (← hexValue c)) * 16 + (← hexValue d)
  if n < 0xd800 ∨ 0xdfff < n then some (Char.ofNat n) else none

/-- The rest of a string after its opening quote. -/
def readString : List Char → Option (List Char × List Char)
  | [] => none
  | '"' :: cs => some ([], cs)
  | '\\' :: 'u' :: a :: b :: c :: d :: cs => do
    let (text, rest) ← readString cs
    return ((← codePoint a b c d) :: text, rest)
  | '\\' :: c :: cs => do
    let (text, rest) ← readString cs
    return ((← unescape c) :: text, rest)
  | c :: cs => do
    if c.toNat < 0x20 then none
    else
      let (text, rest) ← readString cs
      return (c :: text, rest)

def skipSpaces (cs : List Char) : List Char :=
  cs.dropWhile fun c => c = ' ' ∨ c = '\n' ∨ c = '\r' ∨ c = '\t'

/-- The members of an object, after its opening brace or a comma; at most `fuel` of them. -/
def readMembers : Nat → List Char → HashMap String → Option (HashMap String × List Char)
  | 0, _, _ => none
  | fuel + 1, cs, m =>
    match skipSpaces cs with
    | '"' :: cs => do
      let (key, cs) ← readString cs
      match skipSpaces cs with
      | ':' :: cs =>
        match skipSpaces cs with
        | '"' :: cs => do
          let (value, cs) ← readString cs
          let m := m.insert (String.ofList key) (String.ofList value)
          match skipSpaces cs with
          | ',' :: cs => readMembers fuel cs m
          | '}' :: cs => some (m, cs)
          | _ => none
        | _ => none
      | _ => none
    | _ => none

def read (s : String) : Option (HashMap String) :=
  match skipSpaces s.toList with
  | '{' :: cs =>
    match skipSpaces cs with
    | '}' :: cs => if (skipSpaces cs).isEmpty then some ∅ else none
    | cs => do
      let (m, cs) ← readMembers s.length cs ∅
      if (skipSpaces cs).isEmpty then some m else none
  | _ => none

/-! ### Reading what was written -/

theorem hexValue_hexDigit : ∀ n < 16, hexValue (hexDigit n) = some n := by decide

theorem codePoint_control (n : Nat) (h : n < 0x20) :
    codePoint '0' '0' (hexDigit (n / 16)) (hexDigit (n % 16)) = some (Char.ofNat n) := by
  have hzero : hexValue '0' = some 0 := rfl
  have hsum : ((0 * 16 + 0) * 16 + n / 16) * 16 + n % 16 = n := by omega
  simp only [codePoint, hzero, hexValue_hexDigit _ (show n / 16 < 16 by omega),
    hexValue_hexDigit _ (show n % 16 < 16 by omega), bind, Option.bind, hsum]
  rw [if_pos (by omega)]

/-- An escaped character is read as one. -/
theorem readString_escape (c : Char) (cs : List Char) :
    readString (escape c ++ cs) = (readString cs).map (Prod.map (c :: ·) id) := by
  unfold escape
  split
  · cases h : readString cs <;> simp [readString, unescape, h, Prod.map]
  · cases h : readString cs <;> simp [readString, unescape, h, Prod.map]
  · cases h : readString cs <;> simp [readString, unescape, h, Prod.map]
  · cases h : readString cs <;> simp [readString, unescape, h, Prod.map]
  · cases h : readString cs <;> simp [readString, unescape, h, Prod.map]
  · next hquote hslash _ _ _ =>
    split_ifs with hcontrol
    · simp only [List.cons_append, List.nil_append, readString,
        codePoint_control c.toNat hcontrol, Char.ofNat_toNat]
      cases readString cs <;> rfl
    · simp only [List.cons_append, List.nil_append]
      rw [readString]
      · rw [if_neg hcontrol]
        cases readString cs <;> rfl
      · exact hquote
      · intro _ _ _ _ _ heq
        exact absurd heq hslash
      · intro _ _ heq
        exact absurd heq hslash

theorem readString_quoted (text cs : List Char) :
    readString (text.flatMap escape ++ '"' :: cs) = some (text, cs) := by
  induction text with
  | nil => rfl
  | cons c text ih => rw [List.flatMap_cons, List.append_assoc, readString_escape, ih]; rfl

/-- A member of an object, after its opening quote. -/
def member (e : String × String) : List Char :=
  e.1.toList.flatMap escape ++ '"' :: ':' :: '"' :: (e.2.toList.flatMap escape ++ ['"'])

/-- The members of an object and its closing brace. -/
def members : List (String × String) → List Char
  | [] => ['}']
  | [e] => '"' :: member e ++ ['}']
  | e :: es => '"' :: member e ++ ',' :: members es

theorem readMembers_last (e : String × String) (m : HashMap String) (fuel : Nat) :
    readMembers (fuel + 1) ('"' :: (member e ++ ['\x7d'])) m = some (m.insert e.1 e.2, []) := by
  have hkey := readString_quoted e.1.toList
    (':' :: '"' :: (e.2.toList.flatMap escape ++ ['"', '\x7d']))
  have hvalue := readString_quoted e.2.toList ['\x7d']
  simp [readMembers, member, skipSpaces, hkey, hvalue]

theorem readMembers_more (e : String × String) (cs : List Char) (m : HashMap String) (fuel : Nat) :
    readMembers (fuel + 1) ('"' :: (member e ++ ',' :: cs)) m =
      readMembers fuel cs (m.insert e.1 e.2) := by
  have hkey := readString_quoted e.1.toList
    (':' :: '"' :: (e.2.toList.flatMap escape ++ '"' :: ',' :: cs))
  have hvalue := readString_quoted e.2.toList (',' :: cs)
  simp [readMembers, member, skipSpaces, hkey, hvalue]

theorem readMembers_members (e : String × String) (es : List (String × String)) (m : HashMap String)
    {fuel : Nat} (h : es.length < fuel) :
    readMembers fuel (members (e :: es)) m =
      some ((e :: es).foldl (fun m e => m.insert e.1 e.2) m, []) := by
  induction es generalizing e m fuel with
  | nil =>
    obtain ⟨n, rfl⟩ : ∃ n, fuel = n + 1 := ⟨fuel - 1, by simp at h; omega⟩
    rw [members, List.cons_append, readMembers_last]
    rfl
  | cons e' es ih =>
    obtain ⟨n, rfl⟩ : ∃ n, fuel = n + 1 := ⟨fuel - 1, by simp at h; omega⟩
    rw [members, List.cons_append, readMembers_more]
    · exact ih e' _ (by simp at h; omega)
    · simp

/-- One member as it is written. -/
def memberText (e : String × String) : String := quote e.1 ++ ":" ++ quote e.2

theorem toList_memberText (e : String × String) : (memberText e).toList = '"' :: member e := by
  simp [memberText, quote, member]

theorem intercalate_cons_cons (sep a b : String) (l : List String) :
    sep.intercalate (a :: b :: l) = sep.intercalate ((a ++ sep ++ b) :: l) := rfl

theorem members_eq (e : String × String) (es : List (String × String)) :
    members (e :: es) = '"' :: member e ++ (es.flatMap fun e => ',' :: '"' :: member e) ++ ['}'] := by
  induction es generalizing e with
  | nil => simp [members]
  | cons e' es ih =>
    rw [members, ih]
    · simp
    · simp

theorem toList_intercalate (acc : String) (es : List (String × String)) :
    (",".intercalate (acc :: es.map memberText)).toList =
      acc.toList ++ es.flatMap fun e => ',' :: '"' :: member e := by
  induction es generalizing acc with
  | nil => simp
  | cons e es ih =>
    rw [List.map_cons, intercalate_cons_cons, ih]
    simp [toList_memberText]

theorem toList_write (m : HashMap String) :
    (write m).toList = '\x7b' :: members (VMMemory.sortedEntries m) := by
  have hwrite : write m =
      "\x7b" ++ ",".intercalate ((VMMemory.sortedEntries m).map memberText) ++ "\x7d" := rfl
  rw [hwrite]
  cases VMMemory.sortedEntries m with
  | nil => rfl
  | cons e es =>
    rw [List.map_cons, members_eq, String.toList_append, String.toList_append, toList_intercalate,
      toList_memberText]
    simp

theorem length_members (es : List (String × String)) : es.length < (members es).length := by
  cases es with
  | nil => simp [members]
  | cons e es =>
    induction es generalizing e with
    | nil => simp [members, member]
    | cons e' es ih =>
      have := ih e'
      rw [members]
      · simp only [List.length_cons, List.length_append] at this ⊢
        omega
      · simp

theorem read_of_empty {text : String} (h : text.toList = ['\x7b', '\x7d']) :
    read text = some ∅ := by
  rw [read, h]
  rfl

theorem read_of_quote {text : String} {cs : List Char} (h : text.toList = '\x7b' :: '"' :: cs) :
    read text = (readMembers text.length ('"' :: cs) ∅).bind fun r =>
      if (skipSpaces r.2).isEmpty then some r.1 else none := by
  rw [read, h]
  rfl

/-- Every map is read back from its text. -/
theorem read_write (m : HashMap String) : read (write m) = some m := by
  have hentries : ∀ e ∈ VMMemory.sortedEntries m, m.lookup e.1 = some e.2 :=
    fun e he => VMMemory.mem_sortedEntries.mp he
  have hread : (VMMemory.sortedEntries m).foldl (fun m e => m.insert e.1 e.2) ∅ = m := by
    apply Finmap.ext_lookup
    intro k
    rw [VMMemory.lookup_foldl_insert (m.lookup ·) hentries]
    split_ifs with hk
    · rfl
    · cases hlookup : m.lookup k with
      | none => rfl
      | some v =>
        exact absurd (List.mem_map.mpr ⟨(k, v), VMMemory.mem_sortedEntries.mpr hlookup, rfl⟩) hk
  have hfuel : (VMMemory.sortedEntries m).length < (write m).length := by
    rw [← String.length_toList, toList_write]
    exact Nat.lt_succ_of_lt (length_members _)
  have htext := toList_write m
  cases hsorted : VMMemory.sortedEntries m with
  | nil =>
    rw [hsorted, List.foldl_nil] at hread
    rw [hsorted] at htext
    rw [read_of_empty htext, hread]
  | cons e es =>
    rw [hsorted] at hread hfuel htext
    obtain ⟨rest, hrest⟩ : ∃ rest, members (e :: es) = '"' :: rest := ⟨_, members_eq e es⟩
    have hmembers := readMembers_members e es ∅ (Nat.lt_of_succ_lt hfuel)
    rw [hread, hrest] at hmembers
    rw [hrest] at htext
    rw [read_of_quote htext, hmembers]
    rfl

end Json

instance : SerdeJson where
  toText := Json.write
  fromStr := Json.read

end Covm
