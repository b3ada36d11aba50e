import Covm.Files.Tree

/-!
# Paths

A path is a list of components read from the root, as POSIX does: a component is looked up in the
directory the ones before it lead to, `..` leads to the parent, and `join` with a text that starts
with a slash forgets the path so far. There are no links, and names have any length.

What a path finds depends only on the directories it goes through (`enter`); a path without `.`
and `..` is as good as the location it names (`find_names`).
-/

namespace Files

inductive Component where
  | current
  | parent
  | name (name : String)
  deriving DecidableEq

abbrev Path := List Component

/-- The kinds of errors. -/
inductive IoError where
  | notFound
  | alreadyExists
  | notADirectory
  | isADirectory
  | directoryNotEmpty
  | busy
  | invalidArgument
  | nulByte
  deriving DecidableEq

/-- The texts of the errors. -/
def IoError.display : IoError → String
  | notFound => "No such file or directory (os error 2)"
  | alreadyExists => "File exists (os error 17)"
  | notADirectory => "Not a directory (os error 20)"
  | isADirectory => "Is a directory (os error 21)"
  | directoryNotEmpty => "Directory not empty (os error 39)"
  | busy => "Device or resource busy (os error 16)"
  | invalidArgument => "Invalid argument (os error 22)"
  | nulByte => "file name contained an unexpected NUL byte"

/-- No name can be given to the system with a NUL in it. -/
def NulFree (l : Location) : Prop := ∀ name ∈ l, '\x00' ∉ name.toList

theorem nulFree_append {l m : Location} : NulFree (l ++ m) ↔ NulFree l ∧ NulFree m :=
  List.forall_mem_append

theorem nulFree_singleton {name : String} : NulFree [name] ↔ '\x00' ∉ name.toList :=
  List.forall_mem_singleton

def Component.hasNul : Component → Bool
  | .name s => s.toList.contains '\x00'
  | _ => false

namespace Path

def component (part : List Char) : Component :=
  if part = ['.'] then .current
  else if part = ['.', '.'] then .parent
  else .name (String.ofList part)

/-- The components of a text; slashes may be repeated. -/
def parse (s : String) : Path :=
  ((s.toList.splitOn '/').filter (· ≠ [])).map component

def join (p : Path) (s : String) : Path :=
  if s.toList.head? = some '/' then parse s else p ++ parse s

/-- The path of a location. -/
def names (l : Location) : Path := l.map .name

def hasNul (p : Path) : Bool := p.any Component.hasNul

/-- Where a component leads from a directory. -/
def step (l : Location) : Component → Location
  | .current => l
  | .parent => l.dropLast
  | .name name => l ++ [name]

/-- Where a path leads, if it leads anywhere. -/
def target (l : Location) (p : Path) : Location := p.foldl step l

/-- The locations a path goes through, up to the one it leads to. -/
def visited (l : Location) : Path → List Location
  | [] => [l]
  | c :: p => l :: visited (step l c) p

@[simp] theorem names_nil : names [] = [] := rfl

@[simp] theorem names_append (l m : Location) : names (l ++ m) = names l ++ names m :=
  List.map_append

@[simp] theorem names_singleton (name : String) : names [name] = [.name name] := rfl

@[simp] theorem hasNul_append (p q : Path) : hasNul (p ++ q) = (hasNul p || hasNul q) :=
  List.any_append

theorem hasNul_name {name : String} (h : '\x00' ∉ name.toList) : hasNul [.name name] = false := by
  simp [hasNul, Component.hasNul, h]

theorem hasNul_names {l : Location} (h : NulFree l) : hasNul (names l) = false := by
  simp only [hasNul, names, List.any_map, List.any_eq_false, Function.comp_apply]
  intro name hname
  simp [Component.hasNul, h name hname]

@[simp] theorem target_nil (l : Location) : target l [] = l := rfl

@[simp] theorem target_append (l : Location) (p q : Path) :
    target l (p ++ q) = target (target l p) q := List.foldl_append

@[simp] theorem target_singleton (l : Location) (c : Component) : target l [c] = step l c := rfl

@[simp] theorem target_names (l m : Location) : target l (names m) = l ++ m := by
  induction m using List.reverseRecOn with
  | nil => simp
  | append_singleton m name ih => simp [ih, step]

theorem visited_concat (l : Location) (p : Path) (c : Component) :
    visited l (p ++ [c]) = visited l p ++ [target l (p ++ [c])] := by
  induction p generalizing l with
  | nil => rfl
  | cons d p ih => exact congrArg (l :: ·) (ih (step l d))

theorem target_mem_visited (l : Location) (p : Path) : target l p ∈ visited l p := by
  induction p generalizing l with
  | nil => exact List.mem_singleton_self l
  | cons c p ih => exact List.mem_cons_of_mem l (ih (step l c))

theorem mem_visited_concat {l m : Location} {p : Path} {c : Component} :
    m ∈ visited l (p ++ [c]) ↔ m ∈ visited l p ∨ m = target l (p ++ [c]) := by
  rw [visited_concat, List.mem_append, List.mem_singleton]

/-- On the way to a location are the locations above it. -/
theorem mem_visited_names {l m : Location} : m ∈ visited [] (names l) ↔ m <+: l := by
  induction l using List.reverseRecOn with
  | nil => simp [visited]
  | append_singleton l name ih =>
    rw [names_append, names_singleton, mem_visited_concat, ih, List.prefix_concat_iff, or_comm]
    simp [step]

theorem mem_visited_append {l m : Location} {p q : Path} :
    m ∈ visited l (p ++ q) ↔ m ∈ visited l p ∨ m ∈ visited (target l p) q := by
  induction p generalizing l with
  | nil =>
    have hstart : l ∈ visited l q := by cases q <;> simp [visited]
    constructor
    · exact .inr
    · rintro (hm | hm)
      · rw [List.mem_singleton.mp hm]
        exact hstart
      · exact hm
  | cons c p ih => simp only [List.cons_append, visited, List.mem_cons, ih, or_assoc]; rfl

theorem prefix_of_mem_visited_names {l m k : Location} (h : m ∈ visited l (names k)) :
    m <+: l ++ k := by
  induction k generalizing l with
  | nil => simp [List.mem_singleton.mp h]
  | cons name k ih =>
    obtain rfl | h := List.mem_cons.mp h
    · exact List.prefix_append m _
    · simpa [step] using ih h

/-! ## Names in a text -/

/-- A text that is one name. -/
structure IsName (s : String) : Prop where
  nonempty : s.toList ≠ []
  slash : '/' ∉ s.toList
  nul : '\x00' ∉ s.toList
  dot : s.toList ≠ ['.']
  dots : s.toList ≠ ['.', '.']

/-- What stands between the slashes of a text. -/
def components (s : String) : Location := (s.toList.splitOn '/').map String.ofList

/-- A text of names with slashes between them. -/
def IsPlain (s : String) : Prop := ∀ name ∈ components s, IsName name

theorem IsName.component {s : String} (h : IsName s) : component s.toList = .name s := by
  rw [Path.component, if_neg h.dot, if_neg h.dots, String.ofList_toList]

theorem components_of_isName {s : String} (h : IsName s) : components s = [s] := by
  rw [components, List.splitOn_eq_singleton h.slash, List.map_singleton, String.ofList_toList]

theorem IsName.isPlain {s : String} (h : IsName s) : IsPlain s := by
  intro name hname
  rw [components_of_isName h, List.mem_singleton] at hname
  rwa [hname]

theorem components_ne_nil (s : String) : components s ≠ [] := by
  rw [components, Ne, List.map_eq_nil_iff]
  exact List.splitOn_ne_nil _ _

theorem components_injective : Function.Injective components := by
  intro s s' h
  have hlists : s.toList.splitOn '/' = s'.toList.splitOn '/' :=
    List.map_injective_iff.mpr (fun _ _ heq => String.ofList_injective heq) h
  have htexts := congrArg (List.intercalate ['/']) hlists
  rw [List.intercalate_splitOn, List.intercalate_splitOn] at htexts
  exact String.toList_inj.mp htexts

theorem IsPlain.isName_of_length {s : String} (h : IsPlain s) (hlength : (components s).length = 1) :
    IsName s := by
  obtain ⟨name, hname⟩ := List.length_eq_one_iff.mp hlength
  have hisName : IsName name := h name (by rw [hname]; exact List.mem_singleton_self _)
  rw [← components_of_isName hisName] at hname
  rwa [components_injective hname]

/-- Names can be put together to a text. -/
theorem exists_components {l : Location} (hne : l ≠ []) (h : ∀ name ∈ l, IsName name) :
    ∃ s, components s = l := by
  refine ⟨String.ofList (['/'].intercalate (l.map String.toList)), ?_⟩
  have hslash : ∀ part ∈ l.map String.toList, '/' ∉ part := by
    intro part hpart
    obtain ⟨name, hname, rfl⟩ := List.mem_map.mp hpart
    exact (h name hname).slash
  rw [components, String.toList_ofList, List.splitOn_intercalate '/' hslash (by simpa using hne),
    List.map_map]
  simp

theorem IsPlain.nulFree {s : String} (h : IsPlain s) : NulFree (components s) :=
  fun name hname => (h name hname).nul

theorem IsPlain.parse {s : String} (h : IsPlain s) : parse s = names (components s) := by
  have hpart : ∀ part ∈ s.toList.splitOn '/', part ≠ [] ∧
      component part = .name (String.ofList part) := by
    intro part hpart
    have hname := h _ (List.mem_map_of_mem hpart)
    have hcomponent := hname.component
    rw [String.toList_ofList] at hcomponent
    exact ⟨by simpa using hname.nonempty, hcomponent⟩
  rw [Path.parse, names, components, List.map_map, List.filter_eq_self.mpr]
  · exact List.map_congr_left fun part hmem => (hpart part hmem).2
  · intro part hmem
    simp [(hpart part hmem).1]

theorem IsPlain.head {s : String} (h : IsPlain s) : s.toList.head? ≠ some '/' := by
  intro hhead
  obtain ⟨cs, hcs⟩ := List.head?_eq_some_iff.mp hhead
  have hempty : "" ∈ components s := by
    rw [components, hcs, ← List.nil_append ('/' :: cs), List.splitOn_append_cons_self]
    simp
  exact (h _ hempty).nonempty rfl

theorem IsPlain.join {s : String} (h : IsPlain s) (p : Path) :
    join p s = p ++ names (components s) := by
  rw [Path.join, if_neg h.head, h.parse]

theorem IsName.join {s : String} (h : IsName s) (p : Path) : join p s = p ++ [Component.name s] := by
  rw [h.isPlain.join, components_of_isName h, names_singleton]

end Path

namespace FileSystem

open Files.Path

variable {C : Type}

/-- Follows a path from a location through existing directories. -/
def walk (fs : FileSystem C) (l : Location) : Path → Except IoError Location
  | [] => .ok l
  | c :: p =>
    match fs.node l with
    | some .directory => fs.walk (step l c) p
    | some (.file _) => .error .notADirectory
    | none => .error .notFound

def resolve (fs : FileSystem C) (p : Path) : Except IoError Location :=
  if hasNul p then .error .nulByte else fs.walk [] p

def stat (fs : FileSystem C) (p : Path) : Except IoError (Node C) := do
  let l ← fs.resolve p
  match fs.node l with
  | some n => .ok n
  | none => .error .notFound

/-- What a path leads to. -/
def find (fs : FileSystem C) (p : Path) : Option (Node C) := (fs.stat p).toOption

def exists_ (fs : FileSystem C) (p : Path) : Bool := (fs.find p).isSome

def isDir (fs : FileSystem C) (p : Path) : Bool := decide (fs.find p = some .directory)

def read (fs : FileSystem C) (p : Path) : Except IoError C := do
  match ← fs.stat p with
  | .file content => .ok content
  | .directory => .error .isADirectory

/-- The directory entries with their nodes, in no particular order. -/
def readDir (fs : FileSystem C) (p : Path) : Except IoError (Multiset (String × Node C)) := do
  let l ← fs.resolve p
  match fs.node l with
  | some .directory => .ok (fs.children l)
  | some (.file _) => .error .notADirectory
  | none => .error .notFound

/-- The directory a path leads to. -/
def enter (fs : FileSystem C) (p : Path) : Option Location :=
  match fs.resolve p with
  | .ok l => if fs.node l = some .directory then some l else none
  | .error _ => none

/-! ## Following a path -/

theorem walk_eq_target {fs : FileSystem C} {l m : Location} {p : Path}
    (h : fs.walk l p = .ok m) : m = target l p := by
  induction p generalizing l with
  | nil => exact (Except.ok.inj h).symm
  | cons c p ih =>
    rw [walk] at h
    split at h
    · exact ih h
    · exact nomatch h
    · exact nomatch h

/-- A path is followed to its end iff it goes through directories. -/
theorem walk_concat_eq_ok {fs : FileSystem C} {l m : Location} {p : Path} {c : Component} :
    fs.walk l (p ++ [c]) = .ok m ↔
      m = target l (p ++ [c]) ∧ ∀ x ∈ visited l p, fs.node x = some .directory := by
  induction p generalizing l with
  | nil =>
    rw [List.nil_append, walk]
    simp only [visited, List.mem_singleton, forall_eq]
    cases h : fs.node l with
    | none => simp
    | some n => cases n <;> simp [walk, eq_comm]
  | cons d p ih =>
    rw [List.cons_append, walk]
    simp only [visited, List.forall_mem_cons]
    cases h : fs.node l with
    | none => simp
    | some n =>
      cases n with
      | directory =>
        simp only [true_and]
        exact ih
      | file content => simp

/-- Otherwise it meets a file or nothing. -/
theorem walk_concat_eq_error {fs : FileSystem C} {l : Location} {p : Path} {c : Component}
    {e : IoError} (h : fs.walk l (p ++ [c]) = .error e) :
    (e = .notFound ∧ ∃ x ∈ visited l p, fs.node x = none) ∨
      (e = .notADirectory ∧ ∃ x ∈ visited l p, ∃ content, fs.node x = some (.file content)) := by
  induction p generalizing l with
  | nil =>
    rw [List.nil_append, walk] at h
    simp only [visited, List.mem_singleton, exists_eq_left]
    cases hn : fs.node l with
    | none =>
      rw [hn] at h
      exact .inl ⟨(Except.error.inj h).symm, rfl⟩
    | some n =>
      rw [hn] at h
      cases n with
      | directory => exact nomatch h
      | file content => exact .inr ⟨(Except.error.inj h).symm, content, rfl⟩
  | cons d p ih =>
    rw [List.cons_append, walk] at h
    simp only [visited, List.mem_cons, exists_eq_or_imp]
    cases hn : fs.node l with
    | none =>
      rw [hn] at h
      exact .inl ⟨(Except.error.inj h).symm, .inl rfl⟩
    | some n =>
      rw [hn] at h
      cases n with
      | directory =>
        obtain ⟨he, hx⟩ | ⟨he, hx⟩ := ih h
        · exact .inl ⟨he, .inr hx⟩
        · exact .inr ⟨he, .inr hx⟩
      | file content => exact .inr ⟨(Except.error.inj h).symm, .inl ⟨content, rfl⟩⟩

theorem resolve_of_hasNul {fs : FileSystem C} {p : Path} (h : hasNul p = true) :
    fs.resolve p = .error .nulByte := by
  rw [resolve, if_pos h]

theorem resolve_of_not_hasNul {fs : FileSystem C} {p : Path} (h : hasNul p = false) :
    fs.resolve p = fs.walk [] p := by
  simp [resolve, h]

theorem enter_eq_some {fs : FileSystem C} {p : Path} {l : Location} :
    fs.enter p = some l ↔ hasNul p = false ∧ l = target [] p ∧
      ∀ x ∈ visited [] p, fs.node x = some .directory := by
  unfold enter
  by_cases hnul : hasNul p
  · simp [resolve_of_hasNul hnul, hnul]
  · rw [Bool.not_eq_true] at hnul
    rw [resolve_of_not_hasNul hnul]
    induction p using List.reverseRecOn with
    | nil =>
      simp only [walk, fs.node_nil, if_true, visited, List.mem_singleton, forall_eq, target_nil,
        and_true, hnul, true_and, Option.some.injEq]
      exact eq_comm
    | append_singleton p c ih =>
      simp only [mem_visited_concat]
      constructor
      · intro h
        split at h
        · next m hm =>
          obtain ⟨rfl, hvisited⟩ := walk_concat_eq_ok.mp hm
          split at h
          · next hdir =>
            obtain rfl := Option.some.inj h
            refine ⟨hnul, rfl, ?_⟩
            rintro x (hx | rfl)
            · exact hvisited x hx
            · exact hdir
          · exact nomatch h
        · exact nomatch h
      · rintro ⟨-, rfl, hvisited⟩
        rw [walk_concat_eq_ok.mpr ⟨rfl, fun x hx => hvisited x (.inl hx)⟩]
        exact if_pos (hvisited _ (.inr rfl))

/-- Only directories are looked at on the way. -/
theorem enter_congr {fs fs' : FileSystem C}
    (h : ∀ l, fs'.node l = some .directory ↔ fs.node l = some .directory) (p : Path) :
    fs'.enter p = fs.enter p := by
  apply Option.ext
  intro l
  rw [enter_eq_some, enter_eq_some]
  simp only [h]

theorem enter_names {fs : FileSystem C} {l : Location} (hnul : NulFree l) :
    fs.enter (names l) = if fs.node l = some .directory then some l else none := by
  split
  · next hl =>
    rw [enter_eq_some]
    refine ⟨hasNul_names hnul, by simp, ?_⟩
    intro x hx
    by_cases heq : x = l
    · rw [heq, hl]
    · exact fs.node_of_isPrefix (by rw [hl]; exact Option.some_ne_none _)
        (mem_visited_names.mp hx) heq
  · next hl =>
    apply Option.eq_none_iff_forall_ne_some.mpr
    intro m hm
    obtain ⟨-, -, hvisited⟩ := enter_eq_some.mp hm
    exact hl (hvisited l (mem_visited_names.mpr (List.prefix_refl l)))

/-- A name is looked up in the directory the path before it leads to. -/
theorem resolve_concat_name {fs : FileSystem C} {p : Path} {name : String}
    (hname : '\x00' ∉ name.toList) {l : Location} :
    fs.resolve (p ++ [Component.name name]) = .ok l ↔ ∃ m, fs.enter p = some m ∧ l = m ++ [name] := by
  by_cases hnul : hasNul p
  · have hnone : ∀ m, fs.enter p ≠ some m := by
      intro m hm
      simp [(enter_eq_some.mp hm).1] at hnul
    rw [resolve_of_hasNul (by simp [hnul])]
    simp [hnone]
  · rw [Bool.not_eq_true] at hnul
    rw [resolve_of_not_hasNul (by simp [hnul, hasNul_name hname]), walk_concat_eq_ok]
    simp only [enter_eq_some, hnul, true_and, target_append, target_singleton, step]
    constructor
    · rintro ⟨rfl, hvisited⟩
      exact ⟨_, ⟨rfl, hvisited⟩, rfl⟩
    · rintro ⟨_, ⟨rfl, hvisited⟩, rfl⟩
      exact ⟨rfl, hvisited⟩

theorem find_eq_some {fs : FileSystem C} {p : Path} {n : Node C} :
    fs.find p = some n ↔ ∃ l, fs.resolve p = .ok l ∧ fs.node l = some n := by
  unfold find stat
  cases h : fs.resolve p with
  | error e => simp [bind, Except.bind, Except.toOption]
  | ok l => cases hn : fs.node l <;> simp [bind, Except.bind, Except.toOption, hn]

theorem find_concat_name (fs : FileSystem C) (p : Path) {name : String}
    (hname : '\x00' ∉ name.toList) :
    fs.find (p ++ [Component.name name]) = (fs.enter p).bind fun l => fs.node (l ++ [name]) := by
  apply Option.ext
  intro n
  rw [find_eq_some, Option.bind_eq_some_iff]
  constructor
  · rintro ⟨_, hresolve, hn⟩
    obtain ⟨m, hm, rfl⟩ := (resolve_concat_name hname).mp hresolve
    exact ⟨m, hm, hn⟩
  · rintro ⟨m, hm, hn⟩
    exact ⟨_, (resolve_concat_name hname).mpr ⟨m, hm, rfl⟩, hn⟩

theorem find_names (fs : FileSystem C) {l : Location} (hnul : NulFree l) :
    fs.find (names l) = fs.node l := by
  induction l using List.reverseRecOn with
  | nil => exact find_eq_some.mpr ⟨[], rfl, fs.node_nil⟩ |>.trans fs.node_nil.symm
  | append_singleton l name ih =>
    obtain ⟨hl, hname⟩ := nulFree_append.mp hnul
    rw [names_append, names_singleton, find_concat_name fs _ (nulFree_singleton.mp hname),
      enter_names hl]
    split
    · rfl
    · next hdir =>
      symm
      by_contra hne
      apply hdir
      have hparent := fs.node_dropLast (List.concat_ne_nil name l) hne
      rwa [List.dropLast_concat] at hparent

theorem isDir_eq_true {fs : FileSystem C} {p : Path} :
    fs.isDir p = true ↔ ∃ l, fs.enter p = some l := by
  unfold isDir enter
  rw [decide_eq_true_iff, find_eq_some]
  cases h : fs.resolve p with
  | error e => simp
  | ok l => simp

end FileSystem

end Files
