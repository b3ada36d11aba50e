import Covm.Files.Changes
import Covm.Partial.Within
import Mathlib.Data.Finset.Preimage
import Mathlib.Data.Fintype.EquivFin

/-!
# What a change of the files leaves alone

For any path: a file is written at most where the path and its name lead to, directories are made at
most along a path, and a removal concerns only what is at the end of a path and below it. Neither
directories made nor a removal put a file anywhere, and no file takes the place of a directory.

What a path finds depends on the nodes it goes through (`find_congr`), and what it finds under a
name only on that node and on the directories the path leaves again (`lookup_congr`). Every place
has infinitely many absolute paths (`exists_absolute`).
-/

namespace Files

open Files.Path Covm.Partial

/-! ## The end of a text -/

theorem Path.splitOn_append {c : Char} (l : List Char) {m : List Char} (hm : c ∉ m) :
    ∃ init last, (l ++ m).splitOn c = init ++ [last ++ m] := by
  by_cases hc : c ∈ l
  · obtain ⟨b, a, hrev, hb⟩ := List.eq_append_cons_of_mem (List.mem_reverse.mpr hc)
    have hl : l = a.reverse ++ c :: b.reverse := by
      rw [← List.reverse_reverse l, hrev]
      simp
    have hlast : (b.reverse ++ m).splitOn c = [b.reverse ++ m] :=
      List.splitOn_eq_singleton (by simp [hb, hm])
    refine ⟨a.reverse.splitOn c, b.reverse, ?_⟩
    rw [hl, List.append_assoc, List.cons_append, List.splitOn_append_cons_self, hlast]
  · exact ⟨[], l, by rw [List.splitOn_eq_singleton (by simp [hc, hm]), List.nil_append]⟩

/-- A text that ends like a name leads to a name that ends like it. -/
theorem Path.exists_join_concat (p : Path) (s : String) {t : String} (hslash : '/' ∉ t.toList)
    (hlength : 2 < t.toList.length) :
    ∃ q name, join p (s ++ t) = q ++ [Component.name name] ∧ t.toList <:+ name.toList := by
  obtain ⟨init, last, hsplit⟩ := splitOn_append s.toList hslash
  have hlong : 2 < (last ++ t.toList).length := by
    rw [List.length_append]
    omega
  have hne : last ++ t.toList ≠ [] := by
    rintro h
    simp [h] at hlong
  have hcomponent : component (last ++ t.toList) = .name (String.ofList (last ++ t.toList)) := by
    rw [component, if_neg, if_neg]
    · rintro h
      simp [h] at hlong
    · rintro h
      simp [h] at hlong
  have hparse : parse (s ++ t) = (init.filter (· ≠ [])).map component ++
      [Component.name (String.ofList (last ++ t.toList))] := by
    have hlast : [last ++ t.toList].filter (· ≠ []) = [last ++ t.toList] :=
      List.filter_eq_self.mpr (by simpa using hne)
    rw [parse, String.toList_append, hsplit, List.filter_append, List.map_append, hlast,
      List.map_singleton, hcomponent]
  have hsuffix : t.toList <:+ (String.ofList (last ++ t.toList)).toList := by
    rw [String.toList_ofList]
    exact List.suffix_append _ _
  unfold join
  split
  · exact ⟨_, _, hparse, hsuffix⟩
  · exact ⟨p ++ (init.filter (· ≠ [])).map component, _, by rw [hparse, List.append_assoc], hsuffix⟩

/-! ## Names on a path -/

theorem Path.not_mem_of_mem_splitOn {c : Char} {l part : List Char} (h : part ∈ l.splitOn c) :
    c ∉ part := by
  induction hn : l.length using Nat.strongRecOn generalizing l with
  | ind n ih =>
    by_cases hc : c ∈ l
    · obtain ⟨a, b, rfl, ha⟩ := List.eq_append_cons_of_mem hc
      rw [List.splitOn_append_cons_self, List.splitOn_eq_singleton ha, List.mem_append,
        List.mem_singleton] at h
      obtain rfl | h := h
      · exact ha
      · refine ih b.length ?_ h rfl
        rw [← hn, List.length_append, List.length_cons]
        omega
    · rw [List.splitOn_eq_singleton hc, List.mem_singleton] at h
      rwa [h]

/-- What is called a name on a path is one, apart from NULs. -/
def Path.Proper (p : Path) : Prop :=
  ∀ name, .name name ∈ p → '\x00' ∉ name.toList → IsName name

theorem Path.proper_names {l : Location} (h : ∀ name ∈ l, IsName name) : Proper (names l) := by
  intro name hname _
  rw [names, List.mem_map] at hname
  obtain ⟨name', hmem, heq⟩ := hname
  cases heq
  exact h name hmem

theorem Path.proper_parse (s : String) : Proper (parse s) := by
  intro name hname hnul
  obtain ⟨part, hpart, hcomponent⟩ := List.mem_map.mp hname
  obtain ⟨hmem, hne⟩ := List.mem_filter.mp hpart
  have hslash := not_mem_of_mem_splitOn hmem
  unfold component at hcomponent
  split at hcomponent
  · exact nomatch hcomponent
  · next hdot =>
    split at hcomponent
    · exact nomatch hcomponent
    · next hdots =>
      cases hcomponent
      rw [String.toList_ofList] at hnul
      constructor
      · simpa using hne
      · simpa using hslash
      · simpa using hnul
      · simpa using hdot
      · simpa using hdots

theorem Path.Proper.join {p : Path} (h : Proper p) (s : String) : Proper (join p s) := by
  unfold Path.join
  split
  · exact proper_parse s
  · intro name hname hnul
    obtain hname | hname := List.mem_append.mp hname
    · exact h name hname hnul
    · exact proper_parse s name hname hnul

/-- A proper path goes through places with proper names. -/
theorem Path.Proper.isName_of_visited {p : Path} (h : Proper p) (hnul : hasNul p = false)
    {l m : Location} (hl : ∀ name ∈ l, IsName name) (hm : m ∈ visited l p) :
    ∀ name ∈ m, IsName name := by
  induction p generalizing l with
  | nil =>
    rw [visited, List.mem_singleton] at hm
    rwa [hm]
  | cons c p ih =>
    obtain rfl | hm := List.mem_cons.mp hm
    · exact hl
    · have hrest : Proper p := fun name hname => h name (List.mem_cons_of_mem c hname)
      rw [hasNul, List.any_cons, Bool.or_eq_false_iff] at hnul
      refine ih hrest hnul.2 ?_ hm
      cases c with
      | current => exact hl
      | parent => exact fun name hname => hl name (List.dropLast_subset l hname)
      | name name =>
        have hname : '\x00' ∉ name.toList := by simpa [Component.hasNul] using hnul.1
        intro name' hmem
        obtain hmem | hmem := List.mem_append.mp hmem
        · exact hl name' hmem
        · rw [List.mem_singleton.mp hmem]
          exact h name List.mem_cons_self hname

/-- A text with slashes in front of it. -/
def Path.slashes (n : Nat) (s : String) : String :=
  String.ofList (List.replicate (n + 1) '/' ++ s.toList)

theorem Path.parse_slashes (n : Nat) (s : String) : parse (slashes n s) = parse s := by
  rw [parse, slashes, String.toList_ofList]
  induction n + 1 with
  | zero => rfl
  | succ n ih =>
    rw [List.replicate_succ, List.cons_append, ← List.nil_append ('/' :: _),
      List.splitOn_append_cons_self, List.splitOn_nil]
    exact ih

theorem Path.slashes_injective (s : String) : Function.Injective (slashes · s) := by
  intro n m h
  have hlength := congrArg String.length h
  simpa [slashes] using hlength

/-- A place has as many absolute paths as one likes. -/
theorem Path.exists_absolute {l : Location} (hne : l ≠ []) (h : ∀ name ∈ l, IsName name)
    (avoid : Finset String) : ∃ s ∉ avoid, ∀ p, join p s = names l := by
  obtain ⟨s, rfl⟩ := exists_components hne h
  have hinjective := (slashes_injective s).injOn (s := Set.preimage (slashes · s) avoid)
  obtain ⟨n, hn⟩ := Infinite.exists_notMem_finset (avoid.preimage (slashes · s) hinjective)
  refine ⟨slashes n s, by simpa using hn, fun p => ?_⟩
  have hplain : IsPlain s := h
  rw [join, if_pos, parse_slashes, hplain.parse]
  simp [slashes, List.replicate_succ]

namespace FileSystem

variable {C : Type}

/-! ## Changes -/

/-- No file is at a location. -/
def NoFile (l : Location) (fs : FileSystem C) : Prop := ∀ content, fs.node l ≠ some (.file content)

theorem resolve_eq_target {fs : FileSystem C} {p : Path} {l : Location} (h : fs.resolve p = .ok l) :
    l = target [] p := by
  unfold resolve at h
  split at h
  · exact nomatch h
  · exact walk_eq_target h

theorem place_node (l : Location) (content : C) (fs : FileSystem C) {m : Location} (hm : m ≠ l) :
    (final (place l content fs)).node m = fs.node m := by
  unfold place
  split
  · rw [final_ok, node_insert, Function.update_of_ne hm]
  · rfl

/-- A file is written at most where its path leads to. -/
theorem writeWith_node (p : Path) (f : Option C → C) (fs : FileSystem C) {m : Location}
    (hm : m ≠ target [] p) : (final (writeWith p f fs)).node m = fs.node m := by
  unfold writeWith
  cases hresolve : fs.resolve p with
  | error e => rfl
  | ok l =>
    obtain rfl := resolve_eq_target hresolve
    dsimp only
    split
    · rfl
    · exact place_node _ _ fs hm
    · exact place_node _ _ fs hm

theorem place_directory (l : Location) (content : C) (fs : FileSystem C) (m : Location) :
    (final (place l content fs)).node m = some .directory ↔ fs.node m = some .directory := by
  unfold place
  split
  · next h =>
    rw [final_ok, node_insert]
    by_cases hm : m = l
    · rw [hm, Function.update_self]
      simp [h.2.2]
    · rw [Function.update_of_ne hm]
  · rfl

/-- Directories stay directories when a file is written, and no others come. -/
theorem writeWith_directory (p : Path) (f : Option C → C) (fs : FileSystem C) (m : Location) :
    (final (writeWith p f fs)).node m = some .directory ↔ fs.node m = some .directory := by
  unfold writeWith
  cases hresolve : fs.resolve p with
  | error e => rfl
  | ok l =>
    dsimp only
    split
    · rfl
    · exact place_directory _ _ fs m
    · exact place_directory _ _ fs m

theorem createDirAll_added (p : Path) (fs : FileSystem C) :
    AddedOn p fs (final (createDirAll p fs)) := by
  obtain ⟨fs', h, hnot, hadded⟩ | ⟨e, fs', h, hadded⟩ := createDirAll_cases p fs
  · rw [h]
    exact hadded.on hnot
  · rw [h]
    exact hadded

/-- What a removal leaves at a location. -/
def Left (l : Location) (fs fs' : FileSystem C) : Prop :=
  ∀ m, fs'.node m = fs.node m ∨ (l <+: m ∧ fs'.node m = none)

theorem left_clear (l : Location) (fs : FileSystem C) : Left l fs (fs.clear l) := by
  intro m
  rw [node_clear]
  split
  · next h => exact .inr ⟨h.1, rfl⟩
  · exact .inl rfl

theorem left_removeTree {l : Location} (hne : l ≠ []) (fs : FileSystem C) :
    Left l fs (fs.removeTree l hne) := by
  intro m
  rw [node_removeTree]
  split
  · next h => exact .inr ⟨h, rfl⟩
  · exact .inl rfl

/-- A removal concerns only what is at the end of the path and below it. -/
theorem removeDirAll_left (p : Path) (fs : FileSystem C) :
    Left (target [] p) fs (final (removeDirAll p fs)) := by
  unfold removeDirAll
  cases hresolve : fs.resolve p with
  | error e => exact fun m => .inl rfl
  | ok l =>
    obtain rfl := resolve_eq_target hresolve
    have hclear := left_clear (target [] p) fs
    dsimp only
    split
    · exact fun m => .inl rfl
    · exact fun m => .inl rfl
    · split
      · exact hclear
      · exact hclear
      · split
        · exact hclear
        · exact hclear
      · split
        · next hne => exact left_removeTree hne fs
        · exact fun m => .inl rfl

/-! ## What is looked at -/

theorem walk_congr {fs fs' : FileSystem C} {l : Location} {p : Path}
    (h : ∀ m ∈ visited l p, fs'.node m = fs.node m) : fs'.walk l p = fs.walk l p := by
  induction p generalizing l with
  | nil => rfl
  | cons c p ih =>
    have hrest : fs'.walk (step l c) p = fs.walk (step l c) p :=
      ih fun m hm => h m (List.mem_cons_of_mem l hm)
    rw [walk, walk, h l List.mem_cons_self, hrest]

/-- What a path finds depends on the nodes it goes through. -/
theorem find_congr {fs fs' : FileSystem C} {p : Path}
    (h : ∀ m ∈ visited [] p, fs'.node m = fs.node m) : fs'.find p = fs.find p := by
  have hresolve : fs'.resolve p = fs.resolve p := by rw [resolve, resolve, walk_congr h]
  apply Option.ext
  intro n
  simp only [find_eq_some, hresolve]
  constructor
  · rintro ⟨l, hl, hn⟩
    obtain rfl := resolve_eq_target hl
    rw [h _ (target_mem_visited [] p)] at hn
    exact ⟨_, hl, hn⟩
  · rintro ⟨l, hl, hn⟩
    obtain rfl := resolve_eq_target hl
    rw [← h _ (target_mem_visited [] p)] at hn
    exact ⟨_, hl, hn⟩

/-- Where a path leads depends on which nodes are directories. -/
theorem walk_ok_congr {fs fs' : FileSystem C} {l m : Location} {p : Path}
    (h : ∀ m, fs'.node m = some .directory ↔ fs.node m = some .directory) :
    fs'.walk l p = .ok m ↔ fs.walk l p = .ok m := by
  induction p generalizing l with
  | nil => rfl
  | cons c p ih =>
    have hdir := h l
    rw [walk, walk]
    cases hnode : fs.node l with
    | none =>
      rw [hnode] at hdir
      cases hnode' : fs'.node l with
      | none => rfl
      | some n' => cases n' <;> simp_all
    | some n =>
      rw [hnode] at hdir
      cases hnode' : fs'.node l with
      | none => cases n <;> simp_all
      | some n' => cases n <;> cases n' <;> simp_all

/-- More directories block no way. -/
theorem walk_mono {fs fs' : FileSystem C} {l m : Location} {p : Path}
    (h : ∀ m, fs.node m = some .directory → fs'.node m = some .directory)
    (hwalk : fs.walk l p = .ok m) : fs'.walk l p = .ok m := by
  induction p generalizing l with
  | nil => exact hwalk
  | cons c p ih =>
    rw [walk] at hwalk ⊢
    split at hwalk
    · next hdir =>
      rw [h l hdir]
      exact ih hwalk
    · cases hwalk
    · cases hwalk

theorem exists_mono {fs fs' : FileSystem C} {p q : Path} (h : AddedOn q fs fs')
    (hp : fs.exists_ p = true) : fs'.exists_ p = true := by
  have hnode : ∀ m n, fs.node m = some n → fs'.node m = some n := by
    intro m n hn
    obtain heq | ⟨-, hnone, -⟩ := h m
    · rw [heq, hn]
    · rw [hn] at hnone
      exact nomatch hnone
  obtain ⟨n, hfind⟩ := Option.isSome_iff_exists.mp hp
  obtain ⟨m, hresolve, hn⟩ := find_eq_some.mp hfind
  refine Option.isSome_iff_exists.mpr ⟨n, find_eq_some.mpr ⟨m, ?_, hnode m n hn⟩⟩
  unfold resolve at hresolve ⊢
  split at hresolve
  · exact nomatch hresolve
  · next hnul =>
    rw [if_neg hnul]
    exact walk_mono (fun m hm => hnode m _ hm) hresolve

theorem resolve_ok_congr {fs fs' : FileSystem C} {l : Location} {p : Path}
    (h : ∀ m, fs'.node m = some .directory ↔ fs.node m = some .directory) :
    fs'.resolve p = .ok l ↔ fs.resolve p = .ok l := by
  unfold resolve
  split
  · rfl
  · exact walk_ok_congr h

theorem place_eq_ok {l : Location} {content : C} {fs fs' : FileSystem C} :
    place l content fs = .ok () fs' ↔
      (l ≠ [] ∧ fs.node l.dropLast = some .directory ∧ fs.node l ≠ some .directory) ∧
        fs'.node = Function.update fs.node l (some (.file content)) := by
  unfold place
  split
  · next h =>
    rw [EStateM.Result.ok.injEq]
    constructor
    · rintro ⟨-, rfl⟩
      exact ⟨h, node_insert ..⟩
    · rintro ⟨-, hnode⟩
      exact ⟨rfl, ext_node ((node_insert ..).trans hnode.symm)⟩
  · next h => simp [h]

/-- A file that was written is read back. -/
theorem read_of_write {p : Path} {content : C} {fs fs' : FileSystem C}
    (h : write p content fs = .ok () fs') : fs'.read p = .ok content := by
  have hdir := writeWith_directory p (fun _ => content) fs
  rw [show writeWith p (fun _ => content) fs = _ from h, final_ok] at hdir
  unfold write writeWith at h
  cases hresolve : fs.resolve p with
  | error e => simp [hresolve] at h
  | ok l =>
    have hresolve' := (resolve_ok_congr hdir).mpr hresolve
    have hnode : fs'.node l = some (.file content) := by
      rw [hresolve] at h
      dsimp only at h
      split at h
      · simp at h
      all_goals rw [(place_eq_ok.mp h).2, Function.update_self]
    simp only [read, stat, bind, Except.bind, hresolve', hnode]

theorem exists_of_read {fs : FileSystem C} {p : Path} {content : C} (h : fs.read p = .ok content) :
    fs.exists_ p = true := by
  unfold read at h
  unfold exists_ find
  cases hstat : fs.stat p with
  | error e => simp [hstat, bind, Except.bind] at h
  | ok n => rfl

theorem read_eq_ok {fs : FileSystem C} {p : Path} {content : C} :
    fs.read p = .ok content ↔ ∃ l, fs.resolve p = .ok l ∧ fs.node l = some (.file content) := by
  unfold read stat
  cases hresolve : fs.resolve p with
  | error e => simp [bind, Except.bind]
  | ok l =>
    cases hnode : fs.node l with
    | none => simp [bind, Except.bind, hnode]
    | some n => cases n <;> simp [bind, Except.bind, hnode]

theorem write_eq_place {p : Path} {l : Location} {fs : FileSystem C} (h : fs.resolve p = .ok l)
    (content : C) : write p content fs = place l content fs := by
  unfold write writeWith
  rw [h]
  dsimp only
  split
  · next hdir =>
    have hnot : ¬ (l ≠ [] ∧ fs.node l.dropLast = some .directory ∧ fs.node l ≠ some .directory) :=
      fun hplace => hplace.2.2 hdir
    rw [place, dif_neg hnot]
  · rfl
  · rfl

/-- Where there is a file, another one can be written. -/
theorem write_of_read {fs : FileSystem C} {p : Path} {content : C} (h : fs.read p = .ok content)
    (content' : C) : ∃ fs', write p content' fs = .ok () fs' := by
  obtain ⟨l, hresolve, hnode⟩ := read_eq_ok.mp h
  have hne : l ≠ [] := by
    rintro rfl
    simp at hnode
  have hplace : l ≠ [] ∧ fs.node l.dropLast = some .directory ∧ fs.node l ≠ some .directory :=
    ⟨hne, fs.node_dropLast hne (by simp [hnode]), by simp [hnode]⟩
  rw [write_eq_place hresolve]
  exact ⟨_, dif_pos hplace⟩

/-- Whether a file can be written does not depend on its content. -/
theorem write_error {fs fs' : FileSystem C} {p : Path} {content : C} {e : IoError}
    (h : write p content fs = .error e fs') (content' : C) : write p content' fs = .error e fs' := by
  cases hresolve : fs.resolve p with
  | error e' =>
    simp only [write, writeWith, hresolve] at h ⊢
    exact h
  | ok l =>
    rw [write_eq_place hresolve, place] at h ⊢
    split at h
    · simp at h
    · next hplace =>
      rw [dif_neg hplace]
      exact h

/-- The last of two contents stays. -/
theorem write_write {fs fs' : FileSystem C} {p : Path} {content : C}
    (h : write p content fs = .ok () fs') (content' : C) :
    write p content' fs' = write p content' fs := by
  obtain ⟨fs₂, h₂⟩ := write_of_read (read_of_write h) content'
  cases hresolve : fs.resolve p with
  | error e => simp [write, writeWith, hresolve] at h
  | ok l =>
    have hdir := writeWith_directory p (fun _ => content) fs
    rw [show writeWith p (fun _ => content) fs = _ from h, final_ok] at hdir
    have hresolve' := (resolve_ok_congr hdir).mpr hresolve
    rw [write_eq_place hresolve, place_eq_ok] at h
    rw [h₂, write_eq_place hresolve, eq_comm, place_eq_ok]
    rw [write_eq_place hresolve', place_eq_ok, h.2, Function.update_idem] at h₂
    exact ⟨h.1, h₂.2⟩

/-- A file can be written to an empty root. -/
theorem write_empty {name : String} (hname : '\x00' ∉ name.toList) (content : C) :
    ∃ fs, write [.name name] content empty = .ok () fs := by
  have hnew : (empty : FileSystem C).node ([] ++ [name]) ≠ some .directory := by
    have hnone : (empty : FileSystem C).node [name] = none :=
      Finmap.lookup_eq_none.mpr (by rw [empty, Finmap.mem_singleton]; simp)
    rw [List.nil_append, hnone]
    simp
  obtain ⟨fs, hwrite, -⟩ := writeWith_of_enter hname (fun _ => content)
    (show (empty : FileSystem C).enter [] = some [] from rfl) hnew
  exact ⟨fs, hwrite⟩

/-- A file is below directories. -/
theorem createDirAll_of_read {fs : FileSystem C} {p : Path} {content : C}
    (h : fs.read p = .ok content) : createDirAll p.parent fs = .ok () fs := by
  obtain ⟨l, hresolve, hnode⟩ := read_eq_ok.mp h
  have hnul : hasNul p = false := by
    by_contra hnul
    rw [resolve_of_hasNul (by simpa using hnul)] at hresolve
    simp at hresolve
  rw [resolve_of_not_hasNul hnul] at hresolve
  cases p using List.reverseRecOn with
  | nil =>
    cases hresolve
    simp at hnode
  | append_singleton q c =>
    obtain ⟨rfl, hvisited⟩ := walk_concat_eq_ok.mp hresolve
    have hc : c ≠ .current := by
      rintro rfl
      rw [target_append, target_singleton, step, hvisited _ (target_mem_visited [] q)] at hnode
      simp at hnode
    rw [parent_concat_of_ne hc]
    have hcreates := createDirAll_creates (getLast?_trim q) fs
    cases hresult : createDirAll (trim q) fs with
    | error e fs' =>
      rw [hresult] at hcreates
      obtain ⟨hblocked | ⟨m, hm, content', hfile⟩, -⟩ := hcreates
      · rw [hasNul_trim] at hblocked
        rw [hasNul_append, hblocked] at hnul
        simp at hnul
      · rw [hvisited m (mem_visited_trim.mp hm)] at hfile
        simp at hfile
    | ok _ fs' =>
      rw [hresult] at hcreates
      have hsame : fs'.node = fs.node := by
        funext m
        rw [hcreates.2 m]
        split
        · next hm => exact (hvisited m (mem_visited_trim.mp hm)).symm
        · rfl
      rw [ext_node hsame]

/-- What the directory a path leads to has under a name. -/
def lookup (fs : FileSystem C) (p : Path) (name : String) : Option (Node C) :=
  (fs.enter p).bind fun l => fs.node (l ++ [name])

/-- Above a node there are directories anyway: what is to be seen is the node, and the directories
that the path goes through and leaves again. -/
theorem lookup_eq_some {fs : FileSystem C} {p : Path} {name : String} {n : Node C} :
    fs.lookup p name = some n ↔ hasNul p = false ∧ fs.node (target [] p ++ [name]) = some n ∧
      ∀ m ∈ visited [] p, ¬ m <+: target [] p → fs.node m = some .directory := by
  rw [lookup, Option.bind_eq_some_iff]
  constructor
  · rintro ⟨l, henter, hn⟩
    obtain ⟨hnul, rfl, hvisited⟩ := enter_eq_some.mp henter
    exact ⟨hnul, hn, fun m hm _ => hvisited m hm⟩
  · rintro ⟨hnul, hn, hdetours⟩
    refine ⟨_, enter_eq_some.mpr ⟨hnul, rfl, fun m hm => ?_⟩, hn⟩
    by_cases hstarts : m <+: target [] p
    · have hne : m ≠ target [] p ++ [name] := by
        rintro rfl
        have hlength := hstarts.length_le
        rw [List.length_append, List.length_singleton] at hlength
        omega
      have hnode : fs.node (target [] p ++ [name]) ≠ none := by simp [hn]
      exact fs.node_of_isPrefix hnode (hstarts.trans (List.prefix_append _ _)) hne
    · exact hdetours m hm hstarts

theorem lookup_congr {fs fs' : FileSystem C} {p : Path} {name : String}
    (hnode : fs'.node (target [] p ++ [name]) = fs.node (target [] p ++ [name]))
    (hdetours : ∀ m ∈ visited [] p, ¬ m <+: target [] p →
      (fs'.node m = some .directory ↔ fs.node m = some .directory)) :
    fs'.lookup p name = fs.lookup p name := by
  apply Option.ext
  intro n
  rw [lookup_eq_some, lookup_eq_some, hnode]
  refine and_congr_right fun _ => and_congr_right fun _ => ?_
  exact forall₂_congr fun m hm => imp_congr_right (hdetours m hm)

/-! ## Where no file is -/

section
variable {l : Location}

theorem writeWith_noFile {p : Path} (h : target [] p ≠ l) (f : Option C → C) :
    Keeps (NoFile l) (writeWith p f) := by
  intro fs hfs content
  rw [writeWith_node p f fs h.symm]
  exact hfs content

theorem createDirAll_noFile (p : Path) : Keeps (NoFile (C := C) l) (createDirAll p) := by
  intro fs hfs content
  obtain h | ⟨-, -, h⟩ := createDirAll_added p fs l
  · rw [h]
    exact hfs content
  · rw [h]
    exact fun h => nomatch h

theorem removeDirAll_noFile (p : Path) : Keeps (NoFile (C := C) l) (removeDirAll p) := by
  intro fs hfs content
  obtain h | ⟨-, h⟩ := removeDirAll_left p fs l
  · rw [h]
    exact hfs content
  · rw [h]
    exact fun h => nomatch h

end

end FileSystem

end Files
