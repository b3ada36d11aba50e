import Mathlib.Data.Finmap

/-!
# Directory trees

A file system maps finitely many locations to directories and files. The root is a directory, and
so is the parent of every other node: trees that are not connected to the root cannot be built.
What is observed of a file system is `node`.
-/

namespace Files

/-- A place in the tree: the names on the way from the root. -/
abbrev Location := List String

inductive Node (C : Type) where
  | directory
  | file (content : C)

/-- Whether there is a directory does not depend on how contents are compared. -/
instance {C : Type} : (n : Option (Node C)) → Decidable (n = some .directory)
  | some .directory => isTrue rfl
  | some (.file _) => isFalse fun h => nomatch h
  | none => isFalse fun h => nomatch h

structure FileSystem (C : Type) where
  nodes : Finmap fun _ : Location => Node C
  root : nodes.lookup [] = some .directory
  parents : ∀ l, l ≠ [] → l ∈ nodes → nodes.lookup l.dropLast = some .directory

namespace FileSystem

variable {C : Type}

def node (fs : FileSystem C) (l : Location) : Option (Node C) := fs.nodes.lookup l

/-- The root and nothing else. -/
def empty : FileSystem C where
  nodes := Finmap.singleton [] .directory
  root := Finmap.lookup_singleton_eq
  parents _ hne hl := absurd ((Finmap.mem_singleton _ _ _).mp hl) hne

@[simp] theorem node_nil (fs : FileSystem C) : fs.node [] = some .directory := fs.root

theorem node_dropLast (fs : FileSystem C) {l : Location} (hne : l ≠ []) (hl : fs.node l ≠ none) :
    fs.node l.dropLast = some .directory :=
  fs.parents l hne (Finmap.lookup_isSome.mp (Option.isSome_iff_ne_none.mpr hl))

/-- Above a node there are only directories. -/
theorem node_of_isPrefix (fs : FileSystem C) {l m : Location} (hl : fs.node l ≠ none) (hm : m <+: l)
    (hne : m ≠ l) : fs.node m = some .directory := by
  induction l using List.reverseRecOn with
  | nil => exact absurd (List.prefix_nil.mp hm) hne
  | append_singleton l name ih =>
    have hparent := fs.node_dropLast (List.concat_ne_nil name l) hl
    rw [List.dropLast_concat] at hparent
    obtain heq | hml := (List.prefix_concat_iff).mp hm
    · exact absurd heq hne
    · by_cases heq : m = l
      · rw [heq, hparent]
      · exact ih (by rw [hparent]; exact Option.some_ne_none _) hml heq

theorem node_eq_none_of_isPrefix (fs : FileSystem C) {l m : Location} (hl : fs.node l = none)
    (hm : l <+: m) : fs.node m = none := by
  by_contra hne
  by_cases heq : l = m
  · exact hne (heq ▸ hl)
  · rw [fs.node_of_isPrefix hne hm heq] at hl
    exact nomatch hl

/-! ## Changes -/

/-- A node is put into an existing directory; no directory is replaced by a file. -/
def insert (fs : FileSystem C) (l : Location) (n : Node C) (hne : l ≠ [])
    (hparent : fs.node l.dropLast = some .directory)
    (hkeep : n = .directory ∨ fs.node l ≠ some .directory) : FileSystem C where
  nodes := fs.nodes.insert l n
  root := by rw [Finmap.lookup_insert_of_ne _ (Ne.symm hne)]; exact fs.root
  parents m hm hmem := by
    have hdirectory : fs.nodes.lookup m.dropLast = some .directory := by
      obtain rfl | hmem := Finmap.mem_insert.mp hmem
      · exact hparent
      · exact fs.parents m hm hmem
    by_cases hl : m.dropLast = l
    · rw [hl] at hdirectory ⊢
      rw [Finmap.lookup_insert]
      exact congrArg some (hkeep.resolve_right (not_not_intro hdirectory))
    · rwa [Finmap.lookup_insert_of_ne _ hl]

@[simp] theorem node_insert (fs : FileSystem C) (l : Location) (n : Node C) (hne : l ≠ [])
    (hparent : fs.node l.dropLast = some .directory)
    (hkeep : n = .directory ∨ fs.node l ≠ some .directory) :
    (fs.insert l n hne hparent hkeep).node = Function.update fs.node l (some n) := by
  funext m
  by_cases hm : m = l
  · subst hm
    rw [Function.update_self]
    exact Finmap.lookup_insert _
  · rw [Function.update_of_ne hm]
    exact Finmap.lookup_insert_of_ne _ hm

/-- The part of a map whose keys are in `keep`. -/
def filterKeys {β : Type} (keep : Location → Bool) (m : Finmap fun _ : Location => β) :
    Finmap fun _ : Location => β where
  entries := m.entries.filter (keep ·.1)
  nodupKeys := Multiset.nodup_keys.mp <|
    Multiset.nodup_of_le (Multiset.map_le_map (Multiset.filter_le _ _)) m.nodupKeys.nodup_keys

theorem lookup_filterKeys {β : Type} (keep : Location → Bool) (m : Finmap fun _ : Location => β)
    (l : Location) : (filterKeys keep m).lookup l = if keep l then m.lookup l else none := by
  apply Option.ext
  intro b
  rw [← Option.mem_def, Finmap.mem_lookup_iff, filterKeys, Multiset.mem_filter,
    ← Finmap.mem_lookup_iff, Option.mem_def]
  by_cases hl : keep l <;> simp [hl]

/-- The nodes at the locations in `keep`, which have their parents there. -/
def restrict (fs : FileSystem C) (keep : Location → Bool) (hroot : keep [] = true)
    (hparents : ∀ l, l ≠ [] → keep l = true → keep l.dropLast = true) : FileSystem C where
  nodes := filterKeys keep fs.nodes
  root := by rw [lookup_filterKeys, if_pos hroot, fs.root]
  parents l hne hl := by
    rw [← Finmap.lookup_isSome, lookup_filterKeys] at hl
    by_cases hkeep : keep l
    · rw [if_pos hkeep, Finmap.lookup_isSome] at hl
      rw [lookup_filterKeys, if_pos (hparents l hne hkeep), fs.parents l hne hl]
    · rw [if_neg hkeep] at hl
      exact nomatch hl

@[simp] theorem node_restrict (fs : FileSystem C) (keep : Location → Bool)
    (hroot : keep [] = true)
    (hparents : ∀ l, l ≠ [] → keep l = true → keep l.dropLast = true) (l : Location) :
    (fs.restrict keep hroot hparents).node l = if keep l then fs.node l else none :=
  lookup_filterKeys keep fs.nodes l

/-- Removes a node with all that is below it. -/
def removeTree (fs : FileSystem C) (l : Location) (hne : l ≠ []) : FileSystem C :=
  fs.restrict (fun m => !decide (l <+: m)) (by simpa using hne) fun m _ hm => by
    simp only [Bool.not_eq_true', decide_eq_false_iff_not] at hm ⊢
    exact fun hstarts => hm (hstarts.trans (List.dropLast_prefix m))

/-- Removes all that is below a directory. -/
def clear (fs : FileSystem C) (l : Location) : FileSystem C :=
  fs.restrict (fun m => !decide (l <+: m) || decide (m = l)) (by simp [eq_comm]) fun m hne hm => by
    simp only [Bool.or_eq_true, Bool.not_eq_true', decide_eq_false_iff_not,
      decide_eq_true_eq] at hm ⊢
    by_cases hstarts : l <+: m.dropLast
    · obtain hnot | rfl := hm
      · exact absurd (hstarts.trans (List.dropLast_prefix m)) hnot
      · have hlength := hstarts.length_le
        rw [List.length_dropLast] at hlength
        have hpos := List.length_pos_iff.mpr hne
        omega
    · exact .inl hstarts

@[simp] theorem node_removeTree (fs : FileSystem C) (l : Location) (hne : l ≠ [])
    (m : Location) : (fs.removeTree l hne).node m = if l <+: m then none else fs.node m := by
  rw [removeTree, node_restrict]
  by_cases hm : l <+: m <;> simp [hm]

@[simp] theorem node_clear (fs : FileSystem C) (l : Location) (m : Location) :
    (fs.clear l).node m = if l <+: m ∧ m ≠ l then none else fs.node m := by
  rw [clear, node_restrict]
  by_cases hm : l <+: m <;> by_cases heq : m = l <;> simp [hm, heq]

/-! ## Listing a directory -/

/-- The name of `m` in the directory `l`. -/
def childName (l m : Location) : Option String :=
  if m ≠ [] ∧ m.dropLast = l then m.getLast? else none

theorem childName_eq_some {l m : Location} {name : String} :
    childName l m = some name ↔ m = l ++ [name] := by
  unfold childName
  constructor
  · intro h
    split at h
    · next hm =>
      rw [← hm.2]
      exact (List.dropLast_append_getLast? name h).symm
    · exact nomatch h
  · rintro rfl
    rw [if_pos ⟨List.concat_ne_nil name l, List.dropLast_concat⟩, List.getLast?_concat]

/-- The nodes in a directory, with their names, in no particular order. -/
def children (fs : FileSystem C) (l : Location) : Multiset (String × Node C) :=
  fs.nodes.entries.filterMap fun e => (childName l e.1).map fun name => (name, e.2)

theorem mem_children {fs : FileSystem C} {l : Location} {name : String} {n : Node C} :
    (name, n) ∈ fs.children l ↔ fs.node (l ++ [name]) = some n := by
  rw [children, Multiset.mem_filterMap, node, Finmap.lookup_eq_some_iff]
  constructor
  · rintro ⟨⟨m, n'⟩, hmem, heq⟩
    obtain ⟨name', hname, hpair⟩ := Option.map_eq_some_iff.mp heq
    cases hpair
    rw [← childName_eq_some.mp hname]
    exact hmem
  · intro hmem
    exact ⟨_, hmem, by rw [childName_eq_some.mpr rfl]; rfl⟩

/-- Names are unique in a directory. -/
theorem nodup_children (fs : FileSystem C) (l : Location) :
    ((fs.children l).map Prod.fst).Nodup := by
  have hnames : (fs.children l).map Prod.fst = fs.nodes.entries.keys.filterMap (childName l) := by
    rw [children, Multiset.map_filterMap, Multiset.keys, Multiset.filterMap_map]
    congr 1
    funext e
    exact (Option.map_map _ _ _).trans Option.map_id'
  rw [hnames]
  apply Multiset.Nodup.filterMap
  · intro m m' name hm hm'
    rw [childName_eq_some.mp hm, childName_eq_some.mp hm']
  · exact fs.nodes.nodupKeys.nodup_keys

end FileSystem

end Files
