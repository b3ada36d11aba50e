import Covm.Storage.Namespaces
import Covm.Text.Words

/-!
# The owner of a path (`storage/namespaces.rs`)

A path belongs to the closest namespace above it that is registered. The lookup cuts the path before
its last slash until it finds one; a slash at the very beginning leaves the empty path, which is
above every path. No cut skips a registered prefix.
-/

namespace Covm

open Maps Text

/-- The path up to its last slash. -/
def parentNamespace (path : String) : String :=
  match rfind '/' path.toList with
  | some idx => if 0 < idx then String.ofList ((takeBytes idx path.toList).getD []) else ""
  | none => ""

theorem parentNamespace_of_notMem {path : String} (h : '/' ∉ path.toList) :
    parentNamespace path = "" := by
  rw [parentNamespace, rfind_eq_none.mpr h]

theorem parentNamespace_append {path : String} {before after : List Char}
    (hpath : path.toList = before ++ '/' :: after) (h : '/' ∉ after) :
    parentNamespace path = String.ofList before := by
  rw [parentNamespace, hpath, rfind_append '/' before h]
  simp only [takeBytes_append, Option.getD_some]
  cases before with
  | nil => rfl
  | cons c before =>
    have hpos : 0 < byteLen (c :: before) := by
      rw [byteLen_cons]
      exact Nat.add_pos_left c.utf8Size_pos _
    exact if_pos hpos

/-- A path has no slash, or a last one. -/
theorem exists_last_slash {l : List Char} (h : '/' ∈ l) :
    ∃ before after, l = before ++ '/' :: after ∧ '/' ∉ after := by
  obtain ⟨after, before, hl, hafter⟩ := List.eq_append_cons_of_mem (List.mem_reverse.mpr h)
  refine ⟨before.reverse, after.reverse, ?_, by simpa using hafter⟩
  rw [← List.reverse_reverse l, hl]
  simp

theorem length_parentNamespace_lt {path : String} (h : parentNamespace path ≠ path) :
    (parentNamespace path).length < path.length := by
  by_cases hslash : '/' ∈ path.toList
  · obtain ⟨before, after, hpath, hafter⟩ := exists_last_slash hslash
    rw [parentNamespace_append hpath hafter, String.length_ofList, ← String.length_toList, hpath]
    simp
  · rw [parentNamespace_of_notMem hslash] at h ⊢
    have hne : path.toList ≠ [] := fun hnil => h (String.toList_inj.mp (by rw [hnil]; rfl))
    rw [← String.length_toList, ← String.length_toList]
    exact List.length_pos_iff.mpr hne

/-- `a` is the path itself, what is before one of its slashes, or the empty path. -/
def AncestorPath (a path : String) : Prop :=
  a = path ∨ a = "" ∨ a ≠ "" ∧ ∃ rest, path.toList = a.toList ++ '/' :: rest

theorem AncestorPath.isPrefix {a path : String} (h : AncestorPath a path) :
    a.toList <+: path.toList := by
  rcases h with rfl | rfl | ⟨-, rest, hpath⟩
  · exact List.prefix_rfl
  · exact List.nil_prefix
  · exact ⟨'/' :: rest, hpath.symm⟩

theorem AncestorPath.length_le {a path : String} (h : AncestorPath a path) :
    a.length ≤ path.length := by
  rw [← String.length_toList, ← String.length_toList]
  exact h.isPrefix.length_le

theorem AncestorPath.eq_of_length {a b path : String} (ha : AncestorPath a path)
    (hb : AncestorPath b path) (hlen : a.length = b.length) : a = b := by
  rw [← String.length_toList, ← String.length_toList] at hlen
  have hprec := List.prefix_of_prefix_length_le ha.isPrefix hb.isPrefix hlen.le
  exact String.toList_inj.mp (hprec.eq_of_length hlen)

theorem ancestorPath_parentNamespace (path : String) : AncestorPath (parentNamespace path) path := by
  by_cases hslash : '/' ∈ path.toList
  · obtain ⟨before, after, hpath, hafter⟩ := exists_last_slash hslash
    rw [parentNamespace_append hpath hafter]
    by_cases hbefore : String.ofList before = ""
    · exact .inr (.inl hbefore)
    · exact .inr (.inr ⟨hbefore, after, by simpa using hpath⟩)
  · rw [parentNamespace_of_notMem hslash]
    exact .inr (.inl rfl)

/-- What is above a path is the path or above its parent. -/
theorem ancestorPath_iff {a path : String} :
    AncestorPath a path ↔ a = path ∨ AncestorPath a (parentNamespace path) := by
  constructor
  · rintro (rfl | rfl | ⟨hne, rest, hpath⟩)
    · exact .inl rfl
    · exact .inr (.inr (.inl rfl))
    · right
      have hslash : '/' ∈ path.toList := by rw [hpath]; simp
      obtain ⟨before, after, hlast, hafter⟩ := exists_last_slash hslash
      rw [parentNamespace_append hlast hafter]
      have hsplit := hpath.symm.trans hlast
      rcases List.append_eq_append_iff.mp hsplit with ⟨l, hbefore, hrest⟩ | ⟨l, ha, hrest⟩
      · cases l with
        | nil =>
          left
          rw [hbefore, List.append_nil, String.ofList_toList]
        | cons c l =>
          cases hrest
          exact .inr (.inr ⟨hne, l, by rw [String.toList_ofList, hbefore]⟩)
      · cases l with
        | nil =>
          left
          rw [List.append_nil] at ha
          rw [← ha, String.ofList_toList]
        | cons c l =>
          cases hrest
          simp at hafter
  · rintro (rfl | h)
    · exact .inl rfl
    · rcases h with rfl | rfl | ⟨hne, rest, hparent⟩
      · exact ancestorPath_parentNamespace path
      · exact .inr (.inl rfl)
      · rcases ancestorPath_parentNamespace path with heq | hnil | ⟨-, rest', hpath⟩
        · rw [heq] at hparent
          exact .inr (.inr ⟨hne, rest, hparent⟩)
        · rw [hnil] at hparent
          exact absurd hparent.symm (by simp)
        · refine .inr (.inr ⟨hne, rest ++ '/' :: rest', ?_⟩)
          rw [hpath, hparent, List.append_assoc, List.cons_append]

namespace NamespaceRegistry

/-- The closest registered namespace; the path gets shorter until it is empty. -/
def findNamespaceOrParent (r : NamespaceRegistry) (path : String) : Option NamespaceMetadata :=
  match r.namespaces.lookup path with
  | some metadata => some metadata
  | none =>
    if parentNamespace path = path then none else r.findNamespaceOrParent (parentNamespace path)
termination_by path.length
decreasing_by exact length_parentNamespace_lt ‹_›

def hasPermission (r : NamespaceRegistry) (user action path : String) : Bool :=
  match r.findNamespaceOrParent path with
  | some metadata =>
    if metadata.owner = user then true
    else
      match action with
      | "read" => true
      | "write" => metadata.owner = user
      | _ => false
  | none => false

/-- The longest registered path above `path`. -/
structure Nearest (r : NamespaceRegistry) (path nearest : String) : Prop where
  above : AncestorPath nearest path
  registered : nearest ∈ r.namespaces
  longest : ∀ a, AncestorPath a path → a ∈ r.namespaces → a.length ≤ nearest.length

theorem nearest_self {r : NamespaceRegistry} {path : String} (h : path ∈ r.namespaces) :
    r.Nearest path path := ⟨.inl rfl, h, fun _ ha _ => ha.length_le⟩

theorem nearest_parent_iff {r : NamespaceRegistry} {path : String} (h : path ∉ r.namespaces)
    (a : String) : r.Nearest (parentNamespace path) a ↔ r.Nearest path a := by
  have habove : ∀ b, b ∈ r.namespaces →
      (AncestorPath b (parentNamespace path) ↔ AncestorPath b path) := by
    intro b hb
    have hiff : AncestorPath b path ↔ b = path ∨ AncestorPath b (parentNamespace path) :=
      ancestorPath_iff
    rw [hiff]
    exact ⟨.inr, fun hor => hor.resolve_left fun heq => h (heq ▸ hb)⟩
  constructor
  · rintro ⟨ha, hmem, hlong⟩
    exact ⟨(habove a hmem).mp ha, hmem, fun b hb hreg => hlong b ((habove b hreg).mpr hb) hreg⟩
  · rintro ⟨ha, hmem, hlong⟩
    exact ⟨(habove a hmem).mpr ha, hmem, fun b hb hreg => hlong b ((habove b hreg).mp hb) hreg⟩

theorem Nearest.unique {r : NamespaceRegistry} {path a b : String} (ha : r.Nearest path a)
    (hb : r.Nearest path b) : a = b :=
  ha.above.eq_of_length hb.above
    ((hb.longest a ha.above ha.registered).antisymm (ha.longest b hb.above hb.registered))

/-- The empty path is its own parent, and the only one. -/
theorem eq_empty_of_parentNamespace_eq {path : String} (h : parentNamespace path = path) :
    path = "" := by
  by_cases hslash : '/' ∈ path.toList
  · obtain ⟨before, after, hpath, hafter⟩ := exists_last_slash hslash
    have hlen := congrArg List.length hpath
    rw [← h, parentNamespace_append hpath hafter, String.toList_ofList] at hlen
    simp at hlen
  · rw [← h, parentNamespace_of_notMem hslash]

theorem findNamespaceOrParent_cases (r : NamespaceRegistry) (path : String) :
    (∃ nearest metadata, r.Nearest path nearest ∧
        r.namespaces.lookup nearest = some metadata ∧
        r.findNamespaceOrParent path = some metadata) ∨
      (∀ a, AncestorPath a path → a ∉ r.namespaces) ∧ r.findNamespaceOrParent path = none := by
  induction path using findNamespaceOrParent.induct r with
  | case1 path metadata hlookup =>
    have hmem : path ∈ r.namespaces := Finmap.mem_of_lookup_eq_some hlookup
    refine .inl ⟨path, metadata, nearest_self hmem, hlookup, ?_⟩
    rw [findNamespaceOrParent, hlookup]
  | case2 path hlookup hroot =>
    have hnot : path ∉ r.namespaces := Finmap.lookup_eq_none.mp hlookup
    refine .inr ⟨?_, ?_⟩
    · obtain rfl := eq_empty_of_parentNamespace_eq hroot
      intro a ha
      have hnil := List.prefix_nil.mp ha.isPrefix
      rwa [String.toList_inj.mp (hnil.trans (by rfl : [] = "".toList))]
    · rw [findNamespaceOrParent, hlookup]
      exact if_pos hroot
  | case3 path hlookup hparent ih =>
    have hnot : path ∉ r.namespaces := Finmap.lookup_eq_none.mp hlookup
    have hfind : r.findNamespaceOrParent path =
        r.findNamespaceOrParent (parentNamespace path) := by
      rw [findNamespaceOrParent, hlookup]
      exact if_neg hparent
    rw [hfind]
    rcases ih with ⟨nearest, metadata, hnearest, hmetadata, heq⟩ | ⟨hall, heq⟩
    · exact .inl ⟨nearest, metadata, (nearest_parent_iff hnot nearest).mp hnearest, hmetadata, heq⟩
    · refine .inr ⟨fun a ha => ?_, heq⟩
      rcases ancestorPath_iff.mp ha with rfl | ha
      · exact hnot
      · exact hall a ha

theorem findNamespaceOrParent_eq_some {r : NamespaceRegistry} {path : String}
    {metadata : NamespaceMetadata} : r.findNamespaceOrParent path = some metadata ↔
      ∃ nearest, r.Nearest path nearest ∧ r.namespaces.lookup nearest = some metadata := by
  rcases r.findNamespaceOrParent_cases path with
    ⟨nearest, found, hnearest, hfound, heq⟩ | ⟨hall, heq⟩
  · rw [heq]
    constructor
    · intro h
      cases h
      exact ⟨nearest, hnearest, hfound⟩
    · rintro ⟨other, hother, hmetadata⟩
      rw [hnearest.unique hother, hmetadata] at hfound
      exact hfound.symm
  · rw [heq]
    refine iff_of_false nofun ?_
    rintro ⟨nearest, hnearest, -⟩
    exact hall nearest hnearest.above hnearest.registered

theorem hasPermission_write {r : NamespaceRegistry} {user path : String} :
    r.hasPermission user "write" path = true ↔
      ∃ metadata, r.findNamespaceOrParent path = some metadata ∧ metadata.owner = user := by
  unfold hasPermission
  cases r.findNamespaceOrParent path with
  | none => simp
  | some metadata =>
    by_cases howner : metadata.owner = user
    · simp [howner]
    · simp [howner]

theorem findNamespaceOrParent_nearest (r : NamespaceRegistry) (path : String) :
    (∀ metadata, r.findNamespaceOrParent path = some metadata ↔
        ∃ nearest, r.Nearest path nearest ∧ r.namespaces.lookup nearest = some metadata) ∧
      (r.findNamespaceOrParent path = none ↔ ∀ a, AncestorPath a path → a ∉ r.namespaces) ∧
      ∀ user, r.hasPermission user "write" path = true ↔
        ∃ nearest metadata, r.Nearest path nearest ∧
          r.namespaces.lookup nearest = some metadata ∧ metadata.owner = user := by
  refine ⟨fun metadata => findNamespaceOrParent_eq_some, ?_, fun user => ?_⟩
  · rcases r.findNamespaceOrParent_cases path with
      ⟨nearest, found, hnearest, -, heq⟩ | ⟨hall, heq⟩
    · rw [heq]
      exact iff_of_false nofun fun hall => hall nearest hnearest.above hnearest.registered
    · exact iff_of_true heq hall
  · rw [hasPermission_write]
    constructor
    · rintro ⟨metadata, hfind, howner⟩
      obtain ⟨nearest, hnearest, hmetadata⟩ := findNamespaceOrParent_eq_some.mp hfind
      exact ⟨nearest, metadata, hnearest, hmetadata, howner⟩
    · rintro ⟨nearest, metadata, hnearest, hmetadata, howner⟩
      exact ⟨metadata, findNamespaceOrParent_eq_some.mpr ⟨nearest, hnearest, hmetadata⟩, howner⟩

end NamespaceRegistry

end Covm
