import Covm.Partial.Runs
import Covm.Storage.History
import Covm.Storage.Opening

/-!
# The history of a key in files

The metadata file of a key lists its sets since it was created or last deleted, and every version
has a data file. Nothing else touches these files as long as no other key has its directory inside
or around the one of the key. But every version repeats the ones before it, and metadata with 126
versions is nested too deeply to be read again.
-/

namespace Covm

open Files Partial

namespace FileStorage

/-! ## Calls -/

/-- A call that may change what is stored. -/
inductive Call where
  | set (auth : Option AuthContext) (ns key : String) (value : ByteArray)
  | delete (auth : Option AuthContext) (ns key : String)

namespace Call

def ns : Call → String
  | set _ ns _ _ => ns
  | delete _ ns _ => ns

def key : Call → String
  | set _ _ key _ => key
  | delete _ _ key => key

def user : Call → String
  | set auth _ _ _ => EconomicOperations.userOf auth
  | delete auth _ _ => EconomicOperations.userOf auth

variable [SerdeMetadata]

def perform : Call → StorageM FileStorage Unit
  | set auth ns key value => FileStorage.set auth ns key value
  | delete auth ns key => FileStorage.delete auth ns key

/-- The storage after the call, whether it succeeded or not. -/
def after (c : Call) (s : FileStorage) : FileStorage := final (c.perform s)

end Call

/-! ## What a call leaves alone -/

/-- Neither of two places is in the other one. -/
def Separate (l m : Location) : Prop := ¬ l <+: m ∧ ¬ m <+: l

theorem Separate.not_concat {l m : Location} (h : Separate l m) {x : Location} (hx : m <+: x)
    (name : String) : x ≠ l ++ [name] := by
  rintro rfl
  obtain hml | heq := (List.prefix_concat_iff).mp hx |>.symm
  · exact h.2 hml
  · exact h.1 (heq ▸ List.prefix_append l [name])

theorem Separate.symm {l m : Location} (h : Separate l m) : Separate m l := ⟨h.2, h.1⟩

/-- A namespace whose directory is not among the keys of another one. -/
structure IsNamespace (ns : String) : Prop where
  plain : Path.IsPlain ns
  keys : "keys" ∉ (Path.components ns).tail

theorem isNamespace_of_isName {ns : String} (h : Path.IsName ns) : IsNamespace ns where
  plain := h.isPlain
  keys := by simp [Path.components_of_isName h]

/-- Two lists that meet first at an element that is in neither start. -/
theorem eq_of_append_cons_isPrefix {l l' x y : Location} {name : String} (hl : name ∉ l)
    (hl' : name ∉ l') (h : l ++ name :: x <+: l' ++ name :: y) : l = l' ∧ x <+: y := by
  induction l generalizing l' with
  | nil =>
    cases l' with
    | nil => exact ⟨rfl, (List.cons_prefix_cons.mp h).2⟩
    | cons a l' => exact absurd (List.cons_prefix_cons.mp h).1 fun heq => hl' (by simp [heq])
  | cons a l ih =>
    cases l' with
    | nil => exact absurd (List.cons_prefix_cons.mp h).1 fun heq => hl (by simp [heq])
    | cons b l' =>
      obtain ⟨rfl, htail⟩ := List.cons_prefix_cons.mp h
      obtain ⟨rfl, hxy⟩ := ih (fun hmem => hl (List.mem_cons_of_mem a hmem))
        (fun hmem => hl' (List.mem_cons_of_mem a hmem)) htail
      exact ⟨rfl, hxy⟩

/-- The keys of a namespace are in no other one. -/
theorem IsNamespace.eq_of_isPrefix {ns ns' : String} (hns : IsNamespace ns) (hns' : IsNamespace ns')
    {l l' : Location}
    (h : Path.components ns ++ "keys" :: l <+: Path.components ns' ++ "keys" :: l') :
    ns = ns' ∧ l <+: l' := by
  have hkeys := hns.keys
  have hkeys' := hns'.keys
  cases hcomponents : Path.components ns with
  | nil => exact absurd hcomponents (Path.components_ne_nil ns)
  | cons top rest =>
    cases hcomponents' : Path.components ns' with
    | nil => exact absurd hcomponents' (Path.components_ne_nil ns')
    | cons top' rest' =>
      rw [hcomponents] at hkeys
      rw [hcomponents'] at hkeys'
      rw [hcomponents, hcomponents'] at h
      obtain ⟨rfl, htail⟩ := List.cons_prefix_cons.mp h
      obtain ⟨rfl, hstarts⟩ := eq_of_append_cons_isPrefix hkeys hkeys' htail
      exact ⟨Path.components_injective (hcomponents.trans hcomponents'.symm), hstarts⟩

/-- Different flat keys have different directories, none inside another. -/
theorem separate_of_ne {ns ns' key key' : String} (hns : IsNamespace ns) (hns' : IsNamespace ns')
    (hkey : Path.IsName key) (hkey' : Path.IsName key') (hne : (ns, key) ≠ (ns', key')) :
    Separate (place ns key) (place ns' key') := by
  have hstarts : ∀ {ns ns' key key' : String}, IsNamespace ns → IsNamespace ns' →
      Path.IsName key → Path.IsName key' → place ns key <+: place ns' key' →
      (ns, key) = (ns', key') := by
    intro ns ns' key key' hns hns' hkey hkey' h
    rw [place, place, Path.components_of_isName hkey, Path.components_of_isName hkey'] at h
    obtain ⟨rfl, hkeys⟩ := hns.eq_of_isPrefix hns' h
    rw [(List.cons_prefix_cons.mp hkeys).1]
  exact ⟨fun h => hne (hstarts hns hns' hkey hkey' h),
    fun h => hne (hstarts hns' hns hkey' hkey h).symm⟩

/-- A call changes only what is below the directory of its key, and the way there. -/
structure Touches (l : Location) (s s' : FileStorage) : Prop where
  apart : Apart s s'
  data : ∀ m, Separate l m → ∀ x, m <+: x → s'.data x = s.data x

section
variable [SerdeMetadata] {s : FileStorage} {ns key : String} (h : Opened s) (hns : Path.IsPlain ns)
  (hkey : Path.IsPlain key) (auth : Option AuthContext)
include h hns hkey

theorem set_touches (value : ByteArray) :
    Touches (place ns key) s (final (set auth ns key value s)) := by
  have hmkdirs : ∀ m, Separate (place ns key) m → ∀ x, m <+: x →
      mkdirs (place ns key) s.data x = s.data x :=
    fun m hm x hx => mkdirs_of_not_isPrefix fun hstarts => hm.2 (hx.trans hstarts)
  have hmetadata : ∀ metadata m, Separate (place ns key) m → ∀ x, m <+: x →
      s.withMetadata ns key metadata x = s.data x := by
    intro metadata m hm x hx
    rw [withMetadata, Function.update_of_ne (hm.not_concat hx _), hmkdirs m hm x hx]
  have houtcome := set_outcome h hns hkey auth value
  generalize set auth ns key value s = r at houtcome
  cases houtcome with
  | refused => exact ⟨.refl s, fun _ _ _ _ => rfl⟩
  | blocked => exact ⟨.refl s, fun _ _ _ _ => rfl⟩
  | overdrawn f checks free h leaves =>
    exact ⟨leaves.apart, fun m hm x hx => (congrFun leaves.data x).trans (hmkdirs m hm x hx)⟩
  | unreadable e checks free fits file h leaves =>
    exact ⟨leaves.apart, fun _ _ x _ => congrFun leaves.data x⟩
  | exhausted metadata checks free fits read h leaves =>
    exact ⟨leaves.apart, fun _ _ x _ => congrFun leaves.data x⟩
  | halfStored e old time createdAt checks free fits read h leaves =>
    exact ⟨leaves.apart, fun m hm x hx => (congrFun leaves.data x).trans (hmetadata _ m hm x hx)⟩
  | stored old time createdAt checks free fits read number file leaves =>
    refine ⟨leaves.apart, fun m hm x hx => (congrFun leaves.data x).trans ?_⟩
    rw [Function.update_of_ne (hm.not_concat hx _), hmetadata _ m hm x hx]

theorem delete_touches : Touches (place ns key) s (final (delete auth ns key s)) := by
  have houtcome := delete_outcome h hns hkey auth
  generalize delete auth ns key s = r at houtcome
  cases houtcome with
  | refused => exact ⟨.refl s, fun _ _ _ _ => rfl⟩
  | missing => exact ⟨.refl s, fun _ _ _ _ => rfl⟩
  | deleted d v checks read leaves =>
    refine ⟨leaves.apart, fun m hm x hx => (congrFun leaves.data x).trans (if_neg ?_)⟩
    intro hstarts
    obtain hlm | hml := List.prefix_or_prefix_of_prefix hstarts hx
    · exact hm.1 hlm
    · exact hm.2 hml

end

theorem Call.touches [SerdeMetadata] {s : FileStorage} (h : Opened s) (c : Call) (hns : Path.IsPlain c.ns)
    (hkey : Path.IsPlain c.key) : Touches (place c.ns c.key) s (c.after s) := by
  cases c with
  | set auth ns key value => exact set_touches h hns hkey auth value
  | delete auth ns key => exact delete_touches h hns hkey auth

/-! ## The metadata of a list of sets -/

/-- The versions that a list of sets leaves, the oldest first. -/
inductive Chained : List VersionInfo → List Write → Prop
  | nil : Chained [] []
  | snoc {versions : List VersionInfo} {ws : List Write} (h : Chained versions ws) (w : Write)
      (time : Nat) :
    Chained (versions ++ [⟨ws.length + 1, w.user, time, versions.getLast?⟩]) (ws ++ [w])

namespace Chained

variable {versions : List VersionInfo} {ws : List Write}

theorem length_eq (h : Chained versions ws) : versions.length = ws.length := by
  induction h with
  | nil => rfl
  | snoc h w time ih => simp [ih]

theorem map_version (h : Chained versions ws) :
    versions.map (·.version) = List.range' 1 ws.length := by
  induction h with
  | nil => rfl
  | snoc h w time ih =>
    rw [List.map_append, ih, List.length_append, List.length_singleton, List.range'_concat,
      Nat.one_mul, Nat.add_comm 1]
    rfl

theorem map_user (h : Chained versions ws) :
    versions.map (·.createdBy) = ws.map (·.user) := by
  induction h with
  | nil => rfl
  | snoc h w time ih => simp [ih]

theorem nextNumber_eq (h : Chained versions ws) (metadata : KeyMetadata) :
    nextNumber (some { metadata with versions := versions }) = ws.length + 1 := by
  cases h with
  | nil => rfl
  | snoc h w time => simp [nextNumber]

/-- The newest version. -/
theorem getLast (h : Chained versions ws) (hne : ws ≠ []) :
    ∃ v, versions.getLast? = some v ∧ v.version = ws.length ∧
      v.createdBy = (ws.getLast hne).user := by
  cases h with
  | nil => exact absurd rfl hne
  | snoc h w time => exact ⟨_, List.getLast?_concat, by simp, by simp⟩

/-- Every version repeats the ones before it. -/
theorem chainLength_getLast (h : Chained versions ws) :
    versions.getLast?.elim 0 VersionInfo.chainLength = ws.length := by
  induction h with
  | nil => rfl
  | @snoc versions ws h w time ih =>
    rw [List.getLast?_concat, Option.elim_some, List.length_append, List.length_singleton, ← ih]
    cases versions.getLast? with
    | none => rfl
    | some last => rfl

theorem foldr_chainLength (h : Chained versions ws) :
    (versions.map VersionInfo.chainLength).foldr max 0 = ws.length := by
  induction h with
  | nil => rfl
  | @snoc versions ws h w time ih =>
    have hlast := (Chained.snoc h w time).chainLength_getLast
    rw [List.getLast?_concat, Option.elim_some] at hlast
    have hfold : ∀ (l : List Nat) (n : Nat), l.foldr max n = max (l.foldr max 0) n := by
      intro l n
      induction l with
      | nil => simp
      | cons a l ihl => rw [List.foldr_cons, List.foldr_cons, ihl, max_assoc]
    rw [List.map_append, List.foldr_append, List.map_singleton, hlast, hfold, ih,
      List.length_append, List.length_singleton]
    simp

/-- A version is found by its number. -/
theorem find_version (h : Chained versions ws) {i : Nat} (hpos : 1 ≤ i) :
    versions.find? (·.version == i) = versions[i - 1]? := by
  induction h with
  | nil => rfl
  | @snoc versions ws h w time ih =>
    rw [List.find?_append, ih, List.find?_singleton, List.getElem?_append, h.length_eq]
    by_cases hlt : i - 1 < ws.length
    · have hsome := List.getElem?_eq_getElem (h.length_eq.symm ▸ hlt)
      rw [if_pos hlt, hsome, Option.some_or]
    · rw [if_neg hlt, List.getElem?_eq_none (by rw [h.length_eq]; omega), Option.none_or,
        List.getElem?_singleton]
      congr 1
      simp only [beq_iff_eq, eq_iff_iff]
      omega

theorem find_zero (h : Chained versions ws) : versions.find? (·.version == 0) = none := by
  rw [List.find?_eq_none]
  intro v hv
  have hmem : v.version ∈ versions.map (·.version) := List.mem_map_of_mem hv
  rw [h.map_version, List.mem_range'_1] at hmem
  simp only [beq_iff_eq]
  omega

end Chained

/-- The directory of a key holds what a list of sets leaves there. -/
structure KeyHistory (tree : Location → Option (Node FileContent)) (place : Location)
    (ws : List Write) : Prop where
  metadata : tree (place ++ ["metadata.json"]) = none ∧ ws = [] ∨
    ∃ metadata, tree (place ++ ["metadata.json"]) = some (.file (.keyMetadata metadata)) ∧
      ws ≠ [] ∧ Chained metadata.versions ws
  values : ∀ i w, ws[i]? = some w →
    tree (place ++ [versionName (i + 1)]) = some (.file (.data w.value))
  files : ∀ name, tree (place ++ [name]) ≠ some .directory

namespace KeyHistory

variable {tree tree' : Location → Option (Node FileContent)} {place : Location} {ws : List Write}

theorem congr (h : KeyHistory tree place ws)
    (hsame : ∀ name, tree' (place ++ [name]) = tree (place ++ [name])) :
    KeyHistory tree' place ws where
  metadata := by
    rw [hsame]
    exact h.metadata
  values i w hw := (hsame _).trans (h.values i w hw)
  files name := by
    rw [hsame]
    exact h.files name

theorem of_vacant (h : ∀ name, tree (place ++ [name]) = none) : KeyHistory tree place [] where
  metadata := .inl ⟨h _, rfl⟩
  values i w hw := nomatch hw
  files name := by
    rw [h]
    exact fun hdir => nomatch hdir

/-- One more set. -/
theorem snoc (h : KeyHistory tree place ws) {old : Option KeyMetadata} (w : Write) (key : String)
    (time createdAt : Nat) (hnone : old = none → ws = [])
    (hsome : ∀ metadata, old = some metadata → Chained metadata.versions ws)
    (hmetadata : tree' (place ++ ["metadata.json"]) =
      some (.file (.keyMetadata (nextMetadata w.user key time createdAt old))))
    (hvalue : tree' (place ++ [versionName (ws.length + 1)]) = some (.file (.data w.value)))
    (hsame : ∀ name, name ≠ "metadata.json" → name ≠ versionName (ws.length + 1) →
      tree' (place ++ [name]) = tree (place ++ [name])) :
    KeyHistory tree' place (ws ++ [w]) where
  metadata := by
    refine .inr ⟨_, hmetadata, by simp, ?_⟩
    cases old with
    | none =>
      obtain rfl := hnone rfl
      exact .snoc .nil w time
    | some metadata =>
      have hchained := hsome metadata rfl
      have hnumber : nextNumber (some metadata) = ws.length + 1 := hchained.nextNumber_eq metadata
      rw [nextMetadata, hnumber]
      exact .snoc hchained w time
  values i w' hw' := by
    by_cases hi : i = ws.length
    · subst hi
      rw [List.getElem?_concat_length] at hw'
      rw [hvalue, Option.some.inj hw']
    · have hlt := (List.getElem?_eq_some_iff.mp hw').1
      rw [List.length_append, List.length_singleton] at hlt
      rw [List.getElem?_append_left (by omega)] at hw'
      rw [hsame _ (versionName_ne_metadata _)
        (fun heq => hi (Nat.succ_injective (versionName_injective heq)))]
      exact h.values i w' hw'
  files name := by
    by_cases hversion : name = versionName (ws.length + 1)
    · rw [hversion, hvalue]
      exact fun hdir => nomatch hdir
    · by_cases hname : name = "metadata.json"
      · rw [hname, hmetadata]
        exact fun hdir => nomatch hdir
      · rw [hsame name hname hversion]
        exact h.files name

end KeyHistory

section
variable [SerdeMetadata] {s : FileStorage} {ns key : String} {ws : List Write}

/-- Metadata of at most 125 versions can be read, and no other. -/
theorem KeyHistory.hasMetadata_cases (h : Opened s) (hns : Path.IsPlain ns)
    (hkey : Path.IsPlain key) (hws : KeyHistory s.data (place ns key) ws) :
    (HasMetadata s ns key none ∧ ws = []) ∨
    (∃ metadata, HasMetadata s ns key (some metadata) ∧ ws ≠ [] ∧ ws.length ≤ 125 ∧
      Chained metadata.versions ws) ∨
    ((∃ e, readKeyMetadata s ns key = .error (.serializationError "KeyMetadata" e)) ∧
      s.entry ns key "metadata.json" ≠ none ∧ 126 ≤ ws.length) := by
  obtain ⟨hnone, hempty⟩ | ⟨metadata, hfile, hne, hchained⟩ := hws.metadata
  · exact .inl ⟨(entry_of_plain h hns hkey _).trans hnone, hempty⟩
  right
  have hentry : s.entry ns key "metadata.json" = some (.file (.keyMetadata metadata)) :=
    (entry_of_plain h hns hkey _).trans hfile
  have hdepth : metadata.depth = 2 + ws.length := by
    rw [KeyMetadata.depth, hchained.foldr_chainLength]
  by_cases hlength : ws.length ≤ 125
  · refine .inl ⟨metadata, ?_, hne, hlength, hchained⟩
    rw [HasMetadata, readKeyMetadata_eq, hentry, metadataIn,
      SerdeMetadata.parse_shallow metadata (by omega)]
    rfl
  · refine .inr ⟨?_, by rw [hentry]; exact Option.some_ne_none _, by omega⟩
    obtain ⟨e, he⟩ := SerdeMetadata.parse_deep metadata (by omega)
    refine ⟨e, ?_⟩
    rw [readKeyMetadata_eq, hentry, metadataIn, he]
    rfl

/-- What the metadata says when it can be read. -/
theorem KeyHistory.of_hasMetadata (h : Opened s) (hns : Path.IsPlain ns) (hkey : Path.IsPlain key)
    (hws : KeyHistory s.data (place ns key) ws) {old : Option KeyMetadata}
    (hold : HasMetadata s ns key old) :
    (old = none → ws = []) ∧ (∀ metadata, old = some metadata → Chained metadata.versions ws) ∧
      nextNumber old = ws.length + 1 ∧ ws.length ≤ 125 := by
  obtain ⟨hnone, rfl⟩ | ⟨metadata, hread, hne, hlength, hchained⟩ | ⟨⟨e, hread⟩, hfile, -⟩ :=
    hws.hasMetadata_cases h hns hkey
  · cases old with
    | none => exact ⟨fun _ => rfl, by simp, rfl, Nat.zero_le _⟩
    | some metadata =>
      have hisSome := hold.isSome
      rw [hnone.isSome] at hisSome
      exact nomatch hisSome
  · cases old with
    | none =>
      have hisSome := hread.isSome
      rw [hold.isSome] at hisSome
      exact nomatch hisSome
    | some metadata' =>
      obtain rfl : metadata = metadata' := Except.ok.inj (hread.symm.trans hold)
      refine ⟨by simp, ?_, hchained.nextNumber_eq metadata, hlength⟩
      intro metadata' hsome
      rwa [← Option.some.inj hsome]
  · cases old with
    | none => exact absurd hold hfile
    | some metadata => exact nomatch hread.symm.trans hold

/-- A `set` of the key adds to its history iff it succeeds. -/
theorem KeyHistory.set (h : Opened s) (hns : Path.IsPlain ns) (hkey : Path.IsPlain key)
    (hws : KeyHistory s.data (place ns key) ws) (auth : Option AuthContext) (value : ByteArray) :
    KeyHistory (final (FileStorage.set auth ns key value s)).data (place ns key)
      (if succeeded (FileStorage.set auth ns key value s) then
        ws ++ [⟨EconomicOperations.userOf auth, value⟩]
      else ws) := by
  have houtcome := set_outcome h hns hkey auth value
  generalize FileStorage.set auth ns key value s = r at houtcome
  cases houtcome with
  | refused => exact hws
  | blocked => exact hws
  | overdrawn f checks free h leaves =>
    exact hws.congr fun name => (congrFun leaves.data _).trans (mkdirs_concat _ _ _)
  | unreadable e checks free fits file h leaves =>
    exact hws.congr fun name => congrFun leaves.data _
  | exhausted metadata checks free fits read h leaves =>
    exact hws.congr fun name => congrFun leaves.data _
  | halfStored e old time createdAt checks free fits read hdir leaves => exact absurd hdir (hws.files _)
  | stored old time createdAt checks free fits read number file leaves =>
    obtain ⟨hnone, hsome, hnumber, -⟩ := hws.of_hasMetadata h hns hkey read
    rw [hnumber] at leaves
    refine hws.snoc ⟨EconomicOperations.userOf auth, value⟩ key time createdAt hnone hsome ?_ ?_ ?_
    · rw [final_ok, leaves.data, Function.update_of_ne, withMetadata, Function.update_self]
      simpa using (versionName_ne_metadata _).symm
    · rw [final_ok, leaves.data, Function.update_self]
    · intro name hname hversion
      rw [final_ok, leaves.data, Function.update_of_ne (by simpa using hversion), withMetadata,
        Function.update_of_ne (by simpa using hname), mkdirs_concat]

/-- A `delete` of the key ends its history iff it succeeds. -/
theorem KeyHistory.delete (h : Opened s) (hns : Path.IsPlain ns) (hkey : Path.IsPlain key)
    (hws : KeyHistory s.data (place ns key) ws) (auth : Option AuthContext) :
    KeyHistory (final (FileStorage.delete auth ns key s)).data (place ns key)
      (if succeeded (FileStorage.delete auth ns key s) then [] else ws) := by
  have houtcome := delete_outcome h hns hkey auth
  generalize FileStorage.delete auth ns key s = r at houtcome
  cases houtcome with
  | refused => exact hws
  | missing => exact hws
  | deleted d v checks read leaves =>
    refine .of_vacant fun name => ?_
    rw [final_ok, leaves.data, removed, if_pos (List.prefix_append _ _)]

/-! ## Runs -/

/-- A call on the key itself, or on one whose directory is neither inside nor around that of the
key. -/
def Call.KeepsTo (ns key : String) (c : Call) : Prop :=
  Path.IsPlain c.ns ∧ Path.IsPlain c.key ∧
    ((c.ns, c.key) = (ns, key) ∨ Separate (place c.ns c.key) (place ns key))

/-- What a call does to the list of the successful sets of a key. -/
def writtenAfter (ns key : String) : Call → FileStorage → List Write → List Write
  | .set auth ns' key' value, s, ws =>
    if (ns', key') = (ns, key) then
      if succeeded (FileStorage.set auth ns' key' value s) then
        ws ++ [⟨EconomicOperations.userOf auth, value⟩]
      else ws
    else ws
  | .delete auth ns' key', s, ws =>
    if (ns', key') = (ns, key) then
      if succeeded (FileStorage.delete auth ns' key' s) then [] else ws
    else ws

/-- The successful sets of a key in a run, the oldest first, since the key was last deleted; `ws`
are those before the run. -/
def written (ns key : String) : List Call → FileStorage → List Write → List Write
  | [], _, ws => ws
  | c :: calls, s, ws => written ns key calls (c.after s) (writtenAfter ns key c s ws)

theorem KeyHistory.step (h : Opened s) (hws : KeyHistory s.data (place ns key) ws) {c : Call}
    (hc : c.KeepsTo ns key) :
    KeyHistory (c.after s).data (place ns key) (writtenAfter ns key c s ws) := by
  obtain ⟨hns, hkey, hown | hseparate⟩ := hc
  · cases c with
    | set auth ns' key' value =>
      have hsame : (ns', key') = (ns, key) := hown
      rw [writtenAfter, if_pos hsame]
      cases hsame
      exact hws.set h hns hkey auth value
    | delete auth ns' key' =>
      have hsame : (ns', key') = (ns, key) := hown
      rw [writtenAfter, if_pos hsame]
      cases hsame
      exact hws.delete h hns hkey auth
  · have hother : (c.ns, c.key) ≠ (ns, key) := by
      intro heq
      cases heq
      exact hseparate.1 (List.prefix_refl _)
    have hsame : writtenAfter ns key c s ws = ws := by
      cases c with
      | set auth ns' key' value => exact if_neg hother
      | delete auth ns' key' => exact if_neg hother
    rw [hsame]
    exact hws.congr fun name =>
      (c.touches h hns hkey).data _ hseparate _ (List.prefix_append _ _)

theorem KeyHistory.run (h : Opened s) (hws : KeyHistory s.data (place ns key) ws)
    {calls : List Call} (hcalls : ∀ c ∈ calls, c.KeepsTo ns key) :
    Opened (runAll Call.after calls s) ∧
      KeyHistory (runAll Call.after calls s).data (place ns key) (written ns key calls s ws) := by
  induction calls generalizing s ws with
  | nil => exact ⟨h, hws⟩
  | cons c calls ih =>
    have hc := hcalls c List.mem_cons_self
    exact ih (h.apart (c.touches h hc.1 hc.2.1).apart) (hws.step h hc)
      fun d hd => hcalls d (List.mem_cons_of_mem c hd)

/-! ## All flat keys -/

structure Call.Flat (c : Call) : Prop where
  ns : IsNamespace c.ns
  key : Path.IsName c.key

omit [SerdeMetadata] in
theorem Call.Flat.keepsTo {c : Call} (hc : c.Flat) (hns : IsNamespace ns) (hkey : Path.IsName key) :
    c.KeepsTo ns key := by
  refine ⟨hc.ns.plain, hc.key.isPlain, ?_⟩
  by_cases hown : (c.ns, c.key) = (ns, key)
  · exact .inl hown
  · exact .inr (separate_of_ne hc.ns hns hc.key hkey hown)

theorem Call.Flat.opened {c : Call} (hc : c.Flat) (h : Opened s) : Opened (c.after s) :=
  h.apart (c.touches h hc.ns.plain hc.key.isPlain).apart

/-- The directory of every flat key holds what a list of sets leaves there. -/
def Histories (s : FileStorage) : Prop :=
  ∀ ns key, IsNamespace ns → Path.IsName key → ∃ ws, KeyHistory s.data (place ns key) ws

theorem Histories.after (h : Opened s) (hs : s.Histories) {c : Call} (hc : c.Flat) :
    (c.after s).Histories := by
  intro ns key hns hkey
  obtain ⟨ws, hws⟩ := hs ns key hns hkey
  exact ⟨_, hws.step h (hc.keepsTo hns hkey)⟩

omit [SerdeMetadata] in
theorem Histories.of_vacant (h : ∀ ns key name, IsNamespace ns → Path.IsName key →
    s.data (place ns key ++ [name]) = none) : s.Histories :=
  fun ns key hns hkey => ⟨[], .of_vacant fun name => h ns key name hns hkey⟩

/-! ## What the readers return -/

omit [SerdeMetadata] in
theorem KeyHistory.namespaceExists (h : Opened s) (hns : Path.IsPlain ns)
    (hws : KeyHistory s.data (place ns key) ws) (hne : ws ≠ []) :
    s.namespaceExists ns = true := by
  obtain ⟨-, hempty⟩ | ⟨metadata, hfile, -⟩ := hws.metadata
  · exact absurd hempty hne
  · apply namespaceExists_of_data h hns (l := "keys" :: Path.components key ++ ["metadata.json"])
    rw [← List.append_assoc, ← place, hfile]
    exact Option.some_ne_none _

/-- The newest version and its value. -/
theorem KeyHistory.readLatest (h : Opened s) (hns : Path.IsPlain ns) (hkey : Path.IsPlain key)
    (hws : KeyHistory s.data (place ns key) ws) (hne : ws ≠ []) (hlength : ws.length ≤ 125)
    (missing : String) :
    ∃ v, FileStorage.readLatest s ns key missing = .ok ((ws.getLast hne).value, v) ∧
      v.version = ws.length := by
  obtain ⟨-, hempty⟩ | ⟨metadata, hread, -, -, hchained⟩ | ⟨-, -, hlong⟩ :=
    hws.hasMetadata_cases h hns hkey
  · exact absurd hempty hne
  · obtain ⟨v, hlast, hversion, -⟩ := hchained.getLast hne
    refine ⟨v, readLatest_eq_ok.mpr ⟨metadata, hread, hlast, ?_⟩, hversion⟩
    have hpos := List.length_pos_iff.mpr hne
    have hfile := hws.values (ws.length - 1) (ws.getLast hne)
      (by rw [List.getLast_eq_getElem, List.getElem?_eq_getElem])
    rw [Nat.sub_add_cancel hpos, ← entry_of_plain h hns hkey] at hfile
    rw [hversion, readVersionData_eq, hfile, versionIn, SerdeMetadata.bytes_data]
  · omega

theorem KeyHistory.stored (h : Opened s) (hns : Path.IsPlain ns) (hkey : Path.IsPlain key)
    (hws : KeyHistory s.data (place ns key) ws) :
    s.stored ns key = if ws.length ≤ 125 then ws.getLast?.map (·.value) else none := by
  have herror : ∀ {e}, readKeyMetadata s ns key = .error e → s.stored ns key = none := by
    intro e he
    have hlatest : FileStorage.readLatest s ns key "" = .error e := by
      rw [FileStorage.readLatest, he]
      rfl
    exact stored_of_error hlatest
  by_cases hne : ws = []
  · obtain ⟨hnone, -⟩ | ⟨metadata, -, hne', -⟩ | ⟨-, -, hlong⟩ := hws.hasMetadata_cases h hns hkey
    · rw [hne]
      refine herror (e := .notFound s!"{ns}:{key}") ?_
      rw [readKeyMetadata_eq, show s.entry ns key "metadata.json" = none from hnone]
      rfl
    · exact absurd hne hne'
    · simp [hne] at hlong
  · by_cases hlength : ws.length ≤ 125
    · obtain ⟨v, hread, -⟩ := hws.readLatest h hns hkey hne hlength ""
      rw [if_pos hlength, stored_of_ok hread, List.getLast?_eq_some_getLast hne]
      rfl
    · rw [if_neg hlength]
      obtain ⟨-, hempty⟩ | ⟨metadata, -, -, hshort, -⟩ | ⟨⟨e, he⟩, -⟩ :=
        hws.hasMetadata_cases h hns hkey
      · exact absurd hempty hne
      · exact absurd hshort hlength
      · exact herror he

/-- Every version of a key reads as it was written, there is no other one, and all are listed. -/
structure ReadsBack (s : FileStorage) (auth : Option AuthContext) (ns key : String)
    (ws : List Write) : Prop where
  getVersion : ∀ i w, 1 ≤ i → ws[i - 1]? = some w → ∃ info,
    answer (FileStorage.getVersion auth ns key i s) = .ok (w.value, info) ∧
      info.version = i ∧ info.createdBy = w.user
  missing : ∀ i, ¬ (1 ≤ i ∧ i ≤ ws.length) → ∃ text,
    answer (FileStorage.getVersion auth ns key i s) = .error (.error (.notFound text))
  listVersions : ∃ versions, answer (FileStorage.listVersions auth ns key s) = .ok versions ∧
    versions.map (·.version) = List.range' 1 ws.length ∧
    versions.map (·.createdBy) = ws.map (·.user)

section readers
variable {auth : Option AuthContext} (h : Opened s) (hns : Path.IsPlain ns)
  (hkey : Path.IsPlain key) (hws : KeyHistory s.data (place ns key) ws) (hne : ws ≠ [])
  (hauth : checkPermission auth "read" ns = .ok ())
include h hns hkey hws hne hauth

theorem KeyHistory.readsBack (hlength : ws.length ≤ 125) : ReadsBack s auth ns key ws := by
  obtain ⟨-, hempty⟩ | ⟨metadata, hread, -, -, hchained⟩ | ⟨-, -, hlong⟩ :=
    hws.hasMetadata_cases h hns hkey
  · exact absurd hempty hne
  swap
  · omega
  replace hread : readKeyMetadata s ns key = .ok metadata := hread
  have hchecked : checked s auth "read" ns s!"Namespace not found: {ns}" = .ok () :=
    checked_eq_ok.mpr ⟨hauth, hws.namespaceExists h hns hne⟩
  have hanswer : ∀ i, answer (FileStorage.getVersion auth ns key i s) =
      (readVersion s ns key i).mapError .error := by
    intro i
    rw [(getVersion_answer h.loggable auth ns key i).1, hchecked]
    rfl
  refine ⟨?_, ?_, metadata.versions, ?_, hchained.map_version, hchained.map_user⟩
  · intro i w hpos hw
    obtain ⟨info, hinfo⟩ : ∃ info, metadata.versions[i - 1]? = some info := by
      have hlt := (List.getElem?_eq_some_iff.mp hw).1
      rw [← hchained.length_eq] at hlt
      exact ⟨_, List.getElem?_eq_getElem hlt⟩
    have hversion := congrArg (·[i - 1]?) hchained.map_version
    have huser := congrArg (·[i - 1]?) hchained.map_user
    have hlt := (List.getElem?_eq_some_iff.mp hw).1
    simp only [List.getElem?_map, hinfo, hw, Option.map_some, List.getElem?_range' hlt,
      Option.some.injEq] at hversion huser
    have hvalue : readVersionData s ns key i = .ok w.value := by
      have hfile := hws.values (i - 1) w hw
      rw [Nat.sub_add_cancel hpos, ← entry_of_plain h hns hkey] at hfile
      rw [readVersionData_eq, hfile, versionIn, SerdeMetadata.bytes_data]
    refine ⟨info, ?_, by omega, huser⟩
    rw [hanswer, readVersion, hread]
    simp only [bind, Except.bind, hchained.find_version hpos, hinfo, hvalue]
    rfl
  · intro i hi
    have hnone : metadata.versions.find? (·.version == i) = none := by
      by_cases hpos : 1 ≤ i
      · rw [hchained.find_version hpos, List.getElem?_eq_none]
        rw [hchained.length_eq]
        omega
      · obtain rfl : i = 0 := by omega
        exact hchained.find_zero
    refine ⟨s!"{ns}:{key} (version {i})", ?_⟩
    rw [hanswer, readVersion, hread]
    simp only [bind, Except.bind, hnone]
    rfl
  · rw [(listVersions_answer h.loggable auth ns key).1, hchecked, hread]
    rfl

/-- Longer histories are not listed. -/
theorem KeyHistory.not_readsBack (hlength : 126 ≤ ws.length) : ¬ ReadsBack s auth ns key ws := by
  obtain ⟨-, hempty⟩ | ⟨metadata, -, -, hshort, -⟩ | ⟨⟨e, hread⟩, -, -⟩ :=
    hws.hasMetadata_cases h hns hkey
  · exact absurd hempty hne
  · omega
  intro hback
  obtain ⟨versions, hlist, -⟩ := hback.listVersions
  have hchecked : checked s auth "read" ns s!"Namespace not found: {ns}" = .ok () :=
    checked_eq_ok.mpr ⟨hauth, hws.namespaceExists h hns hne⟩
  rw [(listVersions_answer h.loggable auth ns key).1, hchecked, hread] at hlist
  exact nomatch hlist

end readers

/-- In a run from a state in which nothing is stored for a flat key, its versions read as they were
written iff it has been set at most 125 times since it was last deleted. -/
theorem readsBack_iff (h : Opened s) (hns : Path.IsPlain ns) (hkey : Path.IsName key)
    (hvacant : ∀ name, s.data (place ns key ++ [name]) = none) {calls : List Call}
    (hcalls : ∀ c ∈ calls, c.KeepsTo ns key) (hwritten : written ns key calls s [] = ws)
    (hne : ws ≠ []) {auth : Option AuthContext}
    (hauth : checkPermission auth "read" ns = .ok ()) :
    ReadsBack (runAll Call.after calls s) auth ns key ws ↔ ws.length ≤ 125 := by
  obtain ⟨hopened, hws⟩ := (KeyHistory.of_vacant hvacant).run h hcalls
  rw [hwritten] at hws
  constructor
  · intro hback
    by_contra hlong
    exact hws.not_readsBack hopened hns hkey.isPlain hne hauth (by omega) hback
  · exact hws.readsBack hopened hns hkey.isPlain hne hauth

/-! ## Setting a key over and over -/

/-- A `set` that is permitted and paid for succeeds on a key of at most 125 versions. -/
theorem KeyHistory.set_ok (h : Opened s) (hns : Path.IsPlain ns) (hkey : Path.IsPlain key)
    (hws : KeyHistory s.data (place ns key) ws) (hlength : ws.length ≤ 125)
    (auth : Option AuthContext) (value : ByteArray)
    (hchecked : checked s auth "write" ns s!"{ns}:{key}" = .ok ()) (hfree : s.Free (place ns key))
    (hfits : ¬ Overdrawn s.accountCache (EconomicOperations.userOf auth) (s.growth ns key value)) :
    succeeded (FileStorage.set auth ns key value s) = true ∧
      (final (FileStorage.set auth ns key value s)).data (place ns key) = some .directory := by
  have houtcome := set_outcome h hns hkey auth value
  generalize FileStorage.set auth ns key value s = r at houtcome
  cases houtcome with
  | refused e herror =>
    rw [hchecked] at herror
    exact nomatch herror
  | blocked e hblocked => exact absurd hfree hblocked
  | overdrawn f checks free hover leaves => exact absurd hover hfits
  | unreadable e checks free fits file herror leaves =>
    exfalso
    obtain ⟨hnone, -⟩ | ⟨metadata, hread, -⟩ | ⟨-, -, hlong⟩ := hws.hasMetadata_cases h hns hkey
    · exact file hnone
    · exact nomatch herror.symm.trans hread
    · omega
  | exhausted metadata checks free fits read hlarge leaves =>
    obtain ⟨-, -, hnumber, -⟩ :=
      hws.of_hasMetadata h hns hkey (show HasMetadata s ns key (some metadata) from read)
    omega
  | halfStored e old time createdAt checks free fits read hdir leaves => exact absurd hdir (hws.files _)
  | stored old time createdAt checks free fits read number file leaves =>
    refine ⟨rfl, ?_⟩
    rw [final_ok, leaves.data, Function.update_of_ne (by simp), withMetadata,
      Function.update_of_ne (by simp), mkdirs_self]

/-- The first `set` of a key by an administrator whose account has room for the value. -/
theorem set_first_ok (h : Opened s) (hns : Path.IsPlain ns) (hkey : Path.IsPlain key)
    (hexists : s.namespaceExists ns = true) (hvacant : ∀ name, s.data (place ns key ++ [name]) = none)
    (hfree : s.Free (place ns key)) (value : ByteArray) {account : FileResourceAccount}
    (hlookup : s.accountCache.lookup "admin" = some account)
    (hroom : account.usedBytes + value.size ≤ account.quotaBytes)
    (hquota : account.quotaBytes < 2 ^ 64) :
    succeeded (FileStorage.set (some InMemoryStorage.admin) ns key value s) = true ∧
      (final (FileStorage.set (some InMemoryStorage.admin) ns key value s)).data (place ns key) =
        some .directory := by
  refine (KeyHistory.of_vacant hvacant).set_ok h hns hkey (by simp) _ _
    (checked_eq_ok.mpr ⟨admin_permitted _ _, hexists⟩) hfree ?_
  rintro ⟨-, account', hlookup', hover⟩
  obtain rfl := Option.some.inj (hlookup.symm.trans hlookup')
  have hgrowth : s.growth ns key value ≤ value.size := Nat.sub_le _ _
  omega

/-- Empty values cost nothing: 126 sets succeed. -/
theorem written_replicate (h : Opened s) (hns : Path.IsPlain ns) (hkey : Path.IsPlain key)
    (hws : KeyHistory s.data (place ns key) ws) {auth : Option AuthContext}
    (hauth : checkPermission auth "write" ns = .ok ()) (hexists : s.namespaceExists ns = true)
    (hfree : s.Free (place ns key)) (n : Nat) (hlength : ws.length + n ≤ 126) :
    written ns key (List.replicate n (.set auth ns key ByteArray.empty)) s ws =
      ws ++ List.replicate n ⟨EconomicOperations.userOf auth, ByteArray.empty⟩ := by
  induction n generalizing s ws with
  | zero => simp [written]
  | succ n ih =>
    have hfits : ¬ Overdrawn s.accountCache (EconomicOperations.userOf auth)
        (s.growth ns key ByteArray.empty) := by
      intro hover
      have hpos := hover.1
      simp [growth] at hpos
    obtain ⟨hok, hdir⟩ := hws.set_ok h hns hkey (by omega) _ _
      (checked_eq_ok.mpr ⟨hauth, hexists⟩) hfree hfits
    have htouches := (Call.set auth ns key ByteArray.empty).touches h hns hkey
    have hnext := hws.step h (c := .set auth ns key ByteArray.empty) ⟨hns, hkey, .inl rfl⟩
    have hafter : writtenAfter ns key (.set auth ns key ByteArray.empty) s ws =
        ws ++ [⟨EconomicOperations.userOf auth, ByteArray.empty⟩] := by
      rw [writtenAfter, if_pos rfl, if_pos hok]
    rw [hafter] at hnext
    have hopened := h.apart htouches.apart
    rw [List.replicate_succ, written, hafter,
      ih hopened hnext (namespaceExists_of_data hopened hns (l := "keys" :: Path.components key) ?_)
        (free_of_directory hdir) (by simp; omega)]
    · simp [List.replicate_succ]
    · rw [← place, show (Call.after (.set auth ns key ByteArray.empty) s).data _ = _ from hdir]
      exact Option.some_ne_none _

end

/-! ## Keys of the governance code -/

theorem isNamespace_ns : IsNamespace "ns" := isNamespace_of_isName (by decide)

theorem components_proposal : Path.components "proposals/p" = ["proposals", "p"] := by
  decide

theorem components_vote :
    Path.components "proposals/p/votes/v" = ["proposals", "p", "votes", "v"] := by decide

theorem isPlain_proposal : Path.IsPlain "proposals/p" := by
  unfold Path.IsPlain
  rw [components_proposal]
  decide

theorem isPlain_vote : Path.IsPlain "proposals/p/votes/v" := by
  unfold Path.IsPlain
  rw [components_vote]
  decide

open InMemoryStorage (admin)

theorem readsBack_iff_seeded : letI := limitedJson
    ReadsBack (runAll Call.after [.set (some admin) "ns" "k" ByteArray.empty] seeded) (some admin)
      "ns" "k" [⟨"admin", ByteArray.empty⟩] ↔ 1 ≤ 125 := by
  let _ := limitedJson
  obtain ⟨-, hopened, -, hns, -⟩ := seeded_ok
  have hkey : Path.IsName "k" := by decide
  have hwritten := written_replicate hopened hns.plain hkey.isPlain
    (KeyHistory.of_vacant (hns.vacant "k")) (admin_permitted "write" "ns")
    hns.namespaceExists (hns.free "k") 1 (by decide)
  exact readsBack_iff hopened hns.plain hkey (hns.vacant "k")
    (by simpa using ⟨hns.plain, hkey.isPlain, .inl rfl⟩) hwritten (by simp) (admin_permitted _ _)

/-- After 126 sets the history cannot be read. -/
theorem not_readsBack_run :
    ¬ ∀ [SerdeMetadata] (s : FileStorage) (ns key : String) (calls : List Call)
      (auth : Option AuthContext), Opened s → Path.IsPlain ns → Path.IsName key →
      (∀ name, s.data (place ns key ++ [name]) = none) → (∀ c ∈ calls, c.KeepsTo ns key) →
      checkPermission auth "read" ns = .ok () → written ns key calls s [] ≠ [] →
      ReadsBack (runAll Call.after calls s) auth ns key (written ns key calls s []) := by
  intro hall
  let _ := limitedJson
  obtain ⟨-, hopened, -, hns, -⟩ := seeded_ok
  have hkey : Path.IsName "k" := by decide
  have hwritten := written_replicate hopened hns.plain hkey.isPlain
    (KeyHistory.of_vacant (hns.vacant "k")) (admin_permitted "write" "ns")
    hns.namespaceExists (hns.free "k") 126 (by decide)
  have hcalls : ∀ c ∈ List.replicate 126 (Call.set (some admin) "ns" "k" ByteArray.empty),
      c.KeepsTo "ns" "k" := by
    intro c hc
    rw [(List.mem_replicate.mp hc).2]
    exact ⟨hns.plain, hkey.isPlain, .inl rfl⟩
  obtain ⟨hafter, hws⟩ := (KeyHistory.of_vacant (hns.vacant "k")).run hopened hcalls
  have hback := hall seeded "ns" "k" _ (some admin) hopened hns.plain hkey
    (hns.vacant "k") hcalls (admin_permitted _ _) (by rw [hwritten]; simp)
  refine hws.not_readsBack hafter hns.plain hkey.isPlain ?_ (admin_permitted _ _) ?_ hback
  · rw [hwritten]
    simp
  · rw [hwritten]
    simp

end FileStorage

end Covm
