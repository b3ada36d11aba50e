import Covm.Storage.FileHistory

/-!
# Listing keys

`list_keys` lists the directories among the keys of a namespace. A key of several components has no
directory of its own there, but the one of its first component is listed; and a `set` makes the
directories before it is refused. So the list is exact as long as only keys of one component are
set, and no `set` is refused that would have to make a directory.
-/

namespace Covm

open Files Partial

/-! ## Trees of keys -/

section tree
variable {tree tree' : Location → Option (Node FileContent)} {key : String}

/-- All directories among the keys have metadata, and all metadata is in one of them. -/
structure Tidied (tree : Location → Option (Node FileContent)) : Prop where
  kept : ∀ name, tree [name] = some .directory → tree [name, "metadata.json"] ≠ none
  flat : ∀ key, Path.IsPlain key → tree (Path.components key ++ ["metadata.json"]) ≠ none →
    Path.IsName key

/-- The directories of a key can be made without being taken for keys: the one that is listed is
there, or has a directory for metadata, and no other one has. -/
def Unnoticed (tree : Location → Option (Node FileContent)) (key : String) : Prop :=
  (tree ((Path.components key).take 1) = some .directory ∨
    (Path.components key)[1]? = some "metadata.json") ∧
  "metadata.json" ∉ (Path.components key).drop 2

theorem Tidied.mkdirs_iff (h : Tidied tree) (hkey : Path.IsPlain key)
    (hparent : ∀ name name', tree [name, name'] ≠ none → tree [name] = some .directory) :
    Tidied (FileStorage.mkdirs (Path.components key) tree) ↔ Unnoticed tree key := by
  cases hcomponents : Path.components key with
  | nil => exact absurd hcomponents (Path.components_ne_nil key)
  | cons top rest =>
  have hnames : ∀ name ∈ top :: rest, Path.IsName name := hcomponents ▸ hkey
  rw [Unnoticed, hcomponents, List.take_succ_cons, List.take_zero, List.drop_succ_cons,
    List.getElem?_cons_succ]
  constructor
  · intro h'
    refine ⟨?_, fun hmem => ?_⟩
    · have hmetadata := h'.kept top (by simp [FileStorage.mkdirs])
      unfold FileStorage.mkdirs at hmetadata
      split at hmetadata
      · next hstarts =>
        right
        obtain ⟨-, hrest⟩ := List.cons_prefix_cons.mp hstarts
        obtain ⟨l, rfl⟩ := hrest
        rfl
      · exact .inl (hparent _ _ hmetadata)
    · -- the key whose metadata seems to be there
      obtain ⟨l, l', hdrop⟩ := List.append_of_mem hmem
      cases rest with
      | nil => simp at hmem
      | cons second rest =>
      rw [List.drop_one, List.tail_cons] at hdrop
      subst hdrop
      obtain ⟨k, hk⟩ := Path.exists_components (l := top :: second :: l) (by simp) (by
        intro name hname
        apply hnames
        simp only [List.mem_cons, List.mem_append] at hname ⊢
        tauto)
      have hplain : Path.IsPlain k := by
        intro name hname
        rw [hk] at hname
        apply hnames
        simp only [List.mem_cons, List.mem_append] at hname ⊢
        tauto
      have hisName := h'.flat k hplain (by
        rw [hk, FileStorage.mkdirs, if_pos]
        · exact Option.some_ne_none _
        · simp)
      have hlength := congrArg List.length (Path.components_of_isName hisName)
      rw [hk] at hlength
      simp at hlength
  · rintro ⟨htop, hrest⟩
    refine ⟨fun name hname => ?_, fun k hk hmetadata => ?_⟩
    · unfold FileStorage.mkdirs at hname ⊢
      split
      · exact Option.some_ne_none _
      · next hmetadata =>
        split at hname
        · next hstarts =>
          obtain ⟨rfl, -⟩ := List.cons_prefix_cons.mp hstarts
          obtain hdir | hsecond := htop
          · exact h.kept name hdir
          · exfalso
            apply hmetadata
            cases rest with
            | nil => simp at hsecond
            | cons second rest =>
              rw [Option.some.inj hsecond]
              simp
        · exact h.kept name hname
    · unfold FileStorage.mkdirs at hmetadata
      split at hmetadata
      · next hstarts =>
        apply hk.isName_of_length
        have hpos := List.length_pos_iff.mpr (Path.components_ne_nil k)
        by_contra hlength
        apply hrest
        obtain ⟨l, hl⟩ := hstarts
        have hdrop := congrArg (List.drop 2) hl
        rw [List.append_assoc, List.drop_append_of_le_length (by omega)] at hdrop
        rw [List.drop_succ_cons] at hdrop
        rw [← hdrop]
        simp
      · exact h.flat k hk hmetadata

/-- What a `set` of a flat key, or a `delete`, does. -/
theorem Tidied.of_name (h : Tidied tree) (key : String)
    (hown : tree' [key] = some .directory → tree' [key, "metadata.json"] ≠ none)
    (hother : ∀ l, l ≠ [] → ¬ [key] <+: l → tree' l = tree l)
    (hdeep : ∀ l, 3 ≤ l.length → tree' l ≠ none → tree l ≠ none) : Tidied tree' where
  kept name hname := by
    by_cases heq : name = key
    · rw [heq] at hname ⊢
      exact hown hname
    · rw [hother _ (by simp) (by simpa using Ne.symm heq)] at hname ⊢
      exact h.kept name hname
  flat k hk hmetadata := by
    have hpos := List.length_pos_iff.mpr (Path.components_ne_nil k)
    by_cases hlength : (Path.components k).length = 1
    · exact hk.isName_of_length hlength
    · apply h.flat k hk
      apply hdeep _ _ hmetadata
      rw [List.length_append, List.length_singleton]
      omega

/-- What a `set` of a flat key does. -/
theorem Tidied.of_set (h : Tidied tree) (hmetadata : tree' [key, "metadata.json"] ≠ none)
    (hsame : ∀ l, (∀ name, l ≠ [key, name]) → tree' l = FileStorage.mkdirs [key] tree l) :
    Tidied tree' := by
  refine h.of_name key (fun _ => hmetadata) (fun l hne hkey => ?_) (fun l hlength hl => ?_)
  · rw [hsame, FileStorage.mkdirs, if_neg]
    · intro hstarts
      obtain rfl | hnil := List.prefix_concat_iff.mp (show l <+: [] ++ [key] from hstarts)
      · exact hkey (List.prefix_refl _)
      · exact hne (List.prefix_nil.mp hnil)
    · rintro name rfl
      exact hkey (by simp)
  · rw [hsame, FileStorage.mkdirs, if_neg] at hl
    · exact hl
    · intro hstarts
      have hle := hstarts.length_le
      simp only [List.length_singleton] at hle
      omega
    · rintro name rfl
      simp at hlength

end tree

namespace FileStorage

/-! ## What is listed -/

/-- The keys that are there and start as asked for, each once. -/
def ListsExactly (s : FileStorage) : Prop :=
  ∀ ns auth start, IsNamespace ns →
    checked s auth "read" ns s!"Namespace not found: {ns}" = .ok () →
    ∃ keys s', listKeys auth ns start s = .ok keys s' ∧ keys.Nodup ∧
      ∀ k, k ∈ keys ↔ Path.IsPlain k ∧ contains s auth ns k = .ok true ∧
        (start.all fun text => text.toList <+: k.toList) = true

/-- The tree of the keys of a namespace. -/
def keyTree (s : FileStorage) (ns : String) (l : Location) : Option (Node FileContent) :=
  s.data (Path.components ns ++ "keys" :: l)

theorem keyTree_place (s : FileStorage) (ns key : String) (l : Location) :
    s.data (place ns key ++ l) = s.keyTree ns (Path.components key ++ l) := by
  simp [keyTree, place]

/-- Every namespace has a directory for its keys, if anything, and everything there is named. -/
def Named (s : FileStorage) : Prop :=
  ∀ ns, IsNamespace ns → (∀ content, s.keyTree ns [] ≠ some (.file content)) ∧
    ∀ name, s.keyTree ns [name] ≠ none → Path.IsName name

theorem keyTree_parent {s : FileStorage} {ns name name' : String}
    (h : s.keyTree ns [name, name'] ≠ none) : s.keyTree ns [name] = some .directory := by
  apply data_of_isPrefix h
  · rw [List.prefix_append_right_inj, List.cons_prefix_cons]
    simp
  · simp

theorem contains_eq_true {s : FileStorage} (h : Opened s) {ns key : String} (hns : Path.IsPlain ns)
    (hkey : Path.IsPlain key) {auth : Option AuthContext}
    (hauth : checkPermission auth "read" ns = .ok ()) :
    contains s auth ns key = .ok true ↔
      s.keyTree ns (Path.components key ++ ["metadata.json"]) ≠ none := by
  rw [contains_of_plain h hns hkey, hauth, keyTree_place, ← Option.isSome_iff_ne_none]
  simp [Except.map]

open InMemoryStorage (admin)

/-- Lists are exact iff all namespaces are tidy. -/
theorem listsExactly_iff {s : FileStorage} (h : Opened s) (hnamed : s.Named) :
    ListsExactly s ↔ ∀ ns, IsNamespace ns → Tidied (s.keyTree ns) := by
  have hanswer : ∀ {ns auth} start, IsNamespace ns →
      checked s auth "read" ns s!"Namespace not found: {ns}" = .ok () →
      ∃ keys s', listKeys auth ns start s = .ok keys s' ∧ Logged s s' ∧ keys.Nodup ∧
        ∀ k, k ∈ keys ↔ s.keyTree ns [k] = some .directory ∧
          (start.all fun text => text.toList <+: k.toList) = true := fun start hns hchecked =>
    listKeys_answer h hns.plain hchecked (hnamed _ hns).1 start
  constructor
  · intro hlists ns hns
    -- an administrator may list the keys of a namespace that has any
    have hlisted : ∀ l, s.keyTree ns l ≠ none → ∀ k, s.keyTree ns [k] = some .directory ↔
        Path.IsPlain k ∧ s.keyTree ns (Path.components k ++ ["metadata.json"]) ≠ none := by
      intro l hl k
      have hauth := admin_permitted "read" ns
      have hchecked : checked s (some admin) "read" ns s!"Namespace not found: {ns}" = .ok () :=
        checked_eq_ok.mpr ⟨hauth, namespaceExists_of_data h hns.plain hl⟩
      obtain ⟨keys, s', hrun, -, hmem⟩ := hlists ns (some admin) none hns hchecked
      obtain ⟨keys', s'', hrun', -, -, hmem'⟩ := hanswer none hns hchecked
      obtain ⟨rfl, -⟩ := EStateM.Result.ok.inj (hrun.symm.trans hrun')
      have hiff := (hmem' k).symm.trans (hmem k)
      simp only [Option.all_none, and_true] at hiff
      rw [hiff]
      constructor
      · rintro ⟨hk, hcontains⟩
        exact ⟨hk, (contains_eq_true h hns.plain hk hauth).mp hcontains⟩
      · rintro ⟨hk, hmetadata⟩
        exact ⟨hk, (contains_eq_true h hns.plain hk hauth).mpr hmetadata⟩
    refine ⟨fun name hname => ?_, fun k hk hmetadata => ?_⟩
    · have hisName := (hnamed ns hns).2 name (by rw [hname]; exact Option.some_ne_none _)
      have hmetadata := ((hlisted [name] (by simp [hname]) name).mp hname).2
      rwa [Path.components_of_isName hisName] at hmetadata
    · have hdir := (hlisted _ hmetadata k).mpr ⟨hk, hmetadata⟩
      exact (hnamed ns hns).2 k (by simp [hdir])
  · intro htidied ns auth start hns hchecked
    obtain ⟨keys, s', hrun, -, hnodup, hmem⟩ := hanswer start hns hchecked
    refine ⟨keys, s', hrun, hnodup, fun k => ?_⟩
    have hauth := (checked_eq_ok.mp hchecked).1
    rw [hmem]
    constructor
    · rintro ⟨hdir, hstart⟩
      have hisName := (hnamed ns hns).2 k (by simp [hdir])
      refine ⟨hisName.isPlain, (contains_eq_true h hns.plain hisName.isPlain hauth).mpr ?_, hstart⟩
      rw [Path.components_of_isName hisName]
      exact (htidied ns hns).kept k hdir
    · rintro ⟨hk, hcontains, hstart⟩
      have hmetadata := (contains_eq_true h hns.plain hk hauth).mp hcontains
      have hisName := (htidied ns hns).flat k hk hmetadata
      rw [Path.components_of_isName hisName] at hmetadata
      exact ⟨keyTree_parent hmetadata, hstart⟩

/-! ## Calls -/

/-- A `set` that is refused for its quota makes no directory that looks like a key, and every other
`set` is of a key with one component. -/
def Tidy [SerdeMetadata] : Call → FileStorage → Prop
  | .set auth ns key value, s =>
    checked s auth "write" ns s!"{ns}:{key}" = .ok () → s.Free (place ns key) →
      (Overdrawn s.accountCache (EconomicOperations.userOf auth) (s.growth ns key value) →
        Unnoticed (s.keyTree ns) key) ∧
      (¬ Overdrawn s.accountCache (EconomicOperations.userOf auth) (s.growth ns key value) →
        Path.IsName key)
  | .delete _ _ _, _ => True

theorem mkdirs_place {ns key : String} (tree : Location → Option (Node FileContent)) :
    (fun l => mkdirs (place ns key) tree (Path.components ns ++ "keys" :: l)) =
      mkdirs (Path.components key) fun l => tree (Path.components ns ++ "keys" :: l) := by
  funext l
  apply if_congr _ rfl rfl
  rw [place, List.prefix_append_right_inj, List.cons_prefix_cons]
  simp

theorem update_place {ns key name : String} (tree : Location → Option (Node FileContent))
    (n : Option (Node FileContent)) :
    (fun l => Function.update tree (place ns key ++ [name]) n (Path.components ns ++ "keys" :: l)) =
      Function.update (fun l => tree (Path.components ns ++ "keys" :: l))
        (Path.components key ++ [name]) n := by
  funext l
  by_cases hl : l = Path.components key ++ [name]
  · subst hl
    rw [Function.update_self, place, List.append_assoc, List.cons_append, Function.update_self]
  · rw [Function.update_of_ne hl, Function.update_of_ne]
    rw [place, List.append_assoc, List.cons_append]
    intro heq
    exact hl (List.cons.inj (List.append_cancel_left heq)).2

section
variable [SerdeMetadata] {s : FileStorage}

/-- The keys of other namespaces are left alone. -/
theorem keyTree_other (h : Opened s) {c : Call} (hc : IsNamespace c.ns) (hkey : Path.IsPlain c.key)
    {ns : String} (hns : IsNamespace ns) (hne : ns ≠ c.ns) :
    (c.after s).keyTree ns = s.keyTree ns := by
  have hseparate : Separate (place c.ns c.key) (Path.components ns ++ ["keys"]) := by
    refine ⟨fun hstarts => hne ?_, fun hstarts => hne ?_⟩
    · exact (hc.eq_of_isPrefix hns hstarts).1.symm
    · exact (hns.eq_of_isPrefix hc hstarts).1
  funext l
  apply (c.touches h hc.plain hkey).data _ hseparate
  rw [List.prefix_append_right_inj, List.cons_prefix_cons]
  simp

omit [SerdeMetadata] in
/-- The tree of keys after a `set` has written metadata. -/
theorem keyTree_withMetadata (s : FileStorage) (ns key : String) (metadata : KeyMetadata) :
    (fun l => s.withMetadata ns key metadata (Path.components ns ++ "keys" :: l)) =
      Function.update (mkdirs (Path.components key) (s.keyTree ns))
        (Path.components key ++ ["metadata.json"]) (some (.file (.keyMetadata metadata))) :=
  (update_place _ _).trans (congrArg (Function.update · _ _) (mkdirs_place s.data))

/-- A `set` that writes is of a flat key iff the namespace stays tidy. -/
theorem tidied_written_iff {s' : FileStorage} {ns key : String} (hkey : Path.IsPlain key)
    {auth : Option AuthContext} {value : ByteArray} (htidied : Tidied (s.keyTree ns))
    (checks : checked s auth "write" ns s!"{ns}:{key}" = .ok ()) (free : s.Free (place ns key))
    (fits : ¬ Overdrawn s.accountCache (EconomicOperations.userOf auth) (s.growth ns key value))
    (hmetadata : s'.keyTree ns (Path.components key ++ ["metadata.json"]) ≠ none)
    (hsame : ∀ l, (∀ name, l ≠ Path.components key ++ [name]) →
      s'.keyTree ns l = mkdirs (Path.components key) (s.keyTree ns) l) :
    Tidied (s'.keyTree ns) ↔ Tidy (.set auth ns key value) s := by
  constructor
  · intro htidied' _ _
    exact ⟨fun hover => absurd hover fits, fun _ => htidied'.flat key hkey hmetadata⟩
  · intro htidy
    have hname := (htidy checks free).2 fits
    rw [Path.components_of_isName hname] at hmetadata hsame
    exact htidied.of_set hmetadata hsame

theorem tidied_set_iff (h : Opened s) {ns key : String} (hns : IsNamespace ns)
    (hkey : Path.IsPlain key) (auth : Option AuthContext) (value : ByteArray)
    (htidied : Tidied (s.keyTree ns)) :
    Tidied ((final (set auth ns key value s)).keyTree ns) ↔ Tidy (.set auth ns key value) s := by
  have houtcome := set_outcome h hns.plain hkey auth value
  have hnone : ¬ Path.IsName key → s.entry ns key "metadata.json" = none := by
    intro hname
    rw [entry_of_plain h hns.plain hkey, keyTree_place]
    by_contra hne
    exact hname (htidied.flat key hkey hne)
  have hwritten : ∀ {s' : FileStorage} {n : Node FileContent},
      s'.keyTree ns (Path.components key ++ ["metadata.json"]) = some n →
      Tidied (s'.keyTree ns) → Path.IsName key := by
    intro s' n hn htidied'
    exact htidied'.flat key hkey (by rw [hn]; exact Option.some_ne_none _)
  generalize set auth ns key value s = r at houtcome
  cases houtcome with
  | refused e herror =>
    refine iff_of_true htidied fun hchecked => ?_
    rw [hchecked] at herror
    exact nomatch herror
  | blocked e hblocked => exact iff_of_true htidied fun _ hfree => absurd hfree hblocked
  | @overdrawn f s' checks free hover leaves =>
    have htree : s'.keyTree ns = mkdirs (Path.components key) (s.keyTree ns) := by
      funext l
      rw [keyTree, leaves.data]
      exact congrFun (mkdirs_place s.data) l
    rw [final_error, htree, htidied.mkdirs_iff hkey fun _ _ => keyTree_parent]
    constructor
    · intro hunnoticed _ _
      exact ⟨fun _ => hunnoticed, fun hfits => absurd hover hfits⟩
    · intro htidy
      exact (htidy checks free).1 hover
  | @unreadable e s' checks free fits file herror leaves =>
    have htree : s'.keyTree ns = s.keyTree ns := by
      funext l
      rw [keyTree, leaves.data, keyTree]
    rw [final_error, htree]
    refine iff_of_true htidied fun _ _ => ⟨fun hover => absurd hover fits, fun _ => ?_⟩
    by_contra hname
    exact file (hnone hname)
  | @exhausted metadata s' checks free fits read hlarge leaves =>
    have htree : s'.keyTree ns = s.keyTree ns := by
      funext l
      rw [keyTree, leaves.data, keyTree]
    rw [final_error, htree]
    refine iff_of_true htidied fun _ _ => ⟨fun hover => absurd hover fits, fun _ => ?_⟩
    by_contra hname
    have hsome := HasMetadata.isSome (show HasMetadata s ns key (some metadata) from read)
    rw [hnone hname] at hsome
    exact nomatch hsome
  | @halfStored e old time createdAt s' checks free fits read hdir leaves =>
    have htree : s'.keyTree ns = Function.update (mkdirs (Path.components key) (s.keyTree ns))
        (Path.components key ++ ["metadata.json"]) (some (.file (.keyMetadata
          (nextMetadata (EconomicOperations.userOf auth) key time createdAt old)))) := by
      rw [← keyTree_withMetadata]
      funext l
      rw [keyTree, leaves.data]
    rw [final_error]
    apply tidied_written_iff hkey htidied checks free fits
    · rw [htree, Function.update_self]
      exact Option.some_ne_none _
    · intro l hl
      rw [htree, Function.update_of_ne (hl _)]
  | @stored old time createdAt s' checks free fits read number file leaves =>
    have htree : s'.keyTree ns = Function.update (Function.update
        (mkdirs (Path.components key) (s.keyTree ns)) (Path.components key ++ ["metadata.json"])
          (some (.file (.keyMetadata
            (nextMetadata (EconomicOperations.userOf auth) key time createdAt old)))))
        (Path.components key ++ [versionName (nextNumber old)]) (some (.file (.data value))) := by
      rw [← keyTree_withMetadata, ← update_place]
      funext l
      rw [keyTree, leaves.data]
    rw [final_ok]
    apply tidied_written_iff hkey htidied checks free fits
    · rw [htree, Function.update_of_ne (by simpa using (versionName_ne_metadata _).symm),
        Function.update_self]
      exact Option.some_ne_none _
    · intro l hl
      rw [htree, Function.update_of_ne (hl _), Function.update_of_ne (hl _)]

/-- Deleting leaves no directory behind, as only flat keys can be deleted. -/
theorem tidied_delete (h : Opened s) {ns key : String} (hns : IsNamespace ns)
    (hkey : Path.IsPlain key) (auth : Option AuthContext) (htidied : Tidied (s.keyTree ns)) :
    Tidied ((final (delete auth ns key s)).keyTree ns) := by
  have houtcome := delete_outcome h hns.plain hkey auth
  generalize delete auth ns key s = r at houtcome
  cases houtcome with
  | refused => exact htidied
  | missing => exact htidied
  | @deleted d v s' checks read leaves =>
    obtain ⟨metadata, hmetadata, -⟩ := readLatest_eq_ok.mp read
    have hsome := HasMetadata.isSome (show HasMetadata s ns key (some metadata) from hmetadata)
    rw [entry_of_plain h hns.plain hkey, keyTree_place, Option.isSome_some,
      Option.isSome_iff_ne_none] at hsome
    have hname := htidied.flat key hkey hsome
    have htree : s'.keyTree ns = removed [key] (s.keyTree ns) := by
      funext l
      rw [keyTree, leaves.data]
      apply if_congr _ rfl rfl
      rw [place, List.prefix_append_right_inj, List.cons_prefix_cons,
        Path.components_of_isName hname]
      simp
    rw [final_ok, htree]
    refine htidied.of_name key (fun hdir => ?_) (fun l _ hl => if_neg hl) (fun l _ hl => ?_)
    · rw [removed, if_pos (List.prefix_refl _)] at hdir
      simp at hdir
    · unfold removed at hl
      split at hl
      · exact absurd rfl hl
      · exact hl

/-- How a call may change the directory of the keys and the names in it. -/
def Short (key : String) (s s' : FileStorage) (ns : String) : Prop :=
  ∀ l, l.length ≤ 1 → s'.keyTree ns l = s.keyTree ns l ∨ s'.keyTree ns l = none ∨
    (s'.keyTree ns l = some .directory ∧ l <+: Path.components key)

theorem set_short (h : Opened s) {ns key : String} (hns : Path.IsPlain ns)
    (hkey : Path.IsPlain key) (auth : Option AuthContext) (value : ByteArray) :
    Short key s (final (set auth ns key value s)) ns := by
  intro l hl
  have hfile : ∀ {name : String}, Path.components ns ++ "keys" :: l ≠ place ns key ++ [name] := by
    intro name heq
    have hpos := List.length_pos_iff.mpr (Path.components_ne_nil key)
    have hlength := congrArg List.length heq
    simp only [place, List.length_append, List.length_cons, List.length_nil] at hlength
    omega
  have hmkdirs : mkdirs (place ns key) s.data (Path.components ns ++ "keys" :: l) =
      mkdirs (Path.components key) (s.keyTree ns) l := congrFun (mkdirs_place s.data) l
  have hmade : mkdirs (Path.components key) (s.keyTree ns) l = s.keyTree ns l ∨
      mkdirs (Path.components key) (s.keyTree ns) l = none ∨
      (mkdirs (Path.components key) (s.keyTree ns) l = some .directory ∧
        l <+: Path.components key) := by
    unfold mkdirs
    split
    · next hstarts => exact .inr (.inr ⟨rfl, hstarts⟩)
    · exact .inl rfl
  have houtcome := set_outcome h hns hkey auth value
  generalize set auth ns key value s = r at houtcome
  cases houtcome with
  | refused => exact .inl rfl
  | blocked => exact .inl rfl
  | overdrawn f checks free hover leaves =>
    rwa [final_error, keyTree, leaves.data, hmkdirs]
  | unreadable e checks free fits file herror leaves => exact .inl (congrFun leaves.data _)
  | exhausted metadata checks free fits read hlarge leaves => exact .inl (congrFun leaves.data _)
  | halfStored e old time createdAt checks free fits read hdir leaves =>
    rwa [final_error, keyTree, leaves.data, withMetadata, Function.update_of_ne hfile, hmkdirs]
  | stored old time createdAt checks free fits read number file leaves =>
    rwa [final_ok, keyTree, leaves.data, Function.update_of_ne hfile, withMetadata,
      Function.update_of_ne hfile, hmkdirs]

theorem delete_short (h : Opened s) {ns key : String} (hns : Path.IsPlain ns)
    (hkey : Path.IsPlain key) (auth : Option AuthContext) :
    Short key s (final (delete auth ns key s)) ns := by
  intro l _
  have houtcome := delete_outcome h hns hkey auth
  generalize delete auth ns key s = r at houtcome
  cases houtcome with
  | refused => exact .inl rfl
  | missing => exact .inl rfl
  | deleted d v checks read leaves =>
    rw [final_ok, keyTree, leaves.data, removed]
    split
    · exact .inr (.inl rfl)
    · exact .inl rfl

theorem Call.short (h : Opened s) (c : Call) (hns : Path.IsPlain c.ns)
    (hkey : Path.IsPlain c.key) : Short c.key s (c.after s) c.ns := by
  cases c with
  | set auth ns key value => exact set_short h hns hkey auth value
  | delete auth ns key => exact delete_short h hns hkey auth

theorem Named.after (h : Opened s) (hnamed : s.Named) {c : Call} (hc : IsNamespace c.ns)
    (hkey : Path.IsPlain c.key) : (c.after s).Named := by
  intro ns hns
  by_cases hown : ns = c.ns
  · subst hown
    obtain ⟨hfile, hnames⟩ := hnamed _ hns
    refine ⟨fun content => ?_, fun name hname => ?_⟩
    · obtain hsame | hnone | ⟨hdir, -⟩ := c.short h hc.plain hkey [] (by simp)
      · rw [hsame]
        exact hfile content
      · simp [hnone]
      · simp [hdir]
    · obtain hsame | hnone | ⟨-, hstarts⟩ := c.short h hc.plain hkey [name] (by simp)
      · exact hnames name (hsame ▸ hname)
      · exact absurd hnone hname
      · exact hkey name (hstarts.subset (List.mem_singleton_self name))
  · rw [keyTree_other h hc hkey hns hown]
    exact hnamed ns hns

theorem listsExactly_after (h : Opened s) (hnamed : s.Named) {c : Call} (hc : IsNamespace c.ns)
    (hkey : Path.IsPlain c.key) (hlists : ListsExactly s) :
    ListsExactly (c.after s) ↔ Tidy c s := by
  have htidied := (listsExactly_iff h hnamed).mp hlists
  have hopened : Opened (c.after s) := h.apart (c.touches h hc.plain hkey).apart
  rw [listsExactly_iff hopened (hnamed.after h hc hkey)]
  have hown : Tidied ((c.after s).keyTree c.ns) ↔ Tidy c s := by
    cases c with
    | set auth ns key value => exact tidied_set_iff h hc hkey auth value (htidied _ hc)
    | delete auth ns key =>
      exact iff_of_true (tidied_delete h hc hkey auth (htidied _ hc)) trivial
  rw [← hown]
  constructor
  · intro hall
    exact hall _ hc
  · intro htidied' ns hns
    by_cases heq : ns = c.ns
    · rw [heq]
      exact htidied'
    · rw [keyTree_other h hc hkey hns heq]
      exact htidied ns hns

/-- In a run with keys of ordinary components the lists are exact all along iff every `set` is
tidy. -/
theorem listsExactly_iff_tidy (h : Opened s) (hnamed : s.Named) (hlists : ListsExactly s)
    {calls : List Call} (hcalls : ∀ c ∈ calls, IsNamespace c.ns ∧ Path.IsPlain c.key) :
    (∀ calls', calls' <+: calls → ListsExactly (runAll Call.after calls' s)) ↔
      Meets Call.after Tidy calls s := by
  refine forall_prefix_iff_meets (I := ListsExactly) (J := fun s => Opened s ∧ s.Named) ?_ ?_ hcalls
    ⟨h, hnamed⟩ hlists
  · rintro c s ⟨hc, hkey⟩ ⟨h, hnamed⟩
    exact ⟨h.apart (c.touches h hc.plain hkey).apart, hnamed.after h hc hkey⟩
  · rintro c s ⟨hc, hkey⟩ ⟨h, hnamed⟩ hlists
    exact listsExactly_after h hnamed hc hkey hlists

end

/-- Without keys everything is tidy. -/
theorem listsExactly_of_empty {s : FileStorage} (h : Opened s)
    (hfile : ∀ ns content, IsNamespace ns → s.keyTree ns [] ≠ some (.file content))
    (hempty : ∀ ns l, IsNamespace ns → l ≠ [] → s.keyTree ns l = none) :
    s.Named ∧ ListsExactly s := by
  have hnamed : s.Named := fun ns hns =>
    ⟨fun content => hfile ns content hns, fun name hname => absurd (hempty ns _ hns (by simp)) hname⟩
  refine ⟨hnamed, (listsExactly_iff h hnamed).mpr fun ns hns => ⟨fun name hname => ?_, ?_⟩⟩
  · rw [hempty ns [name] hns (by simp)] at hname
    exact nomatch hname
  · intro key _ hmetadata
    exact absurd (hempty ns _ hns (by simp)) hmetadata

theorem seeded_lists : seeded.Named ∧ ListsExactly seeded := by
  obtain ⟨-, hopened, -, -, hdata, -⟩ := seeded_ok
  refine listsExactly_of_empty hopened (fun ns content hns hfile => ?_) fun ns l hns hne => ?_
  · obtain ⟨-, hdir | ⟨hplace, -⟩⟩ := hdata _ _ hfile
    · exact nomatch hdir
    · exact absurd (List.append_inj_right' (show _ ++ ["keys"] = ["ns"] ++ _ from hplace) rfl)
        (by decide)
  · by_contra hnone
    obtain ⟨n, hn⟩ := Option.ne_none_iff_exists'.mp hnone
    have hlength := (hdata _ n hn).1
    have hpos := List.length_pos_iff.mpr (Path.components_ne_nil ns)
    have hpos' := List.length_pos_iff.mpr hne
    simp only [List.length_append, List.length_cons] at hlength
    omega

theorem seeded_not_overdrawn {value : ByteArray} (hsize : value.size ≤ 1000) (ns key : String) :
    letI := limitedJson
    ¬ Overdrawn seeded.accountCache (EconomicOperations.userOf (some admin))
      (seeded.growth ns key value) := by
  let _ := limitedJson
  obtain ⟨-, -, -, -, -, account, hlookup, hused, hquota⟩ := seeded_ok
  rintro ⟨-, account', hlookup', hover⟩
  obtain rfl := Option.some.inj (hlookup.symm.trans hlookup')
  have hgrowth : seeded.growth ns key value ≤ value.size := Nat.sub_le _ _
  omega

/-- A key of one component is listed, and no longer when it is deleted. -/
theorem listsExactly_iff_tidy_seeded : letI := limitedJson
    ListsExactly (runAll Call.after [.set (some admin) "ns" "k" "abc".toUTF8] seeded) ∧
      ListsExactly (runAll Call.after [.set (some admin) "ns" "k" "abc".toUTF8,
        .delete (some admin) "ns" "k"] seeded) := by
  let _ := limitedJson
  have hkey : Path.IsName "k" := by decide
  have hsize : "abc".toUTF8.size ≤ 1000 := by decide
  have hflat : ∀ c ∈ [Call.set (some admin) "ns" "k" "abc".toUTF8, .delete (some admin) "ns" "k"],
      IsNamespace c.ns ∧ Path.IsPlain c.key := by
    simpa using ⟨⟨isNamespace_ns, hkey.isPlain⟩, isNamespace_ns, hkey.isPlain⟩
  have hlists := (listsExactly_iff_tidy seeded_ok.2.1 seeded_lists.1 seeded_lists.2 hflat).mpr
    ⟨fun _ _ => ⟨fun hover => absurd hover (seeded_not_overdrawn hsize _ _), fun _ => hkey⟩,
      trivial, trivial⟩
  exact ⟨hlists _ (List.prefix_append _ _), hlists _ (List.prefix_refl _)⟩

/-- A vote is not found among the votes on its proposal. -/
theorem not_listsExactly_run :
    ¬ ∀ [SerdeMetadata] (s : FileStorage) (calls : List Call), Opened s → s.Named → ListsExactly s →
      (∀ c ∈ calls, IsNamespace c.ns ∧ Path.IsPlain c.key) →
      ListsExactly (runAll Call.after calls s) := by
  intro hall
  let _ := limitedJson
  obtain ⟨-, hopened, -, hempty, -⟩ := seeded_ok
  have hsize : "yes".toUTF8.size ≤ 1000 := by decide
  obtain ⟨c, hc⟩ : ∃ c, c = Call.set (some admin) "ns" "proposals/p/votes/v" "yes".toUTF8 :=
    ⟨_, rfl⟩
  have hflat : IsNamespace c.ns ∧ Path.IsPlain c.key := by
    rw [hc]
    exact ⟨isNamespace_ns, isPlain_vote⟩
  have hlists := hall seeded [c] hopened seeded_lists.1 seeded_lists.2 (by simpa using hflat)
  have htidy := (listsExactly_after hopened seeded_lists.1 hflat.1 hflat.2 seeded_lists.2).mp hlists
  rw [hc] at htidy
  have hname := (htidy (checked_eq_ok.mpr ⟨admin_permitted _ _, hempty.namespaceExists⟩)
    (hempty.free "proposals/p/votes/v")).2 ?_
  · exact absurd hname (by decide)
  · exact seeded_not_overdrawn hsize _ _

end FileStorage

end Covm
