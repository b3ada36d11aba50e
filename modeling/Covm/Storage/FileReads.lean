import Covm.Storage.Places

/-!
# Reading from the file backend

A read checks the permission and the namespace, looks at the entries of one directory and writes an
audit log. Its answer is a function of these checks and entries.
-/

namespace Covm

open Files Partial

namespace FileStorage

/-! ## Permissions -/

theorem query_apply {α : Type} (f : FileStorage → Except StorageError α) (s : FileStorage) :
    StorageM.query f s = match f s with
      | .ok a => .ok a s
      | .error e => .error (.error e) s := rfl

theorem query_of_ok {α : Type} {f : FileStorage → Except StorageError α} {s : FileStorage} {a : α}
    (h : f s = .ok a) : StorageM.query f s = .ok a s := by
  rw [query_apply, h]

theorem query_of_error {α : Type} {f : FileStorage → Except StorageError α} {s : FileStorage}
    {e : StorageError} (h : f s = .error e) : StorageM.query f s = .error (.error e) s := by
  rw [query_apply, h]

theorem checkPermission_some {auth : Option AuthContext} {action ns : String}
    (h : checkPermission auth action ns = .ok ()) : ∃ a, auth = some a := by
  cases auth with
  | none => exact nomatch h
  | some a => exact ⟨a, rfl⟩

/-- Writers may read. -/
theorem checkPermission_read {auth : Option AuthContext} {ns : String}
    (h : checkPermission auth "write" ns = .ok ()) : checkPermission auth "read" ns = .ok () := by
  obtain ⟨a, rfl⟩ := checkPermission_some h
  unfold checkPermission at h ⊢
  by_cases hglobal : a.hasRole "global" "admin"
  · simp [hglobal]
  by_cases hadmin : a.hasRole ns "admin"
  · simp [hadmin]
  by_cases hwriter : a.hasRole ns "writer"
  · simp [hwriter]
  · simp [hglobal, hadmin, hwriter] at h

/-- The checks every call on a namespace starts with. -/
def checked (s : FileStorage) (auth : Option AuthContext) (action ns missing : String) :
    Except StorageError Unit := do
  checkPermission auth action ns
  if !s.namespaceExists ns then
    throw (.notFound missing)

theorem checked_eq_ok {s : FileStorage} {auth : Option AuthContext} {action ns missing : String} :
    checked s auth action ns missing = .ok () ↔
      checkPermission auth action ns = .ok () ∧ s.namespaceExists ns = true := by
  unfold checked
  cases checkPermission auth action ns with
  | error e => simp [bind, Except.bind]
  | ok u => cases s.namespaceExists ns <;> simp [bind, Except.bind, pure, Except.pure, throw,
      throwThe, MonadExceptOf.throw]

theorem requireNamespace_eq (auth : Option AuthContext) (action ns missing : String) :
    requireNamespace auth action ns missing =
      StorageM.query (checked · auth action ns missing) := by
  funext s
  unfold requireNamespace checked
  simp only [bind, EStateM.bind, query_apply, StorageM.get_apply]
  cases checkPermission auth action ns with
  | error e => rfl
  | ok u =>
    dsimp only
    cases s.namespaceExists ns <;> rfl

theorem requireNamespace_ok {s : FileStorage} {auth : Option AuthContext}
    {action ns missing : String} (h : checked s auth action ns missing = .ok ()) :
    requireNamespace auth action ns missing s = .ok () s := by
  rw [requireNamespace_eq, query_of_ok h]

/-! ## Answers -/

/-- A read: its checks, its result and its audit log. -/
theorem audited {α β : Type} {s : FileStorage} (h : Loggable s) (auth : Option AuthContext)
    (action ns missing logAction : String) (key : Option String)
    (f : FileStorage → Except StorageError α) (message : α → String) (g : α → β)
    {x : StorageM FileStorage β} (hx : x = (do
      requireNamespace auth action ns missing
      let a ← StorageM.query f
      audit auth logAction ns key (message a)
      return g a)) :
    answer (x s) = (checked s auth action ns missing >>= fun _ => g <$> f s).mapError .error ∧
      Logged s (final (x s)) := by
  subst hx
  rw [requireNamespace_eq]
  simp only [bind, EStateM.bind, query_apply]
  cases hchecked : checked s auth action ns missing with
  | error e => exact ⟨rfl, .refl s⟩
  | ok u =>
    cases hf : f s with
    | error e =>
      dsimp only
      rw [hf]
      exact ⟨rfl, .refl s⟩
    | ok a =>
      obtain ⟨c, rfl⟩ := checkPermission_some (checked_eq_ok.mp hchecked).1
      obtain ⟨s', hlog, hlogged⟩ := recordAuditLog_ok h c logAction ns key (message a)
      dsimp only
      rw [hf]
      dsimp only [audit]
      rw [hlog]
      exact ⟨rfl, hlogged⟩

section
variable [SerdeMetadata] {s : FileStorage} (h : Loggable s) (auth : Option AuthContext)
  (ns key : String)
include h

theorem get_answer :
    answer (get auth ns key s) =
        (checked s auth "read" ns s!"Namespace not found: {ns}" >>= fun _ =>
          Prod.fst <$> readLatest s ns key s!"{ns}:{key} (no versions)").mapError .error ∧
      Logged s (final (get auth ns key s)) :=
  audited h auth "read" ns _ "read" (some key) _ _ Prod.fst rfl

theorem getVersioned_answer :
    answer (getVersioned auth ns key s) =
        (checked s auth "read" ns s!"{ns}:{key}" >>= fun _ =>
          readLatest s ns key s!"{ns}:{key}").mapError .error ∧
      Logged s (final (getVersioned auth ns key s)) := by
  have haudited := audited h auth "read" ns s!"{ns}:{key}" "read" (some key)
    (readLatest · ns key s!"{ns}:{key}") (fun found => s!"Read versioned data (v{found.2.version})")
    id (x := getVersioned auth ns key) rfl
  simpa using haudited

theorem getVersion_answer (version : Nat) :
    answer (getVersion auth ns key version s) =
        (checked s auth "read" ns s!"Namespace not found: {ns}" >>= fun _ =>
          readVersion s ns key version).mapError .error ∧
      Logged s (final (getVersion auth ns key version s)) := by
  have haudited := audited h auth "read" ns s!"Namespace not found: {ns}" "read_version" (some key)
    (readVersion · ns key version) (fun _ => s!"Read version {version}") id
    (x := getVersion auth ns key version) rfl
  simpa using haudited

theorem listVersions_answer :
    answer (listVersions auth ns key s) =
        (checked s auth "read" ns s!"Namespace not found: {ns}" >>= fun _ =>
          (·.versions) <$> readKeyMetadata s ns key).mapError .error ∧
      Logged s (final (listVersions auth ns key s)) :=
  audited h auth "read" ns _ "list_versions" (some key) (readKeyMetadata · ns key)
    (fun _ => "Listed versions for key") (·.versions) rfl

end

/-! ## What the answers depend on -/

section
variable [SerdeMetadata]

/-- The value of a key, for those who may read it. -/
def stored (s : FileStorage) (ns key : String) : Option ByteArray :=
  (readLatest s ns key "").toOption.map Prod.fst

theorem readLatest_toOption (s : FileStorage) (ns key noVersions : String) :
    (readLatest s ns key noVersions).toOption = (readLatest s ns key "").toOption := by
  unfold readLatest
  cases readKeyMetadata s ns key with
  | error e => rfl
  | ok metadata =>
    simp only [bind, Except.bind]
    cases metadata.versions.getLast? with
    | none => rfl
    | some latest => rfl

/-- A read that passes its checks. -/
theorem toOption_get {s : FileStorage} (h : Loggable s) {auth : Option AuthContext}
    {ns key : String}
    (hchecked : checked s auth "read" ns s!"Namespace not found: {ns}" = .ok ()) :
    (answer (get auth ns key s)).toOption = s.stored ns key := by
  rw [(get_answer h auth ns key).1, hchecked, stored,
    ← readLatest_toOption s ns key s!"{ns}:{key} (no versions)"]
  cases readLatest s ns key s!"{ns}:{key} (no versions)" <;> rfl

theorem stored_of_ok {s : FileStorage} {ns key noVersions : String} {d : ByteArray}
    {v : VersionInfo} (h : readLatest s ns key noVersions = .ok (d, v)) :
    s.stored ns key = some d := by
  rw [stored, ← readLatest_toOption s ns key noVersions, h]
  rfl

theorem stored_of_error {s : FileStorage} {ns key noVersions : String} {e : StorageError}
    (h : readLatest s ns key noVersions = .error e) : s.stored ns key = none := by
  rw [stored, ← readLatest_toOption s ns key noVersions, h]
  rfl

/-- What is read is what is stored. -/
theorem stored_of_get {s : FileStorage} (h : Loggable s) {auth : Option AuthContext}
    {ns key : String} {d : ByteArray} (hd : answer (get auth ns key s) = .ok d) :
    s.stored ns key = some d := by
  rw [(get_answer h auth ns key).1] at hd
  cases hchecked : checked s auth "read" ns s!"Namespace not found: {ns}" with
  | error e =>
    rw [hchecked] at hd
    exact nomatch hd
  | ok u =>
    rw [hchecked] at hd
    cases hlatest : readLatest s ns key s!"{ns}:{key} (no versions)" with
    | error e =>
      rw [hlatest] at hd
      exact nomatch hd
    | ok found =>
      rw [hlatest] at hd
      rw [← Except.ok.inj hd]
      exact stored_of_ok hlatest

theorem readLatest_of_metadata {s : FileStorage} {ns key : String} {metadata : KeyMetadata}
    {v : VersionInfo} (hread : readKeyMetadata s ns key = .ok metadata)
    (hlast : metadata.versions.getLast? = some v) (noVersions : String) :
    readLatest s ns key noVersions = (readVersionData s ns key v.version).map (·, v) := by
  unfold readLatest
  rw [hread]
  simp only [bind, Except.bind, hlast]
  cases readVersionData s ns key v.version <;> rfl

theorem readLatest_eq_ok {s : FileStorage} {ns key noVersions : String} {d : ByteArray}
    {v : VersionInfo} :
    readLatest s ns key noVersions = .ok (d, v) ↔
      ∃ metadata, readKeyMetadata s ns key = .ok metadata ∧ metadata.versions.getLast? = some v ∧
        readVersionData s ns key v.version = .ok d := by
  unfold readLatest
  cases readKeyMetadata s ns key with
  | error e => simp [bind, Except.bind]
  | ok metadata =>
    simp only [bind, Except.bind, Except.ok.injEq, exists_eq_left']
    cases metadata.versions.getLast? with
    | none => simp [throw, throwThe, MonadExceptOf.throw]
    | some latest =>
      simp only [Option.some.injEq]
      constructor
      · intro h
        cases hdata : readVersionData s ns key latest.version with
        | error e =>
          rw [hdata] at h
          exact nomatch h
        | ok d' =>
          rw [hdata] at h
          obtain ⟨rfl, rfl⟩ := Prod.mk.inj (Except.ok.inj h)
          exact ⟨rfl, hdata⟩
      · rintro ⟨rfl, hdata⟩
        rw [hdata]
        rfl

end

theorem readKeyMetadata_congr [SerdeMetadata] {s s' : FileStorage} {ns key : String}
    (h : s'.entry ns key "metadata.json" = s.entry ns key "metadata.json") :
    readKeyMetadata s' ns key = readKeyMetadata s ns key := by
  rw [readKeyMetadata_eq, readKeyMetadata_eq, h]

theorem readVersionData_congr [SerdeMetadata] {s s' : FileStorage} {ns key : String} {version : Nat}
    (h : s'.entry ns key (versionName version) = s.entry ns key (versionName version)) :
    readVersionData s' ns key version = readVersionData s ns key version := by
  rw [readVersionData_eq, readVersionData_eq, h]

/-- The newest version is read from the metadata and one data file. -/
theorem readLatest_congr [SerdeMetadata] {s s' : FileStorage} {ns key noVersions : String}
    (hmetadata : s'.entry ns key "metadata.json" = s.entry ns key "metadata.json")
    (hdata : ∀ metadata v, readKeyMetadata s ns key = .ok metadata →
      metadata.versions.getLast? = some v →
      s'.entry ns key (versionName v.version) = s.entry ns key (versionName v.version)) :
    readLatest s' ns key noVersions = readLatest s ns key noVersions := by
  unfold readLatest
  rw [readKeyMetadata_congr hmetadata]
  cases hread : readKeyMetadata s ns key with
  | error e => rfl
  | ok metadata =>
    simp only [bind, Except.bind]
    cases hlast : metadata.versions.getLast? with
    | none => rfl
    | some latest =>
      dsimp only
      rw [readVersionData_congr (hdata metadata latest hread hlast)]

theorem stored_congr [SerdeMetadata] {s s' : FileStorage} {ns key : String}
    (h : ∀ name, s'.entry ns key name = s.entry ns key name) :
    s'.stored ns key = s.stored ns key := by
  rw [stored, stored, readLatest_congr (h _) fun _ _ _ _ => h _]

theorem namespaceExists_of_plain {s : FileStorage} {ns : String} (h : Opened s)
    (hns : Path.IsPlain ns) :
    s.namespaceExists ns =
      (decide (ns ∈ s.namespaceCache) || (s.data (Path.components ns)).isSome) := by
  rw [namespaceExists, namespacePath_of_plain hns, FileSystem.exists_,
    FileSystem.find_names _ (h.nulFree_place hns.nulFree)]
  rfl

/-- A directory below a namespace shows that it exists. -/
theorem namespaceExists_of_data {s : FileStorage} {ns : String} (h : Opened s)
    (hns : Path.IsPlain ns) {l : Location}
    (hl : s.data (Path.components ns ++ l) ≠ none) : s.namespaceExists ns = true := by
  have hdir : s.data (Path.components ns) ≠ none := by
    intro hnone
    exact hl (data_eq_none_of_isPrefix hnone (List.prefix_append _ _))
  rw [namespaceExists_of_plain h hns, Option.isSome_iff_ne_none.mpr hdir, Bool.or_true]

/-! ## Keys -/

/-- A key is there if it has metadata. -/
theorem contains_of_plain {s : FileStorage} {ns key : String} (h : Opened s)
    (hns : Path.IsPlain ns) (hkey : Path.IsPlain key) (auth : Option AuthContext) :
    contains s auth ns key = (checkPermission auth "read" ns).map fun _ =>
      (s.data (place ns key ++ ["metadata.json"])).isSome := by
  unfold contains
  cases checkPermission auth "read" ns with
  | error e => rfl
  | ok u =>
    have hfind : s.files.exists_ (s.metadataPath ns key) =
        (s.data (place ns key ++ ["metadata.json"])).isSome := by
      rw [FileSystem.exists_, find_metadataPath, entry_of_plain h hns hkey]
    simp only [bind, Except.bind, hfind, Except.map]
    cases hexists : s.namespaceExists ns with
    | true => rfl
    | false =>
      have hnone : s.data (place ns key ++ ["metadata.json"]) = none := by
        by_contra hne
        rw [place, List.append_assoc] at hne
        rw [namespaceExists_of_data h hns hne] at hexists
        simp at hexists
      rw [hnone]
      rfl

/-- The directories among the keys of a namespace are listed. -/
theorem listKeys_answer {s : FileStorage} {ns : String} (h : Opened s) (hns : Path.IsPlain ns)
    {auth : Option AuthContext}
    (hchecked : checked s auth "read" ns s!"Namespace not found: {ns}" = .ok ())
    (hkeys : ∀ content, s.data (Path.components ns ++ ["keys"]) ≠ some (.file content))
    (start : Option String) :
    ∃ keys s', listKeys auth ns start s = .ok keys s' ∧ Logged s s' ∧ keys.Nodup ∧
      ∀ k, k ∈ keys ↔ s.data (Path.components ns ++ ["keys", k]) = some .directory ∧
        (start.all fun text => text.toList <+: k.toList) = true := by
  have hnul : NulFree (Path.components ns ++ ["keys"]) := by
    rw [nulFree_append]
    exact ⟨hns.nulFree, nulFree_singleton.mpr (by decide)⟩
  have hfind : s.files.find (Path.names (s.rootPath ++ "namespaces" :: (Path.components ns ++ ["keys"])))
      = s.data (Path.components ns ++ ["keys"]) :=
    FileSystem.find_names _ (h.nulFree_place hnul)
  have hchild : ∀ k, s.rootPath ++ "namespaces" :: (Path.components ns ++ ["keys"]) ++ [k] =
      s.rootPath ++ "namespaces" :: (Path.components ns ++ ["keys", k]) := by simp
  unfold listKeys
  rw [StorageM.bind_of_ok (requireNamespace_ok hchecked),
    StorageM.bind_of_ok (StorageM.get_apply s), keysPath_of_plain hns, FileSystem.exists_, hfind]
  cases hdir : s.data (Path.components ns ++ ["keys"]) with
  | none =>
    refine ⟨0, s, rfl, .refl s, Multiset.nodup_zero, fun k => ?_⟩
    have hnone : s.data (Path.components ns ++ ["keys", k]) = none :=
      data_eq_none_of_isPrefix hdir (by simp)
    simp [hnone]
  | some n =>
    cases n with
    | file content => exact absurd hdir (hkeys content)
    | directory =>
      have hread : s.files.readDir (Path.names
          (s.rootPath ++ "namespaces" :: (Path.components ns ++ ["keys"]))) =
          .ok (s.files.children (s.rootPath ++ "namespaces" :: (Path.components ns ++ ["keys"]))) := by
        apply FileSystem.readDir_of_enter
        exact enter_names_data h hnul hdir
      have hentries : StorageM.query (fun s => (s.files.readDir (Path.names (s.rootPath ++
          "namespaces" :: (Path.components ns ++ ["keys"])))).mapError unknownError) s =
          .ok (s.files.children
            (s.rootPath ++ "namespaces" :: (Path.components ns ++ ["keys"]))) s := by
        apply query_of_ok
        rw [hread]
        rfl
      obtain ⟨a, rfl⟩ := checkPermission_some (checked_eq_ok.mp hchecked).1
      simp only [Option.isSome_some, Bool.not_true, Bool.false_eq_true, if_false]
      set shown := (start.map fun text => s!"Some({debugString text})").getD "None"
      obtain ⟨s', hlog, hlogged⟩ := recordAuditLog_ok h.loggable a "list_keys" ns none
        s!"Listed keys with prefix {shown}"
      refine ⟨_, s', (StorageM.bind_of_ok hentries).trans (StorageM.bind_of_ok hlog), hlogged, ?_,
        fun k => ?_⟩
      · apply Multiset.Nodup.filter
        exact Multiset.nodup_of_le (Multiset.map_le_map (Multiset.filter_le _ _))
          (FileSystem.nodup_children _ _)
      · simp only [Multiset.mem_filter, Multiset.mem_map, Prod.exists, exists_and_right,
          exists_eq_right, FileSystem.mem_children, Option.some.injEq]
        rw [hchild]
        exact .rfl

end FileStorage

end Covm
