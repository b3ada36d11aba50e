import Covm.Storage.FileHistory

/-!
# Undoing calls on files

What undoing one recorded operation does to the directory of its key. A `set` is undone by dropping
the versions it added from the metadata, and a `delete` by writing metadata with one version. So a
key that was set and then deleted is left with metadata without versions.
-/

namespace Covm

open Files Partial

namespace FileStorage

/-! ## The directory of a key -/

section tree
variable {tree tree' : Location → Option (Node FileContent)} {l : Location}

/-- A directory that holds files only. -/
structure KeyDirectory (tree : Location → Option (Node FileContent)) (l : Location) : Prop where
  directory : tree l = some .directory
  files : ∀ m, l <+: m → m ≠ l → tree m ≠ some .directory

theorem KeyDirectory.congr (h : KeyDirectory tree l) (hsame : ∀ m, l <+: m → tree' m = tree m) :
    KeyDirectory tree' l where
  directory := (hsame l (List.prefix_refl l)).trans h.directory
  files m hm hne := by
    rw [hsame m hm]
    exact h.files m hm hne

/-- One more file. -/
theorem KeyDirectory.update (h : KeyDirectory tree l) (name : String) (content : FileContent) :
    KeyDirectory (Function.update tree (l ++ [name]) (some (.file content))) l where
  directory := by
    rw [Function.update_of_ne (by simp)]
    exact h.directory
  files m hm hne := by
    by_cases heq : m = l ++ [name]
    · rw [heq, Function.update_self]
      exact fun hdir => nomatch hdir
    · rw [Function.update_of_ne heq]
      exact h.files m hm hne

variable [SerdeMetadata]

/-- Metadata that can be read back. -/
def Written (tree : Location → Option (Node FileContent)) (l : Location)
    (metadata : KeyMetadata) : Prop :=
  tree (l ++ ["metadata.json"]) = some (.file (.keyMetadata metadata)) ∧ metadata.depth < 128

/-- What the metadata file says. -/
def Parses (tree : Location → Option (Node FileContent)) (l : Location)
    (metadata : KeyMetadata) : Prop :=
  ∃ content, tree (l ++ ["metadata.json"]) = some (.file content) ∧
    SerdeMetadata.parse content = .ok metadata

/-- A key whose newest version is `v`, with the value `d`. -/
structure Reads (tree : Location → Option (Node FileContent)) (l : Location)
    (metadata : KeyMetadata) (v : VersionInfo) (d : ByteArray) : Prop where
  read : Parses tree l metadata
  newest : metadata.versions.getLast? = some v
  value : ∃ content, tree (l ++ [versionName v.version]) = some (.file content) ∧
    SerdeMetadata.bytes content = d

omit [SerdeMetadata] in
theorem Written.congr {metadata : KeyMetadata} (h : Written tree l metadata)
    (hsame : ∀ m, l <+: m → tree' m = tree m) : Written tree' l metadata :=
  ⟨(hsame _ (List.prefix_append _ _)).trans h.1, h.2⟩

theorem Parses.congr {metadata : KeyMetadata} (h : Parses tree l metadata)
    (hsame : ∀ m, l <+: m → tree' m = tree m) : Parses tree' l metadata := by
  unfold Parses
  rwa [hsame _ (List.prefix_append _ _)]

theorem Parses.eq {metadata metadata' : KeyMetadata} (h : Parses tree l metadata)
    (h' : Parses tree l metadata') : metadata = metadata' := by
  obtain ⟨content, hfile, hparse⟩ := h
  obtain ⟨content', hfile', hparse'⟩ := h'
  obtain rfl : content = content' := Node.file.inj (Option.some.inj (hfile.symm.trans hfile'))
  exact Except.ok.inj (hparse.symm.trans hparse')

theorem Written.parses {metadata : KeyMetadata} (h : Written tree l metadata) :
    Parses tree l metadata :=
  ⟨_, h.1, SerdeMetadata.parse_shallow metadata h.2⟩

theorem Reads.congr {metadata : KeyMetadata} {v : VersionInfo} {d : ByteArray}
    (h : Reads tree l metadata v d) (hsame : ∀ m, l <+: m → tree' m = tree m) :
    Reads tree' l metadata v d where
  read := h.read.congr hsame
  newest := h.newest
  value := by
    rw [hsame _ (List.prefix_append _ _)]
    exact h.value

/-- Metadata and the file of its newest version. -/
theorem Reads.of_written {metadata : KeyMetadata} {v : VersionInfo} {d : ByteArray}
    (h : Written tree l metadata) (newest : metadata.versions.getLast? = some v)
    (value : tree (l ++ [versionName v.version]) = some (.file (.data d))) :
    Reads tree l metadata v d :=
  ⟨h.parses, newest, _, value, SerdeMetadata.bytes_data d⟩

end tree

/-! ## Undoing one operation -/

section
variable [SerdeMetadata] {s : FileStorage} {ns key : String} (h : Opened s) (hns : Path.IsPlain ns)
  (hkey : Path.IsPlain key)
include h hns hkey

theorem readKeyMetadata_of_parses {metadata : KeyMetadata}
    (hparses : Parses s.data (place ns key) metadata) : readKeyMetadata s ns key = .ok metadata := by
  obtain ⟨content, hfile, hparse⟩ := hparses
  rw [readKeyMetadata_eq, entry_of_plain h hns hkey, hfile, metadataIn, hparse]
  rfl

/-- The value is written back, and the versions since then are dropped. -/
theorem undo_set_ok (hdir : KeyDirectory s.data (place ns key)) {metadata : KeyMetadata}
    (hwritten : Written s.data (place ns key) metadata) (d : ByteArray) (v : VersionInfo) :
    ∃ s', undo (.set ns key (some d) (some v)) s = .ok () s' ∧
      Leaves s s'
        (Function.update
          (Function.update s.data (place ns key ++ [versionName v.version])
            (some (.file (.data d))))
          (place ns key ++ ["metadata.json"])
          (some (.file (.keyMetadata { metadata with
            versions := metadata.versions.rdropWhile fun w => decide (v.version < w.version) }))))
        s.transactions s.accountCache := by
  obtain ⟨s₁, hvalue, hs₁⟩ := writeVersionData_ok h hns hkey v.version d
    (free_of_directory hdir.directory) (hdir.files _ (List.prefix_append _ _) (by simp))
  rw [mkdirs_of_directory hdir.directory] at hs₁
  have h₁ := h.apart hs₁.apart
  have hdir₁ : KeyDirectory s₁.data (place ns key) := by
    rw [hs₁.data]
    exact hdir.update _ _
  have hwritten₁ : Written s₁.data (place ns key) metadata := by
    refine ⟨?_, hwritten.2⟩
    rw [hs₁.data, Function.update_of_ne (by simpa using (versionName_ne_metadata _).symm)]
    exact hwritten.1
  have hread : StorageM.query (readKeyMetadata · ns key) s₁ = .ok metadata s₁ := by
    rw [query_apply, readKeyMetadata_of_parses h₁ hns hkey hwritten₁.parses]
  obtain ⟨s₂, hmetadata, hs₂⟩ := writeKeyMetadata_ok h₁ hns hkey { metadata with
      versions := metadata.versions.rdropWhile fun w => decide (v.version < w.version) }
    (free_of_directory hdir₁.directory) (hdir₁.files _ (List.prefix_append _ _) (by simp))
  rw [mkdirs_of_directory hdir₁.directory, hs₁.data, hs₁.transactions, hs₁.accounts] at hs₂
  refine ⟨s₂, ?_, hs₁.trans hs₂⟩
  rw [undo, StorageM.bind_of_ok hvalue, StorageM.bind_of_ok hread]
  exact hmetadata

/-- A key that was not there is removed. -/
theorem undo_new_ok (hdir : s.data (place ns key) = some .directory) (v : Option VersionInfo) :
    ∃ s', undo (.set ns key none v) s = .ok () s' ∧
      Leaves s s' (removed (place ns key) s.data) s.transactions s.accountCache := by
  obtain ⟨s', hremoved, hs'⟩ := io_removeDirAll unknownError h (nulFree_place hns hkey) hdir
  refine ⟨s', ?_, hs'⟩
  have hexists : s.files.exists_ (s.keyDirPath ns key) = true := by
    have hfind := FileSystem.find_names s.files (h.nulFree_place (nulFree_place hns hkey))
    rw [keyDirPath_of_plain hns hkey, FileSystem.exists_, hfind, ← data, hdir]
    rfl
  rw [undo, StorageM.bind_of_ok (StorageM.get_apply s)]
  unfold removeExisting
  rw [StorageM.bind_of_ok (StorageM.get_apply s), hexists, if_pos rfl,
    keyDirPath_of_plain hns hkey]
  exact hremoved

/-- The value is written back, with new metadata that has no other version. -/
theorem undo_delete_ok (hnone : s.data (place ns key) = none) (hfree : s.Free (place ns key))
    (d : ByteArray) (n : Nat) :
    ∃ s' createdAt time, undo (.delete ns key d n) s = .ok () s' ∧
      Leaves s s'
        (Function.update
          (Function.update (mkdirs (place ns key) s.data) (place ns key ++ [versionName n])
            (some (.file (.data d))))
          (place ns key ++ ["metadata.json"])
          (some (.file (.keyMetadata ⟨key, "SYSTEM_ROLLBACK", createdAt,
            [⟨n, "SYSTEM_ROLLBACK", time, none⟩]⟩))))
        s.transactions s.accountCache := by
  have hempty : ∀ name, s.data (place ns key ++ [name]) = none :=
    fun name => data_eq_none_of_isPrefix hnone (List.prefix_append _ _)
  obtain ⟨s₁, hvalue, hs₁⟩ := writeVersionData_ok h hns hkey n d hfree (by simp [hempty])
  have h₁ := h.apart hs₁.apart
  have hmissing : s₁.files.exists_ (s₁.metadataPath ns key) = false := by
    rw [FileSystem.exists_, find_metadataPath, entry_of_plain h₁ hns hkey, hs₁.data,
      Function.update_of_ne (by simpa using (versionName_ne_metadata _).symm), mkdirs_concat, hempty]
    rfl
  obtain ⟨createdAt, s₂, hcreated, hs₂⟩ := now_ok s₁
  obtain ⟨time, s₃, htime, hs₃⟩ := now_ok s₂
  replace hs₃ := (hs₁.logged hs₂).logged hs₃
  have hdir₃ : s₃.data (place ns key) = some .directory := by
    rw [hs₃.data, Function.update_of_ne (by simp), mkdirs_self]
  obtain ⟨s₄, hmetadata, hs₄⟩ := writeKeyMetadata_ok (h.apart hs₃.apart) hns hkey
    ⟨key, "SYSTEM_ROLLBACK", createdAt, [⟨n, "SYSTEM_ROLLBACK", time, none⟩]⟩
    (free_of_directory hdir₃) (by
      rw [hs₃.data, Function.update_of_ne (by simpa using (versionName_ne_metadata _).symm),
        mkdirs_concat, hempty]
      simp)
  rw [mkdirs_of_directory hdir₃, hs₃.data, hs₃.transactions, hs₃.accounts] at hs₄
  refine ⟨s₄, createdAt, time, ?_, hs₃.trans hs₄⟩
  rw [undo, StorageM.bind_of_ok hvalue, StorageM.bind_of_ok (StorageM.get_apply s₁), hmissing]
  simp only [Bool.not_false, if_true]
  rw [StorageM.bind_of_ok hcreated, StorageM.bind_of_ok htime]
  exact hmetadata

end

end FileStorage

end Covm
