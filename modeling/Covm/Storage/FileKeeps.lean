import Covm.Files.Frames
import Covm.Storage.FileReads

/-!
# What calls on a key keep

`set`, `delete` and `get` go through a few kinds of changes of the files, whatever the key is
called. A property of the files that each of these changes keeps is kept by the calls.
-/

namespace Covm

open Files Partial

namespace FileStorage

/-- A property of the files, the root and what is known of namespaces and accounts, which is kept
when a log is written. -/
structure OfFiles (P : FileStorage → Prop) : Prop where
  congr : ∀ {t t' : FileStorage}, t'.files = t.files → t'.rootPath = t.rootPath →
    t'.namespaceCache = t.namespaceCache → t'.accountCache = t.accountCache → P t → P t'
  logs : ∀ auth action ns key message, Keeps P (recordAuditLog auth action ns key message)

/-- The names of the files of a key. -/
def IsKeyFile (name : String) : Prop := name = "metadata.json" ∨ ∃ n, name = versionName n

/-- It is kept when the directory of a key is made, when files are written in it, and when a user
who has an account is charged. -/
structure KeepsKey (P : FileStorage → Prop) (ns key user : String) : Prop extends OfFiles P where
  makes : ∀ t, P t → ∀ p, Path.trim p = Path.trim (t.keyDirPath ns key) →
    ∀ toError, Keeps P (io toError (FileSystem.createDirAll p))
  writes : ∀ t, P t → ∀ name, IsKeyFile name → ∀ toError content,
    Keeps P (io toError (FileSystem.write (t.keyDirPath ns key ++ [.name name]) content))
  pays : ∀ s, P s → user ∈ s.accountCache → ∀ account,
    Keeps P (modify fun t => { t with accountCache := t.accountCache.insert user account } :
      StorageM FileStorage PUnit)
  charges : ∀ s, P s → user ∈ s.accountCache → ∀ t, P t → ∀ toError content,
    Keeps P (io toError (FileSystem.write (t.accountPath user) content))

/-- The file of an account ends in `.json`, whatever the user is called. -/
theorem exists_accountPath (s : FileStorage) (user : String) :
    ∃ q name, s.accountPath user = q ++ [.name name] ∧ ".json".toList <:+ name.toList :=
  Path.exists_join_concat (s.root.join "accounts") user (by decide) (by decide)

section
variable {P : FileStorage → Prop} {α : Type}

theorem requireNamespace_keeps (auth : Option AuthContext) (action ns missing : String) :
    Keeps P (requireNamespace auth action ns missing) := by
  rw [requireNamespace_eq]
  exact StorageM.query_keeps _

theorem io_keeps (toError : IoError → StorageError) {x : FileSystem.Change FileContent α}
    (h : ∀ s, P s → P { s with files := final (x s.files) }) : Keeps P (io toError x) := by
  intro s hs
  have hfiles := h s hs
  unfold io
  cases hx : x s.files with
  | ok a files =>
    rw [hx] at hfiles
    exact hfiles
  | error e files =>
    rw [hx] at hfiles
    exact hfiles

section
variable (h : OfFiles P)
include h

theorem modify_keeps {f : FileStorage → FileStorage} (hfiles : ∀ s, (f s).files = s.files)
    (hroot : ∀ s, (f s).rootPath = s.rootPath)
    (hcache : ∀ s, (f s).namespaceCache = s.namespaceCache)
    (haccounts : ∀ s, (f s).accountCache = s.accountCache) :
    Keeps P (modify f : StorageM FileStorage PUnit) :=
  .modify fun s hs => h.congr (hfiles s) (hroot s) (hcache s) (haccounts s) hs

theorem now_keeps : Keeps P now := by
  intro s hs
  refine h.congr ?_ ?_ ?_ ?_ hs <;> rfl

theorem audit_keeps (auth : Option AuthContext) (action ns : String) (key : Option String)
    (message : String) : Keeps P (audit auth action ns key message) := by
  cases auth with
  | none => exact .of_final_eq fun _ => rfl
  | some a => exact h.logs a action ns key message

theorem recordForRollback_keeps (op : TransactionOp) : Keeps P (recordForRollback op) := by
  refine modify_keeps h (fun s => ?_) (fun s => ?_) (fun s => ?_) fun s => ?_
  · cases s.transactions <;> rfl
  · cases s.transactions <;> rfl
  · cases s.transactions <;> rfl
  · cases s.transactions <;> rfl

variable [SerdeMetadata]

theorem get_keeps (auth : Option AuthContext) (ns key : String) : Keeps P (get auth ns key) :=
  (requireNamespace_keeps _ _ _ _).bind fun _ => (StorageM.query_keeps _).bind fun _ =>
    (audit_keeps h _ _ _ _ _).bind fun _ => .pure _

theorem existingData_keeps (auth : Option AuthContext) (ns key : String) (metadataExists : Bool) :
    Keeps P (existingData auth ns key metadataExists) := by
  intro s hs
  have hget := get_keeps h auth ns key s hs
  unfold existingData
  cases metadataExists with
  | false => exact hs
  | true =>
    rw [if_pos rfl]
    rcases hresult : get auth ns key s with ⟨data, s'⟩ | ⟨_ | _, s'⟩
    · rw [hresult] at hget
      exact hget
    · rw [hresult] at hget
      exact hget
    · rw [hresult] at hget
      exact hget

theorem delete_keeps (auth : Option AuthContext) {ns key : String}
    (hremove : ∀ t, P t → ∀ toError,
      Keeps P (io toError (FileSystem.removeDirAll (t.keyDirPath ns key)))) :
    Keeps P (delete auth ns key) := by
  unfold delete
  refine (requireNamespace_keeps _ _ _ _).bind fun _ => ?_
  refine (StorageM.query_keeps _).bind fun found => ?_
  refine (recordForRollback_keeps h _).bind fun _ => Keeps.get_bind fun t ht => ?_
  exact (hremove t ht _).bind fun _ => audit_keeps h _ _ _ _ _

end

section key
variable {ns key user : String} (h : KeepsKey P ns key user)
include h

theorem writeKeyMetadata_keeps (metadata : KeyMetadata) :
    Keeps P (writeKeyMetadata ns key metadata) := by
  unfold writeKeyMetadata
  refine Keeps.get_bind fun t ht => ?_
  rw [metadataPath_eq]
  refine (h.makes t ht _ ?_ _).bind fun _ => h.writes t ht _ (.inl rfl) _ _
  rw [Path.parent_concat_of_ne (by simp), Path.trim_trim]

theorem writeVersionData_keeps (version : Nat) (data : ByteArray) :
    Keeps P (writeVersionData ns key version data) := by
  unfold writeVersionData
  refine Keeps.get_bind fun t ht => ?_
  rw [versionPath_eq]
  refine (h.makes t ht _ ?_ _).bind fun _ => h.writes t ht _ (.inr ⟨version, rfl⟩) _ _
  rw [Path.parent_concat_of_ne (by simp), Path.trim_trim]

theorem chargeGrowth_keeps (existingSize valueSize : Nat) :
    Keeps P (chargeGrowth user existingSize valueSize) := by
  unfold chargeGrowth
  refine Keeps.ite (Keeps.get_bind fun s hs => ?_) (.pure _)
  cases hlookup : s.accountCache.lookup user with
  | none => exact .pure _
  | some account =>
    have huser : user ∈ s.accountCache := Finmap.lookup_isSome.mp (by rw [hlookup]; rfl)
    refine (StorageM.addU64_keeps _ _).bind fun used => Keeps.guard (StorageM.fail_keeps _) ?_
    refine Keeps.bind (h.pays s hs huser _) fun _ => Keeps.get_bind fun t ht => ?_
    exact h.charges s hs huser t ht _ _

variable [SerdeMetadata]

theorem addVersion_keeps (author : String) (metadataExists : Bool) :
    Keeps P (addVersion author ns key metadataExists) := by
  unfold addVersion
  refine Keeps.ite ?_ ?_
  · refine (StorageM.query_keeps _).bind fun _ => (StorageM.addU64_keeps _ _).bind fun _ => ?_
    exact (now_keeps h.toOfFiles).bind fun _ => (writeKeyMetadata_keeps h _).bind fun _ => .pure _
  · refine (now_keeps h.toOfFiles).bind fun _ => (now_keeps h.toOfFiles).bind fun _ => ?_
    exact (writeKeyMetadata_keeps h _).bind fun _ => .pure _

end key

theorem set_keeps [SerdeMetadata] {auth : Option AuthContext} {ns key : String}
    (h : KeepsKey P ns key (EconomicOperations.userOf auth)) (value : ByteArray) :
    Keeps P (set auth ns key value) := by
  unfold set
  refine (requireNamespace_keeps _ _ _ _).bind fun _ => Keeps.get_bind fun t ht => ?_
  refine (h.makes t ht _ rfl _).bind fun _ => Keeps.get_bind fun s _ => ?_
  refine (existingData_keeps h.toOfFiles _ _ _ _).bind fun existing => ?_
  refine (chargeGrowth_keeps h _ _).bind fun _ => ?_
  have hcurrent (b : Bool) : Keeps P (currentVersion ns key b) :=
    .ite ((StorageM.query_keeps _).bind fun _ => .pure _) (.pure _)
  refine (hcurrent _).bind fun current => ?_
  refine (recordForRollback_keeps h.toOfFiles _).bind fun _ => ?_
  refine (addVersion_keeps h _ _).bind fun version => ?_
  exact (writeVersionData_keeps h _ _).bind fun _ => audit_keeps h.toOfFiles _ _ _ _ _

end

end FileStorage

end Covm
