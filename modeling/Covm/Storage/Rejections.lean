import Covm.Partial.Raises
import Covm.Storage.FileAudit
import Covm.Storage.LogLines

/-!
# What a rejected `set` leaves behind

`set` makes the directory of the key before it looks at the quota, and it reads the old value with
`get`, which writes an audit log. So a value that is too large for the account leaves an empty
directory under a new key, and lists of keys show it. Nothing can be seen afterwards iff the
directory was there already, and so was the log of the day if the old value could be read
(`set_rejected_iff`): namespaces are joined to paths as they come, and every path can be one.
-/

namespace Covm

open Files Partial

/-- The errors of a write that is refused for its user. -/
def StorageError.isRejection : StorageError → Bool
  | .permissionDenied .. => true
  | .quotaExceeded .. => true
  | _ => false

namespace FileStorage

/-! ## What can be seen of a new file -/

theorem io_error {α : Type} {toError : IoError → StorageError}
    {x : FileSystem.Change FileContent α} {s s' : FileStorage} {f : StorageFault}
    (h : io toError x s = .error f s') : ∃ e, f = .error (toError e) := by
  unfold io at h
  split at h
  · exact nomatch h
  · next e _ _ => exact ⟨e, (EStateM.Result.error.inj h).1.symm⟩

theorem recordAuditLog_error {s s' : FileStorage} {auth : AuthContext} {action ns : String}
    {key : Option String} {message : String} {f : StorageFault}
    (h : recordAuditLog auth action ns key message s = .error f s') :
    ∃ operation e, f = .error (mapIoError ns key operation e) := by
  rw [recordAuditLog_eq] at h
  split at h
  · cases hmade : io (mapIoError ns key "creating audit log directory")
      (FileSystem.createDirAll (Path.names s.auditDir)) { s with reads := s.reads + 1 } with
    | ok _ s₁ =>
      rw [StorageM.bind_of_ok hmade] at h
      exact ⟨_, io_error h⟩
    | error f₁ s₁ =>
      rw [StorageM.bind_of_error hmade] at h
      cases h
      exact ⟨_, io_error hmade⟩
  · exact ⟨_, io_error h⟩

/-- No other error says that a namespace is not found. -/
theorem mapIoError_ne (ns operation : String) (e : IoError) :
    mapIoError ns none operation e ≠ .notFound s!"Namespace not found: {ns}" := by
  cases e with
  | notFound =>
    intro h
    have hlists := congrArg String.toList (StorageError.notFound.inj h)
    simp [String.toList_append, toString] at hlists
  | _ => exact nofun

open InMemoryStorage (admin) in
/-- A place where something has come is found by the list of keys of a namespace that is called
after it. -/
theorem not_sameAnswers [SerdeMetadata] {s s' : FileStorage} {l : Location}
    (hl : ∀ name ∈ l, Path.IsName name) (hbefore : s.files.node l = none)
    (hafter : s'.files.node l ≠ none) : ¬ SameAnswers s s' := by
  intro hsame
  have hne : l ≠ [] := by
    rintro rfl
    rw [FileSystem.node_nil] at hbefore
    cases hbefore
  have hnul : NulFree l := fun name hname => (hl name hname).nul
  obtain ⟨ns, hns, hpath⟩ := Path.exists_absolute hne hl s.namespaceCache.keys
  rw [Finmap.mem_keys] at hns
  have hexists : ∀ t : FileStorage, t.namespaceExists ns =
      (decide (ns ∈ t.namespaceCache) || (t.files.node l).isSome) := by
    intro t
    rw [namespaceExists, namespacePath, hpath, FileSystem.exists_, FileSystem.find_names _ hnul]
  have hmissing : s.namespaceExists ns = false := by simp [hexists, hns, hbefore]
  have hfound : s'.namespaceExists ns = true := by
    simp [hexists, Option.isSome_iff_ne_none.mpr hafter]
  have hlist := hsame.listKeys ⟨0, Nat.zero_le _⟩ (some admin) ns none
  set time : Timestamp := ⟨0, Nat.zero_le _⟩
  have hchecked : checked (s.atTime time) (some admin) "read" ns s!"Namespace not found: {ns}" =
      .error (.notFound s!"Namespace not found: {ns}") := by
    rw [checked, admin_permitted, show (s.atTime time).namespaceExists ns = false from hmissing]
    rfl
  have hchecked' : checked (s'.atTime time) (some admin) "read" ns s!"Namespace not found: {ns}" =
      .ok () :=
    checked_eq_ok.mpr ⟨admin_permitted _ _, hfound⟩
  rw [answer_listKeys, answer_listKeys, hchecked, hchecked'] at hlist
  dsimp only at hlist
  split at hlist
  · cases hlist
  · cases hread : (s'.atTime time).files.readDir
      (((s'.atTime time).namespacePath ns).join "keys") with
    | error e =>
      rw [hread] at hlist
      cases hlist
    | ok entries =>
      rw [hread] at hlist
      simp only [Except.mapError, audit] at hlist
      cases hlog : recordAuditLog admin "list_keys" ns none (listMessage none) (s'.atTime time) with
      | ok _ t =>
        rw [hlog] at hlist
        cases hlist
      | error f t =>
        obtain ⟨operation, e, rfl⟩ := recordAuditLog_error hlog
        rw [hlog] at hlist
        exact mapIoError_ne ns operation e (StorageFault.error.inj (Except.error.inj hlist))

/-! ## Rejections -/

section
variable {α β : Type} {e : StorageError} (he : e.isRejection = true)
include he

theorem query_avoids_rejection {f : FileStorage → Except StorageError α}
    (h : ∀ s e', f s = .error e' → e'.isRejection = false) :
    Avoids (.error e) (StorageM.query f) := by
  rintro s ⟨t, ht⟩
  rw [query_apply] at ht
  split at ht
  · exact nomatch ht
  · next e' hf =>
    cases ht
    rw [h s _ hf] at he
    exact nomatch he

theorem io_avoids_rejection {toError : IoError → StorageError}
    (h : ∀ e', (toError e').isRejection = false) (x : FileSystem.Change FileContent α) :
    Avoids (.error e) (io toError x) := by
  rintro s ⟨t, ht⟩
  obtain ⟨e', heq⟩ := io_error ht
  cases heq
  rw [h e'] at he
  exact nomatch he

theorem mapIo_avoids_rejection (ns : String) (key : Option String) (operation : String)
    (x : FileSystem.Change FileContent α) :
    Avoids (.error e) (io (mapIoError ns key operation) x) := by
  apply io_avoids_rejection he
  intro e'
  cases e' with
  | notFound => cases key <;> rfl
  | _ => rfl

theorem unknown_avoids_rejection (x : FileSystem.Change FileContent α) :
    Avoids (.error e) (io unknownError x) :=
  io_avoids_rejection he (fun _ => rfl) x

omit he in
theorem now_avoids_rejection : Avoids (.error e) now := .of_ok fun _ => ⟨_, _, rfl⟩

omit he in
theorem addU64_avoids_rejection (a b : Nat) :
    Avoids (.error e) (StorageM.addU64 a b : StorageM FileStorage Nat) := by
  intro s
  by_cases h : a + b < 2 ^ 64
  · exact not_raises_of_ok (StorageM.addU64_of_lt h s)
  · exact not_raises_of_error (StorageM.addU64_of_le (Nat.not_lt.mp h) s) nofun

theorem audit_avoids_rejection (auth : Option AuthContext) (action ns : String)
    (key : Option String) (message : String) :
    Avoids (.error e) (audit auth action ns key message) := by
  cases auth with
  | none =>
    intro s
    have hpanic : audit none action ns key message s = .error .panic s := rfl
    exact not_raises_of_error hpanic nofun
  | some a =>
    exact now_avoids_rejection.bind fun _ => Avoids.get.bind fun _ => Avoids.get.bind fun _ =>
      .guard (mapIo_avoids_rejection he _ _ _ _) (mapIo_avoids_rejection he _ _ _ _)

theorem writeKeyMetadata_avoids_rejection (ns key : String) (metadata : KeyMetadata) :
    Avoids (.error e) (writeKeyMetadata ns key metadata) :=
  Avoids.get.bind fun _ => (mapIo_avoids_rejection he _ _ _ _).bind fun _ =>
    mapIo_avoids_rejection he _ _ _ _

theorem writeVersionData_avoids_rejection (ns key : String) (version : Nat) (data : ByteArray) :
    Avoids (.error e) (writeVersionData ns key version data) :=
  Avoids.get.bind fun _ => (mapIo_avoids_rejection he _ _ _ _).bind fun _ =>
    mapIo_avoids_rejection he _ _ _ _

variable [SerdeMetadata]

theorem readKeyMetadata_avoids_rejection (ns key : String) :
    Avoids (.error e) (StorageM.query (readKeyMetadata · ns key)) := by
  apply query_avoids_rejection he
  intro s e' h
  rw [readKeyMetadata_eq] at h
  unfold metadataIn at h
  split at h
  · cases h
    rfl
  · cases h
    rfl
  · next content _ =>
    cases hparse : SerdeMetadata.parse content with
    | ok metadata =>
      rw [hparse] at h
      exact nomatch h
    | error message =>
      rw [hparse] at h
      cases h
      rfl

theorem addVersion_avoids_rejection (user ns key : String) (metadataExists : Bool) :
    Avoids (.error e) (addVersion user ns key metadataExists) := by
  unfold addVersion
  cases metadataExists with
  | true =>
    exact (readKeyMetadata_avoids_rejection he ns key).bind fun _ =>
      (addU64_avoids_rejection _ _).bind fun _ => now_avoids_rejection.bind fun _ =>
        (writeKeyMetadata_avoids_rejection he _ _ _).bind fun _ => .pure _
  | false =>
    exact now_avoids_rejection.bind fun _ => now_avoids_rejection.bind fun _ =>
      (writeKeyMetadata_avoids_rejection he _ _ _).bind fun _ => .pure _

/-- After its accounting a `set` is not rejected any more. -/
theorem store_avoids_rejection (auth : Option AuthContext) (user ns key : String)
    (value : ByteArray) (existing : Option ByteArray) (metadataExists : Bool) :
    Avoids (.error e) (do
      let current ← currentVersion ns key metadataExists
      recordForRollback (.set ns key existing current)
      let version ← addVersion user ns key metadataExists
      writeVersionData ns key version value
      audit auth "write" ns (some key) s!"Set v{version} ({value.size} bytes)" :
        StorageM FileStorage Unit) := by
  refine Avoids.bind ?_ fun _ => (Avoids.modify _).bind fun _ =>
    (addVersion_avoids_rejection he _ _ _ _).bind fun _ =>
      (writeVersionData_avoids_rejection he _ _ _ _).bind fun _ =>
        audit_avoids_rejection he _ _ _ _ _
  unfold currentVersion
  cases metadataExists with
  | true => exact (readKeyMetadata_avoids_rejection he ns key).bind fun _ => .pure _
  | false => exact .pure _

end

/-- A growth that fits into a counter but not into the quota of a user's account. -/
def OverQuota (accounts : HashMap FileResourceAccount) (user : String) (growth : Nat) : Prop :=
  0 < growth ∧ ∃ account, accounts.lookup user = some account ∧
    account.usedBytes + growth < 2 ^ 64 ∧ account.quotaBytes < account.usedBytes + growth

theorem chargeGrowth_of_overQuota {s : FileStorage} {user : String} {existingSize valueSize : Nat}
    (h : OverQuota s.accountCache user (valueSize - existingSize)) :
    ∃ e, e.isRejection = true ∧
      chargeGrowth user existingSize valueSize s = .error (.error e) s := by
  obtain ⟨hpos, account, hlookup, hlt, hquota⟩ := h
  refine ⟨.quotaExceeded s!"Storage for user '{user}'"
    (account.usedBytes + (valueSize - existingSize)) account.quotaBytes, rfl, ?_⟩
  unfold chargeGrowth
  rw [if_pos (by omega), StorageM.bind_of_ok (StorageM.get_apply s), hlookup]
  dsimp only
  rw [StorageM.bind_of_ok (StorageM.addU64_of_lt hlt s), if_pos hquota]
  rfl

/-- The accounting rejects nothing else, and then it changes nothing. -/
theorem overQuota_of_chargeGrowth {s s' : FileStorage} {user : String}
    {existingSize valueSize : Nat} {e : StorageError} (he : e.isRejection = true)
    (h : chargeGrowth user existingSize valueSize s = .error (.error e) s') :
    OverQuota s.accountCache user (valueSize - existingSize) := by
  unfold chargeGrowth at h
  split at h
  · next hgrows =>
    rw [StorageM.bind_of_ok (StorageM.get_apply s)] at h
    cases hlookup : s.accountCache.lookup user with
    | none =>
      rw [hlookup] at h
      exact nomatch h
    | some account =>
      rw [hlookup] at h
      dsimp only at h
      by_cases hlt : account.usedBytes + (valueSize - existingSize) < 2 ^ 64
      · rw [StorageM.bind_of_ok (StorageM.addU64_of_lt hlt s)] at h
        split at h
        · next hquota => exact ⟨by omega, account, hlookup, hlt, hquota⟩
        · exact absurd ⟨_, h⟩ (((Avoids.modify _).bind fun _ => Avoids.get.bind fun _ =>
            unknown_avoids_rejection he _) s)
      · rw [StorageM.bind_of_error (StorageM.addU64_of_le (Nat.not_lt.mp hlt) s)] at h
        exact nomatch h
  · exact nomatch h

section
variable [SerdeMetadata] (s : FileStorage) (auth : Option AuthContext) (ns key : String)
  (value : ByteArray)

/-- The storage with the directory of the key. -/
def made : FileStorage :=
  { s with files := final (FileSystem.createDirAll (s.keyDirPath ns key) s.files) }

/-- What `get` finds once the directory is there. -/
def oldValue : Option ByteArray := (answer (get auth ns key (s.made ns key))).toOption

/-- The writer may write, the directory can be made, and the growth is over the quota. -/
structure Rejected : Prop where
  checks : checked s auth "write" ns s!"{ns}:{key}" = .ok ()
  directory : succeeded (FileSystem.createDirAll (s.keyDirPath ns key) s.files) = true
  quota : OverQuota s.accountCache (EconomicOperations.userOf auth)
    (value.size - (s.oldValue auth ns key).elim 0 ByteArray.size)

end

section
variable [SerdeMetadata] {s : FileStorage} {auth : Option AuthContext} {ns key : String}
  {value : ByteArray}

/-- What looking for the old value leaves behind: a line in the log, if it is found. -/
inductive Looked (s : FileStorage) : Option ByteArray → FileStorage → Prop
  | missing (r : Nat) : Looked s none { s with reads := r }
  | found (d : ByteArray) {files : FileSystem FileContent} (r : Nat) (log : LogWritten s files) :
    Looked s (some d) { s with files := files, reads := r }

/-- A read that passes its checks ends in an error, or with a line in the log. -/
theorem get_looked (key : String) (hroot : NulFree s.rootPath)
    (hread : checked s auth "read" ns s!"Namespace not found: {ns}" = .ok ()) :
    (∃ d s', get auth ns key s = .ok d s' ∧ Looked s (some d) s') ∨
      ∃ e s', get auth ns key s = .error (.error e) s' ∧ Looked s none s' := by
  obtain ⟨a, rfl⟩ := checkPermission_some (checked_eq_ok.mp hread).1
  unfold get
  rw [StorageM.bind_of_ok (requireNamespace_ok hread)]
  cases hlatest : readLatest s ns key s!"{ns}:{key} (no versions)" with
  | error e =>
    rw [StorageM.bind_of_error (query_of_error hlatest)]
    exact .inr ⟨e, s, rfl, .missing s.reads⟩
  | ok found =>
    rw [StorageM.bind_of_ok (query_of_ok hlatest)]
    dsimp only [audit]
    obtain ⟨files, hlog, hwritten⟩ | ⟨e, hlog⟩ :=
      recordAuditLog_cases hroot a "read" ns (some key) s!"Read version {found.2.version}"
    · rw [StorageM.bind_of_ok hlog]
      exact .inl ⟨found.1, _, rfl, .found _ _ hwritten⟩
    · rw [StorageM.bind_of_error hlog]
      exact .inr ⟨e, _, rfl, .missing _⟩

/-- Without metadata there is no old value. -/
theorem existingData_eq (key : String) (hroot : NulFree s.rootPath)
    (hread : checked s auth "read" ns s!"Namespace not found: {ns}" = .ok ()) :
    ∃ s', existingData auth ns key (s.files.exists_ (s.metadataPath ns key)) s =
        .ok (answer (get auth ns key s)).toOption s' ∧
      Looked s (answer (get auth ns key s)).toOption s' := by
  unfold existingData
  cases hexists : s.files.exists_ (s.metadataPath ns key) with
  | true =>
    rw [if_pos rfl]
    obtain ⟨d, s', hget, hlooked⟩ | ⟨e, s', hget, hlooked⟩ := get_looked key hroot hread
    · rw [hget]
      exact ⟨s', rfl, hlooked⟩
    · rw [hget]
      exact ⟨s', rfl, hlooked⟩
  | false =>
    have hmissing : readLatest s ns key s!"{ns}:{key} (no versions)" =
        .error (.notFound s!"{ns}:{key}") := by
      rw [readLatest, readKeyMetadata, hexists]
      rfl
    have hget : get auth ns key s = .error (.error (.notFound s!"{ns}:{key}")) s := by
      unfold get
      rw [StorageM.bind_of_ok (requireNamespace_ok hread),
        StorageM.bind_of_error (query_of_error hmissing)]
    rw [hget]
    exact ⟨s, rfl, .missing s.reads⟩

omit [SerdeMetadata] in
theorem Looked.accountCache {d : Option ByteArray} {s' : FileStorage} (h : Looked s d s') :
    s'.accountCache = s.accountCache := by
  cases h with
  | missing => rfl
  | found => rfl

omit [SerdeMetadata] in
theorem Looked.node_ne_none {d : Option ByteArray} {s' : FileStorage} (h : Looked s d s')
    {l : Location} (hl : s.files.node l ≠ none) : s'.files.node l ≠ none := by
  cases h with
  | missing => exact hl
  | @found _ files _ log =>
    show files.node l ≠ none
    by_cases heq : l = s.nextLog
    · obtain ⟨content, hfile⟩ := log.file
      rw [heq, hfile]
      exact Option.some_ne_none _
    · rw [log.other l heq]
      split
      · exact Option.some_ne_none _
      · exact hl

/-- A `set` that passes its checks is rejected by its accounting or not at all. -/
theorem set_eq_error_iff (value : ByteArray) (hroot : NulFree s.rootPath)
    (hchecked : checked s auth "write" ns s!"{ns}:{key}" = .ok ())
    (hdir : succeeded (FileSystem.createDirAll (s.keyDirPath ns key) s.files) = true) :
    ∃ s₂, Looked (s.made ns key) (s.oldValue auth ns key) s₂ ∧
      ∀ e s', e.isRejection = true → (set auth ns key value s = .error (.error e) s' ↔
        chargeGrowth (EconomicOperations.userOf auth)
          ((s.oldValue auth ns key).elim 0 ByteArray.size) value.size s₂ =
            .error (.error e) s') := by
  obtain ⟨hpermission, hnamespace⟩ := checked_eq_ok.mp hchecked
  have hmade : io unknownError (FileSystem.createDirAll (s.keyDirPath ns key)) s =
      .ok () (s.made ns key) := io_of_ok _ (eq_ok_of_succeeded hdir)
  have hread : checked (s.made ns key) auth "read" ns s!"Namespace not found: {ns}" = .ok () := by
    refine checked_eq_ok.mpr ⟨checkPermission_read hpermission, ?_⟩
    rw [namespaceExists, Bool.or_eq_true] at hnamespace ⊢
    exact hnamespace.imp_right (FileSystem.exists_mono (FileSystem.createDirAll_added _ _))
  obtain ⟨s₂, hexisting, hlooked⟩ := existingData_eq (s := s.made ns key) key hroot hread
  refine ⟨s₂, hlooked, fun e s' he => ?_⟩
  have hset : set auth ns key value s = (do
      chargeGrowth (EconomicOperations.userOf auth)
        ((s.oldValue auth ns key).elim 0 ByteArray.size) value.size
      let current ← currentVersion ns key
        ((s.made ns key).files.exists_ ((s.made ns key).metadataPath ns key))
      recordForRollback (.set ns key (s.oldValue auth ns key) current)
      let version ← addVersion (EconomicOperations.userOf auth) ns key
        ((s.made ns key).files.exists_ ((s.made ns key).metadataPath ns key))
      writeVersionData ns key version value
      audit auth "write" ns (some key) s!"Set v{version} ({value.size} bytes)" :
        StorageM FileStorage Unit) s₂ := by
    unfold set
    rw [StorageM.bind_of_ok (requireNamespace_ok hchecked),
      StorageM.bind_of_ok (StorageM.get_apply s), StorageM.bind_of_ok hmade, StorageM.bind_of_ok (StorageM.get_apply _),
      StorageM.bind_of_ok hexisting]
    rfl
  rw [hset]
  cases hcharge : chargeGrowth (EconomicOperations.userOf auth)
    ((s.oldValue auth ns key).elim 0 ByteArray.size) value.size s₂ with
  | error f s₃ => rw [StorageM.bind_of_error hcharge]
  | ok _ s₃ =>
    rw [StorageM.bind_of_ok hcharge]
    constructor
    · exact fun h => absurd ⟨s', h⟩ (store_avoids_rejection he _ _ _ _ _ _ _ s₃)
    · intro h
      cases h

/-- Why a `set` is rejected, and what it leaves behind. -/
theorem set_rejected (hroot : NulFree s.rootPath) {e : StorageError} {s' : FileStorage}
    (he : e.isRejection = true) (h : set auth ns key value s = .error (.error e) s') :
    s' = s ∨ Rejected s auth ns key value ∧
      Looked (s.made ns key) (s.oldValue auth ns key) s' := by
  cases hchecked : checked s auth "write" ns s!"{ns}:{key}" with
  | error e' =>
    unfold set at h
    rw [requireNamespace_eq, StorageM.bind_of_error (query_of_error hchecked)] at h
    cases h
    exact .inl rfl
  | ok u =>
    cases hdir : FileSystem.createDirAll (s.keyDirPath ns key) s.files with
    | error e' files =>
      unfold set at h
      rw [StorageM.bind_of_ok (requireNamespace_ok hchecked),
        StorageM.bind_of_ok (StorageM.get_apply s),
        StorageM.bind_of_error (io_of_error _ hdir)] at h
      cases h
      exact nomatch he
    | ok _ files =>
      have hsucceeded :
          succeeded (FileSystem.createDirAll (s.keyDirPath ns key) s.files) = true := by
        rw [hdir]
        rfl
      obtain ⟨s₂, hlooked, hiff⟩ := set_eq_error_iff value hroot hchecked hsucceeded
      have hcharge := (hiff e s' he).mp h
      have hquota := overQuota_of_chargeGrowth he hcharge
      obtain ⟨e', he', hcharge'⟩ := chargeGrowth_of_overQuota hquota
      rw [hcharge] at hcharge'
      obtain ⟨-, rfl⟩ := EStateM.Result.error.inj hcharge'
      rw [hlooked.accountCache] at hquota
      exact .inr ⟨⟨hchecked, hsucceeded, hquota⟩, hlooked⟩

theorem Rejected.set_eq (h : Rejected s auth ns key value) (hroot : NulFree s.rootPath) :
    ∃ e s', e.isRejection = true ∧ set auth ns key value s = .error (.error e) s' ∧
      Looked (s.made ns key) (s.oldValue auth ns key) s' := by
  obtain ⟨s₂, hlooked, hiff⟩ := set_eq_error_iff value hroot h.checks h.directory
  have hquota := h.quota
  rw [show s.accountCache = s₂.accountCache from hlooked.accountCache.symm] at hquota
  obtain ⟨e, he, hcharge⟩ := chargeGrowth_of_overQuota hquota
  exact ⟨e, s₂, he, (hiff e s₂ he).mpr hcharge, hlooked⟩

/-- The directory of the key is there, and so is the next log if the old value can be read. -/
structure Prepared (s : FileStorage) (auth : Option AuthContext) (ns key : String) : Prop where
  directory : s.files.isDir (s.keyDirPath ns key) = true
  log : (s.oldValue auth ns key).isSome = true → s.files.node s.nextLog ≠ none

omit [SerdeMetadata] in
/-- A directory that is there is not made again. -/
theorem made_eq (hsucceeded :
      succeeded (FileSystem.createDirAll (s.keyDirPath ns key) s.files) = true)
    (hdir : s.files.isDir (s.keyDirPath ns key) = true) : s.made ns key = s := by
  obtain ⟨l, henter⟩ := FileSystem.isDir_eq_true.mp hdir
  obtain ⟨-, -, hvisited⟩ := FileSystem.enter_eq_some.mp henter
  obtain ⟨files, hmade, -, hadded⟩ | ⟨e, files, herror, -⟩ :=
    FileSystem.createDirAll_cases (s.keyDirPath ns key) s.files
  · have hsame : files = s.files := by
      apply FileSystem.ext_node
      funext m
      rw [hadded m]
      split
      · next hm => exact (hvisited m hm).symm
      · rfl
    rw [made, hmade, hsame]
    rfl
  · rw [herror] at hsucceeded
    exact nomatch hsucceeded

omit [SerdeMetadata] in
/-- Where a directory is missing, it comes to a place with proper names. -/
theorem exists_made (hroot : ∀ name ∈ s.rootPath, Path.IsName name) (hsucceeded :
      succeeded (FileSystem.createDirAll (s.keyDirPath ns key) s.files) = true)
    (hdir : s.files.isDir (s.keyDirPath ns key) = false) :
    ∃ m, (∀ name ∈ m, Path.IsName name) ∧ s.files.node m = none ∧
      (s.made ns key).files.node m ≠ none := by
  obtain ⟨files, hmade, hfree, hadded⟩ | ⟨e, files, herror, -⟩ :=
    FileSystem.createDirAll_cases (s.keyDirPath ns key) s.files
  · have hnul : Path.hasNul (s.keyDirPath ns key) = false := by
      by_contra hnul
      exact hfree (.inl (by simpa using hnul))
    have hproper : Path.Proper (s.keyDirPath ns key) :=
      ((((Path.proper_names hroot).join "namespaces").join ns).join "keys").join key
    obtain ⟨m, hm, hnone⟩ : ∃ m ∈ Path.visited [] (s.keyDirPath ns key), s.files.node m = none := by
      by_contra hall
      have henter : s.files.enter (s.keyDirPath ns key) =
          some (Files.Path.target [] (s.keyDirPath ns key)) := by
        refine FileSystem.enter_eq_some.mpr ⟨hnul, rfl, fun x hx => ?_⟩
        cases hnode : s.files.node x with
        | none => exact absurd ⟨x, hx, hnode⟩ hall
        | some n =>
          cases n with
          | directory => rfl
          | file content => exact absurd (.inr ⟨x, hx, content, hnode⟩) hfree
      rw [FileSystem.isDir_eq_true.mpr ⟨_, henter⟩] at hdir
      exact nomatch hdir
    refine ⟨m, hproper.isName_of_visited hnul (by simp) hm, hnone, ?_⟩
    rw [made, hmade]
    show files.node m ≠ none
    rw [hadded m, if_pos hm]
    exact Option.some_ne_none _
  · rw [herror] at hsucceeded
    exact nomatch hsucceeded

/-- Without a directory to begin with, the new one can be seen. -/
theorem Rejected.not_sameAnswers (h : Rejected s auth ns key value)
    (hroot : ∀ name ∈ s.rootPath, Path.IsName name)
    (hdir : s.files.isDir (s.keyDirPath ns key) = false) :
    ∃ e s', e.isRejection = true ∧ set auth ns key value s = .error (.error e) s' ∧
      ¬ SameAnswers s s' := by
  obtain ⟨e, s', he, hset, hlooked⟩ := h.set_eq fun name hname => (hroot name hname).nul
  obtain ⟨m, hm, hbefore, hmade⟩ := exists_made hroot h.directory hdir
  exact ⟨e, s', he, hset, FileStorage.not_sameAnswers hm hbefore (hlooked.node_ne_none hmade)⟩

/-- A first line in a log can be seen. -/
theorem Rejected.log_ne_none (h : Rejected s auth ns key value)
    (hroot : ∀ name ∈ s.rootPath, Path.IsName name)
    (hsame : ∀ e s', set auth ns key value s = .error (.error e) s' → e.isRejection = true →
      SameAnswers s s') (hdir : s.files.isDir (s.keyDirPath ns key) = true)
    (hold : (s.oldValue auth ns key).isSome = true) : s.files.node s.nextLog ≠ none := by
  intro hnone
  obtain ⟨e, s', he, hset, hlooked⟩ := h.set_eq fun name hname => (hroot name hname).nul
  rw [made_eq h.directory hdir] at hlooked
  have hplace : ∀ name ∈ s.nextLog, Path.IsName name := by
    intro name hname
    simp only [nextLog, auditDir, List.mem_append, List.mem_singleton] at hname
    obtain (hname | rfl) | rfl := hname
    · exact hroot name hname
    · decide
    · exact isName_logName _
  refine FileStorage.not_sameAnswers hplace hnone ?_ (hsame e s' hset he)
  generalize s.oldValue auth ns key = old at hlooked hold
  cases hlooked with
  | missing => cases hold
  | @found _ files _ log =>
    obtain ⟨content, hfile⟩ := log.file
    show files.node s.nextLog ≠ none
    rw [hfile]
    exact Option.some_ne_none _

/-- A rejected `set` cannot be seen afterwards iff it made neither a directory nor a log. -/
theorem set_rejected_iff (hroot : ∀ name ∈ s.rootPath, Path.IsName name) :
    (∀ e s', set auth ns key value s = .error (.error e) s' → e.isRejection = true →
      SameAnswers s s') ↔ (Rejected s auth ns key value → Prepared s auth ns key) := by
  have hnul : NulFree s.rootPath := fun name hname => (hroot name hname).nul
  constructor
  · intro hsame h
    have hdir : s.files.isDir (s.keyDirPath ns key) = true := by
      by_contra hdir
      obtain ⟨e, s', he, hset, hnot⟩ := h.not_sameAnswers hroot (by simpa using hdir)
      exact hnot (hsame e s' hset he)
    exact ⟨hdir, h.log_ne_none hroot hsame hdir⟩
  · intro hprepared e s' hset he
    obtain rfl | ⟨h, hlooked⟩ := set_rejected hnul he hset
    · exact SameAnswers.of_reads s' s'.reads
    · obtain ⟨hdir, hlog⟩ := hprepared h
      rw [made_eq h.directory hdir] at hlooked
      generalize s.oldValue auth ns key = old at hlooked hlog
      cases hlooked with
      | missing r => exact .of_reads s r
      | found d r log => exact (log.relogged r (hlog rfl)).sameAnswers hnul

end

/-! ## A value that does not fit -/

section one
open InMemoryStorage (admin)

theorem seeded_names : ∀ name ∈ seeded.rootPath, Path.IsName name := by
  rw [unwritten_seeded.1]
  decide

theorem set_rejected_iff_seeded : letI := limitedJson
    (∀ e s', set (some admin) "ns" "k" "abc".toUTF8 seeded = .error (.error e) s' →
      e.isRejection = true → SameAnswers seeded s') ↔
      (Rejected seeded (some admin) "ns" "k" "abc".toUTF8 →
        Prepared seeded (some admin) "ns" "k") := by
  let _ := limitedJson
  exact set_rejected_iff seeded_names

/-- The rejected key is listed. -/
theorem not_sameAnswers_set : ¬ ∀ [SerdeMetadata] (s s' : FileStorage) (auth : Option AuthContext)
    (ns key : String) (value : ByteArray) (e : StorageError),
    (∀ name ∈ s.rootPath, Path.IsName name) →
    set auth ns key value s = .error (.error e) s' → e.isRejection = true → SameAnswers s s' := by
  intro hall
  let _ := limitedJson
  obtain ⟨-, hopened, -, hempty, -, account, hlookup, hused, hquota⟩ := seeded_ok
  have hkey : Path.IsName "k" := by decide
  have hplain := hkey.isPlain
  have hnul := nulFree_place hempty.plain hplain
  have hpath := keyDirPath_of_plain (s := seeded) hempty.plain hplain
  set value : ByteArray := ⟨Array.replicate 1001 0⟩
  have hsize : value.size = 1001 := by simp [value, ByteArray.size]
  -- the directory is made, and there is nothing in it
  obtain ⟨s₁, hio, -, hs₁⟩ | ⟨e, -, m, hm, content, hfile⟩ :=
    io_createDirAll unknownError hopened hnul
  swap
  · exact absurd hfile (hempty.free "k" m hm content)
  rw [← hpath] at hio
  have hmade : s₁ = seeded.made "ns" "k" ∧
      succeeded (FileSystem.createDirAll (seeded.keyDirPath "ns" "k") seeded.files) = true := by
    unfold io at hio
    cases hcreate : FileSystem.createDirAll (seeded.keyDirPath "ns" "k") seeded.files with
    | ok _ files =>
      rw [hcreate] at hio
      refine ⟨?_, rfl⟩
      rw [made, hcreate]
      exact (EStateM.Result.ok.inj hio).2.symm
    | error e files =>
      rw [hcreate] at hio
      cases hio
  obtain ⟨rfl, hsucceeded⟩ := hmade
  have hentry : (seeded.made "ns" "k").entry "ns" "k" "metadata.json" = none := by
    rw [entry_of_plain (hopened.apart hs₁.apart) hempty.plain hplain, hs₁.data, mkdirs_concat]
    exact hempty.vacant "k" _
  have hold : seeded.oldValue (some admin) "ns" "k" = none := by
    have hmissing : readLatest (seeded.made "ns" "k") "ns" "k" s!"ns:k (no versions)" =
        .error (.notFound s!"ns:k") := by
      rw [readLatest, readKeyMetadata_eq, hentry]
      rfl
    have hread : checked (seeded.made "ns" "k") (some admin) "read" "ns"
        ("Namespace not found: " ++ "ns") = .ok () := by
      refine checked_eq_ok.mpr ⟨admin_permitted _ _, ?_⟩
      apply namespaceExists_of_data (hopened.apart hs₁.apart) hempty.plain
      show (seeded.made "ns" "k").data (place "ns" "k") ≠ none
      rw [hs₁.data, mkdirs_self]
      exact Option.some_ne_none _
    rw [oldValue, toOption_get (hopened.apart hs₁.apart).loggable hread, stored_of_error hmissing]
  have hrejected : Rejected seeded (some admin) "ns" "k" value := by
    refine ⟨checked_eq_ok.mpr ⟨admin_permitted _ _, hempty.namespaceExists⟩, hsucceeded, ?_⟩
    rw [hold, hsize]
    exact ⟨by decide, account, hlookup, by simp [hused], by simp [hused, hquota]⟩
  have hdir : seeded.files.isDir (seeded.keyDirPath "ns" "k") = false := by
    have hplace : seeded.data (place "ns" "k") = none := by
      rw [place, Path.components_of_isName hkey]
      exact hempty.empty _ (by simp)
    rw [FileSystem.isDir, hpath, FileSystem.find_names _ (hopened.nulFree_place hnul)]
    refine decide_eq_false fun hdir => ?_
    rw [show seeded.files.node _ = seeded.data (place "ns" "k") from rfl, hplace] at hdir
    cases hdir
  obtain ⟨e, s', he, hset, hnot⟩ := hrejected.not_sameAnswers seeded_names hdir
  exact hnot (hall seeded s' (some admin) "ns" "k" value e seeded_names hset he)

end one

end FileStorage

end Covm
