import Covm.Files.Frames
import Covm.Storage.FileHistory
import Covm.Storage.FileKeeps

/-!
# The audit log of the file backend

Entries are appended to files that are called after the day, but `get_audit_log` reads a file
`audit.log` beside them. No operation writes a file of that name, whatever the namespaces, keys and
users are called, so that the answer is always the empty list; or an error, if a key was made into a
directory of that name.
-/

namespace Covm

open Files Partial

/-- The lines of a file and what `serde_json` makes of them: an event, or none; or what is wrong
with the file. -/
class EventLines where
  lines : FileContent → List (Except String (Option StorageEvent))

/-- `VersionDiff`, with its one kind of change. -/
structure VersionDiff where
  oldVersion : Nat
  newVersion : Nat
  createdBy : String
  timestamp : Nat
  changes : List (String × ByteArray × ByteArray)

namespace FileStorage

def auditLogPath (s : FileStorage) : Path := (s.root.join "audit_logs").join "audit.log"

/-- The events that are asked for, up to the limit. -/
def collect (ns eventType : Option String) (limit : Nat) (events : List StorageEvent) :
    List (Except String (Option StorageEvent)) → Except StorageError (List StorageEvent)
  | [] => .ok events
  | .error e :: _ => .error (.ioError "unknown" e)
  | .ok none :: rest => collect ns eventType limit events rest
  | .ok (some event) :: rest =>
    if ns.all (event.ns == ·) && eventType.all (event.eventType == ·) then
      if limit ≤ (events ++ [event]).length then .ok (events ++ [event])
      else collect ns eventType limit (events ++ [event]) rest
    else collect ns eventType limit events rest

def getAuditLog [EventLines] (s : FileStorage) (auth : Option AuthContext)
    (ns eventType : Option String) (limit : Nat) : Except StorageFault (List StorageEvent) :=
  let effectiveNs := ns.getD "global"
  match auth with
  | none => .error .panic
  | some auth =>
    if !auth.hasRole "global" "admin" && !auth.hasRole effectiveNs "admin" then
      .error (.error (.permissionDenied auth.currentIdentityDid "view_audit_log" effectiveNs))
    else if !s.files.exists_ s.auditLogPath then .ok []
    else
      match s.files.stat s.auditLogPath with
      | .error e => .error (.error (unknownError e))
      -- a directory can be opened, but not read
      | .ok .directory => .error (.error (unknownError .isADirectory))
      | .ok (.file content) =>
        (collect ns eventType limit [] (EventLines.lines content)).mapError .error

def diffVersions [SerdeMetadata] (auth : Option AuthContext) (ns key : String) (v₁ v₂ : Nat) :
    StorageM FileStorage VersionDiff := do
  StorageM.query fun _ => checkPermission auth "read" ns
  let (data₁, _) ← getVersion auth ns key v₁
  let (data₂, _) ← getVersion auth ns key v₂
  audit auth "diff_versions" ns (some key) s!"Diffed versions {v₁} and {v₂}"
  let changes := if data₁ ≠ data₂ then [("data", data₁, data₂)] else []
  return ⟨v₁, v₂, EconomicOperations.userOf auth, ← now, changes⟩

/-- Only the namespaces the caller has a role in, in no particular order. -/
def listNamespaces (auth : Option AuthContext) (parentNamespace : String) :
    StorageM FileStorage (Multiset NamespaceMetadata) := do
  let s ← EStateM.get
  if parentNamespace ≠ "" ∧ !s.namespaceExists parentNamespace then
    StorageM.fail (.notFound s!"Parent namespace not found: {parentNamespace}")
  let visible := s.namespaceCache.entries.filter fun entry =>
    (parentNamespace = "" ∨ entry.2.parent = some parentNamespace) ∧
      auth.any fun a => a.hasRole entry.1 "reader" || a.hasRole entry.1 "writer" ||
        a.hasRole entry.1 "admin" || a.hasRole "global" "admin"
  let namespaces := visible.map (·.2)
  let message := s!"Listed namespaces (found {namespaces.card})"
  if let some a := auth then
    recordAuditLog a "list_namespaces" parentNamespace none message
  return namespaces

/-- A call that may change the files. -/
inductive Operation where
  | get (auth : Option AuthContext) (ns key : String)
  | getVersioned (auth : Option AuthContext) (ns key : String)
  | getVersion (auth : Option AuthContext) (ns key : String) (version : Nat)
  | listVersions (auth : Option AuthContext) (ns key : String)
  | diffVersions (auth : Option AuthContext) (ns key : String) (v₁ v₂ : Nat)
  | listKeys (auth : Option AuthContext) (ns : String) (start : Option String)
  | listNamespaces (auth : Option AuthContext) (parentNamespace : String)
  | write (c : Call)
  | createNamespace (auth : Option AuthContext) (ns : String) (quotaBytes : Nat)
      (parent : Option String)
  | createAccount (auth : Option AuthContext) (userId : String) (quotaBytes : Nat)
  | beginTransaction
  | commitTransaction
  | rollbackTransaction

section
variable [SerdeMetadata]

def Operation.perform : Operation → StorageM FileStorage Unit
  | get auth ns key => do let _ ← FileStorage.get auth ns key
  | getVersioned auth ns key => do let _ ← FileStorage.getVersioned auth ns key
  | getVersion auth ns key version => do let _ ← FileStorage.getVersion auth ns key version
  | listVersions auth ns key => do let _ ← FileStorage.listVersions auth ns key
  | diffVersions auth ns key v₁ v₂ => do let _ ← FileStorage.diffVersions auth ns key v₁ v₂
  | listKeys auth ns start => do let _ ← FileStorage.listKeys auth ns start
  | listNamespaces auth parent => do let _ ← FileStorage.listNamespaces auth parent
  | write c => c.perform
  | createNamespace auth ns quota parent => FileStorage.createNamespace auth ns quota parent
  | createAccount auth userId quota => FileStorage.createAccount auth userId quota
  | beginTransaction => FileStorage.beginTransaction
  | commitTransaction => FileStorage.commitTransaction
  | rollbackTransaction => FileStorage.rollbackTransaction

def Operation.after (op : Operation) (s : FileStorage) : FileStorage := final (op.perform s)

end

/-! ## No file called `audit.log` -/

theorem log_ne_auditLog (date : String) : s!"log_{date}.jsonl" ≠ "audit.log" := by
  intro h
  have hlists := congrArg String.toList h
  rw [toList_log] at hlists
  simp at hlists

theorem versionName_ne_auditLog (n : Nat) : versionName n ≠ "audit.log" := by
  intro h
  have hlists := congrArg String.toList h
  rw [toList_versionName] at hlists
  simp at hlists

/-- Where the log is looked for, there is no file. -/
def Unwritten (root : Location) (s : FileStorage) : Prop :=
  s.rootPath = root ∧ FileSystem.NoFile (root ++ ["audit_logs", "audit.log"]) s.files

section unwritten
variable {root : Location}

theorem createDirAll_unwritten (toError : IoError → StorageError) (p : Path) :
    Keeps (Unwritten root) (io toError (FileSystem.createDirAll p)) :=
  io_keeps toError fun s hs => ⟨hs.1, FileSystem.createDirAll_noFile p s.files hs.2⟩

theorem removeDirAll_unwritten (toError : IoError → StorageError) (p : Path) :
    Keeps (Unwritten root) (io toError (FileSystem.removeDirAll p)) :=
  io_keeps toError fun s hs => ⟨hs.1, FileSystem.removeDirAll_noFile p s.files hs.2⟩

/-- Files under other names are written. -/
theorem writeWith_unwritten (toError : IoError → StorageError) {p : Path} {name : String}
    (hname : name ≠ "audit.log") (f : Option FileContent → FileContent) :
    Keeps (Unwritten root) (io toError (FileSystem.writeWith (p ++ [Component.name name]) f)) := by
  have hother : Files.Path.target [] (p ++ [Component.name name]) ≠ root ++ ["audit_logs", "audit.log"] := by
    rw [Path.target_append, Path.target_singleton, Path.step]
    intro heq
    have hlast := congrArg List.getLast? heq
    simp only [List.getLast?_append, Option.some_or, List.getLast?_cons, List.getLast?_nil,
      Option.getD_none, Option.getD_some, Option.some.injEq] at hlast
    exact hname hlast
  exact io_keeps toError fun s hs => ⟨hs.1, FileSystem.writeWith_noFile hother f s.files hs.2⟩

theorem recordAuditLog_unwritten (auth : AuthContext) (action ns : String) (key : Option String)
    (message : String) : Keeps (Unwritten root) (recordAuditLog auth action ns key message) := by
  have hlog (s : FileStorage) (timestamp : Nat) (entry : AuditLogEntry)
      (toError : IoError → StorageError) :
      Keeps (Unwritten root) (io toError (FileSystem.writeWith
        ((s.root.join "audit_logs").join (logName timestamp)) (FileContent.append entry))) := by
    rw [(isName_logName timestamp).join]
    exact writeWith_unwritten _ (log_ne_auditLog _) _
  have hnow : Keeps (Unwritten root) now := fun _ hs => hs
  unfold recordAuditLog
  refine hnow.bind fun timestamp => Keeps.get_bind fun s _ => Keeps.get_bind fun s' _ => ?_
  exact Keeps.ite ((createDirAll_unwritten _ _).bind fun _ => hlog s _ _ _) (hlog s _ _ _)

theorem unwritten_ofFiles : OfFiles (Unwritten root) where
  congr hfiles hroot _ _ hs := by
    unfold Unwritten
    rw [hfiles, hroot]
    exact hs
  logs := recordAuditLog_unwritten

/-- The file of an account ends in `.json`, whatever the user is called. -/
theorem writeAccount_unwritten (toError : IoError → StorageError) (s : FileStorage) (user : String)
    (content : FileContent) : Keeps (Unwritten root)
      (io toError (FileSystem.write (s.accountPath user) content)) := by
  obtain ⟨q, name, hpath, hsuffix⟩ := exists_accountPath s user
  rw [hpath]
  refine writeWith_unwritten _ ?_ _
  rintro rfl
  exact absurd hsuffix (by decide)

theorem unwritten_keepsKey (ns key user : String) : KeepsKey (Unwritten root) ns key user where
  toOfFiles := unwritten_ofFiles
  makes _ _ p _ toError := createDirAll_unwritten toError p
  writes _ _ name hname toError content := by
    refine writeWith_unwritten _ ?_ _
    obtain rfl | ⟨n, rfl⟩ := hname
    · decide
    · exact versionName_ne_auditLog n
  pays _ _ _ _ := .modify fun _ ht => ht
  charges _ _ _ t _ toError content := writeAccount_unwritten toError t user content

theorem writeNamespaceMetadata_unwritten (toError : IoError → StorageError) (s : FileStorage)
    (ns : String) (content : FileContent) : Keeps (Unwritten root)
      (io toError (FileSystem.write (s.namespaceMetadataPath ns) content)) := by
  have hname : Path.IsName "namespace_metadata.json" := by decide
  rw [namespaceMetadataPath, hname.join]
  exact writeWith_unwritten _ (by decide) _

theorem modify_unwritten {f : FileStorage → FileStorage} (hfiles : ∀ s, (f s).files = s.files)
    (hroot : ∀ s, (f s).rootPath = s.rootPath) :
    Keeps (Unwritten root) (modify f : StorageM FileStorage PUnit) := by
  refine .modify fun s hs => ?_
  unfold Unwritten
  rw [hfiles, hroot]
  exact hs

/-! ### The operations -/

theorem createNamespace_unwritten (auth : Option AuthContext) (ns : String) (quotaBytes : Nat)
    (parent : Option String) :
    Keeps (Unwritten root) (createNamespace auth ns quotaBytes parent) := by
  unfold createNamespace
  refine Keeps.guard (StorageM.fail_keeps _) (Keeps.get_bind fun s _ => ?_)
  refine Keeps.guard (StorageM.fail_keeps _) (Keeps.guard (StorageM.fail_keeps _) ?_)
  refine (createDirAll_unwritten _ _).bind fun _ => (createDirAll_unwritten _ _).bind fun _ => ?_
  refine Keeps.bind ?_ fun _ => Keeps.bind (modify_unwritten (fun _ => rfl) fun _ => rfl) fun _ => ?_
  · refine Keeps.get_bind fun s _ => (createDirAll_unwritten _ _).bind fun _ => ?_
    exact writeNamespaceMetadata_unwritten _ s _ _
  · exact (recordForRollback_keeps unwritten_ofFiles _).bind fun _ =>
      audit_keeps unwritten_ofFiles _ _ _ _ _

theorem createAccount_unwritten (auth : Option AuthContext) (userId : String) (quotaBytes : Nat) :
    Keeps (Unwritten root) (createAccount auth userId quotaBytes) := by
  have hnow : Keeps (Unwritten root) now := now_keeps unwritten_ofFiles
  unfold createAccount
  refine (StorageM.query_keeps _).bind fun _ => Keeps.get_bind fun s _ => ?_
  refine (createDirAll_unwritten _ _).bind fun _ => Keeps.get_bind fun s' _ => ?_
  refine Keeps.get_bind fun _ _ => Keeps.guard (StorageM.fail_keeps _) ?_
  refine hnow.bind fun _ => hnow.bind fun _ => ?_
  refine Keeps.bind (modify_unwritten (fun _ => rfl) fun _ => rfl) fun _ => ?_
  exact (writeAccount_unwritten _ s' userId _).bind fun _ => audit_keeps unwritten_ofFiles _ _ _ _ _

section
variable [SerdeMetadata]

theorem getVersion_unwritten (auth : Option AuthContext) (ns key : String) (version : Nat) :
    Keeps (Unwritten root) (getVersion auth ns key version) :=
  (requireNamespace_keeps _ _ _ _).bind fun _ => (StorageM.query_keeps _).bind fun _ =>
    (audit_keeps unwritten_ofFiles _ _ _ _ _).bind fun _ => .pure _

omit [SerdeMetadata] in
theorem removeExisting_unwritten (path : Path) : Keeps (Unwritten root) (removeExisting path) :=
  Keeps.get_bind fun _ _ => Keeps.ite (removeDirAll_unwritten _ _) (.pure _)

theorem undo_unwritten (op : TransactionOp) : Keeps (Unwritten root) (undo op) := by
  have hnow : Keeps (Unwritten root) now := now_keeps unwritten_ofFiles
  have hkey (ns key : String) : KeepsKey (Unwritten root) ns key "" := unwritten_keepsKey ns key ""
  cases op with
  | set ns key previousData prevVersion =>
    cases previousData with
    | none => exact Keeps.get_bind fun _ _ => removeExisting_unwritten _
    | some data =>
      cases prevVersion with
      | none => exact StorageM.fail_keeps _
      | some version =>
        refine (writeVersionData_keeps (hkey ns key) _ _).bind fun _ => ?_
        refine (StorageM.query_keeps _).bind fun _ => ?_
        exact writeKeyMetadata_keeps (hkey ns key) _
  | delete ns key previousData previousVersion =>
    refine (writeVersionData_keeps (hkey ns key) _ _).bind fun _ => Keeps.get_bind fun s _ => ?_
    refine Keeps.ite (hnow.bind fun _ => hnow.bind fun _ => ?_) (.pure _)
    exact writeKeyMetadata_keeps (hkey ns key) _
  | createNamespace ns =>
    refine Keeps.get_bind fun _ _ => (removeExisting_unwritten _).bind fun _ => ?_
    exact modify_unwritten (fun _ => rfl) fun _ => rfl
  | deleteNamespace ns metadata =>
    refine Keeps.bind (modify_unwritten (fun _ => rfl) fun _ => rfl) fun _ => ?_
    refine Keeps.get_bind fun s _ => (createDirAll_unwritten _ _).bind fun _ => ?_
    refine (createDirAll_unwritten _ _).bind fun _ => Keeps.get_bind fun s' _ => ?_
    exact writeNamespaceMetadata_unwritten _ s' _ _

theorem undoAll_unwritten (ops : List TransactionOp) : Keeps (Unwritten root) (undoAll ops) := by
  induction ops with
  | nil => exact .pure _
  | cons op ops ih => exact (undo_unwritten op).bind fun _ => ih

/-- No operation makes a file where the log is looked for. -/
theorem perform_unwritten (op : Operation) : Keeps (Unwritten root) op.perform := by
  have haudit (auth : Option AuthContext) (action ns : String) (key : Option String)
      (message : String) : Keeps (Unwritten root) (audit auth action ns key message) :=
    audit_keeps unwritten_ofFiles auth action ns key message
  cases op with
  | get auth ns key => exact (get_keeps unwritten_ofFiles auth ns key).bind fun _ => .pure _
  | getVersioned auth ns key =>
    refine Keeps.bind ?_ fun _ => .pure _
    exact (requireNamespace_keeps _ _ _ _).bind fun _ => (StorageM.query_keeps _).bind fun _ =>
      (haudit _ _ _ _ _).bind fun _ => .pure _
  | getVersion auth ns key version =>
    exact (getVersion_unwritten auth ns key version).bind fun _ => .pure _
  | listVersions auth ns key =>
    refine Keeps.bind ?_ fun _ => .pure _
    exact (requireNamespace_keeps _ _ _ _).bind fun _ => (StorageM.query_keeps _).bind fun _ =>
      (haudit _ _ _ _ _).bind fun _ => .pure _
  | diffVersions auth ns key v₁ v₂ =>
    refine Keeps.bind ?_ fun _ => .pure _
    refine (StorageM.query_keeps _).bind fun _ => (getVersion_unwritten _ _ _ _).bind fun _ => ?_
    refine (getVersion_unwritten _ _ _ _).bind fun _ => (haudit _ _ _ _ _).bind fun _ => ?_
    exact (now_keeps unwritten_ofFiles).bind fun _ => .pure _
  | listKeys auth ns start =>
    refine Keeps.bind ?_ fun _ => .pure _
    refine (requireNamespace_keeps _ _ _ _).bind fun _ => Keeps.get_bind fun s _ => ?_
    refine Keeps.ite (.pure _) ((StorageM.query_keeps _).bind fun _ => ?_)
    exact (haudit _ _ _ _ _).bind fun _ => .pure _
  | listNamespaces auth parent =>
    refine Keeps.bind (Keeps.get_bind fun s _ => ?_) fun _ => .pure _
    refine Keeps.guard (StorageM.fail_keeps _) ?_
    cases auth with
    | none => exact .pure _
    | some a => exact (recordAuditLog_unwritten a _ _ _ _).bind fun _ => .pure _
  | write c =>
    cases c with
    | set auth ns key value => exact set_keeps (unwritten_keepsKey ns key _) value
    | delete auth ns key =>
      exact delete_keeps unwritten_ofFiles auth fun _ _ toError => removeDirAll_unwritten toError _
  | createNamespace auth ns quota parent => exact createNamespace_unwritten auth ns quota parent
  | createAccount auth userId quota => exact createAccount_unwritten auth userId quota
  | beginTransaction => exact modify_unwritten (fun _ => rfl) fun _ => rfl
  | commitTransaction =>
    refine Keeps.get_bind fun s _ => ?_
    cases s.transactions with
    | nil => exact StorageM.fail_keeps _
    | cons ops rest => exact modify_unwritten (fun _ => rfl) fun _ => rfl
  | rollbackTransaction =>
    refine Keeps.get_bind fun s _ => ?_
    cases s.transactions with
    | nil => exact StorageM.fail_keeps _
    | cons ops rest =>
      exact Keeps.bind (modify_unwritten (fun _ => rfl) fun _ => rfl) fun _ => undoAll_unwritten _

end

end unwritten

/-! ## What the log tells -/

def Call.action : Call → String
  | set .. => "write"
  | delete .. => "delete"

section
variable [SerdeMetadata]

/-- User, namespace and key of a `set` or `delete` that succeeds, if it is asked for. -/
def Operation.told (ns eventType : Option String) : Operation → FileStorage →
    List (String × String × String)
  | write c, s =>
    if succeeded (c.perform s) && ns.all (c.ns == ·) && eventType.all (c.action == ·) then
      [(c.user, c.ns, c.key)]
    else []
  | _, _ => []

/-- What is to be told of a run. -/
def expected (ns eventType : Option String) :
    List Operation → FileStorage → List (String × String × String)
  | [], _ => []
  | op :: ops, s => op.told ns eventType s ++ expected ns eventType ops (op.after s)

/-- After the run the events asked for are returned, in the order in which they happened. -/
def Queryable [EventLines] (a : AuthContext) (ns eventType : Option String) (limit : Nat)
    (ops : List Operation) (s : FileStorage) : Prop :=
  ∃ events, getAuditLog (runAll Operation.after ops s) (some a) ns eventType limit = .ok events ∧
    (expected ns eventType ops s).Sublist (events.map fun e => (e.userId, e.ns, e.key))

theorem runAll_unwritten {root : Location} (ops : List Operation) {s : FileStorage}
    (h : Unwritten root s) : Unwritten root (runAll Operation.after ops s) :=
  (meets_of_forall (P := fun _ _ => True) (fun _ _ _ => trivial) s).invariant
    (fun op t _ ht => perform_unwritten op t ht) h

omit [SerdeMetadata] in
/-- An administrator gets no events, or an error. -/
theorem getAuditLog_unwritten [EventLines] {root : Location} {s : FileStorage}
    (h : Unwritten root s) {a : AuthContext} (hadmin : a.hasRole "global" "admin" = true)
    (ns eventType : Option String) (limit : Nat) {events : List StorageEvent} :
    getAuditLog s (some a) ns eventType limit = .ok events ↔
      events = [] ∧ s.files.isDir s.auditLogPath = false := by
  have haudit : Path.IsName "audit_logs" := by decide
  have hlog : Path.IsName "audit.log" := by decide
  have hpath : s.auditLogPath = Path.names (root ++ ["audit_logs", "audit.log"]) := by
    rw [auditLogPath, FileStorage.root, haudit.join, hlog.join, h.1]
    simp [Path.names]
  unfold getAuditLog FileSystem.isDir FileSystem.exists_
  simp only [hadmin, Bool.not_true, Bool.false_and, Bool.false_eq_true, if_false]
  cases hfind : s.files.find s.auditLogPath with
  | none => simp [eq_comm]
  | some n =>
    cases n with
    | directory => simp [stat_of_find hfind]
    | file content =>
      obtain ⟨l, hresolve, hnode⟩ := FileSystem.find_eq_some.mp hfind
      obtain rfl := FileSystem.resolve_eq_target hresolve
      rw [hpath, Path.target_names, List.nil_append] at hnode
      exact absurd hnode (h.2 content)

/-- After any run the log tells what happened iff nothing is asked for that happened, and the log is
not the directory of a key. -/
theorem queryable_iff [EventLines] {s : FileStorage}
    (hnew : FileSystem.NoFile (s.rootPath ++ ["audit_logs", "audit.log"]) s.files)
    {a : AuthContext} (hadmin : a.hasRole "global" "admin" = true) (ns eventType : Option String)
    (limit : Nat) (ops : List Operation) :
    Queryable a ns eventType limit ops s ↔ expected ns eventType ops s = [] ∧
      (runAll Operation.after ops s).files.isDir s.auditLogPath = false := by
  have hrun := runAll_unwritten ops ⟨rfl, hnew⟩
  have hpath : (runAll Operation.after ops s).auditLogPath = s.auditLogPath := by
    rw [auditLogPath, FileStorage.root, hrun.1]
    rfl
  unfold Queryable
  simp only [getAuditLog_unwritten hrun hadmin, hpath]
  constructor
  · rintro ⟨_, ⟨rfl, hdir⟩, hsublist⟩
    exact ⟨List.sublist_nil.mp hsublist, hdir⟩
  · rintro ⟨hnone, hdir⟩
    exact ⟨[], ⟨rfl, hdir⟩, by rw [hnone]; exact List.nil_sublist _⟩

end

/-! ## One `set` -/

section one
open InMemoryStorage (admin)

def firstSet : Operation := .write (.set (some admin) "ns" "a" "x".toUTF8)

theorem unwritten_seeded : Unwritten ["data"] seeded := by
  have hdirectories : Keeps (Unwritten ["data"]) createDirectories := by
    refine Keeps.get_bind fun s _ => (createDirAll_unwritten _ _).bind fun _ => ?_
    refine (createDirAll_unwritten _ _).bind fun _ => (createDirAll_unwritten _ _).bind fun _ => ?_
    exact createDirAll_unwritten _ _
  have hseed : Keeps (Unwritten ["data"]) seed :=
    hdirectories.bind fun _ => (createAccount_unwritten _ _ _).bind fun _ =>
      createNamespace_unwritten _ _ _ _
  have hblank : Unwritten ["data"] blank := by
    refine ⟨rfl, fun content hfile => ?_⟩
    have hnone : blank.files.node (["data"] ++ ["audit_logs", "audit.log"]) = none :=
      Finmap.lookup_eq_none.mpr fun hmem =>
        List.cons_ne_nil _ _ ((Finmap.mem_singleton _ _ _).mp hmem)
    rw [hnone] at hfile
    exact nomatch hfile
  exact hseed blank hblank

theorem expected_firstSet : letI := limitedJson
    expected (some "ns") none [firstSet] seeded = [("admin", "ns", "a")] := by
  let _ := limitedJson
  obtain ⟨-, hopened, -, hempty, -, account, hlookup, hused, hquota⟩ := seeded_ok
  have ha : Path.IsName "a" := by decide
  have hsize : "x".toUTF8.size = 1 := by decide
  obtain ⟨hok, -⟩ := set_first_ok hopened hempty.plain ha.isPlain hempty.namespaceExists
    (hempty.vacant "a") (hempty.free "a") "x".toUTF8 hlookup (by omega) (by omega)
  have hperform : succeeded ((Call.set (some admin) "ns" "a" "x".toUTF8).perform seeded) = true :=
    hok
  show Operation.told _ _ firstSet seeded ++ [] = _
  rw [List.append_nil, firstSet, Operation.told, hperform]
  decide

theorem queryable_iff_firstSet : letI := limitedJson
    letI : EventLines := ⟨fun _ => []⟩
    Queryable admin (some "ns") none 1 [firstSet] seeded ↔
      expected (some "ns") none [firstSet] seeded = [] ∧
        (runAll Operation.after [firstSet] seeded).files.isDir seeded.auditLogPath = false := by
  let _ := limitedJson
  let _ : EventLines := ⟨fun _ => []⟩
  have hadmin : admin.hasRole "global" "admin" = true := by decide
  have hnew := unwritten_seeded
  exact queryable_iff (by rw [hnew.1]; exact hnew.2) hadmin (some "ns") none 1 [firstSet]

/-- The log does not tell of a `set` that was made. -/
theorem set_not_told : ¬ ∀ [SerdeMetadata] [EventLines] (s : FileStorage) (a : AuthContext)
    (ns : String) (limit : Nat) (ops : List Operation),
    FileSystem.NoFile (s.rootPath ++ ["audit_logs", "audit.log"]) s.files →
    a.hasRole "global" "admin" = true → ops.length ≤ limit →
    Queryable a (some ns) none limit ops s := by
  intro h
  let _ := limitedJson
  let _ : EventLines := ⟨fun _ => []⟩
  have hadmin : admin.hasRole "global" "admin" = true := by decide
  have hnew := unwritten_seeded
  obtain ⟨events, hevents, hsublist⟩ := h seeded admin "ns" 1 [firstSet]
    (by rw [hnew.1]; exact hnew.2) hadmin (by decide)
  obtain ⟨rfl, -⟩ := (getAuditLog_unwritten (runAll_unwritten _ hnew) hadmin _ _ _).mp hevents
  rw [expected_firstSet] at hsublist
  exact absurd hsublist (by decide)

end one

end FileStorage

end Covm
