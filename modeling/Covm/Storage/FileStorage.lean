import Covm.Files.Changes
import Covm.Storage.Namespaces
import Mathlib.Data.List.DropRight

/-!
# The file backend (`storage/implementations/file_storage.rs`)

Everything is kept in files below a root directory; namespaces, keys and user names are joined to
paths as they come. A file holds bytes or the JSON text of a record; reading JSON is `serde_json`,
a parameter, which gives up on what is nested 128 levels deep. Locks never fail, and the system
clock stays within the years that dates can be written for.
-/

namespace Covm

open Files

/-- The number of versions inside one another. -/
def VersionInfo.chainLength : VersionInfo → Nat
  | ⟨_, _, _, none⟩ => 1
  | ⟨_, _, _, some prev⟩ => prev.chainLength + 1

structure KeyMetadata where
  key : String
  createdBy : String
  createdAt : Nat
  versions : List VersionInfo

/-- The nesting of the JSON text: the record, the list, and the versions inside one another. -/
def KeyMetadata.depth (metadata : KeyMetadata) : Nat :=
  2 + (metadata.versions.map VersionInfo.chainLength).foldr max 0

structure FileResourceAccount where
  userId : String
  quotaBytes : Nat
  usedBytes : Nat
  createdAt : Nat
  lastUpdated : Nat

inductive TransactionOp where
  | set (ns key : String) (previousData : Option ByteArray) (prevVersion : Option VersionInfo)
  | delete (ns key : String) (previousData : ByteArray) (previousVersion : Nat)
  | createNamespace (ns : String)
  | deleteNamespace (ns : String) (metadata : NamespaceMetadata)

structure AuditLogEntry where
  timestamp : Nat
  userId : String
  action : String
  ns : String
  key : Option String
  details : String

inductive FileContent where
  | data (bytes : ByteArray)
  | keyMetadata (metadata : KeyMetadata)
  | namespaceMetadata (metadata : NamespaceMetadata)
  | account (account : FileResourceAccount)
  | auditLog (entries : List AuditLogEntry)

/-- An audit log with one more line; no other file has the name of a log. -/
def FileContent.append (entry : AuditLogEntry) : Option FileContent → FileContent
  | none => .auditLog [entry]
  | some (.auditLog entries) => .auditLog (entries ++ [entry])
  | some other => other

/-- `serde_json` as it is used on metadata files. -/
class SerdeMetadata where
  /-- The bytes of a file. -/
  bytes : FileContent → ByteArray
  bytes_data (b : ByteArray) : bytes (.data b) = b
  /-- `from_str::<KeyMetadata>` -/
  parse : FileContent → Except String KeyMetadata
  parse_shallow (metadata : KeyMetadata) :
    metadata.depth < 128 → parse (.keyMetadata metadata) = .ok metadata
  parse_deep (metadata : KeyMetadata) :
    128 ≤ metadata.depth → ∃ e, parse (.keyMetadata metadata) = .error e
  /-- In an account the first field is missing, which is found out at its last line. -/
  parse_account : ∃ e, ∀ account, parse (.account account) = .error e

/-- The seconds up to the last day `chrono` knows. -/
abbrev Timestamp := {t : Nat // t ≤ 8210266876799}

/-! ## Dates -/

/-- Year, month and day of a number of days since 1970. -/
def civilFromDays (days : Nat) : Nat × Nat × Nat :=
  let z := days + 719468
  let era := z / 146097
  let doe := z % 146097
  let yoe := (doe - doe / 1460 + doe / 36524 - doe / 146096) / 365
  let doy := doe - (365 * yoe + yoe / 4 - yoe / 100)
  let mp := (5 * doy + 2) / 153
  let month := if mp < 10 then mp + 3 else mp - 9
  (yoe + era * 400 + if month ≤ 2 then 1 else 0, month, doy - (153 * mp + 2) / 5 + 1)

/-- A number with zeros in front of it. -/
def padded (width n : Nat) : String :=
  String.ofList (List.replicate (width - (toString n).length) '0') ++ toString n

/-- The format `%Y%m%d`; a year with five digits has a sign. -/
def dateText (timestamp : Nat) : String :=
  let (year, month, day) := civilFromDays (timestamp / 86400)
  (if 9999 < year then "+" else "") ++ padded 4 year ++ padded 2 month ++ padded 2 day

structure FileStorage where
  files : FileSystem FileContent
  rootPath : Location
  /-- The open transactions, the innermost one first. -/
  transactions : List (List TransactionOp)
  namespaceCache : HashMap NamespaceMetadata
  accountCache : HashMap FileResourceAccount
  clock : Nat → Timestamp
  reads : Nat

namespace FileStorage

/-- `now_with_default` -/
def now : StorageM FileStorage Nat := fun s =>
  .ok (s.clock s.reads).val { s with reads := s.reads + 1 }

/-- An operation on the files, whose errors are mapped. -/
def io {α : Type} (toError : IoError → StorageError) (x : FileSystem.Change FileContent α) :
    StorageM FileStorage α := fun s =>
  match x s.files with
  | .ok a files => .ok a { s with files := files }
  | .error e files => .error (.error (toError e)) { s with files := files }

/-- `From<io::Error>` -/
def unknownError (e : IoError) : StorageError := .ioError "unknown" e.display

def mapIoError (ns : String) (key : Option String) (operation : String) : IoError → StorageError
  | .notFound =>
    match key with
    | some k => .notFound s!"{ns}:{k} (IO error: file not found during {operation})"
    | none => .notFound s!"Namespace '{ns}' not found during {operation}"
  | .alreadyExists =>
    let name := key.getD ""
    .serializationError "VersionData" s!"Resource already exists: {ns}:{name} (during {operation})"
  | e =>
    let shown := (key.map fun k => s!"Some({debugString k})").getD "None"
    .ioError operation s!"IO error: {e.display} (namespace: {ns}, key: {shown})"

/-! ## Paths -/

def root (s : FileStorage) : Path := Path.names s.rootPath

def namespacePath (s : FileStorage) (ns : String) : Path :=
  (s.root.join "namespaces").join ns

def keyDirPath (s : FileStorage) (ns key : String) : Path :=
  ((s.namespacePath ns).join "keys").join key

def versionName (version : Nat) : String := s!"v{version}.data"

def versionPath (s : FileStorage) (ns key : String) (version : Nat) : Path :=
  (s.keyDirPath ns key).join (versionName version)

def metadataPath (s : FileStorage) (ns key : String) : Path :=
  (s.keyDirPath ns key).join "metadata.json"

def namespaceMetadataPath (s : FileStorage) (ns : String) : Path :=
  (s.namespacePath ns).join "namespace_metadata.json"

def accountName (userId : String) : String := s!"{userId}.json"

def accountPath (s : FileStorage) (userId : String) : Path :=
  (s.root.join "accounts").join (accountName userId)

def logName (timestamp : Nat) : String := s!"log_{dateText timestamp}.jsonl"

/-! ## Reading and writing files -/

section
variable [SerdeMetadata]

def readKeyMetadata (s : FileStorage) (ns key : String) : Except StorageError KeyMetadata := do
  let path := s.metadataPath ns key
  if !s.files.exists_ path then
    throw (.notFound s!"{ns}:{key}")
  let _ ← (s.files.stat path).mapError (mapIoError ns (some key) "opening metadata file")
  let text ← (s.files.read path).mapError (mapIoError ns (some key) "reading metadata file")
  (SerdeMetadata.parse text).mapError (.serializationError "KeyMetadata")

def readVersionData (s : FileStorage) (ns key : String) (version : Nat) :
    Except StorageError ByteArray := do
  let path := s.versionPath ns key version
  if !s.files.exists_ path then
    throw (.notFound s!"{ns}:{key} (version {version})")
  let _ ← (s.files.stat path).mapError
    (mapIoError ns (some key) s!"opening version {version} file for reading")
  let content ← (s.files.read path).mapError
    (mapIoError ns (some key) s!"reading version {version} data")
  return SerdeMetadata.bytes content

end

def writeKeyMetadata (ns key : String) (metadata : KeyMetadata) : StorageM FileStorage Unit := do
  let path := (← EStateM.get).metadataPath ns key
  io (mapIoError ns (some key) "creating directory for metadata")
    (FileSystem.createDirAll path.parent)
  io (mapIoError ns (some key) "opening metadata file for writing")
    (FileSystem.write path (.keyMetadata metadata))

def writeVersionData (ns key : String) (version : Nat) (data : ByteArray) :
    StorageM FileStorage Unit := do
  let path := (← EStateM.get).versionPath ns key version
  io (mapIoError ns (some key) s!"creating directory for version {version}")
    (FileSystem.createDirAll path.parent)
  io (mapIoError ns (some key) s!"opening version {version} file for writing")
    (FileSystem.write path (.data data))

def writeNamespaceMetadata (metadata : NamespaceMetadata) : StorageM FileStorage Unit := do
  let path := (← EStateM.get).namespaceMetadataPath metadata.path
  io (mapIoError metadata.path none "creating namespace directory")
    (FileSystem.createDirAll path.parent)
  io (mapIoError metadata.path none "opening namespace metadata file for writing")
    (FileSystem.write path (.namespaceMetadata metadata))

def recordAuditLog (auth : AuthContext) (action ns : String) (key : Option String)
    (message : String) : StorageM FileStorage Unit := do
  let now ← now
  let auditDir := (← EStateM.get).root.join "audit_logs"
  let entry := ⟨now, auth.currentIdentityDid, action, ns, key, message⟩
  if !(← EStateM.get).files.exists_ auditDir then
    io (mapIoError ns key "creating audit log directory") (FileSystem.createDirAll auditDir)
  io (mapIoError ns key "opening audit log file")
    (FileSystem.writeWith (auditDir.join (logName now)) (FileContent.append entry))

/-- The audit log of a call that must have a caller. -/
def audit (auth : Option AuthContext) (action ns : String) (key : Option String)
    (message : String) : StorageM FileStorage Unit :=
  match auth with
  | some a => recordAuditLog a action ns key message
  | none => fun s => .error .panic s

/-- A namespace exists if it is known or its path leads somewhere. -/
def namespaceExists (s : FileStorage) (ns : String) : Bool :=
  decide (ns ∈ s.namespaceCache) || s.files.exists_ (s.namespacePath ns)

/-- Recorded in the innermost transaction, if there is one. -/
def recordForRollback (op : TransactionOp) : StorageM FileStorage Unit :=
  modify fun s =>
    match s.transactions with
    | current :: rest => { s with transactions := (current ++ [op]) :: rest }
    | [] => s

def checkPermission (auth : Option AuthContext) (action ns : String) : Except StorageError Unit :=
  match auth with
  | none => .error (.permissionDenied "anonymous" action ns)
  | some auth =>
    if auth.hasRole "global" "admin" then .ok ()
    else if auth.hasRole ns "admin" then .ok ()
    else
      let required (roles : List String) : Except StorageError Unit :=
        if roles.any (auth.hasRole ns) then .ok ()
        else .error (.permissionDenied auth.currentIdentityDid action ns)
      if action = "read" then required ["reader", "writer"]
      else if action = "write" then required ["writer"]
      else .error (.permissionDenied auth.currentIdentityDid s!"unknown action: {action}" ns)

/-- The two checks every call on a namespace starts with. -/
def requireNamespace (auth : Option AuthContext) (action ns : String) (missing : String) :
    StorageM FileStorage Unit := do
  StorageM.query fun _ => checkPermission auth action ns
  if !(← EStateM.get).namespaceExists ns then
    StorageM.fail (.notFound missing)

/-! ## Reading -/

section
variable [SerdeMetadata]

/-- The newest version of a key with its value; `noVersions` is what is missing if there is none. -/
def readLatest (s : FileStorage) (ns key noVersions : String) :
    Except StorageError (ByteArray × VersionInfo) := do
  let metadata ← readKeyMetadata s ns key
  match metadata.versions.getLast? with
  | none => throw (.notFound noVersions)
  | some latest => return (← readVersionData s ns key latest.version, latest)

def get (auth : Option AuthContext) (ns key : String) : StorageM FileStorage ByteArray := do
  requireNamespace auth "read" ns s!"Namespace not found: {ns}"
  let found ← StorageM.query (readLatest · ns key s!"{ns}:{key} (no versions)")
  audit auth "read" ns (some key) s!"Read version {found.2.version}"
  return found.1

def getVersioned (auth : Option AuthContext) (ns key : String) :
    StorageM FileStorage (ByteArray × VersionInfo) := do
  requireNamespace auth "read" ns s!"{ns}:{key}"
  let found ← StorageM.query (readLatest · ns key s!"{ns}:{key}")
  audit auth "read" ns (some key) s!"Read versioned data (v{found.2.version})"
  return found

/-- A version of a key by its number. -/
def readVersion (s : FileStorage) (ns key : String) (version : Nat) :
    Except StorageError (ByteArray × VersionInfo) := do
  let metadata ← readKeyMetadata s ns key
  match metadata.versions.find? (·.version == version) with
  | none => throw (.notFound s!"{ns}:{key} (version {version})")
  | some info => return (← readVersionData s ns key version, info)

def getVersion (auth : Option AuthContext) (ns key : String) (version : Nat) :
    StorageM FileStorage (ByteArray × VersionInfo) := do
  requireNamespace auth "read" ns s!"Namespace not found: {ns}"
  let found ← StorageM.query (readVersion · ns key version)
  audit auth "read_version" ns (some key) s!"Read version {version}"
  return found

def listVersions (auth : Option AuthContext) (ns key : String) :
    StorageM FileStorage (List VersionInfo) := do
  requireNamespace auth "read" ns s!"Namespace not found: {ns}"
  let metadata ← StorageM.query (readKeyMetadata · ns key)
  audit auth "list_versions" ns (some key) "Listed versions for key"
  return metadata.versions

end

/-- The directories among the keys, in no particular order. -/
def listKeys (auth : Option AuthContext) (ns : String) (start : Option String) :
    StorageM FileStorage (Multiset String) := do
  requireNamespace auth "read" ns s!"Namespace not found: {ns}"
  let s ← EStateM.get
  let keysDir := (s.namespacePath ns).join "keys"
  if !s.files.exists_ keysDir then
    return 0
  let entries ← StorageM.query fun s => (s.files.readDir keysDir).mapError unknownError
  let directories := (entries.filter fun entry => some entry.2 = some .directory).map Prod.fst
  let keys := directories.filter fun name => start.all fun text => text.toList <+: name.toList
  let shown := (start.map fun text => s!"Some({debugString text})").getD "None"
  audit auth "list_keys" ns none s!"Listed keys with prefix {shown}"
  return keys

def contains (s : FileStorage) (auth : Option AuthContext) (ns key : String) :
    Except StorageError Bool := do
  checkPermission auth "read" ns
  if !s.namespaceExists ns then
    return false
  return s.files.exists_ (s.metadataPath ns key)

/-! ## Writing -/

section
variable [SerdeMetadata]

/-- What a key held before a `set`: nothing, if it cannot be read. -/
def existingData (auth : Option AuthContext) (ns key : String) (metadataExists : Bool) :
    StorageM FileStorage (Option ByteArray) := fun s =>
  if metadataExists then
    match get auth ns key s with
    | .ok data s' => .ok (some data) s'
    | .error (.error _) s' => .ok none s'
    | .error .panic s' => .error .panic s'
  else .ok none s

end

/-- The resource accounting of `set`: growth is charged to the writer's account, if there is one.
Nothing is ever given back. -/
def chargeGrowth (user : String) (existingSize valueSize : Nat) : StorageM FileStorage Unit := do
  if existingSize < valueSize then
    match (← EStateM.get).accountCache.lookup user with
    | none => return
    | some account =>
      let used ← StorageM.addU64 account.usedBytes (valueSize - existingSize)
      if account.quotaBytes < used then
        StorageM.fail (.quotaExceeded s!"Storage for user '{user}'" used account.quotaBytes)
      let account := { account with usedBytes := used }
      modify fun s => { s with accountCache := s.accountCache.insert user account }
      io unknownError (FileSystem.write ((← EStateM.get).accountPath user) (.account account))

section
variable [SerdeMetadata]

/-- The newest version of a key, whose metadata is there. -/
def currentVersion (ns key : String) (metadataExists : Bool) :
    StorageM FileStorage (Option VersionInfo) := do
  if metadataExists then
    let metadata ← StorageM.query (readKeyMetadata · ns key)
    return metadata.versions.getLast?
  else return none

/-- Writes the metadata with a new version, and returns the number of that version. -/
def addVersion (user ns key : String) (metadataExists : Bool) : StorageM FileStorage Nat := do
  if metadataExists then
    let metadata ← StorageM.query (readKeyMetadata · ns key)
    let latest := metadata.versions.getLast?
    let version ← StorageM.addU64 ((latest.map (·.version)).getD 0) 1
    let info := ⟨version, user, ← now, latest⟩
    writeKeyMetadata ns key { metadata with versions := metadata.versions ++ [info] }
    return version
  else
    let info := ⟨1, user, ← now, none⟩
    writeKeyMetadata ns key ⟨key, user, ← now, [info]⟩
    return 1

def set (auth : Option AuthContext) (ns key : String) (value : ByteArray) :
    StorageM FileStorage Unit := do
  requireNamespace auth "write" ns s!"{ns}:{key}"
  -- made before anything is checked
  io unknownError (FileSystem.createDirAll ((← EStateM.get).keyDirPath ns key))
  let s ← EStateM.get
  let metadataExists := s.files.exists_ (s.metadataPath ns key)
  let existing ← existingData auth ns key metadataExists
  let user := EconomicOperations.userOf auth
  chargeGrowth user (existing.elim 0 ByteArray.size) value.size
  let current ← currentVersion ns key metadataExists
  recordForRollback (.set ns key existing current)
  let version ← addVersion user ns key metadataExists
  writeVersionData ns key version value
  audit auth "write" ns (some key) s!"Set v{version} ({value.size} bytes)"

def delete (auth : Option AuthContext) (ns key : String) : StorageM FileStorage Unit := do
  requireNamespace auth "write" ns s!"Namespace not found: {ns}"
  let found ← StorageM.query (readLatest · ns key s!"{ns}:{key} (no versions)")
  recordForRollback (.delete ns key found.1 found.2.version)
  io (mapIoError ns (some key) "deleting key directory")
    (FileSystem.removeDirAll ((← EStateM.get).keyDirPath ns key))
  audit auth "delete" ns (some key) s!"Deleted version {found.2.version}"

end

def createNamespace (auth : Option AuthContext) (ns : String) (quotaBytes : Nat)
    (parent : Option String) : StorageM FileStorage Unit := do
  let canCreate := auth.any fun a =>
    a.hasRole "global" "admin" || parent.any (a.hasRole · "admin")
  if !canCreate then
    StorageM.fail (.permissionDenied ((auth.map (·.currentIdentityDid)).getD "anonymous")
      "create_namespace" ns)
  let s ← EStateM.get
  let name := parent.getD ""
  if parent.any fun p => !s.namespaceExists p then
    StorageM.fail (.notFound s!"Parent namespace not found: {name}")
  if s.namespaceExists ns then
    StorageM.fail (.transactionError s!"Namespace already exists: {ns}")
  let namespaceDir := s.namespacePath ns
  io (mapIoError ns none "creating namespace directory") (FileSystem.createDirAll namespaceDir)
  io (mapIoError ns none "creating namespace keys directory")
    (FileSystem.createDirAll (namespaceDir.join "keys"))
  let metadata := ⟨ns, (auth.map (·.currentIdentityDid)).getD "SYSTEM", quotaBytes, 0, parent, ∅⟩
  writeNamespaceMetadata metadata
  modify fun s => { s with namespaceCache := s.namespaceCache.insert ns metadata }
  recordForRollback (.createNamespace ns)
  audit auth "create_namespace" ns none s!"Created namespace with quota {quotaBytes} bytes"

def createAccount (auth : Option AuthContext) (userId : String) (quotaBytes : Nat) :
    StorageM FileStorage Unit := do
  StorageM.query fun _ => checkPermission auth "admin" "global"
  let accountsDir := (← EStateM.get).root.join "accounts"
  io unknownError (FileSystem.createDirAll accountsDir)
  let accountPath := (← EStateM.get).accountPath userId
  if (← EStateM.get).files.exists_ accountPath then
    StorageM.fail (.transactionError s!"Account already exists for user {userId}")
  let account := ⟨userId, quotaBytes, 0, ← now, ← now⟩
  modify fun s => { s with accountCache := s.accountCache.insert userId account }
  io unknownError (FileSystem.write accountPath (.account account))
  audit auth "account_created" "global" (some userId)
    s!"Created account with {quotaBytes} byte quota"

instance recordingBackend [SerdeMetadata] : RecordingBackend FileStorage where
  get := get
  contains := contains
  set := set

/-! ## Transactions -/

def beginTransaction : StorageM FileStorage Unit :=
  modify fun s => { s with transactions := [] :: s.transactions }

def commitTransaction : StorageM FileStorage Unit := do
  match (← EStateM.get).transactions with
  | [] => StorageM.fail (.transactionError "No active transaction to commit")
  | _ :: rest => modify fun s => { s with transactions := rest }

section
variable [SerdeMetadata]

/-- Removes the directory of a path, if the path leads anywhere. -/
def removeExisting (path : Path) : StorageM FileStorage Unit := do
  if (← EStateM.get).files.exists_ path then
    io unknownError (FileSystem.removeDirAll path)

def undo : TransactionOp → StorageM FileStorage Unit
  | .set ns key (some data) (some version) => do
    writeVersionData ns key version.version data
    let metadata ← StorageM.query (readKeyMetadata · ns key)
    let versions := metadata.versions.rdropWhile fun v => decide (version.version < v.version)
    writeKeyMetadata ns key { metadata with versions := versions }
  | .set ns key none _ => do
    removeExisting ((← EStateM.get).keyDirPath ns key)
  | .set _ _ (some _) none => StorageM.fail (.transactionError "Inconsistent transaction data")
  | .delete ns key previousData previousVersion => do
    writeVersionData ns key previousVersion previousData
    let s ← EStateM.get
    if !s.files.exists_ (s.metadataPath ns key) then
      let createdAt ← now
      let info := ⟨previousVersion, "SYSTEM_ROLLBACK", ← now, none⟩
      writeKeyMetadata ns key ⟨key, "SYSTEM_ROLLBACK", createdAt, [info]⟩
  | .createNamespace ns => do
    removeExisting ((← EStateM.get).namespacePath ns)
    modify fun s => { s with namespaceCache := s.namespaceCache.erase ns }
  | .deleteNamespace ns metadata => do
    modify fun s => { s with namespaceCache := s.namespaceCache.insert ns metadata }
    let namespaceDir := (← EStateM.get).namespacePath ns
    io unknownError (FileSystem.createDirAll namespaceDir)
    io unknownError (FileSystem.createDirAll (namespaceDir.join "keys"))
    io unknownError (FileSystem.write ((← EStateM.get).namespaceMetadataPath ns)
      (.namespaceMetadata metadata))

/-- Undoes operations in this order, up to the first error. -/
def undoAll : List TransactionOp → StorageM FileStorage Unit
  | [] => pure ()
  | op :: ops => do
    undo op
    undoAll ops

/-- The transaction is over even if an operation cannot be undone. -/
def rollbackTransaction : StorageM FileStorage Unit := do
  match (← EStateM.get).transactions with
  | [] => StorageM.fail (.transactionError "No active transaction to rollback")
  | ops :: rest =>
    modify fun s => { s with transactions := rest }
    undoAll ops.reverse

end

/-! ## Creation -/

/-- The directories below the root, which `new` makes if they are not there. -/
def createDirectories : StorageM FileStorage Unit := do
  let root := (← EStateM.get).root
  io (fun e => .ioError "create_namespaces_dir"
      s!"Unable to create namespaces directory: {e.display}")
    (FileSystem.createDirAll (root.join "namespaces"))
  io (fun e => .ioError "create_accounts_dir"
      s!"Unable to create accounts directory: {e.display}")
    (FileSystem.createDirAll (root.join "accounts"))
  io (fun e => .ioError "create_audit_logs_dir"
      s!"Unable to create audit logs directory: {e.display}")
    (FileSystem.createDirAll (root.join "audit_logs"))
  io (fun e => .ioError "create_transactions_dir"
      s!"Unable to create transactions directory: {e.display}")
    (FileSystem.createDirAll (root.join "transactions"))

/-- `new` where there is no storage yet: nothing is loaded into the caches. -/
def new (files : FileSystem FileContent) (rootPath : Location) (clock : Nat → Timestamp) :
    Except StorageFault FileStorage :=
  match createDirectories ⟨files, rootPath, [], ∅, ∅, clock, 0⟩ with
  | .ok _ s => .ok s
  | .error e _ => .error e

end FileStorage

end Covm
