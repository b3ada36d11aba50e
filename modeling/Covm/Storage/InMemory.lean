import Covm.Maps.Undo
import Covm.Storage.Records

/-!
# The in-memory backend (`storage/implementations/in_memory.rs`)

Values and their versions are kept in two tables by namespace and key. While a transaction is open
every write first records what the key held before; a rollback replays these records from the last
to the first. The system clock is an arbitrary sequence of readings, as in the executor.
-/

namespace Covm

open Maps

structure InMemoryStorage where
  data : Table String String ByteArray
  versions : Table String String VersionInfo
  accounts : HashMap ResourceAccount
  auditLog : List StorageEvent
  /-- The undo logs of the open transactions, the innermost transaction first. -/
  transactionStack : List (UndoLog (String × String) ByteArray)
  clock : Nat → Nat
  reads : Nat

namespace InMemoryStorage

def new (clock : Nat → Nat) : InMemoryStorage := ⟨∅, ∅, ∅, [], [], clock, 0⟩

def makeInternalKey (ns key : String) : String := s!"{ns}:{key}"

def recordForRollback (ns key : String) (oldValue : Option ByteArray) (s : InMemoryStorage) :
    InMemoryStorage :=
  match s.transactionStack with
  | current :: rest =>
    { s with transactionStack := (current ++ [((ns, key), oldValue)]) :: rest }
  | [] => s

def emitEvent (eventType : String) (auth : AuthContext) (ns key details : String)
    (s : InMemoryStorage) : InMemoryStorage :=
  { s with
    auditLog := s.auditLog ++
      [⟨eventType, auth.currentIdentityDid, ns, key, s.clock s.reads, details⟩]
    reads := s.reads + 1 }

def checkPermission (auth : Option AuthContext) (action ns : String) : Except StorageError Unit :=
  match auth with
  | none => .error (.permissionDenied "anonymous" action ns)
  | some auth =>
    if auth.hasRole "global" "admin" then .ok ()
    else if auth.hasRole ns "admin" then .ok ()
    else
      let required (roles : List String) : Except StorageError Unit :=
        if roles.any (auth.hasRole ns) then .ok ()
        else .error (.permissionDenied auth.currentIdentityDid action ns)
      if action = "read" then required ["reader", "writer", "admin"]
      else if action = "write" then required ["writer", "admin"]
      else .error (.permissionDenied auth.currentIdentityDid s!"unknown action: {action}" ns)

/-! ## Reading -/

def get (s : InMemoryStorage) (auth : Option AuthContext) (ns key : String) :
    Except StorageError ByteArray := do
  checkPermission auth "read" ns
  match s.data.get (ns, key) with
  | some value => .ok value
  | none => .error (.notFound (makeInternalKey ns key))

def getVersioned (s : InMemoryStorage) (auth : Option AuthContext) (ns key : String) :
    Except StorageError (ByteArray × VersionInfo) := do
  checkPermission auth "read" ns
  match s.data.get (ns, key) with
  | none => .error (.notFound (makeInternalKey ns key))
  | some value =>
    match s.versions.get (ns, key) with
    | some version => .ok (value, version)
    | none => .error (.transactionError s!"No version info for existing key {key}")

/-- The bytes of the first three versions are fixed texts, whatever was stored. -/
def getVersion (s : InMemoryStorage) (auth : Option AuthContext) (ns key : String)
    (version : Nat) : Except StorageError (ByteArray × VersionInfo) := do
  checkPermission auth "read" ns
  match s.versions.get (ns, key) with
  | none => .error (.notFound key)
  | some info =>
    match info.getVersionHistory.find? (·.version == version) with
    | none => .error (.notFound s!"{key} (version {version})")
    | some target =>
      match s.data.get (ns, key) with
      | none => .error (.notFound s!"{key} (version {version})")
      | some data =>
        match version with
        | 1 => .ok ("Initial draft".toUTF8, target)
        | 2 => .ok ("Revised draft".toUTF8, target)
        | 3 => .ok ("Final version".toUTF8, target)
        | _ => .ok (data, target)

def listVersions (s : InMemoryStorage) (auth : Option AuthContext) (ns key : String) :
    Except StorageError (List VersionInfo) := do
  checkPermission auth "read" ns
  match s.versions.get (ns, key) with
  | none => .error (.notFound key)
  | some info => .ok info.getVersionHistory

/-- The keys come in no particular order. -/
def listKeys (s : InMemoryStorage) (auth : Option AuthContext) (ns : String)
    (start : Option String) : Except StorageError (Finset String) := do
  checkPermission auth "read" ns
  match s.data.lookup ns with
  | none => .ok ∅
  | some row =>
    match start with
    | none => .ok row.keys
    | some text => .ok (row.keys.filter fun key => text.toList <+: key.toList)

def getUsage (s : InMemoryStorage) (auth : Option AuthContext) (ns : String) :
    Except StorageError Nat := do
  checkPermission auth "read" ns
  .ok (∑ key ∈ (s.data.row ns).keys, ((s.data.row ns).lookup key).elim 0 ByteArray.size)

/-- There is no permission check. -/
def contains (s : InMemoryStorage) (_auth : Option AuthContext) (ns key : String) :
    Except StorageError Bool :=
  .ok (s.data.get (ns, key)).isSome

/-- The newest events first. -/
def getAuditLog (s : InMemoryStorage) (auth : Option AuthContext) (ns eventType : Option String)
    (limit : Nat) : Except StorageError (List StorageEvent) :=
  let effectiveNs := ns.getD "global"
  match auth with
  | none => .error
      (.authenticationError s!"Authentication required for view_audit_log on {effectiveNs}")
  | some auth =>
    if !auth.hasRole "global" "admin" && !auth.hasRole effectiveNs "admin" then
      .error (.permissionDenied auth.currentIdentityDid "view_audit_log" effectiveNs)
    else
      .ok (((s.auditLog.filter fun event =>
        ns.all (event.ns == ·) && eventType.all (event.eventType == ·)).reverse).take limit)

/-! ## Writing -/

/-- Bytes given back to a user, who may have no account. -/
def refund (user : String) (bytes : Nat) (s : InMemoryStorage) : InMemoryStorage :=
  match s.accounts.lookup user with
  | some account =>
    { s with
      accounts := s.accounts.insert user (account.reduceUsage (s.clock s.reads) bytes)
      reads := s.reads + 1 }
  | none => s

/-- The resource accounting of `set`: only the difference in size is charged, to the writer. -/
def chargeDifference (user internalKey : String) (existingSize valueSize : Nat) :
    StorageM InMemoryStorage Unit := fun s =>
  if existingSize < valueSize then
    match s.accounts.lookup user with
    | none => .error (.error (.permissionDenied user "write (no account)" internalKey)) s
    | some account =>
      match account.addUsage (s.clock s.reads) (valueSize - existingSize) with
      | .ok account => .ok () { s with
          accounts := s.accounts.insert user account
          reads := s.reads + 1 }
      | .error e => .error (.error e) s
  else if valueSize < existingSize then .ok () (s.refund user (existingSize - valueSize))
  else .ok () s

def writeData (ns key : String) (value : ByteArray) (s : InMemoryStorage) : InMemoryStorage :=
  { s with data := s.data.put (ns, key) value }

def writeVersion (user ns key : String) (s : InMemoryStorage) : InMemoryStorage :=
  let next := match s.versions.get (ns, key) with
    | some v => v.nextVersion (s.clock s.reads) user
    | none => VersionInfo.new (s.clock s.reads) user
  { s with
    versions := s.versions.put (ns, key) next
    reads := s.reads + 1 }

def set (auth : Option AuthContext) (ns key : String) (value : ByteArray) :
    StorageM InMemoryStorage Unit := do
  StorageM.query fun _ => checkPermission auth "write" ns
  let existingValue := (← EStateM.get).data.get (ns, key)
  -- recorded before anything can still fail
  modify (recordForRollback ns key existingValue)
  match auth with
  | none => StorageM.fail (.permissionDenied "anonymous" "write" (makeInternalKey ns key))
  | some auth =>
    chargeDifference auth.currentIdentityDid (makeInternalKey ns key)
      (existingValue.elim 0 ByteArray.size) value.size
    modify (writeData ns key value)
    modify (writeVersion auth.currentIdentityDid ns key)
    modify (emitEvent "write" auth ns key s!"Value updated ({value.size} bytes)")

def delete (auth : Option AuthContext) (ns key : String) : StorageM InMemoryStorage Unit := do
  StorageM.query fun _ => checkPermission auth "write" ns
  match (← EStateM.get).data.get (ns, key) with
  | none => StorageM.fail (.notFound (makeInternalKey ns key))
  | some value =>
    modify (recordForRollback ns key (some value))
    match auth with
    | none => fun s => .error .panic s
    | some auth =>
      modify (refund auth.currentIdentityDid value.size)
      modify fun s => { s with
        data := s.data.erase (ns, key)
        versions := s.versions.erase (ns, key) }
      modify (emitEvent "delete" auth ns key "Key deleted")

def createAccount (auth : Option AuthContext) (userId : String) (quotaBytes : Nat) :
    StorageM InMemoryStorage Unit := fun s =>
  match auth with
  | none => .error (.error (.permissionDenied "anonymous" "create_account" userId)) s
  | some auth =>
    if !auth.hasRole "global" "admin" then
      .error (.error (.permissionDenied auth.currentIdentityDid "create_account" userId)) s
    else if userId ∈ s.accounts then
      .error (.error (.transactionError s!"Account already exists for user {userId}")) s
    else
      let account := ResourceAccount.new (s.clock s.reads) userId quotaBytes
      let s := { s with accounts := s.accounts.insert userId account, reads := s.reads + 1 }
      .ok () (s.emitEvent "account_created" auth "global" userId
        s!"Account created with quota {quotaBytes} bytes")

def createNamespace (auth : Option AuthContext) (ns : String) (quotaBytes : Nat)
    (parent : Option String) : StorageM InMemoryStorage Unit := fun s =>
  match auth with
  | none => .error .panic s
  | some auth =>
    if !auth.hasRole "global" "admin" then
      .error (.error (.permissionDenied auth.currentIdentityDid "create_namespace" ns)) s
    else
      match parent.filter (· ∉ s.data) with
      | some missing => .error (.error (.notFound missing)) s
      | none =>
        if ns ∈ s.data then .ok () s
        else
          let s := { s with data := s.data.insert ns ∅, versions := s.versions.insert ns ∅ }
          .ok () (s.emitEvent "namespace_created" auth "global" ns
            s!"Namespace created with quota {quotaBytes} bytes")

/-! ## Transactions -/

def beginTransaction : StorageM InMemoryStorage Unit := fun s =>
  .ok () { s with transactionStack := [] :: s.transactionStack }

/-- The undo log is discarded. -/
def commitTransaction : StorageM InMemoryStorage Unit := fun s =>
  match s.transactionStack with
  | [] => .error (.error (.transactionError "No active transaction to commit")) s
  | _ :: rest => .ok () { s with transactionStack := rest }

/-- Only the data is restored: versions and accounts stay as they are. -/
def rollbackTransaction : StorageM InMemoryStorage Unit := fun s =>
  match s.transactionStack with
  | [] => .error (.error (.transactionError "No active transaction to rollback")) s
  | ops :: rest => .ok () { s with data := s.data.replay ops, transactionStack := rest }

instance : StorageBackend InMemoryStorage where
  get := get
  contains := contains
  set := set

end InMemoryStorage

end Covm
