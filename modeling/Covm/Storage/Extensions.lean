import Covm.Storage.InMemory

/-!
# JSON values in a backend (`StorageExtensions` of `storage/traits.rs`)

The source gives these operations to every backend. `Serde` is what `serde_json` does with a type:
its errors are texts.
-/

namespace Covm

/-- `serde_json` on the values of a type. -/
class Serde (T : Type) where
  /-- `std::any::type_name` -/
  typeName : String
  toVec : T → Except String ByteArray
  fromSlice : ByteArray → Except String T

/-- What is written for a value is read as the value, or not at all if it is not readable. -/
structure Serde.Faithful {T : Type} [Serde T] (readable : Prop) (value : T) : Prop where
  reads : readable → ∀ bytes, Serde.toVec value = .ok bytes → Serde.fromSlice bytes = .ok value
  refuses : ¬ readable → ∀ bytes, Serde.toVec value = .ok bytes →
    ∃ e, Serde.fromSlice (T := T) bytes = .error e

/-- A backend that numbers the versions of a key. -/
class VersionedBackend (S : Type) extends StorageBackend S where
  getVersioned : S → Option AuthContext → String → String →
    Except StorageError (ByteArray × VersionInfo)

instance : VersionedBackend InMemoryStorage where
  getVersioned := InMemoryStorage.getVersioned

namespace StorageExtensions

variable {S T : Type} [Serde T]

/-- The bytes of a value, and of the bytes the value; errors name the type. -/
def encode (value : T) : Except StorageError ByteArray :=
  match Serde.toVec value with
  | .ok bytes => .ok bytes
  | .error details => .error (.serializationError (Serde.typeName T) details)

def decode (T : Type) [Serde T] (bytes : ByteArray) : Except StorageError T :=
  match Serde.fromSlice (T := T) bytes with
  | .ok value => .ok value
  | .error details => .error (.serializationError (Serde.typeName T) details)

theorem decode_of_ok {bytes : ByteArray} {value : T} (h : Serde.fromSlice bytes = .ok value) :
    decode T bytes = .ok value := by
  simp only [decode, h]

def getJson [StorageBackend S] (T : Type) [Serde T] (s : S) (auth : Option AuthContext)
    (ns key : String) : Except StorageError T := do
  decode T (← StorageBackend.get s auth ns key)

def setJson [StorageBackend S] (auth : Option AuthContext) (ns key : String) (value : T) :
    StorageM S Unit := do
  let bytes ← StorageM.query fun _ => encode value
  StorageBackend.set auth ns key bytes

/-- A key that is not there passes the check, whatever version is expected. -/
def checkExpected [VersionedBackend S] (auth : Option AuthContext) (ns key : String)
    (expected : Nat) : StorageM S Unit := do
  if ← StorageM.query (StorageBackend.contains · auth ns key) then
    let (_, info) ← StorageM.query (VersionedBackend.getVersioned · auth ns key)
    if info.version ≠ expected then
      StorageM.fail (.versionConflict info.version expected key)

def setJsonVersioned [VersionedBackend S] (auth : Option AuthContext) (ns key : String)
    (value : T) (expectedVersion : Option Nat) : StorageM S Nat := do
  match expectedVersion with
  | some expected => checkExpected auth ns key expected
  | none => pure ()
  setJson auth ns key value
  let (_, info) ← StorageM.query (VersionedBackend.getVersioned · auth ns key)
  return info.version

end StorageExtensions

end Covm
