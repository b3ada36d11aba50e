import Covm.Partial.Within
import Covm.Vm.Errors

/-!
# Storage backends (`storage/traits.rs`, `storage/auth.rs`)

`StorageBackend` has the methods of the trait the VM goes through. `EconomicOperations` are the
default methods the source gives every backend: balances and reputations are decimal numbers kept
under keys built from the names. A `u64` overflow panics. Each operation that builds an event is
given the time it reads from the system clock.
-/

namespace Covm

open Partial

/-- The equality test of the core library, whatever library is imported beside it. -/
instance decidableEqByteArray : DecidableEq ByteArray := ByteArray.instDecidableEq

/-- The caller and the roles granted by namespace and role name. -/
structure AuthContext where
  currentIdentityDid : String
  roles : HashMap (HashMap (Finset String))

namespace AuthContext

def new (currentIdentityDid : String) : AuthContext := ⟨currentIdentityDid, ∅⟩

def addRoleToIdentity (auth : AuthContext) (did ns role : String) : AuthContext :=
  let nsRoles := (auth.roles.lookup ns).getD ∅
  let identities := (nsRoles.lookup role).getD ∅
  { auth with roles := auth.roles.insert ns (nsRoles.insert role (insert did identities)) }

def addRole (auth : AuthContext) (ns role : String) : AuthContext :=
  auth.addRoleToIdentity auth.currentIdentityDid ns role

def hasRoleForIdentity (auth : AuthContext) (did ns role : String) : Bool :=
  match auth.roles.lookup ns with
  | some nsRoles =>
    match nsRoles.lookup role with
    | some identities => decide (did ∈ identities)
    | none => false
  | none => false

def hasRole (auth : AuthContext) (ns role : String) : Bool :=
  auth.hasRoleForIdentity auth.currentIdentityDid ns role

end AuthContext

structure StorageEvent where
  eventType : String
  userId : String
  ns : String
  key : String
  timestamp : Nat
  details : String
  deriving DecidableEq

/-- Calls that may change the backend. -/
abbrev StorageM (S α : Type) := EStateM StorageFault S α

class StorageBackend (S : Type) where
  get : S → Option AuthContext → String → String → Except StorageError ByteArray
  contains : S → Option AuthContext → String → String → Except StorageError Bool
  set : Option AuthContext → String → String → ByteArray → StorageM S Unit

/-- The type of the backends of a VM that is never given one. -/
inductive NoStorage

instance : StorageBackend NoStorage where
  get s := nomatch s
  contains s := nomatch s
  set _ _ _ _ := fun s => nomatch s

/-- `str::parse::<u64>`. -/
def parseU64 (s : String) : Option Nat :=
  let digits := match s.toList with
    | '+' :: cs => cs
    | cs => cs
  if digits ≠ [] ∧ digits.all Char.isDigit then
    let n := digits.foldl (fun n c => 10 * n + (c.toNat - '0'.toNat)) 0
    if n < 2 ^ 64 then some n else none
  else none

namespace StorageM

variable {S α : Type}

def fail (e : StorageError) : StorageM S α := fun s => .error (.error e) s

/-- A call on `&self`. -/
def query (f : S → Except StorageError α) : StorageM S α := fun s =>
  match f s with
  | .ok a => .ok a s
  | .error e => .error (.error e) s

theorem get_apply (s : S) : (EStateM.get : StorageM S S) s = .ok s s := rfl

theorem modify_apply (f : S → S) (s : S) : (modify f : StorageM S PUnit) s = .ok ⟨⟩ (f s) := rfl

theorem bind_of_ok {β : Type} {x : StorageM S α} {f : α → StorageM S β} {s s' : S} {a : α}
    (h : x s = .ok a s') : (x >>= f) s = f a s' := by
  simp only [bind, EStateM.bind, h]

theorem bind_of_error {β : Type} {x : StorageM S α} {f : α → StorageM S β} {s s' : S}
    {e : StorageFault} (h : x s = .error e s') : (x >>= f) s = .error e s' := by
  simp only [bind, EStateM.bind, h]

theorem query_of_ok {f : S → Except StorageError α} {s : S} {a : α} (h : f s = .ok a) :
    query f s = .ok a s := by
  simp only [query, h]

theorem query_of_error {f : S → Except StorageError α} {s : S} {e : StorageError}
    (h : f s = .error e) : query f s = .error (.error e) s := by
  simp only [query, h]

/-- `a + b` on `u64`. -/
def addU64 (a b : Nat) : StorageM S Nat := fun s =>
  if a + b < 2 ^ 64 then .ok (a + b) s else .error .panic s

theorem addU64_of_lt {a b : Nat} (h : a + b < 2 ^ 64) (s : S) : addU64 a b s = .ok (a + b) s :=
  if_pos h

theorem addU64_of_le {a b : Nat} (h : 2 ^ 64 ≤ a + b) (s : S) : addU64 a b s = .error .panic s :=
  if_neg (Nat.not_lt.mpr h)

section
variable {P : S → Prop}

theorem query_keeps (f : S → Except StorageError α) : Keeps P (query f) := by
  apply Keeps.of_final_eq
  intro s
  unfold query
  cases f s <;> rfl

theorem fail_keeps (e : StorageError) : Keeps P (fail e : StorageM S α) :=
  .of_final_eq fun _ => rfl

theorem addU64_keeps (a b : Nat) : Keeps P (addU64 a b) := by
  apply Keeps.of_final_eq
  intro s
  unfold addU64
  split <;> rfl

end

end StorageM

/-- The backends where a call of `get` may leave a record behind. -/
class RecordingBackend (S : Type) where
  get : Option AuthContext → String → String → StorageM S ByteArray
  contains : S → Option AuthContext → String → String → Except StorageError Bool
  set : Option AuthContext → String → String → ByteArray → StorageM S Unit

namespace RecordingBackend

variable {S : Type} [StorageBackend S]

instance ofStorageBackend : RecordingBackend S where
  get auth ns key := StorageM.query (StorageBackend.get · auth ns key)
  contains := StorageBackend.contains
  set := StorageBackend.set

@[simp] theorem get_eq (auth : Option AuthContext) (ns key : String) :
    (get auth ns key : StorageM S ByteArray) =
      StorageM.query (StorageBackend.get · auth ns key) := rfl

@[simp] theorem contains_eq (s : S) (auth : Option AuthContext) (ns key : String) :
    contains s auth ns key = StorageBackend.contains s auth ns key := rfl

@[simp] theorem set_eq (auth : Option AuthContext) (ns key : String) (bytes : ByteArray) :
    (set auth ns key bytes : StorageM S Unit) = StorageBackend.set auth ns key bytes := rfl

end RecordingBackend

namespace EconomicOperations

def userOf (auth : Option AuthContext) : String :=
  (auth.map (·.currentIdentityDid)).getD "system"

section
variable {S : Type} [RecordingBackend S]

/-- The number kept under a key; `0` if there is none or it does not parse. -/
def storedU64 (auth : Option AuthContext) (ns key : String) : StorageM S Nat := do
  if ← StorageM.query (RecordingBackend.contains · auth ns key) then
    let bytes ← RecordingBackend.get auth ns key
    match String.fromUTF8? bytes with
    | some s => return (parseU64 s).getD 0
    | none => return 0
  else return 0

def setU64 (auth : Option AuthContext) (ns key : String) (n : Nat) : StorageM S Unit :=
  RecordingBackend.set auth ns key (toString n).toUTF8

def reputationKey (identityId : String) : String := s!"identities/{identityId}/reputation"

/-- Reading a reputation is not announced. -/
def getReputation (auth : Option AuthContext) (ns identityId : String) :
    StorageM S (Nat × Option StorageEvent) := do
  return (← storedU64 auth ns (reputationKey identityId), none)

def setReputation (now : Nat) (auth : Option AuthContext) (ns identityId : String)
    (value : Nat) : StorageM S (Option StorageEvent) := do
  let key := reputationKey identityId
  setU64 auth ns key value
  return some ⟨"set_reputation", userOf auth, ns, key, now,
    s!"Set reputation for {identityId} to {value}"⟩

end

variable {S : Type} [StorageBackend S]

def requireResource (auth : Option AuthContext) (ns resource : String) :
    StorageM S Unit := do
  if !(← StorageM.query (StorageBackend.contains · auth ns s!"resources/{resource}/metadata")) then
    StorageM.fail (.resourceNotFound resource)

def createResource (auth : Option AuthContext) (ns resource : String) : StorageM S Unit :=
  let metadata := "\x7b\"id\": \"" ++ resource ++ "\", \"namespace\": \"" ++ ns ++ "\"\x7d"
  StorageBackend.set auth ns s!"resources/{resource}/metadata" metadata.toUTF8

def accountKey (resource account : String) : String :=
  s!"resources/{resource}/accounts/{account}"

def mint (now : Nat) (auth : Option AuthContext) (ns resource account : String) (amount : Nat)
    (reason : String) : StorageM S (Option StorageEvent) := do
  requireResource auth ns resource
  let key := accountKey resource account
  let current ← storedU64 auth ns key
  let balance ← StorageM.addU64 current amount
  setU64 auth ns key balance
  return some ⟨"mint", userOf auth, ns, key, now,
    s!"Minted {amount} of {resource} for {account}: {reason}"⟩

def transfer (now : Nat) (auth : Option AuthContext) (ns resource source target : String)
    (amount : Nat) (reason : String) : StorageM S (Option StorageEvent) := do
  requireResource auth ns resource
  let fromKey := accountKey resource source
  let fromBalance ← storedU64 auth ns fromKey
  if fromBalance < amount then
    StorageM.fail (.insufficientBalance
      s!"Account {source} has insufficient balance for resource {resource}")
  let toKey := accountKey resource target
  let toBalance ← storedU64 auth ns toKey
  -- both new balances are computed before either is written
  let newTo ← StorageM.addU64 toBalance amount
  setU64 auth ns fromKey (fromBalance - amount)
  setU64 auth ns toKey newTo
  return some ⟨"transfer", userOf auth, ns, fromKey ++ "->" ++ toKey, now,
    s!"Transferred {amount} of {resource} from {source} to {target}: {reason}"⟩

def burn (now : Nat) (auth : Option AuthContext) (ns resource account : String) (amount : Nat)
    (reason : String) : StorageM S (Option StorageEvent) := do
  requireResource auth ns resource
  let key := accountKey resource account
  let current ← storedU64 auth ns key
  if current < amount then
    StorageM.fail (.insufficientBalance
      s!"Account {account} has insufficient balance for resource {resource}")
  setU64 auth ns key (current - amount)
  return some ⟨"burn", userOf auth, ns, key, now,
    s!"Burned {amount} of {resource} from {account}: {reason}"⟩

def getBalance (now : Nat) (auth : Option AuthContext) (ns resource account : String) :
    StorageM S (Nat × Option StorageEvent) := do
  requireResource auth ns resource
  let key := accountKey resource account
  let balance ← storedU64 auth ns key
  return (balance, some ⟨"get_balance", userOf auth, ns, key, now,
    s!"Retrieved balance of {resource} for {account}: {balance}"⟩)

def store (now : Nat) (auth : Option AuthContext) (ns key : String) (value : ByteArray) :
    StorageM S (Option StorageEvent) := do
  StorageBackend.set auth ns key value
  return some ⟨"store", userOf auth, ns, key, now, s!"Stored data for key {key}"⟩

def load (now : Nat) (auth : Option AuthContext) (ns key : String) :
    StorageM S (ByteArray × Option StorageEvent) := do
  let data ← StorageM.query (StorageBackend.get · auth ns key)
  return (data, some ⟨"load", userOf auth, ns, key, now, s!"Loaded data for key {key}"⟩)

end EconomicOperations

end Covm
