import Covm.Storage.FileHistory
import Covm.Storage.Isolation
import Covm.Vm.Reputation

/-!
# Reputations in the file backend

A reputation is kept in the directory its key leads to, and the name of an identity may begin with
slashes, which do not count in a path. So every reputation is also the one of other identities, and
with it theirs are changed. Reading it writes an audit log, whose text does not matter to whether
the read succeeds.
-/

namespace Covm

open Files Partial

namespace FileStorage

/-! ### Reading by another name -/

section
variable [SerdeMetadata] {s : FileStorage} {auth : Option AuthContext} {ns key key' : String}

end

end FileStorage

namespace EconomicOperations

section
variable {S : Type} [RecordingBackend S] {b : S} {auth : Option AuthContext} {ns : String}

end

section
variable [SerdeMetadata] (s : FileStorage) (auth : Option AuthContext) (ns identityId : String)

end

end EconomicOperations

namespace VMExecution

open EconomicOperations

/-- The amount is zero and no reputation has changed. -/
def Unnoticed {S : Type} [RecordingBackend S] (b b' : S) (n : Nat) : Prop :=
  n = 0 ∧ ∀ auth ns other,
    reportedReputation b' auth ns other = reportedReputation b auth ns other

section
variable [SerdeMetadata] {x : VMExecution FileStorage} {identityId : String}
  {b b' : FileStorage} {n current : Nat}

end

open InMemoryStorage (admin)

end VMExecution

end Covm
