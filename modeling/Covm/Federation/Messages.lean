import Covm.Number.Basic
import Covm.Vm.Types

/-!
# Federated proposals and votes (`federation/messages.rs`, `identity.rs`)

The messages that proposals and votes are, and of an identity what admits a vote: its key, and the
cooperative named in its profile.
-/

namespace Covm

/-- Only members of these cooperatives vote. -/
inductive ProposalScope where
  | singleCoop (coopId : String)
  | multiCoop (coopIds : List String)
  | globalFederation

inductive VotingModel where
  | oneMemberOneVote
  | oneCoopOneVote

inductive FederatedProposal.Status where
  | open
  | closed
  | executed
  | rejected
  | expired
  deriving DecidableEq

structure FederatedProposal where
  proposalId : String
  ns : String
  options : List String
  creator : String
  createdAt : Int
  scope : ProposalScope
  votingModel : VotingModel
  /-- In seconds since 1970. -/
  expiresAt : Option Int
  status : FederatedProposal.Status

structure FederatedVote (F : Type) where
  proposalId : String
  voter : String
  rankedChoices : List F
  message : String
  signature : String

namespace FederatedVote

variable {F : Type} [Number F]

/-- Only finite numbers can be read back from JSON. -/
def IsFinite (vote : FederatedVote F) : Prop := ∀ x ∈ vote.rankedChoices, Number.isFinite x = true

end FederatedVote

/-- `serde_json::Value` in a profile; numbers and containers are not looked into. -/
inductive ProfileField where
  | null
  | bool (b : Bool)
  | number (text : String)
  | string (s : String)
  | container (text : String)

structure Profile where
  publicUsername : String
  otherFields : HashMap ProfileField

structure Identity where
  did : String
  publicKeyBytes : ByteArray
  profile : Profile
  identityType : String

namespace Identity

def getMetadata (identity : Identity) (key : String) : Option String :=
  match identity.profile.otherFields.lookup key with
  | some (.string s) => some s
  | _ => none

def belongsTo (identity : Identity) (coopId : String) : Bool :=
  (identity.getMetadata "coop_id").any (· == coopId)

/-- There is always a scheme, and always a key. -/
def cryptoScheme (_ : Identity) : Option String := some "ed25519"

def publicKey (identity : Identity) : Option ByteArray := some identity.publicKeyBytes

end Identity

/-- Whether an identity may vote. -/
def ProposalScope.Admits (identity : Identity) : ProposalScope → Prop
  | singleCoop coopId => identity.belongsTo coopId = true
  | multiCoop coopIds => ∃ coopId ∈ coopIds, identity.belongsTo coopId = true
  | globalFederation => True

end Covm
