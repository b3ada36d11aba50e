import Covm.Federation.Messages
import Covm.Maps.Latest
import Covm.Storage.Extensions
import Covm.Storage.FileStorage

/-!
# Storage of proposals and votes (`federation/storage.rs`)

A `FederationStorage` is a cache in front of a backend. A proposal is written to its own namespace
and read from the namespace `federation`; the votes of a proposal are one list, which a vote is
appended to. The cache has the votes that were cast through it, one of each voter. Every read and
write of votes is anonymous. The mutex around the cache is left out: it is never poisoned.
-/

namespace Covm

/-- The calls the federation makes on a backend; a read may leave a trace in it. -/
class FederationBackend (S : Type) where
  get : Option AuthContext → String → String → StorageM S ByteArray
  set : Option AuthContext → String → String → ByteArray → StorageM S Unit

instance : FederationBackend InMemoryStorage where
  get auth ns key := StorageM.query (StorageBackend.get · auth ns key)
  set := StorageBackend.set

instance [SerdeMetadata] : FederationBackend FileStorage where
  get := FileStorage.get
  set := FileStorage.set

namespace FederationBackend

variable {S T : Type} [FederationBackend S] [Serde T]

def getJson (T : Type) [Serde T] (auth : Option AuthContext) (ns key : String) : StorageM S T := do
  let bytes ← get auth ns key
  StorageM.query fun _ => StorageExtensions.decode T bytes

def setJson (auth : Option AuthContext) (ns key : String) (value : T) : StorageM S Unit := do
  let bytes ← StorageM.query fun _ => StorageExtensions.encode value
  set auth ns key bytes

def getIdentity [Serde Identity] (identityId : String) : StorageM S Identity := do
  let bytes ← get none "identity" s!"identities/{identityId}"
  match Serde.fromSlice (T := Identity) bytes with
  | .ok identity => return identity
  | .error details => StorageM.fail (.serializationError "Identity" details)

end FederationBackend

/-- The votes of a proposal are in the order they came in. -/
structure FederationCache (F : Type) where
  proposals : HashMap FederatedProposal
  votes : HashMap (List (FederatedVote F))

/-- Calls through a cache. -/
abbrev FederationM (F S α : Type) := EStateM StorageFault (FederationCache F × S) α

namespace FederationM

variable {F S α : Type}

def onBackend (x : StorageM S α) : FederationM F S α := fun (cache, s) =>
  match x s with
  | .ok a s' => .ok a (cache, s')
  | .error e s' => .error e (cache, s')

def onCache (f : FederationCache F → FederationCache F) : FederationM F S Unit := fun (cache, s) =>
  .ok () (f cache, s)

def fail (details : String) : FederationM F S α := throw (.error (.other details))

/-- `map_err` -/
def mapErr (f : StorageError → StorageError) (x : FederationM F S α) : FederationM F S α :=
  fun st =>
  match x st with
  | .error (.error e) st' => .error (.error (f e)) st'
  | r => r

/-- An error told in the words of the federation. -/
def failing (what : String) (e : StorageError) : StorageError := .other s!"{what}: {e.display}"

end FederationM

namespace FederationStorage

open FederationM

variable {F S : Type}

def new : FederationCache F := ⟨∅, ∅⟩

def federationNs : String := "federation"

def votesNs : String := "votes"

def makeProposalKey (proposalId : String) : String := "federation/proposals/" ++ proposalId

def makeVotesKey (proposalId : String) : String := "federation/votes/" ++ proposalId

def cacheProposal (proposal : FederatedProposal) (cache : FederationCache F) : FederationCache F :=
  { cache with proposals := cache.proposals.insert proposal.proposalId proposal }

/-- The last vote of a voter takes the place of the one before. -/
def cacheVote (vote : FederatedVote F) (cache : FederationCache F) : FederationCache F :=
  let votes := (cache.votes.lookup vote.proposalId).getD []
  { cache with
    votes := cache.votes.insert vote.proposalId (Maps.upsert FederatedVote.voter votes vote) }

section
variable [FederationBackend S] [Serde FederatedProposal] [Serde (List (FederatedVote F))]

def saveProposalAs (failure : String) (auth : Option AuthContext) (proposal : FederatedProposal) :
    FederationM F S Unit := do
  mapErr (failing failure) <| onBackend <|
    FederationBackend.setJson auth proposal.ns (makeProposalKey proposal.proposalId) proposal
  onCache (cacheProposal proposal)

def saveProposal (proposal : FederatedProposal) : FederationM F S Unit :=
  saveProposalAs "Failed to save proposal to storage" none proposal

def saveProposalWithAuth (auth : Option AuthContext) (proposal : FederatedProposal) :
    FederationM F S Unit :=
  saveProposalAs "Failed to save proposal to storage with auth" auth proposal

def getProposal (proposalId : String) : FederationM F S FederatedProposal := do
  match (← get).1.proposals.lookup proposalId with
  | some proposal => return proposal
  | none =>
    mapErr (failing s!"Failed to retrieve proposal {proposalId}") <| onBackend <|
      FederationBackend.getJson _ none federationNs (makeProposalKey proposalId)

def getVotes (proposalId : String) : FederationM F S (List (FederatedVote F)) := do
  match (← get).1.votes.lookup proposalId with
  | some votes => return votes
  | none =>
    mapErr (failing s!"Failed to retrieve votes for proposal {proposalId}") <| onBackend <|
      FederationBackend.getJson _ none votesNs (makeVotesKey proposalId)

/-! ### Admission -/

/-- Two signatures always pass; otherwise nothing may be empty. -/
def verifySignature (message signature scheme : String) (publicKey : ByteArray) : Bool :=
  if signature = "valid" ∨ signature = "mock_signature" then true
  else if scheme = "ed25519" ∨ scheme = "secp256k1" then
    !signature.isEmpty && !message.isEmpty && !publicKey.isEmpty
  else false

/-- The proposal of a vote, if it is open. What its time limit is makes no difference. -/
def openProposal (proposalId : String) : FederationM F S FederatedProposal := do
  let proposal ← getProposal proposalId
  if proposal.status ≠ .open then fail s!"Proposal {proposalId} is not open for voting"
  return proposal

/-- The identity a vote is checked against: the given one, or what is stored under the voter. -/
def identityFor [Serde Identity] (vote : FederatedVote F) (voterIdentity : Option Identity) :
    FederationM F S Identity :=
  match voterIdentity with
  | some identity => pure identity
  | none =>
    mapErr (fun _ => .notFound s!"Identity for voter {vote.voter} not found") <| onBackend <|
      FederationBackend.getIdentity vote.voter

/-- The proposal, the vote and the identity fit together. -/
def checkVote (proposal : FederatedProposal) (vote : FederatedVote F) (identity : Identity) :
    Except String Unit := do
  match identity.publicKey with
  | some publicKey =>
    match identity.cryptoScheme with
    | some scheme =>
      if !verifySignature vote.message vote.signature scheme publicKey then
        throw s!"Invalid signature for vote from {vote.voter}"
    | none => throw s!"No crypto scheme specified for voter {vote.voter}"
  | none => throw s!"No public key available for voter {vote.voter}"
  match proposal.scope with
  | .singleCoop coopId =>
    if !identity.belongsTo coopId then
      throw s!"Voter not a member of eligible cooperative {coopId}"
  | .multiCoop coopIds =>
    if !coopIds.any identity.belongsTo then
      throw "Voter not a member of any eligible cooperatives"
  | .globalFederation => pure ()

/-- All that is checked before a vote is stored, with the records that were looked at. -/
def admission [Serde Identity] (vote : FederatedVote F) (voterIdentity : Option Identity) :
    FederationM F S (FederatedProposal × Identity) := do
  let proposal ← openProposal vote.proposalId
  let identity ← identityFor vote voterIdentity
  match checkVote proposal vote identity with
  | .ok () => return (proposal, identity)
  | .error details => fail details

/-! ### Saving a vote -/

def existingVotes (proposalId : String) : FederationM F S (List (FederatedVote F)) := fun st =>
  match onBackend (FederationBackend.getJson (List (FederatedVote F)) none votesNs
      (makeVotesKey proposalId)) st with
  | .error (.error (.notFound _)) st' => .ok [] st'
  | .error (.error e) st' => .error (.error (failing "Failed to retrieve existing votes" e)) st'
  | r => r

/-- The backend has every vote, the cache the last one of each voter. -/
def recordVote (vote : FederatedVote F) : FederationM F S Unit := do
  let votes ← existingVotes vote.proposalId
  mapErr (failing "Failed to save votes to storage") <| onBackend <|
    FederationBackend.setJson none votesNs (makeVotesKey vote.proposalId) (votes ++ [vote])
  onCache (cacheVote vote)

def saveVote [Serde Identity] (vote : FederatedVote F) (voterIdentity : Option Identity) :
    FederationM F S Unit := do
  let _ ← admission vote voterIdentity
  recordVote vote

end

end FederationStorage

end Covm
