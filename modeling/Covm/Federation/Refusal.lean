import Covm.Federation.Storage
import Covm.Number.Binary64

/-!
# Votes on the two backends

Both backends refuse whoever is anonymous. The votes of a proposal are looked up anonymously before
a new one is added, so that no vote is ever accepted, whoever saved the proposal.
-/

namespace Covm

/-- Reading without a caller fails, and not because there is nothing to read. -/
class FederationBackend.RefusesAnonymous (S : Type) [FederationBackend S] : Prop where
  refuses : ∀ (ns key : String) (s : S), ∃ user action resource,
    FederationBackend.get none ns key s = .error (.error (.permissionDenied user action resource)) s

instance : FederationBackend.RefusesAnonymous InMemoryStorage where
  refuses ns _ _ := ⟨"anonymous", "read", ns, rfl⟩

instance [SerdeMetadata] : FederationBackend.RefusesAnonymous FileStorage where
  refuses ns _ _ := ⟨"anonymous", "read", ns, rfl⟩

namespace FederationStorage

open FederationM

section
variable {F S : Type} [FederationBackend S] [Serde FederatedProposal]
  [Serde (List (FederatedVote F))] [Serde Identity]

/-- The vote is saved and is among the votes of its proposal. -/
def Accepts (vote : FederatedVote F) (voterIdentity : Option Identity)
    (st : FederationCache F × S) : Prop :=
  ∃ st', saveVote vote voterIdentity st = .ok () st' ∧
    ∃ votes st'', getVotes vote.proposalId st' = .ok votes st'' ∧ vote ∈ votes

omit [Serde FederatedProposal] [Serde Identity] in
theorem existingVotes_refused [FederationBackend.RefusesAnonymous S] (proposalId : String)
    (st : FederationCache F × S) :
    ∃ e, existingVotes proposalId st = .error e st := by
  obtain ⟨cache, s⟩ := st
  obtain ⟨user, action, resource, hget⟩ :=
    FederationBackend.RefusesAnonymous.refuses votesNs (makeVotesKey proposalId) s
  have hjson : FederationBackend.getJson (List (FederatedVote F)) none votesNs
      (makeVotesKey proposalId) s = .error (.error (.permissionDenied user action resource)) s := by
    rw [FederationBackend.getJson, StorageM.bind_of_error hget]
  simp only [existingVotes, onBackend, hjson]
  exact ⟨_, rfl⟩

/-- Whatever is checked before, the vote is not recorded. -/
theorem saveVote_refused [FederationBackend.RefusesAnonymous S] (vote : FederatedVote F)
    (voterIdentity : Option Identity) (st : FederationCache F × S) :
    ∃ e st', saveVote vote voterIdentity st = .error e st' := by
  simp only [saveVote, bind, EStateM.bind]
  cases admission vote voterIdentity st with
  | error e st' => exact ⟨e, st', rfl⟩
  | ok _ st' =>
    obtain ⟨e, hexisting⟩ := existingVotes_refused (F := F) vote.proposalId st'
    simp only [recordVote, bind, EStateM.bind, hexisting]
    exact ⟨e, st', rfl⟩

theorem not_accepts [FederationBackend.RefusesAnonymous S] (vote : FederatedVote F)
    (voterIdentity : Option Identity) (st : FederationCache F × S) :
    ¬ Accepts vote voterIdentity st := by
  rintro ⟨st', hsave, -⟩
  obtain ⟨e, st'', herror⟩ := saveVote_refused vote voterIdentity st
  cases hsave.symm.trans herror

omit [FederationBackend S] in
/-- No vote is accepted on either backend. -/
theorem never_accepted (vote : FederatedVote F) (voterIdentity : Option Identity)
    (cache : FederationCache F) :
    (∀ s : InMemoryStorage, ¬ Accepts vote voterIdentity (cache, s)) ∧
      ∀ (_ : SerdeMetadata) (s : FileStorage), ¬ Accepts vote voterIdentity (cache, s) :=
  ⟨fun _ => not_accepts vote voterIdentity _, fun _ _ => not_accepts vote voterIdentity _⟩

end

/-! ### An eligible vote -/

def roofProposal : FederatedProposal :=
  ⟨"roof", "coop", ["Repair", "Replace"], "ada", 0, .singleCoop "coop", .oneMemberOneVote, none,
    .open⟩

def bob : Identity :=
  ⟨"did:key:bob", ⟨#[1, 2, 3]⟩, ⟨"bob", (∅ : HashMap ProfileField).insert "coop_id" (.string "coop")⟩,
    "member"⟩

def roofVote : FederatedVote Binary64 := ⟨"roof", "did:key:bob", [], "roof:0", "f00d"⟩

def admin : AuthContext := (AuthContext.new "ada").addRole "global" "admin"

/-- The account of an administrator and the two namespaces. -/
def prepared : StorageM InMemoryStorage Unit := do
  InMemoryStorage.createAccount (some admin) "ada" 1000
  InMemoryStorage.createNamespace (some admin) "votes" 1000 none
  InMemoryStorage.createNamespace (some admin) "coop" 1000 none

/-- The administrator saves an open proposal, and an eligible vote on it is refused. -/
theorem not_accepts_eligible :
    ∃ (_ : Serde FederatedProposal) (_ : Serde (List (FederatedVote Binary64))) (_ : Serde Identity)
      (s : InMemoryStorage) (st : FederationCache Binary64 × InMemoryStorage),
      prepared (.new fun _ => 0) = .ok () s ∧
        saveProposalWithAuth (some admin) roofProposal (new, s) = .ok () st ∧
        roofProposal.status = .open ∧ checkVote roofProposal roofVote bob = .ok () ∧
        bob.did = roofVote.voter ∧ ¬ Accepts roofVote (some bob) st := by
  let proposals : Serde FederatedProposal :=
    ⟨"FederatedProposal", fun _ => .ok "\x7b\"proposal_id\":\"roof\"\x7d".toUTF8,
      fun _ => .ok roofProposal⟩
  let votes : Serde (List (FederatedVote Binary64)) :=
    ⟨"Vec<FederatedVote>", fun _ => .ok "[]".toUTF8, fun _ => .ok []⟩
  let identities : Serde Identity :=
    ⟨"Identity", fun _ => .ok "\x7b\"did\":\"did:key:bob\"\x7d".toUTF8, fun _ => .ok bob⟩
  have hrun : ∃ s st, prepared (.new fun _ => 0) = .ok () s ∧
      saveProposalWithAuth (F := Binary64) (some admin) roofProposal (new, s) = .ok () st :=
    ⟨_, _, rfl, rfl⟩
  obtain ⟨s, st, hprepared, hsave⟩ := hrun
  exact ⟨proposals, votes, identities, s, st, hprepared, hsave, rfl, rfl, rfl,
    not_accepts roofVote (some bob) st⟩

end FederationStorage

end Covm
