import Covm.Federation.Runs
import Covm.Number.Binary64

/-!
# Who votes, and when

A vote is recorded only while its proposal is open and only for an identity that has a key, a
signature that passes and a cooperative in scope. Whether the identity is the voter the vote names,
and whether the time of the proposal is over, is not looked at: a recorded vote is legitimate
exactly if both happen to be in order.
-/

namespace Covm

open Partial

namespace RecordedVote

variable {F : Type}

def InTime (r : RecordedVote F) : Prop := ∀ limit, r.proposal.expiresAt = some limit → r.now ≤ limit

def InOwnName (r : RecordedVote F) : Prop := r.identity.did = r.vote.voter

structure Legitimate (r : RecordedVote F) : Prop where
  isOpen : r.proposal.status = .open
  inTime : r.InTime
  inOwnName : r.InOwnName
  signed : ∃ publicKey scheme, r.identity.publicKey = some publicKey ∧
    r.identity.cryptoScheme = some scheme ∧
    FederationStorage.verifySignature r.vote.message r.vote.signature scheme publicKey = true
  inScope : r.proposal.scope.Admits r.identity

end RecordedVote

namespace FederationStorage

open FederationM

section
variable {F S : Type} [FederationBackend S] [Serde FederatedProposal]
  [Serde (List (FederatedVote F))] [Serde Identity]

omit [Serde (List (FederatedVote F))] [Serde Identity] in
theorem open_of_openProposal {proposalId : String} {st st' : FederationCache F × S}
    {proposal : FederatedProposal} (h : openProposal proposalId st = .ok proposal st') :
    proposal.status = .open := by
  obtain ⟨found, st₁, -, h⟩ := bind_eq_ok.mp h
  by_cases hopen : found.status = .open
  · rw [if_neg (not_not_intro hopen)] at h
    cases h
    exact hopen
  · rw [if_pos hopen] at h
    cases h

omit [Serde FederatedProposal] [Serde (List (FederatedVote F))] [Serde Identity]
  [FederationBackend S] in
theorem checkVote_ok {proposal : FederatedProposal} {vote : FederatedVote F} {identity : Identity}
    (h : checkVote proposal vote identity = .ok ()) :
    (∃ publicKey scheme, identity.publicKey = some publicKey ∧
      identity.cryptoScheme = some scheme ∧
      verifySignature vote.message vote.signature scheme publicKey = true) ∧
      proposal.scope.Admits identity := by
  simp only [checkVote, Identity.publicKey, Identity.cryptoScheme, bind, Except.bind] at h
  by_cases hsigned : verifySignature vote.message vote.signature "ed25519" identity.publicKeyBytes
  · refine ⟨⟨identity.publicKeyBytes, "ed25519", rfl, rfl, hsigned⟩, ?_⟩
    rw [hsigned] at h
    simp only [Bool.not_true, Bool.false_eq_true, if_false, pure, Except.pure] at h
    cases hscope : proposal.scope with
    | singleCoop coopId =>
      by_contra hout
      rw [hscope] at h
      simp only [ProposalScope.Admits, Bool.not_eq_true] at hout
      simp [hout, throw, throwThe, MonadExceptOf.throw] at h
    | multiCoop coopIds =>
      by_contra hout
      rw [hscope] at h
      have hnone : coopIds.any identity.belongsTo = false := by
        simpa [ProposalScope.Admits] using hout
      simp [hnone, throw, throwThe, MonadExceptOf.throw] at h
    | globalFederation => trivial
  · simp [hsigned, throw, throwThe, MonadExceptOf.throw] at h

omit [Serde (List (FederatedVote F))] in
theorem admission_ok {vote : FederatedVote F} {voterIdentity : Option Identity}
    {st st' : FederationCache F × S} {proposal : FederatedProposal} {identity : Identity}
    (h : admission vote voterIdentity st = .ok (proposal, identity) st') :
    proposal.status = .open ∧ checkVote proposal vote identity = .ok () := by
  obtain ⟨found, st₁, hopen, h⟩ := bind_eq_ok.mp h
  obtain ⟨looked, st₂, -, h⟩ := bind_eq_ok.mp h
  cases hcheck : checkVote found vote looked with
  | error details =>
    rw [hcheck] at h
    cases h
  | ok _ =>
    rw [hcheck] at h
    cases h
    exact ⟨open_of_openProposal hopen, hcheck⟩

theorem legitimate_iff_of_recorded {w : FederationWorld F S} {call : FederationCall F}
    {r : RecordedVote F} (h : call.recorded w = some r) :
    r.Legitimate ↔ r.InTime ∧ r.InOwnName := by
  cases call with
  | saveProposal i proposal => cases h
  | saveVote i now vote voterIdentity =>
    rw [FederationCall.recorded] at h
    split at h
    · next hadmission =>
      obtain rfl := Option.some.inj h
      obtain ⟨hopen, hcheck⟩ := admission_ok hadmission
      obtain ⟨hsigned, hscope⟩ := checkVote_ok hcheck
      exact ⟨fun hr => ⟨hr.inTime, hr.inOwnName⟩, fun hr => ⟨hopen, hr.1, hr.2, hsigned, hscope⟩⟩
    · cases h

/-- Along every run, from whatever backend and caches, the recorded votes that are legitimate are
those cast in time and in one's own name. -/
theorem legitimate_iff (calls : List (FederationCall F)) (w : FederationWorld F S) :
    ∀ r ∈ FederationCall.allRecorded calls w, r.Legitimate ↔ r.InTime ∧ r.InOwnName := by
  induction calls generalizing w with
  | nil => intro r hr; cases hr
  | cons call calls ih =>
    intro r hr
    rw [FederationCall.allRecorded, List.mem_append, Option.mem_toList] at hr
    obtain hr | hr := hr
    · exact legitimate_iff_of_recorded hr
    · exact ih (call.after w) r hr

end

/-! ### A vote in another name -/

def gardenProposal : FederatedProposal :=
  ⟨"garden", "federation", ["Yes", "No"], "ada", 0, .singleCoop "coop", .oneMemberOneVote, some 10,
    .open⟩

def mallory : Identity :=
  ⟨"did:key:mallory", ⟨#[1]⟩,
    ⟨"mallory", (∅ : HashMap ProfileField).insert "coop_id" (.string "coop")⟩, "member"⟩

def gardenVote : FederatedVote Binary64 := ⟨"garden", "did:key:ada", [], "garden:0", "f00d"⟩

def gardenText : String :=
  "\x7b\"proposal_id\":\"garden\",\"namespace\":\"federation\",\"options\":[\"Yes\",\"No\"]," ++
    "\"creator\":\"ada\",\"created_at\":0,\"scope\":\x7b\"SingleCoop\":\"coop\"\x7d," ++
    "\"voting_model\":\"OneMemberOneVote\",\"expires_at\":10,\"status\":\"Open\"\x7d"

def malloryVote : FederatedVote Binary64 :=
  ⟨"garden", "did:key:mallory", [], "garden:0", "f00d"⟩

def gardenVoteText : String :=
  "[\x7b\"proposal_id\":\"garden\",\"voter\":\"did:key:ada\",\"ranked_choices\":[]," ++
    "\"message\":\"garden:0\",\"signature\":\"f00d\"\x7d]"

def malloryVoteText : String :=
  "[\x7b\"proposal_id\":\"garden\",\"voter\":\"did:key:mallory\",\"ranked_choices\":[]," ++
    "\"message\":\"garden:0\",\"signature\":\"f00d\"\x7d]"

def gardenCalls (now : ℕ) (vote : FederatedVote Binary64) : List (FederationCall Binary64) :=
  [.saveProposal 0 gardenProposal, .saveVote 0 now vote (some mallory)]

@[reducible] def gardenProposals : Serde FederatedProposal :=
  ⟨"FederatedProposal", fun _ => .ok gardenText.toUTF8, fun _ => .ok gardenProposal⟩

@[reducible] def gardenVotes (vote : FederatedVote Binary64) (text : String) :
    Serde (List (FederatedVote Binary64)) :=
  ⟨"Vec<FederatedVote>", fun _ => .ok text.toUTF8, fun _ => .ok [vote]⟩

@[reducible] def gardenIdentities : Serde Identity :=
  ⟨"Identity", fun _ => .ok "\x7b\"did\":\"did:key:mallory\"\x7d".toUTF8, fun _ => .ok mallory⟩

/-- Mallory votes in time and in her own name. -/
theorem legitimate_iff_mallory :
    ∃ (_ : Serde FederatedProposal) (_ : Serde (List (FederatedVote Binary64)))
      (_ : Serde Identity),
      ∃ r ∈ FederationCall.allRecorded (gardenCalls 5 malloryVote) (.start OpenBackend.empty),
        r.Legitimate := by
  let proposals := gardenProposals
  let votes := gardenVotes malloryVote malloryVoteText
  let identities := gardenIdentities
  have hrecorded : FederationCall.allRecorded (gardenCalls 5 malloryVote)
      (.start OpenBackend.empty) = [⟨0, 5, malloryVote, gardenProposal, mallory⟩] := rfl
  have hmem : ⟨0, 5, malloryVote, gardenProposal, mallory⟩ ∈
      FederationCall.allRecorded (gardenCalls 5 malloryVote) (.start OpenBackend.empty) := by
    rw [hrecorded]
    exact List.mem_singleton_self _
  refine ⟨proposals, votes, identities, _, hmem, ?_⟩
  refine (legitimate_iff (gardenCalls 5 malloryVote) (.start OpenBackend.empty) _ hmem).mpr ⟨?_, rfl⟩
  rintro limit ⟨⟩
  decide

/-- Mallory votes for Ada, after the time is over. -/
theorem not_legitimate_mallory :
    ∃ (_ : Serde FederatedProposal) (_ : Serde (List (FederatedVote Binary64)))
      (_ : Serde Identity),
      ∃ r ∈ FederationCall.allRecorded (gardenCalls 20 gardenVote) (.start OpenBackend.empty),
        ¬ r.Legitimate ∧ ¬ r.InTime ∧ ¬ r.InOwnName := by
  let proposals := gardenProposals
  let votes := gardenVotes gardenVote gardenVoteText
  let identities := gardenIdentities
  have hrecorded : FederationCall.allRecorded (gardenCalls 20 gardenVote)
      (.start OpenBackend.empty) = [⟨0, 20, gardenVote, gardenProposal, mallory⟩] := rfl
  have hlate : ¬ (⟨0, 20, gardenVote, gardenProposal, mallory⟩ : RecordedVote Binary64).InTime :=
    fun h => absurd (h 10 rfl) (by decide)
  refine ⟨proposals, votes, identities, _, by rw [hrecorded]; exact List.mem_singleton_self _,
    fun h => hlate h.inTime, hlate, ?_⟩
  simp [RecordedVote.InOwnName, gardenVote, mallory]

end FederationStorage

end Covm
