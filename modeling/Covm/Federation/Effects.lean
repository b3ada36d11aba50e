import Covm.Federation.Runs

/-!
# What the calls change

On a backend that lets the anonymous in, everything is seen through `contents`, what anonymous reads
find. Looking something up changes neither the contents nor the cache. A call fails and changes
nothing, or it writes one entry and puts the same thing into its cache (`saveProposal_cases`,
`saveVote_cases`).
-/

namespace Covm

open Partial

/-- Anonymous reads find the contents, and anonymous writes change them if they do not fail. -/
class FederationBackend.Permissive (S : Type) [FederationBackend S] where
  contents : S → String × String → Option ByteArray
  get_found : ∀ {s : S} {ns key : String} {bytes : ByteArray}, contents s (ns, key) = some bytes →
    ∃ s', FederationBackend.get none ns key s = .ok bytes s' ∧ contents s' = contents s
  get_missing : ∀ {s : S} {ns key : String}, contents s (ns, key) = none → ∃ missing s',
    FederationBackend.get none ns key s = .error (.error (.notFound missing)) s' ∧
      contents s' = contents s
  set_cases : ∀ (s : S) (ns key : String) (bytes : ByteArray),
    (∃ s', FederationBackend.set none ns key bytes s = .ok () s' ∧
      contents s' = Function.update (contents s) (ns, key) (some bytes)) ∨
    ∃ e s', FederationBackend.set none ns key bytes s = .error e s' ∧ contents s' = contents s

instance : FederationBackend.Permissive OpenBackend where
  contents s := s.values
  get_found {s ns key bytes} h := ⟨s, by simp only [FederationBackend.get, OpenBackend.get, h], rfl⟩
  get_missing {s ns key} h :=
    ⟨s!"{ns}:{key}", s, by simp only [FederationBackend.get, OpenBackend.get, h], rfl⟩
  set_cases _ _ _ _ := .inl ⟨_, rfl, rfl⟩

namespace FederationM

variable {F S α : Type} {P : FederationCache F × S → Prop}

theorem mapErr_keeps {f : StorageError → StorageError}
    {x : FederationM F S α} (h : Keeps P x) : Keeps P (mapErr f x) := by
  intro st hst
  have hx := h st hst
  unfold mapErr
  cases hresult : x st with
  | ok a st' =>
    rw [hresult] at hx
    exact hx
  | error e st' =>
    rw [hresult] at hx
    cases e <;> exact hx

theorem fail_keeps (details : String) :
    Keeps P (fail details : FederationM F S α) := fun _ hst => hst

end FederationM

namespace FederationStorage

open FederationBackend FederationM Permissive

variable {F S α : Type} [FederationBackend S]

theorem getVotes_eq [Serde (List (FederatedVote F))] (proposalId : String)
    (st : FederationCache F × S) :
    getVotes proposalId st =
      (match st.1.votes.lookup proposalId with
        | some votes => pure votes
        | none =>
          mapErr (failing s!"Failed to retrieve votes for proposal {proposalId}") <| onBackend <|
            getJson _ none votesNs (makeVotesKey proposalId) :
        FederationM F S (List (FederatedVote F))) st := rfl

theorem getProposal_eq [Serde FederatedProposal] (proposalId : String)
    (st : FederationCache F × S) :
    getProposal proposalId st =
      (match st.1.proposals.lookup proposalId with
        | some proposal => pure proposal
        | none =>
          mapErr (failing s!"Failed to retrieve proposal {proposalId}") <| onBackend <|
            getJson _ none federationNs (makeProposalKey proposalId) :
        FederationM F S FederatedProposal) st := rfl

variable [Permissive S]

/-- The cache, and what can be read anonymously. -/
def Sees (cache : FederationCache F) (found : String × String → Option ByteArray)
    (st : FederationCache F × S) : Prop :=
  st.1 = cache ∧ contents st.2 = found

variable {cache : FederationCache F} {found : String × String → Option ByteArray}

theorem sees_self (st : FederationCache F × S) : Sees st.1 (contents st.2) st := ⟨rfl, rfl⟩

/-! ### Reading -/

theorem get_keeps (ns key : String) :
    Keeps (contents · = found) (FederationBackend.get none ns key : StorageM S ByteArray) := by
  intro s hs
  cases hfound : contents s (ns, key) with
  | some bytes =>
    obtain ⟨s', hget, hsame⟩ := get_found hfound
    rw [hget, final_ok, hsame, hs]
  | none =>
    obtain ⟨missing, s', hget, hsame⟩ := get_missing hfound
    rw [hget, final_error, hsame, hs]

theorem getJson_keeps (T : Type) [Serde T] (ns key : String) :
    Keeps (contents · = found) (getJson T none ns key : StorageM S T) :=
  (get_keeps ns key).bind fun _ => StorageM.query_keeps _

theorem onBackend_keeps {x : StorageM S α} (h : Keeps (contents · = found) x) :
    Keeps (Sees cache found) (onBackend x) := by
  rintro ⟨c, s⟩ ⟨hcache, hs⟩
  have hx := h s hs
  rw [onBackend]
  cases hresult : x s <;> rw [hresult] at hx <;> exact ⟨hcache, hx⟩

theorem getProposal_keeps [Serde FederatedProposal] (proposalId : String) :
    Keeps (Sees cache found) (getProposal proposalId : FederationM F S FederatedProposal) := by
  refine Keeps.get_bind fun st hst => ?_
  cases st.1.proposals.lookup proposalId with
  | some proposal => exact .pure _
  | none => exact mapErr_keeps (onBackend_keeps (getJson_keeps _ _ _))

theorem openProposal_keeps [Serde FederatedProposal] (proposalId : String) :
    Keeps (Sees cache found) (openProposal proposalId : FederationM F S FederatedProposal) := by
  refine (getProposal_keeps proposalId).bind fun proposal => ?_
  exact .guard (fail_keeps _) (.pure _)

theorem identityFor_keeps [Serde Identity] (vote : FederatedVote F)
    (voterIdentity : Option Identity) :
    Keeps (Sees cache found) (identityFor vote voterIdentity : FederationM F S Identity) := by
  cases voterIdentity with
  | some identity => exact .pure _
  | none =>
    refine mapErr_keeps (onBackend_keeps ((get_keeps _ _).bind fun bytes => ?_))
    cases Serde.fromSlice (T := Identity) bytes with
    | ok identity => exact .pure _
    | error details => exact fun _ hs => hs

theorem admit_keeps [Serde FederatedProposal] [Serde Identity] (vote : FederatedVote F)
    (voterIdentity : Option Identity) :
    Keeps (Sees cache found)
      (admission vote voterIdentity : FederationM F S (FederatedProposal × Identity)) := by
  refine (openProposal_keeps _).bind fun proposal => ?_
  refine (identityFor_keeps vote voterIdentity).bind fun identity => ?_
  cases checkVote proposal vote identity with
  | ok _ => exact .pure _
  | error details => exact fail_keeps details

/-- The votes that are stored under a proposal. -/
def Stored [Serde (List (FederatedVote F))] (proposalId : String)
    (found : String × String → Option ByteArray) (votes : List (FederatedVote F)) : Prop :=
  found (votesNs, makeVotesKey proposalId) = none ∧ votes = [] ∨
    ∃ bytes, found (votesNs, makeVotesKey proposalId) = some bytes ∧
      Serde.fromSlice bytes = .ok votes

theorem existingVotes_cases [Serde (List (FederatedVote F))] (proposalId : String)
    (st : FederationCache F × S) :
    ∃ st', Sees st.1 (contents st.2) st' ∧
      ((∃ votes, existingVotes proposalId st = .ok votes st' ∧
          Stored proposalId (contents st.2) votes) ∨
        ∃ e, existingVotes proposalId st = .error e st') := by
  obtain ⟨cache, s⟩ := st
  cases hfound : contents s (votesNs, makeVotesKey proposalId) with
  | none =>
    obtain ⟨missing, s', hget, hsame⟩ := get_missing hfound
    refine ⟨(cache, s'), ⟨rfl, hsame⟩, .inl ⟨[], ?_, .inl ⟨hfound, rfl⟩⟩⟩
    simp only [existingVotes, onBackend, getJson, StorageM.bind_of_error hget]
  | some bytes =>
    obtain ⟨s', hget, hsame⟩ := get_found hfound
    refine ⟨(cache, s'), ⟨rfl, hsame⟩, ?_⟩
    cases hread : Serde.fromSlice (T := List (FederatedVote F)) bytes with
    | ok votes =>
      refine .inl ⟨votes, ?_, .inr ⟨bytes, hfound, hread⟩⟩
      simp only [existingVotes, onBackend, getJson, StorageM.bind_of_ok hget, StorageM.query,
        StorageExtensions.decode_of_ok hread]
    | error details =>
      refine .inr ⟨.error (failing "Failed to retrieve existing votes" (.serializationError
        (Serde.typeName (List (FederatedVote F))) details)), ?_⟩
      simp only [existingVotes, onBackend, getJson, StorageM.bind_of_ok hget, StorageM.query,
        StorageExtensions.decode, hread]

/-- A value that is read through an empty cache. -/
theorem read_cases (T : Type) [Serde T] {ns key : String} {bytes : ByteArray} (what : String)
    (st : FederationCache F × S) (hfound : contents st.2 (ns, key) = some bytes) :
    (∃ value st', Serde.fromSlice bytes = .ok value ∧
      mapErr (failing what) (onBackend (getJson T none ns key)) st = .ok value st') ∨
    ((∃ details, Serde.fromSlice (T := T) bytes = .error details) ∧ ∃ e st',
      mapErr (failing what) (onBackend (getJson T none ns key)) st = .error e st') := by
  obtain ⟨cache, s⟩ := st
  obtain ⟨s', hget, -⟩ := get_found hfound
  cases hread : Serde.fromSlice (T := T) bytes with
  | ok value =>
    refine .inl ⟨value, (cache, s'), rfl, ?_⟩
    simp only [mapErr, onBackend, getJson, StorageM.bind_of_ok hget, StorageM.query,
      StorageExtensions.decode_of_ok hread]
  | error details =>
    refine .inr ⟨⟨details, rfl⟩, ?_⟩
    simp only [mapErr, onBackend, getJson, StorageM.bind_of_ok hget, StorageM.query,
      StorageExtensions.decode, hread]
    exact ⟨_, _, rfl⟩

/-! ### Writing -/

/-- One entry was written and the cache was changed. -/
structure Wrote {T : Type} [Serde T] (ns key : String) (value : T)
    (f : FederationCache F → FederationCache F) (st st' : FederationCache F × S) : Prop where
  contents : ∃ bytes, Serde.toVec value = .ok bytes ∧
    contents st'.2 = Function.update (contents st.2) (ns, key) (some bytes)
  cache : st'.1 = f st.1

theorem write_cases {T : Type} [Serde T] (failure ns key : String) (value : T)
    (f : FederationCache F → FederationCache F) (st : FederationCache F × S) :
    let write : FederationM F S Unit := do
      mapErr (failing failure) <| onBackend <| setJson none ns key value
      onCache f
    (∃ st', write st = .ok () st' ∧ Wrote ns key value f st st') ∨
      ∃ e st', write st = .error e st' ∧ Sees st.1 (contents st.2) st' := by
  obtain ⟨cache, s⟩ := st
  cases hbytes : Serde.toVec value with
  | error details =>
    right
    simp only [bind, EStateM.bind, mapErr, onBackend, setJson, StorageM.query,
      StorageExtensions.encode, hbytes]
    exact ⟨_, _, rfl, rfl, rfl⟩
  | ok bytes =>
    obtain ⟨s', hset, hcontents⟩ | ⟨e, s', hset, hsame⟩ := Permissive.set_cases s ns key bytes
    · left
      simp only [bind, EStateM.bind, mapErr, onBackend, setJson, StorageM.query,
        StorageExtensions.encode, hbytes, hset]
      exact ⟨_, rfl, ⟨bytes, hbytes, hcontents⟩, rfl⟩
    · right
      simp only [bind, EStateM.bind, mapErr, onBackend, setJson, StorageM.query,
        StorageExtensions.encode, hbytes, hset]
      cases e <;> exact ⟨_, _, rfl, rfl, hsame⟩

theorem saveProposal_cases [Serde FederatedProposal] (proposal : FederatedProposal)
    (st : FederationCache F × S) :
    (∃ st', saveProposal proposal st = .ok () st' ∧
      Wrote proposal.ns (makeProposalKey proposal.proposalId) proposal (cacheProposal proposal)
        st st') ∨
      ∃ e st', saveProposal proposal st = .error e st' ∧ Sees st.1 (contents st.2) st' :=
  write_cases _ _ _ _ _ st

theorem saveVote_cases [Serde FederatedProposal] [Serde (List (FederatedVote F))]
    [Serde Identity] (vote : FederatedVote F) (voterIdentity : Option Identity)
    (st : FederationCache F × S) :
    (∃ votes st', saveVote vote voterIdentity st = .ok () st' ∧
      (∃ admitted st'', admission vote voterIdentity st = .ok admitted st'') ∧
      Stored vote.proposalId (contents st.2) votes ∧
      Wrote votesNs (makeVotesKey vote.proposalId) (votes ++ [vote]) (cacheVote vote) st st') ∨
      ∃ e st', saveVote vote voterIdentity st = .error e st' ∧ Sees st.1 (contents st.2) st' := by
  have hadmission := admit_keeps vote voterIdentity st (sees_self st)
  simp only [saveVote, bind, EStateM.bind]
  cases hadmitted : admission vote voterIdentity st with
  | error e st₁ =>
    rw [hadmitted] at hadmission
    exact .inr ⟨e, st₁, rfl, hadmission⟩
  | ok admitted st₁ =>
    rw [hadmitted, final_ok] at hadmission
    obtain ⟨st₂, hsees, ⟨votes, hexisting, hstored⟩ | ⟨e, hexisting⟩⟩ :=
      existingVotes_cases vote.proposalId st₁
    · rw [hadmission.1, hadmission.2] at hsees
      rw [hadmission.2] at hstored
      obtain ⟨st₃, hwrite, hwrote⟩ | ⟨e, st₃, hwrite, hsame⟩ :=
        write_cases "Failed to save votes to storage" votesNs (makeVotesKey vote.proposalId)
          (votes ++ [vote]) (cacheVote vote) st₂
      · refine .inl ⟨votes, st₃, ?_, ⟨admitted, st₁, rfl⟩, hstored, ?_, ?_⟩
        · simp only [recordVote, bind, EStateM.bind, hexisting]
          exact hwrite
        · obtain ⟨bytes, hbytes, hcontents⟩ := hwrote.contents
          exact ⟨bytes, hbytes, by rw [hcontents, hsees.2]⟩
        · rw [hwrote.cache, hsees.1]
      · refine .inr ⟨e, st₃, ?_, hsame.1.trans hsees.1, hsame.2.trans hsees.2⟩
        simp only [recordVote, bind, EStateM.bind, hexisting]
        exact hwrite
    · rw [hadmission.1, hadmission.2] at hsees
      refine .inr ⟨e, st₂, ?_, hsees⟩
      simp only [recordVote, bind, EStateM.bind, hexisting]

end FederationStorage

end Covm
