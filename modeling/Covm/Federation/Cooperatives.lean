import Covm.Federation.Messages
import Covm.Maps.Latest
import Covm.Number.Binary64

/-!
# One cooperative, one vote (`federation/storage.rs`)

Where each cooperative has one vote, the last vote of a cooperative counts, and of the voters whose
cooperative is not known the last vote of each. Both are kept in one map, under the identifier of the
cooperative or of the voter: a cooperative takes the vote of a voter who has its name, and the other
way round.
-/

namespace Covm

open Maps

/-- Who a vote is for. -/
inductive Holder where
  | coop (coopId : String)
  | voter (voter : String)
  deriving DecidableEq

def Holder.key : Holder → String
  | coop coopId => coopId
  | voter name => name

namespace FederationStorage

variable {F : Type}

/-- The votes counted so far, and their places in the list. -/
abbrev CoopVotes (F : Type) := HashMap (FederatedVote F × Nat)

/-- Votes come in order, later ones are more recent. -/
def countVote (voterIdentities : HashMap Identity) (coopVotes : CoopVotes F)
    (vote : FederatedVote F) (idx : Nat) : CoopVotes F :=
  match voterIdentities.lookup vote.voter with
  | some identity =>
    match identity.getMetadata "coop_id" with
    | some coopId =>
      match coopVotes.lookup coopId with
      | some (_, existingIdx) =>
        if existingIdx < idx then coopVotes.insert coopId (vote, idx) else coopVotes
      | none => coopVotes.insert coopId (vote, idx)
    | none => coopVotes.insert vote.voter (vote, idx)
  | none => coopVotes.insert vote.voter (vote, idx)

/-- The order in which a map lists its values is not known. -/
def prepareRankedBallots (votes : List (FederatedVote F)) (proposal : FederatedProposal)
    (voterIdentities : HashMap Identity) : Multiset (List F) :=
  match proposal.votingModel with
  | .oneMemberOneVote => votes.map (·.rankedChoices)
  | .oneCoopOneVote =>
    let coopVotes := votes.zipIdx.foldl
      (fun coopVotes entry => countVote voterIdentities coopVotes entry.1 entry.2) ∅
    coopVotes.entries.map fun entry => entry.2.1.rankedChoices

/-! ### Whose vote is counted -/

variable (voterIdentities : HashMap Identity)

def holder (vote : FederatedVote F) : Holder :=
  match (voterIdentities.lookup vote.voter).bind (·.getMetadata "coop_id") with
  | some coopId => .coop coopId
  | none => .voter vote.voter

/-- The last vote of each cooperative, and of each voter without a known one. -/
def CountsOnce (votes : List (FederatedVote F)) (ballots : Multiset (List F)) : Prop :=
  ∃ kept, IsLatest (holder voterIdentities) votes kept ∧ ballots = kept.map (·.rankedChoices)

variable {voterIdentities}

theorem countVote_eq {coopVotes : CoopVotes F} {vote : FederatedVote F} {idx : Nat}
    (h : ∀ key entry, coopVotes.lookup key = some entry → entry.2 < idx) :
    countVote voterIdentities coopVotes vote idx =
      coopVotes.insert (holder voterIdentities vote).key (vote, idx) := by
  unfold countVote holder
  cases voterIdentities.lookup vote.voter with
  | none => rfl
  | some identity =>
    rw [Option.bind_some]
    cases hcoop : identity.getMetadata "coop_id" with
    | none => simp only [hcoop, Holder.key]
    | some coopId =>
      simp only [hcoop, Holder.key]
      cases hlookup : coopVotes.lookup coopId with
      | none => rfl
      | some entry => exact if_pos (h coopId entry hlookup)

/-- The map after some votes holds the last one for each key. -/
structure Counted (voterIdentities : HashMap Identity) (votes : List (FederatedVote F))
    (coopVotes : CoopVotes F) : Prop where
  latest : ∀ key, (coopVotes.lookup key).map Prod.fst =
    Maps.latest (Holder.key ∘ holder voterIdentities) votes key
  older : ∀ key entry, coopVotes.lookup key = some entry → entry.2 < votes.length

theorem counted_nil : Counted voterIdentities ([] : List (FederatedVote F)) ∅ where
  latest key := by rw [Finmap.lookup_empty]; rfl
  older key entry h := by rw [Finmap.lookup_empty] at h; cases h

theorem Counted.step {votes : List (FederatedVote F)} {coopVotes : CoopVotes F}
    (h : Counted voterIdentities votes coopVotes) (vote : FederatedVote F) :
    Counted voterIdentities (votes ++ [vote])
      (countVote voterIdentities coopVotes vote votes.length) := by
  rw [countVote_eq h.older]
  constructor
  · intro key
    rw [latest_concat]
    split_ifs with hkey
    · obtain rfl := hkey
      rw [Function.comp_apply, Finmap.lookup_insert]
      rfl
    · have hne : key ≠ (holder voterIdentities vote).key := Ne.symm hkey
      rw [Finmap.lookup_insert_of_ne _ hne, h.latest]
  · intro key entry hentry
    rw [List.length_append]
    by_cases hkey : key = (holder voterIdentities vote).key
    · rw [hkey, Finmap.lookup_insert] at hentry
      cases hentry
      exact Nat.lt_succ_self _
    · rw [Finmap.lookup_insert_of_ne _ hkey] at hentry
      exact (h.older key entry hentry).trans (Nat.lt_succ_self _)

theorem counted_all (votes : List (FederatedVote F)) :
    Counted voterIdentities votes (votes.zipIdx.foldl
      (fun coopVotes entry => countVote voterIdentities coopVotes entry.1 entry.2) ∅) := by
  induction votes using List.reverseRecOn with
  | nil => exact counted_nil
  | append_singleton votes vote ih =>
    rw [List.zipIdx_append, List.foldl_append, Nat.zero_add]
    exact ih.step vote

/-- The values of the map, as a list of votes. -/
theorem Counted.values {votes kept : List (FederatedVote F)} {coopVotes : CoopVotes F}
    (h : Counted voterIdentities votes coopVotes)
    (hkept : IsLatest (Holder.key ∘ holder voterIdentities) votes kept) :
    coopVotes.entries.map (fun entry => entry.2.1) = (kept : Multiset (FederatedVote F)) := by
  have hstored : ∀ entry ∈ coopVotes.entries,
      Maps.latest (Holder.key ∘ holder voterIdentities) votes entry.1 = some entry.2.1 := by
    rintro ⟨key, vote, idx⟩ hentry
    rw [← h.latest, Finmap.lookup_eq_some_iff.mpr hentry]
    rfl
  have hkeys : (coopVotes.entries.map fun entry => entry.2.1).map
      (Holder.key ∘ holder voterIdentities) = coopVotes.entries.keys := by
    rw [Multiset.map_map]
    exact Multiset.map_congr rfl fun entry hentry => (mem_of_latest (hstored entry hentry)).2
  have hnodup : (coopVotes.entries.map fun entry => entry.2.1).Nodup := by
    apply Multiset.Nodup.of_map (Holder.key ∘ holder voterIdentities)
    rw [hkeys]
    exact Multiset.nodup_keys.mpr coopVotes.nodupKeys
  have hnodup' : (kept : Multiset (FederatedVote F)).Nodup := hkept.nodup.of_map _
  refine (hnodup.ext hnodup').mpr fun vote => ?_
  rw [Multiset.mem_map, Multiset.mem_coe, hkept.mem_iff]
  constructor
  · rintro ⟨entry, hentry, rfl⟩
    have hlatest := hstored entry hentry
    rwa [(mem_of_latest hlatest).2]
  · intro hlatest
    rw [← h.latest] at hlatest
    obtain ⟨⟨found, idx⟩, hlookup, rfl⟩ := Option.map_eq_some_iff.mp hlatest
    exact ⟨_, Finmap.lookup_eq_some_iff.mp hlookup, rfl⟩

/-- No cooperative has the name of a voter without a known one. -/
def Apart (voterIdentities : HashMap Identity) (votes : List (FederatedVote F)) : Prop :=
  ∀ coopId, .coop coopId ∈ votes.map (holder voterIdentities) →
    .voter coopId ∉ votes.map (holder voterIdentities)

theorem apart_iff {votes : List (FederatedVote F)} : Apart voterIdentities votes ↔
    ∀ vote ∈ votes, ∀ other ∈ votes,
      (holder voterIdentities vote).key = (holder voterIdentities other).key →
        holder voterIdentities vote = holder voterIdentities other := by
  constructor
  · intro h vote hvote other hother hkey
    have hvote := List.mem_map_of_mem (f := holder voterIdentities) hvote
    have hother := List.mem_map_of_mem (f := holder voterIdentities) hother
    revert hkey hvote hother
    cases holder voterIdentities vote with
    | coop coopId =>
      cases holder voterIdentities other with
      | coop coopId' => exact fun hkey _ _ => congrArg Holder.coop hkey
      | voter name =>
        rintro rfl hvote hother
        exact absurd hother (h _ hvote)
    | voter name =>
      cases holder voterIdentities other with
      | coop coopId =>
        rintro rfl hvote hother
        exact absurd hvote (h _ hother)
      | voter name' => exact fun hkey _ _ => congrArg Holder.voter hkey
  · intro h coopId hcoop hvoter
    obtain ⟨vote, hvote, hv⟩ := List.mem_map.mp hcoop
    obtain ⟨other, hother, ho⟩ := List.mem_map.mp hvoter
    have hsame := h vote hvote other hother (by rw [hv, ho]; rfl)
    rw [hv, ho] at hsame
    cases hsame

theorem prepare_eq {votes kept : List (FederatedVote F)} {proposal : FederatedProposal}
    (h : proposal.votingModel = .oneCoopOneVote)
    (hkept : IsLatest (Holder.key ∘ holder voterIdentities) votes kept) :
    prepareRankedBallots votes proposal voterIdentities =
      (kept.map (·.rankedChoices) : Multiset (List F)) := by
  have hvalues := (counted_all votes).values hkept
  rw [← Multiset.map_coe, ← hvalues, Multiset.map_map, prepareRankedBallots, h]
  rfl

/-- As many ballots as there are keys. -/
theorem card_prepare {votes : List (FederatedVote F)} {proposal : FederatedProposal}
    (h : proposal.votingModel = .oneCoopOneVote) :
    (prepareRankedBallots votes proposal voterIdentities).card =
      (votes.map (Holder.key ∘ holder voterIdentities)).toFinset.card := by
  obtain ⟨kept, hkept⟩ := exists_isLatest (Holder.key ∘ holder voterIdentities) votes
  rw [prepare_eq h hkept, Multiset.coe_card, List.length_map, hkept.length]

/-- As many ballots as there are cooperatives and voters without one. -/
theorem CountsOnce.card {votes : List (FederatedVote F)} {ballots : Multiset (List F)}
    (h : CountsOnce voterIdentities votes ballots) :
    ballots.card = (votes.map (holder voterIdentities)).toFinset.card := by
  obtain ⟨kept, hkept, rfl⟩ := h
  rw [Multiset.coe_card, List.length_map, hkept.length]

theorem prepareRankedBallots_counts (votes : List (FederatedVote F)) (proposal : FederatedProposal)
    (voterIdentities : HashMap Identity) (h : proposal.votingModel = .oneCoopOneVote) :
    CountsOnce voterIdentities votes (prepareRankedBallots votes proposal voterIdentities) ↔
      Apart voterIdentities votes := by
  rw [apart_iff]
  constructor
  · intro hcounts
    have hcard := hcounts.card
    have hkeys : (votes.map (Holder.key ∘ holder voterIdentities)).toFinset =
        (votes.map (holder voterIdentities)).toFinset.image Holder.key := by
      ext key
      simp
    rw [card_prepare h, hkeys, Finset.card_image_iff] at hcard
    intro vote hvote other hother hkey
    have hmem : ∀ v ∈ votes, holder voterIdentities v ∈ (votes.map (holder voterIdentities)).toFinset :=
      fun v hv => List.mem_toFinset.mpr (List.mem_map_of_mem hv)
    exact hcard (hmem vote hvote) (hmem other hother) hkey
  · intro happart
    obtain ⟨kept, hkept⟩ := exists_isLatest (Holder.key ∘ holder voterIdentities) votes
    exact ⟨kept, hkept.of_comp happart, prepare_eq h hkept⟩

/-- Bob votes on his own, ann and cy for their cooperative. -/
def orchard : List (FederatedVote Binary64) :=
  [⟨"orchard", "bob", [Number.ofNat 1, Number.ofNat 0], "orchard:1,0", ""⟩,
    ⟨"orchard", "ann", [Number.ofNat 0, Number.ofNat 1], "orchard:0,1", ""⟩,
    ⟨"orchard", "cy", [Number.ofNat 1, Number.ofNat 0], "orchard:1,0", ""⟩]

def memberOf (coopId name : String) : Identity :=
  ⟨name, ⟨#[1]⟩, ⟨name, Finmap.singleton "coop_id" (.string coopId)⟩, "member"⟩

def orchardIdentities (coopId : String) : HashMap Identity :=
  (Finmap.singleton "ann" (memberOf coopId "ann")).insert "cy" (memberOf coopId "cy")

def coopOrchard : FederatedProposal :=
  ⟨"orchard", "default", ["yes", "no"], "ann", 0, .globalFederation, .oneCoopOneVote, none, .open⟩

/-- Bob is counted, and the last vote of the cooperative. -/
theorem countsOnce_orchard :
    CountsOnce (orchardIdentities "pear") orchard
      (prepareRankedBallots orchard coopOrchard (orchardIdentities "pear")) := by
  refine (prepareRankedBallots_counts orchard coopOrchard _ rfl).mpr fun coopId hcoop => ?_
  have hholders : orchard.map (holder (orchardIdentities "pear")) =
      [.voter "bob", .coop "pear", .coop "pear"] := by decide
  rw [hholders] at hcoop ⊢
  obtain rfl : coopId = "pear" := by simpa using hcoop
  decide

/-- If the cooperative is named bob, only one of the two is counted. -/
theorem not_countsOnce_orchard :
    ¬ CountsOnce (orchardIdentities "bob") orchard
      (prepareRankedBallots orchard coopOrchard (orchardIdentities "bob")) := by
  intro h
  have hcard := h.card
  rw [card_prepare rfl] at hcard
  exact absurd hcard (by decide)

end FederationStorage

end Covm
