import Covm.Federation.Effects
import Covm.Number.Binary64

/-!
# The ballot box of a proposal

The backend keeps every vote that was saved on a proposal, in order; the cache of an instance keeps
the last vote of each voter who voted through it (`BallotBox`). What a fresh instance shows is
therefore what the instance of the last vote shows exactly if nobody changed a vote and everybody
voted through that instance, and if all the numbers could be written.
-/

namespace Covm

open Maps Partial

theorem makeVotesKey_injective : Function.Injective FederationStorage.makeVotesKey := by
  intro p p' h
  change "federation/votes/" ++ p = "federation/votes/" ++ p' at h
  exact (String.append_right_inj _).mp h

theorem makeProposalKey_injective : Function.Injective FederationStorage.makeProposalKey := by
  intro p p' h
  change "federation/proposals/" ++ p = "federation/proposals/" ++ p' at h
  exact (String.append_right_inj _).mp h

theorem makeVotesKey_ne (p p' : String) :
    FederationStorage.makeVotesKey p ≠ FederationStorage.makeProposalKey p' := by
  intro h
  change "federation/votes/" ++ p = "federation/proposals/" ++ p' at h
  have hchars := congrArg String.toList h
  rw [String.toList_append, String.toList_append] at hchars
  exact absurd (congrArg (·[11]?) hchars) (by simp)

namespace RecordedVote

variable {F : Type}

/-- The votes saved through one instance. -/
def votesThrough (i : Nat) (log : List (RecordedVote F)) : List (FederatedVote F) :=
  (log.filter (·.through = i)).map (·.vote)

theorem votesThrough_concat (i : Nat) (log : List (RecordedVote F)) (r : RecordedVote F) :
    votesThrough i (log ++ [r]) =
      if r.through = i then votesThrough i log ++ [r.vote] else votesThrough i log := by
  unfold votesThrough
  rw [List.filter_append]
  split_ifs with h <;> simp [h]

theorem mem_votesThrough {i : Nat} {log : List (RecordedVote F)} {vote : FederatedVote F} :
    vote ∈ votesThrough i log ↔ ∃ r ∈ log, r.through = i ∧ r.vote = vote := by
  simp [votesThrough, and_assoc]

end RecordedVote

namespace FederationStorage

open FederationBackend FederationM Permissive RecordedVote

theorem lookup_update {F : Type} {proposalId : String} {caches : Nat → FederationCache F} {i : Nat}
    {cache : FederationCache F}
    (h : cache.votes.lookup proposalId = (caches i).votes.lookup proposalId) (j : Nat) :
    (Function.update caches i cache j).votes.lookup proposalId =
      (caches j).votes.lookup proposalId := by
  by_cases hj : j = i
  · rw [hj, Function.update_self, h]
  · rw [Function.update_of_ne hj]

variable {F S : Type} [FederationBackend S] [Permissive S] [Serde (List (FederatedVote F))]

/-- What is kept of the votes on a proposal. -/
structure BallotBox (proposalId : String) (log : List (RecordedVote F)) (w : FederationWorld F S) :
    Prop where
  stored : log = [] ∧ contents w.backend (votesNs, makeVotesKey proposalId) = none ∨
    log ≠ [] ∧ ∃ bytes, Serde.toVec (log.map (·.vote)) = .ok bytes ∧
      contents w.backend (votesNs, makeVotesKey proposalId) = some bytes
  cached : ∀ i, IsLatest FederatedVote.voter (votesThrough i log)
    (((w.caches i).votes.lookup proposalId).getD [])

variable {proposalId : String} {log : List (RecordedVote F)} {w : FederationWorld F S}

theorem ballotBox_start {b : S} (h : contents b (votesNs, makeVotesKey proposalId) = none) :
    BallotBox proposalId [] (.start b : FederationWorld F S) :=
  ⟨.inl ⟨rfl, h⟩, fun _ => isLatest_nil⟩

/-- A change that the votes of the proposal do not take part in. -/
theorem BallotBox.of_same (h : BallotBox proposalId log w) {w' : FederationWorld F S}
    (hcontents : contents w'.backend (votesNs, makeVotesKey proposalId) =
      contents w.backend (votesNs, makeVotesKey proposalId))
    (hcaches : ∀ i, (w'.caches i).votes.lookup proposalId =
      (w.caches i).votes.lookup proposalId) :
    BallotBox proposalId log w' where
  stored := by rw [hcontents]; exact h.stored
  cached i := by rw [hcaches]; exact h.cached i

theorem BallotBox.getVotes_cached (h : BallotBox proposalId log w) {i : Nat}
    (hi : ∃ r ∈ log, r.through = i) :
    ∃ cached, getVotes proposalId (w.caches i, w.backend) = .ok cached (w.caches i, w.backend) ∧
      IsLatest FederatedVote.voter (votesThrough i log) cached := by
  obtain ⟨r, hr, hthrough⟩ := hi
  have hlatest := h.cached i
  cases hlookup : (w.caches i).votes.lookup proposalId with
  | none =>
    rw [hlookup, Option.getD_none] at hlatest
    obtain ⟨vote, hvote⟩ := exists_latest FederatedVote.voter
      (mem_votesThrough.mpr ⟨r, hr, hthrough, rfl⟩)
    have hmem := (mem_of_latest hvote).2
    rw [← hmem] at hvote
    exact absurd (hlatest.mem_iff.mpr hvote) List.not_mem_nil
  | some cached =>
    rw [hlookup, Option.getD_some] at hlatest
    refine ⟨cached, ?_, hlatest⟩
    rw [getVotes_eq, hlookup]
    rfl

variable [Number F]

/-- The list of these votes is read back if all the numbers are finite, and refused otherwise. -/
def Faithful (votes : List (FederatedVote F)) : Prop :=
  Serde.Faithful (∀ vote ∈ votes, vote.IsFinite) votes

/-- What can be read of the votes is what was recorded. -/
theorem BallotBox.stored_eq (h : BallotBox proposalId log w) (hjson : Faithful (log.map (·.vote)))
    {votes : List (FederatedVote F)} (hstored : Stored proposalId (contents w.backend) votes) :
    votes = log.map (·.vote) := by
  obtain ⟨hlog, hnone⟩ | ⟨-, bytes, hbytes, hsome⟩ := h.stored
  · obtain ⟨-, rfl⟩ | ⟨bytes, hsome, -⟩ := hstored
    · rw [hlog]
      rfl
    · rw [hnone] at hsome
      cases hsome
  · obtain ⟨hnone, -⟩ | ⟨bytes', hsome', hread⟩ := hstored
    · rw [hnone] at hsome
      cases hsome
    · rw [hsome] at hsome'
      obtain rfl := Option.some.inj hsome'
      by_cases hfinite : ∀ vote ∈ log.map (·.vote), vote.IsFinite
      · rw [hjson.reads hfinite bytes hbytes] at hread
        exact (Except.ok.inj hread).symm
      · obtain ⟨e, he⟩ := hjson.refuses hfinite bytes hbytes
        rw [he] at hread
        cases hread

theorem BallotBox.record (h : BallotBox proposalId log w) (hjson : Faithful (log.map (·.vote)))
    {r : RecordedVote F} (hr : r.vote.proposalId = proposalId) {votes : List (FederatedVote F)}
    (hstored : Stored proposalId (contents w.backend) votes) {st : FederationCache F × S}
    (hwrote : Wrote votesNs (makeVotesKey proposalId) (votes ++ [r.vote]) (cacheVote r.vote)
      (w.caches r.through, w.backend) st) :
    BallotBox proposalId (log ++ [r]) ⟨st.2, Function.update w.caches r.through st.1⟩ where
  stored := by
    obtain ⟨bytes, hbytes, hcontents⟩ := hwrote.contents
    rw [h.stored_eq hjson hstored] at hbytes
    refine .inr ⟨by simp, bytes, by simpa using hbytes, ?_⟩
    rw [hcontents, Function.update_self]
  cached i := by
    rw [votesThrough_concat]
    show IsLatest _ _
      (((Function.update w.caches r.through st.1 i).votes.lookup proposalId).getD [])
    by_cases hi : r.through = i
    · subst hi
      rw [if_pos rfl, Function.update_self, hwrote.cache, cacheVote, hr, Finmap.lookup_insert]
      exact (h.cached r.through).upsert r.vote
    · rw [if_neg hi, Function.update_of_ne (Ne.symm hi)]
      exact h.cached i

/-- The votes recorded on a proposal in a run. -/
def ballots [Serde FederatedProposal] [Serde Identity] (proposalId : String)
    (calls : List (FederationCall F)) (w : FederationWorld F S) : List (RecordedVote F) :=
  (FederationCall.allRecorded calls w).filter (·.vote.proposalId = proposalId)

omit [Permissive S] [Number F] in
theorem ballots_cons [Serde FederatedProposal] [Serde Identity] (call : FederationCall F)
    (calls : List (FederationCall F)) :
    ballots proposalId (call :: calls) w =
      (call.recorded w).toList.filter (·.vote.proposalId = proposalId) ++
        ballots proposalId calls (call.after w) := by
  rw [ballots, FederationCall.allRecorded, List.filter_append]
  rfl

/-- One call, whatever it is. -/
theorem BallotBox.step [Serde FederatedProposal] [Serde Identity]
    (h : BallotBox proposalId log w) (hjson : Faithful (log.map (·.vote)))
    (call : FederationCall F) :
    BallotBox proposalId
      (log ++ (call.recorded w).toList.filter (·.vote.proposalId = proposalId))
      (call.after w) := by
  cases call with
  | saveProposal i proposal =>
    rw [show (FederationCall.saveProposal i proposal).recorded w = none from rfl,
      Option.toList_none, List.filter_nil, List.append_nil]
    show BallotBox proposalId log (final (FederationWorld.through i (saveProposal proposal) w))
    rw [FederationWorld.final_through]
    obtain ⟨st, hsave, hwrote⟩ | ⟨e, st, hsave, hsame⟩ :=
      saveProposal_cases proposal (w.caches i, w.backend)
    · rw [hsave, final_ok]
      obtain ⟨bytes, -, hcontents⟩ := hwrote.contents
      refine h.of_same ?_ (lookup_update (by rw [hwrote.cache]; rfl))
      rw [hcontents, Function.update_of_ne]
      exact fun heq => makeVotesKey_ne _ _ (Prod.mk.inj heq).2
    · rw [hsave, final_error]
      exact h.of_same (by rw [hsame.2]) (lookup_update (by rw [hsame.1]))
  | saveVote i now vote voterIdentity =>
    show BallotBox proposalId _
      (final (FederationWorld.through i (saveVote vote voterIdentity) w))
    rw [FederationWorld.final_through]
    obtain ⟨votes, st, hsave, ⟨⟨proposal, identity⟩, st', hadmission⟩, hstored, hwrote⟩ |
      ⟨e, st, hsave, hsame⟩ := saveVote_cases vote voterIdentity (w.caches i, w.backend)
    · have hrecorded : (FederationCall.saveVote i now vote voterIdentity).recorded w =
          some ⟨i, now, vote, proposal, identity⟩ := by
        simp only [FederationCall.recorded, FederationCall.perform, FederationWorld.through, hsave,
          hadmission]
      rw [hrecorded, hsave, final_ok, Option.toList_some]
      by_cases hproposal : vote.proposalId = proposalId
      · rw [List.filter_cons_of_pos (by simpa using hproposal), List.filter_nil]
        rw [hproposal] at hstored hwrote
        exact h.record hjson (r := ⟨i, now, vote, proposal, identity⟩) hproposal hstored hwrote
      · rw [List.filter_cons_of_neg (by simpa using hproposal), List.filter_nil, List.append_nil]
        obtain ⟨bytes, -, hcontents⟩ := hwrote.contents
        refine h.of_same ?_ (lookup_update ?_)
        · rw [hcontents, Function.update_of_ne]
          exact fun heq => hproposal (makeVotesKey_injective (Prod.mk.inj heq).2.symm)
        · rw [hwrote.cache, cacheVote, Finmap.lookup_insert_of_ne _ (Ne.symm hproposal)]
    · have hrecorded : (FederationCall.saveVote i now vote voterIdentity).recorded w = none := by
        simp only [FederationCall.recorded, FederationCall.perform, FederationWorld.through, hsave]
      rw [hrecorded, hsave, final_error, Option.toList_none, List.filter_nil, List.append_nil]
      exact h.of_same (by rw [hsame.2]) (lookup_update (by rw [hsame.1]))

theorem BallotBox.run [Serde FederatedProposal] [Serde Identity] {calls : List (FederationCall F)}
    (h : BallotBox proposalId log w)
    (hjson : ∀ votes, votes <+: (log ++ ballots proposalId calls w).map (·.vote) → Faithful votes) :
    BallotBox proposalId (log ++ ballots proposalId calls w)
      (runAll FederationCall.after calls w) := by
  induction calls generalizing log w with
  | nil => simpa [ballots, FederationCall.allRecorded] using h
  | cons call calls ih =>
    rw [ballots_cons, ← List.append_assoc] at hjson ⊢
    refine ih (h.step (hjson _ ?_) call) hjson
    rw [List.append_assoc, List.map_append]
    exact List.prefix_append _ _

theorem ballotBox_of_run [Serde FederatedProposal] [Serde Identity]
    {calls : List (FederationCall F)} {b : S}
    (hnew : contents b (votesNs, makeVotesKey proposalId) = none)
    (hjson : ∀ votes, votes <+: (ballots proposalId calls (.start b)).map (·.vote) →
      Faithful votes) :
    BallotBox proposalId (ballots proposalId calls (.start b : FederationWorld F S))
      (runAll FederationCall.after calls (.start b)) :=
  (ballotBox_start hnew).run hjson

/-! ### What is shown -/

/-- An instance and a fresh one show the same votes, the last one of each voter. -/
def ShowSame (proposalId : String) (log : List (RecordedVote F)) (i : Nat)
    (w : FederationWorld F S) : Prop :=
  ∃ cached st fresh st', getVotes proposalId (w.caches i, w.backend) = .ok cached st ∧
    getVotes proposalId (new, w.backend) = .ok fresh st' ∧
    (∀ vote, vote ∈ cached ↔ vote ∈ fresh) ∧
    ∀ vote, vote ∈ fresh ↔ latest FederatedVote.voter (log.map (·.vote)) vote.voter = some vote

/-- All votes can be read, nobody changed a vote, and all votes were saved through the instance. -/
structure OneBox (log : List (RecordedVote F)) (i : Nat) : Prop where
  finite : ∀ r ∈ log, r.vote.IsFinite
  once : ∀ r ∈ log, ∀ r' ∈ log, r.vote.voter = r'.vote.voter → r.vote = r'.vote
  here : ∀ r ∈ log, ∃ r' ∈ log, r'.through = i ∧ r'.vote = r.vote

theorem BallotBox.getVotes_fresh (h : BallotBox proposalId log w) (hne : log ≠ [])
    (hjson : Faithful (log.map (·.vote))) :
    ((∀ vote ∈ log.map (·.vote), vote.IsFinite) ∧ ∃ st,
      getVotes proposalId (new, w.backend) = .ok (log.map (·.vote)) st) ∨
    ((¬ ∀ vote ∈ log.map (·.vote), vote.IsFinite) ∧ ∃ e st,
      getVotes (F := F) proposalId (new, w.backend) = .error e st) := by
  obtain ⟨hlog, -⟩ | ⟨-, bytes, hbytes, hsome⟩ := h.stored
  · exact absurd hlog hne
  rw [getVotes_eq, show (new : FederationCache F).votes.lookup proposalId = none from rfl]
  by_cases hfinite : ∀ vote ∈ log.map (·.vote), vote.IsFinite
  · obtain ⟨votes, st, hread, hget⟩ | ⟨⟨details, hread⟩, -⟩ := read_cases
      (List (FederatedVote F)) _ ((new : FederationCache F), w.backend) hsome
    · rw [hjson.reads hfinite bytes hbytes] at hread
      exact .inl ⟨hfinite, st, (Except.ok.inj hread) ▸ hget⟩
    · rw [hjson.reads hfinite bytes hbytes] at hread
      cases hread
  · obtain ⟨details, hrefused⟩ := hjson.refuses hfinite bytes hbytes
    obtain ⟨votes, st, hread, -⟩ | ⟨-, hget⟩ := read_cases
      (List (FederatedVote F)) _ ((new : FederationCache F), w.backend) hsome
    · rw [hrefused] at hread
      cases hread
    · exact .inr ⟨hfinite, hget⟩

theorem BallotBox.showSame_iff (h : BallotBox proposalId log w)
    (hjson : Faithful (log.map (·.vote))) {i : Nat} (hi : ∃ r ∈ log, r.through = i) :
    ShowSame proposalId log i w ↔ OneBox log i := by
  obtain ⟨cached, hcached, hlatest⟩ := h.getVotes_cached hi
  have hne : log ≠ [] := by
    obtain ⟨r, hr, -⟩ := hi
    exact List.ne_nil_of_mem hr
  have hmem : ∀ {r}, r ∈ log → r.vote ∈ log.map (·.vote) := fun hr => List.mem_map_of_mem hr
  constructor
  · rintro ⟨cached', st, fresh, st', hcached', hfresh, hsame, hlast⟩
    rw [hcached] at hcached'
    cases hcached'
    obtain ⟨hfinite, st₁, hread⟩ | ⟨-, e, st₁, hread⟩ := h.getVotes_fresh hne hjson
    · rw [hread] at hfresh
      cases hfresh
      refine ⟨fun r hr => hfinite _ (hmem hr), ?_, ?_⟩
      · intro r hr r' hr' hvoter
        have hvote := (hlast r.vote).mp (hmem hr)
        rw [hvoter, (hlast r'.vote).mp (hmem hr')] at hvote
        exact (Option.some.inj hvote).symm
      · intro r hr
        have hthrough := hlatest.mem_iff.mp ((hsame r.vote).mpr (hmem hr))
        exact mem_votesThrough.mp (mem_of_latest hthrough).1
    · rw [hread] at hfresh
      cases hfresh
  · intro hbox
    have hfinite : ∀ vote ∈ log.map (·.vote), vote.IsFinite := by
      intro vote hvote
      obtain ⟨r, hr, rfl⟩ := List.mem_map.mp hvote
      exact hbox.finite r hr
    -- with one vote each, the last vote of a voter is any of them
    have honly : ∀ {votes vote}, (∀ v ∈ votes, v ∈ log.map (·.vote)) → vote ∈ votes →
        latest FederatedVote.voter votes vote.voter = some vote := by
      intro votes vote hsub hvote
      obtain ⟨other, hother⟩ := exists_latest FederatedVote.voter hvote
      obtain ⟨hotherMem, hvoter⟩ := mem_of_latest hother
      obtain ⟨r, hr, rfl⟩ := List.mem_map.mp (hsub _ hotherMem)
      obtain ⟨r', hr', rfl⟩ := List.mem_map.mp (hsub _ hvote)
      rw [hother, hbox.once r hr r' hr' hvoter]
    have hsub : ∀ v ∈ votesThrough i log, v ∈ log.map (·.vote) := by
      intro v hv
      obtain ⟨r, hr, -, rfl⟩ := mem_votesThrough.mp hv
      exact hmem hr
    obtain ⟨-, st, hfresh⟩ | ⟨hnot, -⟩ := h.getVotes_fresh hne hjson
    · refine ⟨cached, _, log.map (·.vote), st, hcached, hfresh, ?_, ?_⟩
      · intro vote
        rw [hlatest.mem_iff]
        constructor
        · exact fun hlast => hsub _ (mem_of_latest hlast).1
        · intro hvote
          obtain ⟨r, hr, rfl⟩ := List.mem_map.mp hvote
          exact honly hsub (mem_votesThrough.mpr (hbox.here r hr))
      · exact fun vote => ⟨honly fun _ hv => hv, fun hlast => (mem_of_latest hlast).1⟩
    · exact absurd hfinite hnot

/-- After any calls on any instances, the instance of the last vote on a proposal and a fresh one
show the same ballot box iff it is one box. -/
theorem showSame_iff_oneBox [Serde FederatedProposal] [Serde Identity]
    {calls : List (FederationCall F)} {b : S} {r : RecordedVote F}
    (hnew : contents b (votesNs, makeVotesKey proposalId) = none)
    (hjson : ∀ votes, votes <+: (ballots proposalId calls (.start b)).map (·.vote) →
      Faithful votes)
    (hlast : (ballots proposalId calls (.start b : FederationWorld F S)).getLast? = some r) :
    ShowSame proposalId (ballots proposalId calls (.start b)) r.through
        (runAll FederationCall.after calls (.start b)) ↔
      OneBox (ballots proposalId calls (.start b : FederationWorld F S)) r.through := by
  have hbox := ballotBox_of_run hnew hjson
  exact hbox.showSame_iff (hjson _ (List.prefix_refl _)) ⟨r, List.mem_of_getLast? hlast, rfl⟩

/-! ### Soup or salad -/

def lunch : FederatedProposal :=
  ⟨"lunch", "federation", ["Soup", "Salad"], "ada", 0, .globalFederation, .oneMemberOneVote, none,
    .open⟩

def carol : Identity := ⟨"did:key:carol", ⟨#[1]⟩, ⟨"carol", ∅⟩, "member"⟩

def dave : Identity := ⟨"did:key:dave", ⟨#[2]⟩, ⟨"dave", ∅⟩, "member"⟩

def soup : FederatedVote Binary64 :=
  ⟨"lunch", "did:key:carol", [Number.ofNat 1, Number.ofNat 0], "lunch:1,0", "valid"⟩

def salad : FederatedVote Binary64 :=
  ⟨"lunch", "did:key:carol", [Number.ofNat 0, Number.ofNat 1], "lunch:0,1", "valid"⟩

def davesSoup : FederatedVote Binary64 :=
  ⟨"lunch", "did:key:dave", [Number.ofNat 1, Number.ofNat 0], "lunch:1,0", "valid"⟩

def lunchText (voter choices message : String) : String :=
  "\x7b\"proposal_id\":\"lunch\",\"voter\":\"" ++ voter ++ "\",\"ranked_choices\":[" ++ choices ++
    "],\"message\":\"" ++ message ++ "\",\"signature\":\"valid\"\x7d"

def soupText : String := "[" ++ lunchText "did:key:carol" "1.0,0.0" "lunch:1,0" ++ "]"

def bothText : String :=
  "[" ++ lunchText "did:key:carol" "1.0,0.0" "lunch:1,0" ++ "," ++
    lunchText "did:key:carol" "0.0,1.0" "lunch:0,1" ++ "]"

def twoSoupsText : String :=
  "[" ++ lunchText "did:key:carol" "1.0,0.0" "lunch:1,0" ++ "," ++
    lunchText "did:key:dave" "1.0,0.0" "lunch:1,0" ++ "]"

/-- `serde_json` on the lists of carol's first vote alone or with one of the others. -/
@[reducible] def lunchVotes : Serde (List (FederatedVote Binary64)) where
  typeName := "Vec<FederatedVote>"
  toVec
    | [] => .ok "[]".toUTF8
    | [_] => .ok soupText.toUTF8
    | _ :: vote :: _ =>
      .ok (if vote.voter = "did:key:dave" then twoSoupsText.toUTF8 else bothText.toUTF8)
  fromSlice bytes :=
    if bytes = "[]".toUTF8 then .ok []
    else if bytes = soupText.toUTF8 then .ok [soup]
    else if bytes = bothText.toUTF8 then .ok [soup, salad]
    else if bytes = twoSoupsText.toUTF8 then .ok [soup, davesSoup]
    else .error "expected value at line 1 column 1"

def lunchProposalText (proposalId ns : String) : String :=
  "\x7b\"proposal_id\":\"" ++ proposalId ++ "\",\"namespace\":\"" ++ ns ++
    "\",\"options\":[\"Soup\",\"Salad\"]," ++
    "\"creator\":\"ada\",\"created_at\":0,\"scope\":\"GlobalFederation\"," ++
    "\"voting_model\":\"OneMemberOneVote\",\"expires_at\":null,\"status\":\"Open\"\x7d"

/-- `serde_json` on proposals like this one, of two namespaces. -/
@[reducible] def lunchProposals : Serde FederatedProposal where
  typeName := "FederatedProposal"
  toVec proposal := .ok (lunchProposalText proposal.proposalId proposal.ns).toUTF8
  fromSlice bytes :=
    if bytes = (lunchProposalText "lunch" "federation").toUTF8 then .ok lunch
    else if bytes = (lunchProposalText "lunch" "coop").toUTF8 then .ok { lunch with ns := "coop" }
    else .error "expected value at line 1 column 1"

@[reducible] def carols : Serde Identity :=
  ⟨"Identity", fun _ => .ok "\x7b\"did\":\"did:key:carol\"\x7d".toUTF8, fun _ => .ok carol⟩

theorem isFinite_lunch {second : FederatedVote Binary64}
    (hsecond : second = salad ∨ second = davesSoup) : ∀ vote ∈ [soup, second], vote.IsFinite := by
  simp only [FederatedVote.IsFinite]
  rcases hsecond with rfl | rfl <;> decide +kernel

theorem faithful_lunch {second : FederatedVote Binary64}
    (hsecond : second = salad ∨ second = davesSoup) {votes : List (FederatedVote Binary64)}
    (h : votes <+: [soup, second]) :
    @Faithful _ lunchVotes _ votes := by
  have hsub : ∀ vote ∈ votes, vote.IsFinite := fun vote hvote =>
    isFinite_lunch hsecond vote (h.subset hvote)
  refine @Serde.Faithful.mk _ lunchVotes _ _ (fun _ bytes hbytes => ?_)
    fun hnot => absurd hsub hnot
  have hsoup : soupText.toUTF8 ≠ "[]".toUTF8 := by decide +kernel
  have hboth : bothText.toUTF8 ≠ "[]".toUTF8 := by decide +kernel
  have hdiffer : bothText.toUTF8 ≠ soupText.toUTF8 := by decide +kernel
  have htwo : twoSoupsText.toUTF8 ≠ "[]".toUTF8 := by decide +kernel
  have htwo' : twoSoupsText.toUTF8 ≠ soupText.toUTF8 := by decide +kernel
  have hothers : twoSoupsText.toUTF8 ≠ bothText.toUTF8 := by decide +kernel
  match votes, h with
  | [], _ =>
    cases hbytes
    exact if_pos rfl
  | [_], h =>
    cases hbytes
    obtain ⟨rfl, -⟩ := List.cons_prefix_cons.mp h
    exact (if_neg hsoup).trans (if_pos rfl)
  | _ :: _ :: rest, h =>
    obtain ⟨rfl, htail⟩ := List.cons_prefix_cons.mp h
    obtain ⟨rfl, hrest⟩ := List.cons_prefix_cons.mp htail
    obtain rfl := List.prefix_nil.mp hrest
    rcases hsecond with rfl | rfl
    · have htext := Except.ok.inj hbytes
      rw [if_neg (by decide)] at htext
      subst htext
      exact (if_neg hboth).trans ((if_neg hdiffer).trans (if_pos rfl))
    · have htext := Except.ok.inj hbytes
      rw [if_pos (show davesSoup.voter = "did:key:dave" from rfl)] at htext
      subst htext
      exact (if_neg htwo).trans ((if_neg htwo').trans ((if_neg hothers).trans (if_pos rfl)))

def lunchCalls (votes : List (FederatedVote Binary64)) : List (FederationCall Binary64) :=
  .saveProposal 0 lunch :: votes.map (.saveVote 0 5 · (some carol))

/-- Carol and then dave vote, through instances made after the proposal was saved. -/
def twoSoups (i : Nat) : List (FederationCall Binary64) :=
  [.saveProposal 0 lunch, .saveVote 1 5 soup (some carol), .saveVote i 6 davesSoup (some dave)]

set_option maxRecDepth 4000 in
/-- Their votes are shown alike through one later instance, and not through two of them. -/
theorem showSame_iff_oneBox_twoSoups :
    ∃ (_ : Serde FederatedProposal) (_ : Serde (List (FederatedVote Binary64)))
      (_ : Serde Identity),
      ShowSame "lunch" (ballots "lunch" (twoSoups 1) (.start OpenBackend.empty)) 1
          (runAll FederationCall.after (twoSoups 1) (.start OpenBackend.empty)) ∧
        ¬ ShowSame "lunch" (ballots "lunch" (twoSoups 2) (.start OpenBackend.empty)) 2
          (runAll FederationCall.after (twoSoups 2) (.start OpenBackend.empty)) := by
  let := lunchVotes
  let := lunchProposals
  let := carols
  have hballots (i : Nat) (hi : i = 1 ∨ i = 2) :
      ballots "lunch" (twoSoups i) (.start OpenBackend.empty) =
        [⟨1, 5, soup, lunch, carol⟩, ⟨i, 6, davesSoup, lunch, dave⟩] := by
    rcases hi with rfl | rfl <;> rfl
  have hiff (i : Nat) (hi : i = 1 ∨ i = 2) :
      ShowSame "lunch" (ballots "lunch" (twoSoups i) (.start OpenBackend.empty)) i
          (runAll FederationCall.after (twoSoups i) (.start OpenBackend.empty)) ↔
        OneBox (ballots "lunch" (twoSoups i) (.start OpenBackend.empty)) i := by
    refine showSame_iff_oneBox (r := ⟨i, 6, davesSoup, lunch, dave⟩) rfl ?_
      (by rw [hballots i hi]; rfl)
    rw [hballots i hi]
    exact fun votes hvotes => faithful_lunch (.inr rfl) hvotes
  refine ⟨lunchProposals, lunchVotes, carols, (hiff 1 (.inl rfl)).mpr ?_, fun hshow => ?_⟩
  · rw [hballots 1 (.inl rfl)]
    refine ⟨fun r hr => ?_, by simp [soup, davesSoup], by simp⟩
    exact isFinite_lunch (.inr rfl) r.vote (List.mem_map_of_mem (f := (·.vote)) hr)
  · have hhere := ((hiff 2 (.inr rfl)).mp hshow).here
    rw [hballots 2 (.inr rfl)] at hhere
    obtain ⟨r, hr, hthrough, hvote⟩ := hhere ⟨1, 5, soup, lunch, carol⟩ List.mem_cons_self
    simp only [List.mem_cons, List.not_mem_nil, or_false] at hr
    rcases hr with rfl | rfl
    · cases hthrough
    · exact absurd (congrArg FederatedVote.voter hvote) (by decide)

set_option maxRecDepth 4000 in
/-- Carol changes her vote: the instance shows the salad, a fresh one shows both. -/
theorem not_showSame_both :
    ∃ (_ : Serde FederatedProposal) (_ : Serde (List (FederatedVote Binary64)))
      (_ : Serde Identity),
      ¬ ShowSame "lunch" (ballots "lunch" (lunchCalls [soup, salad]) (.start OpenBackend.empty)) 0
        (runAll FederationCall.after (lunchCalls [soup, salad]) (.start OpenBackend.empty)) := by
  let := lunchVotes
  let := lunchProposals
  let := carols
  have hballots : ballots "lunch" (lunchCalls [soup, salad]) (.start OpenBackend.empty) =
      [⟨0, 5, soup, lunch, carol⟩, ⟨0, 5, salad, lunch, carol⟩] := rfl
  refine ⟨lunchProposals, lunchVotes, carols, fun hshow => ?_⟩
  have hjson : ∀ votes,
      votes <+: (ballots "lunch" (lunchCalls [soup, salad]) (.start OpenBackend.empty)).map (·.vote) →
        Faithful votes := by
    rw [hballots]
    exact fun votes hvotes => faithful_lunch (.inl rfl) hvotes
  have hbox := ballotBox_of_run rfl hjson
  rw [hballots] at hshow hbox
  have hone := (hbox.showSame_iff (faithful_lunch (.inl rfl) (List.prefix_refl _))
    ⟨_, List.mem_cons_self, rfl⟩).mp hshow
  have hsame := hone.once ⟨0, 5, soup, lunch, carol⟩ (by simp) ⟨0, 5, salad, lunch, carol⟩ (by simp)
    rfl
  exact absurd (congrArg FederatedVote.message hsame) (by decide)

end FederationStorage

end Covm
