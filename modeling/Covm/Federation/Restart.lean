import Covm.Federation.Ballots

/-!
# Proposals after a restart

A proposal is written to its own namespace and, without a cache, looked for in the namespace
`federation`. It is found again exactly if that is its namespace; proposals with other identifiers
make no difference.
-/

namespace Covm

open Partial

namespace FederationStorage

open FederationBackend FederationM Permissive

section
variable {F S : Type} [FederationBackend S] [Permissive S] [Serde FederatedProposal]

/-- A fresh instance returns the proposal. -/
def Restored (p : FederatedProposal) (b : S) : Prop :=
  ∃ st, getProposal p.proposalId ((new : FederationCache F), b) = .ok p st

/-- What is stored where a fresh instance looks is read as the proposal. -/
def ReadsAs (p : FederatedProposal) (b : S) : Prop :=
  ∃ bytes, contents b (federationNs, makeProposalKey p.proposalId) = some bytes ∧
    Serde.fromSlice bytes = .ok p

theorem restored_iff {p : FederatedProposal} {b : S} : Restored (F := F) p b ↔ ReadsAs p b := by
  unfold Restored
  rw [getProposal_eq, show (new : FederationCache F).proposals.lookup p.proposalId = none from rfl]
  cases hfound : contents b (federationNs, makeProposalKey p.proposalId) with
  | none =>
    obtain ⟨missing, s', hget, -⟩ := get_missing hfound
    simp only [mapErr, onBackend, getJson, StorageM.bind_of_error hget]
    simp [ReadsAs, hfound]
  | some bytes =>
    obtain ⟨q, st, hread, hget⟩ | ⟨⟨details, hread⟩, e, st, hget⟩ :=
      read_cases FederatedProposal s!"Failed to retrieve proposal {p.proposalId}"
        ((new : FederationCache F), b) hfound
    · dsimp only
      simp [hget, ReadsAs, hfound, hread]
    · dsimp only
      simp [hget, ReadsAs, hfound, hread]

variable [Serde (List (FederatedVote F))] [Serde Identity]

/-- Where proposals are looked for, a call changes nothing, or a proposal was saved there. -/
theorem contents_after (proposalId : String) (call : FederationCall F) (w : FederationWorld F S) :
    contents (call.after w).backend (federationNs, makeProposalKey proposalId) =
        contents w.backend (federationNs, makeProposalKey proposalId) ∨
      ∃ i q bytes, call = .saveProposal i q ∧ q.ns = federationNs ∧ q.proposalId = proposalId ∧
        Serde.toVec q = .ok bytes ∧
        contents (call.after w).backend (federationNs, makeProposalKey proposalId) =
          some bytes := by
  cases call with
  | saveProposal i q =>
    show contents (final (FederationWorld.through i (saveProposal q) w)).backend _ = _ ∨ _
    rw [FederationWorld.final_through]
    obtain ⟨st, hsave, hwrote⟩ | ⟨e, st, hsave, hsame⟩ :=
      saveProposal_cases q (w.caches i, w.backend)
    · rw [hsave, final_ok]
      obtain ⟨bytes, hbytes, hcontents⟩ := hwrote.contents
      by_cases hplace : (federationNs, makeProposalKey proposalId) =
          (q.ns, makeProposalKey q.proposalId)
      · obtain ⟨hns, hkey⟩ := Prod.mk.inj hplace
        refine .inr ⟨i, q, bytes, rfl, hns.symm, (makeProposalKey_injective hkey).symm, hbytes, ?_⟩
        show contents (final (FederationWorld.through i (saveProposal q) w)).backend _ = _
        rw [FederationWorld.final_through, hsave, final_ok, hcontents, ← hplace,
          Function.update_self]
      · rw [hcontents, Function.update_of_ne hplace]
        exact .inl rfl
    · rw [hsave, final_error]
      exact .inl (by rw [hsame.2])
  | saveVote i now vote voterIdentity =>
    left
    show contents (final (FederationWorld.through i (saveVote vote voterIdentity) w)).backend _ = _
    rw [FederationWorld.final_through]
    obtain ⟨votes, st, hsave, -, -, hwrote⟩ | ⟨e, st, hsave, hsame⟩ :=
      saveVote_cases vote voterIdentity (w.caches i, w.backend)
    · rw [hsave, final_ok]
      obtain ⟨bytes, -, hcontents⟩ := hwrote.contents
      rw [hcontents, Function.update_of_ne]
      exact fun heq => makeVotesKey_ne _ _ (Prod.mk.inj heq).2.symm
    · rw [hsave, final_error, hsame.2]

/-- Calls that save no proposal of an identifier change nothing where it is looked for. -/
theorem contents_run {proposalId : String} {calls : List (FederationCall F)}
    (hother : ∀ i q, .saveProposal i q ∈ calls → q.proposalId ≠ proposalId)
    (w : FederationWorld F S) :
    contents (runAll FederationCall.after calls w).backend
        (federationNs, makeProposalKey proposalId) =
      contents w.backend (federationNs, makeProposalKey proposalId) := by
  induction calls generalizing w with
  | nil => rfl
  | cons call calls ih =>
    rw [runAll_cons, ih (fun i q hq => hother i q (List.mem_cons_of_mem call hq))]
    obtain hsame | ⟨i, q, bytes, rfl, -, hid, -⟩ := contents_after proposalId call w
    · exact hsame
    · exact absurd hid (hother i q List.mem_cons_self)

/-- After a save, what is found there is the proposal, or it is what was there before. -/
theorem readsAs_saved {p : FederatedProposal} (hjson : Serde.Faithful True p) {i : Nat}
    {w w' : FederationWorld F S}
    (h : (FederationCall.saveProposal i p).perform w = .ok () w') :
    ReadsAs p w'.backend ↔ p.ns = federationNs ∨ ReadsAs p w.backend := by
  obtain ⟨cache, s, hsave, rfl⟩ := FederationWorld.through_eq_ok.mp h
  obtain ⟨st, hsave', hwrote⟩ | ⟨e, st, herror, -⟩ := saveProposal_cases p (w.caches i, w.backend)
  · cases hsave.symm.trans hsave'
    obtain ⟨bytes, hbytes, hcontents⟩ := hwrote.contents
    by_cases hns : p.ns = federationNs
    · refine iff_of_true ⟨bytes, ?_, hjson.reads trivial bytes hbytes⟩ (.inl hns)
      rw [hcontents, hns, Function.update_self]
    · have hother : (federationNs, makeProposalKey p.proposalId) ≠
          (p.ns, makeProposalKey p.proposalId) :=
        fun heq => hns (Prod.mk.inj heq).1.symm
      have hsame : contents s (federationNs, makeProposalKey p.proposalId) =
          contents w.backend (federationNs, makeProposalKey p.proposalId) := by
        rw [hcontents, Function.update_of_ne hother]
      simp only [ReadsAs, hsame, hns, false_or]
  · cases hsave.symm.trans herror

/-- A saved proposal is restored, whatever other proposals and votes are saved after it, iff it
belongs to the namespace of the federation or was there before. -/
theorem restored_iff_federationNs {p : FederatedProposal} (hjson : Serde.Faithful True p) {i : Nat}
    {rest : List (FederationCall F)} {w w' : FederationWorld F S}
    (hsaved : (FederationCall.saveProposal i p).perform w = .ok () w')
    (hother : ∀ j q, .saveProposal j q ∈ rest → q.proposalId ≠ p.proposalId) :
    Restored (F := F) p (runAll FederationCall.after (.saveProposal i p :: rest) w).backend ↔
      p.ns = federationNs ∨ ReadsAs p w.backend := by
  have hafter : (FederationCall.saveProposal i p).after w = w' := by
    rw [FederationCall.after, hsaved, final_ok]
  have hfound := contents_run hother w'
  rw [runAll_cons, hafter, restored_iff, ← readsAs_saved hjson hsaved]
  simp only [ReadsAs, hfound]

end

/-! ### A proposal of the federation, and one of a cooperative -/

theorem faithful_lunchProposal : @Serde.Faithful _ lunchProposals True lunch :=
  @Serde.Faithful.mk _ lunchProposals _ _ (fun _ bytes hbytes => by cases hbytes; exact if_pos rfl)
    fun hnot => absurd trivial hnot

def dinner : FederatedProposal := { lunch with proposalId := "dinner" }

def coopLunch : FederatedProposal := { lunch with ns := "coop" }

def savings (proposals : List FederatedProposal) : List (FederationCall Binary64) :=
  proposals.map (.saveProposal 0)

/-- The proposal of the federation is there after the restart, with another saved after it. -/
theorem restored_lunch :
    ∃ (_ : Serde FederatedProposal) (_ : Serde (List (FederatedVote Binary64)))
      (_ : Serde Identity),
      Restored (F := Binary64) lunch
        (runAll FederationCall.after (savings [lunch, dinner])
          (.start OpenBackend.empty)).backend := by
  let := lunchVotes
  let := lunchProposals
  let := carols
  have hother : ∀ j q, .saveProposal j q ∈ savings [dinner] → q.proposalId ≠ lunch.proposalId := by
    intro j q hq
    obtain ⟨-, rfl⟩ := FederationCall.saveProposal.inj (List.mem_singleton.mp hq)
    decide
  exact ⟨lunchProposals, lunchVotes, carols,
    (restored_iff_federationNs faithful_lunchProposal rfl hother).mpr (.inl rfl)⟩

/-- The proposal of a cooperative is not. -/
theorem not_restored_coopLunch :
    ∃ (_ : Serde FederatedProposal) (_ : Serde (List (FederatedVote Binary64)))
      (_ : Serde Identity) (w : FederationWorld Binary64 OpenBackend),
      (FederationCall.saveProposal 0 coopLunch).perform (.start OpenBackend.empty) = .ok () w ∧
        ¬ Restored (F := Binary64) coopLunch w.backend := by
  let := lunchVotes
  let := lunchProposals
  let := carols
  refine ⟨lunchProposals, lunchVotes, carols, _, rfl, ?_⟩
  rw [restored_iff]
  rintro ⟨bytes, hfound, -⟩
  cases hfound

end FederationStorage

end Covm
