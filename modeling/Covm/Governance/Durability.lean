import Covm.Governance.Proposals

/-!
# What remains of a governance write

On the in-memory backend a fork works on a copy of the tables, and the write itself on a further
copy. Neither is ever copied back: ending the transaction concerns the tables of the original VM
only. So a VM holds the same data after `create_proposal` and `cast_vote` as before, whatever they
return.
-/

namespace Covm

open Maps Partial Comp

namespace Governance

section held
variable {F α : Type}

/-- What the reading operations depend on. -/
def held (vm : VM F InMemoryStorage) :
    Option (Table String String ByteArray) × Option AuthContext × String :=
  (vm.executor.storageBackend.map (·.data), vm.executor.authContext, vm.executor.ns)

theorem ofVm_within {R : VM F InMemoryStorage → VM F InMemoryStorage → Prop}
    {x : Exec F InMemoryStorage α} (h : Within R x) : Within R (ofVm x) := by
  intro vm
  have hvm := h vm
  unfold ofVm
  cases hx : x vm with
  | ok a vm' => simpa [hx] using hvm
  | error e vm' => simpa [hx] using hvm

theorem ofResult_within {R : VM F InMemoryStorage → VM F InMemoryStorage → Prop} [Std.Refl R]
    (r : Except (GovernanceError F) α) : Within R (ofResult r) := by
  cases r with
  | ok a => exact .pure a
  | error e => exact .fail _

theorem fork_held : Within (Agree held) (VM.fork : Exec F InMemoryStorage _) := by
  intro vm
  show held (final (VM.fork vm)) = held vm
  obtain h | ⟨clone, h⟩ := VM.final_fork vm
  · rw [h]
  · rw [h, VM.rejoined_inMemory]

theorem commit_held : Within (Agree held)
    (VM.commitForkTransaction : Exec F InMemoryStorage Unit) := by
  intro vm
  show held (final (VM.commitForkTransaction vm)) = held vm
  unfold VM.commitForkTransaction VM.onExecutor Comp.zoom VMExecution.commitForkTransaction
    VMExecution.endTransaction
  by_cases hactive : vm.executor.transactionActive
  · rw [if_pos hactive]
    cases hbackend : vm.executor.storageBackend with
    | none => simp [held, hbackend]
    | some backend =>
      have hcommit : ForkableBackend.commitTransaction backend =
          InMemoryStorage.commitTransaction backend := rfl
      dsimp only
      rw [hcommit]
      unfold InMemoryStorage.commitTransaction
      cases backend.transactionStack <;> simp [held, hbackend]
  · rw [if_neg hactive]
    rfl

theorem onClone_held (clone : InMemoryStorage) (x : OnClone F InMemoryStorage α) :
    Within (Agree held) (onClone clone x) := by
  intro vm
  show held (final (onClone clone x vm)) = held vm
  unfold onClone
  cases x clone with
  | ok a clone' => rw [final_ok, VM.rejoined_inMemory]
  | error e clone' => rw [final_error, VM.rejoined_inMemory]

theorem logNode_held [Number F] [NodeHash F] (now : DateTime)
    (node : DagLedger F → List String × NodeData F) :
    Within (Agree held) (logNode now node : Gov F InMemoryStorage Unit) := by
  intro vm
  show held (final (logNode now node vm)) = held vm
  unfold logNode
  split
  · rfl
  · split
    · rfl
    · rfl

theorem forkStorage_held :
    Within (Agree held) (forkStorage : Gov F InMemoryStorage _) := by
  unfold forkStorage
  exact (ofVm_within fork_held).bind fun forked => (ofResult_within _).bind fun storage => .pure _

theorem save_held {T : Type} [Serde T] (context : String) (w : PendingWrite InMemoryStorage T) :
    Within (Agree held) (w.save context : Gov F InMemoryStorage Unit) := onClone_held _ _

variable [Number F] [NodeHash F]

theorem createProposal_held {I : Type} [Serde Proposal] [Serde (ProposalLifecycle I)]
    (now : DateTime) (proposal : Proposal) (lifecycle : ProposalLifecycle I)
    (description logic : String) : Within (Agree held)
      (createProposal now proposal lifecycle description logic : Gov F InMemoryStorage Unit) := by
  unfold createProposal
  refine forkStorage_held.bind fun forked => (onClone_held _ _).bind fun _ => ?_
  exact (ofVm_within commit_held).bind fun _ => logNode_held _ _

theorem castVote_held [DateText] [Serde JsonValue] (now ledgerNow : DateTime)
    (id voter vote : String) (delegatedBy : Option String) : Within (Agree held)
      (castVote now ledgerNow id voter vote delegatedBy : Gov F InMemoryStorage Unit) := by
  have hprepare : Within (Agree held)
      (prepareVote now id voter vote delegatedBy : Gov F InMemoryStorage _) := by
    unfold prepareVote
    refine forkStorage_held.bind fun forked => (ofResult_within _).bind fun found => ?_
    cases found with
    | false => exact Within.bind (.fail _) fun _ => .pure _
    | true => exact .pure _
  unfold castVote
  refine hprepare.bind fun write => (save_held _ _).bind fun _ => ?_
  exact (ofVm_within commit_held).bind fun _ => logNode_held _ _

end held

/-! ## What can be read -/

section reading
variable {F I : Type}

/-- The storage holds neither a proposal nor anything below its key. -/
def FreshId (vm : VM F InMemoryStorage) (id : String) : Prop :=
  ∀ backend key, vm.executor.storageBackend = some backend →
    key = proposalKeyPrefix id ∨ (proposalKeyPrefix id ++ "/").toList <+: key.toList →
      backend.data.get (vm.executor.ns, key) = none

theorem FreshId.congr {vm vm' : VM F InMemoryStorage} {id : String} (h : FreshId vm id)
    (hheld : held vm' = held vm) : FreshId vm' id := by
  obtain ⟨hdata, hrest⟩ := Prod.ext_iff.mp hheld
  obtain ⟨-, hns⟩ := Prod.ext_iff.mp hrest
  intro backend key hbackend hkey
  have hmap : vm.executor.storageBackend.map (·.data) = some backend.data := by
    simpa only [held, hbackend, Option.map_some, eq_comm] using hdata
  obtain ⟨b, hb, hbdata⟩ := Option.map_eq_some_iff.mp hmap
  rw [← hbdata, show vm'.executor.ns = vm.executor.ns from hns]
  exact h b key hb hkey

/-- A proposal that is read is there. -/
theorem FreshId.getProposal_ne [Serde Proposal] {vm : VM F InMemoryStorage} {id : String}
    (h : FreshId vm id) (proposal : Proposal) : getProposal vm id ≠ .ok proposal := by
  unfold getProposal
  cases hbackend : vm.executor.storageBackend with
  | none => simp [backendOf, hbackend, bind, Except.bind]
  | some backend =>
    have hnone := h backend (proposalKeyPrefix id) hbackend (.inl rfl)
    have hget : ∃ e, StorageBackend.get backend vm.executor.authContext vm.executor.ns
        (proposalKeyPrefix id) = .error e := by
      show ∃ e, backend.get _ _ _ = .error e
      unfold InMemoryStorage.get
      cases InMemoryStorage.checkPermission vm.executor.authContext "read" vm.executor.ns with
      | error e => exact ⟨e, rfl⟩
      | ok u =>
        simp only [bind, Except.bind, hnone]
        exact ⟨_, rfl⟩
    obtain ⟨e, he⟩ := hget
    simp [backendOf, hbackend, StorageExtensions.getJson, he, bind, Except.bind, Except.mapError]

theorem mem_listKeys {s : InMemoryStorage} {auth : Option AuthContext} {ns text : String}
    {keys : Finset String} (h : s.listKeys auth ns (some text) = .ok keys) {key : String}
    (hkey : key ∈ keys) : text.toList <+: key.toList ∧ s.data.get (ns, key) ≠ none := by
  unfold InMemoryStorage.listKeys at h
  cases hauth : InMemoryStorage.checkPermission auth "read" ns with
  | error e => simp [hauth, bind, Except.bind] at h
  | ok u =>
    cases hrow : s.data.lookup ns with
    | none =>
      simp only [hauth, bind, Except.bind, hrow, Except.ok.injEq] at h
      simp [← h] at hkey
    | some row =>
      simp only [hauth, bind, Except.bind, hrow, Except.ok.injEq] at h
      rw [← h, Finset.mem_filter] at hkey
      refine ⟨by simpa using hkey.2, ?_⟩
      have hmem : key ∈ row := Finmap.mem_keys.mp hkey.1
      rw [Table.get, hrow]
      simpa [Finmap.lookup_eq_none] using hmem

/-- There are no votes to be found. -/
theorem FreshId.getProposalVotes_eq [HashOrder] [Serde JsonValue] {vm : VM F InMemoryStorage}
    {id : String} (h : FreshId vm id) {entries : List (String × String)}
    (hentries : getProposalVotes vm id = .ok entries) : entries = [] := by
  unfold getProposalVotes at hentries
  cases hbackend : vm.executor.storageBackend with
  | none => simp [backendOf, hbackend, bind, Except.bind] at hentries
  | some backend =>
    cases hkeys : backend.listKeys vm.executor.authContext vm.executor.ns
        (some (proposalVotesPrefix id)) with
    | error e =>
      have hlist : ListingBackend.listKeys backend vm.executor.authContext vm.executor.ns
          (some (proposalVotesPrefix id)) = .error e := by
        show (do return HashOrder.order (← backend.listKeys _ _ _)) = _
        rw [hkeys]
        rfl
      simp [backendOf, hbackend, hlist, bind, Except.bind, Except.mapError] at hentries
    | ok keys =>
      have hempty : HashOrder.order keys = [] := by
        refine List.eq_nil_iff_forall_not_mem.mpr fun key hkey => ?_
        obtain ⟨hstarts, hpresent⟩ := mem_listKeys hkeys (HashOrder.mem_order.mp hkey)
        have hid : (proposalKeyPrefix id ++ "/").toList <+: (proposalVotesPrefix id).toList := by
          show _ <+: (proposalKeyPrefix id ++ ("/" ++ "votes")).toList
          rw [← String.append_assoc, String.toList_append (t := "votes")]
          exact List.prefix_append _ _
        exact hpresent (h backend key hbackend (.inr (hid.trans hstarts)))
      have hlist : ListingBackend.listKeys backend vm.executor.authContext vm.executor.ns
          (some (proposalVotesPrefix id)) = .ok [] := by
        show (do return HashOrder.order (← backend.listKeys _ _ _)) = _
        rw [hkeys, ← hempty]
        rfl
      simpa [backendOf, hbackend, hlist, bind, Except.bind, Except.mapError, pure, Except.pure]
        using hentries

end reading

/-! ## Runs -/

/-- A call of `cast_vote`, with the readings of the clock it takes. -/
structure Ballot where
  voter : String
  vote : String
  delegatedBy : Option String
  now : DateTime
  ledgerNow : DateTime

/-- The latest vote of a voter. -/
def latestVote (ballots : List Ballot) (voter : String) : Option String :=
  (ballots.reverse.find? fun ballot => ballot.voter = voter).map (·.vote)

section runs
variable {F I : Type} [Number F] [NodeHash F] [DateText] [Serde JsonValue] [Serde Proposal]
  [Serde (ProposalLifecycle I)]

def Ballot.after (id : String) (ballot : Ballot) (vm : VM F InMemoryStorage) :
    VM F InMemoryStorage :=
  final (castVote ballot.now ballot.ledgerNow id ballot.voter ballot.vote ballot.delegatedBy vm)

/-- The proposal is created, and can then be read back. -/
def ProposalVisible (now : DateTime) (proposal : Proposal) (lifecycle : ProposalLifecycle I)
    (description logic : String) (vm : VM F InMemoryStorage) : Prop :=
  ∃ vm', createProposal now proposal lifecycle description logic vm = .ok () vm' ∧
    getProposal vm' proposal.id = .ok proposal ∧
    getProposalLifecycle vm' proposal.id = .ok lifecycle

/-- After the proposal is created and votes are cast, the votes are listed: one entry for each
voter, with the latest vote. -/
def VotesVisible [HashOrder] (now : DateTime) (proposal : Proposal)
    (lifecycle : ProposalLifecycle I) (description logic : String) (ballots : List Ballot)
    (vm : VM F InMemoryStorage) : Prop :=
  ∃ entries, getProposalVotes (runAll (Ballot.after proposal.id) ballots
      (final (createProposal now proposal lifecycle description logic vm))) proposal.id =
        .ok entries ∧
    (entries.map Prod.fst).Nodup ∧
    ∀ voter vote, (voter, vote) ∈ entries ↔ latestVote ballots voter = some vote

omit [Serde Proposal] in
/-- A run of votes leaves what can be read as it is. -/
theorem held_runAll (id : String) (ballots : List Ballot) (vm : VM F InMemoryStorage) :
    held (runAll (Ballot.after id) ballots vm) = held vm := by
  induction ballots generalizing vm with
  | nil => rfl
  | cons ballot ballots ih =>
    rw [runAll_cons, ih]
    exact castVote_held _ _ _ _ _ _ vm

omit [Number F] [NodeHash F] [DateText] [Serde JsonValue] [Serde Proposal] in
theorem exists_latestVote {ballots : List Ballot} (h : ballots ≠ []) :
    ∃ voter vote, latestVote ballots voter = some vote := by
  obtain ⟨ballot, hballot⟩ := List.exists_mem_of_ne_nil ballots h
  have hfound : (ballots.reverse.find? fun other => other.voter = ballot.voter).isSome := by
    rw [List.find?_isSome]
    exact ⟨ballot, List.mem_reverse.mpr hballot, by simp⟩
  obtain ⟨latest, hlatest⟩ := Option.isSome_iff_exists.mp hfound
  exact ⟨ballot.voter, latest.vote, by rw [latestVote, hlatest, Option.map_some]⟩

omit [DateText] [Serde JsonValue] in
theorem FreshId.not_visible {vm : VM F InMemoryStorage} {proposal : Proposal}
    (hfresh : FreshId vm proposal.id) (now : DateTime) (lifecycle : ProposalLifecycle I)
    (description logic : String) :
    ¬ ProposalVisible now proposal lifecycle description logic vm := by
  rintro ⟨vm', hok, hget, -⟩
  have hcreated := createProposal_held now proposal lifecycle description logic vm
  rw [hok] at hcreated
  exact (hfresh.congr hcreated).getProposal_ne proposal hget

/-- A proposal with a fresh identifier is never created and visible, and no votes on it ever are. -/
theorem never_visible [HashOrder] {vm : VM F InMemoryStorage} {proposal : Proposal}
    (hfresh : FreshId vm proposal.id) (now : DateTime) (lifecycle : ProposalLifecycle I)
    (description logic : String) :
    ¬ ProposalVisible now proposal lifecycle description logic vm ∧
      ∀ ballots, ballots ≠ [] →
        ¬ VotesVisible now proposal lifecycle description logic ballots vm := by
  refine ⟨hfresh.not_visible now lifecycle description logic, ?_⟩
  rintro ballots hne ⟨entries, hentries, -, hlatest⟩
  have hcreated := createProposal_held now proposal lifecycle description logic vm
  have hheld := (held_runAll proposal.id ballots _).trans hcreated
  obtain rfl := (hfresh.congr hheld).getProposalVotes_eq hentries
  obtain ⟨voter, vote, hvote⟩ := exists_latestVote hne
  exact absurd ((hlatest voter vote).mpr hvote) List.not_mem_nil

end runs

/-! ## An administrator with room for a proposal -/

section administrator
open InMemoryStorage

/-- The user may read and write, what is stored can be read back, and the account has room for
it. -/
def ToSpare {F I : Type} [Serde Proposal] [Serde (ProposalLifecycle I)]
    (vm : VM F InMemoryStorage) (proposal : Proposal) (lifecycle : ProposalLifecycle I)
    (description logic : String) : Prop :=
  ∃ backend auth account proposalBytes lifecycleBytes,
    vm.executor.storageBackend = some backend ∧ vm.executor.authContext = some auth ∧
    checkPermission (some auth) "read" vm.executor.ns = .ok () ∧
    checkPermission (some auth) "write" vm.executor.ns = .ok () ∧
    backend.accounts.lookup auth.currentIdentityDid = some account ∧
    (Serde.toVec proposal = .ok proposalBytes ∧ Serde.fromSlice proposalBytes = .ok proposal) ∧
    (Serde.toVec lifecycle = .ok lifecycleBytes ∧
      Serde.fromSlice lifecycleBytes = .ok lifecycle) ∧
    account.storageUsedBytes + proposalBytes.size + lifecycleBytes.size +
      description.utf8ByteSize + logic.utf8ByteSize ≤ account.storageQuotaBytes

def roofProposal : Proposal :=
  ⟨"p1", "alice", .draft, 0, none, none, none, none, [], none, none, none⟩

def roofProposalText : String :=
  "\x7b\"id\":\"p1\",\"creator\":\"alice\",\"status\":\"Draft\"," ++
    "\"created_at\":\"1970-01-01T00:00:00Z\",\"expires_at\":null,\"logic_path\":null," ++
    "\"discussion_path\":null,\"votes_path\":null,\"attachments\":[]," ++
    "\"execution_result\":null,\"deliberation_started_at\":null," ++
    "\"min_deliberation_hours\":null\x7d"

/-- `serde_json` on the text of this one proposal. -/
instance : Serde Proposal where
  typeName := "icn_covm::governance::proposal::Proposal"
  toVec _ := .ok roofProposalText.toUTF8
  fromSlice _ := .ok roofProposal

instance : DateText where
  toRfc3339 _ := "1970-01-01T00:00:00+00:00"

def yesOfBob : Ballot := ⟨"bob", "yes", none, 0, 0⟩

/-- `serde_json` on the text of this one vote. -/
instance : Serde JsonValue where
  typeName := "serde_json::value::Value"
  toVec _ := .ok ("\x7b\"delegated_by\":null,\"timestamp\":\"1970-01-01T00:00:00+00:00\"," ++
    "\"vote\":\"yes\",\"voter\":\"bob\"\x7d").toUTF8
  fromSlice _ := .ok (voteData 0 "bob" "yes" none)

instance : HashOrder where
  order keys := keys.sort (· ≥ ·)
  nodup_order keys := keys.sort_nodup _
  mem_order := Finset.mem_sort _

instance : NodeHash Binary64 where
  toString _ := "null"
  fromStr _ := .error "invalid type: null, expected struct DagNode"
  sha256 _ := ""

def adminVm : VM Binary64 InMemoryStorage :=
  .setAuthContext admin (.withStorageBackend (fun _ => 0) adminStorage)

theorem fresh_adminVm : FreshId adminVm roofProposal.id := by
  rintro backend key hbackend -
  obtain rfl := Option.some.inj hbackend
  rfl

theorem toSpare_adminVm : ToSpare adminVm roofProposal (roofRepair .draft) "" "" := by
  refine ⟨adminStorage, admin, ⟨"admin", 1000, 0, 0⟩, roofProposalText.toUTF8,
    (roofRepairText .draft).toUTF8, rfl, rfl, by decide, by decide, ?_,
    ⟨rfl, rfl⟩, ⟨rfl, readRoofRepair_text .draft⟩, ?_⟩
  · rfl
  · have hproposal : roofProposalText.toUTF8.size ≤ 300 := by decide +kernel
    have hlifecycle : (roofRepairText .draft).toUTF8.size ≤ 500 := by decide +kernel
    have hempty : "".utf8ByteSize = 0 := by decide
    rw [hempty]
    dsimp only
    omega

theorem never_visible_adminVm :
    ¬ ProposalVisible 0 roofProposal (roofRepair .draft) "" "" adminVm ∧
      ¬ VotesVisible 0 roofProposal (roofRepair .draft) "" "" [yesOfBob] adminVm :=
  (never_visible fresh_adminVm 0 (roofRepair .draft) "" "").imp_right
    fun votes => votes [yesOfBob] (List.cons_ne_nil _ _)

/-- An administrator's proposal is not created. -/
theorem proposal_lost : ¬ ∀ (F I : Type) [Number F] [NodeHash F] [DateText] [HashOrder]
    [Serde JsonValue] [Serde Proposal] [Serde (ProposalLifecycle I)] (now : DateTime)
    (proposal : Proposal) (lifecycle : ProposalLifecycle I) (description logic : String)
    (vm : VM F InMemoryStorage), FreshId vm proposal.id →
      ToSpare vm proposal lifecycle description logic →
      ProposalVisible now proposal lifecycle description logic vm ∧
        ∀ ballots, VotesVisible now proposal lifecycle description logic ballots vm := by
  intro h
  have hvisible := (h _ _ 0 _ _ "" "" _ fresh_adminVm toSpare_adminVm).1
  exact fresh_adminVm.not_visible 0 (roofRepair .draft) "" "" hvisible

end administrator

end Governance

end Covm
