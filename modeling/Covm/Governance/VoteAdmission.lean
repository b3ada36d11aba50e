import Covm.Governance.Proposals

/-!
# Which votes are admitted

`handle_vote_command` checks that the proposal is there, that its deliberation is over and that the
choice is one of three words; `cast_vote` checks once more that the proposal is there. Neither looks
at the state of the lifecycle or at the end of the vote.
-/

namespace Covm

open Partial

namespace Governance

variable {F S I : Type} [ForkableBackend S]

/-- The vote command gets as far as the write of `cast_vote`. -/
def ReachesWrite (I : Type) [DateText] [Serde (ProposalLifecycle I)] (now votedAt : DateTime)
    (auth : AuthContext) (id choice : String) (delegate : Option String) (vm : VM F S) : Prop :=
  ∃ vote vm₁ write vm₂, admitVote I now auth id choice vm = .ok vote vm₁ ∧
    prepareVote votedAt id auth.currentIdentityDid vote delegate vm₁ = .ok write vm₂

/-- The vote on a proposal is open. -/
def VotingOpen (votedAt : DateTime) (lifecycle : ProposalLifecycle I) : Prop :=
  lifecycle.state = .voting ∧ ∀ t, lifecycle.expiresAt = some t → votedAt ≤ t

/-- The minimum time for discussion has passed. -/
def Deliberated (now : DateTime) (lifecycle : ProposalLifecycle I) : Prop :=
  ∀ d, lifecycle.discussionDuration = some d → d ≤ now - lifecycle.createdAt

/-- The proposal is found by the caller of the command, and by the VM's user in the fork. -/
def ProposalFound (auth : AuthContext) (id : String) (vm : VM F S) : Prop :=
  ∃ backend forked, vm.executor.storageBackend = some backend ∧
    StorageBackend.contains backend (some auth) vm.executor.ns (proposalKeyPrefix id) = .ok true ∧
    ForkableBackend.beginTransaction backend = .ok () forked ∧
    StorageBackend.contains forked vm.executor.authContext vm.executor.ns
      (proposalKeyPrefix id) = .ok true

theorem requireProposal_eq_ok_iff {unavailable : String} {auth : AuthContext} {id : String}
    {vm vm' : VM F S} {u : Unit} :
    requireProposal unavailable auth id vm = .ok u vm' ↔ vm' = vm ∧
      ∃ backend, vm.executor.storageBackend = some backend ∧
        StorageBackend.contains backend (some auth) vm.executor.ns (proposalKeyPrefix id) =
          .ok true := by
  have hget : (get : Gov F S (VM F S)) vm = .ok vm vm := rfl
  unfold requireProposal
  rw [Comp.bind_of_ok hget]
  simp only [Comp.bind_eq_ok_iff, ofResult_eq_ok_iff, backendOf_eq_ok_iff, mapError_eq_ok_iff]
  constructor
  · rintro ⟨backend, _, ⟨hbackend, rfl⟩, found, _, ⟨hfound, rfl⟩, hrest⟩
    cases found with
    | false => simp [raiseText, raiseError] at hrest
    | true =>
      cases hrest
      exact ⟨rfl, backend, hbackend, hfound⟩
  · rintro ⟨rfl, backend, hbackend, hfound⟩
    exact ⟨backend, _, ⟨hbackend, rfl⟩, true, _, ⟨hfound, rfl⟩, rfl⟩

omit [ForkableBackend S] in
theorem requireDeliberated_eq_ok_iff {now : DateTime} {id : String}
    {lifecycle : ProposalLifecycle I} {vm vm' : VM F S} {u : Unit} :
    requireDeliberated now id lifecycle vm = .ok u vm' ↔
      vm' = vm ∧ Deliberated now lifecycle := by
  unfold requireDeliberated Deliberated
  cases lifecycle.discussionDuration with
  | none => simp [eq_comm]
  | some d =>
    dsimp only
    by_cases hearly : now - lifecycle.createdAt < d
    · simp only [if_pos hearly, raiseText, raiseError, Comp.fail_apply, reduceCtorEq, false_iff,
        not_and, not_forall]
      exact fun _ => ⟨d, rfl, not_le.mpr hearly⟩
    · simp only [if_neg hearly, Comp.pure_apply, EStateM.Result.ok.injEq, true_and,
        Option.some.injEq, forall_eq', not_lt.mp hearly, and_true]
      exact eq_comm

theorem admitVote_eq_ok_iff [Serde (ProposalLifecycle I)] {now : DateTime} {auth : AuthContext}
    {id choice vote : String} {vm vm' : VM F S} :
    admitVote I now auth id choice vm = .ok vote vm' ↔ vm' = vm ∧
      (∃ backend, vm.executor.storageBackend = some backend ∧
        StorageBackend.contains backend (some auth) vm.executor.ns (proposalKeyPrefix id) =
          .ok true) ∧
      (∃ lifecycle : ProposalLifecycle I, getProposalLifecycle vm id = .ok lifecycle ∧
        Deliberated now lifecycle) ∧
      parseChoice choice = some vote := by
  have hget : (get : Gov F S (VM F S)) vm = .ok vm vm := rfl
  unfold admitVote
  simp only [Comp.bind_eq_ok_iff, requireProposal_eq_ok_iff, ofResult_eq_ok_iff,
    requireDeliberated_eq_ok_iff]
  constructor
  · rintro ⟨-, _, ⟨rfl, hfound⟩, _, _, hvm, lifecycle, _, ⟨hlifecycle, rfl⟩, -, _, ⟨rfl, htime⟩,
      hchoice⟩
    obtain ⟨rfl, rfl⟩ := EStateM.Result.ok.inj (hget.symm.trans hvm)
    cases hparse : parseChoice choice with
    | none => simp [hparse, raiseText, raiseError] at hchoice
    | some found =>
      rw [hparse] at hchoice
      obtain ⟨rfl, rfl⟩ := EStateM.Result.ok.inj hchoice
      exact ⟨rfl, hfound, ⟨lifecycle, hlifecycle, htime⟩, rfl⟩
  · rintro ⟨rfl, hfound, ⟨lifecycle, hlifecycle, htime⟩, hparse⟩
    refine ⟨(), _, ⟨rfl, hfound⟩, _, _, hget, lifecycle, _, ⟨hlifecycle, rfl⟩, (), _, ⟨rfl, htime⟩,
      ?_⟩
    rw [hparse]
    rfl

theorem prepareVote_ok_iff [DateText] (votedAt : DateTime) {id voter vote : String}
    {delegate : Option String} {vm : VM F S} :
    (∃ write vm', prepareVote votedAt id voter vote delegate vm = .ok write vm') ↔
      ∃ backend forked, vm.executor.storageBackend = some backend ∧
        ForkableBackend.beginTransaction backend = .ok () forked ∧
        StorageBackend.contains forked vm.executor.authContext vm.executor.ns
          (proposalKeyPrefix id) = .ok true := by
  unfold prepareVote
  simp only [Comp.bind_eq_ok_iff, ofResult_eq_ok_iff, mapError_eq_ok_iff]
  constructor
  · rintro ⟨write, vm', ⟨forked, storage⟩, _, hfork, found, _, ⟨hfound, rfl⟩, hrest⟩
    obtain ⟨backend, hbackend, hbegin, rfl, rfl⟩ := forkStorage_eq_ok_iff.mp hfork
    cases found with
    | false => simp [raiseText, raiseError, Comp.bind_apply] at hrest
    | true => exact ⟨backend, storage, hbackend, hbegin, hfound⟩
  · rintro ⟨backend, forked, hbackend, hbegin, hfound⟩
    exact ⟨_, _, ⟨_, forked⟩, _, forkStorage_eq_ok_iff.mpr ⟨backend, hbackend, hbegin, rfl, rfl⟩,
      true, _, ⟨hfound, rfl⟩, rfl⟩

/-- A vote is written iff the proposal is found, its deliberation is over and the choice is one. -/
theorem reachesWrite_iff [DateText] [Serde (ProposalLifecycle I)] {now votedAt : DateTime}
    {auth : AuthContext} {id choice : String} {delegate : Option String} {vm : VM F S}
    {lifecycle : ProposalLifecycle I} (h : getProposalLifecycle vm id = .ok lifecycle) :
    ReachesWrite I now votedAt auth id choice delegate vm ↔
      ProposalFound auth id vm ∧ Deliberated now lifecycle ∧ parseChoice choice ≠ none := by
  unfold ReachesWrite
  constructor
  · rintro ⟨vote, _, write, vm₂, hadmit, hprepare⟩
    obtain ⟨rfl, ⟨backend, hbackend, hfound⟩, ⟨l, hl, htime⟩, hchoice⟩ :=
      admitVote_eq_ok_iff.mp hadmit
    obtain rfl := Except.ok.inj (h.symm.trans hl)
    obtain ⟨_, forked, hbackend', hbegin, hagain⟩ := (prepareVote_ok_iff _).mp ⟨write, vm₂, hprepare⟩
    obtain rfl := Option.some.inj (hbackend.symm.trans hbackend')
    exact ⟨⟨backend, forked, hbackend, hfound, hbegin, hagain⟩, htime, by simp [hchoice]⟩
  · rintro ⟨⟨backend, forked, hbackend, hfound, hbegin, hagain⟩, htime, hchoice⟩
    obtain ⟨vote, hvote⟩ := Option.ne_none_iff_exists'.mp hchoice
    obtain ⟨write, vm₂, hprepare⟩ := (prepareVote_ok_iff votedAt).mpr
      ⟨backend, forked, hbackend, hbegin, hagain⟩
    exact ⟨vote, vm, write, vm₂, admitVote_eq_ok_iff.mpr
      ⟨rfl, ⟨backend, hbackend, hfound⟩, ⟨lifecycle, h, htime⟩, hvote⟩, hprepare⟩

/-- No vote is written unless the vote on the proposal is open, iff for every stored lifecycle whose
vote is not open one of the other checks refuses: the proposal is not found, its deliberation is not
over, or the choice is none. -/
theorem written_only_open_iff [DateText] [Serde (ProposalLifecycle I)] (now votedAt : DateTime)
    (auth : AuthContext) (id choice : String) (delegate : Option String) (vm : VM F S) :
    (∀ lifecycle : ProposalLifecycle I, getProposalLifecycle vm id = .ok lifecycle →
      ReachesWrite I now votedAt auth id choice delegate vm → VotingOpen votedAt lifecycle) ↔
    ∀ lifecycle : ProposalLifecycle I, getProposalLifecycle vm id = .ok lifecycle →
      VotingOpen votedAt lifecycle ∨ ¬ ProposalFound auth id vm ∨
        ¬ Deliberated now lifecycle ∨ parseChoice choice = none := by
  refine forall₂_congr fun lifecycle h => ?_
  rw [reachesWrite_iff h]
  tauto

theorem found_roofVm (state : ProposalState) :
    ProposalFound InMemoryStorage.admin "p1" (roofVm state) :=
  ⟨roofStorage state, _, rfl, contains_roofStorage state (some InMemoryStorage.admin), rfl,
    contains_roofStorage state (some InMemoryStorage.admin)⟩

/-- A vote on a draft is written. -/
theorem draft_voted : ¬ ∀ (F S I : Type) [ForkableBackend S] [DateText]
    [Serde (ProposalLifecycle I)] (now votedAt : DateTime) (auth : AuthContext)
    (id choice : String) (delegate : Option String) (vm : VM F S)
    (lifecycle : ProposalLifecycle I), getProposalLifecycle vm id = .ok lifecycle →
      ReachesWrite I now votedAt auth id choice delegate vm → VotingOpen votedAt lifecycle := by
  intro h
  let dates : DateText := ⟨fun _ => "1970-01-01T00:00:00+00:00"⟩
  have hstored := getProposalLifecycle_roofVm .draft
  have hdeliberated : Deliberated 0 (roofRepair .draft) := fun _ hd => nomatch hd
  have hchoice : parseChoice "yes" ≠ none := by decide +kernel
  have hwritten : ReachesWrite _ 0 0 _ _ "yes" none _ :=
    (reachesWrite_iff hstored).mpr ⟨found_roofVm .draft, hdeliberated, hchoice⟩
  exact absurd (h _ _ _ 0 0 _ _ _ _ _ _ hstored hwritten).1 (by decide)

end Governance

end Covm
