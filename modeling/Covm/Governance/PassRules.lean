import Covm.Governance.Tally
import Covm.Governance.VoteAdmission
import Covm.Number.Exact

/-!
# Whether a proposal has passed

The command that executes a proposal and the methods `is_quorum_reached` and `is_threshold_met` of
`governance/proposal_lifecycle.rs` ask for the same quorum, but not for the same approval: to the
command the abstentions are votes that are not yes, to the methods they weigh nothing, and where
nothing weighs anything the threshold is not met. The two are compared in exact numbers.
-/

namespace Covm.Governance

open Partial

section model
variable {F S I : Type} [Number F]

/-- It never fails. -/
def isQuorumReached (F : Type) [Number F] (p : ProposalLifecycle I)
    (voteCount totalEligible : Nat) : Bool :=
  match p.quorumMethod with
  | .none => true
  | .percentage percentage =>
    if totalEligible = 0 then false
    else
      let participationPercent : F := Number.mul
        (Number.div (Number.ofNat voteCount) (Number.ofNat totalEligible)) (Number.ofNat 100)
      Number.ge participationPercent (Number.ofNat percentage)
  | .fixedNumber requiredCount => decide (requiredCount ≤ voteCount)

/-- It never fails. -/
def isThresholdMet (p : ProposalLifecycle I) (yesWeight totalWeight : F) : Bool :=
  if Number.le totalWeight (Number.ofNat 0) then false
  else
    let approvalPercent := Number.mul (Number.div yesWeight totalWeight) (Number.ofNat 100)
    Number.ge approvalPercent (Number.ofNat p.approvalThreshold)

/-- The voters with the choices they made. -/
def castVotes (votes : List (String × String)) : List (String × VoteChoice) :=
  votes.filterMap fun v => (VoteChoice.fromStr v.2).map (v.1, ·)

variable [SquareRoot F] [StoredValues F S]

def sumWeights (now : DateTime) (p : ProposalLifecycle I) (vm : VM F S)
    (auth : Option AuthContext) (votes : List (String × VoteChoice)) : Except String F :=
  votes.foldlM
    (fun sum v => return Number.add sum (← calculateVoteWeight now p vm v.1 v.2 auth))
    (Number.ofNat 0)

/-- Both methods say yes, of the number of the votes and of their weights. -/
def RulesPass (now : DateTime) (p : ProposalLifecycle I) (vm : VM F S)
    (auth : Option AuthContext) (votes : List (String × String)) (participants : Nat) : Prop :=
  isQuorumReached F p (castVotes votes).length participants = true ∧
    ∃ yesWeight totalWeight,
      sumWeights now p vm auth ((castVotes votes).filter (·.2 = .yes)) = .ok yesWeight ∧
      sumWeights now p vm auth (castVotes votes) = .ok totalWeight ∧
      isThresholdMet p yesWeight totalWeight = true

/-- The command comes to execute the proposal. -/
def GoesOn (I : Type) [ListingBackend S] [VoteRequirements I F] [Serde (ProposalLifecycle I)]
    [Serde JsonValue] (auth : AuthContext) (id : String) (vm : VM F S) : Prop :=
  ∃ vm', (admitExecution I auth id : Gov F S Bool) vm = .ok true vm'

end model

/-- The command finds the proposal, its lifecycle and the votes on it. -/
structure ReadsProposal {F S I : Type} [ListingBackend S] [Serde (ProposalLifecycle I)]
    [Serde JsonValue] (auth : AuthContext) (vm : VM F S) (id : String) (p : ProposalLifecycle I)
    (votes : List (String × String)) : Prop where
  found : ∃ backend, vm.executor.storageBackend = some backend ∧
    StorageBackend.contains backend (some auth) vm.executor.ns (proposalKeyPrefix id) = .ok true
  votes : getProposalVotes vm id = .ok votes
  lifecycle : getProposalLifecycle vm id = .ok p

theorem ReadsProposal.goesOn_iff {F S I : Type} [Number F] [ListingBackend S]
    [VoteRequirements I F] [Serde (ProposalLifecycle I)] [Serde JsonValue] {auth : AuthContext}
    {vm : VM F S} {id : String} {p : ProposalLifecycle I} {votes : List (String × String)}
    (h : ReadsProposal auth vm id p votes) :
    GoesOn I auth id vm ↔ p.state ≠ .executed ∧ passes (F := F) p votes = true := by
  have hget : (get : Gov F S (VM F S)) vm = .ok vm vm := rfl
  have hfound : requireProposal "Storage backend not configured for proposal execution" auth id vm =
      .ok () vm := requireProposal_eq_ok_iff.mpr ⟨rfl, h.found⟩
  unfold GoesOn admitExecution
  rw [Comp.bind_of_ok hfound, Comp.bind_of_ok hget,
    Comp.bind_of_ok (ofResult_eq_ok_iff.mpr ⟨h.votes, rfl⟩),
    Comp.bind_of_ok (ofResult_eq_ok_iff.mpr ⟨h.lifecycle, rfl⟩)]
  by_cases hstate : p.state = .executed
  · rw [if_pos hstate]
    refine iff_of_false ?_ fun h => h.1 hstate
    rintro ⟨vm', hok⟩
    cases hok
  · rw [if_neg hstate]
    simp [hstate]

/-! ### The counts -/

def choiceWord : VoteChoice → String
  | .yes => "yes"
  | .no => "no"
  | .abstain => "abstain"

theorem fromStr_eq_some_iff {s : String} {c : VoteChoice} :
    VoteChoice.fromStr s = some c ↔ toLowercase s = choiceWord c := by
  unfold VoteChoice.fromStr choiceWord
  cases c <;> (dsimp only; split_ifs <;> simp_all)

/-- How often a choice was made. -/
def votesFor (votes : List (String × String)) (c : VoteChoice) : Nat :=
  ((castVotes votes).map Prod.snd).count c

theorem count_choiceWord (votes : List (String × String)) (c : VoteChoice) :
    (votes.map fun v => toLowercase v.2).count (choiceWord c) = votesFor votes c := by
  induction votes with
  | nil => rfl
  | cons v votes ih =>
    unfold votesFor castVotes at ih ⊢
    rw [List.map_cons, List.count_cons, ih, List.filterMap_cons]
    cases hchoice : VoteChoice.fromStr v.2 with
    | none =>
      have hword : toLowercase v.2 ≠ choiceWord c := by
        intro hword
        rw [fromStr_eq_some_iff.mpr hword] at hchoice
        cases hchoice
      simp [hword]
    | some d =>
      have hword : toLowercase v.2 = choiceWord c ↔ d = c := by
        rw [← fromStr_eq_some_iff, hchoice, Option.some.injEq]
      simp [List.count_cons, hword]

theorem tally_eq (votes : List (String × String)) :
    tally votes = (votesFor votes .yes, votesFor votes .no, votesFor votes .abstain) :=
  Prod.ext (count_choiceWord votes .yes)
    (Prod.ext (count_choiceWord votes .no) (count_choiceWord votes .abstain))

theorem length_castVotes (votes : List (String × String)) : (castVotes votes).length =
    votesFor votes .yes + votesFor votes .no + votesFor votes .abstain := by
  unfold votesFor
  induction castVotes votes with
  | nil => rfl
  | cons v cast ih =>
    obtain ⟨voter, c⟩ := v
    rw [List.length_cons, ih]
    cases c <;> simp <;> omega

/-! ### In exact numbers -/

section exact
variable [NumberText ℚ] {S I : Type}

omit [NumberText ℚ] in
theorem percent_le_iff {percent count total : Nat} (h : 0 < total) :
    (percent : ℚ) / 100 ≤ count / total ↔ percent * total ≤ 100 * count := by
  have htotal : (0 : ℚ) < total := by exact_mod_cast h
  rw [div_le_div_iff₀ (by norm_num) htotal, mul_comm (count : ℚ)]
  exact_mod_cast Iff.rfl

omit [NumberText ℚ] in
theorem le_percent_iff {percent count total : Nat} (h : 0 < total) :
    (percent : ℚ) ≤ count / total * 100 ↔ percent * total ≤ 100 * count := by
  rw [← percent_le_iff h, div_le_iff₀ (by norm_num)]

/-- The condition of the command, in whole numbers. -/
theorem passes_iff [VoteRequirements I ℚ] {p : ProposalLifecycle I} {quorum threshold participants : Nat}
    (hquorum : VoteRequirements.quorum p = (quorum : ℚ))
    (hthreshold : VoteRequirements.threshold p = (threshold : ℚ))
    (hparticipants : p.requiredParticipants.getD 1 = participants) (hpos : 0 < participants)
    {votes : List (String × String)} {y n a : Nat} (htally : tally votes = (y, n, a)) :
    passes (F := ℚ) p votes = true ↔
      quorum * participants ≤ 100 * (y + n + a) ∧
        (y + n + a = 0 → threshold = 0) ∧ threshold * (y + n + a) ≤ 100 * y := by
  unfold passes
  simp only [htally, hquorum, hthreshold, hparticipants, if_pos hpos, Bool.and_eq_true,
    Exact.ge_iff, Exact.div_eq, Exact.ofNat_eq]
  refine and_congr ?_ ?_
  · exact_mod_cast percent_le_iff hpos
  · split_ifs with hvotes
    · rw [show (y + n + a = 0 → threshold = 0) ↔ True from iff_true_intro fun h => by omega,
        true_and]
      exact_mod_cast percent_le_iff hvotes
    · have hzero : y + n + a = 0 := by omega
      have hle : (threshold : ℚ) / (100 : Nat) ≤ (0 : Nat) ↔ threshold = 0 := by
        rw [div_le_iff₀ (by norm_num)]
        simp
      rw [hle, hzero]
      simp

variable [SquareRoot ℚ] [StoredValues ℚ S]

theorem calculateVoteWeight_equal {p : ProposalLifecycle I} (h : p.voteWeighting = .equal)
    (now : DateTime) (vm : VM ℚ S) (voter : String) (c : VoteChoice) (auth : Option AuthContext) :
    calculateVoteWeight now p vm voter c auth = .ok (VoteChoice.baseValue c) := by
  unfold calculateVoteWeight
  rw [h]
  rfl

omit [SquareRoot ℚ] in
theorem baseValue_eq (c : VoteChoice) :
    (VoteChoice.baseValue c : ℚ) = if c = .abstain then 0 else 1 := by
  cases c with
  | yes => rw [if_neg (by decide)]; exact Nat.cast_one
  | no => rw [if_neg (by decide)]; exact Nat.cast_one
  | abstain => rw [if_pos rfl]; exact Nat.cast_zero

theorem sumWeights_eq {p : ProposalLifecycle I} (h : p.voteWeighting = .equal) (now : DateTime)
    (vm : VM ℚ S) (auth : Option AuthContext) (votes : List (String × VoteChoice)) :
    sumWeights now p vm auth votes =
      .ok (((votes.map Prod.snd).filter (· ≠ .abstain)).length : ℚ) := by
  have hstep : ∀ start : ℚ, votes.foldlM (fun sum v => do
      return Number.add sum (← calculateVoteWeight now p vm v.1 v.2 auth)) start =
        (.ok (start + ((votes.map Prod.snd).filter (· ≠ .abstain)).length) : Except String ℚ) := by
    induction votes with
    | nil => intro start; simp [pure, Except.pure]
    | cons v votes ih =>
      intro start
      rw [List.foldlM_cons, calculateVoteWeight_equal h, baseValue_eq]
      show List.foldlM _ _ votes = _
      rw [ih, Exact.add_eq, List.map_cons, List.filter_cons]
      by_cases hc : v.2 = .abstain
      · simp [hc]
      · simp only [hc, ne_eq, not_false_eq_true, decide_true, if_false, if_true,
          List.length_cons, Nat.cast_add, Nat.cast_one]
        ring_nf
  rw [sumWeights, hstep, Exact.ofNat_eq, Nat.cast_zero, zero_add]

omit [NumberText ℚ] [SquareRoot ℚ] [StoredValues ℚ S] in
theorem length_decided (votes : List (String × String)) :
    (((castVotes votes).map Prod.snd).filter (· ≠ .abstain)).length =
      votesFor votes .yes + votesFor votes .no := by
  unfold votesFor
  induction castVotes votes with
  | nil => rfl
  | cons v cast ih =>
    obtain ⟨voter, c⟩ := v
    rw [List.map_cons, List.filter_cons]
    cases c <;> simp at ih ⊢ <;> omega

omit [NumberText ℚ] [SquareRoot ℚ] [StoredValues ℚ S] in
theorem length_yes (votes : List (String × String)) :
    ((((castVotes votes).filter (·.2 = .yes)).map Prod.snd).filter (· ≠ .abstain)).length =
      votesFor votes .yes := by
  unfold votesFor
  induction castVotes votes with
  | nil => rfl
  | cons v cast ih =>
    obtain ⟨voter, c⟩ := v
    rw [List.filter_cons]
    cases c <;> simp at ih ⊢ <;> omega

/-- The condition of the methods, in whole numbers. -/
theorem rulesPass_iff {p : ProposalLifecycle I} (hequal : p.voteWeighting = .equal)
    {quorum participants : Nat} (hquorum : p.quorumMethod = .percentage quorum)
    (hpos : 0 < participants) {votes : List (String × String)} {y n a : Nat}
    (htally : tally votes = (y, n, a)) (now : DateTime) (vm : VM ℚ S)
    (auth : Option AuthContext) :
    RulesPass now p vm auth votes participants ↔
      quorum * participants ≤ 100 * (y + n + a) ∧
        0 < y + n ∧ p.approvalThreshold * (y + n) ≤ 100 * y := by
  obtain ⟨rfl, rfl, rfl⟩ : y = votesFor votes .yes ∧ n = votesFor votes .no ∧
      a = votesFor votes .abstain := by
    rw [tally_eq] at htally
    simpa [eq_comm] using htally
  have hthreshold : ∀ {yes total : Nat}, isThresholdMet p (yes : ℚ) (total : ℚ) = true ↔
      0 < total ∧ p.approvalThreshold * total ≤ 100 * yes := by
    intro yes total
    unfold isThresholdMet
    by_cases htotal : 0 < total
    · have hnot : Number.le (total : ℚ) (Number.ofNat 0) ≠ true := by
        rw [Ne, Exact.le_iff, Exact.ofNat_eq]
        exact_mod_cast not_le.mpr htotal
      rw [if_neg hnot, Exact.ge_iff, and_iff_right htotal]
      exact_mod_cast le_percent_iff htotal
    · have hle : Number.le (total : ℚ) (Number.ofNat 0) = true := by
        rw [Exact.le_iff, Exact.ofNat_eq]
        exact_mod_cast not_lt.mp htotal
      rw [if_pos hle]
      simp [htotal]
  unfold RulesPass isQuorumReached
  rw [hquorum, sumWeights_eq hequal, sumWeights_eq hequal, length_yes, length_decided,
    length_castVotes]
  dsimp only
  rw [if_neg hpos.ne', Exact.ge_iff]
  refine and_congr (by exact_mod_cast le_percent_iff hpos) ?_
  constructor
  · rintro ⟨_, _, hyes, htotal, hmet⟩
    obtain rfl := Except.ok.inj hyes
    obtain rfl := Except.ok.inj htotal
    exact hthreshold.mp hmet
  · intro hmet
    exact ⟨_, _, rfl, rfl, hthreshold.mpr hmet⟩

/-- In numbers of yes votes, no votes and abstentions: the quorum is not reached, or the command and
the methods decide the same about the approval. An executed proposal is not executed again. -/
def Agree (quorum threshold participants : Nat) (executed : Prop) : Nat × Nat × Nat → Prop
  | (y, n, a) =>
    100 * (y + n + a) < quorum * participants ∨
    executed ∧ (y + n = 0 ∨ 100 * y < threshold * (y + n)) ∨
    ¬ executed ∧ (y + n = 0 ∧ 0 < threshold ∨
      0 < y + n ∧ (100 * y < threshold * (y + n) ∨ threshold * (y + n + a) ≤ 100 * y))

omit [NumberText ℚ] [SquareRoot ℚ] [StoredValues ℚ S] in
theorem agree_iff {quorum threshold participants y n a : Nat} {executed : Prop} :
    Agree quorum threshold participants executed (y, n, a) ↔
      (¬ executed ∧ quorum * participants ≤ 100 * (y + n + a) ∧
          (y + n + a = 0 → threshold = 0) ∧ threshold * (y + n + a) ≤ 100 * y ↔
        quorum * participants ≤ 100 * (y + n + a) ∧
          0 < y + n ∧ threshold * (y + n) ≤ 100 * y) := by
  have hall : threshold * (y + n + a) = threshold * (y + n) + threshold * a := Nat.mul_add ..
  have hnone : threshold * a = 0 ↔ threshold = 0 ∨ a = 0 := Nat.mul_eq_zero
  unfold Agree
  by_cases hexecuted : executed
  · simp only [hexecuted, not_true_eq_false, false_and, true_and, or_false, false_iff]
    omega
  · simp only [hexecuted, not_false_eq_true, false_and, true_and, false_or]
    by_cases hvotes : y + n = 0
    · obtain ⟨rfl, rfl⟩ : y = 0 ∧ n = 0 := by omega
      have hmet : (a = 0 → threshold = 0) ∧ threshold * a ≤ 0 ↔ threshold = 0 := by
        rw [Nat.le_zero, hnone]
        tauto
      simp only [Nat.zero_add, Nat.mul_zero, hmet, lt_irrefl, false_and, and_false, or_false,
        true_and, iff_false]
      omega
    · omega

/-- The command executes the proposal if and only if both methods say yes, exactly where `Agree`
says so. -/
theorem goesOn_iff_rulesPass_iff [ListingBackend S] [VoteRequirements I ℚ]
    [Serde (ProposalLifecycle I)] [Serde JsonValue] {auth : AuthContext} {vm : VM ℚ S}
    {id : String} {p : ProposalLifecycle I} {votes : List (String × String)}
    (h : ReadsProposal auth vm id p votes) (hequal : p.voteWeighting = .equal)
    {quorum participants : Nat} (hquorum : p.quorumMethod = .percentage quorum)
    (hparticipants : p.requiredParticipants.getD 1 = participants) (hpos : 1 ≤ participants)
    (hreads : VoteRequirements.quorum p = (quorum : ℚ))
    (hreads' : VoteRequirements.threshold p = (p.approvalThreshold : ℚ)) (now : DateTime) :
    (GoesOn I auth id vm ↔
        RulesPass now p vm vm.executor.authContext votes participants) ↔
      Agree quorum p.approvalThreshold participants (p.state = .executed) (tally votes) := by
  obtain ⟨y, n, a, htally⟩ : ∃ y n a, tally votes = (y, n, a) := ⟨_, _, _, rfl⟩
  rw [h.goesOn_iff, passes_iff hreads hreads' hparticipants hpos htally,
    rulesPass_iff hequal hquorum hpos htally, htally]
  exact agree_iff.symm

end exact

/-! ### One yes, one no and one abstention -/

@[reducible] def rationalText : NumberText ℚ := ⟨toString, toString, toString, fun _ => none⟩

@[reducible] def storedRequirements : VoteRequirements String ℚ where
  quorum p := match p.quorumMethod with
    | .percentage percentage => percentage
    | _ => 0
  threshold p := p.approvalThreshold

def exactVm (s : InMemoryStorage) : VM ℚ InMemoryStorage :=
  .setAuthContext InMemoryStorage.admin (.withStorageBackend (fun _ => 0) s)

section storage
variable [HashOrder] {s : InMemoryStorage}

theorem getProposalVotes_exactVm [Serde JsonValue] {keys : List String}
    (hkeys : ListingBackend.listKeys s (some InMemoryStorage.admin) "default"
      (some (proposalVotesPrefix "p1")) = .ok keys) :
    getProposalVotes (exactVm s) "p1" = keys.mapM (readVote (exactVm s) s) := by
  unfold getProposalVotes
  rw [backendOf_eq_ok_iff.mpr (show (exactVm s).executor.storageBackend = some s from rfl)]
  show (do
    let keys ← (ListingBackend.listKeys s (some InMemoryStorage.admin) "default"
      (some (proposalVotesPrefix "p1"))).mapError GovernanceError.storage
    keys.mapM (readVote (exactVm s) s)) = _
  rw [hkeys]
  rfl

end storage

theorem getProposalLifecycle_exactVm [Serde (ProposalLifecycle String)] {s : InMemoryStorage}
    {p : ProposalLifecycle String}
    (h : StorageExtensions.getJson (ProposalLifecycle String) s (some InMemoryStorage.admin)
      "default" (proposalLifecycleKey "p1") = .ok p) :
    getProposalLifecycle (exactVm s) "p1" = .ok p :=
  getProposalLifecycle_of_getJson rfl h

/-- The threshold of this proposal in percent. -/
def fencePainting (threshold : Nat) : ProposalLifecycle String :=
  { roofRepair .voting with approvalThreshold := threshold }

/-- Bob says yes, dave says no, carol abstains. -/
def ballotRow : HashMap ByteArray :=
  ((((Finmap.insert (proposalKeyPrefix "p1") "\x7b\x7d".toUTF8 ∅).insert
    (proposalLifecycleKey "p1") "\x7b\x7d".toUTF8).insert (voteKey "p1" "bob")
    "yes".toUTF8).insert (voteKey "p1" "carol") "abstain".toUTF8).insert (voteKey "p1" "dave")
    "no".toUTF8

def ballotStorage : InMemoryStorage :=
  { InMemoryStorage.adminStorage with
    data := (∅ : Maps.Table String String ByteArray).insert "default" ballotRow }

theorem contains_ballotStorage (auth : Option AuthContext) :
    StorageBackend.contains ballotStorage auth "default" (proposalKeyPrefix "p1") = .ok true := by
  have hdata : ballotStorage.data.get ("default", proposalKeyPrefix "p1") =
      some "\x7b\x7d".toUTF8 := by decide
  show Except.ok (ballotStorage.data.get ("default", proposalKeyPrefix "p1")).isSome = _
  rw [hdata, Option.isSome_some]

@[reducible] def readBallot : Serde JsonValue where
  typeName := "serde_json::Value"
  toVec _ := .error "not written"
  fromSlice bytes := .ok (.object [("vote", .string ((String.fromUTF8? bytes).getD ""))])

@[reducible] def readFencePainting (threshold : Nat) : Serde (ProposalLifecycle String) where
  typeName := "ProposalLifecycle"
  toVec _ := .error "not written"
  fromSlice _ := .ok (fencePainting threshold)

theorem readVote_ballot {voter vote : String}
    (h : ballotStorage.data.get ("default", voteKey "p1" voter) = some vote.toUTF8) :
    ∃ name, @readVote ℚ InMemoryStorage _ readBallot (exactVm ballotStorage) ballotStorage
      (voteKey "p1" voter) = .ok (name, vote) := by
  have hjson : @StorageExtensions.getJson _ _ JsonValue readBallot ballotStorage
      (some InMemoryStorage.admin) "default" (voteKey "p1" voter) =
        .ok (.object [("vote", .string vote)]) := by
    rw [@getJson_of_data _ readBallot _ _ _ _ _ (InMemoryStorage.admin_permitted _ _) h]
    refine @StorageExtensions.decode_of_ok _ readBallot _ _ ?_
    show Except.ok (JsonValue.object [("vote", .string ((String.fromUTF8? vote.toUTF8).getD ""))]) =
      _
    rw [fromUTF8_toUTF8]
    rfl
  refine ⟨(((voteKey "p1" voter).splitOn "/").getLast?).getD "unknown", ?_⟩
  unfold readVote
  show (do
    let data ← (@StorageExtensions.getJson _ _ JsonValue readBallot ballotStorage
      (some InMemoryStorage.admin) "default" (voteKey "p1" voter)).mapError GovernanceError.storage
    _) = _
  rw [hjson]
  rfl

/-- The words of the votes, in the order of their keys. -/
theorem mapM_readVote [Serde JsonValue] {vm : VM ℚ InMemoryStorage} {s : InMemoryStorage}
    {text : String → String} {keys : List String}
    (h : ∀ key ∈ keys, ∃ name, readVote vm s key = .ok (name, text key)) :
    ∃ votes, keys.mapM (readVote vm s) = .ok votes ∧ votes.map Prod.snd = keys.map text := by
  induction keys with
  | nil => exact ⟨[], rfl, rfl⟩
  | cons key keys ih =>
    obtain ⟨hkey, hkeys⟩ := List.forall_mem_cons.mp h
    obtain ⟨name, hname⟩ := hkey
    obtain ⟨votes, hvotes, htexts⟩ := ih hkeys
    refine ⟨(name, text key) :: votes, ?_, ?_⟩
    · rw [List.mapM_cons, hname, hvotes]
      rfl
    · rw [List.map_cons, List.map_cons, htexts]

/-- What the voters say, by their keys. -/
def ballotText (key : String) : String :=
  if key = voteKey "p1" "bob" then "yes"
  else if key = voteKey "p1" "carol" then "abstain"
  else "no"

theorem getProposalVotes_ballot [HashOrder] : ∃ votes,
    @getProposalVotes ℚ InMemoryStorage _ readBallot (exactVm ballotStorage) "p1" = .ok votes ∧
      tally votes = (1, 1, 1) := by
  let keys := [voteKey "p1" "bob", voteKey "p1" "carol", voteKey "p1" "dave"]
  have hread : @getProposalVotes ℚ InMemoryStorage _ readBallot (exactVm ballotStorage) "p1" =
      (HashOrder.order keys.toFinset).mapM
        (@readVote ℚ InMemoryStorage _ readBallot (exactVm ballotStorage) ballotStorage) :=
    @getProposalVotes_exactVm _ _ readBallot _
      (listKeys_admin (Finmap.lookup_insert _) (by decide))
  have hperm : (HashOrder.order keys.toFinset).Perm keys := perm_order (by decide)
  obtain ⟨votes, hvotes, htexts⟩ := @mapM_readVote readBallot (exactVm ballotStorage)
    ballotStorage ballotText (HashOrder.order keys.toFinset) fun key hkey => by
      have hmem : key ∈ keys := hperm.subset hkey
      simp only [keys, List.mem_cons, List.not_mem_nil, or_false] at hmem
      rcases hmem with rfl | rfl | rfl
      · exact readVote_ballot (by decide)
      · exact readVote_ballot (by decide)
      · exact readVote_ballot (by decide)
  refine ⟨votes, hread.trans hvotes, ?_⟩
  have hwords : (votes.map fun vote => toLowercase vote.2).Perm
      (keys.map fun key => toLowercase (ballotText key)) := by
    rw [← Function.comp_def toLowercase Prod.snd, ← List.map_map, htexts, List.map_map]
    exact hperm.map _
  simp only [tally, hwords.count_eq]
  decide +kernel

theorem readsProposal_ballot [HashOrder] (threshold : Nat) {votes : List (String × String)}
    (hvotes : @getProposalVotes ℚ InMemoryStorage _ readBallot (exactVm ballotStorage) "p1" =
      .ok votes) :
    @ReadsProposal ℚ InMemoryStorage String _ (readFencePainting threshold) readBallot
      InMemoryStorage.admin (exactVm ballotStorage) "p1" (fencePainting threshold) votes := by
  let _ := readBallot
  let serde := readFencePainting threshold
  have hlifecycle : @getProposalLifecycle ℚ InMemoryStorage String _ serde (exactVm ballotStorage)
      "p1" = .ok (fencePainting threshold) := by
    refine @getProposalLifecycle_exactVm serde _ _ ?_
    rw [@getJson_of_data _ serde _ _ _ _ "\x7b\x7d".toUTF8 (InMemoryStorage.admin_permitted _ _)
      (by decide)]
    exact @StorageExtensions.decode_of_ok _ serde _ _ rfl
  exact ⟨⟨_, rfl, contains_ballotStorage _⟩, hvotes, hlifecycle⟩

/-- With a threshold of 30 percent the command executes the proposal as the methods say. -/
theorem goesOn_iff_rulesPass_fence :
    letI := rationalText
    letI := sortedListing
    letI := storedRequirements
    letI := readBallot
    letI := readFencePainting 30
    letI : SquareRoot ℚ := ⟨id⟩
    letI : StoredValues ℚ InMemoryStorage := readStored _ _
    ∃ votes, tally votes = (1, 1, 1) ∧
      RulesPass 0 (fencePainting 30) (exactVm ballotStorage) (some InMemoryStorage.admin) votes 1 ∧
        GoesOn String InMemoryStorage.admin "p1" (exactVm ballotStorage) := by
  let _ := rationalText
  let _ := sortedKeys
  let _ := storedRequirements
  let _ := readBallot
  let _ := readFencePainting 30
  let _ : SquareRoot ℚ := ⟨id⟩
  let _ : StoredValues ℚ InMemoryStorage := readStored _ _
  obtain ⟨votes, hvotes, htally⟩ := getProposalVotes_ballot
  have hrules := (@rulesPass_iff _ InMemoryStorage _ _ _ (fencePainting 30) rfl 50 1 rfl Nat.one_pos
    _ _ _ _ htally 0 (exactVm ballotStorage) (some InMemoryStorage.admin)).mpr (by decide)
  have hiff := (goesOn_iff_rulesPass_iff (readsProposal_ballot 30 hvotes) rfl rfl rfl (le_refl 1)
    rfl rfl 0).mpr (htally ▸ .inr (.inr ⟨nofun, .inr ⟨by decide, .inr (by decide)⟩⟩))
  exact ⟨votes, htally, hrules, hiff.mpr hrules⟩

/-- With these votes a threshold of 50 percent is met, but the command does not execute the
proposal. -/
theorem not_goesOn_iff_rulesPass : ¬ ∀ (S I : Type) [NumberText ℚ] [ListingBackend S]
    [VoteRequirements I ℚ] [Serde (ProposalLifecycle I)] [Serde JsonValue] [SquareRoot ℚ]
    [StoredValues ℚ S] (auth : AuthContext) (vm : VM ℚ S) (id : String) (p : ProposalLifecycle I)
    (votes : List (String × String)) (quorum participants : Nat),
    ReadsProposal auth vm id p votes → p.voteWeighting = .equal →
    p.quorumMethod = .percentage quorum → quorum ≤ 100 → p.approvalThreshold ≤ 100 →
    p.requiredParticipants.getD 1 = participants → 1 ≤ participants →
    VoteRequirements.quorum p = (quorum : ℚ) →
    VoteRequirements.threshold p = (p.approvalThreshold : ℚ) → ∀ now,
      (GoesOn I auth id vm ↔ RulesPass now p vm vm.executor.authContext votes participants) := by
  intro h
  let _ := rationalText
  let _ := sortedKeys
  let _ := storedRequirements
  let _ := readBallot
  let serde := readFencePainting 50
  let _ : SquareRoot ℚ := ⟨id⟩
  let _ : StoredValues ℚ InMemoryStorage := readStored _ _
  obtain ⟨votes, hvotes, htally⟩ := getProposalVotes_ballot
  have hreads := readsProposal_ballot 50 hvotes
  have hagree := h InMemoryStorage String InMemoryStorage.admin (exactVm ballotStorage) "p1"
    (fencePainting 50) votes 50 1 hreads rfl rfl (by decide) (by decide) rfl (le_refl 1) rfl rfl 0
  have hpasses : passes (F := ℚ) (fencePainting 50) votes = true ↔ _ :=
    @passes_iff _ _ _ (fencePainting 50) 50 50 1 rfl rfl rfl Nat.one_pos _ _ _ _ htally
  have hrules := @rulesPass_iff _ InMemoryStorage _ _ _ (fencePainting 50) rfl 50 1 rfl Nat.one_pos
    _ _ _ _ htally 0 (exactVm ballotStorage) (some InMemoryStorage.admin)
  have hmet := (hagree.trans hrules).mpr (by decide)
  rw [hreads.goesOn_iff, hpasses] at hmet
  exact absurd hmet.2 (by decide)

end Covm.Governance
