import Mathlib
import Covm.Partial.Runs
import Covm.Partial.Within

/-!
# The life of a proposal (`governance/proposal_lifecycle.rs`)

A `ProposalLifecycle` is in one of six states and keeps the history of its states. Its methods read
the system clock, an arbitrary sequence of readings, each time they need the time. `Call` is a call
of one of the plain methods and `CheckedCall` also one of the `transition_to_` methods, which first
ask whether the vote passed: the answer is a parameter, and so is the number of readings the clock
gives while the votes are counted. What a call does is said once, by `Effect`.
-/

namespace Covm

open Partial

/-- A point in time, in nanoseconds since 1970. -/
abbrev DateTime := Int

/-- In nanoseconds. -/
abbrev Duration := Int

inductive ProposalState where
  | draft
  | openForFeedback
  | voting
  | executed
  | rejected
  | expired
  deriving DecidableEq, Repr

inductive ExecutionStatus where
  | success
  | failure (reason : String)
  deriving DecidableEq

inductive VoteWeighting where
  | equal
  | reputation
  | stake
  | tenure
  | quadratic
  | delegated
  | custom (algorithm : String)
  deriving DecidableEq

inductive QuorumMethod where
  | percentage (percent : Nat)
  | fixedNumber (count : Nat)
  | none
  deriving DecidableEq

/-- Nothing here looks into the identity of the creator. -/
structure ProposalLifecycle (Identity : Type) where
  id : String
  creator : Identity
  createdAt : DateTime
  state : ProposalState
  title : String
  quorumMethod : QuorumMethod
  approvalThreshold : Nat
  expiresAt : Option DateTime
  discussionDuration : Option Duration
  voteWeighting : VoteWeighting
  requiredParticipants : Option Nat
  currentVersion : Nat
  autoExecute : Bool
  allowEarlyExecution : Bool
  minVotingPeriod : Option Duration
  history : List (DateTime × ProposalState)
  executionStatus : Option ExecutionStatus

/-- A proposal and the clock its methods read. -/
structure Timed (Identity : Type) where
  proposal : ProposalLifecycle Identity
  clock : Nat → DateTime
  reads : Nat

/-- Arithmetic that leaves the range of its type. -/
inductive Overflow where
  | overflow

abbrev LifecycleM (Identity α : Type) := EStateM Overflow (Timed Identity) α

namespace ProposalLifecycle

variable {I : Type}

def new (now : DateTime) (id : String) (creator : I) (title : String)
    (quorumMethod : QuorumMethod) (approvalThreshold : Nat) (voteWeighting : VoteWeighting)
    (discussionDuration : Option Duration) (requiredParticipants : Option Nat) :
    ProposalLifecycle I where
  id := id
  creator := creator
  createdAt := now
  state := .draft
  title := title
  quorumMethod := quorumMethod
  approvalThreshold := approvalThreshold
  expiresAt := none
  discussionDuration := discussionDuration
  voteWeighting := voteWeighting
  requiredParticipants := requiredParticipants
  currentVersion := 1
  autoExecute := false
  allowEarlyExecution := false
  minVotingPeriod := none
  history := [(now, .draft)]
  executionStatus := none

/-- `Utc::now` -/
def now : LifecycleM I DateTime := fun s => .ok (s.clock s.reads) { s with reads := s.reads + 1 }

/-- The nanoseconds of the years `chrono` knows. -/
def inRange (t : DateTime) : Bool :=
  decide (-8334601228800 * 1000000000 ≤ t) && decide (t < 8210266876800 * 1000000000)

/-- The panic of an overflow. -/
def overflow {α : Type} : LifecycleM I α := fun s => .error .overflow s

/-- `DateTime + Duration` panics outside of its range. -/
def addDuration (t : DateTime) (d : Duration) : LifecycleM I DateTime :=
  if inRange (t + d) then pure (t + d) else overflow

def inState (p : ProposalLifecycle I) (state : ProposalState) : ProposalLifecycle I :=
  { p with state := state }

def endingAt (p : ProposalLifecycle I) (expiresAt : DateTime) : ProposalLifecycle I :=
  { p with expiresAt := some expiresAt }

/-- The history with the present state. -/
def recorded (p : ProposalLifecycle I) (t : DateTime) : ProposalLifecycle I :=
  { p with history := p.history ++ [(t, p.state)] }

def modifyProposal (f : ProposalLifecycle I → ProposalLifecycle I) : LifecycleM I Unit := fun s =>
  .ok () { s with proposal := f s.proposal }

/-- `self.history.push((Utc::now(), self.state.clone()))` -/
def record : LifecycleM I Unit := do
  let t ← now
  modifyProposal (·.recorded t)

/-- Every transition but `start_voting` ends like this. -/
def enter (state : ProposalState) : LifecycleM I Unit := do
  modifyProposal (·.inState state)
  record

def openForFeedback : LifecycleM I Unit := do
  if (← get).proposal.state = .draft then
    enter .openForFeedback
    match (← get).proposal.discussionDuration with
    | some duration =>
      -- computed and then dropped
      let _ ← addDuration (← now) duration
    | none => pure ()

/-- The minimum voting period, if one is set and longer. -/
def overrideExpiry (votingDuration : Duration) : LifecycleM I Unit := do
  match (← get).proposal.minVotingPeriod with
  | some minPeriod =>
    if votingDuration < minPeriod then
      let expiresAt ← addDuration (← now) minPeriod
      modifyProposal (·.endingAt expiresAt)
  | none => pure ()

def startVoting (votingDuration : Duration) : LifecycleM I Unit := do
  if (← get).proposal.state = .openForFeedback then
    modifyProposal (·.inState .voting)
    let expiresAt ← addDuration (← now) votingDuration
    modifyProposal (·.endingAt expiresAt)
    overrideExpiry votingDuration
    record

/-- Whether `execute` has to wait for the end of the vote. -/
def tooEarly : LifecycleM I Bool := do
  let p := (← get).proposal
  if p.allowEarlyExecution then return false
  match p.expiresAt with
  | some expiresAt => return decide ((← now) < expiresAt)
  | none => return false

def execute : LifecycleM I Unit := do
  if (← get).proposal.state = .voting then
    if !(← tooEarly) then
      enter .executed

def reject : LifecycleM I Unit := do
  if (← get).proposal.state = .voting then
    enter .rejected

/-- `self.expires_at.map_or(false, |exp| Utc::now() > exp)` -/
def pastExpiry : LifecycleM I Bool := do
  match (← get).proposal.expiresAt with
  | some expiresAt => return decide (expiresAt < (← now))
  | none => return false

def expire : LifecycleM I Unit := do
  if (← get).proposal.state = .voting then
    if ← pastExpiry then
      enter .expired

def checkExpiry : LifecycleM I Bool := do
  if (← get).proposal.state = .voting then
    if ← pastExpiry then
      enter .expired
      return true
    else return false
  else return false

def atVersion (p : ProposalLifecycle I) (version : Nat) : ProposalLifecycle I :=
  { p with currentVersion := version }

def updateVersion : LifecycleM I Unit := do
  let version := (← get).proposal.currentVersion + 1
  if version < 2 ^ 64 then
    modifyProposal (·.atVersion version)
    record
  else overflow

/-! ## Vote-checked transitions -/

/-- The votes are counted and checked; the clock may be read meanwhile. -/
def checkVotes (ticks : Nat) (passed : Except String Bool) :
    LifecycleM I (Except String Bool) := fun s =>
  .ok passed { s with reads := s.reads + ticks }

/-- The logic of the proposal is run after the state has changed, whatever comes of it. -/
def transitionToExecuted (ticks : Nat) (passed : Except String Bool) :
    LifecycleM I (Except String Bool) := do
  if (← get).proposal.state = .voting then
    match ← checkVotes ticks passed with
    | .error e => return .error e
    | .ok true =>
      enter .executed
      return .ok true
    | .ok false => return .ok false
  else return .ok false

def transitionToRejected (ticks : Nat) (passed : Except String Bool) :
    LifecycleM I (Except String Bool) := do
  if (← get).proposal.state = .voting then
    match ← checkVotes ticks passed with
    | .error e => return .error e
    | .ok true => return .ok false
    | .ok false =>
      enter .rejected
      return .ok true
  else return .ok false

def transitionToExpired (ticks : Nat) (passed : Except String Bool) :
    LifecycleM I (Except String Bool) := do
  if (← get).proposal.state = .voting then
    if ← pastExpiry then
      match ← checkVotes ticks passed with
      | .error e => return .error e
      | .ok _ =>
        enter .expired
        return .ok true
    else return .ok false
  else return .ok false

/-! ## Calls -/

/-- A call of one of the plain methods. -/
inductive Call where
  | openForFeedback
  | startVoting (votingDuration : Duration)
  | execute
  | reject
  | expire
  | checkExpiry
  | updateVersion
  deriving DecidableEq

def Call.perform : Call → LifecycleM I Unit
  | .openForFeedback => ProposalLifecycle.openForFeedback
  | .startVoting votingDuration => ProposalLifecycle.startVoting votingDuration
  | .execute => ProposalLifecycle.execute
  | .reject => ProposalLifecycle.reject
  | .expire => ProposalLifecycle.expire
  | .checkExpiry => do let _ ← ProposalLifecycle.checkExpiry
  | .updateVersion => ProposalLifecycle.updateVersion

inductive CheckedCall where
  | plain (c : Call)
  | toExecuted (ticks : Nat) (passed : Except String Bool)
  | toRejected (ticks : Nat) (passed : Except String Bool)
  | toExpired (ticks : Nat) (passed : Except String Bool)

def CheckedCall.perform : CheckedCall → LifecycleM I Unit
  | .plain c => c.perform
  | .toExecuted ticks passed => do let _ ← transitionToExecuted ticks passed
  | .toRejected ticks passed => do let _ ← transitionToRejected ticks passed
  | .toExpired ticks passed => do let _ ← transitionToExpired ticks passed

/-! ## What a call can do -/

/-- The proposal is as it was, and the clock has gone on. -/
structure Kept (s s' : Timed I) : Prop where
  proposal : s'.proposal = s.proposal
  clock : s'.clock = s.clock
  later : s.reads ≤ s'.reads

/-- A state entered at the `i`-th reading of the clock. -/
structure Entered (s : Timed I) (i : Nat) (state : ProposalState) (s' : Timed I) : Prop where
  proposal : s'.proposal = (s.proposal.inState state).recorded (s.clock i)
  clock : s'.clock = s.clock
  started : s.reads ≤ i
  later : i < s'.reads

/-- The end of a vote that is to take `d`: counted from a reading made after the call began. -/
def EndsVote (s : Timed I) (d : Duration) (e : DateTime) : Prop :=
  ∃ j, s.reads ≤ j ∧ e = s.clock j + max d (s.proposal.minVotingPeriod.getD d)

/-- What a call that returns does to the proposal. -/
inductive Effect (s : Timed I) : CheckedCall → Timed I → Prop where
  | kept (c : CheckedCall) {s' : Timed I} (other : c ≠ .plain .updateVersion) (h : Kept s s') :
    Effect s c s'
  | opened (i : Nat) {s' : Timed I} (draft : s.proposal.state = .draft)
      (h : Entered s i .openForFeedback s') : Effect s (.plain .openForFeedback) s'
  | votingStarted (d : Duration) (e : DateTime) (i : Nat) {s' : Timed I}
      (open_ : s.proposal.state = .openForFeedback) (ends : EndsVote s d e)
      (h : Entered { s with proposal := s.proposal.endingAt e } i .voting s') :
    Effect s (.plain (.startVoting d)) s'
  | executed (i : Nat) {s' : Timed I} (voting : s.proposal.state = .voting)
      (due : s.proposal.allowEarlyExecution = true ∨
        ∀ e, s.proposal.expiresAt = some e → e ≤ s.clock s.reads)
      (h : Entered s i .executed s') : Effect s (.plain .execute) s'
  | rejected (i : Nat) {s' : Timed I} (voting : s.proposal.state = .voting)
      (h : Entered s i .rejected s') : Effect s (.plain .reject) s'
  | expired (c : CheckedCall) (e : DateTime) (i : Nat) {s' : Timed I}
      (other : c ≠ .plain .updateVersion) (voting : s.proposal.state = .voting)
      (expiry : s.proposal.expiresAt = some e)
      (past : e < s.clock s.reads) (h : Entered s i .expired s') : Effect s c s'
  | updated (i : Nat) {s' : Timed I}
      (h : Entered { s with proposal := s.proposal.atVersion (s.proposal.currentVersion + 1) } i
        s.proposal.state s') : Effect s (.plain .updateVersion) s'
  /-- The time is not checked. -/
  | votedExecuted (ticks : Nat) {s' : Timed I} (voting : s.proposal.state = .voting)
      (h : Entered s (s.reads + ticks) .executed s') : Effect s (.toExecuted ticks (.ok true)) s'
  | votedRejected (ticks : Nat) {s' : Timed I} (voting : s.proposal.state = .voting)
      (h : Entered s (s.reads + ticks) .rejected s') : Effect s (.toRejected ticks (.ok false)) s'

section steps
variable {α β : Type} {s s' : Timed I}

theorem get_apply (s : Timed I) : (get : LifecycleM I (Timed I)) s = .ok s s := rfl

theorem bind_of_ok {x : LifecycleM I α} {f : α → LifecycleM I β} {a : α} (h : x s = .ok a s') :
    (x >>= f) s = f a s' := by
  simp only [bind, EStateM.bind, h]

/-- A method that returns has come through each of its steps. -/
theorem bind_eq_ok {x : LifecycleM I α} {f : α → LifecycleM I β} {b : β}
    (h : (x >>= f) s = .ok b s') : ∃ a s₁, x s = .ok a s₁ ∧ f a s₁ = .ok b s' := by
  simp only [bind, EStateM.bind] at h
  cases hx : x s with
  | ok a s₁ =>
    rw [hx] at h
    exact ⟨a, s₁, rfl, h⟩
  | error e s₁ =>
    rw [hx] at h
    cases h

theorem addDuration_ok {t r : DateTime} {d : Duration} (h : addDuration t d s = .ok r s') :
    r = t + d ∧ s' = s := by
  unfold addDuration at h
  split at h
  · cases h
    exact ⟨rfl, rfl⟩
  · cases h

theorem enter_entered (state : ProposalState) (s : Timed I) :
    ∃ s', enter state s = .ok () s' ∧ Entered s s.reads state s' :=
  ⟨_, rfl, rfl, rfl, le_refl _, Nat.lt_succ_self _⟩

theorem Kept.refl (s : Timed I) : Kept s s := ⟨rfl, rfl, le_refl _⟩

/-- Readings of the clock after the state has been entered. -/
theorem Entered.trans {i : Nat} {state : ProposalState} {s₁ : Timed I}
    (h : Entered s i state s₁) (h' : Kept s₁ s') : Entered s i state s' where
  proposal := h'.proposal.trans h.proposal
  clock := h'.clock.trans h.clock
  started := h.started
  later := lt_of_lt_of_le h.later h'.later

/-- Readings of the clock before the state is entered. -/
theorem Kept.entered {i : Nat} {state : ProposalState} {s₁ : Timed I} (h : Kept s s₁)
    (h' : Entered s₁ i state s') : Entered s i state s' where
  proposal := by rw [h'.proposal, h.proposal, h.clock]
  clock := h'.clock.trans h.clock
  started := h.later.trans h'.started
  later := h'.later

theorem openForFeedback_effect (h : openForFeedback s = .ok () s') :
    Effect s (.plain .openForFeedback) s' := by
  unfold openForFeedback at h
  rw [bind_of_ok (get_apply s)] at h
  by_cases hstate : s.proposal.state = .draft
  · rw [if_pos hstate] at h
    obtain ⟨s₁, henter, hs₁⟩ := enter_entered .openForFeedback s
    rw [bind_of_ok henter, bind_of_ok (get_apply s₁)] at h
    refine .opened s.reads hstate (hs₁.trans ?_)
    cases hduration : s₁.proposal.discussionDuration with
    | none =>
      rw [hduration] at h
      cases h
      exact .refl _
    | some duration =>
      rw [hduration] at h
      obtain ⟨t, s₂, hnow, hrest⟩ := bind_eq_ok h
      obtain ⟨r, s₃, hadd, hend⟩ := bind_eq_ok hrest
      obtain ⟨-, hs₃⟩ := addDuration_ok hadd
      cases hend
      cases hnow
      rw [hs₃]
      exact ⟨rfl, rfl, Nat.le_succ _⟩
  · rw [if_neg hstate] at h
    cases h
    exact .kept _ nofun (.refl s)

/-- The expiry after the minimum voting period has been looked at. -/
theorem overrideExpiry_ok {d : Duration} (h : overrideExpiry d s = .ok () s') :
    s'.clock = s.clock ∧ s.reads ≤ s'.reads ∧
      ((s.proposal.minVotingPeriod.getD d ≤ d ∧ s'.proposal = s.proposal) ∨
        ∃ minPeriod, s.proposal.minVotingPeriod = some minPeriod ∧ d < minPeriod ∧
          s'.proposal = s.proposal.endingAt (s.clock s.reads + minPeriod)) := by
  unfold overrideExpiry at h
  rw [bind_of_ok (get_apply s)] at h
  cases hmin : s.proposal.minVotingPeriod with
  | none =>
    rw [hmin] at h
    cases h
    exact ⟨rfl, le_refl _, .inl ⟨le_refl _, rfl⟩⟩
  | some minPeriod =>
    rw [hmin] at h
    by_cases hshort : d < minPeriod
    · simp only [if_pos hshort] at h
      obtain ⟨t, s₁, hnow, hrest⟩ := bind_eq_ok h
      obtain ⟨e, s₂, hadd, hend⟩ := bind_eq_ok hrest
      obtain ⟨rfl, hs₂⟩ := addDuration_ok hadd
      cases hnow
      cases hend
      rw [hs₂]
      exact ⟨rfl, Nat.le_succ _, .inr ⟨minPeriod, rfl, hshort, rfl⟩⟩
    · simp only [if_neg hshort] at h
      cases h
      exact ⟨rfl, le_refl _, .inl ⟨not_lt.mp hshort, rfl⟩⟩

theorem startVoting_effect {d : Duration} (h : startVoting d s = .ok () s') :
    Effect s (.plain (.startVoting d)) s' := by
  unfold startVoting at h
  rw [bind_of_ok (get_apply s)] at h
  by_cases hstate : s.proposal.state = .openForFeedback
  · rw [if_pos hstate] at h
    obtain ⟨_, s₁, hvoting, hrest⟩ := bind_eq_ok h
    obtain ⟨t, s₂, hnow, hrest⟩ := bind_eq_ok hrest
    obtain ⟨e, s₃, hadd, hrest⟩ := bind_eq_ok hrest
    obtain ⟨_, s₄, hending, hrest⟩ := bind_eq_ok hrest
    obtain ⟨_, s₅, hoverride, hend⟩ := bind_eq_ok hrest
    obtain ⟨he, hs₃⟩ := addDuration_ok hadd
    obtain rfl : s₁ = { s with proposal := s.proposal.inState .voting } := by
      cases hvoting
      rfl
    obtain ⟨rfl, rfl⟩ : t = s.clock s.reads ∧
        s₂ = ⟨s.proposal.inState .voting, s.clock, s.reads + 1⟩ := by
      cases hnow
      exact ⟨rfl, rfl⟩
    obtain rfl : s₄ = ⟨(s.proposal.inState .voting).endingAt e, s.clock, s.reads + 1⟩ := by
      rw [hs₃] at hending
      cases hending
      rfl
    obtain ⟨hclock, hreads, hproposal⟩ := overrideExpiry_ok hoverride
    cases hend
    have hlater : s.reads ≤ s₅.reads := (Nat.le_succ _).trans hreads
    obtain ⟨hlong, hsame⟩ | ⟨minPeriod, hmin, hshort, hmoved⟩ := hproposal
    · refine .votingStarted d e s₅.reads hstate ⟨s.reads, le_refl _, ?_⟩
        ⟨?_, hclock, hlater, Nat.lt_succ_self _⟩
      · have hset : s.proposal.minVotingPeriod.getD d ≤ d := hlong
        rw [he, max_eq_left hset]
      · rw [hsame, hclock]
        rfl
    · refine .votingStarted d (s.clock (s.reads + 1) + minPeriod) s₅.reads hstate
        ⟨s.reads + 1, Nat.le_succ _, ?_⟩ ⟨?_, hclock, hlater, Nat.lt_succ_self _⟩
      · have hset : s.proposal.minVotingPeriod = some minPeriod := hmin
        rw [hset, Option.getD_some, max_eq_right hshort.le]
      · rw [hmoved, hclock]
        rfl
  · rw [if_neg hstate] at h
    cases h
    exact .kept _ nofun (.refl s)

theorem tooEarly_ok {early : Bool} (h : tooEarly s = .ok early s') :
    Kept s s' ∧ (early = false → s.proposal.allowEarlyExecution = true ∨
      ∀ e, s.proposal.expiresAt = some e → e ≤ s.clock s.reads) := by
  unfold tooEarly at h
  rw [bind_of_ok (get_apply s)] at h
  by_cases hallowed : s.proposal.allowEarlyExecution = true
  · simp only [if_pos hallowed] at h
    cases h
    exact ⟨.refl s, fun _ => .inl hallowed⟩
  · simp only [if_neg hallowed] at h
    cases hexpiry : s.proposal.expiresAt with
    | none =>
      rw [hexpiry] at h
      cases h
      exact ⟨.refl s, fun _ => .inr nofun⟩
    | some e =>
      rw [hexpiry] at h
      cases h
      refine ⟨⟨rfl, rfl, Nat.le_succ _⟩, fun hlate => .inr ?_⟩
      intro e' he'
      obtain rfl := Option.some.inj he'
      exact not_lt.mp (of_decide_eq_false hlate)

theorem execute_effect (h : execute s = .ok () s') : Effect s (.plain .execute) s' := by
  unfold execute at h
  rw [bind_of_ok (get_apply s)] at h
  by_cases hstate : s.proposal.state = .voting
  · rw [if_pos hstate] at h
    obtain ⟨early, s₁, hearly, h⟩ := bind_eq_ok h
    obtain ⟨hkept, hdue⟩ := tooEarly_ok hearly
    cases early with
    | true =>
      cases h
      exact .kept _ nofun hkept
    | false =>
      obtain ⟨s₂, henter, hs₂⟩ := enter_entered .executed s₁
      obtain rfl : s₂ = s' := by
        have := henter.symm.trans h
        cases this
        rfl
      exact .executed s₁.reads hstate (hdue rfl) (hkept.entered hs₂)
  · rw [if_neg hstate] at h
    cases h
    exact .kept _ nofun (.refl s)

theorem reject_effect (h : reject s = .ok () s') : Effect s (.plain .reject) s' := by
  unfold reject at h
  rw [bind_of_ok (get_apply s)] at h
  by_cases hstate : s.proposal.state = .voting
  · rw [if_pos hstate] at h
    cases h
    exact .rejected s.reads hstate ⟨rfl, rfl, le_refl _, Nat.lt_succ_self _⟩
  · rw [if_neg hstate] at h
    cases h
    exact .kept _ nofun (.refl s)

theorem pastExpiry_ok {past : Bool} (h : pastExpiry s = .ok past s') :
    Kept s s' ∧ (past = true → ∃ e, s.proposal.expiresAt = some e ∧ e < s.clock s.reads) := by
  unfold pastExpiry at h
  rw [bind_of_ok (get_apply s)] at h
  cases hexpiry : s.proposal.expiresAt with
  | none =>
    rw [hexpiry] at h
    cases h
    exact ⟨.refl s, nofun⟩
  | some e =>
    rw [hexpiry] at h
    cases h
    exact ⟨⟨rfl, rfl, Nat.le_succ _⟩, fun hpast => ⟨e, rfl, of_decide_eq_true hpast⟩⟩

theorem updateVersion_effect (h : updateVersion s = .ok () s') :
    Effect s (.plain .updateVersion) s' := by
  unfold updateVersion at h
  rw [bind_of_ok (get_apply s)] at h
  by_cases hfits : s.proposal.currentVersion + 1 < 2 ^ 64
  · rw [if_pos hfits] at h
    cases h
    exact .updated s.reads ⟨rfl, rfl, le_refl _, Nat.lt_succ_self _⟩
  · rw [if_neg hfits] at h
    cases h

/-- `expire` and `check_expiry` do the same. -/
theorem checkExpiry_effect {c : CheckedCall} (hc : c ≠ .plain .updateVersion) {b : Bool}
    (h : checkExpiry s = .ok b s') : Effect s c s' := by
  unfold checkExpiry at h
  rw [bind_of_ok (get_apply s)] at h
  by_cases hstate : s.proposal.state = .voting
  · rw [if_pos hstate] at h
    obtain ⟨past, s₁, hpast, hrest⟩ := bind_eq_ok h
    obtain ⟨hkept, hexpired⟩ := pastExpiry_ok hpast
    cases past with
    | false =>
      cases hrest
      exact .kept c hc hkept
    | true =>
      obtain ⟨e, hexpiry, hlate⟩ := hexpired rfl
      obtain ⟨s₂, henter, hs₂⟩ := enter_entered .expired s₁
      rw [if_pos rfl, bind_of_ok henter] at hrest
      cases hrest
      exact .expired c e s₁.reads hc hstate hexpiry hlate (hkept.entered hs₂)
  · rw [if_neg hstate] at h
    cases h
    exact .kept c hc (.refl s)

theorem expire_effect (h : expire s = .ok () s') : Effect s (.plain .expire) s' := by
  suffices hcheck : ∃ b, checkExpiry s = .ok b s' by
    obtain ⟨b, hb⟩ := hcheck
    exact checkExpiry_effect nofun hb
  unfold expire at h
  unfold checkExpiry
  rw [bind_of_ok (get_apply s)] at h ⊢
  by_cases hstate : s.proposal.state = .voting
  · rw [if_pos hstate] at h ⊢
    obtain ⟨past, s₁, hpast, hrest⟩ := bind_eq_ok h
    rw [bind_of_ok hpast]
    cases past with
    | false =>
      cases hrest
      exact ⟨false, rfl⟩
    | true =>
      rw [if_pos rfl] at hrest ⊢
      rw [bind_of_ok hrest]
      exact ⟨true, rfl⟩
  · rw [if_neg hstate] at h ⊢
    cases h
    exact ⟨false, rfl⟩

theorem checkVotes_apply (ticks : Nat) (passed : Except String Bool) (s : Timed I) :
    checkVotes ticks passed s = .ok passed { s with reads := s.reads + ticks } := rfl

theorem ticks_kept (s : Timed I) (ticks : Nat) : Kept s { s with reads := s.reads + ticks } :=
  ⟨rfl, rfl, Nat.le_add_right _ _⟩

theorem transitionToExecuted_effect {ticks : Nat} {passed r : Except String Bool}
    (h : transitionToExecuted ticks passed s = .ok r s') :
    Effect s (.toExecuted ticks passed) s' := by
  unfold transitionToExecuted at h
  rw [bind_of_ok (get_apply s)] at h
  by_cases hstate : s.proposal.state = .voting
  · rw [if_pos hstate, bind_of_ok (checkVotes_apply ticks passed s)] at h
    rcases passed with e | _ | _
    · cases h
      exact .kept _ nofun (ticks_kept s ticks)
    · cases h
      exact .kept _ nofun (ticks_kept s ticks)
    · cases h
      exact .votedExecuted ticks hstate
        ⟨rfl, rfl, Nat.le_add_right _ _, Nat.lt_succ_self _⟩
  · rw [if_neg hstate] at h
    cases h
    exact .kept _ nofun (.refl s)

theorem transitionToRejected_effect {ticks : Nat} {passed r : Except String Bool}
    (h : transitionToRejected ticks passed s = .ok r s') :
    Effect s (.toRejected ticks passed) s' := by
  unfold transitionToRejected at h
  rw [bind_of_ok (get_apply s)] at h
  by_cases hstate : s.proposal.state = .voting
  · rw [if_pos hstate, bind_of_ok (checkVotes_apply ticks passed s)] at h
    rcases passed with e | _ | _
    · cases h
      exact .kept _ nofun (ticks_kept s ticks)
    · cases h
      exact .votedRejected ticks hstate
        ⟨rfl, rfl, Nat.le_add_right _ _, Nat.lt_succ_self _⟩
    · cases h
      exact .kept _ nofun (ticks_kept s ticks)
  · rw [if_neg hstate] at h
    cases h
    exact .kept _ nofun (.refl s)

theorem transitionToExpired_effect {ticks : Nat} {passed r : Except String Bool}
    (h : transitionToExpired ticks passed s = .ok r s') :
    Effect s (.toExpired ticks passed) s' := by
  unfold transitionToExpired at h
  rw [bind_of_ok (get_apply s)] at h
  by_cases hstate : s.proposal.state = .voting
  · rw [if_pos hstate] at h
    obtain ⟨past, s₁, hpast, hrest⟩ := bind_eq_ok h
    obtain ⟨hkept, hexpired⟩ := pastExpiry_ok hpast
    cases past with
    | false =>
      cases hrest
      exact .kept _ nofun hkept
    | true =>
      obtain ⟨e, hexpiry, hlate⟩ := hexpired rfl
      have hcounted := ticks_kept s₁ ticks
      rw [if_pos rfl, bind_of_ok (checkVotes_apply ticks passed s₁)] at hrest
      cases passed with
      | error e' =>
        cases hrest
        exact .kept _ nofun ⟨hkept.proposal, hkept.clock, hkept.later.trans hcounted.later⟩
      | ok passed =>
        obtain ⟨s₂, henter, hs₂⟩ := enter_entered .expired { s₁ with reads := s₁.reads + ticks }
        dsimp only at hrest
        rw [bind_of_ok henter] at hrest
        cases hrest
        exact .expired _ e _ nofun hstate hexpiry hlate (hkept.entered (hcounted.entered hs₂))
  · rw [if_neg hstate] at h
    cases h
    exact .kept _ nofun (.refl s)

theorem Call.effect {c : Call} (h : c.perform s = .ok () s') : Effect s (.plain c) s' := by
  cases c with
  | openForFeedback => exact openForFeedback_effect h
  | startVoting d => exact startVoting_effect h
  | execute => exact execute_effect h
  | reject => exact reject_effect h
  | expire => exact expire_effect h
  | checkExpiry =>
    obtain ⟨b, s₁, hcheck, hend⟩ := bind_eq_ok h
    cases hend
    exact checkExpiry_effect nofun hcheck
  | updateVersion => exact updateVersion_effect h

theorem CheckedCall.effect {c : CheckedCall} (h : c.perform s = .ok () s') : Effect s c s' := by
  cases c with
  | plain c => exact Call.effect h
  | toExecuted ticks passed =>
    obtain ⟨r, s₁, hcall, hend⟩ := bind_eq_ok h
    cases hend
    exact transitionToExecuted_effect hcall
  | toRejected ticks passed =>
    obtain ⟨r, s₁, hcall, hend⟩ := bind_eq_ok h
    cases hend
    exact transitionToRejected_effect hcall
  | toExpired ticks passed =>
    obtain ⟨r, s₁, hcall, hend⟩ := bind_eq_ok h
    cases hend
    exact transitionToExpired_effect hcall

end steps

end ProposalLifecycle

end Covm
